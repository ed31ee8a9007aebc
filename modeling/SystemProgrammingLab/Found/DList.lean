import Mathlib.Data.List.Induction
import Mathlib.Data.List.Nodup
import Mathlib.Data.List.Perm.Subperm
import Mathlib.Logic.Function.Basic
import Mathlib.Tactic.Common

/-!
# Doubly linked lists in a heap

A heap maps the addresses of the allocated objects to their contents. A pointer is `none` (`NULL`)
or an address; reading or writing through `NULL` or through the address of an object that was
freed is `none`. `malloc` hands out an address that was never used.

A list object has a counter, a head and a tail, and its nodes are linked both ways. `Rep h l ns`
says that `l` represents the sequence `ns` of (address, value) pairs in the heap `h`. Each
operation comes with the lemma that it is defined on a represented list and what the result
represents: `Rep.insertAtTail`, `Rep.deleteNode`, `Rep.deleteAll`. An insertion links a new node between
two neighbours (`Linked`), wherever that is (`Rep.linked`).
-/

namespace SystemProgrammingLab.Found

/-! ## The heap -/

/-- The allocated objects; the addresses from `fresh` on were never used. -/
structure Heap (β : Type*) where
  cell : Nat → Option β
  fresh : Nat

/-- A pointer; `none` is `NULL`. -/
abbrev Ptr := Option Nat

section heap

variable {β : Type*}

/-- The heap without objects. -/
def Heap.empty : Heap β := ⟨fun _ => none, 0⟩

/-- Allocate an object with the given contents. -/
def Heap.malloc (h : Heap β) (b : β) : Nat × Heap β :=
  (h.fresh, ⟨Function.update h.cell h.fresh (some b), h.fresh + 1⟩)

/-- `*p` -/
def Heap.load (h : Heap β) (p : Ptr) : Option β := p.bind h.cell

/-- Change the object at `p`. -/
def Heap.modify (h : Heap β) (p : Nat) (f : β → β) : Option (Heap β) :=
  (h.cell p).map fun b => { h with cell := Function.update h.cell p (some (f b)) }

/-- `free(p)` -/
def Heap.free (h : Heap β) (p : Nat) : Option (Heap β) :=
  (h.cell p).map fun _ => { h with cell := Function.update h.cell p none }

/-- A pointer that is followed is not `NULL`. -/
theorem Heap.ne_none_of_load {h : Heap β} {p : Ptr} {b : β} (hp : h.load p = some b) : p ≠ none := by
  rintro rfl
  cases hp

/-- A cell that exists is changed. -/
theorem Heap.modify_of_cell {h : Heap β} {p : Nat} {b : β} (hp : h.cell p = some b) (f : β → β) :
    h.modify p f = some { h with cell := Function.update h.cell p (some (f b)) } := by
  rw [Heap.modify, hp]
  rfl

/-- A write to an object changes this object only. -/
theorem Heap.exists_modify {h : Heap β} {p : Nat} {b : β} (hp : h.cell p = some b) (f : β → β) :
    ∃ h', h.modify p f = some h' ∧ h'.cell p = some (f b) ∧ (∀ r, r ≠ p → h'.cell r = h.cell r) ∧
      h'.fresh = h.fresh :=
  ⟨_, Heap.modify_of_cell hp f, Function.update_self _ _ _, fun _ hr => Function.update_of_ne hr _ _, rfl⟩

/-- A cell that exists is freed. -/
theorem Heap.free_of_cell {h : Heap β} {p : Nat} {b : β} (hp : h.cell p = some b) :
    h.free p = some { h with cell := Function.update h.cell p none } := by
  rw [Heap.free, hp]
  rfl

end heap

/-! ## Lists and their operations -/

/-- A node. -/
structure Node (α : Type*) where
  val : α
  next : Ptr
  prev : Ptr

/-- The list object. -/
structure DList where
  num : Int
  head : Ptr
  tail : Ptr

/-- `{0, NULL, NULL}` -/
def DList.empty : DList := ⟨0, none, none⟩

variable {α : Type*}

/-- A node that is in no list yet. -/
def Node.single (x : α) : Node α := ⟨x, none, none⟩

/-- Append the node `p` to the list. -/
def insertAtTail (h : Heap (Node α)) (l : DList) (p : Nat) : Option (Heap (Node α) × DList) :=
  match l.tail with
  | none => some (h, ⟨l.num + 1, some p, some p⟩)
  | some t => do
      let h ← h.modify p fun n => { n with prev := some t }
      let h ← h.modify t fun n => { n with next := some p }
      return (h, ⟨l.num + 1, l.head, some p⟩)

/-- Link what is before the node `n` to what is behind it. -/
def linkBefore (h : Heap (Node α)) (l : DList) (n : Node α) : Option (Heap (Node α) × DList) :=
  match n.prev with
  | some q => (h.modify q fun m => { m with next := n.next }).map fun h => (h, l)
  | none => some (h, { l with head := n.next })

/-- Link what is behind the node `n` to what is before it. -/
def linkBehind (h : Heap (Node α)) (l : DList) (n : Node α) : Option (Heap (Node α) × DList) :=
  match n.next with
  | some q => (h.modify q fun m => { m with prev := n.prev }).map fun h => (h, l)
  | none => some (h, { l with tail := n.prev })

/-- Unlink the node `p` from the list and free it. -/
def deleteNode (h : Heap (Node α)) (l : DList) (p : Nat) : Option (Heap (Node α) × DList) := do
  let n ← h.load (some p)
  let (h, l) ← linkBefore h l n
  let n ← h.load (some p)
  let (h, l) ← linkBehind h l n
  let h ← h.free p
  return (h, { l with num := l.num - 1 })

/-- Delete the head until the list is empty, at most `fuel` times. -/
def deleteAllFuel : Nat → Heap (Node α) → DList → Option (Heap (Node α) × DList)
  | fuel, h, l =>
      match l.head with
      | none => some (h, l)
      | some p =>
          match fuel with
          | 0 => none
          | fuel + 1 => do
              let (h, l) ← deleteNode h l p
              deleteAllFuel fuel h l

/-- Delete the head until the list is empty. Each round frees one of the objects that were
allocated, so there are no more rounds than addresses in use. -/
def deleteAll (h : Heap (Node α)) (l : DList) : Option (Heap (Node α) × DList) :=
  deleteAllFuel h.fresh h l

/-! ## Representation -/

/-- The address of the first node. -/
def firstPtr (ns : List (Nat × α)) : Ptr := ns.head?.map Prod.fst

/-- The address of the last node. -/
def lastPtr (ns : List (Nat × α)) : Ptr := ns.getLast?.map Prod.fst

/-- No nodes have no first one. -/
@[simp] theorem firstPtr_nil : firstPtr ([] : List (Nat × α)) = none := rfl

/-- The pointer to the first node. -/
@[simp] theorem firstPtr_cons (n : Nat × α) (ns : List (Nat × α)) :
    firstPtr (n :: ns) = some n.1 := rfl

/-- No nodes have no last one. -/
@[simp] theorem lastPtr_nil : lastPtr ([] : List (Nat × α)) = none := rfl

/-- The pointer to the last node. -/
@[simp] theorem lastPtr_append_singleton (ns : List (Nat × α)) (n : Nat × α) :
    lastPtr (ns ++ [n]) = some n.1 := by
  simp [lastPtr]

/-- The first node of two parts. -/
theorem firstPtr_append (as bs : List (Nat × α)) :
    firstPtr (as ++ bs) = (firstPtr as).or (firstPtr bs) := by
  cases as <;> simp [firstPtr]

/-- The last node of two parts. -/
theorem lastPtr_append (as bs : List (Nat × α)) :
    lastPtr (as ++ bs) = (lastPtr bs).or (lastPtr as) := by
  rcases List.eq_nil_or_concat' bs with rfl | ⟨bs, b, rfl⟩
  · simp
  · rw [← List.append_assoc, lastPtr_append_singleton, lastPtr_append_singleton]
    rfl

/-- The list `l` represents the nodes `ns`, in order: each node is linked to the one before it and
the one behind it. -/
structure Rep (h : Heap (Node α)) (l : DList) (ns : List (Nat × α)) : Prop where
  node : ∀ {as : List (Nat × α)} {p : Nat} {x : α} {bs : List (Nat × α)},
    ns = as ++ (p, x) :: bs → h.cell p = some ⟨x, firstPtr bs, lastPtr as⟩
  nodup : (ns.map Prod.fst).Nodup
  fresh : ∀ p ∈ ns.map Prod.fst, p < h.fresh
  head : l.head = firstPtr ns
  tail : l.tail = lastPtr ns
  num : l.num = ns.length

/-- A list object with counter 0 and no nodes. -/
theorem rep_empty (h : Heap (Node α)) : Rep h DList.empty [] where
  node := by simp
  nodup := List.nodup_nil
  fresh := by simp
  head := rfl
  tail := rfl
  num := rfl

/-- The address of a node does not occur before or behind it. -/
theorem Rep.not_mem {h : Heap (Node α)} {l : DList} {as bs : List (Nat × α)} {p : Nat} {x : α}
    (hrep : Rep h l (as ++ (p, x) :: bs)) :
    p ∉ as.map Prod.fst ∧ p ∉ bs.map Prod.fst := by
  have hnodup := hrep.nodup
  rw [List.map_append, List.map_cons, List.nodup_append, List.nodup_cons] at hnodup
  obtain ⟨-, ⟨hbs, -⟩, hdisj⟩ := hnodup
  exact ⟨fun hp => hdisj p hp p (by simp) rfl, hbs⟩

/-- A new object leaves the list as it is. -/
theorem Rep.malloc {h : Heap (Node α)} {l : DList} {ns : List (Nat × α)} (hrep : Rep h l ns)
    (b : Node α) :
    Rep (h.malloc b).2 l ns ∧ (h.malloc b).2.cell h.fresh = some b ∧
      h.fresh ∉ ns.map Prod.fst := by
  have hnew : h.fresh ∉ ns.map Prod.fst := fun hmem => Nat.lt_irrefl _ (hrep.fresh _ hmem)
  refine ⟨?_, by simp [Heap.malloc], hnew⟩
  refine ⟨?_, hrep.nodup, ?_, hrep.head, hrep.tail, hrep.num⟩
  · intro as p x bs hns
    have hne : p ≠ h.fresh := by
      rintro rfl
      exact hnew (by simp [hns])
    show Function.update h.cell h.fresh (some b) p = _
    rw [Function.update_of_ne hne]
    exact hrep.node hns
  · intro p hp
    exact Nat.lt_succ_of_lt (hrep.fresh p hp)

/-! ## Linking a new node -/

/-- A place in `as ++ bs` is one in `as` or one in `bs`. -/
theorem split_of_append_eq {β : Type*} {as bs as' bs' : List β} {m : β}
    (h : as ++ bs = as' ++ m :: bs') :
    (∃ cs, as = as' ++ m :: cs ∧ bs' = cs ++ bs) ∨ ∃ cs, bs = cs ++ m :: bs' ∧ as' = as ++ cs := by
  rcases List.append_eq_append_iff.mp h with ⟨cs, rfl, hbs⟩ | ⟨cs, rfl, hbs⟩
  · exact .inr ⟨cs, hbs, rfl⟩
  · cases cs with
    | nil => exact .inr ⟨[], by simpa using hbs.symm, by simp⟩
    | cons c cs =>
        rw [List.cons_append, List.cons.injEq] at hbs
        obtain ⟨rfl, rfl⟩ := hbs
        exact .inl ⟨cs, rfl, rfl⟩

/-- The first node is one of the nodes. -/
theorem mem_of_firstPtr {ns : List (Nat × α)} {q : Nat} (h : firstPtr ns = some q) :
    q ∈ ns.map Prod.fst := by
  cases ns with
  | nil => cases h
  | cons n ns =>
      cases h
      simp

/-- So is the last one. -/
theorem mem_of_lastPtr {ns : List (Nat × α)} {q : Nat} (h : lastPtr ns = some q) :
    q ∈ ns.map Prod.fst := by
  rcases List.eq_nil_or_concat' ns with rfl | ⟨ms, n, rfl⟩
  · cases h
  · rw [lastPtr_append_singleton] at h
    cases h
    simp

/-- In the heap `h'` the node `q` is linked between the nodes `as` and the nodes `bs`, which are neighbours in
`h`. -/
structure Linked (h : Heap (Node α)) (as bs : List (Nat × α)) (q : Nat) (y : α) (h' : Heap (Node α)) :
    Prop where
  self : h'.cell q = some ⟨y, firstPtr bs, lastPtr as⟩
  other : ∀ {p n}, p ≠ q → h.cell p = some n → h'.cell p =
    some ⟨n.val, if lastPtr as = some p then some q else n.next,
      if firstPtr bs = some p then some q else n.prev⟩
  fresh : h'.fresh = h.fresh

section insert

variable {h h' : Heap (Node α)} {l : DList} {as bs ns : List (Nat × α)} {q : Nat} {y : α}

/-- Linking a new node between two neighbours puts it between them in the sequence. -/
theorem Rep.linked (hrep : Rep h l (as ++ bs)) (hnew : q ∉ (as ++ bs).map Prod.fst) (hlt : q < h.fresh)
    (hlink : Linked h as bs q y h') :
    Rep h' ⟨l.num + 1, firstPtr (as ++ (q, y) :: bs), lastPtr (as ++ (q, y) :: bs)⟩
      (as ++ (q, y) :: bs) := by
  have hperm : ((as ++ (q, y) :: bs).map Prod.fst).Perm (q :: (as ++ bs).map Prod.fst) :=
    List.perm_middle.map _
  have hne : ∀ {p}, p ∈ (as ++ bs).map Prod.fst → p ≠ q := by
    rintro p hp rfl
    exact hnew hp
  refine ⟨?_, hperm.nodup_iff.mpr (List.nodup_cons.mpr ⟨hnew, hrep.nodup⟩), ?_, rfl, rfl, ?_⟩
  · intro as' p z bs' hns
    rcases split_of_append_eq hns with ⟨cs, rfl, rfl⟩ | ⟨cs, hbs, rfl⟩
    · -- a node before the new one
      have hp : p ≠ q := hne (by simp)
      have hsplit : (as' ++ (p, z) :: cs) ++ bs = as' ++ (p, z) :: (cs ++ bs) := by simp
      have hnode := hrep.node hsplit
      rw [hsplit] at hrep
      have hmem := hrep.not_mem.2
      simp only [List.map_append, List.mem_append, not_or] at hmem
      have hfirst : firstPtr bs ≠ some p := fun h => hmem.2 (mem_of_firstPtr h)
      rw [hlink.other hp hnode, if_neg hfirst]
      rcases List.eq_nil_or_concat' cs with rfl | ⟨ds, d, rfl⟩
      · rw [if_pos (lastPtr_append_singleton as' (p, z))]
        rfl
      · have hassoc : as' ++ (p, z) :: (ds ++ [d]) = (as' ++ (p, z) :: ds) ++ [d] := by simp
        have hlast : lastPtr (as' ++ (p, z) :: (ds ++ [d])) ≠ some p := by
          rw [hassoc, lastPtr_append_singleton]
          intro h
          exact hmem.1 (by simp [← Option.some.inj h])
        rw [if_neg hlast]
        cases ds <;> rfl
    · rcases cs with _ | ⟨c, cs⟩
      · -- the new node
        rw [List.nil_append, List.cons.injEq] at hbs
        obtain ⟨hp, rfl⟩ := hbs
        cases hp
        rw [hlink.self, List.append_nil]
      · -- a node behind it
        rw [List.cons_append, List.cons.injEq] at hbs
        obtain ⟨rfl, rfl⟩ := hbs
        have hp : p ≠ q := hne (by simp)
        have hsplit : as ++ (cs ++ (p, z) :: bs') = (as ++ cs) ++ (p, z) :: bs' := by simp
        have hnode := hrep.node hsplit
        rw [hsplit] at hrep
        have hmem := hrep.not_mem.1
        simp only [List.map_append, List.mem_append, not_or] at hmem
        have hlast : lastPtr as ≠ some p := fun h => hmem.1 (mem_of_lastPtr h)
        rw [hlink.other hp hnode, if_neg hlast]
        rcases List.eq_nil_or_concat' cs with rfl | ⟨ds, d, rfl⟩
        · rw [List.nil_append, firstPtr_cons, if_pos rfl, lastPtr_append_singleton]
        · have hfirst : firstPtr (ds ++ [d] ++ (p, z) :: bs') ≠ some p := by
            have hds : firstPtr (ds ++ [d] ++ (p, z) :: bs') = firstPtr (ds ++ [d]) := by
              cases ds <;> rfl
            rw [hds]
            intro h
            exact hmem.2 (mem_of_firstPtr h)
          have hassoc : as ++ (q, y) :: (ds ++ [d]) = (as ++ (q, y) :: ds) ++ [d] := by simp
          rw [if_neg hfirst, hassoc, lastPtr_append_singleton, ← List.append_assoc,
            lastPtr_append_singleton]
  · intro p hp
    rw [hlink.fresh]
    rcases List.mem_cons.mp (hperm.subset hp) with rfl | hp
    · exact hlt
    · exact hrep.fresh p hp
  · show l.num + 1 = _
    rw [hrep.num]
    simp only [List.length_append, List.length_cons]
    omega

/-- A node that is inserted at the tail is behind the others. -/
theorem Rep.insertAtTail (hrep : Rep h l ns) (hnew : q ∉ ns.map Prod.fst)
    (hq : h.cell q = some (.single y)) (hlt : q < h.fresh) :
    ∃ h' l', Found.insertAtTail h l q = some (h', l') ∧ Rep h' l' (ns ++ [(q, y)]) := by
  have hend : ns ++ [] = ns := List.append_nil ns
  rw [← hend] at hrep hnew
  unfold Found.insertAtTail
  rcases List.eq_nil_or_concat' ns with rfl | ⟨ms, ⟨t, x⟩, rfl⟩
  · -- the list was empty
    have htail : l.tail = none := hrep.tail
    have hlink : Linked h [] [] q y h := by
      refine ⟨hq, ?_, rfl⟩
      intro p n _ hn
      exact hn
    rw [htail]
    exact ⟨_, _, rfl, hrep.linked hnew hlt hlink⟩
  · have htail : l.tail = some t := by rw [hrep.tail, hend, lastPtr_append_singleton]
    have ht : h.cell t = some ⟨x, none, lastPtr ms⟩ := hrep.node (by rw [hend])
    have htq : t ≠ q := by
      rintro rfl
      exact hnew (by simp)
    obtain ⟨h₁, hmod₁, hq₁, hsame₁, hfresh₁⟩ := Heap.exists_modify hq fun n => { n with prev := some t }
    obtain ⟨h₂, hmod₂, ht₂, hsame₂, hfresh₂⟩ :=
      Heap.exists_modify ((hsame₁ t htq).trans ht) fun n => { n with next := some q }
    have hlink : Linked h (ms ++ [(t, x)]) [] q y h₂ := by
      refine ⟨?_, ?_, hfresh₂.trans hfresh₁⟩
      · rw [hsame₂ q htq.symm, hq₁, lastPtr_append_singleton]
        rfl
      · intro p n hpq hn
        rw [lastPtr_append_singleton]
        by_cases hpt : p = t
        · subst hpt
          rw [ht] at hn
          cases hn
          rw [ht₂]
          simp
        · have hlast : some t ≠ some p := fun h => hpt (Option.some.inj h).symm
          rw [hsame₂ p hpt, hsame₁ p hpq, hn, if_neg hlast]
          rfl
    have hhead : l.head = firstPtr ((ms ++ [(t, x)]) ++ [(q, y)]) := by
      rw [hrep.head, hend, firstPtr_append _ [(q, y)], firstPtr_append]
      cases firstPtr ms <;> rfl
    refine ⟨h₂, ⟨l.num + 1, l.head, some q⟩, ?_, ?_⟩
    · rw [htail]
      simp only [Option.bind_eq_bind, hmod₁, Option.bind_some, hmod₂]
      rfl
    · rw [hhead, ← lastPtr_append_singleton (ms ++ [(t, x)]) (q, y)]
      exact hrep.linked hnew hlt hlink

end insert

/-! ## Deleting -/

/-- Change the object that a pointer points to, if it is not `NULL`. -/
def Heap.touch {β : Type*} (h : Heap β) (p : Ptr) (f : β → β) : Heap β :=
  ⟨fun q => if p = some q then (h.cell q).map f else h.cell q, h.fresh⟩

/-- A change of a cell that exists. -/
theorem Heap.modify_eq_touch {β : Type*} {h : Heap β} {p : Nat} {b : β} (hp : h.cell p = some b)
    (f : β → β) : h.modify p f = some (h.touch (some p) f) := by
  rw [Heap.modify_of_cell hp]
  congr 2
  funext q
  by_cases hq : p = q
  · subst hq
    simp [hp]
  · simp [hq, Function.update_of_ne (Ne.symm hq)]

/-- Behind `NULL` nothing is changed. -/
theorem Heap.touch_none {β : Type*} (h : Heap β) (f : β → β) : h.touch none f = h := by
  simp [Heap.touch]

/-- The heap after the neighbours of the node `p` were linked to each other and `p` was freed. -/
def unlinked (h : Heap (Node α)) (as bs : List (Nat × α)) (p : Nat) : Heap (Node α) :=
  let h := (h.touch (lastPtr as) fun n => { n with next := firstPtr bs }).touch (firstPtr bs)
    fun n => { n with prev := lastPtr as }
  { h with cell := Function.update h.cell p none }

/-- The neighbours of a node are allocated. -/
theorem Rep.exists_cell {h : Heap (Node α)} {l : DList} {ns : List (Nat × α)} (hrep : Rep h l ns)
    {q : Nat} (hq : q ∈ ns.map Prod.fst) : ∃ b, h.cell q = some b := by
  obtain ⟨⟨q, y⟩, hmem, rfl⟩ := List.mem_map.mp hq
  obtain ⟨as, bs, rfl⟩ := List.append_of_mem hmem
  exact ⟨_, hrep.node rfl⟩

section delete

variable {h : Heap (Node α)} {l : DList} {as bs : List (Nat × α)} {p : Nat} {x : α}
  (hrep : Rep h l (as ++ (p, x) :: bs))

include hrep

/-- The node before `p`, or the head, is linked to the node behind it. -/
theorem Rep.linkBefore_eq : linkBefore h l ⟨x, firstPtr bs, lastPtr as⟩ =
    some (h.touch (lastPtr as) fun m => { m with next := firstPtr bs },
      { l with head := firstPtr (as ++ bs) }) := by
  unfold linkBefore
  rcases List.eq_nil_or_concat' as with rfl | ⟨as, a, rfl⟩
  · simp [Heap.touch_none]
  · obtain ⟨b, hb⟩ := hrep.exists_cell (q := a.1) (by simp)
    have hhead : l.head = firstPtr (as ++ [a] ++ bs) := by
      rw [hrep.head]
      cases as <;> rfl
    rw [lastPtr_append_singleton, ← hhead]
    simp only [Heap.modify_eq_touch hb, Option.map_some]

/-- The node behind `p`, or the tail, is linked to the node before it. -/
theorem Rep.linkBehind_eq : linkBehind (h.touch (lastPtr as) fun m => { m with next := firstPtr bs })
    { l with head := firstPtr (as ++ bs) } ⟨x, firstPtr bs, lastPtr as⟩ =
      some ((h.touch (lastPtr as) fun m => { m with next := firstPtr bs }).touch (firstPtr bs)
        fun m => { m with prev := lastPtr as },
          { l with head := firstPtr (as ++ bs), tail := lastPtr (as ++ bs) }) := by
  unfold linkBehind
  cases bs with
  | nil => simp [Heap.touch_none]
  | cons b bs =>
      have hb : b.1 ∉ as.map Prod.fst := by
        intro hmem
        have hsplit : as ++ (p, x) :: b :: bs = (as ++ [(p, x)]) ++ (b.1, b.2) :: bs := by simp
        rw [hsplit] at hrep
        exact hrep.not_mem.1 (by simp [hmem])
      obtain ⟨c, hc⟩ := hrep.exists_cell (q := b.1) (by simp)
      have hc₁ : (h.touch (lastPtr as) fun m => { m with next := firstPtr (b :: bs) }).cell b.1 =
          some c := by
        have hne : lastPtr as ≠ some b.1 := fun hlast => hb (mem_of_lastPtr hlast)
        show (if lastPtr as = some b.1 then _ else h.cell b.1) = _
        rw [if_neg hne, hc]
      have htail : l.tail = lastPtr (as ++ b :: bs) := by
        rw [hrep.tail, lastPtr_append, lastPtr_append]
        rcases List.eq_nil_or_concat' bs with rfl | ⟨ms, n, rfl⟩
        · rfl
        · have hcons : (p, x) :: b :: (ms ++ [n]) = ((p, x) :: b :: ms) ++ [n] := rfl
          have hcons' : b :: (ms ++ [n]) = (b :: ms) ++ [n] := rfl
          rw [hcons, hcons', lastPtr_append_singleton, lastPtr_append_singleton]
      rw [firstPtr_cons] at hc₁
      simp only [firstPtr_cons, Heap.modify_eq_touch hc₁, Option.map_some, ← htail]

/-- Linking the neighbours of `p` leaves the node itself as it is. -/
theorem Rep.deleteNode_eq :
    Found.deleteNode h l p = some (unlinked h as bs p,
      ⟨l.num - 1, firstPtr (as ++ bs), lastPtr (as ++ bs)⟩) := by
  have hp : h.cell p = some ⟨x, firstPtr bs, lastPtr as⟩ := hrep.node rfl
  obtain ⟨hpas, hpbs⟩ := hrep.not_mem
  set h₁ := h.touch (lastPtr as) fun m => { m with next := firstPtr bs } with hh₁
  have hp₁ : h₁.cell p = some ⟨x, firstPtr bs, lastPtr as⟩ := by
    have hne : lastPtr as ≠ some p := fun hlast => hpas (mem_of_lastPtr hlast)
    show (if lastPtr as = some p then _ else h.cell p) = _
    rw [if_neg hne, hp]
  have hp₂ : (h₁.touch (firstPtr bs) fun m => { m with prev := lastPtr as }).cell p =
      some ⟨x, firstPtr bs, lastPtr as⟩ := by
    have hne : firstPtr bs ≠ some p := fun hfirst => hpbs (mem_of_firstPtr hfirst)
    show (if firstPtr bs = some p then _ else h₁.cell p) = _
    rw [if_neg hne, hp₁]
  have hload : h.load (some p) = some ⟨x, firstPtr bs, lastPtr as⟩ := hp
  have hload₁ : h₁.load (some p) = some ⟨x, firstPtr bs, lastPtr as⟩ := hp₁
  have hbefore := hrep.linkBefore_eq
  have hbehind := hrep.linkBehind_eq
  rw [← hh₁] at hbefore hbehind
  unfold Found.deleteNode
  simp only [Option.bind_eq_bind, hload, Option.bind_some, hbefore, hload₁, hbehind,
    Heap.free_of_cell hp₂]
  rfl

end delete

/-- What another node holds when `p` is unlinked and freed. -/
theorem unlinked_cell {h : Heap (Node α)} {as bs : List (Nat × α)} {p q : Nat} {n : Node α}
    (hq : q ≠ p) (hn : h.cell q = some n) : (unlinked h as bs p).cell q =
      some ⟨n.val, if lastPtr as = some q then firstPtr bs else n.next,
        if firstPtr bs = some q then lastPtr as else n.prev⟩ := by
  have hupdate : (unlinked h as bs p).cell q =
      ((h.touch (lastPtr as) fun n => { n with next := firstPtr bs }).touch (firstPtr bs)
        fun n => { n with prev := lastPtr as }).cell q := Function.update_of_ne hq _ _
  rw [hupdate]
  by_cases hlast : lastPtr as = some q <;> by_cases hfirst : firstPtr bs = some q <;>
    simp [Heap.touch, hlast, hfirst, hn]

/-- The list without a node. -/
theorem Rep.unlinked {h : Heap (Node α)} {l : DList} {as bs : List (Nat × α)} {p : Nat} {x : α}
    (hrep : Rep h l (as ++ (p, x) :: bs)) :
    Rep (Found.unlinked h as bs p) ⟨l.num - 1, firstPtr (as ++ bs), lastPtr (as ++ bs)⟩
      (as ++ bs) := by
  have hsub : ((as ++ bs).map Prod.fst).Sublist ((as ++ (p, x) :: bs).map Prod.fst) :=
    ((List.sublist_cons_self _ _).append_left as).map _
  refine ⟨?_, hrep.nodup.sublist hsub, ?_, rfl, rfl, ?_⟩
  · intro as' q z bs' hns
    rcases split_of_append_eq hns with ⟨cs, rfl, rfl⟩ | ⟨cs, rfl, rfl⟩
    · -- a node before `p`
      have hsplit : (as' ++ (q, z) :: cs) ++ (p, x) :: bs =
          as' ++ (q, z) :: (cs ++ (p, x) :: bs) := by simp
      have hnode := hrep.node hsplit
      rw [hsplit] at hrep
      have hq := hrep.not_mem.2
      simp only [List.map_append, List.map_cons, List.mem_append, List.mem_cons, not_or] at hq
      have hfirst : firstPtr bs ≠ some q := fun h => hq.2.2 (mem_of_firstPtr h)
      rw [unlinked_cell hq.2.1 hnode, if_neg hfirst]
      rcases List.eq_nil_or_concat' cs with rfl | ⟨ds, d, rfl⟩
      · rw [if_pos (lastPtr_append_singleton as' (q, z))]
        rfl
      · have hassoc : as' ++ (q, z) :: (ds ++ [d]) = (as' ++ (q, z) :: ds) ++ [d] := by simp
        have hd : lastPtr (as' ++ (q, z) :: (ds ++ [d])) ≠ some q := by
          rw [hassoc, lastPtr_append_singleton]
          intro h
          exact hq.1 (by simp [← Option.some.inj h])
        rw [if_neg hd]
        cases ds <;> rfl
    · -- a node behind `p`
      have hsplit : as ++ (p, x) :: (cs ++ (q, z) :: bs') =
          (as ++ (p, x) :: cs) ++ (q, z) :: bs' := by simp
      have hnode := hrep.node hsplit
      rw [hsplit] at hrep
      have hq := hrep.not_mem.1
      simp only [List.map_append, List.map_cons, List.mem_append, List.mem_cons, not_or] at hq
      have hlast : lastPtr as ≠ some q := fun h => hq.1 (mem_of_lastPtr h)
      rw [unlinked_cell hq.2.1 hnode, if_neg hlast]
      rcases List.eq_nil_or_concat' cs with rfl | ⟨ds, d, rfl⟩
      · rw [List.nil_append, firstPtr_cons, if_pos rfl, List.append_nil]
      · have hd : firstPtr (ds ++ [d] ++ (q, z) :: bs') ≠ some q := by
          have hfirst : firstPtr (ds ++ [d] ++ (q, z) :: bs') = firstPtr (ds ++ [d]) := by
            cases ds <;> rfl
          rw [hfirst]
          intro h
          exact hq.2.2 (mem_of_firstPtr h)
        have hassoc : as ++ (p, x) :: (ds ++ [d]) = (as ++ (p, x) :: ds) ++ [d] := by simp
        rw [if_neg hd, hassoc, lastPtr_append_singleton, ← List.append_assoc,
          lastPtr_append_singleton]
  · intro q hq
    exact hrep.fresh q (hsub.subset hq)
  · show l.num - 1 = _
    rw [hrep.num]
    simp only [List.length_append, List.length_cons]
    omega

/-- Deleting any node of the list removes it from the sequence. -/
theorem Rep.deleteNode {h : Heap (Node α)} {l : DList} {as bs : List (Nat × α)} {p : Nat} {x : α}
    (hrep : Rep h l (as ++ (p, x) :: bs)) :
    ∃ h' l', Found.deleteNode h l p = some (h', l') ∧ Rep h' l' (as ++ bs) ∧ h'.fresh = h.fresh :=
  ⟨_, _, hrep.deleteNode_eq, hrep.unlinked, rfl⟩

/-- Enough steps delete every node. -/
theorem Rep.deleteAllFuel {ns : List (Nat × α)} :
    ∀ {h : Heap (Node α)} {l : DList} {fuel : Nat}, Rep h l ns → ns.length ≤ fuel →
      ∃ h', Found.deleteAllFuel fuel h l = some (h', DList.empty) ∧ h'.fresh = h.fresh := by
  induction ns with
  | nil =>
      intro h l fuel hrep _
      have hl : l = DList.empty := by
        obtain ⟨num, head, tail⟩ := l
        have hhead : head = none := hrep.head
        have htail : tail = none := hrep.tail
        have hnum : num = 0 := hrep.num
        rw [hhead, htail, hnum]
        rfl
      subst hl
      refine ⟨h, ?_, rfl⟩
      unfold Found.deleteAllFuel
      rfl
  | cons n ns ih =>
      intro h l fuel hrep hfuel
      obtain ⟨fuel, rfl⟩ : ∃ k, fuel = k + 1 := ⟨fuel - 1, by simp at hfuel; omega⟩
      have hhead : Rep h l ([] ++ (n.1, n.2) :: ns) := hrep
      obtain ⟨h₁, l₁, hdel, hrep₁, hfresh₁⟩ := hhead.deleteNode
      obtain ⟨h₂, hrun, hfresh₂⟩ := ih hrep₁ (Nat.le_of_succ_le_succ hfuel)
      refine ⟨h₂, ?_, hfresh₂.trans hfresh₁⟩
      have hhead : l.head = some n.1 := hrep.head
      unfold Found.deleteAllFuel
      simp only [hhead, hdel, Option.bind_eq_bind, Option.bind_some]
      exact hrun

/-- There are no more nodes than addresses in use. -/
theorem Rep.length_le {h : Heap (Node α)} {l : DList} {ns : List (Nat × α)} (hrep : Rep h l ns) :
    ns.length ≤ h.fresh := by
  have hsub : ns.map Prod.fst ⊆ List.range h.fresh := by
    intro p hp
    exact List.mem_range.mpr (hrep.fresh p hp)
  have hle := (List.subperm_of_subset hrep.nodup hsub).length_le
  simpa using hle

/-- Deleting all nodes of a represented list ends, with the empty list. -/
theorem Rep.deleteAll {h : Heap (Node α)} {l : DList} {ns : List (Nat × α)} (hrep : Rep h l ns) :
    ∃ h', Found.deleteAll h l = some (h', DList.empty) := by
  obtain ⟨h', hrun, -⟩ := hrep.deleteAllFuel hrep.length_le
  exact ⟨h', hrun⟩

/-! ## Lists of values -/

/-- A list object with the heap of its nodes. -/
structure LinkedList (α : Type*) where
  heap : Heap (Node α)
  list : DList

/-- An empty list in an empty heap. -/
def LinkedList.empty : LinkedList α := ⟨.empty, .empty⟩

/-- The list represents these values, in order. -/
def LinkedList.Holds (l : LinkedList α) (xs : List α) : Prop :=
  ∃ ns, Rep l.heap l.list ns ∧ ns.map Prod.snd = xs

/-- The empty list holds nothing. -/
theorem LinkedList.holds_empty (h : Heap (Node α)) : LinkedList.Holds ⟨h, .empty⟩ [] :=
  ⟨[], rep_empty h, rfl⟩

/-- Appending a new node appends its value. -/
theorem LinkedList.Holds.insert {l : LinkedList α} {xs : List α} (hl : l.Holds xs) (x : α) :
    ∃ heap list, Found.insertAtTail (l.heap.malloc (.single x)).2 l.list
        (l.heap.malloc (.single x)).1 = some (heap, list) ∧
      LinkedList.Holds ⟨heap, list⟩ (xs ++ [x]) := by
  obtain ⟨ns, hrep, rfl⟩ := hl
  obtain ⟨hrep', hcell, hnew⟩ := hrep.malloc (.single x)
  obtain ⟨heap, list, hins, hres⟩ := hrep'.insertAtTail hnew hcell (Nat.lt_succ_self _)
  exact ⟨heap, list, hins, _, hres, by simp⟩

/-- Every sequence is represented by some list. -/
theorem LinkedList.exists_holds (xs : List α) : ∃ l : LinkedList α, l.Holds xs := by
  induction xs using List.reverseRecOn with
  | nil => exact ⟨_, LinkedList.holds_empty .empty⟩
  | append_singleton xs x ih =>
      obtain ⟨l, hl⟩ := ih
      obtain ⟨heap, list, -, hres⟩ := hl.insert x
      exact ⟨⟨heap, list⟩, hres⟩

/-- All nodes of a list can be deleted. -/
theorem LinkedList.Holds.deleteAll {l : LinkedList α} {xs : List α} (hl : l.Holds xs) :
    ∃ heap, Found.deleteAll l.heap l.list = some (heap, .empty) := by
  obtain ⟨ns, hrep, -⟩ := hl
  exact hrep.deleteAll

/-- Following `next` from `p` on gives these values. -/
inductive Chain (h : Heap (Node α)) : Ptr → List α → Prop
  | nil {p : Ptr} : Chain h p []
  | cons {p : Ptr} {n : Node α} {xs : List α} :
      h.load p = some n → Chain h n.next xs → Chain h p (n.val :: xs)

/-- The front of a chain is a chain. -/
theorem chain_of_append {h : Heap (Node α)} {p : Ptr} {xs ys : List α} (hc : Chain h p (xs ++ ys)) :
    Chain h p xs := by
  induction xs generalizing p with
  | nil => exact .nil
  | cons x xs ih =>
      generalize hzs : x :: xs ++ ys = zs at hc
      cases hc with
      | nil => cases hzs
      | @cons _ n _ hload hc =>
          obtain ⟨rfl, rfl⟩ := List.cons.inj hzs
          exact .cons hload (ih hc)

/-- A pointer is the start of one chain of each length. -/
theorem chain_unique {h : Heap (Node α)} {p : Ptr} {xs ys : List α} (hx : Chain h p xs)
    (hy : Chain h p ys) (hlen : xs.length = ys.length) : xs = ys := by
  induction hx generalizing ys with
  | nil => exact (List.length_eq_zero_iff.mp hlen.symm).symm
  | cons hload _ ih =>
      cases hy with
      | nil => cases hlen
      | cons hload' hy =>
          rw [hload] at hload'
          cases hload'
          rw [ih hy (Nat.succ.inj hlen)]

/-- The nodes of a list are a chain from its head. -/
theorem LinkedList.Holds.chain {l : LinkedList α} {xs : List α} (hl : l.Holds xs) :
    Chain l.heap l.list.head xs := by
  obtain ⟨ns, hrep, rfl⟩ := hl
  rw [hrep.head]
  have hchain : ∀ as bs, ns = as ++ bs → Chain l.heap (firstPtr bs) (bs.map Prod.snd) := by
    intro as bs hns
    induction bs generalizing as with
    | nil => exact .nil
    | cons b bs ih =>
        have hnode : l.heap.load (some b.1) = some ⟨b.2, firstPtr bs, lastPtr as⟩ := hrep.node hns
        exact .cons hnode (ih (as ++ [b]) (by simp [hns]))
  exact hchain [] ns rfl

/-- `num` counts the nodes. -/
theorem LinkedList.Holds.num {l : LinkedList α} {xs : List α} (hl : l.Holds xs) :
    l.list.num = xs.length := by
  obtain ⟨ns, hrep, rfl⟩ := hl
  simpa using hrep.num

/-- A list represents one sequence only. -/
theorem LinkedList.Holds.unique {l : LinkedList α} {xs ys : List α} (hx : l.Holds xs)
    (hy : l.Holds ys) : xs = ys := by
  have hlen : xs.length = ys.length := by
    have hnum := hx.num.symm.trans hy.num
    omega
  exact chain_unique hx.chain hy.chain hlen

/-- The head points to the first value. -/
theorem LinkedList.Holds.head {l : LinkedList α} {x : α} {xs : List α} (hl : l.Holds (x :: xs)) :
    ∃ n, l.heap.load l.list.head = some n ∧ n.val = x := by
  have hchain := hl.chain
  generalize hys : x :: xs = ys at hchain
  cases hchain with
  | nil => cases hys
  | @cons _ n _ hload _ => exact ⟨n, hload, (List.cons.inj hys).1.symm⟩

/-- The head of an empty list is `NULL`. -/
theorem LinkedList.Holds.head_nil {l : LinkedList α} (hl : l.Holds []) : l.list.head = none := by
  obtain ⟨ns, hrep, hns⟩ := hl
  obtain rfl := List.map_eq_nil_iff.mp hns
  exact hrep.head

/-- The head of the empty list is `NULL`. -/
theorem LinkedList.Holds.load_head_nil {l : LinkedList α} (hl : l.Holds []) :
    l.heap.load l.list.head = none := by
  rw [hl.head_nil]
  rfl

/-- The tail points to the last value. -/
theorem LinkedList.Holds.tail {l : LinkedList α} {xs : List α} {x : α}
    (hl : l.Holds (xs ++ [x])) : ∃ n, l.heap.load l.list.tail = some n ∧ n.val = x := by
  obtain ⟨ns, hrep, hns⟩ := hl
  obtain ⟨as, bs, rfl, -, hbs⟩ := List.map_eq_append_iff.mp hns
  obtain ⟨b, rfl, rfl⟩ : ∃ b, bs = [b] ∧ b.2 = x := by
    obtain ⟨b, bs', rfl, hb, hnil⟩ := List.map_eq_cons_iff.mp hbs
    exact ⟨b, by rw [List.map_eq_nil_iff.mp hnil], hb⟩
  refine ⟨⟨b.2, none, lastPtr as⟩, ?_, rfl⟩
  rw [hrep.tail, lastPtr_append_singleton]
  exact hrep.node rfl

end SystemProgrammingLab.Found
