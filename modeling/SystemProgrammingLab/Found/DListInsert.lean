import SystemProgrammingLab.Found.DList

/-!
# Walking through a doubly linked list, and inserting anywhere

`Walk link h p ns` says that following `link` from `p` to `NULL` visits the nodes `ns`. A list is
`WellFormed` when the walk along `next` from the head visits its nodes, the walk along `prev` from the tail
visits them in the opposite order, and the counter is their number; this is what `Rep` says node by node
(`wellFormed_iff_rep`).

`insertAtHead` puts a node before the head. `insertAtNext` and `insertAtBefore` put it next to a node of
the list; at the end of the list they call `insertAtTail` and `insertAtHead` with the node that is in the
list already, not with the new one, so that they insert the new node exactly when they are not at the end
(`WellFormed.insertAtNext_iff`, `WellFormed.insertAtBefore_iff`).
-/

namespace SystemProgrammingLab.Found

variable {α : Type*}

/-! ## Walks -/

/-- Following the link from `p` to `NULL` visits these nodes. -/
inductive Walk (link : Node α → Ptr) (h : Heap (Node α)) : Ptr → List (Nat × α) → Prop
  | nil : Walk link h none []
  | cons {p : Nat} {n : Node α} {ns : List (Nat × α)} :
      h.cell p = some n → Walk link h (link n) ns → Walk link h (some p) ((p, n.val) :: ns)

section walk

variable {link : Node α → Ptr} {h : Heap (Node α)} {p : Ptr} {as bs ns ms : List (Nat × α)}

/-- A walk starts at its first node. -/
theorem Walk.eq_firstPtr (hw : Walk link h p ns) : p = firstPtr ns := by
  cases hw <;> rfl

/-- The first node of a walk. -/
theorem Walk.exists_node {q : Nat} {x : α} (hw : Walk link h p ((q, x) :: ns)) :
    ∃ n, h.cell q = some n ∧ n.val = x ∧ Walk link h (link n) ns := by
  generalize hms : (q, x) :: ns = ms at hw
  cases hw with
  | nil => cases hms
  | cons hcell hrest =>
      cases hms
      exact ⟨_, hcell, rfl, hrest⟩

/-- A walk passes through each of its nodes. -/
theorem Walk.drop (hw : Walk link h p (as ++ bs)) : Walk link h (firstPtr bs) bs := by
  induction as generalizing p with
  | nil =>
      have hp := hw.eq_firstPtr
      rw [List.nil_append] at hp hw
      rwa [← hp]
  | cons a as ih =>
      obtain ⟨n, -, -, hrest⟩ := hw.exists_node
      exact ih hrest

/-- From each pointer at most one walk ends. -/
theorem Walk.unique (hw : Walk link h p ns) (hw' : Walk link h p ms) : ns = ms := by
  induction hw generalizing ms with
  | nil =>
      cases hw'
      rfl
  | cons hcell _ ih =>
      cases hw' with
      | cons hcell' hrest =>
          rw [hcell] at hcell'
          cases hcell'
          rw [ih hrest]

/-- A walk that ends does not visit a node twice. -/
theorem Walk.nodup (hw : Walk link h p ns) : (ns.map Prod.fst).Nodup := by
  induction ns generalizing p with
  | nil => exact List.nodup_nil
  | cons n ns ih =>
      obtain ⟨q, x⟩ := n
      obtain ⟨m, -, -, hrest⟩ := hw.exists_node
      rw [List.map_cons, List.nodup_cons]
      refine ⟨?_, ih hrest⟩
      intro hmem
      obtain ⟨⟨q', y⟩, hy, rfl⟩ := List.mem_map.mp hmem
      obtain ⟨as, bs, rfl⟩ := List.append_of_mem hy
      -- the walk from the second visit on is the walk from the first visit on
      obtain rfl := hw.eq_firstPtr
      have heq := congrArg List.length (hw.unique hrest.drop)
      simp only [List.length_cons, List.length_append] at heq
      omega

end walk

/-- The list object is a doubly linked list of these nodes. -/
structure WellFormed (h : Heap (Node α)) (l : DList) (ns : List (Nat × α)) : Prop where
  forward : Walk Node.next h l.head ns
  backward : Walk Node.prev h l.tail ns.reverse
  num : l.num = ns.length
  fresh : ∀ p ∈ ns.map Prod.fst, p < h.fresh

/-- The last node comes first from behind. -/
theorem firstPtr_reverse (ns : List (Nat × α)) : firstPtr ns.reverse = lastPtr ns := by
  rw [firstPtr, lastPtr, List.head?_reverse]

section wellFormed

variable {h : Heap (Node α)} {l : DList} {ns : List (Nat × α)}

/-- From any node the nodes behind it are reached. -/
theorem Rep.forward (hrep : Rep h l ns) (as bs : List (Nat × α)) (hns : ns = as ++ bs) :
    Walk Node.next h (firstPtr bs) bs := by
  induction bs generalizing as with
  | nil => exact .nil
  | cons b bs ih =>
      have hcell : h.cell b.1 = some ⟨b.2, firstPtr bs, lastPtr as⟩ := hrep.node hns
      exact .cons hcell (ih (as ++ [b]) (by simp [hns]))

/-- And those in front of it. -/
theorem Rep.backward (hrep : Rep h l ns) (as bs : List (Nat × α)) (hns : ns = as ++ bs) :
    Walk Node.prev h (lastPtr as) as.reverse := by
  induction as using List.reverseRecOn generalizing bs with
  | nil => exact .nil
  | append_singleton as a ih =>
      have hcell : h.cell a.1 = some ⟨a.2, firstPtr bs, lastPtr as⟩ := hrep.node (by simp [hns])
      rw [List.reverse_append, lastPtr_append_singleton]
      exact .cons hcell (ih (a :: bs) (by simp [hns]))

/-- Being linked node by node is the same as being visited from both ends. -/
theorem wellFormed_iff_rep : WellFormed h l ns ↔ Rep h l ns := by
  constructor
  · rintro ⟨hforward, hbackward, hnum, hfresh⟩
    refine ⟨?_, hforward.nodup, hfresh, hforward.eq_firstPtr, ?_, hnum⟩
    · rintro as p x bs rfl
      obtain ⟨n, hcell, rfl, hnext⟩ := hforward.drop.exists_node
      rw [List.reverse_append, List.reverse_cons, List.append_assoc, List.singleton_append] at hbackward
      obtain ⟨m, hcell', -, hprev⟩ := hbackward.drop.exists_node
      rw [hcell] at hcell'
      cases hcell'
      rw [hcell, ← hnext.eq_firstPtr, ← firstPtr_reverse, ← hprev.eq_firstPtr]
    · rw [hbackward.eq_firstPtr, firstPtr_reverse]
  · intro hrep
    refine ⟨?_, ?_, hrep.num, hrep.fresh⟩
    · rw [hrep.head]
      exact hrep.forward [] ns rfl
    · rw [hrep.tail]
      exact hrep.backward ns [] (List.append_nil ns).symm

/-- The empty list. -/
theorem wellFormed_empty (h : Heap (Node α)) : WellFormed h DList.empty [] :=
  wellFormed_iff_rep.mpr (rep_empty h)

/-- The head and the tail are `NULL` exactly when the list is empty. -/
theorem WellFormed.ends_eq_none (hl : WellFormed h l ns) :
    (l.head = none ↔ ns = []) ∧ (l.tail = none ↔ ns = []) := by
  rw [hl.forward.eq_firstPtr, hl.backward.eq_firstPtr, firstPtr, firstPtr]
  simp

/-- The nodes of a list are allocated. -/
theorem WellFormed.exists_cell (hl : WellFormed h l ns) {p : Nat} (hp : p ∈ ns.map Prod.fst) :
    ∃ n, h.cell p = some n :=
  (wellFormed_iff_rep.mp hl).exists_cell hp

end wellFormed

/-! ## Inserting -/

/-- Put the node `p` before the head. -/
def insertAtHead (h : Heap (Node α)) (l : DList) (p : Nat) : Option (Heap (Node α) × DList) :=
  match l.head with
  | none => some (h, ⟨l.num + 1, some p, some p⟩)
  | some q => do
      let h ← h.modify p fun n => { n with next := some q }
      let h ← h.modify q fun n => { n with prev := some p }
      return (h, ⟨l.num + 1, some p, l.tail⟩)

/-- Put the node `toInsert` behind the node `node`. At the tail it is `node` that is appended. -/
def insertAtNext (h : Heap (Node α)) (l : DList) (node toInsert : Nat) :
    Option (Heap (Node α) × DList) := do
  let n ← h.load (some node)
  match n.next with
  | none => insertAtTail h l node
  | some q =>
      let h ← h.modify toInsert fun m => { m with prev := some node }
      let h ← h.modify toInsert fun m => { m with next := some q }
      -- `node->next = node->next->prev = toInsert`
      let h ← h.modify q fun m => { m with prev := some toInsert }
      let h ← h.modify node fun m => { m with next := some toInsert }
      return (h, { l with num := l.num + 1 })

/-- Put the node `toInsert` before the node `node`. At the head it is `node` that is put before the head. -/
def insertAtBefore (h : Heap (Node α)) (l : DList) (node toInsert : Nat) :
    Option (Heap (Node α) × DList) := do
  let n ← h.load (some node)
  match n.prev with
  | none => insertAtHead h l node
  | some q =>
      let h ← h.modify toInsert fun m => { m with next := some node }
      let h ← h.modify toInsert fun m => { m with prev := some q }
      -- `node->prev = node->prev->next = toInsert`
      let h ← h.modify q fun m => { m with next := some toInsert }
      let h ← h.modify node fun m => { m with prev := some toInsert }
      return (h, { l with num := l.num + 1 })

section insert

variable {h h' : Heap (Node α)} {l : DList} {as bs ns : List (Nat × α)} {p q : Nat} {x y : α}

/-- A node in front does not change the last one. -/
theorem lastPtr_cons_of_ne_nil (n : Nat × α) (hns : ns ≠ []) : lastPtr (n :: ns) = lastPtr ns := by
  rw [← List.singleton_append, lastPtr_append]
  rcases List.eq_nil_or_concat' ns with rfl | ⟨ms, m, rfl⟩
  · exact absurd rfl hns
  · rw [lastPtr_append_singleton]
    rfl

/-- A node that is put before the head is the first one. -/
theorem Rep.insertAtHead (hrep : Rep h l ns) (hnew : q ∉ ns.map Prod.fst)
    (hq : h.cell q = some (.single y)) (hlt : q < h.fresh) :
    ∃ h' l', Found.insertAtHead h l q = some (h', l') ∧ Rep h' l' ((q, y) :: ns) ∧ h'.fresh = h.fresh := by
  have hfront : Rep h l ([] ++ ns) := hrep
  unfold Found.insertAtHead
  rcases ns with _ | ⟨⟨p, x⟩, ns⟩
  · -- the list was empty
    have hhead : l.head = none := hrep.head
    have hlink : Linked h [] [] q y h := by
      refine ⟨hq, ?_, rfl⟩
      intro p n _ hn
      exact hn
    rw [hhead]
    exact ⟨_, _, rfl, hfront.linked hnew hlt hlink, rfl⟩
  · have hhead : l.head = some p := hrep.head
    have hp : h.cell p = some ⟨x, firstPtr ns, none⟩ := hfront.node rfl
    have hpq : p ≠ q := by
      rintro rfl
      exact hnew (by simp)
    obtain ⟨h₁, hmod₁, hq₁, hsame₁, hfresh₁⟩ := Heap.exists_modify hq fun n => { n with next := some p }
    obtain ⟨h₂, hmod₂, hp₂, hsame₂, hfresh₂⟩ :=
      Heap.exists_modify ((hsame₁ p hpq).trans hp) fun n => { n with prev := some q }
    have hlink : Linked h [] ((p, x) :: ns) q y h₂ := by
      refine ⟨(hsame₂ q hpq.symm).trans hq₁, ?_, hfresh₂.trans hfresh₁⟩
      intro r n hrq hn
      by_cases hrp : r = p
      · subst hrp
        rw [hp] at hn
        cases hn
        rw [hp₂]
        simp
      · have hfirst : firstPtr ((p, x) :: ns) ≠ some r := fun h => hrp (Option.some.inj h).symm
        rw [hsame₂ r hrp, hsame₁ r hrq, hn, if_neg hfirst]
        rfl
    have htail : l.tail = lastPtr ((q, y) :: (p, x) :: ns) := by
      rw [lastPtr_cons_of_ne_nil _ (List.cons_ne_nil _ _), hrep.tail]
    refine ⟨h₂, ⟨l.num + 1, some q, l.tail⟩, ?_, ?_, hfresh₂.trans hfresh₁⟩
    · rw [hhead]
      simp only [Option.bind_eq_bind, hmod₁, Option.bind_some, hmod₂]
      rfl
    · rw [htail]
      exact hfront.linked hnew hlt hlink

/-- Two writes to the object `q`, then one to `r` and one to `p`. -/
theorem Heap.exists_modify_three {β : Type*} {h : Heap β} {p q r : Nat} {a b c : β}
    (hp : h.cell p = some a) (hq : h.cell q = some b) (hr : h.cell r = some c) (hpq : p ≠ q) (hrq : r ≠ q)
    (hpr : p ≠ r) (f f' g k : β → β) :
    ∃ h', ((((h.modify q f).bind fun h => h.modify q f').bind fun h => h.modify r g).bind fun h =>
        h.modify p k) = some h' ∧
      h'.cell q = some (f' (f b)) ∧ h'.cell r = some (g c) ∧ h'.cell p = some (k a) ∧
      (∀ s, s ≠ p → s ≠ q → s ≠ r → h'.cell s = h.cell s) ∧ h'.fresh = h.fresh := by
  obtain ⟨h₁, hmod₁, hq₁, hsame₁, hfresh₁⟩ := Heap.exists_modify hq f
  obtain ⟨h₂, hmod₂, hq₂, hsame₂, hfresh₂⟩ := Heap.exists_modify hq₁ f'
  have hr₂ : h₂.cell r = some c := by rw [hsame₂ r hrq, hsame₁ r hrq, hr]
  obtain ⟨h₃, hmod₃, hr₃, hsame₃, hfresh₃⟩ := Heap.exists_modify hr₂ g
  have hp₃ : h₃.cell p = some a := by rw [hsame₃ p hpr, hsame₂ p hpq, hsame₁ p hpq, hp]
  obtain ⟨h₄, hmod₄, hp₄, hsame₄, hfresh₄⟩ := Heap.exists_modify hp₃ k
  refine ⟨h₄, ?_, ?_, ?_, hp₄, ?_, ?_⟩
  · simp only [hmod₁, Option.bind_some, hmod₂, hmod₃, hmod₄]
  · rw [hsame₄ q hpq.symm, hsame₃ q hrq.symm, hq₂]
  · rw [hsame₄ r hpr.symm, hr₃]
  · intro s hsp hsq hsr
    rw [hsame₄ s hsp, hsame₃ s hsr, hsame₂ s hsq, hsame₁ s hsq]
  · rw [hfresh₄, hfresh₃, hfresh₂, hfresh₁]

/-- The new node between the neighbours `a` and `b`, when nothing else was written. -/
theorem linked_of_cells {a b : Nat} {z w : α} {cs ds : List (Nat × α)} {nb pa : Ptr}
    (ha : h.cell a = some ⟨z, some b, pa⟩) (hb : h.cell b = some ⟨w, nb, some a⟩) (hab : a ≠ b)
    (hself : h'.cell q = some ⟨y, some b, some a⟩) (ha' : h'.cell a = some ⟨z, some q, pa⟩)
    (hb' : h'.cell b = some ⟨w, nb, some q⟩)
    (hsame : ∀ s, s ≠ a → s ≠ q → s ≠ b → h'.cell s = h.cell s) (hfresh : h'.fresh = h.fresh) :
    Linked h (cs ++ [(a, z)]) ((b, w) :: ds) q y h' := by
  refine ⟨by rw [hself, lastPtr_append_singleton]; rfl, ?_, hfresh⟩
  intro s n hsq hn
  rw [lastPtr_append_singleton, firstPtr_cons]
  by_cases hsa : s = a
  · subst hsa
    rw [ha] at hn
    cases hn
    rw [ha', if_pos rfl, if_neg fun h => hab (Option.some.inj h).symm]
  · by_cases hsb : s = b
    · subst hsb
      rw [hb] at hn
      cases hn
      rw [hb', if_neg fun h => hab (Option.some.inj h), if_pos rfl]
    · rw [hsame s hsa hsq hsb, hn, if_neg fun h => hsa (Option.some.inj h).symm,
        if_neg fun h => hsb (Option.some.inj h).symm]

/-- The neighbours in a list hold each other's addresses, and the new node has another address. -/
theorem Rep.neighbours {a b : Nat} {z w : α} (hrep : Rep h l (as ++ (a, z) :: (b, w) :: bs))
    (hnew : q ∉ (as ++ (a, z) :: (b, w) :: bs).map Prod.fst) :
    h.cell a = some ⟨z, some b, lastPtr as⟩ ∧ h.cell b = some ⟨w, firstPtr bs, some a⟩ ∧ a ≠ b ∧ a ≠ q ∧
      b ≠ q := by
  have hb : h.cell b = some ⟨w, firstPtr bs, lastPtr (as ++ [(a, z)])⟩ := hrep.node (by simp)
  rw [lastPtr_append_singleton] at hb
  refine ⟨hrep.node rfl, hb, ?_, ?_, ?_⟩
  · rintro rfl
    exact hrep.not_mem.2 (by simp)
  · rintro rfl
    exact hnew (by simp)
  · rintro rfl
    exact hnew (by simp)

/-- The list object after an insertion between two nodes. -/
theorem Rep.ends_middle {a b : Nat × α} (hrep : Rep h l (as ++ a :: b :: bs)) (n : Nat × α) :
    (⟨l.num + 1, firstPtr ((as ++ [a]) ++ n :: b :: bs), lastPtr ((as ++ [a]) ++ n :: b :: bs)⟩ : DList) =
      { l with num := l.num + 1 } := by
  have hhead : l.head = firstPtr ((as ++ [a]) ++ n :: b :: bs) := by
    rw [hrep.head]
    cases as <;> rfl
  have htail : l.tail = lastPtr ((as ++ [a]) ++ n :: b :: bs) := by
    have hne : b :: bs ≠ [] := List.cons_ne_nil _ _
    have hcons : ∀ m : Nat × α, lastPtr (m :: b :: bs) = lastPtr (b :: bs) := fun m =>
      lastPtr_cons_of_ne_nil m hne
    rw [hrep.tail, lastPtr_append, lastPtr_append, hcons, hcons]
    rcases List.eq_nil_or_concat' (b :: bs) with hnil | ⟨ms, m, hms⟩
    · exact absurd hnil hne
    · rw [hms, lastPtr_append_singleton]
      rfl
  rw [← hhead, ← htail]

/-- A node that is put behind a node other than the tail follows it in the sequence. -/
theorem Rep.insertAtNext {b : Nat × α} (hrep : Rep h l (as ++ (p, x) :: b :: bs))
    (hnew : q ∉ (as ++ (p, x) :: b :: bs).map Prod.fst) (hq : h.cell q = some (.single y))
    (hlt : q < h.fresh) :
    ∃ h' l', Found.insertAtNext h l p q = some (h', l') ∧ Rep h' l' (as ++ (p, x) :: (q, y) :: b :: bs) := by
  obtain ⟨r, w⟩ := b
  obtain ⟨hp, hr, hpr, hpq, hrq⟩ := hrep.neighbours hnew
  obtain ⟨h', hmod, hq', hr', hp', hsame, hfresh⟩ := Heap.exists_modify_three hp hq hr hpq hrq hpr
    (fun n => { n with prev := some p }) (fun n => { n with next := some r })
    (fun n => { n with prev := some q }) (fun n => { n with next := some q })
  have hlink : Linked h (as ++ [(p, x)]) ((r, w) :: bs) q y h' :=
    linked_of_cells hp hr hpr hq' hp' hr' hsame hfresh
  have hassoc : as ++ (p, x) :: (r, w) :: bs = (as ++ [(p, x)]) ++ (r, w) :: bs := by simp
  refine ⟨h', { l with num := l.num + 1 }, ?_, ?_⟩
  · have hload : h.load (some p) = some ⟨x, some r, lastPtr as⟩ := hp
    have hrun := congrArg (fun r => r.bind fun h => some (h, { l with num := l.num + 1 })) hmod
    simp only [Option.bind_assoc, Option.bind_some] at hrun
    unfold Found.insertAtNext
    simp only [Option.bind_eq_bind, hload, Option.bind_some]
    exact hrun
  · rw [← hrep.ends_middle (q, y)]
    rw [hassoc] at hrep hnew
    have hres := hrep.linked hnew hlt hlink
    simpa using hres

/-- A node that is put before a node other than the head comes right before it in the sequence. -/
theorem Rep.insertAtBefore {a : Nat × α} (hrep : Rep h l (as ++ a :: (p, x) :: bs))
    (hnew : q ∉ (as ++ a :: (p, x) :: bs).map Prod.fst) (hq : h.cell q = some (.single y))
    (hlt : q < h.fresh) :
    ∃ h' l', Found.insertAtBefore h l p q = some (h', l') ∧
      Rep h' l' (as ++ a :: (q, y) :: (p, x) :: bs) := by
  obtain ⟨r, w⟩ := a
  obtain ⟨hr, hp, hrp, hrq, hpq⟩ := hrep.neighbours hnew
  obtain ⟨h', hmod, hq', hr', hp', hsame, hfresh⟩ := Heap.exists_modify_three hp hq hr hpq hrq hrp.symm
    (fun n => { n with next := some p }) (fun n => { n with prev := some r })
    (fun n => { n with next := some q }) (fun n => { n with prev := some q })
  have hlink : Linked h (as ++ [(r, w)]) ((p, x) :: bs) q y h' :=
    linked_of_cells hr hp hrp hq' hr' hp' (fun s hsr hsq hsp => hsame s hsp hsq hsr) hfresh
  have hassoc : as ++ (r, w) :: (p, x) :: bs = (as ++ [(r, w)]) ++ (p, x) :: bs := by simp
  refine ⟨h', { l with num := l.num + 1 }, ?_, ?_⟩
  · have hload : h.load (some p) = some ⟨x, firstPtr bs, some r⟩ := hp
    have hrun := congrArg (fun r => r.bind fun h => some (h, { l with num := l.num + 1 })) hmod
    simp only [Option.bind_assoc, Option.bind_some] at hrun
    unfold Found.insertAtBefore
    simp only [Option.bind_eq_bind, hload, Option.bind_some]
    exact hrun
  · rw [← hrep.ends_middle (q, y)]
    rw [hassoc] at hrep hnew
    have hres := hrep.linked hnew hlt hlink
    simpa using hres

/-- At the tail it is the tail itself that is appended: it becomes its own neighbour. -/
theorem Rep.insertAtNext_tail (hrep : Rep h l (as ++ [(p, x)])) (q : Nat) :
    ∃ h' l', Found.insertAtNext h l p q = some (h', l') ∧ h'.cell p = some ⟨x, some p, some p⟩ := by
  have hp : h.cell p = some ⟨x, none, lastPtr as⟩ := hrep.node rfl
  have htail : l.tail = some p := by rw [hrep.tail, lastPtr_append_singleton]
  obtain ⟨h₁, hmod₁, hp₁, -, -⟩ := Heap.exists_modify hp fun n => { n with prev := some p }
  obtain ⟨h₂, hmod₂, hp₂, -, -⟩ := Heap.exists_modify hp₁ fun n => { n with next := some p }
  refine ⟨h₂, ⟨l.num + 1, l.head, some p⟩, ?_, hp₂⟩
  have hload : h.load (some p) = some ⟨x, none, lastPtr as⟩ := hp
  unfold Found.insertAtNext Found.insertAtTail
  simp only [Option.bind_eq_bind, hload, Option.bind_some, htail, hmod₁, hmod₂]
  rfl

/-- At the head it is the head itself that is put before the head: it becomes its own neighbour. -/
theorem Rep.insertAtBefore_head (hrep : Rep h l ((p, x) :: bs)) (q : Nat) :
    ∃ h' l', Found.insertAtBefore h l p q = some (h', l') ∧ h'.cell p = some ⟨x, some p, some p⟩ := by
  have hfront : Rep h l ([] ++ (p, x) :: bs) := hrep
  have hp : h.cell p = some ⟨x, firstPtr bs, none⟩ := hfront.node rfl
  have hhead : l.head = some p := hrep.head
  obtain ⟨h₁, hmod₁, hp₁, -, -⟩ := Heap.exists_modify hp fun n => { n with next := some p }
  obtain ⟨h₂, hmod₂, hp₂, -, -⟩ := Heap.exists_modify hp₁ fun n => { n with prev := some p }
  refine ⟨h₂, ⟨l.num + 1, some p, l.tail⟩, ?_, hp₂⟩
  have hload : h.load (some p) = some ⟨x, firstPtr bs, none⟩ := hp
  unfold Found.insertAtBefore Found.insertAtHead
  simp only [Option.bind_eq_bind, hload, Option.bind_some, hhead, hmod₁, hmod₂]
  rfl

section exact

variable (hl : WellFormed h l (as ++ (p, x) :: bs)) (hq : h.cell q = some (.single y))
  (hnew : q ∉ (as ++ (p, x) :: bs).map Prod.fst) (hlt : q < h.fresh)

include hl hq hnew hlt

/-- The new node follows `p` exactly when `p` is not the tail. -/
theorem WellFormed.insertAtNext_iff :
    (∃ h' l', Found.insertAtNext h l p q = some (h', l') ∧
      WellFormed h' l' (as ++ (p, x) :: (q, y) :: bs) ∧ l'.num = l.num + 1) ↔ bs ≠ [] := by
  have hrep := wellFormed_iff_rep.mp hl
  constructor
  · rintro ⟨h', l', hins, hl', -⟩ rfl
    obtain ⟨h₁, l₁, hins₁, hcell⟩ := hrep.insertAtNext_tail q
    rw [hins] at hins₁
    cases hins₁
    have hnode := (wellFormed_iff_rep.mp hl').node (p := p) rfl
    rw [hcell] at hnode
    have hpq : p = q := Option.some.inj (congrArg Node.next (Option.some.inj hnode))
    exact hnew (by simp [hpq])
  · intro hbs
    obtain ⟨b, bs, rfl⟩ := List.exists_cons_of_ne_nil hbs
    obtain ⟨h', l', hins, hrep'⟩ := hrep.insertAtNext hnew hq hlt
    refine ⟨h', l', hins, wellFormed_iff_rep.mpr hrep', ?_⟩
    rw [hrep'.num, hrep.num]
    simp only [List.length_append, List.length_cons]
    omega

/-- The new node comes right before `p` exactly when `p` is not the head. -/
theorem WellFormed.insertAtBefore_iff :
    (∃ h' l', Found.insertAtBefore h l p q = some (h', l') ∧
      WellFormed h' l' (as ++ (q, y) :: (p, x) :: bs) ∧ l'.num = l.num + 1) ↔ as ≠ [] := by
  have hrep := wellFormed_iff_rep.mp hl
  constructor
  · rintro ⟨h', l', hins, hl', -⟩ rfl
    obtain ⟨h₁, l₁, hins₁, hcell⟩ := Rep.insertAtBefore_head hrep q
    rw [hins] at hins₁
    cases hins₁
    have hbehind : Rep h' l' ([(q, y)] ++ (p, x) :: bs) := wellFormed_iff_rep.mp hl'
    have hnode := hbehind.node rfl
    rw [hcell] at hnode
    have hpq : p = q := Option.some.inj (congrArg Node.prev (Option.some.inj hnode))
    exact hnew (by simp [hpq])
  · intro has
    obtain ⟨as, a, rfl⟩ := (List.eq_nil_or_concat' as).resolve_left has
    rw [List.append_assoc, List.singleton_append] at hrep hnew
    obtain ⟨h', l', hins, hrep'⟩ := hrep.insertAtBefore hnew hq hlt
    rw [List.append_assoc, List.singleton_append]
    refine ⟨h', l', hins, wellFormed_iff_rep.mpr hrep', ?_⟩
    rw [hrep'.num, hrep.num]
    simp only [List.length_append, List.length_cons]
    omega

end exact

end insert

end SystemProgrammingLab.Found
