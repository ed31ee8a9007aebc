import SystemProgrammingLab.Found.CString
import SystemProgrammingLab.Found.DListInsert

/-!
# Programs over doubly linked lists

A `ListCode` is an implementation of lists whose nodes may point to texts: how it creates, inserts and deletes
nodes. A client calls it (`ListOp`); `ListCode.run` is what the calls do to the objects in memory, and
`ListOp.apply` what they do to a sequence. `foldlM_simulates` is the rule for comparing the two.

The nodes of a list may own a text each, which is freed with the node. `Shape` says what lies in memory then:
besides the well-formed list, every node has a text of its own. `freeWalk` is the other way to delete all
nodes, a walk that frees each node behind itself.
-/

namespace SystemProgrammingLab.Found

/-- What a step function can do at every step of a run, another one does as well, with related states. -/
theorem foldlM_simulates {σ τ ε : Type*} {step : σ → ε → Option σ} {spec : τ → ε → Option τ} {R : σ → τ → Prop}
    (hstep : ∀ s t e t', R s t → spec t e = some t' → ∃ s', step s e = some s' ∧ R s' t') {es : List ε}
    {s : σ} {t t' : τ} (hR : R s t) (h : es.foldlM spec t = some t') :
    ∃ s', es.foldlM step s = some s' ∧ R s' t' := by
  induction es generalizing s t with
  | nil =>
      obtain rfl := Option.some.inj h
      exact ⟨s, rfl, hR⟩
  | cons e es ih =>
      rw [List.foldlM_cons] at h ⊢
      obtain ⟨t₁, hspec, hrest⟩ := Option.bind_eq_some_iff.mp h
      obtain ⟨s₁, hs₁, hR₁⟩ := hstep _ _ _ _ hR hspec
      obtain ⟨s', hs', hR'⟩ := ih hR₁ hrest
      refine ⟨s', ?_, hR'⟩
      rw [hs₁]
      exact hs'

variable {α γ τ : Type}

/-! ## The calls of a client -/

/-- A call: insert a new node, delete the node number `i` of the list, or delete all nodes. -/
inductive ListOp (γ : Type)
  | insertAtHead (g : γ)
  | insertAtTail (g : γ)
  | deleteNode (i : Nat)
  | deleteAllNode

/-- The call on a sequence; `none` when there is no such node. -/
def ListOp.apply (gs : List γ) : ListOp γ → Option (List γ)
  | .insertAtHead g => some (g :: gs)
  | .insertAtTail g => some (gs ++ [g])
  | .deleteNode i => if i < gs.length then some (gs.eraseIdx i) else none
  | .deleteAllNode => some []

/-- The texts, the nodes and the list object. -/
structure ListState (α : Type) where
  texts : Heap (List Char)
  heap : Heap (Node α)
  list : DList

/-- No objects but an empty list. -/
def ListState.empty : ListState α := ⟨.empty, .empty, .empty⟩

/-- The functions of an implementation; `g` is what a node is created from. -/
structure ListCode (α γ : Type) where
  createNode : γ → ListState α → Option (Nat × ListState α)
  insertAtHead : Heap (Node α) → DList → Nat → Option (Heap (Node α) × DList)
  insertAtTail : Heap (Node α) → DList → Nat → Option (Heap (Node α) × DList)
  deleteNode : ListState α → Nat → Option (ListState α)
  deleteAllNode : ListState α → Option (ListState α)

/-- The node that is reached from `p` by following `next` `i` times. -/
def nodeAt (h : Heap (Node α)) (p : Ptr) : Nat → Ptr
  | 0 => p
  | i + 1 => (h.load p).bind fun n => nodeAt h n.next i

/-- Insert a new node with the given function. -/
def ListCode.insertNew (code : ListCode α γ)
    (insert : Heap (Node α) → DList → Nat → Option (Heap (Node α) × DList)) (g : γ) (s : ListState α) :
    Option (ListState α) := do
  let (p, s) ← code.createNode g s
  let (heap, list) ← insert s.heap s.list p
  return { s with heap := heap, list := list }

/-- A call on the objects in memory. -/
def ListCode.step (code : ListCode α γ) (s : ListState α) : ListOp γ → Option (ListState α)
  | .insertAtHead g => code.insertNew code.insertAtHead g s
  | .insertAtTail g => code.insertNew code.insertAtTail g s
  | .deleteNode i => (nodeAt s.heap s.list.head i).bind (code.deleteNode s)
  | .deleteAllNode => code.deleteAllNode s

/-- The calls in order, from an empty list on. -/
def ListCode.run (code : ListCode α γ) (ops : List (ListOp γ)) : Option (ListState α) :=
  ops.foldlM code.step .empty

/-- The node that is reached in `i` steps. -/
theorem Walk.nodeAt {h : Heap (Node α)} {p : Ptr} {ns : List (Nat × α)} (hw : Walk Node.next h p ns) {i : Nat}
    (hi : i < ns.length) : Found.nodeAt h p i = some ns[i].1 := by
  induction hw generalizing i with
  | nil => cases hi
  | @cons q n ns hcell _ ih =>
      rcases i with _ | i
      · rfl
      · have hload : h.load (some q) = some n := hcell
        rw [Found.nodeAt, hload, Option.bind_some, ih (Nat.lt_of_succ_lt_succ hi)]
        rfl

/-! ## Freeing the nodes in a walk -/

/-- `free(p)`, which does nothing for `NULL`. -/
def Heap.freePtr {β : Type*} (h : Heap β) (p : Ptr) : Option (Heap β) :=
  match p with
  | none => some h
  | some p => h.free p

/-- The loop `while (node != NULL) { node = node->next; free(temp); temp = node; }`, at most `fuel` times. -/
def freeWalk : Nat → Heap (Node α) → (node temp : Ptr) → Option (Heap (Node α))
  | fuel, h, node, temp =>
      match node with
      | none => some h
      | some p =>
          match fuel with
          | 0 => none
          | fuel + 1 => do
              let n ← h.load (some p)
              let h ← h.freePtr temp
              freeWalk fuel h n.next n.next

/-- A walk in a heap with the same cells. -/
theorem Walk.congr {link : Node α → Ptr} {h h' : Heap (Node α)} {p : Ptr} {ns : List (Nat × α)}
    (hw : Walk link h p ns) (hsame : ∀ q ∈ ns.map Prod.fst, h'.cell q = h.cell q) : Walk link h' p ns := by
  induction hw with
  | nil => exact .nil
  | @cons q n ns hcell _ ih =>
      rw [List.map_cons, List.forall_mem_cons] at hsame
      exact .cons (hsame.1.trans hcell) (ih hsame.2)

/-- The walk ends and frees each node once. -/
theorem Walk.freeWalk {ns : List (Nat × α)} : ∀ {h : Heap (Node α)} {p : Ptr} {fuel : Nat},
    Walk Node.next h p ns → ns.length ≤ fuel →
      ∃ h', Found.freeWalk fuel h p p = some h' ∧ (∀ q ∈ ns.map Prod.fst, h'.cell q = none) ∧
        (∀ q ∉ ns.map Prod.fst, h'.cell q = h.cell q) ∧ h'.fresh = h.fresh := by
  induction ns with
  | nil =>
      intro h p fuel hw _
      obtain rfl := hw.eq_firstPtr
      refine ⟨h, ?_, by simp, fun _ _ => rfl, rfl⟩
      unfold Found.freeWalk
      rfl
  | cons n ns ih =>
      intro h p fuel hw hfuel
      obtain ⟨q, x⟩ := n
      obtain ⟨fuel, rfl⟩ : ∃ k, fuel = k + 1 := ⟨fuel - 1, by simp at hfuel; omega⟩
      obtain ⟨m, hcell, -, hrest⟩ := hw.exists_node
      have hnodup := hw.nodup
      rw [List.map_cons, List.nodup_cons] at hnodup
      obtain rfl := hw.eq_firstPtr
      have hwalk : Walk Node.next { h with cell := Function.update h.cell q none } m.next ns := by
        apply hrest.congr
        intro r hr
        have hrq : r ≠ q := by
          rintro rfl
          exact hnodup.1 hr
        exact Function.update_of_ne hrq _ _
      obtain ⟨h', hrun, hfreed, hsame, hfresh⟩ := ih hwalk (Nat.le_of_succ_le_succ hfuel)
      refine ⟨h', ?_, ?_, ?_, hfresh⟩
      · have hload : h.load (some q) = some m := hcell
        unfold Found.freeWalk
        simp only [firstPtr_cons, Option.bind_eq_bind, hload, Option.bind_some, Heap.freePtr,
          Heap.free_of_cell hcell]
        exact hrun
      · intro r hr
        rcases List.mem_cons.mp hr with rfl | hr
        · rw [hsame _ hnodup.1]
          exact Function.update_self _ _ _
        · exact hfreed r hr
      · intro r hr
        rw [List.map_cons, List.mem_cons, not_or] at hr
        rw [hsame r hr.2]
        exact Function.update_of_ne hr.1 _ _

section wellFormed

variable {h : Heap (Node α)} {l : DList} {ns : List (Nat × α)}

/-- There are no more nodes than addresses in use. -/
theorem WellFormed.length_le (hl : WellFormed h l ns) : ns.length ≤ h.fresh :=
  (wellFormed_iff_rep.mp hl).length_le

/-- A new node at the head. -/
theorem WellFormed.insertNewAtHead (hl : WellFormed h l ns) (x : α) :
    ∃ h' l', insertAtHead (h.malloc (.single x)).2 l h.fresh = some (h', l') ∧
      WellFormed h' l' ((h.fresh, x) :: ns) := by
  obtain ⟨hrep, hcell, hnew⟩ := (wellFormed_iff_rep.mp hl).malloc (.single x)
  obtain ⟨h', l', hins, hrep', -⟩ := hrep.insertAtHead hnew hcell (Nat.lt_succ_self _)
  exact ⟨h', l', hins, wellFormed_iff_rep.mpr hrep'⟩

/-- A new node at the tail. -/
theorem WellFormed.insertNewAtTail (hl : WellFormed h l ns) (x : α) :
    ∃ h' l', insertAtTail (h.malloc (.single x)).2 l h.fresh = some (h', l') ∧
      WellFormed h' l' (ns ++ [(h.fresh, x)]) := by
  obtain ⟨hrep, hcell, hnew⟩ := (wellFormed_iff_rep.mp hl).malloc (.single x)
  obtain ⟨h', l', hins, hrep'⟩ := hrep.insertAtTail hnew hcell (Nat.lt_succ_self _)
  exact ⟨h', l', hins, wellFormed_iff_rep.mpr hrep'⟩

/-- A node is deleted. -/
theorem WellFormed.deleteNode {as bs : List (Nat × α)} {n : Nat × α}
    (hl : WellFormed h l (as ++ n :: bs)) :
    ∃ h' l', Found.deleteNode h l n.1 = some (h', l') ∧ WellFormed h' l' (as ++ bs) ∧ h'.fresh = h.fresh := by
  obtain ⟨p, x⟩ := n
  obtain ⟨h', l', hdel, hrep, hfresh⟩ := (wellFormed_iff_rep.mp hl).deleteNode
  exact ⟨h', l', hdel, wellFormed_iff_rep.mpr hrep, hfresh⟩

end wellFormed

/-- The node number `i` between those before it and those behind it. -/
theorem exists_split_at {β : Type*} {l : List β} {i : Nat} (hi : i < l.length) :
    ∃ as bs, l = as ++ l[i] :: bs ∧ as.length = i ∧ l.eraseIdx i = as ++ bs := by
  refine ⟨l.take i, l.drop (i + 1), ?_, List.length_take_of_le hi.le, List.eraseIdx_eq_take_drop_succ l i⟩
  rw [← List.drop_eq_getElem_cons hi, List.take_append_drop]

/-! ## Nodes that own a text -/

/-- The data of a node: a tag, and a text with its length. -/
structure TextNode (τ : Type) where
  tag : τ
  length : Nat
  content : Nat

/-- Free the text of the node `p`, unlink the node and free it. -/
def deleteOwner (s : ListState (TextNode τ)) (p : Nat) : Option (ListState (TextNode τ)) := do
  let n ← s.heap.load (some p)
  let texts ← s.texts.free n.val.content
  let (heap, list) ← deleteNode s.heap s.list p
  return ⟨texts, heap, list⟩

/-- Delete the head until the list is empty, at most `fuel` times. -/
def deleteOwnersFuel : Nat → ListState (TextNode τ) → Option (ListState (TextNode τ))
  | fuel, s =>
      match s.list.head with
      | none => some s
      | some p =>
          match fuel with
          | 0 => none
          | fuel + 1 => (deleteOwner s p).bind (deleteOwnersFuel fuel)

/-- Delete the head until the list is empty, which takes no more rounds than there are addresses in use. -/
def deleteOwners (s : ListState (TextNode τ)) : Option (ListState (TextNode τ)) :=
  deleteOwnersFuel s.heap.fresh s

/-- A new node with a text of its own. -/
def newOwner (tag : τ) (text : List Char) (s : ListState (TextNode τ)) : Nat × ListState (TextNode τ) :=
  (s.heap.fresh, ⟨(s.texts.malloc (text ++ [terminator])).2,
    (s.heap.malloc (.single ⟨tag, text.length, s.texts.fresh⟩)).2, s.list⟩)

/-- A node with its text, at their addresses. -/
structure Entry (τ : Type) where
  addr : Nat
  content : Nat
  tag : τ
  text : List Char

/-- The node of an entry. -/
def Entry.node (e : Entry τ) : Nat × TextNode τ := (e.addr, ⟨e.tag, e.text.length, e.content⟩)

/-- The list has these entries: their nodes are linked, and no two of them own the same text. -/
structure Shape (s : ListState (TextNode τ)) (es : List (Entry τ)) : Prop where
  wellFormed : WellFormed s.heap s.list (es.map Entry.node)
  text : ∀ e ∈ es, s.texts.cell e.content = some (e.text ++ [terminator])
  owned : (es.map Entry.content).Nodup
  fresh : ∀ e ∈ es, e.content < s.texts.fresh

/-- The empty list. -/
theorem shape_empty : Shape (ListState.empty : ListState (TextNode τ)) [] :=
  ⟨wellFormed_empty _, by simp, List.nodup_nil, by simp⟩

section shape

variable {s : ListState (TextNode τ)} {es as bs : List (Entry τ)} {e : Entry τ}

/-- A new text does not change the texts of the entries. -/
theorem Shape.malloc_texts (hs : Shape s es) (b : List Char) :
    (∀ e ∈ es, (s.texts.malloc b).2.cell e.content = some (e.text ++ [terminator])) ∧
      s.texts.fresh ∉ es.map Entry.content ∧ ∀ e ∈ es, e.content < s.texts.fresh + 1 := by
  refine ⟨?_, ?_, fun e he => Nat.lt_succ_of_lt (hs.fresh e he)⟩
  · intro e he
    show Function.update s.texts.cell s.texts.fresh (some b) e.content = _
    rw [Function.update_of_ne (hs.fresh e he).ne, hs.text e he]
  · intro hmem
    obtain ⟨e, he, heq⟩ := List.mem_map.mp hmem
    exact (hs.fresh e he).ne heq

/-- The entry of a new node. -/
def newEntry (s : ListState (TextNode τ)) (tag : τ) (text : List Char) : Entry τ :=
  ⟨s.heap.fresh, s.texts.fresh, tag, text⟩

/-- When the new node is linked somewhere, the list has a new entry there. -/
theorem Shape.insertNew (hs : Shape s es) (tag : τ) (text : List Char) {es' : List (Entry τ)}
    (hperm : es'.Perm (newEntry s tag text :: es)) {h : Heap (Node (TextNode τ))} {l : DList}
    (hwell : WellFormed h l (es'.map Entry.node)) :
    Shape { (newOwner tag text s).2 with heap := h, list := l } es' := by
  obtain ⟨htext, hnew, hfresh⟩ := hs.malloc_texts (text ++ [terminator])
  refine ⟨hwell, ?_, ?_, ?_⟩
  · intro e he
    rcases List.mem_cons.mp (hperm.subset he) with rfl | he
    · exact Function.update_self _ _ _
    · exact htext e he
  · rw [(hperm.map Entry.content).nodup_iff, List.map_cons, List.nodup_cons]
    exact ⟨hnew, hs.owned⟩
  · intro e he
    rcases List.mem_cons.mp (hperm.subset he) with rfl | he
    · exact Nat.lt_succ_self _
    · exact hfresh e he

/-- Deleting a node of the list frees its text, which no other node owns. -/
theorem Shape.deleteOwner (hs : Shape s (as ++ e :: bs)) :
    ∃ s', Found.deleteOwner s e.addr = some s' ∧ Shape s' (as ++ bs) ∧ s'.heap.fresh = s.heap.fresh := by
  have hwell := hs.wellFormed
  rw [List.map_append, List.map_cons] at hwell
  obtain ⟨h', l', hdel, hwell', hfresh⟩ := hwell.deleteNode
  have hcell : s.heap.load (some e.addr) = some ⟨e.node.2, firstPtr (bs.map Entry.node),
      lastPtr (as.map Entry.node)⟩ := (wellFormed_iff_rep.mp hwell).node rfl
  have hfree := Heap.free_of_cell (hs.text e (by simp))
  have howned := hs.owned
  rw [List.map_append, List.map_cons, List.nodup_middle, List.nodup_cons] at howned
  let texts : Heap (List Char) := { s.texts with cell := Function.update s.texts.cell e.content none }
  refine ⟨⟨texts, h', l'⟩, ?_, ⟨?_, ?_, ?_, ?_⟩, hfresh⟩
  · unfold Found.deleteOwner
    simp only [Option.bind_eq_bind, hcell, Option.bind_some, Entry.node, hfree]
    rw [show Found.deleteNode s.heap s.list e.addr = some (h', l') from hdel]
    rfl
  · rw [List.map_append]
    exact hwell'
  · intro d hd
    have hne : d.content ≠ e.content := by
      intro heq
      rw [← heq, ← List.map_append] at howned
      exact howned.1 (List.mem_map_of_mem hd)
    show Function.update s.texts.cell e.content none d.content = _
    rw [Function.update_of_ne hne]
    refine hs.text d ?_
    rcases List.mem_append.mp hd with hd | hd
    · exact List.mem_append_left _ hd
    · exact List.mem_append_right _ (List.mem_cons_of_mem e hd)
  · rw [List.map_append]
    exact howned.2
  · intro d hd
    refine hs.fresh d ?_
    rcases List.mem_append.mp hd with hd | hd
    · exact List.mem_append_left _ hd
    · exact List.mem_append_right _ (List.mem_cons_of_mem e hd)

/-- Enough steps delete all nodes and their texts. -/
theorem Shape.deleteOwnersFuel (hs : Shape s es) {fuel : Nat} (hfuel : es.length ≤ fuel) :
    ∃ s', Found.deleteOwnersFuel fuel s = some s' ∧ Shape s' [] := by
  induction es generalizing s fuel with
  | nil =>
      have hhead : s.list.head = none := hs.wellFormed.forward.eq_firstPtr
      refine ⟨s, ?_, hs⟩
      unfold Found.deleteOwnersFuel
      rw [hhead]
  | cons e es ih =>
      obtain ⟨fuel, rfl⟩ : ∃ k, fuel = k + 1 := ⟨fuel - 1, by simp at hfuel; omega⟩
      have hhead : s.list.head = some e.addr := hs.wellFormed.forward.eq_firstPtr
      have hfront : Shape s ([] ++ e :: es) := hs
      obtain ⟨s₁, hdel, hs₁, -⟩ := hfront.deleteOwner
      obtain ⟨s', hrun, hs'⟩ := ih hs₁ (Nat.le_of_succ_le_succ hfuel)
      refine ⟨s', ?_, hs'⟩
      unfold Found.deleteOwnersFuel
      simp only [hhead, hdel, Option.bind_some]
      exact hrun

/-- All nodes are deleted. -/
theorem Shape.deleteOwners (hs : Shape s es) : ∃ s', Found.deleteOwners s = some s' ∧ Shape s' [] := by
  have hle := hs.wellFormed.length_le
  rw [List.length_map] at hle
  exact hs.deleteOwnersFuel hle

end shape

/-! ## Runs of an implementation whose nodes own texts -/

/-- A text without NUL, as a string holds it. -/
abbrev CText := { s : List Char // terminator ∉ s }

/-- What a node with an own text is created from. -/
def Entry.source (e : Entry τ) : τ × List Char := (e.tag, e.text)

/-- The functions of the implementation are the ones above. -/
structure OwnsTexts (code : ListCode (TextNode τ) (τ × CText)) : Prop where
  createNode : ∀ g s, code.createNode g s = some (newOwner g.1 g.2.val s)
  insertAtHead : code.insertAtHead = insertAtHead
  insertAtTail : code.insertAtTail = insertAtTail
  deleteNode : code.deleteNode = deleteOwner
  deleteAllNode : code.deleteAllNode = deleteOwners

/-- The list holds what its nodes were created from. -/
def HoldsTexts (s : ListState (TextNode τ)) (gs : List (τ × CText)) : Prop :=
  ∃ es, Shape s es ∧ es.map Entry.source = gs.map fun g => (g.1, g.2.val)

section runs

variable {code : ListCode (TextNode τ) (τ × CText)} {s : ListState (TextNode τ)} {gs : List (τ × CText)}

/-- A new node with its own text, at the head. -/
theorem OwnsTexts.insertNewAtHead (hcode : OwnsTexts code) (hs : HoldsTexts s gs) (g : τ × CText) :
    ∃ s', code.insertNew code.insertAtHead g s = some s' ∧ HoldsTexts s' (g :: gs) := by
  obtain ⟨es, hshape, hes⟩ := hs
  obtain ⟨h', l', hins, hwell⟩ :=
    hshape.wellFormed.insertNewAtHead ⟨g.1, g.2.val.length, s.texts.fresh⟩
  refine ⟨_, ?_, newEntry s g.1 g.2 :: es,
    hshape.insertNew g.1 g.2 (List.Perm.refl _) (h := h') (l := l') hwell, ?_⟩
  · unfold ListCode.insertNew
    rw [hcode.createNode, hcode.insertAtHead, Option.bind_eq_bind, Option.bind_some]
    simp only [newOwner, Heap.malloc] at hins ⊢
    rw [hins]
    rfl
  · rw [List.map_cons, hes]
    rfl

/-- A new node with its own text, at the tail. -/
theorem OwnsTexts.insertNewAtTail (hcode : OwnsTexts code) (hs : HoldsTexts s gs) (g : τ × CText) :
    ∃ s', code.insertNew code.insertAtTail g s = some s' ∧ HoldsTexts s' (gs ++ [g]) := by
  obtain ⟨es, hshape, hes⟩ := hs
  obtain ⟨h', l', hins, hwell⟩ :=
    hshape.wellFormed.insertNewAtTail ⟨g.1, g.2.val.length, s.texts.fresh⟩
  have hmap : (es ++ [newEntry s g.1 g.2]).map Entry.node = es.map Entry.node ++
      [(s.heap.fresh, ⟨g.1, g.2.val.length, s.texts.fresh⟩)] := List.map_append
  refine ⟨_, ?_, es ++ [newEntry s g.1 g.2],
    hshape.insertNew g.1 g.2 List.perm_append_comm (h := h') (l := l') (hmap ▸ hwell), ?_⟩
  · unfold ListCode.insertNew
    rw [hcode.createNode, hcode.insertAtTail, Option.bind_eq_bind, Option.bind_some]
    simp only [newOwner, Heap.malloc] at hins ⊢
    rw [hins]
    rfl
  · rw [List.map_append, List.map_append, hes]
    rfl

/-- A node is deleted, and its text is freed. -/
theorem OwnsTexts.deleteAt (hcode : OwnsTexts code) (hs : HoldsTexts s gs) {i : Nat} (hi : i < gs.length) :
    ∃ s', code.step s (.deleteNode i) = some s' ∧ HoldsTexts s' (gs.eraseIdx i) := by
  obtain ⟨es, hshape, hes⟩ := hs
  have hlen : es.length = gs.length := by
    have := congrArg List.length hes
    rwa [List.length_map, List.length_map] at this
  have hi' : i < (es.map Entry.node).length := by rwa [List.length_map, hlen]
  have hnode := hshape.wellFormed.forward.nodeAt hi'
  obtain ⟨as, bs, hsplit, -, herase⟩ := exists_split_at (l := es) (i := i) (hlen ▸ hi)
  rw [hsplit] at hshape
  obtain ⟨s', hdel, hshape', -⟩ := hshape.deleteOwner
  refine ⟨s', ?_, as ++ bs, hshape', ?_⟩
  · show (nodeAt s.heap s.list.head i).bind (code.deleteNode s) = some s'
    rw [hnode, hcode.deleteNode, Option.bind_some, List.getElem_map]
    exact hdel
  · rw [← herase, ← List.eraseIdx_map, hes, List.eraseIdx_map]

/-- Every call does to the list in memory what it does to the sequence. -/
theorem OwnsTexts.step (hcode : OwnsTexts code) (hs : HoldsTexts s gs) {op : ListOp (τ × CText)}
    {gs' : List (τ × CText)} (h : op.apply gs = some gs') :
    ∃ s', code.step s op = some s' ∧ HoldsTexts s' gs' := by
  cases op with
  | insertAtHead g =>
      obtain rfl := Option.some.inj h
      exact hcode.insertNewAtHead hs g
  | insertAtTail g =>
      obtain rfl := Option.some.inj h
      exact hcode.insertNewAtTail hs g
  | deleteNode i =>
      rw [ListOp.apply] at h
      split_ifs at h with hi
      obtain rfl := Option.some.inj h
      exact hcode.deleteAt hs hi
  | deleteAllNode =>
      obtain rfl := Option.some.inj h
      obtain ⟨es, hshape, -⟩ := hs
      obtain ⟨s', hrun, hshape'⟩ := hshape.deleteOwners
      refine ⟨s', ?_, [], hshape', rfl⟩
      show code.deleteAllNode s = some s'
      rw [hcode.deleteAllNode, hrun]

/-- So do runs. -/
theorem OwnsTexts.run (hcode : OwnsTexts code) {ops : List (ListOp (τ × CText))}
    (h : ops.foldlM ListOp.apply [] = some gs) : ∃ s, code.run ops = some s ∧ HoldsTexts s gs := by
  refine foldlM_simulates (R := HoldsTexts) ?_ ⟨[], shape_empty, rfl⟩ h
  intro s gs op gs' hs hop
  exact hcode.step hs hop

end runs

end SystemProgrammingLab.Found
