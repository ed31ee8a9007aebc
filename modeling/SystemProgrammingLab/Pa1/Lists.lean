import SystemProgrammingLab.Found.ListCode
import SystemProgrammingLab.Pa1.MyString

/-!
# The two list implementations of `pa1`

`linkedList.c` has the list of the index, `linkedListStr.c` the list of the words of the query, whose nodes
point to a copy of the word. The functions that insert are the same; `delete_node` frees the word as well, and
`delete_all_node_idx` does not call `delete_node_idx` but frees the nodes while it walks through them.

`malloc` does not fail, and there are fewer nodes than an `int` can count.

Source: `pa1/linkedList.c`, `pa1/linkedListStr.c`
-/

namespace SystemProgrammingLab.Pa1

open SystemProgrammingLab.Found

/-! ## The list of the index -/

namespace ListIdx

/-- The data of a node. Source: `Node` -/
structure Data where
  lineNum : Int
  offset : Int
  size : Int

/-- Source: `create_node_idx` -/
def createNodeIdx (offset size lineNum : Int) (s : ListState Data) : Nat × ListState Data :=
  let (node, heap) := s.heap.malloc (.single ⟨lineNum, offset, size⟩)
  (node, { s with heap := heap })

/-- Source: `insert_at_head_idx` -/
def insertAtHeadIdx (h : Heap (Node Data)) (l : DList) (node : Nat) : Option (Heap (Node Data) × DList) :=
  insertAtHead h l node

/-- Source: `insert_at_tail_idx` -/
def insertAtTailIdx (h : Heap (Node Data)) (l : DList) (node : Nat) : Option (Heap (Node Data) × DList) :=
  insertAtTail h l node

/-- Source: `insert_at_next_idx` -/
def insertAtNextIdx (h : Heap (Node Data)) (l : DList) (node toInsert : Nat) :
    Option (Heap (Node Data) × DList) :=
  insertAtNext h l node toInsert

/-- Source: `insert_at_before_idx` -/
def insertAtBeforeIdx (h : Heap (Node Data)) (l : DList) (node toInsert : Nat) :
    Option (Heap (Node Data) × DList) :=
  insertAtBefore h l node toInsert

/-- Source: `delete_node_idx` -/
def deleteNodeIdx (s : ListState Data) (node : Nat) : Option (ListState Data) :=
  (deleteNode s.heap s.list node).map fun (heap, list) => { s with heap := heap, list := list }

/-- The walk frees a node in each round, so it has no more rounds than there are addresses in use.
Source: `delete_all_node_idx` -/
def deleteAllNodeIdx (s : ListState Data) : Option (ListState Data) :=
  (freeWalk s.heap.fresh s.heap s.list.head s.list.head).map fun heap =>
    { s with heap := heap, list := ⟨0, none, none⟩ }

/-- The implementation. -/
def code : ListCode Data Data where
  createNode g s := some (createNodeIdx g.offset g.size g.lineNum s)
  insertAtHead := insertAtHeadIdx
  insertAtTail := insertAtTailIdx
  deleteNode := deleteNodeIdx
  deleteAllNode := deleteAllNodeIdx

/-- The list holds these data, in order. -/
def Holds (s : ListState Data) (gs : List Data) : Prop :=
  ∃ ns, WellFormed s.heap s.list ns ∧ ns.map Prod.snd = gs

section runs

variable {s : ListState Data} {gs gs' : List Data}

/-- A new line at the head. -/
theorem insertNewAtHead (hs : Holds s gs) (g : Data) :
    ∃ s', code.insertNew code.insertAtHead g s = some s' ∧ Holds s' (g :: gs) := by
  obtain ⟨ns, hwell, rfl⟩ := hs
  obtain ⟨h', l', hins, hwell'⟩ := hwell.insertNewAtHead g
  refine ⟨⟨s.texts, h', l'⟩, ?_, _, hwell', rfl⟩
  show (insertAtHead (s.heap.malloc (.single g)).2 s.list s.heap.fresh).bind _ = _
  rw [hins]
  rfl

/-- A new line at the tail. -/
theorem insertNewAtTail (hs : Holds s gs) (g : Data) :
    ∃ s', code.insertNew code.insertAtTail g s = some s' ∧ Holds s' (gs ++ [g]) := by
  obtain ⟨ns, hwell, rfl⟩ := hs
  obtain ⟨h', l', hins, hwell'⟩ := hwell.insertNewAtTail g
  refine ⟨⟨s.texts, h', l'⟩, ?_, _, hwell', by simp⟩
  show (insertAtTail (s.heap.malloc (.single g)).2 s.list s.heap.fresh).bind _ = _
  rw [hins]
  rfl

/-- A line is deleted. -/
theorem deleteAt (hs : Holds s gs) {i : Nat} (hi : i < gs.length) :
    ∃ s', code.step s (.deleteNode i) = some s' ∧ Holds s' (gs.eraseIdx i) := by
  obtain ⟨ns, hwell, rfl⟩ := hs
  rw [List.length_map] at hi
  have hnode := hwell.forward.nodeAt hi
  obtain ⟨as, bs, hsplit, -, herase⟩ := exists_split_at hi
  rw [hsplit] at hwell
  obtain ⟨h', l', hdel, hwell', -⟩ := hwell.deleteNode
  refine ⟨⟨s.texts, h', l'⟩, ?_, as ++ bs, hwell', by rw [← herase, List.eraseIdx_map]⟩
  show (nodeAt s.heap s.list.head i).bind (deleteNodeIdx s) = _
  rw [hnode, Option.bind_some, deleteNodeIdx, hdel]
  rfl

/-- All lines are deleted. -/
theorem deleteAll (hs : Holds s gs) : ∃ s', code.step s .deleteAllNode = some s' ∧ Holds s' [] := by
  obtain ⟨ns, hwell, -⟩ := hs
  obtain ⟨h', hrun, -⟩ := hwell.forward.freeWalk hwell.length_le
  refine ⟨⟨s.texts, h', .empty⟩, ?_, [], wellFormed_empty h', rfl⟩
  show deleteAllNodeIdx s = _
  rw [deleteAllNodeIdx, hrun]
  rfl

/-- Every run does to the list in memory what it does to the sequence. -/
theorem run_holds {ops : List (ListOp Data)} (h : ops.foldlM ListOp.apply [] = some gs) :
    ∃ s, code.run ops = some s ∧ Holds s gs := by
  refine foldlM_simulates (R := Holds) ?_ ⟨[], wellFormed_empty _, rfl⟩ h
  intro s gs op gs' hs hop
  cases op with
  | insertAtHead g =>
      obtain rfl := Option.some.inj hop
      exact insertNewAtHead hs g
  | insertAtTail g =>
      obtain rfl := Option.some.inj hop
      exact insertNewAtTail hs g
  | deleteNode i =>
      rw [ListOp.apply] at hop
      split_ifs at hop with hi
      obtain rfl := Option.some.inj hop
      exact deleteAt hs hi
  | deleteAllNode =>
      obtain rfl := Option.some.inj hop
      exact deleteAll hs

end runs

end ListIdx

/-! ## The list of the words -/

namespace ListStr

/-- The data of a node: the tag is `lineNum`. Source: `NodeStr` -/
abbrev NodeStr := TextNode Int

/-- Source: `create_node` -/
def createNode (fill : Nat → Char) (lineNum : Int) (content : List Char) (s : ListState NodeStr) :
    Option (Nat × ListState NodeStr) := do
  let len ← stringlen content
  let copy ← stringcpy content (malloc fill (len + 1))
  let length ← stringlen copy
  let (copied, texts) := s.texts.malloc copy
  let (node, heap) := s.heap.malloc (.single ⟨lineNum, length, copied⟩)
  return (node, ⟨texts, heap, s.list⟩)

/-- Source: `insert_at_head` -/
def insertAtHead (h : Heap (Node NodeStr)) (l : DList) (node : Nat) :
    Option (Heap (Node NodeStr) × DList) :=
  Found.insertAtHead h l node

/-- Source: `insert_at_tail` -/
def insertAtTail (h : Heap (Node NodeStr)) (l : DList) (node : Nat) :
    Option (Heap (Node NodeStr) × DList) :=
  Found.insertAtTail h l node

/-- Source: `insert_at_next` -/
def insertAtNext (h : Heap (Node NodeStr)) (l : DList) (node toInsert : Nat) :
    Option (Heap (Node NodeStr) × DList) :=
  Found.insertAtNext h l node toInsert

/-- Source: `insert_at_before` -/
def insertAtBefore (h : Heap (Node NodeStr)) (l : DList) (node toInsert : Nat) :
    Option (Heap (Node NodeStr) × DList) :=
  Found.insertAtBefore h l node toInsert

/-- Source: `delete_node` -/
def deleteNode (s : ListState NodeStr) (node : Nat) : Option (ListState NodeStr) := deleteOwner s node

/-- Source: `delete_all_node` -/
def deleteAllNode (s : ListState NodeStr) : Option (ListState NodeStr) := deleteOwners s

/-- The implementation; the content that a node is created from is a string without anything behind it. -/
def code (fill : Nat → Char) : ListCode NodeStr (Int × CText) where
  createNode g s := createNode fill g.1 (g.2.val ++ [nul]) s
  insertAtHead := insertAtHead
  insertAtTail := insertAtTail
  deleteNode := deleteNode
  deleteAllNode := deleteAllNode

/-- Every node has its own copy of its word. -/
theorem code_ownsTexts (fill : Nat → Char) : OwnsTexts (code fill) where
  createNode := by
    rintro ⟨lineNum, text, htext⟩ s
    show createNode fill lineNum (text ++ [nul]) s = _
    unfold createNode
    simp only [Option.bind_eq_bind, stringlen_text htext, Option.bind_some, stringcpy_text fill htext]
    rfl
  insertAtHead := rfl
  insertAtTail := rfl
  deleteNode := rfl
  deleteAllNode := rfl

end ListStr

end SystemProgrammingLab.Pa1
