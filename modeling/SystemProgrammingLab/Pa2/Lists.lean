import SystemProgrammingLab.Found.ListCode
import SystemProgrammingLab.Pa1.Lists

/-!
# The list implementation of `pa2`, and what the three implementations do

`linkedList.c` of `pa2` has the list of the parsed commands, whose nodes point to a copy of their text. Its
functions are those of the list of words of `pa1`, with the string functions of the C library.

In all three implementations every sequence of calls that insert new nodes at the ends, delete nodes of the list
and delete all of them keeps the list well formed, with what the same calls do to a sequence
(`lists_keep_representation`). `insert_at_next` and `insert_at_before` put the new node in its place exactly
when the node next to it is not the tail, or the head (`insert_position_iff`): at the end they insert the node
that is in the list already, which then is its own neighbour.

Source: `pa2/linkedList.c`, `pa1/linkedList.c`, `pa1/linkedListStr.c`
-/

namespace SystemProgrammingLab.Pa2

open SystemProgrammingLab.Found

namespace NodeList

/-- Source: `TYPE` -/
inductive NodeType
  | commandline
  | pipeline
  | commands
  | command
  | executable
  | implement
  | builtin
  | path
  | unknown

/-- The data of a node: the tag is its type. Source: `Node` -/
abbrev NodeText := TextNode NodeType

/-- An object of `n` bytes, which hold anything. -/
def malloc (fill : Nat → Char) (n : Nat) : List Char := (List.range n).map fill

/-- `strcpy(dest, src)`. Source: `linkedList.c`, `create_node` -/
def strcpy (dest src : List Char) : Option (List Char) :=
  (textAt src 0).bind fun s =>
    if s.length < dest.length then some (s ++ terminator :: dest.drop (s.length + 1)) else none

/-- Source: `create_node` -/
def createNode (fill : Nat → Char) (type : NodeType) (content : List Char) (s : ListState NodeText) :
    Option (Nat × ListState NodeText) := do
  let len ← strlen content 0
  let copy ← strcpy (malloc fill (len + 1)) content
  let length ← strlen copy 0
  let (copied, texts) := s.texts.malloc copy
  let (node, heap) := s.heap.malloc (.single ⟨type, length, copied⟩)
  return (node, ⟨texts, heap, s.list⟩)

/-- Source: `insert_at_head` -/
def insertAtHead (h : Heap (Node NodeText)) (l : DList) (node : Nat) :
    Option (Heap (Node NodeText) × DList) :=
  Found.insertAtHead h l node

/-- Source: `insert_at_tail` -/
def insertAtTail (h : Heap (Node NodeText)) (l : DList) (node : Nat) :
    Option (Heap (Node NodeText) × DList) :=
  Found.insertAtTail h l node

/-- Source: `insert_at_next` -/
def insertAtNext (h : Heap (Node NodeText)) (l : DList) (node toInsert : Nat) :
    Option (Heap (Node NodeText) × DList) :=
  Found.insertAtNext h l node toInsert

/-- Source: `insert_at_before` -/
def insertAtBefore (h : Heap (Node NodeText)) (l : DList) (node toInsert : Nat) :
    Option (Heap (Node NodeText) × DList) :=
  Found.insertAtBefore h l node toInsert

/-- Source: `delete_node` -/
def deleteNode (s : ListState NodeText) (node : Nat) : Option (ListState NodeText) := deleteOwner s node

/-- Source: `delete_all_node` -/
def deleteAllNode (s : ListState NodeText) : Option (ListState NodeText) := deleteOwners s

/-- The implementation; the content that a node is created from is a string without anything behind it. -/
def code (fill : Nat → Char) : ListCode NodeText (NodeType × CText) where
  createNode g s := createNode fill g.1 (g.2.val ++ [terminator]) s
  insertAtHead := insertAtHead
  insertAtTail := insertAtTail
  deleteNode := deleteNode
  deleteAllNode := deleteAllNode

/-- A text is copied to storage of its size. -/
theorem strcpy_malloc (fill : Nat → Char) {s : List Char} (hs : terminator ∉ s) :
    strcpy (malloc fill (s.length + 1)) (s ++ [terminator]) = some (s ++ [terminator]) := by
  have hlen : (malloc fill (s.length + 1)).length = s.length + 1 := by simp [malloc]
  rw [strcpy, textAt_literal hs, Option.bind_some, if_pos (by omega), List.drop_of_length_le hlen.le]

/-- Every node has its own copy of its text. -/
theorem code_ownsTexts (fill : Nat → Char) : OwnsTexts (code fill) where
  createNode := by
    rintro ⟨type, text, htext⟩ s
    have hlen : strlen (text ++ [terminator]) 0 = some text.length := strlen_eq (textAt_literal htext)
    show createNode fill type (text ++ [terminator]) s = _
    unfold createNode
    simp only [Option.bind_eq_bind, hlen, Option.bind_some, strcpy_malloc fill htext]
    rfl
  insertAtHead := rfl
  insertAtTail := rfl
  deleteNode := rfl
  deleteAllNode := rfl

end NodeList

/-! ## The three implementations -/

/-- The implementations. Source: `pa1/linkedList.c`, `pa1/linkedListStr.c`, `pa2/linkedList.c` -/
inductive ListCopy
  | idx
  | str
  | commands

/-- The data of a node. -/
abbrev ListCopy.Data : ListCopy → Type
  | .idx => Pa1.ListIdx.Data
  | .str => Pa1.ListStr.NodeStr
  | .commands => NodeList.NodeText

/-- What a node is created from. -/
abbrev ListCopy.Arg : ListCopy → Type
  | .idx => Pa1.ListIdx.Data
  | .str => Int × CText
  | .commands => NodeList.NodeType × CText

/-- The functions of the implementation. -/
def ListCopy.code (fill : Nat → Char) : (c : ListCopy) → ListCode c.Data c.Arg
  | .idx => Pa1.ListIdx.code
  | .str => Pa1.ListStr.code fill
  | .commands => NodeList.code fill

/-- The implementation's `insert_at_next`. Source: `linkedList.c` -/
def ListCopy.insertAtNext : (c : ListCopy) →
    Heap (Node c.Data) → DList → Nat → Nat → Option (Heap (Node c.Data) × DList)
  | .idx => Pa1.ListIdx.insertAtNextIdx
  | .str => Pa1.ListStr.insertAtNext
  | .commands => NodeList.insertAtNext

/-- The implementation's `insert_at_before`. Source: `linkedList.c` -/
def ListCopy.insertAtBefore : (c : ListCopy) →
    Heap (Node c.Data) → DList → Nat → Nat → Option (Heap (Node c.Data) × DList)
  | .idx => Pa1.ListIdx.insertAtBeforeIdx
  | .str => Pa1.ListStr.insertAtBefore
  | .commands => NodeList.insertAtBefore

/-- The node has the tag and the text that it was created from. -/
def ShowsText {τ : Type} (s : ListState (TextNode τ)) (x : TextNode τ) (g : τ × CText) : Prop :=
  x.tag = g.1 ∧ x.length = g.2.val.length ∧ s.texts.cell x.content = some (g.2.val ++ [terminator])

/-- The data of a node are what it was created from. -/
def ListCopy.Shows : (c : ListCopy) → ListState c.Data → c.Data → c.Arg → Prop
  | .idx => fun _ x g => x = g
  | .str => ShowsText
  | .commands => ShowsText

/-! ### Runs -/

/-- The nodes `ns`, and what they were created from. -/
structure Represents (c : ListCopy) (s : ListState c.Data) (ns : List (Nat × c.Data)) (gs : List c.Arg) :
    Prop where
  wellFormed : WellFormed s.heap s.list ns
  shows : List.Forall₂ (fun n g => c.Shows s n.2 g) ns gs

/-- The nodes of a list that holds texts show them. -/
theorem shows_of_holdsTexts {τ : Type} {s : ListState (TextNode τ)} {gs : List (τ × CText)}
    (hs : HoldsTexts s gs) :
    ∃ ns, WellFormed s.heap s.list ns ∧ List.Forall₂ (fun n g => ShowsText s n.2 g) ns gs := by
  obtain ⟨es, hshape, hes⟩ := hs
  refine ⟨es.map Entry.node, hshape.wellFormed, ?_⟩
  have htext := hshape.text
  clear hshape
  induction es generalizing gs with
  | nil =>
      obtain rfl := List.map_eq_nil_iff.mp hes.symm
      exact .nil
  | cons e es ih =>
      obtain ⟨g, gs', rfl, hg, hrest⟩ := List.map_eq_cons_iff.mp hes.symm
      obtain ⟨htag, hval⟩ := Prod.mk.inj hg
      rw [List.forall_mem_cons] at htext
      refine .cons ⟨htag.symm, ?_, ?_⟩ (ih hrest.symm htext.2)
      · rw [hval]
        rfl
      · rw [hval]
        exact htext.1

/-- Every sequence of operations that makes sense can be run, and gives its list. -/
theorem ListCopy.exists_represents (c : ListCopy) (fill : Nat → Char) {ops : List (ListOp c.Arg)}
    {gs : List c.Arg} (h : ops.foldlM ListOp.apply [] = some gs) :
    ∃ s ns, (c.code fill).run ops = some s ∧ Represents c s ns gs := by
  cases c with
  | idx =>
      obtain ⟨s, hrun, ns, hwell, rfl⟩ := Pa1.ListIdx.run_holds h
      refine ⟨s, ns, hrun, hwell, ?_⟩
      rw [List.forall₂_map_right_iff, List.forall₂_same]
      exact fun _ _ => rfl
  | str =>
      obtain ⟨s, hrun, hs⟩ := (Pa1.ListStr.code_ownsTexts fill).run h
      obtain ⟨ns, hwell, hshows⟩ := shows_of_holdsTexts hs
      exact ⟨s, ns, hrun, hwell, hshows⟩
  | commands =>
      obtain ⟨s, hrun, hs⟩ := (NodeList.code_ownsTexts fill).run h
      obtain ⟨ns, hwell, hshows⟩ := shows_of_holdsTexts hs
      exact ⟨s, ns, hrun, hwell, hshows⟩

/-- Every sequence of calls in which only nodes of the list are deleted runs without an invalid access or a second
`free`. The list is then walked in both directions over the same nodes, none of which is freed, the counter is
their number, both ends are `NULL` exactly when there are none, and they are the nodes that the same calls leave in
a sequence. -/
theorem lists_keep_representation (c : ListCopy) (fill : Nat → Char) {ops : List (ListOp c.Arg)}
    {gs : List c.Arg} (h : ops.foldlM ListOp.apply [] = some gs) :
    ∃ s ns, (c.code fill).run ops = some s ∧
      Walk Node.next s.heap s.list.head ns ∧ Walk Node.prev s.heap s.list.tail ns.reverse ∧
      s.list.num = ns.length ∧ (s.list.head = none ↔ ns = []) ∧ (s.list.tail = none ↔ ns = []) ∧
      (ns.map Prod.fst).Nodup ∧ (∀ p ∈ ns.map Prod.fst, ∃ n, s.heap.cell p = some n) ∧
      List.Forall₂ (fun n g => c.Shows s n.2 g) ns gs := by
  obtain ⟨s, ns, hrun, hwell, hshows⟩ := c.exists_represents fill h
  refine ⟨s, ns, hrun, hwell.forward, hwell.backward, hwell.num, hwell.ends_eq_none.1,
    hwell.ends_eq_none.2, hwell.forward.nodup, ?_, hshows⟩
  intro p hp
  exact hwell.exists_cell hp

/-- Two commands, the first of which is deleted. -/
theorem lists_keep_representation_ls_wc : ∃ s ns,
    (ListCopy.commands.code fun _ => '?').run [.insertAtTail (.command, ⟨['l', 's'], by decide⟩),
      .insertAtTail (.command, ⟨['w', 'c'], by decide⟩), .deleteNode 0] = some s ∧
      Walk Node.next s.heap s.list.head ns ∧ Walk Node.prev s.heap s.list.tail ns.reverse ∧
      s.list.num = ns.length ∧ (s.list.head = none ↔ ns = []) ∧ (s.list.tail = none ↔ ns = []) ∧
      (ns.map Prod.fst).Nodup ∧ (∀ p ∈ ns.map Prod.fst, ∃ n, s.heap.cell p = some n) ∧
      List.Forall₂ (fun n g => ListCopy.commands.Shows s n.2 g) ns
        [(.command, ⟨['w', 'c'], by decide⟩)] :=
  lists_keep_representation .commands (fun _ => '?') rfl

/-! ### Inserting next to a node -/

/-- `insert_at_next` puts a new node behind the node `p` exactly when `p` is not the tail, and `insert_at_before`
puts it before `p` exactly when `p` is not the head. -/
theorem insert_position_iff (c : ListCopy) {h : Heap (Node c.Data)} {l : DList} (as bs : List (Nat × c.Data))
    {p q : Nat} {x y : c.Data} (hl : WellFormed h l (as ++ (p, x) :: bs)) (hq : h.cell q = some (.single y))
    (hnew : q ∉ (as ++ (p, x) :: bs).map Prod.fst) (hlt : q < h.fresh) :
    ((∃ h' l', c.insertAtNext h l p q = some (h', l') ∧ WellFormed h' l' (as ++ (p, x) :: (q, y) :: bs) ∧
        l'.num = l.num + 1) ↔ bs ≠ []) ∧
      ((∃ h' l', c.insertAtBefore h l p q = some (h', l') ∧
        WellFormed h' l' (as ++ (q, y) :: (p, x) :: bs) ∧ l'.num = l.num + 1) ↔ as ≠ []) := by
  have hnext := hl.insertAtNext_iff hq hnew hlt
  have hbefore := hl.insertAtBefore_iff hq hnew hlt
  cases c with
  | idx => exact ⟨hnext, hbefore⟩
  | str => exact ⟨hnext, hbefore⟩
  | commands => exact ⟨hnext, hbefore⟩

/-- The data of three lines of a file. -/
def line₁ : Pa1.ListIdx.Data := ⟨1, 0, 4⟩

/-- The second line. -/
def line₂ : Pa1.ListIdx.Data := ⟨2, 4, 3⟩

/-- The third line. -/
def line₃ : Pa1.ListIdx.Data := ⟨3, 7, 5⟩

/-- Two nodes that are linked, and a new one. -/
def lineHeap : Heap (Node Pa1.ListIdx.Data) where
  cell
    | 0 => some ⟨line₁, some 1, none⟩
    | 1 => some ⟨line₂, none, some 0⟩
    | 2 => some (.single line₃)
    | _ => none
  fresh := 3

/-- The list of the two nodes. -/
def lineList : DList := ⟨2, some 0, some 1⟩

/-- The list of two lines is well formed. -/
theorem wellFormed_lineList : WellFormed lineHeap lineList [(0, line₁), (1, line₂)] where
  forward := .cons (n := ⟨line₁, some 1, none⟩) rfl (.cons (n := ⟨line₂, none, some 0⟩) rfl .nil)
  backward := .cons (n := ⟨line₂, none, some 0⟩) rfl (.cons (n := ⟨line₁, some 1, none⟩) rfl .nil)
  num := rfl
  fresh := by decide

/-- Behind the first line and before the first line. -/
theorem insert_position_iff_first :
    ((∃ h' l', ListCopy.idx.insertAtNext lineHeap lineList 0 2 = some (h', l') ∧
        WellFormed h' l' [(0, line₁), (2, line₃), (1, line₂)] ∧ l'.num = lineList.num + 1) ↔
      [(1, line₂)] ≠ []) ∧
      ((∃ h' l', ListCopy.idx.insertAtBefore lineHeap lineList 0 2 = some (h', l') ∧
        WellFormed h' l' [(2, line₃), (0, line₁), (1, line₂)] ∧ l'.num = lineList.num + 1) ↔
      ([] : List (Nat × Pa1.ListIdx.Data)) ≠ []) :=
  insert_position_iff .idx [] [(1, line₂)] wellFormed_lineList rfl (by decide) (by decide)

/-- Behind the last line and before the first line the new line is not inserted. -/
theorem not_insert_position : WellFormed lineHeap lineList [(0, line₁), (1, line₂)] ∧
    (¬ ∃ h' l', ListCopy.idx.insertAtNext lineHeap lineList 1 2 = some (h', l') ∧
      WellFormed h' l' [(0, line₁), (1, line₂), (2, line₃)] ∧ l'.num = lineList.num + 1) ∧
    ¬ ∃ h' l', ListCopy.idx.insertAtBefore lineHeap lineList 0 2 = some (h', l') ∧
      WellFormed h' l' [(2, line₃), (0, line₁), (1, line₂)] ∧ l'.num = lineList.num + 1 := by
  have hlast : WellFormed lineHeap lineList ([(0, line₁)] ++ (1, line₂) :: []) := wellFormed_lineList
  have hfirst : WellFormed lineHeap lineList ([] ++ (0, line₁) :: [(1, line₂)]) := wellFormed_lineList
  refine ⟨wellFormed_lineList, ?_, ?_⟩
  · intro hins
    exact (hlast.insertAtNext_iff rfl (by decide) (by decide)).mp hins rfl
  · intro hins
    exact (hfirst.insertAtBefore_iff rfl (by decide) (by decide)).mp hins rfl

end SystemProgrammingLab.Pa2
