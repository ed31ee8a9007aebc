import SystemProgrammingLab.Found.CArray
import SystemProgrammingLab.Found.DList
import SystemProgrammingLab.Found.Lines
import SystemProgrammingLab.Found.ReadStream
import SystemProgrammingLab.Pa1.Index
import SystemProgrammingLab.Pa1.MyString

/-!
# The query and its words

`resolve_input` reads a query into a buffer on the stack, deletes the words of the query before it
from the input list, and puts the words of the new query into the list, numbered from 1 on. How it
splits the query depends on the mode, which it returns.

The buffer keeps whatever the stack held (`stale`), the words are copied through fresh memory
(`fill`), and the list starts with the words of the last query. `resolveInput_eq` says that none of
them matters: the mode and the words are those of `parse`, a function of the text of the query.

Source: `pa1/main.c`, `pa1/linkedListStr.c`
-/

namespace SystemProgrammingLab.Pa1

open SystemProgrammingLab.Found

/-! ## The input list -/

/-- Source: `MODE` -/
inductive Mode
  | sword
  | mword
  | cword
  | regexp
  | exit
  deriving DecidableEq

/-- The data of a node of the input list; `content` is the object the field points to.
Source: `NodeStr` -/
structure Word where
  lineNum : Nat
  length : Nat
  content : List Char

/-- The input list with the heap of its nodes. Source: `inputList` -/
abbrev InputList := LinkedList Word

/-- Source: `create_node` -/
def createNode (fill : Nat → Char) (h : Heap (Node Word)) (lineNum : Nat) (content : List Char) :
    Option (Nat × Heap (Node Word)) := do
  let len ← stringlen content
  let copy ← stringcpy content (malloc fill (len + 1))
  let length ← stringlen copy
  return h.malloc (.single ⟨lineNum, length, copy⟩)

/-- `insert_at_tail(inputList, create_node(cnt, content))`. Source: `resolve_input` -/
def insertWord (fill : Nat → Char) (cnt : Nat) (content : List Char) (l : InputList) :
    Option InputList := do
  let (node, heap) ← createNode fill l.heap cnt content
  let (heap, list) ← insertAtTail heap l.list node
  return ⟨heap, list⟩

/-- The word `w` as the node number `cnt` holds it. -/
def Word.ofText (cnt : Nat) (w : List Char) : Word := ⟨cnt, w.length, w ++ [nul]⟩

/-- The words of a query, numbered from `cnt + 1` on. -/
def numbered (cnt : Nat) : List (List Char) → List Word
  | [] => []
  | w :: ws => .ofText (cnt + 1) w :: numbered (cnt + 1) ws

/-- Every word gets a number. -/
theorem length_numbered (cnt : Nat) (ws : List (List Char)) :
    (numbered cnt ws).length = ws.length := by
  induction ws generalizing cnt with
  | nil => rfl
  | cons w ws ih => rw [numbered, List.length_cons, List.length_cons, ih]

/-- A new node has the text of the word. -/
theorem createNode_text (fill : Nat → Char) (h : Heap (Node Word)) (cnt : Nat) {w : List Char}
    (hw : nul ∉ w) (rest : List Char) :
    createNode fill h cnt (w ++ nul :: rest) = some (h.malloc (.single (.ofText cnt w))) := by
  unfold createNode
  simp only [Option.bind_eq_bind, stringlen_text hw, Option.bind_some, stringcpy_text fill hw]
  rfl

/-- Inserting the copy of a text appends it to the words. -/
theorem insertWord_text {l : InputList} {ws : List Word} (hl : l.Holds ws) (fill : Nat → Char)
    (cnt : Nat) {w : List Char} (hw : nul ∉ w) (rest : List Char) :
    ∃ l', insertWord fill cnt (w ++ nul :: rest) l = some l' ∧ l'.Holds (ws ++ [.ofText cnt w]) := by
  obtain ⟨heap, list, hins, hres⟩ := hl.insert (.ofText cnt w)
  refine ⟨⟨heap, list⟩, ?_, hres⟩
  unfold insertWord
  rw [createNode_text fill l.heap cnt hw, Option.bind_eq_bind, Option.bind_some]
  show (insertAtTail (l.heap.malloc (.single (.ofText cnt w))).2 l.list
    (l.heap.malloc (.single (.ofText cnt w))).1).bind _ = _
  rw [hins]
  rfl

/-! ## Splitting a query -/

/-- The branch of `SWORD`: the whole query is the word. Source: `resolve_input` -/
def swordWords (fill : Nat → Char) (input : List Char) (l : InputList) : Option InputList := do
  let len ← stringlen input
  let content ← stringcpy input (malloc fill (len + 1))
  insertWord fill 1 content l

/-- The loop of `MWORD`. At the head of the loop `inputp1` and `inputp2` are equal; `cnt` words were inserted
before. Source: `resolve_input` -/
def mwordWords (fill : Nat → Char) (inputp : List Char) (cnt : Nat) (l : InputList) :
    Option InputList :=
  match inputp with
  | [] => none
  | c :: cs =>
      if c = nul then some l
      else
        match h : skipUntil (fun c => c == ' ' || c == nul) (c :: cs) with
        | none | some [] => none
        | some (d :: next) =>
            let len := (c :: cs).length - (d :: next).length
            ((stringncpy (c :: cs) (malloc fill (len + 1)) len).bind fun content =>
              insertWord fill (cnt + 1) content l).bind fun l =>
                if d = nul then some l
                else
                  have : next.length < (c :: cs).length := (skipUntil_suffix h).length_le
                  mwordWords fill next (cnt + 1) l
termination_by inputp.length
decreasing_by exact this

/-- The branch of `REGEXP`: what is before the asterisk and what is behind it. Source: `resolve_input` -/
def regexpWords (fill : Nat → Char) (input asterisk : List Char) (l : InputList) :
    Option InputList := do
  let len := input.length - asterisk.length
  let content ← stringncpy input (malloc fill (len + 1)) len
  let l ← insertWord fill 1 content l
  let len ← stringlen asterisk
  let content ← stringncpy asterisk.tail (malloc fill len) (len - 1)
  insertWord fill 2 content l

/-- The branch of `CWORD`: the query without its first and its last character. Source: `resolve_input` -/
def cwordWords (fill : Nat → Char) (input : List Char) (l : InputList) : Option InputList := do
  let len ← stringlen input
  let content ← stringncpy input.tail (malloc fill (len - 1)) (len - 2)
  insertWord fill 1 content l

/-- The mode of a query that is not `PA1EXIT`, and its words put into the list. Source: `resolve_input` -/
def splitInput (fill : Nat → Char) (input : List Char) (l : InputList) :
    Option (Mode × InputList) :=
  if input.head? ≠ some '"' then
    (issubstring (cstr "*") input).bind fun asterisk =>
      match asterisk with
      | some asterisk => (regexpWords fill input asterisk l).map fun l => (.regexp, l)
      | none =>
          (issubstring (cstr " ") input).bind fun blank =>
            if blank = none then (swordWords fill input l).map fun l => (.sword, l)
            else (mwordWords fill input 0 l).map fun l => (.mword, l)
  else (cwordWords fill input l).map fun l => (.cword, l)

/-- Read a query into the buffer `stale`, end it with a NUL in the place of its last byte, and
replace the words of the list. Source: `resolve_input` -/
def resolveInput (stale : Fin bufSize → Char) (fill : Nat → Char) (r : ReadResult bufSize Char)
    (l : InputList) : Option (Mode × InputList) := do
  let input ← wr (store stale r.bytes) (r.nbytes - 1) nul
  let (heap, list) ← deleteAll l.heap l.list
  let exit ← stringcmp (cstr "PA1EXIT") (List.ofFn input)
  if exit then some (.exit, ⟨heap, list⟩) else splitInput fill (List.ofFn input) ⟨heap, list⟩

/-! ## What the words are -/

/-- The pieces of a text between its spaces, without an empty piece at the end. -/
def pieces (s : List Char) : List (List Char) :=
  match s with
  | [] => []
  | c :: cs =>
      (c :: cs).takeWhile (· ≠ ' ') ::
        match h : (c :: cs).dropWhile (· ≠ ' ') with
        | [] => []
        | _ :: next =>
            have : next.length < (c :: cs).length := by
              have hle := (List.dropWhile_suffix (l := c :: cs) (· ≠ ' ')).length_le
              rw [h] at hle
              exact hle
            pieces next
termination_by s.length
decreasing_by exact this

/-- The mode and the words of a query; `none` for a single double quote. -/
def parse (s : List Char) : Option (Mode × List (List Char)) :=
  if s = "PA1EXIT".toList then some (.exit, [])
  else if s.head? ≠ some '"' then
    match findSub ['*'] s with
    | some asterisk => some (.regexp, [s.take (s.length - asterisk.length), asterisk.tail])
    | none => if findSub [' '] s = none then some (.sword, [s]) else some (.mword, pieces s)
  else if s.length < 2 then none
  else some (.cword, [s.tail.dropLast])

section words

variable {s rest : List Char} {l : InputList} {ws : List Word} (fill : Nat → Char)

/-- The list gets the one word. -/
theorem swordWords_text (hs : nul ∉ s) (hl : l.Holds ws) (rest : List Char) :
    ∃ l', swordWords fill (s ++ nul :: rest) l = some l' ∧ l'.Holds (ws ++ numbered 0 [s]) := by
  obtain ⟨l', hins, hl'⟩ := insertWord_text hl fill 1 hs []
  refine ⟨l', ?_, hl'⟩
  unfold swordWords
  simp only [Option.bind_eq_bind, stringlen_text hs, Option.bind_some, stringcpy_text fill hs]
  exact hins

/-- When nothing is left everything was taken. -/
theorem takeWhile_of_dropWhile_nil {p : Char → Bool} (h : s.dropWhile p = []) :
    s.takeWhile p = s := by
  have hsplit := List.takeWhile_append_dropWhile (p := p) (l := s)
  rwa [h, List.append_nil] at hsplit

/-- Without a blank the text is the only piece. -/
theorem pieces_cons_of_nil {c : Char} {cs : List Char}
    (h : (c :: cs).dropWhile (· ≠ ' ') = []) : pieces (c :: cs) = [c :: cs] := by
  rw [pieces, takeWhile_of_dropWhile_nil h]
  split
  · rfl
  · rename_i heq
    rw [h] at heq
    cases heq

/-- At a blank the first piece ends. -/
theorem pieces_cons_of_cons {c d : Char} {cs next : List Char}
    (h : (c :: cs).dropWhile (· ≠ ' ') = d :: next) :
    pieces (c :: cs) = (c :: cs).takeWhile (· ≠ ' ') :: pieces next := by
  rw [pieces]
  split
  · rename_i heq
    rw [h] at heq
    cases heq
  · rename_i heq
    rw [h] at heq
    cases heq
    rfl

/-- In a text the end of a piece is a space. -/
theorem skipUntil_space (hs : nul ∉ s) (rest : List Char) :
    skipUntil (fun c => c == ' ' || c == nul) (s ++ nul :: rest) =
      some (s.dropWhile (· ≠ ' ') ++ nul :: rest) := by
  rw [skipUntil_text (by decide)]
  congr 2
  induction s with
  | nil => rfl
  | cons c s ih =>
      rw [List.mem_cons, not_or] at hs
      rw [List.dropWhile_cons, List.dropWhile_cons, ih hs.2]
      have hc : (c == nul) = false := beq_eq_false_iff_ne.mpr (Ne.symm hs.1)
      by_cases hspace : c = ' ' <;> simp [hspace, hc]

/-- One round of the loop. -/
theorem mwordWords_piece {c d : Char} {cs next content : List Char} {cnt : Nat} {l l' : InputList}
    (hc : c ≠ nul) (h : skipUntil (fun c => c == ' ' || c == nul) (c :: cs) = some (d :: next))
    (hcopy : stringncpy (c :: cs) (malloc fill ((c :: cs).length - (d :: next).length + 1))
      ((c :: cs).length - (d :: next).length : Nat) = some content)
    (hins : insertWord fill (cnt + 1) content l = some l') :
    mwordWords fill (c :: cs) cnt l =
      if d = nul then some l' else mwordWords fill next (cnt + 1) l' := by
  rw [mwordWords.eq_def]
  dsimp only
  rw [if_neg hc]
  split
  · rename_i heq
    rw [h] at heq
    cases heq
  · rename_i heq
    rw [h] at heq
    cases heq
  · rename_i heq
    rw [h] at heq
    cases heq
    rw [hcopy, Option.bind_some, hins, Option.bind_some]

/-- The loop inserts the pieces of the text. -/
theorem mwordWords_text (s : List Char) (hs : nul ∉ s) (rest : List Char) :
    ∀ (cnt : Nat) {l : InputList} {ws : List Word}, l.Holds ws →
      ∃ l', mwordWords fill (s ++ nul :: rest) cnt l = some l' ∧
        l'.Holds (ws ++ numbered cnt (pieces s)) := by
  induction s using length_induction with
  | step s ih =>
      intro cnt l ws hl
      cases s with
      | nil =>
          refine ⟨l, ?_, by simpa [pieces, numbered] using hl⟩
          rw [List.nil_append, mwordWords, if_pos rfl]
      | cons c cs =>
          have hc : c ≠ nul := head_ne_nul hs
          have hword : nul ∉ (c :: cs).takeWhile (· ≠ ' ') := fun h =>
            hs ((List.takeWhile_prefix _).subset h)
          have hsuffix := List.dropWhile_suffix (l := c :: cs) (· ≠ ' ')
          have hskip := skipUntil_space hs rest
          have hcopy := stringncpy_before fill hsuffix.length_le rest
          rw [take_length_sub_dropWhile] at hcopy
          obtain ⟨l₁, hins, hl₁⟩ := insertWord_text hl fill (cnt + 1) hword []
          rcases hdrop : (c :: cs).dropWhile (· ≠ ' ') with _ | ⟨d, next⟩
          · -- the last piece
            rw [hdrop] at hskip hcopy
            rw [pieces_cons_of_nil hdrop]
            rw [takeWhile_of_dropWhile_nil hdrop] at hl₁
            exact ⟨l₁, (mwordWords_piece fill hc hskip hcopy hins).trans (if_pos rfl), hl₁⟩
          · -- a space, and the text behind it
            rw [hdrop] at hskip hcopy hsuffix
            have hd : d ≠ nul := by
              rintro rfl
              exact hs (hsuffix.subset (by simp))
            have hnext : nul ∉ next := fun h => hs (hsuffix.subset (by simp [h]))
            obtain ⟨l', hrun, hl'⟩ := ih next hsuffix.length_le hnext (cnt + 1) hl₁
            refine ⟨l', ?_, ?_⟩
            · exact ((mwordWords_piece fill hc hskip hcopy hins).trans (if_neg hd)).trans hrun
            · rw [pieces_cons_of_cons hdrop, numbered, List.append_cons]
              exact hl'

/-- The list gets the words on both sides of the asterisk. -/
theorem regexpWords_text {asterisk : List Char} (hs : nul ∉ s) (hsuffix : asterisk <:+ s)
    (hne : asterisk ≠ []) (hl : l.Holds ws) (rest : List Char) :
    ∃ l', regexpWords fill (s ++ nul :: rest) (asterisk ++ nul :: rest) l = some l' ∧
      l'.Holds (ws ++ numbered 0 [s.take (s.length - asterisk.length), asterisk.tail]) := by
  obtain ⟨c, cs, rfl⟩ := List.exists_cons_of_ne_nil hne
  have hbefore : nul ∉ s.take (s.length - (c :: cs).length) := fun h =>
    hs (List.take_subset _ _ h)
  have hbehind : nul ∉ cs := fun h => hs (hsuffix.subset (List.mem_cons_of_mem c h))
  obtain ⟨l₁, hins₁, hl₁⟩ := insertWord_text hl fill 1 hbefore []
  obtain ⟨l₂, hins₂, hl₂⟩ := insertWord_text hl₁ fill 2 hbehind []
  refine ⟨l₂, ?_, by simpa [numbered] using hl₂⟩
  have hle : cs.length ≤ (cs ++ nul :: rest).length := by simp
  have hcopy := stringncpy_malloc fill hle
  have hlen : stringlen (c :: cs ++ nul :: rest) = some (c :: cs).length :=
    stringlen_text fun h => hs (hsuffix.subset h)
  unfold regexpWords
  simp only [Option.bind_eq_bind, stringncpy_before fill hsuffix.length_le rest, Option.bind_some,
    hins₁, hlen]
  have hsub : (((c :: cs).length : Nat) : Int) - 1 = cs.length := by simp
  rw [hsub, List.cons_append, List.tail_cons, List.length_cons, hcopy, List.take_left]
  exact hins₂

/-- The list gets the phrase between the quotes; a single quote is undefined. -/
theorem cwordWords_text (hs : nul ∉ s) (hhead : s.head? = some '"') (hl : l.Holds ws)
    (rest : List Char) :
    if s.length < 2 then cwordWords fill (s ++ nul :: rest) l = none
    else ∃ l', cwordWords fill (s ++ nul :: rest) l = some l' ∧
      l'.Holds (ws ++ numbered 0 [s.tail.dropLast]) := by
  obtain ⟨cs, rfl⟩ : ∃ cs, s = '"' :: cs := by
    cases s with
    | nil => cases hhead
    | cons c cs =>
        cases hhead
        exact ⟨cs, rfl⟩
  unfold cwordWords
  rw [stringlen_text hs, Option.bind_eq_bind, Option.bind_some, List.cons_append, List.tail_cons]
  split_ifs with hshort
  · -- the number of bytes to copy is negative
    rw [stringncpy, if_pos (by omega)]
    rfl
  · have hword : nul ∉ cs.dropLast := fun h =>
      hs (List.mem_cons_of_mem _ ((List.dropLast_prefix cs).subset h))
    obtain ⟨l', hins, hl'⟩ := insertWord_text hl fill 1 hword []
    refine ⟨l', ?_, hl'⟩
    rw [List.length_cons] at hshort
    obtain ⟨n, hn⟩ : ∃ n, cs.length = n + 1 := ⟨cs.length - 1, by omega⟩
    have hsub : (((('"' :: cs).length : Nat) : Int)) - 2 = n := by
      rw [List.length_cons, hn]
      omega
    have hsize : ('"' :: cs).length - 1 = n + 1 := by simp [hn]
    rw [hsub, hsize, stringncpy_malloc fill (by rw [List.length_append]; omega),
      Option.bind_eq_bind, Option.bind_some, List.take_append_of_le_length (by omega)]
    have hlast : cs.take n = cs.dropLast := by
      rw [List.dropLast_eq_take, hn]
      rfl
    rw [hlast]
    exact hins

/-- A text is empty, or it has no space, or its first space ends a piece of it. -/
@[elab_as_elim]
theorem pieces_induction {motive : List Char → Prop} (nil : motive [])
    (last : ∀ w, w ≠ [] → ' ' ∉ w → motive w)
    (space : ∀ w next, ' ' ∉ w → motive next → motive (w ++ ' ' :: next)) (s : List Char) :
    motive s := by
  induction s using length_induction with
  | step s ih =>
      by_cases hs : ' ' ∈ s
      · obtain ⟨w, next, rfl, hw⟩ := List.eq_append_cons_of_mem hs
        refine space w next hw (ih next ?_)
        rw [List.length_append, List.length_cons]
        omega
      · rcases s with _ | ⟨c, cs⟩
        · exact nil
        · exact last _ (List.cons_ne_nil c cs) hs

/-- A word is its only piece. -/
theorem pieces_of_notMem {w : List Char} (hne : w ≠ []) (hw : ' ' ∉ w) : pieces w = [w] := by
  obtain ⟨c, cs, rfl⟩ := List.exists_cons_of_ne_nil hne
  exact pieces_cons_of_nil (dropWhile_ne_of_notMem hw)

/-- The first space ends the first piece. -/
theorem pieces_append {w : List Char} (hw : ' ' ∉ w) (next : List Char) :
    pieces (w ++ ' ' :: next) = w :: pieces next := by
  have hdrop := dropWhile_ne_append hw next
  have htake := takeWhile_ne_append hw next
  obtain ⟨c, cs, hcons⟩ := List.exists_cons_of_ne_nil (show w ++ ' ' :: next ≠ [] by simp)
  rw [hcons] at hdrop htake ⊢
  rw [pieces_cons_of_cons hdrop, htake]

/-- The pieces of a text are parts of it. -/
theorem subset_of_mem_pieces {s w : List Char} (h : w ∈ pieces s) : w ⊆ s := by
  induction s using pieces_induction with
  | nil => simp [pieces] at h
  | last w' hne hw' =>
      rw [pieces_of_notMem hne hw', List.mem_singleton] at h
      rw [h]
      exact List.Subset.refl _
  | space w' next hw' ih =>
      rw [pieces_append hw', List.mem_cons] at h
      rcases h with rfl | h
      · exact List.subset_append_left _ _
      · intro c hc
        exact List.mem_append_right _ (List.mem_cons_of_mem _ (ih h hc))

/-- The modes of a parsed query and their words. -/
theorem parse_cases {s : List Char} {mode : Mode} {words : List (List Char)}
    (h : parse s = some (mode, words)) :
    mode = .exit ∨ (mode = .sword ∧ words = [s]) ∨ (mode = .mword ∧ words = pieces s) ∨
      (∃ asterisk, asterisk <:+ s ∧ mode = .regexp ∧
        words = [s.take (s.length - asterisk.length), asterisk.tail]) ∨
      (mode = .cword ∧ words = [s.tail.dropLast]) := by
  unfold parse at h
  by_cases hexit : s = "PA1EXIT".toList
  · rw [if_pos hexit] at h
    cases h
    exact .inl rfl
  rw [if_neg hexit] at h
  by_cases hquote : s.head? ≠ some '"'
  · rw [if_pos hquote] at h
    rcases hfind : findSub ['*'] s with _ | asterisk
    · rw [hfind] at h
      dsimp only at h
      by_cases hblank : findSub [' '] s = none
      · rw [if_pos hblank] at h
        cases h
        exact .inr (.inl ⟨rfl, rfl⟩)
      · rw [if_neg hblank] at h
        cases h
        exact .inr (.inr (.inl ⟨rfl, rfl⟩))
    · rw [hfind] at h
      cases h
      exact .inr (.inr (.inr (.inl ⟨asterisk, (findSub_suffix hfind).1, rfl, rfl⟩)))
  · rw [if_neg hquote] at h
    split_ifs at h with hshort
    cases h
    exact .inr (.inr (.inr (.inr ⟨rfl, rfl⟩)))

/-- A result of `resolve_input` has the mode and the words of a parsed query; it is undefined
where the query is `none`. -/
def Parsed (result : Option (Mode × InputList)) : Option (Mode × List (List Char)) → Prop
  | none => result = none
  | some (mode, words) => ∃ l', result = some (mode, l') ∧ l'.Holds (numbered 0 words)

/-- `resolve_input` parses the text of the query. -/
theorem splitInput_text (hs : nul ∉ s) (hexit : s ≠ "PA1EXIT".toList) (hl : l.Holds []) :
    Parsed (splitInput fill (s ++ nul :: rest) l) (parse s) := by
  have hhead : ((s ++ nul :: rest).head? ≠ some '"') ↔ s.head? ≠ some '"' := by
    cases s with
    | nil => simp [nul]
    | cons c cs => simp
  have hstar : issubstring (cstr "*") (s ++ nul :: rest) =
      some ((findSub ['*'] s).map (· ++ nul :: rest)) := issubstring_text (by decide) hs
  have hblank : issubstring (cstr " ") (s ++ nul :: rest) =
      some ((findSub [' '] s).map (· ++ nul :: rest)) := issubstring_text (by decide) hs
  unfold splitInput parse
  rw [if_neg hexit]
  by_cases hquote : s.head? ≠ some '"'
  · rw [if_pos (hhead.mpr hquote), if_pos hquote, hstar, Option.bind_some]
    rcases hfind : findSub ['*'] s with _ | asterisk
    · simp only [hblank, Option.map_none, Option.bind_some, Option.map_eq_none_iff]
      by_cases hnone : findSub [' '] s = none
      · obtain ⟨l', hrun, hl'⟩ := swordWords_text fill hs hl rest
        rw [if_pos hnone, if_pos hnone, hrun]
        exact ⟨l', rfl, hl'⟩
      · obtain ⟨l', hrun, hl'⟩ := mwordWords_text fill s hs rest 0 hl
        rw [if_neg hnone, if_neg hnone, hrun]
        exact ⟨l', rfl, hl'⟩
    · obtain ⟨hsuffix, hne, -⟩ := findSub_suffix hfind
      obtain ⟨l', hrun, hl'⟩ := regexpWords_text fill hs hsuffix hne hl rest
      rw [Option.map_some]
      dsimp only
      rw [hrun]
      exact ⟨l', rfl, hl'⟩
  · have hcword := cwordWords_text fill hs (not_not.mp hquote) hl rest
    rw [if_neg (hhead.not.mpr hquote), if_neg hquote]
    split_ifs at hcword ⊢ with hshort
    · rw [hcword]
      rfl
    · obtain ⟨l', hrun, hl'⟩ := hcword
      rw [hrun]
      exact ⟨l', rfl, hl'⟩

end words

/-! ## Reading a query -/

/-- The buffer after the read, with the NUL in the place of the last byte. -/
theorem exists_ofFn_eq_text {n : Nat} (stale : Fin n → Char) {bs : List Char}
    (hlen : 0 < bs.length ∧ bs.length ≤ n) :
    ∃ input, wr (store stale bs) ((bs.length : Int) - 1) nul = some input ∧
      ∃ rest, List.ofFn input = text bs.dropLast ++ nul :: rest := by
  obtain ⟨last, hlast⟩ : ∃ last : Fin n, (bs.length : Int) - 1 = (last : Nat) :=
    exists_fin_of_bounds (by omega) (by omega)
  obtain ⟨rest, htext⟩ := exists_eq_text bs.dropLast ((List.ofFn stale).drop bs.length)
  refine ⟨Function.update (store stale bs) last nul, by rw [hlast, wr_val], rest, ?_⟩
  rw [ofFn_update, ofFn_store _ hlen.2, ← htext]
  rcases List.eq_nil_or_concat' bs with rfl | ⟨bs, b, rfl⟩
  · exact absurd hlen.1 (Nat.lt_irrefl 0)
  · have hval : (last : Nat) = bs.length := by
      simp at hlast
      omega
    simp [hval]

/-- Neither the stack, nor fresh memory, nor the words of the last query matter: the result is the
mode and the words of the query. A read that returns no bytes is undefined. -/
theorem resolveInput_eq (stale : Fin bufSize → Char) (fill : Nat → Char) (r : ReadResult bufSize Char)
    {l : InputList} {ws : List Word} (hl : l.Holds ws) :
    Parsed (resolveInput stale fill r l)
      (if r.bytes = [] then none else parse (text r.bytes.dropLast)) := by
  unfold resolveInput
  cases r with
  | data bs hlen =>
      have hne : bs ≠ [] := List.ne_nil_of_length_pos hlen.1
      obtain ⟨input, hwr, rest, htext⟩ := exists_ofFn_eq_text stale hlen
      obtain ⟨heap, hdel⟩ := hl.deleteAll
      have hs := nul_notMem_text bs.dropLast
      have hexit : stringcmp (cstr "PA1EXIT") (text bs.dropLast ++ nul :: rest) =
          some (decide ("PA1EXIT".toList = text bs.dropLast)) := stringcmp_text (by decide) hs
      simp only [ReadResult.bytes, ReadResult.nbytes, hwr, hdel, htext, hexit, hne, if_false,
        Option.bind_eq_bind, Option.bind_some, decide_eq_true_eq]
      have hempty := LinkedList.holds_empty (α := Word) heap
      by_cases heq : "PA1EXIT".toList = text bs.dropLast
      · rw [if_pos heq, parse, if_pos heq.symm]
        exact ⟨_, rfl, hempty⟩
      · rw [if_neg heq]
        exact splitInput_text fill hs (Ne.symm heq) hempty
  | eof => rfl
  | error => rfl

end SystemProgrammingLab.Pa1
