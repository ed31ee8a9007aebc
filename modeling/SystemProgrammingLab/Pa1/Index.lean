import SystemProgrammingLab.Found.DList
import SystemProgrammingLab.Pa1.MyString

/-!
# The line index and the lines of the file

`read_file` builds a list of `(offset, size, lineNum)` entries, reading 4096 bytes at a time.
`extractLine` reads one line back, from wherever the descriptor stands. A file is its list of
bytes; `read` and `lseek` move the offset of the descriptor, which `extractLine` takes and returns.

The loop over the chunks need not end, so it takes a bound on the number of reads and is `none`
beyond it. A line that lies inside of the file is read whole by `extractLine`: what it returns does not
depend on the fresh memory it reads into (`extractLine_text`).

Source: `pa1/main.c`, `pa1/linkedList.c`
-/

namespace SystemProgrammingLab.Pa1

open SystemProgrammingLab.Found

/-! ## The index -/

/-- Source: `BUFSIZE` -/
abbrev bufSize : Nat := 4096

/-- The data of a node of the index. Source: `Node` -/
structure Line where
  lineNum : Nat
  offset : Nat
  size : Nat
  deriving DecidableEq

/-- Source: `create_node_idx` -/
def createNodeIdx (h : Heap (Node Line)) (offset size lineNum : Nat) : Nat × Heap (Node Line) :=
  h.malloc (.single ⟨lineNum, offset, size⟩)

/-- The variables of `read_file`, with the offset `pos` of the descriptor and the index list. Source: `read_file` -/
structure ReadState where
  pos : Nat
  offset : Nat
  lineCnt : Nat
  index : LinkedList Line

/-- Before the first read, with an empty list. Source: `read_file` -/
def ReadState.init : ReadState := ⟨0, 0, 0, .empty⟩

/-- `lseek(fd, d, SEEK_CUR)`: an offset below 0 is an error and leaves the descriptor alone. -/
def seekCur (pos : Nat) (d : Int) : Nat := if 0 ≤ pos + d then (pos + d).toNat else pos

/-- The loop over the lines of one chunk; `start` are the bytes that were read, from the start of a line on.
Source: `read_file` -/
def readChunk (file : List Char) (start : List Char) (st : ReadState) : Option ReadState :=
  match start with
  | [] => some st
  | c :: cs =>
      match h : (c :: cs).dropWhile (· ≠ '\n') with
      | [] =>
          -- the line does not end in this chunk: read one byte, and go back to its start unless
          -- the file is over
          let size := (c :: cs).length + 1
          if st.pos < file.length then
            some { st with pos := seekCur (st.pos + 1) (-size) }
          else some st
      | _ :: next =>
          let size := (c :: cs).length - next.length
          let (node, heap) := createNodeIdx st.index.heap st.offset size (st.lineCnt + 1)
          match insertAtTail heap st.index.list node with
          | none => none
          | some (heap, list) =>
              have : next.length < (c :: cs).length := by
                have hle := (List.dropWhile_suffix (l := c :: cs) (· ≠ '\n')).length_le
                rw [h] at hle
                exact hle
              readChunk file next
                { st with
                  offset := st.offset + size, lineCnt := st.lineCnt + 1, index := ⟨heap, list⟩ }
termination_by start.length
decreasing_by exact this

/-- The loop over the chunks, with at most `fuel` reads. Source: `read_file` -/
def readFile (file : List Char) : Nat → ReadState → Option ReadState
  | 0, _ => none
  | fuel + 1, st =>
      let buffer := (file.drop st.pos).take bufSize
      if buffer = [] then some st
      else
        (readChunk file buffer { st with pos := st.pos + buffer.length }).bind (readFile file fuel)

/-! ## Its entries -/

/-- The lines lie one behind the other, from `o` to `o'`, and none is empty. -/
def Contiguous : Nat → List Line → Nat → Prop
  | o, [], o' => o = o'
  | o, e :: es, o' => e.offset = o ∧ 0 < e.size ∧ Contiguous (o + e.size) es o'

/-- Contiguous entries go forward. -/
theorem Contiguous.le {es : List Line} : ∀ {o o'}, Contiguous o es o' → o ≤ o' := by
  induction es with
  | nil =>
      intro o o' h
      exact Nat.le_of_eq h
  | cons e es ih =>
      intro o o' h
      exact Nat.le_trans (Nat.le_add_right o e.size) (ih h.2.2)

/-- The first of them end in front of the others. -/
theorem Contiguous.of_append {es es' : List Line} : ∀ {o o'}, Contiguous o (es ++ es') o' →
    ∃ m, Contiguous o es m ∧ m ≤ o' := by
  induction es with
  | nil =>
      intro o o' h
      exact ⟨o, rfl, h.le⟩
  | cons e es ih =>
      intro o o' h
      obtain ⟨hoffset, hsize, h⟩ := h
      obtain ⟨m, hm, hle⟩ := ih h
      exact ⟨m, ⟨hoffset, hsize, hm⟩, hle⟩

/-- A line among them is not empty and lies in front of the end. -/
theorem Contiguous.of_mem {es : List Line} {e : Line} (he : e ∈ es) :
    ∀ {o o'}, Contiguous o es o' → 0 < e.size ∧ e.offset + e.size ≤ o' := by
  induction es with
  | nil => cases he
  | cons d es ih =>
      intro o o' h
      rcases List.mem_cons.mp he with rfl | he
      · rw [h.1]
        exact ⟨h.2.1, h.2.2.le⟩
      · exact ih he h.2.2

/-- The list represents lines that lie one behind the other from the start of the file to
`offset`. -/
def ReadState.Indexed (st : ReadState) (es : List Line) : Prop :=
  st.index.Holds es ∧ Contiguous 0 es st.offset

/-- A chunk without the end of the line: the descriptor goes back to the start of the line, unless
the file is over. -/
theorem readChunk_cut {file : List Char} {c : Char} {cs : List Char}
    (h : (c :: cs).dropWhile (· ≠ '\n') = []) (st : ReadState) :
    readChunk file (c :: cs) st = some (if st.pos < file.length then
      { st with pos := seekCur (st.pos + 1) (-((c :: cs).length + 1 : Nat)) } else st) := by
  rw [readChunk.eq_def]
  dsimp only
  split
  · split_ifs <;> rfl
  · rename_i heq
    rw [h] at heq
    cases heq

/-- A line that ends in the chunk is inserted into the index. -/
theorem readChunk_insert {file : List Char} {c d : Char} {cs next : List Char}
    (h : (c :: cs).dropWhile (· ≠ '\n') = d :: next) {st : ReadState} {size : Nat}
    (hsize : (c :: cs).length - next.length = size) :
    readChunk file (c :: cs) st =
      (insertAtTail (createNodeIdx st.index.heap st.offset size (st.lineCnt + 1)).2 st.index.list
        (createNodeIdx st.index.heap st.offset size (st.lineCnt + 1)).1).bind fun (heap, list) =>
          readChunk file next ⟨st.pos, st.offset + size, st.lineCnt + 1, ⟨heap, list⟩⟩ := by
  rw [readChunk.eq_def]
  dsimp only
  split
  · rename_i heq
    rw [h] at heq
    cases heq
  · rename_i heq
    rw [h] at heq
    cases heq
    rw [hsize]
    split
    · rename_i hins
      rw [hins]
      rfl
    · rename_i hins
      rw [hins]
      rfl

/-- A line that ends in the chunk becomes an entry of the index. -/
theorem readChunk_line {file : List Char} {c d : Char} {cs next : List Char}
    (h : (c :: cs).dropWhile (· ≠ '\n') = d :: next) {st : ReadState} {size : Nat}
    (hsize : (c :: cs).length - next.length = size) {heap : Heap (Node Line)} {list : DList}
    (hins : insertAtTail (createNodeIdx st.index.heap st.offset size (st.lineCnt + 1)).2
      st.index.list (createNodeIdx st.index.heap st.offset size (st.lineCnt + 1)).1 =
        some (heap, list)) :
    readChunk file (c :: cs) st = readChunk file next
      ⟨st.pos, st.offset + size, st.lineCnt + 1, ⟨heap, list⟩⟩ := by
  rw [readChunk_insert h hsize, hins]
  rfl

/-! ## One line -/

/-- Read `size` bytes from the offset `pos` on into a fresh object, end them with a NUL, in the
place of the newline if there is one, and turn capital letters into small ones. The result is the
object and the new offset. Source: `extractLine` -/
def extractLine (fill : Nat → Char) (file : List Char) (pos size : Nat) :
    Option (List Char × Nat) :=
  let bytes := (file.drop pos).take size
  let content := bytes ++ (malloc fill (size + 1)).drop bytes.length
  match size with
  | 0 => none
  | last + 1 =>
      let content :=
        if content[last]? ≠ some '\n' then content.set size nul else content.set last nul
      (toLowercase content).map fun content => (content, pos + bytes.length)

/-- The bytes of a line without the newline at their end. -/
def chomp (bytes : List Char) : List Char :=
  if bytes.getLast? = some '\n' then bytes.dropLast else bytes

/-- The text of a line of the file, in small letters. -/
def lineText (file : List Char) (e : Line) : List Char :=
  (text (chomp ((file.drop e.offset).take e.size))).map lowerChar

/-- The text of a line has no NUL. -/
theorem nul_notMem_lineText (file : List Char) (e : Line) : nul ∉ lineText file e := by
  intro h
  obtain ⟨c, hc, hlower⟩ := List.mem_map.mp h
  refine lowerChar_ne_nul ?_ hlower
  rintro rfl
  exact nul_notMem_text _ hc

/-- A line inside of the file is read whole. -/
theorem extractLine_text (fill : Nat → Char) {file : List Char} {e : Line} (hsize : 0 < e.size)
    (hle : e.offset + e.size ≤ file.length) :
    ∃ rest, extractLine fill file e.offset e.size =
      some (lineText file e ++ nul :: rest, e.offset + e.size) := by
  obtain ⟨lineNum, offset, size⟩ := e
  obtain ⟨last, rfl⟩ : ∃ last, size = last + 1 := ⟨size - 1, by simp at hsize; omega⟩
  have hlen : ((file.drop offset).take (last + 1)).length = last + 1 := by
    rw [List.length_take, List.length_drop]
    exact Nat.min_eq_left (Nat.le_sub_of_add_le' hle)
  unfold extractLine lineText
  dsimp only
  generalize (file.drop offset).take (last + 1) = bytes at hlen ⊢
  obtain ⟨bs, b, rfl⟩ : ∃ bs b, bytes = bs ++ [b] := by
    rcases List.eq_nil_or_concat' bytes with rfl | h
    · cases hlen
    · exact h
  have hbs : bs.length = last := by simpa using hlen
  -- one byte of the object is left behind the line
  have hdrop : (malloc fill (last + 1 + 1)).drop (bs ++ [b]).length = [fill (last + 1)] := by
    rw [hlen, malloc, List.range_succ, List.map_append]
    exact List.drop_left' (by simp)
  have hcontent : ∃ rest, (if (bs ++ [b] ++ [fill (last + 1)])[last]? ≠ some '\n'
      then (bs ++ [b] ++ [fill (last + 1)]).set (last + 1) nul
      else (bs ++ [b] ++ [fill (last + 1)]).set last nul) = chomp (bs ++ [b]) ++ nul :: rest := by
    subst hbs
    unfold chomp
    by_cases hb : b = '\n'
    · refine ⟨[fill (bs.length + 1)], ?_⟩
      simp [hb]
    · refine ⟨[], ?_⟩
      simp [hb]
  obtain ⟨rest, hcontent⟩ := hcontent
  obtain ⟨rest', htext⟩ := exists_eq_text (chomp (bs ++ [b])) rest
  refine ⟨rest', ?_⟩
  rw [hdrop, hcontent, htext, toLowercase_text (nul_notMem_text _), hlen]
  rfl

/-- A line that ends in a newline is read with a NUL in the place of the newline. -/
theorem extractLine_line (fill : Nat → Char) {file l : List Char} {pos : Nat}
    (h : (file.drop pos).take (l.length + 1) = l ++ ['\n']) :
    extractLine fill file pos (l.length + 1) =
      (toLowercase (l ++ [nul, fill (l.length + 1)])).map fun content =>
        (content, pos + (l.length + 1)) := by
  have hdrop : (malloc fill (l.length + 1 + 1)).drop (l ++ ['\n']).length = [fill (l.length + 1)] := by
    rw [malloc, List.range_succ, List.map_append]
    exact List.drop_left' (by simp)
  unfold extractLine
  simp only [h, hdrop]
  simp

end SystemProgrammingLab.Pa1
