import SystemProgrammingLab.Pa1.Hit
import SystemProgrammingLab.Pa1.Main
import SystemProgrammingLab.Pa1.Tokens

/-!
# Searches in a file without lines

Each handler follows the head of the index before its loop looks at the number of lines, to take the
descriptor to the offset of the first one. `followed` are the nodes of the index that a search follows,
whatever its scan of a line does. In an index of at least one line all of them are nodes; the head of an
empty one is `NULL` (`none_notMem_followed_iff`). The index is empty if the file has no newline, so that no
query can be searched for in such a file (`search_nonnull_iff`).

Source: `pa1/main.c`
-/

namespace SystemProgrammingLab.Pa1

open SystemProgrammingLab.Found

/-! ## The nodes a search follows -/

/-- The nodes that the loop over the lines follows, the next one `idxNode`, with `n` more rounds. A
round that is undefined is the last one. -/
def followedLines (fill : Nat → Char) (file : List Char) (heap : Heap (Node Line))
    (scan : Nat → List Char → Option (List Out)) : Nat → Ptr → Nat → List Ptr
  | 0, _, _ => []
  | n + 1, idxNode, pos =>
      let round : Option (Ptr × Nat) := do
        let node ← heap.load idxNode
        let (content, pos) ← extractLine fill file pos node.val.size
        let _ ← scan node.val.lineNum content
        return (node.next, pos)
      idxNode :: round.elim [] fun (next, pos) => followedLines fill file heap scan n next pos

/-- The nodes of the index that a search follows: the head, and those of the loop. -/
def followed (fill : Nat → Char) (file : List Char) (indexList : LinkedList Line) (pos : Nat)
    (scan : Nat → List Char → Option (List Out)) : List Ptr :=
  indexList.list.head :: (indexList.heap.load indexList.list.head).elim [] fun idxNode =>
    followedLines fill file indexList.heap scan indexList.list.num.toNat indexList.list.head
      (seekSet pos idxNode.val.offset)

/-- The nodes of the index that the handler of a mode follows. -/
def handlerNodes (fill : Nat → Char) (file : List Char) (indexList : LinkedList Line)
    (inputList : InputList) (pos : Nat) (mode : Mode) : List Ptr :=
  (modeScan fill inputList mode).elim [] (followed fill file indexList pos)

section followed

variable {file : List Char} {indexList : LinkedList Line} {inputList : InputList}
  {lines : List Line} (fill : Nat → Char)

/-- The loop follows as many nodes as there are lines. -/
theorem none_notMem_followedLines {heap : Heap (Node Line)}
    (scan : Nat → List Char → Option (List Out)) {n : Nat} (hn : n ≤ lines.length) :
    ∀ {idxNode : Ptr} (pos : Nat), Chain heap idxNode lines →
      none ∉ followedLines fill file heap scan n idxNode pos := by
  induction n generalizing lines with
  | zero =>
      intro idxNode pos _
      exact List.not_mem_nil
  | succ n ih =>
      intro idxNode pos hchain
      cases hchain with
      | nil => cases hn
      | @cons _ node _ hload hchain =>
          rw [followedLines]
          apply List.not_mem_cons_of_ne_of_not_mem (Heap.ne_none_of_load hload).symm
          rw [hload, Option.bind_eq_bind, Option.bind_some]
          rcases extractLine fill file pos node.val.size with _ | ⟨content, pos'⟩
          · exact List.not_mem_nil
          · rcases hscan : scan node.val.lineNum content with _ | out
            · simp [hscan]
            · simpa [hscan] using ih (Nat.le_of_succ_le_succ hn) pos' hchain

/-- **A search follows no `NULL` if and only if the index is not empty.** -/
theorem none_notMem_followed_iff (hindex : indexList.Holds lines)
    (scan : Nat → List Char → Option (List Out)) (pos : Nat) :
    none ∉ followed fill file indexList pos scan ↔ lines ≠ [] := by
  unfold followed
  rcases lines with _ | ⟨e, es⟩
  · rw [hindex.head_nil]
    exact iff_of_false (fun h => h List.mem_cons_self) (fun h => h rfl)
  · obtain ⟨node, hload, -⟩ := hindex.head
    refine iff_of_true ?_ (List.cons_ne_nil e es)
    have hnum : indexList.list.num.toNat ≤ (e :: es).length := by
      rw [hindex.num, Int.toNat_natCast]
    rw [hload]
    exact List.not_mem_cons_of_ne_of_not_mem (Heap.ne_none_of_load hload).symm
      (none_notMem_followedLines fill scan hnum _ hindex.chain)

/-- The words of a query give the scan of its mode. -/
theorem exists_modeScan {mode : Mode} {words : List (List Char)} (hshape : Shaped mode words)
    (hinput : inputList.Holds (numbered 0 words)) :
    ∃ scan, modeScan fill inputList mode = some scan := by
  cases mode with
  | sword =>
      obtain ⟨word, rfl⟩ := hshape
      exact ⟨_, modeScan_sword fill hinput⟩
  | mword => exact ⟨_, rfl⟩
  | cword =>
      obtain ⟨sub, rfl⟩ := hshape
      exact ⟨_, modeScan_cword fill hinput⟩
  | regexp =>
      obtain ⟨word1, word2, rfl⟩ := hshape
      exact ⟨_, modeScan_regexp fill hinput⟩
  | exit => exact hshape.elim

end followed

/-! ## Files without a newline -/

section file

variable {file : List Char} {fuel : Nat} {st : ReadState}

/-- The index has a line if the file has a newline. -/
theorem exists_lines_iff (hrun : readFile file fuel .init = some st) :
    ∃ es, st.index.Holds es ∧ (es ≠ [] ↔ '\n' ∈ file) := by
  obtain ⟨ls, hlined, hrest⟩ := readFile_lines (lined_init file) (.inl rfl) hrun
  refine ⟨_, hlined.index, ?_⟩
  rw [ne_eq, ← List.length_eq_zero_iff, length_entries, List.length_eq_zero_iff]
  constructor
  · intro hls
    obtain ⟨l, ls', rfl⟩ := List.exists_cons_of_ne_nil hls
    rw [hlined.bytes]
    simp
  · rintro hnl rfl
    rw [hlined.bytes] at hnl
    exact hrest hnl

/-- **No query follows a `NULL` of the index, and an empty file has no hits, if and only if the file has a
newline.** -/
theorem search_nonnull_iff (hrun : readFile file fuel .init = some st) {s : List Char}
    {mode : Mode} {words : List (List Char)} (hparse : parse s = some (mode, words))
    (hexit : mode ≠ .exit) {inputList : InputList} (hinput : inputList.Holds (numbered 0 words))
    (fill : Nat → Char) (pos : Nat) :
    (none ∉ handlerNodes fill file st.index inputList pos mode ∧
      (file = [] → ∃ pos', handle fill file st.index inputList pos mode = some (report [], pos'))) ↔
      '\n' ∈ file := by
  obtain ⟨es, hholds, hes⟩ := exists_lines_iff hrun
  obtain ⟨scan, hscan⟩ := exists_modeScan fill (shaped_of_parse hparse hexit) hinput
  have hnodes : none ∉ handlerNodes fill file st.index inputList pos mode ↔ '\n' ∈ file := by
    rw [handlerNodes, hscan, ← hes]
    exact none_notMem_followed_iff fill hholds scan pos
  rw [hnodes]
  refine ⟨And.left, fun hnl => ⟨hnl, ?_⟩⟩
  rintro rfl
  cases hnl

/-- A file of two lines. -/
theorem search_nonnull_iff_twoAndRest : ∃ fuel st inputList,
    readFile twoAndRest fuel .init = some st ∧
    LinkedList.Holds inputList (numbered 0 [['b']]) ∧
    ∀ fill pos, (none ∉ handlerNodes fill twoAndRest st.index inputList pos .sword ∧
      (twoAndRest = [] → ∃ pos', handle fill twoAndRest st.index inputList pos .sword =
        some (report [], pos'))) ↔ '\n' ∈ twoAndRest := by
  obtain ⟨fuel, st, hrun, -⟩ := exists_index
  obtain ⟨inputList, hinput⟩ := LinkedList.exists_holds (numbered 0 [['b']])
  have hparse : parse ['b'] = some (.sword, [['b']]) := by decide
  exact ⟨fuel, st, inputList, hrun, hinput, fun fill pos =>
    search_nonnull_iff hrun hparse (by decide) hinput fill pos⟩

/-- **A search in an empty file follows a `NULL`.** -/
theorem not_search_nonnull : ∃ st inputList, readFile [] 1 .init = some st ∧
    parse ['b'] = some (.sword, [['b']]) ∧ LinkedList.Holds inputList (numbered 0 [['b']]) ∧
    ∀ fill pos, none ∈ handlerNodes fill [] st.index inputList pos .sword ∧
      handle fill [] st.index inputList pos .sword = none := by
  obtain ⟨inputList, hinput⟩ := LinkedList.exists_holds (numbered 0 [['b']])
  refine ⟨.init, inputList, rfl, by decide, hinput, fun fill pos => ?_⟩
  obtain ⟨node, hload, -⟩ := hinput.head
  rw [handlerNodes, modeScan, handle, handleSword, hload]
  exact ⟨List.mem_cons_self, rfl⟩

end file

end SystemProgrammingLab.Pa1
