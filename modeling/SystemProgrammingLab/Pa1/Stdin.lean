import SystemProgrammingLab.Pa1.CaseBlind
import SystemProgrammingLab.Pa1.EmptyIndex
import SystemProgrammingLab.Pa1.Regexp
import SystemProgrammingLab.Pa1.Resolve

/-!
# The queries and the lines of the standard input

Each round of the main loop takes what one `read` returns for a query: all of it but its last byte, up to a
NUL (`query`). So the queries are the lines of the standard input if and only if every read returns one line
with its newline (`processes_iff`), as a terminal does and a pipe or a file need not. The loop is left in
the middle of a query that `main` cannot answer (`Answered`).

Source: `pa1/main.c`
-/

namespace SystemProgrammingLab.Pa1

open SystemProgrammingLab.Found

/-! ## Queries of a run -/

/-- The query that ends the program. -/
abbrev exitQuery : List Char := "PA1EXIT".toList

/-- With these reads of the standard input the loop handles the queries, one after the other, and then it
ends. -/
def Processes (file : List Char) (st : MainState) (inputs : List (Memory × ReadResult bufSize Char))
    (queries : List (List Char)) : Prop :=
  ∃ earlier last later, inputs = earlier ++ last :: later ∧
    earlier.map (fun input => query input.2) = queries ∧
    ∃ st' outs, exec (iterate file) st (earlier ++ [last]) = some (st', outs) ∧ st'.running = false

/-- `main` gets through the query: it is not a single double quote, the file has a line, and where two
words are searched for, the first place of `word1` is the last token of no line. -/
def Answered (file s : List Char) : Prop :=
  s ≠ ['"'] ∧ '\n' ∈ file ∧ ∀ word1 word2, parse s = some (.regexp, [word1, word2]) →
    ∀ l ∈ (splitLines '\n' file).1, ¬ LastToken word1 ((text l).map lowerChar)

section reply

variable {file s : List Char} {lines : List Line} {mode : Mode} {words : List (List Char)}
  {r : ReadResult bufSize Char}

/-- Only `PA1EXIT` ends the loop. -/
theorem mode_eq_exit_iff (h : parse s = some (mode, words)) : mode = .exit ↔ s = exitQuery := by
  by_cases hexit : s = exitQuery
  · rw [parse, if_pos hexit] at h
    cases h
    exact iff_of_true rfl hexit
  · exact iff_of_false (mode_ne_exit h hexit) hexit

/-- Only the scan for two words can be undefined. -/
theorem scanOut_eq_none_iff (hshape : Shaped mode words) (lineNum : Nat) :
    scanOut mode words s lineNum = none ↔
      ∃ word1 word2, (mode, words) = (.regexp, [word1, word2]) ∧ LastToken word1 s := by
  cases mode with
  | sword =>
      obtain ⟨word, rfl⟩ := hshape
      simp [scanOut]
  | mword =>
      show some (mwordOut words s lineNum) = none ↔ _
      simp
  | cword =>
      obtain ⟨sub, rfl⟩ := hshape
      simp [scanOut]
  | regexp =>
      obtain ⟨word1, word2, rfl⟩ := hshape
      show regexpOut word1 word2 s lineNum = none ↔ _
      rw [regexpOut_eq_none_iff]
      simp
  | exit => exact hshape.elim

/-- The lines of an index are those of the file. -/
structure IndexOf (file : List Char) (lines : List Line) : Prop where
  nonempty : lines ≠ [] ↔ '\n' ∈ file
  texts : lines.map (lineText file) = (splitLines '\n' file).1.map fun l => (text l).map lowerChar

/-- A search is answered if the index is not empty and no scan for two words gets stuck. -/
theorem answer_ne_none_iff (hindex : IndexOf file lines) (hshape : Shaped mode words) :
    answer file lines mode words ≠ none ↔
      '\n' ∈ file ∧ ∀ word1 word2, (mode, words) = (.regexp, [word1, word2]) →
        ∀ l ∈ (splitLines '\n' file).1, ¬ LastToken word1 ((text l).map lowerChar) := by
  have hlast : ∀ word1, (∀ e ∈ lines, ¬ LastToken word1 (lineText file e)) ↔
      ∀ l ∈ (splitLines '\n' file).1, ¬ LastToken word1 ((text l).map lowerChar) := by
    intro word1
    rw [← List.forall_mem_map (P := fun t => ¬ LastToken word1 t), hindex.texts, List.forall_mem_map]
  rw [answer, ne_eq, searchOut_eq_none_iff, not_or, ← hindex.nonempty]
  apply and_congr Iff.rfl
  simp only [scanOut_eq_none_iff hshape, ← hlast]
  constructor
  · intro h word1 word2 heq e he htoken
    exact h ⟨e, he, word1, word2, heq, htoken⟩
  · rintro h ⟨e, he, word1, word2, heq, htoken⟩
    exact h word1 word2 heq e he htoken

/-- The loop goes on behind a query that is answered. -/
theorem reply_iff_answered (hindex : IndexOf file lines) (hbytes : r.bytes ≠ []) :
    (∃ mode words out, reply file lines r = some (mode, words, out) ∧ mode ≠ .exit) ↔
      query r ≠ exitQuery ∧ Answered file (query r) := by
  unfold reply Answered
  rw [if_neg hbytes]
  show (∃ mode words out, (parse (query r)).bind _ = _ ∧ _) ↔ _
  rcases hparse : parse (query r) with _ | ⟨mode, words⟩
  · have hquote := parse_eq_none_iff.mp hparse
    apply iff_of_false
    · rintro ⟨mode, words, out, hreply, -⟩
      cases hreply
    · exact fun h => h.2.1 hquote
  · have hquote : query r ≠ ['"'] := by
      intro hquote
      rw [parse_eq_none_iff.mpr hquote] at hparse
      cases hparse
    have hexit := mode_eq_exit_iff hparse
    rw [Option.bind_some]
    dsimp only
    by_cases hmode : mode = .exit
    · rw [if_pos hmode]
      apply iff_of_false
      · rintro ⟨mode', words', out, hreply, hne⟩
        cases hreply
        exact hne hmode
      · exact fun h => h.1 (hexit.mp hmode)
    · rw [if_neg hmode, and_iff_right (hexit.not.mp hmode), and_iff_right hquote]
      have hanswer : (∃ mode' words' out, (answer file lines mode words).map
          (fun out => (mode, words, out)) = some (mode', words', out) ∧ mode' ≠ .exit) ↔
          answer file lines mode words ≠ none := by
        rcases answer file lines mode words with _ | out
        · simp
        · simp [hmode]
      have hshape := shaped_of_parse hparse hmode
      simp only [hanswer, answer_ne_none_iff hindex hshape, Option.some.injEq]

/-- The loop ends behind `PA1EXIT`. -/
theorem reply_iff_exit (hbytes : r.bytes ≠ []) :
    (∃ words out, reply file lines r = some (.exit, words, out)) ↔ query r = exitQuery := by
  unfold reply
  rw [if_neg hbytes]
  show (∃ words out, (parse (query r)).bind _ = _) ↔ _
  constructor
  · rintro ⟨words, out, hreply⟩
    obtain ⟨⟨mode, words'⟩, hparse, hreply⟩ := Option.bind_eq_some_iff.mp hreply
    dsimp only at hreply
    split_ifs at hreply with hmode
    · exact (mode_eq_exit_iff hparse).mp hmode
    · obtain ⟨out', -, hpair⟩ := Option.map_eq_some_iff.mp hreply
      cases hpair
      exact absurd rfl hmode
  · intro hquery
    have hparse : parse (query r) = some (.exit, []) := by rw [parse, if_pos hquery]
    exact ⟨[], [], by rw [hparse]; rfl⟩

end reply

/-! ## The rounds of the loop -/

section run

variable {file : List Char} {lines : List Line} {st : MainState}
  {inputs earlier : List (Memory × ReadResult bufSize Char)} {last : Memory × ReadResult bufSize Char}

/-- Behind it nothing is read. -/
theorem exec_of_not_running {file : List Char} {st : MainState} (h : st.running = false)
    (input : Memory × ReadResult bufSize Char) : iterate file st input = none := by
  rw [iterate, if_neg (by simp [h])]

/-- The loop ends behind its last read if that is the first that is answered with its end. -/
theorem exec_iff (hrunning : st.running = true) (hindex : Loaded file lines st.indexList)
    (hinput : ∃ ws, st.inputList.Holds ws) :
    (∃ st' outs, exec (iterate file) st (earlier ++ [last]) = some (st', outs) ∧
        st'.running = false) ↔
      (∀ input ∈ earlier, ∃ mode words out,
        reply file lines input.2 = some (mode, words, out) ∧ mode ≠ .exit) ∧
      ∃ words out, reply file lines last.2 = some (.exit, words, out) := by
  induction earlier generalizing st with
  | nil =>
      obtain ⟨ws, hws⟩ := hinput
      have hround := iterate_eq st hrunning hindex hws last.1 last.2
      rcases hreply : reply file lines last.2 with _ | ⟨mode, words, out⟩
      · rw [hreply] at hround
        simp [exec, hround]
      · rw [hreply] at hround
        obtain ⟨st', hround, -, -, hstop⟩ := hround
        simp [exec, hround, hstop]
  | cons input earlier ih =>
      obtain ⟨ws, hws⟩ := hinput
      have hround := iterate_eq st hrunning hindex hws input.1 input.2
      rw [List.forall_mem_cons, List.cons_append, exec]
      rcases hreply : reply file lines input.2 with _ | ⟨mode, words, out⟩
      · rw [hreply] at hround
        simp [hround]
      · rw [hreply] at hround
        obtain ⟨st', hround, hsame, hwords, hstop⟩ := hround
        by_cases hexit : mode = .exit
        · -- behind the end there is no further round
          have hnone : exec (iterate file) st' (earlier ++ [last]) = none := by
            rw [decide_eq_false (not_not.mpr hexit)] at hstop
            rcases earlier with _ | ⟨next, earlier⟩ <;>
              simp [exec, exec_of_not_running hstop]
          simp [hround, hnone, hexit]
        · rw [decide_eq_true hexit] at hstop
          have hrest := ih hstop (hsame ▸ hindex) ⟨_, hwords⟩
          have hfirst : ∃ mode' words' out', some (mode, words, out) = some (mode', words', out') ∧
              mode' ≠ .exit := ⟨mode, words, out, rfl, hexit⟩
          rw [and_iff_right hfirst, ← hrest, hround]
          rcases hrun : exec (iterate file) st' (earlier ++ [last]) with _ | ⟨st₂, outs⟩ <;>
            simp [hrun]

/-- The index that `main` starts with. -/
theorem load_indexOf {fuel : Nat} (hload : load file fuel = some st) :
    ∃ lines, Loaded file lines st.indexList ∧ IndexOf file lines := by
  obtain ⟨loaded, hrun, rfl⟩ := Option.map_eq_some_iff.mp hload
  obtain ⟨ls, hlined, hrest⟩ := readFile_lines (lined_init file) (.inl rfl) hrun
  obtain ⟨es, hholds, hes⟩ := exists_lines_iff hrun
  obtain rfl := hholds.unique hlined.index
  refine ⟨_, ⟨hholds, loaded.offset, hlined.contiguous, hlined.offset_le⟩, hes, ?_⟩
  have hsplit : splitLines '\n' file = (ls, file.drop loaded.offset) := by
    conv_lhs => rw [hlined.bytes]
    exact splitLines_eq hlined.line hrest
  have hbytes : (entries 0 0 ls).map (fun e => (file.drop e.offset).take e.size) =
      ls.map (· ++ ['\n']) := map_entries hlined.bytes
  have hchomp : ∀ l : List Char, chomp (l ++ ['\n']) = l := by
    intro l
    rw [chomp, List.getLast?_concat, if_pos rfl, List.dropLast_concat]
  have hmap := congrArg (List.map fun bytes => (text (chomp bytes)).map lowerChar) hbytes
  rw [List.map_map, List.map_map] at hmap
  rw [hsplit]
  refine hmap.trans (List.map_congr_left fun l _ => ?_)
  show (text (chomp (l ++ ['\n']))).map lowerChar = _
  rw [hchomp]

section stream

variable {before after : List (List Char)} (hbefore : exitQuery ∉ before)
  (hreads : ∀ input ∈ inputs, input.2.bytes ≠ [])
  (hrunning : st.running = true) (hindex : Loaded file lines st.indexList)
  (hinput : ∃ ws, st.inputList.Holds ws) (hlines : IndexOf file lines)

include hreads hrunning hindex hinput hlines

/-- Where the queries are the lines, the reads are the lines with their newlines, and all of them are
answered. -/
theorem Processes.reads (hrun : Processes file st inputs before)
    (hstdin : (inputs.map fun input => input.2.bytes).flatten =
      joinLines '\n' (before ++ exitQuery :: after)) :
    (∀ l ∈ before, nul ∉ l ∧ Answered file l) ∧
      (before ++ [exitQuery]).map (· ++ ['\n']) <+: inputs.map fun input => input.2.bytes := by
  obtain ⟨earlier, last, later, rfl, rfl, hrun⟩ := hrun
  obtain ⟨hearlier, hlast⟩ := (exec_iff hrunning hindex hinput).mp hrun
  rw [List.forall_mem_append, List.forall_mem_cons] at hreads
  constructor
  · intro l hl
    obtain ⟨input, hinput, rfl⟩ := List.mem_map.mp hl
    exact ⟨nul_notMem_text _,
      ((reply_iff_answered hlines (hreads.1 input hinput)).mp (hearlier input hinput)).2⟩
  · have hwindows : ∀ c ∈ (earlier ++ [last]).map (fun input => input.2.bytes), c ≠ [] := by
      rw [List.forall_mem_map, List.forall_mem_append, List.forall_mem_singleton]
      exact ⟨hreads.1, hreads.2.1⟩
    have hshown : ((earlier ++ [last]).map fun input => input.2.bytes).map
        (fun c => c.dropLast.takeWhile (· ≠ nul)) =
        earlier.map (fun input => query input.2) ++ [exitQuery] := by
      rw [List.map_map, List.map_append, List.map_singleton, ← (reply_iff_exit hreads.2.1).mp hlast]
      rfl
    have hcut : ((earlier ++ [last]).map fun input => input.2.bytes).flatten ++
        (later.map fun input => input.2.bytes).flatten =
        joinLines '\n' (earlier.map (fun input => query input.2) ++ [exitQuery]) ++
          joinLines '\n' after := by
      rw [← List.flatten_append, ← List.map_append, ← joinLines_append, List.append_assoc,
        List.append_assoc]
      exact hstdin
    obtain ⟨hcs, -⟩ := eq_lines_of_takeWhile (by decide) hwindows hshown hcut
    rw [← hcs, List.append_cons earlier last later]
    exact (List.prefix_append (earlier ++ [last]) later).map _

include hbefore in
/-- Reads that are the lines make them the queries. -/
theorem processes_of_reads (hanswered : ∀ l ∈ before, nul ∉ l ∧ Answered file l)
    (hlines' : (before ++ [exitQuery]).map (· ++ ['\n']) <+: inputs.map fun input => input.2.bytes) :
    Processes file st inputs before := by
  obtain ⟨more, hmore⟩ := hlines'
  rw [List.map_append, List.map_singleton, List.append_assoc, List.singleton_append] at hmore
  obtain ⟨earlier, rest, rfl, hearlier, hrest⟩ := List.map_eq_append_iff.mp hmore.symm
  obtain ⟨last, later, rfl, hlast, -⟩ := List.map_eq_cons_iff.mp hrest
  rw [List.forall_mem_append, List.forall_mem_cons] at hreads
  have hqueries : earlier.map (fun input => query input.2) = before := by
    have hmap := congrArg (List.map fun c => text c.dropLast) hearlier
    rw [List.map_map, List.map_map] at hmap
    refine hmap.trans ((List.map_congr_left fun l hl => ?_).trans (List.map_id before))
    show text (l ++ ['\n']).dropLast = l
    rw [List.dropLast_concat, text_of_notMem (hanswered l hl).1]
  refine ⟨earlier, last, later, rfl, hqueries, (exec_iff hrunning hindex hinput).mpr ⟨?_, ?_⟩⟩
  · intro input hinput
    have hmem : query input.2 ∈ before := hqueries ▸ List.mem_map_of_mem hinput
    refine (reply_iff_answered hlines (hreads.1 input hinput)).mpr ⟨?_, (hanswered _ hmem).2⟩
    rintro heq
    exact hbefore (heq ▸ hmem)
  · apply (reply_iff_exit hreads.2.1).mpr
    rw [query, hlast]
    decide

end stream

/-- **The queries are the lines of the standard input if and only if every read returns one of them**, up to
the first `PA1EXIT`, and `main` gets through each of them. -/
theorem processes_iff {fuel : Nat} (hload : load file fuel = some st) {ls : List (List Char)}
    (hexit : exitQuery ∈ ls) (hreads : ∀ input ∈ inputs, input.2.bytes ≠ [])
    (hstdin : (inputs.map fun input => input.2.bytes).flatten = joinLines '\n' ls) :
    Processes file st inputs (ls.takeWhile (· ≠ exitQuery)) ↔
      (∀ l ∈ ls.takeWhile (· ≠ exitQuery), nul ∉ l ∧ Answered file l) ∧
        (ls.takeWhile (· ≠ exitQuery) ++ [exitQuery]).map (· ++ ['\n']) <+:
          inputs.map fun input => input.2.bytes := by
  obtain ⟨lines, hindex, hlines⟩ := load_indexOf hload
  obtain ⟨-, hempty, hrunning⟩ := load_loaded hload
  obtain ⟨before, after, rfl, hbefore⟩ := List.eq_append_cons_of_mem hexit
  rw [takeWhile_ne_append hbefore after]
  constructor
  · exact fun hrun => hrun.reads hreads hrunning hindex ⟨_, hempty⟩ hlines hstdin
  · rintro ⟨hanswered, hwhole⟩
    exact processes_of_reads hbefore hreads hrunning hindex ⟨_, hempty⟩ hlines hanswered hwhole

end run

/-- The line that ends the program, and one read that returns it behind the line `b`. -/
def exitLine : ReadResult bufSize Char := .data "PA1EXIT\n".toList (by decide)

/-- Two lines in one read. -/
def bothLines : ReadResult bufSize Char := .data "b\nPA1EXIT\n".toList (by decide)

/-- The same two lines, each in a read of its own. -/
theorem processes_iff_twoLines : ∃ st, load twoLines 2 = some st ∧
    (Processes twoLines st [(someMemory, oneWord), (someMemory, exitLine)]
        ([['b'], exitQuery].takeWhile (· ≠ exitQuery)) ↔
      (∀ l ∈ [['b'], exitQuery].takeWhile (· ≠ exitQuery), nul ∉ l ∧ Answered twoLines l) ∧
        ([['b'], exitQuery].takeWhile (· ≠ exitQuery) ++ [exitQuery]).map (· ++ ['\n']) <+:
          [(someMemory, oneWord), (someMemory, exitLine)].map fun input => input.2.bytes) := by
  have hload : (load twoLines 2).isSome = true := by decide +kernel
  obtain ⟨st, hload⟩ := Option.isSome_iff_exists.mp hload
  refine ⟨st, hload, processes_iff hload (by decide) ?_ (by decide)⟩
  simp [oneWord, exitLine, ReadResult.bytes]

/-- **Two lines that one read returns are one query**, and the program does not end behind it. -/
theorem not_processes : ∃ st st' outs, load twoLines 2 = some st ∧
    bothLines.bytes = joinLines '\n' [['b'], exitQuery] ∧
    query bothLines = ['b'] ++ '\n' :: exitQuery ∧
    exec (iterate twoLines) st [(someMemory, bothLines)] = some (st', outs) ∧
    st'.running = true ∧
    ¬ Processes twoLines st [(someMemory, bothLines)] [['b']] := by
  have hrun : ((load twoLines 2).bind fun st => exec (iterate twoLines) st
      [(someMemory, bothLines)]).map (fun out => out.1.running) = some true := by
    decide +kernel
  obtain ⟨⟨st', outs⟩, hrun, hrunning⟩ := Option.map_eq_some_iff.mp hrun
  obtain ⟨st, hload, hrun⟩ := Option.bind_eq_some_iff.mp hrun
  refine ⟨st, st', outs, hload, by decide, by decide, hrun, hrunning, ?_⟩
  rintro ⟨earlier, last, later, hinputs, hqueries, -⟩
  obtain ⟨rfl, -⟩ := List.append_eq_singleton_iff.mp hinputs.symm |>.resolve_right (by simp)
  cases hqueries

end SystemProgrammingLab.Pa1
