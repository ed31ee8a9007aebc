import Mathlib.Data.List.Sort
import SystemProgrammingLab.Pa1.Phrase
import SystemProgrammingLab.Pa1.Stdin

/-!
# The program is a search engine

A document is a list of lines, and what a query is answered can be said of them alone (`engine`): the
places of a word or of a phrase, or the numbers of the lines that have all words, or the two words apart.
There is no index, no offset and no buffer in it.

Over a file without NUL, from the first query to `PA1EXIT`, the program writes exactly these answers, one
behind the other, and then its loop ends (`session`): the searches are exact, the queries are split as they
should be, and one does not change what the next one is answered.

Source: `pa1/main.c`
-/

namespace SystemProgrammingLab.Pa1

open SystemProgrammingLab.Found

/-! ## The answers -/

open Classical in
/-- The places that have the property, line by line: the number of the line, from 1 on, and the column. -/
noncomputable def places (P : List Char → Nat → Prop) (doc : List (List Char)) : List (Nat × Nat) :=
  (doc.zipIdx 1).flatMap fun (s, n) => ((List.range s.length).filter fun i => P s i).map (n, ·)

open Classical in
/-- The numbers of the lines that have the property. -/
noncomputable def matching (P : List Char → Prop) (doc : List (List Char)) : List Nat :=
  ((doc.zipIdx 1).filter fun (s, _) => P s).map Prod.snd

/-- The answer to the words of a query. -/
noncomputable def engine (doc : List (List Char)) : Mode → List (List Char) → List Out
  | .sword, [w] => report ((places (fun s i => Token s i w) doc).flatMap fun (n, i) => placeOut n i)
  | .mword, ws => report ((matching (fun s => ∀ w ∈ ws, ∃ i, Token s i w) doc).flatMap lineOut)
  | .cword, [sub] => report ((places (PhraseAt sub) doc).flatMap fun (n, i) => placeOut n i)
  | .regexp, [word1, word2] =>
      report ((matching (fun s => Apart word1 word2 (tokens s)) doc).flatMap lineOut)
  | _, _ => []

/-- The lines of the file that a newline ends, in small letters. -/
def document (file : List Char) : List (List Char) := (splitLines '\n' file).1.map (List.map lowerChar)

/-- The answer to a query. -/
noncomputable def engineReply (doc : List (List Char)) (s : List Char) : List Out :=
  ((parse s).map fun (mode, words) => engine doc mode words).getD []

/-- A query whose words are not empty, and whose phrase starts with no blank. -/
def Worded (s : List Char) : Prop :=
  ∀ mode words, parse s = some (mode, words) → (∀ w ∈ words, w ≠ []) ∧
    (mode = .cword → ∀ w ∈ words, ∀ c ∈ w.head?, isBlank c = false)

/-! ## The lines -/

section lines

variable {doc : List (List Char)} {s : List Char} {n : Nat}

/-- Places in the order of the line are those that a filter leaves. -/
theorem eq_filter_range {l : List Nat} {P : Nat → Prop} [DecidablePred P] {m : Nat}
    (hl : l.Pairwise (· < ·)) (hmem : ∀ i, i ∈ l ↔ P i) (hlt : ∀ i, P i → i < m) :
    l = (List.range m).filter fun i => P i := by
  refine hl.eq_of_mem_iff (List.pairwise_lt_range.filter _) fun i => ?_
  rw [hmem, List.mem_filter, List.mem_range, decide_eq_true_iff]
  exact ⟨fun h => ⟨hlt i h, h⟩, And.right⟩

/-- A token is inside of the line. -/
theorem Token.lt_length {i : Nat} {w : List Char} (h : Token s i w) : i < s.length := by
  obtain ⟨pre, post, rfl, rfl, hw, -⟩ := h
  have hpos := List.length_pos_iff.mpr hw
  rw [List.length_append, List.length_append]
  omega

/-- What is written for the places, line by line. -/
theorem flatMap_places (P : List Char → Nat → Prop) [∀ s, DecidablePred (P s)]
    (doc : List (List Char)) :
    (places P doc).flatMap (fun (n, i) => placeOut n i) = (doc.zipIdx 1).flatMap fun (s, n) =>
      ((List.range s.length).filter fun i => P s i).flatMap (placeOut n) := by
  unfold places
  rw [List.flatMap_assoc]
  refine List.flatMap_congr fun p _ => ?_
  rw [List.flatMap_map]
  congr!

/-- What is written for the lines, line by line. -/
theorem flatMap_matching (P : List Char → Prop) [DecidablePred P] (doc : List (List Char)) :
    (matching P doc).flatMap lineOut = (doc.zipIdx 1).flatMap fun (s, n) =>
      if P s then lineOut n else [] := by
  unfold matching
  rw [List.flatMap_map]
  induction doc.zipIdx 1 with
  | nil => rfl
  | cons p ps ih =>
      rw [List.filter_cons, List.flatMap_cons, ← ih]
      by_cases hp : P p.1 <;> simp [hp]

/-- The scan of a line writes what the engine says of it. -/
theorem scanOut_engine {mode : Mode} {words : List (List Char)} (hshape : Shaped mode words)
    (hwords : ∀ w ∈ words, w ≠ [])
    (hfirst : mode = .cword → ∀ w ∈ words, ∀ c ∈ w.head?, isBlank c = false)
    (hlast : ∀ word1 word2, (mode, words) = (.regexp, [word1, word2]) → ∀ s ∈ doc, ¬ LastToken word1 s) :
    ∃ f : List Char → Nat → List Out, (∀ s ∈ doc, ∀ n, scanOut mode words s n = some (f s n)) ∧
      engine doc mode words = report ((doc.zipIdx 1).flatMap fun (s, n) => f s n) := by
  classical
  cases mode with
  | sword =>
      obtain ⟨w, rfl⟩ := hshape
      have hw : w ≠ [] := hwords w (List.mem_singleton_self w)
      refine ⟨fun s n => ((List.range s.length).filter fun i => Token s i w).flatMap (placeOut n), ?_, ?_⟩
      · intro s _ n
        show some (swordOut w s n s) = _
        rw [swordOut_eq hw n s (Nat.le_refl _), Nat.sub_self,
          eq_filter_range columns_pairwise (fun i => mem_columns_line hw) fun i hi => hi.lt_length]
      · show report _ = _
        rw [flatMap_places]
  | mword =>
      refine ⟨fun s n => if ∀ w ∈ words, ∃ i, Token s i w then lineOut n else [], ?_, ?_⟩
      · intro s _ n
        show some (mwordOut words s n) = _
        have hall : (words.all fun w => (findWord w s).isSome) = true ↔ ∀ w ∈ words, ∃ i, Token s i w := by
          rw [List.all_eq_true]
          refine forall₂_congr fun w hw => ?_
          rw [Option.isSome_iff_ne_none, findWord_ne_none_iff (hwords w hw)]
        unfold mwordOut
        simp only [hall]
      · show report _ = _
        rw [flatMap_matching]
  | cword =>
      obtain ⟨sub, rfl⟩ := hshape
      have hsub : sub ≠ [] := hwords sub (List.mem_singleton_self sub)
      have hblank := hfirst rfl sub (List.mem_singleton_self sub)
      refine ⟨fun s n => ((List.range s.length).filter fun i => PhraseAt sub s i).flatMap (placeOut n),
        ?_, ?_⟩
      · intro s _ n
        show some (cwordOut sub s n s) = _
        rw [cwordOut_eq n hsub]
        have hplaces : ((wordStarts s).filter (phraseStarts sub)).map (fun t => s.length - t.length) =
            (List.range s.length).filter fun i => PhraseAt sub s i := by
          refine eq_filter_range (List.pairwise_map.mpr ?_) (fun i => ?_) fun i hi => ?_
          · apply (wordStarts_pairwise.filter _).imp_of_mem
            intro t t' ht ht' hlt
            have hle := (wordStarts_suffix (List.mem_filter.mp ht).1).length_le
            omega
          · rw [← exists_wordStart_iff hsub hblank]
            simp [and_assoc]
          · obtain ⟨⟨w, hw⟩, -⟩ := hi
            exact hw.lt_length
        show _ = some (((List.range s.length).filter fun i => PhraseAt sub s i).flatMap (placeOut n))
        rw [← hplaces, List.flatMap_map]
      · show report _ = _
        rw [flatMap_places]
  | regexp =>
      obtain ⟨word1, word2, rfl⟩ := hshape
      refine ⟨fun s n => if Apart word1 word2 (tokens s) then lineOut n else [], ?_, ?_⟩
      · intro s hs n
        show regexpOut word1 word2 s n = _
        rcases hout : regexpOut word1 word2 s n with _ | out
        · exact absurd (regexpOut_eq_none_iff.mp hout) (hlast word1 word2 rfl s hs)
        · have hword1 : word1 ≠ [] := hwords word1 (by simp)
          have hword2 : word2 ≠ [] := hwords word2 (by simp)
          show some out = some (if Apart word1 word2 (tokens s) then lineOut n else [])
          rcases regexpOut_eq_some hword1 hword2 hout with ⟨hapart, rfl⟩ | ⟨hapart, rfl⟩
          · rw [if_pos hapart]
          · rw [if_neg hapart]
      · show report _ = _
        rw [flatMap_matching]
  | exit => exact hshape.elim

/-- The lines of the index with their numbers are those of the document. -/
theorem numbered_lines {file : List Char} {lines : List Line} (hfile : nul ∉ file)
    (hindex : IndexOf file lines) (hlines : LineIndex file lines) :
    lines.map (fun e => (lineText file e, e.lineNum)) = (document file).zipIdx 1 := by
  have htexts : lines.map (lineText file) = document file := by
    rw [hindex.texts]
    refine List.map_congr_left fun l hl => ?_
    have hnul : nul ∉ l := by
      intro hmem
      refine hfile ?_
      rw [← joinLines_splitLines (d := '\n') file]
      exact List.mem_append_left _ (List.mem_flatMap.mpr ⟨l, hl, List.mem_append_left _ hmem⟩)
    rw [text_of_notMem hnul]
  rw [← htexts]
  refine List.ext_getElem? fun k => ?_
  rw [List.getElem?_map, List.getElem?_zipIdx, List.getElem?_map]
  rcases hk : lines[k]? with _ | e
  · rfl
  · have hnum := hlines.lineNum k e hk
    simp [hnum, Nat.add_comm]

end lines

/-! ## The session -/

section session

variable {file : List Char} {lines : List Line} {fuel : Nat} {st : MainState}

/-- The index that `main` starts with, line by line. -/
theorem exists_engineIndex (hload : load file fuel = some st) :
    ∃ lines, Loaded file lines st.indexList ∧ IndexOf file lines ∧ LineIndex file lines := by
  obtain ⟨lines, hloaded, hindex⟩ := load_indexOf hload
  obtain ⟨loaded, hrun, rfl⟩ := Option.map_eq_some_iff.mp hload
  obtain ⟨ls, hlined, hrest⟩ := readFile_lines (lined_init file) (.inl rfl) hrun
  obtain rfl := hloaded.1.unique hlined.index
  exact ⟨_, hloaded, hindex, hlined.lineIndex hrest⟩

/-- A search over the index writes the answer of the engine. -/
theorem answer_engine (hfile : nul ∉ file) (hindex : IndexOf file lines) (hlines : LineIndex file lines)
    {s : List Char} (hanswered : Answered file s) (hworded : Worded s) {mode : Mode}
    {words : List (List Char)} (hparse : parse s = some (mode, words)) (hexit : mode ≠ .exit) :
    answer file lines mode words = some (engine (document file) mode words) := by
  obtain ⟨-, hnewline, hregexp⟩ := hanswered
  obtain ⟨hwords, hfirst⟩ := hworded mode words hparse
  have hnumbered := numbered_lines hfile hindex hlines
  have hlast : ∀ word1 word2, (mode, words) = (.regexp, [word1, word2]) →
      ∀ t ∈ document file, ¬ LastToken word1 t := by
    intro word1 word2 heq t ht
    have htexts := congrArg (List.map Prod.fst) hnumbered
    rw [List.map_map, List.zipIdx_map_fst] at htexts
    rw [← htexts] at ht
    have hmem : t ∈ lines.map (lineText file) := ht
    rw [hindex.texts] at hmem
    obtain ⟨l, hl, rfl⟩ := List.mem_map.mp hmem
    rw [heq] at hparse
    exact hregexp word1 word2 hparse l hl
  obtain ⟨f, hscan, hengine⟩ := scanOut_engine (shaped_of_parse hparse hexit) hwords hfirst hlast
  rw [answer, searchOut_eq (hindex.nonempty.mpr hnewline) fun e => f (lineText file e) e.lineNum, hengine,
    ← hnumbered, List.flatMap_map]
  intro e he
  refine hscan _ ?_ _
  have hmem : (lineText file e, e.lineNum) ∈ (document file).zipIdx 1 :=
    hnumbered ▸ List.mem_map_of_mem (f := fun e => (lineText file e, e.lineNum)) he
  exact List.fst_mem_of_mem_zipIdx hmem

/-- The reply to a read that returns one line. -/
theorem reply_line {s : List Char} (hnul : nul ∉ s) {r : ReadResult bufSize Char}
    (hbytes : r.bytes = s ++ ['\n']) {mode : Mode} {words : List (List Char)}
    (hparse : parse s = some (mode, words)) : reply file lines r =
      if mode = .exit then some (mode, words, [])
      else (answer file lines mode words).map fun out => (mode, words, out) := by
  rw [reply, hbytes, if_neg (List.concat_ne_nil _ _), List.dropLast_concat, text_of_notMem hnul, hparse]
  rfl

/-- **The program is a search engine.** When every read returns a whole line of the queries, and each query
is one that `main` gets through, the program writes the answer of the engine to each of them, one behind
the other, and its loop ends at `PA1EXIT`, with the index as it was. -/
theorem session (hfile : nul ∉ file) (hload : load file fuel = some st) {queries : List (List Char)}
    (hqueries : ∀ s ∈ queries, s ≠ exitQuery ∧ nul ∉ s ∧ Answered file s ∧ Worded s)
    {inputs : List (Memory × ReadResult bufSize Char)}
    (hinputs : inputs.map (fun input => input.2.bytes) = (queries ++ [exitQuery]).map (· ++ ['\n'])) :
    ∃ st', exec (iterate file) st inputs =
        some (st', queries.map (engineReply (document file)) ++ [[]]) ∧
      st'.running = false ∧ st'.indexList = st.indexList := by
  obtain ⟨lines, hloaded, hindex, hlines⟩ := exists_engineIndex hload
  obtain ⟨-, hempty, hrunning⟩ := load_loaded hload
  clear hload
  replace hempty : ∃ ws, st.inputList.Holds ws := ⟨_, hempty⟩
  induction queries generalizing st inputs with
  | nil =>
      obtain ⟨input, inputs, rfl, hbytes, hrest⟩ := List.map_eq_cons_iff.mp hinputs
      obtain rfl := List.map_eq_nil_iff.mp hrest
      obtain ⟨ws, hws⟩ := hempty
      have hround := iterate_eq st hrunning hloaded hws input.1 input.2
      have hparse : parse exitQuery = some (.exit, []) := by rw [parse, if_pos rfl]
      have hreply : reply file lines input.2 = some (.exit, [], []) :=
        reply_line (by decide) hbytes hparse
      rw [hreply] at hround
      obtain ⟨st', hiterate, hsame, -, hstop⟩ := hround
      exact ⟨st', by rw [exec, hiterate]; rfl, hstop, hsame⟩
  | cons s queries ih =>
      rw [List.forall_mem_cons] at hqueries
      obtain ⟨⟨hexit, hnul, hanswered, hworded⟩, hqueries⟩ := hqueries
      obtain ⟨input, inputs, rfl, hbytes, hrest⟩ := List.map_eq_cons_iff.mp hinputs
      obtain ⟨ws, hws⟩ := hempty
      have hround := iterate_eq st hrunning hloaded hws input.1 input.2
      obtain ⟨⟨mode, words⟩, hparse⟩ := Option.ne_none_iff_exists'.mp
        (parse_eq_none_iff.not.mpr hanswered.1)
      have hmode : mode ≠ .exit := mode_ne_exit hparse hexit
      have hreply : reply file lines input.2 =
          some (mode, words, engine (document file) mode words) := by
        rw [reply_line hnul hbytes hparse, if_neg hmode,
          answer_engine hfile hindex hlines hanswered hworded hparse hmode]
        rfl
      rw [hreply] at hround
      obtain ⟨st', hiterate, hsame, hwords, hgoes⟩ := hround
      rw [decide_eq_true hmode] at hgoes
      obtain ⟨st'', hrun, hstop, hsame'⟩ :=
        ih hqueries hrest (show Loaded file lines st'.indexList from hsame ▸ hloaded) hgoes ⟨_, hwords⟩
      refine ⟨st'', ?_, hstop, hsame'.trans hsame⟩
      have hengine : engineReply (document file) s = engine (document file) mode words := by
        rw [engineReply, hparse]
        rfl
      rw [exec, hiterate, List.map_cons, hengine]
      simp [hrun]

/-- The queries `a b` and `b` over the file of two lines. -/
theorem session_twoLines : ∃ st st', load twoLines 2 = some st ∧
    exec (iterate twoLines) st [(someMemory, bothWords), (someMemory, oneWord), (someMemory, exitLine)] =
        some (st', ["a b".toList, "b".toList].map (engineReply (document twoLines)) ++ [[]]) ∧
      st'.running = false ∧ st'.indexList = st.indexList := by
  have hload : (load twoLines 2).isSome = true := by decide +kernel
  obtain ⟨st, hload⟩ := Option.isSome_iff_exists.mp hload
  have hanswered : ∀ s ∈ ["a b".toList, "b".toList], parse s ≠ none ∧ ∀ mode words,
      parse s = some (mode, words) → mode ≠ .regexp ∧ mode ≠ .cword ∧ ∀ w ∈ words, w ≠ [] := by
    intro s hs
    rcases List.mem_pair.mp hs with rfl | rfl <;>
      refine ⟨by decide +kernel, ?_⟩ <;> rintro mode words hparse <;> cases hparse <;> decide +kernel
  have hqueries : ∀ s ∈ ["a b".toList, "b".toList], s ≠ exitQuery ∧ nul ∉ s ∧ Answered twoLines s ∧
      Worded s := by
    intro s hs
    obtain ⟨hsome, hwords⟩ := hanswered s hs
    have hplain : ∀ s ∈ ["a b".toList, "b".toList], s ≠ exitQuery ∧ nul ∉ s := by decide
    refine ⟨(hplain s hs).1, (hplain s hs).2, ⟨parse_eq_none_iff.not.mp hsome, by decide, ?_⟩, ?_⟩
    · intro word1 word2 hparse
      exact absurd rfl (hwords _ _ hparse).1
    · intro mode words hparse
      obtain ⟨-, hcword, hne⟩ := hwords mode words hparse
      exact ⟨hne, fun h => absurd h hcword⟩
  have hinputs : [(someMemory, bothWords), (someMemory, oneWord), (someMemory, exitLine)].map
      (fun input => input.2.bytes) =
        (["a b".toList, "b".toList] ++ [exitQuery]).map (· ++ ['\n']) := by
    decide
  obtain ⟨st', hrun⟩ := session (by decide) hload hqueries hinputs
  exact ⟨st, st', hload, hrun⟩

end session

end SystemProgrammingLab.Pa1
