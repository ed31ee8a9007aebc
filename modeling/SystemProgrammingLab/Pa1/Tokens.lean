import SystemProgrammingLab.Pa1.Lines

/-!
# Searches for words are exact

A token of a line is a longest run of characters without blanks (`Token`). `isincluded` takes the place
where it starts for the start of a token, and after a hit `handle_sword` starts it in the middle of the
word that was found. What is left of that word is shorter than the word, so it is no hit, and the next
place that is looked at is a token again: the scan finds every token that equals the word, and nothing
else (`swordOut_eq`). With the lines of the index this makes `handle_sword` and `handle_mword` exact
(`handleSword_exact`, `handleMword_exact`).

Source: `pa1/main.c`, `pa1/mystring.c`
-/

namespace SystemProgrammingLab.Pa1

open SystemProgrammingLab.Found

/-! ## Tokens -/

/-- The word `w` is a token of the line `s`, at the column `i`. -/
def Token (s : List Char) (i : Nat) (w : List Char) : Prop :=
  ∃ pre post, s = pre ++ (w ++ post) ∧ pre.length = i ∧ w ≠ [] ∧ (∀ c ∈ w, isBlank c = false) ∧
    (∀ c ∈ pre.getLast?, isBlank c = true) ∧ ∀ c ∈ post.head?, isBlank c = true

/-- The columns of the tokens that equal `w`, in a part of a line from column `i` on; `start` says that
a token can start there. -/
def columns (w : List Char) : Bool → Nat → List Char → List Nat
  | _, _, [] => []
  | start, i, c :: cs =>
      (if start ∧ (c :: cs).takeWhile (fun c => !isBlank c) = w then [i] else []) ++
        columns w (isBlank c) (i + 1) cs

section tokens

variable {w s t pre : List Char} {start : Bool} {i j : Nat}

/-- The characters up to the next blank are a token if nothing but a blank is in front of them. -/
theorem token_append (hw : w ≠ []) : Token (pre ++ t) pre.length w ↔
    (∀ c ∈ pre.getLast?, isBlank c = true) ∧ t.takeWhile (fun c => !isBlank c) = w := by
  constructor
  · rintro ⟨pre', post, heq, hlen, -, hword, hpre, hpost⟩
    obtain ⟨rfl, rfl⟩ := List.append_inj heq hlen.symm
    refine ⟨hpre, ?_⟩
    rw [List.takeWhile_append_of_pos fun c hc => by simp [hword c hc]]
    rcases post with _ | ⟨c, cs⟩
    · simp
    · simp [hpost c rfl]
  · rintro ⟨hpre, rfl⟩
    refine ⟨pre, t.dropWhile (fun c => !isBlank c), ?_, rfl, hw, ?_, hpre, ?_⟩
    · rw [List.takeWhile_append_dropWhile]
    · intro c hc
      simpa using List.mem_takeWhile_imp hc
    · intro c hc
      have hnot := List.head?_dropWhile_not (fun c => !isBlank c) t
      rw [Option.mem_def.mp hc] at hnot
      simpa using hnot

/-- A column is not in front of the place where the scan begins. -/
theorem le_of_mem_columns (h : j ∈ columns w start i t) : i ≤ j := by
  induction t generalizing start i with
  | nil => cases h
  | cons c cs ih =>
      rw [columns, List.mem_append] at h
      rcases h with h | h
      · split_ifs at h with hhit
        · exact Nat.le_of_eq (List.mem_singleton.mp h).symm
        · cases h
      · exact Nat.le_of_succ_le (ih h)

/-- The columns are in order. -/
theorem columns_pairwise : (columns w start i t).Pairwise (· < ·) := by
  induction t generalizing start i with
  | nil => exact .nil
  | cons c cs ih =>
      rw [columns, List.pairwise_append]
      refine ⟨by split_ifs <;> simp, ih, ?_⟩
      intro j hj k hk
      split_ifs at hj with hhit
      · rw [List.mem_singleton.mp hj]
        exact le_of_mem_columns hk
      · cases hj

/-- The columns are those of the tokens behind `pre`. -/
theorem mem_columns (hw : w ≠ []) (hstart : start = true ↔ ∀ c ∈ pre.getLast?, isBlank c = true) :
    j ∈ columns w start pre.length t ↔ pre.length ≤ j ∧ Token (pre ++ t) j w := by
  induction t generalizing start pre with
  | nil =>
      apply iff_of_false List.not_mem_nil
      rintro ⟨hle, pre', post, heq, rfl, -⟩
      have hlen := congrArg List.length heq
      simp only [List.append_nil, List.length_append] at hlen
      have hpos := List.length_pos_iff.mpr hw
      omega
  | cons c cs ih =>
      have hlen : pre.length + 1 = (pre ++ [c]).length := by simp
      have hrest : j ∈ columns w (isBlank c) (pre.length + 1) cs ↔
          pre.length + 1 ≤ j ∧ Token (pre ++ c :: cs) j w := by
        rw [List.append_cons, hlen]
        exact ih (by simp)
      rw [columns, List.mem_append, hrest]
      have hhit : (start = true ∧ (c :: cs).takeWhile (fun c => !isBlank c) = w) ↔
          Token (pre ++ c :: cs) pre.length w := by
        rw [token_append hw, hstart]
      constructor
      · rintro (h | ⟨hle, htoken⟩)
        · split_ifs at h with hfound
          · rw [List.mem_singleton.mp h]
            exact ⟨Nat.le_refl _, hhit.mp hfound⟩
          · cases h
        · exact ⟨Nat.le_of_succ_le hle, htoken⟩
      · rintro ⟨hle, htoken⟩
        rcases Nat.eq_or_lt_of_le hle with rfl | hlt
        · rw [if_pos (hhit.mpr htoken)]
          exact .inl (List.mem_singleton_self _)
        · exact .inr ⟨hlt, htoken⟩

/-- The columns of a word are the places of its tokens. -/
theorem mem_columns_line (hw : w ≠ []) : j ∈ columns w true 0 t ↔ Token t j w := by
  have h : j ∈ columns w true ([] : List Char).length t ↔
      ([] : List Char).length ≤ j ∧ Token ([] ++ t) j w := mem_columns hw (by simp)
  simpa using h

/-! ## The scan of a line -/

/-- A place that is no hit is passed over. -/
theorem columns_of_not_hit {c : Char} {cs : List Char}
    (h : ¬ (start = true ∧ (c :: cs).takeWhile (fun c => !isBlank c) = w)) :
    columns w start i (c :: cs) = columns w (isBlank c) (i + 1) cs := by
  rw [columns, if_neg h, List.nil_append]

/-- No token starts at a blank. -/
theorem columns_dropWhile_blank (hw : w ≠ []) : columns w true i t =
    columns w true (i + (t.length - (t.dropWhile isBlank).length)) (t.dropWhile isBlank) := by
  induction t generalizing i with
  | nil => rfl
  | cons c cs ih =>
      by_cases hc : isBlank c = true
      · have hle := (List.dropWhile_suffix (l := cs) isBlank).length_le
        rw [columns_of_not_hit (by simp [hc, hw.symm]), hc, ih, List.dropWhile_cons_of_pos hc,
          List.length_cons]
        congr 1
        omega
      · rw [List.dropWhile_cons_of_neg hc, Nat.sub_self]
        rfl

/-- If no token that equals `w` starts here, the next one can start behind this word. -/
theorem columns_afterWord (hw : w ≠ [])
    (h : ¬ (start = true ∧ t.takeWhile (fun c => !isBlank c) = w)) : columns w start i t =
      columns w true (i + (t.length - (afterWord t).length)) (afterWord t) := by
  induction t generalizing start i with
  | nil => rfl
  | cons c cs ih =>
      rw [columns_of_not_hit h]
      by_cases hc : isBlank c = true
      · have hafter : afterWord (c :: cs) = cs.dropWhile isBlank := by
          simp [afterWord, hc]
        have hle := (List.dropWhile_suffix (l := cs) isBlank).length_le
        rw [hc, columns_dropWhile_blank hw, hafter, List.length_cons]
        congr 1
        omega
      · have hafter : afterWord (c :: cs) = afterWord cs := by
          simp [afterWord, hc]
        have hle := (afterWord_suffix cs).length_le
        rw [ih (by simp [hc]), hafter, List.length_cons]
        congr 1
        omega

/-- **The scan of a line finds the tokens that equal the word.** -/
theorem swordOut_eq (hw : w ≠ []) (lineNum : Nat) (t : List Char) (hle : t.length ≤ s.length) :
    swordOut w s lineNum t =
      (columns w true (s.length - t.length) t).flatMap (placeOut lineNum) := by
  induction t using length_induction with
  | step t ih =>
      rcases t with _ | ⟨c, cs⟩
      · have hnone : findWord w [] = none := by rw [findWord]
        exact swordOut_of_none lineNum hnone
      · rw [List.length_cons] at hle
        by_cases hhit : (c :: cs).takeWhile (fun c => !isBlank c) = w
        · -- the scan goes on in the rest of the word, which is too short for a hit
          have hfound : findWord w (c :: cs) = some (c :: cs) := by rw [findWord, if_pos hhit]
          have hmiddle : ¬ (true = true ∧ cs.takeWhile (fun c => !isBlank c) = w) := by
            rintro ⟨-, hcs⟩
            have hlen := congrArg List.length (hhit.trans hcs.symm)
            by_cases hc : isBlank c = true
            · simp [hc, hw.symm] at hhit
            · simp [hc] at hlen
          have hc : isBlank c = false := by
            by_contra hblank
            simp [hblank, hw.symm] at hhit
          have hsub : s.length - (c :: cs).length + 1 = s.length - cs.length := by
            rw [List.length_cons]
            omega
          have hsame : columns w true (s.length - cs.length) cs =
              columns w false (s.length - cs.length) cs :=
            (columns_afterWord hw hmiddle).trans (columns_afterWord hw (by simp)).symm
          rw [swordOut_of_some lineNum hfound, List.tail_cons, ih cs (Nat.lt_succ_self _) (by omega),
            columns, if_pos ⟨rfl, hhit⟩, List.flatMap_append, List.flatMap_singleton, hsub, hc, hsame]
        · have hskip : swordOut w s lineNum (c :: cs) = swordOut w s lineNum (afterWord (c :: cs)) := by
            have hnext : findWord w (c :: cs) = findWord w (afterWord (c :: cs)) := by
              rw [findWord, if_neg hhit]
            rcases hfound : findWord w (afterWord (c :: cs)) with _ | pos
            · rw [swordOut_of_none lineNum hfound, swordOut_of_none lineNum (hnext.trans hfound)]
            · rw [swordOut_of_some lineNum hfound, swordOut_of_some lineNum (hnext.trans hfound)]
          have hlt := afterWord_length_lt (List.cons_ne_nil c cs)
          rw [List.length_cons] at hlt
          rw [hskip, ih _ hlt (by omega), columns_afterWord hw fun h => hhit h.2]
          congr 2
          rw [List.length_cons]
          omega

/-- The word is found in a line if it is one of its tokens. -/
theorem findWord_ne_none_iff (hw : w ≠ []) : findWord w s ≠ none ↔ ∃ i, Token s i w := by
  have hscan := swordOut_eq (s := s) hw 0 s (Nat.le_refl _)
  rw [Nat.sub_self] at hscan
  rcases hfound : findWord w s with _ | pos
  · rw [swordOut_of_none 0 hfound] at hscan
    apply iff_of_false (not_not.mpr rfl)
    rintro ⟨i, hi⟩
    obtain ⟨as, bs, hsplit⟩ := List.append_of_mem ((mem_columns_line hw).mpr hi)
    rw [hsplit, List.flatMap_append, List.flatMap_cons] at hscan
    simp [placeOut] at hscan
  · rw [swordOut_of_some 0 hfound] at hscan
    apply iff_of_true (Option.some_ne_none pos)
    rcases hcols : columns w true 0 s with _ | ⟨i, is⟩
    · rw [hcols] at hscan
      cases hscan
    · exact ⟨i, (mem_columns_line hw).mp (by rw [hcols]; exact List.mem_cons_self)⟩

end tokens

/-! ## The searches -/

/-- The line of an entry in small letters, without its newline. -/
def lowerLine (file : List Char) (e : Line) : List Char :=
  ((file.drop e.offset).take e.size).dropLast.map lowerChar

/-- What a handler writes for hits: a step back over the last blank if there are any, and a newline. -/
def report (out : List Out) : List Out :=
  out ++ (if out ≠ [] then [.seekBack] else []) ++ [.write ['\n']]

section searches

variable {file : List Char} {fuel : Nat} {st : ReadState} {es : List Line} {w : List Char}

/-- The text of a line is the line in small letters. -/
theorem lineText_eq (hfile : nul ∉ file) (hindex : LineIndex file es) {e : Line} (he : e ∈ es) :
    lineText file e = lowerLine file e := by
  obtain ⟨l, -, -, hbytes⟩ := hindex.line e he
  have hl : nul ∉ l := by
    intro h
    have hmem : nul ∈ (file.drop e.offset).take e.size := by
      rw [hbytes]
      exact List.mem_append_left _ h
    exact hfile (List.drop_subset _ _ (List.take_subset _ _ hmem))
  unfold lineText lowerLine
  rw [hbytes, List.dropLast_concat, chomp, List.getLast?_concat, if_pos rfl, List.dropLast_concat,
    text_of_notMem hl]

/-- The entries are numbered in order. -/
theorem LineIndex.pairwise (hindex : LineIndex file es) :
    es.Pairwise fun e e' => e.lineNum < e'.lineNum := by
  rw [List.pairwise_iff_getElem]
  intro i j hi hj hij
  have hi' := hindex.lineNum i es[i] (List.getElem?_eq_getElem hi)
  have hj' := hindex.lineNum j es[j] (List.getElem?_eq_getElem hj)
  omega

/-- Places of the lines, in order of line and column. -/
theorem LineIndex.pairwise_places (hindex : LineIndex file es) {f : Line → List Nat}
    (hf : ∀ e, (f e).Pairwise (· < ·)) :
    (es.flatMap fun e => (f e).map (e.lineNum, ·)).Pairwise (Prod.Lex (· < ·) (· < ·)) := by
  rw [List.pairwise_flatMap]
  refine ⟨fun e _ => ?_, hindex.pairwise.imp ?_⟩
  · exact (hf e).map _ fun i j hij => .right _ hij
  · intro e e' hlt p hp p' hp'
    obtain ⟨i, -, rfl⟩ := List.mem_map.mp hp
    obtain ⟨i', -, rfl⟩ := List.mem_map.mp hp'
    exact .left _ _ hlt

/-- An index that is not empty is searched line by line. -/
theorem linesOut_eq (f : Line → List Out) (es : List Line) :
    linesOut (fun e => some (f e)) es = some (es.flatMap f) := by
  induction es with
  | nil => rfl
  | cons e es ih =>
      rw [linesOut, ih]
      rfl

/-- A search whose scans are all defined writes their outputs, one behind the other. -/
theorem searchOut_eq {scan : Line → Option (List Out)} (hes : es ≠ []) (f : Line → List Out)
    (hscan : ∀ e ∈ es, scan e = some (f e)) : searchOut scan es = some (report (es.flatMap f)) := by
  have hlines : linesOut scan es = linesOut (fun e => some (f e)) es := by
    clear hes
    induction es with
    | nil => rfl
    | cons e es ih =>
        rw [List.forall_mem_cons] at hscan
        rw [linesOut, linesOut, hscan.1, ih hscan.2]
  rw [searchOut, if_neg hes, hlines, linesOut_eq]
  rfl

/-- The outputs of some of the lines. -/
theorem flatMap_filter_lines (p : Line → Bool) (f : Line → List Out) (es : List Line) :
    (es.filter p).flatMap f = es.flatMap fun e => if p e then f e else [] := by
  induction es with
  | nil => rfl
  | cons e es ih =>
      rw [List.flatMap_cons, ← ih, List.filter_cons]
      split_ifs
      · rw [List.flatMap_cons]
      · rw [List.nil_append]

/-- The index that `read_file` leaves, if it is not empty. -/
theorem exists_lineIndex (hrun : readFile file fuel .init = some st)
    (hindex : st.index.list.num ≠ 0) : ∃ es, es ≠ [] ∧ st.index.Holds es ∧ LineIndex file es ∧
      Contiguous 0 es st.offset ∧ st.offset ≤ file.length := by
  obtain ⟨ls, hlined, hrest⟩ := readFile_lines (lined_init file) (.inl rfl) hrun
  refine ⟨entries 0 0 ls, ?_, hlined.index, hlined.lineIndex hrest, hlined.contiguous,
    hlined.offset_le⟩
  intro hes
  rw [hlined.index.num, hes] at hindex
  exact hindex rfl

/-- **A search for one word is exact**: it writes one item for each token of the index that equals the
word, in order of line and column, and nothing else. -/
theorem handleSword_exact (hfile : nul ∉ file) (hrun : readFile file fuel .init = some st)
    (hindex : st.index.list.num ≠ 0) (hw : w ≠ []) (hnul : nul ∉ w) {inputList : InputList}
    (hinput : inputList.Holds (numbered 0 [w])) (fill : Nat → Char) (pos : Nat) :
    ∃ (es : List Line) (items : List (Nat × Nat)), st.index.Holds es ∧ LineIndex file es ∧
      handleSword fill file st.index inputList pos =
        some (report (items.flatMap fun (lineNum, i) => placeOut lineNum i), st.offset) ∧
      items.Pairwise (Prod.Lex (· < ·) (· < ·)) ∧
      ∀ lineNum i, (lineNum, i) ∈ items ↔
        ∃ e ∈ es, e.lineNum = lineNum ∧ Token (lowerLine file e) i w := by
  obtain ⟨es, hes, hholds, hlines, hcont, hle⟩ := exists_lineIndex hrun hindex
  refine ⟨es, es.flatMap fun e => (columns w true 0 (lowerLine file e)).map (e.lineNum, ·), hholds,
    hlines, ?_, ?_, ?_⟩
  · rw [handleSword_text fill hholds hcont hle hnul hinput pos, answer,
      searchOut_eq hes fun e => (columns w true 0 (lowerLine file e)).flatMap (placeOut e.lineNum)]
    · simp [List.flatMap_assoc, List.flatMap_map]
    · intro e he
      rw [lineText_eq hfile hlines he]
      show some (swordOut w _ _ _) = _
      rw [swordOut_eq hw e.lineNum _ (Nat.le_refl _), Nat.sub_self]
  · exact hlines.pairwise_places fun e => columns_pairwise
  · intro lineNum i
    rw [List.mem_flatMap]
    refine exists_congr fun e => and_congr_right fun _ => ?_
    rw [← mem_columns_line hw]
    simp [and_comm]

/-- The index of two lines. -/
theorem exists_index : ∃ fuel st, readFile twoAndRest fuel .init = some st ∧
    st.index.Holds [⟨1, 0, 4⟩, ⟨2, 4, 2⟩] ∧ st.index.list.num ≠ 0 := by
  obtain ⟨fuel, st, hrun⟩ := readFile_ends (lined_init twoAndRest) rfl linesWithin_twoAndRest
  obtain ⟨ls, hlined, hrest⟩ := readFile_lines (lined_init twoAndRest) (.inl rfl) hrun
  have hsplit : splitLines '\n' twoAndRest = (ls, twoAndRest.drop st.offset) := by
    conv_lhs => rw [hlined.bytes]
    exact splitLines_eq hlined.line hrest
  have hls : ls = ["a b".toList, "B".toList] := (congrArg Prod.fst hsplit).symm.trans (by decide)
  have hindex := hlined.index
  rw [hls] at hindex
  exact ⟨fuel, st, hrun, hindex, by rw [hindex.num]; decide⟩

/-- The word `b` in a file of two lines. -/
theorem handleSword_exact_twoAndRest : ∃ fuel st inputList,
    readFile twoAndRest fuel .init = some st ∧ LinkedList.Holds inputList (numbered 0 [['b']]) ∧
    ∀ fill pos, ∃ (es : List Line) (items : List (Nat × Nat)),
      st.index.Holds es ∧ LineIndex twoAndRest es ∧
      handleSword fill twoAndRest st.index inputList pos =
        some (report (items.flatMap fun (lineNum, i) => placeOut lineNum i), st.offset) ∧
      items.Pairwise (Prod.Lex (· < ·) (· < ·)) ∧
      ∀ lineNum i, (lineNum, i) ∈ items ↔
        ∃ e ∈ es, e.lineNum = lineNum ∧ Token (lowerLine twoAndRest e) i ['b'] := by
  obtain ⟨fuel, st, hrun, -, hindex⟩ := exists_index
  obtain ⟨inputList, hinput⟩ := LinkedList.exists_holds (numbered 0 [['b']])
  exact ⟨fuel, st, inputList, hrun, hinput, fun fill pos =>
    handleSword_exact (by decide) hrun hindex (by decide) (by decide) hinput fill pos⟩

/-- **A search for several words is exact**: it writes the numbers of the lines of the index that have
every word among their tokens, in order, and nothing else. -/
theorem handleMword_exact (hfile : nul ∉ file) (hrun : readFile file fuel .init = some st)
    (hindex : st.index.list.num ≠ 0) {words : List (List Char)}
    (hwords : ∀ w ∈ words, w ≠ [] ∧ nul ∉ w) {inputList : InputList}
    (hinput : inputList.Holds (numbered 0 words)) (fill : Nat → Char) (pos : Nat) :
    ∃ (es : List Line) (items : List Nat), st.index.Holds es ∧ LineIndex file es ∧
      handleMword fill file st.index inputList pos =
        some (report (items.flatMap lineOut), st.offset) ∧
      items.Pairwise (· < ·) ∧
      ∀ lineNum, lineNum ∈ items ↔
        ∃ e ∈ es, e.lineNum = lineNum ∧ ∀ w ∈ words, ∃ i, Token (lowerLine file e) i w := by
  obtain ⟨es, hes, hholds, hlines, hcont, hle⟩ := exists_lineIndex hrun hindex
  have hall : ∀ s : List Char, (words.all fun w => (findWord w s).isSome) = true ↔
      ∀ w ∈ words, ∃ i, Token s i w := by
    intro s
    rw [List.all_eq_true]
    refine forall₂_congr fun w hw => ?_
    rw [Option.isSome_iff_ne_none, findWord_ne_none_iff (hwords w hw).1]
  let hit : Line → Bool := fun e => words.all fun w => (findWord w (lowerLine file e)).isSome
  refine ⟨es, (es.filter hit).map Line.lineNum, hholds, hlines, ?_, ?_, ?_⟩
  · rw [handleMword_text fill hholds hcont hle (fun w hw => (hwords w hw).2) hinput pos, answer,
      searchOut_eq hes fun e => mwordOut words (lowerLine file e) e.lineNum]
    · have hout : es.flatMap (fun e => mwordOut words (lowerLine file e) e.lineNum) =
          ((es.filter hit).map Line.lineNum).flatMap lineOut := by
        rw [List.flatMap_map, flatMap_filter_lines]
        rfl
      rw [hout, Option.map_some]
    · intro e he
      rw [lineText_eq hfile hlines he]
      rfl
  · exact List.pairwise_map.mpr (hlines.pairwise.filter hit)
  · intro lineNum
    simp only [List.mem_map, List.mem_filter]
    constructor
    · rintro ⟨e, ⟨he, hhit⟩, hnum⟩
      exact ⟨e, he, hnum, (hall _).mp hhit⟩
    · rintro ⟨e, he, hnum, hwords⟩
      exact ⟨e, ⟨he, (hall _).mpr hwords⟩, hnum⟩

/-- The words `b` and `a` in a file of two lines. -/
theorem handleMword_exact_twoAndRest : ∃ fuel st inputList,
    readFile twoAndRest fuel .init = some st ∧
    LinkedList.Holds inputList (numbered 0 [['b'], ['a']]) ∧
    ∀ fill pos, ∃ (es : List Line) (items : List Nat),
      st.index.Holds es ∧ LineIndex twoAndRest es ∧
      handleMword fill twoAndRest st.index inputList pos =
        some (report (items.flatMap lineOut), st.offset) ∧
      items.Pairwise (· < ·) ∧
      ∀ lineNum, lineNum ∈ items ↔ ∃ e ∈ es, e.lineNum = lineNum ∧
        ∀ w ∈ [['b'], ['a']], ∃ i, Token (lowerLine twoAndRest e) i w := by
  obtain ⟨fuel, st, hrun, -, hindex⟩ := exists_index
  obtain ⟨inputList, hinput⟩ := LinkedList.exists_holds (numbered 0 [['b'], ['a']])
  exact ⟨fuel, st, inputList, hrun, hinput, fun fill pos =>
    handleMword_exact (by decide) hrun hindex (by decide) hinput fill pos⟩

end searches

end SystemProgrammingLab.Pa1
