import SystemProgrammingLab.Pa1.Hit
import SystemProgrammingLab.Pa1.Tokens

/-!
# Searches for a phrase are exact

`handle_cword` goes from word to word, and at each word it looks for the phrase in the whole rest of the
line. Where the phrase is found further on, the word is no hit, and the scan goes on with the next word
and not with what was found; where it is not found at all, there is no hit behind it. So the hits are
the words at which the phrase starts (`cwordOut_eq`). A word starts behind a blank or at the start of
the line, which makes these words the tokens of the line (`mem_wordStarts_iff`) and the search exact
(`handleCword_exact`).

Source: `pa1/main.c`, `pa1/mystring.c`
-/

namespace SystemProgrammingLab.Pa1

open SystemProgrammingLab.Found

/-- The phrase `sub` is in the line `s` at the column `i`, where a token starts, and a blank or the end
of the line is behind it. -/
def PhraseAt (sub s : List Char) (i : Nat) : Prop :=
  (∃ w, Token s i w) ∧ sub <+: s.drop i ∧ ∀ c ∈ (s.drop (i + sub.length)).head?, isBlank c = true

section words

variable {s t sub : List Char} {i : Nat}

/-- The words of a line get shorter. -/
theorem wordStarts_pairwise : (wordStarts s).Pairwise fun t t' => t'.length < t.length := by
  induction s using wordStarts.induct with
  | case1 => simp [wordStarts]
  | case2 c cs hlt ih =>
      rw [wordStarts, List.pairwise_cons]
      refine ⟨?_, ih⟩
      intro t ht
      exact (wordStarts_suffix ht).length_le.trans_lt hlt

/-- What is skipped in front of a word ends in a blank. -/
theorem exists_skipped {d : Char} {ds : List Char} (h : afterWord s = d :: ds) :
    ∃ skipped, s = skipped ++ d :: ds ∧ skipped.getLast?.any isBlank = true := by
  unfold afterWord at h
  have hword := List.takeWhile_append_dropWhile (p := fun c => !isBlank c) (l := s)
  have hblank := List.takeWhile_append_dropWhile (p := isBlank) (l := s.dropWhile fun c => !isBlank c)
  have hne : (s.dropWhile fun c => !isBlank c).takeWhile isBlank ≠ [] := by
    intro hnil
    rw [hnil, List.nil_append, h] at hblank
    have hstop := List.head?_dropWhile_not (fun c => !isBlank c) s
    have hd := List.head?_dropWhile_not isBlank (s.dropWhile fun c => !isBlank c)
    rw [← hblank] at hstop
    rw [h] at hd
    simp only [List.head?_cons] at hstop hd
    rw [hd] at hstop
    exact absurd hstop (by decide)
  refine ⟨s.takeWhile (fun c => !isBlank c) ++ (s.dropWhile fun c => !isBlank c).takeWhile isBlank,
    ?_, ?_⟩
  · rw [List.append_assoc, ← h, hblank, hword]
  · rw [List.getLast?_append_of_ne_nil _ hne, List.getLast?_eq_some_getLast hne]
    exact List.mem_takeWhile_imp (p := isBlank) (List.getLast_mem hne)

/-- A word in front of which a blank stands is behind the first word. -/
theorem afterWord_append {pre : List Char} (hpre : pre.getLast?.any isBlank = true) {d : Char}
    (hd : isBlank d = false) (ds : List Char) :
    ∃ pre', afterWord (pre ++ d :: ds) = pre' ++ d :: ds ∧ pre' <:+ pre := by
  have hlast : ∃ b ∈ pre, isBlank b = true := by
    rw [Option.any_eq_true] at hpre
    obtain ⟨b, hb, hblank⟩ := hpre
    exact ⟨b, List.mem_of_getLast? hb, hblank⟩
  have hstop : ¬ ∀ b ∈ pre, (!isBlank b) = true := by
    obtain ⟨b, hb, hblank⟩ := hlast
    exact fun hall => absurd (hall b hb) (by simp [hblank])
  have hword : (pre ++ d :: ds).dropWhile (fun c => !isBlank c) =
      pre.dropWhile (fun c => !isBlank c) ++ d :: ds := by
    rw [List.dropWhile_append, if_neg]
    rwa [List.isEmpty_iff, List.dropWhile_eq_nil_iff]
  unfold afterWord
  rw [hword, List.dropWhile_append]
  split_ifs with hall
  · exact ⟨[], by rw [List.dropWhile_cons_of_neg (by simp [hd])]; rfl, List.nil_suffix⟩
  · exact ⟨_, rfl, (List.dropWhile_suffix _).trans (List.dropWhile_suffix _)⟩

/-- A word starts at the start of a line or behind a blank. -/
theorem mem_wordStarts_iff {d : Char} {ds : List Char} (hd : isBlank d = false) :
    d :: ds ∈ wordStarts s ↔ ∃ pre, s = pre ++ d :: ds ∧ ∀ c ∈ pre.getLast?, isBlank c = true := by
  induction s using wordStarts.induct with
  | case1 => simp [wordStarts]
  | case2 c cs _ ih =>
      rw [wordStarts, List.mem_cons, ih]
      constructor
      · rintro (heq | ⟨pre, hpre, hlast⟩)
        · exact ⟨[], heq.symm, by simp⟩
        · rcases hafter : afterWord (c :: cs) with _ | ⟨e, es⟩
          · rw [hafter] at hpre
            simp at hpre
          · obtain ⟨skipped, hskip, hblank⟩ := exists_skipped hafter
            refine ⟨skipped ++ pre, ?_, ?_⟩
            · rw [List.append_assoc, ← hpre, hafter]
              exact hskip
            · intro b hb
              rcases List.eq_nil_or_concat' pre with rfl | ⟨pre, b', rfl⟩
              · rw [List.append_nil] at hb
                rw [Option.mem_def.mp hb] at hblank
                exact hblank
              · apply hlast b
                rwa [List.getLast?_append_of_ne_nil _ (by simp)] at hb
      · rintro ⟨pre, hpre, hlast⟩
        rcases List.eq_nil_or_concat' pre with rfl | ⟨pre, b, rfl⟩
        · exact .inl hpre.symm
        · right
          have hb : isBlank b = true := hlast b (by simp)
          have hpre' : (pre ++ [b]).getLast?.any isBlank = true := by simp [hb]
          obtain ⟨pre', hafter, hsuffix⟩ := afterWord_append hpre' hd ds
          rw [hpre]
          refine ⟨pre', hafter, ?_⟩
          intro e he
          obtain ⟨as, has⟩ := hsuffix
          have hne : pre' ≠ [] := by
            rintro rfl
            cases he
          have hsame : (as ++ pre').getLast? = some e := by
            rw [List.getLast?_append_of_ne_nil _ hne]
            exact he
          rw [has, List.getLast?_concat] at hsame
          cases hsame
          exact hb

/-- A token starts where a word without a blank in front of it starts. -/
theorem exists_token_iff {pre : List Char} {d : Char} {ds : List Char} :
    (∃ w, Token (pre ++ d :: ds) pre.length w) ↔
      (∀ c ∈ pre.getLast?, isBlank c = true) ∧ isBlank d = false := by
  constructor
  · rintro ⟨w, htoken⟩
    have hw : w ≠ [] := htoken.choose_spec.choose_spec.2.2.1
    obtain ⟨hpre, hword⟩ := (token_append hw).mp htoken
    refine ⟨hpre, ?_⟩
    by_contra hd
    rw [List.takeWhile_cons_of_neg (by simpa using hd)] at hword
    exact hw hword.symm
  · rintro ⟨hpre, hd⟩
    have hw : (d :: ds).takeWhile (fun c => !isBlank c) ≠ [] := by simp [hd]
    exact ⟨_, (token_append hw).mpr ⟨hpre, rfl⟩⟩

/-- The words at which a phrase starts are its places in the line. -/
theorem exists_wordStart_iff (hne : sub ≠ []) (hfirst : ∀ c ∈ sub.head?, isBlank c = false) :
    (∃ t ∈ wordStarts s, phraseStarts sub t = true ∧ s.length - t.length = i) ↔
      PhraseAt sub s i := by
  obtain ⟨d, ds, rfl⟩ := List.exists_cons_of_ne_nil hne
  have hd : isBlank d = false := hfirst d rfl
  unfold PhraseAt
  simp only [phraseStarts_iff, Option.all_eq_true]
  constructor
  · rintro ⟨t, ht, ⟨hsub, hends⟩, rfl⟩
    obtain ⟨ds', rfl⟩ := hsub
    rw [List.cons_append] at ht hends ⊢
    obtain ⟨pre, rfl, hpre⟩ := (mem_wordStarts_iff hd).mp ht
    have hlen : (pre ++ d :: (ds ++ ds')).length - (d :: (ds ++ ds')).length = pre.length := by
      rw [List.length_append, Nat.add_sub_cancel]
    rw [hlen, exists_token_iff, List.drop_left, ← List.drop_drop, List.drop_left]
    exact ⟨⟨hpre, hd⟩, List.prefix_append (d :: ds) ds', hends⟩
  · rintro ⟨htoken, ⟨ds', hsub⟩, hends⟩
    have hsplit : s = s.take i ++ d :: (ds ++ ds') := by
      rw [← List.cons_append, hsub, List.take_append_drop]
    have hlen : (s.take i).length = i := by
      have hlt : i < s.length := by
        by_contra hge
        rw [List.drop_eq_nil_of_le (Nat.le_of_not_lt hge)] at hsub
        cases hsub
      exact List.length_take_of_le hlt.le
    rw [hsplit] at htoken
    nth_rewrite 2 [← hlen] at htoken
    obtain ⟨hpre, -⟩ := exists_token_iff.mp htoken
    refine ⟨d :: (ds ++ ds'), (mem_wordStarts_iff hd).mpr ⟨_, hsplit, hpre⟩, ⟨?_, ?_⟩, ?_⟩
    · exact List.prefix_append (d :: ds) ds'
    · rwa [← List.drop_drop, ← hsub] at hends
    · have hsum := congrArg List.length hsplit
      rw [List.length_append, hlen] at hsum
      omega

end words

/-! ## The search -/

section search

variable {file : List Char} {fuel : Nat} {st : ReadState} {sub : List Char}

/-- **A search for a phrase is exact**: it writes one item for each place of the index at which the phrase
starts with a token and ends with one, in order of line and column, and nothing else. -/
theorem handleCword_exact (hfile : nul ∉ file) (hrun : readFile file fuel .init = some st)
    (hindex : st.index.list.num ≠ 0) (hne : sub ≠ []) (hnul : nul ∉ sub)
    (hfirst : ∀ c ∈ sub.head?, isBlank c = false) {inputList : InputList}
    (hinput : inputList.Holds (numbered 0 [sub])) (fill : Nat → Char) (pos : Nat) :
    ∃ (es : List Line) (items : List (Nat × Nat)), st.index.Holds es ∧ LineIndex file es ∧
      handleCword fill file st.index inputList pos =
        some (report (items.flatMap fun (lineNum, i) => placeOut lineNum i), st.offset) ∧
      items.Pairwise (Prod.Lex (· < ·) (· < ·)) ∧
      ∀ lineNum i, (lineNum, i) ∈ items ↔
        ∃ e ∈ es, e.lineNum = lineNum ∧ PhraseAt sub (lowerLine file e) i := by
  obtain ⟨es, hes, hholds, hlines, hcont, hle⟩ := exists_lineIndex hrun hindex
  let places : List Char → List Nat := fun s =>
    ((wordStarts s).filter (phraseStarts sub)).map fun t => s.length - t.length
  refine ⟨es, es.flatMap fun e => (places (lowerLine file e)).map (e.lineNum, ·), hholds, hlines, ?_,
    ?_, ?_⟩
  · rw [handleCword_text fill hholds hcont hle hnul hinput pos, answer,
      searchOut_eq hes fun e => (places (lowerLine file e)).flatMap (placeOut e.lineNum)]
    · simp [List.flatMap_assoc, List.flatMap_map]
    · intro e he
      rw [lineText_eq hfile hlines he]
      show some (cwordOut sub _ _ _) = _
      rw [cwordOut_eq e.lineNum hne, List.flatMap_map]
  · refine hlines.pairwise_places fun e => List.pairwise_map.mpr ?_
    apply (wordStarts_pairwise.filter _).imp_of_mem
    intro t t' ht ht' hlt
    have hle := (wordStarts_suffix (List.mem_filter.mp ht).1).length_le
    omega
  · intro lineNum i
    rw [List.mem_flatMap]
    refine exists_congr fun e => and_congr_right fun _ => ?_
    rw [← exists_wordStart_iff hne hfirst]
    simp [places, and_assoc, and_left_comm]

/-- The phrase `a b` in a file of two lines. -/
theorem handleCword_exact_twoAndRest : ∃ fuel st inputList,
    readFile twoAndRest fuel .init = some st ∧
    LinkedList.Holds inputList (numbered 0 ["a b".toList]) ∧
    ∀ fill pos, ∃ (es : List Line) (items : List (Nat × Nat)),
      st.index.Holds es ∧ LineIndex twoAndRest es ∧
      handleCword fill twoAndRest st.index inputList pos =
        some (report (items.flatMap fun (lineNum, i) => placeOut lineNum i), st.offset) ∧
      items.Pairwise (Prod.Lex (· < ·) (· < ·)) ∧
      ∀ lineNum i, (lineNum, i) ∈ items ↔
        ∃ e ∈ es, e.lineNum = lineNum ∧ PhraseAt "a b".toList (lowerLine twoAndRest e) i := by
  obtain ⟨fuel, st, hrun, -, hindex⟩ := exists_index
  obtain ⟨inputList, hinput⟩ := LinkedList.exists_holds (numbered 0 ["a b".toList])
  have hfirst : ∀ c ∈ "a b".toList.head?, isBlank c = false := by
    intro c hc
    cases hc
    rfl
  exact ⟨fuel, st, inputList, hrun, hinput, fun fill pos =>
    handleCword_exact (by decide) hrun hindex (by decide) (by decide) hfirst hinput fill pos⟩

end search

end SystemProgrammingLab.Pa1
