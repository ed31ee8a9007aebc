import SystemProgrammingLab.Pa1.Case

/-!
# The lines a query finds

`Hit` says that the words of a query are in a line, for each of the four modes, and the scan of a
line writes nothing exactly where there is no hit (`scanOut_eq_nil_iff`). All lines are lower-cased:
words that are found have no capital letter (`Hit.lower`), and words in capitals are not found
(`not_hit_upper`).

Source: `pa1/main.c`, `pa1/mystring.c`
-/

namespace SystemProgrammingLab.Pa1

open SystemProgrammingLab.Found

/-! ## Hits -/

/-- The parts of a text from its words on. -/
def wordStarts (s : List Char) : List (List Char) :=
  match s with
  | [] => []
  | c :: cs =>
      have := afterWord_length_lt (List.cons_ne_nil c cs)
      (c :: cs) :: wordStarts (afterWord (c :: cs))
termination_by s.length
decreasing_by exact this

/-- The words are found in the line. For `REGEXP` this counts the line whose last word is the first
place of `word1`: there the scan follows a `NULL`. -/
def Hit (mode : Mode) (words : List (List Char)) (s : List Char) : Prop :=
  match mode, words with
  | .sword, [word] => findWord word s ≠ none
  | .mword, words => ∀ w ∈ words, findWord w s ≠ none
  | .cword, [sub] =>
      ∃ t ∈ wordStarts s, sub ≠ [] ∧ sub <+: t ∧ (t.drop sub.length).head?.all isBlank = true
  | .regexp, [word1, word2] => ∃ start, findWord word1 s = some start ∧
      (afterWord start = [] ∨ findWord word2 (afterWord (afterWord start)) ≠ none)
  | _, _ => False

/-- The query has as many words as its mode asks for. -/
def Shaped : Mode → List (List Char) → Prop
  | .sword, words => ∃ word, words = [word]
  | .mword, _ => True
  | .cword, words => ∃ sub, words = [sub]
  | .regexp, words => ∃ word1 word2, words = [word1, word2]
  | .exit, _ => False

section hits

variable {s t : List Char} (lineNum : Nat)

/-- A start of a word is an end of the line. -/
theorem wordStarts_suffix (h : t ∈ wordStarts s) : t <:+ s := by
  induction s using wordStarts.induct with
  | case1 => simp [wordStarts] at h
  | case2 c cs _ ih =>
      rw [wordStarts, List.mem_cons] at h
      rcases h with rfl | h
      · exact List.suffix_rfl
      · exact (ih h).trans (afterWord_suffix _)

/-- A word has no hit in a line in which it is not found. -/
theorem swordOut_eq_nil_iff {word : List Char} :
    swordOut word s lineNum t = [] ↔ findWord word t = none := by
  constructor
  · intro h
    rcases hfound : findWord word t with _ | pos
    · rfl
    · rw [swordOut_of_some lineNum hfound] at h
      cases h
  · exact swordOut_of_none lineNum

/-- A line is no hit if one of the words is not found in it. -/
theorem mwordOut_eq_nil_iff {words : List (List Char)} :
    mwordOut words s lineNum = [] ↔ ¬ ∀ w ∈ words, findWord w s ≠ none := by
  unfold mwordOut
  have hall : (words.all fun w => (findWord w s).isSome) = true ↔
      ∀ w ∈ words, findWord w s ≠ none := by
    simp [Option.isSome_iff_ne_none]
  by_cases h : ∀ w ∈ words, findWord w s ≠ none
  · rw [if_pos (hall.mpr h)]
    exact iff_of_false (List.cons_ne_nil _ _) (not_not.mpr h)
  · rw [if_neg (hall.not.mpr h)]
    exact iff_of_true rfl h

/-- A text that is not empty is found where it is. -/
theorem findSub_of_prefix {sub : List Char} (hne : sub ≠ []) (hsuffix : t <:+ s) (hsub : sub <+: t) :
    ∃ pos, findSub sub s = some pos ∧ t.length ≤ pos.length := by
  induction s with
  | nil =>
      rw [List.suffix_nil.mp hsuffix, List.prefix_nil] at hsub
      exact absurd hsub hne
  | cons c s ih =>
      rw [findSub]
      by_cases hfound : sub ≠ [] ∧ sub.isPrefixOf (c :: s)
      · rw [if_pos hfound]
        exact ⟨_, rfl, hsuffix.length_le⟩
      · rw [if_neg hfound]
        rcases List.suffix_cons_iff.mp hsuffix with rfl | hsuffix
        · exact absurd ⟨hne, List.isPrefixOf_iff_prefix.mpr hsub⟩ hfound
        · exact ih hsuffix

/-- An empty text is not found. -/
theorem ne_nil_of_findSub {sub pos : List Char} (h : findSub sub s = some pos) : sub ≠ [] := by
  induction s with
  | nil => cases h
  | cons c s ih =>
      rw [findSub] at h
      split_ifs at h with hfound
      · exact hfound.1
      · exact ih h

/-- The phrase is at the start of the text, in front of a blank or the end. -/
def phraseStarts (sub t : List Char) : Bool :=
  sub.isPrefixOf t && (t.drop sub.length).head?.all isBlank

/-- A phrase starts at a position if it stands there and ends with a word. -/
theorem phraseStarts_iff {sub : List Char} : phraseStarts sub t = true ↔
    sub <+: t ∧ (t.drop sub.length).head?.all isBlank = true := by
  rw [phraseStarts, Bool.and_eq_true, List.isPrefixOf_iff_prefix]

/-- The first occurrence is a hit if it is at the start. -/
theorem phraseOut_eq {sub pos : List Char} (h : findSub sub t = some pos) :
    phraseOut s lineNum t pos sub.length =
      if phraseStarts sub t then placeOut lineNum (s.length - t.length) else [] := by
  obtain ⟨hsuffix, -, hprefix⟩ := findSub_suffix h
  unfold phraseOut
  by_cases hsub : sub <+: t
  · obtain ⟨pos', hfind, hlen⟩ := findSub_of_prefix (ne_nil_of_findSub h) List.suffix_rfl hsub
    rw [h] at hfind
    cases hfind
    have hpos : pos = t := hsuffix.eq_of_length (Nat.le_antisymm hsuffix.length_le hlen)
    subst hpos
    by_cases hends : (pos.drop sub.length).head?.all isBlank = true
    · rw [if_pos ⟨rfl, hends⟩, if_pos (phraseStarts_iff.mpr ⟨hsub, hends⟩)]
    · rw [if_neg fun hboth => hends hboth.2, if_neg fun hboth => hends (phraseStarts_iff.mp hboth).2]
  · have hlen : pos.length ≠ t.length := by
      intro hlen
      rw [hsuffix.eq_of_length hlen] at hprefix
      exact hsub hprefix
    rw [if_neg fun hboth => hlen hboth.1, if_neg fun hboth => hsub (phraseStarts_iff.mp hboth).1]

/-- The scan writes the words at which the phrase starts. -/
theorem cwordOut_eq {sub : List Char} (hne : sub ≠ []) : cwordOut sub s lineNum t =
    ((wordStarts t).filter (phraseStarts sub)).flatMap fun t' =>
      placeOut lineNum (s.length - t'.length) := by
  induction t using wordStarts.induct with
  | case1 => simp [cwordOut, wordStarts]
  | case2 c cs _ ih =>
      rcases hfind : findSub sub (c :: cs) with _ | pos
      · have hnone : (wordStarts (c :: cs)).filter (phraseStarts sub) = [] := by
          rw [List.filter_eq_nil_iff]
          intro t' ht' hstarts
          obtain ⟨pos, hpos, -⟩ :=
            findSub_of_prefix hne (wordStarts_suffix ht') (phraseStarts_iff.mp hstarts).1
          rw [hfind] at hpos
          cases hpos
        rw [cwordOut, hnone]
        simp only [hfind, List.flatMap_nil]
      · rw [cwordOut, wordStarts, List.filter_cons]
        simp only [hfind, phraseOut_eq lineNum hfind, ih]
        split_ifs
        · rw [List.flatMap_cons]
        · rw [List.nil_append]

/-- A phrase has no hit in a line if no word starts it. -/
theorem cwordOut_eq_nil_iff {sub : List Char} :
    cwordOut sub s lineNum t = [] ↔ ¬ ∃ t' ∈ wordStarts t,
      sub ≠ [] ∧ sub <+: t' ∧ (t'.drop sub.length).head?.all isBlank = true := by
  by_cases hne : sub = []
  · have hout : cwordOut sub s lineNum t = [] := by
      rcases t with _ | ⟨c, cs⟩
      · rw [cwordOut]
      · rcases hfind : findSub sub (c :: cs) with _ | pos
        · rw [cwordOut]
          simp only [hfind]
        · exact absurd hne (ne_nil_of_findSub hfind)
    apply iff_of_true hout
    rintro ⟨t', -, hsub, -⟩
    exact hsub hne
  · rw [cwordOut_eq lineNum hne, List.flatMap_eq_nil_iff]
    simp [placeOut, phraseStarts, hne]

/-- Two words have no hit in a line, and no `NULL` is followed in it. -/
theorem regexpOut_eq_nil_iff {word1 word2 : List Char} :
    regexpOut word1 word2 s lineNum = some [] ↔ ¬ ∃ start, findWord word1 s = some start ∧
      (afterWord start = [] ∨ findWord word2 (afterWord (afterWord start)) ≠ none) := by
  unfold regexpOut
  rcases findWord word1 s with _ | start
  · simp
  · by_cases hlast : afterWord start = []
    · simp [hlast]
    · rcases findWord word2 (afterWord (afterWord start)) with _ | pos <;> simp [hlast, lineOut]

/-- The scan of a line writes nothing exactly if the line has no hit. -/
theorem scanOut_eq_nil_iff {mode : Mode} {words : List (List Char)} (h : Shaped mode words) :
    scanOut mode words s lineNum = some [] ↔ ¬ Hit mode words s := by
  cases mode with
  | sword =>
      obtain ⟨word, rfl⟩ := h
      simp [scanOut, Hit, swordOut_eq_nil_iff]
  | mword =>
      show some (mwordOut words s lineNum) = some [] ↔ _
      rw [Option.some_inj, mwordOut_eq_nil_iff]
      rfl
  | cword =>
      obtain ⟨sub, rfl⟩ := h
      show some (cwordOut sub s lineNum s) = some [] ↔ _
      rw [Option.some_inj, cwordOut_eq_nil_iff]
      rfl
  | regexp =>
      obtain ⟨word1, word2, rfl⟩ := h
      exact regexpOut_eq_nil_iff lineNum
  | exit => exact h.elim

/-- A query has as many words as its mode asks for. -/
theorem shaped_of_parse {mode : Mode} {words : List (List Char)} (h : parse s = some (mode, words))
    (hexit : mode ≠ .exit) : Shaped mode words := by
  rcases parse_cases h with rfl | ⟨rfl, rfl⟩ | ⟨rfl, rfl⟩ | ⟨asterisk, -, rfl, rfl⟩ | ⟨rfl, rfl⟩
  · exact absurd rfl hexit
  · exact ⟨_, rfl⟩
  · trivial
  · exact ⟨_, _, rfl⟩
  · exact ⟨_, rfl⟩

end hits

/-! ## Words in lower-cased lines -/

/-- The text has no capital letter. -/
def Lower (s : List Char) : Prop := ∀ c ∈ s, lowerChar c = c

/-- The words have no letter at all. -/
def NoLetter (words : List (List Char)) : Prop := ∀ w ∈ words, ∀ c ∈ w, ¬ IsLetter c

section lines

variable {s : List Char} {words : List (List Char)} {mode : Mode}

/-- The text of a line has no capital letter. -/
theorem lower_lineText (file : List Char) (e : Line) : Lower (lineText file e) := by
  intro c hc
  obtain ⟨d, -, rfl⟩ := List.mem_map.mp hc
  exact lowerChar_idem d

/-- A text without capitals stays as it is. -/
theorem Lower.map_eq {w : List Char} (h : Lower w) : w.map lowerChar = w :=
  (List.map_congr_left h).trans (List.map_id w)

/-- A part of it has none either. -/
theorem Lower.subset {w : List Char} (hs : Lower s) (h : w ⊆ s) : Lower w :=
  fun c hc => hs c (h hc)

/-- Words without capitals stay as they are. -/
theorem map_lower_eq (h : ∀ w ∈ words, Lower w) : words.map (List.map lowerChar) = words :=
  (List.map_congr_left fun w hw => (h w hw).map_eq).trans (List.map_id words)

/-- A word that is found is made of characters of the line. -/
theorem subset_of_findWord {w pos : List Char} (h : findWord w s = some pos) : w ⊆ s := by
  induction s using findWord.induct w with
  | case1 =>
      rw [findWord] at h
      cases h
  | case2 c cs hfound =>
      rw [← hfound]
      exact (List.takeWhile_prefix _).subset
  | case3 c cs hnot _ ih =>
      rw [findWord, if_neg hnot] at h
      exact List.Subset.trans (ih h) (afterWord_suffix _).subset

/-- What is found in a lower-cased line is lower-cased. -/
theorem lower_of_findWord {w : List Char} (hs : Lower s) (h : findWord w s ≠ none) : Lower w := by
  obtain ⟨pos, hpos⟩ := Option.ne_none_iff_exists'.mp h
  exact hs.subset (subset_of_findWord hpos)

/-- What is behind a word has no capital letter. -/
theorem lower_afterWord (hs : Lower s) : Lower (afterWord s) :=
  hs.subset (afterWord_suffix s).subset

/-- Nor has what is found. -/
theorem lower_found {w start : List Char} (hs : Lower s) (h : findWord w s = some start) :
    Lower start :=
  hs.subset (findWord_suffix h).1.subset

/-- A line with a hit has one for the words in small letters. -/
theorem Hit.lower (hs : Lower s) (h : Hit mode words s) :
    Hit mode (words.map (List.map lowerChar)) s := by
  rcases mode with _ | _ | _ | _ | _
  · rcases words with _ | ⟨word, _ | ⟨_, _⟩⟩
    · exact h
    · show findWord (word.map lowerChar) s ≠ none
      rw [(lower_of_findWord hs h).map_eq]
      exact h
    · exact h
  · have hwords : ∀ w ∈ words, Lower w := fun w hw => lower_of_findWord hs (h w hw)
    rw [map_lower_eq hwords]
    exact h
  · rcases words with _ | ⟨sub, _ | ⟨_, _⟩⟩
    · exact h
    · have hsub : Lower sub := by
        obtain ⟨t, ht, -, hprefix, -⟩ := h
        exact hs.subset (List.Subset.trans hprefix.subset (wordStarts_suffix ht).subset)
      show Hit .cword [sub.map lowerChar] s
      rw [hsub.map_eq]
      exact h
    · exact h
  · rcases words with _ | ⟨word1, _ | ⟨word2, _ | ⟨_, _⟩⟩⟩
    · exact h
    · exact h
    · obtain ⟨start, hfound, hbehind⟩ := h
      have hstart := lower_found hs hfound
      refine ⟨start, ?_, hbehind.imp_right ?_⟩
      · rw [(hs.subset (subset_of_findWord hfound)).map_eq]
        exact hfound
      · intro hword2
        rw [(lower_of_findWord (lower_afterWord (lower_afterWord hstart)) hword2).map_eq]
        exact hword2
    · exact h
  · exact h

/-- A letter in capitals is in no lower-cased text. -/
theorem not_lower_upper {w : List Char} (hw : ∃ c ∈ w, IsLetter c) : ¬ Lower (w.map upperChar) := by
  intro hlower
  obtain ⟨c, hc, hletter⟩ := hw
  have hsame := hlower _ (List.mem_map_of_mem hc)
  exact upperChar_ne_lowerChar hletter _ hsame.symm

/-- `word1` has no letter and the scan of the line follows a `NULL` behind it. -/
def Stuck (mode : Mode) (words : List (List Char)) (s : List Char) : Prop :=
  match mode, words with
  | .regexp, [word1, _] =>
      (∀ c ∈ word1, ¬ IsLetter c) ∧ ∃ start, findWord word1 s = some start ∧ afterWord start = []
  | _, _ => False

/-- The scan of such a line is undefined. -/
theorem Stuck.scanOut_eq (h : Stuck mode words s) (lineNum : Nat) :
    scanOut mode words s lineNum = none := by
  unfold Stuck at h
  split at h
  · exact (regexpOut_eq_none lineNum).mpr h.2
  · exact h.elim

/-- With a letter in a word there is no hit for the words in capitals, where the scan does not get
stuck. -/
theorem not_hit_upper (hs : Lower s) (hletter : ¬ NoLetter words) (hstuck : ¬ Stuck mode words s) :
    ¬ Hit mode (words.map (List.map upperChar)) s := by
  have hsome : ∃ w ∈ words, ∃ c ∈ w, IsLetter c := by
    simpa [NoLetter] using hletter
  obtain ⟨w, hw, hc⟩ := hsome
  rcases mode with _ | _ | _ | _ | _
  · rcases words with _ | ⟨word, _ | ⟨_, _⟩⟩
    · exact id
    · cases List.mem_singleton.mp hw
      exact fun hfound => not_lower_upper hc (lower_of_findWord hs hfound)
    · exact id
  · exact fun hfound =>
      not_lower_upper hc (lower_of_findWord hs (hfound _ (List.mem_map_of_mem hw)))
  · rcases words with _ | ⟨sub, _ | ⟨_, _⟩⟩
    · exact id
    · cases List.mem_singleton.mp hw
      rintro ⟨t, ht, -, hprefix, -⟩
      apply not_lower_upper hc
      exact hs.subset (List.Subset.trans hprefix.subset (wordStarts_suffix ht).subset)
    · exact id
  · rcases words with _ | ⟨word1, _ | ⟨word2, _ | ⟨_, _⟩⟩⟩
    · exact id
    · exact id
    · rintro ⟨start, hfound, hbehind⟩
      have hword1 : ∀ c ∈ word1, ¬ IsLetter c := by
        intro c hc hletter
        exact not_lower_upper ⟨c, hc, hletter⟩ (hs.subset (subset_of_findWord hfound))
      have hsame : word1.map upperChar = word1 :=
        (List.map_congr_left fun c hc => upperChar_of_not_isLetter (hword1 c hc)).trans
          (List.map_id word1)
      rw [hsame] at hfound
      have hword2 := hbehind.resolve_left fun hlast => hstuck ⟨hword1, start, hfound, hlast⟩
      have hlower := lower_afterWord (lower_afterWord (lower_found hs hfound))
      rcases List.mem_pair.mp hw with rfl | rfl
      · obtain ⟨c, hc, hletter⟩ := hc
        exact hword1 c hc hletter
      · exact not_lower_upper hc (lower_of_findWord hlower hword2)
    · exact id
  · exact id

end lines

end SystemProgrammingLab.Pa1
