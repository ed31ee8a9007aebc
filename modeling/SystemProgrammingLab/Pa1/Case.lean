import SystemProgrammingLab.Pa1.Main

/-!
# Capital and small letters in a file and in a query

A change of the letters keeps the characters with a meaning of their own (`marks`): the newline that
ends a line, the NUL that ends a text, and the blank, the asterisk and the double quote that
`resolve_input` looks for. So it changes neither the index (`load_map`) nor the way a query is split
(`parse_map`), and two variants of a file have the same lower-cased lines (`lineText_variant`).

Source: `pa1/main.c`, `pa1/mystring.c`
-/

namespace SystemProgrammingLab.Pa1

open SystemProgrammingLab.Found

/-! ## Letters -/

/-- An ASCII letter. -/
def IsLetter (c : Char) : Prop := ('A' ≤ c ∧ c ≤ 'Z') ∨ ('a' ≤ c ∧ c ≤ 'z')

instance (c : Char) : Decidable (IsLetter c) := inferInstanceAs (Decidable (_ ∨ _))

/-- The capital letter of a small one. -/
def capital (l : Char) : Char := Char.ofNat (l.toNat - 32)

/-- A small letter, with its capital. -/
theorem capital_small {l : Char} (hl : 'a' ≤ l ∧ l ≤ 'z') :
    ('A' ≤ capital l ∧ capital l ≤ 'Z') ∧ lowerChar (capital l) = l := by
  have hall : ∀ n < 123, 'a'.toNat ≤ n →
      ('A' ≤ Char.ofNat (n - 32) ∧ Char.ofNat (n - 32) ≤ 'Z') ∧
        lowerChar (Char.ofNat (n - 32)) = Char.ofNat n := by
    decide
  have hn := hall l.toNat (Nat.lt_succ_of_le hl.2) hl.1
  rwa [Char.ofNat_toNat] at hn

/-- A character is made a small letter, or it is no capital and stays. -/
theorem lowerChar_cases (c : Char) :
    (('A' ≤ c ∧ c ≤ 'Z') ∧ 'a' ≤ lowerChar c ∧ lowerChar c ≤ 'z') ∨
      (¬ ('A' ≤ c ∧ c ≤ 'Z') ∧ lowerChar c = c) := by
  by_cases hcap : 'A' ≤ c ∧ c ≤ 'Z'
  · refine .inl ⟨hcap, ?_⟩
    have hall : ∀ n < 91, 'A'.toNat ≤ n →
        'a' ≤ Char.ofNat ('a'.toNat + n - 'A'.toNat) ∧
          Char.ofNat ('a'.toNat + n - 'A'.toNat) ≤ 'z' := by
      decide
    unfold lowerChar
    rw [if_pos hcap]
    exact hall c.toNat (Nat.lt_succ_of_le hcap.2) hcap.1
  · exact .inr ⟨hcap, if_neg hcap⟩

/-- A small letter is not a capital. -/
theorem not_capital_of_small {c : Char} (h : 'a' ≤ c) : ¬ ('A' ≤ c ∧ c ≤ 'Z') := by
  rintro ⟨-, hle⟩
  exact absurd (UInt32.le_trans h hle) (by decide)

/-- A small letter stays. -/
theorem lowerChar_idem (c : Char) : lowerChar (lowerChar c) = lowerChar c := by
  rcases lowerChar_cases c with ⟨-, hsmall, -⟩ | ⟨-, hsame⟩
  · exact if_neg (not_capital_of_small hsmall)
  · rw [hsame, hsame]

/-- A letter becomes a small letter. -/
theorem lowerChar_of_isLetter {c : Char} (h : IsLetter c) : 'a' ≤ lowerChar c ∧ lowerChar c ≤ 'z' := by
  rcases lowerChar_cases c with ⟨-, hsmall⟩ | ⟨hcap, hsame⟩
  · exact hsmall
  · rw [hsame]
    exact h.resolve_left hcap

/-- What is not a letter stays. -/
theorem lowerChar_of_not_isLetter {c : Char} (h : ¬ IsLetter c) : lowerChar c = c := by
  rcases lowerChar_cases c with ⟨hcap, -⟩ | ⟨-, hsame⟩
  · exact absurd (.inl hcap) h
  · exact hsame

/-- The texts are the same up to the case of their letters. -/
def Variant (cs cs' : List Char) : Prop := cs.map lowerChar = cs'.map lowerChar

/-- The text in capital letters. -/
def upperChar (c : Char) : Char := if 'a' ≤ c ∧ c ≤ 'z' then capital c else c

/-- A capital made small is the letter made small. -/
theorem lowerChar_upperChar (c : Char) : lowerChar (upperChar c) = lowerChar c := by
  unfold upperChar
  split_ifs with hsmall
  · rw [(capital_small hsmall).2, lowerChar, if_neg (not_capital_of_small hsmall.1)]
  · rfl

/-- And the other way round. -/
theorem upperChar_lowerChar (c : Char) : upperChar (lowerChar c) = upperChar c := by
  rcases lowerChar_cases c with ⟨hcap, -⟩ | ⟨-, hsame⟩
  · have hall : ∀ n < 91, 'A'.toNat ≤ n →
        upperChar (lowerChar (Char.ofNat n)) = upperChar (Char.ofNat n) := by
      decide
    have hn := hall c.toNat (Nat.lt_succ_of_le hcap.2) hcap.1
    rwa [Char.ofNat_toNat] at hn
  · rw [hsame]

/-- What is no letter stays. -/
theorem upperChar_of_not_isLetter {c : Char} (h : ¬ IsLetter c) : upperChar c = c :=
  if_neg fun hsmall => h (.inr hsmall)

/-- A letter in capitals is no small letter, so it is not what `lowerChar` makes. -/
theorem upperChar_ne_lowerChar {c : Char} (h : IsLetter c) (d : Char) :
    upperChar c ≠ lowerChar d := by
  have hcap : 'A' ≤ upperChar c ∧ upperChar c ≤ 'Z' := by
    unfold upperChar
    split_ifs with hsmall
    · exact (capital_small hsmall).1
    · exact h.resolve_right hsmall
  intro heq
  rw [heq] at hcap
  rcases lowerChar_cases d with ⟨-, hsmall, -⟩ | ⟨hnot, hsame⟩
  · exact not_capital_of_small hsmall hcap
  · exact hnot (hsame ▸ hcap)

/-! ## Changes that keep the marks -/

/-- The characters with a meaning of their own. -/
def marks : List Char := [nul, '\n', ' ', '*', '"']

/-- The function changes no mark, and makes nothing else into a mark. -/
def KeepsMarks (f : Char → Char) : Prop := ∀ m ∈ marks, ∀ c, f c = m ↔ c = m

/-- The five marks. -/
theorem forall_marks {P : Char → Prop} (h : P nul ∧ P '\n' ∧ P ' ' ∧ P '*' ∧ P '"') :
    ∀ m ∈ marks, P m := by
  simpa [marks] using h

/-- Small letters keep the marks. -/
theorem keepsMarks_lowerChar : KeepsMarks lowerChar := by
  intro m hm c
  have hmark : ∀ m ∈ marks, ¬ ('a' ≤ m ∧ m ≤ 'z') ∧ lowerChar m = m ∧ ¬ ('A' ≤ m ∧ m ≤ 'Z') :=
    forall_marks (by decide)
  obtain ⟨hsmall, hsame, -⟩ := hmark m hm
  constructor
  · rintro rfl
    rcases lowerChar_cases c with ⟨-, hc⟩ | ⟨-, hc⟩
    · exact absurd hc hsmall
    · exact hc.symm
  · rintro rfl
    exact hsame

/-- So do capital letters. -/
theorem keepsMarks_upperChar : KeepsMarks upperChar := by
  intro m hm c
  have hmark : ∀ m ∈ marks, ¬ ('a' ≤ m ∧ m ≤ 'z') ∧ ¬ ('A' ≤ m ∧ m ≤ 'Z') :=
    forall_marks (by decide)
  obtain ⟨hsmall, hcap⟩ := hmark m hm
  unfold upperChar
  split_ifs with hc
  · constructor
    · rintro rfl
      exact absurd (capital_small hc).1 hcap
    · rintro rfl
      exact absurd hc hsmall
  · rfl

section keeps

variable {f : Char → Char} (hf : KeepsMarks f)

include hf

/-- The text up to the first NUL. -/
theorem text_map (cs : List Char) : text (cs.map f) = (text cs).map f := by
  unfold text
  rw [List.takeWhile_map]
  congr 2
  funext c
  simpa using hf nul (by decide) c

/-- A mark is where it was. -/
theorem dropWhile_map {m : Char} (hm : m ∈ marks) (cs : List Char) :
    (cs.map f).dropWhile (· ≠ m) = (cs.dropWhile (· ≠ m)).map f := by
  rw [List.dropWhile_map]
  congr 2
  funext c
  simpa using hf m hm c

/-- The text up to a mark. -/
theorem takeWhile_map {m : Char} (hm : m ∈ marks) (cs : List Char) :
    (cs.map f).takeWhile (· ≠ m) = (cs.takeWhile (· ≠ m)).map f := by
  rw [List.takeWhile_map]
  congr 2
  funext c
  simpa using hf m hm c

/-- The search for a mark. -/
theorem findSub_map {m : Char} (hm : m ∈ marks) (cs : List Char) :
    findSub [m] (cs.map f) = (findSub [m] cs).map (List.map f) := by
  induction cs with
  | nil => rfl
  | cons c cs ih =>
      have hc := hf m hm c
      rw [List.map_cons, findSub, findSub]
      by_cases hcm : c = m
      · rw [if_pos (by simp [List.isPrefixOf, hc.mpr hcm]), if_pos (by simp [List.isPrefixOf, hcm])]
        rfl
      · rw [if_neg (by simpa [List.isPrefixOf] using Ne.symm (hc.not.mpr hcm)),
          if_neg (by simpa [List.isPrefixOf] using Ne.symm hcm), ih]

/-- The pieces of a query. -/
theorem pieces_map (s : List Char) : pieces (s.map f) = (pieces s).map (List.map f) := by
  induction s using length_induction with
  | step s ih =>
      cases s with
      | nil => simp [pieces]
      | cons c cs =>
          have hdrop := dropWhile_map hf (m := ' ') (by decide) (c :: cs)
          have htake := takeWhile_map hf (m := ' ') (by decide) (c :: cs)
          have hsuffix := List.dropWhile_suffix (l := c :: cs) (· ≠ ' ')
          rw [List.map_cons] at hdrop htake ⊢
          rcases hcut : (c :: cs).dropWhile (· ≠ ' ') with _ | ⟨d, next⟩
          · rw [hcut] at hdrop
            rw [pieces_cons_of_nil hcut, pieces_cons_of_nil hdrop]
            rfl
          · rw [hcut] at hdrop hsuffix
            rw [pieces_cons_of_cons hcut, pieces_cons_of_cons hdrop, htake,
              ih next hsuffix.length_le]
            rfl

/-- The query is split at the same places. -/
theorem parse_map {s : List Char} (hexit : s ≠ "PA1EXIT".toList)
    (hexit' : s.map f ≠ "PA1EXIT".toList) :
    parse (s.map f) = (parse s).map fun p => (p.1, p.2.map (List.map f)) := by
  have hhead : (s.map f).head? ≠ some '"' ↔ s.head? ≠ some '"' := by
    cases s with
    | nil => simp
    | cons c cs => simpa using (hf '"' (by decide) c).not
  unfold parse
  rw [if_neg hexit, if_neg hexit', findSub_map hf (m := '*') (by decide),
    findSub_map hf (m := ' ') (by decide), List.length_map]
  by_cases hquote : s.head? ≠ some '"'
  · rw [if_pos hquote, if_pos (hhead.mpr hquote)]
    rcases findSub ['*'] s with _ | asterisk
    · rcases hblank : findSub [' '] s with _ | blank
      · rfl
      · simp [pieces_map hf]
    · simp
  · rw [if_neg hquote, if_neg fun h => hquote (hhead.mp h)]
    split_ifs
    · rfl
    · simp

/-! ## The file -/

/-- A read of the file counts the newlines at the same places. -/
theorem readChunk_map (file start : List Char) (st : ReadState) :
    readChunk (file.map f) (start.map f) st = readChunk file start st := by
  induction start using length_induction generalizing st with
  | step start ih =>
      cases start with
      | nil => rw [List.map_nil, readChunk, readChunk]
      | cons c cs =>
          have hdrop := dropWhile_map hf (m := '\n') (by decide) (c :: cs)
          have hsuffix := List.dropWhile_suffix (l := c :: cs) (· ≠ '\n')
          rw [List.map_cons] at hdrop ⊢
          rcases hcut : (c :: cs).dropWhile (· ≠ '\n') with _ | ⟨d, next⟩
          · rw [hcut] at hdrop
            rw [readChunk_cut hcut, readChunk_cut hdrop]
            simp
          · rw [hcut] at hdrop hsuffix
            have hsize : (f c :: cs.map f).length - (next.map f).length =
                (c :: cs).length - next.length := by simp
            rw [readChunk_insert hcut rfl, readChunk_insert hdrop hsize]
            congr 1
            funext p
            obtain ⟨heap, list⟩ := p
            exact ih next hsuffix.length_le _

/-- So the index is the same. -/
theorem readFile_map (file : List Char) (fuel : Nat) (st : ReadState) :
    readFile (file.map f) fuel st = readFile file fuel st := by
  induction fuel generalizing st with
  | zero => rfl
  | succ fuel ih =>
      have hchunk := readChunk_map hf file ((file.drop st.pos).take bufSize)
        { st with pos := st.pos + ((file.drop st.pos).take bufSize).length }
      rw [readFile, readFile, ← List.map_drop, ← List.map_take]
      simp only [List.map_eq_nil_iff, List.length_map, hchunk]
      split_ifs
      · rfl
      · congr 1
        funext st'
        exact ih st'

/-- The index of the file is the same. -/
theorem load_map (file : List Char) (fuel : Nat) : load (file.map f) fuel = load file fuel := by
  unfold load
  rw [readFile_map hf]

/-- The query without its newline. -/
theorem chomp_map (bytes : List Char) : chomp (bytes.map f) = (chomp bytes).map f := by
  unfold chomp
  have hlast : (bytes.map f).getLast? = some '\n' ↔ bytes.getLast? = some '\n' := by
    rcases List.eq_nil_or_concat' bytes with rfl | ⟨bs, b, rfl⟩
    · rfl
    · simpa using hf '\n' (by decide) b
  by_cases h : bytes.getLast? = some '\n'
  · rw [if_pos h, if_pos (hlast.mpr h), List.map_dropLast]
  · rw [if_neg h, if_neg fun h' => h (hlast.mp h')]

end keeps

/-! ## Two variants of a file, and of a query -/

section variants

variable {file file' : List Char}

/-- A text in small letters stays. -/
theorem map_lowerChar_idem (cs : List Char) : (cs.map lowerChar).map lowerChar = cs.map lowerChar := by
  rw [List.map_map]
  exact List.map_congr_left fun c _ => lowerChar_idem c

/-- Files that are the same but for the case of letters have one index. -/
theorem load_variant (h : Variant file file') (fuel : Nat) : load file fuel = load file' fuel := by
  rw [← load_map keepsMarks_lowerChar file, h, load_map keepsMarks_lowerChar]

/-- The text of a line is in small letters anyway. -/
theorem lineText_map (file : List Char) (e : Line) :
    lineText (file.map lowerChar) e = lineText file e := by
  unfold lineText
  rw [← List.map_drop, ← List.map_take, chomp_map keepsMarks_lowerChar,
    text_map keepsMarks_lowerChar, map_lowerChar_idem]

/-- The lines of the file are lower-cased, so they are the same. -/
theorem lineText_variant (h : Variant file file') (e : Line) :
    lineText file e = lineText file' e := by
  rw [← lineText_map file, h, lineText_map]

/-- The index of one is the index of the other. -/
theorem loaded_variant (h : Variant file file') {lines : List Line} {indexList : LinkedList Line}
    (hl : Loaded file lines indexList) : Loaded file' lines indexList := by
  have hlen : file.length = file'.length := by simpa using congrArg List.length h
  obtain ⟨hholds, fin, hcont, hle⟩ := hl
  exact ⟨hholds, fin, hcont, hle.trans_eq hlen⟩

end variants

end SystemProgrammingLab.Pa1
