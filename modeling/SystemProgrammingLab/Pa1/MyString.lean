import Mathlib.Data.List.TakeWhile
import Mathlib.Tactic.Common

/-!
# `mystring.c`

A `char *` is the memory it points to, from its target to the end of the object that the target
lies in: `*p` is the head of the list, `p + 1` its tail, and the difference of two pointers into
one object is the difference of their lengths. Reading or writing behind the end of an object is
`none`. A function that returns a `char *` which may be `NULL` returns an `Option` of it.

A string is a text without NUL, then a NUL, then whatever follows in the object:
`s ++ nul :: rest`. For each function a lemma says what it does on strings, in terms of their texts
alone (`stringlen_text`, `stringcmp_text`, `issubstring_text`, `nextWord_text`, `isincluded_text`,
..), so that nothing depends on the memory behind a NUL.

Source: `pa1/mystring.c`
-/

namespace SystemProgrammingLab.Pa1

/-- `'\0'` -/
abbrev nul : Char := '\x00'

/-- A string literal. -/
def cstr (s : String) : List Char := s.toList ++ [nul]

/-- Induction on what is left of an object: the pointers of the loops only move forward. -/
@[elab_as_elim]
theorem length_induction {motive : List Char → Prop}
    (step : ∀ s, (∀ t, t.length < s.length → motive t) → motive s) (s : List Char) : motive s :=
  (measure List.length).wf.induction s step

/-- A string does not start with a NUL. -/
theorem head_ne_nul {c : Char} {cs : List Char} (hs : nul ∉ c :: cs) : c ≠ nul := fun hc =>
  hs (hc ▸ List.mem_cons_self)

/-! ## The functions -/

/-- Source: `stringlen` -/
def stringlen : List Char → Option Nat
  | [] => none
  | c :: cs => if c = nul then some 0 else (stringlen cs).map (· + 1)

/-- Source: `stringcmp` -/
def stringcmp : List Char → List Char → Option Bool
  | a :: as, b :: bs =>
      if a ≠ nul ∧ b ≠ nul then
        if a ≠ b then some false else stringcmp as bs
      else some (decide (a = nul ∧ b = nul))
  | _, _ => none

/-- The loop `for (i = 0; i < n; i++) if (a[i] != b[i]) break;`: whether it ends with `i == n`. Source:
`issubstring`, `isincluded` -/
def sameBytes : Nat → List Char → List Char → Option Bool
  | 0, _, _ => some true
  | n + 1, a :: as, b :: bs => if a ≠ b then some false else sameBytes n as bs
  | _, _, _ => none

/-- One round of `issubstring` at `str`: the first characters are compared, then the loop runs. Source:
`issubstring` -/
def matchesAt (substr : List Char) (sublen : Nat) (str : List Char) : Option Bool :=
  match substr, str with
  | d :: _, c :: _ => if d = c then sameBytes sublen substr str else some false
  | _, _ => none

/-- The loop of `issubstring`, with `sublen` the length of `substr`. Source: `issubstring` -/
def issubstringFrom (substr : List Char) (sublen : Nat) : List Char → Option (Option (List Char))
  | [] => none
  | c :: cs =>
      if c = nul then some none
      else
        match matchesAt substr sublen (c :: cs) with
        | none => none
        | some true => some (some (c :: cs))
        | some false => issubstringFrom substr sublen cs

/-- Source: `issubstring` -/
def issubstring (substr str : List Char) : Option (Option (List Char)) := do
  let sublen ← stringlen substr
  issubstringFrom substr sublen str

/-- `while (!stop(*p)) p++;`. Source: `isincluded`, `nextWord` -/
def skipUntil (stop : Char → Bool) : List Char → Option (List Char)
  | [] => none
  | c :: cs => if stop c then some (c :: cs) else skipUntil stop cs

/-- A blank between words. -/
def isBlank (c : Char) : Bool := c == ' ' || c == '\t'

/-- Source: `nextWord` -/
def nextWord : List Char → Option (Option (List Char))
  | [] => none
  | c :: cs =>
      if c = nul then some none
      else do
        let str ← skipUntil (fun c => isBlank c || c == nul) (c :: cs)
        let str ← skipUntil (fun c => !isBlank c) str
        return some str

/-- A fresh object of `n` bytes, with contents that `malloc` does not define. -/
def malloc (fill : Nat → Char) (n : Nat) : List Char := (List.range n).map fill

/-- `dest[i] = source[i]` for `n` bytes, then a NUL. Source: `stringncpy` -/
def copyBytes : Nat → List Char → List Char → Option (List Char)
  | 0, _, _ :: ds => some (nul :: ds)
  | n + 1, c :: cs, _ :: ds => (copyBytes n cs ds).map (c :: ·)
  | _, _, _ => none

/-- The contents of `dest` afterwards. A negative `nbytes` copies nothing and writes the NUL in
front of `dest`. Source: `stringncpy` -/
def stringncpy (source dest : List Char) (nbytes : Int) : Option (List Char) :=
  if nbytes < 0 then none else copyBytes nbytes.toNat source dest

/-- Source: `stringcpy` -/
def stringcpy (source dest : List Char) : Option (List Char) := do
  let len ← stringlen source
  copyBytes len source dest

/-- The word at `start`, copied into a fresh object: from `start` to the next blank or the end. Source:
`isincluded` -/
def wordAt (fill : Nat → Char) (start : List Char) : Option (List Char) := do
  let stop ← skipUntil (fun c => isBlank c || c == nul) start
  let len := start.length - stop.length
  stringncpy start (malloc fill (len + 1)) len

/-- `'a' + c - 'A'` for the capital letters. Source: `toLowercase` -/
def lowerChar (c : Char) : Char :=
  if 'A' ≤ c ∧ c ≤ 'Z' then Char.ofNat ('a'.toNat + c.toNat - 'A'.toNat) else c

/-- Source: `toLowercase` -/
def toLowercase (str : List Char) : Option (List Char) := do
  let len ← stringlen str
  return (str.take len).map lowerChar ++ str.drop len

/-- A pointer moves forward only. -/
theorem skipUntil_suffix {stop : Char → Bool} {p q : List Char} (h : skipUntil stop p = some q) :
    q <:+ p := by
  induction p with
  | nil => cases h
  | cons c cs ih =>
      rw [skipUntil] at h
      split_ifs at h with hc
      · cases h
        exact List.suffix_rfl
      · exact (ih h).trans (List.suffix_cons c cs)

/-- The next word is behind the first character. -/
theorem nextWord_length_lt {c : Char} {cs next : List Char}
    (h : nextWord (c :: cs) = some (some next)) : next.length < (c :: cs).length := by
  by_cases hc : c = nul
  · rw [nextWord, if_pos hc] at h
    cases h
  rw [nextWord, if_neg hc] at h
  simp only [Option.bind_eq_bind, Option.bind_eq_some_iff, Option.pure_def, Option.some.injEq] at h
  obtain ⟨stop, hstop, next', hnext, rfl⟩ := h
  by_cases hblank : isBlank c = true
  · -- the word is empty, and the blanks are skipped
    have hfirst : stop = c :: cs := by
      rw [skipUntil, if_pos (by simp [hblank])] at hstop
      exact (Option.some.inj hstop).symm
    rw [hfirst, skipUntil, if_neg (by simp [hblank])] at hnext
    exact Nat.lt_succ_of_le (skipUntil_suffix hnext).length_le
  · rw [skipUntil, if_neg (by simp [hblank, hc])] at hstop
    have hle := (skipUntil_suffix hnext).length_le.trans (skipUntil_suffix hstop).length_le
    exact Nat.lt_succ_of_le hle

/-- Source: `isincluded` -/
def isincluded (fill : Nat → Char) (word : List Char) (start : List Char) :
    Option (Option (List Char)) :=
  match start with
  | [] => none
  | c :: cs =>
      if c = nul then some none
      else
        match (wordAt fill (c :: cs)).bind (stringcmp word) with
        | none => none
        | some true => some (some (c :: cs))
        | some false =>
            match h : nextWord (c :: cs) with
            | some (some next) =>
                have := nextWord_length_lt h
                isincluded fill word next
            | some none => none
            | none => none
termination_by start.length
decreasing_by exact this

/-- `p + 1`, for a pointer `p` into a string. -/
theorem length_tail_lt {pos str : List Char} (hsuffix : pos <:+ str) (hne : pos ≠ []) :
    pos.tail.length < str.length := by
  obtain ⟨c, cs, rfl⟩ := List.exists_cons_of_ne_nil hne
  exact hsuffix.length_le

/-- `nextWord` goes forward. -/
theorem nextWord_suffix {start next : List Char} (h : nextWord start = some (some next)) :
    next <:+ start := by
  cases start with
  | nil => cases h
  | cons c cs =>
      by_cases hc : c = nul
      · rw [nextWord, if_pos hc] at h
        cases h
      rw [nextWord, if_neg hc] at h
      simp only [Option.bind_eq_bind, Option.bind_eq_some_iff, Option.pure_def,
        Option.some.injEq] at h
      obtain ⟨stop, hstop, next', hnext, rfl⟩ := h
      exact (skipUntil_suffix hnext).trans (skipUntil_suffix hstop)

/-- A word is found at a place of the string, in front of its end. -/
theorem isincluded_suffix {fill : Nat → Char} {word start pos : List Char}
    (h : isincluded fill word start = some (some pos)) : pos <:+ start ∧ pos ≠ [] := by
  induction start using length_induction with
  | step start ih =>
      rw [isincluded.eq_def] at h
      cases start with
      | nil => cases h
      | cons c cs =>
          dsimp only at h
          by_cases hc : c = nul
          · rw [if_pos hc] at h
            cases h
          rw [if_neg hc] at h
          split at h
          · cases h
          · cases h
            exact ⟨List.suffix_rfl, List.cons_ne_nil c cs⟩
          · split at h
            · rename_i next hnext
              obtain ⟨hsuffix, hne⟩ := ih next (nextWord_length_lt hnext) h
              exact ⟨hsuffix.trans (nextWord_suffix hnext), hne⟩
            · cases h
            · cases h

/-! ## What the functions do on texts -/

section texts

variable {s rest : List Char}

/-- `stringlen` is the length of the text. -/
theorem stringlen_text (hs : nul ∉ s) : stringlen (s ++ nul :: rest) = some s.length := by
  induction s with
  | nil => rfl
  | cons c s ih =>
      rw [List.mem_cons, not_or] at hs
      rw [List.cons_append, stringlen, if_neg (Ne.symm hs.1), ih hs.2]
      rfl

/-- `stringcmp` compares the texts. -/
theorem stringcmp_text {t rest' : List Char} (hs : nul ∉ s) (ht : nul ∉ t) :
    stringcmp (s ++ nul :: rest) (t ++ nul :: rest') = some (decide (s = t)) := by
  induction s generalizing t with
  | nil =>
      cases t with
      | nil => rfl
      | cons d t =>
          rw [List.mem_cons, not_or] at ht
          simp [stringcmp, Ne.symm ht.1]
  | cons c s ih =>
      rw [List.mem_cons, not_or] at hs
      cases t with
      | nil => simp [stringcmp, Ne.symm hs.1]
      | cons d t =>
          rw [List.mem_cons, not_or] at ht
          rw [List.cons_append, List.cons_append, stringcmp,
            if_pos ⟨Ne.symm hs.1, Ne.symm ht.1⟩]
          by_cases hcd : c = d
          · rw [if_neg (not_not.mpr hcd), ih hs.2 ht.2]
            simp [hcd]
          · rw [if_pos hcd]
            simp [hcd]

/-- A search for a class of characters that contains NUL stops in the text or at its end. -/
theorem skipUntil_text {stop : Char → Bool} (hstop : stop nul = true) :
    skipUntil stop (s ++ nul :: rest) = some (s.dropWhile (fun c => !stop c) ++ nul :: rest) := by
  induction s with
  | nil =>
      rw [List.nil_append, skipUntil, if_pos hstop]
      rfl
  | cons c s ih =>
      rw [List.cons_append, skipUntil]
      by_cases hc : stop c = true
      · simp [hc]
      · rw [if_neg hc, ih]
        simp [hc]

/-- The text behind its first word and the blanks that follow it. -/
def afterWord (s : List Char) : List Char := (s.dropWhile fun c => !isBlank c).dropWhile isBlank

/-- In a text the end of a word is a blank. -/
theorem dropWhile_wordEnd (hs : nul ∉ s) :
    s.dropWhile (fun c => !(isBlank c || c == nul)) = s.dropWhile fun c => !isBlank c := by
  induction s with
  | nil => rfl
  | cons c s ih =>
      rw [List.mem_cons, not_or] at hs
      have hc : (c == nul) = false := beq_eq_false_iff_ne.mpr (Ne.symm hs.1)
      rw [List.dropWhile_cons, List.dropWhile_cons, hc, Bool.or_false, ih hs.2]

/-- To skip a word ends at its blank or at the NUL. -/
theorem skipUntil_wordEnd (hs : nul ∉ s) (rest : List Char) :
    skipUntil (fun c => isBlank c || c == nul) (s ++ nul :: rest) =
      some (s.dropWhile (fun c => !isBlank c) ++ nul :: rest) := by
  rw [skipUntil_text (by decide), dropWhile_wordEnd hs]

/-- `nextWord` is `afterWord` of the text. -/
theorem nextWord_text (hs : nul ∉ s) (hne : s ≠ []) :
    nextWord (s ++ nul :: rest) = some (some (afterWord s ++ nul :: rest)) := by
  obtain ⟨c, cs, rfl⟩ := List.exists_cons_of_ne_nil hne
  have hc : c ≠ nul := head_ne_nul hs
  have hword := skipUntil_wordEnd hs rest
  have hblank : skipUntil (fun c => !isBlank c)
      ((c :: cs).dropWhile (fun c => !isBlank c) ++ nul :: rest) = _ := skipUntil_text (by decide)
  rw [List.cons_append] at hword ⊢
  rw [nextWord, if_neg hc, hword]
  simp only [Option.bind_eq_bind, Option.bind_some, hblank, Bool.not_not, afterWord,
    Option.pure_def]

/-- What is behind a word is the end of the text. -/
theorem afterWord_suffix (s : List Char) : afterWord s <:+ s :=
  (List.dropWhile_suffix _).trans (List.dropWhile_suffix _)

/-- The word behind a text that is not empty is shorter than the text. -/
theorem afterWord_length_lt (hne : s ≠ []) : (afterWord s).length < s.length := by
  obtain ⟨c, cs, rfl⟩ := List.exists_cons_of_ne_nil hne
  unfold afterWord
  by_cases hc : isBlank c = true
  · have hlen := (List.dropWhile_suffix (l := cs) isBlank).length_le
    simpa [hc] using Nat.lt_succ_of_le hlen
  · have hlen := (afterWord_suffix cs).length_le
    unfold afterWord at hlen
    simpa [hc] using Nat.lt_succ_of_le hlen

/-! ### Copies -/

/-- The size of what `malloc` returns. -/
theorem length_malloc (fill : Nat → Char) (n : Nat) : (malloc fill n).length = n := by
  simp [malloc]

/-- A copy that has room for the bytes and a NUL. -/
theorem copyBytes_eq {n : Nat} : ∀ {source dest : List Char}, n ≤ source.length →
    dest.length = n + 1 → copyBytes n source dest = some (source.take n ++ [nul]) := by
  induction n with
  | zero =>
      intro source dest _ hdest
      obtain ⟨d, rfl⟩ := List.length_eq_one_iff.mp hdest
      simp [copyBytes]
  | succ n ih =>
      intro source dest hsource hdest
      cases source with
      | nil => simp at hsource
      | cons c cs =>
          cases dest with
          | nil => simp at hdest
          | cons d ds =>
              rw [copyBytes, ih (Nat.le_of_succ_le_succ hsource) (Nat.succ.inj hdest)]
              rfl

/-- A copy into an object of the right size holds the text and nothing else. -/
theorem stringncpy_malloc (fill : Nat → Char) {source : List Char} {n : Nat}
    (hn : n ≤ source.length) :
    stringncpy source (malloc fill (n + 1)) n = some (source.take n ++ [nul]) := by
  unfold stringncpy
  rw [if_neg (by omega), Int.toNat_natCast]
  exact copyBytes_eq hn (length_malloc fill (n + 1))

/-- `stringcpy` copies the text. -/
theorem stringcpy_text (fill : Nat → Char) (hs : nul ∉ s) :
    stringcpy (s ++ nul :: rest) (malloc fill (s.length + 1)) = some (s ++ [nul]) := by
  unfold stringcpy
  rw [stringlen_text hs, Option.bind_eq_bind, Option.bind_some,
    copyBytes_eq (by simp) (length_malloc fill _), List.take_left]

/-- The difference of two pointers into one string. -/
theorem length_sub_length (t : List Char) :
    (s ++ nul :: rest).length - (t ++ nul :: rest).length = s.length - t.length := by
  simp only [List.length_append]
  omega

/-- The copy of the bytes in front of a pointer into a string. -/
theorem stringncpy_before (fill : Nat → Char) {t : List Char} (hle : t.length ≤ s.length)
    (rest : List Char) :
    stringncpy (s ++ nul :: rest)
      (malloc fill ((s ++ nul :: rest).length - (t ++ nul :: rest).length + 1))
      ((s ++ nul :: rest).length - (t ++ nul :: rest).length : Nat) =
      some (s.take (s.length - t.length) ++ [nul]) := by
  have hsub : s.length - t.length ≤ (s ++ nul :: rest).length := by
    rw [List.length_append]
    omega
  rw [length_sub_length, stringncpy_malloc fill hsub,
    List.take_append_of_le_length (Nat.sub_le _ _)]

/-- What is in front of the first character that `p` is false of. -/
theorem take_length_sub_dropWhile (p : Char → Bool) :
    s.take (s.length - (s.dropWhile p).length) = s.takeWhile p := by
  have hsplit := List.takeWhile_append_dropWhile (p := p) (l := s)
  have hlen := congrArg List.length hsplit
  rw [List.length_append] at hlen
  have hpre : s.length - (s.dropWhile p).length = (s.takeWhile p).length := by omega
  rw [hpre]
  exact (List.prefix_iff_eq_take.mp (List.takeWhile_prefix p)).symm

/-- The word at a position goes to the next blank. -/
theorem wordAt_text (fill : Nat → Char) (hs : nul ∉ s) :
    wordAt fill (s ++ nul :: rest) = some (s.takeWhile (fun c => !isBlank c) ++ [nul]) := by
  have hle := (List.dropWhile_suffix (l := s) fun c => !isBlank c).length_le
  unfold wordAt
  rw [skipUntil_wordEnd hs, Option.bind_eq_bind, Option.bind_some, ← take_length_sub_dropWhile]
  exact stringncpy_before fill hle rest

/-! ### Searches -/

/-- The bytes are the same if the text starts with them. -/
theorem sameBytes_text {t : List Char} (hs : nul ∉ s) (ht : nul ∉ t) {rest' : List Char} :
    sameBytes t.length (t ++ rest') (s ++ nul :: rest) = some (t.isPrefixOf s) := by
  induction t generalizing s with
  | nil => rfl
  | cons d t ih =>
      rw [List.mem_cons, not_or] at ht
      cases s with
      | nil =>
          rw [List.length_cons, List.cons_append, List.nil_append, sameBytes,
            if_pos (Ne.symm ht.1)]
          rfl
      | cons c s =>
          rw [List.mem_cons, not_or] at hs
          rw [List.length_cons, List.cons_append, List.cons_append, sameBytes, ih hs.2 ht.2]
          by_cases hdc : d = c <;> simp [hdc, List.isPrefixOf]

/-- The first occurrence of a text that is not empty. -/
def findSub (sub : List Char) : List Char → Option (List Char)
  | [] => none
  | c :: cs => if sub ≠ [] ∧ sub.isPrefixOf (c :: cs) then some (c :: cs) else findSub sub cs

/-- A text is found at a place of the other, in front of its end. -/
theorem findSub_suffix {sub pos : List Char} (h : findSub sub s = some pos) :
    pos <:+ s ∧ pos ≠ [] ∧ sub <+: pos := by
  induction s with
  | nil => cases h
  | cons c s ih =>
      rw [findSub] at h
      split_ifs at h with hfound
      · cases h
        exact ⟨List.suffix_rfl, List.cons_ne_nil c s, List.isPrefixOf_iff_prefix.mp hfound.2⟩
      · obtain ⟨hsuffix, hrest⟩ := ih h
        exact ⟨hsuffix.trans (List.suffix_cons c s), hrest⟩

/-- A match at a position: the text starts with the substring, which is not empty. -/
theorem matchesAt_text {sub rest' : List Char} {c : Char} (hsub : nul ∉ sub)
    (hs : nul ∉ c :: s) :
    matchesAt (sub ++ nul :: rest') sub.length (c :: s ++ nul :: rest) =
      some (decide (sub ≠ []) && sub.isPrefixOf (c :: s)) := by
  have hsame : sameBytes sub.length (sub ++ nul :: rest') (c :: s ++ nul :: rest) = _ :=
    sameBytes_text hs hsub
  rw [List.cons_append] at hsame ⊢
  cases sub with
  | nil =>
      have hc : nul ≠ c := (head_ne_nul hs).symm
      rw [List.nil_append, matchesAt, if_neg hc]
      rfl
  | cons d sub =>
      rw [List.cons_append] at hsame ⊢
      rw [matchesAt]
      by_cases hdc : d = c
      · rw [if_pos hdc, hsame]
        simp
      · rw [if_neg hdc]
        simp [List.isPrefixOf, hdc]

/-- `issubstring` is `findSub` of the text. -/
theorem issubstring_text {sub rest' : List Char} (hsub : nul ∉ sub) (hs : nul ∉ s) :
    issubstring (sub ++ nul :: rest') (s ++ nul :: rest) =
      some ((findSub sub s).map (· ++ nul :: rest)) := by
  unfold issubstring
  rw [stringlen_text hsub, Option.bind_eq_bind, Option.bind_some]
  induction s with
  | nil =>
      rw [List.nil_append, issubstringFrom, if_pos rfl]
      rfl
  | cons c s ih =>
      have hc : c ≠ nul := head_ne_nul hs
      have hmatch : matchesAt (sub ++ nul :: rest') sub.length (c :: s ++ nul :: rest) = _ :=
        matchesAt_text hsub hs
      rw [List.cons_append] at hmatch ⊢
      rw [issubstringFrom, if_neg hc, hmatch, findSub]
      by_cases hfound : sub ≠ [] ∧ sub.isPrefixOf (c :: s) = true
      · simp [hfound]
      · rw [if_neg hfound, ← ih fun h => hs (List.mem_cons_of_mem c h)]
        have hfalse : (decide (sub ≠ []) && sub.isPrefixOf (c :: s)) = false := by
          rw [Bool.eq_false_iff, ne_eq, Bool.and_eq_true, decide_eq_true_eq]
          exact hfound
        rw [hfalse]

/-- The first word of a text that equals `word`: the text from there on. -/
def findWord (word s : List Char) : Option (List Char) :=
  match s with
  | [] => none
  | c :: cs =>
      if (c :: cs).takeWhile (fun c => !isBlank c) = word then some (c :: cs)
      else
        have := afterWord_length_lt (List.cons_ne_nil c cs)
        findWord word (afterWord (c :: cs))
termination_by s.length
decreasing_by exact this

/-- A word is found at the end of the text, and not behind it. -/
theorem findWord_suffix {word pos : List Char} (h : findWord word s = some pos) :
    pos <:+ s ∧ pos ≠ [] := by
  induction s using findWord.induct word with
  | case1 =>
      rw [findWord] at h
      cases h
  | case2 c cs hfound =>
      rw [findWord, if_pos hfound] at h
      cases h
      exact ⟨List.suffix_rfl, List.cons_ne_nil c cs⟩
  | case3 c cs hnot _ ih =>
      rw [findWord, if_neg hnot] at h
      exact ⟨(ih h).1.trans (afterWord_suffix _), (ih h).2⟩

/-- `isincluded` is `findWord` of the text. -/
theorem isincluded_text (fill : Nat → Char) {word rest' : List Char} (hword : nul ∉ word)
    (hs : nul ∉ s) :
    isincluded fill (word ++ nul :: rest') (s ++ nul :: rest) =
      some ((findWord word s).map (· ++ nul :: rest)) := by
  have hcopy : ∀ s : List Char, nul ∉ s →
      (wordAt fill (s ++ nul :: rest)).bind (stringcmp (word ++ nul :: rest')) =
        some (decide (word = s.takeWhile fun c => !isBlank c)) := by
    intro s hs
    rw [wordAt_text fill hs, Option.bind_some]
    exact stringcmp_text hword fun h => hs ((List.takeWhile_prefix _).subset h)
  induction s using findWord.induct word with
  | case1 =>
      rw [List.nil_append, isincluded.eq_def]
      simp [findWord]
  | case2 c cs hfound =>
      have hc : c ≠ nul := head_ne_nul hs
      have hcopy := hcopy (c :: cs) hs
      rw [decide_eq_true hfound.symm, List.cons_append] at hcopy
      rw [List.cons_append, isincluded.eq_def, findWord, if_pos hfound]
      simp only [if_neg hc, hcopy, Option.map_some, List.cons_append]
  | case3 c cs hnot _ ih =>
      have hc : c ≠ nul := head_ne_nul hs
      have hcopy := hcopy (c :: cs) hs
      have hnext : nextWord (c :: cs ++ nul :: rest) = _ :=
        nextWord_text hs (List.cons_ne_nil c cs)
      rw [decide_eq_false (Ne.symm hnot), List.cons_append] at hcopy
      rw [List.cons_append] at hnext
      rw [List.cons_append, isincluded.eq_def, findWord, if_neg hnot]
      simp only [if_neg hc, hcopy]
      rw [← ih fun h => hs ((afterWord_suffix _).subset h)]
      split
      · rename_i next hnext'
        rw [hnext, Option.some.injEq, Option.some.injEq] at hnext'
        rw [hnext']
      · rename_i hnext'
        rw [hnext] at hnext'
        cases hnext'
      · rename_i hnext'
        rw [hnext] at hnext'
        cases hnext'

/-! ### The text of an object -/

/-- What stands before the first NUL. -/
def text (cs : List Char) : List Char := cs.takeWhile (· ≠ nul)

/-- A text has no NUL. -/
theorem nul_notMem_text (cs : List Char) : nul ∉ text cs := by
  intro h
  simpa using List.mem_takeWhile_imp h

/-- Without a NUL all of it is the text. -/
theorem text_of_notMem {cs : List Char} (h : nul ∉ cs) : text cs = cs :=
  List.takeWhile_eq_self_iff.mpr fun _ hc => decide_eq_true fun hd => h (hd ▸ hc)

/-- Bytes with a NUL behind them are a string. -/
theorem exists_eq_text (cs rest : List Char) :
    ∃ rest', cs ++ nul :: rest = text cs ++ nul :: rest' := by
  induction cs with
  | nil => exact ⟨rest, rfl⟩
  | cons c cs ih =>
      unfold text at ih ⊢
      rw [List.takeWhile_cons]
      by_cases hc : c = nul
      · exact ⟨cs ++ nul :: rest, by simp [hc]⟩
      · obtain ⟨rest', ih⟩ := ih
        exact ⟨rest', by simp [hc, ih]⟩

/-- No character is made a NUL. -/
theorem lowerChar_ne_nul {c : Char} (hc : c ≠ nul) : lowerChar c ≠ nul := by
  unfold lowerChar
  split_ifs with hcap
  · have hletter : ∀ n < 91, 'A'.toNat ≤ n → Char.ofNat ('a'.toNat + n - 'A'.toNat) ≠ nul := by
      decide
    exact hletter c.toNat (Nat.lt_succ_of_le hcap.2) hcap.1
  · exact hc

/-- `toLowercase` makes the letters of the text small. -/
theorem toLowercase_text (hs : nul ∉ s) :
    toLowercase (s ++ nul :: rest) = some (s.map lowerChar ++ nul :: rest) := by
  unfold toLowercase
  rw [stringlen_text hs, Option.bind_eq_bind, Option.bind_some, List.take_left, List.drop_left]
  rfl

end texts

end SystemProgrammingLab.Pa1
