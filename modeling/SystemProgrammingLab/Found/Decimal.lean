import Mathlib.Algebra.Group.Int.Defs
import Mathlib.Algebra.Group.Nat.Defs
import Mathlib.Data.List.Basic
import Mathlib.Data.List.TakeWhile
import Mathlib.Tactic.Common

/-!
# Decimal text: `%d`, `strtol` and `%d` of `sscanf`

C strings are lists of characters without the terminator. `decimal n` is the text `printf`
writes for a non-negative number, `showInt` the text of `%d`, and `strtol` reads a number back:
it skips white space, takes an optional sign and the longest run of digits, and clamps the value
to `long`. The round trip is `strtol_decimal`: reading back the text of a number, followed by
anything that does not start with a digit, gives the number.

A `Numeral` is a number as it can be read. What is read starts with one (`exists_numeral`), its value is
what is read (`Numeral.scanLong_append`), and there is no other one (`Numeral.append_inj`).
-/

namespace SystemProgrammingLab.Found

/-! ## Writing numbers -/

/-- The decimal digits of `n`, most significant first; `0` for zero. -/
def decimal (n : Nat) : List Char := Nat.toDigits 10 n

/-- The text of `%d`. -/
def showInt (n : Int) : List Char :=
  if n < 0 then '-' :: decimal n.natAbs else decimal n.natAbs

/-- `snprintf(buf, size, ..)` keeps at most `size - 1` characters of the text. -/
def snprintf (size : Nat) (text : List Char) : List Char := text.take (size - 1)

/-- `%d` of a number that is not negative. -/
@[simp] theorem showInt_natCast (n : Nat) : showInt n = decimal n := by
  simp [showInt]

/-- A number has a digit. -/
theorem decimal_ne_nil (n : Nat) : decimal n ≠ [] := Nat.toDigits_ne_nil

/-- It has nothing else. -/
theorem isDigit_of_mem_decimal {n : Nat} {c : Char} (h : c ∈ decimal n) : c.isDigit :=
  Nat.isDigit_of_mem_toDigits (by omega) (by omega) h

/-- A number has at most `k` digits exactly when it is below the power of ten. -/
theorem length_decimal_le {n k : Nat} (hk : 0 < k) : (decimal n).length ≤ k ↔ n < 10 ^ k :=
  Nat.length_toDigits_le_iff (by omega) hk

/-! ## Reading numbers -/

/-- `isspace` in the C locale. -/
def isSpace (c : Char) : Bool :=
  c == ' ' || c == '\t' || c == '\n' || c == '\x0b' || c == '\x0c' || c == '\r'

/-- The value of a run of digits. -/
def digitsValue (ds : List Char) : Nat := Nat.ofDigitChars 10 ds 0

/-- Clamp to the range of `long`. -/
def clampLong (n : Int) : Int := max (-2 ^ 63) (min n (2 ^ 63 - 1))

/-- Conversion of a `long` to `int`. -/
def toInt (n : Int) : Int := (n + 2 ^ 31) % 2 ^ 32 - 2 ^ 31

/-- An optional sign and the text after it. -/
def splitSign : List Char → Bool × List Char
  | '-' :: s => (true, s)
  | '+' :: s => (false, s)
  | s => (false, s)

/-- Read a number and return the rest of the text; `none` when there is no digit. -/
def scanLong (s : List Char) : Option (Int × List Char) :=
  let (neg, s) := splitSign (s.dropWhile isSpace)
  let ds := s.takeWhile Char.isDigit
  if ds = [] then none
  else some (clampLong (if neg then -(digitsValue ds : Int) else digitsValue ds),
    s.dropWhile Char.isDigit)

/-- `strtol(s, NULL, 10)`: `0` when there is no number. -/
def strtol (s : List Char) : Int := (scanLong s).elim 0 Prod.fst

/-! ## Numerals -/

/-- A digit is no space. -/
theorem isSpace_of_isDigit {c : Char} (h : c.isDigit) : isSpace c = false := by
  by_contra hs
  simp only [isSpace, Bool.or_eq_true, beq_iff_eq, Bool.not_eq_false] at hs
  rcases hs with ((((rfl | rfl) | rfl) | rfl) | rfl) | rfl <;> exact absurd h (by decide)

/-- A digit is no sign. -/
theorem splitSign_of_isDigit {c : Char} (cs : List Char) (h : c.isDigit) :
    splitSign (c :: cs) = (false, c :: cs) := by
  unfold splitSign
  split
  · rename_i heq
    cases heq
    exact absurd h (by decide)
  · rename_i heq
    cases heq
    exact absurd h (by decide)
  · rfl

/-- A run of characters is taken whole, up to the first one of another kind. -/
theorem takeWhile_append_stop {p : Char → Bool} {ds s : List Char} (hd : ∀ c ∈ ds, p c)
    (hs : ∀ c ∈ s.head?, p c = false) : (ds ++ s).takeWhile p = ds ∧ (ds ++ s).dropWhile p = s := by
  have hs' : s.takeWhile p = [] ∧ s.dropWhile p = s := by
    cases s with
    | nil => simp
    | cons c cs => simp [hs c (by simp)]
  rw [List.takeWhile_append_of_pos hd, List.dropWhile_append_of_pos hd, hs'.1, hs'.2]
  simp

/-- A number as it is written: white space, a sign and digits. -/
structure Numeral where
  blanks : List Char
  sign : List Char
  digits : List Char
  isSpace_blanks : ∀ c ∈ blanks, isSpace c
  sign_cases : sign = [] ∨ sign = ['-'] ∨ sign = ['+']
  digits_ne_nil : digits ≠ []
  isDigit_digits : ∀ c ∈ digits, c.isDigit

namespace Numeral

variable (n : Numeral) {m : Numeral} {s t : List Char}

/-- The number as it is written. -/
def text : List Char := n.blanks ++ (n.sign ++ n.digits)

/-- The number that is meant. -/
def value : Int := if n.sign = ['-'] then -(digitsValue n.digits : Int) else digitsValue n.digits

/-- The parts of a number in front of a text. -/
theorem text_append (s : List Char) : n.text ++ s = n.blanks ++ (n.sign ++ (n.digits ++ s)) := by
  simp [text]

/-- A written number is not empty. -/
theorem text_ne_nil : n.text ≠ [] := by simp [text, n.digits_ne_nil]

/-- A number ends in a digit. -/
theorem isDigit_getLast {c : Char} (h : n.text.getLast? = some c) : c.isDigit := by
  rw [text, ← List.append_assoc, List.getLast?_append_of_ne_nil _ n.digits_ne_nil] at h
  exact n.isDigit_digits c (List.mem_of_getLast? h)

/-- It has no NUL. -/
theorem nul_notMem_text : '\x00' ∉ n.text := by
  rw [text, List.mem_append, List.mem_append, not_or, not_or]
  refine ⟨fun h => absurd (n.isSpace_blanks _ h) (by decide), fun h => ?_,
    fun h => absurd (n.isDigit_digits _ h) (by decide)⟩
  rcases n.sign_cases with hsign | hsign | hsign <;> rw [hsign] at h <;> revert h <;> decide

/-- The first character behind the white space is a sign or a digit. -/
theorem exists_sign_append (s : List Char) : ∃ c cs, n.sign ++ (n.digits ++ s) = c :: cs ∧ isSpace c = false := by
  obtain ⟨d, ds, hd⟩ := List.exists_cons_of_ne_nil n.digits_ne_nil
  rcases n.sign_cases with hsign | hsign | hsign
  · have hdigit := n.isDigit_digits d (by rw [hd]; exact List.mem_cons_self)
    exact ⟨d, ds ++ s, by rw [hsign, hd]; rfl, isSpace_of_isDigit hdigit⟩
  · exact ⟨'-', n.digits ++ s, by rw [hsign]; rfl, rfl⟩
  · exact ⟨'+', n.digits ++ s, by rw [hsign]; rfl, rfl⟩

/-- The spaces in front of a number are skipped. -/
theorem takeWhile_isSpace (s : List Char) : (n.text ++ s).takeWhile isSpace = n.blanks ∧
    (n.text ++ s).dropWhile isSpace = n.sign ++ (n.digits ++ s) := by
  rw [text_append]
  apply takeWhile_append_stop n.isSpace_blanks
  intro c hc
  obtain ⟨d, ds, heq, hd⟩ := n.exists_sign_append s
  rw [heq] at hc
  obtain rfl := Option.some.inj hc
  exact hd

/-- The sign of a number is read. -/
theorem splitSign_append (s : List Char) :
    splitSign (n.sign ++ (n.digits ++ s)) = (decide (n.sign = ['-']), n.digits ++ s) := by
  obtain ⟨d, ds, hd⟩ := List.exists_cons_of_ne_nil n.digits_ne_nil
  rcases n.sign_cases with hsign | hsign | hsign <;> rw [hsign]
  · rw [hd]
    exact splitSign_of_isDigit _ (n.isDigit_digits d (by rw [hd]; exact List.mem_cons_self))
  · rfl
  · rfl

/-- A number is read up to the first character that is no digit. -/
theorem scanLong_append (hs : ∀ c ∈ s.head?, c.isDigit = false) :
    scanLong (n.text ++ s) = some (clampLong n.value, s) := by
  obtain ⟨htake, hdrop⟩ := takeWhile_append_stop n.isDigit_digits hs
  unfold scanLong value
  simp only [(n.takeWhile_isSpace s).2, n.splitSign_append, htake, hdrop, if_neg n.digits_ne_nil,
    decide_eq_true_eq]

/-- There is one way only to write a text as a number and a rest. -/
theorem append_inj (hs : ∀ c ∈ s.head?, c.isDigit = false) (ht : ∀ c ∈ t.head?, c.isDigit = false)
    (h : n.text ++ s = m.text ++ t) : n = m ∧ s = t := by
  obtain ⟨hblanks, hbehind⟩ := n.takeWhile_isSpace s
  rw [h] at hblanks hbehind
  rw [(m.takeWhile_isSpace t).1] at hblanks
  rw [(m.takeWhile_isSpace t).2] at hbehind
  have hsplit := n.splitSign_append s
  rw [← hbehind, m.splitSign_append] at hsplit
  have hdigits : n.digits ++ s = m.digits ++ t := (Prod.mk.inj hsplit).2.symm
  rw [hdigits] at hbehind
  have hsign : m.sign = n.sign := List.append_cancel_right hbehind
  have htake := takeWhile_append_stop n.isDigit_digits hs
  rw [hdigits] at htake
  have htake' := takeWhile_append_stop m.isDigit_digits ht
  have hds : n.digits = m.digits := htake.1.symm.trans htake'.1
  refine ⟨?_, htake.2.symm.trans htake'.2⟩
  cases n
  cases m
  simp only at hblanks hsign hds
  subst hblanks hsign hds
  rfl

end Numeral

/-- Every text starts with a sign, if an empty one counts. -/
theorem exists_sign (s : List Char) : ∃ sign, (sign = [] ∨ sign = ['-'] ∨ sign = ['+']) ∧
    s = sign ++ (splitSign s).2 ∧ (splitSign s).1 = decide (sign = ['-']) := by
  unfold splitSign
  split
  · exact ⟨['-'], .inr (.inl rfl), rfl, rfl⟩
  · exact ⟨['+'], .inr (.inr rfl), rfl, rfl⟩
  · exact ⟨[], .inl rfl, rfl, rfl⟩

/-- What is read starts with a numeral. -/
theorem exists_numeral {s rest : List Char} {v : Int} (h : scanLong s = some (v, rest)) :
    ∃ n : Numeral, s = n.text ++ rest ∧ (∀ c ∈ rest.head?, c.isDigit = false) ∧ v = clampLong n.value := by
  obtain ⟨sign, hcases, hsign, hneg⟩ := exists_sign (s.dropWhile isSpace)
  have hblanks := List.takeWhile_append_dropWhile (p := isSpace) (l := s)
  have hdigits := List.takeWhile_append_dropWhile (p := Char.isDigit) (l := (splitSign (s.dropWhile isSpace)).2)
  have hstop := List.head?_dropWhile_not Char.isDigit (splitSign (s.dropWhile isSpace)).2
  simp only [scanLong] at h
  by_cases hnil : (splitSign (s.dropWhile isSpace)).2.takeWhile Char.isDigit = []
  · rw [if_pos hnil] at h
    cases h
  rw [if_neg hnil] at h
  obtain ⟨hv, hrest⟩ := Prod.mk.inj (Option.some.inj h)
  rw [hrest] at hdigits hstop
  refine ⟨⟨s.takeWhile isSpace, sign, _, fun _ hc => List.mem_takeWhile_imp hc, hcases, hnil,
    fun _ hc => List.mem_takeWhile_imp hc⟩, ?_, ?_, ?_⟩
  · rw [Numeral.text_append, hdigits, ← hsign, hblanks]
  · intro c hc
    rw [Option.mem_def] at hc
    rw [hc] at hstop
    simpa using hstop
  · rw [← hv, Numeral.value, hneg]
    simp only [decide_eq_true_eq]

/-! ## The round trip -/

/-- The digits of a number have its value. -/
@[simp] theorem digitsValue_decimal (n : Nat) : digitsValue (decimal n) = n :=
  Nat.ofDigitChars_ten_toDigits

/-- The text of a number, without a sign. -/
def decimalNumeral (n : Nat) : Numeral where
  blanks := []
  sign := []
  digits := decimal n
  isSpace_blanks := by simp
  sign_cases := .inl rfl
  digits_ne_nil := decimal_ne_nil n
  isDigit_digits := fun _ hc => isDigit_of_mem_decimal hc

/-- Reading the text of a number, followed by `s`, returns the number and `s`. -/
theorem scanLong_decimal (n : Nat) (hn : n < 2 ^ 63) {s : List Char}
    (hs : ∀ c ∈ s.head?, c.isDigit = false) :
    scanLong (decimal n ++ s) = some ((n : Int), s) := by
  have hscan : scanLong (decimal n ++ s) = some (clampLong (digitsValue (decimal n)), s) :=
    (decimalNumeral n).scanLong_append hs
  have hclamp : clampLong (n : Int) = n := by
    unfold clampLong
    omega
  rw [hscan, digitsValue_decimal, hclamp]

/-- `strtol` reads a number that was printed. -/
theorem strtol_decimal (n : Nat) (hn : n < 2 ^ 63) {s : List Char}
    (hs : ∀ c ∈ s.head?, c.isDigit = false) : strtol (decimal n ++ s) = n := by
  unfold strtol
  rw [scanLong_decimal n hn hs]
  rfl

/-- A small number fits into an `int`. -/
@[simp] theorem toInt_natCast {n : Nat} (h : n < 2 ^ 31) : toInt n = n := by
  unfold toInt
  omega

end SystemProgrammingLab.Found
