import SystemProgrammingLab.Pa1.Input

/-!
# How a query is split

For a line that is read whole, `resolve_input` takes the mode from the line and splits it without loss:
the words of the list give the line back (`resolveInput_exact`), whatever the list held before.

An access outside of a buffer is undefined. The buffer of the query is written at `nbytes - 1`, which is
in front of it if the read returns no bytes, and a copy of -1 bytes, made for a query that is a single
double quote, ends with a NUL in front of its object. These are the only accesses outside of the buffer
of the query and of the fresh objects (`resolveInput_defined_iff`).

Source: `pa1/main.c`, `pa1/mystring.c`, `pa1/linkedListStr.c`
-/

namespace SystemProgrammingLab.Pa1

open SystemProgrammingLab.Found

/-! ## What the words of a line are -/

/-- The mode of a line, and its words: a phrase without its double quotes, what is in front of the first
asterisk and what is behind it, the pieces between spaces, or the whole line. -/
def Classified (s : List Char) (mode : Mode) (words : List (List Char)) : Prop :=
  if s.head? = some '"' then mode = .cword ∧ words = [s.tail.dropLast]
  else if '*' ∈ s then
    mode = .regexp ∧ ∃ word1 word2, words = [word1, word2] ∧ word1 ++ '*' :: word2 = s ∧ '*' ∉ word1
  else if ' ' ∈ s then
    mode = .mword ∧ (∀ w ∈ words, ' ' ∉ w) ∧
      ([' '].intercalate words = s ∨ [' '].intercalate words ++ [' '] = s)
  else mode = .sword ∧ words = [s]

section words

variable {s : List Char} {c : Char}

/-- The first place of a character. -/
theorem findSub_singleton (c : Char) (s : List Char) : findSub [c] s =
    if c ∈ s then some (s.dropWhile (· ≠ c)) else none := by
  induction s with
  | nil => rfl
  | cons d s ih =>
      rw [findSub]
      by_cases hd : c = d
      · simp [hd]
      · have hnot : ¬ ([c] ≠ [] ∧ [c].isPrefixOf (d :: s) = true) := by simp [List.isPrefixOf, hd]
        rw [if_neg hnot, ih, List.dropWhile_cons_of_pos (by simpa using Ne.symm hd)]
        simp [hd]

/-- A piece has no blank. -/
theorem notMem_of_mem_pieces {w : List Char} (h : w ∈ pieces s) : ' ' ∉ w := by
  induction s using pieces_induction with
  | nil => simp [pieces] at h
  | last w' hne hw' =>
      rw [pieces_of_notMem hne hw', List.mem_singleton] at h
      rwa [h]
  | space w' next hw' ih =>
      rw [pieces_append hw', List.mem_cons] at h
      rcases h with rfl | h
      · exact hw'
      · exact ih h

/-- Only the empty query has no pieces. -/
theorem pieces_eq_nil_iff : pieces s = [] ↔ s = [] := by
  rcases s with _ | ⟨c, cs⟩
  · simp [pieces]
  · rw [pieces]
    exact iff_of_false (List.cons_ne_nil _ _) (List.cons_ne_nil c cs)

/-- The pieces with spaces between them are the text, or all of it but a space at its end. -/
theorem intercalate_pieces (s : List Char) :
    [' '].intercalate (pieces s) = s ∨ [' '].intercalate (pieces s) ++ [' '] = s := by
  induction s using pieces_induction with
  | nil => simp [pieces]
  | last w hne hw =>
      rw [pieces_of_notMem hne hw, List.intercalate_singleton]
      exact .inl rfl
  | space w next hw ih =>
      rw [pieces_append hw]
      by_cases hnext : next = []
      · subst hnext
        rw [pieces_eq_nil_iff.mpr rfl, List.intercalate_singleton]
        exact .inr rfl
      · rw [List.intercalate_cons_of_ne_nil (pieces_eq_nil_iff.not.mpr hnext)]
        simpa using ih

/-- The words of a parsed line are those that its form asks for. -/
theorem parse_classified (hexit : s ≠ "PA1EXIT".toList) (hquote : s.head? = some '"' → 2 ≤ s.length) :
    ∃ mode words, parse s = some (mode, words) ∧ Classified s mode words := by
  unfold parse
  rw [if_neg hexit]
  by_cases hhead : s.head? = some '"'
  · rw [if_neg (not_not.mpr hhead), if_neg (Nat.not_lt.mpr (hquote hhead))]
    refine ⟨_, _, rfl, ?_⟩
    rw [Classified, if_pos hhead]
    exact ⟨rfl, rfl⟩
  rw [if_pos hhead, findSub_singleton, findSub_singleton]
  by_cases hstar : '*' ∈ s
  · rw [if_pos hstar]
    refine ⟨_, _, rfl, ?_⟩
    rw [Classified, if_neg hhead, if_pos hstar]
    obtain ⟨word1, word2, rfl, hword1⟩ := List.eq_append_cons_of_mem hstar
    refine ⟨rfl, word1, word2, ?_, rfl, hword1⟩
    rw [dropWhile_ne_append hword1]
    simp
  rw [if_neg hstar]
  by_cases hspace : ' ' ∈ s
  · rw [if_pos hspace]
    refine ⟨_, _, rfl, ?_⟩
    rw [Classified, if_neg hhead, if_neg hstar, if_pos hspace]
    exact ⟨rfl, fun w hw => notMem_of_mem_pieces hw, intercalate_pieces s⟩
  · rw [if_neg hspace]
    refine ⟨_, _, rfl, ?_⟩
    rw [Classified, if_neg hhead, if_neg hstar, if_neg hspace]
    exact ⟨rfl, rfl⟩

/-- A single double quote is the only text that is not parsed. -/
theorem parse_eq_none_iff : parse s = none ↔ s = ['"'] := by
  constructor
  · intro h
    by_contra hne
    by_cases hexit : s = "PA1EXIT".toList
    · rw [parse, if_pos hexit] at h
      cases h
    · have hquote : s.head? = some '"' → 2 ≤ s.length := by
        intro hhead
        obtain ⟨cs, rfl⟩ := List.head?_eq_some_iff.mp hhead
        have hcs : cs ≠ [] := fun hcs => hne (by rw [hcs])
        exact Nat.succ_le_succ (List.length_pos_iff.mpr hcs)
      obtain ⟨mode, words, hparse, -⟩ := parse_classified hexit hquote
      rw [hparse] at h
      cases h
  · rintro rfl
    decide

end words

/-! ## The results of `resolve_input` -/

section resolve

variable {l : InputList} {ws : List Word} {s : List Char}

/-- **A line is classified and split without loss.** The list holds the words of the line, numbered from 1
on, and nothing else, whatever it held before. -/
theorem resolveInput_exact (hl : l.Holds ws) (hnul : nul ∉ s) (hexit : s ≠ "PA1EXIT".toList)
    (hquote : s.head? = some '"' → 2 ≤ s.length)
    (hlen : 0 < (s ++ ['\n']).length ∧ (s ++ ['\n']).length ≤ bufSize)
    (stale : Fin bufSize → Char) (fill : Nat → Char) :
    ∃ mode l' words, resolveInput stale fill (.data (s ++ ['\n']) hlen) l = some (mode, l') ∧
      l'.Holds (numbered 0 words) ∧ l'.list.num = words.length ∧ Classified s mode words := by
  obtain ⟨mode, words, hparse, hclass⟩ := parse_classified hexit hquote
  have hresolve := resolveInput_eq stale fill (.data (s ++ ['\n']) hlen) hl
  have hne : ReadResult.bytes (.data (s ++ ['\n']) hlen) ≠ [] := by simp [ReadResult.bytes]
  rw [if_neg hne, ReadResult.bytes, List.dropLast_concat, text_of_notMem hnul, hparse] at hresolve
  obtain ⟨l', hrun, hl'⟩ := hresolve
  exact ⟨mode, l', words, hrun, hl', by rw [hl'.num, length_numbered], hclass⟩

/-- A query with blanks at its start, between its words and at its end. -/
theorem resolveInput_exact_spaces : ∃ mode l' words,
    resolveInput (fun _ => 'x') (fun _ => 'y') (.data (" a  b ".toList ++ ['\n']) (by decide)) .empty =
      some (mode, l') ∧ l'.Holds (numbered 0 words) ∧ l'.list.num = words.length ∧
      Classified " a  b ".toList mode words :=
  resolveInput_exact (LinkedList.holds_empty _) (by decide) (by decide) (by decide) _ _ _

/-- **Every access is inside of its buffer if and only if the read returns bytes and the query is not a
single double quote.** -/
theorem resolveInput_defined_iff (hl : l.Holds ws) (stale : Fin bufSize → Char) (fill : Nat → Char)
    (r : ReadResult bufSize Char) : resolveInput stale fill r l ≠ none ↔
      r.bytes ≠ [] ∧ text r.bytes.dropLast ≠ ['"'] := by
  have hresolve := resolveInput_eq stale fill r hl
  by_cases hempty : r.bytes = []
  · rw [if_pos hempty] at hresolve
    exact iff_of_false (not_not.mpr hresolve) fun h => h.1 hempty
  rw [if_neg hempty] at hresolve
  rw [and_iff_right hempty, ne_eq, ne_eq, not_iff_not, ← parse_eq_none_iff]
  rcases hparse : parse (text r.bytes.dropLast) with _ | ⟨mode, words⟩
  · rw [hparse] at hresolve
    exact iff_of_true hresolve rfl
  · rw [hparse] at hresolve
    obtain ⟨l', hrun, -⟩ := hresolve
    rw [hrun]
    exact iff_of_false (Option.some_ne_none _) (Option.some_ne_none _)

/-- A single double quote. -/
theorem resolveInput_defined_iff_quote :
    resolveInput (fun _ => 'x') (fun _ => 'y') (.data "\"\n".toList (by decide)) .empty ≠ none ↔
      "\"\n".toList ≠ [] ∧ text "\"\n".toList.dropLast ≠ ['"'] :=
  resolveInput_defined_iff (LinkedList.holds_empty _) _ _ _

/-- **At the end of the standard input the NUL is written in front of the buffer**, and for a query that is a
single double quote in front of a fresh object. -/
theorem not_resolveInput_defined :
    resolveInput (fun _ => 'x') (fun _ => 'y') .eof .empty = none ∧
      resolveInput (fun _ => 'x') (fun _ => 'y') (.data "\"\n".toList (by decide)) .empty = none := by
  have hquote := resolveInput_eq (fun _ => 'x') (fun _ => 'y') (.data "\"\n".toList (by decide))
    (LinkedList.holds_empty .empty)
  exact ⟨rfl, hquote⟩

end resolve

end SystemProgrammingLab.Pa1
