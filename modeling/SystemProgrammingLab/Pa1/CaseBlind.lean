import SystemProgrammingLab.Pa1.Hit
import SystemProgrammingLab.Pa1.Output

/-!
# The same query in other letters

`extractLine` turns the capital letters of every line into small ones; `resolve_input` leaves the query
as it is. So the case of the file never matters, and a capital letter in a word of the query keeps it
from being found.

`CaseBlind` says that the output of a query is the same in whatever letters the query and the file are
written: what is written, and whether the query is answered to its end. `CaseSafe` is the exact condition:
no letter of the query decides what is found (`caseBlind_iff`).

Source: `pa1/main.c`, `pa1/mystring.c`
-/

namespace SystemProgrammingLab.Pa1

open SystemProgrammingLab.Found

/-! ## Two runs of a query -/

/-- Every way to write the letters of the query and of the file gives the same output. -/
def CaseBlind (file : List Char) (fuel : Nat) (r : ReadResult bufSize Char) : Prop :=
  ∀ (m m' : Memory) (file' : List Char) (r' : ReadResult bufSize Char),
    Variant file file' → Variant r.bytes r'.bytes →
      runQuery file' fuel m' r' = runQuery file fuel m r

/-- The search comes to no line with the words in small letters: if there is one, it is stopped there or at a
line in front of it, in all letters alike. -/
def Unreached (file : List Char) (mode : Mode) (words : List (List Char)) (lines : List Line) : Prop :=
  ∀ before e after, lines = before ++ e :: after →
    Hit mode (words.map (List.map lowerChar)) (lineText file e) →
      ∃ d ∈ before ++ [e], Stuck mode words (lineText file d)

/-- No letter of the query decides what is found: the words have none, or the search comes to no line
with the words in small letters. And the query is not the exit command in other letters. -/
def CaseSafe (file : List Char) (fuel : Nat) (r : ReadResult bufSize Char) : Prop :=
  ∀ st lines mode words, load file fuel = some st → Loaded file lines st.indexList →
    r.bytes ≠ [] → parse (query r) = some (mode, words) →
      ¬ Variant (query r) "PA1EXIT".toList ∧ (NoLetter words ∨ Unreached file mode words lines)

section runs

variable {file file' : List Char} {fuel : Nat} {lines : List Line} {st : MainState}
  {r r' : ReadResult bufSize Char} {mode : Mode} {words words' : List (List Char)}

/-- Line by line: the first line stops the search, or it has no hit and the search does not come to one behind
it. -/
theorem unreached_cons {e : Line} {es : List Line} : Unreached file mode words (e :: es) ↔
    Stuck mode words (lineText file e) ∨
      (¬ Hit mode (words.map (List.map lowerChar)) (lineText file e) ∧
        Unreached file mode words es) := by
  constructor
  · intro h
    by_cases hstuck : Stuck mode words (lineText file e)
    · exact .inl hstuck
    refine .inr ⟨?_, ?_⟩
    · intro hhit
      obtain ⟨d, hd, hstuck'⟩ := h [] e es rfl hhit
      cases List.mem_singleton.mp hd
      exact hstuck hstuck'
    · rintro before e' after rfl hhit
      obtain ⟨d, hd, hstuck'⟩ := h (e :: before) e' after rfl hhit
      rcases List.mem_cons.mp hd with rfl | hd
      · exact absurd hstuck' hstuck
      · exact ⟨d, hd, hstuck'⟩
  · intro h before e' after hlines hhit
    rcases before with _ | ⟨d, before⟩
    · obtain ⟨rfl, rfl⟩ := List.cons.inj hlines
      rcases h with hstuck | ⟨hnot, -⟩
      · exact ⟨e, List.mem_singleton_self e, hstuck⟩
      · exact absurd hhit hnot
    · obtain ⟨rfl, rfl⟩ := List.cons.inj hlines
      rcases h with hstuck | ⟨-, h⟩
      · exact ⟨e, List.mem_cons_self, hstuck⟩
      · obtain ⟨c, hc, hstuck⟩ := h before e' after rfl hhit
        exact ⟨c, List.mem_cons_of_mem e hc, hstuck⟩

/-- The output of a query before its index is built. -/
theorem runQuery_of_not_loaded (hload : load file fuel = none) (m : Memory) (r : ReadResult bufSize Char) :
    runQuery file fuel m r = .stopped := by
  unfold runQuery
  rw [hload]

/-- A query other than the exit command is a search. -/
theorem mode_ne_exit {s : List Char} (hparse : parse s = some (mode, words))
    (hexit : s ≠ "PA1EXIT".toList) : mode ≠ .exit := by
  unfold parse at hparse
  rw [if_neg hexit] at hparse
  rintro rfl
  split at hparse
  · split at hparse
    · cases hparse
    · split at hparse <;> cases hparse
  · split at hparse <;> cases hparse

/-- Two variants of a query are split alike. -/
theorem parse_variant {s s' : List Char} (h : Variant s s') (hexit : s ≠ "PA1EXIT".toList)
    (hexit' : s' ≠ "PA1EXIT".toList) :
    (parse s).map (fun p => (p.1, p.2.map (List.map lowerChar))) =
      (parse s').map fun p => (p.1, p.2.map (List.map lowerChar)) := by
  have hlower : ∀ s : List Char, s.map lowerChar ≠ "PA1EXIT".toList := by
    intro s heq
    have hmem : 'P' ∈ s.map lowerChar := by simp [heq]
    obtain ⟨c, -, hc⟩ := List.mem_map.mp hmem
    have hP := lowerChar_idem c
    rw [hc] at hP
    exact absurd hP (by decide)
  rw [← parse_map keepsMarks_lowerChar hexit (hlower s),
    ← parse_map keepsMarks_lowerChar hexit' (hlower s'), h]

/-- A letter made small is a letter. -/
theorem isLetter_lowerChar {c : Char} : IsLetter (lowerChar c) ↔ IsLetter c := by
  constructor
  · intro h
    by_contra hnot
    rw [lowerChar_of_not_isLetter hnot] at h
    exact hnot h
  · exact fun h => .inr (lowerChar_of_isLetter h)

/-- A word without letters has no other variant. -/
theorem eq_of_variant {w w' : List Char} (hw : ∀ c ∈ w, ¬ IsLetter c) (h : Variant w w') : w' = w := by
  have hw' : ∀ c ∈ w', ¬ IsLetter c := by
    intro c hc hletter
    have hmem : lowerChar c ∈ w.map lowerChar := by
      rw [h]
      exact List.mem_map_of_mem hc
    obtain ⟨d, hd, heq⟩ := List.mem_map.mp hmem
    apply hw d hd
    rw [← isLetter_lowerChar, heq, isLetter_lowerChar]
    exact hletter
  have hlower : ∀ v : List Char, (∀ c ∈ v, ¬ IsLetter c) → v.map lowerChar = v := fun v hv =>
    Lower.map_eq fun c hc => lowerChar_of_not_isLetter (hv c hc)
  rw [← hlower w hw, ← hlower w' hw', h]

/-- Words without letters have no variants. -/
theorem eq_of_variants (hwords : NoLetter words)
    (h : words.map (List.map lowerChar) = words'.map (List.map lowerChar)) : words' = words := by
  induction words generalizing words' with
  | nil => exact List.map_eq_nil_iff.mp h.symm
  | cons w words ih =>
      obtain ⟨w', ws', rfl, hw, hws⟩ := List.map_eq_cons_iff.mp h.symm
      rw [eq_of_variant (hwords w List.mem_cons_self) hw.symm,
        ih (fun v hv => hwords v (List.mem_cons_of_mem w hv)) hws.symm]

/-- A line that stops the words stops their variants. -/
theorem Stuck.variant {s : List Char} (hstuck : Stuck mode words s)
    (h : words.map (List.map lowerChar) = words'.map (List.map lowerChar)) :
    Stuck mode words' s := by
  unfold Stuck at hstuck
  split at hstuck
  · obtain ⟨word1', ws', rfl, hword1, hws⟩ := List.map_eq_cons_iff.mp h.symm
    obtain ⟨word2', ws'', rfl, -, hnil⟩ := List.map_eq_cons_iff.mp hws
    rw [List.map_eq_nil_iff.mp hnil]
    rw [show Stuck .regexp [word1', word2'] s = _ from rfl, eq_of_variant hstuck.1 hword1.symm]
    exact hstuck
  · exact hstuck.elim

/-- Variants are as many words. -/
theorem shaped_variant (hshaped : Shaped mode words)
    (h : words.map (List.map lowerChar) = words'.map (List.map lowerChar)) : Shaped mode words' := by
  have hlen : words.length = words'.length := by simpa using congrArg List.length h
  rcases mode with _ | _ | _ | _ | _
  · obtain ⟨word, rfl⟩ := hshaped
    exact List.length_eq_one_iff.mp hlen.symm
  · trivial
  · obtain ⟨sub, rfl⟩ := hshaped
    exact List.length_eq_one_iff.mp hlen.symm
  · obtain ⟨word1, word2, rfl⟩ := hshaped
    exact List.length_eq_two.mp hlen.symm
  · exact hshaped.elim

/-- Where the search comes to no hit, it writes the same for two variants of the words. -/
theorem linesRun_variants (hshaped : Shaped mode words)
    (h : words.map (List.map lowerChar) = words'.map (List.map lowerChar))
    (hsafe : Unreached file mode words lines) :
    linesRun (fun e => scanOut mode words' (lineText file e) e.lineNum) lines =
      linesRun (fun e => scanOut mode words (lineText file e) e.lineNum) lines := by
  induction lines with
  | nil => rfl
  | cons e es ih =>
      rw [linesRun, linesRun]
      rcases unreached_cons.mp hsafe with hstuck | ⟨hnot, hsafe⟩
      · rw [hstuck.scanOut_eq, (hstuck.variant h).scanOut_eq]
      · have hlower := lower_lineText file e
        have hnone : scanOut mode words (lineText file e) e.lineNum = some [] :=
          (scanOut_eq_nil_iff e.lineNum hshaped).mpr fun hhit => hnot (hhit.lower hlower)
        have hnone' : scanOut mode words' (lineText file e) e.lineNum = some [] :=
          (scanOut_eq_nil_iff e.lineNum (shaped_variant hshaped h)).mpr fun hhit =>
            hnot (h ▸ hhit.lower hlower)
        rw [hnone, hnone']
        exact congrArg (Output.behind []) (ih hsafe)

/-- The outputs for two variants of the words are the same, where no letter decides. -/
theorem answerRun_variants (hshaped : Shaped mode words)
    (h : words.map (List.map lowerChar) = words'.map (List.map lowerChar))
    (hsafe : NoLetter words ∨ Unreached file mode words lines) :
    answerRun file lines mode words' = answerRun file lines mode words := by
  rcases hsafe with hletter | hsafe
  · rw [eq_of_variants hletter h]
  · unfold answerRun
    rw [linesRun_variants hshaped h hsafe]

/-- With a letter in a word, the words in capitals are found nowhere: a line has no hit, or it stops the
search. -/
theorem scanOut_upper (file : List Char) (hshaped : Shaped mode words) (hletter : ¬ NoLetter words) (e : Line) :
    (¬ Stuck mode words (lineText file e) ∧
        scanOut mode (words.map (List.map upperChar)) (lineText file e) e.lineNum = some []) ∨
      (Stuck mode words (lineText file e) ∧
        scanOut mode (words.map (List.map upperChar)) (lineText file e) e.lineNum = none) := by
  by_cases hstuck : Stuck mode words (lineText file e)
  · exact .inr ⟨hstuck, (hstuck.variant (by simp [lowerChar_upperChar])).scanOut_eq e.lineNum⟩
  · refine .inl ⟨hstuck, (scanOut_eq_nil_iff e.lineNum ?_).mpr ?_⟩
    · exact shaped_variant hshaped (by simp [lowerChar_upperChar])
    · exact not_hit_upper (lower_lineText file e) hletter hstuck

/-- So nothing is written for them in front of the end. -/
theorem linesRun_upper_written (hshaped : Shaped mode words) (hletter : ¬ NoLetter words) :
    (linesRun (fun e => scanOut mode (words.map (List.map upperChar)) (lineText file e) e.lineNum)
      lines).written = [] := by
  induction lines with
  | nil => rfl
  | cons e es ih =>
      rw [linesRun]
      rcases scanOut_upper file hshaped hletter e with ⟨-, hout⟩ | ⟨-, hout⟩
      · rw [hout]
        exact ih
      · rw [hout]
        rfl

/-- If no line stops it, the search for them ends. -/
theorem linesRun_upper_ends (hshaped : Shaped mode words) (hletter : ¬ NoLetter words)
    (hstuck : ∀ s, ¬ Stuck mode words s) :
    (linesRun (fun e => scanOut mode (words.map (List.map upperChar)) (lineText file e) e.lineNum)
      lines).ends = true := by
  induction lines with
  | nil => rfl
  | cons e es ih =>
      rw [linesRun]
      rcases scanOut_upper file hshaped hletter e with ⟨-, hout⟩ | ⟨hstuck', -⟩
      · rw [hout]
        exact ih
      · exact absurd hstuck' (hstuck _)

/-- A scan for the words in small letters that is stopped at a line which does not stop all variants: `word1` has
a letter, and no line stops them all. -/
theorem not_stuck_of_scanOut {s : List Char} {lineNum : Nat} (hshaped : Shaped mode words)
    (h : scanOut mode (words.map (List.map lowerChar)) s lineNum = none)
    (hstuck : ¬ Stuck mode words s) (t : List Char) : ¬ Stuck mode words t := by
  rcases mode with _ | _ | _ | _ | _
  · exact id
  · exact id
  · exact id
  · obtain ⟨word1, word2, rfl⟩ := hshaped
    rintro ⟨hletters, -⟩
    obtain ⟨start, hfound, hlast⟩ := (regexpOut_eq_none lineNum).mp h
    have hsame : word1.map lowerChar = word1 :=
      Lower.map_eq fun c hc => lowerChar_of_not_isLetter (hletters c hc)
    rw [hsame] at hfound
    exact hstuck ⟨hletters, start, hfound, hlast⟩
  · exact id

/-- Where the search comes to a hit, it is written in small letters, or the search is stopped there in small
letters and not in capitals. -/
theorem linesRun_lower (hshaped : Shaped mode words) (hreached : ¬ Unreached file mode words lines) :
    (linesRun (fun e => scanOut mode (words.map (List.map lowerChar)) (lineText file e) e.lineNum)
        lines).written ≠ [] ∨
      ((linesRun (fun e => scanOut mode (words.map (List.map lowerChar)) (lineText file e) e.lineNum)
          lines).ends = false ∧ ∀ s, ¬ Stuck mode words s) := by
  have hlower : Shaped mode (words.map (List.map lowerChar)) :=
    shaped_variant hshaped (by simp [lowerChar_idem])
  induction lines with
  | nil => exact absurd (fun before e after h => absurd h (by simp)) hreached
  | cons e es ih =>
      rw [unreached_cons, not_or, not_and_or, not_not] at hreached
      obtain ⟨hstuck, hhit⟩ := hreached
      rw [linesRun]
      rcases hout : scanOut mode (words.map (List.map lowerChar)) (lineText file e) e.lineNum with _ | out
      · exact .inr ⟨rfl, not_stuck_of_scanOut hshaped hout hstuck⟩
      · by_cases hempty : out = []
        · subst hempty
          have hnot := (scanOut_eq_nil_iff e.lineNum hlower).mp hout
          exact ih (hhit.resolve_left hnot)
        · exact .inl fun h => hempty (List.append_eq_nil_iff.mp h).1

/-- Where a letter decides, small letters and capitals have different outputs. -/
theorem answerRun_lower_ne_upper (hshaped : Shaped mode words) (hletter : ¬ NoLetter words)
    (hreached : ¬ Unreached file mode words lines) :
    answerRun file lines mode (words.map (List.map lowerChar)) ≠
      answerRun file lines mode (words.map (List.map upperChar)) := by
  have hlines : lines ≠ [] := by
    rintro rfl
    exact hreached fun before e after h => absurd h (by simp)
  unfold answerRun
  rw [if_neg hlines, if_neg hlines]
  rcases linesRun_lower hshaped hreached with hwritten | ⟨hends, hstuck⟩
  · exact Output.closed_ne_of_written hwritten (linesRun_upper_written hshaped hletter)
  · exact Output.closed_ne_of_ends hends (linesRun_upper_ends hshaped hletter hstuck)

/-- A search does not end without writing. -/
theorem answerRun_ne : answerRun file lines mode words ≠ ⟨[], true⟩ := by
  unfold answerRun
  split_ifs
  · exact fun h => Bool.false_ne_true (congrArg Output.ends h)
  · exact Output.closed_ne _

/-- The letters of the file do not matter. -/
theorem answerRun_variant (h : Variant file file') (lines : List Line) (mode : Mode)
    (words : List (List Char)) : answerRun file lines mode words = answerRun file' lines mode words := by
  unfold answerRun
  simp only [lineText_variant h]

/-- A text whose letters are made small or capital is a variant. -/
theorem variant_map {f : Char → Char} (hf : ∀ c, lowerChar (f c) = lowerChar c) (cs : List Char) :
    Variant cs (cs.map f) := by
  unfold Variant
  rw [List.map_map]
  exact List.map_congr_left fun c _ => (hf c).symm

/-- The read with other letters. -/
theorem exists_read_map (hne : r.bytes ≠ []) (f : Char → Char) :
    ∃ r' : ReadResult bufSize Char, r'.bytes = r.bytes.map f := by
  cases r with
  | data bs hlen => exact ⟨.data (bs.map f) (by rwa [List.length_map]), rfl⟩
  | eof => exact absurd rfl hne
  | error => exact absurd rfl hne

/-- The query of such a read. -/
theorem query_map {f : Char → Char} (hf : KeepsMarks f) (h : r'.bytes = r.bytes.map f) :
    query r' = (query r).map f := by
  unfold query
  rw [h, ← List.map_dropLast, text_map hf]

/-- Reads that are variants have queries that are. -/
theorem query_variant (h : Variant r.bytes r'.bytes) : Variant (query r) (query r') := by
  unfold Variant query at *
  rw [← text_map keepsMarks_lowerChar, ← text_map keepsMarks_lowerChar, List.map_dropLast,
    List.map_dropLast, h]

/-- Variants are the same in capitals. -/
theorem map_upperChar_of_variant {s s' : List Char} (h : Variant s s') :
    s.map upperChar = s'.map upperChar := by
  have hlower : ∀ s : List Char, s.map upperChar = (s.map lowerChar).map upperChar := by
    intro s
    rw [List.map_map]
    exact List.map_congr_left fun c _ => (upperChar_lowerChar c).symm
  rw [hlower s, h, ← hlower s']

/-- A query that is not parsed is a single double quote. -/
theorem length_lt_of_parse_none {s : List Char} (h : parse s = none) : s.length < 2 := by
  unfold parse at h
  split at h
  · cases h
  · split at h
    · split at h
      · cases h
      · split at h <;> cases h
    · split at h
      · assumption
      · cases h

/-- If no letter decides what is found, the letters do not matter. -/
theorem CaseSafe.caseBlind (hexit : query r ≠ "PA1EXIT".toList) (h : CaseSafe file fuel r) :
    CaseBlind file fuel r := by
  intro m m' file' r' hfile hr
  have hload' := load_variant hfile fuel
  have hquery := query_variant hr
  rcases hload : load file fuel with _ | st
  · rw [runQuery_of_not_loaded hload, runQuery_of_not_loaded (hload' ▸ hload)]
  obtain ⟨⟨lines, hindex⟩, -⟩ := load_loaded hload
  by_cases hne : r.bytes = []
  · have hne' : r'.bytes = [] := by
      rw [hne] at hr
      exact List.map_eq_nil_iff.mp hr.symm
    rw [runQuery_eq_stopped (.inl hne), runQuery_eq_stopped (.inl hne')]
  have hne' : r'.bytes ≠ [] := by
    intro hnil
    rw [hnil] at hr
    exact hne (List.map_eq_nil_iff.mp hr)
  have hnotExit : query r' ≠ "PA1EXIT".toList := by
    intro hexit'
    rw [hexit'] at hquery
    rcases hparse : parse (query r) with _ | ⟨mode, words⟩
    · have hlen := length_lt_of_parse_none hparse
      have hseven : (query r).length = 7 := by simpa using congrArg List.length hquery
      omega
    · exact (h st lines mode words hload hindex hne hparse).1 hquery
  have hparse' := parse_variant hquery hexit hnotExit
  rcases hparse : parse (query r) with _ | ⟨mode, words⟩
  · rw [hparse] at hparse'
    rw [runQuery_eq_stopped (.inr hparse),
      runQuery_eq_stopped (.inr (Option.map_eq_none_iff.mp hparse'.symm))]
  · rw [hparse] at hparse'
    obtain ⟨⟨mode', words'⟩, hsplit, hsame⟩ := Option.map_eq_some_iff.mp hparse'.symm
    obtain ⟨rfl, hwords⟩ := Prod.mk.inj hsame
    have hmode := mode_ne_exit hparse hexit
    rw [runQuery_eq hload hindex hne hparse, if_neg hmode,
      runQuery_eq (hload' ▸ hload) (loaded_variant hfile hindex) hne' hsplit, if_neg hmode,
      ← answerRun_variant hfile]
    exact answerRun_variants (shaped_of_parse hparse hmode) hwords.symm
      (h st lines _ words hload hindex hne hparse).2

/-- Where all letters give the same output, no letter of the query decides: otherwise small letters and
capitals are told apart. -/
theorem CaseBlind.caseSafe (hexit : query r ≠ "PA1EXIT".toList) (h : CaseBlind file fuel r) :
    CaseSafe file fuel r := by
  intro st lines mode words hload hindex hne hparse
  have hmode := mode_ne_exit hparse hexit
  have hshaped := shaped_of_parse hparse hmode
  obtain ⟨lower, hlower⟩ := exists_read_map hne lowerChar
  obtain ⟨upper, hupper⟩ := exists_read_map hne upperChar
  have hlowerOut := h someMemory someMemory file lower rfl
    (hlower ▸ variant_map lowerChar_idem r.bytes)
  have hupperOut := h someMemory someMemory file upper rfl
    (hupper ▸ variant_map lowerChar_upperChar r.bytes)
  have hupperNe : upper.bytes ≠ [] := by
    rw [hupper]
    exact fun hnil => hne (List.map_eq_nil_iff.mp hnil)
  have hlowerNe : lower.bytes ≠ [] := by
    rw [hlower]
    exact fun hnil => hne (List.map_eq_nil_iff.mp hnil)
  have hqueryLower := query_map keepsMarks_lowerChar hlower
  have hqueryUpper := query_map keepsMarks_upperChar hupper
  have hnotExit : ¬ Variant (query r) "PA1EXIT".toList := by
    intro hvariant
    -- the query in capitals is the exit command, which writes nothing
    have hexit' : query upper = "PA1EXIT".toList := by
      rw [hqueryUpper, map_upperChar_of_variant hvariant]
      decide
    rw [runQuery_exit hload hupperNe hexit', runQuery_eq hload hindex hne hparse, if_neg hmode]
      at hupperOut
    exact answerRun_ne hupperOut.symm
  refine ⟨hnotExit, ?_⟩
  by_contra hdecides
  rw [not_or] at hdecides
  obtain ⟨hletter, hreached⟩ := hdecides
  have hsplit : ∀ {f : Char → Char} {r' : ReadResult bufSize Char}, KeepsMarks f →
      (∀ c, lowerChar (f c) = lowerChar c) → query r' = (query r).map f →
        parse (query r') = some (mode, words.map (List.map f)) := by
    intro f r' hf hsame hquery
    have hnot : (query r).map f ≠ "PA1EXIT".toList := by
      intro heq
      exact hnotExit (heq ▸ variant_map hsame (query r))
    rw [hquery, parse_map hf hexit hnot, hparse]
    rfl
  rw [runQuery_eq hload hindex hlowerNe (hsplit keepsMarks_lowerChar lowerChar_idem hqueryLower),
    if_neg hmode, runQuery_eq hload hindex hne hparse, if_neg hmode] at hlowerOut
  rw [runQuery_eq hload hindex hupperNe (hsplit keepsMarks_upperChar lowerChar_upperChar hqueryUpper),
    if_neg hmode, runQuery_eq hload hindex hne hparse, if_neg hmode] at hupperOut
  exact answerRun_lower_ne_upper hshaped hletter hreached (hlowerOut.trans hupperOut.symm)

/-- **The case of a query**: the output is the same in all letters exactly where no letter of the
query decides what is found. -/
theorem caseBlind_iff (hexit : query r ≠ "PA1EXIT".toList) :
    CaseBlind file fuel r ↔ CaseSafe file fuel r :=
  ⟨fun h => h.caseSafe hexit, fun h => h.caseBlind hexit⟩

end runs

/-- The query `b` in the file of two lines. -/
theorem caseBlind_iff_oneWord : CaseBlind twoLines 2 oneWord ↔ CaseSafe twoLines 2 oneWord :=
  caseBlind_iff (by decide)

/-- The query `b` finds both lines, the query `B` none. -/
theorem not_caseBlind :
    query oneWord ≠ "PA1EXIT".toList ∧ ¬ CaseBlind twoLines 2 oneWord := by
  refine ⟨by decide, ?_⟩
  intro h
  have hvariant : Variant oneWord.bytes "B\n".toList := by
    unfold Variant
    decide
  have hout := h someMemory someMemory twoLines (.data "B\n".toList (by decide)) rfl hvariant
  have hsmall : runQuery twoLines 2 someMemory oneWord = ⟨oneWordOut, true⟩ := by
    decide +kernel
  have hcapital : runQuery twoLines 2 someMemory (.data "B\n".toList (by decide)) =
      ⟨[.write ['\n']], true⟩ := by
    decide +kernel
  rw [hsmall, hcapital] at hout
  cases hout

end SystemProgrammingLab.Pa1
