import SystemProgrammingLab.Found.Lines
import SystemProgrammingLab.Pa3.Client

/-!
# The queries that were written

The client puts a NUL over the last character of each line, which is the newline unless the text ends without
one. Then a digit is lost, and what is left may still be a query, of another seat or password. And `sscanf`
takes more for three numbers than numbers with blanks between them: a sign is enough to start a number, and a
number that does not fit into an `int` is cut off.

So the client sends what was written exactly when no line that it reads ends in a digit, and no valid query
among them is of this kind (`sendsWritten_iff`).

Source: `pa3/pa3_client.c`
-/

namespace SystemProgrammingLab.Pa3

open SystemProgrammingLab.Found

/-! ## Three numbers -/

/-- The text does not start with a digit. -/
def NoDigit (s : List Char) : Prop := ∀ c ∈ s.head?, c.isDigit = false

/-- A line starts with three numbers, each of which ends where the next one starts. -/
def StartsWith (line : List Char) (x y z : Numeral) : Prop :=
  NoDigit y.text ∧ NoDigit z.text ∧ ∃ rest, NoDigit rest ∧ line = x.text ++ (y.text ++ (z.text ++ rest))

/-- What `%d` stores for a number. -/
def storedInt (v : Int) : Int := toInt (clampLong v)

/-- The range of `int`. -/
def InInt (v : Int) : Prop := -2 ^ 31 ≤ v ∧ v < 2 ^ 31

/-- A number in the range of `int` is stored as it is. -/
theorem storedInt_of_inInt {v : Int} (h : InInt v) : storedInt v = v := by
  unfold InInt at h
  unfold storedInt toInt clampLong
  omega

section scan

variable {line s t : List Char} {x y z : Numeral} {q : Query} {c : Char}

/-- What stands behind a number does not change what it is. -/
theorem noDigit_append {n : Numeral} (s : List Char) : NoDigit (n.text ++ s) ↔ NoDigit n.text := by
  unfold NoDigit
  rw [List.head?_append_of_ne_nil _ n.text_ne_nil]

/-- `sscanf` reads the numbers that a line starts with. -/
theorem scanQuery_eq_some_iff : scanQuery line = some q ↔ ∃ x y z, StartsWith line x y z ∧
    q = ⟨storedInt x.value, storedInt y.value, storedInt z.value⟩ := by
  constructor
  · intro h
    obtain ⟨⟨u, line₁⟩, hu, h⟩ := Option.bind_eq_some_iff.mp h
    obtain ⟨⟨v, line₂⟩, hv, h⟩ := Option.bind_eq_some_iff.mp h
    obtain ⟨⟨w, line₃⟩, hw, h⟩ := Option.bind_eq_some_iff.mp h
    obtain ⟨x, rfl, hx, rfl⟩ := exists_numeral hu
    obtain ⟨y, rfl, hy, rfl⟩ := exists_numeral hv
    obtain ⟨z, rfl, hz, rfl⟩ := exists_numeral hw
    exact ⟨x, y, z, ⟨(noDigit_append _).mp hx, (noDigit_append _).mp hy, line₃, hz, rfl⟩,
      (Option.some.inj h).symm⟩
  · rintro ⟨x, y, z, ⟨hy, hz, rest, hrest, rfl⟩, rfl⟩
    have hx := x.scanLong_append ((noDigit_append (z.text ++ rest)).mpr hy)
    have hy := y.scanLong_append ((noDigit_append rest).mpr hz)
    have hz := z.scanLong_append hrest
    simp only [scanQuery, hx, hy, hz, Option.bind_eq_bind, Option.bind_some]
    rfl

/-- A line starts with three numbers in one way only. -/
theorem StartsWith.unique {x' y' z' : Numeral} (h : StartsWith line x y z) (h' : StartsWith line x' y' z') :
    x = x' ∧ y = y' ∧ z = z' := by
  obtain ⟨hy, hz, rest, hrest, rfl⟩ := h
  obtain ⟨hy', hz', rest', hrest', hline⟩ := h'
  obtain ⟨rfl, hbehind⟩ := x.append_inj ((noDigit_append _).mpr hy) ((noDigit_append _).mpr hy') hline
  obtain ⟨rfl, hbehind'⟩ := y.append_inj ((noDigit_append _).mpr hz) ((noDigit_append _).mpr hz') hbehind
  obtain ⟨rfl, -⟩ := z.append_inj hrest hrest' hbehind'
  exact ⟨rfl, rfl, rfl⟩

/-- The text of three numbers, which a line starts with. -/
theorem startsWith_iff : StartsWith line x y z ↔ NoDigit y.text ∧ NoDigit z.text ∧
    ∃ rest, NoDigit rest ∧ line = x.text ++ y.text ++ z.text ++ rest := by
  simp only [StartsWith, List.append_assoc]

/-- A NUL ends the line. -/
theorem startsWith_takeWhile : StartsWith (s.takeWhile (· ≠ '\x00')) x y z ↔ StartsWith s x y z := by
  rw [startsWith_iff, startsWith_iff]
  refine and_congr_right' (and_congr_right' ⟨?_, ?_⟩)
  · rintro ⟨rest, hrest, hs⟩
    refine ⟨rest ++ s.dropWhile (· ≠ '\x00'), ?_, ?_⟩
    · intro c hc
      rcases rest with _ | ⟨d, rest⟩
      · have hstop := List.head?_dropWhile_not (· ≠ '\x00') s
        rw [List.nil_append, Option.mem_def] at hc
        rw [hc] at hstop
        have hnul : c = '\x00' := by simpa using hstop
        rw [hnul]
        rfl
      · exact hrest c hc
    · rw [← List.append_assoc, ← hs, List.takeWhile_append_dropWhile]
  · rintro ⟨rest, hrest, rfl⟩
    have hall : ∀ c ∈ x.text ++ y.text ++ z.text, decide (c ≠ '\x00') = true := by
      intro c hc
      rw [decide_eq_true_eq]
      rintro rfl
      simp only [List.mem_append] at hc
      rcases hc with (hc | hc) | hc
      · exact x.nul_notMem_text hc
      · exact y.nul_notMem_text hc
      · exact z.nul_notMem_text hc
    refine ⟨rest.takeWhile (· ≠ '\x00'), ?_, List.takeWhile_append_of_pos hall⟩
    intro c hc
    rcases rest with _ | ⟨d, rest⟩
    · cases hc
    · rw [List.takeWhile_cons] at hc
      split_ifs at hc
      · exact hrest c hc
      · cases hc

/-- A last character that is no digit does not matter. -/
theorem startsWith_concat (hc : c.isDigit = false) : StartsWith (s ++ [c]) x y z ↔ StartsWith s x y z := by
  rw [startsWith_iff, startsWith_iff]
  refine and_congr_right' (and_congr_right' ⟨?_, ?_⟩)
  · rintro ⟨rest, hrest, hs⟩
    rcases List.eq_nil_or_concat' rest with rfl | ⟨rest, d, rfl⟩
    · -- the numbers would end in `c`
      have hlast := congrArg List.getLast? hs
      rw [List.getLast?_concat, List.append_nil, List.getLast?_append_of_ne_nil _ z.text_ne_nil] at hlast
      have hdigit := z.isDigit_getLast hlast.symm
      rw [hc] at hdigit
      cases hdigit
    · rw [← List.append_assoc] at hs
      refine ⟨rest, ?_, (List.append_inj' hs rfl).1⟩
      intro d hd
      rcases rest with _ | ⟨e, rest⟩
      · cases hd
      · exact hrest d hd
  · rintro ⟨rest, hrest, rfl⟩
    refine ⟨rest ++ [c], ?_, List.append_assoc _ _ _⟩
    intro d hd
    rcases rest with _ | ⟨e, rest⟩
    · obtain rfl := Option.some.inj hd
      exact hc
    · exact hrest d hd

/-- The last character of a line is no digit. -/
def NoDigitLast (line : List Char) : Prop := ∀ c ∈ line.getLast?, c.isDigit = false

/-- `sscanf` reads what stands in the line, if the character that is lost is no digit. -/
theorem lineQuery_eq_some_iff (h : NoDigitLast line) : lineQuery line = some q ↔
    scanQuery line = some q ∧ validateQuery q.user q.action q.data = true := by
  have hstarts : ∀ x y z, StartsWith (line.dropLast.takeWhile (· ≠ '\x00')) x y z ↔ StartsWith line x y z := by
    intro x y z
    rw [startsWith_takeWhile]
    rcases List.eq_nil_or_concat' line with rfl | ⟨s, c, rfl⟩
    · rfl
    · rw [List.dropLast_concat, startsWith_concat (h c (by simp))]
  unfold lineQuery
  rw [Option.filter_eq_some_iff, scanQuery_eq_some_iff, scanQuery_eq_some_iff]
  simp only [hstarts]

/-! ## The query of a line -/

/-- The line begins with the three numbers of a valid query, in the range of `int` and with blanks between
them. -/
def WrittenAs (line : List Char) (q : Query) : Prop :=
  ∃ x y z, StartsWith line x y z ∧ (y.blanks ≠ [] ∧ z.blanks ≠ []) ∧
    (InInt x.value ∧ InInt y.value ∧ InInt z.value) ∧ q = ⟨x.value, y.value, z.value⟩ ∧
      validateQuery q.user q.action q.data = true

/-- Three numbers that a line starts with and that are stored as a valid query have blanks between them and are
in the range of `int`. -/
def Tight (line : List Char) : Prop :=
  ∀ x y z, StartsWith line x y z →
    validateQuery (storedInt x.value) (storedInt y.value) (storedInt z.value) = true →
      (y.blanks ≠ [] ∧ z.blanks ≠ []) ∧ InInt x.value ∧ InInt y.value ∧ InInt z.value

/-- Three numbers in range are stored as they are. -/
theorem stored_eq (h : InInt x.value ∧ InInt y.value ∧ InInt z.value) :
    (⟨storedInt x.value, storedInt y.value, storedInt z.value⟩ : Query) = ⟨x.value, y.value, z.value⟩ := by
  rw [storedInt_of_inInt h.1, storedInt_of_inInt h.2.1, storedInt_of_inInt h.2.2]

/-- The lines whose query is the one that was written. -/
theorem forall_lineQuery_iff (h : NoDigitLast line) :
    (∀ q, lineQuery line = some q ↔ WrittenAs line q) ↔ Tight line := by
  constructor
  · intro htaken x y z hstarts hvalid
    have hline := (lineQuery_eq_some_iff h).mpr ⟨scanQuery_eq_some_iff.mpr ⟨x, y, z, hstarts, rfl⟩, hvalid⟩
    obtain ⟨x', y', z', hstarts', hblanks, hrange, -, -⟩ := (htaken _).mp hline
    obtain ⟨rfl, rfl, rfl⟩ := hstarts.unique hstarts'
    exact ⟨hblanks, hrange⟩
  · intro htight q
    rw [lineQuery_eq_some_iff h, scanQuery_eq_some_iff]
    constructor
    · rintro ⟨⟨x, y, z, hstarts, rfl⟩, hvalid⟩
      obtain ⟨hblanks, hrange⟩ := htight x y z hstarts hvalid
      exact ⟨x, y, z, hstarts, hblanks, hrange, stored_eq hrange, hvalid⟩
    · rintro ⟨x, y, z, hstarts, -, hrange, rfl, hvalid⟩
      exact ⟨⟨x, y, z, hstarts, (stored_eq hrange).symm⟩, hvalid⟩

end scan

/-! ## The lines that are read -/

/-- A line that is reached: none of those in front of it stops. -/
def Reached (stops : List Char → Prop) (lines : List (List Char)) (line : List Char) : Prop :=
  ∃ before after, lines = before ++ line :: after ∧ ∀ l ∈ before, ¬ stops l

/-- The query, `lineQuery` or the written one, that ends the client. -/
def Terminates (query : Query → Prop) : Prop := ∃ q, query q ∧ q.action = 0

/-- The queries that are written in the lines, up to the first one that ends the client. -/
inductive Written : List (List Char) → List Query → Prop
  | nil : Written [] []
  | skip {line lines qs} (hline : ∀ q, ¬ WrittenAs line q) (hrest : Written lines qs) : Written (line :: lines) qs
  | stop {line lines q} (hline : WrittenAs line q) (hzero : q.action = 0) : Written (line :: lines) []
  | send {line lines q qs} (hline : WrittenAs line q) (hne : q.action ≠ 0) (hrest : Written lines qs) :
      Written (line :: lines) (q :: qs)

/-- The query that an action writes. -/
def Action.sent? : Action → Option Query
  | .send q => some q
  | .recv _ => none
  | .print _ => none

/-- The client writes the queries of the lines and the one that ends it, one more than it gets replies. Every
line that it reads has the query that is written in it, and loses no digit. -/
structure SendsWritten (lines : List (List Char)) : Prop where
  sends : ∃ qs, Written lines qs ∧ ∀ rs, (clientMain lines rs).filterMap Action.sent? =
    (qs ++ [(⟨0, 0, 0⟩ : Query)]).take (rs.length + 1)
  taken : ∀ line, Reached (fun l => Terminates (lineQuery l = some ·)) lines line →
    NoDigitLast line ∧ ∀ q, lineQuery line = some q ↔ WrittenAs line q

section run

variable {stops : List Char → Prop} {line l : List Char} {lines : List (List Char)}

/-- What holds of every line that is reached. -/
theorem forall_reached_cons {A : List Char → Prop} : (∀ line, Reached stops (l :: lines) line → A line) ↔
    A l ∧ (¬ stops l → ∀ line, Reached stops lines line → A line) := by
  constructor
  · intro h
    refine ⟨h l ⟨[], lines, rfl, by simp⟩, ?_⟩
    rintro hl _ ⟨before, after, rfl, hbefore⟩
    exact h _ ⟨l :: before, after, rfl, List.forall_mem_cons.mpr ⟨hl, hbefore⟩⟩
  · rintro ⟨hl, hrest⟩ _ ⟨before, after, heq, hbefore⟩
    rcases before with _ | ⟨b, before⟩
    · obtain ⟨rfl, -⟩ := List.cons.inj heq
      exact hl
    · obtain ⟨rfl, rfl⟩ := List.cons.inj heq
      rw [List.forall_mem_cons] at hbefore
      exact hrest hbefore.1 _ ⟨before, after, rfl, hbefore.2⟩

/-- Without lines none is reached. -/
theorem forall_reached_nil {A : List Char → Prop} : ∀ line, Reached stops [] line → A line := by
  rintro line ⟨before, after, heq, -⟩
  simp at heq

/-- The lines that are read are as written if the written ones are, since both end at the same line. -/
theorem forall_taken_iff (lines : List (List Char)) :
    (∀ line, Reached (fun l => Terminates (lineQuery l = some ·)) lines line →
        NoDigitLast line ∧ ∀ q, lineQuery line = some q ↔ WrittenAs line q) ↔
      ∀ line, Reached (fun l => Terminates (WrittenAs l)) lines line → NoDigitLast line ∧ Tight line := by
  induction lines with
  | nil => exact iff_of_true forall_reached_nil forall_reached_nil
  | cons l lines ih =>
      rw [forall_reached_cons, forall_reached_cons, ih]
      have hline : (NoDigitLast l ∧ ∀ q, lineQuery l = some q ↔ WrittenAs l q) ↔ NoDigitLast l ∧ Tight l :=
        and_congr_right forall_lineQuery_iff
      rw [← hline]
      refine and_congr_right fun ⟨_, htaken⟩ => ?_
      simp only [Terminates, htaken]

/-- The queries of the lines are sent, as long as there are replies. -/
theorem sent_clientMain (lines : List (List Char)) : ∀ rs : List (ReadResult 4096 Char),
    (clientMain lines rs).filterMap Action.sent? =
      (sentQueries lines ++ [(⟨0, 0, 0⟩ : Query)]).take (rs.length + 1) := by
  have hend : ∀ rs, (disconnect rs).filterMap Action.sent? = [(⟨0, 0, 0⟩ : Query)].take (rs.length + 1) := by
    intro rs
    rw [List.take_of_length_le (Nat.le_add_left 1 _)]
    cases rs <;> rfl
  induction lines with
  | nil => exact hend
  | cons line lines ih =>
      intro rs
      rw [clientMain, sentQueries]
      rcases hline : lineQuery line with _ | q
      · exact ih rs
      · dsimp only
        split_ifs with hzero
        · exact hend rs
        · rcases rs with _ | ⟨r, rs⟩
          · rfl
          · exact congrArg (q :: ·) (ih rs)

/-- What is sent was written, if every line is taken as it is written. -/
theorem written_sentQueries (h : ∀ line, Reached (fun l => Terminates (lineQuery l = some ·)) lines line →
    ∀ q, lineQuery line = some q ↔ WrittenAs line q) : Written lines (sentQueries lines) := by
  induction lines with
  | nil => exact .nil
  | cons line lines ih =>
      obtain ⟨htaken, hrest⟩ := forall_reached_cons.mp h
      rw [sentQueries]
      rcases hline : lineQuery line with _ | q
      · refine .skip (fun q hq => ?_) (ih (hrest ?_))
        · rw [← htaken, hline] at hq
          cases hq
        · rintro ⟨q, hq, -⟩
          rw [hline] at hq
          cases hq
      · have hq := (htaken q).mp hline
        dsimp only
        split_ifs with hzero
        · exact .stop hq hzero
        · refine .send hq hzero (ih (hrest ?_))
          rintro ⟨q', hq', hzero'⟩
          rw [hline] at hq'
          obtain rfl := Option.some.inj hq'
          exact hzero hzero'

/-- The queries that were written are sent, one more than there are replies, where no line that is read ends in a
digit and three numbers in it that are stored as a valid query have blanks between them and are in the range of
`int`. -/
theorem sends_of_tight (h : ∀ line, Reached (fun l => Terminates (WrittenAs l)) lines line →
    NoDigitLast line ∧ Tight line) :
    ∃ qs, Written lines qs ∧ ∀ rs, (clientMain lines rs).filterMap Action.sent? =
      (qs ++ [(⟨0, 0, 0⟩ : Query)]).take (rs.length + 1) := by
  rw [← forall_taken_iff] at h
  exact ⟨_, written_sentQueries fun line hline => (h line hline).2, fun rs => sent_clientMain _ rs⟩

end run

/-- **The queries that were written are sent if and only if** no line that is read ends in a digit, and three
numbers in it that are stored as a valid query have blanks between them and are in the range of `int`. -/
theorem sendsWritten_iff (text : List Char) : SendsWritten (allLines '\n' text) ↔
    ∀ line, Reached (fun l => Terminates (WrittenAs l)) (allLines '\n' text) line →
      NoDigitLast line ∧ Tight line := by
  constructor
  · intro h
    exact (forall_taken_iff _).mp h.taken
  · intro h
    exact ⟨sends_of_tight h, (forall_taken_iff _).mpr h⟩

/-- **Without a newline behind it, a query for seat 77 is sent as a query for seat 7.** -/
theorem not_sendsWritten :
    (∀ rs : List (ReadResult 4096 Char), rs ≠ [] → (clientMain (allLines '\n' "1 2 77".toList) rs).filterMap
        Action.sent? = [(⟨1, 2, 7⟩ : Query), ⟨0, 0, 0⟩]) ∧
      ¬ SendsWritten (allLines '\n' "1 2 77".toList) := by
  have hlines : allLines '\n' "1 2 77".toList = ["1 2 77".toList] := by decide
  have hsent : sentQueries ["1 2 77".toList] = [⟨1, 2, 7⟩] := by decide +kernel
  rw [hlines]
  constructor
  · intro rs hrs
    obtain ⟨r, rs, rfl⟩ := List.exists_cons_of_ne_nil hrs
    rw [sent_clientMain, hsent, List.take_of_length_le (by simp)]
    rfl
  · intro h
    have hdigit := (h.taken "1 2 77".toList ⟨[], [], rfl, by simp⟩).1 '7' (by decide)
    exact absurd hdigit (by decide)

end SystemProgrammingLab.Pa3
