import Mathlib.Data.List.Flatten
import SystemProgrammingLab.Pa1.Main
import SystemProgrammingLab.Pa1.Regexp
import SystemProgrammingLab.Pa1.Resolve

/-!
# More blanks between the words of a query

A space ends a piece of the query even where no word has been read, so a line with a space in front of it
or with two in a row has empty pieces (`QueryLine.Wide`). An empty piece is a word like the others, and it
is found in a line that starts with a blank and in no other (`findWord_nil_isSome_iff`). So further spaces
can lose hits, and `mwordQuery_widen_iff` says when.

Source: `pa1/main.c`, `pa1/mystring.c`
-/

namespace SystemProgrammingLab.Pa1

open SystemProgrammingLab.Found

/-! ## Lines of several words -/

/-- `lead` spaces, and the words with the spaces behind each of them. -/
def spaced (lead : Nat) (words : List (List Char × Nat)) : List Char :=
  List.replicate lead ' ' ++ words.flatMap fun w => w.1 ++ List.replicate w.2 ' '

/-- A query of two or more words, and the spaces between them: it is no search for a phrase or for two
words that are apart. -/
structure QueryLine where
  lead : Nat
  words : List (List Char × Nat)
  two : 2 ≤ words.length
  word : ∀ w ∈ words, w.1 ≠ [] ∧ ' ' ∉ w.1 ∧ '*' ∉ w.1 ∧ nul ∉ w.1
  gap : ∀ w ∈ words.dropLast, 0 < w.2
  quote : (spaced lead words).head? ≠ some '"'

/-- The line as it is typed. -/
def QueryLine.chars (q : QueryLine) : List Char := spaced q.lead q.words

/-- There are no fewer spaces in front of the words and behind each of them. -/
structure Wider (lead : Nat) (words : List (List Char × Nat)) (lead' : Nat)
    (words' : List (List Char × Nat)) : Prop where
  lead : lead ≤ lead'
  words : List.Forall₂ (fun w w' => w.1 = w'.1 ∧ w.2 ≤ w'.2) words words'

/-- Two spaces in a row, or one in front of the line. -/
def QueryLine.Wide (q : QueryLine) : Prop := 0 < q.lead ∨ ∃ w ∈ q.words, 2 ≤ w.2

section lines

variable {lead lead' : Nat} {words words' : List (List Char × Nat)}

/-- More blanks leave the words as they are. -/
theorem Wider.map_fst (h : Wider lead words lead' words') : words.map Prod.fst = words'.map Prod.fst := by
  obtain ⟨-, h⟩ := h
  induction h with
  | nil => rfl
  | cons hw _ ih => rw [List.map_cons, List.map_cons, hw.1, ih]

/-- A gap of two blanks stays one. -/
theorem Wider.exists_gap (h : Wider lead words lead' words') (hgap : ∃ w ∈ words, 2 ≤ w.2) :
    ∃ w ∈ words', 2 ≤ w.2 := by
  obtain ⟨-, h⟩ := h
  induction h with
  | nil => exact hgap
  | cons hw _ ih =>
      rw [List.exists_mem_cons_iff] at hgap ⊢
      exact hgap.imp (fun hle => Nat.le_trans hle hw.2) ih

/-- A blank between words stays there. -/
theorem Wider.gap (h : Wider lead words lead' words') (hgap : ∀ w ∈ words.dropLast, 0 < w.2) :
    ∀ w ∈ words'.dropLast, 0 < w.2 := by
  obtain ⟨-, h⟩ := h
  induction h with
  | nil => exact hgap
  | @cons w w' ws ws' hw hrest ih =>
      cases hrest with
      | nil => simp
      | @cons v v' vs vs' hv hrest =>
          rw [List.dropLast_cons_cons, List.forall_mem_cons] at hgap ⊢
          exact ⟨Nat.lt_of_lt_of_le hgap.1 hw.2, ih hgap.2⟩

/-- The line starts with a space or with its first word. -/
theorem head?_spaced {w : List Char × Nat} (hw : w.1 ≠ []) (words : List (List Char × Nat)) :
    (spaced lead (w :: words)).head? = if 0 < lead then some ' ' else w.1.head? := by
  obtain ⟨c, cs, hcons⟩ := List.exists_cons_of_ne_nil hw
  rcases lead with _ | n
  · simp [spaced, hcons]
  · simp [spaced, List.replicate_succ]

/-- No double quote gets to the start. -/
theorem Wider.quote (h : Wider lead words lead' words') (hword : ∀ w ∈ words, w.1 ≠ [])
    (hquote : (spaced lead words).head? ≠ some '"') : (spaced lead' words').head? ≠ some '"' := by
  obtain ⟨hlead, hwords⟩ := h
  cases hwords with
  | nil => rcases lead' with _ | n <;> simp [spaced, List.replicate_succ]
  | @cons w w' ws ws' hw hrest =>
      have hne : w.1 ≠ [] := hword w List.mem_cons_self
      rw [head?_spaced hne] at hquote
      rw [head?_spaced (hw.1 ▸ hne)]
      split_ifs with hpos
      · decide
      · rw [if_neg fun hpos₀ => hpos (Nat.lt_of_lt_of_le hpos₀ hlead)] at hquote
        rwa [← hw.1]

/-- The same words with further spaces in front of them, between them or behind them. -/
def QueryLine.widen (q : QueryLine) (lead : Nat) (words : List (List Char × Nat))
    (h : Wider q.lead q.words lead words) : QueryLine where
  lead := lead
  words := words
  two := h.words.length_eq ▸ q.two
  word := by
    have hall : ∀ v ∈ q.words.map Prod.fst, v ≠ [] ∧ ' ' ∉ v ∧ '*' ∉ v ∧ nul ∉ v := by
      rw [List.forall_mem_map]
      exact q.word
    rw [h.map_fst, List.forall_mem_map] at hall
    exact hall
  gap := h.gap q.gap
  quote := h.quote (fun w hw => (q.word w hw).1) q.quote

/-- More spaces never make an empty piece go away. -/
theorem QueryLine.Wide.widen {q : QueryLine} (hq : q.Wide) (h : Wider q.lead q.words lead words) :
    (q.widen lead words h).Wide :=
  hq.imp (fun hlead => Nat.lt_of_lt_of_le hlead h.lead) h.exists_gap

end lines

/-! ## The pieces of a line -/

section pieces

/-- Every blank in front of the query makes an empty piece. -/
theorem pieces_replicate (n : Nat) (s : List Char) :
    pieces (List.replicate n ' ' ++ s) = List.replicate n [] ++ pieces s := by
  induction n with
  | zero => rfl
  | succ n ih =>
      have hempty : ' ' ∉ ([] : List Char) := List.not_mem_nil
      rw [List.replicate_succ, List.replicate_succ, List.cons_append, List.cons_append, ← ih]
      exact pieces_append hempty _

/-- The first space behind a word ends it, and every other one ends an empty piece. -/
theorem pieces_word {w : List Char} {gap : Nat} {s : List Char} (hne : w ≠ []) (hw : ' ' ∉ w)
    (hs : s ≠ [] → 0 < gap) :
    pieces (w ++ List.replicate gap ' ' ++ s) = w :: (List.replicate (gap - 1) [] ++ pieces s) := by
  rcases gap with _ | gap
  · have hs : s = [] := by
      by_contra hs'
      exact absurd (hs hs') (Nat.lt_irrefl 0)
    subst hs
    rw [List.replicate_zero, List.append_nil, List.append_nil, pieces_of_notMem hne hw]
    simp [pieces]
  · rw [List.replicate_succ, List.append_assoc, List.cons_append, pieces_append hw, pieces_replicate,
      Nat.add_sub_cancel]

/-- The pieces of a line are its words, and an empty one for each space that does not end a word. -/
theorem pieces_words {words : List (List Char × Nat)} (hword : ∀ w ∈ words, w.1 ≠ [] ∧ ' ' ∉ w.1)
    (hgap : ∀ w ∈ words.dropLast, 0 < w.2) :
    pieces (words.flatMap fun w => w.1 ++ List.replicate w.2 ' ') =
      words.flatMap fun w => w.1 :: List.replicate (w.2 - 1) [] := by
  induction words with
  | nil => simp [pieces]
  | cons w words ih =>
      rw [List.forall_mem_cons] at hword
      have hrest : ∀ v ∈ words.dropLast, 0 < v.2 := by
        intro v hv
        apply hgap v
        rcases words with _ | ⟨u, us⟩
        · cases hv
        · rw [List.dropLast_cons_cons]
          exact List.mem_cons_of_mem w hv
      rw [List.flatMap_cons, List.flatMap_cons, pieces_word hword.1.1 hword.1.2, ih hword.2 hrest,
        List.cons_append]
      intro hne
      rcases words with _ | ⟨u, us⟩
      · exact absurd rfl hne
      · exact hgap w (by rw [List.dropLast_cons_cons]; exact List.mem_cons_self)

/-- The pieces of a query: its words, and an empty one for every blank but one between them. -/
theorem QueryLine.pieces_eq (q : QueryLine) : pieces q.chars =
    List.replicate q.lead [] ++ q.words.flatMap fun w => w.1 :: List.replicate (w.2 - 1) [] := by
  have hword : ∀ w ∈ q.words, w.1 ≠ [] ∧ ' ' ∉ w.1 := fun w hw => ⟨(q.word w hw).1, (q.word w hw).2.1⟩
  rw [QueryLine.chars, spaced, pieces_replicate, pieces_words hword q.gap]

/-- The pieces are the words, and the empty piece where there are spaces enough. -/
theorem QueryLine.mem_pieces (q : QueryLine) {w : List Char} :
    w ∈ pieces q.chars ↔ w ∈ q.words.map Prod.fst ∨ w = [] ∧ q.Wide := by
  simp only [q.pieces_eq, List.mem_append, List.mem_replicate, List.mem_flatMap, List.mem_cons,
    List.mem_map, QueryLine.Wide]
  constructor
  · rintro (⟨hlead, rfl⟩ | ⟨v, hv, rfl | ⟨hgap, rfl⟩⟩)
    · exact .inr ⟨rfl, .inl (Nat.pos_of_ne_zero hlead)⟩
    · exact .inl ⟨v, hv, rfl⟩
    · exact .inr ⟨rfl, .inr ⟨v, hv, by omega⟩⟩
  · rintro (⟨v, hv, rfl⟩ | ⟨rfl, hlead | ⟨v, hv, hgap⟩⟩)
    · exact .inr ⟨v, hv, .inl rfl⟩
    · exact .inl ⟨hlead.ne', rfl⟩
    · exact .inr ⟨v, hv, .inr ⟨by omega, rfl⟩⟩

/-- A character of none of the words is not in the query. -/
theorem QueryLine.notMem_chars (q : QueryLine) {c : Char} (hc : c ≠ ' ')
    (hword : ∀ w ∈ q.words, c ∉ w.1) : c ∉ q.chars := by
  rw [QueryLine.chars, spaced, List.mem_append, List.mem_flatMap, not_or]
  refine ⟨fun h => hc (List.eq_of_mem_replicate h), ?_⟩
  rintro ⟨w, hw, h⟩
  rcases List.mem_append.mp h with h | h
  · exact hword w hw h
  · exact hc (List.eq_of_mem_replicate h)

/-- The space behind the first word. -/
theorem QueryLine.space_mem (q : QueryLine) : ' ' ∈ q.chars := by
  obtain ⟨lead, words, two, -, gap, -⟩ := q
  rcases words with _ | ⟨w, _ | ⟨v, words⟩⟩
  · cases two
  · exact absurd two (Nat.not_succ_le_self 1)
  · have hpos : 0 < w.2 := gap w (by rw [List.dropLast_cons_cons]; exact List.mem_cons_self)
    simp [QueryLine.chars, spaced, hpos.ne']

/-- A query of several words is split at its spaces. -/
theorem QueryLine.parse_eq (q : QueryLine) : parse q.chars = some (.mword, pieces q.chars) := by
  have hexit : q.chars ≠ "PA1EXIT".toList := by
    intro hexit
    have hspace := q.space_mem
    rw [hexit] at hspace
    exact absurd hspace (by decide)
  have hstar : '*' ∉ q.chars := q.notMem_chars (by decide) fun w hw => (q.word w hw).2.2.1
  have hquote : q.chars.head? ≠ some '"' := q.quote
  rw [parse, if_neg hexit, if_pos hquote, findSub_singleton, if_neg hstar]
  dsimp only
  rw [findSub_singleton, if_pos q.space_mem, if_neg (Option.some_ne_none _)]

end pieces

/-! ## The lines that are found -/

/-- The line starts with a blank. -/
def Indented (s : List Char) : Prop := ∃ c ∈ s.head?, isBlank c = true

/-- The empty word is found in front of a blank at the start of the line. -/
theorem findWord_nil_isSome_iff {s : List Char} : (findWord [] s).isSome = true ↔ Indented s := by
  rcases s with _ | ⟨c, cs⟩
  · simp [findWord, Indented]
  · by_cases hc : isBlank c = true
    · rw [findWord, if_pos (by simp [hc])]
      simp [Indented, hc]
    · rw [findWord_nil_of_isBlank (by simpa using hc)]
      simp [Indented, hc]

/-- A line is found if the words are tokens of it, and if it starts with a blank where there is an empty
piece. -/
theorem QueryLine.all_pieces_iff (q : QueryLine) {s : List Char} :
    ((pieces q.chars).all fun w => (findWord w s).isSome) = true ↔
      (∀ w ∈ q.words.map Prod.fst, w ∈ tokens s) ∧ (q.Wide → Indented s) := by
  have hfound : ∀ w ∈ q.words.map Prod.fst, (findWord w s).isSome = true ↔ w ∈ tokens s := by
    rw [List.forall_mem_map]
    exact fun w hw => findWord_isSome_iff (q.word w hw).1
  rw [List.all_eq_true, ← findWord_nil_isSome_iff, ← forall₂_congr hfound]
  constructor
  · intro h
    exact ⟨fun w hw => h w (q.mem_pieces.mpr (.inl hw)),
      fun hwide => h [] (q.mem_pieces.mpr (.inr ⟨rfl, hwide⟩))⟩
  · rintro ⟨hwords, hempty⟩ w hw
    rcases q.mem_pieces.mp hw with hw | ⟨rfl, hwide⟩
    · exact hwords w hw
    · exact hempty hwide

/-- Two outputs differ in what is written for the hits. -/
theorem report_inj {out out' : List Out} : report out = report out' ↔ out = out' := by
  refine ⟨fun h => ?_, congrArg report⟩
  unfold report at h
  rw [List.append_assoc, List.append_assoc] at h
  have hlen := congrArg List.length h
  have hsame : out.length = out'.length := by
    rcases out with _ | ⟨o, os⟩ <;> rcases out' with _ | ⟨o', os'⟩ <;> simp at hlen ⊢
    omega
  exact (List.append_inj h hsame).1

/-- Leaving something out of the parts changes the whole. -/
theorem flatMap_eq_iff {es : List Line} {f f' : Line → List Out} (h : ∀ e ∈ es, (f' e).Sublist (f e)) :
    es.flatMap f' = es.flatMap f ↔ ∀ e ∈ es, f' e = f e := by
  induction es with
  | nil => simp
  | cons e es ih =>
      rw [List.forall_mem_cons] at h
      have hrest := ih h.2
      rw [List.forall_mem_cons, List.flatMap_cons, List.flatMap_cons, ← hrest]
      constructor
      · intro heq
        have hlen := congrArg List.length heq
        have hle := (List.Sublist.flatMap_right es h.2).length_le
        have hle' := h.1.length_le
        rw [List.length_append, List.length_append] at hlen
        have hsame : f' e = f e := h.1.eq_of_length (by omega)
        rw [hsame] at heq
        exact ⟨hsame, List.append_cancel_left heq⟩
      · rintro ⟨hsame, hwhole⟩
        rw [hsame, hwhole]

section parts

variable {words words' : List (List Char)} {s : List Char} {lineNum : Nat}

/-- Two lists of words write the same for a line exactly when both are in it or neither is. -/
theorem mwordOut_eq_iff : mwordOut words' s lineNum = mwordOut words s lineNum ↔
    ((words'.all fun w => (findWord w s).isSome) = true ↔
      (words.all fun w => (findWord w s).isSome) = true) := by
  have hne : lineOut lineNum ≠ [] := List.cons_ne_nil _ _
  unfold mwordOut
  split_ifs with hfound' hfound hfound <;> simp [hfound, hfound', hne, hne.symm]

/-- Fewer hits write a part. -/
theorem mwordOut_sublist (h : (words'.all fun w => (findWord w s).isSome) = true →
    (words.all fun w => (findWord w s).isSome) = true) :
    (mwordOut words' s lineNum).Sublist (mwordOut words s lineNum) := by
  unfold mwordOut
  split_ifs with hfound' hfound hfound
  · exact List.Sublist.refl _
  · exact absurd (h hfound') hfound
  · exact List.nil_sublist _
  · exact List.nil_sublist _

end parts

/-! ## Two runs of a query -/

/-- What `handle_mword` writes for a query, behind `resolve_input`. -/
def mwordQuery (m : Memory) (file : List Char) (indexList : LinkedList Line)
    (r : ReadResult bufSize Char) (inputList : InputList) (pos : Nat) : Option (List Out) := do
  let (_, inputList) ← resolveInput m.stale m.fill r inputList
  let (out, _) ← handleMword m.fill file indexList inputList pos
  return out

section runs

variable {file : List Char} {fuel : Nat} {st : ReadState} {es : List Line} {indexList : LinkedList Line}
  {q : QueryLine} {r : ReadResult bufSize Char} {inputList : InputList} {previous : List Word}

/-- A query has no NUL. -/
theorem nul_notMem_chars (q : QueryLine) : nul ∉ q.chars :=
  q.notMem_chars (by decide) fun w hw => (q.word w hw).2.2.2

/-- `resolve_input` leaves the pieces of the line in the list. -/
theorem resolveInput_line (m : Memory) (hr : r.bytes = q.chars ++ ['\n'])
    (hinput : inputList.Holds previous) :
    ∃ words, resolveInput m.stale m.fill r inputList = some (.mword, words) ∧
      LinkedList.Holds words (numbered 0 (pieces q.chars)) := by
  have hresolve := resolveInput_eq m.stale m.fill r hinput
  rw [if_neg (by simp [hr]), hr, List.dropLast_concat, text_of_notMem (nul_notMem_chars q),
    q.parse_eq] at hresolve
  exact hresolve

/-- The index that is read holds the lines. -/
theorem loaded_of_readFile (hrun : readFile file fuel .init = some st) (hholds : st.index.Holds es) :
    Loaded file es st.index := by
  obtain ⟨⟨es', hholds', hcont⟩, hle⟩ := readFile_indexed hrun
  obtain rfl := hholds.unique hholds'
  exact ⟨hholds, st.offset, hcont, hle⟩

/-- What is written is a function of the lines of the index and of the pieces. -/
theorem mwordQuery_eq (hindex : Loaded file es indexList) (m : Memory)
    (hr : r.bytes = q.chars ++ ['\n']) (hinput : inputList.Holds previous) (pos : Nat) :
    mwordQuery m file indexList r inputList pos =
      if es = [] then none
      else some (report (es.flatMap fun e => mwordOut (pieces q.chars) (lineText file e) e.lineNum)) := by
  obtain ⟨hholds, fin, hcont, hfin⟩ := hindex
  obtain ⟨words, hresolve, hwords⟩ := resolveInput_line m hr hinput
  have hnul : ∀ w ∈ pieces q.chars, nul ∉ w := fun w hw h =>
    nul_notMem_chars q (subset_of_mem_pieces hw h)
  have hhandle := handleMword_text m.fill hholds hcont hfin hnul hwords pos
  rw [mwordQuery, hresolve, Option.bind_eq_bind, Option.bind_some]
  dsimp only
  rw [hhandle, answer]
  split_ifs with hes
  · rw [searchOut, if_pos hes]
    rfl
  · have hlines : searchOut (fun e => scanOut .mword (pieces q.chars) (lineText file e) e.lineNum) es =
        some (report (es.flatMap fun e => mwordOut (pieces q.chars) (lineText file e) e.lineNum)) :=
      searchOut_eq hes _ fun e _ => rfl
    rw [hlines]
    rfl

/-- **Further spaces change nothing if and only if they make no empty piece where there was none, or every
line that has the words starts with a blank.** -/
theorem mwordQuery_widen_iff (hrun : readFile file fuel .init = some st) (hholds : st.index.Holds es)
    (q : QueryLine) {lead : Nat} {words : List (List Char × Nat)} (hwider : Wider q.lead q.words lead words)
    {r r' : ReadResult bufSize Char} (hr : r.bytes = q.chars ++ ['\n'])
    (hr' : r'.bytes = (q.widen lead words hwider).chars ++ ['\n'])
    {inputList inputList' : InputList} {previous previous' : List Word}
    (hinput : inputList.Holds previous) (hinput' : inputList'.Holds previous')
    (m m' : Memory) (pos pos' : Nat) :
    mwordQuery m' file st.index r' inputList' pos' = mwordQuery m file st.index r inputList pos ↔
      ((q.widen lead words hwider).Wide → q.Wide) ∨
        ∀ e ∈ es, (∀ w ∈ q.words.map Prod.fst, w ∈ tokens (lineText file e)) →
          Indented (lineText file e) := by
  have hindex := loaded_of_readFile hrun hholds
  have hfirst : (q.widen lead words hwider).words.map Prod.fst = q.words.map Prod.fst :=
    hwider.map_fst.symm
  have hwide : q.Wide → (q.widen lead words hwider).Wide := fun h => h.widen hwider
  rw [mwordQuery_eq hindex m' hr' hinput' pos', mwordQuery_eq hindex m hr hinput pos]
  split_ifs with hes
  · subst hes
    simp
  · rw [Option.some.injEq, report_inj, flatMap_eq_iff]
    · simp only [mwordOut_eq_iff, QueryLine.all_pieces_iff, hfirst]
      by_cases hsame : (q.widen lead words hwider).Wide → q.Wide
      · have hiff : (q.widen lead words hwider).Wide ↔ q.Wide := ⟨hsame, hwide⟩
        simp [hiff]
      · obtain ⟨hspaces, hnot⟩ := Classical.not_imp.mp hsame
        simp [hspaces, hnot]
    · intro e _
      apply mwordOut_sublist
      rw [QueryLine.all_pieces_iff, QueryLine.all_pieces_iff, hfirst]
      exact And.imp_right fun h hq => h (hwide hq)

/-- The query `a b`, and the same query with two spaces. -/
def abLine : QueryLine where
  lead := 0
  words := [(['a'], 1), (['b'], 0)]
  two := by decide
  word := by decide
  gap := by decide
  quote := by decide

/-- One more blank behind `a`. -/
theorem wider_abLine : Wider abLine.lead abLine.words 0 [(['a'], 2), (['b'], 0)] where
  lead := by decide
  words := .cons (by decide) (.cons (by decide) .nil)

/-- The query `a  b`. -/
def abWideRead : ReadResult bufSize Char := .data "a  b\n".toList (by decide)

/-- The query with one more blank, in a file of two lines. -/
theorem mwordQuery_widen_iff_twoAndRest : ∃ fuel st inputList,
    readFile twoAndRest fuel .init = some st ∧ LinkedList.Holds inputList (numbered 0 []) ∧
    ∀ m m' pos pos', mwordQuery m' twoAndRest st.index abWideRead inputList pos' =
        mwordQuery m twoAndRest st.index bothWords inputList pos ↔
      ((abLine.widen 0 [(['a'], 2), (['b'], 0)] wider_abLine).Wide → abLine.Wide) ∨
        ∀ e ∈ [⟨1, 0, 4⟩, ⟨2, 4, 2⟩],
          (∀ w ∈ abLine.words.map Prod.fst, w ∈ tokens (lineText twoAndRest e)) →
            Indented (lineText twoAndRest e) := by
  obtain ⟨fuel, st, hrun, hholds, -⟩ := exists_index
  obtain ⟨inputList, hinput⟩ := LinkedList.exists_holds (numbered 0 [])
  exact ⟨fuel, st, inputList, hrun, hinput, fun m m' pos pos' =>
    mwordQuery_widen_iff hrun hholds abLine wider_abLine (by decide) (by decide) hinput hinput m m'
      pos pos'⟩

/-- **With two spaces between the words the line `a b` is not found.** -/
theorem not_mwordQuery_widen : ∃ fuel st inputList,
    readFile twoAndRest fuel .init = some st ∧ LinkedList.Holds inputList (numbered 0 []) ∧
    bothWords.bytes = abLine.chars ++ ['\n'] ∧
    abWideRead.bytes = (abLine.widen 0 [(['a'], 2), (['b'], 0)] wider_abLine).chars ++ ['\n'] ∧
    ∀ m pos, mwordQuery m twoAndRest st.index bothWords inputList pos = some (report (lineOut 1)) ∧
      mwordQuery m twoAndRest st.index abWideRead inputList pos = some (report []) := by
  obtain ⟨fuel, st, hrun, hholds, -⟩ := exists_index
  obtain ⟨inputList, hinput⟩ := LinkedList.exists_holds (numbered 0 [])
  refine ⟨fuel, st, inputList, hrun, hinput, by decide, by decide, fun m pos => ?_⟩
  have hindex := loaded_of_readFile hrun hholds
  have hread : bothWords.bytes = abLine.chars ++ ['\n'] := by decide
  have hwide : abWideRead.bytes =
      (abLine.widen 0 [(['a'], 2), (['b'], 0)] wider_abLine).chars ++ ['\n'] := by decide
  rw [mwordQuery_eq hindex m hread hinput pos, mwordQuery_eq hindex m hwide hinput pos]
  decide +kernel

end runs

end SystemProgrammingLab.Pa1
