import Mathlib.Data.List.Basic
import Mathlib.Data.List.TakeWhile
import Mathlib.Tactic.Common

/-!
# Lines

A text is a sequence of lines, each with the delimiter `d` behind it, and a rest without a delimiter.
`splitLines d s` is this decomposition of `s`, and there is no other one (`splitLines_eq`).

`LinesWithin d n s` bounds the lines: each of them fits into `n` items together with its delimiter, and
so does the rest. A window of `n` items at the start of such a text holds the first line whole, or the
whole text (`LinesWithin.exists_line`), and lines that are split off a window can be put back
(`linesWithin_joinLines`).

`allLines` has the lines with their delimiters and a rest as a last line, `firstLines` the first ones and
`lastLines` the last ones of them; `beforeLastLines_delimiter` finds the place by counting delimiters.

Windows of any length that follow each other, each of which shows a line up to the delimiter, are the
lines themselves (`eq_lines_of_takeWhile`).
-/

namespace SystemProgrammingLab.Found

variable {α : Type*} {d : α}

/-! ## Lines and their text -/

/-- The lines, each with `d` behind it. -/
def joinLines (d : α) (ls : List (List α)) : List α := ls.flatMap (· ++ [d])

/-- No lines. -/
@[simp] theorem joinLines_nil : joinLines d [] = [] := rfl

/-- A line stands in front of its delimiter. -/
@[simp] theorem joinLines_cons (l : List α) (ls : List (List α)) :
    joinLines d (l :: ls) = l ++ d :: joinLines d ls := by
  simp [joinLines]

/-- Lines behind lines. -/
theorem joinLines_append (ls ls' : List (List α)) :
    joinLines d (ls ++ ls') = joinLines d ls ++ joinLines d ls' := List.flatMap_append

/-- Only no lines are joined to the empty text. -/
theorem joinLines_eq_nil_iff {ls : List (List α)} : joinLines d ls = [] ↔ ls = [] := by
  cases ls <;> simp

/-- Lines end in the delimiter. -/
theorem getLast?_joinLines {ls : List (List α)} (h : ls ≠ []) : (joinLines d ls).getLast? = some d := by
  obtain ⟨ls, l, rfl⟩ := (List.eq_nil_or_concat' ls).resolve_left h
  rw [joinLines_append, joinLines_cons, joinLines_nil, ← List.append_assoc, List.getLast?_concat]

variable [DecidableEq α]

/-- The lines of a text, and what follows the last delimiter. -/
def splitLines (d : α) : List α → List (List α) × List α
  | [] => ([], [])
  | x :: s =>
      if x = d then ([] :: (splitLines d s).1, (splitLines d s).2)
      else
        match splitLines d s with
        | ([], rest) => ([], x :: rest)
        | (l :: ls, rest) => ((x :: l) :: ls, rest)

/-- A text without a delimiter has no complete line. -/
theorem splitLines_of_notMem {s : List α} (h : d ∉ s) : splitLines d s = ([], s) := by
  induction s with
  | nil => rfl
  | cons x s ih =>
      rw [List.mem_cons, not_or] at h
      rw [splitLines, if_neg (Ne.symm h.1), ih h.2]

/-- Without a delimiter everything is dropped. -/
theorem dropWhile_ne_of_notMem {s : List α} (h : d ∉ s) : s.dropWhile (· ≠ d) = [] := by
  rw [List.dropWhile_eq_nil_iff]
  intro x hx
  exact decide_eq_true fun hd => h (hd ▸ hx)

/-- What is left behind a line starts with its delimiter. -/
theorem dropWhile_ne_append {l : List α} (h : d ∉ l) (s : List α) :
    (l ++ d :: s).dropWhile (· ≠ d) = d :: s := by
  rw [List.dropWhile_append_of_pos]
  · simp
  · intro x hx
    exact decide_eq_true fun hd => h (hd ▸ hx)

/-- What stands behind the delimiter does not matter. -/
theorem takeWhile_append_delimiter (l s : List α) :
    (l ++ d :: s).takeWhile (· ≠ d) = l.takeWhile (· ≠ d) := by
  induction l with
  | nil => simp
  | cons x l ih =>
      rw [List.cons_append, List.takeWhile_cons, List.takeWhile_cons, ih]

/-- What stands in front of the delimiter is the line. -/
theorem takeWhile_ne_append {l : List α} (h : d ∉ l) (s : List α) :
    (l ++ d :: s).takeWhile (· ≠ d) = l := by
  rw [takeWhile_append_delimiter, List.takeWhile_eq_self_iff]
  intro x hx
  exact decide_eq_true fun hd => h (hd ▸ hx)

/-- The first line is split off. -/
theorem splitLines_line {l : List α} (h : d ∉ l) (s : List α) :
    splitLines d (l ++ d :: s) = (l :: (splitLines d s).1, (splitLines d s).2) := by
  induction l with
  | nil => rw [List.nil_append, splitLines, if_pos rfl]
  | cons x l ih =>
      rw [List.mem_cons, not_or] at h
      rw [List.cons_append, splitLines, if_neg (Ne.symm h.1), ih h.2]

/-- Joined lines are split into themselves. -/
theorem splitLines_joinLines {ls : List (List α)} (h : ∀ l ∈ ls, d ∉ l) (s : List α) :
    splitLines d (joinLines d ls ++ s) = (ls ++ (splitLines d s).1, (splitLines d s).2) := by
  induction ls with
  | nil => rfl
  | cons l ls ih =>
      rw [List.forall_mem_cons] at h
      rw [joinLines_cons, List.append_assoc, List.cons_append, splitLines_line h.1, ih h.2]
      rfl

/-- There is one way only to write a text as lines and a rest. -/
theorem splitLines_eq {ls : List (List α)} {rest : List α} (h : ∀ l ∈ ls, d ∉ l) (hrest : d ∉ rest) :
    splitLines d (joinLines d ls ++ rest) = (ls, rest) := by
  rw [splitLines_joinLines h, splitLines_of_notMem hrest, List.append_nil]

/-- And a text is its lines and the rest. -/
theorem joinLines_splitLines (s : List α) :
    joinLines d (splitLines d s).1 ++ (splitLines d s).2 = s := by
  induction s with
  | nil => rfl
  | cons x s ih =>
      rw [splitLines]
      by_cases hx : x = d
      · rw [if_pos hx, joinLines_cons, List.nil_append, List.cons_append, ih, hx]
      · rw [if_neg hx]
        rcases hsplit : splitLines d s with ⟨_ | ⟨l, ls⟩, rest⟩ <;> rw [hsplit] at ih
        · have hrest : rest = s := ih
          rw [hrest]
          rfl
        · rw [joinLines_cons, List.append_assoc] at ih
          simp [← ih]

/-- Neither a line nor the rest has a delimiter. -/
theorem splitLines_notMem (s : List α) :
    (∀ l ∈ (splitLines d s).1, d ∉ l) ∧ d ∉ (splitLines d s).2 := by
  induction s with
  | nil => simp [splitLines]
  | cons x s ih =>
      rw [splitLines]
      by_cases hx : x = d
      · rw [if_pos hx]
        exact ⟨List.forall_mem_cons.mpr ⟨List.not_mem_nil, ih.1⟩, ih.2⟩
      · rw [if_neg hx]
        rcases hsplit : splitLines d s with ⟨_ | ⟨l, ls⟩, rest⟩ <;> rw [hsplit] at ih
        · exact ⟨by simp, List.not_mem_cons_of_ne_of_not_mem (Ne.symm hx) ih.2⟩
        · rw [List.forall_mem_cons] at ih
          have hl := List.not_mem_cons_of_ne_of_not_mem (Ne.symm hx) ih.1.1
          exact ⟨List.forall_mem_cons.mpr ⟨hl, ih.1.2⟩, ih.2⟩

/-- Every text is lines and a rest. -/
theorem exists_lines (d : α) (s : List α) : ∃ ls rest, s = joinLines d ls ++ rest ∧
    (∀ l ∈ ls, d ∉ l) ∧ d ∉ rest ∧ splitLines d s = (ls, rest) :=
  ⟨(splitLines d s).1, (splitLines d s).2, (joinLines_splitLines s).symm, (splitLines_notMem s).1,
    (splitLines_notMem s).2, rfl⟩

/-- The lines are no longer than the text. -/
theorem length_joinLines_le (d : α) (s : List α) : (joinLines d (splitLines d s).1).length ≤ s.length := by
  have hlen := congrArg List.length (joinLines_splitLines (d := d) s)
  rw [List.length_append] at hlen
  exact Nat.le_of_add_right_le (Nat.le_of_eq hlen)

/-- A text without a rest is empty or ends in the delimiter. -/
theorem splitLines_snd_eq_nil_iff {s : List α} :
    (splitLines d s).2 = [] ↔ s = [] ∨ s.getLast? = some d := by
  obtain ⟨ls, rest, rfl, hls, hrest, hsplit⟩ := exists_lines d s
  rw [hsplit]
  constructor
  · rintro rfl
    rw [List.append_nil, joinLines_eq_nil_iff]
    exact (em (ls = [])).imp_right getLast?_joinLines
  · rintro (h | h)
    · exact (List.append_eq_nil_iff.mp h).2
    · by_contra hne
      rw [List.getLast?_append_of_ne_nil _ hne] at h
      exact hrest (List.mem_of_getLast? h)

/-! ## The last lines -/

/-- The lines with their delimiters; a rest is a line as well. -/
def allLines (d : α) (s : List α) : List (List α) :=
  (splitLines d s).1.map (· ++ [d]) ++ if (splitLines d s).2 = [] then [] else [(splitLines d s).2]

/-- The last `n` lines, or all of them. -/
def lastLines (d : α) (n : Nat) (s : List α) : List α :=
  ((allLines d s).drop ((allLines d s).length - n)).flatten

/-- What stands in front of the last `n` lines. -/
def beforeLastLines (d : α) (n : Nat) (s : List α) : List α :=
  ((allLines d s).take ((allLines d s).length - n)).flatten

/-- The first `n` lines, or all of them. -/
def firstLines (d : α) (n : Nat) (s : List α) : List α := ((allLines d s).take n).flatten

/-- The empty text has no lines. -/
@[simp] theorem allLines_nil : allLines d [] = [] := rfl

/-- The first 0 lines. -/
@[simp] theorem firstLines_zero (s : List α) : firstLines d 0 s = [] := rfl

/-- The first lines of the empty text. -/
@[simp] theorem firstLines_nil (n : Nat) : firstLines d n [] = [] := by simp [firstLines]

/-- The first item belongs to the first line. -/
theorem allLines_cons (x : α) (s : List α) : allLines d (x :: s) =
    if x = d then [d] :: allLines d s
    else (x :: (allLines d s).headD []) :: (allLines d s).tail := by
  unfold allLines
  rw [splitLines]
  by_cases hx : x = d
  · rw [if_pos hx, if_pos hx]
    rfl
  · rw [if_neg hx, if_neg hx]
    rcases splitLines d s with ⟨_ | ⟨l, ls⟩, rest⟩
    · by_cases hrest : rest = []
      · simp [hrest]
      · simp [hrest]
    · rfl

/-- The lines unfold at the first item. -/
theorem firstLines_cons (n : Nat) (x : α) (s : List α) : firstLines d (n + 1) (x :: s) =
    x :: firstLines d (if x = d then n else n + 1) s := by
  unfold firstLines
  rw [allLines_cons]
  by_cases hx : x = d
  · rw [if_pos hx, if_pos hx, List.take_succ_cons, List.flatten_cons, hx]
    rfl
  · rw [if_neg hx, if_neg hx, List.take_succ_cons, List.flatten_cons]
    rcases allLines d s with _ | ⟨l, ls⟩
    · rw [List.tail_nil, List.take_nil, List.take_nil]
      rfl
    · rfl

/-- All lines of joined lines and a rest. -/
theorem allLines_joinLines {ls : List (List α)} (h : ∀ l ∈ ls, d ∉ l) (s : List α) :
    allLines d (joinLines d ls ++ s) = ls.map (· ++ [d]) ++ allLines d s := by
  unfold allLines
  rw [splitLines_joinLines h, List.map_append, List.append_assoc]

/-- Whether a delimiter stands behind the last line or not, the others end in one. -/
theorem length_allLines_concat (s : List α) (x : α) :
    (allLines d (s ++ [x])).length = s.count d + 1 := by
  obtain ⟨ls, rest, rfl, hls, hrest, -⟩ := exists_lines d s
  have hcount : (joinLines d ls).count d = ls.length := by
    clear hrest
    induction ls with
    | nil => rfl
    | cons l ls ih =>
        rw [List.forall_mem_cons] at hls
        rw [joinLines_cons, List.count_append, List.count_eq_zero_of_not_mem hls.1, List.count_cons_self,
          ih hls.2, Nat.zero_add, List.length_cons]
  have hlast : (allLines d (rest ++ [x])).length = 1 := by
    unfold allLines
    by_cases hx : x = d
    · subst hx
      rw [splitLines_line hrest]
      rfl
    · have hnot : d ∉ rest ++ [x] := by
        rw [List.mem_append, List.mem_singleton, not_or]
        exact ⟨hrest, Ne.symm hx⟩
      rw [splitLines_of_notMem hnot, if_neg (by simp)]
      rfl
  rw [List.append_assoc, allLines_joinLines hls, List.length_append, List.length_map, hlast,
    List.count_append, hcount, List.count_eq_zero_of_not_mem hrest, Nat.add_zero]

/-- All lines are the text. -/
theorem flatten_allLines (s : List α) : (allLines d s).flatten = s := by
  have hs := joinLines_splitLines (d := d) s
  rw [joinLines, List.flatMap_def] at hs
  unfold allLines
  rw [List.flatten_append]
  split_ifs with hrest
  · rw [hrest, List.append_nil] at hs
    rw [List.flatten_nil, List.append_nil, hs]
  · rw [List.flatten_singleton, hs]

/-- The text is the last lines and what stands in front of them. -/
theorem beforeLastLines_append_lastLines (n : Nat) (s : List α) :
    beforeLastLines d n s ++ lastLines d n s = s := by
  rw [beforeLastLines, lastLines, ← List.flatten_append, List.take_append_drop, flatten_allLines]

/-- The last lines are what is left. -/
theorem lastLines_eq_drop (n : Nat) (s : List α) :
    lastLines d n s = s.drop (beforeLastLines d n s).length := by
  have hdrop : (beforeLastLines d n s ++ lastLines d n s).drop (beforeLastLines d n s).length =
      lastLines d n s := List.drop_left
  rw [beforeLastLines_append_lastLines] at hdrop
  exact hdrop.symm

/-- In front of the last 0 lines stands the text. -/
theorem beforeLastLines_zero (s : List α) : beforeLastLines d 0 s = s := by
  rw [beforeLastLines, Nat.sub_zero, List.take_length, flatten_allLines]

/-- In front of the lines of the empty text stands nothing. -/
theorem beforeLastLines_nil (n : Nat) : beforeLastLines d n [] = [] := by simp [beforeLastLines]

/-- A text of up to `n` lines has nothing in front of them. -/
theorem beforeLastLines_of_count_lt {n : Nat} {s : List α} (h : s.count d < n) (x : α) :
    beforeLastLines d n (s ++ [x]) = [] := by
  rw [beforeLastLines, length_allLines_concat, Nat.sub_eq_zero_of_le h]
  rfl

/-- A line that ends in front of `n` lines. -/
theorem beforeLastLines_delimiter {n : Nat} {s t : List α} (h : t.count d + 1 = n) (x : α) :
    beforeLastLines d n (s ++ d :: (t ++ [x])) = s ++ [d] := by
  obtain ⟨ls, rest, rfl, hls, hrest, -⟩ := exists_lines d s
  have hall : allLines d (joinLines d ls ++ rest ++ d :: (t ++ [x])) =
      (ls ++ [rest]).map (· ++ [d]) ++ allLines d (t ++ [x]) := by
    rw [← allLines_joinLines (List.forall_mem_append.mpr ⟨hls, by simpa using hrest⟩), joinLines_append]
    simp
  rw [beforeLastLines, hall, List.length_append, length_allLines_concat, h, Nat.add_sub_cancel,
    List.take_left, ← List.flatMap_def]
  show joinLines d (ls ++ [rest]) = _
  rw [joinLines_append]
  simp

/-! ## Windows over lines -/

/-- A window that is the first line without its last item, up to an item `z`, is the line with its
delimiter. -/
theorem eq_line_of_takeWhile {z : α} (hz : z ≠ d) {c l more more' : List α} (hne : c ≠ [])
    (hl : c.dropLast.takeWhile (· ≠ z) = l) (h : c ++ more = l ++ d :: more') :
    c = l ++ [d] ∧ more = more' := by
  obtain ⟨c, x, rfl⟩ := (List.eq_nil_or_concat' c).resolve_left hne
  rw [List.dropLast_concat] at hl
  have hsplit := List.takeWhile_append_dropWhile (p := (· ≠ z)) (l := c)
  rw [hl] at hsplit
  rcases hdrop : c.dropWhile (· ≠ z) with _ | ⟨y, ys⟩
  · rw [hdrop, List.append_nil] at hsplit
    subst hsplit
    rw [List.append_assoc] at h
    obtain ⟨rfl, rfl⟩ := List.cons.inj (List.append_cancel_left h)
    exact ⟨rfl, rfl⟩
  · -- the delimiter would be `z`
    have hy : y = z := by
      have hstop := List.head?_dropWhile_not (· ≠ z) c
      rw [hdrop] at hstop
      simpa using hstop
    rw [hdrop] at hsplit
    rw [← hsplit, List.append_assoc, List.append_assoc, List.cons_append] at h
    exact absurd (hy.symm.trans (List.cons.inj (List.append_cancel_left h)).1) hz

/-- Windows that follow each other and each show a line are the lines with their delimiters. -/
theorem eq_lines_of_takeWhile {z : α} (hz : z ≠ d) {cs : List (List α)} (hne : ∀ c ∈ cs, c ≠ []) :
    ∀ {ls : List (List α)} {more more' : List α},
      cs.map (fun c => c.dropLast.takeWhile (· ≠ z)) = ls →
      cs.flatten ++ more = joinLines d ls ++ more' → cs = ls.map (· ++ [d]) ∧ more = more' := by
  induction cs with
  | nil =>
      rintro _ more more' rfl h
      exact ⟨rfl, h⟩
  | cons c cs ih =>
      rintro _ more more' rfl h
      rw [List.forall_mem_cons] at hne
      rw [List.flatten_cons, List.append_assoc, List.map_cons, joinLines_cons, List.append_assoc,
        List.cons_append] at h
      obtain ⟨hc, hrest⟩ := eq_line_of_takeWhile hz hne.1 rfl h
      obtain ⟨hcs, hmore⟩ := ih hne.2 rfl hrest
      exact ⟨by rw [List.map_cons, List.map_cons, ← hc, ← hcs], hmore⟩

/-! ## Lines of bounded length -/

/-- Each line fits into `n` items together with its delimiter, and so does the rest. -/
def LinesWithin (d : α) (n : Nat) (s : List α) : Prop :=
  (∀ l ∈ (splitLines d s).1, l.length + 1 ≤ n) ∧ (splitLines d s).2.length ≤ n

instance (d : α) (n : Nat) (s : List α) : Decidable (LinesWithin d n s) :=
  inferInstanceAs (Decidable ((∀ l ∈ (splitLines d s).1, l.length + 1 ≤ n) ∧
    (splitLines d s).2.length ≤ n))

omit [DecidableEq α] in
/-- A line is shorter than the joined lines. -/
theorem length_lt_joinLines {ls : List (List α)} {l : List α} (h : l ∈ ls) :
    l.length < (joinLines d ls).length := by
  have hle := (List.sublist_flatten_of_mem (List.mem_map_of_mem (f := (· ++ [d])) h)).length_le
  rw [List.length_append, List.length_singleton] at hle
  rw [joinLines, List.flatMap_def]
  exact hle

/-- A text of at most `n` items has such lines. -/
theorem linesWithin_of_length_le {n : Nat} {s : List α} (h : s.length ≤ n) : LinesWithin d n s := by
  obtain ⟨ls, rest, rfl, -, -, hsplit⟩ := exists_lines d s
  rw [List.length_append] at h
  unfold LinesWithin
  rw [hsplit]
  refine ⟨?_, Nat.le_trans (Nat.le_add_left _ _) h⟩
  intro l hl
  have hlt : l.length < (joinLines d ls).length := length_lt_joinLines hl
  omega

/-- Lines that fit do not matter for the bound. -/
theorem linesWithin_joinLines {n : Nat} {ls : List (List α)} (h : ∀ l ∈ ls, d ∉ l)
    (hle : (joinLines d ls).length ≤ n) (s : List α) :
    LinesWithin d n (joinLines d ls ++ s) ↔ LinesWithin d n s := by
  unfold LinesWithin
  rw [splitLines_joinLines h]
  constructor
  · rintro ⟨hls, hrest⟩
    exact ⟨fun l hl => hls l (List.mem_append_right ls hl), hrest⟩
  · rintro ⟨hls, hrest⟩
    refine ⟨?_, hrest⟩
    intro l hl
    rcases List.mem_append.mp hl with hl | hl
    · exact Nat.lt_of_lt_of_le (length_lt_joinLines hl) hle
    · exact hls l hl

/-- A window at the start of a text whose lines fit holds the first line, or all of the text. -/
theorem LinesWithin.exists_line {n : Nat} {s : List α} (h : LinesWithin d n s) :
    (splitLines d (s.take n)).1 ≠ [] ∨ s.length ≤ n := by
  obtain ⟨ls, rest, rfl, hls, hrest, hsplit⟩ := exists_lines d s
  unfold LinesWithin at h
  rw [hsplit] at h
  cases ls with
  | nil => exact .inr h.2
  | cons l ls =>
      have hl : l.length + 1 ≤ n := h.1 l List.mem_cons_self
      have htake : (joinLines d (l :: ls) ++ rest).take n =
          l ++ d :: (joinLines d ls ++ rest).take (n - (l.length + 1)) := by
        rw [joinLines_cons, List.append_assoc, List.take_append, List.take_of_length_le (by omega),
          List.cons_append, show n - l.length = n - (l.length + 1) + 1 by omega, List.take_succ_cons]
      rw [htake, splitLines_line (hls l List.mem_cons_self)]
      exact .inl (List.cons_ne_nil _ _)

end SystemProgrammingLab.Found
