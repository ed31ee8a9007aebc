import Mathlib.Data.List.Basic
import Mathlib.Data.List.TakeWhile
import Mathlib.Tactic.Common

/-!
# Words

The words of a list are its longest parts without a separator, in order. `words_append_sep` says that
a separator ends a word wherever it stands, and the other equations follow from it: separators in
front of a list do not matter (`words_dropWhile`), and what is in front of the first separator is the
first word (`words_cons`).
-/

namespace SystemProgrammingLab.Found

variable {α : Type*} {p : α → Bool} {s w : List α} {c : α}

/-- The longest parts of a list that have no separator in them and are not empty. -/
def words (p : α → Bool) (s : List α) : List (List α) :=
  (s.splitOnP p).filter fun w => !w.isEmpty

/-- The empty text has no words. -/
@[simp] theorem words_nil : words p [] = [] := by
  unfold words
  rw [List.splitOnP_nil]
  rfl

/-- A separator ends a word. -/
theorem words_append_sep (hc : p c = true) (s t : List α) :
    words p (s ++ c :: t) = words p s ++ words p t := by
  unfold words
  rw [List.splitOnP_append_cons s t hc, List.filter_append]

/-- A separator in front is skipped. -/
theorem words_cons_sep (hc : p c = true) (s : List α) : words p (c :: s) = words p s := by
  have h := words_append_sep hc [] s
  rwa [words_nil, List.nil_append, List.nil_append] at h

/-- A text without separators is one word. -/
theorem words_of_forall (hne : w ≠ []) (hw : ∀ c ∈ w, p c = false) : words p w = [w] := by
  unfold words
  rw [List.splitOnP_eq_singleton hw]
  simp [hne]

/-- A word in front of the end or of a separator. -/
theorem words_append (hne : w ≠ []) (hw : ∀ c ∈ w, p c = false) (hs : ∀ c ∈ s.head?, p c = true) :
    words p (w ++ s) = w :: words p s := by
  rcases s with _ | ⟨c, s⟩
  · rw [List.append_nil, words_of_forall hne hw, words_nil]
  · have hc : p c = true := hs c rfl
    rw [words_append_sep hc, words_of_forall hne hw, words_cons_sep hc, List.singleton_append]

/-- So are all separators in front. -/
theorem words_dropWhile (s : List α) : words p (s.dropWhile p) = words p s := by
  induction s with
  | nil => rfl
  | cons c s ih =>
      by_cases hc : p c = true
      · rw [List.dropWhile_cons_of_pos hc, ih, words_cons_sep hc]
      · rw [List.dropWhile_cons_of_neg hc]

/-- What is in front of the first separator is the first word. -/
theorem words_cons (hc : p c = false) (s : List α) :
    words p (c :: s) =
      (c :: s).takeWhile (fun c => !p c) :: words p ((c :: s).dropWhile fun c => !p c) := by
  have hword : (c :: s).takeWhile (fun c => !p c) ≠ [] := by simp [hc]
  have hsplit := List.takeWhile_append_dropWhile (p := fun c => !p c) (l := c :: s)
  conv_lhs => rw [← hsplit]
  apply words_append hword
  · intro d hd
    simpa using List.mem_takeWhile_imp hd
  · intro d hd
    have hnot := List.head?_dropWhile_not (fun c => !p c) (c :: s)
    rw [Option.mem_def.mp hd] at hnot
    simpa using hnot

end SystemProgrammingLab.Found
