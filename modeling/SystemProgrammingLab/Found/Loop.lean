import Mathlib.Tactic.Common

/-!
# Loops

A `while` loop is given by its round: `round s` is the state after one round, and `none` where the condition
fails. `runLoop` executes it with a bound on the number of rounds, and `LoopEnds round s t` says that the loop
that is entered in the state `s` ends in `t`, for which there is no bound.

`exists_loopEnds` is the rule for total correctness: what every round keeps holds at the end, where the
condition fails, and a loop whose rounds lower a measure ends. A loop ends in one state at most
(`LoopEnds.unique`).
-/

namespace SystemProgrammingLab.Found

variable {σ : Type*} {round : σ → Option σ} {s s' t t' : σ}

/-- Run the loop for fewer than `n` rounds; `none` when it has not ended by then. -/
def runLoop (round : σ → Option σ) : Nat → σ → Option σ
  | 0, _ => none
  | n + 1, s =>
      match round s with
      | none => some s
      | some s' => runLoop round n s'

/-- The loop that is entered in the state `s` ends in `t`. -/
def LoopEnds (round : σ → Option σ) (s t : σ) : Prop := ∃ n, runLoop round n s = some t

/-- The loop stops. -/
theorem LoopEnds.stop (h : round s = none) : LoopEnds round s s := ⟨1, by rw [runLoop, h]⟩

/-- It does one round, and the others. -/
theorem LoopEnds.next (h : round s = some s') (hrest : LoopEnds round s' t) : LoopEnds round s t := by
  obtain ⟨n, hn⟩ := hrest
  refine ⟨n + 1, ?_⟩
  rw [runLoop, h]
  exact hn

/-- A larger bound changes nothing. -/
theorem runLoop_of_le {n k : Nat} (h : runLoop round n s = some t) (hle : n ≤ k) :
    runLoop round k s = some t := by
  induction n generalizing s k with
  | zero => cases h
  | succ n ih =>
      obtain ⟨k, rfl⟩ : ∃ j, k = j + 1 := ⟨k - 1, by omega⟩
      rw [runLoop] at h ⊢
      rcases hround : round s with _ | s' <;> rw [hround] at h
      · exact h
      · exact ih h (Nat.le_of_succ_le_succ hle)

/-- A loop ends in one state at most. -/
theorem LoopEnds.unique (h : LoopEnds round s t) (h' : LoopEnds round s t') : t = t' := by
  obtain ⟨n, hn⟩ := h
  obtain ⟨k, hk⟩ := h'
  have hn' := runLoop_of_le hn (Nat.le_max_left n k)
  have hk' := runLoop_of_le hk (Nat.le_max_right n k)
  exact Option.some.inj (hn'.symm.trans hk')

/-- What every round keeps holds at the end, and rounds that lower a measure come to an end. -/
theorem exists_loopEnds (I : σ → Prop) (m : σ → Nat)
    (hround : ∀ s s', I s → round s = some s' → I s' ∧ m s' < m s) (hs : I s) :
    ∃ t, LoopEnds round s t ∧ I t ∧ round t = none := by
  induction hm : m s using Nat.strongRecOn generalizing s with
  | ind n ih =>
      subst hm
      rcases hnext : round s with _ | s'
      · exact ⟨s, .stop hnext, hs, hnext⟩
      · obtain ⟨hs', hlt⟩ := hround s s' hs hnext
        obtain ⟨t, hends, ht⟩ := ih (m s') hlt hs' rfl
        exact ⟨t, .next hnext hends, ht⟩

end SystemProgrammingLab.Found
