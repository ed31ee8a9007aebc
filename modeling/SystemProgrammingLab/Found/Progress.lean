import SystemProgrammingLab.Found.Run
import Mathlib.Algebra.GroupWithZero.Nat

/-!
# Runs that come to an end

A number of the state that every step decreases bounds the length of a run. Some steps may also give
something back (`refill`); the bound then counts what they gave (`Run.measure_le`). A system all of
whose steps decrease the number can always be run to a state in which no step is possible
(`exists_final`), and a run that has stopped there is the whole run.
-/

namespace SystemProgrammingLab.Found

variable {σ ε : Type*} {R : σ → ε → σ → Prop}

/-- No step is possible. -/
def Final (R : σ → ε → σ → Prop) (s : σ) : Prop := ∀ e s', ¬ R s e s'

/-- A step takes one from the measure and may refill it. The measure at the end and the number of
steps are at most the measure at the start and all that was refilled. -/
theorem Run.measure_le (I : σ → Prop) (μ : σ → Nat) (refill : ε → Nat)
    (hstep : ∀ s e s', I s → R s e s' → I s' ∧ μ s' + 1 ≤ μ s + refill e) {s s' : σ} {es : List ε}
    (h : Run R s es s') (hI : I s) : I s' ∧ μ s' + es.length ≤ μ s + (es.map refill).sum := by
  induction h with
  | nil => exact ⟨hI, Nat.le_refl _⟩
  | @snoc es e s₁ s₂ hrun hs ih =>
      obtain ⟨hI₁, hle⟩ := ih
      obtain ⟨hI₂, hdrop⟩ := hstep _ _ _ hI₁ hs
      refine ⟨hI₂, ?_⟩
      rw [List.length_append, List.length_singleton, List.map_append, List.sum_append,
        List.map_singleton, List.sum_singleton]
      omega

/-- When every step decreases the measure, a run is no longer than the measure at its start. -/
theorem Run.length_le (I : σ → Prop) (μ : σ → Nat)
    (hstep : ∀ s e s', I s → R s e s' → I s' ∧ μ s' + 1 ≤ μ s) {s s' : σ} {es : List ε}
    (h : Run R s es s') (hI : I s) : es.length ≤ μ s := by
  have hle := (h.measure_le I μ (fun _ => 0) hstep hI).2
  rw [List.map_const', List.sum_replicate_nat, Nat.mul_zero] at hle
  omega

/-- When every step decreases the measure, some run leads to a state in which no step is possible. -/
theorem exists_final (I : σ → Prop) (μ : σ → Nat)
    (hstep : ∀ s e s', I s → R s e s' → I s' ∧ μ s' + 1 ≤ μ s) {s : σ} (hI : I s) :
    ∃ es s', Run R s es s' ∧ Final R s' := by
  induction hn : μ s using Nat.strongRecOn generalizing s with
  | ind n ih =>
      by_cases hfinal : Final R s
      · exact ⟨[], s, .nil, hfinal⟩
      · simp only [Final, not_forall, not_not] at hfinal
        obtain ⟨e, s₁, hs⟩ := hfinal
        obtain ⟨hI₁, hdrop⟩ := hstep _ _ _ hI hs
        obtain ⟨es, s', hrun, hfinal'⟩ := ih (μ s₁) (by omega) hI₁ rfl
        exact ⟨e :: es, s', run_cons_iff.mpr ⟨s₁, hs, hrun⟩, hfinal'⟩

/-- When no run is longer than `n`, some run leads to a state in which no step is possible. -/
theorem exists_final_of_length_le {s : σ} {n : Nat} (h : ∀ es s', Run R s es s' → es.length ≤ n) :
    ∃ es s', Run R s es s' ∧ Final R s' := by
  induction n generalizing s with
  | zero =>
      refine ⟨[], s, .nil, fun e s' hstep => ?_⟩
      have hlen := h [e] s' (run_singleton_iff.mpr hstep)
      exact Nat.not_succ_le_zero 0 hlen
  | succ n ih =>
      by_cases hfinal : Final R s
      · exact ⟨[], s, .nil, hfinal⟩
      · simp only [Final, not_forall, not_not] at hfinal
        obtain ⟨e, s₁, hs⟩ := hfinal
        obtain ⟨es, s', hrun, hfinal'⟩ := @ih s₁ fun es s' hrun =>
          Nat.le_of_succ_le_succ (h (e :: es) s' (run_cons_iff.mpr ⟨s₁, hs, hrun⟩))
        exact ⟨e :: es, s', run_cons_iff.mpr ⟨s₁, hs, hrun⟩, hfinal'⟩

end SystemProgrammingLab.Found
