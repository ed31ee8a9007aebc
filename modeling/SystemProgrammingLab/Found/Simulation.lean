import SystemProgrammingLab.Found.Run
import Mathlib.Data.List.Forall2

/-!
# Forward simulation with stuttering

A step of the concrete system `R` is matched by a run of the abstract system `T`, which may be empty or
longer than one step. `M e ds` says which abstract events `ds` the concrete event `e` shows. When each step
from related states is matched and ends in related states, each run is (`Run.simulated`): its history
shows, event by event, the history of an abstract run.
-/

namespace SystemProgrammingLab.Found

variable {σ τ ε δ : Type*} {R : σ → ε → σ → Prop} {T : τ → δ → τ → Prop}

/-- **The simulation rule.** -/
theorem Run.simulated (S : σ → τ → Prop) (M : ε → List δ → Prop)
    (hstep : ∀ s e s' t, S s t → R s e s' → ∃ ds t', M e ds ∧ Run T t ds t' ∧ S s' t') {s s' : σ}
    {es : List ε} {t : τ} (h : Run R s es s') (hS : S s t) :
    ∃ dss t', List.Forall₂ M es dss ∧ Run T t dss.flatten t' ∧ S s' t' := by
  induction h with
  | nil => exact ⟨[], t, .nil, .nil, hS⟩
  | snoc _ hs ih =>
      obtain ⟨dss, t₁, hshow, hrun, hS₁⟩ := ih
      obtain ⟨ds, t₂, hM, hmatch, hS₂⟩ := hstep _ _ _ _ hS₁ hs
      refine ⟨dss ++ [ds], t₂, ?_, ?_, hS₂⟩
      · exact List.rel_append hshow (.cons hM .nil)
      · rw [List.flatten_append, List.flatten_singleton]
        exact run_append_iff.mpr ⟨t₁, hrun, hmatch⟩

/-- A step that is matched by one abstract step. -/
theorem exists_matched_one {S : σ → τ → Prop} {M : ε → List δ → Prop} {e : ε} {s' : σ} {t t' : τ} {d : δ}
    (hM : M e [d]) (hstep : T t d t') (hS : S s' t') :
    ∃ ds t', M e ds ∧ Run T t ds t' ∧ S s' t' :=
  ⟨[d], t', hM, run_singleton_iff.mpr hstep, hS⟩

/-- A step that the abstract system does not see. -/
theorem exists_matched_none {S : σ → τ → Prop} {M : ε → List δ → Prop} {e : ε} {s' : σ} {t : τ}
    (hM : M e []) (hS : S s' t) : ∃ ds t', M e ds ∧ Run T t ds t' ∧ S s' t' :=
  ⟨[], t, hM, .nil, hS⟩

end SystemProgrammingLab.Found
