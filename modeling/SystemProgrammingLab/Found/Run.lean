import Mathlib.Data.List.Induction
import Mathlib.Tactic.Common

/-!
# Finite runs of a labelled transition relation

A system is a relation `R : σ → ε → σ → Prop`: from the state `s` the event `e` may lead to
`s'`. `Run R s es s'` is a finite run with its history `es`, oldest event first. The rules below
are the ones the developments over it use:

* **splitting** (`run_append_iff`, `Run.split`): a run through `pre ++ e :: post` passes through
  the states before and after `e`;
* **larger relations** (`Run.mono`): a run of a relation is a run of every relation that contains it;
* **invariants** (`Run.invariant`, `Run.history`): what holds at the start and is kept by every
  step holds at the end, for predicates of the state and of the history with the state;
* **leaving a set** (`Run.exists_leaves`): a run that starts inside `P` and ends outside it has
  a step that leaves `P`. It turns "between these two events something must have happened" into
  a statement about one step;
* **guards** (`Guarded`): the runs all of whose steps meet a condition on the state before the
  step and the event;
* **execution** (`exec`): the runs of a step function, for runs that are computed.

`Since p q es` is the past-time operator "some `p`-event, and no `q`-event since".
-/

namespace SystemProgrammingLab.Found

variable {σ ε α : Type*} {R R' : σ → ε → σ → Prop}

/-! ## Runs -/

/-- `Run R s es s'`: the events `es`, oldest first, lead from `s` to `s'`. -/
inductive Run (R : σ → ε → σ → Prop) (s : σ) : List ε → σ → Prop
  | nil : Run R s [] s
  | snoc {es : List ε} {e : ε} {s' s'' : σ} :
      Run R s es s' → R s' e s'' → Run R s (es ++ [e]) s''

/-- A run without events. -/
@[simp] theorem run_nil_iff {s s' : σ} : Run R s [] s' ↔ s' = s := by
  constructor
  · intro h
    generalize hes : ([] : List ε) = es at h
    cases h with
    | nil => rfl
    | snoc => simp at hes
  · rintro rfl
    exact .nil

/-- A run and one more step. -/
theorem run_snoc_iff {s s'' : σ} {es : List ε} {e : ε} :
    Run R s (es ++ [e]) s'' ↔ ∃ s', Run R s es s' ∧ R s' e s'' := by
  constructor
  · intro h
    generalize hes : es ++ [e] = es' at h
    cases h with
    | nil => simp at hes
    | @snoc es₁ e₁ s' _ hrun hstep =>
        obtain ⟨rfl, he⟩ := List.append_inj' hes rfl
        cases he
        exact ⟨s', hrun, hstep⟩
  · rintro ⟨s', hrun, hstep⟩
    exact .snoc hrun hstep

/-- A run over a concatenation passes through a state between the two parts. -/
theorem run_append_iff {s s'' : σ} {es es' : List ε} :
    Run R s (es ++ es') s'' ↔ ∃ s', Run R s es s' ∧ Run R s' es' s'' := by
  induction es' using List.reverseRecOn generalizing s'' with
  | nil => simp
  | append_singleton es' e ih =>
      rw [← List.append_assoc, run_snoc_iff]
      constructor
      · rintro ⟨s₁, hrun, hstep⟩
        obtain ⟨s₀, h₀, h₁⟩ := ih.mp hrun
        exact ⟨s₀, h₀, .snoc h₁ hstep⟩
      · rintro ⟨s₀, h₀, h₁⟩
        obtain ⟨s₁, h₁, hstep⟩ := run_snoc_iff.mp h₁
        exact ⟨s₁, ih.mpr ⟨s₀, h₀, h₁⟩, hstep⟩

/-- A run of one step. -/
@[simp] theorem run_singleton_iff {s s' : σ} {e : ε} : Run R s [e] s' ↔ R s e s' := by
  have := @run_snoc_iff σ ε R s s' [] e
  simpa using this

/-- A step and the run behind it. -/
theorem run_cons_iff {s s'' : σ} {e : ε} {es : List ε} :
    Run R s (e :: es) s'' ↔ ∃ s', R s e s' ∧ Run R s' es s'' := by
  rw [← List.singleton_append, run_append_iff]
  simp only [run_singleton_iff]

/-- A run through the event `e` passes through a state before it and a state after it. -/
theorem Run.split {s s' : σ} {pre post : List ε} {e : ε} (h : Run R s (pre ++ e :: post) s') :
    ∃ s₁ s₂, Run R s pre s₁ ∧ R s₁ e s₂ ∧ Run R s₂ post s' := by
  obtain ⟨s₁, h₁, h⟩ := run_append_iff.mp h
  obtain ⟨s₂, hstep, h₂⟩ := run_cons_iff.mp h
  exact ⟨s₁, s₂, h₁, hstep, h₂⟩

/-- More steps have more runs. -/
theorem Run.mono (hle : ∀ s e s', R s e s' → R' s e s') {s s' : σ} {es : List ε}
    (h : Run R s es s') : Run R' s es s' := by
  induction h with
  | nil => exact .nil
  | snoc _ hstep ih => exact ih.snoc (hle _ _ _ hstep)

/-! ## Invariants -/

/-- What holds at the start and is kept by every step holds at the end. -/
theorem Run.invariant (I : σ → Prop) (hstep : ∀ s e s', I s → R s e s' → I s') {s s' : σ}
    {es : List ε} (h : Run R s es s') (hI : I s) : I s' := by
  induction h with
  | nil => exact hI
  | snoc _ hs ih => exact hstep _ _ _ ih hs

/-- The same for a predicate that also reads the history of the run. -/
theorem Run.history (I : List ε → σ → Prop)
    (hstep : ∀ es s e s', I es s → R s e s' → I (es ++ [e]) s') {s s' : σ} {es : List ε}
    (h : Run R s es s') (hI : I [] s) : I es s' := by
  induction h with
  | nil => exact hI
  | snoc _ hs ih => exact hstep _ _ _ _ ih hs

/-- What every step says of its event holds of all events of a run. -/
theorem Run.forall_mem {P : ε → Prop} (hstep : ∀ s e s', R s e s' → P e) {s s' : σ} {es : List ε}
    (h : Run R s es s') : ∀ e ∈ es, P e := by
  induction h with
  | nil => exact fun e he => nomatch he
  | @snoc es e s₁ s₂ _ hs ih =>
      intro x hx
      rcases List.mem_append.mp hx with hx | hx
      · exact ih x hx
      · rw [List.mem_singleton.mp hx]
        exact hstep _ _ _ hs

/-- A run that starts inside `P` and ends outside it has a step that leaves `P`. -/
theorem Run.exists_leaves (P : σ → Prop) {s s' : σ} {es : List ε} (h : Run R s es s') (hs : P s)
    (hs' : ¬ P s') :
    ∃ pre e post s₁ s₂, es = pre ++ e :: post ∧ Run R s pre s₁ ∧ R s₁ e s₂ ∧ P s₁ ∧ ¬ P s₂ := by
  induction h with
  | nil => exact absurd hs hs'
  | @snoc es e s₁ s₂ hrun hstep ih =>
      by_cases h₁ : P s₁
      · exact ⟨es, e, [], s₁, s₂, rfl, hrun, hstep, h₁, hs'⟩
      · obtain ⟨pre, e', post, t₁, t₂, rfl, hpre, hst, ht₁, ht₂⟩ := ih h₁
        exact ⟨pre, e', post ++ [e], t₁, t₂, by simp, hpre, hst, ht₁, ht₂⟩

/-! ## Guarded runs -/

/-- The steps of `R` whose event and state before the step meet `C`. -/
def Guarded (R : σ → ε → σ → Prop) (C : σ → ε → Prop) : σ → ε → σ → Prop :=
  fun s e s' => R s e s' ∧ C s e

/-- A run is guarded, or it has a first step that breaks the guard. -/
theorem Run.guarded_or_exists (C : σ → ε → Prop) {s s' : σ} {es : List ε} (h : Run R s es s') :
    Run (Guarded R C) s es s' ∨
      ∃ pre e post s₁ s₂, es = pre ++ e :: post ∧ Run (Guarded R C) s pre s₁ ∧ R s₁ e s₂ ∧
        ¬ C s₁ e ∧ Run R s₂ post s' := by
  induction h with
  | nil => exact .inl .nil
  | @snoc es e s₁ s₂ hrun hstep ih =>
      rcases ih with hguarded | ⟨pre, e', post, t₁, t₂, rfl, hpre, ht, hC, hpost⟩
      · by_cases hC : C s₁ e
        · exact .inl (hguarded.snoc ⟨hstep, hC⟩)
        · exact .inr ⟨es, e, [], s₁, s₂, rfl, hguarded, hstep, hC, .nil⟩
      · exact .inr ⟨pre, e', post ++ [e], t₁, t₂, by simp, hpre, ht, hC, hpost.snoc hstep⟩

/-! ## Runs of a step function -/

/-- Execute the inputs `as` in order, collecting the events; `none` as soon as an input is not
enabled. -/
def exec (step : σ → α → Option (σ × ε)) : σ → List α → Option (σ × List ε)
  | s, [] => some (s, [])
  | s, a :: as => do
      let (s', e) ← step s a
      let (s'', es) ← exec step s' as
      return (s'', e :: es)

/-- An execution of a step function whose steps are steps of `R` is a run of `R`. -/
theorem exec_run {step : σ → α → Option (σ × ε)}
    (hstep : ∀ s a s' e, step s a = some (s', e) → R s e s') {s s' : σ} (as : List α)
    {es : List ε} (h : exec step s as = some (s', es)) : Run R s es s' := by
  induction as generalizing s es with
  | nil =>
      simp only [exec, Option.some.injEq, Prod.mk.injEq] at h
      obtain ⟨rfl, rfl⟩ := h
      exact .nil
  | cons a as ih =>
      simp only [exec, Option.bind_eq_bind, Option.bind_eq_some_iff, Option.pure_def,
        Option.some.injEq, Prod.mk.injEq] at h
      obtain ⟨⟨s₁, e⟩, h₁, ⟨s₂, es'⟩, h₂, rfl, rfl⟩ := h
      exact run_cons_iff.mpr ⟨s₁, hstep _ _ _ _ h₁, ih h₂⟩

/-- The steps of a step function, each with its input. -/
def Stepped (step : σ → α → Option (σ × ε)) (s : σ) (p : α × ε) (s' : σ) : Prop :=
  step s p.1 = some (s', p.2)

/-- An execution is a run of the steps with their inputs. -/
theorem exec_stepped {step : σ → α → Option (σ × ε)} {s s' : σ} (as : List α) {es : List ε}
    (h : exec step s as = some (s', es)) : Run (Stepped step) s (as.zip es) s' := by
  induction as generalizing s es with
  | nil =>
      simp only [exec, Option.some.injEq, Prod.mk.injEq] at h
      obtain ⟨rfl, rfl⟩ := h
      exact .nil
  | cons a as ih =>
      simp only [exec, Option.bind_eq_bind, Option.bind_eq_some_iff, Option.pure_def,
        Option.some.injEq, Prod.mk.injEq] at h
      obtain ⟨⟨s₁, e⟩, h₁, ⟨s₂, es'⟩, h₂, rfl, rfl⟩ := h
      exact run_cons_iff.mpr ⟨s₁, h₁, ih h₂⟩

/-- Without the inputs it is a run of a relation that contains the steps. -/
theorem run_of_stepped {step : σ → α → Option (σ × ε)}
    (hstep : ∀ s a s' e, step s a = some (s', e) → R s e s') {s s' : σ} {ps : List (α × ε)}
    (h : Run (Stepped step) s ps s') : Run R s (ps.map Prod.snd) s' := by
  induction h with
  | nil => exact .nil
  | snoc _ hs ih =>
      rw [List.map_append, List.map_singleton]
      exact ih.snoc (hstep _ _ _ _ hs)

/-- The last input of an execution. -/
theorem exec_snoc {step : σ → α → Option (σ × ε)} {s s'' : σ} {as : List α} {a : α} {es : List ε} :
    exec step s (as ++ [a]) = some (s'', es) ↔ ∃ s' es' e,
      exec step s as = some (s', es') ∧ step s' a = some (s'', e) ∧ es = es' ++ [e] := by
  induction as generalizing s es with
  | nil =>
      simp only [List.nil_append, exec, Option.bind_eq_bind, Option.bind_eq_some_iff,
        Option.pure_def, Option.some.injEq, Prod.mk.injEq, Prod.exists]
      constructor
      · rintro ⟨s', e, hstep, _, _, ⟨rfl, rfl⟩, rfl, rfl⟩
        exact ⟨s, [], e, ⟨rfl, rfl⟩, hstep, rfl⟩
      · rintro ⟨_, _, e, ⟨rfl, rfl⟩, hstep, rfl⟩
        exact ⟨s'', e, hstep, s'', [], ⟨rfl, rfl⟩, rfl, rfl⟩
  | cons b as ih =>
      simp only [List.cons_append, exec, Option.bind_eq_bind, Option.bind_eq_some_iff,
        Option.pure_def, Option.some.injEq, Prod.mk.injEq, Prod.exists]
      constructor
      · rintro ⟨s₁, e₁, h₁, _, _, hrest, rfl, rfl⟩
        obtain ⟨s', es', e, hrun, hstep, rfl⟩ := ih.mp hrest
        exact ⟨s', e₁ :: es', e, ⟨s₁, e₁, h₁, s', es', hrun, rfl, rfl⟩, hstep, rfl⟩
      · rintro ⟨s', _, e, ⟨s₁, e₁, h₁, _, es', hrun, rfl, rfl⟩, hstep, rfl⟩
        exact ⟨s₁, e₁, h₁, s'', es' ++ [e], ih.mpr ⟨_, es', e, hrun, hstep, rfl⟩, rfl, rfl⟩

/-- What holds at the start and is kept by every step holds at the end of an execution. -/
theorem exec_invariant {step : σ → α → Option (σ × ε)} (I : σ → Prop)
    (hstep : ∀ s a s' e, I s → step s a = some (s', e) → I s') {s s' : σ} {as : List α}
    {es : List ε} (h : exec step s as = some (s', es)) (hI : I s) : I s' := by
  have hrun : Run (fun s e s' => ∃ a, step s a = some (s', e)) s es s' :=
    exec_run (fun s a s' e h => ⟨a, h⟩) as h
  refine hrun.invariant I ?_ hI
  rintro s e s' hs ⟨a, ha⟩
  exact hstep s a s' e hs ha

/-- The inputs that the step function accepts and whose event meets `C`. -/
def guarded (step : σ → α → Option (σ × ε)) (C : σ → ε → Prop) [∀ s e, Decidable (C s e)] :
    σ → α → Option (σ × ε) :=
  fun s a => (step s a).filter fun p => decide (C s p.2)

/-- An executable step with a guard does guarded steps. -/
theorem guarded_sound {step : σ → α → Option (σ × ε)} {C : σ → ε → Prop}
    [∀ s e, Decidable (C s e)] (hstep : ∀ s a s' e, step s a = some (s', e) → R s e s') (s : σ)
    (a : α) (s' : σ) (e : ε) (h : guarded step C s a = some (s', e)) : Guarded R C s e s' := by
  obtain ⟨h, hc⟩ := Option.filter_eq_some_iff.mp h
  exact ⟨hstep s a s' e h, of_decide_eq_true hc⟩

/-- A computed history is the history of a run. -/
theorem exists_run_of_exec {step : σ → α → Option (σ × ε)}
    (hstep : ∀ s a s' e, step s a = some (s', e) → R s e s') {s : σ} (as : List α) {es : List ε}
    (h : (exec step s as).map Prod.snd = some es) : ∃ s', Run R s es s' := by
  obtain ⟨⟨s', es'⟩, hexec, rfl⟩ := Option.map_eq_some_iff.mp h
  exact ⟨s', exec_run hstep as hexec⟩

/-! ## Some event, and none of the others since -/

/-- Some event of the history satisfies `p`, and no event after it satisfies `q`. -/
def Since (p q : ε → Prop) (es : List ε) : Prop :=
  ∃ pre e post, es = pre ++ e :: post ∧ p e ∧ ∀ x ∈ post, ¬ q x

/-- Nothing has happened yet. -/
@[simp] theorem not_since_nil (p q : ε → Prop) : ¬ Since p q [] := by
  rintro ⟨pre, e, post, h, -⟩
  simp at h

/-- The operator unfolds at the last event. -/
theorem since_snoc {p q : ε → Prop} {es : List ε} {e : ε} :
    Since p q (es ++ [e]) ↔ p e ∨ (¬ q e ∧ Since p q es) := by
  constructor
  · rintro ⟨pre, x, post, h, hx, hq⟩
    rcases List.eq_nil_or_concat post with rfl | ⟨post', y, rfl⟩
    · obtain ⟨rfl, he⟩ := List.append_inj' h rfl
      cases he
      exact .inl hx
    · have h' : es ++ [e] = (pre ++ x :: post') ++ [y] := by simpa using h
      obtain ⟨rfl, he⟩ := List.append_inj' h' rfl
      cases he
      exact .inr ⟨hq _ (by simp), pre, x, post', rfl, hx, fun z hz => hq z (by simp [hz])⟩
  · rintro (hp | ⟨hq, pre, x, post, rfl, hx, hpost⟩)
    · exact ⟨es, e, [], rfl, hp, by simp⟩
    · refine ⟨pre, x, post ++ [e], by simp, hx, fun z hz => ?_⟩
      rcases List.mem_append.mp hz with hz | hz
      · exact hpost z hz
      · rw [List.mem_singleton.mp hz]
        exact hq

end SystemProgrammingLab.Found
