import Mathlib.Tactic.Common

/-!
# Programs that leave a trace

A program over a state emits events, one after the other, and either ends with a value and a new state or
stops at an event whose action is undefined (`Traced`). The last event is in the trace all the same: a
trace tells what a program tried to do, and the result only what came of it.

The rules follow the program: `result_bind` and `mem_trace_bind` for a sequence, and for what all events
have in common (`Emits`) one rule for each way to build a program. A loop over a list is `List.foldlM`.
-/

namespace SystemProgrammingLab.Found

universe u

variable {σ ε α β : Type u}

/-- From a state: the events, and the value and the new state; no result where the last event is
undefined. -/
def Traced (σ ε α : Type u) : Type u := σ → List ε × Option (α × σ)

namespace Traced

/-- The events of a run. -/
def trace (x : Traced σ ε α) (s : σ) : List ε := (x s).1

/-- What a run ends with. -/
def result (x : Traced σ ε α) (s : σ) : Option (α × σ) := (x s).2

/-- One event and its action. -/
def act (e : ε) (f : σ → Option (α × σ)) : Traced σ ε α := fun s => ([e], f s)

/-- An action that is no event. -/
def silent (f : σ → Option (α × σ)) : Traced σ ε α := fun s => ([], f s)

instance : Monad (Traced σ ε) where
  pure a := fun s => ([], some (a, s))
  bind x f := fun s =>
    match x s with
    | (es, none) => (es, none)
    | (es, some (a, s')) => (es ++ (f a s').1, (f a s').2)

/-- A value. -/
@[simp] theorem result_pure (a : α) (s : σ) : (pure a : Traced σ ε α).result s = some (a, s) := rfl

/-- An action that leaves a mark. -/
@[simp] theorem result_act (e : ε) (f : σ → Option (α × σ)) (s : σ) : (act e f).result s = f s := rfl

/-- One that leaves none. -/
@[simp] theorem result_silent (f : σ → Option (α × σ)) (s : σ) :
    (silent f : Traced σ ε α).result s = f s := rfl

/-- One computation behind the other. -/
theorem result_bind (x : Traced σ ε α) (f : α → Traced σ ε β) (s : σ) :
    (x >>= f).result s = (x.result s).bind fun p => (f p.1).result p.2 := by
  show (match x s with
    | (es, none) => (es, none)
    | (es, some (a, s')) => (es ++ (f a s').1, (f a s').2)).2 = ((x s).2).bind _
  rcases x s with ⟨es, _ | ⟨a, s'⟩⟩ <;> rfl

/-- The rest of a program runs on from where its first part ended. -/
theorem result_bind_of {x : Traced σ ε α} {s s' : σ} {a : α} (h : x.result s = some (a, s'))
    (f : α → Traced σ ε β) : (x >>= f).result s = (f a).result s' := by
  rw [result_bind, h, Option.bind_some]

/-- The marks of both. -/
theorem mem_trace_bind {x : Traced σ ε α} {f : α → Traced σ ε β} {s : σ} {e : ε} :
    e ∈ (x >>= f).trace s ↔
      e ∈ x.trace s ∨ ∃ a s', x.result s = some (a, s') ∧ e ∈ (f a).trace s' := by
  show e ∈ (match x s with
    | (es, none) => (es, none)
    | (es, some (a, s')) => (es ++ (f a s').1, (f a s').2)).1 ↔ e ∈ (x s).1 ∨ ∃ a s', (x s).2 = _ ∧ _
  rcases x s with ⟨es, _ | ⟨a, s'⟩⟩
  · simp
  · rw [List.mem_append]
    apply or_congr Iff.rfl
    constructor
    · exact fun h => ⟨a, s', rfl, h⟩
    · rintro ⟨a', s'', heq, h⟩
      cases heq
      exact h

/-- A loop whose rounds end where they start. -/
theorem result_foldlM {f : β → α → Traced σ ε β} {g : β → α → β} {s : σ}
    (h : ∀ b a, (f b a).result s = some (g b a, s)) (l : List α) (b : β) :
    (l.foldlM f b).result s = some (l.foldl g b, s) := by
  induction l generalizing b with
  | nil => rfl
  | cons a l ih => rw [List.foldlM_cons, result_bind, h, Option.bind_some, ih, List.foldl_cons]

/-! ## What all events have in common -/

/-- From every state, the program emits only such events. -/
def Emits (P : ε → Prop) (x : Traced σ ε α) : Prop := ∀ s, ∀ e ∈ x.trace s, P e

section emits

variable {P : ε → Prop} {x y : Traced σ ε α} {f : α → Traced σ ε β}

/-- A value leaves no mark. -/
theorem emits_pure (a : α) : Emits P (pure a : Traced σ ε α) := fun _ _ h => absurd h List.not_mem_nil

/-- An action leaves its mark. -/
theorem emits_act {e : ε} (h : P e) (f : σ → Option (α × σ)) : Emits P (act e f) := fun _ _ he =>
  List.mem_singleton.mp he ▸ h

/-- A silent one leaves none. -/
theorem emits_silent (f : σ → Option (α × σ)) : Emits P (silent f : Traced σ ε α) := fun _ _ h =>
  absurd h List.not_mem_nil

/-- What follows may rely on the value that the first part ended with. -/
theorem Emits.bind_of (hx : Emits P x) (hf : ∀ s a s', x.result s = some (a, s') → Emits P (f a)) :
    Emits P (x >>= f) := by
  intro s e he
  rcases mem_trace_bind.mp he with he | ⟨a, s', ha, he⟩
  · exact hx s e he
  · exact hf s a s' ha s' e he

/-- One computation behind the other. -/
theorem Emits.bind (hx : Emits P x) (hf : ∀ a, Emits P (f a)) : Emits P (x >>= f) :=
  hx.bind_of fun _ a _ _ => hf a

/-- A choice. -/
theorem Emits.ite {c : Prop} [Decidable c] (hx : c → Emits P x) (hy : ¬ c → Emits P y) :
    Emits P (if c then x else y) := by
  split_ifs with hc
  · exact hx hc
  · exact hy hc

/-- A loop. -/
theorem emits_foldlM {f : β → α → Traced σ ε β} (h : ∀ b a, Emits P (f b a)) (l : List α) (b : β) :
    Emits P (l.foldlM f b) := by
  induction l generalizing b with
  | nil => exact emits_pure b
  | cons a l ih =>
      rw [List.foldlM_cons]
      exact (h b a).bind ih

end emits

end Traced

end SystemProgrammingLab.Found
