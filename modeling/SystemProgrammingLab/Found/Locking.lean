import SystemProgrammingLab.Found.Prog
import Mathlib.Logic.Function.Basic

/-!
# Programs that take one lock at a time

`use` says of a statement whether it takes a lock, gives one back, or neither. A program keeps the
discipline (`Prog.Locks`) when it takes a lock only while it has none, gives back the one it has, and does
a statement only where `ok` allows it, which may depend on the lock that it has then. This is read off the
text of a program: it has to hold whatever values the statements give.

For threads that keep it, the locks that are taken are those that the threads have (`Owned`), and nobody
who has a lock waits for another. So either every lock is free, or the thread that has one can go on.
-/

namespace SystemProgrammingLab.Found

variable {A V α β ι κ : Type}

/-- What a statement does with the locks. -/
inductive LockUse (ι : Type)
  | acquire (i : ι)
  | release (i : ι)
  | other

/-- The lock that a thread has before and behind the statement: it takes one when it has none, and gives
back the one it has. -/
inductive LockUse.Moves : LockUse ι → Option ι → Option ι → Prop
  | acquire (i : ι) : Moves (.acquire i) none (some i)
  | release (i : ι) : Moves (.release i) (some i) none
  | other (held : Option ι) : Moves .other held held

namespace Prog

variable (use : A → LockUse ι) (ok : Option ι → A → Prop)

/-- From the lock that the thread has to the one that it has at the end. -/
def Locks : Option ι → Prog A V α → Option ι → Prop
  | held, .ret _, held' => held = held'
  | held, .act a next, held' =>
      ok held a ∧ ∃ mid, (use a).Moves held mid ∧ ∀ v, (next v).Locks mid held'

variable {use ok} {held held' held'' : Option ι}

/-- A program that has ended. -/
theorem locks_pure (a : α) : (pure a : Prog A V α).Locks use ok held held := rfl

/-- A statement that takes a lock, or gives it back, or may be done. -/
theorem locks_stmt {a : A} (ha : (use a).Moves held held') (hok : ok held a) :
    (stmt a : Prog A V V).Locks use ok held held' :=
  ⟨hok, held', ha, fun _ => rfl⟩

/-- One program behind the other. -/
theorem Locks.bind {p : Prog A V α} {f : α → Prog A V β} (hp : p.Locks use ok held held')
    (hf : ∀ a, (f a).Locks use ok held' held'') : (p >>= f).Locks use ok held held'' := by
  induction p generalizing held with
  | ret a =>
      have heq : held = held' := hp
      rw [heq]
      exact hf a
  | act a next ih =>
      obtain ⟨hok, mid, hmoves, hnext⟩ := hp
      exact ⟨hok, mid, hmoves, fun v => ih v (hnext v)⟩

/-- A choice. -/
theorem Locks.ite {c : Prop} [Decidable c] {p q : Prog A V α} (hp : c → p.Locks use ok held held')
    (hq : ¬ c → q.Locks use ok held held') : (if c then p else q).Locks use ok held held' := by
  split_ifs with hc
  · exact hp hc
  · exact hq hc

/-- A loop. -/
theorem locks_foldlM {f : β → α → Prog A V β} (h : ∀ b a, (f b a).Locks use ok held held) (l : List α)
    (b : β) : (l.foldlM f b).Locks use ok held held := by
  induction l generalizing b with
  | nil => exact locks_pure b
  | cons a l ih =>
      rw [List.foldlM_cons]
      exact (h b a).bind ih

end Prog

/-! ## The locks of all threads -/

/-- A lock is taken if and only if a thread has it, and no two threads have one lock. -/
structure Owned (taken : ι → Prop) (held : κ → Option ι) : Prop where
  iff : ∀ i, taken i ↔ ∃ k, held k = some i
  unique : ∀ j k i, held j = some i → held k = some i → j = k

section owned

variable [DecidableEq κ] {taken taken' : ι → Prop} {held : κ → Option ι} {k : κ} {i : ι}

/-- A free lock is taken by one thread. -/
theorem Owned.acquire (h : Owned taken held) (hfree : ¬ taken i) (hk : held k = none)
    (htaken : ∀ j, taken' j ↔ taken j ∨ j = i) : Owned taken' (Function.update held k (some i)) := by
  have hnobody : ∀ j, held j ≠ some i := fun j hj => hfree ((h.iff i).mpr ⟨j, hj⟩)
  refine ⟨?_, ?_⟩
  · intro i'
    rw [htaken, h.iff]
    constructor
    · rintro (⟨j, hj⟩ | rfl)
      · have hjk : j ≠ k := by
          rintro rfl
          rw [hk] at hj
          cases hj
        exact ⟨j, (Function.update_of_ne hjk _ _).trans hj⟩
      · exact ⟨k, Function.update_self ..⟩
    · rintro ⟨j, hj⟩
      by_cases hjk : j = k
      · subst hjk
        rw [Function.update_self] at hj
        exact .inr (Option.some.inj hj).symm
      · rw [Function.update_of_ne hjk] at hj
        exact .inl ⟨j, hj⟩
  · intro j j' i' hj hj'
    by_cases hjk : j = k <;> by_cases hjk' : j' = k
    · exact hjk.trans hjk'.symm
    · subst hjk
      rw [Function.update_self] at hj
      rw [Function.update_of_ne hjk'] at hj'
      cases hj
      exact absurd hj' (hnobody j')
    · subst hjk'
      rw [Function.update_self] at hj'
      rw [Function.update_of_ne hjk] at hj
      cases hj'
      exact absurd hj (hnobody j)
    · rw [Function.update_of_ne hjk] at hj
      rw [Function.update_of_ne hjk'] at hj'
      exact h.unique j j' i' hj hj'

/-- A lock is given back by its thread. -/
theorem Owned.release (h : Owned taken held) (hk : held k = some i)
    (htaken : ∀ j, taken' j ↔ taken j ∧ j ≠ i) : Owned taken' (Function.update held k none) := by
  refine ⟨?_, ?_⟩
  · intro i'
    rw [htaken, h.iff]
    constructor
    · rintro ⟨⟨j, hj⟩, hne⟩
      have hjk : j ≠ k := by
        rintro rfl
        rw [hk] at hj
        exact hne (Option.some.inj hj).symm
      exact ⟨j, (Function.update_of_ne hjk _ _).trans hj⟩
    · rintro ⟨j, hj⟩
      have hjk : j ≠ k := by
        rintro rfl
        rw [Function.update_self] at hj
        cases hj
      rw [Function.update_of_ne hjk] at hj
      refine ⟨⟨j, hj⟩, ?_⟩
      rintro rfl
      exact hjk (h.unique j k i' hj hk)
  · intro j j' i' hj hj'
    have hold : ∀ j, Function.update held k none j = some i' → held j = some i' := by
      intro j hj
      by_cases hjk : j = k
      · subst hjk
        rw [Function.update_self] at hj
        cases hj
      · rwa [Function.update_of_ne hjk] at hj
    exact h.unique j j' i' (hold j hj) (hold j' hj')

end owned

end SystemProgrammingLab.Found
