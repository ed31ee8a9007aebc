import SystemProgrammingLab.Found.Locking
import SystemProgrammingLab.Found.Progress
import Mathlib.Algebra.BigOperators.Group.Finset.Basic
import Mathlib.Algebra.Order.BigOperators.Group.Finset

/-!
# Programs side by side

A fixed family of threads, each with what is left of its program, over one shared state (`Threads`). A
step is one statement of one thread, so between two statements of a thread the others may do any number of
theirs.

* **rely and guarantee** (`Step.parallel`): when each thread is safe by itself, and what it guarantees is
  what every other one relies on, then every step keeps all of them safe, with one ghost for all;
* **the end** (`Step.work_lt`, `Disciplined.exists_step`): programs of bounded length that keep the
  discipline of `Found.Locking` do not run for ever, and as long as one has not ended, some thread can do
  its next statement. `Mutexes` is what this needs to know about the statements.
-/

namespace SystemProgrammingLab.Found

variable {κ A V α σ γ ι : Type}

/-- The shared state, and what is left of the program of each thread. -/
structure Threads (κ A V α σ : Type) where
  shared : σ
  left : κ → Prog A V α

namespace Threads

variable [DecidableEq κ] {exec : A → σ → Option (V × σ)} {t t' : Threads κ A V α σ}

/-- A thread goes on with `p`, and leaves the shared state `s`. -/
def set (t : Threads κ A V α σ) (k : κ) (p : Prog A V α) (s : σ) : Threads κ A V α σ :=
  ⟨s, Function.update t.left k p⟩

/-- The shared state is what the thread leaves. -/
@[simp] theorem set_shared (t : Threads κ A V α σ) (k : κ) (p : Prog A V α) (s : σ) :
    (t.set k p s).shared = s := rfl

/-- The thread goes on with what is left to it. -/
@[simp] theorem set_left_self (t : Threads κ A V α σ) (k : κ) (p : Prog A V α) (s : σ) :
    (t.set k p s).left k = p := Function.update_self ..

/-- The others have left what they had. -/
theorem set_left_of_ne (t : Threads κ A V α σ) {j k : κ} (hj : j ≠ k) (p : Prog A V α) (s : σ) :
    (t.set k p s).left j = t.left j := Function.update_of_ne hj _ _

/-- One statement of one thread. -/
inductive Step (exec : A → σ → Option (V × σ)) (t : Threads κ A V α σ) : κ × A → Threads κ A V α σ → Prop
  | stmt {k : κ} {a : A} {next : V → Prog A V α} {v : V} {s : σ} (hk : t.left k = .act a next)
      (hexec : exec a t.shared = some (v, s)) : Step exec t (k, a) (t.set k (next v) s)

/-- The thread does its next statement, if it has one and need not wait. -/
def step (exec : A → σ → Option (V × σ)) (t : Threads κ A V α σ) (k : κ) :
    Option (A × Threads κ A V α σ) :=
  match t.left k with
  | .ret _ => none
  | .act a next => (exec a t.shared).map fun p => (a, t.set k (next p.1) p.2)

/-- The executable step does steps. -/
theorem step_sound {k : κ} {a : A} (h : t.step exec k = some (a, t')) : Step exec t (k, a) t' := by
  unfold step at h
  split at h
  · cases h
  · rename_i a next hk
    obtain ⟨⟨v, s⟩, hexec, heq⟩ := Option.map_eq_some_iff.mp h
    cases heq
    exact .stmt hk hexec

/-- The thread has done all of its program. -/
def Ended (t : Threads κ A V α σ) (k : κ) : Prop := ∃ a, t.left k = .ret a

instance (t : Threads κ A V α σ) (k : κ) : Decidable (t.Ended k) :=
  match h : t.left k with
  | .ret a => .isTrue ⟨a, h⟩
  | .act _ _ => .isFalse fun ⟨_, hb⟩ => nomatch h.symm.trans hb

/-! ## Rely and guarantee -/

section parallel

variable {rely guar : κ → σ × γ → σ × γ → Prop} {Q : κ → α → σ × γ → Prop} {I : σ × γ → Prop}

/-- **A step of a thread that keeps to what the others rely on leaves all of them safe.** -/
theorem Step.parallel (hrefl : ∀ k x, rely k x x) (htrans : ∀ k x y z, rely k x y → rely k y z → rely k x z)
    (hguar : ∀ j k x y, j ≠ k → guar k x y → rely j x y) (hI : ∀ k x y, I x → guar k x y → I y)
    {e : κ × A} (h : Step exec t e t') {g : γ} (hinv : I (t.shared, g))
    (hsafe : ∀ k, (t.left k).Safe exec (rely k) (guar k) (Q k) (t.shared, g)) :
    ∃ g, I (t'.shared, g) ∧ ∀ k, (t'.left k).Safe exec (rely k) (guar k) (Q k) (t'.shared, g) := by
  cases h with
  | @stmt k a next v s hk hexec =>
      have hmine := hsafe k
      rw [hk] at hmine
      obtain ⟨g', hstep, hnext⟩ := hmine.act (hrefl k) hexec
      refine ⟨g', hI k _ _ hinv hstep, fun j => ?_⟩
      by_cases hj : j = k
      · subst hj
        rw [set_left_self]
        exact hnext
      · rw [set_left_of_ne t hj]
        exact (hsafe j).stable (htrans j) (hguar j k _ _ hj hstep)

end parallel

/-! ## Lengths -/

section work

variable [Fintype κ] {bound : κ → Nat}

/-- What is left for all threads. -/
noncomputable def work (t : Threads κ A V α σ) : Nat := ∑ k, (t.left k).len

omit [DecidableEq κ] in
/-- The work is no more than the bounds. -/
theorem work_le (h : ∀ k, (t.left k).Within (bound k)) : t.work ≤ ∑ k, bound k :=
  Finset.sum_le_sum fun k _ => (h k).len_le

/-- A step does some of the work. -/
theorem Step.work_lt {e : κ × A} (h : Step exec t e t') (hwithin : ∀ k, (t.left k).Within (bound k)) :
    (∀ k, (t'.left k).Within (bound k)) ∧ t'.work + 1 ≤ t.work := by
  cases h with
  | @stmt k a next v s hk hexec =>
      have hmine := hwithin k
      rw [hk] at hmine
      obtain ⟨hnext, hlt⟩ := hmine.len_next v
      constructor
      · intro j
        by_cases hj : j = k
        · subst hj
          rw [set_left_self]
          exact hnext
        · rw [set_left_of_ne t hj]
          exact hwithin j
      · show (∑ j, ((t.set k (next v) s).left j).len) < ∑ j, (t.left j).len
        refine Finset.sum_lt_sum (fun j _ => ?_) ⟨k, Finset.mem_univ k, ?_⟩
        · by_cases hj : j = k
          · subst hj
            rw [set_left_self, hk]
            exact hlt.le
          · rw [set_left_of_ne t hj]
        · rw [set_left_self, hk]
          exact hlt

end work

/-! ## Locks -/

/-- The statements do with the locks what `use` says, and one that is allowed can be done, unless it waits
for a lock. -/
structure Mutexes (exec : A → σ → Option (V × σ)) (use : A → LockUse ι) (ok : Option ι → A → Prop)
    (taken : σ → ι → Prop) : Prop where
  acquire : ∀ {a s v s' i}, exec a s = some (v, s') → use a = .acquire i →
    ¬ taken s i ∧ ∀ j, taken s' j ↔ taken s j ∨ j = i
  release : ∀ {a s v s' i}, exec a s = some (v, s') → use a = .release i →
    ∀ j, taken s' j ↔ taken s j ∧ j ≠ i
  other : ∀ {a s v s'}, exec a s = some (v, s') → use a = .other → ∀ j, taken s' j ↔ taken s j
  enabled : ∀ {held a s}, ok held a → (∀ i, use a = .acquire i → ¬ taken s i) →
    ∃ v s', exec a s = some (v, s')

/-- The threads have the locks that are taken, and what is left of their programs keeps the discipline. -/
structure Disciplined (use : A → LockUse ι) (ok : Option ι → A → Prop) (taken : σ → ι → Prop)
    (t : Threads κ A V α σ) (held : κ → Option ι) : Prop where
  owned : Owned (taken t.shared) held
  locks : ∀ k, (t.left k).Locks use ok (held k) none

section disciplined

variable {use : A → LockUse ι} {ok : Option ι → A → Prop} {taken : σ → ι → Prop} {held : κ → Option ι}

omit [DecidableEq κ] in
/-- At the start nobody holds a lock. -/
theorem disciplined_init (hfree : ∀ i, ¬ taken t.shared i)
    (hlocks : ∀ k, (t.left k).Locks use ok none none) : Disciplined use ok taken t fun _ => none where
  owned := ⟨fun i => ⟨fun h => absurd h (hfree i), fun ⟨_, h⟩ => nomatch h⟩, fun _ _ _ h => nomatch h⟩
  locks := hlocks

/-- Every step keeps the discipline. -/
theorem Disciplined.step (hm : Mutexes exec use ok taken) (h : Disciplined use ok taken t held) {e : κ × A}
    (hstep : Step exec t e t') : ∃ held, Disciplined use ok taken t' held := by
  cases hstep with
  | @stmt k a next v s hk hexec =>
      have hmine := h.locks k
      rw [hk] at hmine
      obtain ⟨-, mid, hmoves, hnext⟩ := hmine
      -- only this thread's lock and program change
      have hset : ∀ held' : κ → Option ι, Owned (taken s) held' → (∀ j, j ≠ k → held' j = held j) →
          held' k = mid → ∃ held, Disciplined use ok taken (t.set k (next v) s) held := by
        intro held' howned hother hmid
        refine ⟨held', howned, fun j => ?_⟩
        by_cases hj : j = k
        · subst hj
          rw [set_left_self, hmid]
          exact hnext v
        · rw [set_left_of_ne t hj, hother j hj]
          exact h.locks j
      generalize huse : use a = u at hmoves
      generalize hheld : held k = before at hmoves
      cases hmoves with
      | acquire i =>
          obtain ⟨hfree, htaken⟩ := hm.acquire hexec huse
          exact hset _ (h.owned.acquire hfree hheld htaken) (fun j hj => Function.update_of_ne hj _ _)
            (Function.update_self ..)
      | release i =>
          exact hset _ (h.owned.release hheld (hm.release hexec huse))
            (fun j hj => Function.update_of_ne hj _ _) (Function.update_self ..)
      | other =>
          refine hset held ⟨fun i => ?_, h.owned.unique⟩ (fun _ _ => rfl) hheld
          rw [hm.other hexec huse i]
          exact h.owned.iff i

omit [DecidableEq κ] in
/-- Who has ended has no lock. -/
theorem Disciplined.not_ended (h : Disciplined use ok taken t held) {k : κ} {i : ι} (hk : held k = some i) :
    ¬ t.Ended k := by
  rintro ⟨a, ha⟩
  have hlocks := h.locks k
  rw [ha] at hlocks
  have hnone : held k = none := hlocks
  rw [hk] at hnone
  cases hnone

/-- A thread that has not ended can go on, unless it waits for a lock. -/
theorem Disciplined.step_of (hm : Mutexes exec use ok taken) (h : Disciplined use ok taken t held) {k : κ}
    (hk : ¬ t.Ended k) (hfree : ∀ i, held k = none → ¬ taken t.shared i) :
    ∃ a t', Step exec t (k, a) t' := by
  have hlocks := h.locks k
  rcases hleft : t.left k with a | ⟨a, next⟩
  · exact absurd ⟨a, hleft⟩ hk
  · rw [hleft] at hlocks
    obtain ⟨hok, mid, hmoves, -⟩ := hlocks
    obtain ⟨v, s, hexec⟩ : ∃ v s, exec a t.shared = some (v, s) := by
      refine hm.enabled hok fun i huse => hfree i ?_
      rw [huse] at hmoves
      generalize held k = before at hmoves
      cases hmoves
      rfl
    exact ⟨a, _, .stmt hleft hexec⟩

/-- **The threads are never stuck.** As long as one has not ended, some thread can do its next statement:
the one that has a lock, or any, if there is none. -/
theorem Disciplined.exists_step (hm : Mutexes exec use ok taken) (h : Disciplined use ok taken t held)
    {k : κ} (hk : ¬ t.Ended k) : ∃ e t', Step exec t e t' := by
  by_cases hlock : ∃ i, taken t.shared i
  · obtain ⟨i, htaken⟩ := hlock
    obtain ⟨j, hj⟩ := (h.owned.iff i).mp htaken
    have hstep := h.step_of hm (h.not_ended hj) fun _ hnone => by
      rw [hj] at hnone
      cases hnone
    obtain ⟨a, t', hstep⟩ := hstep
    exact ⟨_, t', hstep⟩
  · obtain ⟨a, t', hstep⟩ := h.step_of hm hk fun i _ htaken => hlock ⟨i, htaken⟩
    exact ⟨_, t', hstep⟩

omit [DecidableEq κ] in
/-- When all have ended, no lock is taken. -/
theorem Disciplined.free (h : Disciplined use ok taken t held) (hended : ∀ k, t.Ended k) (i : ι) :
    ¬ taken t.shared i := by
  intro htaken
  obtain ⟨k, hk⟩ := (h.owned.iff i).mp htaken
  exact h.not_ended hk (hended k)

end disciplined

end Threads

end SystemProgrammingLab.Found
