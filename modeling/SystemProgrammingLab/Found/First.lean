import Mathlib.Data.List.Pairwise
import Mathlib.Order.Bounds.Basic
import Mathlib.Tactic.Common

/-!
# The first place

`First P r` says that a search returns the first number at which `P` holds, and `none` if there is none. A
search that looks at the places one by one, or leaves out places at which `P` does not hold, is followed with
`First.shift`; a search through a list of all the places in order finds the head (`first_head?`).
-/

namespace SystemProgrammingLab.Found

/-- `r` is the first number at which `P` holds, `none` if there is none. -/
structure First (P : Nat → Prop) (r : Option Nat) : Prop where
  eq_none_iff : r = none ↔ ∀ k, ¬ P k
  eq_some_iff : ∀ k, r = some k ↔ IsLeast {k | P k} k

variable {P Q : Nat → Prop} {r : Option Nat}

/-- There is none. -/
theorem first_none (h : ∀ k, ¬ P k) : First P none where
  eq_none_iff := iff_of_true rfl h
  eq_some_iff := fun k => iff_of_false (by simp) fun hk => h k hk.1

/-- The first one is the least. -/
theorem first_some {k : Nat} (h : IsLeast {k | P k} k) : First P (some k) where
  eq_none_iff := iff_of_false (by simp) fun hall => hall k h.1
  eq_some_iff := by
    intro j
    constructor
    · intro hj
      obtain rfl := Option.some.inj hj
      exact h
    · intro hj
      rw [h.unique hj]

/-- It is the very first. -/
theorem first_zero (h : P 0) : First P (some 0) := first_some ⟨h, fun k _ => Nat.zero_le k⟩

/-- The places in front of `n` are left out. -/
theorem First.shift (h : First Q r) {n : Nat} (hlt : ∀ k < n, ¬ P k) (hle : ∀ k, P (n + k) ↔ Q k) :
    First P (r.map (n + ·)) := by
  rcases r with _ | k
  · apply first_none
    intro k hk
    have hn : n ≤ k := Nat.le_of_not_lt fun hkn => hlt k hkn hk
    obtain ⟨j, rfl⟩ := Nat.exists_eq_add_of_le hn
    exact h.eq_none_iff.mp rfl j ((hle j).mp hk)
  · obtain ⟨hmem, hleast⟩ := (h.eq_some_iff k).mp rfl
    refine first_some ⟨(hle k).mpr hmem, ?_⟩
    intro j hj
    have hn : n ≤ j := Nat.le_of_not_lt fun hjn => hlt j hjn hj
    obtain ⟨i, rfl⟩ := Nat.exists_eq_add_of_le hn
    exact Nat.add_le_add_left (hleast ((hle i).mp hj)) n

/-- The first of all the places in order is the head. -/
theorem first_head? {ks : List Nat} (h : ks.Pairwise (· < ·)) (hmem : ∀ k, k ∈ ks ↔ P k) :
    First P ks.head? := by
  rcases ks with _ | ⟨k, ks⟩
  · exact first_none fun k hk => List.not_mem_nil ((hmem k).mpr hk)
  · refine first_some ⟨(hmem k).mp List.mem_cons_self, ?_⟩
    intro j hj
    rcases List.mem_cons.mp ((hmem j).mpr hj) with rfl | hj
    · exact Nat.le_refl _
    · exact Nat.le_of_lt (List.rel_of_pairwise_cons h hj)

end SystemProgrammingLab.Found
