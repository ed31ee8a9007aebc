import Mathlib.Data.List.OfFn
import Mathlib.Logic.Function.Basic
import Mathlib.Tactic.Common

/-!
# Fixed-size arrays indexed by machine integers

A C array of `n` cells is a function `Fin n → α`. The program indexes it by an integer that it
may or may not have checked, so reading (`rd`) and writing (`wr`) take an `Int` and are `none`
when the index lies outside of the array: `none` is the undefined behaviour of C. For an index
that is inside, `rd_val` and `wr_val` turn them into application and `Function.update`.

`cString` is the text in an array of characters: what stands before the first NUL.
-/

namespace SystemProgrammingLab.Found

variable {α : Type*} {n : Nat}

/-- Read the cell `i`; `none` outside of the array. -/
def rd (a : Fin n → α) (i : Int) : Option α :=
  if h : 0 ≤ i ∧ i < n then some (a ⟨i.toNat, by omega⟩) else none

/-- Write `v` into the cell `i`; `none` outside of the array. -/
def wr (a : Fin n → α) (i : Int) (v : α) : Option (Fin n → α) :=
  if h : 0 ≤ i ∧ i < n then some (Function.update a ⟨i.toNat, by omega⟩ v) else none

/-- A read inside of the array. -/
@[simp] theorem rd_val (a : Fin n → α) (i : Fin n) : rd a (i : Nat) = some (a i) := by
  unfold rd
  rw [dif_pos ⟨Int.natCast_nonneg _, by exact_mod_cast i.isLt⟩]
  simp

/-- A write inside of the array. -/
@[simp] theorem wr_val (a : Fin n → α) (i : Fin n) (v : α) :
    wr a (i : Nat) v = some (Function.update a i v) := by
  unfold wr
  rw [dif_pos ⟨Int.natCast_nonneg _, by exact_mod_cast i.isLt⟩]
  simp

/-- An integer inside the bounds is the value of an index. -/
theorem exists_fin_of_bounds {i : Int} (h₀ : 0 ≤ i) (h₁ : i < n) : ∃ j : Fin n, i = (j : Nat) :=
  ⟨⟨i.toNat, by omega⟩, (Int.toNat_of_nonneg h₀).symm⟩

/-- An index is not outside of the bounds, as a program checks them. -/
theorem not_outside (i : Fin n) : ¬ (((i : Nat) : Int) < 0 ∨ ((i : Nat) : Int) ≥ n) :=
  not_or.mpr ⟨by omega, by exact_mod_cast Nat.not_le.mpr i.isLt⟩

/-- An integer is outside of the bounds or the value of an index. -/
theorem outside_or_fin (n : Nat) (i : Int) : (i < 0 ∨ i ≥ n) ∨ ∃ j : Fin n, i = (j : Nat) := by
  by_cases hout : i < 0 ∨ i ≥ n
  · exact .inl hout
  · exact .inr (exists_fin_of_bounds (Int.not_lt.mp (not_or.mp hout).1)
      (Int.not_le.mp (not_or.mp hout).2))

/-- A defined read was inside of the array. -/
theorem exists_fin_of_rd {a : Fin n → α} {i : Int} {v : α} (h : rd a i = some v) :
    ∃ j : Fin n, i = (j : Nat) ∧ a j = v := by
  unfold rd at h
  split at h
  · rename_i hb
    obtain ⟨j, rfl⟩ := exists_fin_of_bounds hb.1 hb.2
    refine ⟨j, rfl, ?_⟩
    simpa using h
  · cases h

/-- The cells after a write. -/
theorem ofFn_update (a : Fin n → α) (i : Fin n) (v : α) :
    List.ofFn (Function.update a i v) = (List.ofFn a).set i v := by
  apply List.ext_getElem (by simp)
  intro j h₁ h₂
  rw [List.getElem_ofFn, List.getElem_set, List.getElem_ofFn]
  by_cases hij : (i : Nat) = j
  · rw [if_pos hij]
    have hfin : (⟨j, by simpa using h₁⟩ : Fin n) = i := Fin.ext hij.symm
    rw [hfin, Function.update_self]
  · rw [if_neg hij, Function.update_of_ne fun h => hij (congrArg Fin.val h).symm]

/-- The characters before the first NUL, or all of them. -/
def cString (a : Fin n → Char) : List Char := (List.ofFn a).takeWhile (· ≠ '\x00')

end SystemProgrammingLab.Found
