import SystemProgrammingLab.Found.CArray
import Mathlib.Data.Nat.ModEq

/-!
# Circular arrays

`Ring data start xs` says that the cells of an array from `start` on, modulo its size, hold the list
`xs`. A write behind the last one of them appends to the list, and the cell at `start` holds its head;
`start` then moves on by one. The other cells are unrestricted.
-/

namespace SystemProgrammingLab.Found

variable {α : Type*} {n start : Nat} {data data' : Fin n → α} {xs : List α} {x : α}

/-- The cells from `start` on, modulo the size of the array, hold `xs`. -/
structure Ring (data : Fin n → α) (start : Nat) (xs : List α) : Prop where
  lt : start < n
  le : xs.length ≤ n
  cells : ∀ i, i < xs.length → rd data ((start + i) % n : Nat) = xs[i]?

/-- An empty ring. -/
theorem Ring.nil (data : Fin n → α) (hstart : start < n) : Ring data start [] :=
  ⟨hstart, Nat.zero_le n, fun i hi => absurd hi (Nat.not_lt_zero i)⟩

/-- Places behind `start` that are less than a round apart are different cells. -/
theorem ring_place_inj {i j : Nat} (hi : i < n) (hj : j < n)
    (h : (start + i) % n = (start + j) % n) : i = j := by
  have hmod : i % n = j % n := Nat.ModEq.add_left_cancel' start h
  rwa [Nat.mod_eq_of_lt hi, Nat.mod_eq_of_lt hj] at hmod

/-- A write to the cell behind the last one appends. -/
theorem Ring.put (h : Ring data start xs) (hroom : xs.length < n)
    (hwr : wr data ((start + xs.length) % n : Nat) x = some data') :
    Ring data' start (xs ++ [x]) := by
  have hn : 0 < n := Nat.zero_lt_of_lt hroom
  let place (i : Nat) : Fin n := ⟨(start + i) % n, Nat.mod_lt _ hn⟩
  have hdata : data' = Function.update data (place xs.length) x := by
    rw [show ((start + xs.length) % n : Nat) = (place xs.length : Nat) from rfl, wr_val] at hwr
    exact (Option.some.inj hwr).symm
  refine ⟨h.lt, by rw [List.length_append]; exact hroom, ?_⟩
  intro i hi
  show rd data' (place i : Nat) = _
  rw [rd_val, hdata]
  by_cases hlast : i = xs.length
  · subst hlast
    rw [Function.update_self, List.getElem?_concat_length]
  · rw [List.length_append, List.length_singleton] at hi
    have hold : i < xs.length := by omega
    have hne : place i ≠ place xs.length := fun heq =>
      hlast (ring_place_inj (hold.trans hroom) hroom (congrArg Fin.val heq))
    have hcell := h.cells i hold
    rw [show ((start + i) % n : Nat) = (place i : Nat) from rfl, rd_val] at hcell
    rw [Function.update_of_ne hne, hcell, List.getElem?_append_left hold]

/-- The cell at `start` holds the head. -/
theorem Ring.head (h : Ring data start (x :: xs)) : rd data (start : Nat) = some x := by
  have hcell := h.cells 0 (Nat.succ_pos _)
  rwa [Nat.add_zero, Nat.mod_eq_of_lt h.lt] at hcell

/-- The cells behind the one at `start` hold the tail. -/
theorem Ring.tail (h : Ring data start (x :: xs)) : Ring data ((start + 1) % n) xs := by
  refine ⟨Nat.mod_lt _ (Nat.zero_lt_of_lt h.lt), Nat.le_of_succ_le h.le, ?_⟩
  intro i hi
  have hcell := h.cells (i + 1) (Nat.succ_lt_succ hi)
  rw [Nat.mod_add_mod, Nat.add_assoc, Nat.add_comm 1 i, hcell, List.getElem?_cons_succ]

end SystemProgrammingLab.Found
