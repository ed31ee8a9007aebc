import SystemProgrammingLab.Pa2.Wiring

/-!
# The descriptors the shell loses

`main` makes a copy of the standard input in every round, and the arrays of the pipes are all it ever
closes. A number that is open and in neither array stays so until the pipeline is finished (`Held`), and
the first copy of the standard input is such a number.

Source: `pa2/main.c`
-/

namespace SystemProgrammingLab.Pa2

open SystemProgrammingLab.Found

/-- `a` is open, and is no end of a pipe. -/
structure Held (a : Int) (s : Shell) : Prop where
  isOpen : s.table.at? a ≠ none
  fst : ∀ j, a ≠ (ends j s).1
  snd : ∀ j, a ≠ (ends j s).2

/-- The shell has the descriptors of the prompt after the pipeline. -/
def Conserved (p : Prompt) (num : Nat) (r : Files) : Prop :=
  (pipeline num r p.toShell).2.table = p.table

section held

variable {a : Int} {s : Shell}

/-- The pair of ends depends on whether the round is odd. -/
theorem ends_congr {i j : Nat} (h : j % 2 = i % 2) (s : Shell) : ends j s = ends i s := by
  unfold ends
  rw [h]

/-- The pipe of a round replaces the ends of the one two rounds before. -/
theorem ends_prepare_cases (i j : Nat) (s : Shell) :
    ends j (prepare i s) = ((copied s.table).pipe (.readEnd s.pipes) (.writeEnd s.pipes)).1 ∨
      ends j (prepare i s) = ends j s := by
  by_cases h : j % 2 = i % 2
  · apply Or.inl
    rw [← ends_prepare, ends_congr h]
  · apply Or.inr
    have hother : j % 2 = (i + 1) % 2 := by omega
    rw [ends_congr hother, ends_congr hother, ends_succ_prepare]

/-- A copy that is open and in neither pair of ends is held by the next round. -/
theorem held_prepare (i : Nat) (hopen : (copied s.table).at? a ≠ none)
    (hfst : ∀ j, a ≠ (ends j s).1) (hsnd : ∀ j, a ≠ (ends j s).2) : Held a (prepare i s) := by
  obtain ⟨hread, hwrite⟩ := Table.ne_pipe hopen (.readEnd s.pipes) (.writeEnd s.pipes)
  refine ⟨?_, ?_, ?_⟩
  · rw [prepare_table]
    exact Table.pipe_kept hopen _ _
  · intro j
    rcases ends_prepare_cases i j s with h | h
    · rwa [h]
    · rw [h]
      exact hfst j
  · intro j
    rcases ends_prepare_cases i j s with h | h
    · rwa [h]
    · rw [h]
      exact hsnd j

/-- What is held stays open in front of the fork. -/
theorem Held.prepare (h : Held a s) (i : Nat) : Held a (prepare i s) :=
  held_prepare i (Table.dup_kept (Table.dup_kept h.isOpen _) _) h.fst h.snd

/-- What is held stays open when the standard descriptors are brought back. -/
theorem Held.bringBack (h : Held a s) : Held a (bringBack s) :=
  ⟨Table.dup2_kept (Table.dup2_kept h.isOpen _ _) _ _, h.fst, h.snd⟩

/-- What is held stays open behind the clean-up. -/
theorem Held.cleanUp (h : Held a s) (num i : Nat) : Held a (cleanUp num i s) := by
  refine ⟨?_, h.fst, h.snd⟩
  rw [cleanUp_table]
  have hback := h.bringBack.isOpen
  dsimp only
  split_ifs
  · exact Table.close_kept (Table.close_kept hback (h.fst _)) (h.snd _)
  · exact Table.close_kept hback (h.snd _)
  · exact Table.close_kept hback (h.fst _)
  · exact hback

/-- What is held stays open in all rounds. -/
theorem Held.rounds (num : Nat) (r : Files) : ∀ (k i : Nat) {s : Shell}, Held a s →
    Held a (rounds num r k i s).2 := by
  intro k
  induction k with
  | zero =>
      intro i s h
      exact h
  | succ k ih =>
      intro i s h
      exact ih (i + 1) ((h.prepare i).cleanUp num i)

/-- What is held is open at the end of the line. -/
theorem Held.finish (h : Held a s) : (finish s).table.at? a ≠ none := by
  apply Table.dup2_kept
  apply Table.dup2_kept
  apply Table.close_kept _ (h.snd 1)
  apply Table.close_kept _ (h.fst 1)
  apply Table.close_kept _ (h.snd 0)
  apply Table.close_kept _ (h.fst 0)
  exact h.isOpen

end held

/-- The first copy of the standard input is never closed. -/
theorem copy_lost (p : Prompt) (r : Files) {num : Nat} (hnum : 1 ≤ num) :
    p.table.at? (p.table.dup stdin).1 = none ∧
      (pipeline num r p.toShell).2.table.at? (p.table.dup stdin).1 ≠ none := by
  obtain ⟨d, hd⟩ := p.std (k := 0) (by omega)
  have hdup : p.table.dup stdin = p.table.alloc d := Table.dup_eq hd
  rw [hdup]
  refine ⟨Table.at?_alloc_fst p.table d, ?_⟩
  have hopen : (copied p.table).at? (p.table.alloc d).1 ≠ none := by
    apply Table.dup_kept
    rw [hdup, Table.at?_alloc, if_pos rfl]
    exact Option.some_ne_none d
  have hpos : (p.table.alloc d).1 ≠ -1 := by
    show (p.table.free : Int) ≠ -1
    omega
  have hnone : ∀ j, ends j { p.toShell with fd1 := (-1, -1), fd2 := (-1, -1) } = (-1, -1) :=
    fun _ => ite_self _
  have hfirst : Held (p.table.alloc d).1
      (prepare 0 { p.toShell with fd1 := (-1, -1), fd2 := (-1, -1) }) := by
    refine held_prepare 0 hopen ?_ ?_
    · intro j
      rwa [hnone]
    · intro j
      rwa [hnone]
  obtain ⟨k, rfl⟩ := Nat.exists_eq_add_of_le' hnum
  exact ((hfirst.cleanUp (k + 1) 0).rounds (k + 1) r k 1).finish

/-- **No pipeline conserves the table**: a copy of the standard input is left open by each. -/
theorem descriptors_leak (p : Prompt) (r : Files) {num : Nat} (hnum : 1 ≤ num) :
    ¬ Conserved p num r := by
  intro h
  obtain ⟨hbefore, hafter⟩ := copy_lost p r hnum
  rw [show (pipeline num r p.toShell).2.table = p.table from h] at hafter
  exact hafter hbefore

/-- A single command at the first prompt. -/
theorem descriptors_leak_single : ¬ Conserved .first 1 ⟨none, none, none⟩ :=
  descriptors_leak .first _ le_rfl

/-- So the descriptors are not those of the prompt. -/
theorem not_conserved :
    ¬ ∀ (p : Prompt) (num : Nat) (r : Files), 1 ≤ num → Conserved p num r := by
  intro h
  obtain ⟨hbefore, hafter⟩ := copy_lost .first ⟨none, none, none⟩ (le_refl 1)
  have heq : (pipeline 1 ⟨none, none, none⟩ Prompt.first.toShell).2.table = Prompt.first.table :=
    h .first 1 _ le_rfl
  rw [heq] at hafter
  exact hafter hbefore

end SystemProgrammingLab.Pa2
