import Mathlib.Data.Nat.Find
import Mathlib.Logic.Function.Basic
import Mathlib.Order.Basic
import Mathlib.Tactic.Common

/-!
# Tables of file descriptors

The table of a process says what each descriptor number denotes. Only finitely many numbers are open,
so there always is a lowest free one, which is what `dup`, `open` and `pipe` take. A number that is not
open, or is negative, makes `dup` return -1 and leaves the other calls without an effect.

What is open is a type of its own: the tables do not know what it can do.
-/

namespace SystemProgrammingLab.Found

/-- A table of descriptors; all numbers from some on are free. -/
@[ext]
structure Table (δ : Type*) where
  get : Nat → Option δ
  bounded : ∃ n, ∀ k, n ≤ k → get k = none

namespace Table

variable {δ : Type*}

/-- What an `int` denotes as a descriptor. -/
def at? (t : Table δ) (fd : Int) : Option δ := if 0 ≤ fd then t.get fd.toNat else none

/-- Some descriptor is free, since only finitely many are open. -/
theorem exists_free (t : Table δ) : ∃ k, (t.get k).isNone = true := by
  obtain ⟨n, hn⟩ := t.bounded
  exact ⟨n, by rw [hn n le_rfl]; rfl⟩

/-- The lowest free number. -/
def free (t : Table δ) : Nat := Nat.find t.exists_free

/-- The table with another entry. -/
def set (t : Table δ) (k : Nat) (v : Option δ) : Table δ where
  get := Function.update t.get k v
  bounded := by
    obtain ⟨n, hn⟩ := t.bounded
    refine ⟨max n (k + 1), ?_⟩
    intro j hj
    rw [Function.update_of_ne (by omega)]
    exact hn j (by omega)

/-- A new descriptor. -/
def alloc (t : Table δ) (d : δ) : Int × Table δ := (t.free, t.set t.free (some d))

/-- `dup(fd)` -/
def dup (t : Table δ) (fd : Int) : Int × Table δ :=
  match t.at? fd with
  | some d => t.alloc d
  | none => (-1, t)

/-- `dup2(fd, k)` -/
def dup2 (t : Table δ) (fd : Int) (k : Nat) : Table δ :=
  match t.at? fd with
  | some d => t.set k (some d)
  | none => t

/-- `close(fd)` -/
def close (t : Table δ) (fd : Int) : Table δ := if 0 ≤ fd then t.set fd.toNat none else t

/-- `pipe(fd)`: the read end in `fd[0]` and the write end in `fd[1]`. -/
def pipe (t : Table δ) (r w : δ) : (Int × Int) × Table δ :=
  let (fd0, t) := t.alloc r
  let (fd1, t) := t.alloc w
  ((fd0, fd1), t)

/-- The file is opened and put into the place of `k`. -/
def redirect (t : Table δ) (d : δ) (k : Nat) : Table δ :=
  let (fdr, t) := t.alloc d
  (t.dup2 fdr k).close fdr

/-! ## What a number denotes afterwards -/

variable {t : Table δ} {d r w : δ} {fd x : Int} {k : Nat}

/-- Tables with the same descriptors are the same. -/
theorem ext_at? {t t' : Table δ} (h : ∀ fd, t.at? fd = t'.at? fd) : t = t' := by
  ext1
  funext k
  simpa [at?] using h k

/-- A number that is no negative one. -/
theorem at?_natCast (t : Table δ) (k : Nat) : t.at? k = t.get k := by
  rw [at?, if_pos (Int.natCast_nonneg k), Int.toNat_natCast]

/-- The descriptors behind a change of one of them. -/
theorem at?_set (t : Table δ) (k : Nat) (v : Option δ) (x : Int) :
    (t.set k v).at? x = if x = k then v else t.at? x := by
  unfold at? set
  dsimp only
  by_cases hx : x = k
  · subst hx
    rw [if_pos (Int.natCast_nonneg k), if_pos rfl, Int.toNat_natCast, Function.update_self]
  · rw [if_neg hx]
    by_cases hpos : 0 ≤ x
    · rw [if_pos hpos, if_pos hpos, Function.update_of_ne (by omega)]
    · rw [if_neg hpos, if_neg hpos]

/-- The descriptors behind `close`. -/
theorem at?_close (t : Table δ) (fd x : Int) :
    (t.close fd).at? x = if x = fd then none else t.at? x := by
  unfold close
  by_cases hfd : 0 ≤ fd
  · obtain ⟨k, rfl⟩ := Int.eq_ofNat_of_zero_le hfd
    rw [if_pos hfd, Int.toNat_natCast, at?_set]
  · rw [if_neg hfd]
    split_ifs with hx
    · subst hx
      exact if_neg hfd
    · rfl

/-- The descriptors behind `dup2`. -/
theorem at?_dup2 (h : t.at? fd = some d) (k : Nat) (x : Int) :
    (t.dup2 fd k).at? x = if x = k then some d else t.at? x := by
  rw [dup2, h]
  exact at?_set t k _ x

/-- The new number was free. -/
theorem at?_alloc_fst (t : Table δ) (d : δ) : t.at? (t.alloc d).1 = none := by
  have hfree := Nat.find_spec t.exists_free
  rw [Option.isNone_iff_eq_none] at hfree
  exact (at?_natCast t t.free).trans hfree

/-- The descriptors when the lowest free one is taken. -/
theorem at?_alloc (t : Table δ) (d : δ) (x : Int) :
    (t.alloc d).2.at? x = if x = (t.alloc d).1 then some d else t.at? x :=
  at?_set t t.free _ x

/-- A number that is open is not taken. -/
theorem ne_alloc (h : t.at? x ≠ none) (d : δ) : x ≠ (t.alloc d).1 := by
  rintro rfl
  exact h (at?_alloc_fst t d)

/-- `dup` takes the lowest free descriptor. -/
theorem dup_eq (h : t.at? fd = some d) : t.dup fd = t.alloc d := by
  rw [dup, h]

/-- The ends of a pipe have two new numbers. -/
theorem pipe_fst (t : Table δ) (r w : δ) : t.at? (t.pipe r w).1.1 = none ∧
    t.at? (t.pipe r w).1.2 = none ∧ (t.pipe r w).1.1 ≠ (t.pipe r w).1.2 := by
  have hsecond := at?_alloc_fst (t.alloc r).2 w
  rw [at?_alloc] at hsecond
  refine ⟨at?_alloc_fst t r, ?_, ?_⟩
  · split_ifs at hsecond
    exact hsecond
  · intro heq
    have hsame : ((t.alloc r).2.alloc w).1 = (t.alloc r).1 := heq.symm
    rw [if_pos hsame] at hsecond
    cases hsecond

/-- The descriptors behind `pipe`. -/
theorem at?_pipe (t : Table δ) (r w : δ) (x : Int) : (t.pipe r w).2.at? x =
    if x = (t.pipe r w).1.2 then some w else if x = (t.pipe r w).1.1 then some r else t.at? x := by
  show ((t.alloc r).2.alloc w).2.at? x = _
  rw [at?_alloc, at?_alloc]
  rfl

/-- The descriptors behind a redirection. -/
theorem redirect_at? (h : t.at? k ≠ none) (x : Int) :
    (t.redirect d k).at? x = if x = k then some d else t.at? x := by
  have hk : (k : Int) ≠ (t.alloc d).1 := ne_alloc h d
  have hself : (t.alloc d).2.at? (t.alloc d).1 = some d := by rw [at?_alloc, if_pos rfl]
  show (((t.alloc d).2.dup2 (t.alloc d).1 k).close (t.alloc d).1).at? x = _
  rw [at?_close, at?_dup2 hself, at?_alloc]
  by_cases hx : x = k
  · subst hx
    rw [if_neg hk, if_pos rfl, if_pos rfl]
  · by_cases hnew : x = (t.alloc d).1
    · rw [if_pos hnew, if_neg hx, hnew, at?_alloc_fst]
    · rw [if_neg hnew, if_neg hx, if_neg hnew, if_neg hx]

/-! ## What stays open -/

/-- What is open stays open when a free descriptor is taken. -/
theorem alloc_kept (h : t.at? x ≠ none) (d : δ) : (t.alloc d).2.at? x ≠ none := by
  rwa [at?_alloc, if_neg (ne_alloc h d)]

/-- What is open stays open behind `dup`. -/
theorem dup_kept (h : t.at? x ≠ none) (fd : Int) : (t.dup fd).2.at? x ≠ none := by
  rcases hfd : t.at? fd with _ | d
  · rwa [dup, hfd]
  · rw [dup_eq hfd]
    exact alloc_kept h d

/-- What is open stays open behind `dup2`. -/
theorem dup2_kept (h : t.at? x ≠ none) (fd : Int) (k : Nat) : (t.dup2 fd k).at? x ≠ none := by
  rcases hfd : t.at? fd with _ | d
  · rwa [dup2, hfd]
  · rw [at?_dup2 hfd]
    split_ifs
    · exact Option.some_ne_none d
    · exact h

/-- What is open stays open when another descriptor is closed. -/
theorem close_kept (h : t.at? x ≠ none) (hne : x ≠ fd) : (t.close fd).at? x ≠ none := by
  rwa [at?_close, if_neg hne]

/-- The ends of a new pipe are none of the open numbers. -/
theorem ne_pipe (h : t.at? x ≠ none) (r w : δ) : x ≠ (t.pipe r w).1.1 ∧ x ≠ (t.pipe r w).1.2 :=
  ⟨ne_alloc h r, ne_alloc (alloc_kept h r) w⟩

/-- What is open stays open behind `pipe`. -/
theorem pipe_kept (h : t.at? x ≠ none) (r w : δ) : (t.pipe r w).2.at? x ≠ none :=
  alloc_kept (alloc_kept h r) w

/-! ## What all the descriptors denote -/

/-- All that is open has the property. -/
def All (S : δ → Prop) (t : Table δ) : Prop := ∀ x d, t.at? x = some d → S d

variable {S : δ → Prop}

/-- A property of all that is open holds behind `close`. -/
theorem All.close (h : t.All S) (fd : Int) : (t.close fd).All S := by
  intro x d hd
  rw [at?_close] at hd
  split_ifs at hd
  exact h x d hd

/-- A property of all that is open holds behind `dup2`. -/
theorem All.dup2 (h : t.All S) (fd : Int) (k : Nat) : (t.dup2 fd k).All S := by
  intro x d hd
  rcases hfd : t.at? fd with _ | d'
  · rw [Table.dup2, hfd] at hd
    exact h x d hd
  · rw [at?_dup2 hfd] at hd
    split_ifs at hd
    · cases hd
      exact h fd _ hfd
    · exact h x d hd

/-- A property of all that is open holds behind a redirection to something that has it. -/
theorem All.redirect (h : t.All S) {d : δ} (hd : S d) (k : Nat) : (t.redirect d k).All S := by
  have halloc : (t.alloc d).2.All S := by
    intro x d' hd'
    rw [at?_alloc] at hd'
    split_ifs at hd'
    · cases hd'
      exact hd
    · exact h x d' hd'
  exact (halloc.dup2 _ k).close _

end Table

end SystemProgrammingLab.Found
