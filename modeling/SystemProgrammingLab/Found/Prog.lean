import Mathlib.Order.Lattice.Nat
import Mathlib.Tactic.Common

/-!
# Programs of atomic statements

A program ends with a value, or does a statement and goes on with the value that the statement gave
(`Prog`). What a statement does to a state is left to an `exec`; it is `none` where the statement cannot
be done, be it that it has to wait or that it is undefined. A thread that is interrupted between two
statements is what is left of its program, so programs are what a state of several threads holds.

* **undisturbed runs** (`Prog.run`): all statements of a program, one behind the other;
* **lengths** (`Prog.Within n`): a program that ends after `n` statements at most, whatever they give;
* **rely and guarantee** (`Prog.Safe`): between any two statements the others do what `rely` allows.
  Each statement keeps to `guar`, and the result meets a postcondition. A state is a pair: the second
  part is a ghost, which no statement reads and which may be changed along with every statement. It
  carries what the proof knows and the program does not, such as the state of another system that the
  program is compared with. `Triple` is the form in which this is proved, with one rule for each way to
  build a program.
-/

namespace SystemProgrammingLab.Found

variable {A V α β σ γ : Type}

/-- A program: it ends with a value, or does a statement and goes on with what it gave. -/
inductive Prog (A V α : Type)
  | ret (a : α)
  | act (a : A) (next : V → Prog A V α)

namespace Prog

/-- One program behind the other. -/
def seq : Prog A V α → (α → Prog A V β) → Prog A V β
  | .ret a, f => f a
  | .act a next, f => .act a fun v => (next v).seq f

instance : Monad (Prog A V) where
  pure := .ret
  bind := Prog.seq

/-- One statement. -/
def stmt (a : A) : Prog A V V := .act a .ret

/-! ## Undisturbed runs -/

section run

variable (exec : A → σ → Option (V × σ))

/-- All statements of the program, one behind the other. -/
def run : Prog A V α → σ → Option (α × σ)
  | .ret a, s => some (a, s)
  | .act a next, s => (exec a s).bind fun p => (next p.1).run p.2

/-- A program that has ended changes nothing. -/
@[simp] theorem run_pure (a : α) (s : σ) : (pure a : Prog A V α).run exec s = some (a, s) := rfl

/-- A single statement is executed. -/
@[simp] theorem run_stmt (a : A) (s : σ) : (stmt a).run exec s = exec a s := by
  show (exec a s).bind _ = _
  cases exec a s <;> rfl

/-- One program behind the other. -/
theorem run_bind (p : Prog A V α) (f : α → Prog A V β) (s : σ) :
    (p >>= f).run exec s = (p.run exec s).bind fun x => (f x.1).run exec x.2 := by
  induction p generalizing s with
  | ret a => rfl
  | act a next ih =>
      show (exec a s).bind _ = ((exec a s).bind _).bind _
      cases exec a s with
      | none => rfl
      | some x => exact ih x.1 x.2

end run

/-! ## Lengths -/

/-- The program ends after `n` statements at most. -/
def Within : Nat → Prog A V α → Prop
  | _, .ret _ => True
  | 0, .act _ _ => False
  | n + 1, .act _ next => ∀ v, (next v).Within n

/-- A program that has ended takes no statement. -/
theorem within_pure (n : Nat) (a : α) : (pure a : Prog A V α).Within n := by
  cases n <;> trivial

/-- A statement in front of a program takes one more. -/
theorem Within.stmt {n : Nat} {a : A} {f : V → Prog A V α} (h : ∀ v, (f v).Within n) :
    (stmt a >>= f).Within (n + 1) := h

/-- A bound may be larger. -/
theorem Within.mono {n m : Nat} {p : Prog A V α} (h : p.Within n) (hle : n ≤ m) : p.Within m := by
  induction p generalizing n m with
  | ret a => exact within_pure m a
  | act a next ih =>
      obtain _ | n := n
      · exact h.elim
      obtain _ | m := m
      · exact absurd hle (Nat.not_succ_le_zero n)
      exact fun v => ih v (h v) (Nat.le_of_succ_le_succ hle)

/-- The bounds of programs behind each other add up. -/
theorem Within.bind {n m : Nat} {p : Prog A V α} {f : α → Prog A V β} (hp : p.Within n)
    (hf : ∀ a, (f a).Within m) : (p >>= f).Within (n + m) := by
  induction p generalizing n with
  | ret a => exact (hf a).mono (Nat.le_add_left m n)
  | act a next ih =>
      obtain _ | n := n
      · exact hp.elim
      rw [Nat.succ_add]
      exact fun v => ih v (hp v)

/-- A bound for both branches. -/
theorem Within.ite {n : Nat} {c : Prop} [Decidable c] {p q : Prog A V α} (hp : p.Within n)
    (hq : q.Within n) : (if c then p else q).Within n := by
  split_ifs
  · exact hp
  · exact hq

/-- The bound of a loop. -/
theorem within_foldlM {n : Nat} {f : β → α → Prog A V β} (h : ∀ b a, (f b a).Within n) (l : List α)
    (b : β) : (l.foldlM f b).Within (n * l.length) := by
  induction l generalizing b with
  | nil => exact within_pure _ b
  | cons a l ih =>
      rw [List.foldlM_cons, List.length_cons, Nat.mul_succ, Nat.add_comm]
      exact (h b a).bind ih

/-- The number of statements after which the program ends at the latest. -/
noncomputable def len (p : Prog A V α) : Nat := sInf {n | p.Within n}

/-- The number of statements is the least bound. -/
theorem Within.len_le {n : Nat} {p : Prog A V α} (h : p.Within n) : p.len ≤ n := Nat.sInf_le h

/-- A statement takes one from the length. -/
theorem Within.len_next {n : Nat} {a : A} {next : V → Prog A V α} (h : (act a next).Within n) (v : V) :
    (next v).Within n ∧ (next v).len < (act a next).len := by
  have hlen : (act a next).Within (act a next).len :=
    Nat.sInf_mem (s := {n | (act a next).Within n}) ⟨n, h⟩
  constructor
  · obtain _ | n := n
    · exact h.elim
    · exact (h v).mono (Nat.le_succ n)
  · cases hl : (act a next).len with
    | zero =>
        rw [hl] at hlen
        exact hlen.elim
    | succ m =>
        rw [hl] at hlen
        exact Nat.lt_succ_of_le (hlen v).len_le

/-! ## Rely and guarantee -/

section safe

variable (exec : A → σ → Option (V × σ)) (rely guar : σ × γ → σ × γ → Prop)

/-- From the state, with the others doing what `rely` allows before and behind every statement: the
ghost can follow each statement such that `guar` holds of it, and at the end `Q` holds of the result. -/
def Safe : Prog A V α → (α → σ × γ → Prop) → σ × γ → Prop
  | .ret a, Q, x => ∀ y, rely x y → Q a y
  | .act a next, Q, x => ∀ y, rely x y → ∀ v s, exec a y.1 = some (v, s) →
      ∃ g, guar y (s, g) ∧ (next v).Safe Q (s, g)

/-- What the others do does not make it false. -/
def Stable (P : σ × γ → Prop) : Prop := ∀ x y, P x → rely x y → P y

/-- The program is safe from every state of the precondition. -/
def Triple (P : σ × γ → Prop) (p : Prog A V α) (Q : α → σ × γ → Prop) : Prop :=
  ∀ x, P x → p.Safe exec rely guar Q x

variable {exec rely guar} {P P' : σ × γ → Prop}

/-- The state may be one that the others have left behind. -/
theorem Safe.stable (htrans : ∀ x y z, rely x y → rely y z → rely x z) {p : Prog A V α}
    {Q : α → σ × γ → Prop} {x y : σ × γ} (h : p.Safe exec rely guar Q x) (hxy : rely x y) :
    p.Safe exec rely guar Q y := by
  cases p with
  | ret a => exact fun z hyz => h z (htrans x y z hxy hyz)
  | act a next => exact fun z hyz => h z (htrans x y z hxy hyz)

/-- A statement that is done now. -/
theorem Safe.act (hrefl : ∀ x, rely x x) {a : A} {next : V → Prog A V α} {Q : α → σ × γ → Prop}
    {s s' : σ} {g : γ} {v : V} (h : (Prog.act a next).Safe exec rely guar Q (s, g))
    (hexec : exec a s = some (v, s')) :
    ∃ g', guar (s, g) (s', g') ∧ (next v).Safe exec rely guar Q (s', g') :=
  h (s, g) (hrefl _) v s' hexec

/-- A program that has ended. -/
theorem Safe.ret (hrefl : ∀ x, rely x x) {a : α} {Q : α → σ × γ → Prop} {x : σ × γ}
    (h : (Prog.ret a : Prog A V α).Safe exec rely guar Q x) : Q a x :=
  h x (hrefl x)

/-- A safe program whose end is safe to go on from. -/
theorem Safe.bind (hrefl : ∀ x, rely x x) {p : Prog A V α} {f : α → Prog A V β}
    {Q : β → σ × γ → Prop} {x : σ × γ}
    (h : p.Safe exec rely guar (fun a => (f a).Safe exec rely guar Q) x) :
    (p >>= f).Safe exec rely guar Q x := by
  induction p generalizing x with
  | ret a => exact h.ret hrefl
  | act a next ih =>
      intro y hxy v s hexec
      obtain ⟨g, hguar, hnext⟩ := h y hxy v s hexec
      exact ⟨g, hguar, ih v hnext⟩

/-- A weaker condition at the end. -/
theorem Safe.mono {p : Prog A V α} {Q Q' : α → σ × γ → Prop} {x : σ × γ}
    (h : p.Safe exec rely guar Q x) (hQ : ∀ a x, Q a x → Q' a x) : p.Safe exec rely guar Q' x := by
  induction p generalizing x with
  | ret a => exact fun y hxy => hQ a y (h y hxy)
  | act a next ih =>
      intro y hxy v s hexec
      obtain ⟨g, hguar, hnext⟩ := h y hxy v s hexec
      exact ⟨g, hguar, ih v hnext⟩

/-- Two stable conditions. -/
theorem Stable.and (hP : Stable rely P) (hP' : Stable rely P') : Stable rely fun x => P x ∧ P' x :=
  fun x y h hxy => ⟨hP x y h.1 hxy, hP' x y h.2 hxy⟩

/-- A program that has ended. -/
theorem triple_pure {a : α} {Q : α → σ × γ → Prop} (hP : Stable rely P) (h : ∀ x, P x → Q a x) :
    Triple exec rely guar P (pure a) Q :=
  fun x hx y hxy => h y (hP x y hx hxy)

/-- A statement, from a precondition that the others keep. -/
theorem triple_act {a : A} {next : V → Prog A V α} {Q : α → σ × γ → Prop} (hP : Stable rely P)
    (R : V → σ × γ → Prop)
    (h : ∀ x v s, P x → exec a x.1 = some (v, s) → ∃ g, guar x (s, g) ∧ R v (s, g))
    (hnext : ∀ v, Triple exec rely guar (R v) (next v) Q) :
    Triple exec rely guar P (.act a next) Q := by
  intro x hx y hxy v s hexec
  obtain ⟨g, hguar, hR⟩ := h y v s (hP x y hx hxy) hexec
  exact ⟨g, hguar, hnext v _ hR⟩

/-- A statement that keeps to the guarantee, and what follows. -/
theorem triple_stmt {a : A} {f : V → Prog A V α} {Q : α → σ × γ → Prop} (hP : Stable rely P)
    (R : V → σ × γ → Prop)
    (h : ∀ x v s, P x → exec a x.1 = some (v, s) → ∃ g, guar x (s, g) ∧ R v (s, g))
    (hnext : ∀ v, Triple exec rely guar (R v) (f v) Q) : Triple exec rely guar P (stmt a >>= f) Q :=
  triple_act hP R h hnext

/-- One program behind the other. -/
theorem Triple.bind (hrefl : ∀ x, rely x x) {p : Prog A V α} {f : α → Prog A V β}
    {R : α → σ × γ → Prop} {Q : β → σ × γ → Prop} (hp : Triple exec rely guar P p R)
    (hf : ∀ a, Triple exec rely guar (R a) (f a) Q) : Triple exec rely guar P (p >>= f) Q :=
  fun x hx => ((hp x hx).mono hf).bind hrefl

/-- A choice. -/
theorem Triple.ite {c : Prop} [Decidable c] {p q : Prog A V α} {Q : α → σ × γ → Prop}
    (hp : c → Triple exec rely guar P p Q) (hq : ¬ c → Triple exec rely guar P q Q) :
    Triple exec rely guar P (if c then p else q) Q := by
  split_ifs with hc
  · exact hp hc
  · exact hq hc

/-- A stronger condition at the start. -/
theorem Triple.pre {p : Prog A V α} {Q : α → σ × γ → Prop} (h : Triple exec rely guar P p Q)
    (hP : ∀ x, P' x → P x) : Triple exec rely guar P' p Q :=
  fun x hx => h x (hP x hx)

/-- A weaker condition at the end. -/
theorem Triple.post {p : Prog A V α} {Q Q' : α → σ × γ → Prop} (h : Triple exec rely guar P p Q)
    (hQ : ∀ a x, Q a x → Q' a x) : Triple exec rely guar P p Q' :=
  fun x hx => (h x hx).mono hQ

/-- A loop over a list with its invariant, which speaks of the elements that are done. -/
theorem triple_foldlM (hrefl : ∀ x, rely x x) {f : β → α → Prog A V β} (I : List α → β → σ × γ → Prop)
    (hstable : ∀ done b, Stable rely (I done b)) {l : List α}
    (h : ∀ done a rest b, l = done ++ a :: rest →
      Triple exec rely guar (I done b) (f b a) (I (done ++ [a]))) (b : β) :
    Triple exec rely guar (I [] b) (l.foldlM f b) (I l) := by
  suffices hrest : ∀ rest done b, l = done ++ rest →
      Triple exec rely guar (I done b) (rest.foldlM f b) (I l) from hrest l [] b rfl
  intro rest
  induction rest with
  | nil =>
      intro done b hl
      rw [List.append_nil] at hl
      subst hl
      exact triple_pure (hstable l b) fun x hx => hx
  | cons a rest ih =>
      intro done b hl
      rw [List.foldlM_cons]
      refine (h done a rest b hl).bind hrefl fun b' => ih (done ++ [a]) b' ?_
      rw [hl, List.append_assoc, List.singleton_append]

end safe

end Prog

end SystemProgrammingLab.Found
