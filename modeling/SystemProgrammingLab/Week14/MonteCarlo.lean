import SystemProgrammingLab.Found.Threads
import Mathlib.Algebra.BigOperators.Fin
import Mathlib.Logic.Function.Iterate
import Mathlib.Tactic.Ring

/-!
# The points that the threads count

Each thread draws its points and counts those inside the circle under a mutex; `main` starts the threads,
waits for them one by one and prints four times the count over the number of points. No hit is lost and
none is counted twice, whatever the order of the statements (`estimates`): a thread relies on the others
not to touch the count while it has the mutex, and to leave the hits that it has added.

`random_r` and the test of a point, which is in floating point, are parameters; so is the division of the
two numbers that `main` prints.

Source: `week14/main.c`
-/

namespace SystemProgrammingLab.Week14

open SystemProgrammingLab.Found

/-! ## The threads -/

/-- `count`, and whether the mutex `m` is locked. Source: `count` and `m` -/
structure Shared where
  count : UInt64
  locked : Bool

/-- What a thread does at once. Source: `do_monte_carlo` -/
inductive Stmt
  | lock
  | unlock
  | readCount
  | writeCount (v : UInt64)
  deriving DecidableEq

/-- It is `none` where the thread has to wait. A statement that is no read gives 0. -/
def Stmt.exec : Stmt → Shared → Option (UInt64 × Shared)
  | .lock, s => if s.locked then none else some (0, { s with locked := true })
  | .unlock, s => some (0, { s with locked := false })
  | .readCount, s => some (s.count, s)
  | .writeCount v, s => some (0, { s with count := v })

/-- A piece of the code of a thread. -/
abbrev Code := Prog Stmt UInt64

section threads

variable {ρ : Type} (randomR : ρ → Int × ρ) (inside : Int → Int → Bool)

/-- `count++` under the mutex. Source: `do_monte_carlo` -/
def countUp : Code Unit := do
  let _ ← .stmt .lock
  let c ← .stmt .readCount
  let _ ← .stmt (.writeCount (c + 1))
  let _ ← .stmt .unlock
  return ()

/-- The loop, with as many points left. Source: `do_monte_carlo` -/
def doMonteCarlo : Nat → ρ → Code Unit
  | 0, _ => pure ()
  | points + 1, r => do
      let (x, r) := randomR r
      let (y, r) := randomR r
      if inside x y then countUp else pure ()
      doMonteCarlo points r

/-! ## The hits -/

/-- The number that the generator gives in round `i`. -/
def draw (r : ρ) (i : Nat) : Int := (randomR ((fun r => (randomR r).2)^[i] r)).1

/-- How many of the points are inside: the even draws are the `x`, the odd ones the `y`. -/
def hits (points : Nat) (r : ρ) : Nat :=
  (List.range points).countP fun i => inside (draw randomR r (2 * i)) (draw randomR r (2 * i + 1))

/-- Two numbers are drawn for a point. -/
theorem draw_add_two (r : ρ) (i : Nat) :
    draw randomR r (i + 2) = draw randomR (randomR (randomR r).2).2 i := by
  unfold draw
  rw [Function.iterate_add_apply]
  rfl

/-- The hits of a point and of those behind it. -/
theorem hits_succ (points : Nat) (r : ρ) :
    hits randomR inside (points + 1) r =
      (if inside (randomR r).1 (randomR (randomR r).2).1 then 1 else 0) +
        hits randomR inside points (randomR (randomR r).2).2 := by
  have htail : ((List.range points).map Nat.succ).countP (fun i =>
      inside (draw randomR r (2 * i)) (draw randomR r (2 * i + 1))) =
      hits randomR inside points (randomR (randomR r).2).2 := by
    rw [List.countP_map]
    refine List.countP_congr fun i _ => ?_
    have heven : 2 * (i + 1) = 2 * i + 2 := by ring
    have hodd : 2 * (i + 1) + 1 = 2 * i + 1 + 2 := by ring
    show inside (draw randomR r (2 * (i + 1))) (draw randomR r (2 * (i + 1) + 1)) = true ↔ _
    rw [hodd, heven, draw_add_two, draw_add_two]
  unfold hits at htail ⊢
  rw [List.range_succ_eq_map, List.countP_cons, htail, Nat.add_comm]
  rfl

/-! ## What the threads rely on -/

variable {n : Nat}

/-- Who has the mutex, and how many hits each thread has added. -/
structure Ghost (n : Nat) where
  holder : Option (Fin n)
  added : Fin n → Nat

/-- The shared state with the ghost. -/
abbrev View (n : Nat) := Shared × Ghost n

/-- The count is what the threads have added. -/
structure Inv (x : View n) : Prop where
  locked : x.1.locked = x.2.holder.isSome
  count : x.1.count = UInt64.ofNat (∑ k, x.2.added k)

/-- What the other threads leave to thread `k`: its hits, the mutex, and the count when it has this. -/
structure Rely (k : Fin n) (x y : View n) : Prop where
  inv : Inv x → Inv y
  added : y.2.added k = x.2.added k
  holder : y.2.holder = some k ↔ x.2.holder = some k
  count : x.2.holder = some k → y.1.count = x.1.count

/-- What thread `k` leaves to the others. -/
def Guar (k : Fin n) (x y : View n) : Prop := (Inv x → Inv y) ∧ ∀ j, j ≠ k → Rely j x y

/-- Nothing may happen. -/
theorem Rely.refl (k : Fin n) (x : View n) : Rely k x x := ⟨id, rfl, Iff.rfl, fun _ => rfl⟩

/-- What the others do may be done in several steps. -/
theorem Rely.trans (k : Fin n) (x y z : View n) (h : Rely k x y) (h' : Rely k y z) : Rely k x z where
  inv := h'.inv ∘ h.inv
  added := h'.added.trans h.added
  holder := h'.holder.trans h.holder
  count := fun hx => (h'.count (h.holder.mpr hx)).trans (h.count hx)

/-- The thread is outside of the mutex and has added `m` hits. -/
structure Outside (k : Fin n) (m : Nat) (x : View n) : Prop where
  inv : Inv x
  holder : x.2.holder ≠ some k
  added : x.2.added k = m

/-- The thread has the mutex and has added `m` hits. -/
structure Inside (k : Fin n) (m : Nat) (x : View n) : Prop where
  inv : Inv x
  holder : x.2.holder = some k
  added : x.2.added k = m

variable {k : Fin n} {m : Nat}

/-- A thread that is outside of the lock stays there. -/
theorem Outside.stable : Prog.Stable (Rely k) (Outside k m) := fun _ _ hx h =>
  ⟨h.inv hx.inv, fun hy => hx.holder (h.holder.mp hy), h.added.trans hx.added⟩

/-- A thread that has the lock keeps it. -/
theorem Inside.stable : Prog.Stable (Rely k) (Inside k m) := fun _ _ hx h =>
  ⟨h.inv hx.inv, h.holder.mpr hx.holder, h.added.trans hx.added⟩

/-- The count that the thread has read is still the count. -/
theorem Inside.stable_count (c : UInt64) :
    Prog.Stable (Rely k) fun x => Inside k m x ∧ x.1.count = c :=
  fun x y ⟨hx, hc⟩ h => ⟨Inside.stable x y hx h, (h.count hx.holder).trans hc⟩

/-- Only the holder of the mutex has a step that the others do not see. -/
theorem guar_of {x y : View n} (hinv : Inv x → Inv y) (hadded : ∀ j, j ≠ k → y.2.added j = x.2.added j)
    (hholder : ∀ j, j ≠ k → x.2.holder ≠ some j) (hholder' : ∀ j, j ≠ k → y.2.holder ≠ some j) :
    Guar k x y := by
  refine ⟨hinv, fun j hj => ⟨hinv, hadded j hj, ?_, fun hx => absurd hx (hholder j hj)⟩⟩
  exact ⟨fun hy => absurd hy (hholder' j hj), fun hx => absurd hx (hholder j hj)⟩

/-- No other thread has it. -/
theorem Inside.holder_ne {x : View n} (h : Inside k m x) : ∀ j, j ≠ k → x.2.holder ≠ some j := by
  intro j hj hx
  rw [h.holder] at hx
  exact hj (Option.some.inj hx).symm

/-- What a thread does at a point that is inside. -/
theorem spec_countUp :
    Prog.Triple Stmt.exec (Rely k) (Guar k) (Outside k m) countUp fun _ => Outside k (m + 1) := by
  refine Prog.triple_stmt Outside.stable (fun _ => Inside k m) ?_ fun _ => ?_
  · -- `pthread_mutex_lock`
    rintro ⟨s, g⟩ v s' hx hexec
    simp only [Stmt.exec] at hexec
    split_ifs at hexec with hlocked
    cases hexec
    have hnone : g.holder = none := by
      have hg := hx.inv.locked
      rw [Bool.not_eq_true] at hlocked
      simp only [hlocked] at hg
      exact Option.isSome_eq_false_iff.mp hg.symm |> Option.isNone_iff_eq_none.mp
    have hinv : Inv (({ s with locked := true } : Shared), ({ g with holder := some k } : Ghost n)) :=
      ⟨rfl, hx.inv.count⟩
    refine ⟨{ g with holder := some k }, guar_of (fun _ => hinv) (fun _ _ => rfl) ?_ ?_,
      hinv, rfl, hx.added⟩
    · intro j _ hj
      rw [show g.holder = some j from hj] at hnone
      cases hnone
    · intro j hj heq
      exact hj (Option.some.inj heq).symm
  refine Prog.triple_stmt Inside.stable (fun c x => Inside k m x ∧ x.1.count = c) ?_ fun c => ?_
  · rintro ⟨s, g⟩ v s' hx hexec
    cases hexec
    exact ⟨g, guar_of id (fun _ _ => rfl) hx.holder_ne hx.holder_ne, hx, rfl⟩
  refine Prog.triple_stmt (Inside.stable_count c) (fun _ => Inside k (m + 1)) ?_ fun _ => ?_
  · -- the hit is added when the count is written
    rintro ⟨s, g⟩ v s' ⟨hx, hc⟩ hexec
    cases hexec
    have hc : s.count = c := hc
    have hself : Function.update g.added k (m + 1) k = m + 1 := Function.update_self ..
    have hsum : ∑ j, Function.update g.added k (m + 1) j = ∑ j, g.added j + 1 := by
      have hadded : g.added k = m := hx.added
      rw [Finset.sum_update_of_mem (Finset.mem_univ k), ← Finset.add_sum_erase _ _ (Finset.mem_univ k),
        Finset.sdiff_singleton_eq_erase, hadded]
      ring
    have hinv : Inv (({ s with count := c + 1 } : Shared),
        ({ g with added := Function.update g.added k (m + 1) } : Ghost n)) := by
      refine ⟨hx.inv.locked, ?_⟩
      show c + 1 = UInt64.ofNat (∑ j, Function.update g.added k (m + 1) j)
      rw [hsum, UInt64.ofNat_add, ← hc, hx.inv.count]
      rfl
    refine ⟨_, guar_of (fun _ => hinv) ?_ hx.holder_ne hx.holder_ne, hinv, hx.holder, hself⟩
    exact fun j hj => Function.update_of_ne hj _ _
  refine Prog.triple_stmt Inside.stable (fun _ => Outside k (m + 1)) ?_ fun _ =>
    Prog.triple_pure Outside.stable fun x hx => hx
  rintro ⟨s, g⟩ v s' hx hexec
  cases hexec
  have hinv : Inv (({ s with locked := false } : Shared), ({ g with holder := none } : Ghost n)) :=
    ⟨rfl, hx.inv.count⟩
  exact ⟨_, guar_of (fun _ => hinv) (fun _ _ => rfl) hx.holder_ne fun _ _ => nofun, hinv, nofun, hx.added⟩

/-- A thread adds its hits. -/
theorem spec_doMonteCarlo (points : Nat) (r : ρ) (m : Nat) :
    Prog.Triple Stmt.exec (Rely k) (Guar k) (Outside k m) (doMonteCarlo randomR inside points r)
      fun _ => Outside k (m + hits randomR inside points r) := by
  induction points generalizing r m with
  | zero => exact Prog.triple_pure Outside.stable fun x hx => hx
  | succ points ih =>
      rw [hits_succ]
      refine Prog.Triple.ite (fun hhit => ?_) fun hmiss => ?_
      · rw [if_pos hhit, ← Nat.add_assoc]
        exact spec_countUp.bind (Rely.refl k) fun _ => ih _ (m + 1)
      · rw [if_neg hmiss, Nat.zero_add]
        exact ih _ m

/-! ## The mutex -/

/-- What the statement does with the mutex. -/
def Stmt.use : Stmt → LockUse Unit
  | .lock => .acquire ()
  | .unlock => .release ()
  | .readCount | .writeCount _ => .other

/-- The count is read and written under the mutex. -/
def Stmt.Allowed (held : Option Unit) : Stmt → Prop
  | .lock | .unlock => True
  | .readCount | .writeCount _ => held = some ()

/-- The mutex is the lock of the discipline. -/
theorem mutexes : Threads.Mutexes Stmt.exec Stmt.use Stmt.Allowed fun s _ => s.locked = true where
  acquire := by
    intro a s v s' i hexec huse
    cases a <;> simp only [Stmt.use, reduceCtorEq] at huse
    simp only [Stmt.exec] at hexec
    split_ifs at hexec with hlocked
    cases hexec
    exact ⟨hlocked, fun _ => ⟨fun _ => .inr rfl, fun _ => rfl⟩⟩
  release := by
    intro a s v s' i hexec huse
    cases a <;> simp only [Stmt.use, reduceCtorEq] at huse
    cases hexec
    exact fun _ => ⟨nofun, fun h => absurd rfl h.2⟩
  other := by
    intro a s v s' hexec huse
    cases a <;> simp only [Stmt.use, reduceCtorEq] at huse <;> cases hexec <;> exact fun _ => Iff.rfl
  enabled := by
    intro held a s _ hfree
    cases a with
    | lock =>
        have hopen : ¬ s.locked = true := hfree () rfl
        exact ⟨_, _, if_neg hopen⟩
    | _ => exact ⟨_, _, rfl⟩

/-- An increment takes the lock and gives it back. -/
theorem locks_countUp : countUp.Locks Stmt.use Stmt.Allowed none none := by
  refine (Prog.locks_stmt (a := Stmt.lock) (.acquire ()) trivial).bind fun _ => ?_
  refine (Prog.locks_stmt (a := Stmt.readCount) (.other _) rfl).bind fun c => ?_
  refine (Prog.locks_stmt (a := Stmt.writeCount (c + 1)) (.other _) rfl).bind fun _ => ?_
  exact (Prog.locks_stmt (a := Stmt.unlock) (.release ()) trivial).bind fun _ => Prog.locks_pure _

/-- So does the whole thread. -/
theorem locks_doMonteCarlo (points : Nat) (r : ρ) :
    (doMonteCarlo randomR inside points r).Locks Stmt.use Stmt.Allowed none none := by
  induction points generalizing r with
  | zero => exact Prog.locks_pure _
  | succ points ih => exact .ite (fun _ => locks_countUp.bind fun _ => ih _) fun _ => ih _

/-- An increment has four statements. -/
theorem within_countUp : countUp.Within 4 :=
  .stmt fun _ => .stmt fun _ => .stmt fun _ => .stmt fun _ => Prog.within_pure 0 _

/-- A thread has at most four statements a point. -/
theorem within_doMonteCarlo (points : Nat) (r : ρ) :
    (doMonteCarlo randomR inside points r).Within (4 * points) := by
  induction points generalizing r with
  | zero => exact Prog.within_pure _ _
  | succ points ih =>
      rw [Nat.mul_succ, Nat.add_comm]
      exact .ite (within_countUp.bind fun _ => ih _) ((ih _).mono (Nat.le_add_left _ _))

/-! ## The program -/

/-- How many threads `main` has created and joined, what it has printed, and the threads. -/
structure State (n : Nat) where
  created : Nat
  joined : Nat
  printed : Option (UInt64 × UInt64)
  threads : Threads (Fin n) Stmt UInt64 Unit Shared

/-- What happens: `main` creates or joins its next thread or prints, or a thread does a statement. -/
inductive Event (n : Nat)
  | create
  | stmt (k : Fin n) (a : Stmt)
  | join
  | print

/-- Before the first `pthread_create`. The generators are those of `initstate_r`. Source: `main` -/
def init (points : UInt64) (seed : Fin n → ρ) : State n :=
  ⟨0, 0, none, ⟨0, false⟩, fun k => doMonteCarlo randomR inside points.toNat (seed k)⟩

/-- One step of `main` or of a thread that was created. Source: `main`, `do_monte_carlo` -/
inductive Step (points : UInt64) : State n → Event n → State n → Prop
  | create {s : State n} (h : s.created < n) :
      Step points s .create { s with created := s.created + 1 }
  | stmt {s : State n} {k : Fin n} {a : Stmt} {t : Threads (Fin n) Stmt UInt64 Unit Shared}
      (hk : k < s.created) (hstep : Threads.Step Stmt.exec s.threads (k, a) t) :
      Step points s (.stmt k a) { s with threads := t }
  | join {s : State n} (hcreated : s.created = n) (h : s.joined < n) (hended : s.threads.Ended ⟨_, h⟩) :
      Step points s .join { s with joined := s.joined + 1 }
  | print {s : State n} (hcreated : s.created = n) (hjoined : s.joined = n) (hprinted : s.printed = none) :
      Step points s .print { s with
        printed := some (4 * s.threads.shared.count, UInt64.ofNat n * points) }

/-- The two numbers that `main` divides: four times the hits of all threads, and the points. Source: `main` -/
def estimate (points : UInt64) (seed : Fin n → ρ) : UInt64 × UInt64 :=
  (4 * UInt64.ofNat (∑ k, hits randomR inside points.toNat (seed k)), UInt64.ofNat n * points)

/-- What every run keeps. -/
structure Sound (points : UInt64) (seed : Fin n → ρ) (s : State n) : Prop where
  created_le : s.created ≤ n
  joined_le : s.joined ≤ n
  ended : ∀ k : Fin n, k < s.joined → s.threads.Ended k
  within : ∀ k, (s.threads.left k).Within (4 * points.toNat)
  disciplined : ∃ held, s.threads.Disciplined Stmt.use Stmt.Allowed (fun s _ => s.locked = true) held
  safe : ∃ g, Inv (s.threads.shared, g) ∧ ∀ k, (s.threads.left k).Safe Stmt.exec (Rely k) (Guar k)
    (fun _ => Outside k (hits randomR inside points.toNat (seed k))) (s.threads.shared, g)
  printed : ∀ v ∈ s.printed, s.joined = n ∧ v = estimate randomR inside points seed

variable {randomR inside} {points : UInt64} {seed : Fin n → ρ} {s s' : State n} {e : Event n}

/-- The invariant holds at the start. -/
theorem sound_init : Sound randomR inside points seed (init randomR inside points seed) where
  created_le := Nat.zero_le n
  joined_le := Nat.zero_le n
  ended := fun k hk => absurd hk (Nat.not_lt_zero _)
  within := fun k => within_doMonteCarlo randomR inside _ (seed k)
  disciplined := ⟨_, Threads.disciplined_init (fun _ => nofun)
    fun k => locks_doMonteCarlo randomR inside _ (seed k)⟩
  safe := by
    have hinv : Inv ((⟨0, false⟩ : Shared), (⟨none, fun _ => 0⟩ : Ghost n)) := by
      refine ⟨rfl, ?_⟩
      simp
    refine ⟨⟨none, fun _ => 0⟩, hinv, fun k => ?_⟩
    have hspec := spec_doMonteCarlo randomR inside (k := k) points.toNat (seed k) 0
    rw [Nat.zero_add] at hspec
    exact hspec _ ⟨hinv, nofun, rfl⟩
  printed := fun _ => nofun

/-- When all threads have ended, the count is the number of all hits. -/
theorem Sound.count (h : Sound randomR inside points seed s) (hended : ∀ k, s.threads.Ended k) :
    s.threads.shared.count = UInt64.ofNat (∑ k, hits randomR inside points.toNat (seed k)) := by
  obtain ⟨g, hinv, hsafe⟩ := h.safe
  have hadded : ∀ k, g.added k = hits randomR inside points.toNat (seed k) := by
    intro k
    obtain ⟨a, ha⟩ := hended k
    have hk := hsafe k
    rw [ha] at hk
    exact (hk.ret (Rely.refl k)).added
  rw [hinv.count]
  exact congrArg _ (Finset.sum_congr rfl fun k _ => hadded k)

/-- A thread that has ended stays so. -/
theorem ended_of_step {t t' : Threads (Fin n) Stmt UInt64 Unit Shared} {e : Fin n × Stmt}
    (h : Threads.Step Stmt.exec t e t') {k : Fin n} (hk : t.Ended k) : t'.Ended k := by
  cases h with
  | @stmt j a next v s hj hexec =>
      have hne : k ≠ j := by
        rintro rfl
        obtain ⟨b, hb⟩ := hk
        rw [hj] at hb
        cases hb
      obtain ⟨b, hb⟩ := hk
      exact ⟨b, (Threads.set_left_of_ne t hne _ _).trans hb⟩

/-- Every step keeps the invariant. -/
theorem Sound.step (h : Sound randomR inside points seed s) (hstep : Step points s e s') :
    Sound randomR inside points seed s' := by
  cases hstep with
  | create hlt => exact { h with created_le := hlt }
  | stmt hk hstep =>
      obtain ⟨held, hdisciplined⟩ := h.disciplined
      obtain ⟨g, hinv, hsafe⟩ := h.safe
      exact { h with
        ended := fun k hk => ended_of_step hstep (h.ended k hk)
        within := (hstep.work_lt h.within).1
        disciplined := hdisciplined.step mutexes hstep
        safe := hstep.parallel Rely.refl Rely.trans (fun j k _ _ hj hguar => hguar.2 j hj)
          (fun _ _ _ hinv hguar => hguar.1 hinv) hinv hsafe }
  | join hcreated hlt hended =>
      refine { h with joined_le := hlt, ended := ?_, printed := ?_ }
      · intro k hk
        rcases Nat.lt_succ_iff_lt_or_eq.mp hk with hk | hk
        · exact h.ended k hk
        · rwa [show k = ⟨s.joined, hlt⟩ from Fin.ext hk]
      · intro v hv
        have hjoined := (h.printed v hv).1
        omega
  | print hcreated hjoined hprinted =>
      refine { h with printed := ?_ }
      rintro v ⟨⟩
      refine ⟨hjoined, ?_⟩
      rw [h.count fun k => h.ended k (k.isLt.trans_eq hjoined.symm)]
      rfl

/-- The steps that are left. -/
noncomputable def State.work (s : State n) : Nat :=
  s.threads.work + (n - s.created) + (n - s.joined) + if s.printed = none then 1 else 0

/-- Every step does some of the work. -/
theorem Sound.work_lt (h : Sound randomR inside points seed s) (hstep : Step points s e s') :
    s'.work + 1 ≤ s.work := by
  unfold State.work
  cases hstep with
  | create hlt =>
      simp only
      omega
  | stmt hk hstep =>
      have hlt := (hstep.work_lt h.within).2
      simp only
      omega
  | join hcreated hlt hended =>
      simp only
      omega
  | print hcreated hjoined hprinted =>
      simp only [hprinted, reduceCtorEq, if_true, if_false]
      omega

/-- When nothing can go on, the estimate is printed and the mutex is free. -/
theorem Sound.final (h : Sound randomR inside points seed s) (hfinal : Final (Step points) s) :
    s.printed = some (estimate randomR inside points seed) ∧ s.threads.shared.locked = false := by
  obtain ⟨held, hdisciplined⟩ := h.disciplined
  have hcreated : s.created = n := by
    by_contra hne
    exact hfinal _ _ (.create (Nat.lt_of_le_of_ne h.created_le hne))
  have hjoined : s.joined = n := by
    by_contra hne
    have hlt := Nat.lt_of_le_of_ne h.joined_le hne
    by_cases hended : s.threads.Ended ⟨_, hlt⟩
    · exact hfinal _ _ (.join hcreated hlt hended)
    · obtain ⟨e, t, hstep⟩ := hdisciplined.exists_step mutexes hended
      exact hfinal _ _ (.stmt (e.1.isLt.trans_eq hcreated.symm) hstep)
  have hended : ∀ k, s.threads.Ended k := fun k => h.ended k (k.isLt.trans_eq hjoined.symm)
  constructor
  · rcases hprinted : s.printed with _ | v
    · exact absurd (.print hcreated hjoined hprinted) (hfinal _ _)
    · rw [(h.printed v hprinted).2]
  · exact Bool.eq_false_iff.mpr (hdisciplined.free hended ())

/-- **The count is exact.** In whatever order the threads do their statements, the program comes to its
end after a bounded number of steps, and then it has printed four times the hits of all threads, with the
arithmetic of `size_t`, and the number of points; it prints nothing else before, and the mutex is free at
the end. -/
theorem estimates {es : List (Event n)} (h : Run (Step points) (init randomR inside points seed) es s) :
    es.length ≤ 4 * n * points.toNat + 2 * n + 1 ∧
      (∃ es' s', Run (Step points) s es' s' ∧ Final (Step points) s') ∧
      (∀ v ∈ s.printed, v = estimate randomR inside points seed) ∧
      (Final (Step points) s →
        s.printed = some (estimate randomR inside points seed) ∧ s.threads.shared.locked = false) := by
  have hdrop : ∀ s e s', Sound randomR inside points seed s → Step points s e s' →
      Sound randomR inside points seed s' ∧ s'.work + 1 ≤ s.work :=
    fun s e s' hs hstep => ⟨hs.step hstep, hs.work_lt hstep⟩
  have hs := h.invariant (Sound randomR inside points seed) (fun _ _ _ hs hstep => hs.step hstep) sound_init
  refine ⟨?_, exists_final _ State.work hdrop hs, fun v hv => (hs.printed v hv).2, hs.final⟩
  have hlen := h.length_le _ State.work hdrop sound_init
  have hwork : (init randomR inside points seed).work ≤ 4 * n * points.toNat + 2 * n + 1 := by
    have hle := Threads.work_le (t := (init randomR inside points seed).threads)
      fun k => within_doMonteCarlo randomR inside points.toNat (seed k)
    rw [Finset.sum_const, Finset.card_univ, Fintype.card_fin, smul_eq_mul] at hle
    have hmul : n * (4 * points.toNat) = 4 * n * points.toNat := by ring
    have hinit : (init randomR inside points seed).work =
        (init randomR inside points seed).threads.work + n + n + 1 := rfl
    omega
  exact hlen.trans hwork

/-! ## Runs that are computed -/

/-- Who does the next step. -/
inductive Input (n : Nat)
  | create
  | turn (k : Fin n)
  | join
  | print

/-- The step function. -/
def step (points : UInt64) (s : State n) : Input n → Option (State n × Event n)
  | .create => if s.created < n then some ({ s with created := s.created + 1 }, .create) else none
  | .turn k =>
      if k < s.created then
        (s.threads.step Stmt.exec k).map fun p => ({ s with threads := p.2 }, .stmt k p.1)
      else none
  | .join =>
      if h : s.joined < n then
        if s.created = n ∧ s.threads.Ended ⟨_, h⟩ then some ({ s with joined := s.joined + 1 }, .join)
        else none
      else none
  | .print =>
      if s.created = n ∧ s.joined = n ∧ s.printed = none then
        some ({ s with printed := some (4 * s.threads.shared.count, UInt64.ofNat n * points) }, .print)
      else none

/-- The executable step does steps. -/
theorem step_sound (s : State n) (a : Input n) (s' : State n) (e : Event n)
    (h : step points s a = some (s', e)) : Step points s e s' := by
  cases a with
  | create =>
      simp only [step] at h
      split_ifs at h with hlt
      cases h
      exact .create hlt
  | turn k =>
      simp only [step] at h
      split_ifs at h with hk
      obtain ⟨⟨a, t⟩, hstep, heq⟩ := Option.map_eq_some_iff.mp h
      cases heq
      exact .stmt hk (Threads.step_sound hstep)
  | join =>
      simp only [step] at h
      split_ifs at h with hlt hended
      cases h
      exact .join hended.1 hlt hended.2
  | print =>
      simp only [step] at h
      split_ifs at h with hall
      cases h
      exact .print hall.1 hall.2.1 hall.2.2

/-- The generators of the seeds 0, 1 and 2 as far as they are used: the numbers that are still to come. -/
def seedDraws : Fin 3 → List Int :=
  ![[964237963, 406111040], [964237963, 406111040], [1928481710, 1885970762]]

/-- `random_r` on these. -/
def nextDraw (l : List Int) : Int × List Int := (l.headD 0, l.tail)

/-- The test of a point, before it is rounded. -/
def inCircle (x y : Int) : Bool := x * x + y * y ≤ 2147483647 * 2147483647

/-- Two threads count their hits in turns; the third one has none. -/
theorem estimates_threeThreads : ∃ (s : State 3) (es : List (Event 3)),
    Run (Step 1) (init nextDraw inCircle 1 seedDraws) es s ∧ s.printed = some (8, 3) ∧
      es.length ≤ 4 * 3 * (1 : UInt64).toNat + 2 * 3 + 1 ∧
      (∃ es' s', Run (Step 1) s es' s' ∧ Final (Step 1) s') ∧
      (∀ v ∈ s.printed, v = estimate nextDraw inCircle 1 seedDraws) ∧
      (Final (Step 1) s →
        s.printed = some (estimate nextDraw inCircle 1 seedDraws) ∧ s.threads.shared.locked = false) := by
  have h : ((exec (step 1) (init nextDraw inCircle 1 seedDraws) [.create, .create, .turn 1, .create, .turn 1,
      .turn 1, .turn 1, .turn 0, .turn 0, .turn 0, .turn 0, .join, .join, .join, .print]).map
      fun p => p.1.printed) = some (some (8, 3)) := by
    decide +kernel
  obtain ⟨⟨s, es⟩, hexec, hprinted⟩ := Option.map_eq_some_iff.mp h
  have hrun := exec_run step_sound _ hexec
  exact ⟨s, es, hrun, hprinted, estimates hrun⟩

end threads

end SystemProgrammingLab.Week14
