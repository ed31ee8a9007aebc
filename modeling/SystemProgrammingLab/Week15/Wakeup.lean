import SystemProgrammingLab.Week15.Fifo
import Mathlib.Algebra.BigOperators.Group.Finset.Piecewise
import Mathlib.Algebra.BigOperators.Fin
import Mathlib.Algebra.Order.BigOperators.Group.Finset
import Mathlib.Data.Fintype.BigOperators

/-!
# No wake-up is lost

A signal is not remembered, it wakes one sleeper at most, and a woken thread may find that another one
was faster. Still no thread sleeps while there is something for it to do and nobody on the way.

Three numbers are counted for each condition variable: the threads that sleep on it, those that were
woken by a signal and have not used it (`informed`), and those that have made room, or put an element,
and are about to signal (`announcing`). While somebody sleeps, what is available is at most the
informed and the announcing threads together (`Covered`): every call that makes something available
announces it, and every signal informs a sleeper.

Source: `week15/main.c`
-/

namespace SystemProgrammingLab.Week15

open SystemProgrammingLab.Found Finset

variable {ι : Type*} {capacity : Nat}

/-! ## Counting threads -/

/-- One if the thread sleeps on the variable. -/
def sleeping (v : Cond) (t : Thread) : Int := if t.sleepsOn = some v then 1 else 0

/-- One if the thread was woken by a signal of the variable and has not used it. -/
def informed (v : Cond) (t : Thread) : Int :=
  if t.signalled = true ∧ t.calls.head?.map Call.waitsOn = some v then 1 else 0

/-- One if the thread is about to signal the variable. -/
def announcing (v : Cond) (t : Thread) : Int :=
  if t.stage = .signal ∧ t.calls.head?.map Call.signals = some v then 1 else 0

/-- How often a call that waits on the variable can go through. -/
def Queue.available (q : Queue capacity) : Cond → Int
  | .notFull => capacity - q.length
  | .notEmpty => q.length

/-- The calls of the thread whose effect on the length is still to come. -/
def Thread.left (t : Thread) : List Call :=
  match t.stage with
  | .signal | .unlock => t.calls.tail
  | _ => t.calls

/-- The calls still to come that wait on the variable. -/
def due (v : Cond) (t : Thread) : Int := (t.left.countP fun c => c.waitsOn = v : Nat)

/-- To read or to write a cell does not change the length. -/
theorem Queue.access_length {q q' : Queue capacity} {d d' : Int} {c : Call}
    (h : q.access d c = some (q', d')) : q'.length = q.length := by
  cases c with
  | put v =>
      obtain ⟨cells, -, heq⟩ := Option.map_eq_some_iff.mp h
      cases heq
      rfl
  | get =>
      obtain ⟨v, -, heq⟩ := Option.map_eq_some_iff.mp h
      cases heq
      rfl

section total

variable [Fintype ι]

/-- The sum over the threads. -/
def State.total (s : State ι capacity) (f : Thread → Int) : Int := ∑ k, f (s.thread k)

/-- A sum of numbers that are not negative. -/
theorem State.total_nonneg (s : State ι capacity) {f : Thread → Int} (hf : ∀ t, 0 ≤ f t) :
    0 ≤ s.total f :=
  Finset.sum_nonneg fun k _ => hf (s.thread k)

/-- A thread that counts makes the sum positive. -/
theorem State.total_pos (s : State ι capacity) {f : Thread → Int} (hf : ∀ t, 0 ≤ f t) {k : ι}
    (hk : 0 < f (s.thread k)) : 0 < s.total f :=
  hk.trans_le (Finset.single_le_sum (fun j _ => hf (s.thread j)) (mem_univ k))

/-- A positive sum has a thread that counts. -/
theorem State.exists_of_total_pos (s : State ι capacity) {f : Thread → Int} (h : 0 < s.total f) :
    ∃ k, 0 < f (s.thread k) := by
  by_contra hnone
  have hle : s.total f ≤ 0 := Finset.sum_nonpos fun k _ => not_lt.mp fun hk => hnone ⟨k, hk⟩
  omega

/-- A step of one thread changes the sum by the difference it makes. -/
theorem State.total_set [DecidableEq ι] (s : State ι capacity) (f : Thread → Int) {k : ι}
    {t : Thread} (ht : s.thread k = t) (t' : Thread) :
    (s.set k t').total f = s.total f + (f t' - f t) := by
  have hcomp : (fun j => f (Function.update s.thread k t' j)) =
      Function.update (fun j => f (s.thread j)) k (f t') := Function.comp_update f s.thread k t'
  have hsum := Finset.sum_update_of_mem (mem_univ k) (fun j => f (s.thread j)) (f t')
  have hrest := Finset.sum_sdiff (Finset.subset_univ {k}) (f := fun j => f (s.thread j))
  rw [Finset.sum_singleton, ht] at hrest
  show ∑ j, f (Function.update s.thread k t' j) = (∑ j, f (s.thread j)) + (f t' - f t)
  rw [hcomp, hsum, ← hrest]
  omega

end total

/-- A thread that sleeps counts as one. -/
theorem sleeping_nonneg (v : Cond) (t : Thread) : 0 ≤ sleeping v t := by
  unfold sleeping
  split_ifs <;> omega

/-- A thread that was signalled counts as one. -/
theorem informed_nonneg (v : Cond) (t : Thread) : 0 ≤ informed v t := by
  unfold informed
  split_ifs <;> omega

/-- A thread that is about to signal counts as one. -/
theorem announcing_nonneg (v : Cond) (t : Thread) : 0 ≤ announcing v t := by
  unfold announcing
  split_ifs <;> omega

/-- The calls that are left are not negative. -/
theorem due_nonneg (v : Cond) (t : Thread) : 0 ≤ due v t := Int.natCast_nonneg _

/-! ## One step of one thread -/

/-- Where the flag `signalled` can be set, and that a thread with no call left is at the lock. -/
structure Thread.Ok (t : Thread) : Prop where
  asleep : t.stage = .asleep → t.signalled = false
  signal : t.stage = .signal ∨ t.stage = .unlock ∨ t.stage = .lock → t.signalled = false
  calls : t.stage ≠ .lock → t.calls ≠ []

/-- A thread starts in order. -/
theorem Thread.ok_start (calls : List Call) : (Thread.start calls).Ok :=
  ⟨fun _ => rfl, fun _ => rfl, fun h => absurd rfl h⟩

section step

variable [DecidableEq ι] {s s' : State ι capacity} {e : Event ι}

/-- A step sets the threads it is about to threads that are again as they should be. -/
theorem Step.ok (h : Step s e s') (hs : ∀ k, (s.thread k).Ok) : ∀ k, (s'.thread k).Ok := by
  have hset : ∀ {s : State ι capacity} {k : ι} {t : Thread}, (∀ j, (s.thread j).Ok) → t.Ok →
      ∀ j, ((s.set k t).thread j).Ok := by
    intro s k t hs ht j
    by_cases hj : j = k
    · subst hj
      simpa using ht
    · simpa [Function.update_of_ne hj] using hs j
  cases h with
  | @lock k c cs d sig ht howner =>
      refine hset hs ⟨?_, ?_, ?_⟩ <;> simp
  | @relock k c cs d sig ht howner =>
      refine hset hs ⟨?_, ?_, ?_⟩ <;> simp
  | @wait k c cs d sig ht hblocked =>
      refine hset hs ⟨?_, ?_, ?_⟩ <;> simp
  | @pass k c cs d sig ht hfree =>
      refine hset hs ⟨?_, ?_, ?_⟩ <;> simp
  | @access k c cs d d' sig q ht hq =>
      refine hset hs ⟨?_, ?_, ?_⟩ <;> simp
  | @advance k c cs d sig ht =>
      refine hset hs ⟨?_, ?_, ?_⟩ <;> simp
  | @count k c cs d sig ht =>
      refine hset hs ⟨?_, ?_, ?_⟩ <;> simp
  | @signal k j c c' cs cs' d d' sig sig' ht hj hcond =>
      have hsig : sig = false := by
        have hk := (hs k).signal
        rw [ht] at hk
        exact hk (.inl rfl)
      refine hset (hset hs ⟨?_, ?_, ?_⟩) ⟨?_, ?_, ?_⟩ <;> simp [hsig]
  | @signalNobody k c cs d sig ht hnobody =>
      have hsig : sig = false := by
        have hk := (hs k).signal
        rw [ht] at hk
        exact hk (.inl rfl)
      refine hset hs ⟨?_, ?_, ?_⟩ <;> simp [hsig]
  | @unlock k c cs d sig ht =>
      have hsig : sig = false := by
        have hk := (hs k).signal
        rw [ht] at hk
        exact hk (.inr (.inl rfl))
      refine hset hs ⟨?_, ?_, ?_⟩ <;> simp [hsig]
  | @spurious k c cs d sig ht =>
      refine hset hs ⟨?_, ?_, ?_⟩ <;> simp

end step

/-! ## What is available is covered -/

section covered

variable [Fintype ι]

/-- While a thread sleeps on the variable, what is available has been announced: by a thread that was
informed, or one that is about to inform somebody. -/
def Covered (s : State ι capacity) : Prop :=
  ∀ v, 0 < s.total (sleeping v) →
    s.queue.available v ≤ s.total (informed v) + s.total (announcing v)

/-- At the start nobody sleeps. -/
theorem covered_init (data : Fin capacity → Int) (calls : ι → List Call) :
    Covered (State.init data calls) := by
  intro v hsleep
  obtain ⟨k, hk⟩ := State.exists_of_total_pos _ hsleep
  simp [sleeping, State.init, Thread.start, Thread.sleepsOn] at hk

variable [DecidableEq ι] {s s' : State ι capacity} {e : Event ι}

/-- One thread does a step. For each variable nothing is available afterwards, or nobody new sleeps on
it and what has become available is announced. -/
theorem Covered.set (hs : Covered s) {k : ι} {t t' : Thread} (ht : s.thread k = t)
    (q : Queue capacity) (owner : Option ι)
    (h : ∀ v, q.available v ≤ 0 ∨ (sleeping v t' ≤ sleeping v t ∧
      q.available v - s.queue.available v ≤
        (informed v t' - informed v t) + (announcing v t' - announcing v t))) :
    Covered { s.set k t' with queue := q, owner := owner } := by
  intro v hsleep
  have hsleeping := s.total_set (sleeping v) ht t'
  have hinformed := s.total_set (informed v) ht t'
  have hannouncing := s.total_set (announcing v) ht t'
  have hsleep : 0 < (s.set k t').total (sleeping v) := hsleep
  show q.available v ≤ (s.set k t').total (informed v) + (s.set k t').total (announcing v)
  rcases h v with hnone | ⟨hle, havail⟩
  · have h₁ := (s.set k t').total_nonneg (informed_nonneg v)
    have h₂ := (s.set k t').total_nonneg (announcing_nonneg v)
    omega
  · have hold := hs v (by omega)
    omega

/-- A signal informs one of the sleepers. -/
theorem Covered.signal (hs : Covered s) {k j : ι} {c c' : Call} {cs cs' : List Call} {d d' : Int}
    {sig : Bool} (ht : s.thread k = ⟨c :: cs, .signal, d, sig⟩)
    (hj : s.thread j = ⟨c' :: cs', .asleep, d', false⟩) (hcond : c'.waitsOn = c.signals) :
    Covered ((s.set k ⟨c :: cs, .unlock, d, sig⟩).set j ⟨c' :: cs', .woken, d', true⟩) := by
  intro v hsleep
  have hjk : j ≠ k := by
    rintro rfl
    rw [ht] at hj
    cases hj
  have hj' : (s.set k ⟨c :: cs, .unlock, d, sig⟩).thread j = ⟨c' :: cs', .asleep, d', false⟩ := by
    rw [State.set_thread, Function.update_of_ne hjk, hj]
  have hsleeping := State.total_set _ (sleeping v) hj' ⟨c' :: cs', .woken, d', true⟩
  have hinformed := State.total_set _ (informed v) hj' ⟨c' :: cs', .woken, d', true⟩
  have hannouncing := State.total_set _ (announcing v) hj' ⟨c' :: cs', .woken, d', true⟩
  rw [s.total_set (sleeping v) ht] at hsleeping
  rw [s.total_set (informed v) ht] at hinformed
  rw [s.total_set (announcing v) ht] at hannouncing
  simp only [sleeping, informed, announcing, Thread.sleepsOn, List.head?_cons, Option.map_some,
    Option.some.injEq, hcond, reduceCtorEq, false_and, true_and, Bool.false_eq_true,
    ↓reduceIte] at hsleeping hinformed hannouncing
  show s.queue.available v ≤ _
  have hold := hs v
  split_ifs at hsleeping hinformed hannouncing <;> omega

/-- A signal without a sleeper: nobody sleeps on its variable, and the other ones are as before. -/
theorem Covered.signalNobody (hs : Covered s) {k : ι} {c : Call} {cs : List Call} {d : Int}
    {sig : Bool} (ht : s.thread k = ⟨c :: cs, .signal, d, sig⟩)
    (hnobody : ∀ j, (s.thread j).sleepsOn ≠ some c.signals) :
    Covered (s.set k ⟨c :: cs, .unlock, d, sig⟩) := by
  intro v hsleep
  by_cases hv : c.signals = v
  · subst hv
    obtain ⟨j, hj⟩ := State.exists_of_total_pos _ hsleep
    have hsleeps : ((s.set k ⟨c :: cs, .unlock, d, sig⟩).thread j).sleepsOn = some c.signals := by
      unfold sleeping at hj
      split_ifs at hj with hsleeps
      · exact hsleeps
      · cases hj
    exfalso
    by_cases hjk : j = k
    · subst hjk
      simp [Thread.sleepsOn] at hsleeps
    · rw [State.set_thread, Function.update_of_ne hjk] at hsleeps
      exact hnobody j hsleeps
  · have hold := hs v
    show s.queue.available v ≤ _
    rw [s.total_set _ ht] at hsleep ⊢
    rw [s.total_set _ ht]
    simp [sleeping, informed, announcing, Thread.sleepsOn, hv] at hsleep ⊢
    exact hold hsleep

/-- Every step keeps sleepers covered. -/
theorem Step.covered (h : Step s e s') (hok : ∀ k, (s.thread k).Ok) (hs : Covered s) :
    Covered s' := by
  cases h with
  | @lock k c cs d sig ht howner =>
      refine hs.set ht s.queue (some k) fun v => .inr ?_
      simp [sleeping, informed, announcing, Thread.sleepsOn]
  | @relock k c cs d sig ht howner =>
      refine hs.set ht s.queue (some k) fun v => .inr ?_
      simp [sleeping, informed, announcing, Thread.sleepsOn]
  | @wait k c cs d sig ht hblocked =>
      apply hs.set ht s.queue none
      intro v
      by_cases hv : c.waitsOn = v
      · -- nothing is available for the thread that goes to sleep
        subst hv
        left
        cases c <;> simp only [Queue.Blocked] at hblocked <;>
          simp [Call.waitsOn, Queue.available, hblocked]
      · right
        simp [sleeping, informed, announcing, Thread.sleepsOn, hv]
  | @pass k c cs d sig ht hfree =>
      refine hs.set ht s.queue s.owner fun v => .inr ?_
      simp [sleeping, informed, announcing, Thread.sleepsOn]
  | @access k c cs d d' sig q ht hq =>
      refine hs.set ht q s.owner fun v => .inr ?_
      have havail : q.available v = s.queue.available v := by
        unfold Queue.available
        rw [Queue.access_length hq]
      simp [sleeping, informed, announcing, Thread.sleepsOn, havail]
  | @advance k c cs d sig ht =>
      refine hs.set ht _ s.owner fun v => .inr ?_
      have havail : (s.queue.advance c).available v = s.queue.available v := by
        cases c <;> cases v <;> rfl
      simp [sleeping, informed, announcing, Thread.sleepsOn, havail]
  | @count k c cs d sig ht =>
      refine hs.set ht _ s.owner fun v => .inr ?_
      -- what the call makes available for the others it is about to announce
      cases c <;> cases v <;> cases sig <;>
        simp [sleeping, informed, announcing, Thread.sleepsOn, Queue.count, Queue.available,
          Call.waitsOn, Call.signals]
  | @signal k j c c' cs cs' d d' sig sig' ht hj hcond =>
      have hsig : sig' = false := by
        have hasleep := (hok j).asleep
        rw [hj] at hasleep
        exact hasleep rfl
      subst hsig
      exact hs.signal ht hj hcond
  | @signalNobody k c cs d sig ht hnobody =>
      exact hs.signalNobody ht hnobody
  | @unlock k c cs d sig ht =>
      have hsig : sig = false := by
        have hunlock := (hok k).signal
        rw [ht] at hunlock
        exact hunlock (.inr (.inl rfl))
      refine hs.set ht s.queue none fun v => .inr ?_
      simp [sleeping, informed, announcing, Thread.sleepsOn, hsig]
  | @spurious k c cs d sig ht =>
      refine hs.set ht s.queue s.owner fun v => .inr ?_
      simp only [sleeping, informed, announcing, Thread.sleepsOn]
      split_ifs <;> simp_all

/-! ## What is still to come -/

/-- The length of the queue is the number of gets still to come, less the number of puts. -/
def Balanced (s : State ι capacity) : Prop :=
  s.queue.length + s.total (due .notFull) = s.total (due .notEmpty)

/-- One thread does a step that changes the length by what it had to do. -/
theorem Balanced.set (hs : Balanced s) {k : ι} {t t' : Thread} (ht : s.thread k = t)
    (q : Queue capacity) (owner : Option ι)
    (h : q.length - s.queue.length + (due .notFull t' - due .notFull t) =
      due .notEmpty t' - due .notEmpty t) :
    Balanced { s.set k t' with queue := q, owner := owner } := by
  show q.length + (s.set k t').total (due .notFull) = (s.set k t').total (due .notEmpty)
  rw [s.total_set _ ht, s.total_set _ ht]
  unfold Balanced at hs
  omega

/-- Every step keeps the calls and the length in balance. -/
theorem Step.balanced (h : Step s e s') (hs : Balanced s) : Balanced s' := by
  cases h with
  | @lock k c cs d sig ht howner => exact hs.set ht s.queue (some k) (by simp [due, Thread.left])
  | @relock k c cs d sig ht howner => exact hs.set ht s.queue (some k) (by simp [due, Thread.left])
  | @wait k c cs d sig ht hblocked => exact hs.set ht s.queue none (by simp [due, Thread.left])
  | @pass k c cs d sig ht hfree => exact hs.set ht s.queue s.owner (by simp [due, Thread.left])
  | @access k c cs d d' sig q ht hq =>
      exact hs.set ht q s.owner (by simp [due, Thread.left, Queue.access_length hq])
  | @advance k c cs d sig ht =>
      apply hs.set ht _ s.owner
      cases c <;> simp [due, Thread.left, Queue.advance]
  | @count k c cs d sig ht =>
      apply hs.set ht _ s.owner
      cases c <;> simp [due, Thread.left, Queue.count, Call.waitsOn]
  | @signal k j c c' cs cs' d d' sig sig' ht hj hcond =>
      have hk : Balanced (s.set k ⟨c :: cs, .unlock, d, sig⟩) :=
        hs.set ht s.queue s.owner (by simp [due, Thread.left])
      have hjk : j ≠ k := by
        rintro rfl
        rw [ht] at hj
        cases hj
      refine hk.set (k := j) (t := ⟨c' :: cs', .asleep, d', sig'⟩) ?_ s.queue s.owner ?_
      · rw [State.set_thread, Function.update_of_ne hjk, hj]
      · simp [due, Thread.left]
  | @signalNobody k c cs d sig ht hnobody =>
      exact hs.set ht s.queue s.owner (by simp [due, Thread.left])
  | @unlock k c cs d sig ht => exact hs.set ht s.queue none (by simp [due, Thread.left])
  | @spurious k c cs d sig ht => exact hs.set ht s.queue s.owner (by simp [due, Thread.left])

end covered

/-! ## Producers and consumers -/

/-- A thread that runs `produce` or `consume`, with its number of rounds. -/
inductive Worker
  | producer (nLoops : Nat)
  | consumer (nLoops : Nat)

/-- The calls of the worker. -/
def Worker.calls : Worker → List Call
  | .producer n => produce n
  | .consumer n => consume n

/-- The variable that the worker waits on. -/
def Worker.waitsOn : Worker → Cond
  | .producer _ => .notFull
  | .consumer _ => .notEmpty

/-- How many elements the worker puts into the queue. -/
def Worker.puts : Worker → Nat
  | .producer n => n
  | .consumer _ => 0

/-- How many elements the worker takes from the queue. -/
def Worker.gets : Worker → Nat
  | .producer _ => 0
  | .consumer n => n

/-- All calls of a worker wait on one condition. -/
theorem Worker.waitsOn_of_mem {w : Worker} {c : Call} (h : c ∈ w.calls) : c.waitsOn = w.waitsOn := by
  cases w with
  | producer n =>
      obtain ⟨i, -, rfl⟩ := List.mem_map.mp h
      rfl
  | consumer n =>
      rw [List.eq_of_mem_replicate h]
      rfl

/-- The calls of a worker that are due at the start. -/
theorem Worker.due_start (w : Worker) :
    due .notFull (.start w.calls) = w.puts ∧ due .notEmpty (.start w.calls) = w.gets := by
  cases w with
  | producer n => constructor <;> simp [due, Thread.left, Thread.start, calls, produce, puts, gets,
      Call.waitsOn, List.countP_map, Function.comp_def]
  | consumer n => constructor <;> simp [due, Thread.left, Thread.start, calls, consume, puts, gets,
      Call.waitsOn, List.countP_replicate]

/-- A thread none of whose calls waits on the variable has nothing due on it. -/
theorem due_eq_zero {t : Thread} {v : Cond} (h : ∀ c ∈ t.calls, c.waitsOn ≠ v) : due v t = 0 := by
  have hleft : t.left ⊆ t.calls := by
    unfold Thread.left
    split
    · exact List.tail_subset _
    · exact List.tail_subset _
    · exact List.Subset.refl _
  have hcount : (t.left.countP fun c => c.waitsOn = v) = 0 := by
    rw [List.countP_eq_zero]
    intro c hc hv
    exact h c (hleft hc) (of_decide_eq_true hv)
  unfold due
  rw [hcount]
  rfl

/-- A thread makes its calls one after the other, and no others. -/
theorem Step.calls_subset [DecidableEq ι] {s s' : State ι capacity} {e : Event ι}
    (h : Step s e s') (k : ι) : (s'.thread k).calls ⊆ (s.thread k).calls := by
  have hset : ∀ {s : State ι capacity} {j : ι} {t t' : Thread}, s.thread j = t →
      t'.calls ⊆ t.calls → ((s.set j t').thread k).calls ⊆ (s.thread k).calls := by
    intro s j t t' ht hsub
    by_cases hk : k = j
    · subst hk
      simpa [ht] using hsub
    · simp [Function.update_of_ne hk]
  cases h with
  | lock ht | relock ht | wait ht | pass ht | access ht | advance ht | count ht
  | signalNobody ht | spurious ht => exact hset ht (List.Subset.refl _)
  | unlock ht => exact hset ht (List.subset_cons_self _ _)
  | @signal j i c c' cs cs' d d' sig sig' ht hi hcond =>
      have hij : i ≠ j := by
        rintro rfl
        rw [ht] at hi
        cases hi
      have hi' : (s.set j ⟨c :: cs, .unlock, d, sig⟩).thread i = ⟨c' :: cs', .asleep, d', sig'⟩ := by
        rw [State.set_thread, Function.update_of_ne hij, hi]
      exact List.Subset.trans (hset hi' (List.Subset.refl _)) (hset ht (List.Subset.refl _))

/-- The thread was woken by a signal of the variable, and competes for the lock. -/
def Thread.Competes (t : Thread) (v : Cond) : Prop :=
  t.stage = .woken ∧ t.signalled = true ∧ t.calls.head?.map Call.waitsOn = some v

section runs

variable [Fintype ι] {s : State ι capacity}

/-- What the development shows of every state: the lock, the flags of the threads, what is available,
and what is to come. -/
structure Reached (workers : ι → Worker) (s : State ι capacity) : Prop where
  locked : Locked s
  ok : ∀ k, (s.thread k).Ok
  covered : Covered s
  balanced : Balanced s
  waitsOn : ∀ k, ∀ c ∈ (s.thread k).calls, c.waitsOn = (workers k).waitsOn

/-- The invariant holds at the start. -/
theorem reached_init {workers : ι → Worker} (data : Fin capacity → Int)
    (hbalance : ∑ k, (workers k).puts = ∑ k, (workers k).gets) :
    Reached workers (State.init data fun k => (workers k).calls) where
  locked := locked_init data _
  ok := fun k => Thread.ok_start _
  covered := covered_init data _
  balanced := by
    show 0 + ∑ k, due .notFull (.start (workers k).calls) =
      ∑ k, due .notEmpty (.start (workers k).calls)
    simp only [Worker.due_start, zero_add]
    exact_mod_cast hbalance
  waitsOn := fun k c hc => Worker.waitsOn_of_mem hc

/-- Every step keeps it. -/
theorem Step.reached [DecidableEq ι] {workers : ι → Worker} {s' : State ι capacity} {e : Event ι} (h : Step s e s')
    (hs : Reached workers s) : Reached workers s' where
  locked := h.locked hs.locked
  ok := h.ok hs.ok
  covered := h.covered hs.ok hs.covered
  balanced := h.balanced hs.balanced
  waitsOn := fun k c hc => hs.waitsOn k c (h.calls_subset k hc)

/-- Nobody is about to signal when the lock is free. -/
theorem Reached.total_announcing {workers : ι → Worker} (hs : Reached workers s)
    (hfree : s.owner = none) (v : Cond) : s.total (announcing v) = 0 := by
  apply Finset.sum_eq_zero
  intro k _
  unfold announcing
  rw [if_neg]
  rintro ⟨hstage, -⟩
  have howner := (hs.locked k).mpr (by rw [hstage]; rfl)
  rw [hfree] at howner
  cases howner

/-- While a thread sleeps for which something is available, and the lock is free, a thread that was
signalled competes for it. -/
theorem Reached.exists_competes {workers : ι → Worker} (hs : Reached workers s) {k : ι} {v : Cond}
    (hsleeps : (s.thread k).sleepsOn = some v) (hfree : s.owner = none)
    (havail : 0 < s.queue.available v) : ∃ j, (s.thread j).Competes v := by
  have hsleep : 0 < s.total (sleeping v) :=
    s.total_pos (sleeping_nonneg v) (k := k) (by simp [sleeping, hsleeps])
  have hcovered := hs.covered v hsleep
  rw [hs.total_announcing hfree] at hcovered
  obtain ⟨j, hj⟩ := s.exists_of_total_pos (f := informed v) (by omega)
  unfold informed at hj
  split_ifs at hj with hinformed
  · refine ⟨j, ?_, hinformed⟩
    -- the stages at which the flag is set, outside of a critical section
    have hok := hs.ok j
    have hout := (hs.locked j).not.mp (by rw [hfree]; simp)
    cases hstage : (s.thread j).stage with
    | woken => rfl
    | asleep => simp [hok.asleep hstage] at hinformed
    | lock => simp [hok.signal (.inr (.inr hstage))] at hinformed
    | test | access | advance | count | signal | unlock => simp [hstage, Stage.inside] at hout
  · cases hj

/-- When all unfinished threads sleep, nothing is available for any of them. -/
theorem Reached.available_le {workers : ι → Worker} (hs : Reached workers s)
    (hall : ∀ k, ¬ (s.thread k).Finished → (s.thread k).stage = .asleep) {k : ι} {v : Cond}
    (hsleeps : (s.thread k).sleepsOn = some v) : s.queue.available v ≤ 0 := by
  have hsleep : 0 < s.total (sleeping v) :=
    s.total_pos (sleeping_nonneg v) (k := k) (by simp [sleeping, hsleeps])
  have hnone : ∀ f : Thread → Int, (∀ k, f (s.thread k) = 0) → s.total f = 0 := by
    intro f hf
    exact Finset.sum_eq_zero fun k _ => hf k
  have hinformed : s.total (informed v) = 0 := by
    apply hnone
    intro j
    unfold informed
    rw [if_neg]
    rintro ⟨hsig, hcall⟩
    by_cases hfin : (s.thread j).Finished
    · rw [Thread.Finished] at hfin
      simp [hfin] at hcall
    · simp [(hs.ok j).asleep (hall j hfin)] at hsig
  have hannouncing : s.total (announcing v) = 0 := by
    apply hnone
    intro j
    unfold announcing
    rw [if_neg]
    rintro ⟨hstage, hcall⟩
    by_cases hfin : (s.thread j).Finished
    · rw [Thread.Finished] at hfin
      simp [hfin] at hcall
    · rw [hall j hfin] at hstage
      cases hstage
  have hcovered := hs.covered v hsleep
  omega

/-- Not all unfinished threads sleep. -/
theorem Reached.not_all_asleep {workers : ι → Worker} (hs : Reached workers s) (hcap : 0 < capacity)
    (hsome : ∃ k, ¬ (s.thread k).Finished) :
    ¬ ∀ k, ¬ (s.thread k).Finished → (s.thread k).stage = .asleep := by
  intro hall
  obtain ⟨k, hk⟩ := hsome
  -- an unfinished thread sleeps on the variable of its worker
  have hsleeps : ∀ j, ¬ (s.thread j).Finished →
      (s.thread j).sleepsOn = some (workers j).waitsOn ∧ 0 < due (workers j).waitsOn (s.thread j) := by
    intro j hj
    obtain ⟨c, cs, hcalls⟩ := List.exists_cons_of_ne_nil hj
    have hc : c.waitsOn = (workers j).waitsOn := hs.waitsOn j c (by simp [hcalls])
    have hstage := hall j hj
    constructor
    · simp [Thread.sleepsOn, hstage, hcalls, hc]
    · simp [due, Thread.left, hstage, hcalls, hc]
  have hle := fun j hj => hs.available_le hall (hsleeps j hj).1
  have hdue : ∀ v, (∀ j, ¬ (s.thread j).Finished → (workers j).waitsOn ≠ v) → s.total (due v) = 0 := by
    intro v hv
    apply Finset.sum_eq_zero
    intro j _
    apply due_eq_zero
    intro c hc
    rw [hs.waitsOn j c hc]
    exact hv j (List.ne_nil_of_mem hc)
  have hpos : 0 < s.total (due (workers k).waitsOn) :=
    s.total_pos (due_nonneg _) (hsleeps k hk).2
  have hbalanced := hs.balanced
  have hlek := hle k hk
  unfold Balanced at hbalanced
  by_cases hmixed : ∃ j, ¬ (s.thread j).Finished ∧ (workers j).waitsOn ≠ (workers k).waitsOn
  · -- a producer and a consumer: the queue would be full and empty
    obtain ⟨j, hj, hne⟩ := hmixed
    have hlej := hle j hj
    cases hv : (workers k).waitsOn <;> cases hw : (workers j).waitsOn <;>
      simp only [hv, hw, Queue.available, ne_eq, not_true_eq_false] at hlek hlej hne <;> omega
  · -- only threads of one kind: the queue would hold what they wait for
    have hsame : ∀ j, ¬ (s.thread j).Finished → (workers j).waitsOn = (workers k).waitsOn :=
      fun j hj => not_not.mp fun hne => hmixed ⟨j, hj, hne⟩
    cases hv : (workers k).waitsOn with
    | notFull =>
        rw [hv] at hlek hpos hsame
        have hother := hdue .notEmpty fun j hj => by rw [hsame j hj]; decide
        simp only [Queue.available] at hlek
        omega
    | notEmpty =>
        rw [hv] at hlek hpos hsame
        have hother := hdue .notFull fun j hj => by rw [hsame j hj]; decide
        simp only [Queue.available] at hlek
        omega

/-- **No wake-up is lost.** When the workers put as many elements as they take, no reachable state has
unfinished threads that all sleep. And whenever a consumer sleeps while the queue is not empty, or a
producer while it is not full, and the lock is free, a thread of its kind that was signalled competes
for the lock. -/
theorem no_lost_wakeup [DecidableEq ι] {workers : ι → Worker} {data : Fin capacity → Int}
    {es : List (Event ι)} (hcap : 0 < capacity)
    (hbalance : ∑ k, (workers k).puts = ∑ k, (workers k).gets)
    (h : Run Step (State.init data fun k => (workers k).calls) es s) :
    ¬ ((∃ k, ¬ (s.thread k).Finished) ∧
        ∀ k, ¬ (s.thread k).Finished → (s.thread k).stage = .asleep) ∧
      (∀ k, (s.thread k).sleepsOn = some .notEmpty → s.owner = none → 0 < s.queue.length →
        ∃ j, (s.thread j).Competes .notEmpty) ∧
      (∀ k, (s.thread k).sleepsOn = some .notFull → s.owner = none → s.queue.length < capacity →
        ∃ j, (s.thread j).Competes .notFull) := by
  have hs : Reached workers s :=
    h.invariant (Reached workers) (fun _ _ _ hs hstep => hstep.reached hs)
      (reached_init data hbalance)
  refine ⟨fun ⟨hsome, hall⟩ => hs.not_all_asleep hcap hsome hall, ?_, ?_⟩
  · intro k hsleeps hfree hlen
    exact hs.exists_competes hsleeps hfree hlen
  · intro k hsleeps hfree hlen
    exact hs.exists_competes hsleeps hfree (v := .notFull) (by simp only [Queue.available]; omega)

end runs

/-- A producer and a consumer, each with one round, in the run in which the consumer falls asleep
first. -/
theorem no_lost_wakeup_handOver : ∃ s : State (Fin 2) 1,
    Run Step (State.init (fun _ => 7) fun k => (![Worker.producer 1, .consumer 1] k).calls) handOverEvents s ∧
      (¬ ((∃ k, ¬ (s.thread k).Finished) ∧
          ∀ k, ¬ (s.thread k).Finished → (s.thread k).stage = .asleep) ∧
        (∀ k, (s.thread k).sleepsOn = some .notEmpty → s.owner = none → 0 < s.queue.length →
          ∃ j, (s.thread j).Competes .notEmpty) ∧
        (∀ k, (s.thread k).sleepsOn = some .notFull → s.owner = none → s.queue.length < (1 : Nat) →
          ∃ j, (s.thread j).Competes .notFull)) := by
  obtain ⟨s, h, -⟩ := handOver_run
  have hcalls : (fun k => (![Worker.producer 1, .consumer 1] k).calls) = ![produce 1, consume 1] := by
    funext k
    match k with
    | 0 => rfl
    | 1 => rfl
  have hrun : Run Step (State.init (fun _ => 7)
      fun k => (![Worker.producer 1, .consumer 1] k).calls) handOverEvents s := by
    rw [hcalls]
    exact h
  exact ⟨s, hrun, no_lost_wakeup (by decide) (by decide) hrun⟩

end SystemProgrammingLab.Week15
