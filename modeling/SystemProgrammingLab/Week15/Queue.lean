import SystemProgrammingLab.Found.CArray
import SystemProgrammingLab.Found.Run
import Mathlib.Data.Fin.VecNotation
import Mathlib.Data.Fintype.Basic

/-!
# The bounded queue and the threads that use it

The circular queue of `put_data` and `get_data` under its lock and its two condition variables. A step
is one statement of one thread: taking the lock, the test of the `while` loop, each assignment to the
queue, the signal, releasing the lock. `pthread_cond_wait` releases the lock and puts the thread to
sleep in one step; `pthread_cond_signal` wakes one of the threads that sleep on the variable, if there
is one; a thread may also wake up by itself. A woken thread competes for the lock with all the others.

The two functions are the same program over a direction (`Call`): they differ in the index they use,
in what they do to the cell, and in the variables they wait on and signal.

Source: `week15/main.c`
-/

namespace SystemProgrammingLab.Week15

open SystemProgrammingLab.Found

/-! ## The queue -/

/-- The fields of the queue that the lock protects. The fields `lock`, `not_full` and `not_empty` are
in `State` and in the stages of the threads. Source: `queue_t` -/
structure Queue (capacity : Nat) where
  /-- rear -/
  putIndex : Int
  /-- front -/
  getIndex : Int
  /-- size -/
  length : Int
  data : Fin capacity → Int

/-- `malloc` leaves the cells as they are. Source: `qinit` -/
def qinit {capacity : Nat} (data : Fin capacity → Int) : Queue capacity := ⟨0, 0, 0, data⟩

/-- The condition variables of the queue. Source: `queue_t` -/
inductive Cond
  | notFull
  | notEmpty
  deriving DecidableEq

/-- A call of `put_data` with its argument, or of `get_data`. Source: `put_data`, `get_data` -/
inductive Call
  | put (data : Int)
  | get
  deriving DecidableEq

/-- The variable that the call waits on. Source: `put_data`, `get_data` -/
def Call.waitsOn : Call → Cond
  | .put _ => .notFull
  | .get => .notEmpty

/-- The variable that the call signals. Source: `put_data`, `get_data` -/
def Call.signals : Call → Cond
  | .put _ => .notEmpty
  | .get => .notFull

section statements

variable {capacity : Nat}

/-- The condition of the `while` loop. Source: `put_data`, `get_data` -/
def Queue.Blocked (q : Queue capacity) : Call → Prop
  | .put _ => q.length = capacity
  | .get => q.length = 0

instance (q : Queue capacity) : (c : Call) → Decidable (q.Blocked c)
  | .put _ => inferInstanceAs (Decidable (_ = _))
  | .get => inferInstanceAs (Decidable (_ = _))

/-- `data[put_index] = data` or `data = data[get_index]`; `data` is the local variable of `get_data`. Source:
`put_data`, `get_data` -/
def Queue.access (q : Queue capacity) (data : Int) : Call → Option (Queue capacity × Int)
  | .put v => (wr q.data q.putIndex v).map fun cells => ({ q with data := cells }, data)
  | .get => (rd q.data q.getIndex).map fun v => (q, v)

/-- `put_index = (put_index + 1) % capacity`, or the same for `get_index`. Source: `put_data`, `get_data` -/
def Queue.advance (q : Queue capacity) : Call → Queue capacity
  | .put _ => { q with putIndex := (q.putIndex + 1).tmod capacity }
  | .get => { q with getIndex := (q.getIndex + 1).tmod capacity }

/-- `length++` or `length--`. Source: `put_data`, `get_data` -/
def Queue.count (q : Queue capacity) : Call → Queue capacity
  | .put _ => { q with length := q.length + 1 }
  | .get => { q with length := q.length - 1 }

end statements

/-! ## The threads -/

/-- Where a thread is: at `pthread_mutex_lock`, at the test of the loop, in the wait set of `pthread_cond_wait`,
on its way out of it, at one of the statements behind the loop. Source: `put_data`, `get_data` -/
inductive Stage
  | lock
  | test
  | asleep
  | woken
  | access
  | advance
  | count
  | signal
  | unlock
  deriving DecidableEq

/-- The stages between taking the lock and releasing it. -/
def Stage.inside : Stage → Bool
  | .lock | .asleep | .woken => false
  | .test | .access | .advance | .count | .signal | .unlock => true

/-- A thread. The calls that it still makes, the current one first; the local variable `data`; and
whether it was woken by a signal that it has not used yet. -/
structure Thread where
  calls : List Call
  stage : Stage
  data : Int
  signalled : Bool

/-- A thread before its first call. -/
def Thread.start (calls : List Call) : Thread := ⟨calls, .lock, 0, false⟩

/-- The calls of a producer. Source: `produce` -/
def produce (nLoops : Nat) : List Call := (List.range nLoops).map fun i : Nat => .put i

/-- The calls of a consumer. Source: `consume` -/
def consume (nLoops : Nat) : List Call := List.replicate nLoops .get

/-- The thread is past its last call. -/
def Thread.Finished (t : Thread) : Prop := t.calls = []

/-- The variable in whose wait set the thread is. -/
def Thread.sleepsOn (t : Thread) : Option Cond :=
  if t.stage = .asleep then t.calls.head?.map Call.waitsOn else none

/-! ## Steps -/

variable {ι : Type*} {capacity : Nat}

/-- The queue, the owner of its lock, and the threads. -/
structure State (ι : Type*) (capacity : Nat) where
  queue : Queue capacity
  owner : Option ι
  thread : ι → Thread

/-- An element was put into the queue or taken from it by a thread, or neither. -/
inductive Event (ι : Type*)
  | put (k : ι) (v : Int)
  | got (k : ι) (v : Int)
  | internal (k : ι)
  deriving DecidableEq

/-- What a call did when it changed the length. -/
def Call.event (k : ι) (data : Int) : Call → Event ι
  | .put v => .put k v
  | .get => .got k data

/-- The threads before their first calls, and an empty queue. -/
def State.init (data : Fin capacity → Int) (calls : ι → List Call) : State ι capacity :=
  ⟨qinit data, none, fun k => .start (calls k)⟩

/-- The owner of the lock is the thread inside of its critical section. -/
def Locked (s : State ι capacity) : Prop := ∀ k, s.owner = some k ↔ (s.thread k).stage.inside = true

/-- The lock is free when nobody is inside. -/
theorem Locked.inside {s : State ι capacity} (h : Locked s) {k : ι} {t : Thread}
    (ht : s.thread k = t) (hin : t.stage.inside = true) : s.owner = some k :=
  (h k).mpr (ht ▸ hin)

/-- At the start nobody has the lock. -/
theorem locked_init (data : Fin capacity → Int) (calls : ι → List Call) :
    Locked (State.init data calls) := by
  intro k
  exact iff_of_false (by simp [State.init]) (by simp [State.init, Thread.start, Stage.inside])

variable [DecidableEq ι]

/-- The state with another thread `k`. -/
def State.set (s : State ι capacity) (k : ι) (t : Thread) : State ι capacity :=
  { s with thread := Function.update s.thread k t }

/-- One statement of one thread, or a spurious wake-up. Source: `put_data`, `get_data` -/
inductive Step : State ι capacity → Event ι → State ι capacity → Prop
  | lock {s : State ι capacity} {k : ι} {c : Call} {cs : List Call} {d : Int} {sig : Bool}
      (ht : s.thread k = ⟨c :: cs, .lock, d, sig⟩) (howner : s.owner = none) :
      Step s (.internal k) { s.set k ⟨c :: cs, .test, d, sig⟩ with owner := some k }
  | relock {s : State ι capacity} {k : ι} {c : Call} {cs : List Call} {d : Int} {sig : Bool}
      (ht : s.thread k = ⟨c :: cs, .woken, d, sig⟩) (howner : s.owner = none) :
      Step s (.internal k) { s.set k ⟨c :: cs, .test, d, sig⟩ with owner := some k }
  | wait {s : State ι capacity} {k : ι} {c : Call} {cs : List Call} {d : Int} {sig : Bool}
      (ht : s.thread k = ⟨c :: cs, .test, d, sig⟩) (hblocked : s.queue.Blocked c) :
      Step s (.internal k) { s.set k ⟨c :: cs, .asleep, d, false⟩ with owner := none }
  | pass {s : State ι capacity} {k : ι} {c : Call} {cs : List Call} {d : Int} {sig : Bool}
      (ht : s.thread k = ⟨c :: cs, .test, d, sig⟩) (hfree : ¬ s.queue.Blocked c) :
      Step s (.internal k) (s.set k ⟨c :: cs, .access, d, sig⟩)
  | access {s : State ι capacity} {k : ι} {c : Call} {cs : List Call} {d d' : Int} {sig : Bool}
      {q : Queue capacity} (ht : s.thread k = ⟨c :: cs, .access, d, sig⟩)
      (hq : s.queue.access d c = some (q, d')) :
      Step s (.internal k) { s.set k ⟨c :: cs, .advance, d', sig⟩ with queue := q }
  | advance {s : State ι capacity} {k : ι} {c : Call} {cs : List Call} {d : Int} {sig : Bool}
      (ht : s.thread k = ⟨c :: cs, .advance, d, sig⟩) :
      Step s (.internal k)
        { s.set k ⟨c :: cs, .count, d, sig⟩ with queue := s.queue.advance c }
  | count {s : State ι capacity} {k : ι} {c : Call} {cs : List Call} {d : Int} {sig : Bool}
      (ht : s.thread k = ⟨c :: cs, .count, d, sig⟩) :
      Step s (c.event k d) { s.set k ⟨c :: cs, .signal, d, false⟩ with queue := s.queue.count c }
  | signal {s : State ι capacity} {k j : ι} {c c' : Call} {cs cs' : List Call} {d d' : Int}
      {sig sig' : Bool} (ht : s.thread k = ⟨c :: cs, .signal, d, sig⟩)
      (hj : s.thread j = ⟨c' :: cs', .asleep, d', sig'⟩) (hcond : c'.waitsOn = c.signals) :
      Step s (.internal k)
        ((s.set k ⟨c :: cs, .unlock, d, sig⟩).set j ⟨c' :: cs', .woken, d', true⟩)
  | signalNobody {s : State ι capacity} {k : ι} {c : Call} {cs : List Call} {d : Int} {sig : Bool}
      (ht : s.thread k = ⟨c :: cs, .signal, d, sig⟩)
      (hnobody : ∀ j, (s.thread j).sleepsOn ≠ some c.signals) :
      Step s (.internal k) (s.set k ⟨c :: cs, .unlock, d, sig⟩)
  | unlock {s : State ι capacity} {k : ι} {c : Call} {cs : List Call} {d : Int} {sig : Bool}
      (ht : s.thread k = ⟨c :: cs, .unlock, d, sig⟩) :
      Step s (.internal k) { s.set k ⟨cs, .lock, d, sig⟩ with owner := none }
  | spurious {s : State ι capacity} {k : ι} {c : Call} {cs : List Call} {d : Int} {sig : Bool}
      (ht : s.thread k = ⟨c :: cs, .asleep, d, sig⟩) :
      Step s (.internal k) (s.set k ⟨c :: cs, .woken, d, sig⟩)

/-! ## The lock -/

/-- A thread that goes on is what was set. -/
@[simp] theorem State.set_thread (s : State ι capacity) (k : ι) (t : Thread) :
    (s.set k t).thread = Function.update s.thread k t := rfl

/-- A thread that goes on leaves the queue as it is. -/
@[simp] theorem State.set_queue (s : State ι capacity) (k : ι) (t : Thread) :
    (s.set k t).queue = s.queue := rfl

/-- A thread that goes on leaves the lock as it is. -/
@[simp] theorem State.set_owner (s : State ι capacity) (k : ι) (t : Thread) :
    (s.set k t).owner = s.owner := rfl

/-- Taking the lock when it is free. -/
theorem Locked.acquire {s : State ι capacity} (h : Locked s) (howner : s.owner = none) {k : ι}
    {t : Thread} (hin : t.stage.inside = true) :
    Locked { s.set k t with owner := some k } := by
  intro j
  by_cases hj : j = k
  · subst hj
    simp [hin]
  · have hout := (h j).not.mp (by rw [howner]; simp)
    simp [Function.update_of_ne hj, hout, Ne.symm hj]

/-- Releasing the lock. -/
theorem Locked.release {s : State ι capacity} (h : Locked s) {k : ι} (howner : s.owner = some k)
    {t : Thread} (hout : t.stage.inside = false) : Locked { s.set k t with owner := none } := by
  intro j
  by_cases hj : j = k
  · subst hj
    simp [hout]
  · have hother := (h j).not.mp (by rw [howner]; simpa using Ne.symm hj)
    simp [Function.update_of_ne hj, hother]

/-- A step on the same side of the lock. -/
theorem Locked.stay {s : State ι capacity} (h : Locked s) {k : ι} {t : Thread}
    (hsame : t.stage.inside = (s.thread k).stage.inside) (q : Queue capacity) :
    Locked { s.set k t with queue := q } := by
  intro j
  by_cases hj : j = k
  · subst hj
    simpa [hsame] using h j
  · simpa [Function.update_of_ne hj] using h j

/-- Every step keeps the lock with the thread that is in its call. -/
theorem Step.locked {s s' : State ι capacity} {e : Event ι} (h : Step s e s') (hs : Locked s) :
    Locked s' := by
  cases h with
  | lock ht howner => exact hs.acquire howner rfl
  | relock ht howner => exact hs.acquire howner rfl
  | wait ht hblocked => exact hs.release (hs.inside ht rfl) rfl
  | pass ht hfree => exact hs.stay (by rw [ht]; rfl) s.queue
  | access ht hq => exact hs.stay (by rw [ht]; rfl) _
  | advance ht => exact hs.stay (by rw [ht]; rfl) _
  | count ht => exact hs.stay (by rw [ht]; rfl) _
  | @signal k j c c' cs cs' d d' sig sig' ht hj hcond =>
      have hne : j ≠ k := by
        rintro rfl
        rw [ht] at hj
        cases hj
      have hk : Locked (s.set k ⟨c :: cs, .unlock, d, sig⟩) :=
        hs.stay (by rw [ht]; rfl) s.queue
      refine hk.stay ?_ s.queue
      rw [State.set_thread, Function.update_of_ne hne, hj]
      rfl
  | signalNobody ht hnobody => exact hs.stay (by rw [ht]; rfl) s.queue
  | unlock ht => exact hs.release (hs.inside ht rfl) rfl
  | spurious ht => exact hs.stay (by rw [ht]; rfl) s.queue

/-! ## A run -/

/-- Which thread moves: it runs its next statement, signals another one, or wakes up by itself. -/
inductive Action (ι : Type*)
  | run (k : ι)
  | signal (k j : ι)
  | spurious (k : ι)

/-- The step function. -/
def step [Fintype ι] (s : State ι capacity) : Action ι → Option (State ι capacity × Event ι)
  | .run k =>
      match s.thread k with
      | ⟨c :: cs, .lock, d, sig⟩ | ⟨c :: cs, .woken, d, sig⟩ =>
          match s.owner with
          | none => some ({ s.set k ⟨c :: cs, .test, d, sig⟩ with owner := some k }, .internal k)
          | some _ => none
      | ⟨c :: cs, .test, d, sig⟩ =>
          if s.queue.Blocked c then
            some ({ s.set k ⟨c :: cs, .asleep, d, false⟩ with owner := none }, .internal k)
          else some (s.set k ⟨c :: cs, .access, d, sig⟩, .internal k)
      | ⟨c :: cs, .access, d, sig⟩ =>
          match s.queue.access d c with
          | some (q, d') =>
              some ({ s.set k ⟨c :: cs, .advance, d', sig⟩ with queue := q }, .internal k)
          | none => none
      | ⟨c :: cs, .advance, d, sig⟩ =>
          some ({ s.set k ⟨c :: cs, .count, d, sig⟩ with queue := s.queue.advance c }, .internal k)
      | ⟨c :: cs, .count, d, _⟩ =>
          some ({ s.set k ⟨c :: cs, .signal, d, false⟩ with queue := s.queue.count c }, c.event k d)
      | ⟨c :: cs, .signal, d, sig⟩ =>
          if ∀ j, (s.thread j).sleepsOn ≠ some c.signals then
            some (s.set k ⟨c :: cs, .unlock, d, sig⟩, .internal k)
          else none
      | ⟨_ :: cs, .unlock, d, sig⟩ =>
          some ({ s.set k ⟨cs, .lock, d, sig⟩ with owner := none }, .internal k)
      | _ => none
  | .signal k j =>
      match s.thread k, s.thread j with
      | ⟨c :: cs, .signal, d, sig⟩, ⟨c' :: cs', .asleep, d', _⟩ =>
          if c'.waitsOn = c.signals then
            some ((s.set k ⟨c :: cs, .unlock, d, sig⟩).set j ⟨c' :: cs', .woken, d', true⟩,
              .internal k)
          else none
      | _, _ => none
  | .spurious k =>
      match s.thread k with
      | ⟨c :: cs, .asleep, d, sig⟩ => some (s.set k ⟨c :: cs, .woken, d, sig⟩, .internal k)
      | _ => none

/-- The executable step does steps. -/
theorem step_sound [Fintype ι] (s : State ι capacity) (a : Action ι) (s' : State ι capacity)
    (e : Event ι) (h : step s a = some (s', e)) : Step s e s' := by
  cases a with
  | run k =>
      simp only [step] at h
      split at h
      · rename_i ht
        split at h
        · rename_i howner
          cases h
          exact .lock ht howner
        · cases h
      · rename_i ht
        split at h
        · rename_i howner
          cases h
          exact .relock ht howner
        · cases h
      · rename_i ht
        split_ifs at h with hblocked
        · cases h
          exact .wait ht hblocked
        · cases h
          exact .pass ht hblocked
      · rename_i ht
        split at h
        · rename_i hq
          cases h
          exact .access ht hq
        · cases h
      · rename_i ht
        cases h
        exact .advance ht
      · rename_i ht
        cases h
        exact .count ht
      · rename_i ht
        split_ifs at h with hnobody
        cases h
        exact .signalNobody ht hnobody
      · rename_i ht
        cases h
        exact .unlock ht
      · cases h
  | signal k j =>
      simp only [step] at h
      split at h
      · rename_i ht hj
        split_ifs at h with hcond
        cases h
        exact .signal ht hj hcond
      · cases h
  | spurious k =>
      simp only [step] at h
      split at h
      · rename_i ht
        cases h
        exact .spurious ht
      · cases h

/-- The consumer, thread 1, falls asleep; the producer, thread 0, puts its element and wakes it up;
the consumer takes the element. -/
def handOver : List (Action (Fin 2)) :=
  [.run 1, .run 1, .run 0, .run 0, .run 0, .run 0, .run 0, .signal 0 1, .run 0, .run 1, .run 1,
    .run 1, .run 1, .run 1, .run 1, .run 1]

/-- Its history. -/
def handOverEvents : List (Event (Fin 2)) :=
  [.internal 1, .internal 1, .internal 0, .internal 0, .internal 0, .internal 0, .put 0 0,
    .internal 0, .internal 0, .internal 1, .internal 1, .internal 1, .internal 1, .got 1 0,
    .internal 1, .internal 1]

/-- The run of it. -/
theorem handOver_run : ∃ s : State (Fin 2) 1,
    Run Step (State.init (fun _ => 7) ![produce 1, consume 1]) handOverEvents s ∧
      s.owner = none := by
  have h : (exec step (State.init (fun _ => 7) ![produce 1, consume 1] : State (Fin 2) 1)
      handOver).map (fun p => (p.2, p.1.owner)) = some (handOverEvents, none) := by
    decide
  obtain ⟨⟨s, es⟩, hexec, heq⟩ := Option.map_eq_some_iff.mp h
  obtain ⟨rfl, howner⟩ := Prod.mk.inj heq
  exact ⟨s, exec_run step_sound handOver hexec, howner⟩

end SystemProgrammingLab.Week15
