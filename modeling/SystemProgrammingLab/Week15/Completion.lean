import SystemProgrammingLab.Found.Progress
import SystemProgrammingLab.Week15.Wakeup

/-!
# The threads of the bounded queue finish

`Wakeup` shows that the threads never all sleep. Here the runs come to an end, and at the end the work
is done (`completes`). A call takes at most nine steps, and two more for each spurious wake-up: the
steps of a thread decrease its `weight`, also the signal, which wakes another thread up and so gives
that one its way back to the lock. When no thread can do a step any more, none sleeps, and all have
finished: each has made exactly its calls, in their order, and the queue is empty again.

The runs are those of the step function, so that the history says who woke up by itself.

Source: `week15/main.c`
-/

namespace SystemProgrammingLab.Week15

open SystemProgrammingLab.Found Finset

variable {ι : Type*} {capacity : Nat}

/-! ## The steps that are left -/

/-- A bound for the steps of a call from the stage on. -/
def Stage.weight : Stage → Nat
  | .lock | .woken => 9
  | .test => 8
  | .access | .asleep => 7
  | .advance => 6
  | .count => 5
  | .signal => 4
  | .unlock => 1

/-- A bound for the steps of the thread. -/
def Thread.weight (t : Thread) : Int :=
  match t.calls with
  | [] => 0
  | _ :: cs => 9 * cs.length + t.stage.weight

/-- The weight of a thread: nine for each call behind this one, and that of the stage. -/
@[simp] theorem Thread.weight_cons (c : Call) (cs : List Call) (stage : Stage) (d : Int) (sig : Bool) :
    Thread.weight ⟨c :: cs, stage, d, sig⟩ = 9 * cs.length + stage.weight := rfl

/-- A thread at the lock has all its calls before it. -/
@[simp] theorem Thread.weight_lock (cs : List Call) (d : Int) (sig : Bool) :
    Thread.weight ⟨cs, .lock, d, sig⟩ = 9 * cs.length := by
  cases cs with
  | nil => rfl
  | cons c cs =>
      rw [Thread.weight_cons, List.length_cons]
      simp only [Stage.weight]
      push_cast
      omega

/-- A weight is not negative. -/
theorem Thread.weight_nonneg (t : Thread) : 0 ≤ t.weight := by
  unfold Thread.weight
  split <;> omega

/-- The thread wakes up by itself. -/
def Action.spurious? : Action ι → Bool
  | .spurious _ => true
  | _ => false

section steps

variable [Fintype ι] [DecidableEq ι]

/-- One thread moves to a smaller weight. -/
theorem total_weight_lt {s s' : State ι capacity} {k : ι} {t t' : Thread}
    (hs' : s'.thread = (s.set k t').thread) (ht : s.thread k = t) (h : t'.weight < t.weight) :
    s'.total Thread.weight < s.total Thread.weight := by
  have hsum : s'.total Thread.weight = s.total Thread.weight + (t'.weight - t.weight) := by
    rw [← s.total_set Thread.weight ht t', State.total, hs', State.total]
  omega

/-- The stages in the order in which a call passes them. -/
theorem Thread.weight_lt {cs : List Call} {c : Call} {stage stage' : Stage} {d d' : Int}
    {sig sig' : Bool} (h : stage'.weight < stage.weight) :
    Thread.weight ⟨c :: cs, stage', d', sig'⟩ < Thread.weight ⟨c :: cs, stage, d, sig⟩ := by
  rw [Thread.weight_cons, Thread.weight_cons]
  omega

/-- A thread's next statement takes at least one from the weight of the threads. -/
theorem weight_run {s s' : State ι capacity} {k : ι} {e : Event ι}
    (h : step s (.run k) = some (s', e)) : s'.total Thread.weight < s.total Thread.weight := by
  simp only [step] at h
  split at h
  · rename_i ht
    split at h
    · cases h
      exact total_weight_lt rfl ht (Thread.weight_lt (by decide))
    · cases h
  · rename_i ht
    split at h
    · cases h
      exact total_weight_lt rfl ht (Thread.weight_lt (by decide))
    · cases h
  · rename_i ht
    split_ifs at h
    · cases h
      exact total_weight_lt rfl ht (Thread.weight_lt (by decide))
    · cases h
      exact total_weight_lt rfl ht (Thread.weight_lt (by decide))
  · rename_i ht
    split at h
    · cases h
      exact total_weight_lt rfl ht (Thread.weight_lt (by decide))
    · cases h
  · rename_i ht
    cases h
    exact total_weight_lt rfl ht (Thread.weight_lt (by decide))
  · rename_i ht
    cases h
    exact total_weight_lt rfl ht (Thread.weight_lt (by decide))
  · rename_i ht
    split_ifs at h
    cases h
    exact total_weight_lt rfl ht (Thread.weight_lt (by decide))
  · rename_i ht
    cases h
    apply total_weight_lt rfl ht
    rw [Thread.weight_lock, Thread.weight_cons]
    simp only [Stage.weight]
    omega
  · cases h

/-- A signal takes three from the weight of the thread that signals, and gives two to the other. -/
theorem weight_signal {s s' : State ι capacity} {k j : ι} {e : Event ι}
    (h : step s (.signal k j) = some (s', e)) :
    s'.total Thread.weight < s.total Thread.weight := by
  simp only [step] at h
  split at h
  · rename_i c cs d sig c' cs' d' sig' ht hj
    split_ifs at h
    cases h
    have hjk : j ≠ k := by
      rintro rfl
      rw [ht] at hj
      cases hj
    have hj' : (s.set k ⟨c :: cs, .unlock, d, sig⟩).thread j = ⟨c' :: cs', .asleep, d', sig'⟩ := by
      rw [State.set_thread, Function.update_of_ne hjk, hj]
    have hk := s.total_set Thread.weight ht ⟨c :: cs, .unlock, d, sig⟩
    have hwoken := State.total_set _ Thread.weight hj' ⟨c' :: cs', .woken, d', true⟩
    simp only [Thread.weight_cons, Stage.weight] at hk hwoken
    omega
  · cases h

/-- A spurious wake-up adds two. -/
theorem weight_spurious {s s' : State ι capacity} {k : ι} {e : Event ι}
    (h : step s (.spurious k) = some (s', e)) :
    s'.total Thread.weight = s.total Thread.weight + 2 := by
  simp only [step] at h
  split at h
  · rename_i ht
    cases h
    rw [s.total_set Thread.weight ht]
    simp only [Thread.weight_cons, Stage.weight]
    omega
  · cases h

/-- The weight of the threads. -/
def State.weight (s : State ι capacity) : Nat := (s.total Thread.weight).toNat

omit [DecidableEq ι] in
/-- The weight of the threads as a natural number. -/
theorem State.weight_cast (s : State ι capacity) : (s.weight : Int) = s.total Thread.weight :=
  Int.toNat_of_nonneg (s.total_nonneg Thread.weight_nonneg)

/-- What a step may give back. -/
def refill (p : Action ι × Event ι) : Nat := if p.1.spurious? then 3 else 0

/-- A step takes one from the weight, and a spurious wake-up gives back three. -/
theorem weight_step {s s' : State ι capacity} {p : Action ι × Event ι}
    (h : Stepped step s p s') :
    s'.weight + 1 ≤ s.weight + refill p := by
  have hs := s.weight_cast
  have hs' := s'.weight_cast
  obtain ⟨a, e⟩ := p
  cases a with
  | run k =>
      have hlt := weight_run h
      omega
  | signal k j =>
      have hlt := weight_signal h
      omega
  | spurious k =>
      have heq := weight_spurious h
      simp only [refill, Action.spurious?, if_true]
      omega

omit [Fintype ι] [DecidableEq ι] in
/-- What the spurious wake-ups of a run add. -/
theorem sum_refill (ps : List (Action ι × Event ι)) :
    (ps.map refill).sum = 3 * ps.countP fun p => p.1.spurious? := by
  induction ps with
  | nil => rfl
  | cons p ps ih =>
      rw [List.map_cons, List.sum_cons, ih, List.countP_cons]
      unfold refill
      split_ifs <;> omega

omit [DecidableEq ι] in
/-- At the start it is nine for each call. -/
theorem State.weight_init (data : Fin capacity → Int) (calls : ι → List Call) :
    (State.init data calls).weight = 9 * ∑ k, (calls k).length := by
  have hsum : ((State.init data calls).weight : Int) = ∑ k, 9 * ((calls k).length : Int) := by
    rw [State.weight_cast]
    exact Finset.sum_congr rfl fun k _ => Thread.weight_lock (calls k) 0 false
  rw [← Finset.mul_sum] at hsum
  exact_mod_cast hsum

end steps

/-! ## The calls that were made -/

section made

variable [DecidableEq ι]

/-- The call of the thread whose effect the event is. -/
def Event.call? (k : ι) : Event ι → Option Call
  | .put j v => if j = k then some (.put v) else none
  | .got j _ => if j = k then some .get else none
  | .internal _ => none

/-- The calls of the thread that had their effect, in the order of the critical sections. -/
def made (k : ι) (es : List (Event ι)) : List Call := es.filterMap (Event.call? k)

/-- The event of a call shows the call. -/
theorem call?_event (j k : ι) (d : Int) (c : Call) :
    (c.event j d).call? k = if j = k then some c else none := by
  cases c <;> rfl

/-- The calls that a thread has made, one event later. -/
theorem made_snoc (k : ι) (es : List (Event ι)) (e : Event ι) :
    made k (es ++ [e]) = made k es ++ (e.call? k).toList := by
  unfold made
  rw [List.filterMap_append]
  cases h : e.call? k <;> simp [h]

/-- The calls of each thread are those that had their effect and those that are left. -/
def InOrder (calls : ι → List Call) (es : List (Event ι)) (s : State ι capacity) : Prop :=
  ∀ k, made k es ++ (s.thread k).left = calls k

/-- A thread moves on: the call of the event, if it is its own, was the next one left. -/
theorem InOrder.set {calls : ι → List Call} {es : List (Event ι)} {e : Event ι}
    {s s' : State ι capacity} {k : ι} {t t' : Thread} (h : InOrder calls es s)
    (hs' : s'.thread = (s.set k t').thread) (ht : s.thread k = t)
    (hleft : t.left = (e.call? k).toList ++ t'.left) (hother : ∀ j, j ≠ k → e.call? j = none) :
    InOrder calls (es ++ [e]) s' := by
  intro j
  rw [made_snoc, hs', State.set_thread]
  by_cases hj : j = k
  · subst hj
    rw [Function.update_self, List.append_assoc, ← hleft, ← ht]
    exact h j
  · rw [Function.update_of_ne hj, hother j hj, Option.toList_none, List.append_nil]
    exact h j

/-- Every step keeps the calls in order. -/
theorem Step.inOrder {calls : ι → List Call} {es : List (Event ι)} {e : Event ι}
    {s s' : State ι capacity} (hstep : Step s e s') (h : InOrder calls es s) :
    InOrder calls (es ++ [e]) s' := by
  cases hstep with
  | lock ht | relock ht | wait ht | pass ht | access ht | advance ht | signalNobody ht | unlock ht
  | spurious ht => exact h.set rfl ht rfl fun _ _ => rfl
  | @count k c cs d sig ht =>
      apply h.set rfl ht
      · rw [call?_event, if_pos rfl]
        rfl
      · intro j hj
        rw [call?_event, if_neg (Ne.symm hj)]
  | @signal k j c c' cs cs' d d' sig sig' ht hj hcond =>
      have hjk : j ≠ k := by
        rintro rfl
        rw [ht] at hj
        cases hj
      have hj' : (s.set k ⟨c :: cs, .unlock, d, sig⟩).thread j = ⟨c' :: cs', .asleep, d', sig'⟩ := by
        rw [State.set_thread, Function.update_of_ne hjk, hj]
      have hk : InOrder calls (es ++ [.internal k]) (s.set k ⟨c :: cs, .unlock, d, sig⟩) :=
        h.set rfl ht rfl fun _ _ => rfl
      intro i
      by_cases hi : i = j
      · subst hi
        have hold := hk i
        rw [hj'] at hold
        rw [State.set_thread, Function.update_self]
        exact hold
      · rw [State.set_thread, Function.update_of_ne hi]
        exact hk i

end made

/-! ## When nothing moves any more -/

section halted

variable [Fintype ι] [DecidableEq ι]

/-- No thread can do a step, other than wake up by itself. -/
def Halted (s : State ι capacity) : Prop :=
  ∀ a : Action ι, a.spurious? = false → step s a = none

/-- The cell of an assignment to the queue exists. -/
theorem exists_access {q : Queue capacity} {xs : List Int} {c : Call} {cs : List Call} {d : Int}
    {sig : Bool} (h : Midway q xs ⟨c :: cs, .access, d, sig⟩) :
    ∃ q' d', q.access d c = some (q', d') := by
  cases c with
  | put v =>
      obtain ⟨⟨front, hrep⟩, hroom⟩ := h
      have hlt : (front + xs.length) % capacity < capacity := Nat.mod_lt _ (Nat.zero_lt_of_lt hroom)
      refine ⟨{ q with data := Function.update q.data ⟨_, hlt⟩ v }, d, ?_⟩
      show (wr q.data q.putIndex v).map _ = _
      rw [hrep.putIndex, wr_val q.data ⟨_, hlt⟩ v]
      rfl
  | get =>
      obtain ⟨⟨front, hrep⟩, hne⟩ := h
      refine ⟨q, q.data ⟨front, hrep.ring.lt⟩, ?_⟩
      show (rd q.data q.getIndex).map _ = _
      rw [hrep.getIndex, rd_val q.data ⟨front, hrep.ring.lt⟩]
      rfl

/-- The thread inside of its critical section can always go on. -/
theorem exists_step_of_inside {es : List (Event ι)} {s : State ι capacity} (hinv : Inv es s) {k : ι}
    (hok : (s.thread k).Ok) (hin : (s.thread k).stage.inside = true) :
    ∃ a : Action ι, a.spurious? = false ∧ step s a ≠ none := by
  obtain ⟨hlocked, xs, -, hcons⟩ := hinv
  have howner : s.owner = some k := (hlocked k).mpr hin
  obtain ⟨c, cs, hcalls⟩ : ∃ c cs, (s.thread k).calls = c :: cs := by
    apply List.exists_cons_of_ne_nil
    apply hok.calls
    intro hstage
    rw [hstage] at hin
    cases hin
  rcases ht : s.thread k with ⟨calls, stage, d, sig⟩
  rw [ht] at hcalls hin
  subst hcalls
  cases stage with
  | lock | asleep | woken => cases hin
  | test =>
      refine ⟨.run k, rfl, ?_⟩
      simp only [step, ht]
      split_ifs <;> exact Option.some_ne_none _
  | access =>
      obtain ⟨q', d', hq⟩ := exists_access (hcons.of_owner howner ht)
      refine ⟨.run k, rfl, ?_⟩
      simp only [step, ht, hq]
      exact Option.some_ne_none _
  | advance | count | unlock =>
      refine ⟨.run k, rfl, ?_⟩
      simp only [step, ht]
      exact Option.some_ne_none _
  | signal =>
      by_cases hnobody : ∀ j, (s.thread j).sleepsOn ≠ some c.signals
      · refine ⟨.run k, rfl, ?_⟩
        simp only [step, ht, if_pos hnobody]
        exact Option.some_ne_none _
      · simp only [not_forall, not_not] at hnobody
        obtain ⟨j, hj⟩ := hnobody
        refine ⟨.signal k j, rfl, ?_⟩
        rcases htj : s.thread j with ⟨calls', stage', d', sig'⟩
        rw [htj] at hj
        unfold Thread.sleepsOn at hj
        split_ifs at hj with hstage
        simp only at hstage
        subst hstage
        cases calls' with
        | nil => cases hj
        | cons c' cs' =>
            have hcond : c'.waitsOn = c.signals := Option.some.inj hj
            simp only [step, ht, htj, if_pos hcond]
            exact Option.some_ne_none _

/-- When no thread can do a step, every one has finished: one that does not sleep could go on, or it
waits for the lock, and then the owner of the lock could. -/
theorem Halted.finished {workers : ι → Worker} {es : List (Event ι)} {s : State ι capacity}
    (hhalted : Halted s) (hinv : Inv es s) (hs : Reached workers s) (hcap : 0 < capacity) (k : ι) :
    (s.thread k).Finished := by
  have houtside : ∀ j, (s.thread j).stage.inside = false := by
    intro j
    by_contra hin
    obtain ⟨a, ha, hstep⟩ := exists_step_of_inside hinv (hs.ok j) (Bool.not_eq_false _ ▸ hin)
    exact hstep (hhalted a ha)
  have hfree : s.owner = none := by
    rw [Option.eq_none_iff_forall_ne_some]
    intro j howner
    have hin := (hs.locked j).mp howner
    rw [houtside j] at hin
    cases hin
  by_contra hk
  apply hs.not_all_asleep hcap ⟨k, hk⟩
  intro j hj
  rcases ht : s.thread j with ⟨calls, stage, d, sig⟩
  have hout := houtside j
  rw [Thread.Finished, ht] at hj
  obtain ⟨c, cs, rfl⟩ := List.exists_cons_of_ne_nil hj
  rw [ht] at hout
  have hrun := hhalted (.run j) rfl
  cases stage with
  | asleep => rfl
  | lock | woken =>
      simp only [step, ht, hfree] at hrun
      cases hrun
  | test | access | advance | count | signal | unlock => cases hout

/-- Threads without calls have stopped. -/
theorem halted_of_finished {s : State ι capacity} (h : ∀ k, (s.thread k).calls = []) : Halted s := by
  have hthread : ∀ k, ∃ stage d sig, s.thread k = ⟨[], stage, d, sig⟩ := by
    intro k
    rcases ht : s.thread k with ⟨calls, stage, d, sig⟩
    have hk := h k
    rw [ht] at hk
    exact ⟨stage, d, sig, by rw [show calls = [] from hk]⟩
  intro a ha
  cases a with
  | run k =>
      obtain ⟨stage, d, sig, ht⟩ := hthread k
      simp only [step, ht]
  | signal k j =>
      obtain ⟨stage, d, sig, ht⟩ := hthread k
      simp only [step, ht]
  | spurious k => cases ha

/-- What is left of a thread that has finished. -/
theorem Thread.Finished.left {t : Thread} (h : t.Finished) : t.left = [] := by
  unfold Thread.Finished at h
  unfold Thread.left
  split <;> simp [h]

omit [DecidableEq ι] in
/-- The values taken are the values put when nothing is left to do. -/
theorem gots_eq_puts {workers : ι → Worker} {es : List (Event ι)} {s : State ι capacity}
    (hinv : Inv es s) (hs : Reached workers s) (hfin : ∀ k, (s.thread k).Finished) :
    s.owner = none ∧ s.queue.length = 0 ∧ gots es = puts es := by
  obtain ⟨hlocked, xs, hxs, hcons⟩ := hinv
  have hfree : s.owner = none := by
    rw [Option.eq_none_iff_forall_ne_some]
    intro j howner
    have hin := (hlocked j).mp howner
    have hlock : (s.thread j).stage = .lock := not_not.mp fun hne => (hs.ok j).calls hne (hfin j)
    rw [hlock] at hin
    cases hin
  have hdue : ∀ v, s.total (due v) = 0 := by
    intro v
    apply Finset.sum_eq_zero
    intro k _
    unfold due
    rw [(hfin k).left]
    rfl
  have hlength : s.queue.length = 0 := by
    have hbalanced := hs.balanced
    unfold Balanced at hbalanced
    rw [hdue, hdue] at hbalanced
    omega
  obtain ⟨front, hrep⟩ := hcons.of_free hfree
  have hnil : xs = [] := by
    apply List.eq_nil_of_length_eq_zero
    have hlen := hrep.length
    omega
  rw [hnil, List.append_nil] at hxs
  exact ⟨hfree, hlength, hxs.symm⟩

/-- **The threads finish their work.** A run of workers that put as many elements as they take has at
most nine steps for each call and three for each spurious wake-up, and it can be continued without
another one to a state in which no thread can do a step. In such a state every thread has made exactly
its calls, in their order, the lock is free, the queue is empty, and the values taken are the values put,
in the same order. -/
theorem completes {workers : ι → Worker} {data : Fin capacity → Int}
    {ps : List (Action ι × Event ι)} {s : State ι capacity} (hcap : 0 < capacity)
    (hbalance : ∑ k, (workers k).puts = ∑ k, (workers k).gets)
    (h : Run (Stepped step) (State.init data fun k => (workers k).calls) ps s) :
    (ps.length ≤ 9 * (∑ k, (workers k).calls.length) + 3 * ps.countP fun p => p.1.spurious?) ∧
      (∃ qs s', Run (Stepped step) s qs s' ∧ (∀ q ∈ qs, q.1.spurious? = false) ∧ Halted s') ∧
      (Halted s → (∀ k, (s.thread k).Finished ∧ made k (ps.map Prod.snd) = (workers k).calls) ∧
        s.owner = none ∧ s.queue.length = 0 ∧ gots (ps.map Prod.snd) = puts (ps.map Prod.snd)) := by
  have hrun := run_of_stepped step_sound h
  refine ⟨?_, ?_, ?_⟩
  · have hle := (h.measure_le (fun _ => True) State.weight refill
      (fun _ _ _ _ hstep => ⟨trivial, weight_step hstep⟩) trivial).2
    rw [State.weight_init, sum_refill] at hle
    omega
  · let quiet := Guarded (Stepped (step : State ι capacity → _)) fun _ p => p.1.spurious? = false
    have hdrop : ∀ s p s', True → quiet s p s' → True ∧ State.weight s' + 1 ≤ State.weight s := by
      intro s p s' _ hstep
      have hweight := weight_step hstep.1
      simp only [refill, hstep.2, Bool.false_eq_true, if_false] at hweight
      exact ⟨trivial, hweight⟩
    obtain ⟨qs, s', hqs, hfinal⟩ := exists_final _ _ hdrop (s := s) trivial
    refine ⟨qs, s', hqs.mono fun _ _ _ hstep => hstep.1, ?_, ?_⟩
    · exact hqs.forall_mem fun _ _ _ hstep => hstep.2
    · intro a ha
      rw [Option.eq_none_iff_forall_ne_some]
      rintro ⟨s'', e⟩ hstep
      exact hfinal (a, e) s'' ⟨hstep, ha⟩
  · intro hhalted
    have hinv : Inv (ps.map Prod.snd) s :=
      hrun.history Inv (fun _ _ _ _ hinv hstep => hstep.inv hinv) (inv_init hcap data _)
    have hs : Reached workers s :=
      hrun.invariant (Reached workers) (fun _ _ _ hs hstep => hstep.reached hs)
        (reached_init data hbalance)
    have horder : InOrder (fun k => (workers k).calls) (ps.map Prod.snd) s :=
      hrun.history (InOrder _) (fun _ _ _ _ horder hstep => hstep.inOrder horder) fun _ => rfl
    have hfin := hhalted.finished hinv hs hcap
    refine ⟨fun k => ⟨hfin k, ?_⟩, gots_eq_puts hinv hs hfin⟩
    have hk := horder k
    rw [(hfin k).left, List.append_nil] at hk
    exact hk

/-- Its history with the actions. -/
def handOverSteps : List (Action (Fin 2) × Event (Fin 2)) := handOver.zip handOverEvents

/-- The consumer falls asleep, is woken by the producer, and both finish. -/
theorem completes_handOver : ∃ s : State (Fin 2) 1,
    Run (Stepped step) (State.init (fun _ => 7) fun k => (![Worker.producer 1, .consumer 1] k).calls)
        handOverSteps s ∧ Halted s ∧
      (handOverSteps.length ≤ 9 * (∑ k, (![Worker.producer 1, .consumer 1] k).calls.length) +
          3 * handOverSteps.countP fun p => p.1.spurious?) ∧
        (∃ qs s', Run (Stepped step) s qs s' ∧ (∀ q ∈ qs, q.1.spurious? = false) ∧ Halted s') ∧
        (Halted s →
          (∀ k, (s.thread k).Finished ∧
            made k (handOverSteps.map Prod.snd) = (![Worker.producer 1, .consumer 1] k).calls) ∧
          s.owner = none ∧ s.queue.length = 0 ∧
            gots (handOverSteps.map Prod.snd) = puts (handOverSteps.map Prod.snd)) := by
  have h : (exec step (State.init (fun _ => 7) fun k => (![Worker.producer 1, .consumer 1] k).calls :
      State (Fin 2) 1) handOver).map (fun p => (p.2, fun k => (p.1.thread k).calls)) =
      some (handOverEvents, fun _ => []) := by
    decide
  obtain ⟨⟨s, es⟩, hexec, heq⟩ := Option.map_eq_some_iff.mp h
  obtain ⟨rfl, hcalls⟩ := Prod.mk.inj heq
  have hrun := exec_stepped handOver hexec
  exact ⟨s, hrun, halted_of_finished fun k => congrFun hcalls k,
    completes (by decide) (by decide) hrun⟩

end halted

end SystemProgrammingLab.Week15
