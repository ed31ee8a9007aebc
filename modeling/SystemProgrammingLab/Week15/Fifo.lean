import SystemProgrammingLab.Found.Ring
import SystemProgrammingLab.Week15.Queue

/-!
# The bounded queue is a FIFO

Whoever runs when, the values taken from the queue are the first of the values put into it, in the
same order, and the others are in its cells (`fifo`).

The invariant ties the queue to the values that were put and not yet taken. When nobody is inside of
a critical section, the queue represents them (`Queue.Represents`). Inside, the assignments behind the
loop break this and restore it: `Midway` says for each stage of the thread inside how far it has got.

Source: `week15/main.c`
-/

namespace SystemProgrammingLab.Week15

open SystemProgrammingLab.Found

variable {ι : Type*} {capacity : Nat}

/-! ## What was put and what was taken -/

/-- The values put into the queue, in the order of the critical sections. -/
def puts : List (Event ι) → List Int := List.filterMap fun
  | .put _ v => some v
  | _ => none

/-- The values taken from the queue, in the order of the critical sections. -/
def gots : List (Event ι) → List Int := List.filterMap fun
  | .got _ v => some v
  | _ => none

/-- An internal step puts nothing. -/
theorem puts_snoc_internal (es : List (Event ι)) (k : ι) : puts (es ++ [.internal k]) = puts es := by
  simp [puts]

/-- Nor does it take anything. -/
theorem gots_snoc_internal (es : List (Event ι)) (k : ι) : gots (es ++ [.internal k]) = gots es := by
  simp [gots]

/-! ## The representation -/

/-- The indices and the length of the queue, and the list in its cells. -/
structure Queue.Holds (q : Queue capacity) (front rear : Nat) (len : Int) (xs : List Int) :
    Prop where
  getIndex : q.getIndex = (front : Nat)
  putIndex : q.putIndex = (rear % capacity : Nat)
  length : q.length = len
  ring : Ring q.data front xs

/-- The queue represents the list: its elements are in the cells from `get_index` to `put_index`, and
`length` is their number. -/
def Queue.Represents (q : Queue capacity) (xs : List Int) : Prop :=
  ∃ front, q.Holds front (front + xs.length) xs.length xs

/-- The new queue is empty. -/
theorem qinit_represents (hcap : 0 < capacity) (data : Fin capacity → Int) :
    (qinit data).Represents [] :=
  ⟨0, rfl, by simp [qinit], rfl, .nil data hcap⟩

/-- C's remainder of an index that was increased. -/
theorem tmod_succ (i : Nat) : (((i % capacity : Nat) : Int) + 1).tmod capacity =
    ((i + 1) % capacity : Nat) := by
  have hcast : ((i % capacity : Nat) : Int) + 1 = ((i % capacity + 1 : Nat) : Int) := rfl
  rw [hcast, ← Int.ofNat_tmod, Nat.mod_add_mod]

section statements

variable {q q' : Queue capacity} {front rear : Nat} {len d d' v : Int} {xs : List Int}

/-- The assignment to the cell at `put_index`. -/
theorem Queue.Holds.access_put (h : q.Holds front (front + xs.length) len xs)
    (hroom : xs.length < capacity) (hq : q.access d (.put v) = some (q', d')) :
    q'.Holds front (front + xs.length) len (xs ++ [v]) ∧ d' = d := by
  obtain ⟨cells, hcells, heq⟩ := Option.map_eq_some_iff.mp hq
  cases heq
  rw [h.putIndex] at hcells
  exact ⟨⟨h.getIndex, h.putIndex, h.length, h.ring.put hroom hcells⟩, rfl⟩

/-- The assignment from the cell at `get_index`. -/
theorem Queue.Holds.access_get (h : q.Holds front rear len xs) (hne : xs ≠ [])
    (hq : q.access d .get = some (q', d')) : q' = q ∧ ∃ ys, xs = d' :: ys := by
  obtain ⟨x, ys, rfl⟩ := List.exists_cons_of_ne_nil hne
  obtain ⟨v, hv, heq⟩ := Option.map_eq_some_iff.mp hq
  cases heq
  have hhead := h.ring.head
  rw [← h.getIndex, hv] at hhead
  cases hhead
  exact ⟨rfl, ys, rfl⟩

/-- `put_data` moves the rear on, -/
theorem Queue.Holds.advance_put (h : q.Holds front rear len xs) :
    (q.advance (.put v)).Holds front (rear + 1) len xs := by
  refine ⟨h.getIndex, ?_, h.length, h.ring⟩
  show (q.putIndex + 1).tmod capacity = _
  rw [h.putIndex, tmod_succ]

/-- `get_data` the front, behind the element that it has taken. -/
theorem Queue.Holds.advance_get {x : Int} (h : q.Holds front rear len (x :: xs)) :
    (q.advance .get).Holds ((front + 1) % capacity) rear len xs := by
  refine ⟨?_, h.putIndex, h.length, h.ring.tail⟩
  show (q.getIndex + 1).tmod capacity = _
  rw [h.getIndex, ← tmod_succ, Nat.mod_eq_of_lt h.ring.lt]

/-- `put_data` counts one more, -/
theorem Queue.Holds.count_put (h : q.Holds front rear len xs) :
    (q.count (.put v)).Holds front rear (len + 1) xs :=
  ⟨h.getIndex, h.putIndex, congrArg (· + 1) h.length, h.ring⟩

/-- `get_data` one less. -/
theorem Queue.Holds.count_get (h : q.Holds front rear len xs) :
    (q.count .get).Holds front rear (len - 1) xs :=
  ⟨h.getIndex, h.putIndex, congrArg (· - 1) h.length, h.ring⟩

/-- The rear is only meant modulo the capacity. -/
theorem Queue.Holds.congr {rear' : Nat} (h : q.Holds front rear len xs)
    (hrear : rear % capacity = rear' % capacity) : q.Holds front rear' len xs :=
  ⟨h.getIndex, hrear ▸ h.putIndex, h.length, h.ring⟩

end statements

/-! ## Inside of a critical section -/

/-- What the queue holds when the thread is inside, where `xs` are the values that were put and not
yet taken. -/
def Midway (q : Queue capacity) (xs : List Int) (t : Thread) : Prop :=
  match t.stage, t.calls with
  | .access, .put _ :: _ => q.Represents xs ∧ xs.length < capacity
  | .access, .get :: _ => q.Represents xs ∧ xs ≠ []
  -- the value is in its cell, and not counted yet
  | .advance, .put v :: _ => ∃ front, q.Holds front (front + xs.length) xs.length (xs ++ [v])
  | .count, .put v :: _ => ∃ front, q.Holds front (front + xs.length + 1) xs.length (xs ++ [v])
  -- the first value is in the local variable, and still counted
  | .advance, .get :: _ => q.Represents xs ∧ ∃ ys, xs = t.data :: ys
  | .count, .get :: _ => ∃ ys front, xs = t.data :: ys ∧ q.Holds front (front + ys.length) xs.length ys
  | _, _ => q.Represents xs

/-- The queue and the values that were put and not yet taken. -/
def Consistent (s : State ι capacity) (xs : List Int) : Prop :=
  match s.owner with
  | none => s.queue.Represents xs
  | some k => Midway s.queue xs (s.thread k)

/-- A thread that passes the test of the loop finds room, or something to take. -/
theorem midway_pass {q : Queue capacity} {xs : List Int} (h : q.Represents xs) {c : Call}
    (hfree : ¬ q.Blocked c) (cs : List Call) (d : Int) (sig : Bool) :
    Midway q xs ⟨c :: cs, .access, d, sig⟩ := by
  obtain ⟨front, hq⟩ := h
  cases c with
  | put v =>
      refine ⟨⟨front, hq⟩, Nat.lt_of_le_of_ne hq.ring.le ?_⟩
      intro hfull
      exact hfree (hq.length.trans (congrArg Nat.cast hfull))
  | get =>
      refine ⟨⟨front, hq⟩, ?_⟩
      rintro rfl
      exact hfree hq.length

/-- In a call, the cell is read or written first. -/
theorem midway_access {q q' : Queue capacity} {xs : List Int} {c : Call} {cs : List Call} {d d' : Int}
    {sig : Bool} (h : Midway q xs ⟨c :: cs, .access, d, sig⟩)
    (hq : q.access d c = some (q', d')) : Midway q' xs ⟨c :: cs, .advance, d', sig⟩ := by
  cases c with
  | put v =>
      obtain ⟨⟨front, hrep⟩, hroom⟩ := h
      exact ⟨front, (hrep.access_put hroom hq).1⟩
  | get =>
      obtain ⟨⟨front, hrep⟩, hne⟩ := h
      obtain ⟨rfl, hys⟩ := hrep.access_get hne hq
      exact ⟨⟨front, hrep⟩, hys⟩

/-- Then the index is moved on. -/
theorem midway_advance {q : Queue capacity} {xs : List Int} {c : Call} {cs : List Call} {d : Int}
    {sig : Bool} (h : Midway q xs ⟨c :: cs, .advance, d, sig⟩) :
    Midway (q.advance c) xs ⟨c :: cs, .count, d, sig⟩ := by
  cases c with
  | put v =>
      obtain ⟨front, hrep⟩ := h
      exact ⟨front, hrep.advance_put⟩
  | get =>
      obtain ⟨⟨front, hrep⟩, ys, rfl⟩ := h
      refine ⟨ys, (front + 1) % capacity, rfl, hrep.advance_get.congr ?_⟩
      rw [Nat.mod_add_mod, List.length_cons, Nat.add_assoc, Nat.add_comm 1]

/-- At the end of a critical section the queue represents the values again: one more of them was put,
or the first one was taken. -/
theorem midway_count {q : Queue capacity} {xs : List Int} {es : List (Event ι)} {k : ι} {c : Call}
    {cs : List Call} {d : Int} {sig : Bool} (h : Midway q xs ⟨c :: cs, .count, d, sig⟩)
    (hxs : puts es = gots es ++ xs) :
    ∃ ys, puts (es ++ [c.event k d]) = gots (es ++ [c.event k d]) ++ ys ∧
      (q.count c).Represents ys := by
  cases c with
  | put v =>
      obtain ⟨front, hrep⟩ := h
      have hlen : (xs.length : Int) + 1 = ((xs ++ [v]).length : Nat) := by simp
      refine ⟨xs ++ [v], ?_, front, ?_⟩
      · have hputs : puts (es ++ [Call.event k d (.put v)]) = puts es ++ [v] := by
          simp [puts, Call.event]
        have hgots : gots (es ++ [Call.event k d (.put v)]) = gots es := by
          simp [gots, Call.event]
        rw [hputs, hgots, hxs, List.append_assoc]
      · rw [← hlen, List.length_append, List.length_singleton, ← Nat.add_assoc]
        exact hrep.count_put
  | get =>
      obtain ⟨ys, front, rfl, hrep⟩ := h
      have hlen : (((d :: ys).length : Nat) : Int) - 1 = (ys.length : Nat) := by simp
      refine ⟨ys, ?_, front, ?_⟩
      · have hputs : puts (es ++ [Call.event k d .get]) = puts es := by
          simp [puts, Call.event]
        have hgots : gots (es ++ [Call.event k d .get]) = gots es ++ [d] := by
          simp [gots, Call.event]
        rw [hputs, hgots, hxs, List.append_assoc, List.singleton_append]
      · rw [← hlen]
        exact hrep.count_get

/-! ## Every run -/

/-- The lock is kept, and the queue holds what was put and not taken. -/
def Inv (es : List (Event ι)) (s : State ι capacity) : Prop :=
  Locked s ∧ ∃ xs, puts es = gots es ++ xs ∧ Consistent s xs

/-- The invariant holds at the start. -/
theorem inv_init (hcap : 0 < capacity) (data : Fin capacity → Int) (calls : ι → List Call) :
    Inv [] (State.init data calls) :=
  ⟨locked_init data calls, [], rfl, qinit_represents hcap data⟩

section consistent

variable {s : State ι capacity} {xs : List Int}

/-- Who has the lock is in the middle of its call. -/
theorem Consistent.of_owner {k : ι} {t : Thread} (h : Consistent s xs) (howner : s.owner = some k)
    (ht : s.thread k = t) : Midway s.queue xs t := by
  unfold Consistent at h
  rw [howner] at h
  exact ht ▸ h

/-- When nobody has it the queue holds its elements. -/
theorem Consistent.of_free (h : Consistent s xs) (howner : s.owner = none) :
    s.queue.Represents xs := by
  unfold Consistent at h
  rwa [howner] at h

variable [DecidableEq ι] {k : ι} {t : Thread} {q : Queue capacity}

/-- The thread inside does a step. -/
theorem consistent_of_midway (howner : s.owner = some k) (h : Midway q xs t) :
    Consistent { s.set k t with queue := q } xs := by
  unfold Consistent
  simp only [State.set_owner, howner, State.set_thread, Function.update_self]
  exact h

/-- A thread outside changes its stage. -/
theorem Consistent.of_outside (h : Consistent s xs) (hne : s.owner ≠ some k) :
    Consistent (s.set k t) xs := by
  unfold Consistent at h ⊢
  rw [State.set_owner]
  cases howner : s.owner with
  | none =>
      rw [howner] at h
      exact h
  | some j =>
      rw [howner] at h hne
      have hjk : j ≠ k := fun heq => hne (congrArg some heq)
      simpa [Function.update_of_ne hjk] using h

end consistent

variable [DecidableEq ι]

/-- Every step keeps the invariant. -/
theorem Step.inv {s s' : State ι capacity} {e : Event ι} {es : List (Event ι)} (h : Step s e s')
    (hinv : Inv es s) : Inv (es ++ [e]) s' := by
  obtain ⟨hlocked, xs, hxs, hcons⟩ := hinv
  refine ⟨h.locked hlocked, ?_⟩
  -- all steps but `count` put and take nothing
  have hsame : ∀ k : ι, puts (es ++ [.internal k]) = gots (es ++ [.internal k]) ++ xs := by
    intro k
    rw [puts_snoc_internal, gots_snoc_internal, hxs]
  cases h with
  | @lock k c cs d sig ht howner | @relock k c cs d sig ht howner =>
      refine ⟨xs, hsame k, ?_⟩
      have hrep := hcons.of_free howner
      simpa [Consistent, Midway] using hrep
  | @wait k c cs d sig ht hblocked =>
      exact ⟨xs, hsame k, hcons.of_owner (hlocked.inside ht rfl) ht⟩
  | @pass k c cs d sig ht hfree =>
      have howner := hlocked.inside ht rfl
      have hrep : s.queue.Represents xs := hcons.of_owner howner ht
      exact ⟨xs, hsame k, consistent_of_midway howner (midway_pass hrep hfree cs d sig)⟩
  | @access k c cs d d' sig q ht hq =>
      have howner := hlocked.inside ht rfl
      have hmid := hcons.of_owner howner ht
      exact ⟨xs, hsame k, consistent_of_midway howner (midway_access hmid hq)⟩
  | @advance k c cs d sig ht =>
      have howner := hlocked.inside ht rfl
      have hmid := hcons.of_owner howner ht
      exact ⟨xs, hsame k, consistent_of_midway howner (midway_advance hmid)⟩
  | @count k c cs d sig ht =>
      have howner := hlocked.inside ht rfl
      have hmid := hcons.of_owner howner ht
      obtain ⟨ys, hys, hrep⟩ := midway_count (k := k) hmid hxs
      exact ⟨ys, hys, consistent_of_midway howner hrep⟩
  | @signal k j c c' cs cs' d d' sig sig' ht hj hcond =>
      have howner := hlocked.inside ht rfl
      have hrep : s.queue.Represents xs := hcons.of_owner howner ht
      have hjk : j ≠ k := by
        rintro rfl
        rw [ht] at hj
        cases hj
      have hk : Consistent (s.set k ⟨c :: cs, .unlock, d, sig⟩) xs :=
        consistent_of_midway howner hrep
      refine ⟨xs, hsame k, hk.of_outside ?_⟩
      rw [State.set_owner, howner]
      exact fun heq => hjk (Option.some.inj heq).symm
  | @signalNobody k c cs d sig ht hnobody =>
      have howner := hlocked.inside ht rfl
      have hrep : s.queue.Represents xs := hcons.of_owner howner ht
      exact ⟨xs, hsame k, consistent_of_midway howner hrep⟩
  | @unlock k c cs d sig ht =>
      exact ⟨xs, hsame k, hcons.of_owner (hlocked.inside ht rfl) ht⟩
  | @spurious k c cs d sig ht =>
      refine ⟨xs, hsame k, hcons.of_outside ?_⟩
      intro howner
      have hin := (hlocked k).mp howner
      rw [ht] at hin
      cases hin

/-- **The bounded queue is a FIFO.** In every state of every run the values taken are a prefix of the
values put. When the lock is free, the indices and the length are in their bounds, and the cells from
`get_index` on hold the values that were put and not yet taken, in the order they were put. -/
theorem fifo {data : Fin capacity → Int} {calls : ι → List Call} {es : List (Event ι)}
    {s : State ι capacity} (hcap : 0 < capacity) (h : Run Step (State.init data calls) es s) :
    gots es <+: puts es ∧
      (s.owner = none →
        (0 ≤ s.queue.length ∧ s.queue.length ≤ capacity) ∧
        (0 ≤ s.queue.putIndex ∧ s.queue.putIndex < capacity) ∧
        (0 ≤ s.queue.getIndex ∧ s.queue.getIndex < capacity) ∧
        s.queue.putIndex = (s.queue.getIndex + s.queue.length) % capacity ∧
        ∃ xs, puts es = gots es ++ xs ∧ s.queue.length = (xs.length : Nat) ∧
          ∀ i, i < xs.length → rd s.queue.data ((s.queue.getIndex + (i : Nat)) % capacity) = xs[i]?) := by
  obtain ⟨-, xs, hxs, hcons⟩ : Inv es s :=
    h.history Inv (fun _ _ _ _ hinv hstep => hstep.inv hinv) (inv_init hcap data calls)
  refine ⟨⟨xs, hxs.symm⟩, ?_⟩
  intro hfree
  obtain ⟨front, hrep⟩ := hcons.of_free hfree
  have hlt := Nat.mod_lt (front + xs.length) hcap
  have hfront := hrep.ring.lt
  have hle := hrep.ring.le
  rw [hrep.length, hrep.putIndex, hrep.getIndex]
  refine ⟨by omega, by omega, by omega, by push_cast; rfl, xs, hxs, rfl, ?_⟩
  intro i hi
  have hcell := hrep.ring.cells i hi
  rw [← hcell]
  push_cast
  rfl

/-- The steps of a call that waits for nothing. -/
def smoothCall {κ : Type} (k : κ) (e : Event κ) : List (Event κ) :=
  List.replicate 4 (.internal k) ++ e :: List.replicate 2 (.internal k)

/-- Two elements are put into a ring of two cells, one is taken, and the third one goes to its cell. -/
def wrapAround {κ : Type} (producer consumer : κ) : List (Event κ) :=
  smoothCall producer (.put producer 0) ++ smoothCall producer (.put producer 1) ++
    smoothCall consumer (.got consumer 0) ++ smoothCall producer (.put producer 2)

/-- The third element is in the first cell. -/
theorem fifo_wrapAround : ∃ (s : State (Fin 2) 2) (es : List (Event (Fin 2))),
    Run Step (State.init (fun _ => 7) ![produce 3, consume 3]) es s ∧ es = wrapAround 0 1 ∧
      (s.owner = none ∧ s.queue.data 0 = 2) ∧
      gots es <+: puts es ∧
      (s.owner = none →
        (0 ≤ s.queue.length ∧ s.queue.length ≤ (2 : Nat)) ∧
        (0 ≤ s.queue.putIndex ∧ s.queue.putIndex < (2 : Nat)) ∧
        (0 ≤ s.queue.getIndex ∧ s.queue.getIndex < (2 : Nat)) ∧
        s.queue.putIndex = (s.queue.getIndex + s.queue.length) % (2 : Nat) ∧
        ∃ xs, puts es = gots es ++ xs ∧ s.queue.length = (xs.length : Nat) ∧
          ∀ i, i < xs.length →
            rd s.queue.data ((s.queue.getIndex + (i : Nat)) % (2 : Nat)) = xs[i]?) := by
  have h : (exec step (State.init (fun _ => 7) ![produce 3, consume 3] : State (Fin 2) 2)
      ((List.replicate 14 (.run 0) ++ List.replicate 7 (.run 1)) ++ List.replicate 7 (.run 0))).map
        (fun p => (p.2, decide (p.1.owner = none ∧ p.1.queue.data 0 = 2))) =
      some (wrapAround 0 1, true) := by
    decide +kernel
  obtain ⟨⟨s, es⟩, hexec, heq⟩ := Option.map_eq_some_iff.mp h
  obtain ⟨rfl, hlast⟩ := Prod.mk.inj heq
  have hrun := exec_run step_sound _ hexec
  exact ⟨s, _, hrun, rfl, of_decide_eq_true hlast, fifo (by decide) hrun⟩

end SystemProgrammingLab.Week15
