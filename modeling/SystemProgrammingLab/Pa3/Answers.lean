import SystemProgrammingLab.Found.Progress
import SystemProgrammingLab.Pa3.Locking
import Mathlib.Algebra.BigOperators.Group.Finset.Basic

/-!
# The server answers every query

The work of the pool is what is left of the queries that its threads answer (`Pool.work`). A query adds
771 to it at most, a statement and a reply take something away, and as long as there is some, a thread has
a turn (`Disciplined.exists_turn`). So the threads come to an end with the queries that they have, in
whatever order they are given their turns, and then each connection has got one reply for each of its
queries, in their order (`answers_all`).

Source: `pa3/pa3_server.c`, `handle_query`, `client_handler`
-/

namespace SystemProgrammingLab.Pa3.Pool

open SystemProgrammingLab.Found

/-! ## The queries of a connection -/

/-- The query of the connection that the event reads. -/
def Event.asked? (k : Nat) : Event → Option Query
  | .query j q => if j = k then some q else none
  | _ => none

/-- The query of the connection that the event answers. -/
def Event.answered? (k : Nat) : Event → Option Query
  | .reply j q _ => if j = k then some q else none
  | _ => none

/-- The queries that the connection has sent. -/
def asked (k : Nat) (es : List Event) : List Query := es.filterMap (Event.asked? k)

/-- The queries of the connection that were answered. -/
def answered (k : Nat) (es : List Event) : List Query := es.filterMap (Event.answered? k)

/-- The queries of a connection, one event later. -/
theorem asked_snoc (k : Nat) (es : List Event) (e : Event) :
    asked k (es ++ [e]) = asked k es ++ (e.asked? k).toList := by
  unfold asked
  rw [List.filterMap_append]
  cases h : e.asked? k <;> simp [h]

/-- The queries that were answered, one event later. -/
theorem answered_snoc (k : Nat) (es : List Event) (e : Event) :
    answered k (es ++ [e]) = answered k es ++ (e.answered? k).toList := by
  unfold answered
  rw [List.filterMap_append]
  cases h : e.answered? k <;> simp [h]

/-- The query that the thread answers. -/
def open? (s : Pool) (k : Nat) : Option Query :=
  (s.handler k).bind fun h => h.task.map Prod.fst

/-- No query is open exactly when the thread answers none. -/
theorem open?_eq_none {s : Pool} {k : Nat} : s.open? k = none ↔ ¬ s.Answering k := by
  unfold open? Answering
  rcases s.handler k with _ | ⟨w, _ | t⟩ <;> simp

/-- Only the last query of a connection is not answered yet. -/
def Ordered (es : List Event) (s : Pool) : Prop :=
  ∀ k, asked k es = answered k es ++ (s.open? k).toList

section steps

variable {s s' : Pool} {es : List Event} {e : Event} {k : Nat} {held : Nat → Option Int}

/-- A step of the thread of connection `k`. -/
theorem Ordered.set (h : Ordered es s) (hs' : ∀ j, j ≠ k → s'.handler j = s.handler j)
    (hasked : ∀ j, j ≠ k → e.asked? j = none) (hanswered : ∀ j, j ≠ k → e.answered? j = none)
    (hk : (s.open? k).toList ++ (e.asked? k).toList = (e.answered? k).toList ++ (s'.open? k).toList) :
    Ordered (es ++ [e]) s' := by
  intro j
  rw [asked_snoc, answered_snoc, h j]
  by_cases hj : j = k
  · subst hj
    rw [List.append_assoc, List.append_assoc, hk]
  · have hopen : s'.open? j = s.open? j := by
      unfold open?
      rw [hs' j hj]
    rw [hasked j hj, hanswered j hj, hopen, Option.toList_none, List.append_nil, List.append_nil]

/-- Every step keeps the order of the answers. -/
theorem Ordered.step (h : Ordered es s) (hs : Disciplined s held) (hstep : Step s e s') :
    Ordered (es ++ [e]) s' := by
  have hother : ∀ (k : Nat) (new : Option Handler) (j : Nat), j ≠ k →
      (s.setHandler k new).handler j = s.handler j := fun _ _ _ hj => Function.update_of_ne hj _ _
  have hself : ∀ (k : Nat) (new : Option Handler), (s.setHandler k new).handler k = new :=
    fun _ _ => Function.update_self ..
  have hne : ∀ {k j : Nat} {q : Query}, j ≠ k → (if k = j then some q else none) = none :=
    fun hj => if_neg (Ne.symm hj)
  cases hstep with
  | accept hnonneg hfree =>
      refine h.set (hother s.accepted _) (fun _ _ => rfl) (fun _ _ => rfl) ?_
      simp [open?, Event.asked?, Event.answered?, hs.fresh _ (Nat.le_refl _)]
  | @query k socket q hk =>
      refine h.set (hother k _) (fun _ hj => hne hj) (fun _ _ => rfl) ?_
      simp [open?, Event.asked?, Event.answered?, hk]
  | @stmt k socket q a next v t hk hexec =>
      refine h.set (k := k) (fun _ hj => Function.update_of_ne hj _ _) (fun _ _ => rfl)
        (fun _ _ => rfl) ?_
      simp [open?, Event.asked?, Event.answered?, hk]
  | @reply k socket q r hk =>
      refine h.set (hother k _) (fun _ _ => rfl) (fun _ hj => hne hj) ?_
      have hafter : (afterReply socket q).bind (fun h => h.task.map Prod.fst) = none := by
        unfold afterReply
        split_ifs <;> rfl
      simp [open?, Event.asked?, Event.answered?, hk, hafter]
  | @eof k socket hk =>
      refine h.set (hother k _) (fun _ _ => rfl) (fun _ _ => rfl) ?_
      simp [open?, Event.asked?, Event.answered?, hk]

/-! ## The work -/

/-- What is left for the thread: its statements, and the reply. -/
noncomputable def Handler.left (h : Option Handler) : Nat :=
  match h with
  | some ⟨_, some (_, p)⟩ => p.len + 1
  | _ => 0

/-- What is left for all threads. -/
noncomputable def work (s : Pool) : Nat := ∑ k ∈ Finset.range s.accepted, Handler.left (s.handler k)

/-- The work that is left when a thread goes on. -/
theorem work_set (hk : k < s.accepted) (new : Option Handler) :
    (s.setHandler k new).work + Handler.left (s.handler k) = s.work + Handler.left new := by
  have hmem : k ∈ Finset.range s.accepted := Finset.mem_range.mpr hk
  have hrest : ∑ j ∈ (Finset.range s.accepted).erase k, Handler.left ((s.setHandler k new).handler j) =
      ∑ j ∈ (Finset.range s.accepted).erase k, Handler.left (s.handler j) := by
    refine Finset.sum_congr rfl fun j hj => ?_
    rw [setHandler_handler, Function.update_of_ne (Finset.ne_of_mem_erase hj)]
  have hnew := Finset.add_sum_erase _ (fun j => Handler.left ((s.setHandler k new).handler j)) hmem
  have hold := Finset.add_sum_erase _ (fun j => Handler.left (s.handler j)) hmem
  have hself : Handler.left ((s.setHandler k new).handler k) = Handler.left new := by
    rw [setHandler_handler, Function.update_self]
  unfold work
  rw [setHandler_accepted]
  omega

/-- What an event brings: a query its statements and the reply. The 1 is for the event. -/
def Event.cost : Event → Nat
  | .query _ _ => 772
  | .accept _ _ | .eof _ => 1
  | .stmt _ _ | .reply _ _ _ => 0

/-- A step does some of the work, or brings the work of a query. -/
theorem Disciplined.work_step (hs : Disciplined s held) (hstep : Step s e s') :
    s'.work + 1 ≤ s.work + e.cost := by
  cases hstep with
  | @accept socket hnonneg hfree =>
      have hrest : ∑ k ∈ Finset.range s.accepted,
          Handler.left (Function.update s.handler s.accepted (some ⟨socket, none⟩) k) = s.work := by
        refine Finset.sum_congr rfl fun k hk => ?_
        rw [Function.update_of_ne (Nat.ne_of_lt (Finset.mem_range.mp hk))]
      have hself : Handler.left (Function.update s.handler s.accepted (some ⟨socket, none⟩) s.accepted) =
          0 := by
        rw [Function.update_self]
        rfl
      have hsum := Finset.sum_range_succ
        (fun k => Handler.left (Function.update s.handler s.accepted (some ⟨socket, none⟩) k)) s.accepted
      rw [hrest, hself] at hsum
      exact Nat.le_of_eq (congrArg (· + 1) hsum)
  | @query k socket q hk =>
      have hset := work_set (hs.lt_accepted hk) (some ⟨socket, some (q, Code.handleQuery socket q)⟩)
      rw [hk] at hset
      have hlen := (Code.within_handleQuery socket q).len_le
      simp only [Handler.left, Event.cost] at hset ⊢
      omega
  | @stmt k socket q a next v t hk hexec =>
      have hset := work_set (hs.lt_accepted hk) (some ⟨socket, some (q, next v)⟩)
      rw [hk] at hset
      have hlen := ((hs.busy k socket q _ hk).2.len_next v).2
      simp only [Handler.left] at hset
      show (s.setHandler k _).work + 1 ≤ _
      simp only [Event.cost]
      omega
  | @reply k socket q r hk =>
      have hset := work_set (hs.lt_accepted hk) (afterReply socket q)
      have hafter : Handler.left (afterReply socket q) = 0 := by
        unfold afterReply
        split_ifs <;> rfl
      rw [hk, hafter] at hset
      simp only [Handler.left, Event.cost] at hset ⊢
      omega
  | @eof k socket hk =>
      have hset := work_set (hs.lt_accepted hk) none
      rw [hk] at hset
      simp only [Handler.left, Event.cost] at hset ⊢
      omega

/-- The events that read a query. -/
def Event.query? : Event → Bool
  | .query _ _ => true
  | _ => false

/-- The work of all queries. -/
theorem sum_cost (es : List Event) :
    (es.map Event.cost).sum + es.countP Event.turn? = es.length + 771 * es.countP Event.query? := by
  induction es with
  | nil => rfl
  | cons e es ih =>
      rw [List.map_cons, List.sum_cons, List.countP_cons, List.countP_cons, List.length_cons]
      cases e <;> simp only [Event.cost, Event.turn?, Event.query?, if_true, if_false,
        Bool.false_eq_true] <;> omega

/-- A turn brings no query. -/
theorem knownQueries_of_turn (h : e.turn?) : KnownQueries s e := by
  cases e with
  | query => cases h
  | _ => trivial

/-- A turn costs nothing. -/
theorem Event.cost_of_turn (h : e.turn?) : e.cost = 0 := by
  cases e with
  | stmt | reply => rfl
  | _ => cases h

/-- A turn asks nothing. -/
theorem asked?_of_turn (k : Nat) (h : e.turn?) : e.asked? k = none := by
  cases e with
  | query => cases h
  | _ => rfl

/-- A turn is a step of a run with known queries. -/
theorem Turn.known (h : Turn s e s') : Guarded Step KnownQueries s e s' :=
  ⟨h.1, knownQueries_of_turn h.2⟩

/-- In every run the answers are in order. -/
theorem ordered_of_run (h : Run (Guarded Step KnownQueries) init es s) :
    (∃ held, Disciplined s held) ∧ Ordered es s := by
  refine h.history (fun es s => (∃ held, Disciplined s held) ∧ Ordered es s) ?_
    ⟨⟨_, disciplined_init⟩, fun _ => rfl⟩
  rintro es s e s' ⟨⟨held, hs⟩, horder⟩ hstep
  exact ⟨hs.step hstep.1 hstep.2, horder.step hs hstep.1⟩

/-- The turns that were taken and what is left. -/
theorem turns_le (h : Run (Guarded Step KnownQueries) init es s) :
    es.countP Event.turn? + s.work ≤ 771 * es.countP Event.query? := by
  have hle := (h.measure_le (fun s => ∃ held, Disciplined s held) work Event.cost
    (fun _ _ _ ⟨_, hs⟩ hstep => ⟨hs.step hstep.1 hstep.2, hs.work_step hstep.1⟩)
    ⟨_, disciplined_init⟩).2
  have hinit : init.work = 0 := rfl
  have hsum := sum_cost es
  omega

end steps

/-- **The server answers every query.** The turns of the threads are at most 771 for each query that was
read. From every state that is reached, the threads can be given their turns until none of them has one,
and they are at an end with this after finitely many, whatever the order. Then no thread is answering, no
lock is taken, and the queries of each connection are the ones that it was answered, in this order. -/
theorem answers_all {es : List Event} {s : Pool} (h : Run (Guarded Step KnownQueries) init es s) :
    es.countP Event.turn? ≤ 771 * es.countP Event.query? ∧
      (∃ es' s', Run Turn s es' s' ∧ Final Turn s') ∧
      ∀ es' s', Run Turn s es' s' →
        es.countP Event.turn? + es'.length ≤ 771 * es.countP Event.query? ∧
          (Final Turn s' → (∀ k, ¬ s'.Answering k ∧ answered k (es ++ es') = asked k es) ∧
            ∀ i, ¬ s'.tables.Taken i) := by
  have hbound := turns_le h
  obtain ⟨⟨held, hs⟩, -⟩ := ordered_of_run h
  have hdrop : ∀ s e s', (∃ held, Disciplined s held) → Turn s e s' →
      (∃ held, Disciplined s' held) ∧ s'.work + 1 ≤ s.work := by
    rintro s e s' ⟨held, hs⟩ hturn
    refine ⟨hs.step hturn.1 hturn.known.2, ?_⟩
    have hle := hs.work_step hturn.1
    rwa [Event.cost_of_turn hturn.2] at hle
  refine ⟨Nat.le_of_add_right_le hbound, exists_final _ work hdrop ⟨held, hs⟩, ?_⟩
  intro es' s' hturns
  have hlen := hturns.length_le _ work hdrop ⟨held, hs⟩
  refine ⟨by omega, fun hfinal => ?_⟩
  have hrun : Run (Guarded Step KnownQueries) init (es ++ es') s' :=
    run_append_iff.mpr ⟨s, h, hturns.mono fun _ _ _ hturn => hturn.known⟩
  obtain ⟨⟨held', hs'⟩, horder⟩ := ordered_of_run hrun
  have hidle : ∀ k, ¬ s'.Answering k := by
    intro k hk
    obtain ⟨e, s'', hturn⟩ := hs'.exists_turn hk
    exact hfinal e s'' hturn
  refine ⟨fun k => ⟨hidle k, ?_⟩, hs'.free hidle⟩
  have hnone : asked k es' = [] :=
    List.filterMap_eq_nil_iff.mpr fun e he => asked?_of_turn k (hturns.forall_mem (fun _ _ _ ht => ht.2) e he)
  have hk := horder k
  rw [open?_eq_none.mpr (hidle k), Option.toList_none, List.append_nil] at hk
  rw [← hk]
  unfold asked at hnone ⊢
  rw [List.filterMap_append, hnone, List.append_nil]

/-- The run of `only_race_bookAndCancel`: both clients are in the middle of a query. -/
theorem answers_all_bookAndCancel : ∃ s es, Run (Guarded Step KnownQueries) init es s ∧
    s.Answering 0 ∧ s.Answering 1 ∧
    es.countP Event.turn? ≤ 771 * es.countP Event.query? ∧
      (∃ es' s', Run Turn s es' s' ∧ Final Turn s') ∧
      ∀ es' s', Run Turn s es' s' →
        es.countP Event.turn? + es'.length ≤ 771 * es.countP Event.query? ∧
          (Final Turn s' → (∀ k, ¬ s'.Answering k ∧ answered k (es ++ es') = asked k es) ∧
            ∀ i, ¬ s'.tables.Taken i) := by
  have h : ((exec (guarded step KnownQueries) init bookAndCancel).map
      fun p => (p.1.open? 0, p.1.open? 1)) = some (some ⟨1, 2, 3⟩, some ⟨2, 4, 3⟩) := by
    decide +kernel
  obtain ⟨⟨s, es⟩, hexec, heq⟩ := Option.map_eq_some_iff.mp h
  obtain ⟨h₀, h₁⟩ := Prod.mk.inj heq
  have hanswering : ∀ {k : Nat} {q : Query}, s.open? k = some q → s.Answering k := by
    intro k q hk
    by_contra hnot
    rw [open?_eq_none.mpr hnot] at hk
    cases hk
  have hrun := exec_run (guarded_sound step_sound) bookAndCancel hexec
  exact ⟨s, es, hrun, hanswering h₀, hanswering h₁, answers_all hrun⟩

end SystemProgrammingLab.Pa3.Pool
