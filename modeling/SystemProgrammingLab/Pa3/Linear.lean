import SystemProgrammingLab.Pa3.Atomic

/-!
# The locks make the queries atomic

Every run of the interleaved threads is a run of `System` with the same replies (`linearizable`): between
reading a query and writing its reply there is a moment at which the query takes effect as a whole.
`confirm_booking` is no exception, since its iterations are steps of their own in `System`. So what is
shown of the runs of `System` holds of the threads, statement by statement.

There are three conditions on the runs (`Calm`). A socket is not 0, the number that stands for no session.
Client 0, whose number marks a free seat, does not cancel: between the check that the seat is taken and
the one under the lock it may become free. And two logins for one client do not overlap (`LoginRace` is
about those that do).

Source: `pa3/pa3_server.c`
-/

namespace SystemProgrammingLab.Pa3.Linear

open SystemProgrammingLab.Found

/-! ## Every run -/

/-- The client that the thread is logging in. -/
def client? (h : Handler) : Option Int :=
  match h.task with
  | some (q, _) => if q.action = 1 then some q.user else none
  | none => none

/-- The conditions on a run: no connection is on socket 0, client 0 cancels nothing, and a login for a
client begins when no other one for it goes on. -/
def Calm (s : Pool) : Pool.Event → Prop
  | .accept _ socket => socket ≠ 0
  | .query _ q => (q.action = 4 → q.user ≠ 0) ∧
      (q.action = 1 → ∀ j < s.accepted, ∀ h ∈ s.handler j, client? h ≠ some q.user)
  | _ => True

instance (s : Pool) : (e : Pool.Event) → Decidable (Calm s e)
  | .accept _ socket => inferInstanceAs (Decidable (socket ≠ 0))
  | .query _ q => inferInstanceAs (Decidable ((q.action = 4 → q.user ≠ 0) ∧
      (q.action = 1 → ∀ j < s.accepted, ∀ h ∈ s.handler j, client? h ≠ some q.user)))
  | .stmt _ _ | .reply _ _ _ | .eof _ => inferInstanceAs (Decidable True)

/-- A thread and its connection in `System`. -/
inductive Matches (x : View) (k : Nat) : Option Handler → Prop
  | none (hconn : x.2.sys.conn k = none) (hstatus : x.2.status k = .idle) : Matches x k none
  | idle (w : Int) (hw : w ≠ 0) (hconn : x.2.sys.conn k = some ⟨w, .idle⟩)
      (hstatus : x.2.status k = .idle) : Matches x k (some ⟨w, none⟩)
  | busy (w : Int) (hw : w ≠ 0) (q : Query) (p : Code Reply)
      (hconn : ∀ c, x.2.sys.conn k = some c → c.socket = w)
      (hstatus : x.2.status k = .called q ∨ ∃ r, x.2.status k = .answered q r)
      (hsafe : p.Safe Stmt.exec (Rely k w) (Guar k w) (Post k w q) x) :
      Matches x k (some ⟨w, some (q, p)⟩)

/-- The marks of a run end in the ghost, and the ghost belongs to the state. -/
structure Linked (s : Pool) (ms : List Mark) (g : Ghost) : Prop where
  run : Run Step Sys.init (effects ms) g.sys
  status : ∀ k, Pa3.status k ms = some (g.status k)
  inv : Inv (s.tables, g)
  accepted : g.sys.accepted = s.accepted
  fresh : ∀ k, s.accepted ≤ k → s.handler k = none
  distinct : ∀ j k h h', s.handler j = some h → s.handler k = some h' → h.socket = h'.socket → j = k
  handlers : ∀ k, Matches (s.tables, g) k (s.handler k)

/-! ### The steps -/

section steps

variable {s s' : Pool} {ms : List Mark} {g : Ghost} {x y : View} {k : Nat} {w : Int}

/-- A step that changes nothing but another connection. -/
theorem rely_of_same (hinv : Inv y) (ht : y.1 = x.1) (hserver : y.2.sys.server = x.2.sys.server)
    (hholder : y.2.holder = x.2.holder) (hreg : y.2.registering = x.2.registering)
    (hconn : y.2.sys.conn k = x.2.sys.conn k) (hstatus : y.2.status k = x.2.status k) : Rely k w x y where
  inv := fun _ => hinv
  status := hstatus
  conn := hconn
  session := fun u => by rw [ht]
  holder := fun i => by rw [hholder]
  seat := fun i _ => by rw [ht]
  login := fun u _ => by
    rw [ht, hserver, hreg]
    exact ⟨rfl, rfl, rfl, id⟩

/-- The thread of another connection. -/
theorem Matches.of_rely {h : Option Handler} (hm : Matches x k h)
    (hconn : y.2.sys.conn k = x.2.sys.conn k) (hstatus : y.2.status k = x.2.status k)
    (hrely : ∀ hd ∈ h, Rely k hd.socket x y) : Matches y k h := by
  cases hm with
  | none hc hs => exact .none (hconn.trans hc) (hstatus.trans hs)
  | idle w hw hc hs => exact .idle w hw (hconn.trans hc) (hstatus.trans hs)
  | busy w hw q p hc hs hsafe =>
      refine .busy w hw q p (fun c hk => hc c (hconn.symm.trans hk)) ?_ ?_
      · rw [hstatus]
        exact hs
      · exact hsafe.stable (fun _ _ _ h h' => h.trans h') (hrely _ rfl)

/-- A connection of `System` is that of a thread. -/
theorem Matches.socket {h : Option Handler} (hm : Matches x k h) {c : Conn}
    (hc : x.2.sys.conn k = some c) : ∃ hd, h = some hd ∧ hd.socket = c.socket := by
  cases hm with
  | none hconn hs =>
      rw [hconn] at hc
      cases hc
  | idle w hw hconn hs =>
      rw [hconn] at hc
      cases hc
      exact ⟨_, rfl, rfl⟩
  | busy w hw q p hconn hs hsafe => exact ⟨_, rfl, (hconn c hc).symm⟩

/-- The socket of a thread is not 0. -/
theorem Matches.ne_zero {hd : Handler} (hm : Matches x k (some hd)) : hd.socket ≠ 0 := by
  cases hm with
  | idle w hw => exact hw
  | busy w hw => exact hw

/-- A query that was read is the one that its thread answers. -/
theorem Matches.called {h : Option Handler} (hm : Matches x k h) {q : Query}
    (hq : x.2.status k = .called q) : ∃ w p, h = some ⟨w, some (q, p)⟩ := by
  cases hm with
  | none hc hs =>
      rw [hs] at hq
      cases hq
  | idle w hw hc hs =>
      rw [hs] at hq
      cases hq
  | busy w hw q' p hc hs hsafe =>
      rcases hs with hs | ⟨r, hs⟩
      · rw [hs] at hq
        cases hq
        exact ⟨w, p, rfl⟩
      · rw [hs] at hq
        cases hq

/-- What a mark of `System` makes of the status of a query. -/
theorem status_of_next {st st' : Status} {e : Event} {q : Query}
    (h : st.next k (.inr e) = some st') (hst : st = .called q ∨ ∃ r, st = .answered q r) :
    st' = .called q ∨ ∃ r, st' = .answered q r := by
  rcases hst with rfl | ⟨r, rfl⟩
  · cases e with
    | accept | eof =>
        cases h
        exact .inl rfl
    | reply j q' r =>
        simp only [Status.next] at h
        split_ifs at h with hj hq
        · cases h
          cases hq
          exact .inr ⟨r, rfl⟩
        · cases h
          exact .inl rfl
    | confirmStart j u | confirmSeat j i =>
        simp only [Status.next] at h
        split_ifs at h
        · cases h
          exact .inl rfl
        · cases h
          exact .inl rfl
  · cases e with
    | accept | eof =>
        cases h
        exact .inr ⟨r, rfl⟩
    | reply j q' r' =>
        simp only [Status.next] at h
        split_ifs at h with hj hq
        · cases hq
        · cases h
          exact .inr ⟨r, rfl⟩
    | confirmStart j u | confirmSeat j i =>
        simp only [Status.next] at h
        split_ifs at h
        cases h
        exact .inr ⟨r, rfl⟩

/-- The thread of a live connection changes, and keeps its socket. -/
theorem Linked.distinct_set (h : Linked s ms g) {hd : Handler} (hk : s.handler k = some hd)
    {new : Option Handler} (hnew : ∀ h' ∈ new, h'.socket = hd.socket) :
    ∀ i j h₁ h₂, (s.setHandler k new).handler i = some h₁ → (s.setHandler k new).handler j = some h₂ →
      h₁.socket = h₂.socket → i = j := by
  have hold : ∀ i h', (s.setHandler k new).handler i = some h' →
      ∃ h₀, s.handler i = some h₀ ∧ h₀.socket = h'.socket := by
    intro i h' hi
    rcases Pool.handler_of_set hi with ⟨rfl, hsome⟩ | ⟨-, hi⟩
    · exact ⟨hd, hk, (hnew h' hsome).symm⟩
    · exact ⟨h', hi, rfl⟩
  intro i j h₁ h₂ hi hj heq
  obtain ⟨h₁', hi', hs₁⟩ := hold i h₁ hi
  obtain ⟨h₂', hj', hs₂⟩ := hold j h₂ hj
  exact h.distinct i j h₁' h₂' hi' hj' (hs₁.trans (heq.trans hs₂.symm))

/-- A thread belongs to an accepted connection. -/
theorem Linked.lt_accepted (h : Linked s ms g) {hd : Handler} (hk : s.handler k = some hd) :
    k < s.accepted := by
  by_contra hlt
  rw [h.fresh k (Nat.le_of_not_lt hlt)] at hk
  cases hk

/-- There are no threads of later connections. -/
theorem Linked.fresh_set (h : Linked s ms g) {hd : Handler} (hk : s.handler k = some hd)
    (new : Option Handler) : ∀ j, s.accepted ≤ j → (s.setHandler k new).handler j = none := by
  intro j hj
  have hlt := h.lt_accepted hk
  rw [Pool.setHandler_handler, Function.update_of_ne (by omega)]
  exact h.fresh j hj

/-- What the step of one thread has to show: its own marks and its own thread. -/
theorem Linked.set (h : Linked s ms g) {hd : Handler} (hk : s.handler k = some hd)
    {new : Option Handler} (hnew : ∀ h' ∈ new, h'.socket = hd.socket) {t : Tables} (g' : Ghost)
    {ms' : List Mark} (hrun : Run Step Sys.init (effects (ms ++ ms')) g'.sys) (hinv : Inv (t, g'))
    (haccepted : g'.sys.accepted = g.sys.accepted)
    (hmine : ms'.foldlM (Status.next k) (g.status k) = some (g'.status k))
    (htheirs : ∀ j, j ≠ k → ms'.foldlM (Status.next j) (g.status j) = some (g'.status j) ∧
      g'.status j = g.status j ∧ g'.sys.conn j = g.sys.conn j)
    (hrely : ∀ j h', j ≠ k → s.handler j = some h' → Rely j h'.socket (s.tables, g) (t, g'))
    (hmatches : Matches (t, g') k new) :
    Linked { s.setHandler k new with tables := t } (ms ++ ms') g' where
  run := hrun
  status := by
    intro j
    rw [status_append, h.status j, Option.bind_some]
    by_cases hj : j = k
    · rw [hj]
      exact hmine
    · exact (htheirs j hj).1
  inv := hinv
  accepted := haccepted.trans h.accepted
  fresh := h.fresh_set hk new
  distinct := h.distinct_set hk hnew
  handlers := by
    intro j
    by_cases hj : j = k
    · subst hj
      show Matches (t, g') j (Function.update s.handler j new j)
      rw [Function.update_self]
      exact hmatches
    · show Matches (t, g') j (Function.update s.handler k new j)
      rw [Function.update_of_ne hj]
      exact (h.handlers j).of_rely (htheirs j hj).2.2 (htheirs j hj).2.1 fun hd' hd => hrely j hd' hj hd

/-- A query arrives, and nothing happens in `System` yet. -/
theorem Linked.query (h : Linked s ms g) {q : Query} (hk : s.handler k = some ⟨w, none⟩)
    (hcalm : Calm s (.query k q)) : ∃ ms' g', threadEvents ms' = [.query k q] ∧
      Linked (s.setHandler k (some ⟨w, some (q, Code.handleQuery w q)⟩)) (ms ++ ms') g' := by
  have hm := h.handlers k
  rw [hk] at hm
  cases hm with
  | idle _ hw hconn hstatus =>
  -- no login for the client of a login goes on
  have halone : q.action = 1 → ∀ j q', g.status j = .called q' → q'.action = 1 → q'.user ≠ q.user := by
    intro hq j q' hj hq'
    obtain ⟨w', p, hj'⟩ := (h.handlers j).called hj
    intro huser
    refine hcalm.2 hq j (h.lt_accepted hj') _ hj' ?_
    simp only [client?, if_pos hq', huser]
  have hlogin : ∀ j q', Function.update g.status k (.called q) j = .called q' →
      (j = k ∧ q' = q) ∨ (j ≠ k ∧ g.status j = .called q') := by
    intro j q' hj
    by_cases hjk : j = k
    · subst hjk
      rw [Function.update_self] at hj
      cases hj
      exact .inl ⟨rfl, rfl⟩
    · rw [Function.update_of_ne hjk] at hj
      exact .inr ⟨hjk, hj⟩
  have hinv : Inv (s.tables, { g with status := Function.update g.status k (.called q) }) := by
    refine ⟨h.inv.wf, h.inv.session, h.inv.seats, h.inv.password, h.inv.lock, ?_, ?_⟩
    · rintro i j u ⟨q₁, hi, hin₁⟩ ⟨q₂, hj, hin₂⟩
      rcases hlogin i q₁ hi with ⟨hik, rfl⟩ | ⟨-, hi'⟩ <;> rcases hlogin j q₂ hj with ⟨hjk, rfl⟩ | ⟨-, hj'⟩
      · exact hik.trans hjk.symm
      · exact absurd (hin₂.2.trans hin₁.2.symm) (halone hin₁.1 j q₂ hj' hin₂.1)
      · exact absurd (hin₁.2.trans hin₂.2.symm) (halone hin₂.1 i q₁ hi' hin₁.1)
      · exact h.inv.exclusive i j u ⟨q₁, hi', hin₁⟩ ⟨q₂, hj', hin₂⟩
    · intro u hu
      obtain ⟨j, q', hj, hin⟩ := h.inv.registering u hu
      have hjk : j ≠ k := by
        rintro rfl
        rw [hstatus] at hj
        cases hj
      exact ⟨j, q', (Function.update_of_ne hjk _ _).trans hj, hin⟩
  refine ⟨[.inl (.query k q)], _, rfl, h.set hk (by rintro _ ⟨⟩; rfl) ⟨g.sys, g.holder,
    Function.update g.status k (.called q), g.registering⟩
      (by rw [effects_snoc_inl]; exact h.run) hinv rfl ?_ ?_ ?_ ?_⟩
  · have hstatus : g.status k = .idle := hstatus
    simp [Status.next, hstatus]
  · intro j hj
    simp [Status.next, Ne.symm hj, Function.update_of_ne hj]
  · intro j h' hj _
    exact rely_of_same hinv rfl rfl rfl rfl rfl (Function.update_of_ne hj _ _)
  · refine .busy w hw q _ ?_ (.inl (Function.update_self ..)) (spec_handleQuery hw q hcalm.1 _ ?_)
    · intro c hc
      have hc : g.sys.conn k = some c := hc
      rw [show g.sys.conn k = some ⟨w, .idle⟩ from hconn] at hc
      cases hc
      rfl
    · refine ⟨⟨hinv, Function.update_self .., hconn⟩, ?_⟩
      intro u hu
      rw [← Bool.not_eq_true]
      intro hreg
      obtain ⟨j, q', hj, hin⟩ := h.inv.registering u hreg
      exact halone hu.1 j q' hj hin.1 (hin.2.trans hu.2.symm)

/-- Only accepting a connection changes how many there were. -/
theorem accepted_of_step {sys sys' : Sys} {e : Event} (h : Step sys e sys') (he : ∀ j w, e ≠ .accept j w) :
    sys'.accepted = sys.accepted := by
  cases h with
  | accept => exact absurd rfl (he _ _)
  | query | confirmRefused | confirmStart | confirmSeat | confirmEnd | eof => rfl

/-- A statement is done: in `System` nothing happens, or the query takes effect. -/
theorem Linked.stmt (h : Linked s ms g) {q : Query} {a : Stmt} {next : Int → Code Reply} {v : Int}
    {t : Tables} (hk : s.handler k = some ⟨w, some (q, .act a next)⟩)
    (hexec : a.exec s.tables = some (v, t)) : ∃ ms' g', threadEvents ms' = [.stmt k a] ∧
      Linked { s.setHandler k (some ⟨w, some (q, next v)⟩) with tables := t } (ms ++ ms') g' := by
  have hm := h.handlers k
  rw [hk] at hm
  cases hm with
  | busy _ hw _ _ hconn hstatus hsafe =>
  obtain ⟨g', ⟨hframe, es, hemits⟩, hnext⟩ := hsafe.act (Rely.refl k w) hexec
  have hrely : ∀ j h', j ≠ k → s.handler j = some h' → Rely j h'.socket (s.tables, g) (t, g') := by
    intro j h' hj hj'
    refine hframe.rely h.inv hj ?_ ?_
    · exact fun heq => hj (h.distinct j k _ _ hj' hk heq)
    · have hmj := h.handlers j
      rw [hj'] at hmj
      exact hmj.ne_zero
  have hsock : ∀ h' ∈ some (⟨w, some (q, next v)⟩ : Handler), h'.socket = w := by rintro _ ⟨⟩; rfl
  cases hemits with
  | silent hsys hst =>
      have hsys : g'.sys = g.sys := hsys
      refine ⟨[.inl (.stmt k a)], g', rfl, h.set hk hsock g' (by rw [effects_snoc_inl, hsys]; exact h.run)
        hframe.inv (by rw [hsys]) ?_ ?_ hrely (.busy w hw q _ ?_ ?_ hnext)⟩
      · exact congrArg some hst.symm
      · exact fun j hj => ⟨congrArg some (hframe.status j hj).symm, hframe.status j hj, hframe.conn j hj⟩
      · rw [show (t, g').2.sys = g.sys from hsys]
        exact hconn
      · rw [show (t, g').2.status k = g.status k from hst]
        exact hstatus
  | @event e hstep he hst hother =>
      refine ⟨[.inl (.stmt k a), .inr e], g', rfl, h.set hk hsock g' ?_ hframe.inv
        (accepted_of_step hstep he) ?_ ?_ hrely (.busy w hw q _ ?_ (status_of_next hst hstatus) hnext)⟩
      · have heffects : effects (ms ++ [.inl (.stmt k a), .inr e]) = effects ms ++ [e] :=
          effects_append ms _
        rw [heffects]
        exact h.run.snoc hstep
      · simpa [Status.next] using hst
      · intro j hj
        refine ⟨?_, hframe.status j hj, hframe.conn j hj⟩
        have hj' := hother j hj (g.status j)
        rw [← hframe.status j hj] at hj' ⊢
        simpa [Status.next] using hj'
      · intro c hc
        rcases hstep.conn_old hc with ⟨c₀, hc₀, heq⟩ | ⟨heq, -, -⟩
        · rw [← heq]
          exact hconn c₀ hc₀
        · exact absurd heq (he _ _)

/-- A connection whose query has been replied to. -/
theorem matches_afterReply {q : Query} (hw : w ≠ 0) (hstatus : x.2.status k = .idle)
    (hconn : x.2.sys.conn k = afterReply w q) : Matches x k (Pool.afterReply w q) := by
  unfold afterReply at hconn
  unfold Pool.afterReply
  split_ifs at hconn ⊢ with h0
  · exact .none hconn hstatus
  · exact .idle w hw hconn hstatus

/-- A reply is written, after it was in `System`. -/
theorem Linked.reply (h : Linked s ms g) {q : Query} {r : Reply}
    (hk : s.handler k = some ⟨w, some (q, .ret r)⟩) : ∃ ms' g', threadEvents ms' = [.reply k q r] ∧
      Linked (s.setHandler k (Pool.afterReply w q)) (ms ++ ms') g' := by
  have hm := h.handlers k
  rw [hk] at hm
  cases hm with
  | busy _ hw _ _ hconn hstatus hsafe =>
  have hsock : ∀ h' ∈ Pool.afterReply w q, h'.socket = w := by
    intro h' hh
    unfold Pool.afterReply at hh
    split_ifs at hh
    · cases hh
    · cases hh
      rfl
  have hupdate : ∀ j, j ≠ k → Function.update g.status k .idle j = g.status j :=
    fun j hj => Function.update_of_ne hj _ _
  have hlogin : ∀ j u q', Function.update g.status k .idle j = .called q' → InLogin q' u → LoggingIn g j u :=
    fun j u q' hq' hin => loggingIn_of_update .idle rfl (fun _ h => nomatch h) hq' hin
  -- in both cases the query of the connection is gone, and with it nothing that the others look at
  have hinv : ∀ sys : Sys, sys.WF → sys.server = g.sys.server →
      (∀ u, g.registering u = true → ¬ LoggingIn g k u) →
      Inv (s.tables, ⟨sys, g.holder, Function.update g.status k .idle, g.registering⟩) := by
    intro sys hwf hserver hreg
    refine ⟨hwf, ?_, ?_, ?_, h.inv.lock, ?_, ?_⟩
    · rw [hserver]
      exact h.inv.session
    · rw [hserver]
      exact h.inv.seats
    · rw [hserver]
      exact h.inv.password
    · rintro i j u ⟨q₁, hi, hin₁⟩ ⟨q₂, hj, hin₂⟩
      exact h.inv.exclusive i j u (hlogin i u q₁ hi hin₁) (hlogin j u q₂ hj hin₂)
    · intro u hu
      obtain ⟨j, q', hj, hin⟩ := h.inv.registering u hu
      have hjk : j ≠ k := by
        rintro rfl
        exact hreg u hu ⟨q', hj, hin⟩
      exact ⟨j, q', (hupdate j hjk).trans hj, hin⟩
  rcases hsafe.ret (Rely.refl k w) with hans | hready
  · have hanswered : g.status k = .answered q r := hans.answered
    have hi := hinv g.sys h.inv.wf rfl fun u _ => by
      rintro ⟨q', hq', -⟩
      rw [hanswered] at hq'
      cases hq'
    refine ⟨[.inl (.reply k q r)], _, rfl, h.set hk hsock ⟨g.sys, g.holder,
      Function.update g.status k .idle, g.registering⟩ (by rw [effects_snoc_inl]; exact h.run) hi rfl
        ?_ ?_ ?_ (matches_afterReply hw (Function.update_self ..) hans.conn)⟩
    · simp [Status.next, hanswered]
    · intro j hj
      simp [Status.next, Ne.symm hj, hupdate j hj]
    · exact fun j h' hj _ => rely_of_same hi rfl rfl rfl rfl rfl (hupdate j hj)
  · have hstep := hready.reply _ (Rely.refl k w _)
    have hcalled : g.status k = .called q := hready.called
    have hi := hinv _ (hstep.wf h.inv.wf) rfl fun u hu => by
      rintro ⟨q', hq', hin⟩
      rw [hcalled] at hq'
      cases hq'
      rw [hready.fresh u hin] at hu
      cases hu
    refine ⟨[.inr (.reply k q r), .inl (.reply k q r)], _, rfl, h.set hk hsock
      ⟨g.sys.setConn k (Pa3.afterReply w q), g.holder, Function.update g.status k .idle,
        g.registering⟩ ?_ hi rfl ?_ ?_ ?_
          (matches_afterReply hw (Function.update_self ..) (Sys.setConn_conn_self ..))⟩
    · have heffects : effects (ms ++ [.inr (.reply k q r), .inl (.reply k q r)]) =
          effects ms ++ [.reply k q r] := effects_append ms _
      rw [heffects]
      exact h.run.snoc hstep
    · simp [Status.next, hcalled]
    · intro j hj
      simp [Status.next, Ne.symm hj, hupdate j hj, Sys.setConn_conn_of_ne g.sys _ hj]
    · exact fun j h' hj _ => rely_of_same hi rfl rfl rfl rfl (Sys.setConn_conn_of_ne g.sys _ hj)
        (hupdate j hj)

/-- A connection ends in both. -/
theorem Linked.eof (h : Linked s ms g) (hk : s.handler k = some ⟨w, none⟩) :
    ∃ ms' g', threadEvents ms' = [.eof k] ∧ Linked (s.setHandler k none) (ms ++ ms') g' := by
  have hm := h.handlers k
  rw [hk] at hm
  cases hm with
  | idle _ hw hconn hstatus =>
  have hconn : g.sys.conn k = some ⟨w, .idle⟩ := hconn
  have hstep := Step.eof hconn
  have hi : Inv (s.tables, ⟨g.sys.setConn k none, g.holder, g.status, g.registering⟩) :=
    ⟨hstep.wf h.inv.wf, h.inv.session, h.inv.seats, h.inv.password, h.inv.lock, h.inv.exclusive,
      h.inv.registering⟩
  refine ⟨[.inl (.eof k), .inr (.eof k)], _, rfl, h.set hk (fun _ (hh : _ ∈ none) => nomatch hh)
    ⟨g.sys.setConn k none, g.holder, g.status, g.registering⟩ ?_ hi rfl rfl ?_ ?_
      (.none (Sys.setConn_conn_self ..) hstatus)⟩
  · have heffects : effects (ms ++ [.inl (.eof k), .inr (.eof k)]) = effects ms ++ [.eof k] :=
      effects_append ms _
    rw [heffects]
    exact h.run.snoc hstep
  · exact fun j hj => ⟨rfl, rfl, Sys.setConn_conn_of_ne g.sys _ hj⟩
  · exact fun j h' hj _ => rely_of_same hi rfl rfl rfl rfl (Sys.setConn_conn_of_ne g.sys _ hj) rfl

/-- A connection is accepted in both. -/
theorem Linked.accept (h : Linked s ms g) (hw : w ≠ 0) (hnonneg : 0 ≤ w)
    (hfree : ∀ k < s.accepted, ∀ hd ∈ s.handler k, hd.socket ≠ w) :
    ∃ ms' g', threadEvents ms' = [.accept s.accepted w] ∧
      Linked { s.setHandler s.accepted (some ⟨w, none⟩) with accepted := s.accepted + 1 } (ms ++ ms') g' := by
  have hstep : Step g.sys (.accept s.accepted w)
      { g.sys.setConn s.accepted (some ⟨w, .idle⟩) with accepted := s.accepted + 1 } := by
    rw [← h.accepted]
    refine .accept hnonneg ?_
    intro j hj c hc
    obtain ⟨hd, hhd, heq⟩ := (h.handlers j).socket hc
    rw [← heq]
    exact hfree j (h.accepted ▸ hj) hd hhd
  have hnone := h.fresh s.accepted (Nat.le_refl _)
  have hstatus : g.status s.accepted = .idle := by
    have hm := h.handlers s.accepted
    rw [hnone] at hm
    cases hm with
    | none hc hs => exact hs
  have hi : Inv (s.tables, ⟨{ g.sys.setConn s.accepted (some ⟨w, .idle⟩) with accepted := s.accepted + 1 },
      g.holder, g.status, g.registering⟩) :=
    ⟨hstep.wf h.inv.wf, h.inv.session, h.inv.seats, h.inv.password, h.inv.lock, h.inv.exclusive,
      h.inv.registering⟩
  have hlive : ∀ j hd, s.handler j = some hd → j ≠ s.accepted ∧ hd.socket ≠ w := by
    intro j hd hj
    have hlt := h.lt_accepted hj
    exact ⟨hlt.ne, hfree j hlt hd hj⟩
  refine ⟨[.inl (.accept s.accepted w), .inr (.accept s.accepted w)], _, rfl, ?_, ?_, hi, rfl, ?_, ?_, ?_⟩
  · have heffects : effects (ms ++ [.inl (.accept s.accepted w), .inr (.accept s.accepted w)]) =
        effects ms ++ [.accept s.accepted w] := effects_append ms _
    rw [heffects]
    exact h.run.snoc hstep
  · intro j
    rw [status_append, h.status j]
    rfl
  · intro j hj
    have hj : s.accepted + 1 ≤ j := hj
    show Function.update s.handler s.accepted _ j = none
    rw [Function.update_of_ne (by omega)]
    exact h.fresh j (by omega)
  · intro i j h₁ h₂ hi hj heq
    rcases Pool.handler_of_set hi with ⟨rfl, h₁'⟩ | ⟨-, hi⟩ <;>
      rcases Pool.handler_of_set hj with ⟨rfl, h₂'⟩ | ⟨-, hj⟩
    · rfl
    · cases h₁'
      exact absurd heq.symm (hlive j h₂ hj).2
    · cases h₂'
      exact absurd heq (hlive i h₁ hi).2
    · exact h.distinct i j h₁ h₂ hi hj heq
  · intro j
    by_cases hj : j = s.accepted
    · subst hj
      show Matches _ _ (Function.update s.handler s.accepted _ s.accepted)
      rw [Function.update_self]
      exact .idle w hw (Sys.setConn_conn_self ..) hstatus
    · show Matches _ _ (Function.update s.handler s.accepted _ j)
      rw [Function.update_of_ne hj]
      exact (h.handlers j).of_rely (Sys.setConn_conn_of_ne g.sys _ hj) rfl fun hd _ =>
        rely_of_same hi rfl rfl rfl rfl (Sys.setConn_conn_of_ne g.sys _ hj) rfl

/-- At the start both are empty. -/
theorem linked_init : Linked Pool.init [] ⟨.init, fun _ => none, fun _ => .idle, fun _ => false⟩ where
  run := .nil
  status := fun _ => rfl
  inv := by
    refine ⟨Sys.wf_init, rfl, rfl, fun _ _ => rfl, fun _ => rfl, ?_, fun _ => nofun⟩
    rintro j k u ⟨q, hq, -⟩
    cases hq
  accepted := rfl
  fresh := fun _ _ => rfl
  distinct := fun _ _ _ _ => nofun
  handlers := fun _ => .none rfl rfl

/-- A step goes on with the marks. -/
theorem Linked.step (h : Linked s ms g) {e : Pool.Event} (hstep : Pool.Step s e s') (hcalm : Calm s e) :
    ∃ ms' g', threadEvents ms' = [e] ∧ Linked s' (ms ++ ms') g' := by
  cases hstep with
  | accept hnonneg hfree => exact h.accept hcalm hnonneg hfree
  | query hk => exact h.query hk hcalm
  | stmt hk hexec => exact h.stmt hk hexec
  | reply hk => exact h.reply hk
  | eof hk => exact h.eof hk

end steps

/-- **The queries are atomic.** Every run of the threads, statement by statement in any order, is a run of
`System` with the same connections and replies: the history can be marked with the events of a run of
`System` such that for every connection a query takes effect after it was read and before its reply is
written, with that reply. The seats and the sessions of the run are those of `System`, and the passwords
are when no login is going on. -/
theorem linearizable {s : Pool} {es : List Pool.Event}
    (h : Run (Guarded Pool.Step Calm) Pool.init es s) :
    ∃ ms sys, threadEvents ms = es ∧ Run Step Sys.init (effects ms) sys ∧
      (∀ k, (status k ms).isSome) ∧ sys.server.seats = s.tables.server.seats ∧
      sys.server.session = s.tables.server.session ∧
      ((∀ k w q p, s.handler k = some ⟨w, some (q, p)⟩ → q.action ≠ 1) →
        sys.server = s.tables.server) := by
  obtain ⟨ms, g, hms, hlinked⟩ : ∃ ms g, threadEvents ms = es ∧ Linked s ms g := by
    refine h.history (fun es s => ∃ ms g, threadEvents ms = es ∧ Linked s ms g) ?_
      ⟨[], _, rfl, linked_init⟩
    rintro es s e s' ⟨ms, g, rfl, hlinked⟩ ⟨hstep, hcalm⟩
    obtain ⟨ms', g', hms', hlinked'⟩ := hlinked.step hstep hcalm
    exact ⟨ms ++ ms', g', by rw [threadEvents_append, hms'], hlinked'⟩
  refine ⟨ms, g.sys, hms, hlinked.run, ?_, hlinked.inv.seats, hlinked.inv.session, ?_⟩
  · intro k
    rw [hlinked.status k]
    rfl
  · intro hnone
    have hpassword : g.sys.server.password = s.tables.server.password := by
      funext u
      refine hlinked.inv.password u ?_
      rw [← Bool.not_eq_true]
      intro hreg
      obtain ⟨k, q, hq, hin⟩ := hlinked.inv.registering u hreg
      obtain ⟨w, p, hk⟩ := (hlinked.handlers k).called hq
      exact hnone k w q p hk hin.1
    have hseats := hlinked.inv.seats
    have hsession := hlinked.inv.session
    rcases hserver : g.sys.server with ⟨password, session, seats⟩
    rcases hserver' : s.tables.server with ⟨password', session', seats'⟩
    simp only [hserver, hserver'] at hpassword hseats hsession
    rw [hpassword, hseats, hsession]

/-- Two clients log in and book the same seat, statement by statement in turns. The second one comes
first, and the first one waits for its lock. -/
def race : List Pool.Input :=
  [.accept 4, .accept 5, .query 0 ⟨1, 1, 7⟩, .query 1 ⟨2, 1, 8⟩] ++
    (List.replicate 6 [.turn 0, .turn 1]).flatten ++
    [.query 0 ⟨1, 2, 3⟩, .query 1 ⟨2, 2, 3⟩, .turn 1, .turn 0, .turn 0, .turn 1, .turn 1, .turn 1, .turn 1,
      .turn 1, .turn 0, .turn 0, .turn 0, .turn 0, .turn 1]

/-- In this run the second client gets the seat. -/
theorem linearizable_race : ∃ s es, Run (Guarded Pool.Step Calm) Pool.init es s ∧
    es.getLast? = some (.reply 1 ⟨2, 2, 3⟩ ⟨['3'], true⟩) ∧
    ∃ ms sys, threadEvents ms = es ∧ Run Step Sys.init (effects ms) sys ∧
      (∀ k, (status k ms).isSome) ∧ sys.server.seats = s.tables.server.seats ∧
      sys.server.session = s.tables.server.session ∧
      ((∀ k w q p, s.handler k = some ⟨w, some (q, p)⟩ → q.action ≠ 1) →
        sys.server = s.tables.server) := by
  have h : ((exec (guarded Pool.step Calm) Pool.init race).map fun p => p.2.getLast?) =
      some (some (.reply 1 ⟨2, 2, 3⟩ ⟨['3'], true⟩)) := by
    decide +kernel
  obtain ⟨⟨s, es⟩, hexec, hlast⟩ := Option.map_eq_some_iff.mp h
  have hrun := exec_run (guarded_sound Pool.step_sound) race hexec
  exact ⟨s, es, hrun, hlast, linearizable hrun⟩

end SystemProgrammingLab.Pa3.Linear
