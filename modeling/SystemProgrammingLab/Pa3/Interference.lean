import SystemProgrammingLab.Pa3.Interleaving

/-!
# What the threads of the server leave to each other

The proof that queries are atomic is one by rely and guarantee. Here are its terms: the ghost, which is a
state of `System` with the owners of the locks and the status of each connection; what the other threads
leave alone for a thread (`Rely`), and what a thread leaves alone for them (`Frame`, `Guar`); and the
assertions that hold between two statements of a query.

The seats are kept by their locks. The sessions and the passwords have none: a session is entered and left
by the threads of its own socket only, and a password is read and written by logins of its client, of
which one at a time goes on.

Source: `pa3/pa3_server.c`
-/

namespace SystemProgrammingLab.Pa3.Linear

open SystemProgrammingLab.Found

/-! ## The ghost -/

/-- What the proof knows beside the tables: the state of `System`, the connection that holds a lock, the
status of each connection, and for which clients a login has written the password and not the session. -/
structure Ghost where
  sys : Sys
  holder : Fin numSeat → Option Nat
  status : Nat → Status
  registering : Fin maxClient → Bool

/-- The tables and the ghost. -/
abbrev View := Tables × Ghost

/-- The query is a login for the client. -/
def InLogin (q : Query) (u : Fin maxClient) : Prop := q.action = 1 ∧ q.user = (u : Nat)

/-- Connection `k` is in a login for the client, which has not taken effect. -/
def LoggingIn (g : Ghost) (k : Nat) (u : Fin maxClient) : Prop :=
  ∃ q, g.status k = .called q ∧ InLogin q u

/-- The tables are those of `System`, but for the passwords that are just being registered. -/
structure Inv (x : View) : Prop where
  wf : x.2.sys.WF
  session : x.2.sys.server.session = x.1.server.session
  seats : x.2.sys.server.seats = x.1.server.seats
  password : ∀ u, x.2.registering u = false → x.2.sys.server.password u = x.1.server.password u
  lock : ∀ i, x.1.lock i = (x.2.holder i).isSome
  exclusive : ∀ j k u, LoggingIn x.2 j u → LoggingIn x.2 k u → j = k
  registering : ∀ u, x.2.registering u = true → ∃ k, LoggingIn x.2 k u

/-- What the other threads leave alone for the thread of connection `k`, which is on socket `w`. -/
structure Rely (k : Nat) (w : Int) (x y : View) : Prop where
  inv : Inv x → Inv y
  status : y.2.status k = x.2.status k
  conn : y.2.sys.conn k = x.2.sys.conn k
  session : ∀ u, y.1.server.session u = w ↔ x.1.server.session u = w
  holder : ∀ i, y.2.holder i = some k ↔ x.2.holder i = some k
  seat : ∀ i, x.2.holder i = some k → y.1.server.seats i = x.1.server.seats i
  login : ∀ u, LoggingIn x.2 k u → y.1.server.password u = x.1.server.password u ∧
    y.2.sys.server.password u = x.2.sys.server.password u ∧ y.2.registering u = x.2.registering u ∧
    (x.1.server.session u = 0 → y.1.server.session u = 0)

/-- Nothing may happen. -/
theorem Rely.refl (k : Nat) (w : Int) (x : View) : Rely k w x x where
  inv := id
  status := rfl
  conn := rfl
  session := fun _ => Iff.rfl
  holder := fun _ => Iff.rfl
  seat := fun _ _ => rfl
  login := fun _ _ => ⟨rfl, rfl, rfl, id⟩

/-- Who is logging a client in goes on with it, whatever the others do. -/
theorem Rely.loggingIn {k : Nat} {w : Int} {x y : View} (h : Rely k w x y) {u : Fin maxClient}
    (hu : LoggingIn x.2 k u) : LoggingIn y.2 k u := by
  obtain ⟨q, hq, hin⟩ := hu
  exact ⟨q, h.status.trans hq, hin⟩

/-- What the others do may be done in several steps. -/
theorem Rely.trans {k : Nat} {w : Int} {x y z : View} (h : Rely k w x y) (h' : Rely k w y z) :
    Rely k w x z where
  inv := h'.inv ∘ h.inv
  status := h'.status.trans h.status
  conn := h'.conn.trans h.conn
  session := fun u => (h'.session u).trans (h.session u)
  holder := fun i => (h'.holder i).trans (h.holder i)
  seat := fun i hi => (h'.seat i ((h.holder i).mpr hi)).trans (h.seat i hi)
  login := by
    intro u hu
    obtain ⟨hp, hs, hr, h0⟩ := h.login u hu
    obtain ⟨hp', hs', hr', h0'⟩ := h'.login u (h.loggingIn hu)
    exact ⟨hp'.trans hp, hs'.trans hs, hr'.trans hr, h0' ∘ h0⟩

/-- What a step of the thread of connection `k`, which is on socket `w`, leaves alone for the others. -/
structure Frame (k : Nat) (w : Int) (x y : View) : Prop where
  inv : Inv y
  status : ∀ j, j ≠ k → y.2.status j = x.2.status j
  conn : ∀ j, j ≠ k → y.2.sys.conn j = x.2.sys.conn j
  session : ∀ u, y.1.server.session u = x.1.server.session u ∨
    ((x.1.server.session u = 0 ∨ x.1.server.session u = w) ∧
      (y.1.server.session u = 0 ∨ y.1.server.session u = w ∧ LoggingIn x.2 k u))
  holder : ∀ j, j ≠ k → ∀ i, y.2.holder i = some j ↔ x.2.holder i = some j
  seat : ∀ i, y.1.server.seats i = x.1.server.seats i ∨ x.2.holder i = some k
  login : ∀ u, (y.1.server.password u = x.1.server.password u ∧
    y.2.sys.server.password u = x.2.sys.server.password u ∧ y.2.registering u = x.2.registering u) ∨
    LoggingIn x.2 k u

/-- A thread on another socket may rely on it. -/
theorem Frame.rely {j k : Nat} {w w' : Int} {x y : View} (h : Frame k w x y) (hinv : Inv x)
    (hjk : j ≠ k) (hne : w' ≠ w) (h0 : w' ≠ 0) : Rely j w' x y where
  inv := fun _ => h.inv
  status := h.status j hjk
  conn := h.conn j hjk
  session := by
    intro u
    rcases h.session u with heq | ⟨hx | hx, hy | ⟨hy, -⟩⟩
    · rw [heq]
    · rw [hx, hy]
    · rw [hx, hy]
      exact iff_of_false hne.symm h0.symm
    · rw [hx, hy]
      exact iff_of_false h0.symm hne.symm
    · rw [hx, hy]
  holder := h.holder j hjk
  seat := by
    intro i hi
    rcases h.seat i with heq | hk
    · exact heq
    · rw [hk] at hi
      exact absurd (Option.some.inj hi).symm hjk
  login := by
    intro u hu
    have hk : ¬ LoggingIn x.2 k u := fun hk => hjk (hinv.exclusive j k u hu hk)
    obtain ⟨hp, hs, hr⟩ := (h.login u).resolve_right hk
    refine ⟨hp, hs, hr, ?_⟩
    intro hzero
    rcases h.session u with heq | ⟨-, hy | ⟨-, hlogin⟩⟩
    · rw [heq, hzero]
    · exact hy
    · exact absurd hlogin hk

/-- What a step of connection `k` amounts to in `System`: nothing, or one event. -/
inductive Emits (k : Nat) (g g' : Ghost) : List Event → Prop
  | silent (hsys : g'.sys = g.sys) (hstatus : g'.status k = g.status k) : Emits k g g' []
  | event {e : Event} (hstep : Step g.sys e g'.sys) (he : ∀ j w, e ≠ .accept j w)
      (hstatus : (g.status k).next k (.inr e) = some (g'.status k))
      (hother : ∀ j, j ≠ k → ∀ st : Status, st.next j (.inr e) = some st) : Emits k g g' [e]

/-- What a thread guarantees for each of its statements. -/
def Guar (k : Nat) (w : Int) (x y : View) : Prop := Frame k w x y ∧ ∃ es, Emits k x.2 y.2 es

/-! ## Statements -/

section exec

variable (c : Fin maxClient) (i : Fin numSeat) (v : Int) (t : Tables)

/-- A read of `password`, as a statement of a thread. -/
theorem exec_readPassword :
    (Stmt.readPassword (c : Nat)).exec t = some (t.server.password c, t) :=
  Op.result_readPassword t c

/-- A write of `password`, as a statement of a thread. -/
theorem exec_writePassword : (Stmt.writePassword (c : Nat) v).exec t =
    some (0, { t with server := t.server.setPassword c v }) := by
  show ((Op.writePassword (c : Nat) v).result t).map voidValue = _
  rw [Op.result_writePassword]
  rfl

/-- A read of `session`, as a statement of a thread. -/
theorem exec_readSession : (Stmt.readSession (c : Nat)).exec t = some (t.server.session c, t) :=
  Op.result_readSession t c

/-- A write of `session`, as a statement of a thread. -/
theorem exec_writeSession : (Stmt.writeSession (c : Nat) v).exec t =
    some (0, { t with server := t.server.setSession c v }) := by
  show ((Op.writeSession (c : Nat) v).result t).map voidValue = _
  rw [Op.result_writeSession]
  rfl

/-- A read of `seats`, as a statement of a thread. -/
theorem exec_readSeat : (Stmt.readSeat (i : Nat)).exec t = some (t.server.seats i, t) :=
  Op.result_readSeat t i

/-- A write of `seats`, as a statement of a thread. -/
theorem exec_writeSeat : (Stmt.writeSeat (i : Nat) v).exec t =
    some (0, { t with server := t.server.setSeat i v }) := by
  show ((Op.writeSeat (i : Nat) v).result t).map voidValue = _
  rw [Op.result_writeSeat]
  rfl

/-- `pthread_mutex_lock` waits while the lock is taken. -/
theorem exec_mutexLock : (Stmt.mutexLock (i : Nat)).exec t =
    if t.lock i then none else some (0, { t with lock := Function.update t.lock i true }) := by
  show ((Op.mutexLock (i : Nat)).result t).map voidValue = _
  cases hlock : t.lock i <;> simp [Op.mutexLock, hlock, voidValue]

/-- `pthread_mutex_unlock` frees the lock. -/
theorem exec_mutexUnlock : (Stmt.mutexUnlock (i : Nat)).exec t =
    some (0, { t with lock := Function.update t.lock i false }) := by
  show ((Op.mutexUnlock (i : Nat)).result t).map voidValue = _
  simp [Op.mutexUnlock, voidValue]

end exec

/-! ## What a statement may do -/

section guar

variable {k : Nat} {w : Int} {x : View}

/-- A login of another connection goes on. -/
theorem loggingIn_of_update {g : Ghost} (st : Status) {status' : Nat → Status}
    (hstatus : status' = Function.update g.status k st)
    (hst : ∀ q, st = .called q → g.status k = .called q) {j : Nat} {u : Fin maxClient} {q : Query}
    (hq : status' j = .called q) (hin : InLogin q u) : LoggingIn g j u := by
  refine ⟨q, ?_, hin⟩
  rw [hstatus] at hq
  by_cases hj : j = k
  · subst hj
    rw [Function.update_self] at hq
    exact hst q hq
  · rwa [Function.update_of_ne hj] at hq

/-- A statement that only looks. -/
theorem guar_silent (hinv : Inv x) : Guar k w x x := by
  refine ⟨?_, [], .silent rfl rfl⟩
  constructor <;> simp [hinv]

/-- A statement that takes a lock or gives it back. -/
theorem guar_holder (hinv : Inv x) {i : Fin numSeat} {b : Bool} {o : Option Nat} (hb : b = o.isSome)
    (ho : ∀ j, j ≠ k → o ≠ some j ∧ x.2.holder i ≠ some j) :
    Guar k w x ({ x.1 with lock := Function.update x.1.lock i b },
      { x.2 with holder := Function.update x.2.holder i o }) := by
  refine ⟨?_, [], .silent rfl rfl⟩
  refine ⟨⟨hinv.wf, hinv.session, hinv.seats, hinv.password, ?_, hinv.exclusive, hinv.registering⟩,
    fun _ _ => rfl, fun _ _ => rfl, fun _ => .inl rfl, ?_, fun _ => .inl rfl,
    fun _ => .inl ⟨rfl, rfl, rfl⟩⟩
  · intro i'
    by_cases hi : i' = i
    · subst hi
      simp [hb]
    · simp [Function.update_of_ne hi, hinv.lock i']
  · intro j hj i'
    by_cases hi : i' = i
    · subst hi
      simp [ho j hj]
    · simp [Function.update_of_ne hi]

/-- A statement with which an event of `System` takes effect: the tables become those of `System`, no
password of the connection is left to be registered, and the others find what they rely on. -/
theorem guar_event (hinv : Inv x) {e : Event} {sys : Sys} (st : Status) {t : Tables}
    (registering : Fin maxClient → Bool) (hstep : Step x.2.sys e sys) (he : ∀ j w, e ≠ .accept j w)
    (hnext : (x.2.status k).next k (.inr e) = some st)
    (hother : ∀ j, j ≠ k → ∀ st : Status, st.next j (.inr e) = some st)
    (hconn : ∀ j, j ≠ k → sys.conn j = x.2.sys.conn j)
    (hst : ∀ q, st = .called q → x.2.status k = .called q)
    (hlock : t.lock = x.1.lock) (hsession : sys.server.session = t.server.session)
    (hseats : sys.server.seats = t.server.seats)
    (hmine : ∀ u, LoggingIn x.2 k u →
      registering u = false ∧ sys.server.password u = t.server.password u)
    (htheirs : ∀ u, ¬ LoggingIn x.2 k u → t.server.password u = x.1.server.password u ∧
      sys.server.password u = x.2.sys.server.password u ∧ registering u = x.2.registering u)
    (hsessions : ∀ u, t.server.session u = x.1.server.session u ∨
      ((x.1.server.session u = 0 ∨ x.1.server.session u = w) ∧
        (t.server.session u = 0 ∨ t.server.session u = w ∧ LoggingIn x.2 k u)))
    (hseat : ∀ i, t.server.seats i = x.1.server.seats i ∨ x.2.holder i = some k) :
    Guar k w x (t, ⟨sys, x.2.holder, Function.update x.2.status k st, registering⟩) := by
  refine ⟨⟨⟨hstep.wf hinv.wf, hsession, hseats, ?_, ?_, ?_, ?_⟩, ?_, hconn, hsessions,
    fun _ _ _ => Iff.rfl, hseat, ?_⟩, [e], .event hstep he (by simpa using hnext) hother⟩
  · intro u hu
    by_cases hk : LoggingIn x.2 k u
    · exact (hmine u hk).2
    · obtain ⟨hp, hs, hr⟩ := htheirs u hk
      exact (hs.trans (hinv.password u (hr.symm.trans hu))).trans hp.symm
  · rw [hlock]
    exact hinv.lock
  · rintro j j' u ⟨q, hq, hin⟩ ⟨q', hq', hin'⟩
    exact hinv.exclusive j j' u (loggingIn_of_update st rfl hst hq hin)
      (loggingIn_of_update st rfl hst hq' hin')
  · intro u hu
    have hu : registering u = true := hu
    by_cases hk : LoggingIn x.2 k u
    · rw [(hmine u hk).1] at hu
      cases hu
    · rw [(htheirs u hk).2.2] at hu
      obtain ⟨j, q, hq, hin⟩ := hinv.registering u hu
      have hj : j ≠ k := by
        rintro rfl
        exact hk ⟨q, hq, hin⟩
      exact ⟨j, q, by simpa [Function.update_of_ne hj] using hq, hin⟩
  · exact fun j hj => Function.update_of_ne hj _ _
  · intro u
    by_cases hk : LoggingIn x.2 k u
    · exact .inr hk
    · exact .inl (htheirs u hk)

end guar

/-! ## Assertions -/

/-- The query of connection `k` was read and has not taken effect. -/
structure Pending (k : Nat) (w : Int) (q : Query) (x : View) : Prop where
  inv : Inv x
  called : x.2.status k = .called q
  conn : x.2.sys.conn k = some ⟨w, .idle⟩

/-- It has not written a password either. -/
structure Local (k : Nat) (w : Int) (q : Query) (x : View) : Prop extends Pending k w q x where
  fresh : ∀ u, InLogin q u → x.2.registering u = false

/-- The query of connection `k` took effect, with this reply. -/
structure Answered (k : Nat) (w : Int) (q : Query) (r : Reply) (x : View) : Prop where
  inv : Inv x
  answered : x.2.status k = .answered q r
  conn : x.2.sys.conn k = afterReply w q

/-- The query of connection `k` can take effect at any time now, with this reply. -/
structure Ready (k : Nat) (w : Int) (q : Query) (r : Reply) (x : View) : Prop where
  inv : Inv x
  called : x.2.status k = .called q
  fresh : ∀ u, InLogin q u → x.2.registering u = false
  reply : ∀ y, Rely k w x y → Step y.2.sys (.reply k q r) (y.2.sys.setConn k (afterReply w q))

/-- What holds when the reply is about to be written. -/
def Post (k : Nat) (w : Int) (q : Query) (r : Reply) (x : View) : Prop :=
  Answered k w q r x ∨ Ready k w q r x

section stable

variable {k : Nat} {w : Int} {q : Query} {r : Reply}

/-- A login that has not begun to register is not made to by the others. -/
theorem Rely.fresh {x y : View} (h : Rely k w x y) (hcalled : x.2.status k = .called q)
    (hfresh : ∀ u, InLogin q u → x.2.registering u = false) :
    ∀ u, InLogin q u → y.2.registering u = false :=
  fun u hu => ((h.login u ⟨q, hcalled, hu⟩).2.2.1).trans (hfresh u hu)

/-- A query that was not answered is not answered by the others. -/
theorem Pending.stable : Prog.Stable (Rely k w) (Pending k w q) := fun _ _ hx h =>
  ⟨h.inv hx.inv, h.status.trans hx.called, h.conn.trans hx.conn⟩

/-- What the thread alone changes is as it was. -/
theorem Local.stable : Prog.Stable (Rely k w) (Local k w q) := fun x y hx h =>
  ⟨Pending.stable x y hx.toPending h, h.fresh hx.called hx.fresh⟩

/-- A query that was answered stays answered. -/
theorem Answered.stable : Prog.Stable (Rely k w) (Answered k w q r) := fun _ _ hx h =>
  ⟨h.inv hx.inv, h.status.trans hx.answered, h.conn.trans hx.conn⟩

/-- A reply that is ready stays ready. -/
theorem Ready.stable : Prog.Stable (Rely k w) (Ready k w q r) := fun _ _ hx h =>
  ⟨h.inv hx.inv, h.status.trans hx.called, h.fresh hx.called hx.fresh, fun z hz => hx.reply z (h.trans hz)⟩

/-- What holds at the end of a query goes on to hold. -/
theorem Post.stable : Prog.Stable (Rely k w) (Post k w q r) := by
  rintro x y (hx | hx) h
  · exact .inl (Answered.stable x y hx h)
  · exact .inr (Ready.stable x y hx h)

/-- The thread's socket has the session of the client. -/
def Has (w : Int) (c : Fin maxClient) (x : View) : Prop := x.1.server.session c = w

/-- The others do not end the session. -/
theorem Has.stable (c : Fin maxClient) : Prog.Stable (Rely k w) (Has w c) :=
  fun _ _ hx h => (h.session c).mpr hx

/-- Nor do they begin one on this socket. -/
theorem not_has_stable (c : Fin maxClient) : Prog.Stable (Rely k w) fun x => ¬ Has w c x :=
  fun _ _ hx h hy => hx ((h.session c).mp hy)

/-- The thread holds the lock of the seat. -/
def Holds (k : Nat) (i : Fin numSeat) (x : View) : Prop := x.2.holder i = some k

/-- They do not free the lock of a seat that the thread holds. -/
theorem Holds.stable (i : Fin numSeat) : Prog.Stable (Rely k w) (Holds k i) :=
  fun _ _ hx h => (h.holder i).mpr hx

/-- The seat of a lock that the thread holds. -/
theorem Holds.stable_seat (i : Fin numSeat) (v : Int) :
    Prog.Stable (Rely k w) fun x => Holds k i x ∧ x.1.server.seats i = v :=
  fun x y hx h => ⟨Holds.stable i x y hx.1 h, (h.seat i hx.1).trans hx.2⟩

/-- A client is logged in on a socket exactly when the ghost says so. -/
theorem Inv.loggedIn {x : View} (hinv : Inv x) (hw : w ≠ 0) (c : Fin maxClient) :
    LoggedIn x.2.sys.server c w ↔ Has w c x := by
  unfold LoggedIn Has
  rw [hinv.session]
  constructor
  · exact fun h => h.2.symm
  · intro h
    rw [h]
    exact ⟨hw, rfl⟩

/-- A query that fails whatever the others do can take effect at any time. -/
theorem Local.ready {P : View → Prop} (hP : Prog.Stable (Rely k w) P) (hlocal : ∀ x, P x → Local k w q x)
    (hq : q.action ≠ 3)
    (hfails : ∀ x, P x → handleQuery x.2.sys.server w q = some (x.2.sys.server, r)) {x : View}
    (hx : P x) : Post k w q r x := by
  have h := hlocal x hx
  refine .inr ⟨h.inv, h.called, h.fresh, ?_⟩
  intro y hxy
  have hy := hP x y hx hxy
  exact .query (hlocal y hy).conn hq (hfails y hy)

/-- A query takes effect. -/
theorem Pending.answer {x : View} (h : Pending k w q x) (hq : q.action ≠ 3) {t : Tables}
    (st : Server) (registering : Fin maxClient → Bool) (hr : handleQuery x.2.sys.server w q = some (st, r))
    (hlock : t.lock = x.1.lock) (hsession : st.session = t.server.session)
    (hseats : st.seats = t.server.seats)
    (hmine : ∀ u, LoggingIn x.2 k u → registering u = false ∧ st.password u = t.server.password u)
    (htheirs : ∀ u, ¬ LoggingIn x.2 k u → t.server.password u = x.1.server.password u ∧
      st.password u = x.2.sys.server.password u ∧ registering u = x.2.registering u)
    (hsessions : ∀ u, t.server.session u = x.1.server.session u ∨
      ((x.1.server.session u = 0 ∨ x.1.server.session u = w) ∧
        (t.server.session u = 0 ∨ t.server.session u = w ∧ LoggingIn x.2 k u)))
    (hseat : ∀ i, t.server.seats i = x.1.server.seats i ∨ x.2.holder i = some k) :
    ∃ g, Guar k w x (t, g) ∧ Answered k w q r (t, g) ∧ g.holder = x.2.holder := by
  have hguar := guar_event (w := w) h.inv (.answered q r) registering (.query h.conn hq hr) nofun
    (by simp [Status.next, h.called]) (fun j hj st' => by simp [Status.next, Ne.symm hj])
    (fun j hj => Sys.setConn_conn_of_ne _ _ hj) (fun _ => nofun) hlock hsession hseats hmine htheirs
    hsessions hseat
  refine ⟨_, hguar, ⟨hguar.1.inv, ?_, ?_⟩, rfl⟩
  · exact Function.update_self ..
  · exact Sys.setConn_conn_self ..

/-- A query fails at a statement that changes nothing. -/
theorem Local.fail {x : View} (h : Local k w q x) (hq : q.action ≠ 3)
    (hr : handleQuery x.2.sys.server w q = some (x.2.sys.server, r)) :
    ∃ g, Guar k w x (x.1, g) ∧ Answered k w q r (x.1, g) ∧ g.holder = x.2.holder := by
  refine h.toPending.answer hq _ x.2.registering hr rfl h.inv.session h.inv.seats ?_
    (fun _ _ => ⟨rfl, rfl, rfl⟩) (fun _ => .inl rfl) fun _ => .inl rfl
  rintro u ⟨q', hq', hu⟩
  rw [h.called] at hq'
  cases hq'
  exact ⟨h.fresh u hu, h.inv.password u (h.fresh u hu)⟩

/-- A query that is no login does not touch the passwords. -/
theorem Local.answer_of_not_login {x : View} (h : Local k w q x) (hq : q.action ≠ 3) (hq1 : q.action ≠ 1)
    {t : Tables} (st : Server) (hr : handleQuery x.2.sys.server w q = some (st, r))
    (hlock : t.lock = x.1.lock) (hsession : st.session = t.server.session)
    (hseats : st.seats = t.server.seats) (hst : st.password = x.2.sys.server.password)
    (ht : t.server.password = x.1.server.password)
    (hsessions : ∀ u, t.server.session u = x.1.server.session u ∨
      ((x.1.server.session u = 0 ∨ x.1.server.session u = w) ∧ t.server.session u = 0))
    (hseat : ∀ i, t.server.seats i = x.1.server.seats i ∨ x.2.holder i = some k) :
    ∃ g, Guar k w x (t, g) ∧ Answered k w q r (t, g) ∧ g.holder = x.2.holder := by
  refine h.toPending.answer hq st x.2.registering hr hlock hsession hseats ?_ ?_ ?_ hseat
  · rintro u ⟨q', hq', hu⟩
    rw [h.called] at hq'
    cases hq'
    exact absurd hu.1 hq1
  · intro u _
    rw [hst, ht]
    exact ⟨rfl, rfl, rfl⟩
  · exact fun u => (hsessions u).imp_right fun ⟨hx, hy⟩ => ⟨hx, .inl hy⟩

/-- A query takes effect when it writes a seat that it has locked. -/
theorem Local.answer_seat {x : View} (h : Local k w q x) {i : Fin numSeat} (hholds : Holds k i x)
    (hq : q.action ≠ 3) (hq1 : q.action ≠ 1) {v : Int}
    (hr : handleQuery x.2.sys.server w q = some (x.2.sys.server.setSeat i v, r)) :
    ∃ g, Guar k w x ({ x.1 with server := x.1.server.setSeat i v }, g) ∧
      Answered k w q r ({ x.1 with server := x.1.server.setSeat i v }, g) ∧
      Holds k i ({ x.1 with server := x.1.server.setSeat i v }, g) := by
  have hseat : ∀ i', (x.1.server.setSeat i v).seats i' = x.1.server.seats i' ∨ x.2.holder i' = some k := by
    intro i'
    by_cases hi : i' = i
    · subst hi
      exact .inr hholds
    · exact .inl (Function.update_of_ne hi _ _)
  obtain ⟨g, hguar, hanswered, hholder⟩ := h.answer_of_not_login hq hq1
    (t := { x.1 with server := x.1.server.setSeat i v }) _ hr rfl h.inv.session
    (by rw [Server.setSeat_seats, Server.setSeat_seats, h.inv.seats]) rfl rfl (fun _ => .inl rfl) hseat
  exact ⟨g, hguar, hanswered, (congrFun hholder i).trans hholds⟩

/-- The assertion does not speak of the locks. -/
def Blind (P : View → Prop) : Prop := ∀ x t g, P x → t.server = x.1.server → g.sys = x.2.sys →
  g.status = x.2.status → g.registering = x.2.registering → Inv (t, g) → P (t, g)

/-- Two conditions that do not see the locks. -/
theorem Blind.and {P P' : View → Prop} (hP : Blind P) (hP' : Blind P') : Blind fun x => P x ∧ P' x :=
  fun x t g hx h₁ h₂ h₃ h₄ hinv => ⟨hP x t g hx.1 h₁ h₂ h₃ h₄ hinv, hP' x t g hx.2 h₁ h₂ h₃ h₄ hinv⟩

/-- What the thread alone changes does not depend on the locks. -/
theorem Local.blind : Blind (Local k w q) := by
  intro x t g hx hserver hsys hstatus hreg hinv
  refine ⟨⟨hinv, ?_, ?_⟩, ?_⟩
  · rw [hstatus]
    exact hx.called
  · rw [hsys]
    exact hx.conn
  · rw [hreg]
    exact hx.fresh

/-- Nor does what was answered. -/
theorem Answered.blind : Blind (Answered k w q r) := by
  intro x t g hx hserver hsys hstatus hreg hinv
  refine ⟨hinv, ?_, ?_⟩
  · rw [hstatus]
    exact hx.answered
  · rw [hsys]
    exact hx.conn

/-- Nor does a session. -/
theorem Has.blind (c : Fin maxClient) : Blind (Has w c) := by
  intro x t g hx hserver hsys hstatus hreg hinv
  show t.server.session c = w
  rw [hserver]
  exact hx

end stable

end SystemProgrammingLab.Pa3.Linear
