import SystemProgrammingLab.Found.Run
import SystemProgrammingLab.Pa3.Server

/-!
# The server as a system of connections

A connection is accepted on some socket number that is not open, its thread answers one query
after the other, and it ends with a query of action 0 or at the end of the stream. The kernel may
hand out the number of a closed socket again, so a connection has an identity `k` of its own:
connections are numbered in the order they are accepted.

A query is one step (`Step.query`), except for `confirm_booking`: its session check, each
iteration of its loop and its return are separate steps, and the other threads take steps in
between (`Step.confirmStart`, `Step.confirmSeat`, `Step.confirmEnd`). Undisturbed, these steps do
what `handleQuery` does (`confirm_run`).

`Step.effect` reduces a step to `Effect`; `Step.wf` keeps the sockets of live connections
distinct, and the session that a confirm query runs under.

Source: `pa3/pa3_server.c`, `client_handler`, `main`
-/

namespace SystemProgrammingLab.Pa3

open SystemProgrammingLab.Found

/-! ## States and events -/

/-- Where a handler thread is: in `read`, or in the loop of `confirm_booking`, called for the query `⟨user, 3,
data⟩`, before iteration `i`. Source: `client_handler`, `confirm_booking` -/
inductive Thread
  | idle
  | confirming (user data : Int) (i : Nat) (b : Booked)
  deriving DecidableEq

/-- A live connection. Source: `client_handler` -/
structure Conn where
  socket : Int
  thread : Thread
  deriving DecidableEq

/-- The server process: its tables, how many connections were accepted, and the live ones. Source: `pa3_server.c` -/
structure Sys where
  server : Server
  accepted : Nat
  conn : Nat → Option Conn

/-- The process before the first `accept`. -/
def Sys.init : Sys := ⟨.init, 0, fun _ => none⟩

/-- Open, change or close connection `k`. -/
def Sys.setConn (s : Sys) (k : Nat) (c : Option Conn) : Sys :=
  { s with conn := Function.update s.conn k c }

/-- A connection that changes leaves the tables as they are. -/
@[simp] theorem Sys.setConn_server (s : Sys) (k : Nat) (c : Option Conn) :
    (s.setConn k c).server = s.server := rfl

/-- A connection that changes leaves the number of connections. -/
@[simp] theorem Sys.setConn_accepted (s : Sys) (k : Nat) (c : Option Conn) :
    (s.setConn k c).accepted = s.accepted := rfl

/-- The connection is what was set. -/
@[simp] theorem Sys.setConn_conn_self (s : Sys) (k : Nat) (c : Option Conn) :
    (s.setConn k c).conn k = c := by
  simp [Sys.setConn]

/-- The other connections are as they were. -/
theorem Sys.setConn_conn_of_ne (s : Sys) {k k' : Nat} (c : Option Conn) (h : k' ≠ k) :
    (s.setConn k c).conn k' = s.conn k' := by
  simp [Sys.setConn, h]

/-- A connection after a change is the changed one, or one of the others. -/
theorem Sys.conn_of_setConn {s : Sys} {k k' : Nat} {new : Option Conn} {c : Conn}
    (h : (s.setConn k new).conn k' = some c) :
    (k' = k ∧ new = some c) ∨ (k' ≠ k ∧ s.conn k' = some c) := by
  by_cases hne : k' = k
  · subst hne
    rw [Sys.setConn_conn_self] at h
    exact .inl ⟨rfl, h⟩
  · rw [Sys.setConn_conn_of_ne s new hne] at h
    exact .inr ⟨hne, h⟩

/-- What an observer of the server sees: connections, replies, and the progress of confirm
queries. -/
inductive Event
  | accept (k : Nat) (socket : Int)
  | reply (k : Nat) (q : Query) (r : Reply)
  | confirmStart (k : Nat) (user : Int)
  | confirmSeat (k : Nat) (i : Fin numSeat)
  | eof (k : Nat)
  deriving DecidableEq

/-- The thread that has answered `q` waits for the next query, or has ended. Source: `client_handler` -/
def afterReply (socket : Int) (q : Query) : Option Conn :=
  if q.action = 0 then none else some ⟨socket, .idle⟩

/-! ## Steps -/

/-- One step of the server. Source: `main`, `client_handler`, `handle_query` -/
inductive Step : Sys → Event → Sys → Prop
  | accept {s : Sys} {socket : Int} (hnonneg : 0 ≤ socket)
      (hfree : ∀ k < s.accepted, ∀ c ∈ s.conn k, c.socket ≠ socket) :
      Step s (.accept s.accepted socket)
        { s.setConn s.accepted (some ⟨socket, .idle⟩) with accepted := s.accepted + 1 }
  | query {s : Sys} {k : Nat} {socket : Int} {q : Query} {st : Server} {r : Reply}
      (hk : s.conn k = some ⟨socket, .idle⟩) (hq : q.action ≠ 3)
      (h : handleQuery s.server socket q = some (st, r)) :
      Step s (.reply k q r) { s.setConn k (afterReply socket q) with server := st }
  | confirmRefused {s : Sys} {k : Nat} {socket user data : Int}
      (hk : s.conn k = some ⟨socket, .idle⟩) (h : isLoggedIn s.server user socket = some false) :
      Step s (.reply k ⟨user, 3, data⟩ .failure) s
  | confirmStart {s : Sys} {k : Nat} {socket user data : Int}
      (hk : s.conn k = some ⟨socket, .idle⟩) (h : isLoggedIn s.server user socket = some true) :
      Step s (.confirmStart k user) (s.setConn k (some ⟨socket, .confirming user data 0 .empty⟩))
  | confirmSeat {s : Sys} {k : Nat} {socket user data : Int} {i : Fin numSeat} {b : Booked}
      (hk : s.conn k = some ⟨socket, .confirming user data i b⟩) :
      Step s (.confirmSeat k i)
        (s.setConn k
          (some ⟨socket, .confirming user data (i + 1) (Pa3.confirmSeat s.server user b i)⟩))
  | confirmEnd {s : Sys} {k : Nat} {socket user data : Int} {b : Booked}
      (hk : s.conn k = some ⟨socket, .confirming user data numSeat b⟩) :
      Step s (.reply k ⟨user, 3, data⟩ (confirmReply (confirmResult b)))
        (s.setConn k (some ⟨socket, .idle⟩))
  | eof {s : Sys} {k : Nat} {socket : Int} (hk : s.conn k = some ⟨socket, .idle⟩) :
      Step s (.eof k) (s.setConn k none)

/-- The inputs of the server: a connection, a query, the scheduler giving a confirm query a
turn, the end of a stream. -/
inductive Input
  | accept (socket : Int)
  | query (k : Nat) (q : Query)
  | turn (k : Nat)
  | eof (k : Nat)

/-- The step function of the server. -/
def step (s : Sys) : Input → Option (Sys × Event)
  | .accept socket =>
      if 0 ≤ socket ∧ ∀ k < s.accepted, ∀ c ∈ s.conn k, c.socket ≠ socket then
        some ({ s.setConn s.accepted (some ⟨socket, .idle⟩) with accepted := s.accepted + 1 },
          .accept s.accepted socket)
      else none
  | .query k q =>
      match s.conn k with
      | some ⟨socket, .idle⟩ =>
          if q.action = 3 then
            match isLoggedIn s.server q.user socket with
            | some true =>
                some (s.setConn k (some ⟨socket, .confirming q.user q.data 0 .empty⟩),
                  .confirmStart k q.user)
            | some false => some (s, .reply k ⟨q.user, 3, q.data⟩ .failure)
            | none => none
          else
            match handleQuery s.server socket q with
            | some (st, r) =>
                some ({ s.setConn k (afterReply socket q) with server := st }, .reply k q r)
            | none => none
      | _ => none
  | .turn k =>
      match s.conn k with
      | some ⟨socket, .confirming user data i b⟩ =>
          if hi : i < numSeat then
            some (s.setConn k
              (some ⟨socket, .confirming user data (i + 1)
                (confirmSeat s.server user b ⟨i, hi⟩)⟩),
              .confirmSeat k ⟨i, hi⟩)
          else if i = numSeat then
            some (s.setConn k (some ⟨socket, .idle⟩),
              .reply k ⟨user, 3, data⟩ (confirmReply (confirmResult b)))
          else none
      | _ => none
  | .eof k =>
      match s.conn k with
      | some ⟨_, .idle⟩ => some (s.setConn k none, .eof k)
      | _ => none

/-- The step function takes steps of the server. -/
theorem step_sound (s : Sys) (a : Input) (s' : Sys) (e : Event) (h : step s a = some (s', e)) :
    Step s e s' := by
  cases a with
  | accept socket =>
      simp only [step] at h
      split_ifs at h with hc
      cases h
      exact .accept hc.1 hc.2
  | query k q =>
      simp only [step] at h
      split at h
      · rename_i socket hk
        split_ifs at h with hq
        · split at h
          · cases h
            exact .confirmStart hk (by assumption)
          · cases h
            exact .confirmRefused hk (by assumption)
          · cases h
        · split at h
          · cases h
            exact .query hk hq (by assumption)
          · cases h
      · cases h
  | turn k =>
      simp only [step] at h
      split at h
      · rename_i socket user data i b hk
        split_ifs at h with hi hi'
        · cases h
          exact @Step.confirmSeat s k socket user data ⟨i, hi⟩ b hk
        · cases h
          exact .confirmEnd (hi' ▸ hk)
      · cases h
  | eof k =>
      simp only [step] at h
      split at h
      · rename_i socket hk
        cases h
        exact .eof hk
      · cases h

/-- A computed run of the server from its start. -/
theorem exists_run (as : List Input) {es : List Event}
    (h : (exec step Sys.init as).map Prod.snd = some es) : ∃ s, Run Step Sys.init es s :=
  exists_run_of_exec step_sound as h

/-- A computed run that leaves connection `k` as `c`. -/
theorem exists_run_conn (as : List Input) {es : List Event} {k : Nat} {c : Option Conn}
    (h : (exec step Sys.init as).map (fun p => (p.2, p.1.conn k)) = some (es, c)) :
    ∃ s, Run Step Sys.init es s ∧ s.conn k = c := by
  obtain ⟨⟨s, es'⟩, hexec, hp⟩ := Option.map_eq_some_iff.mp h
  obtain ⟨rfl, rfl⟩ := Prod.mk.inj hp
  exact ⟨s, exec_run step_sound as hexec, rfl⟩

/-- A computed run whose steps meet `C`. -/
theorem exists_guarded_run {C : Sys → Event → Prop} [∀ s e, Decidable (C s e)] (as : List Input)
    {es : List Event} (h : (exec (guarded step C) Sys.init as).map Prod.snd = some es) :
    ∃ s, Run (Guarded Step C) Sys.init es s :=
  exists_run_of_exec (guarded_sound step_sound) as h

/-! ## What a step does to the tables -/

/-- A step leaves the tables alone, or is the reply to a query with one of the effects. -/
theorem Step.effect {s s' : Sys} {e : Event} (h : Step s e s') :
    s'.server = s.server ∨
      ∃ k q r socket, e = .reply k q r ∧ s.conn k = some ⟨socket, .idle⟩ ∧
        Effect s.server socket q s'.server r.success := by
  cases h with
  | query hk _ hq => exact .inr ⟨_, _, _, _, rfl, hk, handleQuery_effect hq⟩
  | accept | confirmRefused | confirmStart | confirmSeat | confirmEnd | eof => exact .inl rfl

/-- A reply to a query other than confirm is one step of an idle thread. -/
theorem Step.reply {s s' : Sys} {k : Nat} {q : Query} {r : Reply} (h : Step s (.reply k q r) s')
    (hq : q.action ≠ 3) :
    ∃ socket, s.conn k = some ⟨socket, .idle⟩ ∧
      handleQuery s.server socket q = some (s'.server, r) := by
  cases h with
  | query hk _ h => exact ⟨_, hk, h⟩
  | confirmRefused | confirmEnd => exact absurd rfl hq

/-- A query on another socket does not end a session. -/
theorem Effect.loggedIn_of_ne {st st' : Server} {socket socket' : Int} {q : Query} {ok : Bool}
    (h : Effect st socket q st' ok) {c : Fin maxClient} (hin : LoggedIn st c socket')
    (hne : socket' ≠ socket) : LoggedIn st' c socket' := by
  cases h with
  | failed | terminated | booked | confirmed | cancelled => exact hin
  | loggedIn c' pw hpw hfree hpass =>
      have hc : c ≠ c' := by
        rintro rfl
        exact hin.1 hfree
      simpa [LoggedIn, hc] using hin
  | loggedOut c' data hin' =>
      have hc : c ≠ c' := by
        rintro rfl
        exact hne (hin.2.trans hin'.2.symm)
      simpa [LoggedIn, hc] using hin

/-! ## The invariant of the connections -/

/-- Connections get fresh numbers, live connections have distinct sockets, and a confirm query
runs under a session of its own socket. -/
structure Sys.WF (s : Sys) : Prop where
  fresh : ∀ k, s.accepted ≤ k → s.conn k = none
  distinct : ∀ k k' c c', s.conn k = some c → s.conn k' = some c' → c.socket = c'.socket → k = k'
  confirming : ∀ k socket user data i b,
    s.conn k = some ⟨socket, .confirming user data i b⟩ →
      ∃ c : Fin maxClient, user = (c : Nat) ∧ LoggedIn s.server c socket

/-- At the start there are no connections. -/
theorem Sys.wf_init : Sys.init.WF where
  fresh := fun _ _ => rfl
  distinct := by
    intro k k' c c' h
    cases h
  confirming := by
    intro k socket user data i b h
    cases h

/-- A live connection has a number below the next one. -/
theorem Sys.WF.lt_accepted {s : Sys} (hwf : s.WF) {k : Nat} {c : Conn} (hk : s.conn k = some c) :
    k < s.accepted := by
  by_contra hlt
  rw [hwf.fresh k (Nat.le_of_not_lt hlt)] at hk
  cases hk

/-- Changing the thread of a live connection, or closing it, with tables that keep the sessions
of the confirm queries. -/
theorem Sys.WF.setConn {s : Sys} (hwf : s.WF) {k : Nat} {c : Conn} (hk : s.conn k = some c)
    {new : Option Conn} (hsock : ∀ c' ∈ new, c'.socket = c.socket) {st : Server}
    (hnew : ∀ socket user data i b, new = some ⟨socket, .confirming user data i b⟩ →
      ∃ u : Fin maxClient, user = (u : Nat) ∧ LoggedIn st u socket)
    (hother : ∀ u socket, socket ≠ c.socket → LoggedIn s.server u socket → LoggedIn st u socket) :
    Sys.WF { s.setConn k new with server := st } where
  fresh := by
    intro k' hk'
    have hne : k' ≠ k := by
      rintro rfl
      exact absurd (hwf.lt_accepted hk) (Nat.not_lt.mpr hk')
    show (s.setConn k new).conn k' = none
    rw [Sys.setConn_conn_of_ne s new hne]
    exact hwf.fresh k' hk'
  distinct := by
    -- each connection of the new state is one of the old state with the same socket
    have hold : ∀ k' c', (s.setConn k new).conn k' = some c' →
        ∃ d, s.conn k' = some d ∧ d.socket = c'.socket := by
      intro k' c' h'
      rcases Sys.conn_of_setConn h' with ⟨rfl, hnew⟩ | ⟨-, hold⟩
      · exact ⟨c, hk, (hsock c' hnew).symm⟩
      · exact ⟨c', hold, rfl⟩
    intro k₁ k₂ c₁ c₂ h₁ h₂ heq
    obtain ⟨d₁, hd₁, hs₁⟩ := hold k₁ c₁ h₁
    obtain ⟨d₂, hd₂, hs₂⟩ := hold k₂ c₂ h₂
    exact hwf.distinct k₁ k₂ d₁ d₂ hd₁ hd₂ (hs₁.trans (heq.trans hs₂.symm))
  confirming := by
    intro k' socket user data i b h'
    rcases Sys.conn_of_setConn h' with ⟨rfl, hscan⟩ | ⟨hne, hscan⟩
    · exact hnew socket user data i b hscan
    · obtain ⟨u, hu, hin⟩ := hwf.confirming k' socket user data i b hscan
      refine ⟨u, hu, hother u socket ?_ hin⟩
      intro hs
      exact hne (hwf.distinct k' k _ c hscan hk hs)

/-- A connection after a step is one from before it, or the one just accepted. -/
theorem Step.conn_old {s s' : Sys} {e : Event} (h : Step s e s') {k : Nat} {c : Conn}
    (hk : s'.conn k = some c) :
    (∃ c₀, s.conn k = some c₀ ∧ c₀.socket = c.socket) ∨
      (e = .accept k c.socket ∧ k = s.accepted ∧ c.thread = .idle) := by
  -- the case of a step that changes connection `k'`, open on `socket`, into `new`
  have hset : ∀ (k' : Nat) (c' : Conn) (new : Option Conn), s.conn k' = some c' →
      (∀ d ∈ new, d.socket = c'.socket) → (s.setConn k' new).conn k = some c →
      ∃ c₀, s.conn k = some c₀ ∧ c₀.socket = c.socket := by
    intro k' c' new hk' hnew hc
    rcases Sys.conn_of_setConn hc with ⟨rfl, hsome⟩ | ⟨-, hold⟩
    · exact ⟨c', hk', (hnew c hsome).symm⟩
    · exact ⟨c, hold, rfl⟩
  cases h with
  | @accept socket =>
      rcases Sys.conn_of_setConn hk with ⟨rfl, hnew⟩ | ⟨-, hold⟩
      · cases hnew
        exact .inr ⟨rfl, rfl, rfl⟩
      · exact .inl ⟨c, hold, rfl⟩
  | @query k' socket q _ _ hk' =>
      refine .inl (hset k' _ _ hk' ?_ hk)
      intro d hd
      unfold afterReply at hd
      split_ifs at hd with h0
      · cases hd
      · cases hd
        rfl
  | confirmRefused => exact .inl ⟨c, hk, rfl⟩
  | confirmStart hk' => exact .inl (hset _ _ _ hk' (by rintro d ⟨⟩; rfl) hk)
  | confirmSeat hk' => exact .inl (hset _ _ _ hk' (by rintro d ⟨⟩; rfl) hk)
  | confirmEnd hk' => exact .inl (hset _ _ _ hk' (by rintro d ⟨⟩; rfl) hk)
  | eof hk' => exact .inl (hset _ _ _ hk' (by rintro d ⟨⟩) hk)

/-- Every step keeps a state well formed. -/
theorem Step.wf {s s' : Sys} {e : Event} (h : Step s e s') (hwf : s.WF) : s'.WF := by
  cases h with
  | @accept socket _ hfree =>
      have hold : ∀ k c, s.conn k = some c → k ≠ s.accepted ∧ c.socket ≠ socket := by
        intro k c hk
        have hlt := hwf.lt_accepted hk
        exact ⟨hlt.ne, hfree k hlt c hk⟩
      have hconn : ∀ k c, (s.setConn s.accepted (some ⟨socket, .idle⟩)).conn k = some c →
          (k = s.accepted ∧ c = ⟨socket, .idle⟩) ∨ s.conn k = some c := by
        intro k c hk
        rcases Sys.conn_of_setConn hk with ⟨rfl, hnew⟩ | ⟨-, hold⟩
        · exact .inl ⟨rfl, (Option.some.inj hnew).symm⟩
        · exact .inr hold
      refine ⟨?_, ?_, ?_⟩
      · intro k hk
        have hk : s.accepted + 1 ≤ k := hk
        show (s.setConn s.accepted _).conn k = none
        rw [Sys.setConn_conn_of_ne s _ (by omega)]
        exact hwf.fresh k (by omega)
      · intro k₁ k₂ c₁ c₂ h₁ h₂ heq
        rcases hconn k₁ c₁ h₁ with ⟨rfl, rfl⟩ | h₁ <;> rcases hconn k₂ c₂ h₂ with ⟨rfl, rfl⟩ | h₂
        · rfl
        · exact absurd heq.symm (hold k₂ c₂ h₂).2
        · exact absurd heq (hold k₁ c₁ h₁).2
        · exact hwf.distinct k₁ k₂ c₁ c₂ h₁ h₂ heq
      · intro k sock user data i b hk
        rcases hconn k _ hk with ⟨-, hc⟩ | hk
        · cases hc
        · exact hwf.confirming k sock user data i b hk
  | @query k socket q st r hk hq h =>
      apply hwf.setConn hk
      · intro c hc
        unfold afterReply at hc
        split_ifs at hc with h0
        · cases hc
        · cases hc
          rfl
      · intro sock user data i b hc
        unfold afterReply at hc
        split_ifs at hc with h0
        cases hc
      · intro u sock hne hin
        exact (handleQuery_effect h).loggedIn_of_ne hin hne
  | confirmRefused => exact hwf
  | @confirmStart k socket user data hk h =>
      refine hwf.setConn hk (by rintro c ⟨⟩; rfl) ?_ (fun _ _ _ hin => hin)
      rintro sock user' data' i b ⟨⟩
      obtain ⟨c, hc, hin⟩ := exists_fin_of_isLoggedIn h
      exact ⟨c, hc, of_decide_eq_true hin.symm⟩
  | @confirmSeat k socket user data i b hk =>
      refine hwf.setConn hk (by rintro c ⟨⟩; rfl) ?_ (fun _ _ _ hin => hin)
      rintro sock user' data' i' b' ⟨⟩
      exact hwf.confirming k socket user data i b hk
  | @confirmEnd k socket user data b hk =>
      refine hwf.setConn hk (by rintro c ⟨⟩; rfl) ?_ (fun _ _ _ hin => hin)
      rintro sock user' data' i' b' ⟨⟩
  | eof hk =>
      refine hwf.setConn hk (by rintro c ⟨⟩) ?_ (fun _ _ _ hin => hin)
      rintro sock user' data' i' b' ⟨⟩

/-! ## An undisturbed confirm query -/

/-- The second change counts. -/
@[simp] theorem Sys.setConn_setConn (s : Sys) (k : Nat) (c c' : Option Conn) :
    (s.setConn k c).setConn k c' = s.setConn k c' := by
  simp [Sys.setConn]

/-- A change to what is there changes nothing. -/
theorem Sys.setConn_eq_self {s : Sys} {k : Nat} {c : Option Conn} (h : s.conn k = c) :
    s.setConn k c = s := by
  simp [Sys.setConn, ← h]

/-- The turns of a confirm query from iteration `i` to the end of its loop. -/
theorem confirm_scan (s : Sys) (k : Nat) (socket user data : Int) (n : Nat) :
    ∀ i b, i + n = numSeat →
      Run Step (s.setConn k (some ⟨socket, .confirming user data i b⟩))
        (((List.finRange numSeat).drop i).map (.confirmSeat k))
        (s.setConn k (some ⟨socket, .confirming user data numSeat
          (((List.finRange numSeat).drop i).foldl (confirmSeat s.server user) b)⟩)) := by
  induction n with
  | zero =>
      intro i b hi
      have hi : i = numSeat := hi
      subst hi
      rw [List.drop_eq_nil_of_le (by simp)]
      exact .nil
  | succ n ih =>
      intro i b hi
      have hlt : i < numSeat := by omega
      rw [List.drop_eq_getElem_cons (by simpa using hlt), List.getElem_finRange, List.map_cons,
        List.foldl_cons, run_cons_iff]
      refine ⟨_, @Step.confirmSeat _ k socket user data ⟨i, hlt⟩ b (by simp), ?_⟩
      rw [Sys.setConn_setConn]
      exact ih (i + 1) _ (by omega)

/-- **A confirm query that no other step disturbs does what `handle_query` does**: the same
reply, and the tables as they were. -/
theorem confirm_run {s : Sys} {k : Nat} {socket user data : Int} {st : Server} {r : Reply}
    (hk : s.conn k = some ⟨socket, .idle⟩)
    (h : handleQuery s.server socket ⟨user, 3, data⟩ = some (st, r)) :
    st = s.server ∧ ∃ es, Run Step s (es ++ [.reply k ⟨user, 3, data⟩ r]) s := by
  simp only [handleQuery, Option.bind_eq_bind, Option.bind_eq_some_iff, Option.pure_def,
    Option.some.injEq, Prod.mk.injEq] at h
  obtain ⟨buf, hbuf, rfl, rfl⟩ := h
  refine ⟨rfl, ?_⟩
  have hb := hbuf
  simp only [confirmBooking, Option.bind_eq_bind, Option.bind_eq_some_iff] at hb
  obtain ⟨b, hb, -⟩ := hb
  obtain ⟨c, rfl, rfl⟩ := exists_fin_of_isLoggedIn hb
  rw [confirmBooking_val, Option.some.injEq] at hbuf
  split_ifs at hbuf with hin
  · subst hbuf
    have hstart : Step s (.confirmStart k (c : Nat))
        (s.setConn k (some ⟨socket, .confirming (c : Nat) data 0 .empty⟩)) :=
      .confirmStart hk (by simp [hin])
    have hscan := confirm_scan s k socket (c : Nat) data numSeat 0 .empty (by omega)
    rw [List.drop_zero] at hscan
    have hend := @Step.confirmEnd (s.setConn k (some ⟨socket, .confirming (c : Nat) data numSeat
      ((List.finRange numSeat).foldl (confirmSeat s.server (c : Nat)) .empty)⟩)) k socket
      (c : Nat) data _ (Sys.setConn_conn_self ..)
    rw [Sys.setConn_setConn, Sys.setConn_eq_self hk] at hend
    exact ⟨_, .snoc (run_cons_iff.mpr ⟨_, hstart, hscan⟩) hend⟩
  · subst hbuf
    have href : Step s (.reply k ⟨(c : Nat), 3, data⟩ .failure) s :=
      .confirmRefused hk (by simp [hin])
    exact ⟨[], run_singleton_iff.mpr href⟩

/-! ## Successful replies -/

/-- The event is the successful reply to the query `q` of connection `k`. -/
def Succeeds (k : Nat) (q : Query) (e : Event) : Prop :=
  ∃ r, e = .reply k q r ∧ r.success = true

/-- A successful login for client `c` with password `pw` on connection `k`. -/
def LoginOk (k : Nat) (c pw : Int) (e : Event) : Prop := Succeeds k ⟨c, 1, pw⟩ e

/-- A successful book reply for `seat` given to client `c`. -/
def BookOk (c seat : Int) (e : Event) : Prop := ∃ k, Succeeds k ⟨c, 2, seat⟩ e

/-- A successful cancel reply for `seat` given to client `c`. -/
def CancelOk (c seat : Int) (e : Event) : Prop := ∃ k, Succeeds k ⟨c, 4, seat⟩ e

/-- A successful logout of client `c`. -/
def LogoutOk (c : Int) (e : Event) : Prop := ∃ k data, Succeeds k ⟨c, 5, data⟩ e

/-- The tables after a step from `s` with event `e`: the same, or changed in one of four ways,
each announced by a successful reply. -/
inductive Change (s : Sys) (e : Event) : Server → Prop
  | same : Change s e s.server
  | login (k : Nat) (socket : Int) (c : Fin maxClient) (pw : Int) (he : LoginOk k (c : Nat) pw e)
      (hk : s.conn k = some ⟨socket, .idle⟩) (hfree : s.server.session c = 0)
      (hpass : s.server.password c = 0 ∨ s.server.password c = pw) :
      Change s e ((s.server.setPassword c pw).setSession c socket)
  | book (k : Nat) (socket : Int) (c : Fin maxClient) (seat : Fin numSeat)
      (he : BookOk (c : Nat) (seat : Nat) e) (hk : s.conn k = some ⟨socket, .idle⟩)
      (hin : LoggedIn s.server c socket) (hfree : s.server.seats seat = 0) :
      Change s e (s.server.setSeat seat (c : Nat))
  | cancel (k : Nat) (socket : Int) (c : Fin maxClient) (seat : Fin numSeat)
      (he : CancelOk (c : Nat) (seat : Nat) e) (hk : s.conn k = some ⟨socket, .idle⟩)
      (hin : LoggedIn s.server c socket) (hmine : s.server.seats seat = (c : Nat)) :
      Change s e (s.server.setSeat seat 0)
  | logout (k : Nat) (socket : Int) (c : Fin maxClient) (he : LogoutOk (c : Nat) e)
      (hk : s.conn k = some ⟨socket, .idle⟩) (hin : LoggedIn s.server c socket) :
      Change s e (s.server.setSession c 0)

/-- What a step does to the tables. -/
theorem Step.change {s s' : Sys} {e : Event} (h : Step s e s') : Change s e s'.server := by
  rcases h.effect with hsame | ⟨k, q, ⟨response, success⟩, socket, rfl, hk, heff⟩
  · rw [hsame]
    exact .same
  · simp only at heff
    generalize s'.server = st at heff
    cases heff with
    | failed | terminated | confirmed => exact .same
    | loggedIn c pw _ hfree hpass => exact .login k socket c pw ⟨_, rfl, rfl⟩ hk hfree hpass
    | booked c seat hin hfree => exact .book k socket c seat ⟨k, _, rfl, rfl⟩ hk hin hfree
    | cancelled c seat hin _ hmine =>
        exact .cancel k socket c seat ⟨k, _, rfl, rfl⟩ hk hin hmine
    | loggedOut c data hin => exact .logout k socket c ⟨k, data, _, rfl, rfl⟩ hk hin

section inversion

variable {s s' : Sys} {e : Event} {k : Nat} {c pw seat : Int}

/-- The effect behind a successful reply to a query other than confirm. -/
theorem Step.effect_of_succeeds {q : Query} (h : Step s e s') (he : Succeeds k q e)
    (hq : q.action ≠ 3) :
    ∃ socket, s.conn k = some ⟨socket, .idle⟩ ∧ Effect s.server socket q s'.server true := by
  obtain ⟨r, rfl, hr⟩ := he
  obtain ⟨socket, hk, hhandle⟩ := h.reply hq
  have heff := handleQuery_effect hhandle
  rw [hr] at heff
  exact ⟨socket, hk, heff⟩

/-- What a login has done that is answered with success. -/
theorem Step.loginOk (h : Step s e s') (he : LoginOk k c pw e) :
    ∃ (u : Fin maxClient) (socket : Int), c = (u : Nat) ∧ s.conn k = some ⟨socket, .idle⟩ ∧
      0 ≤ pw ∧ s.server.session u = 0 ∧
      (s.server.password u = 0 ∨ s.server.password u = pw) ∧
      s'.server = (s.server.setPassword u pw).setSession u socket := by
  obtain ⟨socket, hk, heff⟩ := h.effect_of_succeeds he (by simp)
  obtain ⟨u, hu, hpw, hfree, hpass, hst⟩ := heff.login_inv
  exact ⟨u, socket, hu, hk, hpw, hfree, hpass, hst⟩

/-- What a booking has done that is answered with success. -/
theorem Step.bookOk (h : Step s e s') (he : BookOk c seat e) :
    ∃ (k : Nat) (u : Fin maxClient) (i : Fin numSeat) (socket : Int), c = (u : Nat) ∧
      seat = (i : Nat) ∧ s.conn k = some ⟨socket, .idle⟩ ∧ LoggedIn s.server u socket ∧
      s.server.seats i = 0 ∧
      s'.server = s.server.setSeat i (u : Nat) := by
  obtain ⟨k, he⟩ := he
  obtain ⟨socket, hk, heff⟩ := h.effect_of_succeeds he (by simp)
  obtain ⟨u, i, hu, hi, hin, hfree, hst⟩ := heff.book_inv
  exact ⟨k, u, i, socket, hu, hi, hk, hin, hfree, hst⟩

/-- What a cancellation has done that is answered with success. -/
theorem Step.cancelOk (h : Step s e s') (he : CancelOk c seat e) :
    ∃ (k : Nat) (u : Fin maxClient) (i : Fin numSeat) (socket : Int), c = (u : Nat) ∧
      seat = (i : Nat) ∧ s.conn k = some ⟨socket, .idle⟩ ∧ LoggedIn s.server u socket ∧
      s.server.seats i ≠ 0 ∧ s.server.seats i = (u : Nat) ∧
      s'.server = s.server.setSeat i 0 := by
  obtain ⟨k, he⟩ := he
  obtain ⟨socket, hk, heff⟩ := h.effect_of_succeeds he (by simp)
  obtain ⟨u, i, hu, hi, hin, hne, hmine, hst⟩ := heff.cancel_inv
  exact ⟨k, u, i, socket, hu, hi, hk, hin, hne, hmine, hst⟩

/-- What a logout has done that is answered with success. -/
theorem Step.logoutOk (h : Step s e s') (he : LogoutOk c e) :
    ∃ (k : Nat) (u : Fin maxClient) (socket : Int), c = (u : Nat) ∧
      s.conn k = some ⟨socket, .idle⟩ ∧ LoggedIn s.server u socket ∧
      s'.server = s.server.setSession u 0 := by
  obtain ⟨k, data, he⟩ := he
  obtain ⟨socket, hk, heff⟩ := h.effect_of_succeeds he (by simp)
  obtain ⟨u, hu, hin, hst⟩ := heff.logout_inv
  exact ⟨k, u, socket, hu, hk, hin, hst⟩

end inversion

end SystemProgrammingLab.Pa3
