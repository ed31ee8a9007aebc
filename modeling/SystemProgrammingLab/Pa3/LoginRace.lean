import SystemProgrammingLab.Found.Run
import SystemProgrammingLab.Pa3.Server

/-!
# Logins in parallel

`login` runs without a lock. Here it is the sequence of its reads and writes of `session[c]` and
`password[c]`, one step each (`loginTick`), run by the threads of any number of sockets, together
with `logout`; a login that is not disturbed does what `login` does (`login_run`).

`SingleLogin` says that two different sockets get a successful login reply for one client only
with a successful logout of the client in between. The check of the session and the write of it
are separate steps, so two threads can both pass the check (`not_singleLogin`). Runs in which no
login writes over the session of another socket have the property (`singleLogin_of_guarded`).

Source: `pa3/pa3_server.c`, `login`, `logout`
-/

namespace SystemProgrammingLab.Pa3.LoginRace

open SystemProgrammingLab.Found

/-! ## The steps of a login -/

/-- The next read or write of a login, or its return. Source: `login` -/
inductive Pc
  | sessionSet
  | sessionMine
  | sessionSetAgain
  | sessionOther
  | unregistered
  | register
  | samePassword
  | enter
  | returning (ok : Bool)
  deriving DecidableEq

/-- A login in progress. -/
structure Call where
  client : Fin maxClient
  pw : Int
  pc : Pc
  deriving DecidableEq

/-- The check of the argument, before the first read. Source: `login` -/
def loginStart (pw : Int) : Pc := if pw < 0 then .returning false else .sessionSet

/-- One read or write. Source: `login`, with `is_logged_in` inlined -/
def loginTick (st : Server) (c : Fin maxClient) (pw socket : Int) : Pc → Option (Server × Pc)
  | .sessionSet => some (st, if st.session c ≠ 0 then .sessionMine else .sessionSetAgain)
  | .sessionMine => some (st, if socket = st.session c then .returning false else .sessionSetAgain)
  | .sessionSetAgain => some (st, if st.session c ≠ 0 then .sessionOther else .unregistered)
  | .sessionOther => some (st, if st.session c ≠ socket then .returning false else .unregistered)
  | .unregistered => some (st, if st.password c = 0 then .register else .samePassword)
  | .register => some (st.setPassword c pw, .enter)
  | .samePassword => some (st, if st.password c = pw then .enter else .returning false)
  | .enter => some (st.setSession c socket, .returning true)
  | .returning _ => none

/-- Only the last write of a login touches the sessions, and only it leads to success. -/
theorem loginTick_cases {st st' : Server} {c : Fin maxClient} {pw socket : Int} {pc pc' : Pc}
    (h : loginTick st c pw socket pc = some (st', pc')) :
    (pc = .enter ∧ pc' = .returning true ∧ st' = st.setSession c socket) ∨
      (pc' ≠ .returning true ∧ st'.session = st.session) := by
  cases pc with
  | enter =>
      cases h
      exact .inl ⟨rfl, rfl, rfl⟩
  | register =>
      cases h
      exact .inr ⟨nofun, rfl⟩
  | returning => cases h
  | sessionSet | sessionMine | sessionSetAgain | sessionOther | unregistered | samePassword =>
      simp only [loginTick, Option.some.injEq, Prod.mk.injEq] at h
      obtain ⟨rfl, rfl⟩ := h
      refine .inr ⟨?_, rfl⟩
      split_ifs <;> exact nofun

/-- The tables, and for each socket the login its thread is in, if any. -/
structure Threads where
  server : Server
  call : Int → Option Call

/-- Nobody is logged in, and every thread waits for a query. -/
def Threads.init : Threads := ⟨.init, fun _ => none⟩

/-- The thread of `socket` moves on. -/
def Threads.setCall (s : Threads) (socket : Int) (call : Option Call) : Threads :=
  { s with call := Function.update s.call socket call }

/-- A call that goes on leaves the tables as they are. -/
@[simp] theorem Threads.setCall_server (s : Threads) (socket : Int) (call : Option Call) :
    (s.setCall socket call).server = s.server := rfl

/-- After the move a thread is where it moved to, or where it was. -/
theorem Threads.setCall_cases {s : Threads} {socket k : Int} {call : Option Call} {c : Call}
    (h : (s.setCall socket call).call k = some c) :
    (k = socket ∧ call = some c) ∨ (k ≠ socket ∧ s.call k = some c) := by
  by_cases hk : k = socket
  · subst hk
    exact .inl ⟨rfl, by simpa [Threads.setCall] using h⟩
  · exact .inr ⟨hk, by simpa [Threads.setCall, hk] using h⟩

/-- What can be observed: a login query arrives, a login takes a step, a reply is sent, a logout
query is answered. -/
inductive Event
  | start (socket : Int) (c : Fin maxClient) (pw : Int)
  | tick (socket : Int)
  | reply (socket : Int) (c : Fin maxClient) (ok : Bool)
  | logout (socket : Int) (c : Fin maxClient) (ok : Bool)
  deriving DecidableEq

/-- One step of one thread. Source: `login`, `logout` -/
inductive Step : Threads → Event → Threads → Prop
  | start {s : Threads} {socket pw : Int} {c : Fin maxClient} (hk : s.call socket = none) :
      Step s (.start socket c pw) (s.setCall socket (some ⟨c, pw, loginStart pw⟩))
  | tick {s : Threads} {socket pw : Int} {c : Fin maxClient} {pc pc' : Pc} {st : Server}
      (hk : s.call socket = some ⟨c, pw, pc⟩)
      (h : loginTick s.server c pw socket pc = some (st, pc')) :
      Step s (.tick socket) { s.setCall socket (some ⟨c, pw, pc'⟩) with server := st }
  | reply {s : Threads} {socket pw : Int} {c : Fin maxClient} {ok : Bool}
      (hk : s.call socket = some ⟨c, pw, .returning ok⟩) :
      Step s (.reply socket c ok) (s.setCall socket none)
  | logout {s : Threads} {socket : Int} {c : Fin maxClient} {ok : Bool} {st : Server}
      (hk : s.call socket = none) (h : Pa3.logout s.server (c : Nat) socket = some (st, ok)) :
      Step s (.logout socket c ok) { s with server := st }

/-- The inputs of the threads: a login query, a turn of a thread, a logout query. -/
inductive Input
  | login (socket : Int) (c : Fin maxClient) (pw : Int)
  | turn (socket : Int)
  | logout (socket : Int) (c : Fin maxClient)

/-- The step function of the threads. -/
def step (s : Threads) : Input → Option (Threads × Event)
  | .login socket c pw =>
      match s.call socket with
      | none => some (s.setCall socket (some ⟨c, pw, loginStart pw⟩), .start socket c pw)
      | some _ => none
  | .turn socket =>
      match s.call socket with
      | some ⟨c, _, .returning ok⟩ => some (s.setCall socket none, .reply socket c ok)
      | some ⟨c, pw, pc⟩ =>
          (loginTick s.server c pw socket pc).map fun p =>
            ({ s.setCall socket (some ⟨c, pw, p.2⟩) with server := p.1 }, .tick socket)
      | none => none
  | .logout socket c =>
      match s.call socket with
      | none =>
          (Pa3.logout s.server (c : Nat) socket).map fun p =>
            ({ s with server := p.1 }, .logout socket c p.2)
      | some _ => none

/-- The executable step does steps. -/
theorem step_sound (s : Threads) (a : Input) (s' : Threads) (e : Event)
    (h : step s a = some (s', e)) : Step s e s' := by
  cases a with
  | login socket c pw =>
      simp only [step] at h
      split at h
      · rename_i hk
        cases h
        exact .start hk
      · cases h
  | turn socket =>
      simp only [step] at h
      split at h
      · rename_i hk
        cases h
        exact .reply hk
      · rename_i hk
        obtain ⟨⟨st, pc'⟩, htick, hp⟩ := Option.map_eq_some_iff.mp h
        cases hp
        exact .tick hk htick
      · cases h
  | logout socket c =>
      simp only [step] at h
      split at h
      · rename_i hk
        obtain ⟨⟨st, ok⟩, hout, hp⟩ := Option.map_eq_some_iff.mp h
        cases hp
        exact .logout hk hout
      · cases h

/-! ## A login that is not disturbed -/

/-- The ticks that are left of a login, at most `n`, with nothing in between. -/
def loginRest (c : Fin maxClient) (pw socket : Int) : Nat → Server → Pc → Option (Server × Bool)
  | _, st, .returning ok => some (st, ok)
  | 0, _, _ => none
  | n + 1, st, pc => do
      let (st, pc) ← loginTick st c pw socket pc
      loginRest c pw socket n st pc

/-- The ticks of a login compute `login`. -/
theorem loginRest_eq_login (st : Server) (c : Fin maxClient) (pw socket : Int) :
    loginRest c pw socket 7 st (loginStart pw) = login st (c : Nat) pw socket := by
  rw [login_val]
  unfold loginStart
  by_cases hpw : pw < 0
  · simp [hpw, loginRest]
  · by_cases hs : st.session c = 0
    · by_cases hp : st.password c = 0
      · simp [hpw, hs, hp, loginRest, loginTick, Int.not_lt.mp hpw]
      · by_cases hpp : st.password c = pw
        · rw [Server.setPassword_of_eq hpp]
          simp [hpw, hs, hpp, hpp ▸ hp, loginRest, loginTick, Int.not_lt.mp hpw]
        · simp [hpw, hs, hp, hpp, loginRest, loginTick]
    · by_cases hsock : socket = st.session c
      · simp [hpw, hs, hsock, loginRest, loginTick]
      · simp [hpw, hs, hsock, Ne.symm hsock, loginRest, loginTick]

/-- The ticks that are left of a login, as steps of its thread. -/
theorem loginRest_run {c : Fin maxClient} {pw socket : Int} {ok : Bool} {st' : Server}
    (s : Threads) (n : Nat) :
    ∀ (st : Server) (pc : Pc), loginRest c pw socket n st pc = some (st', ok) →
      ∃ m, Run Step { s.setCall socket (some ⟨c, pw, pc⟩) with server := st }
        (List.replicate m (.tick socket))
        { s.setCall socket (some ⟨c, pw, .returning ok⟩) with server := st' } := by
  induction n with
  | zero =>
      intro st pc h
      cases pc <;> cases h
      exact ⟨0, .nil⟩
  | succ n ih =>
      intro st pc h
      by_cases hret : ∃ ok', pc = .returning ok'
      · obtain ⟨ok', rfl⟩ := hret
        cases h
        exact ⟨0, .nil⟩
      · have htick : ∃ st₁ pc₁, loginTick st c pw socket pc = some (st₁, pc₁) ∧
            loginRest c pw socket n st₁ pc₁ = some (st', ok) := by
          rw [loginRest] at h
          · obtain ⟨⟨st₁, pc₁⟩, htick, hrest⟩ := Option.bind_eq_some_iff.mp h
            exact ⟨st₁, pc₁, htick, hrest⟩
          · intro ok' hpc
            exact hret ⟨ok', hpc⟩
        obtain ⟨st₁, pc₁, htick, hrest⟩ := htick
        obtain ⟨m, hrun⟩ := ih st₁ pc₁ hrest
        refine ⟨m + 1, run_cons_iff.mpr ⟨_, .tick (by simp [Threads.setCall]) htick, ?_⟩⟩
        simpa [Threads.setCall] using hrun

/-- **A login that no other thread disturbs does what `login` does**: the same reply and the same
tables. -/
theorem login_run {s : Threads} {c : Fin maxClient} {pw socket : Int} {st : Server} {ok : Bool}
    (hk : s.call socket = none) (h : login s.server (c : Nat) pw socket = some (st, ok)) :
    ∃ m, Run Step s
      (.start socket c pw :: (List.replicate m (.tick socket) ++ [.reply socket c ok]))
      { s with server := st } := by
  rw [← loginRest_eq_login] at h
  obtain ⟨m, hrun⟩ := loginRest_run s 7 s.server (loginStart pw) h
  refine ⟨m, run_cons_iff.mpr ⟨_, .start hk, run_snoc_iff.mpr ⟨_, hrun, ?_⟩⟩⟩
  have hreply := @Step.reply { s.setCall socket (some ⟨c, pw, .returning ok⟩) with server := st }
    socket pw c ok (by simp [Threads.setCall])
  have hidle : Function.update s.call socket none = s.call := by
    rw [← hk, Function.update_eq_self]
  simpa [Threads.setCall, hidle] using hreply

/-! ## Single login -/

/-- The successful reply to a login for `c` on `socket`. -/
def LoginReply (socket : Int) (c : Fin maxClient) (e : Event) : Prop := e = .reply socket c true

/-- A successful logout of `c`. -/
def LogoutReply (c : Fin maxClient) (e : Event) : Prop := ∃ socket, e = .logout socket c true

/-- Between successful login replies for `c` on two different sockets there is a successful logout
of `c`. -/
def SingleLogin (c : Fin maxClient) (es : List Event) : Prop :=
  ∀ pre mid post e₁ e₂ s₁ s₂, es = pre ++ e₁ :: (mid ++ e₂ :: post) →
    LoginReply s₁ c e₁ → LoginReply s₂ c e₂ → s₁ ≠ s₂ → ∃ e ∈ mid, LogoutReply c e

/-- The step is the write of `session[c]` at the end of a login, over the session of another
socket, or with the socket number 0, the code of "not connected". -/
def Overwrites (s : Threads) : Event → Prop
  | .tick socket => ∃ call ∈ s.call socket, call.pc = .enter ∧
      (socket = 0 ∨ (s.server.session call.client ≠ 0 ∧ s.server.session call.client ≠ socket))
  | _ => False

instance (s : Threads) : (e : Event) → Decidable (Overwrites s e)
  | .tick _ => inferInstanceAs (Decidable (∃ _ ∈ _, _))
  | .start .. | .reply .. | .logout .. => inferInstanceAs (Decidable False)

/-- Apart from such writes, a session ends only with a logout of its client. -/
theorem Step.logoutReply_of_leaves {s s' : Threads} {e : Event} {c : Fin maxClient} {k : Int}
    (h : Step s e s') (hguard : ¬ Overwrites s e) (hin : LoggedIn s.server c k)
    (hout : ¬ LoggedIn s'.server c k) : LogoutReply c e := by
  cases h with
  | start | reply => exact absurd hin hout
  | @tick socket pw c' pc pc' st hk h =>
      rcases loginTick_cases h with ⟨rfl, -, rfl⟩ | ⟨-, hsame⟩
      · by_cases hc : c = c'
        · -- the write is over the session of `k`, which is not that of another socket
          subst hc
          have hk0 : socket ≠ 0 := fun h0 => hguard ⟨_, hk, rfl, .inl h0⟩
          have hsock : s.server.session c = socket := by
            by_contra hne
            exact hguard ⟨_, hk, rfl, .inr ⟨hin.1, hne⟩⟩
          have hnew : (s.server.setSession c socket).session c = socket := by simp
          refine absurd ⟨?_, ?_⟩ hout
          · exact hnew.trans_ne hk0
          · exact (hin.2.trans hsock).trans hnew.symm
        · refine absurd ?_ hout
          simpa [LoggedIn, hc] using hin
      · refine absurd ?_ hout
        show st.session c ≠ 0 ∧ k = st.session c
        rw [hsame]
        exact hin
  | @logout socket c' ok st hk h =>
      rcases logout_cases h with ⟨-, rfl⟩ | ⟨u, hu, rfl, -, rfl⟩
      · exact absurd hin hout
      · obtain rfl : c' = u := Fin.ext (by exact_mod_cast hu)
        by_cases hc : c = c'
        · subst hc
          exact ⟨socket, rfl⟩
        · refine absurd ?_ hout
          simpa [LoggedIn, hc] using hin

/-- A login about to report success holds the session. -/
def Entered (s : Threads) : Prop :=
  ∀ socket c pw, s.call socket = some ⟨c, pw, .returning true⟩ → LoggedIn s.server c socket

/-- A step that overwrites no session keeps track of who has entered. -/
theorem Step.entered {s s' : Threads} {e : Event} (h : Step s e s')
    (hguard : ¬ Overwrites s e) (hent : Entered s) : Entered s' := by
  intro k c pw hk'
  -- a session that was there before the step is there after it, unless the step is a logout
  have hkeep : (∀ socket ok, e ≠ .logout socket c ok) → LoggedIn s.server c k →
      LoggedIn s'.server c k := by
    intro he hin
    by_contra hout
    obtain ⟨socket, rfl⟩ := h.logoutReply_of_leaves hguard hin hout
    exact he socket true rfl
  cases h with
  | @start socket pw' c' hk =>
      rcases Threads.setCall_cases hk' with ⟨rfl, hcall⟩ | ⟨-, hcall⟩
      · simp only [Option.some.injEq, Call.mk.injEq, loginStart] at hcall
        split_ifs at hcall <;> simp at hcall
      · exact hent k c pw hcall
  | @tick socket pw' c' pc pc' st hk h =>
      rcases Threads.setCall_cases hk' with ⟨rfl, hcall⟩ | ⟨-, hcall⟩
      · -- the thread of `k` itself: this was the write of the session
        simp only [Option.some.injEq, Call.mk.injEq] at hcall
        obtain ⟨rfl, rfl, rfl⟩ := hcall
        rcases loginTick_cases h with ⟨rfl, -, rfl⟩ | ⟨hne, -⟩
        · have hk0 : k ≠ 0 := fun h0 => hguard ⟨_, hk, rfl, .inl h0⟩
          have hnew : (s.server.setSession c' k).session c' = k := by simp
          exact ⟨hnew.trans_ne hk0, hnew.symm⟩
        · exact absurd rfl hne
      · exact hkeep (fun _ _ => nofun) (hent k c pw hcall)
  | @reply socket pw' c' ok hk =>
      rcases Threads.setCall_cases hk' with ⟨-, hcall⟩ | ⟨-, hcall⟩
      · cases hcall
      · exact hent k c pw hcall
  | @logout socket c' ok st hk h =>
      have hin := hent k c pw hk'
      rcases logout_cases h with ⟨-, rfl⟩ | ⟨u, -, -, hin', rfl⟩
      · exact hin
      · -- the session of `k` is not the one that ends
        have hc : c ≠ u := by
          rintro rfl
          have hsame : socket = k := hin'.2.trans hin.2.symm
          subst hsame
          rw [hk] at hk'
          cases hk'
        simpa [LoggedIn, hc] using hin

/-- The session is on the socket that gets a successful login reply, before and after it. -/
theorem Step.loginReply {s s' : Threads} {e : Event} {socket : Int} {c : Fin maxClient}
    (h : Step s e s') (he : LoginReply socket c e) (hent : Entered s) :
    LoggedIn s.server c socket ∧ LoggedIn s'.server c socket := by
  subst he
  cases h with
  | reply hk => exact ⟨hent _ _ _ hk, hent _ _ _ hk⟩

/-- **In a run in which no login writes over the session of another socket, a client is logged in
on one socket at a time.** -/
theorem singleLogin_of_guarded {c : Fin maxClient} {es : List Event} {s : Threads}
    (h : Run (Guarded Step fun s e => ¬ Overwrites s e) Threads.init es s) :
    SingleLogin c es := by
  rintro pre mid post e₁ e₂ k₁ k₂ rfl he₁ he₂ hne
  have hentered : ∀ {es t}, Run (Guarded Step fun s e => ¬ Overwrites s e) Threads.init es t →
      Entered t := by
    intro es t hrun
    apply hrun.invariant Entered (fun _ _ _ hent hs => hs.1.entered hs.2 hent)
    intro socket c pw hk
    cases hk
  obtain ⟨s₁, s₂, hpre, hstep₁, hrun⟩ := h.split
  obtain ⟨s₃, s₄, hmid, hstep₂, -⟩ := hrun.split
  -- after the first reply the session is on `k₁`, at the second one on `k₂`
  have hin₁ := (hstep₁.1.loginReply he₁ (hentered hpre)).2
  have hreach : Run (Guarded Step fun s e => ¬ Overwrites s e) Threads.init
      ((pre ++ [e₁]) ++ mid) s₃ := run_append_iff.mpr ⟨s₂, hpre.snoc hstep₁, hmid⟩
  have hin₂ := (hstep₂.1.loginReply he₂ (hentered hreach)).1
  have hout : ¬ LoggedIn s₃.server c k₁ := fun hin => hne (hin.2.trans hin₂.2.symm)
  obtain ⟨a, e, b, t₁, t₂, rfl, -, ⟨hstep, hguard⟩, ht₁, ht₂⟩ :=
    hmid.exists_leaves (fun t => LoggedIn t.server c k₁) hin₁ hout
  exact ⟨e, by simp, hstep.logoutReply_of_leaves hguard ht₁ ht₂⟩

/-- Client 1 logs in on socket 4, out, and in on socket 5; each login runs by itself. -/
def oneByOne : List Event :=
  [.start 4 1 7, .tick 4, .tick 4, .tick 4, .tick 4, .tick 4, .reply 4 1 true, .logout 4 1 true,
    .start 5 1 7, .tick 5, .tick 5, .tick 5, .tick 5, .tick 5, .reply 5 1 true]

/-- Logins one after the other. -/
theorem oneByOne_singleLogin :
    (∃ s, Run (Guarded Step fun s e => ¬ Overwrites s e) Threads.init oneByOne s) ∧
      SingleLogin 1 oneByOne := by
  obtain ⟨s, h⟩ : ∃ s, Run (Guarded Step fun s e => ¬ Overwrites s e) Threads.init oneByOne s :=
    exists_run_of_exec (guarded_sound step_sound)
      [.login 4 1 7, .turn 4, .turn 4, .turn 4, .turn 4, .turn 4, .turn 4, .logout 4 1,
        .login 5 1 7, .turn 5, .turn 5, .turn 5, .turn 5, .turn 5, .turn 5] (by decide)
  exact ⟨⟨s, h⟩, singleLogin_of_guarded h⟩

/-- Two logins for client 1 that pass their checks before either writes. -/
def bothPass : List Event :=
  [.start 4 1 7, .start 5 1 7, .tick 4, .tick 5, .tick 4, .tick 5, .tick 4, .tick 5, .tick 4,
    .tick 5, .tick 4, .tick 5, .reply 4 1 true, .reply 5 1 true]

/-- **Client 1 is told on two sockets that it is logged in**, with no logout. -/
theorem not_singleLogin :
    (∃ s, Run Step Threads.init bothPass s) ∧ ¬ SingleLogin 1 bothPass := by
  constructor
  · exact exists_run_of_exec step_sound
      [.login 4 1 7, .login 5 1 7, .turn 4, .turn 5, .turn 4, .turn 5, .turn 4, .turn 5, .turn 4,
        .turn 5, .turn 4, .turn 5, .turn 4, .turn 5] (by decide)
  · intro h
    obtain ⟨e, he, -⟩ := h (bothPass.take 12) [] [] _ _ 4 5 rfl rfl rfl (by decide)
    cases he

end SystemProgrammingLab.Pa3.LoginRace
