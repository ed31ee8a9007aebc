import SystemProgrammingLab.Pa3.System

/-!
# Sessions and passwords over whole runs

**Session authenticity** (`SessionAuthentic`): a query for client `c` that succeeds on connection
`k` was preceded by a login for `c` on `k` itself, with no logout of `c` since. No exit path of
`client_handler` or `handle_query` clears `session[c]`, so the entry survives the connection, and
the next connection that the kernel gives the same socket number is logged in without a login
(`not_sessionAuthentic`). Runs in which no connection is accepted on a number that a session
still holds are authentic (`sessionAuthentic_of_guarded`).

**Password stability** (`PasswordStable`): every successful login for `c` carries the password of
the first one. The value 0 in `password[c]` means "not registered", and 0 is also a password that
`login` and `validate_query` admit: a client that registers with it is registered again by the
next login (`not_passwordStable`). Runs in which `c` does not register with 0 are stable
(`passwordStable_of_guarded`).
-/

namespace SystemProgrammingLab.Pa3

open SystemProgrammingLab.Found

/-! ## Session authenticity -/

/-- A successful book, confirm, cancel or logout query for `c` on connection `k` comes after a
successful login for `c` on `k`, with no successful logout for `c` in between. -/
def SessionAuthentic (es : List Event) : Prop :=
  ∀ pre e post k q, es = pre ++ e :: post → Succeeds k q e → 2 ≤ q.action → q.action ≤ 5 →
    Since (fun x => ∃ pw, LoginOk k q.user pw x) (LogoutOk q.user) pre

/-- The step accepts a connection on a socket number that some session holds. -/
def ReusesSession (s : Sys) : Event → Prop
  | .accept _ socket => ∃ c, LoggedIn s.server c socket
  | _ => False

instance (s : Sys) : (e : Event) → Decidable (ReusesSession s e)
  | .accept .. => inferInstanceAs (Decidable (∃ _, _))
  | .reply .. | .confirmStart .. | .confirmSeat .. | .eof .. => inferInstanceAs (Decidable False)

/-- A session that is still there after a step was not logged out by it. -/
theorem Step.not_logoutOk {s s' : Sys} {e : Event} {c : Fin maxClient} {socket : Int}
    (h : Step s e s') (hin : LoggedIn s'.server c socket) : ¬ LogoutOk (c : Nat) e := by
  intro he
  obtain ⟨-, u, -, hu, -, -, hst⟩ := h.logoutOk he
  obtain rfl : c = u := Fin.ext (by exact_mod_cast hu)
  have hzero : s'.server.session c = 0 := by
    rw [hst, Server.setSession_session, Function.update_self]
  exact hin.1 hzero

/-- A session that a step creates is created by a login on the connection with its socket. -/
theorem Step.loginOk_of_loggedIn {s s' : Sys} {e : Event} {c : Fin maxClient} {socket : Int}
    (h : Step s e s') (hout : ¬ LoggedIn s.server c socket) (hin : LoggedIn s'.server c socket) :
    ∃ k pw, s.conn k = some ⟨socket, .idle⟩ ∧ LoginOk k (c : Nat) pw e := by
  have hchange := h.change
  generalize s'.server = st at hchange hin
  cases hchange with
  | same | book | cancel => exact absurd hin hout
  | login k sock u pw he hk hfree hpass =>
      by_cases hu : c = u
      · subst hu
        have hsock : socket = sock := by simpa [LoggedIn] using hin.2
        subst hsock
        exact ⟨k, pw, hk, he⟩
      · have hold : LoggedIn s.server c socket := by simpa [LoggedIn, hu] using hin
        exact absurd hold hout
  | logout k sock u he hk hu =>
      by_cases huc : c = u
      · subst huc
        have hzero : ((s.server.setSession c 0).session c) = 0 := by simp
        exact absurd hzero hin.1
      · have hold : LoggedIn s.server c socket := by simpa [LoggedIn, huc] using hin
        exact absurd hold hout

/-- A successful query other than terminate and login ran under the session of its client. -/
theorem Step.loggedIn_of_succeeds {s s' : Sys} {e : Event} {k : Nat} {q : Query}
    (h : Step s e s') (hwf : s.WF) (he : Succeeds k q e) (h2 : 2 ≤ q.action)
    (h5 : q.action ≤ 5) :
    ∃ (c : Conn) (u : Fin maxClient), s.conn k = some c ∧ q.user = (u : Nat) ∧
      LoggedIn s.server u c.socket := by
  by_cases h3 : q.action = 3
  · obtain ⟨r, rfl, hr⟩ := he
    cases h with
    | query _ hq => exact absurd h3 hq
    | confirmRefused => cases hr
    | confirmEnd hk =>
        obtain ⟨u, hu, hin⟩ := hwf.confirming _ _ _ _ _ _ hk
        exact ⟨_, u, hk, hu, hin⟩
  · obtain ⟨socket, hk, heff⟩ := h.effect_of_succeeds he h3
    generalize s'.server = st at heff
    cases heff with
    | terminated | loggedIn => simp only at h2; omega
    | confirmed => exact absurd rfl h3
    | booked u _ hin | cancelled u _ hin | loggedOut u _ hin => exact ⟨_, u, hk, rfl, hin⟩

/-- The sessions of live connections come from logins on those connections. -/
def Authentic (es : List Event) (s : Sys) : Prop :=
  ∀ k c (u : Fin maxClient), s.conn k = some c → LoggedIn s.server u c.socket →
    Since (fun x => ∃ pw, LoginOk k (u : Nat) pw x) (LogoutOk (u : Nat)) es

/-- A step that reuses no session keeps the sessions authentic. -/
theorem Step.authentic {es : List Event} {s s' : Sys} {e : Event} (h : Step s e s')
    (hwf : s.WF) (hguard : ¬ ReusesSession s e) (hauth : Authentic es s) :
    Authentic (es ++ [e]) s' := by
  intro k c u hk hin
  rw [since_snoc]
  by_cases hold : LoggedIn s.server u c.socket
  · -- the session is old: so is the connection, and `e` does not end the session
    refine .inr ⟨h.not_logoutOk hin, ?_⟩
    rcases h.conn_old hk with ⟨c₀, hk₀, hsock⟩ | ⟨rfl, -, -⟩
    · rw [← hsock] at hold
      exact hauth k c₀ u hk₀ hold
    · exact absurd ⟨u, hold⟩ hguard
  · -- the session is new: `e` is the login that made it, on the connection with this socket
    obtain ⟨k', pw, hk', he⟩ := h.loginOk_of_loggedIn hold hin
    rcases h.conn_old hk with ⟨c₀, hk₀, hsock⟩ | ⟨rfl, -, -⟩
    · obtain rfl := hwf.distinct k k' c₀ _ hk₀ hk' hsock
      exact .inl ⟨pw, he⟩
    · obtain ⟨r, hr, -⟩ := he
      cases hr

/-- **In a run that accepts no connection on a socket number some session still holds, every
session is authentic.** A query is one step here; what two logins do whose statements overlap is said in
`LoginRace`. -/
theorem sessionAuthentic_of_guarded {es : List Event} {s : Sys}
    (h : Run (Guarded Step fun s e => ¬ ReusesSession s e) Sys.init es s) :
    SessionAuthentic es := by
  rintro pre e post k q rfl he h2 h5
  obtain ⟨s₁, s₂, hpre, ⟨hstep, -⟩, -⟩ := h.split
  have hinv : s₁.WF ∧ Authentic pre s₁ := by
    refine hpre.history (fun es s => s.WF ∧ Authentic es s) ?_ ⟨Sys.wf_init, ?_⟩
    · rintro es t x t' ⟨hwf, hauth⟩ ⟨hs, hguard⟩
      exact ⟨hs.wf hwf, hs.authentic hwf hguard hauth⟩
    · intro k c u hk
      cases hk
  obtain ⟨c, u, hk, hu, hin⟩ := hstep.loggedIn_of_succeeds hinv.1 he h2 h5
  rw [hu]
  exact hinv.2 k c u hk hin

/-- A connection that logs in, books, logs out and ends; its number is used again. -/
def politeRun : List Event :=
  [.accept 0 4, .reply 0 ⟨1, 1, 7⟩ ⟨['1'], true⟩, .reply 0 ⟨1, 2, 5⟩ ⟨['5'], true⟩,
    .reply 0 ⟨1, 5, 0⟩ ⟨['1'], true⟩, .eof 0, .accept 1 4, .reply 1 ⟨1, 1, 7⟩ ⟨['1'], true⟩,
    .reply 1 ⟨1, 4, 5⟩ ⟨['5'], true⟩]

/-- A client that logs out before it leaves. -/
theorem politeRun_sessionAuthentic :
    (∃ s, Run (Guarded Step fun s e => ¬ ReusesSession s e) Sys.init politeRun s) ∧
      SessionAuthentic politeRun := by
  obtain ⟨s, h⟩ : ∃ s, Run (Guarded Step fun s e => ¬ ReusesSession s e) Sys.init politeRun s :=
    exists_guarded_run [.accept 4, .query 0 ⟨1, 1, 7⟩, .query 0 ⟨1, 2, 5⟩, .query 0 ⟨1, 5, 0⟩,
      .eof 0, .accept 4, .query 1 ⟨1, 1, 7⟩, .query 1 ⟨1, 4, 5⟩] (by decide +kernel)
  exact ⟨⟨s, h⟩, sessionAuthentic_of_guarded h⟩

/-- Connection 0 logs in as client 1 and dies; connection 1 gets its socket number and books. -/
def hijack : List Event :=
  [.accept 0 4, .reply 0 ⟨1, 1, 7⟩ ⟨['1'], true⟩, .eof 0, .accept 1 4,
    .reply 1 ⟨1, 2, 5⟩ ⟨['5'], true⟩]

/-- **A connection books for a client that never logged in on it.** -/
theorem not_sessionAuthentic :
    (∃ s, Run Step Sys.init hijack s) ∧ ¬ SessionAuthentic hijack := by
  constructor
  · exact exists_run [.accept 4, .query 0 ⟨1, 1, 7⟩, .eof 0, .accept 4, .query 1 ⟨1, 2, 5⟩]
      (by decide)
  · intro h
    obtain ⟨a, e, b, hsplit, ⟨pw, r, rfl, -⟩, -⟩ :=
      h (hijack.take 4) _ [] 1 ⟨1, 2, 5⟩ rfl ⟨_, rfl, rfl⟩ (by decide) (by decide)
    have hmem : Event.reply 1 ⟨1, 1, pw⟩ r ∈ hijack.take 4 := by
      rw [hsplit]
      simp
    simp [hijack] at hmem

/-! ## Password stability -/

/-- Every successful login for `c` carries the password of the first one. -/
def PasswordStable (c : Int) (es : List Event) : Prop :=
  ∀ pre mid post e₁ e₂ k₁ k₂ p p', es = pre ++ e₁ :: (mid ++ e₂ :: post) →
    (∀ e ∈ pre, ∀ k pw, ¬ LoginOk k c pw e) → LoginOk k₁ c p e₁ → LoginOk k₂ c p' e₂ → p' = p

/-- The step is a login query for `c` with password 0 while `c` is neither registered nor
connected: the login that is accepted and leaves `c` unregistered. -/
def RegistersZero (c : Int) (s : Sys) : Event → Prop
  | .reply _ q _ => q.action = 1 ∧ q.user = c ∧ q.data = 0 ∧
      rd s.server.session c = some 0 ∧ rd s.server.password c = some 0
  | _ => False

instance (c : Int) (s : Sys) : (e : Event) → Decidable (RegistersZero c s e)
  | .reply .. => inferInstanceAs (Decidable (_ ∧ _ ∧ _ ∧ _ ∧ _))
  | .accept .. | .confirmStart .. | .confirmSeat .. | .eof .. => inferInstanceAs (Decidable False)

/-- A password other than 0 stays. -/
theorem Step.password_eq {s s' : Sys} {e : Event} {u : Fin maxClient} {p : Int} (h : Step s e s')
    (hp : p ≠ 0) (hpass : s.server.password u = p) : s'.server.password u = p := by
  have hchange := h.change
  generalize s'.server = st at hchange
  cases hchange with
  | same | book | cancel | logout => exact hpass
  | login k socket v pw he hk hfree hmatch =>
      by_cases huv : u = v
      · subst huv
        rw [Server.setSession_password, Server.setPassword_password, Function.update_self]
        rcases hmatch with hzero | hsame
        · exact absurd (hpass.symm.trans hzero) hp
        · exact hsame.symm.trans hpass
      · rw [Server.setSession_password, Server.setPassword_password, Function.update_of_ne huv]
        exact hpass

/-- **In a run in which `c` does not register with password 0, the password of `c` is stable.** A query is one
step here, so two logins do not overlap; those that do are in `LoginRace`. -/
theorem passwordStable_of_guarded {c : Int} {es : List Event} {s : Sys}
    (h : Run (Guarded Step fun s e => ¬ RegistersZero c s e) Sys.init es s) :
    PasswordStable c es := by
  rintro pre mid post e₁ e₂ k₁ k₂ p p' rfl - he₁ he₂
  obtain ⟨s₁, s₂, -, ⟨hstep₁, hguard⟩, hrun⟩ := h.split
  obtain ⟨s₃, s₄, hmid, ⟨hstep₂, -⟩, -⟩ := hrun.split
  obtain ⟨u, socket, rfl, -, -, hfree, hmatch, hst⟩ := hstep₁.loginOk he₁
  have hp : p ≠ 0 := by
    rintro rfl
    obtain ⟨r, rfl, -⟩ := he₁
    refine hguard ⟨rfl, rfl, rfl, ?_, ?_⟩
    · rw [rd_val, hfree]
    · rw [rd_val, or_self_iff.mp hmatch]
  have hset : s₂.server.password u = p := by
    rw [hst, Server.setSession_password, Server.setPassword_password, Function.update_self]
  have hstay : s₃.server.password u = p :=
    hmid.invariant (fun t => t.server.password u = p) (fun _ _ _ ht hs => hs.1.password_eq hp ht)
      hset
  obtain ⟨v, -, hv, -, -, -, hmatch', -⟩ := hstep₂.loginOk he₂
  obtain rfl : u = v := Fin.ext (by exact_mod_cast hv)
  rcases hmatch' with hzero | hsame
  · exact absurd (hstay.symm.trans hzero) hp
  · exact hsame.symm.trans hstay

/-- Client 1 logs in with 7, out, and in again. -/
def sevenTwice : List Event :=
  [.accept 0 4, .reply 0 ⟨1, 1, 7⟩ ⟨['1'], true⟩, .reply 0 ⟨1, 5, 0⟩ ⟨['1'], true⟩,
    .reply 0 ⟨1, 1, 9⟩ ⟨"-1".toList, false⟩, .reply 0 ⟨1, 1, 7⟩ ⟨['1'], true⟩]

/-- Client 1 logs in with password 7, twice. -/
theorem sevenTwice_passwordStable :
    (∃ s, Run (Guarded Step fun s e => ¬ RegistersZero 1 s e) Sys.init sevenTwice s) ∧
      PasswordStable 1 sevenTwice := by
  obtain ⟨s, h⟩ : ∃ s, Run (Guarded Step fun s e => ¬ RegistersZero 1 s e) Sys.init sevenTwice s :=
    exists_guarded_run [.accept 4, .query 0 ⟨1, 1, 7⟩, .query 0 ⟨1, 5, 0⟩, .query 0 ⟨1, 1, 9⟩,
      .query 0 ⟨1, 1, 7⟩] (by decide)
  exact ⟨⟨s, h⟩, passwordStable_of_guarded h⟩

/-- Client 1 registers with password 0, logs out, and logs in with password 9. -/
def zeroThenNine : List Event :=
  [.accept 0 4, .reply 0 ⟨1, 1, 0⟩ ⟨['1'], true⟩, .reply 0 ⟨1, 5, 0⟩ ⟨['1'], true⟩,
    .reply 0 ⟨1, 1, 9⟩ ⟨['1'], true⟩]

/-- **A client registered with password 0 is logged in with another password.** -/
theorem not_passwordStable :
    (∃ s, Run Step Sys.init zeroThenNine s) ∧ ¬ PasswordStable 1 zeroThenNine := by
  constructor
  · exact exists_run [.accept 4, .query 0 ⟨1, 1, 0⟩, .query 0 ⟨1, 5, 0⟩, .query 0 ⟨1, 1, 9⟩]
      (by decide)
  · intro h
    have hfirst : ∀ e ∈ zeroThenNine.take 1, ∀ k pw, ¬ LoginOk k 1 pw e := by
      rintro e he k pw ⟨r, rfl, -⟩
      simp [zeroThenNine] at he
    have heq := h (zeroThenNine.take 1) [.reply 0 ⟨1, 5, 0⟩ ⟨['1'], true⟩] [] _ _ 0 0 0 9 rfl hfirst
      ⟨_, rfl, rfl⟩ ⟨_, rfl, rfl⟩
    exact absurd heq (by decide)

end SystemProgrammingLab.Pa3
