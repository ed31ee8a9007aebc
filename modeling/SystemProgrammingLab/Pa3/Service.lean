import SystemProgrammingLab.Found.Simulation
import SystemProgrammingLab.Pa3.Listing
import SystemProgrammingLab.Pa3.System
import Mathlib.Data.Fintype.Card

/-!
# The reservation service behind the server

What the server is for, without its arrays, its socket numbers and its reserved zeros. A `Service` knows
which clients are registered and with which password, over which connection a client is logged in, and
whose a seat is. A `Desk` is a service with its connections: it grants or denies requests one at a time,
and a list of a client's seats takes time. In the meantime the seats may change; the list has all seats
that were the client's throughout, and each seat of it was the client's at some moment.

The server is such a desk (`refines`). A connection has a socket number, which `session` keeps instead of
the connection, and 0 stands for "none" in all three tables. So the statement is about the runs in which
no seat is booked and no list is begun under the id 0, nobody registers with the password 0, and `accept`
returns neither 0 nor a number that is still in `session` (`Proper`).

Source: `pa3/pa3_server.c`
-/

namespace SystemProgrammingLab.Pa3

open SystemProgrammingLab.Found

/-! ## The service -/

/-- Accounts, sessions and seats. -/
structure Service (ι κ π σ : Type*) where
  account : ι → Option π
  session : ι → Option κ
  owner : σ → Option ι

/-- What a client asks for. -/
inductive Request (ι π σ : Type*)
  | login (c : ι) (pw : π)
  | book (c : ι) (seat : σ)
  | cancel (c : ι) (seat : σ)
  | logout (c : ι)

section service

variable {ι κ π σ : Type*}

/-- Nobody is registered and all seats are free. -/
def Service.empty : Service ι κ π σ := ⟨fun _ => none, fun _ => none, fun _ => none⟩

/-- The seats of a client. -/
def Service.seatsOf (s : Service ι κ π σ) (c : ι) : Set σ := {i | s.owner i = some c}

variable [DecidableEq ι] [DecidableEq κ] [DecidableEq π] [DecidableEq σ]

/-- The service after a request over connection `k`, unless it denies it. The first login registers. -/
def Service.grant (s : Service ι κ π σ) (k : κ) : Request ι π σ → Option (Service ι κ π σ)
  | .login c pw =>
      if s.session c = none ∧ (s.account c = none ∨ s.account c = some pw) then
        some { s with
          account := Function.update s.account c (some pw)
          session := Function.update s.session c (some k) }
      else none
  | .book c seat =>
      if s.session c = some k ∧ s.owner seat = none then
        some { s with owner := Function.update s.owner seat (some c) }
      else none
  | .cancel c seat =>
      if s.session c = some k ∧ s.owner seat = some c then
        some { s with owner := Function.update s.owner seat none }
      else none
  | .logout c =>
      if s.session c = some k then some { s with session := Function.update s.session c none } else none

/-! ## The service and its connections -/

/-- A connection waits, or a list of a client's seats is under way; `always` are the seats that were the
client's all the time since, `sometime` those that were at some time. -/
inductive Activity (ι σ : Type*)
  | waiting
  | listing (c : ι) (always sometime : Set σ)

/-- The service has changed. -/
def Activity.watch (s : Service ι κ π σ) : Activity ι σ → Activity ι σ
  | .waiting => .waiting
  | .listing c always sometime => .listing c (always ∩ s.seatsOf c) (sometime ∪ s.seatsOf c)

/-- A service with its connections, those that there were and those that are open. -/
structure Desk (ι κ π σ : Type*) where
  service : Service ι κ π σ
  accepted : Set κ
  line : κ → Option (Activity ι σ)

/-- Before the first connection. -/
def Desk.init : Desk ι κ π σ := ⟨.empty, ∅, fun _ => none⟩

/-- Open, change or close connection `k`. -/
def Desk.setLine (d : Desk ι κ π σ) (k : κ) (a : Option (Activity ι σ)) : Desk ι κ π σ :=
  { d with line := Function.update d.line k a }

/-- The lists under way see the changed service. -/
def Desk.setService (d : Desk ι κ π σ) (s : Service ι κ π σ) : Desk ι κ π σ :=
  { d with service := s, line := fun k => (d.line k).map (Activity.watch s) }

/-- What happens at the desk. -/
inductive Desk.Event (ι κ π σ : Type*)
  | accept (k : κ)
  | granted (k : κ) (q : Request ι π σ)
  | denied (k : κ) (q : Request ι π σ)
  | list (k : κ) (c : ι)
  | listed (k : κ) (c : ι) (seats : Set σ)
  | listDenied (k : κ) (c : ι)
  | invalid (k : κ)
  | close (k : κ)

/-- One step of the desk. -/
inductive Desk.Step : Desk ι κ π σ → Desk.Event ι κ π σ → Desk ι κ π σ → Prop
  | accept {d : Desk ι κ π σ} {k : κ} (hnew : k ∉ d.accepted) :
      Step d (.accept k) { d.setLine k (some .waiting) with accepted := insert k d.accepted }
  | granted {d : Desk ι κ π σ} {k : κ} {q : Request ι π σ} {s : Service ι κ π σ}
      (hk : d.line k = some .waiting) (h : d.service.grant k q = some s) :
      Step d (.granted k q) (d.setService s)
  | denied {d : Desk ι κ π σ} {k : κ} {q : Request ι π σ} (hk : d.line k = some .waiting)
      (h : d.service.grant k q = none) : Step d (.denied k q) d
  | list {d : Desk ι κ π σ} {k : κ} {c : ι} (hk : d.line k = some .waiting)
      (h : d.service.session c = some k) :
      Step d (.list k c) (d.setLine k (some (.listing c (d.service.seatsOf c) (d.service.seatsOf c))))
  | listed {d : Desk ι κ π σ} {k : κ} {c : ι} {always sometime seats : Set σ}
      (hk : d.line k = some (.listing c always sometime)) (hall : always ⊆ seats)
      (hsome : seats ⊆ sometime) : Step d (.listed k c seats) (d.setLine k (some .waiting))
  | listDenied {d : Desk ι κ π σ} {k : κ} {c : ι} (hk : d.line k = some .waiting)
      (h : d.service.session c ≠ some k) : Step d (.listDenied k c) d
  | invalid {d : Desk ι κ π σ} {k : κ} (hk : d.line k = some .waiting) : Step d (.invalid k) d
  | close {d : Desk ι κ π σ} {k : κ} (hk : d.line k = some .waiting) :
      Step d (.close k) (d.setLine k none)

end service

section line

variable {ι κ π σ : Type*} [DecidableEq κ] (d : Desk ι κ π σ) {k k' : κ} (a : Option (Activity ι σ))

/-- What is set for a line is there. -/
@[simp] theorem Desk.setLine_line_self : (d.setLine k a).line k = a := by
  simp [Desk.setLine]

/-- The other lines are as they were. -/
theorem Desk.setLine_line_of_ne (h : k' ≠ k) : (d.setLine k a).line k' = d.line k' := by
  simp [Desk.setLine, h]

end line

/-! ## What the server's events show -/

/-- The desk of the server: passwords are numbers, and connections are numbered. -/
abbrev ServerDesk := Desk (Fin maxClient) Nat Nat (Fin numSeat)

/-- Its events. -/
abbrev DeskEvent := Desk.Event (Fin maxClient) Nat Nat (Fin numSeat)

/-- The query asks for the request. -/
inductive Asks : Query → Request (Fin maxClient) Nat (Fin numSeat) → Prop
  | login (c : Fin maxClient) (pw : Nat) : Asks ⟨(c : Nat), 1, pw⟩ (.login c pw)
  | book (c : Fin maxClient) (seat : Fin numSeat) : Asks ⟨(c : Nat), 2, (seat : Nat)⟩ (.book c seat)
  | cancel (c : Fin maxClient) (seat : Fin numSeat) : Asks ⟨(c : Nat), 4, (seat : Nat)⟩ (.cancel c seat)
  | logout (c : Fin maxClient) (data : Int) : Asks ⟨(c : Nat), 5, data⟩ (.logout c)

/-- The text that says that a request was granted. -/
def Request.text : Request (Fin maxClient) Nat (Fin numSeat) → List Char
  | .login _ _ | .logout _ => ['1']
  | .book _ seat | .cancel _ seat => decimal seat

/-- The reply with a list of seats; there is none for a client without a seat. -/
def listReply (l : List (Fin numSeat)) : Reply :=
  if l = [] then .failure else .ok ([','].intercalate (l.map fun i : Fin numSeat => decimal i))

/-- The events of the desk that an event of the server shows. -/
inductive Shows : Event → List DeskEvent → Prop
  | accept (k : Nat) (socket : Int) : Shows (.accept k socket) [.accept k]
  | granted (k : Nat) {q : Query} {req : Request (Fin maxClient) Nat (Fin numSeat)} (h : Asks q req) :
      Shows (.reply k q (.ok req.text)) [.granted k req]
  | denied (k : Nat) {q : Query} {req : Request (Fin maxClient) Nat (Fin numSeat)} (h : Asks q req) :
      Shows (.reply k q .failure) [.denied k req]
  | invalid (k : Nat) {q : Query} (hq : q.action ≠ 0 ∧ q.action ≠ 3) (h : ∀ req, ¬ Asks q req) :
      Shows (.reply k q .failure) [.invalid k]
  | list (k : Nat) (c : Fin maxClient) : Shows (.confirmStart k (c : Nat)) [.list k c]
  | look (k : Nat) (i : Fin numSeat) : Shows (.confirmSeat k i) []
  | listed (k : Nat) (c : Fin maxClient) (data : Int) {l : List (Fin numSeat)} (h : l.Pairwise (· < ·)) :
      Shows (.reply k ⟨(c : Nat), 3, data⟩ (listReply l)) [.listed k c {i | i ∈ l}]
  | listDenied (k : Nat) (c : Fin maxClient) (data : Int) :
      Shows (.reply k ⟨(c : Nat), 3, data⟩ .failure) [.listDenied k c]
  | terminated (k : Nat) : Shows (.reply k ⟨0, 0, 0⟩ (.ok ['2', '5', '6'])) [.close k]
  | ended (k : Nat) {q : Query} (hq : q.action = 0) : Shows (.reply k q .failure) [.invalid k, .close k]
  | eof (k : Nat) : Shows (.eof k) [.close k]

/-- The zeros stay out of the way: no socket is 0, and none is in a session before it is accepted; who logs in
with password 0 is registered already; and no seat is booked and no list begun for client 0. -/
def Proper (s : Sys) : Event → Prop
  | .accept _ socket => socket ≠ 0 ∧ ∀ c, s.server.session c ≠ socket
  | .reply _ q r =>
      (q.action = 1 → q.data = 0 → ∀ c : Fin maxClient, q.user = (c : Nat) → s.server.password c ≠ 0) ∧
        (q.action = 2 → r.success = true → q.user ≠ 0)
  | .confirmStart _ user => user ≠ 0
  | _ => True

instance (s : Sys) : (e : Event) → Decidable (Proper s e)
  | .accept _ _ => inferInstanceAs (Decidable (_ ∧ _))
  | .reply _ _ _ => inferInstanceAs (Decidable (_ ∧ _))
  | .confirmStart _ _ => inferInstanceAs (Decidable (_ ≠ _))
  | .confirmSeat _ _ | .eof _ => isTrue trivial

/-! ## What the tables hold -/

/-- The cell of `seats` for an owner. -/
def cell (o : Option (Fin maxClient)) : Int := ((o.elim 0 Fin.val : Nat) : Int)

/-- The tables hold the service. -/
structure Keeps (st : Server) (s : Service (Fin maxClient) Nat Nat (Fin numSeat)) : Prop where
  password : ∀ c, st.password c = ((s.account c).getD 0 : Nat)
  account : ∀ c, s.account c ≠ some 0
  seats : ∀ i, st.seats i = cell (s.owner i)
  owner : ∀ i, s.owner i ≠ some 0
  session : ∀ c, st.session c = 0 ↔ s.session c = none

/-- What the server knows of a connection and what the desk does. -/
inductive Line : Option Conn → Option (Activity (Fin maxClient) (Fin numSeat)) → Prop
  | none : Line none none
  | waiting (w : Int) : Line (some ⟨w, .idle⟩) (some .waiting)
  | listing (w : Int) {c : Fin maxClient} (data : Int) {i : Nat} {l : List (Fin numSeat)}
      {always sometime : Set (Fin numSeat)} (hc : c ≠ 0) (hsorted : l.Pairwise (· < ·))
      (hlt : ∀ j ∈ l, (j : Nat) < i) (hall : ∀ j ∈ always, (j : Nat) < i → j ∈ l)
      (hsome : ∀ j ∈ l, j ∈ sometime) :
      Line (some ⟨w, .confirming (c : Nat) data i (bookedOf l)⟩) (some (.listing c always sometime))

/-- The server is the desk. -/
structure Represents (s : Sys) (d : ServerDesk) : Prop where
  wf : s.WF
  holds : Keeps s.server d.service
  accepted : ∀ k, k ∈ d.accepted ↔ k < s.accepted
  old : ∀ c k, d.service.session c = some k → k < s.accepted
  socket : ∀ k conn, s.conn k = some conn →
    conn.socket ≠ 0 ∧ ∀ c, s.server.session c = conn.socket ↔ d.service.session c = some k
  line : ∀ k, Line (s.conn k) (d.line k)
  bounds : ∀ k c always sometime, d.line k = some (.listing c always sometime) →
    always ⊆ d.service.seatsOf c ∧ d.service.seatsOf c ⊆ sometime

section holds

variable {st : Server} {s : Service (Fin maxClient) Nat Nat (Fin numSeat)} {c : Fin maxClient}

/-- A free seat is marked with 0. -/
@[simp] theorem cell_none : cell none = 0 := rfl

/-- A seat that is owned is marked with its owner. -/
@[simp] theorem cell_some (c : Fin maxClient) : cell (some c) = (c : Nat) := rfl

/-- A cell is 0 exactly when the seat is free. -/
theorem Keeps.seats_eq_zero (h : Keeps st s) (i : Fin numSeat) : st.seats i = 0 ↔ s.owner i = none := by
  have hne := h.owner i
  rw [h.seats i]
  rcases hown : s.owner i with _ | c
  · simp
  · rw [hown, ne_eq, Option.some.injEq] at hne
    simp [hne]

/-- A cell has the number of a client exactly when the seat is the client's. -/
theorem Keeps.seats_eq (h : Keeps st s) (hc : c ≠ 0) (i : Fin numSeat) :
    st.seats i = (c : Nat) ↔ s.owner i = some c := by
  rw [h.seats i]
  rcases s.owner i with _ | c'
  · simp [hc, eq_comm]
  · rw [cell_some, Option.some.injEq, Fin.ext_iff, Int.natCast_inj]

/-- A password is 0 exactly when there is no account. -/
theorem Keeps.password_eq_zero (h : Keeps st s) (c : Fin maxClient) :
    st.password c = 0 ↔ s.account c = none := by
  have hne := h.account c
  rw [h.password c]
  rcases hacc : s.account c with _ | p
  · simp
  · rw [hacc, ne_eq, Option.some.injEq] at hne
    simp [hne]

/-- A password in the table is that of the account. -/
theorem Keeps.password_eq (h : Keeps st s) {pw : Nat} (hpw : pw ≠ 0) (c : Fin maxClient) :
    st.password c = pw ↔ s.account c = some pw := by
  rw [h.password c]
  rcases s.account c with _ | p
  · simp [hpw, eq_comm]
  · rw [Option.getD_some, Option.some.injEq, Int.natCast_inj]

end holds

/-! ## Requests -/

/-- What a request over connection `k`, with the socket `w`, may do to a client's session. -/
def Moves (w : Int) (k : Nat) (old new : Int × Option Nat) : Prop :=
  new = old ∨ new = (w, some k) ∨ new = (0, none)

/-- The sessions of the server and the service. -/
def sessions (st : Server) (s : Service (Fin maxClient) Nat Nat (Fin numSeat)) (c : Fin maxClient) :
    Int × Option Nat := (st.session c, s.session c)

section requests

variable {st : Server} {s : Service (Fin maxClient) Nat Nat (Fin numSeat)} {w : Int} {k : Nat}

/-- Setting one session. -/
theorem moves_update (c : Fin maxClient) {new : Int × Option Nat}
    (hnew : new = (w, some k) ∨ new = (0, none)) (c' : Fin maxClient) :
    Moves w k (st.session c', s.session c')
      (Function.update st.session c new.1 c', Function.update s.session c new.2 c') := by
  by_cases hc : c' = c
  · subst hc
    rw [Function.update_self, Function.update_self]
    exact .inr hnew
  · rw [Function.update_of_ne hc, Function.update_of_ne hc]
    exact .inl rfl

/-- A login in the tables is one at the desk. -/
theorem Keeps.login (h : Keeps st s) (hw : w ≠ 0) (c : Fin maxClient) {pw : Nat} (hpw : pw ≠ 0) :
    Keeps ((st.setPassword c pw).setSession c w)
      { s with
        account := Function.update s.account c (some pw)
        session := Function.update s.session c (some k) } where
  password := by
    intro c'
    by_cases hc : c' = c
    · simp [hc]
    · simpa [hc] using h.password c'
  account := by
    intro c'
    by_cases hc : c' = c
    · simpa [hc] using hpw
    · simpa [hc] using h.account c'
  seats := h.seats
  owner := h.owner
  session := by
    intro c'
    by_cases hc : c' = c
    · simp [hc, hw]
    · simpa [hc] using h.session c'

/-- A seat that gets an owner in the tables gets it at the desk. -/
theorem Keeps.setSeat (h : Keeps st s) (i : Fin numSeat) {o : Option (Fin maxClient)} (ho : o ≠ some 0) :
    Keeps (st.setSeat i (cell o)) { s with owner := Function.update s.owner i o } where
  password := h.password
  account := h.account
  seats := by
    intro j
    by_cases hj : j = i
    · simp [hj]
    · simpa [hj] using h.seats j
  owner := by
    intro j
    by_cases hj : j = i
    · simpa [hj] using ho
    · simpa [hj] using h.owner j
  session := h.session

/-- A logout in the tables is one at the desk. -/
theorem Keeps.logout (h : Keeps st s) (c : Fin maxClient) :
    Keeps (st.setSession c 0) { s with session := Function.update s.session c none } where
  password := h.password
  account := h.account
  seats := h.seats
  owner := h.owner
  session := by
    intro c'
    by_cases hc : c' = c
    · simp [hc]
    · simpa [hc] using h.session c'

/-- The number of a seat fits into the response. -/
theorem snprintf_decimal {n : Nat} (hn : n < 1000) : snprintf 4096 (showInt n) = decimal n := by
  have hlen : (decimal n).length ≤ 3 := (length_decimal_le (by omega)).mpr hn
  rw [showInt_natCast, snprintf, List.take_of_length_le (Nat.le_trans hlen (by omega))]

/-- **A request is answered as the service answers it.** -/
theorem Keeps.request (h : Keeps st s) (hw : w ≠ 0) (hin : ∀ c, LoggedIn st c w ↔ s.session c = some k)
    {q : Query} {req : Request (Fin maxClient) Nat (Fin numSeat)} (hasks : Asks q req)
    (hpw : q.action = 1 → q.data = 0 → ∀ c : Fin maxClient, q.user = (c : Nat) → st.password c ≠ 0)
    (huser : q.action = 2 → ∀ st' r, handleQuery st w q = some (st', r) → r.success = true → q.user ≠ 0) :
    (s.grant k req = none ∧ handleQuery st w q = some (st, .failure)) ∨
      ∃ st' s', s.grant k req = some s' ∧ handleQuery st w q = some (st', .ok req.text) ∧ Keeps st' s' ∧
        ∀ c, Moves w k (sessions st s c) (sessions st' s' c) := by
  cases hasks with
  | login c pw =>
      have hzero : pw = 0 → st.password c ≠ 0 := by
        rintro rfl
        exact hpw rfl rfl c rfl
      have hsame : st.password c = pw ↔ s.account c = some pw := by
        by_cases hpw : pw = 0
        · subst hpw
          exact iff_of_false (hzero rfl) (h.account c)
        · exact h.password_eq hpw c
      have hcond : (0 ≤ (pw : Int) ∧ st.session c = 0 ∧ (st.password c = 0 ∨ st.password c = pw)) ↔
          s.session c = none ∧ (s.account c = none ∨ s.account c = some pw) := by
        rw [h.session c, h.password_eq_zero c, hsame]
        exact and_iff_right (Int.natCast_nonneg pw)
      by_cases hgrant : s.session c = none ∧ (s.account c = none ∨ s.account c = some pw)
      · have hpw : pw ≠ 0 := by
          rintro rfl
          rcases hgrant.2 with hnone | hsome
          · exact hzero rfl ((h.password_eq_zero c).mpr hnone)
          · exact h.account c hsome
        refine .inr ⟨_, _, if_pos hgrant, ?_, h.login hw c hpw, moves_update c (.inl rfl)⟩
        simp only [handleQuery, login_val, if_pos (hcond.mpr hgrant)]
        rfl
      · refine .inl ⟨if_neg hgrant, ?_⟩
        simp only [handleQuery, login_val, if_neg (hcond.not.mpr hgrant)]
        rfl
  | book c seat =>
      have hcond : (LoggedIn st c w ∧ st.seats seat = 0) ↔ s.session c = some k ∧ s.owner seat = none := by
        rw [hin c, h.seats_eq_zero seat]
      by_cases hgrant : s.session c = some k ∧ s.owner seat = none
      · have hans : handleQuery st w ⟨(c : Nat), 2, (seat : Nat)⟩ =
            some (st.setSeat seat (c : Nat), .ok (decimal seat)) := by
          simp only [handleQuery, book_val, if_pos (hcond.mpr hgrant)]
          show some (_, Reply.ok (snprintf 4096 (showInt _))) = _
          rw [snprintf_decimal (Nat.lt_of_lt_of_le seat.isLt (by decide))]
        have hc : c ≠ 0 := by
          rintro rfl
          exact huser rfl _ _ hans rfl rfl
        exact .inr ⟨_, _, if_pos hgrant, hans, h.setSeat seat (o := some c) (by simpa using hc),
          fun _ => .inl rfl⟩
      · refine .inl ⟨if_neg hgrant, ?_⟩
        simp only [handleQuery, book_val, if_neg (hcond.not.mpr hgrant)]
        rfl
  | cancel c seat =>
      have hcond : (LoggedIn st c w ∧ st.seats seat ≠ 0 ∧ st.seats seat = (c : Nat)) ↔
          s.session c = some k ∧ s.owner seat = some c := by
        rw [hin c]
        apply and_congr_right
        intro _
        by_cases hc : c = 0
        · subst hc
          have hne := h.owner seat
          simp [hne]
        · have hseat := h.seats_eq hc seat
          rw [hseat]
          apply and_iff_right_of_imp
          intro hown
          rw [ne_eq, h.seats_eq_zero seat, hown]
          simp
      by_cases hgrant : s.session c = some k ∧ s.owner seat = some c
      · refine .inr ⟨_, _, if_pos hgrant, ?_, h.setSeat seat (o := none) (by simp), fun _ => .inl rfl⟩
        simp only [handleQuery, cancelBooking_val, if_pos (hcond.mpr hgrant)]
        show some (_, Reply.ok (snprintf 4096 (showInt _))) = _
        rw [snprintf_decimal (Nat.lt_of_lt_of_le seat.isLt (by decide))]
        rfl
      · refine .inl ⟨if_neg hgrant, ?_⟩
        simp only [handleQuery, cancelBooking_val, if_neg (hcond.not.mpr hgrant)]
        rfl
  | logout c data =>
      by_cases hgrant : s.session c = some k
      · refine .inr ⟨_, _, if_pos hgrant, ?_, h.logout c, moves_update c (.inr rfl)⟩
        simp only [handleQuery, logout_val, if_pos ((hin c).mpr hgrant)]
        rfl
      · refine .inl ⟨if_neg hgrant, ?_⟩
        simp only [handleQuery, logout_val, if_neg ((hin c).not.mpr hgrant)]
        rfl

end requests

/-! ## Lists -/

section lists

variable {o : Option Conn} {a : Option (Activity (Fin maxClient) (Fin numSeat))}

/-- What is watched for a list does not change the lines. -/
theorem Line.watch (h : Line o a) (s : Service (Fin maxClient) Nat Nat (Fin numSeat)) :
    Line o (a.map (Activity.watch s)) := by
  cases h with
  | none => exact .none
  | waiting w => exact .waiting w
  | listing w data hc hsorted hlt hall hsome =>
      exact .listing w data hc hsorted hlt (fun j hj => hall j hj.1) fun j hj => .inl (hsome j hj)

/-- What is listed is no longer than the number of seats. -/
theorem length_le_of_sorted {l : List (Fin numSeat)} (h : l.Pairwise (· < ·)) : l.length ≤ numSeat := by
  have hnodup : l.Nodup := h.imp fun hlt => Fin.ne_of_lt hlt
  calc l.length ≤ Fintype.card (Fin numSeat) := hnodup.length_le_card
    _ = numSeat := Fintype.card_fin numSeat

/-- The reply of the loop. -/
theorem confirmReply_bookedOf {l : List (Fin numSeat)} (h : l.Pairwise (· < ·)) :
    confirmReply (confirmResult (bookedOf l)) = listReply l := by
  unfold listReply
  by_cases hl : l = []
  · subst hl
    rfl
  · have hcount : (bookedOf l).count ≠ 0 := by simpa using hl
    have htext := bookedOf_eq l hl
    have hlen := length_bookedOf_le l
    have hle : l.length ≤ 256 := length_le_of_sorted h
    rw [if_neg hl, confirmResult, if_neg hcount, confirmReply, htext, List.dropLast_concat, snprintf,
      List.take_of_length_le]
    rw [htext, List.length_append, List.length_singleton] at hlen
    omega

end lists

/-! ## The server is a desk -/

section represents

variable {s s' : Sys} {d : ServerDesk} {k : Nat} {conn : Conn} {e : Event}

/-- At the start the desk is empty. -/
theorem represents_init : Represents .init .init where
  wf := Sys.wf_init
  holds := ⟨fun _ => rfl, fun _ => nofun, fun _ => rfl, fun _ => nofun, fun _ => iff_of_true rfl rfl⟩
  accepted := fun k => iff_of_false (Set.notMem_empty k) (Nat.not_lt_zero k)
  old := fun _ _ => nofun
  socket := fun _ _ => nofun
  line := fun _ => .none
  bounds := fun _ _ _ _ => nofun

/-- A client is logged in on the socket of a connection exactly when its session is with the connection. -/
theorem Represents.loggedIn (h : Represents s d) (hk : s.conn k = some conn) (c : Fin maxClient) :
    LoggedIn s.server c conn.socket ↔ d.service.session c = some k := by
  obtain ⟨hne, hsocket⟩ := h.socket k conn hk
  rw [← hsocket c]
  unfold LoggedIn
  constructor
  · exact fun hin => hin.2.symm
  · exact fun heq => ⟨heq ▸ hne, heq.symm⟩

/-- Only connection `k` and its line change. -/
theorem Represents.setLine (h : Represents s d) (hk : s.conn k = some conn) {new : Option Conn}
    (hsock : ∀ c' ∈ new, c'.socket = conn.socket) (hwf : (s.setConn k new).WF)
    {a : Option (Activity (Fin maxClient) (Fin numSeat))} (hline : Line new a)
    (hbounds : ∀ c always sometime, a = some (.listing c always sometime) →
      always ⊆ d.service.seatsOf c ∧ d.service.seatsOf c ⊆ sometime) :
    Represents (s.setConn k new) (d.setLine k a) where
  wf := hwf
  holds := h.holds
  accepted := h.accepted
  old := h.old
  socket := by
    intro k' conn' hk'
    rcases Sys.conn_of_setConn hk' with ⟨rfl, hnew⟩ | ⟨-, hold⟩
    · rw [hsock conn' hnew]
      exact h.socket k' conn hk
    · exact h.socket k' conn' hold
  line := by
    intro k'
    by_cases hne : k' = k
    · subst hne
      rw [Sys.setConn_conn_self, Desk.setLine_line_self]
      exact hline
    · rw [Sys.setConn_conn_of_ne s new hne, Desk.setLine_line_of_ne d a hne]
      exact h.line k'
  bounds := by
    intro k' c always sometime hk'
    by_cases hne : k' = k
    · subst hne
      rw [Desk.setLine_line_self] at hk'
      exact hbounds c always sometime hk'
    · rw [Desk.setLine_line_of_ne d a hne] at hk'
      exact h.bounds k' c always sometime hk'

/-- The tables and the service change. -/
theorem Represents.setService (h : Represents s d) (hk : s.conn k = some conn) {st' : Server}
    {v : Service (Fin maxClient) Nat Nat (Fin numSeat)} (hholds : Keeps st' v)
    (hmoves : ∀ c, Moves conn.socket k (sessions s.server d.service c) (sessions st' v c))
    (hwf : Sys.WF { s with server := st' }) :
    Represents { s with server := st' } (d.setService v) where
  wf := hwf
  holds := hholds
  accepted := h.accepted
  old := by
    intro c k' hk'
    have hk' : v.session c = some k' := hk'
    rcases hmoves c with heq | heq | heq <;> obtain ⟨-, heq⟩ := Prod.mk.inj heq
    · exact h.old c k' (heq ▸ hk')
    · rw [heq] at hk'
      cases hk'
      exact h.wf.lt_accepted hk
    · rw [heq] at hk'
      cases hk'
  socket := by
    intro k' conn' hk'
    obtain ⟨hne, hsocket⟩ := h.socket k' conn' hk'
    refine ⟨hne, fun c => ?_⟩
    show st'.session c = conn'.socket ↔ v.session c = some k'
    rcases hmoves c with heq | heq | heq <;> obtain ⟨heq₁, heq₂⟩ := Prod.mk.inj heq <;> rw [heq₁, heq₂]
    · exact hsocket c
    · -- two connections with one socket are one connection
      rw [Option.some.injEq]
      constructor
      · exact fun hsame => h.wf.distinct k k' conn conn' hk hk' hsame
      · rintro rfl
        rw [hk] at hk'
        cases hk'
        rfl
    · exact iff_of_false hne.symm nofun
  line := fun k' => (h.line k').watch v
  bounds := by
    intro k' c always sometime hk'
    obtain ⟨a, -, ha⟩ := Option.map_eq_some_iff.mp hk'
    cases a with
    | waiting => cases ha
    | listing c' always' sometime' =>
        cases ha
        exact ⟨Set.inter_subset_right, Set.subset_union_right⟩

/-- There is one reply to what fails. -/
theorem handleQuery_failed {st st' : Server} {w : Int} {q : Query} {r : Reply}
    (h : handleQuery st w q = some (st', r)) (hfail : r.success = false) : r = .failure := by
  obtain ⟨user, action, data⟩ := q
  unfold handleQuery at h
  split at h
  · split_ifs at h <;> cases h
    · cases hfail
    · rfl
  all_goals try simp only [Option.bind_eq_bind, Option.bind_eq_some_iff, Option.pure_def,
    Option.some.injEq, Prod.mk.injEq] at h
  · obtain ⟨⟨_, ok⟩, -, -, rfl⟩ := h
    cases ok with
    | true => cases hfail
    | false => rfl
  · obtain ⟨⟨_, seatNum⟩, -, -, rfl⟩ := h
    cases seatNum with
    | some n => cases hfail
    | none => rfl
  · obtain ⟨buf, -, -, rfl⟩ := h
    cases buf with
    | some text => cases hfail
    | none => rfl
  · obtain ⟨⟨_, ok⟩, -, -, rfl⟩ := h
    cases ok with
    | true => cases hfail
    | false => rfl
  · obtain ⟨⟨_, ok⟩, -, -, rfl⟩ := h
    cases ok with
    | true => cases hfail
    | false => rfl
  · exact h.2.symm

/-- A query that asks for nothing fails, or ends the connection. -/
theorem handleQuery_invalid {st st' : Server} {w : Int} {q : Query} {r : Reply} (h3 : q.action ≠ 3)
    (hnone : ∀ req, ¬ Asks q req) (h : handleQuery st w q = some (st', r)) :
    st' = st ∧ (r = .failure ∨ q = ⟨0, 0, 0⟩ ∧ r = .ok ['2', '5', '6']) := by
  have heff := handleQuery_effect h
  cases hr : r.success with
  | false =>
      rw [hr] at heff
      cases heff with
      | failed => exact ⟨rfl, .inl (handleQuery_failed h hr)⟩
  | true =>
      rw [hr] at heff
      cases heff with
      | terminated =>
          refine ⟨rfl, .inr ⟨rfl, ?_⟩⟩
          have hreply : handleQuery st w ⟨0, 0, 0⟩ = some (st, .ok ['2', '5', '6']) := rfl
          rw [hreply] at h
          exact (Prod.mk.inj (Option.some.inj h)).2.symm
      | loggedIn c pw hpw =>
          obtain ⟨n, rfl⟩ := Int.eq_ofNat_of_zero_le hpw
          exact absurd (.login c n) (hnone _)
      | booked c seat => exact absurd (.book c seat) (hnone _)
      | confirmed => exact absurd rfl h3
      | cancelled c seat => exact absurd (.cancel c seat) (hnone _)
      | loggedOut c data => exact absurd (.logout c data) (hnone _)

/-- A request is a query that neither ends the connection nor asks for the list. -/
theorem Asks.action {q : Query} {req : Request (Fin maxClient) Nat (Fin numSeat)} (h : Asks q req) :
    q.action ≠ 0 ∧ q.action ≠ 3 := by
  cases h <;> exact ⟨by simp, by simp⟩

/-- The thread that has answered waits again. -/
theorem setConn_afterReply {w : Int} (hk : s.conn k = some ⟨w, .idle⟩) {q : Query} (hq : q.action ≠ 0) :
    s.setConn k (afterReply w q) = s := by
  rw [afterReply, if_neg hq, Sys.setConn_eq_self hk]

/-- An idle connection waits at the desk. -/
theorem Line.of_idle {w : Int} {a : Option (Activity (Fin maxClient) (Fin numSeat))}
    (h : Line (some ⟨w, .idle⟩) a) : a = some .waiting := by
  cases h with
  | waiting => rfl

/-- The line of an idle connection waits. -/
theorem Represents.waiting (h : Represents s d) {w : Int} (hk : s.conn k = some ⟨w, .idle⟩) :
    d.line k = some .waiting :=
  Line.of_idle (hk ▸ h.line k)

/-- Connection `k` is closed. -/
theorem Represents.close (h : Represents s d) {w : Int} (hk : s.conn k = some ⟨w, .idle⟩)
    (hwf : (s.setConn k none).WF) : Represents (s.setConn k none) (d.setLine k none) :=
  h.setLine hk (by rintro c' ⟨⟩) hwf .none nofun

/-- A query is seen as the request it asks for. -/
theorem Represents.query (h : Represents s d) {w : Int} (hk : s.conn k = some ⟨w, .idle⟩) {q : Query}
    (h3 : q.action ≠ 3) {st' : Server} {r : Reply} (hq : handleQuery s.server w q = some (st', r))
    (hpw : q.action = 1 → q.data = 0 → ∀ c : Fin maxClient, q.user = (c : Nat) → s.server.password c ≠ 0)
    (huser : q.action = 2 → r.success = true → q.user ≠ 0)
    (hwf : Sys.WF { s.setConn k (afterReply w q) with server := st' }) :
    ∃ ds d', Shows (.reply k q r) ds ∧ Run Desk.Step d ds d' ∧
      Represents { s.setConn k (afterReply w q) with server := st' } d' := by
  have hline := h.waiting hk
  have hw : w ≠ 0 := (h.socket k _ hk).1
  by_cases hasks : ∃ req, Asks q req
  · obtain ⟨req, hasks⟩ := hasks
    have hset := setConn_afterReply hk hasks.action.1
    have huser' : q.action = 2 → ∀ st'' r', handleQuery s.server w q = some (st'', r') →
        r'.success = true → q.user ≠ 0 := by
      intro h2 st'' r' hans hr
      rw [hq] at hans
      cases hans
      exact huser h2 hr
    rcases h.holds.request hw (h.loggedIn hk) hasks hpw huser' with
      ⟨hgrant, hans⟩ | ⟨st₁, v, hgrant, hans, hholds, hmoves⟩
    · rw [hans] at hq
      cases hq
      refine exists_matched_one (.denied k hasks) (.denied hline hgrant) ?_
      rw [hset]
      exact h
    · rw [hans] at hq
      cases hq
      rw [hset] at hwf
      refine exists_matched_one (.granted k hasks) (.granted hline hgrant) ?_
      rw [hset]
      exact h.setService hk hholds hmoves hwf
  · obtain ⟨rfl, hr⟩ := handleQuery_invalid h3 (not_exists.mp hasks) hq
    have hsame : { s.setConn k (afterReply w q) with server := s.server } = s.setConn k (afterReply w q) := rfl
    rw [hsame] at hwf ⊢
    by_cases h0 : q.action = 0
    · have hend : afterReply w q = none := if_pos h0
      rw [hend] at hwf ⊢
      have hclosed := h.close hk hwf
      rcases hr with rfl | ⟨rfl, rfl⟩
      · exact ⟨_, _, .ended k h0, run_cons_iff.mpr ⟨d, .invalid hline, run_singleton_iff.mpr (.close hline)⟩,
          hclosed⟩
      · exact exists_matched_one (.terminated k) (.close hline) hclosed
    · have hr : r = .failure := by
        rcases hr with rfl | ⟨rfl, -⟩
        · rfl
        · exact absurd rfl h0
      rw [hr, setConn_afterReply hk h0]
      exact exists_matched_one (.invalid k ⟨h0, h3⟩ (not_exists.mp hasks)) (.invalid hline) h

/-- A new connection is a new line. -/
theorem Represents.accept (h : Represents s d) {w : Int} (hw : w ≠ 0)
    (hfresh : ∀ c, s.server.session c ≠ w)
    (hwf : Sys.WF { s.setConn s.accepted (some ⟨w, .idle⟩) with accepted := s.accepted + 1 }) :
    Represents { s.setConn s.accepted (some ⟨w, .idle⟩) with accepted := s.accepted + 1 }
      { d.setLine s.accepted (some .waiting) with accepted := insert s.accepted d.accepted } where
  wf := hwf
  holds := h.holds
  accepted := by
    intro k
    show k ∈ insert s.accepted d.accepted ↔ k < s.accepted + 1
    rw [Set.mem_insert_iff, h.accepted k]
    omega
  old := fun c k hk => Nat.lt_succ_of_lt (h.old c k hk)
  socket := by
    intro k conn hk
    rcases Sys.conn_of_setConn hk with ⟨rfl, hnew⟩ | ⟨-, hold⟩
    · cases hnew
      refine ⟨hw, fun c => iff_of_false (hfresh c) fun hold => ?_⟩
      exact Nat.lt_irrefl _ (h.old c s.accepted hold)
    · exact h.socket k conn hold
  line := by
    intro k
    show Line ((s.setConn s.accepted _).conn k) ((d.setLine s.accepted _).line k)
    by_cases hne : k = s.accepted
    · subst hne
      rw [Sys.setConn_conn_self, Desk.setLine_line_self]
      exact .waiting w
    · rw [Sys.setConn_conn_of_ne s _ hne, Desk.setLine_line_of_ne d _ hne]
      exact h.line k
  bounds := by
    intro k c always sometime hk
    have hk : (d.setLine s.accepted (some .waiting)).line k = some (.listing c always sometime) := hk
    by_cases hne : k = s.accepted
    · subst hne
      rw [Desk.setLine_line_self] at hk
      cases hk
    · rw [Desk.setLine_line_of_ne d _ hne] at hk
      exact h.bounds k c always sometime hk

/-- One iteration of the loop: the list has the seat if it is the client's now. -/
theorem Represents.look (h : Represents s d) {w user data : Int} {i : Fin numSeat} {b : Booked}
    (hk : s.conn k = some ⟨w, .confirming user data i b⟩) :
    Line (some ⟨w, .confirming user data (i + 1) (confirmSeat s.server user b i)⟩) (d.line k) := by
  have hline := h.line k
  rw [hk] at hline
  generalize ha : d.line k = a at hline
  cases hline with
  | @listing _ c _ _ l always sometime hc hsorted hlt hall hsome =>
      obtain ⟨halways, hsometime⟩ := h.bounds k c always sometime ha
      have hseat : s.server.seats i = (c : Nat) ↔ i ∈ d.service.seatsOf c := h.holds.seats_eq hc i
      rw [confirmSeat_bookedOf]
      by_cases hmine : s.server.seats i = (c : Nat)
      · have hfilter : ([i].filter fun j => s.server.seats j = (c : Nat)) = [i] := by simp [hmine]
        rw [hfilter]
        refine .listing w data hc ?_ ?_ ?_ ?_
        · rw [List.pairwise_append]
          refine ⟨hsorted, List.pairwise_singleton _ _, ?_⟩
          intro j hj i' hi'
          rw [List.mem_singleton.mp hi']
          exact hlt j hj
        · intro j hj
          rcases List.mem_append.mp hj with hj | hj
          · exact Nat.lt_succ_of_lt (hlt j hj)
          · rw [List.mem_singleton.mp hj]
            exact Nat.lt_succ_self _
        · intro j hj hlt'
          rcases Nat.lt_succ_iff_lt_or_eq.mp hlt' with hlt' | heq
          · exact List.mem_append_left _ (hall j hj hlt')
          · exact List.mem_append_right _ (List.mem_singleton.mpr (Fin.ext heq))
        · intro j hj
          rcases List.mem_append.mp hj with hj | hj
          · exact hsome j hj
          · rw [List.mem_singleton.mp hj]
            exact hsometime (hseat.mp hmine)
      · have hfilter : ([i].filter fun j => s.server.seats j = (c : Nat)) = [] := by simp [hmine]
        rw [hfilter, List.append_nil]
        refine .listing w data hc hsorted (fun j hj => Nat.lt_succ_of_lt (hlt j hj)) ?_ hsome
        intro j hj hlt'
        rcases Nat.lt_succ_iff_lt_or_eq.mp hlt' with hlt' | heq
        · exact hall j hj hlt'
        · rw [Fin.ext heq] at hj
          exact absurd (hseat.mpr (halways hj)) hmine

/-- A step of the server is seen at the desk. -/
theorem Represents.step (h : Represents s d) (hstep : Step s e s') (hproper : Proper s e) :
    ∃ ds d', Shows e ds ∧ Run Desk.Step d ds d' ∧ Represents s' d' := by
  have hwf := hstep.wf h.wf
  cases hstep with
  | @accept w hnonneg hfree =>
      have hnew : s.accepted ∉ d.accepted := fun hold => Nat.lt_irrefl _ ((h.accepted _).mp hold)
      exact exists_matched_one (.accept s.accepted w) (.accept hnew) (h.accept hproper.1 hproper.2 hwf)
  | @query k w q st' r hk h3 hq =>
      exact h.query hk h3 hq hproper.1 hproper.2 hwf
  | @confirmRefused k w user data hk hout =>
      obtain ⟨c, rfl, hin⟩ := exists_fin_of_isLoggedIn hout
      have hout : d.service.session c ≠ some k := by
        rw [ne_eq, ← h.loggedIn hk c]
        exact of_decide_eq_false hin.symm
      exact exists_matched_one (.listDenied k c data) (.listDenied (h.waiting hk) hout) h
  | @confirmStart k w user data hk hin =>
      obtain ⟨c, rfl, hlogged⟩ := exists_fin_of_isLoggedIn hin
      have hsession : d.service.session c = some k :=
        (h.loggedIn hk c).mp (of_decide_eq_true hlogged.symm)
      have hc : c ≠ 0 := by
        rintro rfl
        exact hproper rfl
      refine exists_matched_one (.list k c) (.list (h.waiting hk) hsession) ?_
      refine h.setLine hk (by rintro c' ⟨⟩; rfl) hwf ?_ ?_
      · exact .listing (l := []) w data hc .nil nofun (fun j _ hlt => absurd hlt (Nat.not_lt_zero _)) nofun
      · rintro c' always sometime ⟨⟩
        exact ⟨subset_rfl, subset_rfl⟩
  | @confirmSeat k w user data i b hk =>
      refine exists_matched_none (.look k i) ?_
      have hlook := h.look hk
      have hset : d.setLine k (d.line k) = d := by
        simp [Desk.setLine]
      rw [← hset]
      exact h.setLine hk (by rintro c' ⟨⟩; rfl) hwf hlook (h.bounds k)
  | @confirmEnd k w user data b hk =>
      have hline := h.line k
      rw [hk] at hline
      generalize ha : d.line k = a at hline
      cases hline with
      | @listing _ c _ _ l always sometime hc hsorted hlt hall hsome =>
          rw [confirmReply_bookedOf hsorted]
          refine exists_matched_one (.listed k c data hsorted)
            (.listed ha (fun j hj => hall j hj j.isLt) hsome) ?_
          exact h.setLine hk (by rintro c' ⟨⟩; rfl) hwf (.waiting w) nofun
  | @eof k w hk => exact exists_matched_one (.eof k) (.close (h.waiting hk)) (h.close hk hwf)

end represents

/-- **The server is a reservation service.** In every run in which the zeros stay out of the way, what the
server accepts, replies and closes shows, event by event, what happens at a desk, and the tables hold the
desk's accounts, sessions and seats. -/
theorem refines {s : Sys} {es : List Event} (h : Run (Guarded Step Proper) Sys.init es s) :
    ∃ dss d, List.Forall₂ Shows es dss ∧ Run Desk.Step Desk.init dss.flatten d ∧ Represents s d :=
  h.simulated Represents Shows (fun _ _ _ _ hrep hstep => hrep.step hstep.1 hstep.2) represents_init

/-- Client 1 books seat 3, lists its seats, and client 2 cannot book the seat. -/
def bookedOnce : List Input :=
  [.accept 4, .accept 5, .query 0 ⟨1, 1, 7⟩, .query 1 ⟨2, 1, 8⟩, .query 0 ⟨1, 2, 3⟩, .query 0 ⟨1, 3, 0⟩] ++
    List.replicate 257 (.turn 0) ++ [.query 1 ⟨2, 2, 3⟩]

/-- In this run the second client is refused, and at the desk too. -/
theorem refines_bookedOnce : ∃ s es, Run (Guarded Step Proper) Sys.init es s ∧
    es.drop 262 = [.reply 0 ⟨1, 3, 0⟩ (.ok ['3']), .reply 1 ⟨2, 2, 3⟩ .failure] ∧
    ∃ dss d, List.Forall₂ Shows es dss ∧ Run Desk.Step Desk.init dss.flatten d ∧ Represents s d := by
  have h : ((exec (guarded step Proper) Sys.init bookedOnce).map fun p => p.2.drop 262) =
      some [.reply 0 ⟨1, 3, 0⟩ (.ok ['3']), .reply 1 ⟨2, 2, 3⟩ .failure] := by
    decide +kernel
  obtain ⟨⟨s, es⟩, hexec, hlast⟩ := Option.map_eq_some_iff.mp h
  have hrun := exec_run (guarded_sound step_sound) bookedOnce hexec
  exact ⟨s, es, hrun, hlast, refines hrun⟩

end SystemProgrammingLab.Pa3
