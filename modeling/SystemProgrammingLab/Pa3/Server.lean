import SystemProgrammingLab.Found.CArray
import SystemProgrammingLab.Found.Decimal
import Mathlib.Algebra.GroupWithZero.Nat
import Mathlib.Data.List.FinRange

/-!
# The reservation server: tables, operations, `handle_query`

The tables of `pa3_server.c` and the five operations on them, as one thread runs them from
beginning to end. A client socket is passed by value. An access outside of a table is `none`;
`login` reads `session[client_id]` through `is_logged_in` before it checks `client_id`, so an
out-of-range id is undefined for it as for the others. A critical section of `lock[seat]` is
atomic for the other threads and appears here as plain code.

`Effect` says once what a query can do to the tables (`handleQuery_effect`), and the developments
on runs read the operations only through it.

Source: `pa3/pa3_server.c`
-/

namespace SystemProgrammingLab.Pa3

open SystemProgrammingLab.Found

/-! ## The tables -/

/-- Source: `NUM_SEAT` -/
abbrev numSeat : Nat := 256

/-- Source: `MAX_CLIENT` -/
abbrev maxClient : Nat := 1024

instance : NeZero numSeat := ⟨Nat.succ_ne_zero 255⟩

instance : NeZero maxClient := ⟨Nat.succ_ne_zero 1023⟩

/-- The global arrays of the server. Source: `password`, `session`, `seats` -/
structure Server where
  /-- index: client id, value: password, if value is 0, client is not registered -/
  password : Fin maxClient → Int
  /-- index: client id, value: client socket, if value is 0, client is not connected -/
  session : Fin maxClient → Int
  /-- index: seat number, value: client id, if value is 0, seat is not occupied -/
  seats : Fin numSeat → Int

/-- The tables at program start: static storage is zero. Source: `pa3_server.c` -/
def Server.init : Server := ⟨fun _ => 0, fun _ => 0, fun _ => 0⟩

/-- `password[c] = v` -/
def Server.setPassword (st : Server) (c : Fin maxClient) (v : Int) : Server :=
  { st with password := Function.update st.password c v }

/-- `session[c] = v` -/
def Server.setSession (st : Server) (c : Fin maxClient) (v : Int) : Server :=
  { st with session := Function.update st.session c v }

/-- `seats[i] = v` -/
def Server.setSeat (st : Server) (i : Fin numSeat) (v : Int) : Server :=
  { st with seats := Function.update st.seats i v }

section fields

variable (st : Server) (c : Fin maxClient) (i : Fin numSeat) (v : Int)

/-- A write of a password changes the cell of the client. -/
@[simp] theorem Server.setPassword_password :
    (st.setPassword c v).password = Function.update st.password c v := rfl

/-- A write of a password changes no session. -/
@[simp] theorem Server.setPassword_session : (st.setPassword c v).session = st.session := rfl

/-- A write of a password changes no seat. -/
@[simp] theorem Server.setPassword_seats : (st.setPassword c v).seats = st.seats := rfl

/-- A write of a session changes no password. -/
@[simp] theorem Server.setSession_password : (st.setSession c v).password = st.password := rfl

/-- A write of a session changes the cell of the client. -/
@[simp] theorem Server.setSession_session :
    (st.setSession c v).session = Function.update st.session c v := rfl

/-- A write of a session changes no seat. -/
@[simp] theorem Server.setSession_seats : (st.setSession c v).seats = st.seats := rfl

/-- A write of a seat changes no password. -/
@[simp] theorem Server.setSeat_password : (st.setSeat i v).password = st.password := rfl

/-- A write of a seat changes no session. -/
@[simp] theorem Server.setSeat_session : (st.setSeat i v).session = st.session := rfl

/-- A write of a seat changes the cell of the seat. -/
@[simp] theorem Server.setSeat_seats :
    (st.setSeat i v).seats = Function.update st.seats i v := rfl

/-- Writing the password that is there changes nothing. -/
theorem Server.setPassword_of_eq {st : Server} {c : Fin maxClient} {v : Int}
    (h : st.password c = v) : st.setPassword c v = st := by
  unfold Server.setPassword
  rw [← h, Function.update_eq_self]

end fields

/-- The record a client sends. The client's program calls the third field `seat`.
Source: `query` -/
structure Query where
  user : Int
  action : Int
  data : Int
  deriving DecidableEq

/-! ## The operations -/

/-- Source: `is_logged_in` -/
def isLoggedIn (st : Server) (clientId socket : Int) : Option Bool := do
  let s ← rd st.session clientId
  return decide (s ≠ 0 ∧ socket = s)

/-- Source: `login` -/
def login (st : Server) (clientId pw socket : Int) : Option (Server × Bool) := do
  if pw < 0 then return (st, false)
  if ← isLoggedIn st clientId socket then return (st, false)
  if clientId < 0 ∨ clientId ≥ maxClient then return (st, false)
  -- already logged in from other client
  let s ← rd st.session clientId
  if s ≠ 0 ∧ s ≠ socket then return (st, false)
  let p ← rd st.password clientId
  -- not registered
  if p = 0 then
    let password ← wr st.password clientId pw
    let session ← wr st.session clientId socket
    return ({ st with password, session }, true)
  if p = pw then
    let session ← wr st.session clientId socket
    return ({ st with session }, true)
  return (st, false)

/-- `some n` is the return value `true` with `*seat_num = n`. Source: `book` -/
def book (st : Server) (clientId seat socket : Int) : Option (Server × Option Int) := do
  if !(← isLoggedIn st clientId socket) then return (st, none)
  if seat < 0 ∨ seat ≥ numSeat then return (st, none)
  let owner ← rd st.seats seat
  if owner = 0 then
    let seats ← wr st.seats seat clientId
    return ({ st with seats }, some seat)
  return (st, none)

/-- The variables of the loop of `confirm_booking`: the string built in `booked` and `booked_count`. Source:
`confirm_booking` -/
structure Booked where
  text : List Char
  count : Nat
  deriving DecidableEq

/-- `booked` is empty and `booked_count` is 0 before the loop. -/
def Booked.empty : Booked := ⟨[], 0⟩

/-- One iteration of the loop of `confirm_booking`, under `lock[i]`. Source: `confirm_booking` -/
def confirmSeat (st : Server) (clientId : Int) (b : Booked) (i : Fin numSeat) : Booked :=
  if st.seats i = clientId then
    ⟨b.text ++ snprintf 5 (decimal i ++ [',']), b.count + 1⟩
  else b

/-- What `confirm_booking` does after its loop: `some` is the return value `true` with the text without its last
comma. Source: `confirm_booking` -/
def confirmResult (b : Booked) : Option (List Char) :=
  if b.count = 0 then none else some b.text.dropLast

/-- Source: `confirm_booking` -/
def confirmBooking (st : Server) (clientId socket : Int) : Option (Option (List Char)) := do
  if !(← isLoggedIn st clientId socket) then return none
  return confirmResult ((List.finRange numSeat).foldl (confirmSeat st clientId) Booked.empty)

/-- Source: `cancel_booking` -/
def cancelBooking (st : Server) (clientId seat socket : Int) : Option (Server × Bool) := do
  if !(← isLoggedIn st clientId socket) then return (st, false)
  if seat < 0 ∨ seat ≥ numSeat then return (st, false)
  let owner ← rd st.seats seat
  if owner = 0 then return (st, false)
  if owner = clientId then
    let seats ← wr st.seats seat 0
    return ({ st with seats }, true)
  return (st, false)

/-- Source: `logout` -/
def logout (st : Server) (clientId socket : Int) : Option (Server × Bool) := do
  if !(← isLoggedIn st clientId socket) then return (st, false)
  let session ← wr st.session clientId 0
  return ({ st with session }, true)

/-! ## One query -/

/-- What `handle_query` writes to the socket, and its variable `success`. Source: `handle_query` -/
structure Reply where
  response : List Char
  success : Bool
  deriving DecidableEq

/-- The reply to a query that failed. Source: `handle_query` -/
def Reply.failure : Reply := ⟨snprintf 4096 (showInt (-1)), false⟩

/-- The reply of a query that succeeded with the given text. Source: `handle_query` -/
def Reply.ok (response : List Char) : Reply := ⟨response, true⟩

/-- The reply for the result of `confirm_booking`. Source: `handle_query` -/
def confirmReply : Option (List Char) → Reply
  | some buf => .ok (snprintf 4096 buf)
  | none => .failure

/-- The tables and the reply after one query. The thread ends the connection after a query with
action 0, successful or not; that is left to `Thread` and its steps. Source: `handle_query` -/
def handleQuery (st : Server) (socket : Int) (q : Query) : Option (Server × Reply) :=
  match q.action with
  | 0 => -- terminate connection
      if q.data = 0 ∧ q.user = 0 then some (st, .ok (snprintf 4096 (showInt 256)))
      else some (st, .failure)
  | 1 => do -- login
      let (st, ok) ← login st q.user q.data socket
      return (st, if ok then .ok ['1'] else .failure)
  | 2 => do -- book
      let (st, seatNum) ← book st q.user q.data socket
      return (st, seatNum.elim .failure fun n => .ok (snprintf 4096 (showInt n)))
  | 3 => do -- confirm booking
      let buf ← confirmBooking st q.user socket
      return (st, confirmReply buf)
  | 4 => do -- cancel booking
      let (st, ok) ← cancelBooking st q.user q.data socket
      return (st, if ok then .ok (snprintf 4096 (showInt q.data)) else .failure)
  | 5 => do -- logout
      let (st, ok) ← logout st q.user socket
      return (st, if ok then .ok ['1'] else .failure)
  | _ => some (st, .failure)

/-- The five actions of the clients. -/
theorem action_cases {a : Int} (h1 : 1 ≤ a) (h5 : a ≤ 5) : a = 1 ∨ a = 2 ∨ a = 3 ∨ a = 4 ∨ a = 5 := by omega

/-! ## The operations for an id inside the tables -/

/-- The session of `c` is on this socket. -/
def LoggedIn (st : Server) (c : Fin maxClient) (socket : Int) : Prop :=
  st.session c ≠ 0 ∧ socket = st.session c

instance (st : Server) (c : Fin maxClient) (socket : Int) : Decidable (LoggedIn st c socket) :=
  inferInstanceAs (Decidable (_ ∧ _))

section inRange

variable (st : Server) (c : Fin maxClient) (seat : Fin numSeat) (pw socket : Int)

/-- `is_logged_in` for a client of the table. -/
@[simp] theorem isLoggedIn_val :
    isLoggedIn st (c : Nat) socket = some (decide (LoggedIn st c socket)) := by
  simp only [isLoggedIn, rd_val, LoggedIn]
  rfl

/-- A login is accepted when the password is not negative, nobody has the session, and the
client is unregistered or the password is its own. -/
theorem login_val :
    login st (c : Nat) pw socket =
      some (if 0 ≤ pw ∧ st.session c = 0 ∧ (st.password c = 0 ∨ st.password c = pw) then
        ((st.setPassword c pw).setSession c socket, true)
      else (st, false)) := by
  have hc : ¬ (((c : Nat) : Int) < 0 ∨ ((c : Nat) : Int) ≥ maxClient) :=
    not_outside c
  unfold login
  simp only [isLoggedIn_val, Option.bind_eq_bind, Option.bind_some, if_neg hc, rd_val, wr_val]
  by_cases hpw : pw < 0
  · simp [hpw, Int.not_le.mpr hpw]
  by_cases hs : st.session c = 0
  · by_cases hp : st.password c = 0
    · simp [hpw, hs, hp, LoggedIn, Int.not_lt.mp hpw, Server.setPassword, Server.setSession]
    · by_cases hpp : st.password c = pw
      · rw [Server.setPassword_of_eq hpp]
        simp [hpw, hs, hpp, LoggedIn, Int.not_lt.mp hpw, hpp ▸ hp, Server.setSession]
      · simp [hpw, hs, hp, hpp, LoggedIn]
  · by_cases hsock : socket = st.session c
    · simp [hpw, hs, hsock, LoggedIn]
    · simp [hpw, hs, LoggedIn, hsock, Ne.symm hsock]

/-- `book` for a client and a seat of the tables. -/
theorem book_val :
    book st (c : Nat) (seat : Nat) socket =
      some (if LoggedIn st c socket ∧ st.seats seat = 0 then
        (st.setSeat seat (c : Nat), some ((seat : Nat) : Int))
      else (st, none)) := by
  have hseat : ¬ (((seat : Nat) : Int) < 0 ∨ ((seat : Nat) : Int) ≥ numSeat) :=
    not_outside seat
  unfold book
  simp only [isLoggedIn_val, Option.bind_eq_bind, Option.bind_some, if_neg hseat, rd_val, wr_val]
  by_cases hin : LoggedIn st c socket
  · by_cases hfree : st.seats seat = 0 <;> simp [hin, hfree, Server.setSeat]
  · simp [hin]

/-- `cancel_booking` for a client and a seat of the tables. -/
theorem cancelBooking_val :
    cancelBooking st (c : Nat) (seat : Nat) socket =
      some (if LoggedIn st c socket ∧ st.seats seat ≠ 0 ∧ st.seats seat = (c : Nat) then
        (st.setSeat seat 0, true)
      else (st, false)) := by
  have hseat : ¬ (((seat : Nat) : Int) < 0 ∨ ((seat : Nat) : Int) ≥ numSeat) :=
    not_outside seat
  unfold cancelBooking
  simp only [isLoggedIn_val, Option.bind_eq_bind, Option.bind_some, if_neg hseat, rd_val, wr_val]
  by_cases hin : LoggedIn st c socket
  · by_cases hfree : st.seats seat = 0
    · simp [hin, hfree]
    · by_cases hmine : st.seats seat = (c : Nat)
      · have hc : c ≠ 0 := fun h => hfree (by rw [hmine, h]; rfl)
        simp [hin, hmine, hc, Server.setSeat]
      · simp [hin, hfree, hmine]
  · simp [hin]

/-- `logout` for a client of the table. -/
theorem logout_val :
    logout st (c : Nat) socket =
      some (if LoggedIn st c socket then
        (st.setSession c 0, true)
      else (st, false)) := by
  unfold logout
  by_cases hin : LoggedIn st c socket <;> simp [hin, Server.setSession]

/-- `confirm_booking` for a client of the table. -/
theorem confirmBooking_val :
    confirmBooking st (c : Nat) socket =
      some (if LoggedIn st c socket then
        confirmResult ((List.finRange numSeat).foldl (confirmSeat st (c : Nat)) Booked.empty)
      else none) := by
  unfold confirmBooking
  by_cases hin : LoggedIn st c socket <;> simp [hin]

/-- A book query for a number that is no seat fails. -/
theorem book_of_no_seat {seat : Int} (h : seat < 0 ∨ seat ≥ numSeat) :
    book st (c : Nat) seat socket = some (st, none) := by
  unfold book
  simp only [isLoggedIn_val, Option.bind_eq_bind, Option.bind_some, if_pos h]
  by_cases hin : LoggedIn st c socket <;> simp [hin]

/-- A cancel query for a number that is no seat fails. -/
theorem cancelBooking_of_no_seat {seat : Int} (h : seat < 0 ∨ seat ≥ numSeat) :
    cancelBooking st (c : Nat) seat socket = some (st, false) := by
  unfold cancelBooking
  simp only [isLoggedIn_val, Option.bind_eq_bind, Option.bind_some, if_pos h]
  by_cases hin : LoggedIn st c socket <;> simp [hin]

/-- A query of such a client is answered. -/
theorem exists_handleQuery (action data : Int) :
    ∃ st' r, handleQuery st socket ⟨(c : Nat), action, data⟩ = some (st', r) := by
  unfold handleQuery
  split
  · dsimp only
    split_ifs <;> exact ⟨_, _, rfl⟩
  · dsimp only
    rw [login_val]
    exact ⟨_, _, rfl⟩
  · dsimp only
    rcases outside_or_fin numSeat data with hseat | ⟨i, rfl⟩
    · rw [book_of_no_seat st c socket hseat]
      exact ⟨_, _, rfl⟩
    · rw [book_val]
      exact ⟨_, _, rfl⟩
  · dsimp only
    rw [confirmBooking_val]
    exact ⟨_, _, rfl⟩
  · dsimp only
    rcases outside_or_fin numSeat data with hseat | ⟨i, rfl⟩
    · rw [cancelBooking_of_no_seat st c socket hseat]
      exact ⟨_, _, rfl⟩
    · rw [cancelBooking_val]
      exact ⟨_, _, rfl⟩
  · dsimp only
    rw [logout_val]
    exact ⟨_, _, rfl⟩
  · exact ⟨_, _, rfl⟩

end inRange

/-! ## What one call did -/

section cases

variable {st st' : Server} {clientId pw seat socket : Int} {ok : Bool}

/-- A defined session check was for an id inside of the table. -/
theorem exists_fin_of_isLoggedIn (h : isLoggedIn st clientId socket = some ok) :
    ∃ c : Fin maxClient, clientId = (c : Nat) ∧ ok = decide (LoggedIn st c socket) := by
  unfold isLoggedIn at h
  rw [Option.bind_eq_bind, Option.bind_eq_some_iff] at h
  obtain ⟨s, hs, hok⟩ := h
  obtain ⟨c, rfl, rfl⟩ := exists_fin_of_rd hs
  exact ⟨c, rfl, (Option.some.inj hok).symm⟩

/-- An operation that begins with the session check is defined for such an id only. -/
theorem exists_fin_of_checked {α : Type} {f : Bool → Option α} {r : α}
    (h : isLoggedIn st clientId socket >>= f = some r) :
    ∃ c : Fin maxClient, clientId = (c : Nat) := by
  obtain ⟨b, hb, -⟩ := Option.bind_eq_some_iff.mp h
  obtain ⟨c, hc, -⟩ := exists_fin_of_isLoggedIn hb
  exact ⟨c, hc⟩

/-- A login fails and changes nothing, or it stores the password and the session. -/
theorem login_cases (h : login st clientId pw socket = some (st', ok)) :
    (ok = false ∧ st' = st) ∨
      ∃ c : Fin maxClient, clientId = (c : Nat) ∧ ok = true ∧ 0 ≤ pw ∧ st.session c = 0 ∧
        (st.password c = 0 ∨ st.password c = pw) ∧
        st' = (st.setPassword c pw).setSession c socket := by
  by_cases hpw : pw < 0
  · simp only [login, hpw, if_true, Option.pure_def, Option.some.injEq, Prod.mk.injEq] at h
    exact .inl ⟨h.2.symm, h.1.symm⟩
  have hchecked := h
  rw [login, if_neg hpw] at hchecked
  obtain ⟨c, rfl⟩ := exists_fin_of_checked hchecked
  rw [login_val, Option.some.injEq] at h
  split_ifs at h with hc
  · cases h
    exact .inr ⟨c, rfl, rfl, hc.1, hc.2.1, hc.2.2, rfl⟩
  · cases h
    exact .inl ⟨rfl, rfl⟩

/-- A booking fails and changes nothing, or it stores the client in a free seat. -/
theorem book_cases {seatNum : Option Int}
    (h : book st clientId seat socket = some (st', seatNum)) :
    (seatNum = none ∧ st' = st) ∨
      ∃ (c : Fin maxClient) (s : Fin numSeat), clientId = (c : Nat) ∧ seat = (s : Nat) ∧
        seatNum = some seat ∧ LoggedIn st c socket ∧ st.seats s = 0 ∧
        st' = st.setSeat s (c : Nat) := by
  obtain ⟨c, rfl⟩ := exists_fin_of_checked h
  rcases outside_or_fin numSeat seat with hseat | ⟨s, rfl⟩
  · rw [book_of_no_seat st c socket hseat] at h
    cases h
    exact .inl ⟨rfl, rfl⟩
  · rw [book_val, Option.some.injEq] at h
    split_ifs at h with hc
    · cases h
      exact .inr ⟨c, s, rfl, rfl, rfl, hc.1, hc.2, rfl⟩
    · cases h
      exact .inl ⟨rfl, rfl⟩

/-- A cancellation fails and changes nothing, or it frees a seat of the client. -/
theorem cancelBooking_cases (h : cancelBooking st clientId seat socket = some (st', ok)) :
    (ok = false ∧ st' = st) ∨
      ∃ (c : Fin maxClient) (s : Fin numSeat), clientId = (c : Nat) ∧ seat = (s : Nat) ∧
        ok = true ∧ LoggedIn st c socket ∧ st.seats s ≠ 0 ∧ st.seats s = (c : Nat) ∧
        st' = st.setSeat s 0 := by
  obtain ⟨c, rfl⟩ := exists_fin_of_checked h
  rcases outside_or_fin numSeat seat with hseat | ⟨s, rfl⟩
  · rw [cancelBooking_of_no_seat st c socket hseat] at h
    cases h
    exact .inl ⟨rfl, rfl⟩
  · rw [cancelBooking_val, Option.some.injEq] at h
    split_ifs at h with hc
    · cases h
      exact .inr ⟨c, s, rfl, rfl, rfl, hc.1, hc.2.1, hc.2.2, rfl⟩
    · cases h
      exact .inl ⟨rfl, rfl⟩

/-- A logout fails and changes nothing, or it ends the session. -/
theorem logout_cases (h : logout st clientId socket = some (st', ok)) :
    (ok = false ∧ st' = st) ∨
      ∃ c : Fin maxClient, clientId = (c : Nat) ∧ ok = true ∧ LoggedIn st c socket ∧
        st' = st.setSession c 0 := by
  obtain ⟨c, rfl⟩ := exists_fin_of_checked h
  rw [logout_val, Option.some.injEq] at h
  split_ifs at h with hc
  · cases h
    exact .inr ⟨c, rfl, rfl, hc, rfl⟩
  · cases h
    exact .inl ⟨rfl, rfl⟩

/-- `confirm_booking` succeeds for a client that is logged in on the socket. -/
theorem confirmBooking_cases {buf : Option (List Char)}
    (h : confirmBooking st clientId socket = some buf) :
    buf = none ∨ ∃ c : Fin maxClient, clientId = (c : Nat) ∧ LoggedIn st c socket := by
  obtain ⟨c, rfl⟩ := exists_fin_of_checked h
  rw [confirmBooking_val, Option.some.injEq] at h
  split_ifs at h with hc
  · exact .inr ⟨c, rfl, hc⟩
  · exact .inl h.symm

end cases

/-! ## The effect of a query -/

/-- What a query on `socket` can do to the tables, with the value of `success`: nothing when it
fails, and one of six things when it succeeds. -/
inductive Effect (st : Server) (socket : Int) : Query → Server → Bool → Prop
  | failed (q : Query) : Effect st socket q st false
  | terminated : Effect st socket ⟨0, 0, 0⟩ st true
  | loggedIn (c : Fin maxClient) (pw : Int) (hpw : 0 ≤ pw) (hfree : st.session c = 0)
      (hpass : st.password c = 0 ∨ st.password c = pw) :
      Effect st socket ⟨(c : Nat), 1, pw⟩
        ((st.setPassword c pw).setSession c socket) true
  | booked (c : Fin maxClient) (s : Fin numSeat) (hin : LoggedIn st c socket)
      (hfree : st.seats s = 0) :
      Effect st socket ⟨(c : Nat), 2, (s : Nat)⟩
        (st.setSeat s (c : Nat)) true
  | confirmed (c : Fin maxClient) (data : Int) (hin : LoggedIn st c socket) :
      Effect st socket ⟨(c : Nat), 3, data⟩ st true
  | cancelled (c : Fin maxClient) (s : Fin numSeat) (hin : LoggedIn st c socket)
      (hne : st.seats s ≠ 0) (hmine : st.seats s = (c : Nat)) :
      Effect st socket ⟨(c : Nat), 4, (s : Nat)⟩
        (st.setSeat s 0) true
  | loggedOut (c : Fin maxClient) (data : Int) (hin : LoggedIn st c socket) :
      Effect st socket ⟨(c : Nat), 5, data⟩
        (st.setSession c 0) true

/-- Every query that `handle_query` answers has one of these effects. -/
theorem handleQuery_effect {st st' : Server} {socket : Int} {q : Query} {r : Reply}
    (h : handleQuery st socket q = some (st', r)) : Effect st socket q st' r.success := by
  obtain ⟨user, action, data⟩ := q
  unfold handleQuery at h
  split at h <;> rename_i hact <;> simp only at hact <;> try subst hact
  -- the cases follow the `switch`
  · split_ifs at h with hz
    · obtain ⟨rfl, rfl⟩ := hz
      cases h
      exact .terminated
    · cases h
      exact .failed _
  · simp only [Option.bind_eq_bind, Option.bind_eq_some_iff, Option.pure_def, Option.some.injEq,
      Prod.mk.injEq] at h
    obtain ⟨⟨st₁, ok⟩, hop, rfl, rfl⟩ := h
    rcases login_cases hop with ⟨rfl, rfl⟩ | ⟨c, rfl, rfl, hpw, hfree, hpass, rfl⟩
    · exact .failed _
    · exact .loggedIn c _ hpw hfree hpass
  · simp only [Option.bind_eq_bind, Option.bind_eq_some_iff, Option.pure_def, Option.some.injEq,
      Prod.mk.injEq] at h
    obtain ⟨⟨st₁, seatNum⟩, hop, rfl, rfl⟩ := h
    rcases book_cases hop with ⟨rfl, rfl⟩ | ⟨c, s, rfl, rfl, rfl, hin, hfree, rfl⟩
    · exact .failed _
    · exact .booked c s hin hfree
  · simp only [Option.bind_eq_bind, Option.bind_eq_some_iff, Option.pure_def, Option.some.injEq,
      Prod.mk.injEq] at h
    obtain ⟨buf, hop, rfl, rfl⟩ := h
    cases buf with
    | none => exact .failed _
    | some buf =>
        rcases confirmBooking_cases hop with hnone | ⟨c, rfl, hin⟩
        · cases hnone
        · exact .confirmed c _ hin
  · simp only [Option.bind_eq_bind, Option.bind_eq_some_iff, Option.pure_def, Option.some.injEq,
      Prod.mk.injEq] at h
    obtain ⟨⟨st₁, ok⟩, hop, rfl, rfl⟩ := h
    rcases cancelBooking_cases hop with ⟨rfl, rfl⟩ | ⟨c, s, rfl, rfl, rfl, hin, hne, hmine, rfl⟩
    · exact .failed _
    · exact .cancelled c s hin hne hmine
  · simp only [Option.bind_eq_bind, Option.bind_eq_some_iff, Option.pure_def, Option.some.injEq,
      Prod.mk.injEq] at h
    obtain ⟨⟨st₁, ok⟩, hop, rfl, rfl⟩ := h
    rcases logout_cases hop with ⟨rfl, rfl⟩ | ⟨c, rfl, rfl, hin, rfl⟩
    · exact .failed _
    · exact .loggedOut c _ hin
  · cases h
    exact .failed _

section success

variable {st st' : Server} {socket clientId pw seat data : Int}

/-- What a login has done that was successful. -/
theorem Effect.login_inv (h : Effect st socket ⟨clientId, 1, pw⟩ st' true) :
    ∃ c : Fin maxClient, clientId = (c : Nat) ∧ 0 ≤ pw ∧ st.session c = 0 ∧
      (st.password c = 0 ∨ st.password c = pw) ∧
      st' = (st.setPassword c pw).setSession c socket := by
  generalize hq : (⟨clientId, 1, pw⟩ : Query) = q at h
  cases h <;> simp only [Query.mk.injEq] at hq <;> first | omega | skip
  obtain ⟨rfl, -, rfl⟩ := hq
  exact ⟨_, rfl, ‹_›, ‹_›, ‹_›, rfl⟩

/-- What a booking has done that was successful. -/
theorem Effect.book_inv (h : Effect st socket ⟨clientId, 2, seat⟩ st' true) :
    ∃ (c : Fin maxClient) (s : Fin numSeat), clientId = (c : Nat) ∧ seat = (s : Nat) ∧
      LoggedIn st c socket ∧ st.seats s = 0 ∧
      st' = st.setSeat s (c : Nat) := by
  generalize hq : (⟨clientId, 2, seat⟩ : Query) = q at h
  cases h <;> simp only [Query.mk.injEq] at hq <;> first | omega | skip
  obtain ⟨rfl, -, rfl⟩ := hq
  exact ⟨_, _, rfl, rfl, ‹_›, ‹_›, rfl⟩

/-- What a cancellation has done that was successful. -/
theorem Effect.cancel_inv (h : Effect st socket ⟨clientId, 4, seat⟩ st' true) :
    ∃ (c : Fin maxClient) (s : Fin numSeat), clientId = (c : Nat) ∧ seat = (s : Nat) ∧
      LoggedIn st c socket ∧ st.seats s ≠ 0 ∧ st.seats s = (c : Nat) ∧
      st' = st.setSeat s 0 := by
  generalize hq : (⟨clientId, 4, seat⟩ : Query) = q at h
  cases h <;> simp only [Query.mk.injEq] at hq <;> first | omega | skip
  obtain ⟨rfl, -, rfl⟩ := hq
  exact ⟨_, _, rfl, rfl, ‹_›, ‹_›, ‹_›, rfl⟩

/-- What a logout has done that was successful. -/
theorem Effect.logout_inv (h : Effect st socket ⟨clientId, 5, data⟩ st' true) :
    ∃ c : Fin maxClient, clientId = (c : Nat) ∧ LoggedIn st c socket ∧
      st' = st.setSession c 0 := by
  generalize hq : (⟨clientId, 5, data⟩ : Query) = q at h
  cases h <;> simp only [Query.mk.injEq] at hq <;> first | omega | skip
  obtain ⟨rfl, -, rfl⟩ := hq
  exact ⟨_, rfl, ‹_›, rfl⟩

end success

end SystemProgrammingLab.Pa3
