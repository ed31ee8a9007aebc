import SystemProgrammingLab.Found.Traced
import SystemProgrammingLab.Pa3.Server

/-!
# The accesses of a query to the tables

The operations once more, with the locks of the seats and with a trace of every index they use (`Op`).
Without the trace and the locks they are the operations of `Server` (`result_handleQuery`).

`is_logged_in` reads `session[client_id]` before anything is known of the id, and `login` checks the id
only behind it. So the indices of a query are those of the tables if and only if the id is, or the query
ends in front of that read (`handleQuery_inTables_iff`). For such an id every query is answered, changes
what its operation changes and nothing if it fails, and lets go of every lock (`handleQuery_frame`).

Source: `pa3/pa3_server.c`
-/

namespace SystemProgrammingLab.Pa3

open SystemProgrammingLab.Found

/-! ## Tables and accesses -/

/-- The global arrays; a lock is true while it is held. Source: `password`, `session`, `seats`, `lock` -/
structure Tables where
  server : Server
  lock : Fin numSeat → Bool

/-- The tables between two queries: no lock is held. -/
def Tables.unlocked (st : Server) : Tables := ⟨st, fun _ => false⟩

/-- The tables with all locks free are those of the server. -/
@[simp] theorem Tables.unlocked_server (st : Server) : (Tables.unlocked st).server = st := rfl

/-- The use of an index; `lock` and `unlock` are the calls on `&lock[i]`. -/
inductive Access
  | password (i : Int)
  | session (i : Int)
  | seats (i : Int)
  | lock (i : Int)
  | unlock (i : Int)
  deriving DecidableEq

/-- The index is one of the table. -/
def Access.InTable : Access → Prop
  | .password i | .session i => 0 ≤ i ∧ i < maxClient
  | .seats i | .lock i | .unlock i => 0 ≤ i ∧ i < numSeat

/-- A call of the server. Its accesses are events, and it stops at one that is undefined. -/
abbrev Op := Traced Tables Access

namespace Op

/-- `password[i]`. Source: `login` -/
def readPassword (i : Int) : Op Int :=
  .act (.password i) fun s => (rd s.server.password i).map fun v => (v, s)

/-- `password[i] = v`. Source: `login` -/
def writePassword (i v : Int) : Op Unit :=
  .act (.password i) fun s => (wr s.server.password i v).map fun password =>
    ((), { s with server := { s.server with password } })

/-- `session[i]`. Source: `is_logged_in`, `login` -/
def readSession (i : Int) : Op Int :=
  .act (.session i) fun s => (rd s.server.session i).map fun v => (v, s)

/-- `session[i] = v`. Source: `login`, `logout` -/
def writeSession (i v : Int) : Op Unit :=
  .act (.session i) fun s => (wr s.server.session i v).map fun session =>
    ((), { s with server := { s.server with session } })

/-- `seats[i]`. Source: `book`, `confirm_booking`, `cancel_booking` -/
def readSeat (i : Int) : Op Int :=
  .act (.seats i) fun s => (rd s.server.seats i).map fun v => (v, s)

/-- `seats[i] = v`. Source: `book`, `cancel_booking` -/
def writeSeat (i v : Int) : Op Unit :=
  .act (.seats i) fun s => (wr s.server.seats i v).map fun seats =>
    ((), { s with server := { s.server with seats } })

/-- `pthread_mutex_lock(&lock[i])`; it does not return while the lock is held. Source: `book`,
`confirm_booking`, `cancel_booking` -/
def mutexLock (i : Int) : Op Unit :=
  .act (.lock i) fun s => do
    let held ← rd s.lock i
    if held then none
    let lock ← wr s.lock i true
    return ((), { s with lock })

/-- `pthread_mutex_unlock(&lock[i])`. Source: `book`, `confirm_booking`, `cancel_booking` -/
def mutexUnlock (i : Int) : Op Unit :=
  .act (.unlock i) fun s => (wr s.lock i false).map fun lock => ((), { s with lock })

/-! ## The operations -/

/-- Source: `is_logged_in` -/
def isLoggedIn (clientId socket : Int) : Op Bool := do
  if (← readSession clientId) = 0 then return false
  return decide (socket = (← readSession clientId))

/-- Source: `login` -/
def login (clientId pw socket : Int) : Op Bool := do
  if pw < 0 then return false
  if ← isLoggedIn clientId socket then return false
  if clientId < 0 ∨ clientId ≥ maxClient then return false
  -- already logged in from other client
  if (← readSession clientId) ≠ 0 then
    if (← readSession clientId) ≠ socket then return false
  -- not registered
  if (← readPassword clientId) = 0 then
    writePassword clientId pw
    writeSession clientId socket
    return true
  if (← readPassword clientId) = pw then
    writeSession clientId socket
    return true
  return false

/-- `some n` is the return value `true` with `*seat_num = n`. Source: `book` -/
def book (clientId seat socket : Int) : Op (Option Int) := do
  if !(← isLoggedIn clientId socket) then return none
  if seat < 0 ∨ seat ≥ numSeat then return none
  mutexLock seat
  if (← readSeat seat) = 0 then
    writeSeat seat clientId
    mutexUnlock seat
    return some seat
  mutexUnlock seat
  return none

/-- One iteration of the loop of `confirm_booking`. -/
def confirmSeat (clientId : Int) (b : Booked) (i : Fin numSeat) : Op Booked := do
  mutexLock (i : Nat)
  let owner ← readSeat (i : Nat)
  let b := if owner = clientId then
    ⟨b.text ++ snprintf 5 (decimal i ++ [',']), b.count + 1⟩
  else b
  mutexUnlock (i : Nat)
  return b

/-- Source: `confirm_booking` -/
def confirmBooking (clientId socket : Int) : Op (Option (List Char)) := do
  if !(← isLoggedIn clientId socket) then return none
  let b ← (List.finRange numSeat).foldlM (confirmSeat clientId) Booked.empty
  return confirmResult b

/-- Source: `cancel_booking` -/
def cancelBooking (clientId seat socket : Int) : Op Bool := do
  if !(← isLoggedIn clientId socket) then return false
  if seat < 0 ∨ seat ≥ numSeat then return false
  if (← readSeat seat) = 0 then return false
  mutexLock seat
  if (← readSeat seat) = clientId then
    writeSeat seat 0
    mutexUnlock seat
    return true
  mutexUnlock seat
  return false

/-- Source: `logout` -/
def logout (clientId socket : Int) : Op Bool := do
  if !(← isLoggedIn clientId socket) then return false
  writeSession clientId 0
  return true

/-- The reply to one query. Source: `handle_query` -/
def handleQuery (socket : Int) (q : Query) : Op Reply :=
  match q.action with
  | 0 => -- terminate connection
      if q.data = 0 ∧ q.user = 0 then pure (.ok (snprintf 4096 (showInt 256)))
      else pure .failure
  | 1 => do -- login
      let ok ← login q.user q.data socket
      return if ok then .ok ['1'] else .failure
  | 2 => do -- book
      let seatNum ← book q.user q.data socket
      return seatNum.elim .failure fun n => .ok (snprintf 4096 (showInt n))
  | 3 => do -- confirm booking
      let buf ← confirmBooking q.user socket
      return confirmReply buf
  | 4 => do -- cancel booking
      let ok ← cancelBooking q.user q.data socket
      return if ok then .ok (snprintf 4096 (showInt q.data)) else .failure
  | 5 => do -- logout
      let ok ← logout q.user socket
      return if ok then .ok ['1'] else .failure
  | _ => pure .failure

/-! ## The results -/

section results

variable (s : Tables) (st : Server) (c : Fin maxClient) (i : Fin numSeat) (v pw socket : Int)

/-- A read of `password` in the table. -/
@[simp] theorem result_readPassword : (readPassword (c : Nat)).result s = some (s.server.password c, s) := by
  simp [readPassword]

/-- A write of `password` in the table. -/
@[simp] theorem result_writePassword : (writePassword (c : Nat) v).result s =
    some ((), { s with server := s.server.setPassword c v }) := by
  simp [writePassword, Server.setPassword]

/-- A read of `session` in the table. -/
@[simp] theorem result_readSession : (readSession (c : Nat)).result s = some (s.server.session c, s) := by
  simp [readSession]

/-- A write of `session` in the table. -/
@[simp] theorem result_writeSession : (writeSession (c : Nat) v).result s =
    some ((), { s with server := s.server.setSession c v }) := by
  simp [writeSession, Server.setSession]

/-- A read of `seats` in the table. -/
@[simp] theorem result_readSeat : (readSeat (i : Nat)).result s = some (s.server.seats i, s) := by
  simp [readSeat]

/-- A write of `seats` in the table. -/
@[simp] theorem result_writeSeat : (writeSeat (i : Nat) v).result s =
    some ((), { s with server := s.server.setSeat i v }) := by
  simp [writeSeat, Server.setSeat]

/-- A lock that nobody holds is taken. -/
@[simp] theorem result_mutexLock : (mutexLock (i : Nat)).result (.unlocked st) =
    some ((), ⟨st, Function.update (fun _ => false) i true⟩) := by
  simp [mutexLock, Tables.unlocked]

/-- The lock that is held is let go. -/
@[simp] theorem result_mutexUnlock :
    (mutexUnlock (i : Nat)).result ⟨st, Function.update (fun _ => false) i true⟩ =
      some ((), .unlocked st) := by
  simp [mutexUnlock, Tables.unlocked]

/-- `is_logged_in`, statement by statement. -/
theorem result_isLoggedIn : (isLoggedIn (c : Nat) socket).result s =
    some (decide (LoggedIn s.server c socket), s) := by
  rw [isLoggedIn, Traced.result_bind_of (result_readSession s c)]
  split_ifs with hfree
  · simp [LoggedIn, hfree]
  · rw [Traced.result_bind_of (result_readSession s c)]
    simp [LoggedIn, hfree]

/-- Every iteration of the loop gives its lock back. -/
theorem result_confirmSeat (clientId : Int) (b : Booked) :
    (confirmSeat clientId b i).result (.unlocked st) =
      some (Pa3.confirmSeat st clientId b i, .unlocked st) := by
  simp [confirmSeat, Pa3.confirmSeat, Traced.result_bind]

end results

section operations

variable (st : Server) (clientId seat pw socket : Int)

/-- Outside of the table the session check is undefined. -/
theorem isLoggedIn_cases :
    (∃ c : Fin maxClient, clientId = (c : Nat)) ∨
      (Pa3.isLoggedIn st clientId socket = none ∧
        (isLoggedIn clientId socket).result (.unlocked st) = none) := by
  by_cases hid : 0 ≤ clientId ∧ clientId < maxClient
  · exact .inl (exists_fin_of_bounds hid.1 hid.2)
  · have hread : rd st.session clientId = none := by rw [rd, dif_neg hid]
    right
    simp [Pa3.isLoggedIn, isLoggedIn, readSession, Traced.result_bind, hread]

/-- `login`, statement by statement, does what the operation does. -/
theorem result_login : (login clientId pw socket).result (.unlocked st) =
    (Pa3.login st clientId pw socket).map fun p => (p.2, .unlocked p.1) := by
  by_cases hpw : pw < 0
  · simp [login, Pa3.login, hpw]
  have hpw' : 0 ≤ pw := Int.not_lt.mp hpw
  rcases isLoggedIn_cases st clientId socket with ⟨c, rfl⟩ | ⟨hnone, hnone'⟩
  · rw [login_val, login, if_neg hpw, Traced.result_bind_of (result_isLoggedIn _ c socket),
      Tables.unlocked_server]
    by_cases hs : st.session c = 0
    · have hin : ¬ LoggedIn st c socket := fun h => h.1 hs
      rw [decide_eq_false hin, if_neg Bool.false_ne_true, if_neg (not_outside c),
        Traced.result_bind_of (result_readSession _ c), Tables.unlocked_server, if_neg (not_not.mpr hs),
        Traced.result_bind_of (result_readPassword _ c), Tables.unlocked_server]
      by_cases hp : st.password c = 0
      · simp [hs, hp, hpw', Traced.result_bind, Tables.unlocked]
      · rw [if_neg hp, Traced.result_bind_of (result_readPassword _ c), Tables.unlocked_server]
        by_cases hpp : st.password c = pw
        · rw [Server.setPassword_of_eq hpp]
          simp [hs, hpp, hpw', Traced.result_bind, Tables.unlocked]
        · simp [hs, hp, hpp]
    · by_cases hin : LoggedIn st c socket
      · simp [hs, hin]
      · have hother : st.session c ≠ socket := fun h => hin ⟨hs, h.symm⟩
        rw [decide_eq_false hin, if_neg Bool.false_ne_true, if_neg (not_outside c),
          Traced.result_bind_of (result_readSession _ c), Tables.unlocked_server, if_pos hs,
          Traced.result_bind_of (result_readSession _ c)]
        simp [hs, hother]
  · simp [login, Pa3.login, hpw, Traced.result_bind, hnone, hnone']

/-- `book`, statement by statement, does what the operation does. -/
theorem result_book : (book clientId seat socket).result (.unlocked st) =
    (Pa3.book st clientId seat socket).map fun p => (p.2, .unlocked p.1) := by
  rcases isLoggedIn_cases st clientId socket with ⟨c, rfl⟩ | ⟨hnone, hnone'⟩
  · rw [book, Traced.result_bind_of (result_isLoggedIn _ c socket), Tables.unlocked_server]
    by_cases hin : LoggedIn st c socket
    · rcases outside_or_fin numSeat seat with hseat | ⟨i, rfl⟩
      · rw [book_of_no_seat st c socket hseat, decide_eq_true hin, Bool.not_true,
          if_neg Bool.false_ne_true, if_pos hseat]
        rfl
      · rw [book_val, decide_eq_true hin, Bool.not_true, if_neg Bool.false_ne_true, if_neg (not_outside i),
          Traced.result_bind_of (result_mutexLock st i), Traced.result_bind_of (result_readSeat _ i)]
        by_cases hfree : st.seats i = 0 <;> simp [hin, hfree, Traced.result_bind]
    · simp [Pa3.book, hin]
  · simp [book, Pa3.book, Traced.result_bind, hnone, hnone']

/-- `cancel_booking`, statement by statement, does what the operation does. -/
theorem result_cancelBooking : (cancelBooking clientId seat socket).result (.unlocked st) =
    (Pa3.cancelBooking st clientId seat socket).map fun p => (p.2, .unlocked p.1) := by
  rcases isLoggedIn_cases st clientId socket with ⟨c, rfl⟩ | ⟨hnone, hnone'⟩
  · rw [cancelBooking, Traced.result_bind_of (result_isLoggedIn _ c socket), Tables.unlocked_server]
    by_cases hin : LoggedIn st c socket
    · rcases outside_or_fin numSeat seat with hseat | ⟨i, rfl⟩
      · rw [cancelBooking_of_no_seat st c socket hseat, decide_eq_true hin, Bool.not_true,
          if_neg Bool.false_ne_true, if_pos hseat]
        rfl
      · rw [cancelBooking_val, decide_eq_true hin, Bool.not_true, if_neg Bool.false_ne_true,
          if_neg (not_outside i), Traced.result_bind_of (result_readSeat _ i), Tables.unlocked_server]
        by_cases hfree : st.seats i = 0
        · simp [hin, hfree]
        · rw [if_neg hfree, Traced.result_bind_of (result_mutexLock st i),
            Traced.result_bind_of (result_readSeat _ i)]
          by_cases hmine : st.seats i = (c : Nat)
          · rw [if_pos hmine, if_pos ⟨hin, hfree, hmine⟩]
            simp [Traced.result_bind]
          · rw [if_neg hmine, if_neg fun h => hmine h.2.2]
            simp [Traced.result_bind]
    · simp [Pa3.cancelBooking, hin]
  · simp [cancelBooking, Pa3.cancelBooking, Traced.result_bind, hnone, hnone']

/-- `logout`, statement by statement, does what the operation does. -/
theorem result_logout : (logout clientId socket).result (.unlocked st) =
    (Pa3.logout st clientId socket).map fun p => (p.2, .unlocked p.1) := by
  rcases isLoggedIn_cases st clientId socket with ⟨c, rfl⟩ | ⟨hnone, hnone'⟩
  · rw [logout_val, logout, Traced.result_bind_of (result_isLoggedIn _ c socket), Tables.unlocked_server]
    by_cases hin : LoggedIn st c socket
    · simp [hin, Traced.result_bind, Tables.unlocked]
    · simp [hin]
  · simp [logout, Pa3.logout, Traced.result_bind, hnone, hnone']

/-- `confirm_booking`, statement by statement, does what the operation does. -/
theorem result_confirmBooking : (confirmBooking clientId socket).result (.unlocked st) =
    (Pa3.confirmBooking st clientId socket).map fun buf => (buf, .unlocked st) := by
  rcases isLoggedIn_cases st clientId socket with ⟨c, rfl⟩ | ⟨hnone, hnone'⟩
  · rw [confirmBooking_val, confirmBooking, Traced.result_bind_of (result_isLoggedIn _ c socket),
      Tables.unlocked_server]
    by_cases hin : LoggedIn st c socket
    · have hloop := Traced.result_foldlM (fun b i => result_confirmSeat st i (c : Nat) b)
        (List.finRange numSeat) Booked.empty
      rw [decide_eq_true hin, Bool.not_true, if_neg Bool.false_ne_true, Traced.result_bind_of hloop,
        if_pos hin, Traced.result_pure, Option.map_some]
    · simp [hin]
  · simp [confirmBooking, Pa3.confirmBooking, Traced.result_bind, hnone, hnone']

/-- **Without its trace and the locks a query is the one of `Server`**: all locks are free again when it
returns. -/
theorem result_handleQuery (q : Query) : (handleQuery socket q).result (.unlocked st) =
    (Pa3.handleQuery st socket q).map fun p => (p.2, .unlocked p.1) := by
  obtain ⟨user, action, data⟩ := q
  unfold handleQuery
  split <;> rename_i hact <;> simp only at hact <;> try subst hact
  -- the cases follow the `switch`
  · show Traced.result (if data = 0 ∧ user = 0 then _ else _) _ =
      Option.map _ (if data = 0 ∧ user = 0 then _ else _)
    split_ifs <;> rfl
  · show _ = Option.map _ ((Pa3.login st user data socket).bind _)
    rw [Traced.result_bind, result_login]
    rcases Pa3.login st user data socket with _ | ⟨st', ok⟩ <;> rfl
  · show _ = Option.map _ ((Pa3.book st user data socket).bind _)
    rw [Traced.result_bind, result_book]
    rcases Pa3.book st user data socket with _ | ⟨st', seatNum⟩ <;> rfl
  · show _ = Option.map _ ((Pa3.confirmBooking st user socket).bind _)
    rw [Traced.result_bind, result_confirmBooking]
    rcases Pa3.confirmBooking st user socket with _ | buf <;> rfl
  · show _ = Option.map _ ((Pa3.cancelBooking st user data socket).bind _)
    rw [Traced.result_bind, result_cancelBooking]
    rcases Pa3.cancelBooking st user data socket with _ | ⟨st', ok⟩ <;> rfl
  · show _ = Option.map _ ((Pa3.logout st user socket).bind _)
    rw [Traced.result_bind, result_logout]
    rcases Pa3.logout st user socket with _ | ⟨st', ok⟩ <;> rfl
  · unfold Pa3.handleQuery
    split <;> first | rfl | contradiction

end operations

/-! ## The indices -/

section indices

variable {i clientId seat : Int} (v : Int)

/-- A read of `password` for a client of the table. -/
theorem emits_readPassword (h : 0 ≤ i ∧ i < maxClient) : (readPassword i).Emits Access.InTable :=
  Traced.emits_act (show (Access.password i).InTable from h) _

/-- A write of `password` for a client of the table. -/
theorem emits_writePassword (h : 0 ≤ i ∧ i < maxClient) : (writePassword i v).Emits Access.InTable :=
  Traced.emits_act (show (Access.password i).InTable from h) _

/-- A read of `session` for a client of the table. -/
theorem emits_readSession (h : 0 ≤ i ∧ i < maxClient) : (readSession i).Emits Access.InTable :=
  Traced.emits_act (show (Access.session i).InTable from h) _

/-- A write of `session` for a client of the table. -/
theorem emits_writeSession (h : 0 ≤ i ∧ i < maxClient) : (writeSession i v).Emits Access.InTable :=
  Traced.emits_act (show (Access.session i).InTable from h) _

/-- A read of `seats` for a seat of the table. -/
theorem emits_readSeat (h : 0 ≤ i ∧ i < numSeat) : (readSeat i).Emits Access.InTable :=
  Traced.emits_act (show (Access.seats i).InTable from h) _

/-- A write of `seats` for a seat of the table. -/
theorem emits_writeSeat (h : 0 ≤ i ∧ i < numSeat) : (writeSeat i v).Emits Access.InTable :=
  Traced.emits_act (show (Access.seats i).InTable from h) _

/-- A lock of the mutex of a seat of the table. -/
theorem emits_mutexLock (h : 0 ≤ i ∧ i < numSeat) : (mutexLock i).Emits Access.InTable :=
  Traced.emits_act (show (Access.lock i).InTable from h) _

/-- An unlock of the mutex of a seat of the table. -/
theorem emits_mutexUnlock (h : 0 ≤ i ∧ i < numSeat) : (mutexUnlock i).Emits Access.InTable :=
  Traced.emits_act (show (Access.unlock i).InTable from h) _

/-- A seat is checked before it is looked up. -/
theorem inTable_of_seat (h : ¬ (seat < 0 ∨ seat ≥ numSeat)) : 0 ≤ seat ∧ seat < numSeat := by
  omega

/-- What the operations do with a seat that they have locked. -/
theorem emits_locked {α : Type} (h : 0 ≤ seat ∧ seat < numSeat) (v : Int) (p : Int → Prop)
    [DecidablePred p] (ok fail : α) :
    (do
      mutexLock seat
      if p (← readSeat seat) then
        writeSeat seat v
        mutexUnlock seat
        return ok
      mutexUnlock seat
      return fail : Op α).Emits Access.InTable := by
  refine (emits_mutexLock h).bind fun _ => (emits_readSeat h).bind fun owner => .ite (fun _ => ?_) fun _ => ?_
  · exact (emits_writeSeat v h).bind fun _ => (emits_mutexUnlock h).bind fun _ => Traced.emits_pure ok
  · exact (emits_mutexUnlock h).bind fun _ => Traced.emits_pure fail

/-- An iteration of the loop of `confirm_booking` stays in the tables. -/
theorem emits_confirmSeat (b : Booked) (i : Fin numSeat) :
    (confirmSeat clientId b i).Emits Access.InTable := by
  have hi : 0 ≤ ((i : Nat) : Int) ∧ ((i : Nat) : Int) < numSeat := inTable_of_seat (not_outside i)
  exact (emits_mutexLock hi).bind fun _ => (emits_readSeat hi).bind fun owner =>
    (emits_mutexUnlock hi).bind fun _ => Traced.emits_pure _

end indices

section operations

variable {clientId : Int} (h : 0 ≤ clientId ∧ clientId < maxClient) (seat pw socket : Int)

include h

/-- `is_logged_in` stays in the tables for a client of the table. -/
theorem emits_isLoggedIn : (isLoggedIn clientId socket).Emits Access.InTable := by
  refine (emits_readSession h).bind fun s => .ite (fun _ => Traced.emits_pure false) fun _ => ?_
  exact (emits_readSession h).bind fun s => Traced.emits_pure _

/-- The end of `login`, which it comes to with or without a session of the client. -/
theorem emits_login_password : (do
    if (← readPassword clientId) = 0 then
      writePassword clientId pw
      writeSession clientId socket
      return true
    if (← readPassword clientId) = pw then
      writeSession clientId socket
      return true
    return false : Op Bool).Emits Access.InTable := by
  refine (emits_readPassword h).bind fun p => .ite (fun _ => ?_) fun _ => ?_
  · exact (emits_writePassword pw h).bind fun _ => (emits_writeSession socket h).bind fun _ =>
      Traced.emits_pure true
  · refine (emits_readPassword h).bind fun p => .ite (fun _ => ?_) fun _ => Traced.emits_pure false
    exact (emits_writeSession socket h).bind fun _ => Traced.emits_pure true

/-- `login` stays in the tables under its conditions. -/
theorem emits_login : (login clientId pw socket).Emits Access.InTable := by
  have hpassword := emits_login_password h pw socket
  refine .ite (fun _ => Traced.emits_pure false) fun _ => ?_
  refine (emits_isLoggedIn h socket).bind fun ok => .ite (fun _ => Traced.emits_pure false) fun _ => ?_
  refine .ite (fun _ => Traced.emits_pure false) fun _ => ?_
  refine (emits_readSession h).bind fun s => .ite (fun _ => ?_) fun _ => hpassword
  exact (emits_readSession h).bind fun s => .ite (fun _ => Traced.emits_pure false) fun _ => hpassword

/-- `book` stays in the tables under its conditions. -/
theorem emits_book : (book clientId seat socket).Emits Access.InTable := by
  refine (emits_isLoggedIn h socket).bind fun ok => .ite (fun _ => Traced.emits_pure none) fun _ => ?_
  refine .ite (fun _ => Traced.emits_pure none) fun hseat => ?_
  exact emits_locked (inTable_of_seat hseat) clientId (· = 0) (some seat) none

/-- `confirm_booking` stays in the tables for a client of the table. -/
theorem emits_confirmBooking : (confirmBooking clientId socket).Emits Access.InTable := by
  refine (emits_isLoggedIn h socket).bind fun ok => .ite (fun _ => Traced.emits_pure none) fun _ => ?_
  exact (Traced.emits_foldlM emits_confirmSeat _ _).bind fun b => Traced.emits_pure _

/-- `cancel_booking` stays in the tables under its conditions. -/
theorem emits_cancelBooking : (cancelBooking clientId seat socket).Emits Access.InTable := by
  refine (emits_isLoggedIn h socket).bind fun ok => .ite (fun _ => Traced.emits_pure false) fun _ => ?_
  refine .ite (fun _ => Traced.emits_pure false) fun hseat => ?_
  have hseat := inTable_of_seat hseat
  refine (emits_readSeat hseat).bind fun owner => .ite (fun _ => Traced.emits_pure false) fun _ => ?_
  exact emits_locked hseat 0 (· = clientId) true false

/-- `logout` stays in the tables for a client of the table. -/
theorem emits_logout : (logout clientId socket).Emits Access.InTable := by
  refine (emits_isLoggedIn h socket).bind fun ok => .ite (fun _ => Traced.emits_pure false) fun _ => ?_
  exact (emits_writeSession 0 h).bind fun _ => Traced.emits_pure true

/-- `handle_query` stays in the tables, if the function of its action does. -/
theorem emits_handleQuery {q : Query} (hq : clientId = q.user) :
    (handleQuery socket q).Emits Access.InTable := by
  subst hq
  unfold handleQuery
  split
  · exact .ite (fun _ => Traced.emits_pure _) fun _ => Traced.emits_pure _
  · exact (emits_login h _ socket).bind fun ok => Traced.emits_pure _
  · exact (emits_book h _ socket).bind fun seatNum => Traced.emits_pure _
  · exact (emits_confirmBooking h socket).bind fun buf => Traced.emits_pure _
  · exact (emits_cancelBooking h _ socket).bind fun ok => Traced.emits_pure _
  · exact (emits_logout h socket).bind fun ok => Traced.emits_pure _
  · exact Traced.emits_pure _

end operations

/-- `is_logged_in` uses the id of the client whatever it is. -/
theorem session_mem_trace_bind {α : Type} (clientId socket : Int) (f : Bool → Op α) (s : Tables) :
    .session clientId ∈ (isLoggedIn clientId socket >>= f).trace s :=
  Traced.mem_trace_bind.mpr (.inl (Traced.mem_trace_bind.mpr (.inl (List.mem_singleton_self _))))

/-- The operations begin with it, but for a login with a password below zero. -/
theorem session_mem_trace {q : Query} (h1 : 1 ≤ q.action) (h5 : q.action ≤ 5)
    (hpw : ¬ (q.action = 1 ∧ q.data < 0)) (socket : Int) (s : Tables) :
    .session q.user ∈ (handleQuery socket q).trace s := by
  obtain ⟨user, action, data⟩ := q
  rcases action_cases (a := action) h1 h5 with rfl | rfl | rfl | rfl | rfl
  · have hlogin : .session user ∈ (login user data socket).trace s := by
      rw [login, if_neg fun h => hpw ⟨rfl, h⟩]
      exact session_mem_trace_bind user socket _ s
    exact Traced.mem_trace_bind.mpr (.inl hlogin)
  · exact Traced.mem_trace_bind.mpr (.inl (session_mem_trace_bind user socket _ s))
  · exact Traced.mem_trace_bind.mpr (.inl (session_mem_trace_bind user socket _ s))
  · exact Traced.mem_trace_bind.mpr (.inl (session_mem_trace_bind user socket _ s))
  · exact Traced.mem_trace_bind.mpr (.inl (session_mem_trace_bind user socket _ s))

/-- The other queries use no index. -/
theorem emits_nothing {P : Access → Prop} {q : Query}
    (h : q.action < 1 ∨ 5 < q.action ∨ (q.action = 1 ∧ q.data < 0)) (socket : Int) :
    (handleQuery socket q).Emits P := by
  obtain ⟨user, action, data⟩ := q
  simp only at h
  unfold handleQuery
  split <;> rename_i hact <;> simp only at hact
  · exact .ite (fun _ => Traced.emits_pure _) fun _ => Traced.emits_pure _
  · refine .bind ?_ fun ok => Traced.emits_pure _
    rw [login, if_pos (show data < 0 by omega)]
    exact Traced.emits_pure false
  · omega
  · omega
  · omega
  · omega
  · exact Traced.emits_pure _

end Op

/-- **Every index of a query is one of its table if and only if the id of the client is**, but for a query
that does not come to the session check: another action than the five, or a login with a password below
zero. -/
theorem handleQuery_inTable_iff (socket : Int) (q : Query) (s : Tables) :
    (∀ e ∈ (Op.handleQuery socket q).trace s, e.InTable) ↔
      (0 ≤ q.user ∧ q.user < maxClient) ∨ q.action < 1 ∨ 5 < q.action ∨ (q.action = 1 ∧ q.data < 0) := by
  constructor
  · intro h
    by_contra hnot
    rw [not_or, not_or, not_or] at hnot
    obtain ⟨huser, h1, h5, hpw⟩ := hnot
    exact huser (h _ (Op.session_mem_trace (Int.not_lt.mp h1) (Int.not_lt.mp h5) hpw socket s))
  · rintro (huser | hrest)
    · exact Op.emits_handleQuery huser socket rfl s
    · exact Op.emits_nothing hrest socket s

/-- **A booking for client 1024 looks behind the end of the sessions.** -/
theorem not_handleQuery_inTable :
    Access.session 1024 ∈ (Op.handleQuery 4 ⟨1024, 2, 0⟩).trace (.unlocked .init) ∧
      ¬ (Access.session 1024).InTable := by
  refine ⟨Op.session_mem_trace (by decide) (by decide) (by decide) 4 _, ?_⟩
  rintro ⟨-, hlt⟩
  exact absurd hlt (by decide)

/-! ## What a query changes -/

/-- What a query may change: a login the cells of the client, a booking and a cancellation the seat, a logout
the session of the client, and every other query nothing. -/
def Frame (st st' : Server) (q : Query) : Prop :=
  match q.action with
  | 1 => st'.seats = st.seats ∧ ∀ i : Fin maxClient, ((i : Nat) : Int) ≠ q.user →
      st'.password i = st.password i ∧ st'.session i = st.session i
  | 2 | 4 => st'.password = st.password ∧ st'.session = st.session ∧
      ∀ i : Fin numSeat, ((i : Nat) : Int) ≠ q.data → st'.seats i = st.seats i
  | 5 => st'.password = st.password ∧ st'.seats = st.seats ∧
      ∀ i : Fin maxClient, ((i : Nat) : Int) ≠ q.user → st'.session i = st.session i
  | _ => st' = st

section frame

variable {st st' : Server} {socket : Int} {q : Query} {ok : Bool} {r : Reply}

/-- A query may change nothing. -/
theorem Frame.refl (st : Server) (q : Query) : Frame st st q := by
  unfold Frame
  split <;> simp

/-- Different numbers are different indices. -/
theorem val_ne {n : Nat} {i j : Fin n} (h : ((i : Nat) : Int) ≠ (j : Nat)) : i ≠ j := fun hij =>
  h (by rw [hij])

/-- What a query does changes only its own cells. -/
theorem Effect.frame (h : Effect st socket q st' ok) : Frame st st' q := by
  cases h with
  | failed => exact Frame.refl _ _
  | terminated => rfl
  | loggedIn c pw =>
      refine ⟨rfl, fun i hi => ?_⟩
      exact ⟨Function.update_of_ne (val_ne hi) _ _, Function.update_of_ne (val_ne hi) _ _⟩
  | booked c seat => exact ⟨rfl, rfl, fun i hi => Function.update_of_ne (val_ne hi) _ _⟩
  | confirmed c data => rfl
  | cancelled c seat => exact ⟨rfl, rfl, fun i hi => Function.update_of_ne (val_ne hi) _ _⟩
  | loggedOut c data => exact ⟨rfl, rfl, fun i hi => Function.update_of_ne (val_ne hi) _ _⟩

/-- The number of a seat is not -1. -/
theorem snprintf_seat_ne (n : Nat) : snprintf 4096 (showInt n) ≠ "-1".toList := by
  intro h
  have hmem : '-' ∈ snprintf 4096 (showInt n) := by
    rw [h]
    decide
  rw [showInt_natCast, snprintf] at hmem
  exact absurd (isDigit_of_mem_decimal (List.take_subset _ _ hmem)) (by decide)

/-- A query whose reply is -1 leaves the tables as they are. -/
theorem eq_of_response (h : handleQuery st socket q = some (st', r)) (hr : r.response = "-1".toList) :
    st' = st := by
  have hone : (['1'] : List Char) ≠ "-1".toList := by decide
  have heffect := handleQuery_effect h
  generalize r.success = ok at heffect
  cases heffect with
  | failed => rfl
  | terminated => rfl
  | loggedIn c pw hpw hfree hpass =>
      simp only [handleQuery, login_val, if_pos (And.intro hpw (And.intro hfree hpass))] at h
      cases h
      exact absurd hr hone
  | booked c seat hin hfree =>
      simp only [handleQuery, book_val, if_pos (And.intro hin hfree)] at h
      cases h
      exact absurd hr (snprintf_seat_ne seat)
  | confirmed => rfl
  | cancelled c seat hin hne hmine =>
      simp only [handleQuery, cancelBooking_val, if_pos (And.intro hin (And.intro hne hmine))] at h
      cases h
      exact absurd hr (snprintf_seat_ne seat)
  | loggedOut c data hin =>
      simp only [handleQuery, logout_val, if_pos hin] at h
      cases h
      exact absurd hr hone

/-- **A query that fails changes nothing, and one that succeeds only its own cells**, for every client of the
tables; it is answered, and no lock is held behind it. -/
theorem handleQuery_frame (st : Server) (socket : Int) (q : Query) (h₀ : 0 ≤ q.user)
    (h₁ : q.user < maxClient) :
    ∃ r st', (Op.handleQuery socket q).result (.unlocked st) = some (r, .unlocked st') ∧
      (r.response = "-1".toList → st' = st) ∧ (r.response ≠ "-1".toList → Frame st st' q) := by
  obtain ⟨user, action, data⟩ := q
  obtain ⟨c, rfl⟩ := exists_fin_of_bounds (n := maxClient) h₀ h₁
  obtain ⟨st', r, hrun⟩ := exists_handleQuery st c socket action data
  refine ⟨r, st', ?_, eq_of_response hrun, fun _ => (handleQuery_effect hrun).frame⟩
  rw [Op.result_handleQuery, hrun, Option.map_some]

/-- Client 1 registers. -/
theorem handleQuery_frame_register :
    ∃ r st', (Op.handleQuery 4 ⟨1, 1, 7⟩).result (.unlocked .init) = some (r, .unlocked st') ∧
      (r.response = "-1".toList → st' = .init) ∧
      (r.response ≠ "-1".toList → Frame .init st' ⟨1, 1, 7⟩) :=
  handleQuery_frame .init 4 ⟨1, 1, 7⟩ (by decide) (by decide)

end frame

end SystemProgrammingLab.Pa3
