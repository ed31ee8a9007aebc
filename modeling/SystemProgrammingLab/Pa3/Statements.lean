import SystemProgrammingLab.Found.Prog
import SystemProgrammingLab.Pa3.Access

/-!
# The statements of a query

The operations as programs of single statements (`Code`): each read and each write of a cell of the
tables, each call on a mutex. `Interleaving` runs them in threads, with the other threads between any
two statements. Run without them, they are the operations of `Access` (`run_handleQuery`).

Source: `pa3/pa3_server.c`
-/

namespace SystemProgrammingLab.Pa3

open SystemProgrammingLab.Found

/-- What a thread does at once. Source: `pa3_server.c` -/
inductive Stmt
  | readPassword (i : Int)
  | writePassword (i v : Int)
  | readSession (i : Int)
  | writeSession (i v : Int)
  | readSeat (i : Int)
  | writeSeat (i v : Int)
  | mutexLock (i : Int)
  | mutexUnlock (i : Int)
  deriving DecidableEq

/-- A statement that is no read gives 0. -/
def voidValue {σ : Type} : Unit × σ → Int × σ
  | (_, s) => (0, s)

/-- What the statement does to the tables, and the value that a read gives. It is `none` for an index
outside of its table, and for `mutexLock` while the lock is held. -/
def Stmt.exec : Stmt → Tables → Option (Int × Tables)
  | .readPassword i, s => (Op.readPassword i).result s
  | .writePassword i v, s => ((Op.writePassword i v).result s).map voidValue
  | .readSession i, s => (Op.readSession i).result s
  | .writeSession i v, s => ((Op.writeSession i v).result s).map voidValue
  | .readSeat i, s => (Op.readSeat i).result s
  | .writeSeat i v, s => ((Op.writeSeat i v).result s).map voidValue
  | .mutexLock i, s => ((Op.mutexLock i).result s).map voidValue
  | .mutexUnlock i, s => ((Op.mutexUnlock i).result s).map voidValue

/-- A piece of the server's code. -/
abbrev Code := Prog Stmt Int

namespace Code

/-! ## The operations -/

/-- Source: `is_logged_in` -/
def isLoggedIn (clientId socket : Int) : Code Bool := do
  if (← .stmt (.readSession clientId)) = 0 then return false
  return decide (socket = (← .stmt (.readSession clientId)))

/-- The end of `login`, for a client without a session on another socket. Source: `login` -/
def checkPassword (clientId pw socket : Int) : Code Bool := do
  -- not registered
  if (← .stmt (.readPassword clientId)) = 0 then
    let _ ← .stmt (.writePassword clientId pw)
    let _ ← .stmt (.writeSession clientId socket)
    return true
  if (← .stmt (.readPassword clientId)) = pw then
    let _ ← .stmt (.writeSession clientId socket)
    return true
  return false

/-- Source: `login` -/
def login (clientId pw socket : Int) : Code Bool := do
  if pw < 0 then return false
  if ← isLoggedIn clientId socket then return false
  if clientId < 0 ∨ clientId ≥ maxClient then return false
  -- already logged in from other client
  if (← .stmt (.readSession clientId)) ≠ 0 then
    if (← .stmt (.readSession clientId)) ≠ socket then return false
    else checkPassword clientId pw socket
  else checkPassword clientId pw socket

/-- `some n` is the return value `true` with `*seat_num = n`. Source: `book` -/
def book (clientId seat socket : Int) : Code (Option Int) := do
  if !(← isLoggedIn clientId socket) then return none
  if seat < 0 ∨ seat ≥ numSeat then return none
  let _ ← .stmt (.mutexLock seat)
  if (← .stmt (.readSeat seat)) = 0 then
    let _ ← .stmt (.writeSeat seat clientId)
    let _ ← .stmt (.mutexUnlock seat)
    return some seat
  let _ ← .stmt (.mutexUnlock seat)
  return none

/-- One iteration of the loop of `confirm_booking`. -/
def confirmSeat (clientId : Int) (b : Booked) (i : Fin numSeat) : Code Booked := do
  let _ ← .stmt (.mutexLock (i : Nat))
  let owner ← .stmt (.readSeat (i : Nat))
  let b := if owner = clientId then
    ⟨b.text ++ snprintf 5 (decimal i ++ [',']), b.count + 1⟩
  else b
  let _ ← .stmt (.mutexUnlock (i : Nat))
  return b

/-- Source: `confirm_booking` -/
def confirmBooking (clientId socket : Int) : Code (Option (List Char)) := do
  if !(← isLoggedIn clientId socket) then return none
  let b ← (List.finRange numSeat).foldlM (confirmSeat clientId) Booked.empty
  return confirmResult b

/-- Source: `cancel_booking` -/
def cancelBooking (clientId seat socket : Int) : Code Bool := do
  if !(← isLoggedIn clientId socket) then return false
  if seat < 0 ∨ seat ≥ numSeat then return false
  if (← .stmt (.readSeat seat)) = 0 then return false
  let _ ← .stmt (.mutexLock seat)
  if (← .stmt (.readSeat seat)) = clientId then
    let _ ← .stmt (.writeSeat seat 0)
    let _ ← .stmt (.mutexUnlock seat)
    return true
  let _ ← .stmt (.mutexUnlock seat)
  return false

/-- Source: `logout` -/
def logout (clientId socket : Int) : Code Bool := do
  if !(← isLoggedIn clientId socket) then return false
  let _ ← .stmt (.writeSession clientId 0)
  return true

/-- The reply to one query. Source: `handle_query` -/
def handleQuery (socket : Int) (q : Query) : Code Reply :=
  match q.action with
  | 0 => -- terminate connection
      if q.data = 0 ∧ q.user = 0 then pure (.ok (snprintf 4096 (showInt 256)))
      else pure .failure
  | 1 => do -- login
      let ok ← login q.user q.data socket
      return if ok then .ok ['1'] else .failure
  | 2 => do -- book
      let seatNum ← book q.user q.data socket
      return seatNum.elim .failure fun n => .ok (snprintf 4096 (showInt n))
  | 3 => do -- confirm booking
      let buf ← confirmBooking q.user socket
      return confirmReply buf
  | 4 => do -- cancel booking
      let ok ← cancelBooking q.user q.data socket
      return if ok then .ok (snprintf 4096 (showInt q.data)) else .failure
  | 5 => do -- logout
      let ok ← logout q.user socket
      return if ok then .ok ['1'] else .failure
  | _ => pure .failure

/-! ## Undisturbed -/

/-- The code does what the call does, when no other thread comes in between. -/
def Runs {α : Type} (p : Code α) (x : Op α) : Prop := ∀ s, p.run Stmt.exec s = x.result s

section runs

variable {α β : Type}

/-- A program that has ended. -/
theorem runs_pure (a : α) : Runs (pure a) (pure a) := fun _ => rfl

/-- One program behind the other. -/
theorem Runs.bind {p : Code α} {x : Op α} {f : α → Code β} {g : α → Op β} (hp : Runs p x)
    (hf : ∀ a, Runs (f a) (g a)) : Runs (p >>= f) (x >>= g) := by
  intro s
  rw [Prog.run_bind, Traced.result_bind, hp s]
  cases x.result s with
  | none => rfl
  | some y => exact hf y.1 y.2

/-- A choice. -/
theorem Runs.ite {c : Prop} [Decidable c] {p q : Code α} {x y : Op α} (hp : Runs p x)
    (hq : Runs q y) : Runs (if c then p else q) (if c then x else y) := by
  split_ifs
  · exact hp
  · exact hq

/-- A read. -/
theorem runs_read {a : Stmt} {x : Op Int} (h : a.exec = x.result) : Runs (.stmt a) x := by
  intro s
  rw [Prog.run_stmt, h]

/-- A statement whose value is not used. -/
theorem runs_void {a : Stmt} {x : Op Unit} {f : Code β} {g : Op β}
    (h : ∀ s, a.exec s = (x.result s).map voidValue) (hf : Runs f g) :
    Runs (Prog.stmt a >>= fun _ => f) (x >>= fun _ => g) := by
  intro s
  rw [Prog.run_bind, Traced.result_bind, Prog.run_stmt, h]
  cases x.result s with
  | none => rfl
  | some y => exact hf y.2

/-- A loop. -/
theorem runs_foldlM {ι : Type} {f : β → ι → Code β} {g : β → ι → Op β}
    (h : ∀ b i, Runs (f b i) (g b i)) (l : List ι) (b : β) : Runs (l.foldlM f b) (l.foldlM g b) := by
  induction l generalizing b with
  | nil => exact runs_pure b
  | cons i l ih =>
      rw [List.foldlM_cons, List.foldlM_cons]
      exact (h b i).bind ih

end runs

section operations

variable (clientId seat pw socket : Int)

/-- `is_logged_in` does what the operation does. -/
theorem runs_isLoggedIn : Runs (isLoggedIn clientId socket) (Op.isLoggedIn clientId socket) := by
  refine (runs_read rfl).bind fun s => .ite (runs_pure false) ?_
  exact (runs_read rfl).bind fun s => runs_pure _

/-- The check of the password, as it is written in `login`. -/
theorem runs_checkPassword : Runs (checkPassword clientId pw socket) (do
    if (← Op.readPassword clientId) = 0 then
      Op.writePassword clientId pw
      Op.writeSession clientId socket
      return true
    if (← Op.readPassword clientId) = pw then
      Op.writeSession clientId socket
      return true
    return false) := by
  refine (runs_read rfl).bind fun p => .ite ?_ ?_
  · exact runs_void (fun _ => rfl) (runs_void (fun _ => rfl) (runs_pure true))
  · refine (runs_read rfl).bind fun p => .ite ?_ (runs_pure false)
    exact runs_void (fun _ => rfl) (runs_pure true)

/-- `login` does what the operation does. -/
theorem runs_login : Runs (login clientId pw socket) (Op.login clientId pw socket) := by
  have hpassword := runs_checkPassword clientId pw socket
  refine .ite (runs_pure false) ?_
  refine (runs_isLoggedIn clientId socket).bind fun ok => .ite (runs_pure false) ?_
  refine .ite (runs_pure false) ?_
  refine (runs_read rfl).bind fun s => .ite ?_ hpassword
  exact (runs_read rfl).bind fun s => .ite (runs_pure false) hpassword

/-- `book` does what the operation does. -/
theorem runs_book : Runs (book clientId seat socket) (Op.book clientId seat socket) := by
  refine (runs_isLoggedIn clientId socket).bind fun ok => .ite (runs_pure none) ?_
  refine .ite (runs_pure none) (runs_void (fun _ => rfl) ?_)
  refine (runs_read rfl).bind fun owner => .ite ?_ ?_
  · exact runs_void (fun _ => rfl) (runs_void (fun _ => rfl) (runs_pure (some seat)))
  · exact runs_void (fun _ => rfl) (runs_pure none)

/-- An iteration of `confirm_booking` does what that of the operation does. -/
theorem runs_confirmSeat (b : Booked) (i : Fin numSeat) :
    Runs (confirmSeat clientId b i) (Op.confirmSeat clientId b i) := by
  refine runs_void (fun _ => rfl) ((runs_read rfl).bind fun owner => ?_)
  exact runs_void (fun _ => rfl) (runs_pure _)

/-- `confirm_booking` does what the operation does. -/
theorem runs_confirmBooking :
    Runs (confirmBooking clientId socket) (Op.confirmBooking clientId socket) := by
  refine (runs_isLoggedIn clientId socket).bind fun ok => .ite (runs_pure none) ?_
  exact (runs_foldlM (runs_confirmSeat clientId) _ _).bind fun b => runs_pure _

/-- `cancel_booking` does what the operation does. -/
theorem runs_cancelBooking :
    Runs (cancelBooking clientId seat socket) (Op.cancelBooking clientId seat socket) := by
  refine (runs_isLoggedIn clientId socket).bind fun ok => .ite (runs_pure false) ?_
  refine .ite (runs_pure false) ((runs_read rfl).bind fun owner => .ite (runs_pure false) ?_)
  refine runs_void (fun _ => rfl) ((runs_read rfl).bind fun owner => .ite ?_ ?_)
  · exact runs_void (fun _ => rfl) (runs_void (fun _ => rfl) (runs_pure true))
  · exact runs_void (fun _ => rfl) (runs_pure false)

/-- `logout` does what the operation does. -/
theorem runs_logout : Runs (logout clientId socket) (Op.logout clientId socket) := by
  refine (runs_isLoggedIn clientId socket).bind fun ok => .ite (runs_pure false) ?_
  exact runs_void (fun _ => rfl) (runs_pure true)

/-- `handle_query` does what the operation does. -/
theorem runs_handleQuery (q : Query) : Runs (handleQuery socket q) (Op.handleQuery socket q) := by
  obtain ⟨user, action, data⟩ := q
  unfold handleQuery
  split <;> rename_i hact <;> simp only at hact <;> try subst hact
  · exact .ite (runs_pure _) (runs_pure _)
  · exact (runs_login user data socket).bind fun ok => runs_pure _
  · exact (runs_book user data socket).bind fun seatNum => runs_pure _
  · exact (runs_confirmBooking user socket).bind fun buf => runs_pure _
  · exact (runs_cancelBooking user data socket).bind fun ok => runs_pure _
  · exact (runs_logout user socket).bind fun ok => runs_pure _
  · unfold Op.handleQuery
    split <;> first | exact runs_pure _ | contradiction

/-- **A query whose statements run one behind the other is a query of the atomic model**: the same
reply and the same tables, and no lock is held behind it. -/
theorem run_handleQuery (st : Server) (q : Query) :
    (handleQuery socket q).run Stmt.exec (.unlocked st) =
      (Pa3.handleQuery st socket q).map fun p => (p.2, .unlocked p.1) := by
  rw [runs_handleQuery, Op.result_handleQuery]

end operations

end Code

end SystemProgrammingLab.Pa3
