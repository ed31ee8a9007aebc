import SystemProgrammingLab.Pa3.Client

/-!
# Client and server agree on every outcome

The reply is a text without a type: a number, a list of numbers, the character `1`, or `-1`. The
server chooses it by the return value of the operation, the client reads it back by the action of
its query. `Decodes` says what the client has to find in a reply, one lemma below shows it for each
kind of reply, and `report_reply` puts them together: for a valid query the client prints the
success message, with the right seat or list, exactly when the operation returned `true`.

Source: `pa3/pa3_server.c`, `handle_query`; `pa3/pa3_client.c`, `main`
-/

namespace SystemProgrammingLab.Pa3

open SystemProgrammingLab.Found

/-! ## What is to agree -/

/-- The return value of the operation that a query asks for. -/
def returned (st : Server) (socket : Int) (q : Query) : Option Bool :=
  match q.action with
  | 1 => (login st q.user q.data socket).map Prod.snd
  | 2 => (book st q.user q.data socket).map fun p => p.2.isSome
  | 3 => (confirmBooking st q.user socket).map Option.isSome
  | 4 => (cancelBooking st q.user q.data socket).map Prod.snd
  | 5 => (logout st q.user socket).map Prod.snd
  | _ => none

/-- The success message that a query deserves: with the requested seat, or with the list that
`confirm_booking` built. -/
def successMessage (st : Server) (socket : Int) (q : Query) : Message :=
  match q.action with
  | 1 => .loggedIn
  | 2 => .booked q.data
  | 3 => .bookedSeats ((confirmBooking st q.user socket).join.getD [])
  | 4 => .cancelled q.data
  | _ => .loggedOut

/-- A reply that the client reads whole and takes for the outcome `ok` of a query, with the
message `m` for success. -/
structure Decodes (response : List Char) (action : Int) (ok : Bool) (m : Message) : Prop where
  nonempty : response ≠ []
  fits : response.length < 4096
  text : '\x00' ∉ response
  code : codeOf response = -1 ↔ ok = false
  message : report action response = if ok then m else .failed action

/-! ## The replies -/

/-- `-1` is failure, for every action. -/
theorem decodes_failure {action : Int} (h1 : 1 ≤ action) (h5 : action ≤ 5) (m : Message) :
    Decodes Reply.failure.response action false m := by
  have hresponse : Reply.failure.response = ['-', '1'] := by decide
  have hcode : codeOf ['-', '1'] = -1 := by decide
  rw [hresponse]
  refine ⟨by simp, by simp, by decide, iff_of_true hcode rfl, ?_⟩
  rcases action_cases h1 h5 with rfl | rfl | rfl | rfl | rfl <;> simp [report, hcode]

/-- The reply `1` is success for login and logout. -/
theorem decodes_one : Decodes ['1'] 1 true .loggedIn ∧ Decodes ['1'] 5 true .loggedOut := by
  have hcode : codeOf ['1'] = 1 := by decide
  constructor <;>
    exact ⟨by simp, by simp, by decide, by simp [hcode], by simp [report, hcode]⟩

/-- The text of a seat number decodes to the seat number, whatever follows it. -/
theorem codeOf_seat (i : Fin numSeat) {s : List Char} (hs : ∀ c ∈ s.head?, c.isDigit = false) :
    codeOf (decimal i ++ s) = (i : Nat) := by
  have hi : (i : Nat) < 256 := i.isLt
  unfold codeOf
  rw [strtol_decimal i (by omega) hs, toInt_natCast (by omega)]

/-- A number has no NUL. -/
theorem nul_not_mem_decimal (n : Nat) : '\x00' ∉ decimal n := by
  intro h
  exact absurd (isDigit_of_mem_decimal h) (by decide)

/-- The reply to book and cancel is the number of the seat. -/
theorem decodes_seat (i : Fin numSeat) :
    Decodes (snprintf 4096 (showInt (i : Nat))) 2 true (.booked (i : Nat)) ∧
      Decodes (snprintf 4096 (showInt (i : Nat))) 4 true (.cancelled (i : Nat)) := by
  have hlen := length_decimal_seat i
  have hresponse : snprintf 4096 (showInt (i : Nat)) = decimal i := by
    rw [showInt_natCast]
    exact List.take_of_length_le (by omega)
  have hcode : codeOf (decimal i) = (i : Nat) := by
    have h := codeOf_seat i (s := []) (by simp)
    rwa [List.append_nil] at h
  have hne : ((i : Nat) : Int) ≠ -1 := by omega
  rw [hresponse]
  constructor
  · exact ⟨decimal_ne_nil i, by omega, nul_not_mem_decimal i, by simp [hcode, hne],
      by simp [report, hcode, hne]⟩
  · exact ⟨decimal_ne_nil i, by omega, nul_not_mem_decimal i, by simp [hcode, hne],
      by simp [report, hcode, hne]⟩

/-- Nor has a list of seats. -/
theorem nul_not_mem_bookedOf (l : List (Fin numSeat)) : '\x00' ∉ (bookedOf l).text := by
  intro h
  obtain ⟨i, -, hi⟩ := List.mem_flatMap.mp h
  rcases List.mem_append.mp hi with hi | hi
  · exact nul_not_mem_decimal i hi
  · exact absurd hi (by decide)

/-- The reply to confirm is the list of the seats, without the last comma. -/
theorem decodes_bookedOf (i : Fin numSeat) (l : List (Fin numSeat)) (hl : l.length < numSeat) :
    Decodes (snprintf 4096 (bookedOf (i :: l)).text.dropLast) 3 true
      (.bookedSeats (bookedOf (i :: l)).text.dropLast) := by
  have hlen : (bookedOf (i :: l)).text.length ≤ 4 * (l.length + 1) := length_bookedOf_le (i :: l)
  have hl : l.length < 256 := hl
  have hresponse : snprintf 4096 (bookedOf (i :: l)).text.dropLast =
      (bookedOf (i :: l)).text.dropLast := by
    apply List.take_of_length_le
    rw [List.length_dropLast]
    omega
  obtain ⟨more, hsplit, hmore⟩ := exists_bookedOf_eq i l
  have hcomma : ∀ c ∈ more.head?, c.isDigit = false := by
    intro c hc
    rw [hmore c hc]
    rfl
  have hcode : codeOf (bookedOf (i :: l)).text.dropLast = (i : Nat) := by
    rw [hsplit]
    exact codeOf_seat i hcomma
  have hne : ((i : Nat) : Int) ≠ -1 := by omega
  rw [hresponse]
  refine ⟨?_, ?_, ?_, by simp [hcode, hne], by simp [report, hcode, hne]⟩
  · rw [hsplit]
    exact List.append_ne_nil_of_left_ne_nil (decimal_ne_nil i) _
  · rw [List.length_dropLast]
    omega
  · intro h
    exact nul_not_mem_bookedOf (i :: l) (List.dropLast_subset _ h)

/-! ## All actions -/

/-- The seat of a valid book query is a seat. -/
theorem exists_fin_of_valid_book {user seat : Int} (h : validateQuery user 2 seat = true) :
    ∃ i : Fin numSeat, seat = (i : Nat) := by
  unfold validateQuery at h
  split_ifs at h with huser haction
  simp only [Bool.not_eq_true', decide_eq_false_iff_not, not_or] at h
  exact exists_fin_of_bounds (n := numSeat) (Int.not_lt.mp h.1) (Int.not_le.mp h.2)

/-- What `handle_query` replies to a valid query, its operation returned, and the client makes of
the reply. -/
theorem handleQuery_decodes (st : Server) (socket : Int) {q : Query}
    (hvalid : validateQuery q.user q.action q.data = true) (h1 : 1 ≤ q.action) :
    ∃ st' reply ok, handleQuery st socket q = some (st', reply) ∧
      returned st socket q = some ok ∧
      Decodes reply.response q.action ok (successMessage st socket q) := by
  obtain ⟨⟨huser₀, huser₁⟩, -, h5⟩ := validateQuery_bounds hvalid
  obtain ⟨c, hc⟩ : ∃ c : Fin maxClient, q.user = (c : Nat) :=
    exists_fin_of_bounds (n := maxClient) huser₀ (Int.lt_of_le_of_lt huser₁ (by decide))
  obtain ⟨user, action, data⟩ := q
  simp only at hvalid h1 h5 hc
  subst hc
  have hfail : ∀ m, Decodes Reply.failure.response action false m :=
    decodes_failure h1 h5
  rcases action_cases h1 h5 with rfl | rfl | rfl | rfl | rfl
  · -- login
    simp only [handleQuery, returned, successMessage, login_val]
    split_ifs with hok
    · exact ⟨_, _, true, rfl, rfl, decodes_one.1⟩
    · exact ⟨_, _, false, rfl, rfl, hfail _⟩
  · -- book
    obtain ⟨i, rfl⟩ := exists_fin_of_valid_book hvalid
    simp only [handleQuery, returned, successMessage, book_val]
    split_ifs with hok
    · exact ⟨_, _, true, rfl, rfl, (decodes_seat i).1⟩
    · exact ⟨_, _, false, rfl, rfl, hfail _⟩
  · -- confirm
    simp only [handleQuery, returned, successMessage, confirmBooking_val]
    split_ifs with hin
    · have hempty : Booked.empty = bookedOf [] := rfl
      rw [hempty, foldl_confirmSeat, List.nil_append]
      rcases hl : (List.finRange numSeat).filter fun j => st.seats j = (c : Nat) with _ | ⟨i, l⟩
      · exact ⟨_, _, false, rfl, rfl, hfail _⟩
      · have hlen := List.length_filter_le (fun j => decide (st.seats j = (c : Nat)))
          (List.finRange numSeat)
        rw [hl, List.length_cons, List.length_finRange] at hlen
        exact ⟨_, _, true, rfl, rfl, decodes_bookedOf i l hlen⟩
    · exact ⟨_, _, false, rfl, rfl, hfail _⟩
  · -- cancel
    rcases outside_or_fin numSeat data with hseat | ⟨i, rfl⟩
    · simp only [handleQuery, returned, successMessage, cancelBooking_of_no_seat st c socket hseat]
      exact ⟨_, _, false, rfl, rfl, hfail _⟩
    · simp only [handleQuery, returned, successMessage, cancelBooking_val]
      split_ifs with hok
      · exact ⟨_, _, true, rfl, rfl, (decodes_seat i).2⟩
      · exact ⟨_, _, false, rfl, rfl, hfail _⟩
  · -- logout
    simp only [handleQuery, returned, successMessage, logout_val]
    split_ifs with hok
    · exact ⟨_, _, true, rfl, rfl, decodes_one.2⟩
    · exact ⟨_, _, false, rfl, rfl, hfail _⟩

/-- **Client and server agree on every outcome.** For a valid query other than terminate the server
replies, and the client that reads the whole reply in one read reports success if and only if the
operation returned `true`, with the requested seat and the server's list; the reply decodes to -1
if and only if the operation failed. -/
theorem report_reply (st : Server) (socket : Int) {q : Query}
    (hvalid : validateQuery q.user q.action q.data = true) (h1 : 1 ≤ q.action) :
    ∃ st' reply ok, handleQuery st socket q = some (st', reply) ∧
      returned st socket q = some ok ∧
      (0 < reply.response.length ∧ reply.response.length < 4096) ∧
      ∀ r : ReadResult 4096 Char, r.bytes = reply.response →
        ((report q.action (responseOf r)).isSuccess = true ↔ ok = true) ∧
        report q.action (responseOf r) =
          (if ok then successMessage st socket q else .failed q.action) ∧
        (codeOf (responseOf r) = -1 ↔ ok = false) := by
  obtain ⟨st', reply, ok, hhandle, hreturned, hdec⟩ := handleQuery_decodes st socket hvalid h1
  refine ⟨st', reply, ok, hhandle, hreturned, ⟨List.length_pos_iff.mpr hdec.nonempty, hdec.fits⟩, ?_⟩
  intro r hr
  have hresponse : responseOf r = reply.response := by
    rw [responseOf_eq (by rw [hr]; exact hdec.fits) (by rw [hr]; exact hdec.text), hr]
  rw [hresponse]
  refine ⟨?_, hdec.message, hdec.code⟩
  rw [report_isSuccess h1 (validateQuery_bounds hvalid).2.2, ne_eq, hdec.code]
  simp

/-- Client 1 is logged in on socket 4 and has the seats 5 and 12. -/
def twoSeats : Server :=
  ⟨fun c => if c = 1 then 7 else 0, fun c => if c = 1 then 4 else 0,
    fun i => if i = 5 ∨ i = 12 then 1 else 0⟩

/-- Client 1 lists its two seats. -/
theorem twoSeats_report_reply :
    validateQuery 1 3 0 = true ∧
      ∃ st' reply ok, handleQuery twoSeats 4 ⟨1, 3, 0⟩ = some (st', reply) ∧
        returned twoSeats 4 ⟨1, 3, 0⟩ = some ok ∧
        (0 < reply.response.length ∧ reply.response.length < 4096) ∧
        ∀ r : ReadResult 4096 Char, r.bytes = reply.response →
          ((report 3 (responseOf r)).isSuccess = true ↔ ok = true) ∧
          report 3 (responseOf r) =
            (if ok then successMessage twoSeats 4 ⟨1, 3, 0⟩ else .failed 3) ∧
          (codeOf (responseOf r) = -1 ↔ ok = false) :=
  ⟨by decide, @report_reply twoSeats 4 ⟨1, 3, 0⟩ (by decide) (by decide)⟩

end SystemProgrammingLab.Pa3
