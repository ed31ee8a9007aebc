import SystemProgrammingLab.Found.ReadStream
import SystemProgrammingLab.Pa3.Confirm

/-!
# The client

`validate_query`, the messages, and the main loop of `pa3_client.c`. A line of the input is what
`getline` returns, its last character included; the loop puts a NUL over that character and reads
three numbers. It writes a valid query to the server, reads once into a zeroed buffer, and decodes
the text in the buffer with `strtol`: -1 is failure. Nobody looks at the return value of `read`, and the
text in a buffer that was not written to is empty and decodes to 0, so an absent reply is reported
as success. `honest_iff` says that this is the only way to a success message without a reply.

`clientMain` lists what the client does, in order. The answers of the server are a list of read
results, one for each query that is written; where the list ends the client still waits. A reply
of 4096 bytes without a NUL is taken to end with the buffer. `write` succeeds.

Source: `pa3/pa3_client.c`
-/

namespace SystemProgrammingLab.Pa3

open SystemProgrammingLab.Found

/-! ## Queries -/

/-- Source: `validate_query` -/
def validateQuery (user action seat : Int) : Bool :=
  if user < 0 ∨ user > 1023 then false
  else if action < 0 ∨ action > 5 then false
  else
    match action with
    | 1 => !(decide (seat < 0 ∨ seat > 2 ^ 31 - 1))
    | 2 | 3 => !(decide (seat < 0 ∨ seat ≥ 256))
    | _ => true

/-- `sscanf(line, "%d %d %d", ..)`, when it reads all three numbers. Source: `pa3_client.c`, `main` -/
def scanQuery (line : List Char) : Option Query := do
  let (user, line) ← scanLong line
  let (action, line) ← scanLong line
  let (seat, _) ← scanLong line
  return ⟨toInt user, toInt action, toInt seat⟩

/-- The query in a line, if it is valid. The last character of the line is overwritten with NUL, and `sscanf`
stops at the first NUL. Source: `pa3_client.c`, `main` -/
def lineQuery (line : List Char) : Option Query :=
  (scanQuery (line.dropLast.takeWhile (· ≠ '\x00'))).filter fun q =>
    validateQuery q.user q.action q.data

/-! ## Messages -/

/-- What the client prints. Source: `pa3_client.c`, `main`, `disconnect` -/
inductive Message
  | invalid
  | failed (action : Int)
  | loggedIn
  | booked (seat : Int)
  | bookedSeats (text : List Char)
  | cancelled (seat : Int)
  | loggedOut
  | terminated
  | notTerminated
  deriving DecidableEq

/-- The message as printed. Source: `pa3_client.c`, `main`, `disconnect` -/
def Message.text : Message → List Char
  | .invalid => "Query is invalid.\n".toList
  | .failed 1 => "Failed to log in.\n".toList
  | .failed 2 => "Failed to book.\n".toList
  | .failed 3 => "Failed to confirm booking.\n".toList
  | .failed 4 => "Failed to cancel booking.\n".toList
  | .failed _ => "Failed to log out.\n".toList
  | .loggedIn => "Logged in successfully.\n".toList
  | .booked seat => "Seat ".toList ++ showInt seat ++ " booked.\n".toList
  | .bookedSeats text => "Booked seats: \n".toList ++ text ++ ['\n']
  | .cancelled seat => "Cancelled seat number: ".toList ++ showInt seat ++ ['\n']
  | .loggedOut => "Logged out successfully.\n".toList
  | .terminated => "Connection terminated.\n".toList
  | .notTerminated => "Failed to disconnect.\n".toList

/-- The message reports the success of a query. -/
def Message.isSuccess : Message → Bool
  | .loggedIn | .booked _ | .bookedSeats _ | .cancelled _ | .loggedOut => true
  | .invalid | .failed _ | .terminated | .notTerminated => false

/-- How the messages begin that report success. -/
def successStarts : List (List Char) := [['L', 'o'], ['S', 'e'], ['B', 'o'], ['C', 'a']]

/-- All failures begin in the same way. -/
theorem Message.text_failed (action : Int) : (Message.failed action).text.take 2 = ['F', 'a'] := by
  unfold Message.text
  split <;> first | rfl | (rename_i heq; cases heq)

/-- The first two characters of a message tell whether it reports success. -/
theorem Message.isSuccess_iff (m : Message) : m.isSuccess = true ↔ m.text.take 2 ∈ successStarts := by
  cases m with
  | failed action =>
      rw [text_failed]
      constructor
      · intro h
        cases h
      · intro h
        exact absurd h (by decide)
  | booked seat =>
      have hstart : (Message.booked seat).text.take 2 = ['S', 'e'] := rfl
      exact ⟨fun _ => hstart ▸ by decide, fun _ => rfl⟩
  | bookedSeats text =>
      have hstart : (Message.bookedSeats text).text.take 2 = ['B', 'o'] := rfl
      exact ⟨fun _ => hstart ▸ by decide, fun _ => rfl⟩
  | cancelled seat =>
      have hstart : (Message.cancelled seat).text.take 2 = ['C', 'a'] := rfl
      exact ⟨fun _ => hstart ▸ by decide, fun _ => rfl⟩
  | invalid | loggedIn | loggedOut | terminated | notTerminated => decide

/-- **A success and a failure never look the same on the screen.** -/
theorem Message.isSuccess_eq_of_text {m m' : Message} (h : m.text = m'.text) : m.isSuccess = m'.isSuccess := by
  rw [Bool.eq_iff_iff, isSuccess_iff, isSuccess_iff, h]

/-- The text in the zeroed buffer `response` after one read. Source: `pa3_client.c`, `main` -/
def responseOf (r : ReadResult 4096 Char) : List Char :=
  cString (n := 4096) (store (fun _ => '\x00') r.bytes)

/-- `(int)strtol(response, NULL, 10)`. Source: `pa3_client.c`, `main` -/
def codeOf (response : List Char) : Int := toInt (strtol response)

/-- The message for a response. Source: `main`, the `switch` -/
def report (action : Int) (response : List Char) : Message :=
  match action with
  | 1 => if codeOf response = -1 then .failed 1 else .loggedIn
  | 2 => if codeOf response = -1 then .failed 2 else .booked (codeOf response)
  | 3 => if codeOf response = -1 then .failed 3 else .bookedSeats response
  | 4 => if codeOf response = -1 then .failed 4 else .cancelled (codeOf response)
  | 5 => if codeOf response = -1 then .failed 5 else .loggedOut
  | _ => .invalid

/-! ## The main loop -/

/-- What the client does: it writes a query to the socket, a read on the socket returns, it prints
a message. -/
inductive Action
  | send (q : Query)
  | recv (r : ReadResult 4096 Char)
  | print (m : Message)

/-- The client ends: it writes the terminate query and reads the answer. Source: `disconnect` -/
def disconnect : List (ReadResult 4096 Char) → List Action
  | [] => [.send ⟨0, 0, 0⟩]
  | r :: _ =>
      [.send ⟨0, 0, 0⟩, .recv r,
        .print (if codeOf (responseOf r) = 256 then .terminated else .notTerminated)]

/-- What the client does for the lines of its input, when the reads on the socket return `rs`.
Source: `main` -/
def clientMain : List (List Char) → List (ReadResult 4096 Char) → List Action
  | [], rs => disconnect rs
  | line :: lines, rs =>
      match lineQuery line with
      | none => .print .invalid :: clientMain lines rs
      | some q =>
          if q.action = 0 then disconnect rs
          else
            match rs with
            | [] => [.send q]
            | r :: rs =>
                .send q :: .recv r :: .print (report q.action (responseOf r)) ::
                  clientMain lines rs

/-! ## Success messages and replies -/

/-- A valid query has a client id of the server and one of the six actions. -/
theorem validateQuery_bounds {user action seat : Int} (h : validateQuery user action seat = true) :
    (0 ≤ user ∧ user ≤ 1023) ∧ 0 ≤ action ∧ action ≤ 5 := by
  unfold validateQuery at h
  split_ifs at h with huser haction
  omega

/-- A query that is sent is valid. -/
theorem lineQuery_valid {line : List Char} {q : Query} (h : lineQuery line = some q) :
    validateQuery q.user q.action q.data = true := (Option.filter_eq_some_iff.mp h).2

/-- The client reports success if and only if the response does not decode to -1. -/
theorem report_isSuccess {action : Int} (h1 : 1 ≤ action) (h5 : action ≤ 5)
    (response : List Char) : (report action response).isSuccess = true ↔ codeOf response ≠ -1 := by
  have haction := action_cases h1 h5
  by_cases hcode : codeOf response = -1
  · rcases haction with rfl | rfl | rfl | rfl | rfl <;> simp [report, hcode, Message.isSuccess]
  · rcases haction with rfl | rfl | rfl | rfl | rfl <;> simp [report, hcode, Message.isSuccess]

/-- A reply without NUL that leaves room for one is the text in the buffer. -/
theorem responseOf_eq {r : ReadResult 4096 Char} (hfits : r.bytes.length < 4096)
    (htext : '\x00' ∉ r.bytes) : responseOf r = r.bytes := by
  have hall : ∀ c ∈ r.bytes, decide (c ≠ '\x00') = true := by
    intro c hc
    rw [decide_eq_true_eq]
    rintro rfl
    exact htext hc
  unfold responseOf cString
  rw [ofFn_store_const _ (Nat.le_of_lt hfits), List.takeWhile_append_of_pos hall]
  simp

/-- Without a reply the response is empty. -/
theorem responseOf_eq_nil {r : ReadResult 4096 Char} (h : r.bytes = []) : responseOf r = [] := by
  rw [responseOf_eq (by rw [h]; decide) (by rw [h]; exact List.not_mem_nil), h]

/-- Each success message comes right after a reply: a query was written, the read that followed
returned at least one byte, and the text it returned, which does not decode to -1, gives this
message for this query. -/
def Honest (as : List Action) : Prop :=
  ∀ i m, as[i]? = some (.print m) → m.isSuccess = true →
    ∃ j q r, i = j + 2 ∧ as[j]? = some (.send q) ∧ as[j + 1]? = some (.recv r) ∧
      m = report q.action (responseOf r) ∧ r.bytes ≠ [] ∧ codeOf (responseOf r) ≠ -1

/-- The queries that the lines make the client write before it ends the connection. -/
def sentQueries : List (List Char) → List Query
  | [] => []
  | line :: lines =>
      match lineQuery line with
      | none => sentQueries lines
      | some q => if q.action = 0 then [] else q :: sentQueries lines

/-- A trace with no success message is honest. -/
theorem honest_of_forall {as : List Action} (h : ∀ m, .print m ∈ as → m.isSuccess = false) :
    Honest as := by
  intro i m hm hs
  rw [h m (List.mem_of_getElem? hm)] at hs
  cases hs

/-- The end shows no success. -/
theorem honest_disconnect (rs : List (ReadResult 4096 Char)) : Honest (disconnect rs) := by
  apply honest_of_forall
  intro m hm
  cases rs with
  | nil => simp [disconnect] at hm
  | cons r rs =>
      simp only [disconnect, List.mem_cons, reduceCtorEq, false_or, Action.print.injEq,
        List.not_mem_nil, or_false] at hm
      rw [hm]
      split_ifs <;> rfl

/-- A message that is no success does not matter. -/
theorem honest_print_cons {m : Message} (hm : m.isSuccess = false) {as : List Action} :
    Honest (.print m :: as) ↔ Honest as := by
  constructor
  · intro h i m' hm' hs
    obtain ⟨j, q, r, hj, hq, hr, hrest⟩ := h (i + 1) m' hm' hs
    obtain ⟨j, rfl⟩ : ∃ j', j = j' + 1 := by
      cases j with
      | zero => cases hq
      | succ j => exact ⟨j, rfl⟩
    exact ⟨j, q, r, by omega, hq, hr, hrest⟩
  · intro h i m' hm' hs
    cases i with
    | zero =>
        cases hm'
        rw [hm] at hs
        cases hs
    | succ i =>
        obtain ⟨j, q, r, rfl, hq, hr, hrest⟩ := h i m' hm' hs
        exact ⟨j + 1, q, r, rfl, hq, hr, hrest⟩

/-- One exchange: its message is a success only for a reply. -/
theorem honest_exchange_cons {q : Query} {r : ReadResult 4096 Char} {as : List Action} :
    Honest (.send q :: .recv r :: .print (report q.action (responseOf r)) :: as) ↔
      ((report q.action (responseOf r)).isSuccess = true →
        r.bytes ≠ [] ∧ codeOf (responseOf r) ≠ -1) ∧ Honest as := by
  constructor
  · intro h
    constructor
    · intro hs
      obtain ⟨j, q', r', hj, -, hr, -, hrest⟩ := h 2 _ rfl hs
      obtain rfl : j = 0 := by omega
      cases hr
      exact hrest
    · intro i m hm hs
      obtain ⟨j, q', r', hj, hq, hr, hrest⟩ := h (i + 3) m hm hs
      obtain ⟨j, rfl⟩ : ∃ j', j = j' + 3 := by
        -- the query of this message is not in the exchange before it
        rcases j with _ | _ | _ | j
        · omega
        · cases hq
        · cases hq
        · exact ⟨j, rfl⟩
      exact ⟨j, q', r', by omega, hq, hr, hrest⟩
  · rintro ⟨hfirst, h⟩ i m hm hs
    rcases i with _ | _ | _ | i
    · cases hm
    · cases hm
    · cases hm
      exact ⟨0, q, r, rfl, rfl, rfl, rfl, hfirst hs⟩
    · obtain ⟨j, q', r', rfl, hq, hr, hrest⟩ := h i m hm hs
      exact ⟨j + 3, q', r', rfl, hq, hr, hrest⟩

/-- **The client reports success only for answered queries if and only if every read for a query
returns at least one byte.** -/
theorem honest_iff (lines : List (List Char)) :
    ∀ rs : List (ReadResult 4096 Char), Honest (clientMain lines rs) ↔
      ∀ r ∈ rs.take (sentQueries lines).length, r.bytes ≠ [] := by
  induction lines with
  | nil =>
      intro rs
      apply iff_of_true (honest_disconnect rs)
      simp [sentQueries]
  | cons line lines ih =>
      intro rs
      cases hline : lineQuery line with
      | none =>
          simp only [clientMain, sentQueries, hline]
          rw [honest_print_cons rfl, ih]
      | some q =>
          have hbounds := (validateQuery_bounds (lineQuery_valid hline)).2
          by_cases hzero : q.action = 0
          · simp only [clientMain, sentQueries, hline, hzero, if_true]
            apply iff_of_true (honest_disconnect rs)
            simp
          · simp only [clientMain, sentQueries, hline, hzero, if_false]
            cases rs with
            | nil =>
                refine iff_of_true (honest_of_forall ?_) ?_
                · simp
                · simp
            | cons r rs =>
                simp only [honest_exchange_cons, ih, List.length_cons, List.take_succ_cons,
                  List.forall_mem_cons]
                refine and_congr_left fun _ => ?_
                rw [report_isSuccess (by omega) hbounds.2]
                constructor
                · intro h hnil
                  have hcode : codeOf (responseOf r) ≠ -1 := by
                    rw [responseOf_eq_nil hnil]
                    decide
                  exact (h hcode).1 hnil
                · intro h hcode
                  exact ⟨h, hcode⟩

/-- A login query, with the connection closed before the reply. -/
def closedEarly : List Action := clientMain [['1', ' ', '1', ' ', '7', '\n']] [.eof, .eof]

/-- **The client says that it logged in although the server sent nothing.** -/
theorem not_honest : .print .loggedIn ∈ closedEarly ∧ ¬ Honest closedEarly := by
  have hline : lineQuery ['1', ' ', '1', ' ', '7', '\n'] = some ⟨1, 1, 7⟩ := by decide +kernel
  have hreport : report 1 (responseOf .eof) = .loggedIn := by
    rw [responseOf_eq_nil rfl]
    decide
  have htrace : closedEarly = .send ⟨1, 1, 7⟩ :: .recv .eof ::
      .print (report 1 (responseOf .eof)) :: clientMain [] [.eof] := by
    simp [closedEarly, clientMain, hline]
  constructor
  · rw [htrace, hreport]
    simp
  · intro h
    rw [htrace] at h
    have hsuccess : (report 1 (responseOf .eof)).isSuccess = true := by
      rw [hreport]
      rfl
    exact ((@honest_exchange_cons ⟨1, 1, 7⟩ _ _).mp h).1 hsuccess |>.1 rfl

end SystemProgrammingLab.Pa3
