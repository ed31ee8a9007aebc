import SystemProgrammingLab.Found.CText
import SystemProgrammingLab.Found.Traced
import SystemProgrammingLab.Pa3.Confirm

/-!
# The buffers of a confirm query

`handle_query` and `confirm_booking` once more, for a confirm query, with the two arrays of 4096
characters that the text goes through and every `snprintf` as an event (`Printing`). Each seat is
printed behind the text that is there, with a bound of 5, the last comma is overwritten, and the text
is printed into `response`.

No `snprintf` cuts its text and none leaves its array; the reply is the list of the seats of the client,
in increasing order and with single commas, and reads back as this list (`confirm_listed`).

Source: `pa3/pa3_server.c`
-/

namespace SystemProgrammingLab.Pa3

open SystemProgrammingLab.Found

/-! ## Buffers and calls -/

/-- The size of `buf` and of `response`. Source: `handle_query` -/
abbrev bufferSize : Nat := 4096

/-- The arrays of `handle_query`. Source: `handle_query` -/
structure Buffers where
  buf : Fin bufferSize → Char
  response : Fin bufferSize → Char

/-- Both arrays are zeroed first. -/
def Buffers.zeroed : Buffers := ⟨fun _ => '\x00', fun _ => '\x00'⟩

/-- A call of `snprintf`: its bound and the text that it is to print. -/
structure Print where
  size : Nat
  text : List Char

/-- The text is printed whole: it fits the bound, with a NUL. -/
def Print.Whole (p : Print) : Prop := p.text.length < p.size

/-- A part of a confirm query. Its prints are events, and it stops where it leaves an array. -/
abbrev Printing := Traced Buffers Print

namespace Printing

/-- `strlen(buf)`. Source: `confirm_booking` -/
def strlen : Printing Nat := Traced.silent fun b => (textOf b.buf).map fun text => (text.length, b)

/-- `snprintf(buf + o, size, ..)`. Source: `confirm_booking` -/
def printBuf (o size : Nat) (text : List Char) : Printing Unit :=
  Traced.act ⟨size, text⟩ fun b => (printAt b.buf o size text).map fun buf => ((), { b with buf })

/-- `buf[i] = '\0'`. Source: `handle_query` -/
def cutBuf (i : Int) : Printing Unit :=
  Traced.silent fun b => (wr b.buf i '\x00').map fun buf => ((), { b with buf })

/-- The string in `buf`. -/
def readBuf : Printing (List Char) := Traced.silent fun b => (textOf b.buf).map fun text => (text, b)

/-- `snprintf(response, sizeof(response), ..)`. Source: `handle_query` -/
def printResponse (text : List Char) : Printing Unit :=
  Traced.act ⟨bufferSize, text⟩ fun b =>
    (printTo b.response bufferSize text).map fun response => ((), { b with response })

/-! ## The query -/

/-- The call of `is_logged_in`. Source: `confirm_booking` -/
def checkLogin (st : Server) (clientId socket : Int) : Printing Bool :=
  Traced.silent fun b => (isLoggedIn st clientId socket).map fun ok => (ok, b)

/-- One iteration of the loop of `confirm_booking`, with `booked_count`. -/
def confirmSeat (st : Server) (clientId : Int) (count : Nat) (i : Fin numSeat) : Printing Nat :=
  if st.seats i = clientId then do
    let len ← strlen
    printBuf len 5 (showInt i ++ [','])
    return count + 1
  else return count

/-- Source: `confirm_booking` -/
def confirmBooking (st : Server) (clientId socket : Int) : Printing Bool := do
  if !(← checkLogin st clientId socket) then return false
  let count ← (List.finRange numSeat).foldlM (confirmSeat st clientId) 0
  if count = 0 then return false
  let len ← strlen
  cutBuf ((len : Int) - 1)
  return true

/-- The case of a confirm query and the reply; `write` sends the string in `response`.
Source: `handle_query` -/
def handleConfirm (st : Server) (clientId socket : Int) : Printing Unit := do
  if ← confirmBooking st clientId socket then
    let text ← readBuf
    printResponse text
  else
    printResponse (showInt (-1))

end Printing

/-! ## The text -/

section text

variable (l : List (Fin numSeat))

/-- `count` is the number of seats in the list. -/
@[simp] theorem bookedOf_count : (bookedOf l).count = l.length := rfl

/-- What is printed for a seat has no NUL. -/
theorem nul_notMem_seat (i : Fin numSeat) : '\x00' ∉ decimal i ++ [','] := by
  rw [List.mem_append, not_or]
  refine ⟨fun hmem => ?_, by decide⟩
  exact absurd (isDigit_of_mem_decimal hmem) (by decide)

/-- Without the last comma, the numbers stand between single commas. -/
theorem bookedOf_eq (h : l ≠ []) : (bookedOf l).text =
    [','].intercalate (l.map fun i : Fin numSeat => decimal i) ++ [','] := by
  induction l with
  | nil => exact absurd rfl h
  | cons i l ih =>
      rw [bookedOf_cons, List.map_cons]
      rcases l with _ | ⟨j, l⟩
      · rw [List.map_nil, List.intercalate_singleton]
        rfl
      · rw [ih (List.cons_ne_nil _ _), List.intercalate_cons_of_ne_nil (by simp)]
        simp

end text

/-- The seats of the client, in increasing order. -/
def seatsOf (st : Server) (clientId : Int) : List (Fin numSeat) :=
  (List.finRange numSeat).filter fun i => st.seats i = clientId

/-- What `text` must be for the seats `l` of the client. -/
structure Lists (st : Server) (clientId : Int) (text : List Char) (l : List (Fin numSeat)) : Prop where
  mem_iff : ∀ i, i ∈ l ↔ st.seats i = clientId
  increasing : l.Pairwise (· < ·)
  text_eq : text = [','].intercalate (l.map fun i : Fin numSeat => decimal i)
  parsed : (text.splitOn ',').map strtol = l.map fun i : Fin numSeat => ((i : Nat) : Int)

/-- The numbers of the seats, with commas between them, list the seats. -/
theorem lists_seatsOf {st : Server} {clientId : Int} (h : seatsOf st clientId ≠ []) :
    Lists st clientId ([','].intercalate ((seatsOf st clientId).map fun i : Fin numSeat => decimal i))
      (seatsOf st clientId) where
  mem_iff := by
    intro i
    simp [seatsOf]
  increasing := (List.pairwise_lt_finRange numSeat).filter _
  text_eq := rfl
  parsed := by
    have hcomma : ∀ s ∈ (seatsOf st clientId).map fun i : Fin numSeat => decimal i, ',' ∉ s := by
      intro s hs hmem
      obtain ⟨i, -, rfl⟩ := List.mem_map.mp hs
      exact absurd (isDigit_of_mem_decimal hmem) (by decide)
    rw [List.splitOn_intercalate ',' hcomma (by simpa using h), List.map_map]
    apply List.map_congr_left
    intro i _
    have hi : (i : Nat) < 256 := i.isLt
    have hread := strtol_decimal i (s := []) (by omega) (by simp)
    rwa [List.append_nil] at hread

namespace Printing

/-! ## No text is cut -/

/-- `strlen` prints nothing. -/
theorem emits_strlen : strlen.Emits Print.Whole := Traced.emits_silent _

/-- The cut of the last comma prints nothing. -/
theorem emits_cutBuf (i : Int) : (cutBuf i).Emits Print.Whole := Traced.emits_silent _

/-- A read of the buffer prints nothing. -/
theorem emits_readBuf : readBuf.Emits Print.Whole := Traced.emits_silent _

/-- The check of the login prints nothing. -/
theorem emits_checkLogin (st : Server) (clientId socket : Int) :
    (checkLogin st clientId socket).Emits Print.Whole := Traced.emits_silent _

/-- A text that fits is printed whole into the buffer. -/
theorem emits_printBuf {o size : Nat} {text : List Char} (h : text.length < size) :
    (printBuf o size text).Emits Print.Whole :=
  Traced.emits_act (show Print.Whole ⟨size, text⟩ from h) _

/-- A text that fits is printed whole into the response. -/
theorem emits_printResponse {text : List Char} (h : text.length < bufferSize) :
    (printResponse text).Emits Print.Whole :=
  Traced.emits_act (show Print.Whole ⟨bufferSize, text⟩ from h) _

/-- A string of one array fits into the other one. -/
theorem length_lt_of_readBuf {b b' : Buffers} {text : List Char} (h : readBuf.result b = some (text, b')) :
    text.length < bufferSize := by
  rw [readBuf, Traced.result_silent, Option.map_eq_some_iff] at h
  obtain ⟨_, htext, heq⟩ := h
  obtain ⟨rfl, -⟩ := Prod.mk.inj heq
  exact length_lt_of_textOf htext

/-- An iteration of the loop prints its seat whole. -/
theorem emits_confirmSeat (st : Server) (clientId : Int) (count : Nat) (i : Fin numSeat) :
    (confirmSeat st clientId count i).Emits Print.Whole := by
  refine .ite (fun _ => ?_) fun _ => Traced.emits_pure count
  have hseat : (showInt (i : Nat) ++ [',']).length < 5 := by
    rw [showInt_natCast]
    exact length_seat_lt i
  exact emits_strlen.bind fun len => (emits_printBuf hseat).bind fun _ => Traced.emits_pure (count + 1)

/-- `confirm_booking` prints every seat whole. -/
theorem emits_confirmBooking (st : Server) (clientId socket : Int) :
    (confirmBooking st clientId socket).Emits Print.Whole := by
  apply (emits_checkLogin st clientId socket).bind
  intro ok
  refine .ite (fun _ => Traced.emits_pure false) fun _ => ?_
  apply (Traced.emits_foldlM (emits_confirmSeat st clientId) _ _).bind
  intro count
  refine .ite (fun _ => Traced.emits_pure false) fun _ => ?_
  exact emits_strlen.bind fun len => (emits_cutBuf _).bind fun _ => Traced.emits_pure true

/-- So the whole list is in the response. -/
theorem emits_handleConfirm (st : Server) (clientId socket : Int) :
    (handleConfirm st clientId socket).Emits Print.Whole := by
  refine (emits_confirmBooking st clientId socket).bind fun ok => .ite (fun _ => ?_) fun _ => ?_
  · exact emits_readBuf.bind_of fun b text b' hread => emits_printResponse (length_lt_of_readBuf hread)
  · exact emits_printResponse (show (showInt (-1)).length < bufferSize by decide)

/-! ## What the arrays hold -/

section results

variable {st : Server} {clientId : Int} {l : List (Fin numSeat)} {b : Buffers} {text : List Char}

/-- `strlen` of the buffer. -/
theorem result_strlen (h : textOf b.buf = some text) : strlen.result b = some (text.length, b) := by
  rw [strlen, Traced.result_silent, h, Option.map_some]

/-- The text of the buffer. -/
theorem result_readBuf (h : textOf b.buf = some text) : readBuf.result b = some (text, b) := by
  rw [readBuf, Traced.result_silent, h, Option.map_some]

/-- The text is continued. -/
theorem result_printBuf (h : textOf b.buf = some text) {more : List Char} {size : Nat}
    (hsize : more.length < size) (hlt : text.length + more.length < bufferSize)
    (hmore : '\x00' ∉ more) :
    ∃ buf, (printBuf text.length size more).result b = some ((), { b with buf }) ∧
      textOf buf = some (text ++ more) := by
  obtain ⟨buf, hput, htext⟩ := exists_putTextAt h hlt hmore
  refine ⟨buf, ?_, htext⟩
  rw [printBuf, Traced.result_act, printAt, snprintf, List.take_of_length_le (Nat.le_sub_one_of_lt hsize),
    hput, Option.map_some]

/-- The last character is cut off. -/
theorem result_cutBuf {c : Char} (h : textOf b.buf = some (text ++ [c])) :
    ∃ buf, (cutBuf ((text ++ [c]).length - 1 : Int)).result b = some ((), { b with buf }) ∧
      textOf buf = some text := by
  obtain ⟨buf, hcut, htext⟩ := exists_cut h
  refine ⟨buf, ?_, htext⟩
  rw [cutBuf, Traced.result_silent, hcut, Option.map_some]

/-- The response is the text. -/
theorem result_printResponse (b : Buffers) (hlt : text.length < bufferSize) (hnul : '\x00' ∉ text) :
    ∃ response, (printResponse text).result b = some ((), { b with response }) ∧
      textOf response = some text := by
  obtain ⟨response, hput, htext⟩ := exists_putText b.response hlt hnul
  refine ⟨response, ?_, htext⟩
  rw [printResponse, Traced.result_act, printTo_of_lt hlt, hput, Option.map_some]

/-- One iteration: the seat of the client is behind the text. -/
theorem result_confirmSeat (st : Server) (clientId : Int) (h : textOf b.buf = some (bookedOf l).text)
    (hlen : l.length < numSeat) (i : Fin numSeat) :
    ∃ b', (confirmSeat st clientId l.length i).result b =
        some ((l ++ [i].filter fun j => st.seats j = clientId).length, b') ∧
      textOf b'.buf = some (bookedOf (l ++ [i].filter fun j => st.seats j = clientId)).text := by
  unfold confirmSeat
  by_cases hi : st.seats i = clientId
  · have hseat := length_seat_lt i
    have hbound := length_bookedOf_le l
    have hlen' : l.length < 256 := hlen
    have hfits : (bookedOf l).text.length + (decimal i ++ [',']).length < bufferSize := by
      show _ < 4096
      omega
    obtain ⟨buf, hprint, htext⟩ := result_printBuf h hseat hfits (nul_notMem_seat i)
    refine ⟨{ b with buf }, ?_, ?_⟩
    · rw [if_pos hi, showInt_natCast, Traced.result_bind_of (result_strlen h), Traced.result_bind_of hprint]
      simp [hi]
    · rw [htext]
      simp [hi, bookedOf_append, bookedOf_singleton]
  · refine ⟨b, ?_, ?_⟩
    · rw [if_neg hi]
      simp [hi]
    · rw [h]
      simp [hi]

/-- The loop: the seats of the client are behind the text, in order. -/
theorem result_confirmSeats (st : Server) (clientId : Int) (l' : List (Fin numSeat)) :
    ∀ {l : List (Fin numSeat)} {b : Buffers}, textOf b.buf = some (bookedOf l).text →
      (l ++ l').length ≤ numSeat →
      ∃ b', (l'.foldlM (confirmSeat st clientId) l.length).result b =
          some ((l ++ l'.filter fun j => st.seats j = clientId).length, b') ∧
        textOf b'.buf = some (bookedOf (l ++ l'.filter fun j => st.seats j = clientId)).text := by
  induction l' with
  | nil =>
      intro l b h _
      exact ⟨b, by simp, by simpa using h⟩
  | cons i l' ih =>
      intro l b h hlen
      rw [List.length_append, List.length_cons] at hlen
      obtain ⟨b₁, hround, htext⟩ := result_confirmSeat st clientId h (by omega) i
      have hfilter : ([i].filter fun j => st.seats j = clientId).length ≤ 1 := List.length_filter_le _ _
      obtain ⟨b', hrest, htext'⟩ := ih htext (by simp only [List.length_append]; omega)
      rw [List.append_assoc, ← List.filter_append] at hrest htext'
      refine ⟨b', ?_, htext'⟩
      rw [List.foldlM_cons, Traced.result_bind_of hround]
      exact hrest

/-- All the iterations, from the zeroed array on. -/
theorem result_confirmLoop (st : Server) (clientId : Int) :
    ∃ b, ((List.finRange numSeat).foldlM (confirmSeat st clientId) 0).result .zeroed =
        some ((seatsOf st clientId).length, b) ∧
      textOf b.buf = some (bookedOf (seatsOf st clientId)).text := by
  have hzeroed : textOf Buffers.zeroed.buf = some (bookedOf []).text := by
    have hcells : List.ofFn Buffers.zeroed.buf = [] ++ '\x00' :: List.replicate 4095 '\x00' := List.ofFn_const _ _
    exact textOf_eq hcells List.not_mem_nil
  exact result_confirmSeats st clientId _ hzeroed (by simp)

/-- The query of a client without a seat. -/
theorem result_handleConfirm_none {socket : Int} (h : isLoggedIn st clientId socket = some true)
    (hnone : seatsOf st clientId = []) :
    ∃ b, (handleConfirm st clientId socket).result .zeroed = some ((), b) ∧
      textOf b.response = some "-1".toList := by
  obtain ⟨b, hloop, -⟩ := result_confirmLoop st clientId
  have hcheck : (checkLogin st clientId socket).result .zeroed = some (true, .zeroed) := by
    rw [checkLogin, Traced.result_silent, h, Option.map_some]
  have hbooking : (confirmBooking st clientId socket).result .zeroed = some (false, b) := by
    rw [confirmBooking, Traced.result_bind_of hcheck, if_neg (by simp), Traced.result_bind_of hloop, hnone]
    rfl
  have htext : showInt (-1) = "-1".toList := by decide
  have hlt : (showInt (-1)).length < bufferSize := by
    rw [htext]
    decide
  have hnul : '\x00' ∉ showInt (-1) := by
    rw [htext]
    decide
  obtain ⟨response, hprint, hresponse⟩ := result_printResponse b hlt hnul
  refine ⟨{ b with response }, ?_, htext ▸ hresponse⟩
  rw [handleConfirm, Traced.result_bind_of hbooking, if_neg (by simp), hprint]

/-- The query of a client with seats. -/
theorem result_handleConfirm {socket : Int} (h : isLoggedIn st clientId socket = some true)
    (hsome : seatsOf st clientId ≠ []) :
    ∃ b, (handleConfirm st clientId socket).result .zeroed = some ((), b) ∧ textOf b.response =
      some ([','].intercalate ((seatsOf st clientId).map fun i : Fin numSeat => decimal i)) := by
  obtain ⟨b, hloop, htext⟩ := result_confirmLoop st clientId
  have hcheck : (checkLogin st clientId socket).result .zeroed = some (true, .zeroed) := by
    rw [checkLogin, Traced.result_silent, h, Option.map_some]
  have hend := htext
  rw [bookedOf_eq _ hsome] at hend
  obtain ⟨buf, hcut, hlisted⟩ := result_cutBuf hend
  have hbooking : (confirmBooking st clientId socket).result .zeroed = some (true, { b with buf }) := by
    rw [confirmBooking, Traced.result_bind_of hcheck, if_neg (by simp), Traced.result_bind_of hloop,
      if_neg (by simpa using hsome), Traced.result_bind_of (result_strlen hend), Traced.result_bind_of hcut]
    rfl
  obtain ⟨response, hprint, hresponse⟩ := result_printResponse { b with buf } (length_lt_of_textOf hlisted)
    (ofFn_of_textOf hlisted).1
  refine ⟨⟨buf, response⟩, ?_, hresponse⟩
  have hread : readBuf.result { b with buf } = some (_, { b with buf }) :=
    result_readBuf (b := { b with buf }) hlisted
  rw [handleConfirm, Traced.result_bind_of hbooking, if_pos rfl, Traced.result_bind_of hread, hprint]

end results

end Printing

/-- The reply of `handle_query`. -/
theorem handleQuery_confirm {st : Server} {clientId socket : Int} (data : Int)
    (h : isLoggedIn st clientId socket = some true) :
    handleQuery st socket ⟨clientId, 3, data⟩ =
      some (st, confirmReply (confirmResult (bookedOf (seatsOf st clientId)))) := by
  obtain ⟨c, rfl, hin⟩ := exists_fin_of_isLoggedIn h
  have hloop := foldl_confirmSeat st (c : Nat) (List.finRange numSeat) []
  have hempty : bookedOf [] = Booked.empty := rfl
  rw [List.nil_append, hempty] at hloop
  simp only [handleQuery, confirmBooking_val, if_pos (of_decide_eq_true hin.symm), hloop]
  rfl

/-- **The reply to a confirm query lists the seats of the client**, with nothing cut, for every state of the
seats; without a seat it is -1. -/
theorem confirm_listed (st : Server) (clientId socket data : Int)
    (h : isLoggedIn st clientId socket = some true) :
    (∀ p ∈ (Printing.handleConfirm st clientId socket).trace .zeroed, p.Whole) ∧
      ∃ b text r, (Printing.handleConfirm st clientId socket).result .zeroed = some ((), b) ∧
        textOf b.response = some text ∧
        handleQuery st socket ⟨clientId, 3, data⟩ = some (st, r) ∧ r.response = text ∧
        ((∃ i, st.seats i = clientId) → ∃ l, Lists st clientId text l) ∧
        ((∀ i, st.seats i ≠ clientId) → text = "-1".toList) := by
  refine ⟨Printing.emits_handleConfirm st clientId socket _, ?_⟩
  by_cases hnone : seatsOf st clientId = []
  · obtain ⟨b, hrun, htext⟩ := Printing.result_handleConfirm_none h hnone
    refine ⟨b, _, _, hrun, htext, handleQuery_confirm data h, ?_, ?_, fun _ => rfl⟩
    · rw [hnone]
      decide
    · rintro ⟨i, hi⟩
      have hmem : i ∈ seatsOf st clientId := by simp [seatsOf, hi]
      rw [hnone] at hmem
      cases hmem
  · obtain ⟨b, hrun, htext⟩ := Printing.result_handleConfirm h hnone
    refine ⟨b, _, _, hrun, htext, handleQuery_confirm data h, ?_, fun _ => ⟨_, lists_seatsOf hnone⟩, ?_⟩
    · have hlen := length_lt_of_textOf htext
      rw [confirmResult, bookedOf_count, if_neg (by simpa using hnone), bookedOf_eq _ hnone,
        List.dropLast_concat]
      exact List.take_of_length_le (Nat.le_sub_one_of_lt hlen)
    · intro hall
      obtain ⟨i, hi⟩ := List.exists_mem_of_ne_nil _ hnone
      exact absurd (by simpa [seatsOf] using hi) (hall i)

/-- Client 1 is logged in on socket 4 and has seat 7. -/
def seatSeven : Server := (Server.init.setSession 1 4).setSeat 7 1

/-- Client 1 has seat 7. -/
theorem confirm_listed_seatSeven :
    (∀ p ∈ (Printing.handleConfirm seatSeven 1 4).trace .zeroed, p.Whole) ∧
      ∃ b text r, (Printing.handleConfirm seatSeven 1 4).result .zeroed = some ((), b) ∧
        textOf b.response = some text ∧
        handleQuery seatSeven 4 ⟨1, 3, 0⟩ = some (seatSeven, r) ∧ r.response = text ∧
        ((∃ i, seatSeven.seats i = 1) → ∃ l, Lists seatSeven 1 text l) ∧
        ((∀ i, seatSeven.seats i ≠ 1) → text = "-1".toList) :=
  confirm_listed seatSeven 1 4 0 (by decide)

end SystemProgrammingLab.Pa3
