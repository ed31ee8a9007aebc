import SystemProgrammingLab.Week13.Message

/-!
# From the keyboard to the other users

The client reads what its user types in pieces of at most `maxLine` bytes, and sends each piece in a message
of its own. The server relays the text of the message behind a colon and a space.

A piece is stored in a buffer of `maxLine` bytes, and the NUL is stored behind it: a piece that fills the
buffer is written past its end. Shorter pieces arrive as they were typed, and a piece that reads `quit` ends
the client. So a text is relayed whole if and only if every piece is short and none is the command
(`relayedWhole_iff`).

Source: `week13/client.c`, `week13/server.c`
-/

namespace SystemProgrammingLab.Week13

open SystemProgrammingLab.Found

/-! ## The client -/

/-- The local variables of `handle_input` that a round does not set as a whole. -/
structure Locals where
  msg : Message
  buf : Fin maxLine → Char

/-- What follows a round of the loop of `handle_input`: the next round, the return to the loop of `main`,
or the end of the client. -/
inductive Next
  | round
  | back
  | exit

/-- The command that ends the client. -/
def quit : List Char := "quit\n".toList

/-- One round of the loop, and the messages that it sends; `none` when it writes outside of an array.
Source: `handle_input` -/
def handleInput (username : List Char) (l : Locals) (r : ReadResult maxLine Char) :
    Option (Locals × List Message × Next) := do
  let buf ← wr (store l.buf r.bytes) r.nbytes '\x00'
  let line ← textOf buf
  let name ← printTo l.msg.username maxUsername username
  let text ← printTo l.msg.message maxLine line
  if line = quit then
    return (⟨⟨name, text, 2⟩, buf⟩, [⟨name, text, 2⟩], .exit)
  else if r.nbytes = -1 then
    return (⟨⟨name, text, 1⟩, buf⟩, [], .exit)
  else if r.nbytes = 0 then
    return (⟨⟨name, text, 1⟩, buf⟩, [], .back)
  else
    return (⟨⟨name, text, 1⟩, buf⟩, [⟨name, text, 1⟩],
      if r.nbytes < maxLine then .back else .round)

/-- The messages that the client sends when its reads return these results. Each call of `handle_input`
finds its local variables in some state, the next call in the state `fresh 0`. -/
def sends (username : List Char) :
    (Nat → Locals) → Locals → List (ReadResult maxLine Char) → Option (List Message)
  | _, _, [] => some []
  | fresh, l, r :: rs => do
      let (l', msgs, next) ← handleInput username l r
      match next with
      | .round => return msgs ++ (← sends username fresh l' rs)
      | .back => return msgs ++ (← sends username (fun k => fresh (k + 1)) (fresh 0) rs)
      | .exit => return msgs

/-! ## What is typed and what is relayed -/

/-- The name of a user, as `main` leaves it in its array. -/
structure Username where
  text : List Char
  nul_notMem : '\x00' ∉ text
  length_lt : text.length < maxUsername

/-- What one read delivers of a text that was typed. -/
structure Piece where
  bytes : List Char
  nul_notMem : '\x00' ∉ bytes
  pos : 0 < bytes.length
  le : bytes.length ≤ maxLine

/-- The read that returns the piece. -/
def Piece.read (p : Piece) : ReadResult maxLine Char := .data p.bytes ⟨p.pos, p.le⟩

/-- The message has the text `t`, and the server relays `t` to the other users. -/
def Relays (m : Message) (t : List Char) : Prop :=
  textOf m.message = some t ∧ ∀ activeUsers response, ∃ printed response',
    respond activeUsers response m = some (printed, response') ∧
      textOf response'.message = some (": ".toList ++ t)

/-- Nothing is written outside of an array, and the texts that are relayed are what was typed. -/
def RelayedWhole (user : Username) (fresh : Nat → Locals) (l : Locals) (pieces : List Piece) : Prop :=
  ∃ msgs texts, sends user.text fresh l (pieces.map Piece.read) = some msgs ∧
    List.Forall₂ Relays msgs texts ∧ texts.flatten = (pieces.map Piece.bytes).flatten

section relay

variable {user : Username} {fresh : Nat → Locals} {l : Locals} {p : Piece} {pieces : List Piece}
  {m : Message} {t : List Char}

/-- The arrays of a message that the client makes of a piece that is shorter than the buffer. -/
theorem exists_arrays (user : Username) (l : Locals) (hlt : p.bytes.length < maxLine) :
    ∃ buf name text, wr (store l.buf p.bytes) p.bytes.length '\x00' = some buf ∧
      textOf buf = some p.bytes ∧ printTo l.msg.username maxUsername user.text = some name ∧
      textOf name = some user.text ∧ printTo l.msg.message maxLine p.bytes = some text ∧
      textOf text = some p.bytes := by
  obtain ⟨buf, hbuf, hline⟩ := textOf_wr l.buf hlt p.nul_notMem
  obtain ⟨name, hname, hname'⟩ :=
    exists_putText l.msg.username user.length_lt user.nul_notMem
  obtain ⟨text, htext, htext'⟩ :=
    exists_putText l.msg.message (Nat.lt_of_lt_of_le hlt (by decide)) p.nul_notMem
  exact ⟨buf, name, text, hbuf, hline, (printTo_of_lt user.length_lt).trans hname, hname',
    (printTo_of_lt hlt).trans htext, htext'⟩

/-- A piece that fits is sent as a chat message. -/
theorem handleInput_chat (user : Username) (l : Locals) (hlt : p.bytes.length < maxLine)
    (hquit : p.bytes ≠ quit) :
    ∃ l' m, handleInput user.text l p.read = some (l', [m], .back) ∧
      textOf m.username = some user.text ∧ textOf m.message = some p.bytes ∧ m.type = 1 := by
  obtain ⟨buf, name, text, hbuf, hline, hname, hname', htext, htext'⟩ := exists_arrays user l hlt
  refine ⟨⟨⟨name, text, 1⟩, buf⟩, ⟨name, text, 1⟩, ?_, hname', htext', rfl⟩
  have hbytes : p.read.bytes = p.bytes := rfl
  have hnbytes : p.read.nbytes = p.bytes.length := rfl
  have hpos := p.pos
  simp only [handleInput, hbytes, hnbytes, hbuf, hline, hname, htext, Option.bind_eq_bind,
    Option.bind_some, if_neg hquit]
  rw [if_neg (by omega), if_neg (by omega), if_pos (by omega)]
  rfl

/-- `:q` is sent as the end. -/
theorem handleInput_quit (user : Username) (l : Locals) (hquit : p.bytes = quit) :
    ∃ l' m, handleInput user.text l p.read = some (l', [m], .exit) ∧ m.type = 2 := by
  have hlt : p.bytes.length < maxLine := by
    rw [hquit]
    decide
  obtain ⟨buf, name, text, hbuf, hline, hname, -, htext, -⟩ := exists_arrays user l hlt
  refine ⟨⟨⟨name, text, 2⟩, buf⟩, ⟨name, text, 2⟩, ?_, rfl⟩
  have hbytes : p.read.bytes = p.bytes := rfl
  have hnbytes : p.read.nbytes = p.bytes.length := rfl
  simp only [handleInput, hbytes, hnbytes, hbuf, hline, hname, htext, Option.bind_eq_bind,
    Option.bind_some, if_pos hquit]
  rfl

/-- A piece that fills the buffer is written past its end. -/
theorem handleInput_full (hfull : p.bytes.length = maxLine) :
    handleInput user.text l p.read = none := by
  have hnbytes : p.read.nbytes = (maxLine : Nat) := congrArg Nat.cast hfull
  rw [handleInput, hnbytes, wr_length]
  rfl

/-- The response to a chat message: the name, and the text behind a colon and a blank. -/
theorem respond_chat (hname : textOf m.username = some user.text) (htext : textOf m.message = some t)
    (htype : m.type = 1) (hlt : t.length < maxLine) (activeUsers : Int) (response : Message) :
    ∃ printed response', respond activeUsers response m = some (printed, response') ∧
      textOf response'.username = some user.text ∧
      textOf response'.message = some (": ".toList ++ t) := by
  have hlen : (": ".toList ++ t).length < maxLine + 2 := by
    rw [List.length_append]
    exact Nat.add_lt_add_left hlt 2
  have hnul : '\x00' ∉ ": ".toList ++ t := by
    rw [List.mem_append, not_or]
    exact ⟨by decide, (ofFn_of_textOf htext).1⟩
  obtain ⟨name, hput, hput'⟩ := exists_putText response.username user.length_lt user.nul_notMem
  obtain ⟨text, hcolon, hcolon'⟩ := exists_putText response.message hlen hnul
  refine ⟨"got ".toList ++ decimal t.length ++ " bytes from client.\n".toList, ⟨name, text, 2⟩, ?_,
    hput', hcolon'⟩
  have hsize : (": ".toList ++ t).length < maxLine + 4 := Nat.lt_of_lt_of_le hlen (by decide)
  simp only [respond, hname, printTo_of_lt user.length_lt, hput, hput', htype, htext,
    printTo_of_lt hsize, hcolon, Option.bind_eq_bind, Option.bind_some]
  rfl

/-- The server relays a chat message with its text. -/
theorem relays_chat (hname : textOf m.username = some user.text) (htext : textOf m.message = some t)
    (htype : m.type = 1) (hlt : t.length < maxLine) : Relays m t := by
  refine ⟨htext, ?_⟩
  intro activeUsers response
  obtain ⟨printed, response', hrespond, -, hmessage⟩ :=
    respond_chat hname htext htype hlt activeUsers response
  exact ⟨printed, response', hrespond, hmessage⟩

/-- The server does not relay the text of a message of type 2. -/
theorem not_relays_quit (htype : m.type = 2) : ¬ Relays m t := by
  rintro ⟨-, hrespond⟩
  obtain ⟨printed, response', hsome, htext⟩ := hrespond 0 m
  simp only [respond, htype, Option.bind_eq_bind, Option.bind_eq_some_iff] at hsome
  obtain ⟨_, _, _, _, _, _, hsome⟩ := hsome
  rw [if_neg (by decide), if_neg (by decide), if_pos trivial] at hsome
  obtain ⟨text, hleft, hsome⟩ := Option.bind_eq_some_iff.mp hsome
  simp only [Option.pure_def, Option.some.injEq, Prod.mk.injEq] at hsome
  obtain ⟨-, rfl⟩ := hsome
  have hleft' : textOf text = some " has left the chat.\n".toList := textOf_putText hleft (by decide)
  cases Option.some.inj (hleft'.symm.trans htext)

/-! ## Piece by piece -/

/-- A short piece is relayed, and the rest is relayed if the whole is. -/
theorem relayedWhole_cons (hlt : p.bytes.length < maxLine) (hquit : p.bytes ≠ quit) :
    RelayedWhole user fresh l (p :: pieces) ↔
      RelayedWhole user (fun k => fresh (k + 1)) (fresh 0) pieces := by
  obtain ⟨l', m, hround, hname, htext, htype⟩ := handleInput_chat user l hlt hquit
  have hrelays : Relays m p.bytes := relays_chat hname htext htype hlt
  have hsends : sends user.text fresh l ((p :: pieces).map Piece.read) =
      (sends user.text (fun k => fresh (k + 1)) (fresh 0) (pieces.map Piece.read)).map (m :: ·) := by
    rw [List.map_cons, sends, hround, Option.bind_eq_bind, Option.bind_some]
    rcases sends user.text (fun k => fresh (k + 1)) (fresh 0) (pieces.map Piece.read) with _ | msgs
    · rfl
    · rfl
  constructor
  · rintro ⟨msgs, texts, hmsgs, hall, hflat⟩
    rw [hsends, Option.map_eq_some_iff] at hmsgs
    obtain ⟨msgs, hmsgs, rfl⟩ := hmsgs
    rcases hall with _ | ⟨⟨htext', -⟩, hall⟩
    obtain rfl := Option.some.inj (htext.symm.trans htext')
    rw [List.flatten_cons, List.map_cons, List.flatten_cons, List.append_cancel_left_eq] at hflat
    exact ⟨msgs, _, hmsgs, hall, hflat⟩
  · rintro ⟨msgs, texts, hmsgs, hall, hflat⟩
    refine ⟨m :: msgs, p.bytes :: texts, ?_, .cons hrelays hall, ?_⟩
    · rw [hsends, hmsgs]
      rfl
    · rw [List.flatten_cons, List.map_cons, List.flatten_cons, hflat]

/-- `:q` is not relayed. -/
theorem not_relayedWhole_of_quit (hquit : p.bytes = quit) :
    ¬ RelayedWhole user fresh l (p :: pieces) := by
  rintro ⟨msgs, texts, hmsgs, hall, -⟩
  obtain ⟨l', m, hround, htype⟩ := handleInput_quit user l hquit
  rw [List.map_cons, sends, hround] at hmsgs
  obtain rfl : [m] = msgs := Option.some.inj hmsgs
  rcases hall with _ | ⟨hrelays, -⟩
  exact not_relays_quit htype hrelays

/-- Nor is a piece without room for its NUL. -/
theorem not_relayedWhole_of_full (hfull : p.bytes.length = maxLine) :
    ¬ RelayedWhole user fresh l (p :: pieces) := by
  rintro ⟨msgs, texts, hmsgs, -⟩
  rw [List.map_cons, sends, handleInput_full hfull] at hmsgs
  cases hmsgs

/-- **A text is relayed whole if and only if every piece is shorter than the buffer, and none is the
command.** -/
theorem relayedWhole_iff (user : Username) (fresh : Nat → Locals) (l : Locals) (pieces : List Piece) :
    RelayedWhole user fresh l pieces ↔ ∀ p ∈ pieces, p.bytes.length < maxLine ∧ p.bytes ≠ quit := by
  induction pieces generalizing fresh l with
  | nil =>
      refine iff_of_true ⟨[], [], rfl, .nil, rfl⟩ ?_
      intro p hp
      exact absurd hp List.not_mem_nil
  | cons p pieces ih =>
      rw [List.forall_mem_cons]
      by_cases hquit : p.bytes = quit
      · exact iff_of_false (not_relayedWhole_of_quit hquit) fun h => h.1.2 hquit
      · rcases Nat.lt_or_eq_of_le p.le with hlt | hfull
        · rw [relayedWhole_cons hlt hquit, ih]
          exact (and_iff_right ⟨hlt, hquit⟩).symm
        · exact iff_of_false (not_relayedWhole_of_full hfull) fun h => absurd hfull h.1.1.ne

end relay

/-- A line of 79 characters and the newline. -/
def fullLine : Piece := ⟨List.replicate 79 'a' ++ ['\n'], by decide, by decide, by decide⟩

/-- **The NUL behind a line of 80 characters is written outside of the buffer.** -/
theorem not_relayedWhole : ¬ ∃ fresh l,
    RelayedWhole ⟨"bob".toList, by decide, by decide⟩ fresh l [fullLine] := by
  rintro ⟨fresh, l, hwhole⟩
  exact not_relayedWhole_of_full rfl hwhole

end SystemProgrammingLab.Week13
