import SystemProgrammingLab.Found.Lines
import SystemProgrammingLab.Week13.Relay

/-!
# What a client does with a response

`handle_server_response` puts the name and the text of a response one behind the other into an array of
`maxLine + 2` characters, and gives `snprintf` a bound that is larger than the array. A name has up to 19
characters and a relayed text up to 81, so the bound never cuts them and they need not fit: the line is
written inside of the array if and only if the name and the typed text together have at most 79 characters
(`formatted_iff`).

Source: `week13/client.c`
-/

namespace SystemProgrammingLab.Week13

open SystemProgrammingLab.Found

/-! ## The client -/

/-- What the read of a response returns. -/
inductive Received
  | error
  | closed
  | message (m : Message)

/-- What the client does then: it writes a text and goes on, or it writes a text and exits. -/
inductive Shown
  | line (text : List Char)
  | exit (text : List Char) (code : Nat)

/-- `EXIT_CODE_READ_FAILURE` -/
def exitCodeReadFailure : Nat := 5

/-- `EXIT_CODE_SERVER_DOWN` -/
def exitCodeServerDown : Nat := 9

/-- With `buf` the local array before the call; `none` when it is left. What `perror` writes goes to the
standard error. Source: `handle_server_response` -/
def handleServerResponse (buf : Fin (maxLine + 2) → Char) : Received → Option Shown
  | .error => some (.exit [] exitCodeReadFailure)
  | .closed =>
      some (.exit "Connection with the server has been terminated.\n".toList exitCodeServerDown)
  | .message msg => do
      let username ← textOf msg.username
      let message ← textOf msg.message
      let buf ← printTo buf (maxLine + maxUsername + 3) (username ++ message)
      let line ← textOf buf
      return .line line

/-! ## The chat message of a user -/

/-- What is typed up to the first NUL. -/
def typed (r : ReadResult maxLine Char) : List Char := r.bytes.takeWhile (· ≠ '\x00')

section sent

variable {user : Username} {l l' : Locals} {r : ReadResult maxLine Char} {msgs : List Message}
  {next : Next} {m : Message}

/-- A read without an error returns the number of its bytes. -/
theorem nbytes_eq (h : 0 ≤ r.nbytes) : r.nbytes = r.bytes.length := by
  cases r with
  | data bs => rfl
  | eof => rfl
  | error => exact absurd h (by decide)

/-- The text of what was read, with a NUL behind it. -/
theorem textOf_read {buf buf' : Fin maxLine → Char} {line : List Char}
    (hwr : wr (store buf r.bytes) r.nbytes '\x00' = some buf') (hline : textOf buf' = some line) :
    line = typed r := by
  have hin : 0 ≤ r.nbytes ∧ r.nbytes < maxLine := by
    by_contra hout
    rw [wr, dif_neg hout] at hwr
    cases hwr
  have hlen := nbytes_eq hin.1
  rw [hlen] at hin hwr
  obtain ⟨buf₁, rest, hwr', hcells⟩ := exists_wr_store buf (by omega : r.bytes.length < maxLine)
  obtain rfl : buf' = buf₁ := Option.some.inj (hwr.symm.trans hwr')
  obtain ⟨-, htext⟩ := Option.ite_none_right_eq_some.mp hline
  obtain rfl := Option.some.inj htext
  rw [cString, hcells, takeWhile_append_delimiter, typed]

/-- A message that a client sends has the name of its user and the text that was typed. -/
theorem handleInput_sent (h : handleInput user.text l r = some (l', msgs, next)) (hm : m ∈ msgs) :
    textOf m.username = some user.text ∧ textOf m.message = some (typed r) ∧
      (typed r).length < maxLine := by
  unfold handleInput at h
  simp only [Option.bind_eq_bind, Option.bind_eq_some_iff] at h
  obtain ⟨buf, hwr, line, hline, name, hname, text, htext, h⟩ := h
  obtain rfl := textOf_read hwr hline
  have hlt := length_lt_of_textOf hline
  rw [printTo_of_lt user.length_lt] at hname
  rw [printTo_of_lt hlt] at htext
  have hname' := textOf_putText hname user.nul_notMem
  have htext' := textOf_putText htext (ofFn_of_textOf hline).1
  have hfields : m.username = name ∧ m.message = text := by
    split_ifs at h <;> cases h
    · obtain rfl := List.mem_singleton.mp hm
      exact ⟨rfl, rfl⟩
    · cases hm
    · cases hm
    · obtain rfl := List.mem_singleton.mp hm
      exact ⟨rfl, rfl⟩
    · obtain rfl := List.mem_singleton.mp hm
      exact ⟨rfl, rfl⟩
  rw [hfields.1, hfields.2]
  exact ⟨hname', htext', hlt⟩

end sent

/-! ## The receiver -/

/-- The message is relayed, and every other client formats it inside of its array. -/
def Formatted (user : Username) (m : Message) (text : List Char) : Prop :=
  ∀ activeUsers response, ∃ printed response', respond activeUsers response m = some (printed, response') ∧
    ∀ buf, handleServerResponse buf (.message response') = some (.line (user.text ++ ": ".toList ++ text))

/-- A response is formatted inside of the array if and only if it is shorter than the array. -/
theorem handleServerResponse_message {msg : Message} {name text : List Char}
    (hname : textOf msg.username = some name) (htext : textOf msg.message = some text)
    (buf : Fin (maxLine + 2) → Char) :
    handleServerResponse buf (.message msg) =
      if (name ++ text).length < maxLine + 2 then some (.line (name ++ text)) else none := by
  have hsize : (name ++ text).length < maxLine + maxUsername + 3 := by
    have hname' := length_lt_of_textOf hname
    have htext' := length_lt_of_textOf htext
    rw [List.length_append]
    omega
  simp only [handleServerResponse, hname, htext, Option.bind_eq_bind, Option.bind_some,
    printTo_of_lt hsize]
  split_ifs with hlt
  · have hnul : '\x00' ∉ name ++ text := by
      rw [List.mem_append, not_or]
      exact ⟨(ofFn_of_textOf hname).1, (ofFn_of_textOf htext).1⟩
    obtain ⟨buf', hput, hline⟩ := exists_putText buf hlt hnul
    rw [hput, Option.bind_some, hline]
    rfl
  · rw [putText, if_neg hlt]
    rfl

section chat

variable {user : Username} {m : Message} {t : List Char}

/-- The name and the text of a message decide whether it fits. -/
theorem formatted_chat_iff (hname : textOf m.username = some user.text)
    (htext : textOf m.message = some t) (htype : m.type = 1) (hlt : t.length < maxLine) :
    Formatted user m t ↔ user.text.length + t.length ≤ 79 := by
  have hline : user.text ++ (": ".toList ++ t) = user.text ++ ": ".toList ++ t :=
    (List.append_assoc _ _ _).symm
  have hlen : (user.text ++ ": ".toList ++ t).length < maxLine + 2 ↔
      user.text.length + t.length ≤ 79 := by
    have hcolon : (": ".toList).length = 2 := by decide
    rw [List.length_append, List.length_append, hcolon]
    show _ < 82 ↔ _
    omega
  constructor
  · intro hformatted
    obtain ⟨printed, response', hrespond, hshown⟩ := hformatted 0 m
    obtain ⟨_, _, hrespond', hname', htext'⟩ := respond_chat hname htext htype hlt 0 m
    obtain ⟨rfl, rfl⟩ := Prod.mk.inj (Option.some.inj (hrespond.symm.trans hrespond'))
    have hbuf := hshown fun _ => '\x00'
    rw [handleServerResponse_message hname' htext', hline] at hbuf
    by_contra hlong
    rw [if_neg fun hfits => hlong (hlen.mp hfits)] at hbuf
    cases hbuf
  · intro hfits activeUsers response
    obtain ⟨printed, response', hrespond, hname', htext'⟩ :=
      respond_chat hname htext htype hlt activeUsers response
    refine ⟨printed, response', hrespond, fun buf => ?_⟩
    rw [handleServerResponse_message hname' htext', hline, if_pos (hlen.mpr hfits)]

end chat

/-- **The line of a chat message is written inside of the receiver's array if and only if** the name and the
typed text have at most 79 characters together. -/
theorem formatted_iff (user : Username) {l l' : Locals} {r : ReadResult maxLine Char} {msgs : List Message}
    {next : Next} {m : Message} (h : handleInput user.text l r = some (l', msgs, next)) (hm : m ∈ msgs)
    (htype : m.type = 1) :
    Formatted user m (typed r) ↔ user.text.length + (typed r).length ≤ 79 := by
  obtain ⟨hname, htext, hlt⟩ := handleInput_sent h hm
  exact formatted_chat_iff hname htext htype hlt

/-- The local variables of a client, zeroed. -/
def Locals.zeroed : Locals := ⟨⟨fun _ => '\x00', fun _ => '\x00', 0⟩, fun _ => '\x00'⟩

/-- A line of `n` letters and the newline. -/
def letters (n : Nat) (h : n < 79) : Piece where
  bytes := List.replicate n 'b' ++ ['\n']
  nul_notMem := by simp
  pos := by simp
  le := by
    show _ ≤ 80
    simp
    omega

/-- A name of 19 letters. -/
def longName : Username := ⟨List.replicate 19 'a', by decide, by decide⟩

/-- A short line. -/
theorem formatted_iff_letters : ∃ l' m, handleInput longName.text .zeroed (letters 5 (by decide)).read =
    some (l', [m], .back) ∧ (Formatted longName m (typed (letters 5 (by decide)).read) ↔
      longName.text.length + (typed (letters 5 (by decide)).read).length ≤ 79) := by
  obtain ⟨l', m, hsent, -, -, htype⟩ :=
    handleInput_chat longName .zeroed (p := letters 5 (by decide)) (by decide) (by decide)
  exact ⟨l', m, hsent, formatted_iff longName hsent (List.mem_singleton_self m) htype⟩

/-- **A line of 60 letters from a user with a name of 19 letters leaves the array.** -/
theorem not_formatted : ∃ l' m, handleInput longName.text .zeroed (letters 60 (by decide)).read =
    some (l', [m], .back) ∧ m.type = 1 ∧ ¬ Formatted longName m (letters 60 (by decide)).bytes := by
  obtain ⟨l', m, hsent, hname, htext, htype⟩ :=
    handleInput_chat longName .zeroed (p := letters 60 (by decide)) (by decide) (by decide)
  refine ⟨l', m, hsent, htype, ?_⟩
  rw [formatted_chat_iff hname htext htype (by decide)]
  decide

end SystemProgrammingLab.Week13
