import SystemProgrammingLab.Found.CText

/-!
# The messages of the chat

The clients and the server exchange structs of one size. A message says who sends it and whether the user
joins, chats or quits; the server answers it with the text that the clients print behind the name.

Source: `week13/client.c`, `week13/server.c`
-/

namespace SystemProgrammingLab.Week13

open SystemProgrammingLab.Found

/-- `MAXLINE` -/
abbrev maxLine : Nat := 80

/-- `MAX_USERNAME` -/
abbrev maxUsername : Nat := 20

/-- `sizeof(message)`: two bytes of padding stand before the type. -/
abbrev messageSize : Nat := 108

/-- The type is 0 when the user joins, 1 when the user chats, and 2 when the user quits.
Source: `message` -/
structure Message where
  username : Fin maxUsername → Char
  message : Fin (maxLine + 2) → Char
  type : Int

/-- What the server prints and the response that it sends to the clients, which it builds in the local
variable `response`. A message of another type leaves its text as it is. Source: `handle_client_data` -/
def respond (activeUsers : Int) (response msg : Message) : Option (List Char × Message) := do
  let username ← printTo response.username maxUsername (← textOf msg.username)
  let name ← textOf username
  if msg.type = 0 then
    let message ← printTo response.message maxLine " has joined the chat.\n".toList
    return (name ++ " has joined the chat. ".toList ++ showInt activeUsers ++ " active user\n".toList,
      ⟨username, message, 2⟩)
  else if msg.type = 1 then
    let text ← textOf msg.message
    let message ← printTo response.message (maxLine + 4) (": ".toList ++ text)
    return ("got ".toList ++ decimal text.length ++ " bytes from client.\n".toList,
      ⟨username, message, 2⟩)
  else if msg.type = 2 then
    let message ← printTo response.message maxLine " has left the chat.\n".toList
    return (name ++ " has left the chat. ".toList ++ showInt activeUsers ++ " active user\n".toList,
      ⟨username, message, 2⟩)
  else
    return ([], ⟨username, response.message, 2⟩)

/-- The name of a user is cut to the size of its array, so that it fits. -/
theorem exists_username (response : Message) {name : List Char} (hname : '\x00' ∉ name) :
    ∃ username, printTo response.username maxUsername name = some username ∧
      textOf username = some (name.take (maxUsername - 1)) := by
  apply exists_putText
  · exact Nat.lt_of_le_of_lt (List.length_take_le _ _) (by decide)
  · exact fun hmem => hname (List.mem_of_mem_take hmem)

/-- Whether the response is defined does not depend on what the variable `response` held before. -/
theorem respond_eq_none {activeUsers : Int} {response msg : Message}
    (h : respond activeUsers response msg = none) (response' : Message) :
    respond activeUsers response' msg = none := by
  unfold respond at *
  rcases hname : textOf msg.username with _ | name
  · rfl
  obtain ⟨username, hput, htext⟩ := exists_username response (ofFn_of_textOf hname).1
  obtain ⟨username', hput', htext'⟩ := exists_username response' (ofFn_of_textOf hname).1
  simp only [hname, hput, htext, Option.bind_eq_bind, Option.bind_some] at h
  simp only [hput', htext', Option.bind_eq_bind, Option.bind_some]
  split_ifs at h ⊢
  · exact printTo_bind_eq_none h (fun _ => Option.some_ne_none _) _ _
  · rcases hline : textOf msg.message with _ | text
    · rfl
    rw [hline, Option.bind_some] at h
    exact printTo_bind_eq_none h (fun _ => Option.some_ne_none _) _ _
  · exact printTo_bind_eq_none h (fun _ => Option.some_ne_none _) _ _

end SystemProgrammingLab.Week13
