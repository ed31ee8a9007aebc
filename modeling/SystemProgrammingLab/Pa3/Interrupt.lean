import SystemProgrammingLab.Found.Run
import SystemProgrammingLab.Pa3.Agreement

/-!
# Interrupting the client

An interrupt ends the client with `exit`, and so do the end of the input and a terminate query. Then
`disconnect` writes the terminate query and reads once. A reply that the main loop has not read is still in the
stream, and `disconnect` takes it for its own, alone or with the reply 256 behind it. An interrupt inside of
`disconnect` calls `exit` once more, which does not call `disconnect` again: the client ends, and nothing is
printed. The first interrupt keeps the others out, since the signal is blocked while its handler runs.

So the message and the server agree exactly in the runs in which no interrupt comes between the terminate query
and the message, and `disconnect` reads the reply 256 alone. Behind the reply `0` the text is `0256`, and right
all the same (`paired_iff`).

The server answers in order, and other clients may change its tables between two queries. A read returns one
reply or several of them joined, which are shorter than the buffer. `write` succeeds.

Source: `pa3/pa3_client.c`, `pa3/pa3_server.c`, `handle_query`
-/

namespace SystemProgrammingLab.Pa3.Interrupt

open SystemProgrammingLab.Found

/-! ## The client and the server -/

/-- Where the client is. Source: `pa3_client.c`, `main` -/
inductive Phase
  | idle -- in the main loop, and no reply is outstanding
  | waiting -- in front of the `read` of the main loop
  | exiting -- at the start of `disconnect`
  | closing -- in front of the `read` of `disconnect`
  | reporting (m : Message) -- in front of the `printf` of `disconnect`
  | ended
  deriving DecidableEq

/-- The phase after an interrupt. Source: `sigint_handler` -/
def Phase.interrupted : Phase → Option Phase
  | .idle | .waiting => some .exiting
  | .exiting | .closing | .reporting _ => some .ended
  | .ended => none

/-- The client, with `blocked` while it is in the handler, the queries that the server has not answered, and the
replies that the client has not read. -/
structure Talk where
  phase : Phase
  blocked : Bool
  queries : List Query
  replies : List (List Char)

/-- What is observed: the client writes a query, the server answers one, the main loop reads `k` replies at
once, it ends, an interrupt, `disconnect` reads `k` replies at once, it prints. -/
inductive Event
  | send (q : Query)
  | answer (q : Query) (text : List Char)
  | receive (k : Nat)
  | leave
  | sigint
  | read (k : Nat)
  | print (m : Message)

/-- The query that ends the connection. Source: `disconnect` -/
def terminate : Query := ⟨0, 0, 0⟩

/-- A query of the main loop. -/
def Ordinary (q : Query) : Prop := validateQuery q.user q.action q.data = true ∧ q.action ≠ 0

/-- A reply that the server may give, in some state of its tables. -/
def Answers (q : Query) (text : List Char) : Prop :=
  ∃ st socket st' r, handleQuery st socket q = some (st', r) ∧ r.response = text

/-- The message for the text that was read. Source: `disconnect` -/
def closingMessage (text : List Char) : Message :=
  if codeOf text = 256 then .terminated else .notTerminated

/-- One step of the client or the server. Source: `pa3_client.c`, `main`, `sigint_handler` -/
inductive Step : Talk → Event → Talk → Prop
  | send {b qs rs q} (hq : Ordinary q) : Step ⟨.idle, b, qs, rs⟩ (.send q) ⟨.waiting, b, qs ++ [q], rs⟩
  | answer {p b qs rs q text} (h : Answers q text) :
      Step ⟨p, b, q :: qs, rs⟩ (.answer q text) ⟨p, b, qs, rs ++ [text]⟩
  | receive {b qs rs k} (hk : 0 < k) (hle : k ≤ rs.length) :
      Step ⟨.waiting, b, qs, rs⟩ (.receive k) ⟨.idle, b, qs, rs.drop k⟩
  | leave {b qs rs} : Step ⟨.idle, b, qs, rs⟩ .leave ⟨.exiting, b, qs, rs⟩
  | sigint {p p' qs rs} (hp : p.interrupted = some p') : Step ⟨p, false, qs, rs⟩ .sigint ⟨p', true, qs, rs⟩
  | blocked {p qs rs} : Step ⟨p, true, qs, rs⟩ .sigint ⟨p, true, qs, rs⟩
  | disconnect {b qs rs} : Step ⟨.exiting, b, qs, rs⟩ (.send terminate) ⟨.closing, b, qs ++ [terminate], rs⟩
  | read {b qs rs k} (hk : 0 < k) (hle : k ≤ rs.length) :
      Step ⟨.closing, b, qs, rs⟩ (.read k) ⟨.reporting (closingMessage (rs.take k).flatten), b, qs, rs.drop k⟩
  | print {m b qs rs} : Step ⟨.reporting m, b, qs, rs⟩ (.print m) ⟨.ended, b, qs, rs⟩

/-- The client is connected. -/
def start : Talk := ⟨.idle, false, [], []⟩

/-- The client has ended, and the server has answered. -/
def Complete (t : Talk) : Prop := t.phase = .ended ∧ t.queries = []

/-- The client says that the connection is terminated if and only if the server has terminated it. -/
def Paired (es : List Event) : Prop :=
  .print .terminated ∈ es ↔ .answer terminate "256".toList ∈ es

/-- No interrupt between the terminate query and the message, unless it is blocked, and no other reply in front
of the reply 256, unless it is `0`. -/
def Undisturbed (t : Talk) : Event → Prop
  | .sigint => t.blocked = false → t.phase ≠ .closing ∧ ∀ m, t.phase ≠ .reporting m
  | .read k => (t.replies.take k).flatten = "256".toList ∨ (t.replies.take k).flatten = "0256".toList
  | _ => True

/-! ## The texts of the replies -/

section replies

variable {q : Query} {text : List Char}

/-- The reply to a query of the main loop: -1, or a text that starts with the number of a seat. -/
def IsReply (text : List Char) : Prop :=
  text = "-1".toList ∨ ∃ (i : Fin numSeat) (more : List Char), text = decimal i ++ more ∧ ∀ c ∈ more.head?, c = ','

/-- `-1` is a reply. -/
theorem isReply_failure : IsReply Reply.failure.response := .inl (by decide)

/-- `1` is a reply. -/
theorem isReply_one : IsReply (Reply.ok ['1']).response := .inr ⟨1, [], by decide, by simp⟩

/-- A text that starts with the number of a seat is a reply. -/
theorem isReply_snprintf {i : Fin numSeat} {more : List Char} (h : ∀ c ∈ more.head?, c = ',') :
    IsReply (snprintf 4096 (decimal i ++ more)) := by
  have hlen := length_decimal_seat i
  refine .inr ⟨i, more.take (4095 - (decimal i).length), ?_, ?_⟩
  · rw [snprintf, List.take_append, List.take_of_length_le (by omega)]
  · intro c hc
    rcases more with _ | ⟨d, more⟩
    · rw [List.take_nil] at hc
      cases hc
    · rw [show 4095 - (decimal i).length = 4094 - (decimal i).length + 1 by omega, List.take_succ_cons] at hc
      exact h c hc

/-- The number of a seat is a reply. -/
theorem isReply_seat (i : Fin numSeat) : IsReply (snprintf 4096 (showInt (i : Nat))) := by
  have h : IsReply (snprintf 4096 (decimal i ++ [])) := isReply_snprintf (by simp)
  rwa [List.append_nil, ← showInt_natCast] at h

/-- Every operation answers with a text of this kind. -/
theorem isReply_of_answers (hq : Ordinary q) (h : Answers q text) : IsReply text := by
  obtain ⟨st, socket, st', r, hrun, rfl⟩ := h
  obtain ⟨hvalid, hne⟩ := hq
  obtain ⟨⟨huser₀, huser₁⟩, h0, h5⟩ := validateQuery_bounds hvalid
  obtain ⟨c, hc⟩ : ∃ c : Fin maxClient, q.user = (c : Nat) :=
    exists_fin_of_bounds (n := maxClient) huser₀ (Int.lt_of_le_of_lt huser₁ (by decide))
  obtain ⟨user, action, data⟩ := q
  simp only at hvalid hne h0 h5 hc
  subst hc
  have h1 : 1 ≤ action := by omega
  rcases action_cases h1 h5 with rfl | rfl | rfl | rfl | rfl
  · -- login
    simp only [handleQuery, login_val] at hrun
    split_ifs at hrun <;> cases hrun
    · exact isReply_one
    · exact isReply_failure
  · -- book
    obtain ⟨i, rfl⟩ := exists_fin_of_valid_book hvalid
    simp only [handleQuery, book_val] at hrun
    split_ifs at hrun <;> cases hrun
    · exact isReply_seat i
    · exact isReply_failure
  · -- confirm
    have hempty : Booked.empty = bookedOf [] := rfl
    simp only [handleQuery, confirmBooking_val, hempty, foldl_confirmSeat, List.nil_append] at hrun
    split_ifs at hrun
    · rcases hseats : (List.finRange numSeat).filter fun j => st.seats j = (c : Nat) with _ | ⟨i, l⟩
      · rw [hseats] at hrun
        cases hrun
        exact isReply_failure
      · rw [hseats] at hrun
        cases hrun
        obtain ⟨more, htext, hmore⟩ := exists_bookedOf_eq i l
        have hreply := isReply_snprintf (i := i) hmore
        rwa [← htext] at hreply
    · cases hrun
      exact isReply_failure
  · -- cancel
    rcases outside_or_fin numSeat data with hseat | ⟨i, rfl⟩
    · simp only [handleQuery, cancelBooking_of_no_seat st c socket hseat] at hrun
      cases hrun
      exact isReply_failure
    · simp only [handleQuery, cancelBooking_val] at hrun
      split_ifs at hrun <;> cases hrun
      · exact isReply_seat i
      · exact isReply_failure
  · -- logout
    simp only [handleQuery, logout_val] at hrun
    split_ifs at hrun <;> cases hrun
    · exact isReply_one
    · exact isReply_failure

/-- The terminate query is answered with `256`. -/
theorem answers_terminate_iff : Answers terminate text ↔ text = "256".toList := by
  have hrun : ∀ st socket, handleQuery st socket terminate = some (st, .ok (snprintf 4096 (showInt 256))) :=
    fun _ _ => rfl
  have htext : (Reply.ok (snprintf 4096 (showInt 256))).response = "256".toList := by decide
  constructor
  · rintro ⟨st, socket, st', r, h, rfl⟩
    rw [hrun] at h
    cases h
    exact htext
  · rintro rfl
    exact ⟨.init, 4, .init, .ok (snprintf 4096 (showInt 256)), hrun .init 4, htext⟩

/-- The number of a seat with the reply 256 right behind it. -/
theorem codeOf_joined (i : Fin numSeat) : codeOf (decimal i ++ "256".toList) = (i * 1000 + 256 : Nat) := by
  have hi : (i : Nat) < 256 := i.isLt
  have hdigits : "256".toList.all Char.isDigit = true := by decide
  let n : Numeral :=
    { blanks := []
      sign := []
      digits := decimal i ++ "256".toList
      isSpace_blanks := by simp
      sign_cases := .inl rfl
      digits_ne_nil := List.append_ne_nil_of_left_ne_nil (decimal_ne_nil i) _
      isDigit_digits := fun c hc =>
        (List.mem_append.mp hc).elim isDigit_of_mem_decimal (List.all_eq_true.mp hdigits c) }
  have hvalue : digitsValue (decimal i ++ "256".toList) = i * 1000 + 256 := by
    have happend : digitsValue (decimal i ++ "256".toList) =
        Nat.ofDigitChars 10 "256".toList (digitsValue (decimal i)) := Nat.ofDigitChars_append 0
    rw [happend, digitsValue_decimal, Nat.ofDigitChars_eq_ofDigitChars_zero]
    have h256 : Nat.ofDigitChars 10 "256".toList 0 = 256 := by decide
    have hlen : "256".toList.length = 3 := rfl
    rw [h256, hlen]
    omega
  have hscan : scanLong (decimal i ++ "256".toList ++ []) = _ := n.scanLong_append (s := []) (by simp)
  have hlong : clampLong n.value = (i * 1000 + 256 : Nat) := by
    have hn : n.value = (i * 1000 + 256 : Nat) := congrArg Nat.cast hvalue
    rw [hn, clampLong]
    omega
  rw [List.append_nil, hlong] at hscan
  unfold codeOf strtol
  rw [hscan]
  exact toInt_natCast (by omega)

/-- A reply of the main loop is not taken for 256, and joined with it only if it is `0`. -/
theorem IsReply.codeOf_eq_iff (h : IsReply text) : codeOf text ≠ 256 ∧
    (codeOf (text ++ "256".toList) = 256 → text ++ "256".toList = "0256".toList) := by
  rcases h with rfl | ⟨i, more, rfl, hmore⟩
  · decide
  have hi : (i : Nat) < 256 := i.isLt
  have hstop : ∀ {s : List Char}, (∀ c ∈ s.head?, c = ',') → codeOf (decimal i ++ s) = (i : Nat) := by
    intro s hs
    apply codeOf_seat
    intro c hc
    rw [hs c hc]
    rfl
  refine ⟨?_, ?_⟩
  · rw [hstop hmore]
    omega
  intro hcode
  rcases more with _ | ⟨c, more⟩
  · rw [List.append_nil, codeOf_joined] at hcode
    have hzero : (i : Nat) = 0 := by omega
    rw [List.append_nil, hzero]
    decide
  · have hmore' : ∀ d ∈ (c :: more ++ "256".toList).head?, d = ',' := hmore
    rw [List.append_assoc, hstop hmore'] at hcode
    omega

end replies

/-! ## What is outstanding -/

section owes

variable {asked qs : List Query} {rs : List (List Char)} {q : Query} {text : List Char}

/-- The client has not read the replies to `asked`: the first of them have come, the other ones are to be
given. -/
def Owes (asked qs : List Query) (rs : List (List Char)) : Prop :=
  ∃ answered, asked = answered ++ qs ∧ List.Forall₂ Answers answered rs

/-- At the start nothing is owed. -/
theorem owes_nil : Owes [] [] [] := ⟨[], rfl, .nil⟩

/-- A query that is written is owed an answer. -/
theorem Owes.write (h : Owes asked qs rs) (q : Query) : Owes (asked ++ [q]) (qs ++ [q]) rs := by
  obtain ⟨answered, rfl, hrs⟩ := h
  exact ⟨answered, List.append_assoc .., hrs⟩

/-- The first query is answered. -/
theorem Owes.answer (h : Owes asked (q :: qs) rs) (htext : Answers q text) : Owes asked qs (rs ++ [text]) := by
  obtain ⟨answered, rfl, hrs⟩ := h
  exact ⟨answered ++ [q], by rw [List.append_assoc]; rfl, List.rel_append hrs (.cons htext .nil)⟩

/-- What is read answers the first queries. -/
theorem Owes.read (h : Owes asked qs rs) {k : Nat} (hle : k ≤ rs.length) : Owes (asked.drop k) qs (rs.drop k) := by
  obtain ⟨answered, rfl, hrs⟩ := h
  refine ⟨answered.drop k, List.drop_append_of_le_length ?_, List.forall₂_drop k hrs⟩
  rwa [hrs.length_eq]

/-- The reply that comes first is the one to the first query. -/
theorem Owes.exists_cons (h : Owes (q :: asked) qs rs) (hrs : rs ≠ []) :
    ∃ text rest, rs = text :: rest ∧ Answers q text ∧ Owes asked qs rest := by
  obtain ⟨answered, hasked, hall⟩ := h
  cases hall with
  | nil => exact absurd rfl hrs
  | cons htext hrest =>
    obtain ⟨rfl, htail⟩ := List.cons.inj hasked
    exact ⟨_, _, rfl, htext, _, htail, hrest⟩

/-- If nothing was asked there is no answer. -/
theorem Owes.eq_nil (h : Owes [] qs rs) : rs = [] := by
  obtain ⟨answered, hasked, hall⟩ := h
  obtain ⟨rfl, rfl⟩ := List.append_eq_nil_iff.mp hasked.symm
  exact List.forall₂_nil_left_iff.mp hall

/-- The replies to `asked` are outstanding, and at most one of the main loop in front of them. -/
def OwesBehind (asked qs : List Query) (rs : List (List Char)) : Prop :=
  Owes asked qs rs ∨ ∃ q, Ordinary q ∧ Owes (q :: asked) qs rs

/-- A query that is written, behind a lost answer. -/
theorem OwesBehind.write (h : OwesBehind asked qs rs) (q : Query) : OwesBehind (asked ++ [q]) (qs ++ [q]) rs := by
  rcases h with h | ⟨q', hq', h⟩
  · exact .inl (h.write q)
  · exact .inr ⟨q', hq', h.write q⟩

/-- A query that is answered, behind a lost answer. -/
theorem OwesBehind.answer (h : OwesBehind asked (q :: qs) rs) (htext : Answers q text) :
    OwesBehind asked qs (rs ++ [text]) := by
  rcases h with h | ⟨q', hq', h⟩
  · exact .inl (h.answer htext)
  · exact .inr ⟨q', hq', h.answer htext⟩

/-- What `disconnect` reads: the reply 256, a reply of the main loop, or one and then the other. -/
theorem OwesBehind.read_cases (h : OwesBehind [terminate] qs rs) {k : Nat} (hk : 0 < k) (hle : k ≤ rs.length) :
    (rs.take k).flatten = "256".toList ∨
      ∃ text, IsReply text ∧
        ((rs.take k).flatten = text ∨ (rs.take k).flatten = text ++ "256".toList) := by
  obtain ⟨k, rfl⟩ : ∃ j, k = j + 1 := ⟨k - 1, by omega⟩
  have hrs : rs ≠ [] := List.ne_nil_of_length_pos (by omega)
  rcases h with h | ⟨q, hq, h⟩
  · obtain ⟨text, rest, rfl, htext, hrest⟩ := h.exists_cons hrs
    rw [answers_terminate_iff] at htext
    rw [hrest.eq_nil, htext, List.take_succ_cons, List.take_nil]
    exact .inl (by decide)
  · obtain ⟨text, rest, rfl, htext, h⟩ := h.exists_cons hrs
    refine .inr ⟨text, isReply_of_answers hq htext, ?_⟩
    rw [List.take_succ_cons, List.flatten_cons]
    rcases k with _ | k
    · rw [List.take_zero, List.flatten_nil, List.append_nil]
      exact .inl rfl
    · have hne : rest ≠ [] := by
        rintro rfl
        rw [List.length_singleton] at hle
        omega
      obtain ⟨text', rest, rfl, htext', hrest⟩ := h.exists_cons hne
      rw [answers_terminate_iff] at htext'
      rw [hrest.eq_nil, htext', List.take_succ_cons, List.take_nil, List.flatten_singleton]
      exact .inr rfl

/-- `disconnect` takes what it reads for 256 if and only if it is `256` or `0256`. -/
theorem OwesBehind.closingMessage_eq_iff (h : OwesBehind [terminate] qs rs) {k : Nat} (hk : 0 < k)
    (hle : k ≤ rs.length) :
    closingMessage (rs.take k).flatten = .terminated ↔
      (rs.take k).flatten = "256".toList ∨ (rs.take k).flatten = "0256".toList := by
  have hcode : ∀ text, closingMessage text = .terminated ↔ codeOf text = 256 := by
    intro text
    unfold closingMessage
    split_ifs with hcode
    · exact iff_of_true rfl hcode
    · exact iff_of_false (by simp) hcode
  rw [hcode]
  constructor
  · intro h256
    rcases h.read_cases hk hle with heq | ⟨text, hreply, heq | heq⟩
    · exact .inl heq
    · rw [heq] at h256
      exact absurd h256 hreply.codeOf_eq_iff.1
    · rw [heq] at h256 ⊢
      exact .inr (hreply.codeOf_eq_iff.2 h256)
  · rintro (heq | heq)
    · rw [heq]
      decide
    · rw [heq]
      decide

end owes

/-! ## Runs -/

section runs

variable {es : List Event} {e : Event} {t t' : Talk}

/-- The terminate query is in the socket, or the server has answered it with 256. -/
theorem asked_iff (h : Run Step start es t) :
    .send terminate ∈ es ↔ terminate ∈ t.queries ∨ .answer terminate "256".toList ∈ es := by
  refine h.history
    (fun es t => .send terminate ∈ es ↔ terminate ∈ t.queries ∨ .answer terminate "256".toList ∈ es)
    ?_ (by simp [start])
  intro es t e t' ih hstep
  rw [List.mem_append, List.mem_append, List.mem_singleton, List.mem_singleton, ih]
  cases hstep with
  | @send b qs rs q hq =>
    have hne : q ≠ terminate := by
      rintro rfl
      exact hq.2 rfl
    simp [hne.symm]
  | @answer p b qs rs q text h =>
    by_cases hq : q = terminate
    · subst hq
      rw [answers_terminate_iff] at h
      simp [h]
    · simp [Ne.symm hq]
  | disconnect => simp
  | receive | leave | sigint | blocked | read | print => simp

/-- The replies that are outstanding while the client has something to read: at most one of the main loop, and
in `disconnect` the reply 256 behind it. -/
def Outstanding (t : Talk) : Prop :=
  match t.phase with
  | .idle => Owes [] t.queries t.replies
  | .waiting => ∃ q, Ordinary q ∧ Owes [q] t.queries t.replies
  | .exiting => OwesBehind [] t.queries t.replies
  | .closing => OwesBehind [terminate] t.queries t.replies
  | .reporting _ | .ended => True

/-- A step keeps track of what is outstanding. -/
theorem Outstanding.step (h : Outstanding t) (hstep : Step t e t') : Outstanding t' := by
  cases hstep with
  | @send b qs rs q hq => exact ⟨q, hq, h.write q⟩
  | @answer p b qs rs q text htext =>
    cases p with
    | idle => exact h.answer htext
    | waiting =>
      obtain ⟨q', hq', howes⟩ := h
      exact ⟨q', hq', howes.answer htext⟩
    | exiting => exact OwesBehind.answer h htext
    | closing => exact OwesBehind.answer h htext
    | reporting | ended => trivial
  | @receive b qs rs k hk hle =>
    obtain ⟨q, -, howes⟩ := h
    have hread := howes.read hle
    rwa [List.drop_of_length_le (l := [q]) hk] at hread
  | leave => exact .inl h
  | @sigint p p' qs rs hp =>
    cases p with
    | idle =>
      obtain rfl := Option.some.inj hp
      exact .inl h
    | waiting =>
      obtain rfl := Option.some.inj hp
      exact .inr h
    | exiting | closing | reporting =>
      obtain rfl := Option.some.inj hp
      trivial
    | ended => cases hp
  | blocked => exact h
  | disconnect => exact OwesBehind.write h terminate
  | read | print => trivial

/-- The message is the right one, or it can still be. -/
def Honest (es : List Event) (t : Talk) : Prop :=
  match t.phase with
  | .idle | .waiting | .exiting => .send terminate ∉ es ∧ .print .terminated ∉ es
  | .closing => .send terminate ∈ es ∧ .print .terminated ∉ es
  | .reporting m => m = .terminated ∧ .send terminate ∈ es ∧ .print .terminated ∉ es
  | .ended => .print .terminated ∈ es ↔ .send terminate ∈ es

/-- What is neither a terminate query nor the message leaves both as they are. -/
theorem mem_snoc (es : List Event) (hsend : e ≠ .send terminate) (hprint : e ≠ .print .terminated) :
    (.send terminate ∈ es ++ [e] ↔ .send terminate ∈ es) ∧
      (.print .terminated ∈ es ++ [e] ↔ .print .terminated ∈ es) := by
  constructor
  · simp [hsend.symm]
  · simp [hprint.symm]

/-- A step without an interrupt at a bad moment shows the right answer. -/
theorem Honest.step (h : Honest es t) (hout : Outstanding t) (hstep : Step t e t') (hguard : Undisturbed t e) :
    Honest (es ++ [e]) t' := by
  by_cases hsend : e = .send terminate
  · subst hsend
    cases hstep with
    | send hq => exact absurd rfl hq.2
    | disconnect => exact ⟨by simp, by simpa using h.2⟩
  by_cases hprint : e = .print .terminated
  · subst hprint
    cases hstep with
    | print => exact iff_of_true (by simp) (List.mem_append_left _ h.2.1)
  obtain ⟨hasked, hsaid⟩ := mem_snoc es hsend hprint
  unfold Honest at h ⊢
  rw [hasked, hsaid]
  cases hstep with
  | send | answer | receive | leave | blocked => exact h
  | @sigint p p' qs rs hp =>
    cases p with
    | idle | waiting =>
      obtain rfl := Option.some.inj hp
      exact h
    | exiting =>
      obtain rfl := Option.some.inj hp
      exact iff_of_false h.2 h.1
    | closing => exact absurd rfl (hguard rfl).1
    | reporting m => exact absurd rfl ((hguard rfl).2 m)
    | ended => cases hp
  | disconnect => exact absurd rfl hsend
  | @read b qs rs k hk hle => exact ⟨(OwesBehind.closingMessage_eq_iff hout hk hle).mpr hguard, h⟩
  | print => exact absurd (congrArg Event.print h.1) hprint

/-- So does every run without one. -/
theorem honest_of_guarded (h : Run (Guarded Step Undisturbed) start es t) : Outstanding t ∧ Honest es t :=
  h.history (fun es t => Outstanding t ∧ Honest es t)
    (fun _ _ _ _ ih hstep => ⟨ih.1.step hstep.1, ih.2.step ih.1 hstep.1 hstep.2⟩)
    ⟨owes_nil, by simp, by simp⟩

/-- The terminate query is asked, and the right message will never be printed. -/
def Lost (es : List Event) (t : Talk) : Prop :=
  (t.phase = .ended ∨ t.phase = .reporting .notTerminated) ∧ .send terminate ∈ es ∧ .print .terminated ∉ es

/-- A lost answer stays lost. -/
theorem Lost.step (h : Lost es t) (hstep : Step t e t') : Lost (es ++ [e]) t' := by
  obtain ⟨hphase, hasked, hsaid⟩ := h
  refine ⟨?_, List.mem_append_left _ hasked, ?_⟩
  · cases hstep with
    | answer | blocked => exact hphase
    | @sigint p p' qs rs hp =>
      rcases hphase with rfl | rfl
      · cases hp
      · obtain rfl := Option.some.inj hp
        exact .inl rfl
    | print => exact .inl rfl
    | send | receive | leave | disconnect | read => rcases hphase with hphase | hphase <;> cases hphase
  · rw [List.mem_append, List.mem_singleton, not_or]
    refine ⟨hsaid, ?_⟩
    rintro rfl
    cases hstep with
    | print => rcases hphase with hphase | hphase <;> cases hphase

/-- A step that breaks the condition loses the message. -/
theorem lost_of_not_undisturbed (hout : Outstanding t) (h : Honest es t) (hstep : Step t e t')
    (hguard : ¬ Undisturbed t e) : Lost (es ++ [e]) t' := by
  cases hstep with
  | @sigint p p' qs rs hp =>
    cases p with
    | idle | waiting | exiting | ended => exact absurd (fun _ => ⟨by simp, by simp⟩) hguard
    | closing =>
      obtain rfl := Option.some.inj hp
      exact ⟨.inl rfl, List.mem_append_left _ h.1, by simpa using h.2⟩
    | reporting m =>
      obtain rfl := Option.some.inj hp
      exact ⟨.inl rfl, List.mem_append_left _ h.2.1, by simpa using h.2.2⟩
  | @read b qs rs k hk hle =>
    refine ⟨.inr ?_, List.mem_append_left _ h.1, by simpa using h.2⟩
    have hne : closingMessage (rs.take k).flatten ≠ .terminated := fun hm =>
      hguard ((OwesBehind.closingMessage_eq_iff hout hk hle).mp hm)
    unfold closingMessage at hne ⊢
    split_ifs at hne ⊢ with hcode
    · exact absurd rfl hne
    · rfl
  | blocked => exact absurd (fun h => Bool.noConfusion h) hguard
  | send | answer | receive | leave | disconnect | print => exact absurd trivial hguard

/-- When the client has ended and the server has answered, the message is right if and only if the run is
undisturbed. -/
theorem paired_iff {es : List Event} {t : Talk} (h : Run Step start es t) (hdone : Complete t) :
    Paired es ↔ Run (Guarded Step Undisturbed) start es t := by
  have hanswered : .send terminate ∈ es ↔ .answer terminate "256".toList ∈ es := by
    rw [asked_iff h, hdone.2]
    simp
  unfold Paired
  rw [← hanswered]
  constructor
  · intro hpaired
    rcases h.guarded_or_exists Undisturbed with hguarded | ⟨pre, e, post, t₁, t₂, rfl, hpre, hstep, hbad, hpost⟩
    · exact hguarded
    · obtain ⟨hout, hhonest⟩ := honest_of_guarded hpre
      have hlost : Lost (pre ++ [e] ++ post) t :=
        hpost.history (fun es t => Lost (pre ++ [e] ++ es) t)
          (fun es _ _ _ ih hstep => by rw [← List.append_assoc]; exact ih.step hstep)
          (by rw [List.append_nil]; exact lost_of_not_undisturbed hout hhonest hstep hbad)
      rw [← List.append_cons] at hlost
      exact absurd (hpaired.mpr hlost.2.1) hlost.2.2
  · intro hguarded
    have hhonest := (honest_of_guarded hguarded).2
    unfold Honest at hhonest
    rwa [hdone.1] at hhonest

end runs

/-! ## A client that logs in -/

/-- Client 1 logs in with password 7. -/
def loginQuery : Query := ⟨1, 1, 7⟩

/-- A login is an ordinary query. -/
theorem ordinary_loginQuery : Ordinary loginQuery := ⟨by decide, by decide⟩

/-- It is answered with `1`. -/
theorem answers_loginQuery : Answers loginQuery ['1'] := ⟨.init, 4, _, _, rfl, by decide⟩

/-- It reads the reply, and then the input ends. -/
def calmEvents : List Event :=
  [.send loginQuery, .answer loginQuery ['1'], .receive 1, .leave, .send terminate, .answer terminate "256".toList,
    .read 1, .print .terminated]

/-- A login and the end, without an interrupt. -/
theorem paired_iff_login : Run Step start calmEvents ⟨.ended, false, [], []⟩ ∧ Complete ⟨.ended, false, [], []⟩ ∧
    (Paired calmEvents ↔ Run (Guarded Step Undisturbed) start calmEvents ⟨.ended, false, [], []⟩) := by
  have hrun : Run Step start calmEvents ⟨.ended, false, [], []⟩ := by
    refine run_cons_iff.mpr ⟨_, .send ordinary_loginQuery, ?_⟩
    refine run_cons_iff.mpr ⟨_, .answer answers_loginQuery, ?_⟩
    refine run_cons_iff.mpr ⟨_, .receive (by decide) (by decide), ?_⟩
    refine run_cons_iff.mpr ⟨_, .leave, ?_⟩
    refine run_cons_iff.mpr ⟨_, .disconnect, ?_⟩
    refine run_cons_iff.mpr ⟨_, .answer (answers_terminate_iff.mpr rfl), ?_⟩
    refine run_cons_iff.mpr ⟨_, .read (by decide) (by decide), ?_⟩
    exact run_singleton_iff.mpr .print
  exact ⟨hrun, ⟨rfl, rfl⟩, paired_iff hrun ⟨rfl, rfl⟩⟩

/-- It is interrupted while the reply is on its way. -/
def interruptedEvents : List Event :=
  [.send loginQuery, .sigint, .send terminate, .answer loginQuery ['1'], .answer terminate "256".toList, .read 1,
    .print .notTerminated]

/-- `disconnect` reads the reply to the login, and the client says that it failed to disconnect. -/
theorem not_paired : Run Step start interruptedEvents ⟨.ended, true, [], ["256".toList]⟩ ∧
    Complete ⟨.ended, true, [], ["256".toList]⟩ ∧ ¬ Paired interruptedEvents := by
  refine ⟨?_, ⟨rfl, rfl⟩, ?_⟩
  · refine run_cons_iff.mpr ⟨_, .send ordinary_loginQuery, ?_⟩
    refine run_cons_iff.mpr ⟨_, .sigint rfl, ?_⟩
    refine run_cons_iff.mpr ⟨_, .disconnect, ?_⟩
    refine run_cons_iff.mpr ⟨_, .answer answers_loginQuery, ?_⟩
    refine run_cons_iff.mpr ⟨_, .answer (answers_terminate_iff.mpr rfl), ?_⟩
    refine run_cons_iff.mpr ⟨_, .read (by decide) (by decide), ?_⟩
    exact run_singleton_iff.mpr .print
  · simp [Paired, interruptedEvents]

end SystemProgrammingLab.Pa3.Interrupt
