import SystemProgrammingLab.Week13.Broadcast
import SystemProgrammingLab.Week13.Relay
import Mathlib.Data.List.DropRight
import Mathlib.Data.List.Forall2

/-!
# Everybody reads the same conversation

What is written to a connection since it was accepted answers what the others have said since then, every
message once and in the order in which the server read them. So of two connections, the one that came
later reads what third parties say in the same order as the other one: its part of the conversation
is the end of the other one's (`same_conversation`).

Source: `week13/server.c`, `handle_client_data`
-/

namespace SystemProgrammingLab.Week13

open SystemProgrammingLab.Found

/-- The event accepts the connection. -/
def Event.accepts (fd : Nat) : Event → Bool
  | .accepted connFd => connFd = fd
  | _ => false

/-- The message that the server reads in the event, with the connection that it comes from. -/
def Event.said : Event → List (Nat × Message)
  | .received i msg _ _ _ => [(i, msg)]
  | _ => []

/-- What the event writes to the connection, with the connection that it answers. -/
def Event.written (fd : Nat) : Event → List (Nat × Message)
  | .received i _ _ response sent => List.replicate (sent.count fd) (i, response)
  | _ => []

/-- The events since the connection was accepted for the last time. -/
def sinceAccepted (fd : Nat) (es : List Event) : List Event := es.rtakeWhile fun e => !e.accepts fd

/-- What was said since the connection was accepted. -/
def saidSince (fd : Nat) (es : List Event) : List (Nat × Message) :=
  (sinceAccepted fd es).flatMap Event.said

/-- What was written to the connection since it was accepted. -/
def writtenSince (fd : Nat) (es : List Event) : List (Nat × Message) :=
  (sinceAccepted fd es).flatMap (Event.written fd)

/-- The response answers the message of this connection. -/
def Told (written said : Nat × Message) : Prop :=
  written.1 = said.1 ∧ ∃ activeUsers printed, AnswerTo activeUsers said.2 printed written.2

/-- A line that a user has typed is told under the name of the user, behind a colon. -/
theorem Told.chat {written said : Nat × Message} {user : Username} {t : List Char}
    (h : Told written said) (hname : textOf said.2.username = some user.text)
    (htext : textOf said.2.message = some t) (htype : said.2.type = 1) (hlt : t.length < maxLine) :
    textOf written.2.username = some user.text ∧
      textOf written.2.message = some (": ".toList ++ t) := by
  obtain ⟨-, activeUsers, printed, hanswer⟩ := h
  have hrespond := respond_chat hname htext htype hlt activeUsers
  rcases hanswer with ⟨stale, hsent⟩ | hnone
  · obtain ⟨printed', response, hsome, hname', htext'⟩ := hrespond stale
    obtain ⟨-, rfl⟩ := Prod.mk.inj (Option.some.inj (hsent.symm.trans hsome))
    exact ⟨hname', htext'⟩
  · obtain ⟨printed', response, hsome, -⟩ := hrespond said.2
    rw [hnone] at hsome
    cases hsome

section conversation

variable {listenfd fd i j : Nat} {es : List Event} {s s' : Server} {e : Event}

/-- The event that accepts the connection. -/
theorem accepts_iff : e.accepts fd = true ↔ e = .accepted fd := by
  cases e with
  | accepted connFd => simp [Event.accepts]
  | _ => simp [Event.accepts]

/-- A connection that is open is written the answer once, unless the message is its own. -/
theorem Inv.written (h : Inv listenfd es s) (hstep : Step listenfd s e s') (hconn : Connected fd es) :
    List.Forall₂ Told (e.written fd) (e.said.filter fun p => p.1 ≠ fd) := by
  cases hstep with
  | @message _ i stale msg printed response hvisits hne hresponse =>
      show List.Forall₂ Told (List.replicate ((targets listenfd s i).count fd) (i, response)) _
      by_cases hi : i = fd
      · have hnot : fd ∉ targets listenfd s i := fun hmem => (h.mem_targets.mp hmem).2.1 hi.symm
        rw [List.count_eq_zero_of_not_mem hnot]
        simp [Event.said, hi]
      · rw [h.count_targets hconn (Ne.symm hi)]
        have htold : Told (i, response) (i, msg) := ⟨rfl, _, printed, .of_respond hresponse⟩
        simpa [Event.said, hi] using htold
  | _ => exact .nil

/-- The events since the connection was accepted, one step later. -/
theorem sinceAccepted_snoc (es : List Event) (e : Event) :
    (e = .accepted fd ∧ sinceAccepted fd (es ++ [e]) = []) ∨
      (e ≠ .accepted fd ∧ sinceAccepted fd (es ++ [e]) = sinceAccepted fd es ++ [e]) := by
  unfold sinceAccepted
  by_cases he : e = .accepted fd
  · exact .inl ⟨he, List.rtakeWhile_concat_neg _ _ _ (by simp [accepts_iff.mpr he])⟩
  · have hnot : (!e.accepts fd) = true := by
      rw [Bool.not_eq_true', ← Bool.not_eq_true, accepts_iff]
      exact he
    exact .inr ⟨he, List.rtakeWhile_concat_pos _ _ _ hnot⟩

/-- A connection is told what the others say. -/
theorem told_since {others : Finset Nat} (h : Run (Step listenfd) (.init listenfd others) es s)
    (hconn : Connected fd es) :
    List.Forall₂ Told (writtenSince fd es) ((saidSince fd es).filter fun p => p.1 ≠ fd) := by
  refine h.history (fun es s => Inv listenfd es s ∧ (Connected fd es →
    List.Forall₂ Told (writtenSince fd es) ((saidSince fd es).filter fun p => p.1 ≠ fd))) ?_
    ⟨inv_init listenfd others, fun hnil => absurd hnil (not_since_nil _ _)⟩ |>.2 hconn
  rintro es s e s' ⟨hinv, ih⟩ hstep
  refine ⟨hinv.step hstep, fun hconn => ?_⟩
  unfold writtenSince saidSince at ih ⊢
  rcases @sinceAccepted_snoc fd es e with ⟨rfl, hsince⟩ | ⟨he, hsince⟩
  · rw [hsince]
    exact .nil
  · have hbefore : Connected fd es := by
      rcases since_snoc.mp hconn with heq | ⟨-, hbefore⟩
      · exact absurd heq he
      · exact hbefore
    rw [hsince, List.flatMap_append, List.flatMap_append, List.filter_append,
      List.flatMap_singleton, List.flatMap_singleton]
    exact List.rel_append (ih hbefore) (hinv.written hstep hbefore)

/-- Two connections that are open are written the same, except for what one of them has said. -/
theorem Inv.written_third (h : Inv listenfd es s) (hstep : Step listenfd s e s') (hi : Connected i es)
    (hj : Connected j es) :
    (e.written i).filter (fun p => p.1 ≠ j) = (e.written j).filter fun p => p.1 ≠ i := by
  cases hstep with
  | @message _ k _ msg printed response hvisits hne hresponse =>
      show (List.replicate ((targets listenfd s k).count i) (k, response)).filter _ =
        (List.replicate ((targets listenfd s k).count j) (k, response)).filter _
      by_cases hki : k = i
      · have hnot : i ∉ targets listenfd s k := fun hmem => (h.mem_targets.mp hmem).2.1 hki.symm
        rw [List.count_eq_zero_of_not_mem hnot]
        simp [hki]
      · by_cases hkj : k = j
        · have hnot : j ∉ targets listenfd s k := fun hmem => (h.mem_targets.mp hmem).2.1 hkj.symm
          rw [List.count_eq_zero_of_not_mem hnot]
          simp [hkj]
        · rw [h.count_targets hi (Ne.symm hki), h.count_targets hj (Ne.symm hkj)]
          simp [hki, hkj]
  | _ => rfl

/-- Of what third parties have said, one of two connections was written the end of what the other one was
written. -/
theorem written_suffix {others : Finset Nat} (h : Run (Step listenfd) (.init listenfd others) es s)
    (hi : Connected i es) (hj : Connected j es) :
    (writtenSince i es).filter (fun p => p.1 ≠ j) <:+ (writtenSince j es).filter (fun p => p.1 ≠ i) ∨
      (writtenSince j es).filter (fun p => p.1 ≠ i) <:+ (writtenSince i es).filter (fun p => p.1 ≠ j) := by
  refine h.history (fun es s => Inv listenfd es s ∧ (Connected i es → Connected j es →
    ((writtenSince i es).filter (fun p => p.1 ≠ j) <:+ (writtenSince j es).filter (fun p => p.1 ≠ i) ∨
      (writtenSince j es).filter (fun p => p.1 ≠ i) <:+
        (writtenSince i es).filter (fun p => p.1 ≠ j)))) ?_
    ⟨inv_init listenfd others, fun hnil => absurd hnil (not_since_nil _ _)⟩ |>.2 hi hj
  rintro es s e s' ⟨hinv, ih⟩ hstep
  refine ⟨hinv.step hstep, fun hi hj => ?_⟩
  unfold writtenSince at ih ⊢
  rcases @sinceAccepted_snoc i es e with ⟨-, hsince⟩ | ⟨hne, hsince⟩
  · rw [hsince]
    exact .inl (List.nil_suffix)
  rcases @sinceAccepted_snoc j es e with ⟨-, hsince'⟩ | ⟨hne', hsince'⟩
  · rw [hsince']
    exact .inr (List.nil_suffix)
  have hbefore : ∀ {k}, e ≠ .accepted k → Connected k (es ++ [e]) → Connected k es := by
    intro k hk hconn
    rcases since_snoc.mp hconn with heq | ⟨-, hbefore⟩
    · exact absurd heq hk
    · exact hbefore
  have hi' := hbefore hne hi
  have hj' := hbefore hne' hj
  have hsame := hinv.written_third hstep hi' hj'
  rw [hsince, hsince', List.flatMap_append, List.flatMap_append, List.filter_append,
    List.filter_append, List.flatMap_singleton, List.flatMap_singleton, hsame]
  have happend : ∀ {as bs cs : List (Nat × Message)}, as <:+ bs → as ++ cs <:+ bs ++ cs := by
    rintro as _ cs ⟨ds, rfl⟩
    exact ⟨ds, by rw [List.append_assoc]⟩
  exact (ih hi' hj').imp happend happend

/-- **Everybody reads the same conversation.** What is written to a connection since it was accepted answers
what the others have said since then, message by message. Of what third parties have said, one of two
connections was written the end of what the other one was written. -/
theorem same_conversation {others : Finset Nat} (h : Run (Step listenfd) (.init listenfd others) es s)
    (hi : Connected i es) (hj : Connected j es) :
    List.Forall₂ Told (writtenSince i es) ((saidSince i es).filter fun p => p.1 ≠ i) ∧
      ((writtenSince i es).filter (fun p => p.1 ≠ j) <:+ (writtenSince j es).filter (fun p => p.1 ≠ i) ∨
        (writtenSince j es).filter (fun p => p.1 ≠ i) <:+
          (writtenSince i es).filter (fun p => p.1 ≠ j)) :=
  ⟨told_since h hi, written_suffix h hi hj⟩

/-- What 4 has said is in the conversation of 5. -/
theorem same_conversation_twoClients : ∃ es s, Run (Step 3) (.init 3 {0, 1, 2}) es s ∧
    Connected 4 es ∧ Connected 5 es ∧ es.any fromFourToFive = true ∧
      (writtenSince 5 es).map Prod.fst = [4] ∧
      (List.Forall₂ Told (writtenSince 4 es) ((saidSince 4 es).filter fun p => p.1 ≠ 4) ∧
        ((writtenSince 4 es).filter (fun p => p.1 ≠ 5) <:+ (writtenSince 5 es).filter (fun p => p.1 ≠ 4) ∨
          (writtenSince 5 es).filter (fun p => p.1 ≠ 4) <:+
            (writtenSince 4 es).filter (fun p => p.1 ≠ 5))) := by
  have hexec : ((exec (step 3) (.init 3 {0, 1, 2}) (twoClients saysHi)).map
      fun p => (decide (4 ∈ p.1.readset ∧ 5 ∈ p.1.readset), p.2.any fromFourToFive,
        (writtenSince 5 p.2).map Prod.fst)) = some (true, true, [4]) := by decide +kernel
  obtain ⟨⟨s, es⟩, hexec, heq⟩ := Option.map_eq_some_iff.mp hexec
  obtain ⟨hmem, hpair⟩ := Prod.mk.inj heq
  obtain ⟨hany, hwritten⟩ := Prod.mk.inj hpair
  have hrun : Run (Step 3) (.init 3 {0, 1, 2}) es s :=
    exec_run (step_sound 3) (twoClients saysHi) hexec
  have hinv := run_inv hrun
  obtain ⟨h4, h5⟩ := of_decide_eq_true hmem
  have hconn : ∀ fd, fd ∈ s.readset → fd ≠ 3 → Connected fd es :=
    fun fd hfd hne => ((hinv.readset fd).mp hfd).resolve_left hne
  have hi := hconn 4 h4 (by decide)
  have hj := hconn 5 h5 (by decide)
  exact ⟨es, s, hrun, hi, hj, hany, hwritten, same_conversation hrun hi hj⟩

end conversation

end SystemProgrammingLab.Week13
