import SystemProgrammingLab.Week10.Channels

/-!
# Receipts

The child of an instance sends its acknowledgement to the receiver that the instance was started with, and
not to the sender of the chat that it has read. What an acknowledgement is about is not in the queue; the
history of a run tells it (`Ledger`, `ledger`). In every run every receipt reaches the sender of the chat,
and nobody is told about a chat that they have not sent, if and only if the ids are `Mutual`
(`receipts_iff`). Three users in a ring are not (`not_receipts`).

Source: `week10/main.c`
-/

namespace SystemProgrammingLab.Week10

open SystemProgrammingLab.Found

variable {ι : Type*}

/-! ## The ledger -/

/-- The queue, each acknowledgement with the message that it is about, and the message that each child
has read last. -/
structure Ledger (ι : Type*) where
  queue : List (Message × Option Message)
  last : ι → Option Message

/-- What a message that `k` sends is about. -/
def Ledger.about (l : Ledger ι) (k : ι) (m : Message) : Option Message :=
  match m.body with
  | .chat .. => none
  | .ack _ => l.last k

/-- What the message is about that is received next with the type of `m`. -/
def Ledger.reported (l : Ledger ι) (m : Message) : Option Message :=
  (l.queue.find? fun e => e.1.msgtype = m.msgtype).bind Prod.snd

section ledger

variable [DecidableEq ι]

/-- An event in the ledger. -/
def Ledger.record (l : Ledger ι) : Event ι → Ledger ι
  | .sent k m => { l with queue := l.queue ++ [(m, l.about k m)] }
  | .gotChat k m =>
      ⟨l.queue.eraseP fun e => e.1.msgtype = m.msgtype, Function.update l.last k (some m)⟩
  | .gotAck _ m => { l with queue := l.queue.eraseP fun e => e.1.msgtype = m.msgtype }
  | .internal _ => l

/-- The ledger after these events. -/
def ledger (es : List (Event ι)) : Ledger ι := es.foldl Ledger.record ⟨[], fun _ => none⟩

/-- The ledger, one event later. -/
@[simp] theorem ledger_snoc (es : List (Event ι)) (e : Event ι) :
    ledger (es ++ [e]) = (ledger es).record e := by
  simp [ledger]

end ledger

/-- The message is a chat of this user. -/
def ChatFrom (id : Id) (m : Message) : Prop := ∃ text, m.body = .chat id.val text

/-- An acknowledgement of a chat is sent to the sender of the chat, and an acknowledgement that is received
is about a chat of the user that receives it. -/
def Receipted (inst : ι → Instance) (l : Ledger ι) : Event ι → Prop
  | .sent k m =>
      ∀ read sender, l.about k m = some read → ChatFrom sender read → m.msgtype = ackType sender
  | .gotAck k m => ∃ read, l.reported m = some read ∧ ChatFrom (inst k).userId read
  | .gotChat _ _ | .internal _ => True

/-- Every receipt of a history goes where it should. -/
def Receipts [DecidableEq ι] (inst : ι → Instance) (es : List (Event ι)) : Prop :=
  ∀ pre e post, es = pre ++ e :: post → Receipted inst (ledger pre) e

/-! ## What is read -/

/-- A message that the child of an instance can come to read as a chat: a chat to its user, or an
acknowledgement with the type of such chats by an instance that can come to read something. -/
inductive Reads (inst : ι → Instance) : ι → Message → Prop
  | chat {k c : ι} (hchat : (inst c).receiverId = (inst k).userId) {line : List Char}
      (hline : line.length < 512) (hquit : line ≠ "quit\n".toList) :
      Reads inst k ((inst c).chat line)
  | ack {k a : ι} {m : Message} (ha : Reads inst a m)
      (hack : (inst k).userId.val = ackType (inst a).receiverId) (timestamp : List Char) :
      Reads inst k ((inst a).ack timestamp)

/-- No instance sends chats that an acknowledgement branch can take; who is sent chats has their sender as
receiver; and an acknowledgement that is read as a chat is acknowledged to nobody. The sum `T_MSG + id`
must fit where an acknowledgement is to be sent. -/
structure Mutual (inst : ι → Instance) : Prop where
  chat : ∀ a b, ¬ Takes (ackType (inst b).userId) (inst a).receiverId.val
  back : ∀ a k, (inst a).receiverId = (inst k).userId → 0 < ackType (inst k).receiverId →
    (inst k).receiverId = (inst a).userId
  misread : ∀ k a timestamp, Reads inst k ((inst a).ack timestamp) →
    0 < ackType (inst k).receiverId → ∀ j, (inst j).userId ≠ (inst k).receiverId

/-- A message of the queue with what it is about. -/
inductive Entry (inst : ι → Instance) : Message × Option Message → Prop
  | chat (a : ι) {line : List Char} (hline : line.length < 512) (hquit : line ≠ "quit\n".toList) :
      Entry inst ((inst a).chat line, none)
  | ack {a : ι} {m : Message} (hread : Reads inst a m) (hpos : 0 < ackType (inst a).receiverId)
      (timestamp : List Char) : Entry inst ((inst a).ack timestamp, some m)

/-- The ledger is about the queue, and who acknowledges has read something. -/
structure Recorded (inst : ι → Instance) (l : Ledger ι) (s : State ι) : Prop where
  queue : l.queue.map Prod.fst = s.queue
  entry : ∀ e ∈ l.queue, Entry inst e
  sendAck : ∀ k, s.receiver k = .sendAck → ∃ m, l.last k = some m ∧ Reads inst k m

section recorded

variable {inst : ι → Instance} {l : Ledger ι} {s s' : State ι} {e : Event ι}

/-- `msgrcv` on the queue takes the entry of the ledger that is found with the type of the message. -/
theorem Recorded.msgrcv (h : Recorded inst l s) {msgtyp : Int} {m : Message} {queue : List Message}
    (hrcv : msgrcv s.queue msgtyp = some (m, queue)) :
    ∃ read, Entry inst (m, read) ∧ l.reported m = read ∧
      (l.queue.eraseP fun e => e.1.msgtype = m.msgtype).map Prod.fst = queue := by
  simp only [Week10.msgrcv, Option.bind_eq_bind, Option.bind_eq_some_iff, Option.pure_def,
    Option.some.injEq, Prod.mk.injEq] at hrcv
  obtain ⟨t, -, m, hfind, rfl, rfl⟩ := hrcv
  obtain rfl : m.msgtype = t := by simpa using List.find?_some hfind
  rw [← h.queue, List.find?_map, Option.map_eq_some_iff] at hfind
  obtain ⟨⟨m, read⟩, hfind, rfl⟩ := hfind
  refine ⟨read, h.entry _ (List.mem_of_find?_eq_some hfind), ?_, ?_⟩
  · exact congrArg (fun e => e.bind Prod.snd) hfind
  · rw [← h.queue, List.eraseP_map]
    rfl

/-- A message about a chat that was read is an acknowledgement. -/
theorem Entry.body_ack {m read : Message} (h : Entry inst (m, some read)) :
    ∃ timestamp, m.body = .ack timestamp := by
  rcases h with _ | ⟨-, -, timestamp⟩
  exact ⟨timestamp, rfl⟩

/-- A chat branch reads a message that it can come to read. -/
theorem Entry.reads {m : Message} {read : Option Message} (h : Entry inst (m, read)) {k : ι}
    (htakes : Takes (inst k).userId.val m.msgtype) : Reads inst k m := by
  have hpos := (inst k).userId.pos
  have htype : m.msgtype = (inst k).userId.val := by
    rcases htakes with htype | ⟨hneg, -⟩
    · exact htype
    · omega
  rcases h with ⟨a, hline, hquit⟩ | ⟨hread, -, timestamp⟩
  · exact .chat (Id.val_injective htype) hline hquit
  · exact .ack hread htype.symm timestamp

/-- What an instance takes as an acknowledgement is about a chat of its user. -/
theorem Entry.reported_ack {m : Message} {read : Option Message} (h : Entry inst (m, read))
    (hmutual : Mutual inst) {k : ι} (htakes : Takes (ackType (inst k).userId) m.msgtype) :
    ∃ m', read = some m' ∧ ChatFrom (inst k).userId m' := by
  rcases h with ⟨a, hline, hquit⟩ | @⟨a, m', hread, hpos, timestamp⟩
  · exact absurd htakes (hmutual.chat a k)
  · refine ⟨m', rfl, ?_⟩
    have hid : (inst k).userId = (inst a).receiverId := by
      rcases takes_of_takes_ackType hpos htakes with hid | hchats
      · exact hid
      · exact absurd hchats (hmutual.chat a k)
    rcases hread with @⟨_, c, hchat, line, hline, hquit⟩ | ⟨ha, hack, timestamp'⟩
    · have hback : (inst a).receiverId = (inst c).userId := hmutual.back c a hchat hpos
      rw [hid, hback]
      exact ⟨_, rfl⟩
    · exact absurd hid (hmutual.misread _ _ _ (.ack ha hack timestamp') hpos k)

variable [DecidableEq ι]

/-- The child of `k` goes on, and does not read a chat. -/
theorem Recorded.receive (h : Recorded inst l s) {k : ι} {stage : Stage}
    (hstage : stage ≠ .sendAck) : ∀ j, (s.receive k s.queue stage).receiver j = .sendAck →
      ∃ m, l.last j = some m ∧ Reads inst j m := by
  intro j hj
  by_cases hjk : j = k
  · subst hjk
    exact absurd (by simpa using hj) hstage
  · exact h.sendAck j (by simpa [Function.update_of_ne hjk] using hj)

/-- Every step is recorded. -/
theorem Step.recorded (hstep : Step inst s e s') (h : Recorded inst l s) :
    Recorded inst (l.record e) s' := by
  rcases hstep with ⟨hsending, hline, hquit, hsnd⟩ | ⟨hsending, hsnd⟩ | hsending |
    @⟨k, m, queue, hstage, hrcv⟩ | ⟨hstage, hrcv⟩ | @⟨k, timestamp, queue, hstage, hsnd⟩ |
    ⟨hstage, hsnd⟩ | @⟨k, m, queue, hstage, hrcv⟩ | ⟨hstage, hrcv⟩
  · obtain ⟨-, rfl⟩ := msgsnd_eq hsnd
    refine ⟨by simp [Ledger.record, h.queue], ?_, h.sendAck⟩
    intro e he
    rcases List.mem_append.mp he with he | he
    · exact h.entry e he
    · rw [List.mem_singleton.mp he]
      exact .chat _ hline hquit
  · exact ⟨h.queue, h.entry, h.sendAck⟩
  · exact ⟨h.queue, h.entry, h.receive (by simp)⟩
  · obtain ⟨read, hentry, -, hqueue⟩ := h.msgrcv hrcv
    have hreads : Reads inst k m := hentry.reads (msgrcv_takes (inst k).userId.pos.ne' hrcv).2.1
    refine ⟨hqueue, fun e he => h.entry e (List.eraseP_subset he), ?_⟩
    intro j hj
    by_cases hjk : j = k
    · subst hjk
      exact ⟨m, Function.update_self .., hreads⟩
    · obtain ⟨m', hlast, hm'⟩ := h.sendAck j (by simpa [Function.update_of_ne hjk] using hj)
      exact ⟨m', (Function.update_of_ne hjk ..).trans hlast, hm'⟩
  · exact ⟨h.queue, h.entry, h.receive (by simp)⟩
  · obtain ⟨hpos, rfl⟩ := msgsnd_eq hsnd
    obtain ⟨m, hlast, hreads⟩ := h.sendAck k hstage
    refine ⟨by simp [Ledger.record, h.queue], ?_, h.receive (by simp)⟩
    intro e he
    rcases List.mem_append.mp he with he | he
    · exact h.entry e he
    · rw [List.mem_singleton.mp he]
      have habout : l.about k ((inst k).ack timestamp) = some m := hlast
      rw [habout]
      exact .ack hreads hpos timestamp
  · exact ⟨h.queue, h.entry, h.receive (by simp)⟩
  · obtain ⟨read, hentry, -, hqueue⟩ := h.msgrcv hrcv
    exact ⟨hqueue, fun e he => h.entry e (List.eraseP_subset he), h.receive (by simp)⟩
  · exact ⟨h.queue, h.entry, h.receive (by simp)⟩

/-- The ledger that the history of a run tells is the ledger of its last state. -/
theorem run_recorded {es : List (Event ι)} (h : Run (Step inst) State.init es s) :
    Recorded inst (ledger es) s := by
  apply h.history (fun es s => Recorded inst (ledger es) s)
  · intro es s e s' hs hstep
    rw [ledger_snoc]
    exact hstep.recorded hs
  · refine ⟨rfl, fun e he => absurd he List.not_mem_nil, ?_⟩
    intro k hk
    exact absurd hk (by simp [State.init])

/-- With mutual ids, a step sends and receives receipts as it should. -/
theorem Step.receipted (hstep : Step inst s e s') (hmutual : Mutual inst)
    (h : Recorded inst l s) : Receipted inst l e := by
  rcases hstep with ⟨hsending, hline, hquit, hsnd⟩ | ⟨hsending, hsnd⟩ | hsending |
    ⟨hstage, hrcv⟩ | ⟨hstage, hrcv⟩ | @⟨k, timestamp, queue, hstage, hsnd⟩ |
    ⟨hstage, hsnd⟩ | @⟨k, m, queue, hstage, hrcv⟩ | ⟨hstage, hrcv⟩
  · rintro read sender hread -
    cases hread
  · trivial
  · trivial
  · trivial
  · trivial
  · rintro read sender hread ⟨text, hbody⟩
    obtain ⟨hpos, -⟩ := msgsnd_eq hsnd
    obtain ⟨m, hlast, hreads⟩ := h.sendAck k hstage
    have hlast' : l.last k = some read := hread
    obtain rfl : m = read := Option.some.inj (hlast.symm.trans hlast')
    rcases hreads with @⟨_, c, hchat, line, hline, hquit⟩ | ⟨ha, hack, timestamp'⟩
    · have hsender : (inst c).userId.val = sender.val := by
        rw [Instance.chat, Body.chat.injEq] at hbody
        exact hbody.1
      have hback : (inst k).receiverId = (inst c).userId := hmutual.back c k hchat hpos
      rw [← Id.val_injective hsender, ← hback]
      rfl
    · cases hbody
  · trivial
  · obtain ⟨read, hentry, hreported, -⟩ := h.msgrcv hrcv
    obtain ⟨m', rfl, hchat⟩ := hentry.reported_ack hmutual (msgrcv_takes (ackType_ne_zero _) hrcv).2.1
    exact ⟨m', hreported, hchat⟩
  · trivial

/-- Between instances that talk to each other every acknowledgement is a receipt. -/
theorem receipts_of_mutual (hmutual : Mutual inst) {es : List (Event ι)}
    (h : Run (Step inst) State.init es s) : Receipts inst es := by
  rintro pre e post rfl
  obtain ⟨s₁, s₂, hpre, hstep, -⟩ := h.split
  exact hstep.receipted hmutual (run_recorded hpre)

end recorded

/-! ## Where receipts go astray -/

/-- A message of another type is not taken. -/
theorem msgrcv_singleton_none {m : Message} {msgtyp : Int} (hne : msgtyp ≠ 0)
    (h : ¬ Takes msgtyp m.msgtype) : msgrcv [m] msgtyp = none := by
  rcases hrcv : msgrcv [m] msgtyp with _ | ⟨m', rest⟩
  · rfl
  · obtain ⟨hmem, htakes, -⟩ := msgrcv_takes hne hrcv
    rw [List.mem_singleton.mp hmem] at htakes
    exact absurd htakes h

section astray

variable [DecidableEq ι] {inst : ι → Instance} {es : List (Event ι)} {s : State ι} {k j : ι}
  {m : Message} {timestamp : List Char}

/-- In this run the child of `k` has just read `m`. -/
structure HasRead (inst : ι → Instance) (es : List (Event ι)) (s : State ι) (k : ι) (m : Message) :
    Prop where
  run : Run (Step inst) State.init es s
  queue : s.queue = []
  stage : s.receiver k = .sendAck
  others : ∀ j, j ≠ k → s.receiver j = .chat ∨ s.receiver j = .ack
  last : (ledger es).last k = some m

/-- In this run `k` has acknowledged `m`, and nobody has received the acknowledgement yet. -/
structure HasSent (inst : ι → Instance) (es : List (Event ι)) (s : State ι) (k : ι)
    (timestamp : List Char) (m : Message) : Prop where
  run : Run (Step inst) State.init es s
  queue : s.queue = [(inst k).ack timestamp]
  waits : ∀ j, s.receiver j = .chat ∨ s.receiver j = .ack
  entry : (ledger es).queue = [((inst k).ack timestamp, some m)]

/-- Who has read a chat acknowledges it. -/
theorem HasRead.send (h : HasRead inst es s k m) (hpos : 0 < ackType (inst k).receiverId)
    (timestamp : List Char) : ∃ s',
      HasSent inst (es ++ [.sent k ((inst k).ack timestamp)]) s' k timestamp m := by
  have hsnd : msgsnd s.queue ((inst k).ack timestamp) = some [(inst k).ack timestamp] := by
    rw [h.queue]
    exact if_pos hpos
  have hempty : (ledger es).queue = [] := by
    have hqueue := (run_recorded h.run).queue
    rwa [h.queue, List.map_eq_nil_iff] at hqueue
  refine ⟨_, h.run.snoc (.sendAck h.stage hsnd), rfl, ?_, ?_⟩
  · intro j
    by_cases hjk : j = k
    · simp [hjk]
    · simpa [Function.update_of_ne hjk] using h.others j hjk
  · have habout : (ledger es).about k ((inst k).ack timestamp) = some m := h.last
    rw [ledger_snoc, Ledger.record, hempty, habout, List.nil_append]

/-- A child that finds nothing asks for the other kind of message next. -/
theorem HasSent.next (h : HasSent inst es s k timestamp m) {stage : Stage}
    (hstage : stage = .chat ∨ stage = .ack)
    (hstep : Step inst s (.internal j) (s.receive j s.queue stage)) :
    HasSent inst (es ++ [.internal j]) (s.receive j s.queue stage) k timestamp m := by
  refine ⟨h.run.snoc hstep, h.queue, ?_, by rw [ledger_snoc]; exact h.entry⟩
  intro i
  by_cases hij : i = j
  · simpa [hij] using hstage
  · simpa [Function.update_of_ne hij] using h.waits i

/-- Another instance asks for a chat in the meantime. -/
theorem HasSent.asksChat (h : HasSent inst es s k timestamp m)
    (hnot : ¬ Takes (ackType (inst j).userId) (ackType (inst k).receiverId)) :
    ∃ es s, HasSent inst es s k timestamp m ∧ s.receiver j = .chat := by
  rcases h.waits j with hj | hj
  · exact ⟨es, s, h, hj⟩
  · have hnone : msgrcv s.queue (ackType (inst j).userId) = none := by
      rw [h.queue]
      exact msgrcv_singleton_none (ackType_ne_zero _) hnot
    exact ⟨_, _, h.next (.inl rfl) (.noAck hj hnone), by simp⟩

/-- Or for an acknowledgement. -/
theorem HasSent.asksAck (h : HasSent inst es s k timestamp m)
    (hne : (inst j).userId.val ≠ ackType (inst k).receiverId) :
    ∃ es s, HasSent inst es s k timestamp m ∧ s.receiver j = .ack := by
  rcases h.waits j with hj | hj
  · have hnone : msgrcv s.queue (inst j).userId.val = none := by
      rw [h.queue]
      apply msgrcv_singleton_none (inst j).userId.pos.ne'
      rintro (htype | ⟨hneg, -⟩)
      · exact hne htype.symm
      · exact absurd (inst j).userId.pos hneg.not_gt
    exact ⟨_, _, h.next (.inr rfl) (.noChat hj hnone), by simp⟩
  · exact ⟨es, s, h, hj⟩

/-- What a child can come to read, it reads in some run. -/
theorem exists_hasRead (hchat : ∀ a b, ¬ Takes (ackType (inst b).userId) (inst a).receiverId.val)
    (h : Reads inst k m) : ∃ es s, HasRead inst es s k m := by
  induction h with
  | @chat k c hid line hline hquit =>
      let s₁ : State ι := { State.init with queue := [(inst c).chat line] }
      have hsend : Step inst State.init (.sent c ((inst c).chat line)) s₁ :=
        .send rfl hline hquit (if_pos (inst c).receiverId.pos)
      have htake : msgrcv s₁.queue (inst k).userId.val = some ((inst c).chat line, []) :=
        msgrcv_singleton (inst k).userId.pos.ne' (.inl (congrArg Id.val hid)) (inst c).receiverId.pos
      have hgot : Step inst s₁ (.gotChat k ((inst c).chat line)) (s₁.receive k [] .sendAck) :=
        .gotChat rfl htake
      refine ⟨_, _, (Run.nil.snoc hsend).snoc hgot, rfl, by simp, ?_, ?_⟩
      · intro j hj
        exact .inl (by simp [s₁, State.init, Function.update_of_ne hj])
      · rw [ledger_snoc]
        exact Function.update_self ..
  | @ack k a m ha hack timestamp ih =>
      obtain ⟨es, s, hread⟩ := ih
      have hpos : 0 < ackType (inst a).receiverId := hack ▸ (inst k).userId.pos
      obtain ⟨s₁, hsent⟩ := hread.send hpos timestamp
      have hnot : ¬ Takes (ackType (inst k).userId) (ackType (inst a).receiverId) := by
        intro htakes
        rcases takes_of_takes_ackType hpos htakes with hid | hchats
        · rw [← hid] at hack
          exact val_ne_ackType _ hack
        · exact hchat a k hchats
      obtain ⟨es₂, s₂, hsent, hstage⟩ := hsent.asksChat hnot
      have htake : msgrcv s₂.queue (inst k).userId.val = some ((inst a).ack timestamp, []) := by
        rw [hsent.queue]
        exact msgrcv_singleton (inst k).userId.pos.ne' (.inl hack.symm) hpos
      refine ⟨_, _, hsent.run.snoc (.gotChat hstage htake), rfl, by simp, ?_, ?_⟩
      · intro j hj
        simpa [Function.update_of_ne hj] using hsent.waits j
      · rw [ledger_snoc]
        exact Function.update_self ..

/-- If every acknowledgement is a receipt the instances talk to each other. -/
theorem mutual_of_receipts
    (hall : ∀ es s, Run (Step inst) State.init es s → Receipts inst es) : Mutual inst := by
  have hchat : ∀ a b, ¬ Takes (ackType (inst b).userId) (inst a).receiverId.val := by
    intro a b htakes
    obtain ⟨es, s, hrun, hmem⟩ := exists_chat_taken htakes
    obtain ⟨pre, post, rfl⟩ := List.append_of_mem hmem
    obtain ⟨read, hreported, -⟩ := hall _ s hrun pre _ post rfl
    obtain ⟨s₁, s₂, hpre, hstep, -⟩ := hrun.split
    rcases hstep with _ | _ | _ | _ | _ | _ | _ | ⟨hstage, hrcv⟩ | _
    obtain ⟨read', hentry, hreported', -⟩ := (run_recorded hpre).msgrcv hrcv
    obtain rfl : read' = some read := hreported'.symm.trans hreported
    obtain ⟨timestamp, hbody⟩ := hentry.body_ack
    cases hbody
  refine ⟨hchat, ?_, ?_⟩
  · intro a k hid hpos
    have hreads : Reads inst k ((inst a).chat hello) := .chat hid (by decide) (by decide)
    obtain ⟨es, s, hread⟩ := exists_hasRead hchat hreads
    obtain ⟨s₁, hsent⟩ := hread.send hpos []
    exact ackType_inj (hall _ s₁ hsent.run es _ [] rfl _ _ hread.last ⟨hello, rfl⟩)
  · intro k a timestamp hreads hpos j hid
    obtain ⟨es, s, hread⟩ := exists_hasRead hchat hreads
    obtain ⟨s₁, hsent⟩ := hread.send hpos []
    have hne : (inst j).userId.val ≠ ackType (inst k).receiverId := by
      rw [← hid]
      exact val_ne_ackType _
    obtain ⟨es₂, s₂, hsent, hstage⟩ := hsent.asksAck hne
    have htake : msgrcv s₂.queue (ackType (inst j).userId) = some ((inst k).ack [], []) := by
      rw [hsent.queue]
      exact msgrcv_singleton (ackType_ne_zero _) (.inl (congrArg ackType hid.symm)) hpos
    obtain ⟨read, hreported, text, hbody⟩ :=
      hall _ _ (hsent.run.snoc (.gotAck hstage htake)) es₂ _ [] rfl
    rw [Ledger.reported, hsent.entry] at hreported
    obtain rfl : (inst a).ack timestamp = read := by simpa using hreported
    cases hbody

end astray

/-- **Every receipt of every run reaches the sender of the chat, and is about a chat of the user that
receives it, if and only if the ids are mutual.** -/
theorem receipts_iff [DecidableEq ι] (inst : ι → Instance) :
    (∀ es s, Run (Step inst) State.init es s → Receipts inst es) ↔ Mutual inst :=
  ⟨mutual_of_receipts, fun hmutual _ _ hrun => receipts_of_mutual hmutual hrun⟩

/-- User 1 writes to user 2, user 2 to user 3, and user 3 to user 1. -/
def oneTwoThree : Fin 3 → Instance :=
  ![⟨⟨1, Int.zero_lt_one, one_le_intMax⟩, ⟨2, by decide, by decide⟩⟩,
    ⟨⟨2, by decide, by decide⟩, ⟨3, by decide, by decide⟩⟩,
    ⟨⟨3, by decide, by decide⟩, ⟨1, Int.zero_lt_one, one_le_intMax⟩⟩]

/-- User 2 reads a chat of user 1 and acknowledges it, and user 3 receives the acknowledgement. -/
def toThree : List (Event (Fin 3)) :=
  [.sent 0 ((oneTwoThree 0).chat hello), .gotChat 1 ((oneTwoThree 0).chat hello),
    .sent 1 ((oneTwoThree 1).ack []), .internal 2, .gotAck 2 ((oneTwoThree 1).ack [])]

/-- **User 3 is told that a message was read, which is a message of user 1.** -/
theorem not_receipts : ∃ s, Run (Step oneTwoThree) State.init toThree s ∧
    ¬ Receipts oneTwoThree toThree := by
  obtain ⟨s, hrun⟩ : ∃ s, Run (Step oneTwoThree) State.init toThree s :=
    exists_run_of_exec (step_sound oneTwoThree)
      [.send 0 hello, .receive 1 [], .receive 1 [], .receive 2 [], .receive 2 []] (by decide)
  refine ⟨s, hrun, ?_⟩
  intro hreceipts
  obtain ⟨read, hreported, text, hbody⟩ := hreceipts (toThree.take 4) _ [] rfl
  have hread : (ledger (toThree.take 4)).reported ((oneTwoThree 1).ack []) =
      some ((oneTwoThree 0).chat hello) := by decide
  obtain rfl := Option.some.inj (hread.symm.trans hreported)
  cases hbody

end SystemProgrammingLab.Week10
