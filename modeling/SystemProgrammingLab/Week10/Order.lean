import SystemProgrammingLab.Week10.Channels

/-!
# Nothing is lost or read twice

Whatever the ids are, the queue is first in, first out for each type: the messages of a type that were
sent are those that were received, in this order, and those that are still in the queue (`run_fifo`).

Where chats and acknowledgements are separate and the instances have users of their own, a type is one
branch of one instance. So the chats that an instance has read are the first ones of those that were sent
to its user, each with what `msgsnd` copies of a line, and so are the acknowledgements; and an instance has
acknowledged every chat that it has read, but the last one it may be about to (`conversation`).

Source: `week10/main.c`
-/

namespace SystemProgrammingLab.Week10

open SystemProgrammingLab.Found

variable {ι : Type*}

/-! ## The types of the queue -/

/-- The message that the event sends. -/
def Event.sent? : Event ι → Option Message
  | .sent _ m => some m
  | _ => none

/-- The message that the event receives. -/
def Event.got? : Event ι → Option Message
  | .gotChat _ m | .gotAck _ m => some m
  | _ => none

/-- The messages of one type. -/
def ofType (t : Int) (ms : List Message) : List Message := ms.filter fun m => m.msgtype = t

/-- The messages of each type that were sent are those that were received and those in the queue. -/
def Fifo (es : List (Event ι)) (s : State ι) : Prop :=
  ∀ t, ofType t (es.filterMap Event.sent?) = ofType t (es.filterMap Event.got?) ++ ofType t s.queue

section fifo

variable {inst : ι → Instance} {s s' : State ι} {es : List (Event ι)} {e : Event ι}

/-- The messages of a type, behind others. -/
theorem ofType_append (t : Int) (ms ms' : List Message) :
    ofType t (ms ++ ms') = ofType t ms ++ ofType t ms' := List.filter_append _ _

/-- The message that is received is the first one of its type. -/
theorem ofType_msgrcv {queue rest : List Message} {msgtyp : Int} {m : Message}
    (h : msgrcv queue msgtyp = some (m, rest)) (t : Int) :
    ofType t queue = ofType t [m] ++ ofType t rest := by
  simp only [msgrcv, Option.bind_eq_bind, Option.bind_eq_some_iff, Option.pure_def,
    Option.some.injEq, Prod.mk.injEq] at h
  obtain ⟨t', -, m', hfind, rfl, rfl⟩ := h
  obtain ⟨htype, front, back, rfl, hfront⟩ := List.find?_eq_some_iff_append.mp hfind
  have htype : m'.msgtype = t' := of_decide_eq_true htype
  have hne : ∀ x ∈ front, x.msgtype ≠ t' := fun x hx => by simpa using hfront x hx
  have herase : (front ++ m' :: back).eraseP (fun m => m.msgtype = t') = front ++ back := by
    rw [List.eraseP_append_right _ fun x hx => by simpa using hne x hx]
    simp [htype]
  rw [herase, List.append_cons, ofType_append, ofType_append, ofType_append]
  by_cases ht : t' = t
  · have hnil : ofType t front = [] :=
      List.filter_eq_nil_iff.mpr fun x hx => by simpa [← ht] using hne x hx
    rw [hnil, List.nil_append, List.nil_append]
  · have hnil : ofType t [m'] = [] := by
      simp [ofType, htype, ht]
    rw [hnil, List.append_nil, List.nil_append]

/-- A message that is sent goes to the end. -/
theorem Fifo.sent (h : Fifo es s) (k : ι) {m : Message} {queue : List Message}
    (hsnd : msgsnd s.queue m = some queue) (hqueue : s'.queue = queue) :
    Fifo (es ++ [.sent k m]) s' := by
  obtain ⟨-, rfl⟩ := msgsnd_eq hsnd
  intro t
  simp only [List.filterMap_append, List.filterMap_cons, List.filterMap_nil, Event.sent?, Event.got?,
    List.append_nil, hqueue, ofType_append]
  rw [h t, List.append_assoc]

/-- The message that is read is the first one of its type. -/
theorem Fifo.got (h : Fifo es s) {m : Message} (hsent : e.sent? = none) (hgot : e.got? = some m)
    {msgtyp : Int} {queue : List Message} (hrcv : msgrcv s.queue msgtyp = some (m, queue))
    (hqueue : s'.queue = queue) : Fifo (es ++ [e]) s' := by
  intro t
  simp only [List.filterMap_append, List.filterMap_cons, List.filterMap_nil, hsent, hgot,
    List.append_nil, hqueue, ofType_append]
  rw [h t, ofType_msgrcv hrcv t, List.append_assoc]

/-- A step that leaves the queue as it is. -/
theorem Fifo.internal (h : Fifo es s) (k : ι) (hqueue : s'.queue = s.queue) :
    Fifo (es ++ [.internal k]) s' := by
  intro t
  simp only [List.filterMap_append, List.filterMap_cons, List.filterMap_nil, Event.sent?, Event.got?,
    List.append_nil, hqueue]
  exact h t

variable [DecidableEq ι]

/-- Every step keeps the order. -/
theorem Step.inOrder (hstep : Step inst s e s') (h : Fifo es s) : Fifo (es ++ [e]) s' := by
  cases hstep with
  | send hsending hline hquit hsnd => exact h.sent _ hsnd rfl
  | sendAck hstage hsnd => exact h.sent _ hsnd rfl
  | gotChat hstage hrcv => exact h.got rfl rfl hrcv rfl
  | gotAck hstage hrcv => exact h.got rfl rfl hrcv rfl
  | sendError | quit | noChat | ackError | noAck => exact h.internal _ rfl

/-- **For each type, the queue is first in, first out**, and nothing is lost or received twice. -/
theorem run_fifo (h : Run (Step inst) State.init es s) : Fifo es s :=
  h.history Fifo (fun _ _ _ _ hs hstep => hstep.inOrder hs) fun _ => rfl

end fifo

/-! ## Who is sent what -/

/-- The message is a chat. -/
def Body.chat? : Body → Bool
  | .chat _ _ => true
  | .ack _ => false

variable [DecidableEq ι]

/-- The chats that were sent to a user. -/
def chatsTo (id : Id) (es : List (Event ι)) : List Message :=
  (es.filterMap Event.sent?).filter fun m => m.body.chat? ∧ m.addressee = id

/-- The acknowledgements that were sent to a user. -/
def acksTo (id : Id) (es : List (Event ι)) : List Message :=
  (es.filterMap Event.sent?).filter fun m => ¬ m.body.chat? ∧ m.addressee = id

/-- The chat that the event reads. -/
def Event.chat? (k : ι) : Event ι → Option Message
  | .gotChat j m => if j = k then some m else none
  | _ => none

/-- The acknowledgement that the event reads. -/
def Event.ack? (k : ι) : Event ι → Option Message
  | .gotAck j m => if j = k then some m else none
  | _ => none

/-- The event is an acknowledgement that the instance sends. -/
def Event.acks (k : ι) : Event ι → Bool
  | .sent j m => j = k && !m.body.chat?
  | _ => false

/-- The chats that the instance has read. -/
def chatsRead (k : ι) (es : List (Event ι)) : List Message := es.filterMap (Event.chat? k)

/-- The acknowledgements that the instance has read. -/
def acksRead (k : ι) (es : List (Event ι)) : List Message := es.filterMap (Event.ack? k)

section conversation

variable {inst : ι → Instance} {s s' : State ι} {es : List (Event ι)} {e : Event ι} {k : ι} {m : Message}

/-- A message that is sent is genuine, and one that is received comes to its branch. -/
def Typed (inst : ι → Instance) : Event ι → Prop
  | .sent _ m => Genuine inst m
  | .gotChat k m => Genuine inst m ∧ m.msgtype = (inst k).userId.val
  | .gotAck k m => Genuine inst m ∧ Apart inst (.gotAck k m)
  | .internal _ => True

/-- An instance sends and reads messages of its types. -/
theorem Step.typed (hstep : Step inst s e s') (hsep : Separate inst) (hs : Sound inst s) :
    Typed inst e := by
  have hapart := (hstep.sound hsep hs).2
  cases hstep with
  | @send k line => exact .chat k line
  | @sendAck k timestamp queue hstage hsnd =>
      obtain ⟨c, hc⟩ := hs.sendAck k hstage
      exact .ack k c timestamp hc (msgsnd_eq hsnd).1
  | @gotChat k m queue hstage hrcv =>
      have hpos := (inst k).userId.pos
      obtain ⟨hmem, htakes, -⟩ := msgrcv_takes hpos.ne' hrcv
      refine ⟨hs.queue m hmem, ?_⟩
      rcases htakes with htype | ⟨hneg, -⟩
      · exact htype
      · omega
  | gotAck hstage hrcv =>
      exact ⟨hs.queue _ (msgrcv_takes (ackType_ne_zero _) hrcv).1, hapart⟩
  | sendError | quit | noChat | ackError | noAck => trivial

/-- So it is in every run. -/
theorem run_typed (h : Run (Step inst) State.init es s) (hsep : Separate inst) :
    ∀ e ∈ es, Typed inst e := by
  have hinv : Sound inst s ∧ ∀ e ∈ es, Typed inst e := by
    refine h.history (fun es s => Sound inst s ∧ ∀ e ∈ es, Typed inst e) ?_
      ⟨sound_init, fun _ he => absurd he List.not_mem_nil⟩
    rintro es s e s' ⟨hs, hes⟩ hstep
    refine ⟨(hstep.sound hsep hs).1, fun x hx => ?_⟩
    rcases List.mem_append.mp hx with hx | hx
    · exact hes x hx
    · rw [List.mem_singleton.mp hx]
      exact hstep.typed hsep hs
  exact hinv.2

omit [DecidableEq ι] in
/-- The type of a chat branch is that of the chats to its user. -/
theorem Genuine.chat_iff (hm : Genuine inst m) (hsep : Separate inst) (k : ι) :
    m.msgtype = (inst k).userId.val ↔ m.body.chat? ∧ m.addressee = (inst k).userId := by
  cases hm with
  | chat a line =>
      have hid : (inst a).receiverId.val = (inst k).userId.val ↔ (inst a).receiverId = (inst k).userId :=
        Id.val_injective.eq_iff
      exact hid.trans (iff_and_self.mpr fun _ => rfl)
  | ack a c timestamp hchat hpos =>
      refine iff_of_false (fun htype => ?_) fun h => absurd h.1 nofun
      exact hsep.ack a k c hchat htype.symm

omit [DecidableEq ι] in
/-- The type of an acknowledgement branch is that of the acknowledgements to its user. -/
theorem Genuine.ack_iff (hm : Genuine inst m) (hsep : Separate inst) (k : ι) :
    m.msgtype = ackType (inst k).userId ↔ ¬ m.body.chat? ∧ m.addressee = (inst k).userId := by
  cases hm with
  | chat a line =>
      refine iff_of_false (fun htype => ?_) fun h => absurd rfl h.1
      exact hsep.chat a k (.inl htype)
  | ack a c timestamp hchat hpos =>
      constructor
      · exact fun htype => ⟨nofun, ackType_inj htype⟩
      · exact fun h => congrArg ackType h.2

omit [DecidableEq ι] in
/-- What was sent is a chat or an acknowledgement of an instance. -/
theorem mem_sent_genuine (htyped : ∀ e ∈ es, Typed inst e) (hm : m ∈ es.filterMap Event.sent?) :
    Genuine inst m := by
  obtain ⟨e, he, hsent⟩ := List.mem_filterMap.mp hm
  have htype := htyped e he
  cases e with
  | sent j m' =>
      cases hsent
      exact htype
  | _ => cases hsent

/-- The messages with the type of a chat branch are the chats. -/
theorem chats_eq (htyped : ∀ e ∈ es, Typed inst e) (hsep : Separate inst)
    (huser : Function.Injective fun k => (inst k).userId) (k : ι) :
    ofType (inst k).userId.val (es.filterMap Event.sent?) = chatsTo (inst k).userId es ∧
      ofType (inst k).userId.val (es.filterMap Event.got?) = chatsRead k es := by
  constructor
  · refine List.filter_congr fun m hm => decide_eq_decide.mpr ?_
    exact (mem_sent_genuine htyped hm).chat_iff hsep k
  · rw [ofType, List.filter_filterMap]
    refine List.filterMap_congr fun e he => ?_
    have htype := htyped e he
    cases e with
    | sent | internal => rfl
    | gotChat j m =>
        obtain ⟨-, hj⟩ := htype
        have hjk : (inst j).userId.val = (inst k).userId.val ↔ j = k :=
          Id.val_injective.eq_iff.trans huser.eq_iff
        by_cases heq : j = k <;> simp [Event.got?, Event.chat?, hj, hjk, heq]
    | gotAck j m =>
        obtain ⟨hm, ⟨timestamp, hbody⟩, -⟩ := htype
        have hne : m.msgtype ≠ (inst k).userId.val := by
          rw [ne_eq, hm.chat_iff hsep k, hbody]
          exact fun h => absurd h.1 nofun
        simp [Event.got?, Event.chat?, hne]

/-- The messages with the type of an acknowledgement branch are the acknowledgements. -/
theorem acks_eq (htyped : ∀ e ∈ es, Typed inst e) (hsep : Separate inst)
    (huser : Function.Injective fun k => (inst k).userId) (k : ι) :
    ofType (ackType (inst k).userId) (es.filterMap Event.sent?) = acksTo (inst k).userId es ∧
      ofType (ackType (inst k).userId) (es.filterMap Event.got?) = acksRead k es := by
  constructor
  · refine List.filter_congr fun m hm => decide_eq_decide.mpr ?_
    exact (mem_sent_genuine htyped hm).ack_iff hsep k
  · rw [ofType, List.filter_filterMap]
    refine List.filterMap_congr fun e he => ?_
    have htype := htyped e he
    cases e with
    | sent | internal => rfl
    | gotChat j m =>
        obtain ⟨hm, hj⟩ := htype
        have hne : m.msgtype ≠ ackType (inst k).userId := by
          rw [ne_eq, hm.ack_iff hsep k]
          exact fun h => h.1 ((hm.chat_iff hsep j).mp hj).1
        simp [Event.got?, Event.ack?, hne]
    | gotAck j m =>
        obtain ⟨hm, ⟨timestamp, hbody⟩, hj⟩ := htype
        have hjk : m.msgtype = ackType (inst k).userId ↔ j = k := by
          rw [hm.ack_iff hsep k, hbody, hj, huser.eq_iff]
          exact and_iff_right nofun
        by_cases heq : j = k <;> simp [Event.got?, Event.ack?, hjk, heq]

omit [DecidableEq ι] in
/-- A chat that was sent to a user is what some instance sends of a line. -/
theorem exists_line (htyped : ∀ e ∈ es, Typed inst e) (hm : m ∈ chatsTo (inst k).userId es) :
    ∃ a line, (inst a).receiverId = (inst k).userId ∧ m = (inst a).chat line := by
  obtain ⟨hsent, hchat⟩ := List.mem_filter.mp hm
  obtain ⟨hchat, haddressee⟩ := of_decide_eq_true hchat
  cases mem_sent_genuine htyped hsent with
  | chat a line => exact ⟨a, line, haddressee, rfl⟩
  | ack => cases hchat

/-- How many chats an instance in this stage has read, and how many it has acknowledged. -/
def Stage.Owes : Stage → Nat → Nat → Prop
  | .sendAck, read, acked => read = acked + 1
  | .chat, read, acked | .ack, read, acked => read = acked
  | .ended, read, acked => acked ≤ read ∧ read ≤ acked + 1

/-- Each instance has acknowledged the chats that it has read, but the one that it is about to. -/
def Owed (es : List (Event ι)) (s : State ι) : Prop :=
  ∀ k, (s.receiver k).Owes (chatsRead k es).length (es.countP (Event.acks k))

/-- At most the last chat is not acknowledged. -/
theorem Stage.Owes.ended {stage : Stage} {read acked : Nat} (h : stage.Owes read acked) :
    acked ≤ read ∧ read ≤ acked + 1 := by
  cases stage <;> simp only [Stage.Owes] at h <;> omega

/-- The chats that were read, one event later. -/
theorem chatsRead_snoc (k : ι) (es : List (Event ι)) (e : Event ι) :
    chatsRead k (es ++ [e]) = chatsRead k es ++ (e.chat? k).toList := by
  unfold chatsRead
  rw [List.filterMap_append]
  cases h : e.chat? k <;> simp [h]

/-- One instance goes on, with its chats and acknowledgements. -/
theorem Owed.set (h : Owed es s) (k : ι) {stage : Stage} (hs' : s'.receiver = Function.update s.receiver k stage)
    (hchat : ∀ j, j ≠ k → e.chat? j = none) (hacks : ∀ j, j ≠ k → e.acks j = false)
    (hk : (s.receiver k).Owes (chatsRead k es).length (es.countP (Event.acks k)) →
      stage.Owes ((chatsRead k es).length + (e.chat? k).toList.length)
        (es.countP (Event.acks k) + if e.acks k then 1 else 0)) : Owed (es ++ [e]) s' := by
  intro j
  rw [chatsRead_snoc, List.length_append, List.countP_append, List.countP_singleton, hs']
  by_cases hj : j = k
  · subst hj
    rw [Function.update_self]
    exact hk (h j)
  · rw [Function.update_of_ne hj, hchat j hj, hacks j hj]
    exact h j

/-- Every step keeps count of what is to be acknowledged. -/
theorem Step.owed (hstep : Step inst s e s') (h : Owed es s) : Owed (es ++ [e]) s' := by
  have hsame : ∀ k, s.receiver = Function.update s.receiver k (s.receiver k) :=
    fun k => (Function.update_eq_self k s.receiver).symm
  cases hstep with
  | @send k line queue hsending hline hquit hsnd =>
      refine h.set k (hsame k) (fun _ _ => rfl) (fun j _ => ?_) ?_
      · simp [Event.acks, Instance.chat, Body.chat?]
      · simp [Event.acks, Event.chat?, Instance.chat, Body.chat?]
  | @sendError k => exact h.set k (hsame k) (fun _ _ => rfl) (fun _ _ => rfl) id
  | @quit k => exact h.set k rfl (fun _ _ => rfl) (fun _ _ => rfl) Stage.Owes.ended
  | @gotChat k m queue hstage hrcv =>
      refine h.set k rfl (fun j hj => if_neg (Ne.symm hj)) (fun _ _ => rfl) ?_
      simp [hstage, Event.chat?, Event.acks, Stage.Owes]
  | @noChat k hstage hrcv | @noAck k hstage hrcv =>
      refine h.set k rfl (fun _ _ => rfl) (fun _ _ => rfl) ?_
      simp [hstage, Event.chat?, Event.acks, Stage.Owes]
  | @sendAck k timestamp queue hstage hsnd =>
      refine h.set k rfl (fun _ _ => rfl) (fun j hj => ?_) ?_
      · simp [Event.acks, Ne.symm hj]
      · simp [hstage, Event.chat?, Event.acks, Stage.Owes, Instance.ack, Body.chat?]
  | @ackError k timestamp hstage hsnd =>
      exact h.set k rfl (fun _ _ => rfl) (fun _ _ => rfl) Stage.Owes.ended
  | @gotAck k m queue hstage hrcv =>
      refine h.set k rfl (fun _ _ => rfl) (fun _ _ => rfl) ?_
      simp [hstage, Event.chat?, Event.acks, Stage.Owes]

/-- **A conversation between separate users is kept in order.** The chats that an instance has read are the
first ones of the chats that were sent to its user, each with the first bytes of a line, and so are the
acknowledgements; it has acknowledged each of these chats once, but the last one it may be about to. -/
theorem conversation (h : Run (Step inst) State.init es s) (hsep : Separate inst)
    (huser : Function.Injective fun k => (inst k).userId) (k : ι) :
    chatsRead k es <+: chatsTo (inst k).userId es ∧
      (∀ m ∈ chatsTo (inst k).userId es, ∃ a line,
        (inst a).receiverId = (inst k).userId ∧ m = (inst a).chat line) ∧
      acksRead k es <+: acksTo (inst k).userId es ∧
      es.countP (Event.acks k) ≤ (chatsRead k es).length ∧
      (chatsRead k es).length ≤ es.countP (Event.acks k) + 1 := by
  have htyped := run_typed h hsep
  have hfifo := run_fifo h
  have howed : Owed es s := h.history Owed (fun _ _ _ _ howed hstep => hstep.owed howed) fun _ => rfl
  obtain ⟨hchats, hread⟩ := chats_eq htyped hsep huser k
  obtain ⟨hacks, hacked⟩ := acks_eq htyped hsep huser k
  refine ⟨?_, fun m hm => exists_line htyped hm, ?_, (howed k).ended⟩
  · rw [← hchats, ← hread, hfifo]
    exact List.prefix_append _ _
  · rw [← hacks, ← hacked, hfifo]
    exact List.prefix_append _ _

/-- Users 1 and 2 talk to each other. -/
def oneAndTwo (k : Bool) : Instance :=
  let one : Id := ⟨1, Int.zero_lt_one, one_le_intMax⟩
  let two : Id := ⟨2, Id.two_pos, two_le_intMax⟩
  ⟨cond k two one, cond k one two⟩

/-- User 1 sends two chats, user 2 reads and acknowledges the first one, and user 1 is told. -/
def twoChats : List (Event Bool) :=
  [.sent false ((oneAndTwo false).chat hello), .sent false ((oneAndTwo false).chat []),
    .gotChat true ((oneAndTwo false).chat hello), .sent true ((oneAndTwo true).ack []), .internal false,
    .gotAck false ((oneAndTwo true).ack [])]

/-- In this run user 2 has read the first one of two chats. -/
theorem conversation_twoChats : ∃ s, Run (Step oneAndTwo) State.init twoChats s ∧
    chatsRead true twoChats <+: chatsTo (oneAndTwo true).userId twoChats ∧
      (∀ m ∈ chatsTo (oneAndTwo true).userId twoChats, ∃ a line,
        (oneAndTwo a).receiverId = (oneAndTwo true).userId ∧ m = (oneAndTwo a).chat line) ∧
      acksRead true twoChats <+: acksTo (oneAndTwo true).userId twoChats ∧
      twoChats.countP (Event.acks true) ≤ (chatsRead true twoChats).length ∧
      (chatsRead true twoChats).length ≤ twoChats.countP (Event.acks true) + 1 := by
  have hrun : ∃ s, Run (Step oneAndTwo) State.init twoChats s :=
    exists_run_of_exec (step_sound oneAndTwo)
      [.send false hello, .send false [], .receive true [], .receive true [], .receive false [],
        .receive false []] (by decide)
  obtain ⟨s, hrun⟩ := hrun
  have hsep : Separate oneAndTwo := ⟨by unfold Takes; decide, by decide⟩
  have huser : Function.Injective fun k => (oneAndTwo k).userId := by
    unfold Function.Injective
    decide
  exact ⟨s, hrun, conversation hrun hsep huser true⟩

end conversation

end SystemProgrammingLab.Week10
