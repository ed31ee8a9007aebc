import SystemProgrammingLab.Week10.Messenger
import Mathlib.Data.Fin.VecNotation

/-!
# Chats and acknowledgements share one queue

A chat to user `r` has the type `r`, and an acknowledgement to user `u` the type `T_MSG + u`: the chats
to user `T_MSG + u` look like the acknowledgements to user `u`. For which instances this matters is
decided by their ids alone. No message is taken by a branch it was not sent to, in any run, if and only
if the ids are `Separate` (`apart_iff`).

Source: `week10/main.c`
-/

namespace SystemProgrammingLab.Week10

open SystemProgrammingLab.Found

/-! ## What a branch can take -/

/-- A call of `msgrcv` for `msgtyp` can return a message of type `t`. -/
def Takes (msgtyp t : Int) : Prop := t = msgtyp ∨ (msgtyp < 0 ∧ t ≤ -msgtyp)

/-- An id is its number. -/
theorem Id.val_injective : Function.Injective Id.val := by
  rintro ⟨_, _, _⟩ ⟨_, _, _⟩ rfl
  rfl

/-- The sum `T_MSG + id` fits, or it wraps around to a negative number. -/
theorem ackType_cases (id : Id) :
    (ackType id = tMsg + id.val ∧ id.val ≤ intMax - tMsg) ∨
      (ackType id = tMsg + id.val - 4294967296 ∧ intMax - tMsg < id.val) := by
  have hpos := id.pos
  have hle := id.le
  unfold ackType
  rw [Int.bmod_def]
  split_ifs with h <;> simp only [tMsg, intMax] at * <;> omega

/-- The type of an acknowledgement is not 0. -/
theorem ackType_ne_zero (id : Id) : ackType id ≠ 0 := by
  have hpos := id.pos
  have hle := id.le
  rcases ackType_cases id with ⟨h, -⟩ | ⟨h, -⟩ <;> rw [h] <;> simp only [tMsg, intMax] at hle ⊢ <;>
    omega

/-- Different users have different types. -/
theorem ackType_inj {id id' : Id} (h : ackType id = ackType id') : id = id' := by
  have hle := id.le
  have hle' := id'.le
  have hpos := id.pos
  have hpos' := id'.pos
  apply Id.val_injective
  rcases ackType_cases id with ⟨h₁, -⟩ | ⟨h₁, -⟩ <;>
    rcases ackType_cases id' with ⟨h₂, -⟩ | ⟨h₂, -⟩ <;> rw [h₁, h₂] at h <;>
    simp only [tMsg, intMax] at hle hle' h <;> omega

/-- The id of a user is not the type of the acknowledgements to that user. -/
theorem val_ne_ackType (id : Id) : id.val ≠ ackType id := by
  rcases ackType_cases id with ⟨h, -⟩ | ⟨h, -⟩ <;> rw [h] <;> simp only [tMsg] <;> omega

/-- A branch that can take the acknowledgements to another user can take the chats to that user. -/
theorem takes_of_takes_ackType {id id' : Id} (hpos : 0 < ackType id')
    (h : Takes (ackType id) (ackType id')) : id = id' ∨ Takes (ackType id) id'.val := by
  rcases h with htype | ⟨hneg, hle⟩
  · exact .inl (ackType_inj htype).symm
  · refine .inr (.inr ⟨hneg, ?_⟩)
    have hu := id.le
    have hr := id'.le
    rcases ackType_cases id with ⟨h₁, -⟩ | ⟨h₁, -⟩ <;>
      rcases ackType_cases id' with ⟨h₂, -⟩ | ⟨h₂, -⟩ <;>
      simp only [tMsg, intMax] at * <;> omega

/-- A message that is received was in the queue, and its type is one the call can return. -/
theorem msgrcv_takes {queue rest : List Message} {msgtyp : Int} {m : Message} (hne : msgtyp ≠ 0)
    (h : msgrcv queue msgtyp = some (m, rest)) :
    m ∈ queue ∧ Takes msgtyp m.msgtype ∧ rest ⊆ queue := by
  simp only [msgrcv, Option.bind_eq_bind, Option.bind_eq_some_iff, Option.pure_def,
    Option.some.injEq, Prod.mk.injEq] at h
  obtain ⟨t, ht, m', hfind, rfl, rfl⟩ := h
  have htype : m'.msgtype = t := by simpa using List.find?_some hfind
  refine ⟨List.mem_of_find?_eq_some hfind, ?_, List.eraseP_subset⟩
  unfold wanted at ht
  split_ifs at ht with hpos
  · exact .inl (htype.trans (Option.some.inj ht).symm)
  · have hmem := List.mem_filter.mp (List.min?_mem ht)
    exact .inr ⟨by omega, htype ▸ of_decide_eq_true hmem.2⟩

/-- The only message of the queue is received by a call that can return it. -/
theorem msgrcv_singleton {m : Message} {msgtyp : Int} (hne : msgtyp ≠ 0)
    (h : Takes msgtyp m.msgtype) (hpos : 0 < m.msgtype) : msgrcv [m] msgtyp = some (m, []) := by
  have hwanted : wanted [m] msgtyp = some m.msgtype := by
    unfold wanted
    rcases h with htype | ⟨hneg, hle⟩
    · rw [if_pos (htype ▸ hpos), htype]
    · rw [if_neg (by omega), if_neg hne]
      simp [hle]
  simp [msgrcv, hwanted]

/-- Nothing is read from an empty queue. -/
theorem msgrcv_nil {msgtyp : Int} : msgrcv [] msgtyp = none := by
  unfold msgrcv
  cases wanted [] msgtyp <;> rfl

/-! ## The two channels -/

variable {ι : Type*}

/-- A message that is received in the event was sent to that branch of an instance of that user. -/
def Apart (inst : ι → Instance) : Event ι → Prop
  | .gotChat k m => (∃ sender text, m.body = .chat sender text) ∧ m.addressee = (inst k).userId
  | .gotAck k m => (∃ timestamp, m.body = .ack timestamp) ∧ m.addressee = (inst k).userId
  | .sent _ _ | .internal _ => True

/-- No instance sends chats that an acknowledgement branch can take, and no instance that is sent
chats acknowledges them with the type of the chats to some user. -/
structure Separate (inst : ι → Instance) : Prop where
  chat : ∀ a b, ¬ Takes (ackType (inst b).userId) (inst a).receiverId.val
  ack : ∀ a b c, (inst c).receiverId = (inst a).userId →
    (inst b).userId.val ≠ ackType (inst a).receiverId

/-- A message as some instance sends it; an acknowledgement is sent by an instance that somebody sends
chats to. -/
inductive Genuine (inst : ι → Instance) : Message → Prop
  | chat (a : ι) (line : List Char) : Genuine inst ((inst a).chat line)
  | ack (a c : ι) (timestamp : List Char) (hchat : (inst c).receiverId = (inst a).userId)
      (hpos : 0 < ackType (inst a).receiverId) : Genuine inst ((inst a).ack timestamp)

/-- The messages in the queue are genuine, and who acknowledges was sent a chat. -/
structure Sound (inst : ι → Instance) (s : State ι) : Prop where
  queue : ∀ m ∈ s.queue, Genuine inst m
  sendAck : ∀ k, s.receiver k = .sendAck → ∃ c, (inst c).receiverId = (inst k).userId

section sound

variable {inst : ι → Instance} {s s' : State ι} {e : Event ι}

/-- The empty queue has no wrong types. -/
theorem sound_init : Sound inst State.init :=
  ⟨fun _ hm => absurd hm List.not_mem_nil, fun _ hk => by cases hk⟩

/-- A message that is sent has a positive type, and goes to the end of the queue. -/
theorem msgsnd_eq {queue queue' : List Message} {m : Message} (h : msgsnd queue m = some queue') :
    0 < m.msgtype ∧ queue' = queue ++ [m] := by
  unfold msgsnd at h
  split_ifs at h with hpos
  exact ⟨hpos, (Option.some.inj h).symm⟩

/-- A chat branch of separate instances takes a chat to its user. -/
theorem Genuine.gotChat {m : Message} (hm : Genuine inst m) (hsep : Separate inst) {k : ι}
    (htakes : Takes (inst k).userId.val m.msgtype) :
    Apart inst (.gotChat k m) ∧ ∃ c, (inst c).receiverId = (inst k).userId := by
  have hpos := (inst k).userId.pos
  have htype : m.msgtype = (inst k).userId.val := by
    rcases htakes with h | ⟨h, -⟩
    · exact h
    · omega
  cases hm with
  | chat a line =>
      have hid : (inst a).receiverId = (inst k).userId := Id.val_injective htype
      exact ⟨⟨⟨_, _, rfl⟩, hid⟩, a, hid⟩
  | ack a c timestamp hchat hack => exact absurd htype.symm (hsep.ack a k c hchat)

/-- An acknowledgement branch of separate instances takes an acknowledgement to its user. -/
theorem Genuine.gotAck {m : Message} (hm : Genuine inst m) (hsep : Separate inst) {k : ι}
    (htakes : Takes (ackType (inst k).userId) m.msgtype) : Apart inst (.gotAck k m) := by
  cases hm with
  | chat a line => exact absurd htakes (hsep.chat a k)
  | ack a c timestamp hchat hpos =>
      refine ⟨⟨_, rfl⟩, ?_⟩
      -- a branch that asks for a negative type would take the chats of `a`
      rcases takes_of_takes_ackType hpos htakes with hid | hchats
      · exact hid.symm
      · exact absurd hchats (hsep.chat a k)

variable [DecidableEq ι]

/-- The child of one instance goes on, with messages that are genuine. -/
theorem Sound.receive (hs : Sound inst s) {k : ι} {queue : List Message} {stage : Stage}
    (hqueue : ∀ m ∈ queue, Genuine inst m)
    (hstage : stage = .sendAck → ∃ c, (inst c).receiverId = (inst k).userId) :
    Sound inst (s.receive k queue stage) := by
  refine ⟨hqueue, ?_⟩
  intro j hj
  by_cases hjk : j = k
  · subst hjk
    exact hstage (by simpa using hj)
  · exact hs.sendAck j (by simpa [Function.update_of_ne hjk] using hj)

/-- Every step keeps the types right, and keeps chats and acknowledgements apart. -/
theorem Step.sound (h : Step inst s e s') (hsep : Separate inst) (hs : Sound inst s) :
    Sound inst s' ∧ Apart inst e := by
  cases h with
  | @send k line queue hsending hline hquit hsnd =>
      obtain ⟨-, rfl⟩ := msgsnd_eq hsnd
      refine ⟨⟨?_, hs.sendAck⟩, trivial⟩
      intro m hm
      rcases List.mem_append.mp hm with hm | hm
      · exact hs.queue m hm
      · rw [List.mem_singleton.mp hm]
        exact .chat k line
  | sendError hsending hsnd => exact ⟨⟨hs.queue, hs.sendAck⟩, trivial⟩
  | @quit k hsending =>
      have hended : Sound inst (s.receive k s.queue .ended) :=
        hs.receive hs.queue fun h => by cases h
      exact ⟨⟨hs.queue, hended.sendAck⟩, trivial⟩
  | @gotChat k m queue hstage hrcv =>
      obtain ⟨hmem, htakes, hsub⟩ := msgrcv_takes (inst k).userId.pos.ne' hrcv
      obtain ⟨hapart, hchat⟩ := (hs.queue m hmem).gotChat hsep htakes
      exact ⟨hs.receive (fun m hm => hs.queue m (hsub hm)) fun _ => hchat, hapart⟩
  | noChat hstage hrcv => exact ⟨hs.receive hs.queue (fun h => by cases h), trivial⟩
  | @sendAck k timestamp queue hstage hsnd =>
      obtain ⟨hpos, rfl⟩ := msgsnd_eq hsnd
      obtain ⟨c, hc⟩ := hs.sendAck k hstage
      refine ⟨hs.receive ?_ (fun h => by cases h), trivial⟩
      intro m hm
      rcases List.mem_append.mp hm with hm | hm
      · exact hs.queue m hm
      · rw [List.mem_singleton.mp hm]
        exact .ack k c timestamp hc hpos
  | ackError hstage hsnd => exact ⟨hs.receive hs.queue (fun h => by cases h), trivial⟩
  | @gotAck k m queue hstage hrcv =>
      obtain ⟨hmem, htakes, hsub⟩ := msgrcv_takes (ackType_ne_zero _) hrcv
      refine ⟨hs.receive (fun m hm => hs.queue m (hsub hm)) (fun h => by cases h), ?_⟩
      exact (hs.queue m hmem).gotAck hsep htakes
  | noAck hstage hrcv => exact ⟨hs.receive hs.queue (fun h => by cases h), trivial⟩

/-- So does every run. -/
theorem run_apart {es : List (Event ι)} (h : Run (Step inst) State.init es s)
    (hsep : Separate inst) : ∀ e ∈ es, Apart inst e := by
  have hinv : Sound inst s ∧ ∀ e ∈ es, Apart inst e := by
    refine h.history (fun es s => Sound inst s ∧ ∀ e ∈ es, Apart inst e) ?_
      ⟨sound_init, fun _ he => absurd he List.not_mem_nil⟩
    rintro es s e s' ⟨hs, hes⟩ hstep
    obtain ⟨hs', he⟩ := hstep.sound hsep hs
    refine ⟨hs', ?_⟩
    intro x hx
    rcases List.mem_append.mp hx with hx | hx
    · exact hes x hx
    · rw [List.mem_singleton.mp hx]
      exact he
  exact hinv.2

end sound

/-! ## Where the channels meet -/

section mixed

variable [DecidableEq ι] {inst : ι → Instance}

/-- A line that is not a command. -/
def hello : List Char := "hi\n".toList

/-- Who may send sends `hello`. -/
theorem step_hello (s : State ι) {k : ι} (hsending : s.sending k = true) :
    Step inst s (.sent k ((inst k).chat hello))
      { s with queue := s.queue ++ [(inst k).chat hello] } :=
  .send hsending (by decide) (by decide) (if_pos (inst k).receiverId.pos)

/-- An acknowledgement branch that can take the chats of an instance takes one. -/
theorem exists_chat_taken {a b : ι}
    (h : Takes (ackType (inst b).userId) (inst a).receiverId.val) :
    ∃ es s, Run (Step inst) State.init es s ∧ .gotAck b ((inst a).chat hello) ∈ es := by
  let s₁ : State ι := State.init.receive b [] .ack
  let s₂ : State ι := { s₁ with queue := [(inst a).chat hello] }
  have hempty : Step inst State.init (.internal b) s₁ := .noChat rfl msgrcv_nil
  have hsend : Step inst s₁ (.sent a ((inst a).chat hello)) s₂ := step_hello s₁ rfl
  have htake : msgrcv s₂.queue (ackType (inst b).userId) = some ((inst a).chat hello, []) :=
    msgrcv_singleton (ackType_ne_zero _) h (inst a).receiverId.pos
  have hgot : Step inst s₂ (.gotAck b ((inst a).chat hello)) (s₂.receive b [] .chat) :=
    .gotAck (by simp [s₁, s₂]) htake
  exact ⟨_, _, ((Run.nil.snoc hempty).snoc hsend).snoc hgot, by simp⟩

/-- An instance that somebody sends chats to comes to acknowledge one. -/
theorem exists_acked {a c : ι} (hchat : (inst c).receiverId = (inst a).userId)
    (hpos : 0 < ackType (inst a).receiverId) :
    ∃ es s, Run (Step inst) State.init es s ∧ s.queue = [(inst a).ack []] ∧
      s.receiver a = .ack ∧ ∀ b, b ≠ a → s.receiver b = .chat := by
  let s₁ : State ι := { State.init with queue := [(inst c).chat hello] }
  let s₂ : State ι := s₁.receive a [] .sendAck
  have hsend : Step inst State.init (.sent c ((inst c).chat hello)) s₁ := step_hello State.init rfl
  have htake : msgrcv s₁.queue (inst a).userId.val = some ((inst c).chat hello, []) :=
    msgrcv_singleton (inst a).userId.pos.ne' (.inl (congrArg Id.val hchat)) (inst c).receiverId.pos
  have hgot : Step inst s₁ (.gotChat a ((inst c).chat hello)) s₂ := .gotChat rfl htake
  have hack : Step inst s₂ (.sent a ((inst a).ack [])) (s₂.receive a [(inst a).ack []] .ack) :=
    .sendAck (by simp [s₂]) (if_pos hpos)
  refine ⟨_, _, ((Run.nil.snoc hsend).snoc hgot).snoc hack, rfl, by simp, ?_⟩
  intro b hb
  simp [s₁, s₂, State.init, Function.update_of_ne hb]

/-- An acknowledgement whose type is the id of a user is taken by a chat branch, or by a branch of
another user. -/
theorem exists_ack_taken {a b c : ι} (hchat : (inst c).receiverId = (inst a).userId)
    (hack : (inst b).userId.val = ackType (inst a).receiverId) :
    ∃ es s, Run (Step inst) State.init es s ∧ ∃ e ∈ es, ¬ Apart inst e := by
  have hpos : 0 < ackType (inst a).receiverId := by
    rw [← hack]
    exact (inst b).userId.pos
  obtain ⟨es, s, hrun, hqueue, hstage, hothers⟩ := exists_acked hchat hpos
  have hwrong : ¬ Apart inst (.gotChat b ((inst a).ack [])) := by
    rintro ⟨⟨sender, text, hbody⟩, -⟩
    cases hbody
  have htake : msgrcv [(inst a).ack []] (inst b).userId.val = some ((inst a).ack [], []) :=
    msgrcv_singleton (inst b).userId.pos.ne' (.inl hack.symm) hpos
  by_cases hba : b = a
  · -- the acknowledgement branch of the instance itself comes before its chat branch
    subst hba
    rcases hrcv : msgrcv [(inst b).ack []] (ackType (inst b).userId) with _ | ⟨m, rest⟩
    · have hnone : Step inst s (.internal b) (s.receive b s.queue .chat) :=
        .noAck hstage (hqueue ▸ hrcv)
      have hgot : Step inst (s.receive b s.queue .chat) (.gotChat b ((inst b).ack []))
          ((s.receive b s.queue .chat).receive b [] .sendAck) :=
        .gotChat (by simp) (hqueue ▸ htake)
      exact ⟨_, _, (hrun.snoc hnone).snoc hgot, _, by simp, hwrong⟩
    · have hgot : Step inst s (.gotAck b m) (s.receive b rest .chat) :=
        .gotAck hstage (hqueue ▸ hrcv)
      refine ⟨_, _, hrun.snoc hgot, .gotAck b m, by simp, ?_⟩
      rintro ⟨-, haddressee⟩
      have hm := (msgrcv_takes (ackType_ne_zero _) hrcv).1
      rw [List.mem_singleton.mp hm] at haddressee
      have hid : (inst b).receiverId = (inst b).userId := haddressee
      rw [hid] at hack
      exact val_ne_ackType _ hack
  · have hgot : Step inst s (.gotChat b ((inst a).ack [])) (s.receive b [] .sendAck) :=
      .gotChat (hothers b hba) (hqueue ▸ htake)
    exact ⟨_, _, hrun.snoc hgot, _, by simp, hwrong⟩

end mixed

/-- **Chats and acknowledgements stay apart in every run if and only if the ids are separate.** -/
theorem apart_iff [DecidableEq ι] (inst : ι → Instance) :
    (∀ es s, Run (Step inst) State.init es s → ∀ e ∈ es, Apart inst e) ↔ Separate inst := by
  constructor
  · intro hall
    refine ⟨?_, ?_⟩
    · intro a b htakes
      obtain ⟨es, s, hrun, hmem⟩ := exists_chat_taken htakes
      obtain ⟨⟨timestamp, hbody⟩, -⟩ := hall es s hrun _ hmem
      cases hbody
    · intro a b c hchat hack
      obtain ⟨es, s, hrun, e, he, hnot⟩ := exists_ack_taken hchat hack
      exact hnot (hall es s hrun e he)
  · intro hsep es s hrun
    exact run_apart hrun hsep

/-- Users 1 and 21 talk to each other. -/
def oneAndTwentyOne : Fin 2 → Instance :=
  ![⟨⟨1, by decide, by decide⟩, ⟨21, by decide, by decide⟩⟩,
    ⟨⟨21, by decide, by decide⟩, ⟨1, by decide, by decide⟩⟩]

/-- **User 1 is told that a message was read, which is the chat that user 1 has just sent.** -/
theorem not_apart : ∃ s, Run (Step oneAndTwentyOne) State.init
      [.internal 0, .sent 0 ((oneAndTwentyOne 0).chat hello),
        .gotAck 0 ((oneAndTwentyOne 0).chat hello)] s ∧
    ¬ Apart oneAndTwentyOne (.gotAck 0 ((oneAndTwentyOne 0).chat hello)) := by
  have hrun : ∃ s, Run (Step oneAndTwentyOne) State.init
      [.internal 0, .sent 0 ((oneAndTwentyOne 0).chat hello),
        .gotAck 0 ((oneAndTwentyOne 0).chat hello)] s :=
    exists_run_of_exec (step_sound oneAndTwentyOne) [.receive 0 [], .send 0 hello, .receive 0 []]
      (by decide)
  obtain ⟨s, hrun⟩ := hrun
  refine ⟨s, hrun, ?_⟩
  rintro ⟨⟨timestamp, hbody⟩, -⟩
  cases hbody

end SystemProgrammingLab.Week10
