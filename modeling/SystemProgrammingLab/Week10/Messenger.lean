import SystemProgrammingLab.Found.Run
import Mathlib.Data.List.Basic
import Mathlib.Logic.Function.Basic

/-!
# The messenger

Any number of instances of the messenger share one message queue. The parent of an instance sends
chats, its child receives: in each round of its loop it asks for a chat, acknowledges it if there is
one, and asks for an acknowledgement. Who a message is for and whether it is an acknowledgement are both
in its type, the only thing `msgrcv` looks at. A step is one `msgsnd` or `msgrcv` of one instance.

An id is a positive `int`. The sum `T_MSG + id` is computed in `int` too and wraps around above the
largest one; `msgsnd` refuses a type that is not positive, and `msgrcv` takes a negative type as a
bound (`msgrcv`).

Source: `week10/main.c`
-/

namespace SystemProgrammingLab.Week10

open SystemProgrammingLab.Found

/-! ## Ids and types -/

/-- The largest `int`. -/
abbrev intMax : Int := 2147483647

/-- A positive `int`, as the user types it at the prompt. -/
structure Id where
  val : Int
  pos : 0 < val
  le : val ≤ intMax
  deriving DecidableEq

/-- 1 is an `int`. -/
theorem one_le_intMax : (1 : Int) ≤ intMax := by decide

/-- 2 is positive. -/
theorem Id.two_pos : (0 : Int) < 2 := by decide

/-- 2 is an `int`. -/
theorem two_le_intMax : (2 : Int) ≤ intMax := by decide

/-- Source: `T_MSG` -/
abbrev tMsg : Int := 20

/-- The sum `T_MSG + id` of two `int`s. Source: `main` -/
def ackType (id : Id) : Int := Int.bmod (tMsg + id.val) 4294967296

/-- The ids an instance was started with. Source: `user_id`, `receiver_id` -/
structure Instance where
  userId : Id
  receiverId : Id

/-! ## Messages -/

/-- What a message is sent as. Source: `msgbuf`, `msgbuf_ack` -/
inductive Body
  | chat (sender : Int) (text : List Char)
  | ack (timestamp : List Char)
  deriving DecidableEq

/-- A message in the queue. The user it is meant for is not part of its bytes. -/
structure Message where
  msgtype : Int
  body : Body
  addressee : Id
  deriving DecidableEq

/-- Add a message to the queue; a type that is not positive is an error. -/
def msgsnd (queue : List Message) (m : Message) : Option (List Message) :=
  if 0 < m.msgtype then some (queue ++ [m]) else none

/-- The type of the message that `msgrcv` takes: the type that is asked for; the first one of the queue
for 0; the lowest one up to the absolute value for a negative type. -/
def wanted (queue : List Message) (msgtyp : Int) : Option Int :=
  if 0 < msgtyp then some msgtyp
  else if msgtyp = 0 then (queue.map Message.msgtype).head?
  else ((queue.map Message.msgtype).filter fun t => t ≤ -msgtyp).min?

/-- The first message of the type that is wanted, and the rest of the queue. The call has
`IPC_NOWAIT` and fails when there is none. -/
def msgrcv (queue : List Message) (msgtyp : Int) : Option (Message × List Message) := do
  let t ← wanted queue msgtyp
  let m ← queue.find? fun m => m.msgtype = t
  return (m, queue.eraseP fun m => m.msgtype = t)

/-- What `msgsnd` copies of the text of a chat: the call is given the size of `text` and starts at `sender`, an
`int` in front of it, so that the last four bytes of `text` stay behind. Source: `main`, the parent -/
abbrev sentText : Nat := 508

/-- The chat that an instance sends, with what it copies of the line. Source: `main`, the parent -/
def Instance.chat (inst : Instance) (line : List Char) : Message :=
  ⟨inst.receiverId.val, .chat inst.userId.val (line.take sentText), inst.receiverId⟩

/-- The acknowledgement that an instance sends. Source: `main`, the child -/
def Instance.ack (inst : Instance) (timestamp : List Char) : Message :=
  ⟨ackType inst.receiverId, .ack timestamp, inst.receiverId⟩

/-! ## Steps -/

/-- Where the child is in its loop: it asks for a chat next, it acknowledges one, it asks for an
acknowledgement, or it has ended. Source: `main`, the child -/
inductive Stage
  | chat
  | sendAck
  | ack
  | ended
  deriving DecidableEq

variable {ι : Type*}

/-- The queue and the instances; `sending` says that the parent runs. -/
structure State (ι : Type*) where
  queue : List Message
  receiver : ι → Stage
  sending : ι → Bool

/-- All instances have started, and the queue is empty. -/
def State.init : State ι := ⟨[], fun _ => .chat, fun _ => true⟩

/-- A message that was sent by an instance, received by one of its branches, or neither. -/
inductive Event (ι : Type*)
  | sent (k : ι) (m : Message)
  | gotChat (k : ι) (m : Message)
  | gotAck (k : ι) (m : Message)
  | internal (k : ι)
  deriving DecidableEq

variable [DecidableEq ι]

/-- The state with another queue and another stage of the child of `k`. -/
def State.receive (s : State ι) (k : ι) (queue : List Message) (stage : Stage) : State ι :=
  { s with queue, receiver := Function.update s.receiver k stage }

/-- The parent of `k` has ended. -/
def State.stop (s : State ι) (k : ι) : State ι :=
  { s with sending := Function.update s.sending k false }

/-- The queue that is left when a message was read. -/
@[simp] theorem State.receive_queue (s : State ι) (k : ι) (queue : List Message) (stage : Stage) :
    (s.receive k queue stage).queue = queue := rfl

/-- What the reader does when a message was read. -/
@[simp] theorem State.receive_receiver (s : State ι) (k : ι) (queue : List Message) (stage : Stage) :
    (s.receive k queue stage).receiver = Function.update s.receiver k stage := rfl

/-- An instance that stops leaves the queue as it is. -/
@[simp] theorem State.stop_queue (s : State ι) (k : ι) : (s.stop k).queue = s.queue := rfl

/-- An instance that stops sending goes on reading. -/
@[simp] theorem State.stop_receiver (s : State ι) (k : ι) : (s.stop k).receiver = s.receiver := rfl

/-- One step of one instance. A line is shorter than the buffer it is copied to, and there is room in the queue.
Source: `main` -/
inductive Step (inst : ι → Instance) : State ι → Event ι → State ι → Prop
  | send {s : State ι} {k : ι} {line : List Char} {queue : List Message}
      (hsending : s.sending k = true) (hline : line.length < 512) (hquit : line ≠ "quit\n".toList)
      (hsnd : msgsnd s.queue ((inst k).chat line) = some queue) :
      Step inst s (.sent k ((inst k).chat line)) { s with queue }
  | sendError {s : State ι} {k : ι} {line : List Char} (hsending : s.sending k = true)
      (hsnd : msgsnd s.queue ((inst k).chat line) = none) :
      Step inst s (.internal k) (s.stop k)
  | quit {s : State ι} {k : ι} (hsending : s.sending k = true) :
      Step inst s (.internal k) ((s.receive k s.queue .ended).stop k)
  | gotChat {s : State ι} {k : ι} {m : Message} {queue : List Message}
      (hstage : s.receiver k = .chat)
      (hrcv : msgrcv s.queue (inst k).userId.val = some (m, queue)) :
      Step inst s (.gotChat k m) (s.receive k queue .sendAck)
  | noChat {s : State ι} {k : ι} (hstage : s.receiver k = .chat)
      (hrcv : msgrcv s.queue (inst k).userId.val = none) :
      Step inst s (.internal k) (s.receive k s.queue .ack)
  | sendAck {s : State ι} {k : ι} {timestamp : List Char} {queue : List Message}
      (hstage : s.receiver k = .sendAck)
      (hsnd : msgsnd s.queue ((inst k).ack timestamp) = some queue) :
      Step inst s (.sent k ((inst k).ack timestamp)) (s.receive k queue .ack)
  | ackError {s : State ι} {k : ι} {timestamp : List Char} (hstage : s.receiver k = .sendAck)
      (hsnd : msgsnd s.queue ((inst k).ack timestamp) = none) :
      Step inst s (.internal k) (s.receive k s.queue .ended)
  | gotAck {s : State ι} {k : ι} {m : Message} {queue : List Message} (hstage : s.receiver k = .ack)
      (hrcv : msgrcv s.queue (ackType (inst k).userId) = some (m, queue)) :
      Step inst s (.gotAck k m) (s.receive k queue .chat)
  | noAck {s : State ι} {k : ι} (hstage : s.receiver k = .ack)
      (hrcv : msgrcv s.queue (ackType (inst k).userId) = none) :
      Step inst s (.internal k) (s.receive k s.queue .chat)

/-- Which instance moves: its parent sends a line or quits, or its child goes on; the text is the
timestamp of an acknowledgement. -/
inductive Action (ι : Type*)
  | send (k : ι) (line : List Char)
  | quit (k : ι)
  | receive (k : ι) (timestamp : List Char)

/-- The step function. -/
def step (inst : ι → Instance) (s : State ι) : Action ι → Option (State ι × Event ι)
  | .send k line =>
      if s.sending k = true ∧ line.length < 512 ∧ line ≠ "quit\n".toList then
        match msgsnd s.queue ((inst k).chat line) with
        | some queue => some ({ s with queue }, .sent k ((inst k).chat line))
        | none => some (s.stop k, .internal k)
      else none
  | .quit k =>
      if s.sending k then some ((s.receive k s.queue .ended).stop k, .internal k) else none
  | .receive k timestamp =>
      match s.receiver k with
      | .chat =>
          match msgrcv s.queue (inst k).userId.val with
          | some (m, queue) => some (s.receive k queue .sendAck, .gotChat k m)
          | none => some (s.receive k s.queue .ack, .internal k)
      | .sendAck =>
          match msgsnd s.queue ((inst k).ack timestamp) with
          | some queue => some (s.receive k queue .ack, .sent k ((inst k).ack timestamp))
          | none => some (s.receive k s.queue .ended, .internal k)
      | .ack =>
          match msgrcv s.queue (ackType (inst k).userId) with
          | some (m, queue) => some (s.receive k queue .chat, .gotAck k m)
          | none => some (s.receive k s.queue .chat, .internal k)
      | .ended => none

/-- The executable step does steps. -/
theorem step_sound (inst : ι → Instance) (s : State ι) (a : Action ι) (s' : State ι) (e : Event ι)
    (h : step inst s a = some (s', e)) : Step inst s e s' := by
  cases a with
  | send k line =>
      simp only [step] at h
      split_ifs at h with hc
      split at h
      · rename_i hsnd
        cases h
        exact .send hc.1 hc.2.1 hc.2.2 hsnd
      · rename_i hsnd
        cases h
        exact .sendError hc.1 hsnd
  | quit k =>
      simp only [step] at h
      split_ifs at h with hsending
      cases h
      exact .quit hsending
  | receive k timestamp =>
      simp only [step] at h
      split at h
      · rename_i hstage
        split at h
        · rename_i hrcv
          cases h
          exact .gotChat hstage hrcv
        · rename_i hrcv
          cases h
          exact .noChat hstage hrcv
      · rename_i hstage
        split at h
        · rename_i hsnd
          cases h
          exact .sendAck hstage hsnd
        · rename_i hsnd
          cases h
          exact .ackError hstage hsnd
      · rename_i hstage
        split at h
        · rename_i hrcv
          cases h
          exact .gotAck hstage hrcv
        · rename_i hrcv
          cases h
          exact .noAck hstage hrcv
      · cases h

end SystemProgrammingLab.Week10
