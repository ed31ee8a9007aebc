import SystemProgrammingLab.Found.Decimal
import SystemProgrammingLab.Found.Run

/-!
# Two processes that count signals

The sender wants `n` acknowledgements of `SIGUSR1`. Its alarm goes off again and again, and each time the
handler sends another signal; the receiver counts the signals that it handles and acknowledges each with
`SIGUSR1` in the other direction. After the last acknowledgement the sender sends `SIGINT`, and the receiver
prints its count.

A process has one bit for each signal that is pending, so a signal that is sent while one is pending is
merged with it. Handlers are atomic, and the alarm may go off at any time. The receiver installs its
handlers one after the other; a signal that comes before its handler kills it.

Source: `week8/main.c`
-/

namespace SystemProgrammingLab.Week8

open SystemProgrammingLab.Found

/-- The largest `int`. -/
abbrev intMax : Int := 2147483647

/-- The largest `long`. -/
abbrev longMax : Int := 9223372036854775807

/-! ## The two processes -/

/-- The sender has set its alarm when it runs. Source: `main` -/
inductive Sender
  | starting
  | running
  | exited
  deriving DecidableEq

/-- The receiver has no handler yet, only the one for `SIGUSR1`, or both. Source: `main` -/
inductive Receiver
  | starting
  | counting
  | running
  | exited
  | killed
  deriving DecidableEq

/-- The globals of the two processes and what is pending at each. The sender is sent `SIGUSR1` only, the
receiver also `SIGINT`. Source: `main.c` -/
structure State where
  sender : Sender
  numSignalToSend : Int
  numAckReceived : Int
  ackPending : Bool
  receiver : Receiver
  numSignalReceived : Int
  signalPending : Bool
  interruptPending : Bool
  deriving DecidableEq

/-- After `fork`, where `n` is the number of `argv[1]`. Source: `main` -/
def State.init (n : Int) : State := ⟨.starting, n, 0, false, .starting, 0, false, false⟩

/-- What a handler prints, all with `%d`: the signals that remain, the number of the signal, and the count
at the end. -/
inductive Event
  | setUp
  | sendingHandler (remaining : Int)
  | recvAckHandler
  | sendingAck (number : Int)
  | terminateHandler (count : Int)
  | killed
  deriving DecidableEq

/-! ## The handlers -/

/-- On `SIGALRM` the sender sends `SIGUSR1`, which is pending at the receiver until it is handled.
Source: `sending_handler` -/
def sendingHandler (s : State) : State := { s with signalPending := true }

/-- The sender counts an acknowledgement; with the last one it sends `SIGINT` and exits.
Source: `recv_ack_handler` -/
def recvAckHandler (s : State) : State :=
  let s' := { s with
    ackPending := false
    numAckReceived := s.numAckReceived + 1
    numSignalToSend := s.numSignalToSend - 1 }
  if s'.numSignalToSend = 0 then { s' with interruptPending := true, sender := .exited } else s'

/-- The receiver counts a signal and sends an acknowledgement. The count is a `long`, which wraps around.
Source: `sending_ack` -/
def sendingAck (s : State) : State :=
  { s with
    signalPending := false
    numSignalReceived := Int.bmod (s.numSignalReceived + 1) 18446744073709551616
    ackPending := true }

/-- On `SIGINT` the receiver prints its count and exits. Source: `terminate_handler` -/
def terminateHandler (s : State) : State :=
  { s with interruptPending := false, receiver := .exited }

/-! ## Steps -/

/-- A process goes on with its set-up, or a pending signal is delivered to it. Source: `main`, and the four
handlers -/
inductive Step : State → Event → State → Prop
  | setAlarm {s : State} (hsender : s.sender = .starting) :
      Step s .setUp { s with sender := .running }
  | handleSignals {s : State} (hreceiver : s.receiver = .starting) :
      Step s .setUp { s with receiver := .counting }
  | handleInterrupt {s : State} (hreceiver : s.receiver = .counting) :
      Step s .setUp { s with receiver := .running }
  | sendingHandler {s : State} (hsender : s.sender = .running) :
      Step s (.sendingHandler (toInt s.numSignalToSend)) (sendingHandler s)
  | recvAckHandler {s : State} (hsender : s.sender = .running) (hpending : s.ackPending = true) :
      Step s .recvAckHandler (recvAckHandler s)
  | sendingAck {s : State} (hreceiver : s.receiver = .counting ∨ s.receiver = .running)
      (hpending : s.signalPending = true) :
      Step s (.sendingAck (toInt (sendingAck s).numSignalReceived)) (sendingAck s)
  | terminateHandler {s : State} (hreceiver : s.receiver = .running)
      (hpending : s.interruptPending = true) :
      Step s (.terminateHandler (toInt s.numSignalReceived)) (terminateHandler s)
  | killed {s : State}
      (hpending : s.receiver = .starting ∧ (s.signalPending = true ∨ s.interruptPending = true) ∨
        s.receiver = .counting ∧ s.interruptPending = true) :
      Step s .killed { s with receiver := .killed }

end SystemProgrammingLab.Week8
