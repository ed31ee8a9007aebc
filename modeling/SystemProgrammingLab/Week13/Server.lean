import SystemProgrammingLab.Found.Run
import SystemProgrammingLab.Week13.Message
import Mathlib.Data.Finset.Basic

/-!
# The chat server

The server waits in `select` for any of its sockets and then visits the descriptors in order. A visit works
on a copy of the set that `select` has filled in, while accepting and closing change the set itself and
`fdmax`. A step is one call of `select` or one round of the `for` loop.

Descriptors are handed out by the kernel: `accept` returns one that is not in use and that the sets have
room for. Any subset of the set can be ready, a read from a client returns any message, and all writes
succeed.

Source: `week13/server.c`
-/

namespace SystemProgrammingLab.Week13

open SystemProgrammingLab.Found

/-- `FD_SETSIZE` -/
abbrev fdSetSize : Nat := 1024

/-- Where the server is: at `select`, in the round `i` of the `for` loop, or ended. -/
inductive Scan
  | select
  | round (copyset : Finset Nat) (i : Nat)
  | exited

/-- The variables of `main`, `active_users`, and the descriptors that are in use. -/
structure Server where
  readset : Finset Nat
  fdmax : Nat
  activeUsers : Int
  opened : Finset Nat
  scan : Scan

/-- The server listens, and some other descriptors are open. -/
def Server.init (listenfd : Nat) (others : Finset Nat) : Server :=
  ⟨{listenfd}, listenfd, 0, insert listenfd others, .select⟩

/-- What happens in a step. A message that is received comes with what the server prints, the response,
and the descriptors it is written to, in this order. -/
inductive Event
  | selected (ready : Finset Nat)
  | scanned
  | skipped (i : Nat)
  | accepted (connFd : Nat)
  | received (i : Nat) (msg : Message) (printed : List Char) (response : Message)
      (targets : List Nat)
  | closed (i : Nat)
  | exited

/-! ## The handlers -/

/-- Source: `handle_new_connection` -/
def handleNewConnection (s : Server) (connFd : Nat) : Server :=
  { s with
    readset := insert connFd s.readset
    fdmax := if s.fdmax < connFd then connFd else s.fdmax
    activeUsers := s.activeUsers + 1
    opened := insert connFd s.opened }

/-- The count after a message. Source: `handle_client_data` -/
def countUsers (activeUsers : Int) (msg : Message) : Int :=
  if msg.type = 2 then activeUsers - 1 else activeUsers

/-- The descriptors that a response is written to. Source: `handle_client_data` -/
def targets (listenfd : Nat) (s : Server) (i : Nat) : List Nat :=
  (List.range (s.fdmax + 1)).filter fun j => j ∈ s.readset ∧ j ≠ listenfd ∧ j ≠ i

/-- What the read from a client returns: a message, the end of the connection (0 or `ECONNRESET`), or
another error. -/
inductive Input
  | message (msg : Message)
  | closed
  | error

/-- The server after the read; the response to a message is sent to the `targets`.
Source: `handle_client_data` -/
def handleClientData (s : Server) (i : Nat) : Input → Server
  | .message msg => { s with activeUsers := countUsers s.activeUsers msg }
  | .closed => { s with readset := s.readset.erase i, opened := s.opened.erase i }
  | .error => { s with scan := .exited }

/-! ## Steps -/

/-- The round `i` of the loop visits a descriptor that is ready. -/
structure Server.Visits (s : Server) (copyset : Finset Nat) (i : Nat) : Prop where
  scan : s.scan = .round copyset i
  le : i ≤ s.fdmax
  mem : i ∈ copyset

/-- One step of the server. Where a response is not defined, anything may be printed and sent. The server
exits when a call fails, and at any time by `SIGINT`. -/
inductive Step (listenfd : Nat) : Server → Event → Server → Prop
  | select {s : Server} {ready : Finset Nat} (hscan : s.scan = .select)
      (hready : ready ⊆ s.readset.filter (· ≤ s.fdmax)) :
      Step listenfd s (.selected ready) { s with scan := .round ready 0 }
  | over {s : Server} {copyset : Finset Nat} {i : Nat} (hscan : s.scan = .round copyset i)
      (hi : s.fdmax < i) : Step listenfd s .scanned { s with scan := .select }
  | skip {s : Server} {copyset : Finset Nat} {i : Nat} (hscan : s.scan = .round copyset i)
      (hi : i ≤ s.fdmax) (hnot : i ∉ copyset) :
      Step listenfd s (.skipped i) { s with scan := .round copyset (i + 1) }
  | accept {s : Server} {copyset : Finset Nat} {connFd : Nat} (hvisits : s.Visits copyset listenfd)
      (hfree : connFd ∉ s.opened) (hlt : connFd < fdSetSize) :
      Step listenfd s (.accepted connFd)
        { handleNewConnection s connFd with scan := .round copyset (listenfd + 1) }
  | message {s : Server} {copyset : Finset Nat} {i : Nat} {stale msg : Message}
      {printed : List Char} {response : Message} (hvisits : s.Visits copyset i) (hne : i ≠ listenfd)
      (hresponse : ∀ out, respond (countUsers s.activeUsers msg) stale msg = some out →
        out = (printed, response)) :
      Step listenfd s (.received i msg printed response (targets listenfd s i))
        { handleClientData s i (.message msg) with scan := .round copyset (i + 1) }
  | close {s : Server} {copyset : Finset Nat} {i : Nat} (hvisits : s.Visits copyset i)
      (hne : i ≠ listenfd) :
      Step listenfd s (.closed i)
        { handleClientData s i .closed with scan := .round copyset (i + 1) }
  | error {s : Server} {copyset : Finset Nat} {i : Nat} (hvisits : s.Visits copyset i)
      (hne : i ≠ listenfd) : Step listenfd s .exited (handleClientData s i .error)
  | exit {s : Server} : Step listenfd s .exited { s with scan := .exited }

/-- The count after an event. -/
def Event.count (activeUsers : Int) : Event → Int
  | .accepted _ => activeUsers + 1
  | .received _ msg _ _ _ => countUsers activeUsers msg
  | .selected _ | .scanned | .skipped _ | .closed _ | .exited => activeUsers

/-- A step counts the users as its event says. -/
theorem Step.activeUsers {listenfd : Nat} {s s' : Server} {ev : Event} (h : Step listenfd s ev s') :
    s'.activeUsers = ev.count s.activeUsers := by
  rcases h with _ | _ | _ | _ | _ | _ | _ | _ <;> rfl

/-- What the environment decides in a step: which descriptors are ready, which one is new, what a read
returns, and what the variable `response` holds before. -/
inductive Action
  | select (ready : Finset Nat)
  | next
  | accept (connFd : Nat)
  | message (stale msg : Message)
  | close

/-- The step function. -/
def step (listenfd : Nat) (s : Server) (a : Action) : Option (Server × Event) :=
  match s.scan, a with
  | .select, .select ready =>
      if ready ⊆ s.readset.filter (· ≤ s.fdmax) then
        some ({ s with scan := .round ready 0 }, .selected ready)
      else none
  | .round copyset i, .next =>
      if s.fdmax < i then some ({ s with scan := .select }, .scanned)
      else if i ∉ copyset then some ({ s with scan := .round copyset (i + 1) }, .skipped i)
      else none
  | .round copyset i, .accept connFd =>
      if i ≤ s.fdmax ∧ i ∈ copyset ∧ i = listenfd ∧ connFd ∉ s.opened ∧ connFd < fdSetSize then
        some ({ handleNewConnection s connFd with scan := .round copyset (i + 1) }, .accepted connFd)
      else none
  | .round copyset i, .message stale msg =>
      if i ≤ s.fdmax ∧ i ∈ copyset ∧ i ≠ listenfd then
        let out := (respond (countUsers s.activeUsers msg) stale msg).getD ([], stale)
        some ({ handleClientData s i (.message msg) with scan := .round copyset (i + 1) },
          .received i msg out.1 out.2 (targets listenfd s i))
      else none
  | .round copyset i, .close =>
      if i ≤ s.fdmax ∧ i ∈ copyset ∧ i ≠ listenfd then
        some ({ handleClientData s i .closed with scan := .round copyset (i + 1) }, .closed i)
      else none
  | _, _ => none

/-- The executable step does steps. -/
theorem step_sound (listenfd : Nat) (s : Server) (a : Action) (s' : Server) (e : Event)
    (h : step listenfd s a = some (s', e)) : Step listenfd s e s' := by
  unfold step at h
  split at h
  · rename_i hscan
    split_ifs at h with hready
    cases h
    exact .select hscan hready
  · rename_i hscan
    split_ifs at h with hi hnot
    · cases h
      exact .over hscan hi
    · cases h
      exact .skip hscan (Nat.le_of_not_lt hi) hnot
  · rename_i hscan
    split_ifs at h with hcond
    obtain ⟨hi, hmem, rfl, hfree, hlt⟩ := hcond
    cases h
    exact .accept ⟨hscan, hi, hmem⟩ hfree hlt
  · rename_i copyset i stale msg hscan
    split_ifs at h with hcond
    obtain ⟨hi, hmem, hne⟩ := hcond
    cases h
    have hresponse : ∀ out, respond (countUsers s.activeUsers msg) stale msg = some out →
        out = ((respond (countUsers s.activeUsers msg) stale msg).getD ([], stale)) := by
      intro out hout
      rw [hout]
      rfl
    exact .message ⟨hscan, hi, hmem⟩ hne hresponse
  · rename_i hscan
    split_ifs at h with hcond
    obtain ⟨hi, hmem, hne⟩ := hcond
    cases h
    exact .close ⟨hscan, hi, hmem⟩ hne
  · cases h

end SystemProgrammingLab.Week13
