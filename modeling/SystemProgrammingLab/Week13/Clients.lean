import SystemProgrammingLab.Week13.Server

/-!
# The clients of the chat

The server together with the clients that connect to it. A client joins, chats, and then quits with a last
message and ends, or it leaves at any time without one: by `SIGINT`, whose handler only exits, or because it
is killed, possibly in the middle of a message.

A connection carries bytes. A read of the server takes some of those that the client has written and the
server has not yet read; it sees a message of the client if it starts where the message starts and returns
all of it, and may see anything otherwise.

Source: `week13/client.c`, `week13/server.c`
-/

namespace SystemProgrammingLab.Week13

open SystemProgrammingLab.Found

/-! ## One connection -/

/-- Where the client is: it has connected, it has also joined, or its end is closed. Source: `client.c` -/
inductive Stage
  | connected
  | joined
  | gone
  deriving DecidableEq

/-- Where the server has a connection: it was not accepted yet, it has a descriptor, or it was found
closed. -/
inductive Place
  | pending
  | opened (fd : Nat)
  | closed
  deriving DecidableEq

/-- A connection: the messages that the client has written, the bytes of one that it has not finished, and the
bytes that the server has read. Source: `client.c`, `server.c` -/
structure Conn where
  place : Place
  stage : Stage
  written : List Message
  tail : Nat
  consumed : Nat

/-- A client that has connected. -/
def Conn.init : Conn := ⟨.pending, .connected, [], 0, 0⟩

/-- The client joins, sends a line, or sends its last message and exits. Source: `main`, `handle_input` -/
def Conn.write (c : Conn) (m : Message) : Option Conn :=
  if c.stage = .connected ∧ m.type = 0 then
    some { c with stage := .joined, written := c.written ++ [m] }
  else if c.stage = .joined ∧ m.type = 1 then some { c with written := c.written ++ [m] }
  else if c.stage = .joined ∧ m.type = 2 then
    some { c with stage := .gone, written := c.written ++ [m] }
  else none

/-- The client exits without a message, or is killed. Source: `sigint_handler` -/
def Conn.leave (c : Conn) (tail : Nat) : Option Conn :=
  if c.stage ≠ .gone ∧ tail < messageSize then some { c with stage := .gone, tail } else none

/-- The server accepts it. -/
def Conn.accept (c : Conn) (fd : Nat) : Option Conn :=
  if c.place = .pending then some { c with place := .opened fd } else none

/-- The server reads `n` of the bytes that were written and not yet read. -/
def Conn.read (c : Conn) (fd n : Nat) : Option Conn :=
  if c.place = .opened fd ∧ 0 < n ∧ n ≤ messageSize ∧
      c.consumed + n ≤ messageSize * c.written.length + c.tail then
    some { c with consumed := c.consumed + n }
  else none

/-- What the server sees in a read of `n` bytes: the message of the client when it reads it as a whole, and
some `other` one when it does not. -/
def Conn.seen (c : Conn) (n : Nat) (other : Message) : Option Message :=
  if c.consumed % messageSize = 0 ∧ n = messageSize then c.written[c.consumed / messageSize]?
  else some other

/-- The server finds the connection closed: a read returns 0 or fails with `ECONNRESET`. -/
def Conn.close (c : Conn) (fd : Nat) : Option Conn :=
  if c.place = .opened fd ∧ c.stage = .gone then some { c with place := .closed } else none

/-! ## The system -/

/-- The server and all connections that were ever made. -/
structure Sys where
  server : Server
  conns : List Conn

/-- The server without clients. -/
def Sys.init (listenfd : Nat) (others : Finset Nat) : Sys := ⟨.init listenfd others, []⟩

/-- A step of a client or of the server. -/
inductive SysEvent
  | connected
  | wrote (k : Nat) (m : Message)
  | left (k : Nat)
  | served (e : Event)
  | accepted (k fd : Nat)
  | read (k n : Nat) (msg : Message)
  | closed (k : Nat)

/-- The server handles no connection in the event. -/
def Event.quiet : Event → Bool
  | .selected _ | .scanned | .skipped _ | .exited => true
  | .accepted _ | .received .. | .closed _ => false

/-- A step of a client, or a step of the server with what it does to a connection. Source: `client.c`, `server.c` -/
inductive SysStep (listenfd : Nat) : Sys → SysEvent → Sys → Prop
  | connect {S : Sys} : SysStep listenfd S .connected { S with conns := S.conns ++ [.init] }
  | write {S : Sys} {k : Nat} {c c' : Conn} {m : Message} (hk : S.conns[k]? = some c)
      (hc : c.write m = some c') :
      SysStep listenfd S (.wrote k m) { S with conns := S.conns.set k c' }
  | leave {S : Sys} {k tail : Nat} {c c' : Conn} (hk : S.conns[k]? = some c)
      (hc : c.leave tail = some c') :
      SysStep listenfd S (.left k) { S with conns := S.conns.set k c' }
  | serve {S : Sys} {e : Event} {server : Server} (hstep : Step listenfd S.server e server)
      (hquiet : e.quiet = true) : SysStep listenfd S (.served e) { S with server }
  | accept {S : Sys} {k fd : Nat} {c c' : Conn} {server : Server} (hk : S.conns[k]? = some c)
      (hc : c.accept fd = some c') (hstep : Step listenfd S.server (.accepted fd) server) :
      SysStep listenfd S (.accepted k fd) ⟨server, S.conns.set k c'⟩
  | read {S : Sys} {k fd n : Nat} {c c' : Conn} {other msg response : Message}
      {printed : List Char} {sent : List Nat} {server : Server} (hk : S.conns[k]? = some c)
      (hc : c.read fd n = some c') (hseen : c.seen n other = some msg)
      (hstep : Step listenfd S.server (.received fd msg printed response sent) server) :
      SysStep listenfd S (.read k n msg) ⟨server, S.conns.set k c'⟩
  | close {S : Sys} {k fd : Nat} {c c' : Conn} {server : Server} (hk : S.conns[k]? = some c)
      (hc : c.close fd = some c') (hstep : Step listenfd S.server (.closed fd) server) :
      SysStep listenfd S (.closed k) ⟨server, S.conns.set k c'⟩

/-- What the clients do and what the environment decides. -/
inductive SysAction
  | connect
  | write (k : Nat) (m : Message)
  | leave (k tail : Nat)
  | serve (a : Action)
  | accept (k fd : Nat)
  | read (k n : Nat) (stale other : Message)
  | close (k : Nat)

/-- The step function. -/
def sysStep (listenfd : Nat) (S : Sys) : SysAction → Option (Sys × SysEvent)
  | .connect => some ({ S with conns := S.conns ++ [.init] }, .connected)
  | .write k m => do
      let c' ← (← S.conns[k]?).write m
      return ({ S with conns := S.conns.set k c' }, .wrote k m)
  | .leave k tail => do
      let c' ← (← S.conns[k]?).leave tail
      return ({ S with conns := S.conns.set k c' }, .left k)
  | .serve a => do
      let (server, e) ← step listenfd S.server a
      if e.quiet then return ({ S with server }, .served e) else none
  | .accept k fd => do
      let c' ← (← S.conns[k]?).accept fd
      let (server, _) ← step listenfd S.server (.accept fd)
      return (⟨server, S.conns.set k c'⟩, .accepted k fd)
  | .read k n stale other => do
      let c ← S.conns[k]?
      let msg ← c.seen n other
      let (server, e) ← step listenfd S.server (.message stale msg)
      match e with
      | .received fd .. => return (⟨server, S.conns.set k (← c.read fd n)⟩, .read k n msg)
      | _ => none
  | .close k => do
      let c ← S.conns[k]?
      let (server, e) ← step listenfd S.server .close
      match e with
      | .closed fd => return (⟨server, S.conns.set k (← c.close fd)⟩, .closed k)
      | _ => none

/-- Each action of the environment comes with its event. -/
theorem step_event {listenfd : Nat} {s s' : Server} {a : Action} {e : Event}
    (h : step listenfd s a = some (s', e)) :
    match a with
    | .select _ | .next => e.quiet = true
    | .accept connFd => e = .accepted connFd
    | .message _ msg => ∃ i printed response, e = .received i msg printed response (targets listenfd s i)
    | .close => ∃ i, e = .closed i := by
  unfold step at h
  split at h
  · split_ifs at h
    obtain ⟨-, rfl⟩ := Prod.mk.inj (Option.some.inj h)
    rfl
  · split_ifs at h
    · obtain ⟨-, rfl⟩ := Prod.mk.inj (Option.some.inj h)
      rfl
    · obtain ⟨-, rfl⟩ := Prod.mk.inj (Option.some.inj h)
      rfl
  · split_ifs at h
    exact (Prod.mk.inj (Option.some.inj h)).2.symm
  · split_ifs at h
    exact ⟨_, _, _, (Prod.mk.inj (Option.some.inj h)).2.symm⟩
  · split_ifs at h
    exact ⟨_, (Prod.mk.inj (Option.some.inj h)).2.symm⟩
  · exact absurd h (by simp)

/-- The executable step does steps. -/
theorem sysStep_sound (listenfd : Nat) (S : Sys) (a : SysAction) (S' : Sys) (e : SysEvent)
    (h : sysStep listenfd S a = some (S', e)) : SysStep listenfd S e S' := by
  rcases a with _ | ⟨k, m⟩ | ⟨k, tail⟩ | a | ⟨k, fd⟩ | ⟨k, n, stale, other⟩ | k <;>
    simp only [sysStep, Option.bind_eq_bind, Option.bind_eq_some_iff, Option.pure_def,
      Option.some.injEq, Prod.mk.injEq] at h
  · obtain ⟨rfl, rfl⟩ := h
    exact .connect
  · obtain ⟨c, hk, c', hc, rfl, rfl⟩ := h
    exact .write hk hc
  · obtain ⟨c, hk, c', hc, rfl, rfl⟩ := h
    exact .leave hk hc
  · obtain ⟨⟨server, e⟩, hstep, h⟩ := h
    split_ifs at h with hquiet
    cases h
    exact .serve (step_sound listenfd _ _ _ _ hstep) hquiet
  · obtain ⟨c, hk, c', hc, ⟨server, e⟩, hstep, rfl, rfl⟩ := h
    obtain rfl : e = .accepted fd := step_event hstep
    exact .accept hk hc (step_sound listenfd _ _ _ _ hstep)
  · obtain ⟨c, hk, msg, hseen, ⟨server, e⟩, hstep, h⟩ := h
    obtain ⟨fd, printed, response, rfl⟩ := step_event hstep
    simp only [Option.bind_eq_some_iff, Option.some.injEq, Prod.mk.injEq] at h
    obtain ⟨c', hc, rfl, rfl⟩ := h
    exact .read hk hc hseen (step_sound listenfd _ _ _ _ hstep)
  · obtain ⟨c, hk, ⟨server, e⟩, hstep, h⟩ := h
    obtain ⟨fd, rfl⟩ := step_event hstep
    simp only [Option.bind_eq_some_iff, Option.some.injEq, Prod.mk.injEq] at h
    obtain ⟨c', hc, rfl, rfl⟩ := h
    exact .close hk hc (step_sound listenfd _ _ _ _ hstep)

end SystemProgrammingLab.Week13
