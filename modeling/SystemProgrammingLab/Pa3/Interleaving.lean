import SystemProgrammingLab.Pa3.Statements
import SystemProgrammingLab.Pa3.System

/-!
# The handler threads, statement by statement

`System` runs a query in one step. Here a handler thread is its socket and, while it answers a query,
what is left of `handle_query` (`Handler`); a step is one statement of one thread (`Pool.Step`), and the
other threads may do any number of statements in between.

A history of this system is compared with one of `System` through marks (`Mark`): the events of the
threads, and between them the events of `System` that stand for what the statements amount to. `Status`
says what a query of a connection may have before it: first the query is read, then it takes effect,
then the reply is written, and the reply is the one that came with the effect.

Source: `pa3/pa3_server.c`, `handle_query`, `client_handler`, `main`
-/

namespace SystemProgrammingLab.Pa3

open SystemProgrammingLab.Found

/-- A handler thread: its socket, and the query that it answers with what is left to do. Source: `client_handler` -/
structure Handler where
  socket : Int
  task : Option (Query × Code Reply)

/-- The server process: its tables with the locks, how many connections were accepted, and the threads of the
live ones. Source: `pa3_server.c` -/
structure Pool where
  tables : Tables
  accepted : Nat
  handler : Nat → Option Handler

namespace Pool

/-- The process before the first `accept`. -/
def init : Pool := ⟨.unlocked .init, 0, fun _ => none⟩

/-- Start, change or end the thread of connection `k`. -/
def setHandler (s : Pool) (k : Nat) (h : Option Handler) : Pool :=
  { s with handler := Function.update s.handler k h }

/-- A thread that goes on leaves the tables as they are. -/
@[simp] theorem setHandler_tables (s : Pool) (k : Nat) (h : Option Handler) :
    (s.setHandler k h).tables = s.tables := rfl

/-- A thread that goes on leaves the number of connections. -/
@[simp] theorem setHandler_accepted (s : Pool) (k : Nat) (h : Option Handler) :
    (s.setHandler k h).accepted = s.accepted := rfl

/-- A thread that goes on is what was set. -/
@[simp] theorem setHandler_handler (s : Pool) (k : Nat) (h : Option Handler) :
    (s.setHandler k h).handler = Function.update s.handler k h := rfl

/-- What happens to a connection: it is accepted, its thread reads a query, does a statement, writes
the reply, or finds the end of the stream. -/
inductive Event
  | accept (k : Nat) (socket : Int)
  | query (k : Nat) (q : Query)
  | stmt (k : Nat) (a : Stmt)
  | reply (k : Nat) (q : Query) (r : Reply)
  | eof (k : Nat)
  deriving DecidableEq

/-- The thread that has answered `q` waits for the next query, or has ended. Source: `client_handler` -/
def afterReply (socket : Int) (q : Query) : Option Handler :=
  if q.action = 0 then none else some ⟨socket, none⟩

/-- One step of one thread. Source: `main`, `client_handler`, `handle_query` -/
inductive Step : Pool → Event → Pool → Prop
  | accept {s : Pool} {socket : Int} (hnonneg : 0 ≤ socket)
      (hfree : ∀ k < s.accepted, ∀ h ∈ s.handler k, h.socket ≠ socket) :
      Step s (.accept s.accepted socket)
        { s.setHandler s.accepted (some ⟨socket, none⟩) with accepted := s.accepted + 1 }
  | query {s : Pool} {k : Nat} {socket : Int} {q : Query} (hk : s.handler k = some ⟨socket, none⟩) :
      Step s (.query k q) (s.setHandler k (some ⟨socket, some (q, Code.handleQuery socket q)⟩))
  | stmt {s : Pool} {k : Nat} {socket : Int} {q : Query} {a : Stmt} {next : Int → Code Reply} {v : Int}
      {t : Tables} (hk : s.handler k = some ⟨socket, some (q, .act a next)⟩)
      (hexec : a.exec s.tables = some (v, t)) :
      Step s (.stmt k a) { s.setHandler k (some ⟨socket, some (q, next v)⟩) with tables := t }
  | reply {s : Pool} {k : Nat} {socket : Int} {q : Query} {r : Reply}
      (hk : s.handler k = some ⟨socket, some (q, .ret r)⟩) :
      Step s (.reply k q r) (s.setHandler k (afterReply socket q))
  | eof {s : Pool} {k : Nat} {socket : Int} (hk : s.handler k = some ⟨socket, none⟩) :
      Step s (.eof k) (s.setHandler k none)

/-- What comes from outside: a connection, a query, the scheduler giving a thread a turn, the end of a
stream. -/
inductive Input
  | accept (socket : Int)
  | query (k : Nat) (q : Query)
  | turn (k : Nat)
  | eof (k : Nat)

/-- The step function. -/
def step (s : Pool) : Input → Option (Pool × Event)
  | .accept socket =>
      if 0 ≤ socket ∧ ∀ k < s.accepted, ∀ h ∈ s.handler k, h.socket ≠ socket then
        some ({ s.setHandler s.accepted (some ⟨socket, none⟩) with accepted := s.accepted + 1 },
          .accept s.accepted socket)
      else none
  | .query k q =>
      match s.handler k with
      | some ⟨socket, none⟩ =>
          some (s.setHandler k (some ⟨socket, some (q, Code.handleQuery socket q)⟩), .query k q)
      | _ => none
  | .turn k =>
      match s.handler k with
      | some ⟨socket, some (q, .act a next)⟩ =>
          match a.exec s.tables with
          | some (v, t) =>
              some ({ s.setHandler k (some ⟨socket, some (q, next v)⟩) with tables := t }, .stmt k a)
          | none => none
      | some ⟨socket, some (q, .ret r)⟩ => some (s.setHandler k (afterReply socket q), .reply k q r)
      | _ => none
  | .eof k =>
      match s.handler k with
      | some ⟨_, none⟩ => some (s.setHandler k none, .eof k)
      | _ => none

/-- The executable step does steps. -/
theorem step_sound (s : Pool) (a : Input) (s' : Pool) (e : Event) (h : step s a = some (s', e)) :
    Step s e s' := by
  cases a with
  | accept socket =>
      simp only [step] at h
      split_ifs at h with hc
      cases h
      exact .accept hc.1 hc.2
  | query k q =>
      simp only [step] at h
      split at h
      · rename_i hk
        cases h
        exact .query hk
      · cases h
  | turn k =>
      simp only [step] at h
      split at h
      · rename_i hk
        split at h
        · rename_i hexec
          cases h
          exact .stmt hk hexec
        · cases h
      · rename_i hk
        cases h
        exact .reply hk
      · cases h
  | eof k =>
      simp only [step] at h
      split at h
      · rename_i hk
        cases h
        exact .eof hk
      · cases h

/-- What a run changes of one thread. -/
theorem handler_of_set {s : Pool} {k j : Nat} {new : Option Handler} {h : Handler}
    (hj : (s.setHandler k new).handler j = some h) :
    (j = k ∧ new = some h) ∨ (j ≠ k ∧ s.handler j = some h) := by
  by_cases hjk : j = k
  · subst hjk
    rw [setHandler_handler, Function.update_self] at hj
    exact .inl ⟨rfl, hj⟩
  · rw [setHandler_handler, Function.update_of_ne hjk] at hj
    exact .inr ⟨hjk, hj⟩

end Pool

/-! ## Marks -/

/-- An event of the threads, or an event of `System` that stands for it. -/
abbrev Mark := Pool.Event ⊕ Event

/-- Where a query of a connection is: there is none; it was read; it took effect. -/
inductive Status
  | idle
  | called (q : Query)
  | answered (q : Query) (r : Reply)
  deriving DecidableEq

/-- What the next mark makes of the status of connection `k`; `none` where it is out of order. -/
def Status.next (k : Nat) (st : Status) : Mark → Option Status
  | .inl (.query j q) => if j = k then if st = .idle then some (.called q) else none else some st
  | .inr (.reply j q r) => if j = k then if st = .called q then some (.answered q r) else none else some st
  | .inl (.reply j q r) => if j = k then if st = .answered q r then some .idle else none else some st
  | .inr (.confirmStart j _) | .inr (.confirmSeat j _) =>
      if j = k then match st with
        | .called _ => some st
        | _ => none
      else some st
  | _ => some st

/-- The status of connection `k` behind the marks; `none` where they are out of order. -/
def status (k : Nat) (ms : List Mark) : Option Status := ms.foldlM (Status.next k) .idle

/-- The status behind further marks. -/
theorem status_append (k : Nat) (ms ms' : List Mark) :
    status k (ms ++ ms') = (status k ms).bind fun st => ms'.foldlM (Status.next k) st := by
  unfold status
  rw [List.foldlM_append]
  rfl

/-- The events of the threads. -/
def threadEvents (ms : List Mark) : List Pool.Event := ms.filterMap Sum.getLeft?

/-- The events of `System`. -/
def effects (ms : List Mark) : List Event := ms.filterMap Sum.getRight?

/-- The events of the threads, behind others. -/
@[simp] theorem threadEvents_append (ms ms' : List Mark) :
    threadEvents (ms ++ ms') = threadEvents ms ++ threadEvents ms' := List.filterMap_append

/-- The events of `System`, behind others. -/
@[simp] theorem effects_append (ms ms' : List Mark) : effects (ms ++ ms') = effects ms ++ effects ms' :=
  List.filterMap_append

/-- An event of a thread is none of `System`. -/
theorem effects_snoc_inl (ms : List Mark) (e : Pool.Event) : effects (ms ++ [.inl e]) = effects ms := by
  rw [effects_append]
  exact List.append_nil _

end SystemProgrammingLab.Pa3
