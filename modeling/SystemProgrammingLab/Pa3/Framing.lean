import SystemProgrammingLab.Found.ReadStream
import SystemProgrammingLab.Pa3.Server

/-!
# Query framing in `client_handler`

A query is 12 bytes, three `int`s in the byte order of the machine (little endian). The client
writes them with one `write`; `client_handler` reads into one `query` variable, ends the
connection when `read` returns 0, and otherwise hands the variable to `handle_query`, whether
`read` returned 12 bytes, fewer, or -1.

`Framed` is the law of the loop: the queries handled are the complete records of the stream, and
each is handled from its own bytes and once. It holds if and only if every read returns 12 bytes,
up to the first query with action 0 or the end of the stream (`framed_iff`). A short read leaves
old bytes behind the new ones, and a failed read leaves all of them (`not_framed`).

Source: `pa3/pa3_server.c`, `client_handler`
-/

namespace SystemProgrammingLab.Pa3

open SystemProgrammingLab.Found

/-! ## The bytes of a query -/

/-- The value of bytes, the least significant one first. -/
def natOfBytes : List UInt8 → Nat
  | [] => 0
  | b :: bs => b.toNat + 256 * natOfBytes bs

/-- The four bytes of an `int`. -/
def intBytes (n : Int) : List UInt8 :=
  (List.range 4).map fun i => UInt8.ofNat ((n % 2 ^ 32).toNat / 256 ^ i)

/-- The `int` in four bytes. -/
def intOfBytes (bs : List UInt8) : Int := toInt (natOfBytes bs)

/-- The 12 bytes the client writes for a query. Source: `pa3_client.c`, `main` -/
def Query.bytes (q : Query) : List UInt8 := intBytes q.user ++ intBytes q.action ++ intBytes q.data

/-- The query in the 12 bytes of the server's variable `q`. Source: `client_handler` -/
def Query.ofBytes (bs : List UInt8) : Query :=
  ⟨intOfBytes (bs.take 4), intOfBytes ((bs.drop 4).take 4), intOfBytes ((bs.drop 8).take 4)⟩

/-- Four bytes hold a number below `2 ^ 32`. -/
theorem natOfBytes_digits (m : Nat) (hm : m < 2 ^ 32) :
    natOfBytes ((List.range 4).map fun i => UInt8.ofNat (m / 256 ^ i)) = m := by
  simp only [List.range_succ, List.range_zero, List.nil_append, List.map_cons, List.map_nil,
    List.cons_append, natOfBytes, UInt8.toNat_ofNat']
  omega

/-- An `int` is read as it was written. -/
theorem intOfBytes_intBytes {n : Int} (hlo : -2 ^ 31 ≤ n) (hhi : n < 2 ^ 31) :
    intOfBytes (intBytes n) = n := by
  unfold intOfBytes intBytes
  rw [natOfBytes_digits _ (by omega)]
  unfold toInt
  omega

/-- It takes four bytes. -/
@[simp] theorem length_intBytes (n : Int) : (intBytes n).length = 4 := by
  simp [intBytes]

/-- The fields of a query are `int`s. -/
def Query.InRange (q : Query) : Prop :=
  ∀ n ∈ [q.user, q.action, q.data], -2 ^ 31 ≤ n ∧ n < 2 ^ 31

instance (q : Query) : Decidable q.InRange :=
  inferInstanceAs (Decidable (∀ n ∈ [q.user, q.action, q.data], -2 ^ 31 ≤ n ∧ n < 2 ^ 31))

/-- The server reads the query that the client wrote. -/
theorem Query.ofBytes_bytes {q : Query} (h : q.InRange) : Query.ofBytes q.bytes = q := by
  have huser := h q.user (by simp)
  have haction := h q.action (by simp)
  have hdata := h q.data (by simp)
  have htake : q.bytes.take 4 = intBytes q.user := by
    simp [Query.bytes]
  have hmid : (q.bytes.drop 4).take 4 = intBytes q.action := by
    simp [Query.bytes]
  have hlast : (q.bytes.drop 8).take 4 = intBytes q.data := by
    simp [Query.bytes, List.drop_append, List.take_of_length_le, List.drop_of_length_le]
  unfold Query.ofBytes
  rw [htake, hmid, hlast, intOfBytes_intBytes huser.1 huser.2,
    intOfBytes_intBytes haction.1 haction.2, intOfBytes_intBytes hdata.1 hdata.2]

/-! ## The loop -/

/-- `q.action == 0`, the query after which the loop ends. Source: `client_handler` -/
def Query.terminates (q : Query) : Bool := q.action == 0

/-- The record holds such a query. -/
def endsConnection (bs : List UInt8) : Bool := (Query.ofBytes bs).terminates

/-- The queries that the loop passes to `handle_query`, for the reads `rs`, with `q` the variable
before the first read. Source: `client_handler` -/
def clientHandler (q : Fin 12 → UInt8) (rs : List (ReadResult 12 UInt8)) : List Query :=
  (readLoop endsConnection q rs).map Query.ofBytes

/-- Up to the first query with action 0, the queries handled are the successive complete records
of the stream, each handled from its own bytes and once. -/
structure Framed (q : Fin 12 → UInt8) (rs : List (ReadResult 12 UInt8)) : Prop where
  queries : clientHandler q rs =
    upTo Query.terminates ((records 12 (delivered rs)).map Query.ofBytes)
  places : InOrder 12 0 (origins endsConnection q rs)

/-- **The queries are framed if and only if every read returns 12 bytes**, up to the first query
with action 0 or the end of the stream. -/
theorem framed_iff (q : Fin 12 → UInt8) (rs : List (ReadResult 12 UInt8)) :
    Framed q rs ↔ Whole endsConnection rs := by
  have hstop : endsConnection = Query.terminates ∘ Query.ofBytes := rfl
  have hplaces := inOrder_origins_iff (by omega) endsConnection q rs
  constructor
  · intro h
    exact hplaces.mp h.places
  · intro h
    refine ⟨?_, hplaces.mpr h⟩
    unfold clientHandler
    rw [readLoop_of_whole (by omega) endsConnection rs q h, upTo_map, ← hstop]

/-- A book query, then a read that fails, then the end of the stream. -/
def failedRead : List (ReadResult 12 UInt8) :=
  [.data (Query.bytes ⟨1, 2, 5⟩) (by decide), .error, .eof]

/-- A book query, then the first 4 bytes of a cancel query of client 2. -/
def shortRead : List (ReadResult 12 UInt8) :=
  [.data (Query.bytes ⟨1, 2, 5⟩) (by decide), .data ((Query.bytes ⟨2, 4, 6⟩).take 4) (by decide)]

/-- **A failed read executes the last query again, and a short one a query mixed from two
records.** -/
theorem not_framed :
    clientHandler (fun _ => 0) failedRead = [⟨1, 2, 5⟩, ⟨1, 2, 5⟩] ∧
      ¬ Framed (fun _ => 0) failedRead ∧
      clientHandler (fun _ => 0) shortRead = [⟨1, 2, 5⟩, ⟨2, 2, 5⟩] ∧
      ¬ Framed (fun _ => 0) shortRead := by
  have hfailed : clientHandler (fun _ => 0) failedRead = [⟨1, 2, 5⟩, ⟨1, 2, 5⟩] := by decide
  have hshort : clientHandler (fun _ => 0) shortRead = [⟨1, 2, 5⟩, ⟨2, 2, 5⟩] := by decide
  refine ⟨hfailed, ?_, hshort, ?_⟩
  · intro h
    have hqueries := h.queries
    rw [hfailed] at hqueries
    exact absurd hqueries (by decide)
  · intro h
    have hqueries := h.queries
    rw [hshort] at hqueries
    exact absurd hqueries (by decide)

end SystemProgrammingLab.Pa3
