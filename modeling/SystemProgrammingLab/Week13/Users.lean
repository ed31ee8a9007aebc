import SystemProgrammingLab.Week13.Clients
import Mathlib.Data.Fin.Basic

/-!
# The count of active users

The server counts a user when it accepts the connection, and takes the user off the count when it reads a
message of type 2. It does not when it finds a connection closed, and a client that leaves by `SIGINT` or
dies sends no such message: such a user is counted for ever (`not_exact`).

As long as every read returns a whole message, the count is the number of the accepted connections whose
quit message was not read (`Counted`). It is the number of active users in every run in which no connection
is found closed before (`exact_of_clean`).

Source: `week13/client.c`, `week13/server.c`
-/

namespace SystemProgrammingLab.Week13

open SystemProgrammingLab.Found

/-! ## Who is active -/

/-- The server has read the quit message of the client. -/
def Conn.hasQuit (c : Conn) : Bool :=
  (c.written.take (c.consumed / messageSize)).any fun m => m.type = 2

/-- The connection was accepted, and it has neither delivered a quit message nor been found closed. -/
def Conn.active (c : Conn) : Bool :=
  match c.place with
  | .opened _ => !c.hasQuit
  | .pending | .closed => false

/-- The count is exact. -/
def Exact (S : Sys) : Prop := S.server.activeUsers = S.conns.countP Conn.active

/-- A read returns a whole message, and a connection is found closed after its quit message was read. -/
def Clean (S : Sys) : SysEvent → Prop
  | .read _ n _ => n = messageSize
  | .closed k => S.conns[k]?.any Conn.hasQuit = true
  | .connected | .wrote _ _ | .left _ | .served _ | .accepted _ _ => True

instance (S : Sys) : (e : SysEvent) → Decidable (Clean S e)
  | .read .. | .closed _ => inferInstanceAs (Decidable (_ = _))
  | .connected | .wrote .. | .left _ | .served _ | .accepted .. => inferInstanceAs (Decidable True)

/-! ## One connection -/

/-- The server counts the user of this connection. -/
def Conn.counted (c : Conn) : Bool := c.place ≠ .pending ∧ c.hasQuit = false

/-- A connection whose messages were read as a whole. A quit message is the last one of its client. -/
structure Conn.Kept (c : Conn) : Prop where
  aligned : c.consumed % messageSize = 0
  bound : c.consumed ≤ messageSize * c.written.length + c.tail
  tail : c.tail < messageSize
  running : c.stage ≠ .gone → c.tail = 0
  pending : c.place = .pending → c.consumed = 0
  last : ∀ i m, c.written[i]? = some m → m.type = 2 → i + 1 = c.written.length ∧ c.stage = .gone

section conn

variable {c c' : Conn} {m msg other : Message} {fd tail : Nat}

/-- A client that has not begun. -/
theorem kept_init : Conn.init.Kept :=
  ⟨rfl, Nat.le_refl _, by decide, fun _ => rfl, fun _ => rfl, by simp [Conn.init]⟩

/-- What a write of a client does. -/
theorem Conn.write_eq (h : c.write m = some c') : c.stage ≠ .gone ∧
    c' = { c with stage := c'.stage, written := c.written ++ [m] } ∧ (m.type = 2 → c'.stage = .gone) := by
  unfold Conn.write at h
  split_ifs at h with h₀ h₁ h₂ <;> obtain rfl := Option.some.inj h
  · exact ⟨by simp [h₀.1], rfl, fun htype => by simp [h₀.2] at htype⟩
  · exact ⟨by simp [h₁.1], rfl, fun htype => by simp [h₁.2] at htype⟩
  · exact ⟨by simp [h₂.1], rfl, fun _ => rfl⟩

/-- The bytes that were read are bytes of complete messages. -/
theorem Conn.Kept.div_le (h : c.Kept) : c.consumed / messageSize ≤ c.written.length := by
  have hbound := h.bound
  have htail := h.tail
  simp only [messageSize] at *
  omega

/-- A client that writes is kept in its place. -/
theorem Conn.Kept.write (h : c.Kept) (hc : c.write m = some c') :
    c'.Kept ∧ c'.place = c.place ∧ c'.hasQuit = c.hasQuit := by
  obtain ⟨hstage, hc', hquit⟩ := Conn.write_eq hc
  have htail := h.running hstage
  have hbound := h.bound
  rw [hc']
  refine ⟨⟨h.aligned, ?_, h.tail, fun _ => htail, h.pending, ?_⟩, rfl, ?_⟩
  · show c.consumed ≤ messageSize * (c.written ++ [m]).length + c.tail
    rw [List.length_append, List.length_singleton]
    simp only [messageSize] at *
    omega
  · intro i m' hm' htype
    have hm' : (c.written ++ [m])[i]? = some m' := hm'
    rcases Nat.lt_or_ge i c.written.length with hi | hi
    · rw [List.getElem?_append_left hi] at hm'
      exact absurd (h.last i m' hm' htype).2 hstage
    · rw [List.getElem?_append_right hi, List.getElem?_singleton] at hm'
      split_ifs at hm' with hzero
      obtain rfl := Option.some.inj hm'
      refine ⟨?_, hquit htype⟩
      show i + 1 = (c.written ++ [m]).length
      rw [List.length_append, List.length_singleton]
      omega
  · show ((c.written ++ [m]).take (c.consumed / messageSize)).any _ = _
    rw [List.take_append_of_le_length h.div_le]
    rfl

/-- A client that leaves is kept in its place. -/
theorem Conn.Kept.leave (h : c.Kept) (hc : c.leave tail = some c') :
    c'.Kept ∧ c'.place = c.place ∧ c'.hasQuit = c.hasQuit := by
  unfold Conn.leave at hc
  split_ifs at hc with hcond
  obtain rfl := Option.some.inj hc
  have htail := h.running hcond.1
  have hbound := h.bound
  refine ⟨⟨h.aligned, ?_, hcond.2, fun hgone => absurd rfl hgone, h.pending, ?_⟩, rfl, rfl⟩
  · show c.consumed ≤ messageSize * c.written.length + tail
    omega
  · intro i m hm htype
    exact absurd (h.last i m hm htype).2 hcond.1

/-- A client that is accepted is kept, and counted from then on. -/
theorem Conn.Kept.accept (h : c.Kept) (hc : c.accept fd = some c') :
    c'.Kept ∧ c'.place = .opened fd ∧ c.counted = false ∧ c'.counted = true := by
  unfold Conn.accept at hc
  split_ifs at hc with hplace
  obtain rfl := Option.some.inj hc
  have hzero := h.pending hplace
  refine ⟨⟨h.aligned, h.bound, h.tail, h.running, by simp, h.last⟩, rfl, ?_, ?_⟩
  · simp [Conn.counted, hplace]
  · simp [Conn.counted, Conn.hasQuit, hzero]

/-- A client that is closed is kept, and counted as it was. -/
theorem Conn.Kept.close (h : c.Kept) (hc : c.close fd = some c') :
    c'.Kept ∧ c'.hasQuit = c.hasQuit ∧ c'.counted = c.counted := by
  unfold Conn.close at hc
  split_ifs at hc with hcond
  obtain rfl := Option.some.inj hc
  refine ⟨⟨h.aligned, h.bound, h.tail, h.running, by simp, h.last⟩, rfl, ?_⟩
  have hquit : ({ c with place := .closed } : Conn).hasQuit = c.hasQuit := rfl
  simp [Conn.counted, hcond.1, hquit]

/-- A read of a whole message takes the user off the count if it is the quit message, which is read
once. -/
theorem Conn.Kept.read (h : c.Kept) (hc : c.read fd messageSize = some c')
    (hseen : c.seen messageSize other = some msg) :
    c'.Kept ∧ c'.place = .opened fd ∧ (if c'.counted then 1 else 0 : Int) =
      countUsers (if c.counted then 1 else 0) msg := by
  unfold Conn.read at hc
  split_ifs at hc with hcond
  obtain ⟨hplace, -, -, havail⟩ := hcond
  have hc' : c' = { c with consumed := c.consumed + messageSize } := (Option.some.inj hc).symm
  have hplace' : c'.place = .opened fd := by rw [hc', hplace]
  have haligned := h.aligned
  rw [Conn.seen, if_pos ⟨haligned, rfl⟩] at hseen
  refine ⟨?_, hplace', ?_⟩
  · rw [hc']
    refine ⟨?_, havail, h.tail, h.running, ?_, h.last⟩
    · show (c.consumed + messageSize) % messageSize = 0
      simp only [messageSize] at *
      omega
    · intro hpending
      exact absurd (hplace.symm.trans hpending) (by simp)
  · have hdiv : (c.consumed + messageSize) / messageSize = c.consumed / messageSize + 1 := by
      simp only [messageSize]
      omega
    have hquit : c'.hasQuit = (c.hasQuit || decide (msg.type = 2)) := by
      rw [hc']
      simp only [Conn.hasQuit, hdiv, List.take_add_one, hseen]
      simp
    have hnew : c'.counted = !(c.hasQuit || decide (msg.type = 2)) := by
      simp [Conn.counted, hplace', hquit]
    have hold : c.counted = !c.hasQuit := by simp [Conn.counted, hplace]
    rw [hnew, hold, countUsers]
    by_cases htype : msg.type = 2
    · -- the quit message is the last one, and was not read before
      have hlast := (h.last _ msg hseen htype).1
      have hnot : c.hasQuit = false := by
        rw [Conn.hasQuit, List.any_eq_false]
        intro m hm
        obtain ⟨i, hi, rfl⟩ := List.mem_take_iff_getElem.mp hm
        have hlt : i < c.written.length := by omega
        have hi' := (h.last i _ (List.getElem?_eq_getElem hlt)).mt (by omega)
        simpa using hi'
      simp [htype, hnot]
    · simp [htype]

end conn

/-! ## All connections -/

/-- The messages were read as a whole, the server counts the connections without a quit message, and only
connections with one were found closed. -/
structure Counted (S : Sys) : Prop where
  kept : ∀ c ∈ S.conns, c.Kept
  count : S.server.activeUsers = S.conns.countP Conn.counted
  closed : ∀ c ∈ S.conns, c.place = .closed → c.hasQuit = true

section users

variable {listenfd : Nat} {s s' : Server} {ev : Event} {S S' : Sys} {e : SysEvent}
  {es : List SysEvent} {c c' : Conn} {k : Nat}

/-- A quiet event changes no number of users. -/
theorem Event.count_quiet (h : ev.quiet = true) (activeUsers : Int) :
    ev.count activeUsers = activeUsers := by
  rcases ev with _ | _ | _ | _ | _ | _ | _ <;> first | rfl | cases h

/-- The count after one connection has changed. -/
theorem countP_set_eq (hk : S.conns[k]? = some c) :
    ((S.conns.set k c').countP Conn.counted : Int) = S.conns.countP Conn.counted -
      (if c.counted then 1 else 0) + (if c'.counted then 1 else 0) := by
  obtain ⟨hlt, hget⟩ := List.getElem?_eq_some_iff.mp hk
  have hset := List.countP_set (p := Conn.counted) (a := c') hlt
  have hpos : (if c.counted = true then 1 else 0) ≤ S.conns.countP Conn.counted := by
    split_ifs with hcounted
    · exact List.countP_pos_iff.mpr ⟨c, List.mem_of_getElem? hk, hcounted⟩
    · exact Nat.zero_le _
  rw [hget] at hset
  rw [hset]
  split_ifs at hpos ⊢ <;> omega

/-- One connection changes, together with the count. -/
theorem Counted.set (h : Counted S) (hk : S.conns[k]? = some c) {server : Server} (hkept : c'.Kept)
    (hcount : server.activeUsers = S.server.activeUsers -
      (if c.counted then 1 else 0) + (if c'.counted then 1 else 0))
    (hclosed : c'.place = .closed → c'.hasQuit = true) :
    Counted ⟨server, S.conns.set k c'⟩ := by
  refine ⟨?_, ?_, ?_⟩
  · intro d hd
    rcases List.mem_or_eq_of_mem_set hd with hd | rfl
    · exact h.kept d hd
    · exact hkept
  · show server.activeUsers = ((S.conns.set k c').countP Conn.counted : Int)
    rw [hcount, h.count, countP_set_eq hk]
  · intro d hd
    rcases List.mem_or_eq_of_mem_set hd with hd | rfl
    · exact h.closed d hd
    · exact hclosed

/-- The client moves, and the server has read nothing new. -/
theorem Counted.client (h : Counted S) (hk : S.conns[k]? = some c)
    (hc : c'.Kept ∧ c'.place = c.place ∧ c'.hasQuit = c.hasQuit) :
    Counted { S with conns := S.conns.set k c' } := by
  obtain ⟨hkept, hplace, hquit⟩ := hc
  have hcounted : c'.counted = c.counted := by rw [Conn.counted, Conn.counted, hplace, hquit]
  apply h.set hk hkept
  · rw [hcounted]
    omega
  · rw [hplace, hquit]
    exact h.closed c (List.mem_of_getElem? hk)

/-- At the start nobody is counted. -/
theorem counted_init (listenfd : Nat) (others : Finset Nat) : Counted (.init listenfd others) :=
  ⟨fun _ hc => absurd hc List.not_mem_nil, rfl, fun _ hc => absurd hc List.not_mem_nil⟩

/-- A clean step keeps the count. -/
theorem Counted.step (h : Counted S) (hstep : SysStep listenfd S e S') (hclean : Clean S e) :
    Counted S' := by
  rcases hstep with _ | ⟨hk, hc⟩ | ⟨hk, hc⟩ | ⟨hstep, hquiet⟩ | ⟨hk, hc, hstep⟩ |
    ⟨hk, hc, hseen, hstep⟩ | ⟨hk, hc, hstep⟩
  · refine ⟨?_, ?_, ?_⟩
    · intro d hd
      rcases List.mem_append.mp hd with hd | hd
      · exact h.kept d hd
      · rw [List.mem_singleton.mp hd]
        exact kept_init
    · rw [List.countP_append, h.count]
      rfl
    · intro d hd
      rcases List.mem_append.mp hd with hd | hd
      · exact h.closed d hd
      · rw [List.mem_singleton.mp hd]
        intro hplace
        cases hplace
  · exact h.client hk ((h.kept _ (List.mem_of_getElem? hk)).write hc)
  · exact h.client hk ((h.kept _ (List.mem_of_getElem? hk)).leave hc)
  · refine ⟨h.kept, ?_, h.closed⟩
    rw [hstep.activeUsers, Event.count_quiet hquiet, h.count]
  · obtain ⟨hkept, hplace, hold, hnew⟩ := (h.kept _ (List.mem_of_getElem? hk)).accept hc
    refine h.set hk hkept ?_ (by simp [hplace])
    rw [hstep.activeUsers, hold, hnew]
    simp [Event.count]
  · obtain rfl := hclean
    obtain ⟨hkept, hplace, hcount⟩ := (h.kept _ (List.mem_of_getElem? hk)).read hc hseen
    refine h.set hk hkept ?_ (by simp [hplace])
    rw [hstep.activeUsers, hcount]
    simp only [Event.count, countUsers]
    split_ifs <;> omega
  · obtain ⟨hkept, hquit, hcounted⟩ := (h.kept _ (List.mem_of_getElem? hk)).close hc
    apply h.set hk hkept
    · rw [hstep.activeUsers, hcounted]
      simp [Event.count]
    · intro _
      rw [Clean, hk] at hclean
      exact hquit.trans hclean

/-- With the count kept the number of users is exact. -/
theorem Counted.exact (h : Counted S) : Exact S := by
  unfold Exact
  rw [h.count]
  congr 1
  apply List.countP_congr
  intro c hc
  have hclosed := h.closed c hc
  rcases hplace : c.place with _ | fd | _ <;> simp_all [Conn.counted, Conn.active]

/-- **The count is exact in every run in which every read returns a whole message, and no connection is
found closed before its quit message was read.** -/
theorem exact_of_clean {others : Finset Nat}
    (h : Run (Guarded (SysStep listenfd) Clean) (.init listenfd others) es S) : Exact S :=
  (h.invariant Counted (fun _ _ _ hS hstep => hS.step hstep.1 hstep.2)
    (counted_init listenfd others)).exact

end users

/-- A message of this type without a text. -/
def blank (type : Int) : Message := ⟨fun _ => '\x00', fun _ => '\x00', type⟩

/-- A client connects and joins, and the server accepts the connection as 4. -/
def accepted : List SysAction :=
  [.connect, .write 0 (blank 0), .serve (.select {3}), .serve .next, .serve .next, .serve .next,
    .accept 0 4, .serve .next, .serve .next]

/-- The server visits 4. -/
def visitFour (a : SysAction) : List SysAction :=
  [.serve (.select {4}), .serve .next, .serve .next, .serve .next, .serve .next, a, .serve .next]

/-- The client quits, the server reads its messages, and finds the connection closed. -/
def quits : List SysAction :=
  accepted ++ [.write 0 (blank 2)] ++ visitFour (.read 0 108 (blank 2) (blank 2)) ++
    visitFour (.read 0 108 (blank 2) (blank 2)) ++ visitFour (.close 0)

/-- Two clients join, and one of them quits. -/
theorem exact_of_clean_quits : ∃ es S, Run (Guarded (SysStep 3) Clean) (.init 3 {0, 1, 2}) es S ∧
    es.length = 31 ∧ Exact S := by
  have hexec : ((exec (guarded (sysStep 3) Clean) (.init 3 {0, 1, 2}) quits).map
      fun p => p.2.length) = some 31 := by decide
  obtain ⟨⟨S, es⟩, hexec, hlen⟩ := Option.map_eq_some_iff.mp hexec
  have hrun : Run (Guarded (SysStep 3) Clean) (.init 3 {0, 1, 2}) es S :=
    exec_run (guarded_sound (sysStep_sound 3)) quits hexec
  exact ⟨es, S, hrun, hlen, exact_of_clean hrun⟩

/-- The client leaves by `SIGINT`, and the server finds the connection closed. -/
def leaves : List SysAction :=
  accepted ++ [.leave 0 0] ++ visitFour (.read 0 108 (blank 2) (blank 2)) ++ visitFour (.close 0)

/-- **After the only client has left by `SIGINT` one user is still counted.** -/
theorem not_exact : ∃ es S, Run (SysStep 3) (.init 3 {0, 1, 2}) es S ∧ S.server.activeUsers = 1 ∧
    S.conns.countP Conn.active = 0 ∧ ¬ Exact S := by
  have hexec : ((exec (sysStep 3) (.init 3 {0, 1, 2}) leaves).map
      fun p => (p.1.server.activeUsers, p.1.conns.countP Conn.active)) = some (1, 0) := by decide
  obtain ⟨⟨S, es⟩, hexec, hcounts⟩ := Option.map_eq_some_iff.mp hexec
  obtain ⟨husers, hactive⟩ := Prod.mk.inj hcounts
  have hrun : Run (SysStep 3) (.init 3 {0, 1, 2}) es S := exec_run (sysStep_sound 3) leaves hexec
  refine ⟨es, S, hrun, husers, hactive, ?_⟩
  unfold Exact
  rw [husers, hactive]
  decide

end SystemProgrammingLab.Week13
