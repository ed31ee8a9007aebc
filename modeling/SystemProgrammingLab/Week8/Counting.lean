import SystemProgrammingLab.Week8.Signals

/-!
# The signals are counted

However many signals and acknowledgements are merged or sent again, the acknowledgements of the sender and
what remains to be sent add up to `n`, no acknowledgement is counted that the receiver has not sent, and
when the sender sends `SIGINT` the receiver has handled `n` signals (`Counted`). An acknowledgement that is
pending stands for a signal that was handled and is not yet counted as acknowledged: with it the two
counters are related in every state (`Inv`).

The count is printed as an `int`. It is right in every run in which the receiver has handled at most
`intMax` signals by then (`counted_of_guarded`), and for a larger `n` it never is (`not_counted`).

Source: `week8/main.c`
-/

namespace SystemProgrammingLab.Week8

open SystemProgrammingLab.Found

/-- What the protocol promises after a run with these events. The sender exits when it sends `SIGINT`. -/
structure Counted (n : Int) (es : List Event) (s : State) : Prop where
  total : s.numAckReceived + s.numSignalToSend = n
  remaining : 0 ≤ s.numSignalToSend
  acknowledged : s.numAckReceived ≤ s.numSignalReceived
  interrupted : s.sender = .exited → n ≤ s.numSignalReceived
  printed : ∀ count, .terminateHandler count ∈ es → n ≤ count

/-- The count fits: the `long` when another signal is handled, and the `int` when it is printed. -/
def Fits (s : State) : Event → Prop
  | .sendingAck _ => s.numSignalReceived < longMax
  | .terminateHandler _ => s.numSignalReceived ≤ intMax
  | .setUp | .sendingHandler _ | .recvAckHandler | .killed => True

/-! ## The invariant -/

/-- The invariant: what the sender has counted, what the receiver has counted, and what is on its way. -/
structure Inv (n : Int) (s : State) : Prop where
  total : s.numAckReceived + s.numSignalToSend = n
  acknowledged : 0 ≤ s.numAckReceived ∧
    s.numAckReceived + (if s.ackPending then 1 else 0) ≤ s.numSignalReceived
  running : s.sender ≠ .exited → 0 < s.numSignalToSend
  exited : s.sender = .exited → s.numSignalToSend = 0
  interrupt : s.interruptPending = true → s.sender = .exited

section counting

variable {n : Int} {s s' : State} {e : Event} {es : List Event}

/-- It holds at the start. -/
theorem inv_init (hn : 1 ≤ n) : Inv n (.init n) := by
  refine ⟨Int.zero_add n, by simp [State.init], fun _ => hn, ?_, ?_⟩
  · intro h
    cases h
  · intro h
    cases h

/-- No more acknowledgements were counted than signals. -/
theorem Inv.bounds (h : Inv n s) :
    0 ≤ s.numAckReceived ∧ s.numAckReceived ≤ s.numSignalReceived := by
  obtain ⟨hnonneg, hack⟩ := h.acknowledged
  refine ⟨hnonneg, ?_⟩
  split_ifs at hack <;> omega

/-- A sender that has exited has seen `n` signals handled. -/
theorem Inv.handled (h : Inv n s) (hsender : s.sender = .exited) : n ≤ s.numSignalReceived := by
  have htotal := h.total
  have hzero := h.exited hsender
  have hack := h.bounds.2
  omega

/-- The count does not wrap around while it fits. -/
theorem numSignalReceived_sendingAck (hnonneg : 0 ≤ s.numSignalReceived)
    (hfits : s.numSignalReceived < longMax) :
    (sendingAck s).numSignalReceived = s.numSignalReceived + 1 := by
  unfold sendingAck
  rw [Int.bmod_eq_of_le_mul_two] <;> simp only [longMax] at hfits <;> omega

/-- The handler of the sender keeps it. -/
theorem Inv.recvAckHandler (h : Inv n s) (hsender : s.sender = .running)
    (hpending : s.ackPending = true) : Inv n (recvAckHandler s) := by
  have htotal := h.total
  obtain ⟨hnonneg, hack⟩ := h.acknowledged
  rw [if_pos hpending] at hack
  have hpos : 0 < s.numSignalToSend := h.running (by simp [hsender])
  unfold Week8.recvAckHandler
  dsimp only
  split_ifs with hlast
  · refine ⟨?_, ⟨?_, ?_⟩, fun hne => absurd rfl hne, fun _ => hlast, fun _ => rfl⟩
    · show s.numAckReceived + 1 + (s.numSignalToSend - 1) = n
      omega
    · show 0 ≤ s.numAckReceived + 1
      omega
    · simpa using hack
  · refine ⟨?_, ⟨?_, ?_⟩, fun _ => ?_, ?_, fun hint => h.interrupt hint⟩
    · show s.numAckReceived + 1 + (s.numSignalToSend - 1) = n
      omega
    · show 0 ≤ s.numAckReceived + 1
      omega
    · simpa using hack
    · show 0 < s.numSignalToSend - 1
      omega
    · intro hexited
      exact absurd (hsender.symm.trans hexited) (by decide)

/-- So does the handler of the receiver, if the count fits. -/
theorem Inv.sendingAck (h : Inv n s) (hfits : s.numSignalReceived < longMax) :
    Inv n (sendingAck s) := by
  obtain ⟨hnonneg, hack⟩ := h.bounds
  refine ⟨h.total, ⟨hnonneg, ?_⟩, h.running, h.exited, h.interrupt⟩
  rw [numSignalReceived_sendingAck (Int.le_trans hnonneg hack) hfits]
  exact Int.add_le_add_right hack 1

/-- So does every step. -/
theorem Inv.step (h : Inv n s) (hstep : Step s e s') (hfits : Fits s e) : Inv n s' := by
  rcases hstep with hsender | hreceiver | hreceiver | hsender | ⟨hsender, hpending⟩ |
    ⟨hreceiver, hpending⟩ | ⟨hreceiver, hpending⟩ | hpending
  · refine ⟨h.total, h.acknowledged, fun _ => h.running (by simp [hsender]), ?_, ?_⟩
    · intro hexited
      cases hexited
    · intro hint
      exact absurd (hsender.symm.trans (h.interrupt hint)) (by decide)
  · exact ⟨h.total, h.acknowledged, h.running, h.exited, h.interrupt⟩
  · exact ⟨h.total, h.acknowledged, h.running, h.exited, h.interrupt⟩
  · exact ⟨h.total, h.acknowledged, h.running, h.exited, h.interrupt⟩
  · exact h.recvAckHandler hsender hpending
  · exact h.sendingAck hfits
  · refine ⟨h.total, h.acknowledged, h.running, h.exited, ?_⟩
    intro hint
    cases hint
  · exact ⟨h.total, h.acknowledged, h.running, h.exited, h.interrupt⟩

/-- What is printed is the count, and the sender has exited. -/
theorem Inv.printed (h : Inv n s) {count : Int} (hstep : Step s (.terminateHandler count) s')
    (hfits : s.numSignalReceived ≤ intMax) : n ≤ count := by
  rcases hstep with _ | _ | _ | _ | _ | _ | ⟨hreceiver, hpending⟩
  have hhandled := h.handled (h.interrupt hpending)
  have hreceived : 0 ≤ s.numSignalReceived := Int.le_trans h.bounds.1 h.bounds.2
  have hcount : toInt s.numSignalReceived = s.numSignalReceived := by
    unfold toInt
    simp only [intMax] at hfits
    omega
  rwa [hcount]

/-- **The counts are right in every run in which the count of the receiver fits when it is printed.** -/
theorem counted_of_guarded (hn : 1 ≤ n) (h : Run (Guarded Step Fits) (.init n) es s) :
    Counted n es s := by
  have hinv : Inv n s ∧ ∀ count, .terminateHandler count ∈ es → n ≤ count := by
    refine h.history (fun es s => Inv n s ∧ ∀ count, .terminateHandler count ∈ es → n ≤ count) ?_
      ⟨inv_init hn, fun _ hmem => absurd hmem List.not_mem_nil⟩
    rintro es s e s' ⟨hs, hes⟩ ⟨hstep, hfits⟩
    refine ⟨hs.step hstep hfits, ?_⟩
    intro count hmem
    rcases List.mem_append.mp hmem with hmem | hmem
    · exact hes count hmem
    · obtain rfl := List.mem_singleton.mp hmem
      exact hs.printed hstep hfits
  obtain ⟨hs, hprinted⟩ := hinv
  refine ⟨hs.total, ?_, hs.bounds.2, hs.handled, hprinted⟩
  by_cases hsender : s.sender = .exited
  · exact Int.le_of_eq (hs.exited hsender).symm
  · exact Int.le_of_lt (hs.running hsender)

end counting

/-! ## Runs in which nothing is merged -/

/-- The receiver has handled `k` signals, all are acknowledged, and nothing is pending. -/
def quiet (n k : Int) : State := ⟨.running, n - k, k, false, .running, k, false, false⟩

/-- The receiver has handled one more, and its acknowledgement is pending. -/
def answered (n k : Int) : State := ⟨.running, n - k, k, true, .running, k + 1, false, false⟩

section quiet

variable {n k : Int}

/-- A signal is handled and acknowledged. -/
theorem sendingAck_quiet (hk : 0 ≤ k) (hfits : k < longMax) :
    sendingAck (sendingHandler (quiet n k)) = answered n k := by
  have hnext : (sendingAck (sendingHandler (quiet n k))).numSignalReceived = k + 1 :=
    numSignalReceived_sendingAck hk hfits
  have hbmod : Int.bmod (k + 1) 18446744073709551616 = k + 1 := hnext
  simp [sendingAck, sendingHandler, quiet, answered, hbmod]

/-- The acknowledgement is counted, and the next signal is sent. -/
theorem recvAckHandler_answered (hmore : k + 1 < n) :
    recvAckHandler (answered n k) = quiet n (k + 1) := by
  have hremain : n - k - 1 = n - (k + 1) := by omega
  have hnot : n - (k + 1) ≠ 0 := by omega
  simp [recvAckHandler, answered, quiet, hremain, hnot]

/-- The last acknowledgement ends the sender. -/
theorem recvAckHandler_last :
    recvAckHandler (answered (k + 1) k) = ⟨.exited, 0, k + 1, false, .running, k + 1, false, true⟩ := by
  have hremain : k + 1 - k - 1 = 0 := by omega
  simp only [recvAckHandler, answered, hremain, if_true]

/-- The next signal is handled and acknowledged. -/
theorem exists_answered (hk : 0 ≤ k) (hfits : k < longMax) :
    ∃ es, Run (Guarded Step Fits) (quiet n k) es (recvAckHandler (answered n k)) := by
  have hsent : Guarded Step Fits (quiet n k) _ _ := ⟨.sendingHandler rfl, trivial⟩
  have hacked : Guarded Step Fits (sendingHandler (quiet n k)) _ _ :=
    ⟨.sendingAck (.inr rfl) rfl, hfits⟩
  rw [sendingAck_quiet hk hfits] at hacked
  exact ⟨_, ((Run.nil.snoc hsent).snoc hacked).snoc ⟨.recvAckHandler rfl rfl, trivial⟩⟩

/-- A run in which `k` signals were acknowledged. -/
theorem exists_quiet (hn : n ≤ longMax) (k : Nat) (hk : (k : Int) < n) :
    ∃ es, Run (Guarded Step Fits) (.init n) es (quiet n k) := by
  induction k with
  | zero =>
      have hsender : Guarded Step Fits (.init n) .setUp
          ⟨.running, n, 0, false, .starting, 0, false, false⟩ := ⟨.setAlarm rfl, trivial⟩
      have hsignals : Guarded Step Fits ⟨.running, n, 0, false, .starting, 0, false, false⟩ .setUp
          ⟨.running, n, 0, false, .counting, 0, false, false⟩ := ⟨.handleSignals rfl, trivial⟩
      have hinterrupt : Guarded Step Fits ⟨.running, n, 0, false, .counting, 0, false, false⟩ .setUp
          ⟨.running, n, 0, false, .running, 0, false, false⟩ := ⟨.handleInterrupt rfl, trivial⟩
      have hquiet : quiet n (0 : Nat) = ⟨.running, n, 0, false, .running, 0, false, false⟩ := by
        simp [quiet]
      rw [hquiet]
      exact ⟨_, ((Run.nil.snoc hsender).snoc hsignals).snoc hinterrupt⟩
  | succ k ih =>
      have hcast : ((k + 1 : Nat) : Int) = k + 1 := rfl
      rw [hcast] at hk ⊢
      obtain ⟨es, hrun⟩ := ih (by omega)
      obtain ⟨es', hround⟩ : ∃ es', Run _ (quiet n k) es' _ :=
        exists_answered (Int.natCast_nonneg k) (by omega)
      rw [recvAckHandler_answered hk] at hround
      exact ⟨es ++ es', run_append_iff.mpr ⟨_, hrun, hround⟩⟩

/-- The receiver has the count `n` after the last acknowledgement, and prints it next. -/
theorem exists_last (n : Int) (hn : 1 ≤ n) (hfits : n ≤ longMax) : ∃ es s,
    Run (Guarded Step Fits) (.init n) es s ∧ s.numSignalReceived = n ∧
      Step s (.terminateHandler (toInt n)) (terminateHandler s) := by
  obtain ⟨k, rfl⟩ : ∃ k : Nat, n = k + 1 := ⟨(n - 1).toNat, by omega⟩
  obtain ⟨es, hrun⟩ := exists_quiet hfits k (by omega)
  obtain ⟨es', hround⟩ : ∃ es', Run _ (quiet ((k : Int) + 1) k) es' _ :=
    exists_answered (Int.natCast_nonneg k) (by omega)
  rw [recvAckHandler_last] at hround
  exact ⟨_, _, run_append_iff.mpr ⟨_, hrun, hround⟩, rfl, .terminateHandler rfl rfl⟩

end quiet

/-- Two signals. -/
theorem counted_of_guarded_two : ∃ es s, Run (Guarded Step Fits) (.init 2) es s ∧
    .terminateHandler 2 ∈ es ∧ Counted 2 es s := by
  obtain ⟨es, s, hrun, hcount, hstep⟩ := exists_last 2 (by decide) (by decide)
  have hfits : Fits s (.terminateHandler (toInt 2)) := by
    show s.numSignalReceived ≤ intMax
    rw [hcount]
    decide
  have hrun := hrun.snoc ⟨hstep, hfits⟩
  exact ⟨_, _, hrun, List.mem_append_right _ (List.mem_singleton_self _),
    counted_of_guarded (by decide) hrun⟩

/-- **With 2147483648 signals the receiver prints a negative count.** -/
theorem not_counted : ∃ es s, Run Step (.init 2147483648) es s ∧ ¬ Counted 2147483648 es s := by
  obtain ⟨es, s, hrun, -, hstep⟩ := exists_last 2147483648 (by decide) (by decide)
  have hrun := (hrun.mono fun _ _ _ h => h.1).snoc hstep
  refine ⟨_, _, hrun, ?_⟩
  intro hcounted
  have hle := hcounted.printed _ (List.mem_append_right _ (List.mem_singleton_self _))
  exact absurd hle (by decide)

end SystemProgrammingLab.Week8
