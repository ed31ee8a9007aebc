import SystemProgrammingLab.Week13.Server

/-!
# Messages are broadcast

In every run `readset` holds the listening socket and the connections that were accepted and not yet seen
closed, none of them lies above `fdmax`, and a message that is received is answered with what
`handle_client_data` makes of it, which is written once to every connection but its own (`delivers`). The
copy that the `for` loop works on gets out of date while connections come and go; what it still visits is
in `readset`, since a descriptor leaves the set only in its own round (`Inv`).

Source: `week13/server.c`
-/

namespace SystemProgrammingLab.Week13

open SystemProgrammingLab.Found

/-- A connection was accepted with this descriptor, and it was not seen closed since. -/
def Connected (fd : Nat) (es : List Event) : Prop := Since (· = .accepted fd) (· = .closed fd) es

/-- `active_users` after these events. -/
def usersAfter (es : List Event) : Int := es.foldl Event.count 0

/-- The server prints and sends this for the message: what `handle_client_data` makes of it, from some
contents of the variable `response`. A message for which this is undefined, whatever the contents, may be
answered by anything. -/
def AnswerTo (activeUsers : Int) (msg : Message) (printed : List Char) (response : Message) : Prop :=
  (∃ stale, respond activeUsers stale msg = some (printed, response)) ∨
    ∀ stale, respond activeUsers stale msg = none

/-- What holds after a run with these events. -/
structure Delivers (listenfd : Nat) (es : List Event) (s : Server) : Prop where
  fdmax : ∀ fd ∈ s.readset, fd ≤ s.fdmax
  readset : ∀ fd, fd ∈ s.readset ↔ fd = listenfd ∨ Connected fd es
  received : ∀ pre i msg printed response sent post,
    es = pre ++ .received i msg printed response sent :: post →
      AnswerTo (countUsers (usersAfter pre) msg) msg printed response ∧
        Connected i pre ∧ (∀ j, Connected j pre → j ≠ i → sent.count j = 1) ∧
        ∀ j ∈ sent, Connected j pre ∧ j ≠ i ∧ j ≠ listenfd

/-! ## The connections -/

section connections

variable {listenfd fd i : Nat} {es : List Event} {s s' : Server} {e : Event}

/-- Who is connected when a connection was accepted. -/
theorem connected_accepted {connFd : Nat} :
    Connected fd (es ++ [.accepted connFd]) ↔ fd = connFd ∨ Connected fd es := by
  rw [Connected, since_snoc, Event.accepted.injEq]
  simp [Connected, eq_comm]

/-- Who is connected when a connection was closed. -/
theorem connected_closed : Connected fd (es ++ [.closed i]) ↔ fd ≠ i ∧ Connected fd es := by
  rw [Connected, since_snoc, Event.closed.injEq]
  simp [Connected, eq_comm]

/-- Other events leave the connections as they are. -/
theorem connected_snoc (haccepted : ∀ fd, e ≠ .accepted fd) (hclosed : ∀ fd, e ≠ .closed fd) :
    Connected fd (es ++ [e]) ↔ Connected fd es := by
  rw [Connected, since_snoc]
  simp [haccepted fd, hclosed fd, Connected]

/-- The sets and `fdmax` after a run with these events. -/
structure Inv (listenfd : Nat) (es : List Event) (s : Server) : Prop where
  fdmax : ∀ fd ∈ s.readset, fd ≤ s.fdmax
  readset : ∀ fd, fd ∈ s.readset ↔ fd = listenfd ∨ Connected fd es
  listen : ¬ Connected listenfd es
  opened : s.readset ⊆ s.opened
  copyset : ∀ copyset i, s.scan = .round copyset i → ∀ j ∈ copyset, i ≤ j → j ∈ s.readset

/-- At the start nobody is connected. -/
theorem inv_init (listenfd : Nat) (others : Finset Nat) : Inv listenfd [] (.init listenfd others) := by
  refine ⟨?_, ?_, not_since_nil _ _, ?_, ?_⟩
  · intro fd hfd
    rw [Finset.mem_singleton.mp hfd]
    exact Nat.le_refl _
  · intro fd
    simp [Server.init, Connected]
  · simp [Server.init]
  · rintro copyset i ⟨⟩

/-- A step in which no connection comes or goes, and the loop goes on with descriptors of the set. -/
theorem Inv.stay (h : Inv listenfd es s) (haccepted : ∀ fd, e ≠ .accepted fd)
    (hclosed : ∀ fd, e ≠ .closed fd) {scan : Scan} {activeUsers : Int}
    (hscan : ∀ copyset i, scan = .round copyset i → ∀ j ∈ copyset, i ≤ j → j ∈ s.readset) :
    Inv listenfd (es ++ [e]) { s with activeUsers, scan } := by
  refine ⟨h.fdmax, ?_, ?_, h.opened, hscan⟩
  · intro fd
    rw [connected_snoc haccepted hclosed]
    exact h.readset fd
  · rw [connected_snoc haccepted hclosed]
    exact h.listen

/-- What the loop visits after the round `i` is in the set. -/
theorem Inv.next (h : Inv listenfd es s) {copyset : Finset Nat} (hscan : s.scan = .round copyset i) :
    ∀ copyset' i', Scan.round copyset (i + 1) = .round copyset' i' → ∀ j ∈ copyset', i' ≤ j →
      j ∈ s.readset := by
  rintro _ _ ⟨⟩ j hj hle
  exact h.copyset copyset i hscan j hj (Nat.le_of_succ_le hle)

/-- The server accepts a connection. -/
theorem Inv.accept (h : Inv listenfd es s) {copyset : Finset Nat} {connFd : Nat}
    (hscan : s.scan = .round copyset i) (hfree : connFd ∉ s.opened) :
    Inv listenfd (es ++ [.accepted connFd])
      { handleNewConnection s connFd with scan := .round copyset (i + 1) } := by
  have hlisten : listenfd ∈ s.readset := (h.readset listenfd).mpr (.inl rfl)
  refine ⟨?_, ?_, ?_, ?_, ?_⟩
  · intro fd hfd
    show fd ≤ if s.fdmax < connFd then connFd else s.fdmax
    rcases Finset.mem_insert.mp hfd with rfl | hfd
    · split_ifs <;> omega
    · have hle := h.fdmax fd hfd
      split_ifs <;> omega
  · intro fd
    show fd ∈ insert connFd s.readset ↔ _
    rw [Finset.mem_insert, connected_accepted, h.readset fd]
    exact or_left_comm
  · rw [connected_accepted, not_or]
    refine ⟨?_, h.listen⟩
    rintro rfl
    exact hfree (h.opened hlisten)
  · exact Finset.insert_subset_insert connFd h.opened
  · intro copyset' i' hround j hj hle
    exact Finset.mem_insert_of_mem (h.next hscan copyset' i' hround j hj hle)

/-- The server closes a connection. -/
theorem Inv.close (h : Inv listenfd es s) {copyset : Finset Nat}
    (hscan : s.scan = .round copyset i) (hne : i ≠ listenfd) :
    Inv listenfd (es ++ [.closed i])
      { handleClientData s i .closed with scan := .round copyset (i + 1) } := by
  refine ⟨?_, ?_, ?_, ?_, ?_⟩
  · intro fd hfd
    exact h.fdmax fd (Finset.mem_of_mem_erase hfd)
  · intro fd
    show fd ∈ s.readset.erase i ↔ _
    rw [Finset.mem_erase, connected_closed, h.readset fd]
    constructor
    · rintro ⟨hfd, hlisten | hconn⟩
      · exact .inl hlisten
      · exact .inr ⟨hfd, hconn⟩
    · rintro (rfl | ⟨hfd, hconn⟩)
      · exact ⟨hne.symm, .inl rfl⟩
      · exact ⟨hfd, .inr hconn⟩
  · rw [connected_closed, not_and]
    exact fun _ => h.listen
  · exact Finset.erase_subset_erase i h.opened
  · rintro _ _ ⟨⟩ j hj hle
    -- the round of `i` is over
    exact Finset.mem_erase.mpr ⟨by omega, h.copyset copyset i hscan j hj (by omega)⟩

/-- Every step keeps the invariant. -/
theorem Inv.step (h : Inv listenfd es s) (hstep : Step listenfd s e s') :
    Inv listenfd (es ++ [e]) s' := by
  rcases hstep with ⟨hscan, hready⟩ | ⟨hscan, hi⟩ | ⟨hscan, hi, hnot⟩ |
    ⟨hvisits, hfree, hlt⟩ | ⟨hvisits, hne, hresponse⟩ | ⟨hvisits, hne⟩ | ⟨hvisits, hne⟩ | _
  · apply h.stay (by simp) (by simp)
    rintro _ _ ⟨⟩ j hj -
    exact (Finset.mem_filter.mp (hready hj)).1
  · apply h.stay (by simp) (by simp)
    rintro _ _ ⟨⟩
  · exact h.stay (by simp) (by simp) (h.next hscan)
  · exact h.accept hvisits.scan hfree
  · exact h.stay (by simp) (by simp) (h.next hvisits.scan)
  · exact h.close hvisits.scan hne
  · apply h.stay (by simp) (by simp)
    rintro _ _ ⟨⟩
  · apply h.stay (by simp) (by simp)
    rintro _ _ ⟨⟩

/-- A descriptor that is visited and is not the listening socket is connected. -/
theorem Inv.connected (h : Inv listenfd es s) {copyset : Finset Nat} (hvisits : s.Visits copyset i)
    (hne : i ≠ listenfd) : Connected i es := by
  have hmem : i ∈ s.readset := h.copyset copyset i hvisits.scan i hvisits.mem (Nat.le_refl i)
  exact ((h.readset i).mp hmem).resolve_left hne

/-- The server writes to the connections but the one that it has read from. -/
theorem Inv.mem_targets (h : Inv listenfd es s) {j : Nat} :
    j ∈ targets listenfd s i ↔ Connected j es ∧ j ≠ i ∧ j ≠ listenfd := by
  simp only [targets, List.mem_filter, List.mem_range, decide_eq_true_eq]
  constructor
  · rintro ⟨-, hmem, hlisten, hne⟩
    exact ⟨((h.readset j).mp hmem).resolve_left hlisten, hne, hlisten⟩
  · rintro ⟨hconn, hne, hlisten⟩
    have hmem : j ∈ s.readset := (h.readset j).mpr (.inr hconn)
    exact ⟨Nat.lt_succ_of_le (h.fdmax j hmem), hmem, hlisten, hne⟩

/-- It writes once to each of them. -/
theorem Inv.count_targets (h : Inv listenfd es s) {j : Nat} (hconn : Connected j es) (hne : j ≠ i) :
    (targets listenfd s i).count j = 1 := by
  have hlisten : j ≠ listenfd := by
    rintro rfl
    exact h.listen hconn
  have hnodup : (targets listenfd s i).Nodup := List.nodup_range.filter _
  exact List.count_eq_one_of_mem hnodup (h.mem_targets.mpr ⟨hconn, hne, hlisten⟩)

/-- The invariant holds in every run. -/
theorem run_inv {others : Finset Nat} (h : Run (Step listenfd) (.init listenfd others) es s) :
    Inv listenfd es s :=
  h.history (Inv listenfd) (fun _ _ _ _ hinv hstep => hinv.step hstep) (inv_init listenfd others)

/-- The count of the users follows the events. -/
theorem run_users {others : Finset Nat} (h : Run (Step listenfd) (.init listenfd others) es s) :
    s.activeUsers = usersAfter es := by
  refine h.history (fun es s => s.activeUsers = usersAfter es) ?_ rfl
  intro es s e s' ih hstep
  unfold usersAfter at ih ⊢
  rw [hstep.activeUsers, ih, List.foldl_append, List.foldl_cons, List.foldl_nil]

/-- What the step of a message sends is an answer to it. -/
theorem AnswerTo.of_respond {activeUsers : Int} {stale msg response : Message} {printed : List Char}
    (h : ∀ out, respond activeUsers stale msg = some out → out = (printed, response)) :
    AnswerTo activeUsers msg printed response := by
  rcases hrespond : respond activeUsers stale msg with _ | out
  · exact .inr (respond_eq_none hrespond)
  · exact .inl ⟨stale, by rw [hrespond, h out hrespond]⟩

/-- **In every run `readset` is the listening socket and the open connections, and the answer to every message is
written once to each connection but its own.** -/
theorem delivers {others : Finset Nat} (h : Run (Step listenfd) (.init listenfd others) es s) :
    Delivers listenfd es s := by
  have hinv := run_inv h
  refine ⟨hinv.fdmax, hinv.readset, ?_⟩
  rintro pre i msg printed response sent post rfl
  obtain ⟨s₁, s₂, hpre, hstep, -⟩ := h.split
  have hinv₁ := run_inv hpre
  rcases hstep with _ | _ | _ | _ | ⟨hvisits, hne, hresponse⟩
  rw [run_users hpre] at hresponse
  refine ⟨.of_respond hresponse, hinv₁.connected hvisits hne, fun j hconn hji => hinv₁.count_targets hconn hji, ?_⟩
  intro j hj
  exact hinv₁.mem_targets.mp hj

end connections

/-- Clients connect as 4 and 5, and 4 sends a message. -/
def twoClients (msg : Message) : List Action :=
  [.select {3}, .next, .next, .next, .accept 4, .next, .next,
    .select {3}, .next, .next, .next, .accept 5, .next, .next, .next,
    .select {4}, .next, .next, .next, .next, .message msg msg]

/-- The user `a` says `hi`. -/
def saysHi : Message where
  username i := if i = 0 then 'a' else '\x00'
  message i := if i = 0 then 'h' else if i = 1 then 'i' else '\x00'
  type := 1

/-- What 4 has said is written to 5, behind a colon. -/
def fromFourToFive : Event → Bool
  | .received i _ _ response sent => i = 4 ∧ sent = [5] ∧ textOf response.username = some ['a'] ∧
      textOf response.message = some ": hi".toList
  | _ => false

/-- In this run a message of 4 is written to 5. -/
theorem delivers_twoClients : ∃ es s, Run (Step 3) (.init 3 {0, 1, 2}) es s ∧
    es.any fromFourToFive = true ∧ Delivers 3 es s := by
  have hexec : ((exec (step 3) (.init 3 {0, 1, 2}) (twoClients saysHi)).map
      fun p => p.2.any fromFourToFive) = some true := by decide +kernel
  obtain ⟨⟨s, es⟩, hexec, hsent⟩ := Option.map_eq_some_iff.mp hexec
  have hrun : Run (Step 3) (.init 3 {0, 1, 2}) es s := exec_run (step_sound 3) (twoClients saysHi) hexec
  exact ⟨es, s, hrun, hsent, delivers hrun⟩

end SystemProgrammingLab.Week13
