import SystemProgrammingLab.Found.Run
import Mathlib.Data.List.Nodup

/-!
# The accept loop

`main` stores the socket of each new connection in the local variable `client_socket`, the same
stack cell in every iteration, and creates a thread with the address of the cell. The thread
copies the cell when it starts, which may be after the next connections were stored.

`Served` says that the threads hold different sockets, and each accepted socket exactly one
thread once all of them run. It holds in every run in which no connection is stored while a
created thread has not started (`served_of_guarded`). A connection that is stored earlier
overwrites a socket that no thread will ever hold (`not_served_of_storesEarly`).

Source: `pa3/pa3_server.c`, `main`, `client_handler`
-/

namespace SystemProgrammingLab.Pa3.Accept

open SystemProgrammingLab.Found

/-! ## Steps -/

/-- The acceptor and its threads. Source: `main`, `client_handler` -/
structure Acceptor where
  /-- the variable `client_socket` -/
  cell : Int
  /-- a socket was stored, and its thread is not created yet -/
  stored : Bool
  /-- the sockets accepted so far -/
  accepted : List Int
  /-- how many threads were created and have not started -/
  pending : Nat
  /-- the sockets that the threads that started have copied -/
  held : List Int
  deriving DecidableEq

/-- Before the first `accept`. -/
def Acceptor.init : Acceptor := ⟨0, false, [], 0, []⟩

/-- The acceptor stores a socket, the acceptor creates a thread, a thread starts. -/
inductive Event
  | store (fd : Int)
  | create
  | start
  deriving DecidableEq

/-- One step, of the acceptor or of a thread. Source: `main`, `client_handler` -/
inductive Step : Acceptor → Event → Acceptor → Prop
  | store {s : Acceptor} {fd : Int} (hstored : s.stored = false) (hnew : fd ∉ s.accepted) :
      Step s (.store fd) { s with cell := fd, stored := true, accepted := fd :: s.accepted }
  | create {s : Acceptor} (hstored : s.stored = true) :
      Step s .create { s with stored := false, pending := s.pending + 1 }
  | start {s : Acceptor} {n : Nat} (hpending : s.pending = n + 1) :
      Step s .start { s with pending := n, held := s.cell :: s.held }

/-- The step function. -/
def step (s : Acceptor) : Event → Option (Acceptor × Event)
  | .store fd =>
      if s.stored = false ∧ fd ∉ s.accepted then
        some ({ s with cell := fd, stored := true, accepted := fd :: s.accepted }, .store fd)
      else none
  | .create =>
      if s.stored then some ({ s with stored := false, pending := s.pending + 1 }, .create)
      else none
  | .start =>
      match s.pending with
      | 0 => none
      | n + 1 => some ({ s with pending := n, held := s.cell :: s.held }, .start)

/-- The executable step does steps. -/
theorem step_sound (s : Acceptor) (a : Event) (s' : Acceptor) (e : Event)
    (h : step s a = some (s', e)) : Step s e s' := by
  cases a with
  | store fd =>
      simp only [step] at h
      split_ifs at h with hc
      cases h
      exact .store hc.1 hc.2
  | create =>
      simp only [step] at h
      split_ifs at h with hc
      cases h
      exact .create hc
  | start =>
      simp only [step] at h
      split at h
      · cases h
      · rename_i n hn
        cases h
        exact .start hn

/-! ## Every connection is served -/

/-- The started threads hold different sockets, and once all created threads have started each
accepted socket is held by exactly one thread. Between `accept` and `pthread_create` the last
socket has no thread yet. -/
structure Served (s : Acceptor) : Prop where
  distinct : s.held.Nodup
  complete : s.pending = 0 → s.stored = false → ∀ fd ∈ s.accepted, s.held.count fd = 1

/-- The step stores a socket while a created thread has not started. -/
def StoresEarly (s : Acceptor) : Event → Prop
  | .store _ => s.pending ≠ 0
  | .create | .start => False

instance (s : Acceptor) : (e : Event) → Decidable (StoresEarly s e)
  | .store _ => inferInstanceAs (Decidable (_ ≠ _))
  | .create | .start => inferInstanceAs (Decidable False)

/-- How many accepted sockets have no started thread: the one that is stored, and those of the
pending threads. -/
def Acceptor.waiting (s : Acceptor) : Nat := s.pending + s.stored.toNat

/-- At most one accepted socket waits, it is in the cell, and the others are held. -/
structure Inv (s : Acceptor) : Prop where
  nodup : s.accepted.Nodup
  waiting_le : s.waiting ≤ 1
  perm : List.Perm (List.replicate s.waiting s.cell ++ s.held) s.accepted

/-- The invariant holds at the start. -/
theorem inv_init : Inv Acceptor.init := ⟨List.nodup_nil, Nat.zero_le 1, .nil⟩

/-- A step that does not store too early keeps it. -/
theorem Step.inv {s s' : Acceptor} {e : Event} (h : Step s e s') (hguard : ¬ StoresEarly s e)
    (hinv : Inv s) : Inv s' := by
  cases h with
  | @store fd hstored hnew =>
      have hpending : s.pending = 0 := not_not.mp hguard
      have hwaiting : s.waiting = 0 := by simp [Acceptor.waiting, hpending, hstored]
      have hperm := hinv.perm
      rw [hwaiting] at hperm
      refine ⟨List.nodup_cons.mpr ⟨hnew, hinv.nodup⟩, ?_, ?_⟩
      · simp [Acceptor.waiting, hpending]
      · simpa [Acceptor.waiting, hpending] using hperm
  | create hstored =>
      have hwaiting : Acceptor.waiting { s with stored := false, pending := s.pending + 1 } =
          s.waiting := by
        simp [Acceptor.waiting, hstored]
      refine ⟨hinv.nodup, ?_, ?_⟩
      · rw [hwaiting]
        exact hinv.waiting_le
      · rw [hwaiting]
        exact hinv.perm
  | @start n hpending =>
      have hle := hinv.waiting_le
      have hperm := hinv.perm
      have hn : n = 0 ∧ s.stored = false := by
        rw [Acceptor.waiting, hpending] at hle
        cases hs : s.stored <;> simp [hs] at hle ⊢
        · omega
      obtain ⟨rfl, hstored⟩ := hn
      have hwaiting : s.waiting = 1 := by simp [Acceptor.waiting, hpending, hstored]
      rw [hwaiting] at hperm
      refine ⟨hinv.nodup, ?_, ?_⟩
      · simp [Acceptor.waiting, hstored]
      · simpa [Acceptor.waiting, hstored] using hperm

/-- So every connection is served once. -/
theorem Inv.served {s : Acceptor} (hinv : Inv s) : Served s := by
  have hnodup : (List.replicate s.waiting s.cell ++ s.held).Nodup :=
    hinv.perm.nodup_iff.mpr hinv.nodup
  refine ⟨(List.nodup_append.mp hnodup).2.1, ?_⟩
  intro hpending hstored fd hfd
  have hperm := hinv.perm
  have hwaiting : s.waiting = 0 := by simp [Acceptor.waiting, hpending, hstored]
  rw [hwaiting] at hperm
  have hheld : List.Perm s.held s.accepted := hperm
  rw [hheld.count_eq fd]
  exact List.count_eq_one_of_mem hinv.nodup hfd

/-- **In a run that stores no socket while a created thread has not started, every accepted
connection is served.** -/
theorem served_of_guarded {es : List Event} {s : Acceptor}
    (h : Run (Guarded Step fun s e => ¬ StoresEarly s e) Acceptor.init es s) : Served s := by
  have hinv : Inv s :=
    h.invariant Inv (fun _ _ _ hinv hs => hs.1.inv hs.2 hinv) inv_init
  exact hinv.served

/-- Two connections, the second one after the thread of the first has started. -/
def inTurn : List Event := [.store 4, .create, .start, .store 5, .create, .start]

/-- Two connections, one after the other. -/
theorem inTurn_served :
    Run (Guarded Step fun s e => ¬ StoresEarly s e) Acceptor.init inTurn
        ⟨5, false, [5, 4], 0, [5, 4]⟩ ∧
      Served ⟨5, false, [5, 4], 0, [5, 4]⟩ := by
  have h : Run (Guarded Step fun s e => ¬ StoresEarly s e) Acceptor.init inTurn
      ⟨5, false, [5, 4], 0, [5, 4]⟩ :=
    exec_run (guarded_sound step_sound) inTurn (by decide)
  exact ⟨h, served_of_guarded h⟩

/-- Two connections before the thread of the first starts. -/
def tooFast : List Event := [.store 4, .create, .store 5, .create, .start, .start]

/-- **Both threads get socket 5, and nobody serves socket 4.** -/
theorem not_served :
    Run Step Acceptor.init tooFast ⟨5, false, [5, 4], 0, [5, 5]⟩ ∧
      ¬ Served ⟨5, false, [5, 4], 0, [5, 5]⟩ := by
  constructor
  · exact exec_run step_sound tooFast (by decide)
  · intro h
    exact absurd h.distinct (by decide)

/-! ## The sockets that are lost -/

/-- An accepted socket that no thread holds and that is not in the cell any more. -/
def Lost (s : Acceptor) : Prop := ∃ fd ∈ s.accepted, fd ∉ s.held ∧ fd ≠ s.cell

/-- A lost socket stays lost. -/
theorem Step.lost {s s' : Acceptor} {e : Event} (h : Step s e s') (hlost : Lost s) : Lost s' := by
  obtain ⟨fd, hfd, hheld, hcell⟩ := hlost
  cases h with
  | store hstored hnew =>
      refine ⟨fd, List.mem_cons_of_mem _ hfd, hheld, ?_⟩
      rintro rfl
      exact hnew hfd
  | create => exact ⟨fd, hfd, hheld, hcell⟩
  | start =>
      refine ⟨fd, hfd, ?_, hcell⟩
      rw [List.mem_cons, not_or]
      exact ⟨hcell, hheld⟩

/-- The socket of a pending thread is lost when the next one is stored. -/
theorem Step.lost_of_storesEarly {s s' : Acceptor} {e : Event} (h : Step s e s')
    (hearly : StoresEarly s e) (hinv : Inv s) : Lost s' := by
  cases h with
  | @store fd hstored hnew =>
      have hwaiting : s.waiting = 1 := by
        have hle := hinv.waiting_le
        have hpos : s.pending ≠ 0 := hearly
        simp only [Acceptor.waiting, hstored, Bool.toNat_false] at hle ⊢
        omega
      have hperm := hinv.perm
      rw [hwaiting] at hperm
      have hmem : s.cell ∈ s.accepted := hperm.subset (by simp)
      have hnodup : (s.cell :: s.held).Nodup := hperm.nodup_iff.mpr hinv.nodup
      refine ⟨s.cell, List.mem_cons_of_mem _ hmem, (List.nodup_cons.mp hnodup).1, ?_⟩
      intro hcell
      have hcell : s.cell = fd := hcell
      rw [hcell] at hmem
      exact hnew hmem
  | create => exact hearly.elim
  | start => exact hearly.elim

/-- A run that stores a socket too early does not serve every connection, whatever follows. -/
theorem not_served_of_storesEarly {es : List Event} {s : Acceptor}
    (h : Run Step Acceptor.init es s)
    (hearly : ¬ Run (Guarded Step fun s e => ¬ StoresEarly s e) Acceptor.init es s)
    (hpending : s.pending = 0) (hstored : s.stored = false) : ¬ Served s := by
  intro hserved
  rcases h.guarded_or_exists fun s e => ¬ StoresEarly s e with hguarded | hbreaks
  · exact hearly hguarded
  · obtain ⟨pre, e, post, s₁, s₂, -, hpre, hstep, he, hpost⟩ := hbreaks
    have hinv : Inv s₁ := hpre.invariant Inv (fun _ _ _ hinv hs => hs.1.inv hs.2 hinv) inv_init
    have hlost : Lost s :=
      hpost.invariant Lost (fun _ _ _ hlost hs => hs.lost hlost)
        (hstep.lost_of_storesEarly (not_not.mp he) hinv)
    obtain ⟨fd, hfd, hheld, -⟩ := hlost
    have hcount := hserved.complete hpending hstored fd hfd
    rw [List.count_eq_zero.mpr hheld] at hcount
    cases hcount

end SystemProgrammingLab.Pa3.Accept
