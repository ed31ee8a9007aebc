import SystemProgrammingLab.Pa3.Confirm
import SystemProgrammingLab.Pa3.Seats

/-!
# The booking ledger

For a client `c` other than 0 the replies say which seats it has: those for which the last
successful book-or-cancel reply given to `c` was a book reply, that is, a book reply with no
cancel reply since. The table of seats agrees with the replies in every reachable state
(`run_owner_iff`), whatever the other clients do, client 0 included.

`confirm_booking` visits one seat per step and is no snapshot. It is exact all the same
(`confirm_ledger`): while the scan runs, only the scanning thread could book or cancel for `c`,
because the session of `c` is on its socket, so the seats of `c` do not move
(`Step.owner_stable`).
-/

namespace SystemProgrammingLab.Pa3

open SystemProgrammingLab.Found

/-- The last successful book-or-cancel reply given to `c` for `seat` is a book reply. -/
def Holds (es : List Event) (c seat : Int) : Prop := Since (BookOk c seat) (CancelOk c seat) es

/-! ## The seats agree with the replies -/

/-- The only step that gives a seat to a client other than 0 is its booking of the seat. -/
theorem Step.bookOk_of_enters {s s' : Sys} {e : Event} {c : Int} {i : Fin numSeat}
    (h : Step s e s') (hc : c ≠ 0) (hother : s.server.seats i ≠ c)
    (howner : s'.server.seats i = c) : BookOk c (i : Nat) e := by
  have hchange := h.change
  generalize s'.server = st at hchange howner
  cases hchange with
  | same | login | logout => exact absurd howner hother
  | book k socket u j he hk hin hfree =>
      by_cases hij : i = j
      · subst hij
        rw [Server.setSeat_seats, Function.update_self] at howner
        rw [← howner]
        exact he
      · rw [Server.setSeat_seats, Function.update_of_ne hij] at howner
        exact absurd howner hother
  | cancel k socket u j he hk hin hmine =>
      by_cases hij : i = j
      · subst hij
        rw [Server.setSeat_seats, Function.update_self] at howner
        exact absurd howner.symm hc
      · rw [Server.setSeat_seats, Function.update_of_ne hij] at howner
        exact absurd howner hother

/-- A client other than 0 has the seat after a step when the step is its booking, or when it had
the seat and the step is not its cancel. -/
theorem Step.owner_iff {s s' : Sys} {e : Event} {c : Int} {i : Fin numSeat} (h : Step s e s')
    (hc : c ≠ 0) :
    s'.server.seats i = c ↔
      BookOk c (i : Nat) e ∨ (¬ CancelOk c (i : Nat) e ∧ s.server.seats i = c) := by
  constructor
  · intro howner
    by_cases hbefore : s.server.seats i = c
    · refine .inr ⟨?_, hbefore⟩
      intro he
      obtain ⟨-, u, j, -, -, hj, -, -, -, -, hst⟩ := h.cancelOk he
      obtain rfl : i = j := Fin.ext (by exact_mod_cast hj)
      rw [hst, Server.setSeat_seats, Function.update_self] at howner
      exact hc howner.symm
    · exact .inl (h.bookOk_of_enters hc hbefore howner)
  · rintro (he | ⟨he, hbefore⟩)
    · obtain ⟨-, u, j, -, rfl, hj, -, -, -, hst⟩ := h.bookOk he
      obtain rfl : i = j := Fin.ext (by exact_mod_cast hj)
      rw [hst, Server.setSeat_seats, Function.update_self]
    · by_contra hleaves
      exact he (h.cancelOk_of_leaves hc hbefore hleaves)

/-- **The table of seats agrees with the replies**, for every client other than 0. -/
theorem run_owner_iff {es : List Event} {s : Sys} (h : Run Step Sys.init es s) {c : Int}
    (hc : c ≠ 0) (i : Fin numSeat) : s.server.seats i = c ↔ Holds es c (i : Nat) := by
  apply h.history (fun es s => s.server.seats i = c ↔ Holds es c (i : Nat))
  · intro es t e t' ih hs
    unfold Holds at ih ⊢
    rw [hs.owner_iff hc, since_snoc, ih]
  · have hzero : Sys.init.server.seats i = 0 := rfl
    rw [hzero]
    exact iff_of_false hc.symm (not_since_nil _ _)

/-! ## The scan -/

/-- While the thread of connection `k` scans for `u`, no step of another connection changes which
seats belong to `u`. -/
theorem Step.owner_stable {s s' : Sys} {e : Event} (h : Step s e s') (hwf : s.WF) {k : Nat}
    {socket data : Int} {u : Fin maxClient} {i : Nat} {b : Booked} (hu : ((u : Nat) : Int) ≠ 0)
    (hk : s.conn k = some ⟨socket, .confirming (u : Nat) data i b⟩) (j : Fin numSeat) :
    s'.server.seats j = (u : Nat) ↔ s.server.seats j = (u : Nat) := by
  obtain ⟨u', hu', hin⟩ := hwf.confirming _ _ _ _ _ _ hk
  obtain rfl : u = u' := Fin.ext (by exact_mod_cast hu')
  -- a client that another connection acts for is not `u`
  have hne : ∀ (k' : Nat) (socket' : Int) (c : Fin maxClient),
      s.conn k' = some ⟨socket', .idle⟩ → LoggedIn s.server c socket' → (c : Nat) ≠ (u : Nat) := by
    intro k' socket' c hk' hin' hcu
    obtain rfl : c = u := Fin.ext hcu
    have hkk : k' = k := hwf.distinct k' k _ _ hk' hk (hin'.2.trans hin.2.symm)
    rw [hkk, hk] at hk'
    cases hk'
  have hchange := h.change
  generalize s'.server = st at hchange
  cases hchange with
  | same | login | logout => exact Iff.rfl
  | book k' socket' c l he hk' hin' hfree =>
      have hcu := hne k' socket' c hk' hin'
      by_cases hjl : j = l
      · subst hjl
        rw [Server.setSeat_seats, Function.update_self, hfree]
        exact iff_of_false (by exact_mod_cast hcu) hu.symm
      · rw [Server.setSeat_seats, Function.update_of_ne hjl]
  | cancel k' socket' c l he hk' hin' hmine =>
      have hcu := hne k' socket' c hk' hin'
      by_cases hjl : j = l
      · subst hjl
        rw [Server.setSeat_seats, Function.update_self, hmine]
        exact iff_of_false hu.symm (by exact_mod_cast hcu)
      · rw [Server.setSeat_seats, Function.update_of_ne hjl]

/-- The seats below `i` that belong to `c`. -/
def seatsBelow (st : Server) (c : Int) (i : Nat) : List (Fin numSeat) :=
  ((List.finRange numSeat).take i).filter fun j => st.seats j = c

/-- The list depends on the seats of the client only. -/
theorem seatsBelow_congr {st st' : Server} {c : Int} (h : ∀ j, st'.seats j = c ↔ st.seats j = c)
    (i : Nat) : seatsBelow st' c i = seatsBelow st c i := by
  unfold seatsBelow
  congr 1
  funext j
  exact decide_eq_decide.mpr (h j)

/-- One more seat. -/
theorem seatsBelow_succ (st : Server) (c : Int) (i : Fin numSeat) :
    seatsBelow st c (i + 1) = seatsBelow st c i ++ [i].filter fun j => st.seats j = c := by
  unfold seatsBelow
  rw [List.take_add_one, List.filter_append]
  simp

/-- The seats of the client below a number. -/
theorem mem_seatsBelow {st : Server} {c : Int} {i : Nat} {j : Fin numSeat} :
    j ∈ seatsBelow st c i ↔ (j : Nat) < i ∧ st.seats j = c := by
  unfold seatsBelow
  rw [List.mem_filter, decide_eq_true_eq]
  refine and_congr_left fun _ => ?_
  rw [List.mem_take_iff_getElem]
  constructor
  · rintro ⟨m, hm, rfl⟩
    simp only [List.getElem_finRange, Fin.cast_mk]
    omega
  · intro hj
    exact ⟨j, by simp [hj], by simp⟩

/-- What every scan for a client other than 0 has written: the seats of the client so far. -/
def Exact (s : Sys) : Prop :=
  ∀ k socket user data i b, s.conn k = some ⟨socket, .confirming user data i b⟩ → user ≠ 0 →
    b = bookedOf (seatsBelow s.server user i)

/-- Every step keeps the lists exact. -/
theorem Step.exact {s s' : Sys} {e : Event} (h : Step s e s') (hwf : s.WF) (hex : Exact s) :
    Exact s' := by
  intro k socket user data i b hk' huser
  -- a scan that the step leaves where it was
  have hold : s.conn k = some ⟨socket, .confirming user data i b⟩ →
      b = bookedOf (seatsBelow s'.server user i) := by
    intro hk
    obtain ⟨u, rfl, -⟩ := hwf.confirming _ _ _ _ _ _ hk
    rw [seatsBelow_congr (h.owner_stable hwf huser hk)]
    exact hex _ _ _ _ _ _ hk huser
  cases h with
  | accept =>
      rcases Sys.conn_of_setConn hk' with ⟨-, hnew⟩ | ⟨-, hk⟩
      · cases hnew
      · exact hold hk
  | query =>
      rcases Sys.conn_of_setConn hk' with ⟨-, hnew⟩ | ⟨-, hk⟩
      · unfold afterReply at hnew
        split_ifs at hnew with h0
        cases hnew
      · exact hold hk
  | confirmRefused => exact hold hk'
  | confirmStart =>
      rcases Sys.conn_of_setConn hk' with ⟨-, hnew⟩ | ⟨-, hk⟩
      · cases hnew
        rfl
      · exact hold hk
  | @confirmSeat k₀ socket₀ user₀ data₀ i₀ b₀ hk₀ =>
      rcases Sys.conn_of_setConn hk' with ⟨-, hnew⟩ | ⟨-, hk⟩
      · simp only [Option.some.injEq, Conn.mk.injEq, Thread.confirming.injEq] at hnew
        obtain ⟨rfl, rfl, rfl, rfl, rfl⟩ := hnew
        rw [hex _ _ _ _ _ _ hk₀ huser, confirmSeat_bookedOf]
        exact congrArg bookedOf (seatsBelow_succ s.server user₀ i₀).symm
      · exact hold hk
  | confirmEnd | eof =>
      rcases Sys.conn_of_setConn hk' with ⟨-, hnew⟩ | ⟨-, hk⟩
      · cases hnew
      · exact hold hk

/-- So they are in every run. -/
theorem run_exact {es : List Event} {s : Sys} (h : Run Step Sys.init es s) : Exact s := by
  have hinv : s.WF ∧ Exact s := by
    refine h.invariant (fun s => s.WF ∧ Exact s) ?_ ⟨Sys.wf_init, ?_⟩
    · rintro t e t' ⟨hwf, hex⟩ hs
      exact ⟨hs.wf hwf, hs.exact hwf hex⟩
    · intro k socket user data i b hk
      cases hk
  exact hinv.2

/-- **The confirm query of a client other than 0 is exact, however its scan is interleaved with
the other connections**: at iteration `i`, and so at the end with `i = 256`, the text holds each
seat below `i` at most once, and holds it exactly when the last successful book-or-cancel reply
given to the client for it is a book reply. -/
theorem confirm_ledger {es : List Event} {s : Sys} {k : Nat} {socket user data : Int} {i : Nat}
    {b : Booked} (h : Run Step Sys.init es s)
    (hk : s.conn k = some ⟨socket, .confirming user data i b⟩) (huser : 1 ≤ user) :
    (seatsOfText b.text).Nodup ∧
      ∀ seat : Fin numSeat, (seat : Nat) ∈ seatsOfText b.text ↔
        (seat : Nat) < i ∧ Holds es user (seat : Nat) := by
  have hne : user ≠ 0 := by omega
  rw [run_exact h _ _ _ _ _ _ hk hne, seatsOfText_bookedOf]
  constructor
  · apply List.Nodup.map Fin.val_injective
    exact ((List.nodup_finRange numSeat).sublist (List.take_sublist _ _)).filter _
  · intro seat
    rw [← run_owner_iff h hne, ← mem_seatsBelow]
    constructor
    · intro hmem
      obtain ⟨j, hj, hval⟩ := List.mem_map.mp hmem
      rwa [← Fin.ext hval]
    · intro hmem
      exact List.mem_map.mpr ⟨seat, hmem, rfl⟩

/-- Client 1 books seat 1 and scans for it; client 2 books the seats 2 and 3, the second one in
the middle of the scan. -/
def scanRun : List Event :=
  [.accept 0 4, .accept 1 5, .reply 0 ⟨1, 1, 7⟩ ⟨['1'], true⟩, .reply 1 ⟨2, 1, 8⟩ ⟨['1'], true⟩,
    .reply 0 ⟨1, 2, 1⟩ ⟨['1'], true⟩, .reply 1 ⟨2, 2, 2⟩ ⟨['2'], true⟩, .confirmStart 0 1,
    .confirmSeat 0 0, .reply 1 ⟨2, 2, 3⟩ ⟨['3'], true⟩, .confirmSeat 0 1, .confirmSeat 0 2,
    .confirmSeat 0 3]

/-- In the middle of a list of client 1. -/
theorem scanRun_confirm_ledger :
    (∃ s, Run Step Sys.init scanRun s ∧
        s.conn 0 = some ⟨4, .confirming 1 0 4 ⟨['1', ','], 1⟩⟩) ∧
      (seatsOfText ['1', ',']).Nodup ∧
      ∀ seat : Fin numSeat, (seat : Nat) ∈ seatsOfText ['1', ','] ↔
        (seat : Nat) < 4 ∧ Holds scanRun 1 (seat : Nat) := by
  obtain ⟨s, hrun, hk⟩ : ∃ s, Run Step Sys.init scanRun s ∧
      s.conn 0 = some ⟨4, .confirming 1 0 4 ⟨['1', ','], 1⟩⟩ :=
    exists_run_conn [.accept 4, .accept 5, .query 0 ⟨1, 1, 7⟩, .query 1 ⟨2, 1, 8⟩,
      .query 0 ⟨1, 2, 1⟩, .query 1 ⟨2, 2, 2⟩, .query 0 ⟨1, 3, 0⟩, .turn 0, .query 1 ⟨2, 2, 3⟩,
      .turn 0, .turn 0, .turn 0] (by decide)
  exact ⟨⟨s, hrun, hk⟩, confirm_ledger hrun hk (by decide)⟩

end SystemProgrammingLab.Pa3
