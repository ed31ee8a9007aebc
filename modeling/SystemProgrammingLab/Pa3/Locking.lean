import SystemProgrammingLab.Found.Locking
import SystemProgrammingLab.Pa3.Interleaving

/-!
# The locks of the seats

A query takes the lock of one seat at a time, and gives it back before it ends: every operation keeps the
discipline of `Found.Locking`, with the accesses to the seats that it allows (`Stmt.Allowed`). So no two
threads wait for each other (`Disciplined.exists_turn`), and the seats are written under their locks only;
the one access that can meet a write is the check that `cancel_booking` makes before it takes the lock
(`only_race`).

The queries are those whose client is one of the table, as in `handleQuery_inTable_iff`.

Source: `pa3/pa3_server.c`
-/

namespace SystemProgrammingLab.Pa3

open SystemProgrammingLab.Found

/-! ## The discipline -/

/-- What the statement does with the locks. -/
def Stmt.use : Stmt → LockUse Int
  | .mutexLock i => .acquire i
  | .mutexUnlock i => .release i
  | _ => .other

/-- The statement that acquires a lock. -/
theorem Stmt.eq_mutexLock {a : Stmt} {i : Int} (h : a.use = .acquire i) : a = .mutexLock i := by
  cases a with
  | mutexLock => cases h; rfl
  | _ => cases h

/-- The statement that releases a lock. -/
theorem Stmt.eq_mutexUnlock {a : Stmt} {i : Int} (h : a.use = .release i) : a = .mutexUnlock i := by
  cases a with
  | mutexUnlock => cases h; rfl
  | _ => cases h

/-- What a query may do with the lock that it has: its indices are those of the tables, a seat is written
under its lock, and read under its lock or, by a cancellation, without one. -/
def Stmt.Allowed (q : Query) (held : Option Int) : Stmt → Prop
  | .readPassword i | .writePassword i _ | .readSession i | .writeSession i _ => 0 ≤ i ∧ i < maxClient
  | .readSeat i => (0 ≤ i ∧ i < numSeat) ∧ (held = some i ∨ held = none ∧ q.action = 4)
  | .writeSeat i _ => (0 ≤ i ∧ i < numSeat) ∧ held = some i
  | .mutexLock i | .mutexUnlock i => 0 ≤ i ∧ i < numSeat

/-- The client of the query is one of the table, or the query does not look at it. -/
def Query.Known (q : Query) : Prop :=
  (0 ≤ q.user ∧ q.user < maxClient) ∨ q.action < 1 ∨ 5 < q.action ∨ (q.action = 1 ∧ q.data < 0)

instance (q : Query) : Decidable q.Known := inferInstanceAs (Decidable (_ ∨ _))

namespace Code

open Prog

section locks

variable {q : Query} {user seat pw socket : Int}

/-- The code keeps the discipline of the query, with no lock before and behind it. -/
abbrev Keeps (q : Query) {α : Type} (p : Code α) : Prop := p.Locks Stmt.use (Stmt.Allowed q) none none

/-- `pthread_mutex_lock` takes the lock of a seat. -/
theorem locks_lock {i : Int} (h : 0 ≤ i ∧ i < numSeat) :
    (stmt (.mutexLock i) : Code Int).Locks Stmt.use (Stmt.Allowed q) none (some i) :=
  locks_stmt (.acquire i) h

/-- `pthread_mutex_unlock` gives it back. -/
theorem locks_unlock {i : Int} (h : 0 ≤ i ∧ i < numSeat) :
    (stmt (.mutexUnlock i) : Code Int).Locks Stmt.use (Stmt.Allowed q) (some i) none :=
  locks_stmt (.release i) h

/-- `is_logged_in` keeps to the discipline. -/
theorem keeps_isLoggedIn (h : 0 ≤ user ∧ user < maxClient) : Keeps q (isLoggedIn user socket) := by
  refine (locks_stmt (.other _) h).bind fun s => .ite (fun _ => locks_pure _) fun _ => ?_
  exact (locks_stmt (.other _) h).bind fun s => locks_pure _

/-- The check of the password keeps to the discipline. -/
theorem keeps_checkPassword (h : 0 ≤ user ∧ user < maxClient) :
    Keeps q (checkPassword user pw socket) := by
  refine (locks_stmt (.other _) h).bind fun p => .ite (fun _ => ?_) fun _ => ?_
  · exact (locks_stmt (.other _) h).bind fun _ => (locks_stmt (.other _) h).bind fun _ => locks_pure _
  · refine (locks_stmt (.other _) h).bind fun p => .ite (fun _ => ?_) fun _ => locks_pure _
    exact (locks_stmt (.other _) h).bind fun _ => locks_pure _

/-- `login` keeps to the discipline. -/
theorem keeps_login (h : (0 ≤ user ∧ user < maxClient) ∨ pw < 0) : Keeps q (login user pw socket) := by
  refine .ite (fun _ => locks_pure _) fun hpw => ?_
  have h := h.resolve_right hpw
  refine (keeps_isLoggedIn h).bind fun ok => .ite (fun _ => locks_pure _) fun _ => ?_
  refine .ite (fun _ => locks_pure _) fun _ => ?_
  refine (locks_stmt (.other _) h).bind fun s => .ite (fun _ => ?_) fun _ => keeps_checkPassword h
  exact (locks_stmt (.other _) h).bind fun s =>
    .ite (fun _ => locks_pure _) fun _ => keeps_checkPassword h

/-- A number that was checked is one of a seat. -/
theorem seat_bounds (h : ¬ (seat < 0 ∨ seat ≥ numSeat)) : 0 ≤ seat ∧ seat < numSeat := by omega

/-- `book` keeps to the discipline: it writes the seat under the lock. -/
theorem keeps_book (h : 0 ≤ user ∧ user < maxClient) : Keeps q (book user seat socket) := by
  refine (keeps_isLoggedIn h).bind fun ok => .ite (fun _ => locks_pure _) fun _ => ?_
  refine .ite (fun _ => locks_pure _) fun hseat => ?_
  have hseat := seat_bounds hseat
  refine (locks_lock hseat).bind fun _ => (locks_stmt (.other _) ⟨hseat, .inl rfl⟩).bind fun owner =>
    .ite (fun _ => ?_) fun _ => ?_
  · exact (locks_stmt (.other _) ⟨hseat, rfl⟩).bind fun _ => (locks_unlock hseat).bind fun _ => locks_pure _
  · exact (locks_unlock hseat).bind fun _ => locks_pure _

/-- An iteration of `confirm_booking` keeps to it: it reads the seat under the lock. -/
theorem keeps_confirmSeat (b : Booked) (i : Fin numSeat) : Keeps q (confirmSeat user b i) := by
  have hi : 0 ≤ ((i : Nat) : Int) ∧ ((i : Nat) : Int) < numSeat := seat_bounds (not_outside i)
  exact (locks_lock hi).bind fun _ => (locks_stmt (.other _) ⟨hi, .inl rfl⟩).bind fun owner =>
    (locks_unlock hi).bind fun _ => locks_pure _

/-- `confirm_booking` keeps to the discipline. -/
theorem keeps_confirmBooking (h : 0 ≤ user ∧ user < maxClient) : Keeps q (confirmBooking user socket) := by
  refine (keeps_isLoggedIn h).bind fun ok => .ite (fun _ => locks_pure _) fun _ => ?_
  exact (locks_foldlM keeps_confirmSeat _ _).bind fun b => locks_pure _

/-- `cancel_booking` keeps to it; its first read of the seat is in front of the lock. -/
theorem keeps_cancelBooking (h : 0 ≤ user ∧ user < maxClient) (hq : q.action = 4) :
    Keeps q (cancelBooking user seat socket) := by
  refine (keeps_isLoggedIn h).bind fun ok => .ite (fun _ => locks_pure _) fun _ => ?_
  refine .ite (fun _ => locks_pure _) fun hseat => ?_
  have hseat := seat_bounds hseat
  -- the check without the lock
  refine (locks_stmt (.other _) ⟨hseat, .inr ⟨rfl, hq⟩⟩).bind fun owner =>
    .ite (fun _ => locks_pure _) fun _ => ?_
  refine (locks_lock hseat).bind fun _ => (locks_stmt (.other _) ⟨hseat, .inl rfl⟩).bind fun owner =>
    .ite (fun _ => ?_) fun _ => ?_
  · exact (locks_stmt (.other _) ⟨hseat, rfl⟩).bind fun _ => (locks_unlock hseat).bind fun _ => locks_pure _
  · exact (locks_unlock hseat).bind fun _ => locks_pure _

/-- `logout` keeps to the discipline. -/
theorem keeps_logout (h : 0 ≤ user ∧ user < maxClient) : Keeps q (logout user socket) := by
  refine (keeps_isLoggedIn h).bind fun ok => .ite (fun _ => locks_pure _) fun _ => ?_
  exact (locks_stmt (.other _) h).bind fun _ => locks_pure _

/-- `handle_query` keeps to the discipline. -/
theorem keeps_handleQuery (h : q.Known) : Keeps q (handleQuery socket q) := by
  obtain ⟨user, action, data⟩ := q
  unfold Query.Known at h
  unfold handleQuery
  split <;> rename_i hact <;> simp only at hact <;> try subst hact
  · exact .ite (fun _ => locks_pure _) fun _ => locks_pure _
  · refine (keeps_login ?_).bind fun ok => locks_pure _
    simp only at h ⊢
    omega
  · exact (keeps_book (by simp only at h ⊢; omega)).bind fun seatNum => locks_pure _
  · exact (keeps_confirmBooking (by simp only at h ⊢; omega)).bind fun buf => locks_pure _
  · exact (keeps_cancelBooking (by simp only at h ⊢; omega) rfl).bind fun ok => locks_pure _
  · exact (keeps_logout (by simp only at h ⊢; omega)).bind fun ok => locks_pure _
  · exact locks_pure _

end locks

section within

variable (user seat pw socket : Int)

/-- `is_logged_in` is short. -/
theorem within_isLoggedIn : (isLoggedIn user socket).Within 2 :=
  .stmt fun _ => .ite (within_pure _ _) (.stmt fun _ => within_pure 0 _)

/-- The check of the password is short. -/
theorem within_checkPassword : (checkPassword user pw socket).Within 3 :=
  .stmt fun _ => .ite (.stmt fun _ => .stmt fun _ => within_pure 0 _)
    (.stmt fun _ => .ite (.stmt fun _ => within_pure 0 _) (within_pure _ _))

/-- `login` is short. -/
theorem within_login : (login user pw socket).Within 7 := by
  have hpassword := within_checkPassword user pw socket
  refine .ite (within_pure _ _) ((within_isLoggedIn user socket).bind (m := 5) fun ok => ?_)
  refine .ite (within_pure _ _) (.ite (within_pure _ _) (.stmt fun s => .ite ?_ (hpassword.mono ?_)))
  · exact .stmt fun s => .ite (within_pure _ _) hpassword
  · omega

/-- `book` is short. -/
theorem within_book : (book user seat socket).Within 6 := by
  refine (within_isLoggedIn user socket).bind (m := 4) fun ok => .ite (within_pure _ _) ?_
  refine .ite (within_pure _ _) (.stmt fun _ => .stmt fun owner => .ite ?_ ?_)
  · exact .stmt fun _ => .stmt fun _ => within_pure 0 _
  · exact .stmt fun _ => within_pure 1 _

/-- An iteration of `confirm_booking` has three statements. -/
theorem within_confirmSeat (b : Booked) (i : Fin numSeat) : (confirmSeat user b i).Within 3 :=
  .stmt fun _ => .stmt fun _ => .stmt fun _ => within_pure 0 _

/-- The session check, and the loop over some of the seats. -/
theorem within_scan (l : List (Fin numSeat)) {n : Nat} (hn : 2 + 3 * l.length ≤ n) :
    (do
      if !(← isLoggedIn user socket) then return none
      let b ← l.foldlM (confirmSeat user) Booked.empty
      return confirmResult b : Code (Option (List Char))).Within n := by
  refine Within.mono ((within_isLoggedIn user socket).bind fun ok => .ite (within_pure _ _) ?_) hn
  exact (within_foldlM (within_confirmSeat user) l Booked.empty).bind (m := 0) fun b => within_pure _ _

/-- `confirm_booking` has three statements a seat and its check. -/
theorem within_confirmBooking : (confirmBooking user socket).Within 770 :=
  within_scan user socket (List.finRange numSeat) (by rw [List.length_finRange]; decide)

/-- `cancel_booking` is short. -/
theorem within_cancelBooking : (cancelBooking user seat socket).Within 7 := by
  refine (within_isLoggedIn user socket).bind (m := 5) fun ok => .ite (within_pure _ _) ?_
  refine .ite (within_pure _ _) (.stmt fun _ => .ite (within_pure _ _) ?_)
  refine .stmt fun _ => .stmt fun owner => .ite ?_ ?_
  · exact .stmt fun _ => .stmt fun _ => within_pure 0 _
  · exact .stmt fun _ => within_pure 1 _

/-- `logout` is short. -/
theorem within_logout : (logout user socket).Within 3 :=
  (within_isLoggedIn user socket).bind (m := 1) fun _ => .ite (within_pure _ _)
    (.stmt fun _ => within_pure 0 _)

/-- The longest query is a confirmation: the session check, and three statements for each seat. -/
theorem within_handleQuery (q : Query) : (handleQuery socket q).Within 770 := by
  have hmap : ∀ {α : Type} {n : Nat} {p : Code α} {f : α → Reply}, n ≤ 770 → p.Within n →
      (p >>= fun a => (pure (f a) : Code Reply)).Within 770 := by
    intro α n p f hn hp
    exact Within.mono (hp.bind (m := 0) fun a => within_pure _ _) hn
  unfold handleQuery
  split
  · exact .ite (within_pure _ _) (within_pure _ _)
  · exact hmap (by omega) (within_login _ _ socket)
  · exact hmap (by omega) (within_book _ _ socket)
  · exact hmap (by omega) (within_confirmBooking _ socket)
  · exact hmap (by omega) (within_cancelBooking _ _ socket)
  · exact hmap (by omega) (within_logout _ socket)
  · exact within_pure _ _

end within

end Code

/-! ## Statements and locks -/

/-- The lock is held. -/
def Tables.Taken (t : Tables) (i : Int) : Prop := rd t.lock i = some true

section exec

variable {t t' : Tables} {a : Stmt} {v i : Int} {q : Query} {held : Option Int}

/-- A mutex call is `none` or changes its one lock. -/
theorem taken_of_wr {lock lock' : Fin numSeat → Bool} {b : Bool} (h : wr lock i b = some lock') (j : Int) :
    rd lock' j = some true ↔ (j ≠ i ∧ rd lock j = some true) ∨ (j = i ∧ b = true) := by
  by_cases hi : 0 ≤ i ∧ i < numSeat
  · obtain ⟨c, rfl⟩ := exists_fin_of_bounds (n := numSeat) hi.1 hi.2
    rw [wr_val] at h
    cases h
    by_cases hj : 0 ≤ j ∧ j < numSeat
    · obtain ⟨d, rfl⟩ := exists_fin_of_bounds (n := numSeat) hj.1 hj.2
      by_cases hdc : d = c
      · subst hdc
        simp
      · have hne : ((d : Nat) : Int) ≠ (c : Nat) := fun heq => hdc (Fin.ext (Int.ofNat_inj.mp heq))
        simp [Function.update_of_ne hdc, hne]
    · have hne : j ≠ (c : Nat) := by
        rintro rfl
        exact hj hi
      have hrd : ∀ lock : Fin numSeat → Bool, rd lock j = none := fun _ => dif_neg hj
      simp [hrd, hne]
  · rw [wr, dif_neg hi] at h
    cases h

/-- What the statement says of the locks is what it does. -/
theorem exec_use (h : a.exec t = some (v, t')) :
    match a.use with
    | .acquire i => ¬ t.Taken i ∧ ∀ j, t'.Taken j ↔ t.Taken j ∨ j = i
    | .release i => ∀ j, t'.Taken j ↔ t.Taken j ∧ j ≠ i
    | .other => ∀ j, t'.Taken j ↔ t.Taken j := by
  cases a with
  | mutexLock i =>
      simp only [Stmt.exec, Op.mutexLock, Traced.result_act, Option.map_eq_some_iff,
        Option.bind_eq_bind, Option.bind_eq_some_iff, Option.pure_def] at h
      obtain ⟨x, ⟨b, hb, hx⟩, hv⟩ := h
      cases b with
      | true => simp at hx
      | false =>
          simp only [Bool.false_eq_true, if_false, Option.bind_eq_some_iff] at hx
          obtain ⟨lock, hlock, hx⟩ := hx
          cases hx
          cases hv
          refine ⟨by simp [Tables.Taken, hb], fun j => ?_⟩
          show rd lock j = some true ↔ rd t.lock j = some true ∨ j = i
          rw [taken_of_wr hlock j]
          by_cases hj : j = i
          · simp [hj]
          · simp [hj]
  | mutexUnlock i =>
      simp only [Stmt.exec, Op.mutexUnlock, Traced.result_act, Option.map_eq_some_iff] at h
      obtain ⟨x, ⟨lock, hlock, hx⟩, hv⟩ := h
      cases hx
      cases hv
      intro j
      show rd lock j = some true ↔ rd t.lock j = some true ∧ j ≠ i
      rw [taken_of_wr hlock j]
      simp [and_comm]
  | readPassword i | readSession i | readSeat i =>
      simp only [Stmt.exec, Op.readPassword, Op.readSession, Op.readSeat, Traced.result_act,
        Option.map_eq_some_iff] at h
      obtain ⟨x, -, hv⟩ := h
      cases hv
      exact fun j => Iff.rfl
  | writePassword i w | writeSession i w | writeSeat i w =>
      simp only [Stmt.exec, Op.writePassword, Op.writeSession, Op.writeSeat, Traced.result_act,
        Option.map_eq_some_iff] at h
      obtain ⟨x, ⟨y, -, hx⟩, hv⟩ := h
      cases hx
      cases hv
      exact fun j => Iff.rfl

/-- A statement that is allowed can be done, but for a lock that is held. -/
theorem exists_exec (h : a.Allowed q held) (hfree : ∀ i, a.use = .acquire i → ¬ t.Taken i) :
    ∃ v t', a.exec t = some (v, t') := by
  cases a with
  | readPassword i | readSession i =>
      obtain ⟨c, rfl⟩ := exists_fin_of_bounds (n := maxClient) h.1 h.2
      exact ⟨_, _, by simp [Stmt.exec]; exact ⟨rfl, rfl⟩⟩
  | writePassword i w | writeSession i w =>
      obtain ⟨c, rfl⟩ := exists_fin_of_bounds (n := maxClient) h.1 h.2
      exact ⟨_, _, by simp [Stmt.exec]; rfl⟩
  | readSeat i =>
      obtain ⟨c, rfl⟩ := exists_fin_of_bounds (n := numSeat) h.1.1 h.1.2
      exact ⟨_, _, by simp [Stmt.exec]; exact ⟨rfl, rfl⟩⟩
  | writeSeat i w =>
      obtain ⟨c, rfl⟩ := exists_fin_of_bounds (n := numSeat) h.1.1 h.1.2
      exact ⟨_, _, by simp [Stmt.exec]; rfl⟩
  | mutexLock i =>
      obtain ⟨c, rfl⟩ := exists_fin_of_bounds (n := numSeat) h.1 h.2
      have hopen : t.lock c = false := by
        have hnot := hfree _ rfl
        simpa [Tables.Taken] using hnot
      exact ⟨_, _, by simp [Stmt.exec, Op.mutexLock, hopen]; rfl⟩
  | mutexUnlock i =>
      obtain ⟨c, rfl⟩ := exists_fin_of_bounds (n := numSeat) h.1 h.2
      exact ⟨_, _, by simp [Stmt.exec, Op.mutexUnlock]; rfl⟩

end exec

/-! ## The threads -/

namespace Pool

/-- The locks that the threads have, and what is left of their queries. -/
structure Disciplined (s : Pool) (held : Nat → Option Int) : Prop where
  owned : Owned s.tables.Taken held
  busy : ∀ k w q p, s.handler k = some ⟨w, some (q, p)⟩ →
    p.Locks Stmt.use (Stmt.Allowed q) (held k) none ∧ p.Within 770
  idle : ∀ k, (∀ hd ∈ s.handler k, hd.task = none) → held k = none
  fresh : ∀ k, s.accepted ≤ k → s.handler k = none

/-- The clients of the queries are those of the table. -/
def KnownQueries (_ : Pool) : Event → Prop
  | .query _ q => q.Known
  | _ => True

instance (s : Pool) : (e : Event) → Decidable (KnownQueries s e)
  | .query _ q => inferInstanceAs (Decidable q.Known)
  | .accept _ _ | .stmt _ _ | .reply _ _ _ | .eof _ => inferInstanceAs (Decidable True)

section steps

variable {s s' : Pool} {held : Nat → Option Int} {k : Nat} {w : Int}

/-- At the start nobody holds a lock. -/
theorem disciplined_init : Disciplined init fun _ => none where
  owned := by
    refine ⟨fun i => ?_, fun _ _ _ => nofun⟩
    constructor
    · intro h
      obtain ⟨j, -, hj⟩ := exists_fin_of_rd h
      cases hj
    · rintro ⟨k, hk⟩
      cases hk
  busy := fun _ _ _ _ => nofun
  idle := fun _ _ => rfl
  fresh := fun _ _ => rfl

/-- A thread belongs to an accepted connection. -/
theorem Disciplined.lt_accepted (h : Disciplined s held) {hd : Handler} (hk : s.handler k = some hd) :
    k < s.accepted := by
  by_contra hlt
  rw [h.fresh k (Nat.le_of_not_lt hlt)] at hk
  cases hk

/-- One thread does a step that leaves the locks as they are. -/
theorem Disciplined.set (h : Disciplined s held) {hd : Handler} (hk : s.handler k = some hd)
    {new : Option Handler} {t : Tables} {held' : Nat → Option Int} (howned : Owned t.Taken held')
    (hother : ∀ j, j ≠ k → held' j = held j)
    (hbusy : ∀ w q p, new = some ⟨w, some (q, p)⟩ →
      p.Locks Stmt.use (Stmt.Allowed q) (held' k) none ∧ p.Within 770)
    (hidle : (∀ hd ∈ new, hd.task = none) → held' k = none) :
    Disciplined { s.setHandler k new with tables := t } held' where
  owned := howned
  busy := by
    intro j w q p hj
    rcases handler_of_set hj with ⟨rfl, hnew⟩ | ⟨hjk, hj⟩
    · exact hbusy w q p hnew
    · rw [hother j hjk]
      exact h.busy j w q p hj
  idle := by
    intro j hj
    by_cases hjk : j = k
    · subst hjk
      apply hidle
      intro hd hnew
      exact hj hd ((Function.update_self ..).trans hnew)
    · rw [hother j hjk]
      apply h.idle
      intro hd hold
      exact hj hd ((Function.update_of_ne hjk _ _).trans hold)
  fresh := by
    intro j hj
    have hlt := h.lt_accepted hk
    have hj : s.accepted ≤ j := hj
    show Function.update s.handler k new j = none
    rw [Function.update_of_ne (by omega)]
    exact h.fresh j hj

/-- A step keeps the discipline, and the locks change hands as its event says. -/
theorem Disciplined.step_held (h : Disciplined s held) {e : Event} (hstep : Step s e s')
    (hknown : KnownQueries s e) : ∃ held', Disciplined s' held' ∧ ∀ j i, held' j = some i ↔
      e = .stmt j (.mutexLock i) ∨ (e ≠ .stmt j (.mutexUnlock i) ∧ held j = some i) := by
  cases hstep with
  | @accept socket hnonneg hfree =>
      refine ⟨held, ⟨h.owned, ?_, ?_, ?_⟩, by simp⟩
      · intro j w q p hj
        rcases handler_of_set hj with ⟨rfl, hnew⟩ | ⟨-, hj⟩
        · cases hnew
        · exact h.busy j w q p hj
      · intro j hj
        by_cases hjk : j = s.accepted
        · subst hjk
          apply h.idle
          rw [h.fresh _ (Nat.le_refl _)]
          exact fun _ => nofun
        · apply h.idle
          intro hd hold
          exact hj hd ((Function.update_of_ne hjk _ _).trans hold)
      · intro j hj
        have hj : s.accepted + 1 ≤ j := hj
        show Function.update s.handler s.accepted _ j = none
        rw [Function.update_of_ne (by omega)]
        exact h.fresh j (by omega)
  | @query k socket q hk =>
      have hheld : held k = none := h.idle k (by rw [hk]; rintro _ ⟨⟩; rfl)
      refine ⟨held, h.set hk h.owned (fun _ _ => rfl) ?_ fun _ => hheld, by simp⟩
      rintro w q p ⟨⟩
      rw [hheld]
      exact ⟨Code.keeps_handleQuery hknown, Code.within_handleQuery socket q⟩
  | @stmt k socket q a next v t hk hexec =>
      obtain ⟨⟨hok, mid, hmoves, hnext⟩, hwithin⟩ := h.busy k socket q _ hk
      have hlen := (hwithin.len_next v).1
      have huse := exec_use hexec
      have hset : ∀ held' : Nat → Option Int, Owned t.Taken held' → (∀ j, j ≠ k → held' j = held j) →
          held' k = mid → Disciplined { s.setHandler k (some ⟨socket, some (q, next v)⟩) with
            tables := t } held' := by
        intro held' howned hother hmid
        refine h.set hk howned hother ?_ fun hnone => absurd (hnone _ rfl) nofun
        rintro _ _ _ ⟨⟩
        rw [hmid]
        exact ⟨hnext v, hlen⟩
      generalize huse' : a.use = use at hmoves huse
      generalize hheld : held k = before at hmoves
      cases hmoves with
      | acquire i =>
          refine ⟨_, hset _ (h.owned.acquire huse.1 hheld huse.2)
            (fun j hj => Function.update_of_ne hj _ _) (Function.update_self ..), fun j i' => ?_⟩
          rw [Stmt.eq_mutexLock huse']
          by_cases hj : j = k
          · subst hj
            simp [hheld]
          · simp [hj, Ne.symm hj]
      | release i =>
          refine ⟨_, hset _ (h.owned.release hheld huse) (fun j hj => Function.update_of_ne hj _ _)
            (Function.update_self ..), fun j i' => ?_⟩
          rw [Stmt.eq_mutexUnlock huse']
          by_cases hj : j = k
          · subst hj
            simp [hheld]
          · simp [hj, Ne.symm hj]
      | other =>
          refine ⟨held, hset held ⟨fun i => ?_, h.owned.unique⟩ (fun _ _ => rfl) hheld, fun j i' => ?_⟩
          · rw [huse i]
            exact h.owned.iff i
          · have hlock : a ≠ .mutexLock i' := by
              rintro rfl
              cases huse'
            have hunlock : a ≠ .mutexUnlock i' := by
              rintro rfl
              cases huse'
            simp [hlock, hunlock]
  | @reply k socket q r hk =>
      have hheld : held k = none := (h.busy k socket q _ hk).1
      refine ⟨held, h.set hk h.owned (fun _ _ => rfl) ?_ fun _ => hheld, by simp⟩
      intro w q' p hnew
      unfold afterReply at hnew
      split_ifs at hnew
      cases hnew
  | @eof k socket hk =>
      have hheld : held k = none := h.idle k (by rw [hk]; rintro _ ⟨⟩; rfl)
      exact ⟨held, h.set hk h.owned (fun _ _ => rfl) (fun _ _ _ => nofun) fun _ => hheld, by simp⟩

/-- A step keeps the discipline. -/
theorem Disciplined.step (h : Disciplined s held) {e : Event} (hstep : Step s e s')
    (hknown : KnownQueries s e) : ∃ held', Disciplined s' held' := by
  obtain ⟨held', hs, -⟩ := h.step_held hstep hknown
  exact ⟨held', hs⟩

/-- The thread has taken the lock of the seat, and not given it back since. -/
def HoldsLock (es : List Event) (k : Nat) (i : Int) : Prop :=
  Since (· = .stmt k (.mutexLock i)) (· = .stmt k (.mutexUnlock i)) es

/-- Who holds a lock after one more event: who has just taken it, or who held it and has not given it back. -/
theorem holdsLock_snoc {es : List Event} {e : Event} {i : Int} : HoldsLock (es ++ [e]) k i ↔
    e = .stmt k (.mutexLock i) ∨ (e ≠ .stmt k (.mutexUnlock i) ∧ HoldsLock es k i) := by
  rw [HoldsLock, since_snoc]
  rfl

/-- Every run keeps the discipline, with the locks that the threads have taken and not given back. -/
theorem run_disciplined {es : List Event} (h : Run (Guarded Step KnownQueries) init es s) :
    ∃ held, Disciplined s held ∧ ∀ k i, held k = some i ↔ HoldsLock es k i := by
  refine h.history (fun es s => ∃ held, Disciplined s held ∧ ∀ k i, held k = some i ↔ HoldsLock es k i)
    ?_ ⟨_, disciplined_init, fun _ _ => by simp [HoldsLock]⟩
  rintro es s e s' ⟨held, hs, hheld⟩ hstep
  obtain ⟨held', hs', hheld'⟩ := hs.step_held hstep.1 hstep.2
  refine ⟨held', hs', fun k i => ?_⟩
  rw [hheld', hheld, holdsLock_snoc]

/-! ## Turns -/

/-- The events of a thread that answers a query. -/
def Event.turn? : Event → Bool
  | .stmt _ _ | .reply _ _ _ => true
  | _ => false

/-- A turn of a thread. -/
def Turn : Pool → Event → Pool → Prop := Guarded Step fun _ e => e.turn?

/-- A thread answers a query. -/
def Answering (s : Pool) (k : Nat) : Prop := ∃ w t, s.handler k = some ⟨w, some t⟩

/-- A thread that holds a lock is answering a query. -/
theorem Disciplined.answering (h : Disciplined s held) {i : Int} (hk : held k = some i) :
    s.Answering k := by
  by_contra hnot
  have hidle : held k = none := by
    apply h.idle
    rintro ⟨w, task⟩ hd
    cases task with
    | none => rfl
    | some t => exact absurd ⟨w, t, hd⟩ hnot
  rw [hidle] at hk
  cases hk

/-- A thread that answers a query has a turn, unless it waits for a lock. -/
theorem Disciplined.turn_of (h : Disciplined s held) (hk : s.Answering k)
    (hfree : ∀ i, held k = none → ¬ s.tables.Taken i) : ∃ e s', Turn s e s' := by
  obtain ⟨w, ⟨q, p⟩, hk⟩ := hk
  have hlocks := (h.busy k w q p hk).1
  cases p with
  | ret r => exact ⟨_, _, .reply hk, rfl⟩
  | act a next =>
      obtain ⟨hok, mid, hmoves, -⟩ := hlocks
      obtain ⟨v, t, hexec⟩ : ∃ v t, a.exec s.tables = some (v, t) := by
        refine exists_exec hok fun i huse => hfree i ?_
        rw [huse] at hmoves
        generalize held k = before at hmoves
        cases hmoves
        rfl
      exact ⟨_, _, .stmt hk hexec, rfl⟩

/-- As long as a query is answered, some thread has a turn: the one that has a lock, or any, if there is
none. -/
theorem Disciplined.exists_turn (h : Disciplined s held) (hk : s.Answering k) :
    ∃ e s', Turn s e s' := by
  by_cases hlock : ∃ i, s.tables.Taken i
  · obtain ⟨i, htaken⟩ := hlock
    obtain ⟨j, hj⟩ := (h.owned.iff i).mp htaken
    refine h.turn_of (h.answering hj) fun _ hnone => ?_
    rw [hj] at hnone
    cases hnone
  · exact h.turn_of hk fun i _ htaken => hlock ⟨i, htaken⟩

/-- No lock is taken behind the queries. -/
theorem Disciplined.free (h : Disciplined s held) (hidle : ∀ k, ¬ s.Answering k) (i : Int) :
    ¬ s.tables.Taken i := by
  intro htaken
  obtain ⟨j, hj⟩ := (h.owned.iff i).mp htaken
  exact hidle j (h.answering hj)

/-! ## The access without a lock -/

/-- The statement that the thread does next, and its query. -/
def next? (s : Pool) (k : Nat) : Option (Query × Stmt) :=
  match s.handler k with
  | some ⟨_, some (q, .act a _)⟩ => some (q, a)
  | _ => none

/-- The next statement of a thread is the first one of what is left to it. -/
theorem next?_eq_some {q : Query} {a : Stmt} (h : s.next? k = some (q, a)) :
    ∃ w next, s.handler k = some ⟨w, some (q, .act a next)⟩ := by
  unfold next? at h
  split at h
  · rename_i w q' a' next hk
    cases h
    exact ⟨w, next, hk⟩
  · cases h

/-- The next statement of a thread is one that the discipline allows. -/
theorem Disciplined.allowed (h : Disciplined s held) {q : Query} {a : Stmt}
    (hk : s.next? k = some (q, a)) : a.Allowed q (held k) := by
  obtain ⟨w, next, hk⟩ := next?_eq_some hk
  exact (h.busy k w q _ hk).1.1

/-- **The one race on the seats.** When a thread is about to write a seat, it has the lock of this seat,
and another thread that is about to read or to write the same seat has no lock: it is at the check that
`cancel_booking` makes before it takes one. -/
theorem only_race {es : List Event} (h : Run (Guarded Step KnownQueries) init es s) {j : Nat}
    {q q' : Query} {i v : Int} {a : Stmt} (hjk : j ≠ k) (hj : s.next? j = some (q, .writeSeat i v))
    (hk : s.next? k = some (q', a)) (ha : a = .readSeat i ∨ ∃ u, a = .writeSeat i u) :
    HoldsLock es j i ∧ (∀ i', ¬ HoldsLock es k i') ∧ a = .readSeat i ∧ q'.action = 4 := by
  obtain ⟨held, hs, hlocks⟩ := run_disciplined h
  have hheld : held j = some i := (hs.allowed hj).2
  have hother : held k ≠ some i := fun hk => hjk (hs.owned.unique j k i hheld hk)
  have hallowed := hs.allowed hk
  refine ⟨(hlocks j i).mp hheld, ?_⟩
  rcases ha with rfl | ⟨u, rfl⟩
  · rcases hallowed.2 with hk | ⟨hnone, haction⟩
    · exact absurd hk hother
    · refine ⟨fun i' hi' => ?_, rfl, haction⟩
      have hsome := (hlocks k i').mpr hi'
      rw [hnone] at hsome
      cases hsome
  · exact absurd hallowed.2 hother

/-- A client has the lock of seat 3 to book it, and another one is about to cancel it. -/
def bookAndCancel : List Input :=
  [.accept 4, .accept 5, .query 0 ⟨1, 1, 7⟩, .query 1 ⟨2, 1, 8⟩] ++
    (List.replicate 6 [.turn 0, .turn 1]).flatten ++
    [.query 0 ⟨1, 2, 3⟩, .query 1 ⟨2, 4, 3⟩, .turn 0, .turn 0, .turn 0, .turn 0, .turn 1, .turn 1]

/-- Both are at seat 3: the first one is to write it, the second one to read it. -/
theorem only_race_bookAndCancel : ∃ s es, Run (Guarded Step KnownQueries) init es s ∧
    s.next? 0 = some (⟨1, 2, 3⟩, .writeSeat 3 1) ∧ s.next? 1 = some (⟨2, 4, 3⟩, .readSeat 3) ∧
    HoldsLock es 0 3 ∧ (∀ i', ¬ HoldsLock es 1 i') ∧ Stmt.readSeat 3 = .readSeat 3 ∧ (4 : Int) = 4 := by
  have h : ((exec (guarded step KnownQueries) init bookAndCancel).map
      fun p => (p.1.next? 0, p.1.next? 1)) =
      some (some (⟨1, 2, 3⟩, .writeSeat 3 1), some (⟨2, 4, 3⟩, .readSeat 3)) := by
    decide +kernel
  obtain ⟨⟨s, es⟩, hexec, heq⟩ := Option.map_eq_some_iff.mp h
  obtain ⟨h₀, h₁⟩ := Prod.mk.inj heq
  have hrun := exec_run (guarded_sound step_sound) bookAndCancel hexec
  exact ⟨s, es, hrun, h₀, h₁, only_race hrun (by decide) h₀ h₁ (.inl rfl)⟩

end steps

end Pool

end SystemProgrammingLab.Pa3
