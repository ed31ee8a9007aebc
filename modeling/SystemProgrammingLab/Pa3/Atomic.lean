import SystemProgrammingLab.Pa3.Interference

/-!
# The operations between the statements of the others

For each operation, that its statements keep to `Guar` whatever the others do within `Rely`, and that at
its end the query has taken effect with the reply that is written, or can (`spec_handleQuery`). A booking
and a cancellation take effect when the seat is written, a login and a logout when the session is; a query
that fails does so at the read that shows it, or at any time when the others cannot change it.

Source: `pa3/pa3_server.c`
-/

namespace SystemProgrammingLab.Pa3.Linear

open SystemProgrammingLab.Found

/-! ## The operations -/

/-- What is proved of a piece of code of connection `k` on socket `w`. -/
abbrev Spec (k : Nat) (w : Int) {α : Type} (P : View → Prop) (p : Code α) (Q : α → View → Prop) : Prop :=
  Prog.Triple Stmt.exec (Rely k w) (Guar k w) P p Q

section operations

variable {k : Nat} {w : Int} {q : Query}

/-- A read that goes on with what it has seen. -/
theorem spec_read {α : Type} {a : Stmt} {f : Int → Code α} {P : View → Prop} {Q : α → View → Prop}
    {read : Tables → Int} (ha : ∀ t, a.exec t = some (read t, t)) (hP : Prog.Stable (Rely k w) P)
    (R : Int → View → Prop)
    (h : ∀ x, P x → ∃ g, Guar k w x (x.1, g) ∧ R (read x.1) (x.1, g))
    (hf : ∀ v, Spec k w (R v) (f v) Q) : Spec k w P (.stmt a >>= f) Q := by
  refine Prog.triple_stmt hP R ?_ hf
  intro x v t hx hexec
  rw [ha] at hexec
  cases hexec
  exact h x hx

/-- A statement that only looks leaves its precondition. -/
theorem spec_look {α : Type} {a : Stmt} {f : Int → Code α} {P : View → Prop} {Q : α → View → Prop}
    {read : Tables → Int} (ha : ∀ t, a.exec t = some (read t, t)) (hP : Prog.Stable (Rely k w) P)
    (hinv : ∀ x, P x → Inv x) (R : Int → View → Prop) (h : ∀ x, P x → R (read x.1) x)
    (hf : ∀ v, Spec k w (R v) (f v) Q) : Spec k w P (.stmt a >>= f) Q :=
  spec_read ha hP R (fun x hx => ⟨x.2, guar_silent (hinv x hx), h x hx⟩) hf

/-- A statement that cannot be done. -/
theorem spec_undefined {α : Type} {a : Stmt} {f : Int → Code α} {P : View → Prop} {Q : α → View → Prop}
    (ha : ∀ t, a.exec t = none) : Spec k w P (.stmt a >>= f) Q := by
  intro x _ y _ v t hexec
  rw [ha] at hexec
  cases hexec

/-- The lock of a seat is taken. -/
theorem spec_lock {α : Type} {i : Fin numSeat} {f : Int → Code α} {P : View → Prop}
    {Q : α → View → Prop} (hP : Prog.Stable (Rely k w) P) (hinv : ∀ x, P x → Inv x) (hblind : Blind P)
    (hf : ∀ v, Spec k w (fun x => P x ∧ Holds k i x) (f v) Q) :
    Spec k w P (.stmt (.mutexLock (i : Nat)) >>= f) Q := by
  refine Prog.triple_stmt hP (fun _ x => P x ∧ Holds k i x) ?_ hf
  intro x v t hx hexec
  rw [exec_mutexLock] at hexec
  split_ifs at hexec with hlock
  cases hexec
  have hfree : x.2.holder i = none := by
    rw [(hinv x hx).lock i] at hlock
    exact Option.not_isSome_iff_eq_none.mp hlock
  have hguar := guar_holder (k := k) (w := w) (hinv x hx) (i := i) (b := true) (o := some k) rfl
    fun j hj => ⟨fun heq => hj (Option.some.inj heq).symm, by rw [hfree]; nofun⟩
  exact ⟨_, hguar, hblind x _ _ hx rfl rfl rfl rfl hguar.1.inv, Function.update_self ..⟩

/-- The lock of a seat is given back. -/
theorem spec_unlock {α : Type} {i : Fin numSeat} {f : Int → Code α} {P : View → Prop}
    {Q : α → View → Prop} (hP : Prog.Stable (Rely k w) P) (hinv : ∀ x, P x → Inv x) (hblind : Blind P)
    (hf : ∀ v, Spec k w P (f v) Q) :
    Spec k w (fun x => P x ∧ Holds k i x) (.stmt (.mutexUnlock (i : Nat)) >>= f) Q := by
  refine Prog.triple_stmt (hP.and (Holds.stable i)) (fun _ => P) ?_ hf
  rintro x v t ⟨hx, hholds⟩ hexec
  rw [exec_mutexUnlock] at hexec
  cases hexec
  have hguar := guar_holder (k := k) (w := w) (hinv x hx) (i := i) (b := false) (o := none) rfl
    fun j hj => ⟨nofun, fun heq => hj (Option.some.inj (heq.symm.trans hholds))⟩
  exact ⟨_, hguar, hblind x _ _ hx rfl rfl rfl rfl hguar.1.inv⟩

/-- The session check. When it succeeds, something may take effect. -/
theorem spec_isLoggedIn (hw : w ≠ 0) (c : Fin maxClient) (In : View → Prop)
    (hstable : Prog.Stable (Rely k w) In)
    (hin : ∀ x, Local k w q x → Has w c x → ∃ g, Guar k w x (x.1, g) ∧ In (x.1, g)) :
    Spec k w (Local k w q) (Code.isLoggedIn (c : Nat) w)
      fun b x => if b then In x else Local k w q x ∧ ¬ Has w c x := by
  have hout : Prog.Stable (Rely k w) fun x => Local k w q x ∧ ¬ Has w c x :=
    Local.stable.and (not_has_stable c)
  refine spec_look (exec_readSession c) Local.stable (fun x hx => hx.inv)
    (fun v x => Local k w q x ∧ (v = 0 → ¬ Has w c x)) ?_ fun v => .ite (fun hv => ?_) fun hv => ?_
  · intro x hx
    refine ⟨hx, fun hzero hhas => hw ?_⟩
    rw [← hzero]
    exact hhas.symm
  · subst hv
    exact (Prog.triple_pure hout fun x hx => by simpa using hx).pre fun x hx => ⟨hx.1, hx.2 rfl⟩
  · -- the second read decides
    refine (spec_read (exec_readSession c) Local.stable
      (fun v' x => if w = v' then In x else Local k w q x ∧ ¬ Has w c x) ?_ fun v' => ?_).pre
        fun x hx => hx.1
    · intro x hx
      by_cases hhas : Has w c x
      · obtain ⟨g, hguar, hIn⟩ := hin x hx hhas
        refine ⟨g, hguar, ?_⟩
        rw [if_pos (show w = x.1.server.session c from hhas.symm)]
        exact hIn
      · refine ⟨x.2, guar_silent hx.inv, ?_⟩
        rw [if_neg fun heq => hhas heq.symm]
        exact ⟨hx, hhas⟩
    · by_cases hv' : w = v'
      · refine (Prog.triple_pure hstable fun x hx => ?_).pre fun x hx => (if_pos hv').mp hx
        rw [if_pos (decide_eq_true hv')]
        exact hx
      · refine (Prog.triple_pure hout fun x hx => ?_).pre fun x hx => (if_neg hv').mp hx
        rw [if_neg fun heq => hv' (of_decide_eq_true heq)]
        exact hx

/-- The end of an operation that has taken effect under a lock. -/
theorem spec_unlock_pure {α : Type} {i : Fin numSeat} {res : α} {r : α → Reply} :
    Spec k w (fun x => Answered k w q (r res) x ∧ Holds k i x)
      (.stmt (.mutexUnlock (i : Nat)) >>= fun _ => pure res) fun res => Post k w q (r res) :=
  spec_unlock Answered.stable (fun _ hx => hx.inv) Answered.blind fun _ =>
    Prog.triple_pure Answered.stable fun _ hx => .inl hx

/-- Without a session a booking fails. -/
theorem handleQuery_book_out {st : Server} {c : Fin maxClient} (h : ¬ LoggedIn st c w) (seat : Int) :
    handleQuery st w ⟨(c : Nat), 2, seat⟩ = some (st, .failure) := by
  rcases outside_or_fin numSeat seat with hseat | ⟨i, rfl⟩
  · simp [handleQuery, book_of_no_seat st c w hseat]
  · simp [handleQuery, book_val, h]

/-- `book` takes effect when it writes the seat, or at the check that fails. -/
theorem spec_book (hw : w ≠ 0) (c : Fin maxClient) (seat : Int) :
    Spec k w (Local k w ⟨(c : Nat), 2, seat⟩) (Code.book (c : Nat) seat w) fun res =>
      Post k w ⟨(c : Nat), 2, seat⟩ (res.elim .failure fun n => .ok (snprintf 4096 (showInt n))) := by
  have hin : Prog.Stable (Rely k w) fun x => Local k w ⟨(c : Nat), 2, seat⟩ x ∧ Has w c x :=
    Local.stable.and (Has.stable c)
  have hout : Prog.Stable (Rely k w) fun x => Local k w ⟨(c : Nat), 2, seat⟩ x ∧ ¬ Has w c x :=
    Local.stable.and (not_has_stable c)
  refine (spec_isLoggedIn hw c _ hin fun x hx hhas => ⟨x.2, guar_silent hx.inv, hx, hhas⟩).bind
    (Rely.refl k w) fun ok => .ite (fun hok => ?_) fun hok => ?_
  · have hok : ok = false := by simpa using hok
    subst hok
    refine Prog.triple_pure hout fun x hx => Local.ready hout (fun x hx => hx.1) (by simp) ?_ hx
    exact fun x hx => handleQuery_book_out (fun h => hx.2 ((hx.1.inv.loggedIn hw c).mp h)) seat
  have hok : ok = true := by simpa using hok
  subst hok
  refine .ite (fun hseat => ?_) fun hseat => ?_
  · refine Prog.triple_pure hin fun x hx => Local.ready hin (fun x hx => hx.1) (by simp) ?_ hx
    intro x hx
    simp [handleQuery, book_of_no_seat _ c w hseat]
  obtain ⟨i, rfl⟩ := (outside_or_fin numSeat seat).resolve_left hseat
  have hseat : Prog.Stable (Rely k w) fun x =>
      (Local k w ⟨(c : Nat), 2, (i : Nat)⟩ x ∧ Has w c x) ∧ Holds k i x ∧ x.1.server.seats i = 0 :=
    hin.and (Holds.stable_seat i 0)
  refine spec_lock hin (fun x hx => hx.1.inv) (Local.blind.and (Has.blind c)) fun _ => ?_
  -- what stands in the seat decides
  refine spec_read (exec_readSeat i) (hin.and (Holds.stable i))
    (fun v x => if v = 0 then (Local k w ⟨(c : Nat), 2, (i : Nat)⟩ x ∧ Has w c x) ∧ Holds k i x ∧
        x.1.server.seats i = 0
      else Answered k w ⟨(c : Nat), 2, (i : Nat)⟩ .failure x ∧ Holds k i x) ?_ fun v => ?_
  · rintro x ⟨⟨hlocal, hhas⟩, hholds⟩
    by_cases hfree : x.1.server.seats i = 0
    · refine ⟨x.2, guar_silent hlocal.inv, ?_⟩
      rw [if_pos hfree]
      exact ⟨⟨hlocal, hhas⟩, hholds, hfree⟩
    · have hfails : handleQuery x.2.sys.server w ⟨(c : Nat), 2, (i : Nat)⟩ =
          some (x.2.sys.server, .failure) := by
        have hfree' : x.2.sys.server.seats i ≠ 0 := by
          rw [hlocal.inv.seats]
          exact hfree
        simp [handleQuery, book_val, hfree']
      obtain ⟨g, hguar, hanswered, hholder⟩ := hlocal.fail (by simp) hfails
      refine ⟨g, hguar, ?_⟩
      rw [if_neg hfree]
      exact ⟨hanswered, (congrFun hholder i).trans hholds⟩
  refine .ite (fun hv => ?_) fun hv => ?_
  · -- the booking takes effect with the write
    refine Prog.Triple.pre (Prog.triple_stmt hseat
      (fun _ x => Answered k w ⟨(c : Nat), 2, (i : Nat)⟩ (.ok (snprintf 4096 (showInt (i : Nat)))) x ∧
        Holds k i x) ?_ fun _ => ?_) fun x hx => (if_pos hv).mp hx
    · rintro x v t ⟨⟨hlocal, hhas⟩, hholds, hfree⟩ hexec
      rw [exec_writeSeat] at hexec
      cases hexec
      have hlogged := (hlocal.inv.loggedIn hw c).mpr hhas
      have hfree' : x.2.sys.server.seats i = 0 := by
        rw [hlocal.inv.seats]
        exact hfree
      exact hlocal.answer_seat hholds (by simp) (by simp) (by simp [handleQuery, book_val, hlogged, hfree'])
    · exact spec_unlock_pure
  · exact Prog.Triple.pre spec_unlock_pure fun x hx => (if_neg hv).mp hx

/-- Without a session a cancellation fails. -/
theorem handleQuery_cancel_out {st : Server} {c : Fin maxClient} (h : ¬ LoggedIn st c w) (seat : Int) :
    handleQuery st w ⟨(c : Nat), 4, seat⟩ = some (st, .failure) := by
  rcases outside_or_fin numSeat seat with hseat | ⟨i, rfl⟩
  · simp [handleQuery, cancelBooking_of_no_seat st c w hseat]
  · simp [handleQuery, cancelBooking_val, h]

/-- The reply to a cancellation. -/
def cancelReply (seat : Int) (ok : Bool) : Reply :=
  if ok then .ok (snprintf 4096 (showInt seat)) else .failure

/-- `cancel_booking` takes effect when it frees the seat, or at the check that fails. -/
theorem spec_cancelBooking (hw : w ≠ 0) (c : Fin maxClient) (hc : c ≠ 0) (seat : Int) :
    Spec k w (Local k w ⟨(c : Nat), 4, seat⟩) (Code.cancelBooking (c : Nat) seat w) fun ok =>
      Post k w ⟨(c : Nat), 4, seat⟩ (cancelReply seat ok) := by
  have hin : Prog.Stable (Rely k w) fun x => Local k w ⟨(c : Nat), 4, seat⟩ x ∧ Has w c x :=
    Local.stable.and (Has.stable c)
  have hout : Prog.Stable (Rely k w) fun x => Local k w ⟨(c : Nat), 4, seat⟩ x ∧ ¬ Has w c x :=
    Local.stable.and (not_has_stable c)
  refine (spec_isLoggedIn hw c _ hin fun x hx hhas => ⟨x.2, guar_silent hx.inv, hx, hhas⟩).bind
    (Rely.refl k w) fun ok => .ite (fun hok => ?_) fun hok => ?_
  · have hok : ok = false := by simpa using hok
    subst hok
    refine Prog.triple_pure hout fun x hx => Local.ready hout (fun x hx => hx.1) (by simp) ?_ hx
    exact fun x hx => handleQuery_cancel_out (fun h => hx.2 ((hx.1.inv.loggedIn hw c).mp h)) seat
  have hok : ok = true := by simpa using hok
  subst hok
  refine .ite (fun hseat => ?_) fun hseat => ?_
  · refine Prog.triple_pure hin fun x hx => Local.ready hin (fun x hx => hx.1) (by simp) ?_ hx
    intro x hx
    simp [handleQuery, cancelBooking_of_no_seat _ c w hseat, cancelReply]
  obtain ⟨i, rfl⟩ := (outside_or_fin numSeat seat).resolve_left hseat
  have hfails : ∀ st : Server, st.seats i ≠ (c : Nat) ∨ st.seats i = 0 →
      handleQuery st w ⟨(c : Nat), 4, (i : Nat)⟩ = some (st, .failure) := by
    intro st hst
    have hnot : ¬ (LoggedIn st c w ∧ st.seats i ≠ 0 ∧ st.seats i = (c : Nat)) :=
      fun h => hst.elim (fun hne => hne h.2.2) h.2.1
    simp only [handleQuery, cancelBooking_val, if_neg hnot]
    rfl
  -- the read without the lock: a free seat ends the query
  refine spec_read (exec_readSeat i) hin
    (fun v x => if v = 0 then Answered k w ⟨(c : Nat), 4, (i : Nat)⟩ .failure x
      else Local k w ⟨(c : Nat), 4, (i : Nat)⟩ x ∧ Has w c x) ?_ fun v => .ite (fun hv => ?_) fun hv => ?_
  · rintro x ⟨hlocal, hhas⟩
    by_cases hfree : x.1.server.seats i = 0
    · obtain ⟨g, hguar, hanswered, -⟩ := hlocal.fail (by simp)
        (hfails x.2.sys.server (.inr ((congrFun hlocal.inv.seats i).trans hfree)))
      refine ⟨g, hguar, ?_⟩
      rw [if_pos hfree]
      exact hanswered
    · refine ⟨x.2, guar_silent hlocal.inv, ?_⟩
      rw [if_neg hfree]
      exact ⟨hlocal, hhas⟩
  · exact (Prog.triple_pure Answered.stable fun x hx => .inl hx).pre fun x hx => (if_pos hv).mp hx
  refine Prog.Triple.pre (spec_lock hin (fun x hx => hx.1.inv) (Local.blind.and (Has.blind c))
    fun _ => ?_) fun x hx => (if_neg hv).mp hx
  -- the read under the lock decides
  have hmine : Prog.Stable (Rely k w) fun x => (Local k w ⟨(c : Nat), 4, (i : Nat)⟩ x ∧ Has w c x) ∧
      Holds k i x ∧ x.1.server.seats i = (c : Nat) :=
    hin.and (Holds.stable_seat i _)
  refine spec_read (exec_readSeat i) (hin.and (Holds.stable i))
    (fun v x => if v = (c : Nat) then (Local k w ⟨(c : Nat), 4, (i : Nat)⟩ x ∧ Has w c x) ∧
        Holds k i x ∧ x.1.server.seats i = (c : Nat)
      else Answered k w ⟨(c : Nat), 4, (i : Nat)⟩ .failure x ∧ Holds k i x) ?_ fun v => ?_
  · rintro x ⟨⟨hlocal, hhas⟩, hholds⟩
    by_cases hown : x.1.server.seats i = (c : Nat)
    · refine ⟨x.2, guar_silent hlocal.inv, ?_⟩
      rw [if_pos hown]
      exact ⟨⟨hlocal, hhas⟩, hholds, hown⟩
    · have hown' : x.2.sys.server.seats i ≠ (c : Nat) := by
        rw [hlocal.inv.seats]
        exact hown
      obtain ⟨g, hguar, hanswered, hholder⟩ := hlocal.fail (by simp) (hfails x.2.sys.server (.inl hown'))
      refine ⟨g, hguar, ?_⟩
      rw [if_neg hown]
      exact ⟨hanswered, (congrFun hholder i).trans hholds⟩
  refine .ite (fun hv => ?_) fun hv => ?_
  · -- the cancellation takes effect with the write
    refine Prog.Triple.pre (Prog.triple_stmt hmine (fun _ x =>
      Answered k w ⟨(c : Nat), 4, (i : Nat)⟩ (cancelReply (i : Nat) true) x ∧ Holds k i x) ?_
        fun _ => spec_unlock_pure) fun x hx => (if_pos hv).mp hx
    rintro x v t ⟨⟨hlocal, hhas⟩, hholds, hown⟩ hexec
    rw [exec_writeSeat] at hexec
    cases hexec
    have hlogged := (hlocal.inv.loggedIn hw c).mpr hhas
    have hown' : x.2.sys.server.seats i = (c : Nat) := by
      rw [hlocal.inv.seats]
      exact hown
    have hne : x.2.sys.server.seats i ≠ 0 := by
      rw [hown']
      exact fun heq => hc (Fin.ext (Int.natCast_eq_zero.mp heq))
    refine hlocal.answer_seat hholds (by simp) (by simp) ?_
    simp only [handleQuery, cancelBooking_val, if_pos (And.intro hlogged (And.intro hne hown'))]
    rfl
  · exact Prog.Triple.pre spec_unlock_pure fun x hx => (if_neg hv).mp hx

/-- Without a session a logout fails. -/
theorem handleQuery_logout_out {st : Server} {c : Fin maxClient} (h : ¬ LoggedIn st c w) (data : Int) :
    handleQuery st w ⟨(c : Nat), 5, data⟩ = some (st, .failure) := by
  simp [handleQuery, logout_val, h]

/-- The reply to a login and a logout. -/
def sessionReply (ok : Bool) : Reply := if ok then .ok ['1'] else .failure

/-- `logout` takes effect when it clears the session. -/
theorem spec_logout (hw : w ≠ 0) (c : Fin maxClient) (data : Int) :
    Spec k w (Local k w ⟨(c : Nat), 5, data⟩) (Code.logout (c : Nat) w) fun ok =>
      Post k w ⟨(c : Nat), 5, data⟩ (sessionReply ok) := by
  have hin : Prog.Stable (Rely k w) fun x => Local k w ⟨(c : Nat), 5, data⟩ x ∧ Has w c x :=
    Local.stable.and (Has.stable c)
  have hout : Prog.Stable (Rely k w) fun x => Local k w ⟨(c : Nat), 5, data⟩ x ∧ ¬ Has w c x :=
    Local.stable.and (not_has_stable c)
  refine (spec_isLoggedIn hw c _ hin fun x hx hhas => ⟨x.2, guar_silent hx.inv, hx, hhas⟩).bind
    (Rely.refl k w) fun ok => .ite (fun hok => ?_) fun hok => ?_
  · have hok : ok = false := by simpa using hok
    subst hok
    refine Prog.triple_pure hout fun x hx => Local.ready hout (fun x hx => hx.1) (by simp) ?_ hx
    exact fun x hx => handleQuery_logout_out (fun h => hx.2 ((hx.1.inv.loggedIn hw c).mp h)) data
  have hok : ok = true := by simpa using hok
  subst hok
  refine Prog.triple_stmt hin
    (fun _ x => Answered k w ⟨(c : Nat), 5, data⟩ (sessionReply true) x) ?_ fun _ =>
      Prog.triple_pure Answered.stable fun x hx => .inl hx
  rintro x v t ⟨hlocal, hhas⟩ hexec
  rw [exec_writeSession] at hexec
  cases hexec
  have hlogged := (hlocal.inv.loggedIn hw c).mpr hhas
  have hsessions : ∀ u, (x.1.server.setSession c 0).session u = x.1.server.session u ∨
      ((x.1.server.session u = 0 ∨ x.1.server.session u = w) ∧
        (x.1.server.setSession c 0).session u = 0) := by
    intro u
    by_cases hu : u = c
    · subst hu
      exact .inr ⟨.inr hhas, Function.update_self ..⟩
    · exact .inl (Function.update_of_ne hu _ _)
  obtain ⟨g, hguar, hanswered, -⟩ := hlocal.answer_of_not_login (by simp) (by simp)
    (t := { x.1 with server := x.1.server.setSession c 0 }) (r := sessionReply true)
    (x.2.sys.server.setSession c 0) (by simp [handleQuery, logout_val, hlogged, sessionReply]) rfl
    (by rw [Server.setSession_session, Server.setSession_session, hlocal.inv.session]) hlocal.inv.seats
    rfl rfl hsessions fun _ => .inl rfl
  exact ⟨g, hguar, hanswered⟩

/-! ### Confirming -/

/-- The confirm query of connection `k` stands before iteration `i`. -/
structure Confirming (k : Nat) (w user data : Int) (i : Nat) (b : Booked) (x : View) : Prop where
  inv : Inv x
  called : x.2.status k = .called ⟨user, 3, data⟩
  conn : x.2.sys.conn k = some ⟨w, .confirming user data i b⟩

/-- The others do not change what has been listed. -/
theorem Confirming.stable {user data : Int} {i : Nat} {b : Booked} :
    Prog.Stable (Rely k w) (Confirming k w user data i b) :=
  fun _ _ hx h => ⟨h.inv hx.inv, h.status.trans hx.called, h.conn.trans hx.conn⟩

/-- What has been listed does not depend on the locks. -/
theorem Confirming.blind {user data : Int} {i : Nat} {b : Booked} :
    Blind (Confirming k w user data i b) := by
  intro x t g hx hserver hsys hstatus hreg hinv
  refine ⟨hinv, ?_, ?_⟩
  · rw [hstatus]
    exact hx.called
  · rw [hsys]
    exact hx.conn

/-- A step of a confirm query in `System`, at a statement that changes nothing. -/
theorem guar_confirm {x : View} (hinv : Inv x) {user data : Int}
    (hcalled : x.2.status k = .called ⟨user, 3, data⟩) {e : Event} {c : Conn}
    (hstep : Step x.2.sys e (x.2.sys.setConn k (some c)))
    (he : (∃ i, e = .confirmSeat k i) ∨ e = .confirmStart k user) :
    ∃ g, Guar k w x (x.1, g) ∧ g.status k = .called ⟨user, 3, data⟩ ∧ g.sys.conn k = some c ∧
      g.holder = x.2.holder := by
  have hnext : (x.2.status k).next k (.inr e) = some (x.2.status k) ∧
      (∀ j, j ≠ k → ∀ st : Status, st.next j (.inr e) = some st) ∧ ∀ j w, e ≠ .accept j w := by
    rcases he with ⟨i, rfl⟩ | rfl
    · refine ⟨by simp [Status.next, hcalled], fun j hj st => by simp [Status.next, Ne.symm hj], ?_⟩
      rintro j w ⟨⟩
    · refine ⟨by simp [Status.next, hcalled], fun j hj st => by simp [Status.next, Ne.symm hj], ?_⟩
      rintro j w ⟨⟩
  have hlogin : ∀ u, ¬ LoggingIn x.2 k u := by
    rintro u ⟨q, hq, hin⟩
    rw [hcalled] at hq
    cases hq
    exact absurd hin.1 (by simp)
  have hguar := guar_event (w := w) hinv _ x.2.registering hstep hnext.2.2 hnext.1 hnext.2.1
    (fun j hj => Sys.setConn_conn_of_ne _ _ hj) (fun _ => id) (t := x.1) rfl
    hinv.session hinv.seats (fun u hu => absurd hu (hlogin u))
    (fun _ _ => ⟨rfl, rfl, rfl⟩) (fun _ => .inl rfl) fun _ => .inl rfl
  refine ⟨_, hguar, ?_, Sys.setConn_conn_self .., rfl⟩
  exact (Function.update_self ..).trans hcalled

/-- An iteration of the loop is one of `System`. -/
theorem spec_confirmSeat (c : Fin maxClient) (data : Int) (b : Booked) (i : Fin numSeat) :
    Spec k w (Confirming k w (c : Nat) data i b) (Code.confirmSeat (c : Nat) b i)
      (Confirming k w (c : Nat) data (i + 1)) := by
  refine spec_lock Confirming.stable (fun x hx => hx.inv) Confirming.blind fun _ => ?_
  refine spec_read (exec_readSeat i) (Confirming.stable.and (Holds.stable i))
    (fun v x => Confirming k w (c : Nat) data (i + 1)
      (if v = (c : Nat) then ⟨b.text ++ snprintf 5 (decimal i ++ [',']), b.count + 1⟩ else b) x ∧
        Holds k i x) ?_ fun v => ?_
  · rintro x ⟨hx, hholds⟩
    obtain ⟨g, hguar, hcalled, hconn, hholder⟩ := guar_confirm (w := w) hx.inv hx.called
      (.confirmSeat hx.conn) (.inl ⟨i, rfl⟩)
    refine ⟨g, hguar, ⟨hguar.1.inv, hcalled, ?_⟩, (congrFun hholder i).trans hholds⟩
    rw [hconn, confirmSeat, hx.inv.seats]
  · exact spec_unlock Confirming.stable (fun x hx => hx.inv) Confirming.blind fun _ =>
      Prog.triple_pure Confirming.stable fun x hx => hx

/-- `confirm_booking` is the iterations of `System`, one by one. -/
theorem spec_confirmBooking (hw : w ≠ 0) (c : Fin maxClient) (data : Int) :
    Spec k w (Local k w ⟨(c : Nat), 3, data⟩) (Code.confirmBooking (c : Nat) w) fun res =>
      Post k w ⟨(c : Nat), 3, data⟩ (confirmReply res) := by
  have hout : Prog.Stable (Rely k w) fun x => Local k w ⟨(c : Nat), 3, data⟩ x ∧ ¬ Has w c x :=
    Local.stable.and (not_has_stable c)
  have hafter : afterReply w ⟨(c : Nat), 3, data⟩ = some ⟨w, .idle⟩ := by simp [afterReply]
  have hfresh : ∀ (x : View) (u : Fin maxClient), InLogin ⟨(c : Nat), 3, data⟩ u →
      x.2.registering u = false := fun _ _ h => absurd h.1 (by simp)
  refine Prog.Triple.bind (Rely.refl k w) (spec_isLoggedIn hw c
    (Confirming k w (c : Nat) data 0 .empty) Confirming.stable ?_) fun ok => .ite (fun hok => ?_) fun hok => ?_
  · -- the session check starts the query in `System`
    intro x hlocal hhas
    have hlogged := (hlocal.inv.loggedIn hw c).mpr hhas
    obtain ⟨g, hguar, hcalled, hconn, -⟩ := guar_confirm (w := w) hlocal.inv hlocal.called
      (.confirmStart hlocal.conn (by simp [hlogged])) (.inr rfl)
    exact ⟨g, hguar, hguar.1.inv, hcalled, hconn⟩
  · have hok : ok = false := by simpa using hok
    subst hok
    refine Prog.triple_pure hout fun x hx => .inr ⟨hx.1.inv, hx.1.called, hfresh x, ?_⟩
    intro y hxy
    obtain ⟨hlocal, hhas⟩ := hout x y hx hxy
    have hnot := mt (hlocal.inv.loggedIn hw c).mp hhas
    rw [hafter, Sys.setConn_eq_self hlocal.conn]
    exact .confirmRefused hlocal.conn (by simp [hnot])
  have hok : ok = true := by simpa using hok
  subst hok
  refine Prog.Triple.bind (Rely.refl k w) ((Prog.triple_foldlM (Rely.refl k w)
    (fun done b => Confirming k w (c : Nat) data done.length b) (fun _ _ => Confirming.stable)
    ?_ Booked.empty).pre fun x hx => by simpa using hx) fun b => ?_
  · intro done i rest b hl
    have hi : done.length = i := by
      have hlt : done.length < (List.finRange numSeat).length := by
        rw [hl]
        simp
      have hget : (List.finRange numSeat)[done.length] = i := by
        simp only [hl]
        simp
      rw [List.getElem_finRange] at hget
      rw [← hget]
      rfl
    rw [hi]
    exact (spec_confirmSeat c data b i).post fun b' x hx => by simpa [hi] using hx
  · refine Prog.triple_pure Confirming.stable fun x hx => .inr ⟨hx.inv, hx.called, hfresh x, ?_⟩
    intro y hxy
    have hy := Confirming.stable x y hx hxy
    rw [hafter]
    refine .confirmEnd ?_
    have hconn := hy.conn
    rwa [List.length_finRange] at hconn

/-! ### Logging in -/

/-- The client of a login, and the connection that is in it. -/
theorem inLogin_iff {c u : Fin maxClient} {pw : Int} : InLogin ⟨(c : Nat), 1, pw⟩ u ↔ u = c := by
  constructor
  · exact fun h => Fin.ext (Int.ofNat_inj.mp h.2).symm
  · rintro rfl
    exact ⟨rfl, rfl⟩

/-- A login by which nobody has a session yet, with the password that is read. -/
structure Free (k : Nat) (w : Int) (c : Fin maxClient) (pw p : Int) (x : View) : Prop
    extends Local k w ⟨(c : Nat), 1, pw⟩ x where
  session : x.1.server.session c = 0
  password : x.1.server.password c = p

/-- A login that has written the password and not the session. -/
structure Registering (k : Nat) (w : Int) (c : Fin maxClient) (pw : Int) (x : View) : Prop
    extends Pending k w ⟨(c : Nat), 1, pw⟩ x where
  session : x.1.server.session c = 0
  password : x.1.server.password c = pw
  before : x.2.sys.server.password c = 0

section login

variable {c : Fin maxClient} {pw p : Int}

/-- A login query that was not answered is logging its client in. -/
theorem Pending.loggingIn {x : View} (h : Pending k w ⟨(c : Nat), 1, pw⟩ x) : LoggingIn x.2 k c :=
  ⟨_, h.called, inLogin_iff.mpr rfl⟩

/-- It logs in no other client. -/
theorem Pending.loggingIn_iff {x : View} (h : Pending k w ⟨(c : Nat), 1, pw⟩ x) {u : Fin maxClient} :
    LoggingIn x.2 k u ↔ u = c := by
  constructor
  · rintro ⟨q, hq, hin⟩
    rw [h.called] at hq
    cases hq
    exact inLogin_iff.mp hin
  · rintro rfl
    exact h.loggingIn

/-- The others leave a session that is free as it is, as long as nobody else logs the client in. -/
theorem Free.stable : Prog.Stable (Rely k w) (Free k w c pw p) := by
  intro x y hx h
  obtain ⟨hp, -, -, hzero⟩ := h.login c hx.loggingIn
  exact ⟨Local.stable x y hx.toLocal h, hzero hx.session, hp.trans hx.password⟩

/-- They do not register the client. -/
theorem Registering.stable : Prog.Stable (Rely k w) (Registering k w c pw) := by
  intro x y hx h
  obtain ⟨hp, hs, -, hzero⟩ := h.login c hx.loggingIn
  exact ⟨Pending.stable x y hx.toPending h, hzero hx.session, hp.trans hx.password, hs.trans hx.before⟩

/-- A login fails without a password, while somebody has the session, or with another password. -/
theorem handleQuery_login_fails {st : Server}
    (h : ¬ (0 ≤ pw ∧ st.session c = 0 ∧ (st.password c = 0 ∨ st.password c = pw))) :
    handleQuery st w ⟨(c : Nat), 1, pw⟩ = some (st, .failure) := by
  simp only [handleQuery, login_val, if_neg h]
  rfl

/-- The write of a password keeps to the guarantee. -/
theorem guar_register {x : View} (h : Free k w c pw p x) :
    Guar k w x ({ x.1 with server := x.1.server.setPassword c pw },
      { x.2 with registering := Function.update x.2.registering c true }) := by
  refine ⟨⟨⟨h.inv.wf, h.inv.session, h.inv.seats, ?_, h.inv.lock, h.inv.exclusive, ?_⟩, fun _ _ => rfl,
    fun _ _ => rfl, fun _ => .inl rfl, fun _ _ _ => Iff.rfl, fun _ => .inl rfl, ?_⟩, [], .silent rfl rfl⟩
  · intro u hu
    by_cases hc : u = c
    · subst hc
      simp at hu
    · have hu : x.2.registering u = false := by simpa [Function.update_of_ne hc] using hu
      exact (h.inv.password u hu).trans (Function.update_of_ne hc _ _).symm
  · intro u hu
    by_cases hc : u = c
    · subst hc
      exact ⟨k, h.loggingIn⟩
    · have hu : x.2.registering u = true := by simpa [Function.update_of_ne hc] using hu
      exact h.inv.registering u hu
  · intro u
    by_cases hc : u = c
    · subst hc
      exact .inr h.loggingIn
    · exact .inl ⟨Function.update_of_ne hc _ _, rfl, Function.update_of_ne hc _ _⟩

/-- A login takes effect when it writes the session. -/
theorem Pending.enter {x : View} (h : Pending k w ⟨(c : Nat), 1, pw⟩ x) (hpw : 0 ≤ pw)
    (hsession : x.1.server.session c = 0) (hpassword : x.1.server.password c = pw)
    (hbefore : x.2.sys.server.password c = 0 ∨ x.2.sys.server.password c = pw) :
    ∃ g, Guar k w x ({ x.1 with server := x.1.server.setSession c w }, g) ∧
      Answered k w ⟨(c : Nat), 1, pw⟩ (sessionReply true)
        ({ x.1 with server := x.1.server.setSession c w }, g) := by
  have hfree : x.2.sys.server.session c = 0 := by
    rw [h.inv.session]
    exact hsession
  have hmine : ∀ u, LoggingIn x.2 k u → Function.update x.2.registering c false u = false ∧
      ((x.2.sys.server.setPassword c pw).setSession c w).password u =
        (x.1.server.setSession c w).password u := by
    intro u hu
    obtain rfl := h.loggingIn_iff.mp hu
    simp [hpassword]
  have htheirs : ∀ u, ¬ LoggingIn x.2 k u →
      (x.1.server.setSession c w).password u = x.1.server.password u ∧
      ((x.2.sys.server.setPassword c pw).setSession c w).password u = x.2.sys.server.password u ∧
      Function.update x.2.registering c false u = x.2.registering u := by
    intro u hu
    have hc : u ≠ c := fun heq => hu (h.loggingIn_iff.mpr heq)
    simp [Function.update_of_ne hc]
  have hsessions : ∀ u, (x.1.server.setSession c w).session u = x.1.server.session u ∨
      ((x.1.server.session u = 0 ∨ x.1.server.session u = w) ∧
        ((x.1.server.setSession c w).session u = 0 ∨
          (x.1.server.setSession c w).session u = w ∧ LoggingIn x.2 k u)) := by
    intro u
    by_cases hc : u = c
    · subst hc
      exact .inr ⟨.inl hsession, .inr ⟨by simp, h.loggingIn⟩⟩
    · exact .inl (Function.update_of_ne hc _ _)
  obtain ⟨g, hguar, hanswered, -⟩ := h.answer (by simp)
    ((x.2.sys.server.setPassword c pw).setSession c w) _
    (t := { x.1 with server := x.1.server.setSession c w }) (r := sessionReply true)
    (by simp only [handleQuery, login_val, if_pos (And.intro hpw (And.intro hfree hbefore))]; rfl) rfl
    (by simp [h.inv.session]) (by simpa using h.inv.seats) hmine htheirs hsessions fun _ => .inl rfl
  exact ⟨g, hguar, hanswered⟩

/-- A login takes effect when it writes the session, or at the check that fails. -/
theorem spec_checkPassword (hpw : 0 ≤ pw) :
    Spec k w (fun x => Local k w ⟨(c : Nat), 1, pw⟩ x ∧ x.1.server.session c = 0)
      (Code.checkPassword (c : Nat) pw w) fun ok => Post k w ⟨(c : Nat), 1, pw⟩ (sessionReply ok) := by
  have hstable : Prog.Stable (Rely k w) fun x =>
      Local k w ⟨(c : Nat), 1, pw⟩ x ∧ x.1.server.session c = 0 := by
    rintro x y ⟨hlocal, hfree⟩ h
    exact ⟨Local.stable x y hlocal h, (h.login c hlocal.loggingIn).2.2.2 hfree⟩
  refine spec_look (exec_readPassword c) hstable (fun x hx => hx.1.inv) (Free k w c pw)
    (fun x hx => ⟨hx.1, hx.2, rfl⟩) fun p => .ite (fun hp => ?_) fun hp => ?_
  · -- not registered: the password, and then the session
    subst hp
    refine Prog.triple_stmt Free.stable (fun _ => Registering k w c pw) ?_ fun _ =>
      Prog.triple_stmt Registering.stable (fun _ => Answered k w ⟨(c : Nat), 1, pw⟩ (sessionReply true))
        ?_ fun _ => Prog.triple_pure Answered.stable fun x hx => .inl hx
    · intro x v t hx hexec
      rw [exec_writePassword] at hexec
      cases hexec
      refine ⟨_, guar_register hx, ⟨(guar_register hx).1.inv, hx.called, hx.conn⟩, hx.session, by simp, ?_⟩
      exact (hx.inv.password c (hx.fresh c (inLogin_iff.mpr rfl))).trans hx.password
    · intro x v t hx hexec
      rw [exec_writeSession] at hexec
      cases hexec
      exact hx.toPending.enter hpw hx.session hx.password (.inl hx.before)
  · refine spec_look (exec_readPassword c) Free.stable (fun x hx => hx.inv)
      (fun p' x => Free k w c pw p' x ∧ p' ≠ 0) ?_ fun p' => .ite (fun hp' => ?_) fun hp' => ?_
    · intro x hx
      rw [hx.password]
      exact ⟨hx, hp⟩
    · subst hp'
      refine Prog.Triple.pre (Prog.triple_stmt Free.stable
        (fun _ => Answered k w ⟨(c : Nat), 1, p'⟩ (sessionReply true)) ?_ fun _ =>
          Prog.triple_pure Answered.stable fun x hx => .inl hx) fun x hx => hx.1
      intro x v t hx hexec
      rw [exec_writeSession] at hexec
      cases hexec
      have hbefore := (hx.inv.password c (hx.fresh c (inLogin_iff.mpr rfl))).trans hx.password
      exact hx.toPending.enter hpw hx.session hx.password (.inr hbefore)
    · have hother : Prog.Stable (Rely k w) fun x => Free k w c pw p' x ∧ p' ≠ 0 :=
        fun x y hx h => ⟨Free.stable x y hx.1 h, hx.2⟩
      refine Prog.triple_pure hother fun x hx =>
        Local.ready hother (fun x hx => hx.1.toLocal) (by simp) ?_ hx
      rintro x ⟨hfree, hne⟩
      have hpassword := (hfree.inv.password c (hfree.fresh c (inLogin_iff.mpr rfl))).trans hfree.password
      refine handleQuery_login_fails ?_
      rintro ⟨-, -, hzero | hsame⟩
      · exact hne (hpassword.symm.trans hzero)
      · exact hp' (hpassword.symm.trans hsame)

/-- So does `login`. -/
theorem spec_login (hw : w ≠ 0) (c : Fin maxClient) (pw : Int) :
    Spec k w (Local k w ⟨(c : Nat), 1, pw⟩) (Code.login (c : Nat) pw w) fun ok =>
      Post k w ⟨(c : Nat), 1, pw⟩ (sessionReply ok) := by
  have hin : Prog.Stable (Rely k w) fun x => Local k w ⟨(c : Nat), 1, pw⟩ x ∧ Has w c x :=
    Local.stable.and (Has.stable c)
  have hout : Prog.Stable (Rely k w) fun x => Local k w ⟨(c : Nat), 1, pw⟩ x ∧ ¬ Has w c x :=
    Local.stable.and (not_has_stable c)
  refine .ite (fun hpw => ?_) fun hpw => ?_
  · refine Prog.triple_pure Local.stable fun x hx => Local.ready Local.stable (fun _ => id) (by simp) ?_ hx
    exact fun x _ => handleQuery_login_fails fun h => absurd h.1 (Int.not_le.mpr hpw)
  refine (spec_isLoggedIn hw c _ hin fun x hx hhas => ⟨x.2, guar_silent hx.inv, hx, hhas⟩).bind
    (Rely.refl k w) fun ok => .ite (fun hok => ?_) fun hok => ?_
  · subst hok
    refine Prog.triple_pure hin fun x hx => Local.ready hin (fun x hx => hx.1) (by simp) ?_ hx
    rintro x ⟨hlocal, hhas⟩
    refine handleQuery_login_fails fun h => hw ?_
    rw [← hhas, ← hlocal.inv.session]
    exact h.2.1
  have hok : ok = false := by simpa using hok
  subst hok
  refine .ite (fun h => absurd h (not_outside c)) fun _ => ?_
  -- a session, which is not the thread's own, makes the query fail
  refine Prog.Triple.pre (spec_read (exec_readSession c) hout
    (fun v x => if v = 0 then Local k w ⟨(c : Nat), 1, pw⟩ x ∧ x.1.server.session c = 0
      else Answered k w ⟨(c : Nat), 1, pw⟩ .failure x ∧ ¬ Has w c x) ?_ fun v =>
        .ite (fun hv => ?_) fun hv => ?_) fun x hx => by simpa using hx
  · rintro x ⟨hlocal, hhas⟩
    by_cases hfree : x.1.server.session c = 0
    · refine ⟨x.2, guar_silent hlocal.inv, ?_⟩
      rw [if_pos hfree]
      exact ⟨hlocal, hfree⟩
    · obtain ⟨g, hguar, hanswered, -⟩ := hlocal.fail (by simp)
        (handleQuery_login_fails fun h => hfree ((congrFun hlocal.inv.session c).symm.trans h.2.1))
      refine ⟨g, hguar, ?_⟩
      rw [if_neg hfree]
      exact ⟨hanswered, hhas⟩
  · refine Prog.Triple.pre (spec_look (exec_readSession c) (Answered.stable.and (not_has_stable c))
      (fun x hx => hx.1.inv) (fun v' x => Answered k w ⟨(c : Nat), 1, pw⟩ .failure x ∧ v' ≠ w) ?_
        fun v' => .ite (fun hv' => ?_) fun hv' => ?_) fun x hx => (if_neg hv).mp hx
    · exact fun x hx => ⟨hx.1, hx.2⟩
    · exact (Prog.triple_pure Answered.stable fun x hx => .inl hx).pre fun x hx => hx.1
    · exact fun x hx => absurd hx.2 hv'
  · exact Prog.Triple.pre (spec_checkPassword (Int.not_lt.mp hpw)) fun x hx =>
      (if_pos (not_not.mp hv)).mp hx

end login

/-! ### A query -/

/-- For a number that is no client, the session check is undefined. -/
theorem spec_isLoggedIn_undefined {α : Type} {user : Int} (hid : ¬ (0 ≤ user ∧ user < maxClient))
    {f : Bool → Code α} {P : View → Prop} {Q : α → View → Prop} :
    Spec k w P (Code.isLoggedIn user w >>= f) Q := by
  refine Prog.Triple.bind (Rely.refl k w) (R := fun _ _ => False) (spec_undefined ?_)
    fun _ _ hx => hx.elim
  intro t
  have hread : rd t.server.session user = none := dif_neg hid
  show (rd t.server.session user).map _ = none
  rw [hread]
  rfl

/-- Every query takes effect once, with its reply. -/
theorem spec_handleQuery (hw : w ≠ 0) (q : Query) (hcancel : q.action = 4 → q.user ≠ 0) :
    Spec k w (Local k w q) (Code.handleQuery w q) (Post k w q) := by
  have hready : ∀ {q : Query} {r : Reply}, q.action ≠ 3 →
      (∀ st : Server, handleQuery st w q = some (st, r)) → Spec k w (Local k w q) (pure r) (Post k w q) := by
    intro q r hq hr
    exact Prog.triple_pure Local.stable fun x hx =>
      Local.ready Local.stable (fun _ => id) hq (fun x _ => hr _) hx
  obtain ⟨user, action, data⟩ := q
  unfold Code.handleQuery
  split <;> rename_i hact <;> simp only at hact <;> try subst hact
  · refine .ite (fun hzero => hready (by simp) fun st => ?_) fun hzero => hready (by simp) fun st => ?_
    · exact if_pos hzero
    · exact if_neg hzero
  · by_cases hid : 0 ≤ user ∧ user < maxClient
    · obtain ⟨c, rfl⟩ := exists_fin_of_bounds (n := maxClient) hid.1 hid.2
      exact (spec_login hw c data).bind (Rely.refl k w) fun ok => Prog.triple_pure Post.stable fun _ => id
    · refine Prog.Triple.bind (Rely.refl k w) (R := fun ok => Post k w ⟨user, 1, data⟩ (sessionReply ok))
        (.ite (fun hpw => ?_) fun hpw => spec_isLoggedIn_undefined hid) fun ok =>
          Prog.triple_pure Post.stable fun _ => id
      refine Prog.triple_pure Local.stable fun x hx => Local.ready Local.stable (fun _ => id) (by simp) ?_ hx
      intro x _
      simp [handleQuery, login, hpw, sessionReply]
  · by_cases hid : 0 ≤ user ∧ user < maxClient
    · obtain ⟨c, rfl⟩ := exists_fin_of_bounds (n := maxClient) hid.1 hid.2
      exact (spec_book hw c data).bind (Rely.refl k w) fun ok => Prog.triple_pure Post.stable fun _ => id
    · exact Prog.Triple.bind (Rely.refl k w) (R := fun _ _ => False) (spec_isLoggedIn_undefined hid)
        fun _ _ hx => hx.elim
  · by_cases hid : 0 ≤ user ∧ user < maxClient
    · obtain ⟨c, rfl⟩ := exists_fin_of_bounds (n := maxClient) hid.1 hid.2
      exact (spec_confirmBooking hw c data).bind (Rely.refl k w) fun ok =>
        Prog.triple_pure Post.stable fun _ => id
    · exact Prog.Triple.bind (Rely.refl k w) (R := fun _ _ => False) (spec_isLoggedIn_undefined hid)
        fun _ _ hx => hx.elim
  · by_cases hid : 0 ≤ user ∧ user < maxClient
    · obtain ⟨c, rfl⟩ := exists_fin_of_bounds (n := maxClient) hid.1 hid.2
      have hc : c ≠ 0 := by
        rintro rfl
        exact hcancel rfl rfl
      exact (spec_cancelBooking hw c hc data).bind (Rely.refl k w) fun ok =>
        Prog.triple_pure Post.stable fun _ => id
    · exact Prog.Triple.bind (Rely.refl k w) (R := fun _ _ => False) (spec_isLoggedIn_undefined hid)
        fun _ _ hx => hx.elim
  · by_cases hid : 0 ≤ user ∧ user < maxClient
    · obtain ⟨c, rfl⟩ := exists_fin_of_bounds (n := maxClient) hid.1 hid.2
      exact (spec_logout hw c data).bind (Rely.refl k w) fun ok => Prog.triple_pure Post.stable fun _ => id
    · exact Prog.Triple.bind (Rely.refl k w) (R := fun _ _ => False) (spec_isLoggedIn_undefined hid)
        fun _ _ hx => hx.elim
  · refine hready ?_ fun st => ?_
    · rintro rfl
      contradiction
    · unfold handleQuery
      split <;> first | rfl | contradiction

end operations

end SystemProgrammingLab.Pa3.Linear
