import SystemProgrammingLab.Pa3.Access
import SystemProgrammingLab.Pa3.Client
import SystemProgrammingLab.Pa3.Framing
import SystemProgrammingLab.Pa3.Listing

/-!
# The two checks of a query

`validate_query` of the client rejects a query by its fields, and so do the operations of the server: a
query that is answered -1 in every state and on every socket is one the client need not send (`Fails`).
The two are not the same. The client checks the seat of a confirm query, which the server does not look
at, and not the seat of a cancel query; and client 0 can never cancel, because a seat of client 0 counts as
free (`validateQuery_agrees_iff`).

For an id outside of the tables the server reads outside of them, and no answer is certain. The second
part of the theorem counts such a query as refused, too, because no state answers it with anything else
than -1 (`Refused`).

Source: `pa3/pa3_client.c`, `pa3/pa3_server.c`
-/

namespace SystemProgrammingLab.Pa3

open SystemProgrammingLab.Found

/-- Every state answers the query with -1, on every socket. -/
def Fails (q : Query) : Prop :=
  ∀ st socket, ∃ st' r, handleQuery st socket q = some (st', r) ∧ r.response = "-1".toList

/-- No state answers the query with anything but -1, on any socket. -/
def Refused (q : Query) : Prop :=
  ∀ st socket st' r, handleQuery st socket q = some (st', r) → r.response = "-1".toList

/-- A query that fails in every state is refused in every state. -/
theorem Fails.refused {q : Query} (h : Fails q) : Refused q := by
  intro st socket st' r hrun
  obtain ⟨st₁, r₁, hrun', hr⟩ := h st socket
  rw [hrun] at hrun'
  cases hrun'
  exact hr

section inRange

variable (c : Fin maxClient) (action data : Int)

/-- An id of the tables is always answered. -/
theorem fails_iff_refused : Fails ⟨(c : Nat), action, data⟩ ↔ Refused ⟨(c : Nat), action, data⟩ := by
  constructor
  · exact Fails.refused
  · intro h st socket
    obtain ⟨st', r, hrun⟩ := exists_handleQuery st c socket action data
    exact ⟨st', r, hrun, h st socket st' r hrun⟩

/-- A state in which client `c` is logged in on socket 4. -/
def session4 : Server := Server.init.setSession c 4

/-- The client is logged in on socket 4. -/
theorem loggedIn_session4 : LoggedIn (session4 c) c 4 := by
  simp [LoggedIn, session4]

/-- `1` is no failure. -/
theorem one_ne_failure : (['1'] : List Char) ≠ "-1".toList := by decide

/-- A failure is answered with `-1`. -/
theorem failure_response : Reply.failure.response = "-1".toList := by decide

/-- A login is refused for a negative password only. -/
theorem refused_login : Refused ⟨(c : Nat), 1, data⟩ ↔ data < 0 := by
  constructor
  · intro h
    by_contra hdata
    have hok : 0 ≤ data ∧ Server.init.session c = 0 ∧
        (Server.init.password c = 0 ∨ Server.init.password c = data) :=
      ⟨Int.not_lt.mp hdata, rfl, .inl rfl⟩
    have hr := h .init 4
    simp only [handleQuery, login_val, if_pos hok] at hr
    exact one_ne_failure (hr _ _ rfl)
  · intro hdata st socket st' r hrun
    have hnot : ¬ (0 ≤ data ∧ st.session c = 0 ∧ (st.password c = 0 ∨ st.password c = data)) :=
      fun hok => absurd hok.1 (Int.not_le.mpr hdata)
    simp only [handleQuery, login_val, if_neg hnot] at hrun
    cases hrun
    exact failure_response

/-- A booking is refused exactly when there is no such seat. -/
theorem refused_book : Refused ⟨(c : Nat), 2, data⟩ ↔ data < 0 ∨ data ≥ numSeat := by
  constructor
  · intro h
    rcases outside_or_fin numSeat data with hout | ⟨i, rfl⟩
    · exact hout
    have hok : LoggedIn (session4 c) c 4 ∧ (session4 c).seats i = 0 := ⟨loggedIn_session4 c, rfl⟩
    have hr := h (session4 c) 4
    simp only [handleQuery, book_val, if_pos hok] at hr
    exact absurd (hr _ _ rfl) (snprintf_seat_ne i)
  · intro hout st socket st' r hrun
    simp only [handleQuery, book_of_no_seat st c socket hout] at hrun
    cases hrun
    exact failure_response

/-- A confirm query has an answer: client `c` may have a seat. -/
theorem not_refused_confirm : ¬ Refused ⟨(c : Nat), 3, data⟩ := by
  intro h
  have hin : isLoggedIn ((session4 c).setSeat 0 (c : Nat)) (c : Nat) 4 = some true := by
    rw [isLoggedIn_val]
    exact congrArg some (decide_eq_true (loggedIn_session4 c))
  obtain ⟨-, b, text, r, -, -, hrun, htext, hlists, -⟩ := confirm_listed _ _ 4 data hin
  obtain ⟨l, hl⟩ := hlists ⟨0, by simp⟩
  have hparsed := hl.parsed
  rw [← htext, h _ _ _ _ hrun] at hparsed
  have hmem : (-1 : Int) ∈ ("-1".toList.splitOn ',').map strtol := by decide
  rw [hparsed, List.mem_map] at hmem
  obtain ⟨i, -, hi⟩ := hmem
  omega

/-- A cancel query is refused for a number that is no seat, and for client 0. -/
theorem refused_cancel : Refused ⟨(c : Nat), 4, data⟩ ↔ (data < 0 ∨ data ≥ numSeat) ∨ c = 0 := by
  constructor
  · intro h
    rcases outside_or_fin numSeat data with hout | ⟨i, rfl⟩
    · exact .inl hout
    apply Or.inr
    by_contra hc
    have hid : ((c : Nat) : Int) ≠ 0 := fun h0 => hc (Fin.ext (by simpa using h0))
    have hok : LoggedIn ((session4 c).setSeat i (c : Nat)) c 4 ∧
        ((session4 c).setSeat i (c : Nat)).seats i ≠ 0 ∧
        ((session4 c).setSeat i (c : Nat)).seats i = (c : Nat) := by
      refine ⟨loggedIn_session4 c, ?_, ?_⟩
      · simpa using hid
      · simp
    have hr := h ((session4 c).setSeat i (c : Nat)) 4
    simp only [handleQuery, cancelBooking_val, if_pos hok] at hr
    exact snprintf_seat_ne i (hr _ _ rfl)
  · rintro (hout | rfl) st socket st' r hrun
    · simp only [handleQuery, cancelBooking_of_no_seat st c socket hout] at hrun
      cases hrun
      exact failure_response
    · rcases outside_or_fin numSeat data with hout | ⟨s, rfl⟩
      · simp only [handleQuery, cancelBooking_of_no_seat st 0 socket hout] at hrun
        cases hrun
        exact failure_response
      have hnot : ¬ (LoggedIn st 0 socket ∧ st.seats s ≠ 0 ∧ st.seats s = ((0 : Fin maxClient) : Nat)) :=
        fun hok => hok.2.1 hok.2.2
      simp only [handleQuery, cancelBooking_val, if_neg hnot] at hrun
      cases hrun
      exact failure_response

/-- A logout of a client of the table is not refused. -/
theorem not_refused_logout : ¬ Refused ⟨(c : Nat), 5, data⟩ := by
  intro h
  have hr := h (session4 c) 4
  simp only [handleQuery, logout_val, if_pos (loggedIn_session4 c)] at hr
  exact one_ne_failure (hr _ _ rfl)

/-- The client accepts an id of the tables. -/
theorem validateQuery_val {action : Int} (h1 : 1 ≤ action) (h5 : action ≤ 5) :
    validateQuery (c : Nat) action data = false ↔
      (action = 1 ∧ (data < 0 ∨ data > 2 ^ 31 - 1)) ∨
        ((action = 2 ∨ action = 3) ∧ (data < 0 ∨ data ≥ numSeat)) := by
  have huser : ¬ (((c : Nat) : Int) < 0 ∨ ((c : Nat) : Int) > 1023) := by
    have hc : (c : Nat) < 1024 := c.isLt
    omega
  have haction := action_cases h1 h5
  unfold validateQuery
  rw [if_neg huser, if_neg (by omega)]
  rcases haction with rfl | rfl | rfl | rfl | rfl <;> simp <;> omega

end inRange

section outside

variable {q : Query} (hout : q.user < 0 ∨ q.user ≥ maxClient)

include hout

/-- The client does not send a query for a client that is not in the table. -/
theorem validateQuery_outside : validateQuery q.user q.action q.data = false := by
  unfold validateQuery
  rw [if_pos]
  rcases hout with h | h
  · exact .inl h
  · exact .inr (Int.lt_of_lt_of_le (by decide) h)

/-- For such an id only a login with a negative password is answered. -/
theorem answered_outside {st st' : Server} {socket : Int} {r : Reply} (h1 : 1 ≤ q.action)
    (h5 : q.action ≤ 5) (hrun : handleQuery st socket q = some (st', r)) :
    (q.action = 1 ∧ q.data < 0) ∧ r = .failure := by
  obtain ⟨user, action, data⟩ := q
  have hnot : ¬ ∃ c : Fin maxClient, user = (c : Nat) := by
    rintro ⟨c, rfl⟩
    exact not_outside c hout
  rcases action_cases (a := action) h1 h5 with rfl | rfl | rfl | rfl | rfl
  · obtain ⟨⟨_, ok⟩, hop, hret⟩ := Option.bind_eq_some_iff.mp hrun
    by_cases hpw : data < 0
    · refine ⟨⟨rfl, hpw⟩, ?_⟩
      rw [login, if_pos hpw] at hop
      cases hop
      cases hret
      rfl
    · rw [login, if_neg hpw] at hop
      exact absurd (exists_fin_of_checked hop) hnot
  all_goals
    obtain ⟨_, hop, -⟩ := Option.bind_eq_some_iff.mp hrun
    exact absurd (exists_fin_of_checked hop) hnot

/-- And it would be refused. -/
theorem refused_outside (h1 : 1 ≤ q.action) (h5 : q.action ≤ 5) : Refused q := by
  intro st socket st' r hrun
  rw [(answered_outside hout h1 h5 hrun).2]
  exact failure_response

/-- It fails only if it is a login with a negative password. -/
theorem fails_outside (h1 : 1 ≤ q.action) (h5 : q.action ≤ 5) :
    Fails q ↔ q.action = 1 ∧ q.data < 0 := by
  constructor
  · intro h
    obtain ⟨st', r, hrun, -⟩ := h .init 4
    exact (answered_outside hout h1 h5 hrun).1
  · rintro ⟨haction, hpw⟩ st socket
    obtain ⟨user, action, data⟩ := q
    simp only at haction hpw
    subst haction
    refine ⟨st, .failure, ?_, failure_response⟩
    simp only [handleQuery, login, if_pos hpw]
    rfl

end outside

/-- What the client would have to check besides: the seat where the server looks at it, and the id where
client 0 always fails. -/
def Checked (q : Query) : Prop :=
  (q.action = 3 ∨ q.action = 4 → 0 ≤ q.data ∧ q.data < numSeat) ∧ (q.action = 4 → q.user ≠ 0)

/-- Client and server agree on an id of the tables if and only if the fields are checked. -/
theorem agrees_val (c : Fin maxClient) {action data : Int} (h1 : 1 ≤ action) (h5 : action ≤ 5)
    (hdata : data < 2 ^ 31) :
    (validateQuery (c : Nat) action data = false ↔ Refused ⟨(c : Nat), action, data⟩) ↔
      Checked ⟨(c : Nat), action, data⟩ := by
  have haction := action_cases h1 h5
  have hzero : ((c : Nat) : Int) ≠ 0 ↔ c ≠ 0 := by
    rw [not_iff_not, ← Fin.val_eq_zero_iff]
    exact Int.natCast_eq_zero
  rw [validateQuery_val c data h1 h5]
  unfold Checked
  rcases haction with rfl | rfl | rfl | rfl | rfl
  · rw [refused_login]
    simp
    omega
  · rw [refused_book]
    simp
  · have hnot := not_refused_confirm c data
    simp [hnot]
  · rw [refused_cancel]
    simp [hzero]
  · have hnot := not_refused_logout c data
    simp [hnot]

/-- **The client rejects the queries that the server always answers with -1 if and only if** the id is one of
the tables, or the query ends in front of them, and the seat of a confirm or cancel query is a seat, and
client 0 does not cancel. The condition on the id is not needed where an undefined answer counts as -1. -/
theorem validateQuery_agrees_iff (q : Query) (hrange : q.InRange) (h1 : 1 ≤ q.action)
    (h5 : q.action ≤ 5) :
    ((validateQuery q.user q.action q.data = false ↔ Fails q) ↔
      ((0 ≤ q.user ∧ q.user < maxClient) ∨ (q.action = 1 ∧ q.data < 0)) ∧ Checked q) ∧
    ((validateQuery q.user q.action q.data = false ↔ Refused q) ↔
      (0 ≤ q.user ∧ q.user < maxClient → Checked q)) := by
  have hdata := (hrange q.data (by simp)).2
  rcases outside_or_fin maxClient q.user with hout | ⟨c, hc⟩
  · have hnot : ¬ (0 ≤ q.user ∧ q.user < maxClient) := by omega
    rw [fails_outside hout h1 h5]
    refine ⟨?_, iff_of_true ?_ fun h => absurd h hnot⟩
    · have hlogin : q.action = 1 → Checked q := fun h => ⟨by omega, by omega⟩
      simp only [validateQuery_outside hout, true_iff, hnot, false_or]
      exact ⟨fun h => ⟨h, hlogin h.1⟩, And.left⟩
    · exact iff_of_true (validateQuery_outside hout) (refused_outside hout h1 h5)
  · obtain ⟨user, action, data⟩ := q
    obtain rfl : user = (c : Nat) := hc
    have hin : (0 : Int) ≤ (c : Nat) ∧ ((c : Nat) : Int) < maxClient :=
      ⟨Int.natCast_nonneg _, Int.ofNat_lt.mpr c.isLt⟩
    have hagrees := agrees_val c h1 h5 hdata
    dsimp only at hagrees ⊢
    rw [fails_iff_refused, hagrees]
    exact ⟨⟨fun h => ⟨.inl hin, h⟩, And.right⟩, fun h _ => h, fun h => h hin⟩

/-- A booking of seat 7. -/
theorem validateQuery_agrees_iff_book :
    ((validateQuery 1 2 7 = false ↔ Fails ⟨1, 2, 7⟩) ↔
      (((0 : Int) ≤ 1 ∧ (1 : Int) < maxClient) ∨ ((2 : Int) = 1 ∧ (7 : Int) < 0)) ∧ Checked ⟨1, 2, 7⟩) ∧
    ((validateQuery 1 2 7 = false ↔ Refused ⟨1, 2, 7⟩) ↔
      ((0 : Int) ≤ 1 ∧ (1 : Int) < maxClient → Checked ⟨1, 2, 7⟩)) :=
  validateQuery_agrees_iff ⟨1, 2, 7⟩ (by decide) (by decide) (by decide)

/-- **Seat 300 is accepted for a cancel query, which always fails, and rejected for a confirm query, which
does not look at it.** -/
theorem not_validateQuery_agrees :
    (validateQuery 1 4 300 = true ∧ Fails ⟨1, 4, 300⟩) ∧
      validateQuery 1 3 300 = false ∧ ¬ Refused ⟨1, 3, 300⟩ := by
  refine ⟨⟨by decide, ?_⟩, by decide, not_refused_confirm 1 300⟩
  exact (fails_iff_refused 1 4 300).mpr ((refused_cancel 1 300).mpr (.inl (.inr (by decide))))

end SystemProgrammingLab.Pa3
