import SystemProgrammingLab.Pa3.System

/-!
# Seat exclusivity in the replies

Between two successful book replies for one seat there should be a successful cancel reply for
it, given to the client of the first (`SeatExclusive`). The table of seats encodes "free" and the
owner in one `int`, and client id 0, which `login` and the client's `validate_query` admit, is the
code of "free": a booking of client 0 leaves the seat free and it is sold again
(`not_seatExclusive`). Runs without such a booking are exclusive (`seatExclusive_of_guarded`):
the owner of a seat stays in its cell until its own cancel.
-/

namespace SystemProgrammingLab.Pa3

open SystemProgrammingLab.Found

/-- Between any two successful book replies for the same seat there is a successful cancel reply
for it, given to the client of the first of the two. -/
def SeatExclusive (es : List Event) : Prop :=
  ∀ pre mid post e₁ e₂ c₁ c₂ seat, es = pre ++ e₁ :: (mid ++ e₂ :: post) →
    BookOk c₁ seat e₁ → BookOk c₂ seat e₂ → ∃ e ∈ mid, CancelOk c₁ seat e

/-- The step is a reply to a book query of client 0, logged in on the asking socket, for a seat
that is free: the booking that `book` accepts and that leaves the seat free. -/
def BooksForZero (s : Sys) : Event → Prop
  | .reply k q _ => q.action = 2 ∧ q.user = 0 ∧
      (∃ c ∈ s.conn k, isLoggedIn s.server 0 c.socket = some true) ∧
      rd s.server.seats q.data = some 0
  | _ => False

instance (s : Sys) : (e : Event) → Decidable (BooksForZero s e)
  | .reply .. => inferInstanceAs (Decidable (_ ∧ _ ∧ _ ∧ _))
  | .accept .. | .confirmStart .. | .confirmSeat .. | .eof .. => inferInstanceAs (Decidable False)

/-- Outside of these bookings the owner of a sold seat is not 0. -/
theorem Step.owner_ne_zero {s s' : Sys} {e : Event} {c seat : Int} (h : Step s e s')
    (hguard : ¬ BooksForZero s e) (he : BookOk c seat e) : c ≠ 0 := by
  rintro rfl
  obtain ⟨k, r, rfl, hr⟩ := he
  obtain ⟨socket, hk, heff⟩ := h.effect_of_succeeds ⟨r, rfl, hr⟩ (by simp)
  obtain ⟨u, i, hu, rfl, hin, hfree, -⟩ := heff.book_inv
  refine hguard ⟨rfl, rfl, ⟨_, hk, ?_⟩, ?_⟩
  · rw [hu, isLoggedIn_val, decide_eq_true hin]
  · rw [rd_val, hfree]

/-- The only step that takes a seat from an owner other than 0 is the owner's own cancel. -/
theorem Step.cancelOk_of_leaves {s s' : Sys} {e : Event} {c : Int} {i : Fin numSeat}
    (h : Step s e s') (hc : c ≠ 0) (howner : s.server.seats i = c)
    (hleaves : s'.server.seats i ≠ c) : CancelOk c (i : Nat) e := by
  have hchange := h.change
  generalize s'.server = st at hchange hleaves
  cases hchange with
  | same | login | logout => exact absurd howner hleaves
  | book k socket u j he hk hin hfree =>
      by_cases hij : i = j
      · subst hij
        exact absurd (howner.symm.trans hfree) hc
      · rw [Server.setSeat_seats, Function.update_of_ne hij] at hleaves
        exact absurd howner hleaves
  | cancel k socket u j he hk hin hmine =>
      by_cases hij : i = j
      · subst hij
        rw [← howner.symm.trans hmine] at he
        exact he
      · rw [Server.setSeat_seats, Function.update_of_ne hij] at hleaves
        exact absurd howner hleaves

/-- **In a run without an accepted booking of client 0 no seat is sold twice.** A booking and a cancellation are
one step here, as their statements are under the lock of the seat. -/
theorem seatExclusive_of_guarded {es : List Event} {s : Sys}
    (h : Run (Guarded Step fun s e => ¬ BooksForZero s e) Sys.init es s) : SeatExclusive es := by
  rintro pre mid post e₁ e₂ c₁ c₂ seat rfl he₁ he₂
  obtain ⟨s₁, s₂, -, ⟨hstep₁, hguard⟩, hrun⟩ := h.split
  obtain ⟨s₃, s₄, hmid, ⟨hstep₂, -⟩, -⟩ := hrun.split
  -- after the first reply the seat belongs to `c₁`, before the second one it is free
  obtain ⟨-, u, i, -, rfl, rfl, -, -, -, hst⟩ := hstep₁.bookOk he₁
  obtain ⟨-, v, j, -, -, hj, -, -, hfree, -⟩ := hstep₂.bookOk he₂
  obtain rfl : i = j := Fin.ext (by exact_mod_cast hj)
  have hc : ((u : Nat) : Int) ≠ 0 := hstep₁.owner_ne_zero hguard he₁
  have hsold : s₂.server.seats i = (u : Nat) := by
    rw [hst, Server.setSeat_seats, Function.update_self]
  have hnot : s₃.server.seats i ≠ (u : Nat) := by
    rw [hfree]
    exact hc.symm
  obtain ⟨a, e, b, t₁, t₂, rfl, -, ⟨hstep, -⟩, ht₁, ht₂⟩ :=
    hmid.exists_leaves (fun t => t.server.seats i = ((u : Nat) : Int)) hsold hnot
  exact ⟨e, by simp, hstep.cancelOk_of_leaves hc ht₁ ht₂⟩

/-- Clients 1 and 2 on two connections: seat 5 is booked by client 1, cancelled by it, and booked
by client 2. -/
def resale : List Event :=
  [.accept 0 4, .accept 1 5, .reply 0 ⟨1, 1, 7⟩ ⟨['1'], true⟩, .reply 1 ⟨2, 1, 8⟩ ⟨['1'], true⟩,
    .reply 0 ⟨1, 2, 5⟩ ⟨['5'], true⟩, .reply 0 ⟨1, 4, 5⟩ ⟨['5'], true⟩,
    .reply 1 ⟨2, 2, 5⟩ ⟨['5'], true⟩]

/-- A seat is sold, given back and sold to another client. -/
theorem resale_seatExclusive :
    (∃ s, Run (Guarded Step fun s e => ¬ BooksForZero s e) Sys.init resale s) ∧
      SeatExclusive resale := by
  obtain ⟨s, h⟩ : ∃ s, Run (Guarded Step fun s e => ¬ BooksForZero s e) Sys.init resale s :=
    exists_guarded_run [.accept 4, .accept 5, .query 0 ⟨1, 1, 7⟩, .query 1 ⟨2, 1, 8⟩,
      .query 0 ⟨1, 2, 5⟩, .query 0 ⟨1, 4, 5⟩, .query 1 ⟨2, 2, 5⟩] (by decide)
  exact ⟨⟨s, h⟩, seatExclusive_of_guarded h⟩

/-- Client 0 on connection 0 books seat 5, and client 1 on connection 1 books it again. -/
def doubleSale : List Event :=
  [.accept 0 4, .accept 1 5, .reply 0 ⟨0, 1, 7⟩ ⟨['1'], true⟩, .reply 1 ⟨1, 1, 8⟩ ⟨['1'], true⟩,
    .reply 0 ⟨0, 2, 5⟩ ⟨['5'], true⟩, .reply 1 ⟨1, 2, 5⟩ ⟨['5'], true⟩]

/-- **Seat 5 is sold twice**, with no cancel in between. -/
theorem not_seatExclusive :
    (∃ s, Run Step Sys.init doubleSale s) ∧ ¬ SeatExclusive doubleSale := by
  constructor
  · exact exists_run [.accept 4, .accept 5, .query 0 ⟨0, 1, 7⟩, .query 1 ⟨1, 1, 8⟩,
      .query 0 ⟨0, 2, 5⟩, .query 1 ⟨1, 2, 5⟩] (by decide)
  · intro h
    obtain ⟨e, he, -⟩ := h (doubleSale.take 4) [] [] _ _ 0 1 5 rfl ⟨0, _, rfl, rfl⟩
      ⟨1, _, rfl, rfl⟩
    cases he

end SystemProgrammingLab.Pa3
