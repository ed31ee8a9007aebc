import SystemProgrammingLab.Pa3.Server

/-!
# The text of a confirm query

`confirm_booking` writes the numbers of the matching seats into one string, each followed by a
comma. `bookedOf l` is its state when `l` are the seats written so far: no `snprintf` of the loop
truncates (`snprintf_seat`), the loop appends exactly the matching seats (`foldl_confirmSeat`),
and the seats can be read back from the string (`seatsOfText_bookedOf`).

Source: `pa3/pa3_server.c`, `confirm_booking`
-/

namespace SystemProgrammingLab.Pa3

open SystemProgrammingLab.Found

/-- The string and the counter after the seats `l` were written. -/
def bookedOf (l : List (Fin numSeat)) : Booked :=
  ⟨l.flatMap fun i => decimal i ++ [','], l.length⟩

/-- The number of a seat has at most three digits. -/
theorem length_decimal_seat (i : Fin numSeat) : (decimal i).length ≤ 3 := by
  have hi : (i : Nat) < 256 := i.isLt
  rw [length_decimal_le (by omega)]
  omega

/-- A seat number and its comma fit into the bound of 5, with a NUL. -/
theorem length_seat_lt (i : Fin numSeat) : (decimal i ++ [',']).length < 5 := by
  have hlen := length_decimal_seat i
  rw [List.length_append, List.length_singleton]
  omega

/-- The text of a list behind another one. -/
theorem bookedOf_append (l l' : List (Fin numSeat)) :
    (bookedOf (l ++ l')).text = (bookedOf l).text ++ (bookedOf l').text := by
  simp [bookedOf]

/-- The text of one seat. -/
theorem bookedOf_singleton (i : Fin numSeat) : (bookedOf [i]).text = decimal i ++ [','] :=
  List.append_nil _

/-- The text of a seat and those behind it. -/
theorem bookedOf_cons (i : Fin numSeat) (l : List (Fin numSeat)) :
    (bookedOf (i :: l)).text = decimal i ++ ',' :: (bookedOf l).text := by
  rw [← List.singleton_append, bookedOf_append, bookedOf_singleton, List.append_assoc]
  rfl

/-- A seat takes at most four characters. -/
theorem length_bookedOf_le (l : List (Fin numSeat)) : (bookedOf l).text.length ≤ 4 * l.length := by
  induction l with
  | nil => rfl
  | cons i l ih =>
      have hlen := length_decimal_seat i
      rw [bookedOf_cons, List.length_append, List.length_cons, List.length_cons]
      omega

/-- Without the last comma, the text is the number of the first seat, or goes on with a comma. -/
theorem exists_bookedOf_eq (i : Fin numSeat) (l : List (Fin numSeat)) : ∃ more,
    (bookedOf (i :: l)).text.dropLast = decimal i ++ more ∧ ∀ c ∈ more.head?, c = ',' := by
  refine ⟨(',' :: (bookedOf l).text).dropLast, ?_, ?_⟩
  · rw [bookedOf_cons, List.dropLast_append_of_ne_nil (List.cons_ne_nil _ _)]
  · intro c hc
    rcases htext : (bookedOf l).text with _ | ⟨d, ds⟩
    · rw [htext] at hc
      cases hc
    · rw [htext] at hc
      exact (Option.some.inj hc).symm

/-- So it fits into its `snprintf`. -/
theorem snprintf_seat (i : Fin numSeat) :
    snprintf 5 (decimal i ++ [',']) = decimal i ++ [','] :=
  List.take_of_length_le (Nat.le_of_lt_succ (length_seat_lt i))

/-- An iteration adds the seat if it is the client's. -/
theorem confirmSeat_bookedOf (st : Server) (clientId : Int) (l : List (Fin numSeat))
    (i : Fin numSeat) :
    confirmSeat st clientId (bookedOf l) i =
      bookedOf (l ++ [i].filter fun j => st.seats j = clientId) := by
  unfold confirmSeat
  split_ifs with h
  · rw [snprintf_seat]
    simp [bookedOf, h]
  · simp [bookedOf, h]

/-- The loop appends the seats of the client, in order. -/
theorem foldl_confirmSeat (st : Server) (clientId : Int) (l' : List (Fin numSeat)) :
    ∀ l, l'.foldl (confirmSeat st clientId) (bookedOf l) =
      bookedOf (l ++ l'.filter fun j => st.seats j = clientId) := by
  induction l' with
  | nil =>
      intro l
      simp
  | cons i l' ih =>
      intro l
      rw [List.foldl_cons, confirmSeat_bookedOf, ih, List.append_assoc, ← List.filter_append]
      rfl

/-! ## Reading the seats back -/

/-- One character of a list of numbers: a comma ends a number, a digit extends it. -/
def readSeat (acc : List Nat × Nat) (c : Char) : List Nat × Nat :=
  if c = ',' then (acc.1 ++ [acc.2], 0) else (acc.1, 10 * acc.2 + (c.toNat - '0'.toNat))

/-- The numbers in a text, each ended by a comma. -/
def seatsOfText (text : List Char) : List Nat := (text.foldl readSeat ([], 0)).1

/-- The digits of a seat are read. -/
theorem foldl_readSeat_digits (ds : List Char) (h : ∀ c ∈ ds, c.isDigit) (done : List Nat) :
    ∀ n, ds.foldl readSeat (done, n) = (done, Nat.ofDigitChars 10 ds n) := by
  induction ds with
  | nil =>
      intro n
      rfl
  | cons c ds ih =>
      intro n
      have hc : c ≠ ',' := by
        rintro rfl
        exact absurd (h ',' (by simp)) (by decide)
      rw [List.foldl_cons, readSeat, if_neg hc, ih fun d hd => h d (by simp [hd])]
      rfl

/-- A seat and its comma are read. -/
theorem foldl_readSeat_decimal (done : List Nat) (n : Nat) :
    (decimal n ++ [',']).foldl readSeat (done, 0) = (done ++ [n], 0) := by
  rw [List.foldl_append,
    foldl_readSeat_digits (decimal n) (fun c hc => isDigit_of_mem_decimal hc) done 0]
  have hval : Nat.ofDigitChars 10 (decimal n) 0 = n := digitsValue_decimal n
  rw [hval]
  rfl

/-- The seats written are the seats read. -/
theorem seatsOfText_bookedOf (l : List (Fin numSeat)) :
    seatsOfText (bookedOf l).text = l.map Fin.val := by
  have hfold : ∀ (l : List (Fin numSeat)) (done : List Nat),
      (bookedOf l).text.foldl readSeat (done, 0) = (done ++ l.map Fin.val, 0) := by
    intro l
    induction l with
    | nil =>
        intro done
        simp [bookedOf]
    | cons i l ih =>
        intro done
        have hcons : (bookedOf (i :: l)).text = (decimal i ++ [',']) ++ (bookedOf l).text := rfl
        rw [hcons, List.foldl_append, foldl_readSeat_decimal, ih]
        simp
  unfold seatsOfText
  rw [hfold l []]
  rfl

end SystemProgrammingLab.Pa3
