import Mathlib.Data.List.GetD
import Mathlib.Data.List.OfFn
import Mathlib.Tactic.Common

/-!
# Reading records from a stream

`read(fd, buf, n)` returns between 1 and `n` bytes, 0 at the end of the stream, or -1. It writes
the bytes it returns to the front of the buffer and leaves the rest of the buffer alone
(`store`). `readLoop` is the loop that takes every return but 0 for a whole record: it looks at
the buffer after each read and reads on until a record satisfies `stop`.

`delivered` is the stream behind a list of read results and `records` are its complete records.
When every read returns a whole record (`Whole`), the loop sees exactly the records of the stream
(`readLoop_of_whole`). `origins` follows each byte the loop sees back to its place in the stream:
the buffers hold the places of the records one after the other if and only if every read returns a
whole record (`inOrder_origins_iff`).
-/

namespace SystemProgrammingLab.Found

variable {β γ : Type*} {n : Nat}

/-! ## Read results -/

/-- What one `read` of at most `n` bytes returns. -/
inductive ReadResult (n : Nat) (β : Type*)
  | data (bs : List β) (hlen : 0 < bs.length ∧ bs.length ≤ n)
  | eof
  | error

/-- The bytes a read writes to the buffer. -/
def ReadResult.bytes : ReadResult n β → List β
  | .data bs _ => bs
  | .eof | .error => []

/-- The number that the read returns. -/
def ReadResult.nbytes : ReadResult n β → Int
  | .data bs _ => bs.length
  | .eof => 0
  | .error => -1

/-- The buffer after a read: the new bytes in front, the old ones behind them. -/
def store (buf : Fin n → β) (bs : List β) : Fin n → β := fun i => bs.getD i (buf i)

/-- The buffer after a read that fits: the new bytes, and what the buffer held behind them. -/
theorem ofFn_store (buf : Fin n → β) {bs : List β} (h : bs.length ≤ n) :
    List.ofFn (store buf bs) = bs ++ (List.ofFn buf).drop bs.length := by
  apply List.ext_getElem (by simp [h])
  intro i h₁ h₂
  rw [List.getElem_ofFn]
  show bs.getD i _ = _
  by_cases hi : i < bs.length
  · rw [List.getD_eq_getElem _ _ hi, List.getElem_append_left hi]
  · rw [List.getD_eq_default _ _ (Nat.le_of_not_lt hi),
      List.getElem_append_right (Nat.le_of_not_lt hi), List.getElem_drop, List.getElem_ofFn]
    congr 2
    omega

/-- A whole record replaces the buffer. -/
theorem ofFn_store_of_length_eq (buf : Fin n → β) {bs : List β} (h : bs.length = n) :
    List.ofFn (store buf bs) = bs := by
  have hdrop : (List.ofFn buf).drop bs.length = [] := List.drop_eq_nil_of_le (by simp [h])
  rw [ofFn_store buf (Nat.le_of_eq h), hdrop, List.append_nil]

/-- A cell behind the new bytes keeps what it held. -/
theorem store_of_length_le (buf : Fin n → β) {bs : List β} {i : Fin n} (h : bs.length ≤ i) :
    store buf bs i = buf i := List.getD_eq_default _ _ h

/-- A buffer of equal cells after a read. -/
theorem ofFn_store_const (x : β) {bs : List β} (h : bs.length ≤ n) :
    List.ofFn (store (fun _ : Fin n => x) bs) = bs ++ List.replicate (n - bs.length) x := by
  rw [ofFn_store _ h, List.ofFn_const, List.drop_replicate]

/-! ## The stream and its records -/

/-- The bytes that the reads deliver up to the end of the stream. -/
def delivered : List (ReadResult n β) → List β
  | [] => []
  | .eof :: _ => []
  | .error :: rs => delivered rs
  | .data bs _ :: rs => bs ++ delivered rs

/-- The successive complete records of `n` bytes. -/
def records (n : Nat) (s : List β) : List (List β) :=
  (List.range (s.length / n)).map fun j => (s.drop (n * j)).take n

/-- An empty stream has no records. -/
theorem records_nil (n : Nat) : records n ([] : List β) = [] := by
  simp [records]

/-- A record in front of a stream. -/
theorem records_append (hn : 0 < n) {bs : List β} (h : bs.length = n) (s : List β) :
    records n (bs ++ s) = bs :: records n s := by
  have hdiv : (bs ++ s).length / n = s.length / n + 1 := by
    rw [List.length_append, h, Nat.add_div_left _ hn]
  unfold records
  rw [hdiv, List.range_succ_eq_map, List.map_cons, List.map_map]
  congr 1
  · rw [Nat.mul_zero, List.drop_zero, ← h, List.take_left]
  · apply List.map_congr_left
    intro j _
    have hdrop : (bs ++ s).drop (n * (j + 1)) = s.drop (n * j) := by
      rw [Nat.mul_succ, Nat.add_comm, ← List.drop_drop, List.drop_left' h]
    show ((bs ++ s).drop (n * (j + 1))).take n = (s.drop (n * j)).take n
    rw [hdrop]

/-- The part of a list up to the first element with `stop`, that element included. -/
def upTo (stop : β → Bool) : List β → List β
  | [] => []
  | x :: xs => x :: if stop x then [] else upTo stop xs

/-- What is taken from a list that was mapped. -/
theorem upTo_map (f : β → γ) (stop : γ → Bool) (xs : List β) :
    upTo stop (xs.map f) = (upTo (stop ∘ f) xs).map f := by
  induction xs with
  | nil => rfl
  | cons x xs ih =>
      rw [List.map_cons, upTo, upTo, ih]
      by_cases h : stop (f x) <;> simp [h]

/-! ## The loop -/

/-- The buffers seen by the loop `while (read(fd, buf, n) != 0) { .. if (stop) break; }`. The list
ends where the reads are not answered yet. -/
def readLoop (stop : List β → Bool) (buf : Fin n → β) : List (ReadResult n β) → List (List β)
  | [] => []
  | .eof :: _ => []
  | .error :: rs => List.ofFn buf :: if stop (List.ofFn buf) then [] else readLoop stop buf rs
  | .data bs _ :: rs =>
      List.ofFn (store buf bs) ::
        if stop (List.ofFn (store buf bs)) then [] else readLoop stop (store buf bs) rs

/-- Every read up to the first record with `stop`, or up to the end of the stream, returns a whole
record. -/
def Whole (stop : List β → Bool) : List (ReadResult n β) → Prop
  | [] => True
  | .eof :: _ => True
  | .error :: _ => False
  | .data bs _ :: rs => bs.length = n ∧ (stop bs = true ∨ Whole stop rs)

/-- **When the reads are whole, the loop sees exactly the records of the stream.** -/
theorem readLoop_of_whole (hn : 0 < n) (stop : List β → Bool) (rs : List (ReadResult n β)) :
    ∀ buf : Fin n → β, Whole stop rs →
      readLoop stop buf rs = upTo stop (records n (delivered rs)) := by
  induction rs with
  | nil =>
      intro buf _
      rw [delivered, records_nil]
      rfl
  | cons r rs ih =>
      intro buf hwhole
      cases r with
      | eof =>
          rw [delivered, records_nil]
          rfl
      | error => exact hwhole.elim
      | data bs hlen =>
          obtain ⟨hbs, hrest⟩ := hwhole
          have hbuf : List.ofFn (store buf bs) = bs := ofFn_store_of_length_eq buf hbs
          rw [delivered, records_append hn hbs, readLoop, upTo, hbuf]
          by_cases hstop : stop bs = true
          · simp [hstop]
          · simp [hstop, ih _ (hrest.resolve_left hstop)]

/-! ## Where the bytes come from -/

/-- The read results with each byte numbered by its place in the stream, from `k` on. -/
def number (k : Nat) : List (ReadResult n β) → List (ReadResult n (β × Option Nat))
  | [] => []
  | .eof :: rs => .eof :: number k rs
  | .error :: rs => .error :: number k rs
  | .data bs hlen :: rs =>
      .data ((bs.zipIdx k).map fun p => (p.1, some p.2)) (by simpa using hlen) ::
        number (k + bs.length) rs

/-- For each buffer the loop sees, where its bytes come from: a place in the stream, or `none`
for a byte that the buffer held from the start. -/
def origins (stop : List β → Bool) (buf : Fin n → β) (rs : List (ReadResult n β)) :
    List (List (Option Nat)) :=
  (readLoop (fun cells => stop (cells.map Prod.fst)) (fun i => (buf i, none)) (number 0 rs)).map
    fun cells => cells.map Prod.snd

/-- `n` successive places from `k` on. -/
def placesFrom (n k : Nat) : List (Option Nat) := (List.range' k n).map some

/-- Each buffer holds the next `n` places, from `k` on. -/
def InOrder (n : Nat) : Nat → List (List (Option Nat)) → Prop
  | _, [] => True
  | k, p :: ps => p = placesFrom n k ∧ InOrder n (k + n) ps

/-- A buffer with a byte from before place `k` does not hold the places from `k` on. -/
theorem map_snd_ne_placesFrom {cells : Fin n → β × Option Nat} {k : Nat} {i : Fin n}
    (hold : ∀ p ∈ (cells i).2, p < k) : (List.ofFn cells).map Prod.snd ≠ placesFrom n k := by
  intro h
  have hget := congrArg (fun l => l[(i : Nat)]?) h
  have hplace : (cells i).2 = some (k + i) := by
    simpa [placesFrom, List.getElem?_range', i.isLt] using hget
  have hlt := hold (k + i) hplace
  omega

/-- Numbered bytes hold their places. -/
theorem map_snd_numbered (k : Nat) (bs : List β) :
    ((bs.zipIdx k).map fun p => (p.1, some p.2)).map Prod.snd = placesFrom bs.length k := by
  unfold placesFrom
  rw [← List.zipIdx_map_snd k bs, List.map_map, List.map_map]
  rfl

/-- The places in a buffer that holds the record at `k` lie before the next record. -/
theorem places_lt {cells : Fin n → β × Option Nat} {k : Nat}
    (h : (List.ofFn cells).map Prod.snd = placesFrom n k) : ∀ i, ∀ p ∈ (cells i).2, p < k + n := by
  intro i p hp
  have hmem : cells i ∈ List.ofFn cells := List.mem_ofFn.mpr ⟨i, rfl⟩
  have hplace : some p ∈ placesFrom n k := by
    rw [← h, ← hp]
    exact List.mem_map_of_mem hmem
  simp only [placesFrom, List.mem_map, List.mem_range'_1, Option.some.injEq] at hplace
  obtain ⟨_, hrange, rfl⟩ := hplace
  omega

/-- The places are in order exactly when every read is whole. -/
theorem inOrder_readLoop_iff (stop : List β → Bool) (rs : List (ReadResult n β)) :
    ∀ (k : Nat) (cells : Fin n → β × Option Nat), 0 < n → (∀ i, ∀ p ∈ (cells i).2, p < k) →
      (InOrder n k ((readLoop (fun cells => stop (cells.map Prod.fst)) cells (number k rs)).map
          fun cells => cells.map Prod.snd) ↔
        Whole stop rs) := by
  induction rs with
  | nil =>
      intro k cells _ _
      exact Iff.rfl
  | cons r rs ih =>
      intro k cells hn hold
      cases r with
      | eof => exact Iff.rfl
      | error =>
          rw [number, readLoop, List.map_cons]
          refine iff_of_false ?_ id
          rintro ⟨hplaces, -⟩
          exact map_snd_ne_placesFrom (hold ⟨0, hn⟩) hplaces
      | data bs hlen =>
          rw [number, readLoop, List.map_cons]
          set numbered := (bs.zipIdx k).map fun p => (p.1, some p.2) with hnum
          have hlength : numbered.length = bs.length := by simp [hnum]
          by_cases hbs : bs.length = n
          · -- a whole record: the buffer holds its places
            have hbuf : List.ofFn (store cells numbered) = numbered :=
              ofFn_store_of_length_eq cells (hlength.trans hbs)
            have hfst : numbered.map Prod.fst = bs := by
              rw [hnum, List.map_map]
              exact List.zipIdx_map_fst k bs
            have hsnd : numbered.map Prod.snd = placesFrom n k := by
              rw [hnum, map_snd_numbered, hbs]
            have hold' : ∀ i, ∀ p ∈ (store cells numbered i).2, p < k + n :=
              places_lt (by rw [hbuf, hsnd])
            have hk : k + bs.length = k + n := by rw [hbs]
            rw [hbuf, hfst, hsnd, hk, InOrder, Whole]
            refine and_congr ⟨fun _ => hbs, fun _ => rfl⟩ ?_
            by_cases hstop : stop bs = true
            · simp [hstop, InOrder]
            · simpa [hstop] using ih (k + n) (store cells numbered) hn hold'
          · -- a short read: the last byte of the buffer is an old one
            refine iff_of_false ?_ fun hwhole => hbs hwhole.1
            rintro ⟨hplaces, -⟩
            have hlt : bs.length < n := Nat.lt_of_le_of_ne hlen.2 hbs
            have hlast : store cells numbered ⟨bs.length, hlt⟩ = cells ⟨bs.length, hlt⟩ :=
              store_of_length_le cells (Nat.le_of_eq hlength)
            refine map_snd_ne_placesFrom (i := ⟨bs.length, hlt⟩) ?_ hplaces
            rw [hlast]
            exact hold _

/-- **The buffers hold the records of the stream, in order and each once, if and only if every
read returns a whole record.** -/
theorem inOrder_origins_iff (hn : 0 < n) (stop : List β → Bool) (buf : Fin n → β)
    (rs : List (ReadResult n β)) : InOrder n 0 (origins stop buf rs) ↔ Whole stop rs := by
  apply inOrder_readLoop_iff stop rs 0 _ hn
  intro i p hp
  cases hp

end SystemProgrammingLab.Found
