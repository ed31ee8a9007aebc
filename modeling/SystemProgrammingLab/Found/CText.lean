import SystemProgrammingLab.Found.CArray
import SystemProgrammingLab.Found.CString
import SystemProgrammingLab.Found.Decimal
import SystemProgrammingLab.Found.ReadStream

/-!
# Texts in fixed-size arrays

A C string is an array with a NUL in it, and its text is what stands before the first one (`textOf`). A
text is written to an array with a NUL behind it (`putText`), by `snprintf` after it was cut to the size
that the call is given (`printTo`), which need not be the size of the array. Both are `none` where C would
leave the array. A text that is written is read back (`textOf_putText`).

A text that is printed to the end of another one continues it (`exists_printAt`), and a NUL over the last
character takes it away again (`exists_cut`).
-/

namespace SystemProgrammingLab.Found

variable {n : Nat} {a a' : Fin n → Char} {s : List Char}

/-- The text in the array; `none` when no cell is NUL. -/
def textOf (a : Fin n → Char) : Option (List Char) :=
  if '\x00' ∈ List.ofFn a then some (cString a) else none

/-- Write the text and a NUL to the front of the array; `none` when they do not fit. -/
def putText (a : Fin n → Char) (s : List Char) : Option (Fin n → Char) :=
  if s.length < n then some (store a (s ++ ['\x00'])) else none

/-- Source: `snprintf(a, size, ..)` -/
def printTo (a : Fin n → Char) (size : Nat) (s : List Char) : Option (Fin n → Char) :=
  putText a (snprintf size s)

/-- The text of an array ends at the first NUL. -/
theorem textOf_eq {rest : List Char} (h : List.ofFn a = s ++ '\x00' :: rest) (hs : '\x00' ∉ s) :
    textOf a = some s := by
  unfold textOf cString
  rw [h, if_pos (by simp), List.takeWhile_append_of_pos]
  · simp
  · intro c hc
    exact decide_eq_true fun hnul => hs (hnul ▸ hc)

/-- What was printed is read. -/
theorem textOf_putText (h : putText a s = some a') (hs : '\x00' ∉ s) : textOf a' = some s := by
  unfold putText at h
  split_ifs at h with hlt
  obtain rfl := Option.some.inj h
  have hlen : (s ++ ['\x00']).length ≤ n := by
    rw [List.length_append, List.length_singleton]
    omega
  have hcells := ofFn_store a hlen
  rw [List.append_assoc, List.singleton_append] at hcells
  exact textOf_eq hcells hs

/-- A text that is shorter than the array fits into it. -/
theorem exists_putText (a : Fin n → Char) (h : s.length < n) (hs : '\x00' ∉ s) :
    ∃ a', putText a s = some a' ∧ textOf a' = some s := by
  have hput : putText a s = some (store a (s ++ ['\x00'])) := if_pos h
  exact ⟨_, hput, textOf_putText hput hs⟩

/-- A text that is shorter than the size is not cut. -/
theorem printTo_of_lt {size : Nat} (h : s.length < size) : printTo a size s = putText a s := by
  unfold printTo snprintf
  rw [List.take_of_length_le (by omega)]

/-- Whether a text fits does not depend on what the array held before. -/
theorem printTo_bind_eq_none {β : Type*} {size : Nat} {f : (Fin n → Char) → Option β}
    (h : (printTo a size s).bind f = none) (hf : ∀ b, f b ≠ none) (a' : Fin n → Char)
    (f' : (Fin n → Char) → Option β) : (printTo a' size s).bind f' = none := by
  unfold printTo putText at *
  split_ifs at h ⊢ with hlt
  · exact absurd h (hf _)
  · rfl

/-- A NUL behind what was read. -/
theorem exists_wr_store (buf : Fin n → Char) (h : s.length < n) :
    ∃ buf' rest, wr (store buf s) s.length '\x00' = some buf' ∧ List.ofFn buf' = s ++ '\x00' :: rest := by
  have hwr : wr (store buf s) s.length '\x00' = some _ := wr_val (store buf s) ⟨s.length, h⟩ '\x00'
  have hcells : List.ofFn (store buf s) = s ++ (List.ofFn buf).drop s.length :=
    ofFn_store buf (Nat.le_of_lt h)
  have hdrop : (List.ofFn buf).drop s.length ≠ [] := by simpa using h
  obtain ⟨c, cs, hcons⟩ := List.exists_cons_of_ne_nil hdrop
  refine ⟨_, cs, hwr, ?_⟩
  rw [ofFn_update, hcells, hcons]
  simp

/-- What was read becomes a text by a NUL behind it, if there is a cell for it. -/
theorem textOf_wr (buf : Fin n → Char) (h : s.length < n) (hs : '\x00' ∉ s) :
    ∃ buf', wr (store buf s) s.length '\x00' = some buf' ∧ textOf buf' = some s := by
  obtain ⟨buf', rest, hwr, hcells⟩ := exists_wr_store buf h
  exact ⟨buf', hwr, textOf_eq hcells hs⟩

/-- A write just behind the array is undefined. -/
theorem wr_length {v : Char} (a : Fin n → Char) : wr a n v = none := by
  unfold wr
  rw [dif_neg (by omega)]

/-! ## Writing behind a text -/

/-- Write the text and a NUL to the array from the cell `o` on; `none` when they do not fit. -/
def putTextAt (a : Fin n → Char) (o : Nat) (s : List Char) : Option (Fin n → Char) :=
  if o + s.length < n then some (store a ((List.ofFn a).take o ++ s ++ ['\x00'])) else none

/-- Source: `snprintf(a + o, size, ..)` -/
def printAt (a : Fin n → Char) (o size : Nat) (s : List Char) : Option (Fin n → Char) :=
  putTextAt a o (snprintf size s)

/-- A text in an array is one at the front of the list of its cells. -/
theorem ofFn_of_textOf (h : textOf a = some s) :
    '\x00' ∉ s ∧ ∃ rest, List.ofFn a = s ++ '\x00' :: rest :=
  textAt_eq_some_iff.mp (show textAt (List.ofFn a) 0 = some s from h)

/-- A text is shorter than its array. -/
theorem length_lt_of_textOf (h : textOf a = some s) : s.length < n := by
  obtain ⟨-, rest, hcells⟩ := ofFn_of_textOf h
  have hlen := congrArg List.length hcells
  rw [List.length_ofFn, List.length_append, List.length_cons] at hlen
  omega

/-- A text is continued where it ends. -/
theorem exists_putTextAt {t : List Char} (h : textOf a = some t) (hlt : t.length + s.length < n)
    (hs : '\x00' ∉ s) : ∃ a', putTextAt a t.length s = some a' ∧ textOf a' = some (t ++ s) := by
  obtain ⟨ht, rest, hcells⟩ := ofFn_of_textOf h
  have htake : (List.ofFn a).take t.length = t := by rw [hcells, List.take_left]
  have hput : putTextAt a t.length s = some (store a (t ++ s ++ ['\x00'])) := by
    rw [putTextAt, if_pos hlt, htake]
  have hlen : (t ++ s ++ ['\x00']).length ≤ n := by
    rw [List.length_append, List.length_append, List.length_singleton]
    omega
  have hnul : '\x00' ∉ t ++ s := by
    rw [List.mem_append, not_or]
    exact ⟨ht, hs⟩
  have hstore := ofFn_store a hlen
  rw [List.append_assoc (t ++ s), List.singleton_append] at hstore
  exact ⟨_, hput, textOf_eq hstore hnul⟩

/-- A NUL over the last character of a text takes it away. -/
theorem exists_cut {t : List Char} {c : Char} (h : textOf a = some (t ++ [c])) :
    ∃ a', wr a ((t ++ [c]).length - 1 : Int) '\x00' = some a' ∧ textOf a' = some t := by
  obtain ⟨hnul, rest, hcells⟩ := ofFn_of_textOf h
  have hlt := length_lt_of_textOf h
  rw [List.length_append, List.length_singleton] at hlt
  have hlast : ((t ++ [c]).length - 1 : Int) = (t.length : Nat) := by simp
  have hwr := wr_val a ⟨t.length, by omega⟩ '\x00'
  have hset : List.ofFn (Function.update a ⟨t.length, by omega⟩ '\x00') = t ++ '\x00' :: '\x00' :: rest := by
    rw [ofFn_update, hcells]
    simp
  refine ⟨_, hlast ▸ hwr, textOf_eq hset ?_⟩
  exact fun hmem => hnul (List.mem_append_left _ hmem)

end SystemProgrammingLab.Found
