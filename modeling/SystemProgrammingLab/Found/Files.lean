import Mathlib.Data.List.TakeWhile
import Mathlib.Logic.Function.Basic
import Mathlib.Tactic.Common

/-!
# Files

A file system maps files to their contents, `none` for a file that does not exist. An open file (`Opened`)
is a file with an offset: `read` takes bytes from there, `write` replaces the bytes there, and both move the
offset behind them. A gap in front of what is written is filled with zeros. `seek` moves it to a place that is
given from the start, the offset or the end, and fails in front of the start. Two open files may be the same
file.
-/

namespace SystemProgrammingLab.Found

variable {φ β : Type*}

/-- The contents of the files. -/
abbrev FileSystem (φ β : Type*) := φ → Option (List β)

/-- An open file. -/
structure Opened (φ : Type*) where
  file : φ
  offset : Nat

/-- Where a seek starts from. Source: `SEEK_SET`, `SEEK_CUR`, `SEEK_END` -/
inductive Whence
  | set
  | cur
  | fromEnd

namespace Opened

variable (d : Opened φ) (fs : FileSystem φ β)

/-- The bytes of the file. -/
def bytes : List β := (fs d.file).getD []

/-- Read up to `n` bytes. Source: `read` -/
def read (n : Nat) : List β × Opened φ :=
  let bs := ((d.bytes fs).drop d.offset).take n
  (bs, { d with offset := d.offset + bs.length })

/-- Source: `write` -/
def write [DecidableEq φ] [Inhabited β] (bs : List β) : FileSystem φ β × Opened φ :=
  let gap := List.replicate (d.offset - (d.bytes fs).length) default
  (Function.update fs d.file
    (some ((d.bytes fs).take d.offset ++ gap ++ bs ++ (d.bytes fs).drop (d.offset + bs.length))),
   { d with offset := d.offset + bs.length })

/-- The place that a seek starts from. -/
def base : Whence → Int
  | .set => 0
  | .cur => d.offset
  | .fromEnd => (d.bytes fs).length

/-- Move the offset; -1 in front of the start, and the offset stays. Source: `lseek` -/
def seek (n : Int) (whence : Whence) : Int × Opened φ :=
  if d.base fs whence + n < 0 then (-1, d)
  else (d.base fs whence + n, { d with offset := (d.base fs whence + n).toNat })

variable {d fs}

/-- The bytes of a file that is there. -/
theorem bytes_eq {bs : List β} (h : fs d.file = some bs) : d.bytes fs = bs := by
  rw [bytes, h, Option.getD_some]

/-- What is written at the end is appended. -/
theorem write_of_eq_length [DecidableEq φ] [Inhabited β] (h : d.offset = (d.bytes fs).length) (bs : List β) :
    (d.write fs bs).1 = Function.update fs d.file (some (d.bytes fs ++ bs)) := by
  unfold write
  rw [h, Nat.sub_self, List.take_length, List.drop_eq_nil_of_le (Nat.le_add_right _ _)]
  simp

/-- A seek in front of the file fails. -/
theorem seek_of_lt {n : Int} {whence : Whence} (h : d.base fs whence + n < 0) :
    d.seek fs n whence = (-1, d) := if_pos h

/-- A seek to an offset. -/
theorem seek_of_eq {n : Int} {whence : Whence} {k : Nat} (h : d.base fs whence + n = k) :
    d.seek fs n whence = ((k : Int), { d with offset := k }) := by
  unfold seek
  rw [h, if_neg (by omega), Int.toNat_natCast]

end Opened

end SystemProgrammingLab.Found
