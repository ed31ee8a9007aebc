import SystemProgrammingLab.Found.Decimal
import SystemProgrammingLab.Found.Files
import SystemProgrammingLab.Found.Loop

/-!
# cp

The program opens the source and the destination, and copies blocks of 4096 bytes. It reports an open that
fails and goes on all the same: the destination is created or emptied before a byte is read, and what is read
from a source that is not open is nothing. So a copy is all or nothing exactly when a source that cannot be
opened meets a destination that cannot be opened either or is empty already, and when a file is not copied to
itself unless it is empty (`allOrNothing_iff`).

`write` writes all the bytes that it is given.

Source: `pa2/cp.c`, `pa2/err.h`
-/

namespace SystemProgrammingLab.Pa2

open SystemProgrammingLab.Found

/-! ## Errors -/

/-- `EPERM` -/
def eperm : Int := 1

/-- `ENOENT` -/
def enoent : Int := 2

/-- `EACCES` -/
def eacces : Int := 13

/-- `ENOTDIR` -/
def enotdir : Int := 20

/-- `EISDIR` -/
def eisdir : Int := 21

/-- What is printed; `errno` is still the number that the call got. Source: `print_err` -/
def printErr (cmd : List Char) (errNo : Int) : List Char :=
  cmd ++
    if errNo = eacces then ": Permission denied\n".toList
    else if errNo = eisdir then ": Is a directory\n".toList
    else if errNo = enoent then ": No such file or directory\n".toList
    else if errNo = enotdir then ": Not a directory\n".toList
    else if errNo = eperm then ": Operation not permitted\n".toList
    else ": Error Occured: ".toList ++ showInt errNo ++ ['\n']

/-! ## Opening files -/

/-- The names of the files, and why the file of a name cannot be opened, if there is a reason besides its
absence. Two names may be names of one file. -/
structure Paths (φ : Type*) where
  fileOf : List Char → φ
  readError : List Char → Option Int
  writeError : List Char → Option Int

section opening

variable {φ : Type*} [DecidableEq φ] (w : Paths φ) (fs : FileSystem φ UInt8) (path : List Char)

/-- `open(path, O_RDONLY)`: the number of the error, or the open file. -/
def openRead : Except Int (Opened φ) :=
  match w.readError path with
  | some e => .error e
  | none =>
      match fs (w.fileOf path) with
      | none => .error enoent
      | some _ => .ok ⟨w.fileOf path, 0⟩

/-- `open(path, O_WRONLY | O_CREAT | O_TRUNC, 0644)`, with the files afterwards. -/
def openTrunc : Except Int (Opened φ) × FileSystem φ UInt8 :=
  match w.writeError path with
  | some e => (.error e, fs)
  | none => (.ok ⟨w.fileOf path, 0⟩, Function.update fs (w.fileOf path) (some []))

end opening

/-! ## The program -/

/-- The size of `buf`. Source: `cp.c`, `main` -/
def blockSize : Nat := 4096

/-- The files and the descriptors; a descriptor is `none` when the open failed. Source: `cp.c`, `main` -/
structure Copy (φ : Type*) where
  files : FileSystem φ UInt8
  fd1 : Option (Opened φ)
  fd2 : Option (Opened φ)

section main

variable {φ : Type*} [DecidableEq φ]

/-- One round of the loop: a block is read and written. Source: `cp.c`, `main` -/
def copyBlock (c : Copy φ) : Option (Copy φ) :=
  match c.fd1 with
  | none => none
  | some d₁ =>
      let (bs, d₁) := d₁.read c.files blockSize
      if bs = [] then none
      else
        match c.fd2 with
        | none => some { c with fd1 := d₁ }
        | some d₂ =>
            let (files, d₂) := d₂.write c.files bs
            some ⟨files, d₁, d₂⟩

/-- The message for an open, if it failed. Source: `cp.c`, `main` -/
def openMessage (d : Except Int (Opened φ)) : List Char :=
  match d with
  | .error e => printErr "cp".toList e
  | .ok _ => []

/-- Run the program with the arguments behind its name, in fewer than `fuel` rounds; the files afterwards
and what was printed. Source: `main` -/
def cpMain (fuel : Nat) (w : Paths φ) (fs : FileSystem φ UInt8) :
    List (List Char) → Option (FileSystem φ UInt8 × List Char)
  | [] => some (fs, "cp: missing file operand\n".toList)
  | [file1] =>
      some (fs, "cp: missing destination file operand after '".toList ++ file1 ++ "'\n".toList)
  | file1 :: file2 :: _ => do
      let fd1 := openRead w fs file1
      let (fd2, fs) := openTrunc w fs file2
      let c ← runLoop copyBlock fuel ⟨fs, fd1.toOption, fd2.toOption⟩
      return (c.files, openMessage fd1 ++ openMessage fd2)

end main

/-! ## The loop -/

section loop

variable {φ : Type*} [DecidableEq φ] {fs : FileSystem φ UInt8} {a b : φ} {content : List UInt8}

/-- A source that is at its end, as one that was emptied, is not copied. -/
theorem copyBlock_eq_none {fd2 : Option (Opened φ)} (h : (Opened.bytes ⟨a, 0⟩ fs) = []) :
    copyBlock ⟨fs, some ⟨a, 0⟩, fd2⟩ = none := by
  simp [copyBlock, Opened.read, h]

/-- The state of the loop when `k` bytes of the source `a` are in the destination `b`. -/
def copiedUpTo (fs : FileSystem φ UInt8) (a b : φ) (content : List UInt8) (k : Nat) : Copy φ :=
  ⟨Function.update fs b (some (content.take k)), some ⟨a, k⟩, some ⟨b, k⟩⟩

/-- The offset of the source. -/
def Copy.offset (c : Copy φ) : Nat := (c.fd1.map Opened.offset).getD 0

/-- A round copies the next block. -/
theorem copyBlock_copiedUpTo (hne : a ≠ b) (h : fs a = some content) {k : Nat} (hk : k ≤ content.length) :
    copyBlock (copiedUpTo fs a b content k) =
      if k < content.length then
        some (copiedUpTo fs a b content (min (k + blockSize) content.length)) else none := by
  have hread : Opened.bytes ⟨a, k⟩ (Function.update fs b (some (content.take k))) = content :=
    Opened.bytes_eq ((Function.update_of_ne hne _ _).trans h)
  have hwritten : Opened.bytes ⟨b, k⟩ (Function.update fs b (some (content.take k))) = content.take k :=
    Opened.bytes_eq (Function.update_self ..)
  simp only [copyBlock, copiedUpTo, Opened.read, hread]
  split_ifs with hnil hlt hlt
  · rw [List.take_eq_nil_iff, List.drop_eq_nil_iff] at hnil
    exact absurd hnil (by unfold blockSize; omega)
  · rfl
  · have hend : k + ((content.drop k).take blockSize).length = min (k + blockSize) content.length := by
      rw [List.length_take, List.length_drop]
      omega
    have htake : content.take k ++ (content.drop k).take blockSize =
        content.take (min (k + blockSize) content.length) := by
      rw [← List.take_add, List.take_eq_take_min]
    have hlen : k = (Opened.bytes ⟨b, k⟩ (Function.update fs b (some (content.take k)))).length := by
      rw [hwritten, List.length_take, Nat.min_eq_left hk]
    have hwrite := Opened.write_of_eq_length (d := ⟨b, k⟩) hlen ((content.drop k).take blockSize)
    rw [hwritten, htake, Function.update_idem] at hwrite
    rw [hwrite, hend]
    simp only [Opened.write, hend]
  · rw [List.drop_eq_nil_of_le (Nat.le_of_not_lt hlt), List.take_nil] at hnil
    exact absurd rfl hnil

/-- A file is copied to another one. -/
theorem copied_ends (hne : a ≠ b) (h : fs a = some content) :
    ∃ c, LoopEnds copyBlock (copiedUpTo fs a b content 0) c ∧ c.files = Function.update fs b (some content) := by
  have hround : ∀ c c', (∃ k ≤ content.length, c = copiedUpTo fs a b content k) → copyBlock c = some c' →
      (∃ k ≤ content.length, c' = copiedUpTo fs a b content k) ∧
        content.length - c'.offset < content.length - c.offset := by
    rintro _ c' ⟨k, hk, rfl⟩ hnext
    rw [copyBlock_copiedUpTo hne h hk] at hnext
    split_ifs at hnext with hlt
    obtain rfl := Option.some.inj hnext
    refine ⟨⟨_, Nat.min_le_right _ _, rfl⟩, ?_⟩
    show content.length - min (k + blockSize) content.length < content.length - k
    unfold blockSize
    omega
  obtain ⟨_, hends, ⟨k, hk, rfl⟩, hstop⟩ := exists_loopEnds _ _ hround ⟨0, Nat.zero_le _, rfl⟩
  refine ⟨_, hends, ?_⟩
  rw [copyBlock_copiedUpTo hne h hk] at hstop
  split_ifs at hstop with hlt
  rw [copiedUpTo, List.take_of_length_le (Nat.le_of_not_lt hlt)]

/-- Without a destination the source is read to its end. -/
theorem discarded_ends (fs : FileSystem φ UInt8) (a : φ) :
    ∃ c, LoopEnds copyBlock ⟨fs, some ⟨a, 0⟩, none⟩ c ∧ c.files = fs := by
  have hround : ∀ c c' : Copy φ, (∃ k, c = ⟨fs, some ⟨a, k⟩, none⟩) → copyBlock c = some c' →
      (∃ k, c' = ⟨fs, some ⟨a, k⟩, none⟩) ∧
        (Opened.bytes ⟨a, 0⟩ fs).length - c'.offset < (Opened.bytes ⟨a, 0⟩ fs).length - c.offset := by
    rintro _ c' ⟨k, rfl⟩ hnext
    have hbytes : Opened.bytes ⟨a, k⟩ fs = Opened.bytes ⟨a, 0⟩ fs := rfl
    simp only [copyBlock, Opened.read, hbytes] at hnext
    split_ifs at hnext with hnil
    obtain rfl := Option.some.inj hnext
    refine ⟨⟨_, rfl⟩, ?_⟩
    have hpos := List.length_pos_iff.mpr hnil
    rw [List.length_take, List.length_drop] at hpos
    show (Opened.bytes ⟨a, 0⟩ fs).length - (k + _) < (Opened.bytes ⟨a, 0⟩ fs).length - k
    rw [List.length_take, List.length_drop]
    omega
  obtain ⟨_, hends, ⟨k, rfl⟩, -⟩ := exists_loopEnds _ _ hround ⟨0, rfl⟩
  exact ⟨_, hends, rfl⟩

end loop

/-! ## All or nothing -/

section copying

variable {φ : Type*} [DecidableEq φ] (w : Paths φ) (fs : FileSystem φ UInt8) (file1 file2 : List Char)

/-- The source can be opened for reading. -/
def CanRead : Prop := w.readError file1 = none ∧ fs (w.fileOf file1) ≠ none

/-- The destination can be opened for writing. -/
def CanWrite : Prop := w.writeError file2 = none

/-- The program ends with these files. -/
def CpEnds (args : List (List Char)) (fs' : FileSystem φ UInt8) : Prop :=
  ∃ fuel printed, cpMain fuel w fs args = some (fs', printed)

/-- Without a source nothing changes; otherwise a destination gets the content of the source, and no other
file changes. -/
def AllOrNothing : Prop :=
  ∃ fs', CpEnds w fs [file1, file2] fs' ∧ (¬ CanRead w fs file1 → fs' = fs) ∧
    (CanRead w fs file1 → CanWrite w file2 →
      fs' (w.fileOf file2) = fs (w.fileOf file1) ∧ ∀ f, f ≠ w.fileOf file2 → fs' f = fs f)

variable {w fs file1 file2}

/-- `cp` ends with these files exactly when its loop does, behind the two opens. -/
theorem cpEnds_iff {fs' : FileSystem φ UInt8} : CpEnds w fs [file1, file2] fs' ↔
    ∃ c, LoopEnds copyBlock ⟨(openTrunc w fs file2).2, (openRead w fs file1).toOption,
      (openTrunc w fs file2).1.toOption⟩ c ∧ c.files = fs' := by
  constructor
  · rintro ⟨fuel, printed, hrun⟩
    obtain ⟨c, hc, heq⟩ := Option.bind_eq_some_iff.mp hrun
    obtain ⟨rfl, -⟩ := Prod.mk.inj (Option.some.inj heq)
    exact ⟨c, ⟨fuel, hc⟩, rfl⟩
  · rintro ⟨c, ⟨fuel, hc⟩, rfl⟩
    exact ⟨fuel, _, Option.bind_eq_some_iff.mpr ⟨c, hc, rfl⟩⟩

/-- The program ends in one way only. -/
theorem CpEnds.unique {fs₁ fs₂ : FileSystem φ UInt8} (h₁ : CpEnds w fs [file1, file2] fs₁)
    (h₂ : CpEnds w fs [file1, file2] fs₂) : fs₁ = fs₂ := by
  obtain ⟨c₁, hends₁, rfl⟩ := cpEnds_iff.mp h₁
  obtain ⟨c₂, hends₂, rfl⟩ := cpEnds_iff.mp h₂
  rw [hends₁.unique hends₂]

omit [DecidableEq φ] in
/-- A file that can be read is opened. -/
theorem openRead_ok (h : CanRead w fs file1) : openRead w fs file1 = .ok ⟨w.fileOf file1, 0⟩ := by
  obtain ⟨content, hcontent⟩ := Option.ne_none_iff_exists'.mp h.2
  simp only [openRead, h.1, hcontent]

omit [DecidableEq φ] in
/-- One that cannot be read is not. -/
theorem openRead_error (h : ¬ CanRead w fs file1) : (openRead w fs file1).toOption = none := by
  unfold openRead
  split
  · rfl
  · rename_i hnone
    split
    · rfl
    · rename_i hsome
      exact absurd ⟨hnone, hsome ▸ Option.some_ne_none _⟩ h

/-- A file that can be written is opened, and emptied. -/
theorem openTrunc_ok (fs : FileSystem φ UInt8) (h : CanWrite w file2) : openTrunc w fs file2 =
    (.ok ⟨w.fileOf file2, 0⟩, Function.update fs (w.fileOf file2) (some [])) := by
  unfold openTrunc
  rw [h]

/-- One that cannot be written is not, and nothing is changed. -/
theorem openTrunc_error (fs : FileSystem φ UInt8) (h : ¬ CanWrite w file2) :
    (openTrunc w fs file2).1.toOption = none ∧ (openTrunc w fs file2).2 = fs := by
  unfold openTrunc
  split
  · exact ⟨rfl, rfl⟩
  · contradiction

/-- Without a source the destination is emptied, if it can be opened. -/
theorem cpEnds_of_not_canRead (hread : ¬ CanRead w fs file1) :
    CpEnds w fs [file1, file2] (openTrunc w fs file2).2 := by
  refine cpEnds_iff.mpr ⟨_, .stop ?_, rfl⟩
  rw [openRead_error hread]
  rfl

/-- Without a target `cp` changes nothing. -/
theorem cpEnds_of_not_canWrite (hread : CanRead w fs file1) (hwrite : ¬ CanWrite w file2) :
    CpEnds w fs [file1, file2] fs := by
  obtain ⟨hfd, hfiles⟩ := openTrunc_error fs hwrite
  rw [cpEnds_iff, openRead_ok hread, hfd, hfiles]
  exact discarded_ends fs _

/-- A file that is copied to itself is emptied. -/
theorem cpEnds_same (hread : CanRead w fs file1) (hwrite : CanWrite w file2)
    (hsame : w.fileOf file1 = w.fileOf file2) :
    CpEnds w fs [file1, file2] (Function.update fs (w.fileOf file2) (some [])) := by
  rw [cpEnds_iff, openRead_ok hread, openTrunc_ok fs hwrite, hsame]
  exact ⟨_, .stop (copyBlock_eq_none (Opened.bytes_eq (Function.update_self ..))), rfl⟩

/-- With two files `cp` copies the content. -/
theorem cpEnds_copied (hread : CanRead w fs file1) (hwrite : CanWrite w file2)
    (hne : w.fileOf file1 ≠ w.fileOf file2) :
    CpEnds w fs [file1, file2] (Function.update fs (w.fileOf file2) (fs (w.fileOf file1))) := by
  obtain ⟨content, hcontent⟩ := Option.ne_none_iff_exists'.mp hread.2
  rw [cpEnds_iff, openRead_ok hread, openTrunc_ok fs hwrite, hcontent]
  exact copied_ends hne hcontent

end copying

/-- **A copy is all or nothing if and only if** a destination that can be opened is empty when the source
cannot be, and a file that is copied to itself is empty. -/
theorem allOrNothing_iff {φ : Type*} [DecidableEq φ] (w : Paths φ) (fs : FileSystem φ UInt8)
    (file1 file2 : List Char) :
    AllOrNothing w fs file1 file2 ↔
      (¬ CanRead w fs file1 → CanWrite w file2 → fs (w.fileOf file2) = some []) ∧
        (CanRead w fs file1 → CanWrite w file2 → w.fileOf file1 = w.fileOf file2 →
          fs (w.fileOf file1) = some []) := by
  by_cases hread : CanRead w fs file1
  · by_cases hwrite : CanWrite w file2
    · by_cases hsame : w.fileOf file1 = w.fileOf file2
      · have hends := cpEnds_same hread hwrite hsame
        constructor
        · rintro ⟨fs', hends', -, hcopied⟩
          obtain rfl := hends.unique hends'
          obtain ⟨hcontent, -⟩ := hcopied hread hwrite
          rw [Function.update_self] at hcontent
          exact ⟨fun h => absurd hread h, fun _ _ _ => hcontent.symm⟩
        · rintro ⟨-, hempty⟩
          refine ⟨_, hends, fun h => absurd hread h, fun _ _ => ⟨?_, fun f hf => Function.update_of_ne hf _ _⟩⟩
          rw [Function.update_self, hempty hread hwrite hsame]
      · refine iff_of_true ⟨_, cpEnds_copied hread hwrite hsame, fun h => absurd hread h, fun _ _ => ?_⟩ ?_
        · exact ⟨Function.update_self .., fun f hf => Function.update_of_ne hf _ _⟩
        · exact ⟨fun h => absurd hread h, fun _ _ h => absurd h hsame⟩
    · refine iff_of_true ⟨_, cpEnds_of_not_canWrite hread hwrite, fun h => absurd hread h, ?_⟩ ?_
      · exact fun _ h => absurd h hwrite
      · exact ⟨fun _ h => absurd h hwrite, fun _ h => absurd h hwrite⟩
  · have hends : CpEnds w fs [file1, file2] _ := cpEnds_of_not_canRead hread
    constructor
    · rintro ⟨fs', hends', hnothing, -⟩
      obtain rfl := hends.unique hends'
      refine ⟨fun _ hwrite => ?_, fun h => absurd h hread⟩
      have hfile := congrFun (hnothing hread) (w.fileOf file2)
      rw [openTrunc_ok fs hwrite] at hfile
      exact hfile.symm.trans (Function.update_self ..)
    · rintro ⟨hempty, -⟩
      refine ⟨_, hends, fun _ => ?_, fun h => absurd h hread⟩
      by_cases hwrite : CanWrite w file2
      · rw [openTrunc_ok fs hwrite, ← hempty hread hwrite]
        exact Function.update_eq_self _ _
      · exact (openTrunc_error fs hwrite).2

/-- Every name is a name of its own, and every file can be opened. -/
def ownNames : Paths (List Char) := ⟨id, fun _ => none, fun _ => none⟩

/-- The only file is `b`, with one byte. -/
def onlyB : FileSystem (List Char) UInt8 := fun path => if path = ['b'] then some [1] else none

/-- **The source does not exist and the destination loses its content**, and so does a file that is copied to
itself. -/
theorem not_allOrNothing :
    (¬ AllOrNothing ownNames onlyB ['a'] ['b']) ∧ ¬ AllOrNothing ownNames onlyB ['b'] ['b'] := by
  constructor
  · rintro ⟨fs', hends', hnothing, -⟩
    have hread : ¬ CanRead ownNames onlyB ['a'] := fun h => h.2 (by decide)
    obtain rfl := (cpEnds_of_not_canRead hread).unique hends'
    have hfile := congrFun (hnothing hread) ['b']
    exact absurd hfile (by decide)
  · rintro ⟨fs', hends', -, hcopied⟩
    have hread : CanRead ownNames onlyB ['b'] := ⟨rfl, by decide⟩
    obtain rfl := (cpEnds_same hread rfl rfl).unique hends'
    have hfile := (hcopied hread rfl).1
    exact absurd hfile (by decide)

end SystemProgrammingLab.Pa2
