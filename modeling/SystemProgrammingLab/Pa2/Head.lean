import SystemProgrammingLab.Pa2.Execution
import SystemProgrammingLab.Pa2.Tail

/-!
# head and cat

`head` reads a byte, counts it if it ends a line, and writes it, as long as it has counted fewer lines than it
was asked for. `cat` copies blocks. Both read a file, or the standard input when none is named; a file that
cannot be opened makes a message, which is printed when the program ends.

Whatever pieces it gets, `head` writes the first lines of its input, and it reads no byte behind them
(`head_prints`): what follows is left for the next command that reads the same standard input.

Source: `pa2/head.c`, `pa2/cat.c`
-/

namespace SystemProgrammingLab.Pa2

open SystemProgrammingLab.Found
open Tail (newline tailArguments)

/-! ## head -/

/-- The variables: `file` is what is left of the file, `none` for the standard input, and `buf` the byte that was
read and is to be written. -/
structure Head where
  line : Int
  cnt : Int
  file : Option (List UInt8)
  buf : Option UInt8

/-- A byte was read. Source: `head.c`, `main` -/
def Head.got (s : Head) (b : UInt8) : Head :=
  { s with cnt := if b = newline then s.cnt + 1 else s.cnt, buf := some b }

/-- A read returned; behind the end of the input nothing is left. Source: `head.c`, `main` -/
def Head.next (s : Head) : List UInt8 → Head
  | [] => { s with file := some [] }
  | b :: _ => s.got b

/-- What the program does next: the write, or the condition of the loop. Source: `main` -/
def Head.act (s : Head) : Act Head UInt8 :=
  match s.buf, s.file with
  | some b, _ => .write b { s with buf := none }
  | none, none =>
      if s.cnt < s.line then .read 1 Nat.one_pos s.next else .exit
  | none, some [] => .exit
  | none, some (b :: rest) =>
      if s.cnt < s.line then .write b { (s.got b) with file := some rest, buf := none } else .exit

/-- What is still to be printed, when `rest` is what is left of the standard input. -/
def Head.pending (s : Head) (rest : List UInt8) : List UInt8 :=
  s.buf.toList ++ firstLines newline (s.line - s.cnt).toNat (s.file.getD rest)

/-- How many steps are left. -/
def Head.work (s : Head) (rest : List UInt8) : Nat :=
  s.buf.toList.length + 2 * (s.file.getD rest).length + if s.file = none then 1 else 0

section head

variable {s : Head} {rest : List UInt8} {b : UInt8} {t t' : Head × List UInt8} {e : Io UInt8}

/-- What is pending when a byte is taken from the input. -/
theorem pending_got (hlt : s.cnt < s.line) (b : UInt8) (rest : List UInt8) :
    firstLines newline (s.line - s.cnt).toNat (b :: rest) =
      b :: firstLines newline (s.line - (s.got b).cnt).toNat rest := by
  have hpos : (s.line - s.cnt).toNat = (s.line - s.cnt - 1).toNat + 1 := by omega
  rw [hpos, firstLines_cons]
  congr 2
  unfold Head.got
  split_ifs
  · exact congrArg Int.toNat (Int.sub_sub ..)
  · exact hpos.symm

/-- A read is one of the standard input, in front of the last line. -/
theorem act_eq_read {size : Nat} {hsize : 0 < size} {next : List UInt8 → Head}
    (h : s.act = .read size hsize next) :
    s.buf = none ∧ s.file = none ∧ s.cnt < s.line ∧ size = 1 ∧ next = s.next := by
  obtain ⟨line, cnt, file, buf⟩ := s
  unfold Head.act at h
  rcases buf with _ | b
  · rcases file with _ | _ | ⟨b, rest⟩
    · dsimp only at h
      split_ifs at h with hlt
      cases h
      exact ⟨rfl, rfl, hlt, rfl, rfl⟩
    · cases h
    · dsimp only at h
      split_ifs at h
  · cases h

/-- A write is one of the byte that was read, or of the next one of the file. -/
theorem act_eq_write {next : Head} (h : s.act = .write b next) :
    (s.buf = some b ∧ next = { s with buf := none }) ∨
      ∃ rest, s.buf = none ∧ s.file = some (b :: rest) ∧ s.cnt < s.line ∧
        next = { (s.got b) with file := some rest, buf := none } := by
  obtain ⟨line, cnt, file, buf⟩ := s
  unfold Head.act at h
  rcases buf with _ | b'
  · rcases file with _ | _ | ⟨b', rest⟩
    · dsimp only at h
      split_ifs at h
    · cases h
    · dsimp only at h
      split_ifs at h with hlt
      cases h
      exact .inr ⟨rest, rfl, rfl, hlt, rfl⟩
  · cases h
    exact .inl ⟨rfl, rfl⟩

/-- At the end nothing is pending. -/
theorem pending_of_exit (h : s.act = .exit) (rest : List UInt8) : s.pending rest = [] := by
  obtain ⟨line, cnt, file, buf⟩ := s
  have hzero : ¬ cnt < line → (line - cnt).toNat = 0 := by omega
  unfold Head.act at h
  unfold Head.pending
  rcases buf with _ | b
  · rcases file with _ | _ | ⟨b, left⟩
    · dsimp only at h
      split_ifs at h with hlt
      dsimp only
      rw [hzero hlt, firstLines_zero]
      rfl
    · exact firstLines_nil _
    · dsimp only at h
      split_ifs at h with hlt
      dsimp only
      rw [hzero hlt, firstLines_zero]
      rfl
  · cases h

/-- What is written and pending is the same after each step, and there is less to do. -/
theorem head_step (h : OnInput Head.act t e t') :
    written [e] ++ t'.1.pending t'.2 = t.1.pending t.2 ∧ t'.1.work t'.2 + 1 ≤ t.1.work t.2 := by
  cases h with
  | @read s size hsize next bs rest hs hne hlen =>
      obtain ⟨hbuf, hfile, hlt, rfl, rfl⟩ := act_eq_read hs
      obtain ⟨b, rfl⟩ : ∃ b, bs = [b] := by
        rcases bs with _ | ⟨b, _ | ⟨b', bs⟩⟩
        · exact absurd rfl hne
        · exact ⟨b, rfl⟩
        · exact absurd hlen (by simp)
      have hnext : s.next [b] = s.got b := rfl
      have hgot : (s.got b).file = none := hfile
      constructor
      · show [b] ++ firstLines newline _ ((s.got b).file.getD rest) = s.pending ([b] ++ rest)
        rw [Head.pending, hbuf, hfile, hgot]
        exact (pending_got hlt b rest).symm
      · rw [hnext, Head.work, Head.work, hgot, hbuf, hfile]
        show 1 + 2 * rest.length + 1 + 1 ≤ 0 + 2 * (rest.length + 1) + 1
        omega
  | @eof s size hsize next hs =>
      obtain ⟨hbuf, hfile, -, -, rfl⟩ := act_eq_read hs
      constructor
      · show s.buf.toList ++ firstLines newline _ [] = s.buf.toList ++ firstLines newline _ (s.file.getD [])
        rw [hfile]
        rfl
      · rw [Head.work, Head.work, hfile]
        show s.buf.toList.length + 2 * 0 + 0 + 1 ≤ s.buf.toList.length + 2 * 0 + 1
        exact Nat.le_refl _
  | @write s next b rest hs =>
      rcases act_eq_write hs with ⟨hbuf, rfl⟩ | ⟨left, hbuf, hfile, hlt, rfl⟩
      · have hpending : s.pending rest = b :: firstLines newline (s.line - s.cnt).toNat (s.file.getD rest) := by
          rw [Head.pending, hbuf]
          rfl
        have hwork : s.work rest = 1 + 2 * (s.file.getD rest).length + if s.file = none then 1 else 0 := by
          rw [Head.work, hbuf]
          rfl
        refine ⟨hpending.symm, ?_⟩
        rw [hwork]
        show 0 + 2 * (s.file.getD rest).length + (if s.file = none then 1 else 0) + 1 ≤ _
        omega
      · have hpending : s.pending rest = firstLines newline (s.line - s.cnt).toNat (b :: left) := by
          rw [Head.pending, hbuf, hfile]
          rfl
        have hwork : s.work rest = 0 + 2 * (left.length + 1) + 0 := by
          rw [Head.work, hbuf, hfile]
          rfl
        refine ⟨(hpending.trans (pending_got hlt b left)).symm, ?_⟩
        rw [hwork]
        show 0 + 2 * left.length + 0 + 1 ≤ _
        omega

/-- **What the program computes.** -/
theorem computes_head (s : Head) : Computes Head.act s s.pending s.work where
  result := by
    intro xs es s' rest hrun hexit
    have hsame : written es ++ s'.pending rest = s.pending xs := by
      refine hrun.history (fun es t => written es ++ t.1.pending t.2 = s.pending xs) ?_ rfl
      intro es t e t' ih hstep
      rw [written_append, List.append_assoc, (head_step hstep).1, ih]
    rw [pending_of_exit hexit, List.append_nil] at hsame
    exact hsame
  length := by
    intro xs es t hrun
    exact hrun.length_le (fun _ => True) (fun t => t.1.work t.2) (fun t e t' _ hstep => ⟨trivial, (head_step hstep).2⟩)
      trivial

/-- What `head` has read is what it has written and the byte in its buffer, and it holds no file but the empty
rest of one. -/
theorem head_reads {xs : List UInt8} {es : List (Io UInt8)} {line : Int}
    (hrun : Run (OnInput Head.act) (⟨line, 0, none, none⟩, xs) es t) :
    taken es = written es ++ t.1.buf.toList ∧ (t.1.file = none ∨ t.1.file = some [] ∧ t.2 = []) := by
  refine hrun.history (fun es t => taken es = written es ++ t.1.buf.toList ∧
    (t.1.file = none ∨ t.1.file = some [] ∧ t.2 = [])) ?_ ⟨rfl, .inl rfl⟩
  rintro es t e t' ⟨hsame, hfile⟩ hstep
  cases hstep with
  | @read s size hsize next bs rest hs hne hlen =>
      obtain ⟨hbuf, hnone, -, rfl, rfl⟩ := act_eq_read hs
      obtain ⟨b, rfl⟩ : ∃ b, bs = [b] := by
        rcases bs with _ | ⟨b, _ | ⟨b', bs⟩⟩
        · exact absurd rfl hne
        · exact ⟨b, rfl⟩
        · exact absurd hlen (by simp)
      refine ⟨?_, .inl hnone⟩
      rw [taken_append, hsame, hbuf, written_append]
      show written es ++ [] ++ [b] = written es ++ [] ++ [b]
      rfl
  | @eof s size hsize next hs =>
      obtain ⟨hbuf, hnone, -, rfl, rfl⟩ := act_eq_read hs
      refine ⟨?_, .inr ⟨rfl, rfl⟩⟩
      rw [taken_append, hsame, written_append]
      show written es ++ s.buf.toList ++ [] = written es ++ [] ++ s.buf.toList
      simp
  | @write s next b rest hs =>
      rcases act_eq_write hs with ⟨hbuf, rfl⟩ | ⟨left, hbuf, hsome, -⟩
      · refine ⟨?_, hfile⟩
        rw [taken_append, hsame, hbuf, written_append]
        show written es ++ [b] ++ [] = written es ++ [b] ++ []
        rfl
      · rcases hfile with hnone | ⟨hnil, -⟩
        · rw [hnone] at hsome
          cases hsome
        · rw [hnil] at hsome
          cases hsome

end head

/-! ## The programs -/

/-- `sizeof(buf)` of `cat`, an array of 4096 pointers. Source: `cat.c`, `main` -/
def catSize : Nat := 32768

/-- `cat` reads at least a byte. -/
theorem catSize_pos : 0 < catSize := Nat.succ_pos _

/-- What a program does: it copies its standard input behind what it has to print, or it prints only; or it is
`head`. Source: `head.c`, `cat.c` -/
inductive Tool
  | copy (s : List UInt8 × Bool)
  | head (s : Head)

namespace Tool

/-- What it does next. -/
def act : Tool → Act Tool UInt8
  | .copy s => (copyAct catSize catSize_pos s).map .copy
  | .head s => s.act.map .head

/-- What it writes. -/
def value : Tool → List UInt8 → List UInt8
  | .copy s, xs => s.1 ++ if s.2 then xs else []
  | .head s, xs => s.pending xs

/-- How many steps it takes. -/
def bound : Tool → List UInt8 → Nat
  | .copy s, xs => s.1.length + if s.2 then 2 * xs.length + 1 else 0
  | .head s, xs => s.work xs

/-- A message that is printed when the program ends. -/
def message (cmd : String) (e : Int) : Tool := .copy (bytesOf (printErr cmd.toList e), false)

end Tool

/-- `head` and `cat` compute their output. -/
theorem computes_tool (p : Tool) : Computes Tool.act p p.value p.bound := by
  cases p with
  | copy s => exact (computes_copy s.1 s.2).map fun _ => rfl
  | head s => exact (computes_head s).map fun _ => rfl

section start

variable {φ : Type} [DecidableEq φ] (w : Paths φ) (fs : FileSystem φ UInt8)

/-- `cat` with the arguments behind its name. Source: `main` -/
def catStart : List Text → Tool
  | [] => .copy ([], true)
  | file :: _ =>
      match openRead w fs file with
      | .error e => Tool.message "cat" e
      | .ok d => .copy (d.bytes fs, false)

/-- `head` with the arguments behind its name; they are taken as in `tail`. Source: `main` -/
def headStart (args : List Text) : Tool :=
  match tailArguments args with
  | none => Tool.message "head" 0
  | some (line, none) => .head ⟨line, 0, none, none⟩
  | some (line, some file) =>
      match openRead w fs file with
      | .error e => Tool.message "head" e
      | .ok d => .head ⟨line, 0, some (d.bytes fs), none⟩

end start

/-- The system with the two programs in the directory of the shell. -/
def tools {φ : Type} [DecidableEq φ] (paths : Paths φ) (capacity : Nat) (directory : Text)
    (buffered : List UInt8) : Host φ Tool where
  act := Tool.act
  execv path args fs :=
    if path = directory ++ "/cat".toList then some (catStart paths fs args.tail)
    else if path = directory ++ "/head".toList then some (headStart paths fs args.tail)
    else none
  capacity := capacity
  paths := paths
  directory := directory
  buffered := buffered

/-- **`head` prints the first lines of its standard input** and reads nothing behind them, in whatever pieces it
reads. -/
theorem head_prints {φ : Type} [DecidableEq φ] (w : Paths φ) (fs : FileSystem φ UInt8) {args : List Text}
    {line : Int} (hargs : tailArguments args = some (line, none)) {xs rest : List UInt8} {es : List (Io UInt8)}
    {p : Tool} (hrun : Run (OnInput Tool.act) (headStart w fs args, xs) es (p, rest)) :
    es.length ≤ 2 * xs.length + 1 ∧ written es <+: firstLines newline line.toNat xs ∧
      (∃ es' t, Run (OnInput Tool.act) (p, rest) es' t ∧ t.1.act = .exit) ∧
      (p.act = .exit → written es = firstLines newline line.toNat xs ∧ written es ++ rest = xs) := by
  have hmore := (computes_tool _).exists_end hrun
  have hstart : headStart w fs args = .head ⟨line, 0, none, none⟩ := by
    unfold headStart
    rw [hargs]
  have hvalue : Head.pending ⟨line, 0, none, none⟩ xs = firstLines newline line.toNat xs := by
    show [] ++ firstLines newline (line - 0).toNat xs = _
    rw [Int.sub_zero, List.nil_append]
  rw [hstart] at hrun
  obtain ⟨s, hs, hrun'⟩ := run_map (g := Tool.head) (fun _ => rfl) hrun
  have hcomputes := computes_head ⟨line, 0, none, none⟩
  have hlength := hcomputes.length xs es _ hrun'
  have hprefix := hcomputes.written_prefix hrun'
  rw [hvalue] at hprefix
  refine ⟨?_, hprefix, hmore, fun hexit => ?_⟩
  · exact hlength.trans (Nat.le_of_eq (by simp [Head.work]))
  · have hend : s.act = .exit := by
      cases hs
      rcases hact : s.act with ⟨size, hsize, next⟩ | ⟨b, next⟩ | _
      · simp only [Tool.act, hact, Act.map, reduceCtorEq] at hexit
      · simp only [Tool.act, hact, Act.map, reduceCtorEq] at hexit
      · rfl
    have hbuf : s.buf.toList = [] := (List.append_eq_nil_iff.mp (pending_of_exit hend rest)).1
    obtain ⟨hsame, -⟩ := head_reads hrun'
    rw [hbuf, List.append_nil] at hsame
    have hall : taken es ++ rest = xs := taken_append_rest hrun'
    rw [hsame] at hall
    exact ⟨(hcomputes.result xs es s rest hrun' hend).trans hvalue, hall⟩

/-- The only file is `a`, with two lines. -/
def twoLines : FileSystem Text UInt8 := fun path => if path = ['a'] then some [120, 10, 121, 10] else none

/-- One line is asked for, of an input of a line and a rest. -/
theorem head_prints_one : ∃ es p, Run (OnInput Tool.act)
    (headStart ownNames twoLines ["-n".toList, ['1']], [97, 10, 98]) es (p, [98]) ∧ written es = [97, 10] := by
  have hargs : tailArguments ["-n".toList, ['1']] = some (1, none) := by decide +kernel
  have hstart : headStart ownNames twoLines ["-n".toList, ['1']] = .head ⟨1, 0, none, none⟩ := by
    unfold headStart
    rw [hargs]
  have hrun : Run (OnInput Tool.act) (headStart ownNames twoLines ["-n".toList, ['1']], [97, 10, 98])
      [.read [97], .write 97, .read [10], .write 10] (.head ⟨1, 1, none, none⟩, [98]) := by
    rw [hstart]
    have hread : ∀ (c : Int) (b : UInt8) (rest : List UInt8), c < 1 → OnInput Tool.act
        (.head ⟨1, c, none, none⟩, b :: rest) (.read [b]) (.head (Head.got ⟨1, c, none, none⟩ b), rest) := by
      intro c b rest hc
      have hact : Tool.act (.head ⟨1, c, none, none⟩) =
          .read 1 Nat.one_pos fun bs => .head (Head.next ⟨1, c, none, none⟩ bs) := by
        show (Head.act _).map Tool.head = _
        rw [Head.act, if_pos hc]
        rfl
      have hone : OnInput Tool.act (.head ⟨1, c, none, none⟩, [b] ++ rest) (.read [b]) _ :=
        .read hact (List.cons_ne_nil _ _) (Nat.le_refl 1)
      exact hone
    have hfirst := hread 0 97 [10, 98] (by decide)
    have hsecond := hread 0 10 [98] (by decide)
    exact (((Run.nil.snoc hfirst).snoc (.write rfl)).snoc hsecond).snoc (.write rfl)
  obtain ⟨-, -, -, hend⟩ := head_prints ownNames twoLines hargs hrun
  exact ⟨_, _, hrun, (hend rfl).1⟩

end SystemProgrammingLab.Pa2
