import SystemProgrammingLab.Found.Descriptors
import SystemProgrammingLab.Found.Simulation
import SystemProgrammingLab.Found.Streams
import SystemProgrammingLab.Week9.Shell

/-!
# A pipe between two commands

For a line with `|` the shell makes a pipe and forks twice. Each child closes the end that it does not need,
puts the other one in the place of its standard output or input, and executes its program; the shell closes
both ends and waits for one child. All three go on at the same time, in any order, from the first `fork` on.

`Sys.Step` is a statement of one of them, or what a program does: `read` and `write` go where the table of
the process says. A pipe that is full makes its writer wait, one that is empty makes its reader wait, as long
as somebody has the other end; when nobody can write any more the reader sees the end, and when nobody can
read any more the writer is killed.

However the steps are ordered the line ends, both children have exited then, the shell has its descriptors
back and is at the prompt, and the output is what the second program computes of what the first one computes
of the standard input (`pipe_line`). The wiring brings the children to where `Found.Streams` has two programs
with a buffer between them (`Represents.step`, `Represents.exists_step`).

`pipe` and `fork` do not fail.

Source: `week9/main.c`
-/

namespace SystemProgrammingLab.Week9

open SystemProgrammingLab.Found

/-! ## Processes -/

/-- What a descriptor denotes: something that the shell had open, number 0 and 1 being its standard input and
output, or an end of the pipe. -/
inductive Desc
  | other (k : Nat)
  | readEnd
  | writeEnd
  deriving DecidableEq

/-- A statement about descriptors. Source: `main` -/
inductive Stmt
  | close (fd : Int)
  | dup2 (fd : Int) (k : Nat)

/-- The table afterwards. -/
def Stmt.run (t : Table Desc) : Stmt → Table Desc
  | .close fd => t.close fd
  | .dup2 fd k => t.dup2 fd k

/-- The command in front of `|` and the one behind it. -/
inductive Side
  | left
  | right
  deriving DecidableEq

/-- What a child does in front of `execv`. Source: `main`, the children -/
def Side.code (fd : Int × Int) : Side → List Stmt
  | .left => [.close fd.1, .dup2 fd.2 1]
  | .right => [.close fd.2, .dup2 fd.1 0]

/-- The end of the pipe that a child keeps. -/
def Side.keeps : Side → Desc
  | .left => .writeEnd
  | .right => .readEnd

/-- What is not the left side is the right one. -/
theorem forall_ne_left {P : Side → Prop} (h : P .right) (i : Side) (hi : i ≠ .left) : P i := by
  cases i with
  | left => exact absurd rfl hi
  | right => exact h

/-- What is not the right side is the left one. -/
theorem forall_ne_right {P : Side → Prop} (h : P .left) (i : Side) (hi : i ≠ .right) : P i := by
  cases i with
  | left => exact h
  | right => exact absurd rfl hi

/-- A child with the statements in front of its `execv`, or with its program. One that has exited has no
descriptors. -/
inductive Child (σ : Type)
  | none
  | code (stmts : List Stmt) (table : Table Desc)
  | running (p : σ) (table : Table Desc)
  | gone

variable {σ : Type}

/-- The descriptors of a child. -/
def Child.table? : Child σ → Option (Table Desc)
  | .code _ t | .running _ t => some t
  | .none | .gone => Option.none

/-- Where the shell is: at `pipe`, at a `fork`, at the statements in front of `wait`, or at the prompt again
after it has waited for a child. Source: `main` -/
inductive Stage
  | pipe
  | fork (i : Side)
  | code (stmts : List Stmt)
  | prompt (waited : Side)

/-- The shell, the children, and the contents of the standard input, of the pipe and of the output. -/
structure Sys (σ : Type) where
  shell : Table Desc
  fd : Int × Int
  stage : Stage
  child : Side → Child σ
  input : List Char
  buffer : List Char
  output : List Char

/-- A child changes. -/
def Sys.setChild (s : Sys σ) (i : Side) (c : Child σ) : Sys σ :=
  { s with child := Function.update s.child i c }

/-- No process has the end of the pipe open. -/
def Sys.NoHolder (s : Sys σ) (d : Desc) : Prop :=
  s.shell.All (· ≠ d) ∧ ∀ i t, (s.child i).table? = some t → t.All (· ≠ d)

/-- The system: what a program does, what `execv` leads to for a path and arguments, how many bytes a pipe
holds, and the descriptors of the shell. When `execv` fails, what it leads to is the child that goes on with
`exit(1)`. -/
structure Host (σ : Type) where
  act : σ → Act σ Char
  execv : List Char → List (List Char) → σ
  capacity : Nat
  table : Table Desc
  stdin : table.at? 0 = some (.other 0)
  stdout : table.at? 1 = some (.other 1)
  noRead : table.All (· ≠ .readEnd)
  noWrite : table.All (· ≠ .writeEnd)

/-- The two programs of a line. -/
structure Job (σ : Type) extends Host σ where
  program : Side → σ

/-- What happens. -/
inductive Event
  | pipe
  | fork (i : Side)
  | shell
  | wait (i : Side)
  | stmt (i : Side)
  | exec (i : Side)
  | io (i : Side) (io : Io Char)
  | exit (i : Side)
  | killed (i : Side)

/-- Where the shell goes on after `fork`. -/
def Side.next (fd : Int × Int) : Side → Stage
  | .left => .fork .right
  | .right => .code [.close fd.1, .close fd.2]

namespace Job

variable (x : Job σ)

/-- At `pipe`. -/
def init (input output : List Char) : Sys σ :=
  ⟨x.table, (-1, -1), .pipe, fun _ => .none, input, [], output⟩

/-- One step of the shell or of a child. Source: `main` -/
inductive Step : Sys σ → Event → Sys σ → Prop
  | pipe {s : Sys σ} (hstage : s.stage = .pipe) :
      Step s .pipe { s with
        shell := (s.shell.pipe .readEnd .writeEnd).2
        fd := (s.shell.pipe .readEnd .writeEnd).1
        stage := .fork .left }
  | fork {s : Sys σ} {i : Side} (hstage : s.stage = .fork i) :
      Step s (.fork i) { s.setChild i (.code (i.code s.fd) s.shell) with stage := i.next s.fd }
  | shell {s : Sys σ} {st : Stmt} {stmts : List Stmt} (hstage : s.stage = .code (st :: stmts)) :
      Step s .shell { s with shell := st.run s.shell, stage := .code stmts }
  | wait {s : Sys σ} {i : Side} (hstage : s.stage = .code []) (hgone : s.child i = .gone) :
      Step s (.wait i) { s with stage := .prompt i }
  | stmt {s : Sys σ} {i : Side} {st : Stmt} {stmts : List Stmt} {t : Table Desc}
      (hi : s.child i = .code (st :: stmts) t) :
      Step s (.stmt i) (s.setChild i (.code stmts (st.run t)))
  | exec {s : Sys σ} {i : Side} {t : Table Desc} (hi : s.child i = .code [] t) :
      Step s (.exec i) (s.setChild i (.running (x.program i) t))
  | readInput {s : Sys σ} {i : Side} {p p' : σ} {t : Table Desc} {io : Io Char} {rest : List Char}
      (hi : s.child i = .running p t) (ht : t.at? 0 = some (.other 0))
      (hio : OnInput x.act (p, s.input) io (p', rest)) (hread : io.written? = none) :
      Step s (.io i io) { s.setChild i (.running p' t) with input := rest }
  | readPipe {s : Sys σ} {i : Side} {p : σ} {t : Table Desc} {size : Nat} {hsize : 0 < size}
      {next : List Char → σ} {bs rest : List Char} (hi : s.child i = .running p t)
      (ht : t.at? 0 = some .readEnd) (hact : x.act p = .read size hsize next) (hne : bs ≠ [])
      (hlen : bs.length ≤ size) (hbuffer : s.buffer = bs ++ rest) :
      Step s (.io i (.read bs)) { s.setChild i (.running (next bs) t) with buffer := rest }
  | eofPipe {s : Sys σ} {i : Side} {p : σ} {t : Table Desc} {size : Nat} {hsize : 0 < size}
      {next : List Char → σ} (hi : s.child i = .running p t) (ht : t.at? 0 = some .readEnd)
      (hact : x.act p = .read size hsize next) (hempty : s.buffer = []) (hnone : s.NoHolder .writeEnd) :
      Step s (.io i .eof) (s.setChild i (.running (next []) t))
  | writeOutput {s : Sys σ} {i : Side} {p next : σ} {t : Table Desc} {b : Char}
      (hi : s.child i = .running p t) (ht : t.at? 1 = some (.other 1)) (hact : x.act p = .write b next) :
      Step s (.io i (.write b)) { s.setChild i (.running next t) with output := s.output ++ [b] }
  | writePipe {s : Sys σ} {i : Side} {p next : σ} {t : Table Desc} {b : Char}
      (hi : s.child i = .running p t) (ht : t.at? 1 = some .writeEnd) (hact : x.act p = .write b next)
      (hroom : s.buffer.length < x.capacity) (hsome : ¬ s.NoHolder .readEnd) :
      Step s (.io i (.write b)) { s.setChild i (.running next t) with buffer := s.buffer ++ [b] }
  | killed {s : Sys σ} {i : Side} {p next : σ} {t : Table Desc} {b : Char}
      (hi : s.child i = .running p t) (ht : t.at? 1 = some .writeEnd) (hact : x.act p = .write b next)
      (hnone : s.NoHolder .readEnd) : Step s (.killed i) (s.setChild i .gone)
  | exit {s : Sys σ} {i : Side} {p : σ} {t : Table Desc} (hi : s.child i = .running p t)
      (hact : x.act p = .exit) : Step s (.exit i) (s.setChild i .gone)

/-! ## The descriptors -/

/-- The numbers of the pipe and the table after `pipe`. -/
def piped : (Int × Int) × Table Desc := x.table.pipe .readEnd .writeEnd

/-- The table and the variables of the shell, by where it is. -/
inductive Shell : Stage → Table Desc → Int × Int → Prop
  | pipe (fd : Int × Int) : Shell .pipe x.table fd
  | fork (i : Side) : Shell (.fork i) x.piped.2 x.piped.1
  | first : Shell (.code [.close x.piped.1.1, .close x.piped.1.2]) x.piped.2 x.piped.1
  | second : Shell (.code [.close x.piped.1.2]) (x.piped.2.close x.piped.1.1) x.piped.1
  | closed : Shell (.code []) x.table x.piped.1
  | prompt (i : Side) : Shell (.prompt i) x.table x.piped.1

/-- The descriptors of a program: the left one writes to the pipe, the right one reads from it, and neither
has the other end. -/
def Wired (t : Table Desc) : Side → Prop
  | .left => t.at? 0 = some (.other 0) ∧ t.at? 1 = some .writeEnd ∧ t.All (· ≠ .readEnd)
  | .right => t.at? 0 = some .readEnd ∧ t.at? 1 = some (.other 1) ∧ t.All (· ≠ .writeEnd)

/-- A child in front of `execv`. -/
inductive Coding : Side → List Stmt → Table Desc → Prop
  | first (i : Side) : Coding i (i.code x.piped.1) x.piped.2
  | secondLeft : Coding .left [.dup2 x.piped.1.2 1] (x.piped.2.close x.piped.1.1)
  | secondRight : Coding .right [.dup2 x.piped.1.1 0] (x.piped.2.close x.piped.1.2)
  | ready {i : Side} {t : Table Desc} (h : Wired t i) : Coding i [] t

section tables

variable {x} {t : Table Desc} {i : Side} {stmts : List Stmt} {st : Stmt}

/-- The ends of the pipe are two numbers that were free. -/
theorem piped_fst : x.table.at? x.piped.1.1 = none ∧ x.table.at? x.piped.1.2 = none ∧
    x.piped.1.1 ≠ x.piped.1.2 := Table.pipe_fst _ _ _

/-- The descriptors of the shell behind `pipe`. -/
theorem at?_piped (n : Int) : x.piped.2.at? n =
    if n = x.piped.1.2 then some .writeEnd else if n = x.piped.1.1 then some .readEnd else x.table.at? n :=
  Table.at?_pipe _ _ _ _

/-- The standard input and output are not among them. -/
theorem std_ne_piped : (0 : Int) ≠ x.piped.1.1 ∧ (0 : Int) ≠ x.piped.1.2 ∧ (1 : Int) ≠ x.piped.1.1 ∧
    (1 : Int) ≠ x.piped.1.2 := by
  obtain ⟨hread, hwrite, -⟩ := piped_fst (x := x)
  have hne : ∀ {n m : Int} {d : Desc}, x.table.at? n = some d → x.table.at? m = none → n ≠ m := by
    rintro n _ d hn hm rfl
    rw [hn] at hm
    cases hm
  exact ⟨hne x.stdin hread, hne x.stdin hwrite, hne x.stdout hread, hne x.stdout hwrite⟩

/-- Both ends are closed again. -/
theorem close_piped : (x.piped.2.close x.piped.1.1).close x.piped.1.2 = x.table := by
  obtain ⟨hread, hwrite, hne⟩ := piped_fst (x := x)
  apply Table.ext_at?
  intro n
  rw [Table.at?_close, Table.at?_close, at?_piped]
  by_cases hn : n = x.piped.1.2
  · rw [if_pos hn, hn, hwrite]
  · rw [if_neg hn, if_neg hn]
    by_cases hn' : n = x.piped.1.1
    · rw [if_pos hn', hn', hread]
    · rw [if_neg hn', if_neg hn']

/-- The left child has put the write end in the place of its standard output. -/
theorem wired_left : Wired ((x.piped.2.close x.piped.1.1).dup2 x.piped.1.2 1) .left := by
  obtain ⟨h0r, h0w, h1r, h1w⟩ := std_ne_piped (x := x)
  obtain ⟨-, -, hne⟩ := piped_fst (x := x)
  have hwrite : (x.piped.2.close x.piped.1.1).at? x.piped.1.2 = some .writeEnd := by
    rw [Table.at?_close, if_neg hne.symm, at?_piped, if_pos rfl]
  refine ⟨?_, ?_, ?_⟩
  · rw [Table.at?_dup2 hwrite, if_neg (by decide), Table.at?_close, if_neg h0r, at?_piped, if_neg h0w,
      if_neg h0r, x.stdin]
  · rw [Table.at?_dup2 hwrite]
    exact if_pos rfl
  · refine Table.All.dup2 ?_ _ _
    intro n d hd
    rw [Table.at?_close, at?_piped] at hd
    split_ifs at hd
    · cases hd
      decide
    · exact x.noRead n d hd

/-- The right child has put the read end in the place of its standard input. -/
theorem wired_right : Wired ((x.piped.2.close x.piped.1.2).dup2 x.piped.1.1 0) .right := by
  obtain ⟨h0r, h0w, h1r, h1w⟩ := std_ne_piped (x := x)
  obtain ⟨-, -, hne⟩ := piped_fst (x := x)
  have hread : (x.piped.2.close x.piped.1.2).at? x.piped.1.1 = some .readEnd := by
    rw [Table.at?_close, if_neg hne, at?_piped, if_neg hne, if_pos rfl]
  refine ⟨?_, ?_, ?_⟩
  · rw [Table.at?_dup2 hread]
    exact if_pos rfl
  · rw [Table.at?_dup2 hread, if_neg (by decide), Table.at?_close, if_neg h1w, at?_piped, if_neg h1w,
      if_neg h1r, x.stdout]
  · refine Table.All.dup2 ?_ _ _
    intro n d hd
    rw [Table.at?_close, at?_piped] at hd
    split_ifs at hd
    · cases hd
      decide
    · exact x.noWrite n d hd

/-- A statement of a child. -/
theorem Coding.stmt (h : x.Coding i (st :: stmts) t) : x.Coding i stmts (st.run t) := by
  generalize hall : st :: stmts = all at h
  cases h with
  | first =>
      cases i with
      | left =>
          cases hall
          exact .secondLeft
      | right =>
          cases hall
          exact .secondRight
  | secondLeft =>
      cases hall
      exact .ready wired_left
  | secondRight =>
      cases hall
      exact .ready wired_right
  | ready => cases hall

/-- A child with no statements left is wired. -/
theorem Coding.wired (h : x.Coding i [] t) : Wired t i := by
  generalize hall : [] = all at h
  cases h with
  | first => cases i <;> cases hall
  | secondLeft | secondRight => cases hall
  | ready hwired => exact hwired

/-- Some number denotes it. -/
theorem not_all_of_at? {d : Desc} {n : Int} (h : t.at? n = some d) : ¬ t.All (· ≠ d) :=
  fun hall => hall n d h rfl

/-- It has its end of the pipe. -/
theorem Wired.keeps (h : Wired t i) : ¬ t.All (· ≠ i.keeps) := by
  cases i with
  | left => exact not_all_of_at? h.2.1
  | right => exact not_all_of_at? h.1

/-- A child has its end from the beginning. -/
theorem Coding.keeps (h : x.Coding i stmts t) : ¬ t.All (· ≠ i.keeps) := by
  obtain ⟨-, -, hne⟩ := piped_fst (x := x)
  cases h with
  | first =>
      cases i with
      | left =>
          apply not_all_of_at? (n := x.piped.1.2)
          rw [at?_piped, if_pos rfl]
          rfl
      | right =>
          apply not_all_of_at? (n := x.piped.1.1)
          rw [at?_piped, if_neg hne, if_pos rfl]
          rfl
  | secondLeft =>
      apply not_all_of_at? (n := x.piped.1.2)
      rw [Table.at?_close, if_neg hne.symm, at?_piped, if_pos rfl]
      rfl
  | secondRight =>
      apply not_all_of_at? (n := x.piped.1.1)
      rw [Table.at?_close, if_neg hne, at?_piped, if_neg hne, if_pos rfl]
      rfl
  | ready h => exact h.keeps

end tables

/-! ## Two programs with a buffer between them -/

/-- The state of a program and whether it has ended. -/
def sideOf (a : Joined σ Char) : Side → σ × Bool
  | .left => (a.left.1, a.leftGone)
  | .right => (a.right, a.rightGone)

/-- A child runs the program, or is about to. -/
inductive Runs (i : Side) : Child σ → σ × Bool → Prop
  | none : Runs i .none (x.program i, false)
  | code {stmts : List Stmt} {t : Table Desc} (h : x.Coding i stmts t) :
      Runs i (.code stmts t) (x.program i, false)
  | running (p : σ) {t : Table Desc} (h : Wired t i) : Runs i (.running p t) (p, false)
  | gone (p : σ) : Runs i .gone (p, true)

/-- The `fork` of the child is still to come. -/
def Before : Stage → Side → Prop
  | .pipe, _ | .fork .left, _ => True
  | .fork .right, i => i = .right
  | .code _, _ | .prompt _, _ => False

/-- The children are the two programs, and the pipe is the buffer. -/
structure Represents (s : Sys σ) (a : Joined σ Char) : Prop where
  shell : x.Shell s.stage s.shell s.fd
  none : ∀ i, s.child i = .none ↔ Before s.stage i
  child : ∀ i, x.Runs i (s.child i) (sideOf a i)
  input : a.left.2 = s.input
  buffer : a.buffer = s.buffer
  output : a.output = s.output

/-- What an event shows of the programs. The right one is never killed. -/
def shows : Event → List (Joined.Event Char)
  | .pipe | .fork _ | .shell | .wait _ | .stmt _ | .exec _ | .killed .right => []
  | .io .left io => [.left io]
  | .io .right io => [.right io]
  | .exit .left => [.leftExit]
  | .exit .right => [.rightExit]
  | .killed .left => [.killed]

/-- The statements that the shell has in front of it. -/
def shellWork : Stage → Nat
  | .pipe => 6
  | .fork .left => 5
  | .fork .right => 4
  | .code stmts => stmts.length + 1
  | .prompt _ => 0

/-- The statements that a child has in front of its program. -/
def childWork : Child σ → Nat
  | .none => 3
  | .code stmts _ => stmts.length + 1
  | .running _ _ | .gone => 0

/-- Both. -/
def work (s : Sys σ) : Nat := shellWork s.stage + childWork (s.child .left) + childWork (s.child .right)

section represents

variable {x} {s s' : Sys σ} {a a' : Joined σ Char} {i j : Side} {t : Table Desc} {p : σ} {e : Event}

/-- At the start the two programs are joined by an empty pipe. -/
theorem represents_init (input output : List Char) :
    x.Represents (x.init input output) (.init (x.program .left) (x.program .right) input output) where
  shell := .pipe _
  none := fun i => iff_of_true rfl trivial
  child := fun i => by
    cases i with
    | left => exact .none
    | right => exact .none
  input := rfl
  buffer := rfl
  output := rfl

/-- A child that was forked changes. -/
theorem Represents.setChild (h : x.Represents s a) (hold : s.child i ≠ .none) {c : Child σ} (hnew : c ≠ .none)
    (hi : x.Runs i c (sideOf a' i)) (hother : ∀ j, j ≠ i → sideOf a' j = sideOf a j)
    {input buffer output : List Char} (hinput : a'.left.2 = input) (hbuffer : a'.buffer = buffer)
    (houtput : a'.output = output) :
    x.Represents { s.setChild i c with input := input, buffer := buffer, output := output } a' where
  shell := h.shell
  none := by
    intro j
    show Function.update s.child i c j = .none ↔ Before s.stage j
    by_cases hj : j = i
    · subst hj
      rw [Function.update_self, ← h.none j]
      exact iff_of_false hnew hold
    · rw [Function.update_of_ne hj]
      exact h.none j
  child := by
    intro j
    show x.Runs j (Function.update s.child i c j) (sideOf a' j)
    by_cases hj : j = i
    · subst hj
      rw [Function.update_self]
      exact hi
    · rw [Function.update_of_ne hj, hother j hj]
      exact h.child j
  input := hinput
  buffer := hbuffer
  output := houtput

/-- What a running child is. -/
theorem Represents.running (h : x.Represents s a) (hi : s.child i = .running p t) :
    sideOf a i = (p, false) ∧ Wired t i := by
  have hrun := h.child i
  rw [hi] at hrun
  generalize sideOf a i = pg at hrun
  cases hrun with
  | running _ hwired => exact ⟨rfl, hwired⟩

/-- When nobody has the end that a child keeps, the child has exited. -/
theorem Represents.gone (h : x.Represents s a) (hstage : s.stage ≠ .pipe) (hnone : s.NoHolder i.keeps) :
    s.child i = .gone := by
  obtain ⟨hshell, hchildren⟩ := hnone
  have hforked : s.child i ≠ .none := by
    rw [ne_eq, h.none i]
    intro hbefore
    have hat := h.shell
    generalize s.stage = stage at hat hstage hbefore
    generalize s.shell = table at hat hshell
    generalize s.fd = fd at hat
    cases hat with
    | pipe => exact hstage rfl
    | fork j => exact Coding.keeps (.first i) hshell
    | first | second | closed | prompt => exact hbefore
  have hrun := h.child i
  generalize hc : s.child i = c at hrun hforked
  generalize sideOf a i = pg at hrun
  cases hrun with
  | none => exact absurd rfl hforked
  | code hcoding => exact absurd (hchildren i _ (by rw [hc]; rfl)) hcoding.keeps
  | running p hwired => exact absurd (hchildren i _ (by rw [hc]; rfl)) hwired.keeps
  | gone => rfl

/-- A child that is gone has exited there too. -/
theorem Represents.gone_eq (h : x.Represents s a) (hi : s.child i = .gone) : (sideOf a i).2 = true := by
  have hrun := h.child i
  rw [hi] at hrun
  generalize sideOf a i = pg at hrun
  cases hrun with
  | gone => rfl

/-- A child was forked behind `pipe`. -/
theorem Represents.stage_ne_pipe (h : x.Represents s a) (hi : s.child i ≠ .none) : s.stage ≠ .pipe := by
  intro hstage
  rw [ne_eq, h.none i, hstage] at hi
  exact hi trivial

/-- The work that is left when a child goes on. -/
theorem work_setChild (s : Sys σ) (i : Side) (c : Child σ) :
    work (s.setChild i c) + childWork (s.child i) = work s + childWork c := by
  unfold work Sys.setChild
  cases i with
  | left =>
      simp only [Function.update_self, Function.update_of_ne (show Side.right ≠ .left by decide)]
      omega
  | right =>
      simp only [Function.update_self, Function.update_of_ne (show Side.left ≠ .right by decide)]
      omega

/-- The shell forks. -/
theorem Represents.fork (h : x.Represents s a) (hstage : s.stage = .fork i) :
    x.Represents { s.setChild i (.code (i.code s.fd) s.shell) with stage := i.next s.fd } a := by
  have hat := h.shell
  have hbefore := h.none
  rw [hstage] at hat hbefore
  generalize hfd : s.fd = fd at hat
  generalize hshell : s.shell = table at hat
  cases hat with
  | fork =>
  have hnone : s.child i = .none := by
    rw [hbefore i]
    cases i with
    | left => trivial
    | right => rfl
  have hside : sideOf a i = (x.program i, false) := by
    have hrun := h.child i
    rw [hnone] at hrun
    generalize sideOf a i = pg at hrun
    cases hrun with
    | none => rfl
  refine ⟨?_, ?_, ?_, h.input, h.buffer, h.output⟩
  · show x.Shell (i.next x.piped.1) s.shell s.fd
    rw [hfd, hshell]
    cases i with
    | left => exact .fork .right
    | right => exact .first
  · intro j
    show Function.update s.child i _ j = .none ↔ Before (i.next x.piped.1) j
    by_cases hj : j = i
    · subst hj
      rw [Function.update_self]
      cases j with
      | left => exact iff_of_false nofun nofun
      | right => exact iff_of_false nofun id
    · rw [Function.update_of_ne hj, hbefore j]
      cases i with
      | left =>
          cases j with
          | left => exact absurd rfl hj
          | right => exact iff_of_true trivial rfl
      | right =>
          cases j with
          | left => exact iff_of_false nofun id
          | right => exact absurd rfl hj
  · intro j
    show x.Runs j (Function.update s.child i _ j) (sideOf a j)
    by_cases hj : j = i
    · subst hj
      rw [Function.update_self, hside]
      exact .code (.first j)
    · rw [Function.update_of_ne hj]
      exact h.child j

/-- The shell goes on without a child. -/
theorem Represents.setStage (h : x.Represents s a) {stage : Stage} {table : Table Desc} {fd : Int × Int}
    (hshell : x.Shell stage table fd) (hbefore : ∀ i, Before s.stage i ↔ Before stage i) :
    x.Represents { s with shell := table, fd := fd, stage := stage } a where
  shell := hshell
  none := fun i => (h.none i).trans (hbefore i)
  child := h.child
  input := h.input
  buffer := h.buffer
  output := h.output

/-- What the shell does. -/
theorem Represents.shellStep (h : x.Represents s a) {st : Stmt} {stmts : List Stmt}
    (hstage : s.stage = .code (st :: stmts)) : x.Shell (.code stmts) (st.run s.shell) s.fd := by
  have hat := h.shell
  rw [hstage] at hat
  generalize hall : st :: stmts = all at hat
  generalize s.shell = table at hat
  generalize s.fd = fd at hat
  cases hat with
  | first =>
      cases hall
      exact .second
  | second =>
      cases hall
      rw [Stmt.run, close_piped]
      exact .closed
  | closed => cases hall

/-- A step that is seen as one of the two programs, by a child that was forked. -/
theorem Represents.matched (h : x.Represents s a) (hold : s.child i ≠ .none) (c : Child σ)
    (a' : Joined σ Char) (hnew : c ≠ .none) (hi : x.Runs i c (sideOf a' i))
    (hother : ∀ j, j ≠ i → sideOf a' j = sideOf a j) {input buffer output : List Char}
    (hinput : a'.left.2 = input) (hbuffer : a'.buffer = buffer) (houtput : a'.output = output)
    {d : Joined.Event Char} (hshows : shows e = [d]) (hstep : Joined.Step x.act x.capacity a d a')
    (hwork : childWork c = 0) :
    ∃ a', Run (Joined.Step x.act x.capacity) a (shows e) a' ∧
      x.Represents { s.setChild i c with input := input, buffer := buffer, output := output } a' ∧
      work { s.setChild i c with input := input, buffer := buffer, output := output } + 1 ≤
        work s + (shows e).length := by
  refine ⟨a', ?_, h.setChild hold hnew hi hother hinput hbuffer houtput, ?_⟩
  · rw [hshows]
    exact run_singleton_iff.mpr hstep
  · have hset := work_setChild s i c
    rw [hshows, List.length_singleton]
    show work (s.setChild i c) + 1 ≤ _
    omega

/-- **A step of the shell or a child is a step of the two programs, or none of theirs.** -/
theorem Represents.step (h : x.Represents s a) (hstep : x.Step s e s') :
    ∃ a', Run (Joined.Step x.act x.capacity) a (shows e) a' ∧ x.Represents s' a' ∧
      work s' + 1 ≤ work s + (shows e).length := by
  cases hstep with
  | pipe hstage =>
      have hat := h.shell
      rw [hstage] at hat
      generalize s.fd = fd at hat
      generalize s.shell = table at hat
      cases hat with
      | pipe =>
      refine ⟨a, .nil, h.setStage (.fork .left) ?_, ?_⟩
      · intro i
        rw [hstage]
        exact iff_of_true trivial trivial
      · show shellWork (.fork .left) + _ + _ + 1 ≤ shellWork s.stage + _ + _ + 0
        rw [hstage]
        exact Nat.le_of_eq (by simp only [shellWork]; omega)
  | @fork i hstage =>
      have hrep := h.fork hstage
      have hnone : s.child i = .none := by
        rw [h.none i, hstage]
        cases i with
        | left => trivial
        | right => rfl
      refine ⟨a, .nil, hrep, ?_⟩
      have hset := work_setChild s i (.code (i.code s.fd) s.shell)
      rw [hnone] at hset
      unfold work at hset ⊢
      rw [hstage] at hset ⊢
      have hstage' : (s.setChild i (.code (i.code s.fd) s.shell)).stage = .fork i := hstage
      rw [hstage'] at hset
      cases i with
      | left =>
          simp only [shellWork, childWork, Side.code, Side.next, List.length_cons, List.length_nil, shows] at hset ⊢
          omega
      | right =>
          simp only [shellWork, childWork, Side.code, Side.next, List.length_cons, List.length_nil, shows] at hset ⊢
          omega
  | @shell st stmts hstage =>
      refine ⟨a, .nil, h.setStage (h.shellStep hstage) ?_, ?_⟩
      · intro i
        rw [hstage]
        exact Iff.rfl
      · show shellWork (.code stmts) + _ + _ + 1 ≤ shellWork s.stage + _ + _ + 0
        rw [hstage]
        simp only [shellWork, List.length_cons]
        omega
  | @wait i hstage hgone =>
      have hat := h.shell
      rw [hstage] at hat
      generalize s.fd = fd at hat
      generalize s.shell = table at hat
      cases hat with
      | closed =>
      refine ⟨a, .nil, h.setStage (.prompt i) ?_, ?_⟩
      · intro j
        rw [hstage]
        exact Iff.rfl
      · show shellWork (.prompt i) + _ + _ + 1 ≤ shellWork s.stage + _ + _ + 0
        rw [hstage]
        simp only [shellWork, List.length_nil]
        omega
  | @stmt i st stmts t hi =>
      have hrun := h.child i
      rw [hi] at hrun
      generalize hside : sideOf a i = pg at hrun
      cases hrun with
      | code hcoding =>
      have hset := work_setChild s i (.code stmts (st.run t))
      rw [hi] at hset
      refine ⟨a, .nil, ?_, ?_⟩
      · refine h.setChild (c := .code stmts (st.run t)) (by rw [hi]; nofun) nofun ?_ (fun _ _ => rfl) h.input
          h.buffer h.output
        rw [hside]
        exact .code hcoding.stmt
      · simp only [childWork, List.length_cons, shows, List.length_nil] at hset ⊢
        omega
  | @exec i t hi =>
      have hrun := h.child i
      rw [hi] at hrun
      generalize hside : sideOf a i = pg at hrun
      cases hrun with
      | code hcoding =>
      have hset := work_setChild s i (.running (x.program i) t)
      rw [hi] at hset
      refine ⟨a, .nil, ?_, ?_⟩
      · refine h.setChild (c := .running (x.program i) t) (by rw [hi]; nofun) nofun ?_ (fun _ _ => rfl) h.input
          h.buffer h.output
        rw [hside]
        exact .running _ hcoding.wired
      · simp only [childWork, shows, List.length_nil] at hset ⊢
        omega
  | @readInput i p p' t io rest hi ht hio hread =>
      obtain ⟨hside, hwired⟩ := h.running hi
      have hold : s.child i ≠ .none := by rw [hi]; nofun
      cases i with
      | right =>
          rw [hwired.1] at ht
          cases ht
      | left =>
          obtain ⟨hp, hgone⟩ := Prod.mk.inj hside
          have hleft : a.left = (p, s.input) := Prod.ext hp h.input
          refine h.matched hold (.running p' t) { a with left := (p', rest) } nofun ?_ (forall_ne_left rfl) rfl
            h.buffer h.output rfl (.leftRead hgone (hleft ▸ hio) hread) rfl
          have hnew : sideOf { a with left := (p', rest) } .left = (p', false) := Prod.ext rfl hgone
          rw [hnew]
          exact .running p' hwired
  | @readPipe i p t size hsize next bs rest hi ht hact hne hlen hbuffer =>
      obtain ⟨hside, hwired⟩ := h.running hi
      have hold : s.child i ≠ .none := by rw [hi]; nofun
      cases i with
      | left =>
          rw [hwired.1] at ht
          cases ht
      | right =>
          obtain ⟨hp, hgone⟩ := Prod.mk.inj hside
          have hact : x.act a.right = .read size hsize next := by rw [hp, hact]
          have hbuffer : a.buffer = bs ++ rest := h.buffer.trans hbuffer
          refine h.matched hold (.running (next bs) t) { a with right := next bs, buffer := rest } nofun ?_
            (forall_ne_right rfl) h.input rfl h.output rfl (.rightRead hgone hact hne hlen hbuffer) rfl
          have hnew : sideOf { a with right := next bs, buffer := rest } .right = (next bs, false) :=
            Prod.ext rfl hgone
          rw [hnew]
          exact .running _ hwired
  | @eofPipe i p t size hsize next hi ht hact hempty hnone =>
      obtain ⟨hside, hwired⟩ := h.running hi
      have hold : s.child i ≠ .none := by rw [hi]; nofun
      cases i with
      | left =>
          rw [hwired.1] at ht
          cases ht
      | right =>
          obtain ⟨hp, hgone⟩ := Prod.mk.inj hside
          have hact : x.act a.right = .read size hsize next := by rw [hp, hact]
          have hleft : a.leftGone = true := h.gone_eq (h.gone (i := .left) (h.stage_ne_pipe hold) hnone)
          refine h.matched hold (.running (next []) t) { a with right := next [] } nofun ?_
            (forall_ne_right rfl) h.input h.buffer h.output rfl
            (.rightEof hgone hact (h.buffer.trans hempty) hleft) rfl
          have hnew : sideOf { a with right := next [] } .right = (next [], false) := Prod.ext rfl hgone
          rw [hnew]
          exact .running _ hwired
  | @writeOutput i p next t b hi ht hact =>
      obtain ⟨hside, hwired⟩ := h.running hi
      have hold : s.child i ≠ .none := by rw [hi]; nofun
      cases i with
      | left =>
          rw [hwired.2.1] at ht
          cases ht
      | right =>
          obtain ⟨hp, hgone⟩ := Prod.mk.inj hside
          have hact : x.act a.right = .write b next := by rw [hp, hact]
          refine h.matched hold (.running next t) { a with right := next, output := a.output ++ [b] } nofun ?_
            (forall_ne_right rfl) h.input h.buffer (congrArg (· ++ [b]) h.output) rfl (.rightWrite hgone hact) rfl
          have hnew : sideOf { a with right := next, output := a.output ++ [b] } .right = (next, false) :=
            Prod.ext rfl hgone
          rw [hnew]
          exact .running _ hwired
  | @writePipe i p next t b hi ht hact hroom hsome =>
      obtain ⟨hside, hwired⟩ := h.running hi
      have hold : s.child i ≠ .none := by rw [hi]; nofun
      cases i with
      | right =>
          rw [hwired.2.1] at ht
          cases ht
      | left =>
          obtain ⟨hp, hgone⟩ := Prod.mk.inj hside
          have hact : x.act a.left.1 = .write b next := by rw [hp, hact]
          have hroom : a.buffer.length < x.capacity := by
            rw [h.buffer]
            exact hroom
          refine h.matched hold (.running next t) { a with left := (next, a.left.2), buffer := a.buffer ++ [b] }
            nofun ?_ (forall_ne_left rfl) h.input (congrArg (· ++ [b]) h.buffer) h.output rfl
            (.leftWrite hgone hact hroom) rfl
          have hnew : sideOf { a with left := (next, a.left.2), buffer := a.buffer ++ [b] } .left =
              (next, false) := Prod.ext rfl hgone
          rw [hnew]
          exact .running _ hwired
  | @killed i p next t b hi ht hact hnone =>
      obtain ⟨hside, hwired⟩ := h.running hi
      have hold : s.child i ≠ .none := by rw [hi]; nofun
      cases i with
      | right =>
          rw [hwired.2.1] at ht
          cases ht
      | left =>
          obtain ⟨hp, hgone⟩ := Prod.mk.inj hside
          have hact : x.act a.left.1 = .write b next := by rw [hp, hact]
          have hright : a.rightGone = true := h.gone_eq (h.gone (i := .right) (h.stage_ne_pipe hold) hnone)
          exact h.matched hold .gone { a with leftGone := true } nofun (.gone _) (forall_ne_left rfl) h.input
            h.buffer h.output rfl (.killed hgone hact hright) rfl
  | @exit i p t hi hact =>
      obtain ⟨hside, hwired⟩ := h.running hi
      have hold : s.child i ≠ .none := by rw [hi]; nofun
      cases i with
      | left =>
          obtain ⟨hp, hgone⟩ := Prod.mk.inj hside
          have hact : x.act a.left.1 = .exit := by rw [hp, hact]
          exact h.matched hold .gone { a with leftGone := true } nofun (.gone _) (forall_ne_left rfl) h.input
            h.buffer h.output rfl (.leftExit hgone hact) rfl
      | right =>
          obtain ⟨hp, hgone⟩ := Prod.mk.inj hside
          have hact : x.act a.right = .exit := by rw [hp, hact]
          exact h.matched hold .gone { a with rightGone := true } nofun (.gone _) (forall_ne_right rfl) h.input
            h.buffer h.output rfl (.rightExit hgone hact) rfl

/-! ### What can be done -/

/-- The shell has closed the pipe, and the children run or have exited. -/
structure Settled (x : Job σ) (s : Sys σ) : Prop where
  shell : s.shell = x.table
  forked : ∀ i, s.child i ≠ .none
  coded : ∀ i stmts t, s.child i ≠ .code stmts t

/-- A child that has exited there is gone. -/
theorem Represents.exited (h : x.Represents s a) (hi : (sideOf a i).2 = true) : s.child i = .gone := by
  have hrun := h.child i
  generalize sideOf a i = pg at hrun hi
  generalize s.child i = c at hrun
  cases hrun with
  | none | code | running => cases hi
  | gone => rfl

/-- A child that has not exited runs its program, and is wired. -/
theorem Represents.runs (h : x.Represents s a) (hs : x.Settled s) (hi : (sideOf a i).2 = false) :
    ∃ t, s.child i = .running (sideOf a i).1 t ∧ Wired t i := by
  have hrun := h.child i
  have hforked := hs.forked i
  have hcoded := hs.coded i
  generalize sideOf a i = pg at hrun hi ⊢
  generalize s.child i = c at hrun hforked hcoded ⊢
  cases hrun with
  | none => exact absurd rfl hforked
  | code => exact absurd rfl (hcoded _ _)
  | running p hwired => exact ⟨_, rfl, hwired⟩
  | gone => cases hi

/-- When a child has exited nobody has the end that it kept. -/
theorem Represents.noHolder (h : x.Represents s a) (hs : x.Settled s) (hi : s.child i = .gone) :
    s.NoHolder i.keeps := by
  constructor
  · rw [hs.shell]
    cases i with
    | left => exact x.noWrite
    | right => exact x.noRead
  · intro j t ht
    have hrun := h.child j
    have hforked := hs.forked j
    generalize hc : s.child j = c at hrun ht hforked
    generalize sideOf a j = pg at hrun
    cases hrun with
    | none => exact absurd rfl hforked
    | code => exact absurd hc (hs.coded j _ _)
    | gone => cases ht
    | running p hwired =>
        cases ht
        cases i with
        | left =>
            cases j with
            | left =>
                rw [hi] at hc
                cases hc
            | right => exact hwired.2.2
        | right =>
            cases j with
            | left => exact hwired.2.2
            | right =>
                rw [hi] at hc
                cases hc

/-- What the two programs can do, the children can. -/
theorem Represents.enabled (h : x.Represents s a) (hs : x.Settled s) {d : Joined.Event Char}
    (hstep : Joined.Step x.act x.capacity a d a') : ∃ e s', x.Step s e s' := by
  cases hstep with
  | @leftRead io t' hgone hio hnone =>
      obtain ⟨t, hi, hwired⟩ := h.runs (i := .left) hs hgone
      have hio : OnInput x.act (a.left.1, s.input) io (t'.1, t'.2) := by
        rw [← h.input]
        exact hio
      exact ⟨_, _, .readInput hi hwired.1 hio hnone⟩
  | @leftWrite b next hgone hact hroom =>
      obtain ⟨t, hi, hwired⟩ := h.runs (i := .left) hs hgone
      by_cases hnone : s.NoHolder .readEnd
      · exact ⟨_, _, .killed hi hwired.2.1 hact hnone⟩
      · exact ⟨_, _, .writePipe hi hwired.2.1 hact (h.buffer ▸ hroom) hnone⟩
  | leftExit hgone hact =>
      obtain ⟨t, hi, hwired⟩ := h.runs (i := .left) hs hgone
      exact ⟨_, _, .exit hi hact⟩
  | killed hgone hact hright =>
      obtain ⟨t, hi, hwired⟩ := h.runs (i := .left) hs hgone
      exact ⟨_, _, .killed hi hwired.2.1 hact (h.noHolder hs (h.exited (i := .right) hright))⟩
  | rightRead hgone hact hne hlen hbuffer =>
      obtain ⟨t, hi, hwired⟩ := h.runs (i := .right) hs hgone
      exact ⟨_, _, .readPipe hi hwired.1 hact hne hlen (h.buffer.symm.trans hbuffer)⟩
  | rightEof hgone hact hempty hleft =>
      obtain ⟨t, hi, hwired⟩ := h.runs (i := .right) hs hgone
      exact ⟨_, _, .eofPipe hi hwired.1 hact (h.buffer.symm.trans hempty)
        (h.noHolder hs (h.exited (i := .left) hleft))⟩
  | rightWrite hgone hact =>
      obtain ⟨t, hi, hwired⟩ := h.runs (i := .right) hs hgone
      exact ⟨_, _, .writeOutput hi hwired.2.1 hact⟩
  | rightExit hgone hact =>
      obtain ⟨t, hi, hwired⟩ := h.runs (i := .right) hs hgone
      exact ⟨_, _, .exit hi hact⟩

/-- The line is done: the shell is at the prompt with its descriptors, and the children have exited. -/
structure Done (x : Job σ) (s : Sys σ) : Prop where
  stage : ∃ i, s.stage = .prompt i
  shell : s.shell = x.table
  child : ∀ i, s.child i = .gone

/-- **Nobody waits for ever.** -/
theorem Represents.exists_step (h : x.Represents s a) (hcapacity : 0 < x.capacity) (hdone : ¬ x.Done s) :
    ∃ e s', x.Step s e s' := by
  have hat := h.shell
  have hbefore := h.none
  -- behind the last `close` of the shell
  have hlast : (s.stage = .code [] ∨ ∃ i, s.stage = .prompt i) → s.shell = x.table →
      (∀ i, s.child i ≠ .none) → ∃ e s', x.Step s e s' := by
    intro hstage hshell hforked
    by_cases hcoded : ∃ i stmts t, s.child i = .code stmts t
    · obtain ⟨i, stmts, t, hi⟩ := hcoded
      rcases stmts with _ | ⟨st, stmts⟩
      · exact ⟨_, _, .exec hi⟩
      · exact ⟨_, _, .stmt hi⟩
    · have hs : x.Settled s := ⟨hshell, hforked, fun i stmts t hi => hcoded ⟨i, stmts, t, hi⟩⟩
      by_cases hboth : a.leftGone = true ∧ a.rightGone = true
      · have hgone : ∀ i, s.child i = .gone := by
          intro i
          cases i with
          | left => exact h.exited (i := .left) hboth.1
          | right => exact h.exited (i := .right) hboth.2
        rcases hstage with hstage | hstage
        · exact ⟨_, _, .wait hstage (hgone .left)⟩
        · exact absurd ⟨hstage, hshell, hgone⟩ hdone
      · obtain ⟨d, a', hstep⟩ : ∃ d a', Joined.Step x.act x.capacity a d a' :=
          Joined.exists_step hcapacity hboth
        exact h.enabled hs hstep
  generalize hstage : s.stage = stage at hat hbefore
  generalize hshell : s.shell = table at hat
  generalize s.fd = fd at hat
  cases hat with
  | pipe => exact ⟨_, _, .pipe hstage⟩
  | fork i => exact ⟨_, _, .fork hstage⟩
  | first | second => exact ⟨_, _, .shell hstage⟩
  | closed => exact hlast (.inl hstage) hshell fun i hi => (hbefore i).mp hi
  | prompt i => exact hlast (.inr ⟨i, hstage⟩) hshell fun j hj => (hbefore j).mp hj

/-- In every run the children are the two programs, and the other steps are few. -/
theorem run_represents {input output : List Char} {es : List Event} (h : Run x.Step (x.init input output) es s) :
    ∃ ds a, Run (Joined.Step x.act x.capacity)
        (.init (x.program .left) (x.program .right) input output) ds a ∧
      x.Represents s a ∧ work s + es.length ≤ 12 + ds.length := by
  refine h.history (fun es s => ∃ ds a, Run (Joined.Step x.act x.capacity)
      (.init (x.program .left) (x.program .right) input output) ds a ∧
    x.Represents s a ∧ work s + es.length ≤ 12 + ds.length) ?_
    ⟨[], _, .nil, represents_init input output, Nat.le_refl _⟩
  rintro es s e s' ⟨ds, a, hrun, hrep, hwork⟩ hstep
  obtain ⟨a', hmatch, hrep', hless⟩ := hrep.step hstep
  refine ⟨ds ++ shows e, a', run_append_iff.mpr ⟨a, hrun, hmatch⟩, hrep', ?_⟩
  rw [List.length_append, List.length_append, List.length_singleton]
  omega

section computes

variable {f g : List Char → List Char} {bf bg : List Char → Nat} {input output : List Char} {es : List Event}

/-- A run has no more steps than both programs and the shell. -/
theorem length_le (hf : Computes x.act (x.program .left) f bf) (hg : Computes x.act (x.program .right) g bg)
    (h : Run x.Step (x.init input output) es s) : es.length ≤ bf input + bg (f input) + 14 := by
  obtain ⟨ds, a, hrun, -, hwork⟩ := run_represents h
  have hlength := Joined.length_le hrun hf hg
  omega

/-- Every run can go on to its end. -/
theorem exists_done (hcapacity : 0 < x.capacity) (hf : Computes x.act (x.program .left) f bf)
    (hg : Computes x.act (x.program .right) g bg) (h : Run x.Step (x.init input output) es s) :
    ∃ es' s', Run x.Step s es' s' ∧ x.Done s' := by
  obtain ⟨es', s', hrun', hfinal⟩ := @exists_final_of_length_le _ _ x.Step s (bf input + bg (f input) + 14)
    fun es' s' hrun' => Nat.le_trans (Nat.le_add_left _ _)
      (List.length_append ▸ length_le hf hg (run_append_iff.mpr ⟨s, h, hrun'⟩))
  refine ⟨es', s', hrun', ?_⟩
  by_contra hdone
  obtain ⟨ds, a, -, hrep, -⟩ := run_represents (run_append_iff.mpr ⟨s, h, hrun'⟩)
  obtain ⟨e, s'', hstep⟩ := hrep.exists_step hcapacity hdone
  exact hfinal e s'' hstep

/-- At the end the output is the composition. -/
theorem output_eq (hf : Computes x.act (x.program .left) f bf) (hg : Computes x.act (x.program .right) g bg)
    (h : Run x.Step (x.init input output) es s) (hdone : x.Done s) : s.output = output ++ g (f input) := by
  obtain ⟨ds, a, hrun, hrep, -⟩ := run_represents h
  rw [← hrep.output]
  exact Joined.output_eq hrun hf hg (hrep.gone_eq (i := .right) (hdone.child .right))

end computes

end represents

end Job

/-! ## A line -/

/-- `sizeof(path)`. Source: `main` -/
abbrev pathSize : Nat := 128

/-- `/bin/` and the first word. Source: `main` -/
def binPath (ws : List (List Char)) : List Char := "/bin/".toList ++ ws.headD []

/-- `sprintf(path, "/bin/%s", arg[0])`, and `execv(path, arg)`. Source: `main` -/
def Host.command (x : Host σ) (buf : List Char) (arg : List (Option Nat)) : Option σ := do
  let p ← arg.head?.join
  let name ← textAt buf p
  let ws ← argv buf arg
  if ("/bin/".toList ++ name).length < pathSize then some (x.execv ("/bin/".toList ++ name) ws) else none

/-- The two programs of a line with `|`. Source: `main` -/
def Host.pipeJob (x : Host σ) (line rest : List Char) (arg arg2 : List (Option Nat)) : Option (Job σ) := do
  match ← tokenise line rest arg arg2 with
  | .split .pipe buf arg arg2 =>
      let left ← x.command buf arg
      let right ← x.command buf arg2
      return { x with program := fun i => if i = .left then left else right }
  | _ => none

section line

variable {x : Host σ} {pre post rest : List Char} {arg arg2 : List (Option Nat)}

/-- The command of an argument vector: the program at its path under `/bin/`. -/
theorem Host.command_eq {buf : List Char} {ws : List (List Char)} (h : argv buf arg = some ws) (hne : ws ≠ [])
    (hpath : (binPath ws).length < pathSize) : x.command buf arg = some (x.execv (binPath ws) ws) := by
  rcases arg with _ | ⟨_ | p, cells⟩
  · cases h
  · exact absurd (Option.some.inj h).symm hne
  · have hargv := h
    simp only [argv, Option.bind_eq_bind, Option.bind_eq_some_iff, Option.pure_def, Option.some.injEq] at h
    obtain ⟨w, hw, ws', -, rfl⟩ := h
    unfold Host.command
    simp only [List.head?_cons, Option.join_some, hw, hargv, Option.bind_eq_bind, Option.bind_some]
    exact if_pos hpath

/-- The words on both sides are the two commands. -/
theorem Host.pipeJob_eq (h : CommandLine pre post) (hblank : pre.getLast? = some ' ' ∧ post.head? = some ' ')
    (hpre : (binPath (splitText ' ' pre)).length < pathSize)
    (hpost : (binPath (splitText ' ' post)).length < pathSize) (harg : arg.length = maxArgs)
    (harg2 : arg2.length = maxArgs) :
    x.pipeJob (pre ++ '|' :: post ++ ['\n']) rest arg arg2 = some { x with
      program := fun i => if i = .left then x.execv (binPath (splitText ' ' pre)) (splitText ' ' pre)
        else x.execv (binPath (splitText ' ' post)) (splitText ' ' post) } := by
  obtain ⟨buf, htext, hrun⟩ := h.tokenise_eq .pipe rest arg arg2
  obtain ⟨hfront, hback⟩ := (h.words_iff .pipe).mpr hblank
  have hfits : (frontWords Operator.pipe.char (pre ++ Operator.pipe.char :: post)).length < arg.length := by
    rw [hfront, harg]
    exact h.pre_length
  have hfits2 : (backWords Operator.pipe.char (pre ++ Operator.pipe.char :: post)).length < arg2.length := by
    rw [hback, harg2]
    exact h.post_length
  obtain ⟨buf', arg', arg2', hmake, hleft, hright⟩ := makeTokens_fits htext hfits hfits2
  rw [hfront] at hleft
  rw [hback] at hright
  rw [hmake] at hrun
  have hline : tokenise (pre ++ '|' :: post ++ ['\n']) rest arg arg2 = some (.split .pipe buf' arg' arg2') := hrun
  unfold Host.pipeJob
  simp only [hline, Option.bind_eq_bind, Option.bind_some, Host.command_eq hleft h.pre_words hpre,
    Host.command_eq hright h.post_words hpost]
  rfl

/-- **A line with `|` computes the composition of its commands.** However the steps of the shell and of the
children are ordered there are not many of them, and they can always go on to the end: the shell is at the
prompt with its descriptors, both children have exited, and what was added to the output is what the command
behind `|` computes of what the one in front of it computes of the input. -/
theorem pipe_line (h : CommandLine pre post) (hblank : pre.getLast? = some ' ' ∧ post.head? = some ' ')
    (hpre : (binPath (splitText ' ' pre)).length < pathSize)
    (hpost : (binPath (splitText ' ' post)).length < pathSize) (harg : arg.length = maxArgs)
    (harg2 : arg2.length = maxArgs) (hcapacity : 0 < x.capacity) {f g : List Char → List Char}
    {bf bg : List Char → Nat}
    (hf : Computes x.act (x.execv (binPath (splitText ' ' pre)) (splitText ' ' pre)) f bf)
    (hg : Computes x.act (x.execv (binPath (splitText ' ' post)) (splitText ' ' post)) g bg) :
    ∃ y, x.pipeJob (pre ++ '|' :: post ++ ['\n']) rest arg arg2 = some y ∧ y.toHost = x ∧
      ∀ input output es s, Run y.Step (y.init input output) es s →
        es.length ≤ bf input + bg (f input) + 14 ∧ (∃ es' s', Run y.Step s es' s' ∧ y.Done s') ∧
          (Final y.Step s → y.Done s) ∧ (y.Done s → s.output = output ++ g (f input)) := by
  refine ⟨_, Host.pipeJob_eq h hblank hpre hpost harg harg2, rfl, ?_⟩
  intro input output es s hrun
  refine ⟨Job.length_le hf hg hrun, Job.exists_done hcapacity hf hg hrun, fun hfinal => ?_,
    Job.output_eq hf hg hrun⟩
  obtain ⟨es', s', hrun', hdone⟩ := Job.exists_done hcapacity hf hg hrun
  -- a run that has stopped is the whole run
  rcases es' with _ | ⟨e, es'⟩
  · rw [run_nil_iff] at hrun'
    exact hrun' ▸ hdone
  · obtain ⟨s₁, hstep, -⟩ := run_cons_iff.mp hrun'
    exact absurd hstep (hfinal e s₁)

end line

/-- The descriptors of a shell that was just started. -/
def standardTable : Table Desc where
  get k := [Desc.other 0, .other 1, .other 2][k]?
  bounded := ⟨3, fun _ hk => List.getElem?_eq_none hk⟩

/-- None of them is an end of a pipe. -/
theorem standardTable_all (d : Desc) (h : d ∉ [Desc.other 0, .other 1, .other 2]) :
    standardTable.All (· ≠ d) := by
  rintro n d' hd rfl
  unfold Table.at? at hd
  split_ifs at hd
  exact h (List.mem_of_getElem? hd)

/-- `echo` writes its arguments, and every other command copies its input; a pipe holds one byte. -/
def echoHost : Host (List Char × Bool) where
  act := copyAct 4096 (Nat.succ_pos 4095)
  execv path ws := if path = "/bin/echo".toList then (ws.tail.flatten, false) else ([], true)
  capacity := 1
  table := standardTable
  stdin := rfl
  stdout := rfl
  noRead := standardTable_all _ (by decide)
  noWrite := standardTable_all _ (by decide)

/-- `echo hi | cat` -/
theorem commandLine_echo_cat : CommandLine "echo hi ".toList " cat".toList where
  pre_plain := ⟨by decide, fun op => by cases op <;> decide⟩
  post_plain := ⟨by decide, fun op => by cases op <;> decide⟩
  pre_words := by decide
  post_words := by decide
  pre_length := by decide
  post_length := by decide

/-- Every run of it adds `hi` to the output. -/
theorem pipe_line_echo_cat : ∃ y, echoHost.pipeJob ("echo hi ".toList ++ '|' :: " cat".toList ++ ['\n']) []
      (List.replicate 128 none) (List.replicate 128 none) = some y ∧ y.toHost = echoHost ∧
    ∀ input output es s, Run y.Step (y.init input output) es s →
      es.length ≤ 2 + 5 + 14 ∧ (∃ es' s', Run y.Step s es' s' ∧ y.Done s') ∧ (Final y.Step s → y.Done s) ∧
        (y.Done s → s.output = output ++ ['h', 'i']) := by
  have hf : Computes echoHost.act (['h', 'i'], false) (fun _ => ['h', 'i']) fun _ => 2 :=
    computes_copy ['h', 'i'] false
  have hg : Computes echoHost.act ([], true) (fun xs => xs) fun xs => 0 + (2 * xs.length + 1) :=
    computes_copy [] true
  exact pipe_line commandLine_echo_cat (by decide) (by decide) (by decide) List.length_replicate
    List.length_replicate Nat.one_pos hf hg

end SystemProgrammingLab.Week9
