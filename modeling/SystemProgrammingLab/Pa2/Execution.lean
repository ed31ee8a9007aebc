import SystemProgrammingLab.Found.Streams
import SystemProgrammingLab.Pa2.Cp
import SystemProgrammingLab.Pa2.Redirect

/-!
# Executing a command line

The shell forks a child for each command and waits for it. The child sets its descriptors, opens the files of
the redirections, and calls `execv`; when a file cannot be opened, when the command is a builtin or when `execv`
returns, it ends with `exit(1)`, which writes what the child got of the buffer of the shell's standard output.

`Task.Step` is a statement of the shell, the start of a child, or what its program does: `read` and `write` go
where the table of the child says. A pipe that is full makes its writer wait, one that is empty makes its reader
wait as long as somebody can write to it.

`read` returns what is asked for or less, `write` is taken byte by byte. What the programs do besides reading
their standard input and writing their standard output is left out, such as the files that they change; a
program may depend on what the files contain when it is executed. `pipe`, `fork` and `dup` do not fail, and
nobody sends a signal.

Source: `pa2/main.c`
-/

namespace SystemProgrammingLab.Pa2

open SystemProgrammingLab.Found

/-! ## Programs -/

/-- What a child does behind the redirections: a program, or `exit(1)` with the text that is to be written.
Source: `main`, the child -/
inductive Proc (σ : Type)
  | program (p : σ)
  | leaving (text : List UInt8)

/-- What a child does next. -/
def Proc.act {σ : Type} (act : σ → Act σ UInt8) : Proc σ → Act (Proc σ) UInt8
  | .program p => (act p).map .program
  | .leaving (b :: text) => .write b (.leaving text)
  | .leaving [] => .exit

/-- The system: what a program does; what `execv` makes of a path, arguments and files, `none` when it returns;
how many bytes a pipe holds; the names of the files. `directory` is `DIRECTORY`, and `buffered` what is in the
buffer of the shell's standard output when it forks. -/
structure Host (φ σ : Type) where
  act : σ → Act σ UInt8
  execv : Text → List Text → FileSystem φ UInt8 → Option σ
  capacity : Nat
  paths : Paths φ
  directory : Text
  buffered : List UInt8

/-- The bytes of a text. -/
def bytesOf (s : Text) : List UInt8 := s.map Char.toUInt8

section launch

variable {φ σ : Type} (h : Host φ σ)

/-- The path for `execv`. Source: `main`, the child -/
def Host.path (type : CommandType) (name : Text) : Option Text :=
  match type with
  | .implement => some (h.directory ++ '/' :: name)
  | .executable => some ("/bin/".toList ++ name)
  | .path => some name
  | .builtin | .unknown => none

/-- The size of the array for the path. Source: `main`, the child -/
abbrev pathSize : Nat := 4096

/-- The path of the command fits into its array, with its NUL. -/
def Host.PathFits (type : CommandType) (name : Text) : Prop :=
  ∀ path ∈ h.path type name, path.length < pathSize

/-- Execute a command, whose path fits. Source: the `switch` of `main` -/
def Host.launch (type : CommandType) (args : List Text) (files : FileSystem φ UInt8) : Proc σ :=
  match (h.path type (args.headD [])).bind fun path => h.execv path args files with
  | some p => .program p
  | none =>
      .leaving (h.buffered ++ if type = .unknown then bytesOf "mini: command not found\n".toList else [])

end launch

/-! ## Files -/

section opening

variable {φ : Type*} [DecidableEq φ] (w : Paths φ) (fs : FileSystem φ UInt8)

/-- `open(path, O_WRONLY | O_CREAT | O_APPEND, 0644)`, with the files afterwards. Source: `main`, the child -/
def openAppend (path : Text) : Except Int (Opened φ) × FileSystem φ UInt8 :=
  match w.writeError path with
  | some e => (.error e, fs)
  | none =>
      (.ok ⟨w.fileOf path, 0⟩, Function.update fs (w.fileOf path) (some ((fs (w.fileOf path)).getD [])))

/-- Write a byte to a file that was opened for a redirection; an `append` writes at the end. -/
def writeByte (k : Redirection) (d : Opened φ) (b : UInt8) : FileSystem φ UInt8 × Opened φ :=
  (if k = .append then { d with offset := (d.bytes fs).length } else d).write fs [b]

end opening

/-! ## Children -/

/-- How far a child comes with the files of its redirections. Source: `main`, the child -/
inductive Opening (φ : Type)
  | inputFails
  | outputFails (fdIn : Option (Opened φ))
  | opened (fdIn fdOut : Option (Opened φ))

namespace Opening

variable {φ : Type}

/-- The open file in the place of the standard input. -/
def fdIn : Opening φ → Option (Opened φ)
  | .inputFails => none
  | .outputFails fdIn | .opened fdIn _ => fdIn

/-- The open file in the place of the standard output. -/
def fdOut : Opening φ → Option (Opened φ)
  | .inputFails | .outputFails _ => none
  | .opened _ fdOut => fdOut

/-- The redirections that were made. -/
def made (r : Files) : Opening φ → Files
  | .inputFails => ⟨none, none, none⟩
  | .outputFails _ => ⟨r.redirectIn, none, none⟩
  | .opened _ _ => r

end Opening

/-- A child with the table it was forked with, or with what it does, its table and its open files. One that has
exited has no descriptors. -/
inductive Running (φ σ : Type)
  | none
  | forked (shell : Shell)
  | running (p : Proc σ) (table : Table Desc) (fdIn fdOut : Option (Opened φ))
  | gone

/-- The descriptors of a child. -/
def Running.table? {φ σ : Type} : Running φ σ → Option (Table Desc)
  | .forked s => some s.table
  | .running _ t _ _ => some t
  | .none | .gone => Option.none

/-- Where the shell is in the loop over the commands. Source: `main`, the loop over the commands -/
inductive Round
  | fork (i : Nat)
  | wait (i : Nat)
  | done

/-- The files, what is still to be read from the standard input of the shell, and what was written to its
standard output. -/
structure World (φ : Type) where
  files : FileSystem φ UInt8
  input : List UInt8
  screen : List UInt8

/-- The shell, the children, and the contents of the pipes. -/
structure Machine (φ σ : Type) extends World φ where
  shell : Shell
  round : Round
  child : Nat → Running φ σ
  pipe : Nat → List UInt8

namespace Machine

variable {φ σ : Type} (s : Machine φ σ)

/-- A child changes. -/
def setChild (i : Nat) (c : Running φ σ) : Machine φ σ := { s with child := Function.update s.child i c }

/-- What is in a pipe changes. -/
def setPipe (id : Nat) (bs : List UInt8) : Machine φ σ := { s with pipe := Function.update s.pipe id bs }

/-- No process has this descriptor. -/
def NoHolder (d : Desc) : Prop :=
  s.shell.table.All (· ≠ d) ∧ ∀ j t, (s.child j).table? = some t → t.All (· ≠ d)

end Machine

/-! ## Tasks -/

/-- A parsed line in front of the loop over its commands, which have a type and arguments. -/
structure Task (φ σ : Type) extends Host φ σ where
  prompt : Prompt
  commands : List (CommandType × List Text)
  files : Files

/-- What happens. -/
inductive Happening
  | fork
  | start (i : Nat)
  | io (i : Nat) (io : Io UInt8)
  | exit (i : Nat)
  | killed (i : Nat)
  | wait

namespace Task

variable {φ σ : Type} [DecidableEq φ] (x : Task φ σ)

/-- The number of commands. -/
def num : Nat := x.commands.length

/-- The shell in front of the loop. -/
def first : Shell := { x.prompt.toShell with fd1 := (-1, -1), fd2 := (-1, -1) }

/-- The first child opens the input file. Source: `main`, the child -/
def openInput (i : Nat) (fs : FileSystem φ UInt8) : Except Int (Option (Opened φ)) :=
  match x.files.redirectIn with
  | some name => if i = 0 then (openRead x.paths fs name).map some else .ok none
  | none => .ok none

/-- The last child opens the output file. Source: `main`, the child -/
def openOutput (i : Nat) (fs : FileSystem φ UInt8) : Except Int (Option (Opened φ)) × FileSystem φ UInt8 :=
  if i = x.num - 1 then
    match x.files.redirectOut, x.files.redirectOutAppend with
    | some name, _ => ((openTrunc x.paths fs name).1.map some, (openTrunc x.paths fs name).2)
    | none, some name => ((openAppend x.paths fs name).1.map some, (openAppend x.paths fs name).2)
    | none, none => (.ok none, fs)
  else (.ok none, fs)

/-- The files of child `i`, and all the files afterwards. Source: `main`, the child -/
def opening (i : Nat) (fs : FileSystem φ UInt8) : Opening φ × FileSystem φ UInt8 :=
  match x.openInput i fs with
  | .error _ => (.inputFails, fs)
  | .ok fdIn =>
      match x.openOutput i fs with
      | (.error _, fs') => (.outputFails fdIn, fs')
      | (.ok fdOut, fs') => (.opened fdIn fdOut, fs')

/-- What child `i` does when the files are these. Source: `main`, the child -/
def proc (i : Nat) (fs : FileSystem φ UInt8) : Proc σ :=
  match x.opening i fs with
  | (.opened _ _, fs') => (x.commands[i]?).elim (.leaving x.buffered) fun c => x.launch c.1 c.2 fs'
  | (.inputFails, _) | (.outputFails _, _) => .leaving x.buffered

/-- Child `i` behind its redirections. Source: `main`, the child -/
def started (i : Nat) (forked : Shell) (fs : FileSystem φ UInt8) : Running φ σ :=
  let o := (x.opening i fs).1
  .running (x.proc i fs) (childTable x.num i (o.made x.files) forked) o.fdIn o.fdOut

/-- If the redirections of child `i` are made, the path that it prints to its array fits. -/
def PathFits (i : Nat) (fs : FileSystem φ UInt8) : Prop :=
  ∀ fdIn fdOut, (x.opening i fs).1 = .opened fdIn fdOut →
    ∀ c ∈ x.commands[i]?, x.toHost.PathFits c.1 (c.2.headD [])

/-- In front of the loop. -/
def init (w : World φ) : Machine φ σ where
  toWorld := w
  shell := x.first
  round := if 0 < x.num then .fork 0 else .done
  child := fun _ => .none
  pipe := fun _ => []

/-- The descriptor is none of this line, and no file was put into its place. -/
def Inherited (d : Option Desc) (fd : Option (Opened φ)) : Prop :=
  fd = none ∧ ∀ e ∈ d, ∀ id ∈ e.pipe?, id < x.prompt.pipes

/-- One step of the shell or of a child. The pipes of the line are numbered from `prompt.pipes` on. A child
that prints a path behind the end of its array is undefined, and has no step. Source: `main` -/
inductive Step : Machine φ σ → Happening → Machine φ σ → Prop
  | fork {s : Machine φ σ} {i : Nat} (hround : s.round = .fork i) :
      Step s .fork { s.setChild i (.forked (prepare i s.shell)) with
        shell := prepare i s.shell, round := .wait i }
  | start {s : Machine φ σ} {i : Nat} {shell : Shell} (hi : s.child i = .forked shell)
      (hfits : x.PathFits i s.files) :
      Step s (.start i) { s.setChild i (x.started i shell s.files) with files := (x.opening i s.files).2 }
  | readPipe {s : Machine φ σ} {i id : Nat} {p p' : Proc σ} {t : Table Desc} {fdIn fdOut : Option (Opened φ)}
      {io : Io UInt8} {rest : List UInt8} (hi : s.child i = .running p t fdIn fdOut)
      (hin : t.at? stdin = some (.readEnd id)) (hid : x.prompt.pipes ≤ id)
      (hio : OnInput (Proc.act x.act) (p, s.pipe id) io (p', rest)) (hread : io.written? = none)
      (heof : s.pipe id = [] → s.NoHolder (.writeEnd id)) :
      Step s (.io i io) ((s.setChild i (.running p' t fdIn fdOut)).setPipe id rest)
  | readFile {s : Machine φ σ} {i : Nat} {p p' : Proc σ} {t : Table Desc} {fdOut : Option (Opened φ)}
      {d : Opened φ} {name : Text} {io : Io UInt8} {rest : List UInt8}
      (hi : s.child i = .running p t (some d) fdOut) (hin : t.at? stdin = some (.file .input name))
      (hio : OnInput (Proc.act x.act) (p, (d.bytes s.files).drop d.offset) io (p', rest))
      (hread : io.written? = none) :
      Step s (.io i io)
        (s.setChild i (.running p' t (some { d with offset := d.offset + io.taken.length }) fdOut))
  | readInherited {s : Machine φ σ} {i : Nat} {p p' : Proc σ} {t : Table Desc}
      {fdIn fdOut : Option (Opened φ)} {io : Io UInt8} {rest : List UInt8}
      (hi : s.child i = .running p t fdIn fdOut) (hin : x.Inherited (t.at? stdin) fdIn)
      (hio : OnInput (Proc.act x.act) (p, s.input) io (p', rest)) (hread : io.written? = none) :
      Step s (.io i io) { s.setChild i (.running p' t fdIn fdOut) with input := rest }
  | writePipe {s : Machine φ σ} {i id : Nat} {p p' : Proc σ} {t : Table Desc} {fdIn fdOut : Option (Opened φ)}
      {b : UInt8} (hi : s.child i = .running p t fdIn fdOut) (hout : t.at? stdout = some (.writeEnd id))
      (hid : x.prompt.pipes ≤ id) (hact : Proc.act x.act p = .write b p')
      (hroom : (s.pipe id).length < x.capacity) (hsome : ¬ s.NoHolder (.readEnd id)) :
      Step s (.io i (.write b)) ((s.setChild i (.running p' t fdIn fdOut)).setPipe id (s.pipe id ++ [b]))
  | writeFile {s : Machine φ σ} {i : Nat} {p p' : Proc σ} {t : Table Desc} {fdIn : Option (Opened φ)}
      {d : Opened φ} {k : Redirection} {name : Text} {b : UInt8}
      (hi : s.child i = .running p t fdIn (some d)) (hout : t.at? stdout = some (.file k name))
      (hact : Proc.act x.act p = .write b p') :
      Step s (.io i (.write b))
        { s.setChild i (.running p' t fdIn (some (writeByte s.files k d b).2)) with
          files := (writeByte s.files k d b).1 }
  | writeInherited {s : Machine φ σ} {i : Nat} {p p' : Proc σ} {t : Table Desc}
      {fdIn fdOut : Option (Opened φ)} {b : UInt8} (hi : s.child i = .running p t fdIn fdOut)
      (hout : x.Inherited (t.at? stdout) fdOut) (hact : Proc.act x.act p = .write b p') :
      Step s (.io i (.write b))
        { s.setChild i (.running p' t fdIn fdOut) with screen := s.screen ++ [b] }
  | killed {s : Machine φ σ} {i id : Nat} {p p' : Proc σ} {t : Table Desc} {fdIn fdOut : Option (Opened φ)}
      {b : UInt8} (hi : s.child i = .running p t fdIn fdOut) (hout : t.at? stdout = some (.writeEnd id))
      (hid : x.prompt.pipes ≤ id) (hact : Proc.act x.act p = .write b p') (hnone : s.NoHolder (.readEnd id)) :
      Step s (.killed i) (s.setChild i .gone)
  | exit {s : Machine φ σ} {i : Nat} {p : Proc σ} {t : Table Desc} {fdIn fdOut : Option (Opened φ)}
      (hi : s.child i = .running p t fdIn fdOut) (hact : Proc.act x.act p = .exit) :
      Step s (.exit i) (s.setChild i .gone)
  | wait {s : Machine φ σ} {i : Nat} (hround : s.round = .wait i) (hgone : s.child i = .gone) :
      Step s .wait { s with
        shell := if i + 1 < x.num then cleanUp x.num i s.shell else finish (cleanUp x.num i s.shell)
        round := if i + 1 < x.num then .fork (i + 1) else .done }

end Task

/-! ## Lines -/

/-- The type of each command, and its arguments in front of the `NULL`. -/
def Parsed.calls (q : Parsed) : Option (List (CommandType × List Text)) := do
  let argvs ← q.argvs.mapM fun (args : List (Option (Option Text))) => (args.filterMap id).mapM id
  return (q.commands.map Command.type).zip argvs

/-- The task that `main` makes of a line, unless it is a builtin or a command is unknown. Source: `main` -/
def Host.task? {φ σ : Type} (h : Host φ σ) (prompt : Prompt) (cmd : List Char) : Option (Task φ σ) := do
  let q ← parseLine cmd
  let name ← q.name
  if name = "exit".toList then none
  else if name = "cd".toList then none
  else if .unknown ∈ q.commands.map Command.type then none
  else do
    let commands ← q.calls
    let files ← q.files
    return { h with prompt := prompt, commands := commands, files := files }

end SystemProgrammingLab.Pa2
