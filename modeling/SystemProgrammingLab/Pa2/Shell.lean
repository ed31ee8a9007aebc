import SystemProgrammingLab.Found.Descriptors
import SystemProgrammingLab.Pa2.Parse

/-!
# Running a pipeline

For each command `main` copies its standard input and output, makes a pipe, forks, and waits for the
child; the two arrays for the ends of the pipes are used in turn. The child puts the ends of two
pipes into the place of its standard input and output, then the files of the redirections, and
executes the command.

What the processes do to their tables of descriptors is all that is here: `childTable` is the table of
a child when it executes its command, and `pipeline` is the run of a line, with the tables of the
processes that are alive each time a child executes.

Source: `pa2/main.c`
-/

namespace SystemProgrammingLab.Pa2

open SystemProgrammingLab.Found

/-! ## Processes -/

/-- What a descriptor denotes: something that was open before, an end of the pipe number `id`, or a
file that was opened for a redirection. -/
inductive Desc
  | other (k : Nat)
  | readEnd (id : Nat)
  | writeEnd (id : Nat)
  | file (i : Redirection) (name : Text)
  deriving DecidableEq

/-- The number of the pipe that a descriptor is an end of. -/
def Desc.pipe? : Desc → Option Nat
  | .readEnd id => some id
  | .writeEnd id => some id
  | .other _ => none
  | .file _ _ => none

/-- The table of the shell with the variables of `main`; `pipes` is the number of pipes that were made so far.
Source: `main` -/
structure Shell where
  table : Table Desc
  pipes : Nat
  stdinCopy : Int
  stdoutCopy : Int
  fd1 : Int × Int
  fd2 : Int × Int

/-- The names in `redirect_in`, `redirect_out` and `redirect_out_append`. Source: `main` -/
structure Files where
  redirectIn : Option Text
  redirectOut : Option Text
  redirectOutAppend : Option Text

/-- `STDIN_FILENO` -/
abbrev stdin : Nat := 0

/-- `STDOUT_FILENO` -/
abbrev stdout : Nat := 1

/-! ## The child -/

/-- Set the pipes. Source: `main`, the child -/
def childPipes (num i : Nat) (s : Shell) : Table Desc :=
  let t := s.table
  let t :=
    if i ≠ 0 then
      if i % 2 = 1 then (t.dup2 s.fd1.1 stdin).close s.fd1.1
      else (t.dup2 s.fd2.1 stdin).close s.fd2.1
    else t
  if num ≠ 1 ∧ i ≠ num - 1 then
    if i % 2 = 1 then (t.dup2 s.fd2.2 stdout).close s.fd2.2
    else (t.dup2 s.fd1.2 stdout).close s.fd1.2
  else t

/-- Set the input file, in the first child. Source: `main`, the child -/
def childInput (i : Nat) (r : Files) (t : Table Desc) : Table Desc :=
  if i = 0 then
    match r.redirectIn with
    | some name => t.redirect (.file .input name) stdin
    | none => t
  else t

/-- Set the output file, in the last child. Source: `main`, the child -/
def childOutput (num i : Nat) (r : Files) (t : Table Desc) : Table Desc :=
  if i = num - 1 then
    match r.redirectOut, r.redirectOutAppend with
    | some name, _ => t.redirect (.file .output name) stdout
    | none, some name => t.redirect (.file .append name) stdout
    | none, none => t
  else t

/-- The table of child `i` of `num` when it executes its command, with `s` the shell that forked. Source:
`main`, the child -/
def childTable (num i : Nat) (r : Files) (s : Shell) : Table Desc :=
  childOutput num i r (childInput i r (childPipes num i s))

/-! ## The shell -/

/-- Before `fork`: the copies, and the pipe. Source: `main`, the loop over the commands -/
def prepare (i : Nat) (s : Shell) : Shell :=
  let (stdinCopy, t) := s.table.dup stdin
  let (stdoutCopy, t) := t.dup stdout
  let (fd, t) := t.pipe (.readEnd s.pipes) (.writeEnd s.pipes)
  if i % 2 = 1 then ⟨t, s.pipes + 1, stdinCopy, stdoutCopy, s.fd1, fd⟩
  else ⟨t, s.pipes + 1, stdinCopy, stdoutCopy, fd, s.fd2⟩

/-- Bring back standard input and output. Source: `main`, the loop over the commands -/
def bringBack (s : Shell) : Shell :=
  { s with table := (s.table.dup2 s.stdinCopy stdin).dup2 s.stdoutCopy stdout }

/-- After `waitpid`. Source: `main`, the loop over the commands -/
def cleanUp (num i : Nat) (s : Shell) : Shell :=
  let s := bringBack s
  let t := s.table
  let t :=
    if i ≠ 0 then
      if i % 2 = 1 then t.close s.fd1.1 else t.close s.fd2.1
    else t
  let t :=
    if num ≠ 1 ∧ i ≠ num - 1 then
      if i % 2 = 1 then t.close s.fd2.2 else t.close s.fd1.2
    else t
  { s with table := t }

/-- The moment when a child executes its command: its table and the one of the shell, and the number
of the pipe that was made for it. -/
structure Exec where
  child : Table Desc
  shell : Table Desc
  pipe : Nat

/-- The tables of the processes that are alive: the children before have exited. -/
def Exec.live (e : Exec) : List (Table Desc) := [e.shell, e.child]

/-- The rounds of the loop from `i` on, `k` of them. Source: `main`, the loop over the commands -/
def rounds (num : Nat) (r : Files) : Nat → Nat → Shell → List Exec × Shell
  | 0, _, s => ([], s)
  | k + 1, i, s =>
      let forked := prepare i s
      let (execs, last) := rounds num r k (i + 1) (cleanUp num i forked)
      (⟨childTable num i r forked, forked.table, s.pipes⟩ :: execs, last)

/-- Close the pipes, and bring back standard input and output. Source: `main` -/
def finish (s : Shell) : Shell :=
  bringBack { s with
    table := (((s.table.close s.fd1.1).close s.fd1.2).close s.fd2.1).close s.fd2.2 }

/-- A pipeline of `num` commands. Source: `main` -/
def pipeline (num : Nat) (r : Files) (s : Shell) : List Exec × Shell :=
  let (execs, last) := rounds num r num 0 { s with fd1 := (-1, -1), fd2 := (-1, -1) }
  (execs, finish last)

/-- The shell at the prompt: descriptors 0, 1 and 2 are open, and the pipes are behind it. Source: `main` -/
structure Prompt extends Shell where
  open0 : table.get 0 ≠ none
  open1 : table.get 1 ≠ none
  open2 : table.get 2 ≠ none
  behind : ∀ k d id, table.get k = some d → d.pipe? = some id → id < pipes

/-- The first prompt: three descriptors, and the copies `main` starts with. -/
def Prompt.first : Prompt where
  table.get k := [Desc.other 0, .other 1, .other 2, .other 0, .other 1][k]?
  table.bounded := ⟨5, fun _ hk => List.getElem?_eq_none hk⟩
  pipes := 0
  stdinCopy := 3
  stdoutCopy := 4
  fd1 := (-1, -1)
  fd2 := (-1, -1)
  open0 := Option.some_ne_none _
  open1 := Option.some_ne_none _
  open2 := Option.some_ne_none _
  behind := by
    intro k d id h hid
    have hmem := List.mem_of_getElem? h
    simp only [List.mem_cons, List.not_mem_nil, or_false] at hmem
    rcases hmem with rfl | rfl | rfl | rfl | rfl <;> cases hid

/-! ## A line -/

/-- `args[0]` of the first command. -/
def Parsed.name (q : Parsed) : Option Text := (q.argvs.head?.bind List.head?).join.join

/-- The names behind the three pointers. -/
def Parsed.files (q : Parsed) : Option Files := do
  let redirectIn ← (q.redirects.get .input).mapM q.text
  let redirectOut ← (q.redirects.get .output).mapM q.text
  let redirectOutAppend ← (q.redirects.get .append).mapM q.text
  return ⟨redirectIn, redirectOut, redirectOutAppend⟩

/-- What `main` does with a line. Source: `main` -/
inductive LineResult
  | exit
  | cd
  | notFound
  | run (execs : List Exec) (shell : Shell)

/-- A line is parsed, and its commands are run unless one of them is unknown. A builtin that is not the
first command is run too: its child exits when the descriptors are set. Source: the loop of `main` -/
def runLine (cmd : List Char) (s : Shell) : Option LineResult := do
  let q ← parseLine cmd
  let name ← q.name
  if name = "exit".toList then return .exit
  else if name = "cd".toList then return .cd
  else if .unknown ∈ q.commands.map Command.type then return .notFound
  else do
    let r ← q.files
    let (execs, last) := pipeline q.commands.length r s
    return .run execs last

end SystemProgrammingLab.Pa2
