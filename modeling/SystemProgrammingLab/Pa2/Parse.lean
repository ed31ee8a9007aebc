import Mathlib.Logic.Function.Basic
import SystemProgrammingLab.Found.CString

/-!
# Parsing a command line

`parse_pipelines` cuts the line at every `'|'` and copies each piece into the content of a node.
`parse_command` works inside of such a content: it writes a NUL over the blank before each
redirection and into the operator of the first one, keeps pointers to the file names, which are
strings in the same buffer, and cuts the words before the first redirection apart. The three
redirection pointers belong to `main`, which passes them from one command to the next.

A content is a buffer, and a pointer into it is the number of its node with an offset. `none` is
undefined behaviour: an index outside of a buffer, `args[200]`, or `args[0]` when it is `NULL`.

Source: `pa2/main.c`, `pa2/util.h`
-/

namespace SystemProgrammingLab.Pa2

open SystemProgrammingLab.Found

/-- The text of a string. -/
abbrev Text := List Char

/-! ## Commands and redirections -/

/-- The types of a command. Source: `TYPE` -/
inductive CommandType
  | executable
  | implement
  | builtin
  | path
  | unknown
  deriving DecidableEq

/-- Source: `EXECUTABLES` -/
def executables : List Text := ["ls", "man", "grep", "sort", "awk", "bc"].map String.toList

/-- Source: `IMPLEMENTED` -/
def implemented : List Text :=
  ["head", "tail", "cat", "cp", "mv", "rm", "pwd"].map String.toList

/-- Source: `BUILTINS` -/
def builtins : List Text := ["cd", "exit"].map String.toList

/-- The indices of `REDIRECTIONS`. Source: `main.c` -/
inductive Redirection
  | input
  | output
  | append
  deriving DecidableEq

/-- The operator of a redirection. Source: `main.c` -/
def Redirection.operator : Redirection → Text
  | .input => ['<']
  | .output => ['>']
  | .append => ['>', '>']

/-- Source: `REDIRECTIONS` -/
def Redirection.pattern (i : Redirection) : Text := ' ' :: (i.operator ++ [' '])

/-- A pointer into the content of a node. -/
structure NodePtr where
  node : Nat
  offset : Nat
  deriving DecidableEq

/-- `redirect_in`, `redirect_out` and `redirect_out_append` of `main`. Source: `main` -/
structure Redirects where
  redirectIn : Option NodePtr
  redirectOut : Option NodePtr
  redirectOutAppend : Option NodePtr

/-- The pointer of a redirection. -/
def Redirects.get (r : Redirects) : Redirection → Option NodePtr
  | .input => r.redirectIn
  | .output => r.redirectOut
  | .append => r.redirectOutAppend

/-- It is set. -/
def Redirects.set (r : Redirects) (i : Redirection) (p : NodePtr) : Redirects :=
  match i with
  | .input => { r with redirectIn := some p }
  | .output => { r with redirectOut := some p }
  | .append => { r with redirectOutAppend := some p }

/-- `args` are the cells that were written, the last one with `NULL`; a pointer is an offset into
the content of the command. Source: `Command` -/
structure Command where
  type : CommandType
  args : List (Option Nat)
  argNum : Nat

/-- The size of `args`. -/
def maxArgs : Nat := 200

/-! ## `parse_command` -/

/-- The variables of the loop over the redirections. Source: `parse_command` -/
structure Scan where
  cmd : List Char
  pos : Nat
  commandEnd : Option Nat
  redirects : Redirects

/-- Set the pointer to the file name at `file`, and cut a blank at its end. Source: `parse_command` -/
def setRedirect (node : Nat) (st : Scan) (i : Redirection) (file : Nat) :
    Option (List Char × Redirects) := do
  let len ← strlen st.cmd file
  let last ← readAt st.cmd ((file + len : Nat) - 1)
  let cmd ← if last = ' ' then writeAt st.cmd ((file + len : Nat) - 1) terminator else some st.cmd
  return (cmd, st.redirects.set i ⟨node, file⟩)

/-- One round of the loop over the redirections. Source: `parse_command` -/
def findRedirection (node : Nat) (st : Scan) (i : Redirection) : Option Scan :=
  (strstr st.cmd st.pos i.pattern).bind fun found =>
    match found with
    | none => some st
    | some pos =>
        (if st.redirects.get i = none then setRedirect node st i (pos + i.pattern.length)
          else some (st.cmd, st.redirects)).bind fun (cmd, redirects) =>
            (writeAt cmd (pos : Nat) terminator).map fun cmd =>
              ⟨cmd, pos + 1, some (st.commandEnd.getD (pos + 1)), redirects⟩

/-- `if (command_end != NULL) *command_end = '\0';`. Source: `parse_command` -/
def cutCommandEnd (st : Scan) : Option (List Char) :=
  match st.commandEnd with
  | some commandEnd => writeAt st.cmd (commandEnd : Nat) terminator
  | none => some st.cmd

/-- The type of a command with this name. Source: `parse_command` -/
def commandType (name : Text) : CommandType :=
  if name ∈ executables then .executable
  else if name ∈ implemented then .implement
  else if name ∈ builtins then .builtin
  else if name.head? = some '.' then .path
  else .unknown

/-- The command in the content of a node; the content and the redirections afterwards.
Source: `parse_command` -/
def parseCommand (node : Nat) (content : List Char) (redirects : Redirects) :
    Option (Command × List Char × Redirects) := do
  let st ← [Redirection.input, .output, .append].foldlM (findRedirection node)
    ⟨content, 0, none, redirects⟩
  let cmd ← cutCommandEnd st
  let (args, cmd) ← tokens ' ' cmd 0
  if args.length < maxArgs then do
    let name ← args.head?.bind (textAt cmd)
    return (⟨commandType name, args.map some ++ [none], args.length⟩, cmd, st.redirects)
  else none

/-! ## `parse_pipelines` -/

/-- The contents of the nodes. Source: the loop of `parse_pipelines` -/
def nodeContents (cmd : List Char) (o : Nat) : Option (List (List Char)) :=
  match h : strtok '|' cmd o with
  | none => none
  | some (none, _, _) => some []
  | some (some pos, cmd', next) =>
      have := strtok_progress h
      (readAt cmd' pos).bind fun c =>
        (textAt cmd' (if c = ' ' then pos + 1 else pos)).bind fun content =>
          (nodeContents cmd' next).map fun contents => (content ++ [terminator]) :: contents
termination_by cmd.length - o
decreasing_by exact this

/-- An ampersand at the end of the line, behind a blank, is cut off with the blank. Source: `main` -/
def cutDaemon (cmd : List Char) : Option (List Char) := do
  let len ← strlen cmd 0
  let last ← readAt cmd ((len : Int) - 1)
  if last = '&' then do
    let before ← readAt cmd ((len : Int) - 2)
    if before = ' ' then writeAt cmd ((len : Int) - 2) terminator else some cmd
  else some cmd

/-- Source: `parse_pipelines` -/
def parsePipelines (cmd : List Char) : Option (List (List Char)) :=
  (cutDaemon cmd).bind fun cmd => nodeContents cmd 0

/-! ## The loop of `main` -/

/-- `pCommands` with the contents of the nodes, and the redirections. Source: `main` -/
structure Parsed where
  commands : List Command
  contents : List (List Char)
  redirects : Redirects

/-- Parse the commands from the node `node` on. Source: `main` -/
def parseCommands (node : Nat) : List (List Char) → Redirects → Option Parsed
  | [], redirects => some ⟨[], [], redirects⟩
  | content :: contents, redirects => do
      let (command, content, redirects) ← parseCommand node content redirects
      let p ← parseCommands (node + 1) contents redirects
      return ⟨command :: p.commands, content :: p.contents, p.redirects⟩

/-- Parse a line. Source: `main` -/
def parseLine (cmd : List Char) : Option Parsed :=
  (parsePipelines cmd).bind fun contents => parseCommands 0 contents ⟨none, none, none⟩

/-- The string at a pointer. -/
def Parsed.text (p : Parsed) (ptr : NodePtr) : Option Text :=
  p.contents[ptr.node]?.bind fun content => textAt content ptr.offset

/-- The strings in `args` of the commands; the inner `none` is `NULL`. -/
def Parsed.argvs (p : Parsed) : List (List (Option (Option Text))) :=
  p.commands.zipWith (fun command content => command.args.map (Option.map (textAt content))) p.contents

/-- The file name of a redirection. -/
def Parsed.file (p : Parsed) (i : Redirection) : Option (Option Text) :=
  (p.redirects.get i).map p.text

end SystemProgrammingLab.Pa2
