import SystemProgrammingLab.Found.Run

/-!
# The file transfer

The client sends the name of a file, waits for an acknowledgment, and sends the content and a NUL. The
server reads a name, acknowledges it, and reads data into the copy until a read ends in a NUL.

Both sides and the bytes in flight are one system. TCP keeps the order of the bytes and nothing else,
so a read takes any number of the bytes that have arrived, up to the size of its buffer. Files are
opened and written without an error, and `taken` and `copies` remember what the server has read and
which files it has closed.

Source: `week11/client.c`, `week11/server.c`
-/

namespace SystemProgrammingLab.Week11

open SystemProgrammingLab.Found

/-- `MAXFILENAME`. Source: `client.c`, `server.c` -/
abbrev maxFileName : Nat := 50

/-- `MAXFILEDATA`. Source: `client.c`, `server.c` -/
abbrev maxFileData : Nat := 200000

/-- What is sent over the socket. -/
abbrev Bytes := List UInt8

/-- A file of the client, with the name that was entered for it. -/
structure File where
  name : Bytes
  content : Bytes
  name_ne_nil : name ≠ []
  name_lt : name.length < maxFileName
  nul_notMem : 0 ∉ name
  content_le : content.length ≤ maxFileData

/-- `"_copy"`. Source: `server.c` -/
def copySuffix : Bytes := [95, 99, 111, 112, 121]

/-- `"ACK"`. Source: `server.c` -/
def ack : Bytes := [65, 67, 75]

/-! ## The two sides -/

/-- Where the client is, with the files that will still be entered before `quit`. Source: `client.c`, `main` -/
inductive Client
  | prompt (rest : List File)
  | readAck (f : File) (rest : List File)
  | sendData (f : File) (rest : List File)
  | sendEnd (f : File) (rest : List File)
  | closed

/-- Where the server is. While it receives data it has the name of the copy, what was written to it, and
`data_len`. Source: `server.c`, `main` -/
inductive Server
  | filename
  | data (copy written : Bytes) (dataLen : Nat)
  | closed
  | undefined

/-- The client, the socket and the server. -/
structure System where
  client : Client
  server : Server
  toServer : Bytes
  toClient : Bytes
  taken : Bytes
  copies : List (Bytes × Bytes)

/-- The connection is accepted. -/
def System.init (files : List File) : System := ⟨.prompt files, .filename, [], [], [], []⟩

/-- A step of the client or of the server. -/
inductive Action
  | sendName
  | readAck (n : Nat)
  | sendData
  | sendEnd
  | quit
  | read (n : Nat)
  | readEof

/-- The number of bytes that a read of the server returns. -/
def Action.read? : Action → Option Nat
  | .read n => some n
  | _ => none

/-- The string in `filename_copy`. Source: `server.c`, `main` -/
def filenameCopy (buffer : Bytes) : Bytes := buffer.takeWhile (· ≠ 0) ++ copySuffix

/-- A name is received, and acknowledged. The NUL goes behind it, which is outside of the buffer when the buffer
is full. Source: `server.c`, `main` -/
def System.readName (s : System) (bytes : Bytes) : System :=
  if bytes.length < maxFileName then
    { s with server := .data (filenameCopy bytes) [] 0, toClient := s.toClient ++ ack }
  else { s with server := .undefined }

/-- The copy is closed. Source: `server.c`, `main` -/
def System.closeCopy (s : System) (copy written : Bytes) (dataLen : Nat) : System :=
  { s with
    server := if dataLen = 0 then .closed else .filename
    copies := s.copies ++ [(copy, written)] }

/-- Data is received; a NUL at its end is the end of the file. Source: `server.c`, `main` -/
def System.readData (s : System) (copy written : Bytes) (dataLen : Nat) (bytes : Bytes) : System :=
  if bytes.getLast? = some 0 then
    s.closeCopy copy (written ++ bytes.dropLast) (dataLen + bytes.length)
  else { s with server := .data copy (written ++ bytes) (dataLen + bytes.length) }

/-- The server has taken `n` bytes from the connection. -/
def System.take (s : System) (n : Nat) : System :=
  { s with toServer := s.toServer.drop n, taken := s.taken ++ s.toServer.take n }

/-- A read of the server that returns `n` bytes. -/
def System.read (s : System) (n : Nat) : Option System :=
  match s.server with
  | .filename =>
      if n ≤ maxFileName then some ((s.take n).readName (s.toServer.take n)) else none
  | .data copy written dataLen =>
      if n ≤ maxFileData then
        some ((s.take n).readData copy written dataLen (s.toServer.take n))
      else none
  | .closed => none
  | .undefined => none

/-- A read of the server that returns 0. Source: `server.c`, `main` -/
def System.readEof (s : System) : Option System :=
  match s.server with
  | .filename => some { s with server := .closed }
  | .data copy written dataLen => some (s.closeCopy copy written dataLen)
  | .closed => none
  | .undefined => none

/-- One step, if it can be done. Source: `client.c`, `server.c`, `main` -/
def step (s : System) : Action → Option System
  | .sendName =>
      match s.client with
      | .prompt (f :: rest) =>
          some { s with client := .readAck f rest, toServer := s.toServer ++ f.name }
      | _ => none
  | .readAck n =>
      match s.client with
      | .readAck f rest =>
          if 0 < n ∧ n ≤ 3 ∧ n ≤ s.toClient.length then
            some { s with client := .sendData f rest, toClient := s.toClient.drop n }
          else none
      | _ => none
  | .sendData =>
      match s.client with
      | .sendData f rest =>
          some { s with
            client := .sendEnd f rest
            toServer := s.toServer ++ f.content.take maxFileData }
      | _ => none
  | .sendEnd =>
      match s.client with
      | .sendEnd _ rest => some { s with client := .prompt rest, toServer := s.toServer ++ [0] }
      | _ => none
  | .quit =>
      match s.client with
      | .prompt [] => some { s with client := .closed }
      | _ => none
  | .read n => if 0 < n ∧ n ≤ s.toServer.length then s.read n else none
  | .readEof =>
      match s.client, s.toServer with
      | .closed, [] => s.readEof
      | _, _ => none

/-- The steps of both sides, in any order. -/
def Step (s : System) (a : Action) (s' : System) : Prop := step s a = some s'

end SystemProgrammingLab.Week11
