import SystemProgrammingLab.Pa2.Execution

/-!
# What a command line means

The commands of a line are run one behind the other, and each reads what the one in front has left in the pipe:
`outputs` is what they write when each program computes a function of its input. The first one reads the
standard input of the shell or the input file, and what the last one writes goes to the standard output of the
shell or behind what the output file contained when it was opened.

`Inv` is what holds in every state. While the shell waits for a child, that child has done what its program does
on its input by itself, and what it has written is in its pipe or its file (`Active`); as nobody reads the pipe
yet, an output that is longer than a pipe holds would make the child wait for ever.

Source: `pa2/main.c`
-/

namespace SystemProgrammingLab.Pa2

open SystemProgrammingLab.Found

/-! ## What a child computes -/

namespace Proc

variable {σ : Type} {act : σ → Act σ UInt8}

/-- What a child writes when the programs write `f`. -/
def value (f : σ → List UInt8 → List UInt8) : Proc σ → List UInt8 → List UInt8
  | .program p => f p
  | .leaving text => fun _ => text

/-- How many steps a child takes. -/
def bound (b : σ → List UInt8 → Nat) : Proc σ → List UInt8 → Nat
  | .program p => b p
  | .leaving text => fun _ => text.length

/-- A process that leaves with a text writes the text, whatever its input is. -/
theorem computes_leaving (text : List UInt8) :
    Computes (Proc.act act) (.leaving text) (fun _ => text) fun _ => text.length := by
  induction text with
  | nil => exact computes_exit rfl
  | cons b text ih => exact ih.of_write rfl

/-- A process computes its value, if its program computes. -/
theorem computes {f : σ → List UInt8 → List UInt8} {b : σ → List UInt8 → Nat} {q : Proc σ}
    (h : ∀ p, q = .program p → Computes act p (f p) (b p)) :
    Computes (Proc.act act) q (q.value f) (q.bound b) := by
  cases q with
  | program p => exact (h p rfl).map fun _ => rfl
  | leaving text => exact computes_leaving text

end Proc

/-! ## Writing at the end of a file -/

/-- A byte is added at the end of the file: the offset is the end, or the file is open to append. -/
theorem writeByte_eq {φ : Type*} [DecidableEq φ] {fs : FileSystem φ UInt8} {k : Redirection} {d : Opened φ}
    (h : k ≠ .append → d.offset = (d.bytes fs).length) (b : UInt8) :
    writeByte fs k d b =
      (Function.update fs d.file (some (d.bytes fs ++ [b])), ⟨d.file, (d.bytes fs).length + 1⟩) := by
  have hend : ∀ d' : Opened φ, d'.file = d.file → d'.offset = (d.bytes fs).length → d'.write fs [b] =
      (Function.update fs d.file (some (d.bytes fs ++ [b])), ⟨d.file, (d.bytes fs).length + 1⟩) := by
    rintro ⟨_, _⟩ rfl rfl
    exact Prod.ext (Opened.write_of_eq_length rfl [b]) rfl
  unfold writeByte
  split_ifs with hk
  · exact hend _ rfl rfl
  · exact hend _ rfl (h hk)

namespace Task

variable {φ σ : Type} [DecidableEq φ]

/-! ## The outputs -/

section outputs

variable (x : Task φ σ) (w : World φ) (f : σ → List UInt8 → List UInt8) (b : σ → List UInt8 → Nat)

/-- What the first command reads. -/
def source : List UInt8 :=
  match (x.opening 0 w.files).1.fdIn with
  | some d => d.bytes w.files
  | none => w.input

/-- What the commands write. -/
def outputs : Nat → List UInt8
  | 0 => (x.proc 0 w.files).value f (x.source w)
  | i + 1 => (x.proc (i + 1) w.files).value f (outputs i)

/-- What the commands read. -/
def inputs : Nat → List UInt8
  | 0 => x.source w
  | i + 1 => x.outputs w f i

/-- The output of a command is what its process makes of its inputs. -/
theorem outputs_eq (i : Nat) : x.outputs w f i = (x.proc i w.files).value f (x.inputs w f i) := by
  cases i <;> rfl

/-- The steps of the first `i` rounds: those of the programs, and `fork`, the start, the end and `waitpid`. -/
def spent : Nat → Nat
  | 0 => 0
  | i + 1 => spent i + (x.proc i w.files).bound b (x.inputs w f i) + 4

/-- The files when child `i` has written `out`. -/
def filesWith (i : Nat) (out : List UInt8) : FileSystem φ UInt8 :=
  match (x.opening i w.files).1.fdOut with
  | some d => Function.update (x.opening i w.files).2 d.file
      (some (((x.opening i w.files).2 d.file).getD [] ++ out))
  | none => (x.opening i w.files).2

/-- What is on the screen when child `i` has written `out`. -/
def screenWith (i : Nat) (out : List UInt8) : List UInt8 :=
  if i + 1 < x.num ∨ (x.opening i w.files).1.fdOut ≠ none then w.screen else w.screen ++ out

end outputs

/-! ## Opening the files -/

section opening

variable {x : Task φ σ} {i : Nat} {fs fs' : FileSystem φ UInt8} {fdIn fdOut : Option (Opened φ)} {e : Int}

omit [DecidableEq φ] in
/-- Only the first child opens an input. -/
theorem openInput_of_ne (hi : i ≠ 0) (fs : FileSystem φ UInt8) : x.openInput i fs = .ok none := by
  unfold openInput
  rcases x.files.redirectIn with _ | name
  · rfl
  · exact if_neg hi

/-- Only the last child opens an output. -/
theorem openOutput_of_lt (hi : i + 1 < x.num) (fs : FileSystem φ UInt8) :
    x.openOutput i fs = (.ok none, fs) := if_neg (by omega)

omit [DecidableEq φ] in
/-- The first child has an open file when an input is redirected. -/
theorem openInput_ok (h : x.openInput 0 fs = .ok fdIn) :
    (fdIn = none ∧ x.files.redirectIn = none) ∨
      ∃ name, x.files.redirectIn = some name ∧ fdIn = some ⟨x.paths.fileOf name, 0⟩ := by
  unfold openInput at h
  rcases hname : x.files.redirectIn with _ | name
  · rw [hname] at h
    cases h
    exact .inl ⟨rfl, rfl⟩
  · rw [hname] at h
    dsimp only at h
    rw [if_pos rfl] at h
    refine .inr ⟨name, rfl, ?_⟩
    unfold openRead at h
    split at h
    · cases h
    · split at h
      · cases h
      · cases h
        rfl

/-- The last child has an open file when the output is redirected. -/
theorem openOutput_ok (h : x.openOutput i fs = (.ok fdOut, fs')) :
    (fdOut = none ∧ fs' = fs ∧ (i = x.num - 1 → x.files.stdoutFile = none)) ∨
      ∃ k name content, i = x.num - 1 ∧ x.files.stdoutFile = some (.file k name) ∧
        fdOut = some ⟨x.paths.fileOf name, 0⟩ ∧
        fs' = Function.update fs (x.paths.fileOf name) (some content) ∧ (k ≠ .append → content = []) := by
  unfold openOutput at h
  by_cases hi : i = x.num - 1
  · rw [if_pos hi] at h
    unfold Files.stdoutFile
    rcases hout : x.files.redirectOut with _ | name
    · rcases happend : x.files.redirectOutAppend with _ | name
      · rw [hout, happend] at h
        cases h
        exact .inl ⟨rfl, rfl, fun _ => rfl⟩
      · rw [hout, happend] at h
        unfold openAppend at h
        dsimp only at h
        split at h
        · cases h
        · cases h
          exact .inr ⟨.append, name, _, hi, rfl, rfl, rfl, fun hne => absurd rfl hne⟩
    · rw [hout] at h
      unfold openTrunc at h
      dsimp only at h
      split at h
      · cases h
      · cases h
        exact .inr ⟨.output, name, [], hi, rfl, rfl, rfl, fun _ => rfl⟩
  · rw [if_neg hi] at h
    cases h
    exact .inl ⟨rfl, rfl, fun heq => absurd heq hi⟩

/-- The three ways it can go. -/
theorem opening_cases (x : Task φ σ) (i : Nat) (fs : FileSystem φ UInt8) :
    (∃ e, x.openInput i fs = .error e ∧ x.opening i fs = (.inputFails, fs)) ∨
      (∃ fdIn e fs', x.openInput i fs = .ok fdIn ∧ x.openOutput i fs = (.error e, fs') ∧
        x.opening i fs = (.outputFails fdIn, fs')) ∨
        ∃ fdIn fdOut fs', x.openInput i fs = .ok fdIn ∧ x.openOutput i fs = (.ok fdOut, fs') ∧
          x.opening i fs = (.opened fdIn fdOut, fs') := by
  unfold opening
  rcases x.openInput i fs with e | fdIn
  · exact .inl ⟨e, rfl, rfl⟩
  · rcases x.openOutput i fs with ⟨e | fdOut, fs'⟩
    · exact .inr (.inl ⟨fdIn, e, fs', rfl, rfl, rfl⟩)
    · exact .inr (.inr ⟨fdIn, fdOut, fs', rfl, rfl, rfl⟩)

/-- An output that cannot be opened leaves the files as they are. -/
theorem openOutput_error (h : x.openOutput i fs = (.error e, fs')) : fs' = fs := by
  unfold openOutput at h
  by_cases hi : i = x.num - 1
  · rw [if_pos hi] at h
    split at h
    · unfold openTrunc at h
      split at h
      · cases h
        rfl
      · cases h
    · unfold openAppend at h
      split at h
      · cases h
        rfl
      · cases h
    · cases h
  · rw [if_neg hi] at h
    cases h

/-- The file that is written to exists then, and no other file changes. -/
theorem opening_files (x : Task φ σ) (i : Nat) (fs : FileSystem φ UInt8) :
    (∀ d, (x.opening i fs).1.fdOut = some d → ∃ content, (x.opening i fs).2 d.file = some content) ∧
      ∀ g, (∀ d, (x.opening i fs).1.fdOut = some d → d.file ≠ g) → (x.opening i fs).2 g = fs g := by
  rcases opening_cases x i fs with ⟨e, -, h⟩ | ⟨fdIn, e, fs', -, hfail, h⟩ | ⟨fdIn, fdOut, fs', -, hok, h⟩
  · rw [h]
    exact ⟨fun d hd => (nomatch hd), fun _ _ => rfl⟩
  · rw [h, openOutput_error hfail]
    exact ⟨fun d hd => (nomatch hd), fun _ _ => rfl⟩
  · rw [h]
    rcases openOutput_ok hok with ⟨rfl, rfl, -⟩ | ⟨k, name, content, -, -, rfl, rfl, -⟩
    · exact ⟨fun d hd => (nomatch hd), fun _ _ => rfl⟩
    · constructor
      · rintro d ⟨⟩
        exact ⟨content, Function.update_self ..⟩
      · intro g hg
        exact Function.update_of_ne (hg _ rfl).symm _ _

/-- A child that is not the last one opens no file to write to. -/
theorem opening_of_lt (hi : i + 1 < x.num) (fs : FileSystem φ UInt8) :
    (x.opening i fs).1.fdOut = none ∧ (x.opening i fs).2 = fs := by
  have hout := openOutput_of_lt hi fs
  rcases opening_cases x i fs with ⟨e, -, h⟩ | ⟨fdIn, e, fs', -, hfail, h⟩ | ⟨fdIn, fdOut, fs', -, hok, h⟩
  · rw [h]
    exact ⟨rfl, rfl⟩
  · rw [hout] at hfail
    cases hfail
  · rw [hout] at hok
    cases hok
    rw [h]
    exact ⟨rfl, rfl⟩

/-- A child that is not the first one opens no file to read from. -/
theorem fdIn_of_ne (hi : i ≠ 0) (fs : FileSystem φ UInt8) : (x.opening i fs).1.fdIn = none := by
  have hin := openInput_of_ne (x := x) hi fs
  rcases opening_cases x i fs with ⟨e, hfail, h⟩ | ⟨fdIn, e, fs', hok, -, h⟩ | ⟨fdIn, fdOut, fs', hok, -, h⟩
  · rw [h]
    rfl
  · rw [hin] at hok
    cases hok
    rw [h]
    rfl
  · rw [hin] at hok
    cases hok
    rw [h]
    rfl

end opening

/-! ## The descriptors of a child -/

section wires

variable (x : Task φ σ)

/-- Where child `i` reads from: the input file, the pipe of the child before, or what the shell reads. -/
inductive Reads (i : Nat) (t : Table Desc) : Option (Opened φ) → Prop
  | file {d : Opened φ} {name : Text} (hi : i = 0) (h : t.at? stdin = some (.file .input name)) :
      Reads i t (some d)
  | pipe {k : Nat} (hi : i = k + 1) (h : t.at? stdin = some (.readEnd (x.prompt.pipes + k))) : Reads i t none
  | inherited (hi : i = 0) (h : t.at? stdin = x.prompt.table.at? stdin) : Reads i t none

/-- Where child `i` writes to. Its output file is at the end, unless it is written at the end anyway. -/
inductive Writes (i : Nat) (t : Table Desc) (fs : FileSystem φ UInt8) : Option (Opened φ) → Prop
  | file {d : Opened φ} {k : Redirection} {name : Text} (hi : i + 1 = x.num)
      (h : t.at? stdout = some (.file k name)) (hend : k ≠ .append → d.offset = (d.bytes fs).length) :
      Writes i t fs (some d)
  | pipe (hi : i + 1 < x.num) (h : t.at? stdout = some (.writeEnd (x.prompt.pipes + i))) : Writes i t fs none
  | inherited (hi : i + 1 = x.num) (h : t.at? stdout = x.prompt.table.at? stdout) : Writes i t fs none

variable {x} {i : Nat} {shell : Shell} {fs : FileSystem φ UInt8}

omit [DecidableEq φ] in
/-- The standard descriptors of the shell are no pipes of the line. -/
theorem inherited_prompt (fd : Int) : x.Inherited (φ := φ) (x.prompt.table.at? fd) none := by
  refine ⟨rfl, ?_⟩
  intro e he id hid
  exact x.prompt.behind_at? he hid

/-- A child that starts has its input at its descriptor 0. -/
theorem started_reads (h : Forked x.prompt i shell) (hi : i < x.num) (fs : FileSystem φ UInt8) :
    x.Reads i (childTable x.num i ((x.opening i fs).1.made x.files) shell) (x.opening i fs).1.fdIn := by
  have hstdin := (h.wired hi ((x.opening i fs).1.made x.files)).stdin
  dsimp only at hstdin
  rcases i with _ | k
  · rw [if_pos rfl] at hstdin
    -- a redirection that was made is the one of an open file
    have hmade : ∀ {fdIn : Option (Opened φ)} {r : Files}, x.openInput 0 fs = .ok fdIn →
        r.redirectIn = x.files.redirectIn → (childTable x.num 0 r shell).at? stdin =
          r.stdinFile.or (x.prompt.table.at? stdin) → x.Reads 0 (childTable x.num 0 r shell) fdIn := by
      intro fdIn r hok hr hat
      unfold Files.stdinFile at hat
      rw [hr] at hat
      rcases openInput_ok hok with ⟨rfl, hnone⟩ | ⟨name, hname, rfl⟩
      · rw [hnone] at hat
        exact .inherited rfl hat
      · rw [hname] at hat
        exact .file rfl hat
    rcases opening_cases x 0 fs with ⟨e, -, ho⟩ | ⟨fdIn, e, fs', hok, -, ho⟩ | ⟨fdIn, fdOut, fs', hok, -, ho⟩
    · rw [ho] at hstdin ⊢
      exact .inherited rfl hstdin
    · rw [ho] at hstdin ⊢
      exact hmade hok rfl hstdin
    · rw [ho] at hstdin ⊢
      exact hmade hok rfl hstdin
  · rw [if_neg (Nat.succ_ne_zero k), Nat.add_sub_cancel] at hstdin
    rw [fdIn_of_ne (Nat.succ_ne_zero k)]
    exact .pipe rfl hstdin

/-- A child that starts has its output at its descriptor 1. -/
theorem started_writes (h : Forked x.prompt i shell) (hi : i < x.num) (fs : FileSystem φ UInt8) :
    x.Writes i (childTable x.num i ((x.opening i fs).1.made x.files) shell) (x.opening i fs).2
      (x.opening i fs).1.fdOut := by
  have hstdout := (h.wired hi ((x.opening i fs).1.made x.files)).stdout
  dsimp only at hstdout
  by_cases hlast : i + 1 = x.num
  · rw [if_pos (by omega)] at hstdout
    rcases opening_cases x i fs with ⟨e, -, ho⟩ | ⟨fdIn, e, fs', -, -, ho⟩ | ⟨fdIn, fdOut, fs', -, hok, ho⟩
    · rw [ho] at hstdout ⊢
      exact .inherited hlast hstdout
    · rw [ho] at hstdout ⊢
      exact .inherited hlast hstdout
    · rw [ho] at hstdout ⊢
      rcases openOutput_ok hok with ⟨rfl, -, hnone⟩ | ⟨k, name, content, -, hfile, rfl, rfl, hempty⟩
      · refine .inherited hlast (hstdout.trans ?_)
        rw [Opening.made, hnone (by omega)]
        rfl
      · have hat : (childTable x.num i x.files shell).at? stdout = some (.file k name) := by
          refine hstdout.trans ?_
          rw [Opening.made, hfile]
          rfl
        refine .file hlast hat fun hk => ?_
        rw [Opened.bytes_eq (Function.update_self ..), hempty hk]
        rfl
  · rw [if_neg (by omega)] at hstdout
    rw [(opening_of_lt (by omega) fs).1]
    exact .pipe (by omega) hstdout

end wires

/-! ## What holds in every state -/

section invariant

variable (x : Task φ σ) (w : World φ) (f : σ → List UInt8 → List UInt8) (b : σ → List UInt8 → Nat)

/-- What is left of the input of child `i`. -/
def left (i : Nat) (fdIn : Option (Opened φ)) (s : Machine φ σ) : List UInt8 :=
  match fdIn, i with
  | some d, _ => (d.bytes s.files).drop d.offset
  | none, 0 => s.input
  | none, k + 1 => s.pipe (x.prompt.pipes + k)

/-- Child `i` has written `out`. -/
structure Delivered (i : Nat) (out : List UInt8) (s : Machine φ σ) : Prop where
  pipe : i + 1 < x.num → s.pipe (x.prompt.pipes + i) = out
  files : s.files = x.filesWith w i out
  screen : s.screen = x.screenWith w i out

/-- Child `i` has done what its program does by itself on its input, up to here. -/
structure Active (i : Nat) (es : List Happening) (s : Machine φ σ) (p : Proc σ) (t : Table Desc)
    (fdIn fdOut : Option (Opened φ)) : Prop where
  reads : x.Reads i t fdIn
  writes : x.Writes i t s.files fdOut
  sameIn : fdIn.map Opened.file = (x.opening i w.files).1.fdIn.map Opened.file
  sameOut : fdOut.map Opened.file = (x.opening i w.files).1.fdOut.map Opened.file
  noWriter : ∀ k, i = k + 1 → t.All (· ≠ .writeEnd (x.prompt.pipes + k))
  history : ∃ ios, Run (OnInput (Proc.act x.act)) (x.proc i w.files, x.inputs w f i) ios (p, x.left i fdIn s) ∧
    x.Delivered w i (written ios) s ∧ es.length ≤ x.spent w f b i + 2 + ios.length

/-- The children before `i` have done what they do, and nothing was done since. -/
structure Before (i : Nat) (s : Machine φ σ) : Prop where
  files : s.files = w.files
  screen : s.screen = w.screen
  input : i = 0 → s.input = w.input
  pipe : ∀ k, i = k + 1 → s.pipe (x.prompt.pipes + k) = x.outputs w f k

/-- Child `i` while the shell waits for it. -/
inductive Phase (i : Nat) (es : List Happening) (s : Machine φ σ) : Running φ σ → Prop
  | forked (h : x.Before w f i s) (hempty : s.pipe (x.prompt.pipes + i) = [])
      (hlen : es.length ≤ x.spent w f b i + 1) : Phase i es s (.forked s.shell)
  | running {p : Proc σ} {t : Table Desc} {fdIn fdOut : Option (Opened φ)}
      (h : x.Active w f b i es s p t fdIn fdOut) : Phase i es s (.running p t fdIn fdOut)
  | gone (h : x.Delivered w i (x.outputs w f i) s) (hlen : es.length + 1 ≤ x.spent w f b (i + 1)) :
      Phase i es s .gone

/-- The shell behind the rounds that are left. -/
def behind (i : Nat) (shell : Shell) : Shell := (rounds x.num x.files (x.num - i) i shell).2

/-- The shell is in front of round `i`. -/
structure AtFork (i : Nat) (es : List Happening) (s : Machine φ σ) : Prop where
  lt : i < x.num
  ready : Ready x.prompt i s.shell
  last : x.behind i s.shell = x.behind 0 x.first
  gone : ∀ j < i, s.child j = .gone
  later : ∀ j, i ≤ j → s.child j = .none
  empty : ∀ k, i ≤ k → s.pipe (x.prompt.pipes + k) = []
  before : x.Before w f i s
  length : es.length ≤ x.spent w f b i

/-- The shell waits for child `i`. -/
structure Waiting (i : Nat) (es : List Happening) (s : Machine φ σ) : Prop where
  lt : i < x.num
  forked : Forked x.prompt i s.shell
  last : x.behind (i + 1) (cleanUp x.num i s.shell) = x.behind 0 x.first
  gone : ∀ j < i, s.child j = .gone
  later : ∀ j, i < j → s.child j = .none
  empty : ∀ k, i < k → s.pipe (x.prompt.pipes + k) = []
  phase : x.Phase w f b i es s (s.child i)

/-- The line is done. -/
structure Finished (es : List Happening) (s : Machine φ σ) : Prop where
  shell : s.shell = (pipeline x.num x.files x.prompt.toShell).2
  gone : ∀ j < x.num, s.child j = .gone
  later : ∀ j, x.num ≤ j → s.child j = .none
  delivered : x.Delivered w (x.num - 1) (x.outputs w f (x.num - 1)) s
  length : es.length ≤ x.spent w f b x.num

/-- What holds in every state. -/
def Inv (es : List Happening) (s : Machine φ σ) : Prop :=
  match s.round with
  | .fork i => x.AtFork w f b i es s
  | .wait i => x.Waiting w f b i es s
  | .done => x.Finished w f b es s

end invariant

section steps

variable {x : Task φ σ} {w : World φ} {f : σ → List UInt8 → List UInt8} {b : σ → List UInt8 → Nat}
  {i : Nat} {es es' : List Happening} {s s' : Machine φ σ} {c : Running φ σ} {p p' : Proc σ} {t : Table Desc}
  {fdIn fdOut : Option (Opened φ)} {e : Happening} {io : Io UInt8}

/-- The invariant in a round that is to fork. -/
theorem Inv.atFork (h : x.Inv w f b es s) (hround : s.round = .fork i) : x.AtFork w f b i es s := by
  rw [Inv, hround] at h
  exact h

/-- The invariant in a round that waits. -/
theorem Inv.waiting (h : x.Inv w f b es s) (hround : s.round = .wait i) : x.Waiting w f b i es s := by
  rw [Inv, hround] at h
  exact h

/-- The invariant when the line is done. -/
theorem Inv.finished (h : x.Inv w f b es s) (hround : s.round = .done) : x.Finished w f b es s := by
  rw [Inv, hround] at h
  exact h

/-- A round that is to fork has the invariant. -/
theorem AtFork.inv (h : x.AtFork w f b i es s) (hround : s.round = .fork i) : x.Inv w f b es s := by
  rw [Inv, hround]
  exact h

/-- A round that waits has the invariant. -/
theorem Waiting.inv (h : x.Waiting w f b i es s) (hround : s.round = .wait i) : x.Inv w f b es s := by
  rw [Inv, hround]
  exact h

/-- A line that is done has the invariant. -/
theorem Finished.inv (h : x.Finished w f b es s) (hround : s.round = .done) : x.Inv w f b es s := by
  rw [Inv, hround]
  exact h

/-- A child that was started and has not exited is the one that the shell waits for. -/
theorem Inv.of_child (h : x.Inv w f b es s) (hi : s.child i = c) (hnone : c ≠ .none) (hgone : c ≠ .gone) :
    s.round = .wait i ∧ x.Waiting w f b i es s := by
  have hneither : ¬ (s.child i = .none ∨ s.child i = .gone) := by
    rw [hi]
    exact fun heither => heither.elim hnone hgone
  rcases hround : s.round with j | j | _
  · have hfork := h.atFork hround
    apply absurd _ hneither
    rcases Nat.lt_or_ge i j with hlt | hge
    · exact .inr (hfork.gone i hlt)
    · exact .inl (hfork.later i hge)
  · have hwaiting := h.waiting hround
    rcases Nat.lt_trichotomy i j with hlt | rfl | hgt
    · exact absurd (.inr (hwaiting.gone i hlt)) hneither
    · exact ⟨rfl, hwaiting⟩
    · exact absurd (.inl (hwaiting.later i hgt)) hneither
  · have hfinished := h.finished hround
    apply absurd _ hneither
    rcases Nat.lt_or_ge i x.num with hlt | hge
    · exact .inr (hfinished.gone i hlt)
    · exact .inl (hfinished.later i hge)

/-- Child `i` does something, and the pipes behind its own one stay empty. -/
theorem Waiting.next (h : x.Waiting w f b i es s) (hshell : s'.shell = s.shell)
    (hchild : s'.child = Function.update s.child i c)
    (hpipe : ∀ k, i < k → s'.pipe (x.prompt.pipes + k) = s.pipe (x.prompt.pipes + k))
    (hphase : x.Phase w f b i es' s' c) : x.Waiting w f b i es' s' := by
  have hother : ∀ j, j ≠ i → s'.child j = s.child j := by
    intro j hj
    rw [hchild, Function.update_of_ne hj]
  refine ⟨h.lt, hshell ▸ h.forked, hshell ▸ h.last, ?_, ?_, ?_, ?_⟩
  · intro j hj
    rw [hother j (Nat.ne_of_lt hj)]
    exact h.gone j hj
  · intro j hj
    rw [hother j (Nat.ne_of_gt hj)]
    exact h.later j hj
  · intro k hk
    rw [hpipe k hk]
    exact h.empty k hk
  · rw [hchild, Function.update_self]
    exact hphase

/-- A child that runs while the shell waits for it is the active one. -/
theorem Waiting.active (h : x.Waiting w f b i es s) (hi : s.child i = .running p t fdIn fdOut) :
    x.Active w f b i es s p t fdIn fdOut := by
  have hphase := h.phase
  rw [hi] at hphase
  cases hphase with
  | running hactive => exact hactive

/-! ### The shell -/

/-- The invariant holds at the start. -/
theorem inv_init (hpos : 0 < x.num) : x.Inv w f b [] (x.init w) := by
  have hfork : x.AtFork w f b 0 [] (x.init w) := by
    refine ⟨hpos, x.prompt.ready, rfl, ?_, fun _ _ => rfl, fun _ _ => rfl, ?_, Nat.zero_le _⟩
    · exact fun j hj => absurd hj (Nat.not_lt_zero j)
    · exact ⟨rfl, rfl, fun _ => rfl, fun k hk => absurd hk (Nat.zero_ne_add_one k)⟩
  exact hfork.inv (if_pos hpos)

omit [DecidableEq φ] in
/-- One round, and what is behind the next one. -/
theorem behind_eq {shell : Shell} (hi : i < x.num) :
    x.behind i shell = x.behind (i + 1) (cleanUp x.num i (prepare i shell)) := by
  unfold behind
  rw [show x.num - i = (x.num - (i + 1)) + 1 by omega]
  rfl

/-- The shell copies its descriptors, makes a pipe, and forks. -/
theorem AtFork.fork (h : x.AtFork w f b i es s) : x.Waiting w f b i (es ++ [.fork])
    { s.setChild i (.forked (prepare i s.shell)) with shell := prepare i s.shell, round := .wait i } := by
  refine ⟨h.lt, h.ready.prepare, ?_, ?_, ?_, fun k hk => h.empty k (Nat.le_of_lt hk), ?_⟩
  · exact (behind_eq h.lt).symm.trans h.last
  · intro j hj
    exact (Function.update_of_ne (Nat.ne_of_lt hj) _ _).trans (h.gone j hj)
  · intro j hj
    exact (Function.update_of_ne (Nat.ne_of_gt hj) _ _).trans (h.later j (Nat.le_of_lt hj))
  · show x.Phase w f b i _ _ (Function.update s.child i _ i)
    rw [Function.update_self]
    refine .forked ⟨h.before.files, h.before.screen, h.before.input, h.before.pipe⟩ (h.empty i le_rfl) ?_
    rw [List.length_append]
    exact Nat.succ_le_succ h.length

/-! ### The start of a child -/

/-- The first command does not read the file that the last one writes. -/
def Apart (x : Task φ σ) (w : World φ) : Prop :=
  ∀ d d', (x.opening 0 w.files).1.fdIn = some d → (x.opening 0 w.files).1.fdOut = some d' → d.file ≠ d'.file

/-- With an empty output everything is as it was when the files were opened. -/
theorem filesWith_nil (x : Task φ σ) (w : World φ) (i : Nat) : x.filesWith w i [] = (x.opening i w.files).2 := by
  unfold filesWith
  rcases hout : (x.opening i w.files).1.fdOut with _ | d
  · rfl
  · obtain ⟨content, hcontent⟩ := (opening_files x i w.files).1 d hout
    dsimp only
    rw [hcontent, Option.getD_some, List.append_nil, ← hcontent]
    exact Function.update_eq_self _ _

/-- No output leaves the screen as it is. -/
theorem screenWith_nil (x : Task φ σ) (w : World φ) (i : Nat) : x.screenWith w i [] = w.screen := by
  unfold screenWith
  split_ifs
  · rfl
  · exact List.append_nil _

/-- An input file is open at its start. -/
theorem fdIn_offset {d : Opened φ} (h : (x.opening 0 w.files).1.fdIn = some d) : d.offset = 0 := by
  have hok : ∀ {fd : Option (Opened φ)}, x.openInput 0 w.files = .ok fd → fd = some d → d.offset = 0 := by
    intro fd hok hd
    rcases openInput_ok hok with ⟨rfl, -⟩ | ⟨name, -, rfl⟩
    · cases hd
    · cases hd
      rfl
  rcases opening_cases x 0 w.files with ⟨e, -, ho⟩ | ⟨fd, e, fs', hin, -, ho⟩ | ⟨fd, fdOut, fs', hin, -, ho⟩
  · rw [ho] at h
    cases h
  · rw [ho] at h
    exact hok hin h
  · rw [ho] at h
    exact hok hin h

/-- A child sets its descriptors and opens its files: its input is what the children before have left. -/
theorem Waiting.start (h : x.Waiting w f b i es s) (hapart : x.Apart w) {shell : Shell}
    (hi : s.child i = .forked shell) : x.Waiting w f b i (es ++ [.start i])
      { s.setChild i (x.started i shell s.files) with files := (x.opening i s.files).2 } := by
  have hphase := h.phase
  rw [hi] at hphase
  generalize hc : Running.forked shell = c at hphase
  cases hphase with
  | running | gone => cases hc
  | forked hbefore hempty hlen =>
  cases hc
  refine h.next rfl rfl (fun _ _ => rfl) ?_
  rw [hbefore.files]
  refine .running ⟨started_reads h.forked h.lt w.files, started_writes h.forked h.lt w.files, rfl, rfl, ?_, [], ?_⟩
  · rintro k rfl
    exact (h.forked.wired h.lt _).noWriter (Nat.succ_ne_zero k) _ (List.mem_cons_of_mem _ List.mem_cons_self)
  · have hinput : x.left i (x.opening i w.files).1.fdIn
        { s.setChild i (x.started i s.shell w.files) with files := (x.opening i w.files).2 } = x.inputs w f i := by
      rcases i with _ | k
      · unfold left inputs source
        rcases hin : (x.opening 0 w.files).1.fdIn with _ | d
        · exact hbefore.input rfl
        · show (d.bytes (x.opening 0 w.files).2).drop d.offset = d.bytes w.files
          rw [fdIn_offset hin, List.drop_zero, Opened.bytes, Opened.bytes,
            (opening_files x 0 w.files).2 d.file fun d' hd' => (hapart d d' hin hd').symm]
      · rw [fdIn_of_ne (Nat.succ_ne_zero k)]
        exact hbefore.pipe k rfl
    rw [hinput]
    refine ⟨.nil, ⟨fun _ => hempty, ?_, ?_⟩, ?_⟩
    · exact (filesWith_nil x w i).symm
    · exact hbefore.screen.trans (screenWith_nil x w i).symm
    · rw [List.length_append]
      exact Nat.succ_le_succ hlen

/-! ### What a program does -/

/-- A child reads or writes; what it has written is where it was, with what it writes now behind it. -/
theorem Active.next {fdIn' fdOut' : Option (Opened φ)} {rest : List UInt8}
    (h : x.Active w f b i es s p t fdIn fdOut)
    (hio : OnInput (Proc.act x.act) (p, x.left i fdIn s) io (p', rest)) (hleft : x.left i fdIn' s' = rest)
    (hreads : x.Reads i t fdIn') (hwrites : x.Writes i t s'.files fdOut')
    (hin : fdIn'.map Opened.file = fdIn.map Opened.file) (hout : fdOut'.map Opened.file = fdOut.map Opened.file)
    (hdelivered : ∀ out, x.Delivered w i out s → x.Delivered w i (out ++ io.written?.toList) s') :
    x.Active w f b i (es ++ [e]) s' p' t fdIn' fdOut' := by
  obtain ⟨ios, hrun, hold, hlen⟩ := h.history
  refine ⟨hreads, hwrites, hin.trans h.sameIn, hout.trans h.sameOut, h.noWriter, ios ++ [io], ?_, ?_, ?_⟩
  · rw [hleft]
    exact hrun.snoc hio
  · have hlast : written [io] = io.written?.toList := by
      cases io <;> rfl
    rw [written_append, hlast]
    exact hdelivered _ hold
  · rw [List.length_append, List.length_append, List.length_singleton, List.length_singleton]
    exact Nat.succ_le_succ hlen

/-- A child that reads leaves what was written. -/
theorem Delivered.read (hread : io.written? = none) {out : List UInt8} (h : x.Delivered w i out s') :
    x.Delivered w i (out ++ io.written?.toList) s' := by
  rw [hread]
  exact (List.append_nil out).symm ▸ h

omit [DecidableEq φ] in
/-- What is left of the input does not depend on the pipe that the child writes to. -/
theorem left_congr {fd : Option (Opened φ)} (hfiles : ∀ d ∈ fd, s'.files d.file = s.files d.file)
    (hinput : s'.input = s.input)
    (hpipe : ∀ k, i = k + 1 → s'.pipe (x.prompt.pipes + k) = s.pipe (x.prompt.pipes + k)) :
    x.left i fd s' = x.left i fd s := by
  rcases fd with _ | d
  · rcases i with _ | k
    · exact hinput
    · exact hpipe k rfl
  · show (d.bytes s'.files).drop d.offset = (d.bytes s.files).drop d.offset
    rw [Opened.bytes, Opened.bytes, hfiles d rfl]

/-- A command in front of another one writes to no file. -/
theorem filesWith_of_lt (hi : i + 1 < x.num) (out : List UInt8) : x.filesWith w i out = w.files := by
  obtain ⟨hout, hfiles⟩ := opening_of_lt hi w.files
  unfold filesWith
  rw [hout]
  exact hfiles

/-- A command in front of another one writes nothing to the screen. -/
theorem screenWith_of_lt (hi : i + 1 < x.num) (out : List UInt8) : x.screenWith w i out = w.screen :=
  if_pos (.inl hi)

/-- A command that writes to a file leaves the screen as it is. -/
theorem screenWith_of_some {d : Opened φ} (h : (x.opening i w.files).1.fdOut = some d) (out : List UInt8) :
    x.screenWith w i out = w.screen := by
  apply if_pos
  rw [h]
  exact .inr (Option.some_ne_none d)

/-- The child reads from the pipe in front of it. -/
theorem Waiting.readPipe (h : x.Waiting w f b i es s) {id : Nat} {rest : List UInt8}
    (hi : s.child i = .running p t fdIn fdOut) (hin : t.at? stdin = some (.readEnd id))
    (hid : x.prompt.pipes ≤ id) (hio : OnInput (Proc.act x.act) (p, s.pipe id) io (p', rest))
    (hread : io.written? = none) :
    x.Waiting w f b i (es ++ [e]) ((s.setChild i (.running p' t fdIn fdOut)).setPipe id rest) := by
  have hactive := h.active hi
  have hreads := hactive.reads
  generalize hfd : fdIn = fd at hreads
  cases hreads with
  | file _ hat =>
      rw [hin] at hat
      cases hat
  | inherited _ hat =>
      rw [hin] at hat
      have hlt := x.prompt.behind_at? hat.symm rfl
      exact absurd hid (Nat.not_le_of_lt hlt)
  | @pipe k hk hat =>
      rw [hin] at hat
      cases hat
      subst hk hfd
      have hother : ∀ j, k + 1 ≤ j → Function.update s.pipe (x.prompt.pipes + k) rest (x.prompt.pipes + j) =
          s.pipe (x.prompt.pipes + j) := fun j hj => Function.update_of_ne (by omega) _ _
      refine h.next rfl rfl (fun j hj => hother j (Nat.le_of_lt hj)) (.running ?_)
      refine hactive.next hio (Function.update_self ..) hactive.reads hactive.writes rfl rfl fun out hout => ?_
      apply Delivered.read hread
      exact ⟨fun hlt => (hother (k + 1) le_rfl).trans (hout.pipe hlt), hout.files, hout.screen⟩

/-- The child reads from its input file. -/
theorem Waiting.readFile (h : x.Waiting w f b i es s) {d : Opened φ} {rest : List UInt8}
    (hi : s.child i = .running p t (some d) fdOut)
    (hio : OnInput (Proc.act x.act) (p, (d.bytes s.files).drop d.offset) io (p', rest))
    (hread : io.written? = none) : x.Waiting w f b i (es ++ [e])
      (s.setChild i (.running p' t (some { d with offset := d.offset + io.taken.length }) fdOut)) := by
  have hactive := h.active hi
  have hreads := hactive.reads
  generalize hfd : some d = fd at hreads
  cases hreads with
  | pipe | inherited => cases hfd
  | file hzero hat =>
      cases hfd
      have hrest : (d.bytes s.files).drop (d.offset + io.taken.length) = rest := by
        have htaken : io.taken ++ rest = (d.bytes s.files).drop d.offset := hio.taken_append
        rw [← List.drop_drop, ← htaken, List.drop_left]
      refine h.next rfl rfl (fun _ _ => rfl) (.running ?_)
      refine hactive.next hio hrest (.file hzero hat) hactive.writes rfl rfl fun out hout => ?_
      exact Delivered.read hread ⟨hout.pipe, hout.files, hout.screen⟩

/-- The child reads from the standard input of the shell. -/
theorem Waiting.readInherited (h : x.Waiting w f b i es s) {rest : List UInt8}
    (hi : s.child i = .running p t fdIn fdOut) (hin : x.Inherited (t.at? stdin) fdIn)
    (hio : OnInput (Proc.act x.act) (p, s.input) io (p', rest)) (hread : io.written? = none) :
    x.Waiting w f b i (es ++ [e]) { s.setChild i (.running p' t fdIn fdOut) with input := rest } := by
  have hactive := h.active hi
  have hreads := hactive.reads
  obtain ⟨hnone, hbehind⟩ := hin
  subst hnone
  generalize hfd : (none : Option (Opened φ)) = fd at hreads
  cases hreads with
  | file => cases hfd
  | pipe _ hat =>
      have hlt := hbehind _ hat _ rfl
      omega
  | inherited hzero hat =>
      subst hzero
      refine h.next rfl rfl (fun _ _ => rfl) (.running ?_)
      refine hactive.next hio rfl hactive.reads hactive.writes rfl rfl fun out hout => ?_
      exact Delivered.read hread ⟨hout.pipe, hout.files, hout.screen⟩

/-- The child writes a byte to the pipe behind it. -/
theorem Waiting.writePipe (h : x.Waiting w f b i es s) {id : Nat} {byte : UInt8}
    (hi : s.child i = .running p t fdIn fdOut) (hout : t.at? stdout = some (.writeEnd id))
    (hid : x.prompt.pipes ≤ id) (hact : Proc.act x.act p = .write byte p') : x.Waiting w f b i (es ++ [e])
      ((s.setChild i (.running p' t fdIn fdOut)).setPipe id (s.pipe id ++ [byte])) := by
  have hactive := h.active hi
  have hwrites := hactive.writes
  generalize hfd : fdOut = fd at hwrites
  cases hwrites with
  | file _ hat _ =>
      rw [hout] at hat
      cases hat
  | inherited _ hat =>
      rw [hout] at hat
      have hlt := x.prompt.behind_at? hat.symm rfl
      exact absurd hid (Nat.not_le_of_lt hlt)
  | pipe hlt hat =>
      rw [hout] at hat
      cases hat
      subst hfd
      have hother : ∀ k, k ≠ i → Function.update s.pipe (x.prompt.pipes + i) (s.pipe (x.prompt.pipes + i) ++ [byte])
          (x.prompt.pipes + k) = s.pipe (x.prompt.pipes + k) :=
        fun k hk => Function.update_of_ne (by omega) _ _
      refine h.next rfl rfl (fun k hk => hother k (Nat.ne_of_gt hk)) (.running ?_)
      refine hactive.next (.write hact) ?_ hactive.reads (.pipe hlt hout) rfl rfl fun out hold => ?_
      · exact left_congr (fun _ _ => rfl) rfl fun k hk => hother k (by omega)
      · refine ⟨fun _ => ?_, ?_, ?_⟩
        · exact (Function.update_self ..).trans (congrArg (· ++ [byte]) (hold.pipe hlt))
        · exact hold.files.trans ((filesWith_of_lt hlt _).trans (filesWith_of_lt hlt _).symm)
        · exact hold.screen.trans ((screenWith_of_lt hlt _).trans (screenWith_of_lt hlt _).symm)

/-- The file that a child reads is not the one that it writes. -/
theorem Active.apart {d : Opened φ} (h : x.Active w f b i es s p t fdIn (some d)) (hapart : x.Apart w) {d₀ : Opened φ}
    (hd₀ : d₀ ∈ fdIn) : d₀.file ≠ d.file := by
  have hreads := h.reads
  have hin := h.sameIn
  have hout := h.sameOut
  cases hd₀
  cases hreads with
  | file hzero hat =>
      subst hzero
      obtain ⟨d₁, hopened₁, hfile₁⟩ := Option.map_eq_some_iff.mp hin.symm
      obtain ⟨d₂, hopened₂, hfile₂⟩ := Option.map_eq_some_iff.mp hout.symm
      rw [← hfile₁, ← hfile₂]
      exact hapart d₁ d₂ hopened₁ hopened₂

/-- The file that a child has written to. -/
theorem Delivered.bytes {out : List UInt8} {d d' : Opened φ} (h : x.Delivered w i out s)
    (hopened : (x.opening i w.files).1.fdOut = some d') (hfile : d.file = d'.file) :
    s.files = Function.update (x.opening i w.files).2 d.file
      (some (((x.opening i w.files).2 d.file).getD [] ++ out)) := by
  rw [h.files, filesWith, hopened, hfile]

/-- The child writes a byte to its output file. -/
theorem Waiting.writeFile (h : x.Waiting w f b i es s) (hapart : x.Apart w) {d : Opened φ} {k : Redirection}
    {name : Text} {byte : UInt8} (hi : s.child i = .running p t fdIn (some d))
    (hout : t.at? stdout = some (.file k name)) (hact : Proc.act x.act p = .write byte p') :
    x.Waiting w f b i (es ++ [e])
      { s.setChild i (.running p' t fdIn (some (writeByte s.files k d byte).2)) with
        files := (writeByte s.files k d byte).1 } := by
  have hactive := h.active hi
  have hwrites := hactive.writes
  have hsame := hactive.sameOut
  generalize hfd : some d = fd at hwrites
  cases hwrites with
  | pipe | inherited => cases hfd
  | file hlast hat hend =>
      cases hfd
      rw [hout] at hat
      cases hat
      rw [writeByte_eq hend]
      obtain ⟨d', hopened, hfile⟩ : ∃ d', (x.opening i w.files).1.fdOut = some d' ∧ d'.file = d.file :=
        Option.map_eq_some_iff.mp hsame.symm
      refine h.next rfl rfl (fun _ _ => rfl) (.running ?_)
      refine hactive.next (.write hact) ?_ hactive.reads (.file hlast hout fun _ => ?_) rfl rfl fun out hold => ?_
      · refine left_congr (fun d₀ hd₀ => ?_) rfl fun _ _ => rfl
        exact Function.update_of_ne (hactive.apart hapart hd₀) _ _
      · rw [Opened.bytes_eq (Function.update_self ..), List.length_append, List.length_singleton]
      · have hfiles := hold.bytes hopened hfile.symm
        have hbytes : d.bytes s.files = ((x.opening i w.files).2 d.file).getD [] ++ out := by
          apply Opened.bytes_eq
          rw [hfiles]
          exact Function.update_self ..
        refine ⟨fun hlt => absurd hlast (by omega), ?_, ?_⟩
        · rw [filesWith, hopened, hbytes]
          dsimp only
          rw [hfile, hfiles, Function.update_idem, List.append_assoc]
          rfl
        · exact hold.screen.trans ((screenWith_of_some hopened _).trans (screenWith_of_some hopened _).symm)

/-- The child writes a byte to the screen. -/
theorem Waiting.writeInherited (h : x.Waiting w f b i es s) {byte : UInt8}
    (hi : s.child i = .running p t fdIn fdOut) (hout : x.Inherited (t.at? stdout) fdOut)
    (hact : Proc.act x.act p = .write byte p') : x.Waiting w f b i (es ++ [e])
      { s.setChild i (.running p' t fdIn fdOut) with screen := s.screen ++ [byte] } := by
  have hactive := h.active hi
  have hwrites := hactive.writes
  have hsame := hactive.sameOut
  obtain ⟨hnone, hbehind⟩ := hout
  subst hnone
  generalize hfd : (none : Option (Opened φ)) = fd at hwrites
  cases hwrites with
  | file => cases hfd
  | pipe _ hat =>
      have hlt := hbehind _ hat _ rfl
      omega
  | inherited hlast hat =>
      have hopened : (x.opening i w.files).1.fdOut = none := Option.map_eq_none_iff.mp hsame.symm
      have hnot : ¬ (i + 1 < x.num ∨ (x.opening i w.files).1.fdOut ≠ none) :=
        not_or.mpr ⟨by omega, not_not.mpr hopened⟩
      refine h.next rfl rfl (fun _ _ => rfl) (.running ?_)
      refine hactive.next (.write hact) ?_ hactive.reads (.inherited hlast hat) rfl rfl fun out hold => ?_
      · exact left_congr (fun _ _ => rfl) rfl fun _ _ => rfl
      · refine ⟨fun hlt => absurd hlast (by omega), ?_, ?_⟩
        · refine hold.files.trans ?_
          rw [filesWith, filesWith, hopened]
        · show s.screen ++ [byte] = _
          rw [hold.screen, screenWith, screenWith, if_neg hnot, if_neg hnot, List.append_assoc]
          rfl

/-! ### The end of a child -/

/-- The shell can read the pipe of its child. -/
theorem Waiting.not_noReader (h : x.Waiting w f b i es s) (hactive : x.Active w f b i es s p t fdIn fdOut)
    {id : Nat} (hout : t.at? stdout = some (.writeEnd id)) (hid : x.prompt.pipes ≤ id) :
    ¬ s.NoHolder (.readEnd id) := by
  rintro ⟨hshell, -⟩
  have hwrites := hactive.writes
  cases hwrites with
  | file _ hat _ =>
      rw [hout] at hat
      cases hat
  | inherited _ hat =>
      rw [hout] at hat
      have hlt := x.prompt.behind_at? hat.symm rfl
      exact absurd hid (Nat.not_le_of_lt hlt)
  | pipe _ hat =>
      rw [hout] at hat
      cases hat
      exact hshell _ _ h.forked.read rfl

/-- Nobody can write to the pipe of the child before. -/
theorem Waiting.noWriter (h : x.Waiting w f b i es s) (hi : s.child i = .running p t fdIn fdOut) {id : Nat}
    (hin : t.at? stdin = some (.readEnd id)) (hid : x.prompt.pipes ≤ id) : s.NoHolder (.writeEnd id) := by
  have hactive := h.active hi
  have hreads := hactive.reads
  cases hreads with
  | file _ hat =>
      rw [hin] at hat
      cases hat
  | inherited _ hat =>
      rw [hin] at hat
      have hlt := x.prompt.behind_at? hat.symm rfl
      exact absurd hid (Nat.not_le_of_lt hlt)
  | @pipe k hk hat =>
      rw [hin] at hat
      cases hat
      constructor
      · rintro n d hd rfl
        subst hk
        exact h.forked.noWriter (Nat.succ_ne_zero k) n hd
      · intro j t' ht'
        have hj : j = i := by
          by_contra hne
          rcases Nat.lt_or_gt_of_ne hne with hlt | hgt
          · rw [h.gone j hlt] at ht'
            cases ht'
          · rw [h.later j hgt] at ht'
            cases ht'
        subst hj
        rw [hi] at ht'
        cases ht'
        exact hactive.noWriter k hk

/-- What is taken for granted: there is a command, the path of each command fits, each program computes what `f`
says, the first command does not read the file that the last one writes, and every output but the last one
fits into a pipe. -/
structure Proper (x : Task φ σ) (w : World φ) (f : σ → List UInt8 → List UInt8) (b : σ → List UInt8 → Nat) :
    Prop where
  pos : 0 < x.num
  paths : ∀ c ∈ x.commands, x.toHost.PathFits c.1 (c.2.headD [])
  computes : ∀ i p, i < x.num → x.proc i w.files = .program p → Computes x.act p (f p) (b p)
  apart : x.Apart w
  fits : ∀ i, i + 1 < x.num → (x.outputs w f i).length ≤ x.capacity

/-- Every process of a proper line computes. -/
theorem Proper.proc (h : x.Proper w f b) (hi : i < x.num) : Computes (Proc.act x.act) (x.proc i w.files)
    ((x.proc i w.files).value f) ((x.proc i w.files).bound b) :=
  Proc.computes fun p hp => h.computes i p hi hp

/-- A program ends, and its output is complete. -/
theorem Waiting.exit (h : x.Waiting w f b i es s) (hproper : x.Proper w f b)
    (hi : s.child i = .running p t fdIn fdOut) (hact : Proc.act x.act p = .exit) :
    x.Waiting w f b i (es ++ [e]) (s.setChild i .gone) := by
  have hactive := h.active hi
  obtain ⟨ios, hrun, hold, hlen⟩ := hactive.history
  have hcomputes := hproper.proc h.lt
  have hresult := hcomputes.result _ _ _ _ hrun hact
  have hsteps := hcomputes.length _ _ _ hrun
  rw [hresult, ← outputs_eq] at hold
  refine h.next rfl rfl (fun _ _ => rfl) (.gone ⟨hold.pipe, hold.files, hold.screen⟩ ?_)
  rw [List.length_append, List.length_singleton, spent]
  omega

/-- `waitpid` returns. -/
theorem Waiting.wait (h : x.Waiting w f b i es s) (hgone : s.child i = .gone) : x.Inv w f b (es ++ [.wait])
    { s with
      shell := if i + 1 < x.num then cleanUp x.num i s.shell else finish (cleanUp x.num i s.shell)
      round := if i + 1 < x.num then .fork (i + 1) else .done } := by
  have hphase := h.phase
  rw [hgone] at hphase
  cases hphase with
  | gone hold hlen =>
  have hlength : (es ++ [Happening.wait]).length ≤ x.spent w f b (i + 1) := by
    rw [List.length_append]
    exact hlen
  have hexited : ∀ j < i + 1, s.child j = .gone := by
    intro j hj
    rcases Nat.lt_succ_iff_lt_or_eq.mp hj with hj | rfl
    · exact h.gone j hj
    · exact hgone
  by_cases hlt : i + 1 < x.num
  · rw [if_pos hlt, if_pos hlt]
    refine AtFork.inv (i := i + 1) ⟨hlt, h.forked.cleanUp hlt, h.last, hexited, fun j hj => h.later j hj,
      fun k hk => h.empty k hk, ?_, hlength⟩ rfl
    refine ⟨?_, ?_, fun hzero => absurd hzero (Nat.succ_ne_zero i), ?_⟩
    · exact hold.files.trans (filesWith_of_lt hlt _)
    · exact hold.screen.trans (screenWith_of_lt hlt _)
    · rintro k hk
      obtain rfl := Nat.succ.inj hk
      exact hold.pipe hlt
  · have hnum : x.num = i + 1 := Nat.le_antisymm (Nat.le_of_not_lt hlt) h.lt
    rw [if_neg hlt, if_neg hlt]
    refine Finished.inv ⟨?_, hnum ▸ hexited, ?_, ?_, hnum ▸ hlength⟩ rfl
    · have hlast := h.last
      unfold behind at hlast
      rw [hnum, Nat.sub_self, Nat.sub_zero] at hlast
      show finish _ = finish _
      rw [hnum]
      exact congrArg finish hlast
    · intro j hj
      exact h.later j (by omega)
    · rw [hnum, Nat.add_sub_cancel]
      exact ⟨hold.pipe, hold.files, hold.screen⟩

/-! ### Runs -/

/-- What a step preserves. -/
theorem Inv.step (h : x.Inv w f b es s) (hproper : x.Proper w f b) (hstep : x.Step s e s') :
    x.Inv w f b (es ++ [e]) s' := by
  cases hstep with
  | fork hround => exact (h.atFork hround).fork.inv rfl
  | start hi hpath =>
      obtain ⟨hround, hwaiting⟩ := h.of_child hi nofun nofun
      exact (hwaiting.start hproper.apart hi).inv hround
  | readPipe hi hin hid hio hread heof =>
      obtain ⟨hround, hwaiting⟩ := h.of_child hi nofun nofun
      exact (hwaiting.readPipe hi hin hid hio hread).inv hround
  | readFile hi hin hio hread =>
      obtain ⟨hround, hwaiting⟩ := h.of_child hi nofun nofun
      exact (hwaiting.readFile hi hio hread).inv hround
  | readInherited hi hin hio hread =>
      obtain ⟨hround, hwaiting⟩ := h.of_child hi nofun nofun
      exact (hwaiting.readInherited hi hin hio hread).inv hround
  | writePipe hi hout hid hact hroom hsome =>
      obtain ⟨hround, hwaiting⟩ := h.of_child hi nofun nofun
      exact (hwaiting.writePipe hi hout hid hact).inv hround
  | writeFile hi hout hact =>
      obtain ⟨hround, hwaiting⟩ := h.of_child hi nofun nofun
      exact (hwaiting.writeFile hproper.apart hi hout hact).inv hround
  | writeInherited hi hout hact =>
      obtain ⟨hround, hwaiting⟩ := h.of_child hi nofun nofun
      exact (hwaiting.writeInherited hi hout hact).inv hround
  | killed hi hout hid hact hnone =>
      obtain ⟨-, hwaiting⟩ := h.of_child hi nofun nofun
      exact absurd hnone (hwaiting.not_noReader (hwaiting.active hi) hout hid)
  | exit hi hact =>
      obtain ⟨hround, hwaiting⟩ := h.of_child hi nofun nofun
      exact (hwaiting.exit hproper hi hact).inv hround
  | wait hround hgone => exact (h.waiting hround).wait hgone

/-- The invariant holds in every run. -/
theorem inv_of_run (hproper : x.Proper w f b) (h : Run x.Step (x.init w) es s) : x.Inv w f b es s :=
  h.history (x.Inv w f b) (fun _ _ _ _ hinv hstep => hinv.step hproper hstep) (inv_init hproper.pos)

/-- There is room for what a child writes to its pipe. -/
theorem Active.room (h : x.Active w f b i es s p t fdIn fdOut) (hproper : x.Proper w f b) (hlt : i + 1 < x.num)
    {byte : UInt8} (hact : Proc.act x.act p = .write byte p') :
    (s.pipe (x.prompt.pipes + i)).length < x.capacity := by
  obtain ⟨ios, hrun, hold, -⟩ := h.history
  have hmore : Run (OnInput (Proc.act x.act)) _ (ios ++ [.write byte]) _ := hrun.snoc (.write hact)
  have hcomputes := hproper.proc (Nat.lt_of_succ_lt hlt)
  have hprefix := hcomputes.written_prefix hmore
  rw [← outputs_eq, written_append] at hprefix
  have hlen := Nat.le_trans hprefix.length_le (hproper.fits i hlt)
  rw [List.length_append, ← hold.pipe hlt] at hlen
  exact hlen

/-- **No child waits for ever.** -/
theorem Waiting.exists_step (h : x.Waiting w f b i es s) (hproper : x.Proper w f b)
    (hi : s.child i = .running p t fdIn fdOut) : ∃ e s', x.Step s e s' := by
  have hactive := h.active hi
  rcases hact : Proc.act x.act p with ⟨size, hsize, next⟩ | ⟨byte, p'⟩ | _
  · have hnot : Proc.act x.act p ≠ .exit := by
      rw [hact]
      nofun
    obtain ⟨io, ⟨p', rest⟩, hio⟩ := exists_onInput hnot (x.left i fdIn s)
    have hread := hio.written?_eq_none hact
    have hreads := hactive.reads
    cases hreads with
    | file hzero hat => exact ⟨_, _, .readFile hi hat hio hread⟩
    | inherited hzero hat =>
        subst hzero
        exact ⟨_, _, .readInherited hi (hat ▸ inherited_prompt _) hio hread⟩
    | @pipe k hk hat =>
        subst hk
        have hid := Nat.le_add_right x.prompt.pipes k
        exact ⟨_, _, .readPipe hi hat hid hio hread fun _ => h.noWriter hi hat hid⟩
  · have hwrites := hactive.writes
    cases hwrites with
    | file _ hat _ => exact ⟨_, _, .writeFile hi hat hact⟩
    | inherited _ hat => exact ⟨_, _, .writeInherited hi (hat ▸ inherited_prompt _) hact⟩
    | pipe hlt hat =>
        have hid := Nat.le_add_right x.prompt.pipes i
        exact ⟨_, _, .writePipe hi hat hid hact (hactive.room hproper hlt hact) (h.not_noReader hactive hat hid)⟩
  · exact ⟨_, _, .exit hi hact⟩

/-- A line that is not done can go on. -/
theorem Inv.exists_step (h : x.Inv w f b es s) (hproper : x.Proper w f b) (hround : s.round ≠ .done) :
    ∃ e s', x.Step s e s' := by
  rcases hat : s.round with i | i | _
  · exact ⟨_, _, .fork hat⟩
  · have hwaiting := h.waiting hat
    have hphase := hwaiting.phase
    generalize hi : s.child i = c at hphase
    cases hphase with
    | forked =>
        exact ⟨_, _, .start hi fun _ _ _ c hc => hproper.paths c (List.mem_of_getElem? hc)⟩
    | running => exact hwaiting.exists_step hproper hi
    | gone => exact ⟨_, _, .wait hat hi⟩
  · exact absurd hat hround

/-- More commands take more steps. -/
theorem spent_mono {j : Nat} (hij : i ≤ j) : x.spent w f b i ≤ x.spent w f b j := by
  induction hij with
  | refl => exact Nat.le_refl _
  | step _ ih => exact Nat.le_trans ih (Nat.le_trans (Nat.le_add_right _ _) (Nat.le_add_right _ _))

/-- A child takes no more steps than its program. -/
theorem Waiting.length_le (h : x.Waiting w f b i es s) (hproper : x.Proper w f b) :
    es.length ≤ x.spent w f b (i + 1) := by
  have hphase := h.phase
  generalize hi : s.child i = c at hphase
  cases hphase with
  | forked _ _ hlen =>
      rw [spent]
      omega
  | running hactive =>
      obtain ⟨ios, hrun, -, hlen⟩ := hactive.history
      have hsteps := (hproper.proc h.lt).length _ _ _ hrun
      rw [spent]
      omega
  | gone _ hlen => exact Nat.le_of_succ_le hlen

/-- No run is longer than this. -/
theorem Inv.length_le (h : x.Inv w f b es s) (hproper : x.Proper w f b) : es.length ≤ x.spent w f b x.num := by
  rcases hat : s.round with i | i | _
  · have hfork := h.atFork hat
    exact Nat.le_trans hfork.length (spent_mono (Nat.le_of_lt hfork.lt))
  · have hwaiting := h.waiting hat
    exact Nat.le_trans (hwaiting.length_le hproper) (spent_mono hwaiting.lt)
  · exact (h.finished hat).length

/-- Every run can be continued to the end of the line. -/
theorem exists_done (hproper : x.Proper w f b) (h : Run x.Step (x.init w) es s) :
    ∃ es' s', Run x.Step s es' s' ∧ s'.round = .done := by
  obtain ⟨es', s', hrun', hfinal⟩ := @exists_final_of_length_le _ _ x.Step s (x.spent w f b x.num)
    fun es' s' hrun' => Nat.le_trans (Nat.le_add_left _ _)
      (List.length_append ▸ (inv_of_run hproper (run_append_iff.mpr ⟨s, h, hrun'⟩)).length_le hproper)
  refine ⟨es', s', hrun', ?_⟩
  by_contra hround
  obtain ⟨e, s'', hstep⟩ := (inv_of_run hproper (run_append_iff.mpr ⟨s, h, hrun'⟩)).exists_step hproper hround
  exact hfinal e s'' hstep

end steps

end Task

end SystemProgrammingLab.Pa2
