import SystemProgrammingLab.Found.Run
import SystemProgrammingLab.Pa2.Wiring

/-!
# The bytes in a pipeline

A child writes its output to its standard output and reads its standard input until the end of file,
in any order, and exits. A pipe holds at most `capacity` bytes, and the shell starts the next child
when `waitpid` has returned. Which pipe a child reads and which one it writes is what its table of
descriptors says when it executes its command.

`Steady` is what holds in every state: the children before the current one have exited, and what the
current one has written is in its pipe, because nobody reads it.

Source: `pa2/main.c`
-/

namespace SystemProgrammingLab.Pa2

open SystemProgrammingLab.Found

/-! ## The processes -/

/-- A line of commands to be run: the prompt, the number of commands and their files, the capacity of a
pipe, and how many bytes each command writes. -/
structure Job where
  prompt : Prompt
  num : Nat
  files : Files
  capacity : Nat
  output : Nat → Nat

/-- A child: its table, how many bytes it has still to write, whether it has seen the end of its input,
and whether it has exited. -/
structure Child where
  table : Table Desc
  left : Nat
  atEof : Bool
  exited : Bool

/-- Where the loop of the shell is. Source: `main`, the loop over the commands -/
inductive Stage
  | fork (i : Nat)
  | wait (i : Nat)
  | done

/-- The shell, the children that it has started, and the number of bytes in each pipe. -/
structure Flow where
  shell : Shell
  stage : Stage
  started : Nat
  child : Nat → Child
  bytes : Nat → Nat

/-- A step of the shell or of a child. -/
inductive Event
  | fork
  | write (j : Nat)
  | read (j : Nat)
  | eof (j : Nat)
  | exit (j : Nat)
  | wait

/-- Child `j` was started and has not exited. -/
def Flow.Alive (s : Flow) (j : Nat) : Prop := j < s.started ∧ (s.child j).exited = false

/-- A child goes on. -/
def Flow.setChild (s : Flow) (j : Nat) (c : Child) : Flow :=
  { s with child := Function.update s.child j c }

/-- The number of bytes in a pipe changes. -/
def Flow.setBytes (s : Flow) (id n : Nat) : Flow :=
  { s with bytes := Function.update s.bytes id n }

/-- The child is what was set. -/
@[simp] theorem Flow.child_setChild (s : Flow) (j : Nat) (c : Child) : (s.setChild j c).child j = c :=
  Function.update_self ..

/-- The bytes in a pipe do not change the children. -/
@[simp] theorem Flow.child_setBytes (s : Flow) (id n : Nat) : (s.setBytes id n).child = s.child := rfl

/-- The number of bytes is what was set. -/
@[simp] theorem Flow.bytes_setBytes (s : Flow) (id n : Nat) : (s.setBytes id n).bytes id = n :=
  Function.update_self ..

/-- No process that is alive can write to the pipe. -/
def Flow.NoWriter (s : Flow) (id : Nat) : Prop :=
  s.shell.table.All (· ≠ .writeEnd id) ∧
    ∀ j, s.Alive j → (s.child j).table.All (· ≠ .writeEnd id)

namespace Job

variable (x : Job)

/-- The pipe of this line that the descriptor is the read end of; the pipes of the line are numbered
from `prompt.pipes` on. -/
def readPipe? : Desc → Option Nat
  | .readEnd id => if x.prompt.pipes ≤ id then some id else none
  | _ => none

/-- The pipe of this line that the descriptor is the write end of. -/
def writePipe? : Desc → Option Nat
  | .writeEnd id => if x.prompt.pipes ≤ id then some id else none
  | _ => none

/-- The pipe that a process reads as its standard input. -/
def pipeIn (t : Table Desc) : Option Nat := (t.at? stdin).bind x.readPipe?

/-- The pipe that a process writes as its standard output. -/
def pipeOut (t : Table Desc) : Option Nat := (t.at? stdout).bind x.writePipe?

/-- The shell in front of the loop over the commands. -/
def init : Flow where
  shell := { x.prompt.toShell with fd1 := (-1, -1), fd2 := (-1, -1) }
  stage := if 0 < x.num then .fork 0 else .done
  started := 0
  child := fun _ => ⟨x.prompt.table, 0, false, true⟩
  bytes := fun _ => 0

/-- A child that was just started. -/
def start (i : Nat) (forked : Shell) : Child :=
  ⟨childTable x.num i x.files forked, x.output i, false, false⟩

/-- The steps of the shell and of the children. A child blocks on a full pipe, and on an empty one that somebody
can still write to; what is no pipe of this line never blocks it. Source: `main`, the loop over the commands -/
inductive Step : Flow → Event → Flow → Prop
  | fork {s : Flow} {i : Nat} (hstage : s.stage = .fork i) :
      Step s .fork { s.setChild i (x.start i (prepare i s.shell)) with
        shell := prepare i s.shell, stage := .wait i, started := i + 1 }
  | write {s : Flow} {j : Nat} {c : Child} (halive : s.Alive j) (hc : s.child j = c)
      (hleft : 0 < c.left) (hout : x.pipeOut c.table = none) :
      Step s (.write j) (s.setChild j { c with left := c.left - 1 })
  | writePipe {s : Flow} {j id : Nat} {c : Child} (halive : s.Alive j) (hc : s.child j = c)
      (hleft : 0 < c.left) (hout : x.pipeOut c.table = some id) (hroom : s.bytes id < x.capacity) :
      Step s (.write j) ((s.setChild j { c with left := c.left - 1 }).setBytes id (s.bytes id + 1))
  | readPipe {s : Flow} {j id : Nat} {c : Child} (halive : s.Alive j) (hc : s.child j = c)
      (hin : x.pipeIn c.table = some id) (hbytes : 0 < s.bytes id) :
      Step s (.read j) (s.setBytes id (s.bytes id - 1))
  | eof {s : Flow} {j : Nat} {c : Child} (halive : s.Alive j) (hc : s.child j = c)
      (hin : ∀ id ∈ x.pipeIn c.table, s.bytes id = 0 ∧ s.NoWriter id) :
      Step s (.eof j) (s.setChild j { c with atEof := true })
  | exit {s : Flow} {j : Nat} {c : Child} (halive : s.Alive j) (hc : s.child j = c)
      (hleft : c.left = 0) (heof : c.atEof = true) :
      Step s (.exit j) (s.setChild j { c with exited := true })
  | wait {s : Flow} {i : Nat} (hstage : s.stage = .wait i) (hexit : (s.child i).exited = true) :
      Step s .wait { s with
        shell := cleanUp x.num i s.shell
        stage := if i + 1 < x.num then .fork (i + 1) else .done }

/-- The shell waits for a child that has output left for a full pipe, and no child that is alive reads
that pipe. -/
def Stuck (s : Flow) : Prop :=
  ∃ i id, s.stage = .wait i ∧ s.Alive i ∧ 0 < (s.child i).left ∧
    x.pipeOut (s.child i).table = some id ∧ x.capacity ≤ s.bytes id ∧
      ∀ j, s.Alive j → x.pipeIn (s.child j).table ≠ some id

/-- No reachable state is stuck. -/
def NeverStuck : Prop := ∀ es s, Run x.Step x.init es s → ¬ x.Stuck s

/-! ## What holds in every state -/

/-- The shell is about to start child `i`: the children before have exited, and the pipes from the one
of this round on are empty. -/
structure AtFork (i : Nat) (s : Flow) : Prop where
  lt : i < x.num
  ready : Ready x.prompt i s.shell
  started : s.started = i
  exited : ∀ j < i, (s.child j).exited = true
  empty : ∀ k, i ≤ k → s.bytes (x.prompt.pipes + k) = 0

/-- The shell waits for child `i`, and what that child has written is in its pipe. -/
structure Waiting (i : Nat) (s : Flow) : Prop where
  lt : i < x.num
  forked : Forked x.prompt i s.shell
  started : s.started = i + 1
  exited : ∀ j < i, (s.child j).exited = true
  wired : Wired x.prompt x.num x.files i ⟨(s.child i).table, s.shell.table, x.prompt.pipes + i⟩
  own : i + 1 < x.num → s.bytes (x.prompt.pipes + i) + (s.child i).left = x.output i
  empty : ∀ k, i < k → s.bytes (x.prompt.pipes + k) = 0

/-- The invariant of a round: the shell is to fork the next child, or waits for the last one. -/
def Steady (s : Flow) : Prop :=
  match s.stage with
  | .fork i => x.AtFork i s
  | .wait i => x.Waiting i s
  | .done => True

variable {x} {s s' : Flow} {i j : Nat}

/-- In a round that is to fork. -/
theorem Steady.atFork (h : x.Steady s) (hstage : s.stage = .fork i) : x.AtFork i s := by
  rw [Steady, hstage] at h
  exact h

/-- In a round that waits. -/
theorem Steady.waiting (h : x.Steady s) (hstage : s.stage = .wait i) : x.Waiting i s := by
  rw [Steady, hstage] at h
  exact h

/-- A round that waits keeps the invariant. -/
theorem Waiting.steady (h : x.Waiting i s) (hstage : s.stage = .wait i) : x.Steady s := by
  rw [Steady, hstage]
  exact h

/-- A round that is to fork keeps the invariant. -/
theorem AtFork.steady (h : x.AtFork i s) (hstage : s.stage = .fork i) : x.Steady s := by
  rw [Steady, hstage]
  exact h

/-! ### Which pipes the child has -/

/-- What is open at the prompt is no pipe of the line. -/
theorem prompt_pipes {fd : Int} {d : Desc} (h : x.prompt.table.at? fd = some d) :
    x.readPipe? d = none ∧ x.writePipe? d = none := by
  cases d with
  | readEnd id => exact ⟨if_neg (Nat.not_le_of_lt (x.prompt.behind_at? h rfl)), rfl⟩
  | writeEnd id => exact ⟨rfl, if_neg (Nat.not_le_of_lt (x.prompt.behind_at? h rfl))⟩
  | other k => exact ⟨rfl, rfl⟩
  | file k name => exact ⟨rfl, rfl⟩

/-- At the prompt no pipe of the line is open. -/
theorem prompt_bind (fd : Int) : (x.prompt.table.at? fd).bind x.readPipe? = none ∧
    (x.prompt.table.at? fd).bind x.writePipe? = none := by
  rcases hd : x.prompt.table.at? fd with _ | d
  · exact ⟨rfl, rfl⟩
  · exact prompt_pipes hd

/-- A child but the first one reads from the pipe in front of it. -/
theorem Waiting.pipeIn (h : x.Waiting i s) : x.pipeIn (s.child i).table =
    if i = 0 then none else some (x.prompt.pipes + (i - 1)) := by
  unfold Job.pipeIn
  rw [h.wired.stdin]
  split_ifs
  · unfold Files.stdinFile
    rcases x.files.redirectIn with _ | name
    · exact (prompt_bind _).1
    · rfl
  · exact if_pos (Nat.le_add_right _ _)

/-- A child but the last one writes to the pipe behind it. -/
theorem Waiting.pipeOut (h : x.Waiting i s) : x.pipeOut (s.child i).table =
    if i + 1 < x.num then some (x.prompt.pipes + i) else none := by
  have hlt := h.lt
  unfold Job.pipeOut
  rw [h.wired.stdout]
  by_cases hlast : i = x.num - 1
  · rw [if_pos hlast, if_neg (by omega)]
    unfold Files.stdoutFile
    rcases x.files.redirectOut with _ | name
    · rcases x.files.redirectOutAppend with _ | name
      · exact (prompt_bind _).2
      · rfl
    · rfl
  · rw [if_neg hlast, if_pos (by omega)]
    exact if_pos (Nat.le_add_right _ _)

/-- Only the child that the shell waits for is alive. -/
theorem Waiting.eq_of_alive (h : x.Waiting i s) (halive : s.Alive j) : j = i := by
  obtain ⟨hlt, hexited⟩ := halive
  rw [h.started] at hlt
  by_contra hne
  rw [h.exited j (by omega)] at hexited
  cases hexited

/-- While a child is alive the shell waits for it, or has left the loop. -/
theorem Steady.of_alive (h : x.Steady s) (halive : s.Alive j) :
    s.stage = .done ∨ (s.stage = .wait j ∧ x.Waiting j s) := by
  rcases hstage : s.stage with i | i | _
  · have hfork := h.atFork hstage
    obtain ⟨hlt, hexited⟩ := halive
    rw [hfork.exited j (hfork.started ▸ hlt)] at hexited
    cases hexited
  · have hwaiting := h.waiting hstage
    obtain rfl := hwaiting.eq_of_alive halive
    exact .inr ⟨rfl, hwaiting⟩
  · exact .inl rfl

/-! ### What a step preserves -/

/-- The invariant holds at the start. -/
theorem steady_init : x.Steady x.init := by
  unfold Steady init
  dsimp only
  split_ifs with h
  · exact ⟨h, x.prompt.ready, rfl, fun j hj => absurd hj (Nat.not_lt_zero j), fun _ _ => rfl⟩
  · trivial

/-- The shell copies its descriptors, makes a pipe, and forks. -/
theorem AtFork.fork (h : x.AtFork i s) : x.Waiting i
    { s.setChild i (x.start i (prepare i s.shell)) with
      shell := prepare i s.shell, stage := .wait i, started := i + 1 } := by
  have hforked := h.ready.prepare
  refine ⟨h.lt, hforked, rfl, ?_, ?_, ?_, ?_⟩
  · intro j hj
    have hne : j ≠ i := Nat.ne_of_lt hj
    show (Function.update s.child i _ j).exited = true
    rw [Function.update_of_ne hne]
    exact h.exited j hj
  · show Wired _ _ _ i ⟨(Function.update s.child i _ i).table, _, _⟩
    rw [Function.update_self]
    exact hforked.wired h.lt x.files
  · intro _
    show s.bytes _ + (Function.update s.child i _ i).left = x.output i
    rw [Function.update_self, h.empty i le_rfl, Nat.zero_add]
    rfl
  · exact fun k hk => h.empty k (Nat.le_of_lt hk)

/-- The current child does something, and the pipes from its own one on change with what it has left. -/
theorem Waiting.update (h : x.Waiting i s) {c : Child} (bytes : Nat → Nat)
    (htable : c.table = (s.child i).table) (hown : i + 1 < x.num → bytes (x.prompt.pipes + i) + c.left = x.output i)
    (hempty : ∀ k, i < k → bytes (x.prompt.pipes + k) = s.bytes (x.prompt.pipes + k)) :
    x.Waiting i { s.setChild i c with bytes := bytes } := by
  refine ⟨h.lt, h.forked, h.started, ?_, ?_, ?_, ?_⟩
  · intro j hj
    have hne : j ≠ i := Nat.ne_of_lt hj
    show (Function.update s.child i c j).exited = true
    rw [Function.update_of_ne hne]
    exact h.exited j hj
  · show Wired _ _ _ i ⟨(Function.update s.child i c i).table, _, _⟩
    rw [Function.update_self, htable]
    exact h.wired
  · show i + 1 < x.num → bytes _ + (Function.update s.child i c i).left = x.output i
    rw [Function.update_self]
    exact hown
  · exact fun k hk => (hempty k hk).trans (h.empty k hk)

/-- A pipe before the one of this round changes. -/
theorem Waiting.setBytes (h : x.Waiting i s) {id : Nat} (n : Nat)
    (hid : ∀ k, i ≤ k → x.prompt.pipes + k ≠ id) : x.Waiting i (s.setBytes id n) := by
  refine ⟨h.lt, h.forked, h.started, h.exited, h.wired, ?_, ?_⟩
  · intro hlt
    show Function.update s.bytes id n _ + (s.child i).left = x.output i
    rw [Function.update_of_ne (hid i le_rfl)]
    exact h.own hlt
  · intro k hk
    exact (Function.update_of_ne (hid k (Nat.le_of_lt hk)) _ _).trans (h.empty k hk)

/-- `waitpid` returns. -/
theorem Waiting.wait (h : x.Waiting i s) (hexit : (s.child i).exited = true) (hlt : i + 1 < x.num) :
    x.AtFork (i + 1) { s with shell := cleanUp x.num i s.shell, stage := .fork (i + 1) } := by
  refine ⟨hlt, h.forked.cleanUp hlt, h.started, ?_, h.empty⟩
  intro j hj
  rcases Nat.lt_succ_iff_lt_or_eq.mp hj with hj | rfl
  · exact h.exited j hj
  · exact hexit

/-- A step of a child is one of the child that the shell waits for. -/
theorem Steady.of_child (h : x.Steady s) (halive : s.Alive j) (hstage : s'.stage = s.stage)
    (hwaiting : x.Waiting j s → x.Waiting j s') : x.Steady s' := by
  rcases h.of_alive halive with hdone | ⟨hwait, hj⟩
  · rw [Steady, hstage, hdone]
    trivial
  · exact (hwaiting hj).steady (hstage.trans hwait)

/-- What a step preserves. -/
theorem Steady.step (h : x.Steady s) {e : Event} (hstep : x.Step s e s') : x.Steady s' := by
  cases hstep with
  | fork hstage => exact (h.atFork hstage).fork.steady rfl
  | write halive hc hleft hout =>
      subst hc
      refine h.of_child halive rfl fun hj => hj.update s.bytes rfl ?_ fun _ _ => rfl
      intro hlt
      rw [hj.pipeOut, if_pos hlt] at hout
      cases hout
  | writePipe halive hc hleft hout hroom =>
      subst hc
      refine h.of_child halive rfl fun hj => hj.update (Function.update s.bytes _ _) rfl ?_ ?_
      · intro hlt
        rw [hj.pipeOut, if_pos hlt] at hout
        cases hout
        have hown := hj.own hlt
        rw [Function.update_self]
        dsimp only
        omega
      · intro k hk
        rw [hj.pipeOut] at hout
        split_ifs at hout
        cases hout
        exact Function.update_of_ne (by omega) _ _
  | readPipe halive hc hin hbytes =>
      subst hc
      refine h.of_child halive rfl fun hj => ?_
      rw [hj.pipeIn] at hin
      split_ifs at hin
      cases hin
      exact hj.setBytes _ fun k hk => by omega
  | eof halive hc hin =>
      subst hc
      exact h.of_child halive rfl fun hj => hj.update s.bytes rfl hj.own fun _ _ => rfl
  | exit halive hc hleft heof =>
      subst hc
      exact h.of_child halive rfl fun hj => hj.update s.bytes rfl hj.own fun _ _ => rfl
  | @wait i hstage hexit =>
      have hwaiting := h.waiting hstage
      by_cases hlt : i + 1 < x.num
      · rw [if_pos hlt]
        exact (hwaiting.wait hexit hlt).steady rfl
      · rw [if_neg hlt]
        trivial

end Job

end SystemProgrammingLab.Pa2
