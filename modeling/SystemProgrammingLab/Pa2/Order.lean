import SystemProgrammingLab.Pa2.Regions

/-!
# The order of the redirections

`parse_command` searches the input first, and an output only behind what it has found. So an output that is
written in front of an input is never found: its operator and its file stay arguments of the command. The two
orders never give the same (`not_sameEitherWay`).

Source: `pa2/main.c`
-/

namespace SystemProgrammingLab.Pa2

open SystemProgrammingLab.Found

/-! ## A command with two redirections -/

/-- A word without blanks that is no operator. -/
def IsPlain (w : Text) : Prop := IsToken ' ' w ∧ terminator ∉ w ∧ ∀ i, w ≠ Redirection.operator i

/-- The words of a command, and the files of its input and its output. -/
structure TwoFiles where
  name : Text
  args : List Text
  input : Text
  output : Text
  plain : ∀ w ∈ name :: input :: output :: args, IsPlain w

namespace TwoFiles

variable (c : TwoFiles) (i : Redirection)

/-- The words behind the name, with the input first. -/
def inputFirst : List Text :=
  c.args ++ [Redirection.operator .input, c.input, i.operator, c.output]

/-- The words behind the name, with the output `i` first. -/
def outputFirst : List Text :=
  c.args ++ [i.operator, c.output, Redirection.operator .input, c.input]

end TwoFiles

/-! ## What `parse_command` gives -/

/-- The argument vector, `arg_num` and the file names; the inner `none` in a vector is `NULL`. -/
structure Outcome where
  argv : List (Option (Option Text))
  argNum : Nat
  redirectIn : Option (Option Text)
  redirectOut : Option (Option Text)
  redirectOutAppend : Option (Option Text)

/-- What a command at the node `node` is parsed to, where `before` has the strings of the nodes in front. -/
def outcome (node : Nat) (before : NodePtr → Option Text) (r : Redirects) (words : List Text) : Option Outcome :=
  (parseCommand node (joined ' ' words ++ [terminator]) r).map fun (command, cmd, r) =>
    let file (ptr : NodePtr) := if ptr.node = node then textAt cmd ptr.offset else before ptr
    ⟨command.args.map (Option.map (textAt cmd)), command.argNum, r.redirectIn.map file,
      r.redirectOut.map file, r.redirectOutAppend.map file⟩

/-- Both orders are parsed, and to the same. -/
def SameEitherWay (node : Nat) (before : NodePtr → Option Text) (r : Redirects) (c : TwoFiles)
    (i : Redirection) : Prop :=
  ∃ o, outcome node before r (c.name :: c.inputFirst i) = some o ∧
    outcome node before r (c.name :: c.outputFirst i) = some o

section parsed

variable {node : Nat} {before : NodePtr → Option Text} {r : Redirects} {c : TwoFiles} {i : Redirection}
  {words : List Text}

/-- No operator has the terminator in it. -/
theorem terminator_notMem_operator (i : Redirection) : terminator ∉ i.operator := by
  cases i <;> decide

/-- The arguments of an outcome are the name and the words in front of the first operator, and `NULL` behind
them; `arg_num` is their number. -/
theorem words_outcome {x : Text} {ws : List Text} (hx : IsPlain x)
    (hws : ∀ w ∈ ws, IsPlain w ∨ ∃ j, w = Redirection.operator j) (hfollowed : Followed ws) {o : Outcome}
    (h : outcome node before r (x :: ws) = some o) :
    o.argv = (x :: (regions redirections ws).1).map (some ∘ some) ++ [none] ∧
      o.argNum = (regions redirections ws).1.length + 1 := by
  have htokens : ∀ w ∈ ws, IsToken ' ' w := by
    intro w hw
    rcases hws w hw with hplain | ⟨j, rfl⟩
    · exact hplain.1
    · exact isToken_operator j
  have hnul : terminator ∉ x ++ led ' ' ws ++ [] := by
    rw [List.append_nil, List.mem_append, not_or]
    refine ⟨hx.2.1, notMem_led (by decide) ?_⟩
    intro w hw
    rcases hws w hw with hplain | ⟨j, rfl⟩
    · exact hplain.2.1
    · exact terminator_notMem_operator j
  obtain ⟨args, cmd, r', hparsed, hparse⟩ :=
    parseCommand_spec node hx.1 htokens hfollowed (.inl rfl) hnul r
  rw [List.append_nil] at hparse
  unfold outcome joined at h
  rw [hparse] at h
  split_ifs at h
  · obtain rfl := Option.some.inj h
    refine ⟨hparsed.argv, ?_⟩
    have hlen := congrArg List.length hparsed.args
    simpa using hlen
  · cases h

/-- The arguments are plain. -/
theorem TwoFiles.plain_args : ∀ w ∈ c.args, IsPlain w := fun w hw => c.plain w (by simp [hw])

/-- No operator is among plain words. -/
theorem operator_notMem_plain {ws : List Text} (h : ∀ w ∈ ws, IsPlain w) (i : Redirection) :
    i.operator ∉ ws := fun hmem => (h _ hmem).2.2 i rfl

/-- Plain words in front of words with their files: every operator still has its file. -/
theorem followed_plain {as ws : List Text} (has : ∀ w ∈ as, IsPlain w) (h : Followed ws) : Followed (as ++ ws) := by
  induction as with
  | nil => exact h
  | cons w as ih =>
      rw [List.forall_mem_cons] at has
      exact (ih has.2).cons has.1.2.2

/-- Two files behind the arguments, in some order. -/
theorem words_twoFiles {j k : Redirection} {f g : Text} (hf : IsPlain f) (hg : IsPlain g) {o : Outcome}
    (h : outcome node before r (c.name :: (c.args ++ [j.operator, f, k.operator, g])) = some o) :
    o.argv = (c.name :: (regions redirections (c.args ++ [j.operator, f, k.operator, g])).1).map (some ∘ some) ++
        [none] ∧
      o.argNum = (regions redirections (c.args ++ [j.operator, f, k.operator, g])).1.length + 1 := by
  refine words_outcome (c.plain _ List.mem_cons_self) ?_ ?_ h
  · intro w hw
    rcases List.mem_append.mp hw with hw | hw
    · exact .inl (c.plain_args w hw)
    · simp only [List.mem_cons, List.not_mem_nil, or_false] at hw
      rcases hw with rfl | rfl | rfl | rfl
      · exact .inr ⟨j, rfl⟩
      · exact .inl hf
      · exact .inr ⟨k, rfl⟩
      · exact .inl hg
  · exact followed_plain c.plain_args ((followed_nil.file k hg.2.2).file j hf.2.2)

/-- With the input first, both operators are taken out of the arguments. -/
theorem words_inputFirst {o : Outcome} (h : outcome node before r (c.name :: c.inputFirst i) = some o) :
    o.argv = (c.name :: c.args).map (some ∘ some) ++ [none] ∧ o.argNum = c.args.length + 1 := by
  have hnot := operator_notMem_plain c.plain_args (i := .input)
  have hwords := words_twoFiles (c.plain _ (by simp)) (c.plain _ (by simp)) h
  rw [redirections, regions_append hnot] at hwords
  exact hwords

/-- The output in front of the input is left to the arguments, with its file: the program is executed with
them. -/
theorem words_outputFirst (hi : i ≠ .input) {o : Outcome}
    (h : outcome node before r (c.name :: c.outputFirst i) = some o) :
    o.argv = (c.name :: (c.args ++ [i.operator, c.output])).map (some ∘ some) ++ [none] ∧
      o.argNum = (c.args ++ [i.operator, c.output]).length + 1 := by
  have hoperator : Redirection.operator .input ≠ i.operator := fun heq => hi (operator_injective heq).symm
  have houtput : IsPlain c.output := c.plain _ (by simp)
  have hnot : Redirection.operator .input ∉ c.args ++ [i.operator, c.output] := by
    rw [List.mem_append, not_or]
    refine ⟨operator_notMem_plain c.plain_args _, ?_⟩
    simp [hoperator, (houtput.2.2 .input).symm]
  have hshape : c.args ++ [i.operator, c.output, Redirection.operator .input, c.input] =
      c.args ++ [i.operator, c.output] ++ Redirection.operator .input :: [c.input] := by simp
  have hwords := words_twoFiles houtput (c.plain _ (by simp)) h
  rw [hshape, redirections, regions_append hnot] at hwords
  exact hwords

/-- The two orders differ in the argument vector. -/
theorem not_sameEitherWay_of_ne (hi : i ≠ .input) : ¬ SameEitherWay node before r c i := by
  rintro ⟨o, hinput, houtput⟩
  obtain ⟨hargv₁, -⟩ := words_inputFirst hinput
  obtain ⟨hargv₂, -⟩ := words_outputFirst hi houtput
  have hlen := congrArg List.length (hargv₁.symm.trans hargv₂)
  simp at hlen

end parsed

/-- **The two orders are never parsed to the same**: the output in front of the input is lost. -/
theorem orders_differ (node : Nat) (before : NodePtr → Option Text) (r : Redirects) (c : TwoFiles) :
    ¬ SameEitherWay node before r c .output ∧ ¬ SameEitherWay node before r c .append :=
  ⟨not_sameEitherWay_of_ne (by decide), not_sameEitherWay_of_ne (by decide)⟩

/-- `sort` from `a` to `b`. -/
def sortFiles : TwoFiles where
  name := "sort".toList
  args := []
  input := ['a']
  output := ['b']
  plain := by
    intro w hw
    simp only [List.mem_cons, List.not_mem_nil, or_false] at hw
    rcases hw with rfl | rfl | rfl <;> exact ⟨⟨by decide, by decide⟩, by decide, fun i => by cases i <;> decide⟩

/-- `sort > b < a` is parsed to `sort` with the arguments `>` and `b`. -/
theorem not_sameEitherWay :
    ¬ SameEitherWay 0 (fun _ => none) ⟨none, none, none⟩ sortFiles .output :=
  not_sameEitherWay_of_ne (by decide)

end SystemProgrammingLab.Pa2
