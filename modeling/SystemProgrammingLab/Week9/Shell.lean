import SystemProgrammingLab.Found.Argv

/-!
# Splitting a command line at its operator

The shell of week 9 reads a line, cuts its newline off and looks for an operator anywhere in it. `make_tokens` then
splits the line at blanks: the words up to the first one that starts with the operator go to `arg`, the words behind
that one to `arg2`. `main` uses `arg[0]` and `arg2[0]` for a path or as a file name.

For a line with one operator and words on both sides of it the two arrays hold the words in front of the operator and
those behind it exactly when a blank stands on both sides of the operator (`tokenise_iff`). Otherwise the operator is
part of a word: at its start the rest of the word is lost, and elsewhere `make_tokens` does not find it and `arg2[0]`
is `NULL`.

Source: `week9/main.c`
-/

namespace SystemProgrammingLab.Week9

open SystemProgrammingLab.Found

/-! ## `make_tokens` -/

/-- The number of cells of `arg` and `arg2`. Source: `main` -/
abbrev maxArgs : Nat := 128

/-- `ptr[0] == target[0]`. Source: `make_tokens` -/
def atTarget (target : Char) (buf : List Char) (ptr : Nat) : Option Bool :=
  (readAt buf ptr).map (· == target)

/-- The condition of the loops that take all tokens. -/
def never (_ : List Char) (_ : Nat) : Option Bool := some false

/-- The buffer, `arg` and `arg2` afterwards. Source: `make_tokens` -/
def makeTokens (buf : List Char) (cmd : Nat) (arg arg2 : List (Option Nat)) (target : Char) :
    Option (List Char × List (Option Nat) × List (Option Nat)) := do
  let (arg, buf, next) ← fillArgs ' ' (atTarget target) arg buf cmd
  let (arg2, buf, _) ← fillArgs ' ' never arg2 buf next
  return (buf, arg, arg2)

/-- The words in front of the first one that starts with the target. -/
def frontWords (target : Char) (s : List Char) : List (List Char) :=
  (splitText ' ' s).takeWhile fun w => !(w.head? == some target)

/-- The words behind the first one that starts with the target. -/
def backWords (target : Char) (s : List Char) : List (List Char) :=
  ((splitText ' ' s).dropWhile fun w => !(w.head? == some target)).tail

/-- Whether a word starts with the target. -/
theorem atTarget_eq (target : Char) {buf : List Char} {p : Nat} {w : List Char} (h : textAt buf p = some w)
    (hne : w ≠ []) : atTarget target buf p = some (w.head? == some target) := by
  obtain ⟨c, cs, rfl⟩ := List.exists_cons_of_ne_nil hne
  have hread : readAt buf (p : Nat) = some c := readAt_add h (k := 0) (Nat.succ_pos _)
  rw [atTarget, hread]
  rfl

/-- No word ends these loops. -/
def noStop (_ : List Char) : Bool := false

/-- No word is stopped at. -/
theorem never_eq {buf : List Char} {p : Nat} {w : List Char} (_ : textAt buf p = some w) (_ : w ≠ []) :
    never buf p = some (noStop w) := rfl

/-- So all words are taken. -/
theorem takeWhile_noStop (ws : List (List Char)) : (ws.takeWhile fun w => !noStop w) = ws :=
  List.takeWhile_eq_self_iff.mpr fun _ _ => rfl

section makeTokens

variable {buf s : List Char} {o : Nat} {arg arg2 : List (Option Nat)} {target : Char}

/-- When the words fit, the arrays hold them. -/
theorem makeTokens_fits (h : textAt buf o = some s) (hfront : (frontWords target s).length < arg.length)
    (hback : (backWords target s).length < arg2.length) :
    ∃ buf' arg' arg2', makeTokens buf o arg arg2 target = some (buf', arg', arg2') ∧
      argv buf' arg' = some (frontWords target s) ∧ argv buf' arg2' = some (backWords target s) := by
  obtain ⟨starts, behind, buf₁, next, rest, hrun, hstored, hsplit⟩ :=
    fillArgs_spec (atTarget_eq target) h hfront
  have hall : ((splitText ' ' rest).takeWhile fun w => !noStop w) = backWords target s := by
    rw [hsplit, takeWhile_noStop]
    rfl
  rw [← hall] at hback
  obtain ⟨starts₂, behind₂, buf₂, next₂, rest₂, hrun₂, hstored₂, -⟩ :=
    fillArgs_spec never_eq hstored.textAt_next hback
  rw [hall] at hstored₂
  refine ⟨buf₂, starts.map some ++ none :: behind, starts₂.map some ++ none :: behind₂, ?_,
    argv_append (hstored.texts buf₂ hstored₂.same), argv_append (hstored₂.texts buf₂ (.refl _ _ _))⟩
  unfold makeTokens
  simp only [hrun, hrun₂, Option.bind_eq_bind, Option.bind_some]
  rfl

/-- When they do not fit it writes outside of an array. -/
theorem makeTokens_overflow (h : textAt buf o = some s)
    (hlen : ¬ ((frontWords target s).length < arg.length ∧ (backWords target s).length < arg2.length)) :
    makeTokens buf o arg arg2 target = none := by
  unfold makeTokens
  by_cases hfront : (frontWords target s).length < arg.length
  · obtain ⟨starts, behind, buf₁, next, rest, hrun, hstored, hsplit⟩ :=
      fillArgs_spec (atTarget_eq target) h hfront
    have hback : arg2.length ≤ ((splitText ' ' rest).takeWhile fun w => !noStop w).length := by
      rw [takeWhile_noStop, hsplit]
      exact Nat.le_of_not_lt fun hlt => hlen ⟨hfront, hlt⟩
    have hrun₂ := fillArgs_overflow never_eq hstored.textAt_next hback
    simp only [hrun, hrun₂, Option.bind_eq_bind, Option.bind_some, Option.bind_none]
  · have hrun := fillArgs_overflow (atTarget_eq target) h (Nat.le_of_not_lt hfront)
    simp only [hrun, Option.bind_eq_bind, Option.bind_none]

/-- What the arrays hold. -/
theorem makeTokens_iff (h : textAt buf o = some s) {front back : List (List Char)}
    (hfront : front.length < arg.length) (hback : back.length < arg2.length) :
    (∃ buf' arg' arg2', makeTokens buf o arg arg2 target = some (buf', arg', arg2') ∧
      argv buf' arg' = some front ∧ argv buf' arg2' = some back) ↔
      frontWords target s = front ∧ backWords target s = back := by
  constructor
  · rintro ⟨buf', arg', arg2', hrun, harg, harg2⟩
    by_cases hlen : (frontWords target s).length < arg.length ∧ (backWords target s).length < arg2.length
    · obtain ⟨_, _, _, hrun', harg', harg2'⟩ := makeTokens_fits h hlen.1 hlen.2
      rw [hrun] at hrun'
      cases hrun'
      exact ⟨Option.some.inj (harg'.symm.trans harg), Option.some.inj (harg2'.symm.trans harg2)⟩
    · rw [makeTokens_overflow h hlen] at hrun
      cases hrun
  · rintro ⟨rfl, rfl⟩
    exact makeTokens_fits h hfront hback

end makeTokens

/-! ## The loop of `main` -/

/-- The operators that `main` looks for. Source: `main` -/
inductive Operator
  | pipe
  | output
  | input
  deriving DecidableEq

/-- The character of an operator. -/
def Operator.char : Operator → Char
  | .pipe => '|'
  | .output => '>'
  | .input => '<'

/-- The first test with `strchr` that finds its character. Source: `main` -/
def findOperator (cmd : List Char) : Option Operator :=
  if Operator.pipe.char ∈ cmd then some .pipe
  else if Operator.output.char ∈ cmd then some .output
  else if Operator.input.char ∈ cmd then some .input
  else none

/-- What `main` goes on with after a line: the command `quit`, a command without operator, or an operator with
its two arrays. Source: `main` -/
inductive Tokenised
  | quit
  | plain (buf : List Char) (arg : List (Option Nat))
  | split (op : Operator) (buf : List Char) (arg arg2 : List (Option Nat))

/-- `main` up to the first use of the arrays. `line` is what `getline` returned, with its newline, and `rest` what
follows in its buffer. Source: `main` -/
def tokenise (line rest : List Char) (arg arg2 : List (Option Nat)) : Option Tokenised := do
  let buf := line ++ terminator :: rest
  let len ← strlen buf 0
  let buf ← writeAt buf ((len : Int) - 1) terminator
  let cmd ← textAt buf 0
  if cmd = ['q', 'u', 'i', 't'] then some .quit
  else
    match findOperator cmd with
    | some op => do
        let (buf, arg, arg2) ← makeTokens buf 0 arg arg2 op.char
        return .split op buf arg arg2
    | none => do
        let (arg, buf, _) ← fillArgs ' ' never arg buf 0
        return .plain buf arg

/-- A text without NUL and without operators. -/
def Plain (s : List Char) : Prop := terminator ∉ s ∧ ∀ op : Operator, op.char ∉ s

/-- What stands in front of the operator of a command line and behind it: words, no more than the arrays have room
for, and no other operator. -/
structure CommandLine (pre post : List Char) : Prop where
  pre_plain : Plain pre
  post_plain : Plain post
  pre_words : splitText ' ' pre ≠ []
  post_words : splitText ' ' post ≠ []
  pre_length : (splitText ' ' pre).length < maxArgs
  post_length : (splitText ' ' post).length < maxArgs

/-- An operator is neither a blank nor a NUL. -/
theorem Operator.char_ne (op : Operator) : op.char ≠ ' ' ∧ op.char ≠ terminator := by
  cases op <;> decide

/-- The operators are different. -/
theorem Operator.char_injective {op op' : Operator} (h : op.char = op'.char) : op = op' := by
  cases op <;> cases op' <;> first | rfl | exact absurd h (by decide)

section tokenise

variable {pre post rest : List Char} {arg arg2 : List (Option Nat)} (op : Operator)

/-- A command line has no NUL. -/
theorem CommandLine.terminator_notMem (h : CommandLine pre post) : terminator ∉ pre ++ op.char :: post := by
  rw [List.mem_append, List.mem_cons, not_or, not_or]
  exact ⟨h.pre_plain.1, op.char_ne.2.symm, h.post_plain.1⟩

/-- Its operator is found. -/
theorem CommandLine.findOperator_eq (h : CommandLine pre post) :
    findOperator (pre ++ op.char :: post) = some op := by
  have hmem : ∀ op' : Operator, op'.char ∈ pre ++ op.char :: post ↔ op' = op := by
    intro op'
    rw [List.mem_append, List.mem_cons]
    constructor
    · rintro (hin | heq | hin)
      · exact absurd hin (h.pre_plain.2 op')
      · exact Operator.char_injective heq
      · exact absurd hin (h.post_plain.2 op')
    · rintro rfl
      exact .inr (.inl rfl)
  unfold findOperator
  simp only [hmem]
  cases op <;> rfl

/-- The newline is cut off. -/
theorem textAt_cut_newline {cmd : List Char} (hcmd : terminator ∉ cmd) (rest : List Char) :
    ∃ buf, (do
      let len ← strlen (cmd ++ ['\n'] ++ terminator :: rest) 0
      writeAt (cmd ++ ['\n'] ++ terminator :: rest) ((len : Int) - 1) terminator) = some buf ∧
      textAt buf 0 = some cmd := by
  have htext : textAt (cmd ++ ['\n'] ++ terminator :: rest) 0 = some (cmd ++ ['\n']) := by
    rw [textAt_eq_some_iff]
    refine ⟨?_, rest, rfl⟩
    rw [List.mem_append, not_or]
    exact ⟨hcmd, by decide⟩
  have hlen : (((cmd ++ ['\n']).length : Nat) : Int) - 1 = (cmd.length : Nat) := by simp
  have hcut := textAt_cut htext (Nat.zero_le cmd.length)
  rw [Nat.sub_zero, List.take_left] at hcut
  refine ⟨_, ?_, hcut⟩
  rw [strlen_eq htext, Option.bind_eq_bind, Option.bind_some, hlen, writeAt_eq (by simp)]

/-- `main` calls `make_tokens` with the operator of the line. -/
theorem CommandLine.tokenise_eq (h : CommandLine pre post) (rest : List Char)
    (arg arg2 : List (Option Nat)) : ∃ buf, textAt buf 0 = some (pre ++ op.char :: post) ∧
      tokenise (pre ++ op.char :: post ++ ['\n']) rest arg arg2 =
        (makeTokens buf 0 arg arg2 op.char).map fun (buf, arg, arg2) => .split op buf arg arg2 := by
  obtain ⟨buf, hrun, htext⟩ := textAt_cut_newline (h.terminator_notMem op) rest
  obtain ⟨len, hlen, hwrite⟩ := Option.bind_eq_some_iff.mp hrun
  have hquit : pre ++ op.char :: post ≠ ['q', 'u', 'i', 't'] := by
    intro heq
    have hmem : op.char ∈ ['q', 'u', 'i', 't'] := by
      rw [← heq]
      simp
    cases op <;> exact absurd hmem (by decide)
  refine ⟨buf, htext, ?_⟩
  unfold tokenise
  simp only [hlen, hwrite, htext, Option.bind_eq_bind, Option.bind_some, if_neg hquit,
    h.findOperator_eq op]
  rcases makeTokens buf 0 arg arg2 op.char with _ | ⟨buf', arg', arg2'⟩ <;> rfl

/-- The words in front of the operator and those behind it are what `make_tokens` takes exactly when a blank stands on
both sides of the operator. -/
theorem CommandLine.words_iff (h : CommandLine pre post) :
    frontWords op.char (pre ++ op.char :: post) = splitText ' ' pre ∧
      backWords op.char (pre ++ op.char :: post) = splitText ' ' post ↔
    pre.getLast? = some ' ' ∧ post.head? = some ' ' := by
  obtain ⟨front, run, run', back, hpre, hpost, hall, hlast, hfirst⟩ :=
    exists_words_around op.char_ne.1 pre post
  have hpre_nil : pre ≠ [] := by
    rintro rfl
    exact h.pre_words (splitText_nil ' ')
  have hpost_nil : post ≠ [] := by
    rintro rfl
    exact h.post_words (splitText_nil ' ')
  rw [or_iff_right hpre_nil] at hlast
  rw [or_iff_right hpost_nil] at hfirst
  -- a word of the text in front of the operator, or behind it, does not start with the operator
  have hplain : ∀ {s}, op.char ∉ s → ∀ w ∈ splitText ' ' s, (!(w.head? == some op.char)) = true := by
    intro s hs w hw
    have hne : w.head? ≠ some op.char := fun heq => hs (subset_of_mem_splitText hw (List.mem_of_head? heq))
    simpa using hne
  have hfront : ∀ w ∈ front, (!(w.head? == some op.char)) = true := fun w hw =>
    hplain (h.pre_plain.2 op) w (hpre ▸ List.mem_append_left _ hw)
  have hback : ∀ w ∈ back, (!(w.head? == some op.char)) = true := fun w hw =>
    hplain (h.post_plain.2 op) w (hpost ▸ List.mem_append_right _ hw)
  unfold frontWords backWords
  rw [hall, List.takeWhile_append_of_pos hfront, List.dropWhile_append_of_pos hfront, ← hlast, ← hfirst, hpre,
    hpost]
  rcases run with _ | ⟨c, run⟩
  · -- the operator starts a word, whose rest is lost
    rw [List.nil_append, List.takeWhile_cons_of_neg (by simp), List.dropWhile_cons_of_neg (by simp)]
    rcases run' with _ | ⟨c', run'⟩ <;> simp
  · -- the operator is inside of a word, and no word starts with it
    have hc : c ≠ op.char := by
      rintro rfl
      have hmem : (op.char :: run) ∈ splitText ' ' pre := by
        rw [hpre]
        simp
      exact h.pre_plain.2 op (subset_of_mem_splitText hmem List.mem_cons_self)
    have hword : (!(((c :: run) ++ op.char :: run').head? == some op.char)) = true := by simpa using hc
    have hrest : ∀ w ∈ ((c :: run) ++ op.char :: run') :: back, (!(w.head? == some op.char)) = true :=
      List.forall_mem_cons.mpr ⟨hword, hback⟩
    rw [List.takeWhile_eq_self_iff.mpr hrest, List.dropWhile_eq_nil_iff.mpr hrest]
    simp only [List.cons_ne_nil, false_and, iff_false, not_and]
    intro _ hnil
    rw [← hpost] at hnil
    exact h.post_words hnil.symm

/-- The arrays hold the words in front of the operator and those behind it, so that both start with a word, exactly
when a blank stands on both sides of the operator. The line ends in a newline: `main` cuts the last character,
whatever it is, so of a line that ends without one the last letter is missing. -/
theorem tokenise_iff (h : CommandLine pre post) (rest : List Char) (harg : arg.length = maxArgs)
    (harg2 : arg2.length = maxArgs) :
    (∃ buf' arg' arg2',
      tokenise (pre ++ op.char :: post ++ ['\n']) rest arg arg2 = some (.split op buf' arg' arg2') ∧
      argv buf' arg' = some (splitText ' ' pre) ∧ argv buf' arg2' = some (splitText ' ' post) ∧
      (∃ p, arg'.head? = some (some p)) ∧ ∃ p, arg2'.head? = some (some p)) ↔
    pre.getLast? = some ' ' ∧ post.head? = some ' ' := by
  obtain ⟨buf, htext, hrun⟩ := h.tokenise_eq op rest arg arg2
  rw [← h.words_iff op, ← makeTokens_iff htext (harg ▸ h.pre_length) (harg2 ▸ h.post_length), hrun]
  constructor
  · rintro ⟨buf', arg', arg2', hsplit, hpre, hpost, -⟩
    obtain ⟨⟨buf₁, arg₁, arg2₁⟩, hmake, heq⟩ := Option.map_eq_some_iff.mp hsplit
    cases heq
    exact ⟨buf', arg', arg2', hmake, hpre, hpost⟩
  · rintro ⟨buf', arg', arg2', hmake, hpre, hpost⟩
    refine ⟨buf', arg', arg2', ?_, hpre, hpost, exists_first_of_argv hpre h.pre_words,
      exists_first_of_argv hpost h.post_words⟩
    rw [hmake]
    rfl

end tokenise

/-- `ls | wc` -/
theorem commandLine_ls_wc : CommandLine ['l', 's', ' '] [' ', 'w', 'c'] where
  pre_plain := ⟨by decide, fun op => by cases op <;> decide⟩
  post_plain := ⟨by decide, fun op => by cases op <;> decide⟩
  pre_words := by decide
  post_words := by decide
  pre_length := by decide
  post_length := by decide

/-- The line `ls | wc`. -/
theorem tokenise_iff_ls_wc :
    (∃ buf' arg' arg2',
      tokenise (['l', 's', ' '] ++ Operator.pipe.char :: [' ', 'w', 'c'] ++ ['\n']) []
          (List.replicate maxArgs none) (List.replicate maxArgs none) = some (.split .pipe buf' arg' arg2') ∧
      argv buf' arg' = some (splitText ' ' ['l', 's', ' ']) ∧
      argv buf' arg2' = some (splitText ' ' [' ', 'w', 'c']) ∧
      (∃ p, arg'.head? = some (some p)) ∧ ∃ p, arg2'.head? = some (some p)) ↔
    ['l', 's', ' '].getLast? = some ' ' ∧ [' ', 'w', 'c'].head? = some ' ' :=
  tokenise_iff .pipe commandLine_ls_wc [] (List.length_replicate ..) (List.length_replicate ..)

/-- `ls|wc`, without blanks: all of it is `arg[0]`, and `arg2[0]` is `NULL`. -/
theorem not_tokenise : CommandLine ['l', 's'] ['w', 'c'] ∧ ∃ buf' arg' arg2',
    tokenise (['l', 's'] ++ Operator.pipe.char :: ['w', 'c'] ++ ['\n']) []
        (List.replicate maxArgs none) (List.replicate maxArgs none) = some (.split .pipe buf' arg' arg2') ∧
      argv buf' arg' = some [['l', 's', '|', 'w', 'c']] ∧ arg2'.head? = some none := by
  have hline : CommandLine ['l', 's'] ['w', 'c'] := by
    refine ⟨⟨by decide, ?_⟩, ⟨by decide, ?_⟩, by decide, by decide, by decide, by decide⟩
    · intro op
      cases op <;> decide
    · intro op
      cases op <;> decide
  refine ⟨hline, ?_⟩
  obtain ⟨buf, htext, hrun⟩ := hline.tokenise_eq .pipe [] (List.replicate maxArgs none)
    (List.replicate maxArgs none)
  have hwords : frontWords '|' ['l', 's', '|', 'w', 'c'] = [['l', 's', '|', 'w', 'c']] ∧
      backWords '|' ['l', 's', '|', 'w', 'c'] = [] := by decide
  have hroom : [['l', 's', '|', 'w', 'c']].length < (List.replicate maxArgs (none : Option Nat)).length ∧
      ([] : List (List Char)).length < (List.replicate maxArgs (none : Option Nat)).length := by
    rw [List.length_replicate]
    decide
  obtain ⟨buf', arg', arg2', hmake, harg, harg2⟩ := (makeTokens_iff htext hroom.1 hroom.2).mpr hwords
  refine ⟨buf', arg', arg2', ?_, harg, head_of_argv_nil harg2⟩
  rw [hrun, show makeTokens buf 0 _ _ Operator.pipe.char = _ from hmake]
  rfl

end SystemProgrammingLab.Week9
