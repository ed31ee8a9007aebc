import Mathlib.Data.List.Basic
import SystemProgrammingLab.Pa2.Shell

/-!
# The descriptors of the children

The two arrays hold the ends of the pipe of this round and of the round before, in turn: `ends i` are
those of round `i`, and `ends (i + 1)` those of round `i - 1`. `Ready` is what holds of the shell at the
start of a round, `Forked` what holds when it forks: the read end of the pipe before is still open, its
write end is closed. From them follows what the child finds as its standard input and output
(`wiring`), and that nobody can write to the pipe it reads.

Source: `pa2/main.c`
-/

namespace SystemProgrammingLab.Pa2

open SystemProgrammingLab.Found

/-- The array that holds the pipe of round `i`. Source: `main`, `fd1` and `fd2` -/
def ends (i : Nat) (s : Shell) : Int × Int := if i % 2 = 1 then s.fd2 else s.fd1

section code

variable {num i : Nat} {s : Shell}

/-- The two pairs of ends take turns. -/
theorem ends_succ (i : Nat) (s : Shell) : ends (i + 1) s = if i % 2 = 1 then s.fd1 else s.fd2 := by
  unfold ends
  rcases Nat.mod_two_eq_zero_or_one i with h | h
  · rw [if_pos (by omega), if_neg (by omega)]
  · rw [if_neg (by omega), if_pos h]

/-- After two rounds the same pair is used. -/
theorem ends_add_two (i : Nat) (s : Shell) : ends (i + 1 + 1) s = ends i s := by
  unfold ends
  rw [show (i + 1 + 1) % 2 = i % 2 by omega]

/-- What the child of a round does with its pipes. -/
theorem childPipes_eq (num i : Nat) (s : Shell) :
    childPipes num i s =
      let t := if i ≠ 0 then (s.table.dup2 (ends (i + 1) s).1 stdin).close (ends (i + 1) s).1
        else s.table
      if num ≠ 1 ∧ i ≠ num - 1 then (t.dup2 (ends i s).2 stdout).close (ends i s).2 else t := by
  rw [ends_succ]
  unfold childPipes ends
  by_cases h : i % 2 = 1
  · simp only [if_pos h]
  · simp only [if_neg h]

/-- What the shell closes at the end of a round. -/
theorem cleanUp_table (num i : Nat) (s : Shell) :
    (cleanUp num i s).table =
      let t := (bringBack s).table
      let t := if i ≠ 0 then t.close (ends (i + 1) s).1 else t
      if num ≠ 1 ∧ i ≠ num - 1 then t.close (ends i s).2 else t := by
  rw [ends_succ]
  unfold cleanUp ends bringBack
  by_cases h : i % 2 = 1
  · simp only [if_pos h]
  · simp only [if_neg h]

/-- The pairs of ends stay as they are. -/
theorem ends_cleanUp (num i j : Nat) (s : Shell) : ends j (cleanUp num i s) = ends j s := rfl

/-- The table with the two copies. -/
def copied (t : Table Desc) : Table Desc := ((t.dup stdin).2.dup stdout).2

/-- In front of the fork the shell copies its standard descriptors and makes a pipe. -/
theorem prepare_table (i : Nat) (s : Shell) : (prepare i s).table =
    ((copied s.table).pipe (.readEnd s.pipes) (.writeEnd s.pipes)).2 := by
  unfold prepare copied
  dsimp only
  split_ifs <;> rfl

/-- The ends of the new pipe are kept in the pair of the round. -/
theorem ends_prepare (i : Nat) (s : Shell) : ends i (prepare i s) =
    ((copied s.table).pipe (.readEnd s.pipes) (.writeEnd s.pipes)).1 := by
  unfold prepare ends copied
  dsimp only
  split_ifs <;> rfl

/-- The other pair stays. -/
theorem ends_succ_prepare (i : Nat) (s : Shell) : ends (i + 1) (prepare i s) = ends (i + 1) s := by
  rw [ends_succ, ends_succ]
  unfold prepare
  dsimp only
  split_ifs <;> rfl

/-- One more pipe was made. -/
theorem prepare_pipes (i : Nat) (s : Shell) : (prepare i s).pipes = s.pipes + 1 := by
  unfold prepare
  dsimp only
  split_ifs <;> rfl

/-- The copies of the standard descriptors. -/
theorem prepare_copies (i : Nat) (s : Shell) : (prepare i s).stdinCopy = (s.table.dup stdin).1 ∧
    (prepare i s).stdoutCopy = ((s.table.dup stdin).2.dup stdout).1 := by
  unfold prepare
  dsimp only
  split_ifs <;> exact ⟨rfl, rfl⟩

end code

/-- The copies get descriptors that were free, and everything else stays. -/
theorem copied_spec {t : Table Desc} {d0 d1 : Desc} (h0 : t.at? stdin = some d0)
    (h1 : t.at? stdout = some d1) :
    t.at? (t.dup stdin).1 = none ∧ t.at? ((t.dup stdin).2.dup stdout).1 = none ∧
      (t.dup stdin).1 ≠ ((t.dup stdin).2.dup stdout).1 ∧
      ∀ x, (copied t).at? x = if x = ((t.dup stdin).2.dup stdout).1 then some d1
        else if x = (t.dup stdin).1 then some d0 else t.at? x := by
  have hnew : t.at? (t.dup stdin).1 = none := by
    rw [Table.dup_eq h0]
    exact Table.at?_alloc_fst t d0
  have hfirst : ∀ x, (t.dup stdin).2.at? x = if x = (t.dup stdin).1 then some d0 else t.at? x := by
    rw [Table.dup_eq h0]
    exact Table.at?_alloc t d0
  have hout : (t.dup stdin).2.at? stdout = some d1 := by
    rw [hfirst, if_neg, h1]
    intro heq
    rw [← heq, h1] at hnew
    cases hnew
  have hsecond := Table.at?_alloc_fst (t.dup stdin).2 d1
  refine ⟨hnew, ?_, ?_, ?_⟩
  · rw [hfirst] at hsecond
    rw [Table.dup_eq hout]
    split_ifs at hsecond
    exact hsecond
  · intro heq
    rw [Table.dup_eq hout] at heq
    rw [← heq, hfirst, if_pos rfl] at hsecond
    cases hsecond
  · intro x
    unfold copied
    rw [Table.dup_eq hout, Table.at?_alloc, hfirst]

/-- The two ends are open. -/
theorem prepare_ends (i : Nat) (s : Shell) :
    (prepare i s).table.at? (ends i (prepare i s)).1 = some (.readEnd s.pipes) ∧
      (prepare i s).table.at? (ends i (prepare i s)).2 = some (.writeEnd s.pipes) := by
  obtain ⟨-, -, hne⟩ := Table.pipe_fst (copied s.table) (.readEnd s.pipes) (.writeEnd s.pipes)
  rw [prepare_table, ends_prepare, Table.at?_pipe, Table.at?_pipe, if_pos rfl, if_neg hne, if_pos rfl]
  exact ⟨rfl, rfl⟩

section prepare

variable {i : Nat} {s : Shell} {d0 d1 : Desc} (h0 : s.table.at? stdin = some d0)
  (h1 : s.table.at? stdout = some d1)

include h0 h1

/-- What is open stays. -/
theorem prepare_kept (i : Nat) {x : Int} (hx : s.table.at? x ≠ none) :
    (prepare i s).table.at? x = s.table.at? x := by
  obtain ⟨ha, hb, -, hcopied⟩ := copied_spec h0 h1
  have hold : (copied s.table).at? x = s.table.at? x := by
    rw [hcopied, if_neg, if_neg]
    · rintro rfl
      exact hx ha
    · rintro rfl
      exact hx hb
  obtain ⟨hread, hwrite, -⟩ :=
    Table.pipe_fst (copied s.table) (.readEnd s.pipes) (.writeEnd s.pipes)
  rw [prepare_table, Table.at?_pipe, if_neg, if_neg, hold]
  · rintro rfl
    exact hx (hold.symm.trans hread)
  · rintro rfl
    exact hx (hold.symm.trans hwrite)

/-- What is open afterwards was open before, or is an end of the new pipe. -/
theorem prepare_cases (i : Nat) {x : Int} {d : Desc} (hd : (prepare i s).table.at? x = some d) :
    (∃ y, s.table.at? y = some d) ∨ d = .readEnd s.pipes ∨
      (d = .writeEnd s.pipes ∧ x = (ends i (prepare i s)).2) := by
  obtain ⟨-, -, -, hcopied⟩ := copied_spec h0 h1
  rw [prepare_table, Table.at?_pipe, hcopied] at hd
  rw [ends_prepare]
  split_ifs at hd with hwrite hread hout hin
  · exact .inr (.inr ⟨(Option.some.inj hd).symm, hwrite⟩)
  · exact .inr (.inl (Option.some.inj hd).symm)
  · exact .inl ⟨stdout, h1.trans hd⟩
  · exact .inl ⟨stdin, h0.trans hd⟩
  · exact .inl ⟨x, hd⟩

/-- The copies are new numbers. -/
theorem prepare_new (i : Nat) : s.table.at? (prepare i s).stdinCopy = none ∧
    s.table.at? (prepare i s).stdoutCopy = none ∧
      (prepare i s).table.at? (prepare i s).stdinCopy = some d0 ∧
        (prepare i s).table.at? (prepare i s).stdoutCopy = some d1 := by
  obtain ⟨ha, hb, hne, hcopied⟩ := copied_spec h0 h1
  obtain ⟨hread, hwrite, -⟩ :=
    Table.pipe_fst (copied s.table) (.readEnd s.pipes) (.writeEnd s.pipes)
  have hin : (copied s.table).at? (s.table.dup stdin).1 = some d0 := by
    rw [hcopied, if_neg hne, if_pos rfl]
  have hout : (copied s.table).at? ((s.table.dup stdin).2.dup stdout).1 = some d1 := by
    rw [hcopied, if_pos rfl]
  have hopen : ∀ {x d}, (copied s.table).at? x = some d → (prepare i s).table.at? x = some d := by
    intro x d hx
    rw [prepare_table, Table.at?_pipe, if_neg, if_neg, hx]
    · rintro rfl
      rw [hread] at hx
      cases hx
    · rintro rfl
      rw [hwrite] at hx
      cases hx
  rw [(prepare_copies i s).1, (prepare_copies i s).2]
  exact ⟨ha, hb, hopen hin, hopen hout⟩

end prepare

/-! ## Before and after the fork -/

/-- The prompt has its standard descriptors open. -/
theorem Prompt.std (p : Prompt) {k : Nat} (hk : k ≤ 2) : ∃ d, p.table.at? k = some d := by
  rw [← Option.ne_none_iff_exists', Table.at?_natCast]
  match k, hk with
  | 0, _ => exact p.open0
  | 1, _ => exact p.open1
  | 2, _ => exact p.open2

/-- What is open at the prompt is older than the pipes of the line. -/
theorem Prompt.behind_at? (p : Prompt) {x : Int} {d : Desc} {id : Nat}
    (h : p.table.at? x = some d) (hid : d.pipe? = some id) : id < p.pipes := by
  unfold Table.at? at h
  split_ifs at h
  exact p.behind _ d id h hid

/-- The shell at the start of round `i`. -/
structure Ready (p : Prompt) (i : Nat) (s : Shell) : Prop where
  std : ∀ k : Nat, k ≤ 2 → s.table.at? k = p.table.at? k
  pipes : s.pipes = p.pipes + i
  behind : ∀ x d id, s.table.at? x = some d → d.pipe? = some id → id < p.pipes + i
  input : i ≠ 0 → s.table.at? (ends (i + 1) s).1 = some (.readEnd (p.pipes + (i - 1)))
  noWriter : i ≠ 0 → ∀ x, s.table.at? x ≠ some (.writeEnd (p.pipes + (i - 1)))

/-- The shell when it forks in round `i`. -/
structure Forked (p : Prompt) (i : Nat) (s : Shell) : Prop where
  std : ∀ k : Nat, k ≤ 2 → s.table.at? k = p.table.at? k
  pipes : s.pipes = p.pipes + i + 1
  behind : ∀ x d id, s.table.at? x = some d → d.pipe? = some id → id < p.pipes + i + 1
  input : i ≠ 0 → s.table.at? (ends (i + 1) s).1 = some (.readEnd (p.pipes + (i - 1)))
  noWriter : i ≠ 0 → ∀ x, s.table.at? x ≠ some (.writeEnd (p.pipes + (i - 1)))
  read : s.table.at? (ends i s).1 = some (.readEnd (p.pipes + i))
  write : s.table.at? (ends i s).2 = some (.writeEnd (p.pipes + i))
  onlyWriter : ∀ x, s.table.at? x = some (.writeEnd (p.pipes + i)) → x = (ends i s).2
  stdinCopy : s.table.at? s.stdinCopy = p.table.at? stdin
  stdoutCopy : s.table.at? s.stdoutCopy = p.table.at? stdout

section rounds

variable {p : Prompt} {num i : Nat} {s : Shell} {r : Files}

/-- The shell copies its standard input and output, and makes a pipe. -/
theorem Ready.prepare (h : Ready p i s) : Forked p i (prepare i s) := by
  obtain ⟨d0, hd0⟩ := p.std (k := 0) (by omega)
  obtain ⟨d1, hd1⟩ := p.std (k := 1) (by omega)
  have h0 : s.table.at? stdin = some d0 := (h.std 0 (by omega)).trans hd0
  have h1 : s.table.at? stdout = some d1 := (h.std 1 (by omega)).trans hd1
  have hkept := fun x => prepare_kept h0 h1 i (x := x)
  obtain ⟨-, -, hin, hout⟩ := prepare_new h0 h1 i
  obtain ⟨hread, hwrite⟩ := prepare_ends i s
  have hpipes := h.pipes
  rw [hpipes] at hread hwrite
  refine ⟨?_, ?_, ?_, ?_, ?_, hread, hwrite, ?_, ?_, ?_⟩
  · intro k hk
    obtain ⟨d, hd⟩ := p.std hk
    have hstd := h.std k hk
    rw [hkept k (by rw [hstd, hd]; exact Option.some_ne_none d), hstd]
  · rw [prepare_pipes, h.pipes]
  · intro x d id hd hid
    rcases prepare_cases h0 h1 i hd with ⟨y, hold⟩ | rfl | ⟨rfl, -⟩
    · have hlt := h.behind y d id hold hid
      omega
    · have heq : s.pipes = id := Option.some.inj hid
      omega
    · have heq : s.pipes = id := Option.some.inj hid
      omega
  · intro hi
    have hinput := h.input hi
    rw [ends_succ_prepare, hkept _ (by rw [hinput]; exact Option.some_ne_none _), hinput]
  · intro hi x hx
    rcases prepare_cases h0 h1 i hx with ⟨y, hold⟩ | heq | ⟨heq, -⟩
    · exact h.noWriter hi y hold
    · cases heq
    · rw [Desc.writeEnd.injEq] at heq
      omega
  · intro x hx
    rcases prepare_cases h0 h1 i hx with ⟨y, hold⟩ | heq | ⟨-, heq⟩
    · have hlt := h.behind y _ _ hold rfl
      omega
    · cases heq
    · exact heq
  · rw [hin]
    exact hd0.symm
  · rw [hout]
    exact hd1.symm

/-! ## The child -/

/-- An end of a pipe of this line is none of the standard descriptors. -/
theorem ne_std (hstd : ∀ k : Nat, k ≤ 2 → s.table.at? k = p.table.at? k) {x : Int} {d : Desc}
    {id : Nat} (hx : s.table.at? x = some d) (hid : d.pipe? = some id) (hle : p.pipes ≤ id) {k : Nat}
    (hk : k ≤ 2) : x ≠ k := by
  rintro rfl
  rw [hstd k hk] at hx
  have hlt := p.behind_at? hx hid
  omega

/-- The descriptors of the child after the pipes are set. -/
theorem Forked.childPipes (h : Forked p i s) (hi : i < num) :
    ((childPipes num i s).at? stdin =
      if i = 0 then p.table.at? stdin else some (.readEnd (p.pipes + (i - 1)))) ∧
    ((childPipes num i s).at? stdout =
      if i = num - 1 then p.table.at? stdout else some (.writeEnd (p.pipes + i))) := by
  have hout0 := ne_std h.std h.write rfl (Nat.le_add_right _ _) (k := 0) (by omega)
  have hout1 := ne_std h.std h.write rfl (Nat.le_add_right _ _) (k := 1) (by omega)
  have h0 := h.std 0 (by omega)
  have h1 := h.std 1 (by omega)
  -- the input, and what it leaves
  have hinput : ∃ t, (if i ≠ 0 then (s.table.dup2 (ends (i + 1) s).1 stdin).close (ends (i + 1) s).1
      else s.table) = t ∧
      (t.at? stdin = if i = 0 then p.table.at? stdin else some (.readEnd (p.pipes + (i - 1)))) ∧
      t.at? stdout = p.table.at? stdout ∧ t.at? (ends i s).2 = some (.writeEnd (p.pipes + i)) := by
    by_cases hzero : i = 0
    · rw [if_neg (not_not.mpr hzero), if_pos hzero]
      exact ⟨_, rfl, h0, h1, h.write⟩
    · have hread := h.input hzero
      have hin0 := ne_std h.std hread rfl (Nat.le_add_right _ _) (k := 0) (by omega)
      have hin1 := ne_std h.std hread rfl (Nat.le_add_right _ _) (k := 1) (by omega)
      have hinout : (ends i s).2 ≠ (ends (i + 1) s).1 := by
        intro heq
        rw [← heq, h.write] at hread
        cases hread
      rw [if_pos hzero, if_neg hzero]
      refine ⟨_, rfl, ?_, ?_, ?_⟩
      · rw [Table.at?_close, if_neg (Ne.symm hin0), Table.at?_dup2 hread, if_pos rfl]
      · rw [Table.at?_close, if_neg (Ne.symm hin1), Table.at?_dup2 hread, if_neg (by decide), h1]
      · rw [Table.at?_close, if_neg hinout, Table.at?_dup2 hread, if_neg hout0, h.write]
  obtain ⟨t, ht, hin, hstdout, hwrite⟩ := hinput
  rw [childPipes_eq, ht]
  by_cases hlast : i = num - 1
  · dsimp only
    rw [if_neg fun hboth => hboth.2 hlast, if_pos hlast]
    exact ⟨hin, hstdout⟩
  · dsimp only
    rw [if_pos ⟨by omega, hlast⟩, if_neg hlast, Table.at?_close, Table.at?_close,
      if_neg (Ne.symm hout0), if_neg (Ne.symm hout1), Table.at?_dup2 hwrite, Table.at?_dup2 hwrite,
      if_neg (by decide), if_pos rfl]
    exact ⟨hin, rfl⟩

/-- The file that becomes the standard input of the first command. -/
def Files.stdinFile (r : Files) : Option Desc := r.redirectIn.map (.file .input)

/-- The file that becomes the standard output of the last command. -/
def Files.stdoutFile (r : Files) : Option Desc :=
  (r.redirectOut.map (.file .output)).or (r.redirectOutAppend.map (.file .append))

/-- The first child has its input file at descriptor 0, if there is one. -/
theorem childInput_at? {t : Table Desc} (i : Nat) (r : Files) (h0 : t.at? stdin ≠ none) :
    ((childInput i r t).at? stdin = (if i = 0 then r.stdinFile else none).or (t.at? stdin)) ∧
      (childInput i r t).at? stdout = t.at? stdout := by
  unfold childInput Files.stdinFile
  by_cases hi : i = 0
  · rw [if_pos hi, if_pos hi]
    rcases r.redirectIn with _ | name
    · exact ⟨rfl, rfl⟩
    · refine ⟨?_, ?_⟩
      · rw [Table.redirect_at? h0, if_pos rfl]
        rfl
      · rw [Table.redirect_at? h0, if_neg (by decide)]
  · rw [if_neg hi, if_neg hi]
    exact ⟨rfl, rfl⟩

/-- The last child has its output file at descriptor 1, if there is one. -/
theorem childOutput_at? {t : Table Desc} (num i : Nat) (r : Files) (h1 : t.at? stdout ≠ none) :
    (childOutput num i r t).at? stdin = t.at? stdin ∧
      ((childOutput num i r t).at? stdout =
        (if i = num - 1 then r.stdoutFile else none).or (t.at? stdout)) := by
  unfold childOutput Files.stdoutFile
  by_cases hlast : i = num - 1
  · rw [if_pos hlast, if_pos hlast]
    rcases r.redirectOut with _ | name
    · rcases r.redirectOutAppend with _ | name
      · exact ⟨rfl, rfl⟩
      · refine ⟨?_, ?_⟩
        · rw [Table.redirect_at? h1, if_neg (by decide)]
        · rw [Table.redirect_at? h1, if_pos rfl]
          rfl
    · refine ⟨?_, ?_⟩
      · rw [Table.redirect_at? h1, if_neg (by decide)]
      · rw [Table.redirect_at? h1, if_pos rfl]
        rfl
  · rw [if_neg hlast, if_neg hlast]
    exact ⟨rfl, rfl⟩

/-- A child denotes what the shell denotes, and files. -/
theorem all_childTable {S : Desc → Prop} (h : s.table.All S) (hfile : ∀ j name, S (.file j name))
    (num i : Nat) (r : Files) : (childTable num i r s).All S := by
  have hpipes : (childPipes num i s).All S := by
    rw [childPipes_eq]
    dsimp only
    split_ifs
    · exact ((((h.dup2 _ _).close _).dup2 _ _).close _)
    · exact (h.dup2 _ _).close _
    · exact (h.dup2 _ _).close _
    · exact h
  have hinput : (childInput i r (childPipes num i s)).All S := by
    unfold childInput
    split_ifs
    · split
      · exact hpipes.redirect (hfile _ _) _
      · exact hpipes
    · exact hpipes
  unfold childTable childOutput
  split_ifs
  · split
    · exact hinput.redirect (hfile _ _) _
    · exact hinput.redirect (hfile _ _) _
    · exact hinput
  · exact hinput

/-- The descriptors of child `i` when it executes its command. -/
structure Wired (p : Prompt) (num : Nat) (r : Files) (i : Nat) (e : Exec) : Prop where
  pipe : e.pipe = p.pipes + i
  stdin : e.child.at? stdin =
    if i = 0 then r.stdinFile.or (p.table.at? stdin) else some (.readEnd (p.pipes + (i - 1)))
  stdout : e.child.at? stdout =
    if i = num - 1 then r.stdoutFile.or (p.table.at? stdout) else some (.writeEnd (p.pipes + i))
  noWriter : i ≠ 0 → ∀ t ∈ e.live, t.All (· ≠ .writeEnd (p.pipes + (i - 1)))

/-- A child that is forked is wired. -/
theorem Forked.wired (h : Forked p i s) (hi : i < num) (r : Files) :
    Wired p num r i ⟨childTable num i r s, s.table, p.pipes + i⟩ := by
  obtain ⟨d0, hd0⟩ := p.std (k := 0) (by omega)
  obtain ⟨d1, hd1⟩ := p.std (k := 1) (by omega)
  obtain ⟨hin, hout⟩ := h.childPipes hi
  have h0 : (SystemProgrammingLab.Pa2.childPipes num i s).at? Pa2.stdin ≠ none := by
    rw [hin]
    split_ifs
    · exact Option.ne_none_iff_exists'.mpr ⟨d0, hd0⟩
    · exact Option.some_ne_none _
  have h1 : (SystemProgrammingLab.Pa2.childPipes num i s).at? Pa2.stdout ≠ none := by
    rw [hout]
    split_ifs
    · exact Option.ne_none_iff_exists'.mpr ⟨d1, hd1⟩
    · exact Option.some_ne_none _
  obtain ⟨hstdin, hsame⟩ := childInput_at? i r h0
  obtain ⟨hsame', hstdout⟩ := childOutput_at? num i r (hsame ▸ h1)
  refine ⟨rfl, ?_, ?_, ?_⟩
  · show (childTable num i r s).at? Pa2.stdin = _
    unfold childTable
    rw [hsame', hstdin, hin]
    split_ifs <;> rfl
  · show (childTable num i r s).at? Pa2.stdout = _
    unfold childTable
    rw [hstdout, hsame, hout]
    split_ifs <;> rfl
  · intro hi0 t ht
    have hshell : s.table.All (· ≠ .writeEnd (p.pipes + (i - 1))) := by
      rintro x d hd rfl
      exact h.noWriter hi0 x hd
    rcases List.mem_pair.mp ht with rfl | rfl
    · exact hshell
    · exact all_childTable hshell (fun _ _ heq => nomatch heq) num i r

/-! ## The whole line -/

/-- The standard descriptors were not changed, so bringing them back changes nothing. -/
theorem Forked.bringBack_table (h : Forked p i s) : (bringBack s).table = s.table := by
  obtain ⟨d0, hd0⟩ := p.std (k := 0) (by omega)
  obtain ⟨d1, hd1⟩ := p.std (k := 1) (by omega)
  have h0 := (h.std 0 (by omega)).trans hd0
  have h1 := (h.std 1 (by omega)).trans hd1
  have hfirst : s.table.dup2 s.stdinCopy Pa2.stdin = s.table := by
    apply Table.ext_at?
    intro x
    rw [Table.at?_dup2 (h.stdinCopy.trans hd0)]
    split_ifs with hx
    · rw [hx, h0]
    · rfl
  apply Table.ext_at?
  intro x
  unfold bringBack
  dsimp only
  rw [hfirst, Table.at?_dup2 (h.stdoutCopy.trans hd1)]
  split_ifs with hx
  · rw [hx, h1]
  · rfl

/-- The shell closes the read end of the pipe before and the write end of this one. -/
theorem Forked.cleanUp_at? (h : Forked p i s) (hi : i + 1 < num) (x : Int) :
    (cleanUp num i s).table.at? x =
      if x = (ends i s).2 ∨ (i ≠ 0 ∧ x = (ends (i + 1) s).1) then none else s.table.at? x := by
  rw [cleanUp_table, h.bringBack_table]
  dsimp only
  rw [if_pos ⟨by omega, by omega⟩, Table.at?_close]
  by_cases hi0 : i ≠ 0
  · rw [if_pos hi0, Table.at?_close]
    by_cases hout : x = (ends i s).2
    · rw [if_pos hout, if_pos (.inl hout)]
    · by_cases hin : x = (ends (i + 1) s).1
      · rw [if_neg hout, if_pos hin, if_pos (.inr ⟨hi0, hin⟩)]
      · rw [if_neg hout, if_neg hin, if_neg]
        rintro (heq | ⟨-, heq⟩)
        · exact hout heq
        · exact hin heq
  · rw [if_neg hi0]
    by_cases hout : x = (ends i s).2
    · rw [if_pos hout, if_pos (.inl hout)]
    · rw [if_neg hout, if_neg]
      rintro (heq | ⟨hne, -⟩)
      · exact hout heq
      · exact hi0 hne

/-- Behind the clean-up the shell is ready for the next round. -/
theorem Forked.cleanUp (h : Forked p i s) (hi : i + 1 < num) : Ready p (i + 1) (cleanUp num i s) := by
  have hat := h.cleanUp_at? hi
  have hkept : ∀ {x d}, s.table.at? x = some d → d ≠ .writeEnd (p.pipes + i) →
      (i ≠ 0 → d ≠ .readEnd (p.pipes + (i - 1))) →
        (SystemProgrammingLab.Pa2.cleanUp num i s).table.at? x = some d := by
    intro x d hx hwrite hread
    rw [hat, if_neg, hx]
    rintro (rfl | ⟨hi0, rfl⟩)
    · rw [h.write] at hx
      exact hwrite (Option.some.inj hx).symm
    · rw [h.input hi0] at hx
      exact hread hi0 (Option.some.inj hx).symm
  have hopen : ∀ {x d}, (SystemProgrammingLab.Pa2.cleanUp num i s).table.at? x = some d →
      s.table.at? x = some d ∧ x ≠ (ends i s).2 := by
    intro x d hd
    rw [hat] at hd
    split_ifs at hd with hclosed
    exact ⟨hd, fun heq => hclosed (.inl heq)⟩
  refine ⟨?_, h.pipes, ?_, ?_, ?_⟩
  · intro k hk
    obtain ⟨d, hd⟩ := p.std hk
    have hx := (h.std k hk).trans hd
    rw [hd]
    apply hkept hx
    · rintro rfl
      have hlt := p.behind_at? hd rfl
      omega
    · rintro - rfl
      have hlt := p.behind_at? hd rfl
      omega
  · intro x d id hd hid
    exact h.behind x d id (hopen hd).1 hid
  · intro _
    rw [ends_cleanUp, ends_add_two]
    apply hkept h.read
    · exact Desc.noConfusion
    · intro hi0 heq
      rw [Desc.readEnd.injEq] at heq
      omega
  · intro _ x hx
    obtain ⟨hold, hne⟩ := hopen hx
    exact hne (h.onlyWriter x hold)

/-- The rounds from a ready shell on. -/
theorem rounds_wired (r : Files) : ∀ {k i : Nat} {s : Shell}, Ready p i s → i + k = num →
    ∀ j < k, ∃ e, (rounds num r k i s).1[j]? = some e ∧ Wired p num r (i + j) e := by
  intro k
  induction k with
  | zero =>
      intro i s _ _ j hj
      exact absurd hj (Nat.not_lt_zero j)
  | succ k ih =>
      intro i s h hnum j hj
      have hforked := h.prepare
      rcases j with _ | j
      · refine ⟨_, rfl, ?_⟩
        rw [h.pipes]
        exact hforked.wired (by omega) r
      · have hnext : Ready p (i + 1) (cleanUp num i (prepare i s)) := hforked.cleanUp (by omega)
        obtain ⟨e, he, hwired⟩ := ih hnext (by omega) j (by omega)
        refine ⟨e, he, ?_⟩
        rwa [show i + 1 + j = i + (j + 1) by omega] at hwired

/-- At the prompt it is ready for the first one. -/
theorem Prompt.ready (p : Prompt) :
    Ready p 0 { p.toShell with fd1 := (-1, -1), fd2 := (-1, -1) } := by
  refine ⟨fun _ _ => rfl, rfl, ?_, ?_, ?_⟩
  · exact fun x d id hd hid => p.behind_at? hd hid
  · exact fun h => absurd rfl h
  · exact fun h => absurd rfl h

end rounds

/-- **The wiring of a pipeline**: child `i` reads the pipe of the child before and writes its own; the
first one reads the standard input of the shell or the input file, and the last one writes to the
standard output of the shell or the output file. When it executes its command, no process that is alive
can write to the pipe it reads. -/
theorem wiring (p : Prompt) (r : Files) {num i : Nat} (hi : i < num) :
    ∃ e, (pipeline num r p.toShell).1[i]? = some e ∧ Wired p num r i e := by
  obtain ⟨e, he, hwired⟩ := rounds_wired r p.ready (Nat.zero_add num) i hi
  rw [Nat.zero_add] at hwired
  exact ⟨e, he, hwired⟩

/-- The middle one of three commands. -/
theorem wiring_middle :
    ∃ e, (pipeline 3 ⟨some ['f'], none, some ['g']⟩ Prompt.first.toShell).1[1]? = some e ∧
      Wired .first 3 ⟨some ['f'], none, some ['g']⟩ 1 e :=
  wiring .first _ (by omega)

end SystemProgrammingLab.Pa2
