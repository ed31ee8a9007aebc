import SystemProgrammingLab.Pa2.Render
import SystemProgrammingLab.Pa2.Wiring

/-!
# Which command a redirection belongs to

`parse_command` keeps the first file of each kind of redirection, whatever command it stands on, and
`main` gives the input file to the first command and the output file to the last one. So each command
runs with its own files exactly when the redirections are in their place: an input on the first
command, an output on the last one, each behind the arguments and the input before the output
(`ownRedirections_iff`).

Source: `pa2/main.c`
-/

namespace SystemProgrammingLab.Pa2

open SystemProgrammingLab.Found

/-! ## The redirections of one command -/

/-- The arguments up to the first redirection. -/
theorem exists_args_append (items : List Item) : (∃ args : List Word, items = args.map .arg) ∨
    ∃ (args : List Word) (i : Redirection) (f : Word) (rest : List Item),
      items = args.map .arg ++ .redirect i f :: rest := by
  induction items with
  | nil => exact .inl ⟨[], rfl⟩
  | cons e items ih =>
      rcases e with w | ⟨i, f⟩
      · rcases ih with ⟨args, rfl⟩ | ⟨args, i, f, rest, rfl⟩
        · exact .inl ⟨w :: args, rfl⟩
        · exact .inr ⟨w :: args, i, f, rest, rfl⟩
      · exact .inr ⟨[], i, f, items, rfl⟩

/-- The operators of a command are those of its redirections. -/
theorem Segment.region_eq_none {s : Segment} {j : Redirection} (h : s.redirect j = none) :
    s.region j = none := by
  apply SystemProgrammingLab.Pa2.region_eq_none
  intro hmem
  obtain ⟨e, he, hw⟩ := List.mem_flatMap.mp hmem
  rcases e with w | ⟨i, f⟩
  · exact w.ne_operator j (List.mem_singleton.mp hw).symm
  · rcases List.mem_pair.mp hw with heq | heq
    · have hfile : f ∈ s.items.filterMap (Item.file? j) :=
        List.mem_filterMap.mpr ⟨_, he, if_pos (operator_injective heq)⟩
      rw [List.head?_eq_none_iff.mp h] at hfile
      cases hfile
    · exact f.ne_operator j heq.symm

/-- Nothing stands behind a file name that was parsed as it was written. -/
theorem eq_nil_of_joined {f : Word} {more : List Word}
    (h : joined ' ' ((f :: more).map Subtype.val) = f.val) : more = [] := by
  rcases more with _ | ⟨w, more⟩
  · rfl
  · have hlen := congrArg List.length h
    simp [joined, led] at hlen

/-- One redirection `i` counts among the redirections `j`. -/
def Redirection.count (j i : Redirection) : Nat := if j = i then 1 else 0

/-- A redirection is an input or one of the two outputs. -/
theorem Redirection.count_sum (i : Redirection) :
    count .input i + (count .output i + count .append i) = 1 := by
  cases i <;> rfl

/-- The number of files of a redirection among arguments, a redirection and further items. -/
theorem length_files_append (j : Redirection) (args : List Word) (i : Redirection) (f : Word)
    (rest : List Item) :
    ((args.map Item.arg ++ .redirect i f :: rest).filterMap (Item.file? j)).length =
      Redirection.count j i + (rest.filterMap (Item.file? j)).length := by
  rw [files_append, List.length_append, Redirection.count]
  split_ifs <;> rfl

section parsed

variable {s : Segment} {args more last : List Word} {i k : Redirection} {f g : Word}
  {rest : List Item}

/-- A command without redirections is in order. -/
theorem ordered_of_args (h : s.items = args.map .arg) : s.Ordered :=
  ⟨args, none, none, by simp [h, orderedItems], fun _ ho => nomatch ho⟩

/-- The first redirection behind the arguments has its file. -/
theorem redirect_eq (h : s.items = args.map .arg ++ .redirect i f :: rest) :
    s.redirect i = some f := by
  rw [Segment.redirect, h, files_append, if_pos rfl]
  rfl

/-- The region of a single redirection goes to the end of the command. -/
theorem region_one (h : s.items = args.map .arg ++ .redirect i f :: more.map .arg) :
    s.region i = some ((f :: more).map Subtype.val) := by
  unfold Segment.region
  rw [regions_one h]
  exact if_pos rfl

/-- The regions of an input and an output behind it. -/
theorem region_two (hk : k ≠ .input) (h : s.items = args.map .arg ++
      .redirect .input f :: (more.map .arg ++ .redirect k g :: last.map .arg)) :
    s.region .input = some ((f :: more).map Subtype.val) ∧
      s.region k = some ((g :: last).map Subtype.val) := by
  unfold Segment.region
  rw [regions_two hk h]
  exact ⟨rfl, (if_neg hk).trans (if_pos rfl)⟩

/-- An output in front of an input is not found: the input is searched first. -/
theorem region_late (hi : i ≠ .input) (h : s.items = args.map .arg ++
      .redirect i f :: (more.map .arg ++ .redirect .input g :: last.map .arg)) :
    s.region i = none := by
  have htail : s.tail = (args.map Subtype.val ++ i.operator :: (f :: more).map Subtype.val) ++
      Redirection.operator .input :: (g :: last).map Subtype.val := by
    rw [tail_eq h, words_append, flatMap_words_args]
    simp
  have hfront : Redirection.operator .input ∉
      args.map Subtype.val ++ i.operator :: (f :: more).map Subtype.val := by
    rw [List.mem_append, List.mem_cons, not_or, not_or]
    exact ⟨operator_notMem_args _ args, fun heq => hi (operator_injective heq).symm,
      operator_notMem_args _ (f :: more)⟩
  unfold Segment.region redirections
  rw [htail, regions_append hfront]
  apply (Function.update_of_ne hi _ _).trans
  exact region_eq_none (operator_notMem_args i (g :: last))

/-- The file of every redirection is parsed as it was written. -/
def Segment.Kept (s : Segment) : Prop :=
  ∀ j f, s.redirect j = some f → (s.region j).map (joined ' ') = some f.val

/-- If the region is the file, no word stands behind the file. -/
theorem Segment.Kept.eq_nil (h : s.Kept) (hf : s.redirect i = some f)
    (hregion : s.region i = some ((f :: more).map Subtype.val)) : more = [] := by
  have hjoined := h i f hf
  rw [hregion] at hjoined
  exact eq_nil_of_joined (Option.some.inj hjoined)

/-- So a command with one redirection that keeps its file is in order. -/
theorem Segment.Kept.ordered_one (h : s.Kept)
    (hitems : s.items = args.map .arg ++ .redirect i f :: more.map .arg) : s.Ordered := by
  obtain rfl := h.eq_nil (redirect_eq hitems) (region_one hitems)
  by_cases hinput : i = .input
  · subst hinput
    exact ⟨args, some f, none, by simp [hitems, orderedItems], fun _ ho => nomatch ho⟩
  · refine ⟨args, none, some (i, f), by simp [hitems, orderedItems], ?_⟩
    rintro o ⟨⟩
    exact hinput

/-- The input stands in front of the output, and each of them in front of its file only. -/
theorem Segment.Kept.ordered_two (h : s.Kept)
    (hinput : Redirection.count .input i + Redirection.count .input k = 1)
    (hitems : s.items = args.map .arg ++
      .redirect i f :: (more.map .arg ++ .redirect k g :: last.map .arg)) : s.Ordered := by
  by_cases hi : i = .input
  · subst hi
    have hk : k ≠ .input := by
      rintro rfl
      exact absurd hinput (by decide)
    have hsecond : s.redirect k = some g := by
      rw [Segment.redirect, hitems, files_append, files_append, if_neg hk, if_pos rfl]
      rfl
    obtain ⟨hregion, hregion'⟩ := region_two hk hitems
    obtain rfl := h.eq_nil (redirect_eq hitems) hregion
    obtain rfl := h.eq_nil hsecond hregion'
    refine ⟨args, some f, some (k, g), by simp [hitems, orderedItems], ?_⟩
    rintro o ⟨⟩
    exact hk
  · have hk : k = .input := by
      by_contra hk
      rw [Redirection.count, Redirection.count, if_neg (Ne.symm hi), if_neg (Ne.symm hk)] at hinput
      cases hinput
    subst hk
    have hlost := h i f (redirect_eq hitems)
    rw [region_late hi hitems] at hlost
    cases hlost

/-- A command whose files are parsed as they were written has its redirections behind the arguments,
the input first. -/
theorem Segment.Kept.ordered (h : s.Kept) : s.Ordered := by
  have hin := s.input_once
  have hout := s.output_once
  rcases exists_args_append s.items with ⟨args, hitems⟩ | ⟨args, i, f, rest, hitems⟩
  · exact ordered_of_args hitems
  rcases exists_args_append rest with ⟨more, rfl⟩ | ⟨more, k, g, rest', rfl⟩
  · exact h.ordered_one hitems
  rw [hitems, length_files_append, length_files_append] at hin
  rw [hitems, length_files_append, length_files_append, length_files_append,
    length_files_append] at hout
  have hi := Redirection.count_sum i
  have hk := Redirection.count_sum k
  rcases exists_args_append rest' with ⟨last, rfl⟩ | ⟨last, l, g', rest, rfl⟩
  · exact h.ordered_two (by omega) hitems
  · -- three redirections
    have hl := Redirection.count_sum l
    rw [length_files_append] at hin
    rw [length_files_append, length_files_append] at hout
    omega

end parsed

/-! ## The files of a line -/

/-- The files that `main` has when the line is parsed. -/
def Pipeline.names (p : Pipeline) (j : Redirection) : Option Text :=
  (p.segments.findSome? (Segment.region · j)).map (joined ' ')

/-- The files that are opened for the redirections of a line. -/
def Pipeline.files (p : Pipeline) : Files := ⟨p.names .input, p.names .output, p.names .append⟩

/-- The first command is none of `main` itself, and all are known. -/
def Pipeline.Runs (p : Pipeline) : Prop :=
  (∀ s ∈ p.segments.head?, s.name.val ∉ builtins) ∧
    ∀ s ∈ p.segments, commandType s.name.val ≠ .unknown

/-- The text of a redirection of a parsed line is its first region. -/
theorem ParsedSegments.mapM_text {segments : List Segment} {q : Parsed}
    (h : ParsedSegments 0 segments ⟨none, none, none⟩ q) (j : Redirection) :
    (q.redirects.get j).mapM q.text =
      some ((segments.findSome? (Segment.region · j)).map (joined ' ')) := by
  have hfile := h.file_eq j
  unfold Parsed.file at hfile
  rcases hptr : q.redirects.get j with _ | ptr
  · rw [hptr, Option.map_none] at hfile
    rcases hregion : segments.findSome? (Segment.region · j) with _ | ws
    · rfl
    · rw [hregion] at hfile
      cases hfile
  · rw [hptr, Option.map_some] at hfile
    rcases hregion : segments.findSome? (Segment.region · j) with _ | ws
    · rw [hregion] at hfile
      cases hfile
    · rw [hregion, Option.map_some, Option.some_inj] at hfile
      rw [Option.mapM_some, hfile]
      rfl

/-- The files of a parsed line. -/
theorem ParsedSegments.files_eq {p : Pipeline} {q : Parsed}
    (h : ParsedSegments 0 p.segments ⟨none, none, none⟩ q) : q.files = some p.files := by
  unfold Parsed.files
  rw [h.mapM_text, h.mapM_text, h.mapM_text]
  rfl

/-- The name of a parsed line is that of its first command. -/
theorem ParsedSegments.name_eq {s : Segment} {segments : List Segment} {q : Parsed}
    (h : ParsedSegments 0 (s :: segments) ⟨none, none, none⟩ q) : q.name = some s.name.val := by
  unfold Parsed.name
  rw [h.argvs]
  rfl

/-- The builtins are `cd` and `exit`. -/
theorem mem_builtins {w : Text} : w ∈ builtins ↔ w = "cd".toList ∨ w = "exit".toList := by
  simp [builtins]

/-- The line of a pipeline is run when its arguments fit and its commands are known. -/
theorem runLine_eq_run {p : Pipeline} {shell last : Shell} {execs : List Exec} :
    runLine (p.render ++ [terminator]) shell = some (.run execs last) ↔
      (∀ s ∈ p.segments, s.Fits) ∧ p.Runs ∧
        pipeline p.segments.length p.files shell = (execs, last) := by
  obtain ⟨q, hq, hparse⟩ := parseLine_spec p
  obtain ⟨s, segments, hsegments⟩ := List.exists_cons_of_ne_nil p.ne_nil
  have hname : q.name = some s.name.val := by
    rw [hsegments] at hq
    exact hq.name_eq
  have hlength : q.commands.length = p.segments.length := by
    have hlen := congrArg List.length hq.types
    rwa [List.length_map, List.length_map] at hlen
  have hhead : (∀ t ∈ p.segments.head?, t.name.val ∉ builtins) ↔ s.name.val ∉ builtins := by
    rw [hsegments, List.head?_cons]
    simp
  have hknown : (∀ t ∈ p.segments, commandType t.name.val ≠ .unknown) ↔
      CommandType.unknown ∉ p.segments.map fun t => commandType t.name.val := by
    simp
  unfold runLine Pipeline.Runs
  rw [hparse, hhead, hknown, mem_builtins, ← hq.types]
  by_cases hfits : ∀ t ∈ p.segments, t.Fits
  · rw [if_pos hfits, Option.bind_eq_bind, Option.bind_some, hname, Option.bind_eq_bind,
      Option.bind_some]
    by_cases hexit : s.name.val = "exit".toList
    · simp [hexit]
    by_cases hcd : s.name.val = "cd".toList
    · simp [hcd]
    by_cases hunknown : CommandType.unknown ∈ q.commands.map Command.type
    · rw [if_neg hexit, if_neg hcd, if_pos hunknown]
      simp [hunknown]
    · rw [if_neg hexit, if_neg hcd, if_neg hunknown, hq.files_eq, hlength]
      constructor
      · rintro ⟨⟩
        exact ⟨hfits, ⟨not_or.mpr ⟨hcd, hexit⟩, hunknown⟩, rfl⟩
      · rintro ⟨-, -, heq⟩
        rw [Option.bind_eq_bind, Option.bind_some, heq]
        rfl
  · rw [if_neg hfits]
    simp [hfits]

/-! ## Each command with its own files -/

/-- The standard descriptor that a redirection replaces. -/
def Redirection.fd : Redirection → Nat
  | .input => stdin
  | .output => stdout
  | .append => stdout

/-- The command that `main` gives the file of a redirection, of `n` commands. -/
def Redirection.position (n : Nat) : Redirection → Nat
  | .input => 0
  | .output => n - 1
  | .append => n - 1

/-- Command `j` of the line runs with the file of a redirection in the place it replaces. -/
def RunsWith (line : Text) (shell : Shell) (j : Nat) (k : Redirection) (name : Text) : Prop :=
  ∃ execs last e, runLine (line ++ [terminator]) shell = some (.run execs last) ∧
    execs[j]? = some e ∧ e.child.at? k.fd = some (.file k name)

/-- Exactly the command that a redirection is written on runs with its file. -/
def OwnRedirections (p : Pipeline) : Prop :=
  ∀ (prompt : Prompt) i s, p.segments[i]? = some s → ∀ k f, s.redirect k = some f →
    ∀ j, RunsWith p.render prompt.toShell j k f.val ↔ j = i

/-- No command has a redirection. -/
def Pipeline.Plain (p : Pipeline) : Prop := ∀ s ∈ p.segments, ∀ k, s.redirect k = none

/-- The name of the file that is opened for a redirection. -/
def Files.opened (r : Files) : Redirection → Option Text
  | .input => r.redirectIn
  | .output => r.redirectOut
  | .append => if r.redirectOut = none then r.redirectOutAppend else none

/-- What replaces a standard descriptor. -/
def Files.replaced (r : Files) : Redirection → Option Desc
  | .input => r.stdinFile
  | .output => r.stdoutFile
  | .append => r.stdoutFile

/-- A descriptor is replaced by the file that is opened for it. -/
theorem Files.replaced_eq_file {r : Files} {k : Redirection} {name : Text} :
    r.replaced k = some (.file k name) ↔ r.opened k = some name := by
  rcases r with ⟨input, output, append⟩
  cases k
  · simp [Files.replaced, Files.opened, Files.stdinFile]
  all_goals
    rcases output with _ | f <;> simp [Files.replaced, Files.opened, Files.stdoutFile]

section children

variable {prompt : Prompt} {num j : Nat} {r : Files} {e : Exec} {k : Redirection} {name : Text}

/-- The descriptor of a redirection, in the child in its position: the file if there is one. -/
theorem Wired.at_position (h : Wired prompt num r j e) (hj : j = k.position num) :
    e.child.at? k.fd = (r.replaced k).or (prompt.table.at? k.fd) := by
  cases k
  · exact h.stdin.trans (if_pos hj)
  · exact h.stdout.trans (if_pos hj)
  · exact h.stdout.trans (if_pos hj)

/-- The other commands have pipes. -/
theorem Wired.position (h : Wired prompt num r j e) (hfile : e.child.at? k.fd = some (.file k name)) :
    j = k.position num := by
  by_contra hj
  cases k
  · exact nomatch hfile.symm.trans (h.stdin.trans (if_neg hj))
  · exact nomatch hfile.symm.trans (h.stdout.trans (if_neg hj))
  · exact nomatch hfile.symm.trans (h.stdout.trans (if_neg hj))

/-- Every round starts a child. -/
theorem length_rounds (num : Nat) (r : Files) : ∀ (k i : Nat) (s : Shell),
    (rounds num r k i s).1.length = k := by
  intro k
  induction k with
  | zero => exact fun _ _ => rfl
  | succ k ih => exact fun i s => congrArg (· + 1) (ih _ _)

/-- Each child that is started is wired. -/
theorem wired_of_getElem? (h : (pipeline num r prompt.toShell).1[j]? = some e) :
    j < num ∧ Wired prompt num r j e := by
  have hj : j < num := by
    rw [← length_rounds num r num 0 { prompt.toShell with fd1 := (-1, -1), fd2 := (-1, -1) }]
    exact (List.getElem?_eq_some_iff.mp h).1
  obtain ⟨e', he, hwired⟩ := rounds_wired r prompt.ready (Nat.zero_add num) j hj
  obtain rfl := Option.some.inj (h.symm.trans he)
  rw [Nat.zero_add] at hwired
  exact ⟨hj, hwired⟩

/-- A child that runs with a file is a child of the line, with this file at the descriptor. -/
theorem RunsWith.wired {p : Pipeline} (h : RunsWith p.render prompt.toShell j k name) :
    (∀ s ∈ p.segments, s.Fits) ∧ p.Runs ∧ j < p.segments.length ∧
      ∃ e, Wired prompt p.segments.length p.files j e ∧ e.child.at? k.fd = some (.file k name) := by
  obtain ⟨execs, last, e, hrun, he, hfile⟩ := h
  obtain ⟨hfits, hruns, hpipeline⟩ := runLine_eq_run.mp hrun
  obtain ⟨hj, hwired⟩ := wired_of_getElem? (e := e) (by rw [hpipeline]; exact he)
  exact ⟨hfits, hruns, hj, e, hwired, hfile⟩

/-- A file that is opened is at the descriptor of the child in its position. -/
theorem runsWith_of_opened {p : Pipeline} (hfits : ∀ s ∈ p.segments, s.Fits) (hruns : p.Runs)
    (hj : j < p.segments.length) (hk : j = k.position p.segments.length)
    (hopened : p.files.opened k = some name) : RunsWith p.render prompt.toShell j k name := by
  obtain ⟨e, he, hwired⟩ :=
    rounds_wired p.files prompt.ready (Nat.zero_add p.segments.length) j hj
  rw [Nat.zero_add] at hwired
  refine ⟨_, _, e, runLine_eq_run.mpr ⟨hfits, hruns, rfl⟩, he, ?_⟩
  rw [hwired.at_position hk, Files.replaced_eq_file.mpr hopened, Option.some_or]

end children

/-! ## Exactly when each command has its own files -/

/-- What is found first, when only one element has anything. -/
theorem findSome?_eq_of_unique {α β : Type} {l : List α} {g : α → Option β} {i : Nat} {a : α}
    (ha : l[i]? = some a) (hunique : ∀ (j : Nat) (b : α), l[j]? = some b → g b ≠ none → j = i) :
    l.findSome? g = g a := by
  rcases hfind : l.findSome? g with _ | c
  · exact (List.findSome?_eq_none_iff.mp hfind a (List.mem_of_getElem? ha)).symm
  · obtain ⟨b, hb, hc⟩ := List.exists_of_findSome?_eq_some hfind
    obtain ⟨j, hj⟩ := List.getElem?_of_mem hb
    have hji := hunique j b hj (by rw [hc]; exact Option.some_ne_none c)
    subst hji
    obtain rfl := Option.some.inj (ha.symm.trans hj)
    exact hc.symm

section pipeline

variable {p : Pipeline} {s : Segment} {k : Redirection} {f : Word}

/-- Every redirection is on the command that gets its file. -/
def Pipeline.InPosition (p : Pipeline) : Prop :=
  ∀ (i : Nat) (s : Segment) (k : Redirection), p.segments[i]? = some s → s.redirect k ≠ none →
    i = k.position p.segments.length

/-- Redirections in their place are at the commands in their position. -/
theorem Pipeline.Placed.inPosition (h : p.Placed) : p.InPosition := by
  intro i s k hs hk
  obtain ⟨hinput, houtput, -⟩ := h i s hs
  cases k
  · exact hinput hk
  · exact Nat.eq_sub_of_add_eq (houtput .output (by decide) hk)
  · exact Nat.eq_sub_of_add_eq (houtput .append (by decide) hk)

/-- The name of a redirection is the region at the command in its position. -/
theorem Pipeline.InPosition.names_eq (h : p.InPosition)
    (hs : p.segments[k.position p.segments.length]? = some s) :
    p.names k = (s.region k).map (joined ' ') := by
  unfold Pipeline.names
  rw [findSome?_eq_of_unique hs]
  intro j t ht hregion
  exact h j t k ht fun hnone => hregion (Segment.region_eq_none hnone)

/-- And this is what is opened. -/
theorem Pipeline.InPosition.opened_eq (h : p.InPosition)
    (hs : p.segments[k.position p.segments.length]? = some s) (hf : s.redirect k = some f) :
    p.files.opened k = (s.region k).map (joined ' ') := by
  rw [← h.names_eq hs]
  cases k
  · rfl
  · rfl
  · -- no other output is written on this command
    have hout := s.output_once
    have happend : s.items.filterMap (Item.file? .append) ≠ [] := by
      intro hnil
      unfold Segment.redirect at hf
      rw [hnil] at hf
      cases hf
    have houtput : s.redirect .output = none := by
      rw [Segment.redirect, List.head?_eq_none_iff, ← List.length_eq_zero_iff]
      have hpos := List.length_pos_iff.mpr happend
      omega
    have hnames : p.names .output = none := by
      rw [h.names_eq (k := .output) hs, Segment.region_eq_none houtput]
      rfl
    exact if_pos hnames

/-- The redirections of a pipeline whose commands have their own files. -/
theorem OwnRedirections.spec (h : OwnRedirections p) {i : Nat} (hs : p.segments[i]? = some s)
    (hf : s.redirect k = some f) :
    p.Runs ∧ i = k.position p.segments.length ∧ p.files.opened k = some f.val := by
  obtain ⟨-, hruns, -, e, hwired, hfile⟩ := ((h .first i s hs k f hf i).mpr rfl).wired
  have hi := hwired.position hfile
  refine ⟨hruns, hi, ?_⟩
  rw [hwired.at_position hi] at hfile
  rw [← Files.replaced_eq_file]
  rcases hreplaced : p.files.replaced k with _ | d
  · rw [hreplaced, Option.none_or] at hfile
    cases k <;> cases hfile
  · rw [hreplaced, Option.some_or] at hfile
    exact hfile

/-- A line whose redirections work has them in their place. -/
theorem OwnRedirections.placed (h : OwnRedirections p) : p.Placed := by
  have hposition : p.InPosition := by
    intro i s k hs hk
    obtain ⟨f, hf⟩ := Option.ne_none_iff_exists'.mp hk
    exact (h.spec hs hf).2.1
  intro i s hs
  have hpos : 0 < p.segments.length := List.length_pos_iff.mpr p.ne_nil
  refine ⟨hposition i s .input hs, ?_, ?_⟩
  · intro k hk hne
    have hi := hposition i s k hs hne
    cases k
    · exact absurd rfl hk
    · exact hi ▸ Nat.sub_add_cancel hpos
    · exact hi ▸ Nat.sub_add_cancel hpos
  · apply Segment.Kept.ordered
    intro k f hf
    obtain ⟨-, hi, hopened⟩ := h.spec hs hf
    rw [← hposition.opened_eq (hi ▸ hs) hf, hopened]

/-- Redirections in their place work. -/
theorem Pipeline.Placed.own (h : p.Placed) (hruns : p.Runs) : OwnRedirections p := by
  intro prompt i s hs k f hf j
  have hi := h.inPosition i s k hs (by rw [hf]; exact Option.some_ne_none f)
  have hopened := h.inPosition.opened_eq (hi ▸ hs) hf
  rw [(h i s hs).2.2.region, hf] at hopened
  constructor
  · intro hj
    obtain ⟨-, -, -, e, hwired, hfile⟩ := hj.wired
    exact (hwired.position hfile).trans hi.symm
  · rintro rfl
    have hlt := (List.getElem?_eq_some_iff.mp hs).1
    apply runsWith_of_opened (fun t ht => (h.ordered t ht).fits) hruns hlt hi
    exact hopened.trans (congrArg some (List.append_nil f.val))

/-- **Each redirection belongs to its own command** exactly when the redirections are in their place
and the line is run, or there are none. -/
theorem ownRedirections_iff (p : Pipeline) :
    OwnRedirections p ↔ p.Placed ∧ (p.Runs ∨ p.Plain) := by
  constructor
  · intro h
    refine ⟨h.placed, ?_⟩
    by_contra hneither
    rw [not_or] at hneither
    apply hneither.2
    intro s hs k
    by_contra hk
    obtain ⟨i, hi⟩ := List.getElem?_of_mem hs
    obtain ⟨f, hf⟩ := Option.ne_none_iff_exists'.mp hk
    exact hneither.1 (h.spec hi hf).1
  · rintro ⟨hplaced, hruns | hplain⟩
    · exact hplaced.own hruns
    · intro prompt i s hs k f hf
      rw [hplain s (List.mem_of_getElem? hs) k] at hf
      cases hf

end pipeline

/-- A command that is known. -/
def sortWord : Word :=
  ⟨"sort".toList, by decide, by simp [terminator], fun i => by cases i <;> decide⟩

/-- `"sort | sort < sort"`: the first command reads the file. -/
def secondInput : Pipeline where
  segments := [⟨sortWord, [], by decide, by decide, by decide⟩,
    ⟨sortWord, [.redirect .input sortWord], by decide, by decide, by decide⟩]
  ne_nil := List.cons_ne_nil _ _
  last := by
    rintro s ⟨⟩
    decide

/-- A redirection of another command does not. -/
theorem not_ownRedirections : ¬ ∀ p : Pipeline, OwnRedirections p := by
  intro h
  obtain ⟨-, hposition, -⟩ := (h secondInput).spec (i := 1) (k := .input) rfl rfl
  exact absurd hposition (by decide)

end SystemProgrammingLab.Pa2
