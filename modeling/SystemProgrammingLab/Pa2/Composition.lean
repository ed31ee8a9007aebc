import SystemProgrammingLab.Pa2.Head
import SystemProgrammingLab.Pa2.Meaning

/-!
# Lines as they are written

A line whose redirections stand in their place is a list of commands, an input file and an output file, and it
has a meaning that says nothing of processes: each command makes an output of the output of the one in front
(`Line.outcome`), and the last one goes to the file or to the screen (`Line.meaning`). A command that cannot be
executed, or whose file cannot be opened, makes what is in the buffer of the shell.

The text of such a line is parsed into the commands and the files that were written, and every run ends with
the files and the screen that the line means (`line_means`). The outputs between the commands have to fit into
a pipe, and a single command must not read the file that it writes.

Source: `pa2/main.c`
-/

namespace SystemProgrammingLab.Pa2

open SystemProgrammingLab.Found

variable {φ σ : Type}

/-! ## The task of a line -/

/-- The commands and the files as they are written. -/
def Line.task (l : Line) (h : Host φ σ) (prompt : Prompt) : Task φ σ where
  toHost := h
  prompt := prompt
  commands := l.segments.map fun s => (commandType s.name.val, s.args.map Subtype.val)
  files := ⟨(l.file .input).map Subtype.val, (l.file .output).map Subtype.val, (l.file .append).map Subtype.val⟩

/-- A function that is defined on all elements. -/
theorem mapM_map_some {α β γ : Type} (g : β → Option γ) (k : α → β) (k' : α → γ) (l : List α)
    (h : ∀ a ∈ l, g (k a) = some (k' a)) : (l.map k).mapM g = some (l.map k') := by
  induction l with
  | nil => rfl
  | cons a l ih =>
      rw [List.forall_mem_cons] at h
      rw [List.map_cons, List.mapM_cons, h.1, ih h.2]
      rfl

/-- The arguments of the commands. -/
theorem ParsedSegments.calls_eq {l : Line} {q : Parsed}
    (h : ParsedSegments 0 l.segments ⟨none, none, none⟩ q) :
    q.calls = some (l.segments.map fun s => (commandType s.name.val, s.args.map Subtype.val)) := by
  have hargvs : q.argvs.mapM (fun args : List (Option (Option Text)) => (args.filterMap id).mapM id) =
      some (l.segments.map fun s => s.args.map Subtype.val) := by
    rw [h.argvs]
    apply mapM_map_some
    intro s hs
    rw [(l.placed.ordered s hs).own, List.filterMap_append, List.map_map, List.filterMap_map]
    have hargs : s.args.filterMap (id ∘ ((some ∘ some) ∘ Subtype.val)) = (s.args.map Subtype.val).map some := by
      rw [List.map_map]
      exact congrFun (List.filterMap_eq_map (f := some ∘ Subtype.val)) s.args
    rw [hargs]
    refine (congrArg (List.mapM id) (List.append_nil _)).trans ?_
    rw [mapM_map_some id some id _ fun _ _ => rfl, List.map_id]
  unfold Parsed.calls
  rw [hargvs, h.types, Option.bind_eq_bind, Option.bind_some, List.zip_map']
  rfl

/-- The files of a line are those that are written. -/
theorem Line.files_eq (l : Line) : l.toPipeline.files =
    ⟨(l.file .input).map Subtype.val, (l.file .output).map Subtype.val, (l.file .append).map Subtype.val⟩ := by
  have hname : ∀ j, l.toPipeline.names j = (l.file j).map Subtype.val := by
    intro j
    rw [Pipeline.names, findSome?_region l.placed.ordered, Option.map_map, Pipeline.file]
    congr 1
    funext f
    exact List.append_nil f.val
  rw [Pipeline.files, hname, hname, hname]

/-- `main` runs the line as it is written. -/
theorem task?_line (h : Host φ σ) (prompt : Prompt) {l : Line} (hruns : l.Runs) :
    h.task? prompt (l.render ++ [terminator]) = some (l.task h prompt) := by
  obtain ⟨q, hq, hparse⟩ := parseLine_spec l.toPipeline
  obtain ⟨s, segments, hsegments⟩ := List.exists_cons_of_ne_nil l.ne_nil
  have hname : q.name = some s.name.val := by
    rw [hsegments] at hq
    exact hq.name_eq
  have hbuiltin : s.name.val ∉ builtins := by
    apply hruns.1
    rw [hsegments]
    rfl
  rw [mem_builtins, not_or] at hbuiltin
  have hknown : CommandType.unknown ∉ q.commands.map Command.type := by
    rw [hq.types, List.mem_map]
    rintro ⟨t, ht, hunknown⟩
    exact hruns.2 t ht hunknown
  unfold Host.task?
  rw [hparse, if_pos fun t ht => (l.placed.ordered t ht).fits]
  simp only [Option.bind_eq_bind, Option.bind_some, hname, if_neg hbuiltin.1, if_neg hbuiltin.2, if_neg hknown,
    hq.calls_eq, hq.files_eq, l.files_eq]
  rfl

/-! ## What a line means -/

/-- Where the output of a line goes: to the screen, to a file behind what is kept of it, or nowhere, when the
file cannot be opened. -/
inductive Target (φ : Type)
  | screen
  | file (g : φ) (kept : List UInt8)
  | refused

section meaning

variable (h : Host φ σ) (f : σ → List UInt8 → List UInt8) (w : World φ)

/-- What a command makes of its input, when it is executed with these files. -/
def Host.makes (fs : FileSystem φ UInt8) (s : Segment) : List UInt8 → List UInt8 :=
  (h.launch (commandType s.name.val) (s.args.map Subtype.val) fs).value f

/-- The input of a line; `none` when its file cannot be opened. -/
def Line.input? (l : Line) : Option (List UInt8) :=
  match l.file .input with
  | some name => if h.paths.readError name.val = none then w.files (h.paths.fileOf name.val) else none
  | none => some w.input

/-- The target of a line; an output comes before an append. -/
def Line.target (l : Line) : Target φ :=
  match l.file .output, l.file .append with
  | some name, _ =>
      if h.paths.writeError name.val = none then .file (h.paths.fileOf name.val) [] else .refused
  | none, some name =>
      if h.paths.writeError name.val = none then
        .file (h.paths.fileOf name.val) ((w.files (h.paths.fileOf name.val)).getD [])
      else .refused
  | none, none => .screen

variable [DecidableEq φ]

/-- The output of the last command and where it goes. A child that cannot open its file writes what it got of
the buffer to what it has as its standard output, which is the screen. -/
def Target.last (t : Target φ) (s : Segment) : Option (List UInt8) → Target φ × List UInt8
  | none => (.screen, h.buffered)
  | some xs =>
      match t with
      | .refused => (.screen, h.buffered)
      | .screen => (.screen, h.makes f w.files s xs)
      | .file g kept => (.file g kept, h.makes f (Function.update w.files g (some kept)) s xs)

/-- What a command in front of another one writes. -/
def Host.passes (s : Segment) : Option (List UInt8) → List UInt8
  | none => h.buffered
  | some xs => h.makes f w.files s xs

/-- The commands one behind the other. -/
def Target.outcome (t : Target φ) : List Segment → Option (List UInt8) → Target φ × List UInt8
  | [], _ => (.screen, [])
  | [s], xs => t.last h f w s xs
  | s :: s' :: rest, xs => t.outcome (s' :: rest) (some (h.passes f w s xs))

/-- The files and the screen afterwards. -/
def Target.result (p : Target φ × List UInt8) : FileSystem φ UInt8 × List UInt8 :=
  match p.1 with
  | .file g kept => (Function.update w.files g (some (kept ++ p.2)), w.screen)
  | .screen | .refused => (w.files, w.screen ++ p.2)

/-- **The meaning of a line.** -/
def Line.meaning (l : Line) : FileSystem φ UInt8 × List UInt8 :=
  Target.result w ((l.target h w).outcome h f w l.segments (l.input? h w))

/-- What goes through the pipes. -/
def Host.between : List Segment → Option (List UInt8) → List (List UInt8)
  | [], _ => []
  | [_], _ => []
  | s :: s' :: rest, xs => h.passes f w s xs :: Host.between (s' :: rest) (some (h.passes f w s xs))

end meaning

/-! ## The children make what the line means -/

section makes

variable [DecidableEq φ] {l : Line} {h : Host φ σ} {prompt : Prompt} {f : σ → List UInt8 → List UInt8}
  {w : World φ} {i : Nat} {s : Segment} {xs : Option (List UInt8)}

omit [DecidableEq φ] in
/-- There is a child for each command. -/
theorem Line.num_task : (l.task h prompt).num = l.segments.length := List.length_map _

/-- What child `i` is to read; `none` when its input file cannot be opened. -/
def Task.Fed (x : Task φ σ) (w : World φ) (f : σ → List UInt8 → List UInt8) (i : Nat)
    (xs : Option (List UInt8)) : Prop :=
  (xs = none ∧ ∃ e, x.openInput i w.files = .error e) ∨
    ∃ fdIn, x.openInput i w.files = .ok fdIn ∧ xs = some (x.inputs w f i)

/-- A command behind another one is fed by it. -/
theorem fed_succ (x : Task φ σ) (w : World φ) (f : σ → List UInt8 → List UInt8) (i : Nat) :
    x.Fed w f (i + 1) (some (x.outputs w f i)) :=
  .inr ⟨none, Task.openInput_of_ne (Nat.succ_ne_zero i) _, rfl⟩

/-- The first command reads its file, or what the shell reads. -/
theorem source_eq {x : Task φ σ} {fdIn : Option (Opened φ)} (hin : x.openInput 0 w.files = .ok fdIn) :
    x.source w = fdIn.elim w.input fun d => d.bytes w.files := by
  have hfd : (x.opening 0 w.files).1.fdIn = fdIn := by
    unfold Task.opening
    rw [hin]
    rcases x.openOutput 0 w.files with ⟨e | fdOut, fs'⟩
    · rfl
    · rfl
  unfold Task.source
  rw [hfd]
  cases fdIn <;> rfl

omit [DecidableEq φ] in
/-- The first child opens the input of the line, if there is one. -/
theorem openInput_line : (l.task h prompt).openInput 0 w.files =
    (l.file .input).elim (.ok none) fun name => (openRead h.paths w.files name.val).map some := by
  unfold Task.openInput
  have hname : (l.task h prompt).files.redirectIn = (l.file .input).map Subtype.val := rfl
  rw [hname]
  rcases l.file .input with _ | name
  · rfl
  · exact if_pos rfl

/-- The first command is fed by the input of the line. -/
theorem fed_zero : (l.task h prompt).Fed w f 0 (l.input? h w) := by
  have hopen : (l.task h prompt).openInput 0 w.files = _ := openInput_line
  unfold Line.input?
  rcases hname : l.file .input with _ | name
  · rw [hname, Option.elim_none] at hopen
    exact .inr ⟨none, hopen, congrArg some (source_eq hopen).symm⟩
  · rw [hname, Option.elim_some] at hopen
    dsimp only
    by_cases hread : h.paths.readError name.val = none
    · rw [if_pos hread]
      rcases hfile : w.files (h.paths.fileOf name.val) with _ | content
      · refine .inl ⟨rfl, enoent, ?_⟩
        simp only [hopen, openRead, hread, hfile]
        rfl
      · have hok : (l.task h prompt).openInput 0 w.files = .ok (some ⟨h.paths.fileOf name.val, 0⟩) := by
          simp only [hopen, openRead, hread, hfile]
          rfl
        refine .inr ⟨_, hok, congrArg some ?_⟩
        exact ((source_eq hok).trans (Opened.bytes_eq hfile)).symm
    · obtain ⟨e, he⟩ := Option.ne_none_iff_exists'.mp hread
      rw [if_neg hread]
      refine .inl ⟨rfl, e, ?_⟩
      simp only [hopen, openRead, he]
      rfl

/-- What a child is that has opened its files. -/
theorem proc_eq {fdIn fdOut : Option (Opened φ)} {fs' : FileSystem φ UInt8} (hs : l.segments[i]? = some s)
    (ho : (l.task h prompt).opening i w.files = (.opened fdIn fdOut, fs')) :
    ((l.task h prompt).proc i w.files).value f = h.makes f fs' s := by
  unfold Task.proc
  rw [ho]
  have hcommand : (l.task h prompt).commands[i]? = some (commandType s.name.val, s.args.map Subtype.val) := by
    show (l.segments.map _)[i]? = _
    rw [List.getElem?_map, hs]
    rfl
  dsimp only
  rw [hcommand]
  rfl

/-- A command in front of another one. -/
theorem outputs_passes (hs : l.segments[i]? = some s) (hlt : i + 1 < l.segments.length)
    (hfed : (l.task h prompt).Fed w f i xs) : (l.task h prompt).outputs w f i = h.passes f w s xs := by
  have hout := Task.openOutput_of_lt (x := l.task h prompt) (by rw [Line.num_task]; exact hlt) w.files
  rw [Task.outputs_eq]
  rcases hfed with ⟨rfl, e, hin⟩ | ⟨fdIn, hin, rfl⟩
  · have ho : (l.task h prompt).opening i w.files = (.inputFails, w.files) := by
      unfold Task.opening
      rw [hin]
    unfold Task.proc
    rw [ho]
    rfl
  · have ho : (l.task h prompt).opening i w.files = (.opened fdIn none, w.files) := by
      unfold Task.opening
      rw [hin, hout]
    rw [proc_eq hs ho]
    rfl

/-- The last child opens what the line names. -/
theorem openOutput_target (h : Host φ σ) (prompt : Prompt) (w : World φ) (hlast : i + 1 = l.segments.length) :
    (l.target h w = .screen ∧ (l.task h prompt).openOutput i w.files = (.ok none, w.files)) ∨
      (l.target h w = .refused ∧ ∃ e, (l.task h prompt).openOutput i w.files = (.error e, w.files)) ∨
        ∃ g kept, l.target h w = .file g kept ∧ (l.task h prompt).openOutput i w.files =
          (.ok (some ⟨g, 0⟩), Function.update w.files g (some kept)) := by
  have hi : i = (l.task h prompt).num - 1 := by
    rw [Line.num_task]
    omega
  unfold Task.openOutput Line.target
  rw [if_pos hi]
  have hout : (l.task h prompt).files.redirectOut = (l.file .output).map Subtype.val := rfl
  have happend : (l.task h prompt).files.redirectOutAppend = (l.file .append).map Subtype.val := rfl
  have hpaths : (l.task h prompt).paths = h.paths := rfl
  rw [hout, happend, hpaths]
  rcases l.file .output with _ | name
  · rcases l.file .append with _ | name
    · exact .inl ⟨rfl, rfl⟩
    · rcases herror : h.paths.writeError name.val with _ | e
      · refine .inr (.inr ⟨_, _, if_pos herror, ?_⟩)
        simp only [Option.map_some, Option.map_none, openAppend, herror]
        rfl
      · refine .inr (.inl ⟨if_neg (by rw [herror]; exact Option.some_ne_none e), e, ?_⟩)
        simp only [Option.map_some, Option.map_none, openAppend, herror]
        rfl
  · rcases herror : h.paths.writeError name.val with _ | e
    · refine .inr (.inr ⟨_, _, if_pos herror, ?_⟩)
      simp only [Option.map_some, openTrunc, herror]
      rfl
    · refine .inr (.inl ⟨if_neg (by rw [herror]; exact Option.some_ne_none e), e, ?_⟩)
      simp only [Option.map_some, openTrunc, herror]
      rfl

/-- The last command. -/
theorem result_last (hs : l.segments[i]? = some s) (hlast : i + 1 = l.segments.length)
    (hfed : (l.task h prompt).Fed w f i xs) :
    Target.result w ((l.target h w).last h f w s xs) =
      ((l.task h prompt).filesWith w i ((l.task h prompt).outputs w f i),
        (l.task h prompt).screenWith w i ((l.task h prompt).outputs w f i)) := by
  have hnot : ¬ i + 1 < (l.task h prompt).num := by
    rw [Line.num_task]
    omega
  -- what is made of an opening, its files and its output
  have hmade : ∀ {o : Opening φ} {fs' : FileSystem φ UInt8} (out : List UInt8),
      (l.task h prompt).opening i w.files = (o, fs') →
      ((l.task h prompt).proc i w.files).value f ((l.task h prompt).inputs w f i) = out →
      ((l.task h prompt).filesWith w i ((l.task h prompt).outputs w f i),
        (l.task h prompt).screenWith w i ((l.task h prompt).outputs w f i)) =
      (o.fdOut.elim fs' fun d => Function.update fs' d.file (some ((fs' d.file).getD [] ++ out)),
        o.fdOut.elim (w.screen ++ out) fun _ => w.screen) := by
    intro o fs' out ho hout
    rw [Task.outputs_eq, hout]
    unfold Task.filesWith Task.screenWith
    rw [ho]
    dsimp only
    rcases o.fdOut with _ | d
    · rw [if_neg (not_or.mpr ⟨hnot, not_not.mpr rfl⟩)]
      rfl
    · rw [if_pos (.inr (Option.some_ne_none d))]
      rfl
  rcases hfed with ⟨rfl, e, hin⟩ | ⟨fdIn, hin, rfl⟩
  · have ho : (l.task h prompt).opening i w.files = (.inputFails, w.files) := by
      unfold Task.opening
      rw [hin]
    rw [hmade h.buffered ho (by unfold Task.proc; rw [ho]; rfl)]
    rfl
  · rcases openOutput_target h prompt w hlast with
      ⟨htarget, hout⟩ | ⟨htarget, e, hout⟩ | ⟨g, kept, htarget, hout⟩
    · have ho : (l.task h prompt).opening i w.files = (.opened fdIn none, w.files) := by
        unfold Task.opening
        rw [hin, hout]
      rw [htarget, hmade _ ho (congrFun (proc_eq hs ho) _)]
      rfl
    · have ho : (l.task h prompt).opening i w.files = (.outputFails fdIn, w.files) := by
        unfold Task.opening
        rw [hin, hout]
      rw [htarget, hmade h.buffered ho (by unfold Task.proc; rw [ho]; rfl)]
      rfl
    · have ho : (l.task h prompt).opening i w.files =
          (.opened fdIn (some ⟨g, 0⟩), Function.update w.files g (some kept)) := by
        unfold Task.opening
        rw [hin, hout]
      rw [htarget, hmade _ ho (congrFun (proc_eq hs ho) _)]
      simp only [Target.last, Target.result, Opening.fdOut, Option.elim_some, Function.update_idem,
        Function.update_self, Option.getD_some]

/-! ### The whole line -/

/-- The commands from `i` on. -/
theorem outcome_eq {segments : List Segment} : ∀ {i : Nat} {xs : Option (List UInt8)},
    l.segments.drop i = segments → i < l.segments.length → (l.task h prompt).Fed w f i xs →
      Target.result w ((l.target h w).outcome h f w segments xs) =
        ((l.task h prompt).filesWith w (l.segments.length - 1)
          ((l.task h prompt).outputs w f (l.segments.length - 1)),
         (l.task h prompt).screenWith w (l.segments.length - 1)
          ((l.task h prompt).outputs w f (l.segments.length - 1))) := by
  induction segments with
  | nil =>
      intro i xs hdrop hi
      exact absurd hi (Nat.not_lt_of_le (List.drop_eq_nil_iff.mp hdrop))
  | cons s rest ih =>
      intro i xs hdrop hi hfed
      have hs : l.segments[i]? = some s := by
        rw [← List.head?_drop, hdrop]
        rfl
      have hnext : l.segments.drop (i + 1) = rest := by
        rw [← List.tail_drop, hdrop]
        rfl
      rcases rest with _ | ⟨s', rest⟩
      · have hlast : i + 1 = l.segments.length :=
          Nat.le_antisymm hi (List.drop_eq_nil_iff.mp hnext)
        rw [← hlast, Nat.add_sub_cancel]
        exact result_last hs hlast hfed
      · have hlt : i + 1 < l.segments.length := by
          by_contra hge
          rw [List.drop_eq_nil_of_le (Nat.le_of_not_lt hge)] at hnext
          cases hnext
        rw [Target.outcome, ← outputs_passes hs hlt hfed]
        exact ih hnext hlt (fed_succ _ w f i)

/-- What a command in front of another one writes goes through a pipe. -/
theorem outputs_mem_between {segments : List Segment} : ∀ {i : Nat} {xs : Option (List UInt8)},
    l.segments.drop i = segments → (l.task h prompt).Fed w f i xs →
      ∀ k, i ≤ k → k + 1 < l.segments.length →
        (l.task h prompt).outputs w f k ∈ h.between f w segments xs := by
  induction segments with
  | nil =>
      intro i xs hdrop _ k hik hk
      have hle := List.drop_eq_nil_iff.mp hdrop
      omega
  | cons s rest ih =>
      intro i xs hdrop hfed k hik hk
      have hs : l.segments[i]? = some s := by
        rw [← List.head?_drop, hdrop]
        rfl
      have hnext : l.segments.drop (i + 1) = rest := by
        rw [← List.tail_drop, hdrop]
        rfl
      rcases rest with _ | ⟨s', rest⟩
      · have hle := List.drop_eq_nil_iff.mp hnext
        omega
      · have hpass : (l.task h prompt).outputs w f i = h.passes f w s xs := outputs_passes hs (by omega) hfed
        rw [Host.between, ← hpass]
        rcases Nat.eq_or_lt_of_le hik with rfl | hlt
        · exact List.mem_cons_self
        · exact List.mem_cons_of_mem _ (ih hnext (fed_succ _ w f i) k hlt hk)

/-- The first command does not read the target when it is not a command by itself. -/
theorem apart_line (hapart : l.segments.length = 1 → ∀ name ∈ l.file .input, ∀ g kept,
    l.target h w = .file g kept → h.paths.fileOf name.val ≠ g) : (l.task h prompt).Apart w := by
  intro d d' hd hd'
  rcases Task.opening_cases (l.task h prompt) 0 w.files with
    ⟨e, -, ho⟩ | ⟨fdIn, e, fs', -, -, ho⟩ | ⟨fdIn, fdOut, fs', hin, hout, ho⟩
  · rw [ho] at hd'
    cases hd'
  · rw [ho] at hd'
    cases hd'
  · rw [ho] at hd hd'
    cases hd
    cases hd'
    have hone : 0 + 1 = l.segments.length := by
      have hpos : 0 < l.segments.length := List.length_pos_iff.mpr l.ne_nil
      by_contra hne
      rw [Task.openOutput_of_lt (by rw [Line.num_task]; omega)] at hout
      cases hout
    rcases openOutput_target h prompt w hone with
      ⟨-, hout'⟩ | ⟨-, e, hout'⟩ | ⟨g, kept, htarget, hout'⟩
    · rw [hout] at hout'
      cases hout'
    · rw [hout] at hout'
      cases hout'
    · rw [hout] at hout'
      cases hout'
      rcases Task.openInput_ok hin with ⟨hnone, -⟩ | ⟨name, hname, hd⟩
      · cases hnone
      · cases hd
        obtain ⟨name', hname', rfl⟩ := Option.map_eq_some_iff.mp hname
        exact hapart hone.symm name' hname' _ _ htarget

/-- A line under these conditions is proper. -/
theorem proper_line {b : σ → List UInt8 → Nat}
    (hpaths : ∀ s ∈ l.segments, h.PathFits (commandType s.name.val) s.name.val)
    (hcomputes : ∀ s ∈ l.segments, ∀ fs p,
      h.launch (commandType s.name.val) (s.args.map Subtype.val) fs = .program p → Computes h.act p (f p) (b p))
    (hfits : ∀ out ∈ h.between f w l.segments (l.input? h w), out.length ≤ h.capacity)
    (hapart : l.segments.length = 1 → ∀ name ∈ l.file .input, ∀ g kept,
      l.target h w = .file g kept → h.paths.fileOf name.val ≠ g) : (l.task h prompt).Proper w f b := by
  refine ⟨?_, ?_, ?_, apart_line hapart, ?_⟩
  · rw [Line.num_task]
    exact List.length_pos_iff.mpr l.ne_nil
  · intro c hc
    obtain ⟨s, hs, rfl⟩ := List.mem_map.mp hc
    exact hpaths s hs
  · intro i p hi hp
    rw [Line.num_task] at hi
    have hs := List.getElem?_eq_getElem hi
    have hcommand : (l.task h prompt).commands[i]? =
        some (commandType l.segments[i].name.val, l.segments[i].args.map Subtype.val) := by
      show (l.segments.map _)[i]? = _
      rw [List.getElem?_map, hs]
      rfl
    unfold Task.proc at hp
    rw [hcommand] at hp
    split at hp
    · exact hcomputes _ (List.getElem_mem hi) _ p hp
    · cases hp
    · cases hp
  · intro i hi
    rw [Line.num_task] at hi
    exact hfits _ (outputs_mem_between rfl fed_zero i (Nat.zero_le i) hi)

end makes

/-- What has none of these characters is a word. -/
theorem isWord_of_all {s : Text} (hne : s ≠ [])
    (h : s.all fun c => c ≠ ' ' ∧ c ≠ '|' ∧ c ≠ '\n' ∧ c ≠ terminator ∧ c ≠ '<' ∧ c ≠ '>') : IsWord s := by
  have hall : ∀ c ∈ s, c ≠ ' ' ∧ c ≠ '|' ∧ c ≠ '\n' ∧ c ≠ terminator ∧ c ≠ '<' ∧ c ≠ '>' := by
    intro c hc
    exact of_decide_eq_true (List.all_eq_true.mp h c hc)
  refine ⟨hne, ?_, ?_⟩
  · intro c hc hmem
    obtain ⟨hspace, hbar, hnewline, hnul, -, -⟩ := hall c hmem
    simp only [List.mem_cons, List.not_mem_nil, or_false] at hc
    rcases hc with rfl | rfl | rfl | rfl
    · exact hspace rfl
    · exact hbar rfl
    · exact hnewline rfl
    · exact hnul rfl
  · rintro i rfl
    cases i with
    | input => exact (hall '<' List.mem_cons_self).2.2.2.2.1 rfl
    | output | append => exact (hall '>' List.mem_cons_self).2.2.2.2.2 rfl

/-- A line of two commands with an input file and an output file. -/
theorem exists_catHead : ∃ l : Line, l.render = "cat < a | head -n 1 > b".toList ∧ l.Runs ∧
    l.segments.length = 2 ∧
    (∀ s ∈ l.segments, (tools ownNames 65536 ['d'] []).PathFits (commandType s.name.val) s.name.val) ∧
    (tools ownNames 65536 ['d'] []).between Tool.value ⟨twoLines, [], []⟩ l.segments
      (l.input? (tools ownNames 65536 ['d'] []) ⟨twoLines, [], []⟩) = [[120, 10, 121, 10]] ∧
    (l.meaning (tools ownNames 65536 ['d'] []) Tool.value ⟨twoLines, [], []⟩).1 ['b'] = some [120, 10] := by
  let cat : Segment := ⟨⟨"cat".toList, isWord_of_all (by decide) (by decide)⟩,
    [.redirect .input ⟨['a'], isWord_of_all (by decide) (by decide)⟩], by decide, by decide, by decide⟩
  let head : Segment := ⟨⟨"head".toList, isWord_of_all (by decide) (by decide)⟩,
    [.arg ⟨"-n".toList, isWord_of_all (by decide) (by decide)⟩, .arg ⟨['1'], isWord_of_all (by decide) (by decide)⟩,
      .redirect .output ⟨['b'], isWord_of_all (by decide) (by decide)⟩], by decide, by decide, by decide⟩
  refine ⟨⟨⟨[cat, head], List.cons_ne_nil _ _, ?_⟩, ?_⟩, ?_, ?_, rfl, ?_, ?_, ?_⟩
  · rintro s ⟨⟩
    decide
  · intro k s hs
    rcases k with _ | _ | k
    · cases hs
      refine ⟨fun _ => rfl, ?_, [], some ⟨['a'], isWord_of_all (by decide) (by decide)⟩, none, rfl, nofun⟩
      intro i hi hne
      cases i
      · exact absurd rfl hi
      · exact absurd rfl hne
      · exact absurd rfl hne
    · cases hs
      refine ⟨fun hne => absurd rfl hne, fun _ _ _ => rfl, [_, _], none, some (.output, _), rfl, ?_⟩
      rintro o ⟨⟩
      exact Redirection.noConfusion
    · cases hs
  · decide +kernel
  · refine ⟨?_, ?_⟩
    · rintro s ⟨⟩
      decide
    · intro s hs
      rcases List.mem_pair.mp hs with rfl | rfl
      · decide
      · decide
  · intro s hs path hpath
    rcases List.mem_pair.mp hs with rfl | rfl
    · cases hpath
      decide
    · cases hpath
      decide
  · decide +kernel
  · decide +kernel

/-- **What a command line means.** A line that is written in order and whose commands are known is parsed as it
is written; every run of it has a bounded length and can be continued to its end, and at the end the files and
the screen are what the line means, the children have exited, and the shell has the descriptors that it has
after the line. -/
theorem line_means [DecidableEq φ] (h : Host φ σ) (prompt : Prompt) (l : Line) (hruns : l.Runs) (w : World φ)
    (f : σ → List UInt8 → List UInt8) (b : σ → List UInt8 → Nat)
    (hpaths : ∀ s ∈ l.segments, h.PathFits (commandType s.name.val) s.name.val)
    (hcomputes : ∀ s ∈ l.segments, ∀ fs p,
      h.launch (commandType s.name.val) (s.args.map Subtype.val) fs = .program p → Computes h.act p (f p) (b p))
    (hfits : ∀ out ∈ h.between f w l.segments (l.input? h w), out.length ≤ h.capacity)
    (hapart : l.segments.length = 1 → ∀ name ∈ l.file .input, ∀ g kept,
      l.target h w = .file g kept → h.paths.fileOf name.val ≠ g) :
    h.task? prompt (l.render ++ [terminator]) = some (l.task h prompt) ∧
      ∀ es s, Run (l.task h prompt).Step ((l.task h prompt).init w) es s →
        es.length ≤ (l.task h prompt).spent w f b l.segments.length ∧
        (∃ es' s', Run (l.task h prompt).Step s es' s' ∧ s'.round = .done) ∧
        (s.round = .done → (s.files, s.screen) = l.meaning h f w ∧
          (∀ i < l.segments.length, s.child i = .gone) ∧
          ∃ execs, runLine (l.render ++ [terminator]) prompt.toShell = some (.run execs s.shell)) := by
  have hproper : (l.task h prompt).Proper w f b := proper_line hpaths hcomputes hfits hapart
  have hnum : (l.task h prompt).num = l.segments.length := Line.num_task
  refine ⟨task?_line h prompt hruns, ?_⟩
  intro es s hrun
  have hinv := Task.inv_of_run hproper hrun
  refine ⟨?_, Task.exists_done hproper hrun, ?_⟩
  · rw [← hnum]
    exact hinv.length_le hproper
  · intro hdone
    have hfinished := hinv.finished hdone
    have hdelivered := hfinished.delivered
    have hgone := hfinished.gone
    have hshell := hfinished.shell
    rw [hnum] at hdelivered hgone hshell
    refine ⟨?_, hgone, (pipeline l.segments.length (l.task h prompt).files prompt.toShell).1, ?_⟩
    · rw [hdelivered.files, hdelivered.screen]
      exact (outcome_eq rfl (List.length_pos_iff.mpr l.ne_nil) fed_zero).symm
    · rw [hshell]
      refine runLine_eq_run.mpr ⟨fun t ht => (l.placed.ordered t ht).fits, hruns, ?_⟩
      rw [l.files_eq]
      rfl

/-- `cat < a | head -n 1 > b`: every run ends with the first line of `a` in `b`. -/
theorem line_means_catHead : ∃ l : Line, l.render = "cat < a | head -n 1 > b".toList ∧
    ∀ es s, Run (l.task (tools ownNames 65536 ['d'] []) .first).Step
        ((l.task (tools ownNames 65536 ['d'] []) .first).init ⟨twoLines, [], []⟩) es s →
      ∃ es' s', Run (l.task (tools ownNames 65536 ['d'] []) .first).Step s es' s' ∧ s'.round = .done ∧
        s'.files ['b'] = some [120, 10] := by
  obtain ⟨l, hrender, hruns, htwo, hpaths, hbetween, hmeaning⟩ := exists_catHead
  have hfits : ∀ out ∈ (tools ownNames 65536 ['d'] []).between Tool.value ⟨twoLines, [], []⟩ l.segments
      (l.input? (tools ownNames 65536 ['d'] []) ⟨twoLines, [], []⟩), out.length ≤ 65536 := by
    rw [hbetween]
    decide
  have hone : l.segments.length ≠ 1 := by
    rw [htwo]
    decide
  obtain ⟨-, hruns⟩ := line_means (tools ownNames 65536 ['d'] []) .first l hruns ⟨twoLines, [], []⟩ Tool.value
    Tool.bound hpaths (fun _ _ _ p _ => computes_tool p) hfits fun h => absurd h hone
  refine ⟨l, hrender, fun es s hrun => ?_⟩
  obtain ⟨-, ⟨es', s', hrun', hdone⟩, -⟩ := hruns es s hrun
  obtain ⟨-, -, hend⟩ := hruns (es ++ es') s' (run_append_iff.mpr ⟨s, hrun, hrun'⟩)
  refine ⟨es', s', hrun', hdone, ?_⟩
  have hfiles := congrArg Prod.fst (hend hdone).1
  exact (congrFun hfiles ['b']).trans hmeaning

end SystemProgrammingLab.Pa2
