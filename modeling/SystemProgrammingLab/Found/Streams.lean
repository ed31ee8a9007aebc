import SystemProgrammingLab.Found.Progress

/-!
# Programs on streams

A program is seen from outside: it reads, writes one element, or ends (`Act`), and a read returns as many
elements as the system likes, at most what was asked for. `Computes p f bound` says that on each input the
program writes `f` of it, however the reads are cut, in a bounded number of steps. It may end before it has
read all.

Two such programs are joined by a buffer (`Joined`): the first one writes into it, if there is room, and is
killed if it writes when the second one has ended; the second one reads from it, and sees the end when it is
empty and the first one has ended. So joined, with room for one element, they never get stuck
(`Joined.exists_step`), they end (`Joined.length_le`), and what the second one has written then is what it
computes of what the first one computes (`Joined.output_eq`).
-/

namespace SystemProgrammingLab.Found

variable {σ β : Type*}

/-! ## One program -/

/-- What a program does next. A read returns at most `size` elements, and none at the end of the input. -/
inductive Act (σ β : Type*)
  | read (size : Nat) (hsize : 0 < size) (next : List β → σ)
  | write (b : β) (next : σ)
  | exit

/-- What a program has done. -/
inductive Io (β : Type*)
  | read (bs : List β)
  | eof
  | write (b : β)

/-- The element that was written. -/
def Io.written? : Io β → Option β
  | .write b => some b
  | .read _ | .eof => none

/-- The elements that were read. -/
def Io.taken : Io β → List β
  | .read bs => bs
  | .eof | .write _ => []

/-- The output of a run. -/
def written (es : List (Io β)) : List β := es.filterMap Io.written?

/-- The input of a run. -/
def taken (es : List (Io β)) : List β := es.flatMap Io.taken

/-- A program on an input, of which the rest is still to be read. -/
inductive OnInput (act : σ → Act σ β) : σ × List β → Io β → σ × List β → Prop
  | read {s : σ} {size : Nat} {hsize : 0 < size} {next : List β → σ} {bs rest : List β}
      (hs : act s = .read size hsize next) (hne : bs ≠ []) (hlen : bs.length ≤ size) :
      OnInput act (s, bs ++ rest) (.read bs) (next bs, rest)
  | eof {s : σ} {size : Nat} {hsize : 0 < size} {next : List β → σ} (hs : act s = .read size hsize next) :
      OnInput act (s, []) .eof (next [], [])
  | write {s next : σ} {b : β} {rest : List β} (hs : act s = .write b next) :
      OnInput act (s, rest) (.write b) (next, rest)

/-- The program writes `f` of its input, within `bound` steps. -/
structure Computes (act : σ → Act σ β) (p : σ) (f : List β → List β) (bound : List β → Nat) : Prop where
  result : ∀ xs es s rest, Run (OnInput act) (p, xs) es (s, rest) → act s = .exit → written es = f xs
  length : ∀ xs es t, Run (OnInput act) (p, xs) es t → es.length ≤ bound xs

section computes

variable {act : σ → Act σ β} {p : σ} {f : List β → List β} {bound : List β → Nat}

/-- What is written, behind what was. -/
@[simp] theorem written_append (es es' : List (Io β)) : written (es ++ es') = written es ++ written es' :=
  List.filterMap_append

/-- What is read, behind what was. -/
@[simp] theorem taken_append (es es' : List (Io β)) : taken (es ++ es') = taken es ++ taken es' :=
  List.flatMap_append

/-- A program that has not ended can go on. -/
theorem exists_onInput {s : σ} (hs : act s ≠ .exit) (rest : List β) : ∃ e t, OnInput act (s, rest) e t := by
  rcases hact : act s with ⟨size, hsize, next⟩ | ⟨b, next⟩ | _
  · rcases rest with _ | ⟨b, rest⟩
    · exact ⟨_, _, .eof hact⟩
    · have hread : OnInput act (s, [b] ++ rest) (.read [b]) (next [b], rest) :=
        .read hact (List.cons_ne_nil _ _) hsize
      exact ⟨_, _, hread⟩
  · exact ⟨_, _, .write hact⟩
  · exact absurd hact hs

/-- A program that reads writes nothing. -/
theorem OnInput.written?_eq_none {t t' : σ × List β} {e : Io β} (h : OnInput act t e t') {size : Nat}
    {hsize : 0 < size} {next : List β → σ} (hs : act t.1 = .read size hsize next) : e.written? = none := by
  cases h with
  | read | eof => rfl
  | write hw =>
      rw [hw] at hs
      cases hs

/-- A program that writes goes on behind the write. -/
theorem OnInput.of_write {s next : σ} {b : β} {rest : List β} {e : Io β} {t : σ × List β}
    (h : OnInput act (s, rest) e t) (hs : act s = .write b next) : e = .write b ∧ t = (next, rest) := by
  generalize hfrom : (s, rest) = from' at h
  cases h with
  | read hr | eof hr =>
      obtain ⟨rfl, -⟩ := Prod.mk.inj hfrom
      rw [hs] at hr
      cases hr
  | write hw =>
      obtain ⟨rfl, rfl⟩ := Prod.mk.inj hfrom
      rw [hs] at hw
      cases hw
      exact ⟨rfl, rfl⟩

/-- A program that has ended does nothing. -/
theorem eq_nil_of_exit {s : σ} {rest : List β} {es : List (Io β)} {t : σ × List β} (hs : act s = .exit)
    (h : Run (OnInput act) (s, rest) es t) : es = [] := by
  rcases es with _ | ⟨e, es⟩
  · rfl
  · obtain ⟨t', hstep, -⟩ := run_cons_iff.mp h
    generalize hfrom : (s, rest) = from' at hstep
    cases hstep with
    | read hr | eof hr | write hr =>
        obtain ⟨rfl, -⟩ := Prod.mk.inj hfrom
        rw [hs] at hr
        cases hr

/-- Where a program stops it has ended. -/
theorem exit_of_final {t : σ × List β} (h : Final (OnInput act) t) : act t.1 = .exit := by
  by_contra hs
  obtain ⟨e, t', hstep⟩ := exists_onInput hs t.2
  exact h e t' hstep

/-- Each run can be continued to the end. -/
theorem Computes.exists_end (h : Computes act p f bound) {xs : List β} {es : List (Io β)} {t : σ × List β}
    (hrun : Run (OnInput act) (p, xs) es t) :
    ∃ es' t', Run (OnInput act) t es' t' ∧ act t'.1 = .exit := by
  obtain ⟨es', t', hrun', hfinal⟩ := @exists_final_of_length_le _ _ (OnInput act) t (bound xs) fun es' t' hrun' =>
    Nat.le_trans (Nat.le_add_left _ _)
      (List.length_append ▸ h.length xs (es ++ es') t' (run_append_iff.mpr ⟨t, hrun, hrun'⟩))
  exact ⟨es', t', hrun', exit_of_final hfinal⟩

/-- What a program has written is the first part of what it computes. -/
theorem Computes.written_prefix (h : Computes act p f bound) {xs : List β} {es : List (Io β)} {t : σ × List β}
    (hrun : Run (OnInput act) (p, xs) es t) : written es <+: f xs := by
  obtain ⟨es', t', hrun', hexit⟩ := h.exists_end hrun
  have hresult := h.result xs (es ++ es') t'.1 t'.2 (run_append_iff.mpr ⟨t, hrun, hrun'⟩) hexit
  rw [written_append] at hresult
  exact ⟨written es', hresult⟩

/-- What is read is taken from the input. -/
theorem OnInput.taken_append {t t' : σ × List β} {e : Io β} (h : OnInput act t e t') : e.taken ++ t'.2 = t.2 := by
  cases h with
  | read => rfl
  | eof | write => rfl

/-- The input is what was read and the rest. -/
theorem taken_append_rest {xs : List β} {es : List (Io β)} {t : σ × List β}
    (hrun : Run (OnInput act) (p, xs) es t) : taken es ++ t.2 = xs := by
  refine hrun.history (fun es t => taken es ++ t.2 = xs) ?_ rfl
  rintro es t e t' ih hstep
  rw [taken_append, List.append_assoc, ← ih, ← hstep.taken_append]
  exact congrArg (fun bs => taken es ++ (bs ++ t'.2)) (List.append_nil e.taken)

/-- The first step of a program, and what follows. -/
theorem Computes.of_write {b : β} {next : σ} {g : List β → List β} {bound' : List β → Nat}
    (h : Computes act next g bound') (hs : act p = .write b next) :
    Computes act p (fun xs => b :: g xs) fun xs => bound' xs + 1 where
  result := by
    intro xs es s rest hrun hexit
    rcases es with _ | ⟨e, es⟩
    · obtain ⟨rfl, -⟩ := Prod.mk.inj (run_nil_iff.mp hrun)
      rw [hs] at hexit
      cases hexit
    · obtain ⟨t, hstep, hrun⟩ := run_cons_iff.mp hrun
      obtain ⟨rfl, rfl⟩ := hstep.of_write hs
      exact congrArg (b :: ·) (h.result xs es s rest hrun hexit)
  length := by
    intro xs es t hrun
    rcases es with _ | ⟨e, es⟩
    · exact Nat.zero_le _
    · obtain ⟨t', hstep, hrun⟩ := run_cons_iff.mp hrun
      obtain ⟨rfl, rfl⟩ := hstep.of_write hs
      exact Nat.succ_le_succ (h.length xs es t hrun)

/-- A program that ends at once. -/
theorem computes_exit (hs : act p = .exit) : Computes act p (fun _ => []) fun _ => 0 where
  result := by
    intro xs es s rest hrun _
    rw [eq_nil_of_exit hs hrun]
    rfl
  length := by
    intro xs es t hrun
    rw [eq_nil_of_exit hs hrun]
    exact Nat.le_refl 0

end computes

/-! ## Programs among others -/

section embed

variable {τ : Type*} {act : σ → Act σ β} {act' : τ → Act τ β} {g : σ → τ}

/-- What a program does next, when its states are named otherwise. -/
def Act.map (g : σ → τ) : Act σ β → Act τ β
  | .read size hsize next => .read size hsize fun bs => g (next bs)
  | .write b next => .write b (g next)
  | .exit => .exit

/-- The steps are the same. -/
theorem onInput_map (hg : ∀ s, act' (g s) = (act s).map g) {s : σ} {xs : List β} {e : Io β} {t : τ × List β}
    (h : OnInput act' (g s, xs) e t) : ∃ s', t.1 = g s' ∧ OnInput act (s, xs) e (s', t.2) := by
  generalize hfrom : (g s, xs) = from' at h
  cases h with
  | read hs hne hlen =>
      obtain ⟨rfl, rfl⟩ := Prod.mk.inj hfrom
      rw [hg] at hs
      rcases hact : act s with ⟨size, hsize, next⟩ | ⟨b, next⟩ | _
      · rw [hact] at hs
        cases hs
        exact ⟨_, rfl, .read hact hne hlen⟩
      · rw [hact] at hs
        cases hs
      · rw [hact] at hs
        cases hs
  | eof hs =>
      obtain ⟨rfl, rfl⟩ := Prod.mk.inj hfrom
      rw [hg] at hs
      rcases hact : act s with ⟨size, hsize, next⟩ | ⟨b, next⟩ | _
      · rw [hact] at hs
        cases hs
        exact ⟨_, rfl, .eof hact⟩
      · rw [hact] at hs
        cases hs
      · rw [hact] at hs
        cases hs
  | write hs =>
      obtain ⟨rfl, rfl⟩ := Prod.mk.inj hfrom
      rw [hg] at hs
      rcases hact : act s with ⟨size, hsize, next⟩ | ⟨b, next⟩ | _
      · rw [hact] at hs
        cases hs
      · rw [hact] at hs
        cases hs
        exact ⟨_, rfl, .write hact⟩
      · rw [hact] at hs
        cases hs

/-- A program inside of another one runs as it does alone. -/
theorem run_map (hg : ∀ s, act' (g s) = (act s).map g) {p : σ} {xs : List β} {es : List (Io β)} {t : τ × List β}
    (h : Run (OnInput act') (g p, xs) es t) : ∃ s, t.1 = g s ∧ Run (OnInput act) (p, xs) es (s, t.2) := by
  refine h.history (fun es t => ∃ s, t.1 = g s ∧ Run (OnInput act) (p, xs) es (s, t.2)) ?_ ⟨p, rfl, .nil⟩
  rintro es ⟨_, rest⟩ e t' ⟨s, rfl, hrun⟩ hstep
  obtain ⟨s', hs', hstep'⟩ := onInput_map hg hstep
  exact ⟨s', hs', hrun.snoc hstep'⟩

/-- **A program computes the same among others.** -/
theorem Computes.map {p : σ} {f : List β → List β} {bound : List β → Nat} (h : Computes act p f bound)
    (hg : ∀ s, act' (g s) = (act s).map g) : Computes act' (g p) f bound where
  result := by
    intro xs es s rest hrun hexit
    obtain ⟨s', rfl, hrun'⟩ := run_map hg hrun
    apply h.result xs es s' rest hrun'
    rw [hg] at hexit
    rcases hact : act s' with ⟨size, hsize, next⟩ | ⟨b, next⟩ | _
    · rw [hact] at hexit
      cases hexit
    · rw [hact] at hexit
      cases hexit
    · rfl
  length := by
    intro xs es t hrun
    obtain ⟨s', -, hrun'⟩ := run_map hg hrun
    exact h.length xs es _ hrun'

end embed

/-! ## Copying -/

/-- A program that writes what it has read, and reads again until it sees the end. The state is what it has
still to write, and whether it is to read then. -/
def copyAct (size : Nat) (hsize : 0 < size) : List β × Bool → Act (List β × Bool) β
  | (b :: bs, more) => .write b (bs, more)
  | ([], true) => .read size hsize fun bs => (bs, !bs.isEmpty)
  | ([], false) => .exit

section copy

variable {size : Nat} {hsize : 0 < size}

/-- What is written, pending and left is the same after each step. -/
theorem copy_step {t t' : (List β × Bool) × List β} {e : Io β} (h : OnInput (copyAct size hsize) t e t') :
    (written [e] ++ t'.1.1) ++ (if t'.1.2 then t'.2 else []) = t.1.1 ++ (if t.1.2 then t.2 else []) ∧
      t'.1.1.length + (if t'.1.2 then 2 * t'.2.length + 1 else 0) + 1 ≤
        t.1.1.length + (if t.1.2 then 2 * t.2.length + 1 else 0) := by
  cases h with
  | @read s size' hsize' next bs rest hs hne hlen =>
      obtain ⟨_ | ⟨b, pending⟩, _ | _⟩ := s <;> cases hs
      rcases bs with _ | ⟨b, bs⟩
      · exact absurd rfl hne
      · refine ⟨rfl, ?_⟩
        simp only [List.isEmpty_cons, Bool.not_false, if_true, List.length_cons, List.length_append,
          List.length_nil]
        omega
  | @eof s size' hsize' next hs =>
      obtain ⟨_ | ⟨b, pending⟩, _ | _⟩ := s <;> cases hs
      exact ⟨rfl, Nat.le_refl _⟩
  | @write s next b rest hs =>
      obtain ⟨_ | ⟨b, pending⟩, more⟩ := s
      · cases more <;> cases hs
      · cases hs
        refine ⟨rfl, ?_⟩
        simp only [List.length_cons]
        omega

/-- **Copying computes the identity**, behind what is pending. -/
theorem computes_copy (pending : List β) (more : Bool) :
    Computes (copyAct size hsize) (pending, more) (fun xs => pending ++ if more then xs else [])
      fun xs => pending.length + if more then 2 * xs.length + 1 else 0 where
  result := by
    intro xs es s rest hrun hexit
    have hsame : written es ++ s.1 ++ (if s.2 then rest else []) = pending ++ if more then xs else [] := by
      refine hrun.history (fun es t => written es ++ t.1.1 ++ (if t.1.2 then t.2 else []) =
        pending ++ if more then xs else []) ?_ rfl
      intro es t e t' ih hstep
      rw [← ih, written_append, List.append_assoc, List.append_assoc, ← List.append_assoc (written [e]),
        (copy_step hstep).1, List.append_assoc]
    obtain ⟨_ | ⟨b, bs⟩, _ | _⟩ := s <;> cases hexit
    rw [← hsame]
    exact (List.append_nil _).trans (List.append_nil _) |>.symm
  length := by
    intro xs es t hrun
    exact hrun.length_le (fun _ => True)
      (fun t => t.1.1.length + if t.1.2 then 2 * t.2.length + 1 else 0)
      (fun t e t' _ hstep => ⟨trivial, (copy_step hstep).2⟩) trivial

end copy

/-! ## Two programs -/

/-- The first program with the rest of its input, the buffer, the second program, and the output; which
program has ended. -/
structure Joined (σ β : Type*) where
  left : σ × List β
  leftGone : Bool
  buffer : List β
  right : σ
  rightGone : Bool
  output : List β

/-- What a program did, or how it ended. -/
inductive Joined.Event (β : Type*)
  | left (io : Io β)
  | leftExit
  | killed
  | right (io : Io β)
  | rightExit

/-- Both programs before their first step. -/
def Joined.init (p q : σ) (xs out : List β) : Joined σ β := ⟨(p, xs), false, [], q, false, out⟩

/-- One step of one program. -/
inductive Joined.Step (act : σ → Act σ β) (capacity : Nat) :
    Joined σ β → Joined.Event β → Joined σ β → Prop
  | leftRead {s : Joined σ β} {io : Io β} {t : σ × List β} (hgone : s.leftGone = false)
      (h : OnInput act s.left io t) (hio : io.written? = none) :
      Step act capacity s (.left io) { s with left := t }
  | leftWrite {s : Joined σ β} {b : β} {next : σ} (hgone : s.leftGone = false)
      (h : act s.left.1 = .write b next) (hroom : s.buffer.length < capacity) :
      Step act capacity s (.left (.write b))
        { s with left := (next, s.left.2), buffer := s.buffer ++ [b] }
  | leftExit {s : Joined σ β} (hgone : s.leftGone = false) (h : act s.left.1 = .exit) :
      Step act capacity s .leftExit { s with leftGone := true }
  | killed {s : Joined σ β} {b : β} {next : σ} (hgone : s.leftGone = false)
      (h : act s.left.1 = .write b next) (hright : s.rightGone = true) :
      Step act capacity s .killed { s with leftGone := true }
  | rightRead {s : Joined σ β} {size : Nat} {hsize : 0 < size} {next : List β → σ} {bs rest : List β}
      (hgone : s.rightGone = false) (h : act s.right = .read size hsize next) (hne : bs ≠ [])
      (hlen : bs.length ≤ size) (hbuffer : s.buffer = bs ++ rest) :
      Step act capacity s (.right (.read bs)) { s with right := next bs, buffer := rest }
  | rightEof {s : Joined σ β} {size : Nat} {hsize : 0 < size} {next : List β → σ}
      (hgone : s.rightGone = false) (h : act s.right = .read size hsize next) (hempty : s.buffer = [])
      (hleft : s.leftGone = true) : Step act capacity s (.right .eof) { s with right := next [] }
  | rightWrite {s : Joined σ β} {b : β} {next : σ} (hgone : s.rightGone = false)
      (h : act s.right = .write b next) :
      Step act capacity s (.right (.write b)) { s with right := next, output := s.output ++ [b] }
  | rightExit {s : Joined σ β} (hgone : s.rightGone = false) (h : act s.right = .exit) :
      Step act capacity s .rightExit { s with rightGone := true }

namespace Joined

variable {act : σ → Act σ β} {capacity : Nat} {s s' : Joined σ β}

/-- **They never get stuck.** -/
theorem exists_step (hcapacity : 0 < capacity) (h : ¬ (s.leftGone = true ∧ s.rightGone = true)) :
    ∃ e s', Step act capacity s e s' := by
  -- the first program can go on, unless the buffer is full and the second one has not ended
  have hleft : s.leftGone = false → (s.buffer.length < capacity ∨ s.rightGone = true) →
      ∃ e s', Step act capacity s e s' := by
    intro hgone hroom
    rcases hact : act s.left.1 with ⟨size, hsize, next⟩ | ⟨b, next⟩ | _
    · have hnot : act s.left.1 ≠ .exit := by
        rw [hact]
        nofun
      obtain ⟨e, t, hstep⟩ := exists_onInput hnot s.left.2
      exact ⟨_, _, .leftRead hgone hstep (hstep.written?_eq_none hact)⟩
    · rcases hroom with hroom | hright
      · exact ⟨_, _, .leftWrite hgone hact hroom⟩
      · exact ⟨_, _, .killed hgone hact hright⟩
    · exact ⟨_, _, .leftExit hgone hact⟩
  by_cases hright : s.rightGone = true
  · have hgone : s.leftGone = false := by simpa [hright] using h
    exact hleft hgone (.inr hright)
  · have hright : s.rightGone = false := by simpa using hright
    rcases hact : act s.right with ⟨size, hsize, next⟩ | ⟨b, next⟩ | _
    · rcases hbuffer : s.buffer with _ | ⟨b, rest⟩
      · by_cases hgone : s.leftGone = true
        · exact ⟨_, _, .rightEof hright hact hbuffer hgone⟩
        · exact hleft (by simpa using hgone) (.inl (by rw [hbuffer]; exact hcapacity))
      · have hread : Step act capacity s (.right (.read [b])) { s with right := next [b], buffer := rest } :=
          .rightRead hright hact (List.cons_ne_nil _ _) hsize hbuffer
        exact ⟨_, _, hread⟩
    · exact ⟨_, _, .rightWrite hright hact⟩
    · exact ⟨_, _, .rightExit hright hact⟩

/-! ### What the programs have done -/

/-- What the first program did. -/
def Event.left? : Event β → Option (Io β)
  | .left io => some io
  | _ => none

/-- What the second program did. -/
def Event.right? : Event β → Option (Io β)
  | .right io => some io
  | _ => none

/-- The history of the first program. -/
def lefts (es : List (Event β)) : List (Io β) := es.filterMap Event.left?

/-- The history of the second program. -/
def rights (es : List (Event β)) : List (Io β) := es.filterMap Event.right?

/-- The steps of the left program, one event later. -/
@[simp] theorem lefts_snoc (es : List (Event β)) (e : Event β) :
    lefts (es ++ [e]) = lefts es ++ e.left?.toList := by
  rw [lefts, List.filterMap_append]
  cases e <;> rfl

/-- The steps of the right program, one event later. -/
@[simp] theorem rights_snoc (es : List (Event β)) (e : Event β) :
    rights (es ++ [e]) = rights es ++ e.right?.toList := by
  rw [rights, List.filterMap_append]
  cases e <;> rfl

/-- The two programs by themselves. The second one has read a first part of what the first one wrote; as
long as it has not seen the end, more may follow. -/
structure Inv (act : σ → Act σ β) (p q : σ) (xs out : List β) (es : List (Event β)) (s : Joined σ β) :
    Prop where
  left : Run (OnInput act) (p, xs) (lefts es) s.left
  passed : written (lefts es) = taken (rights es) ++ s.buffer
  right : ∀ zs, (Io.eof ∈ rights es → zs = []) →
    Run (OnInput act) (q, taken (rights es) ++ zs) (rights es) (s.right, zs)
  eof : Io.eof ∈ rights es → s.leftGone = true ∧ s.buffer = [] ∧ act s.left.1 = .exit
  output : s.output = out ++ written (rights es)
  leftGone : s.leftGone = true → act s.left.1 = .exit ∨ s.rightGone = true
  rightGone : s.rightGone = true → act s.right = .exit
  length : es.length = (lefts es).length + (rights es).length + s.leftGone.toNat + s.rightGone.toNat

section inv

variable {p q : σ} {xs out : List β} {es : List (Event β)} {e : Event β}

/-- The invariant holds at the start. -/
theorem inv_init : Inv act p q xs out [] (Joined.init p q xs out) where
  left := .nil
  passed := rfl
  right := fun _ _ => .nil
  eof := nofun
  output := (List.append_nil out).symm
  leftGone := nofun
  rightGone := nofun
  length := rfl

/-- As long as the first program runs the second one has not seen the end. -/
theorem Inv.not_eof (h : Inv act p q xs out es s) (hgone : s.leftGone = false) : Io.eof ∉ rights es := by
  intro heof
  rw [(h.eof heof).1] at hgone
  cases hgone

/-- The first program does something, with this buffer afterwards. -/
theorem Inv.left_io (h : Inv act p q xs out es s) (hgone : s.leftGone = false) {io : Io β} {t : σ × List β}
    (hio : OnInput act s.left io t) {buffer : List β} (hbuffer : s.buffer ++ io.written?.toList = buffer) :
    Inv act p q xs out (es ++ [.left io]) { s with left := t, buffer := buffer } := by
  have hlefts : lefts (es ++ [.left io]) = lefts es ++ [io] := lefts_snoc es _
  have hrights : rights (es ++ [.left io]) = rights es := by
    rw [rights_snoc]
    exact List.append_nil _
  have hlast : written [io] = io.written?.toList := by
    cases io <;> rfl
  constructor
  · rw [hlefts]
    exact h.left.snoc hio
  · rw [hlefts, hrights, written_append, hlast, h.passed, List.append_assoc, hbuffer]
  · rw [hrights]
    exact h.right
  · rw [hrights]
    exact fun heof => absurd heof (h.not_eof hgone)
  · rw [hrights]
    exact h.output
  · exact fun hleft => absurd (hgone.symm.trans hleft) (by decide)
  · exact h.rightGone
  · have hlength := h.length
    rw [hlefts, hrights, List.length_append, List.length_append, List.length_singleton, List.length_singleton,
      hlength]
    dsimp only
    omega

/-- The second program does something, with this buffer and this output afterwards. -/
theorem Inv.right_io (h : Inv act p q xs out es s) (hgone : s.rightGone = false) {io : Io β} {t : σ}
    {buffer output : List β} (hbuffer : s.buffer = io.taken ++ buffer)
    (houtput : s.output ++ io.written?.toList = output)
    (heof : Io.eof ∈ rights es ++ [io] → s.leftGone = true ∧ buffer = [] ∧ act s.left.1 = .exit)
    (hio : ∀ zs, (Io.eof ∈ rights es ++ [io] → zs = []) → OnInput act (s.right, io.taken ++ zs) io (t, zs))
    (hbefore : Io.eof ∈ rights es → io.taken = []) :
    Inv act p q xs out (es ++ [.right io]) { s with right := t, buffer := buffer, output := output } := by
  have hlefts : lefts (es ++ [.right io]) = lefts es := by
    rw [lefts_snoc]
    exact List.append_nil _
  have hrights : rights (es ++ [.right io]) = rights es ++ [io] := rights_snoc es _
  have htaken : taken [io] = io.taken := List.append_nil _
  have hwritten : written [io] = io.written?.toList := by
    cases io <;> rfl
  constructor
  · rw [hlefts]
    exact h.left
  · rw [hlefts, hrights, taken_append, htaken, h.passed, hbuffer, List.append_assoc]
  · rw [hrights]
    intro zs hzs
    rw [taken_append, htaken, List.append_assoc]
    refine (h.right (io.taken ++ zs) fun hmem => ?_).snoc (hio zs hzs)
    rw [hbefore hmem, hzs (List.mem_append_left _ hmem)]
    rfl
  · rw [hrights]
    exact heof
  · rw [hrights, written_append, hwritten, ← List.append_assoc, ← h.output]
    exact houtput.symm
  · exact h.leftGone
  · exact fun hright => absurd (hgone.symm.trans hright) (by decide)
  · have hlength := h.length
    rw [hlefts, hrights, List.length_append, List.length_append, List.length_singleton, List.length_singleton,
      hlength]
    dsimp only
    omega

/-- A program ends; `leftGone` and `rightGone` say which ones have ended then. -/
theorem Inv.gone (h : Inv act p q xs out es s) {e : Event β} (hleft : e.left? = none) (hright : e.right? = none)
    {leftGone rightGone : Bool}
    (hcount : leftGone.toNat + rightGone.toNat = s.leftGone.toNat + s.rightGone.toNat + 1)
    (hkeep : s.leftGone = true → leftGone = true)
    (hleftGone : leftGone = true → act s.left.1 = .exit ∨ rightGone = true)
    (hrightGone : rightGone = true → act s.right = .exit) :
    Inv act p q xs out (es ++ [e]) { s with leftGone := leftGone, rightGone := rightGone } := by
  have hlefts : lefts (es ++ [e]) = lefts es := by
    rw [lefts_snoc, hleft]
    exact List.append_nil _
  have hrights : rights (es ++ [e]) = rights es := by
    rw [rights_snoc, hright]
    exact List.append_nil _
  constructor
  · rw [hlefts]
    exact h.left
  · rw [hlefts, hrights]
    exact h.passed
  · rw [hrights]
    exact h.right
  · rw [hrights]
    exact fun heof => ⟨hkeep (h.eof heof).1, (h.eof heof).2⟩
  · rw [hrights]
    exact h.output
  · exact hleftGone
  · exact hrightGone
  · have hlength := h.length
    rw [hlefts, hrights, List.length_append, List.length_singleton]
    show _ = _ + _ + leftGone.toNat + rightGone.toNat
    omega

/-- Every step keeps the invariant. -/
theorem Inv.step (h : Inv act p q xs out es s) (hstep : Step act capacity s e s') :
    Inv act p q xs out (es ++ [e]) s' := by
  have hold : ∀ io : Io β, io ≠ .eof → Io.eof ∈ rights es ++ [io] → Io.eof ∈ rights es := by
    intro io hne hmem
    rcases List.mem_append.mp hmem with hmem | hmem
    · exact hmem
    · exact absurd (List.mem_singleton.mp hmem).symm hne
  cases hstep with
  | leftRead hgone hio hnone =>
      refine h.left_io hgone hio ?_
      rw [hnone]
      exact List.append_nil _
  | leftWrite hgone hact hroom => exact h.left_io hgone (.write hact) rfl
  | leftExit hgone hact =>
      refine h.gone rfl rfl ?_ (fun _ => rfl) (fun _ => .inl hact) h.rightGone
      rw [hgone, Bool.toNat_false, Bool.toNat_true]
      omega
  | killed hgone hact hright =>
      refine h.gone rfl rfl ?_ (fun _ => rfl) (fun _ => .inr hright) h.rightGone
      rw [hgone, Bool.toNat_false, Bool.toNat_true]
      omega
  | @rightRead size hsize next bs rest hgone hact hne hlen hbuffer =>
      -- the end is seen on an empty buffer only
      have hnot : Io.eof ∉ rights es := by
        intro heof
        have hnil := (h.eof heof).2.1
        rw [hbuffer] at hnil
        exact hne (List.append_eq_nil_iff.mp hnil).1
      have hnot' : Io.eof ∉ rights es ++ [.read bs] := fun hmem => hnot (hold (.read bs) nofun hmem)
      exact h.right_io hgone hbuffer (List.append_nil _) (fun hmem => absurd hmem hnot')
        (fun zs _ => .read hact hne hlen) fun hmem => absurd hmem hnot
  | @rightEof size hsize next hgone hact hempty hleft =>
      have hexit : act s.left.1 = .exit := by
        rcases h.leftGone hleft with hexit | hright
        · exact hexit
        · exact absurd (hgone.symm.trans hright) (by decide)
      refine h.right_io hgone rfl (List.append_nil _) (fun _ => ⟨hleft, hempty, hexit⟩) ?_ fun _ => rfl
      intro zs hzs
      obtain rfl := hzs (List.mem_append_right _ (List.mem_singleton.mpr rfl))
      exact .eof hact
  | @rightWrite b next hgone hact =>
      exact h.right_io hgone rfl rfl (fun hmem => h.eof (hold (.write b) nofun hmem))
        (fun zs _ => .write hact) fun _ => rfl
  | rightExit hgone hact =>
      refine h.gone rfl rfl ?_ id (fun _ => .inr rfl) fun _ => hact
      rw [hgone, Bool.toNat_false, Bool.toNat_true]

/-- The invariant holds in every run. -/
theorem inv_of_run (h : Run (Step act capacity) (Joined.init p q xs out) es s) : Inv act p q xs out es s :=
  h.history (Inv act p q xs out) (fun _ _ _ _ hinv hstep => hinv.step hstep) inv_init

end inv

/-! ### What they compute -/

section joined

variable {p q : σ} {f g : List β → List β} {bp bq : List β → Nat} {xs out : List β} {es : List (Event β)}

/-- What the second program has read is the first part of what the first one computes; it is all of it when
the second one has seen the end. -/
theorem Inv.exists_input (h : Inv act p q xs out es s) (hp : Computes act p f bp) :
    ∃ zs, f xs = taken (rights es) ++ zs ∧ (Io.eof ∈ rights es → zs = []) := by
  by_cases heof : Io.eof ∈ rights es
  · obtain ⟨-, hempty, hexit⟩ := h.eof heof
    refine ⟨[], ?_, fun _ => rfl⟩
    rw [← hp.result xs _ s.left.1 s.left.2 h.left hexit, h.passed, hempty]
  · obtain ⟨zs, hzs⟩ := hp.written_prefix h.left
    refine ⟨s.buffer ++ zs, ?_, fun hmem => absurd hmem heof⟩
    rw [← hzs, h.passed, List.append_assoc]

/-- **The output is what the second program computes of what the first one computes.** -/
theorem output_eq (h : Run (Step act capacity) (Joined.init p q xs out) es s) (hp : Computes act p f bp)
    (hq : Computes act q g bq) (hgone : s.rightGone = true) : s.output = out ++ g (f xs) := by
  have hinv := inv_of_run h
  obtain ⟨zs, hzs, heof⟩ := hinv.exists_input hp
  rw [hinv.output, hzs, hq.result _ _ _ _ (hinv.right zs heof) (hinv.rightGone hgone)]

/-- **They end.** -/
theorem length_le (h : Run (Step act capacity) (Joined.init p q xs out) es s) (hp : Computes act p f bp)
    (hq : Computes act q g bq) : es.length ≤ bp xs + bq (f xs) + 2 := by
  have hinv := inv_of_run h
  obtain ⟨zs, hzs, heof⟩ := hinv.exists_input hp
  have hleft := hp.length xs _ _ hinv.left
  have hright := hq.length _ _ _ (hinv.right zs heof)
  rw [← hzs] at hright
  have hlength := hinv.length
  have hleftGone := Bool.toNat_le s.leftGone
  have hrightGone := Bool.toNat_le s.rightGone
  omega

end joined

end Joined

end SystemProgrammingLab.Found
