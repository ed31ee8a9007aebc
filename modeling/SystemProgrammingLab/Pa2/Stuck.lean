import SystemProgrammingLab.Pa2.Flow

/-!
# When a pipeline gets stuck

The reader of a pipe is started when its writer has exited, so an output that does not fit into a pipe
is never read. A pipeline is never stuck exactly when every output but the last one fits
(`neverStuck_iff`): a child with a longer output is reached, and it fills its pipe and waits for ever.

Source: `pa2/main.c`
-/

namespace SystemProgrammingLab.Pa2.Job

open SystemProgrammingLab.Found

variable {x : Job} {s s' : Flow} {i : Nat}

variable (x) in
/-- A state of some run. -/
def Reachable (s : Flow) : Prop := ∃ es, Run x.Step x.init es s

/-- A step leads to a reachable state. -/
theorem Reachable.step (h : x.Reachable s) {e : Event} (hstep : x.Step s e s') : x.Reachable s' := by
  obtain ⟨es, hrun⟩ := h
  exact ⟨es ++ [e], hrun.snoc hstep⟩

/-- The invariant of a round holds there. -/
theorem Reachable.steady (h : x.Reachable s) : x.Steady s := by
  obtain ⟨es, hrun⟩ := h
  exact hrun.invariant x.Steady (fun _ _ _ hs hstep => hs.step hstep) steady_init

/-- A child whose output fits into its pipe is never in front of a full one. -/
theorem Steady.not_stuck (h : x.Steady s) (hfits : ∀ i, i + 1 < x.num → x.output i ≤ x.capacity) :
    ¬ x.Stuck s := by
  rintro ⟨i, id, hstage, -, hleft, hout, hfull, -⟩
  have hwaiting := h.waiting hstage
  rw [hwaiting.pipeOut] at hout
  split_ifs at hout with hlt
  cases hout
  have hown := hwaiting.own hlt
  have hfit := hfits i hlt
  omega

/-- A child that is stuck can still read, but never write: nobody takes a byte from its pipe. -/
theorem Stuck.step (h : x.Stuck s) (hsteady : x.Steady s) {e : Event} (hstep : x.Step s e s') :
    x.Stuck s' := by
  obtain ⟨i, id, hstage, halive, hleft, hout, hfull, hreader⟩ := h
  have hwaiting := hsteady.waiting hstage
  have hnext := hsteady.step hstep
  cases hstep with
  | fork hfork => exact nomatch hstage.symm.trans hfork
  | write hj hc _ hnone =>
      obtain rfl := hwaiting.eq_of_alive hj
      subst hc
      exact nomatch hout.symm.trans hnone
  | writePipe hj hc _ hid hroom =>
      obtain rfl := hwaiting.eq_of_alive hj
      subst hc
      obtain rfl := Option.some.inj (hout.symm.trans hid)
      omega
  | readPipe hj hc hin hbytes =>
      obtain rfl := hwaiting.eq_of_alive hj
      subst hc
      refine ⟨_, id, hstage, halive, hleft, hout, ?_, hreader⟩
      refine hfull.trans (Function.update_of_ne ?_ _ _).ge
      rintro rfl
      exact hreader _ hj hin
  | eof hj hc _ =>
      obtain rfl := hwaiting.eq_of_alive hj
      subst hc
      refine ⟨_, id, hstage, ⟨halive.1, ?_⟩, ?_, ?_, hfull, ?_⟩
      · simpa using halive.2
      · simpa using hleft
      · simpa using hout
      · intro k hk
        obtain rfl := (hnext.waiting hstage).eq_of_alive hk
        simpa using hreader _ hj
  | exit hj hc hzero _ =>
      obtain rfl := hwaiting.eq_of_alive hj
      subst hc
      omega
  | wait hwait hexit =>
      obtain rfl := Stage.wait.inj (hstage.symm.trans hwait)
      exact nomatch halive.2.symm.trans hexit

/-- Once stuck, always stuck. -/
theorem Stuck.run (h : x.Stuck s) (hs : x.Reachable s) {es : List Event}
    (hrun : Run x.Step s es s') : x.Stuck s' := by
  have hboth : x.Steady s' ∧ x.Stuck s' :=
    hrun.invariant (fun s => x.Steady s ∧ x.Stuck s)
      (fun _ _ _ h hstep => ⟨h.1.step hstep, h.2.step h.1 hstep⟩) ⟨hs.steady, h⟩
  exact hboth.2

/-! ## A run to a child -/

variable (x) in
/-- The shell waits for child `i`, which is alive. -/
structure Current (i : Nat) (s : Flow) : Prop where
  reachable : x.Reachable s
  stage : s.stage = .wait i
  alive : s.Alive i

/-- The shell waits for the current child. -/
theorem Current.waiting (h : x.Current i s) : x.Waiting i s := h.reachable.steady.waiting h.stage

/-- A step that neither ends nor starts a child. -/
theorem Current.next (h : x.Current i s) {e : Event} (hstep : x.Step s e s')
    (hstage : s'.stage = s.stage) (hstarted : s'.started = s.started)
    (hexited : (s'.child i).exited = (s.child i).exited) : x.Current i s' :=
  ⟨h.reachable.step hstep, hstage.trans h.stage, hstarted ▸ h.alive.1, hexited.trans h.alive.2⟩

/-- The current child writes `m` bytes to its pipe, when there is room for them. -/
theorem Current.writes {m : Nat} (hlt : i + 1 < x.num) : ∀ {s : Flow}, x.Current i s →
    m ≤ (s.child i).left → s.bytes (x.prompt.pipes + i) + m ≤ x.capacity →
      ∃ s', x.Current i s' ∧ (s'.child i).left = (s.child i).left - m := by
  induction m with
  | zero => exact fun h _ _ => ⟨_, h, rfl⟩
  | succ m ih =>
      intro s h hleft hroom
      have hout : x.pipeOut (s.child i).table = some (x.prompt.pipes + i) := by
        rw [h.waiting.pipeOut, if_pos hlt]
      have hstep := Step.writePipe h.alive rfl (by omega) hout (by omega)
      have hnext := h.next hstep rfl rfl (by simp)
      obtain ⟨s', hs', hleft'⟩ := ih hnext (by simp; omega) (by simp; omega)
      refine ⟨s', hs', ?_⟩
      rw [hleft', Flow.child_setBytes, Flow.child_setChild, Nat.sub_sub, Nat.add_comm 1 m]

/-- The current child reads its pipe until it is empty. -/
theorem Current.reads {n id : Nat} : ∀ {s : Flow}, x.Current i s →
    x.pipeIn (s.child i).table = some id → s.bytes id = n →
      ∃ s', x.Current i s' ∧ s'.child = s.child ∧ s'.bytes id = 0 := by
  induction n with
  | zero => exact fun h _ hbytes => ⟨_, h, rfl, hbytes⟩
  | succ n ih =>
      intro s h hin hbytes
      have hstep := Step.readPipe h.alive rfl hin (by omega)
      have hnext := h.next hstep rfl rfl rfl
      obtain ⟨s', hs', hchild, hempty⟩ := ih hnext hin (by simp [hbytes])
      exact ⟨s', hs', hchild, hempty⟩

/-- Nobody can write to the pipe of the child before. -/
theorem Waiting.noWriter (h : x.Waiting i s) {id : Nat} (hin : x.pipeIn (s.child i).table = some id) :
    s.NoWriter id := by
  rw [h.pipeIn] at hin
  split_ifs at hin with hzero
  cases hin
  have hwired := h.wired.noWriter hzero
  refine ⟨hwired _ List.mem_cons_self, ?_⟩
  intro j hj
  obtain rfl := h.eq_of_alive hj
  exact hwired _ (List.mem_cons_of_mem _ List.mem_cons_self)

/-- A child that has written its output sees the end of its input and exits, and the next one is
started. -/
theorem Current.exits (hlt : i + 1 < x.num) (h : x.Current i s) (hleft : (s.child i).left = 0) :
    ∃ s', x.Reachable s' ∧ s'.stage = .fork (i + 1) := by
  obtain ⟨s, h, hleft, hempty⟩ : ∃ s, x.Current i s ∧ (s.child i).left = 0 ∧
      ∀ id ∈ x.pipeIn (s.child i).table, s.bytes id = 0 := by
    rcases hin : x.pipeIn (s.child i).table with _ | id
    · exact ⟨s, h, hleft, by rw [hin]; exact fun _ hid => nomatch hid⟩
    · obtain ⟨s', hs', hchild, hempty⟩ := h.reads hin rfl
      refine ⟨s', hs', by rw [hchild, hleft], ?_⟩
      rw [hchild, hin]
      rintro _ ⟨⟩
      exact hempty
  have heof := Step.eof h.alive rfl fun id hid => ⟨hempty id hid, h.waiting.noWriter hid⟩
  have hnext := h.next heof rfl rfl (by simp)
  have hexit := hnext.reachable.step (Step.exit hnext.alive rfl (by simpa using hleft) (by simp))
  have hwait := hexit.step (Step.wait hnext.stage (by simp))
  exact ⟨_, hwait, if_pos hlt⟩

/-- Child `i` is started with its whole output and an empty pipe. -/
theorem Reachable.fork (h : x.Reachable s) (hstage : s.stage = .fork i) :
    ∃ s', x.Current i s' ∧ (s'.child i).left = x.output i ∧
      s'.bytes (x.prompt.pipes + i) = 0 := by
  have hfork := h.steady.atFork hstage
  have hreachable := h.step (Step.fork hstage)
  have hchild : (Function.update s.child i (x.start i (prepare i s.shell)) i) =
      x.start i (prepare i s.shell) := Function.update_self ..
  refine ⟨_, ⟨hreachable, rfl, Nat.lt_succ_self i, ?_⟩, ?_, hfork.empty i le_rfl⟩
  · exact congrArg Child.exited hchild
  · exact congrArg Child.left hchild

/-- Child `i` is started when the outputs of the children before fit into their pipes. -/
theorem exists_fork : ∀ {i : Nat}, i < x.num → (∀ j < i, x.output j ≤ x.capacity) →
    ∃ s, x.Reachable s ∧ s.stage = .fork i := by
  intro i
  induction i with
  | zero => exact fun hnum _ => ⟨x.init, ⟨[], .nil⟩, if_pos hnum⟩
  | succ i ih =>
      intro hlt hfits
      obtain ⟨s, hs, hstage⟩ := ih (by omega) fun j hj => hfits j (by omega)
      obtain ⟨s, hs, hleft, hbytes⟩ := hs.fork hstage
      have hfit := hfits i (Nat.lt_succ_self i)
      obtain ⟨s, hs, hnone⟩ := hs.writes hlt hleft.ge (by omega)
      exact hs.exits hlt (by omega)

/-- A child with a longer output fills its pipe, and nobody reads it. -/
theorem Current.stuck (hlt : i + 1 < x.num) (hlong : x.capacity < x.output i) (h : x.Current i s)
    (hleft : (s.child i).left = x.output i) (hbytes : s.bytes (x.prompt.pipes + i) = 0) :
    ∃ s', x.Reachable s' ∧ x.Stuck s' := by
  obtain ⟨s, h, hrest⟩ := h.writes (m := x.capacity) hlt (by omega) (by omega)
  have hwaiting := h.waiting
  have hown := hwaiting.own hlt
  have hout : x.pipeOut (s.child i).table = some (x.prompt.pipes + i) := by
    rw [hwaiting.pipeOut, if_pos hlt]
  refine ⟨s, h.reachable, i, _, h.stage, h.alive, by omega, hout, by omega, ?_⟩
  intro j hj hin
  obtain rfl := hwaiting.eq_of_alive hj
  rw [hwaiting.pipeIn] at hin
  split_ifs at hin
  rw [Option.some_inj] at hin
  omega

/-- **When a pipeline never gets stuck**: every output but the last one fits into a pipe. -/
theorem neverStuck_iff (x : Job) :
    x.NeverStuck ↔ ∀ i, i + 1 < x.num → x.output i ≤ x.capacity := by
  constructor
  · intro h i
    induction i using Nat.strong_induction_on with
    | _ i ih =>
        intro hlt
        by_contra hlong
        obtain ⟨s, hs, hstage⟩ := exists_fork (x := x) (by omega) fun j hj => ih j hj (by omega)
        obtain ⟨s, hs, hleft, hbytes⟩ := hs.fork hstage
        obtain ⟨s, ⟨es, hrun⟩, hstuck⟩ := hs.stuck hlt (by omega) hleft hbytes
        exact h es s hrun hstuck
  · intro hfits es s hrun
    have hs : x.Reachable s := ⟨es, hrun⟩
    exact hs.steady.not_stuck hfits

/-- Two commands, the first of which writes one byte more than a pipe holds. -/
def oneByteMore : Job where
  prompt := .first
  num := 2
  files := ⟨none, none, none⟩
  capacity := 65536
  output := fun _ => 65537

/-- So some line gets stuck. -/
theorem not_neverStuck : ¬ ∀ x : Job, 1 ≤ x.num → 1 ≤ x.capacity → x.NeverStuck := by
  intro h
  obtain ⟨s, hs, hstage⟩ := exists_fork (x := oneByteMore) (i := 0) (by decide) nofun
  obtain ⟨s, hs, hleft, hbytes⟩ := hs.fork hstage
  obtain ⟨s, ⟨es, hrun⟩, hstuck⟩ := hs.stuck (by decide) (by decide) hleft hbytes
  exact h oneByteMore (by decide) (by decide) es s hrun hstuck

end SystemProgrammingLab.Pa2.Job
