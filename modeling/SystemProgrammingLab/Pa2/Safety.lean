import SystemProgrammingLab.Pa2.Render

/-!
# Which lines are parsed

Nothing in the parser looks at the shape of a line. A single ampersand is looked at in front of the line, a
line of bars has no command, a command that has no word in front of its first redirection has no `args[0]`, and
one with more than 199 words there does not fit into `args`. All other lines are parsed (`parserSafe_iff`).

The first redirection is the one that `parse_command` finds first: the first input, or without one the first
output, or without one the first output that is appended (`front`).

Source: `pa2/main.c`
-/

namespace SystemProgrammingLab.Pa2

open SystemProgrammingLab.Found

/-! ## The loop over the redirections -/

/-- What stands in front of the first redirection. -/
def front : List Redirection → Text → Text
  | [], s => s
  | i :: is, s =>
      match findAt i.pattern s with
      | some k => s.take k
      | none => front is s

section scan

variable {node : Nat} {st : Scan} {i : Redirection} {s : Text}

/-- The file name is set anywhere in a buffer that ends in a NUL. -/
theorem exists_setRedirect_closed (node : Nat) (i : Redirection) (file : Nat)
    (hends : st.cmd.getLast? = some terminator) (hpos : 0 < file) (hlt : file < st.cmd.length) :
    ∃ cmd, setRedirect node st i file = some (cmd, st.redirects.set i ⟨node, file⟩) ∧
      (cmd = st.cmd ∨ ∃ j, file ≤ j + 1 ∧ cmd = st.cmd.set j terminator) := by
  obtain ⟨s, hs⟩ := exists_textAt hends hlt
  have hwithin := textAt_lt hs
  obtain ⟨j, hj⟩ : ∃ j, file + s.length = j + 1 := ⟨file + s.length - 1, by omega⟩
  have hindex : ((file + s.length : Nat) : Int) - 1 = (j : Nat) := by omega
  have hread : readAt st.cmd (j : Nat) = some st.cmd[j] := by
    rw [readAt, if_pos (Int.natCast_nonneg j), Int.toNat_natCast, List.getElem?_eq_getElem]
  unfold setRedirect
  rw [strlen_eq hs, Option.bind_eq_bind, Option.bind_some, hindex, hread, Option.bind_eq_bind, Option.bind_some]
  split_ifs
  · rw [writeAt_eq (by omega)]
    exact ⟨_, rfl, .inr ⟨j, by omega, rfl⟩⟩
  · exact ⟨_, rfl, .inl rfl⟩

/-- The content is cut at the offset `k` behind `pos`. -/
structure CutAt (st : Scan) (s : Text) (k : Nat) (st' : Scan) : Prop where
  pos : st'.pos = st.pos + k + 1
  commandEnd : st'.commandEnd = some (st.commandEnd.getD (st.pos + k + 1))
  within : st'.pos < st'.cmd.length
  length : st'.cmd.length = st.cmd.length
  ends : st'.cmd.getLast? = some terminator
  front : textAt st'.cmd st.pos = some (s.take k)
  before : ∀ o t, o + t.length < st.pos → textAt st.cmd o = some t → textAt st'.cmd o = some t

/-- A round finds nothing, or cuts the content. -/
theorem exists_findRedirection (node : Nat) (i : Redirection) (hends : st.cmd.getLast? = some terminator)
    (hs : textAt st.cmd st.pos = some s) :
    ∃ st', findRedirection node st i = some st' ∧
      (findAt i.pattern s = none ∧ st' = st ∨ ∃ k, findAt i.pattern s = some k ∧ CutAt st s k st') := by
  rcases hfind : findAt i.pattern s with _ | k
  · exact ⟨st, findRedirection_none hs hfind, .inl ⟨rfl, rfl⟩⟩
  have hlt := textAt_lt hs
  have hle := findAt_add_le hfind
  have hpattern : 2 ≤ i.pattern.length := by simp [Redirection.pattern]
  obtain ⟨cmd, redirects, hset, hcmd⟩ : ∃ cmd redirects,
      (if st.redirects.get i = none then setRedirect node st i (st.pos + k + i.pattern.length)
        else some (st.cmd, st.redirects)) = some (cmd, redirects) ∧
      (cmd = st.cmd ∨ ∃ j, st.pos + k < j ∧ cmd = st.cmd.set j terminator) := by
    split_ifs
    · obtain ⟨cmd, hset, hcmd⟩ := exists_setRedirect_closed node i (st.pos + k + i.pattern.length)
        hends (by omega) (by omega)
      refine ⟨cmd, _, hset, hcmd.imp_right ?_⟩
      rintro ⟨j, hj, rfl⟩
      exact ⟨j, by omega, rfl⟩
    · exact ⟨st.cmd, st.redirects, rfl, .inl rfl⟩
  have hcut : cmd.length = st.cmd.length ∧ cmd.getLast? = some terminator ∧
      (∃ u, textAt cmd st.pos = some u ∧ u.take k = s.take k) ∧
      ∀ o t, o + t.length < st.pos → textAt st.cmd o = some t → textAt cmd o = some t := by
    rcases hcmd with rfl | ⟨j, hj, rfl⟩
    · exact ⟨rfl, hends, ⟨s, hs, rfl⟩, fun _ _ _ ht => ht⟩
    · refine ⟨List.length_set, getLast?_set_terminator hends j, ⟨_, textAt_cut hs (by omega), ?_⟩, ?_⟩
      · rw [List.take_take, Nat.min_eq_left (by omega)]
      · intro o t ho ht
        exact textAt_set_after ht (by omega)
  obtain ⟨hlen, hends', ⟨u, hu, htake⟩, hbefore⟩ := hcut
  refine ⟨⟨cmd.set (st.pos + k) terminator, st.pos + k + 1, some (st.commandEnd.getD (st.pos + k + 1)),
    redirects⟩, ?_, .inr ⟨k, rfl, ?_⟩⟩
  · rw [findRedirection, strstr, hs, Option.map_some, hfind, Option.map_some, Option.bind_some]
    dsimp only
    rw [hset, Option.bind_some]
    dsimp only
    rw [writeAt_eq (by omega), Option.map_some]
  · refine ⟨rfl, rfl, ?_, ?_, getLast?_set_terminator hends' _, ?_, ?_⟩
    · dsimp only
      rw [List.length_set]
      omega
    · exact List.length_set.trans hlen
    · dsimp only
      rw [textAt_cut hu (Nat.le_add_right _ _), Nat.add_sub_cancel_left, htake]
    · intro o t ho ht
      exact textAt_set_after (hbefore o t ho ht) (by omega)

/-- What the loop does to a content, from a state on: the strings in front of it stay, and if nothing was found
before, what stands in front of the first redirection is cut off. -/
structure CutBy (is : List Redirection) (st st' : Scan) : Prop where
  length : st'.cmd.length = st.cmd.length
  before : ∀ o t, o + t.length < st.pos → textAt st.cmd o = some t → textAt st'.cmd o = some t
  commandEnd : ∀ e, st.commandEnd = some e → st'.commandEnd = some e
  front : st.commandEnd = none → ∀ s, textAt st.cmd st.pos = some s →
    textAt st'.cmd st.pos = some (front is s) ∧
      ∀ e, st'.commandEnd = some e → st.pos + (Pa2.front is s).length < e ∧ e < st.cmd.length

/-- Without a redirection nothing is cut. -/
theorem cutBy_nil (st : Scan) : CutBy [] st st := by
  refine ⟨rfl, fun _ _ _ ht => ht, fun _ he => he, ?_⟩
  intro hnone s hs
  refine ⟨hs, ?_⟩
  intro e he
  rw [hnone] at he
  cases he

/-- The first redirection that is found is in front of all that is done later. -/
theorem CutAt.cons {is : List Redirection} {k : Nat} {st₁ st' : Scan} (hcut : CutAt st s k st₁)
    (hs : textAt st.cmd st.pos = some s) (hfind : findAt i.pattern s = some k) (hrest : CutBy is st₁ st') :
    CutBy (i :: is) st st' := by
  have hpos := hcut.pos
  have hwithin := hcut.within
  have hlen : (s.take k).length ≤ k := List.length_take_le k s
  refine ⟨hrest.length.trans hcut.length, ?_, ?_, ?_⟩
  · intro o t ho ht
    exact hrest.before o t (by omega) (hcut.before o t ho ht)
  · intro e he
    refine hrest.commandEnd e (hcut.commandEnd.trans ?_)
    rw [he, Option.getD_some]
  · intro hnone t ht
    obtain rfl := Option.some.inj (hs.symm.trans ht)
    have hfront : Pa2.front (i :: is) s = s.take k := by rw [Pa2.front, hfind]
    rw [hfront]
    refine ⟨hrest.before _ _ (by omega) hcut.front, ?_⟩
    intro e he
    have hend := hrest.commandEnd _ hcut.commandEnd
    rw [hnone, Option.getD_none, he] at hend
    obtain rfl := Option.some.inj hend
    have hlength := hcut.length
    omega

/-- The search for redirections stays inside of the buffer. -/
theorem exists_scan (node : Nat) (is : List Redirection) : ∀ {st : Scan},
    st.cmd.getLast? = some terminator → st.pos < st.cmd.length →
      ∃ st', is.foldlM (findRedirection node) st = some st' ∧ CutBy is st st' := by
  induction is with
  | nil => exact fun _ _ => ⟨_, rfl, cutBy_nil _⟩
  | cons i is ih =>
      intro st hends hpos
      obtain ⟨s, hs⟩ := exists_textAt hends hpos
      obtain ⟨st₁, hstep, ⟨hfind, rfl⟩ | ⟨k, hfind, hcut⟩⟩ := exists_findRedirection node i hends hs
      · obtain ⟨st', hrun, hrest⟩ := ih hends hpos
        refine ⟨st', ?_, hrest.length, hrest.before, hrest.commandEnd, ?_⟩
        · rw [List.foldlM_cons, hstep]
          exact hrun
        · intro hnone t ht
          obtain rfl := Option.some.inj (hs.symm.trans ht)
          rw [show Pa2.front (i :: is) s = Pa2.front is s by rw [Pa2.front, hfind]]
          exact hrest.front hnone s hs
      · obtain ⟨st', hrun, hrest⟩ := ih hcut.ends hcut.within
        refine ⟨st', ?_, hcut.cons hs hfind hrest⟩
        rw [List.foldlM_cons, hstep]
        exact hrun

end scan

/-! ## Parsing a command -/

/-- The words in front of the first redirection. -/
def frontWords (content : Text) : List Text := splitText ' ' (front redirections content)

/-- A command has a name, and its arguments fit into `args` with the `NULL` behind them. -/
def HasArgs (content : Text) : Prop := 0 < (frontWords content).length ∧ (frontWords content).length < maxArgs

instance (content : Text) : Decidable (HasArgs content) := inferInstanceAs (Decidable (_ ∧ _))

/-- A command is parsed exactly when it has arguments, and the vector has room for them. -/
theorem parseCommand_isSome_iff (node : Nat) {content : Text} (hnul : terminator ∉ content) (r : Redirects) :
    (parseCommand node (content ++ [terminator]) r).isSome ↔ HasArgs content := by
  have hends : (content ++ [terminator]).getLast? = some terminator := List.getLast?_concat
  obtain ⟨st, hrun, hcut⟩ : ∃ st,
      redirections.foldlM (findRedirection node) ⟨content ++ [terminator], 0, none, r⟩ = some st ∧
        CutBy redirections ⟨content ++ [terminator], 0, none, r⟩ st :=
    exists_scan node redirections hends (by simp)
  obtain ⟨htext, hend⟩ := hcut.front rfl content (textAt_literal hnul)
  obtain ⟨cmd, hcmd, htext⟩ : ∃ cmd, cutCommandEnd st = some cmd ∧
      textAt cmd 0 = some (front redirections content) := by
    unfold cutCommandEnd
    rcases hnone : st.commandEnd with _ | e
    · exact ⟨st.cmd, rfl, htext⟩
    · obtain ⟨hlt, hwithin⟩ := hend e hnone
      refine ⟨_, writeAt_eq (hcut.length ▸ hwithin) _, textAt_set_after htext hlt⟩
  obtain ⟨args, cmd', htokens, hargs, -⟩ := tokens_spec ' ' htext
  have hlen : args.length = (frontWords content).length := by
    have hlen := congrArg List.length hargs
    rwa [List.length_map, List.length_map] at hlen
  unfold parseCommand HasArgs
  rw [hrun, Option.bind_eq_bind, Option.bind_some, hcmd, Option.bind_eq_bind, Option.bind_some, htokens,
    Option.bind_eq_bind, Option.bind_some, ← hlen]
  dsimp only
  rcases args with _ | ⟨arg, args⟩
  · -- `args[0]` is `NULL`
    exact iff_of_false (by simp) (fun h => absurd h.1 (Nat.lt_irrefl 0))
  · obtain ⟨w, ws, hwords⟩ : ∃ w ws, splitText ' ' (front redirections content) = w :: ws := by
      rcases hsplit : splitText ' ' (front redirections content) with _ | ⟨w, ws⟩
      · rw [hsplit] at hargs
        cases hargs
      · exact ⟨w, ws, rfl⟩
    rw [hwords] at hargs
    have hname : textAt cmd' arg = some w := (List.cons.inj hargs).1
    rw [List.head?_cons, Option.bind_some, hname]
    split_ifs with hfits
    · exact iff_of_true rfl ⟨Nat.succ_pos _, hfits⟩
    · exact iff_of_false (by simp) fun h => hfits h.2

/-! ## Parsing a line -/

/-- Every node is one command. -/
theorem length_parseCommands {contents : List (List Char)} : ∀ {node : Nat} {r : Redirects} {p : Parsed},
    parseCommands node contents r = some p → p.commands.length = contents.length := by
  induction contents with
  | nil =>
      rintro node r _ ⟨⟩
      rfl
  | cons content contents ih =>
      intro node r p h
      obtain ⟨⟨command, cmd, r'⟩, -, h⟩ := Option.bind_eq_some_iff.mp h
      obtain ⟨q, hq, h⟩ := Option.bind_eq_some_iff.mp h
      obtain rfl := Option.some.inj h
      exact congrArg (· + 1) (ih hq)

/-- The commands are parsed exactly when each of them is. -/
theorem parseCommands_isSome_iff {contents : List Text} (hnul : ∀ content ∈ contents, terminator ∉ content) :
    ∀ (node : Nat) (r : Redirects),
      (parseCommands node (contents.map (· ++ [terminator])) r).isSome ↔ ∀ content ∈ contents, HasArgs content := by
  induction contents with
  | nil => exact fun _ _ => iff_of_true rfl (by simp)
  | cons content contents ih =>
      intro node r
      rw [List.forall_mem_cons] at hnul ⊢
      rw [← parseCommand_isSome_iff node hnul.1 r, List.map_cons, parseCommands]
      rcases parseCommand node (content ++ [terminator]) r with _ | ⟨command, cmd, r'⟩
      · exact iff_of_false (by simp) fun h => absurd h.1 (by simp)
      · rw [← ih hnul.2 (node + 1) r']
        simp only [Option.bind_eq_bind, Option.bind_some]
        rcases parseCommands (node + 1) (contents.map (· ++ [terminator])) r' with _ | p
        · exact iff_of_false (by simp) fun h => absurd h.2 (by simp)
        · exact iff_of_true rfl ⟨rfl, rfl⟩

section line

variable {line : Text}

/-- The line without an ampersand at its end that stands behind a blank, and without the blank. -/
def withoutDaemon (line : Text) : Text := if [' ', '&'] <:+ line then line.take (line.length - 2) else line

/-- Only a single ampersand has nothing in front of it. -/
theorem exists_cutDaemon (hnul : terminator ∉ line) (hne : line ≠ []) (hlone : line ≠ ['&']) :
    ∃ cmd, cutDaemon (line ++ [terminator]) = some cmd ∧ textAt cmd 0 = some (withoutDaemon line) := by
  have htext := textAt_literal hnul
  obtain ⟨cs, c, rfl⟩ := (List.eq_nil_or_concat' line).resolve_left hne
  by_cases hc : c = '&'
  · subst hc
    obtain ⟨bs, b, rfl⟩ := (List.eq_nil_or_concat' cs).resolve_left (by
      rintro rfl
      exact hlone rfl)
    rw [List.append_assoc bs, List.singleton_append] at htext ⊢
    refine ⟨_, cutDaemon_ampersand htext, ?_⟩
    unfold withoutDaemon
    by_cases hb : b = ' '
    · subst hb
      rw [if_pos rfl, if_pos (List.suffix_append bs _), textAt_cut htext (Nat.zero_le _), List.length_append]
      rfl
    · have hnot : ¬ [' ', '&'] <:+ bs ++ [b, '&'] := by
        rintro ⟨t, ht⟩
        exact hb (List.cons.inj (List.append_inj' ht rfl).2).1.symm
      rw [if_neg hb, if_neg hnot, htext]
  · refine ⟨_, cutDaemon_of_ne htext hc, ?_⟩
    have hnot : ¬ [' ', '&'] <:+ cs ++ [c] := by
      rintro ⟨t, ht⟩
      rw [← List.singleton_append, ← List.append_assoc] at ht
      exact hc (List.cons.inj (List.append_inj' ht rfl).2).1.symm
    rw [withoutDaemon, if_neg hnot, htext]

/-- No index outside of a buffer is used, a command results, and every command has a name and at most 199
arguments with it. -/
def ParserSafe (line : Text) : Prop :=
  ∃ p, parseLine (line ++ [terminator]) = some p ∧ p.commands ≠ []

/-- The contents of the commands. -/
def commandTexts (line : Text) : List Text := (splitText '|' (withoutDaemon line)).map unblank

/-- The texts of the commands have no NUL. -/
theorem terminator_notMem_commandTexts (hnul : terminator ∉ line) :
    ∀ content ∈ commandTexts line, terminator ∉ content := by
  intro content hcontent hmem
  obtain ⟨w, hw, rfl⟩ := List.mem_map.mp hcontent
  have hword : terminator ∈ w := by
    unfold unblank at hmem
    split_ifs at hmem
    · exact List.mem_of_mem_tail hmem
    · exact hmem
  have hline := subset_of_mem_splitText hw hword
  unfold withoutDaemon at hline
  split_ifs at hline
  · exact hnul (List.mem_of_mem_take hline)
  · exact hnul hline

/-- The commands of a line with more than an ampersand are parsed one by one. -/
theorem parseLine_eq (hnul : terminator ∉ line) (hne : line ≠ []) (hlone : line ≠ ['&']) :
    parseLine (line ++ [terminator]) =
      parseCommands 0 ((commandTexts line).map (· ++ [terminator])) ⟨none, none, none⟩ := by
  obtain ⟨cmd, hcmd, htext⟩ := exists_cutDaemon hnul hne hlone
  rw [parseLine, parsePipelines, hcmd, Option.bind_some, nodeContents_spec htext, Option.bind_some, commandTexts,
    List.map_map]
  rfl

/-- A lone ampersand is undefined. -/
theorem parseLine_ampersand : parseLine (['&'] ++ [terminator]) = none := rfl

/-- The other lines are safe exactly when there is a command and each is parsed. -/
theorem parserSafe_of_ne_iff (hnul : terminator ∉ line) (hne : line ≠ []) (hlone : line ≠ ['&']) :
    ParserSafe line ↔ commandTexts line ≠ [] ∧ ∀ content ∈ commandTexts line, HasArgs content := by
  have hparse := parseCommands_isSome_iff (terminator_notMem_commandTexts hnul) 0 ⟨none, none, none⟩
  unfold ParserSafe
  rw [parseLine_eq hnul hne hlone, ← hparse, Option.isSome_iff_exists]
  constructor
  · rintro ⟨p, hp, hcommands⟩
    refine ⟨?_, p, hp⟩
    intro hnil
    have hlen := length_parseCommands hp
    rw [hnil] at hlen
    exact hcommands (List.length_eq_zero_iff.mp hlen)
  · rintro ⟨hcommands, p, hp⟩
    refine ⟨p, hp, ?_⟩
    intro hnil
    have hlen := length_parseCommands hp
    rw [hnil, List.length_map] at hlen
    exact hcommands (List.length_eq_zero_iff.mp hlen.symm)

end line

/-- **A line is parsed safely if and only if** it is not a single ampersand, and it has commands each of which
has at least one and at most 199 words in front of its first redirection. -/
theorem parserSafe_iff (line : Text) (hnul : terminator ∉ line) (hne : line ≠ []) :
    ParserSafe line ↔ line ≠ ['&'] ∧ commandTexts line ≠ [] ∧
      ∀ content ∈ commandTexts line, 0 < (frontWords content).length ∧ (frontWords content).length ≤ 199 := by
  by_cases hlone : line = ['&']
  · subst hlone
    refine iff_of_false ?_ fun h => h.1 rfl
    rintro ⟨p, hp, -⟩
    rw [parseLine_ampersand] at hp
    cases hp
  · rw [parserSafe_of_ne_iff hnul hne hlone, and_iff_right hlone]
    exact and_congr_right' (forall₂_congr fun _ _ => and_congr_right' Nat.lt_succ_iff)

/-- `sort < a | wc &` has two commands. -/
theorem parserSafe_iff_sort : ParserSafe "sort < a | wc &".toList :=
  (parserSafe_iff "sort < a | wc &".toList (by decide) (by decide)).mpr (by decide)

/-- **A single ampersand is not parsed safely**, and neither are a bar, a blank, an empty segment and a
redirection without a command. -/
theorem not_parserSafe : ¬ ParserSafe ['&'] ∧
    ∀ line ∈ ["|", " ", "a |  | b", "  < f"].map String.toList, ¬ ParserSafe line := by
  constructor
  · rintro ⟨p, hp, -⟩
    rw [parseLine_ampersand] at hp
    cases hp
  · have hlines : ∀ line ∈ ["|", " ", "a |  | b", "  < f"].map String.toList,
        terminator ∉ line ∧ line ≠ [] ∧ line ≠ ['&'] ∧
          ¬ (commandTexts line ≠ [] ∧ ∀ content ∈ commandTexts line, HasArgs content) := by decide
    intro line hline
    obtain ⟨hnul, hne, hlone, hbad⟩ := hlines line hline
    rw [parserSafe_of_ne_iff hnul hne hlone]
    exact hbad

end SystemProgrammingLab.Pa2
