import SystemProgrammingLab.Pa2.Regions

/-!
# Parsing what was written

A `Pipeline` is what a user writes: commands with a name, arguments and redirections in some order,
joined by `" | "`. Its text is split at the `'|'` into the contents of the commands
(`nodeContents_spec`, `splitText_render`), and `parse_command` divides the words of each one into
regions (`Regions.lean`).

In a `Line` the redirections stand behind the arguments, an input on the first command and an output
on the last one. Parsing inverts writing it (`parse_render`).

Source: `pa2/main.c`
-/

namespace SystemProgrammingLab.Pa2

open SystemProgrammingLab.Found

/-! ## Pipelines -/

/-- A word of a command line. -/
def IsWord (w : Text) : Prop :=
  w ≠ [] ∧ (∀ c ∈ [' ', '|', '\n', terminator], c ∉ w) ∧ ∀ i, w ≠ Redirection.operator i

/-- A word of a command line. -/
abbrev Word := { w : Text // IsWord w }

/-- What may stand behind the name of a command. -/
inductive Item
  | arg (w : Word)
  | redirect (i : Redirection) (f : Word)

/-- The words of an item. -/
def Item.words : Item → List Text
  | .arg w => [w]
  | .redirect i f => [i.operator, f]

/-- The word, if the item is an argument. -/
def Item.arg? : Item → Option Word
  | .arg w => some w
  | .redirect _ _ => none

/-- The file of a redirection `i`. -/
def Item.file? (i : Redirection) : Item → Option Word
  | .arg _ => none
  | .redirect j f => if i = j then some f else none

/-- A command with its redirections: at most one input and one output, and at most 199 words besides
them. -/
structure Segment where
  name : Word
  items : List Item
  input_once : (items.filterMap (Item.file? .input)).length ≤ 1
  output_once : (items.filterMap (Item.file? .output)).length +
    (items.filterMap (Item.file? .append)).length ≤ 1
  args_le : (items.filterMap Item.arg?).length < 199

namespace Segment

/-- The name and the arguments. -/
def args (s : Segment) : List Word := s.name :: s.items.filterMap Item.arg?

/-- The file of the redirection `i`. -/
def redirect (s : Segment) (i : Redirection) : Option Word :=
  (s.items.filterMap (Item.file? i)).head?

/-- The words behind the name. -/
def tail (s : Segment) : List Text := s.items.flatMap Item.words

/-- The command as it is written, the words joined by blanks. -/
def text (s : Segment) : Text := joined ' ' (s.name :: s.tail)

end Segment

/-- Commands joined by `" | "`; an ampersand at the end would not belong to the last one. -/
structure Pipeline where
  segments : List Segment
  ne_nil : segments ≠ []
  last : ∀ s ∈ segments.getLast?, (s.name.val :: s.tail).getLast? ≠ some ['&']

/-- The line as it is written. -/
def Pipeline.render (p : Pipeline) : Text :=
  List.intercalate [' ', '|', ' '] (p.segments.map Segment.text)

/-- The items of a command whose redirections stand behind the arguments. -/
def orderedItems (args : List Word) (input : Option Word) (output : Option (Redirection × Word)) :
    List Item :=
  args.map .arg ++ (input.map (.redirect .input)).toList ++
    (output.map fun o => .redirect o.1 o.2).toList

/-- The redirections stand behind the arguments, the input first. -/
def Segment.Ordered (s : Segment) : Prop :=
  ∃ (args : List Word) (input : Option Word) (output : Option (Redirection × Word)),
    s.items = orderedItems args input output ∧ ∀ o ∈ output, o.1 ≠ .input

/-- An input is on the first command only, an output on the last one only, each behind the
arguments. -/
def Pipeline.Placed (p : Pipeline) : Prop :=
  ∀ k s, p.segments[k]? = some s → (s.redirect .input ≠ none → k = 0) ∧
    (∀ i, i ≠ .input → s.redirect i ≠ none → k + 1 = p.segments.length) ∧ s.Ordered

/-- A pipeline with its redirections in place. -/
structure Line extends Pipeline where
  placed : toPipeline.Placed

/-! ## The contents of the nodes -/

/-- `if (*pos == ' ') pos++;`. Source: `parse_pipelines` -/
def unblank (w : Text) : Text := if w.head? = some ' ' then w.tail else w

/-- When `strtok` finds no further token there are no further nodes. -/
theorem nodeContents_stop {cmd buf : List Char} {o next : Nat}
    (h : strtok '|' cmd o = some (none, buf, next)) : nodeContents cmd o = some [] := by
  rw [nodeContents.eq_def]
  split
  · rename_i heq
    rw [h] at heq
    cases heq
  · rfl
  · rename_i heq
    rw [h] at heq
    cases heq

/-- A token of `strtok` is the content of a node, without a blank at its start and with a NUL behind it. -/
theorem nodeContents_step {cmd buf : List Char} {o pos next : Nat}
    (h : strtok '|' cmd o = some (some pos, buf, next)) :
    nodeContents cmd o = (readAt buf pos).bind fun c =>
      (textAt buf (if c = ' ' then pos + 1 else pos)).bind fun content =>
        (nodeContents buf next).map fun contents => (content ++ [terminator]) :: contents := by
  rw [nodeContents.eq_def]
  split
  · rename_i heq
    rw [h] at heq
    cases heq
  · rename_i heq
    rw [h] at heq
    cases heq
  · rename_i heq
    rw [h] at heq
    cases heq
    rfl

/-- The contents are the pieces between the `'|'`, without a blank at their start. -/
theorem nodeContents_spec {s : Text} : ∀ {cmd : List Char} {o : Nat}, textAt cmd o = some s →
    nodeContents cmd o = some ((splitText '|' s).map fun w => unblank w ++ [terminator]) := by
  induction hn : s.length using Nat.strong_induction_on generalizing s with
  | _ n ih =>
      intro cmd o h
      subst hn
      by_cases hdrop : s.dropWhile (· = '|') = []
      · obtain ⟨hcall, hsplit⟩ := strtok_none h hdrop
        rw [nodeContents_stop hcall, hsplit]
        rfl
      · obtain ⟨start, buf, next, token, rest, hcall, htoken⟩ := strtok_some h hdrop
        have hstart := htoken.start_lt
        have hnext := htoken.next_eq
        have hne : token ≠ [] := by
          have hmem : token ∈ splitText '|' s := by
            rw [htoken.splitText_eq]
            exact List.mem_cons_self
          simpa using (List.mem_filter.mp hmem).2
        obtain ⟨c, cs, rfl⟩ := List.exists_cons_of_ne_nil hne
        have hread : readAt buf start = some c :=
          readAt_add htoken.textAt_start (k := 0) (Nat.succ_pos _)
        have hcontent : textAt buf (if c = ' ' then start + 1 else start) =
            some (unblank (c :: cs)) := by
          unfold unblank
          rw [List.head?_cons]
          by_cases hc : c = ' '
          · rw [if_pos hc, if_pos (congrArg some hc),
              textAt_add htoken.textAt_start (k := 1) (Nat.succ_pos _)]
            rfl
          · rw [if_neg hc, if_neg fun hsome => hc (Option.some.inj hsome), htoken.textAt_start]
        rw [nodeContents_step hcall, hread, Option.bind_some, hcontent, Option.bind_some,
          ih rest.length (by omega) rfl htoken.textAt_next, htoken.splitText_eq]
        rfl

/-- The contents of the commands `us`: a blank is left behind every one but the last. -/
def contents : List Text → List Text
  | [] => []
  | [u] => [u]
  | u :: v :: us => (u ++ [' ']) :: contents (v :: us)

/-- The pieces of a written line between the bars are the contents of the nodes, up to a blank at their start. -/
theorem splitText_render {us : List Text} (hne : us ≠ [])
    (hus : ∀ u ∈ us, u ≠ [] ∧ '|' ∉ u ∧ u.head? ≠ some ' ') : ∀ {lead : Text}, IsTrail lead →
      (splitText '|' (lead ++ List.intercalate [' ', '|', ' '] us)).map unblank = contents us := by
  have hunblank : ∀ {lead u v : Text}, IsTrail lead → u ≠ [] → u.head? ≠ some ' ' →
      unblank (lead ++ (u ++ v)) = u ++ v := by
    intro lead u v hlead hne hhead
    obtain ⟨c, cs, rfl⟩ := List.exists_cons_of_ne_nil hne
    rcases hlead with rfl | rfl
    · exact if_neg hhead
    · exact if_pos rfl
  have htoken : ∀ {lead u v : Text}, IsTrail lead → u ≠ [] → '|' ∉ u → '|' ∉ v →
      IsToken '|' (lead ++ (u ++ v)) := by
    intro lead u v hlead hne hu hv
    refine ⟨by simp [hne], ?_⟩
    rcases hlead with rfl | rfl <;> simp [hu, hv]
  induction us with
  | nil => exact (hne rfl).elim
  | cons u us ih =>
      intro lead hlead
      rw [List.forall_mem_cons] at hus
      obtain ⟨⟨hu, hbar, hhead⟩, hus⟩ := hus
      cases us with
      | nil =>
          have hall := splitText_token (htoken (v := []) hlead hu hbar List.not_mem_nil)
          have hblank := hunblank (v := []) hlead hu hhead
          rw [List.append_nil] at hall hblank
          rw [List.intercalate_singleton, hall, List.map_singleton, hblank]
          rfl
      | cons v us =>
          have hsplit := splitText_token_cons (htoken (v := [' ']) hlead hu hbar (by decide))
            ([' '] ++ List.intercalate [' ', '|', ' '] (v :: us))
          have hshape : lead ++ List.intercalate [' ', '|', ' '] (u :: v :: us) =
              lead ++ (u ++ [' ']) ++ '|' :: ([' '] ++ List.intercalate [' ', '|', ' '] (v :: us)) := by
            rw [List.intercalate_cons_cons]
            simp
          rw [hshape, hsplit, List.map_cons, hunblank hlead hu hhead,
            ih (List.cons_ne_nil v us) hus (.inr rfl)]
          rfl

/-! ## The words of a command -/

/-- A word is a token of the blank. -/
theorem Word.isToken (w : Word) : IsToken ' ' w.val := ⟨w.2.1, w.2.2.1 ' ' (by decide)⟩

/-- A word is no operator. -/
theorem Word.ne_operator (w : Word) (i : Redirection) : w.val ≠ i.operator := w.2.2.2 i

/-- The characters a word cannot have, besides the blank. -/
def barred : List Char := ['|', '\n', terminator]

/-- A word has none of the characters that a word must not have. -/
theorem Word.barred_notMem (w : Word) {c : Char} (hc : c ∈ barred) : c ∉ w.val :=
  w.2.2.1 c (List.mem_cons_of_mem _ hc)

/-- Nor has an operator. -/
theorem operator_barred (i : Redirection) {c : Char} (hc : c ∈ barred) : c ∉ i.operator := by
  simp only [barred, List.mem_cons, List.not_mem_nil, or_false] at hc
  rcases hc with rfl | rfl | rfl <;> cases i <;> decide

/-- What an item is written as are words and operators. -/
theorem Item.words_cases {e : Item} {w : Text} (h : w ∈ e.words) :
    (∃ v : Word, w = v.val) ∨ ∃ i : Redirection, w = i.operator := by
  cases e with
  | arg v => exact .inl ⟨v, List.mem_singleton.mp h⟩
  | redirect i f =>
      rcases List.mem_pair.mp h with rfl | rfl
      · exact .inr ⟨i, rfl⟩
      · exact .inl ⟨f, rfl⟩

/-- Behind an operator stands its file, which is no operator. -/
theorem followed_words (items : List Item) : Followed (items.flatMap Item.words) := by
  induction items with
  | nil => exact followed_nil
  | cons e items ih =>
      rw [List.flatMap_cons]
      cases e with
      | arg w => exact ih.cons w.ne_operator
      | redirect j f => exact ih.file j f.ne_operator

section segment

variable (s : Segment)

/-- Behind the name of a command stand tokens. -/
theorem Segment.isToken_tail : ∀ w ∈ s.tail, IsToken ' ' w := by
  intro w hw
  obtain ⟨e, -, hw⟩ := List.mem_flatMap.mp hw
  rcases Item.words_cases hw with ⟨v, rfl⟩ | ⟨i, rfl⟩
  · exact v.isToken
  · exact isToken_operator i

/-- A command is written as its name and, each behind a blank, the words behind it. -/
theorem Segment.text_eq : s.text = s.name.val ++ led ' ' s.tail := rfl

/-- A character that is in no word is not in the text. -/
theorem Segment.barred_notMem {c : Char} (hc : c ∈ barred) : c ∉ s.text := by
  have hspace : c ≠ ' ' := by
    rintro rfl
    exact absurd hc (by decide)
  rw [Segment.text_eq, List.mem_append, not_or]
  refine ⟨s.name.barred_notMem hc, notMem_led hspace ?_⟩
  intro w hw
  obtain ⟨e, -, hw⟩ := List.mem_flatMap.mp hw
  rcases Item.words_cases hw with ⟨v, rfl⟩ | ⟨i, rfl⟩
  · exact v.barred_notMem hc
  · exact operator_barred i hc

/-- It does not start with a blank. -/
theorem Segment.text_head : s.text ≠ [] ∧ s.text.head? ≠ some ' ' := by
  obtain ⟨c, cs, hname⟩ := List.exists_cons_of_ne_nil s.name.2.1
  rw [Segment.text_eq, hname]
  refine ⟨List.cons_ne_nil _ _, ?_⟩
  intro hhead
  apply s.name.isToken.2
  rw [hname]
  exact List.mem_cons.mpr (.inl (Option.some.inj hhead).symm)

/-- The arguments behind the name, as `parse_command` finds them. -/
def Segment.own : List Text := (regions redirections s.tail).1

/-- The regions of the redirections. -/
def Segment.region : Redirection → Option (List Text) := (regions redirections s.tail).2

/-- The arguments fit into `args`, with the `NULL` behind them. -/
def Segment.Fits : Prop := (s.name.val :: s.own).length < maxArgs

instance : Decidable s.Fits := inferInstanceAs (Decidable (_ < _))

/-- `parse_command` gives the arguments of the command and its redirections, if the argument vector has room for
them. -/
theorem Segment.parse {trail : Text} (htrail : IsTrail trail) (node : Nat) (r : Redirects) :
    ∃ args cmd r', ParsedCommand node s.name.val s.own s.region r args cmd r' ∧
      parseCommand node (s.text ++ trail ++ [terminator]) r =
        if s.Fits then
          some (⟨commandType s.name.val, args.map some ++ [none], args.length⟩, cmd, r')
        else none := by
  have hnul : terminator ∉ s.name.val ++ led ' ' s.tail ++ trail := by
    rw [List.mem_append, not_or]
    refine ⟨s.barred_notMem (by decide), ?_⟩
    rcases htrail with rfl | rfl <;> decide
  exact parseCommand_spec node s.name.isToken s.isToken_tail (followed_words s.items) htrail hnul r

end segment

/-! ## The commands of a line -/

/-- What is parsed from the segments on, with the redirections `r` set before. -/
structure ParsedSegments (node : Nat) (segments : List Segment) (r : Redirects) (p : Parsed) :
    Prop where
  argvs : p.argvs = segments.map fun s => (s.name.val :: s.own).map (some ∘ some) ++ [none]
  argNums : p.commands.map Command.argNum = segments.map fun s => (s.name.val :: s.own).length
  types : p.commands.map Command.type = segments.map fun s => commandType s.name.val
  kept : ∀ j, r.get j ≠ none → p.redirects.get j = r.get j
  unset : ∀ j, r.get j = none → segments.findSome? (Segment.region · j) = none →
    p.redirects.get j = none
  region : ∀ j ws, r.get j = none → segments.findSome? (Segment.region · j) = some ws → ∃ m o,
    p.redirects.get j = some ⟨node + m, o⟩ ∧
      (p.contents[m]?.bind fun content => textAt content o) = some (joined ' ' ws)

/-- One more command in front of what is parsed behind it. -/
theorem ParsedSegments.cons {node : Nat} {s : Segment} {segments : List Segment} {r r' : Redirects}
    {args : List Nat} {cmd : List Char} {p : Parsed}
    (h : ParsedCommand node s.name.val s.own s.region r args cmd r')
    (hp : ParsedSegments (node + 1) segments r' p) :
    ParsedSegments node (s :: segments) r
      ⟨⟨commandType s.name.val, args.map some ++ [none], args.length⟩ :: p.commands,
        cmd :: p.contents, p.redirects⟩ := by
  refine ⟨?_, ?_, ?_, ?_, ?_, ?_⟩
  · exact congrArg₂ List.cons h.argv hp.argvs
  · refine congrArg₂ List.cons ?_ hp.argNums
    simpa using congrArg List.length h.args
  · exact congrArg₂ List.cons rfl hp.types
  · intro j hj
    have hsame := h.kept j hj
    rw [← hsame] at hj
    exact (hp.kept j hj).trans hsame
  · intro j hj hnone
    rw [List.findSome?_cons] at hnone
    rcases hregion : s.region j with _ | ws
    · rw [hregion] at hnone
      exact hp.unset j ((h.unset j hregion).trans hj) hnone
    · rw [hregion] at hnone
      cases hnone
  · intro j ws hj hsome
    rw [List.findSome?_cons] at hsome
    rcases hregion : s.region j with _ | ws₀
    · rw [hregion] at hsome
      obtain ⟨m, o, hptr, htext⟩ := hp.region j ws ((h.unset j hregion).trans hj) hsome
      refine ⟨m + 1, o, ?_, htext⟩
      rw [hptr]
      congr 2
      omega
    · rw [hregion] at hsome
      obtain rfl := Option.some.inj hsome
      obtain ⟨o, hptr, htext⟩ := h.region j ws₀ hregion hj
      refine ⟨0, o, ?_, htext⟩
      have hset : r'.get j ≠ none := by
        rw [hptr]
        exact Option.some_ne_none _
      exact (hp.kept j hset).trans hptr

/-- The contents of the nodes: the first command with the blank in front of the bar, and those behind it. -/
theorem contents_cons (u : Text) (us : List Text) :
    ∃ trail, IsTrail trail ∧ contents (u :: us) = (u ++ trail) :: contents us := by
  cases us with
  | nil => exact ⟨[], .inl rfl, by rw [List.append_nil]; rfl⟩
  | cons v us => exact ⟨[' '], .inr rfl, rfl⟩

/-- All commands are parsed, one node behind the other, if the argument vectors have room. -/
theorem parseCommands_spec (segments : List Segment) : ∀ (node : Nat) (r : Redirects),
    ∃ p, ParsedSegments node segments r p ∧
      parseCommands node ((contents (segments.map Segment.text)).map (· ++ [terminator])) r =
        if ∀ s ∈ segments, s.Fits then some p else none := by
  induction segments with
  | nil =>
      intro node r
      refine ⟨⟨[], [], r⟩, ⟨rfl, rfl, rfl, fun _ _ => rfl, fun _ h _ => h, ?_⟩, ?_⟩
      · intro j ws _ h
        cases h
      · rw [if_pos (by simp)]
        rfl
  | cons s segments ih =>
      intro node r
      obtain ⟨trail, htrail, hcontents⟩ := contents_cons s.text (segments.map Segment.text)
      obtain ⟨args, cmd, r', hcommand, hparse⟩ := s.parse htrail node r
      obtain ⟨p, hp, hrest⟩ := ih (node + 1) r'
      refine ⟨_, .cons hcommand hp, ?_⟩
      rw [List.map_cons, hcontents, List.map_cons, parseCommands, hparse]
      simp only [List.forall_mem_cons]
      by_cases hfits : s.Fits
      · rw [if_pos hfits, Option.bind_eq_bind, Option.bind_some]
        dsimp only
        rw [hrest]
        by_cases hall : ∀ s ∈ segments, s.Fits
        · rw [if_pos hall, if_pos ⟨hfits, hall⟩]
          rfl
        · rw [if_neg hall, if_neg fun h => hall h.2]
          rfl
      · rw [if_neg hfits, if_neg fun h => hfits h.1]
        rfl

/-! ## The whole line -/

/-- A line that ends in another character than an ampersand is left as it is. -/
theorem cutDaemon_of_ne {cmd : List Char} {front : Text} {c : Char} (h : textAt cmd 0 = some (front ++ [c]))
    (hc : c ≠ '&') : cutDaemon cmd = some cmd := by
  have hlast : readAt cmd (((front ++ [c]).length : Int) - 1) = some c := by
    have hindex : ((front ++ [c]).length : Int) - 1 = (0 + front.length : Nat) := by
      rw [List.length_append, List.length_singleton]
      omega
    rw [hindex, readAt_add h (by simp), List.getElem?_concat_length]
  unfold cutDaemon
  simp only [strlen_eq h, Option.bind_eq_bind, Option.bind_some, hlast]
  rw [if_neg hc]

/-- An ampersand is cut off with the blank in front of it. -/
theorem cutDaemon_ampersand {cmd : List Char} {front : Text} {b : Char}
    (h : textAt cmd 0 = some (front ++ [b, '&'])) :
    cutDaemon cmd = some (if b = ' ' then cmd.set front.length terminator else cmd) := by
  have hlen : (front ++ [b, '&']).length = front.length + 2 := by simp
  have hlast : readAt cmd (((front ++ [b, '&']).length : Int) - 1) = some '&' := by
    have hindex : ((front ++ [b, '&']).length : Int) - 1 = (0 + (front.length + 1) : Nat) := by omega
    rw [hindex, readAt_add h (by omega), List.getElem?_append_right (Nat.le_add_right _ 1),
      Nat.add_sub_cancel_left]
    rfl
  have hindex : ((front ++ [b, '&']).length : Int) - 2 = (front.length : Nat) := by omega
  have hbefore : readAt cmd (front.length : Nat) = some b := by
    rw [← Nat.zero_add front.length, readAt_add h (by omega), List.getElem?_append_right le_rfl,
      Nat.sub_self]
    rfl
  have hlt := textAt_lt h
  unfold cutDaemon
  simp only [strlen_eq h, Option.bind_eq_bind, Option.bind_some, hlast, hindex, hbefore]
  rw [if_pos trivial]
  split_ifs
  · exact writeAt_eq (by omega) _
  · rfl

/-- An ampersand that is part of a longer word is not cut off. -/
theorem cutDaemon_eq {cmd : List Char} {front w : Text} (h : textAt cmd 0 = some (front ++ w))
    (hw : IsToken ' ' w) (hne : w ≠ ['&']) : cutDaemon cmd = some cmd := by
  obtain ⟨ws, c, rfl⟩ := (List.eq_nil_or_concat' w).resolve_left hw.1
  by_cases hc : c = '&'
  · subst hc
    obtain ⟨vs, b, rfl⟩ := (List.eq_nil_or_concat' ws).resolve_left (by
      rintro rfl
      exact hne rfl)
    have hb : b ≠ ' ' := by
      rintro rfl
      exact hw.2 (by simp)
    have hshape : front ++ (vs ++ [b] ++ ['&']) = front ++ vs ++ [b, '&'] := by simp
    rw [hshape] at h
    rw [cutDaemon_ampersand h, if_neg hb]
  · rw [← List.append_assoc] at h
    exact cutDaemon_of_ne h hc

/-- Joined words end with the last one. -/
theorem exists_joined_eq (w : Text) (ws : List Text) :
    ∃ front v, (w :: ws).getLast? = some v ∧ joined ' ' (w :: ws) = front ++ v := by
  rcases List.eq_nil_or_concat' ws with rfl | ⟨vs, v, rfl⟩
  · exact ⟨[], w, rfl, by simp [joined]⟩
  · exact ⟨w ++ led ' ' vs ++ [' '], v, by rw [← List.cons_append, List.getLast?_concat], by simp [joined]⟩

/-- So do texts with a separator between them. -/
theorem exists_intercalate_eq (sep : Text) {us : List Text} (hne : us ≠ []) :
    ∃ front u, us.getLast? = some u ∧ List.intercalate sep us = front ++ u := by
  induction us with
  | nil => exact (hne rfl).elim
  | cons u us ih =>
      cases us with
      | nil => exact ⟨[], u, rfl, by simp⟩
      | cons v us =>
          obtain ⟨front, w, hlast, heq⟩ := ih (List.cons_ne_nil v us)
          refine ⟨u ++ sep ++ front, w, ?_, ?_⟩
          · rw [List.getLast?_cons_cons, hlast]
          · rw [List.intercalate_cons_cons, heq]
            simp

/-- A character that neither the texts nor the separator have is not between them either. -/
theorem notMem_intercalate {c : Char} {sep : Text} (hsep : c ∉ sep) {us : List Text}
    (hus : ∀ u ∈ us, c ∉ u) : c ∉ List.intercalate sep us := by
  induction us with
  | nil => exact List.not_mem_nil
  | cons u us ih =>
      rw [List.forall_mem_cons] at hus
      cases us with
      | nil => simpa using hus.1
      | cons v us =>
          rw [List.intercalate_cons_cons]
          simp [hus.1, hsep, ih hus.2]

section pipeline

variable (p : Pipeline)

/-- A pipeline has a command. -/
theorem Pipeline.text_ne_nil : p.segments.map Segment.text ≠ [] := by
  simpa using p.ne_nil

/-- A written line has no NUL. -/
theorem Pipeline.terminator_notMem : terminator ∉ p.render := by
  apply notMem_intercalate (by decide)
  intro u hu
  obtain ⟨s, -, rfl⟩ := List.mem_map.mp hu
  exact s.barred_notMem (by decide)

/-- Nothing is cut off its end. -/
theorem Pipeline.cutDaemon : cutDaemon (p.render ++ [terminator]) = some (p.render ++ [terminator]) := by
  obtain ⟨front, u, hlast, hrender⟩ := exists_intercalate_eq [' ', '|', ' '] p.text_ne_nil
  rw [List.getLast?_map, Option.map_eq_some_iff] at hlast
  obtain ⟨s, hs, rfl⟩ := hlast
  obtain ⟨front', w, hw, htext⟩ := exists_joined_eq s.name.val s.tail
  have htoken : IsToken ' ' w := by
    rcases List.mem_cons.mp (List.mem_of_getLast? hw) with rfl | hmem
    · exact s.name.isToken
    · exact s.isToken_tail w hmem
  have hne : w ≠ ['&'] := by
    rintro rfl
    exact p.last s hs hw
  have hshape : p.render = front ++ front' ++ w := by
    rw [List.append_assoc, ← htext]
    exact hrender
  have htextAt := textAt_literal p.terminator_notMem
  rw [hshape] at htextAt ⊢
  exact cutDaemon_eq htextAt htoken hne

/-- What is parsed from the text of a pipeline. -/
theorem parseLine_spec : ∃ q, ParsedSegments 0 p.segments ⟨none, none, none⟩ q ∧
    parseLine (p.render ++ [terminator]) =
      if ∀ s ∈ p.segments, s.Fits then some q else none := by
  obtain ⟨q, hq, hparse⟩ := parseCommands_spec p.segments 0 ⟨none, none, none⟩
  refine ⟨q, hq, ?_⟩
  have hus : ∀ u ∈ p.segments.map Segment.text, u ≠ [] ∧ '|' ∉ u ∧ u.head? ≠ some ' ' := by
    intro u hu
    obtain ⟨s, -, rfl⟩ := List.mem_map.mp hu
    exact ⟨s.text_head.1, s.barred_notMem (by decide), s.text_head.2⟩
  have hsplit := splitText_render p.text_ne_nil hus (.inl rfl)
  have hcontents := nodeContents_spec (textAt_literal p.terminator_notMem)
  rw [List.nil_append] at hsplit
  unfold parseLine parsePipelines
  rw [p.cutDaemon, Option.bind_some, hcontents, Option.bind_some, ← hparse, ← hsplit, List.map_map]
  rfl

end pipeline

/-! ## Redirections in their place -/

/-- An operator that does not occur has no region. -/
theorem region_eq_none {j : Redirection} {is : List Redirection} : ∀ {ws : List Text},
    j.operator ∉ ws → (regions is ws).2 j = none := by
  induction is with
  | nil => exact fun _ => rfl
  | cons i is ih =>
      intro ws hj
      by_cases hi : i.operator ∈ ws
      · obtain ⟨as, bs, rfl, has⟩ := List.eq_append_cons_of_mem hi
        rw [regions_append has]
        have hji : j ≠ i := by
          rintro rfl
          exact hj hi
        refine (Function.update_of_ne hji _ _).trans (ih fun h => hj ?_)
        simp [h]
      · rw [regions_of_notMem hi]
        exact ih hj

/-- Without operators all words are arguments. -/
theorem regions_of_no_operator {is : List Redirection} {ws : List Text}
    (h : ∀ i, Redirection.operator i ∉ ws) : (regions is ws).1 = ws := by
  induction is with
  | nil => rfl
  | cons i is ih => rw [regions_of_notMem (h i), ih]

/-- No operator is among the words of the arguments. -/
theorem operator_notMem_args (i : Redirection) (args : List Word) :
    i.operator ∉ args.map Subtype.val := by
  intro h
  obtain ⟨w, -, hw⟩ := List.mem_map.mp h
  exact Word.ne_operator w i hw

/-- Arguments are written as their words. -/
theorem flatMap_words_args (args : List Word) :
    (args.map Item.arg).flatMap Item.words = args.map Subtype.val := by
  induction args with
  | nil => rfl
  | cons w args ih => rw [List.map_cons, List.flatMap_cons, ih]; rfl

/-- The first operator of the words, behind arguments. -/
theorem regions_args_append (i : Redirection) (is : List Redirection) (args : List Word)
    (bs : List Text) : regions (i :: is) (args.map Subtype.val ++ i.operator :: bs) =
      (args.map Subtype.val, Function.update (regions is bs).2 i (some (regions is bs).1)) :=
  regions_append (operator_notMem_args i args)

/-- What is taken from items that are all arguments is taken from their words. -/
theorem filterMap_args {β : Type} {g : Item → Option β} {h : Word → Option β}
    (hg : ∀ w, g (.arg w) = h w) (args : List Word) :
    (args.map Item.arg).filterMap g = args.filterMap h := by
  rw [List.filterMap_map]
  exact List.filterMap_congr fun w _ => hg w

/-- Arguments name no files. -/
theorem file?_args (j : Redirection) (args : List Word) :
    (args.map Item.arg).filterMap (Item.file? j) = [] := by
  rw [filterMap_args (h := fun _ => none) fun _ => rfl]
  simp

/-- The arguments among them are all of them. -/
theorem arg?_args (args : List Word) : (args.map Item.arg).filterMap Item.arg? = args := by
  rw [filterMap_args (h := some) fun _ => rfl, List.filterMap_some]

/-- One operator behind arguments. -/
theorem regions_single {i : Redirection} {is : List Redirection} (hi : i ∈ is) (args : List Word)
    {ws : List Text} (hws : ∀ k, Redirection.operator k ∉ ws) :
    regions is (args.map Subtype.val ++ i.operator :: ws) =
      (args.map Subtype.val, fun j => if j = i then some ws else none) := by
  induction is with
  | nil => cases hi
  | cons k is ih =>
      by_cases hki : k = i
      · subst hki
        rw [regions_args_append, regions_of_no_operator hws]
        congr 1
        funext j
        by_cases hj : j = k
        · subst hj
          rw [Function.update_self, if_pos rfl]
        · rw [Function.update_of_ne hj, if_neg hj, region_eq_none (hws j)]
      · have hnot : k.operator ∉ args.map Subtype.val ++ i.operator :: ws := by
          rw [List.mem_append, List.mem_cons, not_or, not_or]
          exact ⟨operator_notMem_args k args, fun h => hki (operator_injective h), hws k⟩
        rw [regions_of_notMem hnot]
        exact ih ((List.mem_cons.mp hi).resolve_left (Ne.symm hki))

/-- An input behind the arguments, and an output behind it. -/
theorem regions_redirects (args more last : List Word) {i : Redirection} (hi : i ≠ .input) :
    regions redirections (args.map Subtype.val ++
        Redirection.operator .input :: (more.map Subtype.val ++ i.operator :: last.map Subtype.val)) =
      (args.map Subtype.val, fun j => if j = .input then some (more.map Subtype.val)
        else if j = i then some (last.map Subtype.val) else none) := by
  have hmem : i ∈ [Redirection.output, .append] := by
    cases i
    · exact absurd rfl hi
    all_goals decide
  rw [regions_args_append, regions_single hmem more fun k => operator_notMem_args k last]
  congr 1
  funext j
  by_cases hj : j = .input
  · subst hj
    rw [Function.update_self, if_pos rfl]
  · rw [Function.update_of_ne hj, if_neg hj]

/-- Every redirection is searched for. -/
theorem mem_redirections (i : Redirection) : i ∈ redirections := by
  cases i <;> decide

/-- The files of a redirection, the one behind the first arguments first. -/
theorem files_append (j : Redirection) (args : List Word) (i : Redirection) (f : Word)
    (rest : List Item) : (args.map Item.arg ++ .redirect i f :: rest).filterMap (Item.file? j) =
      (if j = i then [f] else []) ++ rest.filterMap (Item.file? j) := by
  rw [List.filterMap_append, file?_args, List.filterMap_cons, List.nil_append]
  by_cases hj : j = i
  · subst hj
    simp [Item.file?]
  · simp [Item.file?, hj]

/-- Arguments in front of a redirection, as they are written. -/
theorem words_append (args : List Word) (i : Redirection) (f : Word) (rest : List Item) :
    (args.map Item.arg ++ .redirect i f :: rest).flatMap Item.words =
      args.map Subtype.val ++ i.operator :: f.val :: rest.flatMap Item.words := by
  rw [List.flatMap_append, flatMap_words_args]
  rfl

section redirections

variable {s : Segment} {args more last : List Word} {i k : Redirection} {f g : Word}
  {rest : List Item}

/-- The words behind the name, when the first redirection stands behind these arguments. -/
theorem tail_eq (h : s.items = args.map .arg ++ .redirect i f :: rest) : s.tail =
    args.map Subtype.val ++ i.operator :: f.val :: rest.flatMap Item.words := by
  rw [Segment.tail, h, words_append]

/-- A single redirection takes all that stands behind it. -/
theorem regions_one (h : s.items = args.map .arg ++ .redirect i f :: more.map .arg) :
    regions redirections s.tail = (args.map Subtype.val,
      fun j => if j = i then some ((f :: more).map Subtype.val) else none) := by
  rw [tail_eq h, flatMap_words_args, ← List.map_cons,
    regions_single (mem_redirections i) args fun k => operator_notMem_args k (f :: more)]

/-- An input in front of an output. -/
theorem regions_two (hk : k ≠ .input) (h : s.items = args.map .arg ++
      .redirect .input f :: (more.map .arg ++ .redirect k g :: last.map .arg)) :
    regions redirections s.tail = (args.map Subtype.val,
      fun j => if j = .input then some ((f :: more).map Subtype.val)
        else if j = k then some ((g :: last).map Subtype.val) else none) := by
  rw [tail_eq h, words_append, flatMap_words_args, ← List.map_cons, ← List.cons_append,
    ← List.map_cons, regions_redirects args (f :: more) (g :: last) hk]

end redirections

section ordered

variable {s : Segment} {args : List Word} {input : Option Word} {output : Option (Redirection × Word)}

/-- The arguments of items in order. -/
theorem args_ordered (h : s.items = orderedItems args input output) : s.args = s.name :: args := by
  unfold Segment.args
  rw [h, orderedItems, List.filterMap_append, List.filterMap_append, arg?_args]
  rcases input with _ | f <;> rcases output with _ | o <;> simp [Item.arg?]

/-- The redirections of items in order. -/
theorem redirect_ordered (h : s.items = orderedItems args input output)
    (houtput : ∀ o ∈ output, o.1 ≠ .input) (j : Redirection) :
    s.redirect j = if j = .input then input else output.bind fun o => if j = o.1 then some o.2 else none := by
  unfold Segment.redirect
  rw [h, orderedItems, List.filterMap_append, List.filterMap_append, file?_args]
  rcases input with _ | f <;> rcases output with _ | ⟨i, g⟩
  · simp
  · have hi := houtput _ rfl
    by_cases hj : j = .input
    · subst hj
      simp [Item.file?, Ne.symm hi]
    · by_cases hji : j = i
      · subst hji
        simp [Item.file?, hj]
      · simp [Item.file?, hj, hji]
  · by_cases hj : j = .input <;> simp [Item.file?, hj]
  · have hi := houtput _ rfl
    by_cases hj : j = .input
    · subst hj
      simp [Item.file?]
    · by_cases hji : j = i
      · subst hji
        simp [Item.file?, hj]
      · simp [Item.file?, hj, hji]

/-- The arguments and the files of a command whose redirections stand behind the arguments. -/
theorem region_ordered (h : s.items = orderedItems args input output)
    (houtput : ∀ o ∈ output, o.1 ≠ .input) :
    s.own = args.map Subtype.val ∧ ∀ j, s.region j = (s.redirect j).map fun f => [f.val] := by
  have hredirect := redirect_ordered h houtput
  unfold Segment.own Segment.region
  rcases input with _ | f <;> rcases output with _ | ⟨i, g⟩
  · have htail : s.tail = args.map Subtype.val := by
      rw [Segment.tail, show s.items = args.map .arg by simp [h, orderedItems], flatMap_words_args]
    rw [htail]
    refine ⟨regions_of_no_operator fun i => operator_notMem_args i args, ?_⟩
    intro j
    rw [region_eq_none (operator_notMem_args j args), hredirect]
    split_ifs <;> rfl
  · have hi := houtput _ rfl
    have hitems : s.items = args.map .arg ++ .redirect i g :: ([] : List Word).map .arg := by
      simp [h, orderedItems]
    rw [regions_one hitems]
    refine ⟨rfl, ?_⟩
    intro j
    rw [hredirect]
    by_cases hj : j = .input
    · subst hj
      simp [Ne.symm hi]
    · by_cases hji : j = i
      · subst hji
        simp [hj]
      · simp [hj, hji]
  · have hitems : s.items = args.map .arg ++ .redirect .input f :: ([] : List Word).map .arg := by
      simp [h, orderedItems]
    rw [regions_one hitems]
    refine ⟨rfl, ?_⟩
    intro j
    rw [hredirect]
    by_cases hj : j = .input <;> simp [hj]
  · have hi := houtput _ rfl
    have hitems : s.items = args.map .arg ++
        .redirect .input f :: (([] : List Word).map .arg ++ .redirect i g :: ([] : List Word).map .arg) := by
      simp [h, orderedItems]
    rw [regions_two hi hitems]
    refine ⟨rfl, ?_⟩
    intro j
    rw [hredirect]
    by_cases hj : j = .input
    · simp [hj]
    · by_cases hji : j = i
      · subst hji
        simp [hj]
      · simp [hj, hji]

end ordered

/-! ## Parsing a line -/

/-- The file of the redirection `i`, on whichever command it stands. -/
def Pipeline.file (p : Pipeline) (i : Redirection) : Option Word :=
  p.segments.findSome? (Segment.redirect · i)

/-- What is parsed, as strings. -/
structure View where
  argvs : List (List (Option (Option Text)))
  argNums : List Nat
  redirectIn : Option (Option Text)
  redirectOut : Option (Option Text)
  redirectOutAppend : Option (Option Text)

/-- The view of a parsed line. -/
def Parsed.view (q : Parsed) : View :=
  ⟨q.argvs, q.commands.map Command.argNum, q.file .input, q.file .output, q.file .append⟩

/-- What was written: `NULL` stands behind the arguments of each command. -/
def Pipeline.view (p : Pipeline) : View where
  argvs := p.segments.map fun s => s.args.map (fun w => some (some w.val)) ++ [none]
  argNums := p.segments.map fun s => s.args.length
  redirectIn := (p.file .input).map fun f => some f.val
  redirectOut := (p.file .output).map fun f => some f.val
  redirectOutAppend := (p.file .append).map fun f => some f.val

/-- The words that a command with its redirections in order keeps are its arguments. -/
theorem Segment.Ordered.own {s : Segment} (h : s.Ordered) :
    s.name.val :: s.own = s.args.map Subtype.val := by
  obtain ⟨args, input, output, hitems, houtput⟩ := h
  rw [args_ordered hitems, (region_ordered hitems houtput).1]
  rfl

/-- The region of a redirection is its file. -/
theorem Segment.Ordered.region {s : Segment} (h : s.Ordered) (j : Redirection) :
    s.region j = (s.redirect j).map fun f => [f.val] := by
  obtain ⟨args, input, output, hitems, houtput⟩ := h
  exact (region_ordered hitems houtput).2 j

/-- The argument vector has room for a command in order. -/
theorem Segment.Ordered.fits {s : Segment} (h : s.Ordered) : s.Fits := by
  have hle := s.args_le
  have hlen : (s.name.val :: s.own).length = s.args.length := by
    rw [h.own, List.length_map]
  show (s.name.val :: s.own).length < 200
  rw [hlen, Segment.args, List.length_cons]
  omega

/-- The file of a redirection that was parsed. -/
theorem ParsedSegments.file_eq {segments : List Segment} {q : Parsed}
    (h : ParsedSegments 0 segments ⟨none, none, none⟩ q) (j : Redirection) :
    q.file j = (segments.findSome? (Segment.region · j)).map fun ws => some (joined ' ' ws) := by
  have hnone : Redirects.get ⟨none, none, none⟩ j = none := by cases j <;> rfl
  unfold Parsed.file
  rcases hregion : segments.findSome? (Segment.region · j) with _ | ws
  · rw [h.unset j hnone hregion]
    rfl
  · obtain ⟨m, o, hptr, htext⟩ := h.region j ws hnone hregion
    rw [hptr, Option.map_some, Option.map_some, Parsed.text, Nat.zero_add, htext]

/-- The first region of a redirection in a line is its first file. -/
theorem findSome?_region {segments : List Segment} (h : ∀ s ∈ segments, s.Ordered)
    (j : Redirection) : segments.findSome? (Segment.region · j) =
      (segments.findSome? (Segment.redirect · j)).map fun f => [f.val] := by
  induction segments with
  | nil => rfl
  | cons s segments ih =>
      rw [List.forall_mem_cons] at h
      rw [List.findSome?_cons, List.findSome?_cons, h.1.region]
      rcases s.redirect j with _ | f
      · exact ih h.2
      · rfl

/-- In a line with its redirections in place every command has them in order. -/
theorem Pipeline.Placed.ordered {p : Pipeline} (h : p.Placed) : ∀ s ∈ p.segments, s.Ordered := by
  intro s hs
  obtain ⟨k, hk⟩ := List.getElem?_of_mem hs
  exact (h k s hk).2.2

/-- The files that are parsed from a pipeline whose redirections stand in their place. -/
theorem ParsedSegments.file_placed {p : Pipeline} {q : Parsed}
    (h : ParsedSegments 0 p.segments ⟨none, none, none⟩ q) (hp : p.Placed) (j : Redirection) :
    q.file j = (p.file j).map fun f => some f.val := by
  rw [h.file_eq, findSome?_region hp.ordered, Pipeline.file, Option.map_map]
  congr 1
  funext f
  exact congrArg some (List.append_nil f.val)

/-- **Parsing inverts rendering**: the commands of a line have the argument vectors and the numbers of
arguments that were written, and the redirections the files. -/
theorem parse_render (l : Line) :
    (parseLine (l.render ++ [terminator])).map Parsed.view = some l.view := by
  obtain ⟨q, hq, hparse⟩ := parseLine_spec l.toPipeline
  have hordered := l.placed.ordered
  rw [hparse, if_pos fun s hs => (hordered s hs).fits, Option.map_some, Option.some_inj]
  have hargvs : q.argvs = l.toPipeline.view.argvs := by
    rw [hq.argvs]
    apply List.map_congr_left
    intro s hs
    rw [(hordered s hs).own, List.map_map]
    rfl
  have hargNums : q.commands.map Command.argNum = l.toPipeline.view.argNums := by
    rw [hq.argNums]
    apply List.map_congr_left
    intro s hs
    rw [(hordered s hs).own, List.length_map]
  unfold Parsed.view Pipeline.view
  rw [hargvs, hargNums, hq.file_placed l.placed, hq.file_placed l.placed, hq.file_placed l.placed]
  rfl

end SystemProgrammingLab.Pa2
