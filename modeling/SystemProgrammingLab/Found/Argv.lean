import Mathlib.Data.List.Induction
import SystemProgrammingLab.Found.CString
import SystemProgrammingLab.Found.Words

/-!
# Argument vectors

An array of `char *` is the list of its cells, each an offset into a buffer or `none` (`NULL`). `argv` reads such
an array: the strings in front of the first `NULL`. `argLoop` is the loop that takes the tokens of a text one by one
and stores them, until there are no more or one of them ends the loop. What it stores and what it leaves of the
text is said in terms of the words of the text (`argLoop_spec`); with more words than cells it writes outside of the
array (`argLoop_overflow`).
-/

namespace SystemProgrammingLab.Found

/-! ## Words around a character -/

section words

variable {d : Char} {s t : List Char}

/-- The tokens of `strtok` are the words between the separators. -/
theorem splitText_eq_words (d : Char) (s : List Char) : splitText d s = words (· == d) s := by
  unfold splitText words List.splitOn
  congr 1
  funext w
  cases w <;> rfl

/-- A delimiter ends a word. -/
theorem splitText_append_sep (d : Char) (s t : List Char) :
    splitText d (s ++ d :: t) = splitText d s ++ splitText d t := by
  have h := words_append_sep (p := fun x => x == d) (c := d) (by simp) s t
  rwa [← splitText_eq_words, ← splitText_eq_words, ← splitText_eq_words] at h

/-- No token is empty. -/
theorem ne_nil_of_mem_splitText {w : List Char} (hw : w ∈ splitText d s) : w ≠ [] := by
  have h := (List.mem_filter.mp hw).2
  simpa using h

/-- A text without delimiter is a word, or nothing. -/
theorem splitText_of_notMem (hs : d ∉ s) : splitText d s = if s = [] then [] else [s] := by
  split_ifs with hnil
  · rw [hnil, splitText_nil]
  · exact splitText_token ⟨hnil, hs⟩

/-- No delimiter is in a word. -/
theorem notMem_of_mem_splitText {w : List Char} (hw : w ∈ splitText d s) : d ∉ w := by
  induction hn : s.length using Nat.strong_induction_on generalizing s with
  | _ n ih =>
      subst hn
      by_cases hd : d ∈ s
      · obtain ⟨pre, post, rfl⟩ := List.append_of_mem hd
        rw [splitText_append_sep, List.mem_append] at hw
        rcases hw with hw | hw
        · exact ih _ (by simp) hw rfl
        · exact ih _ (by simp only [List.length_append, List.length_cons]; omega) hw rfl
      · rw [splitText_of_notMem hd] at hw
        split_ifs at hw with hnil
        · exact absurd hw List.not_mem_nil
        · rwa [List.mem_singleton.mp hw]

/-- The text is its own first word exactly when it has no delimiter. -/
theorem head_splitText_eq_self (hs : s ≠ []) : (splitText d s).head? = some s ↔ d ∉ s := by
  constructor
  · intro h
    exact notMem_of_mem_splitText (List.mem_of_head? h)
  · intro hd
    rw [splitText_token ⟨hs, hd⟩]
    rfl

/-- The text behind the last delimiter. -/
theorem exists_last_word (d : Char) (s : List Char) : ∃ run ws, d ∉ run ∧
    splitText d s = ws ++ splitText d run ∧ (∀ t, splitText d (s ++ t) = ws ++ splitText d (run ++ t)) ∧
      (run = [] ↔ s = [] ∨ s.getLast? = some d) := by
  induction s using List.reverseRecOn with
  | nil => exact ⟨[], [], by simp, rfl, fun t => rfl, by simp⟩
  | append_singleton s c ih =>
      obtain ⟨run, ws, hrun, hs, happ, -⟩ := ih
      by_cases hc : c = d
      · subst hc
        refine ⟨[], splitText c s, by simp, ?_, ?_, by simp⟩
        · exact splitText_append_sep c s []
        · intro t
          rw [List.append_assoc, List.singleton_append, splitText_append_sep, List.nil_append]
      · refine ⟨run ++ [c], ws, ?_, happ [c], ?_, by simp [hc]⟩
        · rw [List.mem_append, List.mem_singleton, not_or]
          exact ⟨hrun, fun h => hc h.symm⟩
        · intro t
          rw [List.append_assoc, happ, List.append_assoc]

/-- The text in front of the first delimiter. -/
theorem exists_first_word (d : Char) (s : List Char) : ∃ run ws, d ∉ run ∧
    splitText d s = splitText d run ++ ws ∧ (∀ t, d ∉ t → splitText d (t ++ s) = splitText d (t ++ run) ++ ws) ∧
      (run = [] ↔ s = [] ∨ s.head? = some d) := by
  have hsplit := List.takeWhile_append_dropWhile (p := (· ≠ d)) (l := s)
  have hrun : d ∉ s.takeWhile (· ≠ d) := fun hmem => by simpa using List.mem_takeWhile_imp hmem
  have hhead := List.head?_dropWhile_not (· ≠ d) s
  rcases hdrop : s.dropWhile (· ≠ d) with _ | ⟨c, u⟩
  · rw [hdrop, List.append_nil] at hsplit
    rw [hsplit] at hrun
    refine ⟨s, [], hrun, by rw [List.append_nil], fun t _ => by rw [List.append_nil], ?_⟩
    constructor
    · exact .inl
    · rintro (h | h)
      · exact h
      · exact absurd (List.mem_of_head? h) hrun
  · rw [hdrop] at hsplit hhead
    obtain rfl : c = d := by simpa using hhead
    refine ⟨s.takeWhile (· ≠ c), splitText c u, hrun, ?_, ?_, ?_⟩
    · conv_lhs => rw [← hsplit]
      exact splitText_append_sep c _ u
    · intro t _
      conv_lhs => rw [← hsplit]
      rw [← List.append_assoc]
      exact splitText_append_sep c _ u
    · rw [← hsplit]
      generalize s.takeWhile (· ≠ c) = run at hrun
      rcases run with _ | ⟨b, r⟩
      · simp
      · have hb : b ≠ c := by
          rintro rfl
          exact hrun List.mem_cons_self
        simp [hb]

/-- The words of a text around one of its characters: those in front of the word that the character is in, those
behind it, and this word. -/
theorem exists_words_around {c : Char} (hc : c ≠ d) (s t : List Char) : ∃ front run run' back,
    splitText d s = front ++ (if run = [] then [] else [run]) ∧
      splitText d t = (if run' = [] then [] else [run']) ++ back ∧
      splitText d (s ++ c :: t) = front ++ (run ++ c :: run') :: back ∧
      (run = [] ↔ s = [] ∨ s.getLast? = some d) ∧ (run' = [] ↔ t = [] ∨ t.head? = some d) := by
  obtain ⟨run, front, hrun, hs, happ, hlast⟩ := exists_last_word d s
  obtain ⟨run', back, hrun', ht, happ', hfirst⟩ := exists_first_word d t
  refine ⟨front, run, run', back, ?_, ?_, ?_, hlast, hfirst⟩
  · rw [hs, splitText_of_notMem hrun]
  · rw [ht, splitText_of_notMem hrun']
  · have hsnoc : d ∉ run ++ [c] := by
      rw [List.mem_append, List.mem_singleton, not_or]
      exact ⟨hrun, fun h => hc h.symm⟩
    have hword : IsToken d (run ++ [c] ++ run') := by
      refine ⟨by simp, ?_⟩
      rw [List.mem_append, not_or]
      exact ⟨hsnoc, hrun'⟩
    have hinner := happ' (run ++ [c]) hsnoc
    rw [splitText_token hword] at hinner
    rw [happ, ← List.singleton_append, ← List.append_assoc run, hinner, List.append_assoc run]
    rfl

end words

/-! ## Arrays of pointers -/

/-- `cells[i] = v` -/
def setCell (cells : List (Option Nat)) (i : Nat) (v : Option Nat) : Option (List (Option Nat)) :=
  if i < cells.length then some (cells.set i v) else none

/-- The strings that the pointers in front of the first `NULL` point to. -/
def argv (buf : List Char) : List (Option Nat) → Option (List (List Char))
  | [] => none
  | none :: _ => some []
  | some p :: cells => do
      let w ← textAt buf p
      let ws ← argv buf cells
      return w :: ws

section cells

variable {buf : List Char} {cells behind : List (Option Nat)} {starts : List Nat} {ws : List (List Char)}

/-- The cell behind those that are done is set. -/
theorem setCell_append {i : Nat} {done : List (Option Nat)} {cell v : Option Nat} (hi : done.length = i) :
    setCell (done ++ cell :: behind) i v = some (done ++ v :: behind) := by
  subst hi
  rw [setCell, if_pos (by simp), List.set_append_right _ _ le_rfl, Nat.sub_self]
  rfl

/-- The texts at the pointers, up to `NULL`. -/
theorem argv_append (h : starts.map (textAt buf) = ws.map some) :
    argv buf (starts.map some ++ none :: behind) = some ws := by
  induction starts generalizing ws with
  | nil =>
      obtain rfl := List.map_eq_nil_iff.mp h.symm
      rfl
  | cons p starts ih =>
      obtain ⟨w, ws', rfl, hw, hrest⟩ := List.map_eq_cons_iff.mp h.symm
      rw [List.map_cons, List.cons_append, argv, ih hrest.symm, ← hw]
      rfl

/-- The first cell is not `NULL` if there is a string. -/
theorem exists_first_of_argv (h : argv buf cells = some ws) (hne : ws ≠ []) :
    ∃ p, cells.head? = some (some p) := by
  rcases cells with _ | ⟨_ | p, cells⟩
  · cases h
  · exact absurd (Option.some.inj h).symm hne
  · exact ⟨p, rfl⟩

/-- Without a string it is `NULL`. -/
theorem head_of_argv_nil (h : argv buf cells = some []) : cells.head? = some none := by
  rcases cells with _ | ⟨_ | p, cells⟩
  · cases h
  · rfl
  · rw [argv] at h
    obtain ⟨w, -, hws⟩ := Option.bind_eq_some_iff.mp h
    obtain ⟨ws, -, hcons⟩ := Option.bind_eq_some_iff.mp hws
    cases hcons

end cells

/-! ## Storing the tokens -/

/-- `while ((ptr = strtok_r(.., {d}, &next)) != NULL && !stops(ptr)) cells[i++] = ptr;`, with the number of pointers
stored and the offset in `next`. -/
def argLoop (d : Char) (stops : List Char → Nat → Option Bool) (cells : List (Option Nat)) (i : Nat)
    (buf : List Char) (o : Nat) : Option (List (Option Nat) × Nat × List Char × Nat) :=
  match h : strtok d buf o with
  | none => none
  | some (none, buf', next) => some (cells, i, buf', next)
  | some (some ptr, buf', next) =>
      have := strtok_progress h
      (stops buf' ptr).bind fun stop =>
        if stop then some (cells, i, buf', next)
        else (setCell cells i (some ptr)).bind fun cells => argLoop d stops cells (i + 1) buf' next
termination_by buf.length - o
decreasing_by exact this

/-- The loop, then `cells[i] = NULL`. -/
def fillArgs (d : Char) (stops : List Char → Nat → Option Bool) (cells : List (Option Nat)) (buf : List Char)
    (o : Nat) : Option (List (Option Nat) × List Char × Nat) := do
  let (cells, i, buf, next) ← argLoop d stops cells 0 buf o
  let cells ← setCell cells i none
  return (cells, buf, next)

section loop

variable {d : Char} {stops : List Char → Nat → Option Bool} {cells behind : List (Option Nat)} {i o : Nat}
  {buf buf' s : List Char}

/-- The loop ends when no token is found. -/
theorem argLoop_none {next : Nat} (h : strtok d buf o = some (none, buf', next)) :
    argLoop d stops cells i buf o = some (cells, i, buf', next) := by
  rw [argLoop.eq_def]
  split
  · rename_i heq
    rw [h] at heq
    cases heq
  · rename_i heq
    rw [h] at heq
    cases heq
    rfl
  · rename_i heq
    rw [h] at heq
    cases heq

/-- A token is stored, unless it stops the loop. -/
theorem argLoop_some {ptr next : Nat} (h : strtok d buf o = some (some ptr, buf', next)) :
    argLoop d stops cells i buf o = (stops buf' ptr).bind fun stop =>
      if stop then some (cells, i, buf', next)
      else (setCell cells i (some ptr)).bind fun cells => argLoop d stops cells (i + 1) buf' next := by
  rw [argLoop.eq_def]
  split
  · rename_i heq
    rw [h] at heq
    cases heq
  · rename_i heq
    rw [h] at heq
    cases heq
  · rename_i heq
    rw [h] at heq
    cases heq
    rfl

/-- Nothing was written. -/
theorem SameOutside.eq (h : SameOutside o o buf buf') : buf' = buf := by
  apply List.ext_getElem?
  intro j
  exact h.2 j (by omega)

/-- A token stays when only the rest of the text is written to. -/
theorem Token.stays {start next : Nat} {token rest buf'' : List Char}
    (h : Token d buf o s start buf' next token rest)
    (hsame : SameOutside next (next + rest.length) buf' buf'') : textAt buf'' start = some token := by
  rcases h.stop_le with hlt | rfl
  · exact hsame.textAt h.textAt_start (.inl hlt)
  · rw [hsame.eq, h.textAt_start]

/-- What the loop leaves: the pointers `starts`, which point to the words `ws` as long as only the rest of the text
is written to, and the rest of the text at `next`. -/
structure Stored (buf : List Char) (o : Nat) (s : List Char) (starts : List Nat) (ws : List (List Char))
    (buf' : List Char) (next : Nat) (rest : List Char) : Prop where
  texts : ∀ buf'', SameOutside next (next + rest.length) buf' buf'' → starts.map (textAt buf'') = ws.map some
  textAt_next : textAt buf' next = some rest
  le : o ≤ next
  next_eq : next + rest.length ≤ o + s.length
  same : SameOutside o (o + s.length) buf buf'

/-- Every word has a pointer. -/
theorem Stored.length_eq {starts : List Nat} {ws : List (List Char)} {next : Nat} {rest : List Char}
    (h : Stored buf o s starts ws buf' next rest) : starts.length = ws.length := by
  have hlen := congrArg List.length (h.texts buf' (.refl _ _ _))
  rwa [List.length_map, List.length_map] at hlen

/-- The next token is the next word. -/
theorem strtok_of_cons {w : List Char} {ws : List (List Char)} (h : textAt buf o = some s)
    (hs : splitText d s = w :: ws) : ∃ start buf' next rest, strtok d buf o = some (some start, buf', next) ∧
      Token d buf o s start buf' next w rest ∧ splitText d rest = ws := by
  have hdrop : s.dropWhile (· = d) ≠ [] := by
    intro hnil
    rw [(strtok_none h hnil).2] at hs
    cases hs
  obtain ⟨start, buf', next, token, rest, hcall, htoken⟩ := strtok_some h hdrop
  have hsplit := htoken.splitText_eq
  rw [hs, List.cons.injEq] at hsplit
  obtain ⟨rfl, rfl⟩ := hsplit
  exact ⟨start, buf', next, rest, hcall, htoken, rfl⟩

/-- Without a word there is no token. -/
theorem strtok_of_nil (h : textAt buf o = some s) (hs : splitText d s = []) :
    strtok d buf o = some (none, buf, o + s.length) := by
  have hdrop : s.dropWhile (· = d) = [] := by
    by_contra hne
    obtain ⟨_, _, _, _, _, _, htoken⟩ := strtok_some h hne
    rw [htoken.splitText_eq] at hs
    cases hs
  exact (strtok_none h hdrop).1

variable {stop : List Char → Bool} {w : List Char} {ws : List (List Char)}

/-- Without a word the loop is over. -/
theorem argLoop_nil (h : textAt buf o = some s) (hs : splitText d s = []) :
    argLoop d stops cells i buf o = some (cells, i, buf, o + s.length) := argLoop_none (strtok_of_nil h hs)

/-- A round takes the next word, which ends the loop or is stored. -/
theorem argLoop_cons (hstops : ∀ {buf p w}, textAt buf p = some w → w ≠ [] → stops buf p = some (stop w))
    (h : textAt buf o = some s) (hs : splitText d s = w :: ws) :
    ∃ start buf' next rest, Token d buf o s start buf' next w rest ∧ splitText d rest = ws ∧ ∀ cells i,
      argLoop d stops cells i buf o =
        if stop w then some (cells, i, buf', next)
        else (setCell cells i (some start)).bind fun cells => argLoop d stops cells (i + 1) buf' next := by
  obtain ⟨start, buf', next, rest, hcall, htoken, hrest⟩ := strtok_of_cons h hs
  have hne : w ≠ [] := ne_nil_of_mem_splitText (hs ▸ List.mem_cons_self)
  refine ⟨start, buf', next, rest, htoken, hrest, ?_⟩
  intro cells i
  rw [argLoop_some hcall, hstops htoken.textAt_start hne, Option.bind_some]

/-- The loop stores the words in front of the first one that ends it, and leaves those behind that one. -/
theorem argLoop_spec (hstops : ∀ {buf p w}, textAt buf p = some w → w ≠ [] → stops buf p = some (stop w)) :
    ∀ {s buf : List Char} {o i : Nat} (done : List (Option Nat)) {behind : List (Option Nat)},
      textAt buf o = some s → done.length = i → splitText d s = ws →
      (ws.takeWhile (!stop ·)).length ≤ behind.length →
      ∃ starts buf' next rest,
        argLoop d stops (done ++ behind) i buf o =
          some (done ++ starts.map some ++ behind.drop starts.length, i + starts.length, buf', next) ∧
        Stored buf o s starts (ws.takeWhile (!stop ·)) buf' next rest ∧
        splitText d rest = (ws.dropWhile (!stop ·)).tail := by
  induction ws with
  | nil =>
      intro s buf o i done behind h hi hs _
      have hend := textAt_add h le_rfl
      rw [List.drop_length] at hend
      refine ⟨[], buf, o + s.length, [], ?_, ⟨fun _ _ => rfl, hend, by omega, by simp, .refl _ _ _⟩, rfl⟩
      rw [argLoop_nil h hs]
      simp
  | cons w ws ih =>
      intro s buf o i done behind h hi hs hlen
      obtain ⟨start, buf₁, next, rest, htoken, hrest, hround⟩ := argLoop_cons hstops h hs
      have hstart := htoken.start_lt
      have hnext := htoken.next_eq
      rw [hround]
      by_cases hstop : stop w = true
      · -- the word ends the loop
        refine ⟨[], buf₁, next, rest, ?_, ⟨?_, htoken.textAt_next, by omega, hnext, htoken.same⟩, ?_⟩
        · rw [if_pos hstop]
          simp
        · simp [hstop]
        · simp [hstop, hrest]
      · -- the word is stored
        have htake : (w :: ws).takeWhile (!stop ·) = w :: ws.takeWhile (!stop ·) :=
          List.takeWhile_cons_of_pos (by simpa using hstop)
        have hdropWhile : (w :: ws).dropWhile (!stop ·) = ws.dropWhile (!stop ·) :=
          List.dropWhile_cons_of_pos (by simpa using hstop)
        rw [htake, List.length_cons] at hlen
        rw [htake, hdropWhile, if_neg hstop]
        obtain ⟨cell, behind, rfl⟩ := List.exists_cons_of_length_pos (l := behind) (by omega)
        have hi' : (done ++ [some start]).length = i + 1 := by rw [List.length_append, hi]; rfl
        obtain ⟨starts, buf', next', rest', hrun, hstored, hsplit⟩ :=
          ih (done ++ [some start]) htoken.textAt_next hi' hrest (Nat.le_of_succ_le_succ hlen)
        have hle := hstored.le
        have hle' := hstored.next_eq
        refine ⟨start :: starts, buf', next', rest', ?_, ⟨?_, hstored.textAt_next, by omega, by omega,
          htoken.same.trans hstored.same (by omega) (by omega)⟩, hsplit⟩
        · rw [setCell_append hi, Option.bind_some]
          rw [List.append_assoc done] at hrun
          simp only [List.singleton_append] at hrun
          rw [hrun]
          simp [Nat.add_assoc, Nat.add_comm 1]
        · intro buf'' hsame
          have hbehind : SameOutside next (next + rest.length) buf₁ buf'' :=
            hstored.same.trans hsame (by omega) (by omega)
          rw [List.map_cons, List.map_cons, htoken.stays hbehind, hstored.texts buf'' hsame]

/-- With more words than cells the loop writes outside of the array. -/
theorem argLoop_overflow (hstops : ∀ {buf p w}, textAt buf p = some w → w ≠ [] → stops buf p = some (stop w)) :
    ∀ {s buf : List Char} {o i : Nat} (done : List (Option Nat)) {behind : List (Option Nat)},
      textAt buf o = some s → done.length = i → splitText d s = ws →
      behind.length < (ws.takeWhile (!stop ·)).length →
      argLoop d stops (done ++ behind) i buf o = none := by
  induction ws with
  | nil =>
      intro s buf o i done behind _ _ _ hlen
      exact absurd hlen (Nat.not_lt_zero _)
  | cons w ws ih =>
      intro s buf o i done behind h hi hs hlen
      obtain ⟨start, buf₁, next, rest, htoken, hrest, hround⟩ := argLoop_cons hstops h hs
      rw [List.takeWhile_cons] at hlen
      split_ifs at hlen with hstop
      · rw [hround, if_neg (by simpa using hstop)]
        rcases behind with _ | ⟨cell, behind⟩
        · rw [setCell, if_neg (by simp [hi])]
          rfl
        · have hi' : (done ++ [some start]).length = i + 1 := by rw [List.length_append, hi]; rfl
          have hrun := ih (done ++ [some start]) htoken.textAt_next hi' hrest (Nat.lt_of_succ_lt_succ hlen)
          rw [setCell_append hi, Option.bind_some, ← hrun, List.append_assoc]
          rfl
      · exact absurd hlen (Nat.not_lt_zero _)

/-- When the words fit, with a cell for the `NULL`, the array holds them. -/
theorem fillArgs_spec (hstops : ∀ {buf p w}, textAt buf p = some w → w ≠ [] → stops buf p = some (stop w))
    (h : textAt buf o = some s) (hlen : ((splitText d s).takeWhile (!stop ·)).length < cells.length) :
    ∃ starts behind buf' next rest,
      fillArgs d stops cells buf o = some (starts.map some ++ none :: behind, buf', next) ∧
      Stored buf o s starts ((splitText d s).takeWhile (!stop ·)) buf' next rest ∧
      splitText d rest = ((splitText d s).dropWhile (!stop ·)).tail := by
  obtain ⟨starts, buf', next, rest, hrun, hstored, hsplit⟩ := argLoop_spec hstops [] h List.length_nil rfl hlen.le
  have hlt : starts.length < cells.length := by rwa [hstored.length_eq]
  refine ⟨starts, cells.drop (starts.length + 1), buf', next, rest, ?_, hstored, hsplit⟩
  rw [List.nil_append, List.nil_append, Nat.zero_add, List.drop_eq_getElem_cons hlt] at hrun
  unfold fillArgs
  rw [hrun, Option.bind_eq_bind, Option.bind_some]
  have hdone : (starts.map some).length = starts.length := List.length_map some
  simp only [setCell_append hdone, Option.bind_eq_bind, Option.bind_some]
  rfl

/-- When they do not fit it writes outside of the array. -/
theorem fillArgs_overflow (hstops : ∀ {buf p w}, textAt buf p = some w → w ≠ [] → stops buf p = some (stop w))
    (h : textAt buf o = some s) (hlen : cells.length ≤ ((splitText d s).takeWhile (!stop ·)).length) :
    fillArgs d stops cells buf o = none := by
  unfold fillArgs
  rcases hlen.lt_or_eq with hlt | heq
  · have hrun := argLoop_overflow hstops [] h List.length_nil rfl hlt
    rw [List.nil_append] at hrun
    rw [hrun]
    rfl
  · -- only the `NULL` is outside
    obtain ⟨starts, buf', next, rest, hrun, hstored, -⟩ := argLoop_spec hstops [] h List.length_nil rfl heq.ge
    have hall : starts.length = cells.length := by rw [hstored.length_eq, ← heq]
    rw [List.nil_append, List.nil_append, Nat.zero_add, hall, List.drop_length, List.append_nil] at hrun
    rw [hrun, Option.bind_eq_bind, Option.bind_some]
    simp only [setCell, List.length_map, hall, Nat.lt_irrefl, if_false]
    rfl

end loop

end SystemProgrammingLab.Found
