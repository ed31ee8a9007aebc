import SystemProgrammingLab.Found.Run
import SystemProgrammingLab.Pa1.Lines

/-!
# The main loop: a query is answered by itself

`main` builds the index once and then answers one query after the other. Between the queries it
keeps the input list, the index and the offset of the descriptor, and each query finds a stack and
a heap with other contents (`Memory`).

`reply` is what a query is answered, as a function of the file, the lines of the index and the bytes
of the query, and `iterate_eq` says that one round of the loop answers it, from every state that
holds the index and some list of words. So the answer of the last query of a run is that of the
same query alone (`output_eq_alone`).

Source: `pa1/main.c`
-/

namespace SystemProgrammingLab.Pa1

open SystemProgrammingLab.Found

/-! ## The loop -/

/-- The memory a query finds: the stack under the buffer of `resolve_input`, and the contents of
fresh objects. -/
structure Memory where
  stale : Fin bufSize → Char
  fill : Nat → Char

/-- The variables of `main`, with the offset of the descriptor; `running` is false behind the loop. Source:
`main` -/
structure MainState where
  pos : Nat
  indexList : LinkedList Line
  inputList : InputList
  running : Bool

/-- Before the loop: the index is built, with at most `fuel` reads of the file. Source: `main` -/
def load (file : List Char) (fuel : Nat) : Option MainState :=
  (readFile file fuel .init).map fun st => ⟨st.pos, st.index, .empty, true⟩

/-- The handler of a mode: what it writes, and the new offset of the descriptor. Source: `main`, the `switch` -/
def handle (fill : Nat → Char) (file : List Char) (indexList : LinkedList Line)
    (inputList : InputList) (pos : Nat) : Mode → Option (List Out × Nat)
  | .sword => handleSword fill file indexList inputList pos
  | .mword => handleMword fill file indexList inputList pos
  | .cword => handleCword fill file indexList inputList pos
  | .regexp => handleRegexp fill file indexList inputList pos
  | .exit => some ([], pos)

/-- The scan of a line by the handler of a mode, with the words it loads from the input list.
Source: `handle_sword`, `handle_mword`, `handle_cword`, `handle_regexp` -/
def modeScan (fill : Nat → Char) (inputList : InputList) :
    Mode → Option (Nat → List Char → Option (List Out))
  | .sword => do
      let toFind ← inputList.heap.load inputList.list.head
      return fun lineNum content => swordHits fill toFind.val.content content lineNum content
  | .mword => some fun lineNum content =>
      (allIncluded fill content inputList.heap inputList.list.num.toNat inputList.list.head).bind
        fun all => if all then writeLine lineNum else some []
  | .cword => do
      let toFind ← inputList.heap.load inputList.list.head
      return fun lineNum content => (stringlen toFind.val.content).bind fun len =>
        cwordHits toFind.val.content len content lineNum content
  | .regexp => do
      let word1 ← inputList.heap.load inputList.list.head
      let word2 ← inputList.heap.load inputList.list.tail
      return fun lineNum content =>
        regexpHits fill word1.val.content word2.val.content lineNum content
  | .exit => none

section modeScan

variable {inputList : InputList} (fill : Nat → Char)

/-- The scan for one word. -/
theorem modeScan_sword {word : List Char} (hinput : inputList.Holds (numbered 0 [word])) :
    modeScan fill inputList .sword = some fun lineNum content =>
      swordHits fill (word ++ [nul]) content lineNum content := by
  obtain ⟨node, hload, hval⟩ := hinput.head
  rw [modeScan, hload]
  simp only [Option.bind_eq_bind, Option.bind_some, hval]
  rfl

/-- The scan for a phrase. -/
theorem modeScan_cword {sub : List Char} (hinput : inputList.Holds (numbered 0 [sub])) :
    modeScan fill inputList .cword = some fun lineNum content =>
      (stringlen (sub ++ [nul])).bind fun len =>
        cwordHits (sub ++ [nul]) len content lineNum content := by
  obtain ⟨node, hload, hval⟩ := hinput.head
  rw [modeScan, hload]
  simp only [Option.bind_eq_bind, Option.bind_some, hval]
  rfl

/-- The scan for one word behind another: `word2` is the tail of the input list. -/
theorem modeScan_regexp {word1 word2 : List Char}
    (hinput : inputList.Holds (numbered 0 [word1, word2])) :
    modeScan fill inputList .regexp = some fun lineNum content =>
      regexpHits fill (word1 ++ [nul]) (word2 ++ [nul]) lineNum content := by
  have hsnoc : inputList.Holds ([.ofText 1 word1] ++ [.ofText 2 word2]) := hinput
  obtain ⟨node1, hload1, hval1⟩ := hinput.head
  obtain ⟨node2, hload2, hval2⟩ := hsnoc.tail
  rw [modeScan, hload1, hload2]
  simp only [Option.bind_eq_bind, Option.bind_some, hval1, hval2]
  rfl

end modeScan

/-- A handler is a search with its scan. -/
theorem handle_eq_search {file : List Char} {indexList : LinkedList Line} {inputList : InputList}
    (fill : Nat → Char) {mode : Mode} (hexit : mode ≠ .exit) (pos : Nat) :
    handle fill file indexList inputList pos mode =
      (modeScan fill inputList mode).bind (search fill file indexList pos) := by
  cases mode with
  | sword =>
      show handleSword fill file indexList inputList pos = _
      unfold handleSword modeScan
      rcases inputList.heap.load inputList.list.head with _ | toFind <;> rfl
  | mword => rfl
  | cword =>
      show handleCword fill file indexList inputList pos = _
      unfold handleCword modeScan
      rcases inputList.heap.load inputList.list.head with _ | toFind <;> rfl
  | regexp =>
      show handleRegexp fill file indexList inputList pos = _
      unfold handleRegexp modeScan
      rcases inputList.heap.load inputList.list.head with _ | word1
      · rfl
      · rcases inputList.heap.load inputList.list.tail with _ | word2 <;> rfl
  | exit => exact absurd rfl hexit

/-- One round of the loop: a read of the standard input, and what is written. Source: `main`, the loop -/
def iterate (file : List Char) (st : MainState) (input : Memory × ReadResult bufSize Char) :
    Option (MainState × List Out) :=
  if st.running then do
    let (mode, inputList) ← resolveInput input.1.stale input.1.fill input.2 st.inputList
    let (out, pos) ← handle input.1.fill file st.indexList inputList st.pos mode
    return (⟨pos, st.indexList, inputList, mode ≠ .exit⟩, out)
  else none

/-! ## The answer to a query -/

/-- The mode and the words of a read, and what is written. -/
def reply (file : List Char) (lines : List Line) (r : ReadResult bufSize Char) :
    Option (Mode × List (List Char) × List Out) :=
  if r.bytes = [] then none
  else (parse (text r.bytes.dropLast)).bind fun (mode, words) =>
    if mode = .exit then some (mode, words, [])
    else (answer file lines mode words).map fun out => (mode, words, out)

/-- The index holds these lines of the file. -/
def Loaded (file : List Char) (lines : List Line) (indexList : LinkedList Line) : Prop :=
  indexList.Holds lines ∧ ∃ fin, Contiguous 0 lines fin ∧ fin ≤ file.length

/-- What is loaded is an index of the file; no query was read yet. -/
theorem load_loaded {file : List Char} {fuel : Nat} {st : MainState}
    (h : load file fuel = some st) :
    (∃ lines, Loaded file lines st.indexList) ∧ st.inputList.Holds [] ∧ st.running = true := by
  obtain ⟨loaded, hread, rfl⟩ := Option.map_eq_some_iff.mp h
  obtain ⟨⟨lines, hholds, hcont⟩, hle⟩ := readFile_indexed hread
  exact ⟨⟨lines, hholds, loaded.offset, hcont, hle⟩, LinkedList.holds_empty _, rfl⟩

section query

variable {file : List Char} {lines : List Line} {indexList : LinkedList Line}

/-- The handler of the mode writes the answer to the query, wherever the descriptor stood. -/
theorem handle_eq (fill : Nat → Char) (hindex : Loaded file lines indexList) {s : List Char}
    (hs : nul ∉ s) {mode : Mode} {words : List (List Char)} (hparse : parse s = some (mode, words))
    (hexit : mode ≠ .exit) {inputList : InputList}
    (hinput : inputList.Holds (numbered 0 words)) :
    ∃ fin, ∀ pos, handle fill file indexList inputList pos mode =
      (answer file lines mode words).map fun out => (out, fin) := by
  obtain ⟨hholds, fin, hcont, hfin⟩ := hindex
  refine ⟨fin, ?_⟩
  intro pos
  rcases parse_cases hparse with rfl | ⟨rfl, rfl⟩ | ⟨rfl, rfl⟩ | ⟨asterisk, hsuffix, rfl, rfl⟩ |
    ⟨rfl, rfl⟩
  · exact absurd rfl hexit
  · exact handleSword_text fill hholds hcont hfin hs hinput pos
  · have hwords : ∀ w ∈ pieces s, nul ∉ w := fun w hw h => hs (subset_of_mem_pieces hw h)
    exact handleMword_text fill hholds hcont hfin hwords hinput pos
  · have hbefore : nul ∉ s.take (s.length - asterisk.length) := fun h =>
      hs (List.take_subset _ _ h)
    have hbehind : nul ∉ asterisk.tail := fun h =>
      hs (hsuffix.subset ((List.tail_suffix _).subset h))
    exact handleRegexp_text fill hholds hcont hfin hbefore hbehind hinput pos
  · have hphrase : nul ∉ s.tail.dropLast := fun h =>
      hs ((List.tail_suffix _).subset ((List.dropLast_prefix _).subset h))
    exact handleCword_text fill hholds hcont hfin hphrase hinput pos

/-- One round of the loop answers the query, and leaves its words in the input list and nothing
else. -/
theorem iterate_eq (st : MainState) (hrunning : st.running = true)
    (hindex : Loaded file lines st.indexList) {ws : List Word} (hinput : st.inputList.Holds ws)
    (m : Memory) (r : ReadResult bufSize Char) :
    match reply file lines r with
    | none => iterate file st (m, r) = none
    | some (mode, words, out) => ∃ st', iterate file st (m, r) = some (st', out) ∧
        st'.indexList = st.indexList ∧ st'.inputList.Holds (numbered 0 words) ∧
        st'.running = decide (mode ≠ .exit) := by
  have hresolve := resolveInput_eq m.stale m.fill r hinput
  unfold iterate reply
  rw [if_pos hrunning]
  by_cases hempty : r.bytes = []
  · rw [if_pos hempty] at hresolve ⊢
    have hnone : resolveInput m.stale m.fill r st.inputList = none := hresolve
    rw [hnone]
    rfl
  · rw [if_neg hempty] at hresolve ⊢
    rcases hparse : parse (text r.bytes.dropLast) with _ | ⟨mode, words⟩
    · rw [hparse] at hresolve
      have hnone : resolveInput m.stale m.fill r st.inputList = none := hresolve
      rw [hnone]
      rfl
    · rw [hparse] at hresolve
      obtain ⟨inputList, hrun, hwords⟩ := hresolve
      simp only [Option.bind_some, hrun, Option.bind_eq_bind]
      by_cases hexit : mode = .exit
      · subst hexit
        exact ⟨⟨st.pos, st.indexList, inputList, false⟩, rfl, rfl, hwords, rfl⟩
      · obtain ⟨fin, hhandle⟩ := handle_eq m.fill hindex (nul_notMem_text _) hparse hexit hwords
        rw [if_neg hexit, hhandle st.pos]
        rcases answer file lines mode words with _ | out
        · rfl
        · exact ⟨⟨fin, st.indexList, inputList, mode ≠ .exit⟩, rfl, rfl, hwords, rfl⟩

/-- What a round that is defined writes is the reply to its query. -/
theorem reply_of_iterate {st st' : MainState} {m : Memory} {r : ReadResult bufSize Char}
    {out : List Out} (h : iterate file st (m, r) = some (st', out))
    (hindex : Loaded file lines st.indexList) {ws : List Word} (hinput : st.inputList.Holds ws) :
    ∃ mode words, reply file lines r = some (mode, words, out) ∧
      st'.indexList = st.indexList ∧ st'.inputList.Holds (numbered 0 words) := by
  have hrunning : st.running = true := by
    by_contra hstopped
    rw [iterate, if_neg hstopped] at h
    cases h
  have hround := iterate_eq st hrunning hindex hinput m r
  rcases hreply : reply file lines r with _ | ⟨mode, words, out'⟩
  · rw [hreply, h] at hround
    cases hround
  · rw [hreply] at hround
    obtain ⟨st₁, hiterate, hsame, hwords, -⟩ := hround
    rw [h] at hiterate
    cases hiterate
    exact ⟨mode, words, rfl, hsame, hwords⟩

end query

/-! ## Runs of the program -/

/-- The rounds of the loop keep the index, and a list of words. -/
theorem exec_loaded {file : List Char} {lines : List Line} {st st' : MainState}
    {inputs : List (Memory × ReadResult bufSize Char)} {outs : List (List Out)}
    (hrun : exec (iterate file) st inputs = some (st', outs))
    (hindex : Loaded file lines st.indexList) (hinput : ∃ ws, st.inputList.Holds ws) :
    st'.indexList = st.indexList ∧ ∃ ws, st'.inputList.Holds ws := by
  refine exec_invariant
    (fun s => s.indexList = st.indexList ∧ ∃ ws, s.inputList.Holds ws) ?_ hrun ⟨rfl, hinput⟩
  rintro s ⟨m, r⟩ s' out ⟨hsame, ws, hws⟩ hstep
  rw [← hsame] at hindex
  obtain ⟨_, _, -, hsame', hwords⟩ := reply_of_iterate hstep hindex hws
  exact ⟨hsame'.trans hsame, _, hwords⟩

/-- **The answer of a query does not depend on the queries before it**: in every run of the
program, what is written for the last query is what is written when it is the only one, whatever
the memory holds and wherever the descriptor stands. Afterwards the index is the same and so are
the words in the input list. -/
theorem output_eq_alone {file : List Char} {fuel : Nat} {st₀ : MainState}
    (hload : load file fuel = some st₀) {earlier : List (Memory × ReadResult bufSize Char)}
    {m : Memory} {r : ReadResult bufSize Char} {st : MainState} {outs : List (List Out)}
    {out : List Out}
    (hrun : exec (iterate file) st₀ (earlier ++ [(m, r)]) = some (st, outs ++ [out]))
    (m' : Memory) (pos : Nat) :
    ∃ alone, exec (iterate file) { st₀ with pos } [(m', r)] = some (alone, [out]) ∧
      alone.indexList = st.indexList ∧ st.indexList = st₀.indexList ∧
      ∃ words, alone.inputList.Holds words ∧ st.inputList.Holds words := by
  obtain ⟨⟨lines, hindex⟩, hempty, hrunning⟩ := load_loaded hload
  obtain ⟨st₁, outs₁, out₁, hearlier, hlast, houts⟩ := exec_snoc.mp hrun
  obtain ⟨rfl, hout⟩ := List.append_inj' houts rfl
  cases hout
  obtain ⟨hsame, ws, hws⟩ := exec_loaded hearlier hindex ⟨[], hempty⟩
  obtain ⟨mode, words, hreply, hsame', hwords⟩ := reply_of_iterate hlast (hsame ▸ hindex) hws
  have hround := iterate_eq { st₀ with pos } hrunning hindex hempty m' r
  rw [hreply] at hround
  obtain ⟨alone, hiterate, hindex', hwords', -⟩ := hround
  refine ⟨alone, ?_, ?_, hsame'.trans hsame, _, hwords', hwords⟩
  · rw [exec, hiterate]
    rfl
  · rw [hindex', hsame', hsame]

/-- A file of two lines, the queries `a b` and `b`, and what is written for them. -/
def twoLines : List Char := "a b\nB\n".toList

/-- The query `a b`. -/
def bothWords : ReadResult bufSize Char := .data "a b\n".toList (by decide)

/-- The query `b`. -/
def oneWord : ReadResult bufSize Char := .data "b\n".toList (by decide)

/-- Line 1 has both words. -/
def bothWordsOut : List Out := lineOut 1 ++ [.seekBack, .write ['\n']]

/-- `b` is in both lines. -/
def oneWordOut : List Out := placeOut 1 2 ++ placeOut 2 0 ++ [.seekBack, .write ['\n']]

/-- Some contents of the memory. -/
def someMemory : Memory := ⟨fun _ => 'x', fun _ => 'y'⟩

/-- The second query writes the same without the first. -/
theorem output_eq_alone_twoLines :
    ∃ st₀ st, load twoLines 2 = some st₀ ∧
      exec (iterate twoLines) st₀ ([(someMemory, bothWords)] ++ [(someMemory, oneWord)]) =
        some (st, [bothWordsOut] ++ [oneWordOut]) ∧
      ∀ (m' : Memory) (pos : Nat), ∃ alone,
        exec (iterate twoLines) { st₀ with pos } [(m', oneWord)] = some (alone, [oneWordOut]) ∧
          alone.indexList = st.indexList ∧ st.indexList = st₀.indexList ∧
          ∃ words, alone.inputList.Holds words ∧ st.inputList.Holds words := by
  have hrun : ((load twoLines 2).bind fun st₀ => exec (iterate twoLines) st₀
      ([(someMemory, bothWords)] ++ [(someMemory, oneWord)])).map Prod.snd =
      some ([bothWordsOut] ++ [oneWordOut]) := by
    decide +kernel
  obtain ⟨⟨st, outs⟩, hrun, rfl⟩ := Option.map_eq_some_iff.mp hrun
  obtain ⟨st₀, hload, hrun⟩ := Option.bind_eq_some_iff.mp hrun
  exact ⟨st₀, st, hload, hrun, output_eq_alone hload hrun⟩

end SystemProgrammingLab.Pa1
