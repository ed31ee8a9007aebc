import SystemProgrammingLab.Pa1.Main

/-!
# What a query writes, also when it is stopped

The handlers write with `write`, so what they have written is on the standard output also if a later step
is undefined. `runQuery` is the output of a query in this sense: what is written, and whether the
query is answered to its end. Where it is, this is what the round of `main` writes
(`runQuery_result`).

On texts, `answerRun` stops at the first line whose scan is undefined (`runQuery_eq`).

Source: `pa1/main.c`
-/

namespace SystemProgrammingLab.Pa1

open SystemProgrammingLab.Found

/-! ## Outputs -/

/-- What is written, and whether the program gets to its end. -/
structure Output where
  written : List Out
  ends : Bool
  deriving DecidableEq

namespace Output

/-- An undefined step, before anything is written. -/
def stopped : Output := ⟨[], false⟩

/-- The output behind what is written first. -/
def behind (out : List Out) (o : Output) : Output := ⟨out ++ o.written, o.ends⟩

/-- The end of a search: a step back over the last blank if there are any hits, and a newline. -/
def closed (o : Output) : Output :=
  if o.ends then
    ⟨o.written ++ (if o.written ≠ [] then [.seekBack] else []) ++ [.write ['\n']], true⟩
  else o

/-- What is written by a program that gets to its end. -/
def result (o : Output) : Option (List Out) := if o.ends then some o.written else none

/-- Whether a program ends does not depend on what was written before. -/
theorem result_behind (out : List Out) (o : Output) :
    (o.behind out).result = o.result.map fun outs => out ++ outs := by
  rcases o with ⟨written, _ | _⟩ <;> rfl

/-- A search ends where its scans do. -/
theorem result_closed (o : Output) : o.closed.result = o.result.map fun out =>
    out ++ (if out ≠ [] then [.seekBack] else []) ++ [.write ['\n']] := by
  rcases o with ⟨written, _ | _⟩ <;> rfl

/-- A search that ends writes a newline. -/
theorem closed_ne (o : Output) : o.closed ≠ ⟨[], true⟩ := by
  rcases o with ⟨written, _ | _⟩
  · exact fun h => Bool.false_ne_true (congrArg ends h)
  · intro h
    have hwritten : written ++ (if written ≠ [] then [Out.seekBack] else []) ++ [Out.write ['\n']] = [] :=
      congrArg Output.written h
    simp at hwritten

/-- Before its end, a search that has written something has another output than one that has not. -/
theorem closed_ne_of_written {o o' : Output} (h : o.written ≠ []) (h' : o'.written = []) :
    o.closed ≠ o'.closed := by
  rcases o with ⟨written, ends⟩
  rcases o' with ⟨written', ends'⟩
  change written ≠ [] at h
  change written' = [] at h'
  subst h'
  intro heq
  have hends := congrArg Output.ends heq
  have hlength := congrArg (List.length ∘ Output.written) heq
  have hpos := List.length_pos_of_ne_nil h
  rcases ends with _ | _ <;> rcases ends' with _ | _ <;> simp [closed, h] at hends hlength

/-- A search that ends has another output than one that is stopped. -/
theorem closed_ne_of_ends {o o' : Output} (h : o.ends = false) (h' : o'.ends = true) :
    o.closed ≠ o'.closed := by
  rcases o with ⟨written, ends⟩
  rcases o' with ⟨written', ends'⟩
  cases h
  cases h'
  exact fun heq => Bool.false_ne_true (congrArg Output.ends heq)

end Output

/-! ## The handlers -/

/-- The loop over the lines, as in `searchLines`: it stops at the first line whose scan is undefined. Such a
scan has not written: the words and lines are strings, and only `handle_regexp` follows a `NULL`, in front of
its `write`. Source: `handle_sword`, `handle_mword`, `handle_cword`, `handle_regexp` -/
def runLines (fill : Nat → Char) (file : List Char) (heap : Heap (Node Line))
    (scan : Nat → List Char → Option (List Out)) : Nat → Ptr → Nat → Output
  | 0, _, _ => ⟨[], true⟩
  | n + 1, idxNode, pos =>
      match heap.load idxNode with
      | none => .stopped
      | some node =>
          match extractLine fill file pos node.val.size with
          | none => .stopped
          | some (content, pos) =>
              match scan node.val.lineNum content with
              | none => .stopped
              | some out => (runLines fill file heap scan n node.next pos).behind out

/-- What the handlers share, as in `search`. Source: `handle_sword`, `handle_mword`, `handle_cword`,
`handle_regexp` -/
def runSearch (fill : Nat → Char) (file : List Char) (indexList : LinkedList Line) (pos : Nat)
    (scan : Nat → List Char → Option (List Out)) : Output :=
  match indexList.heap.load indexList.list.head with
  | none => .stopped
  | some idxNode =>
      (runLines fill file indexList.heap scan indexList.list.num.toNat indexList.list.head
        (seekSet pos idxNode.val.offset)).closed

/-- The output of one query, after the index is built. Source: `main` -/
def runQuery (file : List Char) (fuel : Nat) (m : Memory) (r : ReadResult bufSize Char) : Output :=
  match load file fuel with
  | none => .stopped
  | some st =>
      match resolveInput m.stale m.fill r st.inputList with
      | none => .stopped
      | some (mode, inputList) =>
          if mode = .exit then ⟨[], true⟩
          else match modeScan m.fill inputList mode with
            | none => .stopped
            | some scan => runSearch m.fill file st.indexList st.pos scan

section handlers

variable {file : List Char} {indexList : LinkedList Line} {inputList : InputList} (fill : Nat → Char)

/-- The loop that gets to its end writes what `searchLines` says. -/
theorem runLines_result {heap : Heap (Node Line)} {scan : Nat → List Char → Option (List Out)}
    (n : Nat) : ∀ (idxNode : Ptr) (pos : Nat), (runLines fill file heap scan n idxNode pos).result =
      (searchLines fill file heap scan n idxNode pos).map Prod.fst := by
  induction n with
  | zero => exact fun _ _ => rfl
  | succ n ih =>
      intro idxNode pos
      rw [runLines, searchLines]
      rcases heap.load idxNode with _ | node
      · rfl
      simp only [Option.bind_eq_bind, Option.bind_some]
      rcases extractLine fill file pos node.val.size with _ | ⟨content, pos⟩
      · rfl
      simp only [Option.bind_some]
      rcases scan node.val.lineNum content with _ | out
      · rfl
      simp only [Option.bind_some, Output.result_behind, ih]
      rcases searchLines fill file heap scan n node.next pos with _ | ⟨outs, pos⟩ <;> rfl

/-- So does the search. -/
theorem runSearch_result (scan : Nat → List Char → Option (List Out)) (pos : Nat) :
    (runSearch fill file indexList pos scan).result =
      (search fill file indexList pos scan).map Prod.fst := by
  unfold runSearch search
  rcases indexList.heap.load indexList.list.head with _ | idxNode
  · rfl
  simp only [Option.bind_eq_bind, Option.bind_some, Output.result_closed, runLines_result]
  rcases searchLines fill file indexList.heap scan indexList.list.num.toNat indexList.list.head
    (seekSet pos idxNode.val.offset) with _ | ⟨out, pos⟩ <;> rfl

end handlers

/-- **A query that is answered to its end** writes what the round of the loop writes. -/
theorem runQuery_result (file : List Char) (fuel : Nat) (m : Memory) (r : ReadResult bufSize Char) :
    (runQuery file fuel m r).result =
      (load file fuel).bind fun st => (iterate file st (m, r)).map Prod.snd := by
  unfold runQuery
  rcases hload : load file fuel with _ | st
  · rfl
  obtain ⟨-, -, hrunning⟩ := load_loaded hload
  rw [Option.bind_some, iterate, if_pos hrunning]
  dsimp only
  rcases resolveInput m.stale m.fill r st.inputList with _ | ⟨mode, inputList⟩
  · rfl
  simp only [Option.bind_eq_bind, Option.bind_some]
  by_cases hexit : mode = .exit
  · subst hexit
    rfl
  · rw [if_neg hexit, handle_eq_search m.fill hexit]
    rcases modeScan m.fill inputList mode with _ | scan
    · rfl
    · simp only [Option.bind_some, runSearch_result]
      rcases search m.fill file st.indexList st.pos scan with _ | ⟨out, pos⟩ <;> rfl

/-! ## On texts -/

/-- The output of the scans of some lines, up to the first one that is undefined. -/
def linesRun (scan : Line → Option (List Out)) : List Line → Output
  | [] => ⟨[], true⟩
  | e :: es =>
      match scan e with
      | none => .stopped
      | some out => (linesRun scan es).behind out

/-- The output of a search over a file with these lines; without a line the head of the index is a
`NULL` that the search follows. -/
def answerRun (file : List Char) (lines : List Line) (mode : Mode) (words : List (List Char)) : Output :=
  if lines = [] then .stopped
  else (linesRun (fun e => scanOut mode words (lineText file e) e.lineNum) lines).closed

section texts

variable {file : List Char} {indexList : LinkedList Line} {inputList : InputList} {lines : List Line}
  {fin : Nat} {scan : Nat → List Char → Option (List Out)} {scanText : Line → Option (List Out)}
  (fill : Nat → Char)

/-- The loop reads every line where it lies in the file. -/
theorem runLines_eq {heap : Heap (Node Line)}
    (hscan : ∀ e ∈ lines, ∃ content, extractLine fill file e.offset e.size =
      some (content, e.offset + e.size) ∧ scan e.lineNum content = scanText e) :
    ∀ {idxNode : Ptr} {pos : Nat}, Chain heap idxNode lines → Contiguous pos lines fin →
      runLines fill file heap scan lines.length idxNode pos = linesRun scanText lines := by
  induction lines with
  | nil => exact fun _ _ => rfl
  | cons e es ih =>
      intro idxNode pos hchain hcont
      obtain ⟨rfl, hsize, hcont⟩ := hcont
      generalize hxs : e :: es = xs at hchain
      cases hchain with
      | nil => cases hxs
      | @cons _ node _ hload hchain =>
          obtain ⟨rfl, rfl⟩ := List.cons.inj hxs
          obtain ⟨content, hline, hout⟩ := hscan node.val List.mem_cons_self
          have hrest := ih (fun e he => hscan e (List.mem_cons_of_mem _ he)) hchain hcont
          rw [List.length_cons, runLines, linesRun]
          simp only [hload, hline, hout, hrest]

/-- The scan of a mode looks at the texts of the words and of the line only. -/
theorem modeScan_text {mode : Mode} {words : List (List Char)} {s : List Char}
    (hparse : parse s = some (mode, words)) (hexit : mode ≠ .exit) (hs : nul ∉ s)
    (hinput : inputList.Holds (numbered 0 words)) :
    ∃ scan, modeScan fill inputList mode = some scan ∧ ∀ e rest,
      scan e.lineNum (lineText file e ++ nul :: rest) =
        scanOut mode words (lineText file e) e.lineNum := by
  rcases parse_cases hparse with rfl | ⟨rfl, rfl⟩ | ⟨rfl, rfl⟩ | ⟨asterisk, hsuffix, rfl, rfl⟩ |
    ⟨rfl, rfl⟩
  · exact absurd rfl hexit
  · refine ⟨_, modeScan_sword fill hinput, ?_⟩
    intro e rest
    exact swordHits_text fill e.lineNum hs _ (nul_notMem_lineText file e)
  · refine ⟨_, rfl, ?_⟩
    intro e rest
    have hwords : ∀ w ∈ pieces s, nul ∉ w := fun w hw h => hs (subset_of_mem_pieces hw h)
    exact mwordHits_text fill e.lineNum hwords hinput (nul_notMem_lineText file e)
  · have hbefore : nul ∉ s.take (s.length - asterisk.length) := fun h =>
      hs (List.take_subset _ _ h)
    have hbehind : nul ∉ asterisk.tail := fun h =>
      hs (hsuffix.subset ((List.tail_suffix _).subset h))
    refine ⟨_, modeScan_regexp fill hinput, ?_⟩
    intro e rest
    exact regexpHits_text fill e.lineNum hbefore hbehind (nul_notMem_lineText file e)
  · have hphrase : nul ∉ s.tail.dropLast := fun h =>
      hs ((List.tail_suffix _).subset ((List.dropLast_prefix _).subset h))
    refine ⟨_, modeScan_cword fill hinput, ?_⟩
    intro e rest
    exact phraseHits_text e.lineNum hphrase (nul_notMem_lineText file e)

/-- The search on texts, wherever the descriptor stood. -/
theorem runSearch_eq (hindex : Loaded file lines indexList)
    (hscan : ∀ e rest, scan e.lineNum (lineText file e ++ nul :: rest) = scanText e) (pos : Nat) :
    runSearch fill file indexList pos scan =
      if lines = [] then .stopped else (linesRun scanText lines).closed := by
  obtain ⟨hholds, fin, hcont, hfin⟩ := hindex
  rcases lines with _ | ⟨e, es⟩
  · rw [if_pos rfl, runSearch, hholds.load_head_nil]
  · obtain ⟨node, hload, rfl⟩ := hholds.head
    have hread : ∀ e ∈ node.val :: es, ∃ content, extractLine fill file e.offset e.size =
        some (content, e.offset + e.size) ∧ scan e.lineNum content = scanText e := by
      intro e he
      obtain ⟨hsize, hle⟩ := hcont.of_mem he
      obtain ⟨rest, hline⟩ := extractLine_text fill hsize (hle.trans hfin)
      exact ⟨_, hline, hscan e rest⟩
    have hnum : indexList.list.num.toNat = (node.val :: es).length := by
      rw [hholds.num, Int.toNat_natCast]
    have hseek : seekSet pos node.val.offset = 0 := hcont.1
    rw [if_neg (List.cons_ne_nil _ _), runSearch, hload]
    dsimp only
    rw [hnum, hseek, runLines_eq fill hread hholds.chain hcont]

end texts

section query

variable {file : List Char} {fuel : Nat} {lines : List Line} {st : MainState}
  {r : ReadResult bufSize Char} {mode : Mode} {words : List (List Char)}

/-- The text of a query. -/
def query (r : ReadResult bufSize Char) : List Char := text r.bytes.dropLast

/-- A read of no bytes, and a query that cannot be split, are undefined before anything is written. -/
theorem runQuery_eq_stopped (h : r.bytes = [] ∨ parse (query r) = none) (fuel : Nat) (m : Memory) :
    runQuery file fuel m r = .stopped := by
  unfold runQuery
  rcases hload : load file fuel with _ | st
  · rfl
  · obtain ⟨-, hempty, -⟩ := load_loaded hload
    have hresolve := resolveInput_eq m.stale m.fill r hempty
    have hnone : (if r.bytes = [] then none else parse (text r.bytes.dropLast)) = none := by
      rcases h with h | h
      · rw [if_pos h]
      · rw [show parse (text r.bytes.dropLast) = none from h, ite_self]
    rw [hnone] at hresolve
    have hstop : resolveInput m.stale m.fill r st.inputList = none := hresolve
    dsimp only
    rw [hstop]

/-- The output of a query that is split is the one of its words. -/
theorem runQuery_eq (hload : load file fuel = some st) (hindex : Loaded file lines st.indexList)
    (hne : r.bytes ≠ []) (hparse : parse (query r) = some (mode, words)) (m : Memory) :
    runQuery file fuel m r = if mode = .exit then ⟨[], true⟩ else answerRun file lines mode words := by
  obtain ⟨-, hempty, -⟩ := load_loaded hload
  have hresolve := resolveInput_eq m.stale m.fill r hempty
  rw [if_neg hne, show parse (text r.bytes.dropLast) = some (mode, words) from hparse] at hresolve
  obtain ⟨inputList, hrun, hwords⟩ := hresolve
  unfold runQuery
  rw [hload]
  dsimp only
  rw [hrun]
  dsimp only
  split_ifs with hexit
  · rfl
  · obtain ⟨scan, hscan, htext⟩ := modeScan_text m.fill hparse hexit (nul_notMem_text _) hwords
    rw [hscan]
    exact runSearch_eq m.fill hindex htext st.pos

/-- The exit command writes nothing. -/
theorem runQuery_exit (hload : load file fuel = some st) (hne : r.bytes ≠ [])
    (hexit : query r = "PA1EXIT".toList) (m : Memory) : runQuery file fuel m r = ⟨[], true⟩ := by
  obtain ⟨⟨lines, hindex⟩, -⟩ := load_loaded hload
  have hparse : parse (query r) = some (.exit, []) := by
    rw [hexit]
    rfl
  rw [runQuery_eq hload hindex hne hparse, if_pos rfl]

end query

end SystemProgrammingLab.Pa1
