import SystemProgrammingLab.Found.Words
import SystemProgrammingLab.Pa1.Tokens

/-!
# Searches for two words with a token between them

`handle_regexp` goes to the first place of `word1`, steps over two words, and looks for `word2` from there
on. The tokens of a line are its words between blanks (`tokens`). Behind the first place of `word1` there
are at least as many tokens as behind any other one, so that it decides whether `word2` comes at least
two tokens after `word1` (`regexpOut_eq_some`, `handleRegexp_exact`).

The scan of a line passes the results of `nextWord` on without looking at them. The second `nextWord` and
`isincluded` get a string unless the first place of `word1` is the last token of the line (`LastToken`):
there the first `nextWord` returns the end of the line, the second one returns `NULL`, and `isincluded`
follows it (`regexp_nonnull_iff`).

Source: `pa1/main.c`, `pa1/mystring.c`, `pa1/mystring.h`
-/

namespace SystemProgrammingLab.Pa1

open SystemProgrammingLab.Found

/-! ## The tokens of a line -/

/-- The tokens of a line, in order. -/
def tokens (s : List Char) : List (List Char) := words isBlank s

/-- `word1` is a token and `word2` another one, at least two tokens behind it. -/
def Apart (word1 word2 : List Char) (toks : List (List Char)) : Prop :=
  ∃ i j, i + 2 ≤ j ∧ toks[i]? = some word1 ∧ toks[j]? = some word2

/-- The word is a token of the line, and its first place is the last token. The empty word is found in
front of a blank at the start of the line, and this is the last word if there are no tokens. -/
def LastToken (word s : List Char) : Prop :=
  if word = [] then s ≠ [] ∧ tokens s = [] else ∃ before, tokens s = before ++ [word] ∧ word ∉ before

section tokens

variable {s w start : List Char}

/-- Behind the first word of a text are the other tokens. -/
theorem tokens_cons (c : Char) (cs : List Char) : tokens (c :: cs) =
    (if isBlank c then [] else [(c :: cs).takeWhile fun c => !isBlank c]) ++
      tokens (afterWord (c :: cs)) := by
  unfold tokens afterWord
  rw [words_dropWhile]
  by_cases hc : isBlank c = true
  · rw [if_pos hc, List.nil_append, List.dropWhile_cons_of_neg (by simp [hc])]
  · rw [if_neg hc, words_cons (by simpa using hc)]
    rfl

/-- A word that is stepped to starts with a token. -/
theorem isBlank_of_afterWord {d : Char} {ds : List Char} (h : afterWord s = d :: ds) :
    isBlank d = false := by
  have hd := List.head?_dropWhile_not isBlank (s.dropWhile fun c => !isBlank c)
  rw [← afterWord, h] at hd
  simpa using hd

/-- There are no tokens behind a word exactly when nothing is behind it. -/
theorem tokens_afterWord_eq_nil_iff : tokens (afterWord s) = [] ↔ afterWord s = [] := by
  rcases hafter : afterWord s with _ | ⟨d, ds⟩
  · exact iff_of_true words_nil rfl
  · rw [tokens_cons, if_neg (by simp [isBlank_of_afterWord hafter])]
    exact iff_of_false (by simp) (by simp)

/-- Two words further on there is one token less. -/
theorem tokens_afterWord_afterWord (s : List Char) :
    tokens (afterWord (afterWord s)) = (tokens (afterWord s)).tail := by
  rcases hafter : afterWord s with _ | ⟨d, ds⟩
  · rfl
  · rw [tokens_cons, if_neg (by simp [isBlank_of_afterWord hafter])]
    rfl

/-- The first place of a word: the tokens in front of it, and the tokens behind it. -/
theorem tokens_of_findWord (hw : w ≠ []) (h : findWord w s = some start) :
    ∃ before, tokens s = before ++ w :: tokens (afterWord start) ∧ w ∉ before := by
  induction s using findWord.induct w with
  | case1 =>
      rw [findWord] at h
      cases h
  | case2 c cs hfound =>
      rw [findWord, if_pos hfound] at h
      cases h
      have hc : ¬ isBlank c = true := by
        intro hc
        rw [List.takeWhile_cons_of_neg (by simp [hc])] at hfound
        exact hw hfound.symm
      refine ⟨[], ?_, List.not_mem_nil⟩
      rw [tokens_cons, if_neg hc, hfound, List.singleton_append, List.nil_append]
  | case3 c cs hnot _ ih =>
      rw [findWord, if_neg hnot] at h
      obtain ⟨before, htokens, hbefore⟩ := ih h
      rw [tokens_cons, htokens]
      by_cases hc : isBlank c = true
      · exact ⟨before, by rw [if_pos hc]; rfl, hbefore⟩
      · refine ⟨_ :: before, by rw [if_neg hc]; rfl, ?_⟩
        exact List.not_mem_cons_of_ne_of_not_mem (Ne.symm hnot) hbefore

/-- A word that is not found is no token. -/
theorem notMem_tokens_of_findWord (h : findWord w s = none) : w ∉ tokens s := by
  induction s using findWord.induct w with
  | case1 => exact List.not_mem_nil
  | case2 c cs hfound =>
      rw [findWord, if_pos hfound] at h
      cases h
  | case3 c cs hnot _ ih =>
      rw [findWord, if_neg hnot] at h
      rw [tokens_cons, List.mem_append, not_or]
      refine ⟨?_, ih h⟩
      split_ifs
      · exact List.not_mem_nil
      · rw [List.mem_singleton]
        exact Ne.symm hnot

/-- A word is found in a text if it is one of its tokens. -/
theorem findWord_isSome_iff (hw : w ≠ []) : (findWord w s).isSome = true ↔ w ∈ tokens s := by
  rcases hfound : findWord w s with _ | start
  · exact iff_of_false (by simp) (notMem_tokens_of_findWord hfound)
  · obtain ⟨before, htokens, -⟩ := tokens_of_findWord hw hfound
    exact iff_of_true rfl (by simp [htokens])

/-- The first place decides. -/
theorem apart_append_iff {word1 word2 : List Char} {before toks : List (List Char)} (h : word1 ∉ before) :
    Apart word1 word2 (before ++ word1 :: toks) ↔ word2 ∈ toks.tail := by
  constructor
  · rintro ⟨i, j, hij, hi, hj⟩
    -- the place of `word1` is not in front of the first one
    have hle : before.length ≤ i := by
      by_contra hlt
      rw [List.getElem?_append_left (Nat.lt_of_not_le hlt)] at hi
      exact h (List.mem_of_getElem? hi)
    obtain ⟨k, rfl⟩ : ∃ k, j = before.length + (k + 2) := ⟨j - (before.length + 2), by omega⟩
    rw [List.getElem?_append_right (Nat.le_add_right _ _), Nat.add_sub_cancel_left] at hj
    have htail : toks.tail[k]? = some word2 := by
      rw [List.getElem?_tail]
      exact hj
    exact List.mem_of_getElem? htail
  · intro hmem
    obtain ⟨k, hk⟩ := List.mem_iff_getElem?.mp hmem
    refine ⟨before.length, before.length + (k + 2), by omega, by simp, ?_⟩
    rw [List.getElem?_append_right (Nat.le_add_right _ _), Nat.add_sub_cancel_left]
    rw [List.getElem?_tail] at hk
    exact hk

end tokens

/-! ## The scan of a line -/

section scan

variable {word1 word2 s : List Char} {lineNum : Nat}

/-- The empty word is not found in front of a token. -/
theorem findWord_nil_of_isBlank (h : ∀ c ∈ s.head?, isBlank c = false) : findWord [] s = none := by
  induction s using findWord.induct [] with
  | case1 => rw [findWord]
  | case2 c cs hfound =>
      have hc : isBlank c = false := h c rfl
      simp [hc] at hfound
  | case3 c cs hnot _ ih =>
      rw [findWord, if_neg hnot]
      apply ih
      intro d hd
      obtain ⟨ds, hafter⟩ := List.head?_eq_some_iff.mp hd
      exact isBlank_of_afterWord hafter

/-- The word is found first at the last word of the line. -/
theorem lastToken_iff :
    LastToken word1 s ↔ ∃ start, findWord word1 s = some start ∧ afterWord start = [] := by
  unfold LastToken
  split_ifs with hempty
  · subst hempty
    rcases s with _ | ⟨c, cs⟩
    · simp [findWord]
    by_cases hc : isBlank c = true
    · have hfound : findWord [] (c :: cs) = some (c :: cs) := by
        rw [findWord, if_pos (by simp [hc])]
      rw [tokens_cons, if_pos hc, List.nil_append, tokens_afterWord_eq_nil_iff]
      simp [hfound]
    · have hfound : findWord [] (c :: cs) = none := findWord_nil_of_isBlank (by simpa using hc)
      rw [tokens_cons, if_neg hc]
      simp [hfound]
  · constructor
    · rintro ⟨before, htokens, hbefore⟩
      have hsome : (findWord word1 s).isSome = true := by
        rw [findWord_isSome_iff hempty, htokens]
        exact List.mem_append_right _ (List.mem_singleton_self _)
      obtain ⟨start, hfound⟩ := Option.isSome_iff_exists.mp hsome
      refine ⟨start, hfound, ?_⟩
      obtain ⟨before', htokens', hbefore'⟩ := tokens_of_findWord hempty hfound
      rw [htokens] at htokens'
      -- both are the first place
      have hplace := congrArg (List.idxOf word1) htokens'
      rw [List.idxOf_append_of_notMem hbefore, List.idxOf_append_of_notMem hbefore',
        List.idxOf_cons_self, List.idxOf_cons_self] at hplace
      have hlen := congrArg List.length htokens'
      simp only [List.length_append, List.length_cons, List.length_nil] at hlen
      rw [← tokens_afterWord_eq_nil_iff, ← List.length_eq_zero_iff]
      omega
    · rintro ⟨start, hfound, hlast⟩
      obtain ⟨before, htokens, hbefore⟩ := tokens_of_findWord hempty hfound
      rw [tokens_afterWord_eq_nil_iff.mpr hlast] at htokens
      exact ⟨before, htokens, hbefore⟩

/-- The scan follows a `NULL` if the first place of `word1` is the last token of the line. -/
theorem regexpOut_eq_none_iff : regexpOut word1 word2 s lineNum = none ↔ LastToken word1 s := by
  rw [lastToken_iff, regexpOut_eq_none]

/-- A scan that ends decides whether the words are apart. -/
theorem regexpOut_eq_some (hword1 : word1 ≠ []) (hword2 : word2 ≠ []) {out : List Out}
    (h : regexpOut word1 word2 s lineNum = some out) :
    (Apart word1 word2 (tokens s) ∧ out = lineOut lineNum) ∨
      (¬ Apart word1 word2 (tokens s) ∧ out = []) := by
  unfold regexpOut at h
  rcases hfound : findWord word1 s with _ | start
  · rw [hfound] at h
    cases h
    refine .inr ⟨?_, rfl⟩
    rintro ⟨i, j, -, hi, -⟩
    exact notMem_tokens_of_findWord hfound (List.mem_of_getElem? hi)
  · obtain ⟨before, htokens, hbefore⟩ := tokens_of_findWord hword1 hfound
    rw [hfound] at h
    dsimp only at h
    rw [htokens, apart_append_iff hbefore, ← tokens_afterWord_afterWord, ← findWord_isSome_iff hword2]
    by_cases hlast : afterWord start = []
    · rw [if_pos hlast] at h
      cases h
    · rw [if_neg hlast] at h
      split_ifs at h with hbehind
      · exact .inl ⟨hbehind, (Option.some.inj h).symm⟩
      · exact .inr ⟨hbehind, (Option.some.inj h).symm⟩

/-- What the calls of `isincluded` and `nextWord` on a line receive, in the order of the calls; `none` is
`NULL`, and no call comes behind one that follows it. Source: `handle_regexp` -/
def regexpArgs (fill : Nat → Char) (word1 content : List Char) : List (Option (List Char)) :=
  some content ::
    match isincluded fill word1 content with
    | some (some start) =>
        some start ::
          match nextWord start with
          | some (some next) =>
              some next ::
                match nextWord next with
                | some start => [start]
                | none => []
          | some none => [none]
          | none => []
    | some none => []
    | none => []

/-- `NULL` is followed exactly when the first word is the last token. -/
theorem none_mem_regexpArgs_iff (fill : Nat → Char) {rest rest' : List Char} (hword1 : nul ∉ word1)
    (hs : nul ∉ s) :
    none ∈ regexpArgs fill (word1 ++ nul :: rest') (s ++ nul :: rest) ↔ LastToken word1 s := by
  rw [lastToken_iff]
  unfold regexpArgs
  rw [isincluded_text fill hword1 hs]
  rcases hfound : findWord word1 s with _ | start
  · simp
  · obtain ⟨hsuffix, hne⟩ := findWord_suffix hfound
    have hstart : nul ∉ start := fun h => hs (hsuffix.subset h)
    have hnext : nul ∉ afterWord start := fun h => hstart ((afterWord_suffix start).subset h)
    rw [Option.map_some]
    dsimp only
    rw [nextWord_text hstart hne]
    dsimp only
    by_cases hlast : afterWord start = []
    · have hnull : nextWord (nul :: rest) = some none := by rw [nextWord, if_pos rfl]
      simp [hlast, hnull]
    · rw [nextWord_text hnext hlast]
      simp [hlast]

end scan

/-! ## The search -/

/-- What `handle_regexp` has written after `n` lines, and the offset of the descriptor. It writes with `write`,
so this is on the standard output also if the scan of a later line follows a `NULL`. Source: `handle_regexp` -/
def regexpRounds (fill : Nat → Char) (file : List Char) (indexList : LinkedList Line)
    (inputList : InputList) (pos n : Nat) : Option (List Out × Nat) := do
  let word1 ← inputList.heap.load inputList.list.head
  let word2 ← inputList.heap.load inputList.list.tail
  let idxNode ← indexList.heap.load indexList.list.head
  searchLines fill file indexList.heap
    (fun lineNum content => regexpHits fill word1.val.content word2.val.content lineNum content) n
    indexList.list.head (seekSet pos idxNode.val.offset)

/-- On every line, each call of `isincluded` and `nextWord` receives a string. -/
def NonNull (fill : Nat → Char) (file : List Char) (es : List Line) (inputList : InputList) : Prop :=
  ∃ word1, inputList.heap.load inputList.list.head = some word1 ∧ ∀ e ∈ es, ∃ content pos,
    extractLine fill file e.offset e.size = some (content, pos) ∧
      none ∉ regexpArgs fill word1.val.content content

section search

variable {file : List Char} {indexList : LinkedList Line} {es : List Line} {fin : Nat}
  {word1 word2 : List Char} {inputList : InputList} (fill : Nat → Char)

/-- The handler runs as many rounds as there are lines, and ends its line of output. -/
theorem handleRegexp_eq (pos : Nat) : handleRegexp fill file indexList inputList pos =
    (regexpRounds fill file indexList inputList pos indexList.list.num.toNat).map
      fun (out, pos) => (report out, pos) := by
  unfold handleRegexp regexpRounds search
  rcases inputList.heap.load inputList.list.head with _ | node1
  · rfl
  rcases inputList.heap.load inputList.list.tail with _ | node2
  · rfl
  rcases indexList.heap.load indexList.list.head with _ | idxNode
  · rfl
  simp only [Option.bind_eq_bind, Option.bind_some]
  rcases searchLines _ _ _ _ _ _ _ with _ | ⟨out, pos⟩ <;> rfl

/-- The rounds scan the first lines. -/
theorem regexpRounds_eq (hindex : indexList.Holds es) (hne : es ≠ [])
    (hcont : Contiguous 0 es fin) (hfin : fin ≤ file.length) (hword1 : nul ∉ word1)
    (hword2 : nul ∉ word2) (hinput : inputList.Holds (numbered 0 [word1, word2])) (pos n : Nat)
    (hn : n ≤ es.length) : ∃ fin', regexpRounds fill file indexList inputList pos n =
      (linesOut (fun e => regexpOut word1 word2 (lineText file e) e.lineNum) (es.take n)).map
        fun out => (out, fin') := by
  obtain ⟨node1, hload1, hval1⟩ := hinput.head
  have hsnoc : inputList.Holds ([.ofText 1 word1] ++ [.ofText 2 word2]) := hinput
  obtain ⟨node2, hload2, hval2⟩ := hsnoc.tail
  obtain ⟨e, rest, rfl⟩ := List.exists_cons_of_ne_nil hne
  obtain ⟨idxNode, hload, hval⟩ := hindex.head
  have hseek : seekSet pos idxNode.val.offset = 0 := by rw [hval]; exact hcont.1
  have hlen : ((e :: rest).take n).length = n := List.length_take_of_le hn
  have hchain := hindex.chain
  rw [← List.take_append_drop n (e :: rest)] at hchain hcont
  obtain ⟨fin', hcont, hle⟩ := hcont.of_append
  refine ⟨fin', ?_⟩
  unfold regexpRounds
  simp only [hload1, hload2, hload, Option.bind_eq_bind, Option.bind_some, hval1, hval2, hseek]
  conv_lhs => rw [← hlen]
  apply searchLines_eq fill _ (chain_of_append hchain) hcont
  intro e he
  obtain ⟨hsize, hend⟩ := hcont.of_mem he
  obtain ⟨tail, hline⟩ := extractLine_text fill hsize (hend.trans (hle.trans hfin))
  exact ⟨_, hline, regexpHits_text fill e.lineNum hword1 hword2 (nul_notMem_lineText file e)⟩

/-- Scans that all end write what each of them says. -/
theorem eq_flatMap_of_linesOut {scan : Line → Option (List Out)} {f : Line → List Out}
    {out : List Out} (h : linesOut scan es = some out)
    (hscan : ∀ e ∈ es, ∀ out, scan e = some out → out = f e) : out = es.flatMap f := by
  induction es generalizing out with
  | nil =>
      cases h
      rfl
  | cons e es ih =>
      rw [linesOut] at h
      simp only [Option.bind_eq_bind, Option.bind_eq_some_iff, Option.pure_def,
        Option.some.injEq] at h
      obtain ⟨out₁, h₁, out₂, h₂, rfl⟩ := h
      rw [List.forall_mem_cons] at hscan
      rw [List.flatMap_cons, hscan.1 out₁ h₁, ih h₂ hscan.2]

variable {fuel : Nat} {st : ReadState}

/-- **A search for two words decides correctly**: among the lines that the scan gets through, it writes
the numbers of those in which `word2` comes at least two tokens behind `word1`, in order, and nothing
else. The scan gets through line `n` if the rounds up to that line are defined. -/
theorem handleRegexp_exact (hfile : nul ∉ file) (hrun : readFile file fuel .init = some st)
    (hindex : st.index.list.num ≠ 0) (hword1 : word1 ≠ [] ∧ nul ∉ word1)
    (hword2 : word2 ≠ [] ∧ nul ∉ word2) (hinput : inputList.Holds (numbered 0 [word1, word2]))
    (pos : Nat) :
    ∃ es, st.index.Holds es ∧ LineIndex file es ∧
      (∀ n ≤ es.length, ∀ out pos', regexpRounds fill file st.index inputList pos n =
          some (out, pos') →
        ∃ items : List Nat, out = items.flatMap lineOut ∧ items.Pairwise (· < ·) ∧
          ∀ lineNum, lineNum ∈ items ↔ ∃ e ∈ es.take n, e.lineNum = lineNum ∧
            Apart word1 word2 (tokens (lowerLine file e))) ∧
      handleRegexp fill file st.index inputList pos =
        (regexpRounds fill file st.index inputList pos es.length).map
          fun (out, pos) => (report out, pos) := by
  obtain ⟨es, hes, hholds, hlines, hcont, hle⟩ := exists_lineIndex hrun hindex
  refine ⟨es, hholds, hlines, ?_, ?_⟩
  · intro n hn out pos' hrounds
    obtain ⟨fin', heq⟩ :=
      regexpRounds_eq fill hholds hes hcont hle hword1.2 hword2.2 hinput pos n hn
    rw [heq] at hrounds
    obtain ⟨out, hout, hpair⟩ := Option.map_eq_some_iff.mp hrounds
    cases hpair
    classical
    let hit : Line → Bool := fun e => Apart word1 word2 (tokens (lowerLine file e))
    refine ⟨((es.take n).filter hit).map Line.lineNum, ?_, ?_, ?_⟩
    · rw [List.flatMap_map, flatMap_filter_lines]
      apply eq_flatMap_of_linesOut hout
      intro e he out hscan
      rw [lineText_eq hfile hlines (List.take_subset _ _ he)] at hscan
      rcases regexpOut_eq_some hword1.1 hword2.1 hscan with ⟨hapart, rfl⟩ | ⟨hapart, rfl⟩
      · rw [if_pos (decide_eq_true hapart)]
      · rw [if_neg (by simpa [hit] using hapart)]
    · exact List.pairwise_map.mpr ((hlines.pairwise.sublist (List.take_sublist _ _)).filter hit)
    · intro lineNum
      simp [hit, and_comm, and_left_comm]
  · rw [handleRegexp_eq, hholds.num, Int.toNat_natCast]

/-- The query `a*b` in a file of two lines. -/
theorem handleRegexp_exact_twoAndRest : ∃ fuel st inputList,
    readFile twoAndRest fuel .init = some st ∧
    LinkedList.Holds inputList (numbered 0 [['a'], ['b']]) ∧
    ∀ fill pos, ∃ es, st.index.Holds es ∧ LineIndex twoAndRest es ∧
      (∀ n ≤ es.length, ∀ out pos', regexpRounds fill twoAndRest st.index inputList pos n =
          some (out, pos') →
        ∃ items : List Nat, out = items.flatMap lineOut ∧ items.Pairwise (· < ·) ∧
          ∀ lineNum, lineNum ∈ items ↔ ∃ e ∈ es.take n, e.lineNum = lineNum ∧
            Apart ['a'] ['b'] (tokens (lowerLine twoAndRest e))) ∧
      handleRegexp fill twoAndRest st.index inputList pos =
        (regexpRounds fill twoAndRest st.index inputList pos es.length).map
          fun (out, pos) => (report out, pos) := by
  obtain ⟨fuel, st, hrun, -, hindex⟩ := exists_index
  obtain ⟨inputList, hinput⟩ := LinkedList.exists_holds (numbered 0 [['a'], ['b']])
  exact ⟨fuel, st, inputList, hrun, hinput, fun fill pos =>
    handleRegexp_exact fill (by decide) hrun hindex (by decide) (by decide) hinput pos⟩

/-- The calls of a search on texts. -/
theorem nonNull_iff (hcont : Contiguous 0 es fin) (hfin : fin ≤ file.length) (hword1 : nul ∉ word1)
    (hinput : inputList.Holds (numbered 0 [word1, word2])) :
    NonNull fill file es inputList ↔ ∀ e ∈ es, ¬ LastToken word1 (lineText file e) := by
  obtain ⟨node, hload, hval⟩ := hinput.head
  have hcontent : node.val.content = word1 ++ nul :: [] := by
    rw [hval]
    rfl
  have hline : ∀ e ∈ es, ∃ rest, extractLine fill file e.offset e.size =
      some (lineText file e ++ nul :: rest, e.offset + e.size) := by
    intro e he
    obtain ⟨hsize, hend⟩ := hcont.of_mem he
    exact extractLine_text fill hsize (hend.trans hfin)
  constructor
  · rintro ⟨node', hload', hcalls⟩ e he
    rw [hload] at hload'
    cases hload'
    obtain ⟨content, pos, hread, hargs⟩ := hcalls e he
    obtain ⟨rest, hread'⟩ := hline e he
    rw [hread'] at hread
    cases hread
    rw [hcontent, none_mem_regexpArgs_iff fill hword1 (nul_notMem_lineText file e)] at hargs
    exact hargs
  · intro hlast
    refine ⟨node, hload, ?_⟩
    intro e he
    obtain ⟨rest, hread⟩ := hline e he
    refine ⟨_, _, hread, ?_⟩
    rw [hcontent, none_mem_regexpArgs_iff fill hword1 (nul_notMem_lineText file e)]
    exact hlast e he

/-- **A search for two words follows no `NULL` if and only if the first place of `word1` is the last token
of no line.** -/
theorem regexp_nonnull_iff (hrun : readFile file fuel .init = some st)
    (hindex : st.index.list.num ≠ 0) (hword1 : nul ∉ word1) (hword2 : nul ∉ word2)
    (hinput : inputList.Holds (numbered 0 [word1, word2])) (pos : Nat) :
    ∃ es, st.index.Holds es ∧ LineIndex file es ∧
      (NonNull fill file es inputList ↔ ∀ e ∈ es, ¬ LastToken word1 (lineText file e)) ∧
      (handleRegexp fill file st.index inputList pos ≠ none ↔
        ∀ e ∈ es, ¬ LastToken word1 (lineText file e)) := by
  obtain ⟨es, hes, hholds, hlines, hcont, hle⟩ := exists_lineIndex hrun hindex
  refine ⟨es, hholds, hlines, nonNull_iff fill hcont hle hword1 hinput, ?_⟩
  have hscan : ∀ e, scanOut .regexp [word1, word2] (lineText file e) e.lineNum = none ↔
      LastToken word1 (lineText file e) := fun e => regexpOut_eq_none_iff
  rw [handleRegexp_text fill hholds hcont hle hword1 hword2 hinput pos, ne_eq,
    Option.map_eq_none_iff, answer, searchOut_eq_none_iff, or_iff_right hes]
  simp only [hscan, not_exists, not_and]

/-- The query `b*a` in a file of two lines. -/
theorem regexp_nonnull_iff_twoAndRest : ∃ fuel st inputList,
    readFile twoAndRest fuel .init = some st ∧
    LinkedList.Holds inputList (numbered 0 [['b'], ['a']]) ∧
    ∀ fill pos, ∃ es, st.index.Holds es ∧ LineIndex twoAndRest es ∧
      (NonNull fill twoAndRest es inputList ↔
        ∀ e ∈ es, ¬ LastToken ['b'] (lineText twoAndRest e)) ∧
      (handleRegexp fill twoAndRest st.index inputList pos ≠ none ↔
        ∀ e ∈ es, ¬ LastToken ['b'] (lineText twoAndRest e)) := by
  obtain ⟨fuel, st, hrun, -, hindex⟩ := exists_index
  obtain ⟨inputList, hinput⟩ := LinkedList.exists_holds (numbered 0 [['b'], ['a']])
  exact ⟨fuel, st, inputList, hrun, hinput, fun fill pos =>
    regexp_nonnull_iff fill hrun hindex (by decide) (by decide) hinput pos⟩

/-- **The search follows a `NULL` where `word1` ends a line**, for the query `b*a` on the line `a b`. -/
theorem not_nonNull : ∃ fuel st inputList es, readFile twoAndRest fuel .init = some st ∧
    st.index.list.num ≠ 0 ∧ LinkedList.Holds inputList (numbered 0 [['b'], ['a']]) ∧
    st.index.Holds es ∧ ∀ fill, ¬ NonNull fill twoAndRest es inputList := by
  obtain ⟨fuel, st, hrun, hholds, hindex⟩ := exists_index
  obtain ⟨inputList, hinput⟩ := LinkedList.exists_holds (numbered 0 [['b'], ['a']])
  refine ⟨fuel, st, inputList, _, hrun, hindex, hinput, hholds, ?_⟩
  intro fill hcalls
  have hcont : Contiguous 0 [⟨1, 0, 4⟩, ⟨2, 4, 2⟩] 6 := ⟨rfl, by decide, rfl, by decide, rfl⟩
  rw [nonNull_iff fill hcont (by decide) (by decide) hinput] at hcalls
  apply hcalls ⟨1, 0, 4⟩ List.mem_cons_self
  rw [LastToken, if_neg (by decide)]
  exact ⟨[['a']], by decide, by decide⟩

end search

end SystemProgrammingLab.Pa1
