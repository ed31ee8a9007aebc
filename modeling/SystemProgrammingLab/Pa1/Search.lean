import SystemProgrammingLab.Found.Decimal
import SystemProgrammingLab.Pa1.Index
import SystemProgrammingLab.Pa1.Input

/-!
# The four searches

Each handler goes once over the lines of the index, reading them one after the other from the
offset of the first, and writes the hits of each line. What it writes is a list of `Out`: a `write`
to the standard output, or the `lseek` by which it steps back over the last blank. The four
handlers share this loop (`searchLines`); they differ in the scan of one line.

A `NULL` that is followed is `none`: the head of an empty index, or `nextWord` at the end of a
line. Everywhere else the result is a function of the file, the index and the words: the scans
are given on texts (`swordOut`, `mwordOut`, `cwordOut`, `regexpOut`), `answer` is the search on
texts, and `handle_eq` says that a handler writes what `answer` says.

Source: `pa1/main.c`
-/

namespace SystemProgrammingLab.Pa1

open SystemProgrammingLab.Found

/-! ## Writing a hit -/

/-- What a handler does to the standard output. -/
inductive Out
  | write (bytes : List Char)
  | seekBack
  deriving DecidableEq

/-- The digits of a number, the last one first. Source: the `buffer` of `int_to_string` -/
def digitBuffer (num : Nat) : List Char :=
  if num = 0 then [] else Char.ofNat (num % 10 + '0'.toNat) :: digitBuffer (num / 10)

/-- Source: `int_to_string` -/
def intToString (num : Nat) : List Char :=
  (if num = 0 then ['0'] else digitBuffer num).reverse ++ [nul]

/-- `write(1, s, stringlen(s))`. Source: `handle_sword` -/
def writeString (s : List Char) : Option Out := (stringlen s).map fun len => .write (s.take len)

/-- `L:C` and a blank. Source: `handle_sword`, `handle_cword` -/
def writePlace (lineNum idx : Nat) : Option (List Out) := do
  let lineNum ← writeString (intToString lineNum)
  let idx ← writeString (intToString idx)
  return [lineNum, .write [':'], idx, .write [' ']]

/-- `L` and a blank. Source: `handle_mword`, `handle_regexp` -/
def writeLine (lineNum : Nat) : Option (List Out) := do
  let lineNum ← writeString (intToString lineNum)
  return [lineNum, .write [' ']]

/-- The digits are in the buffer from the last one to the first one. -/
theorem reverse_digitBuffer {num : Nat} (h : 0 < num) :
    (digitBuffer num).reverse = decimal num := by
  induction num using Nat.strong_induction_on with
  | _ num ih =>
      have hdigit : Char.ofNat (num % 10 + '0'.toNat) = Nat.digitChar (num % 10) := by
        have hall : ∀ d < 10, Char.ofNat (d + '0'.toNat) = Nat.digitChar d := by decide
        exact hall _ (Nat.mod_lt _ (by omega))
      rw [digitBuffer, if_neg h.ne', List.reverse_cons, hdigit]
      unfold decimal at ih ⊢
      rcases Nat.lt_or_ge num 10 with hlt | hge
      · rw [Nat.toDigits_of_lt_base hlt, Nat.div_eq_of_lt hlt, Nat.mod_eq_of_lt hlt, digitBuffer]
        rfl
      · have hpos : 0 < num / 10 := Nat.div_pos hge (by omega)
        rw [ih (num / 10) (Nat.div_lt_self h (by omega)) hpos,
          Nat.toDigits_of_base_le (by omega) hge]

/-- `int_to_string` writes the decimal digits. -/
theorem intToString_eq (num : Nat) : intToString num = decimal num ++ [nul] := by
  unfold intToString
  split_ifs with h
  · subst h
    rfl
  · rw [reverse_digitBuffer (Nat.pos_of_ne_zero h)]

/-- What is written for a number is its decimal text. -/
theorem writeString_intToString (num : Nat) :
    writeString (intToString num) = some (.write (decimal num)) := by
  have hnul : nul ∉ decimal num := fun h => absurd (isDigit_of_mem_decimal h) (by decide)
  unfold writeString
  rw [intToString_eq, stringlen_text hnul, Option.map_some, List.take_left]

/-- What `writePlace` writes. -/
def placeOut (lineNum idx : Nat) : List Out :=
  [.write (decimal lineNum), .write [':'], .write (decimal idx), .write [' ']]

/-- What `writeLine` writes. -/
def lineOut (lineNum : Nat) : List Out := [.write (decimal lineNum), .write [' ']]

/-- What is written for a place. -/
theorem writePlace_eq (lineNum idx : Nat) : writePlace lineNum idx = some (placeOut lineNum idx) := by
  unfold writePlace
  rw [writeString_intToString, writeString_intToString]
  rfl

/-- What is written for a line. -/
theorem writeLine_eq (lineNum : Nat) : writeLine lineNum = some (lineOut lineNum) := by
  unfold writeLine
  rw [writeString_intToString]
  rfl

/-! ## The scans of a line -/

/-- The loop over the places of the word in a line, from `start` on. Source: `handle_sword` -/
def swordHits (fill : Nat → Char) (toFind content : List Char) (lineNum : Nat)
    (start : List Char) : Option (List Out) :=
  match h : isincluded fill toFind start with
  | none => none
  | some none => some []
  | some (some pos) =>
      have : pos.tail.length < start.length := length_tail_lt (isincluded_suffix h).1 (isincluded_suffix h).2
      (writePlace lineNum (content.length - pos.length)).bind fun out =>
        (swordHits fill toFind content lineNum pos.tail).map fun outs => out ++ outs
termination_by start.length
decreasing_by exact this

/-- The loop over the words of the input list: whether it ends behind the last one.
Source: `handle_mword` -/
def allIncluded (fill : Nat → Char) (content : List Char) (heap : Heap (Node Word)) :
    Nat → Ptr → Option Bool
  | 0, _ => some true
  | n + 1, toFind =>
      (heap.load toFind).bind fun node =>
        match isincluded fill node.val.content content with
        | none => none
        | some none => some false
        | some (some _) => allIncluded fill content heap n node.next

/-- `*(pos + len) == ' ' || *(pos + len) == '\t' || *(pos + len) == '\0'`. Source: `handle_cword` -/
def endsAt (pos : List Char) (len : Nat) : Option Bool :=
  ((pos.drop len).head?).map fun c => isBlank c || c == nul

/-- The hit at the word `startp` of a line, if the phrase was found there and ends with a word. Source:
`handle_cword` -/
def phraseHit (content : List Char) (lineNum : Nat) (startp pos : List Char) (len : Nat) :
    Option (List Out) :=
  if pos.length = startp.length then
    (endsAt pos len).bind fun ends =>
      if ends then writePlace lineNum (content.length - pos.length) else some []
  else some []

/-- The loop over the words of a line, from `startp` on; `len` is the length of `toFind`.
Source: `handle_cword` -/
def cwordHits (toFind : List Char) (len : Nat) (content : List Char) (lineNum : Nat)
    (startp : List Char) : Option (List Out) :=
  match startp with
  | [] => none
  | c :: cs =>
      if c = nul then some []
      else
        match issubstring toFind (c :: cs) with
        | none => none
        | some none => some []
        | some (some pos) =>
            (phraseHit content lineNum (c :: cs) pos len).bind fun out =>
              match h : nextWord (c :: cs) with
              | some (some next) =>
                  have := nextWord_length_lt h
                  (cwordHits toFind len content lineNum next).map fun outs => out ++ outs
              | some none => none
              | none => none
termination_by startp.length
decreasing_by exact this

/-- The first place of `word1`, and whether `word2` comes behind the next word. The scan follows
the results of `nextWord` without looking at them. Source: `handle_regexp` -/
def regexpHits (fill : Nat → Char) (word1 word2 : List Char) (lineNum : Nat)
    (content : List Char) : Option (List Out) :=
  match isincluded fill word1 content with
  | none => none
  | some none => some []
  | some (some start) => do
      let next ← (nextWord start).join
      let next ← (nextWord next).join
      let start ← isincluded fill word2 next
      if start ≠ none then writeLine lineNum else some []

/-! ## The handlers -/

/-- `lseek(fd, offset, SEEK_SET)` moves the descriptor from `_pos` to `offset`. -/
def seekSet (_pos offset : Nat) : Nat := offset

/-- The loop over the lines of the index: `n` more lines, the next one in `idxNode`. Source: `handle_sword`,
`handle_mword`, `handle_cword`, `handle_regexp` -/
def searchLines (fill : Nat → Char) (file : List Char) (heap : Heap (Node Line))
    (scan : Nat → List Char → Option (List Out)) : Nat → Ptr → Nat → Option (List Out × Nat)
  | 0, _, pos => some ([], pos)
  | n + 1, idxNode, pos => do
      let node ← heap.load idxNode
      let (content, pos) ← extractLine fill file pos node.val.size
      let out ← scan node.val.lineNum content
      let (outs, pos) ← searchLines fill file heap scan n node.next pos
      return (out ++ outs, pos)

/-- What the handlers share: `scan` is their scan of a line, and `flag` is set where it writes. The result is
what is written, and the new offset of the descriptor. Source: `handle_sword`, `handle_mword`, `handle_cword`,
`handle_regexp` -/
def search (fill : Nat → Char) (file : List Char) (indexList : LinkedList Line) (pos : Nat)
    (scan : Nat → List Char → Option (List Out)) : Option (List Out × Nat) := do
  let idxNode ← indexList.heap.load indexList.list.head
  let pos := seekSet pos idxNode.val.offset
  let (out, pos) ← searchLines fill file indexList.heap scan indexList.list.num.toNat
    indexList.list.head pos
  let flag := out ≠ []
  return (out ++ (if flag then [.seekBack] else []) ++ [.write ['\n']], pos)

/-- Source: `handle_sword` -/
def handleSword (fill : Nat → Char) (file : List Char) (indexList : LinkedList Line)
    (inputList : InputList) (pos : Nat) : Option (List Out × Nat) := do
  let toFind ← inputList.heap.load inputList.list.head
  search fill file indexList pos fun lineNum content =>
    swordHits fill toFind.val.content content lineNum content

/-- Source: `handle_mword` -/
def handleMword (fill : Nat → Char) (file : List Char) (indexList : LinkedList Line)
    (inputList : InputList) (pos : Nat) : Option (List Out × Nat) :=
  search fill file indexList pos fun lineNum content =>
    (allIncluded fill content inputList.heap inputList.list.num.toNat inputList.list.head).bind
      fun all => if all then writeLine lineNum else some []

/-- Source: `handle_cword` -/
def handleCword (fill : Nat → Char) (file : List Char) (indexList : LinkedList Line)
    (inputList : InputList) (pos : Nat) : Option (List Out × Nat) := do
  let toFind ← inputList.heap.load inputList.list.head
  search fill file indexList pos fun lineNum content =>
    (stringlen toFind.val.content).bind fun len =>
      cwordHits toFind.val.content len content lineNum content

/-- Source: `handle_regexp` -/
def handleRegexp (fill : Nat → Char) (file : List Char) (indexList : LinkedList Line)
    (inputList : InputList) (pos : Nat) : Option (List Out × Nat) := do
  let word1 ← inputList.heap.load inputList.list.head
  let word2 ← inputList.heap.load inputList.list.tail
  search fill file indexList pos fun lineNum content =>
    regexpHits fill word1.val.content word2.val.content lineNum content

/-! ## The scans on texts -/

/-- The hits of `swordHits` in the line `s`, from its part `t` on. -/
def swordOut (word s : List Char) (lineNum : Nat) (t : List Char) : List Out :=
  match h : findWord word t with
  | none => []
  | some pos =>
      have : pos.tail.length < t.length := length_tail_lt (findWord_suffix h).1 (findWord_suffix h).2
      placeOut lineNum (s.length - pos.length) ++ swordOut word s lineNum pos.tail
termination_by t.length
decreasing_by exact this

/-- Every word is a word of the line. -/
def mwordOut (words : List (List Char)) (s : List Char) (lineNum : Nat) : List Out :=
  if words.all fun w => (findWord w s).isSome then lineOut lineNum else []

/-- The hit of `phraseHit` at the part `t` of the line `s`. -/
def phraseOut (s : List Char) (lineNum : Nat) (t pos : List Char) (len : Nat) : List Out :=
  if pos.length = t.length ∧ (pos.drop len).head?.all isBlank then
    placeOut lineNum (s.length - pos.length)
  else []

/-- The hits of `cwordHits` in the line `s`, from its part `t` on. -/
def cwordOut (sub s : List Char) (lineNum : Nat) (t : List Char) : List Out :=
  match t with
  | [] => []
  | c :: cs =>
      match findSub sub (c :: cs) with
      | none => []
      | some pos =>
          phraseOut s lineNum (c :: cs) pos sub.length ++
            have := afterWord_length_lt (List.cons_ne_nil c cs)
            cwordOut sub s lineNum (afterWord (c :: cs))
termination_by t.length
decreasing_by exact this

/-- `none` when the first place of `word1` is at the last word. -/
def regexpOut (word1 word2 s : List Char) (lineNum : Nat) : Option (List Out) :=
  match findWord word1 s with
  | none => some []
  | some start =>
      let next := afterWord start
      if next = [] then none
      else if (findWord word2 (afterWord next)).isSome then some (lineOut lineNum)
      else some []

section scans

variable {s rest : List Char} (fill : Nat → Char) (lineNum : Nat)

/-- The character behind a place is the next one of the text, or the NUL. -/
theorem endsAt_text {pos : List Char} {len : Nat} (hpos : nul ∉ pos) (hlen : len ≤ pos.length) :
    endsAt (pos ++ nul :: rest) len = some ((pos.drop len).head?.all isBlank) := by
  unfold endsAt
  rw [List.drop_append_of_le_length hlen]
  rcases hdrop : pos.drop len with _ | ⟨d, ds⟩
  · rfl
  · have hd : (d == nul) = false := by
      apply beq_eq_false_iff_ne.mpr
      rintro rfl
      exact hpos ((List.drop_suffix len pos).subset (by simp [hdrop]))
    simp [hd]

/-- The scan ends where the word does not occur any more. -/
theorem swordOut_of_none {word t : List Char} (h : findWord word t = none) :
    swordOut word s lineNum t = [] := by
  rw [swordOut.eq_def]
  split
  · rfl
  · rename_i heq
    rw [h] at heq
    cases heq

/-- After a hit the scan goes on behind the first character of the word. -/
theorem swordOut_of_some {word t pos : List Char} (h : findWord word t = some pos) :
    swordOut word s lineNum t =
      placeOut lineNum (s.length - pos.length) ++ swordOut word s lineNum pos.tail := by
  rw [swordOut.eq_def]
  split
  · rename_i heq
    rw [h] at heq
    cases heq
  · rename_i heq
    rw [h] at heq
    cases heq
    rfl

/-- A word that is found no more has no further hits. -/
theorem swordHits_of_none {toFind content start : List Char}
    (h : isincluded fill toFind start = some none) :
    swordHits fill toFind content lineNum start = some [] := by
  rw [swordHits.eq_def]
  split
  · rename_i heq
    rw [h] at heq
    cases heq
  · rfl
  · rename_i heq
    rw [h] at heq
    cases heq

/-- A word that is found has a hit there, and those behind it. -/
theorem swordHits_of_some {toFind content start pos : List Char}
    (h : isincluded fill toFind start = some (some pos)) :
    swordHits fill toFind content lineNum start =
      (swordHits fill toFind content lineNum pos.tail).map fun outs =>
        placeOut lineNum (content.length - pos.length) ++ outs := by
  rw [swordHits.eq_def]
  split
  · rename_i heq
    rw [h] at heq
    cases heq
  · rename_i heq
    rw [h] at heq
    cases heq
  · rename_i heq
    rw [h] at heq
    cases heq
    rw [writePlace_eq, Option.bind_some]

/-- The scan for a word, on the text of the line. -/
theorem swordHits_text {word rest' : List Char} (hword : nul ∉ word) (t : List Char)
    (ht : nul ∉ t) :
    swordHits fill (word ++ nul :: rest') (s ++ nul :: rest) lineNum (t ++ nul :: rest) =
      some (swordOut word s lineNum t) := by
  induction t using length_induction with
  | step t ih =>
      have hfind : isincluded fill (word ++ nul :: rest') (t ++ nul :: rest) = _ :=
        isincluded_text fill hword ht
      rcases hfound : findWord word t with _ | pos
      · rw [hfound] at hfind
        rw [swordHits_of_none fill lineNum hfind, swordOut_of_none lineNum hfound]
      · obtain ⟨hsuffix, hne⟩ := findWord_suffix hfound
        obtain ⟨c, cs, rfl⟩ := List.exists_cons_of_ne_nil hne
        have hcs : nul ∉ cs := fun h => ht (hsuffix.subset (List.mem_cons_of_mem c h))
        have hrest := ih cs hsuffix.length_le hcs
        rw [hfound] at hfind
        rw [swordHits_of_some fill lineNum hfind, swordOut_of_some lineNum hfound,
          length_sub_length]
        show (swordHits _ _ _ _ (cs ++ nul :: rest)).map _ = _
        rw [hrest]
        rfl

/-- The check of all words, on the text of the line. -/
theorem allIncluded_text {heap : Heap (Node Word)} (hs : nul ∉ s) {words : List (List Char)} :
    ∀ {cnt : Nat} {toFind : Ptr}, (∀ w ∈ words, nul ∉ w) →
      Chain heap toFind (numbered cnt words) →
      allIncluded fill (s ++ nul :: rest) heap words.length toFind =
        some (words.all fun w => (findWord w s).isSome) := by
  induction words with
  | nil =>
      intro cnt toFind _ _
      rfl
  | cons w words ih =>
      intro cnt toFind hwords hchain
      generalize hxs : numbered cnt (w :: words) = xs at hchain
      cases hchain with
      | nil => cases hxs
      | @cons _ node _ hload hchain =>
          obtain ⟨hval, rfl⟩ := List.cons.inj hxs
          have hcontent : node.val.content = w ++ nul :: [] := by rw [← hval]; rfl
          have hw : nul ∉ w := hwords w List.mem_cons_self
          have hfind : isincluded fill (w ++ nul :: []) (s ++ nul :: rest) = _ :=
            isincluded_text fill hw hs
          rw [List.length_cons, allIncluded, hload, Option.bind_some, hcontent, hfind]
          rcases hfound : findWord w s with _ | pos
          · simp [hfound]
          · rw [Option.map_some]
            dsimp only
            rw [ih (fun w' hw' => hwords w' (List.mem_cons_of_mem w hw')) hchain]
            simp [hfound]

/-- A place of the phrase, on the text of the line. -/
theorem phraseHit_text {t pos : List Char} {len : Nat} (hpos : nul ∉ pos)
    (hlen : len ≤ pos.length) :
    phraseHit (s ++ nul :: rest) lineNum (t ++ nul :: rest) (pos ++ nul :: rest) len =
      some (phraseOut s lineNum t pos len) := by
  unfold phraseHit phraseOut
  by_cases hplace : pos.length = t.length
  · rw [if_pos (by simp [hplace]), endsAt_text hpos hlen, Option.bind_some, writePlace_eq,
      length_sub_length]
    by_cases hends : (pos.drop len).head?.all isBlank = true
    · rw [if_pos hends, if_pos ⟨hplace, hends⟩]
    · rw [if_neg hends, if_neg fun h => hends h.2]
  · rw [if_neg (by simpa using hplace), if_neg fun h => hplace h.1]

/-- One round of the scan for a phrase. -/
theorem cwordHits_of_some {toFind content pos next : List Char} {len : Nat} {c : Char}
    {cs : List Char} {out : List Out} (hc : c ≠ nul)
    (hfind : issubstring toFind (c :: cs) = some (some pos))
    (hhit : phraseHit content lineNum (c :: cs) pos len = some out)
    (hnext : nextWord (c :: cs) = some (some next)) :
    cwordHits toFind len content lineNum (c :: cs) =
      (cwordHits toFind len content lineNum next).map fun outs => out ++ outs := by
  rw [cwordHits.eq_def]
  simp only [if_neg hc, hfind, hhit, Option.bind_some]
  split
  · rename_i heq
    rw [hnext] at heq
    cases heq
    rfl
  · rename_i heq
    rw [hnext] at heq
    cases heq
  · rename_i heq
    rw [hnext] at heq
    cases heq

/-- The scan for a phrase, on the text of the line. -/
theorem cwordHits_text {sub rest' : List Char} (hsub : nul ∉ sub) (t : List Char)
    (ht : nul ∉ t) :
    cwordHits (sub ++ nul :: rest') sub.length (s ++ nul :: rest) lineNum (t ++ nul :: rest) =
      some (cwordOut sub s lineNum t) := by
  induction t using length_induction with
  | step t ih =>
      cases t with
      | nil =>
          rw [List.nil_append, cwordHits.eq_def, cwordOut]
          exact if_pos rfl
      | cons c cs =>
          have hc : c ≠ nul := head_ne_nul ht
          have hfind : issubstring (sub ++ nul :: rest') (c :: cs ++ nul :: rest) = _ :=
            issubstring_text hsub ht
          have hnext : nextWord (c :: cs ++ nul :: rest) = _ :=
            nextWord_text ht (List.cons_ne_nil c cs)
          have hrest := ih (afterWord (c :: cs)) (afterWord_length_lt (List.cons_ne_nil c cs))
            fun h => ht ((afterWord_suffix _).subset h)
          rw [cwordOut]
          rcases hfound : findSub sub (c :: cs) with _ | pos
          · rw [hfound] at hfind
            rw [List.cons_append] at hfind ⊢
            rw [cwordHits.eq_def]
            simp only [if_neg hc, hfind, Option.map_none]
          · obtain ⟨hsuffix, -, hprefix⟩ := findSub_suffix hfound
            have hpos : nul ∉ pos := fun h => ht (hsuffix.subset h)
            have hhit : phraseHit (s ++ nul :: rest) lineNum (c :: cs ++ nul :: rest)
                (pos ++ nul :: rest) sub.length = _ := phraseHit_text lineNum hpos hprefix.length_le
            rw [hfound] at hfind
            apply (cwordHits_of_some lineNum hc hfind hhit hnext).trans
            rw [hrest]
            rfl

/-- The scan for two words, on the text of the line. -/
theorem regexpHits_text {word1 word2 rest₁ rest₂ : List Char} (hword1 : nul ∉ word1)
    (hword2 : nul ∉ word2) (hs : nul ∉ s) :
    regexpHits fill (word1 ++ nul :: rest₁) (word2 ++ nul :: rest₂) lineNum (s ++ nul :: rest) =
      regexpOut word1 word2 s lineNum := by
  unfold regexpHits regexpOut
  rw [isincluded_text fill hword1 hs]
  rcases hfound : findWord word1 s with _ | start
  · rfl
  · obtain ⟨hsuffix, hne⟩ := findWord_suffix hfound
    have hstart : nul ∉ start := fun h => hs (hsuffix.subset h)
    have hnext : nul ∉ afterWord start := fun h => hstart ((afterWord_suffix start).subset h)
    have hnext' : nul ∉ afterWord (afterWord start) := fun h =>
      hnext ((afterWord_suffix (afterWord start)).subset h)
    rw [Option.map_some]
    dsimp only
    rw [nextWord_text hstart hne, Option.bind_eq_bind, Option.join_some, Option.bind_some]
    by_cases hlast : afterWord start = []
    · rw [if_pos hlast, hlast]
      rfl
    · rw [if_neg hlast, nextWord_text hnext hlast, Option.join_some, Option.bind_some,
        isincluded_text fill hword2 hnext', Option.bind_eq_bind, Option.bind_some, writeLine_eq]
      rcases findWord word2 (afterWord (afterWord start)) with _ | pos <;> rfl

/-- The scan for two words is undefined where the first place of `word1` is the last word. -/
theorem regexpOut_eq_none {word1 word2 : List Char} : regexpOut word1 word2 s lineNum = none ↔
    ∃ start, findWord word1 s = some start ∧ afterWord start = [] := by
  unfold regexpOut
  rcases findWord word1 s with _ | start
  · simp
  · dsimp only
    split_ifs <;> simp [*]

/-- The scan of `handle_mword` finds the line with all the words. -/
theorem mwordHits_text {inputList : InputList} {words : List (List Char)} (hwords : ∀ w ∈ words, nul ∉ w)
    (hinput : inputList.Holds (numbered 0 words)) (hs : nul ∉ s) :
    ((allIncluded fill (s ++ nul :: rest) inputList.heap inputList.list.num.toNat
      inputList.list.head).bind fun all => if all then writeLine lineNum else some []) =
      some (mwordOut words s lineNum) := by
  have hnum : inputList.list.num.toNat = words.length := by
    rw [hinput.num, Int.toNat_natCast, length_numbered]
  rw [hnum, allIncluded_text fill hs hwords hinput.chain, Option.bind_some, writeLine_eq]
  unfold mwordOut
  split_ifs <;> rfl

/-- The scan of `handle_cword` finds the places of the phrase. -/
theorem phraseHits_text {sub rest' : List Char} (hsub : nul ∉ sub) (hs : nul ∉ s) :
    ((stringlen (sub ++ nul :: rest')).bind fun len =>
      cwordHits (sub ++ nul :: rest') len (s ++ nul :: rest) lineNum (s ++ nul :: rest)) =
      some (cwordOut sub s lineNum s) := by
  rw [stringlen_text hsub, Option.bind_some]
  exact cwordHits_text lineNum hsub s hs

end scans

/-! ## The searches on texts -/

/-- The hits of lines, one line after the other. -/
def linesOut (scan : Line → Option (List Out)) : List Line → Option (List Out)
  | [] => some []
  | e :: es => do
      let out ← scan e
      let outs ← linesOut scan es
      return out ++ outs

/-- The hits of a line for the words of a query. -/
def scanOut (mode : Mode) (words : List (List Char)) (s : List Char) (lineNum : Nat) :
    Option (List Out) :=
  match mode, words with
  | .sword, [word] => some (swordOut word s lineNum s)
  | .mword, words => some (mwordOut words s lineNum)
  | .cword, [sub] => some (cwordOut sub s lineNum s)
  | .regexp, [word1, word2] => regexpOut word1 word2 s lineNum
  | _, _ => none

/-- The hits of all lines, a step back over the last blank if there are any, and a newline;
`none` over the empty index, whose head the search follows. -/
def searchOut (scan : Line → Option (List Out)) (lines : List Line) : Option (List Out) :=
  if lines = [] then none
  else (linesOut scan lines).map fun out =>
    out ++ (if out ≠ [] then [.seekBack] else []) ++ [.write ['\n']]

/-- The scans of some lines are undefined if one of them is. -/
theorem linesOut_eq_none_iff {scan : Line → Option (List Out)} {es : List Line} :
    linesOut scan es = none ↔ ∃ e ∈ es, scan e = none := by
  induction es with
  | nil => simp [linesOut]
  | cons e es ih =>
      rw [linesOut, List.exists_mem_cons_iff, ← ih]
      rcases scan e with _ | out
      · simp
      · rcases linesOut scan es with _ | outs <;> simp

/-- A search is undefined if there is no line or the scan of one is undefined. -/
theorem searchOut_eq_none_iff {scan : Line → Option (List Out)} {es : List Line} :
    searchOut scan es = none ↔ es = [] ∨ ∃ e ∈ es, scan e = none := by
  unfold searchOut
  split_ifs with hes
  · exact iff_of_true rfl (.inl hes)
  · rw [Option.map_eq_none_iff, linesOut_eq_none_iff]
    exact (or_iff_right hes).symm

/-- What a search writes, over a file with these lines. -/
def answer (file : List Char) (lines : List Line) (mode : Mode) (words : List (List Char)) :
    Option (List Out) :=
  searchOut (fun e => scanOut mode words (lineText file e) e.lineNum) lines

section searches

variable {file : List Char} {indexList : LinkedList Line} {lines : List Line} {fin : Nat}
  {scan : Nat → List Char → Option (List Out)} {scanText : Line → Option (List Out)}
  (fill : Nat → Char)

/-- The loop reads every line where it lies in the file. -/
theorem searchLines_eq {heap : Heap (Node Line)}
    (hscan : ∀ e ∈ lines, ∃ content, extractLine fill file e.offset e.size =
      some (content, e.offset + e.size) ∧ scan e.lineNum content = scanText e) :
    ∀ {idxNode : Ptr} {pos : Nat}, Chain heap idxNode lines → Contiguous pos lines fin →
      searchLines fill file heap scan lines.length idxNode pos =
        (linesOut scanText lines).map fun out => (out, fin) := by
  induction lines with
  | nil =>
      intro idxNode pos _ hcont
      rw [show pos = fin from hcont]
      rfl
  | cons e es ih =>
      intro idxNode pos hchain hcont
      obtain ⟨rfl, hsize, hcont⟩ := hcont
      generalize hxs : e :: es = xs at hchain
      cases hchain with
      | nil => cases hxs
      | @cons _ node _ hload hchain =>
          obtain ⟨rfl, rfl⟩ := List.cons.inj hxs
          obtain ⟨content, hline, hout⟩ := hscan node.val List.mem_cons_self
          have hrest := ih (fun e he => hscan e (List.mem_cons_of_mem _ he)) hchain hcont
          rw [List.length_cons, searchLines, linesOut]
          simp only [Option.bind_eq_bind, hload, Option.bind_some, hline, hout, hrest]
          rcases scanText node.val with _ | out
          · rfl
          · rcases linesOut scanText es with _ | outs <;> rfl

/-- A search writes what the scans of its lines say, wherever the descriptor stood. -/
theorem search_eq (hindex : indexList.Holds lines) (hcont : Contiguous 0 lines fin)
    (hscan : ∀ e ∈ lines, ∃ content, extractLine fill file e.offset e.size =
      some (content, e.offset + e.size) ∧ scan e.lineNum content = scanText e) (pos : Nat) :
    search fill file indexList pos scan =
      (searchOut scanText lines).map fun out => (out, fin) := by
  rcases lines with _ | ⟨e, es⟩
  · unfold search
    rw [hindex.load_head_nil]
    rfl
  · obtain ⟨node, hload, rfl⟩ := hindex.head
    have hlines := searchLines_eq fill hscan hindex.chain hcont
    have hnum : indexList.list.num.toNat = (node.val :: es).length := by
      rw [hindex.num, Int.toNat_natCast]
    have hseek : seekSet pos node.val.offset = 0 := hcont.1
    unfold search searchOut
    simp only [Option.bind_eq_bind, hload, Option.bind_some, hseek, hnum, hlines,
      if_neg (List.cons_ne_nil node.val es)]
    rcases linesOut scanText (node.val :: es) with _ | out <;> rfl

/-- The same for scans that look at the texts of the lines only. -/
theorem search_text (hindex : indexList.Holds lines) (hcont : Contiguous 0 lines fin)
    (hfin : fin ≤ file.length)
    (hscan : ∀ e ∈ lines, ∀ rest, scan e.lineNum (lineText file e ++ nul :: rest) = scanText e)
    (pos : Nat) :
    search fill file indexList pos scan =
      (searchOut scanText lines).map fun out => (out, fin) := by
  refine search_eq fill hindex hcont ?_ pos
  intro e he
  obtain ⟨hsize, hle⟩ := hcont.of_mem he
  obtain ⟨rest, hline⟩ := extractLine_text fill hsize (hle.trans hfin)
  exact ⟨_, hline, hscan e he rest⟩

variable {inputList : InputList} (hindex : indexList.Holds lines)
  (hcont : Contiguous 0 lines fin) (hfin : fin ≤ file.length)

include hindex hcont hfin

/-- The search for a word, on the texts of the lines. -/
theorem handleSword_text {word : List Char} (hword : nul ∉ word)
    (hinput : inputList.Holds (numbered 0 [word])) (pos : Nat) :
    handleSword fill file indexList inputList pos =
      (answer file lines .sword [word]).map fun out => (out, fin) := by
  obtain ⟨node, hload, hval⟩ := hinput.head
  unfold handleSword
  rw [hload, Option.bind_eq_bind, Option.bind_some, hval]
  apply search_text fill hindex hcont hfin
  intro e _ rest
  exact swordHits_text fill e.lineNum hword _ (nul_notMem_lineText file e)

/-- The search for several words, on the texts of the lines. -/
theorem handleMword_text {words : List (List Char)} (hwords : ∀ w ∈ words, nul ∉ w)
    (hinput : inputList.Holds (numbered 0 words)) (pos : Nat) :
    handleMword fill file indexList inputList pos =
      (answer file lines .mword words).map fun out => (out, fin) := by
  unfold handleMword
  apply search_text fill hindex hcont hfin
  intro e _ rest
  exact mwordHits_text fill e.lineNum hwords hinput (nul_notMem_lineText file e)

/-- The search for a phrase, on the texts of the lines. -/
theorem handleCword_text {sub : List Char} (hsub : nul ∉ sub)
    (hinput : inputList.Holds (numbered 0 [sub])) (pos : Nat) :
    handleCword fill file indexList inputList pos =
      (answer file lines .cword [sub]).map fun out => (out, fin) := by
  obtain ⟨node, hload, hval⟩ := hinput.head
  unfold handleCword
  rw [hload, Option.bind_eq_bind, Option.bind_some, hval]
  apply search_text fill hindex hcont hfin
  intro e _ rest
  exact phraseHits_text e.lineNum hsub (nul_notMem_lineText file e)

/-- The search for two words, on the texts of the lines. -/
theorem handleRegexp_text {word1 word2 : List Char} (hword1 : nul ∉ word1) (hword2 : nul ∉ word2)
    (hinput : inputList.Holds (numbered 0 [word1, word2])) (pos : Nat) :
    handleRegexp fill file indexList inputList pos =
      (answer file lines .regexp [word1, word2]).map fun out => (out, fin) := by
  obtain ⟨node1, hload1, hval1⟩ := hinput.head
  have hsnoc : inputList.Holds ([.ofText 1 word1] ++ [.ofText 2 word2]) := hinput
  obtain ⟨node2, hload2, hval2⟩ := hsnoc.tail
  unfold handleRegexp
  simp only [hload1, hload2, Option.bind_eq_bind, Option.bind_some, hval1, hval2]
  apply search_text fill hindex hcont hfin
  intro e _ rest
  exact regexpHits_text fill e.lineNum hword1 hword2 (nul_notMem_lineText file e)

end searches

end SystemProgrammingLab.Pa1
