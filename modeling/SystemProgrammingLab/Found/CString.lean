import Mathlib.Data.List.TakeWhile
import Mathlib.Tactic.Common

/-!
# Strings inside of a buffer

A buffer is a list of characters, and a `char *` into it an offset. The string at an offset is what
stands there before the next NUL (`textAt`); without a NUL there is none, and reading or writing
outside of the buffer is `none` as well. So several strings lie in one buffer, one behind the other or
one as the end of another, and a NUL that is written cuts all the strings that go over its place
(`textAt_cut`) and leaves those behind it alone (`textAt_set_before`).

`strstr` and `strtok` are the functions of the C library on such buffers. `tokens` is the loop that
calls `strtok` until it returns `NULL`: the strings it leaves are the words of the text
(`tokens_spec`).
-/

namespace SystemProgrammingLab.Found

/-- `'\0'` -/
abbrev terminator : Char := '\x00'

/-! ## Reading and writing -/

/-- The string at the offset `o`. -/
def textAt (buf : List Char) (o : Nat) : Option (List Char) :=
  if terminator ∈ buf.drop o then some ((buf.drop o).takeWhile (· ≠ terminator)) else none

/-- `strlen(buf + o)` -/
def strlen (buf : List Char) (o : Nat) : Option Nat := (textAt buf o).map List.length

/-- `buf[i]` -/
def readAt (buf : List Char) (i : Int) : Option Char := if 0 ≤ i then buf[i.toNat]? else none

/-- `buf[i] = c` -/
def writeAt (buf : List Char) (i : Int) (c : Char) : Option (List Char) :=
  if 0 ≤ i ∧ i < buf.length then some (buf.set i.toNat c) else none

section text

variable {buf s t : List Char} {o i k : Nat}

/-- The string at `o` is `s` if `s` lies there, with a NUL behind it. -/
theorem textAt_eq_some_iff :
    textAt buf o = some s ↔ terminator ∉ s ∧ ∃ post, buf.drop o = s ++ terminator :: post := by
  unfold textAt
  constructor
  · intro h
    split_ifs at h with hmem
    obtain rfl := Option.some.inj h
    refine ⟨fun hin => by simpa using List.mem_takeWhile_imp hin, ?_⟩
    rcases hdrop : (buf.drop o).dropWhile (· ≠ terminator) with _ | ⟨c, post⟩
    · rw [List.dropWhile_eq_nil_iff] at hdrop
      exact absurd (hdrop _ hmem) (by simp)
    · have hc : c = terminator := by
        have hhead := List.head?_dropWhile_not (· ≠ terminator) (buf.drop o)
        rw [hdrop] at hhead
        simpa using hhead
      subst hc
      exact ⟨post, by rw [← hdrop, List.takeWhile_append_dropWhile]⟩
  · rintro ⟨hs, post, hdrop⟩
    rw [if_pos (by simp [hdrop]), hdrop, List.takeWhile_append_of_pos]
    · simp
    · intro c hc
      simp only [decide_not, Bool.not_eq_eq_eq_not, Bool.not_true, decide_eq_false_iff_not]
      rintro rfl
      exact hs hc

/-- A text ends inside of the buffer. -/
theorem textAt_lt (h : textAt buf o = some s) : o + s.length < buf.length := by
  obtain ⟨-, post, hdrop⟩ := textAt_eq_some_iff.mp h
  have hlen := congrArg List.length hdrop
  simp only [List.length_drop, List.length_append, List.length_cons] at hlen
  omega

/-- The text of a literal. -/
theorem textAt_literal (hs : terminator ∉ s) : textAt (s ++ [terminator]) 0 = some s :=
  textAt_eq_some_iff.mpr ⟨hs, [], rfl⟩

/-- The end of a string is a string. -/
theorem textAt_add (h : textAt buf o = some s) (hk : k ≤ s.length) :
    textAt buf (o + k) = some (s.drop k) := by
  obtain ⟨hs, post, hdrop⟩ := textAt_eq_some_iff.mp h
  refine textAt_eq_some_iff.mpr ⟨fun hin => hs ((List.drop_suffix k s).subset hin), post, ?_⟩
  rw [← List.drop_drop, hdrop, List.drop_append_of_le_length hk]

/-- A write before a string leaves it alone. -/
theorem textAt_set_before (hi : i < o) (c : Char) : textAt (buf.set i c) o = textAt buf o := by
  unfold textAt
  rw [List.drop_set_of_lt hi]

/-- A NUL cuts a string. -/
theorem textAt_cut (h : textAt buf o = some s) (hi : o ≤ i) :
    textAt (buf.set i terminator) o = some (s.take (i - o)) := by
  obtain ⟨hs, post, hdrop⟩ := textAt_eq_some_iff.mp h
  obtain ⟨k, rfl⟩ := Nat.exists_eq_add_of_le hi
  rw [Nat.add_sub_cancel_left, textAt_eq_some_iff, List.drop_set, if_neg (by omega),
    Nat.add_sub_cancel_left, hdrop]
  refine ⟨fun hin => hs ((List.take_prefix k s).subset hin), ?_⟩
  rcases Nat.lt_or_ge k s.length with hlt | hge
  · refine ⟨s.drop (k + 1) ++ terminator :: post, ?_⟩
    rw [List.set_append_left _ _ hlt, List.set_eq_take_append_cons_drop, if_pos hlt,
      List.append_assoc, List.cons_append]
  · rw [List.take_of_length_le hge, List.set_append_right _ _ hge]
    rcases hsub : k - s.length with _ | j
    · exact ⟨post, rfl⟩
    · exact ⟨post.set j terminator, rfl⟩

/-- `strlen` is the length of the text. -/
theorem strlen_eq (h : textAt buf o = some s) : strlen buf o = some s.length := by
  rw [strlen, h]
  rfl

/-- A read inside of the text gives its character. -/
theorem readAt_add (h : textAt buf o = some s) (hk : k < s.length) :
    readAt buf (o + k : Nat) = s[k]? := by
  obtain ⟨-, post, hdrop⟩ := textAt_eq_some_iff.mp h
  rw [readAt, if_pos (Int.natCast_nonneg _), Int.toNat_natCast, ← List.getElem?_drop, hdrop,
    List.getElem?_append_left hk]

/-- A write inside of the buffer sets the cell. -/
theorem writeAt_eq (hi : i < buf.length) (c : Char) : writeAt buf (i : Nat) c = some (buf.set i c) := by
  rw [writeAt, if_pos ⟨Int.natCast_nonneg _, by exact_mod_cast hi⟩, Int.toNat_natCast]

/-- In a buffer that ends in a NUL a string lies everywhere. -/
theorem exists_textAt (h : buf.getLast? = some terminator) (ho : o < buf.length) : ∃ s, textAt buf o = some s := by
  have hmem : terminator ∈ buf.drop o := by
    apply List.mem_of_getLast?
    rw [List.getLast?_drop, if_neg (Nat.not_le_of_lt ho), h]
  exact ⟨_, if_pos hmem⟩

/-- A NUL that is written leaves a NUL at the end of the buffer. -/
theorem getLast?_set_terminator (h : buf.getLast? = some terminator) (i : Nat) :
    (buf.set i terminator).getLast? = some terminator := by
  obtain ⟨front, rfl⟩ := List.getLast?_eq_some_iff.mp h
  rcases Nat.lt_or_ge i front.length with hlt | hge
  · rw [List.set_append_left _ _ hlt, List.getLast?_concat]
  · rw [List.set_append_right _ _ hge]
    rcases i - front.length with _ | j <;> simp

end text

/-! ## Searching -/

/-- The place of the first occurrence. -/
def findAt (needle : List Char) : List Char → Option Nat
  | [] => if needle = [] then some 0 else none
  | c :: cs => if needle.isPrefixOf (c :: cs) then some 0 else (findAt needle cs).map (· + 1)

/-- `strstr(buf + o, needle)` -/
def strstr (buf : List Char) (o : Nat) (needle : List Char) : Option (Option Nat) :=
  (textAt buf o).map fun s => (findAt needle s).map (o + ·)

section find

variable {needle x s : List Char} {d : Char}

/-- A text that starts with the needle has it at its start. -/
theorem findAt_of_prefix (h : needle <+: s) : findAt needle s = some 0 := by
  cases s with
  | nil => rw [findAt, if_pos (List.prefix_nil.mp h)]
  | cons c cs => rw [findAt, if_pos (List.isPrefixOf_iff_prefix.mpr h)]

/-- Otherwise it is searched for behind the first character. -/
theorem findAt_cons (c : Char) (h : ¬ needle <+: c :: s) :
    findAt needle (c :: s) = (findAt needle s).map (· + 1) := by
  rw [findAt, if_neg (List.isPrefixOf_iff_prefix.not.mpr h)]

/-- A text that is shorter than the needle has it nowhere. -/
theorem findAt_eq_none_of_length_lt (h : s.length < needle.length) : findAt needle s = none := by
  induction s with
  | nil => exact if_neg (List.ne_nil_of_length_pos h)
  | cons c s ih =>
      rw [findAt_cons c fun hprefix => absurd hprefix.length_le (by omega),
        ih (Nat.lt_of_succ_lt h)]
      rfl

/-- An occurrence lies within the text. -/
theorem findAt_add_le {k : Nat} (h : findAt needle s = some k) : k + needle.length ≤ s.length := by
  induction s generalizing k with
  | nil =>
      rw [findAt] at h
      split_ifs at h with hnil
      obtain rfl := Option.some.inj h
      rw [hnil]
      exact le_rfl
  | cons c s ih =>
      by_cases hprefix : needle <+: c :: s
      · rw [ findAt_of_prefix hprefix] at h
        obtain rfl := Option.some.inj h
        rw [Nat.zero_add]
        exact hprefix.length_le
      · rw [findAt_cons c hprefix] at h
        obtain ⟨j, hj, rfl⟩ := Option.map_eq_some_iff.mp h
        have hle := ih hj
        rw [List.length_cons]
        omega

/-- No occurrence starts where its first character does not stand. -/
theorem findAt_append (hx : d ∉ x) (s : List Char) :
    findAt (d :: needle) (x ++ s) = (findAt (d :: needle) s).map (x.length + ·) := by
  induction x with
  | nil =>
      simp
  | cons c x ih =>
      rw [List.mem_cons, not_or] at hx
      have hne : ¬ d :: needle <+: c :: (x ++ s) := fun h =>
        hx.1 (List.head_eq_of_cons_eq (List.prefix_iff_eq_append.mp h).symm).symm
      rw [List.cons_append, findAt_cons c hne, ih hx.2, Option.map_map]
      congr 1
      funext k
      simp only [Function.comp_apply, List.length_cons]
      omega

end find

/-! ## Words -/

/-- The words, each behind a delimiter. -/
def led (d : Char) (ws : List (List Char)) : List Char := ws.flatMap (d :: ·)

/-- The words with a delimiter between them. -/
def joined (d : Char) : List (List Char) → List Char
  | [] => []
  | w :: ws => w ++ led d ws

/-- A word to be split off at `d`. -/
def IsToken (d : Char) (w : List Char) : Prop := w ≠ [] ∧ d ∉ w

section words

variable {d : Char} {w : List Char} {ws vs : List (List Char)}

/-- No words. -/
@[simp] theorem led_nil : led d [] = [] := rfl

/-- The first word stands behind a separator. -/
@[simp] theorem led_cons : led d (w :: ws) = d :: (w ++ led d ws) := rfl

/-- Words behind words. -/
@[simp] theorem led_append : led d (ws ++ vs) = led d ws ++ led d vs := List.flatMap_append

/-- A character of none of the words is not between them. -/
theorem notMem_led {c : Char} (hc : c ≠ d) (h : ∀ w ∈ ws, c ∉ w) : c ∉ led d ws := by
  intro hmem
  obtain ⟨w, hw, hcw⟩ := List.mem_flatMap.mp hmem
  rcases List.mem_cons.mp hcw with heq | hcw
  · exact hc heq
  · exact h w hw hcw

/-- A text starts with a word and a delimiter only if it starts with this word. -/
theorem token_eq_of_led {v s : List Char} (hw : d ∉ w) (hv : d ∉ v) (hs : ∀ c ∈ s.head?, c = d)
    (h : w ++ [d] <+: v ++ s) : v = w := by
  obtain ⟨t, ht⟩ := h
  have htake : ∀ {u r : List Char}, d ∉ u → (u ++ d :: r).takeWhile (· ≠ d) = u := by
    intro u r hu
    rw [List.takeWhile_append_of_pos]
    · simp
    · intro c hc
      simpa using fun heq : c = d => hu (heq ▸ hc)
  rw [List.append_assoc, List.singleton_append] at ht
  cases s with
  | nil =>
      rw [List.append_nil] at ht
      exact absurd (ht ▸ by simp) hv
  | cons c s =>
      obtain rfl := hs c rfl
      rw [← htake hv, ← ht, htake hw]

/-- What stands behind the words starts with the separator, and so do they. -/
theorem head_led_append {s : List Char} (hs : ∀ c ∈ s.head?, c = d) :
    ∀ c ∈ (led d ws ++ s).head?, c = d := by
  cases ws with
  | nil => exact hs
  | cons w ws => simp

/-- A word with a delimiter on both sides is not found where it is no word. -/
theorem findAt_led (hw : d ∉ w) (hws : ∀ v ∈ ws, d ∉ v) (hne : w ∉ ws) {s : List Char}
    (hs : ∀ c ∈ s.head?, c = d) :
    findAt (d :: (w ++ [d])) (led d ws ++ s) =
      (findAt (d :: (w ++ [d])) s).map ((led d ws).length + ·) := by
  induction ws with
  | nil => simp
  | cons v ws ih =>
      rw [List.forall_mem_cons] at hws
      rw [List.mem_cons, not_or] at hne
      have hnot : ¬ d :: (w ++ [d]) <+: d :: (v ++ (led d ws ++ s)) := by
        rw [List.cons_prefix_cons]
        rintro ⟨-, h⟩
        exact hne.1 (token_eq_of_led hw hws.1 (head_led_append hs) h).symm
      rw [led_cons, List.cons_append, List.append_assoc, findAt_cons d hnot,
        findAt_append hws.1, ih hws.2 hne.2, Option.map_map, Option.map_map]
      congr 1
      funext k
      simp only [Function.comp_apply, List.length_cons, List.length_append]
      omega

end words

/-! ## Splitting into words -/

/-- The words between the delimiters. -/
def splitText (d : Char) (s : List Char) : List (List Char) := (s.splitOn d).filter (· ≠ [])

/-- `strtok_r(buf + o, {d}, &next)`: the token, and the offset in `next`. -/
def strtok (d : Char) (buf : List Char) (o : Nat) : Option (Option Nat × List Char × Nat) :=
  (textAt buf o).map fun s =>
    let start := o + (s.takeWhile (· = d)).length
    let token := (s.dropWhile (· = d)).takeWhile (· ≠ d)
    let stop := start + token.length
    if token = [] then (none, buf, start)
    else if stop = o + s.length then (some start, buf, stop)
    else (some start, buf.set stop terminator, stop + 1)

/-- The buffers differ at most between the offsets `o` and `o'`. -/
def SameOutside (o o' : Nat) (buf buf' : List Char) : Prop :=
  buf'.length = buf.length ∧ ∀ i, i < o ∨ o' ≤ i → buf'[i]? = buf[i]?

section split

variable {d : Char} {buf buf' s t w : List Char} {ws : List (List Char)} {o o' i : Nat}

/-- A buffer is the same as itself. -/
theorem SameOutside.refl (o o' : Nat) (buf : List Char) : SameOutside o o' buf buf :=
  ⟨rfl, fun _ _ => rfl⟩

/-- A write inside of the bounds changes nothing outside of them. -/
theorem SameOutside.set (h : SameOutside o o' buf buf') (hi : o ≤ i) (hi' : i < o') (c : Char) :
    SameOutside o o' buf (buf'.set i c) := by
  refine ⟨by rw [List.length_set, h.1], ?_⟩
  intro j hj
  rw [List.getElem?_set_ne (by omega), h.2 j hj]

/-- Two changes inside of the bounds. -/
theorem SameOutside.trans {p p' : Nat} {buf'' : List Char} (h : SameOutside o o' buf buf')
    (h' : SameOutside p p' buf' buf'') (hp : o ≤ p) (hp' : p' ≤ o') : SameOutside o o' buf buf'' := by
  refine ⟨h'.1.trans h.1, ?_⟩
  intro i hi
  rw [h'.2 i (by omega), h.2 i hi]

/-- A string that is not written to stays. -/
theorem SameOutside.textAt (h : SameOutside o o' buf buf') {p : Nat} (hs : textAt buf p = some s)
    (hp : p + s.length < o ∨ o' ≤ p) : textAt buf' p = some s := by
  have hlt := textAt_lt hs
  rw [textAt_eq_some_iff] at hs ⊢
  obtain ⟨hmem, post, hdrop⟩ := hs
  refine ⟨hmem, buf'.drop (p + s.length + 1), ?_⟩
  have hcell : ∀ j, j ≤ s.length → buf'[p + j]? = (s ++ terminator :: post)[j]? := by
    intro j hj
    rw [h.2 (p + j) (by omega), ← hdrop, List.getElem?_drop]
  apply List.ext_getElem?
  intro j
  rw [List.getElem?_drop]
  rcases Nat.lt_trichotomy j s.length with hj | rfl | hj
  · rw [hcell j hj.le, List.getElem?_append_left hj, List.getElem?_append_left hj]
  · rw [hcell s.length le_rfl]
    simp
  · rw [List.getElem?_append_right hj.le]
    obtain ⟨k, rfl⟩ := Nat.exists_eq_add_of_lt hj
    have hk : s.length + k + 1 - s.length = k + 1 := by omega
    rw [hk, List.getElem?_cons_succ, List.getElem?_drop]
    congr 1
    omega

/-- An empty text has no tokens. -/
theorem splitText_nil (d : Char) : splitText d [] = [] := rfl

/-- Delimiters before a word do not matter. -/
theorem splitText_dropWhile (s : List Char) :
    splitText d (s.dropWhile (· = d)) = splitText d s := by
  induction s with
  | nil => rfl
  | cons c s ih =>
      by_cases hc : c = d
      · subst hc
        rw [List.dropWhile_cons_of_pos (by simp), ih]
        have hsplit : (c :: s).splitOn c = [] :: s.splitOn c :=
          List.splitOn_append_cons_self_of_not_mem (List.not_mem_nil (a := c)) s
        unfold splitText
        rw [hsplit]
        rfl
      · rw [List.dropWhile_cons_of_neg (by simpa using hc)]

/-- A token is its only token. -/
theorem splitText_token (hw : IsToken d w) : splitText d w = [w] := by
  unfold splitText
  rw [List.splitOn_eq_singleton hw.2]
  simp [hw.1]

/-- A token in front of a separator is the first one. -/
theorem splitText_token_cons (hw : IsToken d w) (s : List Char) :
    splitText d (w ++ d :: s) = w :: splitText d s := by
  unfold splitText
  rw [List.splitOn_append_cons_self_of_not_mem hw.2]
  simp [hw.1]

/-- The words are pieces of the text. -/
theorem subset_of_mem_splitText (hw : w ∈ splitText d s) : w ⊆ s := by
  have hsubset : ∀ vs : List (List Char), w ∈ vs → w ⊆ [d].intercalate vs := by
    intro vs
    induction vs with
    | nil => exact fun h => nomatch h
    | cons v vs ih =>
        intro h
        rcases vs with _ | ⟨u, us⟩
        · rw [List.mem_singleton.mp h, List.intercalate_singleton]
          exact List.Subset.refl v
        · rw [List.intercalate_cons_cons]
          rcases List.mem_cons.mp h with rfl | h
          · exact List.subset_append_of_subset_left _ (List.subset_append_left _ _)
          · exact List.subset_append_of_subset_right _ (ih h)
  have hsplit := hsubset _ (List.mem_filter.mp hw).1
  rwa [List.intercalate_splitOn] at hsplit

/-- What a call leaves that returns the token at `start`: the token, and the rest of the text at
`next`. -/
structure Token (d : Char) (buf : List Char) (o : Nat) (s : List Char) (start : Nat)
    (buf' : List Char) (next : Nat) (token rest : List Char) : Prop where
  splitText_eq : splitText d s = token :: splitText d rest
  textAt_start : textAt buf' start = some token
  textAt_next : textAt buf' next = some rest
  start_lt : o ≤ start ∧ start < next
  stop_le : start + token.length < next ∨ rest = []
  next_eq : next + rest.length ≤ o + s.length
  same : SameOutside o (o + s.length) buf buf'

/-- Without a further token `strtok` stops at the end of the text. -/
theorem strtok_none (h : textAt buf o = some s) (hs : s.dropWhile (· = d) = []) :
    strtok d buf o = some (none, buf, o + s.length) ∧ splitText d s = [] := by
  refine ⟨?_, by rw [← splitText_dropWhile, hs, splitText_nil]⟩
  have htake := List.takeWhile_append_dropWhile (p := (· = d)) (l := s)
  rw [hs, List.append_nil] at htake
  rw [strtok, h, Option.map_some, hs, htake]
  rfl

/-- `strtok` finds the first token and ends it with a NUL. -/
theorem strtok_some (h : textAt buf o = some s) (hs : s.dropWhile (· = d) ≠ []) :
    ∃ start buf' next token rest, strtok d buf o = some (some start, buf', next) ∧
      Token d buf o s start buf' next token rest := by
  have hsplit := splitText_dropWhile (d := d) s
  have hskip := List.takeWhile_append_dropWhile (p := (· = d)) (l := s)
  have hword : (s.dropWhile (· = d)).takeWhile (· ≠ d) ≠ [] := by
    have hhead := List.head?_dropWhile_not (· = d) s
    rcases hdrop : s.dropWhile (· = d) with _ | ⟨c, u⟩
    · exact absurd hdrop hs
    · rw [hdrop] at hhead
      rw [List.takeWhile_cons_of_pos (by simpa using hhead)]
      exact List.cons_ne_nil _ _
  unfold strtok
  rw [h, Option.map_some]
  generalize s.takeWhile (· = d) = skip at hskip ⊢
  generalize s.dropWhile (· = d) = u at hs hsplit hskip hword ⊢
  subst hskip
  have hu : textAt buf (o + skip.length) = some u := by
    rw [textAt_add h (by simp), List.drop_left]
  have hnot : d ∉ u.takeWhile (· ≠ d) := fun hmem => by simpa using List.mem_takeWhile_imp hmem
  have hbehind := List.takeWhile_append_dropWhile (p := (· ≠ d)) (l := u)
  have hrest := List.head?_dropWhile_not (· ≠ d) u
  dsimp only
  rw [if_neg hword]
  generalize u.takeWhile (· ≠ d) = token at hword hnot hbehind ⊢
  have hpos : 0 < token.length := List.length_pos_iff.mpr hword
  rcases hdrop : u.dropWhile (· ≠ d) with _ | ⟨c, rest⟩
  · -- the token ends with the string
    rw [hdrop, List.append_nil] at hbehind
    subst hbehind
    rw [if_pos (by rw [List.length_append, Nat.add_assoc])]
    refine ⟨_, _, _, token, [], rfl, ?_, hu, ?_, by omega, .inr rfl, ?_, .refl _ _ _⟩
    · rw [← hsplit, splitText_token ⟨hword, hnot⟩, splitText_nil]
    · have hend := textAt_add h le_rfl
      rwa [List.drop_length, List.length_append, ← Nat.add_assoc] at hend
    · simp [Nat.add_assoc]
  · rw [hdrop] at hbehind hrest
    obtain rfl : c = d := by simpa using hrest
    subst hbehind
    rw [if_neg (by simp only [List.length_append, List.length_cons]; omega)]
    refine ⟨_, _, _, token, rest, rfl, ?_, ?_, ?_, by omega, .inl (Nat.lt_succ_self _), ?_, ?_⟩
    · rw [← hsplit, splitText_token_cons ⟨hword, hnot⟩]
    · rw [textAt_cut hu (Nat.le_add_right _ _), Nat.add_sub_cancel_left, List.take_left]
    · have hend := textAt_add hu (k := token.length + 1) (by simp)
      rw [← List.drop_drop, List.drop_left] at hend
      rw [textAt_set_before (Nat.lt_succ_self _)]
      exact hend
    · simp only [List.length_append, List.length_cons]
      omega
    · apply (SameOutside.refl _ _ buf).set
      · omega
      · simp only [List.length_append, List.length_cons]
        omega

/-- Behind a token there is less of the buffer. -/
theorem strtok_progress {start next : Nat} (h : strtok d buf o = some (some start, buf', next)) :
    buf'.length - next < buf.length - o := by
  rcases hs : textAt buf o with _ | s
  · rw [strtok, hs] at h
    cases h
  · by_cases hdrop : s.dropWhile (· = d) = []
    · rw [(strtok_none hs hdrop).1] at h
      cases h
    · obtain ⟨_, _, _, token, rest, heq, htoken⟩ := strtok_some hs hdrop
      rw [h] at heq
      cases heq
      have hlen := htoken.same.1
      have hlt := textAt_lt hs
      have hnext := htoken.start_lt
      omega

end split

/-- The loop `while (ptr) { *starts++ = ptr; ptr = strtok_r(NULL, {d}, &next); }`. -/
def tokens (d : Char) (buf : List Char) (o : Nat) : Option (List Nat × List Char) :=
  match h : strtok d buf o with
  | none => none
  | some (none, buf', _) => some ([], buf')
  | some (some start, buf', next) =>
      have := strtok_progress h
      (tokens d buf' next).map fun (starts, buf'') => (start :: starts, buf'')
termination_by buf.length - o
decreasing_by exact this

/-- The last call of `strtok` finds nothing. -/
theorem tokens_stop {d : Char} {buf buf' : List Char} {o next : Nat}
    (h : strtok d buf o = some (none, buf', next)) : tokens d buf o = some ([], buf') := by
  rw [tokens.eq_def]
  split
  · rename_i heq
    rw [h] at heq
    cases heq
  · rename_i heq
    rw [h] at heq
    cases heq
    rfl
  · rename_i heq
    rw [h] at heq
    cases heq

/-- A call of `strtok` finds a token, and the others are behind it. -/
theorem tokens_step {d : Char} {buf buf' : List Char} {o start next : Nat}
    (h : strtok d buf o = some (some start, buf', next)) :
    tokens d buf o = (tokens d buf' next).map fun p => (start :: p.1, p.2) := by
  rw [tokens.eq_def]
  split
  · rename_i heq
    rw [h] at heq
    cases heq
  · rename_i heq
    rw [h] at heq
    cases heq
  · rename_i heq
    rw [h] at heq
    cases heq
    rfl

/-- The loop leaves the words of the text, each at its start, and writes to the text only. -/
theorem tokens_spec (d : Char) {s : List Char} : ∀ {buf : List Char} {o : Nat},
    textAt buf o = some s → ∃ starts buf', tokens d buf o = some (starts, buf') ∧
      starts.map (textAt buf') = (splitText d s).map some ∧
        SameOutside o (o + s.length) buf buf' := by
  induction hn : s.length using Nat.strong_induction_on generalizing s with
  | _ n ih =>
      intro buf o h
      subst hn
      by_cases hdrop : s.dropWhile (· = d) = []
      · obtain ⟨hcall, hsplit⟩ := strtok_none h hdrop
        exact ⟨[], buf, tokens_stop hcall, by rw [hsplit]; rfl, .refl _ _ _⟩
      · obtain ⟨start, buf₁, next, token, rest, hcall, htoken⟩ := strtok_some h hdrop
        have hstart := htoken.start_lt
        have hnext := htoken.next_eq
        obtain ⟨starts, buf', hrun, htexts, hsame⟩ :=
          ih rest.length (by omega) rfl htoken.textAt_next
        refine ⟨start :: starts, buf', ?_, ?_, htoken.same.trans hsame (by omega) (by omega)⟩
        · rw [tokens_step hcall, hrun]
          rfl
        · -- the later calls write behind the token
          have hstay : textAt buf' start = some token := by
            rcases htoken.stop_le with hlt | rfl
            · exact hsame.textAt htoken.textAt_start (.inl hlt)
            · have heq : buf' = buf₁ := by
                apply List.ext_getElem?
                intro i
                exact hsame.2 i (by simp only [List.length_nil]; omega)
              rw [heq, htoken.textAt_start]
          rw [List.map_cons, hstay, htexts, htoken.splitText_eq, List.map_cons]

end SystemProgrammingLab.Found
