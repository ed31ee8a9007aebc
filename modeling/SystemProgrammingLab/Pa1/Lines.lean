import Mathlib.Algebra.GroupWithZero.Nat
import SystemProgrammingLab.Found.Lines
import SystemProgrammingLab.Pa1.Search

/-!
# The index and the lines of the file

Whatever the boundaries of the chunks are, `read_file` inserts the lines that a newline ends, in order:
the lines of a chunk are inserted (`readChunk_lines`), and the next read starts where the last of them
ends, or the file is over (`readFile_step`). So an index that is finished holds exactly these lines
(`readFile_lines`), and the handlers read them one after the other (`readFile_sound`). What follows the
last newline is in no entry (`complete_iff`).

The loop ends if and only if every line fits into the buffer (`readFile_ends_iff`): a line that does not
is read again and again from its start (`readFile_stuck`).

Source: `pa1/main.c`
-/

namespace SystemProgrammingLab.Pa1

open SystemProgrammingLab.Found

/-! ## Entries -/

/-- The entries of lines that lie one behind the other from `offset` on, behind `lineCnt` others. -/
def entries : Nat → Nat → List (List Char) → List Line
  | _, _, [] => []
  | lineCnt, offset, l :: ls =>
      ⟨lineCnt + 1, offset, l.length + 1⟩ :: entries (lineCnt + 1) (offset + (l.length + 1)) ls

section entries

variable {ls : List (List Char)} {lineCnt offset : Nat}

/-- The entries of lines behind others. -/
theorem entries_append (ls ls' : List (List Char)) : ∀ lineCnt offset,
    entries lineCnt offset (ls ++ ls') = entries lineCnt offset ls ++
      entries (lineCnt + ls.length) (offset + (joinLines '\n' ls).length) ls' := by
  induction ls with
  | nil =>
      intro lineCnt offset
      rfl
  | cons l ls ih =>
      intro lineCnt offset
      have hcnt : lineCnt + (ls.length + 1) = lineCnt + 1 + ls.length := by omega
      have hoff : offset + (joinLines '\n' (l :: ls)).length =
          offset + (l.length + 1) + (joinLines '\n' ls).length := by
        rw [joinLines_cons, List.length_append, List.length_cons]
        omega
      rw [List.cons_append, entries, ih, entries, List.length_cons, hcnt, hoff, List.cons_append]

/-- Every line has one entry. -/
theorem length_entries : (entries lineCnt offset ls).length = ls.length := by
  induction ls generalizing lineCnt offset with
  | nil => rfl
  | cons l ls ih => rw [entries, List.length_cons, ih, List.length_cons]

/-- An entry begins where the one in front of it ends. -/
theorem contiguous_entries :
    Contiguous offset (entries lineCnt offset ls) (offset + (joinLines '\n' ls).length) := by
  induction ls generalizing lineCnt offset with
  | nil => rfl
  | cons l ls ih =>
      have hlen : offset + (joinLines '\n' (l :: ls)).length =
          offset + (l.length + 1) + (joinLines '\n' ls).length := by
        rw [joinLines_cons, List.length_append, List.length_cons]
        omega
      rw [hlen]
      exact ⟨rfl, Nat.succ_pos _, ih⟩

/-- The entry of a line behind others. -/
theorem getElem?_entries {k : Nat} {e : Line} (h : (entries lineCnt offset ls)[k]? = some e) :
    ∃ before l after, ls = before ++ l :: after ∧ before.length = k ∧
      e = ⟨lineCnt + k + 1, offset + (joinLines '\n' before).length, l.length + 1⟩ := by
  have hk : k < ls.length := by
    have hlt := (List.getElem?_eq_some_iff.mp h).1
    rwa [length_entries] at hlt
  have hsplit : ls = ls.take k ++ ls[k] :: ls.drop (k + 1) := by
    rw [← List.drop_eq_getElem_cons, List.take_append_drop]
  have hlen : (ls.take k).length = k := List.length_take_of_le hk.le
  refine ⟨ls.take k, ls[k], ls.drop (k + 1), hsplit, hlen, ?_⟩
  rw [hsplit, entries_append, List.getElem?_append_right (by rw [length_entries, hlen]),
    length_entries, hlen, Nat.sub_self, entries] at h
  exact (Option.some.inj h).symm

/-- The sizes are those of the lines with their newlines. -/
theorem sum_size_entries :
    ((entries lineCnt offset ls).map Line.size).sum = (joinLines '\n' ls).length := by
  induction ls generalizing lineCnt offset with
  | nil => rfl
  | cons l ls ih =>
      rw [entries, List.map_cons, List.sum_cons, ih, joinLines_cons, List.length_append,
        List.length_cons]
      show l.length + 1 + _ = _
      omega

/-- The bytes of an entry are its line. -/
theorem bytes_entry {file rest : List Char} (hfile : file = joinLines '\n' ls ++ rest)
    {k : Nat} {e : Line} (h : (entries 0 0 ls)[k]? = some e) :
    ∃ l, ls[k]? = some l ∧ e.size = l.length + 1 ∧
      (file.drop e.offset).take e.size = l ++ ['\n'] := by
  obtain ⟨before, l, after, rfl, hk, rfl⟩ := getElem?_entries h
  refine ⟨l, ?_, rfl, ?_⟩
  · rw [List.getElem?_append_right hk.le, hk, Nat.sub_self]
    rfl
  · have hbytes : file = joinLines '\n' before ++ ((l ++ ['\n']) ++ (joinLines '\n' after ++ rest)) := by
      rw [hfile, joinLines_append, joinLines_cons]
      simp
    dsimp only
    rw [hbytes, Nat.zero_add, List.drop_left, List.take_left' (by simp)]

/-- The bytes of the entries are the lines. -/
theorem map_entries {file rest : List Char} (h : file.drop offset = joinLines '\n' ls ++ rest) :
    (entries lineCnt offset ls).map (fun e => (file.drop e.offset).take e.size) =
      ls.map (· ++ ['\n']) := by
  induction ls generalizing lineCnt offset with
  | nil => rfl
  | cons l ls ih =>
      have hline : joinLines '\n' (l :: ls) ++ rest = (l ++ ['\n']) ++ (joinLines '\n' ls ++ rest) := by
        simp
      have hnext : file.drop (offset + (l.length + 1)) = joinLines '\n' ls ++ rest := by
        rw [← List.drop_drop, h, hline]
        exact List.drop_left' (by simp)
      rw [entries, List.map_cons, ih hnext, h, hline, List.take_left' (by simp), List.map_cons]

/-- The bytes of the entries are the lines. -/
theorem flatMap_entries {file rest : List Char}
    (h : file.drop offset = joinLines '\n' ls ++ rest) :
    (entries lineCnt offset ls).flatMap (fun e => (file.drop e.offset).take e.size) =
      joinLines '\n' ls := by
  rw [List.flatMap_def, map_entries h]
  rfl

end entries

/-! ## One chunk -/

section chunk

variable {file : List Char}

/-- Where the next read starts, if the chunk ends at `pos` with `frag` behind its last newline. -/
def nextRead (file : List Char) (pos : Nat) (frag : List Char) : Nat :=
  if frag ≠ [] ∧ pos < file.length then seekCur (pos + 1) (-(frag.length + 1 : Nat)) else pos

/-- It starts behind the last newline, unless the file is over. -/
theorem nextRead_eq {offset : Nat} {frag more : List Char} (h : file.drop offset = frag ++ more)
    (hle : offset ≤ file.length) :
    nextRead file (offset + frag.length) frag = if more = [] then file.length else offset := by
  have hlen := congrArg List.length h
  rw [List.length_drop, List.length_append] at hlen
  unfold nextRead
  by_cases hover : more = []
  · rw [hover, List.length_nil] at hlen
    rw [if_pos hover, if_neg fun hcut => by omega]
    omega
  · have hmore := List.length_pos_iff.mpr hover
    rw [if_neg hover]
    split_ifs with hcut
    · unfold seekCur
      rw [if_pos (by omega)]
      omega
    · have hfrag : frag = [] := by
        by_contra hne
        exact hcut ⟨hne, by omega⟩
      rw [hfrag]
      rfl

/-- The lines of a chunk are inserted. -/
theorem readChunk_lines {ls : List (List Char)} (hls : ∀ l ∈ ls, '\n' ∉ l) {frag : List Char}
    (hfrag : '\n' ∉ frag) : ∀ {st : ReadState} {es : List Line}, st.index.Holds es →
      ∃ index, readChunk file (joinLines '\n' ls ++ frag) st = some
          ⟨nextRead file st.pos frag, st.offset + (joinLines '\n' ls).length,
            st.lineCnt + ls.length, index⟩ ∧
        index.Holds (es ++ entries st.lineCnt st.offset ls) := by
  induction ls with
  | nil =>
      intro st es hst
      refine ⟨st.index, ?_, by simpa [entries] using hst⟩
      rcases frag with _ | ⟨c, cs⟩
      · rw [joinLines_nil, List.nil_append, readChunk]
        rfl
      · rw [joinLines_nil, List.nil_append, readChunk_cut (dropWhile_ne_of_notMem hfrag)]
        unfold nextRead
        split_ifs with hmore hboth hboth
        · rfl
        · exact absurd ⟨List.cons_ne_nil c cs, hmore⟩ hboth
        · exact absurd hboth.2 hmore
        · rfl
  | cons l ls ih =>
      intro st es hst
      rw [List.forall_mem_cons] at hls
      generalize hnext : joinLines '\n' ls ++ frag = next at ih
      have hstart : joinLines '\n' (l :: ls) ++ frag = l ++ '\n' :: next := by
        rw [joinLines_cons, List.append_assoc, List.cons_append, hnext]
      have hdrop := dropWhile_ne_append hls.1 next
      obtain ⟨c, cs, hcons⟩ := List.exists_cons_of_ne_nil
        (show l ++ '\n' :: next ≠ [] by simp)
      have hsize : (c :: cs).length - next.length = l.length + 1 := by
        rw [← hcons, List.length_append, List.length_cons]
        omega
      obtain ⟨heap, list, hins, hholds⟩ := hst.insert ⟨st.lineCnt + 1, st.offset, l.length + 1⟩
      let st₁ : ReadState :=
        ⟨st.pos, st.offset + (l.length + 1), st.lineCnt + 1, ⟨heap, list⟩⟩
      have hst₁ : st₁.index.Holds (es ++ [⟨st.lineCnt + 1, st.offset, l.length + 1⟩]) := hholds
      obtain ⟨index, hrest, hindex⟩ := ih hls.2 hst₁
      refine ⟨index, ?_, ?_⟩
      · rw [hstart, hcons, readChunk_line (hcons ▸ hdrop) hsize hins, hrest]
        have hoff : st.offset + (l.length + 1) + (joinLines '\n' ls).length =
            st.offset + (joinLines '\n' (l :: ls)).length := by
          rw [joinLines_cons, List.length_append, List.length_cons]
          omega
        have hcnt : st.lineCnt + 1 + ls.length = st.lineCnt + (l :: ls).length := by
          rw [List.length_cons]
          omega
        rw [hoff, hcnt]
      · rw [entries, ← List.singleton_append, ← List.append_assoc]
        exact hindex

end chunk

/-! ## The chunks of a file -/

/-- The index holds these lines, and they are the first lines of the file. -/
structure ReadState.Lined (file : List Char) (st : ReadState) (ls : List (List Char)) : Prop where
  index : st.index.Holds (entries 0 0 ls)
  lineCnt : st.lineCnt = ls.length
  offset : st.offset = (joinLines '\n' ls).length
  line : ∀ l ∈ ls, '\n' ∉ l
  bytes : file = joinLines '\n' ls ++ file.drop st.offset

/-- The next read starts behind the last newline, or the file is over and has no further newline. -/
def ReadState.Next (file : List Char) (st : ReadState) : Prop :=
  st.pos = st.offset ∨ (st.pos = file.length ∧ '\n' ∉ file.drop st.offset)

section file

variable {file : List Char} {st st' : ReadState} {ls : List (List Char)} {fuel : Nat}

/-- Before the first read there are no lines. -/
theorem lined_init (file : List Char) : ReadState.init.Lined file [] :=
  ⟨LinkedList.holds_empty _, rfl, rfl, by simp, rfl⟩

/-- The lines end inside of the file. -/
theorem ReadState.Lined.offset_le (h : st.Lined file ls) : st.offset ≤ file.length := by
  have hlen := congrArg List.length h.bytes
  rw [List.length_append, ← h.offset, List.length_drop] at hlen
  omega

/-- The next lines of the file are inserted behind the ones that the index holds. -/
theorem ReadState.Lined.append (h : st.Lined file ls) {ls' : List (List Char)} {rest : List Char}
    (hls' : ∀ l ∈ ls', '\n' ∉ l) (hrest : file.drop st.offset = joinLines '\n' ls' ++ rest)
    {index : LinkedList Line} (hindex : index.Holds (entries 0 0 ls ++ entries st.lineCnt st.offset ls'))
    (pos : Nat) : ReadState.Lined file ⟨pos, st.offset + (joinLines '\n' ls').length,
      st.lineCnt + ls'.length, index⟩ (ls ++ ls') := by
  refine ⟨?_, ?_, ?_, ?_, ?_⟩
  · rw [entries_append, Nat.zero_add, Nat.zero_add, ← h.lineCnt, ← h.offset]
    exact hindex
  · show st.lineCnt + ls'.length = _
    rw [List.length_append, h.lineCnt]
  · show st.offset + (joinLines '\n' ls').length = _
    rw [joinLines_append, List.length_append, h.offset]
  · intro l hl
    exact (List.mem_append.mp hl).elim (h.line l) (hls' l)
  · have hdrop : file.drop (st.offset + (joinLines '\n' ls').length) = rest := by
      rw [← List.drop_drop, hrest, List.drop_left]
    show file = _ ++ file.drop (st.offset + (joinLines '\n' ls').length)
    rw [hdrop, joinLines_append, List.append_assoc, ← hrest]
    exact h.bytes

/-- A read behind a newline: the lines of the chunk are inserted. -/
theorem readFile_step (h : st.Lined file ls) (hpos : st.pos = st.offset)
    (hmore : file.drop st.offset ≠ []) {ls' : List (List Char)} {frag : List Char}
    (hsplit : splitLines '\n' ((file.drop st.offset).take bufSize) = (ls', frag)) :
    ∃ st', (∀ fuel, readFile file (fuel + 1) st = readFile file fuel st') ∧
      st'.Lined file (ls ++ ls') ∧ file.drop st.offset = joinLines '\n' ls' ++ file.drop st'.offset ∧
      if (file.drop st.offset).length ≤ bufSize then
        st'.pos = file.length ∧ file.drop st'.offset = frag
      else st'.pos = st'.offset := by
  obtain ⟨_, _, hchunk, hls', hfrag, heq⟩ := exists_lines '\n' ((file.drop st.offset).take bufSize)
  rw [hsplit] at heq
  cases heq
  have hbuffer : (file.drop st.pos).take bufSize = joinLines '\n' ls' ++ frag := by rw [hpos, hchunk]
  have hne : joinLines '\n' ls' ++ frag ≠ [] := by
    rw [← hchunk]
    simpa [bufSize] using hmore
  let st₁ : ReadState :=
    ⟨st.pos + (joinLines '\n' ls' ++ frag).length, st.offset, st.lineCnt, st.index⟩
  have hst₁ : st₁.index.Holds (entries 0 0 ls) := h.index
  obtain ⟨index, hrun, hindex⟩ : ∃ index, readChunk file _ st₁ = _ ∧ _ :=
    readChunk_lines hls' hfrag hst₁
  -- what is behind the lines of the chunk
  have hrest : file.drop st.offset =
      joinLines '\n' ls' ++ (frag ++ (file.drop st.offset).drop bufSize) := by
    rw [← List.append_assoc, ← hchunk, List.take_append_drop]
  have hdrop : file.drop (st.offset + (joinLines '\n' ls').length) =
      frag ++ (file.drop st.offset).drop bufSize := by
    conv_lhs => rw [← List.drop_drop, hrest, List.drop_left]
  have hle : st.offset + (joinLines '\n' ls').length ≤ file.length := by
    have hlen := congrArg List.length hrest
    have hle := h.offset_le
    rw [List.length_drop, List.length_append] at hlen
    omega
  refine ⟨⟨nextRead file (st.pos + (joinLines '\n' ls' ++ frag).length) frag,
    st.offset + (joinLines '\n' ls').length, st.lineCnt + ls'.length, index⟩, ?_, ?_, ?_, ?_⟩
  · intro fuel
    simp only [readFile, hbuffer, if_neg hne]
    exact congrArg (fun r => r.bind fun st => readFile file fuel st) hrun
  · exact h.append hls' hrest hindex _
  · show file.drop st.offset = _ ++ file.drop (st.offset + (joinLines '\n' ls').length)
    rw [hdrop]
    exact hrest
  · have hnext := nextRead_eq hdrop hle
    dsimp only
    rw [hpos, List.length_append, ← Nat.add_assoc, hnext, hdrop]
    split_ifs with hfits hover hover
    · exact ⟨rfl, by rw [hover, List.append_nil]⟩
    · exact absurd (List.drop_eq_nil_of_le hfits) hover
    · exact absurd (List.drop_eq_nil_iff.mp hover) hfits
    · rfl

/-- At the end of the file the loop ends. -/
theorem readFile_over (h : file.drop st.pos = []) : readFile file (fuel + 1) st = some st := by
  simp [readFile, h]

/-- **The index of a file**: the lines that a newline ends, and nothing behind the last newline. -/
theorem readFile_lines (h : st.Lined file ls) (hnext : st.Next file)
    (hrun : readFile file fuel st = some st') :
    ∃ ls', st'.Lined file ls' ∧ '\n' ∉ file.drop st'.offset := by
  induction fuel generalizing st ls with
  | zero => cases hrun
  | succ fuel ih =>
      by_cases hover : file.drop st.pos = []
      · rw [readFile_over hover] at hrun
        cases hrun
        refine ⟨ls, h, ?_⟩
        rcases hnext with hpos | ⟨-, hrest⟩
        · rw [← hpos, hover]
          exact List.not_mem_nil
        · exact hrest
      · have hpos : st.pos = st.offset := by
          rcases hnext with hpos | ⟨hend, -⟩
          · exact hpos
          · rw [hend, List.drop_length] at hover
            exact absurd rfl hover
        rw [hpos] at hover
        obtain ⟨st₁, hstep, hlined, -, hst₁⟩ := readFile_step h hpos hover rfl
        rw [hstep] at hrun
        refine ih hlined ?_ hrun
        split_ifs at hst₁ with hfits
        · refine .inr ⟨hst₁.1, ?_⟩
          rw [hst₁.2]
          exact (splitLines_notMem _).2
        · exact .inl hst₁

/-! ## Where the loop ends -/

/-- The loop ends if the lines that are left fit into the buffer. -/
theorem readFile_ends (h : st.Lined file ls) (hpos : st.pos = st.offset)
    (hfits : LinesWithin '\n' bufSize (file.drop st.offset)) :
    ∃ fuel st', readFile file fuel st = some st' := by
  induction hn : (file.drop st.offset).length using Nat.strong_induction_on generalizing st ls with
  | _ n ih =>
      by_cases hover : file.drop st.offset = []
      · exact ⟨1, st, readFile_over (hpos ▸ hover)⟩
      · obtain ⟨st₁, hstep, hlined, hdrop, hst₁⟩ := readFile_step h hpos hover rfl
        split_ifs at hst₁ with hlast
        · refine ⟨2, st₁, ?_⟩
          rw [hstep, readFile_over]
          rw [hst₁.1, List.drop_length]
        · -- the first line is inserted, so that less of the file is left
          have hline := hfits.exists_line.resolve_right hlast
          have hfits₁ : LinesWithin '\n' bufSize (file.drop st₁.offset) := by
            rw [hdrop] at hfits
            refine (linesWithin_joinLines (splitLines_notMem _).1 ?_ _).mp hfits
            exact (length_joinLines_le _ _).trans (List.length_take_le _ _)
          have hlen := congrArg List.length hdrop
          rw [List.length_append] at hlen
          have hpos₁ : 0 < (joinLines '\n'
              (splitLines '\n' ((file.drop st.offset).take bufSize)).1).length :=
            List.length_pos_iff.mpr (joinLines_eq_nil_iff.not.mpr hline)
          obtain ⟨fuel, st', hrun⟩ := ih _ (by omega) hlined hst₁ hfits₁ rfl
          exact ⟨fuel + 1, st', (hstep fuel).trans hrun⟩

/-- In front of a line that does not fit into the buffer the loop does not end. -/
theorem readFile_stuck (h : st.Lined file ls) (hpos : st.pos = st.offset)
    (hlong : ¬ LinesWithin '\n' bufSize (file.drop st.offset)) (fuel : Nat) :
    readFile file fuel st = none := by
  induction fuel generalizing st ls with
  | zero => rfl
  | succ fuel ih =>
      have hover : file.drop st.offset ≠ [] := by
        intro hover
        rw [hover] at hlong
        exact hlong (linesWithin_of_length_le (Nat.zero_le _))
      obtain ⟨st₁, hstep, hlined, hdrop, hst₁⟩ := readFile_step h hpos hover rfl
      rw [if_neg fun hlast => hlong (linesWithin_of_length_le hlast)] at hst₁
      rw [hstep]
      apply ih hlined hst₁
      rw [hdrop] at hlong
      refine fun hfits => hlong ((linesWithin_joinLines (splitLines_notMem _).1 ?_ _).mpr hfits)
      exact (length_joinLines_le _ _).trans (List.length_take_le _ _)

/-- **`read_file` ends if and only if every line fits into its buffer.** -/
theorem readFile_ends_iff (file : List Char) :
    (∃ fuel st, readFile file fuel .init = some st) ↔ LinesWithin '\n' bufSize file := by
  constructor
  · rintro ⟨fuel, st, hrun⟩
    by_contra hlong
    rw [readFile_stuck (lined_init file) rfl hlong] at hrun
    cases hrun
  · exact readFile_ends (lined_init file) rfl

/-- A line of 4097 bytes. -/
def longLine : List Char := List.replicate 4097 'a'

/-- **`read_file` does not end on a line of 4097 bytes.** -/
theorem not_readFile_ends : ¬ ∃ fuel st, readFile longLine fuel .init = some st := by
  have hnl : '\n' ∉ longLine := fun h => absurd (List.eq_of_mem_replicate h) (by decide)
  rintro ⟨fuel, st, hrun⟩
  rw [readFile_stuck (lined_init longLine) rfl] at hrun
  · cases hrun
  · intro hfits
    have hrest := hfits.2
    rw [show longLine.drop ReadState.init.offset = longLine from rfl, splitLines_of_notMem hnl] at hrest
    exact absurd hrest (by rw [longLine, List.length_replicate]; decide)

/-! ## Soundness -/

/-- The entries are, in order, the lines of the file that a newline ends. -/
structure LineIndex (file : List Char) (es : List Line) : Prop where
  lineNum : ∀ k e, es[k]? = some e → e.lineNum = k + 1
  offset : ∀ k e, es[k]? = some e → e.offset = ((es.take k).map Line.size).sum
  line : ∀ e ∈ es, ∃ l, '\n' ∉ l ∧ e.size = l.length + 1 ∧
    (file.drop e.offset).take e.size = l ++ ['\n']
  newline : ∀ i, file[i]? = some '\n' → es.countP (fun e => e.offset + e.size = i + 1) = 1

/-- In lines that lie one behind the other a byte is in one line. -/
theorem Contiguous.countP_eq {es : List Line} (i : Nat) : ∀ {o o'}, Contiguous o es o' →
    es.countP (fun e => e.offset ≤ i ∧ i < e.offset + e.size) = if o ≤ i ∧ i < o' then 1 else 0 := by
  induction es with
  | nil =>
      intro o o' h
      have hoo : o = o' := h
      rw [List.countP_nil, if_neg (by omega)]
  | cons e es ih =>
      intro o o' h
      obtain ⟨rfl, hsize, h⟩ := h
      have hle := h.le
      rw [List.countP_cons, ih h]
      by_cases hin : e.offset ≤ i ∧ i < e.offset + e.size
      · rw [if_neg (by omega), if_pos (decide_eq_true hin), if_pos (by omega)]
      · have hnot : ¬ decide (e.offset ≤ i ∧ i < e.offset + e.size) = true := by simpa using hin
        rw [if_neg hnot]
        split_ifs <;> omega

/-- They are contiguous. -/
theorem ReadState.Lined.contiguous (h : st.Lined file ls) :
    Contiguous 0 (entries 0 0 ls) st.offset := by
  have hcont : Contiguous 0 (entries 0 0 ls) (0 + (joinLines '\n' ls).length) := contiguous_entries
  rwa [Nat.zero_add, ← h.offset] at hcont

/-- The bytes of an entry are a line and its newline. -/
theorem ReadState.Lined.getElem?_bytes (h : st.Lined file ls) {e : Line}
    (he : e ∈ entries 0 0 ls) : ∃ l, '\n' ∉ l ∧ e.size = l.length + 1 ∧
      (file.drop e.offset).take e.size = l ++ ['\n'] := by
  obtain ⟨k, hk⟩ := List.mem_iff_getElem?.mp he
  obtain ⟨l, hl, hsize, hbytes⟩ := bytes_entry h.bytes hk
  exact ⟨l, h.line l (List.mem_of_getElem? hl), hsize, hbytes⟩

/-- The index that `read_file` builds lies inside of the file. -/
theorem readFile_indexed (hrun : readFile file fuel .init = some st) :
    (∃ es, st.Indexed es) ∧ st.offset ≤ file.length := by
  obtain ⟨ls, hlined, -⟩ := readFile_lines (lined_init file) (.inl rfl) hrun
  exact ⟨⟨_, hlined.index, hlined.contiguous⟩, hlined.offset_le⟩

/-- A newline in a line is its end. -/
theorem newline_last {l : List Char} (hl : '\n' ∉ l) {offset i : Nat}
    (hbytes : (file.drop offset).take (l.length + 1) = l ++ ['\n']) (hnl : file[i]? = some '\n') :
    offset + (l.length + 1) = i + 1 ↔ offset ≤ i ∧ i < offset + (l.length + 1) := by
  refine ⟨by omega, ?_⟩
  rintro ⟨hle, hlt⟩
  obtain ⟨j, rfl⟩ := Nat.exists_eq_add_of_le hle
  have hj : (l ++ ['\n'])[j]? = some '\n' := by
    rw [← hbytes, List.getElem?_take_of_lt (by omega), List.getElem?_drop]
    exact hnl
  by_contra hne
  rw [List.getElem?_append_left (by omega)] at hj
  exact hl (List.mem_of_getElem? hj)

/-- The first lines of a file are an index of it if there is no newline behind them. -/
theorem ReadState.Lined.lineIndex (h : st.Lined file ls) (hrest : '\n' ∉ file.drop st.offset) :
    LineIndex file (entries 0 0 ls) := by
  refine ⟨?_, ?_, fun e he => h.getElem?_bytes he, ?_⟩
  · intro k e hk
    obtain ⟨before, l, after, -, -, rfl⟩ := getElem?_entries hk
    show 0 + k + 1 = k + 1
    omega
  · intro k e hk
    obtain ⟨before, l, after, rfl, hlen, rfl⟩ := getElem?_entries hk
    rw [entries_append, List.take_left' (by rw [length_entries, hlen]), sum_size_entries]
    exact Nat.zero_add _
  · intro i hi
    have hcongr : (entries 0 0 ls).countP (fun e => e.offset + e.size = i + 1) =
        (entries 0 0 ls).countP (fun e => e.offset ≤ i ∧ i < e.offset + e.size) := by
      apply List.countP_congr
      intro e he
      obtain ⟨l, hl, hsize, hbytes⟩ := h.getElem?_bytes he
      rw [hsize] at hbytes ⊢
      simpa using newline_last hl hbytes hi
    have hlt : i < st.offset := by
      by_contra hge
      refine hrest (List.mem_of_getElem? (i := i - st.offset) ?_)
      rw [List.getElem?_drop, Nat.add_sub_cancel' (Nat.le_of_not_lt hge)]
      exact hi
    rw [hcongr, h.contiguous.countP_eq i, if_pos ⟨Nat.zero_le i, hlt⟩]

/-- **The index that `read_file` builds is sound**: its entries are the lines of the file that a newline
ends. Every search reads them one after the other: whatever its scan is, for line `k` it gets the bytes
of line `k`, as `extractLine` leaves them. A file has fewer than `2 ^ 31` lines, so that `lineCnt` does
not overflow. -/
theorem readFile_sound (hrun : readFile file fuel .init = some st) :
    ∃ es, st.index.Holds es ∧ LineIndex file es ∧
      ∀ fill, ∃ content : Line → List Char,
        (∀ e ∈ es, ∃ l, (file.drop e.offset).take e.size = l ++ ['\n'] ∧
          toLowercase (l ++ [nul, fill e.size]) = some (content e)) ∧
        ∀ scan pos, search fill file st.index pos scan =
          (searchOut (fun e => scan e.lineNum (content e)) es).map fun out => (out, st.offset) := by
  obtain ⟨ls, hlined, hrest⟩ := readFile_lines (lined_init file) (.inl rfl) hrun
  refine ⟨entries 0 0 ls, hlined.index, hlined.lineIndex hrest, ?_⟩
  intro fill
  have hread : ∀ e ∈ entries 0 0 ls, ∃ content, extractLine fill file e.offset e.size =
      some (content, e.offset + e.size) ∧ ∃ l, (file.drop e.offset).take e.size = l ++ ['\n'] ∧
        toLowercase (l ++ [nul, fill e.size]) = some content := by
    intro e he
    obtain ⟨l, -, hsize, hbytes⟩ := hlined.getElem?_bytes he
    obtain ⟨rest, htext⟩ := exists_eq_text l [fill e.size]
    have hlower : toLowercase (text l ++ nul :: rest) = _ := toLowercase_text (nul_notMem_text l)
    rw [← htext] at hlower
    refine ⟨_, ?_, l, hbytes, hlower⟩
    rw [hsize] at hbytes hlower ⊢
    rw [extractLine_line fill hbytes, hlower]
    rfl
  choose! content hcontent using hread
  refine ⟨content, fun e he => (hcontent e he).2, ?_⟩
  intro scan pos
  exact search_eq fill hlined.index hlined.contiguous
    (fun e he => ⟨content e, (hcontent e he).1, rfl⟩) pos

/-- Two lines that a newline ends, and a rest. -/
def twoAndRest : List Char := "a b\nB\nc".toList

/-- Its lines are short. -/
theorem linesWithin_twoAndRest : LinesWithin '\n' bufSize twoAndRest :=
  linesWithin_of_length_le (by decide)

/-- Two lines are indexed, and the rest behind them is not. -/
theorem readFile_sound_twoAndRest : ∃ fuel st, readFile twoAndRest fuel .init = some st ∧
    ∃ es, st.index.Holds es ∧ LineIndex twoAndRest es ∧
      ∀ fill, ∃ content : Line → List Char,
        (∀ e ∈ es, ∃ l, (twoAndRest.drop e.offset).take e.size = l ++ ['\n'] ∧
          toLowercase (l ++ [nul, fill e.size]) = some (content e)) ∧
        ∀ scan pos, search fill twoAndRest st.index pos scan =
          (searchOut (fun e => scan e.lineNum (content e)) es).map fun out => (out, st.offset) := by
  obtain ⟨fuel, st, hrun⟩ := readFile_ends (lined_init twoAndRest) rfl linesWithin_twoAndRest
  exact ⟨fuel, st, hrun, readFile_sound hrun⟩

/-! ## Completeness -/

/-- Every byte of the file is in one entry, and the entries are the file. -/
structure Complete (file : List Char) (es : List Line) : Prop where
  once : ∀ i < file.length, es.countP (fun e => e.offset ≤ i ∧ i < e.offset + e.size) = 1
  all : es.flatMap (fun e => (file.drop e.offset).take e.size) = file

/-- Lines are indexed completely if there is nothing behind them. -/
theorem ReadState.Lined.complete_iff_getLast (h : st.Lined file ls) (hrest : '\n' ∉ file.drop st.offset) :
    Complete file (entries 0 0 ls) ↔ file = [] ∨ file.getLast? = some '\n' := by
  have hall : (entries 0 0 ls).flatMap (fun e => (file.drop e.offset).take e.size) =
      joinLines '\n' ls := flatMap_entries h.bytes
  have hsplit : splitLines '\n' file = (ls, file.drop st.offset) := by
    conv_lhs => rw [h.bytes]
    exact splitLines_eq h.line hrest
  rw [← splitLines_snd_eq_nil_iff, hsplit]
  constructor
  · intro hcomplete
    have hlen : st.offset = file.length := by rw [h.offset, ← hall, hcomplete.all]
    rw [hlen, List.drop_length]
  · intro hover
    have hover : file.drop st.offset = [] := hover
    refine ⟨?_, ?_⟩
    · intro i hi
      have hlt : i < st.offset := hi.trans_le (List.drop_eq_nil_iff.mp hover)
      rw [h.contiguous.countP_eq i, if_pos ⟨Nat.zero_le i, hlt⟩]
    · rw [hall]
      conv_rhs => rw [h.bytes, hover, List.append_nil]

/-- **The index is complete if and only if the file is empty or ends in a newline.** -/
theorem complete_iff (hrun : readFile file fuel .init = some st) :
    (∃ es, st.index.Holds es ∧ Complete file es) ↔ file = [] ∨ file.getLast? = some '\n' := by
  obtain ⟨ls, hlined, hrest⟩ := readFile_lines (lined_init file) (.inl rfl) hrun
  rw [← hlined.complete_iff_getLast hrest]
  constructor
  · rintro ⟨es, hes, hcomplete⟩
    rwa [hlined.index.unique hes]
  · exact fun hcomplete => ⟨entries 0 0 ls, hlined.index, hcomplete⟩

/-- So the index is not complete. -/
theorem complete_iff_twoAndRest : ∃ fuel st, readFile twoAndRest fuel .init = some st ∧
    ((∃ es, st.index.Holds es ∧ Complete twoAndRest es) ↔
      twoAndRest = [] ∨ twoAndRest.getLast? = some '\n') := by
  obtain ⟨fuel, st, hrun⟩ := readFile_ends (lined_init twoAndRest) rfl linesWithin_twoAndRest
  exact ⟨fuel, st, hrun, complete_iff hrun⟩

/-- **The rest behind the last newline is in no entry.** -/
theorem not_complete : ∃ fuel st, readFile twoAndRest fuel .init = some st ∧
    ¬ ∃ es, st.index.Holds es ∧ Complete twoAndRest es := by
  obtain ⟨fuel, st, hrun⟩ := readFile_ends (lined_init twoAndRest) rfl linesWithin_twoAndRest
  refine ⟨fuel, st, hrun, ?_⟩
  rintro ⟨es, hes, hcomplete⟩
  obtain ⟨ls, hlined, hrest⟩ := readFile_lines (lined_init twoAndRest) (.inl rfl) hrun
  rw [hes.unique hlined.index, hlined.complete_iff_getLast hrest] at hcomplete
  exact absurd hcomplete (by decide)

end file

end SystemProgrammingLab.Pa1
