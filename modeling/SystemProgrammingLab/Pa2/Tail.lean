import SystemProgrammingLab.Pa2.Cp
import SystemProgrammingLab.Found.Lines

/-!
# tail

The program looks for the place to print from with a scan backwards from the last byte: it reads a byte, counts
it if it ends a line that is not the last one, and seeks to the byte in front of it. The scan ends when it has
counted enough or when that place is the first byte, which it never reads. When it ends at the first byte,
everything is printed, also if enough was counted just there.

So the last lines are printed exactly when what stands in front of them is not a single byte, nor two bytes
unless no line is asked for (`printsLastLines_iff`).

Source: `pa2/tail.c`
-/

namespace SystemProgrammingLab.Pa2.Tail

open SystemProgrammingLab.Found

/-! ## The program -/

/-- `'\n'` -/
def newline : UInt8 := 10

/-- The number of lines and the file, `none` for standard input. With one argument in front of the number there
is no file behind it. Source: the `switch` of `main` -/
def tailArguments : List (List Char) → Option (Int × Option (List Char))
  | [] => some (10, none)
  | [file] => some (10, some file)
  | [_, line] => some (toInt (strtol line), none)
  | [_, line, file] => some (toInt (strtol line), some file)
  | _ => none

/-- The variables of the scan. Source: `tail.c`, `main` -/
structure Scan (φ : Type*) where
  fd : Opened φ
  cnt : Int
  offset : Int
  buf : UInt8

section main

variable {φ : Type*} (w : Paths φ) (fs : FileSystem φ UInt8)

/-- One round of the scan. Source: `tail.c`, `main` -/
def scanByte (fileSize line : Int) (s : Scan φ) : Option (Scan φ) :=
  if s.cnt < line ∧ 0 < s.offset then
    let (bs, fd) := s.fd.read fs 1
    let buf := bs.headD s.buf
    let cnt := if buf = newline ∧ s.offset ≠ fileSize - 1 then s.cnt + 1 else s.cnt
    let (offset, fd) := fd.seek fs (-2) .cur
    some ⟨fd, cnt, offset, buf⟩
  else none

/-- The place to print from, when the scan has ended. Source: `tail.c`, `main` -/
def Scan.start (s : Scan φ) : Opened φ :=
  if s.offset ≤ 0 then (s.fd.seek fs 0 .set).2 else (s.fd.seek fs 2 .cur).2

/-- One round of the second loop, with what is printed so far. Source: `tail.c`, `main` -/
def printByte (p : Opened φ × List UInt8) : Option (Opened φ × List UInt8) :=
  let (bs, fd) := p.1.read fs 1
  if bs = [] then none else some (fd, p.2 ++ bs)

/-- What is printed from an open file, in loops of fewer than `fuel` rounds; `buf` is what the variable holds at
first. Source: `tail.c`, `main` -/
def tailOpened (fuel : Nat) (buf : UInt8) (fileSize line : Int) (fd : Opened φ) : Option (List UInt8) :=
  let (offset, fd) := fd.seek fs (-1) .fromEnd
  (runLoop (scanByte fs fileSize line) fuel ⟨fd, 0, offset, buf⟩).bind fun s =>
    (runLoop (printByte fs) fuel (s.start fs, [])).map Prod.snd

/-- What standard input is, and what the variables hold that the program does not set: `buf`, and the size in
`stbuf` after `stat(NULL, &stbuf)`. Source: `tail.c`, `main` -/
structure Start (φ : Type*) where
  stdin : Opened φ
  buf : UInt8
  stSize : Int

/-- Run the program with the arguments behind its name: a message, or what is printed of the file.
Source: `main` -/
def tailMain (fuel : Nat) (start : Start φ) (args : List (List Char)) :
    Option (List Char ⊕ List UInt8) :=
  match tailArguments args with
  | none => some (.inl (printErr "head".toList 0))
  | some (line, none) => (tailOpened fs fuel start.buf start.stSize line start.stdin).map .inr
  | some (line, some file) =>
      match openRead w fs file with
      | .error e => some (.inl (printErr "head".toList e))
      | .ok fd => (tailOpened fs fuel start.buf (fd.bytes fs).length line fd).map .inr

/-- The program ends and has printed `out`. -/
def TailPrints (start : Start φ) (args : List (List Char)) (out : List UInt8) : Prop :=
  ∃ fuel, tailMain w fs fuel start args = some (.inr out)

end main

/-! ## The loops -/

section loops

variable {φ : Type*} {fs : FileSystem φ UInt8} {f : φ} {content : List UInt8}

/-- The loop prints what is left of the file. -/
theorem printing_ends (h : fs f = some content) (k : Nat) :
    ∃ p, LoopEnds (printByte fs) (⟨f, k⟩, []) p ∧ p.2 = content.drop k := by
  have hbytes : ∀ i, Opened.bytes ⟨f, i⟩ fs = content := fun i => Opened.bytes_eq h
  have hround : ∀ p p' : Opened φ × List UInt8,
      (∃ i, p.1 = ⟨f, i⟩ ∧ p.2 ++ content.drop i = content.drop k) → printByte fs p = some p' →
      (∃ i, p'.1 = ⟨f, i⟩ ∧ p'.2 ++ content.drop i = content.drop k) ∧
        content.length - p'.1.offset < content.length - p.1.offset := by
    rintro ⟨_, out⟩ p' ⟨i, rfl, hout⟩ hnext
    simp only [printByte, Opened.read, hbytes] at hnext
    split_ifs at hnext with hnil
    obtain rfl := Option.some.inj hnext
    have hlt : i < content.length := by
      by_contra hge
      rw [List.drop_eq_nil_of_le (Nat.le_of_not_lt hge), List.take_nil] at hnil
      exact hnil rfl
    have hone : ((content.drop i).take 1).length = 1 := by
      rw [List.length_take, List.length_drop]
      omega
    rw [hone]
    refine ⟨⟨i + 1, rfl, ?_⟩, ?_⟩
    · rw [List.append_assoc, ← hout, ← List.drop_drop, List.take_append_drop]
    · show content.length - (i + 1) < content.length - i
      omega
  obtain ⟨⟨_, out⟩, hends, ⟨i, rfl, hout⟩, hstop⟩ :=
    exists_loopEnds _ _ hround (s := (⟨f, k⟩, [])) ⟨k, rfl, rfl⟩
  refine ⟨_, hends, ?_⟩
  simp only [printByte, Opened.read, hbytes] at hstop
  split_ifs at hstop with hnil
  have hrest : content.drop i = [] := by
    rw [List.take_eq_nil_iff] at hnil
    exact hnil.resolve_left Nat.one_ne_zero
  rw [hrest, List.append_nil] at hout
  exact hout

/-- The scan is in front of the byte `p` of `body ++ [x]` and has counted the ends of the lines behind it, of
which the last byte is none. If these are enough, none was read, or the last one stands just behind `p`. -/
structure Scanned (f : φ) (body : List UInt8) (n p : Nat) (s : Scan φ) : Prop where
  fd : s.fd = ⟨f, p⟩
  offset : s.offset = p
  within : p ≤ body.length
  cnt : s.cnt = (body.drop (p + 1)).count newline
  counted : (body.drop (p + 1)).count newline ≤ n
  reached : (body.drop (p + 1)).count newline = n →
    n = 0 ∧ p = body.length ∨ body[p + 1]? = some newline

/-- The byte at `p` of `body ++ [x]` ends a line that is not the last one, or does not matter for the count. -/
theorem exists_byte {body : List UInt8} {p : Nat} (hp : p ≤ body.length) (x : UInt8) :
    ∃ y, ((body ++ [x]).drop p).take 1 = [y] ∧
      (y = newline ∧ p ≠ body.length ∧ body[p]? = some newline ∧
          (body.drop p).count newline = (body.drop (p + 1)).count newline + 1 ∨
        ¬ (y = newline ∧ p ≠ body.length) ∧
          (body.drop p).count newline = (body.drop (p + 1)).count newline) := by
  rw [List.drop_append_of_le_length hp]
  rcases hp.lt_or_eq with hlt | rfl
  · rw [List.drop_eq_getElem_cons hlt, List.getElem?_eq_getElem hlt]
    refine ⟨body[p], rfl, ?_⟩
    by_cases hy : body[p] = newline
    · exact .inl ⟨hy, by omega, by rw [hy], by rw [hy, List.count_cons_self]⟩
    · exact .inr ⟨fun h => hy h.1, by rw [List.count_cons_of_ne hy]⟩
  · refine ⟨x, by simp, .inr ⟨fun h => h.2 rfl, ?_⟩⟩
    rw [List.drop_length, List.drop_eq_nil_of_le (Nat.le_succ _)]

/-- A round of the scan goes one byte to the front. -/
theorem Scanned.exists_round {body : List UInt8} {x : UInt8} (h : fs f = some (body ++ [x])) {n p : Nat}
    {s : Scan φ} (hs : Scanned f body n (p + 1) s) (hn : (body.drop (p + 1 + 1)).count newline < n) :
    ∃ s', scanByte fs (body ++ [x]).length n s = some s' ∧ Scanned f body n p s' := by
  obtain ⟨_, _, _, buf⟩ := s
  obtain ⟨rfl, rfl, hwithin, rfl, -, -⟩ := hs
  have hbytes : ∀ i, Opened.bytes ⟨f, i⟩ fs = body ++ [x] := fun i => Opened.bytes_eq h
  have hsize : ((body ++ [x]).length : Int) - 1 = body.length := by
    rw [List.length_append, List.length_singleton]
    omega
  have hback : Opened.seek ⟨f, p + 1 + 1⟩ fs (-2) .cur = ((p : Int), ⟨f, p⟩) :=
    Opened.seek_of_eq (by show ((p + 1 + 1 : Nat) : Int) + -2 = p; omega)
  have hgo : (((body.drop (p + 1 + 1)).count newline : Nat) : Int) < n ∧ 0 < ((p + 1 : Nat) : Int) := by omega
  obtain ⟨y, hread, hy⟩ := exists_byte hwithin x
  simp only [scanByte, Opened.read, hbytes, hread, hsize, List.length_singleton, hback, List.headD_cons,
    if_pos hgo]
  refine ⟨_, rfl, rfl, rfl, by omega, ?_, ?_, ?_⟩
  · rcases hy with ⟨rfl, hp, -, hcount⟩ | ⟨hnot, hcount⟩
    · rw [if_pos ⟨rfl, by omega⟩, hcount]
      rfl
    · rw [if_neg fun hand => hnot ⟨hand.1, by omega⟩, hcount]
  · rcases hy with ⟨-, -, -, hcount⟩ | ⟨-, hcount⟩ <;> omega
  · intro hreached
    rcases hy with ⟨-, -, hget, -⟩ | ⟨-, hcount⟩
    · exact .inr hget
    · omega

/-- The scan ends when it has counted enough or is at the first byte. -/
theorem scan_ends {body : List UInt8} {x : UInt8} (h : fs f = some (body ++ [x])) (n : Nat) (buf : UInt8) :
    ∃ s p, LoopEnds (scanByte fs (body ++ [x]).length n) ⟨⟨f, body.length⟩, 0, body.length, buf⟩ s ∧
      Scanned f body n p s ∧ ((body.drop (p + 1)).count newline = n ∨ p = 0) := by
  have hround : ∀ s s', (∃ p, Scanned f body n p s) → scanByte fs (body ++ [x]).length n s = some s' →
      (∃ p, Scanned f body n p s') ∧ s'.offset.toNat < s.offset.toNat := by
    rintro s s' ⟨p, hs⟩ hnext
    have hgo : s.cnt < n ∧ 0 < s.offset := by
      by_contra hnot
      rw [scanByte, if_neg hnot] at hnext
      cases hnext
    rw [hs.cnt, hs.offset] at hgo
    obtain ⟨p, rfl⟩ : ∃ q, p = q + 1 := ⟨p - 1, by omega⟩
    obtain ⟨t, ht, hscanned⟩ := hs.exists_round h (by omega)
    obtain rfl := Option.some.inj (hnext.symm.trans ht)
    exact ⟨⟨p, hscanned⟩, by rw [hs.offset, hscanned.offset]; omega⟩
  have hend : body.drop (body.length + 1) = [] := List.drop_eq_nil_of_le (Nat.le_succ _)
  have hstart : Scanned f body n body.length ⟨⟨f, body.length⟩, 0, body.length, buf⟩ := by
    refine ⟨rfl, rfl, le_rfl, ?_, ?_, ?_⟩
    · rw [hend]
      rfl
    · rw [hend]
      exact Nat.zero_le n
    · rw [hend]
      exact fun h0 => .inl ⟨h0.symm, rfl⟩
  obtain ⟨s, hends, ⟨p, hs⟩, hstop⟩ := exists_loopEnds _ _ hround ⟨_, hstart⟩
  refine ⟨s, p, hends, hs, ?_⟩
  rcases Nat.eq_zero_or_pos p with hp | hp
  · exact .inr hp
  refine .inl (hs.counted.lt_or_eq.resolve_left fun hlt => ?_)
  obtain ⟨q, rfl⟩ : ∃ q, p = q + 1 := ⟨p - 1, by omega⟩
  obtain ⟨t, ht, -⟩ := hs.exists_round h hlt
  rw [hstop] at ht
  cases ht

end loops

/-! ## The last lines -/

section lines

variable {φ : Type*} {fs : FileSystem φ UInt8} {f : φ} {content : List UInt8}

/-- Where the program prints from, when `k` bytes stand in front of the last `n` lines. -/
def printedFrom (n k : Nat) : Nat := if k = 1 ∨ k = 2 ∧ n ≠ 0 then 0 else k

/-- The bytes in front of the last lines, from where the scan has ended. -/
theorem Scanned.length_beforeLastLines {body : List UInt8} {n p : Nat} {s : Scan φ}
    (hs : Scanned f body n p s) (x : UInt8) (hend : (body.drop (p + 1)).count newline = n ∨ p = 0) :
    (n = 0 ∧ p = body.length ∧ (beforeLastLines newline n (body ++ [x])).length = p + 1) ∨
      (n ≠ 0 ∧ (beforeLastLines newline n (body ++ [x])).length = p + 2) ∨
      (p = 0 ∧ (beforeLastLines newline n (body ++ [x])).length ≤ 1) := by
  rcases hs.counted.lt_or_eq with hlt | heq
  · obtain rfl := hend.resolve_left hlt.ne
    refine .inr (.inr ⟨rfl, ?_⟩)
    rcases body with _ | ⟨b, body⟩
    · rw [beforeLastLines_of_count_lt (s := []) hlt]
      exact Nat.zero_le 1
    rw [Nat.zero_add, List.drop_succ_cons, List.drop_zero] at hlt
    by_cases hb : b = newline ∧ body.count newline + 1 = n
    · -- the first line is empty, and the others are as many as are asked for
      rw [hb.1, List.cons_append, ← List.nil_append (newline :: (body ++ [x])),
        beforeLastLines_delimiter hb.2]
      exact le_rfl
    · rw [beforeLastLines_of_count_lt]
      · exact Nat.zero_le 1
      · rw [List.count_cons]
        split_ifs with hnl
        · have hne : body.count newline + 1 ≠ n := fun heq => hb ⟨beq_iff_eq.mp hnl, heq⟩
          omega
        · exact hlt
  · rcases hs.reached heq with ⟨rfl, rfl⟩ | hget
    · refine .inl ⟨rfl, rfl, ?_⟩
      rw [beforeLastLines_zero, List.length_append, List.length_singleton]
    · obtain ⟨hlt, hnewline⟩ := List.getElem?_eq_some_iff.mp hget
      have hdrop : body.drop (p + 1) = newline :: body.drop (p + 2) := by
        rw [List.drop_eq_getElem_cons hlt, hnewline]
      have hbody : body = body.take (p + 1) ++ newline :: body.drop (p + 2) := by
        rw [← hdrop, List.take_append_drop]
      rw [hdrop, List.count_cons_self] at heq
      refine .inr (.inl ⟨by omega, ?_⟩)
      rw [hbody, List.append_assoc, List.cons_append, beforeLastLines_delimiter heq, List.length_append,
        List.length_take, List.length_singleton]
      omega

/-- Where the scan stops the last lines begin. -/
theorem Scanned.start_eq {body : List UInt8} {n p : Nat} {s : Scan φ} (hs : Scanned f body n p s)
    (x : UInt8) (hend : (body.drop (p + 1)).count newline = n ∨ p = 0) :
    ∃ k, s.start fs = ⟨f, k⟩ ∧ (body ++ [x]).drop k =
      (body ++ [x]).drop (printedFrom n (beforeLastLines newline n (body ++ [x])).length) := by
  obtain ⟨_, _, _, buf⟩ := s
  have hlen := hs.length_beforeLastLines x hend
  obtain ⟨rfl, rfl, -, -, -, -⟩ := hs
  rcases Nat.eq_zero_or_pos p with rfl | hp
  · refine ⟨0, ?_, ?_⟩
    · rw [Scan.start, if_pos (show ((0 : Nat) : Int) ≤ 0 from Int.le_refl 0)]
      rfl
    · unfold printedFrom
      split_ifs with hfirst
      · rfl
      · rw [show (beforeLastLines newline n (body ++ [x])).length = 0 by omega]
  · refine ⟨p + 2, ?_, ?_⟩
    · rw [Scan.start, if_neg (by show ¬ (p : Int) ≤ 0; omega), Opened.seek_of_eq (k := p + 2) rfl]
    · rcases hlen with ⟨rfl, rfl, hlen⟩ | ⟨-, hlen⟩ | ⟨rfl, -⟩
      · rw [hlen, printedFrom, if_neg (by omega), List.drop_eq_nil_of_le (by simp),
          List.drop_eq_nil_of_le (by simp)]
      · rw [hlen, printedFrom, if_neg (by omega)]
      · exact absurd hp (Nat.lt_irrefl 0)

end lines

/-! ## What is printed -/

section printed

variable {φ : Type*} {w : Paths φ} {fs : FileSystem φ UInt8} {start : Start φ} {args : List (List Char)}
  {path : List Char} {n : Nat} {content : List UInt8}

/-- `tail` ends exactly when both of its loops do. -/
theorem tailOpened_eq_some_iff {buf : UInt8} {fileSize line : Int} {fd : Opened φ} {out : List UInt8} :
    (∃ fuel, tailOpened fs fuel buf fileSize line fd = some out) ↔
      ∃ s p, LoopEnds (scanByte fs fileSize line)
          ⟨(fd.seek fs (-1) .fromEnd).2, 0, (fd.seek fs (-1) .fromEnd).1, buf⟩ s ∧
        LoopEnds (printByte fs) (s.start fs, []) p ∧ p.2 = out := by
  constructor
  · rintro ⟨fuel, hrun⟩
    obtain ⟨s, hs, hrun⟩ := Option.bind_eq_some_iff.mp hrun
    obtain ⟨p, hp, rfl⟩ := Option.map_eq_some_iff.mp hrun
    exact ⟨s, p, ⟨fuel, hs⟩, ⟨fuel, hp⟩, rfl⟩
  · rintro ⟨s, p, ⟨k₁, hs⟩, ⟨k₂, hp⟩, rfl⟩
    refine ⟨max k₁ k₂, ?_⟩
    refine Option.bind_eq_some_iff.mpr ⟨s, runLoop_of_le hs (Nat.le_max_left k₁ k₂), ?_⟩
    rw [runLoop_of_le hp (Nat.le_max_right k₁ k₂), Option.map_some]

/-- What the program has to do with a named file. -/
theorem tailPrints_iff (hargs : tailArguments args = some ((n : Int), some path)) (hread : w.readError path = none)
    (hfile : fs (w.fileOf path) = some content) {out : List UInt8} :
    TailPrints w fs start args out ↔
      ∃ fuel, tailOpened fs fuel start.buf content.length n ⟨w.fileOf path, 0⟩ = some out := by
  have hopen : openRead w fs path = .ok ⟨w.fileOf path, 0⟩ := by simp only [openRead, hread, hfile]
  have hbytes : Opened.bytes ⟨w.fileOf path, 0⟩ fs = content := Opened.bytes_eq hfile
  simp only [TailPrints, tailMain, hargs, hopen, hbytes, Option.map_eq_some_iff, Sum.inr.injEq,
    exists_eq_right]

/-- The program prints the rest of the file from some place. -/
theorem tailOpened_prints (hfile : fs (w.fileOf path) = some content) (n : Nat) (buf : UInt8) :
    ∃ fuel, tailOpened fs fuel buf content.length n ⟨w.fileOf path, 0⟩ =
      some (content.drop (printedFrom n (beforeLastLines newline n content).length)) := by
  rw [tailOpened_eq_some_iff]
  have hbase : Opened.base ⟨w.fileOf path, 0⟩ fs .fromEnd = content.length := by
    rw [Opened.base, Opened.bytes_eq hfile]
  rcases List.eq_nil_or_concat' content with rfl | ⟨body, x, rfl⟩
  · rw [Opened.seek_of_lt (by rw [hbase]; decide), beforeLastLines_nil]
    obtain ⟨q, hprints, hq⟩ := printing_ends hfile 0
    exact ⟨_, q, .stop (if_neg fun h => absurd h.2 (show ¬ (0 : Int) < -1 by decide)), hprints, hq⟩
  · have hseek : Opened.seek ⟨w.fileOf path, 0⟩ fs (-1) .fromEnd =
        ((body.length : Int), ⟨w.fileOf path, body.length⟩) := by
      apply Opened.seek_of_eq
      rw [hbase, List.length_append, List.length_singleton]
      omega
    obtain ⟨s, p, hends, hs, hend⟩ := scan_ends hfile n buf
    obtain ⟨k, hstart, hdrop⟩ := hs.start_eq x hend
    obtain ⟨q, hprints, hq⟩ := printing_ends hfile k
    rw [hseek]
    refine ⟨s, q, hends, ?_, hq.trans hdrop⟩
    rw [hstart]
    exact hprints

/-- A named file is printed from one place. -/
theorem tailPrints_eq_iff (hargs : tailArguments args = some ((n : Int), some path))
    (hread : w.readError path = none) (hfile : fs (w.fileOf path) = some content) {out : List UInt8} :
    TailPrints w fs start args out ↔
      out = content.drop (printedFrom n (beforeLastLines newline n content).length) := by
  rw [tailPrints_iff hargs hread hfile]
  have hprints := tailOpened_prints (w := w) hfile n start.buf
  constructor
  · intro hout
    obtain ⟨s, p, hs, hp, hprinted⟩ := tailOpened_eq_some_iff.mp hprints
    obtain ⟨s', p', hs', hp', rfl⟩ := tailOpened_eq_some_iff.mp hout
    obtain rfl := hs.unique hs'
    obtain rfl := hp.unique hp'
    exact hprinted
  · rintro rfl
    exact hprints

/-- The last lines are printed if nothing more is. -/
theorem lastLines_eq_iff (n : Nat) (content : List UInt8) :
    lastLines newline n content =
        content.drop (printedFrom n (beforeLastLines newline n content).length) ↔
      (beforeLastLines newline n content).length ≠ 1 ∧
        (n = 0 ∨ (beforeLastLines newline n content).length ≠ 2) := by
  have hle := congrArg List.length (beforeLastLines_append_lastLines (d := newline) n content)
  rw [List.length_append] at hle
  rw [lastLines_eq_drop] at hle ⊢
  unfold printedFrom
  split_ifs with hfirst
  · refine iff_of_false (fun heq => ?_) (by omega)
    have hlen := congrArg List.length heq
    rw [List.length_drop, List.length_drop] at hlen
    rw [List.length_drop] at hle
    omega
  · exact iff_of_true rfl (by omega)

end printed

/-- **The last lines of a file are printed if and only if** what stands in front of them is not a single byte,
nor two bytes unless no line is asked for. -/
theorem printsLastLines_iff {φ : Type*} (w : Paths φ) (fs : FileSystem φ UInt8) (start : Start φ)
    (args : List (List Char)) (path : List Char) (n : Nat) (content : List UInt8)
    (hargs : tailArguments args = some ((n : Int), some path)) (hread : w.readError path = none)
    (hfile : fs (w.fileOf path) = some content) :
    TailPrints w fs start args (lastLines newline n content) ↔
      (beforeLastLines newline n content).length ≠ 1 ∧
        (n = 0 ∨ (beforeLastLines newline n content).length ≠ 2) := by
  rw [tailPrints_eq_iff hargs hread hfile]
  exact lastLines_eq_iff n content

/-- The only file is `f`. -/
def onlyF (content : List UInt8) : FileSystem (List Char) UInt8 := fun path =>
  if path = ['f'] then some content else none

/-- Standard input is a file that does not exist. -/
def emptyStart : Start (List Char) := ⟨⟨[], 0⟩, 0, 0⟩

/-- The arguments for the last lines of `f`. -/
def lastOfF (line : String) : List (List Char) := ["-n".toList, line.toList, "f".toList]

/-- Three lines of which two are asked for: three bytes stand in front of them. -/
theorem printsLastLines_iff_two :
    TailPrints ownNames (onlyF [97, 98, 10, 99, 10, 100]) emptyStart (lastOfF "2") [99, 10, 100] :=
  (printsLastLines_iff ownNames (onlyF [97, 98, 10, 99, 10, 100]) emptyStart (lastOfF "2") ['f'] 2
    [97, 98, 10, 99, 10, 100] (by decide) rfl (by decide)).mpr (by decide)

/-- **A first line of one letter is printed with the last line**, so is an empty one, and a single byte is
printed when no line is asked for. -/
theorem not_printsLastLines :
    (¬ TailPrints ownNames (onlyF [97, 10, 98, 10]) emptyStart (lastOfF "1")
        (lastLines newline 1 [97, 10, 98, 10])) ∧
      (¬ TailPrints ownNames (onlyF [10, 98]) emptyStart (lastOfF "1") (lastLines newline 1 [10, 98])) ∧
      ¬ TailPrints ownNames (onlyF [97]) emptyStart (lastOfF "0") (lastLines newline 0 [97]) := by
  have hzero : tailArguments (lastOfF "0") = some (((0 : Nat) : Int), some ['f']) := by decide
  have hone : tailArguments (lastOfF "1") = some (((1 : Nat) : Int), some ['f']) := by decide
  have hfile : ∀ content, onlyF content (ownNames.fileOf ['f']) = some content := fun content => if_pos rfl
  refine ⟨?_, ?_, ?_⟩
  · rw [tailPrints_eq_iff hone rfl (hfile _), lastLines_eq_iff]
    decide
  · rw [tailPrints_eq_iff hone rfl (hfile _), lastLines_eq_iff]
    decide
  · rw [tailPrints_eq_iff hzero rfl (hfile _), lastLines_eq_iff]
    decide

end SystemProgrammingLab.Pa2.Tail
