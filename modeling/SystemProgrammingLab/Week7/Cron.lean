import SystemProgrammingLab.Found.Argv
import SystemProgrammingLab.Found.Decimal
import SystemProgrammingLab.Found.Files
import SystemProgrammingLab.Found.Run

/-!
# The loop of `cron`

A round of the loop reads the crontab from its start, splits off three tokens, compares the current minute and hour
with them, and starts `/bin/sh -c` with the third one. The hour is read from the token of the minute, and the third
token is only the first word of the command. `saveptr`, where `strtok_r` keeps its place, is never assigned: whether
it points to storage that can be written to is part of what a round finds, and if it does not the round is
undefined.

A crontab asks that its command is started whenever the fields match the time, and only then. In every round of every
run `round_starts_iff` says for which fields, commands and times the loop does that.

`fork` and `execl` do not fail, and `syslog` prints `NULL` as a text.

Source: `week7/cron.c`
-/

namespace SystemProgrammingLab.Week7

open SystemProgrammingLab.Found

/-! ## A round -/

/-- The current minute and hour. Source: `struct tm` -/
structure Tm where
  min : Nat
  hour : Nat

/-- What a round finds: the time, and whether `saveptr` happens to point to storage. Source: `main` -/
structure Wake where
  tm : Tm
  saveptr : Bool

/-- What a round does: nothing, or start `/bin/sh -c` with a path, which may be `NULL`. Source: `main` -/
inductive Outcome
  | idle
  | shell (path : Option (List Char))
  deriving DecidableEq

/-- The variables that stay from round to round: the open crontab and `buf`. Source: `main` -/
structure State where
  fd : Opened Unit
  buf : List Char

/-- Source: `sizeof(buf)` -/
abbrev bufSize : Nat := 512

/-- Before the first round; `buf` holds anything. -/
def State.init (buf : List Char) : State := ⟨⟨(), 0⟩, buf⟩

/-- `if (token[0] != '*') now = strtol(number, NULL, 10);`. Source: `main` -/
def fieldValue (buf : List Char) (token number now : Nat) : Option Int := do
  let c ← readAt buf token
  if c ≠ '*' then
    let s ← textAt buf number
    return toInt (strtol s)
  else return now

/-- The string that a token points to; `NULL` stays `NULL`. -/
def tokenText (buf : List Char) : Option Nat → Option (Option (List Char))
  | none => some none
  | some p => (textAt buf p).map some

/-- A round, with the crontab `text`. Source: `main` -/
def round (text : List Char) (s : State) (w : Wake) : Option (State × Outcome) := do
  let fs : FileSystem Unit Char := fun _ => some text
  let (bytes, fd) := s.fd.read fs (bufSize - 1)
  let buf ← writeAt (bytes ++ s.buf.drop bytes.length) bytes.length terminator
  if !w.saveptr then none
  else
    let (token0, buf, next) ← strtok ' ' buf 0
    let (token1, buf, next) ← strtok ' ' buf next
    let (token2, buf, _) ← strtok ' ' buf next
    let token0 ← token0
    let token1 ← token1
    let min ← fieldValue buf token0 token0 w.tm.min
    let hour ← fieldValue buf token1 token0 w.tm.hour
    let path ← tokenText buf token2
    let (_, fd) := fd.seek fs 0 .set
    let outcome := if min = w.tm.min ∧ hour = w.tm.hour then .shell path else .idle
    return (⟨fd, buf⟩, outcome)

/-! ## The crontab -/

/-- A field: `*`, or a decimal number below the bound. -/
inductive Field (bound : Nat)
  | any
  | number (digits : List Char) (hne : digits ≠ []) (hdigits : ∀ c ∈ digits, c.isDigit)
      (hlt : digitsValue digits < bound)

namespace Field

variable {bound bound' : Nat}

/-- The text of a field. -/
def text : Field bound → List Char
  | any => ['*']
  | number digits _ _ _ => digits

/-- The field matches the current value. -/
def Matches : Field bound → Nat → Prop
  | any, _ => True
  | number digits _ _ _, now => digitsValue digits = now

/-- What `strtol` reads. -/
def value : Field bound → Nat
  | any => 0
  | number digits _ _ _ => digitsValue digits

/-- What the comparison is with when the number is read from the field `f`. -/
def TestedWith (f : Field bound') : Field bound → Nat → Prop
  | any, _ => True
  | number _ _ _ _, now => f.value = now

instance (f : Field bound) (now : Nat) : Decidable (f.Matches now) :=
  match f with
  | any => inferInstanceAs (Decidable True)
  | number digits _ _ _ => inferInstanceAs (Decidable (digitsValue digits = now))

instance (f : Field bound') (g : Field bound) (now : Nat) : Decidable (f.TestedWith g now) :=
  match g with
  | any => inferInstanceAs (Decidable True)
  | number _ _ _ _ => inferInstanceAs (Decidable (f.value = now))

/-- A field is a token. -/
theorem isToken_text (f : Field bound) : IsToken ' ' f.text := by
  cases f with
  | any => exact ⟨List.cons_ne_nil _ _, by simp [text]⟩
  | number digits hne hdigits _ => exact ⟨hne, fun hmem => absurd (hdigits _ hmem) (by decide)⟩

/-- It has no NUL. -/
theorem terminator_notMem_text (f : Field bound) : terminator ∉ f.text := by
  cases f with
  | any =>
      show terminator ∉ ['*']
      decide
  | number digits _ hdigits _ => exact fun hmem => absurd (hdigits _ hmem) (by decide)

/-- The number that is read is the value of the field; for `*` it is 0. -/
theorem toInt_strtol_text (f : Field bound) (hbound : bound ≤ 60) : toInt (strtol f.text) = f.value := by
  cases f with
  | any => rfl
  | number digits hne hdigits hlt =>
      let n : Numeral := ⟨[], [], digits, by simp, .inl rfl, hne, hdigits⟩
      have hscan : scanLong digits = some (clampLong (digitsValue digits), []) := by
        have happ := n.scanLong_append (s := []) (by simp)
        rwa [List.append_nil] at happ
      have hclamp : clampLong (digitsValue digits) = digitsValue digits := by
        unfold clampLong
        omega
      show toInt (strtol digits) = digitsValue digits
      rw [strtol, hscan, hclamp]
      exact toInt_natCast (by omega)

/-- The first character tells `*` and numbers apart. -/
theorem head_text (f : Field bound) : ∃ c cs, f.text = c :: cs ∧ (c = '*' ↔ f = any) := by
  cases f with
  | any => exact ⟨'*', [], rfl, by simp⟩
  | number digits hne hdigits hlt =>
      obtain ⟨c, cs, hcs⟩ := List.exists_cons_of_ne_nil hne
      have hc : c ≠ '*' := by
        rintro rfl
        exact absurd (hdigits '*' (hcs ▸ List.mem_cons_self)) (by decide)
      exact ⟨c, cs, hcs, iff_of_false hc (by simp)⟩

/-- The value that the current one is compared with, when the number is read from the field `g`. -/
theorem fieldValue_iff {buf : List Char} {token number : Nat} (f : Field bound) (g : Field bound')
    (hbound : bound' ≤ 60) (htoken : textAt buf token = some f.text) (hnumber : textAt buf number = some g.text)
    (now : Nat) : ∃ v, fieldValue buf token number now = some v ∧ (v = now ↔ g.TestedWith f now) := by
  obtain ⟨c, cs, hcs, hc⟩ := f.head_text
  have hread : readAt buf token = some c := by
    have h := readAt_add htoken (k := 0) (by rw [hcs]; exact Nat.succ_pos _)
    rw [hcs] at h
    exact h
  unfold fieldValue
  rw [hread, Option.bind_eq_bind, Option.bind_some]
  cases f with
  | any => exact ⟨now, by rw [if_neg (not_not.mpr (hc.mpr rfl))]; rfl, iff_of_true rfl trivial⟩
  | number digits _ _ _ =>
      have hne : c ≠ '*' := fun heq => nomatch hc.mp heq
      refine ⟨g.value, ?_, Int.ofNat_inj⟩
      rw [if_pos hne, hnumber, Option.bind_eq_bind, Option.bind_some, g.toInt_strtol_text hbound]
      rfl

/-- A number tested with its own text matches as it should. -/
theorem testedWith_self (f : Field bound) (now : Nat) : f.TestedWith f now ↔ f.Matches now := by
  cases f <;> exact Iff.rfl

end Field

/-- The text of a crontab. -/
def crontab (m : Field 60) (h : Field 24) (cmd : List Char) : List Char :=
  m.text ++ ' ' :: (h.text ++ ' ' :: cmd)

/-- What a round does with a crontab. -/
def outcome (m : Field 60) (h : Field 24) (cmd : List Char) (tm : Tm) : Outcome :=
  if m.Matches tm.min ∧ m.TestedWith h tm.hour then .shell (splitText ' ' cmd).head? else .idle

/-- Between two rounds the crontab is at its start. -/
structure State.Ready (s : State) : Prop where
  offset : s.fd.offset = 0
  length : s.buf.length = bufSize

section round

variable {m : Field 60} {h : Field 24} {cmd : List Char}

/-- A crontab has no NUL. -/
theorem terminator_notMem_crontab (hcmd : terminator ∉ cmd) : terminator ∉ crontab m h cmd := by
  simp only [crontab, List.mem_append, List.mem_cons, not_or]
  exact ⟨m.terminator_notMem_text, by decide, h.terminator_notMem_text, by decide, hcmd⟩

/-- Its tokens are the two fields and the words of the command. -/
theorem splitText_crontab : splitText ' ' (crontab m h cmd) = m.text :: h.text :: splitText ' ' cmd := by
  rw [crontab, splitText_token_cons m.isToken_text, splitText_token_cons h.isToken_text]

/-- A round reads the whole crontab, with a NUL behind it. -/
theorem State.Ready.read {s : State} (hs : s.Ready) {text : List Char} (htext : terminator ∉ text)
    (hlen : text.length < bufSize - 1) : ∃ fd buf,
      s.fd.read (fun _ => some text) (bufSize - 1) = (text, fd) ∧
      writeAt (text ++ s.buf.drop text.length) text.length terminator = some buf ∧
      textAt buf 0 = some text ∧ buf.length = bufSize := by
  have hbytes : ((s.fd.bytes fun _ => some text).drop s.fd.offset).take (bufSize - 1) = text := by
    rw [hs.offset, List.drop_zero]
    exact List.take_of_length_le hlen.le
  have htotal : (text ++ s.buf.drop text.length).length = bufSize := by
    rw [List.length_append, List.length_drop, hs.length]
    omega
  refine ⟨⟨(), s.fd.offset + text.length⟩, _, ?_, writeAt_eq (by rw [htotal]; omega) terminator, ?_, ?_⟩
  · unfold Opened.read
    simp only [hbytes]
  · rw [textAt_eq_some_iff, List.drop_zero, List.set_append_right _ _ le_rfl, Nat.sub_self]
    refine ⟨htext, (s.buf.drop text.length).tail, ?_⟩
    rcases hdrop : s.buf.drop text.length with _ | ⟨c, rest⟩
    · rw [List.drop_eq_nil_iff, hs.length] at hdrop
      omega
    · rfl
  · rw [List.length_set, htotal]

/-- The three calls of `strtok_r` on a crontab. -/
theorem strtok_crontab {buf : List Char} (htext : textAt buf 0 = some (crontab m h cmd)) :
    ∃ token0 token1 token2 buf₁ buf₂ buf₃ next₁ next₂ next₃,
      strtok ' ' buf 0 = some (some token0, buf₁, next₁) ∧
      strtok ' ' buf₁ next₁ = some (some token1, buf₂, next₂) ∧
      strtok ' ' buf₂ next₂ = some (token2, buf₃, next₃) ∧
      textAt buf₃ token0 = some m.text ∧ textAt buf₃ token1 = some h.text ∧
      tokenText buf₃ token2 = some (splitText ' ' cmd).head? ∧
      buf₃.length = buf.length := by
  obtain ⟨token0, buf₁, next₁, rest₁, hcall₁, htoken₁, hrest₁⟩ := strtok_of_cons htext splitText_crontab
  obtain ⟨token1, buf₂, next₂, rest₂, hcall₂, htoken₂, hrest₂⟩ := strtok_of_cons htoken₁.textAt_next hrest₁
  have hle := htoken₂.start_lt
  have hnext := htoken₂.next_eq
  -- what the last call writes to is the rest behind the second token
  have hlast : ∀ {buf₃}, SameOutside next₂ (next₂ + rest₂.length) buf₂ buf₃ →
      textAt buf₃ token0 = some m.text ∧ textAt buf₃ token1 = some h.text ∧ buf₃.length = buf.length := by
    intro buf₃ hsame
    refine ⟨htoken₁.stays (htoken₂.same.trans hsame (by omega) (by omega)), htoken₂.stays hsame, ?_⟩
    rw [hsame.1, htoken₂.same.1, htoken₁.same.1]
  rcases hcmd : splitText ' ' cmd with _ | ⟨w, ws⟩
  · obtain ⟨h₀, h₁, hlen⟩ := hlast (.refl _ _ _)
    exact ⟨token0, token1, none, buf₁, buf₂, buf₂, next₁, next₂, _, hcall₁, hcall₂,
      strtok_of_nil htoken₂.textAt_next (hrest₂.trans hcmd), h₀, h₁, rfl, hlen⟩
  · obtain ⟨token2, buf₃, next₃, rest₃, hcall₃, htoken₃, -⟩ :=
      strtok_of_cons htoken₂.textAt_next (hrest₂.trans hcmd)
    obtain ⟨h₀, h₁, hlen⟩ := hlast htoken₃.same
    refine ⟨token0, token1, some token2, buf₁, buf₂, buf₃, next₁, next₂, next₃, hcall₁, hcall₂, hcall₃, h₀, h₁,
      ?_, hlen⟩
    rw [tokenText, htoken₃.textAt_start]
    rfl

/-- With a `saveptr` that points to storage a round does what the crontab says, up to the hour and the words of the
command, and comes back to the start of the file. -/
theorem State.Ready.round_eq {s : State} (hs : s.Ready) (hcmd : terminator ∉ cmd)
    (hlen : (crontab m h cmd).length < bufSize - 1) {w : Wake} (hw : w.saveptr = true) :
    ∃ s', round (crontab m h cmd) s w = some (s', outcome m h cmd w.tm) ∧ s'.Ready := by
  obtain ⟨fd, buf, hread, hwrite, htext, hbuf⟩ := hs.read (terminator_notMem_crontab hcmd) hlen
  obtain ⟨token0, token1, token2, buf₁, buf₂, buf₃, next₁, next₂, next₃, hcall₁, hcall₂, hcall₃, h₀, h₁, hpath,
    hbuf₃⟩ := strtok_crontab htext
  obtain ⟨min, hmin, hmin_iff⟩ := m.fieldValue_iff m le_rfl h₀ h₀ w.tm.min
  obtain ⟨hour, hhour, hhour_iff⟩ := h.fieldValue_iff m le_rfl h₁ h₀ w.tm.hour
  have hseek : fd.seek (fun _ => some (crontab m h cmd)) 0 .set = (0, { fd with offset := 0 }) :=
    Opened.seek_of_eq rfl
  refine ⟨⟨{ fd with offset := 0 }, buf₃⟩, ?_, rfl, hbuf₃.trans hbuf⟩
  rw [m.testedWith_self] at hmin_iff
  unfold round outcome
  simp only [hread, hwrite, hw, Bool.not_true, Bool.false_eq_true, if_false, hcall₁, hcall₂, hcall₃, hmin, hhour,
    hpath, hseek, hmin_iff, hhour_iff, Option.bind_eq_bind, Option.bind_some]
  rfl

/-- Without one it is undefined. -/
theorem round_none {text : List Char} {s : State} {w : Wake} (hw : w.saveptr = false) : round text s w = none := by
  unfold round
  simp only [hw, Bool.not_false, if_true]
  rcases writeAt _ _ _ with _ | buf <;> rfl

/-- Before the first round the buffer has its size. -/
theorem ready_init {buf : List Char} (hbuf : buf.length = bufSize) : (State.init buf).Ready := ⟨rfl, hbuf⟩

/-- Every run comes back to the start of the file. -/
theorem ready_of_exec (hcmd : terminator ∉ cmd) (hlen : (crontab m h cmd).length < bufSize - 1) {buf : List Char}
    (hbuf : buf.length = bufSize) {ws : List Wake} {s : State} {es : List Outcome}
    (hrun : exec (round (crontab m h cmd)) (State.init buf) ws = some (s, es)) : s.Ready := by
  refine exec_invariant State.Ready ?_ hrun (ready_init hbuf)
  intro s w s' e hs hround
  rcases hw : w.saveptr with _ | _
  · rw [round_none hw] at hround
    cases hround
  · obtain ⟨s₁, hround₁, hs₁⟩ := hs.round_eq hcmd hlen hw
    rw [hround] at hround₁
    cases hround₁
    exact hs₁

/-- The command is started whole exactly when it is one word. -/
theorem outcome_eq_shell_iff (hne : cmd ≠ []) (tm : Tm) : outcome m h cmd tm = .shell (some cmd) ↔
    (m.Matches tm.min ∧ m.TestedWith h tm.hour) ∧ ' ' ∉ cmd := by
  unfold outcome
  rw [← head_splitText_eq_self hne]
  split_ifs with hmatch
  · rw [and_iff_right hmatch, Outcome.shell.injEq]
  · exact iff_of_false (by simp) fun hand => hmatch hand.1

/-- Nothing is started exactly when a comparison fails. -/
theorem outcome_eq_idle_iff (tm : Tm) :
    outcome m h cmd tm = .idle ↔ ¬ (m.Matches tm.min ∧ m.TestedWith h tm.hour) := by
  unfold outcome
  split_ifs with hmatch
  · exact iff_of_false (by simp) (not_not.mpr hmatch)
  · exact iff_of_true rfl hmatch

/-- What a round may do with a crontab. -/
theorem State.Ready.round_iff {s : State} (hs : s.Ready) (hcmd : terminator ∉ cmd)
    (hlen : (crontab m h cmd).length < bufSize - 1) (w : Wake) (P : Outcome → Prop) :
    (∃ s' r, round (crontab m h cmd) s w = some (s', r) ∧ P r) ↔
      w.saveptr = true ∧ P (outcome m h cmd w.tm) := by
  rcases hw : w.saveptr with _ | _
  · refine iff_of_false ?_ (by simp)
    rintro ⟨s', r, hround, -⟩
    rw [round_none hw] at hround
    cases hround
  · obtain ⟨s', hround, -⟩ := hs.round_eq hcmd hlen hw
    rw [and_iff_right rfl]
    constructor
    · rintro ⟨s₁, r, hround₁, hr⟩
      rw [hround] at hround₁
      cases hround₁
      exact hr
    · intro hP
      exact ⟨s', _, hround, hP⟩

/-- In every round of every run. The command is started if and only if the fields match the time, exactly when
`saveptr` points to storage and the minute does not match, or the command is one word and the number of the minute
gives the same answer for the hour as the number of the hour, or the command has a blank and the hour does not match.
Nothing but the command is started, and only when the fields match, exactly when `saveptr` points to storage and the
minute does not match, or the two numbers give the same answer for the hour and the command, if it is due, is one
word. -/
theorem round_starts_iff (hne : cmd ≠ []) (hcmd : terminator ∉ cmd)
    (hlen : (crontab m h cmd).length < bufSize - 1) {buf : List Char} (hbuf : buf.length = bufSize) {ws : List Wake}
    {s : State} {es : List Outcome}
    (hrun : exec (round (crontab m h cmd)) (State.init buf) ws = some (s, es)) (w : Wake) :
    ((∃ s' r, round (crontab m h cmd) s w = some (s', r) ∧
        (r = .shell (some cmd) ↔ m.Matches w.tm.min ∧ h.Matches w.tm.hour)) ↔
      w.saveptr = true ∧ (¬ m.Matches w.tm.min ∨
        (' ' ∉ cmd ∧ (m.TestedWith h w.tm.hour ↔ h.Matches w.tm.hour)) ∨
        (' ' ∈ cmd ∧ ¬ h.Matches w.tm.hour))) ∧
    ((∃ s' r, round (crontab m h cmd) s w = some (s', r) ∧
        r = if m.Matches w.tm.min ∧ h.Matches w.tm.hour then .shell (some cmd) else .idle) ↔
      w.saveptr = true ∧ (¬ m.Matches w.tm.min ∨
        ((m.TestedWith h w.tm.hour ↔ h.Matches w.tm.hour) ∧ (h.Matches w.tm.hour → ' ' ∉ cmd)))) := by
  have hs := ready_of_exec hcmd hlen hbuf hrun
  rw [hs.round_iff hcmd hlen w, hs.round_iff hcmd hlen w]
  constructor
  · rw [outcome_eq_shell_iff hne]
    by_cases hm : m.Matches w.tm.min
    · by_cases hblank : ' ' ∈ cmd <;> simp [hm, hblank]
    · simp [hm]
  · by_cases hm : m.Matches w.tm.min
    · by_cases hh : h.Matches w.tm.hour
      · rw [if_pos ⟨hm, hh⟩, outcome_eq_shell_iff hne]
        simp [hm, hh]
      · rw [if_neg fun hand => hh hand.2, outcome_eq_idle_iff]
        simp [hm, hh]
    · rw [if_neg fun hand => hm hand.1, outcome_eq_idle_iff]
      simp [hm]

end round

/-- The fields of a crontab for 7:05. -/
def minute5 : Field 60 :=
  .number ['5'] (List.cons_ne_nil _ _) (List.forall_mem_singleton.mpr (by decide)) (by decide)

/-- The hour 7. -/
def hour7 : Field 24 :=
  .number ['7'] (List.cons_ne_nil _ _) (List.forall_mem_singleton.mpr (by decide)) (by decide)

/-- 7:05 -/
def time0705 : Wake := ⟨⟨5, 7⟩, true⟩

/-- The first round with the crontab `5 * x`. -/
theorem round_starts_iff_every_hour :
    ((∃ s' r, round (crontab minute5 .any ['x']) (State.init (List.replicate bufSize ' ')) time0705 = some (s', r) ∧
        (r = .shell (some ['x']) ↔ minute5.Matches time0705.tm.min ∧
          (Field.any : Field 24).Matches time0705.tm.hour)) ↔
      time0705.saveptr = true ∧ (¬ minute5.Matches time0705.tm.min ∨
        (' ' ∉ ['x'] ∧ (minute5.TestedWith (Field.any : Field 24) time0705.tm.hour ↔
          (Field.any : Field 24).Matches time0705.tm.hour)) ∨
        (' ' ∈ ['x'] ∧ ¬ (Field.any : Field 24).Matches time0705.tm.hour))) ∧
    ((∃ s' r, round (crontab minute5 .any ['x']) (State.init (List.replicate bufSize ' ')) time0705 = some (s', r) ∧
        r = if minute5.Matches time0705.tm.min ∧ (Field.any : Field 24).Matches time0705.tm.hour
          then .shell (some ['x']) else .idle) ↔
      time0705.saveptr = true ∧ (¬ minute5.Matches time0705.tm.min ∨
        ((minute5.TestedWith (Field.any : Field 24) time0705.tm.hour ↔
            (Field.any : Field 24).Matches time0705.tm.hour) ∧
          ((Field.any : Field 24).Matches time0705.tm.hour → ' ' ∉ ['x'])))) := by
  have hbuf : (List.replicate bufSize ' ').length = bufSize := List.length_replicate
  have hrun : exec (round (crontab minute5 (.any : Field 24) ['x'])) (State.init (List.replicate bufSize ' ')) [] =
      some (State.init (List.replicate bufSize ' '), []) := rfl
  exact round_starts_iff (by decide) (by decide) (by decide) hbuf hrun time0705

/-- At 7:05 the fields of `5 7 x` and of `* * x y` match. The first crontab starts nothing, and the second one starts
`x`. -/
theorem not_round_starts :
    (minute5.Matches time0705.tm.min ∧ hour7.Matches time0705.tm.hour ∧
      ∃ s', round (crontab minute5 hour7 ['x']) (State.init (List.replicate bufSize ' ')) time0705 =
        some (s', .idle)) ∧
    (Field.any : Field 60).Matches time0705.tm.min ∧ (Field.any : Field 24).Matches time0705.tm.hour ∧
      ∃ s', round (crontab .any .any ['x', ' ', 'y']) (State.init (List.replicate bufSize ' ')) time0705 =
        some (s', .shell (some ['x'])) := by
  have hready : (State.init (List.replicate bufSize ' ')).Ready := ready_init List.length_replicate
  have hhour : ∃ s', round (crontab minute5 hour7 ['x']) (State.init (List.replicate bufSize ' ')) time0705 =
      some (s', outcome minute5 hour7 ['x'] time0705.tm) ∧ s'.Ready :=
    hready.round_eq (by decide) (by decide) rfl
  have hcommand : ∃ s', round (crontab .any .any ['x', ' ', 'y']) (State.init (List.replicate bufSize ' ')) time0705 =
      some (s', outcome .any .any ['x', ' ', 'y'] time0705.tm) ∧ s'.Ready :=
    hready.round_eq (by decide) (by decide) rfl
  obtain ⟨s, hstart, -⟩ := hhour
  obtain ⟨s', hstart', -⟩ := hcommand
  exact ⟨⟨by decide, by decide, s, hstart⟩, trivial, trivial, s', hstart'⟩

end SystemProgrammingLab.Week7
