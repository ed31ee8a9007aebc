import Mathlib.Data.List.DropRight
import SystemProgrammingLab.Pa2.Parse

/-!
# The directory of the program

`init_dir` finds the directory that the programs of the shell are in: `DIRECTORY` gets `argv[0]`, loses what
stands behind the last `'/'`, and gets the canonical path of what is left. Nothing stops the loop that looks for
the `'/'`, and the canonical path is copied without a NUL over what is there.

So an `argv[0]` without a `'/'` leads in front of `DIRECTORY`, and the end of the name survives if the canonical
path is shorter than it (`findsDirectory_iff`). The canonical path of an absolute name without links is one
character shorter, since the name ends in its `'/'`.

Source: `pa2/main.c`
-/

namespace SystemProgrammingLab.Pa2

open SystemProgrammingLab.Found

/-! ## `init_dir` -/

/-- The size of `DIRECTORY`. Source: `main.c` -/
def directorySize : Nat := 4096

/-- `DIRECTORY` when the program starts. Source: `main.c` -/
def emptyDirectory : List Char := List.replicate directorySize terminator

/-- The canonical paths of the directories; `none` for a name that is no directory. Source: `realpath` -/
structure Realpath where
  path : Text → Option Text
  absolute : ∀ name dir, path name = some dir → dir.head? = some '/'
  noNul : ∀ name dir, path name = some dir → terminator ∉ dir

/-- What is undefined: an access in front of `DIRECTORY` or behind it, and the length of `NULL`. -/
inductive Fault
  | inFront
  | behind
  | null
  deriving DecidableEq

/-- `strncpy(DIRECTORY, s, strlen(s))`. Source: `init_dir` -/
def copyText (directory : List Char) (s : Text) : Except Fault (List Char) :=
  if s.length ≤ directory.length then .ok (s ++ directory.drop s.length) else .error .behind

/-- The string in `DIRECTORY`. -/
def directoryText (directory : List Char) : Except Fault Text :=
  (textAt directory 0).elim (.error .behind) .ok

/-- The loop that looks for the last `'/'`, when `i` characters are in front of `pos + 1`. Source: `init_dir` -/
def clearName (directory : List Char) : Nat → Except Fault (List Char)
  | 0 => .error .inFront
  | i + 1 => if directory[i]? = some '/' then .ok directory else clearName (directory.set i terminator) i

/-- `DIRECTORY` afterwards. Source: `init_dir` -/
def initDir (realpath : Realpath) (arg : Text) : Except Fault (List Char) := do
  let directory ← copyText emptyDirectory arg
  let text ← directoryText directory
  let directory ← clearName directory text.length
  let name ← directoryText directory
  match realpath.path name with
  | none => .error .null
  | some dir => copyText directory dir

/-! ## Padded texts -/

section padded

variable {s : Text}

/-- A text in a buffer of `n` characters, with NULs behind it. -/
def padded (n : Nat) (s : Text) : List Char := s ++ List.replicate (n - s.length) terminator

/-- The text of a padded array. -/
theorem textAt_padded (hs : terminator ∉ s) {n : Nat} (hlen : s.length < n) :
    textAt (padded n s) 0 = some s := by
  refine textAt_eq_some_iff.mpr ⟨hs, List.replicate (n - s.length - 1) terminator, ?_⟩
  obtain ⟨k, hk⟩ : ∃ k, n - s.length = k + 1 := ⟨n - s.length - 1, by omega⟩
  rw [List.drop_zero, padded, hk, List.replicate_succ, Nat.add_sub_cancel]

/-- Up to the last `'/'`. -/
def upToSlash (arg : Text) : Text := arg.rdropWhile (· ≠ '/')

/-- The path up to the last slash is its front. -/
theorem upToSlash_prefix (arg : Text) : upToSlash arg <+: arg := List.rdropWhile_prefix _ _

/-- The loop clears what stands behind the last `'/'`, and goes too far when there is none. -/
theorem clearName_padded {n : Nat} (hlen : s.length ≤ n) :
    clearName (padded n s) s.length =
      if '/' ∈ s then .ok (padded n (upToSlash s)) else .error .inFront := by
  induction s using List.reverseRecOn with
  | nil => rfl
  | append_singleton s c ih =>
      rw [List.length_append, List.length_singleton] at hlen ⊢
      have hget : (padded n (s ++ [c]))[s.length]? = some c := by simp [padded]
      rw [clearName, hget]
      by_cases hc : c = '/'
      · subst hc
        rw [if_pos rfl, if_pos (by simp), upToSlash, List.rdropWhile_concat_neg _ _ _ (by simp)]
      · have hset : (padded n (s ++ [c])).set s.length terminator = padded n s := by
          obtain ⟨k, rfl⟩ := Nat.exists_eq_add_of_le hlen
          have hk : s.length + 1 + k - s.length = k + 1 := by omega
          simp [padded, hk, List.replicate_succ]
        have hne : '/' ≠ c := Ne.symm hc
        rw [if_neg (by simpa using hc), hset, ih (by omega), upToSlash, upToSlash,
          List.rdropWhile_concat_pos _ _ _ (by simpa using hc)]
        simp [hne]

/-- What is copied over a text is a string if it covers the text and there is room for a NUL. -/
theorem textAt_copied_iff (hs : terminator ∉ s) {n : Nat} (hlen : s.length ≤ n) {dir : Text}
    (hdir : terminator ∉ dir) :
    (∃ directory, copyText (padded n s) dir = .ok directory ∧ textAt directory 0 = some dir) ↔
      s.length ≤ dir.length ∧ dir.length < n := by
  have hpadded : (padded n s).length = n := by
    rw [padded, List.length_append, List.length_replicate, Nat.add_sub_cancel' hlen]
  unfold copyText
  rw [hpadded]
  constructor
  · rintro ⟨directory, hcopy, htext⟩
    split_ifs at hcopy
    obtain rfl := Except.ok.inj hcopy
    obtain ⟨-, post, hpost⟩ := textAt_eq_some_iff.mp htext
    -- the NUL behind the string was there before
    have hcell : (padded n s)[dir.length]? = some terminator := by
      rw [← List.head?_drop, List.append_cancel_left hpost]
      rfl
    obtain ⟨hlt, -⟩ := List.getElem?_eq_some_iff.mp hcell
    refine ⟨?_, hpadded ▸ hlt⟩
    by_contra hshort
    rw [padded, List.getElem?_append_left (Nat.lt_of_not_le hshort)] at hcell
    exact hs (List.mem_of_getElem? hcell)
  · rintro ⟨hle, hlt⟩
    obtain ⟨k, hk⟩ : ∃ k, n - s.length - (dir.length - s.length) = k + 1 := ⟨n - dir.length - 1, by omega⟩
    rw [if_pos hlt.le]
    refine ⟨_, rfl, textAt_eq_some_iff.mpr ⟨hdir, List.replicate k terminator, ?_⟩⟩
    rw [List.drop_zero, padded, List.drop_append, List.drop_eq_nil_of_le hle, List.nil_append,
      List.drop_replicate, hk, List.replicate_succ]

end padded

/-! ## What it finds -/

section found

variable {realpath : Realpath} {arg : Text}

/-- No access is in front of `DIRECTORY`, and a name with a `'/'` leads to the directory that is named up to its
last `'/'`. -/
structure FindsDirectory (realpath : Realpath) (arg : Text) : Prop where
  notInFront : initDir realpath arg ≠ .error .inFront
  found : '/' ∈ arg → ∀ dir, realpath.path (upToSlash arg) = some dir →
    ∃ directory, initDir realpath arg = .ok directory ∧ textAt directory 0 = some dir

/-- A short path is copied to the array. -/
theorem copyText_emptyDirectory (hlen : arg.length < directorySize) :
    copyText emptyDirectory arg = .ok (padded directorySize arg) := by
  unfold copyText emptyDirectory
  rw [List.length_replicate, if_pos hlen.le, List.drop_replicate]
  rfl

/-- And it is what is read there. -/
theorem directoryText_padded (hnul : terminator ∉ arg) (hlen : arg.length < directorySize) :
    directoryText (padded directorySize arg) = .ok arg := by
  rw [directoryText, textAt_padded hnul hlen]
  rfl

/-- What `init_dir` does with a path without NUL that fits. -/
theorem initDir_eq (hnul : terminator ∉ arg) (hlen : arg.length < directorySize) :
    initDir realpath arg =
      if '/' ∈ arg then
        match realpath.path (upToSlash arg) with
        | none => .error .null
        | some dir => copyText (padded directorySize (upToSlash arg)) dir
      else .error .inFront := by
  have hupTo := upToSlash_prefix arg
  have hname := directoryText_padded (fun hmem => hnul (hupTo.subset hmem))
    (hupTo.length_le.trans_lt hlen)
  have hstart : initDir realpath arg = (clearName (padded directorySize arg) arg.length >>= fun directory =>
      directoryText directory >>= fun name =>
        match realpath.path name with
        | none => .error .null
        | some dir => copyText directory dir) := by
    rw [initDir, copyText_emptyDirectory hlen]
    show (directoryText (padded directorySize arg) >>= _) = _
    rw [directoryText_padded hnul hlen]
    rfl
  rw [hstart, clearName_padded hlen.le]
  split_ifs with hslash
  · show (directoryText (padded directorySize (upToSlash arg)) >>= _) = _
    rw [hname]
    rfl
  · rfl

/-- It stays inside of the array exactly when there is a slash. -/
theorem initDir_ne_inFront_iff (hnul : terminator ∉ arg) (hlen : arg.length < directorySize) :
    initDir realpath arg ≠ .error .inFront ↔ '/' ∈ arg := by
  rw [initDir_eq hnul hlen]
  by_cases hslash : '/' ∈ arg
  · refine iff_of_true ?_ hslash
    rw [if_pos hslash]
    split
    · exact fun h => nomatch h
    · unfold copyText
      split_ifs
      · exact fun h => nomatch h
      · exact fun h => nomatch h
  · rw [if_neg hslash]
    exact iff_of_false (fun h => h rfl) hslash

/-- A canonical path is found if it covers the name. -/
theorem found_iff (hnul : terminator ∉ arg) (hlen : arg.length < directorySize) (hslash : '/' ∈ arg)
    {dir : Text} (hdir : realpath.path (upToSlash arg) = some dir) :
    (∃ directory, initDir realpath arg = .ok directory ∧ textAt directory 0 = some dir) ↔
      (upToSlash arg).length ≤ dir.length ∧ dir.length < directorySize := by
  have hupTo := upToSlash_prefix arg
  rw [initDir_eq hnul hlen, if_pos hslash, hdir]
  exact textAt_copied_iff (fun hmem => hnul (hupTo.subset hmem)) (hupTo.length_le.trans hlen.le)
    (realpath.noNul _ dir hdir)

end found

/-- **The directory is found if and only if** the name has a `'/'`, and the canonical path fits and is not
shorter than the name up to its last `'/'`. -/
theorem findsDirectory_iff (realpath : Realpath) (arg : Text) (hnul : terminator ∉ arg)
    (hlen : arg.length < 4095) :
    FindsDirectory realpath arg ↔ '/' ∈ arg ∧ ∀ dir, realpath.path (upToSlash arg) = some dir →
      (upToSlash arg).length ≤ dir.length ∧ dir.length < directorySize := by
  have hlen' : arg.length < directorySize := hlen.trans (by decide)
  constructor
  · intro h
    have hslash := (initDir_ne_inFront_iff hnul hlen').mp h.notInFront
    exact ⟨hslash, fun dir hdir => (found_iff hnul hlen' hslash hdir).mp (h.found hslash dir hdir)⟩
  · rintro ⟨hslash, hdirs⟩
    refine ⟨(initDir_ne_inFront_iff hnul hlen').mpr hslash, ?_⟩
    intro _ dir hdir
    exact (found_iff hnul hlen' hslash hdir).mpr (hdirs dir hdir)

/-- The only directory is `/bin`, which `/b/` is a link to. -/
def onlyBin : Realpath where
  path name := if name = "/bin/".toList ∨ name = "/b/".toList then some "/bin".toList else none
  absolute := by
    intro name dir hdir
    split_ifs at hdir
    obtain rfl := Option.some.inj hdir
    rfl
  noNul := by
    intro name dir hdir
    split_ifs at hdir
    obtain rfl := Option.some.inj hdir
    decide

/-- A link that is shorter than its directory. -/
theorem findsDirectory_iff_link : FindsDirectory onlyBin "/b/mini".toList := by
  refine (findsDirectory_iff onlyBin "/b/mini".toList (by decide) (by decide)).mpr ⟨by decide, ?_⟩
  intro dir hdir
  have hbin : onlyBin.path (upToSlash "/b/mini".toList) = some "/bin".toList := by decide
  obtain rfl := Option.some.inj (hbin.symm.trans hdir)
  decide

/-- **The directory of an absolute name keeps its `'/'`**, and a name without one leads in front of
`DIRECTORY`. -/
theorem not_findsDirectory :
    (¬ FindsDirectory onlyBin "/bin/mini".toList) ∧ ¬ FindsDirectory onlyBin "mini".toList := by
  constructor
  · intro h
    have hbin : onlyBin.path (upToSlash "/bin/mini".toList) = some "/bin".toList := by decide
    have hfound := (found_iff (by decide) (by decide) (by decide) hbin).mp (h.found (by decide) _ hbin)
    exact absurd hfound.1 (by decide)
  · intro h
    exact absurd ((initDir_ne_inFront_iff (by decide) (by decide)).mp h.notInFront) (by decide)

end SystemProgrammingLab.Pa2
