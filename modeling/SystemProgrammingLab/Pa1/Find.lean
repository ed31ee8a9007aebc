import SystemProgrammingLab.Found.First
import SystemProgrammingLab.Pa1.Tokens

/-!
# The two searches of `mystring.c`

`issubstring` goes through a string character by character, and `isincluded` from word to word. Both return
the first place: `issubstring` of a text (`issubstring_first`), `isincluded` of a token that equals a word
(`isincluded_first`), which it does not miss by going on behind the blanks.

The results are the same for all that may stand behind the terminators, also if nothing does, where a read
behind a terminator is undefined. And `isincluded` is undefined where it gets a `NULL` from `nextWord`.

Source: `pa1/mystring.c`
-/

namespace SystemProgrammingLab.Pa1

open SystemProgrammingLab.Found

/-! ## A text -/

section substring

variable {sub s : List Char}

/-- The first occurrence is at the start, or one further on in the rest. -/
theorem exists_findSub (hne : sub ≠ []) (s : List Char) :
    ∃ r : Option Nat, findSub sub s = r.map s.drop ∧ First (fun k => sub <+: s.drop k) r := by
  induction s with
  | nil =>
      refine ⟨none, rfl, first_none fun k hk => ?_⟩
      rw [List.drop_nil] at hk
      exact hne (List.prefix_nil.mp hk)
  | cons c s ih =>
      rw [findSub]
      by_cases hfound : sub ≠ [] ∧ sub.isPrefixOf (c :: s) = true
      · rw [if_pos hfound]
        exact ⟨some 0, rfl, first_zero (List.isPrefixOf_iff_prefix.mp hfound.2)⟩
      · obtain ⟨r, hr, hfirst⟩ := ih
        have hstart : ¬ sub <+: c :: s := fun h => hfound ⟨hne, List.isPrefixOf_iff_prefix.mpr h⟩
        rw [if_neg hfound, hr]
        refine ⟨r.map (1 + ·), ?_, hfirst.shift ?_ ?_⟩
        · rw [Option.map_map]
          congr 1
          funext k
          rw [Function.comp_apply, Nat.add_comm, List.drop_succ_cons]
        · intro k hk
          rwa [Nat.lt_one_iff.mp hk]
        · intro k
          rw [Nat.add_comm, List.drop_succ_cons]

end substring

/-- **A text is found at its first place**, if it has one. -/
theorem issubstring_first {substr str : List Char} (hsubstr : nul ∉ substr) (hne : substr ≠ [])
    (hstr : nul ∉ str) : ∃ r : Option Nat,
    (∀ rest rest', issubstring (substr ++ nul :: rest') (str ++ nul :: rest) =
      some (r.map fun k => str.drop k ++ nul :: rest)) ∧
    (r = none ↔ ∀ k, ¬ substr <+: str.drop k) ∧
      ∀ k, r = some k ↔ IsLeast {k | substr <+: str.drop k} k := by
  obtain ⟨r, hr, hfirst⟩ := exists_findSub hne str
  refine ⟨r, ?_, hfirst.eq_none_iff, hfirst.eq_some_iff⟩
  intro rest rest'
  rw [issubstring_text hsubstr hstr, hr, Option.map_map]
  rfl

/-- `ab` in `aab`. -/
theorem issubstring_first_ab : ∃ r : Option Nat,
    (∀ rest rest', issubstring (['a', 'b'] ++ nul :: rest') (['a', 'a', 'b'] ++ nul :: rest) =
      some (r.map fun k => ['a', 'a', 'b'].drop k ++ nul :: rest)) ∧
    (r = none ↔ ∀ k, ¬ ['a', 'b'] <+: ['a', 'a', 'b'].drop k) ∧
      ∀ k, r = some k ↔ IsLeast {k | ['a', 'b'] <+: ['a', 'a', 'b'].drop k} k :=
  issubstring_first (by decide) (by decide) (by decide)

/-! ## A word -/

section word

variable {word s : List Char}

/-- A word is found at the first column of its tokens. -/
theorem findWord_eq (hword : word ≠ []) (s : List Char) (i : Nat) :
    findWord word s = (columns word true i s).head?.map fun j => s.drop (j - i) := by
  induction s using findWord.induct word generalizing i with
  | case1 =>
      rw [findWord]
      rfl
  | case2 c cs hfound =>
      rw [findWord, if_pos hfound, columns, if_pos ⟨rfl, hfound⟩, List.singleton_append, List.head?_cons,
        Option.map_some, Nat.sub_self, List.drop_zero]
  | case3 c cs hnot _ ih =>
      rw [findWord, if_neg hnot, columns_afterWord hword fun h => hnot h.2, ih]
      apply Option.map_congr
      intro j hj
      have hle := le_of_mem_columns (List.mem_of_head? hj)
      have hdrop := List.suffix_iff_eq_drop.mp (afterWord_suffix (c :: cs))
      have hj : j - i = (c :: cs).length - (afterWord (c :: cs)).length +
          (j - (i + ((c :: cs).length - (afterWord (c :: cs)).length))) := by omega
      rw [hj, ← List.drop_drop, ← hdrop]

/-- A word is found at its first place as a token, or nowhere. -/
theorem exists_findWord (hword : word ≠ []) (s : List Char) :
    ∃ r : Option Nat, findWord word s = r.map s.drop ∧ First (fun p => Token s p word) r :=
  ⟨_, findWord_eq hword s 0, first_head? columns_pairwise fun _ => mem_columns_line hword⟩

end word

/-- **A word is found at the first token that equals it**, if there is one. -/
theorem isincluded_first {word str : List Char} (hword : nul ∉ word) (hne : word ≠ [])
    (hstr : nul ∉ str) : ∃ r : Option Nat,
    (∀ fill rest rest', isincluded fill (word ++ nul :: rest') (str ++ nul :: rest) =
      some (r.map fun p => str.drop p ++ nul :: rest)) ∧
    (r = none ↔ ∀ p, ¬ Token str p word) ∧ ∀ p, r = some p ↔ IsLeast {p | Token str p word} p := by
  obtain ⟨r, hr, hfirst⟩ := exists_findWord hne str
  refine ⟨r, ?_, hfirst.eq_none_iff, hfirst.eq_some_iff⟩
  intro fill rest rest'
  rw [isincluded_text fill hword hstr, hr, Option.map_map]
  rfl

/-- `ab` behind a tab and a longer word. -/
theorem isincluded_first_ab : ∃ r : Option Nat,
    (∀ fill rest rest', isincluded fill (['a', 'b'] ++ nul :: rest') ("\taba  ab".toList ++ nul :: rest) =
      some (r.map fun p => "\taba  ab".toList.drop p ++ nul :: rest)) ∧
    (r = none ↔ ∀ p, ¬ Token "\taba  ab".toList p ['a', 'b']) ∧
      ∀ p, r = some p ↔ IsLeast {p | Token "\taba  ab".toList p ['a', 'b']} p :=
  isincluded_first (by decide) (by decide) (by decide)

end SystemProgrammingLab.Pa1
