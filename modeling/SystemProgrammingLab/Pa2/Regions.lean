import Mathlib.Data.List.Basic
import SystemProgrammingLab.Pa2.Parse

/-!
# What `parse_command` does to the words of a command

The loop over the redirections finds the operators in the order of `REDIRECTIONS`, each behind the
one it found before. So it divides the words of a command into regions: the words before the first
operator it finds, and for each operator the words behind it up to the next one it finds
(`regions`). The arguments are the words of the first region, and the file name of a redirection is
its whole region (`parseCommand_spec`).

Source: `pa2/main.c`
-/

namespace SystemProgrammingLab.Pa2

open SystemProgrammingLab.Found

/-- The words before the first operator, and the region of each operator that is found. -/
def regions : List Redirection → List Text → List Text × (Redirection → Option (List Text))
  | [], ws => (ws, fun _ => none)
  | i :: is, ws =>
      match ws.dropWhile (· ≠ i.operator) with
      | [] => regions is ws
      | _ :: behind =>
          (ws.takeWhile (· ≠ i.operator),
            Function.update (regions is behind).2 i (some (regions is behind).1))

/-- An operator that does not occur is passed over. -/
theorem regions_of_notMem {i : Redirection} {is : List Redirection} {ws : List Text}
    (h : i.operator ∉ ws) : regions (i :: is) ws = regions is ws := by
  have hdrop : ws.dropWhile (· ≠ i.operator) = [] := by
    rw [List.dropWhile_eq_nil_iff]
    intro w hw
    simpa using fun heq : w = i.operator => h (heq ▸ hw)
  rw [regions, hdrop]

/-- At an operator the words are cut: those in front, and the region behind it. -/
theorem regions_append {i : Redirection} {is : List Redirection} {as bs : List Text}
    (h : i.operator ∉ as) : regions (i :: is) (as ++ i.operator :: bs) =
      (as, Function.update (regions is bs).2 i (some (regions is bs).1)) := by
  have hall : ∀ w ∈ as, decide (w ≠ i.operator) = true := by
    intro w hw
    simpa using fun heq : w = i.operator => h (heq ▸ hw)
  rw [regions, List.dropWhile_append_of_pos hall, List.takeWhile_append_of_pos hall]
  simp

/-- The words before the first operator are the first words. -/
theorem regions_front (is : List Redirection) : ∀ ws : List Text, (regions is ws).1 <+: ws := by
  induction is with
  | nil => exact fun ws => List.prefix_rfl
  | cons i is ih =>
      intro ws
      by_cases hi : i.operator ∈ ws
      · obtain ⟨as, bs, rfl, has⟩ := List.eq_append_cons_of_mem hi
        rw [regions_append has]
        exact List.prefix_append _ _
      · rw [regions_of_notMem hi]
        exact ih ws

/-- Behind every operator stands a word that is none. -/
def Followed (ws : List Text) : Prop :=
  ∀ as i bs, ws = as ++ Redirection.operator i :: bs →
    ∃ f cs, bs = f :: cs ∧ ∀ j, f ≠ Redirection.operator j

/-- The words behind others. -/
theorem Followed.append {as bs : List Text} (h : Followed (as ++ bs)) : Followed bs := by
  intro cs i ds hds
  exact h (as ++ cs) i ds (by rw [hds, List.append_assoc])

/-- No words. -/
theorem followed_nil : Followed [] := by
  intro as i bs h
  simp at h

/-- A word in front that is no operator. -/
theorem Followed.cons {ws : List Text} (h : Followed ws) {w : Text}
    (hw : ∀ j, w ≠ Redirection.operator j) : Followed (w :: ws) := by
  intro as i bs heq
  rcases as with _ | ⟨a, as⟩
  · exact absurd (List.cons.inj heq).1 (hw i)
  · exact h as i bs (List.cons.inj heq).2

/-- An operator in front, with its file. -/
theorem Followed.file {ws : List Text} (h : Followed ws) (i : Redirection) {f : Text}
    (hf : ∀ j, f ≠ Redirection.operator j) : Followed (i.operator :: f :: ws) := by
  intro as j bs heq
  rcases as with _ | ⟨a, as⟩
  · exact ⟨f, ws, (List.cons.inj heq).2.symm, hf⟩
  · exact h.cons hf as j bs (List.cons.inj heq).2

/-- An operator has no blank. -/
theorem space_notMem_operator (i : Redirection) : ' ' ∉ i.operator := by
  cases i <;> decide
/-- An operator is a token. -/
theorem isToken_operator (i : Redirection) : IsToken ' ' i.operator := by
  refine ⟨?_, space_notMem_operator i⟩
  cases i <;> exact List.cons_ne_nil _ _

/-- The operators are different. -/
theorem operator_injective {i j : Redirection} (h : i.operator = j.operator) : i = j := by
  revert h
  cases i <;> cases j <;> decide

/-- A blank at the end, or none. -/
def IsTrail (trail : Text) : Prop := trail = [] ∨ trail = [' ']

section scan

variable {node : Nat} {st : Scan} {i : Redirection}

/-- What is set for a redirection is there. -/
theorem get_set_self (r : Redirects) (i : Redirection) (p : NodePtr) : (r.set i p).get i = some p := by
  cases i <;> rfl

/-- The other redirections are as they were. -/
theorem get_set_of_ne (r : Redirects) {i j : Redirection} (h : j ≠ i) (p : NodePtr) :
    (r.set i p).get j = r.get j := by
  cases i <;> cases j <;> first | rfl | exact absurd rfl h

/-- The file name is what stands at `file`, without the blank at its end. -/
theorem setRedirect_spec (node : Nat) (i : Redirection) {file : Nat} {r trail : Text}
    (h : textAt st.cmd file = some (r ++ trail)) (hr : ∃ c, r.getLast? = some c ∧ c ≠ ' ') (htrail : IsTrail trail) :
    ∃ cmd, setRedirect node st i file = some (cmd, st.redirects.set i ⟨node, file⟩) ∧
      textAt cmd file = some r ∧ (cmd = st.cmd ∨ cmd = st.cmd.set (file + r.length) terminator) := by
  obtain ⟨c, hlast, hc⟩ := hr
  obtain ⟨rs, rfl⟩ := List.getLast?_eq_some_iff.mp hlast
  have hlt := textAt_lt h
  unfold setRedirect
  rw [strlen_eq h, Option.bind_eq_bind, Option.bind_some]
  rcases htrail with rfl | rfl
  · have hcell : ((file + (rs ++ [c] ++ []).length : Nat) : Int) - 1 = (file + rs.length : Nat) := by
      simp only [List.append_nil, List.length_append, List.length_singleton]
      omega
    rw [hcell, readAt_add h (by simp), List.append_nil, List.getElem?_concat_length,
      Option.bind_eq_bind, Option.bind_some, if_neg hc]
    exact ⟨st.cmd, rfl, by rw [h, List.append_nil], .inl rfl⟩
  · have hcell : ((file + (rs ++ [c] ++ [' ']).length : Nat) : Int) - 1 =
        (file + (rs ++ [c]).length : Nat) := by
      simp only [List.length_append, List.length_singleton]
      omega
    rw [hcell, readAt_add h (by simp), List.getElem?_concat_length, Option.bind_eq_bind,
      Option.bind_some, if_pos rfl, writeAt_eq (by simp at hlt ⊢; omega)]
    refine ⟨_, rfl, ?_, .inr rfl⟩
    rw [textAt_cut h (Nat.le_add_right _ _), Nat.add_sub_cancel_left, List.take_left]

/-- An operator that is not found changes nothing. -/
theorem findRedirection_none {s : Text} (h : textAt st.cmd st.pos = some s)
    (hfind : findAt i.pattern s = none) : findRedirection node st i = some st := by
  rw [findRedirection, strstr, h, Option.map_some, hfind]
  rfl

/-- A redirection is found: `front` stands before it, and `r` is behind it. -/
structure FoundAt (node : Nat) (st : Scan) (i : Redirection) (front r : Text) (st' : Scan) : Prop where
  pos : st'.pos = st.pos + front.length + 1
  commandEnd : st'.commandEnd = some (st.commandEnd.getD (st.pos + front.length + 1))
  front : textAt st'.cmd st.pos = some front
  behind : ∃ trail, IsTrail trail ∧ (st.redirects.get i = none → trail = []) ∧
    textAt st'.cmd st'.pos = some (i.operator ++ ' ' :: r ++ trail)
  redirects : st'.redirects = if st.redirects.get i = none then
    st.redirects.set i ⟨node, st'.pos + i.operator.length + 1⟩ else st.redirects
  before : ∀ o s, o + s.length < st.pos → textAt st.cmd o = some s → textAt st'.cmd o = some s

/-- A write behind a text leaves it as it is. -/
theorem textAt_set_after {buf s : List Char} {o p : Nat} {c : Char} (h : textAt buf o = some s)
    (hp : o + s.length < p) : textAt (buf.set p c) o = some s := by
  rcases Nat.lt_or_ge p buf.length with hlt | hge
  · exact ((SameOutside.refl p (p + 1) buf).set le_rfl (Nat.lt_succ_self p) c).textAt h (.inl hp)
  · rw [List.set_eq_of_length_le hge, h]

/-- The file name is set, or it was set before. -/
theorem exists_setRedirect (node : Nat) {front r trail : Text}
    (h : textAt st.cmd st.pos = some (front ++ i.pattern ++ r ++ trail))
    (hr : ∃ c, r.getLast? = some c ∧ c ≠ ' ') (htrail : IsTrail trail) :
    ∃ cmd redirects trail',
      (if st.redirects.get i = none then
        setRedirect node st i (st.pos + front.length + i.pattern.length)
      else some (st.cmd, st.redirects)) = some (cmd, redirects) ∧
      redirects = (if st.redirects.get i = none then
        st.redirects.set i ⟨node, st.pos + front.length + i.pattern.length⟩ else st.redirects) ∧
      IsTrail trail' ∧ (st.redirects.get i = none → trail' = []) ∧
      textAt cmd st.pos = some (front ++ i.pattern ++ r ++ trail') ∧
      ∀ o s, o + s.length < st.pos → textAt st.cmd o = some s → textAt cmd o = some s := by
  by_cases hunset : st.redirects.get i = none
  · have hfile : textAt st.cmd (st.pos + (front ++ i.pattern).length) = some (r ++ trail) := by
      rw [textAt_add h (by simp), List.append_assoc, List.drop_left]
    obtain ⟨cmd, hrun, htext, hcmd⟩ := setRedirect_spec node i hfile hr htrail
    rw [List.length_append, ← Nat.add_assoc] at hrun htext hcmd hfile
    refine ⟨cmd, _, [], by rw [if_pos hunset, hrun], by rw [if_pos hunset], .inl rfl, fun _ => rfl,
      ?_, ?_⟩
    · rcases hcmd with rfl | rfl
      · rw [hfile, Option.some_inj, List.append_right_eq_self] at htext
        rw [h, htext]
      · rw [textAt_cut h (by omega)]
        have hlen : st.pos + front.length + i.pattern.length + r.length - st.pos =
            (front ++ i.pattern ++ r).length := by
          simp only [List.length_append]
          omega
        rw [hlen, List.take_left, List.append_nil]
    · intro o s ho hs
      rcases hcmd with rfl | rfl
      · exact hs
      · exact textAt_set_after hs (by omega)
  · exact ⟨st.cmd, st.redirects, trail, by rw [if_neg hunset], by rw [if_neg hunset], htrail,
      fun hnone => absurd hnone hunset, h, fun _ _ _ hs => hs⟩

/-- An operator that is found ends what is in front of it, and its file is kept. -/
theorem findRedirection_some (node : Nat) {front r trail : Text}
    (h : textAt st.cmd st.pos = some (front ++ i.pattern ++ r ++ trail))
    (hfind : findAt i.pattern (front ++ i.pattern ++ r ++ trail) = some front.length)
    (hr : ∃ c, r.getLast? = some c ∧ c ≠ ' ') (htrail : IsTrail trail) :
    ∃ st', findRedirection node st i = some st' ∧ FoundAt node st i front r st' := by
  obtain ⟨cmd, redirects, trail', hrun, hredirects, htrail', hunset, htext, hbefore⟩ :=
    exists_setRedirect node h hr htrail
  have hpattern : i.pattern.length = i.operator.length + 2 := by
    simp [Redirection.pattern]
  have hlt := textAt_lt htext
  simp only [List.length_append] at hlt
  refine ⟨⟨cmd.set (st.pos + front.length) terminator, st.pos + front.length + 1,
    some (st.commandEnd.getD (st.pos + front.length + 1)), redirects⟩, ?_, ?_⟩
  · rw [findRedirection, strstr, h, Option.map_some, hfind, Option.map_some, Option.bind_some]
    dsimp only
    rw [hrun, Option.bind_some]
    dsimp only
    rw [writeAt_eq (by omega), Option.map_some]
  · refine ⟨rfl, rfl, ?_, ⟨trail', htrail', hunset, ?_⟩, ?_, ?_⟩
    · dsimp only
      rw [textAt_cut htext (Nat.le_add_right _ _), Nat.add_sub_cancel_left, List.append_assoc,
        List.append_assoc, List.take_left]
    · dsimp only
      have hadd := textAt_add htext (k := front.length + 1) (by simp [Redirection.pattern])
      rw [← List.drop_drop, List.append_assoc, List.append_assoc, List.drop_left] at hadd
      rw [textAt_set_before (Nat.lt_succ_self _)]
      apply hadd.trans
      simp [Redirection.pattern]
    · have hfile : st.pos + front.length + i.pattern.length =
          st.pos + front.length + 1 + i.operator.length + 1 := by omega
      rw [hredirects, hfile]
    · intro o s ho hs
      exact textAt_set_after (hbefore o s ho hs) (by omega)

end scan

/-- What the loop over the redirections does to a content: `own` are the words it leaves in front,
and the region of a redirection that was not set before is its file name. -/
structure Scanned (node : Nat) (x trail : Text) (own : List Text)
    (found : Redirection → Option (List Text)) (st st' : Scan) : Prop where
  text : ∃ trail', IsTrail trail' ∧ (trail = [] → trail' = []) ∧
    textAt st'.cmd st.pos = some (x ++ led ' ' own ++ trail')
  commandEnd : ((∀ j, found j = none) ∧ st'.commandEnd = st.commandEnd) ∨
    (st'.commandEnd = some (st.commandEnd.getD (st.pos + (x ++ led ' ' own).length + 1)) ∧
      st.pos + (x ++ led ' ' own).length + 1 < st'.cmd.length)
  unset : ∀ j, found j = none → st'.redirects.get j = st.redirects.get j
  kept : ∀ j, st.redirects.get j ≠ none → st'.redirects.get j = st.redirects.get j
  region : ∀ j ws, found j = some ws → st.redirects.get j = none → ∃ o,
    st'.redirects.get j = some ⟨node, o⟩ ∧ st.pos + (x ++ led ' ' own).length + 1 < o ∧
      textAt st'.cmd o = some (joined ' ' ws)
  before : ∀ o s, o + s.length < st.pos → textAt st.cmd o = some s → textAt st'.cmd o = some s

section loop

variable {node : Nat} {st : Scan} {i : Redirection} {x trail : Text} {ws as bs : List Text}

/-- A blank at the end is no operator. -/
theorem findAt_trail (htrail : IsTrail trail) (i : Redirection) : findAt i.pattern trail = none := by
  apply findAt_eq_none_of_length_lt
  rcases htrail with rfl | rfl <;> simp [Redirection.pattern]

/-- What may stand at the end starts with a blank. -/
theorem head_trail (htrail : IsTrail trail) : ∀ c ∈ trail.head?, c = ' ' := by
  rcases htrail with rfl | rfl <;> simp

/-- Without the operator among the words nothing is found. -/
theorem findAt_pattern_none (hx : ' ' ∉ x) (hws : ∀ w ∈ ws, IsToken ' ' w) (hi : i.operator ∉ ws)
    (htrail : IsTrail trail) : findAt i.pattern (x ++ led ' ' ws ++ trail) = none := by
  rw [List.append_assoc, Redirection.pattern, findAt_append hx,
    findAt_led (space_notMem_operator i) (fun w hw => (hws w hw).2) hi (head_trail htrail)]
  exact congrArg _ (congrArg _ (findAt_trail htrail i))

/-- The first operator among the words is found. -/
theorem findAt_pattern_some (hx : ' ' ∉ x) (has : ∀ w ∈ as, IsToken ' ' w) (hi : i.operator ∉ as)
    (s : Text) : findAt i.pattern (x ++ led ' ' as ++ (i.pattern ++ s)) =
      some (x ++ led ' ' as).length := by
  have hhead : ∀ c ∈ (i.pattern ++ s).head?, c = ' ' := by simp [Redirection.pattern]
  have hprefix : findAt i.pattern (i.pattern ++ s) = some 0 := findAt_of_prefix (List.prefix_append _ _)
  rw [List.append_assoc]
  unfold Redirection.pattern at hprefix hhead ⊢
  rw [findAt_append hx, findAt_led (space_notMem_operator i) (fun w hw => (has w hw).2) hi hhead,
    hprefix]
  simp

/-- Joined tokens do not end with a blank. -/
theorem getLast_joined {f : Text} {cs : List Text} (h : ∀ w ∈ f :: cs, IsToken ' ' w) :
    ∃ c, (joined ' ' (f :: cs)).getLast? = some c ∧ c ≠ ' ' := by
  have hlast : ∀ (v : Text) (w : Text), IsToken ' ' w → ∃ c, (v ++ w).getLast? = some c ∧ c ≠ ' ' := by
    intro v w hw
    obtain ⟨ws, c, rfl⟩ := (List.eq_nil_or_concat' w).resolve_left hw.1
    refine ⟨c, by simp, ?_⟩
    rintro rfl
    exact hw.2 (by simp)
  rcases List.eq_nil_or_concat' cs with rfl | ⟨cs, w, rfl⟩
  · simpa [joined] using hlast [] f (h f List.mem_cons_self)
  · have hw := h w (by simp)
    simpa [joined] using hlast (f ++ led ' ' cs ++ [' ']) w hw

/-- The first word stands in front of all operators. -/
theorem regions_head {f : Text} (hf : ∀ j, f ≠ Redirection.operator j) (is : List Redirection) :
    ∀ cs, ∃ own, (regions is (f :: cs)).1 = f :: own := by
  induction is with
  | nil => exact fun cs => ⟨cs, rfl⟩
  | cons i is ih =>
      intro cs
      by_cases hi : i.operator ∈ cs
      · obtain ⟨as, bs, rfl, has⟩ := List.eq_append_cons_of_mem hi
        have hnot : i.operator ∉ f :: as := by
          rw [List.mem_cons, not_or]
          exact ⟨fun heq => hf i heq.symm, has⟩
        exact ⟨as, congrArg Prod.fst (regions_append hnot)⟩
      · have hnot : i.operator ∉ f :: cs := by
          rw [List.mem_cons, not_or]
          exact ⟨fun heq => hf i heq.symm, hi⟩
        rw [regions_of_notMem hnot]
        exact ih cs

section cons

variable {st₁ st' : Scan} {f : Text} {cs : List Text} {is : List Redirection} {trail₁ : Text}
  (hf : ∀ j, f ≠ Redirection.operator j)
  (hfound : FoundAt node st i (x ++ led ' ' as) (joined ' ' (f :: cs)) st₁)
  (hunset : st.redirects.get i = none → trail₁ = [])
  (hrest : Scanned node i.operator trail₁ (regions is (f :: cs)).1 (regions is (f :: cs)).2 st₁ st')

include hf hfound hunset hrest

/-- The words up to the next operator are the file of the operator that was found. -/
theorem FoundAt.region (hnone : st.redirects.get i = none) :
    st'.redirects.get i = some ⟨node, st₁.pos + i.operator.length + 1⟩ ∧
      textAt st'.cmd (st₁.pos + i.operator.length + 1) =
        some (joined ' ' (regions is (f :: cs)).1) := by
  have hptr : st₁.redirects.get i = some ⟨node, st₁.pos + i.operator.length + 1⟩ := by
    rw [hfound.redirects, if_pos hnone, get_set_self]
  refine ⟨?_, ?_⟩
  · rw [hrest.kept i (by rw [hptr]; exact Option.some_ne_none _), hptr]
  · obtain ⟨trail', -, htrail', htext⟩ := hrest.text
    obtain ⟨own, hown⟩ := regions_head hf is cs
    rw [htrail' (hunset hnone), List.append_nil, hown] at htext
    have hadd := textAt_add htext (k := i.operator.length + 1) (by simp)
    rw [← List.drop_drop, List.drop_left] at hadd
    rw [hown]
    exact hadd

/-- One more operator in front of what is found behind it. -/
theorem Scanned.cons : Scanned node x trail as (Function.update (regions is (f :: cs)).2 i
    (some (regions is (f :: cs)).1)) st st' := by
  have hpos := hfound.pos
  have hother : ∀ j, j ≠ i → st₁.redirects.get j = st.redirects.get j := by
    intro j hj
    rw [hfound.redirects]
    split_ifs
    · exact get_set_of_ne _ hj _
    · rfl
  refine ⟨?_, ?_, ?_, ?_, ?_, ?_⟩
  · refine ⟨[], .inl rfl, fun _ => rfl, ?_⟩
    rw [List.append_nil]
    exact hrest.before _ _ (by omega) hfound.front
  · obtain ⟨trail', -, -, htext⟩ := hrest.text
    have hlt := textAt_lt htext
    refine .inr ⟨?_, by omega⟩
    rcases hrest.commandEnd with ⟨-, hsame⟩ | ⟨hend, -⟩
    · exact hsame.trans hfound.commandEnd
    · rw [hend, hfound.commandEnd, Option.getD_some]
  · intro j hj
    have hji : j ≠ i := by
      rintro rfl
      rw [Function.update_self] at hj
      cases hj
    rw [Function.update_of_ne hji] at hj
    rw [hrest.unset j hj, hother j hji]
  · intro j hj
    have hsame : st₁.redirects.get j = st.redirects.get j := by
      by_cases hji : j = i
      · subst hji
        rw [hfound.redirects, if_neg hj]
      · exact hother j hji
    rw [hrest.kept j (hsame ▸ hj), hsame]
  · intro j ws hj hnone
    by_cases hji : j = i
    · subst hji
      rw [Function.update_self] at hj
      obtain rfl := Option.some.inj hj
      obtain ⟨hget, htext⟩ := hfound.region hf hunset hrest hnone
      exact ⟨_, hget, by omega, htext⟩
    · rw [Function.update_of_ne hji] at hj
      obtain ⟨o, hget, hlt, htext⟩ := hrest.region j ws hj (by rw [hother j hji, hnone])
      exact ⟨o, hget, by omega, htext⟩
  · intro o s ho hs
    exact hrest.before o s (by omega) (hfound.before o s ho hs)

end cons

/-- The loop over the redirections divides the words of the content into regions. -/
theorem scan_spec (node : Nat) : ∀ {is : List Redirection} {st : Scan} {x trail : Text}
    {ws : List Text}, textAt st.cmd st.pos = some (x ++ led ' ' ws ++ trail) → ' ' ∉ x →
      (∀ w ∈ ws, IsToken ' ' w) → Followed ws → IsTrail trail →
        ∃ st', is.foldlM (findRedirection node) st = some st' ∧
          Scanned node x trail (regions is ws).1 (regions is ws).2 st st' := by
  intro is
  induction is with
  | nil =>
      intro st x trail ws htext _ _ _ htrail
      exact ⟨st, rfl, ⟨trail, htrail, id, htext⟩, .inl ⟨fun _ => rfl, rfl⟩, fun _ _ => rfl,
        fun _ _ => rfl, fun _ _ h => (nomatch h), fun _ _ _ hs => hs⟩
  | cons i is ih =>
      intro st x trail ws htext hx hws hfollowed htrail
      by_cases hi : i.operator ∈ ws
      · obtain ⟨as, bs, rfl, has⟩ := List.eq_append_cons_of_mem hi
        obtain ⟨f, cs, rfl, hf⟩ := hfollowed as i bs rfl
        rw [List.forall_mem_append, List.forall_mem_cons] at hws
        obtain ⟨hwsas, -, hwsbs⟩ := hws
        have hshape : x ++ led ' ' (as ++ i.operator :: f :: cs) ++ trail =
            x ++ led ' ' as ++ i.pattern ++ joined ' ' (f :: cs) ++ trail := by
          simp [Redirection.pattern, joined]
        have hfind := findAt_pattern_some hx hwsas has (joined ' ' (f :: cs) ++ trail)
        rw [← List.append_assoc, ← List.append_assoc] at hfind
        rw [hshape] at htext
        obtain ⟨st₁, hstep, hfound⟩ :=
          findRedirection_some node htext hfind (getLast_joined hwsbs) htrail
        obtain ⟨trail₁, htrail₁, hunset, hbehind⟩ := hfound.behind
        have htext₁ : textAt st₁.cmd st₁.pos =
            some (i.operator ++ led ' ' (f :: cs) ++ trail₁) := hbehind
        have hfollowed₁ : Followed (f :: cs) := by
          rw [← List.singleton_append, ← List.append_assoc] at hfollowed
          exact hfollowed.append
        obtain ⟨st', hrun, hrest⟩ :=
          ih htext₁ (space_notMem_operator i) hwsbs hfollowed₁ htrail₁
        refine ⟨st', ?_, ?_⟩
        · rw [List.foldlM_cons, hstep]
          exact hrun
        · rw [regions_append has]
          exact Scanned.cons hf hfound hunset hrest
      · obtain ⟨st', hrun, hrest⟩ := ih htext hx hws hfollowed htrail
        refine ⟨st', ?_, ?_⟩
        · rw [List.foldlM_cons,
            findRedirection_none htext (findAt_pattern_none hx hws hi htrail)]
          exact hrun
        · rw [regions_of_notMem hi]
          exact hrest

/-- The words of a text that may end in a blank. -/
theorem splitText_words (hx : IsToken ' ' x) (hws : ∀ w ∈ ws, IsToken ' ' w) (htrail : IsTrail trail) :
    splitText ' ' (x ++ led ' ' ws ++ trail) = x :: ws := by
  induction ws generalizing x with
  | nil =>
      rcases htrail with rfl | rfl
      · simpa using splitText_token hx
      · rw [led_nil, List.append_nil, splitText_token_cons hx, splitText_nil]
  | cons w ws ih =>
      rw [List.forall_mem_cons] at hws
      rw [led_cons, List.append_assoc, List.cons_append, splitText_token_cons hx, ih hws.1 hws.2]

/-- The redirections in the order of `REDIRECTIONS`. -/
abbrev redirections : List Redirection := [.input, .output, .append]

/-- The words and the redirections of a parsed command: `own` are its arguments behind the first, and
`found` the regions of its redirections. -/
structure ParsedCommand (node : Nat) (x : Text) (own : List Text)
    (found : Redirection → Option (List Text)) (r : Redirects) (args : List Nat) (cmd : List Char)
    (r' : Redirects) : Prop where
  args : args.map (textAt cmd) = (x :: own).map some
  unset : ∀ j, found j = none → r'.get j = r.get j
  kept : ∀ j, r.get j ≠ none → r'.get j = r.get j
  region : ∀ j ws, found j = some ws → r.get j = none → ∃ o,
    r'.get j = some ⟨node, o⟩ ∧ textAt cmd o = some (joined ' ' ws)

/-- The argument vector of a parsed command: its words, and `NULL` behind them. -/
theorem ParsedCommand.argv {node : Nat} {x : Text} {own : List Text}
    {found : Redirection → Option (List Text)} {r r' : Redirects} {args : List Nat}
    {cmd : List Char} (h : ParsedCommand node x own found r args cmd r') :
    (args.map some ++ [none]).map (Option.map (textAt cmd)) =
      (x :: own).map (some ∘ some) ++ [none] := by
  rw [List.map_append, List.map_map, ← List.map_map (g := some) (f := some), ← h.args, List.map_map]
  rfl

/-- The NUL in the first operator is behind the arguments and before the file names. -/
theorem cutCommandEnd_spec {own : List Text} {found : Redirection → Option (List Text)}
    {content : List Char} {r : Redirects} (h : Scanned node x trail own found ⟨content, 0, none, r⟩ st) :
    ∃ cmd trail', cutCommandEnd st = some cmd ∧ IsTrail trail' ∧
      textAt cmd 0 = some (x ++ led ' ' own ++ trail') ∧
      ∀ o t, (x ++ led ' ' own).length + 1 < o → textAt st.cmd o = some t → textAt cmd o = some t := by
  obtain ⟨trail', htrail', -, htext⟩ := h.text
  rcases h.commandEnd with ⟨-, hnone⟩ | ⟨hend, hlt⟩
  · refine ⟨st.cmd, trail', ?_, htrail', htext, fun _ _ _ ht => ht⟩
    rw [cutCommandEnd, hnone]
  · refine ⟨st.cmd.set ((x ++ led ' ' own).length + 1) terminator, trail', ?_, htrail', ?_, ?_⟩
    · rw [cutCommandEnd, hend]
      simp only [Option.getD_none, Nat.zero_add] at hlt ⊢
      exact writeAt_eq hlt _
    · rw [textAt_cut htext (Nat.zero_le _), List.take_of_length_le]
      rw [List.length_append]
      rcases htrail' with rfl | rfl <;> simp
    · intro o t ho ht
      rw [textAt_set_before ho, ht]

/-- What `parse_command` makes of the words of a command; more than 199 do not fit into `args`. -/
theorem parseCommand_spec (node : Nat) (hx : IsToken ' ' x) (hws : ∀ w ∈ ws, IsToken ' ' w)
    (hfollowed : Followed ws) (htrail : IsTrail trail)
    (hnul : terminator ∉ x ++ led ' ' ws ++ trail) (r : Redirects) :
    ∃ args cmd r', ParsedCommand node x (regions redirections ws).1 (regions redirections ws).2 r
        args cmd r' ∧
      parseCommand node (x ++ led ' ' ws ++ trail ++ [terminator]) r =
        if (x :: (regions redirections ws).1).length < maxArgs then
          some (⟨commandType x, args.map some ++ [none], args.length⟩, cmd, r')
        else none := by
  have hstart : textAt (Scan.mk (x ++ led ' ' ws ++ trail ++ [terminator]) 0 none r).cmd 0 =
      some (x ++ led ' ' ws ++ trail) := textAt_literal hnul
  obtain ⟨st, hrun, hscan⟩ := scan_spec node hstart hx.2 hws hfollowed htrail
  obtain ⟨cmd₁, trail₁, hcut, htrail₁, htext, hkeep⟩ := cutCommandEnd_spec hscan
  obtain ⟨args, cmd, htokens, hargs, hsame⟩ := tokens_spec ' ' htext
  have hown : ∀ w ∈ (regions redirections ws).1, IsToken ' ' w := fun w hw =>
    hws w ((regions_front redirections ws).subset hw)
  rw [splitText_words hx hown htrail₁] at hargs
  refine ⟨args, cmd, st.redirects, ⟨hargs, hscan.unset, hscan.kept, ?_⟩, ?_⟩
  · intro j region hj hnone
    obtain ⟨o, hget, hlt, hfile⟩ := hscan.region j region hj hnone
    refine ⟨o, hget, hsame.textAt (hkeep o _ (by omega) hfile) (.inr ?_)⟩
    rw [Nat.zero_add, List.length_append]
    rcases htrail₁ with rfl | rfl <;> simp at hlt ⊢ <;> omega
  · have hlen : args.length = (x :: (regions redirections ws).1).length := by
      simpa using congrArg List.length hargs
    obtain ⟨arg0, rest, rfl⟩ : ∃ arg0 rest, args = arg0 :: rest := by
      cases args with
      | nil => cases hlen
      | cons arg0 rest => exact ⟨arg0, rest, rfl⟩
    have hname : textAt cmd arg0 = some x := (List.cons.inj hargs).1
    unfold parseCommand
    rw [hrun, Option.bind_eq_bind, Option.bind_some, hcut, Option.bind_eq_bind, Option.bind_some,
      htokens, Option.bind_eq_bind, Option.bind_some]
    dsimp only
    rw [hlen]
    split_ifs
    · rw [List.head?_cons, Option.bind_some, hname]
      rfl
    · rfl

end loop

end SystemProgrammingLab.Pa2
