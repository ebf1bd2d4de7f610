import Mathlib.Data.List.Infix
import Mathlib.Tactic.Common

/-!
# Replacing text

`str::replace`: the occurrences of a pattern, from left to right and none over another, become a
replacement.  What is left of the text are the pieces between them (`exists_pieces`).

A text that was not there comes about only where it meets a replacement (`Meets`).  So a pattern stays away
through any number of replacements that it does not meet (`not_infix_replaceEach`).
-/

set_option autoImplicit false

namespace Lib.Replace

variable {α : Type}

section Definitions

variable [DecidableEq α]

/-- Replace in what follows, after some symbols that belong to an occurrence. -/
def replaceFrom (pattern replacement : List α) : ℕ → List α → List α
  | _, [] => []
  | skip + 1, _ :: text => replaceFrom pattern replacement skip text
  | 0, c :: text =>
    if pattern <+: c :: text then replacement ++ replaceFrom pattern replacement (pattern.length - 1) text
    else c :: replaceFrom pattern replacement 0 text

/-- `str::replace`. -/
def replace (pattern replacement text : List α) : List α := replaceFrom pattern replacement 0 text

/-- Replacements one after the other, those of empty patterns left out. -/
def replaceEach (replacements : List (List α × List α)) (text : List α) : List α :=
  replacements.foldl (fun text r => if r.1 = [] then text else replace r.1 r.2 text) text

end Definitions

/-- **A replacement meets a text**: it overlaps an occurrence of it, or lies in one. -/
def Meets (replacement text : List α) : Prop :=
  ∃ a b x y : List α, a ++ text ++ b = x ++ replacement ++ y ∧ a.length < x.length + replacement.length ∧
    x.length < a.length + text.length

variable {pattern replacement text : List α}

/-- A replacement that has no symbol of a text does not meet it. -/
theorem not_meets_of_disjoint (hne : replacement ≠ []) (htext : text ≠ [])
    (h : List.Disjoint replacement text) : ¬ Meets replacement text := by
  rintro ⟨a, b, x, y, heq, hleft, hright⟩
  have hpos := List.length_pos_iff.2 hne
  have hpos' := List.length_pos_iff.2 htext
  -- a position that is in both
  obtain ⟨i, hi⟩ : ∃ i, i = max a.length x.length := ⟨_, rfl⟩
  have hin : (a ++ text ++ b)[i]? = text[i - a.length]? := by
    rw [List.append_assoc, List.getElem?_append_right (by omega), List.getElem?_append_left (by omega)]
  have hreplacement : (x ++ replacement ++ y)[i]? = replacement[i - x.length]? := by
    rw [List.append_assoc, List.getElem?_append_right (by omega), List.getElem?_append_left (by omega)]
  rw [heq, hreplacement] at hin
  have hlt : i - x.length < replacement.length := by omega
  have hlt' : i - a.length < text.length := by omega
  rw [List.getElem?_eq_getElem hlt, List.getElem?_eq_getElem hlt', Option.some.injEq] at hin
  exact h (List.getElem_mem hlt) (hin ▸ List.getElem_mem hlt')

/-- **An occurrence that a replacement does not meet** lies in one of the pieces. -/
theorem exists_infix_piece (hmeets : ¬ Meets replacement text) :
    ∀ {pieces : List (List α)}, pieces ≠ [] → text <:+: replacement.intercalate pieces →
      ∃ piece ∈ pieces, text <:+: piece
  | [], hne, _ => absurd rfl hne
  | [piece], _, h => ⟨piece, List.mem_singleton_self _, by simpa using h⟩
  | piece :: piece' :: pieces, _, h => by
    obtain ⟨a, b, heq⟩ := h
    rw [List.intercalate_cons_cons] at heq
    by_cases hleft : a.length < piece.length + replacement.length
    · -- the occurrence ends before the replacement
      have hright : a.length + text.length ≤ piece.length := by
        by_contra hover
        exact hmeets ⟨a, b, piece, _, heq, hleft, by omega⟩
      have hprefix : a ++ text <+: piece := by
        refine List.prefix_of_prefix_length_le (List.prefix_append (a ++ text) b) ?_ ?_
        · rw [heq, List.append_assoc]
          exact List.prefix_append _ _
        · rwa [List.length_append]
      exact ⟨piece, List.mem_cons_self, (List.suffix_append a text).isInfix.trans hprefix.isInfix⟩
    · -- the occurrence starts after it
      have hprefix : piece ++ replacement <+: a := by
        refine @List.prefix_of_prefix_length_le _ _ _ (a ++ text ++ b) ?_ ?_ ?_
        · rw [heq]
          exact List.prefix_append _ _
        · rw [List.append_assoc]
          exact List.prefix_append _ _
        · rw [List.length_append]
          omega
      obtain ⟨a', rfl⟩ := hprefix
      have hrest : a' ++ text ++ b = replacement.intercalate (piece' :: pieces) := by
        simpa only [List.append_assoc, List.append_cancel_left_eq] using heq
      obtain ⟨found, hmem, hfound⟩ :=
        exists_infix_piece hmeets (List.cons_ne_nil _ _) ⟨a', b, hrest⟩
      exact ⟨found, List.mem_cons_of_mem _ hmem, hfound⟩

/-- The pieces are in what is made of them. -/
theorem infix_intercalate_of_mem {sep piece : List α} :
    ∀ {pieces : List (List α)}, piece ∈ pieces → piece <:+: sep.intercalate pieces
  | [], h => absurd h List.not_mem_nil
  | [piece'], h => by
    rw [List.mem_singleton.1 h]
    simp
  | piece' :: piece'' :: pieces, h => by
    rw [List.intercalate_cons_cons]
    rcases List.mem_cons.1 h with rfl | h
    · rw [List.append_assoc]
      exact (List.prefix_append _ _).isInfix
    · exact (infix_intercalate_of_mem h).trans (List.suffix_append _ _).isInfix

section Replace

variable [DecidableEq α]

theorem replaceFrom_eq_drop (skip : ℕ) :
    replaceFrom pattern replacement skip text = replace pattern replacement (text.drop skip) := by
  induction skip generalizing text with
  | zero => rfl
  | succ skip ih =>
    cases text with
    | nil => rfl
    | cons c text => exact ih

theorem replace_pattern (hne : pattern ≠ []) :
    replace pattern replacement (pattern ++ text) = replacement ++ replace pattern replacement text := by
  obtain ⟨c, rest, rfl⟩ := List.exists_cons_of_ne_nil hne
  have hprefix : c :: rest <+: c :: (rest ++ text) := List.prefix_append (c :: rest) text
  show replaceFrom _ _ 0 (c :: (rest ++ text)) = _
  rw [replaceFrom, if_pos hprefix, replaceFrom_eq_drop, List.length_cons, Nat.add_sub_cancel, List.drop_left]

theorem replace_cons {c : α} (h : ¬ pattern <+: c :: text) :
    replace pattern replacement (c :: text) = c :: replace pattern replacement text := by
  rw [replace, replaceFrom, if_neg h]
  rfl

variable (replacement) in
/-- **What is replaced**: the text falls into pieces without the pattern. -/
theorem exists_pieces (hne : pattern ≠ []) (text : List α) :
    ∃ pieces : List (List α), pieces ≠ [] ∧ text = pattern.intercalate pieces ∧
      replace pattern replacement text = replacement.intercalate pieces ∧
      ∀ piece ∈ pieces, ¬ pattern <:+: piece := by
  induction hlength : text.length using Nat.strong_induction_on generalizing text with
  | _ n ih =>
    subst hlength
    cases text with
    | nil =>
      refine ⟨[[]], by simp, by simp, by simp [replace, replaceFrom], fun piece hpiece => ?_⟩
      rw [List.mem_singleton.1 hpiece, List.infix_nil]
      exact hne
    | cons c text =>
      by_cases hprefix : pattern <+: c :: text
      · obtain ⟨rest, hrest⟩ := hprefix
        have hshorter : rest.length < (c :: text).length := by
          have hpos := List.length_pos_iff.2 hne
          rw [← hrest, List.length_append]
          omega
        obtain ⟨pieces, hpieces, heq, hreplace, hfree⟩ := ih _ hshorter rest rfl
        obtain ⟨piece, pieces, rfl⟩ := List.exists_cons_of_ne_nil hpieces
        refine ⟨[] :: piece :: pieces, List.cons_ne_nil _ _, ?_, ?_, ?_⟩
        · rw [List.intercalate_cons_cons, ← heq, List.nil_append, hrest]
        · rw [← hrest, replace_pattern hne, hreplace, List.intercalate_cons_cons, List.nil_append]
        · rw [List.forall_mem_cons]
          exact ⟨fun h => hne (List.infix_nil.1 h), hfree⟩
      · obtain ⟨pieces, hpieces, heq, hreplace, hfree⟩ := ih _ (Nat.lt_succ_self _) text rfl
        obtain ⟨piece, pieces, rfl⟩ := List.exists_cons_of_ne_nil hpieces
        have hcons : ∀ sep : List α,
            sep.intercalate ((c :: piece) :: pieces) = c :: sep.intercalate (piece :: pieces) := by
          intro sep
          cases pieces with
          | nil => simp
          | cons piece' pieces => simp
        refine ⟨(c :: piece) :: pieces, List.cons_ne_nil _ _, ?_, ?_, ?_⟩
        · rw [hcons, ← heq]
        · rw [hcons, replace_cons hprefix, hreplace]
        · rw [List.forall_mem_cons] at hfree ⊢
          refine ⟨fun h => ?_, hfree.2⟩
          rcases List.infix_cons_iff.1 h with hstart | hin
          · refine hprefix (hstart.trans ((List.prefix_cons_inj c).2 ?_))
            rw [heq]
            cases pieces with
            | nil => simp
            | cons piece' pieces =>
              rw [List.intercalate_cons_cons, List.append_assoc]
              exact List.prefix_append _ _
          · exact hfree.1 hin

/-- A text that the replacement does not meet was there before. -/
theorem infix_of_infix_replace (hne : pattern ≠ []) {value : List α} (hmeets : ¬ Meets replacement value)
    (h : value <:+: replace pattern replacement text) : value <:+: text := by
  obtain ⟨pieces, hpieces, heq, hreplace, _⟩ := exists_pieces replacement hne text
  rw [hreplace] at h
  obtain ⟨piece, hmem, hpiece⟩ := exists_infix_piece hmeets hpieces h
  refine hpiece.trans ?_
  rw [heq]
  exact infix_intercalate_of_mem hmem

/-- A pattern that its replacement does not meet is gone. -/
theorem not_infix_replace (hne : pattern ≠ []) (hmeets : ¬ Meets replacement pattern) :
    ¬ pattern <:+: replace pattern replacement text := by
  intro h
  obtain ⟨pieces, hpieces, _, hreplace, hfree⟩ := exists_pieces replacement hne text
  rw [hreplace] at h
  obtain ⟨piece, hmem, hpiece⟩ := exists_infix_piece hmeets hpieces h
  exact hfree piece hmem hpiece

/-- **A pattern stays away** if no replacement of it, and none after that, meets it. -/
theorem not_infix_replaceEach {before after : List (List α × List α)} (hne : pattern ≠ [])
    (hmeets : ∀ r ∈ (pattern, replacement) :: after, r.1 ≠ [] → ¬ Meets r.2 pattern) (text : List α) :
    ¬ pattern <:+: replaceEach (before ++ (pattern, replacement) :: after) text := by
  rw [replaceEach, List.foldl_append, List.foldl_cons, if_neg hne]
  rw [List.forall_mem_cons] at hmeets
  generalize before.foldl _ text = text'
  have hgone : ¬ pattern <:+: replace pattern replacement text' := not_infix_replace hne (hmeets.1 hne)
  generalize replace pattern replacement text' = text' at hgone
  induction after generalizing text' with
  | nil => exact hgone
  | cons r after ih =>
    obtain ⟨hr, hafter⟩ := List.forall_mem_cons.1 hmeets.2
    rw [List.foldl_cons]
    refine ih ⟨hmeets.1, hafter⟩ _ ?_
    split
    · exact hgone
    · rename_i hpattern
      exact fun h => hgone (infix_of_infix_replace hpattern (hr hpattern) h)

end Replace

end Lib.Replace
