import Mathlib.Algebra.GroupWithZero.Nat
import Fkst.Lib.Keyset

/-!
# Eviction

Go through a list from its first item and drop what may be dropped, until what is left fits into a budget.
`mem_evict` says which items go: those from which on, if one counts what may not be dropped before them, there
is too much.
-/

set_option autoImplicit false

namespace Lib

variable {α κ : Type} {size : α → ℕ} {free : α → Bool} {budget : ℕ}

/-- What is dropped from a list that weighs so much in total. -/
def evict (size : α → ℕ) (free : α → Bool) (budget : ℕ) : ℕ → List α → List α
  | _, [] => []
  | total, a :: l =>
    if total ≤ budget then []
    else if free a then a :: evict size free budget (total - size a) l
    else evict size free budget total l

/-- What a list weighs. -/
def weight (size : α → ℕ) (l : List α) : ℕ := (l.map size).sum

theorem weight_cons (a : α) (l : List α) : weight size (a :: l) = size a + weight size l := by
  rw [weight, List.map_cons, List.sum_cons, weight]

theorem evict_sublist : ∀ (total : ℕ) (l : List α), (evict size free budget total l).Sublist l
  | _, [] => List.Sublist.slnil
  | total, a :: l => by
    rw [evict]
    split
    · exact List.nil_sublist _
    · split
      · exact (evict_sublist _ l).cons_cons a
      · exact (evict_sublist _ l).cons a

/-- **What is dropped**: an item that may be dropped, as long as there is too much once those before it that
may be dropped are. -/
theorem mem_evict [LinearOrder κ] {key : α → κ} : ∀ {total : ℕ} {l : List α} {a : α},
    Keyset.Listing key l →
    (a ∈ evict size free budget total l ↔
      a ∈ l ∧ free a = true ∧
        budget < total - weight size (l.filter fun b => free b && decide (key b < key a)))
  | total, [], a, _ => by simp [evict]
  | total, x :: l, a, h => by
    obtain ⟨hx, hl⟩ := List.pairwise_cons.1 h
    have hnotMem : x ∉ l := fun hmem => lt_irrefl _ (hx x hmem)
    -- nothing comes before the first item
    have hfirst : (x :: l).filter (fun b => free b && decide (key b < key x)) = [] := by
      refine List.filter_eq_nil_iff.2 fun b hb => ?_
      rcases List.mem_cons.1 hb with rfl | hb
      · simp
      · simp [(hx b hb).le]
    rw [evict]
    by_cases htotal : total ≤ budget
    · rw [if_pos htotal]
      refine ⟨fun h => (List.not_mem_nil h).elim, fun ⟨_, _, hlt⟩ => ?_⟩
      omega
    rw [if_neg htotal]
    by_cases hfree : free x = true
    · rw [if_pos hfree, List.mem_cons, mem_evict hl]
      by_cases hax : a = x
      · subst hax
        rw [hfirst]
        simp [hfree, weight]
        omega
      · have hcons : a ∈ l → (x :: l).filter (fun b => free b && decide (key b < key a)) =
            x :: l.filter fun b => free b && decide (key b < key a) := fun hmem => by
          rw [List.filter_cons_of_pos]
          simp [hfree, hx a hmem]
        refine ⟨fun h => ?_, fun ⟨hmem, hfreeA, hlt⟩ => Or.inr ?_⟩
        · obtain ⟨hmem, hfreeA, hlt⟩ := h.resolve_left hax
          refine ⟨List.mem_cons_of_mem _ hmem, hfreeA, ?_⟩
          rwa [hcons hmem, weight_cons, ← Nat.sub_sub]
        · have hmem := (List.mem_cons.1 hmem).resolve_left hax
          rw [hcons hmem, weight_cons, ← Nat.sub_sub] at hlt
          exact ⟨hmem, hfreeA, hlt⟩
    · rw [if_neg hfree, mem_evict hl]
      have hskip : (x :: l).filter (fun b => free b && decide (key b < key a)) =
          l.filter fun b => free b && decide (key b < key a) := by
        rw [List.filter_cons_of_neg]
        simp [hfree]
      rw [hskip, List.mem_cons]
      refine ⟨fun ⟨hmem, hrest⟩ => ⟨Or.inr hmem, hrest⟩, fun ⟨hmem, hfreeA, hlt⟩ => ⟨?_, hfreeA, hlt⟩⟩
      refine hmem.resolve_left fun heq => hfree (heq ▸ hfreeA)

/-- What is dropped and what is left. -/
theorem weight_left [DecidableEq α] {dropped l : List α} (h : dropped.Sublist l) : l.Nodup →
    weight size (l.filter (· ∉ dropped)) + weight size dropped = weight size l := by
  induction h with
  | slnil => exact fun _ => rfl
  | @cons dropped l a h ih =>
    intro hnodup
    obtain ⟨hnot, hl⟩ := List.nodup_cons.1 hnodup
    rw [List.filter_cons_of_pos (by simpa using fun hmem => hnot (h.subset hmem)), weight_cons, weight_cons,
      Nat.add_assoc, ih hl]
  | @cons_cons dropped l a h ih =>
    intro hnodup
    obtain ⟨hnot, hl⟩ := List.nodup_cons.1 hnodup
    have hfilter : (a :: l).filter (· ∉ a :: dropped) = l.filter (· ∉ dropped) := by
      rw [List.filter_cons_of_neg (by simp)]
      refine List.filter_congr fun b hb => ?_
      have hne : b ≠ a := fun heq => hnot (heq ▸ hb)
      simp [hne]
    rw [hfilter, weight_cons, weight_cons, ← ih hl]
    omega

/-- What is left fits, or all that may be dropped is dropped. -/
theorem evict_fits : ∀ (total : ℕ) (l : List α),
    total - weight size (evict size free budget total l) ≤ budget ∨
      ∀ a ∈ l, free a = true → a ∈ evict size free budget total l
  | _, [] => Or.inr fun _ h => by cases h
  | total, x :: l => by
    rw [evict]
    by_cases htotal : total ≤ budget
    · rw [if_pos htotal]
      exact Or.inl (Nat.le_trans (Nat.sub_le _ _) htotal)
    rw [if_neg htotal]
    by_cases hfree : free x = true
    · rw [if_pos hfree, weight_cons, ← Nat.sub_sub]
      refine (evict_fits (total - size x) l).imp_right fun h a ha hfreeA => ?_
      rcases List.mem_cons.1 ha with rfl | ha
      · exact List.mem_cons_self
      · exact List.mem_cons_of_mem _ (h a ha hfreeA)
    · rw [if_neg hfree]
      refine (evict_fits total l).imp_right fun h a ha hfreeA => ?_
      rcases List.mem_cons.1 ha with rfl | ha
      · exact absurd hfreeA hfree
      · exact h a ha hfreeA

end Lib
