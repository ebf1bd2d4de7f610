import Mathlib.Data.List.Perm.Subperm
import Mathlib.Tactic.Common

/-!
# Ordered tables

A key-value store of the kind `redb` offers keeps each table sorted by key, and the only questions
a program asks of it are point lookups, point updates and walks over a range of keys in order.
`Table K V` is that: an extensional tree map, so that two tables with the same entries are *equal*
and "the table is unchanged" can be said with `=`.

Std's lemmas about `ExtTreeMap` are phrased through the comparison function.  The handful below
restate the ones a point update needs with plain equality of keys, which is the form every proof
about a table wants, and add `Table.range`, the inclusive range walk.
-/

set_option autoImplicit false

namespace Lib

/-- A table sorted by its keys. -/
abbrev Table (K V : Type) [Ord K] := Std.ExtTreeMap K V

namespace Table

variable {K V : Type} [Ord K] [Std.TransOrd K] [Std.LawfulEqOrd K]

@[simp] theorem get_insert (t : Table K V) (k a : K) (v : V) [Decidable (a = k)] :
    (t.insert k v)[a]? = if a = k then some v else t[a]? := by
  rw [Std.ExtTreeMap.getElem?_insert]
  by_cases h : a = k
  · subst h; simp
  · rw [if_neg h, if_neg]
    intro hc
    exact h (Std.LawfulEqCmp.eq_of_compare hc).symm

@[simp] theorem get_erase (t : Table K V) (k a : K) [Decidable (a = k)] :
    (t.erase k)[a]? = if a = k then none else t[a]? := by
  rw [Std.ExtTreeMap.getElem?_erase]
  by_cases h : a = k
  · subst h; simp
  · rw [if_neg h, if_neg]
    intro hc
    exact h (Std.LawfulEqCmp.eq_of_compare hc).symm

@[simp] theorem mem_insert_iff (t : Table K V) (k a : K) (v : V) :
    a ∈ t.insert k v ↔ a = k ∨ a ∈ t := by
  rw [Std.ExtTreeMap.mem_insert, Std.LawfulEqCmp.compare_eq_iff_eq, eq_comm]

@[simp] theorem mem_erase_iff (t : Table K V) (k a : K) :
    a ∈ t.erase k ↔ a ≠ k ∧ a ∈ t := by
  rw [Std.ExtTreeMap.mem_erase, Ne, Std.LawfulEqCmp.compare_eq_iff_eq, ne_comm]

/-! ## Walking a range of keys -/

/-- The entries with `lo ≤ key ≤ hi`, in key order. -/
def range (t : Table K V) (lo hi : K) : List (K × V) :=
  t.toList.filter fun p => compare lo p.1 != .gt && compare p.1 hi != .gt

theorem mem_range {t : Table K V} {lo hi : K} {p : K × V} :
    p ∈ range t lo hi ↔ t[p.1]? = some p.2 ∧ compare lo p.1 ≠ .gt ∧ compare p.1 hi ≠ .gt := by
  obtain ⟨k, v⟩ := p
  rw [range, List.mem_filter, Std.ExtTreeMap.mem_toList_iff_getElem?_eq_some]
  simp [bne_iff_ne]

/-- A key met on a range walk is a key of the table. -/
theorem mem_of_mem_range {t : Table K V} {lo hi : K} {p : K × V} (h : p ∈ range t lo hi) :
    p.1 ∈ t := by
  rw [← Std.ExtTreeMap.isSome_getElem?_iff_mem, (mem_range.1 h).1]
  rfl

/-- Walking a sorted list, an entry is among the first `n` if fewer than `n` come before it. -/
theorem mem_take_of_few_before {α : Type} {before : α → α → Bool} {a : α} :
    ∀ {l : List α} {n : ℕ}, l.Pairwise (fun b c => before b c = true) → a ∈ l →
      (l.filter (before · a)).length < n → a ∈ l.take n
  | [], _, _, ha, _ => absurd ha (by simp)
  | b :: l, 0, _, _, hn => absurd hn (by omega)
  | b :: l, n + 1, hl, ha, hn => by
    rw [List.pairwise_cons] at hl
    rw [List.take_succ_cons, List.mem_cons]
    rcases List.mem_cons.1 ha with hab | ha
    · exact Or.inl hab
    · refine Or.inr (mem_take_of_few_before hl.2 ha ?_)
      rw [List.filter_cons, if_pos (hl.1 a ha), List.length_cons] at hn
      omega

/-- A walk over the whole table meets no key twice. -/
theorem keys_nodup (t : Table K V) : (t.toList.map Prod.fst).Nodup := by
  rw [List.Nodup, List.pairwise_map]
  refine t.ordered_keys_toList.imp ?_
  intro a b hab he
  rw [he, Std.compare_self] at hab
  cases hab

/-- A range walk meets no key twice. -/
theorem range_keys_nodup (t : Table K V) (lo hi : K) :
    ((range t lo hi).map Prod.fst).Nodup :=
  (keys_nodup t).sublist (List.filter_sublist.map Prod.fst)

/-- Different keys of a table are entries of it. -/
theorem length_le_size {t : Table K V} {ks : List K} (hnodup : ks.Nodup) (hmem : ∀ k ∈ ks, k ∈ t) :
    ks.length ≤ t.size := by
  rw [← Std.ExtTreeMap.length_keys]
  exact (List.subperm_of_subset hnodup fun k hk => Std.ExtTreeMap.mem_keys.2 (hmem k hk)).length_le

/-- Tables with the same keys have the same size. -/
theorem size_eq_of_mem_iff {V' : Type} {t : Table K V} {t' : Table K V'}
    (h : ∀ k, k ∈ t ↔ k ∈ t') : t.size = t'.size := by
  refine Nat.le_antisymm ?_ ?_
  · rw [← Std.ExtTreeMap.length_keys]
    exact length_le_size Std.ExtTreeMap.nodup_keys fun k hk =>
      (h k).1 (Std.ExtTreeMap.mem_keys.1 hk)
  · rw [← Std.ExtTreeMap.length_keys (t := t')]
    exact length_le_size Std.ExtTreeMap.nodup_keys fun k hk =>
      (h k).2 (Std.ExtTreeMap.mem_keys.1 hk)

/-! ## Filling a table

Loops that write one entry after the other. -/

/-- Insert an entry, if there is one. -/
def insertEntry (t : Table K V) : Option (K × V) → Table K V
  | some p => t.insert p.1 p.2
  | none => t

/-- Insert a key, if there is one. -/
def insertKey (t : Table K Unit) : Option K → Table K Unit
  | some k => t.insert k ()
  | none => t

theorem mem_foldl_insertKey {α : Type} (f : α → Option K) {a : K} : ∀ (l : List α) (t : Table K Unit),
    a ∈ l.foldl (fun t x => insertKey t (f x)) t ↔ a ∈ t ∨ ∃ x ∈ l, f x = some a
  | [], t => by simp
  | x :: l, t => by
    rw [List.foldl_cons, mem_foldl_insertKey f l]
    cases hx : f x with
    | none => simp [hx, insertKey]
    | some k =>
      rw [insertKey, mem_insert_iff]
      constructor
      · rintro ((rfl | ht) | ⟨y, hy, hfy⟩)
        · exact Or.inr ⟨x, by simp, hx⟩
        · exact Or.inl ht
        · exact Or.inr ⟨y, by simp [hy], hfy⟩
      · rintro (ht | ⟨y, hy, hfy⟩)
        · exact Or.inl (Or.inr ht)
        · rcases List.mem_cons.1 hy with rfl | hy
          · rw [hx] at hfy
            exact Or.inl (Or.inl (Option.some.inj hfy).symm)
          · exact Or.inr ⟨y, hy, hfy⟩

/-- Entries that agree on their keys are all there in the end. -/
theorem get_foldl_insertEntry [DecidableEq K] {α : Type} (f : α → Option (K × V)) {k : K} {v : V} :
    ∀ (l : List α) (t : Table K V), (∀ x ∈ l, ∀ v', f x = some (k, v') → v' = v) →
    (t[k]? = none ∨ t[k]? = some v) →
    ((l.foldl (fun t x => insertEntry t (f x)) t)[k]? = some v ↔
      t[k]? = some v ∨ ∃ x ∈ l, f x = some (k, v))
  | [], t, _, _ => by simp
  | x :: l, t, hagree, ht => by
    have hrest : ∀ y ∈ l, ∀ v', f y = some (k, v') → v' = v :=
      fun y hy => hagree y (List.mem_cons_of_mem _ hy)
    rw [List.foldl_cons]
    cases hx : f x with
    | none =>
      rw [insertEntry, get_foldl_insertEntry f l t hrest ht]
      simp [hx]
    | some p =>
      obtain ⟨k', v'⟩ := p
      by_cases hk : k = k'
      · subst hk
        obtain rfl := hagree x List.mem_cons_self v' hx
        have hnew : (insertEntry t (some (k, v')))[k]? = some v' := by simp [insertEntry]
        rw [get_foldl_insertEntry f l _ hrest (Or.inr hnew)]
        simp [hx, hnew]
      · have hold : (insertEntry t (some (k', v')))[k]? = t[k]? := by simp [insertEntry, hk]
        rw [get_foldl_insertEntry f l _ hrest (by rwa [hold]), hold]
        have hne : ¬ f x = some (k, v) := by
          rw [hx]
          rintro ⟨⟩
          exact hk rfl
        simp only [List.exists_mem_cons_iff, hne, false_or]

/-- Filling an empty table with entries that agree on their keys. -/
theorem get_fill [DecidableEq K] {l : List (Option (K × V))}
    (hagree : ∀ k v v', some (k, v) ∈ l → some (k, v') ∈ l → v' = v) {k : K} {v : V} :
    (l.foldl insertEntry (∅ : Table K V))[k]? = some v ↔ some (k, v) ∈ l := by
  have hfill : ∀ v, (∀ v', some (k, v') ∈ l → v' = v) →
      ((l.foldl insertEntry (∅ : Table K V))[k]? = some v ↔ some (k, v) ∈ l) := by
    intro v hv
    refine (get_foldl_insertEntry (fun x => x) l ∅ ?_ (Or.inl (by simp))).trans (by simp)
    rintro x hx v' rfl
    exact hv v' hx
  by_cases hk : ∃ v', some (k, v') ∈ l
  · obtain ⟨v', hv'⟩ := hk
    have hget := (hfill v' fun v'' => hagree k v' v'' hv').2 hv'
    rw [hget, Option.some_inj]
    exact ⟨fun h => h ▸ hv', fun h => hagree k v v' h hv'⟩
  · exact hfill v fun v' hv' => absurd ⟨v', hv'⟩ hk

/-- Rewriting every row of a table. -/
theorem get_foldl_rewrite [DecidableEq K] (f : K → V → V) (t : Table K V) (a : K) :
    (t.toList.foldl (fun t' p => t'.insert p.1 (f p.1 p.2)) t)[a]? = (t[a]?).map (f a) := by
  have hloop : ∀ (l : List (K × V)) (t' : Table K V), (l.map Prod.fst).Nodup →
      (l.foldl (fun t' p => t'.insert p.1 (f p.1 p.2)) t')[a]? =
        match l.find? (·.1 = a) with
        | some p => some (f p.1 p.2)
        | none => t'[a]? := by
    intro l
    induction l with
    | nil => exact fun t' _ => rfl
    | cons p l ih =>
      intro t' hnodup
      rw [List.map_cons, List.nodup_cons] at hnodup
      rw [List.foldl_cons, ih _ hnodup.2, List.find?_cons]
      by_cases hp : p.1 = a
      · subst hp
        have hnone : l.find? (·.1 = p.1) = none := by
          rw [List.find?_eq_none]
          intro q hq hqp
          exact hnodup.1 (List.mem_map.2 ⟨q, hq, by simpa using hqp⟩)
        simp [hnone]
      · have hp' : ¬ a = p.1 := fun h => hp h.symm
        simp [hp, hp']
  rw [hloop _ _ (keys_nodup t)]
  cases hfind : t.toList.find? (·.1 = a) with
  | some p =>
    have hmem := List.mem_of_find?_eq_some hfind
    obtain rfl : p.1 = a := by simpa using List.find?_some hfind
    rw [Std.ExtTreeMap.mem_toList_iff_getElem?_eq_some.1 hmem]
    rfl
  | none =>
    cases ha : t[a]? with
    | none => rfl
    | some v =>
      have hmem : (a, v) ∈ t.toList := Std.ExtTreeMap.mem_toList_iff_getElem?_eq_some.2 ha
      have hnot := List.find?_eq_none.1 hfind _ hmem
      simp at hnot

end Table

end Lib
