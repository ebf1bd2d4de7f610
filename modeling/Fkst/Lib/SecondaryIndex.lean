import Mathlib.Order.BooleanAlgebra.Set
import Fkst.Lib.Table

/-!
# Secondary indexes, one owner at a time

A table maps owners to rows.  A secondary index over it is a set of keys, and a key spells out the
owner it belongs to together with the rest of what the index is sorted by.  The intention is always
the same: the row of an owner contributes some keys, and the index holds exactly the contributed
keys.  Programs maintain such an index by hand, with a removal and an insertion next to every write
of a row.

Because a key names its owner, the index falls apart into one small set for each owner,
`KeyFormat.entries`, and everything one wants to know about the index is a statement about these
sets: an insertion or a removal changes the entries of one owner and leaves the others alone, and an
index all of whose keys are well formed is determined by its entries (`KeyFormat.mem_iff`).  A proof
about a program that works on one row at a time then never mentions the other rows.
-/

set_option autoImplicit false

namespace Lib

/-- How an index writes its keys: an owner, and what the key says about it. -/
structure KeyFormat (ι α κ : Type) where
  /-- The key of an owner. -/
  make : ι → α → κ
  /-- A key can be read back. -/
  inj : ∀ {i j a b}, make i a = make j b → i = j ∧ a = b

namespace KeyFormat

variable {ι α κ : Type} [Ord κ] [Std.TransOrd κ] [Std.LawfulEqOrd κ] (f : KeyFormat ι α κ)
  (I : Table κ Unit) {i j : ι} (a : α)

/-- What the index says about an owner. -/
def entries (I : Table κ Unit) (i : ι) : Set α := {a | f.make i a ∈ I}

omit [Std.LawfulEqOrd κ] in
theorem mem_entries {I : Table κ Unit} {i : ι} {a : α} : a ∈ f.entries I i ↔ f.make i a ∈ I :=
  Iff.rfl

omit [Std.LawfulEqOrd κ] in
@[simp] theorem entries_empty (i : ι) : f.entries ∅ i = ∅ := by
  ext a
  simp [mem_entries]

theorem entries_insert_self :
    f.entries (I.insert (f.make i a) ()) i = insert a (f.entries I i) := by
  ext b
  rw [mem_entries, Table.mem_insert_iff, Set.mem_insert_iff, mem_entries]
  constructor
  · rintro (h | h)
    · exact Or.inl (f.inj h).2
    · exact Or.inr h
  · rintro (rfl | h)
    · exact Or.inl rfl
    · exact Or.inr h

theorem entries_insert_of_ne (h : j ≠ i) :
    f.entries (I.insert (f.make i a) ()) j = f.entries I j := by
  ext b
  rw [mem_entries, Table.mem_insert_iff, mem_entries, or_iff_right]
  intro hk
  exact h (f.inj hk).1

theorem entries_erase_self : f.entries (I.erase (f.make i a)) i = f.entries I i \ {a} := by
  ext b
  rw [mem_entries, Table.mem_erase_iff, Set.mem_sdiff, Set.mem_singleton_iff, mem_entries, and_comm]
  refine and_congr_right fun _ => not_congr ?_
  exact ⟨fun hk => (f.inj hk).2, fun hb => by rw [hb]⟩

theorem entries_erase_of_ne (h : j ≠ i) :
    f.entries (I.erase (f.make i a)) j = f.entries I j := by
  ext b
  rw [mem_entries, Table.mem_erase_iff, mem_entries, and_iff_right]
  intro hk
  exact h (f.inj hk).1

/-- Every key of the index was made by the format. -/
def WellFormed (I : Table κ Unit) : Prop := ∀ k, k ∈ I → ∃ i a, k = f.make i a

variable {f I}

omit [Std.LawfulEqOrd κ] in
theorem WellFormed.empty : f.WellFormed ∅ := fun k hk => by simp at hk

theorem WellFormed.insert (h : f.WellFormed I) (i : ι) (a : α) :
    f.WellFormed (I.insert (f.make i a) ()) := by
  intro k hk
  rcases (Table.mem_insert_iff I _ k ()).1 hk with rfl | hk
  · exact ⟨i, a, rfl⟩
  · exact h k hk

theorem WellFormed.erase (h : f.WellFormed I) (k : κ) : f.WellFormed (I.erase k) :=
  fun k' hk => h k' ((Table.mem_erase_iff I k k').1 hk).2

omit [Std.LawfulEqOrd κ] in
/-- **A well-formed index is its entries.** -/
theorem mem_iff (h : f.WellFormed I) {keys : ι → Set α} (hkeys : ∀ i, f.entries I i = keys i)
    (k : κ) : k ∈ I ↔ ∃ i, ∃ a ∈ keys i, k = f.make i a := by
  constructor
  · intro hk
    obtain ⟨i, a, rfl⟩ := h k hk
    exact ⟨i, a, hkeys i ▸ hk, rfl⟩
  · rintro ⟨i, a, ha, rfl⟩
    rw [← hkeys i] at ha
    exact ha

end KeyFormat

/-! ## Indexes that name the owner -/

section Owned

variable {ι κ : Type} [Ord κ] [Std.TransOrd κ] [Std.LawfulEqOrd κ]

/-- The index leads from each key to its owner, and holds the keys of the owners and no others. -/
def OwnedBy (keys : ι → Set κ) (t : Table κ ι) : Prop := ∀ k i, t[k]? = some i ↔ k ∈ keys i

/-- Take out the key of an owner, if it has one. -/
def eraseOwned (t : Table κ ι) : Option κ → Table κ ι
  | none => t
  | some k => t.erase k

/-- Put in the key of an owner, if it has one. -/
def insertOwned (t : Table κ ι) (i : ι) : Option κ → Table κ ι
  | none => t
  | some k => t.insert k i

variable {keys keys' : ι → Set κ} {t : Table κ ι} {i : ι} {o : Option κ}

omit [Std.LawfulEqOrd κ] in
theorem OwnedBy.congr (h : OwnedBy keys t) (heq : ∀ i, keys' i = keys i) : OwnedBy keys' t :=
  fun k i => by rw [h k i, heq i]

/-- One owner loses a key that no other owner has. -/
theorem OwnedBy.erase [DecidableEq κ] (h : OwnedBy keys t) (hother : ∀ j, j ≠ i → keys' j = keys j)
    (hfree : ∀ k j, o = some k → j ≠ i → k ∉ keys j)
    (hself : ∀ k, k ∈ keys' i ↔ k ∈ keys i ∧ o ≠ some k) : OwnedBy keys' (eraseOwned t o) := by
  intro k j
  have hmem : k ∈ keys' j ↔ k ∈ keys j ∧ o ≠ some k := by
    by_cases hj : j = i
    · exact hj ▸ hself k
    · rw [hother j hj]
      exact ⟨fun hk => ⟨hk, fun ho => hfree k j ho hj hk⟩, And.left⟩
  rw [hmem, ← h k j]
  cases o with
  | none => simp [eraseOwned]
  | some k' =>
    rw [eraseOwned, Table.get_erase]
    by_cases hk : k = k'
    · simp [hk]
    · simp [hk, Ne.symm hk]

/-- One owner gains a key that no other owner has. -/
theorem OwnedBy.insert [DecidableEq κ] (h : OwnedBy keys t) (hother : ∀ j, j ≠ i → keys' j = keys j)
    (hfree : ∀ k j, o = some k → j ≠ i → k ∉ keys j)
    (hself : ∀ k, k ∈ keys' i ↔ k ∈ keys i ∨ o = some k) : OwnedBy keys' (insertOwned t i o) := by
  intro k j
  have hmem : k ∈ keys' j ↔ k ∈ keys j ∨ j = i ∧ o = some k := by
    by_cases hj : j = i
    · subst hj
      rw [hself k]
      simp
    · rw [hother j hj]
      simp [hj]
  rw [hmem, ← h k j]
  cases o with
  | none => simp [insertOwned]
  | some k' =>
    rw [insertOwned, Table.get_insert]
    by_cases hk : k = k'
    · subst hk
      have hnot : t[k]? = some j → j = i := fun hget => by
        by_contra hj
        exact hfree k j rfl hj ((h k j).1 hget)
      simp only [if_true, Option.some.injEq, and_true]
      exact ⟨fun hi => .inr hi.symm, fun hor => (hor.elim hnot fun hi => hi).symm⟩
    · simp [hk, Ne.symm hk]

end Owned

end Lib
