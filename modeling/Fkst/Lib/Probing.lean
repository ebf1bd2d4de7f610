import Mathlib.Tactic.Common

/-!
# Open addressing without deletion

A set of keys stored in an array of slots.  Every key `k` has a probe sequence `seq k 0`,
`seq k 1`, …, of which the first `N` entries are tried.  A lookup walks the sequence until it meets
the key (found), an empty slot (absent) or the end; an insertion walks it the same way and takes
the first empty slot.

Nothing is ever deleted, which is what makes the scheme this simple: the only invariant is
`NoGap`, that the slots before a stored key are all taken.  Under it a lookup answers "stored",
whatever other keys share the slots (`find_iff`), an insertion adds its key and nothing else
(`stored_insert`), and the invariant survives (`NoGap.insert`).
-/

set_option autoImplicit false

namespace Lib.Probing

variable {σ κ : Type} [DecidableEq κ]

/-- Walk at most `n` slots of a probe sequence from offset `o`, looking for `k`. -/
def find (T : σ → Option κ) (seq : ℕ → σ) (k : κ) : ℕ → ℕ → Bool
  | 0, _ => false
  | n + 1, o =>
    match T (seq o) with
    | none => false
    | some j => if j = k then true else find T seq k n (o + 1)

/-- What an insertion finds: the key is there already, or a free slot for it. -/
inductive Place (σ : Type) where
  /-- The key is already stored. -/
  | present
  /-- The first free slot of the probe sequence. -/
  | free (slot : σ)

/-- Walk at most `n` slots of a probe sequence from offset `o`, looking for `k` or a free slot.
`none` says that all of them are taken by other keys. -/
def place (T : σ → Option κ) (seq : ℕ → σ) (k : κ) : ℕ → ℕ → Option (Place σ)
  | 0, _ => none
  | n + 1, o =>
    match T (seq o) with
    | none => some (.free (seq o))
    | some j => if j = k then some .present else place T seq k n (o + 1)

/-- `k` is stored in one of the first `N` slots of its own probe sequence. -/
def Stored (T : σ → Option κ) (seq : κ → ℕ → σ) (N : ℕ) (k : κ) : Prop :=
  ∃ o, o < N ∧ T (seq k o) = some k

/-- The slots before a stored key are taken. -/
def NoGap (T : σ → Option κ) (seq : κ → ℕ → σ) (N : ℕ) : Prop :=
  ∀ k o, o < N → T (seq k o) = some k → ∀ o', o' < o → T (seq k o') ≠ none

theorem find_sound {T : σ → Option κ} {seq : ℕ → σ} {k : κ} :
    ∀ (n o : ℕ), find T seq k n o = true → ∃ o', o ≤ o' ∧ o' < o + n ∧ T (seq o') = some k
  | 0, o, h => by simp [find] at h
  | n + 1, o, h => by
    rw [find] at h
    split at h
    · cases h
    · rename_i j hj
      split at h
      · rename_i hjk
        exact ⟨o, Nat.le_refl o, by omega, by rw [hj, hjk]⟩
      · obtain ⟨o', h1, h2, h3⟩ := find_sound n (o + 1) h
        exact ⟨o', by omega, by omega, h3⟩

theorem find_of_taken {T : σ → Option κ} {seq : ℕ → σ} {k : κ} {p : ℕ} (hp : T (seq p) = some k) :
    ∀ (n o : ℕ), o ≤ p → p < o + n → (∀ o', o ≤ o' → o' < p → T (seq o') ≠ none) →
      find T seq k n o = true
  | 0, o, h1, h2, _ => absurd h2 (by omega)
  | n + 1, o, h1, h2, htaken => by
    rw [find]
    rcases Nat.eq_or_lt_of_le h1 with rfl | hlt
    · simp [hp]
    · split
      · rename_i hnone
        exact absurd hnone (htaken o (Nat.le_refl o) hlt)
      · split
        · rfl
        · exact find_of_taken hp n (o + 1) hlt (by omega)
            (fun o' h3 h4 => htaken o' (by omega) h4)

/-- **A lookup answers whether the key is stored.** -/
theorem find_iff {T : σ → Option κ} {seq : κ → ℕ → σ} {N : ℕ} (hgap : NoGap T seq N) (k : κ) :
    find T (seq k) k N 0 = true ↔ Stored T seq N k := by
  constructor
  · intro h
    obtain ⟨o, _, ho, hk⟩ := find_sound N 0 h
    exact ⟨o, by omega, hk⟩
  · rintro ⟨o, ho, hk⟩
    exact find_of_taken hk N 0 (Nat.zero_le o) (by omega) (fun o' _ h => hgap k o ho hk o' h)

theorem stored_of_place_present {T : σ → Option κ} {seq : ℕ → σ} {k : κ} :
    ∀ (n o : ℕ), place T seq k n o = some .present → ∃ o', o' < o + n ∧ T (seq o') = some k
  | 0, o, h => by simp [place] at h
  | n + 1, o, h => by
    rw [place] at h
    split at h
    · simp at h
    · rename_i j hj
      split at h
      · rename_i hjk
        exact ⟨o, by omega, by rw [hj, hjk]⟩
      · obtain ⟨o', h1, h2⟩ := stored_of_place_present n (o + 1) h
        exact ⟨o', by omega, h2⟩

theorem find_of_place_present {T : σ → Option κ} {seq : ℕ → σ} {k : κ} :
    ∀ (n o : ℕ), place T seq k n o = some .present → find T seq k n o = true
  | 0, o, h => by simp [place] at h
  | n + 1, o, h => by
    rw [place] at h
    rw [find]
    split at h
    · simp at h
    · split at h
      · rename_i hjk
        rw [if_pos hjk]
      · rename_i hjk
        rw [if_neg hjk]
        exact find_of_place_present n (o + 1) h

/-- An insertion finds no place only if every slot it tries is taken. -/
theorem taken_of_place_none {T : σ → Option κ} {seq : ℕ → σ} {k : κ} :
    ∀ (n o : ℕ), place T seq k n o = none → ∀ o', o ≤ o' → o' < o + n → T (seq o') ≠ none
  | 0, o, _, o', h1, h2 => absurd h2 (by omega)
  | n + 1, o, h, o', h1, h2 => by
    rw [place] at h
    split at h
    · cases h
    · rename_i j hj
      split at h
      · cases h
      · rcases Nat.eq_or_lt_of_le h1 with rfl | hlt
        · simp [hj]
        · exact taken_of_place_none n (o + 1) h o' hlt (by omega)

/-- Where every slot it tries is taken by another key, an insertion finds no place. -/
theorem place_eq_none {T : σ → Option κ} {seq : ℕ → σ} {k : κ} :
    ∀ (n o : ℕ), (∀ o', o ≤ o' → o' < o + n → ∃ j, j ≠ k ∧ T (seq o') = some j) →
      place T seq k n o = none
  | 0, o, _ => rfl
  | n + 1, o, h => by
    obtain ⟨j, hjk, hj⟩ := h o (Nat.le_refl o) (by omega)
    rw [place, hj]
    simp only [if_neg hjk]
    exact place_eq_none n (o + 1) fun o' h1 h2 => h o' (by omega) (by omega)

/-- What is found stays found as long as nothing is taken out. -/
theorem find_mono {T T' : σ → Option κ} {seq : ℕ → σ} {k : κ} (hT : ∀ t, T t ≠ none → T' t = T t) :
    ∀ (n o : ℕ), find T seq k n o = true → find T' seq k n o = true
  | 0, o, h => by simp [find] at h
  | n + 1, o, h => by
    rw [find] at h ⊢
    split at h
    · cases h
    · rename_i j hj
      rw [hT _ (by simp [hj]), hj]
      split at h
      · rename_i hjk
        simp [hjk]
      · rename_i hjk
        simp only [hjk, if_false]
        exact find_mono hT n (o + 1) h

/-- The free slot an insertion takes: everything before it on the probe sequence is taken, by other
keys. -/
theorem place_free {T : σ → Option κ} {seq : ℕ → σ} {k : κ} {s : σ} :
    ∀ (n o : ℕ), place T seq k n o = some (.free s) →
      ∃ p, o ≤ p ∧ p < o + n ∧ seq p = s ∧ T s = none ∧
        ∀ o', o ≤ o' → o' < p → ∃ j, j ≠ k ∧ T (seq o') = some j
  | 0, o, h => by simp [place] at h
  | n + 1, o, h => by
    rw [place] at h
    split at h
    · rename_i hnone
      rw [Option.some_inj, Place.free.injEq] at h
      exact ⟨o, Nat.le_refl o, by omega, h, h ▸ hnone, fun o' h1 h2 => absurd h2 (by omega)⟩
    · rename_i j hj
      split at h
      · simp at h
      · rename_i hjk
        obtain ⟨p, h1, h2, h3, h4, h5⟩ := place_free n (o + 1) h
        refine ⟨p, by omega, by omega, h3, h4, ?_⟩
        intro o' ho hp
        rcases Nat.eq_or_lt_of_le ho with rfl | hlt
        · exact ⟨j, hjk, hj⟩
        · exact h5 o' hlt hp

section Insert

variable {T T' : σ → Option κ} {seq : κ → ℕ → σ} {N : ℕ} {k : κ} {s : σ}
  [DecidableEq σ]

/-- Inserting into the free slot that `place` found keeps the slots before a stored key taken.
The probe sequence of the inserted key must not come back to a slot, or the new key would also be
stored at a later offset with a gap before it. -/
theorem NoGap.insert (hgap : NoGap T seq N)
    (hinj : ∀ o o', o < N → o' < N → seq k o = seq k o' → o = o')
    (hplace : place T (seq k) k N 0 = some (.free s))
    (hT : ∀ t, T' t = if t = s then some k else T t) : NoGap T' seq N := by
  obtain ⟨p, _, hpN, hps, hnone, htaken⟩ := place_free N 0 hplace
  intro j o ho hj o' ho'
  have keep : ∀ t, T t ≠ none → T' t ≠ none := by
    intro t ht
    rw [hT t]
    split
    · simp
    · exact ht
  by_cases hs : seq j o = s
  · have hjk : k = j := by
      rw [hT, if_pos hs, Option.some_inj] at hj
      exact hj
    subst hjk
    have hop : o = p := hinj o p ho (by omega) (hs.trans hps.symm)
    subst hop
    obtain ⟨i, _, hi⟩ := htaken o' (Nat.zero_le _) ho'
    exact keep _ (by simp [hi])
  · rw [hT, if_neg hs] at hj
    exact keep _ (hgap j o ho hj o' ho')

/-- What was inserted is found, whether or not there are gaps. -/
theorem find_insert (hplace : place T (seq k) k N 0 = some (.free s))
    (hT : ∀ t, T' t = if t = s then some k else T t) : find T' (seq k) k N 0 = true := by
  obtain ⟨p, _, hpN, hps, hnone, htaken⟩ := place_free N 0 hplace
  refine find_of_taken (p := p) (by rw [hT, if_pos hps]) N 0 (Nat.zero_le _) hpN fun o' ho hp => ?_
  obtain ⟨j, _, hj⟩ := htaken o' ho hp
  rw [hT]
  split
  · simp
  · simp [hj]

/-- **An insertion stores its key and changes nothing else.** -/
theorem stored_insert (hplace : place T (seq k) k N 0 = some (.free s))
    (hT : ∀ t, T' t = if t = s then some k else T t) (j : κ) :
    Stored T' seq N j ↔ j = k ∨ Stored T seq N j := by
  obtain ⟨p, _, hpN, hps, hnone, _⟩ := place_free N 0 hplace
  constructor
  · rintro ⟨o, ho, hj⟩
    rw [hT] at hj
    split at hj
    · exact Or.inl (Option.some.inj hj).symm
    · exact Or.inr ⟨o, ho, hj⟩
  · rintro (rfl | ⟨o, ho, hj⟩)
    · exact ⟨p, by omega, by rw [hT, if_pos hps]⟩
    · refine ⟨o, ho, ?_⟩
      rw [hT, if_neg, hj]
      intro hs
      rw [hs, hnone] at hj
      cases hj

end Insert

end Lib.Probing
