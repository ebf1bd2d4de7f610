import Mathlib.Tactic.Common

/-!
# Escaping and chunking

Identifiers that have to live inside a restricted alphabet are written symbol by symbol through a
prefix code, cut into chunks of a bounded size, and joined with a separator.  Injectivity of the
whole is three separate arguments, one for each step:

* `PrefixCode.flatMap_injective` — a code whose words can be read off the front of a text is
  injective on sequences;
* `flatten_chunks` — the chunks of a text concatenate back to it, and only the last of them can be
  short (`length_of_chunks_append`), so that a sequence of such blocks with short markers between
  them can be taken apart again (`Block.two_markers_inj`);
* the separator occurs in no chunk, for which core has `List.splitOn_intercalate`.
-/

set_option autoImplicit false

namespace Lib.Codec

variable {α β : Type}

/-! ## Prefix codes -/

/-- The word of a symbol can be read off the front of a text in one way only. -/
structure PrefixCode (enc : β → List α) : Prop where
  /-- Two texts that start with a word and agree start with the same word. -/
  cancel : ∀ x y s t, enc x ++ s = enc y ++ t → x = y ∧ s = t
  /-- No word is empty. -/
  ne_nil : ∀ x, enc x ≠ []

/-- A code with a decoder for its first word is a prefix code. -/
theorem PrefixCode.of_decode {enc : β → List α} {dec : List α → Option (β × List α)}
    (hdec : ∀ x s, dec (enc x ++ s) = some (x, s)) (hne : ∀ x, enc x ≠ []) : PrefixCode enc where
  cancel x y s t h := by
    have h1 := hdec x s
    rw [h, hdec y t, Option.some_inj, Prod.mk.injEq] at h1
    exact ⟨h1.1.symm, h1.2.symm⟩
  ne_nil := hne

/-- A prefix code is injective on sequences. -/
theorem PrefixCode.flatMap_injective {enc : β → List α} (h : PrefixCode enc) :
    ∀ {l m : List β}, l.flatMap enc = m.flatMap enc → l = m
  | [], [], _ => rfl
  | [], y :: m, he => by
    rw [List.flatMap_nil, List.flatMap_cons, eq_comm, List.append_eq_nil_iff] at he
    exact absurd he.1 (h.ne_nil y)
  | x :: l, [], he => by
    rw [List.flatMap_nil, List.flatMap_cons, List.append_eq_nil_iff] at he
    exact absurd he.1 (h.ne_nil x)
  | x :: l, y :: m, he => by
    rw [List.flatMap_cons, List.flatMap_cons] at he
    obtain ⟨rfl, he'⟩ := h.cancel x y _ _ he
    rw [h.flatMap_injective he']

/-! ## Chunks -/

/-- Cut a text into chunks of `n` symbols, the last one possibly shorter.  The fuel is the length of
the text. -/
def chunksAux (n : ℕ) : ℕ → List α → List (List α)
  | 0, _ => []
  | fuel + 1, l => if l.isEmpty then [] else l.take n :: chunksAux n fuel (l.drop n)

/-- `slice::chunks`. -/
def chunks (n : ℕ) (l : List α) : List (List α) := chunksAux n l.length l

theorem flatten_chunksAux {n : ℕ} (hn : 0 < n) :
    ∀ (fuel : ℕ) (l : List α), l.length ≤ fuel → (chunksAux n fuel l).flatten = l
  | 0, l, h => by
    have : l = [] := List.eq_nil_of_length_eq_zero (by omega)
    rw [this]; rfl
  | fuel + 1, l, h => by
    rw [chunksAux]
    cases l with
    | nil => rfl
    | cons a l =>
      rw [if_neg (by simp), List.flatten_cons, flatten_chunksAux hn fuel _ (by
        rw [List.length_drop, List.length_cons]
        rw [List.length_cons] at h
        omega), List.take_append_drop]

/-- The chunks concatenate back to the text. -/
theorem flatten_chunks {n : ℕ} (hn : 0 < n) (l : List α) : (chunks n l).flatten = l :=
  flatten_chunksAux hn _ l (Nat.le_refl _)

theorem ne_nil_of_mem_chunksAux {n : ℕ} (hn : 0 < n) {c : List α} :
    ∀ {fuel : ℕ} {l : List α}, c ∈ chunksAux n fuel l → c ≠ [] ∧ c.length ≤ n
  | 0, l, h => by simp [chunksAux] at h
  | fuel + 1, [], h => by simp [chunksAux] at h
  | fuel + 1, a :: l, h => by
    rw [chunksAux, if_neg (by simp), List.mem_cons] at h
    rcases h with rfl | h
    · constructor
      · intro hnil
        have := congrArg List.length hnil
        simp at this
        omega
      · rw [List.length_take]
        omega
    · exact ne_nil_of_mem_chunksAux hn h

/-- Every chunk but the last is full. -/
theorem length_of_chunksAux_append {n : ℕ} {c : List α} :
    ∀ {fuel : ℕ} {l : List α} {A B : List (List α)}, chunksAux n fuel l = A ++ c :: B → B ≠ [] →
      c.length = n
  | 0, l, A, B, h, _ => by simp [chunksAux] at h
  | fuel + 1, [], A, B, h, _ => by simp [chunksAux] at h
  | fuel + 1, a :: l, [], B, h, hB => by
    rw [chunksAux, if_neg (by simp), List.nil_append, List.cons.injEq] at h
    obtain ⟨rfl, h⟩ := h
    rw [List.length_take]
    refine Nat.min_eq_left (Nat.le_of_not_lt fun hlt => hB ?_)
    rw [← h, List.drop_eq_nil_of_le (Nat.le_of_lt hlt)]
    cases fuel <;> rfl
  | fuel + 1, a :: l, d :: A, B, h, hB => by
    rw [chunksAux, if_neg (by simp), List.cons_append, List.cons.injEq] at h
    exact length_of_chunksAux_append h.2 hB

theorem ne_nil_of_mem_chunks {n : ℕ} (hn : 0 < n) {l c : List α} (h : c ∈ chunks n l) :
    c ≠ [] ∧ c.length ≤ n :=
  ne_nil_of_mem_chunksAux hn h

/-- The first chunk, and the others. -/
theorem chunks_eq_cons {n : ℕ} (hn : 0 < n) {l : List α} (hl : l ≠ []) :
    ∃ rest, chunks n l = l.take n :: rest ∧ rest.flatten = l.drop n ∧ ∀ c ∈ rest, c ≠ [] := by
  cases l with
  | nil => exact absurd rfl hl
  | cons a l =>
    refine ⟨chunksAux n l.length ((a :: l).drop n), by simp [chunks, chunksAux], ?_,
      fun c hc => (ne_nil_of_mem_chunksAux hn hc).1⟩
    refine flatten_chunksAux hn _ _ ?_
    rw [List.length_drop, List.length_cons]
    omega

theorem length_of_chunks_append {n : ℕ} {l c : List α} {A B : List (List α)}
    (h : chunks n l = A ++ c :: B) (hB : B ≠ []) : c.length = n :=
  length_of_chunksAux_append h hB

theorem chunksAux_eq_map_range {n : ℕ} (hn : 0 < n) (k : ℕ) {fuel : ℕ} {l : List α}
    (h : l.length = n * k) (hfuel : l.length ≤ fuel) :
    chunksAux n fuel l = (List.range k).map fun i => (l.drop (n * i)).take n := by
  induction k generalizing fuel l with
  | zero =>
    obtain rfl := List.eq_nil_of_length_eq_zero h
    cases fuel <;> rfl
  | succ k ih =>
    cases fuel with
    | zero =>
      rw [Nat.mul_succ] at h
      omega
    | succ fuel =>
      have hrest : (l.drop n).length = n * k := by
        rw [List.length_drop, h, Nat.mul_succ, Nat.add_sub_cancel]
      have hne : ¬ l.isEmpty = true := by
        rw [List.isEmpty_iff_length_eq_zero, h, Nat.mul_succ]
        omega
      rw [chunksAux, if_neg hne, ih hrest (by rw [List.length_drop]; omega), List.range_succ_eq_map,
        List.map_cons, List.map_map]
      refine congrArg₂ List.cons rfl (List.map_congr_left fun i _ => ?_)
      show ((l.drop n).drop (n * i)).take n = (l.drop (n * (i + 1))).take n
      rw [List.drop_drop, Nat.mul_succ, Nat.add_comm]

/-- A text of full chunks, chunk by chunk. -/
theorem chunks_eq_map_range {n : ℕ} (hn : 0 < n) {k : ℕ} {l : List α} (h : l.length = n * k) :
    chunks n l = (List.range k).map fun i => (l.drop (n * i)).take n :=
  chunksAux_eq_map_range hn k h (Nat.le_refl _)

theorem chunksAux_map (f : α → β) (n : ℕ) : ∀ (fuel : ℕ) (l : List α),
    chunksAux n fuel (l.map f) = (chunksAux n fuel l).map (List.map f)
  | 0, _ => rfl
  | fuel + 1, l => by
    rw [chunksAux, chunksAux, List.isEmpty_map]
    split
    · rfl
    · rw [List.map_cons, ← List.map_take, ← List.map_drop, chunksAux_map f n fuel]

theorem chunks_map (f : α → β) (n : ℕ) (l : List α) :
    chunks n (l.map f) = (chunks n l).map (List.map f) := by
  rw [chunks, chunks, List.length_map, chunksAux_map]

theorem chunks_ne_nil {n : ℕ} (hn : 0 < n) {l : List α} (hl : l ≠ []) : chunks n l ≠ [] := by
  intro h
  exact hl (by rw [← flatten_chunks hn l, h]; rfl)

/-- Two texts with the same chunks are the same. -/
theorem chunks_injective {n : ℕ} (hn : 0 < n) {l m : List α} (h : chunks n l = chunks n m) :
    l = m := by
  rw [← flatten_chunks hn l, h, flatten_chunks hn m]

/-! ## Blocks and markers -/

/-- A sequence of segments of which all but the last have at least `n` symbols. -/
structure Block (n : ℕ) (B : List (List α)) : Prop where
  ne_nil : B ≠ []
  full : ∀ {A C : List (List α)} {c : List α}, B = A ++ c :: C → C ≠ [] → n ≤ c.length

namespace Block

variable {n : ℕ} {A A' B B' C C' : List (List α)} {m m₁ m₂ : List α}

/-- A block has nothing after a short segment. -/
theorem eq_nil_of_short (h : Block n B) (hm : m.length < n) (hB : B = A ++ m :: C) : C = [] := by
  by_contra hC
  exact absurd (h.full hB hC) (Nat.not_le_of_lt hm)

/-- A block that starts with a short segment consists of it. -/
theorem of_cons_append (h : Block n B) (hm : m.length < n) (heq : B ++ C = m :: C') :
    B = [m] ∧ C = C' := by
  cases B with
  | nil => exact absurd rfl h.ne_nil
  | cons b B =>
    rw [List.cons_append, List.cons.injEq] at heq
    obtain ⟨rfl, rfl⟩ := heq
    have hnil := h.eq_nil_of_short (A := []) hm rfl
    exact ⟨by rw [hnil], by rw [hnil, List.nil_append]⟩

/-- Where a block ends, up to one marker that may belong to the block or stand after it. -/
theorem marker_cases (hA : Block n A) (hA' : Block n A') (hm : m.length < n)
    (h : A ++ m :: B = A' ++ m :: B') :
    (A = A' ∧ B = B') ∨ (A' = A ++ [m] ∧ B = m :: B') ∨ (A = A' ++ [m] ∧ B' = m :: B) := by
  rcases List.append_eq_append_iff.1 h with ⟨X, hX, hB⟩ | ⟨X, hX, hB⟩
  · cases X with
    | nil =>
      rw [List.nil_append, List.cons.injEq] at hB
      exact Or.inl ⟨by rw [hX, List.append_nil], hB.2⟩
    | cons x X =>
      rw [List.cons_append, List.cons.injEq] at hB
      obtain ⟨rfl, rfl⟩ := hB
      obtain rfl := hA'.eq_nil_of_short hm hX
      exact Or.inr (Or.inl ⟨hX, rfl⟩)
  · cases X with
    | nil =>
      rw [List.nil_append, List.cons.injEq] at hB
      exact Or.inl ⟨by rw [hX, List.append_nil], hB.2.symm⟩
    | cons x X =>
      rw [List.cons_append, List.cons.injEq] at hB
      obtain ⟨rfl, rfl⟩ := hB
      obtain rfl := hA.eq_nil_of_short hm hX
      exact Or.inr (Or.inr ⟨hX, rfl⟩)

/-- **Two blocks, each followed by a marker.**  A marker may look like the last segment of the block
before it; but then so does the next one, and in the end what follows the markers differs by one. -/
theorem two_markers_inj (hA : Block n A) (hA' : Block n A') (hB : Block n B) (hB' : Block n B')
    (h₁ : m₁.length < n) (h₂ : m₂.length < n) (hC : C ≠ m₂ :: C') (hC' : C' ≠ m₂ :: C)
    (h : A ++ m₁ :: (B ++ m₂ :: C) = A' ++ m₁ :: (B' ++ m₂ :: C')) : A = A' ∧ B = B' ∧ C = C' := by
  -- one marker too many before the second block runs through to the end
  have hshift : ∀ {X Y Z W : List (List α)}, Block n X → Block n Y →
      X ++ m₂ :: Z = m₁ :: (Y ++ m₂ :: W) → Z = m₂ :: W := by
    intro X Y Z W hX hY heq
    obtain ⟨_, heq⟩ := hX.of_cons_append h₁ heq
    exact (hY.of_cons_append h₂ heq.symm).2.symm
  rcases hA.marker_cases hA' h₁ h with ⟨hsame, hrest⟩ | ⟨_, hrest⟩ | ⟨_, hrest⟩
  · rcases hB.marker_cases hB' h₂ hrest with ⟨hsame', hrest'⟩ | ⟨_, hrest'⟩ | ⟨_, hrest'⟩
    · exact ⟨hsame, hsame', hrest'⟩
    · exact absurd hrest' hC
    · exact absurd hrest' hC'
  · exact absurd (hshift hB hB' hrest) hC
  · exact absurd (hshift hB' hB hrest) hC'

end Block

end Lib.Codec
