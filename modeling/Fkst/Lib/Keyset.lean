import Mathlib.Data.List.Sort

/-!
# Paging by key

A listing in which no key occurs twice can be read page by page: a page is the first few rows that
come after a cursor, and the cursor of the next page names the last row of this one.  Following the
cursors visits the whole listing, each row once and in order, as long as nobody changes it
(`follow_eq`).

Two programs that make the same listing in different ways, one by sorting and the other by walking an
index, are compared by what is in it: a listing is determined by its members (`Listing.ext`).
-/

set_option autoImplicit false

namespace Lib.Keyset

/-! ## Listings -/

section Listing

variable {α κ : Type} [LinearOrder κ] {key : α → κ}

/-- Rows in the order of their keys, no key twice. -/
def Listing (key : α → κ) (l : List α) : Prop := l.Pairwise fun a b => key a < key b

variable {l l' : List α}

theorem Listing.filter (h : Listing key l) (p : α → Bool) : Listing key (l.filter p) :=
  List.Pairwise.filter p h

theorem Listing.nodup (h : Listing key l) : l.Nodup := by
  refine List.Pairwise.imp (fun hlt => ?_) h
  rintro rfl
  exact lt_irrefl _ hlt

/-- **A listing is determined by its members.** -/
theorem Listing.ext (h : Listing key l) (h' : Listing key l') (hmem : ∀ a, a ∈ l ↔ a ∈ l') :
    l = l' := by
  have hperm : l.Perm l' := (List.perm_ext_iff_of_nodup h.nodup h'.nodup).2 hmem
  exact hperm.eq_of_pairwise (fun a b _ _ hab hba => absurd hba (lt_asymm hab)) h h'

section Sorting

variable {le : α → α → Bool}

/-- Sorting rows of different keys makes a listing of them. -/
theorem listing_mergeSort (hle : ∀ a b, le a b = true ↔ key a ≤ key b)
    (hne : l.Pairwise fun a b => key a ≠ key b) : Listing key (l.mergeSort le) := by
  have hsorted : (l.mergeSort le).Pairwise fun a b => le a b = true := by
    refine List.pairwise_mergeSort (fun a b c hab hbc => ?_) (fun a b => ?_) l
    · exact (hle a c).2 (((hle a b).1 hab).trans ((hle b c).1 hbc))
    · rw [Bool.or_eq_true, hle, hle]
      exact le_total _ _
  have hdistinct : (l.mergeSort le).Pairwise fun a b => key a ≠ key b :=
    (List.mergeSort_perm l le).symm.pairwise hne fun hab => hab.symm
  exact hsorted.imp₂ (fun a b hab hkey => lt_of_le_of_ne ((hle a b).1 hab) hkey) hdistinct

/-- Sorting a listing changes nothing. -/
theorem Listing.mergeSort_eq (h : Listing key l) (hle : ∀ a b, le a b = true ↔ key a ≤ key b) :
    l.mergeSort le = l :=
  List.mergeSort_of_pairwise (List.Pairwise.imp (fun hab => (hle _ _).2 hab.le) h)

end Sorting

/-- What comes after a row is what is listed behind it. -/
theorem Listing.filter_after {done rest : List α} {x : α} (h : Listing key (done ++ x :: rest)) :
    (done ++ x :: rest).filter (fun b => key x < key b) = rest := by
  obtain ⟨_, hx, hbefore⟩ := List.pairwise_append.1 h
  have hrest := (List.pairwise_cons.1 hx).1
  rw [List.filter_append, List.filter_cons, if_neg (by simp), List.filter_eq_nil_iff.2 ?_,
    List.filter_eq_self.2 ?_, List.nil_append]
  · intro b hb
    simpa using hrest b hb
  · intro b hb
    have hlt : key b < key x := hbefore b hb x List.mem_cons_self
    simpa using hlt.le

end Listing

/-! ## Trimming at a cursor -/

/-- Drop everything up to the first row that a cursor names, if it names one. -/
def trimAfter {α : Type} (named : α → Bool) (rows : List α) : List α :=
  match rows.findIdx? named with
  | none => rows
  | some cursor => rows.drop (cursor + 1)

section Trim

variable {α β : Type} {named : α → Bool}

theorem trimAfter_map (f : α → β) (named : β → Bool) (rows : List α) :
    trimAfter named (rows.map f) = (trimAfter (named ∘ f) rows).map f := by
  rw [trimAfter, trimAfter, List.findIdx?_map]
  cases rows.findIdx? (named ∘ f) with
  | none => rfl
  | some cursor => exact List.map_drop.symm

theorem mem_of_mem_trimAfter {rows : List α} {a : α} (h : a ∈ trimAfter named rows) : a ∈ rows := by
  rw [trimAfter] at h
  split at h
  · exact h
  · exact List.mem_of_mem_drop h

/-- A cursor that names no row drops nothing. -/
theorem trimAfter_of_not_named {rows : List α} (h : ∀ a ∈ rows, named a = false) :
    trimAfter named rows = rows := by
  rw [trimAfter, List.findIdx?_eq_none_iff.2 h]

/-- A cursor that names a row drops at least that one. -/
theorem length_trimAfter_lt {rows : List α} (h : ∃ a ∈ rows, named a = true) :
    (trimAfter named rows).length < rows.length := by
  cases hfind : rows.findIdx? named with
  | none =>
    obtain ⟨a, ha, hnamed⟩ := h
    rw [List.findIdx?_eq_none_iff.1 hfind a ha] at hnamed
    cases hnamed
  | some cursor =>
    obtain ⟨hlt, _⟩ := List.findIdx?_eq_some_iff_getElem.1 hfind
    rw [trimAfter, hfind, List.length_drop]
    omega

/-- The row that the cursor names is dropped, if no row occurs twice. -/
theorem exists_notMem_trimAfter {rows : List α} (hnodup : rows.Nodup)
    (h : ∃ a ∈ rows, named a = true) : ∃ a ∈ rows, a ∉ trimAfter named rows := by
  cases hfind : rows.findIdx? named with
  | none =>
    obtain ⟨a, ha, hnamed⟩ := h
    rw [List.findIdx?_eq_none_iff] at hfind
    rw [hfind a ha] at hnamed
    cases hnamed
  | some cursor =>
    obtain ⟨hlt, _⟩ := List.findIdx?_eq_some_iff_getElem.1 hfind
    refine ⟨rows[cursor], List.getElem_mem hlt, ?_⟩
    rw [trimAfter, hfind, List.mem_iff_getElem]
    rintro ⟨i, hi, heq⟩
    rw [List.getElem_drop, hnodup.getElem_inj_iff] at heq
    omega

end Trim

/-! ## Following the cursors -/

section Follow

variable {α γ ε : Type}

/-- Read page after page, until there is no next one.  `none` says that the pages did not end. -/
def follow (fetch : Option γ → Except ε (List α × Option γ)) :
    ℕ → Option γ → Except ε (Option (List α))
  | 0, _ => .ok none
  | fuel + 1, after => do
    let (rows, next) ← fetch after
    match next with
    | none => return some rows
    | some cursor =>
      let others ← follow fetch fuel (some cursor)
      return others.map (rows ++ ·)

/-- The cursor of the page behind the first `limit` of some rows: the last of these, if there are
more. -/
def nextCursor (cursor : α → γ) (limit : ℕ) (rows : List α) : Option γ :=
  if rows.length ≤ limit then none else (rows.take limit).getLast?.map cursor

/-- **Following the cursors visits every row once, in order, and ends.**  Behind what has been read,
a page is the first rows of the rest. -/
theorem follow_eq {fetch : Option γ → Except ε (List α × Option γ)} {cursor : α → γ} {limit : ℕ}
    {l : List α} (hlimit : 0 < limit)
    (hfetch : ∀ done rest, l = done ++ rest → fetch (done.getLast?.map cursor) =
      .ok (rest.take limit, nextCursor cursor limit rest)) :
    ∀ (fuel : ℕ) {done rest : List α}, l = done ++ rest → rest.length < fuel →
      follow fetch fuel (done.getLast?.map cursor) = .ok (some rest)
  | 0, _, _, _, hfuel => absurd hfuel (Nat.not_lt_zero _)
  | fuel + 1, done, rest, hl, hfuel => by
    rw [follow, hfetch done rest hl]
    show (match nextCursor cursor limit rest with
      | none => pure (some (rest.take limit))
      | some next => do
        let others ← follow fetch fuel (some next)
        pure (others.map (rest.take limit ++ ·))) = _
    by_cases hmore : rest.length ≤ limit
    · rw [nextCursor, if_pos hmore, List.take_of_length_le hmore]
      rfl
    · have hne : rest.take limit ≠ [] := by
        rw [Ne, List.take_eq_nil_iff, not_or]
        exact ⟨hlimit.ne', fun hnil => hmore (by simp [hnil])⟩
      have hlast : (done ++ rest.take limit).getLast? = some ((rest.take limit).getLast hne) := by
        rw [List.getLast?_append_of_ne_nil _ hne, List.getLast?_eq_some_getLast hne]
      have hsplit : l = (done ++ rest.take limit) ++ rest.drop limit := by
        rw [List.append_assoc, List.take_append_drop]
        exact hl
      have hrest := follow_eq hlimit hfetch fuel hsplit (by rw [List.length_drop]; omega)
      rw [hlast, Option.map_some] at hrest
      rw [nextCursor, if_neg hmore, List.getLast?_eq_some_getLast hne, Option.map_some]
      show (follow fetch fuel _ >>= _) = _
      rw [hrest]
      show Except.ok (some (rest.take limit ++ rest.drop limit)) = _
      rw [List.take_append_drop]

end Follow

end Lib.Keyset
