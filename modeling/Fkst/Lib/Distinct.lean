import Fkst.Lib.Checks
import Fkst.Lib.Table

/-!
# Tables without clashes

A table that is filled item by item, where a key that comes twice is an error.  If there was no error,
then the table holds what the items gave (`get_fillNew`), and the order of the items does not matter.
A table that is computed from another one, entry by entry, has the same keys (`get_mapEntries`).
-/

set_option autoImplicit false

namespace Lib

namespace Table

variable {K V ε α : Type} [Ord K] [Std.TransOrd K] [Std.LawfulEqOrd K]

/-- Insert an entry whose key must be new. -/
def insertNew (clash : K → V → V → ε) (t : Table K V) (k : K) (v : V) : Except ε (Table K V) :=
  match t[k]? with
  | some previous => .error (clash k previous v)
  | none => .ok (t.insert k v)

omit [Std.LawfulEqOrd K] in
theorem insertNew_eq_ok {clash : K → V → V → ε} {t t' : Table K V} {k : K} {v : V} :
    insertNew clash t k v = .ok t' ↔ t[k]? = none ∧ t' = t.insert k v := by
  rw [insertNew]
  cases t[k]? with
  | some previous => simp
  | none => simp [eq_comm]

/-- Insert what every item gives. -/
def fillNew (clash : K → V → V → ε) (f : α → Except ε (K × V)) (t : Table K V) (l : List α) :
    Except ε (Table K V) :=
  l.foldlM (fun t x => do
    let entry ← f x
    insertNew clash t entry.1 entry.2) t

section Fill

variable [DecidableEq K] {clash : K → V → V → ε} {f : α → Except ε (K × V)}

omit [Std.LawfulEqOrd K] [DecidableEq K] in
theorem fillNew_cons {t t' : Table K V} {x : α} {l : List α} :
    fillNew clash f t (x :: l) = .ok t' ↔ ∃ k v, f x = .ok (k, v) ∧ t[k]? = none ∧
      fillNew clash f (t.insert k v) l = .ok t' := by
  rw [fillNew, List.foldlM_cons, Checks.bind_eq_ok]
  constructor
  · rintro ⟨t₁, hstep, hrest⟩
    obtain ⟨⟨k, v⟩, hentry, hinsert⟩ := Checks.bind_eq_ok.1 hstep
    obtain ⟨hnew, rfl⟩ := insertNew_eq_ok.1 hinsert
    exact ⟨k, v, hentry, hnew, hrest⟩
  · rintro ⟨k, v, hentry, hnew, hrest⟩
    refine ⟨t.insert k v, Checks.bind_eq_ok.2 ⟨(k, v), hentry, ?_⟩, hrest⟩
    exact insertNew_eq_ok.2 ⟨hnew, rfl⟩

/-- **What a table holds that was filled without a clash.** -/
theorem get_fillNew {l : List α} {t t' : Table K V} (h : fillNew clash f t l = .ok t') {k : K} {v : V} :
    t'[k]? = some v ↔ t[k]? = some v ∨ ∃ x ∈ l, f x = .ok (k, v) := by
  induction l generalizing t with
  | nil =>
    obtain rfl := Except.ok.inj h
    simp
  | cons x l ih =>
    obtain ⟨k', v', hentry, hnew, hrest⟩ := fillNew_cons.1 h
    rw [ih hrest, get_insert]
    constructor
    · rintro (hk | ⟨y, hy, hfy⟩)
      · split at hk
        · rename_i heq
          obtain rfl := Option.some.inj hk
          subst heq
          exact Or.inr ⟨x, List.mem_cons_self, hentry⟩
        · exact Or.inl hk
      · exact Or.inr ⟨y, List.mem_cons_of_mem x hy, hfy⟩
    · rintro (hk | ⟨y, hy, hfy⟩)
      · refine Or.inl ?_
        rw [if_neg]
        · exact hk
        · rintro rfl
          rw [hnew] at hk
          cases hk
      · rcases List.mem_cons.1 hy with rfl | hy
        · obtain ⟨rfl, rfl⟩ := Prod.mk.inj (Except.ok.inj (hentry.symm.trans hfy))
          exact Or.inl (if_pos rfl)
        · exact Or.inr ⟨y, hy, hfy⟩

/-- Distinct keys do not clash. -/
theorem exists_fillNew {U : Type} {g : K × U → V} {l : List (K × U)} (hnodup : (l.map Prod.fst).Nodup)
    {t : Table K V} (hnew : ∀ k ∈ l.map Prod.fst, t[k]? = none) :
    ∃ t', fillNew clash (fun entry => .ok (entry.1, g entry)) t l = .ok t' := by
  induction l generalizing t with
  | nil => exact ⟨t, rfl⟩
  | cons entry l ih =>
    rw [List.map_cons, List.nodup_cons] at hnodup
    rw [List.map_cons, List.forall_mem_cons] at hnew
    obtain ⟨t', ht'⟩ := ih hnodup.2 (t := t.insert entry.1 (g entry)) (fun k hk => by
      rw [get_insert, if_neg (ne_of_mem_of_not_mem hk hnodup.1)]
      exact hnew.2 k hk)
    exact ⟨t', fillNew_cons.2 ⟨entry.1, g entry, rfl, hnew.1, ht'⟩⟩

end Fill

/-- Compute a table from another one. -/
def mapEntries {W : Type} (f : K → V → Except ε W) (t : Table K V) : Except ε (Table K W) :=
  t.toList.foldlM (fun t' entry => do
    let w ← f entry.1 entry.2
    return t'.insert entry.1 w) ∅

/-- **What a table holds that was computed from another one.** -/
theorem get_mapEntries {W : Type} [DecidableEq K] {f : K → V → Except ε W} {t : Table K V}
    {t' : Table K W} (h : mapEntries f t = .ok t') {k : K} {w : W} :
    t'[k]? = some w ↔ ∃ v, t[k]? = some v ∧ f k v = .ok w := by
  have hloop : ∀ (l : List (K × V)) (acc result : Table K W), (l.map Prod.fst).Nodup →
      l.foldlM (fun t' entry => do
        let w ← f entry.1 entry.2
        return t'.insert entry.1 w) acc = .ok result →
      (result[k]? = some w ↔
        (∃ v, (k, v) ∈ l ∧ f k v = .ok w) ∨ (k ∉ l.map Prod.fst ∧ acc[k]? = some w)) := by
    intro l
    induction l with
    | nil =>
      intro acc result _ hresult
      obtain rfl := Except.ok.inj hresult
      simp
    | cons entry l ih =>
      intro acc result hnodup hresult
      obtain ⟨k', v'⟩ := entry
      rw [List.map_cons, List.nodup_cons] at hnodup
      rw [List.foldlM_cons, Checks.bind_eq_ok] at hresult
      obtain ⟨acc', hstep, hresult⟩ := hresult
      obtain ⟨w', hw', hacc⟩ := Checks.bind_eq_ok.1 hstep
      obtain rfl := Except.ok.inj hacc
      rw [ih _ result hnodup.2 hresult, get_insert]
      by_cases hk : k = k'
      · subst hk
        have hnone : ¬ ∃ v, (k, v) ∈ l ∧ f k v = .ok w := by
          rintro ⟨v, hv, _⟩
          exact hnodup.1 (List.mem_map.2 ⟨(k, v), hv, rfl⟩)
        have hhead : (∃ v, (k, v) ∈ (k, v') :: l ∧ f k v = .ok w) ↔ w' = w := by
          constructor
          · rintro ⟨v, hv, hfv⟩
            rcases List.mem_cons.1 hv with heq | hv
            · cases heq
              exact Except.ok.inj (hw'.symm.trans hfv)
            · exact absurd ⟨v, hv, hfv⟩ hnone
          · rintro rfl
            exact ⟨v', List.mem_cons_self, hw'⟩
        rw [hhead]
        simp [hnone, hnodup.1]
      · simp [hk]
  rw [hloop _ _ _ (keys_nodup t) h]
  simp [Std.ExtTreeMap.mem_toList_iff_getElem?_eq_some]

omit [Std.LawfulEqOrd K] in
/-- Entries that all give something. -/
theorem foldlM_insert_isOk {W : Type} {f : K → V → Except ε W} {l : List (K × V)} {t : Table K W} :
    (∃ t', l.foldlM (fun t' entry => do
        let w ← f entry.1 entry.2
        return t'.insert entry.1 w) t = .ok t') ↔ ∀ entry ∈ l, ∃ w, f entry.1 entry.2 = .ok w := by
  induction l generalizing t with
  | nil => exact ⟨fun _ _ hmem => absurd hmem List.not_mem_nil, fun _ => ⟨t, rfl⟩⟩
  | cons entry l ih =>
    rw [List.forall_mem_cons]
    constructor
    · rintro ⟨t', h⟩
      rw [List.foldlM_cons] at h
      obtain ⟨t₁, hstep, hrest⟩ := Checks.bind_eq_ok.1 h
      obtain ⟨w, hw, _⟩ := Checks.bind_eq_ok.1 hstep
      exact ⟨⟨w, hw⟩, ih.1 ⟨t', hrest⟩⟩
    · rintro ⟨⟨w, hw⟩, hrest⟩
      obtain ⟨t', ht'⟩ := (ih (t := t.insert entry.1 w)).2 hrest
      refine ⟨t', ?_⟩
      rw [List.foldlM_cons]
      exact Checks.bind_eq_ok.2 ⟨_, Checks.bind_eq_ok.2 ⟨w, hw, rfl⟩, ht'⟩

omit [Std.LawfulEqOrd K] in
/-- A table is computed if all entries give something. -/
theorem mapEntries_isOk {W : Type} {f : K → V → Except ε W} {t : Table K V} :
    (∃ t', mapEntries f t = .ok t') ↔ ∀ entry ∈ t.toList, ∃ w, f entry.1 entry.2 = .ok w :=
  foldlM_insert_isOk

omit [Std.LawfulEqOrd K] in
/-- **A table is not computed** if an entry gives an error, and all those before it do not. -/
theorem mapEntries_eq_error {W : Type} {f : K → V → Except ε W} {t : Table K V} {e : ε} :
    mapEntries f t = .error e ↔ ∃ before k v after, t.toList = before ++ (k, v) :: after ∧
      (∀ entry ∈ before, ∃ w, f entry.1 entry.2 = .ok w) ∧ f k v = .error e := by
  rw [mapEntries, Checks.foldlM_eq_error]
  constructor
  · rintro ⟨before, ⟨k, v⟩, after, t', heq, hbefore, hstep⟩
    rcases Checks.bind_eq_error.1 hstep with hstep | ⟨w, _, hstep⟩
    · exact ⟨before, k, v, after, heq, foldlM_insert_isOk.1 ⟨t', hbefore⟩, hstep⟩
    · cases hstep
  · rintro ⟨before, k, v, after, heq, hbefore, hstep⟩
    obtain ⟨t', ht'⟩ := (foldlM_insert_isOk (t := ∅)).2 hbefore
    exact ⟨before, (k, v), after, t', heq, ht', Checks.bind_eq_error.2 (Or.inl hstep)⟩

/-- Every entry gave something. -/
theorem ok_of_mapEntries {W : Type} {f : K → V → Except ε W} {t : Table K V} {t' : Table K W}
    (h : mapEntries f t = .ok t') {k : K} {v : V} (hk : t[k]? = some v) : ∃ w, f k v = .ok w :=
  mapEntries_isOk.1 ⟨t', h⟩ (k, v) (Std.ExtTreeMap.mem_toList_iff_getElem?_eq_some.2 hk)

/-- The keys of a table that was made of a list. -/
theorem mem_of_get_ofList [DecidableEq K] {l : List (K × V)} {k : K} {v : V}
    (h : (Std.ExtTreeMap.ofList l : Table K V)[k]? = some v) : k ∈ l.map Prod.fst := by
  by_contra hnot
  rw [Std.ExtTreeMap.getElem?_ofList_of_contains_eq_false] at h
  · cases h
  · rwa [← Bool.not_eq_true, List.contains_iff_mem]

/-- A table that was made of a list of distinct keys has the entries of the list. -/
theorem get_ofList [DecidableEq K] {l : List (K × V)} (hnodup : (l.map Prod.fst).Nodup) {k : K} {v : V} :
    (Std.ExtTreeMap.ofList l : Table K V)[k]? = some v ↔ (k, v) ∈ l := by
  have hdistinct : l.Pairwise fun a b => ¬ compare a.1 b.1 = .eq :=
    (List.pairwise_map.1 hnodup).imp fun hne heq => hne (Std.LawfulEqCmp.eq_of_compare heq)
  have hmem : ∀ v, (k, v) ∈ l → (Std.ExtTreeMap.ofList l : Table K V)[k]? = some v := fun v hv =>
    Std.ExtTreeMap.getElem?_ofList_of_mem Std.ReflCmp.compare_self hdistinct hv
  constructor
  · intro h
    obtain ⟨⟨k', v'⟩, hv', rfl⟩ := List.mem_map.1 (mem_of_get_ofList h)
    rwa [← Option.some.inj ((hmem v' hv').symm.trans h)]
  · exact hmem v

/-- Looking through the entries for a key. -/
theorem filter_toList [DecidableEq K] (t : Table K V) (k : K) :
    (t.toList.filter fun entry => entry.1 == k).map Prod.snd = t[k]?.toList := by
  have hmem : ∀ v, (k, v) ∈ t.toList ↔ t[k]? = some v :=
    fun v => Std.ExtTreeMap.mem_toList_iff_getElem?_eq_some
  have hnodup := keys_nodup t
  generalize t.toList = l at hmem hnodup
  generalize t[k]? = o at hmem
  induction l generalizing o with
  | nil =>
    cases o with
    | none => rfl
    | some v => exact absurd ((hmem v).2 rfl) List.not_mem_nil
  | cons entry l ih =>
    obtain ⟨k', v'⟩ := entry
    rw [List.map_cons, List.nodup_cons] at hnodup
    by_cases hk : k' = k
    · subst hk
      obtain rfl : o = some v' := (hmem v').1 List.mem_cons_self
      have hrest : l.filter (fun entry => entry.1 == k') = [] := by
        rw [List.filter_eq_nil_iff]
        intro p hp hpk
        exact hnodup.1 (List.mem_map.2 ⟨p, hp, by simpa using hpk⟩)
      simp [hrest]
    · rw [List.filter_cons_of_neg (by simpa using hk)]
      refine ih hnodup.2 o fun v => ?_
      rw [← hmem v]
      simp [Ne.symm hk]

end Table

end Lib
