import Fkst.Delivery.Open
import Mathlib.Data.List.Nodup

/-!
# Migrating an older database

A database of an older engine is migrated when it is opened.  Six passes run one after the other in
one transaction: each of them empties an index and fills it again from the rows, and two of them
rewrite dead rows and suppress ids on the way.

A pass that only fills an index cannot fail, and what it leaves is read off the rows
(`Table.mem_foldl_insert`, `Table.get_foldl_insert`).  A pass that suppresses ids can fail in one
way, which is that all slots of the suppression table are taken.
-/

set_option autoImplicit false

namespace Fkst.Delivery

open Lib

/-! ## Suppressing many ids -/

/-- An id is in one of its slots. -/
def SuppressionStored (table : Table String String) (id : String) : Prop :=
  Probing.Stored (table[·]?) terminalSuppressionProbeKey terminalSuppressionSlots id

theorem SuppressionStored.of_suppressed {table : Table String String} {id : String}
    (h : terminalDeliveryIsSuppressedInTable table id = true) : SuppressionStored table id := by
  obtain ⟨o, _, ho, hid⟩ := Probing.find_sound _ _ h
  exact ⟨o, by omega, hid⟩

/-- At most `n` ids of the set `P` are suppressed on the way from one table to the other. -/
structure SuppressionGrows (P : String → Prop) (n : ℕ) (table table' : Table String String) :
    Prop where
  keeps : ∀ id, terminalDeliveryIsSuppressedInTable table id = true →
    terminalDeliveryIsSuppressedInTable table' id = true
  only : ∀ id, SuppressionStored table' id → SuppressionStored table id ∨ P id
  size : table'.size ≤ table.size + n

namespace SuppressionGrows

variable {P Q : String → Prop} {n m : ℕ} {table table' table'' : Table String String}

theorem refl (P : String → Prop) (n : ℕ) (table : Table String String) :
    SuppressionGrows P n table table where
  keeps _ h := h
  only _ h := Or.inl h
  size := Nat.le_add_right _ _

theorem trans (h : SuppressionGrows P n table table') (h' : SuppressionGrows Q m table' table'') :
    SuppressionGrows (fun id => P id ∨ Q id) (n + m) table table'' where
  keeps id hid := h'.keeps id (h.keeps id hid)
  only id hid := by
    rcases h'.only id hid with hid | hid
    · rcases h.only id hid with hid | hid
      · exact Or.inl hid
      · exact Or.inr (Or.inl hid)
    · exact Or.inr (Or.inr hid)
  size := by
    have h1 := h.size
    have h2 := h'.size
    omega

theorem mono (h : SuppressionGrows P n table table') (hP : ∀ id, P id → Q id) :
    SuppressionGrows Q n table table' where
  keeps := h.keeps
  only id hid := (h.only id hid).imp_right (hP id)
  size := h.size

end SuppressionGrows

/-- The slots of a probe sequence are as many keys. -/
theorem size_of_taken {table : Table String String} (id : String)
    (h : ∀ o < terminalSuppressionSlots, table[terminalSuppressionProbeKey id o]? ≠ none) :
    terminalSuppressionSlots ≤ table.size := by
  let slots := (List.range terminalSuppressionSlots).map (terminalSuppressionProbeKey id)
  have hnodup : slots.Nodup := by
    refine List.Nodup.map_on (fun o ho o' ho' heq => ?_) List.nodup_range
    exact terminalSuppressionProbeKey_inj id o o' (List.mem_range.1 ho) (List.mem_range.1 ho') heq
  have hmem : ∀ slot ∈ slots, slot ∈ table := by
    intro slot hslot
    obtain ⟨o, ho, rfl⟩ := List.mem_map.1 hslot
    rw [← Std.ExtTreeMap.isSome_getElem?_iff_mem, Option.isSome_iff_ne_none]
    exact h o (List.mem_range.1 ho)
  have hlength := Table.length_le_size hnodup hmem
  rwa [List.length_map, List.length_range] at hlength

/-- Suppressing an id succeeds, or there is no free slot in the whole table. -/
theorem suppressTerminalDeliveryInTable_cases (table : Table String String) (id : String) :
    (∃ table', suppressTerminalDeliveryInTable table id = .ok table' ∧
      SuppressionGrows (· = id) 1 table table' ∧
      terminalDeliveryIsSuppressedInTable table' id = true) ∨
    (suppressTerminalDeliveryInTable table id = .error (.suppressionExhausted id) ∧
      terminalSuppressionSlots ≤ table.size) := by
  simp only [suppressTerminalDeliveryInTable]
  split
  · rename_i hplace
    exact Or.inl ⟨table, rfl, .refl _ _ _, Probing.find_of_place_present _ _ hplace⟩
  · rename_i slot hplace
    have hT : ∀ t, (table.insert slot id)[t]? = if t = slot then some id else table[t]? :=
      fun t => Table.get_insert table slot t id
    obtain ⟨_, _, _, _, hnone, _⟩ := Probing.place_free _ _ hplace
    have hkeep : ∀ t : String, table[t]? ≠ none → (table.insert slot id)[t]? = table[t]? := by
      intro t ht
      rw [hT, if_neg]
      rintro rfl
      exact ht hnone
    refine Or.inl ⟨_, rfl, ⟨fun j hj => Probing.find_mono hkeep _ _ hj, fun j hj => ?_, ?_⟩,
      Probing.find_insert hplace hT⟩
    · exact ((Probing.stored_insert hplace hT j).1 hj).symm
    · exact Std.ExtTreeMap.size_insert_le
  · rename_i hplace
    refine Or.inr ⟨rfl, size_of_taken id fun o ho => ?_⟩
    exact Probing.taken_of_place_none _ _ hplace o (Nat.zero_le _) (by omega)

/-! ## Lineage keys -/

theorem hexBytes_injective : ∀ {bs bs' : List UInt8},
    (bs.flatMap fun b => Text.digits Nat.digitChar 16 2 b.toNat) =
      (bs'.flatMap fun b => Text.digits Nat.digitChar 16 2 b.toNat) → bs = bs'
  | [], [], _ => rfl
  | [], b :: bs, h => by simp [Text.digits] at h
  | b :: bs, [], h => by simp [Text.digits] at h
  | b :: bs, b' :: bs', h => by
    rw [List.flatMap_cons, List.flatMap_cons] at h
    obtain ⟨hb, hbs⟩ := List.append_inj h (by simp)
    have hb := Text.digits_injOn (by decide) Text.digitChar_inj_sixteen b.toNat_lt b'.toNat_lt hb
    rw [UInt8.toNat_inj.1 hb, hexBytes_injective hbs]

theorem encodeOrderedLineageId_injective {id id' : String}
    (h : encodeOrderedLineageId id = encodeOrderedLineageId id') : id = id' := by
  have h := congrArg String.toList h
  simp only [encodeOrderedLineageId, String.toList_ofList] at h
  exact strBytes_injective (hexBytes_injective h)

theorem sep_notMem_encodeOrderedLineageId (id : String) :
    '/' ∉ (encodeOrderedLineageId id).toList := by
  rw [encodeOrderedLineageId, String.toList_ofList, List.mem_flatMap]
  rintro ⟨b, _, hb⟩
  obtain ⟨i, hi, hslash⟩ := Text.mem_digits (by decide) hb
  revert i
  decide

/-- A lineage key determines the id it was made for. -/
theorem lineageIndexKey_inj {env : Env} {queue dept queue' dept' kind kind' id id' : String}
    {source source' : SourceRef} {ms ms' : UInt64}
    (h : lineageIndexKey env queue dept source kind ms id =
      lineageIndexKey env queue' dept' source' kind' ms' id') : id = id' := by
  have hend : ∀ (front : String) (id : String), ((front ++ "/id/" ++ encodeOrderedLineageId id).toList).reverse =
      (encodeOrderedLineageId id).toList.reverse ++ '/' :: (front ++ "/id").toList.reverse := by
    intro front id
    simp
  have h := congrArg (fun key => key.toList.reverse) h
  simp only [lineageIndexKey, hend] at h
  obtain ⟨hid, _⟩ := Text.append_sep_inj
    (by simpa using sep_notMem_encodeOrderedLineageId id)
    (by simpa using sep_notMem_encodeOrderedLineageId id') h
  exact encodeOrderedLineageId_injective (String.toList_inj.1 (List.reverse_injective hid))

namespace Store

/-- `suppress_terminal_delivery` works on one table. -/
theorem suppressTerminalDelivery_cases (s : Store) (id : String) :
    (∃ table, s.suppressTerminalDelivery id = .ok { s with terminalSuppressionBySlot := table } ∧
      SuppressionGrows (· = id) 1 s.terminalSuppressionBySlot table ∧
      terminalDeliveryIsSuppressedInTable table id = true) ∨
    (s.suppressTerminalDelivery id = .error (.suppressionExhausted id) ∧
      terminalSuppressionSlots ≤ s.terminalSuppressionBySlot.size) := by
  rcases suppressTerminalDeliveryInTable_cases s.terminalSuppressionBySlot id with
    ⟨table, hok, hgrows, hid⟩ | ⟨herror, hfull⟩
  · exact Or.inl ⟨table, by simp [suppressTerminalDelivery, hok, bind, Except.bind, pure, Except.pure],
      hgrows, hid⟩
  · exact Or.inr ⟨by simp [suppressTerminalDelivery, herror, bind, Except.bind], hfull⟩

/-! ## The passes that fill an index -/

/-- The key a live row has in the ready index. -/
def readyKey (r : DeliveryRecord) : Option String :=
  match r.leaseUntilMs with
  | some _ => none
  | none => some (makeIndexKey r.dept r.notBeforeMs r.deliveryId)

/-- The key a live row has in the leased index. -/
def leasedKey (r : DeliveryRecord) : Option String :=
  r.leaseUntilMs.map fun leaseUntil => makeIndexKey r.dept leaseUntil r.deliveryId

/-- The key a dead row has in the redrive index. -/
def deadDueKey (id : String) (d : DeadRecord) : Option String :=
  if shouldIndexDeadRecord d then some (makeDeadDueIndexKey d.dept d.deadAtMs id) else none

/-- The lineage entry of a live row. -/
def liveLineage (env : Env) (r : DeliveryRecord) : Option (String × String) :=
  r.source.map fun source => (deliveryLineageKey env r source, r.deliveryId)

/-- The lineage entry of a dead row. -/
def deadLineage (env : Env) (d : DeadRecord) : Option (String × String) :=
  if isTerminalTombstone d then d.source.map fun source => (deadLineageKey env d source, d.deliveryId)
  else none

/-- What `rebuild_due_indexes` does with a row. -/
def indexDue (s : Store) (p : String × DeliveryRecord) : Store :=
  match p.2.leaseUntilMs with
  | some leaseUntil => s.insertLeased (makeIndexKey p.2.dept leaseUntil p.2.deliveryId)
  | none => s.insertReady (makeIndexKey p.2.dept p.2.notBeforeMs p.2.deliveryId)

theorem rebuildDueIndexes_eq (s : Store) :
    s.rebuildDueIndexes =
      { s with
        readyByDeptDue :=
          s.deliveryById.toList.foldl (fun t p => Table.insertKey t (readyKey p.2)) ∅
        leasedByDeptUntil :=
          s.deliveryById.toList.foldl (fun t p => Table.insertKey t (leasedKey p.2)) ∅ } := by
  have hloop : ∀ (l : List (String × DeliveryRecord)) (s : Store),
      l.foldl indexDue s =
      { s with
        readyByDeptDue := l.foldl (fun t p => Table.insertKey t (readyKey p.2)) s.readyByDeptDue
        leasedByDeptUntil :=
          l.foldl (fun t p => Table.insertKey t (leasedKey p.2)) s.leasedByDeptUntil } := by
    intro l
    induction l with
    | nil => exact fun s => rfl
    | cons p l ih =>
      intro s
      rw [List.foldl_cons, ih]
      cases hlease : p.2.leaseUntilMs <;>
        simp [indexDue, readyKey, leasedKey, hlease, Table.insertKey, insertLeased, insertReady]
  exact hloop _ _

/-- A dead row that `mark_existing_dead_records_permanent` has been over. -/
def markedPermanent (d : DeadRecord) : DeadRecord :=
  { d with permanent := true, replayable := false, record := none }

theorem markExistingDeadRecordsPermanent_eq (s : Store) :
    s.markExistingDeadRecordsPermanent =
      { s with
        deadById := s.deadById.toList.foldl (fun t p => t.insert p.1 (markedPermanent p.2))
          s.deadById } := by
  refine @List.foldl_hom _ _ _ (fun t => { s with deadById := t }) _ _ _ s.deadById fun t p => ?_
  rfl

theorem rebuildDeadDueIndex_eq (s : Store) :
    s.rebuildDeadDueIndex =
      { s with
        deadByDeptDue :=
          s.deadById.toList.foldl (fun t p => Table.insertKey t (deadDueKey p.1 p.2)) ∅ } := by
  refine @List.foldl_hom _ _ _ (fun t => { s with deadByDeptDue := t }) _ _ _ ∅ fun t p => ?_
  dsimp only
  split <;> simp [deadDueKey, Table.insertKey, insertDeadDue, *]

theorem rebuildDeadTimeIndex_eq (s : Store) :
    s.rebuildDeadTimeIndex =
      { s with
        deadByTime := s.deadById.toList.foldl
          (fun t p => Table.insertKey t (some (makeDeadTimeIndexKey p.2.deadAtMs p.1))) ∅ } := by
  refine @List.foldl_hom _ _ _ (fun t => { s with deadByTime := t }) _ _ _ ∅ fun t p => ?_
  rfl

theorem insertDeliveryLineageIndex_eq (env : Env) (s : Store) (r : DeliveryRecord) :
    s.insertDeliveryLineageIndex env r =
      { s with lineageBySource := Table.insertEntry s.lineageBySource (liveLineage env r) } := by
  cases hsource : r.source <;>
    simp [insertDeliveryLineageIndex, liveLineage, hsource, Table.insertEntry]

theorem insertDeadLineageIndex_eq (env : Env) (s : Store) (d : DeadRecord) :
    s.insertDeadLineageIndex env d =
      { s with lineageBySource := Table.insertEntry s.lineageBySource (deadLineage env d) } := by
  cases htomb : isTerminalTombstone d <;> cases hsource : d.source <;>
    simp [insertDeadLineageIndex, deadLineage, htomb, hsource, Table.insertEntry]

theorem rebuildLineageIndex_eq (env : Env) (s : Store) :
    s.rebuildLineageIndex env =
      { s with
        lineageBySource :=
          (s.deliveryById.toList.map (fun p => liveLineage env p.2) ++
            s.deadById.toList.map (fun p => deadLineage env p.2)).foldl Table.insertEntry ∅ } := by
  rw [rebuildLineageIndex, List.foldl_append, List.foldl_map, List.foldl_map]
  have hlive : s.deliveryById.toList.foldl
      (fun s p => s.insertDeliveryLineageIndex env p.2) { s with lineageBySource := ∅ } =
      { s with
        lineageBySource := s.deliveryById.toList.foldl
          (fun t p => Table.insertEntry t (liveLineage env p.2)) ∅ } :=
    @List.foldl_hom _ _ _ (fun t => { s with lineageBySource := t }) _ _ _ ∅
      fun t p => insertDeliveryLineageIndex_eq env { s with lineageBySource := t } p.2
  refine (congrArg (fun s : Store => List.foldl _ s s.deadById.toList) hlive).trans ?_
  refine @List.foldl_hom _ _ _ (fun t => { s with lineageBySource := t }) _ _ _ _ fun t p => ?_
  exact insertDeadLineageIndex_eq env { s with lineageBySource := t } p.2

/-! ## The passes that suppress -/

/-- A keyed delivery is live under the id. -/
def LiveKeyed (s : Store) (id : String) : Prop :=
  ∃ r, s.deliveryById[id]? = some r ∧ r.collapseByDedupId = true

/-- What `rebuild_terminal_dead_tables` makes of the dead rows `l`. -/
structure TerminalRebuilt (l : List (String × DeadRecord)) (s s' : Store) : Prop where
  frame : ∃ terminal dead suppression,
    s' = { s with
      terminalDeadByTime := terminal
      deadById := dead
      terminalSuppressionBySlot := suppression }
  terminal : ∀ key, key ∈ s'.terminalDeadByTime ↔ key ∈ s.terminalDeadByTime ∨
    ∃ p ∈ l, isTerminalDeadRecord p.2 = true ∧ makeDeadDueIndexKey p.2.dept p.2.deadAtMs p.1 = key
  others : ∀ id, id ∉ l.map Prod.fst → s'.deadById[id]? = s.deadById[id]?
  rows : ∀ p ∈ l, ∃ reuse, s'.deadById[p.1]? = some { p.2 with allowsKeyedReuse := reuse } ∧
    (p.2.allowsKeyedReuse = true → reuse = true) ∧
    (isTerminalDeadRecord p.2 = true → reuse = false →
      s'.terminalDeliveryIsSuppressed p.1 = true)
  grows : SuppressionGrows (fun id => ¬ s.LiveKeyed id) l.length s.terminalSuppressionBySlot
    s'.terminalSuppressionBySlot

namespace TerminalRebuilt

variable {l : List (String × DeadRecord)} {p : String × DeadRecord} {s s₁ s' : Store}

theorem nil (s : Store) : TerminalRebuilt [] s s where
  frame := ⟨_, _, _, rfl⟩
  terminal := by simp
  others _ _ := rfl
  rows := by simp
  grows := .refl _ _ _

theorem deliveryById_eq (h : TerminalRebuilt l s s') : s'.deliveryById = s.deliveryById := by
  obtain ⟨_, _, _, rfl⟩ := h.frame
  rfl

theorem cons (hp : p.1 ∉ l.map Prod.fst) (h : TerminalRebuilt [p] s s₁)
    (h' : TerminalRebuilt l s₁ s') : TerminalRebuilt (p :: l) s s' where
  frame := by
    obtain ⟨_, _, _, rfl⟩ := h.frame
    obtain ⟨_, _, _, rfl⟩ := h'.frame
    exact ⟨_, _, _, rfl⟩
  terminal key := by
    rw [h'.terminal, h.terminal]
    simp [or_assoc]
  others id hid := by
    rw [List.map_cons, List.mem_cons, not_or] at hid
    rw [h'.others id hid.2, h.others id (by simpa using hid.1)]
  rows q hq := by
    rcases List.mem_cons.1 hq with rfl | hq
    · obtain ⟨reuse, hrow, hkept, hsuppressed⟩ := h.rows q (by simp)
      refine ⟨reuse, by rw [h'.others _ hp, hrow], hkept, fun hterminal hreuse => ?_⟩
      exact h'.grows.keeps _ (hsuppressed hterminal hreuse)
    · exact h'.rows q hq
  grows := by
    have hlive : ∀ id, ¬ s₁.LiveKeyed id ↔ ¬ s.LiveKeyed id := by
      intro id
      rw [LiveKeyed, LiveKeyed, h.deliveryById_eq]
    have hgrows := (h.grows.trans h'.grows).mono (Q := fun id => ¬ s.LiveKeyed id) fun id hid =>
      hid.elim (fun hid => hid) (hlive id).1
    rwa [List.length_singleton, Nat.add_comm] at hgrows

end TerminalRebuilt

section Row

variable {s : Store} {id : String} {d : DeadRecord}

theorem TerminalRebuilt.unchanged (hd : s.deadById[id]? = some d)
    (hterminal : isTerminalDeadRecord d = false) : TerminalRebuilt [(id, d)] s s where
  frame := ⟨_, _, _, rfl⟩
  terminal := by simp [hterminal]
  others _ _ := rfl
  rows := by
    simp only [List.mem_singleton, forall_eq, hterminal]
    exact ⟨d.allowsKeyedReuse, hd, fun h => h, fun h => absurd h (by simp)⟩
  grows := .refl _ _ _

/-- A terminal row gets its key; it may be marked reusable, or its id suppressed. -/
theorem TerminalRebuilt.marked (hterminal : isTerminalDeadRecord d = true) (reuse : Bool)
    (hreuse : d.allowsKeyedReuse = true → reuse = true) {dead : Table String DeadRecord}
    (hrow : dead[id]? = some { d with allowsKeyedReuse := reuse })
    (hothers : ∀ j, j ≠ id → dead[j]? = s.deadById[j]?) {suppression : Table String String}
    (hgrows : SuppressionGrows (fun id => ¬ s.LiveKeyed id) 1 s.terminalSuppressionBySlot
      suppression)
    (hsuppressed : reuse = false → terminalDeliveryIsSuppressedInTable suppression id = true) :
    TerminalRebuilt [(id, d)] s
      { s with
        terminalDeadByTime :=
          s.terminalDeadByTime.insert (makeDeadDueIndexKey d.dept d.deadAtMs id) ()
        deadById := dead
        terminalSuppressionBySlot := suppression } where
  frame := ⟨_, _, _, rfl⟩
  terminal key := by
    rw [Table.mem_insert_iff]
    simp only [List.mem_singleton, exists_eq_left, hterminal, true_and]
    rw [or_comm, eq_comm]
  others j hj := hothers j (by simpa using hj)
  rows := by
    simp only [List.mem_singleton, forall_eq]
    exact ⟨reuse, hrow, hreuse, fun _ => hsuppressed⟩
  grows := hgrows

/-- One row of `rebuild_terminal_dead_tables`. -/
theorem rebuildTerminalDeadRow_cases (version : Option ℕ) (hd : s.deadById[id]? = some d) :
    (∃ s', rebuildTerminalDeadRow version s id d = .ok s' ∧ TerminalRebuilt [(id, d)] s s') ∨
    (∃ id', rebuildTerminalDeadRow version s id d = .error (.suppressionExhausted id')) ∧
      terminalSuppressionSlots ≤ s.terminalSuppressionBySlot.size := by
  unfold rebuildTerminalDeadRow
  by_cases hterminal : isTerminalDeadRecord d = true
  · rw [if_pos hterminal]
    dsimp only
    split
    · -- reusable from now on
      refine Or.inl ⟨_, rfl, TerminalRebuilt.marked hterminal true (fun _ => rfl) ?_ ?_ (.refl _ _ _)
        (fun h => absurd h (by simp))⟩
      · simp [insertTerminal]
      · intro j hj
        simp [insertTerminal, hj]
    · rename_i hkeep
      by_cases hreuse : d.allowsKeyedReuse = true
      · -- reusable already
        rw [if_neg (by simp [hreuse])]
        refine Or.inl ⟨_, rfl, TerminalRebuilt.marked hterminal true (fun _ => rfl) ?_
          (fun _ _ => rfl) (.refl _ _ _) (fun h => absurd h (by simp))⟩
        rw [← hreuse]
        exact hd
      · rw [if_pos (by simp [hreuse])]
        have hlive : ¬ s.LiveKeyed id := by
          rintro ⟨r, hr, hkeyed⟩
          simp [insertTerminal, hr, hkeyed, hreuse] at hkeep
        rcases suppressTerminalDelivery_cases
            (s.insertTerminal (makeDeadDueIndexKey d.dept d.deadAtMs id)) id with
          ⟨table, hok, hgrows, hid⟩ | ⟨herror, hfull⟩
        · refine Or.inl ⟨_, hok, TerminalRebuilt.marked hterminal false (fun h => absurd h hreuse) ?_
            (fun _ _ => rfl) (hgrows.mono ?_) (fun _ => hid)⟩
          · rw [← Bool.eq_false_iff.2 hreuse]
            exact hd
          · rintro _ rfl
            exact hlive
        · exact Or.inr ⟨⟨id, herror⟩, hfull⟩
  · rw [if_neg hterminal]
    exact Or.inl ⟨s, rfl, .unchanged hd (Bool.eq_false_iff.2 hterminal)⟩

end Row

/-- The loop of `rebuild_terminal_dead_tables`. -/
theorem rebuildTerminalDeadRows_cases (version : Option ℕ) :
    ∀ (l : List (String × DeadRecord)) (s : Store), (l.map Prod.fst).Nodup →
      (∀ p ∈ l, s.deadById[p.1]? = some p.2) →
      (∃ s', l.foldlM (fun s (id, dead) => rebuildTerminalDeadRow version s id dead) s = .ok s' ∧
        TerminalRebuilt l s s') ∨
      (∃ id', l.foldlM (fun s (id, dead) => rebuildTerminalDeadRow version s id dead) s =
        .error (.suppressionExhausted id')) ∧
        terminalSuppressionSlots < s.terminalSuppressionBySlot.size + l.length
  | [], s, _, _ => Or.inl ⟨s, rfl, .nil s⟩
  | p :: l, s, hnodup, hrows => by
    rw [List.map_cons, List.nodup_cons] at hnodup
    rw [List.foldlM_cons]
    rcases rebuildTerminalDeadRow_cases version (hrows p List.mem_cons_self) with
      ⟨s₁, hok, hp⟩ | ⟨⟨id', herror⟩, hfull⟩
    · have hrows₁ : ∀ q ∈ l, s₁.deadById[q.1]? = some q.2 := by
        intro q hq
        have hne : q.1 ≠ p.1 := by
          rintro heq
          exact hnodup.1 (heq ▸ List.mem_map_of_mem hq)
        rw [hp.others q.1 (by simpa using hne)]
        exact hrows q (List.mem_cons_of_mem _ hq)
      have hsize := hp.grows.size
      simp only [hok, bind, Except.bind]
      rcases rebuildTerminalDeadRows_cases version l s₁ hnodup.2 hrows₁ with
        ⟨s', hok', hl⟩ | ⟨herror, hfull⟩
      · exact Or.inl ⟨s', hok', .cons hnodup.1 hp hl⟩
      · refine Or.inr ⟨herror, ?_⟩
        simp only [List.length_cons, List.length_nil] at hsize ⊢
        omega
    · refine Or.inr ⟨⟨id', by simp [herror, bind, Except.bind]⟩, ?_⟩
      rw [List.length_cons]
      omega

/-- What `import_legacy_terminal_suppressed_ids` makes of the ids `l`. -/
theorem suppressAll_cases : ∀ (l : List String) (s : Store),
    (∃ table, l.foldlM suppressTerminalDelivery s =
        .ok { s with terminalSuppressionBySlot := table } ∧
      SuppressionGrows (· ∈ l) l.length s.terminalSuppressionBySlot table ∧
      ∀ id ∈ l, terminalDeliveryIsSuppressedInTable table id = true) ∨
    (∃ id', l.foldlM suppressTerminalDelivery s = .error (.suppressionExhausted id')) ∧
      terminalSuppressionSlots < s.terminalSuppressionBySlot.size + l.length
  | [], s => Or.inl ⟨_, rfl, .refl _ _ _, by simp⟩
  | id :: l, s => by
    rw [List.foldlM_cons]
    rcases suppressTerminalDelivery_cases s id with ⟨table, hok, hgrows, hid⟩ | ⟨herror, hfull⟩
    · simp only [hok, bind, Except.bind]
      rcases suppressAll_cases l { s with terminalSuppressionBySlot := table } with
        ⟨table', hok', hgrows', hl⟩ | ⟨herror, hfull⟩
      · refine Or.inl ⟨table', hok', ?_, ?_⟩
        · have hboth := (hgrows.trans hgrows').mono (Q := (· ∈ id :: l)) fun j hj =>
            List.mem_cons.2 hj
          rwa [Nat.add_comm] at hboth
        · intro j hj
          rcases List.mem_cons.1 hj with rfl | hj
          · exact hgrows'.keeps j hid
          · exact hl j hj
      · refine Or.inr ⟨herror, ?_⟩
        have hsize := hgrows.size
        dsimp only at hfull
        rw [List.length_cons]
        omega
    · refine Or.inr ⟨⟨id, by simp [herror, bind, Except.bind]⟩, ?_⟩
      rw [List.length_cons]
      omega

/-! ## The whole migration -/

/-- Every index holds what the rows say, and nothing else. -/
structure IndexesExact (env : Env) (s : Store) : Prop where
  ready : ∀ key, key ∈ s.readyByDeptDue ↔ ∃ (id : String) (r : DeliveryRecord),
    s.deliveryById[id]? = some r ∧ r.leaseUntilMs = none ∧
      key = makeIndexKey r.dept r.notBeforeMs id
  leased : ∀ key, key ∈ s.leasedByDeptUntil ↔ ∃ (id : String) (r : DeliveryRecord) (u : UInt64),
    s.deliveryById[id]? = some r ∧ r.leaseUntilMs = some u ∧ key = makeIndexKey r.dept u id
  deadTime : ∀ key, key ∈ s.deadByTime ↔ ∃ (id : String) (d : DeadRecord),
    s.deadById[id]? = some d ∧ key = makeDeadTimeIndexKey d.deadAtMs id
  deadDue : ∀ key, key ∈ s.deadByDeptDue ↔ ∃ (id : String) (d : DeadRecord),
    s.deadById[id]? = some d ∧
      (d.permanent = false ∧ d.replayable = true ∧ d.record.isSome = true) ∧
      key = makeDeadDueIndexKey d.dept d.deadAtMs id
  terminal : ∀ key, key ∈ s.terminalDeadByTime ↔ ∃ (id : String) (d : DeadRecord),
    s.deadById[id]? = some d ∧ (d.permanent = true ∨ d.replayable = false) ∧
      key = makeDeadDueIndexKey d.dept d.deadAtMs id
  lineage : ∀ key id, s.lineageBySource[key]? = some id ↔
    (∃ (r : DeliveryRecord) (source : SourceRef), s.deliveryById[id]? = some r ∧
      r.source = some source ∧ key = deliveryLineageKey env r source) ∨
    ∃ (d : DeadRecord) (source : SourceRef), s.deadById[id]? = some d ∧
      isTerminalTombstone d = true ∧ d.source = some source ∧ key = deadLineageKey env d source

/-- The rows are stored under their own ids. -/
structure OwnIds (s : Store) : Prop where
  live : ∀ (id : String) (r : DeliveryRecord), s.deliveryById[id]? = some r → r.deliveryId = id
  dead : ∀ (id : String) (d : DeadRecord), s.deadById[id]? = some d → d.deliveryId = id

/-- The schema version a database says it has, where that is a number. -/
def currentSchemaVersion (s : Store) : Option ℕ :=
  s.metaTable["schema_version"]?.bind fun version => parseU32 version.toList

/-- The ids of the suppression table of older engines. -/
def legacySuppressed (s : Store) : List String :=
  match s.terminalSuppressedById with
  | some table => table.toList.map Prod.fst
  | none => []

/-- A dead row as the migration carries it over: before the third version, dead was dead. -/
def carriedOver (version : Option ℕ) (d : DeadRecord) : DeadRecord :=
  if version.all (· < 3) then markedPermanent d else d

/-- What a migration makes of the tables `s`. -/
structure Migrated (env : Env) (version : Option ℕ) (s s' : Store) : Prop where
  indexes : s'.IndexesExact env
  live : s'.deliveryById = s.deliveryById
  noDead : ∀ id : String, s.deadById[id]? = none → s'.deadById[id]? = none
  dead : ∀ (id : String) (d : DeadRecord), s.deadById[id]? = some d → ∃ reuse,
    s'.deadById[id]? = some { carriedOver version d with allowsKeyedReuse := reuse } ∧
      (d.allowsKeyedReuse = true → reuse = true)
  legacy : ∀ id ∈ s.legacySuppressed, s'.terminalDeliveryIsSuppressed id = true
  terminal : ∀ (id : String) (d : DeadRecord), s'.deadById[id]? = some d →
    (d.permanent = true ∨ d.replayable = false) → d.allowsKeyedReuse = false →
      s'.terminalDeliveryIsSuppressed id = true
  kept : ∀ id, s.terminalDeliveryIsSuppressed id = true → s'.terminalDeliveryIsSuppressed id = true
  followUp : ∀ id, s.LiveKeyed id → s'.terminalDeliveryIsSuppressed id = true →
    SuppressionStored s.terminalSuppressionBySlot id ∨ id ∈ s.legacySuppressed

/-- The tables after the passes that cannot fail. -/
def reindexed (s : Store) (version : Option ℕ) : Store :=
  let s := s.rebuildDueIndexes
  let s :=
    match version with
    | some version => if version < 3 then s.markExistingDeadRecordsPermanent else s
    | none => s.markExistingDeadRecordsPermanent
  s.rebuildDeadDueIndex.rebuildDeadTimeIndex

theorem migrate_eq (env : Env) (s : Store) (version : Option ℕ) :
    s.migrate env version = (do
      let s ← (s.reindexed version).rebuildTerminalDeadTables version
      let s ← s.importLegacyTerminalSuppressedIds
      return s.rebuildLineageIndex env) := rfl

/-- The passes that cannot fail: the dead rows are carried over, and four indexes filled. -/
theorem reindexed_eq (s : Store) (version : Option ℕ) :
    ∃ dead : Table String DeadRecord,
      (∀ id : String, dead[id]? = s.deadById[id]?.map (carriedOver version)) ∧
      s.reindexed version =
        { s with
          readyByDeptDue :=
            s.deliveryById.toList.foldl (fun t p => Table.insertKey t (readyKey p.2)) ∅
          leasedByDeptUntil :=
            s.deliveryById.toList.foldl (fun t p => Table.insertKey t (leasedKey p.2)) ∅
          deadById := dead
          deadByDeptDue := dead.toList.foldl (fun t p => Table.insertKey t (deadDueKey p.1 p.2)) ∅
          deadByTime := dead.toList.foldl
            (fun t p => Table.insertKey t (some (makeDeadTimeIndexKey p.2.deadAtMs p.1))) ∅ } := by
  cases version with
  | none =>
    simp only [reindexed, rebuildDeadTimeIndex_eq, rebuildDeadDueIndex_eq,
      markExistingDeadRecordsPermanent_eq, rebuildDueIndexes_eq]
    refine ⟨_, fun id => ?_, rfl⟩
    exact Table.get_foldl_rewrite (fun _ => markedPermanent) s.deadById id
  | some v =>
    by_cases hv : v < 3
    · simp only [reindexed, if_pos hv, rebuildDeadTimeIndex_eq, rebuildDeadDueIndex_eq,
        markExistingDeadRecordsPermanent_eq, rebuildDueIndexes_eq]
      refine ⟨_, fun id => ?_, rfl⟩
      have hcarried : carriedOver (some v) = markedPermanent := by
        funext d
        simp [carriedOver, hv]
      rw [Table.get_foldl_rewrite (fun _ => markedPermanent) s.deadById id, hcarried]
    · simp only [reindexed, if_neg hv, rebuildDeadTimeIndex_eq, rebuildDeadDueIndex_eq,
        rebuildDueIndexes_eq]
      refine ⟨s.deadById, fun key => ?_, rfl⟩
      have hcarried : carriedOver (some v) = id := by
        funext d
        simp [carriedOver, hv]
      rw [hcarried, Option.map_id]
      rfl

/-- The dead rows are the same but for the reuse mark. -/
def SameButReuse (dead dead' : Table String DeadRecord) : Prop :=
  ∀ id : String, (dead[id]? = none ∧ dead'[id]? = none) ∨
    ∃ d reuse, dead[id]? = some d ∧ dead'[id]? = some { d with allowsKeyedReuse := reuse } ∧
      (d.allowsKeyedReuse = true → reuse = true)

/-- What does not look at the reuse mark finds the same rows. -/
theorem SameButReuse.exists_iff {dead dead' : Table String DeadRecord} (h : SameButReuse dead dead')
    (P : String → DeadRecord → Prop)
    (hP : ∀ id d reuse, P id { d with allowsKeyedReuse := reuse } ↔ P id d) (id : String) :
    (∃ d, dead[id]? = some d ∧ P id d) ↔ ∃ d, dead'[id]? = some d ∧ P id d := by
  rcases h id with ⟨hnone, hnone'⟩ | ⟨d, reuse, hd, hd', _⟩
  · simp [hnone, hnone']
  · simp [hd, hd', hP]

theorem TerminalRebuilt.sameButReuse {s s' : Store}
    (h : TerminalRebuilt s.deadById.toList s s') : SameButReuse s.deadById s'.deadById := by
  intro id
  cases hd : s.deadById[id]? with
  | none =>
    refine Or.inl ⟨rfl, ?_⟩
    rw [h.others id, hd]
    intro hid
    obtain ⟨p, hp, rfl⟩ := List.mem_map.1 hid
    rw [Std.ExtTreeMap.mem_toList_iff_getElem?_eq_some.1 hp] at hd
    cases hd
  | some d =>
    obtain ⟨reuse, hrow, hreuse, _⟩ :=
      h.rows (id, d) (Std.ExtTreeMap.mem_toList_iff_getElem?_eq_some.2 hd)
    exact Or.inr ⟨d, reuse, rfl, hrow, hreuse⟩

/-- A dead row without the reuse mark was suppressed on the way. -/
theorem TerminalRebuilt.suppressed {s s' : Store} (h : TerminalRebuilt s.deadById.toList s s')
    {id : String} {d : DeadRecord} (hd : s'.deadById[id]? = some d)
    (hterminal : isTerminalDeadRecord d = true) (hreuse : d.allowsKeyedReuse = false) :
    s'.terminalDeliveryIsSuppressed id = true := by
  rcases h.sameButReuse id with ⟨_, hnone⟩ | ⟨d₀, _, hd₀, _, _⟩
  · rw [hd] at hnone
    cases hnone
  · obtain ⟨reuse, hrow, _, hsuppressed⟩ :=
      h.rows (id, d₀) (Std.ExtTreeMap.mem_toList_iff_getElem?_eq_some.2 hd₀)
    obtain rfl := Option.some.inj (hd.symm.trans hrow)
    exact hsuppressed hterminal hreuse

theorem mem_fill_iff {V : Type} (f : String → V → Option String) {t : Table String V} {key : String} :
    key ∈ t.toList.foldl (fun u p => Table.insertKey u (f p.1 p.2)) ∅ ↔
      ∃ id v, t[id]? = some v ∧ f id v = some key := by
  rw [Table.mem_foldl_insertKey]
  simp [Std.ExtTreeMap.mem_toList_iff_getElem?_eq_some]

theorem mem_lineage_iff {env : Env} {s : Store} (hids : s.OwnIds) {key id : String} :
    some (key, id) ∈ s.deliveryById.toList.map (fun p => liveLineage env p.2) ++
        s.deadById.toList.map (fun p => deadLineage env p.2) ↔
      (∃ (r : DeliveryRecord) (source : SourceRef), s.deliveryById[id]? = some r ∧
        r.source = some source ∧ key = deliveryLineageKey env r source) ∨
      ∃ (d : DeadRecord) (source : SourceRef), s.deadById[id]? = some d ∧
        isTerminalTombstone d = true ∧ d.source = some source ∧ key = deadLineageKey env d source := by
  rw [List.mem_append, List.mem_map, List.mem_map]
  refine or_congr ⟨?_, ?_⟩ ⟨?_, ?_⟩
  · rintro ⟨⟨j, r⟩, hr, heq⟩
    rw [Std.ExtTreeMap.mem_toList_iff_getElem?_eq_some] at hr
    simp only [liveLineage, Option.map_eq_some_iff, Prod.mk.injEq] at heq
    obtain ⟨source, hsource, hkey, rfl⟩ := heq
    rw [hids.live j r hr]
    exact ⟨r, source, hr, hsource, hkey.symm⟩
  · rintro ⟨r, source, hr, hsource, rfl⟩
    refine ⟨(id, r), Std.ExtTreeMap.mem_toList_iff_getElem?_eq_some.2 hr, ?_⟩
    simp [liveLineage, hsource, hids.live id r hr]
  · rintro ⟨⟨j, d⟩, hd, heq⟩
    rw [Std.ExtTreeMap.mem_toList_iff_getElem?_eq_some] at hd
    simp only [deadLineage, Option.ite_none_right_eq_some, Option.map_eq_some_iff,
      Prod.mk.injEq] at heq
    obtain ⟨htomb, source, hsource, hkey, rfl⟩ := heq
    rw [hids.dead j d hd]
    exact ⟨d, source, hd, htomb, hsource, hkey.symm⟩
  · rintro ⟨d, source, hd, htomb, hsource, rfl⟩
    refine ⟨(id, d), Std.ExtTreeMap.mem_toList_iff_getElem?_eq_some.2 hd, ?_⟩
    simp [deadLineage, htomb, hsource, hids.dead id d hd]

/-- `rebuild_lineage_index` leaves the entries of the rows.  Two rows with one key have one id, so
no entry is lost. -/
theorem get_rebuildLineageIndex {env : Env} {s : Store} (hids : s.OwnIds) {key id : String} :
    (s.rebuildLineageIndex env).lineageBySource[key]? = some id ↔
      (∃ (r : DeliveryRecord) (source : SourceRef), s.deliveryById[id]? = some r ∧
        r.source = some source ∧ key = deliveryLineageKey env r source) ∨
      ∃ (d : DeadRecord) (source : SourceRef), s.deadById[id]? = some d ∧
        isTerminalTombstone d = true ∧ d.source = some source ∧
        key = deadLineageKey env d source := by
  rw [rebuildLineageIndex_eq]
  refine (Table.get_fill fun key id id' h h' => ?_).trans (mem_lineage_iff hids)
  -- both entries carry the id of the row they were made for
  rw [mem_lineage_iff hids] at h h'
  rcases h with ⟨r, source, hr, _, hkey⟩ | ⟨d, source, hd, _, _, hkey⟩ <;>
    rcases h' with ⟨r', source', hr', _, hkey'⟩ | ⟨d', source', hd', _, _, hkey'⟩ <;>
    have hsame := lineageIndexKey_inj (hkey'.symm.trans hkey)
  · rwa [hids.live id r hr, hids.live id' r' hr'] at hsame
  · rwa [hids.live id r hr, hids.dead id' d' hd'] at hsame
  · rwa [hids.dead id d hd, hids.live id' r' hr'] at hsame
  · rwa [hids.dead id d hd, hids.dead id' d' hd'] at hsame

section Passes

variable {env : Env} {version : Option ℕ} {s s₁ : Store} {suppression : Table String String}

/-- The tables `rebuild_terminal_dead_tables` starts from. -/
def terminalCleared (s : Store) (version : Option ℕ) : Store :=
  { s.reindexed version with terminalDeadByTime := ∅ }

/-- The tables after all passes: `rebuild_terminal_dead_tables` left `s₁`, and the import of the
legacy ids the table `suppression`. -/
def relinked (env : Env) (s₁ : Store) (suppression : Table String String) : Store :=
  { s₁ with
    terminalSuppressionBySlot := suppression
    terminalSuppressedById := none }.rebuildLineageIndex env

section Fields

variable (env : Env) (s : Store) (version : Option ℕ) (suppression : Table String String)

theorem get_terminalCleared (id : String) :
    (s.terminalCleared version).deadById[id]? = s.deadById[id]?.map (carriedOver version) := by
  obtain ⟨dead, hdead, hre⟩ := s.reindexed_eq version
  rw [terminalCleared, hre]
  exact hdead id

theorem terminalCleared_eq :
    s.terminalCleared version =
      { s with
        readyByDeptDue :=
          s.deliveryById.toList.foldl (fun t p => Table.insertKey t (readyKey p.2)) ∅
        leasedByDeptUntil :=
          s.deliveryById.toList.foldl (fun t p => Table.insertKey t (leasedKey p.2)) ∅
        deadById := (s.terminalCleared version).deadById
        deadByDeptDue := (s.terminalCleared version).deadById.toList.foldl
          (fun t p => Table.insertKey t (deadDueKey p.1 p.2)) ∅
        deadByTime := (s.terminalCleared version).deadById.toList.foldl
          (fun t p => Table.insertKey t (some (makeDeadTimeIndexKey p.2.deadAtMs p.1))) ∅
        terminalDeadByTime := ∅ } := by
  obtain ⟨dead, _, hre⟩ := s.reindexed_eq version
  simp only [terminalCleared, hre]

theorem relinked_eq :
    relinked env s suppression =
      { s with
        terminalSuppressionBySlot := suppression
        terminalSuppressedById := none
        lineageBySource := (relinked env s suppression).lineageBySource } := by
  simp only [relinked, rebuildLineageIndex_eq]

end Fields

theorem ownIds_terminalCleared (hids : s.OwnIds) : (s.terminalCleared version).OwnIds where
  live id r hr := by
    rw [terminalCleared_eq] at hr
    exact hids.live id r hr
  dead id d hd := by
    rw [get_terminalCleared, Option.map_eq_some_iff] at hd
    obtain ⟨d, hd, rfl⟩ := hd
    rw [← hids.dead id d hd, carriedOver]
    split <;> rfl

theorem TerminalRebuilt.ownIds {s : Store} (hids : s.OwnIds)
    (h : TerminalRebuilt s.deadById.toList s s₁) : s₁.OwnIds where
  live id r hr := hids.live id r (h.deliveryById_eq ▸ hr)
  dead id d hd := by
    rcases h.sameButReuse id with ⟨_, hnone⟩ | ⟨d₀, reuse, hd₀, hd', _⟩
    · rw [hd] at hnone
      cases hnone
    · obtain rfl := Option.some.inj (hd.symm.trans hd')
      exact hids.dead id d₀ hd₀

section Exact

variable (hids : s.OwnIds)
  (hrows : TerminalRebuilt (s.terminalCleared version).deadById.toList (s.terminalCleared version) s₁)

include hrows in
theorem relinked_fields (env : Env) (suppression : Table String String) :
    let s' := relinked env s₁ suppression
    let dead := (s.terminalCleared version).deadById.toList
    s'.deliveryById = s.deliveryById ∧ s'.deadById = s₁.deadById ∧
    s'.readyByDeptDue =
      s.deliveryById.toList.foldl (fun t p => Table.insertKey t (readyKey p.2)) ∅ ∧
    s'.leasedByDeptUntil =
      s.deliveryById.toList.foldl (fun t p => Table.insertKey t (leasedKey p.2)) ∅ ∧
    s'.deadByTime = dead.foldl
      (fun t p => Table.insertKey t (some (makeDeadTimeIndexKey p.2.deadAtMs p.1))) ∅ ∧
    s'.deadByDeptDue = dead.foldl (fun t p => Table.insertKey t (deadDueKey p.1 p.2)) ∅ ∧
    s'.terminalDeadByTime = s₁.terminalDeadByTime ∧
    s'.terminalSuppressionBySlot = suppression ∧ s'.metaTable = s.metaTable := by
  obtain ⟨terminal, dead, _, rfl⟩ := hrows.frame
  dsimp only
  rw [relinked_eq]
  simp only [true_and]
  rw [terminalCleared_eq]
  exact ⟨rfl, rfl, rfl, rfl, rfl, rfl⟩

include hids hrows in
theorem indexesExact_relinked (env : Env) (suppression : Table String String) :
    (relinked env s₁ suppression).IndexesExact env := by
  have hsame := hrows.sameButReuse
  have hids₁ := hrows.ownIds (ownIds_terminalCleared hids)
  obtain ⟨hdeliveries, hdead, hready, hleased, hdeadTime, hdeadDue, hterminal, _, _⟩ :=
    relinked_fields hrows env suppression
  refine ⟨fun key => ?_, fun key => ?_, fun key => ?_, fun key => ?_, fun key => ?_,
    fun key id => ?_⟩
  · rw [hready, hdeliveries, mem_fill_iff (fun _ r => readyKey r)]
    refine exists_congr fun id => exists_congr fun r => and_congr_right fun hr => ?_
    cases hlease : r.leaseUntilMs <;> simp [readyKey, hlease, hids.live id r hr, eq_comm]
  · rw [hleased, hdeliveries, mem_fill_iff (fun _ r => leasedKey r)]
    refine exists_congr fun id => exists_congr fun r => ?_
    rw [exists_and_left]
    refine and_congr_right fun hr => ?_
    cases hlease : r.leaseUntilMs <;> simp [leasedKey, hlease, hids.live id r hr, eq_comm]
  · rw [hdeadTime, hdead,
      mem_fill_iff fun id (d : DeadRecord) => some (makeDeadTimeIndexKey d.deadAtMs id)]
    refine exists_congr fun id => ?_
    rw [hsame.exists_iff (fun id d => some (makeDeadTimeIndexKey d.deadAtMs id) = some key)
      (fun _ _ _ => Iff.rfl)]
    simp [eq_comm]
  · rw [hdeadDue, hdead, mem_fill_iff deadDueKey]
    refine exists_congr fun id => ?_
    rw [hsame.exists_iff (fun id d => deadDueKey id d = some key) (fun _ _ _ => Iff.rfl)]
    refine exists_congr fun d => and_congr_right fun _ => ?_
    simp [deadDueKey, shouldIndexDeadRecord, and_assoc, @eq_comm _ key]
  · rw [hterminal, hdead, hrows.terminal]
    have hempty : key ∉ (s.terminalCleared version).terminalDeadByTime :=
      Std.ExtTreeMap.not_mem_empty
    simp only [hempty, false_or, Prod.exists, Std.ExtTreeMap.mem_toList_iff_getElem?_eq_some]
    refine exists_congr fun id => ?_
    rw [hsame.exists_iff (fun id d => isTerminalDeadRecord d = true ∧
      makeDeadDueIndexKey d.dept d.deadAtMs id = key) (fun _ _ _ => Iff.rfl)]
    simp [isTerminalDeadRecord, @eq_comm _ key]
  · have hlive₁ : s₁.deliveryById = s.deliveryById := by
      rw [hrows.deliveryById_eq, terminalCleared_eq]
    rw [hdeliveries, hdead, ← hlive₁]
    exact get_rebuildLineageIndex (s := { s₁ with
      terminalSuppressionBySlot := suppression
      terminalSuppressedById := none }) ⟨hids₁.live, hids₁.dead⟩

include hids hrows in
/-- All passes together. -/
theorem migrated_relinked (env : Env)
    (hgrows : SuppressionGrows (· ∈ s.legacySuppressed) s.legacySuppressed.length
      s₁.terminalSuppressionBySlot suppression)
    (hlegacy : ∀ id ∈ s.legacySuppressed,
      terminalDeliveryIsSuppressedInTable suppression id = true) :
    Migrated env version s (relinked env s₁ suppression) := by
  obtain ⟨hdeliveries, hdead, _, _, _, _, _, hsuppression, _⟩ :=
    relinked_fields hrows env suppression
  have hlookup : ∀ id, (relinked env s₁ suppression).terminalDeliveryIsSuppressed id =
      terminalDeliveryIsSuppressedInTable suppression id := by
    intro id
    rw [terminalDeliveryIsSuppressed, hsuppression]
  have hslots : (s.terminalCleared version).terminalSuppressionBySlot =
      s.terminalSuppressionBySlot := by
    rw [terminalCleared_eq]
  have hfirst := hrows.grows
  rw [hslots] at hfirst
  refine ⟨indexesExact_relinked hids hrows env suppression, hdeliveries, fun id hnone => ?_,
    fun id d hd => ?_, fun id hid => ?_, fun id d hd hterminal hreuse => ?_, fun id hid => ?_,
    fun id hkeyed hid => ?_⟩
  · rw [hdead]
    rcases hrows.sameButReuse id with ⟨_, hnone'⟩ | ⟨d, reuse, hd, _, _⟩
    · exact hnone'
    · rw [get_terminalCleared, hnone] at hd
      cases hd
  · rw [hdead]
    have hd₀ : (s.terminalCleared version).deadById[id]? = some (carriedOver version d) := by
      rw [get_terminalCleared, hd, Option.map_some]
    rcases hrows.sameButReuse id with ⟨hnone, _⟩ | ⟨d', reuse, hd', hrow, hreuse⟩
    · rw [hd₀] at hnone
      cases hnone
    · obtain rfl := Option.some.inj (hd₀.symm.trans hd')
      refine ⟨reuse, hrow, fun hd => hreuse ?_⟩
      rw [carriedOver]
      split <;> exact hd
  · rw [hlookup]
    exact hlegacy id hid
  · rw [hlookup]
    rw [hdead] at hd
    exact hgrows.keeps id (hrows.suppressed hd (by simpa [isTerminalDeadRecord] using hterminal)
      hreuse)
  · rw [hlookup]
    exact hgrows.keeps id (hfirst.keeps id hid)
  · rw [hlookup] at hid
    rcases hgrows.only id (.of_suppressed hid) with hid | hid
    · rcases hfirst.only id hid with hid | hnot
      · exact Or.inl hid
      · refine absurd hkeyed ?_
        rwa [LiveKeyed, terminalCleared_eq] at hnot
    · exact Or.inr hid

end Exact

/-- A migration succeeds, or the suppression table has no room. -/
theorem migrate_cases (env : Env) (version : Option ℕ) (hids : s.OwnIds) :
    (∃ s', s.migrate env version = .ok s' ∧ Migrated env version s s' ∧
      s'.metaTable = s.metaTable) ∨
    (∃ id, s.migrate env version = .error (.suppressionExhausted id)) ∧
      terminalSuppressionSlots < s.terminalSuppressionBySlot.size + s.deadById.size +
        s.legacySuppressed.length := by
  have hdead : (s.terminalCleared version).deadById.toList.length ≤ s.deadById.size := by
    rw [← List.length_map Prod.fst]
    refine Table.length_le_size (Table.keys_nodup _) fun id hid => ?_
    obtain ⟨p, hp, rfl⟩ := List.mem_map.1 hid
    rw [Std.ExtTreeMap.mem_toList_iff_getElem?_eq_some, get_terminalCleared] at hp
    rw [← Std.ExtTreeMap.isSome_getElem?_iff_mem]
    cases hd : s.deadById[p.1]? with
    | none => simp [hd] at hp
    | some d => rfl
  have hslots : (s.terminalCleared version).terminalSuppressionBySlot =
      s.terminalSuppressionBySlot := by
    rw [terminalCleared_eq]
  rw [migrate_eq]
  rcases rebuildTerminalDeadRows_cases version (s.terminalCleared version).deadById.toList
      (s.terminalCleared version) (Table.keys_nodup _)
      (fun p hp => Std.ExtTreeMap.mem_toList_iff_getElem?_eq_some.1 hp) with
    ⟨s₁, hok, hrows⟩ | ⟨⟨id, herror⟩, hfull⟩
  · have hpass : (s.reindexed version).rebuildTerminalDeadTables version = .ok s₁ := hok
    have hlegacy : s₁.legacySuppressed = s.legacySuppressed := by
      obtain ⟨_, _, _, rfl⟩ := hrows.frame
      rw [legacySuppressed, legacySuppressed, terminalCleared_eq]
    have hsize := hrows.grows.size
    rw [hslots] at hsize
    rcases suppressAll_cases s₁.legacySuppressed s₁ with
      ⟨suppression, hok', hgrows, hall⟩ | ⟨⟨id, herror⟩, hfull⟩
    · rw [hlegacy] at hgrows hall
      have himport : s₁.importLegacyTerminalSuppressedIds =
          .ok { s₁ with
            terminalSuppressionBySlot := suppression
            terminalSuppressedById := none } := by
        unfold importLegacyTerminalSuppressedIds
        exact (congrArg (· >>= _) hok').trans rfl
      refine Or.inl ⟨relinked env s₁ suppression, ?_, migrated_relinked hids hrows env hgrows hall,
        (relinked_fields hrows env suppression).2.2.2.2.2.2.2.2⟩
      simp only [hpass, himport, bind, Except.bind]
      rfl
    · refine Or.inr ⟨⟨id, ?_⟩, ?_⟩
      · have himport : s₁.importLegacyTerminalSuppressedIds = .error (.suppressionExhausted id) := by
          unfold importLegacyTerminalSuppressedIds
          exact (congrArg (· >>= _) herror).trans rfl
        simp only [hpass, himport, bind, Except.bind]
      · rw [hlegacy] at hfull
        omega
  · have hpass : (s.reindexed version).rebuildTerminalDeadTables version =
        .error (.suppressionExhausted id) := herror
    refine Or.inr ⟨⟨id, by simp only [hpass, bind, Except.bind]⟩, ?_⟩
    rw [hslots] at hfull
    omega

end Passes

/-! ## Opening -/

theorem IndexesExact.withMeta {env : Env} {s : Store} (h : s.IndexesExact env)
    (m : Table String String) : { s with metaTable := m }.IndexesExact env :=
  ⟨h.ready, h.leased, h.deadTime, h.deadDue, h.terminal, h.lineage⟩

theorem Migrated.withMeta {env : Env} {version : Option ℕ} {s s' : Store}
    (h : Migrated env version s s') (m : Table String String) :
    Migrated env version s { s' with metaTable := m } :=
  ⟨h.indexes.withMeta m, h.live, h.noDead, h.dead, h.legacy, h.terminal, h.kept, h.followUp⟩

/-- A database of an older engine: no version, or a version from 2 to 11. -/
def Outdated (s : Store) : Prop :=
  s.metaTable["schema_version"]? = none ∨
    ∃ v, s.currentSchemaVersion = some v ∧ 2 ≤ v ∧ v ≤ 11

/-- An outdated database is migrated and marked. -/
theorem open_of_outdated (env : Env) {s : Store} (h : s.Outdated) :
    s.«open» env = (do
      let s' ← s.migrate env s.currentSchemaVersion
      return { s' with metaTable := s'.metaTable.insert "schema_version" schemaVersion }) := by
  have hnewer : s.currentSchemaVersion.any (12 < ·) = false := by
    rcases h with h | ⟨v, hv, _, hv'⟩
    · simp [currentSchemaVersion, h]
    · rw [hv]
      simp only [Option.any_some, decide_eq_false_iff_not]
      omega
  have hversion : ∀ text n, parseU32 text.toList = some n → (n < 2 ∨ 11 < n) →
      s.metaTable["schema_version"]? ≠ some text := by
    intro text n hparse hn htext
    rcases h with h | ⟨v, hv, hlow, hhigh⟩
    · rw [h] at htext
      cases htext
    · rw [currentSchemaVersion, htext, Option.bind_some, hparse, Option.some_inj] at hv
      omega
  have hupgrade : s.upgrade env s.metaTable["schema_version"]? s.currentSchemaVersion =
      s.migrate env s.currentSchemaVersion := by
    rw [upgrade, if_neg (hversion schemaVersion 12 (by decide) (by omega)),
      if_neg (hversion "1" 1 (by decide) (by omega))]
  rw [currentSchemaVersion] at hnewer hupgrade ⊢
  simp only [«open», hnewer, hupgrade]
  rfl

/-- **A migration re-establishes the invariants.**  A database of an older engine whose rows are
stored under their own ids is migrated when it is opened.  The only way for that to fail is that the
slots for suppressed ids are used up, which cannot happen while there are as many free slots as
dead rows and legacy ids.  When it succeeds, `Migrated` says what it leaves, and opening the result
again changes nothing. -/
theorem open_migrates (env : Env) {s : Store} (hversion : s.Outdated) (hids : s.OwnIds) :
    (s.terminalSuppressionBySlot.size + s.deadById.size + s.legacySuppressed.length ≤
      terminalSuppressionSlots → ∃ s', s.«open» env = .ok s') ∧
    (∀ e, s.«open» env = .error e → ∃ id, e = .suppressionExhausted id) ∧
    ∀ s', s.«open» env = .ok s' →
      Migrated env s.currentSchemaVersion s s' ∧ s'.«open» env = .ok s' := by
  rw [open_of_outdated env hversion]
  rcases migrate_cases env s.currentSchemaVersion hids with
    ⟨s₁, hok, hmigrated, _⟩ | ⟨⟨id, herror⟩, hfull⟩
  · simp only [hok, bind, Except.bind, pure, Except.pure]
    refine ⟨fun _ => ⟨_, rfl⟩, fun e he => (by cases he), fun s' hs' => ?_⟩
    obtain rfl := Except.ok.inj hs'
    refine ⟨hmigrated.withMeta _, open_current env ?_⟩
    simp
  · simp only [herror, bind, Except.bind]
    refine ⟨fun hroom => by omega, fun e he => ⟨id, (Except.error.inj he).symm⟩, fun s' hs' => ?_⟩
    cases hs'

/-- A database of the second version with one dead row. -/
def legacySample : Store :=
  { Store.empty with
    deadById := (∅ : Table String DeadRecord).insert "a"
      { deliveryId := "a", queue := "q", dept := "d", source := none, observedAtMs := 1
        notBeforeMs := 1, deadAtMs := 2, attempts := 3, redriveCount := 0, replayable := true
        permanent := false, allowsKeyedReuse := false, errorExcerpt := none, record := none }
    metaTable := (∅ : Table String String).insert "schema_version" "2" }

/-- The sample is migrated, and its dead row is permanent afterwards. -/
theorem open_migrates_legacySample : ∃ s', legacySample.«open» ⟨fun _ _ => 0, fun _ => ""⟩ = .ok s' ∧
    s'.IndexesExact ⟨fun _ _ => 0, fun _ => ""⟩ ∧
    ∃ d, s'.deadById["a"]? = some d ∧ d.permanent = true := by
  have hversion : legacySample.Outdated := Or.inr ⟨2, by decide, by decide, by decide⟩
  have hids : legacySample.OwnIds := by
    refine ⟨fun id r hr => ?_, fun id d hd => ?_⟩
    · simp [legacySample, Store.empty] at hr
    · rw [legacySample, Table.get_insert] at hd
      split at hd
      · rename_i hid
        rw [← Option.some.inj hd, hid]
      · simp at hd
  obtain ⟨hroom, _, hmigrates⟩ := open_migrates ⟨fun _ _ => 0, fun _ => ""⟩ hversion hids
  obtain ⟨s', hopen⟩ := hroom (by decide +kernel)
  obtain ⟨hmigrated, _⟩ := hmigrates s' hopen
  obtain ⟨reuse, hrow, _⟩ := hmigrated.dead "a" _ (by rw [legacySample, Table.get_insert, if_pos rfl])
  exact ⟨s', hopen, hmigrated.indexes, _, hrow, by cases reuse <;> decide⟩

/-- A suppression table can be full. -/
theorem exists_full (n : ℕ) : ∃ table : Table String String, ∀ m < n,
    table[terminalSuppressionSlotKey m]? = some (terminalSuppressionSlotKey m) := by
  induction n with
  | zero => exact ⟨∅, fun m hm => absurd hm (by omega)⟩
  | succ n ih =>
    obtain ⟨table, htable⟩ := ih
    refine ⟨table.insert (terminalSuppressionSlotKey n) (terminalSuppressionSlotKey n),
      fun m hm => ?_⟩
    rw [Table.get_insert]
    split
    · rename_i heq
      rw [heq]
    · rename_i hne
      refine htable m (Nat.lt_of_le_of_ne (Nat.le_of_lt_succ hm) ?_)
      rintro rfl
      exact hne rfl

/-- A migration without dead rows fails where the import of the legacy ids fails. -/
theorem migrate_eq_error (env : Env) (version : Option ℕ) {s : Store} {id : String} {e : StoreError}
    (hdead : ∀ id : String, s.deadById[id]? = none) (hlegacy : s.legacySuppressed = [id])
    (hfull : suppressTerminalDeliveryInTable s.terminalSuppressionBySlot id = .error e) :
    s.migrate env version = .error e := by
  have hnil : (s.terminalCleared version).deadById.toList = [] := by
    rw [List.eq_nil_iff_forall_not_mem]
    intro p hp
    rw [Std.ExtTreeMap.mem_toList_iff_getElem?_eq_some, get_terminalCleared, hdead] at hp
    cases hp
  have hrebuild : (s.reindexed version).rebuildTerminalDeadTables version =
      .ok (s.terminalCleared version) := by
    have hloop : (s.reindexed version).rebuildTerminalDeadTables version =
        (s.terminalCleared version).deadById.toList.foldlM
          (fun s (id, dead) => rebuildTerminalDeadRow version s id dead)
          (s.terminalCleared version) := rfl
    rw [hloop, hnil]
    rfl
  have hids : (s.terminalCleared version).legacySuppressed = [id] := by
    rw [← hlegacy, legacySuppressed, legacySuppressed, terminalCleared_eq]
  have hslots : (s.terminalCleared version).terminalSuppressionBySlot =
      s.terminalSuppressionBySlot := by
    rw [terminalCleared_eq]
  have hsuppress : (s.terminalCleared version).legacySuppressed.foldlM suppressTerminalDelivery
      (s.terminalCleared version) = .error e := by
    simp [hids, suppressTerminalDelivery, hslots, hfull, bind, Except.bind]
  have himport : (s.terminalCleared version).importLegacyTerminalSuppressedIds = .error e := by
    unfold importLegacyTerminalSuppressedIds
    exact (congrArg (· >>= _) hsuppress).trans rfl
  rw [migrate_eq]
  simp only [hrebuild, himport, bind, Except.bind]

/-- A database of the tenth version with one legacy id. -/
def lateSample (suppression : Table String String) : Store :=
  { Store.empty with
    terminalSuppressionBySlot := suppression
    terminalSuppressedById := some ((∅ : Table String Unit).insert "late" ())
    metaTable := (∅ : Table String String).insert "schema_version" "10" }

theorem terminalSuppressionSlotKey_ne_late (slot : ℕ) : terminalSuppressionSlotKey slot ≠ "late" := by
  intro h
  have hlength := congrArg (fun key => key.toList.length) h
  simp only [terminalSuppressionSlotKey, String.toList_ofList, Text.length_digits] at hlength
  split at hlength <;> cases hlength

/-- **A migration can fail.**  Every slot is taken, and there is one more id to suppress. -/
theorem open_exhausted : ∃ s : Store, s.metaTable["schema_version"]? = some "10" ∧ s.OwnIds ∧
    ∀ env, s.«open» env = .error (.suppressionExhausted "late") := by
  obtain ⟨table, htable⟩ := exists_full terminalSuppressionSlots
  have hplace : Probing.place (fun slot => table[slot]?) (terminalSuppressionProbeKey "late") "late"
      terminalSuppressionSlots 0 = none := by
    refine Probing.place_eq_none _ _ fun o _ _ => ?_
    exact ⟨_, terminalSuppressionSlotKey_ne_late _, htable _ (Nat.mod_lt _ (by decide))⟩
  have hfull : suppressTerminalDeliveryInTable table "late" =
      .error (.suppressionExhausted "late") := by
    rw [suppressTerminalDeliveryInTable, hplace]
  have hmeta : (lateSample table).metaTable["schema_version"]? = some "10" := by
    simp [lateSample]
  have hversion : (lateSample table).currentSchemaVersion = some 10 := by
    rw [currentSchemaVersion, hmeta]
    decide
  have hlegacy : (lateSample table).legacySuppressed = ["late"] := by
    change ((∅ : Table String Unit).insert "late" ()).toList.map Prod.fst = ["late"]
    decide
  refine ⟨lateSample table, hmeta, ⟨fun id r hr => ?_, fun id d hd => ?_⟩, fun env => ?_⟩
  · simp [lateSample, Store.empty] at hr
  · simp [lateSample, Store.empty] at hd
  · rw [open_of_outdated env (Or.inr ⟨10, hversion, by decide, by decide⟩),
      migrate_eq_error env _ (fun id => by simp [lateSample, Store.empty]) hlegacy hfull]
    rfl

end Store

end Fkst.Delivery
