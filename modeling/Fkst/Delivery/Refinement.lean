import Fkst.Delivery.Effect

/-!
# The operations move deliveries

Every operation of the store, taken apart: what it does to the tables is, for each delivery, a
sequence of moves of its life, and the indexes follow.
-/

set_option autoImplicit false

namespace Fkst.Delivery

open Lib

namespace Store

variable {env : Env} {s : Store} {id : String} {r : DeliveryRecord} {u : UInt64}

theorem slice_live {o : Option DeliveryRecord} (h : s.deliveryById[id]? = o) :
    (s.slice id).live = o := h

theorem Inv.liveIndexed (hs : s.Inv) (h : s.deliveryById[id]? = some r) :
    LiveIndexed (some r) (s.slice id).ready (s.slice id).leased :=
  h ▸ (hs.indexed id).live

theorem Inv.liveIndexed_none (hs : s.Inv) (h : s.deliveryById[id]? = none) :
    LiveIndexed none (s.slice id).ready (s.slice id).leased :=
  h ▸ (hs.indexed id).live

theorem Inv.deadIndexed (hs : s.Inv) {d : DeadRecord} (h : s.deadById[id]? = some d) :
    DeadIndexed (some d) (s.slice id).deadTime (s.slice id).deadDue (s.slice id).terminal :=
  h ▸ (hs.indexed id).dead

theorem Inv.liveOk (hs : s.Inv) (h : s.deliveryById[id]? = some r) : r.Ok id := (hs.ok id).live r h

theorem Inv.deadOk (hs : s.Inv) {d : DeadRecord} (h : s.deadById[id]? = some d) : d.Ok id :=
  (hs.ok id).dead d h

/-- A leased row has no ready key, if there are no leftovers. -/
theorem ready_eq_empty (hlive : s.deliveryById[id]? = some r) (hu : r.leaseUntilMs = some u)
    (hc : (s.slice id).ready ⊆ readyKeys (s.slice id).live) : (s.slice id).ready = ∅ := by
  have hl : (s.slice id).live = some r := hlive
  rwa [hl, readyKeys_leased hu, Set.subset_empty_iff] at hc

/-! ## Compaction -/

/-- A key of the terminal index is that of a terminal dead row. -/
theorem Inv.terminal_row (hs : s.Inv) {dept : String} {t : UInt64}
    (h : makeDeadDueIndexKey dept t id ∈ s.terminalDeadByTime) :
    ∃ d, s.deadById[id]? = some d ∧ isTerminalDeadRecord d = true ∧ dept = d.dept ∧
      t = d.deadAtMs := by
  have hmem : (dept, t) ∈ (s.slice id).terminal := h
  rw [(hs.indexed id).dead.terminal] at hmem
  obtain ⟨d, hd, hterm, hp⟩ := hmem
  exact ⟨d, hd, hterm, congrArg Prod.fst hp, congrArg Prod.snd hp⟩

/-- A terminal dead row that is old enough is removed. -/
theorem compactRow_effect {t : Txn} {nowMs : UInt64} {d : DeadRecord} (hs : s.Inv)
    (hclock : t.clock = some nowMs) (hdead : s.deadById[id]? = some d)
    (hterminal : isTerminalDeadRecord d = true) (hold : d.Old nowMs) {key : DueIndexKey}
    (hid : key.deliveryId = id) (hkey : key.key = makeDeadDueIndexKey d.dept d.deadAtMs id) :
    RowEffect env t id none True s (s.compactRow env key d) := by
  have hi := hs.deadIndexed hdead
  have hindex : shouldIndexDeadRecord d = false := by
    have hok := hs.deadOk hdead
    have hr := hok.isTerminal ▸ hterminal
    rw [hok.shouldIndex]
    simpa using hr
  unfold compactRow
  rw [hkey, hid]
  refine .ofDead hs ?_ (by simp; rfl) (hi.leave _)
    (.compact nowMs hclock hdead hterminal hold) ?_
  · exact (((((Touches.refl id s).removeDeadLineageIndex _ _).removeDead).removeDeadTime
      _).removeTerminal _ _).removeDeadDue _ _
  · intro _ hc
    have hd : (s.slice id).dead = some d := hdead
    rw [hd, deadDueKeys_not_indexed hindex, Set.subset_empty_iff] at hc
    simp [hc]

@[simp] theorem deliveryById_compactRow (key : DueIndexKey) (d : DeadRecord) :
    (s.compactRow env key d).deliveryById = s.deliveryById := by
  unfold compactRow removeDeadLineageIndex
  split
  · rfl
  · split <;> rfl

/-- The compaction loop works through keys of terminal rows. -/
theorem compactKeys_effect {t : Txn} {nowMs : UInt64} (hclock : t.clock = some nowMs)
    (hretention : terminalDeadRetentionMs ≤ nowMs) :
    ∀ {keys : List DueIndexKey} {s : Store} (n : ℕ), s.Inv →
      (∀ k ∈ keys, k.key ∈ s.terminalDeadByTime ∧
        ∃ dept, k.key = makeDeadDueIndexKey dept k.dueMs k.deliveryId) →
      (keys.map DueIndexKey.key).Nodup →
      ∃ s' m, compactKeys env (nowMs - terminalDeadRetentionMs) keys s n = .ok (s', m) ∧
        Effect env t (fun _ => []) True s s' ∧ s'.deliveryById = s.deliveryById
  | [], s, n, hs, _, _ => ⟨s, n, rfl, .refl hs, rfl⟩
  | key :: keys, s, n, hs, hkeys, hnodup => by
    obtain ⟨hmem, dept, hkey⟩ := hkeys key (by simp)
    obtain ⟨d, hd, hterm, hdept, hdue⟩ := hs.terminal_row (hkey ▸ hmem)
    rw [List.map_cons, List.nodup_cons] at hnodup
    rw [compactKeys]
    simp only [hd]
    rw [if_neg (by simp [hdue, hterm])]
    split
    · exact ⟨s, n, rfl, .refl hs, rfl⟩
    · rename_i hold
      have hkey' : key.key = makeDeadDueIndexKey d.dept d.deadAtMs key.deliveryId := by
        rw [hkey, hdept, hdue]
      have hrow : RowEffect env t key.deliveryId none True s (s.compactRow env key d) :=
        compactRow_effect hs hclock hd hterm ⟨hretention, UInt64.not_lt.1 hold⟩ rfl hkey'
      have heff := Effect.quiet hs hrow
      have hnext : ∀ k ∈ keys, k.key ∈ (s.compactRow env key d).terminalDeadByTime ∧
          ∃ dept, k.key = makeDeadDueIndexKey dept k.dueMs k.deliveryId := by
        intro k hk
        obtain ⟨hkmem, kdept, hk'⟩ := hkeys k (by simp [hk])
        refine ⟨?_, kdept, hk'⟩
        -- a second key of this id would be the same key
        have hne : k.deliveryId ≠ key.deliveryId := by
          intro he
          obtain ⟨d', hd', _, hdept', hdue'⟩ := hs.terminal_row (hk' ▸ hkmem)
          rw [he, hd] at hd'
          obtain rfl := Option.some.inj hd'
          refine hnodup.1 (List.mem_map.2 ⟨k, hk, ?_⟩)
          rw [hk', hkey, hdept', hdue', hdept, hdue, he]
        rw [hk'] at hkmem
        have hin : (kdept, k.dueMs) ∈ (s.slice k.deliveryId).terminal := hkmem
        rw [← hrow.touches.frame hs.wellFormed k.deliveryId hne] at hin
        rw [hk']
        exact hin
      obtain ⟨s', m, hrun, heff', hdel⟩ :=
        compactKeys_effect hclock hretention (n + 1) heff.inv hnext hnodup.2
      refine ⟨s', m, hrun, (heff.trans heff').mono (by simp), ?_⟩
      rw [hdel, deliveryById_compactRow]

/-- **Compaction removes old terminal dead rows and does nothing else.** -/
theorem compactTerminalDeadRecords_effect (env : Env) (t : Txn) {nowMs : UInt64} (hs : s.Inv)
    (hclock : t.clock = some nowMs) :
    ∃ s' m, s.compactTerminalDeadRecords env nowMs = .ok (s', m) ∧
      Effect env t (fun _ => []) True s s' ∧ s'.deliveryById = s.deliveryById := by
  unfold compactTerminalDeadRecords checkedSub
  split
  · exact ⟨s, 0, rfl, .refl hs, rfl⟩
  · rename_i cutoff hcut
    split at hcut
    · rename_i hretention
      obtain rfl := Option.some.inj hcut
      have hwf : ∀ p ∈ (Table.range s.terminalDeadByTime deadRangeStart (deadRangeStop
          (nowMs - terminalDeadRetentionMs))).take terminalDeadCompactionLimit,
          p.1 ∈ s.terminalDeadByTime ∧ ∃ d t i, p.1 = makeDeadDueIndexKey d t i := by
        intro p hp
        have hmem := Table.mem_of_mem_range (List.mem_of_mem_take hp)
        obtain ⟨i, a, hk⟩ := hs.wellFormed.terminal p.1 hmem
        exact ⟨hmem, a.1, a.2, i, hk⟩
      obtain ⟨keys, hkeys⟩ := exists_parseKeys parseDeadDueIndexKey_makeDeadDueIndexKey
        fun p hp => (hwf p hp).2
      obtain ⟨hmap, hkwf⟩ := parseKeys_eq_ok parseDeadDueIndexKey_makeDeadDueIndexKey
        (fun p hp => (hwf p hp).2) hkeys
      have hmem : ∀ k ∈ keys, k.key ∈ s.terminalDeadByTime := fun k hk =>
        mem_table_of_sublist (hmap ▸ List.Sublist.refl _) (fun p hp => (hwf p hp).1) hk
      have hnodup : (keys.map DueIndexKey.key).Nodup := by
        rw [hmap]
        exact (Table.range_keys_nodup _ _ _).sublist ((List.take_sublist _ _).map _)
      obtain ⟨s', m, hrun, heff, hdel⟩ := compactKeys_effect hclock hretention 0 hs
        (fun k hk => ⟨hmem k hk, hkwf k hk⟩) hnodup
      refine ⟨s', m, ?_, heff, hdel⟩
      simp only [collectCompactableTerminalDeadKeys, hkeys, bind, Except.bind, hrun]
    · cases hcut

/-! ## Enqueueing -/

/-- A row that is rewritten under the same keys. -/
theorem rewrite_effect {t : Txn} {o : Option Event} {r' : DeliveryRecord} (hs : s.Inv)
    (hlive : s.deliveryById[id]? = some r)
    (hm : Move env id t o (s.slice id).toView { (s.slice id).toView with live := some r' })
    (hdept : r'.dept = r.dept) (hlease : r'.leaseUntilMs = r.leaseUntilMs)
    (hdue : r'.notBeforeMs = r.notBeforeMs) :
    RowEffect env t id o True s (s.insertDelivery id r') := by
  refine .ofLive hs ((Touches.refl _ s).insertDelivery _) (by simp)
    ((hs.liveIndexed hlive).keep hdept hlease hdue) hm fun _ hc p hp => ?_
  have hl : (s.slice id).live = some r := hlive
  obtain ⟨r1, hr1, hu, rfl⟩ := hc hp
  obtain rfl := Option.some.inj (hl.symm.trans hr1)
  exact ⟨r', rfl, hlease ▸ hu, by rw [hdept, hdue]⟩

/-- A row that appears. -/
theorem insertRow_effect {t : Txn} {o : Option Event} (hs : s.Inv)
    (hlive : s.deliveryById[id]? = none) (hu : r.leaseUntilMs = none)
    (hm : Move env id t o (s.slice id).toView { (s.slice id).toView with live := some r }) :
    RowEffect env t id o True s (s.insertRow env id r) := by
  refine .ofLive hs ((Touches.refl id s).insertRow env r) (by simp)
    ((hs.liveIndexed_none hlive).appear hu) hm ?_
  intro _ hc
  have hl : (s.slice id).live = none := hlive
  rw [hl, readyKeys_none, Set.subset_empty_iff] at hc
  rw [hc, readyKeys_unleased hu, insert_empty_eq]

theorem coalesce_effect {record : FreshRecord} (hs : s.Inv)
    (hlive : s.deliveryById[record.val.deliveryId]? = some r) :
    Effect env (.enqueue record) (fun _ => []) True s (s.coalesce r record.val) := by
  unfold coalesce
  split
  · rename_i hkeyed
    rw [Bool.and_eq_true] at hkeyed
    split
    · exact .refl hs
    · rename_i u hu
      split
      · split
        · exact .quiet hs (rewrite_effect hs hlive (.mark record hlive hu hkeyed.1) rfl rfl rfl)
        · exact .refl hs
      · refine .quiet hs (.ofLive hs ?_ (by simp)
          (((hs.liveIndexed hlive).leave_leased hu).appear rfl) (.reset record hlive hu) ?_)
        · exact (((Touches.refl _ s).removeLeased _ _).insertReady _ _).insertDelivery _
        · intro _ hc
          rw [ready_eq_empty hlive hu hc, readyKeys_unleased rfl, insert_empty_eq]
  · exact .refl hs

/-- The events of an `enqueue`. -/
def enqueueEvents (record : FreshRecord) (outcome : EnqueueOutcome) (before : Store) :
    String → List Event :=
  eventsAt record.val.deliveryId
    (if outcome = .accepted ∧ (before.view record.val.deliveryId).live = none then [.inserted]
      else [])

theorem enqueue_effect {record : FreshRecord} (hs : s.Inv) {s' : Store} {outcome : EnqueueOutcome}
    (h : s.enqueue env record.val = .ok (s', outcome)) :
    Effect env (.enqueue record) (enqueueEvents record outcome s) True s s' := by
  unfold enqueue at h
  split at h
  · rename_i r hlive
    have hstay : ∀ j, enqueueEvents record outcome s j = [] := fun j => by
      simp [enqueueEvents, eventsAt, view, hlive]
    split at h
    · obtain ⟨rfl, rfl⟩ := Prod.mk.inj (Except.ok.inj h)
      exact (coalesce_effect hs hlive).congr hstay
    · split at h
      · obtain ⟨rfl, rfl⟩ := Prod.mk.inj (Except.ok.inj h)
        exact (Effect.refl hs).congr hstay
      · cases h
  · rename_i hlive
    obtain ⟨s1, m, hcompact, heff, hdel⟩ :=
      compactTerminalDeadRecords_effect env (.enqueue record) hs rfl
    rw [hcompact] at h
    simp only [bind, Except.bind, pure, Except.pure] at h
    have hlive1 : s1.deliveryById[record.val.deliveryId]? = none := by rw [hdel, hlive]
    split at h
    · obtain ⟨rfl, rfl⟩ := Prod.mk.inj (Except.ok.inj h)
      exact heff.congr fun j => by simp [enqueueEvents, eventsAt]
    · rename_i hnot
      obtain ⟨rfl, rfl⟩ := Prod.mk.inj (Except.ok.inj h)
      have hins : RowEffect env (.enqueue record) record.val.deliveryId (some .inserted) True s1
          (s1.insertRow env record.val.deliveryId record.val) :=
        insertRow_effect heff.inv hlive1 record.2.2.2.2.2.2
          (.insert record rfl hlive1 (Bool.eq_false_iff.2 hnot))
      refine ((heff.trans (Effect.ofRow heff.inv hins)).mono (by simp)).congr fun j => ?_
      simp [enqueueEvents, view, hlive]

/-! ## Rebinding -/

theorem rebindRow_effect (hs : s.Inv) (hlive : s.deliveryById[id]? = some r)
    (currentDeptByQueue : Table String String) (newDept : String) :
    RowEffect env (.rebind currentDeptByQueue) id none True s (s.rebindRow env id r newDept) := by
  have hi := hs.liveIndexed hlive
  have hm : Move env id (.rebind currentDeptByQueue) none (s.slice id).toView
      { (s.slice id).toView with live := some (r.rebound newDept) } :=
    .rebind currentDeptByQueue newDept hlive
  unfold rebindRow
  cases hu : r.leaseUntilMs with
  | some u =>
    have hu' : (r.rebound newDept).leaseUntilMs = some u := hu
    refine .ofLive hs ?_ (by simp [slice_unindexRow_leased _ _ hu]; rfl) (hi.relock hu hu' subset_rfl) hm ?_
    · exact (((((Touches.refl id s).removeDeliveryLineageIndex _ _).unindexRow r).insertDelivery
        _).insertDeliveryLineageIndex _ _).insertLeased _ _
    · exact fun _ hc => (ready_eq_empty hlive hu hc).subset.trans (Set.empty_subset _)
  | none =>
    have hu' : (r.rebound newDept).leaseUntilMs = none := hu
    refine .ofLive hs ?_ (by simp [slice_unindexRow_ready _ _ hu]; rfl)
      ((hi.leave_ready hu).appear hu') hm ?_
    · exact (((((Touches.refl id s).removeDeliveryLineageIndex _ _).unindexRow r).insertDelivery
        _).insertDeliveryLineageIndex _ _).insertReady _ _
    · intro _ hc
      have hl : (s.slice id).live = some r := hlive
      rw [hl, readyKeys_unleased hu, ← Set.sdiff_eq_empty] at hc
      rw [hc, readyKeys_unleased hu', insert_empty_eq]

theorem rebindRows_effect (currentDeptByQueue : Table String String) :
    ∀ {candidates : List (String × DeliveryRecord × String)} {s : Store}, s.Inv →
      (∀ c ∈ candidates, s.deliveryById[c.1]? = some c.2.1) →
      candidates.Pairwise (fun c c' => c.1 ≠ c'.1) →
      Effect env (.rebind currentDeptByQueue) (fun _ => []) True s (rebindRows env candidates s)
  | [], s, hs, _, _ => .refl hs
  | (id, r, newDept) :: candidates, s, hs, hlive, hne => by
    rw [List.pairwise_cons] at hne
    have hrow : RowEffect env (.rebind currentDeptByQueue) id none True s
        (s.rebindRow env id r newDept) :=
      rebindRow_effect hs (hlive (id, r, newDept) (by simp)) currentDeptByQueue newDept
    have heff := Effect.quiet hs hrow
    have hrest : ∀ c ∈ candidates, (s.rebindRow env id r newDept).deliveryById[c.1]? =
        some c.2.1 := by
      intro c hc
      rw [← hlive c (by simp [hc])]
      exact congrArg (fun σ => σ.live) (hrow.touches.frame hs.wellFormed c.1 (hne.1 c hc).symm)
    exact (heff.trans (rebindRows_effect currentDeptByQueue heff.inv hrest hne.2)).mono (by simp)

/-- What a rebind makes of a row. -/
def rebindCandidate (currentDeptByQueue : Table String String) (p : String × DeliveryRecord) :
    Option (String × DeliveryRecord × String) :=
  match currentDeptByQueue[p.2.queue]? with
  | none => none
  | some currentDept => if p.2.dept = currentDept then none else some (p.1, p.2, currentDept)

/-- The candidates of a rebind are rows of the table, each once. -/
theorem rebindCandidates_spec (s : Store) (currentDeptByQueue : Table String String) :
    (∀ c ∈ s.rebindCandidates currentDeptByQueue, s.deliveryById[c.1]? = some c.2.1) ∧
      (s.rebindCandidates currentDeptByQueue).Pairwise (fun c c' => c.1 ≠ c'.1) := by
  have hfst : ∀ {p : String × DeliveryRecord} {c : String × DeliveryRecord × String},
      rebindCandidate currentDeptByQueue p = some c → c.1 = p.1 ∧ c.2.1 = p.2 := by
    intro p c h
    rw [rebindCandidate] at h
    split at h
    · cases h
    · split at h
      · cases h
      · obtain rfl := Option.some.inj h
        exact ⟨rfl, rfl⟩
  constructor
  · intro c hc
    obtain ⟨p, hp, hpc⟩ := List.mem_filterMap.1 hc
    obtain ⟨h1, h2⟩ := hfst hpc
    rw [h1, h2]
    exact Std.ExtTreeMap.mem_toList_iff_getElem?_eq_some.1 hp
  · refine List.Pairwise.filterMap _ ?_ (List.pairwise_map.1 (Table.keys_nodup s.deliveryById))
    intro p p' hne c hc c' hc'
    rw [(hfst hc).1, (hfst hc').1]
    exact hne

theorem rebind_effect (hs : s.Inv) (currentDeptByQueue : Table String String) :
    Effect env (.rebind currentDeptByQueue) (fun _ => []) True s
      (s.rebindDeliveriesToCurrentSubscribers env currentDeptByQueue).1 :=
  rebindRows_effect currentDeptByQueue hs (rebindCandidates_spec s currentDeptByQueue).1
    (rebindCandidates_spec s currentDeptByQueue).2

/-! ## The absence sweep -/

/-- A row that is taken out of its index. -/
theorem unindexRow_spec (hs : s.Inv) (hlive : s.deliveryById[id]? = some r) :
    ∃ R L, (s.unindexRow id r).slice id = { s.slice id with ready := R, leased := L } ∧
      LiveIndexed none R L ∧ ((s.slice id).ready ⊆ readyKeys (s.slice id).live → R = ∅) := by
  have hi := hs.liveIndexed hlive
  cases hu : r.leaseUntilMs with
  | some u =>
    exact ⟨_, _, slice_unindexRow_leased s id hu, hi.leave_leased hu, ready_eq_empty hlive hu⟩
  | none =>
    refine ⟨_, _, slice_unindexRow_ready s id hu, hi.leave_ready hu, fun hc => ?_⟩
    have hl : (s.slice id).live = some r := hlive
    rwa [hl, readyKeys_unleased hu, ← Set.sdiff_eq_empty] at hc

/-- The id that the keys of an older dead letter are made with is its own. -/
theorem Inv.deadId (hs : s.Inv) (d : DeadRecord) (h : (s.slice id).dead = some d) :
    d.deliveryId = id :=
  (hs.deadOk h).deliveryId

theorem sweepDead_effect (hs : s.Inv) (hlive : s.deliveryById[id]? = some r)
    (queues : Std.ExtTreeSet String) (nowMs : UInt64) (budget : Duration)
    (candidates : List String) :
    RowEffect env (.sweep queues nowMs budget candidates) id (some .swept) True s
      (s.sweepDead env id r nowMs) := by
  obtain ⟨R, L, hσ1, hi, hR⟩ := unindexRow_spec hs hlive
  have hσ2 : ((s.unindexRow id r).removeDeliveryLineageIndex env r).slice id =
      { s.slice id with ready := R, leased := L } := by rw [slice_removeDeliveryLineageIndex, hσ1]
  have hdead := (hs.indexed id).dead
  obtain ⟨ht, D, hD, hσ3⟩ := unindexPrevious_spec env
    ((s.unindexRow id r).removeDeliveryLineageIndex env r) id DeadRecord.deliveryId
    (by rw [hσ2]; exact hdead) (by rw [hσ2]; exact fun d hd => hs.deadId d hd)
  rw [hσ2] at hD hσ3
  have hindexed : shouldIndexDeadRecord (r.absentDead nowMs) = true := rfl
  unfold sweepDead
  refine .ofSlice ?_ (by simp [hσ3]; rfl) hi ?_ (.sweep queues nowMs budget candidates hlive) ?_
  · exact ((((((((Touches.refl id s).unindexRow r).removeDeliveryLineageIndex env r).trans
      ht).insertDead _).insertDeadLineageIndex _ _).insertDeadTime _).insertDeadDue _ _).removeDelivery
  · exact .write_replayable hindexed rfl
  · intro _ hc
    refine ⟨(hR hc.ready).subset.trans (Set.empty_subset _), ?_⟩
    rw [hD hc.deadDue, insert_empty_eq, deadDueKeys_indexed hindexed]

/-- What a sweep reports about an id. -/
def sweepEvents (sweep : SubscriberAbsentSweep) (id : String) : List Event :=
  (sweep.deadLettered.filter (·.deliveryId == id)).map fun _ => .swept

theorem sweepRow_effect (hs : s.Inv) {queues : Std.ExtTreeSet String} {nowMs : UInt64}
    {budget : Duration} (candidates : List String) {sweep sweep' : SubscriberAbsentSweep}
    {s' : Store}
    (h : s.sweepRow env queues nowMs (durationMillis budget) sweep id = (s', sweep')) :
    ∃ evs, Effect env (.sweep queues nowMs budget candidates) evs True s s' ∧
      ∀ j, sweepEvents sweep' j = sweepEvents sweep j ++ evs j := by
  have hstay : (s, sweep) = (s', sweep') →
      ∃ evs, Effect env (.sweep queues nowMs budget candidates) evs True s s' ∧
        ∀ j, sweepEvents sweep' j = sweepEvents sweep j ++ evs j := by
    rintro ⟨⟩
    exact ⟨fun _ => [], .refl hs, by simp⟩
  unfold sweepRow at h
  split at h
  · exact hstay h
  · rename_i r hlive
    dsimp only at h
    split at h
    · split at h
      · exact hstay h
      · obtain ⟨rfl, rfl⟩ := Prod.mk.inj h
        refine ⟨fun _ => [], .quiet hs (rewrite_effect hs hlive
          (.absence queues nowMs budget candidates (some nowMs) hlive) rfl rfl rfl), ?_⟩
        simp [sweepEvents]
    · split at h
      · obtain ⟨rfl, rfl⟩ := Prod.mk.inj h
        refine ⟨fun _ => [], .quiet hs (rewrite_effect hs hlive
          (.absence queues nowMs budget candidates none hlive) rfl rfl rfl), ?_⟩
        simp [sweepEvents]
      · split at h
        · exact hstay h
        · obtain ⟨rfl, rfl⟩ := Prod.mk.inj h
          refine ⟨_, Effect.ofRow hs (sweepDead_effect hs hlive queues nowMs budget candidates),
            fun j => ?_⟩
          have hid : (r.absentDead nowMs).deliveryId = id := (hs.liveOk hlive).deliveryId
          by_cases hj : j = id
          · subst hj
            simp [sweepEvents, hid]
          · simp [sweepEvents, hid, eventsAt_of_ne hj, Ne.symm hj]

theorem sweepRows_effect {queues : Std.ExtTreeSet String} {nowMs : UInt64} {budget : Duration}
    (candidates : List String) :
    ∀ {ids : List String} {s s' : Store} {sweep sweep' : SubscriberAbsentSweep}, s.Inv →
      sweepRows env queues nowMs (durationMillis budget) ids s sweep = (s', sweep') →
      ∃ evs, Effect env (.sweep queues nowMs budget candidates) evs True s s' ∧
        ∀ j, sweepEvents sweep' j = sweepEvents sweep j ++ evs j
  | [], s, s', sweep, sweep', hs, h => by
    obtain ⟨rfl, rfl⟩ := Prod.mk.inj h
    exact ⟨fun _ => [], .refl hs, by simp⟩
  | id :: ids, s, s', sweep, sweep', hs, h => by
    rw [sweepRows] at h
    cases hrow : s.sweepRow env queues nowMs (durationMillis budget) sweep id with
    | mk s1 sweep1 =>
      rw [hrow] at h
      obtain ⟨evs, heff, hevs⟩ := sweepRow_effect hs candidates hrow
      obtain ⟨evs', heff', hevs'⟩ := sweepRows_effect candidates heff.inv h
      refine ⟨_, (heff.trans heff').mono (by simp), fun j => ?_⟩
      rw [hevs', hevs, List.append_assoc]

theorem sweep_effect (hs : s.Inv) {queues : Std.ExtTreeSet String} {nowMs : UInt64}
    {budget : Duration} {candidates : List String} {sweep : SubscriberAbsentSweep} {s' : Store}
    (h : s.sweepSubscriberAbsence env queues nowMs budget candidates = .ok (s', sweep)) :
    Effect env (.sweep queues nowMs budget candidates) (sweepEvents sweep) True s s' := by
  unfold sweepSubscriberAbsence at h
  cases hrows : sweepRows env queues nowMs (durationMillis budget) candidates s .empty with
  | mk s1 sweep1 =>
    obtain ⟨evs, heff, hevs⟩ := sweepRows_effect candidates hs hrows
    obtain ⟨s2, m, hcompact, heff', _⟩ := compactTerminalDeadRecords_effect env
      (.sweep queues nowMs budget candidates) heff.inv rfl
    simp only [hrows, hcompact, bind, Except.bind, pure, Except.pure] at h
    split at h
    · rename_i hempty
      obtain ⟨rfl, rfl⟩ := Prod.mk.inj (Except.ok.inj h)
      have hnil : sweep1.deadLettered = [] := by
        simpa using (Bool.and_eq_true_iff.1 hempty).2
      exact (Effect.refl hs).congr fun j => by simp [sweepEvents, hnil]
    · obtain ⟨rfl, rfl⟩ := Prod.mk.inj (Except.ok.inj h)
      refine ((heff.trans heff').mono (by simp)).congr fun j => ?_
      rw [hevs j]
      simp [sweepEvents, SubscriberAbsentSweep.empty]

/-! ## Renewing leases -/

theorem renewRows_effect {renewals : List (String × UInt64)} {leaseUntilMs : UInt64} :
    ∀ {rest : List (String × UInt64)} {s s' : Store} {applied applied' : Table String DeliveryRecord},
      s.Inv → renewRows leaseUntilMs rest s applied = (s', applied') →
      Effect env (.renew renewals leaseUntilMs) (fun _ => []) True s s'
  | [], s, s', applied, applied', hs, h => by
    obtain ⟨rfl, _⟩ := Prod.mk.inj h
    exact .refl hs
  | (id, g) :: rest, s, s', applied, applied', hs, h => by
    rw [renewRows] at h
    split at h
    · exact renewRows_effect hs h
    · rename_i r hlive
      split at h
      · exact renewRows_effect hs h
      · rename_i u hu
        split at h
        · exact renewRows_effect hs h
        · have hrow : Effect env (.renew renewals leaseUntilMs) (fun _ => []) True s
              (((s.removeLeased (makeIndexKey r.dept u id)).insertDelivery id
                { r with leaseUntilMs := some leaseUntilMs }).insertLeased
                (makeIndexKey r.dept leaseUntilMs id)) := by
            refine .quiet hs (.ofLive hs ?_ (by simp)
              ((hs.liveIndexed hlive).relock hu rfl subset_rfl) (.renew renewals leaseUntilMs hlive hu) ?_)
            · exact (((Touches.refl id s).removeLeased _ _).insertDelivery _).insertLeased _ _
            · exact fun _ hc => (ready_eq_empty hlive hu hc).subset.trans (Set.empty_subset _)
          exact (hrow.trans (renewRows_effect hrow.inv h)).mono (by simp)

theorem renew_effect (hs : s.Inv) (renewals : List (String × UInt64)) (leaseUntilMs : UInt64) :
    Effect env (.renew renewals leaseUntilMs) (fun _ => []) True s
      (s.renewLeases renewals leaseUntilMs).1 := by
  unfold renewLeases
  cases hrows : renewRows leaseUntilMs renewals s ∅ with
  | mk s1 applied =>
    dsimp only
    split
    · exact .refl hs
    · exact renewRows_effect hs hrows

/-! ## Completing an execution -/

/-- A leased row gives up its lease and becomes ready. -/
theorem release_effect {t : Txn} {o : Option Event} {r' : DeliveryRecord} (hs : s.Inv)
    (hlive : s.deliveryById[id]? = some r) (hu : r.leaseUntilMs = some u)
    (hu' : r'.leaseUntilMs = none) (lineage : DeliveryRecord)
    (hm : Move env id t o (s.slice id).toView { (s.slice id).toView with live := some r' }) :
    RowEffect env t id o True s
      (((s.removeLeased (makeIndexKey r.dept u id)).removeDeliveryLineageIndex env
        lineage).insertRow env id r') := by
  have hi := hs.liveIndexed hlive
  refine .ofLive hs ?_ (by simp) ((hi.leave_leased hu).appear hu') hm ?_
  · exact (((Touches.refl id s).removeLeased _ _).removeDeliveryLineageIndex _ _).insertRow _ _
  · intro _ hc
    rw [ready_eq_empty hlive hu hc, readyKeys_unleased hu', insert_empty_eq]

/-- The events of an `ack`. -/
def ackEvents (id : String) (applied : Bool) (after : Store) : String → List Event :=
  eventsAt id
    (if applied then [if (after.view id).live.isNone then .completed else .followedUp] else [])

theorem ack_effect (hs : s.Inv) {g : UInt64} {s' : Store} {applied : Bool}
    (h : s.ack env id g = (s', applied)) :
    Effect env (.ack id g) (ackEvents id applied s') True s s' := by
  have hstay : (s, false) = (s', applied) →
      Effect env (.ack id g) (ackEvents id applied s') True s s' := by
    rintro ⟨⟩
    exact (Effect.refl hs).congr fun j => by simp [ackEvents, eventsAt]
  unfold ack at h
  split at h
  · exact hstay h
  · rename_i r hlive
    split at h
    · rename_i hg
      subst hg
      split at h
      · exact hstay h
      · rename_i u hu
        split at h
        · rename_i f hf
          obtain ⟨rfl, rfl⟩ := Prod.mk.inj h
          have hf' : f.leaseUntilMs = none := by
            obtain ⟨_, _, rfl⟩ := prepareDirtyFollowUp_eq_some hf
            rfl
          refine (Effect.ofRow hs (release_effect hs hlive hu hf' r (.ackFollowUp hlive hu hf))).congr
            fun j => ?_
          simp [ackEvents, view_eq_slice]
        · rename_i hf
          obtain ⟨rfl, rfl⟩ := Prod.mk.inj h
          refine (Effect.ofRow (o := some .completed) hs (.ofLive hs ?_ (by simp)
            ((hs.liveIndexed hlive).leave_leased hu) (.ack hlive hu hf) ?_)).congr fun j => ?_
          · exact (((Touches.refl id s).removeLeased _ _).removeDeliveryLineageIndex _ _).removeDelivery
          · exact fun _ hc => (ready_eq_empty hlive hu hc).subset.trans (Set.empty_subset _)
          · simp [ackEvents, view_eq_slice]
    · exact hstay h

theorem deferLockBusy_effect (hs : s.Inv) {g : UInt64} {lock : String} {policy : RetryPolicy}
    {nowMs : UInt64} {s' : Store} {outcome : LockBusyDeferOutcome}
    (h : s.deferLockBusy env id g lock policy nowMs = (s', outcome)) :
    Effect env (.deferLockBusy id g lock policy nowMs) (fun _ => []) True s s' := by
  unfold deferLockBusy at h
  split at h
  · obtain ⟨rfl, _⟩ := Prod.mk.inj h
    exact .refl hs
  · rename_i r hlive
    split at h
    · obtain ⟨rfl, _⟩ := Prod.mk.inj h
      exact .refl hs
    · rename_i u hu
      split at h
      · rename_i hg
        subst hg
        obtain ⟨rfl, _⟩ := Prod.mk.inj h
        exact .quiet hs (release_effect hs hlive hu rfl r (.defer lock policy nowMs hlive hu))
      · obtain ⟨rfl, _⟩ := Prod.mk.inj h
        exact .refl hs

end Store

end Fkst.Delivery
