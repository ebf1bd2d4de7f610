import Fkst.Delivery.Refinement

/-!
# Leasing

The candidates of a lease were read in an earlier transaction, and the row of a candidate may have
been renewed, completed, rebound, dead-lettered or replaced since.  `lease_key` looks at the row
again before it grants anything.  This file shows what that check achieves: a lease moves
deliveries along their lives like every other operation, and `leaseMatching_spec` says which rows
it grants.
-/

set_option autoImplicit false

namespace Fkst.Delivery

open Lib

namespace Store

variable {env : Env} {s : Store} {id : String} {r : DeliveryRecord} {u : UInt64}

/-! ## A lease moves deliveries -/

/-- The events of a lease. -/
def leaseEvents (leased : List DeliveryRecord) (id : String) : List Event :=
  (leased.filter (·.deliveryId == id)).map fun r => .granted r.leaseGeneration

theorem leaseEvents_append (l l' : List DeliveryRecord) (id : String) :
    leaseEvents (l ++ l') id = leaseEvents l id ++ leaseEvents l' id := by
  simp [leaseEvents]

theorem leaseEvents_singleton {r : DeliveryRecord} (h : r.deliveryId = id) (j : String) :
    leaseEvents [r] j = eventsAt id [.granted r.leaseGeneration] j := by
  by_cases hj : j = id
  · subst hj
    simp [leaseEvents, h]
  · simp [leaseEvents, eventsAt_of_ne hj, h, Ne.symm hj]

theorem leaseDelivery_effect (hs : s.Inv) {nowMs : UInt64} {leaseDur : Duration} {s' : Store}
    {record : Option DeliveryRecord} (h : s.leaseDelivery id nowMs leaseDur = (s', record)) :
    Effect env (.leaseDelivery id nowMs leaseDur) (leaseEvents record.toList) True s s' := by
  unfold leaseDelivery at h
  dsimp only at h
  split at h
  · obtain ⟨rfl, rfl⟩ := Prod.mk.inj h
    exact .refl hs
  · rename_i r hlive
    split at h
    · obtain ⟨rfl, rfl⟩ := Prod.mk.inj h
      exact .refl hs
    · rename_i hnot
      simp only [Bool.or_eq_true, Option.isSome_iff_ne_none, decide_eq_true_eq, not_or,
        Decidable.not_not] at hnot
      obtain ⟨hu, hdue⟩ := hnot
      obtain ⟨rfl, rfl⟩ := Prod.mk.inj h
      have hdue : r.notBeforeMs ≤ nowMs := UInt64.not_lt.1 hdue
      refine (Effect.ofRow (o := some (.granted (saturatingAdd r.leaseGeneration 1))) hs
        (.ofLive hs ?_ (by simp; rfl)
          ((hs.liveIndexed hlive).lock hu rfl ((s.slice id).ready \ {(r.dept, r.notBeforeMs)}))
          (.grantNext nowMs leaseDur hlive (Or.inl ⟨hu, hdue⟩)) ?_)).congr fun j => ?_
      · exact (((Touches.refl id s).removeReady _ _).insertDelivery _).insertLeased _ _
      · intro _ hc
        have hl : (s.slice id).live = some r := hlive
        rw [hl, readyKeys_unleased hu, ← Set.sdiff_eq_empty] at hc
        exact hc.subset.trans (Set.empty_subset _)
      · exact leaseEvents_singleton (r := r.leased _) (hs.liveOk hlive).deliveryId j

/-- A lease transaction and the request its loops work with. -/
structure LeaseTxn where
  nowMs : UInt64
  batchLimit : ℕ
  leaseDur : Duration
  dept : Option String
  excluded : Std.ExtTreeSet String
  expiredKeys : List DueIndexKey
  readyKeys : List DueIndexKey

namespace LeaseTxn

variable (l : LeaseTxn)

def txn : Txn :=
  .lease l.nowMs l.batchLimit l.leaseDur l.dept l.excluded l.expiredKeys l.readyKeys

def request : LeaseRequest :=
  ⟨l.nowMs, saturatingAdd l.nowMs (durationMillis l.leaseDur), l.dept, l.excluded⟩

end LeaseTxn

/-- A key of the leased index is dropped. -/
theorem removeLeased_effect {t : Txn} {dept : String} {due : UInt64} (hs : s.Inv)
    (hi : LiveIndexed (s.slice id).live (s.slice id).ready
      ((s.slice id).leased \ {(dept, due)})) :
    Effect env t (fun _ => []) True s (s.removeLeased (makeIndexKey dept due id)) := by
  refine .ofKeys hs ((Touches.refl id s).removeLeased _ _) (by rw [slice_removeLeased]) ?_ ?_
  · rw [slice_removeLeased]
    exact ⟨hi, (hs.indexed id).dead⟩
  · rw [slice_removeLeased]
    exact fun _ hc => ⟨hc.ready, hc.deadDue⟩

/-- A key of the ready index is replaced. -/
theorem replaceReady_effect {t : Txn} {s' : Store} {R : Set (String × UInt64)} (hs : s.Inv)
    (ht : Touches id s s') (hσ : s'.slice id = { s.slice id with ready := R })
    (hi : LiveIndexed (s.slice id).live R (s.slice id).leased)
    (hc : (s.slice id).ready ⊆ readyKeys (s.slice id).live → R ⊆ readyKeys (s.slice id).live) :
    Effect env t (fun _ => []) True s s' := by
  refine .ofKeys hs ht (by rw [hσ]) ?_ ?_
  · rw [hσ]
    exact ⟨hi, (hs.indexed id).dead⟩
  · rw [hσ]
    exact fun _ h => ⟨hc h.ready, h.deadDue⟩

theorem dept_of_not_any {dept : Option String} {r : DeliveryRecord}
    (h : ¬ dept.any (r.dept != ·) = true) (wanted : String) (hw : dept = some wanted) :
    r.dept = wanted := by
  subst hw
  simpa using h

/-- A key of an expired lease. -/
theorem leaseKey_expired_effect (hs : s.Inv) (l : LeaseTxn) {key : DueIndexKey}
    (hwf : key.WellFormed) (hdue : key.dueMs ≤ l.nowMs) :
    Effect env l.txn (leaseEvents (s.leaseKey l.request true key).record.toList) True s
      (s.leaseKey l.request true key).store := by
  obtain ⟨kdept, hkey⟩ := hwf
  unfold leaseKey
  dsimp only
  rw [hkey]
  split
  · exact .refl hs
  · rename_i hexcluded
    split
    · rename_i hlive
      rw [if_pos rfl]
      exact removeLeased_effect hs
        (slice_live hlive ▸ (hs.liveIndexed_none hlive).drop_none Set.sdiff_subset)
    · rename_i r hlive
      have hi := hs.liveIndexed hlive
      split
      · exact .refl hs
      · rename_i hdept
        rw [if_pos rfl]
        split
        · rename_i hu
          exact removeLeased_effect hs (slice_live hlive ▸ hi.drop_leased hu)
        · rename_i hu
          have hu := Decidable.not_not.1 hu
          have hrow : RowEffect env l.txn key.deliveryId
              (some (.granted (saturatingAdd r.leaseGeneration 1))) True s
              ((s.removeLeased (makeIndexKey kdept key.dueMs key.deliveryId)).grantRow
                key.deliveryId r l.request.leaseUntil) := by
            refine .ofLive hs ?_ (by simp [grantRow, hu]; exact ⟨rfl, rfl⟩)
              (hi.relock hu rfl Set.sdiff_subset)
              (.grant l.nowMs l.batchLimit l.leaseDur l.dept l.excluded l.expiredKeys l.readyKeys
                hlive (Or.inr ⟨_, hu, hdue⟩) (dept_of_not_any hdept) hexcluded) ?_
            · unfold grantRow
              simp only [hu]
              exact ((((Touches.refl _ s).removeLeased _ _).removeLeased _ _).insertDelivery
                _).insertLeased _ _
            · exact fun _ hc => (ready_eq_empty hlive hu hc).subset.trans (Set.empty_subset _)
          exact (Effect.ofRow hs hrow).congr
            (leaseEvents_singleton (r := r.leased _) (hs.liveOk hlive).deliveryId)

/-- A key of a ready delivery.  A key that is no longer that of the row may leave the row's key
behind. -/
theorem leaseKey_ready_effect (hs : s.Inv) (l : LeaseTxn) {key : DueIndexKey}
    (hwf : key.WellFormed) :
    Effect env l.txn (leaseEvents (s.leaseKey l.request false key).record.toList)
      (key.key ∈ s.readyByDeptDue) s (s.leaseKey l.request false key).store := by
  obtain ⟨kdept, hkey⟩ := hwf
  unfold leaseKey
  dsimp only
  rw [hkey]
  split
  · exact .refl hs
  · rename_i hexcluded
    split
    · rename_i hlive
      rw [if_neg (by simp)]
      exact (replaceReady_effect hs ((Touches.refl _ s).removeReady _ _) (slice_removeReady _ _ _ _)
        (slice_live hlive ▸ (hs.liveIndexed_none hlive).drop_none subset_rfl)
        (fun hc => Set.sdiff_subset.trans hc)).mono fun _ => trivial
    · rename_i r hlive
      have hi := hs.liveIndexed hlive
      split
      · exact .refl hs
      · rename_i hdept
        rw [if_neg (by simp)]
        split
        · rename_i hu
          obtain ⟨u, hu⟩ := Option.isSome_iff_exists.1 hu
          exact (replaceReady_effect hs ((Touches.refl _ s).removeReady _ _)
            (slice_removeReady _ _ _ _) (slice_live hlive ▸ hi.drop_ready hu _)
            (fun hc => Set.sdiff_subset.trans hc)).mono fun _ => trivial
        · rename_i hu
          have hu : r.leaseUntilMs = none := by simpa using hu
          split
          · refine (replaceReady_effect hs (((Touches.refl _ s).removeReady _ _).insertReady _ _)
              (by simp) (slice_live hlive ▸ hi.replace_ready hu (kdept, key.dueMs))
              (fun hc => ?_)).mono fun _ => trivial
            refine Set.insert_subset ?_ (Set.sdiff_subset.trans hc)
            rw [slice_live hlive, readyKeys_unleased hu]
            rfl
          · rename_i hnow
            have hrow : RowEffect env l.txn key.deliveryId
                (some (.granted (saturatingAdd r.leaseGeneration 1)))
                (makeIndexKey kdept key.dueMs key.deliveryId ∈ s.readyByDeptDue) s
                ((s.removeReady (makeIndexKey kdept key.dueMs key.deliveryId)).grantRow
                  key.deliveryId r l.request.leaseUntil) := by
              refine .ofLive hs ?_ (by simp [grantRow, hu]; exact ⟨rfl, rfl⟩)
                (hi.lock hu rfl ((s.slice key.deliveryId).ready \ {(kdept, key.dueMs)}))
                (.grant l.nowMs l.batchLimit l.leaseDur l.dept l.excluded l.expiredKeys l.readyKeys
                  hlive (Or.inl ⟨hu, UInt64.not_lt.1 hnow⟩) (dept_of_not_any hdept) hexcluded) ?_
              · unfold grantRow
                simp only [hu]
                exact (((Touches.refl _ s).removeReady _ _).insertDelivery _).insertLeased _ _
              · intro hfresh hc
                rw [slice_live hlive, readyKeys_unleased hu] at hc
                have hmem : (kdept, key.dueMs) ∈ (s.slice key.deliveryId).ready := hfresh
                rw [Set.mem_singleton_iff.1 (hc hmem), Set.sdiff_eq_empty.2 hc]
                exact Set.empty_subset _
            exact (Effect.ofRow hs hrow).congr
              (leaseEvents_singleton (r := r.leased _) (hs.liveOk hlive).deliveryId)

theorem Touches.grantRow {s' : Store} (h : Touches id s s') (record : DeliveryRecord)
    (leaseUntil : UInt64) : Touches id s (s'.grantRow id record leaseUntil) := by
  unfold Store.grantRow
  dsimp only
  split
  · exact ((h.removeLeased _ _).insertDelivery _).insertLeased _ _
  · exact (h.insertDelivery _).insertLeased _ _

/-- Dealing with a key touches the delivery it names. -/
theorem leaseKey_touches {key : DueIndexKey} (hwf : key.WellFormed) (s : Store)
    (req : LeaseRequest) (fromExpiredLease : Bool) :
    Touches key.deliveryId s (s.leaseKey req fromExpiredLease key).store := by
  obtain ⟨kdept, hkey⟩ := hwf
  have hleased := (Touches.refl key.deliveryId s).removeLeased kdept key.dueMs
  have hready := (Touches.refl key.deliveryId s).removeReady kdept key.dueMs
  unfold leaseKey
  dsimp only
  rw [hkey]
  split
  · exact .refl _ _
  · split
    · split
      · exact hleased
      · exact hready
    · split
      · exact .refl _ _
      · split
        · split
          · exact hleased
          · exact hleased.grantRow _ _
        · split
          · exact hready
          · split
            · exact hready.insertReady _ _
            · exact hready.grantRow _ _

/-- The loop over the keys of expired leases. -/
theorem leaseKeys_expired_effect (l : LeaseTxn) (limit : ℕ) :
    ∀ (keys : List DueIndexKey) (loop : LeaseLoop), loop.store.Inv →
      (∀ k ∈ keys, k.WellFormed ∧ k.dueMs ≤ l.nowMs) →
      ∃ evs, Effect env l.txn evs True loop.store
          (leaseKeys l.request true limit keys loop).store ∧
        ∀ j, leaseEvents (leaseKeys l.request true limit keys loop).leased j =
          leaseEvents loop.leased j ++ evs j
  | [], loop, hs, _ => ⟨fun _ => [], .refl hs, by simp [leaseKeys]⟩
  | key :: keys, loop, hs, hkeys => by
    rw [leaseKeys]
    split
    · exact ⟨fun _ => [], .refl hs, by simp⟩
    · obtain ⟨hwf, hdue⟩ := hkeys key (by simp)
      have heff : Effect env l.txn _ True loop.store _ := leaseKey_expired_effect hs l hwf hdue
      obtain ⟨evs, heff', hevs⟩ := leaseKeys_expired_effect l limit keys
        (loop.after (loop.store.leaseKey l.request true key)) heff.inv (fun k hk => hkeys k (by simp [hk]))
      refine ⟨_, (heff.trans heff').mono (by simp), fun j => ?_⟩
      rw [hevs, LeaseLoop.after, leaseEvents_append, List.append_assoc]

/-- The loop over the keys of ready deliveries. -/
theorem leaseKeys_ready_effect (l : LeaseTxn) (limit : ℕ) :
    ∀ (keys : List DueIndexKey) (loop : LeaseLoop), loop.store.Inv →
      (∀ k ∈ keys, k.WellFormed) →
      ∃ evs, Effect env l.txn evs ((∀ k ∈ keys, k.key ∈ loop.store.readyByDeptDue) ∧
            keys.Pairwise (fun k k' => k.deliveryId ≠ k'.deliveryId)) loop.store
          (leaseKeys l.request false limit keys loop).store ∧
        ∀ j, leaseEvents (leaseKeys l.request false limit keys loop).leased j =
          leaseEvents loop.leased j ++ evs j
  | [], loop, hs, _ => ⟨fun _ => [], .refl hs, by simp [leaseKeys]⟩
  | key :: keys, loop, hs, hkeys => by
    rw [leaseKeys]
    split
    · exact ⟨fun _ => [], .refl hs, by simp⟩
    · have hwf := hkeys key (by simp)
      have heff : Effect env l.txn _ _ loop.store _ := leaseKey_ready_effect hs l hwf
      obtain ⟨evs, heff', hevs⟩ := leaseKeys_ready_effect l limit keys
        (loop.after (loop.store.leaseKey l.request false key)) heff.inv (fun k hk => hkeys k (by simp [hk]))
      refine ⟨_, (heff.trans heff').mono ?_, fun j => ?_⟩
      · rintro ⟨hmem, hne⟩
        rw [List.pairwise_cons] at hne
        refine ⟨hmem key (by simp), fun k hk => ?_, hne.2⟩
        -- the next keys are of other deliveries, whose slices are as they were
        obtain ⟨kdept, hk'⟩ := hkeys k (by simp [hk])
        have hin := hmem k (by simp [hk])
        have hframe := (leaseKey_touches hwf loop.store l.request false).frame hs.wellFormed
          k.deliveryId (hne.1 k hk).symm
        rw [hk'] at hin ⊢
        have hin : (kdept, k.dueMs) ∈ (loop.store.slice k.deliveryId).ready := hin
        rw [← hframe] at hin
        exact hin
      · rw [hevs, LeaseLoop.after, leaseEvents_append, List.append_assoc]

theorem leaseKey_expired_ready (s : Store) (req : LeaseRequest) (key : DueIndexKey) :
    (s.leaseKey req true key).store.readyByDeptDue = s.readyByDeptDue := by
  simp only [leaseKey, grantRow, if_true]
  repeat' split
  all_goals rfl

theorem leaseKeys_expired_ready (req : LeaseRequest) (limit : ℕ) :
    ∀ (keys : List DueIndexKey) (loop : LeaseLoop),
      (leaseKeys req true limit keys loop).store.readyByDeptDue = loop.store.readyByDeptDue
  | [], _ => rfl
  | key :: keys, loop => by
    rw [leaseKeys]
    split
    · rfl
    · rw [leaseKeys_expired_ready, LeaseLoop.after, leaseKey_expired_ready]

/-- A key that leaves the tables alone grants nothing. -/
theorem leaseKey_not_mutated {s : Store} {req : LeaseRequest} {b : Bool} {key : DueIndexKey}
    (h : (s.leaseKey req b key).mutated = false) : (s.leaseKey req b key).record = none := by
  unfold leaseKey at h ⊢
  dsimp only at h ⊢
  repeat' split
  all_goals simp_all

theorem leaseKeys_not_mutated (req : LeaseRequest) (b : Bool) (limit : ℕ) :
    ∀ {keys : List DueIndexKey} {loop : LeaseLoop},
      (leaseKeys req b limit keys loop).mutated = false →
      (leaseKeys req b limit keys loop).leased = loop.leased ∧ loop.mutated = false
  | [], _, h => ⟨rfl, h⟩
  | key :: keys, loop, h => by
    rw [leaseKeys] at h ⊢
    split
    · rename_i hlimit
      rw [if_pos hlimit] at h
      exact ⟨rfl, h⟩
    · rename_i hlimit
      rw [if_neg hlimit] at h
      obtain ⟨h1, h2⟩ := leaseKeys_not_mutated req b limit h
      obtain ⟨h3, h4⟩ := Bool.or_eq_false_iff.1 h2
      rw [h1, LeaseLoop.after, leaseKey_not_mutated h4]
      exact ⟨by simp, h3⟩

/-- **A lease grants rows that are due, and only touches their keys.** -/
theorem lease_effect (hs : s.Inv) (l : LeaseTxn) {s' : Store} {leased : List DeliveryRecord}
    (hexpired : ∀ k ∈ l.expiredKeys, k.WellFormed ∧ k.dueMs ≤ l.nowMs)
    (hready : ∀ k ∈ l.readyKeys, k.WellFormed)
    (h : s.leaseMatching l.nowMs l.batchLimit l.leaseDur l.dept l.excluded l.expiredKeys
      l.readyKeys = (s', leased)) :
    Effect env l.txn (leaseEvents leased) ((∀ k ∈ l.readyKeys, k.key ∈ s.readyByDeptDue) ∧
      l.readyKeys.Pairwise (fun k k' => k.deliveryId ≠ k'.deliveryId)) s s' := by
  obtain ⟨evs, heff, hevs⟩ := leaseKeys_expired_effect l (expiredLeaseQuota l.batchLimit)
    l.expiredKeys ⟨s, [], false⟩ hs hexpired
  obtain ⟨evs', heff', hevs'⟩ := leaseKeys_ready_effect l l.batchLimit l.readyKeys _ heff.inv hready
  have hready1 := leaseKeys_expired_ready l.request (expiredLeaseQuota l.batchLimit) l.expiredKeys
    ⟨s, [], false⟩
  have htotal : Effect env l.txn _ _ s _ := heff.trans heff'
  rw [leaseMatching] at h
  split at h
  · rename_i hnot
    obtain ⟨rfl, rfl⟩ := Prod.mk.inj h
    obtain ⟨h1, h2⟩ := leaseKeys_not_mutated _ _ _ (by simpa using hnot)
    obtain ⟨h3, _⟩ := leaseKeys_not_mutated _ _ _ h2
    exact (Effect.refl hs).congr fun j => by rw [h1, h3]; rfl
  · obtain ⟨rfl, rfl⟩ := Prod.mk.inj h
    refine (htotal.mono fun hf => ⟨trivial, fun k hk => ?_, hf.2⟩).congr fun j => ?_
    · rw [hready1]
      exact hf.1 k hk
    · exact (hevs' j).trans (by rw [hevs]; rfl)

/-! ## What a lease grants -/

/-- The row behind a candidate, found in a state in which a lease may be granted on it. -/
structure Grantable (s : Store) (req : LeaseRequest) (id : String) (row : DeliveryRecord) :
    Prop where
  live : s.deliveryById[id]? = some row
  leaseable : row.Leaseable req.nowMs
  dept : ∀ wanted, req.dept = some wanted → row.dept = wanted
  excluded : id ∉ req.excluded

/-- Dealing with a candidate grants nothing and leaves the rows alone, or it grants the row of the
candidate; one that came from the ready index was not leased. -/
theorem leaseKey_cases (s : Store) (req : LeaseRequest) (fromExpiredLease : Bool)
    {key : DueIndexKey} (hdue : fromExpiredLease = true → key.dueMs ≤ req.nowMs) :
    ((s.leaseKey req fromExpiredLease key).record = none ∧
        (s.leaseKey req fromExpiredLease key).store.deliveryById = s.deliveryById) ∨
      ∃ row, Grantable s req key.deliveryId row ∧
        (fromExpiredLease = false → row.leaseUntilMs = none) ∧
        (s.leaseKey req fromExpiredLease key).record = some (row.leased req.leaseUntil) ∧
        (s.leaseKey req fromExpiredLease key).store.deliveryById =
          s.deliveryById.insert key.deliveryId (row.leased req.leaseUntil) := by
  have hrows : ∀ (s : Store) (row : DeliveryRecord),
      (s.grantRow key.deliveryId row req.leaseUntil).deliveryById =
        s.deliveryById.insert key.deliveryId (row.leased req.leaseUntil) := by
    intro s row
    unfold grantRow
    dsimp only
    split <;> rfl
  unfold leaseKey
  dsimp only
  split
  · exact Or.inl ⟨rfl, rfl⟩
  · rename_i hexcluded
    split
    · exact Or.inl ⟨rfl, by split <;> rfl⟩
    · rename_i row hrow
      split
      · exact Or.inl ⟨rfl, rfl⟩
      · rename_i hdept
        have hdept := dept_of_not_any hdept
        have hexcluded : key.deliveryId ∉ req.excluded := by simpa using hexcluded
        cases fromExpiredLease with
        | true =>
          simp only [if_true]
          split
          · exact Or.inl ⟨rfl, rfl⟩
          · rename_i hlease
            have hlease := Decidable.not_not.1 hlease
            exact Or.inr ⟨row, ⟨hrow, Or.inr ⟨_, hlease, hdue rfl⟩, hdept, hexcluded⟩,
              (fun h => by cases h), rfl, hrows _ _⟩
        | false =>
          simp only [Bool.false_eq_true, if_false]
          split
          · exact Or.inl ⟨rfl, rfl⟩
          · rename_i hlease
            have hlease : row.leaseUntilMs = none := by simpa using hlease
            split
            · exact Or.inl ⟨rfl, rfl⟩
            · rename_i hnow
              exact Or.inr ⟨row, ⟨hrow, Or.inl ⟨hlease, UInt64.not_lt.1 hnow⟩, hdept, hexcluded⟩,
                fun _ => hlease, rfl, hrows _ _⟩

/-- What the loops of a lease have granted so far: the rows of different deliveries, each as it was
found at first; the other rows are still as they were found. -/
structure LeaseLoop.Granted (loop : LeaseLoop) (s : Store) (req : LeaseRequest) : Prop where
  ids : (loop.leased.map DeliveryRecord.deliveryId).Nodup
  rows : ∀ r ∈ loop.leased, loop.store.deliveryById[r.deliveryId]? = some r ∧
    r.leaseUntilMs = some req.leaseUntil ∧
    ∃ row, Grantable s req r.deliveryId row ∧ r = row.leased req.leaseUntil
  others : ∀ id, id ∉ loop.leased.map DeliveryRecord.deliveryId →
    loop.store.deliveryById[id]? = s.deliveryById[id]?

theorem LeaseLoop.Granted.start (s : Store) (req : LeaseRequest) (mutated : Bool) :
    LeaseLoop.Granted ⟨s, [], mutated⟩ s req :=
  ⟨by simp, by simp, fun _ _ => rfl⟩

/-- A candidate is dealt with; if it came from the leased index, its delivery was not granted
before. -/
theorem LeaseLoop.Granted.after {loop : LeaseLoop} {req : LeaseRequest} (hs : s.Inv)
    (h : loop.Granted s req) {b : Bool} {key : DueIndexKey}
    (hdue : b = true → key.dueMs ≤ req.nowMs)
    (hnew : b = true → key.deliveryId ∉ loop.leased.map DeliveryRecord.deliveryId) :
    (loop.after (loop.store.leaseKey req b key)).Granted s req := by
  rcases leaseKey_cases loop.store req b hdue with ⟨hnone, hrows⟩ | ⟨row, hg, hready, hrec, hrows⟩
  · refine ⟨?_, ?_, ?_⟩
    · simpa [LeaseLoop.after, hnone] using h.ids
    · simpa [LeaseLoop.after, hnone, hrows] using h.rows
    · simpa [LeaseLoop.after, hnone, hrows] using h.others
  · have hfresh : key.deliveryId ∉ loop.leased.map DeliveryRecord.deliveryId := by
      cases b with
      | true => exact hnew rfl
      | false =>
        intro hmem
        obtain ⟨r, hr, hid⟩ := List.mem_map.1 hmem
        obtain ⟨hr1, hr2, _⟩ := h.rows r hr
        rw [hid, hg.live] at hr1
        obtain rfl := Option.some.inj hr1
        rw [hready rfl] at hr2
        cases hr2
    have hold : s.deliveryById[key.deliveryId]? = some row :=
      (h.others _ hfresh).symm.trans hg.live
    have hid : row.deliveryId = key.deliveryId := (hs.liveOk hold).deliveryId
    have hid' : (row.leased req.leaseUntil).deliveryId = key.deliveryId := hid
    refine ⟨?_, ?_, ?_⟩
    · simp only [LeaseLoop.after, hrec, Option.toList_some, List.map_append, List.map_cons,
        List.map_nil, hid']
      exact List.nodup_append.2 ⟨h.ids, by simp, by
        intro a ha b hb
        obtain rfl := List.mem_singleton.1 hb
        exact fun hab => hfresh (hab ▸ ha)⟩
    · intro r hr
      simp only [LeaseLoop.after, hrec, hrows, Option.toList_some, List.mem_append,
        List.mem_singleton] at hr ⊢
      rcases hr with hr | rfl
      · obtain ⟨h1, h2, h3⟩ := h.rows r hr
        have hne : r.deliveryId ≠ key.deliveryId := fun he =>
          hfresh (he ▸ List.mem_map_of_mem hr)
        exact ⟨by rw [Table.get_insert, if_neg hne]; exact h1, h2, h3⟩
      · rw [hid', Table.get_insert, if_pos rfl]
        exact ⟨rfl, rfl, row, ⟨hold, hg.leaseable, hg.dept, hg.excluded⟩, rfl⟩
    · intro id hnot
      simp only [LeaseLoop.after, hrec, hrows, Option.toList_some, List.map_append, List.map_cons,
        List.map_nil, hid', List.mem_append, List.mem_singleton, not_or] at hnot ⊢
      rw [Table.get_insert, if_neg hnot.2]
      exact h.others id hnot.1

theorem leaseKeys_granted {req : LeaseRequest} (hs : s.Inv) (b : Bool) (limit : ℕ) :
    ∀ {keys : List DueIndexKey} {loop : LeaseLoop}, loop.Granted s req →
      (b = true → ∀ k ∈ keys, k.dueMs ≤ req.nowMs) →
      (b = true → keys.Pairwise (fun k k' => k.deliveryId ≠ k'.deliveryId)) →
      (b = true → ∀ k ∈ keys, k.deliveryId ∉ loop.leased.map DeliveryRecord.deliveryId) →
      (leaseKeys req b limit keys loop).Granted s req
  | [], loop, h, _, _, _ => h
  | key :: keys, loop, h, hdue, hne, hnew => by
    rw [leaseKeys]
    split
    · exact h
    · refine leaseKeys_granted hs b limit
        (h.after hs (fun hb => hdue hb key (by simp)) fun hb => hnew hb key (by simp))
        (fun hb k hk => hdue hb k (by simp [hk])) (fun hb => (List.pairwise_cons.1 (hne hb)).2) ?_
      intro hb k hk
      have hother := (List.pairwise_cons.1 (hne hb)).1 k hk
      rcases leaseKey_cases loop.store req b (fun hb => hdue hb key (by simp)) with
        ⟨hnone, _⟩ | ⟨row, hg, _, hrec, _⟩
      · simpa [LeaseLoop.after, hnone] using hnew hb k (by simp [hk])
      · have hfresh := hnew hb key (by simp)
        have hid : row.deliveryId = key.deliveryId :=
          (hs.liveOk ((h.others _ hfresh).symm.trans hg.live)).deliveryId
        have hid' : (row.leased req.leaseUntil).deliveryId = key.deliveryId := hid
        simp only [LeaseLoop.after, hrec, Option.toList_some, List.map_append, List.map_cons,
          List.map_nil, hid', List.mem_append, List.mem_singleton, not_or]
        exact ⟨hnew hb k (by simp [hk]), hother.symm⟩

theorem leaseKeys_length (req : LeaseRequest) (b : Bool) (limit : ℕ) :
    ∀ {keys : List DueIndexKey} {loop : LeaseLoop}, loop.leased.length ≤ limit →
      (leaseKeys req b limit keys loop).leased.length ≤ limit
  | [], loop, h => h
  | key :: keys, loop, h => by
    rw [leaseKeys]
    split
    · exact h
    · rename_i hroom
      refine leaseKeys_length req b limit ?_
      have hone : (loop.store.leaseKey req b key).record.toList.length ≤ 1 := by
        cases (loop.store.leaseKey req b key).record <;> simp
      simp only [LeaseLoop.after, List.length_append]
      omega

theorem expiredLeaseQuota_le (batchLimit : ℕ) : expiredLeaseQuota batchLimit ≤ batchLimit := by
  unfold expiredLeaseQuota
  split <;> omega

/-- **What a lease grants**, whatever became of the rows since their keys were read: at most as many
as asked for, no delivery twice, and only rows on which a lease may be granted. -/
theorem leaseMatching_spec (hs : s.Inv) (l : LeaseTxn) {s' : Store} {leased : List DeliveryRecord}
    (hexpired : ∀ k ∈ l.expiredKeys, k.dueMs ≤ l.nowMs)
    (hne : l.expiredKeys.Pairwise (fun k k' => k.deliveryId ≠ k'.deliveryId))
    (h : s.leaseMatching l.nowMs l.batchLimit l.leaseDur l.dept l.excluded l.expiredKeys
      l.readyKeys = (s', leased)) :
    leased.length ≤ l.batchLimit ∧ (leased.map DeliveryRecord.deliveryId).Nodup ∧
      ∀ r ∈ leased, s'.deliveryById[r.deliveryId]? = some r ∧
        ∃ row, Grantable s l.request r.deliveryId row ∧ r = row.leased l.request.leaseUntil := by
  set first := leaseKeys l.request true (expiredLeaseQuota l.batchLimit) l.expiredKeys
    ⟨s, [], false⟩
  have hgranted : first.Granted s l.request :=
    leaseKeys_granted hs true _ (.start s _ _) (fun _ => hexpired) (fun _ => hne) (by simp)
  have hlength : first.leased.length ≤ l.batchLimit :=
    (leaseKeys_length l.request true _ (Nat.zero_le _)).trans (expiredLeaseQuota_le l.batchLimit)
  have hlast : (leaseKeys l.request false l.batchLimit l.readyKeys first).Granted s l.request :=
    leaseKeys_granted hs false _ hgranted (fun hb => by cases hb) (fun hb => by cases hb)
      (fun hb => by cases hb)
  unfold leaseMatching at h
  dsimp only at h
  split at h
  · -- nothing was written, so nothing was granted
    rename_i hnot
    rw [Bool.not_eq_true'] at hnot
    obtain ⟨hsame, hnot'⟩ := leaseKeys_not_mutated _ _ _ hnot
    obtain ⟨hsame', _⟩ := leaseKeys_not_mutated _ _ _ hnot'
    obtain ⟨_, rfl⟩ := Prod.mk.inj h
    rw [hsame, hsame']
    simp
  · obtain ⟨rfl, rfl⟩ := Prod.mk.inj h
    refine ⟨leaseKeys_length l.request false _ hlength, hlast.ids, fun r hr => ?_⟩
    exact ⟨(hlast.rows r hr).1, (hlast.rows r hr).2.2⟩

/-- What `lease_delivery` grants. -/
theorem leaseDelivery_spec {nowMs : UInt64} {leaseDur : Duration} {s' : Store}
    (h : s.leaseDelivery id nowMs leaseDur = (s', some r)) :
    s'.deliveryById[id]? = some r ∧ ∃ row, s.deliveryById[id]? = some row ∧
      row.leaseUntilMs = none ∧ row.notBeforeMs ≤ nowMs ∧
      r = row.leased (saturatingAdd nowMs (durationMillis leaseDur)) := by
  unfold leaseDelivery at h
  dsimp only at h
  split at h
  · cases h
  · rename_i row hrow
    split at h
    · cases h
    · rename_i hnot
      simp only [Bool.or_eq_true, Option.isSome_iff_ne_none, decide_eq_true_eq, not_or,
        Decidable.not_not] at hnot
      obtain ⟨rfl, hr⟩ := Prod.mk.inj h
      obtain rfl := Option.some.inj hr
      exact ⟨Std.ExtTreeMap.getElem?_insert_self, row, hrow, hnot.1, UInt64.not_lt.1 hnot.2, rfl⟩

/-! ## Room for everyone -/

/-- A candidate whose row is in a state in which a lease may be granted on it is granted. -/
theorem leaseKey_grants {req : LeaseRequest} {b : Bool} {key : DueIndexKey} {row : DeliveryRecord}
    (hrow : s.deliveryById[key.deliveryId]? = some row) (hexcluded : key.deliveryId ∉ req.excluded)
    (hdept : ∀ wanted, req.dept = some wanted → row.dept = wanted)
    (hexpired : b = true → row.leaseUntilMs = some key.dueMs)
    (hready : b = false → row.leaseUntilMs = none ∧ row.notBeforeMs ≤ req.nowMs) :
    (s.leaseKey req b key).record = some (row.leased req.leaseUntil) := by
  have hdept : ¬ req.dept.any (row.dept != ·) = true := by
    cases hd : req.dept with
    | none => simp
    | some wanted => simp [hdept wanted hd]
  have hexcluded : ¬ req.excluded.contains key.deliveryId = true := by simpa using hexcluded
  unfold leaseKey
  simp only [hrow, if_neg hexcluded, if_neg hdept]
  cases b with
  | true => simp [hexpired rfl]
  | false =>
    obtain ⟨hnone, hdue⟩ := hready rfl
    simp [hnone, UInt64.not_lt.2 hdue]

theorem leaseKeys_grows (req : LeaseRequest) (b : Bool) (limit : ℕ) :
    ∀ {keys : List DueIndexKey} {loop : LeaseLoop} {r : DeliveryRecord}, r ∈ loop.leased →
      r ∈ (leaseKeys req b limit keys loop).leased
  | [], _, _, h => h
  | key :: keys, loop, r, h => by
    rw [leaseKeys]
    split
    · exact h
    · exact leaseKeys_grows req b limit (by simp [LeaseLoop.after, h])

/-- A loop that has room for all its candidates grants those it can. -/
theorem leaseKeys_reaches {req : LeaseRequest} {b : Bool} {limit : ℕ} {row : DeliveryRecord}
    (hid : row.deliveryId = id) (hexcluded : id ∉ req.excluded)
    (hdept : ∀ wanted, req.dept = some wanted → row.dept = wanted)
    (hready : b = false → row.leaseUntilMs = none ∧ row.notBeforeMs ≤ req.nowMs)
    {key : DueIndexKey} (hkey : key.deliveryId = id)
    (hexpired : b = true → row.leaseUntilMs = some key.dueMs) :
    ∀ {keys : List DueIndexKey} {loop : LeaseLoop}, loop.leased.length + keys.length ≤ limit →
      (b = true → ∀ k ∈ keys, k.dueMs ≤ req.nowMs) → key ∈ keys →
      loop.store.deliveryById[id]? = some row →
      ∃ r ∈ (leaseKeys req b limit keys loop).leased, r.deliveryId = id
  | [], _, _, _, hmem, _ => by cases hmem
  | k :: keys, loop, hroom, hdue, hmem, hrow => by
    rw [List.length_cons] at hroom
    have hone : (loop.store.leaseKey req b k).record.toList.length ≤ 1 := by
      cases (loop.store.leaseKey req b k).record <;> simp
    have hdone : k.deliveryId = id →
        (loop.store.leaseKey req b k).record = some (row.leased req.leaseUntil) →
        ∃ r ∈ (leaseKeys req b limit keys
          (loop.after (loop.store.leaseKey req b k))).leased, r.deliveryId = id := by
      intro _ hrec
      exact ⟨row.leased req.leaseUntil, leaseKeys_grows req b limit
        (by simp [LeaseLoop.after, hrec]), hid⟩
    rw [leaseKeys, if_neg (by omega)]
    by_cases hk : k = key
    · subst hk
      exact hdone hkey (leaseKey_grants (by rwa [hkey]) (by rwa [hkey]) hdept hexpired hready)
    · have hmem : key ∈ keys := (List.mem_cons.1 hmem).resolve_left (Ne.symm hk)
      have hnext : loop.store.deliveryById[id]? = (loop.store.leaseKey req b k).store.deliveryById[id]? →
          ∃ r ∈ (leaseKeys req b limit keys
            (loop.after (loop.store.leaseKey req b k))).leased, r.deliveryId = id := by
        intro hsame
        refine leaseKeys_reaches hid hexcluded hdept hready hkey hexpired ?_
          (fun hb k hk => hdue hb k (by simp [hk])) hmem (hsame ▸ hrow)
        simp only [LeaseLoop.after, List.length_append]
        omega
      rcases leaseKey_cases loop.store req b (fun hb => hdue hb k (by simp)) with
        ⟨_, hrows⟩ | ⟨row', hg, _, hrec, hrows⟩
      · exact hnext (by rw [hrows])
      · by_cases hkid : k.deliveryId = id
        · obtain rfl := Option.some.inj ((hkid ▸ hg.live).symm.trans hrow)
          exact hdone hkid hrec
        · exact hnext (by rw [hrows, Table.get_insert, if_neg (Ne.symm hkid)])

theorem expiredLeaseQuota_half {n batchLimit : ℕ} (h : 2 * n + 2 ≤ batchLimit) :
    n ≤ expiredLeaseQuota batchLimit ∧ expiredLeaseQuota batchLimit + n ≤ batchLimit := by
  unfold expiredLeaseQuota
  split
  · omega
  · omega

end Store

end Fkst.Delivery
