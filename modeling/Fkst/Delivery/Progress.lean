import Fkst.Delivery.Indexes

/-!
# A lease makes progress

A lease skips the deliveries that its department excludes, because they are running.  It looks at the
first keys of two indexes: at a quota of those whose lease has run out, and at a budget of those that
are ready, which leaves room for the excluded ones.  The quota leaves no such room.

`lease_progress_iff` says when a lease grants something although it could: some delivery that it may
grant is among the keys it looks at.  That is so when a delivery is ready, as long as the index holds no
leftovers (`unhidden_of_ready`); an expired lease may hide behind excluded ones.
-/

set_option autoImplicit false

namespace Fkst.Delivery

open Lib

namespace Store

/-! ## A lease for a department -/

/-- `lease_for_dept_excluding`, with nothing happening between its two transactions. -/
def leaseForDeptExcluding (s : Store) (dept : String) (nowMs : UInt64) (batchLimit : ℕ)
    (leaseDur : Duration) (excluded : Std.ExtTreeSet String) :
    Except StoreError (Store × List DeliveryRecord) :=
  if batchLimit = 0 then .ok (s, [])
  else do
    let (expiredKeys, readyKeys) ← s.collectLeaseableKeys nowMs batchLimit (some dept) excluded
    if expiredKeys.isEmpty && readyKeys.isEmpty then return (s, [])
    else return s.leaseMatching nowMs batchLimit leaseDur (some dept) excluded expiredKeys readyKeys

/-- The live row of a delivery on which a lease may be granted. -/
structure Eligible (s : Store) (dept : String) (nowMs : UInt64) (excluded : Std.ExtTreeSet String)
    (id : String) (row : DeliveryRecord) : Prop where
  live : s.deliveryById[id]? = some row
  dept : row.dept = dept
  excluded : id ∉ excluded
  due : (row.leaseUntilMs = none ∧ row.notBeforeMs ≤ nowMs) ∨
    ∃ leaseUntil, row.leaseUntilMs = some leaseUntil ∧ leaseUntil ≤ nowMs

/-- The keys of an index that are due, in their order. -/
def dueKeys (table : Table String Unit) (dept : String) (nowMs : UInt64) : List String :=
  (Table.range table (dueRangeStart dept) (dueRangeStop dept nowMs)).map Prod.fst

/-- One of the first keys that are due is a key of the delivery. -/
def Reached (table : Table String Unit) (dept : String) (nowMs : UInt64) (n : ℕ) (id : String) : Prop :=
  ∃ dueMs, makeIndexKey dept dueMs id ∈ (dueKeys table dept nowMs).take n

/-- A delivery on which a lease may be granted is among those that the lease looks at: among the first
whose lease has run out, or among the first that are ready. -/
def Unhidden (s : Store) (dept : String) (nowMs : UInt64) (batchLimit : ℕ)
    (excluded : Std.ExtTreeSet String) : Prop :=
  ∃ id row, s.Eligible dept nowMs excluded id row ∧
    ((row.leaseUntilMs ≠ none ∧
        Reached s.leasedByDeptUntil dept nowMs (expiredLeaseQuota batchLimit) id) ∨
      (row.leaseUntilMs = none ∧
        Reached s.readyByDeptDue dept nowMs (scanBudget batchLimit excluded.size) id))

/-- The lease grants something if it may, and does not grant too many that had a lease before. -/
def MakesProgress (s : Store) (dept : String) (nowMs : UInt64) (batchLimit : ℕ) (leaseDur : Duration)
    (excluded : Std.ExtTreeSet String) : Prop :=
  ∃ s' leased, s.leaseForDeptExcluding dept nowMs batchLimit leaseDur excluded = .ok (s', leased) ∧
    ((∃ id row, s.Eligible dept nowMs excluded id row) → leased ≠ []) ∧
    (leased.filter fun r => (s.deliveryById[r.deliveryId]?).any (·.leaseUntilMs.isSome)).length ≤
      max 1 (batchLimit / 2)

variable {s : Store} {dept : String} {nowMs : UInt64} {batchLimit : ℕ} {leaseDur : Duration}
  {excluded : Std.ExtTreeSet String}

/-! ## What a lease looks at -/

theorem exists_collectDueKeys_dept {table : Table String Unit} (hwf : KeysWellFormed table) (dept : String)
    (nowMs : UInt64) (limit : ℕ) :
    ∃ keys, collectDueKeys table (some dept) nowMs limit = .ok keys ∧
      keys.map DueIndexKey.key = (dueKeys table dept nowMs).take limit := by
  rw [collectDueKeys]
  split
  · rename_i hlimit
    exact ⟨[], rfl, by simp [hlimit]⟩
  · have hl : ∀ p ∈ (Table.range table (dueRangeStart dept) (dueRangeStop dept nowMs)).take limit,
        ∃ d t i, p.1 = makeIndexKey d t i := fun p hp =>
      hwf p.1 (Table.mem_of_mem_range (List.mem_of_mem_take hp))
    obtain ⟨keys, hkeys⟩ := exists_parseKeys parseIndexKey_makeIndexKey hl
    refine ⟨keys, hkeys, ?_⟩
    rw [(parseKeys_eq_ok parseIndexKey_makeIndexKey hl hkeys).1, dueKeys, List.map_take]

theorem expiredLeaseQuota_le_scanBudget {n : ℕ} (hbatch : batchLimit ≤ usizeMax) :
    expiredLeaseQuota batchLimit ≤ scanBudget batchLimit n := by
  simp only [expiredLeaseQuota, scanBudget, usizeSaturatingAdd, usizeSaturatingMul]
  have husize : 1 ≤ usizeMax := by decide
  split <;> omega

/-- The keys that a lease looks at. -/
structure LooksAt (s : Store) (dept : String) (nowMs : UInt64) (batchLimit excludedLen : ℕ)
    (expired ready : List DueIndexKey) : Prop where
  ofExpired : CollectedDue s.leasedByDeptUntil (some dept) nowMs expired
  ofReady : CollectedDue s.readyByDeptDue (some dept) nowMs ready
  expiredKeys : expired.map DueIndexKey.key =
    (dueKeys s.leasedByDeptUntil dept nowMs).take (expiredLeaseQuota batchLimit)
  readyKeys : ready.map DueIndexKey.key =
    (dueKeys s.readyByDeptDue dept nowMs).take (scanBudget batchLimit excludedLen)

theorem exists_collectLeaseableKeys (hs : s.Inv) (dept : String) (nowMs : UInt64)
    (excluded : Std.ExtTreeSet String) (hbatch : batchLimit ≤ usizeMax) :
    ∃ expired ready, s.collectLeaseableKeys nowMs batchLimit (some dept) excluded = .ok (expired, ready) ∧
      LooksAt s dept nowMs batchLimit excluded.size expired ready := by
  obtain ⟨expired, hexpired, hexpiredKeys⟩ := exists_collectDueKeys_dept (.of_dueFormat hs.wellFormed.leased)
    dept nowMs (scanBudget batchLimit excluded.size)
  obtain ⟨ready, hready, hreadyKeys⟩ := exists_collectDueKeys_dept (.of_dueFormat hs.wellFormed.ready)
    dept nowMs (scanBudget batchLimit excluded.size)
  have hcollected : s.collectLeaseableKeys nowMs batchLimit (some dept) excluded =
      .ok (expired.take (expiredLeaseQuota batchLimit), ready) := by
    rw [collectLeaseableKeys]
    simp only [hexpired, hready, bind, Except.bind]
    rfl
  obtain ⟨hdue, hdue'⟩ := collectLeaseableKeys_eq_ok hs.wellFormed hcollected
  refine ⟨_, _, hcollected, hdue, hdue', ?_, hreadyKeys⟩
  rw [List.map_take, hexpiredKeys, List.take_take,
    Nat.min_eq_left (expiredLeaseQuota_le_scanBudget hbatch)]

theorem reached_iff {table : Table String Unit} {keys : List DueIndexKey} {n : ℕ}
    {id : String} (h : CollectedDue table (some dept) nowMs keys)
    (hkeys : keys.map DueIndexKey.key = (dueKeys table dept nowMs).take n) :
    Reached table dept nowMs n id ↔ ∃ k ∈ keys, k.deliveryId = id := by
  rw [Reached, ← hkeys]
  constructor
  · rintro ⟨dueMs, hmem⟩
    obtain ⟨k, hk, hkey⟩ := List.mem_map.1 hmem
    rw [h.dept k hk dept rfl] at hkey
    exact ⟨k, hk, (makeIndexKey_inj hkey).2.2⟩
  · rintro ⟨k, hk, rfl⟩
    exact ⟨k.dueMs, by rw [← h.dept k hk dept rfl]; exact List.mem_map_of_mem hk⟩

/-! ## What a lease grants of what it looks at -/

theorem leaseKey_record_congr {s s' : Store} {req : LeaseRequest} {b : Bool} {key : DueIndexKey}
    (h : s.deliveryById = s'.deliveryById) :
    (s.leaseKey req b key).record = (s'.leaseKey req b key).record := by
  simp only [leaseKey, h]
  repeat' split
  all_goals rfl

/-- A loop of a lease comes back empty-handed when it can grant none of its candidates, and then it
leaves the rows alone. -/
theorem leaseKeys_eq_nil_iff (req : LeaseRequest) (b : Bool) {limit : ℕ} (hlimit : 0 < limit) :
    ∀ (keys : List DueIndexKey) (loop : LeaseLoop), loop.leased = [] →
      (b = true → ∀ k ∈ keys, k.dueMs ≤ req.nowMs) →
      ((leaseKeys req b limit keys loop).leased = [] ↔
        ∀ k ∈ keys, (loop.store.leaseKey req b k).record = none) ∧
      ((leaseKeys req b limit keys loop).leased = [] →
        (leaseKeys req b limit keys loop).store.deliveryById = loop.store.deliveryById)
  | [], loop, hnil, _ => by simp [leaseKeys, hnil]
  | key :: keys, loop, hnil, hdue => by
    rw [leaseKeys, if_neg (by simp [hnil, hlimit.ne'])]
    cases hrec : (loop.store.leaseKey req b key).record with
    | some r =>
      have hmem : r ∈ (leaseKeys req b limit keys
          (loop.after (loop.store.leaseKey req b key))).leased :=
        leaseKeys_grows req b limit (by simp [LeaseLoop.after, hrec])
      have hne := List.ne_nil_of_mem hmem
      simp [hne, hrec]
    | none =>
      have hrows : (loop.store.leaseKey req b key).store.deliveryById = loop.store.deliveryById := by
        rcases leaseKey_cases loop.store req b (fun hb => hdue hb key (by simp)) with
          ⟨_, hrows⟩ | ⟨_, _, _, hsome, _⟩
        · exact hrows
        · rw [hrec] at hsome
          cases hsome
      obtain ⟨ih, ihrows⟩ := leaseKeys_eq_nil_iff req b hlimit keys
        (loop.after (loop.store.leaseKey req b key)) (by simp [LeaseLoop.after, hrec, hnil])
        (fun hb k hk => hdue hb k (by simp [hk]))
      refine ⟨?_, fun h => (ihrows h).trans hrows⟩
      rw [ih]
      simp only [LeaseLoop.after, List.forall_mem_cons, hrec, true_and]
      exact forall₂_congr fun k _ => by rw [leaseKey_record_congr hrows]

theorem leaseMatching_leased (s : Store) (l : LeaseTxn) :
    (s.leaseMatching l.nowMs l.batchLimit l.leaseDur l.dept l.excluded l.expiredKeys
      l.readyKeys).2 = (leaseKeys l.request false l.batchLimit l.readyKeys
        (leaseKeys l.request true (expiredLeaseQuota l.batchLimit) l.expiredKeys
          ⟨s, [], false⟩)).leased := by
  rw [leaseMatching]
  split <;> rfl

theorem leaseMatching_eq_nil_iff (s : Store) (l : LeaseTxn) (hbatch : 0 < l.batchLimit)
    (hdue : ∀ k ∈ l.expiredKeys, k.dueMs ≤ l.nowMs) :
    (s.leaseMatching l.nowMs l.batchLimit l.leaseDur l.dept l.excluded l.expiredKeys
        l.readyKeys).2 = [] ↔
      (∀ k ∈ l.expiredKeys, (s.leaseKey l.request true k).record = none) ∧
        ∀ k ∈ l.readyKeys, (s.leaseKey l.request false k).record = none := by
  have hquota : 0 < expiredLeaseQuota l.batchLimit := by
    rw [expiredLeaseQuota, if_neg (by omega)]
    omega
  obtain ⟨hfirst, hrows⟩ := leaseKeys_eq_nil_iff l.request true hquota l.expiredKeys ⟨s, [], false⟩
    rfl (fun _ => hdue)
  rw [leaseMatching_leased, ← hfirst]
  by_cases hnil : (leaseKeys l.request true (expiredLeaseQuota l.batchLimit) l.expiredKeys
      ⟨s, [], false⟩).leased = []
  · rw [(leaseKeys_eq_nil_iff _ _ hbatch _ _ hnil (fun hb => by cases hb)).1]
    simp only [hnil, true_and]
    exact forall₂_congr fun k _ => by rw [leaseKey_record_congr (hrows hnil)]
  · obtain ⟨r, hr⟩ := List.exists_mem_of_ne_nil _ hnil
    simp [hnil, List.ne_nil_of_mem (leaseKeys_grows l.request false l.batchLimit hr)]

/-- The ready loop only grants rows that had no lease. -/
theorem leaseKeys_ready_unleased {req : LeaseRequest} (hs : s.Inv) (limit : ℕ) :
    ∀ (keys : List DueIndexKey) {loop : LeaseLoop}, loop.Granted s req →
      ∃ more, (leaseKeys req false limit keys loop).leased = loop.leased ++ more ∧
        ∀ r ∈ more, (s.deliveryById[r.deliveryId]?).any (·.leaseUntilMs.isSome) = false
  | [], loop, _ => ⟨[], by simp [leaseKeys]⟩
  | key :: keys, loop, h => by
    rw [leaseKeys]
    split
    · exact ⟨[], by simp⟩
    · have hnext : (loop.after (loop.store.leaseKey req false key)).Granted s req :=
        h.after hs (fun hb => by cases hb) (fun hb => by cases hb)
      obtain ⟨more, hmore, hnone⟩ := leaseKeys_ready_unleased hs limit keys hnext
      refine ⟨_, by rw [hmore, LeaseLoop.after, List.append_assoc], fun r hr => ?_⟩
      rcases List.mem_append.1 hr with hr | hr
      · have hdue : false = true → key.dueMs ≤ req.nowMs := fun hb => by cases hb
        rcases leaseKey_cases loop.store req false hdue with
          ⟨hrec, _⟩ | ⟨row, hg, hready, hrec, _⟩
        · simp [hrec] at hr
        · obtain rfl : r = row.leased req.leaseUntil := by simpa [hrec] using hr
          have hfresh : key.deliveryId ∉ loop.leased.map DeliveryRecord.deliveryId := by
            intro hmem
            obtain ⟨r, hr, hid⟩ := List.mem_map.1 hmem
            obtain ⟨hr1, hr2, _⟩ := h.rows r hr
            rw [hid, hg.live] at hr1
            obtain rfl := Option.some.inj hr1
            rw [hready rfl] at hr2
            cases hr2
          have hold := (h.others _ hfresh).symm.trans hg.live
          have hid : (row.leased req.leaseUntil).deliveryId = key.deliveryId :=
            (hs.liveOk hold).deliveryId
          rw [hid, hold]
          simp [hready rfl]
      · exact hnone r hr

/-- **No more deliveries that had a lease are granted than the quota.** -/
theorem leaseMatching_expired_length (hs : s.Inv) (l : LeaseTxn)
    (hexpired : ∀ k ∈ l.expiredKeys, k.dueMs ≤ l.nowMs)
    (hne : l.expiredKeys.Pairwise (fun k k' => k.deliveryId ≠ k'.deliveryId)) :
    ((s.leaseMatching l.nowMs l.batchLimit l.leaseDur l.dept l.excluded l.expiredKeys
        l.readyKeys).2.filter fun r =>
          (s.deliveryById[r.deliveryId]?).any (·.leaseUntilMs.isSome)).length ≤
      expiredLeaseQuota l.batchLimit := by
  have hgranted : (leaseKeys l.request true (expiredLeaseQuota l.batchLimit) l.expiredKeys
      ⟨s, [], false⟩).Granted s l.request :=
    leaseKeys_granted hs true _ (.start s _ false) (fun _ => hexpired) (fun _ => hne) (by simp)
  obtain ⟨more, hmore, hnone⟩ := leaseKeys_ready_unleased hs l.batchLimit l.readyKeys hgranted
  have hrest : more.filter (fun r =>
      (s.deliveryById[r.deliveryId]?).any (·.leaseUntilMs.isSome)) = [] :=
    List.filter_eq_nil_iff.2 fun r hr => by simp [hnone r hr]
  rw [leaseMatching_leased, hmore, List.filter_append, hrest, List.append_nil]
  exact (List.length_filter_le _ _).trans (leaseKeys_length l.request true _ (Nat.zero_le _))

/-- A key of the leased index is that of its row. -/
theorem Inv.leaseUntil_of_mem (hs : s.Inv) {dueMs : UInt64} {id : String}
    (h : makeIndexKey dept dueMs id ∈ s.leasedByDeptUntil) :
    ∃ row, s.deliveryById[id]? = some row ∧ row.leaseUntilMs = some dueMs ∧ row.dept = dept := by
  have hmem : (dept, dueMs) ∈ dueFormat.entries s.leasedByDeptUntil id := h
  rw [hs.leased_entries] at hmem
  obtain ⟨row, u, hrow, hlease, hpair⟩ := hmem
  obtain ⟨rfl, rfl⟩ := Prod.mk.inj hpair
  exact ⟨row, hrow, hlease, rfl⟩

/-- What the lease of a department asks for. -/
def deptRequest (dept : String) (nowMs : UInt64) (leaseDur : Duration)
    (excluded : Std.ExtTreeSet String) : LeaseRequest :=
  ⟨nowMs, saturatingAdd nowMs (durationMillis leaseDur), some dept, excluded⟩

/-- The expired leases that a lease looks at and may grant are those that it grants. -/
theorem LooksAt.expired_iff (hs : s.Inv) (leaseDur : Duration) {expired ready : List DueIndexKey}
    (h : LooksAt s dept nowMs batchLimit excluded.size expired ready) :
    (∃ k ∈ expired, (s.leaseKey (deptRequest dept nowMs leaseDur excluded) true k).record ≠ none) ↔
      ∃ id row, s.Eligible dept nowMs excluded id row ∧ row.leaseUntilMs ≠ none ∧
        Reached s.leasedByDeptUntil dept nowMs (expiredLeaseQuota batchLimit) id := by
  have hlease : ∀ k ∈ expired, ∃ row, s.deliveryById[k.deliveryId]? = some row ∧
      row.leaseUntilMs = some k.dueMs ∧ row.dept = dept := fun k hk =>
    hs.leaseUntil_of_mem (h.ofExpired.dept k hk dept rfl ▸ h.ofExpired.mem k hk)
  constructor
  · rintro ⟨k, hk, hrec⟩
    obtain ⟨row, hrow, huntil, hdept⟩ := hlease k hk
    rcases leaseKey_cases s (deptRequest dept nowMs leaseDur excluded) true
        (fun _ => h.ofExpired.due k hk) with ⟨hnone, _⟩ | ⟨_, hg, _⟩
    · exact absurd hnone hrec
    · exact ⟨k.deliveryId, row,
        ⟨hrow, hdept, hg.excluded, .inr ⟨_, huntil, h.ofExpired.due k hk⟩⟩, by simp [huntil],
        (reached_iff h.ofExpired h.expiredKeys).2 ⟨k, hk, rfl⟩⟩
  · rintro ⟨id, row, helig, _, hreached⟩
    obtain ⟨k, hk, rfl⟩ := (reached_iff h.ofExpired h.expiredKeys).1 hreached
    obtain ⟨row', hrow, huntil, hdept⟩ := hlease k hk
    obtain rfl := Option.some.inj (hrow.symm.trans helig.live)
    have hgrants : (s.leaseKey (deptRequest dept nowMs leaseDur excluded) true k).record = some _ :=
      leaseKey_grants hrow helig.excluded (fun wanted hw => hdept.trans (Option.some.inj hw))
        (fun _ => huntil) (fun hb => by cases hb)
    exact ⟨k, hk, by simp [hgrants]⟩

/-- The ready deliveries that a lease looks at and may grant are those that it grants. -/
theorem LooksAt.ready_iff (leaseDur : Duration) {expired ready : List DueIndexKey}
    (h : LooksAt s dept nowMs batchLimit excluded.size expired ready) :
    (∃ k ∈ ready, (s.leaseKey (deptRequest dept nowMs leaseDur excluded) false k).record ≠ none) ↔
      ∃ id row, s.Eligible dept nowMs excluded id row ∧ row.leaseUntilMs = none ∧
        Reached s.readyByDeptDue dept nowMs (scanBudget batchLimit excluded.size) id := by
  constructor
  · rintro ⟨k, hk, hrec⟩
    rcases leaseKey_cases s (deptRequest dept nowMs leaseDur excluded) false
        (fun hb => by cases hb) with ⟨hnone, _⟩ | ⟨row, hg, hready, _⟩
    · exact absurd hnone hrec
    · have hdue : row.leaseUntilMs = none ∧ row.notBeforeMs ≤ nowMs := by
        rcases hg.leaseable with hdue | ⟨_, huntil, _⟩
        · exact hdue
        · rw [hready rfl] at huntil
          cases huntil
      exact ⟨k.deliveryId, row, ⟨hg.live, hg.dept dept rfl, hg.excluded, .inl hdue⟩, hdue.1,
        (reached_iff h.ofReady h.readyKeys).2 ⟨k, hk, rfl⟩⟩
  · rintro ⟨id, row, helig, hnone, hreached⟩
    obtain ⟨k, hk, rfl⟩ := (reached_iff h.ofReady h.readyKeys).1 hreached
    have hdue : row.notBeforeMs ≤ nowMs := by
      rcases helig.due with hdue | ⟨_, huntil, _⟩
      · exact hdue.2
      · rw [hnone] at huntil
        cases huntil
    have hgrants : (s.leaseKey (deptRequest dept nowMs leaseDur excluded) false k).record = some _ :=
      leaseKey_grants helig.live helig.excluded
        (fun wanted hw => helig.dept.trans (Option.some.inj hw)) (fun hb => by cases hb)
        (fun _ => ⟨hnone, hdue⟩)
    exact ⟨k, hk, by simp [hgrants]⟩

/-- **What a lease grants of what it looks at.** -/
theorem LooksAt.unhidden_iff (hs : s.Inv) (hbatch : 1 ≤ batchLimit) {expired ready : List DueIndexKey}
    (h : LooksAt s dept nowMs batchLimit excluded.size expired ready) :
    (s.leaseMatching nowMs batchLimit leaseDur (some dept) excluded expired ready).2 ≠ [] ↔
      s.Unhidden dept nowMs batchLimit excluded := by
  have hnil : _ ↔ (∀ k ∈ expired, (s.leaseKey (deptRequest dept nowMs leaseDur excluded) true
        k).record = none) ∧
      ∀ k ∈ ready, (s.leaseKey (deptRequest dept nowMs leaseDur excluded) false k).record = none :=
    leaseMatching_eq_nil_iff s ⟨nowMs, batchLimit, leaseDur, some dept, excluded, expired, ready⟩
      hbatch h.ofExpired.due
  have hexpired := h.expired_iff hs leaseDur
  have hready := h.ready_iff leaseDur
  simp only [ne_eq] at hexpired hready
  simp only [Unhidden, and_or_left, exists_or, ← hexpired, ← hready, ne_eq, hnil, not_and_or,
    not_forall, exists_prop]

/-- Nothing that a lease may grant is ready or has run out, when it sees no key. -/
theorem not_unhidden_of_nil (h : LooksAt s dept nowMs batchLimit excluded.size [] []) :
    ¬ s.Unhidden dept nowMs batchLimit excluded := by
  rintro ⟨id, row, _, ⟨_, hreached⟩ | ⟨_, hreached⟩⟩
  · obtain ⟨k, hk, _⟩ := (reached_iff h.ofExpired h.expiredKeys).1 hreached
    cases hk
  · obtain ⟨k, hk, _⟩ := (reached_iff h.ofReady h.readyKeys).1 hreached
    cases hk

/-- **What a lease for a department returns.** -/
theorem Inv.exists_leaseForDeptExcluding (hs : s.Inv) (dept : String) (nowMs : UInt64)
    (leaseDur : Duration) (excluded : Std.ExtTreeSet String) (hbatch : 1 ≤ batchLimit)
    (husize : batchLimit ≤ usizeMax) :
    ∃ s' leased, s.leaseForDeptExcluding dept nowMs batchLimit leaseDur excluded = .ok (s', leased) ∧
      (leased ≠ [] ↔ s.Unhidden dept nowMs batchLimit excluded) ∧
      (leased.filter fun r => (s.deliveryById[r.deliveryId]?).any (·.leaseUntilMs.isSome)).length ≤
        max 1 (batchLimit / 2) := by
  obtain ⟨expired, ready, hcollected, hlooks⟩ := exists_collectLeaseableKeys hs dept nowMs excluded husize
  have hquota : expiredLeaseQuota batchLimit = max 1 (batchLimit / 2) := by
    rw [expiredLeaseQuota, if_neg (by omega), max_comm]
  by_cases hempty : (expired.isEmpty && ready.isEmpty) = true
  · have hlease : s.leaseForDeptExcluding dept nowMs batchLimit leaseDur excluded = .ok (s, []) := by
      rw [leaseForDeptExcluding, if_neg (by omega), hcollected]
      simp [bind, Except.bind, hempty, pure, Except.pure]
    obtain ⟨rfl, rfl⟩ : expired = [] ∧ ready = [] := by simpa using hempty
    exact ⟨s, [], hlease, by simp [not_unhidden_of_nil hlooks], by simp⟩
  · have hlease : s.leaseForDeptExcluding dept nowMs batchLimit leaseDur excluded =
        .ok (s.leaseMatching nowMs batchLimit leaseDur (some dept) excluded expired ready) := by
      rw [leaseForDeptExcluding, if_neg (by omega), hcollected]
      simp [bind, Except.bind, hempty, pure, Except.pure]
    refine ⟨_, _, hlease, hlooks.unhidden_iff hs hbatch, ?_⟩
    rw [← hquota]
    exact leaseMatching_expired_length hs
      ⟨nowMs, batchLimit, leaseDur, some dept, excluded, expired, ready⟩ hlooks.ofExpired.due
      (pairwise_deliveryId_ne dueFormat hlooks.ofExpired.mem hlooks.ofExpired.wellFormed
        hlooks.ofExpired.nodup hs.leased_subsingleton)

/-! ## A ready delivery does not hide -/

theorem length_le_size_of_mem {ids : List String} (hnodup : ids.Nodup)
    (hmem : ∀ id ∈ ids, id ∈ excluded) : ids.length ≤ excluded.size := by
  rw [← Std.ExtTreeSet.length_toList]
  exact (List.subperm_of_subset hnodup fun id hid => Std.ExtTreeSet.mem_toList.2 (hmem id hid)).length_le

/-- **A ready delivery does not hide behind excluded ones**, as long as the ready index holds no
leftovers: the budget of a lease is larger than what it excludes. -/
theorem unhidden_of_ready (hs : s.Inv) (hc : s.Clean) (hbatch : 1 ≤ batchLimit)
    (husize : 8 * batchLimit + excluded.size ≤ usizeMax) {id : String} {row : DeliveryRecord}
    (helig : s.Eligible dept nowMs excluded id row) (hnone : row.leaseUntilMs = none)
    (hid : ¬ [lastChar] < id.toList) : s.Unhidden dept nowMs batchLimit excluded := by
  obtain ⟨expired, ready, _, h⟩ := exists_collectLeaseableKeys hs dept nowMs excluded
    (show batchLimit ≤ usizeMax by omega)
  by_contra hhidden
  have hexcluded : ∀ i ∈ ready.map DueIndexKey.deliveryId, i ∈ excluded := by
    intro i hi
    obtain ⟨k, hk, rfl⟩ := List.mem_map.1 hi
    by_contra hnot
    have hkey : makeIndexKey dept k.dueMs k.deliveryId ∈ s.readyByDeptDue :=
      h.ofReady.dept k hk dept rfl ▸ h.ofReady.mem k hk
    have hmem : (dept, k.dueMs) ∈ dueFormat.entries s.readyByDeptDue k.deliveryId := hkey
    rw [hs.ready_entries hc] at hmem
    obtain ⟨row, hrow, hunleased, hpair⟩ := hmem
    obtain ⟨rfl, hdue⟩ := Prod.mk.inj hpair
    exact hhidden ⟨k.deliveryId, row,
      ⟨hrow, rfl, hnot, .inl ⟨hunleased, hdue ▸ h.ofReady.due k hk⟩⟩,
      .inr ⟨hunleased, (reached_iff h.ofReady h.readyKeys).2 ⟨k, hk, rfl⟩⟩⟩
  have hnodup : (ready.map DueIndexKey.deliveryId).Nodup :=
    List.pairwise_map.2 (pairwise_deliveryId_ne dueFormat h.ofReady.mem h.ofReady.wellFormed
      h.ofReady.nodup hc.ready_subsingleton)
  have hlength := length_le_size_of_mem hnodup hexcluded
  -- the walk stopped at the end of the range, so it passed the key of the row
  have hbudget : scanBudget batchLimit excluded.size = 8 * batchLimit + excluded.size := by
    simp only [scanBudget, usizeSaturatingAdd, usizeSaturatingMul]
    omega
  have hall : (dueKeys s.readyByDeptDue dept nowMs).take (scanBudget batchLimit excluded.size) =
      dueKeys s.readyByDeptDue dept nowMs := by
    have hkeys := congrArg List.length h.readyKeys
    rw [List.length_map, List.length_take, hbudget] at hkeys
    rw [List.length_map] at hlength
    rw [hbudget, List.take_of_length_le (by omega)]
  have hdue : row.notBeforeMs ≤ nowMs := by
    rcases helig.due with hdue | ⟨_, huntil, _⟩
    · exact hdue.2
    · rw [hnone] at huntil
      cases huntil
  have hkey := hs.complete.ready id row helig.live hnone
  rw [helig.dept] at hkey
  refine hhidden ⟨id, row, helig, .inr ⟨hnone, row.notBeforeMs, ?_⟩⟩
  rw [hall]
  exact List.mem_map_of_mem (mem_range_of_due hkey hdue (.inr hid))

end Store

variable {batchLimit : ℕ}

/-- **When a lease makes progress**, in every store that any sequence of overlapping calls leaves
behind: when it looks at some delivery that it may grant, if there is one.  It never grants more
deliveries that had a lease than its quota. -/
theorem lease_progress_iff (env : Env) (acts : List Act) (dept : String) (nowMs : UInt64)
    (leaseDur : Duration) (excluded : Std.ExtTreeSet String) (hbatch : 1 ≤ batchLimit)
    (husize : batchLimit ≤ usizeMax) :
    (World.init.run env acts).1.store.MakesProgress dept nowMs batchLimit leaseDur excluded ↔
      ((∃ id row, (World.init.run env acts).1.store.Eligible dept nowMs excluded id row) →
        (World.init.run env acts).1.store.Unhidden dept nowMs batchLimit excluded) := by
  obtain ⟨s', leased, hlease, hiff, hcount⟩ :=
    (World.run_inv env acts).store.exists_leaseForDeptExcluding dept nowMs leaseDur excluded hbatch
      husize
  constructor
  · rintro ⟨_, _, hlease', hprogress, _⟩ helig
    obtain ⟨rfl, rfl⟩ := Prod.mk.inj (Except.ok.inj (hlease.symm.trans hlease'))
    exact hiff.1 (hprogress helig)
  · exact fun h => ⟨s', leased, hlease, fun helig => hiff.2 (h helig), hcount⟩

namespace Sample

/-- Two leases of the department have run out. -/
def expiredPair : List Act := Act.inSequence [.enqueue (record "a" false),
  .enqueue (record "b" false), .lease 0 2 ⟨0, 0⟩ none ∅]

/-- The delivery whose key comes first is excluded. -/
def firstExcluded : Std.ExtTreeSet String := (∅ : Std.ExtTreeSet String).insert "a"

/-- The lease of the other delivery has run out. -/
theorem expiredPair_eligible : ∃ row, row.leaseUntilMs ≠ none ∧
    (World.init.run env expiredPair).1.store.Eligible "dept" 5 firstExcluded "b" row := by
  have hrow : ((World.init.run env expiredPair).1.store.deliveryById["b"]?).any
      (fun row => row.dept == "dept" && row.leaseUntilMs == some 0) = true := by
    decide +kernel
  obtain ⟨row, hlive, hrow⟩ := (Option.any_eq_true _ _).1 hrow
  rw [Bool.and_eq_true, beq_iff_eq, beq_iff_eq] at hrow
  exact ⟨row, by simp [hrow.2], hlive, hrow.1, by decide +kernel, .inr ⟨0, hrow.2, by decide⟩⟩

end Sample

/-- The theorem at a lease that asks for enough to see past the excluded delivery. -/
theorem lease_progress_expiredPair :
    (World.init.run Sample.env Sample.expiredPair).1.store.MakesProgress "dept" 5 4 ⟨1, 0⟩
      Sample.firstExcluded := by
  obtain ⟨row, hleased, helig⟩ := Sample.expiredPair_eligible
  exact (lease_progress_iff Sample.env Sample.expiredPair "dept" 5 ⟨1, 0⟩ Sample.firstExcluded
    (by decide) (by decide)).2 fun _ => ⟨"b", row, helig, .inl ⟨hleased, 0, by decide +kernel⟩⟩

/-- A lease that asks for one delivery looks at one expired lease, finds it excluded, and grants
nothing, although the next may be granted. -/
theorem lease_hidden_expiredPair :
    ¬ (World.init.run Sample.env Sample.expiredPair).1.store.MakesProgress "dept" 5 1 ⟨1, 0⟩
      Sample.firstExcluded := by
  rintro ⟨s', leased, hlease, hprogress, _⟩
  obtain ⟨row, _, helig⟩ := Sample.expiredPair_eligible
  have hnone : ((World.init.run Sample.env Sample.expiredPair).1.store.leaseForDeptExcluding "dept" 5 1
      ⟨1, 0⟩ Sample.firstExcluded).toOption.all (·.2.isEmpty) = true := by
    decide +kernel
  rw [hlease] at hnone
  exact hprogress ⟨"b", row, helig⟩ (by simpa [Except.toOption] using hnone)

end Fkst.Delivery
