import Fkst.Delivery.Tables

/-!
# The operations of the delivery store

`delivery_store.rs` and `delivery_transition.rs`.  Every operation ends in one write transaction,
and a write transaction is a function from the tables to the tables here.  It returns an error where
the source does; the tables are then left as they were, because the transaction is dropped.

Leasing, the absence sweep and redriving read their candidates in a transaction of its own before
they write.  The two phases are two functions, so that other transactions can come between them.
-/

set_option autoImplicit false

namespace Fkst.Delivery

open Lib

/-! ## Outcomes -/

/-- `EnqueueOutcome`. -/
inductive EnqueueOutcome where
  | accepted
  | terminallySuppressed
deriving DecidableEq

/-- `RetryOutcome`. -/
inductive RetryOutcome where
  | scheduled
  | deadPendingRedrive
  | permanentDead
  | stale
  | missing
deriving DecidableEq

/-- `LockBusyDeferOutcome`. -/
inductive LockBusyDeferOutcome where
  | scheduled
  | stale
  | missing
deriving DecidableEq

/-- `RetryFailure`. -/
structure RetryFailure where
  message : String
  replayable : Bool
deriving DecidableEq

/-- `RedriveResult`. -/
structure RedriveResult where
  redriven : List DeliveryRecord
  permanent : List DeadRecord
deriving DecidableEq

/-- `ReboundDelivery`. -/
structure ReboundDelivery where
  deliveryId : String
  queue : String
  oldDept : String
  newDept : String
  leased : Bool
deriving DecidableEq

/-- `SubscriberAbsentMark`. -/
structure SubscriberAbsentMark where
  deliveryId : String
  queue : String
  dept : String
  absentSinceMs : UInt64
deriving DecidableEq

/-- `SubscriberAbsentSweep`. -/
structure SubscriberAbsentSweep where
  markedAbsent : List SubscriberAbsentMark
  clearedAbsent : List SubscriberAbsentMark
  deadLettered : List DeadRecord
deriving DecidableEq

/-- `SubscriberAbsentSweep::empty`. -/
def SubscriberAbsentSweep.empty : SubscriberAbsentSweep := ⟨[], [], []⟩

/-- `SubscriberAbsentSweep::is_empty`. -/
def SubscriberAbsentSweep.isEmpty (sweep : SubscriberAbsentSweep) : Bool :=
  sweep.markedAbsent.isEmpty && sweep.clearedAbsent.isEmpty && sweep.deadLettered.isEmpty

/-! ## What an operation makes of a record -/

/-- `same_delivery_content`. -/
def sameDeliveryContent (left right : DeliveryRecord) : Bool :=
  left.deliveryId == right.deliveryId && left.queue == right.queue && left.dept == right.dept &&
    left.payload == right.payload && left.source == right.source &&
    left.cronPayload == right.cronPayload

/-- `prepare_dirty_follow_up`: the record of the follow-up, if the delivery was marked dirty. -/
def prepareDirtyFollowUp (record : DeliveryRecord) (notBeforeMs : UInt64) :
    Option DeliveryRecord :=
  if !record.collapseByDedupId || !record.pendingDirty then none
  else some
    { record with
      pendingDirty := false
      attempt := 0
      redriveCount := 0
      subscriberAbsentSinceMs := none
      leaseUntilMs := none
      notBeforeMs := notBeforeMs
      lastErrorExcerpt := none }

/-- A record under a new department.  Whoever holds its lease loses it. -/
def DeliveryRecord.rebound (record : DeliveryRecord) (newDept : String) : DeliveryRecord :=
  { record with
    leaseGeneration :=
      if record.leaseUntilMs.isSome then saturatingAdd record.leaseGeneration 1
      else record.leaseGeneration
    dept := newDept }

/-- A record as a lease hands it out. -/
def DeliveryRecord.leased (record : DeliveryRecord) (untilMs : UInt64) : DeliveryRecord :=
  { record with
    leaseGeneration := saturatingAdd record.leaseGeneration 1
    leaseUntilMs := some untilMs }

/-- The record a dead letter of the absence sweep stores. -/
def DeliveryRecord.absent (record : DeliveryRecord) (nowMs : UInt64) : DeliveryRecord :=
  { record with
    leaseUntilMs := none
    notBeforeMs := nowMs
    lastErrorExcerpt := some subscriberAbsentDeadReason }

/-- The dead letter of the absence sweep. -/
def DeliveryRecord.absentDead (record : DeliveryRecord) (nowMs : UInt64) : DeadRecord where
  deliveryId := record.deliveryId
  queue := record.queue
  dept := record.dept
  source := record.source
  observedAtMs := record.observedAtMs
  notBeforeMs := nowMs
  deadAtMs := nowMs
  attempts := record.attempt
  redriveCount := record.redriveCount
  replayable := true
  permanent := false
  allowsKeyedReuse := false
  errorExcerpt := some subscriberAbsentDeadReason
  record := some (record.absent nowMs)

/-- A record that gave up its lease because a lock was busy. -/
def DeliveryRecord.deferred (env : Env) (record : DeliveryRecord) (id lock : String)
    (policy : RetryPolicy) (nowMs : UInt64) : DeliveryRecord :=
  { record with
    notBeforeMs := retryDue env policy id (max record.leaseGeneration 1) nowMs
    leaseUntilMs := none
    lastErrorExcerpt := some (errorExcerpt ("lock busy lock=" ++ lock)) }

/-- A record after a failed attempt, before it is known what becomes of it. -/
def DeliveryRecord.failed (record : DeliveryRecord) (failure : RetryFailure) : DeliveryRecord :=
  { record with
    attempt := saturatingAdd record.attempt 1
    lastErrorExcerpt := some (errorExcerpt failure.message)
    leaseUntilMs := none }

/-- The dead letter of a record whose attempts are used up. -/
def DeliveryRecord.exhausted (record : DeliveryRecord) (replayable allowsKeyedReuse : Bool)
    (nowMs : UInt64) : DeadRecord where
  deliveryId := record.deliveryId
  queue := record.queue
  dept := record.dept
  source := record.source
  observedAtMs := record.observedAtMs
  notBeforeMs := record.notBeforeMs
  deadAtMs := nowMs
  attempts := record.attempt
  redriveCount := record.redriveCount
  replayable := replayable
  permanent := !replayable
  allowsKeyedReuse := allowsKeyedReuse
  errorExcerpt := record.lastErrorExcerpt
  record := if replayable then some record else none

/-- A record brought back from its dead letter. -/
def DeliveryRecord.redriven (record : DeliveryRecord) (dead : DeadRecord) (nowMs : UInt64) :
    DeliveryRecord :=
  { record with
    redriveCount := saturatingAdd dead.redriveCount 1
    attempt := 0
    leaseUntilMs := none
    leaseGeneration := saturatingAdd record.leaseGeneration 1
    notBeforeMs := nowMs
    lastErrorExcerpt := none
    subscriberAbsentSinceMs := none }

/-- A dead letter that will not be redriven any more. -/
def DeadRecord.permanently (dead : DeadRecord) (keyedReuse : Bool) : DeadRecord :=
  { dead with
    allowsKeyedReuse := dead.allowsKeyedReuse || keyedReuse
    permanent := true
    replayable := false
    record := none }

namespace Store

/-! ## Enqueueing -/

/-- A duplicate of a live delivery of which at least one is keyed. -/
def coalesce (s : Store) (current record : DeliveryRecord) : Store :=
  if current.collapseByDedupId && record.collapseByDedupId then
    match current.leaseUntilMs with
    | none => s
    | some leaseUntilMs =>
      if record.notBeforeMs < leaseUntilMs then
        if !current.pendingDirty then
          s.insertDelivery record.deliveryId { current with pendingDirty := true }
        else s
      else
        let s := s.removeLeased (makeIndexKey current.dept leaseUntilMs record.deliveryId)
        let s := s.insertReady (makeIndexKey current.dept current.notBeforeMs record.deliveryId)
        s.insertDelivery record.deliveryId { current with leaseUntilMs := none }
  else s

/-- The row of a new delivery, or of a follow-up of one that has left the table. -/
def insertRow (env : Env) (s : Store) (id : String) (record : DeliveryRecord) : Store :=
  let s := s.insertDelivery id record
  let s := s.insertDeliveryLineageIndex env record
  s.insertReady (makeIndexKey record.dept record.notBeforeMs id)

/-- `enqueue`. -/
def enqueue (env : Env) (s : Store) (record : DeliveryRecord) :
    Except StoreError (Store × EnqueueOutcome) :=
  match s.deliveryById[record.deliveryId]? with
  | some current =>
    if current.collapseByDedupId || record.collapseByDedupId then
      .ok (s.coalesce current record, .accepted)
    else if sameDeliveryContent current record then .ok (s, .accepted)
    else .error (.conflictingDuplicate record.deliveryId)
  | none => do
    let (s, _) ← s.compactTerminalDeadRecords env record.observedAtMs
    if s.terminalDeliveryIsSuppressed record.deliveryId then return (s, .terminallySuppressed)
    else return (s.insertRow env record.deliveryId record, .accepted)

/-! ## Rebinding to the current subscribers -/

/-- The deliveries whose queue is now served by another department. -/
def rebindCandidates (s : Store) (currentDeptByQueue : Table String String) :
    List (String × DeliveryRecord × String) :=
  s.deliveryById.toList.filterMap fun (id, record) =>
    match currentDeptByQueue[record.queue]? with
    | none => none
    | some currentDept => if record.dept = currentDept then none else some (id, record, currentDept)

/-- Take a row out of the index it is in. -/
def unindexRow (s : Store) (id : String) (record : DeliveryRecord) : Store :=
  match record.leaseUntilMs with
  | some leaseUntil => s.removeLeased (makeIndexKey record.dept leaseUntil id)
  | none => s.removeReady (makeIndexKey record.dept record.notBeforeMs id)

/-- The loop body of `rebind_deliveries_to_current_subscribers`. -/
def rebindRow (env : Env) (s : Store) (id : String) (record : DeliveryRecord) (newDept : String) :
    Store :=
  let s := s.removeDeliveryLineageIndex env record
  let s := s.unindexRow id record
  let s := s.insertDelivery id (record.rebound newDept)
  let s := s.insertDeliveryLineageIndex env (record.rebound newDept)
  match record.leaseUntilMs with
  | some leaseUntil => s.insertLeased (makeIndexKey newDept leaseUntil id)
  | none => s.insertReady (makeIndexKey newDept record.notBeforeMs id)

/-- The loop of `rebind_deliveries_to_current_subscribers`. -/
def rebindRows (env : Env) : List (String × DeliveryRecord × String) → Store → Store
  | [], s => s
  | (id, record, newDept) :: candidates, s =>
    rebindRows env candidates (s.rebindRow env id record newDept)

/-- `rebind_deliveries_to_current_subscribers`. -/
def rebindDeliveriesToCurrentSubscribers (env : Env) (s : Store)
    (currentDeptByQueue : Table String String) : Store × List ReboundDelivery :=
  let candidates := s.rebindCandidates currentDeptByQueue
  (rebindRows env candidates s,
    candidates.map fun (id, record, newDept) =>
      ⟨id, record.queue, record.dept, newDept, record.leaseUntilMs.isSome⟩)

/-! ## The absence sweep -/

/-- `collect_subscriber_absence_candidates`. -/
def collectSubscriberAbsenceCandidates (s : Store) (currentSubscriberQueues : Std.ExtTreeSet String)
    (batchLimit : ℕ) : List String :=
  ((s.deliveryById.toList.filter fun (_, record) =>
    !(currentSubscriberQueues.contains record.queue &&
      record.subscriberAbsentSinceMs.isNone)).take batchLimit).map Prod.fst

/-- Take an older dead letter out of the dead indexes, before it is overwritten.  `keyId` is the id
its keys are made with. -/
def unindexDead (env : Env) (s : Store) (keyId : String) (previous : DeadRecord) : Store :=
  let s := s.removeDeadLineageIndex env previous
  let s := s.removeDeadTime (makeDeadTimeIndexKey previous.deadAtMs keyId)
  let s := s.removeDeadDue (makeDeadDueIndexKey previous.dept previous.deadAtMs keyId)
  s.removeTerminal (makeDeadDueIndexKey previous.dept previous.deadAtMs keyId)

/-- Take the dead letter that an id already has out of the dead indexes. -/
def unindexPrevious (env : Env) (s : Store) (id : String) (keyId : DeadRecord → String) : Store :=
  match s.deadById[id]? with
  | some previous => s.unindexDead env (keyId previous) previous
  | none => s

/-- The dead-letter branch of `sweep_subscriber_absence`. -/
def sweepDead (env : Env) (s : Store) (id : String) (record : DeliveryRecord) (nowMs : UInt64) :
    Store :=
  let dead := record.absentDead nowMs
  let s := s.unindexRow id record
  let s := s.removeDeliveryLineageIndex env record
  let s := s.unindexPrevious env id DeadRecord.deliveryId
  let s := s.insertDead id dead
  let s := s.insertDeadLineageIndex env dead
  let s := s.insertDeadTime (makeDeadTimeIndexKey dead.deadAtMs id)
  let s := s.insertDeadDue (makeDeadDueIndexKey dead.dept dead.deadAtMs id)
  s.removeDelivery id

/-- The loop body of `sweep_subscriber_absence`. -/
def sweepRow (env : Env) (currentSubscriberQueues : Std.ExtTreeSet String) (nowMs budgetMs : UInt64)
    (s : Store) (sweep : SubscriberAbsentSweep) (id : String) : Store × SubscriberAbsentSweep :=
  match s.deliveryById[id]? with
  | none => (s, sweep)
  | some record =>
    let hasCurrentSubscriber := currentSubscriberQueues.contains record.queue
    match record.subscriberAbsentSinceMs with
    | none =>
      if hasCurrentSubscriber then (s, sweep)
      else
        (s.insertDelivery id { record with subscriberAbsentSinceMs := some nowMs },
          { sweep with
            markedAbsent := sweep.markedAbsent ++ [⟨id, record.queue, record.dept, nowMs⟩] })
    | some absentSinceMs =>
      if hasCurrentSubscriber then
        (s.insertDelivery id { record with subscriberAbsentSinceMs := none },
          { sweep with
            clearedAbsent :=
              sweep.clearedAbsent ++ [⟨id, record.queue, record.dept, absentSinceMs⟩] })
      else if !subscriberAbsenceBudgetElapsed absentSinceMs budgetMs nowMs then (s, sweep)
      else
        (s.sweepDead env id record nowMs,
          { sweep with deadLettered := sweep.deadLettered ++ [record.absentDead nowMs] })

/-- The loop of `sweep_subscriber_absence`. -/
def sweepRows (env : Env) (currentSubscriberQueues : Std.ExtTreeSet String)
    (nowMs budgetMs : UInt64) :
    List String → Store → SubscriberAbsentSweep → Store × SubscriberAbsentSweep
  | [], s, sweep => (s, sweep)
  | id :: ids, s, sweep =>
    let (s, sweep) := s.sweepRow env currentSubscriberQueues nowMs budgetMs sweep id
    sweepRows env currentSubscriberQueues nowMs budgetMs ids s sweep

/-- The write transaction of `sweep_subscriber_absence`.  Compaction alone is not committed. -/
def sweepSubscriberAbsence (env : Env) (s : Store) (currentSubscriberQueues : Std.ExtTreeSet String)
    (nowMs : UInt64) (budget : Duration) (candidates : List String) :
    Except StoreError (Store × SubscriberAbsentSweep) := do
  let (swept, sweep) := sweepRows env currentSubscriberQueues nowMs (durationMillis budget)
    candidates s .empty
  let (swept, _) ← swept.compactTerminalDeadRecords env nowMs
  if sweep.isEmpty then return (s, sweep) else return (swept, sweep)

/-! ## Renewing leases -/

/-- The loop of `renew_leases`. -/
def renewRows (leaseUntilMs : UInt64) :
    List (String × UInt64) → Store → Table String DeliveryRecord →
      Store × Table String DeliveryRecord
  | [], s, applied => (s, applied)
  | (id, leaseGeneration) :: renewals, s, applied =>
    match s.deliveryById[id]? with
    | none => renewRows leaseUntilMs renewals s applied
    | some current =>
      match current.leaseUntilMs with
      | none => renewRows leaseUntilMs renewals s applied
      | some oldLeaseUntil =>
        if current.leaseGeneration ≠ leaseGeneration then renewRows leaseUntilMs renewals s applied
        else
          let renewed := { current with leaseUntilMs := some leaseUntilMs }
          let s := s.removeLeased (makeIndexKey current.dept oldLeaseUntil id)
          let s := s.insertDelivery id renewed
          let s := s.insertLeased (makeIndexKey current.dept leaseUntilMs id)
          renewRows leaseUntilMs renewals s (applied.insert id renewed)

/-- `renew_leases`. -/
def renewLeases (s : Store) (renewals : List (String × UInt64)) (leaseUntilMs : UInt64) :
    Store × Table String DeliveryRecord :=
  let (renewed, applied) := renewRows leaseUntilMs renewals s ∅
  if applied.isEmpty then (s, applied) else (renewed, applied)

/-! ## Leasing -/

/-- `expired_lease_quota`. -/
def expiredLeaseQuota (batchLimit : ℕ) : ℕ := if batchLimit = 0 then 0 else max (batchLimit / 2) 1

/-- `scan_budget`. -/
def scanBudget (batchLimit excludedLen : ℕ) : ℕ :=
  usizeSaturatingAdd (usizeSaturatingMul batchLimit 8) excludedLen

/-- `collect_leaseable_keys`: the keys of expired leases, then those of ready deliveries. -/
def collectLeaseableKeys (s : Store) (nowMs : UInt64) (batchLimit : ℕ) (dept : Option String)
    (excluded : Std.ExtTreeSet String) : Except StoreError (List DueIndexKey × List DueIndexKey) := do
  let budget := scanBudget batchLimit excluded.size
  let expiredKeys ← collectDueKeys s.leasedByDeptUntil dept nowMs budget
  let readyKeys ← collectDueKeys s.readyByDeptDue dept nowMs budget
  return (expiredKeys.take (expiredLeaseQuota batchLimit), readyKeys)

/-- `LeaseKeyOutcome`, with the tables it leaves behind. -/
structure LeaseKeyOutcome where
  store : Store
  record : Option DeliveryRecord
  mutated : Bool

/-- What a lease asks for. -/
structure LeaseRequest where
  nowMs : UInt64
  leaseUntil : UInt64
  dept : Option String
  excluded : Std.ExtTreeSet String

/-- The grant at the end of `lease_key`. -/
def grantRow (s : Store) (id : String) (record : DeliveryRecord) (leaseUntil : UInt64) : Store :=
  let s := match record.leaseUntilMs with
    | some oldLeaseUntil => s.removeLeased (makeIndexKey record.dept oldLeaseUntil id)
    | none => s
  let s := s.insertDelivery id (record.leased leaseUntil)
  s.insertLeased (makeIndexKey record.dept leaseUntil id)

/-- `lease_key`. -/
def leaseKey (s : Store) (req : LeaseRequest) (fromExpiredLease : Bool) (key : DueIndexKey) :
    LeaseKeyOutcome :=
  let id := key.deliveryId
  if req.excluded.contains id then ⟨s, none, false⟩
  else match s.deliveryById[id]? with
    | none =>
      ⟨if fromExpiredLease then s.removeLeased key.key else s.removeReady key.key, none, true⟩
    | some record =>
      if req.dept.any (record.dept != ·) then ⟨s, none, false⟩
      else if fromExpiredLease then
        let s := s.removeLeased key.key
        if record.leaseUntilMs ≠ some key.dueMs then ⟨s, none, true⟩
        else ⟨s.grantRow id record req.leaseUntil, some (record.leased req.leaseUntil), true⟩
      else
        let s := s.removeReady key.key
        if record.leaseUntilMs.isSome then ⟨s, none, true⟩
        else if req.nowMs < record.notBeforeMs then
          ⟨s.insertReady (makeIndexKey record.dept record.notBeforeMs id), none, true⟩
        else ⟨s.grantRow id record req.leaseUntil, some (record.leased req.leaseUntil), true⟩

/-- The state of the loops of `lease_matching`. -/
structure LeaseLoop where
  store : Store
  leased : List DeliveryRecord
  mutated : Bool

/-- The loop is done with a key. -/
def LeaseLoop.after (loop : LeaseLoop) (outcome : LeaseKeyOutcome) : LeaseLoop :=
  ⟨outcome.store, loop.leased ++ outcome.record.toList, loop.mutated || outcome.mutated⟩

/-- A loop of `lease_matching`: lease key after key until there are `limit` records. -/
def leaseKeys (req : LeaseRequest) (fromExpiredLease : Bool) (limit : ℕ) :
    List DueIndexKey → LeaseLoop → LeaseLoop
  | [], loop => loop
  | key :: keys, loop =>
    if limit ≤ loop.leased.length then loop
    else
      leaseKeys req fromExpiredLease limit keys
        (loop.after (loop.store.leaseKey req fromExpiredLease key))

/-- The write transaction of `lease_matching`. -/
def leaseMatching (s : Store) (nowMs : UInt64) (batchLimit : ℕ) (leaseDur : Duration)
    (dept : Option String) (excluded : Std.ExtTreeSet String)
    (expiredKeys readyKeys : List DueIndexKey) : Store × List DeliveryRecord :=
  let req : LeaseRequest := ⟨nowMs, saturatingAdd nowMs (durationMillis leaseDur), dept, excluded⟩
  let loop := leaseKeys req true (expiredLeaseQuota batchLimit) expiredKeys ⟨s, [], false⟩
  let loop := leaseKeys req false batchLimit readyKeys loop
  if !loop.mutated then (s, loop.leased) else (loop.store, loop.leased)

/-- `due_ready_records`. -/
def dueReadyRecords (s : Store) (nowMs : UInt64) : Except StoreError (List DeliveryRecord) := do
  let keys ← collectDueKeys s.readyByDeptDue none nowMs usizeMax
  return keys.filterMap fun key => s.deliveryById[key.deliveryId]?

/-- The order of `next_due_deterministic`. -/
def compareDue (left right : DeliveryRecord) : Ordering :=
  (compare left.notBeforeMs right.notBeforeMs).then <|
    (compare left.queue right.queue).then <|
      (compare left.dept right.dept).then (compare left.deliveryId right.deliveryId)

/-- The read phase of `next_due_deterministic`. -/
def nextDue (s : Store) (nowMs : UInt64) : Except StoreError (Option DeliveryRecord) := do
  let due ← s.dueReadyRecords nowMs
  return (due.mergeSort fun left right => (compareDue left right).isLE).head?

/-- `lease_delivery`. -/
def leaseDelivery (s : Store) (id : String) (nowMs : UInt64) (leaseDur : Duration) :
    Store × Option DeliveryRecord :=
  let leaseUntil := saturatingAdd nowMs (durationMillis leaseDur)
  match s.deliveryById[id]? with
  | none => (s, none)
  | some record =>
    if record.leaseUntilMs.isSome || record.notBeforeMs > nowMs then (s, none)
    else
      let s := s.removeReady (makeIndexKey record.dept record.notBeforeMs id)
      let s := s.insertDelivery id (record.leased leaseUntil)
      let s := s.insertLeased (makeIndexKey record.dept leaseUntil id)
      (s, some (record.leased leaseUntil))

/-! ## Completing an execution -/

/-- `ack`. -/
def ack (env : Env) (s : Store) (id : String) (leaseGeneration : UInt64) : Store × Bool :=
  match s.deliveryById[id]? with
  | none => (s, false)
  | some current =>
    if current.leaseGeneration = leaseGeneration then
      match current.leaseUntilMs with
      | none => (s, false)
      | some leaseUntil =>
        let s := s.removeLeased (makeIndexKey current.dept leaseUntil id)
        let s := s.removeDeliveryLineageIndex env current
        match prepareDirtyFollowUp current current.notBeforeMs with
        | some followUp => (s.insertRow env id followUp, true)
        | none => (s.removeDelivery id, true)
    else (s, false)

/-- `defer_lock_busy`. -/
def deferLockBusy (env : Env) (s : Store) (id : String) (leaseGeneration : UInt64) (lock : String)
    (policy : RetryPolicy) (nowMs : UInt64) : Store × LockBusyDeferOutcome :=
  match s.deliveryById[id]? with
  | none => (s, .missing)
  | some current =>
    match current.leaseUntilMs with
    | none => (s, .stale)
    | some leaseUntil =>
      if current.leaseGeneration = leaseGeneration then
        let s := s.removeLeased (makeIndexKey current.dept leaseUntil id)
        let s := s.removeDeliveryLineageIndex env current
        (s.insertRow env id (current.deferred env id lock policy nowMs), .scheduled)
      else (s, .stale)

/-- The lines of the terminal branch of `retry` up to where its cases part: the dead letter is
written over whatever dead letter the id had. -/
def writeDead (env : Env) (s : Store) (id : String) (current : DeliveryRecord) (dead : DeadRecord) :
    Store :=
  let s := s.unindexPrevious env id fun _ => id
  let s := s.insertDeadTime (makeDeadTimeIndexKey dead.deadAtMs id)
  let s := s.removeDeliveryLineageIndex env current
  let s := s.insertDead id dead
  s.insertDeadLineageIndex env dead

/-- The terminal branch of `retry`, for a record whose attempts are used up. -/
def retryDead (env : Env) (s : Store) (id : String) (current : DeliveryRecord)
    (failure : RetryFailure) (nowMs : UInt64) : Except StoreError (Store × RetryOutcome) :=
  let followUp := if failure.replayable then none else prepareDirtyFollowUp current nowMs
  let dead := current.exhausted failure.replayable followUp.isSome nowMs
  let s := s.writeDead env id current dead
  if failure.replayable then
    let s := s.insertDeadDue (makeDeadDueIndexKey dead.dept dead.deadAtMs id)
    .ok (s.removeDelivery id, .deadPendingRedrive)
  else
    let s := s.insertTerminal (makeDeadDueIndexKey dead.dept dead.deadAtMs id)
    match followUp with
    | some followUp => .ok (s.insertRow env id followUp, .permanentDead)
    | none => do
      let s ← s.suppressTerminalDelivery id
      return (s.removeDelivery id, .permanentDead)

/-- What `retry` does to a row whose lease is presented. -/
def retryRow (env : Env) (s : Store) (id : String) (record : DeliveryRecord)
    (leaseUntil : UInt64) (failure : RetryFailure) (policy : RetryPolicy) (nowMs : UInt64) :
    Except StoreError (Store × RetryOutcome) :=
  let s := s.removeLeased (makeIndexKey record.dept leaseUntil id)
  let current := record.failed failure
  if policy.maxAttempts ≤ current.attempt then s.retryDead env id current failure nowMs
  else
    let s := s.removeDeliveryLineageIndex env current
    let current := { current with notBeforeMs := retryDue env policy id current.attempt nowMs }
    .ok (s.insertRow env id current, .scheduled)

/-- `retry`. -/
def retry (env : Env) (s : Store) (id : String) (leaseGeneration : UInt64) (failure : RetryFailure)
    (policy : RetryPolicy) (nowMs : UInt64) : Except StoreError (Store × RetryOutcome) :=
  let compacted (s : Store) (outcome : RetryOutcome) : Except StoreError (Store × RetryOutcome) := do
    let (s, _) ← s.compactTerminalDeadRecords env nowMs
    return (s, outcome)
  match s.deliveryById[id]? with
  | none => compacted s .missing
  | some current =>
    match current.leaseUntilMs with
    -- an early return, without compaction
    | none => .ok (s, .stale)
    | some leaseUntil =>
      if current.leaseGeneration ≠ leaseGeneration then compacted s .stale
      else do
        let (s, outcome) ← s.retryRow env id current leaseUntil failure policy nowMs
        compacted s outcome

/-! ## Redriving dead letters -/

/-- Whether a dead letter may be redriven at all, as `collect_due_dead_keys` sees it: one that was
dead-lettered for want of a subscriber waits for a subscriber of its queue. -/
def hasRedriveSubscriber (currentDeptByQueue : Option (Table String String)) (dead : DeadRecord) :
    Bool :=
  !isSubscriberAbsentDeadRecord dead || currentDeptByQueue.any (·.contains dead.queue)

/-- The loop of `collect_due_dead_keys`, with the number of keys that may still be taken. -/
def collectDeadKeys (s : Store) (cooldownMs : UInt64)
    (currentDeptByQueue : Option (Table String String)) (nowMs : UInt64) :
    ℕ → List (String × Unit) → Except StoreError (List DueIndexKey)
  | 0, _ => .ok []
  | _ + 1, [] => .ok []
  | limit + 1, (key, _) :: rest => do
    let parsed ← parseDeadDueIndexKey key
    match s.deadById[parsed.deliveryId]? with
    | none =>
      let keys ← collectDeadKeys s cooldownMs currentDeptByQueue nowMs limit rest
      return parsed :: keys
    | some dead =>
      if dead.deadAtMs ≠ parsed.dueMs then
        let keys ← collectDeadKeys s cooldownMs currentDeptByQueue nowMs limit rest
        return parsed :: keys
      else if deadRedriveCooldownElapsed dead.deadAtMs cooldownMs nowMs then
        if hasRedriveSubscriber currentDeptByQueue dead then
          let keys ← collectDeadKeys s cooldownMs currentDeptByQueue nowMs limit rest
          return parsed :: keys
        else collectDeadKeys s cooldownMs currentDeptByQueue nowMs (limit + 1) rest
      else return []

/-- `collect_due_dead_keys`. -/
def collectDueDeadKeys (s : Store) (policy : RedrivePolicy)
    (currentDeptByQueue : Option (Table String String)) (nowMs : UInt64) (batchLimit : ℕ) :
    Except StoreError (List DueIndexKey) :=
  collectDeadKeys s (durationMillis policy.cooldown) currentDeptByQueue nowMs batchLimit
    (Table.range s.deadByDeptDue deadRangeStart (deadRangeStop nowMs))

/-- The state of the loop of `redrive_due_inner`. -/
structure RedriveLoop where
  store : Store
  result : RedriveResult
  mutated : Bool

/-- The loop is done with a key. -/
def RedriveLoop.changed (loop : RedriveLoop) (s : Store) : RedriveLoop :=
  { loop with store := s, mutated := true }

/-- A dead letter became permanent. -/
def RedriveLoop.died (loop : RedriveLoop) (s : Store) (dead : DeadRecord) : RedriveLoop :=
  ⟨s, { loop.result with permanent := loop.result.permanent ++ [dead] }, true⟩

/-- A dead letter was redriven. -/
def RedriveLoop.revived (loop : RedriveLoop) (s : Store) (record : DeliveryRecord) : RedriveLoop :=
  ⟨s, { loop.result with redriven := loop.result.redriven ++ [record] }, true⟩

/-- The record a redrive would bring back, under the department that now serves its queue if it was
dead-lettered for want of a subscriber; `none` skips the key. -/
def redriveRecord (currentDeptByQueue : Option (Table String String)) (dead : DeadRecord)
    (record : DeliveryRecord) : Option DeliveryRecord :=
  if isSubscriberAbsentDeadRecord dead then
    match currentDeptByQueue with
    | none => none
    | some currentDeptByQueue =>
      match currentDeptByQueue[record.queue]? with
      | none => none
      | some currentDept => some { record with dept := currentDept }
  else some record

/-- Rewrite the row of a dead letter that has become permanent, and index it as terminal. -/
def writePermanent (env : Env) (s : Store) (key : DueIndexKey) (dead : DeadRecord) : Store :=
  let s := s.removeDeadDue key.key
  let s := s.insertDead key.deliveryId dead
  let s := s.insertDeadLineageIndex env dead
  s.insertTerminal (makeDeadDueIndexKey dead.dept dead.deadAtMs key.deliveryId)

/-- A key whose dead letter is gone or has another time. -/
def redriveStaleKey (s : Store) (key : DueIndexKey) : Option DeadRecord → Store
  | none =>
    let s := s.removeDeadDue key.key
    s.removeDeadTime (makeDeadTimeIndexKey key.dueMs key.deliveryId)
  | some dead =>
    let s := s.removeDeadDue key.key
    let s := s.removeDeadTime (makeDeadTimeIndexKey key.dueMs key.deliveryId)
    let s := s.insertDeadTime (makeDeadTimeIndexKey dead.deadAtMs key.deliveryId)
    if shouldIndexDeadRecord dead then
      s.insertDeadDue (makeDeadDueIndexKey dead.dept dead.deadAtMs key.deliveryId)
    else s

/-- The branch of `redrive_due_inner` for a dead letter whose redrives are used up. -/
def redriveExhausted (env : Env) (s : Store) (key : DueIndexKey) (dead : DeadRecord)
    (record : DeliveryRecord) (nowMs : UInt64) : Except StoreError (Store × DeadRecord) :=
  let live := s.deliveryById[key.deliveryId]?
  let livePreservesKeyedDelivery :=
    record.collapseByDedupId && live.any (·.collapseByDedupId)
  let followUp := if live.isNone then prepareDirtyFollowUp record nowMs else none
  let dead := dead.permanently (followUp.isSome || livePreservesKeyedDelivery)
  let s := s.writePermanent env key dead
  match followUp with
  | some followUp => .ok (s.insertRow env key.deliveryId followUp, dead)
  | none =>
    if !livePreservesKeyedDelivery then do
      let s ← s.suppressTerminalDelivery key.deliveryId
      return (s, dead)
    else .ok (s, dead)

/-- The branch of `redrive_due_inner` for a dead letter whose id is live again. -/
def redriveCollision (env : Env) (s : Store) (key : DueIndexKey) (dead : DeadRecord)
    (record live : DeliveryRecord) : Except StoreError (Store × DeadRecord) :=
  let livePreservesKeyedDelivery := record.collapseByDedupId && live.collapseByDedupId
  let dead :=
    { dead.permanently livePreservesKeyedDelivery with
      errorExcerpt := some (errorExcerpt "redrive collision with live delivery") }
  let s := s.writePermanent env key dead
  if !livePreservesKeyedDelivery then do
    let s ← s.suppressTerminalDelivery key.deliveryId
    return (s, dead)
  else .ok (s, dead)

/-- The branch of `redrive_due_inner` that brings a delivery back. -/
def redriveRow (env : Env) (s : Store) (key : DueIndexKey) (dead : DeadRecord)
    (record : DeliveryRecord) : Store :=
  let id := key.deliveryId
  let s := s.removeDeadDue key.key
  let s := s.insertDelivery id record
  let s := s.removeDeadLineageIndex env dead
  let s := s.insertDeliveryLineageIndex env record
  let s := s.insertReady (makeIndexKey record.dept record.notBeforeMs id)
  let s := s.removeDead id
  s.removeDeadTime (makeDeadTimeIndexKey dead.deadAtMs id)

/-- What `redrive_due_inner` does with a dead letter that is due and still has its record. -/
def redriveDue (env : Env) (policy : RedrivePolicy) (nowMs : UInt64) (loop : RedriveLoop)
    (key : DueIndexKey) (dead : DeadRecord) (record : DeliveryRecord) :
    Except StoreError RedriveLoop :=
  let s := loop.store
  if policy.maxRedrives ≤ dead.redriveCount then do
    let (s, dead) ← s.redriveExhausted env key dead record nowMs
    return loop.died s dead
  else match s.deliveryById[key.deliveryId]? with
    | some live => do
      let (s, dead) ← s.redriveCollision env key dead record live
      return loop.died s dead
    | none =>
      let record := record.redriven dead nowMs
      .ok (loop.revived (s.redriveRow env key dead record) record)

/-- The loop body of `redrive_due_inner`. -/
def redriveKey (env : Env) (policy : RedrivePolicy)
    (currentDeptByQueue : Option (Table String String)) (nowMs : UInt64) (loop : RedriveLoop)
    (key : DueIndexKey) : Except StoreError RedriveLoop :=
  let s := loop.store
  match s.deadById[key.deliveryId]? with
  | none => .ok (loop.changed (s.redriveStaleKey key none))
  | some dead =>
    if dead.deadAtMs ≠ key.dueMs then .ok (loop.changed (s.redriveStaleKey key (some dead)))
    else if !deadRedriveCooldownElapsed dead.deadAtMs (durationMillis policy.cooldown) nowMs then
      .ok loop
    else if dead.permanent || !dead.replayable then .ok (loop.changed (s.removeDeadDue key.key))
    else match dead.record with
      | none => do
        let dead := { dead with permanent := true, replayable := false }
        let s ← (s.writePermanent env key dead).suppressTerminalDelivery key.deliveryId
        return loop.died s dead
      | some record =>
        match redriveRecord currentDeptByQueue dead record with
        | none => .ok loop
        | some record => redriveDue env policy nowMs loop key dead record

/-- The loop of `redrive_due_inner`. -/
def redriveKeys (env : Env) (policy : RedrivePolicy)
    (currentDeptByQueue : Option (Table String String)) (nowMs : UInt64) :
    List DueIndexKey → RedriveLoop → Except StoreError RedriveLoop
  | [], loop => .ok loop
  | key :: keys, loop => do
    let loop ← redriveKey env policy currentDeptByQueue nowMs loop key
    redriveKeys env policy currentDeptByQueue nowMs keys loop

/-- The write transaction of `redrive_due_inner`. -/
def redriveDueInner (env : Env) (s : Store) (policy : RedrivePolicy)
    (currentDeptByQueue : Option (Table String String)) (nowMs : UInt64)
    (dueKeys : List DueIndexKey) : Except StoreError (Store × RedriveResult) := do
  let loop ← redriveKeys env policy currentDeptByQueue nowMs dueKeys ⟨s, ⟨[], []⟩, false⟩
  let (compacted, count) ← loop.store.compactTerminalDeadRecords env nowMs
  if loop.mutated || 0 < count then return (compacted, loop.result) else return (s, loop.result)

end Store

end Fkst.Delivery
