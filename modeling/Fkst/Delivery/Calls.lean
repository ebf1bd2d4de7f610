import Fkst.Delivery.Open
import Fkst.Lib.Machine

/-!
# Calls, transactions and runs

A public operation of the store is a `Call`.  Some calls read the tables first, in a read
transaction of their own, and come back later with what they found; `plan` is that read phase, and
a `Txn` is what is left to do: the arguments of the call and the candidates it read.  `commit` is
the write transaction.

There are two notions of a run.  `Store.run` performs every call in one go.  In a `World` any number
of calls are under way at the same time: a call is planned against the tables of one moment and
committed against those of a later one, with any number of other commits in between, or never.
-/

set_option autoImplicit false

namespace Fkst.Delivery

open Lib

/-- A call of a public operation. -/
inductive Call where
  | enqueue (record : FreshRecord)
  | rebind (currentDeptByQueue : Table String String)
  | sweep (currentSubscriberQueues : Std.ExtTreeSet String) (nowMs : UInt64) (budget : Duration)
    (batchLimit : ℕ)
  | renew (renewals : List (String × UInt64)) (leaseUntilMs : UInt64)
  /-- `lease` without a department, `lease_for_dept_excluding` with one. -/
  | lease (nowMs : UInt64) (batchLimit : ℕ) (leaseDur : Duration) (dept : Option String)
    (excluded : Std.ExtTreeSet String)
  | nextDue (nowMs : UInt64) (leaseDur : Duration)
  | ack (id : String) (leaseGeneration : UInt64)
  | deferLockBusy (id : String) (leaseGeneration : UInt64) (lock : String) (policy : RetryPolicy)
    (nowMs : UInt64)
  | retry (id : String) (leaseGeneration : UInt64) (failure : RetryFailure) (policy : RetryPolicy)
    (nowMs : UInt64)
  /-- `redrive_due`, or with a map `redrive_due_with_current_subscribers`. -/
  | redrive (policy : RedrivePolicy) (currentDeptByQueue : Option (Table String String))
    (nowMs : UInt64) (batchLimit : ℕ)
  | reopen

/-- What a call has left to do once it has read its candidates. -/
inductive Txn where
  | enqueue (record : FreshRecord)
  | rebind (currentDeptByQueue : Table String String)
  | sweep (currentSubscriberQueues : Std.ExtTreeSet String) (nowMs : UInt64) (budget : Duration)
    (candidates : List String)
  | renew (renewals : List (String × UInt64)) (leaseUntilMs : UInt64)
  | lease (nowMs : UInt64) (batchLimit : ℕ) (leaseDur : Duration) (dept : Option String)
    (excluded : Std.ExtTreeSet String) (expiredKeys readyKeys : List DueIndexKey)
  | leaseDelivery (id : String) (nowMs : UInt64) (leaseDur : Duration)
  | ack (id : String) (leaseGeneration : UInt64)
  | deferLockBusy (id : String) (leaseGeneration : UInt64) (lock : String) (policy : RetryPolicy)
    (nowMs : UInt64)
  | retry (id : String) (leaseGeneration : UInt64) (failure : RetryFailure) (policy : RetryPolicy)
    (nowMs : UInt64)
  | redrive (policy : RedrivePolicy) (currentDeptByQueue : Option (Table String String))
    (nowMs : UInt64) (dueKeys : List DueIndexKey)
  | reopen

/-- What a transaction answers. -/
inductive Reply where
  | enqueue (outcome : EnqueueOutcome)
  | rebind (rebound : List ReboundDelivery)
  | sweep (sweep : SubscriberAbsentSweep)
  | renew (applied : Table String DeliveryRecord)
  | lease (leased : List DeliveryRecord)
  | leaseDelivery (record : Option DeliveryRecord)
  | ack (applied : Bool)
  | deferLockBusy (outcome : LockBusyDeferOutcome)
  | retry (outcome : RetryOutcome)
  | redrive (result : RedriveResult)
  | reopen

namespace Store

/-- The read phase of a call.  `none` says that the call returns without writing. -/
def plan (s : Store) : Call → Except StoreError (Option Txn)
  | .enqueue record => .ok (some (.enqueue record))
  | .rebind currentDeptByQueue => .ok (some (.rebind currentDeptByQueue))
  | .sweep currentSubscriberQueues nowMs budget batchLimit =>
    if batchLimit = 0 then .ok none
    else
      let candidates := s.collectSubscriberAbsenceCandidates currentSubscriberQueues batchLimit
      if candidates.isEmpty then .ok none
      else .ok (some (.sweep currentSubscriberQueues nowMs budget candidates))
  | .renew renewals leaseUntilMs =>
    if renewals.isEmpty then .ok none else .ok (some (.renew renewals leaseUntilMs))
  | .lease nowMs batchLimit leaseDur dept excluded =>
    if batchLimit = 0 then .ok none
    else do
      let (expiredKeys, readyKeys) ← s.collectLeaseableKeys nowMs batchLimit dept excluded
      if expiredKeys.isEmpty && readyKeys.isEmpty then return none
      else return some (.lease nowMs batchLimit leaseDur dept excluded expiredKeys readyKeys)
  | .nextDue nowMs leaseDur => do
    let next ← s.nextDue nowMs
    return next.map fun next => .leaseDelivery next.deliveryId nowMs leaseDur
  | .ack id leaseGeneration => .ok (some (.ack id leaseGeneration))
  | .deferLockBusy id leaseGeneration lock policy nowMs =>
    .ok (some (.deferLockBusy id leaseGeneration lock policy nowMs))
  | .retry id leaseGeneration failure policy nowMs =>
    .ok (some (.retry id leaseGeneration failure policy nowMs))
  | .redrive policy currentDeptByQueue nowMs batchLimit =>
    if batchLimit = 0 then .ok none
    else do
      let dueKeys ← s.collectDueDeadKeys policy currentDeptByQueue nowMs batchLimit
      if dueKeys.isEmpty then return none
      else return some (.redrive policy currentDeptByQueue nowMs dueKeys)
  | .reopen => .ok (some .reopen)

/-- The write transaction of a call. -/
def commit (env : Env) (s : Store) : Txn → Except StoreError (Store × Reply)
  | .enqueue record => do
    let (s, outcome) ← s.enqueue env record.val
    return (s, .enqueue outcome)
  | .rebind currentDeptByQueue =>
    let (s, rebound) := s.rebindDeliveriesToCurrentSubscribers env currentDeptByQueue
    .ok (s, .rebind rebound)
  | .sweep currentSubscriberQueues nowMs budget candidates => do
    let (s, sweep) ← s.sweepSubscriberAbsence env currentSubscriberQueues nowMs budget candidates
    return (s, .sweep sweep)
  | .renew renewals leaseUntilMs =>
    let (s, applied) := s.renewLeases renewals leaseUntilMs
    .ok (s, .renew applied)
  | .lease nowMs batchLimit leaseDur dept excluded expiredKeys readyKeys =>
    let (s, leased) :=
      s.leaseMatching nowMs batchLimit leaseDur dept excluded expiredKeys readyKeys
    .ok (s, .lease leased)
  | .leaseDelivery id nowMs leaseDur =>
    let (s, record) := s.leaseDelivery id nowMs leaseDur
    .ok (s, .leaseDelivery record)
  | .ack id leaseGeneration =>
    let (s, applied) := s.ack env id leaseGeneration
    .ok (s, .ack applied)
  | .deferLockBusy id leaseGeneration lock policy nowMs =>
    let (s, outcome) := s.deferLockBusy env id leaseGeneration lock policy nowMs
    .ok (s, .deferLockBusy outcome)
  | .retry id leaseGeneration failure policy nowMs => do
    let (s, outcome) ← s.retry env id leaseGeneration failure policy nowMs
    return (s, .retry outcome)
  | .redrive policy currentDeptByQueue nowMs dueKeys => do
    let (s, result) ← s.redriveDueInner env policy currentDeptByQueue nowMs dueKeys
    return (s, .redrive result)
  | .reopen => do
    let s ← s.«open» env
    return (s, .reopen)

/-! ## Atomic runs -/

/-- A call in one go.  A call that fails leaves the tables as they were. -/
def perform (env : Env) (s : Store) (call : Call) : Store :=
  match s.plan call with
  | .ok (some txn) =>
    match s.commit env txn with
    | .ok (s', _) => s'
    | .error _ => s
  | _ => s

/-- One call after the other. -/
def run (env : Env) (s : Store) (calls : List Call) : Store := calls.foldl (perform env) s

end Store

/-! ## Overlapping runs -/

/-- A committed transaction, with the tables it found and those it left. -/
structure Entry where
  before : Store
  txn : Txn
  reply : Reply
  after : Store

/-- The tables, and the calls that have read them and not written yet. -/
structure World where
  store : Store
  pending : List Txn

/-- What can happen next: a call starts, or one that is under way writes. -/
inductive Act where
  | start (call : Call)
  | finish (i : ℕ)

namespace World

/-- A fresh database with no calls under way. -/
def init : World := ⟨.empty, []⟩

/-- One act, and what it committed. -/
def step (env : Env) (w : World) : Act → World × Option Entry
  | .start call =>
    match w.store.plan call with
    | .ok (some txn) => (⟨w.store, w.pending ++ [txn]⟩, none)
    | _ => (w, none)
  | .finish i =>
    match w.pending[i]? with
    | none => (w, none)
    | some txn =>
      match w.store.commit env txn with
      | .ok (s, reply) => (⟨s, w.pending.eraseIdx i⟩, some ⟨w.store, txn, reply, s⟩)
      | .error _ => (⟨w.store, w.pending.eraseIdx i⟩, none)

/-- A sequence of acts, and what they committed, in order. -/
def run (env : Env) : World → List Act → World × List Entry := Machine.run (step env)

end World

/-- The acts of calls that do not overlap. -/
def Act.inSequence (calls : List Call) : List Act :=
  calls.flatMap fun call => [.start call, .finish 0]

/-! ## A small example

Data for runs on concrete inputs. -/

namespace Sample

/-- An environment in which all deliveries share one jitter and one lineage key. -/
def env : Env := ⟨fun _ _ => 0, fun _ => ""⟩

/-- A record with no payload, due at once. -/
def record (id : String) (keyed : Bool) : FreshRecord where
  val := {
    deliveryId := id
    queue := "queue"
    dept := "dept"
    payload := .null
    source := none
    cronPayload := none
    observedAtMs := 0
    attempt := 0
    redriveCount := 0
    collapseByDedupId := keyed
    pendingDirty := false
    subscriberAbsentSinceMs := none
    leaseGeneration := 0
    leaseUntilMs := none
    notBeforeMs := 0
    lastErrorExcerpt := none }
  property := by simp [DeliveryRecord.Fresh]

/-- One attempt. -/
def retryPolicy : RetryPolicy := ⟨1, ⟨0, 0⟩, ⟨0, 0⟩⟩

/-- No redrive. -/
def redrivePolicy : RedrivePolicy := ⟨0, ⟨0, 0⟩⟩

end Sample

end Fkst.Delivery
