import Fkst.Delivery.Calls
import Fkst.Delivery.Slice

/-!
# The life of a delivery

An abstract account of what the store does to *one* delivery id, with no indexes and no other
deliveries in sight.  `Move` lists everything that can happen to the rows of an id, with the
transaction it can happen in; the moves that matter for the history of a delivery carry an `Event`.
The operations of the store are shown to consist of such moves in `Fkst.Delivery.Refinement`, and
every property of whole runs is proved of moves.

A delivery may have a live and a dead row at the same time: an id whose dead letter still waits for
its redrive can be enqueued again.
-/

set_option autoImplicit false

namespace Fkst.Delivery

open Lib

/-- What happened to a delivery. -/
inductive Event where
  /-- A new row. -/
  | inserted
  /-- A lease handed out, with its generation. -/
  | granted (leaseGeneration : UInt64)
  /-- Acknowledged, and gone. -/
  | completed
  /-- Acknowledged while marked dirty: the row starts over as its own follow-up. -/
  | followedUp
  /-- Failed, and scheduled again. -/
  | retried
  /-- Failed for the last time, and dead-lettered for a redrive. -/
  | deadLettered
  /-- Dead-lettered because its queue has no subscriber. -/
  | swept
  /-- Failed for good. -/
  | terminated
  /-- Failed for good while marked dirty: the row starts over as its own follow-up. -/
  | terminatedFollowedUp
  /-- A dead letter brought back. -/
  | redriven
  /-- A dead letter given up. -/
  | killed
  /-- A dead letter given up while marked dirty: its follow-up becomes live. -/
  | killedFollowedUp
deriving DecidableEq

/-- The clock of a transaction that compacts the terminal dead rows. -/
def Txn.clock : Txn → Option UInt64
  | .enqueue record => some record.val.observedAtMs
  | .sweep _ nowMs _ _ => some nowMs
  | .retry _ _ _ _ nowMs => some nowMs
  | .redrive _ _ nowMs _ => some nowMs
  | _ => none

/-- A row that a lease may be granted on. -/
def DeliveryRecord.Leaseable (r : DeliveryRecord) (nowMs : UInt64) : Prop :=
  (r.leaseUntilMs = none ∧ r.notBeforeMs ≤ nowMs) ∨ ∃ u, r.leaseUntilMs = some u ∧ u ≤ nowMs

/-- Whether a live row and the record of a dead letter are of one keyed delivery. -/
def livePreservesKeyedDelivery (live : Option DeliveryRecord) (record : DeliveryRecord) : Bool :=
  record.collapseByDedupId && live.any (·.collapseByDedupId)

/-- A dead letter given up, with the excerpt it then has. -/
def DeadRecord.givenUp (d : DeadRecord) (keyed : Bool) (excerpt : Option String) : DeadRecord :=
  { d.permanently keyed with errorExcerpt := excerpt }

/-- A dead letter that has been one for as long as terminal ones are retained. -/
def DeadRecord.Old (d : DeadRecord) (nowMs : UInt64) : Prop :=
  terminalDeadRetentionMs ≤ nowMs ∧ d.deadAtMs ≤ nowMs - terminalDeadRetentionMs

/-- One thing that happens to the rows of a delivery in a transaction. -/
inductive Move (env : Env) (id : String) : Txn → Option Event → View → View → Prop where
  /-- `enqueue` of an id without a live row. -/
  | insert {v : View} (record : FreshRecord) (hid : record.val.deliveryId = id)
    (hlive : v.live = none) (hsuppressed : v.suppressed = false) :
    Move env id (.enqueue record) (some .inserted) v { v with live := some record.val }
  /-- `enqueue` of a keyed duplicate of a leased delivery. -/
  | mark {v : View} {r : DeliveryRecord} {u : UInt64} (record : FreshRecord)
    (hlive : v.live = some r) (hlease : r.leaseUntilMs = some u)
    (hkeyed : r.collapseByDedupId = true) :
    Move env id (.enqueue record) none v { v with live := some { r with pendingDirty := true } }
  /-- `enqueue` of a keyed duplicate of a delivery whose lease has run out. -/
  | reset {v : View} {r : DeliveryRecord} {u : UInt64} (record : FreshRecord)
    (hlive : v.live = some r) (hlease : r.leaseUntilMs = some u) :
    Move env id (.enqueue record) none v { v with live := some { r with leaseUntilMs := none } }
  /-- `rebind_deliveries_to_current_subscribers`. -/
  | rebind {v : View} {r : DeliveryRecord} (currentDeptByQueue : Table String String)
    (newDept : String) (hlive : v.live = some r) :
    Move env id (.rebind currentDeptByQueue) none v { v with live := some (r.rebound newDept) }
  /-- `sweep_subscriber_absence`, marking or clearing. -/
  | absence {v : View} {r : DeliveryRecord} (queues : Std.ExtTreeSet String) (nowMs : UInt64)
    (budget : Duration) (candidates : List String) (since : Option UInt64)
    (hlive : v.live = some r) :
    Move env id (.sweep queues nowMs budget candidates) none v
      { v with live := some { r with subscriberAbsentSinceMs := since } }
  /-- `sweep_subscriber_absence`, dead-lettering. -/
  | sweep {v : View} {r : DeliveryRecord} (queues : Std.ExtTreeSet String) (nowMs : UInt64)
    (budget : Duration) (candidates : List String) (hlive : v.live = some r) :
    Move env id (.sweep queues nowMs budget candidates) (some .swept) v
      { v with live := none, dead := some (r.absentDead nowMs) }
  /-- `renew_leases`. -/
  | renew {v : View} {r : DeliveryRecord} {u : UInt64} (renewals : List (String × UInt64))
    (leaseUntilMs : UInt64) (hlive : v.live = some r) (hlease : r.leaseUntilMs = some u) :
    Move env id (.renew renewals leaseUntilMs) none v
      { v with live := some { r with leaseUntilMs := some leaseUntilMs } }
  /-- `lease_matching`. -/
  | grant {v : View} {r : DeliveryRecord} (nowMs : UInt64) (batchLimit : ℕ) (leaseDur : Duration)
    (dept : Option String) (excluded : Std.ExtTreeSet String) (expired ready : List DueIndexKey)
    (hlive : v.live = some r) (hdue : r.Leaseable nowMs)
    (hdept : ∀ wanted, dept = some wanted → r.dept = wanted) (hexcluded : id ∉ excluded) :
    Move env id (.lease nowMs batchLimit leaseDur dept excluded expired ready)
      (some (.granted (saturatingAdd r.leaseGeneration 1))) v
      { v with live := some (r.leased (saturatingAdd nowMs (durationMillis leaseDur))) }
  /-- `lease_delivery`. -/
  | grantNext {v : View} {r : DeliveryRecord} (nowMs : UInt64) (leaseDur : Duration)
    (hlive : v.live = some r) (hdue : r.Leaseable nowMs) :
    Move env id (.leaseDelivery id nowMs leaseDur)
      (some (.granted (saturatingAdd r.leaseGeneration 1))) v
      { v with live := some (r.leased (saturatingAdd nowMs (durationMillis leaseDur))) }
  /-- `ack`. -/
  | ack {v : View} {r : DeliveryRecord} {u : UInt64} (hlive : v.live = some r)
    (hlease : r.leaseUntilMs = some u) (hclean : prepareDirtyFollowUp r r.notBeforeMs = none) :
    Move env id (.ack id r.leaseGeneration) (some .completed) v { v with live := none }
  /-- `ack` of a delivery that was marked dirty. -/
  | ackFollowUp {v : View} {r f : DeliveryRecord} {u : UInt64} (hlive : v.live = some r)
    (hlease : r.leaseUntilMs = some u) (hdirty : prepareDirtyFollowUp r r.notBeforeMs = some f) :
    Move env id (.ack id r.leaseGeneration) (some .followedUp) v { v with live := some f }
  /-- `defer_lock_busy`. -/
  | defer {v : View} {r : DeliveryRecord} {u : UInt64} (lock : String) (policy : RetryPolicy)
    (nowMs : UInt64) (hlive : v.live = some r) (hlease : r.leaseUntilMs = some u) :
    Move env id (.deferLockBusy id r.leaseGeneration lock policy nowMs) none v
      { v with live := some (r.deferred env id lock policy nowMs) }
  /-- `retry` with attempts left. -/
  | retry {v : View} {r : DeliveryRecord} {u : UInt64} (failure : RetryFailure)
    (policy : RetryPolicy) (nowMs due : UInt64) (hlive : v.live = some r)
    (hlease : r.leaseUntilMs = some u) (hleft : (r.failed failure).attempt < policy.maxAttempts) :
    Move env id (.retry id r.leaseGeneration failure policy nowMs) (some .retried) v
      { v with live := some { r.failed failure with notBeforeMs := due } }
  /-- The last `retry` of a replayable failure. -/
  | deadLetter {v : View} {r : DeliveryRecord} {u : UInt64} (failure : RetryFailure)
    (policy : RetryPolicy) (nowMs : UInt64) (hlive : v.live = some r)
    (hlease : r.leaseUntilMs = some u) (hused : policy.maxAttempts ≤ (r.failed failure).attempt)
    (hreplayable : failure.replayable = true) :
    Move env id (.retry id r.leaseGeneration failure policy nowMs) (some .deadLettered) v
      { v with live := none, dead := some ((r.failed failure).exhausted true false nowMs) }
  /-- The last `retry` of a failure that is not replayable. -/
  | terminate {v : View} {r : DeliveryRecord} {u : UInt64} (failure : RetryFailure)
    (policy : RetryPolicy) (nowMs : UInt64) (hlive : v.live = some r)
    (hlease : r.leaseUntilMs = some u) (hused : policy.maxAttempts ≤ (r.failed failure).attempt)
    (hreplayable : failure.replayable = false)
    (hclean : prepareDirtyFollowUp (r.failed failure) nowMs = none) :
    Move env id (.retry id r.leaseGeneration failure policy nowMs) (some .terminated) v
      ⟨none, some ((r.failed failure).exhausted false false nowMs), true⟩
  /-- The last `retry` of a failure that is not replayable, of a delivery that was marked dirty. -/
  | terminateFollowUp {v : View} {r f : DeliveryRecord} {u : UInt64} (failure : RetryFailure)
    (policy : RetryPolicy) (nowMs : UInt64) (hlive : v.live = some r)
    (hlease : r.leaseUntilMs = some u) (hused : policy.maxAttempts ≤ (r.failed failure).attempt)
    (hreplayable : failure.replayable = false)
    (hdirty : prepareDirtyFollowUp (r.failed failure) nowMs = some f) :
    Move env id (.retry id r.leaseGeneration failure policy nowMs) (some .terminatedFollowedUp) v
      { v with live := some f, dead := some ((r.failed failure).exhausted false true nowMs) }
  /-- `redrive_due_inner`, bringing a dead letter back. -/
  | redrive {v : View} {d : DeadRecord} {r r' : DeliveryRecord} (policy : RedrivePolicy)
    (currentDeptByQueue : Option (Table String String)) (nowMs : UInt64) (keys : List DueIndexKey)
    (hlive : v.live = none) (hdead : v.dead = some d) (hreplayable : d.replayable = true)
    (hrecord : d.record = some r) (hdept : Store.redriveRecord currentDeptByQueue d r = some r')
    (hcool : deadRedriveCooldownElapsed d.deadAtMs (durationMillis policy.cooldown) nowMs = true)
    (hleft : d.redriveCount < policy.maxRedrives) :
    Move env id (.redrive policy currentDeptByQueue nowMs keys) (some .redriven) v
      { v with live := some (r'.redriven d nowMs), dead := none }
  /-- `redrive_due_inner`, giving a dead letter up: its redrives are used up and there is no
  follow-up, or its id is live again. -/
  | kill {v : View} {d : DeadRecord} {r : DeliveryRecord} (policy : RedrivePolicy)
    (currentDeptByQueue : Option (Table String String)) (nowMs : UInt64) (keys : List DueIndexKey)
    (excerpt : Option String) (hdead : v.dead = some d) (hreplayable : d.replayable = true)
    (hrecord : d.record = some r)
    (hcool : deadRedriveCooldownElapsed d.deadAtMs (durationMillis policy.cooldown) nowMs = true)
    (hwhy : policy.maxRedrives ≤ d.redriveCount ∨ v.live ≠ none)
    (hclean : v.live = none → prepareDirtyFollowUp r nowMs = none) :
    Move env id (.redrive policy currentDeptByQueue nowMs keys) (some .killed) v
      { v with
        dead := some (d.givenUp (livePreservesKeyedDelivery v.live r) excerpt)
        suppressed := v.suppressed || !livePreservesKeyedDelivery v.live r }
  /-- `redrive_due_inner`, giving up a dead letter that was marked dirty. -/
  | killFollowUp {v : View} {d : DeadRecord} {r r' f : DeliveryRecord} (policy : RedrivePolicy)
    (currentDeptByQueue : Option (Table String String)) (nowMs : UInt64) (keys : List DueIndexKey)
    (hlive : v.live = none) (hdead : v.dead = some d) (hreplayable : d.replayable = true)
    (hrecord : d.record = some r) (hdept : Store.redriveRecord currentDeptByQueue d r = some r')
    (hcool : deadRedriveCooldownElapsed d.deadAtMs (durationMillis policy.cooldown) nowMs = true)
    (hused : policy.maxRedrives ≤ d.redriveCount)
    (hdirty : prepareDirtyFollowUp r' nowMs = some f) :
    Move env id (.redrive policy currentDeptByQueue nowMs keys) (some .killedFollowedUp) v
      { v with live := some f, dead := some (d.permanently true) }
  /-- `compact_terminal_dead_records`. -/
  | compact {v : View} {d : DeadRecord} {t : Txn} (nowMs : UInt64) (hclock : t.clock = some nowMs)
    (hdead : v.dead = some d) (hterminal : isTerminalDeadRecord d = true) (hold : d.Old nowMs) :
    Move env id t none v { v with dead := none }

/-- Several moves of one transaction, with their events. -/
abbrev Moves (env : Env) (id : String) (t : Txn) : List Event → View → View → Prop :=
  Lib.Path (Move env id t)

/-! ## Rows as the store writes them -/

/-- A live row is under its own id, and only a keyed delivery is marked dirty. -/
structure DeliveryRecord.Ok (id : String) (r : DeliveryRecord) : Prop where
  deliveryId : r.deliveryId = id
  dirty : r.pendingDirty = true → r.collapseByDedupId = true

/-- A dead row is under its own id, is terminal exactly when it is not replayable, and then has no
record any more; a replayable one has its record, unleased, with the same count of redrives, and
has no keyed successor yet. -/
structure DeadRecord.Ok (id : String) (d : DeadRecord) : Prop where
  deliveryId : d.deliveryId = id
  permanent : d.permanent = !d.replayable
  noRecord : d.replayable = false → d.record = none
  noReuse : d.replayable = true → d.allowsKeyedReuse = false
  record : d.replayable = true → ∃ r, d.record = some r ∧ r.Ok id ∧ r.leaseUntilMs = none ∧
    r.redriveCount = d.redriveCount

/-- The rows of a delivery are as the store writes them, and a terminal dead row without a keyed
successor has suppressed its id. -/
structure View.Ok (id : String) (v : View) : Prop where
  live : ∀ r, v.live = some r → r.Ok id
  dead : ∀ d, v.dead = some d → d.Ok id
  suppressed : ∀ d, v.dead = some d → d.replayable = false → d.allowsKeyedReuse = false →
    v.suppressed = true

namespace DeadRecord.Ok

variable {id : String} {d : DeadRecord}

theorem isTerminal (h : d.Ok id) : isTerminalDeadRecord d = !d.replayable := by
  simp [isTerminalDeadRecord, h.permanent]

theorem shouldIndex (h : d.Ok id) : shouldIndexDeadRecord d = d.replayable := by
  cases hr : d.replayable with
  | false => simp [shouldIndexDeadRecord, hr]
  | true =>
    obtain ⟨r, hrec, _⟩ := h.record hr
    simp [shouldIndexDeadRecord, h.permanent, hr, hrec]

theorem givenUp (h : d.Ok id) (keyed : Bool) (excerpt : Option String) :
    (d.givenUp keyed excerpt).Ok id where
  deliveryId := h.deliveryId
  permanent := rfl
  noRecord _ := rfl
  noReuse hr := absurd hr (by simp [DeadRecord.givenUp, DeadRecord.permanently])
  record hr := absurd hr (by simp [DeadRecord.givenUp, DeadRecord.permanently])

end DeadRecord.Ok

/-- What the follow-up of a delivery looks like. -/
theorem prepareDirtyFollowUp_eq_some {r f : DeliveryRecord} {due : UInt64}
    (h : prepareDirtyFollowUp r due = some f) :
    r.collapseByDedupId = true ∧ r.pendingDirty = true ∧
      f = { r with
        pendingDirty := false
        attempt := 0
        redriveCount := 0
        subscriberAbsentSinceMs := none
        leaseUntilMs := none
        notBeforeMs := due
        lastErrorExcerpt := none } := by
  unfold prepareDirtyFollowUp at h
  split at h
  · cases h
  · rename_i hd
    simp only [Bool.or_eq_true, Bool.not_eq_true', not_or, Bool.not_eq_false] at hd
    exact ⟨hd.1, hd.2, (Option.some.inj h).symm⟩

/-- A delivery that only keyed ones mark dirty has a follow-up exactly when it is marked. -/
theorem prepareDirtyFollowUp_eq_none {r : DeliveryRecord} {due : UInt64}
    (hr : r.pendingDirty = true → r.collapseByDedupId = true)
    (h : prepareDirtyFollowUp r due = none) : r.pendingDirty = false := by
  unfold prepareDirtyFollowUp at h
  split at h
  · rename_i hd
    cases hp : r.pendingDirty with
    | false => rfl
    | true => simp [hr hp, hp] at hd
  · cases h

/-- A redrive may change the department of a record and nothing else. -/
theorem redriveRecord_eq_some {m : Option (Table String String)} {d : DeadRecord}
    {r r' : DeliveryRecord} (h : Store.redriveRecord m d r = some r') :
    ∃ dept, r' = { r with dept := dept } := by
  unfold Store.redriveRecord at h
  split at h
  · split at h
    · cases h
    · split at h
      · cases h
      · exact ⟨_, (Option.some.inj h).symm⟩
  · exact ⟨r.dept, (Option.some.inj h).symm⟩

namespace DeliveryRecord.Ok

variable {id : String} {r : DeliveryRecord}

theorem of_same (h : r.Ok id) {r' : DeliveryRecord} (hid : r'.deliveryId = r.deliveryId)
    (hdirty : r'.pendingDirty = r.pendingDirty)
    (hkeyed : r'.collapseByDedupId = r.collapseByDedupId) : r'.Ok id where
  deliveryId := hid.trans h.deliveryId
  dirty hd := hkeyed ▸ h.dirty (hdirty ▸ hd)

theorem failed (h : r.Ok id) (failure : RetryFailure) : (r.failed failure).Ok id :=
  h.of_same rfl rfl rfl

theorem followUp (h : r.Ok id) {f : DeliveryRecord} {due : UInt64}
    (hf : prepareDirtyFollowUp r due = some f) : f.Ok id := by
  obtain ⟨_, _, rfl⟩ := prepareDirtyFollowUp_eq_some hf
  exact ⟨h.deliveryId, fun hd => absurd hd (by simp)⟩

theorem redriveRecord (h : r.Ok id) {m : Option (Table String String)} {d : DeadRecord}
    {r' : DeliveryRecord} (hdept : Store.redriveRecord m d r = some r') : r'.Ok id := by
  obtain ⟨dept, rfl⟩ := redriveRecord_eq_some hdept
  exact h.of_same rfl rfl rfl

theorem absentDead (h : r.Ok id) (nowMs : UInt64) : (r.absentDead nowMs).Ok id where
  deliveryId := h.deliveryId
  permanent := rfl
  noRecord hr := absurd hr (by simp [DeliveryRecord.absentDead])
  noReuse _ := rfl
  record _ := ⟨r.absent nowMs, rfl, h.of_same rfl rfl rfl, rfl, rfl⟩

theorem exhausted (h : r.Ok id) (hlease : r.leaseUntilMs = none) (replayable reuse : Bool)
    (hreuse : replayable = true → reuse = false) (nowMs : UInt64) :
    (r.exhausted replayable reuse nowMs).Ok id where
  deliveryId := h.deliveryId
  permanent := rfl
  noRecord hr := by
    obtain rfl : replayable = false := hr
    rfl
  noReuse hr := hreuse hr
  record hr := by
    obtain rfl : replayable = true := hr
    exact ⟨r, rfl, h, hlease, rfl⟩

end DeliveryRecord.Ok

namespace View.Ok

variable {id : String} {v : View}

theorem withLive (h : v.Ok id) {r : DeliveryRecord} (hr : r.Ok id) :
    View.Ok id { v with live := some r } :=
  ⟨fun _ hr' => Option.some.inj hr' ▸ hr, h.dead, h.suppressed⟩

theorem withoutLive (h : v.Ok id) : View.Ok id { v with live := none } :=
  ⟨(fun _ hr => by cases hr), h.dead, h.suppressed⟩

theorem withDead (h : v.Ok id) {d : DeadRecord} (hd : d.Ok id) {suppressed : Bool}
    (hs : d.replayable = false → d.allowsKeyedReuse = false → suppressed = true) :
    View.Ok id { v with dead := some d, suppressed := suppressed } :=
  ⟨h.live, fun _ hd' => Option.some.inj hd' ▸ hd, fun _ hd' => Option.some.inj hd' ▸ hs⟩

theorem withoutDead (h : v.Ok id) : View.Ok id { v with dead := none } :=
  ⟨h.live, (fun _ hd => by cases hd), (fun _ hd => by cases hd)⟩

end View.Ok

/-- **A move leaves the rows as the store writes them.** -/
theorem Move.ok {env : Env} {id : String} {t : Txn} {o : Option Event} {v v' : View}
    (h : Move env id t o v v') (hv : v.Ok id) : v'.Ok id := by
  cases h with
  | insert record hid hlive hsuppressed =>
    exact hv.withLive ⟨hid, fun hd => absurd hd (by simp [record.2.2.2.1])⟩
  | mark record hlive hlease hkeyed => exact hv.withLive ⟨(hv.live _ hlive).deliveryId, fun _ => hkeyed⟩
  | reset record hlive hlease => exact hv.withLive ((hv.live _ hlive).of_same rfl rfl rfl)
  | rebind m newDept hlive => exact hv.withLive ((hv.live _ hlive).of_same rfl rfl rfl)
  | absence queues nowMs budget candidates since hlive =>
    exact hv.withLive ((hv.live _ hlive).of_same rfl rfl rfl)
  | sweep queues nowMs budget candidates hlive =>
    exact hv.withoutLive.withDead ((hv.live _ hlive).absentDead nowMs)
      (fun hr => absurd hr (by simp [DeliveryRecord.absentDead]))
  | renew renewals leaseUntilMs hlive hlease =>
    exact hv.withLive ((hv.live _ hlive).of_same rfl rfl rfl)
  | grant nowMs batchLimit leaseDur dept excluded expired ready hlive hdue hdept hexcluded =>
    exact hv.withLive ((hv.live _ hlive).of_same rfl rfl rfl)
  | grantNext nowMs leaseDur hlive hdue => exact hv.withLive ((hv.live _ hlive).of_same rfl rfl rfl)
  | ack hlive hlease hclean => exact hv.withoutLive
  | ackFollowUp hlive hlease hdirty => exact hv.withLive ((hv.live _ hlive).followUp hdirty)
  | defer lock policy nowMs hlive hlease => exact hv.withLive ((hv.live _ hlive).of_same rfl rfl rfl)
  | retry failure policy nowMs due hlive hlease hleft =>
    exact hv.withLive ((hv.live _ hlive).of_same rfl rfl rfl)
  | deadLetter failure policy nowMs hlive hlease hused hreplayable =>
    exact hv.withoutLive.withDead
      (((hv.live _ hlive).failed failure).exhausted rfl true false (fun _ => rfl) nowMs)
      (fun hr => absurd hr (by simp [DeliveryRecord.exhausted]))
  | terminate failure policy nowMs hlive hlease hused hreplayable hclean =>
    exact hv.withoutLive.withDead
      (((hv.live _ hlive).failed failure).exhausted rfl false false (fun _ => rfl) nowMs)
      (fun _ _ => rfl)
  | terminateFollowUp failure policy nowMs hlive hlease hused hreplayable hdirty =>
    exact (hv.withLive (((hv.live _ hlive).failed failure).followUp hdirty)).withDead
      (((hv.live _ hlive).failed failure).exhausted rfl false true (fun hr => by cases hr) nowMs)
      (fun _ hreuse => absurd hreuse (by simp [DeliveryRecord.exhausted]))
  | redrive policy m nowMs keys hlive hdead hreplayable hrecord hdept hcool hleft =>
    obtain ⟨r, hr, hok, _⟩ := (hv.dead _ hdead).record hreplayable
    obtain rfl := Option.some.inj (hrecord.symm.trans hr)
    exact hv.withoutDead.withLive ((hok.redriveRecord hdept).of_same rfl rfl rfl)
  | kill policy m nowMs keys excerpt hdead hreplayable hrecord hcool hwhy hclean =>
    refine hv.withDead ((hv.dead _ hdead).givenUp _ _) ?_
    intro _ hreuse
    simp only [DeadRecord.givenUp, DeadRecord.permanently, Bool.or_eq_false_iff] at hreuse
    simp [hreuse.2]
  | killFollowUp policy m nowMs keys hlive hdead hreplayable hrecord hdept hcool hused hdirty =>
    obtain ⟨r, hr, hok, _⟩ := (hv.dead _ hdead).record hreplayable
    obtain rfl := Option.some.inj (hrecord.symm.trans hr)
    exact (hv.withLive ((hok.redriveRecord hdept).followUp hdirty)).withDead
      ((hv.dead _ hdead).givenUp true _)
      (fun _ hreuse => absurd hreuse (by simp [DeadRecord.givenUp, DeadRecord.permanently]))
  | compact nowMs hclock hdead hterminal hold => exact hv.withoutDead

/-- Moves leave the rows as the store writes them. -/
theorem Moves.ok {env : Env} {id : String} {t : Txn} {l : List Event} {v v' : View}
    (h : Moves env id t l v v') (hv : v.Ok id) : v'.Ok id :=
  h.preserves (P := fun _ v => v.Ok id) (fun _ _ _ _ hv hm => hm.ok hv) hv

end Fkst.Delivery
