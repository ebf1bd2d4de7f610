import Fkst.Consumer.Completion
import Fkst.Delivery.Calls

/-!
# The loop of a reliable consumer

`spawn_consumer`: the arms of its `select!` that have to do with durable deliveries, and the
functions they call.  The state of the loop is the map of running deliveries and the channel on which
executions report back; around it are the delivery store, which other parties use at the same time,
and the executions themselves.

One input of the machine is one arm of the `select!`.  Whatever is not up to the loop is part of the
input: what its clock says, whether the database fails, whether the arguments of a child can be
built, and what happens elsewhere before and during each of its calls.  What the router does on
behalf of the loop (dead letters, failure facts) is a matter of the store alone and counts as done
elsewhere.

`Loop.moments` is a record of the step under way.  No function of the loop looks at it.
-/

set_option autoImplicit false

namespace Fkst.Consumer

open Lib
open Delivery

/-! ## Times and bounds -/

/-- `DISPATCH_INTERVAL`. -/
def dispatchInterval : Duration := Duration.fromSecs 1

/-- `DISPATCH_BATCH`. -/
def dispatchBatch : ℕ := 16

/-- `REDRIVE_COOLDOWN`. -/
def redriveCooldown : Duration := Duration.fromSecs 600

/-- `REDRIVE_MAX`. -/
def redriveMax : UInt64 := 3

/-- `retry_lease`. -/
def retryLease (stallWindow : Duration) : Duration :=
  (stallWindow.saturatingAdd dispatchInterval).saturatingAdd (Duration.fromSecs 5)

/-- `renew_interval`. -/
def renewInterval (stallWindow : Duration) : Duration :=
  (retryLease stallWindow).half.max (Duration.fromSecs 1)

/-- `next_renew_at_ms`. -/
def nextRenewAtMs (nowMs : UInt64) (stallWindow : Duration) : UInt64 :=
  saturatingAdd nowMs (durationMillis (renewInterval stallWindow))

/-- `durable_dispatch_capacity`. -/
def durableDispatchCapacity (runningLen maxInFlight admissionBurst : ℕ) : ℕ :=
  min (min (maxInFlight - runningLen) admissionBurst) dispatchBatch

/-! ## The state -/

/-- How far the task of an execution has got. -/
inductive TaskState where
  | running
  /-- The result is in the channel. -/
  | sent
  /-- `JoinHandle::is_finished`. -/
  | finished
deriving DecidableEq

/-- `RunningDelivery`.  Handles are numbered, and what was moved into the task is kept with its
handle. -/
structure RunningDelivery where
  nextRenewAtMs : UInt64
  record : DeliveryRecord
  handle : ℕ
  ran : DeliveryRecord
  task : TaskState
deriving DecidableEq

/-- What a consumer is started with. -/
structure Settings where
  /-- The department. -/
  name : String
  stallWindow : Duration
  retryPolicy : Option RetryPolicy
  lockBusyDefaultBackoff : RetryPolicy
  maxInFlight : ℕ
  admissionBurst : ℕ
  queueCapacity : ℕ

/-- The waiting time after a busy lock. -/
def Settings.lockBusyBackoff (cfg : Settings) : RetryPolicy :=
  cfg.retryPolicy.getD cfg.lockBusyDefaultBackoff

/-- What happens elsewhere. -/
inductive Happening where
  /-- Another party uses the store. -/
  | act (a : Act)
  /-- An execution is over and reports back. -/
  | sends (id : String) (failure : Option DeliveryFailure) (lockBusy : Option LockBusy)
  /-- A task is finished: it has reported back, or it has panicked. -/
  | ends (id : String)

/-- A happening, and when. -/
structure Stamped where
  atMs : UInt64
  what : Happening

/-- What a step of the loop is made of. -/
inductive Event where
  | happens (atMs : UInt64) (what : Happening)
  /-- `renew_running` looks at the clock. -/
  | tick (nowMs : UInt64)
  /-- An operation of the store is called. -/
  | call (nowMs : UInt64) (call : Call)
  /-- `lease_for_dept_excluding` has returned. -/
  | granted (records : List DeliveryRecord)
  /-- An execution enters the map. -/
  | started (nowMs : UInt64) (handle : ℕ) (record : DeliveryRecord)
  /-- A record is handed to `retry_record`. -/
  | handed (record : DeliveryRecord)
  /-- An execution has come back. -/
  | received (handle : ℕ) (done : CompletedDelivery)

/-- An event, and what it found. -/
structure Moment where
  event : Event
  world : World
  running : Table String RunningDelivery

/-- The loop and what is around it. -/
structure Loop where
  world : World
  running : Table String RunningDelivery
  /-- The channel of completed deliveries, each with the handle it comes from. -/
  inbox : List (ℕ × CompletedDelivery)
  nextHandle : ℕ
  moments : List Moment

/-- What surrounds an operation of the store: what happens before the loop looks at its clock and
the operation reads the tables, the time, what happens until the operation writes, and whether the
database fails. -/
structure Turn where
  before : List Stamped
  nowMs : UInt64
  between : List Stamped
  fails : Bool

/-- What surrounds the admission of one leased record. -/
structure Admission where
  /-- Why `spawn_args` failed, if it did. -/
  spawnError : Option String
  turn : Turn

/-- What surrounds a call of `dispatch_due`. -/
structure Dispatch where
  lease : Turn
  admission : DeliveryRecord → Admission

/-- An arm of the `select!`, or the time in between. -/
inductive Input where
  | wake (dispatch : Dispatch)
  | tick (renew : Turn) (currentDeptByQueue : Table String String) (redrive : Turn)
    (dispatch : Dispatch)
  | completion (turn : Turn)
  | idle (happenings : List Stamped)

namespace Loop

/-- A loop that has just been started. -/
def start (w : World) : Loop := ⟨w, ∅, [], 0, []⟩

/-! ## Elsewhere -/

/-- Write an event down. -/
def note (s : Loop) (e : Event) : Loop :=
  { s with moments := s.moments ++ [⟨e, s.world, s.running⟩] }

section

variable (cfg : Settings) (env : Env)

/-- Something happens elsewhere. -/
def happen (s : Loop) : Happening → Loop
  | .act a => { s with world := (s.world.step env a).1 }
  | .sends id failure lockBusy =>
    match s.running[id]? with
    | some d =>
      if d.task = .running ∧ s.inbox.length < cfg.queueCapacity then
        { s with
          running := s.running.insert id { d with task := .sent }
          inbox := s.inbox ++ [(d.handle, ⟨d.ran, failure, lockBusy⟩)] }
      else s
    | none => s
  | .ends id =>
    match s.running[id]? with
    | some d => { s with running := s.running.insert id { d with task := .finished } }
    | none => s

/-- Things happen elsewhere. -/
def elsewhere (s : Loop) (happenings : List Stamped) : Loop :=
  happenings.foldl (fun s x => (s.note (.happens x.atMs x.what)).happen cfg env x.what) s

/-! ## The functions of the loop -/

/-- A call of the store.  There is no reply if it fails or has nothing to write. -/
def call (s : Loop) (turn : Turn) (c : Call) : Loop × Option Reply :=
  let s := (s.elsewhere cfg env turn.before).note (.call turn.nowMs c)
  match s.world.store.plan c with
  | .ok (some txn) =>
    let s := s.elsewhere cfg env turn.between
    if turn.fails then (s, none)
    else
      match s.world.store.commit env txn with
      | .ok (store, reply) => ({ s with world := { s.world with store := store } }, some reply)
      | .error _ => (s, none)
  | _ => (s.elsewhere cfg env turn.between, none)

/-- The update of one entry after a renewal. -/
def renewEntry (nextRenew : UInt64) (renewed : Table String DeliveryRecord)
    (running : Table String RunningDelivery) (renewal : String × UInt64) :
    Table String RunningDelivery :=
  match running[renewal.1]?, renewed[renewal.1]? with
  | some d, some record =>
    if d.task = .finished then running
    else
      running.insert renewal.1 { d with
        nextRenewAtMs := nextRenew
        record := { d.record with
          leaseUntilMs := record.leaseUntilMs
          leaseGeneration := record.leaseGeneration } }
  | _, _ => running

/-- The deliveries whose lease is to be renewed. -/
def dueRenewals (running : Table String RunningDelivery) (nowMs : UInt64) :
    List (String × UInt64) :=
  let values := running.toList.map Prod.snd
  (values.filter fun d => d.task != .finished && d.nextRenewAtMs ≤ nowMs).map fun d =>
    (d.record.deliveryId, d.record.leaseGeneration)

/-- `renew_running`. -/
def renewRunning (s : Loop) (turn : Turn) : Loop :=
  let s := (s.elsewhere cfg env turn.before).note (.tick turn.nowMs)
  let leaseUntil := saturatingAdd turn.nowMs (durationMillis (retryLease cfg.stallWindow))
  let renewals := dueRenewals s.running turn.nowMs
  if renewals.isEmpty then s.elsewhere cfg env turn.between
  else
    match s.call cfg env { turn with before := [] } (.renew renewals leaseUntil) with
    | (s, some (.renew renewed)) =>
      let nextRenew := nextRenewAtMs turn.nowMs cfg.stallWindow
      { s with running := renewals.foldl (renewEntry nextRenew renewed) s.running }
    | (s, _) => s

/-- `maintain_dead_letters`. -/
def maintainDeadLetters (s : Loop) (turn : Turn) (currentDeptByQueue : Table String String) : Loop :=
  (s.call cfg env turn
    (.redrive ⟨redriveMax, redriveCooldown⟩ (some currentDeptByQueue) turn.nowMs dispatchBatch)).1

/-- `retry_record`.  Without a retry policy the delivery is dropped. -/
def retryRecord (s : Loop) (turn : Turn) (record : DeliveryRecord) (failure : DeliveryFailure) :
    Loop :=
  let s := s.note (.handed record)
  match cfg.retryPolicy with
  | none => (s.call cfg env turn (.ack record.deliveryId record.leaseGeneration)).1
  | some policy =>
    (s.call cfg env turn (.retry record.deliveryId record.leaseGeneration
      ⟨failure.message, failure.replayable⟩ policy turn.nowMs)).1

/-- `defer_lock_busy_record`. -/
def deferLockBusyRecord (s : Loop) (turn : Turn) (record : DeliveryRecord) (lock : Option String) :
    Loop :=
  (s.call cfg env turn (.deferLockBusy record.deliveryId record.leaseGeneration
    (lock.getD "unknown") cfg.lockBusyBackoff turn.nowMs)).1

/-- `finish_durable_record`. -/
def finishDurableRecord (s : Loop) (turn : Turn) (done : CompletedDelivery) : Loop :=
  match done.lockBusy, done.failure with
  | some lockBusy, _ => s.deferLockBusyRecord cfg env turn done.record lockBusy.lock
  | none, some error => s.retryRecord cfg env turn done.record error
  | none, none => (s.call cfg env turn (.ack done.record.deliveryId done.record.leaseGeneration)).1

/-- `running.insert`. -/
def enter (s : Loop) (d : RunningDelivery) : Loop :=
  { s with
    running := s.running.insert d.record.deliveryId d
    nextHandle := s.nextHandle + 1 }

/-- The body of the loop of `dispatch_due` over the leased records. -/
def takeIn (s : Loop) (a : Admission) (record : DeliveryRecord) : Loop :=
  if record.deliveryId ∈ s.running then s
  else
    match a.spawnError with
    | some error =>
      s.retryRecord cfg env a.turn record (DeliveryFailure.permanent ("build spawn args: " ++ error))
    | none =>
      let s := (s.elsewhere cfg env a.turn.before).note
        (.started a.turn.nowMs s.nextHandle record)
      let s := s.enter
        ⟨nextRenewAtMs a.turn.nowMs cfg.stallWindow, record, s.nextHandle, record, .running⟩
      s.elsewhere cfg env a.turn.between

/-- `dispatch_due`. -/
def dispatchDue (s : Loop) (dispatch : Dispatch) : Loop :=
  let capacity := durableDispatchCapacity s.running.size cfg.maxInFlight cfg.admissionBurst
  if capacity = 0 then s
  else
    let excluded := Std.ExtTreeSet.ofList s.running.keys
    match s.call cfg env dispatch.lease (.lease dispatch.lease.nowMs capacity
      (retryLease cfg.stallWindow) (some cfg.name) excluded) with
    | (s, some (.lease leased)) =>
      leased.foldl (fun s record => s.takeIn cfg env (dispatch.admission record) record)
        (s.note (.granted leased))
    | (s, _) => s

/-- `running.remove`, after a message was taken from the channel. -/
def remove (s : Loop) (done : CompletedDelivery) (rest : List (ℕ × CompletedDelivery)) : Loop :=
  { s with running := s.running.erase done.record.deliveryId, inbox := rest }

/-- The completion arm: the next message of the channel, if anything is running. -/
def complete (s : Loop) (turn : Turn) : Loop :=
  if s.running.isEmpty then s
  else
    match s.inbox with
    | [] => s
    | (handle, done) :: rest =>
      let s := (s.note (.received handle done)).remove done rest
      s.finishDurableRecord cfg env turn done

/-- One arm of the `select!`. -/
def perform (s : Loop) : Input → Loop
  | .wake dispatch => s.dispatchDue cfg env dispatch
  | .tick renew currentDeptByQueue redrive dispatch =>
    let s := s.renewRunning cfg env renew
    let s := s.maintainDeadLetters cfg env redrive currentDeptByQueue
    s.dispatchDue cfg env dispatch
  | .completion turn => s.complete cfg env turn
  | .idle happenings => s.elsewhere cfg env happenings

end

end Loop

/-! ## Runs -/

/-- A step of the loop: the state it found, and the one it left, with the moments of the step. -/
structure LoopStep where
  before : Loop
  after : Loop

namespace Loop

/-- A step. -/
def step (cfg : Settings) (env : Env) (s : Loop) (input : Input) : Loop × Option LoopStep :=
  let s' := { s with moments := [] }.perform cfg env input
  (s', some ⟨s, s'⟩)

/-- A sequence of steps. -/
def run (cfg : Settings) (env : Env) : Loop → List Input → Loop × List LoopStep :=
  Machine.run (step cfg env)

end Loop

end Fkst.Consumer
