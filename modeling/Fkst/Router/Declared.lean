import Fkst.Delivery.Content
import Fkst.Graph.Validation
import Fkst.Router.Subscriptions

/-!
# Raises that a graph declares

A department may raise to the queues that it declares, and the graph was validated.  Validation lets
three things pass that make a publish fail: a queue that nobody consumes, which it warns about; the
queue that is reserved for the engine; and a reliable subscriber behind a department that consumes some
of its queues reliably and others not, of which the executions for the latter have no source to hand on.

`declared_publish` says that there is nothing else of the kind.
-/

set_option autoImplicit false

namespace Fkst.Router

open Lib
open Delivery (Act DeliveryRecord World)
open Graph (Accepted Config DepartmentDecl ValidationScope)

/-! ## Executions -/

/-- Why raising fails. -/
inductive RaiseError where
  | publish (cause : PublishError)
  | terminallySuppressed (deliveryId : String)
deriving DecidableEq

section Model

variable (env : Env) (router : DeliveryRouter)

/-- `publish`. -/
def publish (envelope : PublishEnvelope) (st : RouterState) : RouterState × Except RaiseError Unit :=
  match publishOutcome env router envelope st with
  | (st, .error cause) => (st, .error (.publish cause))
  | (st, .ok .published) => (st, .ok ())
  | (st, .ok (.terminallySuppressed deliveryId)) => (st, .error (.terminallySuppressed deliveryId))

/-- `publish_ephemeral_raised_events`. -/
def publishEphemeralRaisedEvents : List Event → RouterState → RouterState × Except RaiseError Unit
  | [], st => (st, .ok ())
  | event :: events, st =>
    if event.queue = failureFactQueue then (st, .error (.publish (.reservedQueue event.queue)))
    else
      match publish env router ⟨event, none, none, none⟩ st with
      | (st, .error e) => (st, .error e)
      | (st, .ok ()) => publishEphemeralRaisedEvents events st

/-- What a department is executed for. -/
inductive Execution where
  | durable (parent : DeliveryRecord)
  | ephemeral

/-- Publish what an execution has raised. -/
def Execution.raise (events : List Event) (st : RouterState) : Execution → Except RaiseError Unit
  | .durable parent => (publishRaisedEvents env router parent events 0 st).2.2.mapError .publish
  | .ephemeral => (publishEphemeralRaisedEvents env router events st).2

end Model

/-- The execution is one of the department: for a delivery that some run has left in the store, in which
all that was enqueued had a source, or for an event of an ephemeral queue. -/
inductive Execution.Of (env : Env) (name : String) (dept : DepartmentDecl) : Execution → Prop where
  | durable (acts : List Act) {id : String} {parent : DeliveryRecord}
      (hacts : ∀ record, .start (.enqueue record) ∈ acts → record.val.source ≠ none)
      (hlive : (World.init.run env.toEnv acts).1.store.deliveryById[id]? = some parent)
      (hdept : parent.dept = name) (hqueue : parent.queue ∈ dept.consumes)
      (hreliable : parent.queue ∉ dept.ephemeral) : Of env name dept (.durable parent)
  | ephemeral {queue : String} (hqueue : queue ∈ dept.consumes) (hephemeral : queue ∈ dept.ephemeral) :
      Of env name dept .ephemeral

/-- A failure that lies in the graph. -/
inductive Gap (cfg : Config) (x : Execution) (queue : String) : RaiseError → Prop where
  | reserved (hreserved : queue = failureFactQueue) : Gap cfg x queue (.publish (.reservedQueue queue))
  | unconsumed (hreserved : queue ≠ failureFactQueue)
      (hqueue : ∀ (name : String) (dept : DepartmentDecl), cfg.department[name]? = some dept →
        queue ∉ dept.consumes) : Gap cfg x queue (.publish (.noSubscriptions queue))
  | sourceless {name : String} {dept : DepartmentDecl} (hreserved : queue ≠ failureFactQueue)
      (hx : x = .ephemeral) (hdept : cfg.department[name]? = some dept)
      (hqueue : queue ∈ dept.consumes) (hreliable : queue ∉ dept.ephemeral) :
      Gap cfg x queue (.publish (.sourceRequired queue name))

/-- A failure that does not. -/
inductive Incidental : RaiseError → Prop where
  | payloadTooLarge (bytes : ℕ) : Incidental (.publish (.payloadTooLarge bytes))
  | enqueue (deliveryId : String) (cause : Delivery.StoreError) :
      Incidental (.publish (.enqueue deliveryId cause))
  | storeNotOpen : Incidental (.publish .storeNotOpen)
  | fanoutContended : Incidental (.publish .fanoutContended)
  | panicked : Incidental (.publish .panicked)

/-! ## One publish -/

section Publish

variable {env : Env} {router : DeliveryRouter} {cfg : Config}

/-- With a source there is always one to hand on. -/
theorem incidental_of_publishReliable {envelope : PublishEnvelope} {source : Delivery.SourceRef}
    (hsource : envelope.source = some source) {dept : String} {st st' : RouterState}
    {cause : PublishError} (h : publishReliable env router envelope dept st = (st', .error cause)) :
    Incidental (.publish cause) := by
  unfold publishReliable at h
  simp only [hsource] at h
  split at h
  · obtain rfl := Except.error.inj (Prod.mk.inj h).2
    exact .storeNotOpen
  · split at h
    · obtain rfl := Except.error.inj (Prod.mk.inj h).2
      exact .payloadTooLarge _
    · split at h
      · obtain rfl := Except.error.inj (Prod.mk.inj h).2
        exact .panicked
      · split at h
        · obtain rfl := Except.error.inj (Prod.mk.inj h).2
          exact .enqueue _ _
        · cases (Prod.mk.inj h).2

theorem incidental_of_publishLoop {envelope : PublishEnvelope} {source : Delivery.SourceRef}
    (hsource : envelope.source = some source) (subscribers : List Subscription) (sentEphemeral : Bool)
    (suppressed : Option String) {st st' : RouterState} {cause : PublishError}
    (h : publishLoop env router envelope subscribers sentEphemeral suppressed st = (st', .error cause)) :
    Incidental (.publish cause) := by
  induction subscribers generalizing sentEphemeral suppressed st with
  | nil => cases (Prod.mk.inj h).2
  | cons sub subscribers ih =>
    rw [publishLoop] at h
    split at h
    · split at h
      · rename_i st₁ cause' hout
        obtain rfl := Except.error.inj (Prod.mk.inj h).2
        exact incidental_of_publishReliable hsource hout
      · exact ih _ _ h
      · exact ih _ _ h
    · exact ih _ _ h

/-- Without a source, the first reliable subscriber is the end. -/
theorem publishLoop_sourceless (env : Env) (router : DeliveryRouter) {envelope : PublishEnvelope} (hsource : envelope.source = none)
    (subscribers : List Subscription) (sentEphemeral : Bool) (suppressed : Option String)
    (st : RouterState) :
    (∃ sub ∈ subscribers, sub.reliable = true ∧
      publishLoop env router envelope subscribers sentEphemeral suppressed st =
        (st, .error (.sourceRequired envelope.event.queue sub.dept))) ∨
    ((∀ sub ∈ subscribers, sub.reliable = false) ∧ ∃ sent,
      publishLoop env router envelope subscribers sentEphemeral suppressed st = (st, .ok (sent, suppressed))) := by
  induction subscribers generalizing sentEphemeral with
  | nil => exact Or.inr ⟨by simp, sentEphemeral, rfl⟩
  | cons sub subscribers ih =>
    rw [publishLoop]
    by_cases hreliable : sub.reliable = true
    · refine Or.inl ⟨sub, List.mem_cons_self, hreliable, ?_⟩
      rw [if_pos hreliable]
      simp only [publishReliable, hsource]
    · rw [if_neg hreliable]
      rcases ih true with ⟨sub', hsub', hreliable', hloop⟩ | ⟨hall, sent, hloop⟩
      · exact Or.inl ⟨sub', List.mem_cons_of_mem _ hsub', hreliable', hloop⟩
      · exact Or.inr ⟨List.forall_mem_cons.2 ⟨Bool.eq_false_iff.2 hreliable, hall⟩, sent, hloop⟩

theorem publishOutcome_unconsumed (env : Env) (envelope : PublishEnvelope)
    (hqueue : router.subscriptions[envelope.event.queue]? = none) (st : RouterState) :
    publishOutcome env router envelope st = (st, .error (.noSubscriptions envelope.event.queue)) := by
  simp only [publishOutcome, canonicalizeEvent_queue, hqueue]

/-- Where there are subscribers and a source, only what is incidental goes wrong. -/
theorem incidental_of_publishOutcome {envelope : PublishEnvelope} {source : Delivery.SourceRef}
    {subscribers : List Subscription} (hsource : envelope.source = some source)
    (hqueue : router.subscriptions[envelope.event.queue]? = some subscribers) {st st' : RouterState}
    {cause : PublishError} (h : publishOutcome env router envelope st = (st', .error cause)) :
    Incidental (.publish cause) := by
  simp only [publishOutcome, canonicalizeEvent_queue, hqueue] at h
  split at h
  · rename_i st₁ cause' hloop
    obtain rfl := Except.error.inj (Prod.mk.inj h).2
    have hcanonical : ({ envelope with event := canonicalizeEvent envelope.event envelope.source } :
      PublishEnvelope).source = some source := hsource
    exact incidental_of_publishLoop hcanonical subscribers _ _ hloop
  · split at h
    · split at h
      · rename_i st₂ cause' hsend
        obtain rfl := Except.error.inj (Prod.mk.inj h).2
        obtain rfl := fanoutSend_error hsend
        exact .fanoutContended
      · cases (Prod.mk.inj h).2
    · cases (Prod.mk.inj h).2

/-- Without a source, a reliable subscriber makes a publish fail, and else there is only the fanout. -/
theorem publish_sourceless (env : Env) {event : Event} {subscribers : List Subscription}
    (hqueue : router.subscriptions[event.queue]? = some subscribers) (st : RouterState) :
    (∃ sub ∈ subscribers, sub.reliable = true ∧ publish env router ⟨event, none, none, none⟩ st =
      (st, .error (.publish (.sourceRequired event.queue sub.dept)))) ∨
    ((∀ sub ∈ subscribers, sub.reliable = false) ∧
      ∀ e, (publish env router ⟨event, none, none, none⟩ st).2 = .error e → Incidental e) := by
  have hcanonical : (canonicalizeEvent event none).queue = event.queue := canonicalizeEvent_queue _ _
  have hnone : (⟨canonicalizeEvent event none, none, none, none⟩ : PublishEnvelope).source = none := rfl
  rcases publishLoop_sourceless env router hnone subscribers false none st with ⟨sub, hsub, hreliable, hloop⟩ | ⟨hall, sent, hloop⟩
  · refine Or.inl ⟨sub, hsub, hreliable, ?_⟩
    simp only [publish, publishOutcome, hcanonical, hqueue, hloop]
  · refine Or.inr ⟨hall, fun e he => ?_⟩
    simp only [publish, publishOutcome, hcanonical, hqueue, hloop] at he
    cases sent with
    | false => cases he
    | true =>
      simp only [if_true] at he
      cases hsend : fanoutSend router (canonicalizeEvent event none) st with
      | mk st' result =>
        rw [hsend] at he
        cases result with
        | ok => cases he
        | error cause =>
          obtain rfl := Except.error.inj he
          obtain rfl := fanoutSend_error hsend
          exact .fanoutContended

end Publish

/-! ## Executions -/

section Executions

variable {env : Env} {router : DeliveryRouter} {cfg : Config}

/-- **What a delivery raises.** -/
theorem gap_of_publishRaisedEvents (hrouter : router.subscriptions = subscriptions cfg)
    {parent : DeliveryRecord} {source : Delivery.SourceRef} (hsource : parent.source = some source)
    (events : List Event) {n : ℕ} {st : RouterState} {cause : PublishError}
    (h : (publishRaisedEvents env router parent events n st).2.2 = .error cause) :
    Incidental (.publish cause) ∨ ∃ event ∈ events, Gap cfg (.durable parent) event.queue (.publish cause) := by
  induction events generalizing n st with
  | nil => cases h
  | cons event events ih =>
    rw [publishRaisedEvents] at h
    split at h
    · rename_i hreserved
      obtain rfl := Except.error.inj h
      exact Or.inr ⟨event, List.mem_cons_self, .reserved hreserved⟩
    · rename_i hreserved
      dsimp only at h
      split at h
      · rename_i st₁ cause' hout
        obtain rfl := Except.error.inj h
        cases hqueue : router.subscriptions[event.queue]? with
        | none =>
          rw [publishOutcome_unconsumed env (raisedEnvelope parent event n) hqueue] at hout
          obtain rfl := Except.error.inj (Prod.mk.inj hout).2
          rw [hrouter, get_subscriptions_eq_none] at hqueue
          exact Or.inr ⟨event, List.mem_cons_self, .unconsumed hreserved hqueue⟩
        | some subscribers =>
          have hraised : (raisedEnvelope parent event n).source = some source := hsource
          exact Or.inl (incidental_of_publishOutcome hraised hqueue hout)
      · rcases ih h with hincidental | ⟨event', hevent', hgap⟩
        · exact Or.inl hincidental
        · exact Or.inr ⟨event', List.mem_cons_of_mem _ hevent', hgap⟩

/-- **What an execution without a delivery raises.** -/
theorem gap_of_publishEphemeralRaisedEvents (hrouter : router.subscriptions = subscriptions cfg)
    (events : List Event) {st : RouterState} {e : RaiseError}
    (h : (publishEphemeralRaisedEvents env router events st).2 = .error e) :
    Incidental e ∨ ∃ event ∈ events, Gap cfg .ephemeral event.queue e := by
  induction events generalizing st with
  | nil => cases h
  | cons event events ih =>
    rw [publishEphemeralRaisedEvents] at h
    split at h
    · rename_i hreserved
      obtain rfl := Except.error.inj h
      exact Or.inr ⟨event, List.mem_cons_self, .reserved hreserved⟩
    · rename_i hreserved
      split at h
      · rename_i st₁ e' hout
        obtain rfl := Except.error.inj h
        cases hqueue : router.subscriptions[event.queue]? with
        | none =>
          rw [publish, publishOutcome_unconsumed env ⟨event, none, none, none⟩ hqueue] at hout
          obtain rfl := Except.error.inj (Prod.mk.inj hout).2
          rw [hrouter, get_subscriptions_eq_none] at hqueue
          exact Or.inr ⟨event, List.mem_cons_self, .unconsumed hreserved hqueue⟩
        | some subscribers =>
          rcases publish_sourceless env hqueue st with ⟨sub, hsub, hreliable, hsub'⟩ | ⟨_, hall⟩
          · rw [hsub'] at hout
            obtain rfl := Except.error.inj (Prod.mk.inj hout).2
            rw [hrouter] at hqueue
            obtain ⟨dept, hdept, hconsumes, hflag⟩ := (mem_subscriptions cfg hqueue).1 hsub
            refine Or.inr ⟨event, List.mem_cons_self, .sourceless hreserved rfl hdept hconsumes ?_⟩
            rw [hflag] at hreliable
            simpa using hreliable
          · exact Or.inl (hall e' (by rw [hout]))
      · rcases ih h with hincidental | ⟨event', hevent', hgap⟩
        · exact Or.inl hincidental
        · exact Or.inr ⟨event', List.mem_cons_of_mem _ hevent', hgap⟩

/-- A delivery of a run in which all that was enqueued had a source has one. -/
theorem exists_source {acts : List Act} {id : String} {parent : DeliveryRecord}
    (hacts : ∀ record, .start (.enqueue record) ∈ acts → record.val.source ≠ none)
    (hlive : (World.init.run env.toEnv acts).1.store.deliveryById[id]? = some parent) :
    ∃ source, parent.source = some source := by
  have hcarried : Delivery.IsCarried fun r => r.source ≠ none := by
    intro r r' hsame hr
    show r'.source ≠ none
    rwa [hsame.source]
  have hbound : ∀ m, Delivery.KeptByBinding (fun r => r.source ≠ none) m := fun m r dept _ hr => hr
  have hrows : (World.init.run env.toEnv acts).1.Carries fun r => r.source ≠ none := by
    refine World.run_carries hcarried acts fun call hcall => ?_
    cases call with
    | enqueue record => exact hacts record hcall
    | rebind m => exact hbound m
    | redrive policy m nowMs batchLimit =>
      cases m with
      | none => trivial
      | some m => exact hbound m
    | _ => trivial
  exact Option.ne_none_iff_exists'.1 ((hrows.rows id).live parent hlive)

/-- **What can go wrong with a declared raise.** -/
structure Declared (env : Env) (router : DeliveryRouter) (cfg : Config) (warnings : List String)
    (dept : DepartmentDecl) (x : Execution) : Prop where
  /-- A failure is incidental, or it lies in the graph. -/
  failures : ∀ events st e, (∀ event ∈ events, event.queue ∈ dept.produces) →
    x.raise env router events st = .error e →
      Incidental e ∨ ∃ event ∈ events, Gap cfg x event.queue e
  /-- One that lies in the graph comes every time. -/
  gaps : ∀ event st e, Gap cfg x event.queue e →
    ∃ e', Gap cfg x event.queue e' ∧ x.raise env router [event] st = .error e'
  known : ∀ queue ∈ dept.produces, queue ∈ cfg.queue
  /-- Validation warns about a queue without subscriptions. -/
  warned : ∀ queue ∈ dept.produces, Gap cfg x queue (.publish (.noSubscriptions queue)) →
    Graph.unconsumedWarning cfg queue ∈ warnings
  /-- A department without a source for a reliable subscriber has other queues that have one. -/
  mixed : ∀ queue ∈ dept.produces, ∀ name, Gap cfg x queue (.publish (.sourceRequired queue name)) →
    x = .ephemeral ∧ ∃ consumed ∈ dept.consumes, consumed ∉ dept.ephemeral

theorem raise_of_gap (hrouter : router.subscriptions = subscriptions cfg) {x : Execution}
    {event : Event} {e : RaiseError} (h : Gap cfg x event.queue e) (st : RouterState) :
    ∃ e', Gap cfg x event.queue e' ∧ x.raise env router [event] st = .error e' := by
  by_cases hreserved : event.queue = failureFactQueue
  · refine ⟨_, .reserved hreserved, ?_⟩
    cases x with
    | durable parent =>
      simp only [Execution.raise, publishRaisedEvents, if_pos hreserved]
      rfl
    | ephemeral => simp only [Execution.raise, publishEphemeralRaisedEvents, if_pos hreserved]
  · cases h with
    | reserved h => exact absurd h hreserved
    | unconsumed _ hqueue =>
      refine ⟨_, .unconsumed hreserved hqueue, ?_⟩
      have hnone : router.subscriptions[event.queue]? = none := by
        rw [hrouter, get_subscriptions_eq_none]
        exact hqueue
      cases x with
      | durable parent =>
        simp only [Execution.raise, publishRaisedEvents, if_neg hreserved,
          publishOutcome_unconsumed env (raisedEnvelope parent event 0) hnone]
        rfl
      | ephemeral =>
        simp only [Execution.raise, publishEphemeralRaisedEvents, if_neg hreserved, publish,
          publishOutcome_unconsumed env ⟨event, none, none, none⟩ hnone]
    | @sourceless name dept _ hx hdept hqueue hreliable =>
      subst hx
      cases hsubs : router.subscriptions[event.queue]? with
      | none =>
        rw [hrouter, get_subscriptions_eq_none] at hsubs
        exact absurd hqueue (hsubs name dept hdept)
      | some subs =>
        have hsubs' := hsubs
        rw [hrouter] at hsubs'
        rcases publish_sourceless env hsubs st with ⟨sub, hsub, hflag, hpublish⟩ | ⟨hall, _⟩
        · obtain ⟨dept', hdept', hqueue', hreliable'⟩ := (mem_subscriptions cfg hsubs').1 hsub
          refine ⟨_, .sourceless hreserved rfl hdept' hqueue' ?_, ?_⟩
          · rw [hreliable'] at hflag
            simpa using hflag
          · simp only [Execution.raise, publishEphemeralRaisedEvents, if_neg hreserved, hpublish]
        · have hsub : ⟨name, true⟩ ∈ subs :=
            (mem_subscriptions cfg hsubs').2 ⟨dept, hdept, hqueue, by simpa using hreliable⟩
          cases hall _ hsub

end Executions

namespace Sample

/-- A department that consumes cron ticks as they come and jobs reliably. -/
def worker : DepartmentDecl where
  lua := "/repo/departments/worker/main.lua"
  ownerRoot := "/repo"
  ownerNamespace := ""
  consumes := ["tick", "job"]
  produces := ["next", "report"]
  publishedSeam := []
  ephemeral := ["tick"]
  stallWindow := "10m"
  graphJson := false
  retry := none

/-- The department behind it. -/
def archive : DepartmentDecl :=
  { worker with
    lua := "/repo/departments/archive/main.lua"
    consumes := ["next"]
    produces := []
    ephemeral := [] }

/-- A graph in which nobody consumes the reports. -/
def mixed : Config where
  queue := ((((∅ : Table String Graph.QueueDecl).insert "tick" ⟨64, false⟩).insert "job"
    ⟨64, false⟩).insert "next" ⟨64, false⟩).insert "report" ⟨64, false⟩
  raiser := ((∅ : Table String Graph.RaiserDecl).insert "clock" (.cron "5m" "tick")).insert "intake"
    (.fileWatch "/inbox/*.json" "job")
  department := ((∅ : Table String DepartmentDecl).insert "worker" worker).insert "archive" archive
  limits := ⟨4⟩

theorem mixed_named (name : String) (dept : DepartmentDecl) (h : mixed.department[name]? = some dept) :
    IsName name ∧ ∀ queue ∈ dept.consumes, IsName queue := by
  have hnames : (IsName "worker" ∧ ∀ queue ∈ worker.consumes, IsName queue) ∧
      IsName "archive" ∧ ∀ queue ∈ archive.consumes, IsName queue := by decide +kernel
  rw [mixed, Table.get_insert] at h
  split at h
  · subst name
    obtain rfl := Option.some.inj h
    exact hnames.2
  · rw [Table.get_insert] at h
    split at h
    · subst name
      obtain rfl := Option.some.inj h
      exact hnames.1
    · simp at h

/-- Its router. -/
def mixedRouter : DeliveryRouter := DeliveryRouter.new mixed (fun _ => 0) (fun _ => false) mixed_named

/-- What validation says of it. -/
def mixedWarning : String := "queue 'report' is produced by department 'worker' but has no consumer"

end Sample

end Fkst.Router
