import Fkst.Delivery.Runs
import Fkst.Router.Identity
import Fkst.Router.QueueStarvation

/-!
# Publishing raised events

`publish_outcome` of `delivery_router.rs` hands an event to all subscribers of its queue: for a
reliable one it derives an id and enqueues a record, the others get the event from the fanout.
`publish_raised_events` of `consumer.rs` publishes what a delivery raised, one event after the other,
and gives up at the first failure.

The store turns away a record whose id is taken by a delivery with other content.  The theorem of
this file says when a batch can do that to itself.  The ordinal of an event is handed down to
`derive_delivery_identity` to keep the events of a batch apart, but a reliable delivery has a source,
and a source comes before the ordinal: two events with nothing but their payloads to tell them apart
get one id.
-/

set_option autoImplicit false

namespace Fkst.Router

open Lib
open Delivery (DeliveryRecord EnqueueOutcome FreshRecord SourceKind SourceRef Store StoreError View
  World)

/-! ## The router -/

/-- `MAX_DURABLE_PAYLOAD_BYTES`. -/
def maxDurablePayloadBytes : ℕ := 64 * 1024

/-- `FAILURE_FACT_QUEUE`. -/
def failureFactQueue : String := "fkst.failure_fact"

/-- A department that consumes a queue. -/
structure Subscription where
  dept : String
  reliable : Bool
deriving DecidableEq

/-- What the router uses from outside this repository, besides what the store does. -/
structure Env extends Delivery.Env where
  /-- The length of what `serde_json::to_vec` makes of a payload. -/
  payloadBytes : Json → ℕ

/-- `DeliveryRouter`.  The clock and the lock of the fanout are given by what they will answer. -/
structure DeliveryRouter where
  subscriptions : Table String (List Subscription)
  /-- The clock. -/
  clock : ℕ → UInt64
  /-- Whether someone else has the lock of the fanout. -/
  fanoutContended : ℕ → Bool
  /-- The graph scan admits no other names. -/
  named : ∀ queue subscribers, subscriptions[queue]? = some subscribers →
    IsName queue ∧ ∀ sub ∈ subscribers, IsName sub.dept

/-- What publishing changes. -/
structure RouterState where
  store : Option Store
  /-- How often the clock was read or the lock of the fanout was tried. -/
  ticks : ℕ
  /-- What was handed to the fanout. -/
  fanout : List Event

/-- What is published. -/
structure PublishEnvelope where
  event : Event
  source : Option SourceRef
  cronPayload : Option Json
  derived : Option DerivedDelivery

/-- `PublishOutcome`. -/
inductive PublishOutcome where
  | published
  | terminallySuppressed (deliveryId : String)
deriving DecidableEq

/-- Why publishing fails. -/
inductive PublishError where
  | reservedQueue (queue : String)
  | noSubscriptions (queue : String)
  | sourceRequired (queue dept : String)
  | storeNotOpen
  | payloadTooLarge (bytes : ℕ)
  | enqueue (deliveryId : String) (cause : StoreError)
  | fanoutContended
  /-- The panic of a delivery id that is no runtime key. -/
  | panicked
deriving DecidableEq

/-- The text of the error.  For a failure of the store this is the context, which comes in front of
the text of its cause. -/
def PublishError.message : PublishError → String
  | .reservedQueue queue =>
    "reserved engine queue `" ++ queue ++ "` cannot be raised by department output"
  | .noSubscriptions queue => "queue `" ++ queue ++ "` has no delivery subscriptions"
  | .sourceRequired queue dept =>
    "reliable delivery to queue `" ++ queue ++ "` for dept `" ++ dept ++ "` requires source_ref"
  | .storeNotOpen => "reliable delivery store is not open"
  | .payloadTooLarge bytes =>
    "durable delivery payload exceeds " ++ maxDurablePayloadBytes.repr ++ " bytes: " ++ bytes.repr
  | .enqueue deliveryId _ => "enqueue delivery `" ++ deliveryId ++ "`"
  | .fanoutContended => "fanout map lock contention"
  | .panicked => "delivery id should be a runtime-safe key"

/-- `payload_source_kind`. -/
def payloadSourceKind (kind : String) : Option SourceKind :=
  if kind = "file" ∨ kind = "file_watch" then some .file
  else if kind = "cron" then some .cron
  else if kind = "git" then some .git
  else if kind = "external" then some .external
  else none

/-- `payload_source_ref`. -/
def payloadSourceRef (payload : Json) : Option SourceRef := do
  let source ← payload.get "source_ref"
  let kind ← (source.get "kind").bind Json.asStr
  let reference ← ((source.get "reference").bind Json.asStr).filter (!·.isEmpty)
  let kind ← payloadSourceKind kind
  return ⟨kind, reference⟩

/-- The `dedup_key` of a payload. -/
def payloadDedupKey (payload : Json) : Option String :=
  ((payload.get "dedup_key").bind Json.asStr).filter (!·.isEmpty)

namespace PublishEnvelope

/-- What `publish_outcome` derives the identity of a delivery from. -/
def identityArgs (envelope : PublishEnvelope) (source : SourceRef) (dept : String) : IdentityArgs where
  queue := envelope.event.queue
  dept := dept
  source := some source
  derived := envelope.derived
  raisedDedupKey := payloadDedupKey envelope.event.payload
  raisedSourceRef := payloadSourceRef envelope.event.payload

/-- The record of `publish_outcome`. -/
def record (envelope : PublishEnvelope) (source : SourceRef) (dept : String)
    (identity : DeliveryIdentity) (notBeforeMs : UInt64) : DeliveryRecord where
  deliveryId := identity.deliveryId
  queue := envelope.event.queue
  dept := dept
  payload := envelope.event.payload
  source := some source
  cronPayload := envelope.cronPayload
  observedAtMs := envelope.event.ts
  attempt := 0
  redriveCount := 0
  collapseByDedupId := identity.collapseByDedupId
  pendingDirty := false
  subscriberAbsentSinceMs := none
  leaseGeneration := 0
  leaseUntilMs := none
  notBeforeMs := notBeforeMs
  lastErrorExcerpt := none

end PublishEnvelope

/-! ## Publishing -/

section Model

variable (env : Env) (router : DeliveryRouter)

/-- The reliable branch of the loop of `publish_outcome`: the id of the delivery, and what the store
made of it. -/
def publishReliable (envelope : PublishEnvelope) (dept : String) (st : RouterState) :
    RouterState × Except PublishError (String × EnqueueOutcome) :=
  match envelope.source with
  | none => (st, .error (.sourceRequired envelope.event.queue dept))
  | some source =>
    match st.store with
    | none => (st, .error .storeNotOpen)
    | some store =>
      let bytes := env.payloadBytes envelope.event.payload
      if maxDurablePayloadBytes < bytes then (st, .error (.payloadTooLarge bytes))
      else
        match deriveDeliveryIdentity (envelope.identityArgs source dept) with
        | none => (st, .error .panicked)
        | some identity =>
          let record := envelope.record source dept identity (router.clock st.ticks)
          let st := { st with ticks := st.ticks + 1 }
          match store.enqueue env.toEnv record with
          | .error cause => (st, .error (.enqueue record.deliveryId cause))
          | .ok (store, outcome) =>
            ({ st with store := some store }, .ok (record.deliveryId, outcome))

/-- The loop of `publish_outcome`, with whether there is an ephemeral subscriber and the first
delivery that was suppressed. -/
def publishLoop (envelope : PublishEnvelope) : List Subscription → Bool → Option String →
    RouterState → RouterState × Except PublishError (Bool × Option String)
  | [], sentEphemeral, suppressed, st => (st, .ok (sentEphemeral, suppressed))
  | sub :: subscribers, sentEphemeral, suppressed, st =>
    if sub.reliable then
      match publishReliable env router envelope sub.dept st with
      | (st, .error e) => (st, .error e)
      | (st, .ok (_, .accepted)) => publishLoop envelope subscribers sentEphemeral suppressed st
      | (st, .ok (deliveryId, .terminallySuppressed)) =>
        publishLoop envelope subscribers sentEphemeral (suppressed.or (some deliveryId)) st
    else publishLoop envelope subscribers true suppressed st

/-- `Fanout::send`. -/
def fanoutSend (event : Event) (st : RouterState) : RouterState × Except PublishError Unit :=
  if router.fanoutContended st.ticks then
    ({ st with ticks := st.ticks + 1 }, .error .fanoutContended)
  else ({ st with ticks := st.ticks + 1, fanout := st.fanout ++ [event] }, .ok ())

/-- `publish_outcome`. -/
def publishOutcome (envelope : PublishEnvelope) (st : RouterState) :
    RouterState × Except PublishError PublishOutcome :=
  let envelope := { envelope with event := canonicalizeEvent envelope.event envelope.source }
  match router.subscriptions[envelope.event.queue]? with
  | none => (st, .error (.noSubscriptions envelope.event.queue))
  | some subscribers =>
    match publishLoop env router envelope subscribers false none st with
    | (st, .error e) => (st, .error e)
    | (st, .ok (sentEphemeral, suppressed)) =>
      let outcome := match suppressed with
        | some deliveryId => .terminallySuppressed deliveryId
        | none => .published
      if sentEphemeral then
        match fanoutSend router envelope.event st with
        | (st, .error e) => (st, .error e)
        | (st, .ok ()) => (st, .ok outcome)
      else (st, .ok outcome)

/-- The envelope of a raised event. -/
def raisedEnvelope (parent : DeliveryRecord) (event : Event) (ordinal : ℕ) : PublishEnvelope where
  event := { event with ts := parent.observedAtMs }
  source := parent.source
  cronPayload := none
  derived := some ⟨parent.deliveryId, ordinal⟩

/-- `publish_raised_events`, with the next ordinal. -/
def publishRaisedEvents (parent : DeliveryRecord) : List Event → ℕ → RouterState →
    RouterState × ℕ × Except PublishError Unit
  | [], nextOrdinal, st => (st, nextOrdinal, .ok ())
  | event :: events, nextOrdinal, st =>
    if event.queue = failureFactQueue then (st, nextOrdinal, .error (.reservedQueue event.queue))
    else
      let ordinal := nextOrdinal
      let nextOrdinal := usizeSaturatingAdd nextOrdinal 1
      match publishOutcome env router (raisedEnvelope parent event ordinal) st with
      | (st, .error e) => (st, nextOrdinal, .error e)
      | (st, .ok _) => publishRaisedEvents parent events nextOrdinal st

end Model

/-! ## What an `enqueue` does to the live rows -/

section Enqueue

variable {env : Delivery.Env} {s s' : Store} (record : FreshRecord)

/-- A row after an `enqueue` was there before, is the new one, or is of a delivery that was leased. -/
theorem live_of_moves_enqueue {record : FreshRecord} {id : String} {l : List Delivery.Event} {v v' : View}
    (h : Delivery.Moves env id (.enqueue record) l v v') :
    v'.live = v.live ∨ (v.live = none ∧ record.val.deliveryId = id ∧ v'.live = some record.val) ∨
      ∃ r u, v.live = some r ∧ r.leaseUntilMs = some u ∧ v'.live ≠ none := by
  refine h.preserves (P := fun _ w => w.live = v.live ∨
    (v.live = none ∧ record.val.deliveryId = id ∧ w.live = some record.val) ∨
      ∃ r u, v.live = some r ∧ r.leaseUntilMs = some u ∧ w.live ≠ none) ?_ (Or.inl rfl)
  have hfresh : record.val.leaseUntilMs = none := record.2.2.2.2.2.2
  -- a row that is rewritten is leased, so it is not the new one
  have hrewrite : ∀ {w : View} {r r' : DeliveryRecord} {u : UInt64}, w.live = some r →
      r.leaseUntilMs = some u → (w.live = v.live ∨
        (v.live = none ∧ record.val.deliveryId = id ∧ w.live = some record.val) ∨
          ∃ r u, v.live = some r ∧ r.leaseUntilMs = some u ∧ w.live ≠ none) →
      ∃ r u, v.live = some r ∧ r.leaseUntilMs = some u ∧ some r' ≠ none := by
    rintro w r r' u hr hu (hsame | ⟨_, _, hnew⟩ | ⟨r₀, u₀, hr₀, hu₀, _⟩)
    · exact ⟨r, u, hsame ▸ hr, hu, by simp⟩
    · obtain rfl := Option.some.inj (hr.symm.trans hnew)
      rw [hfresh] at hu
      cases hu
    · exact ⟨r₀, u₀, hr₀, hu₀, by simp⟩
  intro l o w w' hw hm
  cases hm with
  | insert _ hid hlive =>
    rcases hw with hsame | ⟨_, _, hnew⟩ | ⟨_, _, _, _, hnone⟩
    · exact Or.inr (Or.inl ⟨hsame ▸ hlive, hid, rfl⟩)
    · rw [hlive] at hnew
      cases hnew
    · exact absurd hlive hnone
  | mark _ hlive hlease => exact Or.inr (Or.inr (hrewrite hlive hlease hw))
  | reset _ hlive hlease => exact Or.inr (Or.inr (hrewrite hlive hlease hw))
  | compact => exact hw

theorem enqueue_live (hs : s.Inv) {outcome : EnqueueOutcome}
    (h : s.enqueue env record.val = .ok (s', outcome)) :
    s'.Inv ∧ ∀ (id : String) (r : DeliveryRecord), s'.deliveryById[id]? = some r →
      s.deliveryById[id]? = some r ∨
      (s.deliveryById[id]? = none ∧ record.val.deliveryId = id ∧ r = record.val) ∨
      ∃ r' u, s.deliveryById[id]? = some r' ∧ r'.leaseUntilMs = some u := by
  have heffect := Store.enqueue_effect hs h
  refine ⟨heffect.inv, fun id r hr => ?_⟩
  rcases live_of_moves_enqueue (heffect.moves id) with hsame | ⟨hnone, hid, hnew⟩ | ⟨r', u, hr', hu, _⟩
  · exact Or.inl (hsame.symm.trans hr)
  · exact Or.inr (Or.inl ⟨hnone, hid, Option.some.inj (hr.symm.trans hnew)⟩)
  · exact Or.inr (Or.inr ⟨r', u, hr', hu⟩)

/-- A conflict is with a delivery of the same id and other content, neither of them keyed. -/
theorem enqueue_conflict (hs : s.Inv) {id : String}
    (h : s.enqueue env record.val = .error (.conflictingDuplicate id)) :
    ∃ current, s.deliveryById[record.val.deliveryId]? = some current ∧
      current.collapseByDedupId = false ∧ record.val.collapseByDedupId = false ∧
      Delivery.sameDeliveryContent current record.val = false := by
  rw [Store.enqueue] at h
  split at h
  · rename_i current hcurrent
    split at h
    · cases h
    · rename_i hkeyed
      split at h
      · cases h
      · rename_i hcontent
        rw [Bool.or_eq_true, not_or, Bool.not_eq_true, Bool.not_eq_true] at hkeyed
        exact ⟨current, hcurrent, hkeyed.1, hkeyed.2, Bool.eq_false_iff.2 hcontent⟩
  · obtain ⟨s1, m, hcompact, _⟩ :=
      Store.compactTerminalDeadRecords_effect env (.enqueue record) hs rfl
    simp only [hcompact, bind, Except.bind] at h
    split at h <;> cases h

end Enqueue

/-! ## Batches -/

/-- A raised event as `publish_outcome` sees it once it is canonical. -/
def canonicalEnvelope (parent : DeliveryRecord) (event : Event) (ordinal : ℕ) : PublishEnvelope :=
  { raisedEnvelope parent event ordinal with
    event := canonicalizeEvent { event with ts := parent.observedAtMs } parent.source }

/-- The payload that is stored for a raised event. -/
def raisedPayload (parent : DeliveryRecord) (event : Event) : Json :=
  (canonicalizeEvent { event with ts := parent.observedAtMs } parent.source).payload

/-- The source of a raised event: its own, or that of its parent. -/
def raisedSource (parent : DeliveryRecord) (event : Event) : Option SourceRef :=
  (payloadSourceRef (raisedPayload parent event)).or parent.source

/-- The department has a reliable subscription of the queue. -/
def DeliveryRouter.Reliable (router : DeliveryRouter) (queue dept : String) : Prop :=
  ∃ subscribers sub, router.subscriptions[queue]? = some subscribers ∧ sub ∈ subscribers ∧
    sub.reliable = true ∧ sub.dept = dept

/-- The id that a raised event gets for a subscriber. -/
def raisedDeliveryId (parent : DeliveryRecord) (event : Event) (ordinal : ℕ) (dept : String) :
    Option String :=
  parent.source.bind fun source =>
    (deliveryKey ((canonicalEnvelope parent event ordinal).identityArgs source dept)).map Prod.fst

/-- Events of the batch with the same queue, of which neither has a `dedup_key` and both have the same
source, have the same payload. -/
def Compatible (router : DeliveryRouter) (parent : DeliveryRecord) (events : List Event) : Prop :=
  ∀ e ∈ events, ∀ e' ∈ events, e.queue = e'.queue → (∃ dept, router.Reliable e.queue dept) →
    payloadDedupKey (raisedPayload parent e) = none →
    payloadDedupKey (raisedPayload parent e') = none → raisedSource parent e = raisedSource parent e' →
    raisedPayload parent e = raisedPayload parent e'

/-- Publishing the batch does not fail on a delivery that the batch itself enqueued: a delivery it
conflicts with was there before. -/
def ConflictsOnlyWithOlder (env : Env) (router : DeliveryRouter) (parent : DeliveryRecord)
    (events : List Event) (nextOrdinal : ℕ) (st : RouterState) : Prop :=
  ∀ id cause, (publishRaisedEvents env router parent events nextOrdinal st).2.2 =
      .error (.enqueue id (.conflictingDuplicate cause)) →
    ∃ s r, st.store = some s ∧ s.deliveryById[id]? = some r

/-- Two events of the batch without a `dedup_key` get different ids for a subscriber, unless they have
the same queue, the same payload and the same source. -/
def DistinctIds (router : DeliveryRouter) (parent : DeliveryRecord) (events : List Event)
    (nextOrdinal : ℕ) : Prop :=
  ∀ i j e e', i ≠ j → events[i]? = some e → events[j]? = some e' →
    payloadDedupKey (raisedPayload parent e) = none →
    payloadDedupKey (raisedPayload parent e') = none →
    ∀ dept, router.Reliable e.queue dept → router.Reliable e'.queue dept →
      raisedDeliveryId parent e (usizeSaturatingAdd nextOrdinal i) dept =
        raisedDeliveryId parent e' (usizeSaturatingAdd nextOrdinal j) dept →
      e.queue = e'.queue ∧ raisedPayload parent e = raisedPayload parent e' ∧
        raisedSource parent e = raisedSource parent e'

section Batch

variable {env : Env} {router : DeliveryRouter} {parent : DeliveryRecord} {source : SourceRef}
  {events : List Event}

@[simp] theorem canonicalEnvelope_queue (parent : DeliveryRecord) (event : Event) (ordinal : ℕ) :
    (canonicalEnvelope parent event ordinal).event.queue = event.queue :=
  canonicalizeEvent_queue _ _

theorem exists_raisedSource (hsource : parent.source = some source) (event : Event) :
    ∃ src, raisedSource parent event = some src := by
  rw [raisedSource, hsource]
  cases payloadSourceRef (raisedPayload parent event) <;> simp

/-- What identifies a raised event of a parent with a source.  The ordinal plays no role. -/
theorem identityKey_canonicalEnvelope (hsource : parent.source = some source) (event : Event)
    (ordinal : ℕ) (dept : String) :
    ((canonicalEnvelope parent event ordinal).identityArgs source dept).identityKey =
      match payloadDedupKey (raisedPayload parent event) with
      | some key => some (.dedup key)
      | none => (raisedSource parent event).map .raisedSource := by
  have hfilter : ∀ o : Option String,
      (o.filter (!·.isEmpty)).filter (!·.isEmpty) = o.filter (!·.isEmpty) := by
    intro o
    cases o with
    | none => rfl
    | some key => cases hkey : key.isEmpty <;> simp [Option.filter, hkey]
  have hdedup : (payloadDedupKey (raisedPayload parent event)).filter (!·.isEmpty) =
      payloadDedupKey (raisedPayload parent event) := hfilter _
  obtain ⟨src, hsrc⟩ := exists_raisedSource hsource event
  have hor : (payloadSourceRef (raisedPayload parent event)).or (some source) = some src := by
    rw [← hsource]
    exact hsrc
  have hkey : ((canonicalEnvelope parent event ordinal).identityArgs source dept).raisedDedupKey =
      payloadDedupKey (raisedPayload parent event) := rfl
  have href : ((canonicalEnvelope parent event ordinal).identityArgs source dept).raisedSourceRef =
      payloadSourceRef (raisedPayload parent event) := rfl
  have hparent : ((canonicalEnvelope parent event ordinal).identityArgs source dept).source = some source := rfl
  have hderived : ((canonicalEnvelope parent event ordinal).identityArgs source dept).derived =
      some ⟨parent.deliveryId, ordinal⟩ := rfl
  rw [IdentityArgs.identityKey, hderived, hkey, href, hparent, hdedup, hor, hsrc]
  cases payloadDedupKey (raisedPayload parent event) <;> rfl

theorem DeliveryRouter.Reliable.isName {queue dept : String} (h : router.Reliable queue dept) :
    IsName queue ∧ IsName dept := by
  obtain ⟨subscribers, sub, hqueue, hsub, _, rfl⟩ := h
  obtain ⟨hname, hdepts⟩ := router.named queue subscribers hqueue
  exact ⟨hname, hdepts sub hsub⟩

/-- The ids of two events without a `dedup_key` are the same exactly when queue and source are. -/
theorem deliveryKey_canonicalEnvelope_eq_iff (hsource : parent.source = some source) {e e' : Event}
    {n n' : ℕ} {dept dept' : String} (hdept : router.Reliable e.queue dept)
    (hdept' : router.Reliable e'.queue dept')
    (hkey : payloadDedupKey (raisedPayload parent e) = none)
    (hkey' : payloadDedupKey (raisedPayload parent e') = none) {p p' : String × Bool}
    (h : deliveryKey ((canonicalEnvelope parent e n).identityArgs source dept) = some p)
    (h' : deliveryKey ((canonicalEnvelope parent e' n').identityArgs source dept') = some p') :
    p.1 = p'.1 ↔ e.queue = e'.queue ∧ dept = dept' ∧
      raisedSource parent e = raisedSource parent e' := by
  have hq : ((canonicalEnvelope parent e n).identityArgs source dept).queue = e.queue :=
    canonicalEnvelope_queue parent e n
  have hq' : ((canonicalEnvelope parent e' n').identityArgs source dept').queue = e'.queue :=
    canonicalEnvelope_queue parent e' n'
  have hsources : (raisedSource parent e).map IdentityKey.raisedSource =
      (raisedSource parent e').map IdentityKey.raisedSource ↔
      raisedSource parent e = raisedSource parent e' := by
    cases raisedSource parent e <;> cases raisedSource parent e' <;> simp
  rw [deliveryKey_eq_iff (hq ▸ hdept.isName.1) hdept.isName.2 (hq' ▸ hdept'.isName.1)
    hdept'.isName.2 h h', identityKey_canonicalEnvelope hsource, identityKey_canonicalEnvelope hsource,
    hkey, hkey', hq, hq', hsources]
  rfl

theorem exists_deliveryKey (hsource : parent.source = some source) (e : Event) (n : ℕ)
    (dept : String) :
    ∃ p, deliveryKey ((canonicalEnvelope parent e n).identityArgs source dept) = some p := by
  obtain ⟨src, hsrc⟩ := exists_raisedSource hsource e
  rw [deliveryKey_eq, identityKey_canonicalEnvelope hsource, hsrc]
  cases payloadDedupKey (raisedPayload parent e) with
  | none => exact ⟨_, rfl⟩
  | some key => exact ⟨_, rfl⟩

/-- **Ids are distinct exactly when the batch is compatible.** -/
theorem distinctIds_iff (hsource : parent.source = some source) (nextOrdinal : ℕ) :
    DistinctIds router parent events nextOrdinal ↔ Compatible router parent events := by
  have hid : ∀ e n dept p,
      deliveryKey ((canonicalEnvelope parent e n).identityArgs source dept) = some p →
      raisedDeliveryId parent e n dept = some p.1 := by
    intro e n dept p hp
    rw [raisedDeliveryId, hsource, Option.bind_some, hp, Option.map_some]
  constructor
  · intro h e he e' he' hqueue hreliable hkey hkey' hsrc
    obtain ⟨i, hi⟩ := List.mem_iff_getElem?.1 he
    obtain ⟨j, hj⟩ := List.mem_iff_getElem?.1 he'
    by_cases hij : i = j
    · subst hij
      rw [Option.some.inj (hi.symm.trans hj)]
    · obtain ⟨dept, hdept⟩ := hreliable
      obtain ⟨p, hp⟩ := exists_deliveryKey hsource e (usizeSaturatingAdd nextOrdinal i) dept
      obtain ⟨p', hp'⟩ := exists_deliveryKey hsource e' (usizeSaturatingAdd nextOrdinal j) dept
      have hsame := (deliveryKey_canonicalEnvelope_eq_iff hsource hdept (hqueue ▸ hdept) hkey hkey' hp
        hp').2 ⟨hqueue, rfl, hsrc⟩
      refine (h i j e e' hij hi hj hkey hkey' dept hdept (hqueue ▸ hdept) ?_).2.1
      rw [hid e _ dept p hp, hid e' _ dept p' hp', hsame]
  · intro h i j e e' _ hi hj hkey hkey' dept hdept hdept' heq
    obtain ⟨p, hp⟩ := exists_deliveryKey hsource e (usizeSaturatingAdd nextOrdinal i) dept
    obtain ⟨p', hp'⟩ := exists_deliveryKey hsource e' (usizeSaturatingAdd nextOrdinal j) dept
    rw [hid e _ dept p hp, hid e' _ dept p' hp', Option.some_inj] at heq
    obtain ⟨hqueue, _, hsrc⟩ :=
      (deliveryKey_canonicalEnvelope_eq_iff hsource hdept hdept' hkey hkey' hp hp').1 heq
    exact ⟨hqueue, h e (List.mem_of_getElem? hi) e' (List.mem_of_getElem? hj) hqueue ⟨dept, hdept⟩
      hkey hkey' hsrc, hsrc⟩

/-- The record was made for an event of the batch. -/
def FromBatch (router : DeliveryRouter) (parent : DeliveryRecord) (source : SourceRef)
    (events : List Event) (r : DeliveryRecord) : Prop :=
  ∃ e ∈ events, ∃ n dept identity notBeforeMs, router.Reliable e.queue dept ∧
    deriveDeliveryIdentity ((canonicalEnvelope parent e n).identityArgs source dept) =
      some identity ∧
    r = (canonicalEnvelope parent e n).record source dept identity notBeforeMs

theorem FromBatch.fresh {r : DeliveryRecord} (h : FromBatch router parent source events r) :
    r.Fresh := by
  obtain ⟨e, _, n, dept, identity, notBeforeMs, _, _, rfl⟩ := h
  exact ⟨rfl, rfl, rfl, rfl, rfl, rfl⟩

/-- A record that is not keyed was made for an event without a `dedup_key`. -/
theorem dedupKey_of_identity (hsource : parent.source = some source) {e : Event} {n : ℕ}
    {dept : String} {identity : DeliveryIdentity}
    (h : deriveDeliveryIdentity ((canonicalEnvelope parent e n).identityArgs source dept) =
      some identity) (hkeyed : identity.collapseByDedupId = false) :
    payloadDedupKey (raisedPayload parent e) = none := by
  have hkey := deriveDeliveryIdentity_eq_some h
  rw [deliveryKey_eq, identityKey_canonicalEnvelope hsource] at hkey
  cases hdedup : payloadDedupKey (raisedPayload parent e) with
  | none => rfl
  | some key =>
    rw [hdedup] at hkey
    have hflag := (Prod.mk.inj (Option.some.inj hkey)).2
    rw [hkeyed] at hflag
    cases hflag

/-- In a compatible batch, records with the same id that are not keyed have the same content. -/
theorem FromBatch.sameContent (hsource : parent.source = some source)
    (hcompatible : Compatible router parent events) {r r' : DeliveryRecord}
    (h : FromBatch router parent source events r) (h' : FromBatch router parent source events r')
    (hid : r.deliveryId = r'.deliveryId) (hkeyed : r.collapseByDedupId = false)
    (hkeyed' : r'.collapseByDedupId = false) : Delivery.sameDeliveryContent r r' = true := by
  obtain ⟨e, he, n, dept, identity, notBeforeMs, hdept, hidentity, rfl⟩ := h
  obtain ⟨e', he', n', dept', identity', notBeforeMs', hdept', hidentity', rfl⟩ := h'
  have hkey := dedupKey_of_identity hsource hidentity hkeyed
  have hkey' := dedupKey_of_identity hsource hidentity' hkeyed'
  obtain ⟨hqueue, rfl, hsrc⟩ := (deliveryKey_canonicalEnvelope_eq_iff hsource hdept hdept' hkey hkey'
    (deriveDeliveryIdentity_eq_some hidentity) (deriveDeliveryIdentity_eq_some hidentity')).1 hid
  have hpayload : (canonicalEnvelope parent e n).event.payload =
      (canonicalEnvelope parent e' n').event.payload :=
    hcompatible e he e' he' hqueue ⟨dept, hdept⟩ hkey hkey' hsrc
  have hid : identity.deliveryId = identity'.deliveryId := hid
  simp [Delivery.sameDeliveryContent, PublishEnvelope.record, hid, hqueue, hpayload]
  rfl

/-- The rows that were not there before the batch are of the batch. -/
structure BatchRows (router : DeliveryRouter) (parent : DeliveryRecord) (source : SourceRef)
    (events : List Event) (before s : Store) : Prop where
  inv : s.Inv
  rows : ∀ (id : String) (r : DeliveryRecord), s.deliveryById[id]? = some r →
    before.deliveryById[id]? = none → FromBatch router parent source events r

namespace BatchRows

variable {before s s' : Store} {r : DeliveryRecord}

theorem enqueue (h : BatchRows router parent source events before s)
    (hr : FromBatch router parent source events r) {outcome : EnqueueOutcome}
    (hrun : s.enqueue env.toEnv r = .ok (s', outcome)) :
    BatchRows router parent source events before s' := by
  obtain ⟨hinv, hlive⟩ := enqueue_live ⟨r, hr.fresh⟩ h.inv hrun
  refine ⟨hinv, fun id x hx hnone => ?_⟩
  rcases hlive id x hx with hold | ⟨_, _, rfl⟩ | ⟨x', u, hx', hu⟩
  · exact h.rows id x hold hnone
  · exact hr
  · -- a row of the batch is not leased
    rw [(h.rows id x' hx' hnone).fresh.2.2.2.2.2] at hu
    cases hu

theorem conflict (h : BatchRows router parent source events before s)
    (hsource : parent.source = some source) (hcompatible : Compatible router parent events)
    (hr : FromBatch router parent source events r) {cause : String}
    (hrun : s.enqueue env.toEnv r = .error (.conflictingDuplicate cause)) :
    ∃ x, before.deliveryById[r.deliveryId]? = some x := by
  obtain ⟨current, hcurrent, hkeyed, hkeyed', hcontent⟩ :=
    enqueue_conflict ⟨r, hr.fresh⟩ h.inv hrun
  cases hbefore : before.deliveryById[r.deliveryId]? with
  | some x => exact ⟨x, rfl⟩
  | none =>
    have hid : current.deliveryId = r.deliveryId := (h.inv.liveOk hcurrent).deliveryId
    rw [(h.rows _ current hcurrent hbefore).sameContent hsource hcompatible hr hid hkeyed hkeyed']
      at hcontent
    cases hcontent

end BatchRows

/-! ## Runs over a batch -/

theorem fanoutSend_store {event : Event} {st st' : RouterState} {result : Except PublishError Unit}
    (h : fanoutSend router event st = (st', result)) : st'.store = st.store := by
  unfold fanoutSend at h
  split at h
  · exact (Prod.mk.inj h).1 ▸ rfl
  · exact (Prod.mk.inj h).1 ▸ rfl

theorem fanoutSend_error {event : Event} {st st' : RouterState} {cause : PublishError}
    (h : fanoutSend router event st = (st', .error cause)) : cause = .fanoutContended := by
  unfold fanoutSend at h
  split at h
  · simpa using (Prod.mk.inj h).2.symm
  · cases h

/-- What publishing leaves behind: a store with a property, or an error with one. -/
structure Leaves (I : Option Store → Prop) (E : PublishError → Prop) {α : Type} (st : RouterState)
    (result : Except PublishError α) : Prop where
  rows : I st.store
  error : ∀ cause, result = .error cause → E cause

namespace Leaves

variable {I : Option Store → Prop} {E : PublishError → Prop} {envelope : PublishEnvelope} {st : RouterState}

theorem of_ok {α : Type} {a : α} (hrows : I st.store) : Leaves I E st (.ok a) :=
  ⟨hrows, fun cause h => by cases h⟩

theorem of_error {α : Type} {cause : PublishError} (hrows : I st.store)
    (hcause : E cause) : Leaves I E st (.error cause : Except PublishError α) :=
  ⟨hrows, fun _ h => Except.error.inj h ▸ hcause⟩

/-- The error of a first step is the error of all. -/
theorem of_step {α β : Type} {cause : PublishError}
    (h : Leaves I E st (.error cause : Except PublishError α)) :
    Leaves I E st (.error cause : Except PublishError β) :=
  of_error h.rows (h.error cause rfl)

/-- Over the subscribers that are left. -/
theorem publishLoop (env : Env) (subscribers : List Subscription)
    (hstep : ∀ sub ∈ subscribers, sub.reliable = true → ∀ st, I st.store →
      Leaves I E (publishReliable env router envelope sub.dept st).1
        (publishReliable env router envelope sub.dept st).2)
    (sentEphemeral : Bool) (suppressed : Option String) (hrows : I st.store) :
    Leaves I E (publishLoop env router envelope subscribers sentEphemeral suppressed st).1
      (publishLoop env router envelope subscribers sentEphemeral suppressed st).2 := by
  induction subscribers generalizing sentEphemeral suppressed st with
  | nil => exact of_ok hrows
  | cons sub subscribers ih =>
    have hrest := fun sub' hsub => hstep sub' (List.mem_cons_of_mem sub hsub)
    rw [Router.publishLoop]
    by_cases hreliable : sub.reliable = true
    · have hfirst := hstep sub List.mem_cons_self hreliable st hrows
      rw [if_pos hreliable]
      split
      · rename_i st' cause hout
        rw [hout] at hfirst
        exact of_step hfirst
      · rename_i st' id hout
        rw [hout] at hfirst
        exact ih hrest _ _ hfirst.rows
      · rename_i st' id hout
        rw [hout] at hfirst
        exact ih hrest _ _ hfirst.rows
    · rw [if_neg hreliable]
      exact ih hrest _ _ hrows

theorem publishOutcome (env : Env) {parent : DeliveryRecord} {e : Event} {n : ℕ}
    (hE : ∀ cause, (∀ id c, cause ≠ .enqueue id c) → E cause)
    (hstep : ∀ dept, router.Reliable e.queue dept → ∀ st, I st.store →
      Leaves I E (publishReliable env router (canonicalEnvelope parent e n) dept st).1
        (publishReliable env router (canonicalEnvelope parent e n) dept st).2)
    (hrows : I st.store) :
    Leaves I E (publishOutcome env router (raisedEnvelope parent e n) st).1
      (publishOutcome env router (raisedEnvelope parent e n) st).2 := by
  have hcanonical : { raisedEnvelope parent e n with
      event := canonicalizeEvent (raisedEnvelope parent e n).event (raisedEnvelope parent e n).source } =
      canonicalEnvelope parent e n := rfl
  have hqueue : (canonicalizeEvent (raisedEnvelope parent e n).event
      (raisedEnvelope parent e n).source).queue = e.queue := canonicalizeEvent_queue _ _
  simp only [Router.publishOutcome, hcanonical, hqueue]
  split
  · exact of_error hrows (hE _ (by simp))
  · rename_i subscribers hsubscribers
    have hloop := publishLoop env subscribers
      (fun sub hsub hreliable => hstep sub.dept ⟨subscribers, sub, hsubscribers, hsub, hreliable, rfl⟩)
      false none hrows
    split
    · rename_i st' cause hout
      rw [hout] at hloop
      exact of_step hloop
    · rename_i st' sentEphemeral suppressed hout
      rw [hout] at hloop
      by_cases hsent : sentEphemeral = true
      · rw [if_pos hsent]
        split
        · rename_i st'' cause hsend
          refine of_error ((fanoutSend_store hsend).symm ▸ hloop.rows) (hE _ ?_)
          rw [fanoutSend_error hsend]
          simp
        · rename_i st'' hsend
          exact of_ok ((fanoutSend_store hsend).symm ▸ hloop.rows)
      · rw [if_neg hsent]
        exact of_ok hloop.rows

/-- **Over the events that are left.**  What every reliable publish keeps, a batch keeps. -/
theorem publishRaisedEvents (env : Env) (router : DeliveryRouter) {parent : DeliveryRecord}
    (rest : List Event) (hE : ∀ cause, (∀ id c, cause ≠ .enqueue id c) → E cause)
    (hstep : ∀ e ∈ rest, ∀ n dept, router.Reliable e.queue dept → ∀ st,
      I st.store →
      Leaves I E (publishReliable env router (canonicalEnvelope parent e n) dept st).1
        (publishReliable env router (canonicalEnvelope parent e n) dept st).2)
    (nextOrdinal : ℕ) (hrows : I st.store) :
    Leaves I E (publishRaisedEvents env router parent rest nextOrdinal st).1
      (publishRaisedEvents env router parent rest nextOrdinal st).2.2 := by
  induction rest generalizing nextOrdinal st with
  | nil => exact of_ok hrows
  | cons e rest ih =>
    rw [Router.publishRaisedEvents]
    split
    · exact of_error hrows (hE _ (by simp))
    · dsimp only
      have hfirst := publishOutcome env hE (hstep e List.mem_cons_self nextOrdinal) hrows
      split
      · rename_i st' cause hout
        rw [hout] at hfirst
        exact of_step hfirst
      · rename_i st' outcome hout
        rw [hout] at hfirst
        exact ih (fun e he => hstep e (List.mem_cons_of_mem _ he)) _ hfirst.rows

end Leaves

/-- What publishing events of a batch leaves behind: the new rows are of the batch, and a conflict is
with a delivery from before. -/
structure LeavesBatch (router : DeliveryRouter) (parent : DeliveryRecord) (source : SourceRef)
    (events : List Event) (before : Store) {α : Type} (st : RouterState)
    (result : Except PublishError α) : Prop where
  rows : ∀ s, st.store = some s → BatchRows router parent source events before s
  older : ∀ id cause, result = .error (.enqueue id (.conflictingDuplicate cause)) →
    ∃ x, before.deliveryById[id]? = some x

namespace LeavesBatch

variable {before : Store} {st : RouterState}

/-- A result that is no conflict. -/
theorem of_rows {α : Type} {result : Except PublishError α}
    (hrows : ∀ s, st.store = some s → BatchRows router parent source events before s)
    (hresult : ∀ id cause, result ≠ .error (.enqueue id (.conflictingDuplicate cause))) :
    LeavesBatch router parent source events before st result :=
  ⟨hrows, fun id cause h => absurd h (hresult id cause)⟩

theorem publishReliable (env : Env) (hsource : parent.source = some source)
    (hcompatible : Compatible router parent events) {e : Event} (he : e ∈ events) (n : ℕ)
    {dept : String} (hdept : router.Reliable e.queue dept)
    (hrows : ∀ s, st.store = some s → BatchRows router parent source events before s) :
    LeavesBatch router parent source events before
      (publishReliable env router (canonicalEnvelope parent e n) dept st).1
      (publishReliable env router (canonicalEnvelope parent e n) dept st).2 := by
  have henvelope : (canonicalEnvelope parent e n).source = some source := hsource
  unfold Router.publishReliable
  simp only [henvelope]
  split
  · exact of_rows hrows (by simp)
  · rename_i store hstore
    split
    · exact of_rows hrows (by simp)
    · split
      · exact of_rows hrows (by simp)
      · rename_i identity hidentity
        have hr : FromBatch router parent source events
            ((canonicalEnvelope parent e n).record source dept identity (router.clock st.ticks)) :=
          ⟨e, he, n, dept, identity, _, hdept, hidentity, rfl⟩
        split
        · rename_i cause hrun
          refine ⟨hrows, fun id cause' h => ?_⟩
          obtain ⟨rfl, rfl⟩ : _ ∧ _ := by simpa using h
          exact (hrows store hstore).conflict hsource hcompatible hr hrun
        · rename_i store' outcome hrun
          refine of_rows (fun s hs => ?_) (by simp)
          obtain rfl := Option.some.inj hs
          exact (hrows store hstore).enqueue hr hrun

/-- Over the events of the batch. -/
theorem publishRaisedEvents (env : Env) (hsource : parent.source = some source)
    (hcompatible : Compatible router parent events) (nextOrdinal : ℕ)
    (hrows : ∀ s, st.store = some s → BatchRows router parent source events before s) :
    LeavesBatch router parent source events before
      (publishRaisedEvents env router parent events nextOrdinal st).1
      (publishRaisedEvents env router parent events nextOrdinal st).2.2 := by
  have hleaves := Leaves.publishRaisedEvents
    (I := fun store => ∀ s, store = some s → BatchRows router parent source events before s)
    (E := fun cause => ∀ id c, cause = .enqueue id (.conflictingDuplicate c) →
      ∃ x, before.deliveryById[id]? = some x) env router events
    (fun cause hcause id c h => absurd h (hcause id _)) (fun e he n dept hdept st hrows => by
      have hstep := publishReliable env hsource hcompatible he n hdept hrows
      exact ⟨hstep.rows, fun cause h id c hc => hstep.older id c (hc ▸ h)⟩) nextOrdinal hrows
  exact ⟨hleaves.rows, fun id cause h => hleaves.error _ h id cause rfl⟩

end LeavesBatch

end Batch

namespace Sample

/-- All payloads are seven bytes long. -/
def env : Env := ⟨Delivery.Sample.env, fun _ => 7⟩

/-- A router with one queue, which one department consumes reliably. -/
def router : DeliveryRouter where
  subscriptions := Std.ExtTreeMap.empty.insert "next" [⟨"next_worker", true⟩]
  clock := fun _ => 0
  fanoutContended := fun _ => false
  named := by
    intro queue subscribers h
    rw [Table.get_insert] at h
    split at h
    · subst queue
      obtain rfl := Option.some.inj h
      have hnames : IsName "next" ∧ IsName "next_worker" := by decide +kernel
      simpa using hnames
    · simp at h

/-- A delivery that was made for a cron tick. -/
def parent : DeliveryRecord :=
  { (Delivery.Sample.record "parent" false).val with source := some ⟨.cron, "tick"⟩ }

/-- An event with a number. -/
def numbered (n : UInt64) (rest : JsonFields) : Event :=
  ⟨"next", .object (.cons "n" (.number (.posInt n)) rest), 0⟩

/-- What a router with a fresh database starts from. -/
def start : RouterState := ⟨some (World.init.run env.toEnv []).1.store, 0, []⟩

end Sample

end Fkst.Router
