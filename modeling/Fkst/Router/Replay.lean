import Fkst.Delivery.Content
import Fkst.Router.Subscriptions

/-!
# Publishing again

A delivery is executed at least once, so what it raises may be published any number of times, each time
as far as the execution got.  Nothing that happens in between changes what the rows of the batch carry
(`Fkst.Delivery.Content`), and so a replay finds its own rows: a row that is not keyed is left alone, and
a keyed one is marked dirty or loses a lease that has run out.
-/

set_option autoImplicit false

namespace Fkst.Router

open Lib
open Delivery (Act Call DeliveryRecord EnqueueOutcome FreshRecord IsCarried KeptByBinding SourceRef Store
  StoreError World)

/-! ## Conflicts -/

/-- While there is a row with what the record carries, no event of the batch is turned away for it. -/
def ConflictFree (router : DeliveryRouter) (parent : DeliveryRecord) (source : SourceRef)
    (events : List Event) (r : DeliveryRecord) : Prop :=
  ∀ b, FromBatch router parent source events b → b.deliveryId = r.deliveryId →
    b.collapseByDedupId = false → r.collapseByDedupId = false → Delivery.sameDeliveryContent r b = true

/-- What the supervisor does to the store under a configuration: it enqueues records that are in no
conflict with the batch, it binds each queue with one reliable subscriber to that, and anything else.
An execution that is cut off between two subscribers, or whose transactions have others between them,
enqueues records of the batch as well. -/
def Supervised (router : DeliveryRouter) (parent : DeliveryRecord) (source : SourceRef)
    (events : List Event) : Call → Prop
  | .enqueue record => FromBatch router parent source events record.val ∨
      ConflictFree router parent source events record.val
  | .rebind currentDeptByQueue =>
    currentDeptByQueue = singleReliableSubscribersByQueue router.subscriptions
  | .redrive _ (some currentDeptByQueue) _ _ =>
    currentDeptByQueue = singleReliableSubscribersByQueue router.subscriptions
  | _ => True

/-- What publishing again does to the store when the row is still there. -/
inductive Redelivered (s : Store) (id : String) (r : DeliveryRecord) (nowMs : UInt64) : Store → Prop where
  | unchanged : Redelivered s id r nowMs s
  /-- The delivery is running. -/
  | markedDirty {u : UInt64} (hlease : r.leaseUntilMs = some u) (hactive : nowMs < u) :
      Redelivered s id r nowMs (s.insertDelivery id { r with pendingDirty := true })
  /-- The lease has run out. -/
  | released {u : UInt64} (hlease : r.leaseUntilMs = some u) (hexpired : u ≤ nowMs) :
      Redelivered s id r nowMs
        (((s.removeLeased (Delivery.makeIndexKey r.dept u id)).insertReady
          (Delivery.makeIndexKey r.dept r.notBeforeMs id)).insertDelivery id
            { r with leaseUntilMs := none })

section Conflicts

variable {router : DeliveryRouter} {parent : DeliveryRecord} {source : SourceRef} {events : List Event}
  {r b : DeliveryRecord}

theorem isCarried_conflictFree : IsCarried (ConflictFree router parent source events) := by
  intro r r' hsame h b hb hid hkeyed hkeyed'
  have hcontent := h b hb (hid.trans hsame.deliveryId) hkeyed (hsame.collapseByDedupId ▸ hkeyed')
  rw [Delivery.sameDeliveryContent] at hcontent ⊢
  rwa [hsame.deliveryId, hsame.queue, hsame.dept, hsame.payload, hsame.source, hsame.cronPayload]

/-- The only reliable subscriber of a queue is the one that a queue is bound to. -/
theorem dept_of_single {queue dept dept' : String} (h : router.Reliable queue dept)
    (h' : (singleReliableSubscribersByQueue router.subscriptions)[queue]? = some dept') : dept' = dept := by
  obtain ⟨subscribers, sub, hqueue, hsub, hreliable, rfl⟩ := h
  rw [get_singleReliableSubscribersByQueue, hqueue, Option.bind_some] at h'
  have hmem : sub ∈ subscribers.filter (·.reliable) := List.mem_filter.2 ⟨hsub, hreliable⟩
  split at h'
  · rename_i only honly
    rw [honly, List.mem_singleton] at hmem
    rw [hmem, Option.some.inj h']
  · cases h'

theorem keptByBinding_conflictFree : KeptByBinding (ConflictFree router parent source events)
    (singleReliableSubscribersByQueue router.subscriptions) := by
  intro r dept hdept h b hb hid hkeyed hkeyed'
  have hcontent := h b hb hid hkeyed hkeyed'
  obtain ⟨e, _, n, dept', identity, notBeforeMs, hreliable, _, rfl⟩ := id hb
  rw [Delivery.sameDeliveryContent] at hcontent ⊢
  simp only [Bool.and_eq_true, beq_iff_eq] at hcontent ⊢
  obtain ⟨⟨⟨⟨⟨hid', hqueue⟩, hdept'⟩, hpayload⟩, hsource⟩, hcron⟩ := hcontent
  have hq : r.queue = e.queue := hqueue.trans (canonicalEnvelope_queue parent e n)
  exact ⟨⟨⟨⟨⟨hid', hqueue⟩, dept_of_single hreliable (hq ▸ hdept)⟩, hpayload⟩, hsource⟩, hcron⟩

/-- The events of the batch are in no conflict with one another. -/
theorem FromBatch.conflictFree (hsource : parent.source = some source)
    (hcompatible : Compatible router parent events) (h : FromBatch router parent source events r) :
    ConflictFree router parent source events r :=
  fun _ hb hid hkeyed hkeyed' => h.sameContent hsource hcompatible hb hid.symm hkeyed' hkeyed

theorem Supervised.brings (hsource : parent.source = some source)
    (hcompatible : Compatible router parent events) {call : Call}
    (h : Supervised router parent source events call) :
    call.Brings (ConflictFree router parent source events) := by
  cases call with
  | enqueue record => exact h.elim (fun hb => hb.conflictFree hsource hcompatible) id
  | rebind m =>
    obtain rfl : m = _ := h
    exact keptByBinding_conflictFree
  | redrive policy m nowMs batchLimit =>
    cases m with
    | none => trivial
    | some m =>
      obtain rfl : m = _ := h
      exact keptByBinding_conflictFree
  | _ => trivial

end Conflicts

/-! ## One publish -/

section Publish

variable {env : Env} {router : DeliveryRouter} {parent : DeliveryRecord} {source : SourceRef}
  {events : List Event} {s : Store} {r b : DeliveryRecord}

/-- A duplicate of a live delivery. -/
theorem redelivered_coalesce (hkeyed : r.collapseByDedupId = true ∧ b.collapseByDedupId = true) :
    Redelivered s b.deliveryId r b.notBeforeMs (s.coalesce r b) := by
  rw [Store.coalesce, if_pos (Bool.and_eq_true_iff.2 hkeyed)]
  split
  · exact .unchanged
  · rename_i u hlease
    split
    · rename_i hactive
      split
      · exact .markedDirty hlease hactive
      · exact .unchanged
    · rename_i hexpired
      exact .released hlease (UInt64.not_lt.1 hexpired)

/-- Enqueueing an event of the batch whose row is live. -/
theorem enqueue_again (env : Env) (hrows : s.Carries (ConflictFree router parent source events))
    (hb : FromBatch router parent source events b) (hr : s.deliveryById[b.deliveryId]? = some r)
    (hid : r.deliveryId = b.deliveryId) :
    ∃ s', s.enqueue env.toEnv b = .ok (s', .accepted) ∧ Redelivered s b.deliveryId r b.notBeforeMs s' ∧
      (b.collapseByDedupId = false → s' = s) := by
  rw [Store.enqueue, hr]
  dsimp only
  by_cases hkeyed : (r.collapseByDedupId || b.collapseByDedupId) = true
  · rw [if_pos hkeyed]
    by_cases hboth : r.collapseByDedupId = true ∧ b.collapseByDedupId = true
    · refine ⟨_, rfl, redelivered_coalesce hboth, fun hnot => ?_⟩
      rw [hboth.2] at hnot
      cases hnot
    · have hsame : s.coalesce r b = s := by
        rw [Store.coalesce, if_neg]
        rwa [Bool.and_eq_true]
      rw [hsame]
      exact ⟨s, rfl, .unchanged, fun _ => rfl⟩
  · rw [if_neg hkeyed]
    rw [Bool.or_eq_true, not_or, Bool.not_eq_true, Bool.not_eq_true] at hkeyed
    rw [if_pos ((hrows b.deliveryId).live r hr b hb hid.symm hkeyed.2 hkeyed.1)]
    exact ⟨s, rfl, .unchanged, fun _ => rfl⟩

/-- The rows are as the store writes them, and stand in no conflict with the batch. -/
def Clear (router : DeliveryRouter) (parent : DeliveryRecord) (source : SourceRef)
    (events : List Event) (s : Store) : Prop :=
  s.Inv ∧ s.Carries (ConflictFree router parent source events)

/-- The error is no conflict. -/
def NoConflict (cause : PublishError) : Prop := ∀ id c, cause ≠ .enqueue id (.conflictingDuplicate c)

theorem Clear.enqueue (h : Clear router parent source events s) (hsource : parent.source = some source)
    (hcompatible : Compatible router parent events) (hb : FromBatch router parent source events b)
    {s' : Store} {outcome : EnqueueOutcome} (hrun : s.enqueue env.toEnv b = .ok (s', outcome)) :
    Clear router parent source events s' := by
  have hcommit : s.commit env.toEnv (.enqueue ⟨b, hb.fresh⟩) = .ok (s', .enqueue outcome) := by
    rw [Store.commit, hrun]
    rfl
  have he : Delivery.Entry.Committed env.toEnv ⟨s, .enqueue ⟨b, hb.fresh⟩, .enqueue outcome, s'⟩ :=
    ⟨h.1, trivial, hcommit⟩
  exact ⟨he.effect.inv, he.carries isCarried_conflictFree (hb.conflictFree hsource hcompatible) h.2⟩

theorem Clear.no_conflict (h : Clear router parent source events s)
    (hb : FromBatch router parent source events b) {cause : String} :
    s.enqueue env.toEnv b ≠ .error (.conflictingDuplicate cause) := by
  intro herror
  cases hr : s.deliveryById[b.deliveryId]? with
  | some r =>
    obtain ⟨s', hrun, _⟩ := enqueue_again env h.2 hb hr (h.1.liveOk hr).deliveryId
    rw [hrun] at herror
    cases herror
  | none =>
    obtain ⟨current, hcurrent, _⟩ := enqueue_conflict ⟨b, hb.fresh⟩ h.1 herror
    rw [hr] at hcurrent
    cases hcurrent

/-- **A publish to one subscriber** keeps the rows clear, and is in no conflict. -/
theorem leaves_publishReliable (env : Env) (hsource : parent.source = some source)
    (hcompatible : Compatible router parent events) {e : Event} (he : e ∈ events) (n : ℕ)
    {dept : String} (hdept : router.Reliable e.queue dept) (st : RouterState)
    (hrows : ∀ s, st.store = some s → Clear router parent source events s) :
    Leaves (fun store => ∀ s, store = some s → Clear router parent source events s) NoConflict
      (publishReliable env router (canonicalEnvelope parent e n) dept st).1
      (publishReliable env router (canonicalEnvelope parent e n) dept st).2 := by
  have henvelope : (canonicalEnvelope parent e n).source = some source := hsource
  unfold publishReliable
  simp only [henvelope]
  split
  · exact .of_error hrows (by simp [NoConflict])
  · rename_i store hstore
    split
    · exact .of_error hrows (by simp [NoConflict])
    · split
      · exact .of_error hrows (by simp [NoConflict])
      · rename_i identity hidentity
        have hb : FromBatch router parent source events
            ((canonicalEnvelope parent e n).record source dept identity (router.clock st.ticks)) :=
          ⟨e, he, n, dept, identity, _, hdept, hidentity, rfl⟩
        split
        · rename_i cause hrun
          refine .of_error hrows ?_
          rintro id c ⟨⟩
          exact (hrows store hstore).no_conflict hb hrun
        · rename_i store' outcome hrun
          refine .of_ok fun s hs => ?_
          obtain rfl := Option.some.inj hs
          exact (hrows store hstore).enqueue hsource hcompatible hb hrun

end Publish

/-! ## Histories -/

/-- What happens to the store in the course of a history. -/
inductive Step where
  /-- The supervisor does something. -/
  | supervise (act : Act)
  /-- The parent is executed and publishes the first events of the batch, as far as it gets. -/
  | execute (published ticks : ℕ)

/-- One step, and what an execution ends with. -/
def historyStep (env : Env) (router : DeliveryRouter) (parent : DeliveryRecord) (events : List Event)
    (w : World) : Step → World × Option (Except PublishError Unit)
  | .supervise act => ((w.step env.toEnv act).1, none)
  | .execute published ticks =>
    let (st, _, result) :=
      publishRaisedEvents env router parent (events.take published) 0 ⟨some w.store, ticks, []⟩
    (⟨st.store.getD w.store, w.pending⟩, some result)

/-- A history, with the results of the executions. -/
def history (env : Env) (router : DeliveryRouter) (parent : DeliveryRecord) (events : List Event) :
    List Step → World × List (Except PublishError Unit) :=
  Machine.run (historyStep env router parent events) World.init

/-- An event can be published: it is for a department, its payload is small enough and its ids are
runtime keys. -/
structure Publishable (env : Env) (router : DeliveryRouter) (parent : DeliveryRecord)
    (source : SourceRef) (e : Event) : Prop where
  queue : e.queue ≠ failureFactQueue
  payload : env.payloadBytes (raisedPayload parent e) ≤ maxDurablePayloadBytes
  identity : ∀ n dept, router.Reliable e.queue dept →
    (deriveDeliveryIdentity ((canonicalEnvelope parent e n).identityArgs source dept)).isSome

/-- **Publishing again is idempotent** on a store. -/
structure Idempotent (env : Env) (router : DeliveryRouter) (parent : DeliveryRecord)
    (source : SourceRef) (events : List Event) (s : Store) : Prop where
  /-- An event has one id for a subscriber, wherever it comes in an execution. -/
  sameId : ∀ e ∈ events, ∀ n n' dept, router.Reliable e.queue dept →
    raisedDeliveryId parent e n dept = raisedDeliveryId parent e n' dept
  /-- No publish is in conflict with what is there. -/
  noConflict : ∀ published nextOrdinal ticks fanout, ∀ cause,
    (publishRaisedEvents env router parent (events.take published) nextOrdinal
      ⟨some s, ticks, fanout⟩).2.2 = .error cause → NoConflict cause
  /-- For a subscriber that still has its row, nothing but that row changes, and that only if it is
  keyed and leased. -/
  redelivered : ∀ e ∈ events, Publishable env router parent source e → ∀ n ticks fanout dept id r,
    router.Reliable e.queue dept → raisedDeliveryId parent e n dept = some id →
    s.deliveryById[id]? = some r → ∃ s',
      publishReliable env router (canonicalEnvelope parent e n) dept ⟨some s, ticks, fanout⟩ =
        (⟨some s', ticks + 1, fanout⟩, .ok (id, .accepted)) ∧
      Redelivered s id r (router.clock ticks) s' ∧
      (payloadDedupKey (raisedPayload parent e) = none → s' = s)
  /-- An event that is not keyed and has all its rows leaves the store as it is. -/
  unchanged : ∀ e ∈ events, Publishable env router parent source e →
    payloadDedupKey (raisedPayload parent e) = none → ∀ n ticks fanout,
    (∀ dept, router.Reliable e.queue dept → ∃ id r, raisedDeliveryId parent e n dept = some id ∧
      s.deliveryById[id]? = some r) →
    (publishOutcome env router (raisedEnvelope parent e n) ⟨some s, ticks, fanout⟩).1.store = some s
  /-- There is at most one row of an event for a subscriber. -/
  oneRow : ∀ e ∈ events, ∀ n n' dept id id' r r', router.Reliable e.queue dept →
    raisedDeliveryId parent e n dept = some id → raisedDeliveryId parent e n' dept = some id' →
    s.deliveryById[id]? = some r → s.deliveryById[id']? = some r' → id = id' ∧ r = r'

section Histories

variable {env : Env} {router : DeliveryRouter} {parent : DeliveryRecord} {source : SourceRef}
  {events : List Event} {s : Store}

theorem raisedDeliveryId_ordinal (hsource : parent.source = some source) (e : Event) (n n' : ℕ)
    (dept : String) : raisedDeliveryId parent e n dept = raisedDeliveryId parent e n' dept := by
  rw [raisedDeliveryId, raisedDeliveryId, hsource, Option.bind_some, Option.bind_some, deliveryKey_eq,
    deliveryKey_eq, identityKey_canonicalEnvelope hsource, identityKey_canonicalEnvelope hsource]
  rfl

/-- An event without a `dedup_key` is not keyed. -/
theorem not_keyed (hsource : parent.source = some source) {e : Event} {n : ℕ} {dept : String}
    {identity : DeliveryIdentity}
    (h : deriveDeliveryIdentity ((canonicalEnvelope parent e n).identityArgs source dept) = some identity)
    (hnone : payloadDedupKey (raisedPayload parent e) = none) : identity.collapseByDedupId = false := by
  have hkey := deriveDeliveryIdentity_eq_some h
  obtain ⟨src, hsrc⟩ := exists_raisedSource hsource e
  rw [deliveryKey_eq, identityKey_canonicalEnvelope hsource, hnone, hsrc] at hkey
  exact (Prod.mk.inj (Option.some.inj hkey)).2.symm

theorem publishReliable_again (hclear : Clear router parent source events s)
    (hsource : parent.source = some source) {e : Event} (he : e ∈ events)
    (hpublishable : Publishable env router parent source e) (n ticks : ℕ) (fanout : List Event)
    {dept id : String} {r : DeliveryRecord} (hdept : router.Reliable e.queue dept)
    (hid : raisedDeliveryId parent e n dept = some id) (hr : s.deliveryById[id]? = some r) : ∃ s',
      publishReliable env router (canonicalEnvelope parent e n) dept ⟨some s, ticks, fanout⟩ =
        (⟨some s', ticks + 1, fanout⟩, .ok (id, .accepted)) ∧
      Redelivered s id r (router.clock ticks) s' ∧
      (payloadDedupKey (raisedPayload parent e) = none → s' = s) := by
  obtain ⟨identity, hidentity⟩ := Option.isSome_iff_exists.1 (hpublishable.identity n dept hdept)
  have hkey := deriveDeliveryIdentity_eq_some hidentity
  obtain rfl : identity.deliveryId = id := by
    rw [raisedDeliveryId, hsource, Option.bind_some, hkey] at hid
    exact Option.some.inj hid
  have hb : FromBatch router parent source events
      ((canonicalEnvelope parent e n).record source dept identity (router.clock ticks)) :=
    ⟨e, he, n, dept, identity, _, hdept, hidentity, rfl⟩
  obtain ⟨s', hrun, hchange, hsame⟩ :=
    enqueue_again env hclear.2 hb hr (hclear.1.liveOk hr).deliveryId
  refine ⟨s', ?_, hchange, fun hnone => hsame ?_⟩
  · have henvelope : (canonicalEnvelope parent e n).source = some source := hsource
    have hpayload : ¬ maxDurablePayloadBytes < env.payloadBytes (canonicalEnvelope parent e n).event.payload :=
      Nat.not_lt.2 hpublishable.payload
    unfold publishReliable
    simp only [henvelope, if_neg hpayload, hidentity, hrun]
    rfl
  · exact not_keyed hsource hidentity hnone

/-- The store that a batch leaves behind is clear again, and no publish was in conflict. -/
theorem leaves_publishRaisedEvents (env : Env) (hclear : Clear router parent source events s)
    (hsource : parent.source = some source) (hcompatible : Compatible router parent events)
    (published nextOrdinal ticks : ℕ) (fanout : List Event) :
    Leaves (fun store => ∀ s, store = some s → Clear router parent source events s) NoConflict
      (publishRaisedEvents env router parent (events.take published) nextOrdinal
        ⟨some s, ticks, fanout⟩).1
      (publishRaisedEvents env router parent (events.take published) nextOrdinal
        ⟨some s, ticks, fanout⟩).2.2 :=
  Leaves.publishRaisedEvents env router (events.take published) (fun cause hcause id c => hcause id _)
    (fun e he n dept hdept st hrows => leaves_publishReliable env hsource hcompatible
      (List.mem_of_mem_take he) n hdept st hrows) nextOrdinal fun s' hs => by
        obtain rfl := Option.some.inj hs
        exact hclear

theorem idempotent_of_clear (hclear : Clear router parent source events s)
    (hsource : parent.source = some source) (hcompatible : Compatible router parent events) :
    Idempotent env router parent source events s where
  sameId e _ n n' dept _ := raisedDeliveryId_ordinal hsource e n n' dept
  noConflict published nextOrdinal ticks fanout :=
    (leaves_publishRaisedEvents env hclear hsource hcompatible published nextOrdinal ticks fanout).error
  redelivered e he hpublishable n ticks fanout dept id r hdept hid hr :=
    publishReliable_again hclear hsource he hpublishable n ticks fanout hdept hid hr
  unchanged e he hpublishable hnone n ticks fanout hlive := by
    refine (Leaves.publishOutcome (I := fun store => store = some s) (E := fun _ => True) env
      (fun _ _ => trivial) (fun dept hdept st hst => ⟨?_, fun _ _ => trivial⟩) rfl).rows
    obtain ⟨id, r, hid, hr⟩ := hlive dept hdept
    obtain ⟨store, ticks, fanout⟩ := st
    obtain rfl : store = some s := hst
    obtain ⟨s', hrun, _, hsame⟩ :=
      publishReliable_again hclear hsource he hpublishable n ticks fanout hdept hid hr
    rw [hrun, hsame hnone]
  oneRow e _ n n' dept id id' r r' _ hid hid' hr hr' := by
    rw [raisedDeliveryId_ordinal hsource e n n', hid'] at hid
    obtain rfl := Option.some.inj hid
    exact ⟨rfl, Option.some.inj (hr.symm.trans hr')⟩

theorem historyStep_execute (w : World) (published ticks : ℕ) :
    historyStep env router parent events w (.execute published ticks) =
      (⟨(publishRaisedEvents env router parent (events.take published) 0
          ⟨some w.store, ticks, []⟩).1.store.getD w.store, w.pending⟩,
        some (publishRaisedEvents env router parent (events.take published) 0
          ⟨some w.store, ticks, []⟩).2.2) := rfl

/-- What holds in the course of a history. -/
structure HistoryInv (router : DeliveryRouter) (parent : DeliveryRecord) (source : SourceRef)
    (events : List Event) (w : World) (results : List (Except PublishError Unit)) : Prop where
  world : w.Inv
  carries : w.Carries (ConflictFree router parent source events)
  results : ∀ result ∈ results, ∀ cause, result = .error cause → NoConflict cause

/-- **One step.** -/
theorem HistoryInv.step (env : Env) {w : World} {results : List (Except PublishError Unit)}
    (h : HistoryInv router parent source events w results) (hsource : parent.source = some source)
    (hcompatible : Compatible router parent events) (what : Step)
    (hwhat : ∀ call, what = .supervise (.start call) → Supervised router parent source events call) :
    HistoryInv router parent source events (historyStep env router parent events w what).1
      (results ++ (historyStep env router parent events w what).2.toList) := by
  cases what with
  | supervise act =>
    refine ⟨(World.step_cases env.toEnv h.world act).1, World.step_carries isCarried_conflictFree h.world
      h.carries fun call hcall => ?_, by simpa [historyStep] using h.results⟩
    exact (hwhat call (hcall ▸ rfl)).brings hsource hcompatible
  | execute published ticks =>
    have hclear : Clear router parent source events w.store := ⟨h.world.store, h.carries.rows⟩
    have hleaves := leaves_publishRaisedEvents env hclear hsource hcompatible published 0 ticks []
    rw [historyStep_execute]
    generalize publishRaisedEvents env router parent (events.take published) 0 ⟨some w.store, ticks, []⟩ =
      out at hleaves ⊢
    have hnew : Clear router parent source events (out.1.store.getD w.store) := by
      cases hst : out.1.store with
      | none => exact hclear
      | some s' => exact hleaves.rows s' hst
    refine ⟨⟨hnew.1, h.world.planned⟩, ⟨hnew.2, h.carries.pending⟩, fun result' hresult' => ?_⟩
    rcases List.mem_append.1 hresult' with hold | hlast
    · exact h.results result' hold
    · obtain rfl : result' = out.2.2 := by simpa using hlast
      exact hleaves.error

/-- **What a parent raises may be published again and again.**  However often the parent is executed,
as far as each execution gets, and whatever the supervisor does in between, no publish is in conflict
with what an earlier one has left, and publishing again is idempotent. -/
theorem replay_idempotent (env : Env) (router : DeliveryRouter) (steps : List Step)
    (hsource : parent.source = some source) (hcompatible : Compatible router parent events)
    (hsteps : ∀ call, .supervise (.start call) ∈ steps → Supervised router parent source events call) :
    (∀ result ∈ (history env router parent events steps).2, ∀ cause, result = .error cause →
      NoConflict cause) ∧
    Idempotent env router parent source events (history env router parent events steps).1.store := by
  have hrun : ∀ (steps : List Step) (w : World) (results : List (Except PublishError Unit)),
      HistoryInv router parent source events w results →
      (∀ call, .supervise (.start call) ∈ steps → Supervised router parent source events call) →
      HistoryInv router parent source events
        (Machine.run (historyStep env router parent events) w steps).1
        (results ++ (Machine.run (historyStep env router parent events) w steps).2) := by
    intro steps
    induction steps with
    | nil =>
      intro w results h _
      simpa using h
    | cons what steps ih =>
      intro w results h hsteps
      have hfirst := h.step env hsource hcompatible what
        fun call hcall => hsteps call (hcall ▸ List.mem_cons_self)
      have hrest := ih _ _ hfirst fun call hcall => hsteps call (List.mem_cons_of_mem _ hcall)
      rw [Machine.run_cons]
      rwa [List.append_assoc] at hrest
  have hfinal := hrun steps World.init [] ⟨World.inv_init, World.carries_init, by simp⟩ hsteps
  exact ⟨by simpa [history] using hfinal.results,
    idempotent_of_clear ⟨hfinal.world.store, hfinal.carries.rows⟩ hsource hcompatible⟩

end Histories

/-- The theorem at a batch of one event, which is published, leased, and published again. -/
theorem replay_idempotent_numbered :
    (∀ result ∈ (history Sample.env Sample.router Sample.parent [Sample.numbered 1 .nil]
      [.execute 1 0, .supervise (.start (.lease 0 1 ⟨60, 0⟩ none ∅)), .supervise (.finish 0),
        .execute 1 1]).2, ∀ cause, result = .error cause → NoConflict cause) ∧
    Idempotent Sample.env Sample.router Sample.parent ⟨.cron, "tick"⟩ [Sample.numbered 1 .nil]
      (history Sample.env Sample.router Sample.parent [Sample.numbered 1 .nil]
        [.execute 1 0, .supervise (.start (.lease 0 1 ⟨60, 0⟩ none ∅)), .supervise (.finish 0),
          .execute 1 1]).1.store := by
  refine replay_idempotent Sample.env Sample.router _
    (rfl : Sample.parent.source = some ⟨.cron, "tick"⟩) ?_ ?_
  · intro e he e' he' _ _ _ _ _
    rw [List.mem_singleton.1 he, List.mem_singleton.1 he']
  · intro call hcall
    simp only [List.mem_cons, List.not_mem_nil, or_false, reduceCtorEq, false_or, or_self,
      Step.supervise.injEq, Act.start.injEq] at hcall
    obtain rfl := hcall
    trivial

end Fkst.Router
