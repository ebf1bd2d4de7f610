import Fkst.Consumer.FailureFact
import Fkst.Delivery.Content
import Fkst.Graph.Scan
import Fkst.Router.Declared

/-!
# Notices about dead letters

When a delivery is dead for good, a notice is published to the dead-letter queue of the namespace of its
department.  The notice is a delivery itself and may die as well; about a delivery on the dead-letter queue
of its own namespace there is no notice, but a department may consume the queue of another namespace.

So notices about notices go from namespace to namespace, along those subscriptions.  `notices_end` bounds
how long that goes on wherever they do not go round in circles, and where every namespace keeps to its own
queue there is no notice about a notice at all.
-/

set_option autoImplicit false

namespace Fkst.Consumer

open Lib
open Delivery (Act Call DeadRecord DeliveryRecord Entry World)
open Graph (Config isDeadLetterQueue)
open Router (SubscribedReliably singleReliableSubscribersByQueue subscriptions)

/-! ## Publishing a notice -/

/-- The queue that `publish_permanent_dead_letter` publishes to, if it does. -/
def deadLetterNotice (dead : DeadRecord) : Option String :=
  match Text.splitOnce '.' dead.dept.toList with
  | none => if dead.queue = "dead_letter" then none else some "dead_letter"
  | some (ns, _) =>
    let deadLetter := String.ofList ns ++ ".dead_letter"
    if dead.queue = deadLetter then none else some deadLetter

/-- `publish_dead_letter_to`, at a time. -/
def publishDeadLetterTo (env : Router.Env) (router : Router.DeliveryRouter) (nowMs : UInt64)
    (dead : DeadRecord) (queue : String) (st : Router.RouterState) :
    Router.RouterState × Except Router.RaiseError Unit :=
  Router.publish env router
    ⟨⟨queue, deadRecordPayload dead, nowMs⟩, some ⟨.external, "dead/" ++ dead.deliveryId⟩, none, none⟩ st

/-- `publish_permanent_dead_letter`.  A failure is only logged. -/
def publishPermanentDeadLetter (env : Router.Env) (router : Router.DeliveryRouter) (nowMs : UInt64)
    (dead : DeadRecord) (st : Router.RouterState) : Router.RouterState :=
  match deadLetterNotice dead with
  | none => st
  | some queue => (publishDeadLetterTo env router nowMs dead queue st).1

/-! ## The calls of a supervisor -/

/-- What a supervisor calls the store with: deliveries go to the reliable subscribers of their queues, and
the maps are those of the router. -/
def Supervised (cfg : Config) : Call → Prop
  | .enqueue record => SubscribedReliably (subscriptions cfg) record.val.queue record.val.dept
  | .rebind currentDeptByQueue => currentDeptByQueue = singleReliableSubscribersByQueue (subscriptions cfg)
  | .redrive _ currentDeptByQueue _ _ =>
    currentDeptByQueue = some (singleReliableSubscribersByQueue (subscriptions cfg))
  | _ => True

/-- **The dead rows that are published about** in a run: those that a redrive gives up, and those that are
looked up after a retry has. -/
inductive Reported (env : Delivery.Env) (acts : List Act) : DeadRecord → Prop where
  | redrive {e : Entry} {policy : Delivery.RedrivePolicy} {m : Option (Table String String)}
      {nowMs : UInt64} {keys : List Delivery.DueIndexKey} {result : Delivery.RedriveResult}
      {dead : DeadRecord} (he : e ∈ (World.init.run env acts).2)
      (htxn : e.txn = .redrive policy m nowMs keys) (hreply : e.reply = .redrive result)
      (hdead : dead ∈ result.permanent) : Reported env acts dead
  | retry {before after : List Act} {e : Entry} {id : String} {g nowMs : UInt64}
      {failure : Delivery.RetryFailure} {policy : Delivery.RetryPolicy} {dead : DeadRecord}
      (hacts : acts = before ++ after) (he : e ∈ (World.init.run env before).2)
      (htxn : e.txn = .retry id g failure policy nowMs) (hreply : e.reply = .retry .permanentDead)
      (hdead : (World.init.run env before).1.store.deadById[id]? = some dead) : Reported env acts dead

/-! ## Where notices go -/

/-- The dead-letter queue of the namespace of a department. -/
def deadLetterQueue (dept : String) : String :=
  match Text.splitOnce '.' dept.toList with
  | none => "dead_letter"
  | some (ns, _) => String.ofList ns ++ ".dead_letter"

/-- A notice goes to the queue of the namespace, unless the delivery was on it. -/
theorem deadLetterNotice_eq_some {dead : DeadRecord} {queue : String} :
    deadLetterNotice dead = some queue ↔
      dead.queue ≠ deadLetterQueue dead.dept ∧ queue = deadLetterQueue dead.dept := by
  rw [deadLetterNotice, deadLetterQueue]
  cases Text.splitOnce '.' dead.dept.toList with
  | none =>
    dsimp only
    split_ifs with hown
    · exact ⟨fun h => (by cases h), fun h => absurd hown h.1⟩
    · exact ⟨fun h => ⟨hown, (Option.some.inj h).symm⟩, fun h => h.2 ▸ rfl⟩
  | some parts =>
    dsimp only
    split_ifs with hown
    · exact ⟨fun h => (by cases h), fun h => absurd hown h.1⟩
    · exact ⟨fun h => ⟨hown, (Option.some.inj h).symm⟩, fun h => h.2 ▸ rfl⟩

theorem isDeadLetterQueue_deadLetterQueue (dept : String) :
    isDeadLetterQueue (deadLetterQueue dept) = true := by
  rw [deadLetterQueue]
  split
  · decide
  · rename_i ns _ _
    have hlocal : Graph.localName (String.ofList ns ++ ".dead_letter") = "dead_letter".toList := by
      have hlist : (String.ofList ns ++ ".dead_letter").toList = ns ++ '.' :: "dead_letter".toList := by
        rw [String.toList_append, String.toList_ofList]
        rfl
      rw [Graph.localName, hlist, List.reverse_append, List.reverse_cons, List.append_assoc,
        List.takeWhile_append_of_pos fun c hc => ?_]
      · rw [List.singleton_append, List.takeWhile_cons_of_neg (by decide), List.append_nil,
          List.reverse_reverse]
      · have hall : "dead_letter".toList.all (fun c => decide (c ≠ '.')) = true := by decide
        exact List.all_eq_true.1 hall c (List.mem_reverse.1 hc)
    rw [isDeadLetterQueue, Graph.builtInProviderForQueue, if_pos hlocal]
    rfl

/-! ## How long notices go on -/

/-- **Subscriptions to dead-letter queues do not go round in circles**: each leads from the queue of one
namespace to the queue of another of lower rank, except where a namespace consumes its own. -/
def Ranked (cfg : Config) (rank : String → ℕ) : Prop :=
  ∀ queue dept, SubscribedReliably (subscriptions cfg) queue dept → isDeadLetterQueue queue = true →
    queue ≠ deadLetterQueue dept → rank (deadLetterQueue dept) < rank queue

section Runs

variable {env : Delivery.Env} {cfg : Config} {acts : List Act} {dead : DeadRecord}

theorem brings_of_supervised {call : Call} (h : Supervised cfg call) :
    call.Brings (DeliveryRecord.Served (SubscribedReliably (subscriptions cfg))) := by
  cases call with
  | enqueue => exact h
  | rebind =>
    subst h
    exact fun _ _ hdept _ => Router.subscribedReliably_of_single _ _ hdept
  | redrive =>
    subst h
    exact fun _ _ hdept _ => Router.subscribedReliably_of_single _ _ hdept
  | _ => trivial

/-- What is published about died in a department that consumes its queue reliably. -/
theorem Reported.subscribed (hacts : ∀ call, .start call ∈ acts → Supervised cfg call)
    (h : Reported env acts dead) : SubscribedReliably (subscriptions cfg) dead.queue dead.dept := by
  cases h with
  | redrive he htxn hreply hdead =>
    have hserved := (World.run_served acts fun call hcall =>
      brings_of_supervised (hacts call hcall)).2 _ he
    exact (World.committed_of_mem acts he).permanent htxn hreply hserved.2 hserved.1 dead hdead
  | retry hsplit he htxn hreply hdead =>
    subst hsplit
    exact (World.run_served _ fun call hcall =>
      brings_of_supervised (hacts call (List.mem_append_left _ hcall))).1.rows.dead _ dead hdead

/-- The tables, if the store is open, are as the store writes them, and all rows are subscribed. -/
def RowsSubscribed (cfg : Config) (store : Option Delivery.Store) : Prop :=
  ∀ s, store = some s → s.Inv ∧ s.Served (SubscribedReliably (subscriptions cfg))

theorem publishReliable_subscribed (env : Router.Env) {router : Router.DeliveryRouter}
    {envelope : Router.PublishEnvelope} {st : Router.RouterState} {dept : String}
    (hdept : SubscribedReliably (subscriptions cfg) envelope.event.queue dept)
    (hrows : RowsSubscribed cfg st.store) :
    RowsSubscribed cfg (Router.publishReliable env router envelope dept st).1.store := by
  unfold Router.publishReliable
  split
  · exact hrows
  · split
    · exact hrows
    · rename_i store hstore
      dsimp only
      split_ifs
      · exact hrows
      · split
        · exact hrows
        · split
          · exact hrows
          · rename_i store' outcome hrun
            intro s hs
            obtain rfl := Option.some.inj hs
            obtain ⟨hinv, hserved⟩ := hrows store hstore
            have he : Entry.Committed env.toEnv ⟨store, .enqueue ⟨_, ⟨rfl, rfl, rfl, rfl, rfl, rfl⟩⟩,
                .enqueue outcome, store'⟩ := ⟨hinv, trivial, by
              rw [Delivery.Store.commit]
              exact Lib.Checks.bind_eq_ok.2 ⟨_, hrun, rfl⟩⟩
            exact ⟨he.effect.inv, he.served hdept hserved⟩

/-- What is published goes to the reliable subscribers of its queue. -/
theorem publish_subscribed (env : Router.Env) {router : Router.DeliveryRouter}
    (hrouter : router.subscriptions = subscriptions cfg) (envelope : Router.PublishEnvelope)
    {st : Router.RouterState} (hrows : RowsSubscribed cfg st.store) :
    RowsSubscribed cfg (Router.publish env router envelope st).1.store := by
  have houtcome : RowsSubscribed cfg (Router.publishOutcome env router envelope st).1.store := by
    rw [Router.publishOutcome]
    dsimp only
    split
    · exact hrows
    · rename_i subs hsubs
      rw [hrouter] at hsubs
      have hstep : ∀ sub ∈ subs, sub.reliable = true → ∀ st : Router.RouterState,
          RowsSubscribed cfg st.store → Router.Leaves (RowsSubscribed cfg) (fun _ => True)
            (Router.publishReliable env router
              { envelope with event := Router.canonicalizeEvent envelope.event envelope.source }
              sub.dept st).1
            (Router.publishReliable env router
              { envelope with event := Router.canonicalizeEvent envelope.event envelope.source }
              sub.dept st).2 := fun sub hsub hreliable st hrows =>
        ⟨publishReliable_subscribed env ⟨subs, sub, hsubs, hsub, hreliable, rfl⟩ hrows, fun _ _ => trivial⟩
      have hloop := Router.Leaves.publishLoop env subs hstep false none hrows
      split
      · rename_i hout
        rw [hout] at hloop
        exact hloop.rows
      · rename_i hout
        rw [hout] at hloop
        split_ifs
        · split
          · rename_i hsend
            exact Router.fanoutSend_store hsend ▸ hloop.rows
          · rename_i hsend
            exact Router.fanoutSend_store hsend ▸ hloop.rows
        · exact hloop.rows
  rw [Router.publish]
  split <;> rename_i hout <;> rw [hout] at houtcome <;> exact houtcome

/-- **A notice is one more call of the supervisor**: what it enqueues goes to subscribers. -/
theorem publishPermanentDeadLetter_subscribed (env : Router.Env) {router : Router.DeliveryRouter}
    (hrouter : router.subscriptions = subscriptions cfg) (nowMs : UInt64) (dead : DeadRecord)
    {st : Router.RouterState} (hrows : RowsSubscribed cfg st.store) :
    RowsSubscribed cfg (publishPermanentDeadLetter env router nowMs dead st).store := by
  rw [publishPermanentDeadLetter]
  split
  · exact hrows
  · exact publish_subscribed env hrouter _ hrows

/-- A notice about what died on a dead-letter queue goes to one of lower rank. -/
theorem rank_notice_lt {rank : String → ℕ} (hrank : Ranked cfg rank)
    (hacts : ∀ call, .start call ∈ acts → Supervised cfg call) (h : Reported env acts dead)
    (hqueue : isDeadLetterQueue dead.queue = true) {queue : String}
    (hnotice : deadLetterNotice dead = some queue) : rank queue < rank dead.queue := by
  obtain ⟨hother, rfl⟩ := deadLetterNotice_eq_some.1 hnotice
  exact hrank _ _ (h.subscribed hacts) hqueue hother

/-- Each of the dead rows is of a delivery on the queue that the notice about the one before went to. -/
def Follows (dead dead' : DeadRecord) : Prop := deadLetterNotice dead = some dead'.queue

/-- What follows on a dead letter is no longer than the rank of its queue allows. -/
theorem length_follows_le {rank : String → ℕ} (hrank : Ranked cfg rank)
    (hacts : ∀ call, .start call ∈ acts → Supervised cfg call) :
    ∀ {chain : List DeadRecord} {dead : DeadRecord}, (∀ d ∈ dead :: chain, Reported env acts d) →
      (dead :: chain).IsChain Follows → isDeadLetterQueue dead.queue = true → chain.length ≤ rank dead.queue
  | [], _, _, _, _ => Nat.zero_le _
  | next :: chain, dead, hreported, hchain, hqueue => by
    obtain ⟨hfollows, hchain⟩ := List.isChain_cons_cons.1 hchain
    rw [List.forall_mem_cons] at hreported
    have hlower := rank_notice_lt hrank hacts hreported.1 hqueue hfollows
    have hnext : isDeadLetterQueue next.queue = true := by
      rw [(deadLetterNotice_eq_some.1 hfollows).2]
      exact isDeadLetterQueue_deadLetterQueue _
    have hrest := length_follows_le hrank hacts hreported.2 hchain hnext
    rw [List.length_cons]
    omega

/-- **Notices about notices come to an end**, wherever the subscriptions to dead-letter queues do not go
round in circles: in every run, what follows on a dead letter is no longer than the rank of the queue of
the first notice, and one.  And a dead letter on the queue of its own namespace is never followed. -/
theorem notices_end (env : Delivery.Env) {cfg : Config} {rank : String → ℕ} (hrank : Ranked cfg rank)
    {acts : List Act} (hacts : ∀ call, .start call ∈ acts → Supervised cfg call) {dead : DeadRecord}
    {chain : List DeadRecord} (hreported : ∀ d ∈ dead :: chain, Reported env acts d)
    (hchain : (dead :: chain).IsChain Follows) :
    chain.length ≤ rank (deadLetterQueue dead.dept) + 1 ∧
      (dead.queue = deadLetterQueue dead.dept → chain = []) := by
  cases chain with
  | nil => exact ⟨Nat.zero_le _, fun _ => rfl⟩
  | cons next chain =>
    obtain ⟨hfollows, hrest⟩ := List.isChain_cons_cons.1 hchain
    obtain ⟨hother, hqueue⟩ := deadLetterNotice_eq_some.1 hfollows
    rw [List.forall_mem_cons] at hreported
    have hnext : isDeadLetterQueue next.queue = true := by
      rw [hqueue]
      exact isDeadLetterQueue_deadLetterQueue _
    have hle := length_follows_le hrank hacts hreported.2 hrest hnext
    rw [hqueue] at hle
    exact ⟨Nat.succ_le_succ hle, fun hown => absurd hown hother⟩

end Runs

namespace Sample

/-- A department that works on jobs. -/
def worker : Graph.DepartmentDecl := { Router.Sample.worker with consumes := ["a.jobs"], ephemeral := [] }

/-- A department of another namespace, which is told about jobs that died. -/
def alarm : Graph.DepartmentDecl := { worker with consumes := ["a.dead_letter"] }

/-- The graph of both. -/
def relay : Config where
  queue := ∅
  raiser := ∅
  department := ((∅ : Table String Graph.DepartmentDecl).insert "a.work" worker).insert "b.alarm" alarm
  limits := ⟨4⟩

/-- The queue of the other namespace is of lower rank. -/
def relayRank (queue : String) : ℕ := if queue = "a.dead_letter" then 1 else 0

theorem subscribed_relay {queue dept : String} (h : SubscribedReliably (subscriptions relay) queue dept) :
    (queue = "a.jobs" ∧ dept = "a.work") ∨ (queue = "a.dead_letter" ∧ dept = "b.alarm") := by
  obtain ⟨subs, sub, hsubs, hsub, _, rfl⟩ := h
  obtain ⟨decl, hdecl, hqueue, _⟩ := (Router.mem_subscriptions relay hsubs).1 hsub
  rw [relay, Table.get_insert] at hdecl
  split at hdecl
  · rename_i hname
    obtain rfl := Option.some.inj hdecl
    exact Or.inr ⟨List.mem_singleton.1 hqueue, hname⟩
  · rw [Table.get_insert] at hdecl
    split at hdecl
    · rename_i hname
      obtain rfl := Option.some.inj hdecl
      exact Or.inl ⟨List.mem_singleton.1 hqueue, hname⟩
    · simp at hdecl

theorem ranked_relay : Ranked relay relayRank := by
  intro queue dept h hqueue _
  rcases subscribed_relay h with ⟨rfl, rfl⟩ | ⟨rfl, rfl⟩
  · exact absurd hqueue (by decide)
  · decide

/-- A record of the graph. -/
def onQueue (id queue dept : String) : Delivery.FreshRecord :=
  ⟨{ (Delivery.Sample.record id false).val with queue := queue, dept := dept },
    ⟨rfl, rfl, rfl, rfl, rfl, rfl⟩⟩

/-- A job dies. -/
def jobDies : List Act := Act.inSequence
  [.enqueue (onQueue "job" "a.jobs" "a.work"), .lease 0 1 ⟨0, 0⟩ none ∅,
    .retry "job" 1 ⟨"failed", false⟩ Delivery.Sample.retryPolicy 0]

/-- Then the notice about it does. -/
def noticeDies : List Act := Act.inSequence
  [.enqueue (onQueue "notice" "a.dead_letter" "b.alarm"), .lease 0 1 ⟨0, 0⟩ none ∅,
    .retry "notice" 1 ⟨"failed", false⟩ Delivery.Sample.retryPolicy 0]

theorem supervised_relay : ∀ call, .start call ∈ jobDies ++ noticeDies → Supervised relay call := by
  intro call hcall
  have hwork : SubscribedReliably (subscriptions relay) "a.jobs" "a.work" :=
    ⟨[⟨"a.work", true⟩], ⟨"a.work", true⟩, by decide +kernel, List.mem_cons_self, rfl, rfl⟩
  have halarm : SubscribedReliably (subscriptions relay) "a.dead_letter" "b.alarm" :=
    ⟨[⟨"b.alarm", true⟩], ⟨"b.alarm", true⟩, by decide +kernel, List.mem_cons_self, rfl, rfl⟩
  simp only [jobDies, noticeDies, Act.inSequence, List.flatMap_cons, List.flatMap_nil, List.append_nil,
    List.cons_append, List.nil_append, List.mem_cons, Act.start.injEq, reduceCtorEq, List.not_mem_nil,
    or_false, false_or] at hcall
  rcases hcall with rfl | rfl | rfl | rfl | rfl | rfl
  · exact hwork
  · trivial
  · trivial
  · exact halarm
  · trivial
  · trivial

/-- The entry is a retry that gave the delivery up. -/
def gaveUp (id : String) (e : Entry) : Bool :=
  match e.txn, e.reply with
  | .retry id' _ _ _ _, .retry .permanentDead => id' = id
  | _, _ => false

theorem reported_of_gaveUp {env : Delivery.Env} {before after : List Act} {id : String} {dead : DeadRecord}
    (h : (World.init.run env before).2.any (gaveUp id) = true)
    (hdead : (World.init.run env before).1.store.deadById[id]? = some dead) :
    Reported env (before ++ after) dead := by
  obtain ⟨e, he, hgaveUp⟩ := List.any_eq_true.1 h
  rw [gaveUp] at hgaveUp
  split at hgaveUp
  · rename_i htxn hreply
    obtain rfl := of_decide_eq_true hgaveUp
    exact .retry rfl he htxn hreply hdead
  · cases hgaveUp

end Sample

/-- The theorem at a job that dies, and the notice about it, which dies in another namespace. -/
theorem notices_end_relay : ∃ job notice, Follows job notice ∧
    [notice].length ≤ Sample.relayRank (deadLetterQueue job.dept) + 1 ∧
      job.queue ≠ deadLetterQueue job.dept := by
  have hjob : (World.init.run Delivery.Sample.env Sample.jobDies).2.any (Sample.gaveUp "job") = true ∧
      ((World.init.run Delivery.Sample.env Sample.jobDies).1.store.deadById["job"]?).any
        (fun d => d.queue = "a.jobs" ∧ d.dept = "a.work") = true := by decide +kernel
  have hnotice : (World.init.run Delivery.Sample.env (Sample.jobDies ++ Sample.noticeDies)).2.any
        (Sample.gaveUp "notice") = true ∧
      ((World.init.run Delivery.Sample.env
          (Sample.jobDies ++ Sample.noticeDies)).1.store.deadById["notice"]?).any
        (fun d => d.queue = "a.dead_letter" ∧ d.dept = "b.alarm") = true := by decide +kernel
  obtain ⟨job, hdead, hjobRow⟩ := (Option.any_eq_true _ _).1 hjob.2
  obtain ⟨notice, hdead', hnoticeRow⟩ := (Option.any_eq_true _ _).1 hnotice.2
  obtain ⟨hqueue, hdept⟩ := of_decide_eq_true hjobRow
  obtain ⟨hqueue', _⟩ := of_decide_eq_true hnoticeRow
  have hfollows : Follows job notice := by
    rw [Follows, deadLetterNotice_eq_some, hqueue, hdept, hqueue']
    decide
  have hreported : ∀ d ∈ [job, notice], Reported Delivery.Sample.env
      (Sample.jobDies ++ Sample.noticeDies) d := by
    rw [List.forall_mem_cons, List.forall_mem_singleton]
    refine ⟨Sample.reported_of_gaveUp hjob.1 hdead, ?_⟩
    rw [← List.append_nil (_ ++ _)]
    exact Sample.reported_of_gaveUp hnotice.1 hdead'
  obtain ⟨hle, hown⟩ := notices_end Delivery.Sample.env Sample.ranked_relay Sample.supervised_relay
    hreported (List.isChain_cons_cons.2 ⟨hfollows, .singleton notice⟩)
  exact ⟨job, notice, hfollows, hle, fun h => List.cons_ne_nil _ _ (hown h)⟩

end Fkst.Consumer
