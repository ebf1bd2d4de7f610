import Fkst.Delivery.Sweeping
import Fkst.Router.Subscriptions

/-!
# Startup

Before the first consumer starts, `supervise` brings the store in line with the graph: deliveries of
a queue with a single reliable subscriber are bound to its department, and a sweep sets the clocks of
those whose queue has none.

Between the two there is a gap.  A queue with several reliable subscribers binds nothing, and it is
served, so that nothing is swept either: a delivery for a department that no longer consumes such a
queue is left to no one.
-/

set_option autoImplicit false

namespace Fkst

open Lib
open Delivery (Act DeliveryRecord Store World subscriberAbsentDeadReason)
open Router (SubscribedReliably Subscription reliableSubscriberQueues
  singleReliableSubscribersByQueue subscriptions)

/-- `rebind_deliveries_to_current_subscribers` and `sweep_subscriber_absence` of `supervise`. -/
def startup (env : Delivery.Env) (subs : Table String (List Subscription)) (nowMs : UInt64)
    (budget : Duration) (batchLimit : ℕ) (s : Store) : Store :=
  (s.perform env (.rebind (singleReliableSubscribersByQueue subs))).perform env
    (.sweep (reliableSubscriberQueues subs) nowMs budget batchLimit)

/-- The reliable subscriptions of a queue. -/
def reliableSubscriptions (subs : Table String (List Subscription)) (queue : String) :
    List Subscription :=
  ((subs[queue]?).getD []).filter (·.reliable)

/-- Someone looks after the delivery: a department that consumes its queue, or its clock, or it has
been dead-lettered. -/
def LookedAfter (subs : Table String (List Subscription)) (s : Store) (id : String) : Prop :=
  (∃ r, s.deliveryById[id]? = some r ∧
    (SubscribedReliably subs r.queue r.dept ∨ r.subscriberAbsentSinceMs ≠ none)) ∨
  (s.deliveryById[id]? = none ∧ ∃ d, s.deadById[id]? = some d ∧
    d.errorExcerpt = some subscriberAbsentDeadReason)

/-- A delivery for a department that no longer consumes its queue, while several others do. -/
def LeftBehind (subs : Table String (List Subscription)) (r : DeliveryRecord) : Prop :=
  2 ≤ (reliableSubscriptions subs r.queue).length ∧ ¬ SubscribedReliably subs r.queue r.dept

section Rows

variable {env : Delivery.Env} {subs : Table String (List Subscription)} {s : Store} {id : String}
  {r : DeliveryRecord}

/-- The department of a queue that has a single one. -/
def soleDept : List Subscription → Option String
  | [sub] => some sub.dept
  | _ => none

/-- A delivery after the rebind. -/
theorem reboundTo_single (subs : Table String (List Subscription)) (r : DeliveryRecord) :
    (r.reboundTo (singleReliableSubscribersByQueue subs)).queue = r.queue ∧
    (∀ sub, reliableSubscriptions subs r.queue = [sub] →
      (r.reboundTo (singleReliableSubscribersByQueue subs)).dept = sub.dept) ∧
    ((reliableSubscriptions subs r.queue).length ≠ 1 →
      r.reboundTo (singleReliableSubscribersByQueue subs) = r) := by
  have hget : (singleReliableSubscribersByQueue subs)[r.queue]? =
      soleDept (reliableSubscriptions subs r.queue) := by
    rw [Router.get_singleReliableSubscribersByQueue, reliableSubscriptions]
    cases subs[r.queue]? <;> rfl
  rw [DeliveryRecord.reboundTo, hget]
  split
  · rename_i hnone
    refine ⟨rfl, fun sub hsub => ?_, fun _ => rfl⟩
    rw [hsub] at hnone
    cases hnone
  · rename_i dept hdept
    unfold soleDept at hdept
    split at hdept
    · rename_i sub hsub
      obtain rfl := Option.some.inj hdept
      refine ⟨by split <;> rfl, fun sub' hsub' => ?_, fun hne => absurd (by rw [hsub]; rfl) hne⟩
      obtain rfl : sub = sub' := by simpa using hsub.symm.trans hsub'
      split
      · assumption
      · rfl
    · cases hdept

theorem served_iff (subs : Table String (List Subscription)) (queue : String) :
    (reliableSubscriberQueues subs).contains queue = true ↔ reliableSubscriptions subs queue ≠ [] := by
  rw [Router.contains_reliableSubscriberQueues, Ne, List.eq_nil_iff_forall_not_mem, not_forall]
  simp only [not_not, reliableSubscriptions, List.mem_filter, SubscribedReliably]
  constructor
  · rintro ⟨dept, ss, sub, hss, hsub, hreliable, _⟩
    exact ⟨sub, by simpa [hss] using hsub, hreliable⟩
  · rintro ⟨sub, hsub, hreliable⟩
    cases hss : subs[queue]? with
    | none => simp [hss] at hsub
    | some ss => exact ⟨sub.dept, ss, sub, rfl, by simpa [hss] using hsub, hreliable, rfl⟩

/-- **What startup leaves of a row.** -/
theorem lookedAfter_iff (hs : s.Inv) (hr : s.deliveryById[id]? = some r) (nowMs : UInt64)
    (budget : Duration) {batchLimit : ℕ} (hbatch : s.deliveryById.size ≤ batchLimit) :
    LookedAfter subs (startup env subs nowMs budget batchLimit s) id ↔ ¬ LeftBehind subs r := by
  have hbound : (s.perform env (.rebind (singleReliableSubscribersByQueue subs))).deliveryById =
      s.deliveryById.map fun _ r => r.reboundTo (singleReliableSubscribersByQueue subs) := by
    refine Std.ExtTreeMap.ext_getElem? fun id => ?_
    rw [Std.ExtTreeMap.getElem?_map]
    exact Store.get_rebind env s (singleReliableSubscribersByQueue subs) id
  have hs1 : (s.perform env (.rebind (singleReliableSubscribersByQueue subs))).Inv :=
    (Store.rebind_effect hs (singleReliableSubscribersByQueue subs)).inv
  have hr1 : (s.perform env (.rebind (singleReliableSubscribersByQueue subs))).deliveryById[id]? =
      some (r.reboundTo (singleReliableSubscribersByQueue subs)) := by
    rw [hbound, Std.ExtTreeMap.getElem?_map, hr, Option.map_some]
  have hsize : (s.perform env (.rebind (singleReliableSubscribersByQueue subs))).deliveryById.size ≤
      batchLimit := by
    rwa [hbound, Std.ExtTreeMap.size_map]
  have hswept := Store.get_perform_sweep env hs1 (reliableSubscriberQueues subs) nowMs budget hsize id
  rw [hr1, Option.bind_some, DeliveryRecord.sweptAt] at hswept
  obtain ⟨hqueue, hsingle, hother⟩ := reboundTo_single subs r
  by_cases hserved : reliableSubscriptions subs r.queue = []
  · -- the row has a clock, or its clock has run out
    have hnot : ¬ LeftBehind subs r := fun h => absurd h.1 (by simp [hserved])
    have hunserved : ¬ (reliableSubscriberQueues subs).contains
        (r.reboundTo (singleReliableSubscribersByQueue subs)).queue = true := by
      rw [hqueue, served_iff, not_not]
      exact hserved
    rw [if_neg hunserved] at hswept
    refine iff_of_true ?_ hnot
    split at hswept
    · exact Or.inl ⟨_, hswept, Or.inr (by simp)⟩
    · rename_i since hsince
      split at hswept
      · exact Or.inr ⟨hswept, Store.dead_perform_sweep hs1 (by simp [hr1]) hswept⟩
      · exact Or.inl ⟨_, hswept, Or.inr (by simp [hsince])⟩
  · have hservedQueue : (reliableSubscriberQueues subs).contains
        (r.reboundTo (singleReliableSubscribersByQueue subs)).queue = true := by
      rw [hqueue, served_iff]
      exact hserved
    rw [if_pos hservedQueue] at hswept
    have hlooked : LookedAfter subs (startup env subs nowMs budget batchLimit s) id ↔
        SubscribedReliably subs r.queue
          (r.reboundTo (singleReliableSubscribersByQueue subs)).dept := by
      constructor
      · rintro (⟨r', hr', hattended⟩ | ⟨hnone, _⟩)
        · obtain rfl := Option.some.inj (hswept.symm.trans hr')
          rcases hattended with hsub | hclock
          · exact hqueue ▸ hsub
          · exact absurd rfl hclock
        · rw [startup, hswept] at hnone
          cases hnone
      · intro hsub
        refine Or.inl ⟨_, hswept, Or.inl ?_⟩
        rw [← hqueue] at hsub
        exact hsub
    rw [hlooked, LeftBehind]
    by_cases hone : (reliableSubscriptions subs r.queue).length = 1
    · obtain ⟨sub, hsub⟩ := List.length_eq_one_iff.1 hone
      have hmem : sub ∈ ((subs[r.queue]?).getD []).filter (·.reliable) := by
        change sub ∈ reliableSubscriptions subs r.queue
        simp [hsub]
      rw [List.mem_filter] at hmem
      have hsubscribed : SubscribedReliably subs r.queue sub.dept := by
        cases hss : subs[r.queue]? with
        | none => simp [hss] at hmem
        | some ss => exact ⟨ss, sub, hss, by simpa [hss] using hmem.1, hmem.2, rfl⟩
      rw [hsingle sub hsub, hone]
      exact iff_of_true hsubscribed (fun h => absurd h.1 (by decide))
    · have hlen : 2 ≤ (reliableSubscriptions subs r.queue).length := by
        have := List.length_pos_iff.2 hserved
        omega
      rw [hother hone]
      simp [hlen]

end Rows

/-- **Startup leaves no delivery to no one exactly when none is left behind.**  For every graph and
every store of a run, if the sweep has room for all rows: every live delivery is looked after unless
its department is not among the several that consume its queue. -/
theorem startup_orphans_iff (env : Delivery.Env) (cfg : Graph.Config) (acts : List Act)
    (nowMs : UInt64) (budget : Duration) {batchLimit : ℕ}
    (hbatch : (World.init.run env acts).1.store.deliveryById.size ≤ batchLimit) :
    (∀ (id : String) (r : DeliveryRecord),
      (World.init.run env acts).1.store.deliveryById[id]? = some r →
      LookedAfter (subscriptions cfg) (startup env (subscriptions cfg) nowMs budget batchLimit
        (World.init.run env acts).1.store) id) ↔
    ∀ (id : String) (r : DeliveryRecord),
      (World.init.run env acts).1.store.deliveryById[id]? = some r →
      ¬ LeftBehind (subscriptions cfg) r := by
  have hs := (World.run_inv env acts).store
  constructor
  · intro h id r hr
    exact (lookedAfter_iff hs hr nowMs budget hbatch).1 (h id r hr)
  · intro h id r hr
    exact (lookedAfter_iff hs hr nowMs budget hbatch).2 (h id r hr)

namespace Sample

/-- A department that consumes a queue. -/
def consumer (queue : String) : Graph.DepartmentDecl :=
  ⟨"main.lua", ".", "pkg", [queue], [], [], [], "30s", false, none⟩

/-- A fanout queue with two departments. -/
def fanout : Graph.Config where
  queue := Std.ExtTreeMap.empty.insert "queue" ⟨1, true⟩
  raiser := ∅
  department := (Std.ExtTreeMap.empty.insert "first" (consumer "queue")).insert "second"
    (consumer "queue")
  limits := ⟨1⟩

/-- A queue with a single department. -/
def single : Graph.Config where
  queue := Std.ExtTreeMap.empty.insert "queue" ⟨1, false⟩
  raiser := ∅
  department := Std.ExtTreeMap.empty.insert "first" (consumer "queue")
  limits := ⟨1⟩

/-- A delivery for a department that is in neither graph. -/
def pending : List Act := Act.inSequence [.enqueue (Delivery.Sample.record "a" false)]

end Sample

/-- The theorem at a delivery that is bound to another department. -/
theorem startup_orphans_single :
    (World.init.run Delivery.Sample.env Sample.pending).1.store.deliveryById.size ≤ 1 ∧
    ((World.init.run Delivery.Sample.env Sample.pending).1.store.deliveryById["a"]?).isSome = true ∧
    LookedAfter (subscriptions Sample.single) (startup Delivery.Sample.env
      (subscriptions Sample.single) 0 (.fromMillis 5) 1
      (World.init.run Delivery.Sample.env Sample.pending).1.store) "a" := by
  have hsize : (World.init.run Delivery.Sample.env Sample.pending).1.store.deliveryById.size ≤ 1 := by
    decide +kernel
  have hrow : ((World.init.run Delivery.Sample.env Sample.pending).1.store.deliveryById["a"]?).isSome =
      true := by
    decide +kernel
  have hqueues : ∀ p ∈ (World.init.run Delivery.Sample.env Sample.pending).1.store.deliveryById.toList,
      (reliableSubscriptions (subscriptions Sample.single) p.2.queue).length ≤ 1 := by
    decide +kernel
  obtain ⟨row, hget⟩ := Option.isSome_iff_exists.1 hrow
  refine ⟨hsize, hrow, (startup_orphans_iff Delivery.Sample.env Sample.single Sample.pending 0
    (.fromMillis 5) hsize).2 (fun id r hr hleft => ?_) "a" row hget⟩
  have hle := hqueues (id, r) (Std.ExtTreeMap.mem_toList_iff_getElem?_eq_some.2 hr)
  have hge := hleft.1
  dsimp only at hle
  omega

/-- A delivery for a department that is gone from a fanout queue stays where it is: no department
that consumes the queue leases it, and it has no clock. -/
theorem fanout_delivery_orphaned :
    ((World.init.run Delivery.Sample.env Sample.pending).1.store.deliveryById["a"]?).isSome = true ∧
    ¬ LookedAfter (subscriptions Sample.fanout) (startup Delivery.Sample.env
      (subscriptions Sample.fanout) 0 (.fromMillis 5) 1
      (World.init.run Delivery.Sample.env Sample.pending).1.store) "a" := by
  have hrow : ((startup Delivery.Sample.env (subscriptions Sample.fanout) 0 (.fromMillis 5) 1
      (World.init.run Delivery.Sample.env Sample.pending).1.store).deliveryById["a"]?).map
        (fun r => (r.queue, r.dept, r.subscriberAbsentSinceMs)) = some ("queue", "dept", none) := by
    decide +kernel
  have hsubs : (subscriptions Sample.fanout)["queue"]? =
      some [⟨"first", true⟩, ⟨"second", true⟩] := by
    decide +kernel
  refine ⟨by decide +kernel, ?_⟩
  obtain ⟨r, hr, hfields⟩ := Option.map_eq_some_iff.1 hrow
  obtain ⟨hqueue, hdept, hclock⟩ : r.queue = "queue" ∧ r.dept = "dept" ∧
      r.subscriberAbsentSinceMs = none := by simpa using hfields
  rintro (⟨r', hr', hattended⟩ | ⟨hnone, _⟩)
  · obtain rfl := Option.some.inj (hr.symm.trans hr')
    rcases hattended with ⟨subs, sub, hss, hsub, _, hsubDept⟩ | hset
    · rw [hqueue] at hss
      obtain rfl := Option.some.inj (hsubs.symm.trans hss)
      rw [hdept] at hsubDept
      simp only [List.mem_cons, List.not_mem_nil, or_false] at hsub
      rcases hsub with rfl | rfl <;> simp at hsubDept
    · exact hset hclock
  · rw [hr] at hnone
    cases hnone

end Fkst
