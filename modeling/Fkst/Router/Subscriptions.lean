import Mathlib.Data.List.Sort
import Fkst.Graph.Config
import Fkst.Router.Publish

/-!
# Who consumes a queue

The router derives its subscriptions from the departments of the graph, and from the subscriptions
the two maps that startup hands to the store: the queues with a reliable subscriber, and for the
queues with exactly one its department.
-/

set_option autoImplicit false

namespace Fkst.Router

open Lib
open Fkst.Graph (Config DepartmentDecl)

/-- `by_queue.entry(queue).or_default().push(subscription)`. -/
def pushSubscription (byQueue : Table String (List Subscription)) (queue : String)
    (subscription : Subscription) : Table String (List Subscription) :=
  byQueue.insert queue ((byQueue[queue]?).getD [] ++ [subscription])

/-- The subscriptions of one department, added to those of others. -/
def pushDepartment (byQueue : Table String (List Subscription)) (deptName : String)
    (dept : DepartmentDecl) : Table String (List Subscription) :=
  dept.consumes.foldl (fun byQueue queue =>
    pushSubscription byQueue queue ⟨deptName, !dept.ephemeral.contains queue⟩) byQueue

/-- `subscriptions`.  The sort is stable. -/
def subscriptions (cfg : Config) : Table String (List Subscription) :=
  (cfg.department.toList.foldl (fun byQueue (deptName, dept) =>
    pushDepartment byQueue deptName dept) ∅).map fun _ subs =>
      List.insertionSort (fun left right => compare left.dept right.dept ≠ Ordering.gt) subs

/-- `reliable_subscriber_queues`. -/
def reliableSubscriberQueues (subscriptions : Table String (List Subscription)) :
    Std.ExtTreeSet String :=
  Std.ExtTreeSet.ofList
    ((subscriptions.toList.filter fun (_, subs) => subs.any (·.reliable)).map Prod.fst)

/-- `single_reliable_subscribers_by_queue`. -/
def singleReliableSubscribersByQueue (subscriptions : Table String (List Subscription)) :
    Table String String :=
  subscriptions.filterMap fun _ subs =>
    match subs.filter (·.reliable) with
    | [sub] => some sub.dept
    | _ => none

/-- The department is a reliable subscriber of the queue. -/
def SubscribedReliably (subscriptions : Table String (List Subscription)) (queue dept : String) :
    Prop :=
  ∃ subs sub, subscriptions[queue]? = some subs ∧ sub ∈ subs ∧ sub.reliable = true ∧ sub.dept = dept

section Maps

variable (subscriptions : Table String (List Subscription)) (queue : String)

theorem contains_reliableSubscriberQueues :
    (reliableSubscriberQueues subscriptions).contains queue = true ↔
      ∃ dept, SubscribedReliably subscriptions queue dept := by
  rw [reliableSubscriberQueues, Std.ExtTreeSet.contains_ofList, List.contains_iff_mem, List.mem_map]
  constructor
  · rintro ⟨⟨queue, subs⟩, hmem, rfl⟩
    obtain ⟨hsubs, hany⟩ := List.mem_filter.1 hmem
    obtain ⟨sub, hsub, hreliable⟩ := List.any_eq_true.1 hany
    exact ⟨sub.dept, subs, sub, Std.ExtTreeMap.mem_toList_iff_getElem?_eq_some.1 hsubs, hsub,
      hreliable, rfl⟩
  · rintro ⟨dept, subs, sub, hsubs, hsub, hreliable, _⟩
    exact ⟨(queue, subs), List.mem_filter.2 ⟨Std.ExtTreeMap.mem_toList_iff_getElem?_eq_some.2 hsubs,
      List.any_eq_true.2 ⟨sub, hsub, hreliable⟩⟩, rfl⟩

theorem get_singleReliableSubscribersByQueue :
    (singleReliableSubscribersByQueue subscriptions)[queue]? =
      (subscriptions[queue]?).bind fun subs =>
        match subs.filter (·.reliable) with
        | [sub] => some sub.dept
        | _ => none :=
  Std.ExtTreeMap.getElem?_filterMap'

/-- A queue that is bound to a department is consumed by it. -/
theorem subscribedReliably_of_single {dept : String}
    (h : (singleReliableSubscribersByQueue subscriptions)[queue]? = some dept) :
    SubscribedReliably subscriptions queue dept := by
  rw [get_singleReliableSubscribersByQueue] at h
  obtain ⟨subs, hsubs, hdept⟩ := Option.bind_eq_some_iff.1 h
  split at hdept
  · rename_i sub hfilter
    have hsub : sub ∈ subs.filter (·.reliable) := by simp [hfilter]
    rw [List.mem_filter] at hsub
    exact ⟨subs, sub, hsubs, hsub.1, hsub.2, Option.some.inj hdept⟩
  · cases hdept

end Maps

/-! ## The subscriptions of a configuration -/

section Departments

/-- The subscriptions of a queue, in the order in which they are pushed. -/
def pushed (entries : List (String × Subscription)) (queue : String) : List Subscription :=
  (entries.filter (·.1 = queue)).map Prod.snd

theorem pushed_cons (queue queue' : String) (sub : Subscription) (entries : List (String × Subscription)) :
    pushed ((queue', sub) :: entries) queue =
      if queue = queue' then sub :: pushed entries queue else pushed entries queue := by
  rw [pushed, List.filter_cons]
  by_cases h : queue = queue'
  · rw [if_pos (by simp [h]), if_pos h]
    rfl
  · rw [if_neg (by simpa using Ne.symm h), if_neg h]
    rfl

/-- A list that subscriptions were pushed to is not empty. -/
theorem get_foldl_pushSubscription (queue : String) : ∀ (entries : List (String × Subscription))
    (byQueue : Table String (List Subscription)), byQueue[queue]? ≠ some [] →
    (entries.foldl (fun byQueue (queue, sub) => pushSubscription byQueue queue sub) byQueue)[queue]? =
      let subs := (byQueue[queue]?).getD [] ++ pushed entries queue
      if subs = [] then none else some subs
  | [], byQueue, h => by
    cases hget : byQueue[queue]? with
    | none => simp [hget, pushed]
    | some subs =>
      have hne : subs ≠ [] := fun hnil => h (hnil ▸ hget)
      simp [hget, pushed, hne]
  | (queue', sub) :: entries, byQueue, h => by
    have hget : (pushSubscription byQueue queue' sub)[queue]? =
        if queue = queue' then some ((byQueue[queue']?).getD [] ++ [sub]) else byQueue[queue]? := by
      rw [pushSubscription, Table.get_insert]
    rw [List.foldl_cons, pushed_cons]
    by_cases hqueue : queue = queue'
    · rw [if_pos hqueue] at hget
      rw [get_foldl_pushSubscription queue entries _ (by simp [hget]), hget, if_pos hqueue, ← hqueue]
      simp
    · rw [if_neg hqueue] at hget
      rw [get_foldl_pushSubscription queue entries _ (hget ▸ h), hget, if_neg hqueue]

variable (cfg : Config)

/-- All subscriptions of a configuration, with their queues. -/
def subscriptionEntries : List (String × Subscription) :=
  cfg.department.toList.flatMap fun (deptName, dept) =>
    dept.consumes.map fun queue => (queue, ⟨deptName, !dept.ephemeral.contains queue⟩)

theorem get_subscriptions (queue : String) : (subscriptions cfg)[queue]? =
    if pushed (subscriptionEntries cfg) queue = [] then none
    else some (List.insertionSort (fun left right => compare left.dept right.dept ≠ Ordering.gt)
      (pushed (subscriptionEntries cfg) queue)) := by
  have hfold : cfg.department.toList.foldl (fun byQueue (deptName, dept) =>
      pushDepartment byQueue deptName dept) ∅ = (subscriptionEntries cfg).foldl
        (fun byQueue (queue, sub) => pushSubscription byQueue queue sub) ∅ := by
    rw [subscriptionEntries, List.foldl_flatMap]
    simp only [pushDepartment, List.foldl_map]
  rw [subscriptions, Std.ExtTreeMap.getElem?_map, hfold, get_foldl_pushSubscription queue _ _ (by simp)]
  simp only [Std.ExtTreeMap.getElem?_empty, Option.getD_none, List.nil_append]
  split <;> rfl

theorem mem_pushed {queue : String} {sub : Subscription} :
    sub ∈ pushed (subscriptionEntries cfg) queue ↔ ∃ dept, cfg.department[sub.dept]? = some dept ∧
      queue ∈ dept.consumes ∧ sub.reliable = !dept.ephemeral.contains queue := by
  rw [pushed, List.mem_map]
  constructor
  · rintro ⟨⟨queue', sub⟩, hmem, rfl⟩
    obtain ⟨hentry, hqueue⟩ := List.mem_filter.1 hmem
    obtain rfl : queue' = queue := by simpa using hqueue
    obtain ⟨⟨deptName, dept⟩, hdept, hconsumes⟩ := List.mem_flatMap.1 hentry
    obtain ⟨consumed, hconsumed, heq⟩ := List.mem_map.1 hconsumes
    obtain ⟨rfl, rfl⟩ := Prod.mk.inj heq
    exact ⟨dept, Std.ExtTreeMap.mem_toList_iff_getElem?_eq_some.1 hdept, hconsumed, rfl⟩
  · rintro ⟨dept, hdept, hqueue, hreliable⟩
    refine ⟨(queue, sub), List.mem_filter.2 ⟨List.mem_flatMap.2 ⟨(sub.dept, dept),
      Std.ExtTreeMap.mem_toList_iff_getElem?_eq_some.2 hdept, List.mem_map.2 ⟨queue, hqueue, ?_⟩⟩, by simp⟩,
      rfl⟩
    rw [← hreliable]

/-- A queue has no subscriptions if and only if no department consumes it. -/
theorem get_subscriptions_eq_none {queue : String} : (subscriptions cfg)[queue]? = none ↔
    ∀ (name : String) (dept : DepartmentDecl), cfg.department[name]? = some dept →
      queue ∉ dept.consumes := by
  rw [get_subscriptions]
  constructor
  · intro h name dept hdept hqueue
    split at h
    · rename_i hnil
      have hmem : ⟨name, !dept.ephemeral.contains queue⟩ ∈ pushed (subscriptionEntries cfg) queue :=
        (mem_pushed cfg).2 ⟨dept, hdept, hqueue, rfl⟩
      rw [hnil] at hmem
      cases hmem
    · cases h
  · intro h
    rw [if_pos]
    rw [List.eq_nil_iff_forall_not_mem]
    intro sub hsub
    obtain ⟨dept, hdept, hqueue, _⟩ := (mem_pushed cfg).1 hsub
    exact h _ dept hdept hqueue

/-- **Who is subscribed to a queue.** -/
theorem mem_subscriptions {queue : String} {subs : List Subscription} {sub : Subscription}
    (h : (subscriptions cfg)[queue]? = some subs) : sub ∈ subs ↔
      ∃ dept, cfg.department[sub.dept]? = some dept ∧ queue ∈ dept.consumes ∧
        sub.reliable = !dept.ephemeral.contains queue := by
  rw [get_subscriptions] at h
  split at h
  · cases h
  · obtain rfl := Option.some.inj h
    rw [← mem_pushed, (List.perm_insertionSort _ _).mem_iff]

/-- `DeliveryRouter::new` for a configuration with the names that the graph scan admits. -/
def DeliveryRouter.new (clock : ℕ → UInt64) (fanoutContended : ℕ → Bool)
    (hnamed : ∀ (name : String) (dept : DepartmentDecl), cfg.department[name]? = some dept →
      IsName name ∧ ∀ queue ∈ dept.consumes, IsName queue) : DeliveryRouter where
  subscriptions := Router.subscriptions cfg
  clock := clock
  fanoutContended := fanoutContended
  named := by
    intro queue subs hsubs
    have hname : ∀ sub ∈ subs, IsName queue ∧ IsName sub.dept := by
      intro sub hsub
      obtain ⟨dept, hdept, hqueue, _⟩ := (mem_subscriptions cfg hsubs).1 hsub
      exact ⟨(hnamed _ dept hdept).2 queue hqueue, (hnamed _ dept hdept).1⟩
    refine ⟨?_, fun sub hsub => (hname sub hsub).2⟩
    obtain ⟨sub, hsub⟩ : ∃ sub, sub ∈ subs := by
      by_contra hnone
      have hnone : ∀ (name : String) (dept : DepartmentDecl), cfg.department[name]? = some dept →
          queue ∉ dept.consumes := fun name dept hdept hqueue =>
        hnone ⟨⟨name, !dept.ephemeral.contains queue⟩,
          (mem_subscriptions cfg hsubs).2 ⟨dept, hdept, hqueue, rfl⟩⟩
      rw [(get_subscriptions_eq_none cfg).2 hnone] at hsubs
      cases hsubs
    exact (hname sub hsub).1

end Departments

end Fkst.Router
