import Fkst.Delivery.Runs

/-!
# Rebinding and sweeping, row by row

`rebind_deliveries_to_current_subscribers` and `sweep_subscriber_absence` go through the live rows
one by one.  Each of them treats a row by itself, so what it does to the table is what it does to a
row (`DeliveryRecord.reboundTo`, `DeliveryRecord.sweptAt`), for all rows it reaches.

A rebind reaches every row.  A sweep reaches the candidates of its read phase, which are the first
`batch_limit` rows in the order of their ids that are marked or whose queue has no subscriber.
-/

set_option autoImplicit false

namespace Fkst.Delivery

open Lib

/-! ## What becomes of a row -/

/-- A row after a rebind. -/
def DeliveryRecord.reboundTo (currentDeptByQueue : Table String String) (r : DeliveryRecord) :
    DeliveryRecord :=
  match currentDeptByQueue[r.queue]? with
  | none => r
  | some dept => if r.dept = dept then r else r.rebound dept

/-- A row after a sweep that reaches it; `none` for one that is dead-lettered. -/
def DeliveryRecord.sweptAt (queues : Std.ExtTreeSet String) (nowMs budgetMs : UInt64)
    (r : DeliveryRecord) : Option DeliveryRecord :=
  if queues.contains r.queue then some { r with subscriberAbsentSinceMs := none }
  else
    match r.subscriberAbsentSinceMs with
    | none => some { r with subscriberAbsentSinceMs := some nowMs }
    | some since => if subscriberAbsenceBudgetElapsed since budgetMs nowMs then none else some r

/-- A row that a sweep looks at. -/
def DeliveryRecord.Unsettled (queues : Std.ExtTreeSet String) (r : DeliveryRecord) : Prop :=
  queues.contains r.queue = false ∨ r.subscriberAbsentSinceMs ≠ none

instance (queues : Std.ExtTreeSet String) (r : DeliveryRecord) : Decidable (r.Unsettled queues) :=
  inferInstanceAs (Decidable (_ ∨ _))

theorem DeliveryRecord.without_clock {r : DeliveryRecord} (h : r.subscriberAbsentSinceMs = none) :
    { r with subscriberAbsentSinceMs := none } = r := by
  cases r
  simp only at h
  rw [h]

theorem DeliveryRecord.sweptAt_of_settled {queues : Std.ExtTreeSet String} {nowMs budgetMs : UInt64}
    {r : DeliveryRecord} (h : ¬ r.Unsettled queues) : r.sweptAt queues nowMs budgetMs = some r := by
  rw [Unsettled, not_or, Bool.not_eq_false, not_not] at h
  rw [sweptAt, if_pos h.1, without_clock h.2]

/-- What a sweep takes from the live rows it puts among the dead ones. -/
theorem Moves.dead_of_swept {env : Env} {id : String} {queues : Std.ExtTreeSet String}
    {nowMs : UInt64} {budget : Duration} {candidates : List String} {l : List Event} {v v' : View}
    (h : Moves env id (.sweep queues nowMs budget candidates) l v v') (hlive : v.live ≠ none)
    (hgone : v'.live = none) :
    ∃ d, v'.dead = some d ∧ d.errorExcerpt = some subscriberAbsentDeadReason := by
  have hdead := h.preserves (P := fun _ w => w.live = none → ∃ d, w.dead = some d ∧
    d.errorExcerpt = some subscriberAbsentDeadReason ∧ isTerminalDeadRecord d = false) ?_
    (fun hnone => absurd hnone hlive) hgone
  · obtain ⟨d, hd, hexcerpt, _⟩ := hdead
    exact ⟨d, hd, hexcerpt⟩
  · intro l o w w' hw hm hnone
    cases hm with
    | absence => cases hnone
    | sweep => exact ⟨_, rfl, rfl, rfl⟩
    | compact nowMs hclock hd hterminal =>
      obtain ⟨d, hd', _, hnot⟩ := hw hnone
      rw [Option.some.inj (hd.symm.trans hd'), hnot] at hterminal
      cases hterminal

namespace Store

variable {env : Env} {s : Store} {id : String}

/-! ## The live rows under the other tables -/

@[simp] theorem deliveryById_unindexRow (s : Store) (id : String) (r : DeliveryRecord) :
    (s.unindexRow id r).deliveryById = s.deliveryById := by
  rw [unindexRow]
  split <;> rfl

@[simp] theorem deliveryById_insertDeliveryLineageIndex (s : Store) (r : DeliveryRecord) :
    (s.insertDeliveryLineageIndex env r).deliveryById = s.deliveryById := by
  rw [insertDeliveryLineageIndex]
  split <;> rfl

@[simp] theorem deliveryById_removeDeliveryLineageIndex (s : Store) (r : DeliveryRecord) :
    (s.removeDeliveryLineageIndex env r).deliveryById = s.deliveryById := by
  rw [removeDeliveryLineageIndex]
  split <;> rfl

@[simp] theorem deliveryById_insertDeadLineageIndex (s : Store) (d : DeadRecord) :
    (s.insertDeadLineageIndex env d).deliveryById = s.deliveryById := by
  rw [insertDeadLineageIndex]
  split
  · rfl
  · split <;> rfl

@[simp] theorem deliveryById_removeDeadLineageIndex (s : Store) (d : DeadRecord) :
    (s.removeDeadLineageIndex env d).deliveryById = s.deliveryById := by
  rw [removeDeadLineageIndex]
  split
  · rfl
  · split <;> rfl

@[simp] theorem deliveryById_unindexPrevious (s : Store) (id : String)
    (keyId : DeadRecord → String) :
    (s.unindexPrevious env id keyId).deliveryById = s.deliveryById := by
  rw [unindexPrevious]
  split
  · exact deliveryById_removeDeadLineageIndex s _
  · rfl

theorem deliveryById_sweepDead (s : Store) (id : String) (r : DeliveryRecord) (nowMs : UInt64) :
    (s.sweepDead env id r nowMs).deliveryById = s.deliveryById.erase id := by
  simp [sweepDead, removeDelivery, insertDeadDue, insertDeadTime, insertDead]

theorem deliveryById_rebindRow (s : Store) (id : String) (r : DeliveryRecord) (dept : String) :
    (s.rebindRow env id r dept).deliveryById = s.deliveryById.insert id (r.rebound dept) := by
  rw [rebindRow]
  split <;> simp [insertDelivery, insertLeased, insertReady]

/-! ## Rebinding -/

theorem get_rebindRows : ∀ (candidates : List (String × DeliveryRecord × String)) (s : Store),
    candidates.Pairwise (fun c c' => c.1 ≠ c'.1) → ∀ id,
    (rebindRows env candidates s).deliveryById[id]? =
      match candidates.find? (·.1 = id) with
      | some (_, r, dept) => some (r.rebound dept)
      | none => s.deliveryById[id]?
  | [], s, _, id => rfl
  | (id', r, dept) :: candidates, s, hne, id => by
    rw [List.pairwise_cons] at hne
    rw [rebindRows, get_rebindRows candidates _ hne.2, deliveryById_rebindRow, Table.get_insert,
      List.find?_cons]
    by_cases h : id = id'
    · subst h
      have hnone : candidates.find? (·.1 = id) = none := by
        rw [List.find?_eq_none]
        intro c hc
        simpa using (hne.1 c hc).symm
      simp [hnone]
    · have h' : ¬ id' = id := fun heq => h heq.symm
      simp [h, h']

/-- **A rebind treats every row by itself.** -/
theorem get_rebind (env : Env) (s : Store) (currentDeptByQueue : Table String String) (id : String) :
    (s.rebindDeliveriesToCurrentSubscribers env currentDeptByQueue).1.deliveryById[id]? =
      (s.deliveryById[id]?).map (·.reboundTo currentDeptByQueue) := by
  obtain ⟨hrows, hne⟩ := rebindCandidates_spec s currentDeptByQueue
  rw [rebindDeliveriesToCurrentSubscribers, get_rebindRows _ _ hne]
  cases hfind : (s.rebindCandidates currentDeptByQueue).find? (·.1 = id) with
  | some c =>
    obtain ⟨id', r, dept⟩ := c
    have hmem := List.mem_of_find?_eq_some hfind
    obtain rfl : id' = id := by simpa using List.find?_some hfind
    rw [hrows _ hmem]
    obtain ⟨⟨id₁, r₁⟩, _, hc⟩ := List.mem_filterMap.1 hmem
    dsimp only at hc
    split at hc
    · cases hc
    · rename_i dept' hdept
      split at hc
      · cases hc
      · rename_i hother
        obtain ⟨rfl, rfl, rfl⟩ : id₁ = id' ∧ r₁ = r ∧ dept' = dept := by simpa using hc
        simp [DeliveryRecord.reboundTo, hdept, hother]
  | none =>
    cases hr : s.deliveryById[id]? with
    | none => rfl
    | some r =>
      have hsame : r.reboundTo currentDeptByQueue = r := by
        rw [DeliveryRecord.reboundTo]
        split
        · rfl
        · rename_i dept hdept
          split
          · rfl
          · rename_i hother
            have hmem : (id, r, dept) ∈ s.rebindCandidates currentDeptByQueue :=
              List.mem_filterMap.2 ⟨(id, r), Std.ExtTreeMap.mem_toList_iff_getElem?_eq_some.2 hr,
                by simp [hdept, hother]⟩
            have hnot := List.find?_eq_none.1 hfind _ hmem
            simp at hnot
      simp [hsame]

/-! ## Sweeping -/

/-- One round of the loop: what becomes of its row, and that the sweep reports every change. -/
theorem sweepRow_spec (env : Env) (queues : Std.ExtTreeSet String) (nowMs budgetMs : UInt64)
    (s : Store) (sweep : SubscriberAbsentSweep) (id : String) :
    let out := s.sweepRow env queues nowMs budgetMs sweep id
    (∀ j, out.1.deliveryById[j]? =
      if j = id then (s.deliveryById[id]?).bind (·.sweptAt queues nowMs budgetMs)
      else s.deliveryById[j]?) ∧
    (out.2.isEmpty = true → sweep.isEmpty = true ∧ out.1 = s) := by
  intro out
  have hout : out = s.sweepRow env queues nowMs budgetMs sweep id := rfl
  have hstay : ∀ r, s.deliveryById[id]? = r → ∀ r', r' = r → ∀ j,
      s.deliveryById[j]? = if j = id then r' else s.deliveryById[j]? := by
    rintro r hr r' rfl j
    split
    · subst j
      exact hr
    · rfl
  rw [sweepRow] at hout
  split at hout
  · rename_i hnone
    rw [hout, hnone]
    exact ⟨hstay _ hnone _ rfl, fun h => ⟨h, rfl⟩⟩
  · rename_i r hr
    dsimp only at hout
    rw [hr, Option.bind_some]
    split at hout
    · rename_i hsince
      split at hout
      · rename_i hqueue
        rw [hout]
        have hswept : r.sweptAt queues nowMs budgetMs = some r :=
          DeliveryRecord.sweptAt_of_settled (by simp [DeliveryRecord.Unsettled, hqueue, hsince])
        exact ⟨hstay _ hr _ hswept, fun h => ⟨h, rfl⟩⟩
      · rename_i hqueue
        rw [hout]
        refine ⟨fun j => ?_, fun h => by simp [SubscriberAbsentSweep.isEmpty] at h⟩
        simp only [insertDelivery, Table.get_insert, DeliveryRecord.sweptAt, hqueue, hsince]
        rfl
    · rename_i since hsince
      split at hout
      · rename_i hqueue
        rw [hout]
        refine ⟨fun j => ?_, fun h => by simp [SubscriberAbsentSweep.isEmpty] at h⟩
        simp only [insertDelivery, Table.get_insert, DeliveryRecord.sweptAt, hqueue]
        rfl
      · rename_i hqueue
        split at hout
        · rename_i helapsed
          rw [hout]
          refine ⟨hstay _ hr _ ?_, fun h => ⟨h, rfl⟩⟩
          rw [Bool.not_eq_true'] at helapsed
          simp [DeliveryRecord.sweptAt, hqueue, hsince, helapsed]
        · rename_i helapsed
          rw [hout]
          refine ⟨fun j => ?_, fun h => by simp [SubscriberAbsentSweep.isEmpty] at h⟩
          rw [Bool.not_eq_true, Bool.not_eq_false'] at helapsed
          simp only [deliveryById_sweepDead, Table.get_erase, DeliveryRecord.sweptAt, hqueue, hsince,
            helapsed]
          rfl

/-- The loop, over candidates that are of different deliveries. -/
theorem sweepRows_spec (env : Env) (queues : Std.ExtTreeSet String) (nowMs budgetMs : UInt64) :
    ∀ (ids : List String) (s : Store) (sweep : SubscriberAbsentSweep), ids.Nodup →
    (∀ j, (sweepRows env queues nowMs budgetMs ids s sweep).1.deliveryById[j]? =
      if j ∈ ids then (s.deliveryById[j]?).bind (·.sweptAt queues nowMs budgetMs)
      else s.deliveryById[j]?) ∧
    ((sweepRows env queues nowMs budgetMs ids s sweep).2.isEmpty = true →
      sweep.isEmpty = true ∧ (sweepRows env queues nowMs budgetMs ids s sweep).1 = s)
  | [], s, sweep, _ => ⟨fun j => by simp [sweepRows], fun h => ⟨h, rfl⟩⟩
  | id :: ids, s, sweep, hnodup => by
    rw [List.nodup_cons] at hnodup
    obtain ⟨hrow, hreport⟩ := sweepRow_spec env queues nowMs budgetMs s sweep id
    rw [sweepRows]
    obtain ⟨hrows, hreports⟩ := sweepRows_spec env queues nowMs budgetMs ids
      (s.sweepRow env queues nowMs budgetMs sweep id).1
      (s.sweepRow env queues nowMs budgetMs sweep id).2 hnodup.2
    refine ⟨fun j => ?_, fun h => ?_⟩
    · rw [hrows j, hrow j]
      by_cases hj : j = id
      · subst hj
        simp [hnodup.1]
      · simp [hj]
    · obtain ⟨hempty, hsame⟩ := hreports h
      obtain ⟨hempty', hsame'⟩ := hreport hempty
      exact ⟨hempty', hsame.trans hsame'⟩

/-- **A sweep treats every row it reaches by itself**, and leaves the other rows alone. -/
theorem sweepSubscriberAbsence_spec (env : Env) (hs : s.Inv) (queues : Std.ExtTreeSet String)
    (nowMs : UInt64) (budget : Duration) {candidates : List String} (hnodup : candidates.Nodup) :
    ∃ s' sweep, s.sweepSubscriberAbsence env queues nowMs budget candidates = .ok (s', sweep) ∧
      ∀ j, s'.deliveryById[j]? =
        if j ∈ candidates then
          (s.deliveryById[j]?).bind (·.sweptAt queues nowMs (durationMillis budget))
        else s.deliveryById[j]? := by
  obtain ⟨hrows, hreport⟩ := sweepRows_spec env queues nowMs (durationMillis budget) candidates s
    .empty hnodup
  cases hrun : sweepRows env queues nowMs (durationMillis budget) candidates s .empty with
  | mk s1 sweep =>
    rw [hrun] at hrows hreport
    obtain ⟨evs, heff, _⟩ := sweepRows_effect candidates hs hrun
    obtain ⟨s2, m, hcompact, _, hlive⟩ := compactTerminalDeadRecords_effect env
      (.sweep queues nowMs budget candidates) heff.inv rfl
    simp only [sweepSubscriberAbsence, hrun, hcompact, bind, Except.bind, pure, Except.pure]
    by_cases hempty : sweep.isEmpty = true
    · rw [if_pos hempty]
      refine ⟨s, sweep, rfl, fun j => ?_⟩
      rw [← hrows j, (hreport hempty).2]
    · rw [if_neg hempty]
      refine ⟨s2, sweep, rfl, fun j => ?_⟩
      rw [hlive]
      exact hrows j

/-! ## The rows a sweep reaches -/

theorem collectSubscriberAbsenceCandidates_nodup (s : Store) (queues : Std.ExtTreeSet String)
    (batchLimit : ℕ) : (s.collectSubscriberAbsenceCandidates queues batchLimit).Nodup :=
  (Table.keys_nodup s.deliveryById).sublist
    (((List.take_sublist _ _).trans List.filter_sublist).map Prod.fst)

/-- The rows that a sweep would come to before that of an id. -/
def absenceCandidatesBefore (s : Store) (queues : Std.ExtTreeSet String) (id : String) :
    List (String × DeliveryRecord) :=
  s.deliveryById.toList.filter fun (id', record) =>
    decide (record.Unsettled queues) && compare id' id == .lt

/-- A row that a sweep looks at is reached if there are not too many before it. -/
theorem mem_candidates_of_before {queues : Std.ExtTreeSet String} {batchLimit : ℕ}
    {r : DeliveryRecord} (hr : s.deliveryById[id]? = some r) (hunsettled : r.Unsettled queues)
    (hbefore : (s.absenceCandidatesBefore queues id).length < batchLimit) :
    id ∈ s.collectSubscriberAbsenceCandidates queues batchLimit := by
  have hfilter : ∀ p : String × DeliveryRecord,
      (!(queues.contains p.2.queue && p.2.subscriberAbsentSinceMs.isNone)) =
        decide (p.2.Unsettled queues) := by
    intro p
    cases hq : queues.contains p.2.queue <;> cases ha : p.2.subscriberAbsentSinceMs <;>
      simp [DeliveryRecord.Unsettled, hq, ha]
  have hcandidates : s.collectSubscriberAbsenceCandidates queues batchLimit =
      ((s.deliveryById.toList.filter fun p => decide (p.2.Unsettled queues)).take batchLimit).map
        Prod.fst := by
    rw [collectSubscriberAbsenceCandidates]
    congr 2
    exact List.filter_congr fun p _ => hfilter p
  have hmem : (id, r) ∈ s.deliveryById.toList.filter fun p => decide (p.2.Unsettled queues) :=
    List.mem_filter.2 ⟨Std.ExtTreeMap.mem_toList_iff_getElem?_eq_some.2 hr, by simpa using hunsettled⟩
  have hordered : (s.deliveryById.toList.filter fun p => decide (p.2.Unsettled queues)).Pairwise
      fun p q => (compare p.1 q.1 == .lt) = true := by
    refine (s.deliveryById.ordered_keys_toList.sublist List.filter_sublist).imp ?_
    intro p q hlt
    exact beq_iff_eq.2 hlt
  rw [hcandidates, List.mem_map]
  refine ⟨(id, r), Table.mem_take_of_few_before hordered hmem ?_, rfl⟩
  rw [List.filter_filter]
  simpa [absenceCandidatesBefore, Bool.and_comm] using hbefore

/-- **A sweep with room for all rows reaches every one it looks at.** -/
theorem get_perform_sweep (env : Env) (hs : s.Inv) (queues : Std.ExtTreeSet String) (nowMs : UInt64)
    (budget : Duration) {batchLimit : ℕ} (hbatch : s.deliveryById.size ≤ batchLimit) (id : String) :
    (s.perform env (.sweep queues nowMs budget batchLimit)).deliveryById[id]? =
      (s.deliveryById[id]?).bind (·.sweptAt queues nowMs (durationMillis budget)) := by
  have hreached : ∀ r, s.deliveryById[id]? = some r → r.Unsettled queues →
      id ∈ s.collectSubscriberAbsenceCandidates queues batchLimit := by
    intro r hr hunsettled
    refine mem_candidates_of_before hr hunsettled ?_
    have hlt : (s.absenceCandidatesBefore queues id).length < s.deliveryById.toList.length :=
      List.length_filter_lt_length_iff_exists.2
        ⟨(id, r), Std.ExtTreeMap.mem_toList_iff_getElem?_eq_some.2 hr, by simp⟩
    rw [Std.ExtTreeMap.length_toList] at hlt
    omega
  have hsettled : ∀ r, s.deliveryById[id]? = some r →
      id ∉ s.collectSubscriberAbsenceCandidates queues batchLimit →
      r.sweptAt queues nowMs (durationMillis budget) = some r := fun r hr hnot =>
    DeliveryRecord.sweptAt_of_settled fun hunsettled => hnot (hreached r hr hunsettled)
  have hstay : id ∉ s.collectSubscriberAbsenceCandidates queues batchLimit → s.deliveryById[id]? =
      (s.deliveryById[id]?).bind (·.sweptAt queues nowMs (durationMillis budget)) := by
    intro hnot
    cases hr : s.deliveryById[id]? with
    | none => rfl
    | some r => exact (hsettled r hr hnot).symm
  by_cases hzero : batchLimit = 0
  · have hplan : s.plan (.sweep queues nowMs budget batchLimit) = .ok none := by
      simp [plan, hzero]
    rw [perform, hplan]
    refine hstay ?_
    simp [collectSubscriberAbsenceCandidates, hzero]
  · by_cases hempty : s.collectSubscriberAbsenceCandidates queues batchLimit = []
    · have hplan : s.plan (.sweep queues nowMs budget batchLimit) = .ok none := by
        simp [plan, hzero, hempty]
      rw [perform, hplan]
      refine hstay ?_
      simp [hempty]
    · have hplan : s.plan (.sweep queues nowMs budget batchLimit) = .ok (some (.sweep queues nowMs
          budget (s.collectSubscriberAbsenceCandidates queues batchLimit))) := by
        simp [plan, hzero, hempty]
      obtain ⟨s', sweep, hrun, hrows⟩ := sweepSubscriberAbsence_spec env hs queues nowMs budget
        (collectSubscriberAbsenceCandidates_nodup s queues batchLimit)
      have hcommit : s.commit env (.sweep queues nowMs budget
          (s.collectSubscriberAbsenceCandidates queues batchLimit)) = .ok (s', .sweep sweep) := by
        simp only [commit, hrun]
        rfl
      simp only [perform, hplan, hcommit]
      rw [hrows id]
      split
      · rfl
      · exact hstay (by assumption)

theorem dead_perform_sweep (hs : s.Inv) {queues : Std.ExtTreeSet String} {nowMs : UInt64}
    {budget : Duration} {batchLimit : ℕ} (hlive : s.deliveryById[id]? ≠ none)
    (hgone : (s.perform env (.sweep queues nowMs budget batchLimit)).deliveryById[id]? = none) :
    ∃ d, (s.perform env (.sweep queues nowMs budget batchLimit)).deadById[id]? = some d ∧
      d.errorExcerpt = some subscriberAbsentDeadReason := by
  have hplanned : ∀ t, s.plan (.sweep queues nowMs budget batchLimit) = .ok (some t) →
      ∃ candidates, t = .sweep queues nowMs budget candidates := by
    intro t hplan
    unfold plan at hplan
    dsimp only at hplan
    split at hplan
    · cases hplan
    · split at hplan
      · cases hplan
      · exact ⟨_, (Option.some.inj (Except.ok.inj hplan)).symm⟩
  cases hplan : s.plan (.sweep queues nowMs budget batchLimit) with
  | error cause =>
    simp only [perform, hplan] at hgone
    exact absurd hgone hlive
  | ok o =>
    cases o with
    | none =>
      simp only [perform, hplan] at hgone
      exact absurd hgone hlive
    | some t =>
      obtain ⟨candidates, rfl⟩ := hplanned t hplan
      cases hcommit : s.commit env (.sweep queues nowMs budget candidates) with
      | error cause =>
        simp only [perform, hplan, hcommit] at hgone
        exact absurd hgone hlive
      | ok out =>
        simp only [perform, hplan, hcommit] at hgone ⊢
        have hplanned : Txn.Planned (.sweep queues nowMs budget candidates) := trivial
        exact ((commit_effect hs hplanned hcommit).moves id).dead_of_swept hlive hgone

end Store

end Fkst.Delivery
