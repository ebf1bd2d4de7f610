import Mathlib.Data.List.Induction
import Mathlib.Data.List.Pairwise
import Fkst.Delivery.Sweeping

/-!
# The clock of an absent subscriber

A sweep that finds the queue of a row without a subscriber sets the clock of the row, a later one
that finds a subscriber again clears it, and a row whose clock has run for the budget is
dead-lettered.  The row should then have been without a subscriber all along.

A sweep clears the clocks of the rows it reaches, and it reaches no more than `batch_limit` rows.
Rows that wait for their budget are looked at again by every sweep, and those that come first in the
order of ids keep the others from being reached: a clock can go on running while its queue is served.
`absence_continuous` is what holds when every sweep gets as far as the rows whose subscriber has
returned.
-/

set_option autoImplicit false

namespace Fkst.Delivery

open Lib

/-! ## Clocks -/

/-- The queues that a sweep takes for served. -/
def Txn.sweptQueues : Txn → Option (Std.ExtTreeSet String)
  | .sweep queues _ _ _ => some queues
  | _ => none

section Moves

variable {env : Env} {id : String} {t : Txn} {v v' : View}

/-- Only a sweep sets a clock. -/
theorem Move.marked {o : Option Event} (h : Move env id t o v v') (ht : t.sweptQueues = none)
    {r' : DeliveryRecord} {since : UInt64} (hr' : v'.live = some r')
    (hsince : r'.subscriberAbsentSinceMs = some since) :
    ∃ r, v.live = some r ∧ r.subscriberAbsentSinceMs = some since ∧ r.queue = r'.queue := by
  have hfollowUp : ∀ {r f : DeliveryRecord} {n : UInt64}, prepareDirtyFollowUp r n = some f →
      f.subscriberAbsentSinceMs = none := by
    intro r f n h
    rw [prepareDirtyFollowUp] at h
    split at h
    · cases h
    · obtain rfl := Option.some.inj h
      rfl
  cases h with
  | insert record hid hlive hsuppressed =>
    obtain rfl := Option.some.inj hr'
    rw [record.2.2.2.2.1] at hsince
    cases hsince
  | mark record hlive hlease hkeyed =>
    obtain rfl := Option.some.inj hr'
    exact ⟨_, hlive, hsince, rfl⟩
  | reset record hlive hlease =>
    obtain rfl := Option.some.inj hr'
    exact ⟨_, hlive, hsince, rfl⟩
  | rebind m newDept hlive =>
    obtain rfl := Option.some.inj hr'
    exact ⟨_, hlive, hsince, rfl⟩
  | absence => cases ht
  | sweep => cases ht
  | renew renewals leaseUntilMs hlive hlease =>
    obtain rfl := Option.some.inj hr'
    exact ⟨_, hlive, hsince, rfl⟩
  | grant nowMs batchLimit leaseDur dept excluded expired ready hlive =>
    obtain rfl := Option.some.inj hr'
    exact ⟨_, hlive, hsince, rfl⟩
  | grantNext nowMs leaseDur hlive =>
    obtain rfl := Option.some.inj hr'
    exact ⟨_, hlive, hsince, rfl⟩
  | ack => cases hr'
  | ackFollowUp hlive hlease hdirty =>
    obtain rfl := Option.some.inj hr'
    rw [hfollowUp hdirty] at hsince
    cases hsince
  | defer lock policy nowMs hlive =>
    obtain rfl := Option.some.inj hr'
    exact ⟨_, hlive, hsince, rfl⟩
  | retry failure policy nowMs due hlive =>
    obtain rfl := Option.some.inj hr'
    exact ⟨_, hlive, hsince, rfl⟩
  | deadLetter => cases hr'
  | terminate => cases hr'
  | terminateFollowUp failure policy nowMs hlive hlease hused hreplayable hdirty =>
    obtain rfl := Option.some.inj hr'
    rw [hfollowUp hdirty] at hsince
    cases hsince
  | redrive =>
    obtain rfl := Option.some.inj hr'
    cases hsince
  | kill => exact ⟨_, hr', hsince, rfl⟩
  | killFollowUp policy m nowMs keys hlive hdead hreplayable hrecord hdept hcool hused hdirty =>
    obtain rfl := Option.some.inj hr'
    rw [hfollowUp hdirty] at hsince
    cases hsince
  | compact => exact ⟨_, hr', hsince, rfl⟩

theorem Moves.marked {l : List Event} (h : Moves env id t l v v') (ht : t.sweptQueues = none)
    {r' : DeliveryRecord} {since : UInt64} (hr' : v'.live = some r')
    (hsince : r'.subscriberAbsentSinceMs = some since) :
    ∃ r, v.live = some r ∧ r.subscriberAbsentSinceMs = some since ∧ r.queue = r'.queue := by
  refine h.preserves (P := fun _ w => ∀ r', w.live = some r' →
    r'.subscriberAbsentSinceMs = some since →
      ∃ r, v.live = some r ∧ r.subscriberAbsentSinceMs = some since ∧ r.queue = r'.queue) ?_
    (fun r hr hs => ⟨r, hr, hs, rfl⟩) r' hr' hsince
  intro l o w w' hw hm r' hr' hs'
  obtain ⟨r, hr, hs, hqueue⟩ := hm.marked ht hr' hs'
  obtain ⟨r₀, hr₀, hs₀, hqueue₀⟩ := hw r hr hs
  exact ⟨r₀, hr₀, hs₀, hqueue₀.trans hqueue⟩

/-- A delivery that a sweep dead-letters had a row, and has none afterwards. -/
theorem Moves.live_of_swept {l : List Event} {queues : Std.ExtTreeSet String} {nowMs : UInt64}
    {budget : Duration} {candidates : List String}
    (h : Moves env id (.sweep queues nowMs budget candidates) l v v') (hswept : .swept ∈ l) :
    v.live ≠ none ∧ v'.live = none := by
  refine (h.preserves (P := fun l w => (w.live ≠ none → v.live ≠ none) ∧
    (.swept ∈ l → v.live ≠ none ∧ w.live = none)) ?_ ⟨fun h => h, by simp⟩).2 hswept
  rintro l o w w' ⟨hrow, hgone⟩ hm
  cases hm with
  | absence queues nowMs budget candidates since hlive =>
    have hsome : w.live ≠ none := by simp [hlive]
    exact ⟨fun _ => hrow hsome, fun hs => absurd (hgone (by simpa using hs)).2 hsome⟩
  | sweep queues nowMs budget candidates hlive =>
    have hsome : w.live ≠ none := by simp [hlive]
    exact ⟨fun _ => hrow hsome, fun _ => ⟨hrow hsome, rfl⟩⟩
  | compact => exact ⟨hrow, fun hs => hgone (by simpa using hs)⟩

end Moves

/-! ## Runs -/

/-- What a run does before one more act, and with it. -/
theorem World.run_concat (env : Env) (acts : List Act) (a : Act) :
    (init.run env (acts ++ [a])).1 = ((init.run env acts).1.step env a).1 := by
  rw [run, Machine.run_append]
  rfl

/-- The transaction that an act commits after a run. -/
def World.Commits (env : Env) (acts : List Act) (i : ℕ) (e : Entry) : Prop :=
  ((init.run env acts).1.step env (.finish i)).2 = some e

/-- A sweep that set the clock of a row. -/
def Entry.Marks (e : Entry) (id : String) (since : UInt64) : Prop :=
  ∃ queues budget candidates r, e.txn = .sweep queues since budget candidates ∧
    queues.contains r.queue = false ∧ e.before.deliveryById[id]? = some r ∧
    r.subscriberAbsentSinceMs = none ∧
    e.after.deliveryById[id]? = some { r with subscriberAbsentSinceMs := some since }

/-- What is asked of a sweep when it starts: that the sweep before it is through, that the clock is
not at its end, and that fewer than `batch_limit` rows come before any row whose clock runs although
its queue is served. -/
def Act.ReachesReturned (w : World) : Act → Prop
  | .start (.sweep queues nowMs _ batchLimit) =>
    (∀ t ∈ w.pending, t.sweptQueues = none) ∧ 1 ≤ batchLimit ∧ nowMs < u64Max ∧
      ∀ id r, w.store.deliveryById[id]? = some r → r.subscriberAbsentSinceMs ≠ none →
        queues.contains r.queue = true →
        (w.store.absenceCandidatesBefore queues id).length < batchLimit
  | _ => True

/-- The sweeps of a run and the clocks it has left. -/
structure Clocked (env : Env) (acts : List Act) (w : World) : Prop where
  inv : w.Inv
  /-- One sweep at a time. -/
  sole : w.pending.Pairwise fun t t' => t.sweptQueues = none ∨ t'.sweptQueues = none
  /-- A sweep that has read its candidates will come to every clock it has to clear. -/
  reaches : ∀ queues nowMs budget candidates, .sweep queues nowMs budget candidates ∈ w.pending →
    candidates.Nodup ∧ nowMs < u64Max ∧ ∀ id r, w.store.deliveryById[id]? = some r →
      r.subscriberAbsentSinceMs ≠ none → queues.contains r.queue = true → id ∈ candidates
  /-- No sweep since the one that set a clock found the queue served, unless it is under way. -/
  clocks : ∀ id r since, w.store.deliveryById[id]? = some r →
    r.subscriberAbsentSinceMs = some since → ∃ as₁ i as₂ m, acts = as₁ ++ .finish i :: as₂ ∧
      World.Commits env as₁ i m ∧ m.Marks id since ∧
      ∀ queues nowMs budget batchLimit, .start (.sweep queues nowMs budget batchLimit) ∈ as₂ →
        queues.contains r.queue = false ∨
          ∃ t ∈ w.pending, ∃ served, t.sweptQueues = some served ∧ served.contains r.queue = true

/-- Only a sweep is planned as a sweep. -/
theorem Store.plan_sweptQueues {s : Store} {call : Call} {t : Txn}
    (hcall : ∀ queues nowMs budget batchLimit, call ≠ .sweep queues nowMs budget batchLimit)
    (h : s.plan call = .ok (some t)) : t.sweptQueues = none := by
  unfold plan at h
  split at h
  case h_3 => exact absurd rfl (hcall _ _ _ _)
  case h_4 =>
    split at h
    · cases h
    · obtain rfl := Option.some.inj (Except.ok.inj h)
      rfl
  case h_5 nowMs batchLimit leaseDur dept excluded =>
    split at h
    · cases h
    · cases hc : s.collectLeaseableKeys nowMs batchLimit dept excluded with
      | error e => rw [hc] at h; cases h
      | ok p =>
        simp only [hc, bind, Except.bind] at h
        split at h
        · cases h
        · obtain rfl := Option.some.inj (Except.ok.inj h)
          rfl
  case h_6 nowMs leaseDur =>
    cases hn : s.nextDue nowMs with
    | error e => rw [hn] at h; cases h
    | ok next =>
      simp only [hn, bind, Except.bind] at h
      cases next with
      | none => cases h
      | some next =>
        obtain rfl := Option.some.inj (Except.ok.inj h)
        rfl
  case h_10 policy m nowMs batchLimit =>
    split at h
    · cases h
    · cases hc : s.collectDueDeadKeys policy m nowMs batchLimit with
      | error e => rw [hc] at h; cases h
      | ok keys =>
        simp only [hc, bind, Except.bind] at h
        split at h
        · cases h
        · obtain rfl := Option.some.inj (Except.ok.inj h)
          rfl
  all_goals
    obtain rfl := Option.some.inj (Except.ok.inj h)
    rfl

namespace Clocked

variable {env : Env} {acts : List Act} {w : World}

theorem init (env : Env) : Clocked env [] .init where
  inv := World.inv_init
  sole := List.Pairwise.nil
  reaches := by simp [World.init]
  clocks := by simp [World.init, Store.empty]

/-- An act that leaves the live rows as they are, and may put a transaction under way that is no
sweep. -/
theorem idle (h : Clocked env acts w) {a : Act} (ts : List Txn)
    (ha : ∀ queues nowMs budget batchLimit, a ≠ .start (.sweep queues nowMs budget batchLimit))
    (hts : ∀ t ∈ ts, t.sweptQueues = none) (hw : World.Inv ⟨w.store, w.pending ++ ts⟩) :
    Clocked env (acts ++ [a]) ⟨w.store, w.pending ++ ts⟩ where
  inv := hw
  sole := by
    rw [List.pairwise_append]
    exact ⟨h.sole, List.pairwise_of_forall_mem_list fun t ht _ _ => Or.inl (hts t ht),
      fun _ _ t ht => Or.inr (hts t ht)⟩
  reaches := by
    intro queues nowMs budget candidates ht
    rcases List.mem_append.1 ht with ht | ht
    · exact h.reaches queues nowMs budget candidates ht
    · cases hts _ ht
  clocks := by
    intro id r since hr hsince
    obtain ⟨as₁, i, as₂, m, rfl, hm, hmarks, hsweeps⟩ := h.clocks id r since hr hsince
    refine ⟨as₁, i, as₂ ++ [a], m, by simp, hm, hmarks, fun queues nowMs budget batchLimit hmem => ?_⟩
    rcases List.mem_append.1 hmem with hmem | hmem
    · rcases hsweeps queues nowMs budget batchLimit hmem with hq | ⟨t, ht, served, hserved⟩
      · exact Or.inl hq
      · exact Or.inr ⟨t, List.mem_append_left _ ht, served, hserved⟩
    · exact absurd (List.mem_singleton.1 hmem).symm (ha queues nowMs budget batchLimit)

/-- A sweep reads its candidates. -/
theorem startSweep (h : Clocked env acts w) {queues : Std.ExtTreeSet String} {nowMs : UInt64}
    {budget : Duration} {batchLimit : ℕ}
    (hreach : Act.ReachesReturned w (.start (.sweep queues nowMs budget batchLimit))) :
    Clocked env (acts ++ [.start (.sweep queues nowMs budget batchLimit)])
      (w.step env (.start (.sweep queues nowMs budget batchLimit))).1 := by
  obtain ⟨hpending, hlimit, hnow, hbefore⟩ := hreach
  have hinv := (World.step_cases env h.inv (.start (.sweep queues nowMs budget batchLimit))).1
  have hcandidate : ∀ id r, w.store.deliveryById[id]? = some r → r.subscriberAbsentSinceMs ≠ none →
      queues.contains r.queue = true →
      id ∈ w.store.collectSubscriberAbsenceCandidates queues batchLimit := fun id r hr hsince hq =>
    Store.mem_candidates_of_before hr (Or.inr hsince) (hbefore id r hr hsince hq)
  -- what the sweeps so far have to do with a clock; none of them is under way
  have hclocks : ∀ id r since, w.store.deliveryById[id]? = some r →
      r.subscriberAbsentSinceMs = some since → ∃ as₁ i as₂ m, acts = as₁ ++ .finish i :: as₂ ∧
        World.Commits env as₁ i m ∧ m.Marks id since ∧
        ∀ queues nowMs budget batchLimit, .start (.sweep queues nowMs budget batchLimit) ∈ as₂ →
          queues.contains r.queue = false := by
    intro id r since hr hsince
    obtain ⟨as₁, i, as₂, m, hacts, hm, hmarks, hsweeps⟩ := h.clocks id r since hr hsince
    refine ⟨as₁, i, as₂, m, hacts, hm, hmarks, fun queues nowMs budget batchLimit hmem => ?_⟩
    rcases hsweeps queues nowMs budget batchLimit hmem with hq | ⟨t, ht, served, hserved, _⟩
    · exact hq
    · rw [hpending t ht] at hserved
      cases hserved
  have hzero : ¬ batchLimit = 0 := by omega
  by_cases hempty :
      (w.store.collectSubscriberAbsenceCandidates queues batchLimit).isEmpty = true
  · have hstep : (w.step env (.start (.sweep queues nowMs budget batchLimit))).1 = w := by
      simp [World.step, Store.plan, hzero, hempty]
    rw [hstep]
    refine ⟨h.inv, h.sole, h.reaches, fun id r since hr hsince => ?_⟩
    obtain ⟨as₁, i, as₂, m, rfl, hm, hmarks, hsweeps⟩ := hclocks id r since hr hsince
    refine ⟨as₁, i, as₂ ++ [.start (.sweep queues nowMs budget batchLimit)], m, by simp, hm, hmarks,
      fun queues' nowMs' budget' limit' hmem => Or.inl ?_⟩
    rcases List.mem_append.1 hmem with hmem | hmem
    · exact hsweeps queues' nowMs' budget' limit' hmem
    · obtain ⟨rfl, rfl, rfl, rfl⟩ : queues' = queues ∧ nowMs' = nowMs ∧ budget' = budget ∧
          limit' = batchLimit := by simpa using hmem
      by_contra hq
      have hmem := hcandidate id r hr (by simp [hsince]) (by simpa using hq)
      rw [List.isEmpty_iff.1 hempty] at hmem
      cases hmem
  · have hstep : (w.step env (.start (.sweep queues nowMs budget batchLimit))).1 =
        ⟨w.store, w.pending ++ [.sweep queues nowMs budget
          (w.store.collectSubscriberAbsenceCandidates queues batchLimit)]⟩ := by
      simp [World.step, Store.plan, hzero, hempty]
    rw [hstep] at hinv ⊢
    refine ⟨hinv, ?_, ?_, fun id r since hr hsince => ?_⟩
    · rw [List.pairwise_append]
      exact ⟨h.sole, List.pairwise_singleton _ _, fun t ht _ _ => Or.inl (hpending t ht)⟩
    · intro queues' nowMs' budget' candidates' ht
      rcases List.mem_append.1 ht with ht | ht
      · cases hpending _ ht
      · obtain ⟨rfl, rfl, rfl, rfl⟩ : queues' = queues ∧ nowMs' = nowMs ∧ budget' = budget ∧
            candidates' = w.store.collectSubscriberAbsenceCandidates queues batchLimit := by
          simpa using ht
        exact ⟨Store.collectSubscriberAbsenceCandidates_nodup _ _ _, hnow, hcandidate⟩
    · obtain ⟨as₁, i, as₂, m, rfl, hm, hmarks, hsweeps⟩ := hclocks id r since hr hsince
      refine ⟨as₁, i, as₂ ++ [.start (.sweep queues nowMs budget batchLimit)], m, by simp, hm, hmarks,
        fun queues' nowMs' budget' limit' hmem => ?_⟩
      rcases List.mem_append.1 hmem with hmem | hmem
      · exact Or.inl (hsweeps queues' nowMs' budget' limit' hmem)
      · obtain ⟨rfl, rfl, rfl, rfl⟩ : queues' = queues ∧ nowMs' = nowMs ∧ budget' = budget ∧
            limit' = batchLimit := by simpa using hmem
        cases hq : queues'.contains r.queue with
        | false => exact Or.inl rfl
        | true =>
          exact Or.inr ⟨_, List.mem_append_right _ (List.mem_singleton_self _), _, rfl, hq⟩

/-- A transaction that is no sweep leaves, whether it was committed or failed. -/
theorem leave (h : Clocked env acts w) {i : ℕ} {t : Txn} (ht : w.pending[i]? = some t)
    (hother : t.sweptQueues = none) {s : Store} (hw : World.Inv ⟨s, w.pending.eraseIdx i⟩)
    (hmarked : ∀ (id : String) (r' : DeliveryRecord) (since : UInt64),
      s.deliveryById[id]? = some r' → r'.subscriberAbsentSinceMs = some since →
      ∃ r, w.store.deliveryById[id]? = some r ∧ r.subscriberAbsentSinceMs = some since ∧
        r.queue = r'.queue) :
    Clocked env (acts ++ [.finish i]) ⟨s, w.pending.eraseIdx i⟩ where
  inv := hw
  sole := h.sole.sublist (List.eraseIdx_sublist _ _)
  reaches := by
    intro queues nowMs budget candidates hmem
    obtain ⟨hnodup, hnow, hreach⟩ := h.reaches queues nowMs budget candidates
      (List.mem_of_mem_eraseIdx hmem)
    refine ⟨hnodup, hnow, fun id r' hr' hsince hq => ?_⟩
    obtain ⟨since, hsince⟩ := Option.ne_none_iff_exists'.1 hsince
    obtain ⟨r, hr, hs, hqueue⟩ := hmarked id r' since hr' hsince
    exact hreach id r hr (by simp [hs]) (hqueue ▸ hq)
  clocks := by
    intro id r' since hr' hsince
    obtain ⟨r, hr, hs, hqueue⟩ := hmarked id r' since hr' hsince
    obtain ⟨as₁, j, as₂, m, rfl, hm, hmarks, hsweeps⟩ := h.clocks id r since hr hs
    refine ⟨as₁, j, as₂ ++ [.finish i], m, by simp, hm, hmarks, fun queues nowMs budget limit hmem => ?_⟩
    have hmem : .start (.sweep queues nowMs budget limit) ∈ as₂ := by simpa using hmem
    rw [← hqueue]
    rcases hsweeps queues nowMs budget limit hmem with hq | ⟨t', ht', served, hserved, hq⟩
    · exact Or.inl hq
    · refine Or.inr ⟨t', List.mem_eraseIdx_iff_getElem?.2 ?_, served, hserved, hq⟩
      obtain ⟨k, hk⟩ := List.mem_iff_getElem?.1 ht'
      refine ⟨k, fun hki => ?_, hk⟩
      subst hki
      rw [Option.some.inj (hk.symm.trans ht), hother] at hserved
      cases hserved

/-- The sweep that is under way is the only one. -/
theorem served_eq (h : Clocked env acts w) {queues served : Std.ExtTreeSet String} {nowMs : UInt64}
    {budget : Duration} {candidates : List String}
    (ht : .sweep queues nowMs budget candidates ∈ w.pending) {t : Txn} (ht' : t ∈ w.pending)
    (hserved : t.sweptQueues = some served) : served = queues := by
  by_cases heq : t = .sweep queues nowMs budget candidates
  · subst heq
    exact (Option.some.inj hserved).symm
  · have : Std.Symm fun t t' : Txn => t.sweptQueues = none ∨ t'.sweptQueues = none :=
      ⟨fun _ _ => Or.symm⟩
    rcases h.sole.forall ht' ht heq with hnone | hnone
    · rw [hserved] at hnone
      cases hnone
    · cases hnone

/-- What a sweep that is under way does to the rows. -/
theorem sweep_spec (h : Clocked env acts w) {queues : Std.ExtTreeSet String} {nowMs : UInt64}
    {budget : Duration} {candidates : List String}
    (ht : .sweep queues nowMs budget candidates ∈ w.pending) :
    ∃ s reply, w.store.commit env (.sweep queues nowMs budget candidates) = .ok (s, reply) ∧
      ∀ id, s.deliveryById[id]? =
        if id ∈ candidates then
          (w.store.deliveryById[id]?).bind (·.sweptAt queues nowMs (durationMillis budget))
        else w.store.deliveryById[id]? := by
  obtain ⟨s, sweep, hrun, hrows⟩ := Store.sweepSubscriberAbsence_spec env h.inv.store queues nowMs
    budget (h.reaches queues nowMs budget candidates ht).1
  exact ⟨s, .sweep sweep, by simp only [Store.commit, hrun]; rfl, hrows⟩

/-- A sweep is committed. -/
theorem finishSweep (h : Clocked env acts w) (hworld : w = (World.init.run env acts).1) {i : ℕ}
    {queues : Std.ExtTreeSet String} {nowMs : UInt64} {budget : Duration} {candidates : List String}
    (ht : w.pending[i]? = some (.sweep queues nowMs budget candidates)) :
    Clocked env (acts ++ [.finish i]) (w.step env (.finish i)).1 := by
  have hmem := List.mem_of_getElem? ht
  have hinv := (World.step_cases env h.inv (.finish i)).1
  obtain ⟨s, reply, hcommit, hrows⟩ := h.sweep_spec hmem
  have hstep : w.step env (.finish i) = (⟨s, w.pending.eraseIdx i⟩,
      some ⟨w.store, .sweep queues nowMs budget candidates, reply, s⟩) := by
    simp [World.step, ht, hcommit]
  -- no other sweep is under way
  have halone : ∀ t ∈ w.pending.eraseIdx i, t.sweptQueues = none := by
    intro t' ht'
    obtain ⟨j, hji, hj⟩ := List.mem_eraseIdx_iff_getElem?.1 ht'
    have hsole := List.pairwise_iff_getElem.1 h.sole
    obtain ⟨hi, hti⟩ := List.getElem?_eq_some_iff.1 ht
    obtain ⟨hj, htj⟩ := List.getElem?_eq_some_iff.1 hj
    rcases Nat.lt_or_gt_of_ne hji with hlt | hlt
    · rcases hsole j i hj hi hlt with hnone | hnone
      · exact htj ▸ hnone
      · rw [hti] at hnone
        cases hnone
    · rcases hsole i j hi hj hlt with hnone | hnone
      · rw [hti] at hnone
        cases hnone
      · exact htj ▸ hnone
  rw [hstep] at hinv ⊢
  refine ⟨hinv, h.sole.sublist (List.eraseIdx_sublist _ _), fun queues' _ _ _ hmem' => ?_,
    fun id r' since hr' hsince => ?_⟩
  · cases halone _ hmem'
  · dsimp only at hr'
    have hreach := (h.reaches queues nowMs budget candidates hmem).2.2
    -- a clock that this sweep leaves running
    have hkept : w.store.deliveryById[id]? = some r' → queues.contains r'.queue = false →
        ∃ as₁ j as₂ m, acts ++ [.finish i] = as₁ ++ .finish j :: as₂ ∧
          World.Commits env as₁ j m ∧ m.Marks id since ∧
          ∀ queues nowMs budget batchLimit, .start (.sweep queues nowMs budget batchLimit) ∈ as₂ →
            queues.contains r'.queue = false ∨ ∃ t ∈ w.pending.eraseIdx i, ∃ served,
              t.sweptQueues = some served ∧ served.contains r'.queue = true := by
      intro hr hq
      obtain ⟨as₁, j, as₂, m, rfl, hm, hmarks, hsweeps⟩ := h.clocks id r' since hr hsince
      refine ⟨as₁, j, as₂ ++ [.finish i], m, by simp, hm, hmarks,
        fun queues' nowMs' budget' limit' hmem' => Or.inl ?_⟩
      have hmem' : .start (.sweep queues' nowMs' budget' limit') ∈ as₂ := by simpa using hmem'
      rcases hsweeps queues' nowMs' budget' limit' hmem' with hq' | ⟨t, ht', served, hserved, hq'⟩
      · exact hq'
      · rw [h.served_eq hmem ht' hserved, hq] at hq'
        cases hq'
    by_cases hc : id ∈ candidates
    · have hnew := hr'
      rw [hrows id, if_pos hc] at hnew
      obtain ⟨r, hr, hswept⟩ := Option.bind_eq_some_iff.1 hnew
      rw [DeliveryRecord.sweptAt] at hswept
      split at hswept
      · obtain rfl := Option.some.inj hswept
        cases hsince
      · rename_i hq
        rw [Bool.not_eq_true] at hq
        split at hswept
        · rename_i hnone
          obtain rfl := Option.some.inj hswept
          obtain rfl := Option.some.inj hsince
          exact ⟨acts, i, [], _, rfl, by rw [World.Commits, ← hworld, hstep],
            ⟨queues, budget, candidates, r, rfl, hq, hr, hnone, hr'⟩, by simp⟩
        · split at hswept
          · cases hswept
          · obtain rfl := Option.some.inj hswept
            exact hkept hr hq
    · rw [hrows id, if_neg hc] at hr'
      refine hkept hr' ?_
      by_contra hq
      exact hc (hreach id r' hr' (by simp [hsince]) (by simpa using hq))

/-- **One more act.** -/
theorem step (h : Clocked env acts w) (hworld : w = (World.init.run env acts).1) {a : Act}
    (ha : a.ReachesReturned w) : Clocked env (acts ++ [a]) (w.step env a).1 := by
  have hinv := (World.step_cases env h.inv a).1
  cases a with
  | start call =>
    by_cases hsweep : ∃ queues nowMs budget batchLimit, call = .sweep queues nowMs budget batchLimit
    · obtain ⟨queues, nowMs, budget, batchLimit, rfl⟩ := hsweep
      exact h.startSweep ha
    · have hcall : ∀ queues nowMs budget batchLimit, call ≠ .sweep queues nowMs budget batchLimit :=
        fun queues nowMs budget batchLimit heq => hsweep ⟨_, _, _, _, heq⟩
      have hstart : ∀ queues nowMs budget batchLimit,
          Act.start call ≠ .start (.sweep queues nowMs budget batchLimit) :=
        fun queues nowMs budget batchLimit heq => hcall _ _ _ _ (Act.start.inj heq)
      rw [World.step] at hinv ⊢
      split
      · rename_i t hplan
        rw [hplan] at hinv
        refine h.idle [t] hstart (fun t' ht' => ?_) hinv
        rw [List.mem_singleton.1 ht']
        exact Store.plan_sweptQueues hcall hplan
      · simpa using h.idle [] hstart (by simp) (by simpa using h.inv)
  | finish i =>
    cases ht : w.pending[i]? with
    | none =>
      have hstep : (w.step env (.finish i)).1 = w := by simp [World.step, ht]
      rw [hstep]
      simpa using h.idle [] (a := .finish i) (by simp) (by simp) (by simpa using h.inv)
    | some t =>
      by_cases hsweep : ∃ queues nowMs budget candidates, t = .sweep queues nowMs budget candidates
      · obtain ⟨queues, nowMs, budget, candidates, rfl⟩ := hsweep
        exact h.finishSweep hworld ht
      · have hother : t.sweptQueues = none := by
          cases t with
          | sweep queues nowMs budget candidates => exact absurd ⟨_, _, _, _, rfl⟩ hsweep
          | _ => rfl
        cases hcommit : w.store.commit env t with
        | error cause =>
          have hstep : (w.step env (.finish i)).1 = ⟨w.store, w.pending.eraseIdx i⟩ := by
            simp [World.step, ht, hcommit]
          rw [hstep] at hinv ⊢
          exact h.leave ht hother hinv fun id r since hr hs => ⟨r, hr, hs, rfl⟩
        | ok out =>
          obtain ⟨s, reply⟩ := out
          have hstep : (w.step env (.finish i)).1 = ⟨s, w.pending.eraseIdx i⟩ := by
            simp [World.step, ht, hcommit]
          rw [hstep] at hinv ⊢
          have hmoves := (Store.commit_effect h.inv.store
            (h.inv.planned t (List.mem_of_getElem? ht)) hcommit).moves
          exact h.leave ht hother hinv fun id r since hr hs => (hmoves id).marked hother hr hs

/-- **The sweeps and the clocks of a run.** -/
theorem run (env : Env) (acts : List Act) (hreach : ∀ as₁ a as₂, acts = as₁ ++ a :: as₂ →
    a.ReachesReturned (World.init.run env as₁).1) :
    Clocked env acts (World.init.run env acts).1 := by
  induction acts using List.reverseRecOn with
  | nil => exact Clocked.init env
  | append_singleton acts a ih =>
    have hacts := ih fun as₁ a' as₂ heq => hreach as₁ a' (as₂ ++ [a]) (by rw [heq]; simp)
    rw [World.run_concat]
    exact hacts.step rfl (hreach acts a [] rfl)

end Clocked

/-- What a budget that has elapsed means, short of the end of the clock. -/
theorem le_of_budgetElapsed {since nowMs : UInt64} {budget : Duration} (hnow : nowMs < u64Max)
    (h : subscriberAbsenceBudgetElapsed since (durationMillis budget) nowMs = true) :
    since.toNat + budget.asMillis ≤ nowMs.toNat := by
  have h := of_decide_eq_true h
  rw [UInt64.le_iff_toNat_le, toNat_saturatingAdd, toNat_durationMillis] at h
  rw [UInt64.lt_iff_toNat_lt] at hnow
  have hmax : u64Max.toNat = 2 ^ 64 - 1 := rfl
  omega

/-- **Only continuous absence dead-letters.**  In a run whose sweeps come one after the other and get
as far as every row whose subscriber has returned:

* a delivery that a sweep dead-letters has had a clock for the budget, and no sweep since the one that
  set the clock, this one included, found its queue served;
* a sweep that finds the queue of a row served leaves the row without a clock. -/
theorem absence_continuous (env : Env) (acts : List Act) (hreach : ∀ as₁ a as₂,
      acts = as₁ ++ a :: as₂ → a.ReachesReturned (World.init.run env as₁).1)
    {as₁ as₂ : List Act} {i : ℕ} {e : Entry} (hacts : acts = as₁ ++ .finish i :: as₂)
    (hcommit : World.Commits env as₁ i e) {queues : Std.ExtTreeSet String} {nowMs : UInt64}
    {budget : Duration} {candidates : List String}
    (hsweep : e.txn = .sweep queues nowMs budget candidates) :
    (∀ id, .swept ∈ e.events id → ∃ r since, e.before.deliveryById[id]? = some r ∧
      r.subscriberAbsentSinceMs = some since ∧ since.toNat + budget.asMillis ≤ nowMs.toNat ∧
      queues.contains r.queue = false ∧
      ∃ as₃ j as₄ m, as₁ = as₃ ++ .finish j :: as₄ ∧ World.Commits env as₃ j m ∧ m.Marks id since ∧
        ∀ queues' nowMs' budget' batchLimit',
          .start (.sweep queues' nowMs' budget' batchLimit') ∈ as₄ →
          queues'.contains r.queue = false) ∧
    ∀ (id : String) (r : DeliveryRecord), e.before.deliveryById[id]? = some r →
      queues.contains r.queue = true →
      e.after.deliveryById[id]? = some { r with subscriberAbsentSinceMs := none } := by
  have hclocked := Clocked.run env as₁ fun as a as' heq => hreach as a (as' ++ .finish i :: as₂) (by
    rw [hacts, heq]
    simp)
  have hcommitted := hcommit
  rw [World.Commits, World.step] at hcommit
  split at hcommit
  · cases hcommit
  · rename_i t ht
    split at hcommit
    · rename_i s reply hrun
      obtain rfl := Option.some.inj hcommit
      obtain rfl : t = _ := hsweep
      have hmem := List.mem_of_getElem? ht
      obtain ⟨s', reply', hrun', hrows⟩ := hclocked.sweep_spec hmem
      obtain ⟨rfl, rfl⟩ := Prod.mk.inj (Except.ok.inj (hrun.symm.trans hrun'))
      obtain ⟨_, hnow, hreaches⟩ := hclocked.reaches queues nowMs budget candidates hmem
      have hmoves := (Store.commit_effect hclocked.inv.store (hclocked.inv.planned _ hmem) hrun).moves
      refine ⟨fun id hswept => ?_, fun id r hr hq => ?_⟩
      · obtain ⟨hbefore, hafter⟩ := (hmoves id).live_of_swept hswept
        obtain ⟨r, hr⟩ := Option.ne_none_iff_exists'.1 hbefore
        have hr : (World.init.run env as₁).1.store.deliveryById[id]? = some r := hr
        have hgone : s.deliveryById[id]? = none := hafter
        have hc : id ∈ candidates := by
          by_contra hc
          rw [hrows id, if_neg hc, hr] at hgone
          cases hgone
        rw [hrows id, if_pos hc, hr, Option.bind_some, DeliveryRecord.sweptAt] at hgone
        split at hgone
        · cases hgone
        · rename_i hq
          rw [Bool.not_eq_true] at hq
          split at hgone
          · cases hgone
          · rename_i since hsince
            split at hgone
            · rename_i helapsed
              refine ⟨r, since, hr, hsince, le_of_budgetElapsed hnow helapsed, hq, ?_⟩
              obtain ⟨as₃, j, as₄, m, has, hm, hmarks, hsweeps⟩ := hclocked.clocks id r since hr hsince
              refine ⟨as₃, j, as₄, m, has, hm, hmarks, fun queues' nowMs' budget' limit' hmem' => ?_⟩
              rcases hsweeps queues' nowMs' budget' limit' hmem' with hq' | ⟨t, ht', served, hs, hq'⟩
              · exact hq'
              · rw [hclocked.served_eq hmem ht' hs, hq] at hq'
                cases hq'
            · cases hgone
      · have hr : (World.init.run env as₁).1.store.deliveryById[id]? = some r := hr
        change s.deliveryById[id]? = _
        rw [hrows id]
        split
        · rw [hr, Option.bind_some, DeliveryRecord.sweptAt, if_pos hq]
        · rename_i hc
          have hnone : r.subscriberAbsentSinceMs = none := by
            by_contra hsince
            exact hc (hreaches id r hr hsince hq)
          rw [hr, DeliveryRecord.without_clock hnone]
    · cases hcommit

namespace Sample

/-- A record of a queue. -/
def queued (id queue : String) : FreshRecord :=
  ⟨{ (record id false).val with queue := queue }, (record id false).2⟩

/-- The queue of `z` loses its subscriber and gets it back, but the row of `a` comes first; then the
queue is without a subscriber again.  All sweeps have the same budget and reach one row. -/
def returned : List Act :=
  Act.inSequence [.enqueue (queued "z" "served"), .sweep ∅ 0 (.fromMillis 5) 1,
    .enqueue (queued "a" "lost"), .sweep (Std.ExtTreeSet.empty.insert "served") 1 (.fromMillis 5) 1,
    .sweep ∅ 10 (.fromMillis 5) 1, .sweep ∅ 11 (.fromMillis 5) 1]

/-- A queue loses its subscriber and never gets it back. -/
def lost : List Act :=
  Act.inSequence [.enqueue (queued "z" "lost"), .sweep ∅ 0 (.fromMillis 5) 1,
    .sweep ∅ 5 (.fromMillis 5) 1]

end Sample

/-- The theorem at a delivery that is dead-lettered. -/
theorem absence_continuous_lost : ∃ e r since queues nowMs budget candidates,
    World.Commits Sample.env (Sample.lost.take 5) 0 e ∧
    e.txn = .sweep queues nowMs budget candidates ∧ .swept ∈ e.events "z" ∧
    e.before.deliveryById["z"]? = some r ∧ r.subscriberAbsentSinceMs = some since ∧
    since.toNat + budget.asMillis ≤ nowMs.toNat := by
  have hidle : ∀ k ≤ 6,
      (World.init.run Sample.env (Sample.lost.take k)).1.pending.length = k % 2 := by
    decide +kernel
  have hreach : ∀ as₁ a as₂, Sample.lost = as₁ ++ a :: as₂ →
      a.ReachesReturned (World.init.run Sample.env as₁).1 := by
    intro as₁ a as₂ heq
    have ha : Sample.lost[as₁.length]? = some a := by simp [heq]
    have has : Sample.lost.take as₁.length = as₁ := by simp [heq]
    have hlen : as₁.length < 6 := by
      have h6 := congrArg List.length heq
      have h6' : Sample.lost.length = 6 := rfl
      simp only [List.length_append, List.length_cons] at h6
      omega
    have hpending := hidle as₁.length (by omega)
    rw [has] at hpending
    generalize as₁.length = k at ha hlen hpending
    have hsweep : ∀ (nowMs : UInt64) (budget : Duration), nowMs < u64Max → k % 2 = 0 →
        Act.ReachesReturned (World.init.run Sample.env as₁).1 (.start (.sweep ∅ nowMs budget 1)) := by
      intro nowMs budget hnow hk
      rw [hk, List.length_eq_zero_iff] at hpending
      refine ⟨by simp [hpending], le_rfl, hnow, fun id r _ _ hq => ?_⟩
      simp at hq
    match k, ha with
    | 0, ha => exact Option.some.inj ha ▸ trivial
    | 1, ha => exact Option.some.inj ha ▸ trivial
    | 2, ha => exact Option.some.inj ha ▸ hsweep 0 _ (by decide) rfl
    | 3, ha => exact Option.some.inj ha ▸ trivial
    | 4, ha => exact Option.some.inj ha ▸ hsweep 5 _ (by decide) rfl
    | 5, ha => exact Option.some.inj ha ▸ trivial
    | k + 6, _ => omega
  have hcommit : ((World.init.run Sample.env (Sample.lost.take 5)).1.step Sample.env (.finish 0)).2.any
      (fun e => decide (.swept ∈ e.events "z") && e.txn.sweptQueues.isSome) = true := by
    decide +kernel
  obtain ⟨e, he, hfacts⟩ := (Option.any_eq_true _ _).1 hcommit
  obtain ⟨hswept, hqueues⟩ := Bool.and_eq_true_iff.1 hfacts
  obtain ⟨queues, nowMs, budget, candidates, htxn⟩ : ∃ queues nowMs budget candidates,
      e.txn = .sweep queues nowMs budget candidates := by
    cases h : e.txn with
    | sweep queues nowMs budget candidates => exact ⟨_, _, _, _, rfl⟩
    | _ => rw [h] at hqueues; cases hqueues
  have hsplit : Sample.lost = Sample.lost.take 5 ++ .finish 0 :: [] := rfl
  obtain ⟨r, since, hr, hsince, hbudget, _⟩ := (absence_continuous Sample.env Sample.lost hreach
    hsplit he htxn).1 "z" (of_decide_eq_true hswept)
  exact ⟨e, r, since, queues, nowMs, budget, candidates, he, htxn, of_decide_eq_true hswept, hr, hsince,
    hbudget⟩

/-- A sweep marks the row of `z`, the next one finds its queue served and leaves the mark, a later one kills. -/
def Sample.passesOver : List Entry → Bool
  | [_, marking, _, passing, _, killing] =>
    decide ((marking.txn.sweptQueues.any (!·.contains "served") = true ∧
      (marking.before.deliveryById["z"]?).map (·.subscriberAbsentSinceMs) = some none ∧
      (marking.after.deliveryById["z"]?).map (·.subscriberAbsentSinceMs) = some (some 0)) ∧
    (passing.txn.sweptQueues.any (·.contains "served") = true ∧
      (passing.after.deliveryById["z"]?).map (fun r => (r.queue, r.subscriberAbsentSinceMs)) =
        some ("served", some 0)) ∧
    .swept ∈ killing.events "z")
  | _ => false

/-- A clock that goes on running while its queue is served: with a batch limit of one, the sweep that
finds the queue of `z` served does not get past the row of `a`, and `z` is dead-lettered later on. -/
theorem clock_runs_while_served : ∃ h₁ marking h₂ passing h₃ killing,
    (World.init.run Sample.env Sample.returned).2 =
      h₁ ++ marking :: (h₂ ++ passing :: (h₃ ++ [killing])) ∧
    (marking.txn.sweptQueues.any (!·.contains "served") = true ∧
      (marking.before.deliveryById["z"]?).map (·.subscriberAbsentSinceMs) = some none ∧
      (marking.after.deliveryById["z"]?).map (·.subscriberAbsentSinceMs) = some (some 0)) ∧
    (passing.txn.sweptQueues.any (·.contains "served") = true ∧
      (passing.after.deliveryById["z"]?).map (fun r => (r.queue, r.subscriberAbsentSinceMs)) =
        some ("served", some 0)) ∧
    .swept ∈ killing.events "z" := by
  have hrun : Sample.passesOver (World.init.run Sample.env Sample.returned).2 = true := by
    decide +kernel
  unfold Sample.passesOver at hrun
  split at hrun
  · rename_i e₀ marking e₂ passing e₄ killing hhistory
    exact ⟨[e₀], marking, [e₂], passing, [e₄], killing, hhistory, of_decide_eq_true hrun⟩
  · cases hrun

end Fkst.Delivery
