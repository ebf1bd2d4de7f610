import Fkst.Delivery.Indexes

/-!
# Coalescing loses no update

A keyed delivery stands for the latest state of something, so a duplicate that arrives while the
delivery waits needs no row of its own: the execution to come will see it.  One that arrives while
the delivery is being executed must lead to another execution, and all there is to remember it by is
a bit in the row.

`Owed` is what the bit and the rows say between an accepted `enqueue` and the next grant, and it is
kept by everything that can happen to a delivery.
-/

set_option autoImplicit false

namespace Fkst.Delivery

open Lib

/-! ## The obligation -/

/-- A delivery that still owes an execution: it is not leased or it is marked dirty; or it is dead
and waits for its redrive, or is suppressed. -/
structure Owed (id : String) (v : View) : Prop where
  ok : v.Ok id
  live : ∀ r, v.live = some r → r.leaseUntilMs = none ∨ r.pendingDirty = true
  dead : v.live = none → (∃ d, v.dead = some d ∧ d.replayable = true) ∨ v.suppressed = true

/-- The rows of a delivery that is always enqueued with a dedup key. -/
structure Keyed (v : View) : Prop where
  live : ∀ r, v.live = some r → r.collapseByDedupId = true
  dead : ∀ d r, v.dead = some d → d.record = some r → r.collapseByDedupId = true

section Moves

variable {env : Env} {id : String} {t : Txn} {v v' : View}

/-- A transaction enqueues the delivery with a dedup key, if at all. -/
def Txn.EnqueuesKeyed (t : Txn) (id : String) : Prop :=
  ∀ record, t = .enqueue record → record.val.deliveryId = id → record.val.collapseByDedupId = true

theorem Keyed.withLive (h : Keyed v) {r : DeliveryRecord} (hr : r.collapseByDedupId = true) :
    Keyed { v with live := some r } :=
  ⟨fun _ hr' => Option.some.inj hr' ▸ hr, h.dead⟩

theorem Keyed.rewrite (h : Keyed v) {r r' : DeliveryRecord} (hlive : v.live = some r)
    (hr : r'.collapseByDedupId = r.collapseByDedupId) : Keyed { v with live := some r' } :=
  h.withLive (hr.trans (h.live r hlive))

theorem Keyed.withDead {l : Option DeliveryRecord} {d : DeadRecord} {p : Bool}
    (hl : ∀ r, l = some r → r.collapseByDedupId = true)
    (hd : ∀ r, d.record = some r → r.collapseByDedupId = true) : Keyed ⟨l, some d, p⟩ :=
  ⟨hl, fun _ r hd' hr => hd r (by rw [Option.some.inj hd']; exact hr)⟩

theorem Move.keyed {o : Option Event} (ht : t.EnqueuesKeyed id) (hm : Move env id t o v v')
    (h : Keyed v) : Keyed v' := by
  cases hm with
  | insert record hid => exact h.withLive (ht record rfl hid)
  | mark record hlive => exact h.rewrite hlive rfl
  | reset record hlive => exact h.rewrite hlive rfl
  | rebind _ _ hlive => exact h.rewrite hlive rfl
  | absence _ _ _ _ _ hlive => exact h.rewrite hlive rfl
  | sweep _ _ _ _ hlive =>
    refine Keyed.withDead (by simp) ?_
    rintro r ⟨⟩
    have hkeyed := h.live _ hlive
    exact hkeyed
  | renew _ _ hlive => exact h.rewrite hlive rfl
  | grant _ _ _ _ _ _ _ hlive => exact h.rewrite hlive rfl
  | grantNext _ _ hlive => exact h.rewrite hlive rfl
  | ack => exact ⟨by simp, h.dead⟩
  | ackFollowUp hlive _ hdirty =>
    obtain ⟨hkeyed, _, rfl⟩ := prepareDirtyFollowUp_eq_some hdirty
    exact h.withLive hkeyed
  | defer _ _ _ hlive => exact h.rewrite hlive rfl
  | retry _ _ _ _ hlive => exact h.rewrite hlive rfl
  | deadLetter _ _ _ hlive =>
    refine Keyed.withDead (by simp) ?_
    rintro r ⟨⟩
    have hkeyed := h.live _ hlive
    exact hkeyed
  | terminate => exact Keyed.withDead (by simp) (fun r hr => by cases hr)
  | terminateFollowUp _ _ _ _ _ _ _ hdirty =>
    obtain ⟨hkeyed, _, rfl⟩ := prepareDirtyFollowUp_eq_some hdirty
    refine Keyed.withDead ?_ (fun r hr => by cases hr)
    rintro r ⟨⟩
    exact hkeyed
  | redrive _ _ _ _ _ hdead _ hrecord hdept =>
    obtain ⟨dept, rfl⟩ := redriveRecord_eq_some hdept
    have hkeyed := h.dead _ _ hdead hrecord
    exact ⟨fun r hr => Option.some.inj hr ▸ hkeyed, by simp⟩
  | kill => exact Keyed.withDead h.live (fun r hr => by cases hr)
  | killFollowUp _ _ _ _ _ _ _ _ _ _ _ hdirty =>
    obtain ⟨hkeyed, _, rfl⟩ := prepareDirtyFollowUp_eq_some hdirty
    refine Keyed.withDead ?_ (fun r hr => by cases hr)
    rintro r ⟨⟩
    exact hkeyed
  | compact => exact ⟨h.live, by simp⟩

theorem Owed.withLive {r : DeliveryRecord} (hok : View.Ok id { v with live := some r })
    (hr : r.leaseUntilMs = none ∨ r.pendingDirty = true) : Owed id { v with live := some r } :=
  ⟨hok, fun _ hr' => Option.some.inj hr' ▸ hr, by simp⟩

theorem Owed.rewrite (h : Owed id v) {r r' : DeliveryRecord} (hlive : v.live = some r)
    (hok : View.Ok id { v with live := some r' }) (hlease : r'.leaseUntilMs = r.leaseUntilMs)
    (hdirty : r'.pendingDirty = r.pendingDirty) : Owed id { v with live := some r' } :=
  Owed.withLive hok (by rw [hlease, hdirty]; exact h.live r hlive)

/-- **Everything but a grant keeps the obligation.** -/
theorem Move.owed {o : Option Event} (hm : Move env id t o v v') (hgrant : ∀ g, o ≠ some (.granted g))
    (h : Owed id v) : Owed id v' := by
  have hok := hm.ok h.ok
  cases hm with
  | insert record => exact Owed.withLive hok (Or.inl record.2.2.2.2.2.2)
  | mark => exact Owed.withLive hok (Or.inr rfl)
  | reset => exact Owed.withLive hok (Or.inl rfl)
  | rebind _ _ hlive => exact h.rewrite hlive hok rfl rfl
  | absence _ _ _ _ _ hlive => exact h.rewrite hlive hok rfl rfl
  | sweep => exact ⟨hok, by simp, fun _ => Or.inl ⟨_, rfl, rfl⟩⟩
  | renew _ _ hlive hlease =>
    have hdirty := (h.live _ hlive).resolve_left (by simp [hlease])
    exact Owed.withLive hok (Or.inr hdirty)
  | grant => exact absurd rfl (hgrant _)
  | grantNext => exact absurd rfl (hgrant _)
  | ack hlive hlease hclean =>
    -- a leased row that owes an execution is dirty, and then it has a follow-up
    have hdirty := (h.live _ hlive).resolve_left (by simp [hlease])
    rw [prepareDirtyFollowUp_eq_none (h.ok.live _ hlive).dirty hclean] at hdirty
    cases hdirty
  | ackFollowUp _ _ hdirty =>
    obtain ⟨_, _, rfl⟩ := prepareDirtyFollowUp_eq_some hdirty
    exact Owed.withLive hok (Or.inl rfl)
  | defer => exact Owed.withLive hok (Or.inl rfl)
  | retry => exact Owed.withLive hok (Or.inl rfl)
  | deadLetter => exact ⟨hok, by simp, fun _ => Or.inl ⟨_, rfl, rfl⟩⟩
  | terminate => exact ⟨hok, by simp, fun _ => Or.inr rfl⟩
  | terminateFollowUp _ _ _ _ _ _ _ hdirty =>
    obtain ⟨_, _, rfl⟩ := prepareDirtyFollowUp_eq_some hdirty
    exact ⟨hok, fun _ hr => Option.some.inj hr ▸ Or.inl rfl, by simp⟩
  | redrive _ _ _ _ _ hdead hreplayable hrecord hdept =>
    obtain ⟨dept, rfl⟩ := redriveRecord_eq_some hdept
    obtain ⟨r, hr, _, hlease, _⟩ := (h.ok.dead _ hdead).record hreplayable
    obtain rfl := Option.some.inj (hrecord.symm.trans hr)
    exact ⟨hok, fun _ hr => Option.some.inj hr ▸ Or.inl rfl, by simp⟩
  | kill _ _ _ _ _ _ _ _ _ _ _ =>
    refine ⟨hok, h.live, fun hnone => Or.inr ?_⟩
    have hnone : v.live = none := hnone
    simp [livePreservesKeyedDelivery, hnone]
  | killFollowUp _ _ _ _ _ _ _ _ _ _ _ hdirty =>
    obtain ⟨_, _, rfl⟩ := prepareDirtyFollowUp_eq_some hdirty
    exact ⟨hok, fun _ hr => Option.some.inj hr ▸ Or.inl rfl, by simp⟩
  | compact _ _ hdead hterminal =>
    refine ⟨hok, h.live, fun hnone => Or.inr ?_⟩
    rcases h.dead hnone with ⟨d, hd, hrep⟩ | hsup
    · obtain rfl := Option.some.inj (hdead.symm.trans hd)
      rw [(h.ok.dead _ hdead).isTerminal, hrep] at hterminal
      cases hterminal
    · exact hsup

end Moves

/-! ## Accepting an update -/

namespace Store

variable {env : Env} {s s' : Store} {id : String}

/-- A keyed duplicate leaves the row of a keyed delivery unleased or marked. -/
theorem coalesce_live {r record : DeliveryRecord}
    (hlive : s.deliveryById[record.deliveryId]? = some r) (hr : r.collapseByDedupId = true)
    (hkeyed : record.collapseByDedupId = true) :
    ∃ r', (s.coalesce r record).deliveryById[record.deliveryId]? = some r' ∧
      (r'.leaseUntilMs = none ∨ r'.pendingDirty = true) := by
  unfold coalesce
  rw [hr, hkeyed, Bool.true_and, if_pos rfl]
  split
  · rename_i hu
    exact ⟨r, hlive, Or.inl hu⟩
  · split
    · split
      · exact ⟨_, Std.ExtTreeMap.getElem?_insert_self, Or.inr rfl⟩
      · rename_i hdirty
        exact ⟨r, hlive, Or.inr (by simpa using hdirty)⟩
    · exact ⟨_, Std.ExtTreeMap.getElem?_insert_self, Or.inl rfl⟩

/-- A keyed delivery that was enqueued once more owes an execution. -/
theorem enqueue_owed (hs : s.Inv) {record : FreshRecord}
    (hkeyed : record.val.collapseByDedupId = true) (hid : record.val.deliveryId = id)
    (hlive : Keyed (s.view id)) (h : s.enqueue env record.val = .ok (s', .accepted)) :
    Owed id (s'.view id) := by
  subst hid
  have heffect : Effect env (.enqueue record) _ True s s' := enqueue_effect hs h
  have hok := heffect.inv.ok record.val.deliveryId
  have hrow : ∃ r', s'.deliveryById[record.val.deliveryId]? = some r' ∧
      (r'.leaseUntilMs = none ∨ r'.pendingDirty = true) := by
    unfold enqueue at h
    split at h
    · rename_i r hr
      have hcur := hlive.live r hr
      rw [hcur, Bool.true_or, if_pos rfl] at h
      obtain ⟨rfl, _⟩ := Prod.mk.inj (Except.ok.inj h)
      exact coalesce_live hr hcur hkeyed
    · obtain ⟨s1, m, hcompact, _, _⟩ :=
        compactTerminalDeadRecords_effect env (.enqueue record) hs rfl
      rw [hcompact] at h
      simp only [bind, Except.bind, pure, Except.pure] at h
      split at h
      · cases h
      · obtain ⟨rfl, _⟩ := Prod.mk.inj (Except.ok.inj h)
        have hσ := congrArg (fun σ => σ.live) (slice_insertRow env s1 record.val.deliveryId record.val)
        exact ⟨record.val, hσ, Or.inl record.2.2.2.2.2.2⟩
  obtain ⟨r', hr', howed⟩ := hrow
  have hview : (s'.view record.val.deliveryId).live = some r' := hr'
  refine ⟨hok, fun r hr => ?_, fun hnone => ?_⟩
  · exact Option.some.inj (hview.symm.trans hr) ▸ howed
  · rw [hview] at hnone
    cases hnone

end Store

/-! ## A further lease is possible -/

namespace Store

variable {env : Env} {s : Store} {id : String}

theorem le_scanBudget {n : ℕ} (h : 2 * n + 2 ≤ usizeMax) : n ≤ scanBudget (2 * n + 2) 0 := by
  simp only [scanBudget, usizeSaturatingAdd, usizeSaturatingMul]
  omega

/-- A lease with room for everything grants every row it can. -/
theorem leaseMatching_reaches (hs : s.Inv) {row : DeliveryRecord}
    (hrow : s.deliveryById[id]? = some row) (l : LeaseTxn) (hdue : row.Leaseable l.nowMs)
    (hdept : l.dept = none) (hexcluded : id ∉ l.excluded)
    (hplanned : l.txn.Planned)
    (hquota : l.expiredKeys.length ≤ expiredLeaseQuota l.batchLimit)
    (hroom : expiredLeaseQuota l.batchLimit + l.readyKeys.length ≤ l.batchLimit)
    (hexpired : ∀ u, row.leaseUntilMs = some u → ⟨makeIndexKey row.dept u id, u, id⟩ ∈ l.expiredKeys)
    (hready : row.leaseUntilMs = none →
      ⟨makeIndexKey row.dept row.notBeforeMs id, row.notBeforeMs, id⟩ ∈ l.readyKeys) :
    ∃ r ∈ (s.leaseMatching l.nowMs l.batchLimit l.leaseDur l.dept l.excluded l.expiredKeys
      l.readyKeys).2, r.deliveryId = id := by
  have hid := (hs.liveOk hrow).deliveryId
  have hdept : ∀ wanted, l.request.dept = some wanted → row.dept = wanted := by
    intro wanted hw
    have hw : l.dept = some wanted := hw
    rw [hdept] at hw
    cases hw
  set first := leaseKeys l.request true (expiredLeaseQuota l.batchLimit) l.expiredKeys
    ⟨s, [], false⟩
  have hleased : (s.leaseMatching l.nowMs l.batchLimit l.leaseDur l.dept l.excluded l.expiredKeys
      l.readyKeys).2 = (leaseKeys l.request false l.batchLimit l.readyKeys first).leased := by
    unfold leaseMatching
    dsimp only
    split <;> rfl
  have hgrow : (∃ r ∈ first.leased, r.deliveryId = id) →
      ∃ r ∈ (leaseKeys l.request false l.batchLimit l.readyKeys first).leased,
        r.deliveryId = id := by
    rintro ⟨r, hr, hrid⟩
    exact ⟨r, leaseKeys_grows _ _ _ hr, hrid⟩
  have hnow : ∀ k ∈ l.expiredKeys, k.dueMs ≤ l.request.nowMs := fun k hk => (hplanned.1 k hk).2
  rw [hleased]
  cases hu : row.leaseUntilMs with
  | some u =>
    refine hgrow (leaseKeys_reaches hid hexcluded hdept (fun hb => by cases hb) rfl
      (fun _ => hu) (by simpa using hquota) (fun _ => hnow) (hexpired u hu) hrow)
  | none =>
    have hgranted : first.Granted s l.request :=
      leaseKeys_granted hs true _ (.start s _ _) (fun _ => hnow) (fun _ => hplanned.2.2) (by simp)
    have hlength : first.leased.length ≤ expiredLeaseQuota l.batchLimit :=
      leaseKeys_length l.request true _ (Nat.zero_le _)
    by_cases hin : id ∈ first.leased.map DeliveryRecord.deliveryId
    · exact hgrow (by simpa using hin)
    · have hnb : row.notBeforeMs ≤ l.request.nowMs := by
        rcases hdue with ⟨_, hnb⟩ | ⟨u, hu', _⟩
        · exact hnb
        · rw [hu] at hu'
          cases hu'
      exact leaseKeys_reaches hid hexcluded hdept (fun _ => ⟨hu, hnb⟩) rfl (fun hb => by cases hb)
        (by omega) (fun hb => by cases hb) (hready hu) ((hgranted.others id hin).trans hrow)

/-- **A row on which a lease may be granted is granted by some lease.** -/
theorem exists_lease (env : Env) (hs : s.Inv) {row : DeliveryRecord} {nowMs : UInt64}
    (hrow : s.deliveryById[id]? = some row) (hdue : row.Leaseable nowMs) (leaseDur : Duration)
    (hsize : 2 * (s.readyByDeptDue.size + s.leasedByDeptUntil.size) + 2 ≤ usizeMax) :
    ∃ batchLimit expired ready s' leased, s.plan (.lease nowMs batchLimit leaseDur none ∅) =
        .ok (some (.lease nowMs batchLimit leaseDur none ∅ expired ready)) ∧
      s.commit env (.lease nowMs batchLimit leaseDur none ∅ expired ready) =
        .ok (s', .lease leased) ∧
      ∃ r ∈ leased, r.deliveryId = id := by
  set n := s.readyByDeptDue.size + s.leasedByDeptUntil.size
  have hbudget := le_scanBudget hsize
  have hcomplete := hs.complete
  obtain ⟨expired, hexpired, hexlen, hexmem⟩ := exists_collectDueKeys nowMs
    (.of_dueFormat hs.wellFormed.leased)
    (show s.leasedByDeptUntil.size ≤ scanBudget (2 * n + 2) 0 by omega)
  obtain ⟨ready, hready, hrlen, hrmem⟩ := exists_collectDueKeys nowMs
    (.of_dueFormat hs.wellFormed.ready)
    (show s.readyByDeptDue.size ≤ scanBudget (2 * n + 2) 0 by omega)
  obtain ⟨hhalf, hrest⟩ := expiredLeaseQuota_half (Nat.le_refl (2 * n + 2))
  have hcollect : s.collectLeaseableKeys nowMs (2 * n + 2) none ∅ = .ok (expired, ready) := by
    have htake : expired.take (expiredLeaseQuota (2 * n + 2)) = expired :=
      List.take_of_length_le (by omega)
    have hsize0 : (∅ : Std.ExtTreeSet String).size = 0 := rfl
    simp only [collectLeaseableKeys, hsize0, hexpired, hready, bind, Except.bind, htake]
    rfl
  have hready : row.leaseUntilMs = none →
      ⟨makeIndexKey row.dept row.notBeforeMs id, row.notBeforeMs, id⟩ ∈ ready := by
    intro hu
    refine hrmem _ _ _ (hcomplete.ready id row hrow hu) ?_
    rcases hdue with ⟨_, hnb⟩ | ⟨u, hu', _⟩
    · exact hnb
    · rw [hu] at hu'
      cases hu'
  have hexpired : ∀ u, row.leaseUntilMs = some u →
      ⟨makeIndexKey row.dept u id, u, id⟩ ∈ expired := by
    intro u hu
    refine hexmem _ _ _ (hcomplete.leased id row u hrow hu) ?_
    rcases hdue with ⟨hu', _⟩ | ⟨u', hu', hle⟩
    · rw [hu] at hu'
      cases hu'
    · obtain rfl := Option.some.inj (hu.symm.trans hu')
      exact hle
  have hsome : ¬ (expired.isEmpty && ready.isEmpty) = true := by
    intro hempty
    rw [Bool.and_eq_true, List.isEmpty_iff, List.isEmpty_iff] at hempty
    cases hu : row.leaseUntilMs with
    | none => simpa [hempty.2] using hready hu
    | some u => simpa [hempty.1] using hexpired u hu
  have hplan : s.plan (.lease nowMs (2 * n + 2) leaseDur none ∅) =
      .ok (some (.lease nowMs (2 * n + 2) leaseDur none ∅ expired ready)) := by
    simp only [plan, hcollect, bind, Except.bind, if_neg hsome]
    rfl
  have hreach := leaseMatching_reaches hs hrow
    ⟨nowMs, 2 * n + 2, leaseDur, none, ∅, expired, ready⟩ hdue rfl (by simp)
    (plan_eq_ok hs hplan).1 (by dsimp only; omega) (by dsimp only; omega) hexpired hready
  exact ⟨2 * n + 2, expired, ready, _, _, hplan, rfl, hreach⟩

end Store

/-! ## Runs -/

namespace Entry.Committed

variable {env : Env} {e : Entry} {id : String}

theorem keyed (h : e.Committed env) (ht : e.txn.EnqueuesKeyed id) (hk : Keyed (e.before.view id)) :
    Keyed (e.after.view id) :=
  (h.moves id).preserves (P := fun _ v => Keyed v) (fun _ _ _ _ hv hm => hm.keyed ht hv) hk

theorem owed (h : e.Committed env) (hgrant : ∀ g, ¬ e.Grants id g)
    (ho : Owed id (e.before.view id)) : Owed id (e.after.view id) := by
  have hstep : ∀ l o v v', ((∀ g, .granted g ∉ l) → Owed id v) → Move env id e.txn o v v' →
      (∀ g, .granted g ∉ l ++ o.toList) → Owed id v' := by
    intro l o v v' hv hm hnone
    simp only [List.mem_append, not_or] at hnone
    exact hm.owed (fun g hg => (hnone g).2 (by simp [hg])) (hv fun g => (hnone g).1)
  exact (h.moves id).preserves (P := fun l v => (∀ g, .granted g ∉ l) → Owed id v) hstep
    (fun _ => ho) hgrant

theorem owed_of_accepts (h : e.Committed env) (ha : e.Accepts id) (ht : e.txn.EnqueuesKeyed id)
    (hk : Keyed (e.before.view id)) : Owed id (e.after.view id) := by
  obtain ⟨record, htxn, hreply, hid⟩ := ha
  have hcommit := h.commit
  rw [htxn, hreply] at hcommit
  obtain ⟨_, ⟨⟩, hrun⟩ := Store.commit_enqueue hcommit
  exact Store.enqueue_owed h.inv (ht record htxn hid) hid hk hrun

end Entry.Committed

/-- After the history `h`, a delivery that was always enqueued with a dedup key owes an execution if
nothing granted it since an accepted `enqueue`. -/
def OwedAfter (id : String) (s : Store) (h : List Entry) : Prop :=
  (∀ e ∈ h, e.txn.EnqueuesKeyed id) → Keyed (s.view id) ∧
    ∀ h₁ e h₂, h = h₁ ++ e :: h₂ → e.Accepts id → (∀ e' ∈ h₂, ∀ g, ¬ e'.Grants id g) →
      Owed id (s.view id)

theorem OwedAfter.step {env : Env} {id : String} {h : List Entry} {e : Entry}
    (he : e.Committed env) (hP : OwedAfter id e.before h) : OwedAfter id e.after (h ++ [e]) := by
  intro hall
  obtain ⟨hk, hsince⟩ := hP fun e' he' => hall e' (by simp [he'])
  have ht := hall e (by simp)
  refine ⟨he.keyed ht hk, fun h₁ e' h₂ heq ha hnone => ?_⟩
  rcases split_concat heq with ⟨_, rfl, _⟩ | ⟨h₃, rfl, hold⟩
  · exact he.owed_of_accepts ha ht hk
  · exact he.owed (hnone e (by simp))
      (hsince h₁ e' h₃ hold ha fun e'' he'' => hnone e'' (by simp [he'']))

theorem owedAfter_empty (id : String) : OwedAfter id .empty [] := by
  intro _
  rw [show Store.view .empty id = _ from congrArg Slice.toView (Store.slice_empty id)]
  exact ⟨⟨by simp, by simp⟩, by simp⟩

/-- In every run, a keyed delivery owes an execution from an accepted `enqueue` to the next grant. -/
theorem owedAfter_run (env : Env) (acts : List Act) (id : String) :
    OwedAfter id (World.init.run env acts).1.store (World.init.run env acts).2 :=
  (World.run_induction (P := OwedAfter id) (fun _ _ he hP => hP.step he) World.inv_init
    (owedAfter_empty id) acts).2

/-- **Coalescing loses no update.**  Take any overlapping run in which a delivery is only enqueued
with a dedup key, an accepted `enqueue` of it, and any later state before the delivery is granted
again.  The row of the delivery, if it has one, is unleased or marked dirty; if it has none, the
delivery is dead, or it died for good and its id is suppressed.  There is no second row, and as soon
as the row is due or its lease has run out there is a lease that grants it. -/
theorem coalescing_keeps_updates (env : Env) (acts : List Act) (id : String) {h₁ h₂ : List Entry}
    {e : Entry} (hhistory : (World.init.run env acts).2 = h₁ ++ e :: h₂)
    (hkeyed : ∀ e' ∈ (World.init.run env acts).2, e'.txn.EnqueuesKeyed id) (haccepts : e.Accepts id)
    (hnext : ∀ e' ∈ h₂, ∀ g, ¬ e'.Grants id g) :
    (∀ r, (World.init.run env acts).1.store.deliveryById[id]? = some r →
      r.leaseUntilMs = none ∨ r.pendingDirty = true) ∧
    ((World.init.run env acts).1.store.deliveryById[id]? = none →
      (∃ d, (World.init.run env acts).1.store.deadById[id]? = some d) ∨
        (World.init.run env acts).1.store.terminalDeliveryIsSuppressed id = true) ∧
    (∀ (id' : String) (r : DeliveryRecord),
      (World.init.run env acts).1.store.deliveryById[id']? = some r → r.deliveryId = id → id' = id) ∧
    ∀ (r : DeliveryRecord) (nowMs : UInt64) (leaseDur : Duration),
      (World.init.run env acts).1.store.deliveryById[id]? = some r → r.Leaseable nowMs →
      2 * ((World.init.run env acts).1.store.readyByDeptDue.size +
        (World.init.run env acts).1.store.leasedByDeptUntil.size) + 2 ≤ usizeMax →
      ∃ batchLimit, ∃ e' ∈ ((World.init.run env acts).1.run env
          [.start (.lease nowMs batchLimit leaseDur none ∅),
            .finish (World.init.run env acts).1.pending.length]).2,
        ∃ g, e'.Grants id g := by
  have howed := (owedAfter_run env acts id hkeyed).2 h₁ e h₂ hhistory haccepts hnext
  have hinv := (World.run_inv env acts).store
  generalize (World.init.run env acts).1 = w at howed hinv ⊢
  refine ⟨howed.live, fun hnone => ?_, fun id' r hr hid => ?_, fun r nowMs leaseDur hr hdue hsize => ?_⟩
  · rcases howed.dead hnone with ⟨d, hd, _⟩ | hsup
    · exact Or.inl ⟨d, hd⟩
    · exact Or.inr hsup
  · exact (hinv.liveOk hr).deliveryId.symm.trans hid
  · obtain ⟨batchLimit, expired, ready, s', leased, hplan, hcommit, r', hr', hid⟩ :=
      Store.exists_lease env hinv hr hdue leaseDur hsize
    refine ⟨batchLimit, ⟨w.store, .lease nowMs batchLimit leaseDur none ∅ expired ready,
      .lease leased, s'⟩, ?_, r'.leaseGeneration, ?_⟩
    · rw [World.run_call hplan hcommit]
      exact List.mem_singleton.2 rfl
    · simp only [Entry.Grants, Entry.events, Store.leaseEvents, List.mem_map, List.mem_filter]
      exact ⟨r', ⟨hr', by simpa using hid⟩, rfl⟩

namespace Sample

/-- Decides whether a history has, after `n` entries, an accepted `enqueue` with no grant after it,
and whether the delivery is only enqueued with a dedup key. -/
def awaitsGrant (id : String) (n : ℕ) (h : List Entry) : Bool :=
  h.all (fun e => match e.txn with | .enqueue record => record.val.collapseByDedupId | _ => true) &&
    match h.drop n with
    | [] => false
    | e :: h₂ =>
      (match e.txn, e.reply with
        | .enqueue record, .enqueue .accepted => record.val.deliveryId == id
        | _, _ => false) &&
      h₂.all fun e' => (e'.events id).all fun event =>
        match event with
        | .granted _ => false
        | _ => true

theorem exists_of_awaitsGrant {id : String} {n : ℕ} {h : List Entry}
    (hcheck : awaitsGrant id n h = true) :
    ∃ h₁ e h₂, h = h₁ ++ e :: h₂ ∧ (∀ e' ∈ h, e'.txn.EnqueuesKeyed id) ∧ e.Accepts id ∧
      ∀ e' ∈ h₂, ∀ g, ¬ e'.Grants id g := by
  unfold awaitsGrant at hcheck
  rw [Bool.and_eq_true, List.all_eq_true] at hcheck
  obtain ⟨hkeyed, hcheck⟩ := hcheck
  split at hcheck
  · cases hcheck
  · rename_i e h₂ hdrop
    rw [Bool.and_eq_true, List.all_eq_true] at hcheck
    refine ⟨h.take n, e, h₂, by rw [← hdrop, List.take_append_drop], fun e' he' record ht _ => ?_,
      ?_, fun e' he' g hg => ?_⟩
    · simpa [ht] using hkeyed e' he'
    · obtain ⟨haccepts, _⟩ := hcheck
      split at haccepts
      · rename_i record htxn hreply
        exact ⟨record, htxn, hreply, by simpa using haccepts⟩
      · cases haccepts
    · simpa using List.all_eq_true.1 (hcheck.2 e' he') _ hg

/-- A keyed delivery is enqueued and leased, and enqueued once more while the lease is held. -/
def dirty : List Act := Act.inSequence [.enqueue (record "a" true), .lease 0 1 ⟨1, 0⟩ none ∅,
  .enqueue (record "a" true)]

/-- A keyed delivery is enqueued, its queue loses its subscriber and gets it back, and the redrive
gives the dead letter up a day later. -/
def abandoned : List Act := Act.inSequence [.enqueue (record "a" true), .sweep ∅ 0 ⟨0, 0⟩ 1,
  .sweep ∅ 0 ⟨0, 0⟩ 1,
  .redrive redrivePolicy (some ((∅ : Table String String).insert "queue" "dept"))
    terminalDeadRetentionMs 1]

end Sample

/-- The theorem at a delivery that is marked dirty. -/
theorem coalescing_keeps_updates_dirty :
    ∃ r, (World.init.run Sample.env Sample.dirty).1.store.deliveryById["a"]? = some r ∧
      r.leaseUntilMs ≠ none ∧ (r.leaseUntilMs = none ∨ r.pendingDirty = true) := by
  obtain ⟨h₁, e, h₂, hhistory, hkeyed, haccepts, hnext⟩ := Sample.exists_of_awaitsGrant
    (show Sample.awaitsGrant "a" 2 (World.init.run Sample.env Sample.dirty).2 = true by
      decide +kernel)
  have hleased : ((World.init.run Sample.env Sample.dirty).1.store.deliveryById["a"]?).any
      (·.leaseUntilMs.isSome) = true := by decide +kernel
  obtain ⟨r, hr, hlease⟩ := (Option.any_eq_true _ _).1 hleased
  exact ⟨r, hr, Option.isSome_iff_ne_none.1 hlease,
    (coalescing_keeps_updates Sample.env Sample.dirty "a" hhistory hkeyed haccepts hnext).1 r hr⟩

/-- A delivery whose update was accepted and never executed may have no row at all: its dead letter
was given up and compacted. -/
theorem abandoned_update_without_row : ∃ acts h₁ e h₂,
    (World.init.run Sample.env acts).2 = h₁ ++ e :: h₂ ∧
    (∀ e' ∈ (World.init.run Sample.env acts).2, e'.txn.EnqueuesKeyed "a") ∧ e.Accepts "a" ∧
    (∀ e' ∈ h₂, ∀ g, ¬ e'.Grants "a" g) ∧
    (World.init.run Sample.env acts).1.store.deliveryById["a"]? = none ∧
    (World.init.run Sample.env acts).1.store.deadById["a"]? = none := by
  obtain ⟨h₁, e, h₂, hhistory, hkeyed, haccepts, hnext⟩ := Sample.exists_of_awaitsGrant
    (show Sample.awaitsGrant "a" 0 (World.init.run Sample.env Sample.abandoned).2 = true by
      decide +kernel)
  refine ⟨Sample.abandoned, h₁, e, h₂, hhistory, hkeyed, haccepts, hnext, ?_, ?_⟩
  · rw [← Option.isNone_iff_eq_none]
    decide +kernel
  · rw [← Option.isNone_iff_eq_none]
    decide +kernel

end Fkst.Delivery
