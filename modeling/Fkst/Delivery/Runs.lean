import Mathlib.Data.Set.Subsingleton
import Fkst.Delivery.DeadLetters
import Fkst.Delivery.Leasing

/-!
# Runs

What was shown of the single operations, put together for runs.

* `Store.commit_effect` — every committed transaction moves every delivery along its life, and its
  reply says which events there were (`Entry.events`).
* `World.run_induction` — what every committed transaction preserves holds after every overlapping
  run, whatever was read when.
* `Store.run_inv` — after an atomic run the invariant holds and no index has a leftover.
-/

set_option autoImplicit false

namespace Fkst.Delivery

open Lib

/-! ## What was read -/

/-- What is known of the candidates of a transaction, however the tables have changed since. -/
def Txn.Planned : Txn → Prop
  | .lease nowMs _ _ _ _ expiredKeys readyKeys =>
    (∀ k ∈ expiredKeys, k.WellFormed ∧ k.dueMs ≤ nowMs) ∧ (∀ k ∈ readyKeys, k.WellFormed) ∧
      expiredKeys.Pairwise (fun k k' => k.deliveryId ≠ k'.deliveryId)
  | .redrive _ _ _ dueKeys => ∀ k ∈ dueKeys, k.DeadWellFormed
  | _ => True

/-- The candidates of a transaction are those of the tables as they are, one for a delivery. -/
def Txn.UpToDate (s : Store) : Txn → Prop
  | .lease _ _ _ _ _ _ readyKeys => (∀ k ∈ readyKeys, k.key ∈ s.readyByDeptDue) ∧
    readyKeys.Pairwise (fun k k' => k.deliveryId ≠ k'.deliveryId)
  | .redrive _ _ _ dueKeys => (∀ k ∈ dueKeys, k.key ∈ s.deadByDeptDue) ∧
    dueKeys.Pairwise (fun k k' => k.deliveryId ≠ k'.deliveryId)
  | _ => True

theorem readyKeys_subsingleton (live : Option DeliveryRecord) : (readyKeys live).Subsingleton := by
  rintro _ ⟨r, hr, _, rfl⟩ _ ⟨r', hr', _, rfl⟩
  obtain rfl := Option.some.inj (hr.symm.trans hr')
  rfl

theorem leasedKeys_subsingleton (live : Option DeliveryRecord) : (leasedKeys live).Subsingleton := by
  rintro _ ⟨r, u, hr, hu, rfl⟩ _ ⟨r', u', hr', hu', rfl⟩
  obtain rfl := Option.some.inj (hr.symm.trans hr')
  obtain rfl := Option.some.inj (hu.symm.trans hu')
  rfl

theorem deadDueKeys_subsingleton (dead : Option DeadRecord) : (deadDueKeys dead).Subsingleton := by
  rintro _ ⟨d, hd, _, rfl⟩ _ ⟨d', hd', _, rfl⟩
  obtain rfl := Option.some.inj (hd.symm.trans hd')
  rfl

/-- Keys of an index in which no delivery has two entries are of different deliveries. -/
theorem pairwise_deliveryId_ne (f : KeyFormat String (String × UInt64) String)
    {table : Table String Unit} {keys : List DueIndexKey} (hmem : ∀ k ∈ keys, k.key ∈ table)
    (hwf : ∀ k ∈ keys, ∃ dept, k.key = f.make k.deliveryId (dept, k.dueMs))
    (hnodup : (keys.map DueIndexKey.key).Nodup)
    (hone : ∀ id, (f.entries table id).Subsingleton) :
    keys.Pairwise (fun k k' => k.deliveryId ≠ k'.deliveryId) := by
  rw [List.Nodup, List.pairwise_map] at hnodup
  refine hnodup.imp_of_mem ?_
  intro k k' hk hk' hne hid
  obtain ⟨dept, hdept⟩ := hwf k hk
  obtain ⟨dept', hdept'⟩ := hwf k' hk'
  have h1 : (dept, k.dueMs) ∈ f.entries table k.deliveryId := by
    rw [f.mem_entries, ← hdept]
    exact hmem k hk
  have h2 : (dept', k'.dueMs) ∈ f.entries table k.deliveryId := by
    rw [f.mem_entries, hid, ← hdept']
    exact hmem k' hk'
  exact hne (by rw [hdept, hdept', hid, hone _ h1 h2])

theorem KeysWellFormed.of_dueFormat {table : Table String Unit}
    (h : dueFormat.WellFormed table) : KeysWellFormed table := by
  intro k hk
  obtain ⟨id, p, rfl⟩ := h k hk
  exact ⟨p.1, p.2, id, rfl⟩

namespace Store

variable {env : Env} {s : Store}

theorem Inv.leased_subsingleton (hs : s.Inv) (id : String) :
    (dueFormat.entries s.leasedByDeptUntil id).Subsingleton := by
  have h := (hs.indexed id).live.leased
  exact (show dueFormat.entries s.leasedByDeptUntil id = _ from h) ▸ leasedKeys_subsingleton _

theorem Clean.ready_subsingleton (hc : s.Clean) (id : String) :
    (dueFormat.entries s.readyByDeptDue id).Subsingleton :=
  (readyKeys_subsingleton _).anti (hc id).ready

theorem Clean.deadDue_subsingleton (hc : s.Clean) (id : String) :
    (deadDueFormat.entries s.deadByDeptDue id).Subsingleton :=
  (deadDueKeys_subsingleton _).anti (hc id).deadDue

/-- Collecting the keys of dead letters that wait for their redrive. -/
theorem collectDeadKeys_eq_ok {cooldownMs nowMs : UInt64} {m : Option (Table String String)} :
    ∀ {limit : ℕ} {l : List (String × Unit)} {keys : List DueIndexKey},
      (∀ p ∈ l, ∃ d t i, p.1 = makeDeadDueIndexKey d t i) →
      s.collectDeadKeys cooldownMs m nowMs limit l = .ok keys →
      (keys.map DueIndexKey.key).Sublist (l.map Prod.fst) ∧ ∀ k ∈ keys, k.DeadWellFormed
  | 0, l, keys, _, h => by
    rw [collectDeadKeys] at h
    obtain rfl := Except.ok.inj h
    exact ⟨by simp, by simp⟩
  | limit + 1, [], keys, _, h => by
    rw [collectDeadKeys] at h
    obtain rfl := Except.ok.inj h
    exact ⟨by simp, by simp⟩
  | limit + 1, (key, u) :: rest, keys, hl, h => by
    have hrest : ∀ p ∈ rest, ∃ d t i, p.1 = makeDeadDueIndexKey d t i :=
      fun q hq => hl q (by simp [hq])
    obtain ⟨d, t, i, hkey⟩ := hl (key, u) (by simp)
    subst hkey
    have htake : (do
        let keys ← s.collectDeadKeys cooldownMs m nowMs limit rest
        return ⟨makeDeadDueIndexKey d t i, t, i⟩ :: keys : Except StoreError _) = .ok keys →
        (keys.map DueIndexKey.key).Sublist
            (((makeDeadDueIndexKey d t i, u) :: rest).map Prod.fst) ∧
          ∀ k ∈ keys, k.DeadWellFormed := by
      intro h
      cases hr : s.collectDeadKeys cooldownMs m nowMs limit rest with
      | error e => rw [hr] at h; cases h
      | ok ks =>
        rw [hr] at h
        obtain rfl := Except.ok.inj h
        obtain ⟨ih1, ih2⟩ := collectDeadKeys_eq_ok hrest hr
        refine ⟨ih1.cons_cons _, fun k hk => ?_⟩
        rcases List.mem_cons.1 hk with rfl | hk
        · exact ⟨d, rfl⟩
        · exact ih2 k hk
    rw [collectDeadKeys, parseDeadDueIndexKey_makeDeadDueIndexKey] at h
    simp only [bind, Except.bind] at h
    split at h
    · exact htake h
    · split at h
      · exact htake h
      · split at h
        · split at h
          · exact htake h
          · obtain ⟨ih1, ih2⟩ := collectDeadKeys_eq_ok hrest h
            exact ⟨ih1.trans (List.sublist_cons_self _ _), ih2⟩
        · obtain rfl := Except.ok.inj h
          exact ⟨by simp, by simp⟩

/-- What a redrive has read. -/
theorem collectDueDeadKeys_eq_ok (hw : s.WellFormed) {policy : RedrivePolicy}
    {m : Option (Table String String)} {nowMs : UInt64} {batchLimit : ℕ} {keys : List DueIndexKey}
    (h : s.collectDueDeadKeys policy m nowMs batchLimit = .ok keys) :
    (∀ k ∈ keys, k.DeadWellFormed) ∧ (∀ k ∈ keys, k.key ∈ s.deadByDeptDue) ∧
      (keys.map DueIndexKey.key).Nodup := by
  have hl : ∀ p ∈ Table.range s.deadByDeptDue deadRangeStart (deadRangeStop nowMs),
      p.1 ∈ s.deadByDeptDue := fun p hp => Table.mem_of_mem_range hp
  obtain ⟨hsub, hkeys⟩ := collectDeadKeys_eq_ok (fun p hp => by
    obtain ⟨id, q, hq⟩ := hw.deadDue p.1 (hl p hp)
    exact ⟨q.1, q.2, id, hq⟩) h
  exact ⟨hkeys, fun k hk => mem_table_of_sublist hsub hl hk,
    (Table.range_keys_nodup _ _ _).sublist hsub⟩

/-- What a lease has read. -/
theorem collectLeaseableKeys_eq_ok (hw : s.WellFormed) {nowMs : UInt64} {batchLimit : ℕ}
    {dept : Option String} {excluded : Std.ExtTreeSet String} {expired ready : List DueIndexKey}
    (h : s.collectLeaseableKeys nowMs batchLimit dept excluded = .ok (expired, ready)) :
    CollectedDue s.leasedByDeptUntil dept nowMs expired ∧
      CollectedDue s.readyByDeptDue dept nowMs ready := by
  unfold collectLeaseableKeys at h
  dsimp only at h
  cases hexpired : collectDueKeys s.leasedByDeptUntil dept nowMs
      (scanBudget batchLimit excluded.size) with
  | error e => rw [hexpired] at h; cases h
  | ok ks =>
    rw [hexpired] at h
    cases hready : collectDueKeys s.readyByDeptDue dept nowMs
        (scanBudget batchLimit excluded.size) with
    | error e => simp [hready, bind, Except.bind] at h
    | ok rs =>
      simp only [hready, bind, Except.bind] at h
      obtain ⟨rfl, rfl⟩ := Prod.mk.inj (Except.ok.inj h)
      have hk := collectDueKeys_eq_ok (.of_dueFormat hw.leased) hexpired
      refine ⟨?_, collectDueKeys_eq_ok (.of_dueFormat hw.ready) hready⟩
      exact {
        mem := fun k hk' => hk.mem k (List.mem_of_mem_take hk')
        wellFormed := fun k hk' => hk.wellFormed k (List.mem_of_mem_take hk')
        due := fun k hk' => hk.due k (List.mem_of_mem_take hk')
        dept := fun k hk' => hk.dept k (List.mem_of_mem_take hk')
        nodup := hk.nodup.sublist ((List.take_sublist _ _).map _) }

/-- **The read phase.**  What it collects can be relied on later; and at once, if the indexes hold
no leftovers. -/
theorem plan_eq_ok (hs : s.Inv) {call : Call} {t : Txn} (h : s.plan call = .ok (some t)) :
    t.Planned ∧ (s.Clean → t.UpToDate s) := by
  unfold plan at h
  split at h
  case h_3 =>
    split at h
    · cases h
    · dsimp only at h
      split at h
      · cases h
      · obtain rfl := Option.some.inj (Except.ok.inj h)
        exact ⟨trivial, fun _ => trivial⟩
  case h_4 =>
    split at h
    · cases h
    · obtain rfl := Option.some.inj (Except.ok.inj h)
      exact ⟨trivial, fun _ => trivial⟩
  case h_5 nowMs batchLimit leaseDur dept excluded =>
    split at h
    · cases h
    · cases hc : s.collectLeaseableKeys nowMs batchLimit dept excluded with
      | error e => rw [hc] at h; cases h
      | ok p =>
        obtain ⟨expired, ready⟩ := p
        simp only [hc, bind, Except.bind] at h
        split at h
        · cases h
        · obtain rfl := Option.some.inj (Except.ok.inj h)
          obtain ⟨he, hr⟩ := collectLeaseableKeys_eq_ok hs.wellFormed hc
          refine ⟨⟨fun k hk => ⟨he.wellFormed k hk, he.due k hk⟩, hr.wellFormed, ?_⟩, fun hclean =>
            ⟨hr.mem, ?_⟩⟩
          · exact pairwise_deliveryId_ne dueFormat he.mem he.wellFormed he.nodup hs.leased_subsingleton
          · exact pairwise_deliveryId_ne dueFormat hr.mem hr.wellFormed hr.nodup hclean.ready_subsingleton
  case h_6 nowMs leaseDur =>
    cases hn : s.nextDue nowMs with
    | error e => rw [hn] at h; cases h
    | ok next =>
      simp only [hn, bind, Except.bind] at h
      cases next with
      | none => cases h
      | some next =>
        obtain rfl := Option.some.inj (Except.ok.inj h)
        exact ⟨trivial, fun _ => trivial⟩
  case h_10 policy m nowMs batchLimit =>
    split at h
    · cases h
    · cases hc : s.collectDueDeadKeys policy m nowMs batchLimit with
      | error e => rw [hc] at h; cases h
      | ok keys =>
        simp only [hc, bind, Except.bind] at h
        split at h
        · cases h
        · obtain rfl := Option.some.inj (Except.ok.inj h)
          obtain ⟨hwf, hmem, hnodup⟩ := collectDueDeadKeys_eq_ok hs.wellFormed hc
          exact ⟨hwf, fun hclean =>
            ⟨hmem, pairwise_deliveryId_ne deadDueFormat hmem hwf hnodup
              hclean.deadDue_subsingleton⟩⟩
  all_goals
    obtain rfl := Option.some.inj (Except.ok.inj h)
    exact ⟨trivial, fun _ => trivial⟩

/-- A planned lease asks for what its call asked for. -/
theorem plan_lease {nowMs : UInt64} {batchLimit : ℕ} {leaseDur : Duration} {dept : Option String}
    {excluded : Std.ExtTreeSet String} {t : Txn}
    (h : s.plan (.lease nowMs batchLimit leaseDur dept excluded) = .ok (some t)) :
    ∃ expired ready, t = .lease nowMs batchLimit leaseDur dept excluded expired ready := by
  simp only [plan] at h
  split at h
  · cases h
  · cases hc : s.collectLeaseableKeys nowMs batchLimit dept excluded with
    | error e => rw [hc] at h; cases h
    | ok p =>
      simp only [hc, bind, Except.bind] at h
      split at h
      · cases h
      · exact ⟨_, _, (Option.some.inj (Except.ok.inj h)).symm⟩

end Store

/-! ## What was written -/

/-- The events of a delivery in a committed transaction. -/
def Entry.events (e : Entry) : String → List Event :=
  match e.txn, e.reply with
  | .enqueue record, .enqueue outcome => Store.enqueueEvents record outcome e.before
  | .sweep _ _ _ _, .sweep sweep => Store.sweepEvents sweep
  | .lease _ _ _ _ _ _ _, .lease leased => Store.leaseEvents leased
  | .leaseDelivery _ _ _, .leaseDelivery record => Store.leaseEvents record.toList
  | .ack id _, .ack applied => Store.ackEvents id applied e.after
  | .retry id _ _ _ _, .retry outcome => Store.retryEvents id outcome e.after
  | .redrive _ _ _ _, .redrive result => Store.redriveEvents result e.before e.after
  | _, _ => fun _ => []

/-- A transaction that accepted an `enqueue` of a delivery. -/
def Entry.Accepts (e : Entry) (id : String) : Prop :=
  ∃ record, e.txn = .enqueue record ∧ e.reply = .enqueue .accepted ∧ record.val.deliveryId = id

/-- A transaction that granted a lease of a delivery, with its generation. -/
def Entry.Grants (e : Entry) (id : String) (leaseGeneration : UInt64) : Prop :=
  .granted leaseGeneration ∈ e.events id

instance (e : Entry) (id : String) (leaseGeneration : UInt64) :
    Decidable (e.Grants id leaseGeneration) :=
  inferInstanceAs (Decidable (_ ∈ e.events id))

namespace Store

variable {env : Env} {s s' : Store} {reply : Reply}

/-- A transaction that answers with the result of an operation. -/
theorem eq_ok_of_bind {α : Type} {x : Except StoreError (Store × α)} {f : α → Reply}
    (h : (do let (s, a) ← x; return (s, f a) : Except StoreError (Store × Reply)) =
      .ok (s', reply)) : ∃ a, reply = f a ∧ x = .ok (s', a) := by
  cases x with
  | error e => cases h
  | ok p =>
    obtain ⟨rfl, rfl⟩ := Prod.mk.inj (Except.ok.inj h)
    exact ⟨p.2, rfl, rfl⟩

theorem commit_enqueue {record : FreshRecord}
    (h : s.commit env (.enqueue record) = .ok (s', reply)) :
    ∃ outcome, reply = .enqueue outcome ∧ s.enqueue env record.val = .ok (s', outcome) :=
  eq_ok_of_bind h

theorem commit_sweep {queues : Std.ExtTreeSet String} {nowMs : UInt64} {budget : Duration}
    {candidates : List String}
    (h : s.commit env (.sweep queues nowMs budget candidates) = .ok (s', reply)) :
    ∃ sweep, reply = .sweep sweep ∧
      s.sweepSubscriberAbsence env queues nowMs budget candidates = .ok (s', sweep) :=
  eq_ok_of_bind h

theorem commit_renew {renewals : List (String × UInt64)} {leaseUntilMs : UInt64}
    (h : s.commit env (.renew renewals leaseUntilMs) = .ok (s', reply)) :
    ∃ applied, reply = .renew applied ∧ s.renewLeases renewals leaseUntilMs = (s', applied) := by
  obtain ⟨rfl, rfl⟩ := Prod.mk.inj (Except.ok.inj h)
  exact ⟨_, rfl, rfl⟩

theorem commit_lease {nowMs : UInt64} {batchLimit : ℕ} {leaseDur : Duration} {dept : Option String}
    {excluded : Std.ExtTreeSet String} {expired ready : List DueIndexKey}
    (h : s.commit env (.lease nowMs batchLimit leaseDur dept excluded expired ready) =
      .ok (s', reply)) :
    ∃ leased, reply = .lease leased ∧
      s.leaseMatching nowMs batchLimit leaseDur dept excluded expired ready = (s', leased) := by
  obtain ⟨rfl, rfl⟩ := Prod.mk.inj (Except.ok.inj h)
  exact ⟨_, rfl, rfl⟩

theorem commit_leaseDelivery {id : String} {nowMs : UInt64} {leaseDur : Duration}
    (h : s.commit env (.leaseDelivery id nowMs leaseDur) = .ok (s', reply)) :
    ∃ record, reply = .leaseDelivery record ∧
      s.leaseDelivery id nowMs leaseDur = (s', record) := by
  obtain ⟨rfl, rfl⟩ := Prod.mk.inj (Except.ok.inj h)
  exact ⟨_, rfl, rfl⟩

theorem commit_ack {id : String} {g : UInt64} (h : s.commit env (.ack id g) = .ok (s', reply)) :
    ∃ applied, reply = .ack applied ∧ s.ack env id g = (s', applied) := by
  obtain ⟨rfl, rfl⟩ := Prod.mk.inj (Except.ok.inj h)
  exact ⟨_, rfl, rfl⟩

theorem commit_deferLockBusy {id lock : String} {g nowMs : UInt64} {policy : RetryPolicy}
    (h : s.commit env (.deferLockBusy id g lock policy nowMs) = .ok (s', reply)) :
    ∃ outcome, reply = .deferLockBusy outcome ∧
      s.deferLockBusy env id g lock policy nowMs = (s', outcome) := by
  obtain ⟨rfl, rfl⟩ := Prod.mk.inj (Except.ok.inj h)
  exact ⟨_, rfl, rfl⟩

theorem commit_retry {id : String} {g nowMs : UInt64} {failure : RetryFailure}
    {policy : RetryPolicy}
    (h : s.commit env (.retry id g failure policy nowMs) = .ok (s', reply)) :
    ∃ outcome, reply = .retry outcome ∧
      s.retry env id g failure policy nowMs = .ok (s', outcome) :=
  eq_ok_of_bind h

theorem commit_redrive {policy : RedrivePolicy} {m : Option (Table String String)} {nowMs : UInt64}
    {keys : List DueIndexKey} (h : s.commit env (.redrive policy m nowMs keys) = .ok (s', reply)) :
    ∃ result, reply = .redrive result ∧
      s.redriveDueInner env policy m nowMs keys = .ok (s', result) :=
  eq_ok_of_bind h

theorem commit_reopen (h : s.commit env .reopen = .ok (s', reply)) :
    reply = .reopen ∧ s.«open» env = .ok s' := by
  simp only [commit] at h
  cases hopen : s.«open» env with
  | error e => rw [hopen] at h; cases h
  | ok s₁ =>
    rw [hopen] at h
    obtain ⟨rfl, rfl⟩ := Prod.mk.inj (Except.ok.inj h)
    exact ⟨rfl, rfl⟩

/-- **Every committed transaction moves every delivery along its life.** -/
theorem commit_effect (hs : s.Inv) {t : Txn} (ht : t.Planned)
    (h : s.commit env t = .ok (s', reply)) :
    Effect env t (Entry.events ⟨s, t, reply, s'⟩) (t.UpToDate s) s s' := by
  cases t with
  | enqueue record =>
    obtain ⟨outcome, rfl, hrun⟩ := commit_enqueue h
    exact enqueue_effect hs hrun
  | rebind currentDeptByQueue =>
    obtain ⟨rfl, rfl⟩ := Prod.mk.inj (Except.ok.inj h)
    exact rebind_effect hs currentDeptByQueue
  | sweep queues nowMs budget candidates =>
    obtain ⟨sweep, rfl, hrun⟩ := commit_sweep h
    exact sweep_effect hs hrun
  | renew renewals leaseUntilMs =>
    obtain ⟨rfl, rfl⟩ := Prod.mk.inj (Except.ok.inj h)
    exact renew_effect hs renewals leaseUntilMs
  | lease nowMs batchLimit leaseDur dept excluded expired ready =>
    obtain ⟨leased, rfl, hrun⟩ := commit_lease h
    exact lease_effect hs ⟨nowMs, batchLimit, leaseDur, dept, excluded, expired, ready⟩ ht.1 ht.2.1
      hrun
  | leaseDelivery id nowMs leaseDur =>
    obtain ⟨record, rfl, hrun⟩ := commit_leaseDelivery h
    exact leaseDelivery_effect hs hrun
  | ack id g =>
    obtain ⟨applied, rfl, hrun⟩ := commit_ack h
    exact ack_effect hs hrun
  | deferLockBusy id g lock policy nowMs =>
    obtain ⟨outcome, rfl, hrun⟩ := commit_deferLockBusy h
    exact deferLockBusy_effect hs hrun
  | retry id g failure policy nowMs =>
    obtain ⟨outcome, rfl, hrun⟩ := commit_retry h
    exact retry_effect hs hrun
  | redrive policy m nowMs dueKeys =>
    obtain ⟨result, rfl, hrun⟩ := commit_redrive h
    exact (redrive_spec hs ⟨policy, m, nowMs, dueKeys⟩ ht hrun).1
  | reopen =>
    rw [commit, open_current env hs.wellFormed.version] at h
    obtain ⟨rfl, rfl⟩ := Prod.mk.inj (Except.ok.inj h)
    exact Effect.refl hs

/-! ## Atomic runs -/

theorem perform_inv (env : Env) (call : Call) (hs : s.Inv) (hc : s.Clean) :
    (s.perform env call).Inv ∧ (s.perform env call).Clean := by
  unfold perform
  split
  · rename_i t hplan
    split
    · rename_i s' reply hcommit
      obtain ⟨hplanned, hfresh⟩ := plan_eq_ok hs hplan
      have heffect := commit_effect hs hplanned hcommit
      exact ⟨heffect.inv, heffect.clean (hfresh hc) hc⟩
    · exact ⟨hs, hc⟩
  · exact ⟨hs, hc⟩

/-- **The invariant of atomic runs.**  No index ever holds a leftover. -/
theorem run_inv (env : Env) : ∀ (calls : List Call) {s : Store}, s.Inv → s.Clean →
    (s.run env calls).Inv ∧ (s.run env calls).Clean
  | [], _, hs, hc => ⟨hs, hc⟩
  | call :: calls, _, hs, hc => by
    obtain ⟨hs', hc'⟩ := perform_inv env call hs hc
    exact run_inv env calls hs' hc'

end Store

/-! ## Overlapping runs -/

/-- A transaction that was committed, on tables as the store writes them. -/
structure Entry.Committed (env : Env) (e : Entry) : Prop where
  inv : e.before.Inv
  planned : e.txn.Planned
  commit : e.before.commit env e.txn = .ok (e.after, e.reply)

namespace Entry.Committed

variable {env : Env} {e : Entry}

theorem effect (h : e.Committed env) :
    Effect env e.txn e.events (e.txn.UpToDate e.before) e.before e.after :=
  Store.commit_effect h.inv h.planned h.commit

/-- What the transaction did to a delivery. -/
theorem moves (h : e.Committed env) (id : String) :
    Moves env id e.txn (e.events id) (e.before.view id) (e.after.view id) :=
  h.effect.moves id

/-- The reply of an `ack` that did something. -/
theorem reply_ack (h : e.Committed env) {id : String} {g : UInt64} (ht : e.txn = .ack id g)
    (hl : e.events id ≠ []) : e.reply = .ack true := by
  obtain ⟨before, txn, reply, after⟩ := e
  obtain rfl : txn = _ := ht
  obtain ⟨applied, rfl, _⟩ := Store.commit_ack h.commit
  cases applied with
  | true => rfl
  | false => simp [Entry.events, Store.ackEvents, eventsAt] at hl

/-- The reply of a redrive, and what the redrive did to the deliveries. -/
theorem redrive (h : e.Committed env) {policy : RedrivePolicy} {m : Option (Table String String)}
    {nowMs : UInt64} {keys : List DueIndexKey} (ht : e.txn = .redrive policy m nowMs keys) :
    ∃ result, e.reply = .redrive result ∧
      e.events = Store.redriveEvents result e.before e.after ∧
      (∀ id, (∃ p ∈ result.permanent, p.deliveryId = id) ↔
        (.killed ∈ e.events id ∨ .killedFollowedUp ∈ e.events id)) ∧
      ∀ id, Store.Redriven policy nowMs (e.before.view id) (e.events id) (e.after.view id) := by
  have hmoves := h.moves
  obtain ⟨before, txn, reply, after⟩ := e
  obtain rfl : txn = _ := ht
  obtain ⟨result, rfl, hrun⟩ := Store.commit_redrive h.commit
  have hspec := Store.redrive_spec h.inv ⟨policy, m, nowMs, keys⟩ h.planned hrun
  exact ⟨result, rfl, rfl, hspec.2, fun id => Store.moves_redrive (hmoves id)⟩

end Entry.Committed

namespace World

/-- The invariant of overlapping runs. -/
structure Inv (w : World) : Prop where
  store : w.store.Inv
  planned : ∀ t ∈ w.pending, t.Planned

theorem inv_init : Inv init := ⟨Store.inv_empty, by simp [init]⟩

/-- What an act does: it leaves the tables alone and commits nothing, or it commits a transaction
that was under way. -/
theorem step_cases (env : Env) {w : World} (hw : w.Inv) (a : Act) :
    (w.step env a).1.Inv ∧
      (((w.step env a).2 = none ∧ (w.step env a).1.store = w.store) ∨
        ∃ e, (w.step env a).2 = some e ∧ e.Committed env ∧ e.before = w.store ∧
          e.after = (w.step env a).1.store) := by
  cases a with
  | start call =>
    unfold step
    dsimp only
    split
    · rename_i t hplan
      refine ⟨⟨hw.store, fun t' ht' => ?_⟩, Or.inl ⟨rfl, rfl⟩⟩
      rcases List.mem_append.1 ht' with ht' | ht'
      · exact hw.planned t' ht'
      · obtain rfl := List.mem_singleton.1 ht'
        exact (Store.plan_eq_ok hw.store hplan).1
    · exact ⟨hw, Or.inl ⟨rfl, rfl⟩⟩
  | finish i =>
    unfold step
    dsimp only
    split
    · exact ⟨hw, Or.inl ⟨rfl, rfl⟩⟩
    · rename_i t ht
      have hplanned := hw.planned t (List.mem_of_getElem? ht)
      have hrest : ∀ t' ∈ w.pending.eraseIdx i, t'.Planned :=
        fun t' ht' => hw.planned t' (List.mem_of_mem_eraseIdx ht')
      split
      · rename_i s reply hcommit
        have he : Entry.Committed env ⟨w.store, t, reply, s⟩ := ⟨hw.store, hplanned, hcommit⟩
        exact ⟨⟨he.effect.inv, hrest⟩, Or.inr ⟨_, rfl, he, rfl, rfl⟩⟩
      · exact ⟨⟨hw.store, hrest⟩, Or.inl ⟨rfl, rfl⟩⟩

/-- **What every committed transaction preserves, holds after every run.**  The property may speak
about the history so far. -/
theorem run_induction {env : Env} {P : Store → List Entry → Prop}
    (hstep : ∀ h e, e.Committed env → P e.before h → P e.after (h ++ [e])) {w : World} (hw : w.Inv)
    {h : List Entry} (h0 : P w.store h) (acts : List Act) :
    (w.run env acts).1.Inv ∧ P (w.run env acts).1.store (h ++ (w.run env acts).2) := by
  refine Machine.run_induction (P := fun w h => Inv w ∧ P w.store h) ?_ acts ⟨hw, h0⟩
  rintro w h a ⟨hw, hP⟩
  obtain ⟨hw', ⟨hnone, hstore⟩ | ⟨e, he, hcommitted, hbefore, hafter⟩⟩ :=
    step_cases env hw a
  · rw [hnone, hstore]
    exact ⟨hw', by simpa using hP⟩
  · rw [he, ← hafter]
    exact ⟨hw', hstep h e hcommitted (hbefore ▸ hP)⟩

/-- **What every committed transaction preserves, holds before and after every transaction of a
run.** -/
theorem run_induction_mem {env : Env} {P : Store → List Entry → Prop}
    (hstep : ∀ h e, e.Committed env → P e.before h → P e.after (h ++ [e])) (h0 : P .empty [])
    (acts : List Act) {h₁ h₂ : List Entry} {e : Entry}
    (heq : (init.run env acts).2 = h₁ ++ e :: h₂) :
    e.Committed env ∧ P e.before h₁ ∧ P e.after (h₁ ++ [e]) := by
  have hmem : ∀ h e', e'.Committed env → (P e'.before h ∧ ∀ h₁ e h₂, h = h₁ ++ e :: h₂ →
      e.Committed env ∧ P e.before h₁ ∧ P e.after (h₁ ++ [e])) →
      P e'.after (h ++ [e']) ∧ ∀ h₁ e h₂, h ++ [e'] = h₁ ++ e :: h₂ →
        e.Committed env ∧ P e.before h₁ ∧ P e.after (h₁ ++ [e]) := by
    rintro h e' he' ⟨hP, hall⟩
    have hnext := hstep h e' he' hP
    refine ⟨hnext, fun h₁ e h₂ heq => ?_⟩
    rcases split_concat heq with ⟨rfl, rfl, _⟩ | ⟨h₃, _, hold⟩
    · exact ⟨he', hP, hnext⟩
    · exact hall h₁ e h₃ hold
  have hrun := run_induction (P := fun s h => P s h ∧ ∀ h₁ e h₂, h = h₁ ++ e :: h₂ →
    e.Committed env ∧ P e.before h₁ ∧ P e.after (h₁ ++ [e])) hmem inv_init (h := [])
    ⟨h0, by simp⟩ acts
  exact hrun.2.2 h₁ e h₂ (by rw [List.nil_append, heq])

/-- A call that starts and finishes while nothing else happens. -/
theorem run_call {env : Env} {w : World} {call : Call} {t : Txn} {s : Store} {reply : Reply}
    (hplan : w.store.plan call = .ok (some t)) (hcommit : w.store.commit env t = .ok (s, reply)) :
    (w.run env [.start call, .finish w.pending.length]).2 = [⟨w.store, t, reply, s⟩] := by
  have hstart : w.step env (.start call) = (⟨w.store, w.pending ++ [t]⟩, none) := by
    simp only [step, hplan]
  have hfinish : step env ⟨w.store, w.pending ++ [t]⟩ (.finish w.pending.length) =
      (⟨s, w.pending⟩, some ⟨w.store, t, reply, s⟩) := by
    simp [step, hcommit, List.eraseIdx_append_of_length_le]
  simp [run, Machine.run_cons, hstart, hfinish]

/-- **The invariant of overlapping runs.** -/
theorem run_inv (env : Env) (acts : List Act) : (init.run env acts).1.Inv :=
  (run_induction (P := fun _ _ => True) (fun _ _ _ _ => trivial) inv_init (h := []) trivial acts).1

/-- Everything in the history of a run was committed on tables as the store writes them. -/
theorem committed_of_mem {env : Env} (acts : List Act) {e : Entry}
    (he : e ∈ (init.run env acts).2) : e.Committed env := by
  have h := run_induction (P := fun _ h => ∀ e ∈ h, e.Committed env) (fun h e hc hP e' he' => by
    rcases List.mem_append.1 he' with he' | he'
    · exact hP e' he'
    · exact List.mem_singleton.1 he' ▸ hc) inv_init (h := []) (by simp) acts
  exact h.2 e (by simpa using he)

end World

end Fkst.Delivery
