import Fkst.Delivery.Runs

/-!
# Fencing by lease generation

Whoever executes a delivery holds its id and the generation of its lease, and shows both when it
reports back.  The store accepts the report if the row is leased with that generation.

A generation is never granted twice on the same row, so this tells executions apart as long as the
row lives.  But the generation is part of the row: when the row is gone and the id is enqueued
again, generations start over, and a report from before then passes for one from after
(`stale_ack_takes_effect`).  The theorem of this file says that this is the only way for a stale
report to be accepted, up to a dead letter that comes back with an old generation.
-/

set_option autoImplicit false

namespace Fkst.Delivery

open Lib

/-! ## Reports -/

/-- An execution that holds generation `g` of the delivery reported back, and the store accepted
the report. -/
def Entry.TakesEffect (e : Entry) (id : String) (g : UInt64) : Prop :=
  match e.txn, e.reply with
  | .ack id' g', .ack applied => id' = id ∧ g' = g ∧ applied = true
  | .deferLockBusy id' g' _ _ _, .deferLockBusy outcome =>
    id' = id ∧ g' = g ∧ outcome = .scheduled
  | .retry id' g' _ _ _, .retry outcome =>
    id' = id ∧ g' = g ∧ outcome ≠ .stale ∧ outcome ≠ .missing
  | .renew renewals _, .renew applied =>
    (id, g) ∈ renewals ∧ ∃ r, applied[id]? = some r ∧ r.leaseGeneration = g
  | _, _ => False

/-- A transaction in which executions report back. -/
def Entry.IsReport (e : Entry) : Prop :=
  match e.txn with
  | .ack _ _ => True
  | .deferLockBusy _ _ _ _ _ => True
  | .retry _ _ _ _ _ => True
  | .renew _ _ => True
  | _ => False

/-- The transaction gives the delivery a new row with a generation below `g`: it inserts a fresh
one, or it makes one from a dead letter whose record has an older generation. -/
def Entry.StartsOver (e : Entry) (id : String) (g : UInt64) : Prop :=
  .inserted ∈ e.events id ∨
    ∃ d r, e.before.deadById[id]? = some d ∧ d.record = some r ∧
      (.redriven ∈ e.events id ∧ saturatingAdd r.leaseGeneration 1 < g ∨
        .killedFollowedUp ∈ e.events id ∧ r.leaseGeneration < g)

/-- The delivery is leased with generation `g`. -/
def View.HeldWith (g : UInt64) (v : View) : Prop :=
  ∃ r u, v.live = some r ∧ r.leaseUntilMs = some u ∧ r.leaseGeneration = g

/-- Generation `g` of the delivery was granted and is not held any more, nor will it be again. -/
def View.Past (g : UInt64) (v : View) : Prop :=
  ∀ r, v.live = some r →
    g < r.leaseGeneration ∨ r.leaseGeneration = g ∧ r.leaseUntilMs = none

/-! ## One delivery in one transaction -/

section Moves

variable {env : Env} {id : String} {t : Txn} {l : List Event} {v v' : View} {g : UInt64}

theorem View.Past.not_heldWith (h : v.Past g) : ¬ v.HeldWith g := by
  rintro ⟨r, u, hr, hu, hg⟩
  rcases h r hr with hlt | ⟨_, hnone⟩
  · rw [hg] at hlt
    exact absurd hlt (UInt64.lt_irrefl g)
  · rw [hu] at hnone
    cases hnone

/-- A row whose generation is at least `g`, and which is leased only if it is above. -/
theorem View.Past.withLive {r : DeliveryRecord} {d : Option DeadRecord} {p : Bool}
    (h : g < r.leaseGeneration ∨ r.leaseGeneration = g ∧ r.leaseUntilMs = none) :
    View.Past g ⟨some r, d, p⟩ :=
  fun _ hr => Option.some.inj hr ▸ h

theorem View.past_of_none (h : v.live = none) : v.Past g := by
  intro r hr
  rw [h] at hr
  cases hr

theorem View.Past.le (h : v.Past g) {r : DeliveryRecord} (hr : v.live = some r) :
    g ≤ r.leaseGeneration := by
  rcases h r hr with hlt | ⟨heq, _⟩
  · exact UInt64.le_of_lt hlt
  · exact UInt64.le_of_eq heq.symm

/-- A row that is leased in the past of `g` is above `g`. -/
theorem View.Past.lt (h : v.Past g) {r : DeliveryRecord} {u : UInt64} (hr : v.live = some r)
    (hu : r.leaseUntilMs = some u) : g < r.leaseGeneration := by
  rcases h r hr with hlt | ⟨_, hnone⟩
  · exact hlt
  · rw [hu] at hnone
    cases hnone

/-- A leased row is rewritten with its generation. -/
theorem View.Past.rewrite (h : v.Past g) {r r' : DeliveryRecord} {u : UInt64}
    {d : Option DeadRecord} {p : Bool} (hr : v.live = some r) (hu : r.leaseUntilMs = some u)
    (hg : r'.leaseGeneration = r.leaseGeneration) : View.Past g ⟨some r', d, p⟩ :=
  .withLive (Or.inl (hg ▸ h.lt hr hu))

/-- What is past stays past, unless a row is inserted. -/
theorem Move.past {o : Option Event} (hmax : g < u64Max)
    (hredrive : ∀ policy m nowMs keys, t ≠ .redrive policy m nowMs keys)
    (hm : Move env id t o v v') (hinsert : o ≠ some .inserted) (h : v.Past g) : v'.Past g := by
  cases hm with
  | insert => exact absurd rfl hinsert
  | redrive policy m nowMs keys => exact absurd rfl (hredrive policy m nowMs keys)
  | kill policy m nowMs keys => exact absurd rfl (hredrive policy m nowMs keys)
  | killFollowUp policy m nowMs keys => exact absurd rfl (hredrive policy m nowMs keys)
  | mark _ hlive hlease => exact h.rewrite hlive hlease rfl
  | reset _ hlive hlease => exact h.rewrite hlive hlease rfl
  | @rebind _ r m newDept hlive =>
    refine .withLive ?_
    cases hu : r.leaseUntilMs with
    | none => simpa [DeliveryRecord.rebound, hu] using h r hlive
    | some u =>
      have hlt := UInt64.lt_of_lt_of_le (h.lt hlive hu) (le_saturatingAdd r.leaseGeneration 1)
      exact Or.inl (by simpa [DeliveryRecord.rebound, hu] using hlt)
  | absence _ _ _ _ _ hlive =>
    have hrow := h _ hlive
    exact .withLive hrow
  | sweep => exact View.past_of_none rfl
  | renew _ _ hlive hlease => exact h.rewrite hlive hlease rfl
  | grant _ _ _ _ _ _ _ hlive =>
    have hle := h.le hlive
    exact .withLive (Or.inl (lt_saturatingAdd_one hle hmax))
  | grantNext _ _ hlive =>
    have hle := h.le hlive
    exact .withLive (Or.inl (lt_saturatingAdd_one hle hmax))
  | ack => exact View.past_of_none rfl
  | ackFollowUp hlive hlease hdirty =>
    obtain ⟨_, _, rfl⟩ := prepareDirtyFollowUp_eq_some hdirty
    exact h.rewrite hlive hlease rfl
  | defer _ _ _ hlive hlease => exact h.rewrite hlive hlease rfl
  | retry _ _ _ _ hlive hlease => exact h.rewrite hlive hlease rfl
  | deadLetter => exact View.past_of_none rfl
  | terminate => exact View.past_of_none rfl
  | terminateFollowUp _ _ _ hlive hlease _ _ hdirty =>
    obtain ⟨_, _, rfl⟩ := prepareDirtyFollowUp_eq_some hdirty
    exact h.rewrite hlive hlease rfl
  | compact => exact h

/-- What is held stays held and is not granted, or it becomes past. -/
theorem Move.held {o : Option Event} (hmax : g < u64Max)
    (hredrive : ∀ policy m nowMs keys, t ≠ .redrive policy m nowMs keys)
    (hm : Move env id t o v v') (h : v.HeldWith g) :
    (v'.HeldWith g ∧ ∀ g', o ≠ some (.granted g')) ∨ v'.Past g := by
  obtain ⟨r, u, hr, hu, rfl⟩ := h
  have hsame : ∀ {r' : DeliveryRecord}, v.live = some r' → r' = r := fun hr' =>
    Option.some.inj (hr'.symm.trans hr)
  cases hm with
  | insert _ _ hlive =>
    rw [hr] at hlive
    cases hlive
  | redrive policy m nowMs keys => exact absurd rfl (hredrive policy m nowMs keys)
  | kill policy m nowMs keys => exact absurd rfl (hredrive policy m nowMs keys)
  | killFollowUp policy m nowMs keys => exact absurd rfl (hredrive policy m nowMs keys)
  | mark _ hlive _ _ =>
    obtain rfl := hsame hlive
    exact Or.inl ⟨⟨_, u, rfl, hu, rfl⟩, by simp⟩
  | reset _ hlive =>
    obtain rfl := hsame hlive
    exact Or.inr (.withLive (Or.inr ⟨rfl, rfl⟩))
  | rebind _ _ hlive =>
    obtain rfl := hsame hlive
    refine Or.inr (.withLive (Or.inl ?_))
    simpa [DeliveryRecord.rebound, hu] using lt_saturatingAdd_one (UInt64.le_refl _) hmax
  | absence _ _ _ _ _ hlive =>
    obtain rfl := hsame hlive
    exact Or.inl ⟨⟨_, u, rfl, hu, rfl⟩, by simp⟩
  | sweep => exact Or.inr (View.past_of_none rfl)
  | renew _ _ hlive =>
    obtain rfl := hsame hlive
    exact Or.inl ⟨⟨_, _, rfl, rfl, rfl⟩, by simp⟩
  | grant _ _ _ _ _ _ _ hlive =>
    obtain rfl := hsame hlive
    exact Or.inr (.withLive (Or.inl (lt_saturatingAdd_one (UInt64.le_refl _) hmax)))
  | grantNext _ _ hlive =>
    obtain rfl := hsame hlive
    exact Or.inr (.withLive (Or.inl (lt_saturatingAdd_one (UInt64.le_refl _) hmax)))
  | ack => exact Or.inr (View.past_of_none rfl)
  | ackFollowUp hlive _ hdirty =>
    obtain rfl := hsame hlive
    obtain ⟨_, _, rfl⟩ := prepareDirtyFollowUp_eq_some hdirty
    exact Or.inr (.withLive (Or.inr ⟨rfl, rfl⟩))
  | defer _ _ _ hlive =>
    obtain rfl := hsame hlive
    exact Or.inr (.withLive (Or.inr ⟨rfl, rfl⟩))
  | retry _ _ _ _ hlive =>
    obtain rfl := hsame hlive
    exact Or.inr (.withLive (Or.inr ⟨rfl, rfl⟩))
  | deadLetter => exact Or.inr (View.past_of_none rfl)
  | terminate => exact Or.inr (View.past_of_none rfl)
  | terminateFollowUp _ _ _ hlive _ _ _ hdirty =>
    obtain rfl := hsame hlive
    obtain ⟨_, _, rfl⟩ := prepareDirtyFollowUp_eq_some hdirty
    exact Or.inr (.withLive (Or.inr ⟨rfl, rfl⟩))
  | compact => exact Or.inl ⟨⟨r, u, hr, hu, rfl⟩, by simp⟩

/-- Only a lease grants. -/
theorem Moves.lease_of_granted (h : Moves env id t l v v') (hg : .granted g ∈ l) :
    (∃ nowMs batchLimit leaseDur dept excluded expired ready,
      t = .lease nowMs batchLimit leaseDur dept excluded expired ready) ∨
      ∃ nowMs leaseDur, t = .leaseDelivery id nowMs leaseDur := by
  by_contra hnot
  rw [not_or] at hnot
  refine h.preserves (P := fun l _ => .granted g ∉ l) ?_ (by simp) hg
  intro l o w w' hw hm
  cases hm with
  | grant nowMs batchLimit leaseDur dept excluded expired ready =>
    exact absurd ⟨_, _, _, _, _, _, _, rfl⟩ hnot.1
  | grantNext nowMs leaseDur => exact absurd ⟨_, _, rfl⟩ hnot.2
  | _ => simpa using hw

/-- A transaction that had no event left the row alone, if its moves without an event do. -/
theorem Moves.live_eq (hquiet : ∀ w w', Move env id t none w w' → w'.live = w.live)
    (h : Moves env id t l v v') (hl : l = []) : v'.live = v.live := by
  refine h.preserves (P := fun l w => l = [] → w.live = v.live) ?_ (fun _ => rfl) hl
  intro l o w w' hw hm hnil
  obtain ⟨rfl, ho⟩ := List.append_eq_nil_iff.1 hnil
  cases o with
  | none => exact (hquiet w w' hm).trans (hw rfl)
  | some event => simp at ho

/-- A transaction that is no redrive and inserts no row. -/
theorem Moves.fence (hmax : g < u64Max)
    (hredrive : ∀ policy m nowMs keys, t ≠ .redrive policy m nowMs keys)
    (h : Moves env id t l v v') (hinsert : .inserted ∉ l) :
    (v.Past g → v'.Past g) ∧
      (v.HeldWith g → (v'.HeldWith g ∧ ∀ g', .granted g' ∉ l) ∨ v'.Past g) := by
  constructor
  · intro hv
    refine h.preserves (P := fun l w => .inserted ∉ l → w.Past g) ?_ (fun _ => hv) hinsert
    intro l o w w' hw hm hnot
    rw [List.mem_append, not_or] at hnot
    exact hm.past hmax hredrive (fun ho => hnot.2 (by simp [ho])) (hw hnot.1)
  · intro hv
    refine h.preserves (P := fun l w => .inserted ∉ l →
      (w.HeldWith g ∧ ∀ g', .granted g' ∉ l) ∨ w.Past g) ?_ (fun _ => Or.inl ⟨hv, by simp⟩) hinsert
    intro l o w w' hw hm hnot
    rw [List.mem_append, not_or] at hnot
    rcases hw hnot.1 with ⟨hheld, hnone⟩ | hpast
    · rcases hm.held hmax hredrive hheld with ⟨hheld', ho⟩ | hpast
      · refine Or.inl ⟨hheld', fun g' hg' => ?_⟩
        rcases List.mem_append.1 hg' with hg' | hg'
        · exact hnone g' hg'
        · exact ho g' (by simpa using hg')
      · exact Or.inr hpast
    · exact Or.inr (hm.past hmax hredrive (fun ho => hnot.2 (by simp [ho])) hpast)

end Moves

/-! ## Reports and leases -/

namespace Store

variable {env : Env} {s s' : Store} {id : String} {g : UInt64}

/-- An acknowledgement is accepted from the holder of the lease. -/
theorem ack_eq_true (h : s.ack env id g = (s', true)) : (s.view id).HeldWith g := by
  unfold ack at h
  split at h
  · cases h
  · rename_i r hr
    split at h
    · rename_i hg
      split at h
      · cases h
      · rename_i u hu
        exact ⟨r, u, hr, hu, hg⟩
    · cases h

/-- A deferral is accepted from the holder of the lease, and otherwise changes nothing. -/
theorem deferLockBusy_cases {lock : String} {policy : RetryPolicy} {nowMs : UInt64}
    {outcome : LockBusyDeferOutcome}
    (h : s.deferLockBusy env id g lock policy nowMs = (s', outcome)) :
    (outcome = .scheduled ∧ (s.view id).HeldWith g) ∨ (outcome ≠ .scheduled ∧ s' = s) := by
  unfold deferLockBusy at h
  split at h
  · obtain ⟨rfl, rfl⟩ := Prod.mk.inj h
    exact Or.inr ⟨by simp, rfl⟩
  · rename_i r hr
    split at h
    · obtain ⟨rfl, rfl⟩ := Prod.mk.inj h
      exact Or.inr ⟨by simp, rfl⟩
    · rename_i u hu
      split at h
      · rename_i hg
        obtain ⟨_, rfl⟩ := Prod.mk.inj h
        exact Or.inl ⟨rfl, r, u, hr, hu, hg⟩
      · obtain ⟨rfl, rfl⟩ := Prod.mk.inj h
        exact Or.inr ⟨by simp, rfl⟩

/-- A failure is accepted from the holder of the lease. -/
theorem retry_heldWith {failure : RetryFailure} {policy : RetryPolicy} {nowMs : UInt64}
    {outcome : RetryOutcome} (h : s.retry env id g failure policy nowMs = .ok (s', outcome))
    (hstale : outcome ≠ .stale) (hmissing : outcome ≠ .missing) : (s.view id).HeldWith g := by
  have hcompacted : ∀ {o : RetryOutcome}, (do
      let p ← s.compactTerminalDeadRecords env nowMs
      return (p.1, o) : Except StoreError (Store × RetryOutcome)) = .ok (s', outcome) →
      outcome = o := by
    intro o h
    cases hc : s.compactTerminalDeadRecords env nowMs with
    | error e => rw [hc] at h; cases h
    | ok p =>
      rw [hc] at h
      exact (Prod.mk.inj (Except.ok.inj h)).2.symm
  unfold retry at h
  dsimp only at h
  split at h
  · exact absurd (hcompacted h) hmissing
  · rename_i r hr
    split at h
    · obtain ⟨_, rfl⟩ := Prod.mk.inj (Except.ok.inj h)
      exact absurd rfl hstale
    · rename_i u hu
      split at h
      · exact absurd (hcompacted h) hstale
      · rename_i hg
        exact ⟨r, u, hr, hu, Decidable.not_not.1 hg⟩

/-- What a renewal leaves of the row of a delivery, and what it reports of it. -/
def Renewed (renewals : List (String × UInt64)) (leaseUntilMs : UInt64) (j : String)
    (row row' reported reported' : Option DeliveryRecord) : Prop :=
  (reported' = reported ∧ row' = row ∧
    ∀ r u, row = some r → r.leaseUntilMs = some u → (j, r.leaseGeneration) ∉ renewals) ∨
  ∃ r u, row = some r ∧ r.leaseUntilMs = some u ∧ (j, r.leaseGeneration) ∈ renewals ∧
    reported' = some { r with leaseUntilMs := some leaseUntilMs } ∧
    row' = some { r with leaseUntilMs := some leaseUntilMs }

/-- A renewal that does not concern the delivery. -/
theorem Renewed.cons {renewals : List (String × UInt64)} {leaseUntilMs : UInt64} {j : String}
    {row row' reported reported' : Option DeliveryRecord} {renewal : String × UInt64}
    (hskip : ∀ r u, row = some r → r.leaseUntilMs = some u → (j, r.leaseGeneration) ≠ renewal)
    (h : Renewed renewals leaseUntilMs j row row' reported reported') :
    Renewed (renewal :: renewals) leaseUntilMs j row row' reported reported' := by
  rcases h with ⟨hrep, hrow, hnot⟩ | ⟨r, u, hr, hu, hmem, hrest⟩
  · refine Or.inl ⟨hrep, hrow, fun r u hr hu hmem => ?_⟩
    rcases List.mem_cons.1 hmem with heq | hmem
    · exact hskip r u hr hu heq
    · exact hnot r u hr hu hmem
  · exact Or.inr ⟨r, u, hr, hu, List.mem_cons_of_mem _ hmem, hrest⟩

/-- A batch of renewals renews the rows that are leased with the generation shown, and leaves the
others as they are. -/
theorem renewRows_spec {leaseUntilMs : UInt64} (j : String) :
    ∀ {renewals : List (String × UInt64)} {s s' : Store} {applied applied' : Table String DeliveryRecord},
      renewRows leaseUntilMs renewals s applied = (s', applied') →
      Renewed renewals leaseUntilMs j s.deliveryById[j]? s'.deliveryById[j]? applied[j]? applied'[j]?
  | [], s, s', applied, applied', h => by
    obtain ⟨rfl, rfl⟩ := Prod.mk.inj h
    exact Or.inl ⟨rfl, rfl, by simp⟩
  | (id, g) :: renewals, s, s', applied, applied', h => by
    rw [renewRows] at h
    split at h
    · rename_i hnone
      refine (renewRows_spec j h).cons ?_
      rintro r u hr hu ⟨⟩
      rw [hnone] at hr
      cases hr
    · rename_i r hr
      split at h
      · rename_i hnone
        refine (renewRows_spec j h).cons ?_
        rintro r' u hr' hu ⟨⟩
        obtain rfl := Option.some.inj (hr.symm.trans hr')
        rw [hnone] at hu
        cases hu
      · rename_i u hu
        split at h
        · rename_i hg
          refine (renewRows_spec j h).cons ?_
          rintro r' u hr' hu ⟨⟩
          obtain rfl := Option.some.inj (hr.symm.trans hr')
          exact hg rfl
        · rename_i hg
          obtain rfl := Decidable.not_not.1 hg
          have hrest := renewRows_spec j h
          dsimp only [insertLeased, insertDelivery, removeLeased] at hrest
          rw [Table.get_insert, Table.get_insert] at hrest
          by_cases hj : j = id
          · subst hj
            rw [if_pos rfl, if_pos rfl] at hrest
            refine Or.inr ⟨r, u, hr, hu, by simp, ?_⟩
            rcases hrest with ⟨hrep, hrow, _⟩ | ⟨r₁, u₁, hr₁, _, _, hrep, hrow⟩
            · exact ⟨hrep, hrow⟩
            · obtain rfl := Option.some.inj hr₁
              exact ⟨hrep, hrow⟩
          · rw [if_neg hj, if_neg hj] at hrest
            refine hrest.cons ?_
            intro _ _ _ _ heq
            exact hj (Prod.mk.inj heq).1

/-- `renew_leases` renews the rows that are leased with the generation shown, and reports them. -/
theorem renewLeases_row {renewals : List (String × UInt64)} {leaseUntilMs : UInt64}
    {applied : Table String DeliveryRecord} (h : s.renewLeases renewals leaseUntilMs = (s', applied))
    (j : String) :
    Renewed renewals leaseUntilMs j s.deliveryById[j]? s'.deliveryById[j]? none applied[j]? := by
  unfold renewLeases at h
  cases hrows : renewRows leaseUntilMs renewals s ∅ with
  | mk s1 applied1 =>
    rw [hrows] at h
    have hspec := renewRows_spec j hrows
    rw [Std.ExtTreeMap.getElem?_empty] at hspec
    dsimp only at h
    split at h
    · rename_i hempty
      obtain ⟨rfl, rfl⟩ := Prod.mk.inj h
      rw [Std.ExtTreeMap.isEmpty_iff.1 hempty, Std.ExtTreeMap.getElem?_empty] at hspec ⊢
      rcases hspec with ⟨_, _, hnot⟩ | ⟨_, _, _, _, _, hrep, _⟩
      · exact Or.inl ⟨rfl, rfl, hnot⟩
      · cases hrep
    · obtain ⟨rfl, rfl⟩ := Prod.mk.inj h
      exact hspec

theorem renewLeases_spec {renewals : List (String × UInt64)} {leaseUntilMs : UInt64}
    {applied : Table String DeliveryRecord} (h : s.renewLeases renewals leaseUntilMs = (s', applied))
    (j : String) :
    (applied[j]? = none ∧ s'.deliveryById[j]? = s.deliveryById[j]?) ∨
      ∃ r', applied[j]? = some r' ∧ (s.view j).HeldWith r'.leaseGeneration ∧
        (j, r'.leaseGeneration) ∈ renewals := by
  rcases renewLeases_row h j with ⟨hnone, hsame, _⟩ | ⟨r, u, hr, hu, hmem, hrep, _⟩
  · exact Or.inl ⟨hnone, hsame⟩
  · exact Or.inr ⟨_, hrep, ⟨r, u, hr, hu, rfl⟩, hmem⟩

end Store

namespace Entry.Committed

variable {env : Env} {e : Entry} {id : String} {g : UInt64}

/-- A granted delivery is leased with the generation that was granted. -/
theorem heldWith_of_grants (h : e.Committed env) (hg : e.Grants id g) :
    (e.after.view id).HeldWith g := by
  have hlease := (h.moves id).lease_of_granted hg
  obtain ⟨before, txn, reply, after⟩ := e
  have hleased : ∀ {leased : List DeliveryRecord}, .granted g ∈ Store.leaseEvents leased id →
      ∃ r ∈ leased, r.deliveryId = id ∧ r.leaseGeneration = g := by
    intro leased hg
    obtain ⟨r, hr, hgen⟩ := List.mem_map.1 hg
    obtain ⟨hr, hid⟩ := List.mem_filter.1 hr
    exact ⟨r, hr, by simpa using hid, Event.granted.inj hgen⟩
  rcases hlease with ⟨nowMs, batchLimit, leaseDur, dept, excluded, expired, ready, rfl⟩ |
    ⟨nowMs, leaseDur, rfl⟩
  · obtain ⟨leased, rfl, hrun⟩ := Store.commit_lease h.commit
    obtain ⟨r, hr, rfl, rfl⟩ := hleased hg
    obtain ⟨_, _, hrows⟩ := Store.leaseMatching_spec h.inv
      ⟨nowMs, batchLimit, leaseDur, dept, excluded, expired, ready⟩
      (fun k hk => (h.planned.1 k hk).2) h.planned.2.2 hrun
    obtain ⟨hafter, row, _, hrow⟩ := hrows r hr
    exact ⟨r, _, hafter, by rw [hrow]; rfl, rfl⟩
  · obtain ⟨record, rfl, hrun⟩ := Store.commit_leaseDelivery h.commit
    obtain ⟨r, hr, _, rfl⟩ := hleased hg
    rw [Option.mem_toList] at hr
    subst hr
    obtain ⟨hafter, row, _, _, _, hrow⟩ := Store.leaseDelivery_spec hrun
    exact ⟨r, _, hafter, by rw [hrow]; rfl, rfl⟩

/-- **A report is accepted from the holder of the lease.** -/
theorem heldWith_of_takesEffect (h : e.Committed env) (ht : e.TakesEffect id g) :
    (e.before.view id).HeldWith g := by
  obtain ⟨before, txn, reply, after⟩ := e
  cases txn with
  | ack id' g' =>
    obtain ⟨applied, rfl, hrun⟩ := Store.commit_ack h.commit
    obtain ⟨rfl, rfl, rfl⟩ := ht
    exact Store.ack_eq_true hrun
  | deferLockBusy id' g' lock policy nowMs =>
    obtain ⟨outcome, rfl, hrun⟩ := Store.commit_deferLockBusy h.commit
    obtain ⟨rfl, rfl, rfl⟩ := ht
    rcases Store.deferLockBusy_cases hrun with ⟨_, hheld⟩ | ⟨hne, _⟩
    · exact hheld
    · exact absurd rfl hne
  | retry id' g' failure policy nowMs =>
    obtain ⟨outcome, rfl, hrun⟩ := Store.commit_retry h.commit
    obtain ⟨rfl, rfl, hstale, hmissing⟩ := ht
    exact Store.retry_heldWith hrun hstale hmissing
  | renew renewals leaseUntilMs =>
    obtain ⟨applied, rfl, hrun⟩ := Store.commit_renew h.commit
    obtain ⟨_, r, hr, rfl⟩ := ht
    rcases Store.renewLeases_spec hrun id with ⟨hnone, _⟩ | ⟨r', hr', hheld, _⟩
    · rw [hnone] at hr
      cases hr
    · obtain rfl := Option.some.inj (hr'.symm.trans hr)
      exact hheld
  | _ => cases ht

/-- **A transaction that does not start over keeps old generations out.** -/
theorem fence (h : e.Committed env) (hmax : g < u64Max) (hover : ¬ e.StartsOver id g) :
    ((e.before.view id).Past g → (e.after.view id).Past g) ∧
      ((e.before.view id).HeldWith g →
        ((e.after.view id).HeldWith g ∧ ∀ g', ¬ e.Grants id g') ∨ (e.after.view id).Past g) := by
  by_cases hredrive : ∃ policy m nowMs keys, e.txn = .redrive policy m nowMs keys
  · obtain ⟨policy, m, nowMs, keys, ht⟩ := hredrive
    obtain ⟨_, _, _, _, hred⟩ := h.redrive ht
    have hred := hred id
    have hsame : (e.after.view id).live = (e.before.view id).live → (∀ g', ¬ e.Grants id g') →
        ((e.before.view id).Past g → (e.after.view id).Past g) ∧
          ((e.before.view id).HeldWith g →
            ((e.after.view id).HeldWith g ∧ ∀ g', ¬ e.Grants id g') ∨
              (e.after.view id).Past g) := by
      intro hlive hnone
      refine ⟨fun hpast r hr => hpast r (hlive ▸ hr), ?_⟩
      rintro ⟨r, u, hr, hu, hg⟩
      exact Or.inl ⟨⟨r, u, hlive ▸ hr, hu, hg⟩, hnone⟩
    have hnew : ∀ {r' : DeliveryRecord}, (e.before.view id).live = none →
        (e.after.view id).live = some r' → r'.leaseUntilMs = none → ¬ r'.leaseGeneration < g →
        ((e.before.view id).Past g → (e.after.view id).Past g) ∧
          ((e.before.view id).HeldWith g →
            ((e.after.view id).HeldWith g ∧ ∀ g', ¬ e.Grants id g') ∨
              (e.after.view id).Past g) := by
      intro r' hnone hlive hlease hge
      have hpast : (e.after.view id).Past g := by
        intro r hr
        obtain rfl := Option.some.inj (hlive.symm.trans hr)
        rcases UInt64.lt_or_eq_of_le (UInt64.not_lt.1 hge) with hlt | heq
        · exact Or.inl hlt
        · exact Or.inr ⟨heq.symm, hlease⟩
      exact ⟨fun _ => hpast, fun _ => Or.inr hpast⟩
    unfold Entry.StartsOver at hover
    unfold Entry.Grants at hsame hnew ⊢
    generalize e.events id = l at hred hover hsame hnew
    cases hred with
    | quiet live => exact hsame live (by simp)
    | killed _ _ _ _ live => exact hsame live (by simp)
    | redriven dead _ record nolive live lease generation =>
      refine hnew nolive live lease fun hlt => hover (Or.inr ⟨_, _, dead, record, Or.inl ?_⟩)
      exact ⟨by simp, generation ▸ hlt⟩
    | killedFollowedUp dead _ record nolive live lease generation =>
      refine hnew nolive live lease fun hlt => hover (Or.inr ⟨_, _, dead, record, Or.inr ?_⟩)
      exact ⟨by simp, generation ▸ hlt⟩
  · exact (h.moves id).fence hmax (fun p m n k ht => hredrive ⟨p, m, n, k, ht⟩)
      fun hins => hover (Or.inl hins)

end Entry.Committed

/-! ## Runs -/

/-- After the history `h`, generation `g` of a delivery that was granted in it is still held, and was
all the time and by nobody else, or it is past; provided that no transaction started over since. -/
def FencedAfter (id : String) (g : UInt64) (s : Store) (h : List Entry) : Prop :=
  ∀ h₁ e h₂, h = h₁ ++ e :: h₂ → e.Grants id g → (∀ e' ∈ h₂, ¬ e'.StartsOver id g) →
    (s.view id).Past g ∨
      ((s.view id).HeldWith g ∧ (e.after.view id).HeldWith g ∧
        ∀ e' ∈ h₂, (∀ g', ¬ e'.Grants id g') ∧ (e'.after.view id).HeldWith g)

theorem FencedAfter.step {env : Env} {id : String} {g : UInt64} (hmax : g < u64Max)
    {h : List Entry} {e : Entry} (he : e.Committed env) (hP : FencedAfter id g e.before h) :
    FencedAfter id g e.after (h ++ [e]) := by
  intro h₁ eg h₂ heq hgrants hover
  rcases split_concat heq with ⟨_, rfl, rfl⟩ | ⟨h₃, rfl, hold⟩
  · have hheld := he.heldWith_of_grants hgrants
    exact Or.inr ⟨hheld, hheld, by simp⟩
  · have hover' : ∀ e' ∈ h₃, ¬ e'.StartsOver id g := fun e' he' => hover e' (by simp [he'])
    obtain ⟨hpast, hheld⟩ := he.fence hmax (hover e (by simp))
    rcases hP h₁ eg h₃ hold hgrants hover' with hpast' | ⟨hnow, hfirst, hall⟩
    · exact Or.inl (hpast hpast')
    · rcases hheld hnow with ⟨hnow', hnone⟩ | hpast'
      · refine Or.inr ⟨hnow', hfirst, fun e' he' => ?_⟩
        rcases List.mem_append.1 he' with he' | he'
        · exact hall e' he'
        · obtain rfl := List.mem_singleton.1 he'
          exact ⟨hnone, hnow'⟩
      · exact Or.inl hpast'

/-- A report that takes effect on no row of a delivery leaves the row alone. -/
theorem Entry.Committed.row_of_not_takesEffect {env : Env} {e : Entry} (h : e.Committed env)
    (hreport : e.IsReport) {id : String} (hnot : ∀ g, ¬ e.TakesEffect id g) :
    e.after.deliveryById[id]? = e.before.deliveryById[id]? := by
  have hmoves := h.moves id
  obtain ⟨before, txn, reply, after⟩ := e
  cases txn with
  | ack id' g =>
    obtain ⟨applied, rfl, _⟩ := Store.commit_ack h.commit
    refine hmoves.live_eq (fun w w' hm => by cases hm; rfl) ?_
    by_cases hid : id = id'
    · subst hid
      cases applied with
      | true => exact absurd ⟨rfl, rfl, rfl⟩ (hnot g)
      | false => simp [Entry.events, Store.ackEvents]
    · exact eventsAt_of_ne hid _
  | deferLockBusy id' g lock policy nowMs =>
    obtain ⟨outcome, rfl, hrun⟩ := Store.commit_deferLockBusy h.commit
    by_cases hid : id = id'
    · subst hid
      rcases Store.deferLockBusy_cases hrun with ⟨rfl, _⟩ | ⟨_, hsame⟩
      · exact absurd ⟨rfl, rfl, rfl⟩ (hnot g)
      · rw [hsame]
    · refine hmoves.live_eq (fun w w' hm => ?_) rfl
      cases hm with
      | defer => exact absurd rfl hid
      | compact => rfl
  | retry id' g failure policy nowMs =>
    obtain ⟨outcome, rfl, _⟩ := Store.commit_retry h.commit
    refine hmoves.live_eq (fun w w' hm => by cases hm; rfl) ?_
    by_cases hid : id = id'
    · subst hid
      by_cases hstale : outcome = .stale ∨ outcome = .missing
      · rcases hstale with rfl | rfl <;> simp [Entry.events, Store.retryEvents]
      · rw [not_or] at hstale
        exact absurd ⟨rfl, rfl, hstale.1, hstale.2⟩ (hnot g)
    · exact eventsAt_of_ne hid _
  | renew renewals leaseUntilMs =>
    obtain ⟨applied, rfl, hrun⟩ := Store.commit_renew h.commit
    rcases Store.renewLeases_spec hrun id with ⟨_, hsame⟩ | ⟨r, hr, _, hmem⟩
    · exact hsame
    · exact absurd ⟨hmem, r, hr, rfl⟩ (hnot r.leaseGeneration)
  | _ => cases hreport

/-- **Lease generations fence off stale executions, as long as no generation starts over.**  In every
overlapping run, let a lease have granted generation `g` of a delivery, and let a report that shows
this generation take effect later.  If no transaction in between gave the delivery a row with an
older generation, then the lease was held with generation `g` all the time in between and no other
lease granted the delivery.  And a report never changes the row of a delivery on which it does not
take effect. -/
theorem leases_fenced (env : Env) (acts : List Act) (id : String) {g : UInt64}
    {h₁ h₂ h₃ : List Entry} {granting reporting : Entry}
    (hhistory : (World.init.run env acts).2 = h₁ ++ granting :: (h₂ ++ reporting :: h₃))
    (hgrants : granting.Grants id g) (hmax : g < u64Max)
    (hover : ∀ e ∈ h₂, ¬ e.StartsOver id g) :
    (reporting.TakesEffect id g →
      (granting.after.view id).HeldWith g ∧
        ∀ e ∈ h₂, (∀ g', ¬ e.Grants id g') ∧ (e.after.view id).HeldWith g) ∧
    (reporting.IsReport → ∀ id', (∀ g', ¬ reporting.TakesEffect id' g') →
      reporting.after.deliveryById[id']? = reporting.before.deliveryById[id']?) := by
  have hsplit : (World.init.run env acts).2 = (h₁ ++ granting :: h₂) ++ reporting :: h₃ := by
    rw [hhistory]
    simp
  obtain ⟨hcommitted, hfenced, _⟩ := World.run_induction_mem (P := FencedAfter id g)
    (fun h e he hP => hP.step hmax he) (fun h₁ e h₂ hnil => by simp at hnil) acts hsplit
  refine ⟨fun heffect => ?_, fun hreport id' => hcommitted.row_of_not_takesEffect hreport⟩
  rcases hfenced h₁ granting h₂ rfl hgrants hover with hpast | ⟨_, hfirst, hall⟩
  · exact absurd (hcommitted.heldWith_of_takesEffect heffect) hpast.not_heldWith
  · exact ⟨hfirst, hall⟩

namespace Sample

/-- Decides whether an entry is an `ack` of a generation that was accepted. -/
def acks (e : Entry) (id : String) (g : UInt64) : Bool :=
  match e.txn, e.reply with
  | .ack id' g', .ack applied => id' == id && g' == g && applied
  | _, _ => false

theorem takesEffect_of_acks {e : Entry} {id : String} {g : UInt64} (h : acks e id g = true) :
    e.TakesEffect id g := by
  unfold acks at h
  unfold Entry.TakesEffect
  split at h
  · rename_i htxn hreply
    simp only [Bool.and_eq_true, beq_iff_eq] at h
    simp [htxn, hreply, h]
  · cases h

/-- A lease is granted, renewed and acknowledged. -/
def renewed : List Act := Act.inSequence [.enqueue (record "a" false), .lease 0 1 ⟨1, 0⟩ none ∅,
  .renew [("a", 1)] 2000, .ack "a" 1]

/-- A lease runs out, the delivery is granted once more and acknowledged, and then enqueued and
granted again.  The holder of the first lease acknowledges last. -/
def overtaken : List Act := Act.inSequence [.enqueue (record "a" false), .lease 0 1 ⟨0, 0⟩ none ∅,
  .lease 0 1 ⟨1, 0⟩ none ∅, .ack "a" 2, .enqueue (record "a" false), .lease 0 1 ⟨1, 0⟩ none ∅,
  .ack "a" 1]

end Sample

/-- What `renewed` leaves in the history. -/
def Sample.renews : List Entry → Bool
  | [_, e₁, e₂, e₃] => decide (e₁.Grants "a" 1) && (e₂.events "a").isEmpty && Sample.acks e₃ "a" 1
  | _ => false

/-- The theorem at a lease that is renewed before it is acknowledged. -/
theorem leases_fenced_renewed : ∃ h₁ granting h₂ reporting h₃,
    (World.init.run Sample.env Sample.renewed).2 = h₁ ++ granting :: (h₂ ++ reporting :: h₃) ∧
    h₂ ≠ [] ∧ reporting.TakesEffect "a" 1 ∧
    ∀ e ∈ h₂, (∀ g', ¬ e.Grants "a" g') ∧ (e.after.view "a").HeldWith 1 := by
  have hrun : Sample.renews (World.init.run Sample.env Sample.renewed).2 = true := by
    decide +kernel
  unfold Sample.renews at hrun
  split at hrun
  · rename_i e₀ e₁ e₂ e₃ hhistory
    simp only [Bool.and_eq_true, decide_eq_true_eq, List.isEmpty_iff] at hrun
    obtain ⟨⟨hgrants, hquiet⟩, hacks⟩ := hrun
    have heffect := Sample.takesEffect_of_acks hacks
    have hhistory : (World.init.run Sample.env Sample.renewed).2 =
        [e₀] ++ e₁ :: ([e₂] ++ e₃ :: []) := hhistory
    have hover : ∀ e ∈ [e₂], ¬ e.StartsOver "a" 1 := by
      intro e he
      obtain rfl := List.mem_singleton.1 he
      simp [Entry.StartsOver, hquiet]
    refine ⟨[e₀], e₁, [e₂], e₃, [], hhistory, by simp, heffect, ?_⟩
    exact ((leases_fenced Sample.env Sample.renewed "a" hhistory hgrants (by decide) hover).1
      heffect).2
  · cases hrun

/-- What `overtaken` leaves in the history. -/
def Sample.overtakes : List Entry → Bool
  | [_, e₁, e₂, _, _, e₅, e₆] => decide (e₁.Grants "a" 1) && decide (e₂.Grants "a" 2) &&
    decide (e₅.Grants "a" 1) && Sample.acks e₆ "a" 1 && (e₆.after.deliveryById["a"]?).isNone
  | _ => false

/-- A generation that started over: the acknowledgement of an execution whose lease ran out is
accepted, though the delivery was granted twice since, and it deletes the row that another execution
holds. -/
theorem stale_ack_takes_effect : ∃ acts h₁ granting h₂ reporting h₃,
    (World.init.run Sample.env acts).2 = h₁ ++ granting :: (h₂ ++ reporting :: h₃) ∧
    granting.Grants "a" 1 ∧ reporting.TakesEffect "a" 1 ∧ (∃ e ∈ h₂, e.Grants "a" 2) ∧
    (∃ e ∈ h₂, e.Grants "a" 1) ∧ reporting.after.deliveryById["a"]? = none := by
  have hrun : Sample.overtakes (World.init.run Sample.env Sample.overtaken).2 = true := by
    decide +kernel
  unfold Sample.overtakes at hrun
  split at hrun
  · rename_i e₀ e₁ e₂ e₃ e₄ e₅ e₆ hhistory
    simp only [Bool.and_eq_true, decide_eq_true_eq, Option.isNone_iff_eq_none] at hrun
    obtain ⟨⟨⟨⟨h1, h2⟩, h5⟩, hacks⟩, hgone⟩ := hrun
    exact ⟨Sample.overtaken, [e₀], e₁, [e₂, e₃, e₄, e₅], e₆, [], hhistory, h1,
      Sample.takesEffect_of_acks hacks, ⟨e₂, by simp, h2⟩, ⟨e₅, by simp, h5⟩, hgone⟩
  · cases hrun

end Fkst.Delivery
