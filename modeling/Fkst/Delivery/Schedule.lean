import Fkst.Delivery.Sweeping
import Fkst.Graph.Durations

/-!
# When a delivery is due again

A delivery that is put back waits for a backoff, which doubles with every attempt up to a cap, and for
a jitter on top.  The backoff saturates.  The jitter is a remainder modulo a number plus one, and where
the number is `u64::MAX` already, its computation panics: no longer base than that may be configured,
and `schedulesWell_iff` says that this is the only limit.
-/

set_option autoImplicit false

namespace Fkst.Delivery

open Lib
open Graph (RetryDecl validateRetryDecl policyFromDecl)

variable (env : Env)

/-- `bounded_jitter` with its panic. -/
def boundedJitterOrPanic (deliveryId : String) (attempt : UInt64) (base : Duration) : Option Duration :=
  if clampU64 (base.asMillis / jitterDivisor) = u64Max then none
  else some (boundedJitter env deliveryId attempt base)

/-- A due time is in the bounds of a policy.  Durations are read in milliseconds that fit into `u64`. -/
def RetryPolicy.Due (policy : RetryPolicy) (nowMs notBeforeMs : UInt64) : Prop :=
  saturatingAdd nowMs (durationMillis policy.base) ≤ notBeforeMs ∧
    notBeforeMs ≤ saturatingAdd (saturatingAdd nowMs (durationMillis policy.cap))
      (clampU64 (policy.base.asMillis / jitterDivisor))

/-- **A policy schedules well.** -/
structure RetryPolicy.SchedulesWell (policy : RetryPolicy) : Prop where
  /-- More attempts do not make the backoff shorter. -/
  backoff_mono : ∀ a b, a ≤ b → durationMillis (backoffDelay policy.base policy.cap a) ≤
    durationMillis (backoffDelay policy.base policy.cap b)
  backoff_ge : ∀ a, min (durationMillis policy.base) (durationMillis policy.cap) ≤
    durationMillis (backoffDelay policy.base policy.cap a)
  backoff_le : ∀ a, durationMillis (backoffDelay policy.base policy.cap a) ≤ durationMillis policy.cap
  /-- The jitter is computed without a panic, and bounded. -/
  jitter : ∀ id attempt, ∃ d, boundedJitterOrPanic env id attempt policy.base = some d ∧
    durationMillis d ≤ clampU64 (policy.base.asMillis / jitterDivisor)
  /-- What `retry` stores. -/
  retried : ∀ (s s' : Store) id g failure nowMs, s.Inv →
    s.retry env id g failure policy nowMs = .ok (s', .scheduled) →
    ∃ r, s'.deliveryById[id]? = some r ∧ policy.Due nowMs r.notBeforeMs
  /-- What `defer_lock_busy` stores. -/
  deferred : ∀ (s s' : Store) id g lock nowMs,
    s.deferLockBusy env id g lock policy nowMs = (s', .scheduled) →
    ∃ r, s'.deliveryById[id]? = some r ∧ policy.Due nowMs r.notBeforeMs

/-! ## Bounds of the two delays -/

section Bounds

variable {base cap : Duration}

theorem durationMillis_backoffDelay (attempt : UInt64) :
    durationMillis (backoffDelay base cap attempt) =
      clampU64 (min (min (base.asMillis * 2 ^ min (attempt.toNat - 1) 63) (2 ^ 128 - 1)) cap.asMillis) :=
  durationMillis_fromMillis _

theorem backoffDelay_mono {a b : UInt64} (h : a ≤ b) :
    durationMillis (backoffDelay base cap a) ≤ durationMillis (backoffDelay base cap b) := by
  rw [durationMillis_backoffDelay, durationMillis_backoffDelay]
  have hexp : min (a.toNat - 1) 63 ≤ min (b.toNat - 1) 63 := by
    rw [UInt64.le_iff_toNat_le] at h
    omega
  have hmul : base.asMillis * 2 ^ min (a.toNat - 1) 63 ≤ base.asMillis * 2 ^ min (b.toNat - 1) 63 :=
    Nat.mul_le_mul_left _ (Nat.pow_le_pow_right (by decide) hexp)
  exact clampU64_mono (min_le_min_right _ (min_le_min_right _ hmul))

theorem backoffDelay_le (attempt : UInt64) :
    durationMillis (backoffDelay base cap attempt) ≤ durationMillis cap := by
  rw [durationMillis_backoffDelay]
  exact clampU64_mono (min_le_right _ _)

/-- A duration in milliseconds is far below the limit of `u128`. -/
theorem asMillis_lt (d : Duration) : d.asMillis < 2 ^ 128 := by
  have hsecs := d.secs.toNat_lt
  have hnanos := d.nanos.isLt
  rw [Duration.asMillis]
  omega

theorem le_backoffDelay (attempt : UInt64) :
    clampU64 (min base.asMillis cap.asMillis) ≤ durationMillis (backoffDelay base cap attempt) := by
  rw [durationMillis_backoffDelay]
  refine clampU64_mono (min_le_min_right _ (le_min ?_ ?_))
  · exact Nat.le_mul_of_pos_right _ (Nat.two_pow_pos _)
  · exact Nat.le_pred_of_lt (asMillis_lt base)

theorem le_backoffDelay_of_le (hle : base.asMillis ≤ cap.asMillis) (attempt : UInt64) :
    durationMillis base ≤ durationMillis (backoffDelay base cap attempt) := by
  have h : clampU64 (min base.asMillis cap.asMillis) ≤ _ := le_backoffDelay attempt
  rwa [min_eq_left hle] at h

/-- The jitter is at most the number that its modulus is one more than. -/
theorem boundedJitter_le (id : String) (attempt : UInt64) :
    durationMillis (boundedJitter env id attempt base) ≤ clampU64 (base.asMillis / jitterDivisor) := by
  simp only [boundedJitter]
  generalize clampU64 (base.asMillis / jitterDivisor) = max
  split
  · exact UInt64.le_iff_toNat_le.2 (Nat.zero_le _)
  · rw [durationMillis_fromMillis, UInt64.le_iff_toNat_le, UInt64.toNat_mod, UInt64.toNat_add]
    have hmax := max.toNat_lt
    have hone : (1 : UInt64).toNat = 1 := rfl
    rw [hone]
    by_cases hlast : max.toNat + 1 = 2 ^ 64
    · have := (env.defaultHash id attempt).toNat_lt
      exact (Nat.mod_le _ _).trans (by omega)
    · rw [Nat.mod_eq_of_lt (by omega : max.toNat + 1 < 2 ^ 64)]
      exact Nat.le_of_lt_succ (Nat.mod_lt _ (Nat.succ_pos _))

/-- The due time of a delivery that is put back. -/
theorem due_retryDue {policy : RetryPolicy} (hle : policy.base.asMillis ≤ policy.cap.asMillis)
    (id : String) (ordinal nowMs : UInt64) :
    policy.Due nowMs (retryDue env policy id ordinal nowMs) := by
  constructor
  · have hbase := le_backoffDelay_of_le hle ordinal
    exact UInt64.le_trans (saturatingAdd_mono UInt64.le_rfl hbase) (le_saturatingAdd _ _)
  · exact saturatingAdd_mono (saturatingAdd_mono UInt64.le_rfl (backoffDelay_le ordinal))
      (boundedJitter_le env id ordinal)

end Bounds

/-! ## What the store keeps -/

section Stored

variable {env} {s s' : Store} {id : String} {g nowMs : UInt64} {policy : RetryPolicy}

theorem deliveryById_insertRow (s : Store) (id : String) (r : DeliveryRecord) :
    (s.insertRow env id r).deliveryById[id]? = some r := by
  simp [Store.insertRow, Store.insertDelivery, Store.insertReady]

/-- A delivery whose attempts are used up is not put back. -/
theorem retryDead_outcome {current : DeliveryRecord} {failure : RetryFailure} {outcome : RetryOutcome}
    (h : s.retryDead env id current failure nowMs = .ok (s', outcome)) : outcome ≠ .scheduled := by
  simp only [Store.retryDead] at h
  split at h
  · rw [← (Prod.mk.inj (Except.ok.inj h)).2]
    exact RetryOutcome.noConfusion
  · split at h
    · rw [← (Prod.mk.inj (Except.ok.inj h)).2]
      exact RetryOutcome.noConfusion
    · obtain ⟨_, _, h⟩ := Checks.bind_eq_ok.1 h
      rw [← (Prod.mk.inj (Except.ok.inj h)).2]
      exact RetryOutcome.noConfusion

theorem retryRow_scheduled {current : DeliveryRecord} {u : UInt64} {failure : RetryFailure}
    (h : s.retryRow env id current u failure policy nowMs = .ok (s', .scheduled)) :
    ∃ r ordinal, s'.deliveryById[id]? = some r ∧
      r.notBeforeMs = retryDue env policy id ordinal nowMs := by
  simp only [Store.retryRow] at h
  split at h
  · exact absurd rfl (retryDead_outcome h)
  · obtain ⟨rfl, _⟩ := Prod.mk.inj (Except.ok.inj h)
    exact ⟨_, _, deliveryById_insertRow _ id _, rfl⟩

/-- A delivery that is put back for another attempt. -/
theorem retry_scheduled {failure : RetryFailure} (hs : s.Inv)
    (h : s.retry env id g failure policy nowMs = .ok (s', .scheduled)) :
    ∃ r ordinal, s'.deliveryById[id]? = some r ∧
      r.notBeforeMs = retryDue env policy id ordinal nowMs := by
  simp only [Store.retry] at h
  split at h
  · obtain ⟨_, _, h⟩ := Checks.bind_eq_ok.1 h
    cases (Prod.mk.inj (Except.ok.inj h)).2
  · rename_i current hcurrent
    split at h
    · cases (Prod.mk.inj (Except.ok.inj h)).2
    · rename_i u hu
      split at h
      · obtain ⟨_, _, h⟩ := Checks.bind_eq_ok.1 h
        cases (Prod.mk.inj (Except.ok.inj h)).2
      · obtain ⟨⟨s₁, outcome⟩, hrow, h⟩ := Checks.bind_eq_ok.1 h
        have hinv := (Store.retryRow_effect hs hcurrent hu hrow).inv
        obtain ⟨s₂, m, hcompact, _, hdel⟩ := Store.compactTerminalDeadRecords_effect env
          (.retry id g failure policy nowMs) hinv rfl
        rw [hcompact] at h
        obtain ⟨rfl, rfl⟩ := Prod.mk.inj (Except.ok.inj h)
        rw [hdel]
        exact retryRow_scheduled hrow

/-- A delivery that is put back because a lock was busy. -/
theorem deferLockBusy_scheduled {lock : String}
    (h : s.deferLockBusy env id g lock policy nowMs = (s', .scheduled)) :
    ∃ r ordinal, s'.deliveryById[id]? = some r ∧
      r.notBeforeMs = retryDue env policy id ordinal nowMs := by
  simp only [Store.deferLockBusy] at h
  split at h
  · cases (Prod.mk.inj h).2
  · rename_i current _
    split at h
    · cases (Prod.mk.inj h).2
    · split at h
      · obtain ⟨rfl, _⟩ := Prod.mk.inj h
        exact ⟨_, _, deliveryById_insertRow _ id _, rfl⟩
      · cases (Prod.mk.inj h).2

end Stored

/-- **The only limit.**  A policy whose cap is not below its base schedules well if and only if a
quarter of its base, in milliseconds, is below the limit of `u64`. -/
theorem schedulesWell_iff {policy : RetryPolicy} (hle : policy.base.asMillis ≤ policy.cap.asMillis) :
    policy.SchedulesWell env ↔ policy.base.asMillis / jitterDivisor < 2 ^ 64 - 1 := by
  constructor
  · intro h
    obtain ⟨d, hd, _⟩ := h.jitter "" 0
    by_contra hlong
    rw [boundedJitterOrPanic, if_pos] at hd
    · cases hd
    · rw [← UInt64.toNat_inj, toNat_clampU64, min_eq_right (Nat.not_lt.1 hlong)]
      rfl
  · intro hshort
    have hfits : clampU64 (policy.base.asMillis / jitterDivisor) ≠ u64Max := by
      rw [← UInt64.toNat_inj.ne, toNat_clampU64, min_eq_left hshort.le]
      exact hshort.ne
    refine ⟨fun _ _ => backoffDelay_mono, fun attempt => ?_, backoffDelay_le, fun id attempt => ?_,
      ?_, ?_⟩
    · have hmin : min (durationMillis policy.base) (durationMillis policy.cap) =
          durationMillis policy.base := if_pos (clampU64_mono hle)
      rw [hmin]
      exact le_backoffDelay_of_le hle attempt
    · exact ⟨_, if_neg hfits, boundedJitter_le env id attempt⟩
    · intro s s' id g failure nowMs hs h
      obtain ⟨r, ordinal, hr, hdue⟩ := retry_scheduled hs h
      exact ⟨r, hr, hdue ▸ due_retryDue env hle id ordinal nowMs⟩
    · intro s s' id g lock nowMs h
      obtain ⟨r, ordinal, hr, hdue⟩ := deferLockBusy_scheduled h
      exact ⟨r, hr, hdue ▸ due_retryDue env hle id ordinal nowMs⟩

namespace Sample

/-- A declaration with a base and a cap. -/
def retryDecl (base cap : String) : RetryDecl := ⟨3, base, cap⟩

end Sample

/-- An ordinary declaration. -/
theorem schedulesWell_thirtySeconds : ∃ policy,
    validateRetryDecl "worker" (Sample.retryDecl "30s" "1h") = .ok () ∧
    policyFromDecl true (Sample.retryDecl "30s" "1h") = .ok policy ∧
      policy.SchedulesWell Sample.env := by
  refine ⟨⟨3, .fromSecs 30, .fromSecs 3600⟩, by decide +kernel, by decide +kernel, ?_⟩
  exact (schedulesWell_iff Sample.env (by decide)).2 (by decide)

/-- A base of some two thousand million years is accepted, and its jitter panics for every delivery. -/
theorem jitter_panics : ∃ policy,
    validateRetryDecl "worker" (Sample.retryDecl "73786976294838207s" "73786976294838207s") = .ok () ∧
    policyFromDecl true (Sample.retryDecl "73786976294838207s" "73786976294838207s") = .ok policy ∧
    (∀ id attempt, boundedJitterOrPanic Sample.env id attempt policy.base = none) ∧
      ¬ policy.SchedulesWell Sample.env := by
  have hpanics : ∀ id attempt, boundedJitterOrPanic Sample.env id attempt
      (.fromSecs 73786976294838207) = none := fun id attempt => if_pos (by decide)
  refine ⟨⟨3, .fromSecs 73786976294838207, .fromSecs 73786976294838207⟩, by decide +kernel,
    by decide +kernel, hpanics, fun h => ?_⟩
  obtain ⟨d, hd, _⟩ := h.jitter "" 0
  rw [hpanics] at hd
  cases hd

end Fkst.Delivery
