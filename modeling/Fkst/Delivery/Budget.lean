import Fkst.Delivery.Runs

/-!
# The failure budget of a delivery

A delivery that fails is tried again, after its last attempt it becomes a dead letter, and a dead
letter is brought back with new attempts.  The counters that bound this are reset, carried over and
copied in several places; this file shows that together they do bound it.

A `Ledger` keeps the books of an id from the history alone: for its live row and for its dead row, the
generations it was granted with since it was inserted, and the retries that took effect since its
present span began.  A span begins with the insertion of the row or with the promotion of a
follow-up.  `Ledger.Follows` relates the books to the counters in the rows.
-/

set_option autoImplicit false

namespace Fkst.Delivery

open Lib

/-- `requires_replay_scratch_bypass`: the record may have been executed before. -/
def requiresReplayScratchBypass (record : DeliveryRecord) : Bool := 1 < record.leaseGeneration

/-! ## The books -/

/-- What happened to a row. -/
structure RowLog where
  /-- The generations of its leases since it was inserted, in order. -/
  grants : List UInt64
  /-- The retries that took effect since its present span began. -/
  retries : ℕ

namespace RowLog

/-- A row that was just inserted. -/
def empty : RowLog := ⟨[], 0⟩

/-- The row was leased. -/
def grant (log : RowLog) (g : UInt64) : RowLog := { log with grants := log.grants ++ [g] }

/-- A retry took effect. -/
def retry (log : RowLog) : RowLog := { log with retries := log.retries + 1 }

/-- The follow-up of the row was promoted: a new span of the same row. -/
def restart (log : RowLog) : RowLog := { log with retries := 0 }

end RowLog

/-- The logs of the live row of an id and of its dead row.  Where there is no such row, the log is
that of the last one. -/
structure Ledger where
  live : RowLog
  dead : RowLog

namespace Ledger

/-- Nothing has happened. -/
def empty : Ledger := ⟨.empty, .empty⟩

/-- Enter an event. -/
def record (books : Ledger) : Event → Ledger
  | .inserted => { books with live := .empty }
  | .granted g => { books with live := books.live.grant g }
  | .completed => books
  | .followedUp => { books with live := books.live.restart }
  | .retried => { books with live := books.live.retry }
  | .deadLettered => { books with dead := books.live.retry }
  | .swept => { books with dead := books.live }
  | .terminated => { books with dead := books.live.retry }
  | .terminatedFollowedUp => { live := books.live.restart, dead := books.live.retry }
  | .redriven => { books with live := books.dead }
  | .killed => books
  | .killedFollowedUp => { books with live := books.dead.restart }

/-- Enter events, one after the other. -/
def recordAll (books : Ledger) (events : List Event) : Ledger := events.foldl record books

end Ledger

/-- The books of an id after a history. -/
def ledger (id : String) (history : List Entry) : Ledger :=
  Ledger.empty.recordAll (history.flatMap (·.events id))

theorem ledger_concat (id : String) (history : List Entry) (e : Entry) :
    ledger id (history ++ [e]) = (ledger id history).recordAll (e.events id) := by
  simp [ledger, Ledger.recordAll]

/-- A retry or a redrive is under the given policies. -/
def Txn.UnderPolicies (maxAttempts maxRedrives : UInt64) (cooldown : Duration) : Txn → Prop
  | .retry _ _ _ policy _ => policy.maxAttempts = maxAttempts
  | .redrive policy _ _ _ => policy.maxRedrives = maxRedrives ∧ policy.cooldown = cooldown
  | _ => True

instance (maxAttempts maxRedrives : UInt64) (cooldown : Duration) :
    (t : Txn) → Decidable (t.UnderPolicies maxAttempts maxRedrives cooldown)
  | .retry _ _ _ _ _ => inferInstanceAs (Decidable (_ = _))
  | .redrive _ _ _ _ => inferInstanceAs (Decidable (_ ∧ _))
  | .enqueue _ | .rebind _ | .sweep _ _ _ _ | .renew _ _ | .lease _ _ _ _ _ _ _
  | .leaseDelivery _ _ _ | .ack _ _ | .deferLockBusy _ _ _ _ _ | .reopen => isTrue trivial

/-- The records that a transaction handed out for execution. -/
def Entry.handedOut (e : Entry) : List DeliveryRecord :=
  match e.txn, e.reply with
  | .lease _ _ _ _ _ _ _, .lease leased => leased
  | .leaseDelivery _ _ _, .leaseDelivery record => record.toList
  | _, _ => []

/-! ## What the books say -/

namespace RowLog

/-- Every generation is larger than the one before, until the largest one is reached. -/
def Increasing (log : RowLog) : Prop :=
  log.grants.Pairwise fun g g' => g < g' ∨ g = u64Max ∧ g' = u64Max

/-- The log of a row that stays within its budget. -/
structure WithinBudget (maxAttempts maxRedrives : UInt64) (log : RowLog) : Prop where
  retries : log.retries ≤ maxAttempts.toNat * (maxRedrives.toNat + 1)
  increasing : log.Increasing
  positive : ∀ g ∈ log.grants, 0 < g

/-- The grants of a row whose generation is `g`. -/
structure UpTo (g : UInt64) (log : RowLog) : Prop where
  increasing : log.Increasing
  positive : ∀ x ∈ log.grants, 0 < x
  le : ∀ x ∈ log.grants, x ≤ g

/-- The log of a live row. -/
structure OfLive (maxAttempts maxRedrives : UInt64) (r : DeliveryRecord) (log : RowLog) : Prop where
  attempt : r.attempt < maxAttempts
  redriveCount : r.redriveCount ≤ maxRedrives
  retries : log.retries ≤ maxAttempts.toNat * r.redriveCount.toNat + r.attempt.toNat
  grants : log.UpTo r.leaseGeneration

/-- The log of a dead row that waits for its redrive. -/
structure OfDead (maxAttempts maxRedrives : UInt64) (d : DeadRecord) (log : RowLog) : Prop where
  redriveCount : d.redriveCount ≤ maxRedrives
  retries : log.retries ≤ maxAttempts.toNat * (d.redriveCount.toNat + 1)
  grants : ∀ r, d.record = some r → log.UpTo r.leaseGeneration

variable {M R g : UInt64} {r r' : DeliveryRecord} {d : DeadRecord} {log : RowLog}

theorem zero_lt_of_one_le (hM : 1 ≤ M) : 0 < M := UInt64.lt_of_lt_of_le (by decide) hM

theorem upTo_empty (g : UInt64) : empty.UpTo g :=
  ⟨List.Pairwise.nil, by simp [empty], by simp [empty]⟩

theorem UpTo.mono (h : log.UpTo g) {g' : UInt64} (hle : g ≤ g') : log.UpTo g' :=
  ⟨h.increasing, h.positive, fun x hx => UInt64.le_trans (h.le x hx) hle⟩

theorem UpTo.retry (h : log.UpTo g) : log.retry.UpTo g := ⟨h.increasing, h.positive, h.le⟩

theorem UpTo.restart (h : log.UpTo g) : log.restart.UpTo g := ⟨h.increasing, h.positive, h.le⟩

/-- The next generation is larger than all before it. -/
theorem UpTo.grant (h : log.UpTo g) : (log.grant (saturatingAdd g 1)).UpTo (saturatingAdd g 1) := by
  have hmax : u64Max.toNat = 2 ^ 64 - 1 := rfl
  have hone : (1 : UInt64).toNat = 1 := rfl
  refine ⟨?_, fun x hx => ?_, fun x hx => ?_⟩
  · refine List.pairwise_append.2 ⟨h.increasing, List.pairwise_singleton _ _, fun x hx y hy => ?_⟩
    obtain rfl := List.mem_singleton.1 hy
    have hle := h.le x hx
    by_cases hlt : x < u64Max
    · exact Or.inl (lt_saturatingAdd_one hle hlt)
    · rw [UInt64.lt_iff_toNat_lt] at hlt
      rw [UInt64.le_iff_toNat_le] at hle
      have := x.toNat_lt
      refine Or.inr ⟨UInt64.toNat_inj.1 (by omega), UInt64.toNat_inj.1 ?_⟩
      rw [toNat_saturatingAdd]
      omega
  · rcases List.mem_append.1 hx with hx | hx
    · exact h.positive x hx
    · obtain rfl := List.mem_singleton.1 hx
      rw [UInt64.lt_iff_toNat_lt, toNat_saturatingAdd]
      change 0 < _
      omega
  · rcases List.mem_append.1 hx with hx | hx
    · exact UInt64.le_trans (h.le x hx) (le_saturatingAdd g 1)
    · exact UInt64.le_of_eq (List.mem_singleton.1 hx)

theorem OfLive.withinBudget (h : log.OfLive M R r) : log.WithinBudget M R := by
  refine ⟨?_, h.grants.increasing, h.grants.positive⟩
  have hattempt := UInt64.lt_iff_toNat_lt.1 h.attempt
  have hcount := UInt64.le_iff_toNat_le.1 h.redriveCount
  calc log.retries
      ≤ M.toNat * r.redriveCount.toNat + r.attempt.toNat := h.retries
    _ ≤ M.toNat * r.redriveCount.toNat + M.toNat := by omega
    _ = M.toNat * (r.redriveCount.toNat + 1) := (Nat.mul_succ _ _).symm
    _ ≤ M.toNat * (R.toNat + 1) := Nat.mul_le_mul_left _ (by omega)

/-- A live row that keeps its counters. -/
theorem OfLive.keep (h : log.OfLive M R r) (hattempt : r'.attempt = r.attempt)
    (hcount : r'.redriveCount = r.redriveCount) (hg : r.leaseGeneration ≤ r'.leaseGeneration) :
    log.OfLive M R r' :=
  ⟨hattempt ▸ h.attempt, hcount ▸ h.redriveCount, by rw [hattempt, hcount]; exact h.retries,
    h.grants.mono hg⟩

/-- A failed attempt is paid for out of the budget. -/
theorem OfLive.retry_le (h : log.OfLive M R r) :
    log.retry.retries ≤ M.toNat * (r.redriveCount.toNat + 1) := by
  have hattempt := UInt64.lt_iff_toNat_lt.1 h.attempt
  have hretries := h.retries
  rw [Nat.mul_succ]
  change log.retries + 1 ≤ _
  omega

theorem OfLive.retry_withinBudget (h : log.OfLive M R r) : log.retry.WithinBudget M R := by
  have hcount := UInt64.le_iff_toNat_le.1 h.redriveCount
  exact ⟨h.retry_le.trans (Nat.mul_le_mul_left _ (by omega)), h.grants.increasing,
    h.grants.positive⟩

/-- A live row after a failed attempt that leaves it others. -/
theorem OfLive.failed (h : log.OfLive M R r) {failure : RetryFailure}
    (hleft : (r.failed failure).attempt < M) (due : UInt64) :
    log.retry.OfLive M R { r.failed failure with notBeforeMs := due } := by
  refine ⟨hleft, h.redriveCount, ?_, h.grants.retry⟩
  have hattempt : ((r.failed failure).attempt).toNat = r.attempt.toNat + 1 := by
    have hlt := UInt64.lt_iff_toNat_lt.1 h.attempt
    have := M.toNat_lt
    have hone : (1 : UInt64).toNat = 1 := rfl
    rw [DeliveryRecord.failed, toNat_saturatingAdd]
    omega
  have hretries := h.retries
  change log.retries + 1 ≤ _ + ((r.failed failure).attempt).toNat
  rw [hattempt]
  change log.retries + 1 ≤ M.toNat * r.redriveCount.toNat + _
  omega

theorem OfLive.exhausted (h : log.OfLive M R r) (failure : RetryFailure) (nowMs : UInt64) :
    log.retry.OfDead M R ((r.failed failure).exhausted true false nowMs) :=
  ⟨h.redriveCount, h.retry_le, fun _ hr => Option.some.inj hr ▸ h.grants.retry⟩

theorem OfLive.absentDead (h : log.OfLive M R r) (nowMs : UInt64) :
    log.OfDead M R (r.absentDead nowMs) :=
  ⟨h.redriveCount, (Nat.le_succ _).trans h.retry_le, fun _ hr => Option.some.inj hr ▸ h.grants⟩

/-- A follow-up has the whole budget again, and keeps the generation. -/
theorem UpTo.followUp (h : log.UpTo g) (hM : 1 ≤ M) (R : UInt64) {f : DeliveryRecord}
    {due : UInt64} (hf : prepareDirtyFollowUp r due = some f) (hg : r.leaseGeneration = g) :
    log.restart.OfLive M R f := by
  subst hg
  obtain ⟨_, _, rfl⟩ := prepareDirtyFollowUp_eq_some hf
  exact ⟨zero_lt_of_one_le hM, UInt64.zero_le, Nat.zero_le _, h.restart⟩

/-- A redrive brings new attempts, and costs a redrive. -/
theorem OfDead.redriven (h : log.OfDead M R d) (hM : 1 ≤ M) (hrecord : d.record = some r)
    (hleft : d.redriveCount < R) {m : Option (Table String String)}
    (hdept : Store.redriveRecord m d r = some r') (nowMs : UInt64) :
    log.OfLive M R (r'.redriven d nowMs) := by
  obtain ⟨dept, rfl⟩ := redriveRecord_eq_some hdept
  have hlt := UInt64.lt_iff_toNat_lt.1 hleft
  have hcount : (saturatingAdd d.redriveCount 1).toNat = d.redriveCount.toNat + 1 := by
    have := R.toNat_lt
    have hone : (1 : UInt64).toNat = 1 := rfl
    rw [toNat_saturatingAdd]
    omega
  refine ⟨zero_lt_of_one_le hM, ?_, ?_, (h.grants r hrecord).mono
    (le_saturatingAdd _ _)⟩
  · change saturatingAdd d.redriveCount 1 ≤ R
    rw [UInt64.le_iff_toNat_le, hcount]
    omega
  · change _ ≤ M.toNat * (saturatingAdd d.redriveCount 1).toNat + 0
    rw [hcount]
    exact h.retries

/-- Every lease but the first since the insertion has a generation above one. -/
theorem WithinBudget.one_lt (h : log.WithinBudget M R) {g : UInt64} (hg : g ∈ log.grants.tail) :
    1 < g := by
  obtain ⟨increasing, positive⟩ : log.Increasing ∧ ∀ g ∈ log.grants, 0 < g :=
    ⟨h.increasing, h.positive⟩
  rw [Increasing] at increasing
  cases hgrants : log.grants with
  | nil =>
    rw [hgrants] at hg
    cases hg
  | cons first rest =>
    rw [hgrants] at hg increasing positive
    have hfirst := UInt64.lt_iff_toNat_lt.1 (positive first (by simp))
    rcases (List.pairwise_cons.1 increasing).1 g hg with hlt | ⟨_, rfl⟩
    · rw [UInt64.lt_iff_toNat_lt] at hlt ⊢
      change 1 < _
      omega
    · decide

end RowLog

/-! ## One delivery in one transaction -/

/-- The books agree with the rows, and stay within the budget. -/
structure Ledger.Follows (maxAttempts maxRedrives : UInt64) (v : View) (books : Ledger) : Prop where
  live : ∀ r, v.live = some r → books.live.OfLive maxAttempts maxRedrives r
  dead : ∀ d, v.dead = some d → d.replayable = true → books.dead.OfDead maxAttempts maxRedrives d
  liveBudget : books.live.WithinBudget maxAttempts maxRedrives
  deadBudget : books.dead.WithinBudget maxAttempts maxRedrives

namespace Ledger.Follows

variable {M R : UInt64} {v : View} {books : Ledger} {r r' : DeliveryRecord} {log : RowLog}

theorem withLive (h : books.Follows M R v) (hr : log.OfLive M R r) :
    Follows M R { v with live := some r } { books with live := log } :=
  ⟨fun _ hr' => Option.some.inj hr' ▸ hr, h.dead, hr.withinBudget, h.deadBudget⟩

/-- The live row changes, and keeps its counters. -/
theorem keep (h : books.Follows M R v) (hlive : v.live = some r)
    (hattempt : r'.attempt = r.attempt) (hcount : r'.redriveCount = r.redriveCount)
    (hg : r.leaseGeneration ≤ r'.leaseGeneration) :
    Follows M R { v with live := some r' } books :=
  h.withLive ((h.live r hlive).keep hattempt hcount hg)

theorem withoutLive (h : books.Follows M R v) : Follows M R { v with live := none } books :=
  ⟨(fun _ hr => by cases hr), h.dead, h.liveBudget, h.deadBudget⟩

/-- The dead row changes.  Its log need only be as the row says while it waits for its redrive. -/
theorem withDead (h : books.Follows M R v) {d : DeadRecord} {p : Bool}
    (hd : d.replayable = true → log.OfDead M R d) (hlog : log.WithinBudget M R) :
    Follows M R { v with dead := some d, suppressed := p } { books with dead := log } :=
  ⟨h.live, fun _ hd' => Option.some.inj hd' ▸ hd, h.liveBudget, hlog⟩

theorem withoutDead (h : books.Follows M R v) : Follows M R { v with dead := none } books :=
  ⟨h.live, (fun _ hd => by cases hd), h.liveBudget, h.deadBudget⟩

end Ledger.Follows

section Moves

variable {env : Env} {id : String} {t : Txn} {v v' : View} {books : Ledger} {M R : UInt64}
  {cooldown : Duration}

/-- **A move and its event.** -/
theorem Move.follows {o : Option Event} (hM : 1 ≤ M) (ht : t.UnderPolicies M R cooldown)
    (hm : Move env id t o v v') (h : books.Follows M R v) :
    (books.recordAll o.toList).Follows M R v' := by
  cases hm with
  | insert record =>
    refine h.withLive ⟨?_, ?_, Nat.zero_le _, RowLog.upTo_empty _⟩
    · rw [record.2.1]
      exact RowLog.zero_lt_of_one_le hM
    · rw [record.2.2.1]
      exact UInt64.zero_le
  | mark _ hlive => exact h.keep hlive rfl rfl UInt64.le_rfl
  | reset _ hlive => exact h.keep hlive rfl rfl UInt64.le_rfl
  | @rebind _ r _ newDept hlive =>
    refine h.keep hlive rfl rfl ?_
    rw [DeliveryRecord.rebound]
    dsimp only
    split
    · exact le_saturatingAdd _ _
    · exact UInt64.le_rfl
  | absence _ _ _ _ _ hlive => exact h.keep hlive rfl rfl UInt64.le_rfl
  | sweep _ nowMs _ _ hlive =>
    have hlog := h.live _ hlive
    exact h.withoutLive.withDead (fun _ => hlog.absentDead nowMs) hlog.withinBudget
  | renew _ _ hlive => exact h.keep hlive rfl rfl UInt64.le_rfl
  | grant _ _ _ _ _ _ _ hlive =>
    have hlog := h.live _ hlive
    exact h.withLive ⟨hlog.attempt, hlog.redriveCount, hlog.retries, hlog.grants.grant⟩
  | grantNext _ _ hlive =>
    have hlog := h.live _ hlive
    exact h.withLive ⟨hlog.attempt, hlog.redriveCount, hlog.retries, hlog.grants.grant⟩
  | ack => exact h.withoutLive
  | ackFollowUp hlive _ hdirty =>
    have hlog := h.live _ hlive
    exact h.withLive (hlog.grants.followUp hM R hdirty rfl)
  | defer _ _ _ hlive => exact h.keep hlive rfl rfl UInt64.le_rfl
  | retry failure policy nowMs due hlive _ hleft =>
    obtain rfl : policy.maxAttempts = M := ht
    exact h.withLive ((h.live _ hlive).failed hleft due)
  | deadLetter failure policy nowMs hlive =>
    have hlog := h.live _ hlive
    exact h.withoutLive.withDead (fun _ => hlog.exhausted failure nowMs) hlog.retry_withinBudget
  | terminate failure policy nowMs hlive =>
    exact h.withoutLive.withDead (fun hr => by cases hr) (h.live _ hlive).retry_withinBudget
  | terminateFollowUp failure policy nowMs hlive _ _ _ hdirty =>
    have hlog := h.live _ hlive
    exact (h.withLive (hlog.grants.followUp hM R hdirty rfl)).withDead (fun hr => by cases hr)
      hlog.retry_withinBudget
  | redrive policy _ nowMs _ _ hdead hreplayable hrecord hdept _ hleft =>
    obtain ⟨rfl, rfl⟩ : policy.maxRedrives = R ∧ policy.cooldown = cooldown := ht
    exact h.withoutDead.withLive
      ((h.dead _ hdead hreplayable).redriven hM hrecord hleft hdept nowMs)
  | kill => exact h.withDead (fun hr => by cases hr) h.deadBudget
  | killFollowUp _ _ _ _ _ hdead hreplayable hrecord hdept _ _ hdirty =>
    obtain ⟨dept, rfl⟩ := redriveRecord_eq_some hdept
    have hgrants := (h.dead _ hdead hreplayable).grants _ hrecord
    exact (h.withLive (hgrants.followUp hM R hdirty rfl)).withDead (fun hr => by cases hr)
      h.deadBudget
  | compact => exact h.withoutDead

theorem Moves.follows {l : List Event} (hM : 1 ≤ M) (ht : t.UnderPolicies M R cooldown)
    (hm : Moves env id t l v v') (h : books.Follows M R v) :
    (books.recordAll l).Follows M R v' := by
  refine hm.preserves (P := fun l w => (books.recordAll l).Follows M R w) ?_ h
  intro l o w w' hw hmove
  rw [Ledger.recordAll, List.foldl_append]
  exact hmove.follows hM ht hw

/-- Only a redrive brings a dead letter back. -/
theorem Moves.redrive_of_redriven {l : List Event} (hm : Moves env id t l v v')
    (hl : .redriven ∈ l) : ∃ policy m nowMs keys, t = .redrive policy m nowMs keys := by
  by_contra hnot
  refine hm.preserves (P := fun l _ => .redriven ∉ l) ?_ (by simp) hl
  intro l o w w' hw hmove
  cases hmove with
  | redrive => exact absurd ⟨_, _, _, _, rfl⟩ hnot
  | _ => simpa using hw

end Moves

/-- The books of a row that is leased. -/
theorem Ledger.grants_recordAll (books : Ledger) (gs : List UInt64) :
    (books.recordAll (gs.map .granted)).live.grants = books.live.grants ++ gs := by
  induction gs generalizing books with
  | nil => simp [recordAll]
  | cons g gs ih =>
    have hstep : (books.record (.granted g)).live.grants = books.live.grants ++ [g] := rfl
    rw [List.map_cons, recordAll, List.foldl_cons, ← recordAll, ih, hstep, List.append_assoc]
    rfl

namespace Entry

variable {env : Env} {e : Entry}

/-- The books have the generation of every record that is handed out. -/
theorem grants_of_handedOut (books : Ledger) {record : DeliveryRecord}
    (hrecord : record ∈ e.handedOut) :
    ∃ gs, record.leaseGeneration ∈ gs ∧
      (books.recordAll (e.events record.deliveryId)).live.grants = books.live.grants ++ gs := by
  have hlease : ∀ leased : List DeliveryRecord, record ∈ leased →
      ∃ gs, record.leaseGeneration ∈ gs ∧
        (books.recordAll (Store.leaseEvents leased record.deliveryId)).live.grants =
          books.live.grants ++ gs := by
    intro leased hmem
    refine ⟨(leased.filter (·.deliveryId == record.deliveryId)).map (·.leaseGeneration), ?_, ?_⟩
    · exact List.mem_map_of_mem (List.mem_filter.2 ⟨hmem, beq_self_eq_true _⟩)
    · rw [← Ledger.grants_recordAll, Store.leaseEvents, List.map_map]
      rfl
  obtain ⟨before, txn, reply, after⟩ := e
  rw [handedOut] at hrecord
  split at hrecord
  · obtain rfl : reply = _ := by assumption
    obtain rfl : txn = _ := by assumption
    exact hlease _ hrecord
  · obtain rfl : reply = _ := by assumption
    obtain rfl : txn = _ := by assumption
    exact hlease _ hrecord
  · cases hrecord

/-- A dead letter is brought back once its cooldown is over. -/
theorem Committed.cooldown (h : e.Committed env) {id : String} (hredriven : .redriven ∈ e.events id) :
    ∃ policy m nowMs keys d, e.txn = .redrive policy m nowMs keys ∧
      e.before.deadById[id]? = some d ∧
      saturatingAdd d.deadAtMs (durationMillis policy.cooldown) ≤ nowMs := by
  obtain ⟨policy, m, nowMs, keys, ht⟩ := (h.moves id).redrive_of_redriven hredriven
  obtain ⟨_, _, _, _, hred⟩ := h.redrive ht
  have hred := hred id
  generalize e.events id = l at hred hredriven
  cases hred with
  | redriven dead _ _ _ _ _ _ _ _ cool =>
    exact ⟨policy, m, nowMs, keys, _, ht, dead, of_decide_eq_true cool⟩
  | _ => simp at hredriven

end Entry

/-- What a cooldown that has elapsed means for times that fit. -/
theorem le_of_saturatingAdd_durationMillis_le {deadAtMs nowMs : UInt64} {cooldown : Duration}
    (h : saturatingAdd deadAtMs (durationMillis cooldown) ≤ nowMs)
    (hfits : deadAtMs.toNat + cooldown.asMillis < 2 ^ 64) :
    deadAtMs.toNat + cooldown.asMillis ≤ nowMs.toNat := by
  rw [UInt64.le_iff_toNat_le, toNat_saturatingAdd, toNat_durationMillis] at h
  omega

/-! ## Runs -/

/-- The books agree with the rows before and after every entry of a run under the policies. -/
theorem books_follow (env : Env) (acts : List Act) {M R : UInt64} {cooldown : Duration} (hM : 1 ≤ M)
    (hpolicies : ∀ e ∈ (World.init.run env acts).2, e.txn.UnderPolicies M R cooldown) (id : String) :
    (ledger id (World.init.run env acts).2).Follows M R
        ((World.init.run env acts).1.store.view id) ∧
      ∀ h₁ e h₂, (World.init.run env acts).2 = h₁ ++ e :: h₂ →
        (ledger id (h₁ ++ [e])).Follows M R (e.after.view id) := by
  have hempty : (ledger id []).Follows M R (Store.view .empty id) := by
    have hlog : RowLog.empty.WithinBudget M R := ⟨Nat.zero_le _, List.Pairwise.nil, by
      simp [RowLog.empty]⟩
    rw [show Store.view .empty id = _ from congrArg Slice.toView (Store.slice_empty id)]
    exact ⟨(fun _ hr => by cases hr), (fun _ hd => by cases hd), hlog, hlog⟩
  have hstep : ∀ (h : List Entry) (e : Entry), e.Committed env →
      ((∀ e' ∈ h, e'.txn.UnderPolicies M R cooldown) →
        (ledger id h).Follows M R (e.before.view id)) →
      ((∀ e' ∈ h ++ [e], e'.txn.UnderPolicies M R cooldown) →
        (ledger id (h ++ [e])).Follows M R (e.after.view id)) := by
    intro h e he hP hall
    rw [ledger_concat]
    exact (he.moves id).follows hM (hall e (by simp)) (hP fun e' he' => hall e' (by simp [he']))
  refine ⟨?_, fun h₁ e h₂ heq => ?_⟩
  · obtain ⟨_, hrun⟩ := World.run_induction (P := fun s h =>
      (∀ e ∈ h, e.txn.UnderPolicies M R cooldown) → (ledger id h).Follows M R (s.view id)) hstep
      World.inv_init (h := []) (fun _ => hempty) acts
    rw [List.nil_append] at hrun
    exact hrun hpolicies
  · obtain ⟨_, _, hafter⟩ := World.run_induction_mem (P := fun s h =>
      (∀ e ∈ h, e.txn.UnderPolicies M R cooldown) → (ledger id h).Follows M R (s.view id)) hstep
      (fun _ => hempty) acts heq
    refine hafter fun e' he' => hpolicies e' ?_
    rw [heq]
    rcases List.mem_append.1 he' with he' | he'
    · simp [he']
    · simp [List.mem_singleton.1 he']

/-- **Failures are bounded, and a re-execution can be told.**  In every overlapping run in which
every retry allows `M` attempts and every redrive `R` redrives:

* between the beginning of a span of a row and its end, at most `M * (R + 1)` retries take effect,
  and the leases of a row have larger and larger generations, also across its dead letters;
* a live row has used fewer than `M` attempts and at most `R` redrives;
* a dead letter is brought back only once its cooldown is over, where the end of the cooldown is at
  the latest at the largest time there is;
* a record that is handed out of a row that was handed out before asks for a fresh scratch. -/
theorem failures_bounded (env : Env) (acts : List Act) {M R : UInt64} {cooldown : Duration}
    (hM : 1 ≤ M)
    (hpolicies : ∀ e ∈ (World.init.run env acts).2, e.txn.UnderPolicies M R cooldown) :
    (∀ id, (ledger id (World.init.run env acts).2).live.WithinBudget M R ∧
      (ledger id (World.init.run env acts).2).dead.WithinBudget M R) ∧
    (∀ (id : String) (r : DeliveryRecord),
      (World.init.run env acts).1.store.deliveryById[id]? = some r →
      r.attempt < M ∧ r.redriveCount ≤ R) ∧
    (∀ e ∈ (World.init.run env acts).2, ∀ id, .redriven ∈ e.events id →
      ∃ policy m nowMs keys d, e.txn = .redrive policy m nowMs keys ∧
        e.before.deadById[id]? = some d ∧
        saturatingAdd d.deadAtMs (durationMillis cooldown) ≤ nowMs ∧
        (d.deadAtMs.toNat + cooldown.asMillis < 2 ^ 64 →
          d.deadAtMs.toNat + cooldown.asMillis ≤ nowMs.toNat)) ∧
    (∀ h₁ e h₂, (World.init.run env acts).2 = h₁ ++ e :: h₂ → ∀ record ∈ e.handedOut,
      (ledger record.deliveryId h₁).live.grants ≠ [] →
      requiresReplayScratchBypass record = true) := by
  have hfollows := fun id => books_follow env acts hM hpolicies id
  refine ⟨fun id => ⟨(hfollows id).1.liveBudget, (hfollows id).1.deadBudget⟩, fun id r hr => ?_,
    fun e he id hredriven => ?_, fun h₁ e h₂ heq record hrecord hnonempty => ?_⟩
  · have hlog := (hfollows id).1.live r hr
    exact ⟨hlog.attempt, hlog.redriveCount⟩
  · obtain ⟨policy, m, nowMs, keys, d, ht, hd, hcool⟩ :=
      (World.committed_of_mem acts he).cooldown hredriven
    have hpolicy := hpolicies e he
    rw [ht] at hpolicy
    rw [hpolicy.2] at hcool
    exact ⟨policy, m, nowMs, keys, d, ht, hd, hcool, le_of_saturatingAdd_durationMillis_le hcool⟩
  · have hlog := ((hfollows record.deliveryId).2 h₁ e h₂ heq).liveBudget
    obtain ⟨gs, hmem, hgrants⟩ := e.grants_of_handedOut (ledger record.deliveryId h₁) hrecord
    refine decide_eq_true (hlog.one_lt ?_)
    rw [ledger_concat, hgrants, List.tail_append_of_ne_nil hnonempty]
    exact List.mem_append_right _ hmem

namespace Sample

/-- A delivery fails its only attempt, is brought back once and handed out again. -/
def redriven (cooldown : Duration) (nowMs : UInt64) : List Act :=
  Act.inSequence [.enqueue (record "a" false), .lease 0 1 ⟨0, 0⟩ none ∅,
    .retry "a" 1 ⟨"failed", true⟩ retryPolicy nowMs, .redrive ⟨1, cooldown⟩ none nowMs 1,
    .lease nowMs 1 ⟨0, 0⟩ none ∅]

end Sample

/-- The theorem at a delivery that is handed out twice. -/
theorem failures_bounded_redriven :
    (ledger "a" (World.init.run Sample.env (Sample.redriven ⟨0, 0⟩ 0)).2).live.grants = [1, 3] ∧
    (ledger "a" (World.init.run Sample.env (Sample.redriven ⟨0, 0⟩ 0)).2).live.retries ≤ 1 * 2 := by
  have hgrants : (ledger "a"
      (World.init.run Sample.env (Sample.redriven ⟨0, 0⟩ 0)).2).live.grants = [1, 3] := by
    decide +kernel
  have hpolicies : ∀ e ∈ (World.init.run Sample.env (Sample.redriven ⟨0, 0⟩ 0)).2,
      e.txn.UnderPolicies 1 1 ⟨0, 0⟩ := by
    decide +kernel
  have hbudget := ((failures_bounded Sample.env (Sample.redriven ⟨0, 0⟩ 0) (by decide)
    hpolicies).1 "a").1
  exact ⟨hgrants, hbudget.retries⟩

/-- A dead letter whose cooldown would end after the largest time there is: it is brought back at the
largest time, a millisecond before the cooldown is over. -/
theorem redriven_before_cooldown : ∃ acts, ∃ e ∈ (World.init.run Sample.env acts).2,
    (∀ e' ∈ (World.init.run Sample.env acts).2, e'.txn.UnderPolicies 1 1 ⟨0, 1000000⟩) ∧
    .redriven ∈ e.events "a" ∧
    ∃ m nowMs keys d, e.txn = .redrive ⟨1, ⟨0, 1000000⟩⟩ m nowMs keys ∧
      e.before.deadById["a"]? = some d ∧
      nowMs.toNat < d.deadAtMs.toNat + Duration.asMillis ⟨0, 1000000⟩ := by
  have hpolicies : ∀ e ∈ (World.init.run Sample.env (Sample.redriven ⟨0, 1000000⟩ u64Max)).2,
      e.txn.UnderPolicies 1 1 ⟨0, 1000000⟩ := by
    decide +kernel
  have hrun : (World.init.run Sample.env (Sample.redriven ⟨0, 1000000⟩ u64Max)).2.any (fun e =>
      match e.txn with
      | .redrive policy _ nowMs _ => decide (policy = ⟨1, ⟨0, 1000000⟩⟩) &&
        decide (.redriven ∈ e.events "a") && (e.before.deadById["a"]?).any fun d =>
          decide (nowMs.toNat < d.deadAtMs.toNat + Duration.asMillis ⟨0, 1000000⟩)
      | _ => false) = true := by
    decide +kernel
  obtain ⟨e, he, h⟩ := List.any_eq_true.1 hrun
  split at h
  · rename_i policy m nowMs keys ht
    simp only [Bool.and_eq_true, decide_eq_true_eq, Option.any_eq_true] at h
    obtain ⟨⟨rfl, hredriven⟩, d, hd, hlt⟩ := h
    exact ⟨_, e, he, hpolicies, hredriven, m, nowMs, keys, d, ht, hd, hlt⟩
  · cases h

end Fkst.Delivery
