import Fkst.Delivery.Runs

/-!
# Terminal suppression

An id that died for good is suppressed: later enqueues of it are turned away.  The dead row it died
with is compacted after a day, so the store keeps the suppressed ids in a hash table of their own.

This file relates the table to the history of a run.  `Entry.Kills` says what it takes for an id to
die for good, and an id is suppressed exactly when the history has an entry that killed it.
-/

set_option autoImplicit false

namespace Fkst.Delivery

open Lib

/-- The dead letter that a redrive gave up was keyed, and a keyed delivery of the same id is live
afterwards: it was live all along, or it is the follow-up that was promoted. -/
def Entry.HasKeyedSuccessor (e : Entry) (id : String) : Prop :=
  ∃ live d r, e.after.deliveryById[id]? = some live ∧ live.collapseByDedupId = true ∧
    e.before.deadById[id]? = some d ∧ d.record = some r ∧ r.collapseByDedupId = true

/-- The delivery died for good: a retry that was not replayable used up its attempts and left no
follow-up, or a redrive reported it as permanently dead and it has no keyed successor. -/
def Entry.Kills (e : Entry) (id : String) : Prop :=
  match e.txn, e.reply with
  | .retry retried _ _ _ _, .retry .permanentDead =>
    retried = id ∧ e.after.deliveryById[id]? = none
  | .redrive _ _ _ _, .redrive result =>
    (∃ d ∈ result.permanent, d.deliveryId = id) ∧ ¬ e.HasKeyedSuccessor id
  | _, _ => False

/-! ## One transaction -/

section Moves

variable {env : Env} {id : String} {t : Txn} {l : List Event} {v v' : View}

/-- Outside of a redrive, only the last retry of a delivery suppresses its id. -/
theorem Moves.suppressed_iff (hredrive : ∀ policy m nowMs keys, t ≠ .redrive policy m nowMs keys)
    (h : Moves env id t l v v') :
    v'.suppressed = true ↔ v.suppressed = true ∨ .terminated ∈ l := by
  refine h.preserves (P := fun l w => w.suppressed = true ↔ v.suppressed = true ∨ .terminated ∈ l)
    ?_ (by simp)
  intro l o w w' hw hm
  cases hm with
  | kill policy m nowMs keys => exact absurd rfl (hredrive policy m nowMs keys)
  | terminate => simp
  | _ => simpa using hw

/-- Only a retry terminates a delivery. -/
theorem Moves.retry_of_terminated (h : Moves env id t l v v') (hl : .terminated ∈ l) :
    ∃ g failure policy nowMs, t = .retry id g failure policy nowMs := by
  by_contra hnot
  refine h.preserves (P := fun l _ => .terminated ∉ l) ?_ (by simp) hl
  intro l o w w' hw hm
  cases hm with
  | terminate => exact absurd ⟨_, _, _, _, rfl⟩ hnot
  | _ => simpa using hw

end Moves

namespace Entry.Committed

variable {env : Env} {e : Entry} {id : String}

/-- Outside of a redrive, to kill a delivery is to terminate it. -/
theorem kills_iff_terminated (h : e.Committed env)
    (hredrive : ∀ policy m nowMs keys, e.txn ≠ .redrive policy m nowMs keys) :
    .terminated ∈ e.events id ↔ e.Kills id := by
  have hretry := (h.moves id).retry_of_terminated
  obtain ⟨before, txn, reply, after⟩ := e
  by_cases ht : ∃ g failure policy nowMs, txn = .retry id g failure policy nowMs
  · obtain ⟨g, failure, policy, nowMs, rfl⟩ := ht
    obtain ⟨outcome, rfl, _⟩ := Store.commit_retry h.commit
    have hview : (after.view id).live = after.deliveryById[id]? := rfl
    cases outcome with
    | permanentDead =>
      cases hlive : after.deliveryById[id]? <;>
        simp [Entry.events, Store.retryEvents, Entry.Kills, hview, hlive]
    | _ => simp [Entry.events, Store.retryEvents, Entry.Kills]
  · refine ⟨fun hl => absurd (hretry hl) ht, fun hkills => ?_⟩
    unfold Entry.Kills at hkills
    split at hkills
    · rename_i id' g failure policy nowMs htxn _
      obtain ⟨rfl, _⟩ := hkills
      exact absurd ⟨g, failure, policy, nowMs, htxn⟩ ht
    · rename_i policy m nowMs keys _ htxn _
      exact absurd htxn (hredrive policy m nowMs keys)
    · cases hkills

/-- A redrive suppresses what it gives up without a keyed successor. -/
theorem suppressed_iff_of_redrive (h : e.Committed env) {policy : RedrivePolicy}
    {m : Option (Table String String)} {nowMs : UInt64} {keys : List DueIndexKey}
    (ht : e.txn = .redrive policy m nowMs keys) :
    (e.after.view id).suppressed = true ↔ (e.before.view id).suppressed = true ∨ e.Kills id := by
  obtain ⟨result, hreply, _, hpermanent, hred⟩ := h.redrive ht
  have hkills : e.Kills id ↔ (∃ d ∈ result.permanent, d.deliveryId = id) ∧
      ¬ e.HasKeyedSuccessor id := by
    simp only [Entry.Kills, ht, hreply]
  have hkeyed : ∀ {d : DeadRecord} {r : DeliveryRecord}, (e.before.view id).dead = some d →
      d.record = some r → (e.HasKeyedSuccessor id ↔
        livePreservesKeyedDelivery (e.after.view id).live r = true) := by
    intro d r hd hr
    simp only [Entry.HasKeyedSuccessor, livePreservesKeyedDelivery, Bool.and_eq_true,
      Option.any_eq_true]
    constructor
    · rintro ⟨live, d', r', hlive, hkeyed, hd', hr', hkeyed'⟩
      obtain rfl := Option.some.inj (hd.symm.trans hd')
      obtain rfl := Option.some.inj (hr.symm.trans hr')
      exact ⟨hkeyed', live, hlive, hkeyed⟩
    · rintro ⟨hkeyed', live, hlive, hkeyed⟩
      exact ⟨live, d, r, hlive, hkeyed, hd, hr, hkeyed'⟩
  rw [hkills, hpermanent id]
  have hred := hred id
  generalize e.events id = l at hred
  cases hred with
  | quiet _ suppressed => simp [suppressed]
  | redriven _ _ _ _ _ _ _ suppressed => simp [suppressed]
  | killed dead _ record _ live suppressed =>
    rw [suppressed, hkeyed dead record, live]
    simp
  | killedFollowedUp dead _ record _ live _ _ keyed suppressed =>
    rw [suppressed, hkeyed dead record, live]
    simp [keyed]

/-- **A transaction suppresses exactly what it kills.** -/
theorem suppressed_iff (h : e.Committed env) :
    (e.after.view id).suppressed = true ↔ (e.before.view id).suppressed = true ∨ e.Kills id := by
  by_cases hredrive : ∃ policy m nowMs keys, e.txn = .redrive policy m nowMs keys
  · obtain ⟨policy, m, nowMs, keys, ht⟩ := hredrive
    exact h.suppressed_iff_of_redrive ht
  · have hredrive : ∀ policy m nowMs keys, e.txn ≠ .redrive policy m nowMs keys :=
      fun p m n k ht => hredrive ⟨p, m, n, k, ht⟩
    rw [(h.moves id).suppressed_iff hredrive, h.kills_iff_terminated hredrive]

end Entry.Committed

/-! ## Enqueueing -/

namespace Store

variable {env : Env} {s : Store}

/-- An `enqueue` of an id without a live row is turned away if the id is suppressed, and inserts the
row if it is not. -/
theorem enqueue_of_not_live (env : Env) (hs : s.Inv) {record : FreshRecord}
    (hlive : s.deliveryById[record.val.deliveryId]? = none) :
    ∃ s' outcome, s.enqueue env record.val = .ok (s', outcome) ∧
      (s.terminalDeliveryIsSuppressed record.val.deliveryId = true →
        outcome = .terminallySuppressed) ∧
      (s.terminalDeliveryIsSuppressed record.val.deliveryId = false →
        outcome = .accepted ∧ s'.deliveryById[record.val.deliveryId]? = some record.val) := by
  obtain ⟨s1, m, hcompact, heffect, _⟩ :=
    compactTerminalDeadRecords_effect env (.enqueue record) hs rfl
  have hsame : s1.terminalDeliveryIsSuppressed record.val.deliveryId =
      s.terminalDeliveryIsSuppressed record.val.deliveryId := by
    have hiff : (s1.view record.val.deliveryId).suppressed = true ↔
        (s.view record.val.deliveryId).suppressed = true := by
      simpa using Moves.suppressed_iff (by simp) (heffect.moves record.val.deliveryId)
    exact Bool.eq_iff_iff.2 hiff
  have hrow := congrArg (fun σ => σ.live)
    (slice_insertRow env s1 record.val.deliveryId record.val)
  simp only [enqueue, hlive, hcompact, bind, Except.bind, hsame]
  split
  · rename_i hsuppressed
    exact ⟨_, _, rfl, fun _ => rfl, fun hnot => absurd hsuppressed (by simp [hnot])⟩
  · rename_i hnot
    exact ⟨_, _, rfl, fun hsuppressed => absurd hsuppressed hnot, fun _ => ⟨rfl, hrow⟩⟩

end Store

/-! ## Runs -/

/-- In every run, an id is suppressed exactly when the history has an entry that killed it. -/
theorem suppressed_iff_killed (env : Env) (acts : List Act) (id : String) :
    (World.init.run env acts).1.store.terminalDeliveryIsSuppressed id = true ↔
      ∃ e ∈ (World.init.run env acts).2, e.Kills id := by
  have hempty : ¬ (Store.view .empty id).suppressed = true := by
    rw [show Store.view .empty id = _ from congrArg Slice.toView (Store.slice_empty id)]
    simp
  have hstep : ∀ (h : List Entry) (e : Entry), e.Committed env →
      ((e.before.view id).suppressed = true ↔ ∃ e' ∈ h, e'.Kills id) →
      ((e.after.view id).suppressed = true ↔ ∃ e' ∈ h ++ [e], e'.Kills id) := by
    intro h e he hP
    rw [he.suppressed_iff, hP]
    simp [or_and_right, exists_or]
  obtain ⟨_, hrun⟩ := World.run_induction (P := fun s h => (s.view id).suppressed = true ↔
    ∃ e ∈ h, e.Kills id) hstep World.inv_init (h := []) (by simpa [World.init] using hempty) acts
  rwa [List.nil_append] at hrun

/-- **Terminal suppression is permanent and exact.**  After every overlapping run:

* an `enqueue` of an id without a live row is turned away exactly when some earlier transaction
  killed the id, and otherwise inserts the row;
* an id is suppressed exactly when some earlier transaction killed it, whatever other ids there are;
* every transaction leaves a suppressed id suppressed, and reopening the database changes nothing;
* an id with a terminal dead row that has no keyed successor is suppressed. -/
theorem suppression_permanent_exact (env : Env) (acts : List Act) :
    (∀ record : FreshRecord,
      (World.init.run env acts).1.store.deliveryById[record.val.deliveryId]? = none →
      ∃ s' outcome, (World.init.run env acts).1.store.enqueue env record.val = .ok (s', outcome) ∧
        (outcome = .terminallySuppressed ↔
          ∃ e ∈ (World.init.run env acts).2, e.Kills record.val.deliveryId) ∧
        ((¬ ∃ e ∈ (World.init.run env acts).2, e.Kills record.val.deliveryId) →
          outcome = .accepted ∧ s'.deliveryById[record.val.deliveryId]? = some record.val)) ∧
    (∀ id, (World.init.run env acts).1.store.terminalDeliveryIsSuppressed id = true ↔
      ∃ e ∈ (World.init.run env acts).2, e.Kills id) ∧
    (∀ e ∈ (World.init.run env acts).2, ∀ id, e.before.terminalDeliveryIsSuppressed id = true →
      e.after.terminalDeliveryIsSuppressed id = true) ∧
    (World.init.run env acts).1.store.«open» env = .ok (World.init.run env acts).1.store ∧
    ∀ id d, (World.init.run env acts).1.store.deadById[id]? = some d →
      (d.permanent = true ∨ d.replayable = false) → d.allowsKeyedReuse = false →
      (World.init.run env acts).1.store.terminalDeliveryIsSuppressed id = true := by
  have hinv := (World.run_inv env acts).store
  refine ⟨fun record hlive => ?_, suppressed_iff_killed env acts, fun e he id hs => ?_,
    Store.open_current env hinv.wellFormed.version, fun id d hd hterminal hreuse => ?_⟩
  · obtain ⟨s', outcome, hrun, hyes, hno⟩ := Store.enqueue_of_not_live env hinv hlive
    refine ⟨s', outcome, hrun, ?_, fun hkilled => ?_⟩
    · rw [← suppressed_iff_killed]
      refine ⟨fun ho => ?_, hyes⟩
      by_contra hnot
      rw [(hno (Bool.eq_false_iff.2 hnot)).1] at ho
      cases ho
    · rw [← suppressed_iff_killed] at hkilled
      exact hno (Bool.eq_false_iff.2 hkilled)
  · exact (World.committed_of_mem acts he).suppressed_iff.2 (Or.inl hs)
  · have hrep : d.replayable = false := by
      have hperm := (hinv.deadOk hd).permanent
      rcases hterminal with h | h
      · simpa [h] using hperm
      · exact h
    exact (hinv.ok id).suppressed d hd hrep hreuse

end Fkst.Delivery
