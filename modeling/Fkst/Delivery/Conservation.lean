import Fkst.Delivery.Runs

/-!
# No delivery is lost

A delivery that was accepted is live, or dead, until it is acknowledged.  There is one more way for
it to go: a redrive gives up a dead letter that has been dead for as long as terminal ones are
retained, and the compaction at the end of the same transaction takes it.  Its id is suppressed then,
and the result of the redrive names it.
-/

set_option autoImplicit false

namespace Fkst.Delivery

open Lib

/-- A delivery that is live or waits for its redrive. -/
def View.Recoverable (v : View) : Prop :=
  v.live ≠ none ∨ ∃ d, v.dead = some d ∧ d.replayable = true ∧ d.permanent = false

/-- A delivery that is live or dead: waiting for its redrive, or for good. -/
def View.Accounted (v : View) : Prop :=
  v.live ≠ none ∨
    ∃ d, v.dead = some d ∧ (d.replayable = true ∧ d.permanent = false ∨ d.permanent = true)

/-- The delivery was acknowledged, by the holder of its lease and without a follow-up. -/
def Entry.Acked (e : Entry) (id : String) : Prop :=
  ∃ r u, e.txn = .ack id r.leaseGeneration ∧ e.reply = .ack true ∧
    e.before.deliveryById[id]? = some r ∧ r.leaseUntilMs = some u ∧ r.pendingDirty = false

/-- The delivery was a dead letter with no redrive left and nothing live beside it, it was dead for
as long as terminal dead rows are retained, and the redrive reported it as permanently dead and
suppressed its id. -/
def Entry.GaveUp (e : Entry) (id : String) : Prop :=
  ∃ policy m nowMs keys result d, e.txn = .redrive policy m nowMs keys ∧
    e.reply = .redrive result ∧ e.before.deliveryById[id]? = none ∧
    e.before.deadById[id]? = some d ∧ d.replayable = true ∧ policy.maxRedrives ≤ d.redriveCount ∧
    d.Old nowMs ∧ (∃ p ∈ result.permanent, p.deliveryId = id) ∧
    e.after.terminalDeliveryIsSuppressed id = true

/-- The delivery was brought back or given up by a redrive, and the redrive says so. -/
def Entry.Redrove (e : Entry) (id : String) : Prop :=
  ∃ policy m nowMs keys result, e.txn = .redrive policy m nowMs keys ∧ e.reply = .redrive result ∧
    ((∃ r ∈ result.redriven, r.deliveryId = id) ∨ ∃ p ∈ result.permanent, p.deliveryId = id)

/-! ## One delivery in one transaction -/

section Moves

variable {env : Env} {id : String} {t : Txn} {l : List Event} {v v' : View} {d : DeadRecord}

/-- A dead row that was written at `nowMs` is not old at `nowMs`. -/
theorem DeadRecord.not_old_of_deadAtMs {nowMs : UInt64} (h : d.deadAtMs = nowMs) :
    ¬ d.Old nowMs := by
  rintro ⟨hretention, hold⟩
  rw [h, UInt64.le_iff_toNat_le, UInt64.toNat_sub_of_le _ _ hretention] at hold
  rw [UInt64.le_iff_toNat_le] at hretention
  have hpos : 0 < terminalDeadRetentionMs.toNat := by decide
  omega

/-- The dead row `d` will outlast the compaction of the transaction. -/
def Outlasts (t : Txn) (d : DeadRecord) : Prop := d.replayable = true ∨ t.clock = some d.deadAtMs

theorem Outlasts.not_compacted (h : Outlasts t d) (hok : d.Ok id) {nowMs : UInt64}
    (hclock : t.clock = some nowMs) (hterminal : isTerminalDeadRecord d = true) :
    ¬ d.Old nowMs := by
  rcases h with h | h
  · rw [hok.isTerminal, h] at hterminal
    cases hterminal
  · exact DeadRecord.not_old_of_deadAtMs (Option.some.inj (h.symm.trans hclock))

/-- What remains of a recoverable delivery in the course of a transaction that is no redrive. -/
structure Kept (id : String) (t : Txn) (v : View) (l : List Event) (w : View) : Prop where
  ok : w.Ok id
  ack : ∀ g, t = .ack id g → w = v ∨ ∀ r, w.live = some r → r.leaseUntilMs = none
  kept : w.live ≠ none ∨ (∃ d, w.dead = some d ∧ Outlasts t d) ∨
    ∃ r u, t = .ack id r.leaseGeneration ∧ v.live = some r ∧ r.leaseUntilMs = some u ∧
      r.pendingDirty = false ∧ l ≠ []

theorem Kept.step (hredrive : ∀ policy m nowMs keys, t ≠ .redrive policy m nowMs keys)
    {o : Option Event} (h : Kept id t v l v') {w : View} (hm : Move env id t o v' w) :
    Kept id t v (l ++ o.toList) w := by
  have hok := hm.ok h.ok
  cases hm with
  | redrive policy m nowMs keys => exact absurd rfl (hredrive policy m nowMs keys)
  | kill policy m nowMs keys => exact absurd rfl (hredrive policy m nowMs keys)
  | killFollowUp policy m nowMs keys => exact absurd rfl (hredrive policy m nowMs keys)
  | sweep => exact ⟨hok, (fun g hg => by cases hg), Or.inr (Or.inl ⟨_, rfl, Or.inl rfl⟩)⟩
  | deadLetter => exact ⟨hok, (fun g hg => by cases hg), Or.inr (Or.inl ⟨_, rfl, Or.inl rfl⟩)⟩
  | terminate => exact ⟨hok, (fun g hg => by cases hg), Or.inr (Or.inl ⟨_, rfl, Or.inr rfl⟩)⟩
  | @ack _ r u hlive hlease hclean =>
    rcases h.ack _ rfl with rfl | hnone
    · have hdirty := prepareDirtyFollowUp_eq_none (h.ok.live _ hlive).dirty hclean
      exact ⟨hok, fun g hg => Or.inr (by simp), Or.inr (Or.inr ⟨r, u, rfl, hlive, hlease, hdirty,
        by simp⟩)⟩
    · rw [hnone _ hlive] at hlease
      cases hlease
  | ackFollowUp hlive hlease hdirty =>
    obtain ⟨_, _, rfl⟩ := prepareDirtyFollowUp_eq_some hdirty
    refine ⟨hok, fun g hg => Or.inr ?_, Or.inl (by simp)⟩
    rintro r ⟨⟩
    rfl
  | compact nowMs hclock hdead hterminal hold =>
    refine ⟨hok, (fun g hg => by subst hg; cases hclock), ?_⟩
    rcases h.kept with hlive | ⟨d, hd, hout⟩ | hacked
    · exact Or.inl hlive
    · obtain rfl := Option.some.inj (hdead.symm.trans hd)
      exact absurd hold (hout.not_compacted (h.ok.dead _ hdead) hclock hterminal)
    · exact Or.inr (Or.inr (by simpa using hacked))
  | _ => exact ⟨hok, (fun g hg => by cases hg), Or.inl (by simp)⟩

/-- **Nothing but an acknowledgement or a redrive takes a delivery away.** -/
theorem Moves.kept (hredrive : ∀ policy m nowMs keys, t ≠ .redrive policy m nowMs keys)
    (h : Moves env id t l v v') (hv : v.Ok id) (hr : v.Recoverable) : Kept id t v l v' := by
  refine h.preserves (P := Kept id t v) (fun _ _ _ _ hk hm => hk.step hredrive hm)
    ⟨hv, fun _ _ => Or.inl rfl, ?_⟩
  rcases hr with hlive | ⟨d, hd, hrep, _⟩
  · exact Or.inl hlive
  · exact Or.inr (Or.inl ⟨d, hd, Or.inl hrep⟩)

/-- What becomes of a dead row in a transaction that is no redrive: it stays, or the transaction
writes another in its place, or it is terminal and old and is compacted. -/
theorem Moves.deadRow (hredrive : ∀ policy m nowMs keys, t ≠ .redrive policy m nowMs keys)
    (h : Moves env id t l v v') (hd : v.dead = some d) :
    v'.dead = some d ∨ (∃ d', v'.dead = some d' ∧ t.clock = some d'.deadAtMs) ∨
      v'.dead = none ∧ isTerminalDeadRecord d = true ∧
        ∃ nowMs, t.clock = some nowMs ∧ d.Old nowMs := by
  refine h.preserves (P := fun _ w => w.dead = some d ∨
    (∃ d', w.dead = some d' ∧ t.clock = some d'.deadAtMs) ∨
      w.dead = none ∧ isTerminalDeadRecord d = true ∧
        ∃ nowMs, t.clock = some nowMs ∧ d.Old nowMs) ?_ (Or.inl hd)
  intro _ _ w w' hw hm
  cases hm with
  | redrive policy m nowMs keys => exact absurd rfl (hredrive policy m nowMs keys)
  | kill policy m nowMs keys => exact absurd rfl (hredrive policy m nowMs keys)
  | killFollowUp policy m nowMs keys => exact absurd rfl (hredrive policy m nowMs keys)
  | sweep => exact Or.inr (Or.inl ⟨_, rfl, rfl⟩)
  | deadLetter => exact Or.inr (Or.inl ⟨_, rfl, rfl⟩)
  | terminate => exact Or.inr (Or.inl ⟨_, rfl, rfl⟩)
  | terminateFollowUp => exact Or.inr (Or.inl ⟨_, rfl, rfl⟩)
  | compact nowMs hclock hdead hterminal hold =>
    refine Or.inr (Or.inr ⟨rfl, ?_⟩)
    rcases hw with hw | ⟨d', hd', hwritten⟩ | ⟨hnone, hw⟩
    · obtain rfl := Option.some.inj (hdead.symm.trans hw)
      exact ⟨hterminal, nowMs, hclock, hold⟩
    · obtain rfl := Option.some.inj (hdead.symm.trans hd')
      exact absurd hold
        (DeadRecord.not_old_of_deadAtMs (Option.some.inj (hwritten.symm.trans hclock)))
    · rw [hnone] at hdead
      cases hdead
  | _ => exact hw

/-- The rows of a delivery are as the store writes them, so a dead row will do. -/
theorem View.Ok.accounted (hv : v.Ok id) (h : v.live ≠ none ∨ v.dead ≠ none) : v.Accounted := by
  rcases h with h | h
  · exact Or.inl h
  · obtain ⟨d, hd⟩ := Option.ne_none_iff_exists'.1 h
    have hperm := (hv.dead d hd).permanent
    refine Or.inr ⟨d, hd, ?_⟩
    cases hr : d.replayable with
    | true => exact Or.inl ⟨rfl, by simp [hperm, hr]⟩
    | false => exact Or.inr (by simp [hperm, hr])

end Moves

/-! ## Transactions -/

namespace Entry.Committed

variable {env : Env} {e : Entry} {id : String}

/-- **No delivery is lost in a transaction.** -/
theorem accounted (h : e.Committed env) (hr : (e.before.view id).Recoverable) :
    (e.after.view id).Accounted ∨ e.Acked id ∨ e.GaveUp id := by
  have hok := h.inv.ok id
  have hok' := h.effect.inv.ok id
  by_cases hredrive : ∃ policy m nowMs keys, e.txn = .redrive policy m nowMs keys
  · obtain ⟨policy, m, nowMs, keys, ht⟩ := hredrive
    obtain ⟨result, hreply, _, hpermanent, hred⟩ := h.redrive ht
    have hred := hred id
    generalize hl : e.events id = l at hred
    cases hred with
    | quiet live suppressed dead =>
      refine Or.inl (hok'.accounted ?_)
      rcases hr with hr | ⟨d, hd, hrep, hperm⟩
      · exact Or.inl (live ▸ hr)
      · rcases dead with dead | ⟨_, d', hd', hterminal, _⟩
        · exact Or.inr (by simp [dead, hd])
        · obtain rfl := Option.some.inj (hd.symm.trans hd')
          simp [isTerminalDeadRecord, hrep, hperm] at hterminal
    | redriven _ _ _ _ live => exact Or.inl (hok'.accounted (Or.inl (by simp [live])))
    | killedFollowedUp _ _ _ _ live => exact Or.inl (hok'.accounted (Or.inl (by simp [live])))
    | @killed _ d r dead replayable record why live suppressed after =>
      rcases after with ⟨keyed, excerpt, after⟩ | ⟨_, hold⟩
      · exact Or.inl (hok'.accounted (Or.inr (by simp [after])))
      · cases hlive : (e.before.view id).live with
        | some r' => exact Or.inl (hok'.accounted (Or.inl (by simp [live, hlive])))
        | none =>
          refine Or.inr (Or.inr ⟨policy, m, nowMs, keys, result, d, ht, hreply, hlive, dead,
            replayable, why.resolve_right (· hlive), hold, ?_, ?_⟩)
          · exact (hpermanent id).2 (Or.inl (by simp [hl]))
          · have hsup : e.after.terminalDeliveryIsSuppressed id = _ := suppressed
            simp [hsup, hlive, livePreservesKeyedDelivery]
  · have hkept := (h.moves id).kept (fun p m n k ht => hredrive ⟨p, m, n, k, ht⟩) hok hr
    rcases hkept.kept with hlive | ⟨d, hd, _⟩ | ⟨r, u, ht, hlive, hlease, hdirty, hl⟩
    · exact Or.inl (hok'.accounted (Or.inl hlive))
    · exact Or.inl (hok'.accounted (Or.inr (by simp [hd])))
    · exact Or.inr (Or.inl ⟨r, u, ht, h.reply_ack ht hl, hlive, hlease, hdirty⟩)

/-- **A terminal dead row goes only when the transaction writes another in its place, or when it is
old.** -/
theorem terminalRow (h : e.Committed env) {d : DeadRecord} (hd : e.before.deadById[id]? = some d)
    (hterminal : isTerminalDeadRecord d = true) :
    e.after.deadById[id]? = some d ∨
      (∃ d', e.after.deadById[id]? = some d' ∧ e.txn.clock = some d'.deadAtMs) ∨
      e.after.deadById[id]? = none ∧ ∃ nowMs, e.txn.clock = some nowMs ∧ d.Old nowMs := by
  have hrep : ∀ {d' : DeadRecord}, (e.before.view id).dead = some d' → d'.replayable = false := by
    intro d' hd'
    obtain rfl := Option.some.inj (hd.symm.trans hd')
    simpa [(h.inv.deadOk hd).isTerminal] using hterminal
  by_cases hredrive : ∃ policy m nowMs keys, e.txn = .redrive policy m nowMs keys
  · obtain ⟨policy, m, nowMs, keys, ht⟩ := hredrive
    obtain ⟨_, _, _, _, hred⟩ := h.redrive ht
    have hred := hred id
    generalize e.events id = l at hred
    cases hred with
    | quiet _ _ dead =>
      rcases dead with dead | ⟨dead, d', hd', _, hold⟩
      · exact Or.inl (dead.trans hd)
      · obtain rfl := Option.some.inj (hd.symm.trans hd')
        exact Or.inr (Or.inr ⟨dead, nowMs, by simp [ht, Txn.clock], hold⟩)
    | redriven dead replayable => simp [hrep dead] at replayable
    | killed dead replayable => simp [hrep dead] at replayable
    | killedFollowedUp dead replayable => simp [hrep dead] at replayable
  · rcases (h.moves id).deadRow (fun p m n k ht => hredrive ⟨p, m, n, k, ht⟩) hd with
      hstay | hwritten | ⟨hgone, _, hold⟩
    · exact Or.inl hstay
    · exact Or.inr (Or.inl hwritten)
    · exact Or.inr (Or.inr ⟨hgone, hold⟩)

/-- **A replayable dead row goes only in a redrive that reports it.** -/
theorem replayableRow (h : e.Committed env) {d : DeadRecord}
    (hd : e.before.deadById[id]? = some d) (hrep : d.replayable = true)
    (hgone : e.after.deadById[id]? = none) : e.Redrove id := by
  have hterminal : ¬ isTerminalDeadRecord d = true := by
    simp [(h.inv.deadOk hd).isTerminal, hrep]
  by_cases hredrive : ∃ policy m nowMs keys, e.txn = .redrive policy m nowMs keys
  · obtain ⟨policy, m, nowMs, keys, ht⟩ := hredrive
    obtain ⟨result, hreply, hevents, _, hred⟩ := h.redrive ht
    have hred := hred id
    refine ⟨policy, m, nowMs, keys, result, ht, hreply, ?_⟩
    by_cases hl : e.events id = []
    · rw [hl] at hred
      cases hred with
      | quiet _ _ dead =>
        rcases dead with dead | ⟨_, d', hd', hterminal', _⟩
        · have hboth := dead.symm.trans hgone
          rw [show (e.before.view id).dead = some d from hd] at hboth
          cases hboth
        · obtain rfl := Option.some.inj (hd.symm.trans hd')
          exact absurd hterminal' hterminal
    · rw [hevents] at hl
      unfold Store.redriveEvents at hl
      split at hl
      · rename_i hany
        exact Or.inl (by simpa using hany)
      · split at hl
        · rename_i hany
          exact Or.inr (by simpa using hany)
        · exact absurd rfl hl
  · rcases (h.moves id).deadRow (fun p m n k ht => hredrive ⟨p, m, n, k, ht⟩) hd with
      hstay | ⟨d', hwritten, _⟩ | ⟨_, hterminal', _⟩
    · exact absurd (hstay.symm.trans hgone) (by simp)
    · exact absurd (hwritten.symm.trans hgone) (by simp)
    · exact absurd hterminal' hterminal

end Entry.Committed

/-! ## Runs -/

end Fkst.Delivery
