import Fkst.Delivery.Sweeping
import Fkst.Lib.Checks

/-!
# What a delivery carries

A row is leased, retried, dead-lettered, brought back and rebound, and all the while it carries what it
was enqueued with: its id, queue, payload, source, time and whether it is keyed.  Its department changes
only where the queue is bound to another one.

So what holds of every record that is enqueued, and depends on nothing but what is carried, holds of
every row of every run (`World.run_carries`).  A dead row has its queue and its department by itself, also
where its record is gone; what holds of the queue and the department of every record that is enqueued
holds of them too (`World.run_served`).
-/

set_option autoImplicit false

namespace Fkst.Delivery

open Lib
open Lib.Checks (bind_eq_ok)

/-! ## Records and rows -/

/-- The two records carry the same, department included. -/
structure DeliveryRecord.CarriesSame (r r' : DeliveryRecord) : Prop where
  deliveryId : r'.deliveryId = r.deliveryId
  queue : r'.queue = r.queue
  dept : r'.dept = r.dept
  payload : r'.payload = r.payload
  source : r'.source = r.source
  cronPayload : r'.cronPayload = r.cronPayload
  observedAtMs : r'.observedAtMs = r.observedAtMs
  collapseByDedupId : r'.collapseByDedupId = r.collapseByDedupId

/-- The property depends on nothing but what is carried. -/
def IsCarried (P : DeliveryRecord → Prop) : Prop := ∀ r r', r.CarriesSame r' → P r → P r'

/-- The property is kept when a queue is bound to the department that a table has for it. -/
def KeptByBinding (P : DeliveryRecord → Prop) (currentDeptByQueue : Table String String) : Prop :=
  ∀ r dept, currentDeptByQueue[r.queue]? = some dept → P r → P { r with dept := dept }

/-- The live row of a delivery and the record of its dead letter have the property. -/
structure View.Carries (P : DeliveryRecord → Prop) (v : View) : Prop where
  live : ∀ r, v.live = some r → P r
  dead : ∀ d r, v.dead = some d → d.record = some r → P r

/-- All rows have the property. -/
def Store.Carries (P : DeliveryRecord → Prop) (s : Store) : Prop := ∀ id, (s.view id).Carries P

/-- What a transaction brings into the tables has the property. -/
def Txn.Brings (P : DeliveryRecord → Prop) : Txn → Prop
  | .enqueue record => P record.val
  | .rebind currentDeptByQueue => KeptByBinding P currentDeptByQueue
  | .redrive _ (some currentDeptByQueue) _ _ => KeptByBinding P currentDeptByQueue
  | _ => True

/-- What a call brings into the tables has the property. -/
def Call.Brings (P : DeliveryRecord → Prop) : Call → Prop
  | .enqueue record => P record.val
  | .rebind currentDeptByQueue => KeptByBinding P currentDeptByQueue
  | .redrive _ (some currentDeptByQueue) _ _ => KeptByBinding P currentDeptByQueue
  | _ => True

section Records

variable {env : Env} {id : String} {t : Txn} {P : DeliveryRecord → Prop} {r : DeliveryRecord}
  {v v' : View}

theorem carriesSame_followUp {f : DeliveryRecord} {due : UInt64}
    (h : prepareDirtyFollowUp r due = some f) : r.CarriesSame f := by
  obtain ⟨_, _, rfl⟩ := prepareDirtyFollowUp_eq_some h
  exact ⟨rfl, rfl, rfl, rfl, rfl, rfl, rfl, rfl⟩

/-- A record that is brought back is bound to the department that now has its queue, or to its own. -/
theorem carried_redriveRecord {policy : RedrivePolicy} {m : Option (Table String String)}
    {nowMs : UInt64} {keys : List DueIndexKey} (ht : (Txn.redrive policy m nowMs keys).Brings P)
    {d : DeadRecord} {r' : DeliveryRecord} (h : Store.redriveRecord m d r = some r') (hr : P r) :
    P r' := by
  unfold Store.redriveRecord at h
  split at h
  · split at h
    · cases h
    · split at h
      · cases h
      · rename_i dept hdept
        obtain rfl := Option.some.inj h
        exact ht r dept hdept hr
  · obtain rfl := Option.some.inj h
    exact hr

/-- One thing that happens to a delivery in a transaction that is no rebind. -/
theorem Move.carries (hP : IsCarried P) (ht : t.Brings P) (hrebind : ∀ m, t ≠ .rebind m)
    {o : Option Event} (hv : v.Carries P) (h : Move env id t o v v') : v'.Carries P := by
  have hsame : ∀ {r r' : DeliveryRecord}, v.live = some r → r.CarriesSame r' → P r' :=
    fun hr hsame => hP _ _ hsame (hv.live _ hr)
  have hlive : ∀ {r' : DeliveryRecord}, P r' → ∀ r, some r' = some r → P r := by
    rintro r' hr' r ⟨⟩
    exact hr'
  have hdead : ∀ {d : DeadRecord}, (∀ r, d.record = some r → P r) →
      ∀ d' r, some d = some d' → d'.record = some r → P r := by
    rintro d hd d' r ⟨⟩
    exact hd r
  have hnone : ∀ r, none = some r → P r := fun r h => by cases h
  have hno : ∀ {d : DeadRecord}, d.record = none → ∀ r, d.record = some r → P r := by
    intro d hd r hrecord
    rw [hd] at hrecord
    cases hrecord
  cases h with
  | insert record => exact ⟨hlive ht, hv.dead⟩
  | mark record hr => exact ⟨hlive (hsame hr ⟨rfl, rfl, rfl, rfl, rfl, rfl, rfl, rfl⟩), hv.dead⟩
  | reset record hr => exact ⟨hlive (hsame hr ⟨rfl, rfl, rfl, rfl, rfl, rfl, rfl, rfl⟩), hv.dead⟩
  | rebind m => exact absurd rfl (hrebind m)
  | absence queues nowMs budget candidates since hr =>
    exact ⟨hlive (hsame hr ⟨rfl, rfl, rfl, rfl, rfl, rfl, rfl, rfl⟩), hv.dead⟩
  | sweep queues nowMs budget candidates hr =>
    refine ⟨hnone, hdead fun r hrecord => ?_⟩
    obtain rfl := Option.some.inj hrecord
    exact hsame hr ⟨rfl, rfl, rfl, rfl, rfl, rfl, rfl, rfl⟩
  | renew renewals leaseUntilMs hr =>
    exact ⟨hlive (hsame hr ⟨rfl, rfl, rfl, rfl, rfl, rfl, rfl, rfl⟩), hv.dead⟩
  | grant nowMs batchLimit leaseDur dept excluded expired ready hr =>
    exact ⟨hlive (hsame hr ⟨rfl, rfl, rfl, rfl, rfl, rfl, rfl, rfl⟩), hv.dead⟩
  | grantNext nowMs leaseDur hr =>
    exact ⟨hlive (hsame hr ⟨rfl, rfl, rfl, rfl, rfl, rfl, rfl, rfl⟩), hv.dead⟩
  | ack => exact ⟨hnone, hv.dead⟩
  | ackFollowUp hr hlease hdirty => exact ⟨hlive (hsame hr (carriesSame_followUp hdirty)), hv.dead⟩
  | defer lock policy nowMs hr =>
    exact ⟨hlive (hsame hr ⟨rfl, rfl, rfl, rfl, rfl, rfl, rfl, rfl⟩), hv.dead⟩
  | retry failure policy nowMs due hr =>
    exact ⟨hlive (hsame hr ⟨rfl, rfl, rfl, rfl, rfl, rfl, rfl, rfl⟩), hv.dead⟩
  | deadLetter failure policy nowMs hr =>
    refine ⟨hnone, hdead fun r hrecord => ?_⟩
    obtain rfl := Option.some.inj hrecord
    exact hsame hr ⟨rfl, rfl, rfl, rfl, rfl, rfl, rfl, rfl⟩
  | terminate => exact ⟨hnone, hdead (hno rfl)⟩
  | @terminateFollowUp _ r f u failure policy nowMs hr hlease hused hreplayable hdirty =>
    have hfailed : P (r.failed failure) := hsame hr ⟨rfl, rfl, rfl, rfl, rfl, rfl, rfl, rfl⟩
    exact ⟨hlive (hP _ _ (carriesSame_followUp hdirty) hfailed), hdead (hno rfl)⟩
  | @redrive _ d r r' policy m nowMs keys hlive' hd hreplayable hrecord hdept =>
    have hr' : P r' := carried_redriveRecord ht hdept (hv.dead _ _ hd hrecord)
    exact ⟨hlive (hP r' _ ⟨rfl, rfl, rfl, rfl, rfl, rfl, rfl, rfl⟩ hr'), fun d r h => by cases h⟩
  | kill => exact ⟨hv.live, hdead (hno rfl)⟩
  | killFollowUp policy m nowMs keys hlive' hd hreplayable hrecord hdept hcool hused hdirty =>
    have hr' := carried_redriveRecord ht hdept (hv.dead _ _ hd hrecord)
    exact ⟨hlive (hP _ _ (carriesSame_followUp hdirty) hr'), hdead (hno rfl)⟩
  | compact => exact ⟨hv.live, fun d r h => by cases h⟩

theorem carried_reboundTo (hP : IsCarried P) {m : Table String String} (hm : KeptByBinding P m)
    (hr : P r) : P (r.reboundTo m) := by
  rw [DeliveryRecord.reboundTo]
  split
  · exact hr
  · rename_i dept hdept
    split
    · exact hr
    · exact hP { r with dept := dept } _ ⟨rfl, rfl, rfl, rfl, rfl, rfl, rfl, rfl⟩ (hm r dept hdept hr)

/-- A rebind leaves the dead rows alone. -/
theorem dead_of_moves_rebind {m : Table String String} {l : List Event}
    (h : Moves env id (.rebind m) l v v') : v'.dead = v.dead := by
  refine h.preserves (P := fun _ w => w.dead = v.dead) ?_ rfl
  intro l o w w' hw hm
  cases hm with
  | rebind => exact hw
  | compact nowMs hclock => cases hclock

end Records

/-! ## Runs -/

section Runs

variable {env : Env} {P : DeliveryRecord → Prop}

/-- **A transaction** keeps the property of all rows. -/
theorem Entry.Committed.carries {e : Entry} (h : e.Committed env) (hP : IsCarried P)
    (ht : e.txn.Brings P) (hbefore : e.before.Carries P) : e.after.Carries P := by
  intro id
  by_cases hrebind : ∃ m, e.txn = .rebind m
  · obtain ⟨m, hm⟩ := hrebind
    have hmoves := h.moves id
    have hcommit := h.commit
    rw [hm] at hmoves hcommit ht
    have hafter : e.after = (e.before.rebindDeliveriesToCurrentSubscribers env m).1 :=
      (congrArg Prod.fst (Except.ok.inj hcommit)).symm
    refine ⟨fun r hr => ?_, fun d r hd => (hbefore id).dead d r (dead_of_moves_rebind hmoves ▸ hd)⟩
    have hr : e.after.deliveryById[id]? = some r := hr
    rw [hafter, Store.get_rebind] at hr
    obtain ⟨r₀, hr₀, rfl⟩ := Option.map_eq_some_iff.1 hr
    exact carried_reboundTo hP ht ((hbefore id).live r₀ hr₀)
  · have hrebind : ∀ m, e.txn ≠ .rebind m := fun m hm => hrebind ⟨m, hm⟩
    exact (h.moves id).preserves (P := fun _ w => w.Carries P)
      (fun _ _ _ _ hw hm => hm.carries hP ht hrebind hw) (hbefore id)

/-- The read phase of a call adds nothing to what the call brings. -/
theorem brings_of_plan {s : Store} {call : Call} {t : Txn} (h : s.plan call = .ok (some t))
    (hcall : call.Brings P) : t.Brings P := by
  cases call with
  | enqueue record =>
    obtain rfl := Option.some.inj (Except.ok.inj h)
    exact hcall
  | rebind m =>
    obtain rfl := Option.some.inj (Except.ok.inj h)
    exact hcall
  | redrive policy m nowMs batchLimit =>
    rw [Store.plan] at h
    split at h
    · cases h
    · obtain ⟨keys, _, h⟩ := bind_eq_ok.1 h
      split at h
      · cases h
      · obtain rfl := Option.some.inj (Except.ok.inj h)
        cases m with
        | none => trivial
        | some m => exact hcall
  | sweep =>
    dsimp only [Store.plan] at h
    split at h
    · cases h
    · split at h
      · cases h
      · obtain rfl := Option.some.inj (Except.ok.inj h)
        trivial
  | renew =>
    dsimp only [Store.plan] at h
    split at h
    · cases h
    · obtain rfl := Option.some.inj (Except.ok.inj h)
      trivial
  | lease =>
    rw [Store.plan] at h
    split at h
    · cases h
    · obtain ⟨⟨expired, ready⟩, _, h⟩ := bind_eq_ok.1 h
      dsimp only at h
      split at h
      · cases h
      · obtain rfl := Option.some.inj (Except.ok.inj h)
        trivial
  | nextDue =>
    obtain ⟨next, _, h⟩ := bind_eq_ok.1 h
    obtain ⟨due, _, rfl⟩ := Option.map_eq_some_iff.1 (Except.ok.inj h)
    trivial
  | ack | deferLockBusy | retry | reopen =>
    obtain rfl := Option.some.inj (Except.ok.inj h)
    trivial

namespace World

/-- All rows have the property, and so has all that calls under way will bring. -/
structure Carries (P : DeliveryRecord → Prop) (w : World) : Prop where
  rows : w.store.Carries P
  pending : ∀ t ∈ w.pending, t.Brings P

theorem carries_init : init.Carries P :=
  ⟨fun id => ⟨fun r hr => by simp [init, Store.view, Store.empty] at hr, fun d r hd => by
    simp [init, Store.view, Store.empty] at hd⟩, fun t ht => by simp [init] at ht⟩

theorem step_carries (hP : IsCarried P) {w : World} (hw : w.Inv) (h : w.Carries P) {a : Act}
    (ha : ∀ call, a = .start call → call.Brings P) : (w.step env a).1.Carries P := by
  cases a with
  | start call =>
    unfold step
    dsimp only
    split
    · rename_i t hplan
      refine ⟨h.rows, fun t' ht' => ?_⟩
      rcases List.mem_append.1 ht' with ht' | ht'
      · exact h.pending t' ht'
      · obtain rfl := List.mem_singleton.1 ht'
        exact brings_of_plan hplan (ha call rfl)
    · exact h
  | finish i =>
    unfold step
    dsimp only
    split
    · exact h
    · rename_i t ht
      have hmem := List.mem_of_getElem? ht
      have hrest : ∀ t' ∈ w.pending.eraseIdx i, t'.Brings P :=
        fun t' ht' => h.pending t' (List.mem_of_mem_eraseIdx ht')
      split
      · rename_i s reply hcommit
        have he : Entry.Committed env ⟨w.store, t, reply, s⟩ := ⟨hw.store, hw.planned t hmem, hcommit⟩
        exact ⟨he.carries hP (h.pending t hmem) h.rows, hrest⟩
      · exact ⟨h.rows, hrest⟩

/-- **What is carried, every row of every run has**, if all that is brought into the tables has it. -/
theorem run_carries (hP : IsCarried P) (acts : List Act)
    (hacts : ∀ call, .start call ∈ acts → call.Brings P) : (init.run env acts).1.Carries P := by
  have hrun : ∀ (acts : List Act) (w : World), w.Inv → w.Carries P →
      (∀ call, .start call ∈ acts → call.Brings P) → (w.run env acts).1.Carries P := by
    intro acts
    induction acts with
    | nil => exact fun w _ h _ => h
    | cons a acts ih =>
      intro w hw h hacts
      refine ih _ (step_cases env hw a).1 (step_carries hP hw h fun call ha => ?_)
        fun call hcall => hacts call (List.mem_cons_of_mem _ hcall)
      exact hacts call (ha ▸ List.mem_cons_self)
  exact hrun acts init inv_init carries_init hacts

end World

end Runs

/-! ## Dead rows -/

section Served

variable {env : Env} {Q : String → String → Prop}

/-- The queue and the department of the record are in the relation. -/
def DeliveryRecord.Served (Q : String → String → Prop) (r : DeliveryRecord) : Prop := Q r.queue r.dept

/-- The queue and the department of the dead row are. -/
def View.DeadServed (Q : String → String → Prop) (v : View) : Prop :=
  ∀ d, v.dead = some d → Q d.queue d.dept

/-- Those of all rows are. -/
structure Store.Served (Q : String → String → Prop) (s : Store) : Prop where
  carries : s.Carries (DeliveryRecord.Served Q)
  dead : ∀ id, (s.view id).DeadServed Q

theorem isCarried_served : IsCarried (DeliveryRecord.Served Q) := by
  intro r r' hsame hr
  rw [DeliveryRecord.Served, hsame.queue, hsame.dept]
  exact hr

/-- A dead row is of the live row that died, or of a dead one. -/
theorem Move.deadServed {id : String} {t : Txn} {o : Option Event} {v v' : View}
    (hv : v.Carries (DeliveryRecord.Served Q)) (hdead : v.DeadServed Q) (h : Move env id t o v v') :
    v'.DeadServed Q := by
  have hnew : ∀ {d : DeadRecord}, Q d.queue d.dept → ∀ d', some d = some d' → Q d'.queue d'.dept := by
    rintro d hd d' ⟨⟩
    exact hd
  cases h with
  | sweep queues nowMs budget candidates hr =>
    have hserved := hv.live _ hr
    exact hnew hserved
  | deadLetter failure policy nowMs hr =>
    have hserved := hv.live _ hr
    exact hnew hserved
  | terminate failure policy nowMs hr =>
    have hserved := hv.live _ hr
    exact hnew hserved
  | terminateFollowUp failure policy nowMs hr =>
    have hserved := hv.live _ hr
    exact hnew hserved
  | kill policy m nowMs keys excerpt hd =>
    have hserved := hdead _ hd
    exact hnew hserved
  | killFollowUp policy m nowMs keys hlive hd =>
    have hserved := hdead _ hd
    exact hnew hserved
  | redrive | compact => exact fun d hd => by cases hd
  | insert | mark | reset | rebind | absence | renew | grant | grantNext | ack | ackFollowUp | defer |
    retry => exact hdead

/-- A transaction keeps all rows in the relation. -/
theorem Entry.Committed.served {e : Entry} (h : e.Committed env)
    (ht : e.txn.Brings (DeliveryRecord.Served Q)) (hbefore : e.before.Served Q) : e.after.Served Q := by
  refine ⟨h.carries isCarried_served ht hbefore.carries, fun id => ?_⟩
  by_cases hrebind : ∃ m, e.txn = .rebind m
  · obtain ⟨m, hm⟩ := hrebind
    intro d hd
    rw [dead_of_moves_rebind (hm ▸ h.moves id)] at hd
    exact hbefore.dead id d hd
  · have hrebind : ∀ m, e.txn ≠ .rebind m := fun m hm => hrebind ⟨m, hm⟩
    refine ((h.moves id).preserves
      (P := fun _ w => w.Carries (DeliveryRecord.Served Q) ∧ w.DeadServed Q) ?_
      ⟨hbefore.carries id, hbefore.dead id⟩).2
    rintro _ _ w w' ⟨hw, hd⟩ hm
    exact ⟨hm.carries isCarried_served ht hrebind hw, hm.deadServed hw hd⟩

/-! ### What a redrive reports -/

theorem same_of_redriveExhausted {s s' : Store} {key : DueIndexKey} {d d' : DeadRecord}
    {r : DeliveryRecord} {nowMs : UInt64} (h : s.redriveExhausted env key d r nowMs = .ok (s', d')) :
    d'.queue = d.queue ∧ d'.dept = d.dept := by
  rw [Store.redriveExhausted] at h
  split at h
  · obtain ⟨_, rfl⟩ := Prod.mk.inj (Except.ok.inj h)
    exact ⟨rfl, rfl⟩
  · split at h
    · obtain ⟨_, _, h⟩ := bind_eq_ok.1 h
      obtain ⟨_, rfl⟩ := Prod.mk.inj (Except.ok.inj h)
      exact ⟨rfl, rfl⟩
    · obtain ⟨_, rfl⟩ := Prod.mk.inj (Except.ok.inj h)
      exact ⟨rfl, rfl⟩

theorem same_of_redriveCollision {s s' : Store} {key : DueIndexKey} {d d' : DeadRecord}
    {r live : DeliveryRecord} (h : s.redriveCollision env key d r live = .ok (s', d')) :
    d'.queue = d.queue ∧ d'.dept = d.dept := by
  rw [Store.redriveCollision] at h
  split at h
  · obtain ⟨_, _, h⟩ := bind_eq_ok.1 h
    obtain ⟨_, rfl⟩ := Prod.mk.inj (Except.ok.inj h)
    exact ⟨rfl, rfl⟩
  · obtain ⟨_, rfl⟩ := Prod.mk.inj (Except.ok.inj h)
    exact ⟨rfl, rfl⟩

/-- A dead letter that is reported as given up is the row that was found, of the same queue and
department. -/
theorem permanent_of_redriveKey {policy : RedrivePolicy} {m : Option (Table String String)}
    {nowMs : UInt64} {loop loop' : Store.RedriveLoop} {key : DueIndexKey}
    (h : Store.redriveKey env policy m nowMs loop key = .ok loop') :
    loop'.result.permanent = loop.result.permanent ∨
      ∃ d d', loop.store.deadById[key.deliveryId]? = some d ∧ d'.queue = d.queue ∧ d'.dept = d.dept ∧
        loop'.result.permanent = loop.result.permanent ++ [d'] := by
  rw [Store.redriveKey] at h
  split at h
  · obtain rfl := Except.ok.inj h
    exact .inl rfl
  · rename_i d hd
    split at h
    · obtain rfl := Except.ok.inj h
      exact .inl rfl
    · split at h
      · obtain rfl := Except.ok.inj h
        exact .inl rfl
      · split at h
        · obtain rfl := Except.ok.inj h
          exact .inl rfl
        · split at h
          · obtain ⟨s, _, h⟩ := bind_eq_ok.1 h
            obtain rfl := Except.ok.inj h
            exact .inr ⟨d, { d with permanent := true, replayable := false }, hd, rfl, rfl, rfl⟩
          · split at h
            · obtain rfl := Except.ok.inj h
              exact .inl rfl
            · rw [Store.redriveDue] at h
              dsimp only at h
              split at h
              · obtain ⟨⟨s, d'⟩, hrun, h⟩ := bind_eq_ok.1 h
                obtain rfl := Except.ok.inj h
                have hsame := same_of_redriveExhausted hrun
                exact .inr ⟨d, d', hd, hsame.1, hsame.2, rfl⟩
              · split at h
                · obtain ⟨⟨s, d'⟩, hrun, h⟩ := bind_eq_ok.1 h
                  obtain rfl := Except.ok.inj h
                  have hsame := same_of_redriveCollision hrun
                  exact .inr ⟨d, d', hd, hsame.1, hsame.2, rfl⟩
                · obtain rfl := Except.ok.inj h
                  exact .inl rfl

/-- All of a redrive: what it reports as given up is in the relation. -/
theorem permanent_of_redriveKeys (x : Store.RedriveTxn) (ht : x.txn.Brings (DeliveryRecord.Served Q)) :
    ∀ {keys : List DueIndexKey} {loop loop' : Store.RedriveLoop}, loop.store.Inv →
      (∀ k ∈ keys, k.DeadWellFormed) → loop.store.Served Q →
      (∀ d ∈ loop.result.permanent, Q d.queue d.dept) →
      Store.redriveKeys env x.policy x.currentDeptByQueue x.nowMs keys loop = .ok loop' →
      ∀ d ∈ loop'.result.permanent, Q d.queue d.dept
  | [], loop, loop', _, _, _, hreported, h => by
    obtain rfl := Except.ok.inj h
    exact hreported
  | key :: keys, loop, loop', hs, hkeys, hserved, hreported, h => by
    rw [List.forall_mem_cons] at hkeys
    obtain ⟨loop₁, hkey, h⟩ := bind_eq_ok.1 h
    obtain ⟨o, heffect⟩ := Store.redriveKey_effect (x := x) hs hkeys.1 hkey
    have hrebind : ∀ m, x.txn ≠ .rebind m := fun m hm => by cases hm
    have hserved₁ : loop₁.store.Served Q := by
      have hkept := fun id => (heffect.effect.moves id).preserves
        (P := fun _ w => w.Carries (DeliveryRecord.Served Q) ∧ w.DeadServed Q)
        (fun _ _ _ _ hw hm => ⟨hm.carries isCarried_served ht hrebind hw.1, hm.deadServed hw.1 hw.2⟩)
        ⟨hserved.carries id, hserved.dead id⟩
      exact ⟨fun id => (hkept id).1, fun id => (hkept id).2⟩
    refine permanent_of_redriveKeys x ht heffect.effect.inv hkeys.2 hserved₁ ?_ h
    rcases permanent_of_redriveKey hkey with heq | ⟨d, d', hd, hqueue, hdept, heq⟩
    · rw [heq]
      exact hreported
    · rw [heq, List.forall_mem_append]
      refine ⟨hreported, ?_⟩
      rw [List.forall_mem_singleton, hqueue, hdept]
      exact hserved.dead _ d hd

/-- The compaction after the loop leaves what is reported. -/
theorem result_of_redriveDueInner {s s' : Store} {policy : RedrivePolicy}
    {m : Option (Table String String)} {nowMs : UInt64} {keys : List DueIndexKey} {result : RedriveResult}
    (h : s.redriveDueInner env policy m nowMs keys = .ok (s', result)) :
    ∃ loop, Store.redriveKeys env policy m nowMs keys ⟨s, ⟨[], []⟩, false⟩ = .ok loop ∧
      result = loop.result := by
  rw [Store.redriveDueInner] at h
  obtain ⟨loop, hloop, h⟩ := bind_eq_ok.1 h
  obtain ⟨⟨compacted, count⟩, _, h⟩ := bind_eq_ok.1 h
  refine ⟨loop, hloop, ?_⟩
  dsimp only at h
  split at h
  · exact (Prod.mk.inj (Except.ok.inj h)).2.symm
  · exact (Prod.mk.inj (Except.ok.inj h)).2.symm

/-- **A redrive** gives up nothing that is not in the relation. -/
theorem Entry.Committed.permanent {e : Entry} (h : e.Committed env)
    {policy : RedrivePolicy} {m : Option (Table String String)} {nowMs : UInt64} {keys : List DueIndexKey}
    (htxn : e.txn = .redrive policy m nowMs keys) {result : RedriveResult}
    (hreply : e.reply = .redrive result) (ht : e.txn.Brings (DeliveryRecord.Served Q))
    (hbefore : e.before.Served Q) : ∀ d ∈ result.permanent, Q d.queue d.dept := by
  obtain ⟨before, txn, reply, after⟩ := e
  obtain rfl : txn = _ := htxn
  obtain rfl : reply = _ := hreply
  obtain ⟨result', hresult, hrun⟩ := Store.commit_redrive h.commit
  obtain rfl := Reply.redrive.inj hresult
  obtain ⟨loop, hloop, heq⟩ := result_of_redriveDueInner hrun
  rw [heq]
  exact permanent_of_redriveKeys ⟨policy, m, nowMs, keys⟩ ht h.inv h.planned hbefore (by simp) hloop

/-! ### Runs -/

/-- What a transaction of a run found and brought in is in the relation. -/
def Entry.Served (Q : String → String → Prop) (e : Entry) : Prop :=
  e.before.Served Q ∧ e.txn.Brings (DeliveryRecord.Served Q)

namespace World

/-- All rows are in the relation, and so is what all calls under way will bring. -/
structure Served (Q : String → String → Prop) (w : World) : Prop where
  rows : w.store.Served Q
  pending : ∀ t ∈ w.pending, t.Brings (DeliveryRecord.Served Q)

theorem served_init : init.Served Q :=
  ⟨⟨(carries_init (P := DeliveryRecord.Served Q)).rows, fun id d hd => by
    simp [init, Store.view, Store.empty] at hd⟩, fun t ht => by simp [init] at ht⟩

theorem step_served {w : World} (hw : w.Inv) (h : w.Served Q) {a : Act}
    (ha : ∀ call, a = .start call → call.Brings (DeliveryRecord.Served Q)) :
    (w.step env a).1.Served Q ∧ ∀ e ∈ (w.step env a).2, e.Served Q := by
  cases a with
  | start call =>
    unfold step
    dsimp only
    split
    · rename_i t hplan
      refine ⟨⟨h.rows, fun t' ht' => ?_⟩, fun e he => by cases he⟩
      rcases List.mem_append.1 ht' with ht' | ht'
      · exact h.pending t' ht'
      · obtain rfl := List.mem_singleton.1 ht'
        exact brings_of_plan hplan (ha call rfl)
    · exact ⟨h, fun e he => by cases he⟩
  | finish i =>
    unfold step
    dsimp only
    split
    · exact ⟨h, fun e he => by cases he⟩
    · rename_i t ht
      have hmem := List.mem_of_getElem? ht
      have hrest : ∀ t' ∈ w.pending.eraseIdx i, t'.Brings (DeliveryRecord.Served Q) :=
        fun t' ht' => h.pending t' (List.mem_of_mem_eraseIdx ht')
      split
      · rename_i s reply hcommit
        have he : Entry.Committed env ⟨w.store, t, reply, s⟩ := ⟨hw.store, hw.planned t hmem, hcommit⟩
        refine ⟨⟨he.served (h.pending t hmem) h.rows, hrest⟩, fun e hentry => ?_⟩
        obtain rfl := Option.some.inj hentry
        exact ⟨h.rows, h.pending t hmem⟩
      · exact ⟨⟨h.rows, hrest⟩, fun e he => by cases he⟩

/-- **Every row of every run is in the relation**, the dead ones included, if all that is brought into the
tables is. -/
theorem run_served (acts : List Act)
    (hacts : ∀ call, .start call ∈ acts → call.Brings (DeliveryRecord.Served Q)) :
    (init.run env acts).1.Served Q ∧ ∀ e ∈ (init.run env acts).2, e.Served Q := by
  have hrun : ∀ (acts : List Act) (w : World), w.Inv → w.Served Q →
      (∀ call, .start call ∈ acts → call.Brings (DeliveryRecord.Served Q)) →
      (w.run env acts).1.Served Q ∧ ∀ e ∈ (w.run env acts).2, e.Served Q := by
    intro acts
    induction acts with
    | nil => exact fun w _ h _ => ⟨h, fun e he => by cases he⟩
    | cons a acts ih =>
      intro w hw h hacts
      obtain ⟨hnext, hentry⟩ : (w.step env a).1.Served Q ∧ ∀ e ∈ (w.step env a).2, e.Served Q :=
        step_served hw h fun call ha => hacts call (ha ▸ List.mem_cons_self)
      obtain ⟨hlast, hentries⟩ := ih _ (step_cases env hw a).1 hnext fun call hcall =>
        hacts call (List.mem_cons_of_mem _ hcall)
      rw [run, Machine.run_cons]
      refine ⟨hlast, fun e he => ?_⟩
      rcases List.mem_append.1 he with he | he
      · exact hentry e (Option.mem_toList.1 he)
      · exact hentries e he
  exact hrun acts init inv_init served_init hacts

end World

end Served

end Fkst.Delivery
