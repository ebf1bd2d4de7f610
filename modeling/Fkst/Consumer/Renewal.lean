import Mathlib.Data.List.Induction
import Fkst.Consumer.Admission
import Fkst.Delivery.Fencing

/-!
# Renewal beats expiry

A running delivery is leased for `stall_window` and six seconds more, and its lease is renewed when
half of that is over, at the next tick of the loop.  As long as the ticks are not more than two
seconds apart this is in time: at every instant at which a delivery is running and still owned, its
lease has not run out.

The argument follows one number.  Between two ticks every lease is known to last for another two and
a half seconds from the last tick (`Leases.lasts`); a tick either finds that a lease is not due for
renewal yet, or renews it.
-/

set_option autoImplicit false

namespace Fkst.Consumer

open Lib
open Delivery

/-! ## Lease and renewal interval -/

/-- The lease, in milliseconds. -/
def leaseMs (stallWindow : Duration) : ℕ := stallWindow.asMillis + 6000

/-- The time after which a lease is renewed, in milliseconds. -/
def renewMs (stallWindow : Duration) : ℕ := leaseMs stallWindow / 2

section

variable {stallWindow : Duration}

theorem asNanos_retryLease (h : leaseMs stallWindow < 2 ^ 64) :
    (retryLease stallWindow).asNanos = stallWindow.asNanos + 6000000000 := by
  rw [leaseMs, Duration.asMillis_eq] at h
  have h1 : dispatchInterval.asNanos = 1000000000 := by
    simp [dispatchInterval, Duration.asNanos_fromSecs]
  have h5 : (Duration.fromSecs 5).asNanos = 5000000000 := by simp [Duration.asNanos_fromSecs]
  have hfirst : (stallWindow.saturatingAdd dispatchInterval).asNanos =
      stallWindow.asNanos + dispatchInterval.asNanos := Duration.asNanos_saturatingAdd (by omega)
  have hsecond : (retryLease stallWindow).asNanos =
      (stallWindow.saturatingAdd dispatchInterval).asNanos + (Duration.fromSecs 5).asNanos :=
    Duration.asNanos_saturatingAdd (by omega)
  omega

theorem toNat_retryLease (h : leaseMs stallWindow < 2 ^ 64) :
    (durationMillis (retryLease stallWindow)).toNat = leaseMs stallWindow := by
  rw [toNat_durationMillis, Duration.asMillis_eq, asNanos_retryLease h]
  rw [leaseMs, Duration.asMillis_eq] at h ⊢
  omega

theorem toNat_renewInterval (h : leaseMs stallWindow < 2 ^ 64) :
    (durationMillis (renewInterval stallWindow)).toNat = renewMs stallWindow := by
  have h1 : (Duration.fromSecs 1).asNanos = 1000000000 := by simp [Duration.asNanos_fromSecs]
  rw [toNat_durationMillis, Duration.asMillis_eq, renewInterval, Duration.asNanos_max,
    Duration.asNanos_half, asNanos_retryLease h, h1]
  rw [renewMs, leaseMs, Duration.asMillis_eq] at *
  omega

theorem renewMs_lt_leaseMs (stallWindow : Duration) :
    0 < renewMs stallWindow ∧ renewMs stallWindow + 3000 ≤ leaseMs stallWindow := by
  rw [renewMs, leaseMs]
  omega

/-- The end of a lease, below saturation. -/
theorem toNat_leaseUntil {nowMs : UInt64} (h : nowMs.toNat + leaseMs stallWindow < 2 ^ 64) :
    (saturatingAdd nowMs (durationMillis (retryLease stallWindow))).toNat =
      nowMs.toNat + leaseMs stallWindow := by
  rw [toNat_saturatingAdd, toNat_retryLease (by omega)]
  omega

/-- The time of the next renewal, below saturation. -/
theorem toNat_nextRenewAtMs {nowMs : UInt64} (h : nowMs.toNat + leaseMs stallWindow < 2 ^ 64) :
    (nextRenewAtMs nowMs stallWindow).toNat = nowMs.toNat + renewMs stallWindow := by
  have := renewMs_lt_leaseMs stallWindow
  rw [nextRenewAtMs, toNat_saturatingAdd, toNat_renewInterval (by omega)]
  omega

end

end Fkst.Consumer

namespace Fkst.Delivery

open Lib

/-! ## The lease of one delivery in one transaction -/

/-- The delivery is leased with generation `g` until `u`. -/
def View.LeasedAs (g u : UInt64) (v : View) : Prop :=
  ∃ r, v.live = some r ∧ r.leaseGeneration = g ∧ r.leaseUntilMs = some u

/-- A transaction that may set a lease, or change what it is called. -/
def Txn.setsLease : Txn → Bool
  | .rebind _ => true
  | .renew _ _ => true
  | .lease _ _ _ _ _ _ _ => true
  | .leaseDelivery _ _ _ => true
  | _ => false

section

variable {env : Env} {id : String} {t : Txn} {v v' : View} {g u : UInt64}

theorem View.LeasedAs.of_live {r r' : DeliveryRecord} {dead : Option DeadRecord} {suppressed : Bool}
    (h : View.LeasedAs g u ⟨some r', dead, suppressed⟩) (hlive : v.live = some r)
    (hg : r'.leaseGeneration = r.leaseGeneration) (hu : r'.leaseUntilMs = r.leaseUntilMs) :
    v.LeasedAs g u := by
  obtain ⟨_, ⟨⟩, hg', hu'⟩ := h
  exact ⟨r, hlive, hg.symm.trans hg', hu.symm.trans hu'⟩

theorem View.not_leasedAs {r' : DeliveryRecord} {dead : Option DeadRecord} {suppressed : Bool}
    (hu : r'.leaseUntilMs = none) : ¬ View.LeasedAs g u ⟨some r', dead, suppressed⟩ := by
  rintro ⟨_, ⟨⟩, _, hu'⟩
  rw [hu] at hu'
  cases hu'

/-- No other move brings a lease about. -/
theorem Move.leasedAs_before {o : Option Event} (h : Move env id t o v v')
    (ht : t.setsLease = false) (hv' : v'.LeasedAs g u) : v.LeasedAs g u := by
  cases h with
  | insert record hid hlive hsuppressed =>
    exact absurd hv' (View.not_leasedAs record.2.2.2.2.2.2)
  | mark record hlive hlease hkeyed => exact hv'.of_live hlive rfl rfl
  | reset record hlive hlease => exact absurd hv' (View.not_leasedAs rfl)
  | rebind m newDept hlive => cases ht
  | absence queues nowMs budget candidates since hlive => exact hv'.of_live hlive rfl rfl
  | sweep queues nowMs budget candidates hlive =>
    obtain ⟨_, ⟨⟩, _⟩ := hv'
  | renew renewals leaseUntilMs hlive hlease => cases ht
  | grant nowMs batchLimit leaseDur dept excluded expired ready hlive hdue hdept hexcluded => cases ht
  | grantNext nowMs leaseDur hlive hdue => cases ht
  | ack hlive hlease hclean =>
    obtain ⟨_, ⟨⟩, _⟩ := hv'
  | ackFollowUp hlive hlease hdirty =>
    obtain ⟨_, _, rfl⟩ := prepareDirtyFollowUp_eq_some hdirty
    exact absurd hv' (View.not_leasedAs rfl)
  | defer lock policy nowMs hlive hlease => exact absurd hv' (View.not_leasedAs rfl)
  | retry failure policy nowMs due hlive hlease hleft => exact absurd hv' (View.not_leasedAs rfl)
  | deadLetter failure policy nowMs hlive hlease hused hreplayable =>
    obtain ⟨_, ⟨⟩, _⟩ := hv'
  | terminate failure policy nowMs hlive hlease hused hreplayable hclean =>
    obtain ⟨_, ⟨⟩, _⟩ := hv'
  | terminateFollowUp failure policy nowMs hlive hlease hused hreplayable hdirty =>
    obtain ⟨_, _, rfl⟩ := prepareDirtyFollowUp_eq_some hdirty
    exact absurd hv' (View.not_leasedAs rfl)
  | redrive policy m nowMs keys hlive hdead hreplayable hrecord hdept hcool hleft =>
    exact absurd hv' (View.not_leasedAs rfl)
  | kill policy m nowMs keys excerpt hdead hreplayable hrecord hcool hwhy hclean => exact hv'
  | killFollowUp policy m nowMs keys hlive hdead hreplayable hrecord hdept hcool hused hdirty =>
    obtain ⟨_, _, rfl⟩ := prepareDirtyFollowUp_eq_some hdirty
    exact absurd hv' (View.not_leasedAs rfl)
  | compact nowMs hclock hdead hterminal hold => exact hv'

theorem Moves.leasedAs_before {l : List Event} (h : Moves env id t l v v')
    (ht : t.setsLease = false) (hv' : v'.LeasedAs g u) : v.LeasedAs g u :=
  h.preserves (P := fun _ w => w.LeasedAs g u → v.LeasedAs g u)
    (fun _ _ _ _ ih hm hw => ih (hm.leasedAs_before ht hw)) (fun hw => hw) hv'

/-- A lease does not touch a delivery that is leased for longer, or excluded. -/
theorem Moves.live_of_lease {nowMs : UInt64} {batchLimit : ℕ} {leaseDur : Duration}
    {dept : Option String} {excluded : Std.ExtTreeSet String} {expired ready : List DueIndexKey}
    {l : List Event}
    (h : Moves env id (.lease nowMs batchLimit leaseDur dept excluded expired ready) l v v')
    (hkept : id ∈ excluded ∨ ∃ r u, v.live = some r ∧ r.leaseUntilMs = some u ∧ nowMs < u) :
    v'.live = v.live := by
  refine h.preserves (P := fun _ w => w.live = v.live) (fun _ o w w' hw hm => ?_) rfl
  cases hm with
  | grant _ _ _ _ _ _ _ hlive hdue hdept hexcluded =>
    rcases hkept with hin | ⟨r, u, hr, hu, hlt⟩
    · exact absurd hin hexcluded
    · rw [hw, hr] at hlive
      obtain rfl := Option.some.inj hlive
      rcases hdue with ⟨hnone, _⟩ | ⟨u', hu', hle⟩
      · rw [hu] at hnone
        cases hnone
      · obtain rfl := Option.some.inj (hu.symm.trans hu')
        exact absurd (UInt64.lt_of_lt_of_le hlt hle) (UInt64.lt_irrefl _)
  | compact _ hclock => cases hclock

/-- Nor does a lease of a single delivery. -/
theorem Moves.live_of_leaseDelivery {j : String} {nowMs : UInt64} {leaseDur : Duration}
    {l : List Event} (h : Moves env id (.leaseDelivery j nowMs leaseDur) l v v')
    (hkept : ∃ r u, v.live = some r ∧ r.leaseUntilMs = some u ∧ nowMs < u) : v'.live = v.live := by
  obtain ⟨r, u, hr, hu, hlt⟩ := hkept
  refine h.preserves (P := fun _ w => w.live = v.live) (fun _ o w w' hw hm => ?_) rfl
  cases hm with
  | grantNext _ _ hlive hdue =>
    rw [hw, hr] at hlive
    obtain rfl := Option.some.inj hlive
    rcases hdue with ⟨hnone, _⟩ | ⟨u', hu', hle⟩
    · rw [hu] at hnone
      cases hnone
    · obtain rfl := Option.some.inj (hu.symm.trans hu')
      exact absurd (UInt64.lt_of_lt_of_le hlt hle) (UInt64.lt_irrefl _)
  | compact _ hclock => cases hclock

end

/-- The transaction cannot take a lease with generation `g` that runs at least until `nowMs`. -/
def Txn.Spares (id : String) (g nowMs : UInt64) : Txn → Prop
  | .rebind _ => False
  | .renew renewals _ => (id, g) ∉ renewals
  | .lease now _ _ _ _ _ _ => now ≤ nowMs
  | .leaseDelivery _ now _ => now ≤ nowMs
  | _ => True

/-- **A lease that lasts is left alone.** -/
theorem Entry.Committed.leasedAs_before {env : Env} {e : Entry} (h : e.Committed env) {id : String}
    {g u u' nowMs : UInt64} (ht : e.txn.Spares id g nowMs)
    (hbefore : (e.before.view id).LeasedAs g u) (hlasts : nowMs < u)
    (hafter : (e.after.view id).LeasedAs g u') : (e.before.view id).LeasedAs g u' := by
  have hmoves := h.moves id
  obtain ⟨r, hr, _, hu⟩ := hbefore
  cases htxn : e.txn with
  | rebind m =>
    rw [htxn] at ht
    exact ht.elim
  | renew renewals leaseUntilMs =>
    rw [htxn] at ht
    obtain ⟨before, txn, reply, after⟩ := e
    obtain rfl : txn = _ := htxn
    obtain ⟨applied, _, hrun⟩ := Store.commit_renew h.commit
    rcases Store.renewLeases_row hrun id with ⟨_, hsame, _⟩ | ⟨r', u₁, hr', hu₁, hmem, _, hrow⟩
    · rwa [View.LeasedAs, show (after.view id).live = (before.view id).live from hsame] at hafter
    · obtain ⟨r₂, hr₂, hg₂, _⟩ := hafter
      obtain rfl := Option.some.inj (hrow.symm.trans hr₂)
      exact absurd (hg₂ ▸ hmem) ht
  | lease now batchLimit leaseDur dept excluded expired ready =>
    rw [htxn] at ht hmoves
    have hlive := hmoves.live_of_lease (Or.inr ⟨r, u, hr, hu, UInt64.lt_of_le_of_lt ht hlasts⟩)
    rwa [View.LeasedAs, hlive] at hafter
  | leaseDelivery j now leaseDur =>
    rw [htxn] at ht hmoves
    have hlive := hmoves.live_of_leaseDelivery ⟨r, u, hr, hu, UInt64.lt_of_le_of_lt ht hlasts⟩
    rwa [View.LeasedAs, hlive] at hafter
  | _ => exact hmoves.leasedAs_before (by rw [htxn]; rfl) hafter

/-- The records a transaction grants. -/
def Entry.grantedRecords (e : Entry) : List DeliveryRecord :=
  match e.reply with
  | .lease leased => leased
  | .leaseDelivery record => record.toList
  | _ => []

/-- Nothing is granted that is leased for longer. -/
theorem Entry.Committed.not_granted {env : Env} {e : Entry} (h : e.Committed env) {id : String}
    {g u nowMs : UInt64} (ht : e.txn.Spares id g nowMs)
    (hbefore : (e.before.view id).LeasedAs g u) (hlasts : nowMs < u) {r : DeliveryRecord}
    (hr : r ∈ e.grantedRecords) : r.deliveryId ≠ id := by
  rintro rfl
  have hsafe := h.grantsSafely
  obtain ⟨before, txn, reply, after⟩ := e
  obtain ⟨row, hrow, _, hu⟩ := hbefore
  rw [Entry.grantedRecords] at hr
  cases txn with
  | lease now batchLimit leaseDur dept excluded expired ready =>
    obtain ⟨leased, rfl, _⟩ := Store.commit_lease h.commit
    obtain ⟨row', hrow', hdue, _⟩ := hsafe.2.2 r hr
    obtain rfl := Option.some.inj (hrow.symm.trans hrow')
    rcases hdue with ⟨hnone, _⟩ | ⟨u', hu', hle⟩
    · rw [hu] at hnone
      cases hnone
    · obtain rfl := Option.some.inj (hu.symm.trans hu')
      have hlt := UInt64.lt_of_le_of_lt (UInt64.le_trans hle ht) hlasts
      exact UInt64.lt_irrefl _ hlt
  | leaseDelivery j now leaseDur =>
    obtain ⟨record, rfl, hrun⟩ := Store.commit_leaseDelivery h.commit
    obtain rfl : record = some r := by simpa using hr
    obtain ⟨row', hrow', hnone, _⟩ := hsafe r rfl
    have hid := (h.effect.inv.liveOk (Store.leaseDelivery_spec hrun).1).deliveryId
    rw [← hid] at hrow'
    obtain rfl := Option.some.inj (hrow.symm.trans hrow')
    rw [hu] at hnone
    cases hnone
  | enqueue record =>
    obtain ⟨outcome, rfl, _⟩ := Store.commit_enqueue h.commit
    simp at hr
  | rebind m => exact ht.elim
  | sweep queues now budget candidates =>
    obtain ⟨sweep, rfl, _⟩ := Store.commit_sweep h.commit
    simp at hr
  | renew renewals leaseUntilMs =>
    obtain ⟨applied, rfl, _⟩ := Store.commit_renew h.commit
    simp at hr
  | ack j g =>
    obtain ⟨applied, rfl, _⟩ := Store.commit_ack h.commit
    simp at hr
  | deferLockBusy j g lock policy now =>
    obtain ⟨outcome, rfl, _⟩ := Store.commit_deferLockBusy h.commit
    simp at hr
  | retry j g failure policy now =>
    obtain ⟨outcome, rfl, _⟩ := Store.commit_retry h.commit
    simp at hr
  | redrive policy m now keys =>
    obtain ⟨result, rfl, _⟩ := Store.commit_redrive h.commit
    simp at hr
  | reopen =>
    obtain ⟨rfl, _⟩ := Store.commit_reopen h.commit
    simp at hr

/-- What an act commits is what was under way. -/
theorem World.step_eq_some {env : Env} {w : World} {a : Act} {e : Entry}
    (h : (w.step env a).2 = some e) : ∃ i, a = .finish i ∧ w.pending[i]? = some e.txn := by
  cases a with
  | start call =>
    simp only [World.step] at h
    split at h <;> cases h
  | finish i =>
    simp only [World.step] at h
    split at h
    · cases h
    · rename_i txn htxn
      split at h
      · obtain rfl := Option.some.inj h
        exact ⟨i, rfl, htxn⟩
      · cases h

end Fkst.Delivery

namespace Fkst.Consumer

open Lib
open Delivery

/-! ## Runs in time -/

/-- What the clock says at an event. -/
def Event.time : Event → Option UInt64
  | .happens atMs _ => some atMs
  | .tick nowMs => some nowMs
  | .call nowMs _ => some nowMs
  | .started nowMs _ _ => some nowMs
  | _ => none

/-- What is known of a run so far: the time, the time of the last tick, and what was granted. -/
structure Watch where
  nowMs : UInt64
  tickMs : UInt64
  granted : List DeliveryRecord

namespace Watch

/-- After one more event. -/
def after (w : Watch) (e : Event) : Watch where
  nowMs := e.time.getD w.nowMs
  tickMs := match e with
    | .tick nowMs => nowMs
    | _ => w.tickMs
  granted := w.granted ++ e.grants

/-- After some more moments. -/
def through (w : Watch) (ms : List Moment) : Watch := ms.foldl (fun w m => w.after m.event) w

theorem through_concat (w : Watch) (ms : List Moment) (m : Moment) :
    w.through (ms ++ [m]) = (w.through ms).after m.event := by
  simp [through]

end Watch

/-- A transaction that another party writes spares the leases granted here: it is no rebind, it does
not renew them, and the clock it has read is not ahead of time. -/
def Moment.Spares (m : Moment) (granted : List DeliveryRecord) : Prop :=
  match m.event with
  | .happens atMs (.act (.finish i)) => ∀ txn ∈ m.world.pending[i]?, ∀ r ∈ granted,
    txn.Spares r.deliveryId r.leaseGeneration atMs
  | _ => True

/-- A moment is in time: the clock does not go back, the last tick is not more than two seconds ago,
and a lease from now on would not saturate. -/
def Moment.InTime (stallWindow : Duration) (w : Watch) (m : Moment) : Prop :=
  m.Spares w.granted ∧ ∀ t ∈ m.event.time,
    w.nowMs ≤ t ∧ t.toNat ≤ w.tickMs.toNat + 2000 ∧ t.toNat + leaseMs stallWindow < 2 ^ 64

/-- All moments are in time. -/
def OnTime (stallWindow : Duration) : Watch → List Moment → Prop
  | _, [] => True
  | w, m :: rest => m.InTime stallWindow w ∧ OnTime stallWindow (w.after m.event) rest

/-- A renewal meets no store error and is written within half a second, and so much time passes at
most between the clock a lease is counted from and the clock its renewal is counted from. -/
def Dispatch.Prompt (dispatch : Dispatch) : Prop :=
  ∀ r, (dispatch.admission r).spawnError = none →
    (dispatch.admission r).turn.nowMs.toNat ≤ dispatch.lease.nowMs.toNat + 500

@[inherit_doc Dispatch.Prompt]
def Input.Prompt : Input → Prop
  | .wake dispatch => dispatch.Prompt
  | .tick renew _ _ dispatch => renew.fails = false ∧
    (∀ x ∈ renew.between, x.atMs.toNat ≤ renew.nowMs.toNat + 500) ∧ dispatch.Prompt
  | _ => True

/-- The delivery was granted, and has been owned under the generation of the grant ever since. -/
def Held (ms : List Moment) (r : DeliveryRecord) : Prop :=
  ∃ before g since records, ms = before ++ g :: since ∧ g.event = .granted records ∧ r ∈ records ∧
    ∀ m ∈ g :: since, (m.world.store.view r.deliveryId).HeldWith r.leaseGeneration

/-- At this moment, every delivery that is running, not finished and still owned is leased for
longer, and no other party is granted it. -/
def Moment.Safe (env : Env) (before : List Moment) (m : Moment) : Prop :=
  ∀ id d, m.running[id]? = some d → d.task ≠ .finished → Held (before ++ [m]) d.ran →
    (∃ row u, m.world.store.deliveryById[id]? = some row ∧
      row.leaseGeneration = d.ran.leaseGeneration ∧ row.leaseUntilMs = some u ∧
      ∀ t ∈ m.event.time, t < u) ∧
    ∀ atMs a e, m.event = .happens atMs (.act a) → (m.world.step env a).2 = some e →
      ∀ r ∈ e.grantedRecords, r.deliveryId ≠ id

section

variable {stallWindow : Duration} {w : Watch} {ms : List Moment} {m : Moment} {r : DeliveryRecord}

theorem onTime_concat :
    OnTime stallWindow w (ms ++ [m]) ↔
      OnTime stallWindow w ms ∧ m.InTime stallWindow (w.through ms) := by
  induction ms generalizing w with
  | nil => simp [OnTime, Watch.through]
  | cons m' ms ih =>
    rw [List.cons_append, OnTime, OnTime, ih, and_assoc]
    rfl

theorem OnTime.of_prefix {ms' : List Moment} (h : OnTime stallWindow w ms') (hp : ms <+: ms') :
    OnTime stallWindow w ms := by
  obtain ⟨rest, rfl⟩ := hp
  induction rest using List.reverseRecOn with
  | nil => simpa using h
  | append_singleton rest m ih =>
    rw [← List.append_assoc, onTime_concat] at h
    exact ih h.1

/-- The last tick is in the past. -/
theorem OnTime.tickMs_le (h : OnTime stallWindow w ms) (hw : w.tickMs ≤ w.nowMs) :
    (w.through ms).tickMs ≤ (w.through ms).nowMs := by
  induction ms using List.reverseRecOn with
  | nil => exact hw
  | append_singleton ms m ih =>
    rw [onTime_concat] at h
    have hle := ih h.1
    have htime := h.2.2
    rw [Watch.through_concat]
    cases he : m.event with
    | tick t => exact UInt64.le_refl t
    | happens t x =>
      rw [he] at htime
      exact UInt64.le_trans hle (htime t rfl).1
    | call t c =>
      rw [he] at htime
      exact UInt64.le_trans hle (htime t rfl).1
    | started t handle record =>
      rw [he] at htime
      exact UInt64.le_trans hle (htime t rfl).1
    | granted records => exact hle
    | handed record => exact hle
    | received handle done => exact hle

theorem Held.mem_granted (h : Held ms r) (w : Watch) : r ∈ (w.through ms).granted := by
  obtain ⟨before, g, since, records, rfl, hg, hr, _⟩ := h
  have hstays : ∀ (since : List Moment) (w : Watch), r ∈ w.granted → r ∈ (w.through since).granted := by
    intro since
    induction since with
    | nil => exact fun _ h => h
    | cons m since ih => exact fun w h => ih _ (List.mem_append_left _ h)
  rw [Watch.through, List.foldl_append, List.foldl_cons]
  refine hstays since _ (List.mem_append_right _ ?_)
  rw [hg]
  exact hr

/-- What is still owned at one more moment is owned there, and was owned before or is granted now. -/
theorem Held.of_concat (h : Held (ms ++ [m]) r) :
    (m.world.store.view r.deliveryId).HeldWith r.leaseGeneration ∧
      (Held ms r ∨ r ∈ m.event.grants) := by
  obtain ⟨before, g, since, records, heq, hg, hr, howned⟩ := h
  rcases split_concat heq with ⟨rfl, rfl, rfl⟩ | ⟨since', rfl, rfl⟩
  · exact ⟨howned g (by simp), Or.inr (by rw [hg]; exact hr)⟩
  · refine ⟨howned m (by simp), Or.inl ⟨before, g, since', records, rfl, hg, hr, ?_⟩⟩
    intro m' hm'
    refine howned m' ?_
    rw [← List.cons_append]
    exact List.mem_append_left _ hm'

end

/-! ## The invariant -/

/-- The lease of a record ends at a time of a certain kind, as long as it is owned. -/
def Loop.Ends (s : Loop) (past : List Moment) (r : DeliveryRecord) (Q : ℕ → Prop) : Prop :=
  Held (past ++ s.moments) r → ∀ u : UInt64,
    (s.world.store.view r.deliveryId).LeasedAs r.leaseGeneration u → Q u.toNat

/-- A lease that is renewed at `next`, and not before `base`, lasts long enough. -/
def Lasts (stallWindow : Duration) (base next ends : ℕ) : Prop :=
  base < next ∧ next + leaseMs stallWindow ≤ ends + renewMs stallWindow + 500

theorem Lasts.lt {stallWindow : Duration} {base next ends : ℕ}
    (h : Lasts stallWindow base next ends) : base + 2500 < ends := by
  obtain ⟨h1, h2⟩ := h
  have := renewMs_lt_leaseMs stallWindow
  omega

theorem lasts_renewed {stallWindow : Duration} {nowMs : UInt64}
    (h : nowMs.toNat + leaseMs stallWindow < 2 ^ 64) :
    Lasts stallWindow nowMs.toNat (nextRenewAtMs nowMs stallWindow).toNat
      (saturatingAdd nowMs (durationMillis (retryLease stallWindow))).toNat := by
  have hnext := toNat_nextRenewAtMs h
  have hends := toNat_leaseUntil h
  have hrenew := renewMs_lt_leaseMs stallWindow
  unfold Lasts
  omega

/-- The leases of this consumer, `base` being the time of the last tick whose renewals are written.
`waiting` are the records that were granted at `sinceMs` and are not in the map yet, and `past` are
the moments of the steps before. -/
structure Loop.Leases (cfg : Settings) (env : Env) (past : List Moment) (base : ℕ)
    (waiting : List DeliveryRecord) (sinceMs : ℕ) (s : Loop) : Prop where
  entry : ∀ (id : String) (d : RunningDelivery), s.running[id]? = some d →
    d.record.deliveryId = id ∧ d.record.leaseGeneration = d.ran.leaseGeneration ∧
      d.ran.deliveryId = id
  lasts : ∀ (id : String) (d : RunningDelivery), s.running[id]? = some d → d.task ≠ .finished →
    s.Ends past d.ran (Lasts cfg.stallWindow base d.nextRenewAtMs.toNat)
  waits : ∀ r ∈ waiting, s.Ends past r fun u => base ≤ sinceMs ∧ u = sinceMs + leaseMs cfg.stallWindow
  safe : ∀ ms m rest, past ++ s.moments = ms ++ m :: rest → m.Safe env ms

namespace Loop

variable {cfg : Settings} {env : Env} {log : List (List Event)} {past : List Moment} {base : ℕ}
  {waiting : List DeliveryRecord} {sinceMs : ℕ} {w : Watch} {s s' : Loop}

/-- At a moment that is no grant, what is still owned was owned before. -/
theorem held_of_note {e : Event} {r : DeliveryRecord} (he : r ∉ e.grants)
    (h : Held (past ++ (s.note e).moments) r) :
    Held (past ++ s.moments) r ∧ (s.world.store.view r.deliveryId).HeldWith r.leaseGeneration := by
  rw [note_moments, ← List.append_assoc] at h
  obtain ⟨howned, hheld | hgranted⟩ := h.of_concat
  · exact ⟨hheld, howned⟩
  · exact absurd hgranted he

/-- The next moment is safe. -/
theorem Leases.safe_note (h : Leases cfg env past base waiting sinceMs s) (hw : s.world.Inv)
    {e : Event} (hin : Moment.InTime cfg.stallWindow (w.through (past ++ s.moments))
      ⟨e, s.world, s.running⟩)
    (he : ∀ r ∈ e.grants, r.deliveryId ∉ s.running) (ht : ∀ t ∈ e.time, t.toNat ≤ base + 2500) :
    Moment.Safe env (past ++ s.moments) ⟨e, s.world, s.running⟩ := by
  intro id d hd htask hheld
  obtain ⟨_, _, hid⟩ := h.entry id d hd
  have hnot : d.ran ∉ e.grants := by
    intro hmem
    refine he d.ran hmem ?_
    rw [hid, ← Std.ExtTreeMap.isSome_getElem?_iff_mem, show s.running[id]? = some d from hd]
    rfl
  have hheld' : Held (past ++ (s.note e).moments) d.ran := by
    rw [note_moments, ← List.append_assoc]
    exact hheld
  obtain ⟨hbefore, row, u, hrow, hu, hg⟩ := held_of_note hnot hheld'
  rw [hid] at hrow
  have hlasts := (h.lasts id d hd htask hbefore u ⟨row, hid ▸ hrow, hg, hu⟩).lt
  have hlt : ∀ t ∈ e.time, t < u := fun t hmem => by
    rw [UInt64.lt_iff_toNat_lt]
    have := ht t hmem
    omega
  refine ⟨⟨row, u, hrow, hg, hu, hlt⟩, ?_⟩
  rintro atMs a entry rfl hentry r hr
  obtain ⟨_, ⟨hnone, _⟩ | ⟨entry', hentry', hcommitted, hstore, _⟩⟩ := World.step_cases env hw a
  · rw [show (s.world.step env a).2 = some entry from hentry] at hnone
    cases hnone
  · obtain rfl := Option.some.inj (hentry.symm.trans hentry')
    obtain ⟨i, rfl, htxn⟩ := World.step_eq_some hentry
    have hspares := hin.1 entry.txn htxn d.ran (hbefore.mem_granted w)
    rw [hid] at hspares
    exact hcommitted.not_granted hspares ⟨row, hstore ▸ hrow, hg, hu⟩ (hlt atMs rfl) hr

theorem safe_concat (h : ∀ ms m rest, past ++ s.moments = ms ++ m :: rest → m.Safe env ms) {m : Moment}
    (hm : m.Safe env (past ++ s.moments)) :
    ∀ ms m' rest, past ++ (s.moments ++ [m]) = ms ++ m' :: rest → m'.Safe env ms := by
  intro ms m' rest heq
  rw [← List.append_assoc] at heq
  rcases split_concat heq with ⟨rfl, rfl, _⟩ | ⟨rest', _, hold⟩
  · exact hm
  · exact h ms m' rest' hold

/-- An event of the loop itself. -/
theorem Leases.note (h : Leases cfg env past base waiting sinceMs s) (hw : s.world.Inv) {e : Event}
    (hin : Moment.InTime cfg.stallWindow (w.through (past ++ s.moments)) ⟨e, s.world, s.running⟩)
    (he : e.grants = []) (ht : ∀ t ∈ e.time, t.toNat ≤ base + 2500) :
    Leases cfg env past base waiting sinceMs (s.note e) := by
  have hends : ∀ {r : DeliveryRecord} {Q : ℕ → Prop}, s.Ends past r Q → (s.note e).Ends past r Q :=
    fun hr hheld => hr (held_of_note (by simp [he]) hheld).1
  exact ⟨h.entry, fun id d hd htask => hends (h.lasts id d hd htask),
    fun r hr => hends (h.waits r hr), safe_concat h.safe (h.safe_note hw hin (by simp [he]) ht)⟩

/-- What happens elsewhere to an entry of the map. -/
theorem happen_running (what : Happening) {id : String} {d' : RunningDelivery}
    (hd' : (s.happen cfg env what).running[id]? = some d') :
    ∃ d, s.running[id]? = some d ∧ d'.record = d.record ∧ d'.ran = d.ran ∧
      d'.nextRenewAtMs = d.nextRenewAtMs ∧ (d'.task ≠ .finished → d.task ≠ .finished) := by
  cases what with
  | act a => exact ⟨d', hd', rfl, rfl, rfl, fun h => h⟩
  | sends j failure lockBusy =>
    simp only [happen] at hd'
    split at hd'
    · rename_i d hd
      split at hd'
      · rename_i hsend
        dsimp only at hd'
        rw [Table.get_insert] at hd'
        split at hd'
        · subst id
          obtain rfl := Option.some.inj hd'
          exact ⟨d, hd, rfl, rfl, rfl, fun _ => by simp [hsend.1]⟩
        · exact ⟨d', hd', rfl, rfl, rfl, fun h => h⟩
      · exact ⟨d', hd', rfl, rfl, rfl, fun h => h⟩
    · exact ⟨d', hd', rfl, rfl, rfl, fun h => h⟩
  | ends j =>
    simp only [happen] at hd'
    split at hd'
    · rename_i d hd
      dsimp only at hd'
      rw [Table.get_insert] at hd'
      split at hd'
      · subst id
        obtain rfl := Option.some.inj hd'
        exact ⟨d, hd, rfl, rfl, rfl, fun h => absurd rfl h⟩
      · exact ⟨d', hd', rfl, rfl, rfl, fun h => h⟩
    · exact ⟨d', hd', rfl, rfl, rfl, fun h => h⟩

/-- What happens elsewhere leaves the world alone, or it is an act in it. -/
theorem happen_world (cfg : Settings) (env : Env) (s : Loop) (what : Happening) :
    (s.happen cfg env what).world = s.world ∨
      ∃ a, what = .act a ∧ (s.happen cfg env what).world = (s.world.step env a).1 := by
  cases what with
  | act a => exact Or.inr ⟨a, rfl, rfl⟩
  | sends j failure lockBusy =>
    simp only [happen]
    split
    · split <;> exact Or.inl rfl
    · exact Or.inl rfl
  | ends j =>
    simp only [happen]
    split <;> exact Or.inl rfl

theorem happen_moments (s : Loop) (what : Happening) :
    (s.happen cfg env what).moments = s.moments := by
  cases what with
  | act a => rfl
  | sends j failure lockBusy =>
    simp only [happen]
    split
    · split <;> rfl
    · rfl
  | ends j =>
    simp only [happen]
    split <;> rfl

/-- **What happens elsewhere does not shorten a lease that lasts.** -/
theorem Ends.happens (hw : s.world.Inv) {x : Stamped} {r : DeliveryRecord} {Q : ℕ → Prop}
    (hin : Moment.InTime cfg.stallWindow (w.through (past ++ s.moments))
      ⟨.happens x.atMs x.what, s.world, s.running⟩)
    (hQ : ∀ u, Q u → x.atMs.toNat < u) (h : s.Ends past r Q) :
    ((s.note (.happens x.atMs x.what)).happen cfg env x.what).Ends past r Q := by
  intro hheld u' hafter
  rw [happen_moments] at hheld
  obtain ⟨hbefore, row, u, hrow, hu, hg⟩ := held_of_note (by simp [Event.grants]) hheld
  have hleased : (s.world.store.view r.deliveryId).LeasedAs r.leaseGeneration u := ⟨row, hrow, hg, hu⟩
  have hq := h hbefore u hleased
  have hsame : (s.world.store.view r.deliveryId).LeasedAs r.leaseGeneration u' := by
    rcases happen_world cfg env (s.note (.happens x.atMs x.what)) x.what with
      hworld | ⟨a, ha, hworld⟩
    · rw [hworld] at hafter
      exact hafter
    · rw [hworld] at hafter
      obtain ⟨_, ⟨_, hstore⟩ | ⟨e, he, hcommitted, hstore, hnext⟩⟩ := World.step_cases env hw a
      · rw [show ((s.note _).world.step env a).1.store = _ from hstore] at hafter
        exact hafter
      · obtain ⟨i, rfl, htxn⟩ := World.step_eq_some he
        have hspares := hin.1
        rw [Moment.Spares, ha] at hspares
        have hspares := hspares e.txn htxn r (hbefore.mem_granted w)
        rw [← hstore] at hleased ⊢
        refine hcommitted.leasedAs_before hspares hleased ?_ (hnext ▸ hafter)
        rw [UInt64.lt_iff_toNat_lt]
        exact hQ _ hq
  obtain ⟨row', hrow', _, hu'⟩ := hsame
  obtain rfl := Option.some.inj (hrow.symm.trans hrow')
  obtain rfl := Option.some.inj (hu.symm.trans hu')
  exact hq

/-- One thing happens elsewhere. -/
theorem Leases.happens (h : Leases cfg env past base waiting sinceMs s) (hw : s.world.Inv)
    {x : Stamped} (hin : Moment.InTime cfg.stallWindow (w.through (past ++ s.moments))
      ⟨.happens x.atMs x.what, s.world, s.running⟩) (ht : x.atMs.toNat ≤ base + 2500) :
    Leases cfg env past base waiting sinceMs
      ((s.note (.happens x.atMs x.what)).happen cfg env x.what) := by
  have hnote := h.note hw (w := w) hin rfl (by rintro t ⟨⟩; exact ht)
  refine ⟨fun id d' hd' => ?_, fun id d' hd' htask => ?_, fun r hr => ?_, ?_⟩
  · obtain ⟨d, hd, hrecord, hran, _⟩ := happen_running x.what hd'
    rw [hrecord, hran]
    exact h.entry id d hd
  · obtain ⟨d, hd, _, hran, hnext, hfinished⟩ := happen_running x.what hd'
    rw [hran, hnext]
    refine (h.lasts id d hd (hfinished htask)).happens hw hin fun u hu => ?_
    have := hu.lt
    omega
  · refine (h.waits r hr).happens hw hin fun u hu => ?_
    have := renewMs_lt_leaseMs cfg.stallWindow
    omega
  · rw [happen_moments]
    exact hnote.safe

/-- What happens elsewhere is no tick. -/
theorem elsewhere_moments (cfg : Settings) (env : Env) (s : Loop) (happenings : List Stamped) :
    ∃ ms, (s.elsewhere cfg env happenings).moments = s.moments ++ ms ∧
      ∀ w : Watch, (w.through ms).tickMs = w.tickMs := by
  induction happenings generalizing s with
  | nil => exact ⟨[], by simp [Loop.elsewhere], fun _ => rfl⟩
  | cons x rest ih =>
    obtain ⟨ms, hms, htick⟩ := ih ((s.note (.happens x.atMs x.what)).happen cfg env x.what)
    refine ⟨⟨.happens x.atMs x.what, s.world, s.running⟩ :: ms, ?_, fun w => htick _⟩
    rw [Loop.elsewhere, List.foldl_cons]
    refine hms.trans ?_
    rw [happen_moments, note_moments, List.append_assoc, List.singleton_append]

theorem prefix_of_note (s : Loop) (e : Event) : s.moments <+: (s.note e).moments :=
  List.prefix_append _ _

theorem prefix_of_elsewhere (s : Loop) (happenings : List Stamped) :
    s.moments <+: (s.elsewhere cfg env happenings).moments := by
  obtain ⟨ms, hms, _⟩ := elsewhere_moments cfg env s happenings
  exact ⟨ms, hms.symm⟩

theorem elsewhere_tick (s : Loop) (happenings : List Stamped) :
    (w.through (past ++ (s.elsewhere cfg env happenings).moments)).tickMs =
      (w.through (past ++ s.moments)).tickMs := by
  obtain ⟨ms, hms, htick⟩ := elsewhere_moments cfg env s happenings
  rw [hms, ← List.append_assoc, Watch.through, List.foldl_append]
  exact htick _

/-- **What happens elsewhere leaves the leases alone**, be it since the last tick or while its
renewals are written. -/
theorem Leases.elsewhere {happenings : List Stamped} (hok : s.Ok cfg log)
    (hbase : base = (w.through (past ++ s.moments)).tickMs.toNat ∨
      ∀ x ∈ happenings, x.atMs.toNat ≤ base + 2500)
    (h : Leases cfg env past base waiting sinceMs s)
    (htime : OnTime cfg.stallWindow w (past ++ (s.elsewhere cfg env happenings).moments)) :
    Leases cfg env past base waiting sinceMs (s.elsewhere cfg env happenings) := by
  induction happenings generalizing s with
  | nil => exact h
  | cons x rest ih =>
    have hfirst : OnTime cfg.stallWindow w
        (past ++ ((s.note (.happens x.atMs x.what)).happen cfg env x.what).moments) :=
      htime.of_prefix ((List.prefix_append_right_inj past).2 (prefix_of_elsewhere _ rest))
    rw [happen_moments, note_moments, ← List.append_assoc, onTime_concat] at hfirst
    have ht : x.atMs.toNat ≤ base + 2500 := by
      rcases hbase with rfl | hall
      · have := (hfirst.2.2 x.atMs rfl).2.1
        omega
      · exact hall x (by simp)
    refine ih (hok.happens env x).1 ?_ (h.happens hok.wired.world hfirst.2 ht) htime
    refine hbase.imp (fun hb => ?_) (fun hall x' hx' => hall x' (by simp [hx']))
    rw [hb, happen_moments, note_moments, ← List.append_assoc, Watch.through_concat]
    rfl

/-- The leases between two ticks. -/
def Steady (cfg : Settings) (env : Env) (w : Watch) (past : List Moment)
    (waiting : List DeliveryRecord) (sinceMs : ℕ) (s : Loop) : Prop :=
  OnTime cfg.stallWindow w (past ++ s.moments) →
    Leases cfg env past (w.through (past ++ s.moments)).tickMs.toNat waiting sinceMs s

theorem Steady.elsewhere (hok : s.Ok cfg log) (h : Steady cfg env w past waiting sinceMs s)
    (happenings : List Stamped) :
    Steady cfg env w past waiting sinceMs (s.elsewhere cfg env happenings) := by
  intro htime
  rw [elsewhere_tick]
  exact (h (htime.of_prefix ((List.prefix_append_right_inj past).2 (prefix_of_elsewhere _ _)))).elsewhere
    hok (Or.inl rfl) htime

/-- An event of the loop itself that is neither a tick nor a grant. -/
theorem Steady.note (hok : s.Ok cfg log) (h : Steady cfg env w past waiting sinceMs s) {e : Event}
    (hgrants : e.grants = []) (htick : ∀ w : Watch, (w.after e).tickMs = w.tickMs) :
    Steady cfg env w past waiting sinceMs (s.note e) := by
  intro htime
  rw [note_moments, ← List.append_assoc] at htime ⊢
  rw [onTime_concat] at htime
  rw [Watch.through_concat, htick]
  refine (h htime.1).note hok.wired.world htime.2 hgrants fun t ht => ?_
  have := (htime.2.2 t ht).2.1
  omega

/-- A transaction of the loop that sets no lease. -/
theorem Leases.commit {store : Store} {txn : Txn} {reply : Reply}
    (h : Leases cfg env past base waiting sinceMs s)
    (he : Entry.Committed env ⟨s.world.store, txn, reply, store⟩) (hset : txn.setsLease = false) :
    Leases cfg env past base waiting sinceMs { s with world := { s.world with store := store } } := by
  have hends : ∀ {r : DeliveryRecord} {Q : ℕ → Prop}, s.Ends past r Q →
      Ends { s with world := { s.world with store := store } } past r Q :=
    fun hr hheld u hu => hr hheld u ((he.moves _).leasedAs_before hset hu)
  exact ⟨h.entry, fun id d hd htask => hends (h.lasts id d hd htask),
    fun r hr => hends (h.waits r hr), h.safe⟩

/-- A call that sets no lease. -/
theorem Steady.call (hok : s.Ok cfg log) (h : Steady cfg env w past waiting sinceMs s) {c : Call}
    (hset : ∀ (store : Store) (txn : Txn), store.plan c = .ok (some txn) → txn.setsLease = false)
    (turn : Turn) : Steady cfg env w past waiting sinceMs (s.call cfg env turn c).1 := by
  obtain ⟨s₁, s₂, hs₁, hs₂, hcases⟩ := call_cases cfg env s turn c
  obtain ⟨hok₀, _⟩ := hok.elsewhere env turn.before
  have hok₁ : s₁.Ok cfg log := hs₁ ▸ hok₀.note rfl
  have h₁ : Steady cfg env w past waiting sinceMs s₁ :=
    hs₁ ▸ (h.elsewhere hok turn.before).note hok₀ rfl fun _ => rfl
  have hok₂ : s₂.Ok cfg log := hs₂ ▸ (hok₁.elsewhere env turn.between).1
  have h₂ : Steady cfg env w past waiting sinceMs s₂ := hs₂ ▸ h₁.elsewhere hok₁ turn.between
  rcases hcases with ⟨hcall, _⟩ | ⟨txn, store, reply, hplan, hcommit, hcall⟩
  · rw [hcall]
    exact h₂
  · rw [hcall]
    intro htime
    exact (h₂ htime).commit ⟨hok₂.wired.world.store,
      (Store.plan_eq_ok hok₁.wired.world.store hplan).1, hcommit⟩ (hset _ _ hplan)

/-! ## The tick -/

theorem mem_dueRenewals {running : Table String RunningDelivery} {nowMs : UInt64}
    {renewal : String × UInt64} :
    renewal ∈ dueRenewals running nowMs ↔ ∃ (id : String) (d : RunningDelivery),
      running[id]? = some d ∧ d.task ≠ .finished ∧ d.nextRenewAtMs ≤ nowMs ∧
        renewal = (d.record.deliveryId, d.record.leaseGeneration) := by
  simp only [dueRenewals, List.mem_map, List.mem_filter, Prod.exists, Bool.and_eq_true,
    bne_iff_ne, decide_eq_true_eq, Std.ExtTreeMap.mem_toList_iff_getElem?_eq_some]
  constructor
  · rintro ⟨d, ⟨⟨id, _, hd, rfl⟩, htask, hdue⟩, rfl⟩
    exact ⟨id, _, hd, htask, hdue, rfl⟩
  · rintro ⟨id, d, hd, htask, hdue, rfl⟩
    exact ⟨d, ⟨⟨id, d, hd, rfl⟩, htask, hdue⟩, rfl⟩

/-- An entry after a renewal that was reported. -/
def renewedEntry (nextRenew : UInt64) (record : DeliveryRecord) (d : RunningDelivery) :
    RunningDelivery :=
  { d with
    nextRenewAtMs := nextRenew
    record := { d.record with
      leaseUntilMs := record.leaseUntilMs
      leaseGeneration := record.leaseGeneration } }

theorem renewedEntry_entry (nextRenew : UInt64) (record : DeliveryRecord) (d : RunningDelivery) :
    (renewedEntry nextRenew record d).record.deliveryId = d.record.deliveryId ∧
      (renewedEntry nextRenew record d).record.leaseGeneration = record.leaseGeneration :=
  ⟨rfl, rfl⟩

/-- The entries after all renewals. -/
theorem get_renewEntries (nextRenew : UInt64) (renewed : Table String DeliveryRecord) (id : String) :
    ∀ (renewals : List (String × UInt64)) (running : Table String RunningDelivery)
      (d' : RunningDelivery),
      (renewals.foldl (renewEntry nextRenew renewed) running)[id]? = some d' →
      ∃ d, running[id]? = some d ∧ d'.task = d.task ∧ d'.ran = d.ran ∧
        ((d' = d ∧ (d.task ≠ .finished → renewed[id]? ≠ none → ∀ g, (id, g) ∉ renewals)) ∨
          ∃ record, renewed[id]? = some record ∧ d' = renewedEntry nextRenew record d)
  | [], running, d', hd' => ⟨d', hd', rfl, rfl, Or.inl ⟨rfl, by simp⟩⟩
  | renewal :: renewals, running, d', hd' => by
    obtain ⟨d₁, hd₁, htask₁, hran₁, hrest⟩ := get_renewEntries nextRenew renewed id renewals _ d' hd'
    simp only [renewEntry] at hd₁
    split at hd₁
    · rename_i d record hd hrecord
      split at hd₁
      · rename_i hfinished
        refine ⟨d₁, hd₁, htask₁, hran₁, hrest.imp_left fun h => ⟨h.1, fun htask hsome g hmem => ?_⟩⟩
        rcases List.mem_cons.1 hmem with heq | hmem
        · obtain rfl : id = renewal.1 := congrArg Prod.fst heq
          rw [hd] at hd₁
          obtain rfl := Option.some.inj hd₁
          exact htask hfinished
        · exact h.2 htask hsome g hmem
      · rename_i hrunning
        rw [Table.get_insert] at hd₁
        split at hd₁
        · rename_i heq
          subst heq
          obtain rfl := Option.some.inj hd₁
          refine ⟨d, hd, htask₁, hran₁, Or.inr ⟨record, hrecord, ?_⟩⟩
          rcases hrest with ⟨rfl, _⟩ | ⟨record', hrecord', rfl⟩
          · rfl
          · obtain rfl := Option.some.inj (hrecord.symm.trans hrecord')
            rfl
        · rename_i hne
          refine ⟨d₁, hd₁, htask₁, hran₁, hrest.imp_left fun h => ⟨h.1, fun htask hsome g hmem => ?_⟩⟩
          rcases List.mem_cons.1 hmem with heq | hmem
          · exact hne (congrArg Prod.fst heq)
          · exact h.2 htask hsome g hmem
    · rename_i hnone
      refine ⟨d₁, hd₁, htask₁, hran₁, hrest.imp_left fun h => ⟨h.1, fun htask hsome g hmem => ?_⟩⟩
      rcases List.mem_cons.1 hmem with heq | hmem
      · obtain rfl : id = renewal.1 := congrArg Prod.fst heq
        obtain ⟨record, hrecord⟩ := Option.ne_none_iff_exists'.1 hsome
        exact hnone d₁ record hd₁ hrecord
      · exact h.2 htask hsome g hmem

/-- What happens elsewhere to the entries of the map. -/
theorem elsewhere_running (happenings : List Stamped) {id : String} {d' : RunningDelivery}
    (hd' : (s.elsewhere cfg env happenings).running[id]? = some d') :
    ∃ d, s.running[id]? = some d ∧ d'.record = d.record ∧ d'.ran = d.ran ∧
      d'.nextRenewAtMs = d.nextRenewAtMs ∧ (d'.task ≠ .finished → d.task ≠ .finished) := by
  induction happenings generalizing s with
  | nil => exact ⟨d', hd', rfl, rfl, rfl, fun h => h⟩
  | cons x rest ih =>
    obtain ⟨d₁, hd₁, hrecord, hran, hnext, htask⟩ := ih hd'
    obtain ⟨d, hd, hrecord', hran', hnext', htask'⟩ := happen_running x.what hd₁
    exact ⟨d, hd, hrecord.trans hrecord', hran.trans hran', hnext.trans hnext',
      fun h => htask' (htask h)⟩

/-- A tick that finds nothing to renew. -/
theorem Leases.undue (h : Leases cfg env past base [] sinceMs s) {nowMs : UInt64}
    (hundue : ∀ (id : String) (d : RunningDelivery), s.running[id]? = some d → d.task ≠ .finished →
      nowMs < d.nextRenewAtMs) : Leases cfg env past nowMs.toNat [] sinceMs s := by
  refine ⟨h.entry, fun id d hd htask hheld u hu => ?_, by simp, h.safe⟩
  exact ⟨UInt64.lt_iff_toNat_lt.1 (hundue id d hd htask), (h.lasts id d hd htask hheld u hu).2⟩

/-- **The renewals of a tick are written.**  All that was due is among them, each under the
generation of its grant. -/
theorem Leases.renewed (h : Leases cfg env past base [] sinceMs s) {nowMs : UInt64}
    {renewals : List (String × UInt64)} {store : Store} {renewed : Table String DeliveryRecord}
    (hsat : nowMs.toNat + leaseMs cfg.stallWindow < 2 ^ 64)
    (hdue : ∀ (id : String) (d : RunningDelivery), s.running[id]? = some d → d.task ≠ .finished →
      d.nextRenewAtMs ≤ nowMs → (id, d.ran.leaseGeneration) ∈ renewals)
    (hown : ∀ id g, (id, g) ∈ renewals → ∀ d : RunningDelivery, s.running[id]? = some d →
      d.ran.leaseGeneration = g)
    (hrun : s.world.store.renewLeases renewals
      (saturatingAdd nowMs (durationMillis (retryLease cfg.stallWindow))) = (store, renewed)) :
    Leases cfg env past nowMs.toNat [] sinceMs
      { s with
        world := { s.world with store := store }
        running := renewals.foldl (renewEntry (nextRenewAtMs nowMs cfg.stallWindow) renewed)
          s.running } := by
  refine ⟨fun id d' hd' => ?_, fun id d' hd' htask hheld u hu => ?_, by simp, h.safe⟩
  · obtain ⟨d, hd, _, hran, hcases⟩ := get_renewEntries _ renewed id renewals s.running d' hd'
    obtain ⟨hrecord, hgeneration, hid⟩ := h.entry id d hd
    rw [hran]
    rcases hcases with ⟨rfl, _⟩ | ⟨record, hreported, rfl⟩
    · exact ⟨hrecord, hgeneration, hid⟩
    · have hsame : record.leaseGeneration = d.ran.leaseGeneration := by
        rcases Store.renewLeases_row hrun id with ⟨hnone, _⟩ | ⟨r, _, _, _, hmem, hsome, _⟩
        · rw [hreported] at hnone
          cases hnone
        · rw [Option.some.inj (hreported.symm.trans hsome)]
          exact (hown id _ hmem d hd).symm
      obtain ⟨hid', hgeneration'⟩ :=
        renewedEntry_entry (nextRenewAtMs nowMs cfg.stallWindow) record d
      exact ⟨hid'.trans hrecord, hgeneration'.trans hsame, hid⟩
  · obtain ⟨d, hd, htask', hran, hcases⟩ := get_renewEntries _ renewed id renewals s.running d' hd'
    obtain ⟨_, _, hid⟩ := h.entry id d hd
    rw [hran] at hheld hu
    rw [htask'] at htask
    rcases Store.renewLeases_row hrun id with ⟨hnone, hsame, hnot⟩ |
      ⟨r, u₀, hr, hu₀, hmem, hsome, hrow⟩
    · -- The row is as it was: its lease was not due.
      have hbefore : (s.world.store.view d.ran.deliveryId).LeasedAs d.ran.leaseGeneration u := by
        rw [hid] at hu ⊢
        obtain ⟨row, hrow, hrest⟩ := hu
        exact ⟨row, hsame.symm.trans hrow, hrest⟩
      obtain rfl : d' = d := by
        rcases hcases with ⟨rfl, _⟩ | ⟨record, hreported, _⟩
        · rfl
        · rw [hreported] at hnone
          cases hnone
      refine ⟨?_, (h.lasts id _ hd htask hheld u hbefore).2⟩
      rw [← UInt64.lt_iff_toNat_lt]
      refine UInt64.not_le.1 fun hle => ?_
      have hmem := hdue id _ hd htask hle
      rw [hid] at hbefore
      obtain ⟨row, hrow, hg, hu⟩ := hbefore
      exact hnot row u hrow hu (hg ▸ hmem)
    · -- The row was renewed, and the entry with it.
      rw [hid] at hu
      obtain ⟨row, hrow', _, hu'⟩ := hu
      obtain rfl := Option.some.inj (hrow.symm.trans hrow')
      obtain rfl := Option.some.inj hu'
      obtain ⟨record, _, rfl⟩ : ∃ record, renewed[id]? = some record ∧ d' = renewedEntry _ record d :=
        hcases.resolve_left fun hsame => hsame.2 htask (by simp [hsome]) _ hmem
      exact lasts_renewed hsat

theorem plan_renew {store : Store} {renewals : List (String × UInt64)} {leaseUntilMs : UInt64}
    (h : renewals.isEmpty = false) :
    store.plan (.renew renewals leaseUntilMs) = .ok (some (.renew renewals leaseUntilMs)) := by
  simp [Store.plan, h]

/-- The moment of a tick, before its renewals are written. -/
theorem Steady.tick (hok : s.Ok cfg log) (h : Steady cfg env w past [] sinceMs s) {nowMs : UInt64}
    (htime : OnTime cfg.stallWindow w (past ++ (s.note (.tick nowMs)).moments)) :
    ∃ base, nowMs.toNat ≤ base + 2000 ∧ nowMs.toNat + leaseMs cfg.stallWindow < 2 ^ 64 ∧
      (w.through (past ++ (s.note (.tick nowMs)).moments)).tickMs = nowMs ∧
      Leases cfg env past base [] sinceMs (s.note (.tick nowMs)) := by
  rw [note_moments, ← List.append_assoc] at htime ⊢
  rw [onTime_concat] at htime
  obtain ⟨_, hlate, hsat⟩ := htime.2.2 nowMs rfl
  refine ⟨_, hlate, hsat, by rw [Watch.through_concat]; rfl,
    (h htime.1).note hok.wired.world htime.2 rfl ?_⟩
  rintro t ⟨⟩
  omega

/-- The renewals of a tick, from its clock to the transaction. -/
theorem Leases.write (hok : s.Ok cfg log) (h : Leases cfg env past base [] sinceMs s) {turn : Turn}
    (hprompt : ∀ x ∈ turn.between, x.atMs.toNat ≤ turn.nowMs.toNat + 500)
    (hlate : turn.nowMs.toNat ≤ base + 2000)
    (hsat : turn.nowMs.toNat + leaseMs cfg.stallWindow < 2 ^ 64) {c : Call} {store : Store}
    {renewed : Table String DeliveryRecord} {s' : Loop}
    (hs' : s' = (s.note (.call turn.nowMs c)).elsewhere cfg env turn.between)
    (hrun : s'.world.store.renewLeases (dueRenewals s.running turn.nowMs)
      (saturatingAdd turn.nowMs (durationMillis (retryLease cfg.stallWindow))) = (store, renewed))
    (htime : OnTime cfg.stallWindow w (past ++ s'.moments)) :
    Leases cfg env past turn.nowMs.toNat [] sinceMs
      { s' with
        world := { s'.world with store := store }
        running := (dueRenewals s.running turn.nowMs).foldl
          (renewEntry (nextRenewAtMs turn.nowMs cfg.stallWindow) renewed) s'.running } := by
  have hcall : OnTime cfg.stallWindow w (past ++ (s.note (.call turn.nowMs c)).moments) := by
    refine htime.of_prefix ((List.prefix_append_right_inj past).2 ?_)
    rw [hs']
    exact prefix_of_elsewhere _ _
  rw [note_moments, ← List.append_assoc, onTime_concat] at hcall
  have hnote := h.note hok.wired.world hcall.2 rfl (by rintro t ⟨⟩; omega)
  have hlast : Leases cfg env past base [] sinceMs s' := by
    rw [hs'] at htime ⊢
    exact hnote.elsewhere (hok.note rfl) (Or.inr fun x hx => by have := hprompt x hx; omega) htime
  have hback : ∀ {id : String} {d' : RunningDelivery}, s'.running[id]? = some d' →
      ∃ d, s.running[id]? = some d ∧ d'.record = d.record ∧ d'.ran = d.ran ∧
        d'.nextRenewAtMs = d.nextRenewAtMs ∧ (d'.task ≠ .finished → d.task ≠ .finished) := by
    intro id d' hd'
    rw [hs'] at hd'
    obtain ⟨d, hd, hsame⟩ := elsewhere_running turn.between hd'
    exact ⟨d, hd, hsame⟩
  refine hlast.renewed hsat (fun id d' hd' htask hle => ?_) (fun id g hmem d' hd' => ?_) hrun
  · obtain ⟨d, hd, hrecord, hran, hnext, htask'⟩ := hback hd'
    obtain ⟨hid, hgeneration, _⟩ := h.entry id d hd
    have hmem := mem_dueRenewals.2 ⟨id, d, hd, htask' htask, hnext ▸ hle, rfl⟩
    rwa [hid, hgeneration, ← hran] at hmem
  · obtain ⟨j, d₁, hd₁, _, _, heq⟩ := mem_dueRenewals.1 hmem
    obtain ⟨hid, hgeneration, _⟩ := h.entry j d₁ hd₁
    obtain ⟨rfl, rfl⟩ := Prod.mk.inj heq
    obtain ⟨d, hd, _, hran, _⟩ := hback hd'
    rw [hid, hd₁] at hd
    obtain rfl := Option.some.inj hd
    rw [hran, hgeneration]

/-- **The renewal of a tick.** -/
theorem Steady.renewRunning (hok : s.Ok cfg log) (h : Steady cfg env w past [] sinceMs s)
    {turn : Turn} (hfails : turn.fails = false)
    (hprompt : ∀ x ∈ turn.between, x.atMs.toNat ≤ turn.nowMs.toNat + 500) :
    Steady cfg env w past [] sinceMs (s.renewRunning cfg env turn) := by
  obtain ⟨hok₀, _⟩ := hok.elsewhere env turn.before
  have h₀ := h.elsewhere hok turn.before
  have hok₁ := hok₀.note (e := .tick turn.nowMs) rfl
  simp only [Loop.renewRunning]
  split
  · rename_i hempty
    rw [List.isEmpty_iff] at hempty
    intro htime
    obtain ⟨base, hlate, _, htickMs, hleases⟩ := h₀.tick hok₀
      (htime.of_prefix ((List.prefix_append_right_inj past).2 (prefix_of_elsewhere _ _)))
    have h₂ := hleases.elsewhere hok₁ (Or.inr fun x hx => by have := hprompt x hx; omega) htime
    rw [elsewhere_tick, htickMs]
    refine h₂.undue fun id d' hd' htask' => ?_
    obtain ⟨d, hd, _, _, hnext, htask⟩ := elsewhere_running turn.between hd'
    rw [hnext]
    refine UInt64.not_le.1 fun hle => ?_
    have hmem := mem_dueRenewals.2 ⟨id, d, hd, htask htask', hle, rfl⟩
    rw [hempty] at hmem
    cases hmem
  · rename_i hnonempty
    rw [Bool.not_eq_true] at hnonempty
    generalize hs₁ : (s.elsewhere cfg env turn.before).note (.tick turn.nowMs) = s₁ at *
    obtain ⟨_, s₃, rfl, hs₃, hcases⟩ := call_cases cfg env s₁ { turn with before := [] }
      (.renew (dueRenewals s₁.running turn.nowMs)
        (saturatingAdd turn.nowMs (durationMillis (retryLease cfg.stallWindow))))
    rcases hcases with ⟨_, hnever⟩ | ⟨txn, store, reply, hplan, hcommit, hcall⟩
    · obtain ⟨_, herror⟩ := hnever _ (plan_renew hnonempty) hfails
      cases herror
    rw [plan_renew hnonempty] at hplan
    obtain rfl := Option.some.inj (Except.ok.inj hplan)
    obtain ⟨renewed, rfl, hrun⟩ := Store.commit_renew hcommit
    rw [hcall]
    intro htime
    have htime₃ : OnTime cfg.stallWindow w (past ++ s₃.moments) := htime
    have htime₁ : OnTime cfg.stallWindow w (past ++ s₁.moments) := by
      refine htime₃.of_prefix ((List.prefix_append_right_inj past).2 ?_)
      rw [hs₃]
      exact (prefix_of_note s₁ _).trans (prefix_of_elsewhere _ _)
    rw [← hs₁] at htime₁
    obtain ⟨base, hlate, hsat, htickMs, hleases⟩ := h₀.tick hok₀ htime₁
    rw [hs₁] at htickMs hleases
    have htick₃ : (w.through (past ++ s₃.moments)).tickMs = turn.nowMs := by
      rw [hs₃, elsewhere_tick, note_moments, ← List.append_assoc, Watch.through_concat]
      exact htickMs
    show Leases cfg env past (w.through (past ++ s₃.moments)).tickMs.toNat [] sinceMs _
    rw [htick₃]
    exact hleases.write hok₁ hprompt hlate hsat hs₃ hrun htime₃

/-! ## The other functions -/

theorem Steady.retryRecord (hok : s.Ok cfg log) (h : Steady cfg env w past waiting sinceMs s)
    (turn : Turn) (record : DeliveryRecord) (failure : DeliveryFailure) :
    Steady cfg env w past waiting sinceMs (s.retryRecord cfg env turn record failure) := by
  have hok₁ := hok.note (e := .handed record) rfl
  have h₁ := h.note hok (e := .handed record) rfl fun _ => rfl
  simp only [Loop.retryRecord]
  split
  · refine h₁.call hok₁ ?_ turn
    rintro _ _ ⟨⟩
    rfl
  · refine h₁.call hok₁ ?_ turn
    rintro _ _ ⟨⟩
    rfl

theorem Steady.finishDurableRecord (hok : s.Ok cfg log) (h : Steady cfg env w past waiting sinceMs s)
    (turn : Turn) (done : CompletedDelivery) :
    Steady cfg env w past waiting sinceMs (s.finishDurableRecord cfg env turn done) := by
  simp only [Loop.finishDurableRecord]
  split
  · refine h.call hok ?_ turn
    rintro _ _ ⟨⟩
    rfl
  · exact h.retryRecord hok turn done.record _
  · refine h.call hok ?_ turn
    rintro _ _ ⟨⟩
    rfl

theorem plan_redrive {store : Store} {policy : RedrivePolicy} {m : Option (Table String String)}
    {nowMs : UInt64} {batchLimit : ℕ} {txn : Txn}
    (h : store.plan (.redrive policy m nowMs batchLimit) = .ok (some txn)) :
    txn.setsLease = false := by
  simp only [Store.plan] at h
  split at h
  · cases h
  · cases hc : store.collectDueDeadKeys policy m nowMs batchLimit with
    | error e => rw [hc] at h; cases h
    | ok keys =>
      simp only [hc, bind, Except.bind] at h
      split at h
      · cases h
      · obtain rfl := Option.some.inj (Except.ok.inj h)
        rfl

/-- A lease of the loop leaves alone what is running. -/
theorem Leases.lease {store : Store} {nowMs : UInt64} {batchLimit : ℕ} {leaseDur : Duration}
    {dept : Option String} {excluded : Std.ExtTreeSet String} {expired ready : List DueIndexKey}
    {reply : Reply} (h : Leases cfg env past base [] sinceMs s)
    (he : Entry.Committed env ⟨s.world.store, .lease nowMs batchLimit leaseDur dept excluded expired
      ready, reply, store⟩) (hexcluded : ∀ id, id ∈ s.running → id ∈ excluded) (sinceMs' : ℕ) :
    Leases cfg env past base [] sinceMs' { s with world := { s.world with store := store } } := by
  refine ⟨h.entry, fun id d hd htask hheld u hu => ?_, by simp, h.safe⟩
  refine h.lasts id d hd htask hheld u ?_
  have hmem : id ∈ s.running := by
    rw [← Std.ExtTreeMap.isSome_getElem?_iff_mem, show s.running[id]? = some d from hd]
    rfl
  obtain ⟨_, _, hid⟩ := h.entry id d hd
  have hlive := (he.moves d.ran.deliveryId).live_of_lease (Or.inl (hid ▸ hexcluded id hmem))
  obtain ⟨row, hrow, hrest⟩ := hu
  exact ⟨row, hlive.symm.trans hrow, hrest⟩

/-- What a lease of the loop grants is leased from its clock on. -/
theorem leased_ends {before store : Store} {nowMs : UInt64} {batchLimit : ℕ} {dept : Option String}
    {excluded : Std.ExtTreeSet String} {expired ready : List DueIndexKey}
    {leased : List DeliveryRecord}
    (he : Entry.Committed env ⟨before, .lease nowMs batchLimit (retryLease cfg.stallWindow)
      dept excluded expired ready, .lease leased, store⟩)
    (hsat : nowMs.toNat + leaseMs cfg.stallWindow < 2 ^ 64) {r : DeliveryRecord} (hr : r ∈ leased)
    {u : UInt64} (hu : (store.view r.deliveryId).LeasedAs r.leaseGeneration u) :
    u.toNat = nowMs.toNat + leaseMs cfg.stallWindow := by
  obtain ⟨_, ⟨⟩, hrun⟩ := Store.commit_lease he.commit
  obtain ⟨_, _, hrows⟩ := Store.leaseMatching_spec he.inv
    ⟨nowMs, batchLimit, retryLease cfg.stallWindow, dept, excluded, expired, ready⟩
    (fun k hk => (he.planned.1 k hk).2) he.planned.2.2 hrun
  obtain ⟨hrow, row, _, hleased⟩ := hrows r hr
  obtain ⟨row', hrow', _, hu'⟩ := hu
  obtain rfl := Option.some.inj (hrow.symm.trans hrow')
  rw [hleased] at hu'
  obtain rfl := Option.some.inj hu'
  exact toNat_leaseUntil hsat

/-- The records of a lease are written down, and wait. -/
theorem Leases.granted {leased : List DeliveryRecord} (hok : s.Ok cfg log)
    (h : Leases cfg env past base [] sinceMs s)
    (hin : Moment.InTime cfg.stallWindow (w.through (past ++ s.moments))
      ⟨.granted leased, s.world, s.running⟩)
    (hnew : ∀ r ∈ leased, r.deliveryId ∉ s.running)
    (hends : ∀ r ∈ leased, ∀ u : UInt64,
      (s.world.store.view r.deliveryId).LeasedAs r.leaseGeneration u →
        base ≤ sinceMs ∧ u.toNat = sinceMs + leaseMs cfg.stallWindow) :
    Leases cfg env past base leased sinceMs (s.note (.granted leased)) := by
  refine ⟨h.entry, fun id d hd htask hheld u hu => ?_, fun r hr _ u hu => hends r hr u hu,
    safe_concat h.safe (h.safe_note hok.wired.world hin hnew (by simp [Event.time]))⟩
  refine h.lasts id d hd htask (held_of_note ?_ hheld).1 u hu
  intro hmem
  refine hnew d.ran hmem ?_
  obtain ⟨_, _, hid⟩ := h.entry id d hd
  rw [hid, ← Std.ExtTreeMap.isSome_getElem?_iff_mem, show s.running[id]? = some d from hd]
  rfl

/-- A record that has waited enters the map. -/
theorem Leases.enter {record : DeliveryRecord}
    (h : Leases cfg env past base (record :: waiting) sinceMs s) {nowMs : UInt64}
    (hsat : nowMs.toNat + leaseMs cfg.stallWindow < 2 ^ 64) (hbase : base ≤ nowMs.toNat)
    (hprompt : nowMs.toNat ≤ sinceMs + 500) (handle : ℕ) :
    Leases cfg env past base waiting sinceMs
      (s.enter ⟨nextRenewAtMs nowMs cfg.stallWindow, record, handle, record, .running⟩) := by
  have hget : ∀ {id : String} {d : RunningDelivery}, (s.enter ⟨nextRenewAtMs nowMs cfg.stallWindow,
      record, handle, record, .running⟩).running[id]? = some d →
      (id = record.deliveryId ∧
        d = ⟨nextRenewAtMs nowMs cfg.stallWindow, record, handle, record, .running⟩) ∨
      s.running[id]? = some d := by
    intro id d hd
    rw [Loop.enter] at hd
    dsimp only at hd
    rw [Table.get_insert] at hd
    split at hd
    · rename_i hid
      exact Or.inl ⟨hid, (Option.some.inj hd).symm⟩
    · exact Or.inr hd
  refine ⟨fun id d hd => ?_, fun id d hd htask => ?_, fun r hr => h.waits r (by simp [hr]), h.safe⟩
  · rcases hget hd with ⟨rfl, rfl⟩ | hd
    · exact ⟨rfl, rfl, rfl⟩
    · exact h.entry id d hd
  · rcases hget hd with ⟨rfl, rfl⟩ | hd
    · intro hheld u hu
      obtain ⟨_, hends⟩ := h.waits record (by simp) hheld u hu
      have hnext := toNat_nextRenewAtMs hsat
      have hrenew := renewMs_lt_leaseMs cfg.stallWindow
      refine ⟨?_, ?_⟩
      · dsimp only
        omega
      · dsimp only
        omega
    · exact h.lasts id d hd htask

/-- The admission of one record. -/
theorem Steady.takeIn (hok : s.Ok cfg log) {record : DeliveryRecord} (hw : w.tickMs ≤ w.nowMs)
    (h : Steady cfg env w past (record :: waiting) sinceMs s) (hnew : record.deliveryId ∉ s.running)
    (hgranted : record ∈ s.own.flatMap Event.grants) (hroom : s.running.size < cfg.maxInFlight)
    {a : Admission} (hprompt : a.spawnError = none → a.turn.nowMs.toNat ≤ sinceMs + 500) :
    Steady cfg env w past waiting sinceMs (s.takeIn cfg env a record) := by
  simp only [Loop.takeIn, if_neg hnew]
  split
  · refine Steady.retryRecord hok (fun htime => ?_) a.turn record _
    have hleases := h htime
    exact ⟨hleases.entry, hleases.lasts, fun r hr => hleases.waits r (by simp [hr]), hleases.safe⟩
  · rename_i hspawn
    obtain ⟨hok₁, hkeeps₁⟩ := hok.elsewhere env a.turn.before
    have h₁ := h.elsewhere hok a.turn.before
    have hok₂ := hok₁.enter a.turn.nowMs
      (d := ⟨nextRenewAtMs a.turn.nowMs cfg.stallWindow, record,
        (s.elsewhere cfg env a.turn.before).nextHandle, record, .running⟩)
      (fun hmem => hnew ((hkeeps₁.mem_running _).1 hmem))
      (by rw [hkeeps₁.own, List.append_nil]; exact hgranted) (by rw [hkeeps₁.size]; exact hroom) rfl
    rw [note_nextHandle, ← hkeeps₁.nextHandle]
    refine Steady.elsewhere hok₂ (fun htime => ?_) a.turn.between
    have hnote := h₁.note hok₁ (e := .started a.turn.nowMs
      (s.elsewhere cfg env a.turn.before).nextHandle record) rfl (fun _ => rfl) htime
    refine hnote.enter ?_ ?_ (hprompt hspawn) _
    · have htime' := htime
      rw [show ((Loop.note _ _).enter _).moments = _ from note_moments _ _, ← List.append_assoc,
        onTime_concat] at htime'
      exact (htime'.2.2 _ rfl).2.2
    · have hle := UInt64.le_iff_toNat_le.1 (OnTime.tickMs_le htime hw)
      refine hle.trans (Nat.le_of_eq ?_)
      rw [show ((Loop.note _ _).enter _).moments = _ from note_moments _ _, ← List.append_assoc,
        Watch.through_concat]
      rfl

/-- The admission of all leased records. -/
theorem Steady.admitAll (hw : w.tickMs ≤ w.nowMs) {admission : DeliveryRecord → Admission}
    (hprompt : ∀ r, (admission r).spawnError = none →
      (admission r).turn.nowMs.toNat ≤ sinceMs + 500) :
    ∀ {leased : List DeliveryRecord} {s : Loop}, s.Ok cfg log →
      Steady cfg env w past leased sinceMs s →
      (leased.map DeliveryRecord.deliveryId).Nodup →
      (∀ r ∈ leased, r.deliveryId ∉ s.running ∧ r ∈ s.own.flatMap Event.grants) →
      s.running.size + leased.length ≤ cfg.maxInFlight →
      Steady cfg env w past [] sinceMs
        (leased.foldl (fun s r => s.takeIn cfg env (admission r) r) s)
  | [], s, _, h, _, _, _ => h
  | record :: leased, s, hok, h, hnodup, hnew, hroom => by
    rw [List.map_cons, List.nodup_cons] at hnodup
    rw [List.length_cons] at hroom
    obtain ⟨hfirst, hgranted⟩ := hnew record (by simp)
    obtain ⟨hok', es, hadm⟩ := hok.takeIn env (admission record) hfirst hgranted (by omega)
    have h' := Steady.takeIn hok hw h hfirst hgranted (by omega) (hprompt record)
    rw [List.foldl_cons]
    refine Steady.admitAll hw hprompt hok' h' hnodup.2 (fun r hr => ?_)
      (by have := hadm.size; omega)
    exact hadm.waiting (fun heq => hnodup.1 (heq ▸ List.mem_map_of_mem hr))
      (hnew r (by simp [hr])).1 (hnew r (by simp [hr])).2

/-- One dispatch. -/
theorem Steady.dispatchDue (hok : s.Ok cfg log) (hw : w.tickMs ≤ w.nowMs)
    (h : Steady cfg env w past [] sinceMs s) {dispatch : Dispatch} (hprompt : dispatch.Prompt) :
    ∃ sinceMs', Steady cfg env w past [] sinceMs' (s.dispatchDue cfg env dispatch) := by
  simp only [Loop.dispatchDue]
  split
  · exact ⟨sinceMs, h⟩
  obtain ⟨s₁, s₂, hs₁, hs₂, hcases⟩ :=
    call_cases cfg env s dispatch.lease (leaseCall cfg s dispatch.lease.nowMs)
  obtain ⟨hok₀, hkeeps₀⟩ := hok.elsewhere env dispatch.lease.before
  have hok₁ : s₁.Ok cfg log := hs₁ ▸ hok₀.note rfl
  have h₁ : Steady cfg env w past [] sinceMs s₁ :=
    hs₁ ▸ (h.elsewhere hok dispatch.lease.before).note hok₀ rfl fun _ => rfl
  obtain ⟨hok₂, hkeeps₂⟩ := hok₁.elsewhere env dispatch.lease.between
  have h₂ := h₁.elsewhere hok₁ dispatch.lease.between
  rw [← hs₂] at hok₂ hkeeps₂ h₂
  rcases hcases with ⟨hcall, _⟩ | ⟨txn, store, reply, hplan, hcommit, hcall⟩
  · rw [← leaseCall, hcall]
    exact ⟨sinceMs, h₂⟩
  have hplanned := (Store.plan_eq_ok hok₁.wired.world.store hplan).1
  obtain ⟨expired, ready, rfl⟩ := Store.plan_lease hplan
  obtain ⟨leased, rfl, _⟩ := Store.commit_lease hcommit
  have he : Entry.Committed env ⟨s₂.world.store, _, .lease leased, store⟩ :=
    ⟨hok₂.wired.world.store, hplanned, hcommit⟩
  obtain ⟨_, hroom, hnodup, hnew⟩ := hok.leased hcall
  have hok₃ := (hok.call env dispatch.lease (leaseCall cfg s dispatch.lease.nowMs)).1
  rw [hcall] at hok₃
  rw [← leaseCall, hcall]
  refine ⟨dispatch.lease.nowMs.toNat, Steady.admitAll hw hprompt (hok₃.note rfl) (fun htime => ?_)
    hnodup hnew hroom⟩
  rw [note_moments, ← List.append_assoc] at htime ⊢
  rw [onTime_concat] at htime
  rw [Watch.through_concat]
  -- The clock of the lease is that of the call, which is behind the last tick and not ahead of time.
  have htime₂ : OnTime cfg.stallWindow w (past ++ s₂.moments) := htime.1
  have htime₁ : OnTime cfg.stallWindow w (past ++ s₁.moments) := by
    refine htime₂.of_prefix ((List.prefix_append_right_inj past).2 ?_)
    rw [hs₂]
    exact prefix_of_elsewhere _ _
  have htick : (w.through (past ++ s₂.moments)).tickMs ≤ dispatch.lease.nowMs := by
    rw [hs₂, elsewhere_tick]
    refine UInt64.le_trans (htime₁.tickMs_le hw) (UInt64.le_of_eq ?_)
    rw [hs₁, note_moments, ← List.append_assoc, Watch.through_concat]
    rfl
  have hsat : dispatch.lease.nowMs.toNat + leaseMs cfg.stallWindow < 2 ^ 64 := by
    rw [hs₁, note_moments, ← List.append_assoc, onTime_concat] at htime₁
    exact (htime₁.2.2 _ rfl).2.2
  have hexcluded : ∀ id, id ∈ s₂.running → id ∈ Std.ExtTreeSet.ofList s.running.keys := by
    intro id hid
    rw [Std.ExtTreeSet.mem_ofList, List.contains_iff_mem, Std.ExtTreeMap.mem_keys]
    have hmem := (hkeeps₂.mem_running id).1 hid
    rw [hs₁] at hmem
    exact (hkeeps₀.mem_running id).1 hmem
  refine ((h₂ htime₂).lease he hexcluded _).granted hok₃ htime.2 (fun r hr => (hnew r hr).1) ?_
  intro r hr u hu
  exact ⟨UInt64.le_iff_toNat_le.1 htick, leased_ends he hsat hr hu⟩

/-- A completion: an entry leaves the map. -/
theorem Steady.complete (hok : s.Ok cfg log) (h : Steady cfg env w past [] sinceMs s) (turn : Turn) :
    Steady cfg env w past [] sinceMs (s.complete cfg env turn) := by
  simp only [Loop.complete]
  split
  · exact h
  split
  · exact h
  · rename_i handle done rest hinbox
    refine Steady.finishDurableRecord (hok.receive hinbox) (fun htime => ?_) turn done
    have hnote := h.note hok (e := .received handle done) rfl (fun _ => rfl) htime
    have hget : ∀ {id : String} {d : RunningDelivery},
        ((s.note (.received handle done)).remove done rest).running[id]? = some d →
        (s.note (.received handle done)).running[id]? = some d := by
      intro id d hd
      rw [Loop.remove] at hd
      dsimp only at hd
      rw [Table.get_erase] at hd
      split at hd
      · cases hd
      · exact hd
    exact ⟨fun id d hd => hnote.entry id d (hget hd), fun id d hd => hnote.lasts id d (hget hd),
      by simp, hnote.safe⟩

/-- **One arm of the `select!`.** -/
theorem Steady.perform (hok : s.Ok cfg log) (hw : w.tickMs ≤ w.nowMs)
    (h : Steady cfg env w past [] sinceMs s) {input : Input} (hprompt : input.Prompt) :
    ∃ sinceMs', Steady cfg env w past [] sinceMs' (s.perform cfg env input) := by
  cases input with
  | wake dispatch => exact h.dispatchDue hok hw hprompt
  | tick renew currentDeptByQueue redrive dispatch =>
    obtain ⟨hfails, hwritten, hprompt⟩ := hprompt
    have hok₁ := (hok.renewRunning env renew).1
    have h₁ := h.renewRunning hok hfails hwritten
    have hok₂ := (hok₁.call env redrive (.redrive ⟨redriveMax, redriveCooldown⟩
      (some currentDeptByQueue) redrive.nowMs dispatchBatch)).1
    have h₂ := h₁.call hok₁ (c := .redrive ⟨redriveMax, redriveCooldown⟩
      (some currentDeptByQueue) redrive.nowMs dispatchBatch) (fun _ _ => plan_redrive) redrive
    simp only [Loop.perform, Loop.maintainDeadLetters]
    exact h₂.dispatchDue hok₂ hw hprompt
  | completion turn => exact ⟨sinceMs, h.complete hok turn⟩
  | idle happenings => exact ⟨sinceMs, h.elsewhere hok happenings⟩

/-- Between two steps. -/
theorem Steady.next (h : Steady cfg env w past [] sinceMs s) :
    Steady cfg env w (past ++ s.moments) [] sinceMs { s with moments := [] } := by
  intro htime
  rw [List.append_nil] at htime ⊢
  obtain ⟨hentry, hlasts, _, hsafe⟩ := h htime
  refine ⟨hentry, fun id d hd htask hheld => ?_, by simp, ?_⟩
  · rw [List.append_nil] at hheld
    exact hlasts id d hd htask hheld
  · rw [List.append_nil]
    exact hsafe

end Loop

/-- All moments of a run. -/
def momentsOf (log : List LoopStep) : List Moment := log.flatMap fun e => e.after.moments

/-- The moments of a run from any point on. -/
theorem safe_run {cfg : Settings} {env : Env} {w : Watch} (hw : w.tickMs ≤ w.nowMs) :
    ∀ {inputs : List Input} {s : Loop} {log : List (List Event)} {past : List Moment} {sinceMs : ℕ},
      (∀ input ∈ inputs, input.Prompt) → Loop.Ok cfg log { s with moments := [] } →
      Loop.Steady cfg env w past [] sinceMs { s with moments := [] } →
      OnTime cfg.stallWindow w (past ++ momentsOf (s.run cfg env inputs).2) →
      ∀ (before : List Moment) (m : Moment) (after : List Moment),
        past ++ momentsOf (s.run cfg env inputs).2 = before ++ m :: after → m.Safe env before
  | [], s, log, past, sinceMs, _, _, h, htime => (h htime).safe
  | input :: inputs, s, log, past, sinceMs, hprompt, hok, h, htime => by
    obtain ⟨sinceMs', hnext⟩ := h.perform hok hw (hprompt input (by simp))
    have hok' := (hok.perform env input).1.next
    have hmoments : momentsOf (s.run cfg env (input :: inputs)).2 =
        (s.step cfg env input).1.moments ++
          momentsOf ((s.step cfg env input).1.run cfg env inputs).2 := rfl
    rw [hmoments, ← List.append_assoc] at htime ⊢
    exact @safe_run cfg env w hw inputs (s.step cfg env input).1 _ _ _
      (fun input' h' => hprompt input' (by simp [h'])) hok' hnext.next htime

/-- **Renewal beats expiry.**  In every run that is in time, at every moment: a delivery that is
running, not finished and still owned is leased for longer than the clock says, and no other party
is granted it. -/
theorem renewal_beats_expiry (cfg : Settings) (env : Env) (acts : List Act) (inputs : List Input)
    (startMs : UInt64) (hprompt : ∀ input ∈ inputs, input.Prompt)
    (htime : OnTime cfg.stallWindow ⟨startMs, startMs, []⟩
      (momentsOf ((Loop.start (World.init.run env acts).1).run cfg env inputs).2)) :
    ∀ (before : List Moment) (m : Moment) (after : List Moment),
      momentsOf ((Loop.start (World.init.run env acts).1).run cfg env inputs).2 =
        before ++ m :: after → m.Safe env before := by
  refine @safe_run cfg env _ (UInt64.le_refl startMs) inputs _ [] [] 0 hprompt
    (Loop.ok_start (World.run_inv env acts)) (fun _ => ?_) htime
  exact ⟨by simp [Loop.start], by simp [Loop.start], by simp, by simp⟩

/-! ## A small example -/

instance (id : String) (g nowMs : UInt64) (t : Txn) : Decidable (t.Spares id g nowMs) :=
  match t with
  | .rebind _ => inferInstanceAs (Decidable False)
  | .renew renewals _ => inferInstanceAs (Decidable ((id, g) ∉ renewals))
  | .lease now _ _ _ _ _ _ => inferInstanceAs (Decidable (now ≤ nowMs))
  | .leaseDelivery _ now _ => inferInstanceAs (Decidable (now ≤ nowMs))
  | .enqueue _ | .sweep _ _ _ _ | .ack _ _ | .deferLockBusy _ _ _ _ _ | .retry _ _ _ _ _
  | .redrive _ _ _ _ | .reopen => inferInstanceAs (Decidable True)

instance (m : Moment) (granted : List DeliveryRecord) : Decidable (m.Spares granted) :=
  match m with
  | ⟨.happens atMs (.act (.finish i)), world, _⟩ => inferInstanceAs (Decidable
    (∀ txn ∈ world.pending[i]?, ∀ r ∈ granted, txn.Spares r.deliveryId r.leaseGeneration atMs))
  | ⟨.happens _ (.act (.start _)), _, _⟩ | ⟨.happens _ (.sends _ _ _), _, _⟩
  | ⟨.happens _ (.ends _), _, _⟩ | ⟨.tick _, _, _⟩ | ⟨.call _ _, _, _⟩ | ⟨.granted _, _, _⟩
  | ⟨.started _ _ _, _, _⟩ | ⟨.handed _, _, _⟩ | ⟨.received _ _, _, _⟩ =>
    inferInstanceAs (Decidable True)

instance (stallWindow : Duration) (w : Watch) (m : Moment) : Decidable (m.InTime stallWindow w) :=
  -- not by going through all times
  have : Decidable (∀ t ∈ m.event.time, w.nowMs ≤ t ∧ t.toNat ≤ w.tickMs.toNat + 2000 ∧
      t.toNat + leaseMs stallWindow < 2 ^ 64) :=
    Option.decidableForallMem _
  inferInstanceAs (Decidable (_ ∧ _))

instance decidableOnTime (stallWindow : Duration) : ∀ (w : Watch) (ms : List Moment),
    Decidable (OnTime stallWindow w ms)
  | _, [] => inferInstanceAs (Decidable True)
  | w, m :: rest =>
    have := decidableOnTime stallWindow (w.after m.event) rest
    inferInstanceAs (Decidable (m.InTime stallWindow w ∧ OnTime stallWindow (w.after m.event) rest))

namespace Sample

open Delivery.Sample (env record)

/-- A consumer with room for one delivery and the shortest of windows. -/
def settings : Settings := ⟨"dept", Duration.zero, none, Delivery.Sample.retryPolicy, 1, 1, 1⟩

/-- A call during which nothing else happens. -/
def turn (nowMs : UInt64) : Turn := ⟨[], nowMs, [], false⟩

/-- One delivery is started, 400 ms after its lease; the first tick leaves it alone and the second
renews it; another party asks for it when the first lease would have ended. -/
def inputs : List Input :=
  [.wake ⟨turn 0, fun _ => ⟨none, turn 400⟩⟩,
    .tick (turn 2000) ∅ (turn 2000) ⟨turn 2000, fun _ => ⟨none, turn 2000⟩⟩,
    .tick (turn 4000) ∅ (turn 4000) ⟨turn 4000, fun _ => ⟨none, turn 4000⟩⟩,
    .idle [⟨6000, .act (.start (.lease 6000 1 ⟨1, 0⟩ (some "dept") ∅))⟩, ⟨6000, .act (.finish 0)⟩]]

/-- The delivery is there before the consumer is. -/
def acts : List Act := Act.inSequence [.enqueue (record "a" false)]

/-- The moments of this run. -/
def moments : List Moment :=
  momentsOf ((Loop.start (World.init.run env acts).1).run settings env inputs).2

/-- Is the delivery leased under the generation of the record? -/
def owns (m : Moment) (r : DeliveryRecord) : Bool :=
  m.world.store.deliveryById[r.deliveryId]?.any fun row =>
    row.leaseGeneration == r.leaseGeneration && row.leaseUntilMs.isSome

theorem heldWith_of_owns {m : Moment} {r : DeliveryRecord} (h : owns m r = true) :
    (m.world.store.view r.deliveryId).HeldWith r.leaseGeneration := by
  rw [owns, Option.any_eq_true] at h
  obtain ⟨row, hrow, hcheck⟩ := h
  rw [Bool.and_eq_true, beq_iff_eq] at hcheck
  obtain ⟨u, hu⟩ := Option.isSome_iff_exists.1 hcheck.2
  exact ⟨row, u, hrow, hu, hcheck.1⟩

/-- Is this the grant of the record, owned from then on? -/
def holds (r : DeliveryRecord) (ms : List Moment) : Bool :=
  match ms with
  | [] => false
  | g :: since => decide (r ∈ g.event.grants) && (g :: since).all fun m => owns m r

theorem held_of_holds {r : DeliveryRecord} (ms : List Moment) {ms' : List Moment}
    (h : holds r ms' = true) :
    Held (ms ++ ms') r := by
  cases ms' with
  | nil => cases h
  | cons g since =>
    rw [holds, Bool.and_eq_true, decide_eq_true_eq, List.all_eq_true] at h
    obtain ⟨hgrant, howned⟩ := h
    cases he : g.event with
    | granted records =>
      rw [he] at hgrant
      exact ⟨ms, g, since, records, rfl, he, hgrant, fun m hm => heldWith_of_owns (howned m hm)⟩
    | _ =>
      rw [he] at hgrant
      cases hgrant

end Sample

open Sample in
/-- At the last moment of the example the delivery is running and owned, and so it is leased for
longer. -/
theorem renewal_beats_expiry_sample :
    (∀ input ∈ inputs, input.Prompt) ∧
    OnTime settings.stallWindow ⟨0, 0, []⟩ moments ∧
    ∃ before m d, moments = before ++ [m] ∧ m.running["a"]? = some d ∧ d.task ≠ .finished ∧
      Held (before ++ [m]) d.ran ∧ m.Safe Delivery.Sample.env before := by
  have hprompt : ∀ input ∈ inputs, input.Prompt := by
    simp [inputs, Input.Prompt, Dispatch.Prompt, turn]
  have htime : OnTime settings.stallWindow ⟨0, 0, []⟩ moments := by decide +kernel
  have hcheck : (moments.getLast?.any fun m => m.running["a"]?.any fun d =>
      d.task != .finished && holds d.ran (moments.drop 1)) = true := by decide +kernel
  simp only [Option.any_eq_true, Bool.and_eq_true, bne_iff_ne] at hcheck
  obtain ⟨m, hm, d, hd, htask, hholds⟩ := hcheck
  obtain ⟨before, hbefore⟩ := List.getLast?_eq_some_iff.1 hm
  have hheld := held_of_holds (moments.take 1) hholds
  rw [List.take_append_drop, hbefore] at hheld
  exact ⟨hprompt, htime, before, m, d, hbefore, hd, htask, hheld,
    renewal_beats_expiry settings Delivery.Sample.env acts inputs 0 hprompt htime before m [] hbefore⟩

end Fkst.Consumer
