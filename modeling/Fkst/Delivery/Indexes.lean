import Fkst.Delivery.Runs

/-!
# The indexes

Five tables of the store are indexes over the rows of two others, maintained by hand in every
operation.  When calls run one after the other, all five are exact after every sequence of calls.

When calls overlap, a lease and a redrive work on keys that were read in an earlier transaction.
A key may then survive its row, but no row is ever without its key, and a lease grants nothing that
the rows themselves do not allow.
-/

set_option autoImplicit false

namespace Fkst.Delivery

open Lib

namespace Store

variable {s : Store}

/-! ## What the invariant says about an index -/

theorem Inv.ready_entries (hs : s.Inv) (hc : s.Clean) (id : String) :
    dueFormat.entries s.readyByDeptDue id = readyKeys s.deliveryById[id]? :=
  (hc id).ready.antisymm (hs.indexed id).live.ready

theorem Inv.leased_entries (hs : s.Inv) (id : String) :
    dueFormat.entries s.leasedByDeptUntil id = leasedKeys s.deliveryById[id]? :=
  (hs.indexed id).live.leased

theorem Inv.deadTime_entries (hs : s.Inv) (id : String) :
    deadTimeFormat.entries s.deadByTime id = deadTimeKeys s.deadById[id]? :=
  (hs.indexed id).dead.time

theorem Inv.deadDue_entries (hs : s.Inv) (hc : s.Clean) (id : String) :
    deadDueFormat.entries s.deadByDeptDue id = deadDueKeys s.deadById[id]? :=
  (hc id).deadDue.antisymm (hs.indexed id).dead.due

theorem Inv.terminal_entries (hs : s.Inv) (id : String) :
    deadDueFormat.entries s.terminalDeadByTime id = terminalKeys s.deadById[id]? :=
  (hs.indexed id).dead.terminal

/-- A dead row waits for its redrive, or it is terminal. -/
theorem Inv.replayable_iff_not_terminal (hs : s.Inv) {id : String} {d : DeadRecord}
    (hd : s.deadById[id]? = some d) :
    (d.permanent = false ∧ d.replayable = true ∧ d.record.isSome = true) ↔
      ¬ (d.permanent = true ∨ d.replayable = false) := by
  have hok := hs.deadOk hd
  have hperm := hok.permanent
  cases hr : d.replayable with
  | false => simp
  | true =>
    obtain ⟨r, hrec, _⟩ := hok.record hr
    simp [hperm, hr, hrec]

/-! ## Calls one after the other -/

/-- **The live indexes are exact.**  After every sequence of calls, the ready and the leased index
hold the keys of the live rows and nothing else, and every live row is stored under its own id. -/
theorem liveIndexes_exact (env : Env) (calls : List Call) :
    (∀ key, key ∈ (run env empty calls).readyByDeptDue ↔
      ∃ (id : String) (r : DeliveryRecord), (run env empty calls).deliveryById[id]? = some r ∧
        r.leaseUntilMs = none ∧ key = makeIndexKey r.dept r.notBeforeMs r.deliveryId) ∧
    (∀ key, key ∈ (run env empty calls).leasedByDeptUntil ↔
      ∃ (id : String) (r : DeliveryRecord) (u : UInt64),
        (run env empty calls).deliveryById[id]? = some r ∧ r.leaseUntilMs = some u ∧
          key = makeIndexKey r.dept u r.deliveryId) ∧
    ∀ (id : String) (r : DeliveryRecord), (run env empty calls).deliveryById[id]? = some r →
      r.deliveryId = id := by
  obtain ⟨hs, hc⟩ := run_inv env calls inv_empty clean_empty
  have hid : ∀ {id : String} {r : DeliveryRecord},
      (run env empty calls).deliveryById[id]? = some r → r.deliveryId = id :=
    fun h => (hs.liveOk h).deliveryId
  refine ⟨fun key => ?_, fun key => ?_, fun _ _ => hid⟩
  · rw [KeyFormat.mem_iff hs.wellFormed.ready (hs.ready_entries hc)]
    constructor
    · rintro ⟨id, _, ⟨r, hr, hlease, rfl⟩, rfl⟩
      exact ⟨id, r, hr, hlease, by rw [hid hr]; rfl⟩
    · rintro ⟨id, r, hr, hlease, rfl⟩
      exact ⟨id, _, ⟨r, hr, hlease, rfl⟩, by rw [hid hr]; rfl⟩
  · rw [KeyFormat.mem_iff hs.wellFormed.leased hs.leased_entries]
    constructor
    · rintro ⟨id, _, ⟨r, u, hr, hlease, rfl⟩, rfl⟩
      exact ⟨id, r, u, hr, hlease, by rw [hid hr]; rfl⟩
    · rintro ⟨id, r, u, hr, hlease, rfl⟩
      exact ⟨id, _, ⟨r, u, hr, hlease, rfl⟩, by rw [hid hr]; rfl⟩

/-- **The dead indexes are exact.**  After every sequence of calls, the three indexes over the dead
rows hold the keys of the rows they are for and nothing else, and every dead row either waits for
its redrive, with its record, or is terminal. -/
theorem deadIndexes_exact (env : Env) (calls : List Call) :
    (∀ key, key ∈ (run env empty calls).deadByTime ↔
      ∃ (id : String) (d : DeadRecord), (run env empty calls).deadById[id]? = some d ∧
        key = makeDeadTimeIndexKey d.deadAtMs id) ∧
    (∀ key, key ∈ (run env empty calls).deadByDeptDue ↔
      ∃ (id : String) (d : DeadRecord), (run env empty calls).deadById[id]? = some d ∧
        (d.permanent = false ∧ d.replayable = true ∧ d.record.isSome = true) ∧
        key = makeDeadDueIndexKey d.dept d.deadAtMs id) ∧
    (∀ key, key ∈ (run env empty calls).terminalDeadByTime ↔
      ∃ (id : String) (d : DeadRecord), (run env empty calls).deadById[id]? = some d ∧
        (d.permanent = true ∨ d.replayable = false) ∧
        key = makeDeadDueIndexKey d.dept d.deadAtMs id) ∧
    ∀ (id : String) (d : DeadRecord), (run env empty calls).deadById[id]? = some d →
      d.deliveryId = id ∧
        ((d.permanent = false ∧ d.replayable = true ∧ d.record.isSome = true) ↔
          ¬ (d.permanent = true ∨ d.replayable = false)) := by
  obtain ⟨hs, hc⟩ := run_inv env calls inv_empty clean_empty
  have hindex : ∀ d : DeadRecord, shouldIndexDeadRecord d = true ↔
      (d.permanent = false ∧ d.replayable = true ∧ d.record.isSome = true) := by
    simp [shouldIndexDeadRecord, and_assoc]
  have hterminal : ∀ d : DeadRecord, isTerminalDeadRecord d = true ↔
      (d.permanent = true ∨ d.replayable = false) := by
    simp [isTerminalDeadRecord]
  refine ⟨fun key => ?_, fun key => ?_, fun key => ?_, fun id d hd =>
    ⟨(hs.deadOk hd).deliveryId, hs.replayable_iff_not_terminal hd⟩⟩
  · rw [KeyFormat.mem_iff hs.wellFormed.deadTime hs.deadTime_entries]
    constructor
    · rintro ⟨id, _, ⟨d, hd, rfl⟩, rfl⟩
      exact ⟨id, d, hd, rfl⟩
    · rintro ⟨id, d, hd, rfl⟩
      exact ⟨id, _, ⟨d, hd, rfl⟩, rfl⟩
  · rw [KeyFormat.mem_iff hs.wellFormed.deadDue (hs.deadDue_entries hc)]
    constructor
    · rintro ⟨id, _, ⟨d, hd, h, rfl⟩, rfl⟩
      exact ⟨id, d, hd, (hindex d).1 h, rfl⟩
    · rintro ⟨id, d, hd, h, rfl⟩
      exact ⟨id, _, ⟨d, hd, (hindex d).2 h, rfl⟩, rfl⟩
  · rw [KeyFormat.mem_iff hs.wellFormed.terminal hs.terminal_entries]
    constructor
    · rintro ⟨id, _, ⟨d, hd, h, rfl⟩, rfl⟩
      exact ⟨id, d, hd, (hterminal d).1 h, rfl⟩
    · rintro ⟨id, d, hd, h, rfl⟩
      exact ⟨id, _, ⟨d, hd, (hterminal d).2 h, rfl⟩, rfl⟩

/-! ## Overlapping calls -/

/-- Every row has its keys. -/
structure Complete (s : Store) : Prop where
  ready : ∀ (id : String) (r : DeliveryRecord), s.deliveryById[id]? = some r →
    r.leaseUntilMs = none → makeIndexKey r.dept r.notBeforeMs id ∈ s.readyByDeptDue
  leased : ∀ (id : String) (r : DeliveryRecord) (u : UInt64), s.deliveryById[id]? = some r →
    r.leaseUntilMs = some u → makeIndexKey r.dept u id ∈ s.leasedByDeptUntil
  deadDue : ∀ (id : String) (d : DeadRecord), s.deadById[id]? = some d → d.replayable = true →
    makeDeadDueIndexKey d.dept d.deadAtMs id ∈ s.deadByDeptDue
  deadTime : ∀ (id : String) (d : DeadRecord), s.deadById[id]? = some d →
    makeDeadTimeIndexKey d.deadAtMs id ∈ s.deadByTime

theorem Inv.complete (hs : s.Inv) : s.Complete := by
  refine ⟨fun id r hr hlease => ?_, fun id r u hr hlease => ?_, fun id d hd hreplay => ?_,
    fun id d hd => ?_⟩
  · have hkey : (r.dept, r.notBeforeMs) ∈ readyKeys (some r) := ⟨r, rfl, hlease, rfl⟩
    have hmem : _ ∈ dueFormat.entries s.readyByDeptDue id := (hs.liveIndexed hr).ready hkey
    exact hmem
  · have hkey : (r.dept, u) ∈ leasedKeys (some r) := ⟨r, u, rfl, hlease, rfl⟩
    have hmem : _ ∈ dueFormat.entries s.leasedByDeptUntil id := (hs.liveIndexed hr).leased ▸ hkey
    exact hmem
  · have hkey : (d.dept, d.deadAtMs) ∈ deadDueKeys (some d) :=
      ⟨d, rfl, (hs.deadOk hd).shouldIndex.trans hreplay, rfl⟩
    have hmem : _ ∈ deadDueFormat.entries s.deadByDeptDue id := (hs.deadIndexed hd).due hkey
    exact hmem
  · have hkey : d.deadAtMs ∈ deadTimeKeys (some d) := ⟨d, rfl, rfl⟩
    have hmem : _ ∈ deadTimeFormat.entries s.deadByTime id := (hs.deadIndexed hd).time ▸ hkey
    exact hmem

end Store

/-- What a transaction may grant: only rows that it finds unleased and due, or with a lease that has
run out, of the department asked for and not excluded; no delivery twice, and no more than asked
for. -/
def Entry.GrantsSafely (e : Entry) : Prop :=
  match e.txn, e.reply with
  | .lease nowMs batchLimit leaseDur dept excluded _ _, .lease leased =>
    leased.length ≤ batchLimit ∧ (leased.map DeliveryRecord.deliveryId).Nodup ∧
      ∀ r ∈ leased, ∃ row, e.before.deliveryById[r.deliveryId]? = some row ∧
        ((row.leaseUntilMs = none ∧ row.notBeforeMs ≤ nowMs) ∨
          ∃ u, row.leaseUntilMs = some u ∧ u ≤ nowMs) ∧
        (∀ wanted, dept = some wanted → row.dept = wanted) ∧ r.deliveryId ∉ excluded ∧
        r = row.leased (saturatingAdd nowMs (durationMillis leaseDur))
  | .leaseDelivery id nowMs leaseDur, .leaseDelivery record =>
    ∀ r, record = some r → ∃ row, e.before.deliveryById[id]? = some row ∧
      row.leaseUntilMs = none ∧ row.notBeforeMs ≤ nowMs ∧
      r = row.leased (saturatingAdd nowMs (durationMillis leaseDur))
  | _, _ => True

theorem Entry.Committed.grantsSafely {env : Env} {e : Entry} (h : e.Committed env) :
    e.GrantsSafely := by
  obtain ⟨before, txn, reply, after⟩ := e
  obtain ⟨hinv, hplanned, hcommit⟩ := h
  unfold Entry.GrantsSafely
  dsimp only at hinv hplanned hcommit ⊢
  split
  · rename_i nowMs batchLimit leaseDur dept excluded expired ready leased
    obtain ⟨_, ⟨⟩, hrun⟩ := Store.commit_lease hcommit
    obtain ⟨hlength, hnodup, hrows⟩ := Store.leaseMatching_spec hinv
      ⟨nowMs, batchLimit, leaseDur, dept, excluded, expired, ready⟩ (fun k hk => (hplanned.1 k hk).2)
      hplanned.2.2 hrun
    refine ⟨hlength, hnodup, fun r hr => ?_⟩
    obtain ⟨_, row, hg, hrow⟩ := hrows r hr
    exact ⟨row, hg.live, hg.leaseable, hg.dept, hg.excluded, hrow⟩
  · obtain ⟨_, ⟨⟩, hrun⟩ := Store.commit_leaseDelivery hcommit
    rintro r rfl
    exact (Store.leaseDelivery_spec hrun).2
  · trivial

/-- **Leases are safe and the indexes complete, however calls overlap.**  In every overlapping run,
every committed transaction grants safely on the tables it finds when it writes, and afterwards
every row has its keys. -/
theorem splitPhase_safe (env : Env) (acts : List Act) :
    (∀ e ∈ (World.init.run env acts).2, e.GrantsSafely) ∧
      (World.init.run env acts).1.store.Complete := by
  refine ⟨fun e he => ?_, (World.run_inv env acts).store.complete⟩
  exact (World.committed_of_mem acts he).grantsSafely

end Fkst.Delivery
