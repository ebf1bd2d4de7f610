import Fkst.Delivery.Refinement

/-!
# The operations on dead letters move deliveries

Retrying and redriving, taken apart like the other operations.
-/

set_option autoImplicit false

namespace Fkst.Delivery

open Lib

namespace Store

variable {env : Env} {s : Store} {id : String} {r : DeliveryRecord} {u : UInt64}

/-! ## Retrying -/

/-- The events of a `retry`. -/
def retryEvents (id : String) (outcome : RetryOutcome) (after : Store) : String → List Event :=
  eventsAt id
    (match outcome with
      | .scheduled => [.retried]
      | .deadPendingRedrive => [.deadLettered]
      | .permanentDead =>
        [if (after.view id).live.isNone then .terminated else .terminatedFollowedUp]
      | .stale => []
      | .missing => [])

/-- A dead letter is written over whatever dead letter the id had. -/
theorem writeDead_spec (env : Env) (hs : s.Inv) (hlive : s.deliveryById[id]? = some r)
    (hu : r.leaseUntilMs = some u) (current : DeliveryRecord) (dead : DeadRecord) :
    Touches id s ((s.removeLeased (makeIndexKey r.dept u id)).writeDead env id current dead) ∧
      ∃ D L, LiveIndexed none (s.slice id).ready L ∧
        ((s.slice id).deadDue ⊆ deadDueKeys (s.slice id).dead → D = ∅) ∧
        ((s.removeLeased (makeIndexKey r.dept u id)).writeDead env id current dead).slice id =
          { s.slice id with
            leased := L
            dead := some dead
            deadTime := {dead.deadAtMs}
            deadDue := D
            terminal := ∅ } := by
  have hσ := slice_removeLeased s id r.dept u
  have hdead := (hs.indexed id).dead
  obtain ⟨ht, D, hD, hσ'⟩ := unindexPrevious_spec env (s.removeLeased (makeIndexKey r.dept u id)) id
    (fun _ => id) (by rw [hσ]; exact hdead) (fun _ _ => rfl)
  rw [hσ] at hD hσ'
  refine ⟨?_, D, _, (hs.liveIndexed hlive).leave_leased hu, hD, ?_⟩
  · exact ((((((Touches.refl id s).removeLeased _ _).trans ht).insertDeadTime
      _).removeDeliveryLineageIndex _ _).insertDead _).insertDeadLineageIndex _ _
  · simp [writeDead, hσ']

theorem retryDead_effect (hs : s.Inv) (hlive : s.deliveryById[id]? = some r)
    (hu : r.leaseUntilMs = some u) {failure : RetryFailure} {policy : RetryPolicy} {nowMs : UInt64}
    (hused : policy.maxAttempts ≤ (r.failed failure).attempt) {s' : Store} {outcome : RetryOutcome}
    (h : (s.removeLeased (makeIndexKey r.dept u id)).retryDead env id (r.failed failure) failure
      nowMs = .ok (s', outcome)) :
    Effect env (.retry id r.leaseGeneration failure policy nowMs) (retryEvents id outcome s') True
      s s' := by
  unfold retryDead at h
  dsimp only at h
  cases hrep : failure.replayable with
  | true =>
    simp only [hrep, if_true] at h
    obtain ⟨rfl, rfl⟩ := Prod.mk.inj (Except.ok.inj h)
    set dead := (r.failed failure).exhausted true (none : Option DeliveryRecord).isSome nowMs
    obtain ⟨ht, D, L, hi, hD, hσ⟩ := writeDead_spec env hs hlive hu (r.failed failure) dead
    have hindexed : shouldIndexDeadRecord dead = true := rfl
    refine Effect.ofRow (o := some .deadLettered) hs (.ofSlice (ht.insertDeadDue _ _).removeDelivery
      (by simp [hσ]; rfl) hi (.write_replayable hindexed rfl)
      (.deadLetter failure policy nowMs hlive hu hused hrep) ?_)
    intro _ hc
    refine ⟨(ready_eq_empty hlive hu hc.ready).subset.trans (Set.empty_subset _), ?_⟩
    rw [hD hc.deadDue, insert_empty_eq, deadDueKeys_indexed hindexed]
  | false =>
    simp only [hrep, if_false, Bool.false_eq_true] at h
    have hclean : ∀ {D : Set (String × UInt64)} {dead : DeadRecord}, D = ∅ →
        D ⊆ deadDueKeys (some dead) := fun hD => hD.subset.trans (Set.empty_subset _)
    split at h
    · rename_i f hf
      obtain ⟨rfl, rfl⟩ := Prod.mk.inj (Except.ok.inj h)
      obtain ⟨ht, D, L, hi, hD, hσ⟩ := writeDead_spec env hs hlive hu (r.failed failure)
        ((r.failed failure).exhausted false true nowMs)
      have hf' : f.leaseUntilMs = none := by
        obtain ⟨_, _, rfl⟩ := prepareDirtyFollowUp_eq_some hf
        rfl
      simp only [hf, Option.isSome_some]
      refine (Effect.ofRow (o := some .terminatedFollowedUp) hs
        (.ofSlice ((ht.insertTerminal _ _).insertRow _ _) (by simp [hσ]; rfl) (hi.appear hf')
          (.write_terminal rfl rfl)
          (.terminateFollowUp failure policy nowMs hlive hu hused hrep hf) ?_)).congr fun j => ?_
      · intro _ hc
        refine ⟨?_, hclean (hD hc.deadDue)⟩
        rw [ready_eq_empty hlive hu hc.ready, insert_empty_eq, readyKeys_unleased hf']
      · simp [retryEvents, view_eq_slice]
    · rename_i hf
      simp only [hf, bind, Except.bind, pure, Except.pure, Option.isSome_none] at h
      split at h
      · cases h
      · rename_i s1 hs1
        obtain ⟨rfl, rfl⟩ := Prod.mk.inj (Except.ok.inj h)
        obtain ⟨ht, D, L, hi, hD, hσ⟩ := writeDead_spec env hs hlive hu (r.failed failure)
          ((r.failed failure).exhausted false false nowMs)
        have ht' := ht.insertTerminal (r.failed failure).dept nowMs
        obtain ⟨hts, hσs⟩ := suppressTerminalDelivery_eq_ok (ht'.wellFormed hs.wellFormed) hs1
        refine (Effect.ofRow (o := some .terminated) hs
          (.ofSlice (ht'.trans hts).removeDelivery (by simp [hσs, hσ]; rfl) hi
            (.write_terminal rfl rfl)
            (.terminate failure policy nowMs hlive hu hused hrep hf) ?_)).congr fun j => ?_
        · intro _ hc
          exact ⟨(ready_eq_empty hlive hu hc.ready).subset.trans (Set.empty_subset _),
            hclean (hD hc.deadDue)⟩
        · simp [retryEvents, view_eq_slice]

theorem retryRow_effect (hs : s.Inv) (hlive : s.deliveryById[id]? = some r)
    (hu : r.leaseUntilMs = some u) {failure : RetryFailure} {policy : RetryPolicy} {nowMs : UInt64}
    {s' : Store} {outcome : RetryOutcome}
    (h : s.retryRow env id r u failure policy nowMs = .ok (s', outcome)) :
    Effect env (.retry id r.leaseGeneration failure policy nowMs) (retryEvents id outcome s') True
      s s' := by
  unfold retryRow at h
  dsimp only at h
  split at h
  · rename_i hused
    exact retryDead_effect hs hlive hu hused h
  · rename_i hleft
    obtain ⟨rfl, rfl⟩ := Prod.mk.inj (Except.ok.inj h)
    exact Effect.ofRow hs (release_effect hs hlive hu rfl (r.failed failure)
      (.retry failure policy nowMs _ hlive hu (UInt64.not_le.1 hleft)))

theorem retry_effect (hs : s.Inv) {g : UInt64} {failure : RetryFailure} {policy : RetryPolicy}
    {nowMs : UInt64} {s' : Store} {outcome : RetryOutcome}
    (h : s.retry env id g failure policy nowMs = .ok (s', outcome)) :
    Effect env (.retry id g failure policy nowMs) (retryEvents id outcome s') True s s' := by
  have hcompacted : ∀ {s1 s2 : Store} {o o' : RetryOutcome},
      Effect env (.retry id g failure policy nowMs) (retryEvents id o s1) True s s1 →
      (do
        let p ← s1.compactTerminalDeadRecords env nowMs
        return (p.1, o) : Except StoreError (Store × RetryOutcome)) = .ok (s2, o') →
      Effect env (.retry id g failure policy nowMs) (retryEvents id o' s2) True s s2 := by
    intro s1 s2 o o' heff hrun
    obtain ⟨s3, m, hcompact, heff', hdel⟩ := compactTerminalDeadRecords_effect env
      (.retry id g failure policy nowMs) heff.inv rfl
    rw [hcompact] at hrun
    obtain ⟨rfl, rfl⟩ := Prod.mk.inj (Except.ok.inj hrun)
    refine ((heff.trans heff').mono (by simp)).congr fun j => ?_
    simp [retryEvents, view, hdel]
  unfold retry at h
  dsimp only at h
  split at h
  · exact hcompacted ((Effect.refl hs).congr fun j => by simp [retryEvents, eventsAt]) h
  · rename_i r hlive
    split at h
    · obtain ⟨rfl, rfl⟩ := Prod.mk.inj (Except.ok.inj h)
      exact (Effect.refl hs).congr fun j => by simp [retryEvents, eventsAt]
    · rename_i u hu
      split at h
      · exact hcompacted ((Effect.refl hs).congr fun j => by simp [retryEvents, eventsAt]) h
      · rename_i hg
        obtain rfl := Decidable.not_not.1 hg
        cases hrow : s.retryRow env id r u failure policy nowMs with
        | error e => rw [hrow] at h; cases h
        | ok p =>
          rw [hrow] at h
          exact hcompacted (retryRow_effect hs hlive hu hrow) h

/-! ## Redriving -/

/-- A redrive transaction. -/
structure RedriveTxn where
  policy : RedrivePolicy
  currentDeptByQueue : Option (Table String String)
  nowMs : UInt64
  dueKeys : List DueIndexKey

def RedriveTxn.txn (x : RedriveTxn) : Txn :=
  .redrive x.policy x.currentDeptByQueue x.nowMs x.dueKeys

/-- What the result of a redrive says about a key. -/
def Reports (result result' : RedriveResult) (id : String) : Option Event → Prop
  | none => result' = result
  | some .redriven => ∃ r : DeliveryRecord, r.deliveryId = id ∧
    result' = { result with redriven := result.redriven ++ [r] }
  | some .killed => ∃ d : DeadRecord, d.deliveryId = id ∧
    result' = { result with permanent := result.permanent ++ [d] }
  | some .killedFollowedUp => ∃ d : DeadRecord, d.deliveryId = id ∧
    result' = { result with permanent := result.permanent ++ [d] }
  | some _ => False

/-- The keys of the dead index change and the row does not. -/
theorem deadKeys_effect {t : Txn} {s' : Store} {T : Set UInt64} {D : Set (String × UInt64)}
    {f : Prop} (hs : s.Inv) (ht : Touches id s s')
    (hσ : s'.slice id = { s.slice id with deadTime := T, deadDue := D })
    (hi : DeadIndexed (s.slice id).dead T D (s.slice id).terminal)
    (hc : (s.slice id).deadDue ⊆ deadDueKeys (s.slice id).dead →
      D ⊆ deadDueKeys (s.slice id).dead) :
    Effect env t (fun _ => []) f s s' := by
  refine .ofKeys hs ht (by rw [hσ]) ?_ ?_
  · rw [hσ]
    exact ⟨(hs.indexed id).live, hi⟩
  · rw [hσ]
    exact fun _ h => ⟨h.ready, hc h.deadDue⟩

theorem slice_dead {o : Option DeadRecord} (h : s.deadById[id]? = o) : (s.slice id).dead = o := h

/-- A key whose dead letter is gone. -/
theorem redriveStaleKey_none_effect {t : Txn} {f : Prop} {key : DueIndexKey} (hs : s.Inv)
    (hwf : key.DeadWellFormed) (hdead : s.deadById[key.deliveryId]? = none) :
    Effect env t (fun _ => []) f s (s.redriveStaleKey key none) := by
  obtain ⟨kdept, hkey⟩ := hwf
  unfold redriveStaleKey
  rw [hkey]
  have hi := (hs.indexed key.deliveryId).dead
  refine deadKeys_effect hs (((Touches.refl _ s).removeDeadDue _ _).removeDeadTime _)
    (by simp; exact ⟨rfl, rfl⟩) ?_ (fun hc => Set.sdiff_subset.trans hc)
  rw [slice_dead hdead] at hi ⊢
  have htime : (s.slice key.deliveryId).deadTime = ∅ := by simpa using hi.time
  exact ⟨by simp [htime], by simp, hi.terminal⟩

/-- A key whose dead letter has another time. -/
theorem redriveStaleKey_some_effect {t : Txn} {f : Prop} {key : DueIndexKey} {d : DeadRecord}
    (hs : s.Inv) (hwf : key.DeadWellFormed) (hdead : s.deadById[key.deliveryId]? = some d)
    (hdue : d.deadAtMs ≠ key.dueMs) :
    Effect env t (fun _ => []) f s (s.redriveStaleKey key (some d)) := by
  obtain ⟨kdept, hkey⟩ := hwf
  have hi := hs.deadIndexed hdead
  have htime : insert d.deadAtMs ((s.slice key.deliveryId).deadTime \ {key.dueMs}) =
      deadTimeKeys (some d) := by
    rw [hi.time, deadTimeKeys_some, Set.sdiff_singleton_eq_self (by simpa using hdue.symm)]
    simp
  have ht := (((Touches.refl key.deliveryId s).removeDeadDue kdept key.dueMs).removeDeadTime
    key.dueMs).insertDeadTime d.deadAtMs
  unfold redriveStaleKey
  rw [hkey]
  dsimp only
  split
  · rename_i hindex
    refine deadKeys_effect hs (ht.insertDeadDue _ _) (by simp; exact ⟨rfl, rfl⟩) ?_ ?_
    · rw [slice_dead hdead]
      exact ⟨htime, by simp [deadDueKeys_indexed hindex], hi.terminal⟩
    · rw [slice_dead hdead, deadDueKeys_indexed hindex]
      exact fun hc => Set.insert_subset rfl (Set.sdiff_subset.trans hc)
  · rename_i hindex
    have hindex := Bool.eq_false_iff.2 hindex
    refine deadKeys_effect hs ht (by simp; exact ⟨rfl, rfl⟩) ?_ (fun hc => Set.sdiff_subset.trans hc)
    rw [slice_dead hdead]
    exact ⟨htime, by simp [deadDueKeys_not_indexed hindex], hi.terminal⟩

theorem Touches.writePermanent (env : Env) {s' : Store} {key : DueIndexKey} {kdept : String}
    (hkey : key.key = makeDeadDueIndexKey kdept key.dueMs key.deliveryId)
    (h : Touches key.deliveryId s s') (d : DeadRecord) :
    Touches key.deliveryId s (s'.writePermanent env key d) := by
  unfold Store.writePermanent
  rw [hkey]
  exact (((h.removeDeadDue _ _).insertDead _).insertDeadLineageIndex _ _).insertTerminal _ _

theorem slice_writePermanent {key : DueIndexKey} {kdept : String}
    (hkey : key.key = makeDeadDueIndexKey kdept key.dueMs key.deliveryId) (d : DeadRecord) :
    (s.writePermanent env key d).slice key.deliveryId =
      { s.slice key.deliveryId with
        dead := some d
        deadDue := (s.slice key.deliveryId).deadDue \ {(kdept, key.dueMs)}
        terminal := insert (d.dept, d.deadAtMs) (s.slice key.deliveryId).terminal } := by
  simp [writePermanent, hkey]

/-- Removing the key a fresh candidate came with leaves no key. -/
theorem deadDue_diff_fresh {key : DueIndexKey} {kdept : String}
    (hkey : key.key = makeDeadDueIndexKey kdept key.dueMs key.deliveryId)
    (hfresh : key.key ∈ s.deadByDeptDue)
    (hc : (s.slice key.deliveryId).deadDue ⊆ deadDueKeys (s.slice key.deliveryId).dead) :
    (s.slice key.deliveryId).deadDue \ {(kdept, key.dueMs)} = ∅ := by
  rw [hkey] at hfresh
  have hmem : (kdept, key.dueMs) ∈ (s.slice key.deliveryId).deadDue := hfresh
  obtain ⟨d', hd', _, hp⟩ := hc hmem
  refine Set.sdiff_eq_empty.2 fun p hp' => ?_
  obtain ⟨d'', hd'', _, rfl⟩ := hc hp'
  obtain rfl := Option.some.inj (hd'.symm.trans hd'')
  exact hp.symm

/-- A dead letter that waits for its redrive, and the key under which it was collected. -/
structure Waiting (s : Store) (x : RedriveTxn) (key : DueIndexKey) (kdept : String) (d : DeadRecord)
    (r : DeliveryRecord) : Prop where
  hkey : key.key = makeDeadDueIndexKey kdept key.dueMs key.deliveryId
  dead : s.deadById[key.deliveryId]? = some d
  replayable : d.replayable = true
  record : d.record = some r
  cool : deadRedriveCooldownElapsed d.deadAtMs (durationMillis x.policy.cooldown) x.nowMs = true

section Waiting

variable {x : RedriveTxn} {key : DueIndexKey} {kdept : String} {d : DeadRecord}

theorem Waiting.notTerminal (hw : Waiting s x key kdept d r) (hs : s.Inv) :
    isTerminalDeadRecord d = false := by
  rw [(hs.deadOk hw.dead).isTerminal, hw.replayable]
  rfl

/-- The dead letter is given up; its id is suppressed unless a keyed delivery lives on. -/
theorem kill_effect (hs : s.Inv) (hw : Waiting s x key kdept d r)
    (hwhy : x.policy.maxRedrives ≤ d.redriveCount ∨ s.deliveryById[key.deliveryId]? ≠ none)
    (hclean : s.deliveryById[key.deliveryId]? = none → prepareDirtyFollowUp r x.nowMs = none)
    (excerpt : Option String) {keyed : Bool}
    (hkeyed : keyed = livePreservesKeyedDelivery (s.slice key.deliveryId).live r) {s' : Store}
    (h : (if keyed then .ok (s.writePermanent env key (d.givenUp keyed excerpt))
      else (s.writePermanent env key (d.givenUp keyed excerpt)).suppressTerminalDelivery
        key.deliveryId : Except StoreError Store) = .ok s') :
    RowEffect env x.txn key.deliveryId (some .killed) (key.key ∈ s.deadByDeptDue) s s' := by
  have ht := (Touches.refl key.deliveryId s).writePermanent env hw.hkey (d.givenUp keyed excerpt)
  have hi := (hs.deadIndexed hw.dead).give_up (hw.notTerminal hs) (d.givenUp keyed excerpt) rfl rfl
    rfl ((s.slice key.deliveryId).deadDue \ {(kdept, key.dueMs)})
  have hm : Move env key.deliveryId x.txn (some .killed) (s.slice key.deliveryId).toView _ :=
    .kill x.policy x.currentDeptByQueue x.nowMs x.dueKeys excerpt hw.dead hw.replayable hw.record
      hw.cool hwhy hclean
  rw [← hkeyed] at hm
  have hc : key.key ∈ s.deadByDeptDue → (s.slice key.deliveryId).deadDue ⊆
      deadDueKeys (s.slice key.deliveryId).dead →
      (s.slice key.deliveryId).deadDue \ {(kdept, key.dueMs)} ⊆
        deadDueKeys (some (d.givenUp keyed excerpt)) := fun hf hc =>
    (deadDue_diff_fresh hw.hkey hf hc).subset.trans (Set.empty_subset _)
  cases keyed with
  | true =>
    obtain rfl := Except.ok.inj h
    refine .ofDead hs ht (slice_writePermanent hw.hkey _) hi ?_ hc
    simpa using hm
  | false =>
    obtain ⟨hts, hσs⟩ := suppressTerminalDelivery_eq_ok (ht.wellFormed hs.wellFormed) h
    refine .ofDead hs (ht.trans hts) (hσs.trans (by rw [slice_writePermanent hw.hkey])) hi ?_ hc
    simpa using hm

/-- The dead letter is given up, and its follow-up becomes live. -/
theorem killFollowUp_effect (hs : s.Inv) (hw : Waiting s x key kdept d r) {r' f : DeliveryRecord}
    (hlive : s.deliveryById[key.deliveryId]? = none)
    (hdept : redriveRecord x.currentDeptByQueue d r = some r')
    (hused : x.policy.maxRedrives ≤ d.redriveCount)
    (hf : prepareDirtyFollowUp r' x.nowMs = some f) :
    RowEffect env x.txn key.deliveryId (some .killedFollowedUp) (key.key ∈ s.deadByDeptDue) s
      ((s.writePermanent env key (d.permanently true)).insertRow env key.deliveryId f) := by
  have hf' : f.leaseUntilMs = none := by
    obtain ⟨_, _, rfl⟩ := prepareDirtyFollowUp_eq_some hf
    rfl
  refine .ofSlice (((Touches.refl _ s).writePermanent env hw.hkey _).insertRow env f)
    (by rw [slice_insertRow, slice_writePermanent hw.hkey])
    ((hs.liveIndexed_none hlive).appear hf')
    ((hs.deadIndexed hw.dead).give_up (hw.notTerminal hs) (d.permanently true) rfl rfl rfl _)
    (.killFollowUp x.policy x.currentDeptByQueue x.nowMs x.dueKeys hlive hw.dead hw.replayable
      hw.record hdept hw.cool hused hf) ?_
  intro hfresh hc
  refine ⟨?_, (deadDue_diff_fresh hw.hkey hfresh hc.deadDue).subset.trans (Set.empty_subset _)⟩
  have hready := hc.ready
  rw [slice_live hlive, readyKeys_none, Set.subset_empty_iff] at hready
  rw [hready, readyKeys_unleased hf', insert_empty_eq]

/-- The dead letter is brought back. -/
theorem redriveRow_effect (hs : s.Inv) (hw : Waiting s x key kdept d r) {r' : DeliveryRecord}
    (hlive : s.deliveryById[key.deliveryId]? = none)
    (hdept : redriveRecord x.currentDeptByQueue d r = some r')
    (hleft : d.redriveCount < x.policy.maxRedrives) :
    RowEffect env x.txn key.deliveryId (some .redriven) (key.key ∈ s.deadByDeptDue) s
      (s.redriveRow env key d (r'.redriven d x.nowMs)) := by
  unfold redriveRow
  rw [hw.hkey]
  refine .ofSlice ?_ (by simp; rfl) ((hs.liveIndexed_none hlive).appear rfl)
    ((hs.deadIndexed hw.dead).leave_replayable (hw.notTerminal hs) _)
    (.redrive x.policy x.currentDeptByQueue x.nowMs x.dueKeys hlive hw.dead hw.replayable
      hw.record hdept hw.cool hleft) ?_
  · exact (((((((Touches.refl _ s).removeDeadDue _ _).insertDelivery _).removeDeadLineageIndex _
      _).insertDeliveryLineageIndex _ _).insertReady _ _).removeDead).removeDeadTime _
  · intro hfresh hc
    rw [← hw.hkey] at hfresh
    refine ⟨?_, (deadDue_diff_fresh hw.hkey hfresh hc.deadDue).subset.trans (Set.empty_subset _)⟩
    have hready := hc.ready
    rw [slice_live hlive, readyKeys_none, Set.subset_empty_iff] at hready
    rw [hready, readyKeys_unleased rfl, insert_empty_eq]

/-- A department more or less does not decide whether there is a follow-up. -/
theorem prepareDirtyFollowUp_redriveRecord {m : Option (Table String String)} {r' : DeliveryRecord}
    {due : UInt64} (hdept : redriveRecord m d r = some r')
    (h : prepareDirtyFollowUp r' due = none) : prepareDirtyFollowUp r due = none := by
  obtain ⟨dept, rfl⟩ := redriveRecord_eq_some hdept
  unfold prepareDirtyFollowUp at h ⊢
  split at h
  · rename_i hd
    rw [if_pos hd]
  · cases h

/-- The two branches that give a dead letter up end alike. -/
theorem of_writePermanent {keyed : Bool} {d' d'' : DeadRecord} {s' : Store}
    (h : (if !keyed then do
        let s ← (s.writePermanent env key d').suppressTerminalDelivery key.deliveryId
        return (s, d')
      else .ok (s.writePermanent env key d', d') : Except StoreError (Store × DeadRecord)) =
      .ok (s', d'')) :
    d'' = d' ∧ (if keyed then .ok (s.writePermanent env key d')
      else (s.writePermanent env key d').suppressTerminalDelivery key.deliveryId) = .ok s' := by
  cases keyed with
  | true =>
    obtain ⟨rfl, rfl⟩ := Prod.mk.inj (Except.ok.inj h)
    exact ⟨rfl, rfl⟩
  | false =>
    simp only [Bool.not_false, if_true, bind, Except.bind, pure, Except.pure] at h
    split at h
    · cases h
    · rename_i s1 hs1
      obtain ⟨rfl, rfl⟩ := Prod.mk.inj (Except.ok.inj h)
      exact ⟨rfl, hs1⟩

theorem redriveExhausted_effect (hs : s.Inv) (hw : Waiting s x key kdept d r) {r' : DeliveryRecord}
    (hdept : redriveRecord x.currentDeptByQueue d r = some r')
    (hused : x.policy.maxRedrives ≤ d.redriveCount) {s' : Store} {d' : DeadRecord}
    (h : s.redriveExhausted env key d r' x.nowMs = .ok (s', d')) :
    d'.deliveryId = d.deliveryId ∧ ∃ e, (e = .killed ∨ e = .killedFollowedUp) ∧
      RowEffect env x.txn key.deliveryId (some e) (key.key ∈ s.deadByDeptDue) s s' := by
  have hcollapse : r'.collapseByDedupId = r.collapseByDedupId := by
    obtain ⟨dept, rfl⟩ := redriveRecord_eq_some hdept
    rfl
  unfold redriveExhausted at h
  dsimp only at h
  split at h
  · rename_i f hf
    have hlive : s.deliveryById[key.deliveryId]? = none := by
      split at hf
      · rename_i hnone
        simpa using hnone
      · cases hf
    simp only [hlive, Option.isNone_none, if_true] at hf h
    simp only [hf, Option.isSome_some, Bool.true_or] at h
    obtain ⟨rfl, rfl⟩ := Prod.mk.inj (Except.ok.inj h)
    exact ⟨rfl, _, Or.inr rfl, killFollowUp_effect hs hw hlive hdept hused hf⟩
  · rename_i hf
    have hclean : s.deliveryById[key.deliveryId]? = none →
        prepareDirtyFollowUp r x.nowMs = none := by
      intro hlive
      simp only [hlive, Option.isNone_none, if_true] at hf
      exact prepareDirtyFollowUp_redriveRecord hdept hf
    simp only [hf, Option.isSome_none, Bool.false_or, hcollapse] at h
    generalize hk : (r.collapseByDedupId &&
      (s.deliveryById[key.deliveryId]?).any (·.collapseByDedupId)) = keyed at h
    obtain ⟨hid, hrun⟩ := of_writePermanent h
    exact ⟨hid ▸ rfl, _, Or.inl rfl,
      kill_effect hs hw (Or.inl hused) hclean d.errorExcerpt hk.symm hrun⟩

theorem redriveCollision_effect (hs : s.Inv) (hw : Waiting s x key kdept d r)
    {r' live : DeliveryRecord} (hdept : redriveRecord x.currentDeptByQueue d r = some r')
    (hlive : s.deliveryById[key.deliveryId]? = some live) {s' : Store} {d' : DeadRecord}
    (h : s.redriveCollision env key d r' live = .ok (s', d')) :
    d'.deliveryId = d.deliveryId ∧
      RowEffect env x.txn key.deliveryId (some .killed) (key.key ∈ s.deadByDeptDue) s s' := by
  have hcollapse : r'.collapseByDedupId = r.collapseByDedupId := by
    obtain ⟨dept, rfl⟩ := redriveRecord_eq_some hdept
    rfl
  unfold redriveCollision at h
  dsimp only at h
  rw [hcollapse] at h
  generalize hk : (r.collapseByDedupId && live.collapseByDedupId) = keyed at h
  obtain ⟨hid, hrun⟩ := of_writePermanent h
  refine ⟨hid ▸ rfl, kill_effect hs hw (Or.inr (by simp [hlive])) (fun hn => ?_) _ ?_ hrun⟩
  · rw [hlive] at hn
    cases hn
  · rw [← hk, slice_live hlive]
    rfl

end Waiting

theorem redriveStaleKey_touches {key : DueIndexKey} (hwf : key.DeadWellFormed) (s : Store)
    (o : Option DeadRecord) : Touches key.deliveryId s (s.redriveStaleKey key o) := by
  obtain ⟨kdept, hkey⟩ := hwf
  have ht := ((Touches.refl key.deliveryId s).removeDeadDue kdept key.dueMs).removeDeadTime
    key.dueMs
  unfold redriveStaleKey
  rw [hkey]
  split
  · exact ht
  · dsimp only
    split
    · exact (ht.insertDeadTime _).insertDeadDue _ _
    · exact ht.insertDeadTime _

/-- What dealing with one key amounts to. -/
structure KeyEffect (env : Env) (x : RedriveTxn) (id : String) (o : Option Event) (fresh : Prop)
    (loop loop' : RedriveLoop) : Prop where
  touches : Touches id loop.store loop'.store
  effect : Effect env x.txn (eventsAt id o.toList) fresh loop.store loop'.store
  reports : Reports loop.result loop'.result id o
  mutated : loop'.mutated = false → loop' = loop

theorem KeyEffect.stay {x : RedriveTxn} {f : Prop} {loop : RedriveLoop} (hs : loop.store.Inv) :
    KeyEffect env x id none f loop loop :=
  ⟨.refl _ _, (Effect.refl hs).congr fun j => by simp [eventsAt], rfl, fun _ => rfl⟩

theorem KeyEffect.change {x : RedriveTxn} {f : Prop} {loop : RedriveLoop} {s' : Store}
    (ht : Touches id loop.store s') (he : Effect env x.txn (fun _ => []) f loop.store s') :
    KeyEffect env x id none f loop (loop.changed s') :=
  ⟨ht, he.congr fun j => by simp [eventsAt], rfl, fun h => by cases h⟩

theorem redriveDue_effect {x : RedriveTxn} {loop loop' : RedriveLoop} {key : DueIndexKey}
    {kdept : String} {d : DeadRecord} {r' : DeliveryRecord} (hs : loop.store.Inv)
    (hw : Waiting loop.store x key kdept d r)
    (hdept : redriveRecord x.currentDeptByQueue d r = some r')
    (h : redriveDue env x.policy x.nowMs loop key d r' = .ok loop') :
    ∃ o, KeyEffect env x key.deliveryId o (key.key ∈ loop.store.deadByDeptDue) loop loop' := by
  have hid := (hs.deadOk hw.dead).deliveryId
  unfold redriveDue at h
  dsimp only at h
  split at h
  · rename_i hused
    cases hrun : loop.store.redriveExhausted env key d r' x.nowMs with
    | error e => rw [hrun] at h; cases h
    | ok p =>
      rw [hrun] at h
      obtain rfl := Except.ok.inj h
      obtain ⟨hd', e, he, hrow⟩ := redriveExhausted_effect hs hw hdept hused hrun
      refine ⟨some e, hrow.touches, Effect.ofRow hs hrow, ?_, fun hm => by cases hm⟩
      rcases he with rfl | rfl <;> exact ⟨_, hd'.trans hid, rfl⟩
  · rename_i hleft
    split at h
    · rename_i live hlive
      cases hrun : loop.store.redriveCollision env key d r' live with
      | error e => rw [hrun] at h; cases h
      | ok p =>
        rw [hrun] at h
        obtain rfl := Except.ok.inj h
        obtain ⟨hd', hrow⟩ := redriveCollision_effect hs hw hdept hlive hrun
        exact ⟨_, hrow.touches, Effect.ofRow hs hrow, ⟨_, hd'.trans hid, rfl⟩,
          fun hm => by cases hm⟩
    · rename_i hlive
      obtain rfl := Except.ok.inj h
      have hrow : RowEffect env x.txn key.deliveryId (some .redriven) _ loop.store _ :=
        redriveRow_effect hs hw hlive hdept (UInt64.not_le.1 hleft)
      refine ⟨_, hrow.touches, Effect.ofRow hs hrow, ⟨_, ?_, rfl⟩, fun hm => by cases hm⟩
      obtain ⟨r1, hr1, hok, _⟩ := (hs.deadOk hw.dead).record hw.replayable
      obtain rfl := Option.some.inj (hw.record.symm.trans hr1)
      exact (hok.redriveRecord hdept).deliveryId

theorem redriveKey_effect {x : RedriveTxn} {loop loop' : RedriveLoop} {key : DueIndexKey}
    (hs : loop.store.Inv) (hwf : key.DeadWellFormed)
    (h : redriveKey env x.policy x.currentDeptByQueue x.nowMs loop key = .ok loop') :
    ∃ o, KeyEffect env x key.deliveryId o (key.key ∈ loop.store.deadByDeptDue) loop loop' := by
  unfold redriveKey at h
  dsimp only at h
  split at h
  · rename_i hdead
    obtain rfl := Except.ok.inj h
    exact ⟨none, .change (redriveStaleKey_touches hwf _ _)
      (redriveStaleKey_none_effect hs hwf hdead)⟩
  · rename_i d hdead
    have hok := hs.deadOk hdead
    split at h
    · rename_i hdue
      obtain rfl := Except.ok.inj h
      exact ⟨none, .change (redriveStaleKey_touches hwf _ _)
        (redriveStaleKey_some_effect hs hwf hdead hdue)⟩
    · split at h
      · obtain rfl := Except.ok.inj h
        exact ⟨none, .stay hs⟩
      · rename_i hcool
        obtain ⟨kdept, hkey⟩ := hwf
        split at h
        · rename_i hterm
          obtain rfl := Except.ok.inj h
          have hindex : shouldIndexDeadRecord d = false := by
            rw [hok.shouldIndex]
            rw [hok.permanent] at hterm
            simpa using hterm
          have ht := (Touches.refl key.deliveryId loop.store).removeDeadDue kdept key.dueMs
          rw [hkey]
          refine ⟨none, .change ht (deadKeys_effect hs ht (by simp; exact ⟨rfl, rfl⟩) ?_
            fun hc => Set.sdiff_subset.trans hc)⟩
          rw [slice_dead hdead]
          exact (hs.deadIndexed hdead).drop_due hindex _
        · rename_i hterm
          have hrep : d.replayable = true := by
            rw [hok.permanent] at hterm
            simpa using hterm
          obtain ⟨r, hr, _⟩ := hok.record hrep
          rw [hr] at h
          dsimp only at h
          split at h
          · obtain rfl := Except.ok.inj h
            exact ⟨none, .stay hs⟩
          · rename_i r' hdept
            exact redriveDue_effect hs ⟨hkey, hdead, hrep, hr, by simpa using hcool⟩ hdept h

/-- The result of a redrive names the ids that had an event. -/
def Reported (result result' : RedriveResult) (evs : String → List Event) : Prop :=
  ∃ rs ds, result' = ⟨result.redriven ++ rs, result.permanent ++ ds⟩ ∧
    ∀ id, (.redriven ∈ evs id ↔ ∃ r ∈ rs, r.deliveryId = id) ∧
      ((.killed ∈ evs id ∨ .killedFollowedUp ∈ evs id) ↔ ∃ d ∈ ds, d.deliveryId = id)

theorem Reported.refl (result : RedriveResult) : Reported result result fun _ => [] :=
  ⟨[], [], by simp, by simp⟩

theorem Reported.trans {result result' result'' : RedriveResult} {evs evs' : String → List Event}
    (h : Reported result result' evs) (h' : Reported result' result'' evs') :
    Reported result result'' fun id => evs id ++ evs' id := by
  obtain ⟨rs, ds, rfl, h⟩ := h
  obtain ⟨rs', ds', rfl, h'⟩ := h'
  refine ⟨rs ++ rs', ds ++ ds', by simp, fun id => ?_⟩
  obtain ⟨h1, h2⟩ := h id
  obtain ⟨h3, h4⟩ := h' id
  constructor
  · rw [List.mem_append, h1, h3]
    simp only [List.mem_append, or_and_right, exists_or]
  · rw [List.mem_append, List.mem_append, or_or_or_comm, h2, h4]
    simp only [List.mem_append, or_and_right, exists_or]

theorem Reports.reported {result result' : RedriveResult} {o : Option Event}
    (h : Reports result result' id o) : Reported result result' (eventsAt id o.toList) := by
  have hat : ∀ j e e', e ∈ eventsAt id [e'] j ↔ id = j ∧ e = e' := by
    intro j e e'
    by_cases hj : j = id
    · subst hj
      simp
    · simp [eventsAt_of_ne hj, Ne.symm hj]
  unfold Reports at h
  split at h
  · subst h
    exact ⟨[], [], by simp, by simp [eventsAt]⟩
  · obtain ⟨r, rfl, rfl⟩ := h
    exact ⟨[r], [], by simp, by simp [hat]⟩
  · obtain ⟨d, rfl, rfl⟩ := h
    exact ⟨[], [d], by simp, by simp [hat]⟩
  · obtain ⟨d, rfl, rfl⟩ := h
    exact ⟨[], [d], by simp, by simp [hat]⟩
  · cases h

/-- The loop of a redrive. -/
theorem redriveKeys_effect (x : RedriveTxn) :
    ∀ {keys : List DueIndexKey} {loop loop' : RedriveLoop}, loop.store.Inv →
      (∀ k ∈ keys, k.DeadWellFormed) →
      redriveKeys env x.policy x.currentDeptByQueue x.nowMs keys loop = .ok loop' →
      ∃ evs, Effect env x.txn evs ((∀ k ∈ keys, k.key ∈ loop.store.deadByDeptDue) ∧
            keys.Pairwise (fun k k' => k.deliveryId ≠ k'.deliveryId)) loop.store loop'.store ∧
        Reported loop.result loop'.result evs ∧ (loop'.mutated = false → loop' = loop)
  | [], loop, loop', hs, _, h => by
    obtain rfl := Except.ok.inj h
    exact ⟨fun _ => [], .refl hs, .refl _, fun _ => rfl⟩
  | key :: keys, loop, loop', hs, hkeys, h => by
    rw [redriveKeys] at h
    cases hrun : redriveKey env x.policy x.currentDeptByQueue x.nowMs loop key with
    | error e => rw [hrun] at h; cases h
    | ok loop1 =>
      rw [hrun] at h
      obtain ⟨o, hkey⟩ := redriveKey_effect hs (hkeys key (by simp)) hrun
      obtain ⟨evs, heff, hrep, hmut⟩ := redriveKeys_effect x hkey.effect.inv
        (fun k hk => hkeys k (by simp [hk])) h
      refine ⟨_, (hkey.effect.trans heff).mono ?_, hkey.reports.reported.trans hrep, fun hm => ?_⟩
      · rintro ⟨hmem, hne⟩
        rw [List.pairwise_cons] at hne
        refine ⟨hmem key (by simp), fun k hk => ?_, hne.2⟩
        -- the next keys are of other deliveries, whose slices are as they were
        obtain ⟨kdept, hk'⟩ := hkeys k (by simp [hk])
        have hin := hmem k (by simp [hk])
        have hframe := hkey.touches.frame hs.wellFormed k.deliveryId (hne.1 k hk).symm
        rw [hk'] at hin ⊢
        have hin : (kdept, k.dueMs) ∈ (loop.store.slice k.deliveryId).deadDue := hin
        rw [← hframe] at hin
        exact hin
      · obtain rfl := hmut hm
        exact hkey.mutated hm

/-- What a redrive does to a delivery: nothing, or one thing to the dead letter it finds.  What it
leaves terminal it may compact at once. -/
inductive Redriven (policy : RedrivePolicy) (nowMs : UInt64) (v : View) :
    List Event → View → Prop where
  | quiet {v' : View} (live : v'.live = v.live) (suppressed : v'.suppressed = v.suppressed)
    (dead : v'.dead = v.dead ∨ v'.dead = none ∧ ∃ d, v.dead = some d ∧
      isTerminalDeadRecord d = true ∧ d.Old nowMs) : Redriven policy nowMs v [] v'
  | redriven {v' : View} {d : DeadRecord} {r r' : DeliveryRecord} (dead : v.dead = some d)
    (replayable : d.replayable = true) (record : d.record = some r) (nolive : v.live = none)
    (live : v'.live = some r') (lease : r'.leaseUntilMs = none)
    (generation : r'.leaseGeneration = saturatingAdd r.leaseGeneration 1)
    (suppressed : v'.suppressed = v.suppressed) (gone : v'.dead = none)
    (cool : deadRedriveCooldownElapsed d.deadAtMs (durationMillis policy.cooldown) nowMs = true) :
    Redriven policy nowMs v [.redriven] v'
  | killed {v' : View} {d : DeadRecord} {r : DeliveryRecord} (dead : v.dead = some d)
    (replayable : d.replayable = true) (record : d.record = some r)
    (why : policy.maxRedrives ≤ d.redriveCount ∨ v.live ≠ none) (live : v'.live = v.live)
    (suppressed : v'.suppressed = (v.suppressed || !livePreservesKeyedDelivery v.live r))
    (after : (∃ keyed excerpt, v'.dead = some (d.givenUp keyed excerpt)) ∨
      v'.dead = none ∧ d.Old nowMs) : Redriven policy nowMs v [.killed] v'
  | killedFollowedUp {v' : View} {d : DeadRecord} {r f : DeliveryRecord} (dead : v.dead = some d)
    (replayable : d.replayable = true) (record : d.record = some r) (nolive : v.live = none)
    (live : v'.live = some f) (lease : f.leaseUntilMs = none)
    (generation : f.leaseGeneration = r.leaseGeneration)
    (keyed : livePreservesKeyedDelivery (some f) r = true)
    (suppressed : v'.suppressed = v.suppressed)
    (after : (∃ keyed excerpt, v'.dead = some (d.givenUp keyed excerpt)) ∨
      v'.dead = none ∧ d.Old nowMs) : Redriven policy nowMs v [.killedFollowedUp] v'

/-- What a redrive has dealt with is not replayable any more. -/
theorem Redriven.not_replayable {policy : RedrivePolicy} {nowMs : UInt64} {v v' : View}
    {l : List Event} (h : Redriven policy nowMs v l v') (hl : l ≠ []) (d : DeadRecord)
    (hd : v'.dead = some d) : d.replayable = false := by
  have hafter : ∀ {d0 : DeadRecord}, (∃ keyed excerpt, v'.dead = some (d0.givenUp keyed excerpt)) ∨
      v'.dead = none ∧ d0.Old nowMs → d.replayable = false := by
    rintro d0 (⟨keyed, excerpt, hd'⟩ | ⟨hd', _⟩)
    · obtain rfl := Option.some.inj (hd.symm.trans hd')
      rfl
    · rw [hd] at hd'
      cases hd'
  cases h with
  | quiet => exact absurd rfl hl
  | redriven _ _ _ _ _ _ _ _ gone =>
    rw [hd] at gone
    cases gone
  | killed _ _ _ _ _ _ after => exact hafter after
  | killedFollowedUp _ _ _ _ _ _ _ _ _ after => exact hafter after

/-- Before it has done anything, a redrive finds the dead letter as it was. -/
theorem Redriven.before {policy : RedrivePolicy} {nowMs : UInt64} {v v' : View} {l : List Event}
    (h : Redriven policy nowMs v l v') {d : DeadRecord} (hd : v'.dead = some d)
    (hr : d.replayable = true) :
    l = [] ∧ v.dead = some d ∧ v'.live = v.live ∧ v'.suppressed = v.suppressed := by
  by_cases hl : l = []
  · subst hl
    cases h with
    | quiet live suppressed dead =>
      rcases dead with dead | ⟨dead, _⟩
      · exact ⟨rfl, dead ▸ hd, live, suppressed⟩
      · rw [hd] at dead
        cases dead
  · rw [h.not_replayable hl d hd] at hr
    cases hr

/-- Compaction after a redrive. -/
theorem Redriven.compact {policy : RedrivePolicy} {nowMs : UInt64} {v v' : View} {l : List Event}
    (h : Redriven policy nowMs v l v') {d : DeadRecord} (hd : v'.dead = some d)
    (hterminal : isTerminalDeadRecord d = true) (hold : d.Old nowMs) :
    Redriven policy nowMs v l { v' with dead := none } := by
  have hafter : ∀ {d0 : DeadRecord}, (∃ keyed excerpt, v'.dead = some (d0.givenUp keyed excerpt)) ∨
      v'.dead = none ∧ d0.Old nowMs → d0.Old nowMs := by
    rintro d0 (⟨keyed, excerpt, hd'⟩ | ⟨hd', _⟩)
    · obtain rfl := Option.some.inj (hd.symm.trans hd')
      exact hold
    · rw [hd] at hd'
      cases hd'
  cases h with
  | quiet live suppressed dead =>
    refine .quiet live suppressed (Or.inr ⟨rfl, ?_⟩)
    rcases dead with dead | ⟨dead, _⟩
    · exact ⟨d, dead ▸ hd, hterminal, hold⟩
    · rw [hd] at dead
      cases dead
  | redriven dead replayable record nolive live lease generation suppressed gone cool =>
    exact .redriven dead replayable record nolive live lease generation suppressed rfl cool
  | killed dead replayable record why live suppressed after =>
    exact .killed dead replayable record why live suppressed (Or.inr ⟨rfl, hafter after⟩)
  | killedFollowedUp dead replayable record nolive live lease generation keyed suppressed after =>
    exact .killedFollowedUp dead replayable record nolive live lease generation keyed suppressed
      (Or.inr ⟨rfl, hafter after⟩)

/-- **A redrive deals with a dead letter once.** -/
theorem moves_redrive {policy : RedrivePolicy} {m : Option (Table String String)} {nowMs : UInt64}
    {keys : List DueIndexKey} {l : List Event} {v v' : View}
    (h : Moves env id (.redrive policy m nowMs keys) l v v') : Redriven policy nowMs v l v' := by
  refine h.preserves (P := Redriven policy nowMs v) ?_ (.quiet rfl rfl (Or.inl rfl))
  intro l o w w' hw hm
  cases hm with
  | redrive _ _ _ _ hlive hdead hreplayable hrecord hdept hcool hleft =>
    obtain ⟨rfl, hd, hl, hs⟩ := hw.before hdead hreplayable
    obtain ⟨dept, rfl⟩ := redriveRecord_eq_some hdept
    exact .redriven hd hreplayable hrecord (hl ▸ hlive) rfl rfl rfl hs rfl hcool
  | kill _ _ _ _ excerpt hdead hreplayable hrecord hcool hwhy hclean =>
    obtain ⟨rfl, hd, hl, hs⟩ := hw.before hdead hreplayable
    exact .killed hd hreplayable hrecord (hl ▸ hwhy) hl (by rw [hs, hl]) (Or.inl ⟨_, excerpt, rfl⟩)
  | killFollowUp _ _ _ _ hlive hdead hreplayable hrecord hdept hcool hused hdirty =>
    obtain ⟨rfl, hd, hl, hs⟩ := hw.before hdead hreplayable
    obtain ⟨hkeyed, _, rfl⟩ := prepareDirtyFollowUp_eq_some hdirty
    obtain ⟨dept, rfl⟩ := redriveRecord_eq_some hdept
    refine .killedFollowedUp hd hreplayable hrecord (hl ▸ hlive) rfl rfl rfl ?_ hs
      (Or.inl ⟨true, _, rfl⟩)
    simpa [livePreservesKeyedDelivery] using hkeyed
  | compact nowMs' hclock hdead hterminal hold =>
    obtain rfl : nowMs = nowMs' := Option.some.inj hclock
    simpa using hw.compact hdead hterminal hold

/-- The events of a redrive. -/
def redriveEvents (result : RedriveResult) (before after : Store) (id : String) : List Event :=
  if result.redriven.any (·.deliveryId == id) then [.redriven]
  else if result.permanent.any (·.deliveryId == id) then
    [if (before.view id).live.isNone && (after.view id).live.isSome then .killedFollowedUp
      else .killed]
  else []

/-- A redrive moves deliveries, and its result names those that it gave up. -/
theorem redrive_spec (hs : s.Inv) (x : RedriveTxn) (hkeys : ∀ k ∈ x.dueKeys, k.DeadWellFormed)
    {s' : Store} {result : RedriveResult}
    (h : s.redriveDueInner env x.policy x.currentDeptByQueue x.nowMs x.dueKeys = .ok (s', result)) :
    Effect env x.txn (redriveEvents result s s') ((∀ k ∈ x.dueKeys, k.key ∈ s.deadByDeptDue) ∧
        x.dueKeys.Pairwise (fun k k' => k.deliveryId ≠ k'.deliveryId)) s s' ∧
      ∀ id, (∃ p ∈ result.permanent, p.deliveryId = id) ↔
        (.killed ∈ redriveEvents result s s' id ∨
          .killedFollowedUp ∈ redriveEvents result s s' id) := by
  unfold redriveDueInner at h
  cases hrun : redriveKeys env x.policy x.currentDeptByQueue x.nowMs x.dueKeys
      ⟨s, ⟨[], []⟩, false⟩ with
  | error e => rw [hrun] at h; cases h
  | ok loop =>
    obtain ⟨evs, heff, ⟨rs, ds, hres, hmem⟩, hmut⟩ := redriveKeys_effect x hs hkeys hrun
    obtain ⟨s1, m, hcompact, heff', _⟩ := compactTerminalDeadRecords_effect env x.txn heff.inv rfl
    simp only [hrun, hcompact, bind, Except.bind, pure, Except.pure] at h
    simp only [List.nil_append] at hres
    have hred : ∀ id, loop.result.redriven.any (·.deliveryId == id) = true ↔
        .redriven ∈ evs id := fun id => by simp [hres, (hmem id).1]
    have hper : ∀ id, (∃ p ∈ loop.result.permanent, p.deliveryId = id) ↔
        (.killed ∈ evs id ∨ .killedFollowedUp ∈ evs id) := fun id => by simp [hres, (hmem id).2]
    split at h
    · obtain ⟨rfl, rfl⟩ := Prod.mk.inj (Except.ok.inj h)
      have htotal := (heff.trans heff').mono fun hf => ⟨hf, trivial⟩
      have hevents : ∀ id, redriveEvents loop.result s s1 id = evs id := by
        intro id
        have hmoves : Redriven x.policy x.nowMs (s.view id) (evs id ++ []) (s1.view id) :=
          moves_redrive (htotal.moves id)
        have hper' : loop.result.permanent.any (·.deliveryId == id) = true ↔
            (.killed ∈ evs id ∨ .killedFollowedUp ∈ evs id) := by simpa using hper id
        simp only [redriveEvents, hred, hper', List.append_nil] at hmoves ⊢
        generalize evs id = l at hmoves ⊢
        cases hmoves with
        | quiet => simp
        | redriven => simp
        | killed _ _ _ _ live => cases hb : (s.view id).live <;> simp [live, hb]
        | killedFollowedUp _ _ _ nolive live => simp [nolive, live]
      exact ⟨htotal.congr fun id => by simpa using hevents id, fun id => by rw [hevents, hper]⟩
    · rename_i hnot
      obtain ⟨rfl, rfl⟩ := Prod.mk.inj (Except.ok.inj h)
      have hnot : loop.mutated = false ∧ m = 0 := by simpa using hnot
      obtain rfl := hmut hnot.1
      exact ⟨(Effect.refl hs).congr fun id => by simp [redriveEvents], by simp [redriveEvents]⟩

end Store

end Fkst.Delivery
