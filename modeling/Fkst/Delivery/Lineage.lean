import Fkst.Delivery.Migration
import Fkst.Delivery.Runs
import Fkst.Lib.Checks

/-!
# The lineage index along every run

The lineage index leads from a queue, a department and a source to the deliveries they have: to the
live ones in the order they are due, and to the terminal tombstones in the order they died.  Every
operation that writes such a row rewrites its key by hand, and this file shows that no key is left
behind and none is missing, whatever calls overlap.

`LineageOf env live dead t` says that `t` is the index of the rows `live` and `dead`.  The rows are
two functions here and not two tables, because an operation takes the key of a row out of the index
long before it rewrites the row.

* `LineageOf.removeLive`, `LineageOf.insertLive`, `LineageOf.removeDead`, `LineageOf.insertDead` - what
  one line of an operation does;
* `Store.LineageExact.commit` - every transaction keeps the index exact;
* `World.lineageExact` - and so does every run.
-/

set_option autoImplicit false

namespace Fkst.Delivery

open Lib

/-- What the lineage keys rely on in `base64`: no two names are encoded alike, and no encoding has a
slash. -/
structure Env.SegmentsEncode (env : Env) : Prop where
  inj : ∀ {bytes bytes' : List UInt8}, env.base64Url bytes = env.base64Url bytes' → bytes = bytes'
  sep : ∀ bytes, '/' ∉ (env.base64Url bytes).toList

/-! ## Lineage keys -/

section Keys

variable {env : Env} {queue queue' dept dept' kind kind' id id' : String} {source source' : SourceRef}
  {ms ms' : UInt64}

theorem Env.SegmentsEncode.segment_inj (henv : env.SegmentsEncode) {value value' : String}
    (h : (encodeLineageSegment env value).toList = (encodeLineageSegment env value').toList) :
    value = value' :=
  strBytes_injective (henv.inj (String.toList_inj.1 h))

theorem sep_notMem_sourceKindKey (kind : SourceKind) : '/' ∉ (sourceKindKey kind).toList := by
  cases kind <;> decide

theorem sourceKindKey_inj {kind kind' : SourceKind} (h : sourceKindKey kind = sourceKindKey kind') :
    kind = kind' := by
  cases kind <;> cases kind' <;> simp [sourceKindKey] at h ⊢

theorem lineageIndexPrefix_eq : lineageIndexPrefix env queue dept source kind =
    "v1/queue/" ++ encodeLineageSegment env queue ++ "/dept/" ++ encodeLineageSegment env dept ++
      "/source/" ++ sourceKindKey source.kind ++ "/" ++ encodeLineageSegment env source.reference ++
      "/" ++ kind ++ "/" :=
  rfl

theorem toList_lineageIndexPrefix :
    (lineageIndexPrefix env queue dept source kind).toList = "v1/queue/".toList ++
      ((encodeLineageSegment env queue).toList ++ '/' :: ("dept/".toList ++
        ((encodeLineageSegment env dept).toList ++ '/' :: ("source/".toList ++
          ((sourceKindKey source.kind).toList ++ '/' ::
            ((encodeLineageSegment env source.reference).toList ++ '/' ::
              (kind.toList ++ ['/']))))))) := by
  have hdept : "/dept/".toList = '/' :: "dept/".toList := by decide
  have hsource : "/source/".toList = '/' :: "source/".toList := by decide
  have hsep : "/".toList = ['/'] := by decide
  rw [lineageIndexPrefix_eq]
  simp only [String.toList_append, List.append_assoc, hdept, hsource, hsep, List.cons_append,
    List.nil_append]

/-- **A key can be taken apart**: what stands before the time determines the queue, the department, the
source and the kind of row. -/
theorem lineageIndexPrefix_inj (henv : env.SegmentsEncode) (hkind : '/' ∉ kind.toList)
    (hkind' : '/' ∉ kind'.toList) {x y : List Char}
    (h : (lineageIndexPrefix env queue dept source kind).toList ++ x =
      (lineageIndexPrefix env queue' dept' source' kind').toList ++ y) :
    queue = queue' ∧ dept = dept' ∧ source = source' ∧ kind = kind' ∧ x = y := by
  simp only [toList_lineageIndexPrefix, List.append_assoc, List.cons_append, List.nil_append] at h
  have h := List.append_cancel_left h
  obtain ⟨hqueue, h⟩ := Text.append_sep_inj (henv.sep _) (henv.sep _) h
  obtain ⟨hdept, h⟩ := Text.append_sep_inj (henv.sep _) (henv.sep _) (List.append_cancel_left h)
  obtain ⟨hsource, h⟩ := Text.append_sep_inj (sep_notMem_sourceKindKey _)
    (sep_notMem_sourceKindKey _) (List.append_cancel_left h)
  obtain ⟨hreference, h⟩ := Text.append_sep_inj (henv.sep _) (henv.sep _) h
  obtain ⟨hk, h⟩ := Text.append_sep_inj hkind hkind' h
  refine ⟨henv.segment_inj hqueue, henv.segment_inj hdept, ?_, String.toList_inj.1 hk, h⟩
  cases source
  cases source'
  rw [SourceRef.mk.injEq]
  exact ⟨sourceKindKey_inj (String.toList_inj.1 hsource), henv.segment_inj hreference⟩

theorem toList_lineageIndexKey :
    (lineageIndexKey env queue dept source kind ms id).toList =
      (lineageIndexPrefix env queue dept source kind).toList ++ ("at/".toList ++ (padded20 ms ++
        ("/id/".toList ++ (encodeOrderedLineageId id).toList))) := by
  simp only [lineageIndexKey, String.toList_append, String.toList_ofList, List.append_assoc]

theorem sep_notMem_live : '/' ∉ "live".toList := by decide

theorem sep_notMem_terminal : '/' ∉ "terminal".toList := by decide

/-- The key of a live row is none of a dead one. -/
theorem lineageIndexKey_live_ne_terminal (henv : env.SegmentsEncode) :
    lineageIndexKey env queue dept source "live" ms id ≠
      lineageIndexKey env queue' dept' source' "terminal" ms' id' := by
  intro h
  have h := congrArg String.toList h
  rw [toList_lineageIndexKey, toList_lineageIndexKey] at h
  exact absurd (lineageIndexPrefix_inj henv sep_notMem_live sep_notMem_terminal h).2.2.2.1 (by decide)

/-- The key that a live row has. -/
def liveKey (env : Env) (r : DeliveryRecord) : Option String := r.source.map (deliveryLineageKey env r)

/-- The key that a dead row has. -/
def tombstoneKey (env : Env) (d : DeadRecord) : Option String :=
  if isTerminalTombstone d then d.source.map (deadLineageKey env d) else none

/-- The keys that the rows of a delivery have. -/
def lineageKeys (env : Env) (live : Option DeliveryRecord) (dead : Option DeadRecord) : Set String :=
  {key | live.bind (liveKey env) = some key ∨ dead.bind (tombstoneKey env) = some key}

theorem liveKey_eq_some {r : DeliveryRecord} {key : String} :
    liveKey env r = some key ↔ ∃ source, r.source = some source ∧
      key = deliveryLineageKey env r source := by
  rw [liveKey, Option.map_eq_some_iff]
  exact exists_congr fun source => and_congr_right fun _ => eq_comm

theorem tombstoneKey_eq_some {d : DeadRecord} {key : String} :
    tombstoneKey env d = some key ↔ isTerminalTombstone d = true ∧ ∃ source, d.source = some source ∧
      key = deadLineageKey env d source := by
  rw [tombstoneKey]
  split
  · rename_i h
    rw [Option.map_eq_some_iff]
    simp only [h, true_and]
    exact exists_congr fun source => and_congr_right fun _ => eq_comm
  · rename_i h
    simp [h]

theorem deliveryId_of_liveKey {r r' : DeliveryRecord} {key : String} (h : liveKey env r = some key)
    (h' : liveKey env r' = some key) : r.deliveryId = r'.deliveryId := by
  obtain ⟨_, _, rfl⟩ := liveKey_eq_some.1 h
  obtain ⟨_, _, heq⟩ := liveKey_eq_some.1 h'
  exact lineageIndexKey_inj heq

theorem deliveryId_of_tombstoneKey {d d' : DeadRecord} {key : String}
    (h : tombstoneKey env d = some key) (h' : tombstoneKey env d' = some key) :
    d.deliveryId = d'.deliveryId := by
  obtain ⟨_, _, _, rfl⟩ := tombstoneKey_eq_some.1 h
  obtain ⟨_, _, _, heq⟩ := tombstoneKey_eq_some.1 h'
  exact lineageIndexKey_inj heq

theorem liveKey_ne_tombstoneKey (henv : env.SegmentsEncode) {r : DeliveryRecord} {d : DeadRecord}
    {key : String} (h : liveKey env r = some key) : tombstoneKey env d ≠ some key := by
  intro h'
  obtain ⟨_, _, rfl⟩ := liveKey_eq_some.1 h
  obtain ⟨_, _, _, heq⟩ := tombstoneKey_eq_some.1 h'
  exact lineageIndexKey_live_ne_terminal henv heq

end Keys

/-! ## The index of some rows -/

/-- `t` is the lineage index of the rows, each of which is stored under its own id. -/
structure LineageOf (env : Env) (live : String → Option DeliveryRecord)
    (dead : String → Option DeadRecord) (t : Table String String) : Prop where
  liveIds : ∀ {id : String} {r : DeliveryRecord}, live id = some r → r.deliveryId = id
  deadIds : ∀ {id : String} {d : DeadRecord}, dead id = some d → d.deliveryId = id
  recordIds : ∀ {id : String} {d : DeadRecord} {r : DeliveryRecord}, dead id = some d →
    d.record = some r → r.deliveryId = id
  entries : OwnedBy (fun id => lineageKeys env (live id) (dead id)) t

namespace LineageOf

variable {env : Env} {live : String → Option DeliveryRecord} {dead : String → Option DeadRecord}
  {s : Store} {id : String} {r r' : DeliveryRecord} {d : DeadRecord}

theorem notMem_of_liveKey (henv : env.SegmentsEncode) {t : Table String String}
    (h : LineageOf env live dead t) {key : String} (hkey : liveKey env r = some key) {j : String}
    (hj : j ≠ r.deliveryId) : key ∉ lineageKeys env (live j) (dead j) := by
  rintro (hmem | hmem)
  · obtain ⟨r', hr', hkey'⟩ := Option.bind_eq_some_iff.1 hmem
    exact hj ((h.liveIds hr').symm.trans (deliveryId_of_liveKey hkey' hkey))
  · obtain ⟨d, _, hkey'⟩ := Option.bind_eq_some_iff.1 hmem
    exact liveKey_ne_tombstoneKey henv hkey hkey'

theorem notMem_of_tombstoneKey (henv : env.SegmentsEncode) {t : Table String String}
    (h : LineageOf env live dead t) {key : String} (hkey : tombstoneKey env d = some key) {j : String}
    (hj : j ≠ d.deliveryId) : key ∉ lineageKeys env (live j) (dead j) := by
  rintro (hmem | hmem)
  · obtain ⟨r, _, hkey'⟩ := Option.bind_eq_some_iff.1 hmem
    exact liveKey_ne_tombstoneKey henv hkey' hkey
  · obtain ⟨d', hd', hkey'⟩ := Option.bind_eq_some_iff.1 hmem
    exact hj ((h.deadIds hd').symm.trans (deliveryId_of_tombstoneKey hkey' hkey))

/-- The key of a live row is taken out. -/
theorem removeLive (henv : env.SegmentsEncode) (h : LineageOf env live dead s.lineageBySource)
    (hr : live id = some r) (hkey : liveKey env r' = liveKey env r) :
    LineageOf env (Function.update live id none) dead
      (s.removeDeliveryLineageIndex env r').lineageBySource := by
  have htable : (s.removeDeliveryLineageIndex env r').lineageBySource =
      eraseOwned s.lineageBySource (liveKey env r) := by
    rw [← hkey, Store.removeDeliveryLineageIndex, liveKey]
    cases r'.source <;> rfl
  have hid := h.liveIds hr
  refine ⟨fun {j r} hj => ?_, h.deadIds, h.recordIds, ?_⟩
  · by_cases hji : j = id
    · simp [hji] at hj
    · exact h.liveIds (by rwa [Function.update_of_ne hji] at hj)
  · rw [htable]
    refine h.entries.erase (i := id) (fun j hj => by rw [Function.update_of_ne hj])
      (fun key j hkey hj => h.notMem_of_liveKey henv hkey (hid.symm ▸ hj)) fun key => ?_
    simp only [lineageKeys, Function.update_self, hr, Option.bind_none, Option.bind_some,
      Set.mem_ofPred_eq, reduceCtorEq, false_or]
    constructor
    · intro hdead
      obtain ⟨d, _, hd⟩ := Option.bind_eq_some_iff.1 hdead
      exact ⟨.inr hdead, fun hlive => liveKey_ne_tombstoneKey henv hlive hd⟩
    · rintro ⟨hlive | hdead, hne⟩
      · exact absurd hlive hne
      · exact hdead

/-- The key of a new live row is put in. -/
theorem insertLive (henv : env.SegmentsEncode) (h : LineageOf env live dead s.lineageBySource)
    (hnone : live id = none) (hid : r.deliveryId = id) :
    LineageOf env (Function.update live id (some r)) dead
      (s.insertDeliveryLineageIndex env r).lineageBySource := by
  have htable : (s.insertDeliveryLineageIndex env r).lineageBySource =
      insertOwned s.lineageBySource id (liveKey env r) := by
    rw [← hid, Store.insertDeliveryLineageIndex, liveKey]
    cases r.source <;> rfl
  refine ⟨fun {j r'} hj => ?_, h.deadIds, h.recordIds, ?_⟩
  · by_cases hji : j = id
    · subst hji
      rw [Function.update_self, Option.some.injEq] at hj
      exact hj ▸ hid
    · exact h.liveIds (by rwa [Function.update_of_ne hji] at hj)
  · rw [htable]
    refine h.entries.insert (i := id) (fun j hj => by rw [Function.update_of_ne hj])
      (fun key j hkey hj => h.notMem_of_liveKey henv hkey (hid.symm ▸ hj)) fun key => ?_
    simp only [lineageKeys, Function.update_self, hnone, Option.bind_none, Option.bind_some,
      Set.mem_ofPred_eq, reduceCtorEq, false_or]
    exact or_comm

/-- A live row is rewritten and keeps its key. -/
theorem rewriteLive {t : Table String String} (h : LineageOf env live dead t)
    (hr : live id = some r) (hid : r'.deliveryId = r.deliveryId)
    (hkey : liveKey env r' = liveKey env r) :
    LineageOf env (Function.update live id (some r')) dead t := by
  refine ⟨fun {j r''} hj => ?_, h.deadIds, h.recordIds, h.entries.congr fun j => ?_⟩
  · by_cases hji : j = id
    · subst hji
      rw [Function.update_self, Option.some.injEq] at hj
      exact hj ▸ hid.trans (h.liveIds hr)
    · exact h.liveIds (by rwa [Function.update_of_ne hji] at hj)
  · by_cases hji : j = id
    · subst hji
      simp [lineageKeys, hr, hkey]
    · rw [Function.update_of_ne hji]

/-- The key of a dead row is taken out. -/
theorem removeDead (henv : env.SegmentsEncode) (h : LineageOf env live dead s.lineageBySource)
    (hd : dead id = some d) :
    LineageOf env live (Function.update dead id none)
      (s.removeDeadLineageIndex env d).lineageBySource := by
  have htable : (s.removeDeadLineageIndex env d).lineageBySource =
      eraseOwned s.lineageBySource (tombstoneKey env d) := by
    rw [Store.removeDeadLineageIndex, tombstoneKey]
    cases isTerminalTombstone d <;> cases d.source <;> rfl
  have hid := h.deadIds hd
  refine ⟨h.liveIds, fun {j d'} hj => ?_, fun {j d' r} hj => ?_, ?_⟩
  · by_cases hji : j = id
    · simp [hji] at hj
    · exact h.deadIds (by rwa [Function.update_of_ne hji] at hj)
  · by_cases hji : j = id
    · simp [hji] at hj
    · exact h.recordIds (by rwa [Function.update_of_ne hji] at hj)
  · rw [htable]
    refine h.entries.erase (i := id) (fun j hj => by rw [Function.update_of_ne hj])
      (fun key j hkey hj => h.notMem_of_tombstoneKey henv hkey (hid.symm ▸ hj)) fun key => ?_
    simp only [lineageKeys, Function.update_self, hd, Option.bind_none, Option.bind_some,
      Set.mem_ofPred_eq, reduceCtorEq, or_false]
    constructor
    · intro hlive
      obtain ⟨r, _, hr⟩ := Option.bind_eq_some_iff.1 hlive
      exact ⟨.inl hlive, fun hdead => liveKey_ne_tombstoneKey henv hr hdead⟩
    · rintro ⟨hlive | hdead, hne⟩
      · exact hlive
      · exact absurd hdead hne

/-- A dead row without a key is taken out. -/
theorem dropDead {t : Table String String} (h : LineageOf env live dead t) (hd : dead id = some d)
    (hkey : tombstoneKey env d = none) : LineageOf env live (Function.update dead id none) t := by
  refine ⟨h.liveIds, fun {j d'} hj => ?_, fun {j d' r} hj => ?_, h.entries.congr fun j => ?_⟩
  · by_cases hji : j = id
    · simp [hji] at hj
    · exact h.deadIds (by rwa [Function.update_of_ne hji] at hj)
  · by_cases hji : j = id
    · simp [hji] at hj
    · exact h.recordIds (by rwa [Function.update_of_ne hji] at hj)
  · by_cases hji : j = id
    · subst hji
      simp [lineageKeys, hd, hkey]
    · rw [Function.update_of_ne hji]

/-- The key of a new dead row is put in. -/
theorem insertDead (henv : env.SegmentsEncode) (h : LineageOf env live dead s.lineageBySource)
    (hnone : dead id = none) (hid : d.deliveryId = id)
    (hrecord : ∀ r, d.record = some r → r.deliveryId = id) :
    LineageOf env live (Function.update dead id (some d))
      (s.insertDeadLineageIndex env d).lineageBySource := by
  have htable : (s.insertDeadLineageIndex env d).lineageBySource =
      insertOwned s.lineageBySource id (tombstoneKey env d) := by
    rw [← hid, Store.insertDeadLineageIndex, tombstoneKey]
    cases isTerminalTombstone d <;> cases d.source <;> rfl
  refine ⟨h.liveIds, fun {j d'} hj => ?_, fun {j d' r} hj hr => ?_, ?_⟩
  · by_cases hji : j = id
    · subst hji
      rw [Function.update_self, Option.some.injEq] at hj
      exact hj ▸ hid
    · exact h.deadIds (by rwa [Function.update_of_ne hji] at hj)
  · by_cases hji : j = id
    · subst hji
      rw [Function.update_self, Option.some.injEq] at hj
      exact hrecord r (hj ▸ hr)
    · exact h.recordIds (by rwa [Function.update_of_ne hji] at hj) hr
  · rw [htable]
    refine h.entries.insert (i := id) (fun j hj => by rw [Function.update_of_ne hj])
      (fun key j hkey hj => h.notMem_of_tombstoneKey henv hkey (hid.symm ▸ hj)) fun key => ?_
    simp only [lineageKeys, Function.update_self, hnone, Option.bind_none, Option.bind_some,
      Set.mem_ofPred_eq, reduceCtorEq, or_false]

end LineageOf

namespace Store

/-- The live rows. -/
def lives (s : Store) (id : String) : Option DeliveryRecord := s.deliveryById[id]?

/-- The dead rows. -/
def deads (s : Store) (id : String) : Option DeadRecord := s.deadById[id]?

/-- The lineage index is that of the rows. -/
def LineageExact (env : Env) (s : Store) : Prop := LineageOf env s.lives s.deads s.lineageBySource

section Rows

variable (s : Store) (id : String)

@[simp] theorem lives_insertDelivery (r : DeliveryRecord) :
    (s.insertDelivery id r).lives = Function.update s.lives id (some r) := by
  funext j
  by_cases hj : j = id
  · simp [lives, insertDelivery, hj]
  · simp [lives, insertDelivery, hj]

@[simp] theorem lives_removeDelivery :
    (s.removeDelivery id).lives = Function.update s.lives id none := by
  funext j
  by_cases hj : j = id
  · simp [lives, removeDelivery, hj]
  · simp [lives, removeDelivery, hj]

@[simp] theorem deads_insertDead (d : DeadRecord) :
    (s.insertDead id d).deads = Function.update s.deads id (some d) := by
  funext j
  by_cases hj : j = id
  · simp [deads, insertDead, hj]
  · simp [deads, insertDead, hj]

@[simp] theorem deads_removeDead : (s.removeDead id).deads = Function.update s.deads id none := by
  funext j
  by_cases hj : j = id
  · simp [deads, removeDead, hj]
  · simp [deads, removeDead, hj]

@[simp] theorem lives_insertDeliveryLineageIndex (env : Env) (r : DeliveryRecord) :
    (s.insertDeliveryLineageIndex env r).lives = s.lives := by
  unfold insertDeliveryLineageIndex
  split <;> rfl

@[simp] theorem deads_insertDeliveryLineageIndex (env : Env) (r : DeliveryRecord) :
    (s.insertDeliveryLineageIndex env r).deads = s.deads := by
  unfold insertDeliveryLineageIndex
  split <;> rfl

@[simp] theorem lives_removeDeliveryLineageIndex (env : Env) (r : DeliveryRecord) :
    (s.removeDeliveryLineageIndex env r).lives = s.lives := by
  unfold removeDeliveryLineageIndex
  split <;> rfl

@[simp] theorem deads_removeDeliveryLineageIndex (env : Env) (r : DeliveryRecord) :
    (s.removeDeliveryLineageIndex env r).deads = s.deads := by
  unfold removeDeliveryLineageIndex
  split <;> rfl

@[simp] theorem lives_insertDeadLineageIndex (env : Env) (d : DeadRecord) :
    (s.insertDeadLineageIndex env d).lives = s.lives := by
  unfold insertDeadLineageIndex
  repeat' split
  all_goals rfl

@[simp] theorem deads_insertDeadLineageIndex (env : Env) (d : DeadRecord) :
    (s.insertDeadLineageIndex env d).deads = s.deads := by
  unfold insertDeadLineageIndex
  repeat' split
  all_goals rfl

@[simp] theorem lives_removeDeadLineageIndex (env : Env) (d : DeadRecord) :
    (s.removeDeadLineageIndex env d).lives = s.lives := by
  unfold removeDeadLineageIndex
  repeat' split
  all_goals rfl

@[simp] theorem deads_removeDeadLineageIndex (env : Env) (d : DeadRecord) :
    (s.removeDeadLineageIndex env d).deads = s.deads := by
  unfold removeDeadLineageIndex
  repeat' split
  all_goals rfl

@[simp] theorem lives_insertReady (key : String) : (s.insertReady key).lives = s.lives := rfl

@[simp] theorem deads_insertReady (key : String) : (s.insertReady key).deads = s.deads := rfl

@[simp] theorem lives_removeReady (key : String) : (s.removeReady key).lives = s.lives := rfl

@[simp] theorem deads_removeReady (key : String) : (s.removeReady key).deads = s.deads := rfl

@[simp] theorem lives_insertLeased (key : String) : (s.insertLeased key).lives = s.lives := rfl

@[simp] theorem deads_insertLeased (key : String) : (s.insertLeased key).deads = s.deads := rfl

@[simp] theorem lives_removeLeased (key : String) : (s.removeLeased key).lives = s.lives := rfl

@[simp] theorem deads_removeLeased (key : String) : (s.removeLeased key).deads = s.deads := rfl

@[simp] theorem lives_insertDeadTime (key : String) : (s.insertDeadTime key).lives = s.lives := rfl

@[simp] theorem deads_insertDeadTime (key : String) : (s.insertDeadTime key).deads = s.deads := rfl

@[simp] theorem lives_removeDeadTime (key : String) : (s.removeDeadTime key).lives = s.lives := rfl

@[simp] theorem deads_removeDeadTime (key : String) : (s.removeDeadTime key).deads = s.deads := rfl

@[simp] theorem lives_insertDeadDue (key : String) : (s.insertDeadDue key).lives = s.lives := rfl

@[simp] theorem deads_insertDeadDue (key : String) : (s.insertDeadDue key).deads = s.deads := rfl

@[simp] theorem lives_removeDeadDue (key : String) : (s.removeDeadDue key).lives = s.lives := rfl

@[simp] theorem deads_removeDeadDue (key : String) : (s.removeDeadDue key).deads = s.deads := rfl

@[simp] theorem lives_insertTerminal (key : String) : (s.insertTerminal key).lives = s.lives := rfl

@[simp] theorem deads_insertTerminal (key : String) : (s.insertTerminal key).deads = s.deads := rfl

@[simp] theorem lives_removeTerminal (key : String) : (s.removeTerminal key).lives = s.lives := rfl

@[simp] theorem deads_removeTerminal (key : String) : (s.removeTerminal key).deads = s.deads := rfl

@[simp] theorem deads_insertDelivery (r : DeliveryRecord) : (s.insertDelivery id r).deads = s.deads :=
  rfl

@[simp] theorem deads_removeDelivery : (s.removeDelivery id).deads = s.deads := rfl

@[simp] theorem lives_insertDead (d : DeadRecord) : (s.insertDead id d).lives = s.lives := rfl

@[simp] theorem lives_removeDead : (s.removeDead id).lives = s.lives := rfl

end Rows

/-! ## Operations -/

variable {env : Env} {s s' : Store} {id : String} {r : DeliveryRecord} {d : DeadRecord}

theorem lineageExact_empty : LineageExact env empty where
  liveIds h := by simp [lives, empty] at h
  deadIds h := by simp [deads, empty] at h
  recordIds h := by simp [deads, empty] at h
  entries k i := by simp [lineageKeys, lives, deads, empty]

/-- The index is exact for the rows that the tables have in the end. -/
theorem LineageExact.mk {live : String → Option DeliveryRecord} {dead : String → Option DeadRecord}
    {t : Table String String} (h : LineageOf env live dead t) (hlives : s.lives = live)
    (hdeads : s.deads = dead) (htable : s.lineageBySource = t) : s.LineageExact env := by
  rw [LineageExact, hlives, hdeads, htable]
  exact h

/-- A row is inserted where the index has no key of one. -/
theorem insertRow_lineage (henv : env.SegmentsEncode)
    (h : LineageOf env (Function.update s.lives id none) s.deads s.lineageBySource)
    (hid : r.deliveryId = id) : (s.insertRow env id r).LineageExact env := by
  have hnew := h.insertLive (s := s.insertDelivery id r) henv (Function.update_self _ _ _) hid
  rw [Function.update_idem] at hnew
  exact .mk hnew (by simp [insertRow]) (by simp [insertRow]) rfl

/-- A row is rewritten and keeps its key. -/
theorem LineageExact.rewrite (h : s.LineageExact env) (hr : s.deliveryById[id]? = some r)
    (r' : DeliveryRecord) (hid : r'.deliveryId = r.deliveryId)
    (hkey : liveKey env r' = liveKey env r) : (s.insertDelivery id r').LineageExact env :=
  .mk (LineageOf.rewriteLive h hr hid hkey) (lives_insertDelivery s id r') rfl rfl

theorem LineageExact.coalesce (h : s.LineageExact env) {current record : DeliveryRecord}
    (hr : s.deliveryById[record.deliveryId]? = some current) :
    (s.coalesce current record).LineageExact env := by
  unfold Store.coalesce
  split
  · split
    · exact h
    · rename_i leaseUntilMs _
      split
      · split
        · exact h.rewrite hr _ rfl rfl
        · exact h
      · have hready : ((s.removeLeased (makeIndexKey current.dept leaseUntilMs
            record.deliveryId)).insertReady (makeIndexKey current.dept current.notBeforeMs
              record.deliveryId)).LineageExact env := h
        exact hready.rewrite hr _ rfl rfl
  · exact h

@[simp] theorem lives_unindexRow (s : Store) (id : String) (r : DeliveryRecord) :
    (s.unindexRow id r).lives = s.lives := by
  unfold unindexRow
  split <;> rfl

@[simp] theorem deads_unindexRow (s : Store) (id : String) (r : DeliveryRecord) :
    (s.unindexRow id r).deads = s.deads := by
  unfold unindexRow
  split <;> rfl

@[simp] theorem lineageBySource_unindexRow (s : Store) (id : String) (r : DeliveryRecord) :
    (s.unindexRow id r).lineageBySource = s.lineageBySource := by
  unfold unindexRow
  split <;> rfl

theorem lives_rebindRow (newDept : String) :
    (s.rebindRow env id r newDept).lives =
      Function.update s.lives id (some (r.rebound newDept)) := by
  unfold rebindRow
  cases r.leaseUntilMs <;> simp

theorem LineageExact.rebindRow (henv : env.SegmentsEncode) (h : s.LineageExact env)
    (hr : s.deliveryById[id]? = some r) (newDept : String) :
    (s.rebindRow env id r newDept).LineageExact env := by
  have hid : r.deliveryId = id := h.liveIds hr
  have hid : (r.rebound newDept).deliveryId = id := hid
  have hremoved := LineageOf.removeLive henv h hr rfl
  rw [← lineageBySource_unindexRow _ id r] at hremoved
  have hnew := hremoved.insertLive (s := ((s.removeDeliveryLineageIndex env r).unindexRow id
    r).insertDelivery id (r.rebound newDept)) henv (Function.update_self _ _ _) hid
  rw [Function.update_idem] at hnew
  refine .mk hnew (lives_rebindRow newDept) ?_ ?_
  · unfold Store.rebindRow
    cases r.leaseUntilMs <;> simp
  · unfold Store.rebindRow
    cases r.leaseUntilMs <;> rfl

/-- The rows that the rebinding loop comes to are as it read them. -/
theorem rebindRows_lineage (henv : env.SegmentsEncode) :
    ∀ {candidates : List (String × DeliveryRecord × String)} {s : Store}, s.LineageExact env →
      (∀ c ∈ candidates, s.lives c.1 = some c.2.1) →
      candidates.Pairwise (fun c c' => c.1 ≠ c'.1) → (rebindRows env candidates s).LineageExact env
  | [], _, h, _, _ => h
  | (id, record, newDept) :: candidates, s, h, hrows, hne => by
    rw [List.pairwise_cons] at hne
    have hrow : s.deliveryById[id]? = some record := hrows (id, record, newDept) (by simp)
    rw [rebindRows]
    refine rebindRows_lineage henv (h.rebindRow henv hrow newDept) (fun c hc => ?_) hne.2
    rw [lives_rebindRow, Function.update_of_ne (hne.1 c hc).symm]
    exact hrows c (by simp [hc])

section Unindex

variable (s) (id) (keyId : DeadRecord → String)

@[simp] theorem lives_unindexPrevious : (s.unindexPrevious env id keyId).lives = s.lives := by
  unfold unindexPrevious
  split
  · simp [unindexDead]
  · rfl

@[simp] theorem deads_unindexPrevious : (s.unindexPrevious env id keyId).deads = s.deads := by
  unfold unindexPrevious
  split
  · simp [unindexDead]
  · rfl

/-- The dead row that an id already has loses its key. -/
theorem unindexPrevious_lineage (henv : env.SegmentsEncode) {live : String → Option DeliveryRecord}
    (h : LineageOf env live s.deads s.lineageBySource) :
    LineageOf env live (Function.update s.deads id none)
      (s.unindexPrevious env id keyId).lineageBySource := by
  unfold unindexPrevious
  split
  · rename_i previous hprevious
    exact h.removeDead henv hprevious
  · rename_i hnone
    have hnone : s.deads id = none := hnone
    rwa [Function.update_eq_self_iff.2 hnone.symm]

end Unindex

theorem LineageExact.sweepDead (henv : env.SegmentsEncode) (h : s.LineageExact env)
    (hr : s.deliveryById[id]? = some r) (nowMs : UInt64) :
    (s.sweepDead env id r nowMs).LineageExact env := by
  have hid : r.deliveryId = id := h.liveIds hr
  have hrow : LineageOf env s.lives s.deads (s.unindexRow id r).lineageBySource := by
    rw [lineageBySource_unindexRow]
    exact h
  have hremoved := hrow.removeLive henv hr rfl
  rw [← deads_unindexRow s id r,
    ← deads_removeDeliveryLineageIndex (s.unindexRow id r) env r] at hremoved
  have hprevious := unindexPrevious_lineage _ id DeadRecord.deliveryId henv hremoved
  have hdead := hprevious.insertDead (d := r.absentDead nowMs)
    (s := (((s.unindexRow id r).removeDeliveryLineageIndex env r).unindexPrevious env id
      DeadRecord.deliveryId).insertDead id (r.absentDead nowMs)) henv (Function.update_self _ _ _) hid
    (fun record hrecord => by
      obtain rfl := Option.some.inj hrecord
      exact hid)
  rw [Function.update_idem] at hdead
  exact .mk hdead (by simp [Store.sweepDead]) (by simp [Store.sweepDead]) rfl

theorem LineageExact.sweepRow (henv : env.SegmentsEncode) (h : s.LineageExact env)
    (queues : Std.ExtTreeSet String) (nowMs budgetMs : UInt64) (sweep : SubscriberAbsentSweep)
    (id : String) : (s.sweepRow env queues nowMs budgetMs sweep id).1.LineageExact env := by
  unfold Store.sweepRow
  split
  · exact h
  · rename_i r hr
    dsimp only
    split
    · split
      · exact h
      · exact h.rewrite hr _ rfl rfl
    · split
      · exact h.rewrite hr _ rfl rfl
      · split
        · exact h
        · exact h.sweepDead henv hr nowMs

theorem sweepRows_lineage (henv : env.SegmentsEncode) (queues : Std.ExtTreeSet String)
    (nowMs budgetMs : UInt64) :
    ∀ (ids : List String) {s : Store} (sweep : SubscriberAbsentSweep), s.LineageExact env →
      (sweepRows env queues nowMs budgetMs ids s sweep).1.LineageExact env
  | [], _, _, h => h
  | id :: ids, s, sweep, h => by
    rw [sweepRows]
    exact sweepRows_lineage henv queues nowMs budgetMs ids _
      (h.sweepRow henv queues nowMs budgetMs sweep id)

/-- Suppressing an id is not about the lineage. -/
theorem suppressTerminalDelivery_lineage (h : s.suppressTerminalDelivery id = .ok s') :
    s'.lives = s.lives ∧ s'.deads = s.deads ∧ s'.lineageBySource = s.lineageBySource := by
  unfold suppressTerminalDelivery at h
  cases htable : suppressTerminalDeliveryInTable s.terminalSuppressionBySlot id with
  | error e => rw [htable] at h; cases h
  | ok table =>
    rw [htable] at h
    obtain rfl := Except.ok.inj h
    exact ⟨rfl, rfl, rfl⟩

theorem LineageExact.of_eq (h : s.LineageExact env) (s' : Store) (hlives : s'.lives = s.lives)
    (hdeads : s'.deads = s.deads) (htable : s'.lineageBySource = s.lineageBySource) :
    s'.LineageExact env :=
  .mk h hlives hdeads htable

theorem LineageExact.compactRow (henv : env.SegmentsEncode) (h : s.LineageExact env)
    {key : DueIndexKey} (hd : s.deadById[key.deliveryId]? = some d) :
    (s.compactRow env key d).LineageExact env :=
  .mk (LineageOf.removeDead henv h hd) (by simp [Store.compactRow]) (by simp [Store.compactRow]) rfl

theorem compactKeys_lineage (henv : env.SegmentsEncode) (cutoffMs : UInt64) :
    ∀ {keys : List DueIndexKey} {s s' : Store} {n n' : ℕ}, s.LineageExact env →
      compactKeys env cutoffMs keys s n = .ok (s', n') → s'.LineageExact env ∧ s'.lives = s.lives
  | [], _, _, _, _, h, hrun => by
    obtain ⟨rfl, _⟩ := Prod.mk.inj (Except.ok.inj hrun)
    exact ⟨h, rfl⟩
  | key :: keys, s, s', n, n', h, hrun => by
    rw [compactKeys] at hrun
    split at hrun
    · have hstale := h.of_eq ((s.removeTerminal key.key).removeDeadTime
        (makeDeadTimeIndexKey key.dueMs key.deliveryId)) rfl rfl rfl
      obtain ⟨hexact, hlives⟩ := compactKeys_lineage henv cutoffMs hstale hrun
      exact ⟨hexact, hlives⟩
    · rename_i record hrecord
      have hsame : ∀ s₁ : Store, s₁.lives = s.lives → s₁.deads = s.deads →
          s₁.lineageBySource = s.lineageBySource →
          compactKeys env cutoffMs keys s₁ (n + 1) = .ok (s', n') →
          s'.LineageExact env ∧ s'.lives = s.lives := by
        intro s₁ hlives hdeads htable hrun
        obtain ⟨hexact, hlives'⟩ :=
          compactKeys_lineage henv cutoffMs (h.of_eq _ hlives hdeads htable) hrun
        exact ⟨hexact, hlives'.trans hlives⟩
      split at hrun
      · dsimp only at hrun
        split at hrun
        · split at hrun
          · obtain ⟨s₁, hs₁, hrun⟩ := Checks.bind_eq_ok.1 hrun
            obtain ⟨hlives, hdeads, htable⟩ := suppressTerminalDelivery_lineage hs₁
            exact hsame s₁ hlives hdeads htable hrun
          · rw [pure_bind] at hrun
            refine hsame _ ?_ ?_ ?_ hrun <;> rfl
        · rw [pure_bind] at hrun
          refine hsame _ ?_ ?_ ?_ hrun <;> rfl
      · split at hrun
        · obtain ⟨rfl, _⟩ := Prod.mk.inj (Except.ok.inj hrun)
          exact ⟨h, rfl⟩
        · obtain ⟨hexact, hlives⟩ := compactKeys_lineage henv cutoffMs (h.compactRow henv hrecord) hrun
          exact ⟨hexact, hlives.trans (by simp [Store.compactRow])⟩

theorem LineageExact.compact (henv : env.SegmentsEncode) (h : s.LineageExact env) {nowMs : UInt64}
    {n : ℕ} (hrun : s.compactTerminalDeadRecords env nowMs = .ok (s', n)) :
    s'.LineageExact env ∧ s'.lives = s.lives := by
  unfold compactTerminalDeadRecords at hrun
  split at hrun
  · obtain ⟨rfl, _⟩ := Prod.mk.inj (Except.ok.inj hrun)
    exact ⟨h, rfl⟩
  · obtain ⟨keys, _, hrun⟩ := Checks.bind_eq_ok.1 hrun
    exact compactKeys_lineage henv _ h hrun

theorem LineageExact.enqueue (henv : env.SegmentsEncode) (h : s.LineageExact env)
    {record : DeliveryRecord} {outcome : EnqueueOutcome}
    (hrun : s.enqueue env record = .ok (s', outcome)) : s'.LineageExact env := by
  unfold Store.enqueue at hrun
  split at hrun
  · rename_i current hcurrent
    split at hrun
    · obtain ⟨rfl, _⟩ := Prod.mk.inj (Except.ok.inj hrun)
      exact h.coalesce hcurrent
    · split at hrun
      · obtain ⟨rfl, _⟩ := Prod.mk.inj (Except.ok.inj hrun)
        exact h
      · cases hrun
  · rename_i hnone
    obtain ⟨⟨s₁, n⟩, hcompact, hrun⟩ := Checks.bind_eq_ok.1 hrun
    obtain ⟨hexact, hlives⟩ := h.compact henv hcompact
    dsimp only at hrun
    split at hrun
    · obtain ⟨rfl, _⟩ := Prod.mk.inj (Except.ok.inj hrun)
      exact hexact
    · obtain ⟨rfl, _⟩ := Prod.mk.inj (Except.ok.inj hrun)
      have hnone : s₁.lives record.deliveryId = none := by
        rw [hlives]
        exact hnone
      refine insertRow_lineage henv ?_ rfl
      rwa [Function.update_eq_self_iff.2 hnone.symm]

theorem LineageExact.sweep (henv : env.SegmentsEncode) (h : s.LineageExact env)
    {queues : Std.ExtTreeSet String} {nowMs : UInt64} {budget : Duration} {candidates : List String}
    {sweep : SubscriberAbsentSweep}
    (hrun : s.sweepSubscriberAbsence env queues nowMs budget candidates = .ok (s', sweep)) :
    s'.LineageExact env := by
  unfold sweepSubscriberAbsence at hrun
  obtain ⟨⟨s₁, n⟩, hcompact, hrun⟩ := Checks.bind_eq_ok.1 hrun
  have hswept := sweepRows_lineage henv queues nowMs (durationMillis budget) candidates .empty h
  dsimp only at hrun
  split at hrun
  · obtain ⟨rfl, _⟩ := Prod.mk.inj (Except.ok.inj hrun)
    exact h
  · obtain ⟨rfl, _⟩ := Prod.mk.inj (Except.ok.inj hrun)
    exact (hswept.compact henv hcompact).1

theorem renewRows_lineage (leaseUntilMs : UInt64) :
    ∀ (renewals : List (String × UInt64)) {s : Store} (applied : Table String DeliveryRecord),
      s.LineageExact env → (renewRows leaseUntilMs renewals s applied).1.LineageExact env
  | [], _, _, h => h
  | (id, leaseGeneration) :: renewals, s, applied, h => by
    rw [renewRows]
    split
    · exact renewRows_lineage leaseUntilMs renewals applied h
    · rename_i current hcurrent
      split
      · exact renewRows_lineage leaseUntilMs renewals applied h
      · rename_i oldLeaseUntil _
        split
        · exact renewRows_lineage leaseUntilMs renewals applied h
        · have hleft := h.of_eq (s.removeLeased (makeIndexKey current.dept oldLeaseUntil id)) rfl
            rfl rfl
          have hrenewed := hleft.rewrite hcurrent { current with leaseUntilMs := some leaseUntilMs }
            rfl rfl
          exact renewRows_lineage leaseUntilMs renewals _ (hrenewed.of_eq _ rfl rfl rfl)

theorem LineageExact.renew (h : s.LineageExact env) (renewals : List (String × UInt64))
    (leaseUntilMs : UInt64) : (s.renewLeases renewals leaseUntilMs).1.LineageExact env := by
  unfold renewLeases
  have hrenewed := renewRows_lineage leaseUntilMs renewals ∅ h
  dsimp only
  split
  · exact h
  · exact hrenewed

theorem LineageExact.grantRow (h : s.LineageExact env) (hr : s.deliveryById[id]? = some r)
    (leaseUntil : UInt64) : (s.grantRow id r leaseUntil).LineageExact env := by
  unfold Store.grantRow
  dsimp only
  split
  · rename_i oldLeaseUntil _
    have hleft := h.of_eq (s.removeLeased (makeIndexKey r.dept oldLeaseUntil id)) rfl rfl rfl
    exact (hleft.rewrite hr (r.leased leaseUntil) rfl rfl).of_eq _ rfl rfl rfl
  · exact (h.rewrite hr (r.leased leaseUntil) rfl rfl).of_eq _ rfl rfl rfl

theorem LineageExact.leaseKey (h : s.LineageExact env) (req : LeaseRequest) (b : Bool)
    (key : DueIndexKey) : (s.leaseKey req b key).store.LineageExact env := by
  unfold Store.leaseKey
  dsimp only
  split
  · exact h
  · split
    · split
      · exact h.of_eq _ rfl rfl rfl
      · exact h.of_eq _ rfl rfl rfl
    · rename_i record hrecord
      have hleft := h.of_eq (s.removeLeased key.key) rfl rfl rfl
      have hready := h.of_eq (s.removeReady key.key) rfl rfl rfl
      split
      · exact h
      · split
        · split
          · exact hleft
          · exact hleft.grantRow hrecord _
        · split
          · exact hready
          · split
            · exact hready.of_eq _ rfl rfl rfl
            · exact hready.grantRow hrecord _

theorem leaseKeys_lineage (req : LeaseRequest) (b : Bool) (limit : ℕ) :
    ∀ (keys : List DueIndexKey) {loop : LeaseLoop}, loop.store.LineageExact env →
      (leaseKeys req b limit keys loop).store.LineageExact env
  | [], _, h => h
  | key :: keys, loop, h => by
    rw [leaseKeys]
    split
    · exact h
    · exact leaseKeys_lineage req b limit keys (h.leaseKey req b key)

theorem LineageExact.lease (h : s.LineageExact env) (l : LeaseTxn) :
    (s.leaseMatching l.nowMs l.batchLimit l.leaseDur l.dept l.excluded l.expiredKeys
      l.readyKeys).1.LineageExact env := by
  have hexpired : (leaseKeys l.request true (expiredLeaseQuota l.batchLimit) l.expiredKeys
      ⟨s, [], false⟩).store.LineageExact env := leaseKeys_lineage _ _ _ _ h
  have hready := leaseKeys_lineage l.request false l.batchLimit l.readyKeys hexpired
  rw [leaseMatching]
  split
  · exact h
  · exact hready

theorem LineageExact.leaseDelivery (h : s.LineageExact env) (id : String) (nowMs : UInt64)
    (leaseDur : Duration) : (s.leaseDelivery id nowMs leaseDur).1.LineageExact env := by
  unfold Store.leaseDelivery
  dsimp only
  split
  · exact h
  · rename_i record hrecord
    split
    · exact h
    · have hready := h.of_eq (s.removeReady (makeIndexKey record.dept record.notBeforeMs id)) rfl
        rfl rfl
      exact (hready.rewrite hrecord (record.leased _) rfl rfl).of_eq _ rfl rfl rfl

/-! ### Completing an execution -/

theorem liveKey_prepareDirtyFollowUp {f : DeliveryRecord} {nowMs : UInt64}
    (h : prepareDirtyFollowUp r nowMs = some f) : f.deliveryId = r.deliveryId := by
  unfold prepareDirtyFollowUp at h
  split at h
  · cases h
  · obtain rfl := Option.some.inj h
    rfl

theorem LineageExact.ack (henv : env.SegmentsEncode) (h : s.LineageExact env) (id : String)
    (leaseGeneration : UInt64) : (s.ack env id leaseGeneration).1.LineageExact env := by
  unfold Store.ack
  split
  · exact h
  · rename_i current hcurrent
    split
    · split
      · exact h
      · rename_i leaseUntil _
        have hremoved := LineageOf.removeLive (s := s.removeLeased (makeIndexKey current.dept leaseUntil
          id)) henv h hcurrent rfl
        dsimp only
        split
        · rename_i followUp hfollowUp
          refine insertRow_lineage henv ?_
            ((liveKey_prepareDirtyFollowUp hfollowUp).trans (h.liveIds hcurrent))
          rw [lives_removeDeliveryLineageIndex, deads_removeDeliveryLineageIndex]
          exact hremoved
        · exact .mk hremoved (by simp) (by simp) rfl
    · exact h

theorem LineageExact.deferLockBusy (henv : env.SegmentsEncode) (h : s.LineageExact env)
    (id : String) (leaseGeneration : UInt64) (lock : String) (policy : RetryPolicy)
    (nowMs : UInt64) :
    (s.deferLockBusy env id leaseGeneration lock policy nowMs).1.LineageExact env := by
  unfold Store.deferLockBusy
  split
  · exact h
  · rename_i current hcurrent
    split
    · exact h
    · rename_i leaseUntil _
      split
      · have hremoved := LineageOf.removeLive (s := s.removeLeased (makeIndexKey current.dept leaseUntil
          id)) henv h hcurrent rfl
        have hid : current.deliveryId = id := h.liveIds hcurrent
        refine insertRow_lineage henv ?_ hid
        rw [lives_removeDeliveryLineageIndex, deads_removeDeliveryLineageIndex]
        exact hremoved
      · exact h

/-- The dead letter of a row is written, and the key of the row is gone. -/
theorem LineageExact.writeDead (henv : env.SegmentsEncode) (h : s.LineageExact env)
    (hr : s.deliveryById[id]? = some r) {current : DeliveryRecord}
    (hkey : liveKey env current = liveKey env r) (hid : d.deliveryId = id)
    (hrecord : ∀ record, d.record = some record → record.deliveryId = id) :
    LineageOf env (Function.update s.lives id none) (Function.update s.deads id (some d))
        (s.writeDead env id current d).lineageBySource ∧
      (s.writeDead env id current d).lives = s.lives ∧
      (s.writeDead env id current d).deads = Function.update s.deads id (some d) := by
  have hprevious := unindexPrevious_lineage s id (fun _ => id) henv h
  have hremoved := hprevious.removeLive (s := (s.unindexPrevious env id fun _ => id).insertDeadTime
    (makeDeadTimeIndexKey d.deadAtMs id)) henv hr hkey
  have hdead := hremoved.insertDead (s := (((s.unindexPrevious env id fun _ => id).insertDeadTime
    (makeDeadTimeIndexKey d.deadAtMs id)).removeDeliveryLineageIndex env current).insertDead id d) henv
    (Function.update_self _ _ _) hid hrecord
  rw [Function.update_idem] at hdead
  exact ⟨hdead, by simp [Store.writeDead], by simp [Store.writeDead]⟩

theorem LineageExact.retryDead (henv : env.SegmentsEncode) (h : s.LineageExact env)
    (hr : s.deliveryById[id]? = some r) {current : DeliveryRecord}
    (hkey : liveKey env current = liveKey env r) (hid : current.deliveryId = r.deliveryId)
    {failure : RetryFailure} {nowMs : UInt64} {outcome : RetryOutcome}
    (hrun : s.retryDead env id current failure nowMs = .ok (s', outcome)) : s'.LineageExact env := by
  have hown : current.deliveryId = id := hid.trans (h.liveIds hr)
  unfold Store.retryDead at hrun
  generalize hfollowUp : (if failure.replayable then none else prepareDirtyFollowUp current nowMs) =
    followUp at hrun
  have hrecord : ∀ record, (current.exhausted failure.replayable followUp.isSome nowMs).record =
      some record → record.deliveryId = id := by
    intro record hrecord
    simp only [DeliveryRecord.exhausted] at hrecord
    split at hrecord
    · obtain rfl := Option.some.inj hrecord
      exact hown
    · cases hrecord
  obtain ⟨hdead, hlives, hdeads⟩ :=
    h.writeDead henv hr (d := current.exhausted failure.replayable followUp.isSome nowMs) hkey hown
      hrecord
  dsimp only at hrun
  split at hrun
  · obtain ⟨rfl, _⟩ := Prod.mk.inj (Except.ok.inj hrun)
    exact .mk hdead (by simp [hlives]) (by simp [hdeads]) rfl
  · rename_i hreplayable
    split at hrun
    · rename_i f
      obtain ⟨rfl, _⟩ := Prod.mk.inj (Except.ok.inj hrun)
      have hfid : f.deliveryId = id := by
        rw [if_neg hreplayable] at hfollowUp
        exact (liveKey_prepareDirtyFollowUp hfollowUp).trans hown
      refine insertRow_lineage henv ?_ hfid
      rw [lives_insertTerminal, deads_insertTerminal, hlives, hdeads]
      exact hdead
    · obtain ⟨s₁, hs₁, hrun⟩ := Checks.bind_eq_ok.1 hrun
      obtain ⟨rfl, _⟩ := Prod.mk.inj (Except.ok.inj hrun)
      obtain ⟨hlives₁, hdeads₁, htable₁⟩ := suppressTerminalDelivery_lineage hs₁
      refine .mk hdead ?_ ?_ htable₁
      · rw [lives_removeDelivery, hlives₁, lives_insertTerminal, hlives]
      · rw [deads_removeDelivery, hdeads₁, deads_insertTerminal, hdeads]

theorem LineageExact.retry (henv : env.SegmentsEncode) (h : s.LineageExact env)
    {leaseGeneration : UInt64} {failure : RetryFailure} {policy : RetryPolicy} {nowMs : UInt64}
    {outcome : RetryOutcome}
    (hrun : s.retry env id leaseGeneration failure policy nowMs = .ok (s', outcome)) :
    s'.LineageExact env := by
  have hcompacted : ∀ {s₁ : Store} {o : RetryOutcome}, s₁.LineageExact env →
      (do let p ← s₁.compactTerminalDeadRecords env nowMs; return (p.1, o)) =
        Except.ok (ε := StoreError) (s', outcome) → s'.LineageExact env := by
    intro s₁ o h₁ hrun
    obtain ⟨⟨s₂, n⟩, hcompact, hrun⟩ := Checks.bind_eq_ok.1 hrun
    obtain ⟨rfl, _⟩ := Prod.mk.inj (Except.ok.inj hrun)
    exact (h₁.compact henv hcompact).1
  unfold Store.retry at hrun
  dsimp only at hrun
  split at hrun
  · exact hcompacted h hrun
  · rename_i current hcurrent
    split at hrun
    · obtain ⟨rfl, _⟩ := Prod.mk.inj (Except.ok.inj hrun)
      exact h
    · rename_i leaseUntil _
      split at hrun
      · exact hcompacted h hrun
      · obtain ⟨⟨s₁, o⟩, hrow, hrun⟩ := Checks.bind_eq_ok.1 hrun
        refine hcompacted ?_ hrun
        have hkey : liveKey env (current.failed failure) = liveKey env current := rfl
        unfold retryRow at hrow
        dsimp only at hrow
        split at hrow
        · have hleft := h.of_eq (s.removeLeased (makeIndexKey current.dept leaseUntil id)) rfl rfl
            rfl
          exact hleft.retryDead henv hcurrent hkey rfl hrow
        · obtain ⟨rfl, _⟩ := Prod.mk.inj (Except.ok.inj hrow)
          have hremoved := LineageOf.removeLive
            (s := s.removeLeased (makeIndexKey current.dept leaseUntil id)) henv h hcurrent hkey
          have hid : current.deliveryId = id := h.liveIds hcurrent
          refine insertRow_lineage henv ?_ hid
          rw [lives_removeDeliveryLineageIndex, deads_removeDeliveryLineageIndex]
          exact hremoved

/-! ### Redriving dead letters -/

theorem tombstoneKey_of_replayable (h : d.replayable = true) : tombstoneKey env d = none := by
  simp [tombstoneKey, isTerminalTombstone, h]

/-- A dead letter that had no key becomes permanent. -/
theorem LineageExact.writePermanent (henv : env.SegmentsEncode) (h : s.LineageExact env)
    {key : DueIndexKey} (hd : s.deadById[key.deliveryId]? = some d) (hreplayable : d.replayable = true)
    (dead : DeadRecord) (hid : dead.deliveryId = d.deliveryId) (hrecord : dead.record = none) :
    (s.writePermanent env key dead).LineageExact env ∧
      (s.writePermanent env key dead).lives = s.lives := by
  have hdropped := LineageOf.dropDead h hd (tombstoneKey_of_replayable hreplayable)
  have hdead := hdropped.insertDead (s := (s.removeDeadDue key.key).insertDead key.deliveryId dead) henv
    (Function.update_self _ _ _) (hid.trans (h.deadIds hd)) (fun r hr => by rw [hrecord] at hr; cases hr)
  rw [Function.update_idem] at hdead
  have hlives : (s.writePermanent env key dead).lives = s.lives := by simp [Store.writePermanent]
  exact ⟨.mk hdead hlives (by simp [Store.writePermanent]) rfl, hlives⟩

theorem LineageExact.redriveExhausted (henv : env.SegmentsEncode) (h : s.LineageExact env)
    {key : DueIndexKey} (hd : s.deadById[key.deliveryId]? = some d) (hreplayable : d.replayable = true)
    {record : DeliveryRecord} (hid : record.deliveryId = key.deliveryId) {nowMs : UInt64}
    {dead : DeadRecord} (hrun : s.redriveExhausted env key d record nowMs = .ok (s', dead)) :
    s'.LineageExact env := by
  have hpermanent := fun keyed => h.writePermanent henv hd hreplayable (d.permanently keyed) rfl rfl
  unfold Store.redriveExhausted at hrun
  dsimp only at hrun
  split at hrun
  · rename_i followUp hfollowUp
    obtain ⟨rfl, _⟩ := Prod.mk.inj (Except.ok.inj hrun)
    split at hfollowUp
    · rename_i hnone
      have hnone : s.lives key.deliveryId = none := Option.isNone_iff_eq_none.1 hnone
      refine insertRow_lineage henv ?_ ((liveKey_prepareDirtyFollowUp hfollowUp).trans hid)
      rw [Function.update_eq_self_iff.2 (by rw [(hpermanent _).2, hnone])]
      exact (hpermanent _).1
    · cases hfollowUp
  · split at hrun
    · obtain ⟨s₁, hs₁, hrun⟩ := Checks.bind_eq_ok.1 hrun
      obtain ⟨rfl, _⟩ := Prod.mk.inj (Except.ok.inj hrun)
      obtain ⟨hlives, hdeads, htable⟩ := suppressTerminalDelivery_lineage hs₁
      exact (hpermanent _).1.of_eq _ hlives hdeads htable
    · obtain ⟨rfl, _⟩ := Prod.mk.inj (Except.ok.inj hrun)
      exact (hpermanent _).1

theorem LineageExact.redriveCollision (henv : env.SegmentsEncode) (h : s.LineageExact env)
    {key : DueIndexKey} (hd : s.deadById[key.deliveryId]? = some d) (hreplayable : d.replayable = true)
    {record live : DeliveryRecord} {dead : DeadRecord}
    (hrun : s.redriveCollision env key d record live = .ok (s', dead)) : s'.LineageExact env := by
  unfold Store.redriveCollision at hrun
  dsimp only at hrun
  obtain ⟨hexact, _⟩ := h.writePermanent henv hd hreplayable
    { d.permanently (record.collapseByDedupId && live.collapseByDedupId) with
      errorExcerpt := some (errorExcerpt "redrive collision with live delivery") } rfl rfl
  split at hrun
  · obtain ⟨s₁, hs₁, hrun⟩ := Checks.bind_eq_ok.1 hrun
    obtain ⟨rfl, _⟩ := Prod.mk.inj (Except.ok.inj hrun)
    obtain ⟨hlives, hdeads, htable⟩ := suppressTerminalDelivery_lineage hs₁
    exact hexact.of_eq _ hlives hdeads htable
  · obtain ⟨rfl, _⟩ := Prod.mk.inj (Except.ok.inj hrun)
    exact hexact

theorem LineageExact.redriveRow (henv : env.SegmentsEncode) (h : s.LineageExact env)
    {key : DueIndexKey} (hd : s.deadById[key.deliveryId]? = some d)
    (hnone : s.deliveryById[key.deliveryId]? = none) {record : DeliveryRecord}
    (hid : record.deliveryId = key.deliveryId) :
    (s.redriveRow env key d record).LineageExact env := by
  have hremoved := LineageOf.removeDead (s := (s.removeDeadDue key.key).insertDelivery key.deliveryId
    record) henv h hd
  have hnew := hremoved.insertLive henv hnone hid
  exact .mk hnew (by simp [Store.redriveRow]) (by simp [Store.redriveRow]) rfl

theorem deliveryId_redriveRecord {m : Option (Table String String)} {record record' : DeliveryRecord}
    (h : redriveRecord m d record = some record') : record'.deliveryId = record.deliveryId := by
  unfold redriveRecord at h
  split at h
  · split at h
    · cases h
    · split at h
      · cases h
      · obtain rfl := Option.some.inj h
        rfl
  · obtain rfl := Option.some.inj h
    rfl

theorem LineageExact.redriveKey (henv : env.SegmentsEncode) {policy : RedrivePolicy}
    {m : Option (Table String String)} {nowMs : UInt64} {loop loop' : RedriveLoop} {key : DueIndexKey}
    (h : loop.store.LineageExact env)
    (hrun : redriveKey env policy m nowMs loop key = .ok loop') : loop'.store.LineageExact env := by
  unfold Store.redriveKey at hrun
  dsimp only at hrun
  split at hrun
  · obtain rfl := Except.ok.inj hrun
    exact h.of_eq _ rfl rfl rfl
  · rename_i dead hdead
    split at hrun
    · obtain rfl := Except.ok.inj hrun
      simp only [RedriveLoop.changed, redriveStaleKey]
      split
      · exact h.of_eq _ rfl rfl rfl
      · exact h.of_eq _ rfl rfl rfl
    · split at hrun
      · obtain rfl := Except.ok.inj hrun
        exact h
      · split at hrun
        · obtain rfl := Except.ok.inj hrun
          exact h.of_eq _ rfl rfl rfl
        · rename_i hlive
          have hreplayable : dead.replayable = true := by
            simp only [Bool.or_eq_true, Bool.not_eq_true', not_or, Bool.not_eq_false] at hlive
            exact hlive.2
          split at hrun
          · rename_i hrecord
            obtain ⟨s₁, hs₁, hrun⟩ := Checks.bind_eq_ok.1 hrun
            obtain rfl := Except.ok.inj hrun
            obtain ⟨hexact, _⟩ := h.writePermanent henv hdead hreplayable
              { dead with permanent := true, replayable := false } rfl hrecord
            obtain ⟨hlives, hdeads, htable⟩ := suppressTerminalDelivery_lineage hs₁
            exact hexact.of_eq _ hlives hdeads htable
          · rename_i record hrecord
            have hown : record.deliveryId = key.deliveryId := h.recordIds hdead hrecord
            split at hrun
            · obtain rfl := Except.ok.inj hrun
              exact h
            · rename_i record' hrecord'
              have hown' := (deliveryId_redriveRecord hrecord').trans hown
              unfold redriveDue at hrun
              dsimp only at hrun
              split at hrun
              · obtain ⟨⟨s₁, d₁⟩, hs₁, hrun⟩ := Checks.bind_eq_ok.1 hrun
                obtain rfl := Except.ok.inj hrun
                exact h.redriveExhausted henv hdead hreplayable hown' hs₁
              · split at hrun
                · obtain ⟨⟨s₁, d₁⟩, hs₁, hrun⟩ := Checks.bind_eq_ok.1 hrun
                  obtain rfl := Except.ok.inj hrun
                  exact h.redriveCollision henv hdead hreplayable hs₁
                · rename_i hnone
                  obtain rfl := Except.ok.inj hrun
                  have hown'' : (record'.redriven dead nowMs).deliveryId = key.deliveryId := hown'
                  exact h.redriveRow henv hdead hnone hown''

theorem redriveKeys_lineage (henv : env.SegmentsEncode) (policy : RedrivePolicy)
    (m : Option (Table String String)) (nowMs : UInt64) :
    ∀ {keys : List DueIndexKey} {loop loop' : RedriveLoop}, loop.store.LineageExact env →
      redriveKeys env policy m nowMs keys loop = .ok loop' → loop'.store.LineageExact env
  | [], _, _, h, hrun => by
    obtain rfl := Except.ok.inj hrun
    exact h
  | key :: keys, loop, loop', h, hrun => by
    rw [redriveKeys] at hrun
    obtain ⟨loop₁, hkey, hrun⟩ := Checks.bind_eq_ok.1 hrun
    exact redriveKeys_lineage henv policy m nowMs (LineageExact.redriveKey henv h hkey) hrun

theorem LineageExact.redrive (henv : env.SegmentsEncode) (h : s.LineageExact env)
    {policy : RedrivePolicy} {m : Option (Table String String)} {nowMs : UInt64}
    {keys : List DueIndexKey} {result : RedriveResult}
    (hrun : s.redriveDueInner env policy m nowMs keys = .ok (s', result)) : s'.LineageExact env := by
  unfold redriveDueInner at hrun
  obtain ⟨loop, hkeys, hrun⟩ := Checks.bind_eq_ok.1 hrun
  obtain ⟨⟨s₁, n⟩, hcompact, hrun⟩ := Checks.bind_eq_ok.1 hrun
  have hstart : (⟨s, ⟨[], []⟩, false⟩ : RedriveLoop).store.LineageExact env := h
  have hloop := redriveKeys_lineage henv policy m nowMs hstart hkeys
  dsimp only at hrun
  split at hrun
  · obtain ⟨rfl, _⟩ := Prod.mk.inj (Except.ok.inj hrun)
    exact (hloop.compact henv hcompact).1
  · obtain ⟨rfl, _⟩ := Prod.mk.inj (Except.ok.inj hrun)
    exact h

/-! ### Runs -/

/-- **Every transaction keeps the lineage index exact.** -/
theorem LineageExact.commit (henv : env.SegmentsEncode) (hs : s.Inv) (h : s.LineageExact env) {t : Txn}
    {reply : Reply} (hcommit : s.commit env t = .ok (s', reply)) : s'.LineageExact env := by
  cases t with
  | enqueue record =>
    obtain ⟨outcome, rfl, hrun⟩ := commit_enqueue hcommit
    exact h.enqueue henv hrun
  | rebind currentDeptByQueue =>
    obtain ⟨rfl, rfl⟩ := Prod.mk.inj (Except.ok.inj hcommit)
    obtain ⟨hrows, hne⟩ := rebindCandidates_spec s currentDeptByQueue
    exact rebindRows_lineage henv h hrows hne
  | sweep queues nowMs budget candidates =>
    obtain ⟨sweep, rfl, hrun⟩ := commit_sweep hcommit
    exact h.sweep henv hrun
  | renew renewals leaseUntilMs =>
    obtain ⟨rfl, rfl⟩ := Prod.mk.inj (Except.ok.inj hcommit)
    exact h.renew renewals leaseUntilMs
  | lease nowMs batchLimit leaseDur dept excluded expired ready =>
    obtain ⟨rfl, rfl⟩ := Prod.mk.inj (Except.ok.inj hcommit)
    exact h.lease ⟨nowMs, batchLimit, leaseDur, dept, excluded, expired, ready⟩
  | leaseDelivery id nowMs leaseDur =>
    obtain ⟨rfl, rfl⟩ := Prod.mk.inj (Except.ok.inj hcommit)
    exact h.leaseDelivery id nowMs leaseDur
  | ack id g =>
    obtain ⟨rfl, rfl⟩ := Prod.mk.inj (Except.ok.inj hcommit)
    exact h.ack henv id g
  | deferLockBusy id g lock policy nowMs =>
    obtain ⟨rfl, rfl⟩ := Prod.mk.inj (Except.ok.inj hcommit)
    exact h.deferLockBusy henv id g lock policy nowMs
  | retry id g failure policy nowMs =>
    obtain ⟨outcome, rfl, hrun⟩ := commit_retry hcommit
    exact h.retry henv hrun
  | redrive policy m nowMs dueKeys =>
    obtain ⟨result, rfl, hrun⟩ := commit_redrive hcommit
    exact h.redrive henv hrun
  | reopen =>
    rw [Store.commit, open_current env hs.wellFormed.version] at hcommit
    obtain ⟨rfl, rfl⟩ := Prod.mk.inj (Except.ok.inj hcommit)
    exact h

end Store

/-- **The lineage index is exact in every run**, however its calls overlap. -/
theorem World.lineageExact {env : Env} (henv : env.SegmentsEncode) (acts : List Act) :
    (World.init.run env acts).1.store.LineageExact env :=
  (World.run_induction (P := fun s _ => s.LineageExact env)
    (fun _ _ he h => h.commit henv he.inv he.commit) World.inv_init (h := [])
    Store.lineageExact_empty acts).2

end Fkst.Delivery
