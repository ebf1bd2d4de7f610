import Fkst.Delivery.Index
import Fkst.Delivery.Retry
import Fkst.Lib.Probing
import Mathlib.Data.Nat.ModEq

/-!
# The tables of the delivery store

The `redb` database of `delivery_store.rs`, one field for each table, and the helpers below the
public operations: the terminal suppression table, the lineage index, and the compaction of old
terminal dead rows.  A table that holds serialized records holds the records themselves here.

The writes of single tables have names of their own (`insertReady`, `removeLeased`, …).  They are
the lines of the source, and every operation is a sequence of them.
-/

set_option autoImplicit false

namespace Fkst.Delivery

open Lib

/-- `SCHEMA_VERSION`. -/
def schemaVersion : String := "12"

/-- `TERMINAL_DEAD_RETENTION_MS`. -/
def terminalDeadRetentionMs : UInt64 := 24 * 60 * 60 * 1000

/-- `TERMINAL_DEAD_COMPACTION_LIMIT`. -/
def terminalDeadCompactionLimit : ℕ := 1024

/-- `TERMINAL_SUPPRESSION_SLOTS`. -/
def terminalSuppressionSlots : ℕ := 16777216

/-- `SUBSCRIBER_ABSENT_DEAD_REASON`. -/
def subscriberAbsentDeadReason : String := "subscriber-absent"

/-- The delivery database. -/
structure Store where
  /-- `DELIVERY_BY_ID`. -/
  deliveryById : Table String DeliveryRecord
  /-- `READY_BY_DEPT_DUE`. -/
  readyByDeptDue : Table String Unit
  /-- `LEASED_BY_DEPT_UNTIL`. -/
  leasedByDeptUntil : Table String Unit
  /-- `DEAD_BY_ID`. -/
  deadById : Table String DeadRecord
  /-- `DEAD_BY_TIME`. -/
  deadByTime : Table String Unit
  /-- `DEAD_BY_DEPT_DUE`. -/
  deadByDeptDue : Table String Unit
  /-- `TERMINAL_DEAD_BY_TIME`. -/
  terminalDeadByTime : Table String Unit
  /-- `TERMINAL_SUPPRESSION_BY_SLOT`. -/
  terminalSuppressionBySlot : Table String String
  /-- `LINEAGE_BY_SOURCE`. -/
  lineageBySource : Table String String
  /-- `TERMINAL_SUPPRESSED_BY_ID`, a table of older engines that may be absent. -/
  terminalSuppressedById : Option (Table String Unit)
  /-- `META`. -/
  metaTable : Table String String

namespace Store

/-- What `open` leaves behind in a fresh file. -/
def empty : Store where
  deliveryById := ∅
  readyByDeptDue := ∅
  leasedByDeptUntil := ∅
  deadById := ∅
  deadByTime := ∅
  deadByDeptDue := ∅
  terminalDeadByTime := ∅
  terminalSuppressionBySlot := ∅
  lineageBySource := ∅
  terminalSuppressedById := none
  metaTable := (∅ : Table String String).insert "schema_version" schemaVersion

/-! ## Writes of single tables -/

def insertDelivery (s : Store) (id : String) (record : DeliveryRecord) : Store :=
  { s with deliveryById := s.deliveryById.insert id record }

def removeDelivery (s : Store) (id : String) : Store :=
  { s with deliveryById := s.deliveryById.erase id }

def insertReady (s : Store) (key : String) : Store :=
  { s with readyByDeptDue := s.readyByDeptDue.insert key () }

def removeReady (s : Store) (key : String) : Store :=
  { s with readyByDeptDue := s.readyByDeptDue.erase key }

def insertLeased (s : Store) (key : String) : Store :=
  { s with leasedByDeptUntil := s.leasedByDeptUntil.insert key () }

def removeLeased (s : Store) (key : String) : Store :=
  { s with leasedByDeptUntil := s.leasedByDeptUntil.erase key }

def insertDead (s : Store) (id : String) (dead : DeadRecord) : Store :=
  { s with deadById := s.deadById.insert id dead }

def removeDead (s : Store) (id : String) : Store :=
  { s with deadById := s.deadById.erase id }

def insertDeadTime (s : Store) (key : String) : Store :=
  { s with deadByTime := s.deadByTime.insert key () }

def removeDeadTime (s : Store) (key : String) : Store :=
  { s with deadByTime := s.deadByTime.erase key }

def insertDeadDue (s : Store) (key : String) : Store :=
  { s with deadByDeptDue := s.deadByDeptDue.insert key () }

def removeDeadDue (s : Store) (key : String) : Store :=
  { s with deadByDeptDue := s.deadByDeptDue.erase key }

def insertTerminal (s : Store) (key : String) : Store :=
  { s with terminalDeadByTime := s.terminalDeadByTime.insert key () }

def removeTerminal (s : Store) (key : String) : Store :=
  { s with terminalDeadByTime := s.terminalDeadByTime.erase key }

end Store

/-! ## Predicates on dead records -/

/-- `should_index_dead_record`. -/
def shouldIndexDeadRecord (record : DeadRecord) : Bool :=
  !record.permanent && record.replayable && record.record.isSome

/-- `is_terminal_dead_record`. -/
def isTerminalDeadRecord (record : DeadRecord) : Bool := record.permanent || !record.replayable

/-- `is_terminal_tombstone`. -/
def isTerminalTombstone (record : DeadRecord) : Bool :=
  !record.deliveryId.isEmpty && 1 ≤ record.attempts && record.permanent && !record.replayable

/-- `dead_redrive_cooldown_elapsed`. -/
def deadRedriveCooldownElapsed (deadAtMs cooldownMs nowMs : UInt64) : Bool :=
  saturatingAdd deadAtMs cooldownMs ≤ nowMs

/-- `subscriber_absence_budget_elapsed`. -/
def subscriberAbsenceBudgetElapsed (absentSinceMs budgetMs nowMs : UInt64) : Bool :=
  saturatingAdd absentSinceMs budgetMs ≤ nowMs

/-- `is_subscriber_absent_dead_record`. -/
def isSubscriberAbsentDeadRecord (dead : DeadRecord) : Bool :=
  dead.errorExcerpt == some subscriberAbsentDeadReason &&
    dead.record.any (·.subscriberAbsentSinceMs.isSome)

/-! ## The lineage index -/

/-- `source_kind_key` of the store. -/
def sourceKindKey : SourceKind → String
  | .file => "file"
  | .cron => "cron"
  | .git => "git"
  | .external => "external"

/-- `encode_lineage_segment`. -/
def encodeLineageSegment (env : Env) (value : String) : String := env.base64Url (strBytes value)

/-- `encode_ordered_lineage_id`: two lowercase hexadecimal digits a byte. -/
def encodeOrderedLineageId (value : String) : String :=
  String.ofList ((strBytes value).flatMap fun b => Text.digits Nat.digitChar 16 2 b.toNat)

/-- `lineage_index_prefix`. -/
def lineageIndexPrefix (env : Env) (queue dept : String) (source : SourceRef)
    (recordKind : String) : String :=
  "v1/queue/" ++ encodeLineageSegment env queue ++ "/dept/" ++ encodeLineageSegment env dept ++
    "/source/" ++ sourceKindKey source.kind ++ "/" ++ encodeLineageSegment env source.reference ++
    "/" ++ recordKind ++ "/"

/-- `lineage_index_key`. -/
def lineageIndexKey (env : Env) (queue dept : String) (source : SourceRef) (recordKind : String)
    (sortMs : UInt64) (deliveryId : String) : String :=
  lineageIndexPrefix env queue dept source recordKind ++ "at/" ++ String.ofList (padded20 sortMs) ++
    "/id/" ++ encodeOrderedLineageId deliveryId

/-- The lineage key of a live delivery. -/
def deliveryLineageKey (env : Env) (record : DeliveryRecord) (source : SourceRef) : String :=
  lineageIndexKey env record.queue record.dept source "live" record.notBeforeMs record.deliveryId

/-- The lineage key of a terminal tombstone. -/
def deadLineageKey (env : Env) (record : DeadRecord) (source : SourceRef) : String :=
  lineageIndexKey env record.queue record.dept source "terminal" record.deadAtMs record.deliveryId

namespace Store

/-- `insert_delivery_lineage_index`. -/
def insertDeliveryLineageIndex (env : Env) (s : Store) (record : DeliveryRecord) : Store :=
  match record.source with
  | none => s
  | some source =>
    { s with
      lineageBySource :=
        s.lineageBySource.insert (deliveryLineageKey env record source) record.deliveryId }

/-- `remove_delivery_lineage_index`. -/
def removeDeliveryLineageIndex (env : Env) (s : Store) (record : DeliveryRecord) : Store :=
  match record.source with
  | none => s
  | some source =>
    { s with lineageBySource := s.lineageBySource.erase (deliveryLineageKey env record source) }

/-- `insert_dead_lineage_index`. -/
def insertDeadLineageIndex (env : Env) (s : Store) (record : DeadRecord) : Store :=
  if !isTerminalTombstone record then s
  else match record.source with
    | none => s
    | some source =>
      { s with
        lineageBySource :=
          s.lineageBySource.insert (deadLineageKey env record source) record.deliveryId }

/-- `remove_dead_lineage_index`. -/
def removeDeadLineageIndex (env : Env) (s : Store) (record : DeadRecord) : Store :=
  if !isTerminalTombstone record then s
  else match record.source with
    | none => s
    | some source =>
      { s with lineageBySource := s.lineageBySource.erase (deadLineageKey env record source) }

end Store

/-! ## Terminal suppression -/

/-- `fnv1a64`. -/
def fnv1a64 (seed : UInt64) (bytes : List UInt8) : UInt64 :=
  bytes.foldl (fun hash byte => (hash ^^^ byte.toUInt64) * 0x100000001b3) seed

/-- `terminal_suppression_hash`. -/
def terminalSuppressionHash (deliveryId : String) : UInt64 :=
  fnv1a64 0xcbf29ce484222325 (strBytes deliveryId)

/-- `terminal_suppression_slot_key`, `{slot:05x}`: at least five lowercase hexadecimal digits, and
six for the slots that need them. -/
def terminalSuppressionSlotKey (slot : ℕ) : String :=
  String.ofList (Text.digits Nat.digitChar 16 (if slot < 16 ^ 5 then 5 else 6) slot)

/-- `terminal_suppression_probe_keys`: the slot tried at an offset. -/
def terminalSuppressionProbeKey (deliveryId : String) (offset : ℕ) : String :=
  let start := (terminalSuppressionHash deliveryId).toNat % terminalSuppressionSlots
  terminalSuppressionSlotKey ((start + offset) % terminalSuppressionSlots)

/-- `suppress_terminal_delivery_in_table`. -/
def suppressTerminalDeliveryInTable (suppression : Table String String) (deliveryId : String) :
    Except StoreError (Table String String) :=
  match Probing.place (suppression[·]?) (terminalSuppressionProbeKey deliveryId) deliveryId
      terminalSuppressionSlots 0 with
  | some .present => .ok suppression
  | some (.free slot) => .ok (suppression.insert slot deliveryId)
  | none => .error (.suppressionExhausted deliveryId)

/-- `terminal_delivery_is_suppressed_in_table`. -/
def terminalDeliveryIsSuppressedInTable (table : Table String String) (deliveryId : String) :
    Bool :=
  Probing.find (table[·]?) (terminalSuppressionProbeKey deliveryId) deliveryId
    terminalSuppressionSlots 0

/-- Two slots have two keys: a key of five digits is none of six. -/
theorem terminalSuppressionSlotKey_inj {n m : ℕ} (hn : n < terminalSuppressionSlots)
    (hm : m < terminalSuppressionSlots)
    (h : terminalSuppressionSlotKey n = terminalSuppressionSlotKey m) : n = m := by
  have hslots : terminalSuppressionSlots = 16 ^ 6 := rfl
  have h := congrArg String.toList h
  simp only [terminalSuppressionSlotKey, String.toList_ofList] at h
  have hlen := congrArg List.length h
  rw [Text.length_digits, Text.length_digits] at hlen
  split at hlen <;> split at hlen
  · rename_i h1 h2
    rw [if_pos h1, if_pos h2] at h
    exact Text.digits_injOn (by decide) Text.digitChar_inj_sixteen h1 h2 h
  · cases hlen
  · cases hlen
  · rename_i h1 h2
    rw [if_neg h1, if_neg h2] at h
    exact Text.digits_injOn (by decide) Text.digitChar_inj_sixteen (hslots ▸ hn) (hslots ▸ hm) h

/-- A probe sequence does not come back to a slot. -/
theorem terminalSuppressionProbeKey_inj (id : String) (o o' : ℕ)
    (ho : o < terminalSuppressionSlots) (ho' : o' < terminalSuppressionSlots)
    (h : terminalSuppressionProbeKey id o = terminalSuppressionProbeKey id o') : o = o' := by
  have hpos : 0 < terminalSuppressionSlots := by decide
  have h := terminalSuppressionSlotKey_inj (Nat.mod_lt _ hpos) (Nat.mod_lt _ hpos) h
  have hmod : o % terminalSuppressionSlots = o' % terminalSuppressionSlots :=
    Nat.ModEq.add_left_cancel' _ h
  rwa [Nat.mod_eq_of_lt ho, Nat.mod_eq_of_lt ho'] at hmod

/-- The suppression table has no gaps on a probe sequence before a stored id. -/
def SuppressionNoGap (table : Table String String) : Prop :=
  Probing.NoGap (table[·]?) terminalSuppressionProbeKey terminalSuppressionSlots

theorem suppressionNoGap_empty : SuppressionNoGap ∅ := by
  intro k o _ hk
  simp at hk

/-- **Suppressing an id suppresses it and no other.** -/
theorem suppressTerminalDeliveryInTable_eq_ok {table table' : Table String String} {id : String}
    (hgap : SuppressionNoGap table) (h : suppressTerminalDeliveryInTable table id = .ok table') :
    SuppressionNoGap table' ∧ ∀ j, terminalDeliveryIsSuppressedInTable table' j = true ↔
      j = id ∨ terminalDeliveryIsSuppressedInTable table j = true := by
  simp only [suppressTerminalDeliveryInTable] at h
  split at h
  · rename_i hplace
    obtain rfl := Except.ok.inj h
    refine ⟨hgap, fun j => ⟨Or.inr, ?_⟩⟩
    rintro (rfl | hj)
    · obtain ⟨o, ho, hk⟩ := Probing.stored_of_place_present _ _ hplace
      exact (Probing.find_iff hgap j).2 ⟨o, by omega, hk⟩
    · exact hj
  · rename_i slot hplace
    obtain rfl := Except.ok.inj h
    have hT : ∀ t, (table.insert slot id)[t]? = if t = slot then some id else table[t]? :=
      fun t => Table.get_insert table slot t id
    have hgap' := hgap.insert (terminalSuppressionProbeKey_inj id) hplace hT
    refine ⟨hgap', fun j => ?_⟩
    rw [terminalDeliveryIsSuppressedInTable, Probing.find_iff hgap',
      Probing.stored_insert hplace hT, terminalDeliveryIsSuppressedInTable, Probing.find_iff hgap]
  · cases h

namespace Store

/-- `suppress_terminal_delivery`. -/
def suppressTerminalDelivery (s : Store) (deliveryId : String) : Except StoreError Store := do
  let table ← suppressTerminalDeliveryInTable s.terminalSuppressionBySlot deliveryId
  return { s with terminalSuppressionBySlot := table }

/-- `terminal_delivery_is_suppressed`. -/
def terminalDeliveryIsSuppressed (s : Store) (deliveryId : String) : Bool :=
  terminalDeliveryIsSuppressedInTable s.terminalSuppressionBySlot deliveryId

/-! ## Compaction of terminal dead rows -/

/-- Where the dead keys up to a time end. -/
def deadRangeStop (cutoffMs : UInt64) : String :=
  String.ofList (padded20 cutoffMs) ++ "/" ++ String.ofList [lastChar]

/-- Where the dead keys start. -/
def deadRangeStart : String := String.ofList (padded20 0) ++ "/"

/-- `collect_compactable_terminal_dead_keys`. -/
def collectCompactableTerminalDeadKeys (s : Store) (cutoffMs : UInt64) :
    Except StoreError (List DueIndexKey) :=
  parseKeys parseDeadDueIndexKey
    ((Table.range s.terminalDeadByTime deadRangeStart (deadRangeStop cutoffMs)).take
      terminalDeadCompactionLimit)

/-- The removal of one dead row in `compact_terminal_dead_records`. -/
def compactRow (env : Env) (s : Store) (key : DueIndexKey) (record : DeadRecord) : Store :=
  let s := s.removeDeadLineageIndex env record
  let s := s.removeDead key.deliveryId
  let s := s.removeDeadTime (makeDeadTimeIndexKey record.deadAtMs key.deliveryId)
  let s := s.removeTerminal key.key
  s.removeDeadDue (makeDeadDueIndexKey record.dept record.deadAtMs key.deliveryId)

/-- The loop of `compact_terminal_dead_records`, with the number of keys dealt with so far. -/
def compactKeys (env : Env) (cutoffMs : UInt64) :
    List DueIndexKey → Store → ℕ → Except StoreError (Store × ℕ)
  | [], s, compacted => .ok (s, compacted)
  | key :: keys, s, compacted =>
    match s.deadById[key.deliveryId]? with
    | none =>
      -- a terminal key without a row
      let s := s.removeTerminal key.key
      let s := s.removeDeadTime (makeDeadTimeIndexKey key.dueMs key.deliveryId)
      compactKeys env cutoffMs keys s (compacted + 1)
    | some record =>
      if record.deadAtMs ≠ key.dueMs ∨ !isTerminalDeadRecord record then do
        -- a terminal key of an older row under the same id
        let s := s.removeTerminal key.key
        let s := s.removeDeadTime (makeDeadTimeIndexKey key.dueMs key.deliveryId)
        let s := s.insertDeadTime (makeDeadTimeIndexKey record.deadAtMs key.deliveryId)
        let s ←
          if isTerminalDeadRecord record then do
            let s := s.insertTerminal
              (makeDeadDueIndexKey record.dept record.deadAtMs key.deliveryId)
            if !record.allowsKeyedReuse then s.suppressTerminalDelivery key.deliveryId else pure s
          else pure s
        compactKeys env cutoffMs keys s (compacted + 1)
      else if cutoffMs < record.deadAtMs then .ok (s, compacted)
      else
        compactKeys env cutoffMs keys (s.compactRow env key record) (compacted + 1)

/-- `compact_terminal_dead_records`. -/
def compactTerminalDeadRecords (env : Env) (s : Store) (nowMs : UInt64) :
    Except StoreError (Store × ℕ) :=
  match checkedSub nowMs terminalDeadRetentionMs with
  | none => .ok (s, 0)
  | some cutoffMs => do
    let keys ← s.collectCompactableTerminalDeadKeys cutoffMs
    compactKeys env cutoffMs keys s 0

end Store

end Fkst.Delivery
