import Fkst.Delivery.Store

/-!
# Opening the delivery database

`DeliveryStore::open` and the migrations it runs on a database that an older engine wrote.  Opening
a database of the current schema changes nothing in it (`Store.open_current`).

Two tables of older engines, `ready_by_due` and `leased_by_until`, are deleted and never read, and
so is the filter `terminal_suppression_filter`; they are left out.
-/

set_option autoImplicit false

namespace Fkst.Delivery

open Lib

namespace Store

/-- `rebuild_due_indexes`. -/
def rebuildDueIndexes (s : Store) : Store :=
  s.deliveryById.toList.foldl
    (fun s (_, record) =>
      match record.leaseUntilMs with
      | some leaseUntil =>
        s.insertLeased (makeIndexKey record.dept leaseUntil record.deliveryId)
      | none => s.insertReady (makeIndexKey record.dept record.notBeforeMs record.deliveryId))
    { s with readyByDeptDue := ∅, leasedByDeptUntil := ∅ }

/-- `mark_existing_dead_records_permanent`. -/
def markExistingDeadRecordsPermanent (s : Store) : Store :=
  s.deadById.toList.foldl
    (fun s (id, dead) =>
      s.insertDead id { dead with permanent := true, replayable := false, record := none }) s

/-- `rebuild_dead_due_index`. -/
def rebuildDeadDueIndex (s : Store) : Store :=
  s.deadById.toList.foldl
    (fun s (id, dead) =>
      if shouldIndexDeadRecord dead then
        s.insertDeadDue (makeDeadDueIndexKey dead.dept dead.deadAtMs id)
      else s)
    { s with deadByDeptDue := ∅ }

/-- `rebuild_dead_time_index`. -/
def rebuildDeadTimeIndex (s : Store) : Store :=
  s.deadById.toList.foldl
    (fun s (id, dead) => s.insertDeadTime (makeDeadTimeIndexKey dead.deadAtMs id))
    { s with deadByTime := ∅ }

/-- The loop body of `rebuild_terminal_dead_tables`. -/
def rebuildTerminalDeadRow (previousSchemaVersion : Option ℕ) (s : Store) (id : String)
    (dead : DeadRecord) : Except StoreError Store :=
  if isTerminalDeadRecord dead then do
    let s := s.insertTerminal (makeDeadDueIndexKey dead.dept dead.deadAtMs id)
    let liveKeyedFollowUp := s.deliveryById[id]?.any (·.collapseByDedupId)
    let schemaV11KeyedReuse :=
      previousSchemaVersion == some 11 && !s.terminalDeliveryIsSuppressed id
    if (liveKeyedFollowUp || schemaV11KeyedReuse) && !dead.allowsKeyedReuse then
      return s.insertDead id { dead with allowsKeyedReuse := true }
    else if !dead.allowsKeyedReuse then s.suppressTerminalDelivery id
    else return s
  else .ok s

/-- `rebuild_terminal_dead_tables`. -/
def rebuildTerminalDeadTables (s : Store) (previousSchemaVersion : Option ℕ) :
    Except StoreError Store :=
  s.deadById.toList.foldlM
    (fun s (id, dead) => rebuildTerminalDeadRow previousSchemaVersion s id dead)
    { s with terminalDeadByTime := ∅ }

/-- `import_legacy_terminal_suppressed_ids` and `drop_legacy_terminal_suppressed_table`. -/
def importLegacyTerminalSuppressedIds (s : Store) : Except StoreError Store := do
  let ids := match s.terminalSuppressedById with
    | some table => table.toList.map Prod.fst
    | none => []
  let s ← ids.foldlM suppressTerminalDelivery s
  return { s with terminalSuppressedById := none }

/-- `rebuild_lineage_index`. -/
def rebuildLineageIndex (env : Env) (s : Store) : Store :=
  let s := s.deliveryById.toList.foldl
    (fun s (_, record) => s.insertDeliveryLineageIndex env record) { s with lineageBySource := ∅ }
  s.deadById.toList.foldl (fun s (_, dead) => s.insertDeadLineageIndex env dead) s

/-- The migration of a database that was not written by this version. -/
def migrate (env : Env) (s : Store) (currentSchemaVersion : Option ℕ) :
    Except StoreError Store := do
  let s := s.rebuildDueIndexes
  let s :=
    match currentSchemaVersion with
    | some version => if version < 3 then s.markExistingDeadRecordsPermanent else s
    | none => s.markExistingDeadRecordsPermanent
  let s := s.rebuildDeadDueIndex.rebuildDeadTimeIndex
  let s ← s.rebuildTerminalDeadTables currentSchemaVersion
  let s ← s.importLegacyTerminalSuppressedIds
  return s.rebuildLineageIndex env

/-- The tables `open` leaves, once it has accepted the version. -/
def upgrade (env : Env) (s : Store) (currentVersion : Option String)
    (currentSchemaVersion : Option ℕ) : Except StoreError Store :=
  if currentVersion = some schemaVersion then .ok s
  else
    let s := if currentVersion = some "1" then { s with deadById := ∅ } else s
    s.migrate env currentSchemaVersion

/-- `DeliveryStore::open`, on the content the database file has. -/
def «open» (env : Env) (s : Store) : Except StoreError Store :=
  let currentVersion := s.metaTable["schema_version"]?
  let currentSchemaVersion := currentVersion.bind fun version => parseU32 version.toList
  if currentSchemaVersion.any (12 < ·) then
    .error (.schemaNewer (currentVersion.getD "unknown") schemaVersion)
  else do
    let s ← s.upgrade env currentVersion currentSchemaVersion
    return { s with metaTable := s.metaTable.insert "schema_version" schemaVersion }

/-- **Reopening a database of the current schema changes nothing.** -/
theorem open_current (env : Env) {s : Store}
    (h : s.metaTable["schema_version"]? = some schemaVersion) : s.«open» env = .ok s := by
  have hparse : parseU32 schemaVersion.toList = some 12 := by decide
  have hmeta : s.metaTable.insert "schema_version" schemaVersion = s.metaTable := by
    refine Std.ExtTreeMap.ext_getElem? fun k => ?_
    rw [Table.get_insert]
    split
    · rename_i hk
      rw [hk, h]
    · rfl
  have hupgrade : s.upgrade env (some schemaVersion) (some 12) = .ok s := by
    rw [upgrade, if_pos rfl]
  simp only [«open», h, Option.bind_some, hparse, hupgrade]
  rw [if_neg (by decide)]
  simp only [bind, Except.bind, hmeta]
  rfl

end Store

end Fkst.Delivery
