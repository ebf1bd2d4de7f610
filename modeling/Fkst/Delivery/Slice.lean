import Fkst.Delivery.Store
import Fkst.Lib.SecondaryIndex

/-!
# The tables as one delivery sees them

Every table of the store that matters for what becomes of a delivery is keyed by its id, or by keys
that name it.  `Store.slice s id` collects what they say about one id: its live row, its dead row,
its keys in the five indexes, and whether it is suppressed.  A line of an operation that works on
one delivery changes the slice of that delivery and leaves those of all others alone, and this is
proved here once for each kind of line; `Touches id s s'` says it of any sequence of lines.

A slice without its index keys is a `View`.  `Slice.Indexed` says that the keys are as the two rows
demand.  The ready index and the index of dead letters that wait for their redrive are only asked to
be complete: a key that was collected in one transaction and dealt with in a later one may leave
another behind.  `Slice.Clean` says that there is no such leftover.
-/

set_option autoImplicit false

namespace Fkst.Delivery

open Lib

/-! ## Key formats -/

/-- The keys of the ready and the leased index. -/
def dueFormat : KeyFormat String (String × UInt64) String where
  make id p := makeIndexKey p.1 p.2 id
  inj h := by
    obtain ⟨h1, h2, h3⟩ := makeIndexKey_inj h
    exact ⟨h3, Prod.ext h1 h2⟩

/-- The keys of the two dead indexes that name a department. -/
def deadDueFormat : KeyFormat String (String × UInt64) String where
  make id p := makeDeadDueIndexKey p.1 p.2 id
  inj h := by
    obtain ⟨h1, h2, h3⟩ := makeDeadDueIndexKey_inj h
    exact ⟨h3, Prod.ext h1 h2⟩

/-- The keys of the dead index that is sorted by time. -/
def deadTimeFormat : KeyFormat String UInt64 String where
  make id t := makeDeadTimeIndexKey t id
  inj h := by
    obtain ⟨h1, h2⟩ := makeDeadTimeIndexKey_inj h
    exact ⟨h2, h1⟩

/-! ## Slices -/

/-- What becomes of a delivery: its live row, its dead row, and whether its id is suppressed. -/
@[ext] structure View where
  live : Option DeliveryRecord
  dead : Option DeadRecord
  suppressed : Bool

/-- What the tables say about one delivery. -/
@[ext] structure Slice extends View where
  ready : Set (String × UInt64)
  leased : Set (String × UInt64)
  deadTime : Set UInt64
  deadDue : Set (String × UInt64)
  terminal : Set (String × UInt64)

namespace Store

/-- The rows of a delivery. -/
def view (s : Store) (id : String) : View where
  live := s.deliveryById[id]?
  dead := s.deadById[id]?
  suppressed := s.terminalDeliveryIsSuppressed id

/-- The slice of a delivery. -/
def slice (s : Store) (id : String) : Slice where
  toView := s.view id
  ready := dueFormat.entries s.readyByDeptDue id
  leased := dueFormat.entries s.leasedByDeptUntil id
  deadTime := deadTimeFormat.entries s.deadByTime id
  deadDue := deadDueFormat.entries s.deadByDeptDue id
  terminal := deadDueFormat.entries s.terminalDeadByTime id

theorem view_eq_slice (s : Store) (id : String) : s.view id = (s.slice id).toView := rfl

/-- What holds of the tables and is not about a single delivery: the index keys can be read back,
the suppression table has no gaps, and the schema is the current one. -/
structure WellFormed (s : Store) : Prop where
  ready : dueFormat.WellFormed s.readyByDeptDue
  leased : dueFormat.WellFormed s.leasedByDeptUntil
  deadTime : deadTimeFormat.WellFormed s.deadByTime
  deadDue : deadDueFormat.WellFormed s.deadByDeptDue
  terminal : deadDueFormat.WellFormed s.terminalDeadByTime
  suppression : SuppressionNoGap s.terminalSuppressionBySlot
  version : s.metaTable["schema_version"]? = some schemaVersion

theorem wellFormed_empty : WellFormed empty where
  ready := .empty
  leased := .empty
  deadTime := .empty
  deadDue := .empty
  terminal := .empty
  suppression := suppressionNoGap_empty
  version := by simp [empty]

theorem slice_empty (id : String) : slice empty id = ⟨⟨none, none, false⟩, ∅, ∅, ∅, ∅, ∅⟩ := by
  have hsuppressed : terminalDeliveryIsSuppressed empty id = false := by
    change terminalDeliveryIsSuppressedInTable ∅ id = false
    rw [Bool.eq_false_iff, Ne, terminalDeliveryIsSuppressedInTable,
      Probing.find_iff suppressionNoGap_empty]
    rintro ⟨o, _, ho⟩
    simp at ho
  simp [slice, view, hsuppressed]
  simp [empty]

/-! ## Lines of an operation -/

/-- From `s` to `s'` only the tables' entries for `id` changed. -/
structure Touches (id : String) (s s' : Store) : Prop where
  wellFormed : s.WellFormed → s'.WellFormed
  frame : s.WellFormed → ∀ j, j ≠ id → s'.slice j = s.slice j

namespace Touches

variable {id : String} {s s' s'' : Store}

theorem refl (id : String) (s : Store) : Touches id s s := ⟨fun h => h, fun _ _ _ => rfl⟩

theorem trans (h : Touches id s s') (h' : Touches id s' s'') : Touches id s s'' :=
  ⟨fun hw => h'.wellFormed (h.wellFormed hw),
    fun hw j hj => (h'.frame (h.wellFormed hw) j hj).trans (h.frame hw j hj)⟩

end Touches

section Lines

variable (s : Store) (id dept : String) (t : UInt64)

@[simp] theorem slice_insertDelivery (record : DeliveryRecord) :
    (s.insertDelivery id record).slice id = { s.slice id with live := some record } := by
  simp [slice, view, insertDelivery, terminalDeliveryIsSuppressed]

@[simp] theorem slice_removeDelivery :
    (s.removeDelivery id).slice id = { s.slice id with live := none } := by
  simp [slice, view, removeDelivery, terminalDeliveryIsSuppressed]

@[simp] theorem slice_insertDead (dead : DeadRecord) :
    (s.insertDead id dead).slice id = { s.slice id with dead := some dead } := by
  simp [slice, view, insertDead, terminalDeliveryIsSuppressed]

@[simp] theorem slice_removeDead :
    (s.removeDead id).slice id = { s.slice id with dead := none } := by
  simp [slice, view, removeDead, terminalDeliveryIsSuppressed]

@[simp] theorem slice_insertReady :
    (s.insertReady (makeIndexKey dept t id)).slice id =
      { s.slice id with ready := insert (dept, t) (s.slice id).ready } := by
  refine Slice.ext rfl rfl rfl ?_ rfl rfl rfl rfl
  exact dueFormat.entries_insert_self s.readyByDeptDue (dept, t)

@[simp] theorem slice_removeReady :
    (s.removeReady (makeIndexKey dept t id)).slice id =
      { s.slice id with ready := (s.slice id).ready \ {(dept, t)} } := by
  refine Slice.ext rfl rfl rfl ?_ rfl rfl rfl rfl
  exact dueFormat.entries_erase_self s.readyByDeptDue (dept, t)

@[simp] theorem slice_insertLeased :
    (s.insertLeased (makeIndexKey dept t id)).slice id =
      { s.slice id with leased := insert (dept, t) (s.slice id).leased } := by
  refine Slice.ext rfl rfl rfl rfl ?_ rfl rfl rfl
  exact dueFormat.entries_insert_self s.leasedByDeptUntil (dept, t)

@[simp] theorem slice_removeLeased :
    (s.removeLeased (makeIndexKey dept t id)).slice id =
      { s.slice id with leased := (s.slice id).leased \ {(dept, t)} } := by
  refine Slice.ext rfl rfl rfl rfl ?_ rfl rfl rfl
  exact dueFormat.entries_erase_self s.leasedByDeptUntil (dept, t)

@[simp] theorem slice_insertDeadTime :
    (s.insertDeadTime (makeDeadTimeIndexKey t id)).slice id =
      { s.slice id with deadTime := insert t (s.slice id).deadTime } := by
  refine Slice.ext rfl rfl rfl rfl rfl ?_ rfl rfl
  exact deadTimeFormat.entries_insert_self s.deadByTime t

@[simp] theorem slice_removeDeadTime :
    (s.removeDeadTime (makeDeadTimeIndexKey t id)).slice id =
      { s.slice id with deadTime := (s.slice id).deadTime \ {t} } := by
  refine Slice.ext rfl rfl rfl rfl rfl ?_ rfl rfl
  exact deadTimeFormat.entries_erase_self s.deadByTime t

@[simp] theorem slice_insertDeadDue :
    (s.insertDeadDue (makeDeadDueIndexKey dept t id)).slice id =
      { s.slice id with deadDue := insert (dept, t) (s.slice id).deadDue } := by
  refine Slice.ext rfl rfl rfl rfl rfl rfl ?_ rfl
  exact deadDueFormat.entries_insert_self s.deadByDeptDue (dept, t)

@[simp] theorem slice_removeDeadDue :
    (s.removeDeadDue (makeDeadDueIndexKey dept t id)).slice id =
      { s.slice id with deadDue := (s.slice id).deadDue \ {(dept, t)} } := by
  refine Slice.ext rfl rfl rfl rfl rfl rfl ?_ rfl
  exact deadDueFormat.entries_erase_self s.deadByDeptDue (dept, t)

@[simp] theorem slice_insertTerminal :
    (s.insertTerminal (makeDeadDueIndexKey dept t id)).slice id =
      { s.slice id with terminal := insert (dept, t) (s.slice id).terminal } := by
  refine Slice.ext rfl rfl rfl rfl rfl rfl rfl ?_
  exact deadDueFormat.entries_insert_self s.terminalDeadByTime (dept, t)

@[simp] theorem slice_removeTerminal :
    (s.removeTerminal (makeDeadDueIndexKey dept t id)).slice id =
      { s.slice id with terminal := (s.slice id).terminal \ {(dept, t)} } := by
  refine Slice.ext rfl rfl rfl rfl rfl rfl rfl ?_
  exact deadDueFormat.entries_erase_self s.terminalDeadByTime (dept, t)

/-! The lineage index is not part of a slice. -/

@[simp] theorem slice_insertDeliveryLineageIndex (env : Env) (record : DeliveryRecord) (j : String) :
    (s.insertDeliveryLineageIndex env record).slice j = s.slice j := by
  unfold insertDeliveryLineageIndex
  split <;> rfl

@[simp] theorem slice_removeDeliveryLineageIndex (env : Env) (record : DeliveryRecord) (j : String) :
    (s.removeDeliveryLineageIndex env record).slice j = s.slice j := by
  unfold removeDeliveryLineageIndex
  split <;> rfl

@[simp] theorem slice_insertDeadLineageIndex (env : Env) (record : DeadRecord) (j : String) :
    (s.insertDeadLineageIndex env record).slice j = s.slice j := by
  unfold insertDeadLineageIndex
  split
  · rfl
  · split <;> rfl

@[simp] theorem slice_removeDeadLineageIndex (env : Env) (record : DeadRecord) (j : String) :
    (s.removeDeadLineageIndex env record).slice j = s.slice j := by
  unfold removeDeadLineageIndex
  split
  · rfl
  · split <;> rfl

end Lines

namespace Touches

variable {id : String} {s s' : Store}

theorem insertDelivery (h : Touches id s s') (record : DeliveryRecord) :
    Touches id s (s'.insertDelivery id record) := by
  refine h.trans ⟨fun hw => ⟨hw.1, hw.2, hw.3, hw.4, hw.5, hw.6, hw.7⟩, fun _ j hj => ?_⟩
  refine Slice.ext ?_ rfl rfl rfl rfl rfl rfl rfl
  simp [slice, view, Store.insertDelivery, hj]

theorem removeDelivery (h : Touches id s s') : Touches id s (s'.removeDelivery id) := by
  refine h.trans ⟨fun hw => ⟨hw.1, hw.2, hw.3, hw.4, hw.5, hw.6, hw.7⟩, fun _ j hj => ?_⟩
  refine Slice.ext ?_ rfl rfl rfl rfl rfl rfl rfl
  simp [slice, view, Store.removeDelivery, hj]

theorem insertDead (h : Touches id s s') (dead : DeadRecord) :
    Touches id s (s'.insertDead id dead) := by
  refine h.trans ⟨fun hw => ⟨hw.1, hw.2, hw.3, hw.4, hw.5, hw.6, hw.7⟩, fun _ j hj => ?_⟩
  refine Slice.ext rfl ?_ rfl rfl rfl rfl rfl rfl
  simp [slice, view, Store.insertDead, hj]

theorem removeDead (h : Touches id s s') : Touches id s (s'.removeDead id) := by
  refine h.trans ⟨fun hw => ⟨hw.1, hw.2, hw.3, hw.4, hw.5, hw.6, hw.7⟩, fun _ j hj => ?_⟩
  refine Slice.ext rfl ?_ rfl rfl rfl rfl rfl rfl
  simp [slice, view, Store.removeDead, hj]

theorem insertReady (h : Touches id s s') (dept : String) (t : UInt64) :
    Touches id s (s'.insertReady (makeIndexKey dept t id)) := by
  refine h.trans ⟨fun hw => { hw with ready := hw.ready.insert id (dept, t) }, fun _ j hj => ?_⟩
  refine Slice.ext rfl rfl rfl ?_ rfl rfl rfl rfl
  exact dueFormat.entries_insert_of_ne s'.readyByDeptDue (dept, t) hj

theorem removeReady (h : Touches id s s') (dept : String) (t : UInt64) :
    Touches id s (s'.removeReady (makeIndexKey dept t id)) := by
  refine h.trans ⟨fun hw => { hw with ready := hw.ready.erase _ }, fun _ j hj => ?_⟩
  refine Slice.ext rfl rfl rfl ?_ rfl rfl rfl rfl
  exact dueFormat.entries_erase_of_ne s'.readyByDeptDue (dept, t) hj

theorem insertLeased (h : Touches id s s') (dept : String) (t : UInt64) :
    Touches id s (s'.insertLeased (makeIndexKey dept t id)) := by
  refine h.trans ⟨fun hw => { hw with leased := hw.leased.insert id (dept, t) }, fun _ j hj => ?_⟩
  refine Slice.ext rfl rfl rfl rfl ?_ rfl rfl rfl
  exact dueFormat.entries_insert_of_ne s'.leasedByDeptUntil (dept, t) hj

theorem removeLeased (h : Touches id s s') (dept : String) (t : UInt64) :
    Touches id s (s'.removeLeased (makeIndexKey dept t id)) := by
  refine h.trans ⟨fun hw => { hw with leased := hw.leased.erase _ }, fun _ j hj => ?_⟩
  refine Slice.ext rfl rfl rfl rfl ?_ rfl rfl rfl
  exact dueFormat.entries_erase_of_ne s'.leasedByDeptUntil (dept, t) hj

theorem insertDeadTime (h : Touches id s s') (t : UInt64) :
    Touches id s (s'.insertDeadTime (makeDeadTimeIndexKey t id)) := by
  refine h.trans ⟨fun hw => { hw with deadTime := hw.deadTime.insert id t }, fun _ j hj => ?_⟩
  refine Slice.ext rfl rfl rfl rfl rfl ?_ rfl rfl
  exact deadTimeFormat.entries_insert_of_ne s'.deadByTime t hj

theorem removeDeadTime (h : Touches id s s') (t : UInt64) :
    Touches id s (s'.removeDeadTime (makeDeadTimeIndexKey t id)) := by
  refine h.trans ⟨fun hw => { hw with deadTime := hw.deadTime.erase _ }, fun _ j hj => ?_⟩
  refine Slice.ext rfl rfl rfl rfl rfl ?_ rfl rfl
  exact deadTimeFormat.entries_erase_of_ne s'.deadByTime t hj

theorem insertDeadDue (h : Touches id s s') (dept : String) (t : UInt64) :
    Touches id s (s'.insertDeadDue (makeDeadDueIndexKey dept t id)) := by
  refine h.trans ⟨fun hw => { hw with deadDue := hw.deadDue.insert id (dept, t) },
    fun _ j hj => ?_⟩
  refine Slice.ext rfl rfl rfl rfl rfl rfl ?_ rfl
  exact deadDueFormat.entries_insert_of_ne s'.deadByDeptDue (dept, t) hj

theorem removeDeadDue (h : Touches id s s') (dept : String) (t : UInt64) :
    Touches id s (s'.removeDeadDue (makeDeadDueIndexKey dept t id)) := by
  refine h.trans ⟨fun hw => { hw with deadDue := hw.deadDue.erase _ }, fun _ j hj => ?_⟩
  refine Slice.ext rfl rfl rfl rfl rfl rfl ?_ rfl
  exact deadDueFormat.entries_erase_of_ne s'.deadByDeptDue (dept, t) hj

theorem insertTerminal (h : Touches id s s') (dept : String) (t : UInt64) :
    Touches id s (s'.insertTerminal (makeDeadDueIndexKey dept t id)) := by
  refine h.trans ⟨fun hw => { hw with terminal := hw.terminal.insert id (dept, t) },
    fun _ j hj => ?_⟩
  refine Slice.ext rfl rfl rfl rfl rfl rfl rfl ?_
  exact deadDueFormat.entries_insert_of_ne s'.terminalDeadByTime (dept, t) hj

theorem removeTerminal (h : Touches id s s') (dept : String) (t : UInt64) :
    Touches id s (s'.removeTerminal (makeDeadDueIndexKey dept t id)) := by
  refine h.trans ⟨fun hw => { hw with terminal := hw.terminal.erase _ }, fun _ j hj => ?_⟩
  refine Slice.ext rfl rfl rfl rfl rfl rfl rfl ?_
  exact deadDueFormat.entries_erase_of_ne s'.terminalDeadByTime (dept, t) hj

theorem insertDeliveryLineageIndex (h : Touches id s s') (env : Env) (record : DeliveryRecord) :
    Touches id s (s'.insertDeliveryLineageIndex env record) := by
  refine h.trans ⟨fun hw => ?_, fun _ j _ => by simp⟩
  unfold Store.insertDeliveryLineageIndex
  split
  · exact hw
  · exact ⟨hw.1, hw.2, hw.3, hw.4, hw.5, hw.6, hw.7⟩

theorem removeDeliveryLineageIndex (h : Touches id s s') (env : Env) (record : DeliveryRecord) :
    Touches id s (s'.removeDeliveryLineageIndex env record) := by
  refine h.trans ⟨fun hw => ?_, fun _ j _ => by simp⟩
  unfold Store.removeDeliveryLineageIndex
  split
  · exact hw
  · exact ⟨hw.1, hw.2, hw.3, hw.4, hw.5, hw.6, hw.7⟩

theorem insertDeadLineageIndex (h : Touches id s s') (env : Env) (record : DeadRecord) :
    Touches id s (s'.insertDeadLineageIndex env record) := by
  refine h.trans ⟨fun hw => ?_, fun _ j _ => by simp⟩
  unfold Store.insertDeadLineageIndex
  split
  · exact hw
  · split
    · exact hw
    · exact ⟨hw.1, hw.2, hw.3, hw.4, hw.5, hw.6, hw.7⟩

theorem removeDeadLineageIndex (h : Touches id s s') (env : Env) (record : DeadRecord) :
    Touches id s (s'.removeDeadLineageIndex env record) := by
  refine h.trans ⟨fun hw => ?_, fun _ j _ => by simp⟩
  unfold Store.removeDeadLineageIndex
  split
  · exact hw
  · split
    · exact hw
    · exact ⟨hw.1, hw.2, hw.3, hw.4, hw.5, hw.6, hw.7⟩

end Touches

theorem slice_suppression (s : Store) (table : Table String String) (j : String) :
    ({ s with terminalSuppressionBySlot := table } : Store).slice j =
      { s.slice j with suppressed := terminalDeliveryIsSuppressedInTable table j } := rfl

theorem exists_table_of_suppressTerminalDelivery {s s' : Store} {id : String}
    (h : s.suppressTerminalDelivery id = .ok s') :
    ∃ table, suppressTerminalDeliveryInTable s.terminalSuppressionBySlot id = .ok table ∧
      s' = { s with terminalSuppressionBySlot := table } := by
  simp only [suppressTerminalDelivery, bind, Except.bind] at h
  split at h
  · cases h
  · rename_i table htable
    exact ⟨table, htable, (Except.ok.inj h).symm⟩

/-- Suppressing a delivery. -/
theorem suppressTerminalDelivery_eq_ok {s s' : Store} {id : String} (hw : s.WellFormed)
    (h : s.suppressTerminalDelivery id = .ok s') :
    Touches id s s' ∧ s'.slice id = { s.slice id with suppressed := true } := by
  obtain ⟨table, htable, rfl⟩ := exists_table_of_suppressTerminalDelivery h
  obtain ⟨hgap, hiff⟩ := suppressTerminalDeliveryInTable_eq_ok hw.suppression htable
  refine ⟨⟨fun _ => ⟨hw.1, hw.2, hw.3, hw.4, hw.5, hgap, hw.7⟩, fun _ j hj => ?_⟩, ?_⟩
  · have hj : terminalDeliveryIsSuppressedInTable table j = s.terminalDeliveryIsSuppressed j :=
      Bool.eq_iff_iff.2 ((hiff j).trans (or_iff_right hj))
    rw [slice_suppression, hj]
    rfl
  · rw [slice_suppression, (hiff id).2 (Or.inl rfl)]

end Store

/-! ## Keys that the rows demand -/

/-- The ready keys of a live row. -/
def readyKeys (live : Option DeliveryRecord) : Set (String × UInt64) :=
  {p | ∃ r, live = some r ∧ r.leaseUntilMs = none ∧ p = (r.dept, r.notBeforeMs)}

/-- The leased keys of a live row. -/
def leasedKeys (live : Option DeliveryRecord) : Set (String × UInt64) :=
  {p | ∃ r u, live = some r ∧ r.leaseUntilMs = some u ∧ p = (r.dept, u)}

/-- The time keys of a dead row. -/
def deadTimeKeys (dead : Option DeadRecord) : Set UInt64 := {t | ∃ d, dead = some d ∧ t = d.deadAtMs}

/-- The keys under which a dead row waits for its redrive. -/
def deadDueKeys (dead : Option DeadRecord) : Set (String × UInt64) :=
  {p | ∃ d, dead = some d ∧ shouldIndexDeadRecord d = true ∧ p = (d.dept, d.deadAtMs)}

/-- The keys under which a dead row waits for its compaction. -/
def terminalKeys (dead : Option DeadRecord) : Set (String × UInt64) :=
  {p | ∃ d, dead = some d ∧ isTerminalDeadRecord d = true ∧ p = (d.dept, d.deadAtMs)}

section Keys

variable {r : DeliveryRecord} {d : DeadRecord} {u : UInt64}

@[simp] theorem readyKeys_none : readyKeys none = ∅ := by
  simp [readyKeys]

@[simp] theorem leasedKeys_none : leasedKeys none = ∅ := by
  simp [leasedKeys]

@[simp] theorem deadTimeKeys_none : deadTimeKeys none = ∅ := by
  simp [deadTimeKeys]

@[simp] theorem deadDueKeys_none : deadDueKeys none = ∅ := by
  simp [deadDueKeys]

@[simp] theorem terminalKeys_none : terminalKeys none = ∅ := by
  simp [terminalKeys]

theorem readyKeys_unleased (h : r.leaseUntilMs = none) :
    readyKeys (some r) = {(r.dept, r.notBeforeMs)} := by
  ext p
  simp [readyKeys, h]

theorem readyKeys_leased (h : r.leaseUntilMs = some u) : readyKeys (some r) = ∅ := by
  ext p
  simp [readyKeys, h]

theorem leasedKeys_unleased (h : r.leaseUntilMs = none) : leasedKeys (some r) = ∅ := by
  ext p
  simp [leasedKeys, h]

theorem leasedKeys_leased (h : r.leaseUntilMs = some u) : leasedKeys (some r) = {(r.dept, u)} := by
  ext p
  simp [leasedKeys, h]

@[simp] theorem deadTimeKeys_some : deadTimeKeys (some d) = {d.deadAtMs} := by
  ext t
  simp [deadTimeKeys]

theorem deadDueKeys_indexed (h : shouldIndexDeadRecord d = true) :
    deadDueKeys (some d) = {(d.dept, d.deadAtMs)} := by
  ext p
  simp [deadDueKeys, h]

theorem deadDueKeys_not_indexed (h : shouldIndexDeadRecord d = false) :
    deadDueKeys (some d) = ∅ := by
  ext p
  simp [deadDueKeys, h]

theorem terminalKeys_terminal (h : isTerminalDeadRecord d = true) :
    terminalKeys (some d) = {(d.dept, d.deadAtMs)} := by
  ext p
  simp [terminalKeys, h]

theorem terminalKeys_not_terminal (h : isTerminalDeadRecord d = false) :
    terminalKeys (some d) = ∅ := by
  ext p
  simp [terminalKeys, h]

end Keys

/-- The keys of a live row are there, and those of its lease are exact. -/
structure LiveIndexed (live : Option DeliveryRecord) (ready leased : Set (String × UInt64)) :
    Prop where
  ready : readyKeys live ⊆ ready
  leased : leased = leasedKeys live

/-- The keys of a dead row are there, and its time and terminal keys are exact. -/
structure DeadIndexed (dead : Option DeadRecord) (time : Set UInt64)
    (due terminal : Set (String × UInt64)) : Prop where
  time : time = deadTimeKeys dead
  due : deadDueKeys dead ⊆ due
  terminal : terminal = terminalKeys dead

namespace Slice

/-- The index keys of a delivery are there, and the leased, time and terminal ones are exact. -/
structure Indexed (σ : Slice) : Prop where
  live : LiveIndexed σ.live σ.ready σ.leased
  dead : DeadIndexed σ.dead σ.deadTime σ.deadDue σ.terminal

/-- No key is left over in the other two indexes. -/
structure Clean (σ : Slice) : Prop where
  ready : σ.ready ⊆ readyKeys σ.live
  deadDue : σ.deadDue ⊆ deadDueKeys σ.dead

theorem indexed_empty : Indexed ⟨⟨none, none, false⟩, ∅, ∅, ∅, ∅, ∅⟩ := by
  constructor <;> constructor <;> simp

theorem clean_empty : Clean ⟨⟨none, none, false⟩, ∅, ∅, ∅, ∅, ∅⟩ := by
  constructor <;> simp

end Slice

end Fkst.Delivery
