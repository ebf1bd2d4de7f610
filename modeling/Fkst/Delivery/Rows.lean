import Fkst.Delivery.Lifecycle

/-!
# What the lines of an operation do to a row and its keys

The operations of the store handle a row in a few ways only: a row appears, leaves, is released from
its lease, is leased, is moved to another department; a dead letter is written over an older one,
is given up, leaves.  For each of these the lines of the source are added up here to one change of
the slice, and the index keys are shown to follow the row.
-/

set_option autoImplicit false

namespace Fkst.Delivery

open Lib

/-! ## Keys of live rows -/

namespace LiveIndexed

variable {r r' : DeliveryRecord} {R L : Set (String × UInt64)} {u u' : UInt64}

/-- A row appears. -/
theorem appear (h : LiveIndexed none R L) (h' : r'.leaseUntilMs = none) :
    LiveIndexed (some r') (insert (r'.dept, r'.notBeforeMs) R) L where
  ready := by simp [readyKeys_unleased h']
  leased := by simp [h.leased, leasedKeys_unleased h']

/-- A row changes and keeps its keys. -/
theorem keep (h : LiveIndexed (some r) R L) (hdept : r'.dept = r.dept)
    (hlease : r'.leaseUntilMs = r.leaseUntilMs) (hdue : r'.notBeforeMs = r.notBeforeMs) :
    LiveIndexed (some r') R L := by
  have hr : readyKeys (some r') = readyKeys (some r) := by
    ext p
    simp [readyKeys, hdept, hlease, hdue]
  have hl : leasedKeys (some r') = leasedKeys (some r) := by
    ext p
    simp [leasedKeys, hdept, hlease]
  exact ⟨hr ▸ h.ready, hl ▸ h.leased⟩

/-- A leased row leaves the leased index. -/
theorem diff_leased (h : LiveIndexed (some r) R L) (hu : r.leaseUntilMs = some u) :
    L \ {(r.dept, u)} = ∅ := by
  rw [h.leased, leasedKeys_leased hu, Set.sdiff_self]

/-- A leased row leaves. -/
theorem leave_leased (h : LiveIndexed (some r) R L) (hu : r.leaseUntilMs = some u) :
    LiveIndexed none R (L \ {(r.dept, u)}) where
  ready := by simp
  leased := by rw [h.diff_leased hu, leasedKeys_none]

/-- An unleased row leaves. -/
theorem leave_ready (h : LiveIndexed (some r) R L) (hu : r.leaseUntilMs = none) :
    LiveIndexed none (R \ {(r.dept, r.notBeforeMs)}) L where
  ready := by simp
  leased := by rw [h.leased, leasedKeys_unleased hu, leasedKeys_none]

/-- A leased row is leased differently.  A leftover key may have been dropped before. -/
theorem relock (h : LiveIndexed (some r) R L) (hu : r.leaseUntilMs = some u)
    (hu' : r'.leaseUntilMs = some u') {M : Set (String × UInt64)} (hL : M ⊆ L) :
    LiveIndexed (some r') R (insert (r'.dept, u') (M \ {(r.dept, u)})) where
  ready := by simp [readyKeys_leased hu']
  leased := by
    have hnone : M \ {(r.dept, u)} = ∅ :=
      Set.subset_empty_iff.1 ((Set.sdiff_subset_sdiff_left hL).trans (h.diff_leased hu).subset)
    rw [hnone, leasedKeys_leased hu', insert_empty_eq]

/-- A key of the leased index that is not that of the row's lease can be dropped. -/
theorem drop_leased (h : LiveIndexed (some r) R L) {p : String × UInt64}
    (hp : r.leaseUntilMs ≠ some p.2) : LiveIndexed (some r) R (L \ {p}) where
  ready := h.ready
  leased := by
    rw [h.leased, Set.sdiff_singleton_eq_self]
    rintro ⟨r', u, hr, hu, rfl⟩
    obtain rfl := Option.some.inj hr
    exact hp hu

/-- A key of the ready index can be dropped when the row is leased. -/
theorem drop_ready (h : LiveIndexed (some r) R L) (hu : r.leaseUntilMs = some u)
    (p : String × UInt64) : LiveIndexed (some r) (R \ {p}) L where
  ready := by simp [readyKeys_leased hu]
  leased := h.leased

/-- A key of the ready index can be dropped when the key of the row is put back. -/
theorem replace_ready (h : LiveIndexed (some r) R L) (hu : r.leaseUntilMs = none)
    (p : String × UInt64) : LiveIndexed (some r) (insert (r.dept, r.notBeforeMs) (R \ {p})) L where
  ready := by simp [readyKeys_unleased hu]
  leased := h.leased

/-- An unleased row is leased; what becomes of its ready key does not matter. -/
theorem lock (h : LiveIndexed (some r) R L) (hu : r.leaseUntilMs = none)
    (hu' : r'.leaseUntilMs = some u') (R' : Set (String × UInt64)) :
    LiveIndexed (some r') R' (insert (r'.dept, u') L) where
  ready := by simp [readyKeys_leased hu']
  leased := by rw [h.leased, leasedKeys_unleased hu, leasedKeys_leased hu', insert_empty_eq]

/-- An id without a row needs no key. -/
theorem drop_none (h : LiveIndexed none R L) {R' M : Set (String × UInt64)} (hL : M ⊆ L) :
    LiveIndexed none R' M where
  ready := by simp
  leased := by
    rw [h.leased, leasedKeys_none, Set.subset_empty_iff] at hL
    rw [hL, leasedKeys_none]

end LiveIndexed

/-! ## Keys of dead rows -/

namespace DeadIndexed

variable {d d' : DeadRecord} {T : Set UInt64} {D M : Set (String × UInt64)}

theorem diff_time (h : DeadIndexed (some d) T D M) : T \ {d.deadAtMs} = ∅ := by
  rw [h.time, deadTimeKeys_some, Set.sdiff_self]

theorem diff_terminal (h : DeadIndexed (some d) T D M) : M \ {(d.dept, d.deadAtMs)} = ∅ := by
  rw [h.terminal]
  ext p
  simp [terminalKeys]

/-- A terminal row leaves. -/
theorem leave (h : DeadIndexed (some d) T D M) (D' : Set (String × UInt64)) :
    DeadIndexed none (T \ {d.deadAtMs}) D' (M \ {(d.dept, d.deadAtMs)}) where
  time := by rw [h.diff_time, deadTimeKeys_none]
  due := by simp
  terminal := by rw [h.diff_terminal, terminalKeys_none]

/-- A replayable row leaves. -/
theorem leave_replayable (h : DeadIndexed (some d) T D M) (hd : isTerminalDeadRecord d = false)
    (D' : Set (String × UInt64)) : DeadIndexed none (T \ {d.deadAtMs}) D' M where
  time := by rw [h.diff_time, deadTimeKeys_none]
  due := by simp
  terminal := by rw [h.terminal, terminalKeys_not_terminal hd, terminalKeys_none]

/-- A replayable row becomes terminal. -/
theorem give_up (h : DeadIndexed (some d) T D M) (hd : isTerminalDeadRecord d = false)
    (d' : DeadRecord) (hd' : isTerminalDeadRecord d' = true) (hi : shouldIndexDeadRecord d' = false)
    (hat : d'.deadAtMs = d.deadAtMs) (D' : Set (String × UInt64)) :
    DeadIndexed (some d') T D' (insert (d'.dept, d'.deadAtMs) M) where
  time := by rw [h.time, deadTimeKeys_some, deadTimeKeys_some, hat]
  due := by simp [deadDueKeys_not_indexed hi]
  terminal := by
    rw [h.terminal, terminalKeys_not_terminal hd, terminalKeys_terminal hd', insert_empty_eq]

/-- A replayable row is written where there is none. -/
theorem write_replayable (hi : shouldIndexDeadRecord d' = true)
    (hd' : isTerminalDeadRecord d' = false) :
    DeadIndexed (some d') {d'.deadAtMs} (insert (d'.dept, d'.deadAtMs) D) ∅ where
  time := by simp
  due := by simp [deadDueKeys_indexed hi]
  terminal := by rw [terminalKeys_not_terminal hd']

/-- A terminal row is written where there is none. -/
theorem write_terminal (hi : shouldIndexDeadRecord d' = false)
    (hd' : isTerminalDeadRecord d' = true) :
    DeadIndexed (some d') {d'.deadAtMs} D {(d'.dept, d'.deadAtMs)} where
  time := by simp
  due := by simp [deadDueKeys_not_indexed hi]
  terminal := by rw [terminalKeys_terminal hd']

/-- The key of a terminal row that is not waiting for a redrive can be dropped. -/
theorem drop_due (h : DeadIndexed (some d) T D M) (hi : shouldIndexDeadRecord d = false)
    (D' : Set (String × UInt64)) : DeadIndexed (some d) T D' M where
  time := h.time
  due := by simp [deadDueKeys_not_indexed hi]
  terminal := h.terminal

end DeadIndexed

/-! ## Rows that appear, leave and move -/

namespace Store

variable (env : Env) (s : Store) (id : String)

@[simp] theorem slice_insertRow (record : DeliveryRecord) :
    (s.insertRow env id record).slice id =
      { s.slice id with
        live := some record
        ready := insert (record.dept, record.notBeforeMs) (s.slice id).ready } := by
  simp [insertRow]

theorem slice_unindexRow_leased {record : DeliveryRecord} {u : UInt64}
    (h : record.leaseUntilMs = some u) :
    (s.unindexRow id record).slice id =
      { s.slice id with leased := (s.slice id).leased \ {(record.dept, u)} } := by
  simp [unindexRow, h]

theorem slice_unindexRow_ready {record : DeliveryRecord} (h : record.leaseUntilMs = none) :
    (s.unindexRow id record).slice id =
      { s.slice id with ready := (s.slice id).ready \ {(record.dept, record.notBeforeMs)} } := by
  simp [unindexRow, h]

@[simp] theorem slice_unindexDead (previous : DeadRecord) :
    (s.unindexDead env id previous).slice id =
      { s.slice id with
        deadTime := (s.slice id).deadTime \ {previous.deadAtMs}
        deadDue := (s.slice id).deadDue \ {(previous.dept, previous.deadAtMs)}
        terminal := (s.slice id).terminal \ {(previous.dept, previous.deadAtMs)} } := by
  simp [unindexDead]

namespace Touches

variable {s id} {s' : Store}

theorem insertRow (h : Touches id s s') (record : DeliveryRecord) :
    Touches id s (s'.insertRow env id record) :=
  ((h.insertDelivery record).insertDeliveryLineageIndex env record).insertReady _ _

theorem unindexRow (h : Touches id s s') (record : DeliveryRecord) :
    Touches id s (s'.unindexRow id record) := by
  unfold Store.unindexRow
  split
  · exact h.removeLeased _ _
  · exact h.removeReady _ _

theorem unindexDead (h : Touches id s s') (previous : DeadRecord) :
    Touches id s (s'.unindexDead env id previous) :=
  (((h.removeDeadLineageIndex env previous).removeDeadTime _).removeDeadDue _ _).removeTerminal _ _

end Touches

/-- Taking an older dead letter out of the indexes leaves no key of it. -/
theorem unindexPrevious_spec (keyId : DeadRecord → String)
    (hi : DeadIndexed (s.slice id).dead (s.slice id).deadTime (s.slice id).deadDue
      (s.slice id).terminal)
    (hk : ∀ d, (s.slice id).dead = some d → keyId d = id) :
    Touches id s (s.unindexPrevious env id keyId) ∧
      ∃ D, ((s.slice id).deadDue ⊆ deadDueKeys (s.slice id).dead → D = ∅) ∧
        (s.unindexPrevious env id keyId).slice id =
          { s.slice id with deadTime := ∅, deadDue := D, terminal := ∅ } := by
  unfold unindexPrevious
  have hdead : (s.slice id).dead = s.deadById[id]? := rfl
  cases hd : s.deadById[id]? with
  | none =>
    rw [hdead, hd] at hi ⊢
    refine ⟨Touches.refl id s, (s.slice id).deadDue, fun hc => ?_, ?_⟩
    · simpa using hc
    · have htime : (s.slice id).deadTime = ∅ := by simpa using hi.time
      have hterm : (s.slice id).terminal = ∅ := by simpa using hi.terminal
      exact Slice.ext rfl rfl rfl rfl rfl htime rfl hterm
  | some previous =>
    rw [hdead, hd] at hi ⊢
    dsimp only
    rw [hk previous hd]
    refine ⟨(Touches.refl id s).unindexDead env previous,
      (s.slice id).deadDue \ {(previous.dept, previous.deadAtMs)}, fun hc => ?_, ?_⟩
    · refine Set.sdiff_eq_empty.2 fun p hp => ?_
      obtain ⟨d, hd, _, rfl⟩ := hc hp
      obtain rfl := Option.some.inj hd
      exact rfl
    · rw [slice_unindexDead, hi.diff_time, hi.diff_terminal]

end Store

end Fkst.Delivery
