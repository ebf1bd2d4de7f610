import Fkst.Delivery.Index
import Fkst.Lib.Keyset
import Fkst.Rust
import Fkst.Router.Keys
import Mathlib.Data.Set.List
import Mathlib.Data.String.Basic

/-!
# Due keys in order

The keys of a department are in the order of their times, and for one time of the ids
(`makeIndexKey_lt_iff`), and the range that `collect_due_keys` walks has exactly the keys that are due:
its end is above every id that is a runtime key.  So the walk returns the first due keys
(`collectDueKeys_dept`).  A `&str` is compared by its bytes, which is how the table orders its keys.
-/

set_option autoImplicit false

namespace Fkst.Delivery

open Lib
open Lib.Keyset (Listing)
open Router (validateRuntimeKey)

/-! ## Ids -/

theorem lt_lastChar_of_isKeyChar {c : Char} (h : Fkst.isKeyChar c = true) : c < lastChar := by
  have hsize := Router.utf8Size_of_isKeyChar h
  rw [Char.utf8Size_eq_one_iff] at hsize
  exact Char.lt_def.2 (UInt32.lt_of_le_of_lt hsize (by decide))

/-- The characters of a runtime key. -/
theorem char_of_runtimeKey {id : String} (h : validateRuntimeKey id = .ok id) {c : Char}
    (hc : c ∈ id.toList) : c = '/' ∨ Fkst.isKeyChar c = true := by
  rw [validateRuntimeKey] at h
  split_ifs at h
  obtain ⟨⟨⟩, hsegments, _⟩ := Checks.bind_eq_ok.1 h
  have hkey : ['/'].intercalate (id.toList.splitOn '/') = id.toList := List.intercalate_splitOn '/'
  rw [← hkey] at hc
  rcases Text.mem_intercalate hc with hsep | ⟨segment, hsegment, hc⟩
  · exact .inl hsep
  · right
    have hvalid := Checks.forM_eq_ok.1 hsegments segment hsegment
    rw [Router.validateSegment] at hvalid
    split_ifs at hvalid with _ _ _ hchars
    exact List.all_eq_true.1 (by simpa using hchars) c hc

/-- The characters of a runtime key are below the one that ends a range of keys. -/
theorem lt_lastChar_of_runtimeKey {id : String} (h : validateRuntimeKey id = .ok id) {c : Char}
    (hc : c ∈ id.toList) : c < lastChar := by
  rcases char_of_runtimeKey h hc with rfl | hchar
  · decide
  · exact lt_lastChar_of_isKeyChar hchar

theorem runtimeKey_ne_empty {id : String} (h : validateRuntimeKey id = .ok id) : id ≠ "" := by
  rintro rfl
  exact absurd h (by decide)

theorem not_lastChar_lt_of_runtimeKey {id : String} (h : validateRuntimeKey id = .ok id) :
    ¬ [lastChar] < id.toList := by
  cases hid : id.toList with
  | nil => exact List.not_lt_nil _
  | cons c rest =>
    have hc : c < lastChar := lt_lastChar_of_runtimeKey h (by simp [hid])
    rw [List.cons_lt_cons_iff]
    rintro (hlt | ⟨rfl, _⟩)
    · exact Char.lt_asymm hc hlt
    · exact Char.lt_irrefl _ hc

theorem listing_range (t : Table String Unit) (lo hi : String) :
    Listing (Prod.fst : String × Unit → String) (Table.range t lo hi) := by
  refine Listing.filter ?_ _
  exact t.ordered_keys_toList.imp fun hlt => compare_lt_iff_lt.1 hlt

/-! ## The order of keys -/

theorem strBytes_lt_iff {s t : String} : strBytes s < strBytes t ↔ s < t := by
  rw [strBytes_eq, strBytes_eq, Utf8.encode_lt_encode_iff, String.lt_iff]

/-- **The keys of a department are in the order of times and ids.** -/
theorem makeIndexKey_lt_iff {dept id id' : String} {due due' : UInt64} :
    makeIndexKey dept due id < makeIndexKey dept due' id' ↔ due < due' ∨ due = due' ∧ id < id' := by
  rw [String.lt_iff, toList_makeIndexKey, toList_makeIndexKey, Text.append_lt_append_iff rfl,
    List.cons_lt_cons_iff, padded20_append_lt_iff, List.cons_lt_cons_iff, String.lt_iff]
  simp

theorem makeDeadDueIndexKey_lt_iff {dept id id' : String} {due due' : UInt64} :
    makeDeadDueIndexKey dept due id < makeDeadDueIndexKey dept due' id' ↔
      due < due' ∨ due = due' ∧ id < id' := by
  rw [String.lt_iff, toList_makeDeadDueIndexKey, toList_makeDeadDueIndexKey, padded20_append_lt_iff,
    List.cons_lt_cons_iff, Text.append_lt_append_iff rfl, List.cons_lt_cons_iff, String.lt_iff]
  simp

theorem makeDeadTimeIndexKey_lt_iff {id id' : String} {due due' : UInt64} :
    makeDeadTimeIndexKey due id < makeDeadTimeIndexKey due' id' ↔
      due < due' ∨ due = due' ∧ id < id' := by
  rw [String.lt_iff, toList_makeDeadTimeIndexKey, toList_makeDeadTimeIndexKey, padded20_append_lt_iff,
    List.cons_lt_cons_iff, String.lt_iff]
  simp

/-! ## Collecting the due keys of a department -/

/-- The key of a row, parsed. -/
def parsedKey (dept : String) (row : UInt64 × String) : DueIndexKey :=
  ⟨makeIndexKey dept row.1 row.2, row.1, row.2⟩

theorem parseKeys_map (dept : String) (rows : List (UInt64 × String)) :
    parseKeys parseIndexKey (rows.map fun row => (makeIndexKey dept row.1 row.2, ())) =
      .ok (rows.map (parsedKey dept)) := by
  induction rows with
  | nil => rfl
  | cons row rows ih =>
    rw [List.map_cons, parseKeys, parseIndexKey_makeIndexKey, ih]
    rfl

/-- Every key of a table is the key of a delivery under a runtime key. -/
def KeyedByRuntimeKey (table : Table String Unit) : Prop :=
  ∀ key, key ∈ table → ∃ dept due id, validateRuntimeKey id = .ok id ∧ key = makeIndexKey dept due id

/-- The range of a department has exactly its due keys. -/
theorem mem_range_iff {table : Table String Unit} (htable : KeyedByRuntimeKey table) {dept id : String}
    {due nowMs : UInt64} :
    (makeIndexKey dept due id, ()) ∈
        Table.range table (dueRangeStart dept) (dueRangeStop dept nowMs) ↔
      makeIndexKey dept due id ∈ table ∧ due ≤ nowMs := by
  constructor
  · intro h
    exact ⟨Table.mem_of_mem_range h, (due_of_mem_range h).2⟩
  · rintro ⟨hkey, hdue⟩
    refine mem_range_of_due hkey hdue (.inr (not_lastChar_lt_of_runtimeKey ?_))
    obtain ⟨_, _, _, hid, heq⟩ := htable _ hkey
    obtain ⟨_, _, rfl⟩ := makeIndexKey_inj heq
    exact hid

/-- The rows of a department that are due, in the order of their times and ids. -/
structure DueRows (table : Table String Unit) (dept : String) (nowMs : UInt64)
    (rows : List (UInt64 × String)) : Prop where
  sorted : rows.Pairwise fun a b => a.1 < b.1 ∨ a.1 = b.1 ∧ strBytes a.2 < strBytes b.2
  mem_iff : ∀ due id, (due, id) ∈ rows ↔ makeIndexKey dept due id ∈ table ∧ due ≤ nowMs

theorem exists_dueRows {table : Table String Unit} (htable : KeyedByRuntimeKey table) (dept : String)
    (nowMs : UInt64) : ∃ rows, DueRows table dept nowMs rows ∧
      Table.range table (dueRangeStart dept) (dueRangeStop dept nowMs) =
        rows.map fun row => (makeIndexKey dept row.1 row.2, ()) := by
  have hrange : Table.range table (dueRangeStart dept) (dueRangeStop dept nowMs) ∈
      Set.range (List.map fun row : UInt64 × String => (makeIndexKey dept row.1 row.2, ())) := by
    rw [Set.range_list_map]
    rintro ⟨key, ⟨⟩⟩ hkey
    obtain ⟨d, due, id, _, rfl⟩ := htable key (Table.mem_of_mem_range hkey)
    obtain ⟨rfl, _⟩ := due_of_mem_range hkey
    exact ⟨(due, id), rfl⟩
  obtain ⟨rows, hrows⟩ := hrange
  refine ⟨rows, ⟨?_, fun due id => ?_⟩, hrows.symm⟩
  · have hsorted := listing_range table (dueRangeStart dept) (dueRangeStop dept nowMs)
    rw [← hrows, Listing, List.pairwise_map] at hsorted
    refine List.Pairwise.imp (fun hlt => ?_) hsorted
    rw [strBytes_lt_iff]
    exact makeIndexKey_lt_iff.1 hlt
  · rw [← mem_range_iff htable, ← hrows, List.mem_map]
    constructor
    · exact fun h => ⟨(due, id), h, rfl⟩
    · rintro ⟨⟨due', id'⟩, h, heq⟩
      obtain ⟨_, rfl, rfl⟩ := makeIndexKey_inj (congrArg Prod.fst heq)
      exact h

/-- **Collecting the due keys of a department** returns the first of them. -/
theorem collectDueKeys_dept {table : Table String Unit} (htable : KeyedByRuntimeKey table)
    (dept : String) (nowMs : UInt64) (limit : ℕ) : ∃ rows, DueRows table dept nowMs rows ∧
      collectDueKeys table (some dept) nowMs limit = .ok ((rows.take limit).map (parsedKey dept)) := by
  obtain ⟨rows, hrows, hrange⟩ := exists_dueRows htable dept nowMs
  refine ⟨rows, hrows, ?_⟩
  rw [collectDueKeys]
  split_ifs with hlimit
  · rw [hlimit, List.take_zero, List.map_nil]
  · rw [collectDueKeysForDept, hrange, ← List.map_take, parseKeys_map]

/-- The keys of one format: they determine their fields, they are parsed to their time and id, and those
with the same name in them are in the order of times and ids. -/
structure KeyCodec (make : String → UInt64 → String → String)
    (parse : String → Except StoreError DueIndexKey) : Prop where
  time_id : ∀ dept due id dept' due' id', make dept due id = make dept' due' id' → due = due' ∧ id = id'
  parse : ∀ dept due id, parse (make dept due id) = .ok ⟨make dept due id, due, id⟩
  order : ∀ dept due id due' id', strBytes (make dept due id) < strBytes (make dept due' id') ↔
    due < due' ∨ due = due' ∧ strBytes id < strBytes id'

/-- **Due keys and their ranges.**  The three formats of keys are codecs, those with a department
determine it, and a walk over the range of a department returns its first due keys, in order. -/
theorem dueKeys_exact :
    (KeyCodec makeIndexKey parseIndexKey ∧
      KeyCodec makeDeadDueIndexKey parseDeadDueIndexKey ∧
      KeyCodec (fun _ => makeDeadTimeIndexKey) parseDeadTimeIndexKey) ∧
    (∀ dept due id dept' due' id',
      makeIndexKey dept due id = makeIndexKey dept' due' id' → dept = dept') ∧
    (∀ dept due id dept' due' id',
      makeDeadDueIndexKey dept due id = makeDeadDueIndexKey dept' due' id' → dept = dept') ∧
    ∀ (table : Table String Unit), KeyedByRuntimeKey table → ∀ dept nowMs limit,
      ∃ rows, DueRows table dept nowMs rows ∧
        collectDueKeys table (some dept) nowMs limit =
          .ok ((rows.take limit).map (parsedKey dept)) := by
  refine ⟨⟨⟨?_, parseIndexKey_makeIndexKey, ?_⟩, ⟨?_, parseDeadDueIndexKey_makeDeadDueIndexKey, ?_⟩,
    ⟨?_, fun _ => parseDeadTimeIndexKey_makeDeadTimeIndexKey, ?_⟩⟩, ?_, ?_, ?_⟩
  · exact fun _ _ _ _ _ _ h => (makeIndexKey_inj h).2
  · intro _ _ _ _ _
    rw [strBytes_lt_iff, strBytes_lt_iff, makeIndexKey_lt_iff]
  · exact fun _ _ _ _ _ _ h => (makeDeadDueIndexKey_inj h).2
  · intro _ _ _ _ _
    rw [strBytes_lt_iff, strBytes_lt_iff, makeDeadDueIndexKey_lt_iff]
  · exact fun _ _ _ _ _ _ h => makeDeadTimeIndexKey_inj h
  · intro _ _ _ _ _
    rw [strBytes_lt_iff, strBytes_lt_iff, makeDeadTimeIndexKey_lt_iff]
  · exact fun _ _ _ _ _ _ h => (makeIndexKey_inj h).1
  · exact fun _ _ _ _ _ _ h => (makeDeadDueIndexKey_inj h).1
  · exact fun table htable => collectDueKeys_dept htable

/-- A key of one department, and one of another. -/
def sampleIndex : Table String Unit :=
  ((∅ : Table String Unit).insert (makeIndexKey "jobs" 5 "queue/a") ()).insert
    (makeIndexKey "mail" 4 "queue/b") ()

theorem dueKeys_exact_sample : ∃ rows, DueRows sampleIndex "jobs" 6 rows ∧
    collectDueKeys sampleIndex (some "jobs") 6 1 = .ok ((rows.take 1).map (parsedKey "jobs")) := by
  refine dueKeys_exact.2.2.2 sampleIndex (fun key hkey => ?_) "jobs" 6 1
  rw [sampleIndex, Table.mem_insert_iff, Table.mem_insert_iff] at hkey
  rcases hkey with rfl | rfl | hkey
  · exact ⟨"mail", 4, "queue/b", by decide, rfl⟩
  · exact ⟨"jobs", 5, "queue/a", by decide, rfl⟩
  · simp at hkey

end Fkst.Delivery
