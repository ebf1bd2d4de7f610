import Mathlib.Algebra.Group.Int.Defs
import Mathlib.Algebra.GroupWithZero.Nat
import Mathlib.Data.Int.Notation
import Mathlib.Data.List.GetD
import Mathlib.Data.List.Nodup
import Mathlib.Tactic.Common

/-!
# Lua values

The values of Lua 5.4 as `mlua` has them.  Tables are known by their pointers, and a pointer is a
place in a memory; a table is a list of pairs in the order in which `next` gives them, which Lua
leaves open.  Tables of two Lua states are tables of one memory, as their pointers are.
-/

set_option autoImplicit false

namespace Fkst.RestrictedLua

/-! ## Values -/

/-- `mlua::Value`.  A number is the bits of an `f64`, and a value of another kind is known by the
name of its type and a pointer. -/
inductive Value where
  | nil
  | boolean (value : Bool)
  | integer (value : Int64)
  | number (bits : UInt64)
  | string (bytes : List UInt8)
  | table (pointer : ℕ)
  | function (pointer : ℕ)
  | foreign (typeName : String) (pointer : ℕ)
deriving DecidableEq

/-- The exponent of an `f64`. -/
def exponent (bits : UInt64) : ℕ := bits.toNat / 2 ^ 52 % 2 ^ 11

/-- The fraction of an `f64`. -/
def fraction (bits : UInt64) : ℕ := bits.toNat % 2 ^ 52

/-- `NaN`. -/
def isNaN (bits : UInt64) : Bool := exponent bits = 2047 && fraction bits ≠ 0

/-- The absolute value of an `f64`, if it is an integer. -/
def magnitude (bits : UInt64) : Option ℕ :=
  let significand := 2 ^ 52 + fraction bits
  if exponent bits = 0 then if fraction bits = 0 then some 0 else none
  else if exponent bits = 2047 then none
  else if 1075 ≤ exponent bits then some (significand * 2 ^ (exponent bits - 1075))
  else if significand % 2 ^ (1075 - exponent bits) = 0 then
    some (significand / 2 ^ (1075 - exponent bits))
  else none

/-- `luaV_flttointns`: the integer that an `f64` is. -/
def floatToInteger (bits : UInt64) : Option Int64 := do
  let absolute ← magnitude bits
  let value : ℤ := if bits.toNat < 2 ^ 63 then absolute else -absolute
  if -2 ^ 63 ≤ value ∧ value < 2 ^ 63 then some (Int64.ofInt value) else none

/-- The key that a table has for a value: `nil` and `NaN` are none, and a number that is an integer
is that integer. -/
def keyForm : Value → Option Value
  | .nil => none
  | .number bits =>
    if isNaN bits then none
    else match floatToInteger bits with
      | some i => some (.integer i)
      | none => some (.number bits)
  | key => some key

example : keyForm (.number 0x4008000000000000) = some (.integer 3) ∧
    keyForm (.number 0x3FE0000000000000) = some (.number 0x3FE0000000000000) := by
  decide +kernel

theorem keyForm_idem {key key' : Value} (h : keyForm key = some key') : keyForm key' = some key' := by
  cases key with
  | nil => cases h
  | number bits =>
    rw [keyForm] at h
    split_ifs at h with hnan
    split at h
    · cases h
      rfl
    · rename_i hint
      cases h
      rw [keyForm, if_neg hnan, hint]
  | boolean _ | integer _ | string _ | table _ | function _ | foreign _ _ =>
    cases h
    rfl

/-! ## Tables -/

/-- A table.  The metatable is `lua.array_metatable()` or of no interest. -/
structure LuaTable where
  pairs : List (Value × Value)
  isArray : Bool
  keys : ∀ pair ∈ pairs, keyForm pair.1 = some pair.1
  values : ∀ pair ∈ pairs, pair.2 ≠ .nil
  nodup : (pairs.map Prod.fst).Nodup

namespace LuaTable

/-- `create_table`. -/
def empty : LuaTable := ⟨[], false, by simp, by simp, by simp⟩

/-- `set_metatable(Some(array_metatable()))`. -/
def markArray (table : LuaTable) : LuaTable := { table with isArray := true }

/-- Whether a table has a key. -/
def HasKey (table : LuaTable) (key : Value) : Prop := key ∈ table.pairs.map Prod.fst

instance (table : LuaTable) (key : Value) : Decidable (table.HasKey key) :=
  inferInstanceAs (Decidable (_ ∈ _))

/-- A table without a key. -/
def erase (table : LuaTable) (key : Value) : LuaTable where
  pairs := table.pairs.filter fun pair => pair.1 ≠ key
  isArray := table.isArray
  keys pair h := table.keys pair (List.mem_filter.1 h).1
  values pair h := table.values pair (List.mem_filter.1 h).1
  nodup := table.nodup.sublist (List.filter_sublist.map _)

/-- A table with one more key. -/
def append (table : LuaTable) (key value : Value) (hkey : keyForm key = some key)
    (hvalue : value ≠ .nil) (hnew : ¬table.HasKey key) : LuaTable where
  pairs := table.pairs ++ [(key, value)]
  isArray := table.isArray
  keys pair h := by
    rcases List.mem_append.1 h with h | h
    · exact table.keys pair h
    · rw [List.mem_singleton.1 h]
      exact hkey
  values pair h := by
    rcases List.mem_append.1 h with h | h
    · exact table.values pair h
    · rw [List.mem_singleton.1 h]
      exact hvalue
  nodup := by
    rw [List.map_append]
    exact table.nodup.append (List.nodup_singleton _) (by simpa [HasKey] using hnew)

/-- A table with another value for a key. -/
def replace (table : LuaTable) (key value : Value) (hvalue : value ≠ .nil) : LuaTable where
  pairs := table.pairs.map fun pair => if pair.1 = key then (pair.1, value) else pair
  isArray := table.isArray
  keys pair h := by
    obtain ⟨old, hold, rfl⟩ := List.mem_map.1 h
    split_ifs <;> exact table.keys old hold
  values pair h := by
    obtain ⟨old, hold, rfl⟩ := List.mem_map.1 h
    split_ifs
    · exact hvalue
    · exact table.values old hold
  nodup := by
    have hfst : (Prod.fst ∘ fun pair : Value × Value => if pair.1 = key then (pair.1, value) else pair) =
        Prod.fst := by
      funext pair
      dsimp only [Function.comp]
      split_ifs <;> rfl
    rw [List.map_map, hfst]
    exact table.nodup

/-- `raw_set`. -/
def rawSet (table : LuaTable) (key value : Value) : Except String LuaTable :=
  match h : keyForm key with
  | none => .error (if key = .nil then "index is nil" else "index is NaN")
  | some key =>
    if hnil : value = .nil then .ok (table.erase key)
    else if hkey : table.HasKey key then .ok (table.replace key value hnil)
    else .ok (table.append key value (keyForm_idem h) hnil hkey)

theorem rawSet_new {table : LuaTable} {key value : Value} (hkey : keyForm key = some key)
    (hvalue : value ≠ .nil) (hnew : ¬table.HasKey key) :
    table.rawSet key value = .ok (table.append key value hkey hvalue hnew) := by
  rw [rawSet]
  split
  · rename_i h
    rw [hkey] at h
    cases h
  · rename_i key' h
    rw [hkey] at h
    cases h
    rw [dif_neg hvalue, dif_neg hnew]

end LuaTable

/-! ## Memory -/

/-- The tables that there are, by pointer. -/
abbrev Memory := List LuaTable

namespace Memory

/-- The table of a pointer. -/
def table (memory : Memory) (pointer : ℕ) : LuaTable := memory.getD pointer .empty

/-- A memory in which a table has changed. -/
def update (memory : Memory) (pointer : ℕ) (table : LuaTable) : Memory := memory.set pointer table

/-- `raw_set` of a table of a memory. -/
def rawSet (memory : Memory) (pointer : ℕ) (key value : Value) : Except String Memory := do
  return memory.update pointer (← (memory.table pointer).rawSet key value)

@[simp] theorem length_update (memory : Memory) (pointer : ℕ) (table : LuaTable) :
    (memory.update pointer table).length = memory.length :=
  List.length_set

theorem table_update {memory : Memory} {pointer : ℕ} (h : pointer < memory.length)
    (table : LuaTable) : (memory.update pointer table).table pointer = table := by
  rw [Memory.table, update, List.getD_eq_getElem?_getD, List.getElem?_set_self h, Option.getD_some]

theorem table_update_ne {memory : Memory} {pointer other : ℕ} (h : pointer ≠ other)
    (table : LuaTable) : (memory.update pointer table).table other = memory.table other := by
  rw [Memory.table, Memory.table, update, List.getD_eq_getElem?_getD, List.getElem?_set_ne h,
    List.getD_eq_getElem?_getD]

/-- The tables that were there are still there, as they were. -/
theorem table_of_prefix {memory memory' : Memory} (h : memory <+: memory') {pointer : ℕ}
    (hpointer : pointer < memory.length) : memory'.table pointer = memory.table pointer := by
  obtain ⟨fresh, rfl⟩ := h
  rw [Memory.table, Memory.table, List.getD_append _ _ _ _ hpointer]

theorem table_length (memory : Memory) (table : LuaTable) :
    (memory ++ [table]).table memory.length = table := by
  rw [Memory.table, List.getD_append_right _ _ _ _ (Nat.le_refl _), Nat.sub_self]
  rfl

/-- A change of a later table. -/
theorem prefix_update {memory memory' : Memory} (h : memory <+: memory') {pointer : ℕ}
    (hpointer : memory.length ≤ pointer) (table : LuaTable) :
    memory <+: memory'.update pointer table := by
  obtain ⟨fresh, rfl⟩ := h
  rw [update, List.set_append_right _ _ hpointer]
  exact List.prefix_append _ _

end Memory

/-! ## The graph of values -/

/-- A pointer to one of the first tables. -/
def Value.Below (n : ℕ) : Value → Prop
  | .table pointer => pointer < n
  | _ => True

instance (n : ℕ) : DecidablePred (Value.Below n)
  | .table pointer => inferInstanceAs (Decidable (pointer < n))
  | .nil | .boolean _ | .integer _ | .number _ | .string _ | .function _ | .foreign _ _ =>
    .isTrue trivial

/-- A value that a table holds, as a key or under one. -/
def Holds (memory : Memory) (v w : Value) : Prop :=
  ∃ pointer, v = .table pointer ∧ ∃ pair ∈ (memory.table pointer).pairs, w = pair.1 ∨ w = pair.2

/-- There are no pointers but to tables of the memory. -/
def Memory.Closed (memory : Memory) : Prop := ∀ v w, Holds memory v w → w.Below memory.length

/-- The values that are copied. -/
def Value.IsPlain : Value → Prop
  | .function _ | .foreign _ _ => False
  | _ => True

/-- The values that are no tables. -/
def Value.IsScalar (v : Value) : Prop := v.IsPlain ∧ ∀ pointer, v ≠ .table pointer

/-- The keys are `1` to the number of them, and there is one. -/
def LuaTable.IsSequence (table : LuaTable) : Prop :=
  table.pairs ≠ [] ∧ ∀ key, table.HasKey key ↔
    ∃ i : Int64, key = .integer i ∧ 0 < i.toInt ∧ i.toInt ≤ table.pairs.length

end Fkst.RestrictedLua
