import Mathlib.Tactic.Common

/-!
# JSON values

`serde_json::Value`, as far as the engine looks into one.  Payloads travel through the delivery
store as opaque values that are only ever compared, and the router reads a few named fields of
them.

The lists of the two container constructors are spelled out as inductive types of their own, which
keeps equality of values decidable by the derived instances.  An object is a `BTreeMap` in the
source; here it is its entries in key order, so that equality of objects is equality of the
values.
-/

set_option autoImplicit false

namespace Fkst

/-- `serde_json::Number`.  A float is a finite `f64`, given by the number it stands for: the two
zeros of `f64` compare equal in the source as well. -/
inductive Number where
  | posInt (n : UInt64)
  | negInt (n : Int)
  | float (value : Rat)
deriving DecidableEq

mutual

/-- `serde_json::Value`. -/
inductive Json where
  | null
  | bool (b : Bool)
  | number (n : Number)
  | string (s : String)
  | array (items : JsonItems)
  | object (fields : JsonFields)
deriving DecidableEq

/-- The items of an array. -/
inductive JsonItems where
  | nil
  | cons (head : Json) (tail : JsonItems)
deriving DecidableEq

/-- The entries of an object, in key order. -/
inductive JsonFields where
  | nil
  | cons (key : String) (value : Json) (tail : JsonFields)
deriving DecidableEq

end

namespace JsonItems

/-- The items as a list. -/
def toList : JsonItems → List Json
  | .nil => []
  | .cons item rest => item :: rest.toList

/-- An array of a list. -/
def ofList : List Json → JsonItems
  | [] => .nil
  | item :: rest => .cons item (ofList rest)

theorem toList_ofList : ∀ items : List Json, (ofList items).toList = items
  | [] => rfl
  | item :: rest => congrArg (item :: ·) (toList_ofList rest)

end JsonItems

namespace JsonFields

/-- The value of a key. -/
def get : JsonFields → String → Option Json
  | .nil, _ => none
  | .cons k v rest, key => if k = key then some v else rest.get key

/-- Insert or replace a key, keeping the key order. -/
def insert : JsonFields → String → Json → JsonFields
  | .nil, key, value => .cons key value .nil
  | .cons k v rest, key, value =>
    if k = key then .cons key value rest
    else if key < k then .cons key value (.cons k v rest)
    else .cons k v (rest.insert key value)

/-- The entries of a struct, serialized field by field. -/
def ofStruct (fields : List (String × Json)) : JsonFields :=
  fields.foldl (fun entries field => entries.insert field.1 field.2) .nil

theorem insert_nil (key : String) (value : Json) :
    JsonFields.nil.insert key value = .cons key value .nil := rfl

theorem insert_front {key k : String} (value v : Json) (rest : JsonFields) (hne : k ≠ key)
    (hlt : key < k) : (cons k v rest).insert key value = .cons key value (.cons k v rest) := by
  rw [insert, if_neg hne, if_pos hlt]

theorem insert_behind {key k : String} (value v : Json) (rest : JsonFields) (hne : k ≠ key)
    (hlt : ¬ key < k) : (cons k v rest).insert key value = .cons k v (rest.insert key value) := by
  rw [insert, if_neg hne, if_neg hlt]

theorem get_insert (key : String) (value : Json) (key' : String) : ∀ fields : JsonFields,
    (fields.insert key value).get key' = if key = key' then some value else fields.get key'
  | .nil => rfl
  | .cons k v rest => by
    rw [insert]
    split
    · rename_i hk
      subst hk
      by_cases heq : k = key'
      · simp [get, heq]
      · simp [get, heq]
    · split
      · rw [get]
      · rename_i hk _
        rw [get, get, get_insert key value key' rest]
        by_cases heq : key = key'
        · subst heq
          rw [if_neg hk, if_pos rfl, if_pos rfl]
        · simp [heq]

end JsonFields

namespace Json

/-- `Value::get` with a string key. -/
def get : Json → String → Option Json
  | .object fields, key => fields.get key
  | _, _ => none

/-- A struct, serialized. -/
def ofStruct (fields : List (String × Json)) : Json := .object (.ofStruct fields)

/-- The JSON of a `u64` or `usize`. -/
def ofU64 (n : UInt64) : Json := .number (.posInt n)

/-- `None` is null. -/
def ofOption {α : Type} (f : α → Json) : Option α → Json
  | some a => f a
  | none => .null

/-- `Value::as_str`. -/
def asStr : Json → Option String
  | .string s => some s
  | _ => none

/-- `Value::as_array`. -/
def asArray : Json → Option (List Json)
  | .array items => some items.toList
  | _ => none

/-- `Value::as_u64`. -/
def asU64 : Json → Option UInt64
  | .number (.posInt n) => some n
  | _ => none

/-- `value[key] = new`.  A null becomes an object first; on any other value that is not an object
the assignment panics, which is `none`. -/
def setIndex : Json → String → Json → Option Json
  | .object fields, key, value => some (.object (fields.insert key value))
  | .null, key, value => some (.object (.cons key value .nil))
  | _, _, _ => none

end Json

end Fkst
