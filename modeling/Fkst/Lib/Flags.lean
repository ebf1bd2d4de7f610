import Mathlib.Data.List.Basic

/-!
# Named arguments

A command line in which a flag stands before its value, and a reader that takes a flag and its value
out wherever it finds the flag first.  The reader does not know values from flags.  What it finds is
what was written as long as the flag stands at the front (`take_front`), and it finds nothing exactly
if the flag is spelled nowhere but at the very end (`take_eq_none_iff`).
-/

set_option autoImplicit false

namespace Lib.Flags

variable {α : Type}

section Take

variable [DecidableEq α]

/-- Take the first `flag` out, and the argument behind it. -/
def take (flag : α) (args : List α) : Option (α × List α) := do
  let index ← args.findIdx? (· == flag)
  let value ← args[index + 1]?
  some (value, (args.eraseIdx (index + 1)).eraseIdx index)

@[simp] theorem take_front (flag value : α) (rest : List α) :
    take flag (flag :: value :: rest) = some (value, rest) := by
  simp [take, List.findIdx?_cons]

theorem take_cons {flag a : α} (ha : a ≠ flag) (rest : List α) :
    take flag (a :: rest) = (take flag rest).map (Prod.map id (a :: ·)) := by
  have hne : (a == flag) = false := by simpa using ha
  simp only [take, List.findIdx?_cons, hne]
  cases List.findIdx? (· == flag) rest with
  | none => rfl
  | some index =>
    cases hvalue : rest[index + 1]? with
    | none => simp [hvalue]
    | some value => simp [hvalue]

/-- **A flag is not found if it is spelled nowhere but at the end.** -/
theorem take_eq_none_iff (flag : α) : ∀ args : List α,
    take flag args = none ↔ flag ∉ args.dropLast
  | [] => by simp [take]
  | [a] => by
    by_cases ha : a = flag
    · simp [take, List.findIdx?_cons, ha]
    · simp [take, List.findIdx?_cons, ha]
  | a :: b :: rest => by
    by_cases ha : a = flag
    · subst ha
      simp
    · rw [take_cons ha, Option.map_eq_none_iff, take_eq_none_iff flag (b :: rest),
        List.dropLast_cons_cons, List.mem_cons, not_or]
      exact ⟨fun h => ⟨fun heq => ha heq.symm, h⟩, fun h => h.2⟩

end Take

/-! ## Optional arguments -/

/-- An argument as it is written: nothing if it is absent. -/
def optional (flag : α) : Option α → List α
  | some value => [flag, value]
  | none => []

section Optional

variable [DecidableEq α] {flag : α} {args : List α}

/-- Take an argument that may be absent. -/
def takeOptional (flag : α) (args : List α) : Option α × List α :=
  match take flag args with
  | some (value, rest) => (some value, rest)
  | none => (none, args)

@[simp] theorem takeOptional_front (value : α) :
    takeOptional flag (flag :: value :: args) = (some value, args) := by
  simp [takeOptional]

theorem takeOptional_absent (h : flag ∉ args.dropLast) : takeOptional flag args = (none, args) := by
  rw [takeOptional, (take_eq_none_iff flag args).2 h]

theorem takeOptional_fst_eq_none : (takeOptional flag args).1 = none ↔ flag ∉ args.dropLast := by
  rw [← take_eq_none_iff, takeOptional]
  cases take flag args with
  | none => simp
  | some found => simp

/-- **What is read in front is what was written**, unless the argument is absent and its flag is
spelled behind. -/
theorem takeOptional_optional_fst (value : Option α) :
    (takeOptional flag (optional flag value ++ args)).1 = value ↔
      (value = none → flag ∉ args.dropLast) := by
  cases value with
  | none => simpa [optional] using takeOptional_fst_eq_none
  | some value => simp [optional]

theorem takeOptional_optional {value : Option α} (h : value = none → flag ∉ args.dropLast) :
    takeOptional flag (optional flag value ++ args) = (value, args) := by
  cases value with
  | none => exact takeOptional_absent (h rfl)
  | some value => simp [optional]

end Optional

/-! ## A line of optional arguments -/

/-- Arguments that may be absent, one after the other. -/
def write (fields : List (α × Option α)) : List α := fields.flatMap fun field => optional field.1 field.2

/-- The values that are there. -/
def values (fields : List (α × Option α)) : List α := fields.filterMap Prod.snd

section Write

variable {flag : α} {value : Option α} {fields : List (α × Option α)}

@[simp] theorem write_nil : write ([] : List (α × Option α)) = [] := rfl

@[simp] theorem write_cons : write ((flag, value) :: fields) = optional flag value ++ write fields :=
  List.flatMap_cons

@[simp] theorem values_some {v : α} : values ((flag, some v) :: fields) = v :: values fields := rfl

@[simp] theorem values_none : values ((flag, none) :: fields) = values fields := rfl

@[simp] theorem dropLast_values_singleton : (values [(flag, value)]).dropLast = [] := by
  cases value <;> rfl

theorem write_eq_nil_iff : ∀ fields : List (α × Option α), write fields = [] ↔ values fields = []
  | [] => by simp [values]
  | (flag, some v) :: fields => by simp [optional]
  | (flag, none) :: fields => by simpa [optional] using write_eq_nil_iff fields

/-- A flag of no field is spelled in a line if it is spelled in a value. -/
theorem mem_dropLast_write : ∀ {fields : List (α × Option α)}, (∀ field ∈ fields, flag ≠ field.1) →
    (flag ∈ (write fields).dropLast ↔ flag ∈ (values fields).dropLast)
  | [], _ => by simp [values]
  | (other, none) :: fields, h => by
    simpa [optional] using mem_dropLast_write fun field hfield => h field (List.mem_cons_of_mem _ hfield)
  | (other, some v) :: fields, h => by
    have ih := mem_dropLast_write fun field hfield => h field (List.mem_cons_of_mem _ hfield)
    have hother : flag ≠ other := h _ List.mem_cons_self
    by_cases hnil : values fields = []
    · simp [optional, (write_eq_nil_iff fields).2 hnil, hnil, hother]
    · have hwrite : write fields ≠ [] := fun h => hnil ((write_eq_nil_iff fields).1 h)
      simp [optional, List.dropLast_cons_of_ne_nil, hnil, hwrite, hother, ih]

end Write

end Lib.Flags
