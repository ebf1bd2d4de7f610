import Mathlib.Tactic.Common

/-!
# Bounded mailboxes

The buffer of a bounded channel.  What is sent to a full one is dropped, and what is not dropped comes out
in the order in which it was sent.
-/

set_option autoImplicit false

namespace Lib

/-- The buffer of a channel, which holds no more than its capacity. -/
structure Mailbox (α : Type) where
  capacity : ℕ
  items : List α
  fits : items.length ≤ capacity

namespace Mailbox

variable {α : Type} {m m' : Mailbox α} {a : α}

/-- A new channel. -/
def empty (capacity : ℕ) : Mailbox α := ⟨capacity, [], Nat.zero_le _⟩

/-- There is room for one more. -/
def HasRoom (m : Mailbox α) : Prop := m.items.length < m.capacity

instance : Decidable m.HasRoom := inferInstanceAs (Decidable (_ < _))

/-- Send what there is room for, and drop it otherwise. -/
def trySend (m : Mailbox α) (a : α) : Mailbox α :=
  if h : m.HasRoom then ⟨m.capacity, m.items ++ [a], by rw [List.length_append]; exact h⟩ else m

/-- Take what came first. -/
def recv (m : Mailbox α) : Option (α × Mailbox α) :=
  match m with
  | ⟨_, [], _⟩ => none
  | ⟨capacity, a :: items, fits⟩ => some (a, ⟨capacity, items, Nat.le_of_succ_le fits⟩)

@[simp] theorem items_empty (capacity : ℕ) : (empty capacity : Mailbox α).items = [] := rfl

theorem items_trySend (m : Mailbox α) (a : α) :
    (m.trySend a).items = m.items ++ if m.HasRoom then [a] else [] := by
  by_cases h : m.HasRoom
  · rw [trySend, dif_pos h, if_pos h]
  · rw [trySend, dif_neg h, if_neg h, List.append_nil]

theorem capacity_trySend (m : Mailbox α) (a : α) : (m.trySend a).capacity = m.capacity := by
  rw [trySend]
  split <;> rfl

theorem recv_eq_some (h : m.recv = some (a, m')) : m.items = a :: m'.items ∧ m'.capacity = m.capacity := by
  obtain ⟨capacity, items, fits⟩ := m
  cases items with
  | nil => cases h
  | cons b items =>
    obtain ⟨rfl, rfl⟩ := Prod.mk.inj (Option.some.inj h)
    exact ⟨rfl, rfl⟩

theorem recv_eq_none : m.recv = none ↔ m.items = [] := by
  obtain ⟨capacity, items, fits⟩ := m
  cases items <;> simp [recv]

end Mailbox

end Lib
