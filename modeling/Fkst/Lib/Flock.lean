import Mathlib.Logic.Function.Basic
import Mathlib.Tactic.Common

/-!
# Advisory locks

`flock` locks an open file.  The lock belongs to the open file and not to the process that opened it: a
child may inherit it, and it is free when the last process that has the file open has closed it or is
dead.

`Locks κ ι` says for every lock which processes have it.  `Locks.mem_take`, `mem_share`, `mem_drop` and
`mem_die` say who has it after each operation, and a lock that one process has taken alone stays with
that process until it is shared (`Exclusive`).
-/

set_option autoImplicit false

namespace Lib

/-- For every lock, the processes that have it. -/
abbrev Locks (κ ι : Type) := κ → List ι

namespace Locks

variable {κ ι : Type} [DecidableEq κ] [DecidableEq ι] {l : Locks κ ι} {k k' : κ} {p q : ι}

/-- No lock is taken. -/
def none : Locks κ ι := fun _ => []

/-- Take a lock. -/
def take (l : Locks κ ι) (k : κ) (p : ι) : Locks κ ι := Function.update l k [p]

/-- Let another process inherit a lock. -/
def share (l : Locks κ ι) (k : κ) (q : ι) : Locks κ ι := Function.update l k (q :: l k)

/-- Close a file. -/
def drop (l : Locks κ ι) (k : κ) (p : ι) : Locks κ ι := Function.update l k ((l k).filter (· ≠ p))

/-- Close all files of a process. -/
def die (l : Locks κ ι) (p : ι) : Locks κ ι := fun k => (l k).filter (· ≠ p)

omit [DecidableEq κ] [DecidableEq ι] in
@[simp] theorem notMem_none : p ∉ (none : Locks κ ι) k := List.not_mem_nil

omit [DecidableEq ι] in
theorem mem_take : q ∈ l.take k p k' ↔ if k' = k then q = p else q ∈ l k' := by
  rw [take]
  by_cases h : k' = k
  · subst h
    simp
  · rw [Function.update_of_ne h, if_neg h]

omit [DecidableEq ι] in
theorem mem_share : q ∈ l.share k p k' ↔ (k' = k ∧ q = p) ∨ q ∈ l k' := by
  rw [share]
  by_cases h : k' = k
  · subst h
    simp
  · rw [Function.update_of_ne h]
    simp [h]

theorem mem_drop : q ∈ l.drop k p k' ↔ q ∈ l k' ∧ ¬ (k' = k ∧ q = p) := by
  rw [drop]
  by_cases h : k' = k
  · subst h
    simp
  · rw [Function.update_of_ne h]
    simp [h]

omit [DecidableEq κ] in
theorem mem_die : q ∈ l.die p k ↔ q ∈ l k ∧ q ≠ p := by simp [die]

/-- Nobody shares a lock. -/
def Exclusive (l : Locks κ ι) : Prop := ∀ k p q, p ∈ l k → q ∈ l k → p = q

omit [DecidableEq κ] [DecidableEq ι] in
theorem exclusive_none : Exclusive (none : Locks κ ι) := fun _ _ _ h _ => absurd h notMem_none

omit [DecidableEq ι] in
theorem Exclusive.take (h : Exclusive l) (k : κ) (p : ι) : Exclusive (l.take k p) := by
  intro k' q q' hq hq'
  rw [mem_take] at hq hq'
  split at hq
  · rw [if_pos ‹_›] at hq'
    rw [hq, hq']
  · rw [if_neg ‹_›] at hq'
    exact h k' q q' hq hq'

theorem Exclusive.drop (h : Exclusive l) (k : κ) (p : ι) : Exclusive (l.drop k p) :=
  fun k' q q' hq hq' => h k' q q' (mem_drop.1 hq).1 (mem_drop.1 hq').1

end Locks

end Lib
