import Mathlib.Data.Set.Insert
import Mathlib.Logic.Relation
import Mathlib.Tactic.Common

/-!
# Searching a graph below a path

A search that goes down from node to node and remembers only the nodes of the path that it is on
finds a cycle when it comes back to one of them.  Nodes that it has left again are forgotten, so that
a node with several parents is visited from each.

`clear_iff` is the recursion of such a search: a node is clear below a path if it is not on the path
and its successors are clear below the path that goes on through it.
-/

set_option autoImplicit false

namespace Lib.OnPath

open Relation

variable {α : Type} (next : α → α → Prop) (ok : α → Prop)

/-- What can be reached from a node is as it should be, is not on the path and not on a cycle. -/
def Clear (path : Set α) (a : α) : Prop :=
  ∀ b, ReflTransGen next a b → ok b ∧ b ∉ path ∧ ¬TransGen next b b

variable {next ok} {path : Set α} {a b : α}

theorem Clear.of_next (h : Clear next ok path a) (hb : next a b) :
    Clear next ok (insert a path) b := by
  intro c hc
  obtain ⟨hok, hpath, hcycle⟩ := h c (.head hb hc)
  refine ⟨hok, ?_, hcycle⟩
  rw [Set.mem_insert_iff, not_or]
  refine ⟨?_, hpath⟩
  rintro rfl
  exact (h c .refl).2.2 (.head' hb hc)

/-- **Down one step.** -/
theorem clear_iff : Clear next ok path a ↔
    ok a ∧ a ∉ path ∧ ∀ b, next a b → Clear next ok (insert a path) b := by
  constructor
  · intro h
    exact ⟨(h a .refl).1, (h a .refl).2.1, fun b hb => h.of_next hb⟩
  · rintro ⟨hok, hpath, hnext⟩ c hc
    rcases ReflTransGen.cases_head hc with rfl | ⟨b, hb, hbc⟩
    · refine ⟨hok, hpath, fun hcycle => ?_⟩
      obtain ⟨b, hb, hba⟩ := TransGen.head'_iff.1 hcycle
      exact (hnext b hb a hba).2.1 (Set.mem_insert _ _)
    · obtain ⟨hok, hinsert, hcycle⟩ := hnext b hb c hbc
      exact ⟨hok, fun hmem => hinsert (Set.mem_insert_of_mem _ hmem), hcycle⟩

/-- A node without successors. -/
theorem clear_of_leaf (hleaf : ∀ b, ¬next a b) : Clear next ok path a ↔ ok a ∧ a ∉ path := by
  rw [clear_iff]
  constructor
  · rintro ⟨hok, hpath, -⟩
    exact ⟨hok, hpath⟩
  · rintro ⟨hok, hpath⟩
    exact ⟨hok, hpath, fun b hb => absurd hb (hleaf b)⟩

end Lib.OnPath
