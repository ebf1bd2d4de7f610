import Mathlib.Data.Finset.Card
import Mathlib.Data.List.Chain
import Mathlib.Logic.Function.Basic
import Mathlib.Logic.Relation
import Mathlib.Tactic.Common

/-!
# Cycles by depth-first search

A search that marks the nodes it is visiting and the nodes it is done with, and reports a cycle
whenever an edge leads back to a node that it is visiting: the nodes of the stack from there on.

Every report is a cycle of the graph (`Reports`).  The converse is not that every cycle is reported,
but that every cycle has a reported edge: the nodes that are done can be put in an order in which every
edge leads down or was reported (`Finished`).  So each strongly connected component with a cycle gets a
report (`exists_report`).  The search comes to an end if it may go as deep as there are nodes
(`search_isSome`).
-/

set_option autoImplicit false

namespace Lib.Dfs

open Relation

/-- `VisitState`, as usual in such searches. -/
inductive Mark where
  | visiting
  | done
deriving DecidableEq

/-- The state of a search, with what has been reported. -/
structure State (α ρ : Type) where
  mark : α → Option Mark
  stack : List α
  out : ρ

variable {α ρ : Type} (next : α → List α) (report : List α → ρ → ρ)

section Definitions

variable [DecidableEq α]

/-- The cycle that an edge back to a node of the stack closes. -/
def cycleAt (stack : List α) (a : α) : List α := stack.dropWhile (· ≠ a) ++ [a]

/-- Visit a node, and go no deeper than the fuel. -/
def visit (fuel : ℕ) (a : α) (s : State α ρ) : Option (State α ρ) :=
  match s.mark a with
  | some .done => some s
  | some .visiting =>
    if a ∈ s.stack then some { s with out := report (cycleAt s.stack a) s.out } else some s
  | none =>
    match fuel with
    | 0 => none
    | fuel + 1 => do
      let s ← (next a).foldlM (fun s b => visit fuel b s)
        { s with mark := Function.update s.mark a (some .visiting), stack := s.stack ++ [a] }
      return { s with mark := Function.update s.mark a (some .done), stack := s.stack.dropLast }

/-- Visit one node after another. -/
def search (fuel : ℕ) (roots : List α) (s : State α ρ) : Option (State α ρ) :=
  roots.foldlM (fun s a => visit next report fuel a s) s

end Definitions

/-! ## Cycles and reports -/

/-- The edges of the graph. -/
def Edge (a b : α) : Prop := b ∈ next a

/-- **A cycle**: a path that ends where it starts. -/
def IsCycle (c : List α) : Prop := ∃ a mid, c = a :: (mid ++ [a]) ∧ c.IsChain (Edge next)

/-- What is reported, one cycle after the other. -/
def Reports : ρ → ρ → Prop := ReflTransGen fun r r' => ∃ c, IsCycle next c ∧ r' = report c r

section Cycles

variable {next} {a b : α} {l c : List α}

theorem reflTransGen_of_isChain_cons (h : (a :: l).IsChain (Edge next)) {x : α} (hx : x ∈ a :: l) :
    ReflTransGen (Edge next) a x := by
  obtain ⟨front, back, heq⟩ := List.append_of_mem hx
  rw [heq, List.append_cons] at h
  cases front with
  | nil =>
    obtain rfl := (List.cons.inj heq).1
    exact .refl
  | cons a' front =>
    obtain ⟨rfl, _⟩ := List.cons.inj heq
    exact List.relationReflTransGen_of_exists_isChain_cons (front ++ [x]) h.left_of_append (by simp)

theorem reflTransGen_of_isChain_concat (h : (l ++ [b]).IsChain (Edge next)) {x : α} (hx : x ∈ l ++ [b]) :
    ReflTransGen (Edge next) x b := by
  obtain ⟨front, back, heq⟩ := List.append_of_mem hx
  rw [heq] at h
  have hchain := h.right_of_append
  have hlast : (x :: back).getLast (List.cons_ne_nil _ _) = b := by
    have := congrArg List.getLast? heq
    simpa [List.getLast?_eq_getLast_of_ne_nil] using this.symm
  exact List.relationReflTransGen_of_exists_isChain_cons back hchain hlast

/-- The nodes of a cycle reach each other. -/
theorem IsCycle.reaches (h : IsCycle next c) {x y : α} (hx : x ∈ c) (hy : y ∈ c) :
    ReflTransGen (Edge next) x y := by
  obtain ⟨a, mid, rfl, hchain⟩ := h
  exact (reflTransGen_of_isChain_concat (l := a :: mid) hchain hx).trans
    (reflTransGen_of_isChain_cons hchain hy)

end Cycles

/-! ## What the search keeps -/

section Search

variable (Has : ρ → List α → Prop)

/-- An edge that closes a reported cycle. -/
def Reported (out : ρ) (a b : α) : Prop :=
  ∃ front, IsCycle next (front ++ [a, b]) ∧ Has out (front ++ [a, b])

/-- Every edge of the nodes leads further down, or was reported. -/
inductive Finished (out : ρ) : List α → Prop where
  | nil : Finished out []
  | cons {a : α} {order : List α} (h : ∀ b ∈ next a, Reported next Has out a b ∨ b ∈ order)
    (rest : Finished out order) : Finished out (a :: order)

/-- **The invariant of the search.** -/
structure Inv (s : State α ρ) : Prop where
  nodup : s.stack.Nodup
  visiting : ∀ x, s.mark x = some .visiting ↔ x ∈ s.stack
  chain : s.stack.IsChain (Edge next)
  finished : ∃ order, (∀ x, s.mark x = some .done ↔ x ∈ order) ∧ Finished next Has s.out order

/-- What a visit of a node does. -/
structure Visited (s : State α ρ) (a : α) (s' : State α ρ) : Prop where
  inv : Inv next Has s'
  stack : s'.stack = s.stack
  mark : ∀ x m, s.mark x = some m → s'.mark x = some m
  reports : Reports next report s.out s'.out
  /-- The node is done, or the edge to it was reported. -/
  closed : s'.mark a = some .done ∨ ∃ p, s.stack.getLast? = some p ∧ Reported next Has s'.out p a

variable {next report Has} {s s' : State α ρ} {a b : α}

/-- Reports are not taken back. -/
theorem Reported.mono (hmono : ∀ c c' r, Has r c' → Has (report c r) c') {r r' : ρ}
    (hreports : Reports next report r r') (h : Reported next Has r a b) : Reported next Has r' a b := by
  induction hreports with
  | refl => exact h
  | tail _ hstep ih =>
    obtain ⟨c, _, rfl⟩ := hstep
    obtain ⟨front, hcycle, hhas⟩ := ih
    exact ⟨front, hcycle, hmono c _ _ hhas⟩

theorem Finished.mono (hmono : ∀ c c' r, Has r c' → Has (report c r) c') {r r' : ρ}
    (hreports : Reports next report r r') {order : List α} (h : Finished next Has r order) :
    Finished next Has r' order := by
  induction h with
  | nil => exact .nil
  | cons h _ ih => exact .cons (fun b hb => (h b hb).imp_left fun h => h.mono hmono hreports) ih

theorem Inv.mono_out (hmono : ∀ c c' r, Has r c' → Has (report c r) c') (h : Inv next Has s) {out : ρ}
    (hreports : Reports next report s.out out) : Inv next Has { s with out := out } where
  nodup := h.nodup
  visiting := h.visiting
  chain := h.chain
  finished := h.finished.imp fun _ horder => ⟨horder.1, horder.2.mono hmono hreports⟩

section Visit

variable [DecidableEq α]

/-- An edge back to a node of the stack closes a cycle. -/
theorem isCycle_cycleAt (hchain : s.stack.IsChain (Edge next)) (ha : a ∈ s.stack)
    (hedge : ∀ p, s.stack.getLast? = some p → a ∈ next p) :
    IsCycle next (cycleAt s.stack a) ∧
      ∃ front p, s.stack.getLast? = some p ∧ cycleAt s.stack a = front ++ [p, a] := by
  obtain ⟨front, back, hstack, hnot⟩ := List.eq_append_cons_of_mem ha
  have hcycle : cycleAt s.stack a = a :: (back ++ [a]) := by
    rw [cycleAt, hstack, List.dropWhile_append_of_pos fun x hx => by
      simpa using ne_of_mem_of_not_mem hx hnot]
    simp
  have hne : a :: back ≠ [] := List.cons_ne_nil _ _
  have hlast : s.stack.getLast? = some ((a :: back).getLast hne) := by
    rw [hstack, List.getLast?_append_of_ne_nil _ hne, List.getLast?_eq_some_getLast hne]
  have hchain' : (a :: (back ++ [a])).IsChain (Edge next) := by
    rw [hstack] at hchain
    have hchain : (a :: back).IsChain (Edge next) := hchain.right_of_append
    refine hchain.append (List.isChain_singleton a) ?_
    intro x hx y hy
    rw [List.getLast?_eq_some_getLast hne, Option.mem_some_iff] at hx
    obtain rfl : a = y := by simpa using hy
    exact hedge x (hlast.trans (congrArg some hx))
  refine ⟨hcycle ▸ ⟨a, back, rfl, hchain'⟩, (a :: back).dropLast, _, hlast, ?_⟩
  rw [hcycle, ← List.cons_append]
  exact (congrArg (· ++ [a]) (List.dropLast_append_getLast hne).symm).trans (List.append_assoc _ _ _)

/-- A node that is being visited, at the end of the stack. -/
theorem Inv.push (h : Inv next Has s) (hmark : s.mark a = none)
    (hedge : ∀ p, s.stack.getLast? = some p → a ∈ next p) :
    Inv next Has
      { s with mark := Function.update s.mark a (some .visiting), stack := s.stack ++ [a] } where
  nodup := by
    have hnot : a ∉ s.stack := fun hmem => by
      rw [(h.visiting a).2 hmem] at hmark
      cases hmark
    exact List.nodup_append.2 ⟨h.nodup, List.nodup_singleton a, fun x hx y hy => by
      rw [List.mem_singleton.1 hy]
      exact ne_of_mem_of_not_mem hx hnot⟩
  visiting x := by
    rw [List.mem_append, List.mem_singleton, ← h.visiting]
    show Function.update s.mark a _ x = _ ↔ _
    rcases eq_or_ne x a with rfl | hne
    · simp
    · rw [Function.update_of_ne hne]
      simp [hne]
  chain := h.chain.append (List.isChain_singleton a) fun p hp y hy => by
    obtain rfl : a = y := by simpa using hy
    exact hedge p hp
  finished := by
    obtain ⟨order, hdone, hfinished⟩ := h.finished
    refine ⟨order, fun x => ?_, hfinished⟩
    rw [← hdone]
    show Function.update s.mark a _ x = _ ↔ _
    rcases eq_or_ne x a with rfl | hne
    · simp [hmark]
    · rw [Function.update_of_ne hne]

/-- A node is done, and leaves the stack. -/
theorem Inv.pop (h : Inv next Has s) {stack : List α} (hstack : s.stack = stack ++ [a])
    (hnext : ∀ b ∈ next a, s.mark b = some .done ∨ Reported next Has s.out a b) :
    Inv next Has { s with mark := Function.update s.mark a (some .done), stack := s.stack.dropLast } := by
  have hdrop : s.stack.dropLast = stack := by rw [hstack, List.dropLast_concat]
  have hnodup := h.nodup
  rw [hstack] at hnodup
  have hnot : a ∉ stack := fun hmem =>
    (List.nodup_append.1 hnodup).2.2 a hmem a (List.mem_singleton_self a) rfl
  rw [hdrop]
  refine ⟨(List.nodup_append.1 hnodup).1, fun x => ?_, ?_, ?_⟩
  · rcases eq_or_ne x a with rfl | hne
    · simp [hnot]
    · show Function.update s.mark a _ x = _ ↔ _
      rw [Function.update_of_ne hne, h.visiting, hstack]
      simp [hne]
  · have hchain := h.chain
    rw [hstack] at hchain
    exact hchain.left_of_append
  · obtain ⟨order, hdone, hfinished⟩ := h.finished
    refine ⟨a :: order, fun x => ?_, .cons (fun b hb => ?_) hfinished⟩
    · rw [List.mem_cons, ← hdone]
      show Function.update s.mark a _ x = _ ↔ _
      rcases eq_or_ne x a with rfl | hne
      · simp
      · rw [Function.update_of_ne hne]
        simp [hne]
    · rw [← hdone]
      exact (hnext b hb).symm

/-- What a loop over successors of the node on top of the stack does. -/
theorem visit_all {fuel : ℕ} (hmono : ∀ c c' r, Has r c' → Has (report c r) c')
    (hvisit : ∀ a s s', Inv next Has s → (∀ p, s.stack.getLast? = some p → a ∈ next p) →
      visit next report fuel a s = some s' → Visited next report Has s a s')
    {p : α} {nodes : List α} (hnodes : ∀ b ∈ nodes, b ∈ next p) {s s' : State α ρ} (h : Inv next Has s)
    (htop : s.stack.getLast? = some p)
    (hloop : nodes.foldlM (fun s b => visit next report fuel b s) s = some s') :
    Inv next Has s' ∧ s'.stack = s.stack ∧ (∀ x m, s.mark x = some m → s'.mark x = some m) ∧
      Reports next report s.out s'.out ∧
      ∀ b ∈ nodes, s'.mark b = some .done ∨ Reported next Has s'.out p b := by
  induction nodes generalizing s with
  | nil =>
    obtain rfl := Option.some.inj hloop
    exact ⟨h, rfl, fun _ _ h => h, .refl, fun b hb => by cases hb⟩
  | cons b nodes ih =>
    obtain ⟨s₁, hfirst, hrest⟩ := Option.bind_eq_some_iff.1 hloop
    have hb : ∀ q, s.stack.getLast? = some q → b ∈ next q := fun q hq => by
      obtain rfl := Option.some.inj (htop.symm.trans hq)
      exact hnodes b List.mem_cons_self
    have hvisited := hvisit b s s₁ h hb hfirst
    obtain ⟨hinv, hstack, hmark, hreports, hclosed⟩ :=
      ih (fun b hb => hnodes b (List.mem_cons_of_mem _ hb)) hvisited.inv (hvisited.stack ▸ htop) hrest
    refine ⟨hinv, hstack.trans hvisited.stack, fun x m hx => hmark x m (hvisited.mark x m hx),
      hvisited.reports.trans hreports, fun b' hb' => ?_⟩
    rcases List.mem_cons.1 hb' with rfl | hb'
    · refine hvisited.closed.imp (hmark b' _) ?_
      rintro ⟨q, hq, hreported⟩
      obtain rfl := Option.some.inj (htop.symm.trans hq)
      exact hreported.mono hmono hreports
    · exact hclosed b' hb'

theorem visit_done {fuel : ℕ} (hmark : s.mark a = some .done) :
    visit next report fuel a s = some s := by
  rw [visit.eq_def, hmark]

theorem visit_visiting {fuel : ℕ} (h : Inv next Has s) (hmark : s.mark a = some .visiting) :
    visit next report fuel a s = some { s with out := report (cycleAt s.stack a) s.out } := by
  rw [visit.eq_def, hmark]
  exact if_pos ((h.visiting a).1 hmark)

theorem visit_zero (hmark : s.mark a = none) : visit next report 0 a s = none := by
  rw [visit, hmark]

theorem visit_succ {fuel : ℕ} (hmark : s.mark a = none) :
    visit next report (fuel + 1) a s =
      ((next a).foldlM (fun s b => visit next report fuel b s)
        { s with mark := Function.update s.mark a (some .visiting), stack := s.stack ++ [a] }).map fun s =>
          { s with mark := Function.update s.mark a (some .done), stack := s.stack.dropLast } := by
  rw [visit, hmark]
  exact (Option.map_eq_bind ..).symm

/-- A node that is marked is not visited again, and closes a cycle if it is on the stack. -/
theorem visited_of_marked (hself : ∀ c r, Has (report c r) c)
    (hmono : ∀ c c' r, Has r c' → Has (report c r) c') {fuel : ℕ} {m : Mark} (h : Inv next Has s)
    (hedge : ∀ p, s.stack.getLast? = some p → a ∈ next p) (hmark : s.mark a = some m)
    (hvisit : visit next report fuel a s = some s') : Visited next report Has s a s' := by
  cases m with
  | done =>
    rw [visit_done hmark] at hvisit
    obtain rfl := Option.some.inj hvisit
    exact ⟨h, rfl, fun _ _ hx => hx, .refl, Or.inl hmark⟩
  | visiting =>
    rw [visit_visiting h hmark] at hvisit
    obtain rfl := Option.some.inj hvisit
    obtain ⟨hcycle, front, p, hp, heq⟩ := isCycle_cycleAt h.chain ((h.visiting a).1 hmark) hedge
    have hreports : Reports next report s.out (report (cycleAt s.stack a) s.out) := .single ⟨_, hcycle, rfl⟩
    refine ⟨h.mono_out hmono hreports, rfl, fun _ _ hx => hx, hreports, Or.inr ⟨p, hp, front, ?_⟩⟩
    rw [← heq]
    exact ⟨hcycle, hself _ _⟩

/-- **What a visit does.** -/
theorem visited_of_visit (hself : ∀ c r, Has (report c r) c)
    (hmono : ∀ c c' r, Has r c' → Has (report c r) c') {fuel : ℕ} (h : Inv next Has s)
    (hedge : ∀ p, s.stack.getLast? = some p → a ∈ next p)
    (hvisit : visit next report fuel a s = some s') : Visited next report Has s a s' := by
  induction fuel generalizing a s s' with
  | zero =>
    cases hmark : s.mark a with
    | none =>
      rw [visit_zero hmark] at hvisit
      cases hvisit
    | some m => exact visited_of_marked hself hmono h hedge hmark hvisit
  | succ fuel ih =>
    cases hmark : s.mark a with
    | some m => exact visited_of_marked hself hmono h hedge hmark hvisit
    | none =>
      rw [visit_succ hmark] at hvisit
      obtain ⟨s₁, hloop, rfl⟩ := Option.map_eq_some_iff.1 hvisit
      obtain ⟨hinv, hstack, hmarks, hreports, hclosed⟩ := visit_all hmono
        (fun a s s' h hedge hvisit => ih h hedge hvisit) (fun b hb => hb) (h.push hmark hedge) (by simp) hloop
      refine ⟨hinv.pop hstack hclosed, ?_, fun x m hx => ?_, hreports, Or.inl (by simp)⟩
      · show s₁.stack.dropLast = s.stack
        rw [hstack, List.dropLast_concat]
      · have hne : x ≠ a := by
          rintro rfl
          rw [hmark] at hx
          cases hx
        show Function.update s₁.mark a _ x = _
        rw [Function.update_of_ne hne]
        refine hmarks x m ?_
        show Function.update s.mark a _ x = _
        rw [Function.update_of_ne hne, hx]

/-- What a search from an empty stack does. -/
theorem search_spec (hself : ∀ c r, Has (report c r) c)
    (hmono : ∀ c c' r, Has r c' → Has (report c r) c') {fuel : ℕ} {roots : List α} (h : Inv next Has s)
    (hstack : s.stack = []) (hsearch : search next report fuel roots s = some s') :
    Inv next Has s' ∧ (∀ x m, s.mark x = some m → s'.mark x = some m) ∧
      Reports next report s.out s'.out ∧ ∀ a ∈ roots, s'.mark a = some .done := by
  induction roots generalizing s with
  | nil =>
    obtain rfl := Option.some.inj hsearch
    exact ⟨h, fun _ _ hx => hx, .refl, fun a ha => by cases ha⟩
  | cons a roots ih =>
    obtain ⟨s₁, hfirst, hrest⟩ := Option.bind_eq_some_iff.1 hsearch
    have hnone : ∀ p, s.stack.getLast? ≠ some p := fun p hp => by simp [hstack] at hp
    have hvisited := visited_of_visit hself hmono h (fun p hp => absurd hp (hnone p)) hfirst
    obtain ⟨hinv, hmark, hreports, hdone⟩ := ih hvisited.inv (hvisited.stack.trans hstack) hrest
    refine ⟨hinv, fun x m hx => hmark x m (hvisited.mark x m hx), hvisited.reports.trans hreports,
      fun b hb => ?_⟩
    rcases List.mem_cons.1 hb with rfl | hb
    · rcases hvisited.closed with hclosed | ⟨p, hp, _⟩
      · exact hmark b _ hclosed
      · exact absurd hp (hnone p)
    · exact hdone b hb

/-! ## The search comes to an end -/

/-- The nodes that are not marked. -/
def unmarked (nodes : Finset α) (s : State α ρ) : Finset α := nodes.filter fun x => s.mark x = none

omit [DecidableEq α] in
theorem unmarked_mono (nodes : Finset α) (hmark : ∀ x m, s.mark x = some m → s'.mark x = some m) :
    (unmarked nodes s').card ≤ (unmarked nodes s).card := by
  refine Finset.card_le_card fun x hx => ?_
  rw [unmarked, Finset.mem_filter] at hx ⊢
  refine ⟨hx.1, Option.eq_none_iff_forall_ne_some.2 fun m hm => ?_⟩
  rw [hmark x m hm] at hx
  cases hx.2

/-- A node that is marked is not unmarked. -/
theorem unmarked_update {nodes : Finset α} (ha : a ∈ nodes) (hmark : s.mark a = none) (stack : List α) :
    (unmarked nodes { s with mark := Function.update s.mark a (some .visiting), stack := stack }).card <
      (unmarked nodes s).card := by
  refine Finset.card_lt_card ((Finset.ssubset_iff_of_subset fun x hx => ?_).2 ⟨a, ?_, ?_⟩)
  · rw [unmarked, Finset.mem_filter] at hx ⊢
    refine ⟨hx.1, ?_⟩
    have hne : x ≠ a := by
      rintro rfl
      simp at hx
    simpa [Function.update_of_ne hne] using hx.2
  · exact Finset.mem_filter.2 ⟨ha, hmark⟩
  · simp [unmarked]

/-- **There is a result** if the fuel is enough for all nodes that are not marked. -/
theorem visit_isSome (hself : ∀ c r, Has (report c r) c)
    (hmono : ∀ c c' r, Has r c' → Has (report c r) c') {nodes : Finset α}
    (hnodes : ∀ a ∈ nodes, ∀ b ∈ next a, b ∈ nodes) {fuel : ℕ} (ha : a ∈ nodes) (h : Inv next Has s)
    (hedge : ∀ p, s.stack.getLast? = some p → a ∈ next p) (hfuel : (unmarked nodes s).card ≤ fuel) :
    ∃ s', visit next report fuel a s = some s' := by
  induction fuel generalizing a s with
  | zero =>
    cases hmark : s.mark a with
    | none =>
      have hmem : a ∈ unmarked nodes s := Finset.mem_filter.2 ⟨ha, hmark⟩
      have := Finset.card_pos.2 ⟨a, hmem⟩
      omega
    | some m =>
      cases m with
      | done => exact ⟨s, visit_done hmark⟩
      | visiting => exact ⟨_, visit_visiting h hmark⟩
  | succ fuel ih =>
    cases hmark : s.mark a with
    | some m =>
      cases m with
      | done => exact ⟨s, visit_done hmark⟩
      | visiting => exact ⟨_, visit_visiting h hmark⟩
    | none =>
      -- the loop over the successors, which marks more and more nodes
      have hloop : ∀ (l : List α) (s : State α ρ), (∀ b ∈ l, b ∈ next a) → Inv next Has s →
          s.stack.getLast? = some a → (unmarked nodes s).card ≤ fuel →
          ∃ s', l.foldlM (fun s b => visit next report fuel b s) s = some s' := by
        intro l
        induction l with
        | nil => exact fun s _ _ _ _ => ⟨s, rfl⟩
        | cons b l ihl =>
          intro s hl hinv htop hcard
          have hedge : ∀ p, s.stack.getLast? = some p → b ∈ next p := fun p hp => by
            obtain rfl := Option.some.inj (htop.symm.trans hp)
            exact hl b List.mem_cons_self
          obtain ⟨s₁, hfirst⟩ := ih (hnodes a ha b (hl b List.mem_cons_self)) hinv hedge hcard
          have hvisited := visited_of_visit hself hmono hinv hedge hfirst
          obtain ⟨s₂, hrest⟩ := ihl s₁ (fun b hb => hl b (List.mem_cons_of_mem _ hb)) hvisited.inv
            (hvisited.stack ▸ htop) ((unmarked_mono nodes hvisited.mark).trans hcard)
          exact ⟨s₂, Option.bind_eq_some_iff.2 ⟨s₁, hfirst, hrest⟩⟩
      have hcard := unmarked_update (s := s) ha hmark (s.stack ++ [a])
      obtain ⟨s', hs'⟩ := hloop (next a) _ (fun b hb => hb) (h.push hmark hedge) (by simp) (by omega)
      exact ⟨_, by rw [visit_succ hmark, hs']; rfl⟩

/-- **A search comes to an end** if the fuel is enough for all nodes. -/
theorem search_isSome (hself : ∀ c r, Has (report c r) c)
    (hmono : ∀ c c' r, Has r c' → Has (report c r) c') {nodes : Finset α}
    (hnodes : ∀ a ∈ nodes, ∀ b ∈ next a, b ∈ nodes) {fuel : ℕ} (hfuel : nodes.card ≤ fuel)
    {roots : List α} (hroots : ∀ a ∈ roots, a ∈ nodes) (h : Inv next Has s) (hstack : s.stack = []) :
    ∃ s', search next report fuel roots s = some s' := by
  induction roots generalizing s with
  | nil => exact ⟨s, rfl⟩
  | cons a roots ih =>
    have hedge : ∀ p, s.stack.getLast? = some p → a ∈ next p := fun p hp => by simp [hstack] at hp
    obtain ⟨s₁, hfirst⟩ := visit_isSome hself hmono hnodes (hroots a List.mem_cons_self) h hedge
      ((Finset.card_filter_le _ _).trans hfuel)
    have hvisited := visited_of_visit hself hmono h hedge hfirst
    obtain ⟨s₂, hrest⟩ := ih (fun a ha => hroots a (List.mem_cons_of_mem _ ha)) hvisited.inv
      (hvisited.stack.trans hstack)
    exact ⟨s₂, Option.bind_eq_some_iff.2 ⟨s₁, hfirst, hrest⟩⟩

end Visit

/-! ## Every cycle has a reported edge -/

/-- An edge that was not reported. -/
def Silent (next : α → List α) (Has : ρ → List α → Prop) (out : ρ) (a b : α) : Prop :=
  Edge next a b ∧ ¬ Reported next Has out a b

/-- What is not reported does not lead out of the order. -/
theorem Finished.mem_of_silent {out : ρ} {order : List α} (h : Finished next Has out order) {x y : α}
    (hx : x ∈ order) (hsilent : Silent next Has out x y) : y ∈ order := by
  induction h with
  | nil => cases hx
  | cons hnext _ ih =>
    rcases List.mem_cons.1 hx with rfl | hx
    · exact List.mem_cons_of_mem _ ((hnext y hsilent.1).resolve_left hsilent.2)
    · exact List.mem_cons_of_mem _ (ih hx)

theorem Finished.mem_of_path {out : ρ} {order : List α} (h : Finished next Has out order) {x y : α}
    (hx : x ∈ order) (hpath : ReflTransGen (Silent next Has out) x y) : y ∈ order := by
  induction hpath with
  | refl => exact hx
  | tail _ hsilent ih => exact h.mem_of_silent ih hsilent

/-- **No cycle goes unreported.** -/
theorem Finished.not_silent {out : ρ} {order : List α} (h : Finished next Has out order) {x : α}
    (hx : x ∈ order) : ¬ TransGen (Silent next Has out) x x := by
  induction h with
  | nil => cases hx
  | @cons a order hnext hrest ih =>
    intro hcycle
    -- the first step of the cycle leads below `a`, and the rest of it stays there
    obtain ⟨y, hstep, hpath⟩ := TransGen.head'_iff.1 hcycle
    have hy : y ∈ order := by
      rcases List.mem_cons.1 hx with rfl | hx
      · exact (hnext y hstep.1).resolve_left hstep.2
      · exact hrest.mem_of_silent hx hstep
    exact ih (hrest.mem_of_path hy hpath) hcycle

/-- A path without a reported edge, or one with. -/
theorem silent_or_reported {out : ρ} {x y : α} (h : TransGen (Edge next) x y) :
    TransGen (Silent next Has out) x y ∨
      ∃ a b, ReflTransGen (Edge next) x a ∧ Reported next Has out a b ∧ ReflTransGen (Edge next) b y := by
  induction h with
  | @single y hedge =>
    by_cases hreported : Reported next Has out x y
    · exact Or.inr ⟨x, y, .refl, hreported, .refl⟩
    · exact Or.inl (.single ⟨hedge, hreported⟩)
  | @tail y z hpath hedge ih =>
    rcases ih with hsilent | ⟨a, b, hxa, hreported, hby⟩
    · by_cases hreported : Reported next Has out y z
      · exact Or.inr ⟨y, z, hpath.to_reflTransGen, hreported, .refl⟩
      · exact Or.inl (hsilent.tail ⟨hedge, hreported⟩)
    · exact Or.inr ⟨a, b, hxa, hreported, hby.tail hedge⟩

/-- **A node on a cycle is in a component with a report.** -/
theorem Inv.exists_report (h : Inv next Has s) (hdone : s.mark a = some .done)
    (hcycle : TransGen (Edge next) a a) :
    ∃ c, IsCycle next c ∧ Has s.out c ∧
      ∀ x ∈ c, ReflTransGen (Edge next) a x ∧ ReflTransGen (Edge next) x a := by
  obtain ⟨order, horder, hfinished⟩ := h.finished
  rcases silent_or_reported hcycle with hsilent | ⟨x, y, hax, ⟨front, hreal, hhas⟩, hya⟩
  · exact absurd hsilent (hfinished.not_silent ((horder a).1 hdone))
  · refine ⟨front ++ [x, y], hreal, hhas, fun z hz => ?_⟩
    exact ⟨hax.trans (hreal.reaches (by simp) hz), (hreal.reaches hz (by simp)).trans hya⟩

/-- The nodes of a cycle reach themselves. -/
theorem IsCycle.transGen {c : List α} (h : IsCycle next c) {x : α} (hx : x ∈ c) :
    TransGen (Edge next) x x := by
  have hreaches := fun y (hy : y ∈ c) => h.reaches hx hy
  have hreached := fun y (hy : y ∈ c) => h.reaches hy hx
  obtain ⟨a, mid, rfl, hchain⟩ := h
  cases mid with
  | nil =>
    have hedge : Edge next a a := List.isChain_pair.1 hchain
    exact .trans_right (hreaches a List.mem_cons_self) (.head' hedge (hreached a List.mem_cons_self))
  | cons b mid =>
    have hedge : Edge next a b := (List.isChain_cons_cons.1 hchain).1
    exact .trans_right (hreaches a List.mem_cons_self) (.head' hedge (hreached b (by simp)))

theorem inv_init (out : ρ) : Inv next Has (⟨fun _ => none, [], out⟩ : State α ρ) where
  nodup := List.nodup_nil
  visiting x := by simp
  chain := List.isChain_nil
  finished := ⟨[], fun x => by simp, .nil⟩

end Search

end Lib.Dfs
