import Mathlib.Tactic.Common

/-!
# Machines and their histories

Two ways to talk about something that moves in steps.

`Machine.run` is for a machine that is a *function*: from a state and an input to a state and,
sometimes, an output.  A run collects the outputs, and what one step preserves of state and history
a run preserves (`Machine.run_induction`).

`Path` is for a step *relation* whose steps carry a label or none.  A path collects the labels; the
steps without one leave no trace in it, which is what lets a concrete step be matched by several
abstract ones of which only some matter.
-/

set_option autoImplicit false

namespace Lib

variable {σ α ω ε : Type}

namespace Machine

/-- Feed a machine its inputs, and collect what it puts out. -/
def run (step : σ → α → σ × Option ω) : σ → List α → σ × List ω
  | s, [] => (s, [])
  | s, a :: as =>
    let (s, o) := step s a
    let (s, os) := run step s as
    (s, o.toList ++ os)

variable {step : σ → α → σ × Option ω}

@[simp] theorem run_nil (s : σ) : run step s [] = (s, []) := rfl

theorem run_cons (s : σ) (a : α) (as : List α) :
    run step s (a :: as) =
      ((run step (step s a).1 as).1, (step s a).2.toList ++ (run step (step s a).1 as).2) := rfl

theorem run_append (s : σ) : ∀ as bs : List α,
    run step s (as ++ bs) =
      ((run step (run step s as).1 bs).1, (run step s as).2 ++ (run step (run step s as).1 bs).2)
  | [], bs => rfl
  | a :: as, bs => by
    rw [List.cons_append, run_cons, run_cons, run_append]
    simp

/-- **What a step preserves, a run preserves.**  The property may speak about the history so far. -/
theorem run_induction {P : σ → List ω → Prop}
    (hstep : ∀ s h a, P s h → P (step s a).1 (h ++ (step s a).2.toList)) :
    ∀ {s : σ} {h : List ω} (as : List α), P s h → P (run step s as).1 (h ++ (run step s as).2)
  | s, h, [], hs => by simpa using hs
  | s, h, a :: as, hs => by
    have := run_induction hstep as (hstep s h a hs)
    rw [run_cons]
    simpa using this

/-- What was put out was put out by one of the steps. -/
theorem mem_run {o : ω} : ∀ {s : σ} {as : List α}, o ∈ (run step s as).2 →
    ∃ as₁ a as₂, as = as₁ ++ a :: as₂ ∧ (step (run step s as₁).1 a).2 = some o
  | _, [], h => by cases h
  | s, a :: as, h => by
    rw [run_cons] at h
    rcases List.mem_append.1 h with h | h
    · exact ⟨[], a, as, rfl, Option.mem_toList.1 h⟩
    · obtain ⟨as₁, a', as₂, rfl, hstep⟩ := mem_run h
      exact ⟨a :: as₁, a', as₂, rfl, hstep⟩

/-- Every step of a run is taken in a state that meets a condition. -/
def Along (step : σ → α → σ × Option ω) (C : σ → α → Prop) : σ → List α → Prop
  | _, [] => True
  | s, a :: as => C s a ∧ Along step C (step s a).1 as

instance (C : σ → α → Prop) [∀ s a, Decidable (C s a)] :
    ∀ (s : σ) (as : List α), Decidable (Along step C s as)
  | _, [] => isTrue trivial
  | s, a :: as =>
    have := instDecidableAlong C (step s a).1 as
    inferInstanceAs (Decidable (C s a ∧ _))

theorem Along.imp {C C' : σ → α → Prop} (h : ∀ s a, C s a → C' s a) :
    ∀ {s : σ} {as : List α}, Along step C s as → Along step C' s as
  | _, [], _ => trivial
  | _, _ :: _, hC => ⟨h _ _ hC.1, Along.imp h hC.2⟩

theorem along_append {C : σ → α → Prop} : ∀ {s : σ} {as bs : List α},
    Along step C s (as ++ bs) ↔ Along step C s as ∧ Along step C (run step s as).1 bs
  | _, [], _ => ⟨fun h => ⟨trivial, h⟩, And.right⟩
  | s, a :: as, bs => by
    rw [List.cons_append, Along, Along, run_cons, along_append, and_assoc]

/-- What a step that meets the condition preserves, a run of such steps preserves. -/
theorem run_induction_along {P : σ → List ω → Prop} {C : σ → α → Prop}
    (hstep : ∀ s h a, C s a → P s h → P (step s a).1 (h ++ (step s a).2.toList)) :
    ∀ {s : σ} {h : List ω} (as : List α), Along step C s as → P s h →
      P (run step s as).1 (h ++ (run step s as).2)
  | s, h, [], _, hs => by simpa using hs
  | s, h, a :: as, hC, hs => by
    have := run_induction_along hstep as hC.2 (hstep s h a hC.1 hs)
    rw [run_cons]
    simpa using this

end Machine

/-- Where a history that has grown by an entry can be split: at the new entry, or before it. -/
theorem split_concat {h h₁ h₂ : List ω} {e e' : ω} (heq : h ++ [e'] = h₁ ++ e :: h₂) :
    (h₁ = h ∧ e = e' ∧ h₂ = []) ∨ ∃ h₃, h₂ = h₃ ++ [e'] ∧ h = h₁ ++ e :: h₃ := by
  rcases List.eq_nil_or_concat h₂ with rfl | ⟨h₃, x, rfl⟩
  · obtain ⟨rfl, he⟩ := List.append_inj' heq rfl
    exact Or.inl ⟨rfl, (List.singleton_inj.1 he).symm, rfl⟩
  · rw [List.concat_eq_append] at heq ⊢
    have heq : h ++ [e'] = (h₁ ++ e :: h₃) ++ [x] := by simpa using heq
    obtain ⟨rfl, he⟩ := List.append_inj' heq rfl
    exact Or.inr ⟨h₃, by rw [List.singleton_inj.1 he], rfl⟩

/-- A sequence of steps, with the labels of those that have one. -/
inductive Path (Step : Option ε → σ → σ → Prop) : List ε → σ → σ → Prop where
  | refl (s : σ) : Path Step [] s s
  | tail {l : List ε} {o : Option ε} {s s' s'' : σ} (h : Path Step l s s') (h' : Step o s' s'') :
    Path Step (l ++ o.toList) s s''

namespace Path

variable {Step : Option ε → σ → σ → Prop} {l l' : List ε} {s s' s'' : σ}

theorem single {o : Option ε} (h : Step o s s') : Path Step o.toList s s' :=
  (Path.refl s).tail h

theorem trans (h : Path Step l s s') (h' : Path Step l' s' s'') : Path Step (l ++ l') s s'' := by
  induction h' with
  | refl => simpa using h
  | tail _ hstep ih =>
    rw [← List.append_assoc]
    exact (ih h).tail hstep

/-- **What a step preserves, a path preserves.**  The property may speak about the labels so far. -/
theorem preserves {P : List ε → σ → Prop}
    (hstep : ∀ l o t t', P l t → Step o t t' → P (l ++ o.toList) t') (h : Path Step l s s')
    (hs : P [] s) : P l s' := by
  induction h with
  | refl => exact hs
  | tail _ h' ih => exact hstep _ _ _ _ (ih hs) h'

end Path

end Lib
