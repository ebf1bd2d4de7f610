import Mathlib.Data.List.Forall2
import Mathlib.Tactic.Common

/-!
# Computations that may fail

What is known of the parts when a computation in `Except` has succeeded: of the two halves of a
`bind`, of every item that a loop went over, and of what a loop carries along.
-/

set_option autoImplicit false

namespace Lib

namespace Checks

variable {ε α β σ : Type}

/-- A computation that has succeeded hands its result on. -/
theorem ok_bind (a : α) (f : α → Except ε β) : (Except.ok a >>= f) = f a := rfl

/-- Two computations, one after the other. -/
theorem bind_eq_ok {x : Except ε α} {f : α → Except ε β} {b : β} :
    (x >>= f) = .ok b ↔ ∃ a, x = .ok a ∧ f a = .ok b := by
  constructor
  · intro h
    cases x with
    | error e => cases h
    | ok a => exact ⟨a, rfl, h⟩
  · rintro ⟨a, rfl, h⟩
    exact h

/-- The first of two computations fails, or the second one does. -/
theorem bind_eq_error {x : Except ε α} {f : α → Except ε β} {e : ε} :
    (x >>= f) = .error e ↔ x = .error e ∨ ∃ a, x = .ok a ∧ f a = .error e := by
  constructor
  · intro h
    cases x with
    | error e' => exact Or.inl (congrArg Except.error (Except.error.inj h))
    | ok a => exact Or.inr ⟨a, rfl, h⟩
  · rintro (rfl | ⟨a, rfl, h⟩)
    · rfl
    · exact h

/-- A check that nothing comes of. -/
theorem check_eq_ok {p : Prop} [Decidable p] {e : ε} :
    (if p then .error e else .ok () : Except ε Unit) = .ok () ↔ ¬ p := by
  by_cases h : p <;> simp [h]

/-- Give up if something holds. -/
def bailIf (p : Prop) [Decidable p] (e : ε) : Except ε Unit := if p then .error e else .ok ()

theorem bailIf_eq_ok {p : Prop} [Decidable p] {e : ε} {u : Unit} : bailIf p e = .ok u ↔ ¬ p :=
  check_eq_ok

/-- All items pass. -/
theorem forM_eq_ok {f : α → Except ε Unit} :
    ∀ {l : List α}, l.forM f = .ok () ↔ ∀ x ∈ l, f x = .ok ()
  | [] => ⟨fun _ _ hx => by simp at hx, fun _ => rfl⟩
  | x :: l => by
    have hcons : (x :: l).forM f = (f x >>= fun _ => l.forM f) := rfl
    rw [hcons, bind_eq_ok, List.forall_mem_cons]
    constructor
    · rintro ⟨⟨⟩, hx, hl⟩
      exact ⟨hx, forM_eq_ok.1 hl⟩
    · rintro ⟨hx, hl⟩
      exact ⟨(), hx, forM_eq_ok.2 hl⟩

/-- What every result of a loop has. -/
theorem forall_of_mapM {f : α → Except ε β} {P : β → Prop} :
    ∀ {l : List α} {l' : List β}, l.mapM f = .ok l' → (∀ a ∈ l, ∀ b, f a = .ok b → P b) →
      ∀ b ∈ l', P b
  | [], l', h, _ => by
    obtain rfl := Except.ok.inj h
    simp
  | x :: l, l', h, hf => by
    rw [List.mapM_cons, bind_eq_ok] at h
    obtain ⟨b, hb, h⟩ := h
    obtain ⟨bs, hbs, h⟩ := bind_eq_ok.1 h
    obtain rfl := Except.ok.inj h
    rw [List.forall_mem_cons]
    exact ⟨hf x List.mem_cons_self b hb,
      forall_of_mapM hbs fun a ha => hf a (List.mem_cons_of_mem x ha)⟩

/-- A loop over a list, item by item. -/
theorem mapM_eq_ok {f : α → Except ε β} :
    ∀ {l : List α} {l' : List β}, l.mapM f = .ok l' ↔ List.Forall₂ (fun a b => f a = .ok b) l l'
  | [], l' => by
    rw [List.forall₂_nil_left_iff, List.mapM_nil]
    exact ⟨fun h => (Except.ok.inj h).symm, fun h => by rw [h]; rfl⟩
  | x :: l, l' => by
    rw [List.mapM_cons, bind_eq_ok]
    constructor
    · rintro ⟨b, hb, h⟩
      obtain ⟨bs, hbs, h⟩ := bind_eq_ok.1 h
      obtain rfl := Except.ok.inj h
      exact .cons hb (mapM_eq_ok.1 hbs)
    · rintro (_ | ⟨hb, hl⟩)
      exact ⟨_, hb, bind_eq_ok.2 ⟨_, mapM_eq_ok.2 hl, rfl⟩⟩

/-- The results of a loop are those of its items. -/
theorem mem_of_mapM_eq_ok {f : α → Except ε β} {l : List α} {l' : List β} (h : l.mapM f = .ok l') {b : β} :
    b ∈ l' ↔ ∃ a ∈ l, f a = .ok b := by
  induction mapM_eq_ok.1 h with
  | nil => simp
  | @cons a b' l l' hab hl ih =>
    rw [List.mem_cons, ih (mapM_eq_ok.2 hl), List.exists_mem_cons_iff, hab, Except.ok.injEq, eq_comm]

theorem exists_of_mapM_eq_ok {f : α → Except ε β} {l : List α} {l' : List β} (h : l.mapM f = .ok l')
    {a : α} (ha : a ∈ l) : ∃ b, f a = .ok b := by
  induction mapM_eq_ok.1 h with
  | nil => simp at ha
  | @cons a' b l l' hab hl ih =>
    rcases List.mem_cons.1 ha with rfl | ha
    · exact ⟨b, hab⟩
    · exact ih (mapM_eq_ok.2 hl) ha

/-- A loop succeeds if it does so for every item. -/
theorem exists_mapM_eq_ok {f : α → Except ε β} :
    ∀ {l : List α}, (∀ a ∈ l, ∃ b, f a = .ok b) → ∃ l', l.mapM f = .ok l'
  | [], _ => ⟨[], rfl⟩
  | x :: l, h => by
    rw [List.forall_mem_cons] at h
    obtain ⟨⟨b, hb⟩, hl⟩ := h
    obtain ⟨l', hl'⟩ := exists_mapM_eq_ok hl
    exact ⟨b :: l', mapM_eq_ok.2 (.cons hb (mapM_eq_ok.1 hl'))⟩

/-- What every step of a loop keeps. -/
theorem foldlM_induction {f : σ → α → Except ε σ} {P : σ → Prop} {l : List α}
    (hstep : ∀ s, ∀ a ∈ l, P s → ∀ s', f s a = .ok s' → P s') :
    ∀ {s s' : σ}, P s → l.foldlM f s = .ok s' → P s' := by
  induction l with
  | nil =>
    intro s s' hs h
    obtain rfl := Except.ok.inj h
    exact hs
  | cons a l ih =>
    intro s s' hs h
    rw [List.foldlM_cons, bind_eq_ok] at h
    obtain ⟨s₁, hs₁, h⟩ := h
    exact ih (fun s b hb => hstep s b (List.mem_cons_of_mem a hb))
      (hstep s a List.mem_cons_self hs s₁ hs₁) h

/-- **A loop fails** at the first item that does. -/
theorem foldlM_eq_error {f : σ → α → Except ε σ} {l : List α} {s : σ} {e : ε} :
    l.foldlM f s = .error e ↔ ∃ before a after s', l = before ++ a :: after ∧
      before.foldlM f s = .ok s' ∧ f s' a = .error e := by
  induction l generalizing s with
  | nil =>
    constructor
    · intro h
      cases h
    · rintro ⟨before, a, after, _, heq, _⟩
      simp at heq
  | cons b l ih =>
    rw [List.foldlM_cons, bind_eq_error]
    constructor
    · rintro (h | ⟨s₁, hs₁, h⟩)
      · exact ⟨[], b, l, s, rfl, rfl, h⟩
      · obtain ⟨before, a, after, s', rfl, hbefore, ha⟩ := ih.1 h
        exact ⟨b :: before, a, after, s', rfl, bind_eq_ok.2 ⟨s₁, hs₁, hbefore⟩, ha⟩
    · rintro ⟨before, a, after, s', heq, hbefore, ha⟩
      cases before with
      | nil =>
        obtain ⟨rfl, rfl⟩ := List.cons.inj heq
        obtain rfl := Except.ok.inj hbefore
        exact Or.inl ha
      | cons b' before =>
        obtain ⟨rfl, rfl⟩ := List.cons.inj heq
        obtain ⟨s₁, hs₁, hbefore⟩ := bind_eq_ok.1 hbefore
        exact Or.inr ⟨s₁, hs₁, ih.2 ⟨before, a, after, s', rfl, hbefore, ha⟩⟩

end Checks

end Lib
