import Fkst.Delivery.Rows

/-!
# Effects of transactions

`Store.Inv` is the invariant of the store, and `Effect` is what every transaction is shown to have:
the invariant afterwards, and for every delivery a sequence of moves of its rows.  A `RowEffect` is
the part of one delivery; effects compose, so that a loop over candidates only has to be understood
for one of them.

Whether the two indexes that may hold leftovers stay free of them is tracked next to it, under an
assumption `fresh` that the candidates a transaction works on are still what the tables say.
-/

set_option autoImplicit false

namespace Fkst.Delivery

open Lib

namespace Store

/-- The invariant of the store. -/
structure Inv (s : Store) : Prop where
  wellFormed : s.WellFormed
  indexed : ∀ id, (s.slice id).Indexed
  ok : ∀ id, (s.view id).Ok id

/-- No index holds a leftover key. -/
def Clean (s : Store) : Prop := ∀ id, (s.slice id).Clean

theorem inv_empty : Inv empty where
  wellFormed := wellFormed_empty
  indexed id := slice_empty id ▸ Slice.indexed_empty
  ok id := by
    change ((empty.slice id).toView).Ok id
    rw [slice_empty]
    exact ⟨(fun _ h => by cases h), (fun _ h => by cases h), (fun _ h => by cases h)⟩

theorem clean_empty : Clean empty := fun id => slice_empty id ▸ Slice.clean_empty

end Store

/-- Events of one delivery and of no other. -/
def eventsAt (id : String) (l : List Event) : String → List Event :=
  fun j => if j = id then l else []

@[simp] theorem eventsAt_self (id : String) (l : List Event) : eventsAt id l id = l := if_pos rfl

theorem eventsAt_of_ne {id j : String} (h : j ≠ id) (l : List Event) : eventsAt id l j = [] :=
  if_neg h

/-- A transaction did something to the rows of one delivery. -/
structure RowEffect (env : Env) (t : Txn) (id : String) (o : Option Event) (fresh : Prop)
    (s s' : Store) : Prop where
  touches : Store.Touches id s s'
  indexed : (s'.slice id).Indexed
  move : Move env id t o (s.slice id).toView (s'.slice id).toView
  clean : fresh → (s.slice id).Clean → (s'.slice id).Clean

namespace RowEffect

variable {env : Env} {t : Txn} {id : String} {o : Option Event} {f : Prop} {s s' : Store}

/-- A row changed, and its keys with it. -/
theorem ofSlice {σ' : Slice} (ht : Store.Touches id s s') (hσ : s'.slice id = σ')
    (hlive : LiveIndexed σ'.live σ'.ready σ'.leased)
    (hdead : DeadIndexed σ'.dead σ'.deadTime σ'.deadDue σ'.terminal)
    (hm : Move env id t o (s.slice id).toView σ'.toView)
    (hc : f → (s.slice id).Clean → σ'.Clean) : RowEffect env t id o f s s' := by
  subst hσ
  exact ⟨ht, ⟨hlive, hdead⟩, hm, hc⟩

/-- The live row changed. -/
theorem ofLive {l : Option DeliveryRecord} {R L : Set (String × UInt64)} (hs : s.Inv)
    (ht : Store.Touches id s s')
    (hσ : s'.slice id = { s.slice id with live := l, ready := R, leased := L })
    (hi : LiveIndexed l R L)
    (hm : Move env id t o (s.slice id).toView { (s.slice id).toView with live := l })
    (hc : f → (s.slice id).ready ⊆ readyKeys (s.slice id).live → R ⊆ readyKeys l) :
    RowEffect env t id o f s s' :=
  ofSlice ht hσ hi (hs.indexed id).dead hm (fun hf h => ⟨hc hf h.ready, h.deadDue⟩)

/-- The dead row changed. -/
theorem ofDead {d : Option DeadRecord} {p : Bool} {T : Set UInt64} {D M : Set (String × UInt64)}
    (hs : s.Inv) (ht : Store.Touches id s s')
    (hσ : s'.slice id =
      { s.slice id with dead := d, suppressed := p, deadTime := T, deadDue := D, terminal := M })
    (hi : DeadIndexed d T D M)
    (hm : Move env id t o (s.slice id).toView
      { (s.slice id).toView with dead := d, suppressed := p })
    (hc : f → (s.slice id).deadDue ⊆ deadDueKeys (s.slice id).dead → D ⊆ deadDueKeys d) :
    RowEffect env t id o f s s' :=
  ofSlice ht hσ (hs.indexed id).live hi hm (fun hf h => ⟨h.ready, hc hf h.deadDue⟩)

end RowEffect

/-- A transaction, or a part of it, did something to the rows of some deliveries. -/
structure Effect (env : Env) (t : Txn) (evs : String → List Event) (fresh : Prop)
    (s s' : Store) : Prop where
  inv : s'.Inv
  moves : ∀ id, Moves env id t (evs id) (s.view id) (s'.view id)
  clean : fresh → s.Clean → s'.Clean

namespace Effect

variable {env : Env} {t : Txn} {evs evs' : String → List Event} {f f' : Prop} {s s' s'' : Store}

theorem refl (hs : s.Inv) : Effect env t (fun _ => []) f s s :=
  ⟨hs, fun _ => Lib.Path.refl _, fun _ h => h⟩

theorem trans (h : Effect env t evs f s s') (h' : Effect env t evs' f' s' s'') :
    Effect env t (fun id => evs id ++ evs' id) (f ∧ f') s s'' :=
  ⟨h'.inv, fun id => (h.moves id).trans (h'.moves id), fun hf hc => h'.clean hf.2 (h.clean hf.1 hc)⟩

theorem mono (h : Effect env t evs f s s') (hf : f' → f) : Effect env t evs f' s s' :=
  ⟨h.inv, h.moves, fun hf' => h.clean (hf hf')⟩

theorem congr (h : Effect env t evs f s s') (he : ∀ id, evs' id = evs id) :
    Effect env t evs' f s s' :=
  ⟨h.inv, fun id => he id ▸ h.moves id, h.clean⟩

/-- The rows of one delivery change, and its keys with them. -/
theorem ofRow {id : String} {o : Option Event} (hs : s.Inv) (h : RowEffect env t id o f s s') :
    Effect env t (eventsAt id o.toList) f s s' := by
  have hframe := h.touches.frame hs.wellFormed
  have hview : ∀ j, j ≠ id → s'.view j = s.view j := fun j hj =>
    congrArg Slice.toView (hframe j hj)
  refine ⟨⟨h.touches.wellFormed hs.wellFormed, fun j => ?_, fun j => ?_⟩, fun j => ?_, ?_⟩
  · by_cases hj : j = id
    · exact hj ▸ h.indexed
    · rw [hframe j hj]
      exact hs.indexed j
  · by_cases hj : j = id
    · subst hj
      exact h.move.ok (hs.ok j)
    · rw [hview j hj]
      exact hs.ok j
  · by_cases hj : j = id
    · subst hj
      rw [eventsAt_self]
      exact Lib.Path.single h.move
    · rw [eventsAt_of_ne hj, hview j hj]
      exact Lib.Path.refl _
  · intro hf hc j
    by_cases hj : j = id
    · exact hj ▸ h.clean hf (hc id)
    · rw [hframe j hj]
      exact hc j

/-- The rows of one delivery change in a way that is no event. -/
theorem quiet {id : String} (hs : s.Inv) (h : RowEffect env t id none f s s') :
    Effect env t (fun _ => []) f s s' :=
  (ofRow hs h).congr fun j => by simp [eventsAt]

/-- The rows of a delivery stay, and the keys it needs do. -/
theorem ofKeys {id : String} (hs : s.Inv) (ht : Store.Touches id s s')
    (hview : (s'.slice id).toView = (s.slice id).toView) (hi : (s'.slice id).Indexed)
    (hc : f → (s.slice id).Clean → (s'.slice id).Clean) :
    Effect env t (fun _ => []) f s s' := by
  have hframe := ht.frame hs.wellFormed
  have hviews : ∀ j, s'.view j = s.view j := by
    intro j
    by_cases hj : j = id
    · exact hj ▸ hview
    · exact congrArg Slice.toView (hframe j hj)
  refine ⟨⟨ht.wellFormed hs.wellFormed, fun j => ?_, fun j => hviews j ▸ hs.ok j⟩,
    fun j => hviews j ▸ Lib.Path.refl _, fun hf hclean j => ?_⟩
  · by_cases hj : j = id
    · exact hj ▸ hi
    · rw [hframe j hj]
      exact hs.indexed j
  · by_cases hj : j = id
    · exact hj ▸ hc hf (hclean id)
    · rw [hframe j hj]
      exact hclean j

end Effect

end Fkst.Delivery
