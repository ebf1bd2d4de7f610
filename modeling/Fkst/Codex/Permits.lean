import Fkst.Lib.Flock
import Mathlib.Data.Finset.Card

/-!
# Codex permits

Who wants to run codex needs a permit.  Permits are files, as many as there are slots, and who has the lock of
one holds it.  `acquire_permit_with_context` tries one after the other without waiting, and if it finds all
of them taken it waits for the first (`run_probe`).  A permit is free again when its holder drops it or dies.

The callers are processes of their own and go on at the same time.  `permits_bounded`: however they do, no
permit has two holders, and if nobody is configured for more than a number of slots, no more than that many
run codex.
-/

set_option autoImplicit false

namespace Fkst.Codex

open Lib

/-- Where a process is with a permit. -/
inductive PermitCaller where
  | idle
  /-- It is about to try a slot, and is configured for so many. -/
  | probing (slots i : ℕ)
  /-- It waits for the first slot. -/
  | waiting
  /-- `CodexPermit`. -/
  | holding (slot : ℕ)
deriving DecidableEq

/-- The directory of permits, and all processes. -/
structure PermitPool where
  files : ℕ → Bool
  locks : Locks ℕ ℕ
  callers : ℕ → PermitCaller

/-- What may happen next. -/
inductive PermitPool.Act where
  /-- `ensure_pool_with_context` of some process gets to a slot. -/
  | ensure (i : ℕ)
  /-- `acquire_permit_with_context` begins. -/
  | acquire (p slots : ℕ)
  /-- It tries the next slot. -/
  | probe (p : ℕ)
  /-- It gets the lock it waits for, if that is free. -/
  | wake (p : ℕ)
  /-- The permit is dropped. -/
  | release (p : ℕ)
  | die (p : ℕ)
deriving DecidableEq

namespace PermitPool

/-- Before anything has happened. -/
def init : PermitPool := ⟨fun _ => false, .none, fun _ => .idle⟩

/-- A process is somewhere else. -/
def move (w : PermitPool) (p : ℕ) (caller : PermitCaller) : PermitPool :=
  { w with callers := Function.update w.callers p caller }

/-- A process takes a permit. -/
def grant (w : PermitPool) (p slot : ℕ) : PermitPool :=
  { w with locks := w.locks.take slot p, callers := Function.update w.callers p (.holding slot) }

/-- A process has no file open any more. -/
def quit (w : PermitPool) (p : ℕ) : PermitPool :=
  { w with locks := w.locks.die p, callers := Function.update w.callers p .idle }

/-- One act.  Where a call fails the process is where it was before the call. -/
def step (w : PermitPool) : Act → PermitPool
  | .ensure i => { w with files := Function.update w.files i true }
  | .acquire p slots =>
    -- `resolved_positive_usize`
    if w.callers p = .idle ∧ 0 < slots then w.move p (.probing slots 0) else w
  | .probe p =>
    match w.callers p with
    | .probing slots i =>
      if i < slots then
        if w.files i then
          if w.locks i = [] then w.grant p i else w.move p (.probing slots (i + 1))
        else w.move p .idle
      else if w.files 0 then w.move p .waiting
      else w.move p .idle
    | _ => w
  | .wake p => if w.callers p = .waiting ∧ w.locks 0 = [] then w.grant p 0 else w
  | .release p =>
    match w.callers p with
    | .holding _ => w.quit p
    | _ => w
  | .die p => w.quit p

/-- Acts one after the other. -/
def run (w : PermitPool) (acts : List Act) : PermitPool := acts.foldl step w

/-! ## The invariant -/

/-- What is true of the pool when nobody is configured for more than `n` slots. -/
structure Inv (n : ℕ) (w : PermitPool) : Prop where
  /-- Who holds a permit has its lock, and nobody else has. -/
  locks : ∀ slot p, p ∈ w.locks slot ↔ w.callers p = .holding slot
  exclusive : w.locks.Exclusive
  probing : ∀ p slots i, w.callers p = .probing slots i → 0 < slots ∧ slots ≤ n
  waiting : ∀ p, w.callers p = .waiting → 0 < n
  holding : ∀ p slot, w.callers p = .holding slot → slot < n

section Steps

variable {n : ℕ} {w : PermitPool}

theorem init_inv (n : ℕ) : Inv n init := by
  refine ⟨fun slot p => ?_, Locks.exclusive_none, ?_, ?_, ?_⟩
  · exact ⟨fun h => (List.not_mem_nil h).elim, fun h => by cases h⟩
  all_goals simp [init]

theorem callers_move (w : PermitPool) (p q : ℕ) (caller : PermitCaller) :
    (w.move p caller).callers q = if q = p then caller else w.callers q := by
  simp [move, Function.update_apply]

theorem callers_grant (w : PermitPool) (p slot q : ℕ) :
    (w.grant p slot).callers q = if q = p then .holding slot else w.callers q := by
  simp [grant, Function.update_apply]

theorem callers_quit (w : PermitPool) (p q : ℕ) :
    (w.quit p).callers q = if q = p then .idle else w.callers q := by
  simp [quit, Function.update_apply]

/-- A process without a permit goes where it has none either. -/
theorem Inv.move (hw : Inv n w) {p : ℕ} {caller : PermitCaller}
    (hfrom : ∀ slot, w.callers p ≠ .holding slot) (hto : ∀ slot, caller ≠ .holding slot)
    (hprobing : ∀ slots i, caller = .probing slots i → 0 < slots ∧ slots ≤ n)
    (hwaiting : caller = .waiting → 0 < n) : Inv n (w.move p caller) := by
  refine ⟨fun slot q => ?_, hw.exclusive, fun q slots i h => ?_, fun q h => ?_, fun q slot h => ?_⟩
  · rw [callers_move]
    split
    · rename_i heq
      subst heq
      exact ⟨fun h => absurd ((hw.locks _ _).1 h) (hfrom slot), fun h => absurd h (hto slot)⟩
    · exact hw.locks slot q
  all_goals
    rw [callers_move] at h
    split at h
  · exact hprobing slots i h
  · exact hw.probing q slots i h
  · exact hwaiting h
  · exact hw.waiting q h
  · exact absurd h (hto slot)
  · exact hw.holding q slot h

/-- A free permit is taken. -/
theorem Inv.grant (hw : Inv n w) {p slot : ℕ} (hfrom : ∀ slot, w.callers p ≠ .holding slot)
    (hfree : w.locks slot = []) (hslot : slot < n) : Inv n (w.grant p slot) := by
  refine ⟨fun slot' q => ?_, hw.exclusive.take slot p, fun q slots i h => ?_, fun q h => ?_,
    fun q slot' h => ?_⟩
  · rw [callers_grant, PermitPool.grant, Locks.mem_take]
    have hold : q ∈ w.locks slot' ↔ w.callers q = .holding slot' := hw.locks slot' q
    have hnone : q ∉ w.locks slot := by rw [hfree]; exact List.not_mem_nil
    by_cases hq : q = p
    · subst hq
      rw [if_pos rfl]
      by_cases hslot' : slot' = slot
      · simp [hslot']
      · rw [if_neg hslot']
        exact ⟨fun h => absurd (hold.1 h) (hfrom slot'), fun h => absurd (PermitCaller.holding.inj h).symm hslot'⟩
    · rw [if_neg hq, ← hold]
      by_cases hslot' : slot' = slot
      · subst hslot'
        rw [if_pos rfl]
        exact ⟨fun h => absurd h hq, fun h => absurd h hnone⟩
      · rw [if_neg hslot']
  all_goals
    rw [callers_grant] at h
    split at h
  · cases h
  · exact hw.probing q slots i h
  · cases h
  · exact hw.waiting q h
  · exact PermitCaller.holding.inj h ▸ hslot
  · exact hw.holding q slot' h

/-- A process gives up whatever it has. -/
theorem Inv.quit (hw : Inv n w) (p : ℕ) : Inv n (w.quit p) := by
  refine ⟨fun slot q => ?_, fun slot q q' hq hq' => ?_, fun q slots i h => ?_, fun q h => ?_, fun q slot h => ?_⟩
  · rw [callers_quit, PermitPool.quit, Locks.mem_die, hw.locks]
    split
    · rename_i heq
      exact ⟨fun h => absurd heq h.2, fun h => by cases h⟩
    · exact and_iff_left ‹_›
  · exact hw.exclusive slot q q' (Locks.mem_die.1 hq).1 (Locks.mem_die.1 hq').1
  all_goals
    rw [callers_quit] at h
    split at h
  · cases h
  · exact hw.probing q slots i h
  · cases h
  · exact hw.waiting q h
  · cases h
  · exact hw.holding q slot h

/-- **Each act keeps the invariant.** -/
theorem step_inv (hw : Inv n w) {act : Act} (hact : ∀ p slots, act = .acquire p slots → slots ≤ n) :
    Inv n (w.step act) := by
  cases act with
  | ensure i => exact ⟨hw.locks, hw.exclusive, hw.probing, hw.waiting, hw.holding⟩
  | acquire p slots =>
    rw [step]
    split
    · rename_i h
      refine hw.move (by simp [h.1]) (by simp) ?_ (by simp)
      rintro slots' i heq
      obtain ⟨rfl, rfl⟩ := PermitCaller.probing.inj heq
      exact ⟨h.2, hact p slots rfl⟩
    · exact hw
  | probe p =>
    rw [step]
    cases hp : w.callers p with
    | probing slots i =>
      obtain ⟨hpos, hle⟩ := hw.probing p slots i hp
      simp only
      split
      · rename_i hi
        split
        · split
          · exact hw.grant (by simp [hp]) ‹_› (Nat.lt_of_lt_of_le hi hle)
          · refine hw.move (by simp [hp]) (by simp) ?_ (by simp)
            rintro slots' i' heq
            obtain ⟨rfl, rfl⟩ := PermitCaller.probing.inj heq
            exact ⟨hpos, hle⟩
        · exact hw.move (by simp [hp]) (by simp) (by simp) (by simp)
      · split
        · exact hw.move (by simp [hp]) (by simp) (by simp) fun _ => Nat.lt_of_lt_of_le hpos hle
        · exact hw.move (by simp [hp]) (by simp) (by simp) (by simp)
    | idle => exact hw
    | waiting => exact hw
    | holding slot => exact hw
  | wake p =>
    rw [step]
    split
    · rename_i h
      exact hw.grant (by simp [h.1]) h.2 (hw.waiting p h.1)
    · exact hw
  | release p =>
    rw [step]
    split
    · exact hw.quit p
    · exact hw
  | die p => exact hw.quit p

theorem run_inv {acts : List Act} (hacts : ∀ p slots, Act.acquire p slots ∈ acts → slots ≤ n) :
    ∀ {w : PermitPool}, Inv n w → Inv n (w.run acts) := by
  induction acts with
  | nil => exact fun hw => hw
  | cons act acts ih =>
    refine fun hw => ih (fun p slots h => hacts p slots (List.mem_cons_of_mem _ h)) (step_inv hw ?_)
    rintro p slots rfl
    exact hacts p slots List.mem_cons_self

end Steps

/-! ## A call that nobody disturbs -/

/-- Where a call gets from a slot on, when nobody else does anything. -/
theorem probe_from {p slots : ℕ} : ∀ (k : ℕ) {i : ℕ} {w : PermitPool}, i + k = slots → 0 < slots →
    w.callers p = .probing slots i → (∀ j < slots, w.files j = true) →
    (w.run (List.replicate (k + 1) (.probe p))).callers p =
      ((List.range' i k).find? fun j => w.locks j = []).elim .waiting .holding
  | 0, i, w, hi, hpos, hp, hfiles => by
    have hstep : w.step (.probe p) = w.move p .waiting := by
      simp only [step, hp]
      rw [if_neg (by omega), if_pos (hfiles 0 hpos)]
    show (w.step (.probe p)).callers p = _
    rw [hstep, callers_move, if_pos rfl]
    rfl
  | k + 1, i, w, hi, hpos, hp, hfiles => by
    rw [List.replicate_succ, run, List.foldl_cons, ← run, List.range'_succ, List.find?_cons]
    by_cases hfree : w.locks i = []
    · have hstep : w.step (.probe p) = w.grant p i := by
        simp only [step, hp]
        rw [if_pos (by omega), if_pos (hfiles i (by omega)), if_pos hfree]
      -- who holds a permit looks no further
      have hstay : ∀ m, ((w.grant p i).run (List.replicate m (.probe p))) = w.grant p i := by
        intro m
        induction m with
        | zero => rfl
        | succ m ih =>
          have hsame : (w.grant p i).step (.probe p) = w.grant p i := by
            simp only [step, callers_grant, if_pos]
          rw [List.replicate_succ, run, List.foldl_cons, ← run, hsame, ih]
      rw [hstep, hstay, callers_grant, if_pos rfl]
      simp [hfree]
    · have hstep : w.step (.probe p) = w.move p (.probing slots (i + 1)) := by
        simp only [step, hp]
        rw [if_pos (by omega), if_pos (hfiles i (by omega)), if_neg hfree]
      have hp' : (w.move p (.probing slots (i + 1))).callers p = .probing slots (i + 1) := by
        rw [callers_move, if_pos rfl]
      rw [hstep, probe_from (w := w.move p (.probing slots (i + 1))) k (by omega) hpos hp' hfiles,
        decide_eq_false hfree]
      rfl

/-- A call takes the first permit that is free, and waits for the first of all if none is. -/
theorem run_probe {w : PermitPool} {p slots : ℕ} (hidle : w.callers p = .idle) (hslots : 0 < slots)
    (hfiles : ∀ i < slots, w.files i = true) :
    (w.run (.acquire p slots :: List.replicate (slots + 1) (.probe p))).callers p =
      ((List.range slots).find? fun i => w.locks i = []).elim .waiting .holding := by
  have hstep : w.step (.acquire p slots) = w.move p (.probing slots 0) := if_pos ⟨hidle, hslots⟩
  have hp : (w.move p (.probing slots 0)).callers p = .probing slots 0 := by rw [callers_move, if_pos rfl]
  rw [run, List.foldl_cons, ← run, hstep, probe_from (w := w.move p (.probing slots 0)) slots
    (Nat.zero_add _) hslots hp hfiles, List.range_eq_range']
  rfl

/-- Who waits gets the first permit once its holder has dropped it. -/
theorem wake_of_release {n : ℕ} {w : PermitPool} (hw : Inv n w) {p q : ℕ} (hp : w.callers p = .waiting)
    (hq : w.callers q = .holding 0) :
    (w.run [.release q, .wake p]).callers p = .holding 0 := by
  have hne : p ≠ q := by
    rintro rfl
    rw [hp] at hq
    cases hq
  have hrelease : w.step (.release q) = w.quit q := by simp only [step, hq]
  have hwaits : (w.quit q).callers p = .waiting := by rw [callers_quit, if_neg hne, hp]
  have hfree : (w.quit q).locks 0 = [] := by
    refine List.eq_nil_iff_forall_not_mem.2 fun r hr => ?_
    obtain ⟨hr, hrq⟩ := Locks.mem_die.1 hr
    exact hrq (hw.exclusive 0 r q hr ((hw.locks 0 q).2 hq))
  have hwake : (w.quit q).step (.wake p) = (w.quit q).grant p 0 := if_pos ⟨hwaits, hfree⟩
  show ((w.step (.release q)).step (.wake p)).callers p = _
  rw [hrelease, hwake, callers_grant, if_pos rfl]

/-! ## How many -/

/-- **No more codex processes than slots.**  In every run no permit has two holders, and where nobody is
configured for more than `n` slots no more than `n` processes hold one at a time. -/
theorem permits_bounded {n : ℕ} {acts : List Act}
    (hacts : ∀ p slots, Act.acquire p slots ∈ acts → slots ≤ n) :
    (∀ p q slot, (init.run acts).callers p = .holding slot → (init.run acts).callers q = .holding slot →
      p = q) ∧
      ∀ ps : Finset ℕ, (∀ p ∈ ps, ∃ slot, (init.run acts).callers p = .holding slot) → ps.card ≤ n := by
  have hw := run_inv hacts (init_inv n)
  have hone : ∀ p q slot, (init.run acts).callers p = .holding slot →
      (init.run acts).callers q = .holding slot → p = q := fun p q slot hp hq =>
    hw.exclusive slot p q ((hw.locks slot p).2 hp) ((hw.locks slot q).2 hq)
  refine ⟨hone, fun ps hps => ?_⟩
  -- the slots of the holders are different numbers below `n`
  choose slot hslot using hps
  have hcard : ps.attach.card ≤ (Finset.range n).card := by
    refine Finset.card_le_card_of_injOn (fun p => slot p.1 p.2) ?_ ?_
    · exact fun p _ => Finset.mem_coe.2 (Finset.mem_range.2 (hw.holding _ _ (hslot p.1 p.2)))
    · intro p _ q _ heq
      have heq : slot p.1 p.2 = slot q.1 q.2 := heq
      exact Subtype.ext (hone _ _ _ (hslot p.1 p.2) (heq ▸ hslot q.1 q.2))
  rwa [Finset.card_attach, Finset.card_range] at hcard

theorem permits_bounded_two : ((init.run [.ensure 0, .acquire 7 1, .acquire 8 1, .probe 7, .probe 8,
      .probe 8, .wake 8]).callers 7 = .holding 0) ∧
    ∀ ps : Finset ℕ, (∀ p ∈ ps, ∃ slot, (init.run [.ensure 0, .acquire 7 1, .acquire 8 1, .probe 7,
      .probe 8, .probe 8, .wake 8]).callers p = .holding slot) → ps.card ≤ 1 := by
  refine ⟨by decide, (permits_bounded fun p slots h => ?_).2⟩
  simp only [List.mem_cons, Act.acquire.injEq, reduceCtorEq, List.not_mem_nil, false_or, or_false] at h
  omega

end PermitPool

end Fkst.Codex
