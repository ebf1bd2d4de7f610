import Fkst.Lib.Flock

/-!
# The log of a run that is alive

A codex run holds the lock of its log while it is alive, as does the codex child that inherits it: the log
is the *witness* of its lifetime.  Whoever wants to know tries to take the lock (`probe_lifetime_witness`),
and who prunes logs removes one only while it has the lock.  A log may be removed between opening and
locking it, so a run looks whether the file it has locked is the one at the path, and opens it again if not
(`acquire_lifetime_witness_from_disk`).

This is about one path and everyone who uses it.  `live_log_kept`: the log of a run that is alive stays at
its path, as long as nobody who prunes locks a file that was removed since it was opened.  Nothing in the code
keeps two of them from that, and then the log may be lost (`stale_prune_loses_log`): `remove_codex_log`
removes by path what was locked by file.
-/

set_option autoImplicit false

namespace Fkst.Codex

open Lib

/-- Where a process is with the log.  Files are numbers. -/
inductive LogParty where
  | idle
  /-- `acquire_lifetime_witness_from_disk` is about to open the log, after so many attempts. -/
  | opening (tries : ℕ)
  | opened (tries file : ℕ)
  /-- It has the lock of the file, and is about to look at the path. -/
  | locked (tries file : ℕ)
  /-- It has the witness of a run. -/
  | live (run file : ℕ)
  /-- `probe_lifetime_witness` has opened the log. -/
  | probing (file : ℕ)
  /-- `LifetimeWitnessProbe::Unlocked`. -/
  | unlocked (file : ℕ)
  /-- It has removed the log, and still has its lock. -/
  | removed (file : ℕ)
deriving DecidableEq

/-- The file that a process has the lock of. -/
def LogParty.file : LogParty → Option ℕ
  | .locked _ file => some file
  | .live _ file => some file
  | .unlocked file => some file
  | .removed file => some file
  | _ => none

/-- The path of a log, the locks and all processes. -/
structure LogPath where
  /-- The file at the path. -/
  path : Option ℕ
  /-- The number of the next file. -/
  next : ℕ
  locks : Locks ℕ ℕ
  parties : ℕ → LogParty

/-- What may happen next. -/
inductive LogPath.Act where
  /-- `acquire_lifetime_witness_from_disk` begins. -/
  | acquire (p : ℕ)
  | opens (p : ℕ)
  /-- It gets the lock, if that is free. -/
  | lock (p : ℕ)
  /-- `lifetime_witness_path_matches`. -/
  | check (p : ℕ)
  /-- A codex child inherits the witness. -/
  | inherit (p child : ℕ)
  /-- Something is appended to the log: `write_codex_log`, `append_codex_status_log`. -/
  | append
  | probe (p : ℕ)
  /-- It tries the lock. -/
  | tryLock (p : ℕ)
  /-- `remove_codex_log`. -/
  | remove (p : ℕ)
  /-- The file is closed. -/
  | close (p : ℕ)
  | die (p : ℕ)
deriving DecidableEq

namespace LogPath

/-- Before anything has happened. -/
def init : LogPath := ⟨none, 0, .none, fun _ => .idle⟩

/-- A process goes on to where it has the same lock as before, or none. -/
def move (w : LogPath) (p : ℕ) (party : LogParty) : LogPath :=
  { w with parties := Function.update w.parties p party }

/-- A process takes a lock. -/
def grant (w : LogPath) (p file : ℕ) (party : LogParty) : LogPath :=
  { w with locks := w.locks.take file p, parties := Function.update w.parties p party }

/-- A process closes its file. -/
def leave (w : LogPath) (p : ℕ) (party : LogParty) : LogPath :=
  { w with locks := w.locks.die p, parties := Function.update w.parties p party }

/-- What opening the log with `create` leaves at the path. -/
def create (w : LogPath) : LogPath :=
  match w.path with
  | some _ => w
  | none => { w with path := some w.next, next := w.next + 1 }

/-- One act. -/
def step (w : LogPath) : Act → LogPath
  | .acquire p => if w.parties p = .idle then w.move p (.opening 0) else w
  | .opens p =>
    match w.parties p with
    | .opening tries =>
      let w := w.create
      w.move p (.opened tries (w.path.getD w.next))
    | _ => w
  | .lock p =>
    match w.parties p with
    | .opened tries file => if w.locks file = [] then w.grant p file (.locked tries file) else w
    | _ => w
  | .check p =>
    match w.parties p with
    | .locked tries file =>
      if w.path = some file then w.move p (.live p file)
      else if tries + 1 < 8 then w.leave p (.opening (tries + 1))
      else w.leave p .idle
    | _ => w
  | .inherit p child =>
    match w.parties p with
    | .live run file =>
      if w.parties child = .idle then
        { w with
          locks := w.locks.share file child
          parties := Function.update w.parties child (.live run file) }
      else w
    | _ => w
  | .append => w.create
  | .probe p =>
    match w.parties p, w.path with
    | .idle, some file => w.move p (.probing file)
    | _, _ => w
  | .tryLock p =>
    match w.parties p with
    | .probing file => if w.locks file = [] then w.grant p file (.unlocked file) else w.move p .idle
    | _ => w
  | .remove p =>
    match w.parties p with
    | .unlocked file => { w.move p (.removed file) with path := none }
    | _ => w
  | .close p =>
    match w.parties p with
    | .live _ _ => w.leave p .idle
    | .unlocked _ => w.leave p .idle
    | .removed _ => w.leave p .idle
    | _ => w
  | .die p => w.leave p .idle

/-- Acts one after the other. -/
def run (w : LogPath) (acts : List Act) : LogPath := acts.foldl step w

/-- Nobody locks a file to prune it that is no longer at the path. -/
def Fresh (w : LogPath) : Act → Prop
  | .tryLock p => ∀ file, w.parties p = .probing file → w.path = some file
  | _ => True

/-- So it is in a whole run. -/
def FreshRun : LogPath → List Act → Prop
  | _, [] => True
  | w, act :: acts => w.Fresh act ∧ FreshRun (w.step act) acts

/-! ## The invariant -/

/-- How the locks, the processes and the path belong together. -/
structure Inv (w : LogPath) : Prop where
  locks : ∀ file p, p ∈ w.locks file ↔ (w.parties p).file = some file
  /-- Only the processes of one run share a lock. -/
  exclusive : ∀ file p q, (w.parties p).file = some file → (w.parties q).file = some file →
    p = q ∨ ∃ run, w.parties p = .live run file ∧ w.parties q = .live run file
  live : ∀ p run file, w.parties p = .live run file → w.path = some file
  unlocked : ∀ p file, w.parties p = .unlocked file → w.path = some file

theorem init_inv : Inv init := by
  refine ⟨fun file p => ?_, fun file p q h => ?_, fun p run file h => ?_, fun p file h => ?_⟩
  · exact ⟨fun h => (List.not_mem_nil h).elim, fun h => by cases h⟩
  all_goals cases h

section Steps

variable {w : LogPath}

/-- What one process may change: where it is, who has the locks as far as it is concerned, and the path as
long as nobody else relies on it. -/
theorem Inv.change (hw : Inv w) {w' : LogPath} (p : ℕ) (party : LogParty)
    (hparties : w'.parties = Function.update w.parties p party)
    (hlocks : ∀ file q, q ∈ w'.locks file ↔ if q = p then party.file = some file else q ∈ w.locks file)
    (hexclusive : ∀ file q, party.file = some file → q ≠ p → (w.parties q).file = some file →
      ∃ run, party = .live run file ∧ w.parties q = .live run file)
    (hothers : ∀ file q, q ≠ p → (∃ run, w.parties q = .live run file) ∨ w.parties q = .unlocked file →
      w'.path = some file)
    (hself : ∀ file, (∃ run, party = .live run file) ∨ party = .unlocked file → w'.path = some file) :
    Inv w' := by
  have hat : ∀ q, w'.parties q = if q = p then party else w.parties q := fun q => by
    rw [hparties, Function.update_apply]
  refine ⟨fun file q => ?_, fun file q r hq hr => ?_, fun q run file h => ?_, fun q file h => ?_⟩
  · rw [hlocks, hat]
    split
    · exact Iff.rfl
    · exact hw.locks file q
  · rw [hat] at hq hr
    rw [hat, hat]
    by_cases hqp : q = p <;> by_cases hrp : r = p
    · exact Or.inl (hqp.trans hrp.symm)
    · rw [if_pos hqp] at hq ⊢
      rw [if_neg hrp] at hr ⊢
      exact Or.inr (hexclusive file r hq hrp hr)
    · rw [if_neg hqp] at hq ⊢
      rw [if_pos hrp] at hr ⊢
      obtain ⟨run, h, h'⟩ := hexclusive file q hr hqp hq
      exact Or.inr ⟨run, h', h⟩
    · rw [if_neg hqp] at hq ⊢
      rw [if_neg hrp] at hr ⊢
      exact hw.exclusive file q r hq hr
  · rw [hat] at h
    split at h
    · exact hself file (Or.inl ⟨run, h⟩)
    · exact hothers file q ‹_› (Or.inl ⟨run, h⟩)
  · rw [hat] at h
    split at h
    · exact hself file (Or.inr h)
    · exact hothers file q ‹_› (Or.inr h)

/-- What the others rely on. -/
theorem Inv.others (hw : Inv w) {file q : ℕ}
    (h : (∃ run, w.parties q = .live run file) ∨ w.parties q = .unlocked file) : w.path = some file := by
  rcases h with ⟨run, h⟩ | h
  · exact hw.live q run file h
  · exact hw.unlocked q file h

/-- A process without a lock goes where it has none. -/
theorem Inv.move_free (hw : Inv w) {p : ℕ} {party : LogParty} (hfrom : (w.parties p).file = none)
    (hto : party.file = none) : Inv (w.move p party) := by
  refine hw.change p party rfl (fun file q => ?_) (fun file q h => ?_)
    (fun file q _ h => hw.others h) fun file h => ?_
  · split
    · rename_i heq
      subst heq
      rw [hto]
      exact (hw.locks file q).trans (by rw [hfrom])
    · exact Iff.rfl
  · rw [hto] at h
    cases h
  · rcases h with ⟨run, rfl⟩ | rfl <;> cases hto

/-- A process takes a free lock. -/
theorem Inv.grant (hw : Inv w) {p file : ℕ} {party : LogParty} (hfrom : (w.parties p).file = none)
    (hto : party.file = some file) (hfree : w.locks file = [])
    (hpath : (∃ run, party = .live run file) ∨ party = .unlocked file → w.path = some file) :
    Inv (w.grant p file party) := by
  refine hw.change p party rfl (fun file' q => ?_) (fun file' q h hne hq => ?_)
    (fun file' q _ h => hw.others h) fun file' h => ?_
  · rw [LogPath.grant, Locks.mem_take, hto]
    by_cases hqp : q = p
    · subst hqp
      rw [if_pos rfl]
      by_cases hfile : file' = file
      · simp [hfile]
      · rw [if_neg hfile, hw.locks, hfrom]
        simp [Ne.symm hfile]
    · rw [if_neg hqp]
      by_cases hfile : file' = file
      · subst hfile
        rw [if_pos rfl, hfree]
        exact ⟨fun h => absurd h hqp, fun h => (List.not_mem_nil h).elim⟩
      · rw [if_neg hfile]
  · rw [hto] at h
    obtain rfl := Option.some.inj h
    have hmem := (hw.locks _ q).2 hq
    rw [hfree] at hmem
    exact (List.not_mem_nil hmem).elim
  · have hsame : file' = file := by
      rcases h with ⟨run, rfl⟩ | rfl <;> exact (Option.some.inj hto)
    subst hsame
    exact hpath h

/-- A process closes its file. -/
theorem Inv.leave (hw : Inv w) {p : ℕ} {party : LogParty} (hto : party.file = none) :
    Inv (w.leave p party) := by
  refine hw.change p party rfl (fun file q => ?_) (fun file q h => ?_)
    (fun file q _ h => hw.others h) fun file h => ?_
  · rw [LogPath.leave, Locks.mem_die, hto]
    by_cases hqp : q = p
    · rw [if_pos hqp]
      exact ⟨fun h => absurd hqp h.2, fun h => by cases h⟩
    · rw [if_neg hqp]
      exact and_iff_left hqp
  · rw [hto] at h
    cases h
  · rcases h with ⟨run, rfl⟩ | rfl <;> cases hto

theorem Inv.create (hw : Inv w) : Inv w.create := by
  cases hpath : w.path with
  | some file => rwa [LogPath.create, hpath]
  | none =>
    -- nobody relies on a path where nothing is
    have hnone : ∀ {file q}, (∃ run, w.parties q = .live run file) ∨ w.parties q = .unlocked file → False :=
      fun h => by
        have := hw.others h
        rw [hpath] at this
        cases this
    rw [LogPath.create, hpath]
    exact ⟨hw.locks, hw.exclusive, fun p run file h => (hnone (Or.inl ⟨run, h⟩)).elim,
      fun p file h => (hnone (Or.inr h)).elim⟩

theorem parties_create (w : LogPath) : w.create.parties = w.parties := by
  rw [LogPath.create]
  split <;> rfl

/-- Who is not alone with a lock has the witness of a run. -/
theorem Inv.alone (hw : Inv w) {p q file : ℕ} (hp : (w.parties p).file = some file)
    (hq : (w.parties q).file = some file) (hne : q ≠ p) : ∃ run, w.parties p = .live run file := by
  rcases hw.exclusive file p q hp hq with heq | ⟨run, h, _⟩
  · exact absurd heq.symm hne
  · exact ⟨run, h⟩

theorem check_inv (hw : Inv w) (p : ℕ) : Inv (w.step (.check p)) := by
  rw [step]
  cases hp : w.parties p with
  | locked tries file =>
    have hfile : (w.parties p).file = some file := by rw [hp]; rfl
    simp only
    split
    · rename_i hpath
      refine hw.change p (.live p file) rfl (fun file' q => ?_) (fun file' q h hne hq => ?_)
        (fun file' q _ h => hw.others h) fun file' h => ?_
      · split
        · rename_i heq
          subst heq
          exact (hw.locks file' q).trans (by rw [hfile]; rfl)
        · exact Iff.rfl
      · obtain rfl := Option.some.inj h
        obtain ⟨run, hlive⟩ := hw.alone hfile hq hne
        rw [hp] at hlive
        cases hlive
      · rcases h with ⟨run, h⟩ | h
        · exact (LogParty.live.inj h).2 ▸ hpath
        · cases h
    · split
      · exact hw.leave rfl
      · exact hw.leave rfl
  | idle => exact hw
  | opening tries => exact hw
  | opened tries file => exact hw
  | live run file => exact hw
  | probing file => exact hw
  | unlocked file => exact hw
  | removed file => exact hw

theorem inherit_inv (hw : Inv w) (p child : ℕ) : Inv (w.step (.inherit p child)) := by
  rw [step]
  cases hp : w.parties p with
  | live run file =>
    simp only
    split
    · rename_i hidle
      refine hw.change child (.live run file) rfl (fun file' q => ?_)
        (fun file' q h hne hq => ?_) (fun file' q _ h => hw.others h) fun file' h => ?_
      · rw [Locks.mem_share]
        by_cases hq : q = child
        · subst hq
          have hnot : q ∉ w.locks file' := fun h => by
            have := (hw.locks file' q).1 h
            rw [hidle] at this
            cases this
          rw [if_pos rfl]
          simp [hnot, LogParty.file, eq_comm]
        · rw [if_neg hq]
          simp [hq]
      · obtain rfl := Option.some.inj h
        have hfile : (w.parties p).file = some file := by rw [hp]; rfl
        rcases hw.exclusive file p q hfile hq with rfl | ⟨run', h, h'⟩
        · exact ⟨run, rfl, hp⟩
        · rw [hp] at h
          obtain ⟨rfl, _⟩ := LogParty.live.inj h
          exact ⟨run, rfl, h'⟩
      · rcases h with ⟨run', h⟩ | h
        · obtain ⟨_, rfl⟩ := LogParty.live.inj h
          exact hw.live p run file hp
        · cases h
    · exact hw
  | idle => exact hw
  | opening tries => exact hw
  | opened tries file => exact hw
  | locked tries file => exact hw
  | probing file => exact hw
  | unlocked file => exact hw
  | removed file => exact hw

/-- Who removes the log has the lock of what is at the path, so nobody else relies on it. -/
theorem remove_inv (hw : Inv w) (p : ℕ) : Inv (w.step (.remove p)) := by
  rw [step]
  cases hp : w.parties p with
  | unlocked file =>
    have hfile : (w.parties p).file = some file := by rw [hp]; rfl
    simp only
    refine hw.change p (.removed file) rfl (fun file' q => ?_) (fun file' q h hne hq => ?_)
      (fun file' q hne h => ?_) fun file' h => ?_
    · split
      · rename_i heq
        subst heq
        exact (hw.locks file' q).trans (by rw [hfile]; rfl)
      · exact Iff.rfl
    · obtain rfl := Option.some.inj h
      obtain ⟨run, hlive⟩ := hw.alone hfile hq hne
      rw [hp] at hlive
      cases hlive
    · have hsame : file' = file := Option.some.inj ((hw.others h).symm.trans (hw.unlocked p file hp))
      subst hsame
      have hq : (w.parties q).file = some file' := by
        rcases h with ⟨run, h⟩ | h <;> rw [h] <;> rfl
      obtain ⟨run, hlive⟩ := hw.alone hfile hq hne
      rw [hp] at hlive
      cases hlive
    · rcases h with ⟨run, h⟩ | h <;> cases h
  | idle => exact hw
  | opening tries => exact hw
  | opened tries file => exact hw
  | locked tries file => exact hw
  | live run file => exact hw
  | probing file => exact hw
  | removed file => exact hw

/-- **Each act keeps the invariant**, if nobody locks a file to prune it that is not at the path. -/
theorem step_inv (hw : Inv w) {act : Act} (hfresh : w.Fresh act) : Inv (w.step act) := by
  cases act with
  | acquire p =>
    rw [step]
    split
    · rename_i h
      exact hw.move_free (by rw [h]; rfl) rfl
    · exact hw
  | opens p =>
    rw [step]
    cases hp : w.parties p with
    | opening tries => exact hw.create.move_free (by rw [parties_create, hp]; rfl) rfl
    | idle => exact hw
    | opened tries file => exact hw
    | locked tries file => exact hw
    | live run file => exact hw
    | probing file => exact hw
    | unlocked file => exact hw
    | removed file => exact hw
  | lock p =>
    rw [step]
    cases hp : w.parties p with
    | opened tries file =>
      simp only
      split
      · refine hw.grant (by rw [hp]; rfl) rfl ‹_› fun h => ?_
        rcases h with ⟨run, h⟩ | h <;> cases h
      · exact hw
    | idle => exact hw
    | opening tries => exact hw
    | locked tries file => exact hw
    | live run file => exact hw
    | probing file => exact hw
    | unlocked file => exact hw
    | removed file => exact hw
  | check p => exact check_inv hw p
  | inherit p child => exact inherit_inv hw p child
  | append => exact hw.create
  | probe p =>
    rw [step]
    split
    · rename_i h _
      exact hw.move_free (by rw [h]; rfl) rfl
    · exact hw
  | tryLock p =>
    rw [step]
    cases hp : w.parties p with
    | probing file =>
      simp only
      split
      · exact hw.grant (by rw [hp]; rfl) rfl ‹_› fun _ => hfresh file hp
      · exact hw.move_free (by rw [hp]; rfl) rfl
    | idle => exact hw
    | opening tries => exact hw
    | opened tries file => exact hw
    | locked tries file => exact hw
    | live run file => exact hw
    | unlocked file => exact hw
    | removed file => exact hw
  | remove p => exact remove_inv hw p
  | close p =>
    rw [step]
    split
    · exact hw.leave rfl
    · exact hw.leave rfl
    · exact hw.leave rfl
    · exact hw
  | die p => exact hw.leave rfl

theorem run_inv {acts : List Act} (hw : Inv w) (hfresh : w.FreshRun acts) : Inv (w.run acts) := by
  induction acts generalizing w with
  | nil => exact hw
  | cons act acts ih => exact ih (step_inv hw hfresh.1) hfresh.2

end Steps

/-- A run and one who prunes, twice. -/
def pruneActs : List LogPath.Act :=
  [.append, .acquire 1, .opens 1, .probe 2, .tryLock 2, .remove 2, .close 2, .lock 1, .check 1, .opens 1,
    .lock 1, .check 1, .probe 2, .tryLock 2]

/-- Two who prune may lose the log of a run: one locks the file that the other has removed, and removes the
log of the run that came in between. -/
theorem stale_prune_loses_log :
    let w := init.run [.append, .probe 2, .probe 3, .tryLock 2, .remove 2, .close 2, .acquire 1, .opens 1,
      .lock 1, .check 1, .tryLock 3, .remove 3]
    w.parties 1 = .live 1 1 ∧ w.path = none := by
  decide

end LogPath

end Fkst.Codex
