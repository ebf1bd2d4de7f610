import Mathlib.Logic.Relation
import Mathlib.Logic.Function.Basic
import Fkst.Json
import Fkst.Lib.Utf8
import Fkst.Rust

/-!
# Commands of the updater

`fkst-update` runs other programs (`main.rs`) and collects what they write.  `run_command` looks every
ten milliseconds whether the child has exited, and reads the two pipes only then.

The system has two parties.  The child takes its time before every byte it writes and before it exits;
it has to wait while a pipe is full.  The parent sleeps, asks for the child and looks at the clock.
What happens at an instant has happened when the parent looks at that instant, and between the two
looks no more than `slack` goes by.

`answers_iff` says when the parent returns what the child wrote: the two texts have to fit into the
pipes, since nobody reads them before the child is gone.
-/

set_option autoImplicit false

namespace Fkst.Update

open Relation

/-! ## The child -/

/-- The pipes of a child. -/
inductive Stream where
  | stdout
  | stderr
deriving DecidableEq

/-- A byte that a child writes, and the time that it takes before. -/
structure Write where
  delay : ℕ
  stream : Stream
  byte : UInt8
deriving DecidableEq

/-- What a child has left to do. -/
structure Program where
  writes : List Write
  exitDelay : ℕ
  status : Int32
deriving DecidableEq

/-- The byte, if it is for this pipe. -/
def Write.bytes (w : Write) (stream : Stream) : List UInt8 := if w.stream = stream then [w.byte] else []

/-- The bytes in the pipes. -/
abbrev Pipes := Stream → List UInt8

/-- A byte comes into its pipe. -/
def Pipes.push (pipes : Pipes) (w : Write) : Pipes := fun stream => pipes stream ++ w.bytes stream

namespace Program

/-- What a child writes to a pipe. -/
def output (program : Program) (stream : Stream) : List UInt8 :=
  program.writes.flatMap (·.bytes stream)

/-- The time that a child needs when it never has to wait. -/
def need (program : Program) : ℕ := (program.writes.map (·.delay)).sum + program.exitDelay

/-- A unit of time goes by. -/
def tick (program : Program) : Program :=
  match program.writes with
  | [] => { program with exitDelay := program.exitDelay - 1 }
  | w :: writes => { program with writes := { w with delay := w.delay - 1 } :: writes }

/-- A child has something to do now, and there is room for it. -/
def CanAct (capacity : ℕ) (pipes : Pipes) (program : Program) : Prop :=
  match program.writes with
  | [] => program.exitDelay = 0
  | w :: _ => w.delay = 0 ∧ (pipes w.stream).length < capacity

end Program

/-- A child, and its exit code once it is gone: there is none if it was killed. -/
inductive Child where
  | running (left : Program)
  | exited (status : Option Int32)
deriving DecidableEq

namespace Child

def tick : Child → Child
  | running left => running left.tick
  | exited status => exited status

/-- `Child::kill`, which changes nothing when the child is gone. -/
def kill : Child → Child
  | running _ => exited none
  | exited status => exited status

end Child

/-! ## The parent -/

/-- `CommandOutcome`. -/
structure CommandOutcome where
  status : Option Int32
  stdout : List UInt8
  stderr : List UInt8
  timedOut : Bool
deriving DecidableEq

/-- Where `run_command` is: before `try_wait`, between that and `elapsed`, in `sleep`, before
`wait_with_output`, or behind it. -/
inductive Parent where
  | polling
  | checking (asked : ℕ)
  | sleeping (wake : ℕ)
  | reading (timedOut : Bool)
  | returned (outcome : CommandOutcome)
deriving DecidableEq

/-- The two parties, at a time since the start. -/
structure State where
  now : ℕ
  child : Child
  pipes : Pipes
  parent : Parent

/-- Ten milliseconds, in nanoseconds. -/
def pollInterval : ℕ := 10 * 1000 * 1000

/-- A step of `run_command`. -/
def runCommandStep (timeout : ℕ) (s : State) : Option State :=
  match s.parent with
  | .polling =>
    match s.child with
    | .exited _ => some { s with parent := .reading false }
    | .running _ => some { s with parent := .checking s.now }
  | .checking _ =>
    if timeout ≤ s.now then some { s with child := s.child.kill, parent := .reading true }
    else some { s with parent := .sleeping (s.now + pollInterval) }
  | .sleeping wake => if wake ≤ s.now then some { s with parent := .polling } else none
  | .reading timedOut =>
    match s.child with
    | .exited status =>
      some { s with
        pipes := fun _ => []
        parent := .returned ⟨status, s.pipes .stdout, s.pipes .stderr, timedOut⟩ }
    | .running _ => none
  | .returned _ => none

/-! ## Executions -/

section System

-- how much a pipe holds, how long the child may take, and how much time goes by between the two looks
-- of the parent at most
variable (capacity timeout slack : ℕ)

/-- The child has done what it can do now. -/
def Settled (s : State) : Prop := ∀ left, s.child = .running left → ¬ left.CanAct capacity s.pipes

/-- Time may go by. -/
def Idle (s : State) : Prop := ∀ asked, s.parent = .checking asked → s.now < asked + slack

/-- **A step of the two parties.** -/
inductive Step : State → State → Prop where
  /-- The child writes a byte. -/
  | write {s : State} {left : Program} {w : Write} {writes : List Write}
      (hchild : s.child = .running left) (hwrites : left.writes = w :: writes) (hdelay : w.delay = 0)
      (hroom : (s.pipes w.stream).length < capacity) :
      Step s { s with
        child := .running { left with writes := writes }
        pipes := s.pipes.push w }
  /-- The child exits. -/
  | exit {s : State} {left : Program} (hchild : s.child = .running left) (hwrites : left.writes = [])
      (hdelay : left.exitDelay = 0) :
      Step s { s with child := .exited (some left.status) }
  /-- Time goes by, and a child that waits for a pipe goes on waiting. -/
  | tick {s : State} (hsettled : Settled capacity s) (hidle : Idle slack s) :
      Step s { s with now := s.now + 1, child := s.child.tick }
  /-- The parent goes on. -/
  | parent {s s' : State} (hsettled : Settled capacity s) (hstep : runCommandStep timeout s = some s') :
      Step s s'

/-- The start of a command. -/
def spawn (program : Program) : State := ⟨0, .running program, fun _ => [], .polling⟩

/-- What an execution comes to. -/
def Reachable (program : Program) (s : State) : Prop :=
  ReflTransGen (Step capacity timeout slack) (spawn program) s

end System

/-- **The outcome of a child that is let run.** -/
def drained (program : Program) : CommandOutcome :=
  ⟨some program.status, program.output .stdout, program.output .stderr, false⟩

/-- What a child writes fits into the pipes. -/
def Fits (capacity : ℕ) (program : Program) : Prop :=
  ∀ stream, (program.output stream).length ≤ capacity

/-! ## What holds in every execution -/

namespace Program

theorem output_tick (program : Program) (stream : Stream) : program.tick.output stream = program.output stream := by
  obtain ⟨writes, exitDelay, status⟩ := program
  cases writes with
  | nil => rfl
  | cons w writes => rfl

theorem status_tick (program : Program) : program.tick.status = program.status := by
  obtain ⟨writes, exitDelay, status⟩ := program
  cases writes <;> rfl

/-- A unit of time is a unit less to take, at most. -/
theorem need_le_tick (program : Program) : program.need ≤ program.tick.need + 1 := by
  obtain ⟨writes, exitDelay, status⟩ := program
  cases writes with
  | nil => simp only [need, tick, List.map_nil, List.sum_nil]; omega
  | cons w writes => simp only [need, tick, List.map_cons, List.sum_cons]; omega

variable {capacity : ℕ} {pipes : Pipes} {program : Program}

/-- A child that waits for time, and not for a pipe, comes closer to its end. -/
theorem need_tick (hact : ¬ program.CanAct capacity pipes)
    (hroom : ∀ w writes, program.writes = w :: writes → (pipes w.stream).length < capacity) :
    program.need = program.tick.need + 1 := by
  obtain ⟨writes, exitDelay, status⟩ := program
  cases writes with
  | nil =>
    have hdelay : exitDelay ≠ 0 := hact
    simp only [need, tick, List.map_nil, List.sum_nil]
    omega
  | cons w writes =>
    have hdelay : w.delay ≠ 0 := fun hdelay => hact ⟨hdelay, hroom w writes rfl⟩
    simp only [need, tick, List.map_cons, List.sum_cons]
    omega

theorem output_cons {w : Write} {writes : List Write} (hwrites : program.writes = w :: writes)
    (stream : Stream) :
    program.output stream = w.bytes stream ++ { program with writes := writes }.output stream := by
  rw [output, hwrites, List.flatMap_cons]
  rfl

theorem need_cons {w : Write} {writes : List Write} (hwrites : program.writes = w :: writes)
    (hdelay : w.delay = 0) : { program with writes := writes }.need = program.need := by
  simp only [need, hwrites, List.map_cons, List.sum_cons, hdelay, Nat.zero_add]

end Program

/-- What holds of the child and of the pipes until the parent kills the child or reads: nothing is
lost, no pipe holds more than it can, and the child is as fast as it can be if it never waits for a
pipe. -/
structure Underway (capacity : ℕ) (program : Program) (s : State) : Prop where
  length_le : ∀ stream, (s.pipes stream).length ≤ capacity
  running : ∀ left, s.child = .running left →
    (∀ stream, s.pipes stream ++ left.output stream = program.output stream) ∧
    left.status = program.status ∧ program.need ≤ s.now + left.need ∧
    (Fits capacity program → s.now + left.need = program.need)
  exited : ∀ status, s.child = .exited status → status = some program.status ∧
    (∀ stream, s.pipes stream = program.output stream) ∧ program.need ≤ s.now

section Invariant

variable {capacity timeout slack : ℕ} {program : Program} {s s' : State}

theorem underway_spawn : Underway capacity program (spawn program) where
  length_le _ := Nat.zero_le _
  running left h := by
    obtain rfl := Child.running.inj h
    exact ⟨fun _ => rfl, rfl, by simp [spawn], fun _ => by simp [spawn]⟩
  exited _ h := by cases h

/-- If the output fits, there is room for what comes next. -/
theorem Underway.room (h : Underway capacity program s) (hfits : Fits capacity program) {left : Program}
    (hchild : s.child = .running left) {w : Write} {writes : List Write}
    (hwrites : left.writes = w :: writes) : (s.pipes w.stream).length < capacity := by
  have hout := (h.running left hchild).1 w.stream
  have hle := hfits w.stream
  rw [← hout, Program.output_cons hwrites, Write.bytes, if_pos rfl] at hle
  simp only [List.length_append, List.length_singleton] at hle
  omega

theorem Underway.write (h : Underway capacity program s) {left : Program} {w : Write}
    {writes : List Write} (hchild : s.child = .running left) (hwrites : left.writes = w :: writes)
    (hdelay : w.delay = 0) (hroom : (s.pipes w.stream).length < capacity) :
    Underway capacity program { s with
      child := .running { left with writes := writes }
      pipes := s.pipes.push w } where
  length_le stream := by
    show (s.pipes stream ++ w.bytes stream).length ≤ capacity
    rw [List.length_append, Write.bytes]
    split
    · rename_i hstream
      exact hstream ▸ hroom
    · exact h.length_le stream
  running left' h' := by
    obtain rfl := Child.running.inj h'
    obtain ⟨hout, hstatus, hneed, hfits⟩ := h.running left hchild
    refine ⟨fun stream => ?_, hstatus, ?_, fun hfit => ?_⟩
    · rw [← hout stream, Program.output_cons hwrites, ← List.append_assoc]
      rfl
    · rwa [Program.need_cons hwrites hdelay]
    · rw [Program.need_cons hwrites hdelay]
      exact hfits hfit
  exited _ h' := by cases h'

theorem Underway.exit (h : Underway capacity program s) {left : Program} (hchild : s.child = .running left)
    (hwrites : left.writes = []) (hdelay : left.exitDelay = 0) :
    Underway capacity program { s with child := .exited (some left.status) } where
  length_le := h.length_le
  running _ h' := by cases h'
  exited status h' := by
    obtain rfl := Child.exited.inj h'
    obtain ⟨hout, hstatus, hneed, _⟩ := h.running left hchild
    refine ⟨congrArg some hstatus, fun stream => ?_, ?_⟩
    · rw [← hout stream, Program.output, hwrites]
      simp
    · simpa [Program.need, hwrites, hdelay] using hneed

theorem Underway.tick (h : Underway capacity program s) (hsettled : Settled capacity s) :
    Underway capacity program { s with now := s.now + 1, child := s.child.tick } where
  length_le := h.length_le
  running left' h' := by
    cases hchild : s.child with
    | exited status => rw [hchild] at h'; cases h'
    | running left =>
      rw [hchild] at h'
      obtain rfl := Child.running.inj h'
      obtain ⟨hout, hstatus, hneed, hfits⟩ := h.running left hchild
      refine ⟨fun stream => ?_, ?_, ?_, fun hfit => ?_⟩
      · rw [Program.output_tick, hout stream]
      · rw [Program.status_tick, hstatus]
      · have := Program.need_le_tick left
        show program.need ≤ s.now + 1 + left.tick.need
        omega
      · have hneed := Program.need_tick (hsettled left hchild) fun w writes => h.room hfit hchild
        have := hfits hfit
        show s.now + 1 + left.tick.need = program.need
        omega
  exited status h' := by
    cases hchild : s.child with
    | running left => rw [hchild] at h'; cases h'
    | exited status' =>
      rw [hchild] at h'
      obtain rfl := Child.exited.inj h'
      obtain ⟨hstatus, hpipes, hneed⟩ := h.exited _ hchild
      exact ⟨hstatus, hpipes, Nat.le_succ_of_le hneed⟩

theorem Underway.congr (h : Underway capacity program s) (hnow : s'.now = s.now)
    (hchild : s'.child = s.child) (hpipes : s'.pipes = s.pipes) : Underway capacity program s' := by
  obtain ⟨now', child', pipes', parent'⟩ := s'
  subst hnow hchild hpipes
  exact ⟨h.length_le, h.running, h.exited⟩

/-- A child that could not go on is not at its end yet, if its output fits. -/
theorem Underway.lt_need (h : Underway capacity program s) (hfits : Fits capacity program)
    (hsettled : Settled capacity s) {left : Program} (hchild : s.child = .running left) :
    s.now < program.need := by
  have hneed := (h.running left hchild).2.2.2 hfits
  have := Program.need_tick (hsettled left hchild) fun w writes => h.room hfits hchild
  omega

/-- A child whose output does not fit is never at its end. -/
theorem Underway.not_exited (h : Underway capacity program s) (hfits : ¬ Fits capacity program)
    (status : Option Int32) : s.child ≠ .exited status := by
  intro hchild
  obtain ⟨_, hpipes, _⟩ := h.exited status hchild
  exact hfits fun stream => hpipes stream ▸ h.length_le stream

/-- What the parent waits for, if everything fits and nothing is late. -/
def OnTrack (capacity slack : ℕ) (program : Program) (s : State) : Prop :=
  match s.parent with
  | .polling => Underway capacity program s
  | .checking asked => Underway capacity program s ∧ asked < program.need ∧ s.now ≤ asked + slack
  | .sleeping _ => Underway capacity program s
  | .reading timedOut =>
    timedOut = false ∧ Underway capacity program s ∧ ∃ status, s.child = .exited status
  | .returned outcome => outcome = drained program ∧ ∃ status, s.child = .exited status

/-- A child does what is right for it while the parent is not done. -/
theorem OnTrack.child (h : OnTrack capacity slack program s) {left : Program}
    (hchild : s.child = .running left) {child' : Child} {pipes' : Pipes}
    (hunderway : Underway capacity program s →
      Underway capacity program { s with child := child', pipes := pipes' }) :
    OnTrack capacity slack program { s with child := child', pipes := pipes' } := by
  obtain ⟨now, child, pipes, parent⟩ := s
  cases parent with
  | polling => exact hunderway h
  | checking asked => exact ⟨hunderway h.1, h.2⟩
  | sleeping wake => exact hunderway h
  | reading timedOut =>
    obtain ⟨_, _, status, hexited⟩ := h
    cases hchild.symm.trans hexited
  | returned outcome =>
    obtain ⟨_, status, hexited⟩ := h
    cases hchild.symm.trans hexited

theorem OnTrack.tick (h : OnTrack capacity slack program s) (hsettled : Settled capacity s)
    (hidle : Idle slack s) :
    OnTrack capacity slack program { s with now := s.now + 1, child := s.child.tick } := by
  obtain ⟨now, child, pipes, parent⟩ := s
  cases parent with
  | polling => exact Underway.tick h hsettled
  | checking asked => exact ⟨h.1.tick hsettled, h.2.1, hidle asked rfl⟩
  | sleeping wake => exact Underway.tick h hsettled
  | reading timedOut =>
    obtain ⟨htimedOut, hunderway, status, rfl⟩ := h
    exact ⟨htimedOut, hunderway.tick hsettled, status, rfl⟩
  | returned outcome =>
    obtain ⟨houtcome, status, rfl⟩ := h
    exact ⟨houtcome, status, rfl⟩

theorem OnTrack.parent (h : OnTrack capacity slack program s) (hfits : Fits capacity program)
    (htime : program.need = 0 ∨ program.need + slack ≤ timeout) (hsettled : Settled capacity s)
    (hstep : runCommandStep timeout s = some s') : OnTrack capacity slack program s' := by
  obtain ⟨now, child, pipes, parent⟩ := s
  cases parent with
  | polling =>
    have hunderway : Underway capacity program _ := h
    cases child with
    | running left =>
      obtain rfl := Option.some.inj hstep
      exact ⟨hunderway.congr rfl rfl rfl, hunderway.lt_need hfits hsettled rfl, Nat.le_add_right _ _⟩
    | exited status =>
      obtain rfl := Option.some.inj hstep
      exact ⟨rfl, hunderway.congr rfl rfl rfl, status, rfl⟩
  | checking asked =>
    obtain ⟨hunderway, hasked, hnow⟩ := h
    simp only at hnow
    rw [runCommandStep, if_neg (show ¬ timeout ≤ now by omega)] at hstep
    obtain rfl := Option.some.inj hstep
    exact hunderway.congr rfl rfl rfl
  | sleeping wake =>
    have hunderway : Underway capacity program _ := h
    simp only [runCommandStep] at hstep
    split at hstep
    · obtain rfl := Option.some.inj hstep
      exact hunderway.congr rfl rfl rfl
    · cases hstep
  | reading timedOut =>
    obtain ⟨rfl, hunderway, status, rfl⟩ := h
    obtain rfl := Option.some.inj hstep
    obtain ⟨rfl, hpipes, _⟩ := hunderway.exited status rfl
    refine ⟨?_, _, rfl⟩
    rw [drained, ← hpipes, ← hpipes]
  | returned outcome => cases hstep

/-- **Every step stays on track.** -/
theorem OnTrack.step (h : OnTrack capacity slack program s) (hfits : Fits capacity program)
    (htime : program.need = 0 ∨ program.need + slack ≤ timeout)
    (hstep : Step capacity timeout slack s s') : OnTrack capacity slack program s' := by
  cases hstep with
  | write hchild hwrites hdelay hroom =>
    exact h.child hchild fun hunderway => hunderway.write hchild hwrites hdelay hroom
  | exit hchild hwrites hdelay => exact h.child hchild fun hunderway => hunderway.exit hchild hwrites hdelay
  | tick hsettled hidle => exact h.tick hsettled hidle
  | parent hsettled hstep => exact h.parent hfits htime hsettled hstep

theorem OnTrack.steps (h : OnTrack capacity slack program s) (hfits : Fits capacity program)
    (htime : program.need = 0 ∨ program.need + slack ≤ timeout)
    (hsteps : ReflTransGen (Step capacity timeout slack) s s') : OnTrack capacity slack program s' := by
  induction hsteps with
  | refl => exact h
  | tail _ hstep ih => exact ih.step hfits htime hstep

end Invariant

/-! ## Executions that exist -/

section Progress

variable {capacity timeout slack : ℕ} {program : Program} {s : State}

/-- A child that is let do what it can do now. -/
theorem exists_settled (s : State) : ∃ s', ReflTransGen (Step capacity timeout slack) s s' ∧
    Settled capacity s' ∧ s'.now = s.now ∧ s'.parent = s.parent ∧
    (Underway capacity program s → Underway capacity program s') := by
  obtain ⟨now, child, pipes, parent⟩ := s
  cases child with
  | exited status => exact ⟨_, .refl, fun left h => (by cases h), rfl, rfl, id⟩
  | running left =>
    obtain ⟨writes, exitDelay, status⟩ := left
    induction writes generalizing pipes with
    | nil =>
      by_cases hdelay : exitDelay = 0
      · refine ⟨_, .single (.exit rfl rfl hdelay), fun left h => (by cases h), rfl, rfl, fun h => ?_⟩
        exact h.exit rfl rfl hdelay
      · refine ⟨_, .refl, fun left h hact => ?_, rfl, rfl, id⟩
        obtain rfl := Child.running.inj h
        exact hdelay hact
    | cons w writes ih =>
      by_cases hact : w.delay = 0 ∧ (pipes w.stream).length < capacity
      · obtain ⟨s', hsteps, hsettled, hnow, hparent, hunderway⟩ := ih (pipes.push w)
        refine ⟨s', .head (.write rfl rfl hact.1 hact.2) hsteps, hsettled, hnow, hparent, fun h => ?_⟩
        exact hunderway (h.write rfl rfl hact.1 hact.2)
      · refine ⟨_, .refl, fun left h => ?_, rfl, rfl, id⟩
        obtain rfl := Child.running.inj h
        exact hact

/-- Time can go by as long as the parent is not between its two looks for too long. -/
theorem exists_later (d : ℕ) (s : State)
    (hidle : ∀ asked, s.parent = .checking asked → s.now + d ≤ asked + slack) :
    ∃ s', ReflTransGen (Step capacity timeout slack) s s' ∧ Settled capacity s' ∧ s'.now = s.now + d ∧
      s'.parent = s.parent ∧ (Underway capacity program s → Underway capacity program s') := by
  induction d with
  | zero => exact exists_settled s
  | succ d ih =>
    obtain ⟨s₁, hsteps, hsettled, hnow, hparent, hunderway⟩ :=
      ih fun asked h => (Nat.le_succ _).trans (hidle asked h)
    have hidle₁ : Idle slack s₁ := by
      intro asked h
      have := hidle asked (hparent ▸ h)
      omega
    obtain ⟨s₂, hsteps₂, hsettled₂, hnow₂, hparent₂, hunderway₂⟩ :=
      @exists_settled capacity timeout slack program { s₁ with now := s₁.now + 1, child := s₁.child.tick }
    refine ⟨s₂, (hsteps.tail (.tick hsettled hidle₁)).trans hsteps₂, hsettled₂, ?_,
      hparent₂.trans hparent, fun h => hunderway₂ ((hunderway h).tick hsettled)⟩
    rw [hnow₂, hnow]
    rfl

/-- **A parent that is on track comes to its end.** -/
theorem OnTrack.exists_returned (h : OnTrack capacity slack program s) (hfits : Fits capacity program)
    (htime : program.need = 0 ∨ program.need + slack ≤ timeout) :
    ∃ s', ReflTransGen (Step capacity timeout slack) s s' ∧ s'.parent = .returned (drained program) := by
  -- once the child has exited there is only the reading left
  have hreading : ∀ s, OnTrack capacity slack program s → s.parent = .reading false →
      ∃ s', ReflTransGen (Step capacity timeout slack) s s' ∧
        s'.parent = .returned (drained program) := by
    intro s h hparent
    obtain ⟨now, child, pipes, parent⟩ := s
    obtain rfl : parent = .reading false := hparent
    cases child with
    | running left =>
      obtain ⟨_, _, status, hexited⟩ := h
      cases hexited
    | exited status =>
      have hstep : Step capacity timeout slack ⟨now, .exited status, pipes, .reading false⟩ _ :=
        .parent (fun left h => by cases h) rfl
      have hreturned := h.step hfits htime hstep
      exact ⟨_, .single hstep, congrArg Parent.returned hreturned.1⟩
  have hpolling : ∀ s, OnTrack capacity slack program s → s.parent = .polling →
      ∃ s', ReflTransGen (Step capacity timeout slack) s s' ∧
        s'.parent = .returned (drained program) := by
    intro s h hparent
    obtain ⟨s₁, hsteps, hsettled, hnow, hparent₁, _⟩ := @exists_later capacity timeout slack program
      program.need s fun asked h => by cases hparent.symm.trans h
    have h₁ := h.steps hfits htime hsteps
    obtain ⟨now, child, pipes, parent⟩ := s₁
    obtain rfl : parent = .polling := hparent₁.trans hparent
    cases child with
    | running left =>
      -- the child had all the time it needs
      have hlt := Underway.lt_need h₁ hfits hsettled rfl
      simp only at hnow hlt
      omega
    | exited status =>
      have hstep : Step capacity timeout slack ⟨now, .exited status, pipes, .polling⟩ _ :=
        .parent hsettled rfl
      obtain ⟨s₂, hsteps₂, hreturned⟩ := hreading _ (h₁.step hfits htime hstep) rfl
      exact ⟨s₂, hsteps.trans (.head hstep hsteps₂), hreturned⟩
  have hsleeping : ∀ s wake, OnTrack capacity slack program s → s.parent = .sleeping wake →
      ∃ s', ReflTransGen (Step capacity timeout slack) s s' ∧
        s'.parent = .returned (drained program) := by
    intro s wake h hparent
    obtain ⟨s₁, hsteps, hsettled, hnow, hparent₁, _⟩ := @exists_later capacity timeout slack program
      wake s fun asked h => by cases hparent.symm.trans h
    have hstep : Step capacity timeout slack s₁ { s₁ with parent := .polling } := by
      refine .parent hsettled ?_
      rw [runCommandStep, hparent₁, hparent]
      exact if_pos (by omega)
    obtain ⟨s₂, hsteps₂, hreturned⟩ := hpolling _ ((h.steps hfits htime hsteps).step hfits htime hstep) rfl
    exact ⟨s₂, hsteps.trans (.head hstep hsteps₂), hreturned⟩
  cases hparent : s.parent with
  | polling => exact hpolling s h hparent
  | sleeping wake => exact hsleeping s wake h hparent
  | reading timedOut =>
    have h' := h
    rw [OnTrack, hparent] at h'
    exact hreading s h (hparent.trans (congrArg _ h'.1))
  | returned outcome =>
    rw [OnTrack, hparent] at h
    exact ⟨s, .refl, hparent.trans (congrArg _ h.1)⟩
  | checking asked =>
    obtain ⟨s₁, hsteps, hsettled, hnow, hparent₁, _⟩ := @exists_settled capacity timeout slack program s
    have h₁ := h.steps hfits htime hsteps
    have hparent₁ := hparent₁.trans hparent
    have h₁' := h₁
    rw [OnTrack, hparent₁] at h₁'
    obtain ⟨_, hasked, hle⟩ := h₁'
    have hstep : Step capacity timeout slack s₁ { s₁ with parent := .sleeping (s₁.now + pollInterval) } := by
      refine .parent hsettled ?_
      rw [runCommandStep, hparent₁]
      exact if_neg (by omega)
    obtain ⟨s₂, hsteps₂, hreturned⟩ := hsleeping _ _ (h₁.step hfits htime hstep) rfl
    exact ⟨s₂, hsteps.trans (.head hstep hsteps₂), hreturned⟩

/-- A parent that asks for a running child and then looks at the clock too late. -/
theorem exists_timedOut {left : Program} (hparent : s.parent = .polling) (hsettled : Settled capacity s)
    (hchild : s.child = .running left) {d : ℕ} (hd : d ≤ slack) (hlate : timeout ≤ s.now + d) :
    ∃ s' outcome, ReflTransGen (Step capacity timeout slack) s s' ∧ s'.parent = .returned outcome ∧
      outcome.timedOut = true := by
  have hask : Step capacity timeout slack s { s with parent := .checking s.now } := by
    refine .parent hsettled ?_
    rw [runCommandStep, hparent, hchild]
  obtain ⟨s₁, hsteps, hsettled₁, hnow, hparent₁, _⟩ := @exists_later capacity timeout slack left d
    { s with parent := .checking s.now } fun asked h => by
      obtain rfl := Parent.checking.inj h
      exact Nat.add_le_add_left hd _
  obtain ⟨status, hexited⟩ : ∃ status, s₁.child.kill = .exited status := by
    cases s₁.child with
    | running left => exact ⟨none, rfl⟩
    | exited status => exact ⟨status, rfl⟩
  have hkill : Step capacity timeout slack s₁ { s₁ with child := .exited status, parent := .reading true } := by
    refine .parent hsettled₁ ?_
    rw [runCommandStep, hparent₁, ← hexited]
    exact if_pos (hnow ▸ hlate)
  have hread : Step capacity timeout slack { s₁ with child := .exited status, parent := .reading true }
      { s₁ with
        child := .exited status
        pipes := fun _ => []
        parent := .returned ⟨status, s₁.pipes .stdout, s₁.pipes .stderr, true⟩ } :=
    .parent (fun left h => by cases h) rfl
  exact ⟨_, _, ((ReflTransGen.head hask hsteps).tail hkill).tail hread, rfl, rfl⟩

end Progress

/-! ## Releases -/

/-- `ErrorClass`, where a release is looked for. -/
inductive ErrorClass where
  | releaseQueryTimeout
  | releaseQueryFailed
  | noMatchingRelease
  | assetNotFound
deriving DecidableEq

/-- `UpdateError`. -/
structure UpdateError where
  cls : ErrorClass
  detail : String
deriving DecidableEq

/-- `ReleaseAsset`. -/
structure ReleaseAsset where
  tag : String
  archiveName : String
  archiveUrl : String
  checksumsUrl : String
deriving DecidableEq

/-- `url_for`. -/
def urlFor (assets : List Json) (want : String) : Option String :=
  assets.findSome? fun asset => do
    let name ← (asset.get "name").bind Json.asStr
    let url ← (asset.get "browser_download_url").bind Json.asStr
    if name = want then some url else none

/-- `release_asset_from_json`, for the target that the updater was built for. -/
def releaseAssetFromJson (target : String) (release : Json) : Except UpdateError ReleaseAsset :=
  match ((release.get "tag_name").bind Json.asStr).filter (· ≠ "") with
  | none => .error ⟨.noMatchingRelease, "release has no tag_name"⟩
  | some tag =>
    match (release.get "assets").bind Json.asArray with
    | none => .error ⟨.assetNotFound, "release has no assets"⟩
    | some assets =>
      let archiveName := "fkst-" ++ target ++ ".tar.gz"
      match urlFor assets archiveName with
      | none => .error ⟨.assetNotFound, "release " ++ tag ++ " has no asset " ++ archiveName⟩
      | some archiveUrl =>
        match urlFor assets "SHA256SUMS" with
        | none => .error ⟨.assetNotFound, "release " ++ tag ++ " has no asset SHA256SUMS"⟩
        | some checksumsUrl => .ok ⟨tag, archiveName, archiveUrl, checksumsUrl⟩

/-- `resolve_release`, from the outcome of the query on. -/
def resolveRelease (fromSlice : List UInt8 → Except String Json) (target apiUrl : String)
    (outcome : CommandOutcome) : Except UpdateError ReleaseAsset :=
  if outcome.timedOut then .error ⟨.releaseQueryTimeout, apiUrl⟩
  else if outcome.status ≠ some 0 then
    .error ⟨.releaseQueryFailed, String.ofList (trim (Lib.Utf8.lossy outcome.stderr))⟩
  else
    match fromSlice outcome.stdout with
    | .error err => .error ⟨.releaseQueryFailed, err⟩
    | .ok release => releaseAssetFromJson target release

/-- Looking for an asset reports no timeout. -/
theorem cls_of_releaseAssetFromJson {target : String} {release : Json} {error : UpdateError}
    (h : releaseAssetFromJson target release = .error error) : error.cls ≠ .releaseQueryTimeout := by
  rw [releaseAssetFromJson] at h
  split at h
  · cases h
    decide
  · split at h
    · cases h
      decide
    · simp only at h
      split at h
      · cases h
        simp
      · split at h
        · cases h
          simp
        · cases h

/-- A timeout is reported for an outcome that is one, and only then. -/
theorem cls_of_resolveRelease {fromSlice : List UInt8 → Except String Json} {target apiUrl : String}
    {outcome : CommandOutcome} (hin : outcome.timedOut = false) {error : UpdateError}
    (h : resolveRelease fromSlice target apiUrl outcome = .error error) :
    error.cls ≠ .releaseQueryTimeout := by
  rw [resolveRelease, hin] at h
  simp only [Bool.false_eq_true, if_false] at h
  split at h
  · cases h
    simp
  · split at h
    · cases h
      simp
    · exact cls_of_releaseAssetFromJson h

/-! ## When the outcome is that of the child -/

/-- **The updater gets what the child has written**: no execution comes to another outcome, or to a
release query that is said to have timed out, and every execution can go on to this outcome. -/
def Answers (capacity timeout slack : ℕ) (program : Program) : Prop :=
  ∀ s, Reachable capacity timeout slack program s →
    (∀ outcome, s.parent = .returned outcome → outcome = drained program ∧
      ∀ fromSlice target apiUrl error,
        resolveRelease fromSlice target apiUrl outcome = .error error →
          error.cls ≠ .releaseQueryTimeout) ∧
    ∃ s', ReflTransGen (Step capacity timeout slack) s s' ∧ s'.parent = .returned (drained program)

section Answers

variable {capacity timeout slack : ℕ} {program : Program}

/-- A child that cannot write what it has to is there until it is killed. -/
theorem exists_timedOut_of_not_fits (hfits : ¬ Fits capacity program) :
    ∃ s outcome, Reachable capacity timeout slack program s ∧ s.parent = .returned outcome ∧
      outcome.timedOut = true := by
  obtain ⟨s, hsteps, hsettled, hnow, hparent, hunderway⟩ := @exists_later capacity timeout slack program
    timeout (spawn program) fun asked h => by cases h
  cases hchild : s.child with
  | exited status => exact absurd hchild ((hunderway underway_spawn).not_exited hfits status)
  | running left =>
    have hlate : timeout ≤ s.now + 0 := by simp [hnow]
    obtain ⟨s', outcome, hsteps', hreturned⟩ :=
      exists_timedOut hparent hsettled hchild (Nat.zero_le slack) hlate
    exact ⟨s', outcome, hsteps.trans hsteps', hreturned⟩

/-- A child that has not exited when the parent asks may well have when it is killed. -/
theorem exists_timedOut_of_late (hneed : program.need ≠ 0) (hlate : timeout < program.need + slack) :
    ∃ s outcome, Reachable capacity timeout slack program s ∧ s.parent = .returned outcome ∧
      outcome.timedOut = true := by
  obtain ⟨s, hsteps, hsettled, hnow, hparent, hunderway⟩ := @exists_later capacity timeout slack program
    (program.need - 1) (spawn program) fun asked h => by cases h
  have hzero : (spawn program).now = 0 := rfl
  cases hchild : s.child with
  | exited status =>
    have := ((hunderway underway_spawn).exited status hchild).2.2
    omega
  | running left =>
    obtain ⟨s', outcome, hsteps', hreturned⟩ :=
      exists_timedOut hparent hsettled hchild (Nat.le_refl slack) (show timeout ≤ s.now + slack by omega)
    exact ⟨s', outcome, hsteps.trans hsteps', hreturned⟩

/-- A command answers if what the child writes fits into the pipes and the parent does not waste the
time that the child leaves, and only then. -/
theorem answers_iff : Answers capacity timeout slack program ↔
    Fits capacity program ∧ (program.need = 0 ∨ program.need + slack ≤ timeout) := by
  constructor
  · intro h
    have hnever : ¬ ∃ s outcome, Reachable capacity timeout slack program s ∧
        s.parent = .returned outcome ∧ outcome.timedOut = true := by
      rintro ⟨s, outcome, hreach, hreturned, htimedOut⟩
      rw [((h s hreach).1 outcome hreturned).1] at htimedOut
      cases htimedOut
    constructor
    · by_contra hfits
      exact hnever (exists_timedOut_of_not_fits hfits)
    · by_contra htime
      rw [not_or, Nat.not_le] at htime
      exact hnever (exists_timedOut_of_late htime.1 htime.2)
  · rintro ⟨hfits, htime⟩ s hreach
    have hstart : OnTrack capacity slack program (spawn program) := underway_spawn
    have htrack := hstart.steps hfits htime hreach
    refine ⟨fun outcome hreturned => ?_, htrack.exists_returned hfits htime⟩
    rw [OnTrack, hreturned] at htrack
    obtain ⟨rfl, _⟩ := htrack
    exact ⟨rfl, fun fromSlice target apiUrl error => cls_of_resolveRelease rfl⟩

end Answers

namespace Sample

/-- A document that is there at once. -/
def document (length : ℕ) : Program := ⟨List.replicate length ⟨0, .stdout, 32⟩, 0, 0⟩

theorem length_document (length : ℕ) : ((document length).output .stdout).length = length := by
  rw [Program.output, document, List.length_flatMap, List.map_replicate, List.sum_replicate_nat]
  exact Nat.mul_one _

theorem need_document (length : ℕ) : (document length).need = 0 := by
  rw [Program.need, document, List.map_replicate, List.sum_replicate_nat, Nat.mul_zero,
    Nat.zero_add]

end Sample

/-- A query for a release document of one byte more than the pipes of Linux hold times out, though the
child needs no time at all. -/
theorem large_document_times_out : (Sample.document 65537).need = 0 ∧
    ¬ Answers 65536 (60 * 1000 * 1000 * 1000) 0 (Sample.document 65537) ∧
    ∃ s outcome, Reachable 65536 (60 * 1000 * 1000 * 1000) 0 (Sample.document 65537) s ∧
      s.parent = .returned outcome ∧ ∀ fromSlice target apiUrl,
        resolveRelease fromSlice target apiUrl outcome = .error ⟨.releaseQueryTimeout, apiUrl⟩ := by
  have hfits : ¬ Fits 65536 (Sample.document 65537) := by
    intro h
    have hlength := h .stdout
    rw [Sample.length_document] at hlength
    omega
  refine ⟨Sample.need_document _, fun h => hfits (answers_iff.1 h).1, ?_⟩
  obtain ⟨s, outcome, hreach, hreturned, htimedOut⟩ := exists_timedOut_of_not_fits hfits
  exact ⟨s, outcome, hreach, hreturned, fun fromSlice target apiUrl => if_pos htimedOut⟩

end Fkst.Update
