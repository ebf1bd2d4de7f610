import Fkst.Consumer.Raised
import Fkst.Lib.Gather

/-!
# What a department wrote

The consumer runs a department as a child process (`supervise/spawner.rs`).  Two tasks read its pipes and
send what they read, piece by piece, into one channel; a third sends how the child ended.  The caller
receives until it is told of the end, waits for the tasks, and takes what is left in the channel.

The parties move in any order: the child and whatever else holds its pipes write and close them, the tasks
read (`Lib.Gather`), the caller receives.  `Capture.step` is one move.  `captured` says that whatever the
order was, the caller has every byte of both pipes, in order, and the observer saw every complete line of the
standard output; `returns` that the caller does not wait for ever.
-/

set_option autoImplicit false

namespace Fkst.Spawner

open Lib

/-! ## Events, output and log -/

inductive FrameworkStream where
  | stdout
  | stderr
deriving DecidableEq

/-- How a process ended: with an exit code, or by a signal. -/
abbrev ExitStatus := Option Int

/-- What goes through the channel: pieces of output, and how the child ended. -/
abbrev FrameworkEvent := Gather.Message FrameworkStream UInt8 (Except String ExitStatus)

/-- The pipes of the child, the tasks and the channel. -/
abbrev Pipes := Gather FrameworkStream UInt8 (Except String ExitStatus)

structure FrameworkOutput where
  stdout : List UInt8
  stderr : List UInt8
  firstPipeReadMs : Option ℕ
deriving DecidableEq

namespace FrameworkOutput

def push (output : FrameworkOutput) (stream : FrameworkStream) (bytes : List UInt8) (readCompleteMs : ℕ) :
    FrameworkOutput :=
  let first := some ((output.firstPipeReadMs.map fun first => min first readCompleteMs).getD readCompleteMs)
  match stream with
  | .stdout => { output with stdout := output.stdout ++ bytes, firstPipeReadMs := first }
  | .stderr => { output with stderr := output.stderr ++ bytes, firstPipeReadMs := first }

/-- What came from a stream. -/
def of (output : FrameworkOutput) : FrameworkStream → List UInt8
  | .stdout => output.stdout
  | .stderr => output.stderr

end FrameworkOutput

/-- The file of a `FrameworkChildLog`. -/
structure ChildLogFile where
  path : String
  contents : List UInt8
deriving DecidableEq

/-- `FrameworkChildLog`: the file, while it can be written. -/
abbrev FrameworkChildLog := Option ChildLogFile

namespace FrameworkChildLog

def writeAll (log : FrameworkChildLog) (bytes : List UInt8) : FrameworkChildLog :=
  log.map fun file => { file with contents := file.contents ++ bytes }

def writeLine (log : FrameworkChildLog) (line : String) : FrameworkChildLog :=
  writeAll (writeAll log (Utf8.encode line.toList)) [10]

/-- What `write_chunk` writes. -/
def chunkText (stream : FrameworkStream) (bytes : List UInt8) : List UInt8 :=
  Utf8.encode (match stream with
    | .stdout => "STDOUT\n".toList
    | .stderr => "STDERR\n".toList) ++
  bytes ++ if bytes.getLast? = some 10 then [] else [10]

def writeChunk (log : FrameworkChildLog) (stream : FrameworkStream) (bytes : List UInt8) :
    FrameworkChildLog :=
  writeAll log (chunkText stream bytes)

end FrameworkChildLog

structure SpawnResult where
  pid : ℕ
  exitCode : Int
  stdout : List Char
  stderr : List Char
  spawnReturnMs : ℕ
  firstPipeReadMs : Option ℕ
  waitCompleteMs : ℕ
  captureCompleteMs : ℕ
  elapsedMs : ℕ
  logPath : Option String
deriving DecidableEq

/-! ## The lines of the standard output -/

variable {σ : Type}

/-- An observer: what it makes of a line, or its error. -/
abbrev StdoutLineObserver (σ : Type) := σ → List Char → Except String σ

structure StdoutLineBuffer (σ : Type) where
  pending : List UInt8
  /-- The state of the observer. -/
  seen : σ

section Receive

variable (observer : Option (StdoutLineObserver σ))

/-- What is done with a line, which still has its carriage return. -/
def observeLine (seen : σ) (line : List UInt8) : Except String σ :=
  match observer with
  | none => .ok seen
  | some observer => observer seen (Utf8.lossy (stripLast 13 line))

def StdoutLineBuffer.push (buffer : StdoutLineBuffer σ) (bytes : List UInt8) :
    Except String (StdoutLineBuffer σ) :=
  match Lines.cut 10 (buffer.pending ++ bytes) with
  | (lines, pending) => (lines.foldlM (observeLine observer) buffer.seen).map fun seen => ⟨pending, seen⟩

/-- What the caller has so far. -/
structure Receiver (σ : Type) where
  output : FrameworkOutput
  log : FrameworkChildLog
  lineBuffer : StdoutLineBuffer σ

/-- A piece of output is taken. -/
def Receiver.take (r : Receiver σ) (stream : FrameworkStream) (bytes : List UInt8) (readCompleteMs : ℕ) :
    Except String (Receiver σ) :=
  match (if stream = .stdout then r.lineBuffer.push observer bytes else .ok r.lineBuffer) with
  | .error e => .error e
  | .ok lineBuffer =>
    .ok ⟨r.output.push stream bytes readCompleteMs, FrameworkChildLog.writeChunk r.log stream bytes, lineBuffer⟩

def drainFrameworkEvents : List FrameworkEvent → Receiver σ → Except String (Receiver σ)
  | [], r => .ok r
  | .piece stream bytes readCompleteMs :: events, r =>
    match r.take observer stream bytes readCompleteMs with
    | .error e => .error e
    | .ok r => drainFrameworkEvents events r
  | .ended _ _ :: events, r => drainFrameworkEvents events r

end Receive

/-- What a caller gets: the result, the log and the state of the observer. -/
structure Captured (σ : Type) where
  result : SpawnResult
  log : FrameworkChildLog
  seen : σ

def spawnResultFromStatus (pid : ℕ) (status : Except String ExitStatus) (r : Receiver σ)
    (spawnReturnMs : ℕ) (waitCompleteMs : Option ℕ) (captureCompleteMs : ℕ) : Except String (Captured σ) :=
  match status with
  | .error e => .error e
  | .ok code =>
    match waitCompleteMs with
    | none => .error "framework wait channel closed before process exit"
    | some waitCompleteMs =>
      let exitCode := code.getD (-1)
      let log := FrameworkChildLog.writeLine (FrameworkChildLog.writeLine r.log ("EXIT=" ++ toString exitCode))
        ("ELAPSED_MS=" ++ toString captureCompleteMs)
      .ok
        { result :=
            { pid := pid
              exitCode := exitCode
              stdout := Utf8.lossy r.output.stdout
              stderr := Utf8.lossy r.output.stderr
              spawnReturnMs := spawnReturnMs
              firstPipeReadMs := r.output.firstPipeReadMs
              waitCompleteMs := waitCompleteMs
              captureCompleteMs := captureCompleteMs
              elapsedMs := captureCompleteMs
              logPath := log.map (·.path) }
          log := log
          seen := r.lineBuffer.seen }

/-! ## The parties -/

/-- The task that writes the catalog snapshot to the child. -/
inductive SnapshotWriter where
  | none
  | writing
  | done (result : Except String Unit)

/-- The task does not write any more. -/
def SnapshotWriter.ended : SnapshotWriter → Bool
  | .writing => false
  | _ => true

/-- Where the caller is in `wait_for_framework_child`. -/
inductive Caller (σ : Type) where
  /-- In the loop. -/
  | receiving (r : Receiver σ)
  /-- Behind the loop, waiting for the tasks. -/
  | joining (r : Receiver σ) (status : Except String ExitStatus) (waitCompleteMs : Option ℕ)
  | returned (result : Except String (Captured σ))

/-- What the caller has, until it returns. -/
def Caller.receiver : Caller σ → Option (Receiver σ)
  | .receiving r => some r
  | .joining r _ _ => some r
  | .returned _ => none

structure Capture (σ : Type) where
  /-- Its clock is `start.elapsed()` in milliseconds. -/
  gather : Pipes
  snapshotWriter : SnapshotWriter
  caller : Caller σ

inductive Act where
  /-- The child, or a process that it has left behind, or one of the tasks. -/
  | others (move : Gather.Move FrameworkStream UInt8 (Except String ExitStatus))
  | writeSnapshot (result : Except String Unit)
  /-- The log cannot be written any more. -/
  | breakLog
  | recv
  | join

/-- A move of the tasks or of the caller. -/
def Act.Own : Act → Prop
  | .others move => move.OfTask
  | .recv => True
  | .join => True
  | _ => False

namespace Capture

/-- `rx.recv()` and what the loop does with it. -/
def recv (observer : Option (StdoutLineObserver σ)) (c : Capture σ) : Capture σ :=
  match c.caller with
  | .receiving r =>
    match c.gather.channel with
    | [] =>
      if c.gather.reading .stdout = false ∧ c.gather.reading .stderr = false ∧ c.gather.waiting = false then
        { c with caller := .joining r (.error "framework wait channel closed before process exit") none }
      else c
    | .ended result waitCompleteMs :: _ =>
      { c with gather := c.gather.take, caller := .joining r result (some waitCompleteMs) }
    | .piece stream bytes readCompleteMs :: _ =>
      if bytes = [] then { c with gather := c.gather.take }
      else match r.take observer stream bytes readCompleteMs with
        | .ok r => { c with gather := c.gather.take, caller := .receiving r }
        | .error e => { c with gather := c.gather.take.hangUp, caller := .returned (.error e) }
  | _ => c

/-- The tasks have ended. -/
def Joined (c : Capture σ) : Prop :=
  c.gather.reading .stdout = false ∧ c.gather.reading .stderr = false ∧ c.gather.waiting = false ∧
    c.snapshotWriter.ended = true

instance (c : Capture σ) : Decidable c.Joined := inferInstanceAs (Decidable (_ ∧ _))

/-- The log after the snapshot writer is joined. -/
def logSnapshot (writer : SnapshotWriter) (log : FrameworkChildLog) : FrameworkChildLog :=
  match writer with
  | .done (.error e) => FrameworkChildLog.writeLine log ("CATALOG_SNAPSHOT_WRITE_ERROR=" ++ e)
  | _ => log

/-- The channel is drained, and the result made. -/
def conclude (observer : Option (StdoutLineObserver σ)) (pid spawnReturnMs : ℕ) (events : List FrameworkEvent)
    (r : Receiver σ) (status : Except String ExitStatus) (waitCompleteMs : Option ℕ) (captureCompleteMs : ℕ) :
    Except String (Captured σ) :=
  match drainFrameworkEvents observer events r with
  | .error e => .error e
  | .ok r => spawnResultFromStatus pid status r spawnReturnMs waitCompleteMs captureCompleteMs

/-- What `wait_for_framework_child` does behind its loop. -/
def join (observer : Option (StdoutLineObserver σ)) (pid spawnReturnMs : ℕ) (c : Capture σ) : Capture σ :=
  match c.caller with
  | .joining r status waitCompleteMs =>
    if c.Joined then
      { c with
        gather := (c.gather.takeN c.gather.channel.length).hangUp
        caller := .returned (conclude observer pid spawnReturnMs c.gather.channel
          { r with log := logSnapshot c.snapshotWriter r.log } status waitCompleteMs c.gather.now) }
    else c
  | _ => c

/-- The log is given up. -/
def breakLog (c : Capture σ) : Capture σ :=
  match c.caller with
  | .receiving r => { c with caller := .receiving { r with log := none } }
  | .joining r status waitCompleteMs => { c with caller := .joining { r with log := none } status waitCompleteMs }
  | .returned _ => c

variable (observer : Option (StdoutLineObserver σ)) (pid spawnReturnMs : ℕ)

def step (c : Capture σ) : Act → Capture σ
  | .others move => { c with gather := c.gather.step move }
  | .writeSnapshot result =>
    match c.snapshotWriter with
    | .writing => { c with snapshotWriter := .done result }
    | _ => c
  | .breakLog => c.breakLog
  | .recv => c.recv observer
  | .join => c.join observer pid spawnReturnMs

def run (c : Capture σ) (acts : List Act) : Capture σ := acts.foldl (step observer pid spawnReturnMs) c

/-- A child was spawned. -/
def start (spawnReturnMs : ℕ) (log : FrameworkChildLog) (seen : σ) (writer : SnapshotWriter) : Capture σ where
  gather := .start spawnReturnMs
  snapshotWriter := writer
  caller := .receiving ⟨⟨[], [], none⟩, log, ⟨[], seen⟩⟩

end Capture

/-! ## What a receiver has -/

@[simp] theorem FrameworkOutput.of_push (output : FrameworkOutput) (stream other : FrameworkStream)
    (bytes : List UInt8) (ms : ℕ) :
    (output.push stream bytes ms).of other = output.of other ++ if stream = other then bytes else [] := by
  cases stream <;> cases other <;> simp [push, of]

theorem FrameworkOutput.first_push (output : FrameworkOutput) (stream : FrameworkStream)
    (bytes : List UInt8) (ms : ℕ) :
    (output.push stream bytes ms).firstPipeReadMs =
      some ((output.firstPipeReadMs.map fun first => min first ms).getD ms) := by
  cases stream <;> rfl

/-- The first read stays between two times. -/
theorem first_push_between {since now ms : ℕ} {output : FrameworkOutput} {stream : FrameworkStream}
    {bytes : List UInt8} (hfirst : ∀ t, output.firstPipeReadMs = some t → since ≤ t ∧ t ≤ now)
    (hms : since ≤ ms ∧ ms ≤ now) :
    ∀ t, (output.push stream bytes ms).firstPipeReadMs = some t → since ≤ t ∧ t ≤ now := by
  intro t ht
  rw [FrameworkOutput.first_push, Option.some.injEq] at ht
  subst ht
  cases hold : output.firstPipeReadMs with
  | none => exact hms
  | some first =>
    have hbetween := hfirst first hold
    simp only [Option.map_some, Option.getD_some]
    omega

/-- An entry of the log of a child. -/
inductive LogEntry where
  | chunk (stream : FrameworkStream) (bytes : List UInt8)
  | line (text : String)

namespace LogEntry

def text : LogEntry → List UInt8
  | .chunk stream bytes => FrameworkChildLog.chunkText stream bytes
  | .line text => Utf8.encode text.toList ++ [10]

/-- The piece of a stream that an entry holds. -/
def bytes (stream : FrameworkStream) : LogEntry → List UInt8
  | .chunk other bytes => if other = stream then bytes else []
  | .line _ => []

end LogEntry

/-- A log that can still be written holds, behind what it had at first, all the pieces of both streams. -/
def Records (log₀ log : FrameworkChildLog) (of : FrameworkStream → List UInt8) : Prop :=
  ∀ file, log = some file → ∃ file₀, ∃ entries : List LogEntry, log₀ = some file₀ ∧ file.path = file₀.path ∧
    file.contents = file₀.contents ++ entries.flatMap LogEntry.text ∧
    ∀ stream, entries.flatMap (LogEntry.bytes stream) = of stream

section Records

variable {log₀ log : FrameworkChildLog} {of : FrameworkStream → List UInt8}

theorem Records.start (log : FrameworkChildLog) : Records log log fun _ => [] := fun file hfile =>
  ⟨file, [], hfile, rfl, by simp, fun _ => rfl⟩

/-- An entry is written. -/
theorem Records.write (h : Records log₀ log of) (entry : LogEntry) :
    Records log₀ (FrameworkChildLog.writeAll log entry.text) fun stream => of stream ++ entry.bytes stream := by
  intro file hfile
  rw [FrameworkChildLog.writeAll, Option.map_eq_some_iff] at hfile
  obtain ⟨old, hold, rfl⟩ := hfile
  obtain ⟨file₀, entries, h₀, hpath, hcontents, hbytes⟩ := h old hold
  refine ⟨file₀, entries ++ [entry], h₀, hpath, ?_, fun stream => ?_⟩
  · simp [hcontents]
  · simp [hbytes]

theorem Records.writeLine (h : Records log₀ log of) (line : String) :
    Records log₀ (FrameworkChildLog.writeLine log line) of := by
  have hwrite := h.write (.line line)
  have htext : FrameworkChildLog.writeAll log (LogEntry.text (.line line)) =
      FrameworkChildLog.writeLine log line := by
    rw [FrameworkChildLog.writeLine, FrameworkChildLog.writeAll, FrameworkChildLog.writeAll,
      FrameworkChildLog.writeAll, Option.map_map]
    congr 1
    funext file
    simp [LogEntry.text]
  rw [htext] at hwrite
  simpa [LogEntry.bytes] using hwrite

theorem Records.logSnapshot (h : Records log₀ log of) (writer : SnapshotWriter) :
    Records log₀ (Capture.logSnapshot writer log) of := by
  unfold Capture.logSnapshot
  split
  · exact h.writeLine _
  · exact h

end Records

section Sound

variable (observer : Option (StdoutLineObserver σ)) (seen₀ : σ) (log₀ : FrameworkChildLog)

/-- What an observer makes of the complete lines of a text. -/
def observed (text : List UInt8) : Except String σ := (Lines.cut 10 text).1.foldlM (observeLine observer) seen₀

variable {observer seen₀}

theorem observed_append {text : List UInt8} {seen : σ} (h : observed observer seen₀ text = .ok seen)
    (bytes : List UInt8) :
    observed observer seen₀ (text ++ bytes) =
      (Lines.cut 10 ((Lines.cut 10 text).2 ++ bytes)).1.foldlM (observeLine observer) seen := by
  rw [observed] at h
  rw [observed, Lines.cut_append, List.foldlM_append, h]
  rfl

/-- An observer that has failed has failed. -/
theorem observed_error {text : List UInt8} {e : String} (h : observed observer seen₀ text = .error e)
    (bytes : List UInt8) : observed observer seen₀ (text ++ bytes) = .error e := by
  rw [observed] at h
  rw [observed, Lines.cut_append, List.foldlM_append, h]
  rfl

variable (observer seen₀)

/-- What the caller has is what it would have made of the same bytes in one piece. -/
structure Receiver.Sound (r : Receiver σ) : Prop where
  seen : observed observer seen₀ r.output.stdout = .ok r.lineBuffer.seen
  pending : r.lineBuffer.pending = (Lines.cut 10 r.output.stdout).2
  log : Records log₀ r.log r.output.of
  first : r.output.firstPipeReadMs = none ↔ ∀ stream, r.output.of stream = []

variable {observer seen₀ log₀} {r : Receiver σ}

theorem push_cases {buffer : StdoutLineBuffer σ} {text : List UInt8}
    (hseen : observed observer seen₀ text = .ok buffer.seen) (hpending : buffer.pending = (Lines.cut 10 text).2)
    (bytes : List UInt8) :
    (∃ buffer', buffer.push observer bytes = .ok buffer' ∧
      observed observer seen₀ (text ++ bytes) = .ok buffer'.seen ∧
      buffer'.pending = (Lines.cut 10 (text ++ bytes)).2) ∨
    ∃ e, buffer.push observer bytes = .error e ∧ observed observer seen₀ (text ++ bytes) = .error e := by
  rw [observed_append hseen, Lines.cut_append text bytes, StdoutLineBuffer.push, hpending]
  simp only
  cases (Lines.cut 10 ((Lines.cut 10 text).2 ++ bytes)).1.foldlM (observeLine observer) buffer.seen with
  | error e => exact Or.inr ⟨e, rfl, rfl⟩
  | ok seen => exact Or.inl ⟨_, rfl, rfl, rfl⟩

/-- A piece is taken, or the observer fails. -/
theorem take_cases (h : r.Sound observer seen₀ log₀) (stream : FrameworkStream) {bytes : List UInt8}
    (hbytes : bytes ≠ []) (ms : ℕ) :
    (∃ r', r.take observer stream bytes ms = .ok r' ∧ r'.Sound observer seen₀ log₀ ∧
      r'.output = r.output.push stream bytes ms) ∨
    ∃ e, r.take observer stream bytes ms = .error e ∧
      observed observer seen₀ (r.output.stdout ++ if stream = .stdout then bytes else []) = .error e := by
  have hlog : Records log₀ (FrameworkChildLog.writeChunk r.log stream bytes) (r.output.push stream bytes ms).of := by
    have hwrite := h.log.write (.chunk stream bytes)
    intro file hfile
    simpa [LogEntry.bytes] using hwrite file hfile
  have hfirst : (r.output.push stream bytes ms).firstPipeReadMs = none ↔
      ∀ other, (r.output.push stream bytes ms).of other = [] := by
    refine ⟨fun h => by simp [FrameworkOutput.first_push] at h, fun h => ?_⟩
    have hnil := h stream
    rw [FrameworkOutput.of_push, if_pos rfl, List.append_eq_nil_iff] at hnil
    exact absurd hnil.2 hbytes
  cases stream with
  | stderr =>
    refine Or.inl ⟨_, rfl, ⟨?_, ?_, hlog, hfirst⟩, rfl⟩
    · exact h.seen
    · exact h.pending
  | stdout =>
    rw [Receiver.take, if_pos rfl, if_pos rfl]
    rcases push_cases h.seen h.pending bytes with ⟨buffer, hpush, hseen, hpending⟩ | ⟨e, hpush, herror⟩
    · rw [hpush]
      exact Or.inl ⟨_, rfl, ⟨hseen, hpending, hlog, hfirst⟩, rfl⟩
    · rw [hpush]
      exact Or.inr ⟨e, rfl, herror⟩

/-- The channel is drained, or the observer fails. -/
theorem drain_cases {since now : ℕ} : ∀ {events : List FrameworkEvent} {r : Receiver σ},
    r.Sound observer seen₀ log₀ → (∀ t, r.output.firstPipeReadMs = some t → since ≤ t ∧ t ≤ now) →
    (∀ event ∈ events, event.Sent since now) →
    (∃ r', drainFrameworkEvents observer events r = .ok r' ∧ r'.Sound observer seen₀ log₀ ∧
      (∀ stream, r'.output.of stream = r.output.of stream ++ Gather.piecesOf stream events) ∧
      ∀ t, r'.output.firstPipeReadMs = some t → since ≤ t ∧ t ≤ now) ∨
    ∃ e, drainFrameworkEvents observer events r = .error e ∧
      observed observer seen₀ (r.output.stdout ++ Gather.piecesOf .stdout events) = .error e
  | [], r, h, hfirst, _ => Or.inl ⟨r, rfl, h, by simp, hfirst⟩
  | .ended result ms :: events, r, h, hfirst, hevents => by
    simpa [drainFrameworkEvents] using
      drain_cases h hfirst fun event hevent => hevents event (List.mem_cons_of_mem _ hevent)
  | .piece stream bytes ms :: events, r, h, hfirst, hevents => by
    obtain ⟨hsent, hms⟩ := hevents _ List.mem_cons_self
    rw [drainFrameworkEvents, Gather.piecesOf_piece, ← List.append_assoc]
    rcases take_cases h stream hsent ms with ⟨r', htake, hr', houtput⟩ | ⟨e, htake, herror⟩
    · rw [htake]
      have hof : ∀ other, r'.output.of other = r.output.of other ++ if stream = other then bytes else [] :=
        fun other => by rw [houtput, FrameworkOutput.of_push]
      have hstdout : r'.output.stdout = r.output.stdout ++ if stream = .stdout then bytes else [] := hof .stdout
      rcases drain_cases hr' (houtput ▸ first_push_between hfirst hms)
          (fun event hevent => hevents event (List.mem_cons_of_mem _ hevent)) with
        ⟨r'', hdrain, hr'', hof', hfirst''⟩ | ⟨e, hdrain, herror⟩
      · refine Or.inl ⟨r'', hdrain, hr'', fun other => ?_, hfirst''⟩
        rw [hof', hof, Gather.piecesOf_piece, List.append_assoc]
      · exact Or.inr ⟨e, hdrain, by rw [← hstdout, herror]⟩
    · rw [htake]
      exact Or.inr ⟨e, rfl, observed_error herror _⟩

end Sound

/-! ## The invariant -/

namespace Capture

section Inv

variable (observer : Option (StdoutLineObserver σ)) (seen₀ : σ) (log₀ : FrameworkChildLog) (spawnReturnMs : ℕ)

/-- A result is about what was received: the texts, the end of the child, the lines that the observer saw, the
log and the times. -/
structure Exact (g : Pipes) (captured : Captured σ) : Prop where
  stdout : captured.result.stdout = Utf8.lossy (g.got .stdout)
  stderr : captured.result.stderr = Utf8.lossy (g.got .stderr)
  seen : observed observer seen₀ (g.got .stdout) = .ok captured.seen
  log : Records log₀ captured.log g.got
  logPath : captured.result.logPath = captured.log.map (·.path)
  exitCode : ∃ code, g.told = some (.ok code, captured.result.waitCompleteMs) ∧
    captured.result.exitCode = code.getD (-1)
  spawned : captured.result.spawnReturnMs = spawnReturnMs
  first : captured.result.firstPipeReadMs = none ↔ ∀ stream, g.got stream = []
  firstMs : ∀ t, captured.result.firstPipeReadMs = some t →
    spawnReturnMs ≤ t ∧ t ≤ captured.result.captureCompleteMs
  waitMs : captured.result.waitCompleteMs ≤ captured.result.captureCompleteMs
  /-- Nothing comes any more. -/
  reading : ∀ stream, g.reading stream = false
  waiting : g.waiting = false
  channel : g.channel = []

/-- What is true of a caller that has returned. -/
def Returned (g : Pipes) : Except String (Captured σ) → Prop
  | .ok captured => Exact observer seen₀ log₀ spawnReturnMs g captured
  | .error e => (∃ ms, g.told = some (.error e, ms)) ∨
      observed observer seen₀ (g.got .stdout) = .error e

/-- What the caller was told of the end of the child. -/
def Told (c : Capture σ) : Prop :=
  match c.caller with
  | .receiving _ => c.gather.told = none
  | .joining _ status waitCompleteMs => ∃ ms, waitCompleteMs = some ms ∧ c.gather.told = some (status, ms)
  | .returned result => Returned observer seen₀ log₀ spawnReturnMs c.gather result

structure Inv (c : Capture σ) : Prop where
  gather : c.gather.Inv spawnReturnMs
  /-- The output is what was taken from the channel. -/
  receiver : ∀ r, c.caller.receiver = some r → r.Sound observer seen₀ log₀ ∧
    (∀ stream, r.output.of stream = c.gather.got stream) ∧
    ∀ t, r.output.firstPipeReadMs = some t → spawnReturnMs ≤ t ∧ t ≤ c.gather.now
  told : c.Told observer seen₀ log₀ spawnReturnMs

variable {observer seen₀ log₀ spawnReturnMs} {pid : ℕ} {c : Capture σ}

theorem start_inv (seen₀ : σ) (log₀ : FrameworkChildLog) (writer : SnapshotWriter) :
    (start spawnReturnMs log₀ seen₀ writer).Inv observer seen₀ log₀ spawnReturnMs where
  gather := Gather.start_inv spawnReturnMs
  receiver := fun r hr => by
    cases hr
    refine ⟨⟨rfl, rfl, ?_, ?_⟩, fun stream => ?_, fun t ht => by cases ht⟩
    · intro file hfile
      obtain ⟨file₀, entries, h₀, hpath, hcontents, hbytes⟩ := Records.start log₀ file hfile
      exact ⟨file₀, entries, h₀, hpath, hcontents, fun stream => by rw [hbytes]; cases stream <;> rfl⟩
    · exact ⟨fun _ stream => by cases stream <;> rfl, fun _ => rfl⟩
    · cases stream <;> rfl
  told := rfl

/-- A move of the others leaves a result alone. -/
theorem Returned.others {g g' : Pipes} (hapart : g.Apart g') : ∀ {result : Except String (Captured σ)},
    Returned observer seen₀ log₀ spawnReturnMs g result → Returned observer seen₀ log₀ spawnReturnMs g' result
  | .ok captured, h =>
    { stdout := by rw [h.stdout, ← hapart.got]
      stderr := by rw [h.stderr, ← hapart.got]
      seen := by rw [← h.seen, ← hapart.got]
      log := by rw [hapart.got]; exact h.log
      logPath := h.logPath
      exitCode := by rw [hapart.told]; exact h.exitCode
      spawned := h.spawned
      first := by rw [hapart.got]; exact h.first
      firstMs := h.firstMs
      waitMs := h.waitMs
      reading := fun stream => hapart.reading stream (h.reading stream)
      waiting := hapart.waiting h.waiting
      channel := (hapart.channel h.reading h.waiting).trans h.channel }
  | .error e, h => by
    rw [Returned, hapart.told, hapart.got]
    exact h

theorem others_inv (h : c.Inv observer seen₀ log₀ spawnReturnMs)
    (move : Gather.Move FrameworkStream UInt8 (Except String ExitStatus)) :
    ({ c with gather := c.gather.step move } : Capture σ).Inv observer seen₀ log₀ spawnReturnMs := by
  have hapart := Gather.step_apart c.gather move
  refine ⟨Gather.step_inv h.gather move, fun r hr => ?_, ?_⟩
  · obtain ⟨hsound, hof, hfirst⟩ := h.receiver r hr
    exact ⟨hsound, fun stream => (hof stream).trans (congrFun hapart.got stream).symm,
      fun t ht => (hfirst t ht).imp_right fun hle => hle.trans hapart.now⟩
  · have htold := h.told
    rw [Told] at htold ⊢
    cases hc : c.caller with
    | receiving r =>
      rw [hc] at htold
      exact hapart.told.trans htold
    | joining r status waitCompleteMs =>
      rw [hc] at htold
      obtain ⟨ms, hms, htold⟩ := htold
      exact ⟨ms, hms, hapart.told.trans htold⟩
    | returned result =>
      rw [hc] at htold
      exact htold.others hapart

theorem writeSnapshot_inv (h : c.Inv observer seen₀ log₀ spawnReturnMs) (writer : SnapshotWriter) :
    ({ c with snapshotWriter := writer } : Capture σ).Inv observer seen₀ log₀ spawnReturnMs := by
  refine ⟨h.gather, h.receiver, ?_⟩
  have htold := h.told
  rw [Told] at htold ⊢
  cases hc : c.caller with
  | receiving r => rwa [hc] at htold
  | joining r status waitCompleteMs => rwa [hc] at htold
  | returned result =>
    rw [hc] at htold
    cases result with
    | ok captured => exact { htold with }
    | error e => exact htold

theorem breakLog_inv (h : c.Inv observer seen₀ log₀ spawnReturnMs) :
    c.breakLog.Inv observer seen₀ log₀ spawnReturnMs := by
  have hbroken : ∀ {r : Receiver σ}, r.Sound observer seen₀ log₀ →
      ({ r with log := none } : Receiver σ).Sound observer seen₀ log₀ := fun hr =>
    { hr with log := fun _ hfile => by cases hfile }
  have htold := h.told
  rw [Told] at htold
  rw [breakLog]
  cases hc : c.caller with
  | receiving r =>
    rw [hc] at htold
    exact ⟨h.gather, fun r' hr' => by
      obtain rfl := Option.some.inj hr'
      exact (h.receiver r (by rw [hc]; rfl)).imp_left hbroken, htold⟩
  | joining r status waitCompleteMs =>
    rw [hc] at htold
    exact ⟨h.gather, fun r' hr' => by
      obtain rfl := Option.some.inj hr'
      exact (h.receiver r (by rw [hc]; rfl)).imp_left hbroken, htold⟩
  | returned result => exact h

/-- The caller takes a message in its loop. -/
theorem recv_inv (h : c.Inv observer seen₀ log₀ spawnReturnMs) :
    (c.recv observer).Inv observer seen₀ log₀ spawnReturnMs := by
  have htold := h.told
  rw [Told] at htold
  rw [recv]
  cases hc : c.caller with
  | joining r status waitCompleteMs => exact h
  | returned result => exact h
  | receiving r =>
    rw [hc] at htold
    obtain ⟨hsound, hof, hfirst⟩ := h.receiver r (by rw [hc]; rfl)
    have htake := Gather.take_inv h.gather
    cases hchannel : c.gather.channel with
    | nil =>
      simp only
      split
      · -- the channel is closed only after the end was announced
        rename_i hdone
        exact absurd hchannel (h.gather.channel_ne_nil hdone.2.2 htold)
      · exact h
    | cons event channel =>
      have hsent := h.gather.sent event (hchannel ▸ List.mem_cons_self)
      cases event with
      | ended result waitCompleteMs =>
        refine ⟨htake, fun r' hr' => ?_, waitCompleteMs, rfl, ?_⟩
        · obtain rfl := Option.some.inj hr'
          refine ⟨hsound, fun stream => ?_, ?_⟩
          · rw [hof]
            simp only [Gather.take, hchannel]
          · simpa only [Gather.take, hchannel] using hfirst
        · simp only [Gather.take, hchannel]
      | piece stream bytes readCompleteMs =>
        have hgot : ∀ other, c.gather.take.got other =
            c.gather.got other ++ if stream = other then bytes else [] := by
          intro other
          simp only [Gather.take, hchannel]
          by_cases hother : stream = other
          · subst hother
            rw [Function.update_self, if_pos rfl]
          · rw [Function.update_of_ne (Ne.symm hother), if_neg hother, List.append_nil]
        simp only
        rw [if_neg hsent.1]
        rcases take_cases hsound stream hsent.1 readCompleteMs with ⟨r', hr, hr', houtput⟩ | ⟨e, hr, herror⟩
        · rw [hr]
          refine ⟨htake, fun r'' hr'' => ?_, ?_⟩
          · obtain rfl := Option.some.inj hr''
            refine ⟨hr', fun other => ?_, ?_⟩
            · rw [houtput, FrameworkOutput.of_push, hof, hgot]
            · simp only [Gather.take, hchannel]
              exact houtput ▸ first_push_between hfirst hsent.2
          · simp only [Told, Gather.take, hchannel]
            exact htold
        · rw [hr]
          refine ⟨Gather.hangUp_inv htake, fun r'' hr'' => (Option.some_ne_none r'' hr''.symm).elim, Or.inr ?_⟩
          change observed observer seen₀ (c.gather.take.got .stdout) = .error e
          rw [hgot, ← hof]
          exact herror

/-- What the caller returns when it has taken what was left. -/
theorem drained_returned {r : Receiver σ} {status : Except String ExitStatus} {ms : ℕ}
    {got : FrameworkStream → List UInt8} {channel : List FrameworkEvent}
    (h : c.Inv observer seen₀ log₀ spawnReturnMs) (hsound : r.Sound observer seen₀ log₀)
    (hof : ∀ stream, r.output.of stream = c.gather.got stream)
    (hfirst : ∀ t, r.output.firstPipeReadMs = some t → spawnReturnMs ≤ t ∧ t ≤ c.gather.now)
    (htold : c.gather.told = some (status, ms)) (hjoined : c.Joined)
    (hgot : ∀ stream, got stream = c.gather.got stream ++ Gather.piecesOf stream c.gather.channel)
    (hnil : channel = []) :
    Returned observer seen₀ log₀ spawnReturnMs (Gather.hangUp { c.gather with channel := channel, got := got })
      (conclude observer pid spawnReturnMs c.gather.channel
        { r with log := logSnapshot c.snapshotWriter r.log } status (some ms) c.gather.now) := by
  have hlogged : ({ r with log := logSnapshot c.snapshotWriter r.log } : Receiver σ).Sound observer seen₀ log₀ :=
    { hsound with log := hsound.log.logSnapshot c.snapshotWriter }
  rw [conclude]
  rcases drain_cases hlogged hfirst h.gather.sent with ⟨r', hdrain, hr', hof', hfirst'⟩ | ⟨e, hdrain, herror⟩
  · rw [hdrain]
    have hall : r'.output.of = got := funext fun stream => by rw [hof', hgot, ← hof]
    cases status with
    | error e => exact Or.inl ⟨ms, htold⟩
    | ok code =>
      have hlog := (hr'.log.writeLine ("EXIT=" ++ toString (code.getD (-1)))).writeLine
        ("ELAPSED_MS=" ++ toString c.gather.now)
      rw [hall] at hlog
      exact
        { stdout := congrArg Utf8.lossy (congrFun hall .stdout)
          stderr := congrArg Utf8.lossy (congrFun hall .stderr)
          seen := (congrArg (observed observer seen₀) (congrFun hall .stdout).symm).trans hr'.seen
          log := hlog
          logPath := rfl
          exitCode := ⟨code, htold, rfl⟩
          spawned := rfl
          first := by
            rw [hr'.first, hall]
            rfl
          firstMs := hfirst'
          waitMs := (h.gather.result_of_told htold).2.2.2
          reading := fun stream => by
            cases stream with
            | stdout => exact hjoined.1
            | stderr => exact hjoined.2.1
          waiting := hjoined.2.2.1
          channel := hnil }
  · rw [hdrain]
    refine Or.inr ?_
    change observed observer seen₀ (got .stdout) = .error e
    rw [hgot, ← hof]
    exact herror

/-- The caller takes what is left, and returns. -/
theorem join_inv (h : c.Inv observer seen₀ log₀ spawnReturnMs) :
    (c.join observer pid spawnReturnMs).Inv observer seen₀ log₀ spawnReturnMs := by
  have htold := h.told
  rw [Told] at htold
  rw [join]
  cases hc : c.caller with
  | receiving r => exact h
  | returned result => exact h
  | joining r status waitCompleteMs =>
    rw [hc] at htold
    obtain ⟨hsound, hof, hfirst⟩ := h.receiver r (by rw [hc]; rfl)
    obtain ⟨ms, rfl, htold⟩ := htold
    simp only
    split
    · rename_i hjoined
      obtain ⟨hnil, hgot⟩ := Gather.takeN_all c.gather.channel.length c.gather (Nat.le_refl _)
      have hkept := h.gather.takeN_eq c.gather.channel.length (by rw [htold]; exact Option.some_ne_none _)
      refine ⟨Gather.hangUp_inv (Gather.takeN_inv _ h.gather),
        fun r'' hr'' => (Option.some_ne_none r'' hr''.symm).elim, ?_⟩
      rw [hkept]
      exact drained_returned h hsound hof hfirst htold hjoined hgot hnil
    · exact h

/-- **Every move keeps the invariant.** -/
theorem step_inv (h : c.Inv observer seen₀ log₀ spawnReturnMs) (act : Act) :
    (c.step observer pid spawnReturnMs act).Inv observer seen₀ log₀ spawnReturnMs := by
  cases act with
  | others move => exact others_inv h move
  | writeSnapshot result =>
    rw [step]
    split
    · exact writeSnapshot_inv h _
    · exact h
  | breakLog => exact breakLog_inv h
  | recv => exact recv_inv h
  | join => exact join_inv h

theorem run_inv (h : c.Inv observer seen₀ log₀ spawnReturnMs) (acts : List Act) :
    (c.run observer pid spawnReturnMs acts).Inv observer seen₀ log₀ spawnReturnMs := by
  induction acts generalizing c with
  | nil => exact h
  | cons act acts ih => exact ih (step_inv h act)

end Inv

/-! ## Captured -/

section Captured

variable (observer : Option (StdoutLineObserver σ)) (seen₀ : σ) (log₀ : FrameworkChildLog)
  (pid spawnReturnMs : ℕ) (writer : SnapshotWriter)

/-- What a run from the start leaves. -/
def after (acts : List Act) : Capture σ := (start spawnReturnMs log₀ seen₀ writer).run observer pid spawnReturnMs acts

theorem after_inv (acts : List Act) :
    (after observer seen₀ log₀ pid spawnReturnMs writer acts).Inv observer seen₀ log₀ spawnReturnMs :=
  run_inv (start_inv seen₀ log₀ writer) acts

variable {observer seen₀ log₀ pid spawnReturnMs writer}

theorem Inv.exact {c : Capture σ} (h : c.Inv observer seen₀ log₀ spawnReturnMs) {captured : Captured σ}
    (hcaller : c.caller = .returned (.ok captured)) :
    Exact observer seen₀ log₀ spawnReturnMs c.gather captured := by
  have htold := h.told
  rw [Told, hcaller] at htold
  exact htold

/-- What an unbroken task has read is all that was written. -/
theorem Inv.whole {c : Capture σ} (h : c.Inv observer seen₀ log₀ spawnReturnMs) {captured : Captured σ}
    (hcaller : c.caller = .returned (.ok captured)) {stream : FrameworkStream}
    (hbroken : c.gather.broken stream = false) :
    c.gather.closed stream = true ∧ c.gather.got stream = c.gather.written stream :=
  h.gather.got_eq (h.exact hcaller).channel ((h.exact hcaller).reading stream) hbroken

variable (observer seen₀ log₀ pid spawnReturnMs writer)

/-- **A child is captured whole.**  Whatever the order of the moves was, a result has the exit code of the
child and all that its tasks read, in order, and the observer saw the lines of the standard output as in one
piece; a task that did not give up has read its pipe to the end, and nobody can write there any more.  An error
is the error of waiting for the child, or the observer's. -/
theorem captured (acts : List Act) :
    (∀ captured, (after observer seen₀ log₀ pid spawnReturnMs writer acts).caller = .returned (.ok captured) →
      Exact observer seen₀ log₀ spawnReturnMs (after observer seen₀ log₀ pid spawnReturnMs writer acts).gather
        captured ∧
      (∃ code, (after observer seen₀ log₀ pid spawnReturnMs writer acts).gather.result = some (.ok code) ∧
        captured.result.exitCode = code.getD (-1)) ∧
      ∀ stream, (after observer seen₀ log₀ pid spawnReturnMs writer acts).gather.broken stream = false →
        (after observer seen₀ log₀ pid spawnReturnMs writer acts).gather.closed stream = true ∧
        (after observer seen₀ log₀ pid spawnReturnMs writer acts).gather.got stream =
          (after observer seen₀ log₀ pid spawnReturnMs writer acts).gather.written stream) ∧
    ∀ e, (after observer seen₀ log₀ pid spawnReturnMs writer acts).caller = .returned (.error e) →
      (after observer seen₀ log₀ pid spawnReturnMs writer acts).gather.result = some (.error e) ∨
      observed observer seen₀ ((after observer seen₀ log₀ pid spawnReturnMs writer acts).gather.got .stdout) =
        .error e := by
  have hinv := after_inv observer seen₀ log₀ pid spawnReturnMs writer acts
  generalize after observer seen₀ log₀ pid spawnReturnMs writer acts = c at hinv
  refine ⟨fun captured hcaller => ?_, fun e hcaller => ?_⟩
  · have hexact := hinv.exact hcaller
    obtain ⟨code, htold, hcode⟩ := hexact.exitCode
    exact ⟨hexact, ⟨code, (hinv.gather.result_of_told htold).2.1, hcode⟩, fun stream => hinv.whole hcaller⟩
  · have htold := hinv.told
    rw [Told, hcaller] at htold
    exact htold.imp_left fun ⟨ms, hms⟩ => (hinv.gather.result_of_told hms).2.1

end Captured

/-! ## The caller returns -/

section Progress

variable (observer : Option (StdoutLineObserver σ)) (pid spawnReturnMs : ℕ) {c : Capture σ}

theorem run_others (moves : List (Gather.Move FrameworkStream UInt8 (Except String ExitStatus))) (c : Capture σ) :
    c.run observer pid spawnReturnMs (moves.map .others) = { c with gather := c.gather.run moves } := by
  induction moves generalizing c with
  | nil => rfl
  | cons move moves ih => exact ih _

theorem run_append (acts acts' : List Act) :
    c.run observer pid spawnReturnMs (acts ++ acts') =
      (c.run observer pid spawnReturnMs acts).run observer pid spawnReturnMs acts' :=
  List.foldl_append

theorem run_cons (act : Act) (acts : List Act) :
    c.run observer pid spawnReturnMs (act :: acts) =
      (c.step observer pid spawnReturnMs act).run observer pid spawnReturnMs acts := rfl

/-- Taking a message leaves the tasks alone. -/
theorem recv_joined (hjoined : c.Joined) : (c.recv observer).Joined := by
  have htake : c.gather.take.reading = c.gather.reading ∧ c.gather.take.waiting = c.gather.waiting := by
    rw [Gather.take]
    split <;> exact ⟨rfl, rfl⟩
  have htasks : (c.recv observer).gather.reading = c.gather.reading ∧
      (c.recv observer).gather.waiting = c.gather.waiting ∧
      (c.recv observer).snapshotWriter = c.snapshotWriter := by
    rw [recv]
    repeat' split
    all_goals first | exact ⟨rfl, rfl, rfl⟩ | exact ⟨htake.1, htake.2, rfl⟩
  rw [Joined, htasks.1, htasks.2.1, htasks.2.2]
  exact hjoined

/-- The caller leaves its loop, or there is less in the channel. -/
theorem recv_progress (hjoined : c.Joined) :
    (∀ r, (c.recv observer).caller ≠ .receiving r) ∨
      (c.recv observer).gather.channel.length < c.gather.channel.length := by
  rw [recv]
  cases hc : c.caller with
  | joining r status waitCompleteMs => exact Or.inl fun r' h => by cases hc.symm.trans h
  | returned result => exact Or.inl fun r' h => by cases hc.symm.trans h
  | receiving r =>
    cases hchannel : c.gather.channel with
    | nil =>
      simp only
      rw [if_pos ⟨hjoined.1, hjoined.2.1, hjoined.2.2.1⟩]
      exact Or.inl fun r' h => by cases h
    | cons event channel =>
      cases event with
      | ended result waitCompleteMs => exact Or.inl fun r' h => by cases h
      | piece stream bytes readCompleteMs =>
        have hshort : c.gather.take.channel.length < channel.length + 1 := by
          rw [Gather.channel_take, hchannel]
          exact Nat.lt_succ_self _
        simp only
        repeat' split
        · exact Or.inr hshort
        · exact Or.inr hshort
        · exact Or.inl fun r' h => by cases h

/-- The caller comes to the end of its loop. -/
theorem recv_ends (n : ℕ) (c : Capture σ) (hn : c.gather.channel.length < n) (hjoined : c.Joined) :
    ∃ acts : List Act, (∀ act ∈ acts, act.Own) ∧ (c.run observer pid spawnReturnMs acts).Joined ∧
      ∀ r, (c.run observer pid spawnReturnMs acts).caller ≠ .receiving r := by
  induction n generalizing c with
  | zero => exact absurd hn (Nat.not_lt_zero _)
  | succ n ih =>
    have hjoined' := recv_joined observer hjoined
    rcases recv_progress observer hjoined with hover | hless
    · exact ⟨[.recv], by simp [Act.Own], hjoined', hover⟩
    · obtain ⟨acts, hacts, hends⟩ := ih (c.recv observer)
        (Nat.lt_of_lt_of_le hless (Nat.le_of_lt_succ hn)) hjoined'
      refine ⟨.recv :: acts, List.forall_mem_cons.2 ⟨trivial, hacts⟩, ?_⟩
      rw [run_cons]
      exact hends

theorem join_ends (hjoined : c.Joined) (hcaller : ∀ r, c.caller ≠ .receiving r) :
    ∃ result, (c.step observer pid spawnReturnMs .join).caller = .returned result := by
  rw [step, join]
  cases hc : c.caller with
  | receiving r => exact absurd hc (hcaller r)
  | returned result => exact ⟨result, hc⟩
  | joining r status waitCompleteMs =>
    simp only
    rw [if_pos hjoined]
    exact ⟨_, rfl⟩

/-- **A caller whose child is gone returns.**  From every state in which the child has ended, its pipes are
closed and the snapshot is written, moves of the tasks and of the caller alone end in a return. -/
theorem returns (c : Capture σ) (hexit : c.gather.result.isSome = true)
    (hclosed : ∀ stream, c.gather.closed stream = true) (hwriter : c.snapshotWriter.ended = true) :
    ∃ acts : List Act, (∀ act ∈ acts, act.Own) ∧
      ∃ result, (c.run observer pid spawnReturnMs acts).caller = .returned result := by
  obtain ⟨moves, hmoves, hreading, hwaiting⟩ := Gather.tasks_end [.stdout, .stderr] c.gather hclosed hexit
  have hjoined : ({ c with gather := c.gather.run moves } : Capture σ).Joined :=
    ⟨hreading _ (by simp), hreading _ (by simp), hwaiting, hwriter⟩
  obtain ⟨acts, hacts, hjoined', hover⟩ := recv_ends observer pid spawnReturnMs _ _ (Nat.lt_succ_self _) hjoined
  obtain ⟨result, hresult⟩ := join_ends observer pid spawnReturnMs hjoined' hover
  refine ⟨moves.map .others ++ (acts ++ [.join]), fun act hact => ?_, result, ?_⟩
  · rcases List.mem_append.1 hact with hact | hact
    · obtain ⟨move, hmove, rfl⟩ := List.mem_map.1 hact
      exact hmoves move hmove
    · rcases List.mem_append.1 hact with hact | hact
      · exact hacts act hact
      · rw [List.mem_singleton.1 hact]
        trivial
  · rw [run_append, run_others, run_append]
    exact hresult

end Progress

namespace Sample

/-- A child that writes a text, exits with zero and is captured. -/
def plainRun (bytes : List UInt8) : List Act :=
  [.others (.write .stdout bytes), .others (.finish (.ok (some 0))), .others (.close .stdout),
    .others (.close .stderr), .others (.read .stdout bytes.length), .others (.read .stdout 1),
    .others (.read .stderr 1), .others .wait, .recv, .recv, .join]

/-- A child that has written a line and is gone. -/
def exited : Capture Unit :=
  after none () none 7 0 .none ((plainRun [104, 105, 10]).take 4)

end Sample

theorem returns_exited : ∃ acts : List Act, (∀ act ∈ acts, act.Own) ∧
    ∃ result, (Sample.exited.run none 7 0 acts).caller = .returned result :=
  returns none 7 0 Sample.exited rfl (fun stream => by cases stream <;> rfl) rfl

/-! ## The consumer behind the capture -/

section Transport

open Consumer
open Delivery (DeliveryRecord)
open Router (DeliveryRouter RouterState)

/-- An observer that does not fail has seen every line. -/
theorem observed_total (f : σ → List Char → σ) (seen₀ : σ) (text : List UInt8) :
    observed (some fun seen line => .ok (f seen line)) seen₀ text =
      .ok ((Lines.cut 10 text).1.foldl (fun seen line => f seen (Utf8.lossy (stripLast 13 line))) seen₀) := by
  rw [observed]
  generalize (Lines.cut 10 text).1 = lines
  induction lines generalizing seen₀ with
  | nil => rfl
  | cons line lines ih => exact ih _

variable (env : Router.Env) (router : DeliveryRouter) (parent : DeliveryRecord) {codec : FrameCodec}
  {token : List Char} {run : DeptRun}

/-- The stdout observer that `run_durable_record` hands to the spawner. -/
def durableObserver (codec : FrameCodec) (token : List Char) : Option (StdoutLineObserver Observer) :=
  some fun o line => .ok (o.line env router parent codec token line)

end Transport

namespace Sample

theorem after_plainRun (f : σ → List Char → σ) (seen₀ : σ) {bytes : List UInt8} (hbytes : bytes ≠ []) :
    (∃ captured, (after (some fun seen line => .ok (f seen line)) seen₀ none 7 0 .none (plainRun bytes)).caller =
      .returned (.ok captured)) ∧
    (after (some fun seen line => .ok (f seen line)) seen₀ none 7 0 .none (plainRun bytes)).gather.broken .stdout =
      false ∧
    (after (some fun seen line => .ok (f seen line)) seen₀ none 7 0 .none (plainRun bytes)).gather.written .stdout =
      bytes := by
  have htext := observed_total f seen₀ bytes
  rw [observed] at htext
  simp [after, plainRun, run, start, step, Gather.start, Gather.step, Gather.send, Gather.stop, recv, join, Joined,
    Gather.take, Gather.takeN, Gather.hangUp, SnapshotWriter.ended, Receiver.take, StdoutLineBuffer.push, hbytes,
    Function.update, conclude, drainFrameworkEvents, spawnResultFromStatus, htext, Except.map]

end Sample

theorem bytes_ne_nil (text : String) :
    (Consumer.Sample.deptRun text).bytes Consumer.Sample.codec Consumer.Sample.token ≠ [] := fun hnil => by
  have hmem : '\n' ∈ (Consumer.Sample.deptRun text).transcript.text Consumer.Sample.codec Consumer.Sample.token := by
    rw [Consumer.Sample.transcript_deptRun, Consumer.Transcript.text]
    simp
  rw [← Consumer.stdout_eq_text, ← Utf8.mem_encode Consumer.lineFeed_byte] at hmem
  change 10 ∈ (Consumer.Sample.deptRun text).bytes _ _ at hmem
  rw [hnil] at hmem
  cases hmem

end Capture

end Fkst.Spawner
