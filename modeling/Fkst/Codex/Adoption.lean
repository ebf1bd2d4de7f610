import Fkst.Lib.Flock
import Fkst.Lib.Machine
import Fkst.Rust

/-!
# Adopting a codex run

`run_adoptable_codex_request`, `run_codex_worker` and what they call.  A dispatch looks for a completed
record under its adoption key; if there is none that it may reuse it takes `run.lock`, and unless a run
is under way it starts a detached worker, which inherits the lock, claims the run, and gives the lock
back.  The worker runs codex and publishes what came of it, and the dispatch waits for a record.

The parties are the dispatches, a worker and a codex child for each of them, and processes that only
look whether a lock is held.  They share the files of one adoption key and two kinds of locks.  A party
goes on by one access to a file or a lock at a time, and it may die at any time; what it had still to
write is then lost.  A dispatch has a `run_id` of its own, a ulid; here it is the number of the
dispatch.
-/

set_option autoImplicit false

namespace Fkst.Codex

open Lib

/-! ## Records -/

/-- `CodexDiagnostic`. -/
structure CodexDiagnostic where
  line : ℕ
  raw : String
deriving DecidableEq

/-- How a run ended: the part that `CodexAdoptionResultRecord`, `CodexAdoptionEffectRecord` and
`CodexResult` have in common. -/
structure Ending where
  exitCode : ℤ
  errorKind : Option String
  error : Option String
  codexErrorInfo : Option String
  diagnostics : List CodexDiagnostic
deriving DecidableEq

/-- `CodexAdoptionResultRecord`. -/
structure CodexAdoptionResultRecord extends Ending where
  endedAtMs : UInt64
deriving DecidableEq

/-- `CodexAdoptionEffectRecord`. -/
structure CodexAdoptionEffectRecord extends CodexAdoptionResultRecord where
  effectKey : String
  stdout : String
  stderr : String
deriving DecidableEq

/-- The values of `status` in `CodexAdoptionRecord`. -/
inductive AdoptionStatus where
  | intent
  | running
  | completed
deriving DecidableEq

/-- `CodexAdoptionRecord`, without the fields that are only shown to observers. -/
structure CodexAdoptionRecord where
  key : String
  runId : ℕ
  status : AdoptionStatus
  logPath : String
  endedAtMs : Option UInt64 := none
  workerPid : Option ℕ := none
  codexPid : Option ℕ := none
  exitCode : Option ℤ := none
  errorKind : Option String := none
  error : Option String := none
  codexErrorInfo : Option String := none
  diagnostics : List CodexDiagnostic := []
deriving DecidableEq

/-- `CodexProvenance`. -/
inductive CodexProvenance where
  | produced
  | adopted
deriving DecidableEq

/-- `CodexResult`.  Its `error_class` is worked out from the other fields. -/
structure CodexResult extends Ending where
  stdout : String
  stderr : String
  logPath : String
  runId : Option ℕ := none
  provenance : CodexProvenance := .produced
deriving DecidableEq

/-- `CodexResult::success`. -/
def CodexResult.success (stdout stderr : String) (exitCode : ℤ) (logPath : String) : CodexResult where
  exitCode := exitCode
  errorKind := none
  error := none
  codexErrorInfo := none
  diagnostics := []
  stdout := stdout
  stderr := stderr
  logPath := logPath

/-- `CodexResult::failure`. -/
def CodexResult.failure (kind message stdout stderr : String) (exitCode : ℤ) (logPath : String) :
    CodexResult where
  exitCode := exitCode
  errorKind := some kind
  error := some message
  codexErrorInfo := none
  diagnostics := []
  stdout := stdout
  stderr := if (trim stderr.toList).isEmpty then message else stderr ++ "\n" ++ message
  logPath := logPath

/-- `adoption_result_succeeded`. -/
def adoptionResultSucceeded (result : CodexResult) : Bool :=
  result.errorKind.isNone && result.exitCode == 0

/-- What `read_completed_adoption_result` makes of a completed record and the two outputs. -/
def completedResult (record : CodexAdoptionRecord) (stdout stderr : String) (requestingRunId : ℕ) :
    CodexResult :=
  let exitCode := record.exitCode.getD (-1)
  let provenance := if record.runId = requestingRunId then .produced else .adopted
  let result := match record.errorKind with
    | some kind => CodexResult.failure kind (record.error.getD "adopted codex failed") stdout stderr
        exitCode record.logPath
    | none => CodexResult.success stdout stderr exitCode record.logPath
  { result with
    codexErrorInfo := record.codexErrorInfo
    diagnostics := record.diagnostics
    runId := some record.runId
    provenance := provenance }

/-- `adoption_record_is_current`. -/
def adoptionRecordIsCurrent (record : CodexAdoptionRecord) (runId : ℕ) (key : String) : Bool :=
  record.status = .running && record.runId = runId && record.key = key

/-! ## Files -/

/-- The files of an adoption key.  A missing log is an empty one.  The outputs say for which run they
were written and `recorded` which runs have left a trace of their outcome; neither is on the disk. -/
structure Disk where
  status : Option CodexAdoptionRecord := none
  result : Option CodexAdoptionResultRecord := none
  effect : Option CodexAdoptionEffectRecord := none
  effectLog : List CodexAdoptionEffectRecord := []
  stdout : Option (ℕ × String) := none
  stderr : Option (ℕ × String) := none
  recorded : List ℕ := []

/-- One access to a file that changes it.  `write_atomic` renames a file of its own. -/
inductive Op where
  | removeResult
  | removeEffect
  | removeEffectLog
  | writeStatus (record : CodexAdoptionRecord)
  | writeResult (record : CodexAdoptionResultRecord)
  | writeEffect (runId : ℕ) (record : CodexAdoptionEffectRecord)
  | appendEffectLog (runId : ℕ) (record : CodexAdoptionEffectRecord)
  | writeStdout (runId : ℕ) (text : String)
  | writeStderr (runId : ℕ) (text : String)

namespace Disk

/-- What an access does. -/
def apply (disk : Disk) : Op → Disk
  | .removeResult => { disk with result := none }
  | .removeEffect => { disk with effect := none }
  | .removeEffectLog => { disk with effectLog := [] }
  | .writeStatus record => { disk with status := some record }
  | .writeResult record => { disk with result := some record }
  | .writeEffect runId record =>
    { disk with effect := some record, recorded := runId :: disk.recorded }
  | .appendEffectLog runId record =>
    { disk with effectLog := disk.effectLog ++ [record], recorded := runId :: disk.recorded }
  | .writeStdout runId text => { disk with stdout := some (runId, text) }
  | .writeStderr runId text => { disk with stderr := some (runId, text) }

/-- `read_optional_string` at the standard output. -/
def stdoutText (disk : Disk) : String := (disk.stdout.map Prod.snd).getD ""

/-- `read_optional_string` at the standard error. -/
def stderrText (disk : Disk) : String := (disk.stderr.map Prod.snd).getD ""

/-- `read_completed_adoption_result` by someone who has the lock. -/
def readCompleted (disk : Disk) (requestingRunId : ℕ) : Option CodexResult :=
  match disk.status with
  | some record =>
    if record.status = .completed then
      some (completedResult record disk.stdoutText disk.stderrText requestingRunId)
    else none
  | none => none

/-- The record `promote_completed_adoption_result` writes. -/
def completeRecord (record : CodexAdoptionRecord) (result : CodexAdoptionResultRecord) :
    CodexAdoptionRecord :=
  { record with
    status := .completed
    endedAtMs := some result.endedAtMs
    exitCode := some result.exitCode
    errorKind := result.errorKind
    error := result.error
    codexErrorInfo := result.codexErrorInfo
    diagnostics := result.diagnostics }

/-- `promote_completed_adoption_result`. -/
def promoteResult (disk : Disk) (result : CodexAdoptionResultRecord) : Option (List Op) :=
  disk.status.map fun record => [.writeStatus (completeRecord record result)]

/-- `promote_completed_adoption_effect` for the run of a record. -/
def promoteEffect (key : String) (record : CodexAdoptionRecord) (effect : CodexAdoptionEffectRecord) :
    Except String (Option (List Op)) :=
  if effect.effectKey ≠ key then .error "codex adoption effect key mismatch"
  else .ok (some
    [.writeStdout record.runId effect.stdout, .writeStderr record.runId effect.stderr,
      .writeResult effect.toCodexAdoptionResultRecord,
      .writeStatus (completeRecord record effect.toCodexAdoptionResultRecord)])

/-- `recover_completed_adoption_result_locked_from_disk`: what it goes on to write if it has found an
outcome. -/
def recovery (key : String) (disk : Disk) : Except String (Option (List Op)) :=
  match disk.result with
  | some result => .ok (disk.promoteResult result)
  | none =>
    match disk.status with
    | none => .ok none
    | some record =>
      if record.status = .completed ∨ record.key ≠ key then .ok none
      else
        match disk.effect with
        | some effect => promoteEffect key record effect
        | none =>
          match (disk.effectLog.filter fun effect => effect.effectKey = key).getLast? with
          | some effect => promoteEffect key record effect
          | none => .ok none

end Disk

/-! ## Parties -/

/-- The locks: `run.lock`, and `worker-<run_id>.lock` for every run. -/
inductive AdoptionLock where
  | run
  | witness (runId : ℕ)
deriving DecidableEq

/-- Who has files open. -/
inductive Party where
  | caller (d : ℕ)
  | worker (d : ℕ)
  | child (d : ℕ)
  | prober (n : ℕ)
deriving DecidableEq

/-- How far `read_completed_adoption_result` has come without the lock: the record is read first, then
one output and then the other. -/
inductive Reader where
  | status
  | stdout (record : CodexAdoptionRecord)
  | stderr (record : CodexAdoptionRecord) (stdout : String)

/-- Where a dispatch is.  Before it waits its mode is `none`; then it is the runs that had left a trace
when it began to wait. -/
inductive CallerPhase where
  | absent
  /-- It reads without the lock. -/
  | reading (mode : Option (List ℕ)) (reader : Reader)
  /-- It waits for `run.lock`. -/
  | locking (mode : Option (List ℕ))
  /-- It has the lock. -/
  | holding (mode : Option (List ℕ))
  /-- It has found an outcome, and promotes it. -/
  | recovering (mode : Option (List ℕ)) (todo : List Op)
  /-- It has promoted an outcome. -/
  | recovered (mode : Option (List ℕ))
  /-- It is about to look whether a run is under way. -/
  | checking
  /-- `start_adoption_worker` writes. -/
  | starting (todo : List Op)
  /-- `start_adoption_worker` is about to start the worker. -/
  | spawning
  /-- It is about to close the lock and to wait. -/
  | leaving
  /-- It has found nothing, and looks at its deadline. -/
  | polling (seen : List ℕ)
  /-- `kill_current_adoption_worker_group` waits for the lock. -/
  | killLocking
  /-- It has the lock, and kills. -/
  | killing
  /-- The outputs are read for the failure. -/
  | timingOut (stdout : Option String)
  | done

/-- Where a worker is. -/
inductive WorkerPhase where
  | absent
  /-- It has `run.lock` from the dispatch; `claim_adoption_worker` looks for an outcome. -/
  | claiming
  /-- It has found an outcome, promotes it, and exits. -/
  | recovering (todo : List Op)
  /-- `try_acquire_adoption_worker_witness`. -/
  | witnessing
  /-- It has the witness, and looks at the record. -/
  | judging
  /-- It is about to write that it is running. -/
  | claimed (record : CodexAdoptionRecord)
  /-- It is about to close `run.lock`. -/
  | releasing
  /-- It waits for a permit, and starts codex. -/
  | ready
  /-- `write_adoption_child_pid` waits for `run.lock`. -/
  | pidLocking (pid : ℕ)
  /-- It has the lock. -/
  | pidWriting (todo : List Op)
  /-- It waits for codex. -/
  | awaiting
  /-- `write_codex_effect_receipt` waits for `run.lock`. -/
  | receiptLocking (result : CodexResult)
  /-- It has the lock. -/
  | receipting (result : CodexResult) (todo : List Op)
  /-- `publish_adoption_result_if_current` waits for `run.lock`. -/
  | publishLocking (result : CodexResult)
  /-- It has the lock. -/
  | publishing (todo : List Op)
  | done

/-- Where a codex child is. -/
inductive ChildPhase where
  | absent
  | running
  | gone
deriving DecidableEq

/-- The files and locks, all parties, and what the runs have produced. -/
structure AdoptionState where
  disk : Disk := {}
  locks : Locks AdoptionLock Party := Locks.none
  caller : ℕ → CallerPhase := fun _ => .absent
  worker : ℕ → WorkerPhase := fun _ => .absent
  child : ℕ → ChildPhase := fun _ => .absent
  produced : List (ℕ × CodexResult) := []

/-- What the surroundings decide for a party that goes on: whether what it tries fails (and then
whether a line was written all the same), whether its deadline has passed, the pids and paths it is
given, the time, and what came of codex. -/
structure Choice where
  result : CodexResult
  fails : Bool := false
  written : Bool := false
  late : Bool := false
  pid : ℕ := 0
  logPath : String := ""
  endedAtMs : UInt64 := 0

/-- What can be seen of a dispatch: `read_completed_adoption_result` gave it a result, which it returned
or not; or it ran out of time. -/
inductive AdoptionEvent where
  | read (d : ℕ) (mode : Option (List ℕ)) (result : CodexResult) (returned : Bool)
  | timedOut (d : ℕ) (result : CodexResult)
deriving DecidableEq

/-- What can happen. -/
inductive AdoptionAct where
  /-- A dispatch calls `run_adoptable_codex_request`. -/
  | dispatch (d : ℕ)
  /-- A dispatch goes on. -/
  | caller (d : ℕ) (choice : Choice)
  /-- A worker goes on. -/
  | worker (d : ℕ) (choice : Choice)
  /-- A party dies, or gives up with an error; codex exits. -/
  | stop (p : Party)
  /-- Some process looks whether a lock is held, and has it for a while if it is not. -/
  | probe (n : ℕ) (lock : AdoptionLock)

namespace AdoptionState

/-- A party is gone, and its files are closed. -/
def stop (s : AdoptionState) (p : Party) : AdoptionState :=
  let s := { s with locks := s.locks.die p }
  match p with
  | .caller d => { s with caller := Function.update s.caller d .done }
  | .worker d => { s with worker := Function.update s.worker d .done }
  | .child d => { s with child := Function.update s.child d .gone }
  | .prober _ => s

/-- A dispatch comes to its next phase. -/
def callerTo (s : AdoptionState) (d : ℕ) (phase : CallerPhase) : AdoptionState :=
  { s with caller := Function.update s.caller d phase }

/-- A worker comes to its next phase. -/
def workerTo (s : AdoptionState) (d : ℕ) (phase : WorkerPhase) : AdoptionState :=
  { s with worker := Function.update s.worker d phase }

/-- A file changes. -/
def access (s : AdoptionState) (op : Op) : AdoptionState := { s with disk := s.disk.apply op }

/-- A party takes a free lock. -/
def take (s : AdoptionState) (lock : AdoptionLock) (p : Party) : AdoptionState :=
  { s with locks := s.locks.take lock p }

/-- A party closes a lock. -/
def close (s : AdoptionState) (lock : AdoptionLock) (p : Party) : AdoptionState :=
  { s with locks := s.locks.drop lock p }

/-- A run has a result. -/
def produce (s : AdoptionState) (d : ℕ) (result : CodexResult) : AdoptionState :=
  { s with produced := s.produced ++ [(d, result)] }

/-- `adoption_effect_alive`. -/
def alive (s : AdoptionState) (runId : ℕ) : Bool := !(s.locks (.witness runId)).isEmpty

/-- Whether the record on the disk is the running one of a run. -/
def isCurrent (s : AdoptionState) (key : String) (d : ℕ) : Bool :=
  match s.disk.status with
  | some record => adoptionRecordIsCurrent record d key
  | none => false

end AdoptionState

/-- What `start_adoption_worker` writes: `discard_previous_run_outcome`, and the intent. -/
def startOps (key : String) (d : ℕ) (logPath : String) : List Op :=
  [.removeResult, .removeEffect, .removeEffectLog,
    .writeStatus { key := key, runId := d, status := .intent, logPath := logPath }]

/-- The effect record of a result. -/
def effectRecord (key : String) (result : CodexResult) (endedAtMs : UInt64) :
    CodexAdoptionEffectRecord :=
  { toEnding := result.toEnding
    endedAtMs := endedAtMs
    effectKey := key
    stdout := result.stdout
    stderr := result.stderr }

/-- What `publish_adoption_result_if_current` writes. -/
def publishOps (key : String) (d : ℕ) (record : CodexAdoptionRecord) (result : CodexResult)
    (endedAtMs : UInt64) : List Op :=
  let effect := effectRecord key result endedAtMs
  [.writeEffect d effect, .writeStdout d result.stdout, .writeStderr d result.stderr,
    .writeResult effect.toCodexAdoptionResultRecord,
    .writeStatus (Disk.completeRecord record effect.toCodexAdoptionResultRecord)]

/-- The record a worker claims its run with. -/
def runningRecord (key : String) (d : ℕ) (choice : Choice) : CodexAdoptionRecord where
  key := key
  runId := d
  status := .running
  logPath := choice.logPath
  workerPid := some choice.pid

/-- What becomes of a result whose receipt could not be written. -/
def receiptFailure (result : CodexResult) : CodexResult :=
  .failure "effect_receipt" "codex effect receipt write failed" result.stdout result.stderr (-1)
    result.logPath

namespace AdoptionState

section Steps

variable (key : String)

/-! ## The dispatch -/

/-- Nothing was recovered: the dispatch goes on to look for a run, or it closes the lock and looks at
its deadline. -/
def recoverNothing (s : AdoptionState) (d : ℕ) : Option (List ℕ) → AdoptionState
  | none => s.callerTo d .checking
  | some seen => (s.callerTo d (.polling seen)).close .run (.caller d)

/-- `recover_completed_adoption_result_locked`. -/
def recover (s : AdoptionState) (d : ℕ) (mode : Option (List ℕ)) : AdoptionState :=
  match s.disk.recovery key with
  | .error _ => s.stop (.caller d)
  | .ok (some todo) => s.callerTo d (.recovering mode todo)
  | .ok none => s.recoverNothing d mode

/-- A dispatch has read a result.  A dispatch that waits returns it; another one only if it may be
reused, and else it goes on. -/
def answer (s : AdoptionState) (d : ℕ) (mode : Option (List ℕ)) (result : CodexResult)
    (next : AdoptionState) : AdoptionState × Option AdoptionEvent :=
  if mode.isSome || adoptionResultSucceeded result then
    (s.stop (.caller d), some (.read d mode result true))
  else (next, some (.read d mode result false))

/-- A dispatch goes on. -/
def callerStep (s : AdoptionState) (d : ℕ) (choice : Choice) : AdoptionState × Option AdoptionEvent :=
  match s.caller d with
  | .absent | .done => (s, none)
  | .reading mode .status =>
    match s.disk.status with
    | some record =>
      if record.status = .completed then (s.callerTo d (.reading mode (.stdout record)), none)
      else (s.callerTo d (.locking mode), none)
    | none => (s.callerTo d (.locking mode), none)
  | .reading mode (.stdout record) =>
    (s.callerTo d (.reading mode (.stderr record s.disk.stdoutText)), none)
  | .reading mode (.stderr record stdout) =>
    s.answer d mode (completedResult record stdout s.disk.stderrText d) (s.callerTo d (.locking mode))
  | .locking mode =>
    if s.locks .run = [] then ((s.callerTo d (.holding mode)).take .run (.caller d), none)
    else (s, none)
  | .holding none =>
    -- the second look, now under the lock
    match s.disk.readCompleted d with
    | some result => s.answer d none result (s.recover key d none)
    | none => (s.recover key d none, none)
  | .holding (some seen) => (s.recover key d (some seen), none)
  | .recovering mode (op :: todo) => ((s.access op).callerTo d (.recovering mode todo), none)
  | .recovering mode [] => (s.callerTo d (.recovered mode), none)
  | .recovered mode =>
    match s.disk.readCompleted d with
    | some result => s.answer d mode result (s.callerTo d .checking)
    | none => (s.recoverNothing d mode, none)
  | .checking =>
    match s.disk.status with
    | some record =>
      if record.status = .running && s.alive record.runId then (s.callerTo d .leaving, none)
      else (s.callerTo d (.starting (startOps key d choice.logPath)), none)
    | none => (s.callerTo d (.starting (startOps key d choice.logPath)), none)
  | .starting (op :: todo) => ((s.access op).callerTo d (.starting todo), none)
  | .starting [] => (s.callerTo d .spawning, none)
  | .spawning =>
    -- the worker inherits the open lock file
    ({ (s.callerTo d .leaving).workerTo d .claiming with
        locks := s.locks.share .run (.worker d) }, none)
  | .leaving =>
    ((s.callerTo d (.reading (some s.disk.recorded) .status)).close .run (.caller d), none)
  | .polling seen =>
    if choice.late then (s.callerTo d .killLocking, none)
    else (s.callerTo d (.reading (some seen) .status), none)
  | .killLocking =>
    if s.locks .run = [] then ((s.callerTo d .killing).take .run (.caller d), none) else (s, none)
  | .killing =>
    -- whoever has the recorded pids now dies, at a time of its own
    ((s.callerTo d (.timingOut none)).close .run (.caller d), none)
  | .timingOut none => (s.callerTo d (.timingOut (some s.disk.stdoutText)), none)
  | .timingOut (some stdout) =>
    (s.stop (.caller d), some (.timedOut d (.failure "timeout"
      "adopted codex timed out waiting for result" stdout s.disk.stderrText 124 choice.logPath)))

/-! ## The worker -/

/-- A worker goes on. -/
def workerStep (s : AdoptionState) (d : ℕ) (choice : Choice) : AdoptionState :=
  match s.worker d with
  | .absent | .done => s
  | .claiming =>
    match s.disk.recovery key with
    | .error _ => s.stop (.worker d)
    | .ok (some todo) => s.workerTo d (.recovering todo)
    | .ok none => s.workerTo d .witnessing
  | .recovering (op :: todo) => (s.access op).workerTo d (.recovering todo)
  | .recovering [] => s.stop (.worker d)
  | .witnessing =>
    if s.locks (.witness d) = [] then (s.workerTo d .judging).take (.witness d) (.worker d)
    else s.stop (.worker d)
  | .judging =>
    let claim := s.workerTo d (.claimed (runningRecord key d choice))
    match s.disk.status with
    | some record =>
      if record.status = .completed then s.stop (.worker d)
      else if record.status = .running && record.workerPid != some choice.pid &&
        s.alive record.runId then s.stop (.worker d)
      else claim
    | none => claim
  | .claimed record => (s.access (.writeStatus record)).workerTo d .releasing
  | .releasing => (s.workerTo d .ready).close .run (.worker d)
  | .ready =>
    if choice.fails then (s.produce d choice.result).workerTo d (.receiptLocking choice.result)
    else
      -- codex inherits the open witness
      { s.workerTo d (.pidLocking choice.pid) with
        child := Function.update s.child d .running
        locks := s.locks.share (.witness d) (.child d) }
  | .pidLocking pid =>
    if choice.fails then s.workerTo d .awaiting
    else if s.locks .run = [] then
      let todo := match s.disk.status with
        | some record =>
          if adoptionRecordIsCurrent record d key then
            [Op.writeStatus { record with codexPid := some pid }]
          else []
        | none => []
      (s.workerTo d (.pidWriting todo)).take .run (.worker d)
    else s
  | .pidWriting (op :: todo) =>
    if choice.fails then s.workerTo d (.pidWriting []) else (s.access op).workerTo d (.pidWriting todo)
  | .pidWriting [] => (s.workerTo d .awaiting).close .run (.worker d)
  | .awaiting =>
    if s.child d = .gone then
      (s.produce d choice.result).workerTo d (.receiptLocking choice.result)
    else s
  | .receiptLocking result =>
    if choice.fails then
      (s.produce d (receiptFailure result)).workerTo d (.publishLocking (receiptFailure result))
    else if s.locks .run = [] then
      let todo := if s.isCurrent key d then
          [Op.appendEffectLog d (effectRecord key result choice.endedAtMs)]
        else []
      (s.workerTo d (.receipting result todo)).take .run (.worker d)
    else s
  | .receipting result (op :: todo) =>
    if choice.fails then
      -- the line may be there although the write failed
      ((((if choice.written then s.access op else s).produce d (receiptFailure result)).workerTo d
        (.publishLocking (receiptFailure result))).close .run (.worker d))
    else (s.access op).workerTo d (.receipting result todo)
  | .receipting result [] => (s.workerTo d (.publishLocking result)).close .run (.worker d)
  | .publishLocking result =>
    if s.locks .run = [] then
      let todo := match s.disk.status with
        | some record =>
          if adoptionRecordIsCurrent record d key then
            publishOps key d { record with codexPid := none } result choice.endedAtMs
          else []
        | none => []
      (s.workerTo d (.publishing todo)).take .run (.worker d)
    else s
  | .publishing (op :: todo) => (s.access op).workerTo d (.publishing todo)
  | .publishing [] => s.stop (.worker d)

/-! ## Everyone -/

/-- Whether a party has started. -/
def present (s : AdoptionState) : Party → Bool
  | .caller d => match s.caller d with
    | .absent => false
    | _ => true
  | .worker d => match s.worker d with
    | .absent => false
    | _ => true
  | .child d => s.child d = .running
  | .prober _ => true

/-- One thing happens. -/
def step (s : AdoptionState) : AdoptionAct → AdoptionState × Option AdoptionEvent
  | .dispatch d =>
    match s.caller d with
    | .absent => (s.callerTo d (.reading none .status), none)
    | _ => (s, none)
  | .caller d choice => s.callerStep key d choice
  | .worker d choice => (s.workerStep key d choice, none)
  | .stop p => (if s.present p then s.stop p else s, none)
  | .probe n lock => (if s.locks lock = [] then s.take lock (.prober n) else s, none)

end Steps

end AdoptionState

/-- A run from no files: the state it comes to, and what was seen of the dispatches. -/
def adoptionRun (key : String) (acts : List AdoptionAct) : AdoptionState × List AdoptionEvent :=
  Machine.run (AdoptionState.step key) {} acts

end Fkst.Codex
