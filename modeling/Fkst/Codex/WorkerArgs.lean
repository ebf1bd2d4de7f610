import Fkst.Codex.Identity
import Fkst.Lib.Flags

/-!
# The arguments of a codex worker

An adopted codex request runs in a worker of its own, and the request reaches the worker in its
arguments: a flag before each field.  The worker looks for a flag wherever it is spelled first, and
takes the argument behind it.

A field that is there is found, as the flags are looked for in the order they are written (the role and
the label apart).  A field that is absent may be found in the value of another field.
`parseWorkerArgs_codexWorkerArgs_iff` says when the worker gets the request that was sent.
-/

set_option autoImplicit false

namespace Fkst.Codex

open Lib

/-! ## What is sent -/

/-- A path: bytes that need not be text. -/
abbrev OsPath := List UInt8

/-- `Path::to_string_lossy`. -/
def toStringLossy (path : OsPath) : String := String.ofList (Utf8.lossy path)

/-- `PathBuf::from`. -/
def pathFrom (text : String) : OsPath := strBytes text

/-- The fields of a `CodexRequest` that a worker is handed. -/
structure WorkerRequest extends CodexRequest where
  runId : String
  timeoutSeconds : Int64
  logPath : OsPath
  role : Option String := none
  label : Option String := none
  proposalId : Option String := none
  dept : Option String := none
  startedAtMs : UInt64

/-- `CodexAdoptionPaths`, with the paths as the operating system has them. -/
structure WorkerPaths where
  key : String
  dir : OsPath
  prompt : OsPath
  stdout : OsPath
  stderr : OsPath
  effect : OsPath
  effectLog : OsPath
  result : OsPath
  status : OsPath

variable (request : WorkerRequest) (paths : WorkerPaths) (hostRoot : OsPath) (runLockFd : Int32)

/-- The arguments that are always there. -/
def requiredWorkerArgs : List String :=
  [ "--host-root", toStringLossy hostRoot
  , "--work-dir", toStringLossy paths.dir
  , "--run-lock-fd", toString runLockFd.toInt
  , "--prompt-file", toStringLossy paths.prompt
  , "--stdout-file", toStringLossy paths.stdout
  , "--stderr-file", toStringLossy paths.stderr
  , "--effect-file", toStringLossy paths.effect
  , "--effect-log-file", toStringLossy paths.effectLog
  , "--result-file", toStringLossy paths.result
  , "--status-file", toStringLossy paths.status
  , "--log-path", toStringLossy request.logPath
  , "--run-id", request.runId
  , "--key", paths.key
  , "--started-at-ms", request.startedAtMs.toNat.repr
  , "--timeout", toString request.timeoutSeconds.toInt ]

/-- The arguments that may be absent, in the order they are written. -/
def optionalWorkerFields : List (String × Option String) :=
  [ ("--context", request.context)
  , ("--worktree", request.worktree)
  , ("--sandbox", request.sandbox.map CodexSandbox.asStr)
  , ("--label", request.label)
  , ("--role", request.role)
  , ("--proposal-id", request.proposalId)
  , ("--dedup-key", request.dedupKey)
  , ("--dept", request.dept) ]

/-- `codex_worker_args`. -/
def codexWorkerArgs : List String :=
  "__codex-worker" ::
    (requiredWorkerArgs request paths hostRoot runLockFd ++ Flags.write (optionalWorkerFields request))

/-! ## What is received -/

/-- `CodexSandbox::parse`. -/
def CodexSandbox.parse (mode : String) : Except String CodexSandbox :=
  if mode = "read-only" then .ok readOnly
  else if mode = "workspace-write" then .ok workspaceWrite
  else if mode = "danger-full-access" then .ok dangerFullAccess
  else .error ("codex-sandbox-invalid: unsupported sandbox mode " ++ mode)

/-- The errors of `parse_worker_args`: a text, or that a number was not one. -/
inductive WorkerArgsError where
  | message (text : String)
  | parseInt
deriving DecidableEq

/-- `WorkerArgParser`: the arguments that are left. -/
abbrev WorkerArgParser := StateT (List String) (Except WorkerArgsError)

namespace WorkerArgParser

/-- `WorkerArgParser::required_string`. -/
def requiredString (flag : String) : WorkerArgParser String := fun args =>
  match Flags.take flag args with
  | some found => .ok found
  | none => .error (.message ("missing " ++ flag))

/-- `WorkerArgParser::required_path`. -/
def requiredPath (flag : String) : WorkerArgParser OsPath := pathFrom <$> requiredString flag

/-- `WorkerArgParser::optional_string`. -/
def optionalString (flag : String) : WorkerArgParser (Option String) := fun args =>
  .ok (Flags.takeOptional flag args)

/-- The number that a text is. -/
def number {α : Type} (value : Option α) : WorkerArgParser α := fun args =>
  match value with
  | some value => .ok (value, args)
  | none => .error .parseInt

/-- The sandbox that a mode names, if there is a mode. -/
def sandbox (mode : Option String) : WorkerArgParser (Option CodexSandbox) := fun args =>
  match mode.map CodexSandbox.parse with
  | none => .ok (none, args)
  | some (.ok sandbox) => .ok (some sandbox, args)
  | some (.error text) => .error (.message text)

/-- `WorkerArgParser::finish`. -/
def finish : WorkerArgParser Unit := fun args =>
  match args with
  | [] => .ok ((), [])
  | arg :: _ => .error (.message ("unknown __codex-worker argument: " ++ arg))

end WorkerArgParser

/-- `CodexWorkerOptions`. -/
structure CodexWorkerOptions where
  hostRoot : OsPath
  workDir : OsPath
  runLockFd : Int32
  promptFile : OsPath
  stdoutFile : OsPath
  stderrFile : OsPath
  effectFile : OsPath
  effectLogFile : OsPath
  resultFile : OsPath
  statusFile : OsPath
  logPath : OsPath
  runId : String
  key : String
  startedAtMs : UInt64
  timeoutSeconds : Int64
  context : Option String
  worktree : Option String
  sandbox : Option CodexSandbox
  role : Option String
  label : Option String
  proposalId : Option String
  dedupKey : Option String
  dept : Option String
deriving DecidableEq

open WorkerArgParser in
/-- The body of `parse_worker_args`. -/
def workerOptions : WorkerArgParser CodexWorkerOptions := do
  let hostRoot ← requiredPath "--host-root"
  let workDir ← requiredPath "--work-dir"
  let runLockFd ← number (parseSigned 32 (← requiredString "--run-lock-fd").toList)
  let promptFile ← requiredPath "--prompt-file"
  let stdoutFile ← requiredPath "--stdout-file"
  let stderrFile ← requiredPath "--stderr-file"
  let effectFile ← requiredPath "--effect-file"
  let effectLogFile ← requiredPath "--effect-log-file"
  let resultFile ← requiredPath "--result-file"
  let statusFile ← requiredPath "--status-file"
  let logPath ← requiredPath "--log-path"
  let runId ← requiredString "--run-id"
  let key ← requiredString "--key"
  let startedAtMs ← number (parseU64 (← requiredString "--started-at-ms").toList)
  let timeoutSeconds ← number (parseSigned 64 (← requiredString "--timeout").toList)
  let context ← optionalString "--context"
  let worktree ← optionalString "--worktree"
  let sandbox ← sandbox (← optionalString "--sandbox")
  let role ← optionalString "--role"
  let label ← optionalString "--label"
  let proposalId ← optionalString "--proposal-id"
  let dedupKey ← optionalString "--dedup-key"
  let dept ← optionalString "--dept"
  finish
  return {
    hostRoot, workDir, runLockFd := Int32.ofInt runLockFd, promptFile, stdoutFile, stderrFile
    effectFile, effectLogFile, resultFile, statusFile, logPath, runId, key, startedAtMs
    timeoutSeconds := Int64.ofInt timeoutSeconds, context, worktree, sandbox, role, label
    proposalId, dedupKey, dept }

/-- `parse_worker_args`. -/
def parseWorkerArgs (args : List String) : Except WorkerArgsError CodexWorkerOptions :=
  workerOptions.run' args

/-- What the worker is to get. -/
def sentOptions : CodexWorkerOptions where
  hostRoot := hostRoot
  workDir := paths.dir
  runLockFd := runLockFd
  promptFile := paths.prompt
  stdoutFile := paths.stdout
  stderrFile := paths.stderr
  effectFile := paths.effect
  effectLogFile := paths.effectLog
  resultFile := paths.result
  statusFile := paths.status
  logPath := request.logPath
  runId := request.runId
  key := paths.key
  startedAtMs := request.startedAtMs
  timeoutSeconds := request.timeoutSeconds
  context := request.context
  worktree := request.worktree
  sandbox := request.sandbox
  role := request.role
  label := request.label
  proposalId := request.proposalId
  dedupKey := request.dedupKey
  dept := request.dept

/-! ## The arguments that are always there -/

/-- What the worker gets of the arguments that are always there. -/
def receivedOptions : CodexWorkerOptions where
  hostRoot := pathFrom (toStringLossy hostRoot)
  workDir := pathFrom (toStringLossy paths.dir)
  runLockFd := runLockFd
  promptFile := pathFrom (toStringLossy paths.prompt)
  stdoutFile := pathFrom (toStringLossy paths.stdout)
  stderrFile := pathFrom (toStringLossy paths.stderr)
  effectFile := pathFrom (toStringLossy paths.effect)
  effectLogFile := pathFrom (toStringLossy paths.effectLog)
  resultFile := pathFrom (toStringLossy paths.result)
  statusFile := pathFrom (toStringLossy paths.status)
  logPath := pathFrom (toStringLossy request.logPath)
  runId := request.runId
  key := paths.key
  startedAtMs := request.startedAtMs
  timeoutSeconds := request.timeoutSeconds
  context := none
  worktree := none
  sandbox := none
  role := none
  label := none
  proposalId := none
  dedupKey := none
  dept := none

open WorkerArgParser in
/-- The end of `parse_worker_args`, with what was read before. -/
def readOptional (options : CodexWorkerOptions) : WorkerArgParser CodexWorkerOptions := do
  let context ← optionalString "--context"
  let worktree ← optionalString "--worktree"
  let sandbox ← sandbox (← optionalString "--sandbox")
  let role ← optionalString "--role"
  let label ← optionalString "--label"
  let proposalId ← optionalString "--proposal-id"
  let dedupKey ← optionalString "--dedup-key"
  let dept ← optionalString "--dept"
  finish
  return { options with context, worktree, sandbox, role, label, proposalId, dedupKey, dept }

section Steps

variable {α β : Type} {flag value : String} {rest : List String}

theorem requiredString_bind (f : String → WorkerArgParser β) :
    (WorkerArgParser.requiredString flag >>= f) (flag :: value :: rest) = f value rest := by
  simp [bind, StateT.bind, WorkerArgParser.requiredString, Except.bind]

theorem requiredPath_bind (f : OsPath → WorkerArgParser β) :
    (WorkerArgParser.requiredPath flag >>= f) (flag :: value :: rest) = f (pathFrom value) rest := by
  simp [bind, StateT.bind, WorkerArgParser.requiredPath, WorkerArgParser.requiredString, Except.bind,
    Functor.map, StateT.map, pure, Except.pure]

theorem number_bind {n : α} (f : α → WorkerArgParser β) :
    (WorkerArgParser.number (some n) >>= f) rest = f n rest := rfl

end Steps

theorem parse_runLockFd : parseSigned 32 (toString runLockFd.toInt).toList = some runLockFd.toInt :=
  parseSigned_toString runLockFd.le_toInt runLockFd.toInt_lt

theorem parse_timeoutSeconds (n : Int64) : parseSigned 64 (toString n.toInt).toList = some n.toInt :=
  parseSigned_toString n.le_toInt n.toInt_lt

/-- The arguments that are always there are read, and the others are left. -/
theorem workerOptions_required (tail : List String) :
    workerOptions (requiredWorkerArgs request paths hostRoot runLockFd ++ tail) =
      readOptional (receivedOptions request paths hostRoot runLockFd) tail := by
  simp only [workerOptions, requiredWorkerArgs, List.cons_append, List.nil_append, requiredPath_bind,
    requiredString_bind, parse_runLockFd, parse_timeoutSeconds, parseU64_repr, number_bind]
  rw [Int32.ofInt_toInt, Int64.ofInt_toInt]
  rfl

/-! ## The arguments that may be absent -/

/-- No field that is absent is spelled in a field that is read later, the last of all arguments apart,
and a label that is spelled as the flag of the role has a role that is spelled so, too. -/
structure WorkerRequest.Legible : Prop where
  context : request.context = none →
    "--context" ∉ (Flags.values ((optionalWorkerFields request).drop 1)).dropLast
  worktree : request.worktree = none →
    "--worktree" ∉ (Flags.values ((optionalWorkerFields request).drop 2)).dropLast
  sandbox : request.sandbox = none →
    "--sandbox" ∉ (Flags.values ((optionalWorkerFields request).drop 3)).dropLast
  label : request.label = none →
    "--label" ∉ (Flags.values ((optionalWorkerFields request).drop 5)).dropLast
  role : request.role = none →
    "--role" ∉ (Flags.values ((optionalWorkerFields request).drop 3)).dropLast
  proposalId : request.proposalId = none →
    "--proposal-id" ∉ (Flags.values ((optionalWorkerFields request).drop 6)).dropLast
  crossed : request.label = some "--role" → ∀ role ∈ request.role, role = "--role"

theorem CodexSandbox.parse_asStr (sandbox : CodexSandbox) : parse sandbox.asStr = .ok sandbox := by
  cases sandbox <;> rfl

section Optional

variable {flag : String} {value : Option String} {fields : List (String × Option String)}

/-- A field that is read in front of the others is what was written, unless it is absent and its flag is
spelled in one of them. -/
theorem takeOptional_write_iff (value : Option String) (hflag : ∀ field ∈ fields, flag ≠ field.1) :
    (Flags.takeOptional flag (Flags.write ((flag, value) :: fields))).1 = value ↔
      (value = none → flag ∉ (Flags.values fields).dropLast) := by
  rw [Flags.write_cons, Flags.takeOptional_optional_fst, Flags.mem_dropLast_write hflag]

theorem takeOptional_write (hflag : ∀ field ∈ fields, flag ≠ field.1)
    (h : value = none → flag ∉ (Flags.values fields).dropLast) :
    Flags.takeOptional flag (Flags.write ((flag, value) :: fields)) = (value, Flags.write fields) := by
  rw [Flags.write_cons, Flags.takeOptional_optional]
  rwa [Flags.mem_dropLast_write hflag]

theorem takeOptional_write_inv {args : List String} (hflag : ∀ field ∈ fields, flag ≠ field.1)
    (h : Flags.takeOptional flag (Flags.write ((flag, value) :: fields)) = (value, args)) :
    (value = none → flag ∉ (Flags.values fields).dropLast) ∧ args = Flags.write fields := by
  have hvalue := (takeOptional_write_iff value hflag).1 (congrArg Prod.fst h)
  rw [takeOptional_write hflag hvalue] at h
  exact ⟨hvalue, (congrArg Prod.snd h).symm⟩

/-- The label is written before the role and read after it. -/
structure Crossed (label role : Option String) (fields : List (String × Option String)) : Prop where
  ofLabel : label = none → "--label" ∉ (Flags.values fields).dropLast
  ofRole : role = none → "--role" ∉ (Flags.values (("--label", label) :: fields)).dropLast
  alike : label = some "--role" → ∀ r ∈ role, r = "--role"

variable {label role : Option String} {args args' : List String}

theorem takeOptional_crossed (hlabel : ∀ field ∈ fields, "--label" ≠ field.1)
    (hrole : ∀ field ∈ fields, "--role" ≠ field.1) (h : Crossed label role fields) :
    ∃ args, Flags.takeOptional "--role" (Flags.write (("--label", label) :: ("--role", role) :: fields)) =
        (role, args) ∧
      Flags.takeOptional "--label" args = (label, Flags.write fields) := by
  cases label with
  | none => exact ⟨_, takeOptional_write hrole h.ofRole, takeOptional_write hlabel h.ofLabel⟩
  | some l =>
    cases role with
    | none =>
      have hspelled := h.ofRole rfl
      rw [← Flags.mem_dropLast_write (by simpa using hrole)] at hspelled
      exact ⟨_, Flags.takeOptional_absent hspelled, Flags.takeOptional_front l⟩
    | some r =>
      by_cases hl : l = "--role"
      · have hr : r = "--role" := h.alike (by rw [hl]) r rfl
        subst hl hr
        refine ⟨"--label" :: "--role" :: Flags.write fields, ?_, Flags.takeOptional_front _⟩
        simp [Flags.optional, Flags.takeOptional, Flags.take_cons]
      · refine ⟨"--label" :: l :: Flags.write fields, ?_, Flags.takeOptional_front _⟩
        simp [Flags.optional, Flags.takeOptional, Flags.take_cons, hl]

theorem crossed_of_takeOptional (hlabel : ∀ field ∈ fields, "--label" ≠ field.1)
    (hrole : ∀ field ∈ fields, "--role" ≠ field.1)
    (h : Flags.takeOptional "--role" (Flags.write (("--label", label) :: ("--role", role) :: fields)) =
      (role, args))
    (h' : Flags.takeOptional "--label" args = (label, args')) : Crossed label role fields := by
  have hfst := congrArg Prod.fst h
  have hfst' := congrArg Prod.fst h'
  cases label with
  | none =>
    have hrole' := (takeOptional_write_iff role hrole).1 hfst
    rw [show Flags.write (("--label", none) :: ("--role", role) :: fields) =
      Flags.write (("--role", role) :: fields) from rfl, takeOptional_write hrole hrole'] at h
    obtain rfl : Flags.write fields = args := congrArg Prod.snd h
    exact ⟨(takeOptional_write_iff none hlabel).1 hfst', hrole', by simp⟩
  | some l =>
    refine ⟨by simp, ?_, ?_⟩
    · rintro rfl
      rw [← Flags.mem_dropLast_write (by simpa using hrole)]
      exact Flags.takeOptional_fst_eq_none.1 hfst
    · rintro ⟨⟩ r hr
      obtain rfl : role = some r := hr
      simp [Flags.optional, Flags.takeOptional, Flags.take_cons] at h
      exact h.1.symm

end Optional

section Steps

variable {β : Type} {flag : String} {value : Option String} {args rest : List String} {b : β}
  {f : Option String → WorkerArgParser β} {p : β × List String}

theorem optionalString_bind (h : Flags.takeOptional flag args = (value, rest)) :
    (WorkerArgParser.optionalString flag >>= f) args = f value rest := by
  simp [bind, StateT.bind, WorkerArgParser.optionalString, Except.bind, h]

theorem optionalString_eq_ok (h : (WorkerArgParser.optionalString flag >>= f) args = .ok p) :
    ∃ value rest, Flags.takeOptional flag args = (value, rest) ∧ f value rest = .ok p :=
  ⟨_, _, rfl, h⟩

theorem sandbox_bind {g : Option CodexSandbox → WorkerArgParser β} (sandbox : Option CodexSandbox) :
    (WorkerArgParser.sandbox (sandbox.map CodexSandbox.asStr) >>= g) args = g sandbox args := by
  cases sandbox with
  | none => rfl
  | some sandbox =>
    simp [bind, StateT.bind, WorkerArgParser.sandbox, CodexSandbox.parse_asStr, Except.bind]

theorem sandbox_eq_ok {g : Option CodexSandbox → WorkerArgParser β}
    (h : (WorkerArgParser.sandbox value >>= g) args = .ok p) :
    ∃ sandbox : Option CodexSandbox, value = sandbox.map CodexSandbox.asStr ∧ g sandbox args = .ok p := by
  cases value with
  | none => exact ⟨none, rfl, h⟩
  | some mode =>
    cases hparse : CodexSandbox.parse mode with
    | error text =>
      simp [bind, StateT.bind, WorkerArgParser.sandbox, hparse, Except.bind] at h
    | ok sandbox =>
      simp only [bind, StateT.bind, WorkerArgParser.sandbox, Option.map_some, hparse, Except.bind] at h
      refine ⟨some sandbox, ?_, h⟩
      simp only [CodexSandbox.parse] at hparse
      split_ifs at hparse with h₁ h₂ h₃ <;> cases hparse <;> simp [CodexSandbox.asStr, *]

theorem finish_eq_ok {g : Unit → WorkerArgParser β} (h : (WorkerArgParser.finish >>= g) args = .ok p) :
    g () [] = .ok p := by
  cases args with
  | nil => exact h
  | cons arg args => cases h

end Steps

/-- The fields of a request that may be absent, as they are to be received. -/
def withOptional (options : CodexWorkerOptions) : CodexWorkerOptions :=
  { options with
    context := request.context, worktree := request.worktree, sandbox := request.sandbox
    role := request.role, label := request.label, proposalId := request.proposalId
    dedupKey := request.dedupKey, dept := request.dept }

/-- What is left when the first so many fields have been read. -/
abbrev fieldsFrom (n : ℕ) : List (String × Option String) := (optionalWorkerFields request).drop n

variable {request}

theorem WorkerRequest.Legible.toCrossed (h : request.Legible) :
    Crossed request.label request.role (fieldsFrom request 5) where
  ofLabel := h.label
  ofRole := by
    intro hnone
    have hrole := h.role hnone
    rwa [optionalWorkerFields, hnone] at hrole
  alike := h.crossed

theorem WorkerRequest.Legible.of_crossed (hcontext : request.context = none →
      "--context" ∉ (Flags.values (fieldsFrom request 1)).dropLast)
    (hworktree : request.worktree = none →
      "--worktree" ∉ (Flags.values (fieldsFrom request 2)).dropLast)
    (hsandbox : request.sandbox = none →
      "--sandbox" ∉ (Flags.values (fieldsFrom request 3)).dropLast)
    (hproposalId : request.proposalId = none →
      "--proposal-id" ∉ (Flags.values (fieldsFrom request 6)).dropLast)
    (hcrossed : Crossed request.label request.role (fieldsFrom request 5)) : request.Legible where
  context := hcontext
  worktree := hworktree
  sandbox := hsandbox
  label := hcrossed.ofLabel
  role := by
    intro hnone
    have hrole := hcrossed.ofRole hnone
    rwa [optionalWorkerFields, hnone]
  proposalId := hproposalId
  crossed := hcrossed.alike

theorem label_ne_fieldsFrom : ∀ field ∈ fieldsFrom request 5, "--label" ≠ field.1 := by
  simp [fieldsFrom, optionalWorkerFields]

theorem role_ne_fieldsFrom : ∀ field ∈ fieldsFrom request 5, "--role" ≠ field.1 := by
  simp [fieldsFrom, optionalWorkerFields]

theorem readOptional_of_legible (options : CodexWorkerOptions) (h : request.Legible) :
    readOptional options (Flags.write (optionalWorkerFields request)) =
      .ok (withOptional request options, []) := by
  have hcontext : Flags.takeOptional "--context" (Flags.write (optionalWorkerFields request)) =
      (request.context, Flags.write (fieldsFrom request 1)) :=
    takeOptional_write (by simp) h.context
  have hworktree : Flags.takeOptional "--worktree" (Flags.write (fieldsFrom request 1)) =
      (request.worktree, Flags.write (fieldsFrom request 2)) :=
    takeOptional_write (by simp) h.worktree
  have hsandbox : Flags.takeOptional "--sandbox" (Flags.write (fieldsFrom request 2)) =
      (request.sandbox.map CodexSandbox.asStr, Flags.write (fieldsFrom request 3)) :=
    takeOptional_write (by simp) fun hnone =>
      h.sandbox (Option.map_eq_none_iff.1 hnone)
  obtain ⟨args, hrole, hlabel⟩ :=
    takeOptional_crossed label_ne_fieldsFrom role_ne_fieldsFrom h.toCrossed
  have hrole : Flags.takeOptional "--role" (Flags.write (fieldsFrom request 3)) =
      (request.role, args) := hrole
  have hproposalId : Flags.takeOptional "--proposal-id" (Flags.write (fieldsFrom request 5)) =
      (request.proposalId, Flags.write (fieldsFrom request 6)) :=
    takeOptional_write (by simp) h.proposalId
  have hdedupKey : Flags.takeOptional "--dedup-key" (Flags.write (fieldsFrom request 6)) =
      (request.dedupKey, Flags.write (fieldsFrom request 7)) :=
    takeOptional_write (by simp) (by simp)
  have hdept : Flags.takeOptional "--dept" (Flags.write (fieldsFrom request 7)) =
      (request.dept, []) :=
    takeOptional_write (by simp) (by simp [Flags.values])
  rw [readOptional, optionalString_bind hcontext, optionalString_bind hworktree,
    optionalString_bind hsandbox, sandbox_bind, optionalString_bind hrole, optionalString_bind hlabel,
    optionalString_bind hproposalId, optionalString_bind hdedupKey, optionalString_bind hdept]
  rfl

/-- What is received is what was sent only if the request is legible. -/
theorem legible_of_readOptional {options received : CodexWorkerOptions} {rest : List String}
    (h : readOptional options (Flags.write (optionalWorkerFields request)) = .ok (received, rest))
    (hreceived : withOptional request received = received) : request.Legible := by
  rw [readOptional] at h
  obtain ⟨context, args₁, hcontext, h⟩ := optionalString_eq_ok h
  obtain ⟨worktree, args₂, hworktree, h⟩ := optionalString_eq_ok h
  obtain ⟨mode, args₃, hmode, h⟩ := optionalString_eq_ok h
  obtain ⟨sandbox, hparsed, h⟩ := sandbox_eq_ok h
  obtain ⟨role, args₄, hrole, h⟩ := optionalString_eq_ok h
  obtain ⟨label, args₅, hlabel, h⟩ := optionalString_eq_ok h
  obtain ⟨proposalId, args₆, hproposalId, h⟩ := optionalString_eq_ok h
  obtain ⟨dedupKey, args₇, -, h⟩ := optionalString_eq_ok h
  obtain ⟨dept, args₈, -, h⟩ := optionalString_eq_ok h
  have hread := (congrArg Prod.fst (Except.ok.inj (finish_eq_ok h))).trans hreceived.symm
  -- Each field is what was sent, so that what is left is what was written behind it.
  obtain rfl : context = request.context := congrArg CodexWorkerOptions.context hread
  obtain rfl : worktree = request.worktree := congrArg CodexWorkerOptions.worktree hread
  obtain rfl : sandbox = request.sandbox := congrArg CodexWorkerOptions.sandbox hread
  obtain rfl : role = request.role := congrArg CodexWorkerOptions.role hread
  obtain rfl : label = request.label := congrArg CodexWorkerOptions.label hread
  obtain rfl : proposalId = request.proposalId := congrArg CodexWorkerOptions.proposalId hread
  subst hparsed
  obtain ⟨unspelledContext, rfl⟩ := takeOptional_write_inv (by simp) hcontext
  obtain ⟨unspelledWorktree, rfl⟩ := takeOptional_write_inv (by simp) hworktree
  obtain ⟨unspelledSandbox, rfl⟩ := takeOptional_write_inv (by simp) hmode
  have hcrossed : Crossed request.label request.role (fieldsFrom request 5) :=
    crossed_of_takeOptional label_ne_fieldsFrom role_ne_fieldsFrom hrole hlabel
  obtain ⟨args, hrole', hlabel'⟩ := takeOptional_crossed label_ne_fieldsFrom role_ne_fieldsFrom hcrossed
  obtain rfl : args₄ = args := congrArg Prod.snd (hrole.symm.trans hrole')
  obtain rfl : args₅ = _ := congrArg Prod.snd (hlabel.symm.trans hlabel')
  obtain ⟨unspelledProposalId, -⟩ := takeOptional_write_inv (by simp) hproposalId
  exact .of_crossed unspelledContext unspelledWorktree
    (fun hnone => unspelledSandbox (Option.map_eq_none_iff.2 hnone)) unspelledProposalId hcrossed

/-! ## What the worker gets -/

/-- `path` is text. -/
def IsText (path : OsPath) : Prop := ∃ text : String, path = strBytes text

/-- Every path that is sent is text. -/
structure TextPaths (request : WorkerRequest) (paths : WorkerPaths) (hostRoot : OsPath) : Prop where
  hostRoot : IsText hostRoot
  dir : IsText paths.dir
  prompt : IsText paths.prompt
  stdout : IsText paths.stdout
  stderr : IsText paths.stderr
  effect : IsText paths.effect
  effectLog : IsText paths.effectLog
  result : IsText paths.result
  status : IsText paths.status
  logPath : IsText request.logPath

theorem pathFrom_toStringLossy_iff (path : OsPath) : pathFrom (toStringLossy path) = path ↔ IsText path := by
  constructor
  · intro h
    exact ⟨_, h.symm⟩
  · rintro ⟨text, rfl⟩
    rw [toStringLossy, strBytes_eq, Utf8.lossy_encode, String.ofList_toList, pathFrom, strBytes_eq]

theorem withOptional_receivedOptions_iff :
    withOptional request (receivedOptions request paths hostRoot runLockFd) =
        sentOptions request paths hostRoot runLockFd ↔
      TextPaths request paths hostRoot := by
  simp only [withOptional, receivedOptions, sentOptions, CodexWorkerOptions.mk.injEq,
    pathFrom_toStringLossy_iff, and_true, true_and]
  constructor
  · rintro ⟨h₁, h₂, h₃, h₄, h₅, h₆, h₇, h₈, h₉, h₁₀⟩
    exact ⟨h₁, h₂, h₃, h₄, h₅, h₆, h₇, h₈, h₉, h₁₀⟩
  · rintro ⟨h₁, h₂, h₃, h₄, h₅, h₆, h₇, h₈, h₉, h₁₀⟩
    exact ⟨h₁, h₂, h₃, h₄, h₅, h₆, h₇, h₈, h₉, h₁₀⟩

/-- **When the worker gets the request that was sent**: exactly if every path is text and the request is
legible. -/
theorem parseWorkerArgs_codexWorkerArgs_iff :
    parseWorkerArgs (codexWorkerArgs request paths hostRoot runLockFd).tail =
        .ok (sentOptions request paths hostRoot runLockFd) ↔
      TextPaths request paths hostRoot ∧ request.Legible := by
  have hrun : parseWorkerArgs (codexWorkerArgs request paths hostRoot runLockFd).tail =
      (readOptional (receivedOptions request paths hostRoot runLockFd)
        (Flags.write (optionalWorkerFields request))).map Prod.fst := by
    rw [← workerOptions_required]
    rfl
  rw [hrun]
  constructor
  · intro h
    cases hread : readOptional (receivedOptions request paths hostRoot runLockFd)
        (Flags.write (optionalWorkerFields request)) with
    | error e => simp [hread, Except.map] at h
    | ok found =>
      rw [hread] at h
      have hreceived : found.1 = sentOptions request paths hostRoot runLockFd := Except.ok.inj h
      have hlegible := legible_of_readOptional hread (by rw [hreceived]; rfl)
      rw [readOptional_of_legible _ hlegible] at hread
      refine ⟨(withOptional_receivedOptions_iff paths hostRoot runLockFd).1 ?_, hlegible⟩
      rw [← hreceived, ← Except.ok.inj hread]
  · rintro ⟨htext, hlegible⟩
    rw [readOptional_of_legible _ hlegible]
    exact congrArg Except.ok ((withOptional_receivedOptions_iff paths hostRoot runLockFd).2 htext)

/-- The paths of an adoption. -/
def reviewPaths : WorkerPaths where
  key := "prompt-1"
  dir := strBytes "/r/prompt-1"
  prompt := strBytes "/r/prompt-1/prompt.txt"
  stdout := strBytes "/r/prompt-1/stdout.txt"
  stderr := strBytes "/r/prompt-1/stderr.txt"
  effect := strBytes "/r/prompt-1/effect.json"
  effectLog := strBytes "/r/prompt-1/effect-receipts.log"
  result := strBytes "/r/prompt-1/result.json"
  status := strBytes "/r/prompt-1/status.json"

/-- A request without a context, whose label is spelled as the flag of the context. -/
def reviewRequest : WorkerRequest where
  prompt := "review"
  worktree := some "/w"
  runId := "codex-1"
  timeoutSeconds := 600
  logPath := strBytes "/w/codex-1.log"
  role := some "reviewer"
  label := some "--context"
  startedAtMs := 1000

/-- The worker gets a context that was not sent, and the role as its label. -/
theorem parseWorkerArgs_reviewRequest :
    parseWorkerArgs (codexWorkerArgs reviewRequest reviewPaths (strBytes "/h") 9).tail =
        .ok { sentOptions reviewRequest reviewPaths (strBytes "/h") 9 with
          context := some "--role", label := some "reviewer", role := none } ∧
      parseWorkerArgs (codexWorkerArgs reviewRequest reviewPaths (strBytes "/h") 9).tail ≠
        .ok (sentOptions reviewRequest reviewPaths (strBytes "/h") 9) := by
  decide +kernel

end Fkst.Codex
