import Mathlib.Data.Countable.Basic
import Mathlib.Data.Rat.Floor
import Mathlib.Logic.Equiv.List
import Fkst.Lib.Flock
import Fkst.Lib.Fnv
import Fkst.Lib.Machine
import Fkst.Lib.Table
import Fkst.RatePool
import Fkst.Router.Keys

/-!
# Read coalescing

`read_coalesce.rs` and `run_spec_with_context`: processes that run the same command may share its
result through a file.  The file and the lock that goes with it are named by a digest of the
fingerprint of the command, and the entry in the file names the fingerprint itself.
-/

set_option autoImplicit false

namespace Fkst.ReadCoalesce

open Lib

/-! ## Options -/

/-- `MAX_TTL`, in nanoseconds as all durations here. -/
def maxTtl : ℕ := 300000000000

/-- `ReadCoalesceOptions`. -/
structure ReadCoalesceOptions where
  key : String
  ttl : ℕ
  ttl_le : ttl ≤ maxTtl

/-- The nearest number, and the even one of two. -/
def roundTiesEven (x : ℚ) : ℕ :=
  let n := ⌊x⌋₊
  if x - n < 1 / 2 ∨ (x - n = 1 / 2 ∧ n % 2 = 0) then n else n + 1

theorem roundTiesEven_le {x : ℚ} {n : ℕ} (h : x ≤ n) : roundTiesEven x ≤ n := by
  have hfloor : ⌊x⌋₊ ≤ n := Nat.floor_le_of_le h
  rw [roundTiesEven]
  split
  · exact hfloor
  · rename_i hround
    rcases Nat.lt_or_eq_of_le hfloor with hlt | heq
    · exact hlt
    · refine absurd (Or.inl ?_) hround
      rw [heq]
      linarith

/-- `Duration::from_secs_f64` for a number of seconds that is positive and not large. -/
def fromSecsF64 (seconds : ℚ) : ℕ := roundTiesEven (seconds * 1000000000)

/-- `ReadCoalesceOptions::new`.  An `f64` is finite and then a rational number, or it is not. -/
def ReadCoalesceOptions.new (key : String) (ttlSeconds : Option ℚ) :
    Except String ReadCoalesceOptions :=
  match Router.validateRuntimeKey key with
  | .error _ => .error "read_coalesce key is invalid"
  | .ok _ =>
    match ttlSeconds with
    | none => .error "read_coalesce ttl_seconds must be a positive finite number"
    | some seconds =>
      if seconds ≤ 0 then .error "read_coalesce ttl_seconds must be a positive finite number"
      else if h : 300 < seconds then .ok ⟨key, maxTtl, Nat.le_refl _⟩
      else .ok ⟨key, fromSecsF64 seconds, roundTiesEven_le (by rw [maxTtl]; push_cast; linarith)⟩

/-! ## Commands -/

/-- `CommandStdin`. -/
inductive CommandStdin where
  | null
  | bytes (bytes : List UInt8)
  | inherit
deriving DecidableEq

/-- The fields of a `CommandSpec` that have a part in its fingerprint. -/
structure CommandSpec where
  program : String
  args : List String
  cwd : Option String := none
  env : List (String × String) := []
  stdin : CommandStdin := .null
  timeout : Option ℕ := none

/-- `Fingerprint`.  A `BTreeMap` is the list of its entries in order. -/
structure Fingerprint where
  callerKey : String
  program : String
  args : List String
  cwd : String
  env : List (String × String)
  timeoutNanos : Option ℕ
deriving DecidableEq

/-- `ExecResult`. -/
structure ExecResult where
  stdout : String
  stderr : String
  exitCode : ℤ
  timedOut : Option Bool
  errorClass : Option String
deriving DecidableEq

/-- `CacheEntry`. -/
structure CacheEntry where
  fingerprint : Fingerprint
  expiresAtNanos : ℕ
  stdoutB64 : String
  stderrB64 : String
  exitCode : ℤ
  timedOut : Option Bool
  errorClass : Option String
deriving DecidableEq

/-- What `serde_json` and `base64` do: they read back what they wrote. -/
structure Crates where
  /-- `serde_json::to_vec` of a fingerprint. -/
  fingerprintToVec : Fingerprint → List UInt8
  /-- `serde_json::to_vec` of an entry. -/
  toVec : CacheEntry → List UInt8
  /-- `serde_json::from_slice`. -/
  fromSlice : List UInt8 → Option CacheEntry
  /-- `STANDARD.encode`. -/
  encode : List UInt8 → String
  /-- `STANDARD.decode`. -/
  decode : String → Option (List UInt8)
  fromSlice_toVec : ∀ entry, fromSlice (toVec entry) = some entry
  decode_encode : ∀ bytes, decode (encode bytes) = some bytes

/-- What a process finds around it. -/
structure Surroundings where
  /-- `Path::canonicalize`. -/
  canonicalize : String → Option String
  /-- `std::env::vars`. -/
  vars : List (String × String)
  /-- `std::env::current_dir`. -/
  currentDir : Option String

/-- `command_environment`. -/
def commandEnvironment (around : Surroundings) (overrides : List (String × String)) :
    List (String × String) :=
  ((around.vars ++ overrides).foldl (fun env entry => env.insert entry.1 entry.2)
    (∅ : Table String String)).toList

/-- `execution_cwd`. -/
def executionCwd (around : Surroundings) (cwd : Option String) : Except String String :=
  match cwd with
  | some path => .ok path
  | none =>
    match around.currentDir with
    | some path => .ok path
    | none => .error "read current cwd"

/-- `ReadCoalescePlan`. -/
structure ReadCoalescePlan where
  cacheKey : String
  fingerprint : Fingerprint
  ttl : ℕ
  ttl_le : ttl ≤ maxTtl

section Plan

variable (crates : Crates)

/-- `digest_json`. -/
def digestJson (fingerprint : Fingerprint) : String :=
  String.ofList (Fnv.hex (Fnv.feed Fnv.basis (crates.fingerprintToVec fingerprint)))

/-- `format!("{CACHE_PREFIX}/{digest}")`. -/
def cacheKeyOf (fingerprint : Fingerprint) : String :=
  "exec-read-coalesce/" ++ digestJson crates fingerprint

/-- `ReadCoalescePlan::new`. -/
def ReadCoalescePlan.new (around : Surroundings) (opts : ReadCoalesceOptions) (program : String)
    (args : List String) (cwd : String) (env : List (String × String)) (timeout : Option ℕ) :
    ReadCoalescePlan :=
  let fingerprint : Fingerprint :=
    { callerKey := opts.key
      program := (around.canonicalize program).getD program
      args := args
      cwd := cwd
      env := env
      timeoutNanos := timeout }
  ⟨cacheKeyOf crates fingerprint, fingerprint, opts.ttl, opts.ttl_le⟩

/-- `coalesce_plan`. -/
def coalescePlan (around : Surroundings) (opts : Option ReadCoalesceOptions) (spec : CommandSpec) :
    Except String (Option ReadCoalescePlan) :=
  match opts with
  | none => .ok none
  | some opts =>
    if spec.stdin ≠ .null then .ok none
    else do
      let cwd ← executionCwd around spec.cwd
      let env := commandEnvironment around spec.env
      return some (.new crates around opts spec.program spec.args cwd env spec.timeout)

/-! ## Reading and writing entries -/

/-- `encode_text`. -/
def encodeText (value : String) : String := crates.encode (strBytes value)

/-- `decode_text`. -/
def decodeText (value : String) : Except String String :=
  match crates.decode value with
  | none => .error "decode read coalesce cache value"
  | some bytes => .ok (String.ofList (Utf8.lossy bytes))

theorem decodeText_encodeText (value : String) :
    decodeText crates (encodeText crates value) = .ok value := by
  have hbytes : crates.decode (encodeText crates value) = some (Utf8.encode value.toList) := by
    rw [encodeText, crates.decode_encode, strBytes_eq]
  simp only [decodeText, hbytes, Utf8.lossy_encode, String.ofList_toList]

/-- What `get` makes of the file it has read, if there is one. -/
def ReadCoalescePlan.get (plan : ReadCoalescePlan) (raw : Option (List UInt8)) (now : ℕ) :
    Except String (Option ExecResult) :=
  match raw with
  | none => .ok none
  | some raw =>
    match crates.fromSlice raw with
    | none => .ok none
    | some entry =>
      if entry.fingerprint ≠ plan.fingerprint then .ok none
      else if entry.expiresAtNanos ≤ now then .ok none
      else if entry.exitCode ≠ 0 then .ok none
      else do
        let stdout ← decodeText crates entry.stdoutB64
        let stderr ← decodeText crates entry.stderrB64
        return some ⟨stdout, stderr, entry.exitCode, entry.timedOut, entry.errorClass⟩

/-- The entry `put_success` makes. -/
def ReadCoalescePlan.entry (plan : ReadCoalescePlan) (output : ExecResult) (now : ℕ) : CacheEntry where
  fingerprint := plan.fingerprint
  expiresAtNanos := RatePool.u128SaturatingAdd now plan.ttl
  stdoutB64 := encodeText crates output.stdout
  stderrB64 := encodeText crates output.stderr
  exitCode := output.exitCode
  timedOut := output.timedOut
  errorClass := output.errorClass

end Plan

/-! ## Processes -/

/-- Where a process is in `run_spec_with_context`.  An execution has a number. -/
inductive Phase where
  /-- It is in no call. -/
  | idle
  /-- `get` is about to read the file. -/
  | looking (plan : ReadCoalescePlan)
  /-- `get` has read the file. -/
  | judging (plan : ReadCoalescePlan) (raw : Option (List UInt8))
  /-- `acquire_lock`. -/
  | locking (plan : ReadCoalescePlan)
  /-- `get`, under the lock. -/
  | relooking (plan : ReadCoalescePlan)
  /-- `get` has read the file, under the lock. -/
  | rejudging (plan : ReadCoalescePlan) (raw : Option (List UInt8))
  /-- `rate.acquire`. -/
  | paying (plan : ReadCoalescePlan)
  /-- `execute_spec`. -/
  | executing (plan : ReadCoalescePlan) (number : ℕ)
  /-- `put_success` is about to look at the output. -/
  | storing (plan : ReadCoalescePlan) (number : ℕ) (output : ExecResult)
  /-- `put_success` has written a file of its own and is about to rename it. -/
  | publishing (plan : ReadCoalescePlan) (number : ℕ) (output : ExecResult) (raw : List UInt8)

/-- The key whose lock a process has. -/
def Phase.holds : Phase → Option String
  | idle | looking _ | judging _ _ | locking _ => none
  | relooking plan | rejudging plan _ | paying plan | executing plan _ | storing plan _ _ |
    publishing plan _ _ _ => some plan.cacheKey

/-- An execution of a command: for which plan, whether the command runs, and when it finished and
with what. -/
structure Execution where
  fingerprint : Fingerprint
  ttl : ℕ
  running : Bool
  finished : Option (ℕ × ExecResult)
deriving DecidableEq

/-- All processes, what they share, and the executions there have been. -/
structure State where
  clock : ℕ
  files : String → Option (List UInt8)
  locks : Locks String ℕ
  phase : ℕ → Phase
  executions : List Execution

/-- At first there is no file. -/
def State.init : State := ⟨0, fun _ => none, Locks.none, fun _ => .idle, []⟩

/-- What can happen. -/
inductive Act where
  /-- Time passes. -/
  | tick (nanos : ℕ)
  /-- A process calls `run_spec_with_context`. -/
  | call (p : ℕ) (around : Surroundings) (opts : Option ReadCoalesceOptions) (spec : CommandSpec)
  /-- A process goes on.  If its command is running then it exits, with an output. -/
  | go (p : ℕ) (output : ExecResult)
  /-- A call fails, or its process dies.  A command it has started goes on. -/
  | stop (p : ℕ)
  /-- A command exits that no process is waiting for, or whose process has not noticed yet. -/
  | exits (number : ℕ)

/-- A result that came from a file. -/
structure Served where
  fingerprint : Fingerprint
  result : ExecResult
  time : ℕ
deriving DecidableEq

namespace State

/-- A process ends its call and closes the lock if it has it. -/
def leave (s : State) (p : ℕ) : State :=
  { s with
    phase := Function.update s.phase p .idle
    locks := match (s.phase p).holds with
      | some key => s.locks.drop key p
      | none => s.locks }

/-- A process comes to its next phase. -/
def enter (s : State) (p : ℕ) (phase : Phase) : State :=
  { s with phase := Function.update s.phase p phase }

/-- Something becomes of an execution. -/
def execution (s : State) (number : ℕ) (f : Execution → Execution) : State :=
  { s with executions := s.executions.modify number f }

/-- A process gets a lock. -/
def taken (s : State) (p : ℕ) (plan : ReadCoalescePlan) : State :=
  { s.enter p (.relooking plan) with locks := s.locks.take plan.cacheKey p }

/-- A process starts a command. -/
def started (s : State) (p : ℕ) (plan : ReadCoalescePlan) : State :=
  { s.enter p (.executing plan s.executions.length) with
    executions := s.executions ++ [⟨plan.fingerprint, plan.ttl, true, none⟩] }

/-- A process notices that its command has exited. -/
def exited (s : State) (p : ℕ) (plan : ReadCoalescePlan) (number : ℕ) (output : ExecResult) : State :=
  (s.execution number fun e =>
    { e with running := false, finished := some (s.clock, output) }).enter p
      (.storing plan number output)

/-- A process goes on. -/
def go (crates : Crates) (s : State) (p : ℕ) (output : ExecResult) : State × Option Served :=
  match s.phase p with
  | .idle => (s, none)
  | .looking plan => (s.enter p (.judging plan (s.files plan.cacheKey)), none)
  | .judging plan raw =>
    match plan.get crates raw s.clock with
    | .error _ => (s.leave p, none)
    | .ok (some result) => (s.leave p, some ⟨plan.fingerprint, result, s.clock⟩)
    | .ok none => (s.enter p (.locking plan), none)
  | .locking plan =>
    -- `flock` waits until nobody has the lock
    if s.locks plan.cacheKey = [] then (s.taken p plan, none) else (s, none)
  | .relooking plan => (s.enter p (.rejudging plan (s.files plan.cacheKey)), none)
  | .rejudging plan raw =>
    match plan.get crates raw s.clock with
    | .error _ => (s.leave p, none)
    | .ok (some result) => (s.leave p, some ⟨plan.fingerprint, result, s.clock⟩)
    | .ok none => (s.enter p (.paying plan), none)
  | .paying plan => (s.started p plan, none)
  | .executing plan number => (s.exited p plan number output, none)
  | .storing plan number output =>
    if output.exitCode ≠ 0 then (s.leave p, none)
    else (s.enter p (.publishing plan number output
      (crates.toVec (plan.entry crates output s.clock))), none)
  | .publishing plan _ _ raw =>
    ({ s.leave p with files := Function.update s.files plan.cacheKey (some raw) }, none)

/-- One thing happens. -/
def step (crates : Crates) (s : State) : Act → State × Option Served
  | .tick nanos => ({ s with clock := s.clock + nanos }, none)
  | .call p around opts spec =>
    match s.phase p, coalescePlan crates around opts spec with
    | .idle, .ok (some plan) => (s.enter p (.looking plan), none)
    | _, _ => (s, none)
  | .go p output => s.go crates p output
  | .stop p => (s.leave p, none)
  | .exits number =>
    (s.execution number fun e => { e with running := false }, none)

end State

/-- A run from the start: the state it comes to, and what was served from files. -/
def run (crates : Crates) (acts : List Act) : State × List Served :=
  Machine.run (State.step crates) .init acts

/-! ## What holds in every state -/

section Invariant

variable (crates : Crates) {s s' : State} {p q number : ℕ} {plan : ReadCoalescePlan} {t : ℕ}
  {output : ExecResult} {raw : List UInt8}

/-- An execution has finished. -/
def Finished (s : State) (number : ℕ) (plan : ReadCoalescePlan) (t : ℕ) (output : ExecResult) : Prop :=
  ∃ e, s.executions[number]? = some e ∧ e.fingerprint = plan.fingerprint ∧ e.ttl = plan.ttl ∧
    e.finished = some (t, output)

/-- An execution has not finished. -/
def Unfinished (s : State) (number : ℕ) (plan : ReadCoalescePlan) : Prop :=
  ∃ e, s.executions[number]? = some e ∧ e.fingerprint = plan.fingerprint ∧ e.ttl = plan.ttl ∧
    e.finished = none

/-- A file has an entry for the output of an execution that exited with zero, and it was made after
that and up to now. -/
def Genuine (s : State) (raw : List UInt8) : Prop :=
  ∃ number plan t output stamped, Finished s number plan t output ∧ output.exitCode = 0 ∧
    t ≤ stamped ∧ stamped ≤ s.clock ∧ raw = crates.toVec (plan.entry crates output stamped)

/-- The key of a plan is that of its fingerprint, and a process has its lock. -/
def Locked (s : State) (p : ℕ) (plan : ReadCoalescePlan) : Prop :=
  plan.cacheKey = cacheKeyOf crates plan.fingerprint ∧ p ∈ s.locks plan.cacheKey

/-- What holds of a process in each phase. -/
def PhaseOk (s : State) (p : ℕ) : Phase → Prop
  | .idle => True
  | .looking plan | .locking plan => plan.cacheKey = cacheKeyOf crates plan.fingerprint
  | .judging plan raw =>
    plan.cacheKey = cacheKeyOf crates plan.fingerprint ∧ ∀ r ∈ raw, Genuine crates s r
  | .relooking plan | .paying plan => Locked crates s p plan
  | .rejudging plan raw => Locked crates s p plan ∧ ∀ r ∈ raw, Genuine crates s r
  | .executing plan number => Locked crates s p plan ∧ Unfinished s number plan
  | .storing plan number output =>
    Locked crates s p plan ∧ ∃ t, t ≤ s.clock ∧ Finished s number plan t output
  | .publishing plan number output raw =>
    Locked crates s p plan ∧ output.exitCode = 0 ∧ (∃ t, Finished s number plan t output) ∧
      Genuine crates s raw

/-- What holds in every state. -/
structure Inv (s : State) : Prop where
  exclusive : s.locks.Exclusive
  files : ∀ key raw, s.files key = some raw → Genuine crates s raw
  phases : ∀ p, PhaseOk crates s p (s.phase p)
  attended : ∀ {p q plan plan' number}, s.phase p = .executing plan number →
    s.phase q = .executing plan' number → p = q

/-- What the steps of one process leave alone. -/
structure Extends (p : ℕ) (s s' : State) : Prop where
  clock : s.clock ≤ s'.clock
  finished : ∀ {number plan t output}, Finished s number plan t output →
    Finished s' number plan t output
  unfinished : ∀ {q plan number}, q ≠ p → s.phase q = .executing plan number →
    Unfinished s number plan → Unfinished s' number plan
  locks : ∀ {q key}, q ≠ p → q ∈ s.locks key → q ∈ s'.locks key
  phase : ∀ {q}, q ≠ p → s'.phase q = s.phase q

variable {crates}

theorem Genuine.mono (h : Genuine crates s raw) (hext : Extends p s s') : Genuine crates s' raw := by
  obtain ⟨number, plan, t, output, stamped, hfin, hexit, ht, hstamped, hraw⟩ := h
  exact ⟨number, plan, t, output, stamped, hext.finished hfin, hexit, ht,
    hstamped.trans hext.clock, hraw⟩

/-- Other processes do not notice. -/
theorem Extends.phaseOk (hext : Extends p s s') (hq : q ≠ p) (h : PhaseOk crates s q (s.phase q)) :
    PhaseOk crates s' q (s'.phase q) := by
  have hlocked : ∀ {plan}, Locked crates s q plan → Locked crates s' q plan :=
    fun h => ⟨h.1, hext.locks hq h.2⟩
  rw [hext.phase hq]
  cases hphase : s.phase q with
  | idle => trivial
  | looking plan => rwa [hphase] at h
  | locking plan => rwa [hphase] at h
  | judging plan raw =>
    rw [hphase] at h
    exact ⟨h.1, fun r hr => (h.2 r hr).mono hext⟩
  | relooking plan =>
    rw [hphase] at h
    exact hlocked h
  | paying plan =>
    rw [hphase] at h
    exact hlocked h
  | rejudging plan raw =>
    rw [hphase] at h
    exact ⟨hlocked h.1, fun r hr => (h.2 r hr).mono hext⟩
  | executing plan number =>
    rw [hphase] at h
    exact ⟨hlocked h.1, hext.unfinished hq hphase h.2⟩
  | storing plan number output =>
    rw [hphase] at h
    obtain ⟨hlock, t, ht, hfin⟩ := h
    exact ⟨hlocked hlock, t, ht.trans hext.clock, hext.finished hfin⟩
  | publishing plan number output raw =>
    rw [hphase] at h
    obtain ⟨hlock, hexit, ⟨t, hfin⟩, hgenuine⟩ := h
    exact ⟨hlocked hlock, hexit, ⟨t, hext.finished hfin⟩, hgenuine.mono hext⟩

/-- One process goes on, and the files stay as they are. -/
theorem Inv.extend (h : Inv crates s) (hext : Extends p s s') (hexclusive : s'.locks.Exclusive)
    (hfiles : ∀ key raw, s'.files key = some raw → Genuine crates s' raw)
    (hphase : PhaseOk crates s' p (s'.phase p))
    (hattended : ∀ {plan number}, s'.phase p = .executing plan number →
      ∀ {q plan'}, q ≠ p → s.phase q ≠ .executing plan' number) : Inv crates s' where
  exclusive := hexclusive
  files := hfiles
  phases q := by
    by_cases hq : q = p
    · subst hq
      exact hphase
    · exact hext.phaseOk hq (h.phases q)
  attended {q q' plan plan' number} hq hq' := by
    by_cases hqp : q = p <;> by_cases hqp' : q' = p
    · rw [hqp, hqp']
    · subst hqp
      rw [hext.phase hqp'] at hq'
      exact absurd hq' (hattended hq hqp')
    · subst hqp'
      rw [hext.phase hqp] at hq
      exact absurd hq (hattended hq' hqp)
    · rw [hext.phase hqp] at hq
      rw [hext.phase hqp'] at hq'
      exact h.attended hq hq'

/-! ## One step -/

theorem extends_enter (s : State) (p : ℕ) (phase : Phase) : Extends p s (s.enter p phase) where
  clock := Nat.le_refl _
  finished h := h
  unfinished _ _ h := h
  locks _ h := h
  phase hq := Function.update_of_ne hq _ _

theorem extends_leave (s : State) (p : ℕ) : Extends p s (s.leave p) where
  clock := Nat.le_refl _
  finished h := h
  unfinished _ _ h := h
  locks {q key} hq h := by
    cases hholds : (s.phase p).holds with
    | none => simpa only [State.leave, hholds] using h
    | some key' =>
      simp only [State.leave, hholds]
      exact Locks.mem_drop.2 ⟨h, fun heq => hq heq.2⟩
  phase hq := Function.update_of_ne hq _ _

/-- A phase in which no command runs. -/
def Phase.Quiet (phase : Phase) : Prop := ∀ plan number, phase ≠ .executing plan number

theorem Inv.enter (h : Inv crates s) {phase : Phase} (hquiet : phase.Quiet)
    (hphase : PhaseOk crates s p phase) : Inv crates (s.enter p phase) := by
  have hself : (s.enter p phase).phase p = phase := Function.update_self _ _ _
  refine h.extend (extends_enter s p phase) h.exclusive
    (fun key raw hfile => (h.files key raw hfile).mono (extends_enter s p phase)) ?_ ?_
  · rw [hself]
    cases phase <;> exact hphase
  · intro plan number hexec
    rw [hself] at hexec
    exact absurd hexec (hquiet plan number)

theorem Inv.leave (h : Inv crates s) (p : ℕ) : Inv crates (s.leave p) := by
  have hself : (s.leave p).phase p = .idle := Function.update_self _ _ _
  refine h.extend (extends_leave s p) ?_
    (fun key raw hfile => (h.files key raw hfile).mono (extends_leave s p)) ?_ ?_
  · simp only [State.leave]
    split
    · exact h.exclusive.drop _ _
    · exact h.exclusive
  · rw [hself]
    trivial
  · intro plan number hexec
    rw [hself] at hexec
    cases hexec

theorem extends_taken (hfree : s.locks plan.cacheKey = []) : Extends p s (s.taken p plan) := by
  refine ⟨Nat.le_refl _, fun h => h, fun _ _ h => h, fun {q key} _ hmem => ?_,
    fun hq => Function.update_of_ne hq _ _⟩
  rw [State.taken, Locks.mem_take]
  split
  · rename_i hkey
    rw [hkey, hfree] at hmem
    cases hmem
  · exact hmem

theorem Inv.taken (h : Inv crates s) (hphase : s.phase p = .locking plan)
    (hfree : s.locks plan.cacheKey = []) : Inv crates (s.taken p plan) := by
  have hext : Extends p s (s.taken p plan) := extends_taken hfree
  have hself : (s.taken p plan).phase p = .relooking plan := Function.update_self _ _ _
  have hkeyed : plan.cacheKey = cacheKeyOf crates plan.fingerprint := by
    have := h.phases p
    rwa [hphase] at this
  refine h.extend hext (h.exclusive.take _ _) (fun key raw hfile => (h.files key raw hfile).mono hext)
    ?_ ?_
  · rw [hself]
    exact ⟨hkeyed, Locks.mem_take.2 (by rw [if_pos rfl])⟩
  · intro plan' number hexec
    rw [hself] at hexec
    cases hexec

theorem extends_started (s : State) (p : ℕ) (plan : ReadCoalescePlan) :
    Extends p s (s.started p plan) := by
  have hget : ∀ {number : ℕ} {e : Execution}, s.executions[number]? = some e →
      (s.started p plan).executions[number]? = some e := by
    intro number e he
    rw [State.started, List.getElem?_append_left (List.getElem?_eq_some_iff.1 he).1, he]
  refine ⟨Nat.le_refl _, fun h => ?_, fun _ _ h => ?_, fun _ hmem => hmem,
    fun hq => Function.update_of_ne hq _ _⟩
  · obtain ⟨e, he, h⟩ := h
    exact ⟨e, hget he, h⟩
  · obtain ⟨e, he, h⟩ := h
    exact ⟨e, hget he, h⟩

theorem Inv.started (h : Inv crates s) (hphase : s.phase p = .paying plan) :
    Inv crates (s.started p plan) := by
  have hext := extends_started s p plan
  have hself : (s.started p plan).phase p = .executing plan s.executions.length :=
    Function.update_self _ _ _
  have hlocked : Locked crates s p plan := by
    have := h.phases p
    rwa [hphase] at this
  refine h.extend hext h.exclusive (fun key raw hfile => (h.files key raw hfile).mono hext) ?_ ?_
  · rw [hself]
    exact ⟨hlocked, _, List.getElem?_concat_length, rfl, rfl, rfl⟩
  · intro plan' number hexec q plan'' _ hq
    rw [hself] at hexec
    cases hexec
    -- the other execution has a number that was there before
    have hphaseq := h.phases q
    rw [hq] at hphaseq
    obtain ⟨_, e, he, _⟩ := hphaseq
    exact absurd (List.getElem?_eq_some_iff.1 he).1 (Nat.lt_irrefl _)

theorem State.exited_executions_of_ne {n : ℕ} (hn : n ≠ number) :
    (s.exited p plan number output).executions[n]? = s.executions[n]? :=
  List.getElem?_modify_ne _ s.executions (Ne.symm hn)

theorem Inv.extends_exited (h : Inv crates s) (hphase : s.phase p = .executing plan number)
    (output : ExecResult) : Extends p s (s.exited p plan number output) := by
  have hphasep := h.phases p
  rw [hphase] at hphasep
  obtain ⟨_, e₀, he₀, _, _, hnone⟩ := hphasep
  refine ⟨Nat.le_refl _, ?_, ?_, fun _ hmem => hmem, fun hq => Function.update_of_ne hq _ _⟩
  · rintro n plan' t' output' ⟨e, he, hrest⟩
    have hn : n ≠ number := by
      rintro rfl
      rw [he₀, Option.some_inj] at he
      rw [← he, hnone] at hrest
      cases hrest.2.2
    exact ⟨e, (State.exited_executions_of_ne hn).trans he, hrest⟩
  · rintro q plan' n hq hphaseq ⟨e, he, hrest⟩
    have hn : n ≠ number := by
      rintro rfl
      exact hq (h.attended hphaseq hphase)
    exact ⟨e, (State.exited_executions_of_ne hn).trans he, hrest⟩

theorem Inv.exited (h : Inv crates s) (hphase : s.phase p = .executing plan number)
    (output : ExecResult) : Inv crates (s.exited p plan number output) := by
  have hext := h.extends_exited hphase output
  have hphasep := h.phases p
  rw [hphase] at hphasep
  obtain ⟨hlocked, e₀, he₀, hfp, httl, _⟩ := hphasep
  have hself : (s.exited p plan number output).phase p = .storing plan number output :=
    Function.update_self _ _ _
  refine h.extend hext h.exclusive (fun key raw hfile => (h.files key raw hfile).mono hext) ?_ ?_
  · rw [hself]
    refine ⟨hlocked, s.clock, Nat.le_refl _,
      { e₀ with running := false, finished := some (s.clock, output) }, ?_, hfp, httl, rfl⟩
    show (s.executions.modify number _)[number]? = _
    rw [List.getElem?_modify_eq, he₀]
    rfl
  · intro plan' number' hexec
    rw [hself] at hexec
    cases hexec

/-- An entry comes to its place. -/
theorem Inv.publish (h : Inv crates s) (hphase : s.phase p = .publishing plan number output raw) :
    Inv crates { s.leave p with files := Function.update s.files plan.cacheKey (some raw) } := by
  have hphasep := h.phases p
  rw [hphase] at hphasep
  obtain ⟨_, _, _, hgenuine⟩ := hphasep
  have hleave := h.leave p
  refine ⟨hleave.exclusive, fun key raw' hfile => ?_, fun q => ?_, hleave.attended⟩
  · have hfile : Function.update s.files plan.cacheKey (some raw) key = some raw' := hfile
    by_cases hkey : key = plan.cacheKey
    · subst hkey
      rw [Function.update_self, Option.some_inj] at hfile
      rw [← hfile]
      exact hgenuine
    · rw [Function.update_of_ne hkey] at hfile
      exact h.files key raw' hfile
  · have := hleave.phases q
    cases hq : (s.leave p).phase q <;> rw [hq] at this <;> exact this

/-- Nothing happens but that time passes or that a command exits unnoticed. -/
theorem Inv.unnoticed (h : Inv crates s) (hfiles : s'.files = s.files) (hlocks : s'.locks = s.locks)
    (hphase : s'.phase = s.phase) (hext : ∀ p, Extends p s s') : Inv crates s' where
  exclusive := hlocks ▸ h.exclusive
  files key raw hfile := (h.files key raw (hfiles ▸ hfile)).mono (hext 0)
  phases q := (hext (q + 1)).phaseOk (Nat.ne_of_lt (Nat.lt_succ_self q)) (h.phases q)
  attended := by
    rw [hphase]
    exact h.attended

theorem extends_tick (s : State) (nanos p : ℕ) : Extends p s { s with clock := s.clock + nanos } where
  clock := Nat.le_add_right _ _
  finished h := h
  unfinished _ _ h := h
  locks _ h := h
  phase _ := rfl

theorem extends_exits (s : State) (number p : ℕ) :
    Extends p s (s.execution number fun e => { e with running := false }) := by
  have hget : ∀ {n : ℕ} {e : Execution}, s.executions[n]? = some e → ∃ e' : Execution,
      (s.executions.modify number fun e => { e with running := false })[n]? = some e' ∧
        e'.fingerprint = e.fingerprint ∧ e'.ttl = e.ttl ∧ e'.finished = e.finished := by
    intro n e he
    by_cases hn : number = n
    · subst hn
      refine ⟨{ e with running := false }, ?_, rfl, rfl, rfl⟩
      rw [List.getElem?_modify_eq, he]
      rfl
    · exact ⟨e, (List.getElem?_modify_ne _ s.executions hn).trans he, rfl, rfl, rfl⟩
  refine ⟨Nat.le_refl _, ?_, ?_, fun _ h => h, fun _ => rfl⟩
  · rintro n plan t output ⟨e, he, hfp, httl, hfin⟩
    obtain ⟨e', he', hfp', httl', hfin'⟩ := hget he
    exact ⟨e', he', hfp'.trans hfp, httl'.trans httl, hfin'.trans hfin⟩
  · rintro q plan n _ _ ⟨e, he, hfp, httl, hfin⟩
    obtain ⟨e', he', hfp', httl', hfin'⟩ := hget he
    exact ⟨e', he', hfp'.trans hfp, httl'.trans httl, hfin'.trans hfin⟩

/-- What comes from a file is the output of an execution for the same command, and the entry is not
older than the execution's time to live. -/
def ServedOk (s : State) (r : Served) : Prop :=
  ∃ (number : ℕ) (e : Execution) (t stamped : ℕ), s.executions[number]? = some e ∧
    e.fingerprint = r.fingerprint ∧ e.finished = some (t, r.result) ∧ r.result.exitCode = 0 ∧
    t ≤ stamped ∧ stamped ≤ r.time ∧ r.time < stamped + e.ttl ∧ e.ttl ≤ maxTtl

/-- **A hit is genuine.** -/
theorem servedOk_of_get {result : ExecResult} {file : Option (List UInt8)}
    (hfile : ∀ r ∈ file, Genuine crates s r) (hget : plan.get crates file s.clock = .ok (some result)) :
    ServedOk s ⟨plan.fingerprint, result, s.clock⟩ := by
  cases file with
  | none => simp [ReadCoalescePlan.get] at hget
  | some raw =>
    obtain ⟨number, plan', t, output, stamped, ⟨e, he, hfp, httl, hfin⟩, hexit, ht, hstamped, rfl⟩ :=
      hfile raw rfl
    simp only [ReadCoalescePlan.get, crates.fromSlice_toVec] at hget
    split at hget
    · simp at hget
    · rename_i hsame
      split at hget
      · simp at hget
      · rename_i hfresh
        rw [if_neg (by simpa [ReadCoalescePlan.entry] using hexit)] at hget
        have hresult : result = output := by
          have hstdout := decodeText_encodeText crates output.stdout
          have hstderr := decodeText_encodeText crates output.stderr
          simp only [ReadCoalescePlan.entry, hstdout, hstderr] at hget
          exact (Option.some.inj (Except.ok.inj hget)).symm
        subst hresult
        refine ⟨number, e, t, stamped, he, ?_, hfin, hexit, ht, hstamped, ?_, ?_⟩
        · rw [hfp]
          exact not_not.1 hsame
        · have hle : RatePool.u128SaturatingAdd stamped plan'.ttl ≤ stamped + plan'.ttl :=
            Nat.min_le_left _ _
          rw [httl]
          exact Nat.lt_of_lt_of_le (Nat.lt_of_not_le hfresh) hle
        · rw [httl]
          exact plan'.ttl_le

theorem ServedOk.mono {r : Served} (h : ServedOk s r)
    (hfin : ∀ {number plan t output}, Finished s number plan t output →
      Finished s' number plan t output) : ServedOk s' r := by
  obtain ⟨number, e, t, stamped, he, hfp, hfinished, hexit, ht, hle, hlt, httl⟩ := h
  have hbefore : Finished s number ⟨"", e.fingerprint, e.ttl, httl⟩ t r.result :=
    ⟨e, he, rfl, rfl, hfinished⟩
  obtain ⟨e', he', hfp', httl', hfinished'⟩ := hfin hbefore
  exact ⟨number, e', t, stamped, he', hfp'.trans hfp, hfinished', hexit, ht, hle, httl'.symm ▸ hlt,
    httl'.symm ▸ httl⟩

/-- What a step does: it keeps the invariant and all finished executions, and what it serves is
genuine. -/
structure StepOk (crates : Crates) (s : State) (result : State × Option Served) : Prop where
  inv : Inv crates result.1
  finished : ∀ {number plan t output}, Finished s number plan t output →
    Finished result.1 number plan t output
  served : ∀ r ∈ result.2, ServedOk s r

theorem Inv.stepOk (h : Inv crates s') (hext : Extends p s s') : StepOk crates s (s', none) where
  inv := h
  finished := hext.finished
  served r hr := by cases hr

/-- `get` in either place: an error or a hit ends the call, a miss goes on. -/
theorem Inv.judged (h : Inv crates s) {file : Option (List UInt8)} {next : Phase}
    (hfile : ∀ r ∈ file, Genuine crates s r) (hquiet : next.Quiet) (hnext : PhaseOk crates s p next) :
    StepOk crates s (match plan.get crates file s.clock with
      | .error _ => (s.leave p, none)
      | .ok (some result) => (s.leave p, some ⟨plan.fingerprint, result, s.clock⟩)
      | .ok none => (s.enter p next, none)) := by
  cases hget : plan.get crates file s.clock with
  | error e => exact (h.leave p).stepOk (extends_leave s p)
  | ok result =>
    cases result with
    | none => exact (h.enter hquiet hnext).stepOk (extends_enter s p next)
    | some result =>
      refine ⟨h.leave p, (extends_leave s p).finished, fun r hr => ?_⟩
      rw [← Option.mem_some.1 hr]
      exact servedOk_of_get hfile hget

theorem Inv.go (h : Inv crates s) (p : ℕ) (output : ExecResult) :
    StepOk crates s (s.go crates p output) := by
  have hphasep := h.phases p
  rw [State.go]
  cases hphase : s.phase p with
  | idle => exact ⟨h, fun h => h, fun r hr => by cases hr⟩
  | looking plan =>
    rw [hphase] at hphasep
    refine (h.enter ?_ ?_).stepOk (extends_enter s p _)
    · exact fun _ _ => Phase.noConfusion
    · exact ⟨hphasep, fun r hr => h.files plan.cacheKey r hr⟩
  | judging plan raw =>
    rw [hphase] at hphasep
    exact h.judged hphasep.2 (fun _ _ => Phase.noConfusion) hphasep.1
  | locking plan =>
    simp only
    split
    · rename_i hfree
      exact (h.taken hphase hfree).stepOk (extends_taken hfree)
    · exact ⟨h, fun h => h, fun r hr => by cases hr⟩
  | relooking plan =>
    rw [hphase] at hphasep
    refine (h.enter ?_ ?_).stepOk (extends_enter s p _)
    · exact fun _ _ => Phase.noConfusion
    · exact ⟨hphasep, fun r hr => h.files plan.cacheKey r hr⟩
  | rejudging plan raw =>
    rw [hphase] at hphasep
    exact h.judged hphasep.2 (fun _ _ => Phase.noConfusion) hphasep.1
  | paying plan => exact (h.started hphase).stepOk (extends_started s p plan)
  | executing plan number => exact (h.exited hphase output).stepOk (h.extends_exited hphase output)
  | storing plan number output =>
    rw [hphase] at hphasep
    obtain ⟨hlocked, t, ht, hfin⟩ := hphasep
    simp only
    split
    · exact (h.leave p).stepOk (extends_leave s p)
    · rename_i hexit
      refine (h.enter ?_ ?_).stepOk (extends_enter s p _)
      · exact fun _ _ => Phase.noConfusion
      · exact ⟨hlocked, not_not.1 hexit, ⟨t, hfin⟩, number, plan, t, output, s.clock, hfin,
          not_not.1 hexit, ht, Nat.le_refl _, rfl⟩
  | publishing plan number output raw =>
    exact ⟨h.publish hphase, fun h => h, fun r hr => by cases hr⟩

theorem coalescePlan_keyed {around : Surroundings} {opts : Option ReadCoalesceOptions}
    {spec : CommandSpec} (h : coalescePlan crates around opts spec = .ok (some plan)) :
    plan.cacheKey = cacheKeyOf crates plan.fingerprint := by
  cases opts with
  | none => simp [coalescePlan] at h
  | some opts =>
    simp only [coalescePlan] at h
    split at h
    · simp at h
    · cases hcwd : executionCwd around spec.cwd with
      | error e =>
        rw [hcwd] at h
        cases h
      | ok cwd =>
        rw [hcwd] at h
        cases h
        rfl

/-- **What one step preserves.** -/
theorem Inv.step (h : Inv crates s) (a : Act) : StepOk crates s (s.step crates a) := by
  cases a with
  | tick nanos =>
    have hext := extends_tick s nanos
    have hinv : Inv crates { s with clock := s.clock + nanos } := h.unnoticed rfl rfl rfl hext
    exact hinv.stepOk (hext 0)
  | call p around opts spec =>
    rw [State.step]
    split
    · rename_i plan _ hplan
      refine (h.enter ?_ ?_).stepOk (extends_enter s p _)
      · exact fun _ _ => Phase.noConfusion
      · exact coalescePlan_keyed hplan
    · exact ⟨h, fun h => h, fun r hr => by cases hr⟩
  | go p output => exact h.go p output
  | stop p => exact (h.leave p).stepOk (extends_leave s p)
  | exits number =>
    have hext := extends_exits s number
    have hinv : Inv crates (s.execution number fun e => { e with running := false }) :=
      h.unnoticed rfl rfl rfl hext
    exact hinv.stepOk (hext 0)

theorem inv_init : Inv crates .init where
  exclusive := Locks.exclusive_none
  files _ _ h := by cases h
  phases _ := trivial
  attended h := by cases h

/-- **What a run preserves.** -/
theorem inv_run (crates : Crates) (acts : List Act) :
    Inv crates (run crates acts).1 ∧ ∀ r ∈ (run crates acts).2, ServedOk (run crates acts).1 r := by
  have hstep : ∀ (s : State) (served : List Served) (a : Act),
      (Inv crates s ∧ ∀ r ∈ served, ServedOk s r) →
        Inv crates (s.step crates a).1 ∧
          ∀ r ∈ served ++ (s.step crates a).2.toList, ServedOk (s.step crates a).1 r := by
    rintro s served a ⟨hinv, hserved⟩
    have hstep := hinv.step a
    refine ⟨hstep.inv, fun r hr => ?_⟩
    rcases List.mem_append.1 hr with hr | hr
    · exact (hserved r hr).mono hstep.finished
    · exact (hstep.served r (Option.mem_toList.1 hr)).mono hstep.finished
  have hstart : Inv crates .init ∧ ∀ r ∈ ([] : List Served), ServedOk .init r :=
    ⟨inv_init, by simp⟩
  simpa [run] using Machine.run_induction hstep acts hstart

/-! ## Safety -/

/-- A process is waiting for the command of an execution. -/
def Attended (s : State) (number : ℕ) : Prop := ∃ p plan, s.phase p = .executing plan number

/-- Two executions of one command are not both attended. -/
theorem Inv.attended_unique (h : Inv crates s) {i j : ℕ} {e e' : Execution}
    (he : s.executions[i]? = some e) (he' : s.executions[j]? = some e')
    (hsame : e.fingerprint = e'.fingerprint) (hi : Attended s i) (hj : Attended s j) : i = j := by
  obtain ⟨p, plan, hp⟩ := hi
  obtain ⟨q, plan', hq⟩ := hj
  have hphasep := h.phases p
  have hphaseq := h.phases q
  rw [hp] at hphasep
  rw [hq] at hphaseq
  obtain ⟨⟨hkey, hlock⟩, e₁, he₁, hfp, _⟩ := hphasep
  obtain ⟨⟨hkey', hlock'⟩, e₂, he₂, hfp', _⟩ := hphaseq
  obtain rfl : e = e₁ := Option.some.inj (he.symm.trans he₁)
  obtain rfl : e' = e₂ := Option.some.inj (he'.symm.trans he₂)
  have hkeys : plan.cacheKey = plan'.cacheKey := by
    rw [hkey, hkey', ← hfp, ← hfp', hsame]
  obtain rfl := h.exclusive _ p q hlock (hkeys ▸ hlock')
  rw [hp] at hq
  cases hq
  rfl

/-- A file changes when a process publishes an output, and at no other time. -/
theorem files_step (a : Act) {key : String} (hne : (s.step crates a).1.files key ≠ s.files key) :
    ∃ p output' plan number output raw, a = .go p output' ∧
      s.phase p = .publishing plan number output raw ∧ plan.cacheKey = key := by
  cases a with
  | tick nanos => exact absurd rfl hne
  | call p around opts spec =>
    rw [State.step] at hne
    split at hne <;> exact absurd rfl hne
  | stop p => exact absurd rfl hne
  | exits number => exact absurd rfl hne
  | go p output' =>
    rw [State.step, State.go] at hne
    cases hphase : s.phase p with
    | publishing plan number output raw =>
      refine ⟨p, output', plan, number, output, raw, rfl, hphase, ?_⟩
      by_contra hkey
      simp only [hphase] at hne
      exact hne (Function.update_of_ne (Ne.symm hkey) _ _)
    | judging plan raw =>
      simp only [hphase] at hne
      split at hne <;> exact absurd rfl hne
    | rejudging plan raw =>
      simp only [hphase] at hne
      split at hne <;> exact absurd rfl hne
    | locking plan =>
      simp only [hphase] at hne
      split at hne <;> exact absurd rfl hne
    | storing plan number output =>
      simp only [hphase] at hne
      split at hne <;> exact absurd rfl hne
    | _ =>
      simp only [hphase] at hne
      exact absurd rfl hne

end Invariant

/-- **Read coalescing is safe.**  In every run, with any collisions of digests:

* what is served from a file is the output of an execution for the same fingerprint that exited with
  zero, and its entry was made, after it finished, less than its time to live ago;
* of two executions for one fingerprint, the process of at least one is gone;
* a file changes only when a process publishes the output of an execution that exited with zero. -/
theorem readCoalescing_safe (crates : Crates) (acts : List Act) :
    (∀ r ∈ (run crates acts).2, ServedOk (run crates acts).1 r) ∧
    (∀ {i j : ℕ} {e e' : Execution}, (run crates acts).1.executions[i]? = some e →
      (run crates acts).1.executions[j]? = some e' → e.fingerprint = e'.fingerprint →
      Attended (run crates acts).1 i → Attended (run crates acts).1 j → i = j) ∧
    ∀ (a : Act) (key : String),
      ((run crates acts).1.step crates a).1.files key ≠ (run crates acts).1.files key →
      ∃ p output' plan number output raw t, a = .go p output' ∧
        (run crates acts).1.phase p = .publishing plan number output raw ∧ plan.cacheKey = key ∧
        Finished (run crates acts).1 number plan t output ∧ output.exitCode = 0 := by
  obtain ⟨hinv, hserved⟩ := inv_run crates acts
  refine ⟨hserved, fun he he' hsame hi hj => hinv.attended_unique he he' hsame hi hj, ?_⟩
  intro a key hne
  obtain ⟨p, output', plan, number, output, raw, ha, hphase, hkey⟩ := files_step a hne
  have hphasep := hinv.phases p
  rw [hphase] at hphasep
  obtain ⟨_, hexit, ⟨t, hfin⟩, _⟩ := hphasep
  exact ⟨p, output', plan, number, output, raw, t, ha, hphase, hkey, hfin, hexit⟩

/-! ## What is not so -/

/-- A command. -/
def sampleSpec : CommandSpec := { program := "/bin/sh", args := ["-c", "true"], cwd := some "/" }

/-- The fingerprint of the command. -/
def sampleFingerprint : Fingerprint := ⟨"k", "/bin/sh", ["-c", "true"], "/", [], none⟩

/-- The output of the command. -/
def sampleOutput : ExecResult := ⟨"", "", 0, none, none⟩

/-- The entry made of it at 5. -/
def sampleEntry : CacheEntry := ⟨sampleFingerprint, 15, "", "", 0, none, none⟩

/-- The fingerprint in JSON. -/
def sampleFingerprintJson : String :=
  "\x7b\"caller_key\":\"k\",\"program\":\"/bin/sh\",\"args\":[\"-c\",\"true\"],\"cwd\":\"/\"," ++
    "\"env\":\x7b\x7d,\"timeout_nanos\":null\x7d"

/-- The entry in JSON. -/
def sampleEntryJson : String :=
  "\x7b\"fingerprint\":" ++ sampleFingerprintJson ++ ",\"expires_at_nanos\":15,\"stdout_b64\":\"\"," ++
    "\"stderr_b64\":\"\",\"exit_code\":0,\"timed_out\":null,\"error_class\":null\x7d"

instance : Countable CacheEntry := by
  have hchar : Countable Char := Function.Injective.countable fun _ _ => Char.toNat_inj.1
  have hstring : Countable String := Function.Injective.countable fun _ _ => String.toList_inj.1
  have hfingerprint : Countable Fingerprint := by
    have hinj : Function.Injective fun x : Fingerprint =>
        (x.callerKey, x.program, x.args, x.cwd, x.env, x.timeoutNanos) := by
      rintro ⟨⟩ ⟨⟩ h
      simpa using h
    exact hinj.countable
  have hinj : Function.Injective fun x : CacheEntry =>
      (x.fingerprint, x.expiresAtNanos, x.stdoutB64, x.stderrB64, x.exitCode, x.timedOut,
        x.errorClass) := by
    rintro ⟨⟩ ⟨⟩ h
    simpa using h
  exact hinj.countable

/-- `serde_json` at the fingerprint and the entry above and `base64` at no bytes; whatever else they
are given they write in some way that can be read back. -/
noncomputable def sampleCrates : Crates where
  fingerprintToVec fingerprint :=
    if fingerprint = sampleFingerprint then strBytes sampleFingerprintJson else []
  toVec entry :=
    if entry = sampleEntry then strBytes sampleEntryJson
    else List.replicate ((exists_injective_nat CacheEntry).choose entry) 0
  fromSlice raw :=
    if raw = strBytes sampleEntryJson then some sampleEntry
    else Function.partialInv (exists_injective_nat CacheEntry).choose raw.length
  encode bytes := String.ofList (bytes.map fun b => Char.ofNat b.toNat)
  decode text := some (text.toList.map fun c => UInt8.ofNat c.toNat)
  fromSlice_toVec entry := by
    have hjson : ∀ n, List.replicate n 0 ≠ strBytes sampleEntryJson := by
      intro n h
      have hmem : (123 : UInt8) ∈ List.replicate n 0 := h ▸ (by decide)
      exact absurd (List.eq_of_mem_replicate hmem) (by decide)
    by_cases h : entry = sampleEntry
    · rw [if_pos h, if_pos rfl, h]
    · rw [if_neg h, if_neg (hjson _), List.length_replicate,
        Function.partialInv_left (exists_injective_nat CacheEntry).choose_spec]
  decode_encode bytes := by
    have hbyte : ∀ b : UInt8, UInt8.ofNat (Char.ofNat b.toNat).toNat = b :=
      forall_byte (by decide +kernel)
    simp [Function.comp_def, hbyte]

/-- A process calls with the command and a time to live of 10. -/
def sampleCall (p : ℕ) : Act :=
  .call p ⟨fun _ => none, [], none⟩ (some ⟨"k", 10, by decide⟩) sampleSpec

/-- A process goes on. -/
def sampleGo (p : ℕ) : Act := .go p sampleOutput

/-- A command exits at 0, and its entry is made at 5; another process reads it at 12. -/
def lateActs : List Act :=
  sampleCall 0 :: List.replicate 7 (sampleGo 0) ++ .tick 5 :: List.replicate 2 (sampleGo 0) ++
    .tick 7 :: sampleCall 1 :: List.replicate 2 (sampleGo 1)

/-- A process dies while its command is running; another one starts the command again. -/
def orphanActs : List Act :=
  sampleCall 0 :: List.replicate 6 (sampleGo 0) ++ .stop 0 :: sampleCall 1 ::
    List.replicate 6 (sampleGo 1)

theorem run_lateActs : (run sampleCrates lateActs).2 = [⟨sampleFingerprint, sampleOutput, 12⟩] ∧
    (run sampleCrates lateActs).1.executions =
      [⟨sampleFingerprint, 10, false, some (0, sampleOutput)⟩] := by
  constructor
  · decide +kernel
  · decide +kernel

theorem run_orphanActs : (run sampleCrates orphanActs).1.executions =
    [⟨sampleFingerprint, 10, true, none⟩, ⟨sampleFingerprint, 10, true, none⟩] := by
  decide +kernel

/-- A result is served although its execution finished its time to live ago, and the command of one
fingerprint runs twice at the same time. -/
theorem readCoalescing_late_and_orphaned :
    (¬ ∀ r ∈ (run sampleCrates lateActs).2, ∃ e ∈ (run sampleCrates lateActs).1.executions,
      ∃ t, e.fingerprint = r.fingerprint ∧ e.finished = some (t, r.result) ∧ r.time < t + e.ttl) ∧
    ∃ e e', (run sampleCrates orphanActs).1.executions = [e, e'] ∧
      e.fingerprint = e'.fingerprint ∧ e.running = true ∧ e'.running = true := by
  constructor
  · rw [run_lateActs.1, run_lateActs.2]
    intro h
    obtain ⟨e, he, t, _, hfin, hlt⟩ := h _ List.mem_cons_self
    rw [List.mem_singleton.1 he] at hfin hlt
    cases hfin
    exact absurd hlt (by decide)
  · exact ⟨_, _, run_orphanActs, rfl, rfl, rfl⟩

end Fkst.ReadCoalesce
