import Mathlib.Algebra.Group.Int.Defs
import Mathlib.Algebra.GroupWithZero.Nat
import Mathlib.Data.List.Lattice
import Mathlib.Data.List.Sort
import Fkst.Json
import Fkst.Lib.Checks
import Fkst.Lib.Replace

/-!
# Cassettes of commands

`external_command.rs`: a test runs its commands with mocks, and those that no mock answers with a cassette
(`with_command_cassette`).  A cassette records what is run, or it replays what was recorded.  What is
written down is redacted first, and so is what is compared with it.

`cassette_spec` says that a replay answers what was recorded, that it refuses what was not without a trace,
and which texts stay out of the file.  A redaction replaces one text after the other, so a replacement can
make up a text that was replaced before (`redaction_joins`).
-/

set_option autoImplicit false

namespace Fkst

open Lib
open Lib.Replace (replaceEach Meets not_meets_of_disjoint not_infix_replaceEach)

namespace Cassette

/-! ## Data -/

/-- `MockCommandResult`. -/
structure MockCommandResult where
  stdout : String
  stderr : String
  exitCode : Int32
deriving DecidableEq

/-- `MockCommandInvocation`. -/
structure MockCommandInvocation where
  rendered : String
  program : String
  args : List String
  stdin : String
  cwd : Option String
  env : List (String × String)
deriving DecidableEq

/-- `MockCommandCall`. -/
structure MockCommandCall extends MockCommandInvocation, MockCommandResult
deriving DecidableEq

/-- `MockCommand`. -/
structure MockCommand where
  pattern : String
  result : MockCommandResult
deriving DecidableEq

/-- `CommandCassetteRedaction`. -/
structure CommandCassetteRedaction where
  value : String
  replacement : String
deriving DecidableEq

/-- `CommandCassetteMode`. -/
inductive CommandCassetteMode where
  | replay
  | record
deriving DecidableEq

/-- The path of a file, from its root. -/
abbrev Path := List String

/-- `CommandCassetteOptions`. -/
structure CommandCassetteOptions where
  path : Path
  mode : CommandCassetteMode
  redactions : List CommandCassetteRedaction
deriving DecidableEq

/-- `CommandCassetteEnv`. -/
structure CommandCassetteEnv where
  key : String
  value : String
deriving DecidableEq

/-- `CommandCassetteEntry`. -/
structure CommandCassetteEntry where
  rendered : String
  program : String
  args : List String
  stdin : String
  cwd : Option String
  env : List CommandCassetteEnv
  stdout : String
  stderr : String
  exitCode : Int32
deriving DecidableEq

/-- `CommandCassetteFile`. -/
structure CommandCassetteFile where
  schema : String
  entries : List CommandCassetteEntry
deriving DecidableEq

/-- `ActiveCommandCassette`. -/
structure ActiveCommandCassette where
  path : Path
  mode : CommandCassetteMode
  redactions : List CommandCassetteRedaction
  entries : List CommandCassetteEntry
  cursor : ℕ
deriving DecidableEq

/-- `MockCommandInner`. -/
structure MockCommandInner where
  mocks : List MockCommand
  calls : List MockCommandCall
  cassette : Option ActiveCommandCassette
deriving DecidableEq

/-- `MockCommandPlan`. -/
inductive MockCommandPlan where
  | return (result : MockCommandResult)
  | record
deriving DecidableEq

/-! ## Redaction -/

/-- `redact`. -/
def redact (redactions : List CommandCassetteRedaction) (value : String) : String :=
  String.ofList (replaceEach (redactions.map fun r => (r.value.toList, r.replacement.toList)) value.toList)

/-- The order of the environment in an entry. -/
def CommandCassetteEnv.le (a b : CommandCassetteEnv) : Prop := a.key < b.key ∨ a.key = b.key ∧ a.value ≤ b.value

instance : DecidableRel CommandCassetteEnv.le := fun _ _ => inferInstanceAs (Decidable (_ ∨ _))

/-- `sanitized_entry_for`. -/
def sanitizedEntryFor (redactions : List CommandCassetteRedaction) (invocation : MockCommandInvocation)
    (result : Option MockCommandResult) : CommandCassetteEntry where
  rendered := redact redactions invocation.rendered
  program := redact redactions invocation.program
  args := invocation.args.map (redact redactions)
  stdin := redact redactions invocation.stdin
  cwd := invocation.cwd.map (redact redactions)
  env := (invocation.env.map fun entry =>
    (⟨redact redactions entry.1, redact redactions entry.2⟩ : CommandCassetteEnv)).insertionSort
      CommandCassetteEnv.le
  stdout := (result.map fun result => redact redactions result.stdout).getD ""
  stderr := (result.map fun result => redact redactions result.stderr).getD ""
  exitCode := (result.map fun result => result.exitCode).getD 0

/-- `same_command_boundary`. -/
def sameCommandBoundary (expected actual : CommandCassetteEntry) : Bool :=
  expected.rendered = actual.rendered ∧ expected.program = actual.program ∧ expected.args = actual.args ∧
    expected.stdin = actual.stdin ∧ expected.cwd = actual.cwd ∧ expected.env = actual.env

/-! ## The file -/

/-- The files, as the documents in them, or what is wrong with them. -/
abbrev Files := Path → Except String Json

section Json

/-- A field that is left out if there is none. -/
def insertSome (fields : JsonFields) (key : String) : Option Json → JsonFields
  | none => fields
  | some value => fields.insert key value

/-- A number of 32 bits. -/
def int32Json (n : Int32) : Json :=
  .number (if 0 ≤ n.toInt then .posInt (UInt64.ofNat n.toInt.toNat) else .negInt n.toInt)

def asInt32 : Json → Option Int32
  | .number (.posInt n) => if n.toNat < 2 ^ 31 then some (Int32.ofInt n.toNat) else none
  | .number (.negInt n) => if -2 ^ 31 ≤ n then some (Int32.ofInt n) else none
  | _ => none

def stringsJson (values : List String) : Json := .array (.ofList (values.map .string))

def asStrings (value : Json) : Option (List String) := do
  let items ← value.asArray
  items.mapM Json.asStr

/-- `Serialize` of `CommandCassetteEnv`. -/
def CommandCassetteEnv.toJson (env : CommandCassetteEnv) : Json :=
  .object ((JsonFields.nil.insert "key" (.string env.key)).insert "value" (.string env.value))

/-- `Deserialize` of `CommandCassetteEnv`. -/
def CommandCassetteEnv.ofJson (value : Json) : Option CommandCassetteEnv := do
  let key ← (value.get "key").bind Json.asStr
  let value ← (value.get "value").bind Json.asStr
  return ⟨key, value⟩

/-- `Serialize` of `CommandCassetteEntry`. -/
def CommandCassetteEntry.toJson (entry : CommandCassetteEntry) : Json :=
  let fields := JsonFields.nil.insert "rendered" (.string entry.rendered)
  let fields := fields.insert "program" (.string entry.program)
  let fields := fields.insert "args" (stringsJson entry.args)
  let fields := fields.insert "stdin" (.string entry.stdin)
  let fields := insertSome fields "cwd" (entry.cwd.map .string)
  let fields := insertSome fields "env"
    (if entry.env = [] then none else some (.array (.ofList (entry.env.map CommandCassetteEnv.toJson))))
  let fields := fields.insert "stdout" (.string entry.stdout)
  let fields := fields.insert "stderr" (.string entry.stderr)
  .object (fields.insert "exit_code" (int32Json entry.exitCode))

/-- An optional text, which may be null. -/
def optionalStr : Option Json → Option (Option String)
  | none => some none
  | some .null => some none
  | some value => value.asStr.map some

/-- The environment of an entry, which may be left out. -/
def envOfJson : Option Json → Option (List CommandCassetteEnv)
  | none => some []
  | some value => value.asArray.bind fun items => items.mapM CommandCassetteEnv.ofJson

/-- `Deserialize` of `CommandCassetteEntry`. -/
def CommandCassetteEntry.ofJson (value : Json) : Option CommandCassetteEntry := do
  let rendered ← (value.get "rendered").bind Json.asStr
  let program ← (value.get "program").bind Json.asStr
  let args ← (value.get "args").bind asStrings
  let stdin ← (value.get "stdin").bind Json.asStr
  let cwd ← optionalStr (value.get "cwd")
  let env ← envOfJson (value.get "env")
  let stdout ← (value.get "stdout").bind Json.asStr
  let stderr ← (value.get "stderr").bind Json.asStr
  let exitCode ← (value.get "exit_code").bind asInt32
  return ⟨rendered, program, args, stdin, cwd, env, stdout, stderr, exitCode⟩

/-- `Serialize` of `CommandCassetteFile`. -/
def CommandCassetteFile.toJson (file : CommandCassetteFile) : Json :=
  .object ((JsonFields.nil.insert "schema" (.string file.schema)).insert "entries"
    (.array (.ofList (file.entries.map CommandCassetteEntry.toJson))))

/-- `Deserialize` of `CommandCassetteFile`. -/
def CommandCassetteFile.ofJson (value : Json) : Option CommandCassetteFile := do
  let schema ← (value.get "schema").bind Json.asStr
  let items ← (value.get "entries").bind Json.asArray
  let entries ← items.mapM CommandCassetteEntry.ofJson
  return ⟨schema, entries⟩

end Json

/-- The schema of a cassette. -/
def schema : String := "fkst.test.command-cassette.v1"

/-- `read_cassette_entries`. -/
def readCassetteEntries (files : Files) (path : Path) : Except String (List CommandCassetteEntry) := do
  let data ← files path
  match CommandCassetteFile.ofJson data with
  | none => throw "parse VCR command cassette"
  | some file =>
    if file.schema ≠ schema then
      throw ("unsupported VCR command cassette schema '" ++ file.schema ++ "'")
    else return file.entries

/-- The last name of a path. -/
def fileName (path : Path) : Option String := path.getLast?.filter (· ≠ "..")

/-- `write_cassette_entries`. -/
def writeCassetteEntries (files : Files) (path : Path) (entries : List CommandCassetteEntry) :
    Except String Files :=
  match fileName path with
  | none => .error "VCR command cassette path has no file name"
  | some _ => .ok fun path' =>
    if path' = path then .ok (CommandCassetteFile.toJson ⟨schema, entries⟩) else files path'

/-! ## Commands -/

/-- `call_from_invocation`. -/
def callFromInvocation (invocation : MockCommandInvocation) (result : MockCommandResult) :
    MockCommandCall :=
  { invocation with stdout := result.stdout, stderr := result.stderr, exitCode := result.exitCode }

/-- The pattern of a mock is in a command. -/
def MockCommand.Matches (rendered : String) (mock : MockCommand) : Prop :=
  mock.pattern.toList <+: rendered.toList ∨ mock.pattern.toList <:+: rendered.toList

instance (rendered : String) : DecidablePred (MockCommand.Matches rendered) := fun _ =>
  inferInstanceAs (Decidable (_ ∨ _))

/-- `consume_matching_mock`. -/
def consumeMatchingMock (inner : MockCommandInner) (invocation : MockCommandInvocation) :
    Option (MockCommandResult × MockCommandInner) :=
  (inner.mocks.find? (MockCommand.Matches invocation.rendered ·)).map fun mock =>
    (mock.result, { inner with
      mocks := inner.mocks.eraseP (MockCommand.Matches invocation.rendered ·)
      calls := inner.calls ++ [callFromInvocation invocation mock.result] })

/-- `prepare` with a cassette that replays. -/
def prepareReplay (inner : MockCommandInner) (cassette : ActiveCommandCassette)
    (invocation : MockCommandInvocation) : Except String MockCommandPlan × MockCommandInner :=
  let actual := sanitizedEntryFor cassette.redactions invocation none
  match cassette.entries[cassette.cursor]? with
  | none => (.error ("VCR replay exhausted for external command: " ++ invocation.rendered), inner)
  | some expected =>
    if ¬ sameCommandBoundary expected actual then
      (.error ("VCR replay mismatch at entry " ++ toString (cassette.cursor + 1) ++ ": expected " ++
        expected.rendered ++ ", got " ++ actual.rendered), inner)
    else
      let result : MockCommandResult := ⟨expected.stdout, expected.stderr, expected.exitCode⟩
      (.ok (.return result), { inner with
        cassette := some { cassette with cursor := cassette.cursor + 1 }
        calls := inner.calls ++ [callFromInvocation invocation result] })

/-- `prepare`. -/
def prepare (inner : MockCommandInner) (invocation : MockCommandInvocation) :
    Except String MockCommandPlan × MockCommandInner :=
  match consumeMatchingMock inner invocation with
  | some (result, inner) => (.ok (.return result), inner)
  | none =>
    match inner.cassette with
    | none => (.error ("unmocked external command: " ++ invocation.rendered), inner)
    | some cassette =>
      match cassette.mode with
      | .replay => prepareReplay inner cassette invocation
      | .record => (.ok .record, inner)

/-- `record`. -/
def record (inner : MockCommandInner) (invocation : MockCommandInvocation) (result : MockCommandResult) :
    Except String Unit × MockCommandInner :=
  match inner.cassette with
  | none => (.error "no active VCR cassette for external command record", inner)
  | some cassette =>
    if cassette.mode ≠ .record then (.error "active VCR cassette is not in record mode", inner)
    else
      let entry := sanitizedEntryFor cassette.redactions invocation (some result)
      (.ok (), { inner with
        cassette := some { cassette with entries := cassette.entries ++ [entry] }
        calls := inner.calls ++ [callFromInvocation invocation result] })

/-- `start_cassette`. -/
def startCassette (files : Files) (inner : MockCommandInner) (opts : CommandCassetteOptions) :
    Except String MockCommandInner :=
  if inner.cassette.isSome then .error "nested VCR command cassettes are not supported"
  else do
    let entries ← match opts.mode with
      | .replay => readCassetteEntries files opts.path
      | .record => .ok []
    return { inner with cassette := some ⟨opts.path, opts.mode, opts.redactions, entries, 0⟩ }

/-- `finish_cassette`, which takes the cassette out in any case. -/
def finishCassette (files : Files) (inner : MockCommandInner) :
    Except String Files × MockCommandInner :=
  match inner.cassette with
  | none => (.error "no active VCR command cassette", inner)
  | some cassette =>
    match cassette.mode with
    | .replay =>
      if cassette.cursor ≠ cassette.entries.length then
        (.error ("VCR replay left " ++ toString (cassette.entries.length - cassette.cursor) ++
          " unused cassette entries"), { inner with cassette := none })
      else (.ok files, { inner with cassette := none })
    | .record => (writeCassetteEntries files cassette.path cassette.entries, { inner with cassette := none })

/-- One command of a test: what it answers.  It is run if it has to be recorded, and then it has the
result `live`. -/
def runSpec (inner : MockCommandInner) (invocation : MockCommandInvocation) (live : MockCommandResult) :
    Except String MockCommandResult × MockCommandInner :=
  match prepare inner invocation with
  | (.error err, inner) => (.error err, inner)
  | (.ok (.return result), inner) => (.ok result, inner)
  | (.ok .record, inner) =>
    match record inner invocation live with
    | (.error err, inner) => (.error err, inner)
    | (.ok (), inner) => (.ok live, inner)

/-- The commands of a test up to the first that fails. -/
def runSession (inner : MockCommandInner) :
    List (MockCommandInvocation × MockCommandResult) → Except String (List MockCommandResult) × MockCommandInner
  | [] => (.ok [], inner)
  | (invocation, live) :: session =>
    match runSpec inner invocation live with
    | (.error err, inner) => (.error err, inner)
    | (.ok result, inner) =>
      match runSession inner session with
      | (.error err, inner) => (.error err, inner)
      | (.ok results, inner) => (.ok (result :: results), inner)

/-- `with_command_cassette`. -/
def withCommandCassette (files : Files) (inner : MockCommandInner) (opts : CommandCassetteOptions)
    (session : List (MockCommandInvocation × MockCommandResult)) :
    Except String (List MockCommandResult × Files) × MockCommandInner :=
  match startCassette files inner opts with
  | .error err => (.error err, inner)
  | .ok inner =>
    match runSession inner session with
    | (.error err, inner) => (.error err, { inner with cassette := none })
    | (.ok results, inner) =>
      match finishCassette files inner with
      | (.error err, inner) => (.error err, inner)
      | (.ok files, inner) => (.ok (results, files), inner)

/-! ## The file keeps what is written -/

section Json

theorem get_insertSome (fields : JsonFields) (key : String) (value : Option Json) (key' : String) :
    (insertSome fields key value).get key' = if key = key' then value.or (fields.get key') else fields.get key' := by
  cases value with
  | none => simp [insertSome]
  | some value => rw [insertSome, JsonFields.get_insert, Option.some_or]

theorem asInt32_int32Json (n : Int32) : asInt32 (int32Json n) = some n := by
  have hlt := n.toInt_lt
  have hge := n.le_toInt
  rw [int32Json]
  split
  · rename_i hpos
    have hnat : n.toInt.toNat < 2 ^ 31 := by omega
    have hround : (UInt64.ofNat n.toInt.toNat).toNat = n.toInt.toNat :=
      UInt64.toNat_ofNat_of_lt' (lt_trans hnat (by decide))
    rw [asInt32, hround, if_pos hnat, Int.toNat_of_nonneg hpos, Int32.ofInt_toInt]
  · rw [asInt32, if_pos hge, Int32.ofInt_toInt]

theorem mapM_map_eq_some {α β : Type} {f : α → β} {g : β → Option α} (h : ∀ a, g (f a) = some a) :
    ∀ l : List α, (l.map f).mapM g = some l
  | [] => rfl
  | a :: l => by
    rw [List.map_cons, List.mapM_cons, h, mapM_map_eq_some h l]
    rfl

theorem asStrings_stringsJson (values : List String) : asStrings (stringsJson values) = some values := by
  rw [stringsJson, asStrings, Json.asArray, JsonItems.toList_ofList]
  exact mapM_map_eq_some (f := Json.string) (g := Json.asStr) (fun _ => rfl) values

theorem ofJson_env (env : CommandCassetteEnv) : CommandCassetteEnv.ofJson env.toJson = some env := by
  simp [CommandCassetteEnv.toJson, CommandCassetteEnv.ofJson, Json.get, JsonFields.get_insert, Json.asStr]

theorem ofJson_entry (entry : CommandCassetteEntry) :
    CommandCassetteEntry.ofJson entry.toJson = some entry := by
  have hcwd : optionalStr (entry.cwd.map .string) = some entry.cwd := by
    cases entry.cwd <;> rfl
  have henv : envOfJson (if entry.env = [] then none else
      some (.array (.ofList (entry.env.map CommandCassetteEnv.toJson)))) = some entry.env := by
    split
    · rename_i hnil
      rw [hnil]
      rfl
    · rw [envOfJson, Json.asArray, JsonItems.toList_ofList, Option.bind_some]
      exact mapM_map_eq_some ofJson_env entry.env
  simp only [CommandCassetteEntry.toJson, CommandCassetteEntry.ofJson, Json.get, JsonFields.get_insert,
    get_insertSome]
  simp [Json.asStr, asStrings_stringsJson, asInt32_int32Json, hcwd, henv, JsonFields.get]

theorem ofJson_file (file : CommandCassetteFile) : CommandCassetteFile.ofJson file.toJson = some file := by
  simp only [CommandCassetteFile.toJson, CommandCassetteFile.ofJson, Json.get, JsonFields.get_insert]
  simp [Json.asStr, Json.asArray, JsonItems.toList_ofList, mapM_map_eq_some ofJson_entry]

end Json

/-- What is written is what is read again. -/
theorem read_of_write {files files' : Files} {path : Path} {entries : List CommandCassetteEntry}
    (h : writeCassetteEntries files path entries = .ok files') :
    readCassetteEntries files' path = .ok entries := by
  rw [writeCassetteEntries] at h
  split at h
  · cases h
  · obtain rfl := Except.ok.inj h
    show (if path = path then _ else files path) >>= _ = _
    rw [if_pos rfl]
    show (match CommandCassetteFile.ofJson _ with | none => _ | some file => _) = _
    rw [ofJson_file]
    rfl

/-! ## Sessions -/

/-- The result as it is written down. -/
def redactResult (redactions : List CommandCassetteRedaction) (result : MockCommandResult) :
    MockCommandResult :=
  ⟨redact redactions result.stdout, redact redactions result.stderr, result.exitCode⟩

/-- **What the commands of a session answer**: what the next mock says that matches, or what becomes of
their results. -/
def answers (become : MockCommandResult → MockCommandResult) (mocks : List MockCommand) :
    List (MockCommandInvocation × MockCommandResult) → List MockCommandResult
  | [] => []
  | (invocation, live) :: session =>
    match mocks.find? (MockCommand.Matches invocation.rendered ·) with
    | some mock =>
      mock.result :: answers become (mocks.eraseP (MockCommand.Matches invocation.rendered ·)) session
    | none => become live :: answers become mocks session

/-- The entries that a session leaves in a cassette. -/
def recordedEntries (redactions : List CommandCassetteRedaction) (mocks : List MockCommand) :
    List (MockCommandInvocation × MockCommandResult) → List CommandCassetteEntry
  | [] => []
  | (invocation, live) :: session =>
    match mocks.find? (MockCommand.Matches invocation.rendered ·) with
    | some _ => recordedEntries redactions (mocks.eraseP (MockCommand.Matches invocation.rendered ·)) session
    | none =>
      sanitizedEntryFor redactions invocation (some live) :: recordedEntries redactions mocks session

section Sessions

variable {redactions : List CommandCassetteRedaction} {path : Path} {mocks : List MockCommand}
  {calls : List MockCommandCall} {entries : List CommandCassetteEntry}

/-- A command with a mock is answered by it. -/
theorem runSpec_mock {inner : MockCommandInner} {invocation : MockCommandInvocation}
    {live : MockCommandResult} {mock : MockCommand}
    (hmock : inner.mocks.find? (MockCommand.Matches invocation.rendered ·) = some mock) :
    runSpec inner invocation live = (.ok mock.result, { inner with
      mocks := inner.mocks.eraseP (MockCommand.Matches invocation.rendered ·)
      calls := inner.calls ++ [callFromInvocation invocation mock.result] }) := by
  rw [runSpec, prepare, consumeMatchingMock, hmock]
  rfl

/-- A command without a mock is up to the cassette. -/
theorem prepare_of_none {inner : MockCommandInner} {invocation : MockCommandInvocation}
    {cassette : ActiveCommandCassette}
    (hmock : inner.mocks.find? (MockCommand.Matches invocation.rendered ·) = none)
    (hcassette : inner.cassette = some cassette) :
    prepare inner invocation = match cassette.mode with
      | .replay => prepareReplay inner cassette invocation
      | .record => (.ok .record, inner) := by
  rw [prepare, consumeMatchingMock, hmock, Option.map_none]
  simp only [hcassette]

/-- The next entry answers a command that it was recorded from. -/
theorem prepareReplay_same {inner : MockCommandInner} {cassette : ActiveCommandCassette}
    {invocation : MockCommandInvocation} {expected : CommandCassetteEntry}
    (hentry : cassette.entries[cassette.cursor]? = some expected)
    (hsame : sameCommandBoundary expected (sanitizedEntryFor cassette.redactions invocation none) = true) :
    prepareReplay inner cassette invocation =
      (.ok (.return ⟨expected.stdout, expected.stderr, expected.exitCode⟩), { inner with
        cassette := some { cassette with cursor := cassette.cursor + 1 }
        calls := inner.calls ++ [callFromInvocation invocation
          ⟨expected.stdout, expected.stderr, expected.exitCode⟩] }) := by
  rw [prepareReplay, hentry]
  simp only [hsame, not_true_eq_false, if_false]

/-- What is written down does not depend on the result, as far as it is compared. -/
theorem sameCommandBoundary_sanitized (invocation : MockCommandInvocation) (live : MockCommandResult) :
    sameCommandBoundary (sanitizedEntryFor redactions invocation (some live))
      (sanitizedEntryFor redactions invocation none) = true := by
  simp [sameCommandBoundary, sanitizedEntryFor]

variable (redactions path mocks calls entries) in
/-- **A recorded session** adds its entries. -/
theorem runSession_record (session : List (MockCommandInvocation × MockCommandResult)) :
    ∃ mocks' calls', runSession ⟨mocks, calls, some ⟨path, .record, redactions, entries, 0⟩⟩ session =
      (.ok (answers id mocks session), ⟨mocks', calls', some ⟨path, .record, redactions,
        entries ++ recordedEntries redactions mocks session, 0⟩⟩) := by
  induction session generalizing mocks calls entries with
  | nil => exact ⟨mocks, calls, by simp [runSession, answers, recordedEntries]⟩
  | cons step session ih =>
    obtain ⟨invocation, live⟩ := step
    cases hmock : mocks.find? (MockCommand.Matches invocation.rendered ·) with
    | some mock =>
      obtain ⟨mocks', calls', hrun⟩ := ih
        (mocks.eraseP (MockCommand.Matches invocation.rendered ·))
        (calls ++ [callFromInvocation invocation mock.result]) entries
      refine ⟨mocks', calls', ?_⟩
      rw [runSession, runSpec_mock hmock]
      simp only [hrun, answers, recordedEntries, hmock]
    | none =>
      obtain ⟨mocks', calls', hrun⟩ := ih mocks (calls ++ [callFromInvocation invocation live])
        (entries ++ [sanitizedEntryFor redactions invocation (some live)])
      refine ⟨mocks', calls', ?_⟩
      rw [runSession, runSpec, prepare_of_none hmock rfl]
      simp only [record, ne_eq, not_true_eq_false, if_false, hrun, answers, recordedEntries, hmock,
        List.append_assoc, List.singleton_append, id_eq]

variable (redactions path mocks calls) in
/-- **A replayed session** goes over the entries that it left when it was recorded. -/
theorem runSession_replay {session session' : List (MockCommandInvocation × MockCommandResult)}
    (hsame : session'.map Prod.fst = session.map Prod.fst) (before : List CommandCassetteEntry) :
    ∃ mocks' calls', runSession ⟨mocks, calls, some ⟨path, .replay, redactions,
        before ++ recordedEntries redactions mocks session, before.length⟩⟩ session' =
      (.ok (answers (redactResult redactions) mocks session), ⟨mocks', calls', some ⟨path, .replay, redactions,
        before ++ recordedEntries redactions mocks session,
        (before ++ recordedEntries redactions mocks session).length⟩⟩) := by
  induction session generalizing mocks calls before session' with
  | nil =>
    obtain rfl := List.map_eq_nil_iff.1 hsame
    exact ⟨mocks, calls, by simp [runSession, answers, recordedEntries]⟩
  | cons step session ih =>
    obtain ⟨invocation, live⟩ := step
    obtain ⟨⟨invocation', live'⟩, session', rfl, hinvocation, hrest⟩ := List.map_eq_cons_iff.1 hsame
    obtain rfl : invocation' = invocation := hinvocation
    cases hmock : mocks.find? (MockCommand.Matches invocation'.rendered ·) with
    | some mock =>
      obtain ⟨mocks', calls', hrun⟩ := ih
        (mocks.eraseP (MockCommand.Matches invocation'.rendered ·))
        (calls ++ [callFromInvocation invocation' mock.result]) hrest before
      refine ⟨mocks', calls', ?_⟩
      rw [runSession, runSpec_mock hmock]
      simp only [hrun, answers, recordedEntries, hmock]
    | none =>
      obtain ⟨mocks', calls', hrun⟩ := ih mocks
        (calls ++ [callFromInvocation invocation' (redactResult redactions live)]) hrest
        (before ++ [sanitizedEntryFor redactions invocation' (some live)])
      refine ⟨mocks', calls', ?_⟩
      simp only [recordedEntries, hmock, answers]
      have hentries : before ++ sanitizedEntryFor redactions invocation' (some live) ::
            recordedEntries redactions mocks session =
          before ++ [sanitizedEntryFor redactions invocation' (some live)] ++
            recordedEntries redactions mocks session := by simp
      have hstep : runSpec ⟨mocks, calls, some ⟨path, .replay, redactions,
            before ++ [sanitizedEntryFor redactions invocation' (some live)] ++
              recordedEntries redactions mocks session, before.length⟩⟩ invocation' live' =
          (.ok (redactResult redactions live), ⟨mocks,
            calls ++ [callFromInvocation invocation' (redactResult redactions live)],
            some ⟨path, .replay, redactions,
              before ++ [sanitizedEntryFor redactions invocation' (some live)] ++
                recordedEntries redactions mocks session,
              (before ++ [sanitizedEntryFor redactions invocation' (some live)]).length⟩⟩) := by
        rw [runSpec, prepare_of_none hmock rfl]
        simp only []
        rw [prepareReplay_same (by simp) (sameCommandBoundary_sanitized invocation' live),
          List.length_append]
        rfl
      rw [hentries, runSession, hstep]
      simp only [hrun]

variable (redactions mocks calls) in
/-- **A recording** answers what the commands do, and writes its entries. -/
theorem withCommandCassette_record (files : Files) (hpath : (fileName path).isSome)
    (session : List (MockCommandInvocation × MockCommandResult)) :
    ∃ files' inner', withCommandCassette files ⟨mocks, calls, none⟩ ⟨path, .record, redactions⟩ session =
        (.ok (answers id mocks session, files'), inner') ∧
      readCassetteEntries files' path = .ok (recordedEntries redactions mocks session) := by
  obtain ⟨mocks', calls', hrun⟩ := runSession_record redactions path mocks calls [] session
  obtain ⟨files', hwrite⟩ : ∃ files',
      writeCassetteEntries files path (recordedEntries redactions mocks session) = .ok files' := by
    obtain ⟨name, hname⟩ := Option.isSome_iff_exists.1 hpath
    rw [writeCassetteEntries, hname]
    exact ⟨_, rfl⟩
  refine ⟨files', ⟨mocks', calls', none⟩, ?_, read_of_write hwrite⟩
  have hstart : startCassette files ⟨mocks, calls, none⟩ ⟨path, .record, redactions⟩ =
      .ok ⟨mocks, calls, some ⟨path, .record, redactions, [], 0⟩⟩ := rfl
  rw [withCommandCassette, hstart]
  simp only [hrun, finishCassette, List.nil_append, hwrite]

/-- **A replay** of what was recorded answers it, and uses all of it up. -/
theorem withCommandCassette_replay {files : Files}
    {session session' : List (MockCommandInvocation × MockCommandResult)}
    (hread : readCassetteEntries files path = .ok (recordedEntries redactions mocks session))
    (hsame : session'.map Prod.fst = session.map Prod.fst) :
    ∃ inner', withCommandCassette files ⟨mocks, calls, none⟩ ⟨path, .replay, redactions⟩ session' =
      (.ok (answers (redactResult redactions) mocks session, files), inner') := by
  obtain ⟨mocks', calls', hrun⟩ := runSession_replay redactions path mocks calls hsame []
  refine ⟨⟨mocks', calls', none⟩, ?_⟩
  have hstart : startCassette files ⟨mocks, calls, none⟩ ⟨path, .replay, redactions⟩ =
      .ok ⟨mocks, calls, some ⟨path, .replay, redactions, recordedEntries redactions mocks session, 0⟩⟩ := by
    show (readCassetteEntries files path >>= _) = _
    rw [hread]
    rfl
  rw [withCommandCassette, hstart]
  simp only [List.nil_append, List.length_nil] at hrun
  simp only [hrun, finishCassette, ne_eq, not_true_eq_false, if_false]

end Sessions

/-! ## What stays out of the file -/

/-- The texts of an entry. -/
def CommandCassetteEntry.texts (entry : CommandCassetteEntry) : List String :=
  entry.rendered :: entry.program :: entry.stdin :: entry.stdout :: entry.stderr ::
    (entry.args ++ entry.cwd.toList ++ entry.env.flatMap fun env => [env.key, env.value])

/-- **A redaction keeps its value out** if no replacement meets the value from there on, that is, no
replacement can be a part of it, have it in itself, or join up with a text to make it. -/
def KeptOut (redactions : List CommandCassetteRedaction) (value : String) : Prop :=
  ∃ before replacement after, redactions = before ++ ⟨value, replacement⟩ :: after ∧ value.toList ≠ [] ∧
    ∀ r ∈ ⟨value, replacement⟩ :: after, r.value.toList ≠ [] → ¬ Meets r.replacement.toList value.toList

/-- Replacements that have no sign in common with a value keep it out. -/
theorem keptOut_of_disjoint (before after : List CommandCassetteRedaction) {value replacement : String}
    (hvalue : value.toList ≠ []) (h : ∀ r ∈ ⟨value, replacement⟩ :: after, r.replacement.toList ≠ [] ∧
      List.Disjoint r.replacement.toList value.toList) :
    KeptOut (before ++ ⟨value, replacement⟩ :: after) value :=
  ⟨before, replacement, after, rfl, hvalue, fun r hr _ => not_meets_of_disjoint (h r hr).1 hvalue (h r hr).2⟩

/-- The replacement that is put in if none is given keeps out a token of small letters. -/
example : KeptOut [⟨"secret-token", "<REDACTED>"⟩] "secret-token" :=
  keptOut_of_disjoint [] [] (by decide +kernel) (by
    rw [List.forall_mem_singleton]
    exact ⟨by decide +kernel, List.inter_eq_nil_iff_disjoint.1 (by decide +kernel)⟩)

theorem not_infix_redact {redactions : List CommandCassetteRedaction} {value : String}
    (h : KeptOut redactions value) (text : String) : ¬ value.toList <:+: (redact redactions text).toList := by
  obtain ⟨before, replacement, after, rfl, hne, hmeets⟩ := h
  rw [redact, String.toList_ofList, List.map_append, List.map_cons]
  refine not_infix_replaceEach hne ?_ text.toList
  rw [← List.map_cons (f := fun r : CommandCassetteRedaction => (r.value.toList, r.replacement.toList))
    (a := ⟨value, replacement⟩)]
  intro pair hpair
  obtain ⟨r, hr, rfl⟩ := List.mem_map.1 hpair
  exact hmeets r hr

/-- All texts of an entry were redacted. -/
theorem redacted_of_mem_texts {redactions : List CommandCassetteRedaction}
    {invocation : MockCommandInvocation} {live : MockCommandResult} {text : String}
    (h : text ∈ (sanitizedEntryFor redactions invocation (some live)).texts) :
    ∃ original, text = redact redactions original := by
  simp only [CommandCassetteEntry.texts, sanitizedEntryFor, Option.map_some, Option.getD_some, List.mem_cons,
    List.mem_append, List.mem_flatMap, List.mem_insertionSort, List.mem_map, Option.mem_toList,
    Option.map_eq_some_iff, List.not_mem_nil, or_false] at h
  rcases h with rfl | rfl | rfl | rfl | rfl | (⟨arg, _, rfl⟩ | ⟨cwd, _, rfl⟩) | ⟨_, ⟨entry, _, rfl⟩, rfl | rfl⟩
  all_goals exact ⟨_, rfl⟩

theorem sanitized_of_mem_recordedEntries {redactions : List CommandCassetteRedaction}
    {entry : CommandCassetteEntry} {session : List (MockCommandInvocation × MockCommandResult)}
    {mocks : List MockCommand} (h : entry ∈ recordedEntries redactions mocks session) :
    ∃ invocation live, entry = sanitizedEntryFor redactions invocation (some live) := by
  induction session generalizing mocks with
  | nil => simp [recordedEntries] at h
  | cons step session ih =>
    obtain ⟨invocation, live⟩ := step
    rw [recordedEntries] at h
    split at h
    · exact ih h
    · rcases List.mem_cons.1 h with rfl | h
      · exact ⟨invocation, live, rfl⟩
      · exact ih h

/-- A command that was not recorded is refused, and nothing changes. -/
theorem prepare_refuses {inner : MockCommandInner} {cassette : ActiveCommandCassette}
    {invocation : MockCommandInvocation} (hcassette : inner.cassette = some cassette)
    (hmode : cassette.mode = .replay)
    (hmock : ∀ mock ∈ inner.mocks, ¬ mock.Matches invocation.rendered)
    (hentry : ∀ expected, cassette.entries[cassette.cursor]? = some expected →
      sameCommandBoundary expected (sanitizedEntryFor cassette.redactions invocation none) = false) :
    ∃ err, prepare inner invocation = (.error err, inner) := by
  have hnone : inner.mocks.find? (MockCommand.Matches invocation.rendered ·) = none := by
    rw [List.find?_eq_none]
    exact fun mock hmem => by simpa using hmock mock hmem
  rw [prepare_of_none hnone hcassette, hmode]
  simp only [prepareReplay]
  split
  · exact ⟨_, rfl⟩
  · rename_i expected hexpected
    rw [hentry expected hexpected]
    exact ⟨_, rfl⟩

/-- **Cassettes replay what they recorded.**  A session is recorded, and the same commands are answered from
the file: by the same mocks, and with the redacted results.  No text of an entry in the file has a
value in it that the redactions keep out.  A command that does not match the next entry, or has no
entry, is refused, and nothing changes. -/
theorem cassette_spec (files : Files) {path : Path} (hpath : (fileName path).isSome)
    (mocks : List MockCommand) (calls calls' : List MockCommandCall)
    (redactions : List CommandCassetteRedaction)
    {session session' : List (MockCommandInvocation × MockCommandResult)}
    (hsame : session'.map Prod.fst = session.map Prod.fst) :
    (∃ files' inner, withCommandCassette files ⟨mocks, calls, none⟩ ⟨path, .record, redactions⟩ session =
        (.ok (answers id mocks session, files'), inner) ∧
      (∃ inner', withCommandCassette files' ⟨mocks, calls', none⟩ ⟨path, .replay, redactions⟩ session' =
        (.ok (answers (redactResult redactions) mocks session, files'), inner')) ∧
      ∃ entries, readCassetteEntries files' path = .ok entries ∧
        ∀ entry ∈ entries, ∀ text ∈ entry.texts, ∀ value, KeptOut redactions value →
          ¬ value.toList <:+: text.toList) ∧
    ∀ (inner : MockCommandInner) (cassette : ActiveCommandCassette) (invocation : MockCommandInvocation),
      inner.cassette = some cassette → cassette.mode = .replay →
      (∀ mock ∈ inner.mocks, ¬ mock.Matches invocation.rendered) →
      (∀ expected, cassette.entries[cassette.cursor]? = some expected →
        sameCommandBoundary expected (sanitizedEntryFor cassette.redactions invocation none) = false) →
      ∃ err, prepare inner invocation = (.error err, inner) := by
  refine ⟨?_, fun _ _ _ => prepare_refuses⟩
  obtain ⟨files', inner, hrecord, hread⟩ := withCommandCassette_record redactions mocks calls files
    hpath session
  refine ⟨files', inner, hrecord, withCommandCassette_replay hread hsame, _, hread, ?_⟩
  intro entry hentry text htext value hvalue
  obtain ⟨invocation, live, rfl⟩ := sanitized_of_mem_recordedEntries hentry
  obtain ⟨original, rfl⟩ := redacted_of_mem_texts htext
  exact not_infix_redact hvalue original

namespace Sample

/-- A token, and a sign that is left out. -/
def redactions : List CommandCassetteRedaction := [⟨"s3cret", "<TOKEN>"⟩, ⟨"~", ""⟩]

def session : List (MockCommandInvocation × MockCommandResult) :=
  [(⟨"gh auth token", "gh", ["auth", "token"], "", none, []⟩, ⟨"s3~cret", "", 0⟩)]

end Sample

/-- The token is in the file. -/
theorem redaction_joins : ∃ files inner entries,
    withCommandCassette (fun _ => .error "no file") ⟨[], [], none⟩
      ⟨["cassette.json"], .record, Sample.redactions⟩ Sample.session =
        (.ok ([⟨"s3~cret", "", 0⟩], files), inner) ∧
    readCassetteEntries files ["cassette.json"] = .ok entries ∧ entries.map (·.stdout) = ["s3cret"] ∧
    ∀ r ∈ Sample.redactions, ¬ "s3cret".toList <:+: r.replacement.toList := by
  obtain ⟨files, inner, hrecord, hread⟩ := withCommandCassette_record Sample.redactions [] []
    (fun _ => .error "no file") (by decide +kernel : (fileName ["cassette.json"]).isSome) Sample.session
  exact ⟨files, inner, _, hrecord, hread, by decide +kernel, by decide +kernel⟩

theorem cassette_sample : ∃ files inner, withCommandCassette (fun _ => .error "no file") ⟨[], [], none⟩
      ⟨["cassette.json"], .record, Sample.redactions⟩ Sample.session =
        (.ok ([⟨"s3~cret", "", 0⟩], files), inner) ∧
    ∃ inner', withCommandCassette files ⟨[], [], none⟩ ⟨["cassette.json"], .replay, Sample.redactions⟩
      Sample.session = (.ok ([⟨"s3cret", "", 0⟩], files), inner') := by
  have hsame : Sample.session.map Prod.fst = Sample.session.map Prod.fst := rfl
  obtain ⟨⟨files, inner, hrecord, ⟨inner', hreplay⟩, _⟩, _⟩ := cassette_spec (fun _ => .error "no file")
    (by decide +kernel : (fileName ["cassette.json"]).isSome) [] [] [] Sample.redactions hsame
  have hanswers : answers (redactResult Sample.redactions) [] Sample.session = [⟨"s3cret", "", 0⟩] := by
    decide +kernel
  rw [hanswers] at hreplay
  exact ⟨files, inner, hrecord, inner', hreplay⟩

end Cassette

end Fkst
