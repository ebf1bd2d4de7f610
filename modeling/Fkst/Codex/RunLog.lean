import Fkst.Codex.Adoption
import Fkst.Lib.Text
import Fkst.Lib.Utf8
import Fkst.Rust

/-!
# The log of a run

`sdk_codex.rs`: a run of codex writes a line for each of its status records to its log, then what codex
has put out, framed by its length and a marker, and a line for the last record.  Whoever reads the log
takes records from the lines in front of the frame and behind it, and nothing from within.

The output is any text.  `readRunLog_prefix` looks at every start of a log in bytes, as a reader sees it
while the log is written or after a crash: what is read is a start of the records, unless the bytes end
within a character; then reading fails.
-/

set_option autoImplicit false

namespace Fkst.Codex

open Lib

/-! ## Records -/

/-- `CodexStatusRecord`. -/
structure CodexStatusRecord where
  runId : String
  role : Option String := none
  label : Option String := none
  dept : Option String := none
  proposalId : Option String := none
  dedupKey : Option String := none
  startedAt : String
  startedAtMs : UInt64
  timeoutSeconds : Option ℤ := none
  endedAt : Option String := none
  endedAtMs : Option UInt64 := none
  elapsedMs : Option UInt64 := none
  status : String
  exitCode : Option ℤ := none
  permitSlot : Option ℕ := none
  outputTailPath : Option String := none
  codexErrorInfo : Option String := none
  diagnostics : List CodexDiagnostic := []
deriving DecidableEq

/-- `serde_json`, for status records. -/
structure Serde where
  toString : CodexStatusRecord → List Char
  /-- An error is printed and nothing else is made of it. -/
  fromStr : List Char → Option CodexStatusRecord

/-- A record is one line of JSON that is read back, and no JSON any more if its end is missing. -/
structure Serde.ReadsBack (serde : Serde) (record : CodexStatusRecord) : Prop where
  line : '\n' ∉ serde.toString record
  fromStr : serde.fromStr (serde.toString record) = some record
  torn : ∀ text, text <+: serde.toString record → text ≠ serde.toString record →
    serde.fromStr text = none

/-! ## Writing -/

/-- `CODEX_STATUS_LOG_PREFIX`. -/
def statusLogPrefix : List Char := "CODEX_STATUS:".toList

/-- `CODEX_OUTPUT_LOG_BEGIN`. -/
def outputLogBegin : List Char := "CODEX_OUTPUT_BEGIN".toList

/-- `CODEX_OUTPUT_LOG_END`. -/
def outputLogEnd : List Char := "CODEX_OUTPUT_END\n".toList

/-- What codex has put out and how it was run. -/
structure Output where
  stdout : List Char
  stderr : List Char
  exitCode : ℤ
  cmdLine : List Char
  timeoutSeconds : ℤ
  /-- The time at which the log is written, as text. -/
  doneAt : List Char

section Write

variable (serde : Serde)

/-- `stdout_sep` and `stderr_sep`. -/
def separator (text : List Char) : List Char :=
  if text.getLast? = some '\n' ∨ text = [] then [] else ['\n']

/-- The payload of `write_codex_log`. -/
def Output.payload (output : Output) : List Char :=
  output.stdout ++ separator output.stdout ++ output.stderr ++ separator output.stderr ++
    "EXIT=".toList ++ (ToString.toString output.exitCode).toList ++ "\nDONE_AT=".toList ++
    output.doneAt ++ "\nCMD=".toList ++ output.cmdLine ++ "\nTIMEOUT_SECONDS=".toList ++
    (ToString.toString output.timeoutSeconds).toList ++ ['\n']

/-- The number of bytes of the payload. -/
def Output.payloadLen (output : Output) : ℕ := (Utf8.encode output.payload).length

/-- `append_codex_status_log`. -/
def appendCodexStatusLog (log : List Char) (record : CodexStatusRecord) : List Char :=
  log ++ (statusLogPrefix ++ serde.toString record ++ ['\n'])

/-- `write_codex_log`. -/
def writeCodexLog (log : List Char) (output : Output) : List Char :=
  log ++ (outputLogBegin ++ ':' :: output.payloadLen.repr.toList ++ '\n' :: output.payload ++
    outputLogEnd)

/-- The log of a run that is over. -/
def runLog (running : List CodexStatusRecord) (output : Output) (completed : CodexStatusRecord) :
    List Char :=
  appendCodexStatusLog serde (writeCodexLog (running.foldl (appendCodexStatusLog serde) []) output)
    completed

end Write

/-! ## Reading -/

/-- `LifetimeWitnessProbe`. -/
inductive LifetimeWitnessProbe where
  | missing
  | unlocked
  | held
deriving DecidableEq

/-- What comes of reading a file. -/
inductive FileRead where
  | bytes (bytes : List UInt8)
  | notFound
  | failed (error : String)

/-- What is behind the first `n` bytes, if they end with a character: `body.get(n..)`. -/
def dropBytes : ℕ → List Char → Option (List Char)
  | 0, text => some text
  | _ + 1, [] => none
  | n + 1, c :: text => if c.utf8Size ≤ n + 1 then dropBytes (n + 1 - c.utf8Size) text else none

section Read

variable (isUlid : List Char → Bool) (serde : Serde) (runId : String) (witnessHeld : Bool)

/-- What follows the first character of the last `-codex-`. -/
def behindLastDash : List Char → Option (List Char)
  | [] => none
  | c :: stem => (behindLastDash stem).orElse fun _ =>
    if "-codex-".toList.isPrefixOf (c :: stem) then some stem else none

/-- `codex_run_id_from_log_path`, of the stem of the path. -/
def codexRunIdFromLogPath (stem : List Char) : Option String := do
  let runId ← behindLastDash stem
  let token ← "codex-".toList.isPrefixOf? runId
  if isUlid token then some (String.ofList runId) else none

/-- A running record, as it is handed out. -/
def shown (record : CodexStatusRecord) : CodexStatusRecord :=
  if witnessHeld then record else { record with status := "abandoned", exitCode := some (-1) }

/-- The loop over the lines of the body from the cursor on: the records, and what is behind the output
frame if it is complete. -/
def readLines : ℕ → List Char → List CodexStatusRecord × Option (List Char)
  | 0, _ => ([], none)
  | fuel + 1, body =>
    match Text.splitOnce '\n' body with
    | none => ([], none)
    | some (line, rest) =>
      match (outputLogBegin.isPrefixOf? line).bind [':'].isPrefixOf? with
      -- a length that does not fit is behind the end in any case
      | some rawLen => ([], (parseU64 rawLen).bind fun payloadLen =>
          (dropBytes payloadLen.toNat rest).bind outputLogEnd.isPrefixOf?)
      | none =>
        match statusLogPrefix.isPrefixOf? line with
        | none => ([], none)
        | some json =>
          match serde.fromStr json with
          | none => readLines fuel rest
          | some record =>
            if record.runId = runId ∧ record.status = "running" then
              let (records, tail) := readLines fuel rest
              (shown witnessHeld record :: records, tail)
            else ([], none)

/-- The record behind the output frame. -/
def readTerminal (tail : List Char) : List CodexStatusRecord :=
  match statusLogPrefix.isPrefixOf? (stripLast '\n' tail) with
  | none => []
  | some json =>
    match serde.fromStr json with
    | none => []
    | some record => if record.runId = runId ∧ record.status = "completed" then [record] else []

/-- What `read_generic_codex_status_log_with_probe` makes of the text of a log. -/
def readBody (body : List Char) : List CodexStatusRecord :=
  match readLines serde runId witnessHeld body.length body with
  | (records, none) => records
  | (records, some tail) => records ++ readTerminal serde runId tail

/-- `read_generic_codex_status_log_with_probe`, of the stem of the path.  A probe that fails counts as one
that finds the lock taken. -/
def readGenericCodexStatusLogWithProbe (stem : List Char) (probe : Except String LifetimeWitnessProbe)
    (file : FileRead) : Except String (List CodexStatusRecord) :=
  match codexRunIdFromLogPath isUlid stem with
  | none => .ok []
  | some expectedRunId =>
    let witness := probe.toOption
    if witness = some .missing then .ok []
    else
      let witnessHeld := witness ≠ some .unlocked
      match file with
      | .notFound => .ok []
      | .failed error => .error error
      | .bytes bytes =>
        match Utf8.fromUtf8 bytes with
        | none => .error "stream did not contain valid UTF-8"
        | some body => .ok (readBody serde expectedRunId witnessHeld body)

end Read

/-! ## Starts of a log -/

section Starts

variable {α : Type} {a b q : List α}

/-- A start of two parts ends within the first, or has the first and a start of the second. -/
theorem prefix_append_cases (h : q <+: a ++ b) :
    (q <+: a ∧ q ≠ a) ∨ ∃ q', q = a ++ q' ∧ q' <+: b := by
  obtain ⟨rest, hrest⟩ := h
  rcases List.append_eq_append_iff.1 hrest with ⟨inner, rfl, _⟩ | ⟨outer, rfl, rfl⟩
  · by_cases hq : q = q ++ inner
    · exact .inr ⟨[], by rw [List.append_nil]; exact hq, List.nil_prefix⟩
    · exact .inl ⟨List.prefix_append _ _, hq⟩
  · exact .inr ⟨outer, rfl, List.prefix_append _ _⟩

theorem notMem_of_prefix {x : α} (h : q <+: a ++ [x]) (hne : q ≠ a ++ [x]) (hx : x ∉ a) : x ∉ q := by
  rcases List.prefix_concat_iff.1 h with rfl | hq
  · exact absurd rfl hne
  · exact fun hmem => hx (hq.subset hmem)

end Starts

section Frame

theorem dropBytes_encode : ∀ text rest : List Char,
    dropBytes (Utf8.encode text).length (text ++ rest) = some rest
  | [], rest => by rw [Utf8.encode_nil, List.length_nil, List.nil_append, dropBytes]
  | c :: text, rest => by
    have hpos := c.utf8Size_pos
    rw [Utf8.encode_cons, List.length_append, String.length_utf8EncodeChar, List.cons_append]
    cases hsize : c.utf8Size with
    | zero => omega
    | succ n =>
      rw [Nat.succ_add, dropBytes, if_pos (by omega), hsize,
        show n + (Utf8.encode text).length + 1 - (n + 1) = (Utf8.encode text).length by omega]
      exact dropBytes_encode text rest

theorem dropBytes_eq_none : ∀ {text : List Char} {n : ℕ}, (Utf8.encode text).length < n →
    dropBytes n text = none
  | [], n + 1, _ => rfl
  | c :: text, n + 1, h => by
    rw [Utf8.encode_cons, List.length_append, String.length_utf8EncodeChar] at h
    rw [dropBytes]
    split
    · exact dropBytes_eq_none (by omega)
    · rfl

end Frame

section Lines

variable {serde : Serde} {runId : String} {witnessHeld : Bool}

/-- The line of a record. -/
def statusLine (serde : Serde) (record : CodexStatusRecord) : List Char :=
  statusLogPrefix ++ serde.toString record ++ ['\n']

/-- The output frame. -/
def outputFrame (output : Output) : List Char :=
  outputLogBegin ++ ':' :: output.payloadLen.repr.toList ++ '\n' :: output.payload ++ outputLogEnd

theorem foldl_appendCodexStatusLog (log : List Char) : ∀ running : List CodexStatusRecord,
    running.foldl (appendCodexStatusLog serde) log = log ++ running.flatMap (statusLine serde)
  | [] => by simp
  | record :: running => by
    rw [List.foldl_cons, foldl_appendCodexStatusLog _ running, List.flatMap_cons]
    simp only [appendCodexStatusLog, statusLine, List.append_assoc]

theorem runLog_eq (running : List CodexStatusRecord) (output : Output) (completed : CodexStatusRecord) :
    runLog serde running output completed =
      running.flatMap (statusLine serde) ++ (outputFrame output ++ statusLine serde completed) := by
  rw [runLog, foldl_appendCodexStatusLog, List.nil_append]
  simp only [appendCodexStatusLog, writeCodexLog, statusLine, outputFrame, List.append_assoc]

/-- A record of the run that is running, or is over. -/
structure IsOf (serde : Serde) (runId status : String) (record : CodexStatusRecord) : Prop where
  runId : record.runId = runId
  status : record.status = status
  readsBack : serde.ReadsBack record

theorem readLines_of_notMem {body : List Char} (h : '\n' ∉ body) : ∀ fuel,
    readLines serde runId witnessHeld fuel body = ([], none)
  | 0 => rfl
  | fuel + 1 => by rw [readLines, Text.splitOnce_eq_none h]

/-- A line of a running record. -/
theorem readLines_statusLine {record : CodexStatusRecord} (h : IsOf serde runId "running" record)
    (fuel : ℕ) (rest : List Char) :
    readLines serde runId witnessHeld (fuel + 1) (statusLine serde record ++ rest) =
      (shown witnessHeld record :: (readLines serde runId witnessHeld fuel rest).1,
        (readLines serde runId witnessHeld fuel rest).2) := by
  have hline : '\n' ∉ statusLogPrefix ++ serde.toString record := by
    rw [List.mem_append, not_or]
    exact ⟨by decide, h.readsBack.line⟩
  have hbody : statusLine serde record ++ rest =
      (statusLogPrefix ++ serde.toString record) ++ '\n' :: rest := by
    rw [statusLine, List.append_assoc, List.singleton_append]
  have hbegin : outputLogBegin.isPrefixOf? (statusLogPrefix ++ serde.toString record) = none := rfl
  have hjson : statusLogPrefix.isPrefixOf? (statusLogPrefix ++ serde.toString record) =
      some (serde.toString record) := List.isPrefixOf?_eq_some_iff_append_eq.2 rfl
  rw [hbody, readLines, Text.splitOnce_append hline]
  simp only [hbegin, Option.bind_none, hjson, h.readsBack.fromStr]
  rw [if_pos ⟨h.runId, h.status⟩]

/-- The lines in front of the frame. -/
theorem readLines_running {running : List CodexStatusRecord}
    (h : ∀ record ∈ running, IsOf serde runId "running" record) (fuel : ℕ) (rest : List Char) :
    readLines serde runId witnessHeld (running.length + fuel)
        (running.flatMap (statusLine serde) ++ rest) =
      (running.map (shown witnessHeld) ++ (readLines serde runId witnessHeld fuel rest).1,
        (readLines serde runId witnessHeld fuel rest).2) := by
  induction running with
  | nil => simp
  | cons record running ih =>
    rw [List.forall_mem_cons] at h
    rw [List.flatMap_cons, List.append_assoc, List.length_cons, Nat.add_right_comm,
      readLines_statusLine h.1, ih h.2]
    rfl

/-! ### Behind the lines -/

variable (serde runId witnessHeld) in
/-- What is read of the rest of a body. -/
def readRest (fuel : ℕ) (rest : List Char) : List CodexStatusRecord :=
  match readLines serde runId witnessHeld fuel rest with
  | (records, none) => records
  | (records, some tail) => records ++ readTerminal serde runId tail

theorem readRest_running {running : List CodexStatusRecord}
    (h : ∀ record ∈ running, IsOf serde runId "running" record) (fuel : ℕ) (rest : List Char) :
    readRest serde runId witnessHeld (running.length + fuel)
        (running.flatMap (statusLine serde) ++ rest) =
      running.map (shown witnessHeld) ++ readRest serde runId witnessHeld fuel rest := by
  rw [readRest, readLines_running h, readRest]
  obtain ⟨records, tail⟩ := readLines serde runId witnessHeld fuel rest
  cases tail with
  | none => rfl
  | some tail => exact List.append_assoc _ _ _

theorem readRest_of_notMem {body : List Char} (h : '\n' ∉ body) (fuel : ℕ) :
    readRest serde runId witnessHeld fuel body = [] := by
  rw [readRest, readLines_of_notMem h]

theorem readTerminal_whole {completed : CodexStatusRecord} (h : IsOf serde runId "completed" completed)
    {tail : List Char} (htail : stripLast '\n' tail = statusLogPrefix ++ serde.toString completed) :
    readTerminal serde runId tail = [completed] := by
  have hjson : statusLogPrefix.isPrefixOf? (statusLogPrefix ++ serde.toString completed) =
      some (serde.toString completed) := List.isPrefixOf?_eq_some_iff_append_eq.2 rfl
  rw [readTerminal, htail]
  simp only [hjson, h.readsBack.fromStr]
  rw [if_pos ⟨h.runId, h.status⟩]

theorem stripLast_concat (a : Char) (text : List Char) : stripLast a (text ++ [a]) = text := by
  rw [stripLast, if_pos List.getLast?_concat, List.dropLast_concat]

/-- Of a start of the last line the record is read, or nothing. -/
theorem readTerminal_prefix {completed : CodexStatusRecord} (h : IsOf serde runId "completed" completed)
    {tail : List Char} (htail : tail <+: statusLine serde completed) :
    readTerminal serde runId tail <+: [completed] := by
  rcases List.prefix_concat_iff.1 htail with rfl | htorn
  · exact ⟨[], by rw [List.append_nil, readTerminal_whole h (stripLast_concat _ _)]⟩
  · have hline : '\n' ∉ tail := by
      intro hmem
      rcases List.mem_append.1 (htorn.subset hmem) with hmem | hmem
      · exact absurd hmem (by decide)
      · exact h.readsBack.line hmem
    have hlast : stripLast '\n' tail = tail := by
      rw [stripLast, if_neg fun hget => hline (List.mem_of_getLast? hget)]
    by_cases heq : tail = statusLogPrefix ++ serde.toString completed
    · exact ⟨[], by rw [List.append_nil, readTerminal_whole h (hlast.trans heq)]⟩
    · rw [readTerminal, hlast]
      split
      · exact List.nil_prefix
      · rename_i json hjson
        obtain rfl := List.isPrefixOf?_eq_some_iff_append_eq.1 hjson
        have htorn := (List.prefix_append_right_inj _).1 htorn
        rw [h.readsBack.torn json htorn fun hjson => heq (by rw [hjson])]
        exact List.nil_prefix

/-- What is in front of the payload. -/
def frameHead (output : Output) : List Char := outputLogBegin ++ ':' :: output.payloadLen.repr.toList

theorem notMem_frameHead (output : Output) : '\n' ∉ frameHead output := by
  rw [frameHead, List.mem_append, List.mem_cons, not_or, not_or]
  refine ⟨by decide, by decide, fun hmem => ?_⟩
  rw [Nat.toList_repr] at hmem
  exact absurd (Nat.isDigit_of_mem_toDigits (by decide) (by decide) hmem) (by decide)

theorem outputFrame_append (output : Output) (rest : List Char) :
    outputFrame output ++ rest =
      (frameHead output ++ ['\n']) ++ (output.payload ++ (outputLogEnd ++ rest)) := by
  simp only [outputFrame, frameHead, List.append_assoc, List.cons_append, List.nil_append]

/-- The head of the frame says where it ends. -/
theorem readRest_frameHead {output : Output} (hfits : output.payloadLen < 2 ^ 64) (fuel : ℕ)
    (rest : List Char) :
    readRest serde runId witnessHeld (fuel + 1) ((frameHead output ++ ['\n']) ++ rest) =
      match (dropBytes output.payloadLen rest).bind outputLogEnd.isPrefixOf? with
      | none => []
      | some tail => readTerminal serde runId tail := by
  have hbegin : outputLogBegin.isPrefixOf? (frameHead output) =
      some (':' :: output.payloadLen.repr.toList) := List.isPrefixOf?_eq_some_iff_append_eq.2 rfl
  have hcolon : [':'].isPrefixOf? (':' :: output.payloadLen.repr.toList) =
      some output.payloadLen.repr.toList := List.isPrefixOf?_eq_some_iff_append_eq.2 rfl
  have hlen : (UInt64.ofNat output.payloadLen).toNat = output.payloadLen := UInt64.toNat_ofNat_of_lt hfits
  have hparse := parseU64_repr (UInt64.ofNat output.payloadLen)
  rw [hlen] at hparse
  rw [readRest, List.append_assoc, List.singleton_append, readLines,
    Text.splitOnce_append (notMem_frameHead output)]
  simp only [hbegin, Option.bind_some, hcolon, hparse, hlen]
  cases (dropBytes output.payloadLen rest).bind outputLogEnd.isPrefixOf? <;> rfl

/-- The frame and the line behind it. -/
theorem readRest_whole {output : Output} (hfits : output.payloadLen < 2 ^ 64)
    {completed : CodexStatusRecord} (h : IsOf serde runId "completed" completed) (fuel : ℕ) :
    readRest serde runId witnessHeld (fuel + 1) (outputFrame output ++ statusLine serde completed) =
      [completed] := by
  have hend : outputLogEnd.isPrefixOf? (outputLogEnd ++ statusLine serde completed) =
      some (statusLine serde completed) := List.isPrefixOf?_eq_some_iff_append_eq.2 rfl
  rw [outputFrame_append, readRest_frameHead hfits, Output.payloadLen, dropBytes_encode, Option.bind_some,
    hend]
  exact readTerminal_whole h (stripLast_concat _ _)

theorem readRest_prefix {output : Output} (hfits : output.payloadLen < 2 ^ 64)
    {completed : CodexStatusRecord} (h : IsOf serde runId "completed" completed) {fuel : ℕ}
    {rest : List Char} (hfuel : rest.length ≤ fuel)
    (hrest : rest <+: outputFrame output ++ statusLine serde completed) :
    readRest serde runId witnessHeld fuel rest <+: [completed] := by
  rw [outputFrame_append] at hrest
  rcases prefix_append_cases hrest with ⟨htorn, hne⟩ | ⟨body, rfl, hbody⟩
  · rw [readRest_of_notMem ( notMem_of_prefix htorn hne (notMem_frameHead output))]
    exact List.nil_prefix
  · cases fuel with
    | zero => simp at hfuel
    | succ fuel =>
      rw [readRest_frameHead hfits]
      rcases prefix_append_cases hbody with ⟨htorn, hne⟩ | ⟨tail, rfl, htail⟩
      · -- the payload is not complete
        rw [Output.payloadLen, dropBytes_eq_none (Utf8.length_encode_lt htorn hne), Option.bind_none]
        exact List.nil_prefix
      · rw [Output.payloadLen, dropBytes_encode, Option.bind_some]
        cases hend : outputLogEnd.isPrefixOf? tail with
        | none => exact List.nil_prefix
        | some line =>
          obtain rfl := List.isPrefixOf?_eq_some_iff_append_eq.1 hend
          exact readTerminal_prefix h ((List.prefix_append_right_inj _).1 htail)

end Lines

/-! ## Logs -/

section Logs

variable {serde : Serde} {runId : String} {witnessHeld : Bool}

theorem prefix_flatMap_cases {line : CodexStatusRecord → List Char} :
    ∀ {running : List CodexStatusRecord} {rest text : List Char},
      text <+: running.flatMap line ++ rest →
      (∃ front record back torn, running = front ++ record :: back ∧
        text = front.flatMap line ++ torn ∧ torn <+: line record ∧ torn ≠ line record) ∨
      ∃ start, text = running.flatMap line ++ start ∧ start <+: rest
  | [], rest, text, h => .inr ⟨text, rfl, h⟩
  | record :: running, rest, text, h => by
    rw [List.flatMap_cons, List.append_assoc] at h
    rcases prefix_append_cases h with ⟨htorn, hne⟩ | ⟨text, rfl, htext⟩
    · exact .inl ⟨[], record, running, text, rfl, rfl, htorn, hne⟩
    · rcases prefix_flatMap_cases htext with ⟨front, r, back, torn, rfl, rfl, htorn, hne⟩ |
        ⟨start, rfl, hstart⟩
      · exact .inl ⟨record :: front, r, back, torn, rfl, by rw [List.flatMap_cons, List.append_assoc],
          htorn, hne⟩
      · exact .inr ⟨start, by rw [List.flatMap_cons, List.append_assoc], hstart⟩

theorem length_le_flatMap : ∀ running : List CodexStatusRecord,
    running.length ≤ (running.flatMap (statusLine serde)).length
  | [] => Nat.le_refl 0
  | record :: running => by
    have hrest := length_le_flatMap running
    rw [List.flatMap_cons, List.length_append, List.length_cons, statusLine, List.length_append,
      List.length_singleton]
    omega

variable (witnessHeld) in
/-- The lines of the running records and what follows, with as much fuel as there is text. -/
theorem readBody_running {running : List CodexStatusRecord}
    (h : ∀ record ∈ running, IsOf serde runId "running" record) (rest : List Char) :
    ∃ fuel, rest.length ≤ fuel ∧
      readBody serde runId witnessHeld (running.flatMap (statusLine serde) ++ rest) =
        running.map (shown witnessHeld) ++ readRest serde runId witnessHeld fuel rest := by
  have hle : running.length ≤ (running.flatMap (statusLine serde)).length := length_le_flatMap running
  refine ⟨(running.flatMap (statusLine serde)).length - running.length + rest.length, by omega, ?_⟩
  rw [← readRest_running h]
  show readRest serde runId witnessHeld _ _ = _
  congr 1
  rw [List.length_append]
  omega

variable (witnessHeld) in
/-- **Of a start of a log a start of the records is read**, and of the whole log all. -/
theorem readBody_prefix {running : List CodexStatusRecord} {output : Output}
    {completed : CodexStatusRecord}
    (hrunning : ∀ record ∈ running, IsOf serde runId "running" record)
    (hcompleted : IsOf serde runId "completed" completed) (hfits : output.payloadLen < 2 ^ 64) :
    readBody serde runId witnessHeld (runLog serde running output completed) =
        running.map (shown witnessHeld) ++ [completed] ∧
      ∀ text, text <+: runLog serde running output completed →
        readBody serde runId witnessHeld text <+: running.map (shown witnessHeld) ++ [completed] := by
  rw [runLog_eq]
  refine ⟨?_, fun text htext => ?_⟩
  · obtain ⟨fuel, hfuel, hread⟩ := readBody_running witnessHeld hrunning
      (outputFrame output ++ statusLine serde completed)
    cases fuel with
    | zero => simp [outputFrame] at hfuel
    | succ fuel => rw [hread, readRest_whole hfits hcompleted]
  · rcases prefix_flatMap_cases htext with ⟨front, record, back, torn, rfl, rfl, htorn, hne⟩ |
      ⟨start, rfl, hstart⟩
    · have hfront : ∀ record ∈ front, IsOf serde runId "running" record :=
        fun record hrecord => hrunning record (List.mem_append_left _ hrecord)
      obtain ⟨fuel, _, hread⟩ := readBody_running witnessHeld hfront torn
      have hline : '\n' ∉ statusLogPrefix ++ serde.toString record := by
        rw [List.mem_append, not_or]
        exact ⟨by decide, (hrunning record (by simp)).readsBack.line⟩
      rw [hread, readRest_of_notMem ( notMem_of_prefix htorn hne hline), List.append_nil, List.map_append,
        List.append_assoc]
      exact List.prefix_append _ _
    · obtain ⟨fuel, hfuel, hread⟩ := readBody_running witnessHeld hrunning start
      rw [hread]
      exact (List.prefix_append_right_inj _).2 ( readRest_prefix hfits hcompleted hfuel hstart)

/-- **Reading the log of a run**, with the lock on it held, free, or not to be probed.  The whole log
gives all records, and of its starts in bytes those are read that do not end within a character. -/
theorem readRunLog_prefix (isUlid : List Char → Bool) (serde : Serde) {stem : List Char} {runId : String}
    {probe : Except String LifetimeWitnessProbe} {running : List CodexStatusRecord} {output : Output}
    {completed : CodexStatusRecord} (hstem : codexRunIdFromLogPath isUlid stem = some runId)
    (hprobe : probe.toOption ≠ some .missing)
    (hrunning : ∀ record ∈ running, IsOf serde runId "running" record)
    (hcompleted : IsOf serde runId "completed" completed) (hfits : output.payloadLen < 2 ^ 64) :
    readGenericCodexStatusLogWithProbe isUlid serde stem probe
        (.bytes (Utf8.encode (runLog serde running output completed))) =
      .ok (running.map (shown (probe.toOption ≠ some .unlocked)) ++ [completed]) ∧
    ∀ bytes, bytes <+: Utf8.encode (runLog serde running output completed) →
      ((∃ records, readGenericCodexStatusLogWithProbe isUlid serde stem probe (.bytes bytes) =
          .ok records ∧
          records <+: running.map (shown (probe.toOption ≠ some .unlocked)) ++ [completed]) ↔
        ∃ text, Utf8.encode text = bytes) := by
  obtain ⟨hwhole, hprefix⟩ := readBody_prefix (probe.toOption ≠ some .unlocked) hrunning
    hcompleted hfits
  have hread : ∀ bytes, readGenericCodexStatusLogWithProbe isUlid serde stem probe (.bytes bytes) =
      match Utf8.fromUtf8 bytes with
      | none => .error "stream did not contain valid UTF-8"
      | some body => .ok (readBody serde runId (probe.toOption ≠ some .unlocked) body) := by
    intro bytes
    rw [readGenericCodexStatusLogWithProbe, hstem]
    exact if_neg hprobe
  refine ⟨?_, fun bytes hbytes => ⟨?_, ?_⟩⟩
  · rw [hread, Utf8.fromUtf8_eq_some.2 rfl]
    exact congrArg Except.ok hwhole
  · rintro ⟨records, hrecords, -⟩
    rw [hread] at hrecords
    cases htext : Utf8.fromUtf8 bytes with
    | none =>
      rw [htext] at hrecords
      cases hrecords
    | some text => exact ⟨text, Utf8.fromUtf8_eq_some.1 htext⟩
  · rintro ⟨text, rfl⟩
    rw [hread, Utf8.fromUtf8_eq_some.2 rfl]
    exact ⟨_, rfl, hprefix text (Utf8.prefix_of_encode_prefix hbytes)⟩

end Logs

namespace Sample

/-- A run that is under way. -/
def startedRecord : CodexStatusRecord where
  runId := "codex-01ARZ3NDEKTSV4RRFFQ69G5FAV"
  startedAt := "2026-08-05T00:00:00Z"
  startedAtMs := 100
  status := "running"

/-- The run when it is over. -/
def completedRecord : CodexStatusRecord :=
  { startedRecord with
    status := "completed"
    endedAt := some "2026-08-05T00:00:01Z"
    endedAtMs := some 101
    elapsedMs := some 1
    exitCode := some 0 }

/-- An object with these members. -/
def object (members : List (String × String)) : List Char :=
  '\x7b' :: [','].intercalate (members.map fun member =>
    '"' :: member.1.toList ++ '"' :: ':' :: member.2.toList) ++ ['\x7d']

/-- The text of a record of the run. -/
def jsonOf (endedAt endedAtMs elapsedMs status exitCode : String) : List Char :=
  object [("run_id", "\"codex-01ARZ3NDEKTSV4RRFFQ69G5FAV\""), ("role", "null"), ("label", "null"),
    ("dept", "null"), ("proposal_id", "null"), ("dedup_key", "null"),
    ("started_at", "\"2026-08-05T00:00:00Z\""), ("started_at_ms", "100"),
    ("timeout_seconds", "null"), ("ended_at", endedAt), ("ended_at_ms", endedAtMs),
    ("elapsed_ms", elapsedMs), ("status", status), ("exit_code", exitCode), ("permit_slot", "null"),
    ("output_tail_path", "null"), ("codex_error_info", "null"), ("diagnostics", "[]")]

def runningJson : List Char := jsonOf "null" "null" "null" "\"running\"" "null"

def completedJson : List Char := jsonOf "\"2026-08-05T00:00:01Z\"" "101" "1" "\"completed\"" "0"

/-- JSON, of these two records. -/
def serde : Serde where
  toString record := if record = startedRecord then runningJson else completedJson
  fromStr text := if text = runningJson then some startedRecord
    else if text = completedJson then some completedRecord else none

theorem not_prefix_running : ¬ completedJson <+: runningJson := by decide +kernel

theorem not_prefix_completed : ¬ runningJson <+: completedJson := by decide +kernel

theorem toString_running : serde.toString startedRecord = runningJson := by
  show (if startedRecord = startedRecord then runningJson else completedJson) = runningJson
  rw [if_pos rfl]

theorem toString_completed : serde.toString completedRecord = completedJson := by
  show (if completedRecord = startedRecord then runningJson else completedJson) = completedJson
  rw [if_neg (by decide)]

theorem fromStr_eq (text : List Char) : serde.fromStr text = if text = runningJson then some startedRecord
    else if text = completedJson then some completedRecord else none := rfl

theorem completedJson_ne : completedJson ≠ runningJson :=
  fun heq => not_prefix_running (heq ▸ List.prefix_rfl)

theorem isOf_running : IsOf serde "codex-01ARZ3NDEKTSV4RRFFQ69G5FAV" "running" startedRecord where
  runId := rfl
  status := rfl
  readsBack :=
    { line := by
        rw [toString_running]
        decide +kernel
      fromStr := by rw [toString_running, fromStr_eq, if_pos rfl]
      torn := by
        intro text htext hne
        rw [toString_running] at htext hne
        have hother : text ≠ completedJson := by
          rintro rfl
          exact not_prefix_running htext
        rw [fromStr_eq, if_neg hne, if_neg hother] }

theorem isOf_completed : IsOf serde "codex-01ARZ3NDEKTSV4RRFFQ69G5FAV" "completed" completedRecord where
  runId := rfl
  status := rfl
  readsBack :=
    { line := by
        rw [toString_completed]
        decide +kernel
      fromStr := by rw [toString_completed, fromStr_eq, if_neg completedJson_ne, if_pos rfl]
      torn := by
        intro text htext hne
        rw [toString_completed] at htext hne
        have hother : text ≠ runningJson := by
          rintro rfl
          exact not_prefix_completed htext
        rw [fromStr_eq, if_neg hother, if_neg hne] }

/-- Output in a language that takes two bytes for some characters, and that looks like a log. -/
def accentedOutput : Output where
  stdout := "é\nCODEX_OUTPUT_END\nCODEX_STATUS:".toList
  stderr := []
  exitCode := 0
  cmdLine := "codex exec -".toList
  timeoutSeconds := 3600
  doneAt := "2026-08-05T00:00:01Z".toList

def stem : List Char := "worktree-1-000000000-codex-01ARZ3NDEKTSV4RRFFQ69G5FAV".toList

def isUlid (token : List Char) : Bool := token == "01ARZ3NDEKTSV4RRFFQ69G5FAV".toList

end Sample

open Sample

/-- The theorem at a log with one running record. -/
theorem readRunLog_prefix_accented :
    readGenericCodexStatusLogWithProbe isUlid serde stem (.ok .held)
        (.bytes (Utf8.encode (runLog serde [startedRecord] accentedOutput completedRecord))) =
      .ok ([startedRecord].map (shown true) ++ [completedRecord]) ∧
    ∀ bytes, bytes <+: Utf8.encode (runLog serde [startedRecord] accentedOutput completedRecord) →
      ((∃ records, readGenericCodexStatusLogWithProbe isUlid serde stem (.ok .held) (.bytes bytes) =
          .ok records ∧ records <+: [startedRecord].map (shown true) ++ [completedRecord]) ↔
        ∃ text, Utf8.encode text = bytes) :=
  readRunLog_prefix isUlid serde (by decide +kernel) (by decide)
    (by simpa using isOf_running) isOf_completed (by decide +kernel)

end Fkst.Codex
