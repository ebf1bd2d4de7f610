import Fkst.Codex.Adoption

/-!
# What holds while runs are adopted

The invariant of the files, the locks and the parties of an adoption key.

* `DiskOk`: whatever is on the disk of an outcome (`result.json`, the effect record, the effect log, a
  completed record) is the outcome of the run that `status.json` names, and the outputs are there
  before anything points to them.  A party writes several files in a row and may die in between, so
  that it is asked of every disk on the way (`Safe`).
* a run that is `Live`, because its worker has claimed it and has no result yet or because its codex
  child is running, is the running one of `status.json`, and there is no outcome on the disk.
* a party that writes has `run.lock`, and it is alone with it, but for a dispatch that is about to
  close it after its worker has inherited it (`Inv.sharing`).

What the lock protects is thus left alone by all other parties; `Inv.frame` says so once, for the steps
of every party.
-/

set_option autoImplicit false

namespace Fkst.Codex

open Lib

/-! ## The disk -/

section Disk

variable {P P' : List (ℕ × CodexResult)} {key : String} {disk disk' : Disk} {r : ℕ}

/-- No outcome is on the disk. -/
structure Disk.Clean (disk : Disk) : Prop where
  result : disk.result = none
  effect : disk.effect = none
  effectLog : disk.effectLog = []

/-- A run has ended so. -/
def EndingOf (P : List (ℕ × CodexResult)) (r : ℕ) (e : Ending) : Prop :=
  ∃ res, (r, res) ∈ P ∧ res.toEnding = e

/-- A run has had this output. -/
def StdoutOf (P : List (ℕ × CodexResult)) (r : ℕ) (text : String) : Prop :=
  ∃ res, (r, res) ∈ P ∧ res.stdout = text

/-- A run has had this error output. -/
def StderrOf (P : List (ℕ × CodexResult)) (r : ℕ) (text : String) : Prop :=
  ∃ res, (r, res) ∈ P ∧ res.stderr = text

/-- An effect record is that of a run. -/
def EffectOf (key : String) (P : List (ℕ × CodexResult)) (r : ℕ) (e : CodexAdoptionEffectRecord) :
    Prop :=
  e.effectKey = key ∧
    ∃ res, (r, res) ∈ P ∧ res.toEnding = e.toEnding ∧ res.stdout = e.stdout ∧ res.stderr = e.stderr

/-- A completed record has the ending of its run. -/
structure CompletedOk (P : List (ℕ × CodexResult)) (record : CodexAdoptionRecord) : Prop where
  status : record.status = .completed
  ending : ∃ e, EndingOf P record.runId e ∧ record.exitCode = some e.exitCode ∧
    record.errorKind = e.errorKind ∧ record.error = e.error ∧
    record.codexErrorInfo = e.codexErrorInfo ∧ record.diagnostics = e.diagnostics

/-- The outputs were written for a run. -/
def Disk.Outputs (disk : Disk) (r : ℕ) : Prop :=
  (∃ text, disk.stdout = some (r, text)) ∧ ∃ text, disk.stderr = some (r, text)

/-- What is on the disk beside a record belongs to the run of the record. -/
structure RecordOk (key : String) (P : List (ℕ × CodexResult)) (disk : Disk)
    (record : CodexAdoptionRecord) : Prop where
  key_eq : record.key = key
  result : ∀ o, disk.result = some o → EndingOf P record.runId o.toEnding ∧ disk.Outputs record.runId
  effect : ∀ e, disk.effect = some e → EffectOf key P record.runId e
  effectLog : ∀ e ∈ disk.effectLog, EffectOf key P record.runId e
  completed : record.status = .completed → CompletedOk P record ∧ disk.Outputs record.runId
  traced : record.status ≠ .completed → record.runId ∈ disk.recorded → ¬ disk.Clean
  finished : ¬ disk.Clean ∨ record.status = .completed → record.runId ∈ disk.recorded

/-- What is on the disk belongs together. -/
structure DiskOk (key : String) (P : List (ℕ × CodexResult)) (disk : Disk) : Prop where
  record : ∀ record, disk.status = some record → RecordOk key P disk record
  blank : disk.status = none → disk.Clean
  stdout : ∀ r text, disk.stdout = some (r, text) → StdoutOf P r text
  stderr : ∀ r text, disk.stderr = some (r, text) → StderrOf P r text

/-- How the disk may change: runs leave traces, and the record stays with its run or goes over to a
run that has left none. -/
structure Continues (disk disk' : Disk) : Prop where
  recorded : ∀ x ∈ disk.recorded, x ∈ disk'.recorded
  status : ∀ record, disk.status = some record → ∃ record', disk'.status = some record' ∧
    (record'.runId ∉ disk.recorded ∨ record'.runId = record.runId)

/-- Every disk on the way of some accesses is as it should be, and at the end something holds. -/
def Safe (key : String) (P : List (ℕ × CodexResult)) (goal : Disk → Prop) : Disk → List Op → Prop
  | disk, [] => DiskOk key P disk ∧ goal disk
  | disk, op :: todo =>
    DiskOk key P disk ∧ Continues disk (disk.apply op) ∧ Safe key P goal (disk.apply op) todo

theorem EndingOf.mono (hP : ∀ x ∈ P, x ∈ P') {e : Ending} (h : EndingOf P r e) : EndingOf P' r e := by
  obtain ⟨res, hmem, he⟩ := h
  exact ⟨res, hP _ hmem, he⟩

theorem StdoutOf.mono (hP : ∀ x ∈ P, x ∈ P') {text : String} (h : StdoutOf P r text) :
    StdoutOf P' r text := by
  obtain ⟨res, hmem, he⟩ := h
  exact ⟨res, hP _ hmem, he⟩

theorem StderrOf.mono (hP : ∀ x ∈ P, x ∈ P') {text : String} (h : StderrOf P r text) :
    StderrOf P' r text := by
  obtain ⟨res, hmem, he⟩ := h
  exact ⟨res, hP _ hmem, he⟩

theorem EffectOf.mono (hP : ∀ x ∈ P, x ∈ P') {e : CodexAdoptionEffectRecord}
    (h : EffectOf key P r e) : EffectOf key P' r e := by
  obtain ⟨hkey, res, hmem, he⟩ := h
  exact ⟨hkey, res, hP _ hmem, he⟩

theorem CompletedOk.mono (hP : ∀ x ∈ P, x ∈ P') {record : CodexAdoptionRecord}
    (h : CompletedOk P record) : CompletedOk P' record := by
  obtain ⟨hstatus, e, he, hrest⟩ := h
  exact ⟨hstatus, e, he.mono hP, hrest⟩

theorem RecordOk.mono (hP : ∀ x ∈ P, x ∈ P') {record : CodexAdoptionRecord}
    (h : RecordOk key P disk record) : RecordOk key P' disk record where
  key_eq := h.key_eq
  result o ho := ⟨(h.result o ho).1.mono hP, (h.result o ho).2⟩
  effect e he := (h.effect e he).mono hP
  effectLog e he := (h.effectLog e he).mono hP
  completed hc := ⟨(h.completed hc).1.mono hP, (h.completed hc).2⟩
  traced := h.traced
  finished := h.finished

theorem DiskOk.mono (hP : ∀ x ∈ P, x ∈ P') (h : DiskOk key P disk) : DiskOk key P' disk where
  record record hrecord := (h.record record hrecord).mono hP
  blank := h.blank
  stdout r text ht := (h.stdout r text ht).mono hP
  stderr r text ht := (h.stderr r text ht).mono hP

theorem Safe.mono (hP : ∀ x ∈ P, x ∈ P') {goal : Disk → Prop} :
    ∀ {disk : Disk} {todo : List Op}, Safe key P goal disk todo → Safe key P' goal disk todo
  | _, [], h => ⟨h.1.mono hP, h.2⟩
  | _, _ :: _, h => ⟨h.1.mono hP, h.2.1, Safe.mono hP h.2.2⟩

theorem Safe.imp {goal goal' : Disk → Prop} (himp : ∀ disk, goal disk → goal' disk) :
    ∀ {disk : Disk} {todo : List Op}, Safe key P goal disk todo → Safe key P goal' disk todo
  | _, [], h => ⟨h.1, himp _ h.2⟩
  | _, _ :: _, h => ⟨h.1, h.2.1, Safe.imp himp h.2.2⟩

theorem Safe.diskOk {goal : Disk → Prop} :
    ∀ {disk : Disk} {todo : List Op}, Safe key P goal disk todo → DiskOk key P disk
  | _, [], h => h.1
  | _, _ :: _, h => h.1

/-! ## One access -/

theorem recorded_apply (disk : Disk) (op : Op) : ∀ x ∈ disk.recorded, x ∈ (disk.apply op).recorded := by
  intro x hx
  cases op <;> first | exact hx | exact List.mem_cons_of_mem _ hx

theorem continues_of_status {op : Op} (h : (disk.apply op).status = disk.status) :
    Continues disk (disk.apply op) where
  recorded := recorded_apply disk op
  status record hrecord := ⟨record, h.trans hrecord, Or.inr rfl⟩

theorem continues_writeStatus {record' : CodexAdoptionRecord}
    (h : record'.runId ∉ disk.recorded ∨ ∀ record, disk.status = some record →
      record'.runId = record.runId) : Continues disk (disk.apply (.writeStatus record')) where
  recorded := recorded_apply disk _
  status record hrecord := ⟨record', rfl, h.imp id fun h => h record hrecord⟩

namespace DiskOk

variable {record : CodexAdoptionRecord} {text : String}

theorem writeStdout (h : DiskOk key P disk) (hrecord : disk.status = some record)
    (htext : StdoutOf P record.runId text) :
    DiskOk key P (disk.apply (.writeStdout record.runId text)) where
  record record' hrecord' := by
    obtain rfl : record = record' := Option.some.inj (hrecord.symm.trans hrecord')
    have hok := h.record record hrecord
    have hout : ∀ {r}, disk.Outputs r → r = record.runId →
        (disk.apply (.writeStdout record.runId text)).Outputs r :=
      fun hout hr => ⟨⟨text, by rw [hr]; rfl⟩, hout.2⟩
    exact ⟨hok.key_eq, fun o ho => ⟨(hok.result o ho).1, hout (hok.result o ho).2 rfl⟩, hok.effect,
      hok.effectLog, fun hc => ⟨(hok.completed hc).1, hout (hok.completed hc).2 rfl⟩,
      fun hc hmem hclean => hok.traced hc hmem ⟨hclean.result, hclean.effect, hclean.effectLog⟩,
      fun hf => hok.finished (hf.imp
        (fun hdirty hclean => hdirty ⟨hclean.result, hclean.effect, hclean.effectLog⟩) id)⟩
  blank hnone := absurd (hrecord.symm.trans hnone) (by simp)
  stdout r t ht := by
    cases ht
    exact htext
  stderr := h.stderr

theorem writeStderr (h : DiskOk key P disk) (hrecord : disk.status = some record)
    (htext : StderrOf P record.runId text) :
    DiskOk key P (disk.apply (.writeStderr record.runId text)) where
  record record' hrecord' := by
    obtain rfl : record = record' := Option.some.inj (hrecord.symm.trans hrecord')
    have hok := h.record record hrecord
    have hout : ∀ {r}, disk.Outputs r → r = record.runId →
        (disk.apply (.writeStderr record.runId text)).Outputs r :=
      fun hout hr => ⟨hout.1, text, by rw [hr]; rfl⟩
    exact ⟨hok.key_eq, fun o ho => ⟨(hok.result o ho).1, hout (hok.result o ho).2 rfl⟩, hok.effect,
      hok.effectLog, fun hc => ⟨(hok.completed hc).1, hout (hok.completed hc).2 rfl⟩,
      fun hc hmem hclean => hok.traced hc hmem ⟨hclean.result, hclean.effect, hclean.effectLog⟩,
      fun hf => hok.finished (hf.imp
        (fun hdirty hclean => hdirty ⟨hclean.result, hclean.effect, hclean.effectLog⟩) id)⟩
  blank hnone := absurd (hrecord.symm.trans hnone) (by simp)
  stdout := h.stdout
  stderr r t ht := by
    cases ht
    exact htext

theorem writeResult (h : DiskOk key P disk) (hrecord : disk.status = some record)
    (hmem : record.runId ∈ disk.recorded) {o : CodexAdoptionResultRecord}
    (ho : EndingOf P record.runId o.toEnding) (hout : disk.Outputs record.runId) :
    DiskOk key P (disk.apply (.writeResult o)) where
  record record' hrecord' := by
    obtain rfl : record = record' := Option.some.inj (hrecord.symm.trans hrecord')
    have hok := h.record record hrecord
    refine ⟨hok.key_eq, fun o' ho' => ?_, hok.effect, hok.effectLog, hok.completed,
      fun _ _ hclean => absurd hclean.result (by simp [Disk.apply]), fun _ => hmem⟩
    cases ho'
    exact ⟨ho, hout⟩
  blank hnone := absurd (hrecord.symm.trans hnone) (by simp)
  stdout := h.stdout
  stderr := h.stderr

theorem writeEffect (h : DiskOk key P disk) (hrecord : disk.status = some record)
    {e : CodexAdoptionEffectRecord} (he : EffectOf key P record.runId e) :
    DiskOk key P (disk.apply (.writeEffect record.runId e)) where
  record record' hrecord' := by
    obtain rfl : record = record' := Option.some.inj (hrecord.symm.trans hrecord')
    have hok := h.record record hrecord
    refine ⟨hok.key_eq, hok.result, fun e' he' => ?_, hok.effectLog, hok.completed,
      fun _ _ hclean => absurd hclean.effect (by simp [Disk.apply]), fun _ => List.mem_cons_self⟩
    cases he'
    exact he
  blank hnone := absurd (hrecord.symm.trans hnone) (by simp)
  stdout := h.stdout
  stderr := h.stderr

theorem appendEffectLog (h : DiskOk key P disk) (hrecord : disk.status = some record)
    {e : CodexAdoptionEffectRecord} (he : EffectOf key P record.runId e) :
    DiskOk key P (disk.apply (.appendEffectLog record.runId e)) where
  record record' hrecord' := by
    obtain rfl : record = record' := Option.some.inj (hrecord.symm.trans hrecord')
    have hok := h.record record hrecord
    refine ⟨hok.key_eq, hok.result, hok.effect, fun e' he' => ?_, hok.completed,
      fun _ _ hclean => List.append_ne_nil_of_right_ne_nil _ (List.cons_ne_nil _ _) hclean.effectLog,
      fun _ => List.mem_cons_self⟩
    rcases List.mem_append.1 he' with he' | he'
    · exact hok.effectLog e' he'
    · rw [List.mem_singleton.1 he']
      exact he
  blank hnone := absurd (hrecord.symm.trans hnone) (by simp)
  stdout := h.stdout
  stderr := h.stderr

/-- A record is completed with an ending of its run. -/
theorem complete (h : DiskOk key P disk) (hrecord : disk.status = some record)
    {record' : CodexAdoptionRecord} (hrun : record'.runId = record.runId)
    (hkey : record'.key = record.key) (hmem : record.runId ∈ disk.recorded)
    {o : CodexAdoptionResultRecord} (ho : EndingOf P record.runId o.toEnding)
    (hout : disk.Outputs record.runId) : DiskOk key P (disk.apply (.writeStatus (Disk.completeRecord record' o))) where
  record record'' hrecord'' := by
    obtain rfl : Disk.completeRecord record' o = record'' := Option.some.inj hrecord''
    have hok := h.record record hrecord
    have hsame : (Disk.completeRecord record' o).runId = record.runId := hrun
    refine ⟨hkey.trans hok.key_eq, hsame ▸ hok.result, hsame ▸ hok.effect, hsame ▸ hok.effectLog,
      fun _ => ⟨⟨rfl, o.toEnding, hsame ▸ ho, rfl, rfl, rfl, rfl, rfl⟩, hsame ▸ hout⟩,
      fun hc => absurd rfl hc, fun _ => hsame ▸ hmem⟩
  blank hnone := by cases hnone
  stdout := h.stdout
  stderr := h.stderr

/-- A record that is not completed goes over a clean disk. -/
theorem writeStatus_of_clean (h : DiskOk key P disk) (hclean : disk.Clean)
    (hkey : record.key = key) (hstatus : record.status ≠ .completed)
    (huntraced : record.runId ∉ disk.recorded) :
    DiskOk key P (disk.apply (.writeStatus record)) where
  record record' hrecord' := by
    obtain rfl : record = record' := Option.some.inj hrecord'
    refine ⟨hkey, fun o ho => ?_, fun e he => ?_, fun e he => ?_, fun hc => absurd hc hstatus,
      fun _ hmem => absurd hmem huntraced, fun hf => hf.elim (fun hdirty => ?_) (absurd · hstatus)⟩
    · exact absurd (hclean.result.symm.trans ho) (by simp)
    · exact absurd (hclean.effect.symm.trans he) (by simp)
    · have he : e ∈ disk.effectLog := he
      rw [hclean.effectLog] at he
      cases he
    · exact absurd ⟨hclean.result, hclean.effect, hclean.effectLog⟩ hdirty
  blank hnone := by cases hnone
  stdout := h.stdout
  stderr := h.stderr

/-- An outcome may be removed where there is none or where the record is completed. -/
theorem remove (h : DiskOk key P disk) (hsettled : ∀ record, disk.status = some record →
      record.status ≠ .completed → disk.Clean) {op : Op}
    (hop : op = .removeResult ∨ op = .removeEffect ∨ op = .removeEffectLog) :
    DiskOk key P (disk.apply op) := by
  have hmono : disk.Clean → (disk.apply op).Clean := by
    rintro ⟨hr, he, hl⟩
    rcases hop with rfl | rfl | rfl
    · exact ⟨rfl, he, hl⟩
    · exact ⟨hr, rfl, hl⟩
    · exact ⟨hr, he, rfl⟩
  have hsub : (disk.apply op).status = disk.status ∧ (disk.apply op).stdout = disk.stdout ∧
      (disk.apply op).stderr = disk.stderr ∧ (disk.apply op).recorded = disk.recorded ∧
      (∀ o, (disk.apply op).result = some o → disk.result = some o) ∧
      (∀ e, (disk.apply op).effect = some e → disk.effect = some e) ∧
      ∀ e ∈ (disk.apply op).effectLog, e ∈ disk.effectLog := by
    rcases hop with rfl | rfl | rfl <;> simp [Disk.apply]
  obtain ⟨hstatus, hstdout, hstderr, hrecorded, hresult, heffect, hlog⟩ := hsub
  refine ⟨fun record hrecord => ?_, fun hnone => hmono (h.blank (hstatus ▸ hnone)),
    hstdout ▸ h.stdout, hstderr ▸ h.stderr⟩
  have hrecord := hstatus ▸ hrecord
  have hok := h.record record hrecord
  have hout : disk.Outputs record.runId → (disk.apply op).Outputs record.runId := by
    rw [Disk.Outputs, Disk.Outputs, hstdout, hstderr]
    exact id
  refine ⟨hok.key_eq, fun o ho => ?_, fun e he => hok.effect e (heffect e he),
    fun e he => hok.effectLog e (hlog e he), fun hc => ?_, fun hc hmem _ => ?_, fun hf => ?_⟩
  · exact ⟨(hok.result o (hresult o ho)).1, hout (hok.result o (hresult o ho)).2⟩
  · exact ⟨(hok.completed hc).1, hout (hok.completed hc).2⟩
  · exact hok.traced hc (hrecorded ▸ hmem) (hsettled record hrecord hc)
  · rw [hrecorded]
    exact hok.finished (hf.imp (fun hdirty hclean => hdirty (hmono hclean)) id)

end DiskOk

end Disk

/-! ## The parties -/

/-- The worker has claimed its run and has no result yet. -/
def WorkerPhase.Busy : WorkerPhase → Prop
  | .releasing | .ready | .pidLocking _ | .pidWriting _ | .awaiting => True
  | _ => False

/-- The worker has `run.lock` from its dispatch. -/
def WorkerPhase.Claims : WorkerPhase → Prop
  | .claiming | .recovering _ | .witnessing | .judging | .claimed _ | .releasing => True
  | _ => False

section Parties

variable (key : String) (s : AdoptionState) (d : ℕ)

/-- A run is under way. -/
def Live : Prop := (s.worker d).Busy ∨ s.child d = .running

/-- No run is under way. -/
def Quiet : Prop := ∀ d, ¬ Live s d

/-- A party has `run.lock`. -/
def HasRun (p : Party) : Prop := p ∈ s.locks .run

/-- A dispatch has not started its run. -/
structure Fresh (disk : Disk) (worker : WorkerPhase) (d : ℕ) : Prop where
  untraced : d ∉ disk.recorded
  worker : worker = .absent

/-- The record is of a run that had left no trace when a dispatch began to wait. -/
structure Watching (disk : Disk) (seen : List ℕ) : Prop where
  seen_subset : ∀ x ∈ seen, x ∈ disk.recorded
  status : ∃ record, disk.status = some record ∧ record.runId ∉ seen

/-- A dispatch in its mode. -/
def ModeOk : Option (List ℕ) → Prop
  | none => Fresh s.disk (s.worker d) d
  | some seen => Watching s.disk seen

/-- The record a dispatch has read. -/
def ReaderOk (mode : Option (List ℕ)) : Reader → Prop
  | .status => True
  | .stdout record | .stderr record _ =>
    CompletedOk s.produced record ∧ ∀ seen ∈ mode, record.runId ∉ seen

/-- There is a completed record. -/
def IsCompleted (disk : Disk) : Prop := ∃ record, disk.status = some record ∧ record.status = .completed

/-- There is nothing to recover. -/
def Settled (disk : Disk) : Prop :=
  ∀ record, disk.status = some record → record.status ≠ .completed → disk.Clean

/-- The intent of a dispatch is on the disk, and nothing else. -/
structure ReadyFor (d : ℕ) (disk : Disk) : Prop where
  clean : disk.Clean
  status : ∃ record, disk.status = some record ∧ record.status = .intent ∧ record.runId = d

/-- The record is of a run that has left no trace. -/
def Untraced (disk : Disk) : Prop :=
  ∃ record, disk.status = some record ∧ record.runId ∉ disk.recorded

/-- What holds of a dispatch in each phase. -/
def CallerOk : CallerPhase → Prop
  | .absent => Fresh s.disk (s.worker d) d
  | .reading mode reader => ModeOk s d mode ∧ ReaderOk s mode reader
  | .locking mode => ModeOk s d mode
  | .holding mode => ModeOk s d mode ∧ HasRun s (.caller d)
  | .recovering mode todo => ModeOk s d mode ∧ HasRun s (.caller d) ∧ Quiet s ∧
      (∀ op ∈ todo, ∀ disk : Disk, (disk.apply op).recorded = disk.recorded) ∧
      Safe key s.produced IsCompleted s.disk todo
  | .recovered mode => ModeOk s d mode ∧ HasRun s (.caller d) ∧ IsCompleted s.disk
  | .checking => Fresh s.disk (s.worker d) d ∧ HasRun s (.caller d) ∧ Settled s.disk
  | .starting todo => Fresh s.disk (s.worker d) d ∧ HasRun s (.caller d) ∧ Quiet s ∧
      (∀ op ∈ todo, ∀ disk : Disk, (disk.apply op).recorded = disk.recorded) ∧
      Safe key s.produced (ReadyFor d) s.disk todo
  | .spawning => Fresh s.disk (s.worker d) d ∧ HasRun s (.caller d) ∧ Quiet s ∧ ReadyFor d s.disk
  | .leaving => HasRun s (.caller d) ∧ Untraced s.disk
  | .polling seen => Watching s.disk seen
  | .killing => HasRun s (.caller d)
  | .killLocking | .timingOut _ | .done => True

/-- A worker that has the intent of its dispatch before it. -/
def Claiming : Prop :=
  HasRun s (.worker d) ∧ Quiet s ∧ ReadyFor d s.disk ∧ d ∉ s.disk.recorded ∧ s.child d = .absent

/-- A worker has its witness. -/
def HasWitness : Prop := Party.worker d ∈ s.locks (.witness d)

/-- A record is the running one of a run. -/
structure RunningOf (record : CodexAdoptionRecord) : Prop where
  key_eq : record.key = key
  runId : record.runId = d
  status : record.status = .running

/-- What holds of a worker in each phase. -/
def WorkerOk : WorkerPhase → Prop
  | .absent => s.child d = .absent
  | .done => True
  | .claiming | .witnessing => Claiming s d
  | .recovering _ => False
  | .judging => Claiming s d ∧ HasWitness s d
  | .claimed record => Claiming s d ∧ HasWitness s d ∧ RunningOf key d record
  | .releasing => HasRun s (.worker d) ∧ HasWitness s d ∧ s.child d = .absent ∧ d ∉ s.disk.recorded
  | .ready => HasWitness s d ∧ s.child d = .absent
  | .pidLocking _ | .awaiting => HasWitness s d
  | .pidWriting todo => HasRun s (.worker d) ∧ HasWitness s d ∧
      ∀ op ∈ todo, ∃ record, op = .writeStatus record ∧ RunningOf key d record
  | .receiptLocking result | .publishLocking result =>
    (d, result) ∈ s.produced ∧ s.child d ≠ .running
  | .receipting result todo => (d, result) ∈ s.produced ∧ s.child d ≠ .running ∧
      HasRun s (.worker d) ∧ (todo ≠ [] → Quiet s) ∧
      (∀ op ∈ todo, ∀ disk : Disk, ∀ x ∈ (disk.apply op).recorded, x ∈ disk.recorded ∨ x = d) ∧
      Safe key s.produced (fun _ => True) s.disk todo
  | .publishing todo => HasRun s (.worker d) ∧ (todo ≠ [] → Quiet s) ∧
      (∀ op ∈ todo, ∀ disk : Disk, ∀ x ∈ (disk.apply op).recorded, x ∈ disk.recorded ∨ x = d) ∧
      Safe key s.produced (fun _ => True) s.disk todo

/-- The running record is that of a run, and there is no outcome. -/
def UnderWay (d : ℕ) (disk : Disk) : Prop :=
  disk.Clean ∧ ∃ record, disk.status = some record ∧ record.status = .running ∧ record.runId = d

/-- A dispatch that is about to close the lock, and its worker, which has it too. -/
def Pair (p q : Party) : Prop :=
  ∃ d, p = .caller d ∧ q = .worker d ∧ s.caller d = .leaving ∧ (s.worker d).Claims

/-- What holds in every state. -/
structure Inv : Prop where
  disk : DiskOk key s.produced s.disk
  live : ∀ d, Live s d → UnderWay d s.disk
  callers : ∀ d, CallerOk key s d (s.caller d)
  workers : ∀ d, WorkerOk key s d (s.worker d)
  children : ∀ d, s.child d = .running → Party.child d ∈ s.locks (.witness d)
  sharing : ∀ p q, HasRun s p → HasRun s q → p = q ∨ Pair s p q ∨ Pair s q p

end Parties

/-! ## What the steps of one party leave alone -/

/-- A party writes. -/
structure Writes (p : Party) (s s' : AdoptionState) : Prop where
  hasRun : HasRun s p
  notLeaving : ∀ d, p = .caller d → s.caller d ≠ .leaving
  continues : Continues s.disk s'.disk
  recorded : ∀ x ∈ s'.disk.recorded, x ∈ s.disk.recorded ∨ p = .worker x
  leaving : ∀ d, s.caller d = .leaving → Untraced s'.disk

/-- A party goes on. -/
structure Frame (p : Party) (s s' : AdoptionState) : Prop where
  present : ∀ d, p = .worker d → s.worker d = .absent → s.caller d = .leaving
  caller : ∀ d, p ≠ .caller d → s'.caller d = s.caller d
  worker : ∀ d, p ≠ .worker d → s'.worker d = s.worker d
  child : ∀ d, p ≠ .worker d →
    s'.child d = s.child d ∨ (s.child d = .running ∧ s'.child d = .gone)
  locks : ∀ q lock, q ≠ p → q ∈ s.locks lock → q ∈ s'.locks lock
  produced : ∀ x ∈ s.produced, x ∈ s'.produced
  disk : (s'.disk = s.disk ∧ ∀ d, Live s' d → Live s d) ∨ Writes p s s'

section Frame

variable {key : String} {s s' : AdoptionState} {p : Party} {d : ℕ}

/-- The record stays one of a run that had left no trace when the waiting began. -/
theorem Watching.continues {disk disk' : Disk} {seen : List ℕ} (h : Watching disk seen)
    (hcont : Continues disk disk') : Watching disk' seen := by
  obtain ⟨record, hrecord, hnot⟩ := h.status
  obtain ⟨record', hrecord', hrun⟩ := hcont.status record hrecord
  refine ⟨fun x hx => hcont.recorded x (h.seen_subset x hx), record', hrecord', ?_⟩
  rcases hrun with hrun | hrun
  · exact fun hmem => hrun (h.seen_subset _ hmem)
  · rwa [hrun]

/-- Beside a party that writes only a dispatch that is about to close the lock can have it. -/
theorem Writes.caller_eq_leaving (hw : Writes p s s') (h : Inv key s) (hne : p ≠ .caller d)
    (hrun : HasRun s (.caller d)) : s.caller d = .leaving := by
  rcases h.sharing p (.caller d) hw.hasRun hrun with heq | ⟨d', _, heq, _⟩ | ⟨d', heq, _, hleaving, _⟩
  · exact absurd heq hne
  · cases heq
  · cases heq
    exact hleaving

theorem Writes.not_worker (hw : Writes p s s') (h : Inv key s) (hne : p ≠ .worker d) :
    ¬ HasRun s (.worker d) := by
  intro hrun
  rcases h.sharing p (.worker d) hw.hasRun hrun with heq | ⟨d', hp, _, hleaving, _⟩ | ⟨d', heq, _⟩
  · exact hne heq
  · exact hw.notLeaving d' hp hleaving
  · cases heq

/-- What holds of a worker holds on as long as nobody takes from it what it has. -/
theorem WorkerOk.move {phase : WorkerPhase} (h : WorkerOk key s d phase)
    (hstill : HasRun s (.worker d) → s'.disk = s.disk ∧ ∀ d, Live s' d → Live s d)
    (hlocks : ∀ lock, Party.worker d ∈ s.locks lock → Party.worker d ∈ s'.locks lock)
    (hchild : s'.child d = s.child d ∨ (s.child d = .running ∧ s'.child d = .gone))
    (hproduced : ∀ x ∈ s.produced, x ∈ s'.produced) : WorkerOk key s' d phase := by
  have habsent : s.child d = .absent → s'.child d = .absent := by
    intro h
    rcases hchild with heq | ⟨hrunning, _⟩
    · rw [heq, h]
    · rw [h] at hrunning
      cases hrunning
  have hidle : s.child d ≠ .running → s'.child d ≠ .running := by
    intro h
    rcases hchild with heq | ⟨hrunning, _⟩
    · rwa [heq]
    · exact absurd hrunning h
  have hclaiming : Claiming s d → Claiming s' d := by
    rintro ⟨hrun, hquiet, hready, huntraced, hchild⟩
    obtain ⟨hdisk, hlive⟩ := hstill hrun
    exact ⟨hlocks .run hrun, fun d hd => hquiet d (hlive d hd), hdisk ▸ hready, hdisk ▸ huntraced,
      habsent hchild⟩
  have hwitness : HasWitness s d → HasWitness s' d := hlocks (.witness d)
  cases phase with
  | absent => exact habsent h
  | done => trivial
  | claiming => exact hclaiming h
  | witnessing => exact hclaiming h
  | recovering todo => exact h
  | judging => exact ⟨hclaiming h.1, hwitness h.2⟩
  | claimed record => exact ⟨hclaiming h.1, hwitness h.2.1, h.2.2⟩
  | releasing =>
    obtain ⟨hrun, hw, hchild, huntraced⟩ := h
    exact ⟨hlocks .run hrun, hwitness hw, habsent hchild, (hstill hrun).1 ▸ huntraced⟩
  | ready => exact ⟨hwitness h.1, habsent h.2⟩
  | pidLocking pid => exact hwitness h
  | pidWriting todo => exact ⟨hlocks .run h.1, hwitness h.2.1, h.2.2⟩
  | awaiting => exact hwitness h
  | receiptLocking result => exact ⟨hproduced _ h.1, hidle h.2⟩
  | publishLocking result => exact ⟨hproduced _ h.1, hidle h.2⟩
  | receipting result todo =>
    obtain ⟨hresult, hchild, hrun, hquiet, hops, hsafe⟩ := h
    obtain ⟨hdisk, hlive⟩ := hstill hrun
    exact ⟨hproduced _ hresult, hidle hchild, hlocks .run hrun,
      fun hne d hd => hquiet hne d (hlive d hd), hops, hdisk ▸ hsafe.mono hproduced⟩
  | publishing todo =>
    obtain ⟨hrun, hquiet, hops, hsafe⟩ := h
    obtain ⟨hdisk, hlive⟩ := hstill hrun
    exact ⟨hlocks .run hrun, fun hne d hd => hquiet hne d (hlive d hd), hops,
      hdisk ▸ hsafe.mono hproduced⟩

namespace Frame

variable (hf : Frame p s s')
include hf

theorem fresh (hphase : s.caller d ≠ .leaving) (h : Fresh s.disk (s.worker d) d) :
    Fresh s'.disk (s'.worker d) d := by
  have hp : p ≠ .worker d := fun hp => hphase (hf.present d hp h.worker)
  refine ⟨?_, (hf.worker d hp).trans h.worker⟩
  rcases hf.disk with ⟨hdisk, _⟩ | hw
  · rw [hdisk]
    exact h.untraced
  · intro hmem
    exact (hw.recorded d hmem).elim h.untraced hp

theorem watching {seen : List ℕ} (h : Watching s.disk seen) : Watching s'.disk seen := by
  rcases hf.disk with ⟨hdisk, _⟩ | hw
  · rwa [hdisk]
  · exact h.continues hw.continues

theorem modeOk {mode : Option (List ℕ)} (hphase : s.caller d ≠ .leaving) (h : ModeOk s d mode) :
    ModeOk s' d mode := by
  cases mode with
  | none => exact hf.fresh hphase h
  | some seen => exact hf.watching h

theorem readerOk {mode : Option (List ℕ)} {reader : Reader} (h : ReaderOk s mode reader) :
    ReaderOk s' mode reader := by
  cases reader with
  | status => trivial
  | stdout record => exact ⟨h.1.mono hf.produced, h.2⟩
  | stderr record stdout => exact ⟨h.1.mono hf.produced, h.2⟩

theorem hasRun {q : Party} (hq : q ≠ p) (h : HasRun s q) : HasRun s' q := hf.locks q .run hq h

/-- A dispatch that has the lock and is not about to close it finds the disk as it was. -/
theorem still_caller (h : Inv key s) (hne : p ≠ .caller d) (hrun : HasRun s (.caller d))
    (hphase : s.caller d ≠ .leaving) : s'.disk = s.disk ∧ ∀ d, Live s' d → Live s d :=
  hf.disk.resolve_right fun hw => hphase (hw.caller_eq_leaving h hne hrun)

theorem still_worker (h : Inv key s) (hne : p ≠ .worker d) (hrun : HasRun s (.worker d)) :
    s'.disk = s.disk ∧ ∀ d, Live s' d → Live s d :=
  hf.disk.resolve_right fun hw => hw.not_worker h hne hrun

/-- Other dispatches do not notice. -/
theorem callerOk (h : Inv key s) (hne : p ≠ .caller d) : CallerOk key s' d (s'.caller d) := by
  have hok := h.callers d
  have hrun : HasRun s (.caller d) → HasRun s' (.caller d) := hf.hasRun (Ne.symm hne)
  have hstill := hf.still_caller h hne
  rw [hf.caller d hne]
  cases hphase : s.caller d with
  | absent =>
    rw [hphase] at hok
    have hnot : s.caller d ≠ .leaving := by rw [hphase]; exact CallerPhase.noConfusion
    exact hf.fresh hnot hok
  | reading mode reader =>
    rw [hphase] at hok
    have hnot : s.caller d ≠ .leaving := by rw [hphase]; exact CallerPhase.noConfusion
    exact ⟨hf.modeOk hnot hok.1, hf.readerOk hok.2⟩
  | locking mode =>
    rw [hphase] at hok
    have hnot : s.caller d ≠ .leaving := by rw [hphase]; exact CallerPhase.noConfusion
    exact hf.modeOk hnot hok
  | holding mode =>
    rw [hphase] at hok
    have hnot : s.caller d ≠ .leaving := by rw [hphase]; exact CallerPhase.noConfusion
    exact ⟨hf.modeOk hnot hok.1, hrun hok.2⟩
  | recovering mode todo =>
    rw [hphase] at hok
    have hnot : s.caller d ≠ .leaving := by rw [hphase]; exact CallerPhase.noConfusion
    obtain ⟨hmode, hlock, hquiet, hops, hsafe⟩ := hok
    obtain ⟨hdisk, hlive⟩ := hstill hlock hnot
    exact ⟨hf.modeOk hnot hmode, hrun hlock, fun d hd => hquiet d (hlive d hd), hops,
      hdisk ▸ hsafe.mono hf.produced⟩
  | recovered mode =>
    rw [hphase] at hok
    have hnot : s.caller d ≠ .leaving := by rw [hphase]; exact CallerPhase.noConfusion
    obtain ⟨hmode, hlock, hcompleted⟩ := hok
    obtain ⟨hdisk, _⟩ := hstill hlock hnot
    exact ⟨hf.modeOk hnot hmode, hrun hlock, hdisk ▸ hcompleted⟩
  | checking =>
    rw [hphase] at hok
    have hnot : s.caller d ≠ .leaving := by rw [hphase]; exact CallerPhase.noConfusion
    obtain ⟨hfresh, hlock, hsettled⟩ := hok
    obtain ⟨hdisk, _⟩ := hstill hlock hnot
    exact ⟨hf.fresh hnot hfresh, hrun hlock, hdisk ▸ hsettled⟩
  | starting todo =>
    rw [hphase] at hok
    have hnot : s.caller d ≠ .leaving := by rw [hphase]; exact CallerPhase.noConfusion
    obtain ⟨hfresh, hlock, hquiet, hops, hsafe⟩ := hok
    obtain ⟨hdisk, hlive⟩ := hstill hlock hnot
    exact ⟨hf.fresh hnot hfresh, hrun hlock, fun d hd => hquiet d (hlive d hd), hops,
      hdisk ▸ hsafe.mono hf.produced⟩
  | spawning =>
    rw [hphase] at hok
    have hnot : s.caller d ≠ .leaving := by rw [hphase]; exact CallerPhase.noConfusion
    obtain ⟨hfresh, hlock, hquiet, hready⟩ := hok
    obtain ⟨hdisk, hlive⟩ := hstill hlock hnot
    exact ⟨hf.fresh hnot hfresh, hrun hlock, fun d hd => hquiet d (hlive d hd), hdisk ▸ hready⟩
  | leaving =>
    rw [hphase] at hok
    refine ⟨hrun hok.1, ?_⟩
    rcases hf.disk with ⟨hdisk, _⟩ | hw
    · exact hdisk ▸ hok.2
    · exact hw.leaving d hphase
  | polling seen =>
    rw [hphase] at hok
    exact hf.watching hok
  | killing =>
    rw [hphase] at hok
    exact hrun hok
  | killLocking => trivial
  | timingOut stdout => trivial
  | done => trivial

/-- Other workers do not notice. -/
theorem workerOk (h : Inv key s) (hne : p ≠ .worker d) : WorkerOk key s' d (s'.worker d) := by
  rw [hf.worker d hne]
  exact (h.workers d).move (hf.still_worker h hne) (fun lock => hf.locks _ lock (Ne.symm hne))
    (hf.child d hne) hf.produced

end Frame

/-- Who shares the lock after a step that hands it to nobody. -/
theorem Inv.sharing_of_subset (h : Inv key s) (hf : Frame p s s')
    (hsub : ∀ q, HasRun s' q → HasRun s q)
    (hcaller : ∀ d, p = .caller d → s.caller d = .leaving → ¬ HasRun s' (.caller d))
    (hworker : ∀ d, p = .worker d → (s.worker d).Claims → (s'.worker d).Claims ∨
      ¬ HasRun s' (.worker d)) (q q' : Party) (hq : HasRun s' q) (hq' : HasRun s' q') :
    q = q' ∨ Pair s' q q' ∨ Pair s' q' q := by
  have hpair : ∀ {a b : Party}, HasRun s' a → HasRun s' b → Pair s a b → Pair s' a b := by
    rintro a b ha hb ⟨d, rfl, rfl, hleaving, hclaims⟩
    refine ⟨d, rfl, rfl, ?_, ?_⟩
    · rw [hf.caller d fun hp => hcaller d hp hleaving ha]
      exact hleaving
    · by_cases hp : p = .worker d
      · exact (hworker d hp hclaims).resolve_right (not_not.2 hb)
      · rw [hf.worker d hp]
        exact hclaims
  rcases h.sharing q q' (hsub q hq) (hsub q' hq') with heq | hp | hp
  · exact Or.inl heq
  · exact Or.inr (Or.inl (hpair hq hq' hp))
  · exact Or.inr (Or.inr (hpair hq' hq hp))

/-- **A step of one party.**  What is left to show is about the party itself. -/
theorem Inv.frame (h : Inv key s) (hf : Frame p s s') (hdisk : DiskOk key s'.produced s'.disk)
    (hlive : ∀ d, Live s' d → UnderWay d s'.disk)
    (hcaller : ∀ d, p = .caller d → CallerOk key s' d (s'.caller d))
    (hworker : ∀ d, p = .worker d → WorkerOk key s' d (s'.worker d) ∧
      (s'.child d = .running → Party.child d ∈ s'.locks (.witness d)))
    (hchild : ∀ d, p = .child d → s'.child d ≠ .running)
    (hsharing : ∀ q q', HasRun s' q → HasRun s' q' → q = q' ∨ Pair s' q q' ∨ Pair s' q' q) :
    Inv key s' where
  disk := hdisk
  live := hlive
  callers d := by
    by_cases hp : p = .caller d
    · exact hcaller d hp
    · exact hf.callerOk h hp
  workers d := by
    by_cases hp : p = .worker d
    · exact (hworker d hp).1
    · exact hf.workerOk h hp
  children d hd := by
    by_cases hp : p = .worker d
    · exact (hworker d hp).2 hd
    · by_cases hp' : p = .child d
      · exact absurd hd (hchild d hp')
      · rcases hf.child d hp with heq | ⟨_, hgone⟩
        · exact hf.locks _ _ (Ne.symm hp') (h.children d (heq ▸ hd))
        · rw [hd] at hgone
          cases hgone
  sharing := hsharing

/-- A step that leaves the disk as it is. -/
theorem Inv.calm (h : Inv key s) (hf : Frame p s s') (hdisk : s'.disk = s.disk)
    (hlive : ∀ d, Live s' d → Live s d)
    (hcaller : ∀ d, p = .caller d → CallerOk key s' d (s'.caller d))
    (hworker : ∀ d, p = .worker d → WorkerOk key s' d (s'.worker d) ∧
      (s'.child d = .running → Party.child d ∈ s'.locks (.witness d)))
    (hchild : ∀ d, p = .child d → s'.child d ≠ .running)
    (hsharing : ∀ q q', HasRun s' q → HasRun s' q' → q = q' ∨ Pair s' q q' ∨ Pair s' q' q) :
    Inv key s' :=
  h.frame hf (hdisk ▸ h.disk.mono hf.produced) (fun d hd => hdisk ▸ h.live d (hlive d hd)) hcaller
    hworker hchild hsharing

/-- A party takes a free lock. -/
theorem Inv.take (h : Inv key s) {lock : AdoptionLock} (hfree : s.locks lock = []) (p : Party) :
    Inv key (s.take lock p) := by
  have hl : ∀ q lock', q ∈ s.locks lock' → q ∈ s.locks.take lock p lock' := by
    intro q lock' hmem
    rw [Locks.mem_take]
    split
    · rename_i heq
      rw [heq, hfree] at hmem
      cases hmem
    · exact hmem
  -- nobody loses a lock, so that the step may be put down to anybody
  have hf : Frame (.prober 0) s (s.take lock p) := by
    refine ⟨?_, fun _ _ => rfl, fun _ _ => rfl, fun _ _ => Or.inl rfl, fun q lock' _ => hl q lock',
      fun _ hx => hx, Or.inl ⟨rfl, fun _ h => h⟩⟩
    intro d hd
    cases hd
  refine h.calm hf rfl (fun _ h => h) ?_ ?_ ?_ ?_
  · intro d hd
    cases hd
  · intro d hd
    cases hd
  · intro d hd
    cases hd
  · intro q q' hq hq'
    have hq : q ∈ s.locks.take lock p .run := hq
    have hq' : q' ∈ s.locks.take lock p .run := hq'
    rw [Locks.mem_take] at hq hq'
    split at hq
    · rw [if_pos ‹_›] at hq'
      exact Or.inl (hq.trans hq'.symm)
    · rw [if_neg ‹_›] at hq'
      exact h.sharing q q' hq hq'

theorem hasRun_take (s : AdoptionState) (p : Party) : HasRun (s.take .run p) p := by
  show p ∈ s.locks.take .run p .run
  rw [Locks.mem_take, if_pos rfl]

theorem hasRun_take_witness (h : HasRun s p) (r : ℕ) (q : Party) : HasRun (s.take (.witness r) q) p := by
  show p ∈ s.locks.take (.witness r) q .run
  rw [Locks.mem_take, if_neg AdoptionLock.noConfusion]
  exact h

theorem hasWitness_take_witness (s : AdoptionState) (d : ℕ) :
    HasWitness (s.take (.witness d) (.worker d)) d := by
  show Party.worker d ∈ s.locks.take (.witness d) (.worker d) (.witness d)
  rw [Locks.mem_take, if_pos rfl]

theorem hasWitness_take (h : HasWitness s d) (q : Party) : HasWitness (s.take .run q) d := by
  show Party.worker d ∈ s.locks.take .run q (.witness d)
  rw [Locks.mem_take, if_neg AdoptionLock.noConfusion]
  exact h

theorem hasWitness_close (h : HasWitness s d) (q : Party) : HasWitness (s.close .run q) d := by
  show Party.worker d ∈ s.locks.drop .run q (.witness d)
  rw [Locks.mem_drop]
  exact ⟨h, fun heq => absurd heq.1 AdoptionLock.noConfusion⟩

end Frame

/-! ## The steps a dispatch can take -/

section Caller

variable {key : String} {s : AdoptionState} {d : ℕ} {phase : CallerPhase}

/-- A dispatch comes to a phase, and something happens to its locks. -/
theorem frame_caller (s : AdoptionState) (d : ℕ) (phase : CallerPhase)
    {l : Locks AdoptionLock Party} (hl : ∀ q lock, q ≠ .caller d → q ∈ s.locks lock → q ∈ l lock) :
    Frame (.caller d) s { s with caller := Function.update s.caller d phase, locks := l } where
  present d' h := by cases h
  caller d' hne := Function.update_of_ne (fun heq => hne (by rw [heq])) _ _
  worker _ _ := rfl
  child _ _ := Or.inl rfl
  locks := hl
  produced _ hx := hx
  disk := Or.inl ⟨rfl, fun _ h => h⟩

theorem Inv.caller (h : Inv key s) {l : Locks AdoptionLock Party}
    (hl : ∀ q lock, q ≠ .caller d → q ∈ s.locks lock → q ∈ l lock)
    (hok : CallerOk key { s with caller := Function.update s.caller d phase, locks := l } d phase)
    (hsharing : ∀ q q', q ∈ l .run → q' ∈ l .run → q = q' ∨
      Pair { s with caller := Function.update s.caller d phase, locks := l } q q' ∨
      Pair { s with caller := Function.update s.caller d phase, locks := l } q' q) :
    Inv key { s with caller := Function.update s.caller d phase, locks := l } := by
  refine h.calm (frame_caller s d phase hl) rfl (fun _ h => h) ?_ ?_ ?_ hsharing
  · intro d' hd'
    cases hd'
    show CallerOk key _ d (Function.update s.caller d phase d)
    rw [Function.update_self]
    exact hok
  · intro d' hd'
    cases hd'
  · intro d' hd'
    cases hd'

/-- A dispatch goes on, with its locks as they are. -/
theorem Inv.callerTo (h : Inv key s) (hphase : s.caller d ≠ .leaving)
    (hok : CallerOk key s d phase) : Inv key (s.callerTo d phase) := by
  have hf := frame_caller s d phase (l := s.locks) fun _ _ _ h => h
  refine h.caller (fun _ _ _ h => h) ?_ ?_
  · cases phase <;> exact hok
  · refine h.sharing_of_subset hf (fun _ h => h) ?_ ?_
    · intro d' hd' hleaving
      cases hd'
      exact absurd hleaving hphase
    · intro d' hd'
      cases hd'

/-- A dispatch closes `run.lock`. -/
theorem Inv.callerClose (h : Inv key s)
    (hok : CallerOk key ((s.callerTo d phase).close .run (.caller d)) d phase) :
    Inv key ((s.callerTo d phase).close .run (.caller d)) := by
  have hl : ∀ (q : Party) (lock : AdoptionLock), q ≠ .caller d → q ∈ s.locks lock →
      q ∈ s.locks.drop .run (.caller d) lock :=
    fun q lock hq hmem => Locks.mem_drop.2 ⟨hmem, fun heq => hq heq.2⟩
  have hdrop : ∀ q, q ∈ s.locks.drop .run (.caller d) .run → q ∈ s.locks .run ∧ q ≠ .caller d := by
    intro q hq
    obtain ⟨hmem, hne⟩ := Locks.mem_drop.1 hq
    exact ⟨hmem, fun heq => hne ⟨rfl, heq⟩⟩
  refine h.caller hl hok (h.sharing_of_subset (frame_caller s d phase hl) ?_ ?_ ?_)
  · exact fun q hq => (hdrop q hq).1
  · intro d' hd' _ hrun
    cases hd'
    exact (hdrop _ hrun).2 rfl
  · intro d' hd'
    cases hd'

/-- A dispatch is gone. -/
theorem Inv.callerStop (h : Inv key s) (d : ℕ) : Inv key (s.stop (.caller d)) := by
  have hl : ∀ (q : Party) (lock : AdoptionLock), q ≠ .caller d → q ∈ s.locks lock →
      q ∈ s.locks.die (.caller d) lock :=
    fun q lock hq hmem => Locks.mem_die.2 ⟨hmem, hq⟩
  refine h.caller hl trivial (h.sharing_of_subset (frame_caller s d .done hl) ?_ ?_ ?_)
  · intro q hq
    exact (Locks.mem_die.1 hq).1
  · intro d' hd' _ hrun
    cases hd'
    exact (Locks.mem_die.1 hrun).2 rfl
  · intro d' hd'
    cases hd'

end Caller

/-! ## The steps a worker can take -/

section Worker

variable {key : String} {s : AdoptionState} {d : ℕ} {phase : WorkerPhase}

theorem live_of_workerTo (hbusy : phase.Busy → Live s d) {d' : ℕ} (h : Live (s.workerTo d phase) d') :
    Live s d' := by
  rcases h with h | h
  · have h : (Function.update s.worker d phase d').Busy := h
    by_cases heq : d' = d
    · subst heq
      rw [Function.update_self] at h
      exact hbusy h
    · rw [Function.update_of_ne heq] at h
      exact Or.inl h
  · exact Or.inr h

/-- A worker comes to a phase, and something happens to its locks. -/
theorem Inv.worker (h : Inv key s) (hpresent : s.worker d ≠ .absent) {l : Locks AdoptionLock Party}
    (hl : ∀ q lock, q ≠ .worker d → q ∈ s.locks lock → q ∈ l lock) (hbusy : phase.Busy → Live s d)
    (hok : WorkerOk key { s with worker := Function.update s.worker d phase, locks := l } d phase)
    (hsub : ∀ q, q ∈ l .run → HasRun s q)
    (hclaims : (s.worker d).Claims → phase.Claims ∨ Party.worker d ∉ l .run) :
    Inv key { s with worker := Function.update s.worker d phase, locks := l } := by
  have hlive : ∀ d', Live { s with worker := Function.update s.worker d phase, locks := l } d' →
      Live s d' := fun d' hd' => live_of_workerTo hbusy hd'
  have hf : Frame (.worker d) s { s with worker := Function.update s.worker d phase, locks := l } := by
    refine ⟨?_, fun _ _ => rfl, ?_, fun _ _ => Or.inl rfl, hl, fun _ hx => hx, Or.inl ⟨rfl, hlive⟩⟩
    · intro d' hd' habsent
      cases hd'
      exact absurd habsent hpresent
    · intro d' hne
      exact Function.update_of_ne (fun heq => hne (by rw [heq])) _ _
  refine h.calm hf rfl hlive ?_ ?_ ?_ (h.sharing_of_subset hf hsub ?_ ?_)
  · intro d' hd'
    cases hd'
  · intro d' hd'
    cases hd'
    refine ⟨?_, fun hrunning => hl _ _ Party.noConfusion (h.children d hrunning)⟩
    show WorkerOk key _ d (Function.update s.worker d phase d)
    rw [Function.update_self]
    exact hok
  · intro d' hd'
    cases hd'
  · intro d' hd'
    cases hd'
  · intro d' hd' hc
    cases hd'
    show (Function.update s.worker d phase d).Claims ∨ _
    rw [Function.update_self]
    exact hclaims hc

/-- A worker goes on, with its locks as they are. -/
theorem Inv.workerTo (h : Inv key s) (hpresent : s.worker d ≠ .absent)
    (hbusy : phase.Busy → Live s d) (hclaims : (s.worker d).Claims → phase.Claims)
    (hok : WorkerOk key s d phase) : Inv key (s.workerTo d phase) :=
  h.worker hpresent (fun _ _ _ h => h) hbusy
    (hok.move (fun _ => ⟨rfl, fun _ hd => live_of_workerTo hbusy hd⟩) (fun _ h => h) (Or.inl rfl)
      fun _ h => h)
    (fun _ h => h) fun hc => Or.inl (hclaims hc)

/-- A worker closes `run.lock`. -/
theorem Inv.workerClose (h : Inv key s) (hpresent : s.worker d ≠ .absent)
    (hbusy : phase.Busy → Live s d)
    (hok : WorkerOk key ((s.workerTo d phase).close .run (.worker d)) d phase) :
    Inv key ((s.workerTo d phase).close .run (.worker d)) := by
  refine h.worker hpresent ?_ hbusy hok ?_ fun _ => Or.inr ?_
  · exact fun q lock hq hmem => Locks.mem_drop.2 ⟨hmem, fun heq => hq heq.2⟩
  · exact fun q hq => (Locks.mem_drop.1 hq).1
  · exact fun hmem => (Locks.mem_drop.1 hmem).2 ⟨rfl, rfl⟩

/-- A worker is gone. -/
theorem Inv.workerStop (h : Inv key s) (hpresent : s.worker d ≠ .absent) :
    Inv key (s.stop (.worker d)) := by
  refine h.worker hpresent ?_ (fun hbusy => by cases hbusy) trivial ?_ fun _ => Or.inr ?_
  · exact fun q lock hq hmem => Locks.mem_die.2 ⟨hmem, hq⟩
  · exact fun q hq => (Locks.mem_die.1 hq).1
  · exact fun hmem => (Locks.mem_die.1 hmem).2 rfl

/-- A run has a result. -/
theorem Inv.produce (h : Inv key s) (d : ℕ) (result : CodexResult) : Inv key (s.produce d result) := by
  have hf : Frame (.prober 0) s (s.produce d result) := by
    refine ⟨?_, fun _ _ => rfl, fun _ _ => rfl, fun _ _ => Or.inl rfl, fun _ _ _ h => h,
      fun _ hx => List.mem_append_left _ hx, Or.inl ⟨rfl, fun _ h => h⟩⟩
    intro d hd
    cases hd
  refine h.calm hf rfl (fun _ h => h) ?_ ?_ ?_ h.sharing
  · intro d hd
    cases hd
  · intro d hd
    cases hd
  · intro d hd
    cases hd

/-- A worker writes. -/
theorem Inv.workerAccess (h : Inv key s) (hpresent : s.worker d ≠ .absent)
    (hrun : HasRun s (.worker d)) {op : Op} (hcont : Continues s.disk (s.disk.apply op))
    (hrecorded : ∀ x ∈ (s.disk.apply op).recorded, x ∈ s.disk.recorded ∨ x = d)
    (hleaving : (s.worker d).Claims → Untraced (s.disk.apply op))
    (hdisk : DiskOk key s.produced (s.disk.apply op))
    (hlive : ∀ d', Live (s.workerTo d phase) d' → UnderWay d' (s.disk.apply op))
    (hclaims : (s.worker d).Claims → phase.Claims)
    (hok : WorkerOk key ((s.access op).workerTo d phase) d phase) :
    Inv key ((s.access op).workerTo d phase) := by
  have hwrites : Writes (.worker d) s ((s.access op).workerTo d phase) := by
    refine ⟨hrun, ?_, hcont, fun x hx => (hrecorded x hx).imp id (congrArg Party.worker ·.symm), ?_⟩
    · intro d' hd'
      cases hd'
    · intro d' hphase
      have hd' := h.callers d'
      rw [hphase] at hd'
      rcases h.sharing _ _ hrun hd'.1 with heq | ⟨_, heq, _⟩ | ⟨_, _, heq, _, hc⟩
      · cases heq
      · cases heq
      · cases heq
        exact hleaving hc
  have hf : Frame (.worker d) s ((s.access op).workerTo d phase) := by
    refine ⟨?_, fun _ _ => rfl, ?_, fun _ _ => Or.inl rfl, fun _ _ _ hmem => hmem, fun _ hx => hx,
      Or.inr hwrites⟩
    · intro d' hd' habsent
      cases hd'
      exact absurd habsent hpresent
    · intro d' hne
      exact Function.update_of_ne (fun heq => hne (by rw [heq])) _ _
  refine h.frame hf hdisk hlive ?_ ?_ ?_ (h.sharing_of_subset hf (fun _ hq => hq) ?_ ?_)
  · intro d' hd'
    cases hd'
  · intro d' hd'
    cases hd'
    refine ⟨?_, h.children d⟩
    show WorkerOk key _ d (Function.update s.worker d phase d)
    rw [Function.update_self]
    exact hok
  · intro d' hd'
    cases hd'
  · intro d' hd'
    cases hd'
  · intro d' hd' hc
    cases hd'
    show (Function.update s.worker d phase d).Claims ∨ _
    rw [Function.update_self]
    exact Or.inl (hclaims hc)

end Worker

end Fkst.Codex
