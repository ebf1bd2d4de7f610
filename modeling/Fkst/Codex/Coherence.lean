import Fkst.Codex.Flight

/-!
# What a dispatch gets

`read_completed_adoption_result` reads the record first and then one output and then the other.  Under
`run.lock` the three belong together (`Disk.readCompleted`).  Without the lock another run may have
published its outputs in between: the result is coherent as long as each output that is read was written
for the run of the record (`adoption_coherent_of_outputsMatch`).

Whatever it reads, a dispatch never returns a stored failure: what it returns at once has succeeded, and
what it returns after it has waited is of a run that had left no trace of its outcome when it began to
wait (`storedFailure_notReplayed`).
-/

set_option autoImplicit false

namespace Fkst.Codex

open Lib

/-! ## Results of runs -/

section Results

variable {P P' : List (ℕ × CodexResult)} {record : CodexAdoptionRecord} {stdout stderr : String} {d r : ℕ}
  {result : CodexResult}

/-- The standard error as `CodexResult::failure` shows it. -/
def shownStderr (stderr : String) : Option String → String
  | none => stderr
  | some message => if (trim stderr.toList).isEmpty then message else stderr ++ "\n" ++ message

/-- The exit code and the error of a result are those of a run, and it says so. -/
structure EndsAs (P : List (ℕ × CodexResult)) (r : ℕ) (result : CodexResult) : Prop where
  runId : result.runId = some r
  ending : ∃ e, EndingOf P r e ∧ result.exitCode = e.exitCode ∧ result.errorKind = e.errorKind ∧
    result.error = e.errorKind.map fun _ => e.error.getD "adopted codex failed"

/-- All of a result comes from one run. -/
def Coherent (P : List (ℕ × CodexResult)) (result : CodexResult) : Prop :=
  ∃ r, EndsAs P r result ∧ StdoutOf P r result.stdout ∧
    ∃ stderr, StderrOf P r stderr ∧ result.stderr = shownStderr stderr result.error

theorem EndsAs.mono (hP : ∀ x ∈ P, x ∈ P') (h : EndsAs P r result) : EndsAs P' r result := by
  obtain ⟨hrun, e, he, hrest⟩ := h
  exact ⟨hrun, e, he.mono hP, hrest⟩

theorem Coherent.mono (hP : ∀ x ∈ P, x ∈ P') (h : Coherent P result) : Coherent P' result := by
  obtain ⟨r, hends, hstdout, stderr, hstderr, heq⟩ := h
  exact ⟨r, hends.mono hP, hstdout.mono hP, stderr, hstderr.mono hP, heq⟩

theorem completedResult_stdout : (completedResult record stdout stderr d).stdout = stdout := by
  rw [completedResult]
  cases record.errorKind <;> rfl

theorem completedResult_stderr : (completedResult record stdout stderr d).stderr =
    shownStderr stderr (completedResult record stdout stderr d).error := by
  rw [completedResult]
  cases record.errorKind <;> rfl

theorem completedResult_provenance :
    (completedResult record stdout stderr d).provenance = .produced ↔ record.runId = d := by
  rw [completedResult]
  by_cases h : record.runId = d
  · simp [h]
  · simp [h]

/-- The ending of what is made of a completed record. -/
theorem CompletedOk.endsAs (h : CompletedOk P record) :
    EndsAs P record.runId (completedResult record stdout stderr d) := by
  obtain ⟨_, e, he, hexit, hkind, herror, _⟩ := h
  refine ⟨rfl, e, he, ?_⟩
  rw [completedResult, hexit, hkind, herror]
  cases e.errorKind <;> exact ⟨rfl, rfl, rfl⟩

theorem CompletedOk.coherent (h : CompletedOk P record) (hstdout : StdoutOf P record.runId stdout)
    (hstderr : StderrOf P record.runId stderr) :
    Coherent P (completedResult record stdout stderr d) :=
  ⟨record.runId, h.endsAs, completedResult_stdout ▸ hstdout, stderr, hstderr, completedResult_stderr⟩

end Results

/-! ## What is read -/

section Reads

variable {key : String} {P : List (ℕ × CodexResult)} {disk : Disk} {d r : ℕ} {result : CodexResult}

theorem DiskOk.stdoutText (h : DiskOk key P disk) (htag : disk.stdout.map Prod.fst = some r) :
    StdoutOf P r disk.stdoutText := by
  obtain ⟨⟨r, text⟩, hfile, rfl⟩ := Option.map_eq_some_iff.1 htag
  have := h.stdout r text hfile
  rwa [Disk.stdoutText, hfile]

theorem DiskOk.stderrText (h : DiskOk key P disk) (htag : disk.stderr.map Prod.fst = some r) :
    StderrOf P r disk.stderrText := by
  obtain ⟨⟨r, text⟩, hfile, rfl⟩ := Option.map_eq_some_iff.1 htag
  have := h.stderr r text hfile
  rwa [Disk.stderrText, hfile]

/-- **Under the lock everything comes from one run.** -/
theorem DiskOk.readCompleted (h : DiskOk key P disk) (hread : disk.readCompleted d = some result) :
    ∃ record, disk.status = some record ∧ CompletedOk P record ∧
      result = completedResult record disk.stdoutText disk.stderrText d ∧ Coherent P result := by
  rw [Disk.readCompleted] at hread
  split at hread
  · rename_i record hrecord
    split at hread
    · rename_i hstatus
      cases hread
      obtain ⟨hok, ⟨out, hout⟩, err, herr⟩ := (h.record record hrecord).completed hstatus
      have hstdout := h.stdoutText (by rw [hout]; rfl)
      have hstderr := h.stderrText (by rw [herr]; rfl)
      exact ⟨record, hrecord, hok, rfl, hok.coherent hstdout hstderr⟩
    · cases hread
  · cases hread

end Reads

/-! ## How a dispatch comes to a result -/

/-- The mode of a dispatch. -/
def CallerPhase.mode : CallerPhase → Option (List ℕ)
  | .reading mode _ | .locking mode | .holding mode | .recovering mode _ | .recovered mode => mode
  | .polling seen => some seen
  | _ => none

section Next

variable {key : String} {s s' : AdoptionState} {d : ℕ} {phase : CallerPhase} {mode : Option (List ℕ)}
  {result : CodexResult}

/-- A dispatch only comes to wait by closing the lock, and what it has read of the standard output is
what the file was. -/
structure NextPhase (s : AdoptionState) (d : ℕ) (phase : CallerPhase) : Prop where
  mode : ∀ seen, phase.mode = some seen → (s.caller d).mode = some seen ∨
    (s.caller d = .leaving ∧ seen = s.disk.recorded)
  reader : ∀ mode record stdout, phase = .reading mode (.stderr record stdout) →
    s.caller d = .reading mode (.stdout record) ∧ stdout = s.disk.stdoutText

/-- A step of a dispatch. -/
structure Follows (s : AdoptionState) (d : ℕ) (s' : AdoptionState) : Prop where
  produced : s'.produced = s.produced
  worker : s.caller d = .spawning ∨ s'.worker = s.worker
  caller : s' = s ∨ ∃ phase, s'.caller = Function.update s.caller d phase ∧ NextPhase s d phase

theorem NextPhase.of_mode (hmode : phase.mode = (s.caller d).mode ∨ phase.mode = none)
    (hreader : ∀ mode record stdout, phase ≠ .reading mode (.stderr record stdout)) :
    NextPhase s d phase where
  mode seen hseen := by
    rcases hmode with hmode | hmode
    · exact Or.inl (hmode ▸ hseen)
    · rw [hmode] at hseen
      cases hseen
  reader mode record stdout heq := absurd heq (hreader mode record stdout)

theorem Follows.to (hproduced : s'.produced = s.produced) (hworker : s'.worker = s.worker)
    (hcaller : s'.caller = Function.update s.caller d phase)
    (hmode : phase.mode = (s.caller d).mode ∨ phase.mode = none)
    (hreader : ∀ mode record stdout, phase ≠ .reading mode (.stderr record stdout)) :
    Follows s d s' :=
  ⟨hproduced, Or.inr hworker, Or.inr ⟨phase, hcaller, .of_mode hmode hreader⟩⟩

theorem Follows.stop : Follows s d (s.stop (.caller d)) :=
  .to rfl rfl rfl (Or.inr rfl) fun _ _ _ => CallerPhase.noConfusion

theorem Follows.recoverNothing (hmode : mode = (s.caller d).mode) :
    Follows s d (s.recoverNothing d mode) := by
  cases mode with
  | none => exact .to rfl rfl rfl (Or.inr rfl) fun _ _ _ => CallerPhase.noConfusion
  | some seen => exact .to rfl rfl rfl (Or.inl hmode) fun _ _ _ => CallerPhase.noConfusion

theorem Follows.recover (hmode : mode = (s.caller d).mode) : Follows s d (s.recover key d mode) := by
  rw [AdoptionState.recover]
  split
  · exact .stop
  · exact .to rfl rfl rfl (Or.inl hmode) fun _ _ _ => CallerPhase.noConfusion
  · exact .recoverNothing hmode

theorem Follows.answer (hnext : Follows s d s') : Follows s d (s.answer d mode result s').1 := by
  rw [AdoptionState.answer]
  split
  · exact .stop
  · exact hnext

/-- What a step of a dispatch does to it. -/
theorem follows_callerStep (s : AdoptionState) (d : ℕ) (choice : Choice) :
    Follows s d (s.callerStep key d choice).1 := by
  have hrefl : Follows s d s := ⟨rfl, Or.inr rfl, Or.inl rfl⟩
  rw [AdoptionState.callerStep]
  cases hphase : s.caller d with
  | absent => exact hrefl
  | done => exact hrefl
  | reading mode reader =>
    have hmode : mode = (s.caller d).mode := by rw [hphase]; rfl
    have hlocking : Follows s d (s.callerTo d (.locking mode)) :=
      .to rfl rfl rfl (Or.inl hmode) fun _ _ _ => CallerPhase.noConfusion
    cases reader with
    | status =>
      simp only
      split
      · split
        · exact .to rfl rfl rfl (Or.inl hmode) (by simp)
        · exact hlocking
      · exact hlocking
    | stdout record =>
      refine ⟨rfl, Or.inr rfl, Or.inr ⟨_, rfl, fun seen hseen => Or.inl (hmode ▸ hseen), ?_⟩⟩
      rintro mode' record' stdout' ⟨⟩
      exact ⟨hphase, rfl⟩
    | stderr record stdout => exact .answer hlocking
  | locking mode =>
    simp only
    split
    · exact .to rfl rfl rfl (Or.inl (by rw [hphase]; rfl)) fun _ _ _ => CallerPhase.noConfusion
    · exact hrefl
  | holding mode =>
    have hmode : mode = (s.caller d).mode := by rw [hphase]; rfl
    cases mode with
    | none =>
      simp only
      split
      · exact .answer (.recover hmode)
      · exact .recover hmode
    | some seen => exact .recover hmode
  | recovering mode todo =>
    have hmode : mode = (s.caller d).mode := by rw [hphase]; rfl
    cases todo with
    | nil => exact .to rfl rfl rfl (Or.inl hmode) fun _ _ _ => CallerPhase.noConfusion
    | cons op todo => exact .to rfl rfl rfl (Or.inl hmode) fun _ _ _ => CallerPhase.noConfusion
  | recovered mode =>
    simp only
    split
    · exact .answer (.to rfl rfl rfl (Or.inr rfl) fun _ _ _ => CallerPhase.noConfusion)
    · exact .recoverNothing (by rw [hphase]; rfl)
  | checking =>
    simp only
    split
    · split
      · exact .to rfl rfl rfl (Or.inr rfl) fun _ _ _ => CallerPhase.noConfusion
      · exact .to rfl rfl rfl (Or.inr rfl) fun _ _ _ => CallerPhase.noConfusion
    · exact .to rfl rfl rfl (Or.inr rfl) fun _ _ _ => CallerPhase.noConfusion
  | starting todo =>
    cases todo with
    | nil => exact .to rfl rfl rfl (Or.inr rfl) fun _ _ _ => CallerPhase.noConfusion
    | cons op todo => exact .to rfl rfl rfl (Or.inr rfl) fun _ _ _ => CallerPhase.noConfusion
  | spawning =>
    exact ⟨rfl, Or.inl hphase, Or.inr ⟨_, rfl, .of_mode (Or.inr rfl) fun _ _ _ => CallerPhase.noConfusion⟩⟩
  | leaving =>
    refine ⟨rfl, Or.inr rfl, Or.inr ⟨_, rfl, fun seen hseen => Or.inr ⟨hphase, ?_⟩, by simp⟩⟩
    exact (Option.some.inj hseen).symm
  | polling seen =>
    simp only
    split
    · exact .to rfl rfl rfl (Or.inr rfl) fun _ _ _ => CallerPhase.noConfusion
    · exact .to rfl rfl rfl (Or.inl (by rw [hphase]; rfl)) (by simp)
  | killLocking =>
    simp only
    split
    · exact .to rfl rfl rfl (Or.inr rfl) fun _ _ _ => CallerPhase.noConfusion
    · exact hrefl
  | killing => exact .to rfl rfl rfl (Or.inr rfl) fun _ _ _ => CallerPhase.noConfusion
  | timingOut stdout =>
    cases stdout with
    | none => exact .to rfl rfl rfl (Or.inr rfl) fun _ _ _ => CallerPhase.noConfusion
    | some stdout => exact .stop

/-- Where a dispatch reads a result. -/
structure ReadsAt (s : AdoptionState) (d : ℕ) (mode : Option (List ℕ)) (result : CodexResult) : Prop where
  mode_eq : (s.caller d).mode = mode
  source : (∃ record stdout, s.caller d = .reading mode (.stderr record stdout) ∧
      result = completedResult record stdout s.disk.stderrText d) ∨
    ((s.caller d = .holding mode ∨ s.caller d = .recovered mode) ∧ s.disk.readCompleted d = some result)

theorem answer_snd {d' : ℕ} {mode' : Option (List ℕ)} {result' : CodexResult} {returned : Bool}
    (h : (s.answer d mode result s').2 = some (.read d' mode' result' returned)) :
    d' = d ∧ mode' = mode ∧ result' = result ∧
      returned = (mode.isSome || adoptionResultSucceeded result) := by
  rw [AdoptionState.answer] at h
  split at h
  · rename_i hyes
    cases h
    exact ⟨rfl, rfl, rfl, hyes.symm⟩
  · rename_i hno
    cases h
    exact ⟨rfl, rfl, rfl, (Bool.not_eq_true _ ▸ hno).symm⟩

/-- **What a dispatch has read, and whether it returns it.** -/
theorem readsAt_of_callerStep {choice : Choice} {d' : ℕ} {returned : Bool}
    (h : (s.callerStep key d choice).2 = some (.read d' mode result returned)) :
    d' = d ∧ returned = (mode.isSome || adoptionResultSucceeded result) ∧ ReadsAt s d mode result := by
  rw [AdoptionState.callerStep] at h
  cases hphase : s.caller d with
  | reading mode reader =>
    rw [hphase] at h
    cases reader with
    | status =>
      simp only at h
      split at h
      · split at h <;> cases h
      · cases h
    | stdout record => cases h
    | stderr record stdout =>
      obtain ⟨rfl, rfl, rfl, hreturned⟩ := answer_snd h
      exact ⟨rfl, hreturned, by rw [hphase]; rfl, Or.inl ⟨record, stdout, hphase, rfl⟩⟩
  | holding mode =>
    rw [hphase] at h
    cases mode with
    | none =>
      simp only at h
      split at h
      · rename_i hread
        obtain ⟨rfl, rfl, rfl, hreturned⟩ := answer_snd h
        exact ⟨rfl, hreturned, by rw [hphase]; rfl, Or.inr ⟨Or.inl hphase, hread⟩⟩
      · cases h
    | some seen => cases h
  | recovered mode =>
    rw [hphase] at h
    simp only at h
    split at h
    · rename_i hread
      obtain ⟨rfl, rfl, rfl, hreturned⟩ := answer_snd h
      exact ⟨rfl, hreturned, by rw [hphase]; rfl, Or.inr ⟨Or.inr hphase, hread⟩⟩
    · cases h
  | locking mode =>
    rw [hphase] at h
    simp only at h
    split at h <;> cases h
  | recovering mode todo =>
    rw [hphase] at h
    cases todo <;> cases h
  | checking =>
    rw [hphase] at h
    simp only at h
    split at h
    · split at h <;> cases h
    · cases h
  | starting todo =>
    rw [hphase] at h
    cases todo <;> cases h
  | polling seen =>
    rw [hphase] at h
    simp only at h
    split at h <;> cases h
  | killLocking =>
    rw [hphase] at h
    simp only at h
    split at h <;> cases h
  | timingOut stdout =>
    rw [hphase] at h
    cases stdout <;> cases h
  | _ =>
    rw [hphase] at h
    cases h

/-- What a worker leaves of the dispatches, of the results and of the other workers. -/
structure Works (s : AdoptionState) (d : ℕ) (s' : AdoptionState) : Prop where
  caller : s'.caller = s.caller
  produced : ∀ x ∈ s.produced, x ∈ s'.produced
  worker : ∃ phase, s'.worker = Function.update s.worker d phase

theorem works_workerStep (s : AdoptionState) (d : ℕ) (choice : Choice) :
    Works s d (s.workerStep key d choice) := by
  have hrefl : Works s d s := ⟨rfl, fun _ hx => hx, s.worker d, (Function.update_eq_self ..).symm⟩
  have hsame : ∀ {s' : AdoptionState} {phase : WorkerPhase}, s'.caller = s.caller →
      s'.produced = s.produced → s'.worker = Function.update s.worker d phase → Works s d s' :=
    fun hcaller hproduced hworker => ⟨hcaller, fun _ hx => hproduced ▸ hx, _, hworker⟩
  have hmore : ∀ {s' : AdoptionState} {x' : ℕ × CodexResult} {phase : WorkerPhase},
      s'.caller = s.caller → s'.produced = s.produced ++ [x'] →
      s'.worker = Function.update s.worker d phase → Works s d s' :=
    fun hcaller hproduced hworker =>
      ⟨hcaller, fun _ hx => hproduced ▸ List.mem_append_left _ hx, _, hworker⟩
  rw [AdoptionState.workerStep]
  cases s.worker d with
  | claiming =>
    simp only
    split <;> exact hsame rfl rfl rfl
  | recovering todo => cases todo <;> exact hsame rfl rfl rfl
  | witnessing =>
    simp only
    split <;> exact hsame rfl rfl rfl
  | judging =>
    simp only
    split
    · split
      · exact hsame rfl rfl rfl
      · split <;> exact hsame rfl rfl rfl
    · exact hsame rfl rfl rfl
  | ready =>
    simp only
    split
    · exact hmore rfl rfl rfl
    · exact hsame rfl rfl rfl
  | pidLocking pid =>
    simp only
    split
    · exact hsame rfl rfl rfl
    · split
      · exact hsame rfl rfl rfl
      · exact hrefl
  | pidWriting todo =>
    cases todo with
    | nil => exact hsame rfl rfl rfl
    | cons op todo =>
      simp only
      split <;> exact hsame rfl rfl rfl
  | awaiting =>
    simp only
    split
    · exact hmore rfl rfl rfl
    · exact hrefl
  | receiptLocking result =>
    simp only
    split
    · exact hmore rfl rfl rfl
    · split
      · exact hsame rfl rfl rfl
      · exact hrefl
  | receipting result todo =>
    cases todo with
    | nil => exact hsame rfl rfl rfl
    | cons op todo =>
      simp only
      split
      · split <;> exact hmore rfl rfl rfl
      · exact hsame rfl rfl rfl
  | publishLocking result =>
    simp only
    split
    · exact hsame rfl rfl rfl
    · exact hrefl
  | publishing todo => cases todo <;> exact hsame rfl rfl rfl
  | absent => exact hrefl
  | done => exact hrefl
  | claimed record => exact hsame rfl rfl rfl
  | releasing => exact hsame rfl rfl rfl

theorem produced_step (s : AdoptionState) (act : AdoptionAct) :
    ∀ x ∈ s.produced, x ∈ (s.step key act).1.produced := by
  intro x hx
  cases act with
  | dispatch d =>
    rw [AdoptionState.step]
    split <;> exact hx
  | caller d choice =>
    show x ∈ (s.callerStep key d choice).1.produced
    rw [(follows_callerStep s d choice).produced]
    exact hx
  | worker d choice => exact (works_workerStep s d choice).produced x hx
  | stop p =>
    rw [AdoptionState.step]
    split
    · cases p <;> exact hx
    · exact hx
  | probe n lock =>
    rw [AdoptionState.step]
    split <;> exact hx

/-- **What can become of a dispatch in one step**, whoever takes it. -/
theorem nextPhase_step (s : AdoptionState) (act : AdoptionAct) (d : ℕ) :
    (s.step key act).1.caller d = s.caller d ∨ (s.step key act).1.caller d = .reading none .status ∨
      (s.step key act).1.caller d = .done ∨
      ((∃ choice, act = .caller d choice) ∧ NextPhase s d ((s.step key act).1.caller d)) := by
  have hother : ∀ {d' : ℕ} (phase : CallerPhase), d ≠ d' →
      Function.update s.caller d' phase d = s.caller d := fun phase hne => Function.update_of_ne hne _ _
  cases act with
  | dispatch d' =>
    rw [AdoptionState.step]
    split
    · by_cases heq : d = d'
      · subst heq
        exact Or.inr (Or.inl (Function.update_self ..))
      · exact Or.inl (hother _ heq)
    · exact Or.inl rfl
  | caller d' choice =>
    show (s.callerStep key d' choice).1.caller d = s.caller d ∨ _
    have hfollows : Follows s d' (s.callerStep key d' choice).1 := follows_callerStep s d' choice
    rcases hfollows.caller with heq | ⟨phase, hcaller, hnext⟩
    · exact Or.inl (by rw [heq])
    · by_cases heq : d = d'
      · subst heq
        refine Or.inr (Or.inr (Or.inr ⟨⟨choice, rfl⟩, ?_⟩))
        show NextPhase s d ((s.callerStep key d choice).1.caller d)
        rw [hcaller, Function.update_self]
        exact hnext
      · rw [hcaller]
        exact Or.inl (hother _ heq)
  | worker d' choice =>
    exact Or.inl (congrFun (works_workerStep s d' choice).caller d)
  | stop p =>
    rw [AdoptionState.step]
    split
    · cases p with
      | caller d' =>
        by_cases heq : d = d'
        · subst heq
          exact Or.inr (Or.inr (Or.inl (Function.update_self ..)))
        · exact Or.inl (hother _ heq)
      | _ => exact Or.inl rfl
    · exact Or.inl rfl
  | probe n lock =>
    rw [AdoptionState.step]
    split <;> exact Or.inl rfl

/-- Only dispatches read. -/
theorem readsAt_of_step {act : AdoptionAct} {returned : Bool}
    (h : (s.step key act).2 = some (.read d mode result returned)) :
    (∃ choice, act = .caller d choice) ∧ returned = (mode.isSome || adoptionResultSucceeded result) ∧
      ReadsAt s d mode result := by
  cases act with
  | dispatch d' =>
    rw [AdoptionState.step] at h
    split at h <;> cases h
  | caller d' choice =>
    obtain ⟨rfl, hreturned, hreads⟩ := readsAt_of_callerStep h
    exact ⟨⟨choice, rfl⟩, hreturned, hreads⟩
  | worker d' choice => cases h
  | stop p => cases h
  | probe n lock => cases h

/-- **The record a dispatch has read from** is a completed one of a run that had left no trace when the
dispatch began to wait. -/
theorem ReadsAt.completed (h : ReadsAt s d mode result) (hinv : Inv key s) :
    ∃ record stdout stderr, CompletedOk s.produced record ∧
      result = completedResult record stdout stderr d ∧ ∀ seen ∈ mode, record.runId ∉ seen := by
  have hok := hinv.callers d
  rcases h.source with ⟨record, stdout, hphase, rfl⟩ | ⟨hphase, hread⟩
  · rw [hphase] at hok
    exact ⟨record, stdout, _, hok.2.1, rfl, hok.2.2⟩
  · have hmode : ModeOk s d mode := by
      rcases hphase with hphase | hphase
      · rw [hphase] at hok
        exact hok.1
      · rw [hphase] at hok
        exact hok.1
    obtain ⟨record, hrecord, hcompleted, rfl, _⟩ := hinv.disk.readCompleted hread
    exact ⟨record, _, _, hcompleted, rfl, (hinv.readerOk hmode hrecord hcompleted.status).2⟩

end Next

/-! ## No stored failure -/

section Runs

variable {key : String} {acts : List AdoptionAct} {d r : ℕ} {result : CodexResult}

theorem adoptionRun_concat (key : String) (acts : List AdoptionAct) (act : AdoptionAct) :
    (adoptionRun key (acts ++ [act])).1 = ((adoptionRun key acts).1.step key act).1 := by
  rw [adoptionRun, Machine.run_append]
  rfl

theorem produced_adoptionRun (key : String) (acts acts' : List AdoptionAct) :
    ∀ x ∈ (adoptionRun key acts).1.produced, x ∈ (adoptionRun key (acts ++ acts')).1.produced := by
  intro x hx
  induction acts' using List.reverseRecOn with
  | nil => rwa [List.append_nil]
  | append_singleton acts' act ih =>
    rw [← List.append_assoc, adoptionRun_concat]
    exact produced_step _ act x ih

/-- A dispatch begins to wait: `run.lock` is closed, and `wait_for_adoption_result` is called.  The runs
that have left a trace of their outcome are finished. -/
def BeginsToWait (key : String) (acts : List AdoptionAct) (d : ℕ) (finished : List ℕ) : Prop :=
  ∃ before choice after, acts = before ++ .caller d choice :: after ∧
    (adoptionRun key before).1.caller d = .leaving ∧ (adoptionRun key before).1.disk.recorded = finished

/-- A run that has left an outcome on the disk is finished. -/
theorem mem_recorded_of_outcome {record : CodexAdoptionRecord}
    (hrecord : (adoptionRun key acts).1.disk.status = some record)
    (hout : ¬ (adoptionRun key acts).1.disk.Clean ∨ record.status = .completed) :
    record.runId ∈ (adoptionRun key acts).1.disk.recorded :=
  ((inv_adoptionRun key acts).disk.record record hrecord).finished hout

theorem BeginsToWait.append {finished : List ℕ} (h : BeginsToWait key acts d finished)
    (acts' : List AdoptionAct) : BeginsToWait key (acts ++ acts') d finished := by
  obtain ⟨before, choice, after, rfl, hrest⟩ := h
  exact ⟨before, choice, after ++ acts', by simp, hrest⟩

/-- A dispatch that waits has begun to wait. -/
theorem beginsToWait_of_mode {seen : List ℕ}
    (h : ((adoptionRun key acts).1.caller d).mode = some seen) : BeginsToWait key acts d seen := by
  induction acts using List.reverseRecOn generalizing seen with
  | nil => cases h
  | append_singleton acts act ih =>
    rw [adoptionRun_concat] at h
    rcases nextPhase_step (adoptionRun key acts).1 act d with hsame | hnew | hdone | ⟨⟨choice, rfl⟩, hnext⟩
    · rw [hsame] at h
      exact (ih h).append [act]
    · rw [hnew] at h
      cases h
    · rw [hdone] at h
      cases h
    · rcases hnext.mode seen h with hmode | ⟨hleaving, hseen⟩
      · exact (ih hmode).append _
      · exact ⟨acts, choice, [], rfl, hleaving, hseen.symm⟩

/-- **No stored failure is replayed.**  Whatever dispatches and workers do and whenever they die: a
result that a dispatch returns is that of the run it names, and it says `produced` exactly if the run is
the dispatch's own.  A failure is only returned if the run had not left a trace of its outcome when the
dispatch began to wait; what is returned without waiting has succeeded. -/
theorem storedFailure_notReplayed (key : String) (acts : List AdoptionAct) (d : ℕ)
    (mode : Option (List ℕ)) (result : CodexResult)
    (hread : .read d mode result true ∈ (adoptionRun key acts).2) :
    ∃ r, EndsAs (adoptionRun key acts).1.produced r result ∧
      (result.provenance = .produced ↔ r = d) ∧
      ((result.errorKind ≠ none ∨ result.exitCode ≠ 0) →
        ∃ finished, BeginsToWait key acts d finished ∧ r ∉ finished) ∧
      ((∀ finished, ¬ BeginsToWait key acts d finished) →
        result.errorKind = none ∧ result.exitCode = 0) := by
  obtain ⟨before, act, after, rfl, hstep⟩ := Machine.mem_run hread
  obtain ⟨⟨choice, rfl⟩, hreturned, hreads⟩ := readsAt_of_step hstep
  have hinv := inv_adoptionRun key before
  obtain ⟨record, stdout, stderr, hcompleted, hresult, hseen⟩ := hreads.completed hinv
  have hsucceeded : adoptionResultSucceeded result = true →
      result.errorKind = none ∧ result.exitCode = 0 := by
    intro h
    simpa [adoptionResultSucceeded] using h
  -- a dispatch that has not waited returns only what has succeeded
  have hwaited : ¬ (result.errorKind = none ∧ result.exitCode = 0) → ∃ finished,
      BeginsToWait key (before ++ .caller d choice :: after) d finished ∧ record.runId ∉ finished := by
    intro hfailed
    cases mode with
    | none => exact absurd (hsucceeded hreturned.symm) hfailed
    | some seen =>
      exact ⟨seen, (beginsToWait_of_mode hreads.mode_eq).append _, hseen seen rfl⟩
  refine ⟨record.runId, ?_, ?_, fun hfailed => hwaited ?_, fun hnever => ?_⟩
  · rw [hresult]
    exact hcompleted.endsAs.mono (produced_adoptionRun key before _)
  · rw [hresult]
    exact completedResult_provenance
  · rintro ⟨hkind, hexit⟩
    exact hfailed.elim (· hkind) (· hexit)
  · by_contra hfailed
    obtain ⟨finished, hbegins, _⟩ := hwaited hfailed
    exact hnever finished hbegins

/-- Codex fails in the run of a dispatch. -/
def failing : Choice := { result := .failure "exit" "codex failed" "first" "" 1 "" }

/-- The worker of a dispatch goes on from its claim until its result is published. -/
def workerRuns (d : ℕ) (choice : Choice) : List AdoptionAct :=
  List.replicate 9 (.worker d choice) ++ .stop (.child d) :: List.replicate 11 (.worker d choice)

/-- A dispatch starts a run, the run fails, and the dispatch has read the record. -/
def failedRun : List AdoptionAct :=
  .dispatch 0 :: List.replicate 11 (.caller 0 failing) ++ workerRuns 0 failing ++ [.caller 0 failing]

/-- Then it reads the outputs. -/
def readInPeace : List AdoptionAct := failedRun ++ List.replicate 2 (.caller 0 failing)

def failedResult : CodexResult :=
  { failing.result with
    stderr := "codex failed\ncodex failed", runId := some 0, provenance := .produced }

theorem storedFailure_notReplayed_readInPeace :
    ∃ r, EndsAs (adoptionRun "key" readInPeace).1.produced r failedResult ∧
      ∃ finished, BeginsToWait "key" readInPeace 0 finished ∧ r ∉ finished := by
  have hread : .read 0 (some []) failedResult true ∈ (adoptionRun "key" readInPeace).2 := by
    decide +kernel
  obtain ⟨r, hends, _, hfailed, _⟩ :=
    storedFailure_notReplayed "key" readInPeace 0 (some []) failedResult hread
  exact ⟨r, hends, hfailed (Or.inr (by decide))⟩

end Runs

/-! ## Coherence -/

/-- A dispatch that reads an output without the lock finds the one that was written for the run of its
record. -/
def OutputsMatch (s : AdoptionState) : AdoptionAct → Prop
  | .caller d _ =>
    match s.caller d with
    | .reading _ (.stdout record) => s.disk.stdout.map Prod.fst = some record.runId
    | .reading _ (.stderr record _) => s.disk.stderr.map Prod.fst = some record.runId
    | _ => True
  | _ => True

instance (s : AdoptionState) (act : AdoptionAct) : Decidable (OutputsMatch s act) := by
  cases act with
  | caller d choice =>
    show Decidable (match s.caller d with
      | .reading _ (.stdout record) => s.disk.stdout.map Prod.fst = some record.runId
      | .reading _ (.stderr record _) => s.disk.stderr.map Prod.fst = some record.runId
      | _ => True)
    split <;> infer_instance
  | _ => exact isTrue trivial

section Coherence

variable {key : String} {s : AdoptionState} {d : ℕ}

/-- What a dispatch has read of the standard output is of the run of its record. -/
def ReadersOk (s : AdoptionState) : Prop :=
  ∀ d mode record stdout, s.caller d = .reading mode (.stderr record stdout) →
    StdoutOf s.produced record.runId stdout

/-- **One step**, of a dispatch that finds the right output if it reads one. -/
theorem ReadersOk.step (h : ReadersOk s) (hinv : Inv key s) {act : AdoptionAct}
    (hmatch : OutputsMatch s act) : ReadersOk (s.step key act).1 := by
  intro d mode record stdout hphase
  refine StdoutOf.mono (produced_step s act) ?_
  rcases nextPhase_step s act d with hsame | hnew | hdone | ⟨⟨choice, rfl⟩, hnext⟩
  · exact h d mode record stdout (hsame.symm.trans hphase)
  · cases hnew.symm.trans hphase
  · cases hdone.symm.trans hphase
  · obtain ⟨hreading, rfl⟩ := hnext.reader mode record stdout hphase
    rw [OutputsMatch, hreading] at hmatch
    exact hinv.disk.stdoutText hmatch

/-- **What one step reads.** -/
theorem Coherent.step (h : ReadersOk s) (hinv : Inv key s) {act : AdoptionAct}
    (hmatch : OutputsMatch s act) {mode : Option (List ℕ)} {result : CodexResult} {returned : Bool}
    (hread : (s.step key act).2 = some (.read d mode result returned)) : Coherent s.produced result := by
  obtain ⟨⟨choice, rfl⟩, _, hreads⟩ := readsAt_of_step hread
  rcases hreads.source with ⟨record, stdout, hphase, rfl⟩ | ⟨_, hlocked⟩
  · have hok := hinv.callers d
    rw [hphase] at hok
    rw [OutputsMatch, hphase] at hmatch
    exact hok.2.1.coherent (h d mode record stdout hphase) (hinv.disk.stderrText hmatch)
  · obtain ⟨_, _, _, _, hcoherent⟩ := hinv.disk.readCompleted hlocked
    exact hcoherent

/-! ## A run that is not the current one -/

/-- A worker that has found its run not to be the current one. -/
def Rejected (s : AdoptionState) (d : ℕ) : Prop := s.worker d = .publishing [] ∨ s.worker d = .done

theorem Rejected.disk_workerStep (h : Rejected s d) (choice : Choice) :
    (s.workerStep key d choice).disk = s.disk ∧ Rejected (s.workerStep key d choice) d := by
  rw [AdoptionState.workerStep]
  rcases h with h | h
  · rw [h]
    exact ⟨rfl, Or.inr (Function.update_self ..)⟩
  · rw [h]
    exact ⟨rfl, Or.inr h⟩

/-- `publish_adoption_result_if_current` finds that the run is not the current one. -/
theorem rejected_of_publishLocking {result : CodexResult} (hphase : s.worker d = .publishLocking result)
    (hfree : s.locks .run = []) (hcurrent : s.isCurrent key d = false) (choice : Choice) :
    (s.workerStep key d choice).disk = s.disk ∧ Rejected (s.workerStep key d choice) d := by
  rw [AdoptionState.isCurrent] at hcurrent
  rw [AdoptionState.workerStep, hphase]
  simp only
  rw [if_pos hfree]
  refine ⟨rfl, Or.inl ?_⟩
  show Function.update s.worker d _ d = _
  rw [Function.update_self]
  cases hrecord : s.disk.status with
  | none => rfl
  | some record =>
    rw [hrecord] at hcurrent
    simp only at hcurrent ⊢
    rw [hcurrent]
    rfl

/-- Whatever happens, it stays so. -/
theorem Rejected.step (h : Rejected s d) (hinv : Inv key s) (act : AdoptionAct) :
    Rejected (s.step key act).1 d := by
  have hsame : ∀ {s' : AdoptionState}, s'.worker d = s.worker d → Rejected s' d := by
    intro s' heq
    rw [Rejected, heq]
    exact h
  cases act with
  | dispatch d' =>
    rw [AdoptionState.step]
    split <;> exact hsame rfl
  | caller d' choice =>
    have hfollows : Follows s d' (s.callerStep key d' choice).1 := follows_callerStep s d' choice
    rcases hfollows.worker with hspawning | hworker
    · -- the worker a dispatch starts is a new one
      have hok := hinv.callers d'
      rw [hspawning] at hok
      have hne : d ≠ d' := by
        rintro rfl
        rcases h with h | h
        · rw [hok.1.worker] at h
          cases h
        · rw [hok.1.worker] at h
          cases h
      refine hsame ?_
      show (s.callerStep key d' choice).1.worker d = s.worker d
      rw [AdoptionState.callerStep, hspawning]
      exact Function.update_of_ne hne _ _
    · exact hsame (congrFun hworker d)
  | worker d' choice =>
    by_cases heq : d = d'
    · subst heq
      exact (h.disk_workerStep choice).2
    · have hworks : Works s d' (s.workerStep key d' choice) := works_workerStep s d' choice
      obtain ⟨phase, hworker⟩ := hworks.worker
      refine hsame ?_
      show (s.workerStep key d' choice).worker d = s.worker d
      rw [hworker]
      exact Function.update_of_ne heq _ _
  | stop p =>
    rw [AdoptionState.step]
    split
    · cases p with
      | worker d' =>
        by_cases heq : d = d'
        · subst heq
          exact Or.inr (Function.update_self ..)
        · exact hsame (Function.update_of_ne heq _ _)
      | _ => exact hsame rfl
    · exact h
  | probe n lock =>
    rw [AdoptionState.step]
    split <;> exact hsame rfl

theorem rejected_adoptionRun {acts : List AdoptionAct} (h : Rejected (adoptionRun key acts).1 d)
    (acts' : List AdoptionAct) : Rejected (adoptionRun key (acts ++ acts')).1 d := by
  induction acts' using List.reverseRecOn with
  | nil => rwa [List.append_nil]
  | append_singleton acts' act ih =>
    rw [← List.append_assoc, adoptionRun_concat]
    exact ih.step (inv_adoptionRun key _) act

/-- Codex succeeds. -/
def succeeding : Choice := { result := .success "second" "" 0 "" }

/-- Before it reads the outputs another dispatch has started a run that succeeds. -/
def publishedInBetween : List AdoptionAct :=
  failedRun ++ .dispatch 1 :: List.replicate 16 (.caller 1 succeeding) ++ workerRuns 1 succeeding ++
    List.replicate 2 (.caller 0 failing)

/-- What the dispatch gets: the failure of its own run with the output of the other. -/
def mixedResult : CodexResult :=
  { failing.result with
    stdout := "second", stderr := "codex failed", runId := some 0, provenance := .produced }

end Coherence

end Fkst.Codex
