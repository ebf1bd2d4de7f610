import Fkst.Codex.Custody

/-!
# One codex child at a time

Every step of every party keeps the invariant of `Fkst.Codex.Custody` (`Inv.step`), and so does every
run.  A codex child that is running makes its run `Live`, and the record on the disk names one run only:
`codex_singleFlight`.
-/

set_option autoImplicit false

namespace Fkst.Codex

open Lib

/-! ## Several accesses -/

section Todo

variable {P : List (ℕ × CodexResult)} {key : String} {disk : Disk} {record : CodexAdoptionRecord}
  {todo : List Op}

theorem safe_promoteResult (h : DiskOk key P disk) (hrecord : disk.status = some record)
    {o : CodexAdoptionResultRecord} (ho : disk.result = some o) :
    Safe key P IsCompleted disk [.writeStatus (Disk.completeRecord record o)] := by
  obtain ⟨hending, hout⟩ := (h.record record hrecord).result o ho
  have hdirty : ¬ disk.Clean := fun hclean => by simp [hclean.result] at ho
  have hmem := (h.record record hrecord).finished (Or.inl hdirty)
  refine ⟨h, continues_writeStatus (Or.inr fun record' hrecord' => ?_),
    h.complete hrecord rfl rfl hmem hending hout, _, rfl, rfl⟩
  rw [Option.some.inj (hrecord'.symm.trans hrecord)]
  rfl

/-- The outputs, the result and the record of an effect. -/
theorem safe_promoteEffect (h : DiskOk key P disk) (hrecord : disk.status = some record)
    (record' : CodexAdoptionRecord) (hrun : record'.runId = record.runId)
    (hkey : record'.key = record.key) {e : CodexAdoptionEffectRecord}
    (he : EffectOf key P record.runId e) (htraced : record.runId ∈ disk.recorded) :
    Safe key P IsCompleted disk
      [.writeStdout record.runId e.stdout, .writeStderr record.runId e.stderr,
        .writeResult e.toCodexAdoptionResultRecord,
        .writeStatus (Disk.completeRecord record' e.toCodexAdoptionResultRecord)] := by
  obtain ⟨_, res, hmem, hending, hstdout, hstderr⟩ := he
  have hending : EndingOf P record.runId e.toEnding := ⟨res, hmem, hending⟩
  have h₁ := h.writeStdout hrecord ⟨res, hmem, hstdout⟩
  have h₂ := h₁.writeStderr hrecord ⟨res, hmem, hstderr⟩
  have hout : ((disk.apply (.writeStdout record.runId e.stdout)).apply
      (.writeStderr record.runId e.stderr)).Outputs record.runId := ⟨⟨_, rfl⟩, _, rfl⟩
  have h₃ := h₂.writeResult hrecord htraced hending hout
  have h₄ := h₃.complete hrecord hrun hkey htraced hending hout
  refine ⟨h, continues_of_status rfl, h₁, continues_of_status rfl, h₂, continues_of_status rfl, h₃,
    continues_writeStatus (Or.inr fun record'' hrecord'' => ?_), h₄, _, rfl, rfl⟩
  rw [← Option.some.inj (hrecord.symm.trans hrecord'')]
  exact hrun

/-- **What is recovered.** -/
theorem safe_recovery (h : DiskOk key P disk) (hrec : disk.recovery key = .ok (some todo)) :
    Safe key P IsCompleted disk todo ∧ ¬ disk.Clean ∧
      ∀ op ∈ todo, ∀ disk : Disk, (disk.apply op).recorded = disk.recorded := by
  have heffect : ∀ {record : CodexAdoptionRecord} {e : CodexAdoptionEffectRecord},
      disk.status = some record → EffectOf key P record.runId e → ¬ disk.Clean →
      Disk.promoteEffect key record e = .ok (some todo) →
      Safe key P IsCompleted disk todo ∧
        ∀ op ∈ todo, ∀ disk : Disk, (disk.apply op).recorded = disk.recorded := by
    intro record e hrecord he hdirty hpromote
    rw [Disk.promoteEffect, if_neg (not_not.2 he.1)] at hpromote
    cases hpromote
    refine ⟨safe_promoteEffect h hrecord record rfl rfl he
      ((h.record record hrecord).finished (Or.inl hdirty)), ?_⟩
    simp [Disk.apply]
  rw [Disk.recovery] at hrec
  split at hrec
  · rename_i o ho
    rw [Disk.promoteResult] at hrec
    cases hrecord : disk.status with
    | none => simp [hrecord] at hrec
    | some record =>
      rw [hrecord] at hrec
      cases hrec
      refine ⟨safe_promoteResult h hrecord ho, fun hclean => ?_, by simp [Disk.apply]⟩
      exact absurd (hclean.result.symm.trans ho) (by simp)
  · split at hrec
    · cases hrec
    · rename_i record hrecord
      split at hrec
      · cases hrec
      · split at hrec
        · rename_i e he
          have hdirty : ¬ disk.Clean := fun hclean => absurd (hclean.effect.symm.trans he) (by simp)
          obtain ⟨hsafe, hops⟩ := heffect hrecord ((h.record record hrecord).effect e he) hdirty hrec
          exact ⟨hsafe, hdirty, hops⟩
        · split at hrec
          · rename_i e he
            have hmem : e ∈ disk.effectLog := List.mem_of_mem_filter (List.mem_of_getLast? he)
            have hdirty : ¬ disk.Clean := fun hclean => by simp [hclean.effectLog] at hmem
            obtain ⟨hsafe, hops⟩ := heffect hrecord ((h.record record hrecord).effectLog e hmem) hdirty
              hrec
            exact ⟨hsafe, hdirty, hops⟩
          · cases hrec

/-- Where nothing is recovered there is nothing, or the record is completed. -/
theorem settled_of_recovery (h : DiskOk key P disk) (hrec : disk.recovery key = .ok none) :
    Settled disk := by
  intro record hrecord hstatus
  rw [Disk.recovery] at hrec
  split at hrec
  · rw [Disk.promoteResult, hrecord] at hrec
    cases hrec
  · rename_i hresult
    rw [hrecord] at hrec
    simp only at hrec
    rw [if_neg (by simp [hstatus, (h.record record hrecord).key_eq])] at hrec
    split at hrec
    · rw [Disk.promoteEffect] at hrec
      split at hrec <;> cases hrec
    · rename_i heffect
      split at hrec
      · rw [Disk.promoteEffect] at hrec
        split at hrec <;> cases hrec
      · rename_i hlog
        refine ⟨hresult, heffect, List.eq_nil_iff_forall_not_mem.2 fun e he => ?_⟩
        rw [List.getLast?_eq_none_iff, List.filter_eq_nil_iff] at hlog
        exact hlog e he (by simpa using ((h.record record hrecord).effectLog e he).1)

/-- What `start_adoption_worker` writes. -/
theorem safe_startOps (h : DiskOk key P disk) (hsettled : Settled disk) {d : ℕ}
    (huntraced : d ∉ disk.recorded) (logPath : String) :
    Safe key P (ReadyFor d) disk (startOps key d logPath) := by
  have hclean : ∀ {disk : Disk}, Settled disk → ∀ op : Op,
      (op = .removeResult ∨ op = .removeEffect ∨ op = .removeEffectLog) → Settled (disk.apply op) := by
    rintro disk hsettled op (rfl | rfl | rfl) record hrecord hstatus
    · exact ⟨rfl, (hsettled record hrecord hstatus).effect, (hsettled record hrecord hstatus).effectLog⟩
    · exact ⟨(hsettled record hrecord hstatus).result, rfl, (hsettled record hrecord hstatus).effectLog⟩
    · exact ⟨(hsettled record hrecord hstatus).result, (hsettled record hrecord hstatus).effect, rfl⟩
  have h₁ := h.remove hsettled (Or.inl rfl)
  have hs₁ := hclean hsettled .removeResult (Or.inl rfl)
  have h₂ := h₁.remove hs₁ (Or.inr (Or.inl rfl))
  have hs₂ := hclean hs₁ .removeEffect (Or.inr (Or.inl rfl))
  have h₃ := h₂.remove hs₂ (Or.inr (Or.inr rfl))
  have hcleaned : (((disk.apply .removeResult).apply .removeEffect).apply .removeEffectLog).Clean :=
    ⟨rfl, rfl, rfl⟩
  refine ⟨h, continues_of_status rfl, h₁, continues_of_status rfl, h₂, continues_of_status rfl, h₃,
    continues_writeStatus (Or.inl huntraced), ?_, ⟨rfl, rfl, rfl⟩, _, rfl, rfl, rfl⟩
  exact h₃.writeStatus_of_clean hcleaned rfl AdoptionStatus.noConfusion huntraced

/-- What `publish_adoption_result_if_current` writes. -/
theorem safe_publishOps (h : DiskOk key P disk) (hrecord : disk.status = some record) {d : ℕ}
    (hrun : record.runId = d) {res : CodexResult} (hres : (d, res) ∈ P) (endedAtMs : UInt64) :
    Safe key P (fun _ => True) disk
      (publishOps key d { record with codexPid := none } res endedAtMs) := by
  subst hrun
  have he : EffectOf key P record.runId (effectRecord key res endedAtMs) :=
    ⟨rfl, res, hres, rfl, rfl, rfl⟩
  have h₁ := h.writeEffect hrecord he
  have hrest := safe_promoteEffect h₁ hrecord { record with codexPid := none } rfl rfl he
    List.mem_cons_self
  exact ⟨h, continues_of_status rfl, hrest.imp fun _ _ => trivial⟩

theorem recorded_publishOps {d : ℕ} {res : CodexResult} {endedAtMs : UInt64} {op : Op}
    (hop : op ∈ publishOps key d record res endedAtMs) (disk : Disk) (x : ℕ)
    (hx : x ∈ (disk.apply op).recorded) : x ∈ disk.recorded ∨ x = d := by
  simp only [publishOps, List.mem_cons, List.not_mem_nil, or_false] at hop
  rcases hop with rfl | rfl | rfl | rfl | rfl
  · exact (List.mem_cons.1 hx).symm
  · exact Or.inl hx
  · exact Or.inl hx
  · exact Or.inl hx
  · exact Or.inl hx

/-- The line `write_codex_effect_receipt` appends. -/
theorem safe_receipt (h : DiskOk key P disk) (hrecord : disk.status = some record) {d : ℕ}
    (hrun : record.runId = d) {res : CodexResult} (hres : (d, res) ∈ P) (endedAtMs : UInt64) :
    Safe key P (fun _ => True) disk [.appendEffectLog d (effectRecord key res endedAtMs)] := by
  subst hrun
  have he : EffectOf key P record.runId (effectRecord key res endedAtMs) :=
    ⟨rfl, res, hres, rfl, rfl, rfl⟩
  exact ⟨h, continues_of_status rfl, h.appendEffectLog hrecord he, trivial⟩

end Todo

/-! ## The dispatch goes on -/

section Caller

variable {key : String} {s : AdoptionState} {d : ℕ} {mode : Option (List ℕ)}

theorem Inv.quiet_of_not_clean (h : Inv key s) (hclean : ¬ s.disk.Clean) : Quiet s :=
  fun d hd => hclean (h.live d hd).1

theorem WorkerOk.hasWitness {phase : WorkerPhase} (h : WorkerOk key s d phase) (hbusy : phase.Busy) :
    HasWitness s d := by
  cases phase with
  | releasing => exact h.2.1
  | ready => exact h.1
  | pidLocking pid => exact h
  | pidWriting todo => exact h.2.1
  | awaiting => exact h
  | _ => cases hbusy

/-- The witness of a run that is under way is held. -/
theorem Inv.alive_of_live (h : Inv key s) (hd : Live s d) : s.alive d = true := by
  have hheld : ∃ q, q ∈ s.locks (.witness d) := by
    rcases hd with hd | hd
    · exact ⟨_, (h.workers d).hasWitness hd⟩
    · exact ⟨_, h.children d hd⟩
  obtain ⟨q, hq⟩ := hheld
  rw [AdoptionState.alive, Bool.not_eq_true', List.isEmpty_eq_false_iff_exists_mem]
  exact ⟨q, hq⟩

theorem ModeOk.access {op : Op} (hmode : ModeOk s d mode) (hcont : Continues s.disk (s.disk.apply op))
    (hrecorded : (s.disk.apply op).recorded = s.disk.recorded) : ModeOk (s.access op) d mode := by
  cases mode with
  | none =>
    refine ⟨?_, hmode.worker⟩
    show d ∉ (s.disk.apply op).recorded
    rw [hrecorded]
    exact hmode.untraced
  | some seen => exact Watching.continues hmode hcont

/-- A dispatch writes. -/
theorem Inv.callerAccess (h : Inv key s) (hrun : HasRun s (.caller d))
    (hphase : s.caller d ≠ .leaving) (hquiet : Quiet s) {op : Op} {phase : CallerPhase}
    (hcont : Continues s.disk (s.disk.apply op))
    (hrecorded : (s.disk.apply op).recorded = s.disk.recorded)
    (hdisk : DiskOk key s.produced (s.disk.apply op)) (hok : CallerOk key (s.access op) d phase) :
    Inv key ((s.access op).callerTo d phase) := by
  have hwrites : Writes (.caller d) s ((s.access op).callerTo d phase) := by
    refine ⟨hrun, ?_, hcont, fun x hx => Or.inl (hrecorded ▸ hx), ?_⟩
    · rintro d' hd'
      cases hd'
      exact hphase
    · intro d' hleaving
      have hd' := h.callers d'
      rw [hleaving] at hd'
      rcases h.sharing _ _ hrun hd'.1 with heq | ⟨_, _, heq, _⟩ | ⟨_, _, heq, _⟩
      · cases heq
        exact absurd hleaving hphase
      · cases heq
      · cases heq
  have hf : Frame (.caller d) s ((s.access op).callerTo d phase) := by
    refine ⟨?_, ?_, fun _ _ => rfl, fun _ _ => Or.inl rfl, fun _ _ _ hmem => hmem, fun _ hx => hx,
      Or.inr hwrites⟩
    · intro d' hd'
      cases hd'
    · intro d' hne
      exact Function.update_of_ne (fun heq => hne (by rw [heq])) _ _
  refine h.frame hf hdisk (fun d hd => absurd hd (hquiet d)) ?_ ?_ ?_ ?_
  · intro d' hd'
    cases hd'
    show CallerOk key _ d (Function.update s.caller d phase d)
    rw [Function.update_self]
    cases phase <;> exact hok
  · intro d' hd'
    cases hd'
  · intro d' hd'
    cases hd'
  · refine h.sharing_of_subset hf (fun _ hq => hq) ?_ ?_
    · intro d' hd' hleaving
      cases hd'
      exact absurd hleaving hphase
    · intro d' hd'
      cases hd'

/-- A worker starts, with the lock of a dispatch that is about to close it. -/
theorem Inv.spawned (h : Inv key s) (hphase : s.caller d = .leaving) (hrun : HasRun s (.caller d))
    (hfresh : Fresh s.disk (s.worker d) d) (hquiet : Quiet s) (hready : ReadyFor d s.disk) :
    Inv key { s.workerTo d .claiming with locks := s.locks.share .run (.worker d) } := by
  have hchild := h.workers d
  rw [hfresh.worker] at hchild
  have hworker : Function.update s.worker d .claiming d = .claiming := Function.update_self ..
  have hlive : ∀ d', Live { s.workerTo d .claiming with locks := s.locks.share .run (.worker d) } d' →
      Live s d' := by
    rintro d' (hd' | hd')
    · by_cases heq : d' = d
      · subst heq
        have hd' : (Function.update s.worker d' .claiming d').Busy := hd'
        rw [hworker] at hd'
        cases hd'
      · have hd' : (Function.update s.worker d .claiming d').Busy := hd'
        rw [Function.update_of_ne heq] at hd'
        exact Or.inl hd'
    · exact Or.inr hd'
  have hf : Frame (.worker d) s { s.workerTo d .claiming with
      locks := s.locks.share .run (.worker d) } := by
    refine ⟨?_, fun _ _ => rfl, ?_, fun _ _ => Or.inl rfl, ?_, fun _ hx => hx, Or.inl ⟨rfl, hlive⟩⟩
    · intro d' hd' _
      cases hd'
      exact hphase
    · intro d' hne
      exact Function.update_of_ne (fun heq => hne (by rw [heq])) _ _
    · intro q lock _ hmem
      exact Locks.mem_share.2 (Or.inr hmem)
  have hshare : ∀ q, q ∈ s.locks.share .run (.worker d) .run ↔ q = .worker d ∨ HasRun s q :=
    fun q => Locks.mem_share.trans (by rw [and_iff_right rfl]; rfl)
  have hpair : Pair { s.workerTo d .claiming with locks := s.locks.share .run (.worker d) }
      (.caller d) (.worker d) := by
    refine ⟨d, rfl, rfl, hphase, ?_⟩
    show (Function.update s.worker d .claiming d).Claims
    rw [hworker]
    trivial
  -- the dispatch was alone with the lock
  have halone : ∀ q, HasRun s q → q = .caller d := by
    intro q hq
    rcases h.sharing (.caller d) q hrun hq with heq | ⟨d', heq, _, _, hclaims⟩ | ⟨d', _, heq, _⟩
    · exact heq.symm
    · cases heq
      rw [hfresh.worker] at hclaims
      cases hclaims
    · cases heq
  refine h.calm hf rfl hlive ?_ ?_ ?_ ?_
  · intro d' hd'
    cases hd'
  · intro d' hd'
    cases hd'
    refine ⟨?_, fun hd => ?_⟩
    · show WorkerOk key _ d (Function.update s.worker d .claiming d)
      rw [hworker]
      exact ⟨(hshare _).2 (Or.inl rfl), fun d' hd' => hquiet d' (hlive d' hd'), hready,
        hfresh.untraced, hchild⟩
    · exact absurd (hchild.symm.trans hd) (by simp)
  · intro d' hd'
    cases hd'
  · intro q q' hq hq'
    rcases (hshare q).1 hq with rfl | hq <;> rcases (hshare q').1 hq' with rfl | hq'
    · exact Or.inl rfl
    · rw [halone q' hq']
      exact Or.inr (Or.inr hpair)
    · rw [halone q hq]
      exact Or.inr (Or.inl hpair)
    · exact Or.inl ((halone q hq).trans (halone q' hq').symm)

/-- A dispatch starts a worker. -/
theorem Inv.callerSpawn (h : Inv key s) (hphase : s.caller d = .spawning) :
    Inv key { (s.callerTo d .leaving).workerTo d .claiming with
      locks := s.locks.share .run (.worker d) } := by
  have hok := h.callers d
  rw [hphase] at hok
  obtain ⟨hfresh, hrun, hquiet, hready⟩ := hok
  have huntraced : Untraced s.disk := by
    obtain ⟨record, hrecord, _, hid⟩ := hready.status
    exact ⟨record, hrecord, hid.symm ▸ hfresh.untraced⟩
  have hne : s.caller d ≠ .leaving := by rw [hphase]; exact CallerPhase.noConfusion
  have h₁ : Inv key (s.callerTo d .leaving) := h.callerTo hne ⟨hrun, huntraced⟩
  exact h₁.spawned (Function.update_self ..) hrun hfresh hquiet hready

theorem Inv.recoverNothing (h : Inv key s) (hphase : s.caller d ≠ .leaving)
    (hmode : ModeOk s d mode) (hrun : HasRun s (.caller d)) (hsettled : Settled s.disk) :
    Inv key (s.recoverNothing d mode) := by
  cases mode with
  | none => exact h.callerTo hphase ⟨hmode, hrun, hsettled⟩
  | some seen => exact h.callerClose hmode

theorem Inv.recover (h : Inv key s) (hphase : s.caller d ≠ .leaving) (hmode : ModeOk s d mode)
    (hrun : HasRun s (.caller d)) : Inv key (s.recover key d mode) := by
  rw [AdoptionState.recover]
  split
  · exact h.callerStop d
  · rename_i todo hrec
    obtain ⟨hsafe, hclean, hops⟩ := safe_recovery h.disk hrec
    exact h.callerTo hphase ⟨hmode, hrun, h.quiet_of_not_clean hclean, hops, hsafe⟩
  · rename_i hrec
    exact h.recoverNothing hphase hmode hrun (settled_of_recovery h.disk hrec)

theorem Inv.answer (h : Inv key s) {result : CodexResult} {next : AdoptionState}
    (hnext : mode = none → Inv key next) : Inv key (s.answer d mode result next).1 := by
  rw [AdoptionState.answer]
  split
  · exact h.callerStop d
  · rename_i hno
    refine hnext ?_
    cases mode with
    | none => rfl
    | some seen => simp at hno

/-- The record a dispatch reads, whatever its mode. -/
theorem Inv.readerOk (h : Inv key s) (hmode : ModeOk s d mode) {record : CodexAdoptionRecord}
    (hrecord : s.disk.status = some record) (hstatus : record.status = .completed) :
    CompletedOk s.produced record ∧ ∀ seen ∈ mode, record.runId ∉ seen := by
  refine ⟨((h.disk.record record hrecord).completed hstatus).1, fun seen hseen => ?_⟩
  rw [Option.mem_def] at hseen
  subst hseen
  obtain ⟨record', hrecord', hnot⟩ := hmode.status
  rwa [Option.some.inj (hrecord.symm.trans hrecord')]

/-- **A dispatch goes on.** -/
theorem Inv.callerStep (h : Inv key s) (d : ℕ) (choice : Choice) :
    Inv key (s.callerStep key d choice).1 := by
  have hok := h.callers d
  rw [AdoptionState.callerStep]
  cases hphase : s.caller d with
  | absent => exact h
  | done => exact h
  | reading mode reader =>
    rw [hphase] at hok
    have hne : s.caller d ≠ .leaving := by rw [hphase]; exact CallerPhase.noConfusion
    cases reader with
    | status =>
      simp only
      cases hrecord : s.disk.status with
      | none => exact h.callerTo hne hok.1
      | some record =>
        simp only
        split
        · rename_i hstatus
          exact h.callerTo hne ⟨hok.1, h.readerOk hok.1 hrecord hstatus⟩
        · exact h.callerTo hne hok.1
    | stdout record => exact h.callerTo hne ⟨hok.1, hok.2⟩
    | stderr record stdout => exact h.answer fun _ => h.callerTo hne hok.1
  | locking mode =>
    rw [hphase] at hok
    have hne : s.caller d ≠ .leaving := by rw [hphase]; exact CallerPhase.noConfusion
    simp only
    split
    · rename_i hfree
      exact (h.take hfree (.caller d)).callerTo hne ⟨hok, hasRun_take s _⟩
    · exact h
  | holding mode =>
    rw [hphase] at hok
    have hne : s.caller d ≠ .leaving := by rw [hphase]; exact CallerPhase.noConfusion
    cases mode with
    | none =>
      simp only
      split
      · exact h.answer fun _ => h.recover hne hok.1 hok.2
      · exact h.recover hne hok.1 hok.2
    | some seen => exact h.recover hne hok.1 hok.2
  | recovering mode todo =>
    rw [hphase] at hok
    have hne : s.caller d ≠ .leaving := by rw [hphase]; exact CallerPhase.noConfusion
    obtain ⟨hmode, hrun, hquiet, hops, hsafe⟩ := hok
    cases todo with
    | nil => exact h.callerTo hne ⟨hmode, hrun, hsafe.2⟩
    | cons op todo =>
      obtain ⟨_, hcont, hsafe⟩ := hsafe
      have hrecorded := hops op List.mem_cons_self s.disk
      refine h.callerAccess hrun hne hquiet hcont hrecorded hsafe.diskOk ?_
      refine ⟨?_, hrun, hquiet, fun op' hop' => hops op' (List.mem_cons_of_mem _ hop'), hsafe⟩
      exact hmode.access hcont hrecorded
  | recovered mode =>
    rw [hphase] at hok
    have hne : s.caller d ≠ .leaving := by rw [hphase]; exact CallerPhase.noConfusion
    obtain ⟨hmode, hrun, record, hrecord, hstatus⟩ := hok
    have hsettled : Settled s.disk := by
      intro record' hrecord' hne
      rw [← Option.some.inj (hrecord.symm.trans hrecord')] at hne
      exact absurd hstatus hne
    simp only
    split
    · refine h.answer ?_
      rintro rfl
      exact h.callerTo hne ⟨hmode, hrun, hsettled⟩
    · exact h.recoverNothing hne hmode hrun hsettled
  | checking =>
    rw [hphase] at hok
    have hne : s.caller d ≠ .leaving := by rw [hphase]; exact CallerPhase.noConfusion
    obtain ⟨hfresh, hrun, hsettled⟩ := hok
    have hstart : Quiet s →
        Inv key (s.callerTo d (.starting (startOps key d choice.logPath))) := fun hquiet =>
      h.callerTo hne ⟨hfresh, hrun, hquiet, by simp [startOps, Disk.apply],
        safe_startOps h.disk hsettled hfresh.untraced choice.logPath⟩
    simp only
    cases hrecord : s.disk.status with
    | none =>
      refine hstart fun d' hd' => ?_
      obtain ⟨_, record, hrecord', _⟩ := h.live d' hd'
      exact absurd (hrecord.symm.trans hrecord') (by simp)
    | some record =>
      simp only
      split
      · rename_i hrunning
        rw [Bool.and_eq_true, decide_eq_true_eq] at hrunning
        have hnot : record.status ≠ .completed := by rw [hrunning.1]; exact AdoptionStatus.noConfusion
        refine h.callerTo hne ⟨hrun, record, hrecord, fun hmem => ?_⟩
        exact (h.disk.record record hrecord).traced hnot hmem (hsettled record hrecord hnot)
      · rename_i hnot
        refine hstart fun d' hd' => hnot ?_
        obtain ⟨_, record', hrecord', hstatus, hid⟩ := h.live d' hd'
        cases Option.some.inj (hrecord.symm.trans hrecord')
        rw [hstatus, hid, h.alive_of_live hd']
        rfl
  | starting todo =>
    rw [hphase] at hok
    have hne : s.caller d ≠ .leaving := by rw [hphase]; exact CallerPhase.noConfusion
    obtain ⟨hfresh, hrun, hquiet, hops, hsafe⟩ := hok
    cases todo with
    | nil => exact h.callerTo hne ⟨hfresh, hrun, hquiet, hsafe.2⟩
    | cons op todo =>
      obtain ⟨_, hcont, hsafe⟩ := hsafe
      have hrecorded := hops op List.mem_cons_self s.disk
      refine h.callerAccess hrun hne hquiet hcont hrecorded hsafe.diskOk ?_
      have hmode : ModeOk s d none := hfresh
      exact ⟨hmode.access hcont hrecorded, hrun, hquiet,
        fun op' hop' => hops op' (List.mem_cons_of_mem _ hop'), hsafe⟩
  | spawning => exact h.callerSpawn hphase
  | leaving =>
    rw [hphase] at hok
    obtain ⟨_, record, hrecord, huntraced⟩ := hok
    exact h.callerClose ⟨⟨fun _ hx => hx, record, hrecord, huntraced⟩, trivial⟩
  | polling seen =>
    rw [hphase] at hok
    have hne : s.caller d ≠ .leaving := by rw [hphase]; exact CallerPhase.noConfusion
    simp only
    split
    · exact h.callerTo hne trivial
    · exact h.callerTo hne ⟨hok, trivial⟩
  | killLocking =>
    have hne : s.caller d ≠ .leaving := by rw [hphase]; exact CallerPhase.noConfusion
    simp only
    split
    · rename_i hfree
      exact (h.take hfree (.caller d)).callerTo hne (hasRun_take s _)
    · exact h
  | killing => exact h.callerClose trivial
  | timingOut stdout =>
    have hne : s.caller d ≠ .leaving := by rw [hphase]; exact CallerPhase.noConfusion
    cases stdout with
    | none => exact h.callerTo hne trivial
    | some stdout => exact h.callerStop d

end Caller

/-! ## The worker goes on -/

section Worker

variable {key : String} {s : AdoptionState} {d : ℕ}

theorem Inv.eq_of_live (h : Inv key s) (hd : Live s d) {record : CodexAdoptionRecord}
    (hrecord : s.disk.status = some record) : record.runId = d := by
  obtain ⟨_, record', hrecord', _, hid⟩ := h.live d hd
  rw [Option.some.inj (hrecord.symm.trans hrecord')]
  exact hid

theorem runningOf_of_isCurrent {record : CodexAdoptionRecord}
    (h : adoptionRecordIsCurrent record d key = true) : RunningOf key d record := by
  simp only [adoptionRecordIsCurrent, Bool.and_eq_true, decide_eq_true_eq] at h
  exact ⟨h.2, h.1.2, h.1.1⟩

theorem runningOf_of_current (h : s.isCurrent key d = true) :
    ∃ record, s.disk.status = some record ∧ RunningOf key d record := by
  rw [AdoptionState.isCurrent] at h
  split at h
  · rename_i record hrecord
    exact ⟨record, hrecord, runningOf_of_isCurrent h⟩
  · cases h

/-- A worker that has its result and is still the current one is the only one. -/
theorem Inv.quiet_of_current (h : Inv key s) {record : CodexAdoptionRecord}
    (hrecord : s.disk.status = some record) (hrunning : RunningOf key d record)
    (hidle : ¬ (s.worker d).Busy) (hchild : s.child d ≠ .running) : Quiet s := by
  intro d' hd'
  obtain rfl : d = d' := hrunning.runId.symm.trans (h.eq_of_live hd' hrecord)
  exact hd'.elim hidle hchild

/-- A worker claims its run. -/
theorem Inv.workerClaim (h : Inv key s) {record : CodexAdoptionRecord}
    (hphase : s.worker d = .claimed record) :
    Inv key ((s.access (.writeStatus record)).workerTo d .releasing) := by
  have hok := h.workers d
  rw [hphase] at hok
  obtain ⟨⟨hrun, hquiet, hready, huntraced, hchild⟩, hwitness, hkey, rfl, hstatus⟩ := hok
  have hpresent : s.worker record.runId ≠ .absent := by rw [hphase]; exact WorkerPhase.noConfusion
  have hnot : record.status ≠ .completed := by rw [hstatus]; exact AdoptionStatus.noConfusion
  refine h.workerAccess hpresent hrun (continues_writeStatus (Or.inl huntraced))
    (fun x hx => Or.inl hx) (fun _ => ⟨record, rfl, huntraced⟩)
    (h.disk.writeStatus_of_clean hready.clean hkey hnot huntraced) ?_ (fun _ => trivial)
    ⟨hrun, hwitness, hchild, huntraced⟩
  intro d' hd'
  by_cases heq : d' = record.runId
  · exact ⟨⟨hready.clean.result, hready.clean.effect, hready.clean.effectLog⟩, record, rfl, hstatus,
      heq.symm⟩
  · rcases hd' with hd' | hd'
    · have hd' : (Function.update s.worker record.runId .releasing d').Busy := hd'
      rw [Function.update_of_ne heq] at hd'
      exact absurd (Or.inl hd') (hquiet d')
    · exact absurd (Or.inr hd') (hquiet d')

/-- A worker starts codex. -/
theorem Inv.workerStart (h : Inv key s) (hphase : s.worker d = .ready) (pid : ℕ) :
    Inv key { s.workerTo d (.pidLocking pid) with
      child := Function.update s.child d .running
      locks := s.locks.share (.witness d) (.child d) } := by
  have hwitness := h.workers d
  rw [hphase] at hwitness
  have hshare : ∀ q lock, q ∈ s.locks lock → q ∈ s.locks.share (.witness d) (.child d) lock :=
    fun q lock hmem => Locks.mem_share.2 (Or.inr hmem)
  have hbusy : Live s d := Or.inl (by rw [hphase]; trivial)
  have hlive : ∀ d', Live { s.workerTo d (.pidLocking pid) with
      child := Function.update s.child d .running
      locks := s.locks.share (.witness d) (.child d) } d' → Live s d' := by
    intro d' hd'
    by_cases heq : d' = d
    · exact heq ▸ hbusy
    · rcases hd' with hd' | hd'
      · have hd' : (Function.update s.worker d (.pidLocking pid) d').Busy := hd'
        rw [Function.update_of_ne heq] at hd'
        exact Or.inl hd'
      · have hd' : Function.update s.child d .running d' = .running := hd'
        rw [Function.update_of_ne heq] at hd'
        exact Or.inr hd'
  have hf : Frame (.worker d) s { s.workerTo d (.pidLocking pid) with
      child := Function.update s.child d .running
      locks := s.locks.share (.witness d) (.child d) } := by
    refine ⟨?_, fun _ _ => rfl, ?_, ?_, fun q lock _ => hshare q lock, fun _ hx => hx,
      Or.inl ⟨rfl, hlive⟩⟩
    · intro d' hd' habsent
      cases hd'
      rw [hphase] at habsent
      cases habsent
    · intro d' hne
      exact Function.update_of_ne (fun heq => hne (by rw [heq])) _ _
    · intro d' hne
      exact Or.inl (Function.update_of_ne (fun heq => hne (by rw [heq])) _ _)
  have hsub : ∀ q, q ∈ s.locks.share (.witness d) (.child d) .run → HasRun s q := by
    intro q hq
    rcases Locks.mem_share.1 hq with ⟨heq, _⟩ | hq
    · cases heq
    · exact hq
  refine h.calm hf rfl hlive ?_ ?_ ?_ (h.sharing_of_subset hf hsub ?_ ?_)
  · intro d' hd'
    cases hd'
  · intro d' hd'
    cases hd'
    refine ⟨?_, fun _ => Locks.mem_share.2 (Or.inl ⟨rfl, rfl⟩)⟩
    show WorkerOk key _ d (Function.update s.worker d (.pidLocking pid) d)
    rw [Function.update_self]
    exact hshare _ _ hwitness.1
  · intro d' hd'
    cases hd'
  · intro d' hd'
    cases hd'
  · intro d' hd' hc
    cases hd'
    rw [hphase] at hc
    cases hc

/-- A worker writes the pid of codex. -/
theorem Inv.workerPid (h : Inv key s) {op : Op} {todo : List Op}
    (hphase : s.worker d = .pidWriting (op :: todo)) :
    Inv key ((s.access op).workerTo d (.pidWriting todo)) := by
  have hok := h.workers d
  rw [hphase] at hok
  obtain ⟨hrun, hwitness, hops⟩ := hok
  obtain ⟨record, rfl, hkey, hid, hstatus⟩ := hops op List.mem_cons_self
  have hpresent : s.worker d ≠ .absent := by rw [hphase]; exact WorkerPhase.noConfusion
  have hbusy : Live s d := Or.inl (by rw [hphase]; trivial)
  obtain ⟨hclean, record', hrecord', hstatus', hid'⟩ := h.live d hbusy
  have hnot : record.status ≠ .completed := by rw [hstatus]; exact AdoptionStatus.noConfusion
  have hsame : record.runId = record'.runId := hid.trans hid'.symm
  have huntraced : record.runId ∉ s.disk.recorded := fun hmem =>
    (h.disk.record record' hrecord').traced (by rw [hstatus']; exact AdoptionStatus.noConfusion)
      (hsame ▸ hmem) hclean
  refine h.workerAccess hpresent hrun (continues_writeStatus (Or.inl huntraced))
    (fun x hx => Or.inl hx) ?_ (h.disk.writeStatus_of_clean hclean hkey hnot huntraced) ?_ ?_
    ⟨hrun, hwitness, fun op' hop' => hops op' (List.mem_cons_of_mem _ hop')⟩
  · intro hc
    rw [hphase] at hc
    cases hc
  · intro d' hd'
    have hd' : Live s d' := live_of_workerTo (fun _ => hbusy) hd'
    refine ⟨⟨hclean.result, hclean.effect, hclean.effectLog⟩, record, rfl, hstatus, ?_⟩
    rw [hsame]
    exact h.eq_of_live hd' hrecord'
  · intro hc
    rw [hphase] at hc
    cases hc

/-- A worker with a result writes. -/
theorem Inv.workerOutcome (h : Inv key s) {phase : WorkerPhase} {op : Op} {todo : List Op}
    (hpresent : s.worker d ≠ .absent) (hclaims : ¬ (s.worker d).Claims) (hbusy : ¬ phase.Busy)
    (hrun : HasRun s (.worker d)) (hquiet : Quiet s)
    (hops : ∀ disk : Disk, ∀ x ∈ (disk.apply op).recorded, x ∈ disk.recorded ∨ x = d)
    (hsafe : Safe key s.produced (fun _ => True) s.disk (op :: todo))
    (hok : WorkerOk key ((s.access op).workerTo d phase) d phase) :
    Inv key ((s.access op).workerTo d phase) := by
  obtain ⟨_, hcont, hsafe⟩ := hsafe
  refine h.workerAccess hpresent hrun hcont (hops s.disk) (fun hc => absurd hc hclaims) hsafe.diskOk ?_
    (fun hc => absurd hc hclaims) hok
  intro d' hd'
  exact absurd (live_of_workerTo (fun hb => absurd hb hbusy) hd') (hquiet d')

/-- A receipt is written. -/
theorem Inv.workerReceipt (h : Inv key s) {result : CodexResult} {op : Op} {todo : List Op}
    (hphase : s.worker d = .receipting result (op :: todo)) :
    Inv key ((s.access op).workerTo d (.receipting result todo)) := by
  have hok := h.workers d
  rw [hphase] at hok
  obtain ⟨hresult, hchild, hrun, hquiet, hops, hsafe⟩ := hok
  have hquiet := hquiet (List.cons_ne_nil _ _)
  have hpresent : s.worker d ≠ .absent := by rw [hphase]; exact WorkerPhase.noConfusion
  refine h.workerOutcome hpresent (by rw [hphase]; exact id) id hrun hquiet
    (hops op List.mem_cons_self) hsafe ⟨hresult, hchild, hrun, fun _ d' hd' => hquiet d' ?_,
      fun op' hop' => hops op' (List.mem_cons_of_mem _ hop'), hsafe.2.2⟩
  exact live_of_workerTo (fun hb => absurd hb id) hd'

/-- A result is published. -/
theorem Inv.workerPublish (h : Inv key s) {op : Op} {todo : List Op}
    (hphase : s.worker d = .publishing (op :: todo)) :
    Inv key ((s.access op).workerTo d (.publishing todo)) := by
  have hok := h.workers d
  rw [hphase] at hok
  obtain ⟨hrun, hquiet, hops, hsafe⟩ := hok
  have hquiet := hquiet (List.cons_ne_nil _ _)
  have hpresent : s.worker d ≠ .absent := by rw [hphase]; exact WorkerPhase.noConfusion
  refine h.workerOutcome hpresent (by rw [hphase]; exact id) id hrun hquiet
    (hops op List.mem_cons_self) hsafe ⟨hrun, fun _ d' hd' => hquiet d' ?_,
      fun op' hop' => hops op' (List.mem_cons_of_mem _ hop'), hsafe.2.2⟩
  exact live_of_workerTo (fun hb => absurd hb id) hd'

theorem workerTo_workerTo (s : AdoptionState) (d : ℕ) (a b : WorkerPhase) :
    (s.workerTo d a).workerTo d b = s.workerTo d b := by
  rw [AdoptionState.workerTo, AdoptionState.workerTo, AdoptionState.workerTo]
  simp only [Function.update_idem]

/-- A run has a result, and its worker goes on to the receipt or to the publication. -/
theorem Inv.workerProduce (h : Inv key s) (hpresent : s.worker d ≠ .absent)
    (hclaims : ¬ (s.worker d).Claims) (hchild : s.child d ≠ .running) (result : CodexResult)
    {phase : WorkerPhase} (hphase : phase = .receiptLocking result ∨ phase = .publishLocking result) :
    Inv key ((s.produce d result).workerTo d phase) := by
  have hmem : (d, result) ∈ (s.produce d result).produced :=
    List.mem_append_right _ (List.mem_singleton.2 rfl)
  have h := h.produce d result
  rcases hphase with rfl | rfl
  · exact h.workerTo hpresent (fun hbusy => absurd hbusy id) (fun hc => absurd hc hclaims) ⟨hmem, hchild⟩
  · exact h.workerTo hpresent (fun hbusy => absurd hbusy id) (fun hc => absurd hc hclaims) ⟨hmem, hchild⟩

/-- A receipt could not be written. -/
theorem Inv.workerReceiptFails (h : Inv key s) {result : CodexResult} {todo : List Op}
    (hphase : s.worker d = .receipting result todo) :
    Inv key (((s.produce d (receiptFailure result)).workerTo d
      (.publishLocking (receiptFailure result))).close .run (.worker d)) := by
  have hok := h.workers d
  rw [hphase] at hok
  have hpresent : s.worker d ≠ .absent := by rw [hphase]; exact WorkerPhase.noConfusion
  have hmem : (d, receiptFailure result) ∈ (s.produce d (receiptFailure result)).produced :=
    List.mem_append_right _ (List.mem_singleton.2 rfl)
  have hbusy : (WorkerPhase.publishLocking (receiptFailure result)).Busy →
      Live (s.produce d (receiptFailure result)) d := fun hbusy => absurd hbusy id
  exact (h.produce d (receiptFailure result)).workerClose hpresent hbusy ⟨hmem, hok.2.1⟩

/-- **A worker goes on.** -/
theorem Inv.workerStep (h : Inv key s) (d : ℕ) (choice : Choice) :
    Inv key (s.workerStep key d choice) := by
  have hok := h.workers d
  rw [AdoptionState.workerStep]
  cases hphase : s.worker d with
  | absent => exact h
  | done => exact h
  | claiming =>
    rw [hphase] at hok
    have hpresent : s.worker d ≠ .absent := by rw [hphase]; exact WorkerPhase.noConfusion
    simp only
    split
    · exact h.workerStop hpresent
    · rename_i todo hrec
      exact absurd hok.2.2.1.clean (safe_recovery h.disk hrec).2.1
    · exact h.workerTo hpresent (fun hbusy => absurd hbusy id) (fun _ => trivial) hok
  | recovering todo =>
    rw [hphase] at hok
    exact absurd hok id
  | witnessing =>
    rw [hphase] at hok
    have hpresent : s.worker d ≠ .absent := by rw [hphase]; exact WorkerPhase.noConfusion
    simp only
    split
    · rename_i hfree
      obtain ⟨hrun, hrest⟩ := hok
      exact (h.take hfree (.worker d)).workerTo hpresent (fun hbusy => absurd hbusy id)
        (fun _ => trivial) ⟨⟨hasRun_take_witness hrun d _, hrest⟩, hasWitness_take_witness s d⟩
    · exact h.workerStop hpresent
  | judging =>
    rw [hphase] at hok
    have hpresent : s.worker d ≠ .absent := by rw [hphase]; exact WorkerPhase.noConfusion
    have hclaim : Inv key (s.workerTo d (.claimed (runningRecord key d choice))) :=
      h.workerTo hpresent (fun hbusy => absurd hbusy id) (fun _ => trivial)
        ⟨hok.1, hok.2, rfl, rfl, rfl⟩
    simp only
    split
    · split
      · exact h.workerStop hpresent
      · split
        · exact h.workerStop hpresent
        · exact hclaim
    · exact hclaim
  | claimed record => exact h.workerClaim hphase
  | releasing =>
    rw [hphase] at hok
    have hpresent : s.worker d ≠ .absent := by rw [hphase]; exact WorkerPhase.noConfusion
    exact h.workerClose hpresent (fun _ => Or.inl (by rw [hphase]; trivial))
      ⟨hasWitness_close hok.2.1 _, hok.2.2.1⟩
  | ready =>
    rw [hphase] at hok
    have hpresent : s.worker d ≠ .absent := by rw [hphase]; exact WorkerPhase.noConfusion
    simp only
    split
    · exact h.workerProduce hpresent (by rw [hphase]; exact id) (by rw [hok.2]; exact ChildPhase.noConfusion)
        choice.result (Or.inl rfl)
    · exact h.workerStart hphase choice.pid
  | pidLocking pid =>
    rw [hphase] at hok
    have hpresent : s.worker d ≠ .absent := by rw [hphase]; exact WorkerPhase.noConfusion
    have hclaims : ¬ (s.worker d).Claims := by rw [hphase]; exact id
    have hbusy : Live s d := Or.inl (by rw [hphase]; trivial)
    simp only
    split
    · exact h.workerTo hpresent (fun _ => hbusy) (fun hc => absurd hc hclaims) hok
    · split
      · rename_i hfree
        refine (h.take hfree (.worker d)).workerTo hpresent (fun _ => hbusy)
          (fun hc => absurd hc hclaims) ⟨hasRun_take s _, hasWitness_take hok _, ?_⟩
        intro op hop
        split at hop
        · split at hop
          · rename_i record _ hcurrent
            rw [List.mem_singleton.1 hop]
            obtain ⟨hkey, hid, hstatus⟩ := runningOf_of_isCurrent hcurrent
            exact ⟨_, rfl, hkey, hid, hstatus⟩
          · cases hop
        · cases hop
      · exact h
  | pidWriting todo =>
    rw [hphase] at hok
    have hpresent : s.worker d ≠ .absent := by rw [hphase]; exact WorkerPhase.noConfusion
    have hclaims : ¬ (s.worker d).Claims := by rw [hphase]; exact id
    have hbusy : Live s d := Or.inl (by rw [hphase]; trivial)
    cases todo with
    | nil => exact h.workerClose hpresent (fun _ => hbusy) (hasWitness_close hok.2.1 _)
    | cons op todo =>
      simp only
      split
      · refine h.workerTo hpresent (fun _ => hbusy) (fun hc => absurd hc hclaims)
          ⟨hok.1, hok.2.1, fun op hop => ?_⟩
        cases hop
      · exact h.workerPid hphase
  | awaiting =>
    rw [hphase] at hok
    have hpresent : s.worker d ≠ .absent := by rw [hphase]; exact WorkerPhase.noConfusion
    simp only
    split
    · rename_i hgone
      exact h.workerProduce hpresent (by rw [hphase]; exact id)
        (by rw [hgone]; exact ChildPhase.noConfusion) choice.result (Or.inl rfl)
    · exact h
  | receiptLocking result =>
    rw [hphase] at hok
    have hpresent : s.worker d ≠ .absent := by rw [hphase]; exact WorkerPhase.noConfusion
    have hclaims : ¬ (s.worker d).Claims := by rw [hphase]; exact id
    have hidle : ¬ (s.worker d).Busy := by rw [hphase]; exact id
    simp only
    split
    · exact h.workerProduce hpresent hclaims hok.2 _ (Or.inr rfl)
    · split
      · rename_i hfree
        refine (h.take hfree (.worker d)).workerTo hpresent (fun hbusy => absurd hbusy id)
          (fun hc => absurd hc hclaims) ⟨hok.1, hok.2, hasRun_take s _, ?_⟩
        split
        · rename_i hcurrent
          obtain ⟨record, hrecord, hrunning⟩ := runningOf_of_current hcurrent
          exact ⟨fun _ => h.quiet_of_current hrecord hrunning hidle hok.2, by simp [Disk.apply, or_comm],
            safe_receipt h.disk hrecord hrunning.runId hok.1 choice.endedAtMs⟩
        · exact ⟨fun hne => absurd rfl hne, by simp, h.disk, trivial⟩
      · exact h
  | receipting result todo =>
    rw [hphase] at hok
    have hpresent : s.worker d ≠ .absent := by rw [hphase]; exact WorkerPhase.noConfusion
    cases todo with
    | nil => exact h.workerClose hpresent (fun hbusy => absurd hbusy id) ⟨hok.1, hok.2.1⟩
    | cons op todo =>
      simp only
      split
      · split
        · have h' := (h.workerReceipt hphase).workerReceiptFails (Function.update_self ..)
          have heq := workerTo_workerTo ((s.access op).produce d (receiptFailure result)) d
            (.receipting result todo) (.publishLocking (receiptFailure result))
          exact heq ▸ h'
        · exact h.workerReceiptFails hphase
      · exact h.workerReceipt hphase
  | publishLocking result =>
    rw [hphase] at hok
    have hpresent : s.worker d ≠ .absent := by rw [hphase]; exact WorkerPhase.noConfusion
    have hclaims : ¬ (s.worker d).Claims := by rw [hphase]; exact id
    have hidle : ¬ (s.worker d).Busy := by rw [hphase]; exact id
    simp only
    split
    · rename_i hfree
      refine (h.take hfree (.worker d)).workerTo hpresent (fun hbusy => absurd hbusy id)
        (fun hc => absurd hc hclaims) ⟨hasRun_take s _, ?_⟩
      have hnone : (([] : List Op) ≠ [] → Quiet (s.take .run (.worker d))) ∧
          (∀ op ∈ [], ∀ disk : Disk, ∀ x ∈ (disk.apply op).recorded, x ∈ disk.recorded ∨ x = d) ∧
          Safe key s.produced (fun _ => True) s.disk [] :=
        ⟨fun hne => absurd rfl hne, by simp, h.disk, trivial⟩
      split
      · rename_i record hrecord
        split
        · rename_i hcurrent
          have hrunning := runningOf_of_isCurrent hcurrent
          exact ⟨fun _ => h.quiet_of_current hrecord hrunning hidle hok.2,
            fun _ => recorded_publishOps,
            safe_publishOps h.disk hrecord hrunning.runId hok.1 choice.endedAtMs⟩
        · exact hnone
      · exact hnone
    · exact h
  | publishing todo =>
    have hpresent : s.worker d ≠ .absent := by rw [hphase]; exact WorkerPhase.noConfusion
    cases todo with
    | nil => exact h.workerStop hpresent
    | cons op todo => exact h.workerPublish hphase

end Worker

/-! ## Every run -/

section Runs

variable {key : String} {s : AdoptionState}

/-- A codex child or somebody who only looked is gone. -/
theorem Inv.die (h : Inv key s) {p : Party} (hcaller : ∀ d, p ≠ .caller d)
    (hworker : ∀ d, p ≠ .worker d) {c : ℕ → ChildPhase}
    (hc : ∀ d, c d = s.child d ∨ (s.child d = .running ∧ c d = .gone))
    (hp : ∀ d, p = .child d → c d ≠ .running) :
    Inv key { s with locks := s.locks.die p, child := c } := by
  have hlive : ∀ d, Live { s with locks := s.locks.die p, child := c } d → Live s d := by
    rintro d (hd | hd)
    · exact Or.inl hd
    · rcases hc d with heq | ⟨hrunning, _⟩
      · exact Or.inr (heq.symm.trans hd)
      · exact Or.inr hrunning
  have hf : Frame p s { s with locks := s.locks.die p, child := c } :=
    ⟨fun d hd => absurd hd (hworker d), fun _ _ => rfl, fun _ _ => rfl, fun d _ => hc d,
      fun q lock hq hmem => Locks.mem_die.2 ⟨hmem, hq⟩, fun _ hx => hx, Or.inl ⟨rfl, hlive⟩⟩
  refine h.calm hf rfl hlive ?_ ?_ hp (h.sharing_of_subset hf ?_ ?_ ?_)
  · exact fun d hd => absurd hd (hcaller d)
  · exact fun d hd => absurd hd (hworker d)
  · exact fun q hq => (Locks.mem_die.1 hq).1
  · exact fun d hd => absurd hd (hcaller d)
  · exact fun d hd => absurd hd (hworker d)

theorem Inv.childStop (h : Inv key s) {d : ℕ} (hrunning : s.child d = .running) :
    Inv key (s.stop (.child d)) := by
  refine h.die (fun _ => Party.noConfusion) (fun _ => Party.noConfusion) (fun d' => ?_) fun d' hd' => ?_
  · by_cases heq : d' = d
    · subst heq
      exact Or.inr ⟨hrunning, Function.update_self ..⟩
    · exact Or.inl (Function.update_of_ne heq _ _)
  · cases hd'
    rw [Function.update_self]
    exact ChildPhase.noConfusion

theorem Inv.proberStop (h : Inv key s) (n : ℕ) : Inv key (s.stop (.prober n)) :=
  h.die (fun _ => Party.noConfusion) (fun _ => Party.noConfusion) (fun _ => Or.inl rfl)
    fun _ => Party.noConfusion

/-- **Whatever happens keeps what holds.** -/
theorem Inv.step (h : Inv key s) (act : AdoptionAct) : Inv key (s.step key act).1 := by
  cases act with
  | dispatch d =>
    have hok := h.callers d
    rw [AdoptionState.step]
    cases hphase : s.caller d with
    | absent =>
      rw [hphase] at hok
      exact h.callerTo (by rw [hphase]; exact CallerPhase.noConfusion) ⟨hok, trivial⟩
    | _ => exact h
  | caller d choice => exact h.callerStep d choice
  | worker d choice => exact h.workerStep d choice
  | stop p =>
    rw [AdoptionState.step]
    split
    · rename_i hpresent
      cases p with
      | caller d => exact h.callerStop d
      | worker d =>
        refine h.workerStop fun habsent => ?_
        simp [AdoptionState.present, habsent] at hpresent
      | child d => exact h.childStop (of_decide_eq_true hpresent)
      | prober n => exact h.proberStop n
    · exact h
  | probe n lock =>
    rw [AdoptionState.step]
    split
    · exact h.take ‹_› (.prober n)
    · exact h

theorem inv_initial (key : String) : Inv key {} where
  disk := by
    refine ⟨?_, fun _ => ⟨rfl, rfl, rfl⟩, ?_, ?_⟩
    · intro record hrecord
      cases hrecord
    · intro r text ht
      cases ht
    · intro r text ht
      cases ht
  live d hd := by
    rcases hd with hd | hd
    · cases hd
    · cases hd
  callers d := ⟨List.not_mem_nil, rfl⟩
  workers d := rfl
  children d hd := by cases hd
  sharing p q hp := absurd hp List.not_mem_nil

/-- **What holds in every run.** -/
theorem inv_adoptionRun (key : String) (acts : List AdoptionAct) : Inv key (adoptionRun key acts).1 := by
  have hstep : ∀ (s : AdoptionState) (_ : List AdoptionEvent) (act : AdoptionAct), Inv key s →
      Inv key (s.step key act).1 := fun s _ act hs => hs.step act
  exact Machine.run_induction (P := fun s _ => Inv key s) hstep (h := []) acts (inv_initial key)

/-- **Adoption is single-flight.**  Whatever dispatches and workers do and whenever they die, at most
one codex child of an adoption key is running at a time. -/
theorem codex_singleFlight (key : String) (acts : List AdoptionAct) (d d' : ℕ)
    (hd : (adoptionRun key acts).1.child d = .running)
    (hd' : (adoptionRun key acts).1.child d' = .running) : d = d' := by
  have h := inv_adoptionRun key acts
  obtain ⟨_, record, hrecord, _, hid⟩ := h.live d (Or.inr hd)
  exact hid.symm.trans (h.eq_of_live (Or.inr hd') hrecord)

/-- Two dispatches have come, and the worker of the first has started codex. -/
def twoDispatches : List AdoptionAct :=
  let choice : Choice := { result := .success "" "" 0 "" }
  [.dispatch 0, .dispatch 1] ++ List.replicate 10 (.caller 0 choice) ++
    List.replicate 2 (.caller 1 choice) ++ List.replicate 6 (.worker 0 choice)

theorem codex_singleFlight_twoDispatches :
    (adoptionRun "key" twoDispatches).1.child 0 = .running ∧
      ∀ d, (adoptionRun "key" twoDispatches).1.child d = .running → 0 = d := by
  have hrunning : (adoptionRun "key" twoDispatches).1.child 0 = .running := by decide
  exact ⟨hrunning, fun d => codex_singleFlight "key" twoDispatches 0 d hrunning⟩

end Runs

end Fkst.Codex
