import Fkst.Graph.Scan

/-!
# The authority to raise

A department may raise events on the queues that its `M.spec` declares.  The supervisor resolves these
names when it scans the graph, and the child that runs the department resolves them once more, with a
resolver that takes every qualified name of the declaration as it is.

`authorityAsScanned_iff` says for which departments the two agree: all of a graph with several
namespaces, and those of a graph with one that declare only bare names.
-/

set_option autoImplicit false

namespace Fkst.Graph

open Lib
open Lib.Checks (bind_eq_ok mem_of_mapM_eq_ok exists_of_mapM_eq_ok exists_mapM_eq_ok forM_eq_ok check_eq_ok)

/-! ## What the child computes -/

/-- `declared_spec_queues` of `produces`. -/
def declaredSpecProduces (spec : DeptSpec) : Std.ExtTreeSet String := .ofList spec.produces

/-- The qualified names of a declaration. -/
def qualifiedNames (declared : Std.ExtTreeSet String) : Std.ExtTreeSet String :=
  declared.filter fun queue => queue.toList.contains '.'

/-- `declared_resolved_produces`. -/
def declaredResolvedProduces (resolver : NameResolver) (ownerNamespace : String)
    (declared : Std.ExtTreeSet String) : Except String (Std.ExtTreeSet String) := do
  let resolver := resolver.withRecordedOnlyQueues (qualifiedNames declared)
  let queues ← declared.toList.mapM (resolver.resolve ownerNamespace)
  return .ofList queues

/-- `RaiseAuthority::ensure_allowed`. -/
def ensureAllowed (allowedQueues : Std.ExtTreeSet String) (queue : String) : Except String Unit :=
  if allowedQueues.contains queue then .ok ()
  else .error ("raise queue `" ++ queue ++ "` is not declared in department M.spec.produces")

/-- `raise`, as `run_pipeline` registers it: the queue that is pushed. -/
def raise (resolver : NameResolver) (ownerNamespace : String) (declared : Std.ExtTreeSet String)
    (raw : String) : Except String String := do
  let queue ← (resolver.withRecordedOnlyQueues declared).resolve ownerNamespace raw
  ensureAllowed declared queue
  return queue

/-! ## Two resolvers -/

section Resolvers

variable {resolver : NameResolver} {ownerNamespace raw queue : String} {recorded : Std.ExtTreeSet String}

theorem validateOwner_withRecordedOnlyQueues :
    (resolver.withRecordedOnlyQueues recorded).validateOwner ownerNamespace =
      resolver.validateOwner ownerNamespace := rfl

/-- With several namespaces, what is resolved without recorded names is resolved with them. -/
theorem resolve_withRecorded_of_namespaced (hmode : resolver.mode = .namespaced)
    (hempty : resolver.recordedOnlyQueues = ∅) (h : resolver.resolve ownerNamespace raw = .ok queue) :
    (resolver.withRecordedOnlyQueues recorded).resolve ownerNamespace raw = .ok queue := by
  obtain ⟨⟨⟩, howner, h⟩ := bind_eq_ok.1 h
  obtain ⟨parsed, hparsed, h⟩ := bind_eq_ok.1 h
  refine bind_eq_ok.2 ⟨(), howner, bind_eq_ok.2 ⟨parsed, hparsed, ?_⟩⟩
  rw [hmode] at h
  rw [NameResolver.mode_withRecordedOnlyQueues, hmode]
  cases parsed with
  | bare name => exact h
  | qualified nspace name =>
    dsimp only at h ⊢
    rw [NameResolver.namespaces_withRecordedOnlyQueues]
    split at h
    · rename_i hknown
      rwa [if_pos hknown]
    · rw [hempty] at h
      simp at h

/-- A bare name is resolved in the same way with recorded names and without. -/
theorem resolve_withRecorded_of_bare (hdot : '.' ∉ raw.toList) :
    (resolver.withRecordedOnlyQueues recorded).resolve ownerNamespace raw =
      resolver.resolve ownerNamespace raw := by
  rw [NameResolver.resolve, NameResolver.resolve, validateOwner_withRecordedOnlyQueues]
  cases resolver.validateOwner ownerNamespace with
  | error e => rfl
  | ok u =>
    cases hparsed : parseName raw with
    | error e => rfl
    | ok parsed =>
      cases parsed with
      | bare name =>
        rw [NameResolver.mode_withRecordedOnlyQueues]
        cases resolver.mode <;> rfl
      | qualified nspace name =>
        have htext := text_of_parseName hparsed
        rw [ParsedName.text] at htext
        rw [← htext, toList_qualifiedName] at hdot
        simp at hdot

/-- With one namespace, a qualified name that is recorded is taken as it is. -/
theorem resolve_recorded_of_legacy (hmode : resolver.mode = .legacyFlat) (hdot : '.' ∈ raw.toList)
    (hmem : raw ∈ recorded)
    (h : (resolver.withRecordedOnlyQueues recorded).resolve ownerNamespace raw = .ok queue) :
    queue = raw := by
  obtain ⟨⟨⟩, howner, h⟩ := bind_eq_ok.1 h
  obtain ⟨parsed, hparsed, h⟩ := bind_eq_ok.1 h
  have htext := text_of_parseName hparsed
  rw [NameResolver.mode_withRecordedOnlyQueues, hmode] at h
  cases parsed with
  | bare name =>
    rw [ParsedName.text] at htext
    subst htext
    exact absurd hdot (IsSegment.dot_notMem (parseName_ok hparsed))
  | qualified nspace name =>
    rw [ParsedName.text] at htext
    dsimp only at h
    rw [htext] at h
    split at h
    · exact (Except.ok.inj h).symm
    · rename_i hcontains
      exact absurd (Std.ExtTreeSet.contains_iff_mem.2 hmem) hcontains

/-- With one namespace, what is resolved without recorded names is bare. -/
theorem dot_notMem_of_legacy (hmode : resolver.mode = .legacyFlat)
    (hempty : resolver.recordedOnlyQueues = ∅) (h : resolver.resolve ownerNamespace raw = .ok queue) :
    '.' ∉ queue.toList := by
  obtain ⟨⟨⟩, howner, h⟩ := bind_eq_ok.1 h
  obtain ⟨parsed, hparsed, h⟩ := bind_eq_ok.1 h
  have hok := parseName_ok hparsed
  rw [hmode] at h
  cases parsed with
  | bare name =>
    obtain rfl := Except.ok.inj h
    exact IsSegment.dot_notMem hok
  | qualified nspace name =>
    dsimp only at h
    rw [hempty] at h
    split at h
    · simp_all
    · split at h
      · cases h
      · obtain rfl := Except.ok.inj h
        exact hok.2.dot_notMem

end Resolvers

/-! ## What the supervisor has scanned -/

/-- `queue` is owned by the namespace of the department, or published by a department of the namespace
that owns it. -/
def Licensed (cfg : Config) (dept : DepartmentDecl) (queue : String) : Prop :=
  queueOwnedByNamespace queue dept.ownerNamespace = true ∨
    ∃ (name : String) (publisher : DepartmentDecl), cfg.department[name]? = some publisher ∧
      queue ∈ publisher.publishedSeam ∧ queueOwnedByNamespace queue publisher.ownerNamespace = true

section Scanned

variable {graphRoots : List GraphRoot} {defaults : HostGraphDefaults} {cfg : Config} {name : String}
  {dept : DepartmentDecl}

theorem isDeadLetterQueue_of_reject {produces : List String} {departmentName queue : String}
    (h : rejectEngineDeadLetterProduces produces departmentName = .ok ()) (hqueue : queue ∈ produces) :
    isDeadLetterQueue queue = false := by
  rw [rejectEngineDeadLetterProduces] at h
  split at h
  · cases h
  · rename_i hnone
    simpa using List.find?_eq_none.1 hnone queue hqueue

theorem owned_of_validatePublishedSeam {publishedSeam consumes : List String}
    {ownerNamespace departmentName queue : String}
    (h : validatePublishedSeam publishedSeam consumes ownerNamespace departmentName = .ok ())
    (hqueue : queue ∈ publishedSeam) : queueOwnedByNamespace queue ownerNamespace = true := by
  have hpass := forM_eq_ok.1 h queue hqueue
  split_ifs at hpass with h₁ h₂
  simpa using h₂

/-- **What a department of a scanned graph produces** is a queue of the graph, the department may produce
it, and it is none of the queues that the engine provides. -/
theorem produces_of_loadRoots (h : loadRoots graphRoots defaults = .ok cfg)
    (hdept : cfg.department[name]? = some dept) {queue : String} (hqueue : queue ∈ dept.produces) :
    queue ∈ cfg.queue ∧ Licensed cfg dept queue ∧ isDeadLetterQueue queue = false := by
  obtain ⟨scanned, hfrom, hcross, hqueues, hdepartments, _⟩ := loadRoots_eq_ok h
  rw [hdepartments] at hdept
  have hmem := Std.ExtTreeMap.mem_toList_iff_getElem?_eq_some.2 hdept
  obtain ⟨_, _, file, _, hdeclares⟩ := hfrom.department name dept hdept
  refine ⟨?_, ?_, isDeadLetterQueue_of_reject hdeclares.notEngine hqueue⟩
  · rw [mem_deriveQueues hqueues, referencedQueues, List.mem_append, List.mem_flatMap]
    exact Or.inl ⟨_, hmem, List.mem_append_right _ hqueue⟩
  · obtain ⟨⟨⟩, hproduces, _⟩ := bind_eq_ok.1 hcross
    have hpass := forM_eq_ok.1 (forM_eq_ok.1 hproduces _ hmem) queue hqueue
    split_ifs at hpass with hallowed
    rcases Bool.or_eq_true_iff.1 hallowed with howned | hseam
    · exact Or.inl howned
    · rw [List.contains_iff_mem, List.mem_flatMap] at hseam
      obtain ⟨⟨other, publisher⟩, hother, hpublished⟩ := hseam
      have hpublisher := Std.ExtTreeMap.mem_toList_iff_getElem?_eq_some.1 hother
      obtain ⟨root, _, file', _, hdeclares'⟩ := hfrom.department other publisher hpublisher
      refine Or.inr ⟨other, publisher, by rwa [hdepartments], hpublished, ?_⟩
      rw [hdeclares'.ownerNamespace]
      exact owned_of_validatePublishedSeam hdeclares'.ownSeam hpublished

end Scanned

/-! ## The child and the supervisor -/

/-- The child takes the queues of the department for those that the supervisor has scanned, and accepts
exactly what it resolves to one of them: a queue of the graph that the department may produce. -/
def AuthorityAsScanned (cfg : Config) (resolver : NameResolver) (spec : DeptSpec) (dept : DepartmentDecl) :
    Prop :=
  ∃ declared, declaredResolvedProduces resolver dept.ownerNamespace (declaredSpecProduces spec) =
      .ok declared ∧
    (∀ queue, queue ∈ declared ↔ queue ∈ dept.produces) ∧
    ∀ raw,
      ((∃ queue, raise resolver dept.ownerNamespace declared raw = .ok queue) ↔
        ∃ queue, (resolver.withRecordedOnlyQueues declared).resolve dept.ownerNamespace raw = .ok queue ∧
          queue ∈ dept.produces) ∧
      ∀ queue, raise resolver dept.ownerNamespace declared raw = .ok queue →
        queue ∈ cfg.queue ∧ Licensed cfg dept queue ∧ isDeadLetterQueue queue = false

section Authority

variable {graphRoots : List GraphRoot} {defaults : HostGraphDefaults} {cfg : Config} {name : String}
  {dept : DepartmentDecl} {resolver : NameResolver} {spec : DeptSpec} {declared : Std.ExtTreeSet String}
  {ownerNamespace raw queue : String}

theorem raise_eq_ok : raise resolver ownerNamespace declared raw = .ok queue ↔
    (resolver.withRecordedOnlyQueues declared).resolve ownerNamespace raw = .ok queue ∧
      queue ∈ declared := by
  rw [raise, bind_eq_ok]
  constructor
  · rintro ⟨resolved, hresolve, h⟩
    obtain ⟨⟨⟩, hallowed, h⟩ := bind_eq_ok.1 h
    obtain rfl := Except.ok.inj h
    rw [ensureAllowed] at hallowed
    split_ifs at hallowed with hcontains
    exact ⟨hresolve, Std.ExtTreeSet.contains_iff_mem.1 hcontains⟩
  · rintro ⟨hresolve, hmem⟩
    refine ⟨queue, hresolve, bind_eq_ok.2 ⟨(), ?_, rfl⟩⟩
    rw [ensureAllowed, if_pos (Std.ExtTreeSet.contains_iff_mem.2 hmem)]

theorem mem_declaredSpecProduces : raw ∈ declaredSpecProduces spec ↔ raw ∈ spec.produces := by
  rw [declaredSpecProduces, Std.ExtTreeSet.mem_ofList, List.contains_iff_mem]

/-- The queues that the child computes are those that it resolves. -/
theorem mem_declaredResolvedProduces
    (h : declaredResolvedProduces resolver ownerNamespace (declaredSpecProduces spec) = .ok declared) :
    queue ∈ declared ↔ ∃ raw ∈ spec.produces,
      (resolver.withRecordedOnlyQueues (qualifiedNames (declaredSpecProduces spec))).resolve
        ownerNamespace raw = .ok queue := by
  obtain ⟨queues, hqueues, h⟩ := bind_eq_ok.1 h
  obtain rfl := Except.ok.inj h
  rw [Std.ExtTreeSet.mem_ofList, List.contains_iff_mem, mem_of_mapM_eq_ok hqueues]
  simp only [Std.ExtTreeSet.mem_toList, mem_declaredSpecProduces]

theorem exists_of_declaredResolvedProduces
    (h : declaredResolvedProduces resolver ownerNamespace (declaredSpecProduces spec) = .ok declared)
    (hraw : raw ∈ spec.produces) :
    ∃ queue, (resolver.withRecordedOnlyQueues (qualifiedNames (declaredSpecProduces spec))).resolve
      ownerNamespace raw = .ok queue := by
  obtain ⟨queues, hqueues, _⟩ := bind_eq_ok.1 h
  refine exists_of_mapM_eq_ok hqueues ?_
  rwa [Std.ExtTreeSet.mem_toList, mem_declaredSpecProduces]

theorem mem_qualifiedNames :
    raw ∈ qualifiedNames (declaredSpecProduces spec) ↔ raw ∈ spec.produces ∧ '.' ∈ raw.toList := by
  simp [qualifiedNames, Std.ExtTreeSet.mem_filter, Std.ExtTreeSet.get_eq, mem_declaredSpecProduces]

/-- The child computes what the supervisor has scanned if it resolves every declared name as the
supervisor does. -/
theorem declared_of_agree
    (hproduces : resolveQueues resolver ownerNamespace spec.produces = .ok dept.produces)
    (hagree : ∀ raw ∈ spec.produces, ∀ queue, resolver.resolve ownerNamespace raw = .ok queue →
      (resolver.withRecordedOnlyQueues (qualifiedNames (declaredSpecProduces spec))).resolve
        ownerNamespace raw = .ok queue) :
    ∃ declared, declaredResolvedProduces resolver ownerNamespace (declaredSpecProduces spec) =
        .ok declared ∧ ∀ queue, queue ∈ declared ↔ queue ∈ dept.produces := by
  have hresolved : ∀ raw ∈ spec.produces, ∃ queue ∈ dept.produces,
      resolver.resolve ownerNamespace raw = .ok queue := by
    intro raw hraw
    obtain ⟨queue, hqueue⟩ := exists_of_mapM_eq_ok hproduces hraw
    exact ⟨queue, (mem_of_mapM_eq_ok hproduces).2 ⟨raw, hraw, hqueue⟩, hqueue⟩
  obtain ⟨queues, hqueues⟩ := exists_mapM_eq_ok
    (f := (resolver.withRecordedOnlyQueues (qualifiedNames (declaredSpecProduces spec))).resolve
      ownerNamespace) (l := (declaredSpecProduces spec).toList) (by
    intro raw hraw
    rw [Std.ExtTreeSet.mem_toList, mem_declaredSpecProduces] at hraw
    obtain ⟨queue, _, hqueue⟩ := hresolved raw hraw
    exact ⟨queue, hagree raw hraw queue hqueue⟩)
  have hdeclared : declaredResolvedProduces resolver ownerNamespace (declaredSpecProduces spec) =
      .ok (.ofList queues) := bind_eq_ok.2 ⟨queues, hqueues, rfl⟩
  refine ⟨_, hdeclared, fun queue => ?_⟩
  rw [mem_declaredResolvedProduces hdeclared, mem_of_mapM_eq_ok hproduces]
  constructor
  · rintro ⟨raw, hraw, hqueue⟩
    obtain ⟨queue', _, hqueue'⟩ := hresolved raw hraw
    obtain rfl := Except.ok.inj (hqueue.symm.trans (hagree raw hraw queue' hqueue'))
    exact ⟨raw, hraw, hqueue'⟩
  · rintro ⟨raw, hraw, hqueue⟩
    exact ⟨raw, hraw, hagree raw hraw queue hqueue⟩

/-- **When the authority of the child is what was scanned**: exactly if the graph has several namespaces
or the department declares only bare names. -/
theorem authorityAsScanned_iff (hload : loadRoots graphRoots defaults = .ok cfg)
    (hdept : cfg.department[name]? = some dept) :
    ∃ graphRoot ∈ graphRoots, ∃ file ∈ graphRoot.departments,
      Declares (rootsResolver graphRoots) (subscribeResolver graphRoots) graphRoot file name dept ∧
      (AuthorityAsScanned cfg (rootsResolver graphRoots) file.spec dept ↔
        (rootsResolver graphRoots).mode = .namespaced ∨ ∀ raw ∈ file.spec.produces, '.' ∉ raw.toList) := by
  obtain ⟨scanned, hfrom, _, _, hdepartments, _⟩ := loadRoots_eq_ok hload
  obtain ⟨graphRoot, hroot, file, hfile, hdeclares⟩ := hfrom.department name dept (hdepartments ▸ hdept)
  refine ⟨graphRoot, hroot, file, hfile, hdeclares, ?_⟩
  have hempty : (rootsResolver graphRoots).recordedOnlyQueues = ∅ := rfl
  have hproduces := hdeclares.produces
  rw [← hdeclares.ownerNamespace] at hproduces
  constructor
  · rintro ⟨declared, hdeclared, hsame, -⟩
    by_contra hcon
    rw [not_or] at hcon
    obtain ⟨hmode, hbare⟩ := hcon
    have hmode : (rootsResolver graphRoots).mode = .legacyFlat := by
      cases h : (rootsResolver graphRoots).mode with
      | legacyFlat => rfl
      | namespaced => exact absurd h hmode
    push Not at hbare
    obtain ⟨raw, hraw, hdot⟩ := hbare
    obtain ⟨queue, hqueue⟩ := exists_of_declaredResolvedProduces hdeclared hraw
    obtain rfl : queue = raw :=
      resolve_recorded_of_legacy hmode hdot (mem_qualifiedNames.2 ⟨hraw, hdot⟩) hqueue
    have hscanned := (hsame queue).1 ((mem_declaredResolvedProduces hdeclared).2 ⟨queue, hraw, hqueue⟩)
    obtain ⟨raw', _, hraw'⟩ := (mem_of_mapM_eq_ok hproduces).1 hscanned
    exact dot_notMem_of_legacy hmode hempty hraw' hdot
  · intro hcases
    have hagree : ∀ raw ∈ file.spec.produces, ∀ queue,
        (rootsResolver graphRoots).resolve dept.ownerNamespace raw = .ok queue →
        ((rootsResolver graphRoots).withRecordedOnlyQueues
          (qualifiedNames (declaredSpecProduces file.spec))).resolve dept.ownerNamespace raw =
            .ok queue := by
      intro raw hraw queue hqueue
      rcases hcases with hmode | hbare
      · exact resolve_withRecorded_of_namespaced hmode hempty hqueue
      · rwa [resolve_withRecorded_of_bare (hbare raw hraw)]
    obtain ⟨declared, hdeclared, hsame⟩ := declared_of_agree hproduces hagree
    refine ⟨declared, hdeclared, hsame, fun raw => ⟨?_, fun queue hqueue => ?_⟩⟩
    · simp only [raise_eq_ok, hsame]
    · exact produces_of_loadRoots hload hdept ((hsame queue).1 (raise_eq_ok.1 hqueue).2)

end Authority

namespace Sample

/-- What the department of a package declares: it produces a queue of its own under the qualified name. -/
def selfQualifiedSpec : DeptSpec := ⟨["todo"], ["jobs.done"], [], [], [], false, ""⟩

/-- The package. -/
def selfQualified : GraphRoot where
  root := "/packages/jobs"
  nspace := "jobs"
  departments := [⟨"worker", "departments/worker/main.lua", selfQualifiedSpec, .disabled⟩]
  raisers := []

/-- A host without departments. -/
def emptyHost : GraphRoot := ⟨"/host", "host", [], []⟩

/-- The defaults of a host. -/
def hostDefaults : HostGraphDefaults := ⟨64, "10m", 4, ⟨5, "1s", "1m"⟩⟩

/-- A graph has been scanned, and has a department of some kind. -/
theorem exists_department (graphRoots : List GraphRoot) (name : String)
    (p : Config → DepartmentDecl → Bool)
    (h : (loadRoots graphRoots hostDefaults).toOption.any
      (fun cfg => (cfg.department[name]?).any (p cfg)) = true) :
    ∃ cfg dept, loadRoots graphRoots hostDefaults = .ok cfg ∧ cfg.department[name]? = some dept ∧
      p cfg dept = true := by
  cases hload : loadRoots graphRoots hostDefaults with
  | error e =>
    rw [hload] at h
    cases h
  | ok cfg =>
    rw [hload] at h
    simp only [Except.toOption, Option.any_some, Option.any_eq_true] at h
    obtain ⟨dept, hdept, hp⟩ := h
    exact ⟨cfg, dept, rfl, hdept, hp⟩

end Sample

/-- The theorem at a package beside a host. -/
theorem authorityAsScanned_besideHost :
    ∃ cfg dept, loadRoots [Sample.selfQualified, Sample.emptyHost] Sample.hostDefaults = .ok cfg ∧
      cfg.department["jobs.worker"]? = some dept ∧
      AuthorityAsScanned cfg (rootsResolver [Sample.selfQualified, Sample.emptyHost])
        Sample.selfQualifiedSpec dept := by
  obtain ⟨cfg, dept, hload, hdept, _⟩ := Sample.exists_department
    [Sample.selfQualified, Sample.emptyHost] "jobs.worker" (fun _ _ => true) (by decide +kernel)
  obtain ⟨root, hroot, file, hfile, _, hiff⟩ := authorityAsScanned_iff hload hdept
  have hspec : file.spec = Sample.selfQualifiedSpec := by
    rcases List.mem_cons.1 hroot with rfl | hroot
    · rw [List.mem_singleton.1 hfile]
    · rw [List.mem_singleton.1 hroot] at hfile
      cases hfile
  rw [← hspec]
  exact ⟨cfg, dept, hload, hdept, hiff.2 (Or.inl (by decide +kernel))⟩

/-- In a graph with one namespace, the child takes the qualified name as it is, while the supervisor has
scanned the bare one: the child raises on a queue that the graph does not have. -/
theorem authority_not_asScanned_selfQualified :
    ∃ cfg dept, loadRoots [Sample.selfQualified] Sample.hostDefaults = .ok cfg ∧
      cfg.department["worker"]? = some dept ∧
      ¬ AuthorityAsScanned cfg (rootsResolver [Sample.selfQualified]) Sample.selfQualifiedSpec dept ∧
      raise (rootsResolver [Sample.selfQualified]) "jobs" (.ofList ["jobs.done"]) "jobs.done" =
        .ok "jobs.done" ∧
      "jobs.done" ∉ cfg.queue := by
  obtain ⟨cfg, dept, hload, hdept, h⟩ := Sample.exists_department [Sample.selfQualified] "worker"
    (fun cfg dept => dept.produces == ["done"] && dept.ownerNamespace == "jobs" &&
      !cfg.queue.contains "jobs.done") (by decide +kernel)
  simp only [Bool.and_eq_true, beq_iff_eq, Bool.not_eq_true', ← Bool.not_eq_true,
    Std.ExtTreeMap.contains_iff_mem] at h
  obtain ⟨⟨hproduces, howner⟩, hqueue⟩ := h
  refine ⟨cfg, dept, hload, hdept, ?_, by decide +kernel, hqueue⟩
  rintro ⟨declared, hdeclared, hsame, -⟩
  have hmem : "jobs.done" ∈ declared := by
    rw [mem_declaredResolvedProduces hdeclared, howner]
    exact ⟨"jobs.done", by decide +kernel, by decide +kernel⟩
  rw [hsame, hproduces] at hmem
  exact absurd hmem (by decide)

end Fkst.Graph
