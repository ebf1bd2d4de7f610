import Fkst.Graph.Config
import Fkst.Graph.Names

/-!
# The graph scan

`load_roots` of `graph_scan.rs` makes the configuration of a graph from what the packages and the
host declare.  What Lua makes of the files is given: a graph root comes with the `spec` of its
departments and with its raisers, in the order in which they are walked.

Every queue and every department of a configuration that comes out has a name of the form that ids of
deliveries are made of (`named_of_loadRoots`).
-/

set_option autoImplicit false

namespace Fkst.Graph

open Lib
open Lib.Checks (bind_eq_ok foldlM_induction forall_of_mapM)
open Router (IsName)

/-! ## What is declared -/

/-- `DeptSpec`. -/
structure DeptSpec where
  consumes : List String
  produces : List String
  fanout : List String
  publishedSeam : List String
  ephemeral : List String
  graphJson : Bool
  stallWindow : String

/-- `DeptRetrySpec`. -/
structure DeptRetrySpec where
  maxAttempts : Option UInt64
  base : Option String
  cap : Option String

/-- `DeptRetrySetting`. -/
inductive DeptRetrySetting where
  | default
  | custom (spec : DeptRetrySpec)
  | disabled

/-- A department, as its directory declares it. -/
structure DepartmentFile where
  name : String
  /-- The path of `main.lua` as the configuration has it. -/
  lua : String
  spec : DeptSpec
  retry : DeptRetrySetting

/-- A raiser, as its file declares it. -/
structure RaiserFile where
  stem : String
  path : String
  decl : RaiserDecl

/-- `GraphRoot`, with what is declared below it. -/
structure GraphRoot where
  root : String
  nspace : String
  departments : List DepartmentFile
  raisers : List RaiserFile

/-- `HostGraphDefaults`. -/
structure HostGraphDefaults where
  queueCapacity : ℕ
  departmentDefaultStallWindow : String
  codexPermitSlots : ℕ
  retry : RetryDecl

/-! ## Departments -/

/-- `FAILURE_FACT_QUEUE`. -/
def failureFactQueue : String := "fkst.failure_fact"

/-- `is_dead_letter_queue`. -/
def isDeadLetterQueue (queue : String) : Bool := (builtInProviderForQueue queue).isSome

/-- `resolve_queues`. -/
def resolveQueues (resolver : NameResolver) (ownerNamespace : String) (queues : List String) :
    Except String (List String) :=
  queues.mapM (resolver.resolve ownerNamespace)

/-- `reject_engine_dead_letter_produces`. -/
def rejectEngineDeadLetterProduces (produces : List String) (departmentName : String) :
    Except String Unit :=
  match produces.find? isDeadLetterQueue with
  | some queue => .error ("department `" ++ departmentName ++ "` must not produce runtime-owned queue `"
      ++ queue ++ "` from built-in provider `runtime.dead_letter`")
  | none => .ok ()

/-- `queue_owned_by_namespace`. -/
def queueOwnedByNamespace (queue ownerNamespace : String) : Bool :=
  match Text.splitOnce '.' queue.toList with
  | some (nspace, _) => String.ofList nspace == ownerNamespace
  | none => true

/-- `validate_published_seam`. -/
def validatePublishedSeam (publishedSeam consumes : List String)
    (ownerNamespace departmentName : String) : Except String Unit :=
  publishedSeam.forM fun queue =>
    if !consumes.contains queue then
      .error ("department `" ++ departmentName ++ "` publishes queue `" ++ queue ++
        "` in M.spec.published_seam but does not consume it")
    else if !queueOwnedByNamespace queue ownerNamespace then
      .error ("department `" ++ departmentName ++ "` publishes queue `" ++ queue ++
        "` in M.spec.published_seam but the queue is not owned by namespace `" ++ ownerNamespace ++
        "`")
    else .ok ()

/-- `materialize_retry`. -/
def materializeRetry (retry : DeptRetrySetting) (defaults : HostGraphDefaults)
    (consumes : List String) : Except String (Option RetryDecl) :=
  match retry with
  | .disabled => .ok none
  | .default =>
    if consumes.any isDeadLetterQueue then
      if consumes.any fun queue => !isDeadLetterQueue queue then
        .error ("department consumes `dead_letter` and another queue with retry unset; " ++
          "set M.spec.retry to a table or false")
      else .ok none
    else .ok (some defaults.retry)
  | .custom custom => .ok (some
      ⟨custom.maxAttempts.getD defaults.retry.maxAttempts, custom.base.getD defaults.retry.base,
        custom.cap.getD defaults.retry.cap⟩)

/-- What has been scanned so far. -/
structure Scanned where
  departments : Table String DepartmentDecl
  raisers : Table String RaiserDecl
  departmentFanout : Table String (List String)

section Roots

variable (resolver subscribeResolver : NameResolver) (defaults : HostGraphDefaults)
  (graphRoot : GraphRoot)

/-- The body of the loop of `scan_departments`. -/
def scanDepartment (scanned : Scanned) (file : DepartmentFile) : Except String Scanned := do
  validateNameSegment "department name" file.name
  let consumes ← resolveQueues subscribeResolver graphRoot.nspace file.spec.consumes
  let produces ← resolveQueues resolver graphRoot.nspace file.spec.produces
  rejectEngineDeadLetterProduces produces file.name
  let fanout ← resolveQueues resolver graphRoot.nspace file.spec.fanout
  let publishedSeam ← resolveQueues resolver graphRoot.nspace file.spec.publishedSeam
  validatePublishedSeam publishedSeam consumes graphRoot.nspace file.name
  let ephemeral ← resolveQueues subscribeResolver graphRoot.nspace file.spec.ephemeral
  let retry ← materializeRetry file.retry defaults consumes
  let canonicalName ← resolver.canonicalDeclName graphRoot.nspace file.name
  -- `insert_department_decl`
  if scanned.departments.contains canonicalName then
    .error ("duplicate department `" ++ canonicalName ++ "` at " ++ file.lua)
  else
    return { scanned with
      departments := scanned.departments.insert canonicalName
        { lua := file.lua
          ownerRoot := graphRoot.root
          ownerNamespace := graphRoot.nspace
          consumes := consumes
          produces := produces
          publishedSeam := publishedSeam
          ephemeral := ephemeral
          stallWindow :=
            if (trim file.spec.stallWindow.toList).isEmpty then
              defaults.departmentDefaultStallWindow
            else file.spec.stallWindow
          graphJson := file.spec.graphJson
          retry := retry }
      departmentFanout := scanned.departmentFanout.insert canonicalName fanout }

/-- `REMOVED_RUNTIME_SCHEME`. -/
def removedRuntimeScheme : String := "runtime://"

/-- `reject_runtime_file_watch_glob`. -/
def rejectRuntimeFileWatchGlob (raiser : RaiserDecl) : Except String Unit :=
  match raiser with
  | .cron _ _ => .ok ()
  | .fileWatch glob _ =>
    if removedRuntimeScheme.toList.isPrefixOf glob.toList then
      .error ("runtime:// file_watch glob is a removed surface; " ++
        "use a host-root relative or absolute glob")
    else .ok ()

/-- `resolve_raiser`. -/
def resolveRaiser : RaiserDecl → Except String RaiserDecl
  | .cron interval produces => do
    return .cron interval (← resolver.resolve graphRoot.nspace produces)
  | .fileWatch glob produces => do
    return .fileWatch glob (← resolver.resolve graphRoot.nspace produces)

/-- The body of the loop of `scan_raisers`. -/
def scanRaiser (scanned : Scanned) (file : RaiserFile) : Except String Scanned := do
  validateNameSegment "raiser name" file.stem
  rejectRuntimeFileWatchGlob file.decl
  let raiser ← resolveRaiser resolver graphRoot file.decl
  let canonicalName ← resolver.canonicalDeclName graphRoot.nspace file.stem
  -- `insert_raiser_decl`
  if scanned.raisers.contains canonicalName then
    .error ("duplicate raiser `" ++ canonicalName ++ "` at " ++ file.path)
  else return { scanned with raisers := scanned.raisers.insert canonicalName raiser }

/-- `scan_departments` and `scan_raisers` of one root. -/
def scanRoot (scanned : Scanned) : Except String Scanned := do
  let scanned ← graphRoot.departments.foldlM
    (scanDepartment resolver subscribeResolver defaults graphRoot) scanned
  graphRoot.raisers.foldlM (scanRaiser resolver graphRoot) scanned

end Roots

/-! ## Across packages -/

/-- `declaration_namespace`. -/
def declarationNamespace (name : String) : Option String :=
  (Text.splitOnce '.' name.toList).map fun (nspace, _) => String.ofList nspace

/-- `validate_cross_package_produces`. -/
def validateCrossPackageProduces (scanned : Scanned) : Except String Unit := do
  let publishedSeam := scanned.departments.toList.flatMap fun (_, dept) => dept.publishedSeam
  scanned.departments.toList.forM fun (name, dept) =>
    dept.produces.forM fun queue =>
      if queueOwnedByNamespace queue dept.ownerNamespace || publishedSeam.contains queue then .ok ()
      else .error ("department `" ++ name ++ "` produces sibling queue `" ++ queue ++
        "` which is not published by that package in M.spec.published_seam")
  scanned.raisers.toList.forM fun (name, raiser) =>
    if queueOwnedByNamespace raiser.produces ((declarationNamespace name).getD "") ||
      publishedSeam.contains raiser.produces then .ok ()
    else .error ("raiser `" ++ name ++ "` produces sibling queue `" ++ raiser.produces ++
      "` which is not published by that package in M.spec.published_seam")

/-- `resolve_department_fanout`. -/
def resolveDepartmentFanout (scanned : Scanned) : Except String (List String) := do
  let fanout ← scanned.departmentFanout.toList.mapM fun (name, queues) =>
    match scanned.departments[name]? with
    | none => .error ("department `" ++ name ++ "` fanout has no department")
    | some dept => do
      queues.forM fun queue =>
        if !dept.consumes.contains queue && !dept.produces.contains queue then
          .error ("department `" ++ name ++ "` declares fanout queue `" ++ queue ++
            "` which it does not consume or produce")
        else .ok ()
      return queues
  return fanout.flatten

/-- The queues that are mentioned. -/
def referencedQueues (scanned : Scanned) : List String :=
  (scanned.departments.toList.flatMap fun (_, dept) => dept.consumes ++ dept.produces) ++
    scanned.raisers.toList.map fun (_, raiser) => raiser.produces

/-- `derive_queues`. -/
def deriveQueues (scanned : Scanned) (defaults : HostGraphDefaults) :
    Except String (Table String QueueDecl) := do
  let fanout ← resolveDepartmentFanout scanned
  return (referencedQueues scanned).foldl
    (fun queues queue => queues.insert queue ⟨defaults.queueCapacity, fanout.contains queue⟩) ∅

/-- `load_roots`. -/
def loadRoots (graphRoots : List GraphRoot) (defaults : HostGraphDefaults) : Except String Config := do
  let resolver := NameResolver.new (graphRoots.map GraphRoot.nspace)
  let subscribeResolver := resolver.addRecordedOnlyQueue failureFactQueue
  let scanned ← graphRoots.foldlM
    (fun scanned graphRoot => scanRoot resolver subscribeResolver defaults graphRoot scanned)
    ⟨∅, ∅, ∅⟩
  validateCrossPackageProduces scanned
  let queues ← deriveQueues scanned defaults
  return ⟨queues, scanned.raisers, scanned.departments, ⟨defaults.codexPermitSlots⟩⟩

/-! ## Where declarations come from -/

section Declared

variable (resolver subscribeResolver : NameResolver) (graphRoot : GraphRoot)

/-- `dept` is what a file of a root declares, under its name. -/
structure Declares (file : DepartmentFile) (name : String) (dept : DepartmentDecl) : Prop where
  segment : validateNameSegment "department name" file.name = .ok ()
  consumes : resolveQueues subscribeResolver graphRoot.nspace file.spec.consumes = .ok dept.consumes
  produces : resolveQueues resolver graphRoot.nspace file.spec.produces = .ok dept.produces
  notEngine : rejectEngineDeadLetterProduces dept.produces file.name = .ok ()
  seam : resolveQueues resolver graphRoot.nspace file.spec.publishedSeam = .ok dept.publishedSeam
  ownSeam : validatePublishedSeam dept.publishedSeam dept.consumes graphRoot.nspace file.name = .ok ()
  canonical : resolver.canonicalDeclName graphRoot.nspace file.name = .ok name
  ownerNamespace : dept.ownerNamespace = graphRoot.nspace
  ownerRoot : dept.ownerRoot = graphRoot.root
  lua : dept.lua = file.lua

variable {resolver subscribeResolver graphRoot} {defaults : HostGraphDefaults}
  {scanned scanned' : Scanned}

theorem scanDepartment_eq_ok {file : DepartmentFile}
    (h : scanDepartment resolver subscribeResolver defaults graphRoot scanned file = .ok scanned') :
    ∃ name dept fanout, Declares resolver subscribeResolver graphRoot file name dept ∧
      scanned' = { scanned with
        departments := scanned.departments.insert name dept
        departmentFanout := scanned.departmentFanout.insert name fanout } := by
  obtain ⟨⟨⟩, hsegment, h⟩ := bind_eq_ok.1 h
  obtain ⟨consumes, hconsumes, h⟩ := bind_eq_ok.1 h
  obtain ⟨produces, hproduces, h⟩ := bind_eq_ok.1 h
  obtain ⟨⟨⟩, hengine, h⟩ := bind_eq_ok.1 h
  obtain ⟨fanout, _, h⟩ := bind_eq_ok.1 h
  obtain ⟨seam, hseam, h⟩ := bind_eq_ok.1 h
  obtain ⟨⟨⟩, hownSeam, h⟩ := bind_eq_ok.1 h
  obtain ⟨_, _, h⟩ := bind_eq_ok.1 h
  obtain ⟨_, _, h⟩ := bind_eq_ok.1 h
  obtain ⟨name, hname, h⟩ := bind_eq_ok.1 h
  split at h
  · cases h
  · exact ⟨name, _, fanout, ⟨hsegment, hconsumes, hproduces, hengine, hseam, hownSeam, hname, rfl, rfl,
      rfl⟩, (Except.ok.inj h).symm⟩

theorem resolveRaiser_eq_ok {decl raiser : RaiserDecl}
    (h : resolveRaiser resolver graphRoot decl = .ok raiser) :
    resolver.resolve graphRoot.nspace decl.produces = .ok raiser.produces := by
  cases decl with
  | cron interval produces =>
    obtain ⟨queue, hqueue, h⟩ := bind_eq_ok.1 h
    obtain rfl := Except.ok.inj h
    exact hqueue
  | fileWatch glob produces =>
    obtain ⟨queue, hqueue, h⟩ := bind_eq_ok.1 h
    obtain rfl := Except.ok.inj h
    exact hqueue

theorem scanRaiser_eq_ok {file : RaiserFile}
    (h : scanRaiser resolver graphRoot scanned file = .ok scanned') :
    ∃ name raiser, resolver.resolve graphRoot.nspace file.decl.produces = .ok raiser.produces ∧
      scanned' = { scanned with raisers := scanned.raisers.insert name raiser } := by
  obtain ⟨_, _, h⟩ := bind_eq_ok.1 h
  obtain ⟨_, _, h⟩ := bind_eq_ok.1 h
  obtain ⟨raiser, hraiser, h⟩ := bind_eq_ok.1 h
  obtain ⟨name, _, h⟩ := bind_eq_ok.1 h
  split at h
  · cases h
  · exact ⟨name, raiser, resolveRaiser_eq_ok hraiser, (Except.ok.inj h).symm⟩

variable (resolver subscribeResolver) in
/-- Every department and every raiser that was scanned comes from a file of one of the roots. -/
structure ScannedFrom (graphRoots : List GraphRoot) (scanned : Scanned) : Prop where
  department : ∀ (name : String) (dept : DepartmentDecl), scanned.departments[name]? = some dept → ∃ graphRoot ∈ graphRoots,
    ∃ file ∈ graphRoot.departments, Declares resolver subscribeResolver graphRoot file name dept
  raiser : ∀ (name : String) (raiser : RaiserDecl), scanned.raisers[name]? = some raiser → ∃ graphRoot ∈ graphRoots,
    ∃ file ∈ graphRoot.raisers,
      resolver.resolve graphRoot.nspace file.decl.produces = .ok raiser.produces

variable {graphRoots : List GraphRoot}

theorem ScannedFrom.department_step (hfrom : ScannedFrom resolver subscribeResolver graphRoots scanned)
    (hroot : graphRoot ∈ graphRoots) {file : DepartmentFile} (hfile : file ∈ graphRoot.departments)
    (h : scanDepartment resolver subscribeResolver defaults graphRoot scanned file = .ok scanned') :
    ScannedFrom resolver subscribeResolver graphRoots scanned' := by
  obtain ⟨name, dept, fanout, hdeclares, rfl⟩ := scanDepartment_eq_ok h
  refine ⟨fun other dept' hdept => ?_, hfrom.raiser⟩
  rw [Table.get_insert] at hdept
  split at hdept
  · rename_i heq
    subst heq
    obtain rfl := Option.some.inj hdept
    exact ⟨graphRoot, hroot, file, hfile, hdeclares⟩
  · exact hfrom.department other dept' hdept

theorem ScannedFrom.raiser_step (hfrom : ScannedFrom resolver subscribeResolver graphRoots scanned)
    (hroot : graphRoot ∈ graphRoots) {file : RaiserFile} (hfile : file ∈ graphRoot.raisers)
    (h : scanRaiser resolver graphRoot scanned file = .ok scanned') :
    ScannedFrom resolver subscribeResolver graphRoots scanned' := by
  obtain ⟨name, raiser, hresolve, rfl⟩ := scanRaiser_eq_ok h
  refine ⟨hfrom.department, fun other raiser' hraiser => ?_⟩
  rw [Table.get_insert] at hraiser
  split at hraiser
  · obtain rfl := Option.some.inj hraiser
    exact ⟨graphRoot, hroot, file, hfile, hresolve⟩
  · exact hfrom.raiser other raiser' hraiser

theorem ScannedFrom.root_step (hfrom : ScannedFrom resolver subscribeResolver graphRoots scanned)
    (hroot : graphRoot ∈ graphRoots)
    (h : scanRoot resolver subscribeResolver defaults graphRoot scanned = .ok scanned') :
    ScannedFrom resolver subscribeResolver graphRoots scanned' := by
  obtain ⟨scanned₁, hdepartments, hraisers⟩ := bind_eq_ok.1 h
  have hfrom₁ : ScannedFrom resolver subscribeResolver graphRoots scanned₁ :=
    foldlM_induction (fun _ _ hfile hs _ hstep => hs.department_step hroot hfile hstep) hfrom
      hdepartments
  exact foldlM_induction (fun _ _ hfile hs _ hstep => hs.raiser_step hroot hfile hstep) hfrom₁ hraisers

end Declared

section Loaded

variable {graphRoots : List GraphRoot} {defaults : HostGraphDefaults} {cfg : Config}

/-- What `load_roots` resolves the queues of a root by. -/
def rootsResolver (graphRoots : List GraphRoot) : NameResolver :=
  NameResolver.new (graphRoots.map GraphRoot.nspace)

/-- What `load_roots` resolves the queues that are consumed by. -/
def subscribeResolver (graphRoots : List GraphRoot) : NameResolver :=
  (rootsResolver graphRoots).addRecordedOnlyQueue failureFactQueue

/-- **What a graph is scanned from**: the scan itself, the check across packages and the queues. -/
theorem loadRoots_eq_ok (h : loadRoots graphRoots defaults = .ok cfg) :
    ∃ scanned, ScannedFrom (rootsResolver graphRoots) (subscribeResolver graphRoots) graphRoots scanned ∧
      validateCrossPackageProduces scanned = .ok () ∧ deriveQueues scanned defaults = .ok cfg.queue ∧
      cfg.department = scanned.departments ∧ cfg.raiser = scanned.raisers := by
  obtain ⟨scanned, hscanned, h⟩ := bind_eq_ok.1 h
  obtain ⟨⟨⟩, hcross, h⟩ := bind_eq_ok.1 h
  obtain ⟨queues, hqueues, h⟩ := bind_eq_ok.1 h
  obtain rfl := Except.ok.inj h
  have hempty : ScannedFrom (rootsResolver graphRoots) (subscribeResolver graphRoots) graphRoots
      ⟨∅, ∅, ∅⟩ := by
    constructor
    · intro name dept hdept
      simp at hdept
    · intro name raiser hraiser
      simp at hraiser
  refine ⟨scanned, ?_, hcross, hqueues, rfl, rfl⟩
  exact foldlM_induction (fun _ _ hroot hs _ hstep => hs.root_step hroot hstep) hempty hscanned

end Loaded

/-! ## Queues of a configuration -/

theorem mem_foldl_insert {decl : String → QueueDecl} {name : String} :
    ∀ (names : List String) (queues : Table String QueueDecl),
      name ∈ names.foldl (fun queues queue => queues.insert queue (decl queue)) queues ↔
        name ∈ queues ∨ name ∈ names
  | [], queues => by simp
  | queue :: names, queues => by
    rw [List.foldl_cons, mem_foldl_insert names, Table.mem_insert_iff, List.mem_cons]
    tauto

/-- The queues of a configuration are those that are mentioned. -/
theorem mem_deriveQueues {scanned : Scanned} {defaults : HostGraphDefaults}
    {queues : Table String QueueDecl} (h : deriveQueues scanned defaults = .ok queues) {name : String} :
    name ∈ queues ↔ name ∈ referencedQueues scanned := by
  obtain ⟨fanout, _, h⟩ := bind_eq_ok.1 h
  obtain rfl := Except.ok.inj h
  rw [mem_foldl_insert]
  simp

/-! ## Names of a configuration -/

section Named

variable {graphRoots : List GraphRoot} {defaults : HostGraphDefaults} {cfg : Config}

theorem isCanonical_of_resolveQueues {resolver : NameResolver} {ownerNamespace : String}
    {queues resolved : List String}
    (h : resolveQueues resolver ownerNamespace queues = .ok resolved) :
    ∀ queue ∈ resolved, IsCanonical queue :=
  forall_of_mapM h fun _ _ _ => NameResolver.isCanonical_of_resolve

/-- The names of the departments are canonical. -/
theorem isCanonical_department (h : loadRoots graphRoots defaults = .ok cfg) {name : String}
    (hname : name ∈ cfg.department) : IsCanonical name := by
  obtain ⟨scanned, hfrom, _, _, hdepartments, _⟩ := loadRoots_eq_ok h
  rw [hdepartments] at hname
  obtain ⟨_, _, _, _, hdeclares⟩ := hfrom.department name _ (Std.ExtTreeMap.getElem?_eq_some_getElem hname)
  exact NameResolver.isCanonical_of_canonicalDeclName hdeclares.canonical

/-- The names of the queues are canonical. -/
theorem isCanonical_queue (h : loadRoots graphRoots defaults = .ok cfg) {name : String}
    (hname : name ∈ cfg.queue) : IsCanonical name := by
  obtain ⟨scanned, hfrom, _, hqueues, _⟩ := loadRoots_eq_ok h
  rw [mem_deriveQueues hqueues, referencedQueues, List.mem_append, List.mem_flatMap, List.mem_map] at hname
  rcases hname with ⟨⟨dept, decl⟩, hdept, hmem⟩ | ⟨⟨raiser, decl⟩, hraiser, rfl⟩
  · obtain ⟨_, _, _, _, hdeclares⟩ :=
      hfrom.department dept decl (Std.ExtTreeMap.mem_toList_iff_getElem?_eq_some.1 hdept)
    rcases List.mem_append.1 hmem with hmem | hmem
    · exact isCanonical_of_resolveQueues hdeclares.consumes name hmem
    · exact isCanonical_of_resolveQueues hdeclares.produces name hmem
  · obtain ⟨_, _, _, _, hresolve⟩ :=
      hfrom.raiser raiser decl (Std.ExtTreeMap.mem_toList_iff_getElem?_eq_some.1 hraiser)
    exact NameResolver.isCanonical_of_resolve hresolve

/-- The departments are named, and so is what they consume. -/
def NamedDepartments (departments : Table String DepartmentDecl) : Prop :=
  ∀ name dept, departments[name]? = some dept → IsName name ∧ ∀ queue ∈ dept.consumes, IsName queue

/-- **The departments of a scanned graph are named, and so is what they consume.** -/
theorem named_of_loadRoots {graphRoots : List GraphRoot} {defaults : HostGraphDefaults}
    {cfg : Config} (h : loadRoots graphRoots defaults = .ok cfg) :
    NamedDepartments cfg.department := by
  obtain ⟨scanned, hfrom, _, _, hdepartments, _⟩ := loadRoots_eq_ok h
  intro name dept hdept
  rw [hdepartments] at hdept
  obtain ⟨graphRoot, _, file, _, hdeclares⟩ := hfrom.department name dept hdept
  exact ⟨(NameResolver.isCanonical_of_canonicalDeclName hdeclares.canonical).isName,
    fun queue hqueue => (isCanonical_of_resolveQueues hdeclares.consumes queue hqueue).isName⟩

end Named

end Fkst.Graph
