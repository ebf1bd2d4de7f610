import Mathlib.Data.List.Sort
import Fkst.Graph.Durations

/-!
# Validation of a graph

`validate_with_scope` of `validation.rs` in `fkst-common`: what is demanded of a configuration before
anything is started.  The maps are walked in the order of their keys, so that the complaint is about
the first key that is wrong, and the warnings come in the order of the queues.

`Accepted` lists what is known of a configuration that has passed.
-/

set_option autoImplicit false

namespace Fkst.Graph

open Lib
open Lib.Checks (bailIf bailIf_eq_ok bind_eq_ok exists_of_mapM_eq_ok forM_eq_ok mem_of_mapM_eq_ok)

/-! ## Who fills and who drains a queue -/

/-- `sort` of a vector of strings. -/
def sortNames (names : List String) : List String :=
  names.insertionSort fun left right => compare left right ≠ .gt

/-- `join(", ")`. -/
def joinNames (names : List String) : String := ", ".intercalate names

/-- `quote_list`. -/
def quoteList (values : List String) : String :=
  joinNames (values.map fun value => "'" ++ value ++ "'")

def raiserLabel (name : String) : String := "raiser '" ++ name ++ "'"

def departmentLabel (name : String) : String := "department '" ++ name ++ "'"

namespace Config

variable (cfg : Config)

/-- The names of the departments of a kind. -/
def departmentsWhere (kind : DepartmentDecl → Bool) : List String :=
  (cfg.department.toList.filter fun (_, dept) => kind dept).map Prod.fst

/-- The names of the raisers of a kind. -/
def raisersWhere (kind : RaiserDecl → Bool) : List String :=
  (cfg.raiser.toList.filter fun (_, raiser) => kind raiser).map Prod.fst

/-- `queue_is_fanout`. -/
def queueIsFanout (qname : String) : Bool := cfg.queue[qname]?.any (·.fanout)

/-- `queue_producers`. -/
def queueProducers (qname : String) : List String :=
  sortNames ((cfg.raisersWhere (·.produces == qname)).map raiserLabel ++
    (cfg.departmentsWhere (·.produces.contains qname)).map departmentLabel)

/-- `queue_consumers`. -/
def queueConsumers (qname : String) : List String :=
  sortNames ((cfg.departmentsWhere (·.consumes.contains qname)).map departmentLabel)

/-- `reliable_consumers_for_queue`. -/
def reliableConsumersForQueue (qname : String) : List String :=
  sortNames (cfg.departmentsWhere fun dept =>
    dept.consumes.contains qname && !dept.ephemeral.contains qname)

/-- `queue_feedback_departments`. -/
def queueFeedbackDepartments (qname : String) : List String :=
  sortNames ((cfg.departmentsWhere fun dept =>
    dept.consumes.contains qname && dept.produces.contains qname).map departmentLabel)

/-- The first department that consumes a queue and has others publish to it. -/
def externalSeam (qname : String) : Option String :=
  (cfg.departmentsWhere fun dept =>
    dept.consumes.contains qname && dept.publishedSeam.contains qname).head?

/-- All who fill a queue, as `validate_with_scope` collects them. -/
def allProducers (qname : String) : List String :=
  cfg.queueProducers qname ++ (builtInProviderForQueue qname).toList ++
    ((cfg.externalSeam qname).map fun name =>
      "external seam declared by department '" ++ name ++ "'").toList

end Config

/-! ## The rules -/

/-- `ValidationScope`. -/
inductive ValidationScope where
  | closedWorld
  | partialGraph
deriving DecidableEq

/-- `join` of a path to an absolute one: an absolute path replaces it. -/
def luaFull (projectRoot lua : String) : String :=
  if lua.toList.head? = some '/' then lua
  else if projectRoot.toList.getLast? = some '/' ∨ projectRoot.isEmpty then projectRoot ++ lua
  else projectRoot ++ "/" ++ lua

/-- `ends_with` of a character. -/
def endsWith (text : String) (c : Char) : Bool := text.toList.getLast? == some c

/-- The rule for stall windows, which looks at the last character. -/
def stallWindowAccepted (stallWindow : String) : Bool :=
  endsWith stallWindow 's' || endsWith stallWindow 'm' || endsWith stallWindow 'h'

section Rules

variable (isFile : String → Bool) (cfg : Config) (projectRoot : String)

/-- The rules for one department. -/
def validateDepartment (name : String) (dept : DepartmentDecl) : Except String Unit := do
  dept.consumes.forM fun q => bailIf (q ∉ cfg.queue)
    ("department '" ++ name ++ "' consumes queue '" ++ q ++ "' which is not declared")
  dept.produces.forM fun q => bailIf (q ∉ cfg.queue)
    ("department '" ++ name ++ "' produces queue '" ++ q ++ "' which is not declared")
  dept.ephemeral.forM fun q => bailIf (q ∉ dept.consumes)
    ("department '" ++ name ++ "' marks queue '" ++ q ++ "' ephemeral but does not consume it")
  bailIf (isFile (luaFull projectRoot dept.lua) = false)
    ("department '" ++ name ++ "' lua file '" ++ dept.lua ++ "' does not exist (resolved: " ++
      luaFull projectRoot dept.lua ++ ")")
  bailIf (stallWindowAccepted dept.stallWindow = false)
    ("department '" ++ name ++ "' stall_window '" ++ dept.stallWindow ++ "' must end with s/m/h")
  match dept.retry with
  | some retry => validateRetryDecl name retry
  | none => return ()

/-- Some consumed queue is reliable. -/
def propagatesSourceRef (dept : DepartmentDecl) : Bool :=
  dept.consumes.any fun queue => !dept.ephemeral.contains queue

/-- The rule for departments that have no source to hand on. -/
def validateSources (producerName : String) (producer : DepartmentDecl) : Except String Unit :=
  if producer.consumes = [] then .ok ()
  else if propagatesSourceRef producer then .ok ()
  else producer.produces.forM fun produced =>
    bailIf (cfg.reliableConsumersForQueue produced ≠ [])
      ("department '" ++ producerName ++ "' consumes only ephemeral queues (" ++
        quoteList producer.consumes ++ ") but produces queue '" ++ produced ++
        "' with reliable consumer(s) (" ++ quoteList (cfg.reliableConsumersForQueue produced) ++
        "); a reliable raised event inherits its source_ref from a reliable consumed event, so an " ++
        "all-ephemeral consumer has no source_ref to propagate. Fix: remove 'ephemeral' from at " ++
        "least one consumed queue (make it reliable), or mark the downstream consumer(s) of '" ++
        produced ++ "' ephemeral.")

/-- `validate_queue_contract`. -/
def validateQueueContract (qname : String) (consumers : List String) : Except String Unit :=
  if cfg.queueIsFanout qname then .ok ()
  else do
    bailIf (1 < consumers.length) ("queue '" ++ qname ++ "' has multiple consumers (" ++
      joinNames consumers ++ ") but is not declared fanout")
    bailIf (cfg.queueFeedbackDepartments qname ≠ []) ("queue '" ++ qname ++
      "' is consumed and produced by " ++ joinNames (cfg.queueFeedbackDepartments qname) ++
      " but is not declared fanout")

/-- The warning about a queue that nobody drains. -/
def unconsumedWarning (qname : String) : String :=
  "queue '" ++ qname ++ "' is produced by " ++ joinNames (cfg.allProducers qname) ++
    " but has no consumer"

/-- What is said of a queue that nobody fills. -/
def validateUnproduced (scope : ValidationScope) (qname : String) : Except String (List String) :=
  if cfg.allProducers qname = [] ∧ cfg.queueConsumers qname ≠ [] then
    match scope with
    | .closedWorld => .error ("queue '" ++ qname ++ "' is consumed by " ++
        joinNames (cfg.queueConsumers qname) ++ " but has no producer")
    | .partialGraph => .ok ["queue '" ++ qname ++ "' is consumed by " ++
        joinNames (cfg.queueConsumers qname) ++ " but has no producer in this partial graph"]
  else .ok []

/-- The rules for one queue, with the warnings. -/
def validateQueue (scope : ValidationScope) (qname : String) : Except String (List String) := do
  let producers := cfg.allProducers qname
  let consumers := cfg.queueConsumers qname
  bailIf (producers = [] ∧ consumers = [])
    ("queue '" ++ qname ++ "' has no producer and no consumer (isolated)")
  let unconsumed := if producers ≠ [] ∧ consumers = [] then [unconsumedWarning cfg qname] else []
  let unproduced ← validateUnproduced cfg scope qname
  validateQueueContract cfg qname consumers
  return unconsumed ++ unproduced

/-- `validate_with_scope`. -/
def validateWithScope (scope : ValidationScope) : Except String (List String) := do
  bailIf (cfg.limits.globalCodexProcesses = 0) "limits.global_codex_processes must be > 0"
  cfg.queue.toList.forM fun (name, q) => bailIf (q.capacity = 0)
    ("queue '" ++ name ++ "' has capacity 0 (must be > 0)")
  cfg.raiser.toList.forM fun (name, raiser) => bailIf (raiser.produces ∉ cfg.queue)
    ("raiser '" ++ name ++ "' produces queue '" ++ raiser.produces ++
      "' which is not declared in [queue.*]")
  cfg.department.toList.forM fun (name, dept) => validateDepartment isFile cfg projectRoot name dept
  cfg.department.toList.forM fun (name, dept) => validateSources cfg name dept
  let warnings ← cfg.queue.keys.mapM (validateQueue cfg scope)
  return warnings.flatten

/-- `validate`. -/
def validate : Except String (List String) :=
  validateWithScope isFile cfg projectRoot .closedWorld

end Rules

/-! ## What is known after validation -/

theorem mem_sortNames {names : List String} {name : String} :
    name ∈ sortNames names ↔ name ∈ names :=
  (List.perm_insertionSort _ names).mem_iff

theorem sortNames_eq_nil {names : List String} : sortNames names = [] ↔ names = [] := by
  rw [← List.length_eq_zero_iff, ← List.length_eq_zero_iff, sortNames, List.length_insertionSort]

section Where

variable {cfg : Config} {qname name : String}

theorem mem_departmentsWhere {kind : DepartmentDecl → Bool} :
    name ∈ cfg.departmentsWhere kind ↔ ∃ dept, cfg.department[name]? = some dept ∧ kind dept := by
  rw [Config.departmentsWhere, List.mem_map]
  constructor
  · rintro ⟨⟨name, dept⟩, hmem, rfl⟩
    obtain ⟨hdept, hkind⟩ := List.mem_filter.1 hmem
    exact ⟨dept, Std.ExtTreeMap.mem_toList_iff_getElem?_eq_some.1 hdept, hkind⟩
  · rintro ⟨dept, hdept, hkind⟩
    exact ⟨(name, dept), List.mem_filter.2
      ⟨Std.ExtTreeMap.mem_toList_iff_getElem?_eq_some.2 hdept, hkind⟩, rfl⟩

theorem departmentsWhere_eq_nil {kind : DepartmentDecl → Bool} :
    cfg.departmentsWhere kind = [] ↔
      ∀ (name : String) (dept : DepartmentDecl), cfg.department[name]? = some dept →
        kind dept = false := by
  rw [List.eq_nil_iff_forall_not_mem]
  constructor
  · intro h name dept hdept
    exact Bool.eq_false_iff.2 fun hkind => h name (mem_departmentsWhere.2 ⟨dept, hdept, hkind⟩)
  · intro h name hname
    obtain ⟨dept, hdept, hkind⟩ := mem_departmentsWhere.1 hname
    rw [h name dept hdept] at hkind
    cases hkind

/-- Nobody consumes the queue. -/
theorem queueConsumers_eq_nil : cfg.queueConsumers qname = [] ↔
    ∀ (name : String) (dept : DepartmentDecl), cfg.department[name]? = some dept →
      qname ∉ dept.consumes := by
  rw [Config.queueConsumers, sortNames_eq_nil, List.map_eq_nil_iff, departmentsWhere_eq_nil]
  simp only [List.contains_eq_mem, decide_eq_false_iff_not]

theorem reliableConsumersForQueue_eq_nil : cfg.reliableConsumersForQueue qname = [] ↔
    ∀ (name : String) (dept : DepartmentDecl), cfg.department[name]? = some dept →
      qname ∈ dept.consumes → qname ∈ dept.ephemeral := by
  rw [Config.reliableConsumersForQueue, sortNames_eq_nil, departmentsWhere_eq_nil]
  simp only [List.contains_eq_mem, Bool.and_eq_false_iff, decide_eq_false_iff_not,
    Bool.not_eq_false', decide_eq_true_eq, imp_iff_not_or]

/-- A queue that a department produces has a producer. -/
theorem allProducers_ne_nil {dept : DepartmentDecl} (hdept : cfg.department[name]? = some dept)
    (hproduces : qname ∈ dept.produces) : cfg.allProducers qname ≠ [] := by
  have hmem : departmentLabel name ∈ cfg.queueProducers qname :=
    mem_sortNames.2 (List.mem_append_right _ (List.mem_map_of_mem
      (mem_departmentsWhere.2 ⟨dept, hdept, by rwa [List.contains_iff_mem]⟩)))
  rw [Config.allProducers, List.append_assoc]
  exact List.append_ne_nil_of_left_ne_nil (List.ne_nil_of_mem hmem) _

end Where

/-- What is known of a department that was accepted. -/
structure DepartmentAccepted (isFile : String → Bool) (cfg : Config) (projectRoot name : String)
    (dept : DepartmentDecl) : Prop where
  consumes : ∀ q ∈ dept.consumes, q ∈ cfg.queue
  produces : ∀ q ∈ dept.produces, q ∈ cfg.queue
  ephemeral : ∀ q ∈ dept.ephemeral, q ∈ dept.consumes
  lua : isFile (luaFull projectRoot dept.lua) = true
  stallWindow : stallWindowAccepted dept.stallWindow = true
  retry : ∀ retry, dept.retry = some retry → validateRetryDecl name retry = .ok ()

/-- What is known of a configuration that was accepted. -/
structure Accepted (isFile : String → Bool) (cfg : Config) (projectRoot : String)
    (scope : ValidationScope) (warnings : List String) : Prop where
  processes : cfg.limits.globalCodexProcesses ≠ 0
  capacity : ∀ (name : String) (q : QueueDecl), cfg.queue[name]? = some q → q.capacity ≠ 0
  raised : ∀ (name : String) (raiser : RaiserDecl), cfg.raiser[name]? = some raiser →
    raiser.produces ∈ cfg.queue
  department : ∀ (name : String) (dept : DepartmentDecl), cfg.department[name]? = some dept →
    DepartmentAccepted isFile cfg projectRoot name dept
  /-- A department without reliable queues raises to no reliable subscriber. -/
  sources : ∀ (name : String) (dept : DepartmentDecl), cfg.department[name]? = some dept →
    dept.consumes ≠ [] → propagatesSourceRef dept = false →
      ∀ q ∈ dept.produces, cfg.reliableConsumersForQueue q = []
  queue : ∀ q ∈ cfg.queue, ∃ own, validateQueue cfg scope q = .ok own ∧ ∀ w ∈ own, w ∈ warnings

section Accepted

variable {isFile : String → Bool} {cfg : Config} {projectRoot name : String} {dept : DepartmentDecl}
  {scope : ValidationScope} {warnings : List String}

theorem departmentAccepted_of_ok
    (h : validateDepartment isFile cfg projectRoot name dept = .ok ()) :
    DepartmentAccepted isFile cfg projectRoot name dept := by
  obtain ⟨⟨⟩, hconsumes, h⟩ := bind_eq_ok.1 h
  obtain ⟨⟨⟩, hproduces, h⟩ := bind_eq_ok.1 h
  obtain ⟨⟨⟩, hephemeral, h⟩ := bind_eq_ok.1 h
  obtain ⟨⟨⟩, hlua, h⟩ := bind_eq_ok.1 h
  obtain ⟨⟨⟩, hstall, h⟩ := bind_eq_ok.1 h
  refine ⟨fun q hq => ?_, fun q hq => ?_, fun q hq => ?_, ?_, ?_, fun retry hretry => ?_⟩
  · exact not_not.1 (bailIf_eq_ok.1 (forM_eq_ok.1 hconsumes q hq))
  · exact not_not.1 (bailIf_eq_ok.1 (forM_eq_ok.1 hproduces q hq))
  · exact not_not.1 (bailIf_eq_ok.1 (forM_eq_ok.1 hephemeral q hq))
  · exact Bool.eq_true_of_not_eq_false (bailIf_eq_ok.1 hlua)
  · exact Bool.eq_true_of_not_eq_false (bailIf_eq_ok.1 hstall)
  · rw [hretry] at h
    exact h

theorem reliableConsumers_of_ok (h : validateSources cfg name dept = .ok ())
    (hconsumes : dept.consumes ≠ []) (hsource : propagatesSourceRef dept = false) {q : String}
    (hq : q ∈ dept.produces) : cfg.reliableConsumersForQueue q = [] := by
  rw [validateSources, if_neg hconsumes, hsource, if_neg Bool.false_ne_true] at h
  exact not_not.1 (bailIf_eq_ok.1 (forM_eq_ok.1 h q hq))

/-- **What validation establishes.** -/
theorem accepted_of_ok (h : validateWithScope isFile cfg projectRoot scope = .ok warnings) :
    Accepted isFile cfg projectRoot scope warnings := by
  obtain ⟨⟨⟩, hprocesses, h⟩ := bind_eq_ok.1 h
  obtain ⟨⟨⟩, hcapacity, h⟩ := bind_eq_ok.1 h
  obtain ⟨⟨⟩, hraised, h⟩ := bind_eq_ok.1 h
  obtain ⟨⟨⟩, hdepartment, h⟩ := bind_eq_ok.1 h
  obtain ⟨⟨⟩, hsources, h⟩ := bind_eq_ok.1 h
  obtain ⟨own, hown, h⟩ := bind_eq_ok.1 h
  obtain rfl := Except.ok.inj h
  refine ⟨bailIf_eq_ok.1 hprocesses, fun name q hq => ?_, fun name raiser hraiser => ?_,
    fun name dept hdept => ?_, fun name dept hdept hconsumes hsource q hq => ?_, fun q hq => ?_⟩
  · exact bailIf_eq_ok.1 (forM_eq_ok.1 hcapacity (name, q)
      (Std.ExtTreeMap.mem_toList_iff_getElem?_eq_some.2 hq))
  · exact not_not.1 (bailIf_eq_ok.1 (forM_eq_ok.1 hraised (name, raiser)
      (Std.ExtTreeMap.mem_toList_iff_getElem?_eq_some.2 hraiser)))
  · exact departmentAccepted_of_ok (forM_eq_ok.1 hdepartment (name, dept)
      (Std.ExtTreeMap.mem_toList_iff_getElem?_eq_some.2 hdept))
  · exact reliableConsumers_of_ok (forM_eq_ok.1 hsources (name, dept)
      (Std.ExtTreeMap.mem_toList_iff_getElem?_eq_some.2 hdept)) hconsumes hsource hq
  · have hkey : q ∈ cfg.queue.keys := Std.ExtTreeMap.mem_keys.2 hq
    obtain ⟨warned, hwarned⟩ := exists_of_mapM_eq_ok hown hkey
    exact ⟨warned, hwarned, fun w hw =>
      List.mem_flatten.2 ⟨warned, (mem_of_mapM_eq_ok hown).2 ⟨q, hkey, hwarned⟩, hw⟩⟩

/-- A queue that someone fills and nobody drains is warned about. -/
theorem Accepted.warned (h : Accepted isFile cfg projectRoot scope warnings) {q : String}
    (hq : q ∈ cfg.queue) (hproducers : cfg.allProducers q ≠ []) (hconsumers : cfg.queueConsumers q = []) :
    unconsumedWarning cfg q ∈ warnings := by
  obtain ⟨own, hown, hmem⟩ := h.queue q hq
  obtain ⟨⟨⟩, _, hown⟩ := bind_eq_ok.1 hown
  obtain ⟨unproduced, _, hown⟩ := bind_eq_ok.1 hown
  obtain ⟨⟨⟩, _, hown⟩ := bind_eq_ok.1 hown
  obtain rfl := Except.ok.inj hown
  refine hmem _ (List.mem_append_left _ ?_)
  rw [if_pos ⟨hproducers, hconsumers⟩]
  exact List.mem_singleton_self _

end Accepted

end Fkst.Graph
