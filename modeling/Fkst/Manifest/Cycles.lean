import Fkst.Lib.Dfs
import Fkst.Manifest.Discovery

/-!
# Cycles of libraries

`validate_cycles` of `deps_cli.rs`: a search through the libraries that list each other, which reports
the cycles that it meets, each text once.

The search is that of `Lib.Dfs`.  Names of libraries have no blanks in them, so the text of a cycle
says what the cycle is (`cycleKey_injective`), and reporting each text once leaves no cycle out.
`validateCycles_spec` says what comes of it: all reports are cycles, there is one if there is a cycle,
and every strongly connected component with a cycle has one.
-/

set_option autoImplicit false

namespace Fkst.Manifest

open Lib
open Lib.Dfs (Edge IsCycle Inv Reports)
open Graph (IsSegment)
open Relation (TransGen ReflTransGen)

/-! ## Diagnostics -/

/-- `Diagnostic`. -/
structure Diagnostic where
  kind : String
  level : String
  unit : Option String
  library : Option String
  module : Option String
  message : String
deriving DecidableEq

/-- `Diagnostic::fail`. -/
def Diagnostic.fail (kind : String) (unit library module : Option String) (message : String) : Diagnostic :=
  ⟨kind, "fail", unit, library, module, message⟩

/-- `Diagnostic::warn`. -/
def Diagnostic.warn (kind : String) (unit library module : Option String) (message : String) : Diagnostic :=
  ⟨kind, "warn", unit, library, module, message⟩

/-! ## The graph of the libraries -/

/-- `is_library`. -/
def CatalogUnit.isLibrary (unit : CatalogUnit) : Bool := unit.manifest.kind = .library

/-- `library_names`. -/
def libraryNames (catalog : UnitCatalog) : Table String Unit :=
  catalog.units.toList.foldl (fun names entry =>
    Table.insertKey names (if entry.2.isLibrary then some entry.2.manifest.libraryName else none)) ∅

/-- The graph of `validate_cycles`. -/
def libraryGraph (catalog : UnitCatalog) (libraryNames : Table String Unit) : Table String (List String) :=
  catalog.units.toList.foldl (fun graph entry =>
    Table.insertEntry graph (if entry.2.isLibrary then
      some (entry.2.manifest.libraryName, entry.2.manifest.libDeps.filter (· ∈ libraryNames)) else none)) ∅

/-! ## The search -/

/-- The text of a cycle. -/
def cycleKey (cycle : List String) : String :=
  String.ofList ([' ', '-', '>', ' '].intercalate (cycle.map String.toList))

/-- The report of a cycle, which names the library where it is closed. -/
def cycleFailure (cycle : List String) : Diagnostic :=
  .fail "cycle" none cycle.getLast? none ("lib_deps cycle: " ++ cycleKey cycle)

/-- `seen_cycles` and `failures`. -/
structure CycleReports where
  seenCycles : Table String Unit
  failures : List Diagnostic

/-- A cycle is reported if its text was not seen before. -/
def reportCycle (cycle : List String) (reports : CycleReports) : CycleReports :=
  if cycleKey cycle ∈ reports.seenCycles then reports
  else ⟨reports.seenCycles.insert (cycleKey cycle) (), reports.failures ++ [cycleFailure cycle]⟩

/-- The libraries that a library of the graph lists. -/
def listed (graph : Table String (List String)) (library : String) : List String :=
  graph[library]?.getD []

/-- `validate_cycles`, which goes as deep as there are libraries. -/
def validateCycles (catalog : UnitCatalog) (libraryNames : Table String Unit)
    (failures : List Diagnostic) : Option (List Diagnostic) :=
  let graph := libraryGraph catalog libraryNames
  (Dfs.search (listed graph) reportCycle graph.size graph.keys ⟨fun _ => none, [], ∅, failures⟩).map
    fun s => s.out.failures

/-! ## Libraries that list each other -/

/-- **A library lists another one.** -/
def Lists (catalog : UnitCatalog) (library dep : String) : Prop :=
  ∃ (name : String) (unit : CatalogUnit), catalog.units[name]? = some unit ∧
    unit.manifest.kind = .library ∧ unit.manifest.libraryName = library ∧
    dep ∈ unit.manifest.libDeps ∧ (catalog.libraryUnits[dep]?).isSome

/-- A path of libraries that ends where it starts. -/
def LibraryCycle (catalog : UnitCatalog) (cycle : List String) : Prop :=
  ∃ library between, cycle = library :: (between ++ [library]) ∧ cycle.IsChain (Lists catalog)

theorem LibraryCycle.ne_nil {catalog : UnitCatalog} {cycle : List String} (h : LibraryCycle catalog cycle) :
    cycle ≠ [] := by
  obtain ⟨_, _, rfl, _⟩ := h
  exact List.cons_ne_nil _ _

/-! ## What is reported -/

section Reports

variable {next : String → List String}

theorem hasKey_reportCycle (cycle : List String) (reports : CycleReports) :
    cycleKey cycle ∈ (reportCycle cycle reports).seenCycles := by
  rw [reportCycle]
  split
  · assumption
  · exact (Table.mem_insert_iff _ _ _ _).2 (Or.inl rfl)

theorem hasKey_mono (cycle cycle' : List String) (reports : CycleReports)
    (h : cycleKey cycle' ∈ reports.seenCycles) : cycleKey cycle' ∈ (reportCycle cycle reports).seenCycles := by
  rw [reportCycle]
  split
  · exact h
  · exact (Table.mem_insert_iff _ _ _ _).2 (Or.inr h)

/-- **Every report is that of a cycle**, and every text that was seen is that of a reported cycle. -/
theorem cycles_of_reports {failures : List Diagnostic} {out : CycleReports}
    (h : Reports next reportCycle ⟨∅, failures⟩ out) :
    ∃ cycles : List (List String), out.failures = failures ++ cycles.map cycleFailure ∧
      (∀ c ∈ cycles, IsCycle next c) ∧ ∀ key ∈ out.seenCycles, ∃ c ∈ cycles, cycleKey c = key := by
  induction h with
  | refl => exact ⟨[], by simp, by simp, by simp⟩
  | tail _ hstep ih =>
    obtain ⟨cycles, hfailures, hcycles, hseen⟩ := ih
    obtain ⟨c, hc, rfl⟩ := hstep
    rw [reportCycle]
    split
    · exact ⟨cycles, hfailures, hcycles, hseen⟩
    · refine ⟨cycles ++ [c], by simp [hfailures], fun c' hc' => ?_, fun key hkey => ?_⟩
      · rcases List.mem_append.1 hc' with hc' | hc'
        · exact hcycles c' hc'
        · exact List.mem_singleton.1 hc' ▸ hc
      · rcases (Table.mem_insert_iff _ _ _ _).1 hkey with rfl | hkey
        · exact ⟨c, by simp, rfl⟩
        · obtain ⟨c', hc', heq⟩ := hseen key hkey
          exact ⟨c', List.mem_append_left _ hc', heq⟩

/-- The text of a cycle says what the cycle is, if there are no blanks in the names. -/
theorem cycleKey_injective {cycle cycle' : List String} (hne : cycle ≠ []) (hne' : cycle' ≠ [])
    (h : ∀ name ∈ cycle, ' ' ∉ name.toList) (h' : ∀ name ∈ cycle', ' ' ∉ name.toList)
    (heq : cycleKey cycle = cycleKey cycle') : cycle = cycle' := by
  refine List.map_injective_iff.2 (fun _ _ => String.toList_inj.1) (Text.intercalate_inj (by simpa using hne)
    (by simpa using hne') ?_ ?_ (String.ofList_injective heq))
  · simpa using h
  · simpa using h'

end Reports

/-! ## The graph is that of the catalog -/

section Graph

variable {catalog : UnitCatalog}

theorem mem_libraryNames (h : catalog.WellNamed) {library : String} :
    library ∈ libraryNames catalog ↔ (catalog.libraryUnits[library]?).isSome := by
  rw [libraryNames, Table.mem_foldl_insertKey
    (fun entry : String × CatalogUnit =>
      if entry.2.isLibrary then some entry.2.manifest.libraryName else none), Option.isSome_iff_exists]
  constructor
  · rintro (hempty | ⟨⟨name, unit⟩, hmem, hlibrary⟩)
    · simp at hempty
    · obtain ⟨hkind, hname⟩ := Option.ite_none_right_eq_some.1 hlibrary
      exact ⟨name, (h.libraries library name).2 ⟨unit, Std.ExtTreeMap.mem_toList_iff_getElem?_eq_some.1 hmem,
        of_decide_eq_true hkind, Option.some.inj hname⟩⟩
  · rintro ⟨name, hname⟩
    obtain ⟨unit, hunit, hkind, hlibrary⟩ := (h.libraries library name).1 hname
    refine Or.inr ⟨(name, unit), Std.ExtTreeMap.mem_toList_iff_getElem?_eq_some.2 hunit, ?_⟩
    exact Option.ite_none_right_eq_some.2 ⟨decide_eq_true hkind, congrArg some hlibrary⟩

/-- Two units of one library are the same unit. -/
theorem eq_of_libraryName (h : catalog.WellNamed) {entry entry' : String × CatalogUnit}
    (hmem : entry ∈ catalog.units.toList) (hmem' : entry' ∈ catalog.units.toList)
    (hkind : entry.2.manifest.kind = .library) (hkind' : entry'.2.manifest.kind = .library)
    (heq : entry.2.manifest.libraryName = entry'.2.manifest.libraryName) : entry = entry' := by
  have hget := Std.ExtTreeMap.mem_toList_iff_getElem?_eq_some.1 hmem
  have hget' := Std.ExtTreeMap.mem_toList_iff_getElem?_eq_some.1 hmem'
  have hname : entry.1 = entry'.1 := Option.some.inj
    (((h.libraries _ _).2 ⟨entry.2, hget, hkind, heq⟩).symm.trans
      ((h.libraries _ _).2 ⟨entry'.2, hget', hkind', rfl⟩))
  rw [hname, hget'] at hget
  exact Prod.ext hname (Option.some.inj hget).symm

/-- The libraries that a library lists, in the graph. -/
theorem get_libraryGraph (h : catalog.WellNamed) {library : String} {deps : List String} :
    (libraryGraph catalog (libraryNames catalog))[library]? = some deps ↔
      ∃ (name : String) (unit : CatalogUnit), catalog.units[name]? = some unit ∧
        unit.manifest.kind = .library ∧ unit.manifest.libraryName = library ∧
        deps = unit.manifest.libDeps.filter (· ∈ libraryNames catalog) := by
  have hentry : ∀ (entry : String × CatalogUnit) (library : String) (deps : List String),
      (if entry.2.isLibrary then some (entry.2.manifest.libraryName,
        entry.2.manifest.libDeps.filter (· ∈ libraryNames catalog)) else none) = some (library, deps) ↔
      entry.2.manifest.kind = .library ∧ entry.2.manifest.libraryName = library ∧
        deps = entry.2.manifest.libDeps.filter (· ∈ libraryNames catalog) := by
    intro entry library deps
    rw [Option.ite_none_right_eq_some, Option.some.injEq, Prod.mk.injEq, eq_comm (b := deps),
      CatalogUnit.isLibrary, decide_eq_true_eq]
  rw [libraryGraph, ← List.foldl_map, Table.get_fill, List.mem_map]
  · constructor
    · rintro ⟨⟨name, unit⟩, hmem, heq⟩
      exact ⟨name, unit, Std.ExtTreeMap.mem_toList_iff_getElem?_eq_some.1 hmem, (hentry _ _ _).1 heq⟩
    · rintro ⟨name, unit, hunit, heq⟩
      exact ⟨(name, unit), Std.ExtTreeMap.mem_toList_iff_getElem?_eq_some.2 hunit, (hentry _ _ _).2 heq⟩
  · intro k v v' hv hv'
    obtain ⟨entry, hmem, heq⟩ := List.mem_map.1 hv
    obtain ⟨entry', hmem', heq'⟩ := List.mem_map.1 hv'
    obtain ⟨hkind, hlibrary, rfl⟩ := (hentry _ _ _).1 heq
    obtain ⟨hkind', hlibrary', rfl⟩ := (hentry _ _ _).1 heq'
    rw [eq_of_libraryName h hmem hmem' hkind hkind' (hlibrary.trans hlibrary'.symm)]

theorem edge_iff (h : catalog.WellNamed) {library dep : String} :
    Edge (listed (libraryGraph catalog (libraryNames catalog))) library dep ↔ Lists catalog library dep := by
  rw [Edge, listed]
  constructor
  · intro hdep
    cases hdeps : (libraryGraph catalog (libraryNames catalog))[library]? with
    | none => simp [hdeps] at hdep
    | some deps =>
      rw [hdeps, Option.getD_some] at hdep
      obtain ⟨name, unit, hunit, hkind, hlibrary, rfl⟩ := (get_libraryGraph h).1 hdeps
      obtain ⟨hmem, hknown⟩ := List.mem_filter.1 hdep
      exact ⟨name, unit, hunit, hkind, hlibrary, hmem, (mem_libraryNames h).1 (of_decide_eq_true hknown)⟩
  · rintro ⟨name, unit, hunit, hkind, hlibrary, hmem, hknown⟩
    rw [(get_libraryGraph h).2 ⟨name, unit, hunit, hkind, hlibrary, rfl⟩, Option.getD_some]
    exact List.mem_filter.2 ⟨hmem, decide_eq_true ((mem_libraryNames h).2 hknown)⟩

theorem isCycle_iff (h : catalog.WellNamed) {cycle : List String} :
    IsCycle (listed (libraryGraph catalog (libraryNames catalog))) cycle ↔ LibraryCycle catalog cycle := by
  have hedge : Edge (listed (libraryGraph catalog (libraryNames catalog))) = Lists catalog :=
    funext fun library => funext fun dep => propext (edge_iff h)
  rw [IsCycle, LibraryCycle, hedge]

/-- All libraries of the graph are listed in it, and what they list are libraries of it. -/
theorem mem_keys_libraryGraph (h : catalog.WellNamed) {library : String} :
    library ∈ (libraryGraph catalog (libraryNames catalog)).keys ↔
      (catalog.libraryUnits[library]?).isSome := by
  rw [Std.ExtTreeMap.mem_keys, Std.ExtTreeMap.mem_iff_isSome_getElem?, Option.isSome_iff_exists,
    Option.isSome_iff_exists]
  constructor
  · rintro ⟨deps, hdeps⟩
    obtain ⟨name, unit, hunit, hkind, hlibrary, _⟩ := (get_libraryGraph h).1 hdeps
    exact ⟨name, (h.libraries library name).2 ⟨unit, hunit, hkind, hlibrary⟩⟩
  · rintro ⟨name, hname⟩
    obtain ⟨unit, hunit, hkind, hlibrary⟩ := (h.libraries library name).1 hname
    exact ⟨_, (get_libraryGraph h).2 ⟨name, unit, hunit, hkind, hlibrary, rfl⟩⟩

/-- Names of libraries on a cycle have no blanks. -/
theorem blank_notMem (h : catalog.WellNamed) {cycle : List String} (hcycle : LibraryCycle catalog cycle) :
    ∀ name ∈ cycle, ' ' ∉ name.toList := by
  intro name hname
  have hcycle := ((isCycle_iff h).2 hcycle).transGen hname
  obtain ⟨dep, hdep, _⟩ := TransGen.head'_iff.1 hcycle
  obtain ⟨unitName, unit, hunit, hkind, hlibrary, _⟩ := (edge_iff h).1 hdep
  have hsegment := h.segment name unitName ((h.libraries name unitName).2 ⟨unit, hunit, hkind, hlibrary⟩)
  exact fun hblank => absurd (hsegment.2 _ hblank) (by decide)

end Graph

/-! ## Every cycle is reported -/

/-- **The check of cycles** comes to an end.  It reports cycles only, it reports one if there is one, and
for every library on a cycle it reports a cycle of the libraries that reach each other with it. -/
theorem validateCycles_spec {catalog : UnitCatalog} (h : catalog.WellNamed)
    (failures : List Diagnostic) :
    ∃ cycles, validateCycles catalog (libraryNames catalog) failures =
        some (failures ++ cycles.map cycleFailure) ∧
      (∀ cycle ∈ cycles, LibraryCycle catalog cycle) ∧
      (cycles ≠ [] ↔ ∃ cycle, LibraryCycle catalog cycle) ∧
      ∀ library, TransGen (Lists catalog) library library → ∃ cycle ∈ cycles, ∀ name ∈ cycle,
        ReflTransGen (Lists catalog) library name ∧ ReflTransGen (Lists catalog) name library := by
  have hedge : Edge (listed (libraryGraph catalog (libraryNames catalog))) = Lists catalog :=
    funext fun library => funext fun dep => propext (edge_iff h)
  set graph := libraryGraph catalog (libraryNames catalog) with hgraph
  -- the search has a result
  have hkeys : ∀ library ∈ graph.keys.toFinset, ∀ dep ∈ listed graph library, dep ∈ graph.keys.toFinset := by
    intro library _ dep hdep
    obtain ⟨_, _, _, _, _, _, hknown⟩ := (edge_iff h).1 hdep
    exact List.mem_toFinset.2 ((mem_keys_libraryGraph h).2 hknown)
  have hcard : graph.keys.toFinset.card ≤ graph.size :=
    (List.toFinset_card_le _).trans (Std.ExtTreeMap.length_keys).le
  have hinit : Inv (listed graph) (fun (reports : CycleReports) cycle => cycleKey cycle ∈ reports.seenCycles)
    ⟨fun _ => none, [], ⟨∅, failures⟩⟩ := Dfs.inv_init _
  obtain ⟨s, hs⟩ := Dfs.search_isSome hasKey_reportCycle hasKey_mono hkeys hcard
    (fun library hlibrary => List.mem_toFinset.2 hlibrary) hinit rfl
  obtain ⟨hinv, _, hreports, hdone⟩ := Dfs.search_spec hasKey_reportCycle hasKey_mono hinit rfl hs
  obtain ⟨cycles, hfailures, hcycles, hseen⟩ := cycles_of_reports hreports
  have hreal : ∀ cycle ∈ cycles, LibraryCycle catalog cycle :=
    fun cycle hcycle => (isCycle_iff h).1 (hcycles cycle hcycle)
  -- what was seen was reported, since texts of different cycles are different
  have hcomponent : ∀ library, TransGen (Lists catalog) library library → ∃ cycle ∈ cycles,
      ∀ name ∈ cycle, ReflTransGen (Lists catalog) library name ∧
        ReflTransGen (Lists catalog) name library := by
    intro library hlibrary
    rw [← hedge] at hlibrary ⊢
    obtain ⟨dep, hdep, _⟩ := TransGen.head'_iff.1 hlibrary
    obtain ⟨name, unit, hunit, hkind, hname, _⟩ := (edge_iff h).1 hdep
    have hkey : library ∈ graph.keys := (mem_keys_libraryGraph h).2
      (Option.isSome_iff_exists.2 ⟨name, (h.libraries library name).2 ⟨unit, hunit, hkind, hname⟩⟩)
    obtain ⟨cycle, hcycle, hhas, hreach⟩ := hinv.exists_report (hdone library hkey) hlibrary
    obtain ⟨cycle', hcycle', heq⟩ := hseen _ hhas
    have hcycle := (isCycle_iff h).1 hcycle
    obtain rfl := cycleKey_injective (hreal cycle' hcycle').ne_nil hcycle.ne_nil
      (blank_notMem h (hreal cycle' hcycle')) (blank_notMem h hcycle) heq
    exact ⟨cycle', hcycle', hreach⟩
  refine ⟨cycles, ?_, hreal, ⟨fun hne => ?_, ?_⟩, hcomponent⟩
  · rw [validateCycles, ← hgraph, hs, Option.map_some, hfailures]
  · obtain ⟨cycle, hcycle⟩ := List.exists_mem_of_ne_nil _ hne
    exact ⟨cycle, hreal cycle hcycle⟩
  · rintro ⟨cycle, hcycle⟩ rfl
    obtain ⟨library, between, rfl, hchain⟩ := id hcycle
    have hpath := ((isCycle_iff h).2 hcycle).transGen (List.mem_cons_self (a := library))
    rw [hedge] at hpath
    obtain ⟨_, hmem, _⟩ := hcomponent library hpath
    cases hmem

namespace Sample

/-- A library that lists another one. -/
def listing (name dep : String) : CatalogUnit where
  catalogName := name
  unitRoot := ["work", name]
  codeRoot := ["work", name]
  manifest := { kind := .library, name := name, codeRoot := ".", libDeps := [dep] }

/-- Two libraries that list each other. -/
def listingUnits : Units where
  units := [("kit", listing "kit" "codec"), ("codec", listing "codec" "kit")]
  libraryUnits := [("kit", "kit"), ("codec", "codec")]

def listingCatalog : UnitCatalog where
  units := Std.ExtTreeMap.ofList listingUnits.units
  libraryUnits := Std.ExtTreeMap.ofList listingUnits.libraryUnits
  deniedExternalLibraries := ∅

theorem wellNamed_listingUnits : listingUnits.WellNamed :=
  (Units.wellNamed_nil.addLibrary (listing "kit" "codec") (by simp) rfl (by decide +kernel)
    (by simp)).addLibrary (listing "codec" "kit") (by decide +kernel) rfl (by decide +kernel)
    (by decide +kernel)

theorem cycle_listing : LibraryCycle listingCatalog ["kit", "codec", "kit"] := by
  have hget : ∀ entry ∈ listingUnits.units, listingCatalog.units[entry.1]? = some entry.2 :=
    fun entry hentry => (Table.get_ofList wellNamed_listingUnits.nodup).2 hentry
  have hknown : ∀ entry ∈ listingUnits.libraryUnits, listingCatalog.libraryUnits[entry.1]? = some entry.2 :=
    fun entry hentry => (Table.get_ofList wellNamed_listingUnits.librariesNodup).2 hentry
  have hkit := hget ("kit", listing "kit" "codec") (by simp [listingUnits])
  have hcodec := hget ("codec", listing "codec" "kit") (by simp [listingUnits])
  have hknownKit := hknown ("kit", "kit") (by simp [listingUnits])
  have hknownCodec := hknown ("codec", "codec") (by simp [listingUnits])
  have hfirst : Lists listingCatalog "kit" "codec" :=
    ⟨_, _, hkit, rfl, rfl, List.mem_singleton_self _, Option.isSome_of_eq_some hknownCodec⟩
  have hsecond : Lists listingCatalog "codec" "kit" :=
    ⟨_, _, hcodec, rfl, rfl, List.mem_singleton_self _, Option.isSome_of_eq_some hknownKit⟩
  exact ⟨"kit", ["codec"], rfl, List.isChain_cons_cons.2 ⟨hfirst, List.isChain_pair.2 hsecond⟩⟩

end Sample

theorem validateCycles_sample :
    ∃ cycles : List (List String), validateCycles Sample.listingCatalog
        (libraryNames Sample.listingCatalog) [] = some (cycles.map cycleFailure) ∧ cycles ≠ [] := by
  obtain ⟨cycles, hresult, _, hsome, _⟩ := validateCycles_spec (Sample.wellNamed_listingUnits.catalog ∅) []
  exact ⟨cycles, hresult, hsome.2 ⟨_, Sample.cycle_listing⟩⟩

end Fkst.Manifest
