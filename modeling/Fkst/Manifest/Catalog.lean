import Fkst.Manifest.Modules

/-!
# The catalog of units

`manifest.rs`: every unit gets an index of the modules it may require, its own ones and the public ones
of the libraries that its manifest lists.  `resolve` looks a name up in the index of the unit that
asks.

The indexes are tables that are filled without clashes, so a name leads to one module: `resolve_eq_ok`
says that it is found if and only if it is a module of the unit itself or a public one of a library
that the unit lists and may use (`Visible`).
-/

set_option autoImplicit false

namespace Fkst.Manifest

open Lib
open Lib.Checks (bind_eq_ok bailIf bailIf_eq_ok)

/-! ## Entries -/

/-- `ModuleVisibility`. -/
inductive ModuleVisibility where
  | owner
  | publicLibrary
deriving DecidableEq

/-- `ModuleEntry`. -/
structure ModuleEntry where
  providerSource : Option String
  providerUnit : String
  path : Path
  visibility : ModuleVisibility
deriving DecidableEq

/-- The source in the name of an external unit. -/
def providerSourceOf (unit : String) : Option String := do
  let rest ← "external:".toList.isPrefixOf? unit.toList
  let (source, _) ← Text.splitOnce ':' rest
  return String.ofList source

/-- `ModuleEntry::new`. -/
def ModuleEntry.new (providerUnit : String) (path : Path) (visibility : ModuleVisibility) : ModuleEntry :=
  ⟨providerSourceOf providerUnit, providerUnit, path, visibility⟩

/-- `ModuleIndex`. -/
abbrev ModuleIndex := Table String ModuleEntry

/-! ## Catalogs -/

/-- `UnitCatalog`, before the indexes are built. -/
structure UnitCatalog where
  units : Table String CatalogUnit
  libraryUnits : Table String String
  deniedExternalLibraries : Table String String

/-- A catalog with its indexes. -/
structure IndexedCatalog extends UnitCatalog where
  scans : Table String OwnModuleScan
  indexes : Table String ModuleIndex

/-- What `insert_module_entry` says of a name that comes twice. -/
def ambiguousModule (context logical : String) (previous entry : ModuleEntry) : String :=
  context ++ " has ambiguous module `" ++ logical ++ "` at " ++ display previous.path ++ " and " ++
    display entry.path

/-- A library may be used by a unit. -/
def Visibility.Admits (visibility : Visibility) (unit : String) : Prop :=
  match visibility with
  | .everyone => True
  | .allow units => unit ∈ units

instance (visibility : Visibility) (unit : String) : Decidable (visibility.Admits unit) := by
  unfold Visibility.Admits
  split
  · exact inferInstance
  · exact inferInstance

/-- `validate_library_visibility`. -/
def validateLibraryVisibility (consumerUnit declaredLibrary : String) (libraryUnit : CatalogUnit) :
    Except String Unit :=
  bailIf (¬ libraryUnit.manifest.visibility.Admits consumerUnit)
    ("unit `" ++ consumerUnit ++ "` is not allowed to declare library `" ++ declaredLibrary ++ "`")

section Build

variable (catalog : UnitCatalog) (tree : Path → Entries)

/-- `build_own_module_indexes`. -/
def buildOwnModuleIndexes : Except String (Table String OwnModuleScan) :=
  Table.mapEntries (fun _ unit => scanOwnModules unit (tree unit.codeRoot)) catalog.units

variable (scans : Table String OwnModuleScan)

/-- What a unit sees so far: its index, and the libraries that the public modules in it are of. -/
structure Visibles where
  moduleIndex : ModuleIndex
  visibleLibraryModules : Table String String

/-- One public module of a library, fail closed. -/
def addPublicModule (unitName libraryUnitName : String) (visibles : Visibles) (logical : String)
    (path : Path) : Except String Visibles :=
  match visibles.visibleLibraryModules[logical]? with
  | some previousLibrary => .error ("ambiguous module `" ++ logical ++ "` visible to unit `" ++ unitName ++
      "` from libraries `" ++ previousLibrary ++ "` and `" ++ libraryUnitName ++ "`")
  | none => do
    let moduleIndex ← Table.insertNew (ambiguousModule ("unit `" ++ unitName ++ "`"))
      visibles.moduleIndex logical (.new libraryUnitName path .publicLibrary)
    return ⟨moduleIndex, visibles.visibleLibraryModules.insert logical libraryUnitName⟩

/-- One dependency of a unit, fail closed.  Looking up a unit that is not there would panic. -/
def addDependency (unitName : String) (visibles : Visibles) (dep : String) : Except String Visibles :=
  match catalog.libraryUnits[dep]? with
  | none =>
    match catalog.deniedExternalLibraries[dep]? with
    | some sourceId => .error ("external source `" ++ sourceId ++ "` does not allow library `" ++ dep ++
        "`")
    | none => .error ("unit `" ++ unitName ++ "` declares unknown library `" ++ dep ++ "`")
  | some libraryUnitName =>
    match catalog.units[libraryUnitName]?, scans[libraryUnitName]? with
    | some libraryUnit, some scan => do
      validateLibraryVisibility unitName dep libraryUnit
      scan.publicModules.toList.foldlM (fun visibles entry =>
        addPublicModule unitName libraryUnitName visibles entry.1 entry.2) visibles
    | _, _ => .error "panicked"

/-- The index of one unit. -/
def buildVisibleModuleIndex (unitName : String) (unit : CatalogUnit) (scan : OwnModuleScan) :
    Except String ModuleIndex := do
  let own ← Table.fillNew (ambiguousModule ("unit `" ++ unitName ++ "`"))
    (fun entry => .ok (entry.1, ModuleEntry.new unitName entry.2 .owner)) ∅ scan.ownModules.toList
  let visibles ← unit.manifest.libDeps.foldlM (addDependency catalog scans unitName) ⟨own, ∅⟩
  return visibles.moduleIndex

/-- `build_visible_module_indexes`, fail closed. -/
def buildVisibleModuleIndexes : Except String (Table String ModuleIndex) :=
  Table.mapEntries (fun unitName unit =>
    match scans[unitName]? with
    | none => .error "panicked"
    | some scan => buildVisibleModuleIndex catalog scans unitName unit scan) catalog.units

/-- `build_indexes`. -/
def buildIndexes : Except String IndexedCatalog := do
  let scans ← buildOwnModuleIndexes catalog tree
  let indexes ← buildVisibleModuleIndexes catalog scans
  return { catalog with scans := scans, indexes := indexes }

end Build

/-- `ResolveError`. -/
inductive ResolveError where
  | notDeclaredVisible (callerUnit module : String)
  | ambiguous (callerUnit module : String)
  | unknownUnit (unit : String)
deriving DecidableEq

/-- `resolve`. -/
def resolve (catalog : IndexedCatalog) (callerUnit module : String) : Except ResolveError ModuleEntry :=
  if catalog.units[callerUnit]?.isNone then .error (.unknownUnit callerUnit)
  else
    match catalog.indexes[callerUnit]? with
    | none => .error (.unknownUnit callerUnit)
    | some index =>
      match (index.toList.filter fun entry => entry.1 == module).map Prod.snd with
      | [] => .error (.notDeclaredVisible callerUnit module)
      | [entry] => .ok entry
      | _ => .error (.ambiguous callerUnit module)

/-! ## What is visible -/

/-- **What a unit may require**: its own modules, and the public modules of the libraries that its
manifest lists and that admit it. -/
inductive Visible (catalog : UnitCatalog) (tree : Path → Entries) (unitName name : String) :
    ModuleEntry → Prop where
  | own {unit : CatalogUnit} {path : Path} (hunit : catalog.units[unitName]? = some unit)
    (hmodule : OwnModule unit (tree unit.codeRoot) name path) :
    Visible catalog tree unitName name (.new unitName path .owner)
  | library {unit library : CatalogUnit} {dep libraryName : String} {path : Path}
    (hunit : catalog.units[unitName]? = some unit) (hdep : dep ∈ unit.manifest.libDeps)
    (hname : catalog.libraryUnits[dep]? = some libraryName)
    (hlibrary : catalog.units[libraryName]? = some library)
    (hadmits : library.manifest.visibility.Admits unitName)
    (hmodule : PublicModule library (tree library.codeRoot) name path) :
    Visible catalog tree unitName name (.new libraryName path .publicLibrary)

/-! ## What the indexes hold -/

section Indexes

variable {catalog : UnitCatalog} {tree : Path → Entries} {scans : Table String OwnModuleScan}
  {unitName : String}

/-- The public modules of one library, in the index of a unit. -/
theorem get_of_addPublicModules {libraryUnitName : String} {l : List (String × Path)}
    {visibles visibles' : Visibles}
    (h : l.foldlM (fun visibles entry =>
      addPublicModule unitName libraryUnitName visibles entry.1 entry.2) visibles = .ok visibles')
    {name : String} {entry : ModuleEntry} :
    visibles'.moduleIndex[name]? = some entry ↔ visibles.moduleIndex[name]? = some entry ∨
      ∃ path, (name, path) ∈ l ∧ entry = .new libraryUnitName path .publicLibrary := by
  -- the index alone is filled without clashes
  have hfill : Table.fillNew (ambiguousModule ("unit `" ++ unitName ++ "`"))
      (fun entry : String × Path => .ok (entry.1, .new libraryUnitName entry.2 .publicLibrary))
      visibles.moduleIndex l = .ok visibles'.moduleIndex := by
    induction l generalizing visibles with
    | nil =>
      obtain rfl := Except.ok.inj h
      rfl
    | cons item l ih =>
      rw [List.foldlM_cons, bind_eq_ok] at h
      obtain ⟨visibles₁, hstep, hrest⟩ := h
      rw [addPublicModule] at hstep
      split at hstep
      · cases hstep
      · obtain ⟨index, hinsert, hvisibles⟩ := bind_eq_ok.1 hstep
        obtain rfl := Except.ok.inj hvisibles
        obtain ⟨hnew, rfl⟩ := Table.insertNew_eq_ok.1 hinsert
        exact Table.fillNew_cons.2 ⟨item.1, _, rfl, hnew, ih hrest⟩
  rw [Table.get_fillNew hfill]
  constructor
  · rintro (hk | ⟨⟨logical, path⟩, hmem, heq⟩)
    · exact Or.inl hk
    · obtain ⟨rfl, rfl⟩ := Prod.mk.inj (Except.ok.inj heq)
      exact Or.inr ⟨path, hmem, rfl⟩
  · rintro (hk | ⟨path, hmem, rfl⟩)
    · exact Or.inl hk
    · exact Or.inr ⟨(name, path), hmem, rfl⟩

/-- A dependency of a unit that has passed. -/
structure Dependency (catalog : UnitCatalog) (scans : Table String OwnModuleScan)
    (unitName dep libraryName : String) (library : CatalogUnit) (scan : OwnModuleScan) : Prop where
  name : catalog.libraryUnits[dep]? = some libraryName
  unit : catalog.units[libraryName]? = some library
  scanned : scans[libraryName]? = some scan
  admits : library.manifest.visibility.Admits unitName

theorem addDependency_eq_ok {dep : String} {visibles visibles' : Visibles}
    (h : addDependency catalog scans unitName visibles dep = .ok visibles') :
    ∃ libraryName library scan, Dependency catalog scans unitName dep libraryName library scan ∧
      scan.publicModules.toList.foldlM (fun visibles entry =>
        addPublicModule unitName libraryName visibles entry.1 entry.2) visibles = .ok visibles' := by
  rw [addDependency] at h
  split at h
  · split at h <;> cases h
  · rename_i libraryName hname
    split at h
    · rename_i library scan hlibrary hscan
      obtain ⟨_, hvisible, hmodules⟩ := bind_eq_ok.1 h
      exact ⟨libraryName, library, scan, ⟨hname, hlibrary, hscan, not_not.1 (bailIf_eq_ok.1 hvisible)⟩,
        hmodules⟩
    · cases h

/-- The public modules of all libraries that a unit lists. -/
theorem get_of_addDependencies {deps : List String} {visibles visibles' : Visibles}
    (h : deps.foldlM (addDependency catalog scans unitName) visibles = .ok visibles') {name : String}
    {entry : ModuleEntry} :
    visibles'.moduleIndex[name]? = some entry ↔ visibles.moduleIndex[name]? = some entry ∨
      ∃ dep ∈ deps, ∃ libraryName library scan path,
        Dependency catalog scans unitName dep libraryName library scan ∧
        scan.publicModules[name]? = some path ∧ entry = .new libraryName path .publicLibrary := by
  induction deps generalizing visibles with
  | nil =>
    obtain rfl := Except.ok.inj h
    simp
  | cons dep deps ih =>
    rw [List.foldlM_cons, bind_eq_ok] at h
    obtain ⟨visibles₁, hstep, hrest⟩ := h
    obtain ⟨libraryName, library, scan, hdep, hmodules⟩ := addDependency_eq_ok hstep
    rw [ih hrest, get_of_addPublicModules hmodules]
    simp only [Std.ExtTreeMap.mem_toList_iff_getElem?_eq_some]
    constructor
    · rintro ((hk | ⟨path, hpath, rfl⟩) | ⟨dep', hmem, hrest⟩)
      · exact Or.inl hk
      · exact Or.inr ⟨dep, List.mem_cons_self, libraryName, library, scan, path, hdep, hpath, rfl⟩
      · exact Or.inr ⟨dep', List.mem_cons_of_mem dep hmem, hrest⟩
    · rintro (hk | ⟨dep', hmem, libraryName', library', scan', path, hdep', hpath, rfl⟩)
      · exact Or.inl (Or.inl hk)
      · rcases List.mem_cons.1 hmem with rfl | hmem
        · obtain rfl := Option.some.inj (hdep.name.symm.trans hdep'.name)
          obtain rfl := Option.some.inj (hdep.scanned.symm.trans hdep'.scanned)
          exact Or.inl (Or.inr ⟨path, hpath, rfl⟩)
        · exact Or.inr ⟨dep', hmem, libraryName', library', scan', path, hdep', hpath, rfl⟩

/-- The index of a unit. -/
theorem get_of_buildVisibleModuleIndex {unit : CatalogUnit} {scan : OwnModuleScan} {index : ModuleIndex}
    (h : buildVisibleModuleIndex catalog scans unitName unit scan = .ok index) {name : String}
    {entry : ModuleEntry} :
    index[name]? = some entry ↔
      (∃ path, scan.ownModules[name]? = some path ∧ entry = .new unitName path .owner) ∨
      ∃ dep ∈ unit.manifest.libDeps, ∃ libraryName library scan path,
        Dependency catalog scans unitName dep libraryName library scan ∧
        scan.publicModules[name]? = some path ∧ entry = .new libraryName path .publicLibrary := by
  obtain ⟨own, hown, h⟩ := bind_eq_ok.1 h
  obtain ⟨visibles, hvisibles, h⟩ := bind_eq_ok.1 h
  obtain rfl := Except.ok.inj h
  rw [get_of_addDependencies hvisibles, Table.get_fillNew hown]
  refine or_congr_left ?_
  constructor
  · rintro (hempty | ⟨⟨logical, path⟩, hmem, heq⟩)
    · simp at hempty
    · obtain ⟨rfl, rfl⟩ := Prod.mk.inj (Except.ok.inj heq)
      exact ⟨path, Std.ExtTreeMap.mem_toList_iff_getElem?_eq_some.1 hmem, rfl⟩
  · rintro ⟨path, hpath, rfl⟩
    exact Or.inr ⟨(name, path), Std.ExtTreeMap.mem_toList_iff_getElem?_eq_some.2 hpath, rfl⟩

/-- The parts of a catalog whose indexes were built. -/
structure Built (catalog : UnitCatalog) (tree : Path → Entries) (indexed : IndexedCatalog) : Prop where
  same : indexed.toUnitCatalog = catalog
  scan : ∀ {name : String} {scan : OwnModuleScan}, indexed.scans[name]? = some scan ↔
    ∃ unit, catalog.units[name]? = some unit ∧ scanOwnModules unit (tree unit.codeRoot) = .ok scan
  scanned : ∀ {name : String} {unit : CatalogUnit}, catalog.units[name]? = some unit →
    ∃ scan index, indexed.scans[name]? = some scan ∧ indexed.indexes[name]? = some index
  index : ∀ {name : String} {index : ModuleIndex}, indexed.indexes[name]? = some index ↔
    ∃ unit scan, catalog.units[name]? = some unit ∧ indexed.scans[name]? = some scan ∧
      buildVisibleModuleIndex catalog indexed.scans name unit scan = .ok index

theorem built_of_buildIndexes {indexed : IndexedCatalog}
    (h : buildIndexes catalog tree = .ok indexed) : Built catalog tree indexed := by
  obtain ⟨scans, hscans, h⟩ := bind_eq_ok.1 h
  obtain ⟨indexes, hindexes, h⟩ := bind_eq_ok.1 h
  obtain rfl := Except.ok.inj h
  refine ⟨rfl, Table.get_mapEntries hscans, fun hunit => ?_, ?_⟩
  · obtain ⟨scan, hscan⟩ := Table.ok_of_mapEntries hscans hunit
    obtain ⟨index, hindex⟩ := Table.ok_of_mapEntries hindexes hunit
    exact ⟨scan, index, (Table.get_mapEntries hscans).2 ⟨_, hunit, hscan⟩,
      (Table.get_mapEntries hindexes).2 ⟨_, hunit, hindex⟩⟩
  intro name index
  rw [Table.get_mapEntries hindexes]
  refine exists_congr fun unit => ?_
  constructor
  · rintro ⟨hunit, hbuild⟩
    split at hbuild
    · cases hbuild
    · rename_i scan hscan
      exact ⟨scan, hunit, hscan, hbuild⟩
  · rintro ⟨scan, hunit, hscan, hbuild⟩
    refine ⟨hunit, ?_⟩
    rw [hscan]
    exact hbuild

/-- The modules of a unit of such a catalog. -/
theorem Built.modules {indexed : IndexedCatalog} (h : Built catalog tree indexed) {unit : CatalogUnit}
    {scan : OwnModuleScan} (hunit : catalog.units[unitName]? = some unit)
    (hscan : indexed.scans[unitName]? = some scan) {name : String} {path : Path} :
    (scan.ownModules[name]? = some path ↔ OwnModule unit (tree unit.codeRoot) name path) ∧
      (scan.publicModules[name]? = some path ↔ PublicModule unit (tree unit.codeRoot) name path) := by
  obtain ⟨unit', hunit', hspec⟩ := h.scan.1 hscan
  obtain rfl := Option.some.inj (hunit.symm.trans hunit')
  exact scanOwnModules_spec hspec

end Indexes

theorem resolve_eq_ok_iff {indexed : IndexedCatalog} {unitName name : String} {entry : ModuleEntry} :
    resolve indexed unitName name = .ok entry ↔ (indexed.units[unitName]?).isSome ∧
      ∃ index, indexed.indexes[unitName]? = some index ∧ index[name]? = some entry := by
  rw [resolve]
  cases indexed.units[unitName]? with
  | none => simp
  | some unit =>
    cases indexed.indexes[unitName]? with
    | none => simp
    | some index =>
      simp only [Option.isNone_some, Bool.false_eq_true, if_false, Table.filter_toList,
        Option.isSome_some, true_and, Option.some.injEq, exists_eq_left']
      cases index[name]? with
      | none => simp
      | some entry' => simp

/-- **A name is found if and only if it is visible.** -/
theorem resolve_eq_ok {catalog : UnitCatalog} {tree : Path → Entries} {indexed : IndexedCatalog}
    (h : buildIndexes catalog tree = .ok indexed) {unitName name : String} {entry : ModuleEntry} :
    resolve indexed unitName name = .ok entry ↔ Visible catalog tree unitName name entry := by
  have hbuilt := built_of_buildIndexes h
  rw [resolve_eq_ok_iff]
  constructor
  · rintro ⟨_, index, hindex, hentry⟩
    obtain ⟨unit, scan, hunit, hscan, hbuild⟩ := hbuilt.index.1 hindex
    rcases (get_of_buildVisibleModuleIndex hbuild).1 hentry with
      ⟨path, hpath, rfl⟩ | ⟨dep, hdep, libraryName, library, scan', path, hlibrary, hpath, rfl⟩
    · exact .own hunit ((hbuilt.modules hunit hscan).1.1 hpath)
    · exact .library hunit hdep hlibrary.name hlibrary.unit hlibrary.admits
        ((hbuilt.modules hlibrary.unit hlibrary.scanned).2.1 hpath)
  · intro hvisible
    cases hvisible with
    | @own unit path hunit hmodule =>
      obtain ⟨scan, index, hscan, hindex⟩ := hbuilt.scanned hunit
      obtain ⟨unit', scan', hunit', hscan', hbuild⟩ := hbuilt.index.1 hindex
      obtain rfl := Option.some.inj (hscan.symm.trans hscan')
      refine ⟨by rw [hbuilt.same, hunit]; rfl, index, hindex, ?_⟩
      refine (get_of_buildVisibleModuleIndex hbuild).2 (Or.inl ⟨path, ?_, rfl⟩)
      exact (hbuilt.modules hunit hscan).1.2 hmodule
    | @library unit library dep libraryName path hunit hdep hname hlibrary hadmits hmodule =>
      obtain ⟨scan, index, _, hindex⟩ := hbuilt.scanned hunit
      obtain ⟨unit', scan', hunit', hscan', hbuild⟩ := hbuilt.index.1 hindex
      obtain rfl := Option.some.inj (hunit.symm.trans hunit')
      obtain ⟨libraryScan, _, hlibraryScan, _⟩ := hbuilt.scanned hlibrary
      refine ⟨by rw [hbuilt.same, hunit]; rfl, index, hindex, ?_⟩
      refine (get_of_buildVisibleModuleIndex hbuild).2 (Or.inr ⟨dep, hdep, libraryName, library,
        libraryScan, path, ⟨hname, hlibrary, hlibraryScan, hadmits⟩, ?_, rfl⟩)
      exact (hbuilt.modules hlibrary hlibraryScan).2.2 hmodule

end Fkst.Manifest
