import Fkst.Manifest.Cycles

/-!
# The check of the dependencies and the resolver

`validate_declared_libs` of `deps_cli.rs` judges the libraries that the manifests list, and
`build_visible_module_indexes` of `manifest.rs` judges them again when the indexes are built.  The check
goes through all of them and asks for the name in the manifest, the build gives up at the first error and
asks for the name in the catalog.

`agrees_iff` says when the two judge alike.
-/

set_option autoImplicit false

namespace Fkst.Manifest

open Lib
open Lib.Checks (bind_eq_ok bind_eq_error bailIf_eq_ok)
open Graph (IsSegment)

/-! ## The check -/

/-- `unit_allowed_to_declare`. -/
def unitAllowedToDeclare (consumer : String) (libraryUnit : CatalogUnit) : Bool :=
  libraryUnit.manifest.visibility.Admits consumer

/-- `missing-lib` of a unit. -/
def missingLib (unit : CatalogUnit) (lib : String) : Diagnostic :=
  .fail "missing-lib" unit.manifest.name lib none
    (unit.manifest.name ++ " declares unknown library `" ++ lib ++ "`")

/-- The failure of one library that a unit lists. -/
def declaredLibFailure (catalog : UnitCatalog) (unit : CatalogUnit) (lib : String) : Option Diagnostic :=
  match catalog.libraryUnits[lib]? with
  | none => some (missingLib unit lib)
  | some libraryUnitName =>
    match (catalog.units.toList.map Prod.snd).find? (·.catalogName = libraryUnitName) with
    | none => some (missingLib unit lib)
    | some libraryUnit =>
      if unitAllowedToDeclare unit.manifest.name libraryUnit then none
      else some (.fail "visibility" unit.manifest.name lib none
        (unit.manifest.name ++ " is not allowed to declare library `" ++ lib ++ "`"))

/-- `orphan-library`. -/
def orphanLibrary (library : String) : Diagnostic :=
  .warn "orphan-library" none library none ("library `" ++ library ++ "` is declared by no unit")

/-- `validate_declared_libs`: the failures and the warnings. -/
def validateDeclaredLibs (catalog : UnitCatalog) (libraryNames : Table String Unit)
    (failures warnings : List Diagnostic) : List Diagnostic × List Diagnostic :=
  let units := catalog.units.toList.map Prod.snd
  let declared := units.flatMap (·.manifest.libDeps)
  (failures ++ units.flatMap fun unit => unit.manifest.libDeps.filterMap (declaredLibFailure catalog unit),
    warnings ++ ((libraryNames.keys.filter (· ∉ declared)).map orphanLibrary))

/-! ## What is judged -/

/-- A unit lists a library. -/
def Declares (catalog : UnitCatalog) (unitName dep : String) : Prop :=
  ∃ unit : CatalogUnit, catalog.units[unitName]? = some unit ∧ dep ∈ unit.manifest.libDeps

/-- **The errors of the build that refuse a library**: its source denies it, it is unknown, or it does
not admit the unit. -/
inductive Refusal (unitName dep : String) : String → Prop where
  | denied (sourceId : String) :
    Refusal unitName dep ("external source `" ++ sourceId ++ "` does not allow library `" ++ dep ++ "`")
  | unknown : Refusal unitName dep ("unit `" ++ unitName ++ "` declares unknown library `" ++ dep ++ "`")
  | notAdmitted : Refusal unitName dep
    ("unit `" ++ unitName ++ "` is not allowed to declare library `" ++ dep ++ "`")

/-- The build fails with such an error. -/
def BuildRefuses (catalog : UnitCatalog) (scans : Table String OwnModuleScan) : Prop :=
  ∃ err, buildVisibleModuleIndexes catalog scans = .error err ∧
    ∃ unitName dep, Declares catalog unitName dep ∧ Refusal unitName dep err

/-- **The check agrees with the build**: it has no failure if and only if the build does not refuse a
library, and they judge every library that is listed alike. -/
structure Agrees (catalog : UnitCatalog) (scans : Table String OwnModuleScan) : Prop where
  verdict : (∀ failures warnings,
      (validateDeclaredLibs catalog (libraryNames catalog) failures warnings).1 = failures) ↔
    ¬ BuildRefuses catalog scans
  pair : ∀ (unitName : String) (unit : CatalogUnit), catalog.units[unitName]? = some unit →
    ∀ dep ∈ unit.manifest.libDeps, ∀ visibles, (declaredLibFailure catalog unit dep).isSome ↔
      ∃ err, addDependency catalog scans unitName visibles dep = .error err ∧ Refusal unitName dep err

/-! ## The condition -/

/-- No library of that name admits a unit of this name. -/
def Refused (catalog : UnitCatalog) (unitName dep : String) : Prop :=
  ∀ (libraryName : String) (library : CatalogUnit), catalog.libraryUnits[dep]? = some libraryName →
    catalog.units[libraryName]? = some library → ¬ library.manifest.visibility.Admits unitName

/-- The libraries do not tell the name in a manifest from that in the catalog. -/
def NamedAlike (catalog : UnitCatalog) : Prop :=
  ∀ (unitName : String) (unit : CatalogUnit), catalog.units[unitName]? = some unit →
    ∀ dep ∈ unit.manifest.libDeps, ∀ (libraryName : String) (library : CatalogUnit),
      catalog.libraryUnits[dep]? = some libraryName → catalog.units[libraryName]? = some library →
      (library.manifest.visibility.Admits unit.manifest.name ↔ library.manifest.visibility.Admits unitName)

/-- The names of the own modules of a unit. -/
def ownNames (scans : Table String OwnModuleScan) (unitName : String) : List String :=
  match scans[unitName]? with
  | some scan => scan.ownModules.keys
  | none => []

/-- The names of the public modules of a library. -/
def publicNames (catalog : UnitCatalog) (scans : Table String OwnModuleScan) (dep : String) :
    List String :=
  match (catalog.libraryUnits[dep]?).bind (scans[·]?) with
  | some scan => scan.publicModules.keys
  | none => []

/-- Libraries that admit a unit, and that have no name in common with it or with each other. -/
def Clear (catalog : UnitCatalog) (scans : Table String OwnModuleScan) (unitName : String)
    (deps : List String) : Prop :=
  (∀ dep ∈ deps, ¬ Refused catalog unitName dep) ∧
    (ownNames scans unitName :: deps.map (publicNames catalog scans)).Pairwise List.Disjoint

/-- A library is refused, and all that comes before it is clear. -/
def RefusedFirst (catalog : UnitCatalog) (scans : Table String OwnModuleScan) : Prop :=
  ∃ before unitName unit after deps dep deps', catalog.units.toList = before ++ (unitName, unit) :: after ∧
    unit.manifest.libDeps = deps ++ dep :: deps' ∧ Refused catalog unitName dep ∧
    Clear catalog scans unitName deps ∧
    ∀ entry ∈ before, Clear catalog scans entry.1 entry.2.manifest.libDeps

/-! ## What the check finds -/

section Check

variable {catalog : UnitCatalog}

/-- The units have the names that they are found by. -/
theorem find_units (h : catalog.WellNamed) (name : String) :
    (catalog.units.toList.map Prod.snd).find? (·.catalogName = name) = catalog.units[name]? := by
  cases hfind : (catalog.units.toList.map Prod.snd).find? (·.catalogName = name) with
  | none =>
    rw [List.find?_eq_none] at hfind
    refine (Option.eq_none_iff_forall_ne_some.2 fun unit hunit => ?_).symm
    refine hfind unit (List.mem_map.2 ⟨(name, unit), ?_, rfl⟩) ?_
    · exact Std.ExtTreeMap.mem_toList_iff_getElem?_eq_some.2 hunit
    · exact decide_eq_true (h.catalogName name unit hunit)
  | some unit =>
    obtain ⟨⟨name', unit'⟩, hmem, rfl⟩ := List.mem_map.1 (List.mem_of_find?_eq_some hfind)
    have hunit := Std.ExtTreeMap.mem_toList_iff_getElem?_eq_some.1 hmem
    have hname : unit'.catalogName = name := by simpa using List.find?_some hfind
    rw [← hname, h.catalogName name' unit' hunit]
    exact hunit.symm

/-- A library that is known is refused if it does not admit the unit. -/
theorem refused_iff {unitName dep libraryName : String} {library : CatalogUnit}
    (hname : catalog.libraryUnits[dep]? = some libraryName)
    (hlibrary : catalog.units[libraryName]? = some library) :
    Refused catalog unitName dep ↔ ¬ library.manifest.visibility.Admits unitName := by
  constructor
  · exact fun h => h libraryName library hname hlibrary
  · intro h libraryName' library' hname' hlibrary'
    obtain rfl := Option.some.inj (hname.symm.trans hname')
    obtain rfl := Option.some.inj (hlibrary.symm.trans hlibrary')
    exact h

/-- **The check refuses by the name in the manifest.** -/
theorem declaredLibFailure_isSome (h : catalog.WellNamed) (unit : CatalogUnit) (dep : String) :
    (declaredLibFailure catalog unit dep).isSome ↔ Refused catalog unit.manifest.name dep := by
  rw [declaredLibFailure]
  split
  · rename_i hnone
    refine ⟨fun _ libraryName _ hname => ?_, fun _ => rfl⟩
    rw [hnone] at hname
    cases hname
  · rename_i libraryName hname
    rw [find_units h]
    obtain ⟨library, hlibrary, _⟩ := (h.libraries dep libraryName).1 hname
    rw [hlibrary, refused_iff hname hlibrary]
    show (if unitAllowedToDeclare unit.manifest.name library then none else some _).isSome ↔ _
    rw [unitAllowedToDeclare]
    by_cases hadmits : library.manifest.visibility.Admits unit.manifest.name
    · simp [hadmits]
    · simp [hadmits]

/-- There are no failures if nothing is refused. -/
theorem validateDeclaredLibs_eq (h : catalog.WellNamed) {names : Table String Unit}
    {failures warnings : List Diagnostic} :
    (validateDeclaredLibs catalog names failures warnings).1 = failures ↔
      ∀ (unitName : String) (unit : CatalogUnit), catalog.units[unitName]? = some unit →
        ∀ dep ∈ unit.manifest.libDeps, ¬ Refused catalog unit.manifest.name dep := by
  rw [validateDeclaredLibs]
  rw [List.append_right_eq_self, List.flatMap_eq_nil_iff]
  have hnone : ∀ (unit : CatalogUnit) (dep : String), declaredLibFailure catalog unit dep = none ↔
      ¬ Refused catalog unit.manifest.name dep := by
    intro unit dep
    rw [← declaredLibFailure_isSome h, Option.isSome_iff_ne_none, not_not]
  constructor
  · intro hall unitName unit hunit dep hdep
    refine (hnone unit dep).1 (List.filterMap_eq_nil_iff.1 (hall unit ?_) dep hdep)
    exact List.mem_map.2 ⟨(unitName, unit), Std.ExtTreeMap.mem_toList_iff_getElem?_eq_some.2 hunit, rfl⟩
  · intro hall unit hmem
    obtain ⟨⟨unitName, unit⟩, hunit, rfl⟩ := List.mem_map.1 hmem
    exact List.filterMap_eq_nil_iff.2 fun dep hdep => (hnone unit dep).2
      (hall unitName unit (Std.ExtTreeMap.mem_toList_iff_getElem?_eq_some.1 hunit) dep hdep)

end Check

/-! ## What the build finds -/

/-- The errors of the build that are of two modules of one name. -/
inductive Clash (unitName : String) : String → Prop where
  | libraries (logical previousLibrary libraryUnitName : String) :
    Clash unitName ("ambiguous module `" ++ logical ++ "` visible to unit `" ++ unitName ++
      "` from libraries `" ++ previousLibrary ++ "` and `" ++ libraryUnitName ++ "`")
  | modules (logical : String) (previous entry : ModuleEntry) :
    Clash unitName (ambiguousModule ("unit `" ++ unitName ++ "`") logical previous entry)

/-- What an error of the build says of a unit starts with its name. -/
def SaysOf (unitName : String) (c : Char) (err : String) : Prop :=
  ∃ rest, err.toList = "unit `".toList ++ (unitName.toList ++ '`' :: ' ' :: c :: rest)

theorem SaysOf.inj {unitName name err : String} {c c' : Char} (h : SaysOf unitName c err)
    (h' : SaysOf name c' err) (hunit : '`' ∉ unitName.toList) (hname : '`' ∉ name.toList) : c = c' := by
  obtain ⟨rest, h⟩ := h
  obtain ⟨rest', h'⟩ := h'
  have heq := List.append_cancel_left (h.symm.trans h')
  obtain ⟨_, heq⟩ := Text.append_sep_inj hunit hname heq
  exact (List.cons.inj (List.cons.inj heq).2).1

theorem SaysOf.head {unitName err : String} {c : Char} (h : SaysOf unitName c err) :
    err.toList.head? = some 'u' := by
  obtain ⟨rest, h⟩ := h
  rw [h]
  rfl

theorem Refusal.text {unitName dep err : String} (h : Refusal unitName dep err) :
    err.toList.head? = some 'e' ∨ SaysOf unitName 'd' err ∨ SaysOf unitName 'i' err := by
  cases h with
  | denied sourceId =>
    refine Or.inl ?_
    simp only [String.toList_append, List.append_assoc]
    rfl
  | unknown =>
    refine Or.inr (Or.inl ⟨"eclares unknown library `".toList ++ (dep.toList ++ "`".toList), ?_⟩)
    simp only [String.toList_append, List.append_assoc]
    rfl
  | notAdmitted =>
    refine Or.inr (Or.inr ⟨"s not allowed to declare library `".toList ++ (dep.toList ++ "`".toList), ?_⟩)
    simp only [String.toList_append, List.append_assoc]
    rfl

theorem Clash.text {unitName err : String} (h : Clash unitName err) :
    err.toList.head? = some 'a' ∨ SaysOf unitName 'h' err := by
  cases h with
  | libraries logical previousLibrary libraryUnitName =>
    refine Or.inl ?_
    simp only [String.toList_append, List.append_assoc]
    rfl
  | modules logical previous entry =>
    refine Or.inr ⟨"as ambiguous module `".toList ++ (logical.toList ++ ("` at ".toList ++
      ((display previous.path).toList ++ (" and ".toList ++ (display entry.path).toList)))), ?_⟩
    simp only [ambiguousModule, String.toList_append, List.append_assoc]
    rfl

/-- No error of two modules is one that refuses a library. -/
theorem Clash.not_refusal {unitName name dep err : String} (h : Clash unitName err)
    (hunit : '`' ∉ unitName.toList) (hname : '`' ∉ name.toList) : ¬ Refusal name dep err := by
  intro hrefusal
  rcases h.text with ha | hh
  · rcases hrefusal.text with he | hd | hi
    · cases ha.symm.trans he
    · cases ha.symm.trans hd.head
    · cases ha.symm.trans hi.head
  · rcases hrefusal.text with he | hd | hi
    · cases hh.head.symm.trans he
    · cases hh.inj hd hunit hname
    · cases hh.inj hi hunit hname

section Build

variable {catalog : UnitCatalog} {scans : Table String OwnModuleScan} {unitName : String}

/-- The names that a unit sees are those of its index. -/
def Visibles.Good (visibles : Visibles) : Prop :=
  ∀ name : String, name ∈ visibles.visibleLibraryModules → name ∈ visibles.moduleIndex

theorem clash_of_addPublicModule {libraryUnitName logical err : String} {path : Path} {visibles : Visibles}
    (h : addPublicModule unitName libraryUnitName visibles logical path = .error err) :
    Clash unitName err := by
  rw [addPublicModule] at h
  split at h
  · rename_i previousLibrary _
    obtain rfl := Except.error.inj h
    exact .libraries logical previousLibrary libraryUnitName
  · rcases bind_eq_error.1 h with h | ⟨_, _, h⟩
    · rw [Table.insertNew] at h
      split at h
      · obtain rfl := Except.error.inj h
        exact .modules logical _ _
      · cases h
    · cases h

variable (unitName) in
theorem addPublicModule_cases (libraryUnitName logical : String) (path : Path) {visibles : Visibles}
    (h : visibles.Good) :
    (logical ∉ visibles.moduleIndex ∧ ∃ visibles', visibles'.Good ∧
      (∀ name, name ∈ visibles'.moduleIndex ↔ name ∈ visibles.moduleIndex ∨ name = logical) ∧
      addPublicModule unitName libraryUnitName visibles logical path = .ok visibles') ∨
    (logical ∈ visibles.moduleIndex ∧ ∃ err, Clash unitName err ∧
      addPublicModule unitName libraryUnitName visibles logical path = .error err) := by
  have hmem : ∀ {index : ModuleIndex}, logical ∈ index ↔ (index[logical]?).isSome :=
    Std.ExtTreeMap.mem_iff_isSome_getElem?
  rw [addPublicModule]
  cases hprevious : visibles.visibleLibraryModules[logical]? with
  | some previousLibrary =>
    refine Or.inr ⟨h logical ?_, _, .libraries logical previousLibrary libraryUnitName, rfl⟩
    exact Std.ExtTreeMap.mem_iff_isSome_getElem?.2 (Option.isSome_of_eq_some hprevious)
  | none =>
    cases hentry : visibles.moduleIndex[logical]? with
    | some previous =>
      refine Or.inr ⟨hmem.2 (Option.isSome_of_eq_some hentry), _, .modules logical previous
        (.new libraryUnitName path .publicLibrary), ?_⟩
      simp only [Table.insertNew, hentry]
      rfl
    | none =>
      refine Or.inl ⟨fun hlogical => by simp [hmem, hentry] at hlogical,
        ⟨visibles.moduleIndex.insert logical (.new libraryUnitName path .publicLibrary),
          visibles.visibleLibraryModules.insert logical libraryUnitName⟩, ?_, ?_, ?_⟩
      · intro name hname
        exact (Table.mem_insert_iff _ _ _ _).2 (((Table.mem_insert_iff _ _ _ _).1 hname).imp_right (h name))
      · intro name
        rw [Table.mem_insert_iff, or_comm]
      · simp only [Table.insertNew, hentry]
        rfl

variable (unitName) in
/-- The public modules of a library are added, or one of them is there already. -/
theorem addPublicModules_cases (libraryUnitName : String) {l : List (String × Path)}
    (hnodup : (l.map Prod.fst).Nodup) {visibles : Visibles} (h : visibles.Good) :
    ((∀ name ∈ l.map Prod.fst, name ∉ visibles.moduleIndex) ∧ ∃ visibles', visibles'.Good ∧
      (∀ name, name ∈ visibles'.moduleIndex ↔ name ∈ visibles.moduleIndex ∨ name ∈ l.map Prod.fst) ∧
      l.foldlM (fun visibles entry =>
        addPublicModule unitName libraryUnitName visibles entry.1 entry.2) visibles = .ok visibles') ∨
    ((∃ name ∈ l.map Prod.fst, name ∈ visibles.moduleIndex) ∧ ∃ err, Clash unitName err ∧
      l.foldlM (fun visibles entry =>
        addPublicModule unitName libraryUnitName visibles entry.1 entry.2) visibles = .error err) := by
  induction l generalizing visibles with
  | nil => exact Or.inl ⟨by simp, visibles, h, by simp, rfl⟩
  | cons entry l ih =>
    obtain ⟨logical, path⟩ := entry
    rw [List.map_cons, List.nodup_cons] at hnodup
    simp only [List.map_cons, List.foldlM_cons, List.forall_mem_cons, List.exists_mem_cons_iff]
    rcases addPublicModule_cases unitName libraryUnitName logical path h with ⟨hnew, visibles₁, hgood, hindex, hstep⟩ | ⟨hold, err, hclash, hstep⟩
    · rw [hstep]
      rcases ih hnodup.2 hgood with ⟨hnone, visibles₂, hgood₂, hindex₂, hrest⟩ | ⟨⟨name, hname, hsome⟩, err, hclash, hrest⟩
      · refine Or.inl ⟨⟨hnew, fun name hname hsome => hnone name hname ((hindex name).2 (Or.inl hsome))⟩,
          visibles₂, hgood₂, fun name => ?_, hrest⟩
        rw [hindex₂, hindex, or_assoc, List.mem_cons]
      · refine Or.inr ⟨Or.inr ⟨name, hname, ((hindex name).1 hsome).resolve_right ?_⟩, err, hclash, hrest⟩
        rintro rfl
        exact hnodup.1 hname
    · rw [hstep]
      exact Or.inr ⟨Or.inl hold, err, hclash, rfl⟩

/-- Every unit was scanned. -/
theorem exists_scan {tree : Path → Entries} (hscans : buildOwnModuleIndexes catalog tree = .ok scans)
    {name : String} {unit : CatalogUnit} (hunit : catalog.units[name]? = some unit) :
    ∃ scan, scans[name]? = some scan := by
  obtain ⟨scan, hscan⟩ := Table.ok_of_mapEntries hscans hunit
  exact ⟨scan, (Table.get_mapEntries hscans).2 ⟨unit, hunit, hscan⟩⟩

/-- A refused library is an error, whatever the unit sees already. -/
theorem addDependency_refused (h : catalog.WellNamed)
    (hscans : ∀ (name : String) (unit : CatalogUnit), catalog.units[name]? = some unit →
      ∃ scan, scans[name]? = some scan) {dep : String} (hrefused : Refused catalog unitName dep)
    (visibles : Visibles) :
    ∃ err, Refusal unitName dep err ∧ addDependency catalog scans unitName visibles dep = .error err := by
  rw [addDependency]
  cases hname : catalog.libraryUnits[dep]? with
  | none =>
    cases catalog.deniedExternalLibraries[dep]? with
    | some sourceId => exact ⟨_, .denied sourceId, rfl⟩
    | none => exact ⟨_, .unknown, rfl⟩
  | some libraryName =>
    obtain ⟨library, hlibrary, _⟩ := (h.libraries dep libraryName).1 hname
    obtain ⟨scan, hscan⟩ := hscans libraryName library hlibrary
    refine ⟨_, .notAdmitted, ?_⟩
    simp only [hlibrary, hscan]
    rw [validateLibraryVisibility, Checks.bailIf, if_pos ((refused_iff hname hlibrary).1 hrefused)]
    rfl

/-- The modules of a library that admits the unit are added. -/
theorem addDependency_admitted
    (hscans : ∀ (name : String) (unit : CatalogUnit), catalog.units[name]? = some unit →
      ∃ scan, scans[name]? = some scan) {dep : String} (hadmitted : ¬ Refused catalog unitName dep) :
    ∃ (libraryName : String) (scan : OwnModuleScan),
      publicNames catalog scans dep = scan.publicModules.toList.map Prod.fst ∧
      ∀ visibles, addDependency catalog scans unitName visibles dep =
        scan.publicModules.toList.foldlM (fun visibles entry =>
          addPublicModule unitName libraryName visibles entry.1 entry.2) visibles := by
  obtain ⟨libraryName, library, hname, hlibrary, hadmits⟩ : ∃ (libraryName : String) (library : CatalogUnit),
      catalog.libraryUnits[dep]? = some libraryName ∧ catalog.units[libraryName]? = some library ∧
        library.manifest.visibility.Admits unitName := by
    by_contra hnone
    exact hadmitted fun libraryName library hname hlibrary hadmits =>
      hnone ⟨libraryName, library, hname, hlibrary, hadmits⟩
  obtain ⟨scan, hscan⟩ := hscans libraryName library hlibrary
  refine ⟨libraryName, scan, ?_, fun visibles => ?_⟩
  · rw [publicNames, hname, Option.bind_some, hscan, Std.ExtTreeMap.map_fst_toList_eq_keys]
  · simp only [addDependency, hname, hlibrary, hscan]
    rw [validateLibraryVisibility, Checks.bailIf, if_neg (not_not.2 hadmits)]
    rfl

variable (unitName) in
/-- **What comes of one library that a unit lists**: it is refused by the name in the catalog, its modules
are added, or one of them is there already. -/
theorem addDependency_cases (dep : String) (h : catalog.WellNamed)
    (hscans : ∀ (name : String) (unit : CatalogUnit), catalog.units[name]? = some unit →
      ∃ scan, scans[name]? = some scan) {visibles : Visibles} (hgood : visibles.Good) :
    (Refused catalog unitName dep ∧ ∃ err, Refusal unitName dep err ∧
      addDependency catalog scans unitName visibles dep = .error err) ∨
    (¬ Refused catalog unitName dep ∧
      (∀ name ∈ publicNames catalog scans dep, name ∉ visibles.moduleIndex) ∧ ∃ visibles', visibles'.Good ∧
      (∀ name, name ∈ visibles'.moduleIndex ↔
        name ∈ visibles.moduleIndex ∨ name ∈ publicNames catalog scans dep) ∧
      addDependency catalog scans unitName visibles dep = .ok visibles') ∨
    (¬ Refused catalog unitName dep ∧
      (∃ name ∈ publicNames catalog scans dep, name ∈ visibles.moduleIndex) ∧ ∃ err, Clash unitName err ∧
      addDependency catalog scans unitName visibles dep = .error err) := by
  by_cases hrefused : Refused catalog unitName dep
  · exact Or.inl ⟨hrefused, addDependency_refused h hscans hrefused visibles⟩
  · obtain ⟨libraryName, scan, hpublic, hstep⟩ := addDependency_admitted hscans hrefused
    rw [hpublic, hstep]
    rcases addPublicModules_cases unitName libraryName
      (Table.keys_nodup scan.publicModules) hgood with hadded | hclash
    · exact Or.inr (Or.inl ⟨hrefused, hadded⟩)
    · exact Or.inr (Or.inr ⟨hrefused, hclash⟩)

variable (h : catalog.WellNamed)
  (hscans : ∀ (name : String) (unit : CatalogUnit), catalog.units[name]? = some unit →
    ∃ scan, scans[name]? = some scan)

include h hscans

/-- The libraries that a unit lists are all added if they are clear. -/
theorem addDependencies_isOk {deps : List String} {visibles : Visibles} (hgood : visibles.Good)
    {seen : List String} (hseen : ∀ name, name ∈ visibles.moduleIndex ↔ name ∈ seen) :
    (∃ visibles', deps.foldlM (addDependency catalog scans unitName) visibles = .ok visibles') ↔
      (∀ dep ∈ deps, ¬ Refused catalog unitName dep) ∧
        (seen :: deps.map (publicNames catalog scans)).Pairwise List.Disjoint := by
  induction deps generalizing visibles seen with
  | nil => exact ⟨fun _ => ⟨by simp, by simp⟩, fun _ => ⟨visibles, rfl⟩⟩
  | cons dep deps ih =>
    rw [List.foldlM_cons, List.forall_mem_cons, List.map_cons, List.pairwise_cons, List.forall_mem_cons]
    have hdisjoint : List.Disjoint seen (publicNames catalog scans dep) ↔
        ∀ name ∈ publicNames catalog scans dep, name ∉ visibles.moduleIndex := by
      rw [List.disjoint_comm]
      exact forall_congr' fun name => imp_congr_right fun _ => (not_congr (hseen name)).symm
    rw [hdisjoint]
    rcases addDependency_cases unitName dep h hscans hgood with
      ⟨hrefused, err, _, hstep⟩ | ⟨hadmitted, hnew, visibles₁, hgood₁, hindex, hstep⟩ |
      ⟨hadmitted, ⟨name, hname, hold⟩, err, _, hstep⟩
    · rw [hstep]
      refine ⟨fun ⟨_, hok⟩ => ?_, fun hclear => absurd hrefused hclear.1.1⟩
      cases hok
    · rw [hstep]
      have hseen₁ : ∀ name, name ∈ visibles₁.moduleIndex ↔
          name ∈ seen ++ publicNames catalog scans dep :=
        fun name => by rw [hindex, hseen, List.mem_append]
      refine (ih hgood₁ hseen₁).trans ?_
      rw [List.pairwise_cons, List.pairwise_cons]
      simp only [List.disjoint_append_left]
      constructor
      · rintro ⟨hnone, hrest, hpairs⟩
        exact ⟨⟨hadmitted, hnone⟩, ⟨hnew, fun l hl => (hrest l hl).1⟩, fun l hl => (hrest l hl).2, hpairs⟩
      · rintro ⟨⟨_, hnone⟩, ⟨_, hseenRest⟩, hpublicRest, hpairs⟩
        exact ⟨hnone, fun l hl => ⟨hseenRest l hl, hpublicRest l hl⟩, hpairs⟩
    · rw [hstep]
      refine ⟨fun ⟨_, hok⟩ => ?_, fun hclear => absurd hold (hclear.2.1.1 name hname)⟩
      cases hok

omit h hscans in
/-- The own modules of a unit do not clash. -/
theorem own_isOk {scan : OwnModuleScan} (hscan : scans[unitName]? = some scan) :
    ∃ own : ModuleIndex, Table.fillNew (ambiguousModule ("unit `" ++ unitName ++ "`"))
        (fun entry : String × Path => .ok (entry.1, ModuleEntry.new unitName entry.2 .owner)) ∅
        scan.ownModules.toList = .ok own ∧ ∀ name, name ∈ own ↔ name ∈ ownNames scans unitName := by
  obtain ⟨own, hown⟩ : ∃ own : ModuleIndex,
      Table.fillNew (ambiguousModule ("unit `" ++ unitName ++ "`"))
        (fun entry : String × Path => .ok (entry.1, ModuleEntry.new unitName entry.2 .owner)) ∅
        scan.ownModules.toList = .ok own :=
    Table.exists_fillNew (Table.keys_nodup scan.ownModules) (by simp)
  refine ⟨own, hown, fun name => ?_⟩
  rw [ownNames, hscan, Std.ExtTreeMap.mem_iff_isSome_getElem?, Option.isSome_iff_exists]
  simp only [Table.get_fillNew hown, Std.ExtTreeMap.mem_keys]
  constructor
  · rintro ⟨entry, hempty | ⟨⟨logical, path⟩, hmem, heq⟩⟩
    · simp at hempty
    · obtain ⟨rfl, rfl⟩ := Prod.mk.inj (Except.ok.inj heq)
      exact Std.ExtTreeMap.mem_iff_isSome_getElem?.2
        (Option.isSome_of_eq_some (Std.ExtTreeMap.mem_toList_iff_getElem?_eq_some.1 hmem))
  · intro hname
    obtain ⟨path, hpath⟩ := Option.isSome_iff_exists.1 (Std.ExtTreeMap.mem_iff_isSome_getElem?.1 hname)
    exact ⟨_, Or.inr ⟨(name, path), Std.ExtTreeMap.mem_toList_iff_getElem?_eq_some.2 hpath, rfl⟩⟩

theorem good_of_addDependencies {deps : List String} {visibles visibles' : Visibles}
    (hgood : visibles.Good)
    (hdeps : deps.foldlM (addDependency catalog scans unitName) visibles = .ok visibles') :
    visibles'.Good := by
  refine Checks.foldlM_induction (P := Visibles.Good) (fun visibles dep _ hgood visibles' hstep => ?_)
    hgood hdeps
  rcases addDependency_cases unitName dep h hscans hgood with
    ⟨_, err, _, herr⟩ | ⟨_, _, visibles₁, hgood₁, _, hok⟩ | ⟨_, _, err, _, herr⟩
  · cases hstep.symm.trans herr
  · obtain rfl := Except.ok.inj (hstep.symm.trans hok)
    exact hgood₁
  · cases hstep.symm.trans herr

/-- **An index is built** if and only if the libraries of the unit are clear. -/
theorem buildVisibleModuleIndex_isOk {unit : CatalogUnit} {scan : OwnModuleScan}
    (hscan : scans[unitName]? = some scan) :
    (∃ index, buildVisibleModuleIndex catalog scans unitName unit scan = .ok index) ↔
      Clear catalog scans unitName unit.manifest.libDeps := by
  obtain ⟨own, hown, hnames⟩ := own_isOk hscan
  have hgood : Visibles.Good ⟨own, ∅⟩ := fun name hname => by simp at hname
  rw [Clear, ← addDependencies_isOk h hscans hgood hnames]
  constructor
  · rintro ⟨index, hindex⟩
    obtain ⟨own', hown', hindex⟩ := bind_eq_ok.1 hindex
    obtain rfl := Except.ok.inj (hown.symm.trans hown')
    obtain ⟨visibles, hvisibles, _⟩ := bind_eq_ok.1 hindex
    exact ⟨visibles, hvisibles⟩
  · rintro ⟨visibles, hvisibles⟩
    exact ⟨visibles.moduleIndex, bind_eq_ok.2 ⟨own, hown, bind_eq_ok.2 ⟨visibles, hvisibles, rfl⟩⟩⟩

/-- **An index is refused** if a library of the unit is, and those before it are clear. -/
theorem refused_of_buildVisibleModuleIndex {unit : CatalogUnit} {scan : OwnModuleScan}
    (hscan : scans[unitName]? = some scan) {err : String}
    (hbuild : buildVisibleModuleIndex catalog scans unitName unit scan = .error err)
    (hrefusal : ¬ Clash unitName err) :
    ∃ deps dep deps', unit.manifest.libDeps = deps ++ dep :: deps' ∧ Refused catalog unitName dep ∧
      Clear catalog scans unitName deps := by
  obtain ⟨own, hown, hnames⟩ := own_isOk hscan
  have hgood : Visibles.Good ⟨own, ∅⟩ := fun name hname => by simp at hname
  rcases bind_eq_error.1 hbuild with hbuild | ⟨own', hown', hbuild⟩
  · cases hown.symm.trans hbuild
  obtain rfl := Except.ok.inj (hown.symm.trans hown')
  rcases bind_eq_error.1 hbuild with hbuild | ⟨_, _, hbuild⟩
  · obtain ⟨deps, dep, deps', visibles, heq, hdeps, hdep⟩ := Checks.foldlM_eq_error.1 hbuild
    have hclear := (addDependencies_isOk h hscans hgood hnames).1 ⟨visibles, hdeps⟩
    refine ⟨deps, dep, deps', heq, ?_, hclear⟩
    rcases addDependency_cases unitName dep h hscans
      (good_of_addDependencies h hscans hgood hdeps) with ⟨hrefused, _⟩ | ⟨_, _, _, _, _, hok⟩ |
        ⟨_, _, err', hclash, herr⟩
    · exact hrefused
    · cases hdep.symm.trans hok
    · obtain rfl := Except.error.inj (hdep.symm.trans herr)
      exact absurd hclash hrefusal
  · cases hbuild

/-- **A refused library is what an index fails for**, if those before it are clear. -/
theorem buildVisibleModuleIndex_refuses {unit : CatalogUnit} {scan : OwnModuleScan}
    (hscan : scans[unitName]? = some scan) {deps deps' : List String} {dep : String}
    (heq : unit.manifest.libDeps = deps ++ dep :: deps') (hrefused : Refused catalog unitName dep)
    (hclear : Clear catalog scans unitName deps) :
    ∃ err, buildVisibleModuleIndex catalog scans unitName unit scan = .error err ∧
      Refusal unitName dep err := by
  obtain ⟨own, hown, hnames⟩ := own_isOk hscan
  have hgood : Visibles.Good ⟨own, ∅⟩ := fun name hname => by simp at hname
  obtain ⟨visibles, hdeps⟩ := (addDependencies_isOk h hscans hgood hnames).2 hclear
  rcases addDependency_cases unitName dep h hscans
    (good_of_addDependencies h hscans hgood hdeps) with ⟨_, err, hrefusal, herr⟩ | ⟨hadmitted, _⟩ |
      ⟨hadmitted, _⟩
  · refine ⟨err, bind_eq_error.2 (Or.inr ⟨own, hown, bind_eq_error.2 (Or.inl ?_)⟩), hrefusal⟩
    rw [heq]
    exact Checks.foldlM_eq_error.2 ⟨deps, dep, deps', visibles, rfl, hdeps, herr⟩
  · exact absurd hrefused hadmitted
  · exact absurd hrefused hadmitted

end Build

/-- Names of units have no quotes in them. -/
theorem UnitName.quote_notMem {name : String} (h : UnitName name) : '`' ∉ name.toList := by
  have hsegment : ∀ {value : String}, IsSegment value → '`' ∉ value.toList :=
    fun hvalue hquote => absurd (hvalue.2 _ hquote) (by decide)
  cases h with
  | internal h => exact hsegment h
  | external hsource hlibrary =>
    rw [externalProviderUnitId]
    simp only [String.toList_append, List.mem_append, not_or]
    exact ⟨⟨⟨by decide +kernel, hsegment hsource⟩, by decide +kernel⟩, hsegment hlibrary⟩

section Agreement

variable {catalog : UnitCatalog} {tree : Path → Entries} {scans : Table String OwnModuleScan}

/-- The index that the build makes of a unit of the catalog. -/
def builtIndex (catalog : UnitCatalog) (scans : Table String OwnModuleScan) (entry : String × CatalogUnit) :
    Except String ModuleIndex :=
  match scans[entry.1]? with
  | none => .error "panicked"
  | some scan => buildVisibleModuleIndex catalog scans entry.1 entry.2 scan

/-- **The build refuses a library** if and only if it comes to a refused one first. -/
theorem buildRefuses_iff (h : catalog.WellNamed) (hnamed : catalog.Named)
    (hscans : buildOwnModuleIndexes catalog tree = .ok scans) :
    BuildRefuses catalog scans ↔ RefusedFirst catalog scans := by
  have hscanned : ∀ (name : String) (unit : CatalogUnit), catalog.units[name]? = some unit →
      ∃ scan, scans[name]? = some scan := fun _ _ => exists_scan hscans
  have hget : ∀ {entry : String × CatalogUnit}, entry ∈ catalog.units.toList →
      catalog.units[entry.1]? = some entry.2 := Std.ExtTreeMap.mem_toList_iff_getElem?_eq_some.1
  -- the indexes of the units before the one that fails
  have hbefore : ∀ entry ∈ catalog.units.toList, (∃ index, builtIndex catalog scans entry = .ok index) ↔
      Clear catalog scans entry.1 entry.2.manifest.libDeps := by
    intro entry hentry
    obtain ⟨scan, hscan⟩ := hscanned _ _ (hget hentry)
    rw [builtIndex, hscan]
    exact buildVisibleModuleIndex_isOk h hscanned hscan
  constructor
  · rintro ⟨err, hbuild, name, dep, ⟨unit', hunit', _⟩, hrefusal⟩
    obtain ⟨before, unitName, unit, after, hlist, hok, hfail⟩ := Table.mapEntries_eq_error.1 hbuild
    have hmem : (unitName, unit) ∈ catalog.units.toList := hlist ▸ List.mem_append_right _ List.mem_cons_self
    obtain ⟨scan, hscan⟩ := hscanned _ _ (hget hmem)
    simp only [hscan] at hfail
    have hclash : ¬ Clash unitName err := fun hclash =>
      hclash.not_refusal (hnamed _ _ (hget hmem)).quote_notMem (hnamed _ _ hunit').quote_notMem hrefusal
    obtain ⟨deps, dep, deps', heq, hrefused, hclear⟩ :=
      refused_of_buildVisibleModuleIndex h hscanned hscan hfail hclash
    exact ⟨before, unitName, unit, after, deps, dep, deps', hlist, heq, hrefused, hclear,
      fun entry hentry => (hbefore entry (hlist ▸ List.mem_append_left _ hentry)).1 (hok entry hentry)⟩
  · rintro ⟨before, unitName, unit, after, deps, dep, deps', hlist, heq, hrefused, hclear, hall⟩
    have hmem : (unitName, unit) ∈ catalog.units.toList := hlist ▸ List.mem_append_right _ List.mem_cons_self
    obtain ⟨scan, hscan⟩ := hscanned _ _ (hget hmem)
    obtain ⟨err, herr, hrefusal⟩ := buildVisibleModuleIndex_refuses h hscanned hscan heq hrefused hclear
    refine ⟨err, Table.mapEntries_eq_error.2 ⟨before, unitName, unit, after, hlist, ?_, ?_⟩, unitName, dep,
      ⟨unit, hget hmem, heq ▸ List.mem_append_right _ List.mem_cons_self⟩, hrefusal⟩
    · exact fun entry hentry => (hbefore entry (hlist ▸ List.mem_append_left _ hentry)).2 (hall entry hentry)
    · simp only [hscan]
      exact herr

/-- **The build refuses by the name in the catalog**, whatever the unit sees already. -/
theorem addDependency_refuses (h : catalog.WellNamed) (hnamed : catalog.Named)
    (hscans : buildOwnModuleIndexes catalog tree = .ok scans) {unitName dep : String} {unit : CatalogUnit}
    (hunit : catalog.units[unitName]? = some unit) (visibles : Visibles) :
    (∃ err, addDependency catalog scans unitName visibles dep = .error err ∧ Refusal unitName dep err) ↔
      Refused catalog unitName dep := by
  have hquote := (hnamed unitName unit hunit).quote_notMem
  have hscanned : ∀ (name : String) (unit : CatalogUnit), catalog.units[name]? = some unit →
      ∃ scan, scans[name]? = some scan := fun _ _ => exists_scan hscans
  constructor
  · rintro ⟨err, herr, hrefusal⟩
    by_contra hadmitted
    obtain ⟨libraryName, scan, _, hstep⟩ := addDependency_admitted hscanned hadmitted
    obtain ⟨_, entry, _, _, _, _, hentry⟩ := Checks.foldlM_eq_error.1 ((hstep visibles).symm.trans herr)
    exact (clash_of_addPublicModule hentry).not_refusal hquote hquote hrefusal
  · intro hrefused
    obtain ⟨err, hrefusal, herr⟩ := addDependency_refused h hscanned hrefused visibles
    exact ⟨err, herr, hrefusal⟩

/-- The two judge a library alike if it does not tell the two names of the unit apart. -/
theorem namedAlike_iff :
    NamedAlike catalog ↔ ∀ (unitName : String) (unit : CatalogUnit), catalog.units[unitName]? = some unit →
      ∀ dep ∈ unit.manifest.libDeps,
        (Refused catalog unit.manifest.name dep ↔ Refused catalog unitName dep) := by
  refine forall₃_congr fun unitName unit hunit => forall₂_congr fun dep hdep => ?_
  constructor
  · intro halike
    exact forall₂_congr fun libraryName library => forall₂_congr fun hname hlibrary =>
      not_congr (halike libraryName library hname hlibrary)
  · intro halike libraryName library hname hlibrary
    rw [refused_iff hname hlibrary, refused_iff hname hlibrary] at halike
    exact not_iff_not.1 halike

/-- **The check agrees with the build** if and only if no library tells the two names of a unit apart, and
the build comes to a refused library first if there is one. -/
theorem agrees_iff (h : catalog.WellNamed) (hnamed : catalog.Named)
    (hscans : buildOwnModuleIndexes catalog tree = .ok scans) :
    Agrees catalog scans ↔ NamedAlike catalog ∧
      (∀ unitName dep, Declares catalog unitName dep → Refused catalog unitName dep →
        RefusedFirst catalog scans) := by
  rw [namedAlike_iff]
  constructor
  · rintro ⟨hverdict, hpair⟩
    have halike : ∀ (unitName : String) (unit : CatalogUnit), catalog.units[unitName]? = some unit →
        ∀ dep ∈ unit.manifest.libDeps,
          (Refused catalog unit.manifest.name dep ↔ Refused catalog unitName dep) := by
      intro unitName unit hunit dep hdep
      rw [← declaredLibFailure_isSome h, ← addDependency_refuses h hnamed hscans hunit ⟨∅, ∅⟩]
      exact hpair unitName unit hunit dep hdep ⟨∅, ∅⟩
    refine ⟨halike, fun unitName dep ⟨unit, hunit, hdep⟩ hrefused => ?_⟩
    rw [← buildRefuses_iff h hnamed hscans]
    by_contra hnone
    exact (validateDeclaredLibs_eq h).1 (hverdict.2 hnone [] []) unitName unit hunit dep hdep
      ((halike unitName unit hunit dep hdep).2 hrefused)
  · rintro ⟨halike, hfirst⟩
    refine ⟨?_, fun unitName unit hunit dep hdep visibles => ?_⟩
    · rw [buildRefuses_iff h hnamed hscans]
      constructor
      · rintro hnone ⟨_, unitName, unit, _, deps, dep, _, hlist, heq, hrefused, _⟩
        have hunit : catalog.units[unitName]? = some unit := Std.ExtTreeMap.mem_toList_iff_getElem?_eq_some.1
          (hlist ▸ List.mem_append_right _ List.mem_cons_self)
        have hdep : dep ∈ unit.manifest.libDeps := heq ▸ List.mem_append_right _ List.mem_cons_self
        exact (validateDeclaredLibs_eq h).1 (hnone [] []) unitName unit hunit dep hdep
          ((halike unitName unit hunit dep hdep).2 hrefused)
      · intro hnone failures warnings
        refine (validateDeclaredLibs_eq h).2 fun unitName unit hunit dep hdep hrefused => hnone ?_
        exact hfirst unitName dep ⟨unit, hunit, hdep⟩ ((halike unitName unit hunit dep hdep).1 hrefused)
    · rw [declaredLibFailure_isSome h, addDependency_refuses h hnamed hscans hunit]
      exact halike unitName unit hunit dep hdep

end Agreement

namespace Sample

/-- A library of a source that lists another one. -/
def forgeKit : CatalogUnit where
  catalogName := "external:forge:kit"
  unitRoot := ["store", "kit"]
  codeRoot := ["store", "kit"]
  manifest := { kind := .library, name := "kit", codeRoot := ".", libDeps := ["codec"] }

/-- A library of the source that admits `kit`. -/
def forgeCodec : CatalogUnit where
  catalogName := "external:forge:codec"
  unitRoot := ["store", "codec"]
  codeRoot := ["store", "codec"]
  manifest := { kind := .library, name := "codec", codeRoot := ".", visibility := .allow ["kit"] }

def forgeUnits : Units where
  units := [("external:forge:kit", forgeKit), ("external:forge:codec", forgeCodec)]
  libraryUnits := [("kit", "external:forge:kit"), ("codec", "external:forge:codec")]

def forgeCatalog : UnitCatalog where
  units := Std.ExtTreeMap.ofList forgeUnits.units
  libraryUnits := Std.ExtTreeMap.ofList forgeUnits.libraryUnits
  deniedExternalLibraries := ∅

theorem wellNamed_forgeUnits : forgeUnits.WellNamed :=
  (Units.wellNamed_nil.addLibrary forgeKit (by simp) rfl (by decide +kernel) (by simp)).addLibrary
    forgeCodec (by decide +kernel) rfl (by decide +kernel) (by decide +kernel)

theorem get_forgeCatalog {name : String} {unit : CatalogUnit} :
    forgeCatalog.units[name]? = some unit ↔ (name, unit) ∈ forgeUnits.units :=
  Table.get_ofList wellNamed_forgeUnits.nodup

theorem named_forgeCatalog : forgeCatalog.Named := by
  intro name unit hunit
  have hmem := get_forgeCatalog.1 hunit
  simp only [forgeUnits, List.mem_cons, Prod.mk.injEq, List.not_mem_nil, or_false] at hmem
  rcases hmem with ⟨rfl, _⟩ | ⟨rfl, _⟩
  · exact @UnitName.external "forge" "kit" (by decide +kernel) (by decide +kernel)
  · exact @UnitName.external "forge" "codec" (by decide +kernel) (by decide +kernel)

/-- There are no modules. -/
theorem exists_scans_forge : ∃ scans, buildOwnModuleIndexes forgeCatalog (fun _ => .nil) = .ok scans := by
  refine Table.mapEntries_isOk.2 fun ⟨name, unit⟩ hentry => ?_
  have hmem := get_forgeCatalog.1 (Std.ExtTreeMap.mem_toList_iff_getElem?_eq_some.1 hentry)
  simp only [forgeUnits, List.mem_cons, Prod.mk.injEq, List.not_mem_nil, or_false] at hmem
  rcases hmem with ⟨rfl, rfl⟩ | ⟨rfl, rfl⟩
  · exact ⟨_, rfl⟩
  · exact ⟨_, rfl⟩

end Sample

/-- `kit` may list `codec` for the check, and may not for the build. -/
theorem external_unit_refused : ∃ scans,
    buildOwnModuleIndexes Sample.forgeCatalog (fun _ => .nil) = .ok scans ∧
      ¬ Agrees Sample.forgeCatalog scans := by
  obtain ⟨scans, hscans⟩ := Sample.exists_scans_forge
  have hwell : Sample.forgeCatalog.WellNamed := Sample.wellNamed_forgeUnits.catalog ∅
  refine ⟨scans, hscans, fun hagrees => ?_⟩
  have hkit : Sample.forgeCatalog.units["external:forge:kit"]? = some Sample.forgeKit :=
    Sample.get_forgeCatalog.2 List.mem_cons_self
  have hcodec : Sample.forgeCatalog.units["external:forge:codec"]? = some Sample.forgeCodec :=
    Sample.get_forgeCatalog.2 (List.mem_cons_of_mem _ List.mem_cons_self)
  have hname : Sample.forgeCatalog.libraryUnits["codec"]? = some "external:forge:codec" :=
    (Table.get_ofList Sample.wellNamed_forgeUnits.librariesNodup).2
      (List.mem_cons_of_mem _ List.mem_cons_self)
  have hpair := hagrees.pair _ _ hkit "codec" (List.mem_singleton_self _) ⟨∅, ∅⟩
  rw [declaredLibFailure_isSome hwell, addDependency_refuses hwell Sample.named_forgeCatalog hscans hkit,
    refused_iff hname hcodec, refused_iff hname hcodec] at hpair
  exact absurd hpair (by decide +kernel)

theorem agrees_iff_sample : ∃ scans,
    buildOwnModuleIndexes Sample.forgeCatalog (fun _ => .nil) = .ok scans ∧
      (Agrees Sample.forgeCatalog scans ↔ NamedAlike Sample.forgeCatalog ∧
        ∀ unitName dep, Declares Sample.forgeCatalog unitName dep →
          Refused Sample.forgeCatalog unitName dep → RefusedFirst Sample.forgeCatalog scans) := by
  obtain ⟨scans, hscans⟩ := Sample.exists_scans_forge
  exact ⟨scans, hscans, agrees_iff (Sample.wellNamed_forgeUnits.catalog ∅) Sample.named_forgeCatalog hscans⟩

end Fkst.Manifest
