import Fkst.Manifest.Catalog

/-!
# Discovery of units

`from_workspace_inner` of `manifest.rs` collects the units of a workspace and the libraries of its
external sources.  Units of the workspace are named by their manifests, those of sources by the source
and the library (`UnitName`), and every library has one unit (`WellNamed`).
-/

set_option autoImplicit false

namespace Fkst.Manifest

open Lib
open Lib.Checks (bind_eq_ok bailIf bailIf_eq_ok)
open Graph (IsSegment validateNameSegment isSegment_of_validate)

/-! ## Names of units -/

/-- `validate_manifest_name`. -/
def validateManifestName (value : String) : Except String Unit :=
  validateNameSegment "manifest name" value

section Workspace

variable (fs : Fs) (toml : Toml)

/-- The name of a unit that is a library, among those of the libraries. -/
def addLibraryName (libraryUnits : List (String × String)) (manifest : UnitManifest) :
    Except String (List (String × String)) :=
  if manifest.kind ≠ .library then .ok libraryUnits
  else do
    validateManifestName manifest.libraryName
    match libraryUnits.lookup manifest.libraryName with
    | some existing => throw ("duplicate library name `" ++ manifest.libraryName ++ "` in units `" ++
        existing ++ "` and `" ++ manifest.name ++ "`")
    | none => return libraryUnits ++ [(manifest.libraryName, manifest.name)]

/-- One unit of the workspace. -/
def addUnit (workspaceRoot : Path) (units : Units) (unitRoot : Path) : Except String Units := do
  ensureCatalogPathUnderWorkspace workspaceRoot unitRoot "unit root"
  let manifest ← parseUnit fs toml unitRoot
  validateManifestName manifest.name
  bailIf (manifest.name ∈ units.units.map Prod.fst) ("duplicate unit name `" ++ manifest.name ++ "`")
  let codeRoot ← canonicalUnitCodeRoot fs unitRoot manifest
  ensureCatalogPathUnderWorkspace workspaceRoot codeRoot "code root"
  let libraryUnits ← addLibraryName units.libraryUnits manifest
  let unit : CatalogUnit := ⟨manifest.name, unitRoot, codeRoot, manifest⟩
  return ⟨units.units ++ [(manifest.name, unit)], libraryUnits⟩

/-- The units of the workspace itself, without those below roots that are left out. -/
def collectUnits (workspaceRoot : Path) (discovered : List String) (excludedRoots : List Path) :
    Except String Units := do
  let unitRoots ← discoverUnitRoots fs workspaceRoot discovered
  let included := unitRoots.filter fun unitRoot =>
    !excludedRoots.any fun excluded => excluded ≠ workspaceRoot ∧ excluded.isPrefixOf unitRoot
  included.foldlM (addUnit fs toml workspaceRoot) {}

/-- `fetch_locked_sources`. -/
def fetchLockedSources (storeRoot : ExternalSourceResolved → Except String Path)
    (sources : List ExternalSourceDecl) (lockfile : Lockfile) :
    Except String (List ExternalSourceCheckout) :=
  sources.mapM fun source => lockedSourceCheckout fs toml storeRoot source lockfile

/-- `denied_external_libraries`. -/
def deniedExternalLibraries (checkouts : List ExternalSourceCheckout)
    (libraryUnits : Table String String) : Table String String :=
  (checkouts.flatMap fun checkout => (checkout.availableLibraries.filter fun library =>
    libraryUnits[library]?.isNone).map fun library => (library, checkout.sourceId)).foldl
      (fun denied entry => denied.insert entry.1 entry.2) ∅

/-- `from_workspace_inner` up to the indexes, for sources without local roots. -/
def fromWorkspaceInner (storeRoot : ExternalSourceResolved → Except String Path) (workspaceRoot : Path)
    (discovered : List String) (sources : List ExternalSourceDecl) (lockfile : Lockfile)
    (excludedRoots : List Path) : Except String UnitCatalog := do
  let units ← collectUnits fs toml workspaceRoot discovered excludedRoots
  let checkouts ← fetchLockedSources fs toml storeRoot
    (sources.filter fun source => !source.libraries.isEmpty) lockfile
  let units ← addExternalUnits fs toml units checkouts
  let libraryUnits := Std.ExtTreeMap.ofList units.libraryUnits
  return ⟨Std.ExtTreeMap.ofList units.units, libraryUnits,
    deniedExternalLibraries checkouts libraryUnits⟩

end Workspace

/-- A name of a unit that the validators admit. -/
inductive UnitName : String → Prop where
  | internal {name : String} (h : IsSegment name) : UnitName name
  | external {source library : String} (hsource : IsSegment source) (hlibrary : IsSegment library) :
    UnitName (externalProviderUnitId source library)

/-- All names of units are such. -/
def UnitCatalog.Named (catalog : UnitCatalog) : Prop :=
  ∀ name unit, catalog.units[name]? = some unit → UnitName name

/-- The names in a checkout are admitted. -/
def ExternalSourceCheckout.Admitted (checkout : ExternalSourceCheckout) : Prop :=
  IsSegment checkout.sourceId ∧ ∀ library ∈ checkout.libraries, IsSegment library.name

section Named

variable {fs : Fs} {toml : Toml}

theorem unitName_of_addUnit {workspaceRoot unitRoot : Path} {units units' : Units}
    (h : addUnit fs toml workspaceRoot units unitRoot = .ok units')
    (hnamed : ∀ entry ∈ units.units, UnitName entry.1) : ∀ entry ∈ units'.units, UnitName entry.1 := by
  obtain ⟨_, _, h⟩ := bind_eq_ok.1 h
  obtain ⟨manifest, _, h⟩ := bind_eq_ok.1 h
  obtain ⟨_, hname, h⟩ := bind_eq_ok.1 h
  obtain ⟨_, _, h⟩ := bind_eq_ok.1 h
  obtain ⟨codeRoot, _, h⟩ := bind_eq_ok.1 h
  obtain ⟨_, _, h⟩ := bind_eq_ok.1 h
  obtain ⟨libraryUnits, _, h⟩ := bind_eq_ok.1 h
  obtain rfl := Except.ok.inj h
  intro entry hentry
  rcases List.mem_append.1 hentry with hentry | hentry
  · exact hnamed entry hentry
  · rw [List.mem_singleton.1 hentry]
    exact .internal (isSegment_of_validate hname)

theorem unitName_of_addLibrary {checkout : ExternalSourceCheckout}
    {unitRoots : List (Path × UnitManifest)} {units units' : Units} {library : ExternalLibraryCheckout}
    (h : addLibrary fs checkout unitRoots units library = .ok units')
    (hsource : IsSegment checkout.sourceId) (hlibrary : IsSegment library.name)
    (hnamed : ∀ entry ∈ units.units, UnitName entry.1) : ∀ entry ∈ units'.units, UnitName entry.1 := by
  rw [addLibrary] at h
  split at h
  · cases h
  · split at h
    · cases h
    · split at h
      · obtain rfl := Except.ok.inj h
        exact hnamed
      · obtain ⟨codeRoot, _, h⟩ := bind_eq_ok.1 h
        obtain ⟨_, _, h⟩ := bind_eq_ok.1 h
        obtain ⟨_, _, h⟩ := bind_eq_ok.1 h
        obtain ⟨_, _, h⟩ := bind_eq_ok.1 h
        split at h
        · cases h
        · obtain rfl := Except.ok.inj h
          intro entry hentry
          rcases List.mem_append.1 hentry with hentry | hentry
          · exact hnamed entry hentry
          · rw [List.mem_singleton.1 hentry]
            exact .external hsource hlibrary

/-- The checkout of a source has admitted names. -/
theorem admitted_of_lockedSourceCheckout {storeRoot : ExternalSourceResolved → Except String Path}
    {source : ExternalSourceDecl} {lockfile : Lockfile} {checkout : ExternalSourceCheckout}
    (h : lockedSourceCheckout fs toml storeRoot source lockfile = .ok checkout) : checkout.Admitted := by
  obtain ⟨⟨⟩, hdecl, h⟩ := bind_eq_ok.1 h
  split at h
  · cases h
  · obtain ⟨_, _, h⟩ := bind_eq_ok.1 h
    obtain ⟨_, _, h⟩ := bind_eq_ok.1 h
    obtain ⟨root, _, h⟩ := bind_eq_ok.1 h
    obtain ⟨_, _, h⟩ := bind_eq_ok.1 h
    obtain ⟨_, _, h⟩ := bind_eq_ok.1 h
    obtain ⟨libraries, hlibraries, h⟩ := bind_eq_ok.1 h
    obtain ⟨_, _, h⟩ := bind_eq_ok.1 h
    obtain rfl := Except.ok.inj h
    obtain ⟨hid, hsource⟩ := isSegment_of_validateSourceDecl hdecl
    refine ⟨hid, fun library hlibrary => ?_⟩
    obtain ⟨locked, _, hlocked⟩ := (Checks.mem_of_mapM_eq_ok hlibraries).1 hlibrary
    have hlocked := lockedLibrary_eq_ok.1 hlocked
    rw [hlocked.name]
    exact hsource _ hlocked.allowed

/-- **The units of a workspace and of its sources have such names.** -/
theorem named_of_fromWorkspaceInner {storeRoot : ExternalSourceResolved → Except String Path}
    {workspaceRoot : Path} {discovered : List String} {sources : List ExternalSourceDecl}
    {lockfile : Lockfile} {excludedRoots : List Path} {catalog : UnitCatalog}
    (h : fromWorkspaceInner fs toml storeRoot workspaceRoot discovered sources lockfile excludedRoots =
      .ok catalog) : catalog.Named := by
  obtain ⟨own, hown, h⟩ := bind_eq_ok.1 h
  obtain ⟨checkouts, hcheckouts, h⟩ := bind_eq_ok.1 h
  obtain ⟨units, hunits, h⟩ := bind_eq_ok.1 h
  obtain rfl := Except.ok.inj h
  obtain ⟨unitRoots, _, hown⟩ := bind_eq_ok.1 hown
  have hown : ∀ entry ∈ own.units, UnitName entry.1 :=
    Checks.foldlM_induction (P := fun units : Units => ∀ entry ∈ units.units, UnitName entry.1)
      (fun _ _ _ hnamed _ hstep => unitName_of_addUnit hstep hnamed) (by simp) hown
  have hunits : ∀ entry ∈ units.units, UnitName entry.1 := by
    refine Checks.foldlM_induction (P := fun units : Units => ∀ entry ∈ units.units, UnitName entry.1)
      (fun units checkout hcheckout hnamed units' hstep => ?_) hown hunits
    obtain ⟨source, _, hsource⟩ := (Checks.mem_of_mapM_eq_ok hcheckouts).1 hcheckout
    obtain ⟨hid, hlibraries⟩ := admitted_of_lockedSourceCheckout hsource
    obtain ⟨unitRoots, _, hstep⟩ := bind_eq_ok.1 hstep
    exact Checks.foldlM_induction (P := fun units : Units => ∀ entry ∈ units.units, UnitName entry.1)
      (fun _ library hlibrary hnamed _ hstep =>
        unitName_of_addLibrary hstep hid (hlibraries library hlibrary) hnamed) hnamed hstep
  intro name unit hunit
  obtain ⟨entry, hentry, rfl⟩ := List.mem_map.1 (Table.mem_of_get_ofList hunit)
  exact hunits entry hentry

end Named

/-! ## Libraries -/

/-- What the collected units have in common: names are names of one unit, and a library has one unit,
whose manifest says so. -/
structure Units.WellNamed (units : Units) : Prop where
  nodup : (units.units.map Prod.fst).Nodup
  catalogName : ∀ name unit, (name, unit) ∈ units.units → unit.catalogName = name
  librariesNodup : (units.libraryUnits.map Prod.fst).Nodup
  segment : ∀ library name, (library, name) ∈ units.libraryUnits → IsSegment library
  libraries : ∀ library name, (library, name) ∈ units.libraryUnits ↔ ∃ unit,
    (name, unit) ∈ units.units ∧ unit.manifest.kind = .library ∧ unit.manifest.libraryName = library

/-- The same of a catalog. -/
structure UnitCatalog.WellNamed (catalog : UnitCatalog) : Prop where
  catalogName : ∀ (name : String) (unit : CatalogUnit), catalog.units[name]? = some unit →
    unit.catalogName = name
  segment : ∀ library name : String, catalog.libraryUnits[library]? = some name → IsSegment library
  libraries : ∀ library name : String, catalog.libraryUnits[library]? = some name ↔
    ∃ unit : CatalogUnit, catalog.units[name]? = some unit ∧ unit.manifest.kind = .library ∧
      unit.manifest.libraryName = library

section Libraries

variable {fs : Fs} {toml : Toml} {units units' : Units}

theorem Units.wellNamed_nil : Units.WellNamed {} where
  nodup := List.nodup_nil
  catalogName name unit hmem := by simp at hmem
  librariesNodup := List.nodup_nil
  segment library name hmem := by simp at hmem
  libraries library name := by simp

/-- The catalog of such units. -/
theorem Units.WellNamed.catalog (h : units.WellNamed) (denied : Table String String) :
    UnitCatalog.WellNamed
      ⟨Std.ExtTreeMap.ofList units.units, Std.ExtTreeMap.ofList units.libraryUnits, denied⟩ where
  catalogName name unit hunit := h.catalogName name unit ((Table.get_ofList h.nodup).1 hunit)
  segment library name hlibrary := h.segment library name ((Table.get_ofList h.librariesNodup).1 hlibrary)
  libraries library name := by
    rw [Table.get_ofList h.librariesNodup, h.libraries]
    exact exists_congr fun unit => and_congr_left fun _ => (Table.get_ofList h.nodup).symm

/-- A unit that is no library. -/
theorem Units.WellNamed.addPackage (h : units.WellNamed) (unit : CatalogUnit)
    (hnew : unit.catalogName ∉ units.units.map Prod.fst) (hkind : unit.manifest.kind ≠ .library) :
    Units.WellNamed ⟨units.units ++ [(unit.catalogName, unit)], units.libraryUnits⟩ where
  nodup := by
    rw [List.map_append, List.nodup_append]
    exact ⟨h.nodup, List.nodup_singleton _, fun a ha b hb => by
      rw [List.mem_singleton.1 hb]
      exact ne_of_mem_of_not_mem ha hnew⟩
  catalogName name unit' hmem := by
    rcases List.mem_append.1 hmem with hmem | hmem
    · exact h.catalogName name unit' hmem
    · obtain ⟨rfl, rfl⟩ := Prod.mk.inj (List.mem_singleton.1 hmem)
      rfl
  librariesNodup := h.librariesNodup
  segment := h.segment
  libraries library name := by
    rw [h.libraries]
    refine exists_congr fun unit' => ?_
    rw [List.mem_append, List.mem_singleton, Prod.mk.injEq]
    refine ⟨fun ⟨hmem, hlibrary⟩ => ⟨Or.inl hmem, hlibrary⟩, ?_⟩
    rintro ⟨hmem | ⟨_, rfl⟩, hlibrary⟩
    · exact ⟨hmem, hlibrary⟩
    · exact absurd hlibrary.1 hkind

/-- A library that there was not before. -/
theorem Units.WellNamed.addLibrary (h : units.WellNamed) (unit : CatalogUnit)
    (hnew : unit.catalogName ∉ units.units.map Prod.fst) (hkind : unit.manifest.kind = .library)
    (hsegment : IsSegment unit.manifest.libraryName)
    (hlibrary : unit.manifest.libraryName ∉ units.libraryUnits.map Prod.fst) :
    Units.WellNamed ⟨units.units ++ [(unit.catalogName, unit)],
      units.libraryUnits ++ [(unit.manifest.libraryName, unit.catalogName)]⟩ where
  nodup := by
    rw [List.map_append, List.nodup_append]
    exact ⟨h.nodup, List.nodup_singleton _, fun a ha b hb => by
      rw [List.mem_singleton.1 hb]
      exact ne_of_mem_of_not_mem ha hnew⟩
  catalogName name unit' hmem := by
    rcases List.mem_append.1 hmem with hmem | hmem
    · exact h.catalogName name unit' hmem
    · obtain ⟨rfl, rfl⟩ := Prod.mk.inj (List.mem_singleton.1 hmem)
      rfl
  librariesNodup := by
    rw [List.map_append, List.nodup_append]
    exact ⟨h.librariesNodup, List.nodup_singleton _, fun a ha b hb => by
      rw [List.mem_singleton.1 hb]
      exact ne_of_mem_of_not_mem ha hlibrary⟩
  segment library name hmem := by
    rcases List.mem_append.1 hmem with hmem | hmem
    · exact h.segment library name hmem
    · obtain ⟨rfl, rfl⟩ := Prod.mk.inj (List.mem_singleton.1 hmem)
      exact hsegment
  libraries library name := by
    rw [List.mem_append, h.libraries, List.mem_singleton, Prod.mk.injEq]
    constructor
    · rintro (⟨unit', hmem, hunit'⟩ | ⟨rfl, rfl⟩)
      · exact ⟨unit', List.mem_append_left _ hmem, hunit'⟩
      · exact ⟨unit, List.mem_append_right _ List.mem_cons_self, hkind, rfl⟩
    · rintro ⟨unit', hmem, hkind', rfl⟩
      rcases List.mem_append.1 hmem with hmem | hmem
      · exact Or.inl ⟨unit', hmem, hkind', rfl⟩
      · obtain ⟨rfl, rfl⟩ := Prod.mk.inj (List.mem_singleton.1 hmem)
        exact Or.inr ⟨rfl, rfl⟩

theorem notMem_of_lookup_eq_none {l : List (String × String)} {key : String} (h : l.lookup key = none) :
    key ∉ l.map Prod.fst := by
  rw [List.lookup_eq_none_iff] at h
  intro hmem
  obtain ⟨entry, hentry, rfl⟩ := List.mem_map.1 hmem
  simpa using h entry hentry

theorem wellNamed_of_addUnit {workspaceRoot unitRoot : Path}
    (h : addUnit fs toml workspaceRoot units unitRoot = .ok units') (hwell : units.WellNamed) :
    units'.WellNamed := by
  obtain ⟨_, _, h⟩ := bind_eq_ok.1 h
  obtain ⟨manifest, _, h⟩ := bind_eq_ok.1 h
  obtain ⟨_, _, h⟩ := bind_eq_ok.1 h
  obtain ⟨_, hnew, h⟩ := bind_eq_ok.1 h
  obtain ⟨codeRoot, _, h⟩ := bind_eq_ok.1 h
  obtain ⟨_, _, h⟩ := bind_eq_ok.1 h
  obtain ⟨libraryUnits, hlibraries, h⟩ := bind_eq_ok.1 h
  obtain rfl := Except.ok.inj h
  have hnew := bailIf_eq_ok.1 hnew
  rw [addLibraryName] at hlibraries
  split at hlibraries
  · rename_i hkind
    obtain rfl := Except.ok.inj hlibraries
    exact hwell.addPackage ⟨manifest.name, unitRoot, codeRoot, manifest⟩ hnew hkind
  · rename_i hkind
    obtain ⟨_, hsegment, hlibraries⟩ := bind_eq_ok.1 hlibraries
    split at hlibraries
    · cases hlibraries
    · rename_i hlookup
      obtain rfl := Except.ok.inj hlibraries
      exact hwell.addLibrary ⟨manifest.name, unitRoot, codeRoot, manifest⟩ hnew
        (not_not.1 hkind) (isSegment_of_validate hsegment) (notMem_of_lookup_eq_none hlookup)

theorem wellNamed_of_addLibrary {checkout : ExternalSourceCheckout}
    {unitRoots : List (Path × UnitManifest)} {library : ExternalLibraryCheckout}
    (h : addLibrary fs checkout unitRoots units library = .ok units') (hsegment : IsSegment library.name)
    (hwell : units.WellNamed) : units'.WellNamed := by
  rw [addLibrary] at h
  split at h
  · cases h
  · rename_i unitRoot manifest hfind
    split at h
    · cases h
    · rename_i hname
      split at h
      · obtain rfl := Except.ok.inj h
        exact hwell
      · obtain ⟨codeRoot, _, h⟩ := bind_eq_ok.1 h
        obtain ⟨_, _, h⟩ := bind_eq_ok.1 h
        obtain ⟨_, _, h⟩ := bind_eq_ok.1 h
        obtain ⟨_, hnew, h⟩ := bind_eq_ok.1 h
        split at h
        · cases h
        · rename_i hlookup
          obtain rfl := Except.ok.inj h
          have hunit := List.find?_some hfind
          rw [isUnitOf, Bool.and_eq_true, decide_eq_true_eq] at hunit
          have hname : manifest.libraryName = library.name := not_not.1 hname
          rw [← hname] at hlookup hsegment
          have hadded := hwell.addLibrary ⟨_, unitRoot, codeRoot, manifest⟩ (bailIf_eq_ok.1 hnew) hunit.1
            hsegment (notMem_of_lookup_eq_none hlookup)
          rwa [hname] at hadded

/-- **Every library of a catalog has one unit.** -/
theorem wellNamed_of_fromWorkspaceInner {storeRoot : ExternalSourceResolved → Except String Path}
    {workspaceRoot : Path} {discovered : List String} {sources : List ExternalSourceDecl}
    {lockfile : Lockfile} {excludedRoots : List Path} {catalog : UnitCatalog}
    (h : fromWorkspaceInner fs toml storeRoot workspaceRoot discovered sources lockfile excludedRoots =
      .ok catalog) : catalog.WellNamed := by
  obtain ⟨own, hown, h⟩ := bind_eq_ok.1 h
  obtain ⟨checkouts, hcheckouts, h⟩ := bind_eq_ok.1 h
  obtain ⟨units, hunits, h⟩ := bind_eq_ok.1 h
  obtain rfl := Except.ok.inj h
  obtain ⟨unitRoots, _, hown⟩ := bind_eq_ok.1 hown
  have hown : own.WellNamed :=
    Checks.foldlM_induction (fun _ _ _ hwell _ hstep => wellNamed_of_addUnit hstep hwell)
      Units.wellNamed_nil hown
  have hwell : units.WellNamed := by
    refine Checks.foldlM_induction (fun units checkout hcheckout hwell units' hstep => ?_) hown hunits
    obtain ⟨source, _, hsource⟩ := (Checks.mem_of_mapM_eq_ok hcheckouts).1 hcheckout
    obtain ⟨_, hlibraries⟩ := admitted_of_lockedSourceCheckout hsource
    obtain ⟨unitRoots, _, hstep⟩ := bind_eq_ok.1 hstep
    exact Checks.foldlM_induction (fun _ library hlibrary hwell _ hstep =>
      wellNamed_of_addLibrary hstep (hlibraries library hlibrary) hwell) hwell hstep
  exact hwell.catalog _

end Libraries

end Fkst.Manifest
