import Fkst.Manifest.Discovery
import Fkst.Manifest.Require

/-!
# Keys of loaded modules

Units are named by manifests: those of the workspace by a name of letters, digits, `_` and `-`, those
of external sources by `external:`, the source and the library, each of which is such a name.  A key
of a loaded module starts with the name of the unit or, for an external one, with the source and then
the name of the unit.  Up to the first colon it is the same text for the unit `vendor` and for all
units of the source `vendor`, and what follows is a file name in the first case.
-/

set_option autoImplicit false

namespace Fkst.Manifest

open Lib
open Lib.Checks (bind_eq_ok bailIf bailIf_eq_ok)
open Graph (IsSegment validateNameSegment isSegment_of_validate)

/-! ## Keys -/

theorem colon_notMem {name : String} (h : IsSegment name) : ':' ∉ name.toList :=
  fun hmem => absurd (h.2 ':' hmem) (by decide)

theorem toList_externalProviderUnitId (source library : String) :
    (externalProviderUnitId source library).toList =
      "external:".toList ++ (source.toList ++ ':' :: library.toList) := by
  simp [externalProviderUnitId]

theorem providerSourceOf_of_isSegment {name : String} (h : IsSegment name) :
    providerSourceOf name = none := by
  rw [providerSourceOf]
  cases hrest : "external:".toList.isPrefixOf? name.toList with
  | none => rfl
  | some rest =>
    rw [List.isPrefixOf?_eq_some_iff_append_eq] at hrest
    exact absurd (by rw [← hrest]; simp) (colon_notMem h)

theorem providerSourceOf_external {source library : String} (h : IsSegment source) :
    providerSourceOf (externalProviderUnitId source library) = some source := by
  have hrest : "external:".toList.isPrefixOf? (externalProviderUnitId source library).toList =
      some (source.toList ++ ':' :: library.toList) := by
    rw [List.isPrefixOf?_eq_some_iff_append_eq, toList_externalProviderUnitId]
  rw [providerSourceOf, hrest]
  simp [Text.splitOnce_append (colon_notMem h)]

/-- The key of a module of a unit. -/
def unitKey (unit module : String) : String := canonicalCacheKey (providerSourceOf unit) unit module

/-- What the key of a module of an external unit has after the source. -/
def externalModule (source library module : String) : String :=
  externalProviderUnitId source library ++ ":" ++ module

theorem toList_unitKey {name module : String} (h : IsSegment name) :
    (unitKey name module).toList = "\x1ffkst:".toList ++ (name.toList ++ ':' :: module.toList) := by
  simp [unitKey, canonicalCacheKey, providerSourceOf_of_isSegment h]

theorem toList_unitKey_external {source library module : String} (h : IsSegment source) :
    (unitKey (externalProviderUnitId source library) module).toList =
      "\x1ffkst:".toList ++ (source.toList ++ ':' :: (externalModule source library module).toList) := by
  simp [unitKey, canonicalCacheKey, providerSourceOf_external h, externalModule]

theorem externalModule_inj {source library library' module module' : String} (h : IsSegment library)
    (h' : IsSegment library')
    (heq : externalModule source library module = externalModule source library' module') :
    library = library' ∧ module = module' := by
  have hlist : library.toList ++ ':' :: module.toList = library'.toList ++ ':' :: module'.toList := by
    have := congrArg String.toList heq
    simpa [externalModule, externalProviderUnitId] using this
  obtain ⟨hlibrary, hmodule⟩ := Text.append_sep_inj (colon_notMem h) (colon_notMem h') hlist
  exact ⟨String.toList_inj.1 hlibrary, String.toList_inj.1 hmodule⟩

/-- A module of a unit of the workspace is named after an external unit and a module of that. -/
def Shadows (name module name' module' : String) : Prop :=
  IsSegment name ∧ ∃ library, name' = externalProviderUnitId name library ∧
    module = externalModule name library module'

theorem Shadows.unitKey_eq {name module name' module' : String} (h : Shadows name module name' module') :
    unitKey name module = unitKey name' module' := by
  obtain ⟨hname, library, rfl, rfl⟩ := h
  rw [← String.toList_inj, toList_unitKey hname, toList_unitKey_external hname]

/-- **When two modules have one key.** -/
theorem eq_or_shadows_of_unitKey_eq {name module name' module' : String} (h : UnitName name)
    (h' : UnitName name') (heq : unitKey name module = unitKey name' module') :
    (name = name' ∧ module = module') ∨ Shadows name module name' module' ∨
      Shadows name' module' name module := by
  have hlist := congrArg String.toList heq
  cases h with
  | internal h =>
    cases h' with
    | internal h' =>
      rw [toList_unitKey h, toList_unitKey h', List.append_cancel_left_eq] at hlist
      obtain ⟨hname, hmodule⟩ := Text.append_sep_inj (colon_notMem h) (colon_notMem h') hlist
      exact Or.inl ⟨String.toList_inj.1 hname, String.toList_inj.1 hmodule⟩
    | @external source library hsource hlibrary =>
      rw [toList_unitKey h, toList_unitKey_external hsource, List.append_cancel_left_eq] at hlist
      obtain ⟨hname, hmodule⟩ := Text.append_sep_inj (colon_notMem h) (colon_notMem hsource) hlist
      obtain rfl := String.toList_inj.1 hname
      exact Or.inr (Or.inl ⟨h, library, rfl, String.toList_inj.1 hmodule⟩)
  | @external source library hsource hlibrary =>
    cases h' with
    | internal h' =>
      rw [toList_unitKey_external hsource, toList_unitKey h', List.append_cancel_left_eq] at hlist
      obtain ⟨hname, hmodule⟩ := Text.append_sep_inj (colon_notMem hsource) (colon_notMem h') hlist
      obtain rfl := String.toList_inj.1 hname
      exact Or.inr (Or.inr ⟨h', library, rfl, (String.toList_inj.1 hmodule).symm⟩)
    | @external source' library' hsource' hlibrary' =>
      rw [toList_unitKey_external hsource, toList_unitKey_external hsource',
        List.append_cancel_left_eq] at hlist
      obtain ⟨hname, hmodule⟩ :=
        Text.append_sep_inj (colon_notMem hsource) (colon_notMem hsource') hlist
      obtain rfl := String.toList_inj.1 hname
      obtain ⟨rfl, rfl⟩ := externalModule_inj hlibrary hlibrary' (String.toList_inj.1 hmodule)
      exact Or.inl ⟨rfl, rfl⟩

/-! ## Modules that are resolved -/

/-- A unit of a catalog has a module. -/
def UnitCatalog.Has (catalog : UnitCatalog) (tree : Path → Entries) (unitName module : String) : Prop :=
  ∃ unit path, catalog.units[unitName]? = some unit ∧ OwnModule unit (tree unit.codeRoot) module path

/-- **A module of a unit of the workspace has the key of a module of an external unit**: the unit is
named like a source, and its module like a unit of that source with a module of it. -/
def UnitCatalog.Shadowed (catalog : UnitCatalog) (tree : Path → Entries) : Prop :=
  ∃ source library module, IsSegment source ∧
    catalog.Has tree source (externalModule source library module) ∧
    catalog.Has tree (externalProviderUnitId source library) module

/-- What is resolved is a module of the unit that provides it, and has its key. -/
theorem Visible.has {catalog : UnitCatalog} {tree : Path → Entries} {unitName module : String}
    {entry : ModuleEntry} (h : Visible catalog tree unitName module entry) :
    catalog.Has tree entry.providerUnit module ∧
      entry.cacheKey module = unitKey entry.providerUnit module := by
  cases h with
  | own hunit hmodule => exact ⟨⟨_, _, hunit, hmodule⟩, rfl⟩
  | @library unit library dep libraryName path hunit hdep hname hlibrary hadmits hmodule =>
    refine ⟨⟨library, path, hlibrary, ?_⟩, rfl⟩
    rw [OwnModule, if_pos hmodule.1]
    exact Or.inl hmodule

/-- **Modules are kept apart.**  No two modules of different units, or with different names, that
`require` can find are kept under one key. -/
def CacheIsolated (indexed : IndexedCatalog) : Prop :=
  ∀ unit module entry unit' module' entry', resolve indexed unit module = .ok entry →
    resolve indexed unit' module' = .ok entry' → entry.cacheKey module = entry'.cacheKey module' →
    entry.providerUnit = entry'.providerUnit ∧ module = module'

section Isolated

variable {catalog : UnitCatalog} {tree : Path → Entries} {indexed : IndexedCatalog}

theorem not_cacheIsolated_of_shadowed (h : buildIndexes catalog tree = .ok indexed)
    (hshadowed : catalog.Shadowed tree) : ¬ CacheIsolated indexed := by
  intro hisolated
  obtain ⟨source, library, module, hsource, ⟨unit, path, hunit, hmodule⟩,
    ⟨unit', path', hunit', hmodule'⟩⟩ := hshadowed
  have hresolve := (resolve_eq_ok h).2 (Visible.own hunit hmodule)
  have hresolve' := (resolve_eq_ok h).2 (Visible.own hunit' hmodule')
  have hkey : Shadows source (externalModule source library module)
      (externalProviderUnitId source library) module := ⟨hsource, library, rfl, rfl⟩
  obtain ⟨hname, _⟩ := hisolated _ _ _ _ _ _ hresolve hresolve' hkey.unitKey_eq
  -- a name with colons is not that of a unit of the workspace
  have hname : source = externalProviderUnitId source library := hname
  refine colon_notMem hsource ?_
  rw [hname, toList_externalProviderUnitId]
  simp

/-- **When modules are kept apart.**  In every catalog whose units have names that the validators
admit and whose indexes were built, they are, unless a unit of the workspace that is named like a
source has a module that is named like a unit of that source with a module of it. -/
theorem cacheIsolated_iff (hnamed : catalog.Named) (h : buildIndexes catalog tree = .ok indexed) :
    CacheIsolated indexed ↔ ¬ catalog.Shadowed tree := by
  constructor
  · intro hisolated hshadowed
    exact not_cacheIsolated_of_shadowed h hshadowed hisolated
  · intro hshadowed unit module entry unit' module' entry' hresolve hresolve' hkey
    obtain ⟨hhas, hentry⟩ := ((resolve_eq_ok h).1 hresolve).has
    obtain ⟨hhas', hentry'⟩ := ((resolve_eq_ok h).1 hresolve').has
    obtain ⟨_, _, hunit, _⟩ := id hhas
    obtain ⟨_, _, hunit', _⟩ := id hhas'
    rw [hentry, hentry'] at hkey
    rcases eq_or_shadows_of_unitKey_eq (hnamed _ _ hunit) (hnamed _ _ hunit') hkey with
      heq | ⟨hname, library, hexternal, hmodule⟩ | ⟨hname, library, hexternal, hmodule⟩
    · exact heq
    · rw [hmodule] at hhas
      rw [hexternal] at hhas'
      exact absurd ⟨_, library, module', hname, hhas, hhas'⟩ hshadowed
    · rw [hmodule] at hhas'
      rw [hexternal] at hhas
      exact absurd ⟨_, library, module, hname, hhas', hhas⟩ hshadowed

end Isolated

theorem mem_of_sampleCatalog {name unitName : String} {unit : CatalogUnit}
    (h : (sampleCatalog name).units[unitName]? = some unit) :
    unitName = name ∨ unitName = externalProviderUnitId "vendor" "util" := by
  simpa [sampleLibrary] using Table.mem_of_get_ofList h

theorem sampleCatalog_named {name : String} (h : IsSegment name) : (sampleCatalog name).Named := by
  intro unitName unit hunit
  rcases mem_of_sampleCatalog hunit with rfl | rfl
  · exact .internal h
  · exact .external (by decide +kernel) (by decide +kernel)

/-- A package `app`, which is not the name of a source. -/
theorem cacheIsolated_sample : ∃ indexed,
    buildIndexes (sampleCatalog "app") (sampleTree "main.lua") = .ok indexed ∧
      CacheIsolated indexed := by
  have hmain : sampleResolve "app" "main.lua" "app" "main" =
      some (.ok (.new "app" ["work", "app", "main.lua"] .owner)) := by
    decide +kernel
  obtain ⟨indexed, hbuild, _⟩ := exists_of_sampleResolve hmain
  refine ⟨indexed, hbuild, (cacheIsolated_iff (sampleCatalog_named (by decide +kernel)) hbuild).2 ?_⟩
  rintro ⟨source, library, module, hsource, ⟨unit, path, hunit, _⟩, ⟨unit', path', hunit', _⟩⟩
  rcases mem_of_sampleCatalog hunit with rfl | rfl
  · rcases mem_of_sampleCatalog hunit' with h | h
    · have hlist := congrArg String.toList h
      simp [externalProviderUnitId] at hlist
    · have hlist := congrArg String.toList h
      simp [externalProviderUnitId] at hlist
  · exact absurd hsource (by decide +kernel)

/-- A package `vendor` with the file `external:vendor:util:secret.lua`, and the library `util` of the
source `vendor` with a private module `secret`: both modules are kept under one key. -/
theorem secret_shared : ∃ indexed, (sampleCatalog "vendor").Named ∧
    buildIndexes (sampleCatalog "vendor") (sampleTree "external:vendor:util:secret.lua") = .ok indexed ∧
      ¬ CacheIsolated indexed := by
  have hown : sampleResolve "vendor" "external:vendor:util:secret.lua" "vendor"
      "external:vendor:util:secret" = some (.ok (.new "vendor"
        ["work", "vendor", "external:vendor:util:secret.lua"] .owner)) := by
    decide +kernel
  have hsecret : sampleResolve "vendor" "external:vendor:util:secret.lua" "external:vendor:util"
      "secret" = some (.ok (.new "external:vendor:util"
        ["store", "util", "private", "secret.lua"] .owner)) := by
    decide +kernel
  obtain ⟨indexed, hbuild, hown⟩ := exists_of_sampleResolve hown
  obtain ⟨indexed', hbuild', hsecret⟩ := exists_of_sampleResolve hsecret
  obtain rfl := Except.ok.inj (hbuild.symm.trans hbuild')
  refine ⟨indexed, sampleCatalog_named (by decide +kernel), hbuild, fun hisolated => ?_⟩
  have hkey := hisolated _ _ _ _ _ _ hown hsecret (by decide +kernel)
  exact absurd hkey.1 (by decide)

end Fkst.Manifest
