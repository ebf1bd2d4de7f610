import Fkst.Graph.Names
import Fkst.Manifest.Units

/-!
# External sources

A workspace may take libraries from other repositories.  `fkst.lock` says which tree a source is to be
checked out at, and for every library the manifest of the workspace allows, its unit and the hash of
what it exports.  `lockedSourceCheckout` checks a lock against the declaration and the tree, and
`addExternalUnits` adds the units of what it admits; `catalogAllowedLibraries` is what the lock is made
with.
-/

set_option autoImplicit false

namespace Fkst.Manifest

open Lib.Checks (bailIf bind_eq_ok bailIf_eq_ok forM_eq_ok mapM_eq_ok exists_mapM_eq_ok)

/-! ## Declarations and locks -/

/-- `ExternalSourceDecl`. -/
structure ExternalSourceDecl where
  id : String
  git : String
  rev : Option String := none
  tag : Option String := none
  packages : List String := []
  libraries : List String := []

/-- `ExternalSourceIntent`. -/
structure ExternalSourceIntent where
  rev : Option String
  tag : Option String
deriving DecidableEq

/-- `ExternalSourceResolved`. -/
structure ExternalSourceResolved where
  rev : String
  treeSha256 : String

/-- `ExternalLibraryLock`. -/
structure ExternalLibraryLock where
  name : String
  unit : String
  exportsSha256 : String
deriving DecidableEq

/-- `ExternalSourceLock`. -/
structure ExternalSourceLock where
  id : String
  git : String
  intent : ExternalSourceIntent
  resolved : ExternalSourceResolved
  libraries : List ExternalLibraryLock := []

/-- `Lockfile`, as far as it is about sources. -/
structure Lockfile where
  externalSources : List ExternalSourceLock := []

/-- `Lockfile::external_source`. -/
def Lockfile.externalSource (lockfile : Lockfile) (id : String) : Option ExternalSourceLock :=
  lockfile.externalSources.find? fun source => source.id == id

/-- `ExternalLibraryCheckout`. -/
structure ExternalLibraryCheckout where
  name : String
  unit : String
  publishable : Bool
deriving DecidableEq

/-- `ExternalSourceCheckout`. -/
structure ExternalSourceCheckout where
  sourceId : String
  root : Path
  libraries : List ExternalLibraryCheckout
  availableLibraries : List String
deriving DecidableEq

/-! ## Checks -/

/-- `u8::is_ascii_hexdigit`. -/
def isHexDigit (c : Char) : Bool :=
  ('0' ≤ c && c ≤ '9') || ('a' ≤ c && c ≤ 'f') || ('A' ≤ c && c ≤ 'F')

/-- `validate_full_sha`. -/
def validateFullSha (value : String) : Except String Unit :=
  if (strBytes value).length ≠ 40 ∨ value.toList.all isHexDigit = false then
    .error ("git rev `" ++ value ++ "` must be a 40-hex sha")
  else .ok ()

/-- `validate_prefixed_hash`. -/
def validatePrefixedHash (value : String) : Except String Unit :=
  match "sha256-".toList.isPrefixOf? value.toList with
  | none => .error ("hash `" ++ value ++ "` must start with sha256-")
  | some hash =>
    if (Lib.Utf8.encode hash).length ≠ 64 ∨ hash.all isHexDigit = false then
      .error ("hash `" ++ value ++ "` must be sha256- plus 64 hex chars")
    else .ok ()

/-- The loop over names that have to be valid and each there once. -/
def validateDistinctNames (label : String) (message : String → String) :
    List String → List String → Except String Unit
  | _, [] => .ok ()
  | seen, name :: names => do
    Graph.validateNameSegment label name
    bailIf (name ∈ seen) (message name)
    validateDistinctNames label message (name :: seen) names

/-- A source is pinned by a revision or by a tag. -/
def validateIntent (source : ExternalSourceDecl) : Except String Unit :=
  match source.rev, source.tag with
  | some rev, none => validateFullSha rev
  | none, some tag => bailIf ((trim tag.toList).isEmpty)
      ("external source `" ++ source.id ++ "` tag must not be empty")
  | some _, some _ => .error ("external source `" ++ source.id ++ "` must set only one of rev or tag")
  | none, none => .error ("external source `" ++ source.id ++ "` must set rev or tag")

/-- `validate_source_decl`; `validate_name` is `validate_name_segment` of the names. -/
def validateSourceDecl (source : ExternalSourceDecl) : Except String Unit := do
  Graph.validateNameSegment "external source id" source.id
  bailIf ((trim source.git.toList).isEmpty)
    ("external source `" ++ source.id ++ "` git must not be empty")
  validateIntent source
  bailIf (source.packages.isEmpty ∧ source.libraries.isEmpty)
    ("external source `" ++ source.id ++ "` must declare at least one package or library")
  validateDistinctNames "external source package" (fun package => "external source `" ++ source.id ++
    "` declares duplicate package `" ++ package ++ "`") [] source.packages
  validateDistinctNames "external source library" (fun library => "external source `" ++ source.id ++
    "` declares duplicate library `" ++ library ++ "`") [] source.libraries

/-- `validate_lock_matches_manifest`. -/
def validateLockMatchesManifest (source : ExternalSourceDecl) (lock : ExternalSourceLock) :
    Except String Unit := do
  bailIf (lock.git ≠ source.git)
    ("external source `" ++ source.id ++ "` git mismatch between workspace manifest and fkst.lock")
  bailIf (lock.intent.rev ≠ source.rev ∨ lock.intent.tag ≠ source.tag)
    ("external source `" ++ source.id ++ "` intent mismatch between workspace manifest and fkst.lock")
  validateFullSha lock.resolved.rev
  validatePrefixedHash lock.resolved.treeSha256
  source.libraries.forM fun allowed =>
    bailIf (allowed ∉ lock.libraries.map ExternalLibraryLock.name)
      ("external source `" ++ source.id ++ "` library `" ++ allowed ++
        "` is allowed by the workspace manifest but missing from fkst.lock; " ++
        "run `fkst-framework host lock --project-root <root>`")

/-! ## Trees -/

section Tree

variable (fs : Fs) (toml : Toml)

/-- `prefixed_tree_sha256`. -/
def prefixedTreeSha256 (root : Path) : Except String String := do
  let entries ← fs.tree root
  return "sha256-" ++ treeSha256 entries

/-- `prefixed_exports_sha256`. -/
def prefixedExportsSha256 (unitRoot : Path) : Except String String :=
  if fs.isDir (unitRoot ++ ["public"]) then prefixedTreeSha256 fs (unitRoot ++ ["public"])
  else prefixedTreeSha256 fs unitRoot

/-- `publishable_library_at`. -/
def publishableLibraryAt (unitRoot : Path) : Except String Bool := do
  let manifest ← parseUnit fs toml unitRoot
  return (manifest.library.map LibraryMeta.publishable).getD false

/-- One round of the loop that collects `libraries_by_name`. -/
def collectLibrary (source : ExternalSourceDecl) (byName : List (String × Path)) (unitRoot : Path) :
    Except String (List (String × Path)) := do
  let manifest ← parseUnit fs toml unitRoot
  if manifest.kind = .library then
    bailIf (manifest.libraryName ∈ byName.map Prod.fst)
      ("external source `" ++ source.id ++ "` declares duplicate library `" ++ manifest.libraryName ++
        "`")
    return (manifest.libraryName, unitRoot) :: byName
  else return byName

/-- What `catalog_allowed_libraries` writes down of an allowed library. -/
def lockLibrary (source : ExternalSourceDecl) (root : Path) (byName : List (String × Path))
    (library : String) : Except String ExternalLibraryLock :=
  match byName.lookup library with
  | none => .error ("external source `" ++ source.id ++ "` does not allow library `" ++ library ++
      "` because it is absent")
  | some unitRoot =>
    match stripPrefix unitRoot root with
    | none => .error "strip checkout root"
    | some relative => do
      let exportsSha256 ← prefixedExportsSha256 fs unitRoot
      return ⟨library, unitText relative, exportsSha256⟩

/-- `catalog_allowed_libraries`. -/
def catalogAllowedLibraries (source : ExternalSourceDecl) (checkoutRoot : Path) :
    Except String (List ExternalLibraryLock) := do
  let workspace ← parseWorkspace fs toml checkoutRoot
  let root ← fs.canonicalize checkoutRoot
  let unitRoots ← discoverUnitRoots fs root workspace.discoveredUnits
  let byName ← unitRoots.foldlM (collectLibrary fs toml source) []
  source.libraries.mapM (lockLibrary fs source root byName)

/-- A unit with its manifest. -/
def withManifest (unitRoot : Path) : Except String (Path × UnitManifest) := do
  let manifest ← parseUnit fs toml unitRoot
  return (unitRoot, manifest)

/-- The units of a workspace with their manifests. -/
def unitsOf (root : Path) : Except String (List (Path × UnitManifest)) := do
  let unitRoots ← unitRootsOf fs toml root
  unitRoots.mapM (withManifest fs toml)

/-- The libraries among them, by name. -/
def librariesOf (units : List (Path × UnitManifest)) : List (String × Path) :=
  (units.filter fun unit => unit.2.kind = .library).map fun unit => (unit.2.libraryName, unit.1)

/-- `available_library_names`. -/
def availableLibraryNames (checkoutRoot : Path) : Except String (List String) := do
  let units ← unitsOf fs toml checkoutRoot
  return ((librariesOf units).map Prod.fst).dedup

/-- One library of a lock. -/
def lockedLibrary (source : ExternalSourceDecl) (sourceRoot : Path) (library : ExternalLibraryLock) :
    Except String ExternalLibraryCheckout := do
  bailIf (library.name ∉ source.libraries)
    ("external source `" ++ source.id ++ "` lock admits library `" ++ library.name ++
      "` not allowed by manifest")
  let unitRoot := join sourceRoot library.unit
  let actualExports ← prefixedExportsSha256 fs unitRoot
  bailIf (actualExports ≠ library.exportsSha256)
    ("external source `" ++ source.id ++ "` library `" ++ library.name ++
      "` exports hash mismatch: lock has " ++ library.exportsSha256 ++ ", checkout has " ++
      actualExports)
  let publishable ← publishableLibraryAt fs toml unitRoot
  return ⟨library.name, library.unit, publishable⟩

/-- `locked_libraries`. -/
def lockedLibraries (source : ExternalSourceDecl) (lock : ExternalSourceLock) (sourceRoot : Path) :
    Except String (List ExternalLibraryCheckout) :=
  lock.libraries.mapM (lockedLibrary fs toml source sourceRoot)

/-- `locked_source_checkout` of a source without a local root.  `storeRoot` is where the tree of a hash
is kept: fetching it with git is not part of this. -/
def lockedSourceCheckout (storeRoot : ExternalSourceResolved → Except String Path)
    (source : ExternalSourceDecl) (lockfile : Lockfile) : Except String ExternalSourceCheckout := do
  validateSourceDecl source
  match lockfile.externalSource source.id with
  | none => throw ("external source `" ++ source.id ++
      "` is missing from fkst.lock; run `fkst-framework host lock --project-root <root>`")
  | some lock =>
    validateLockMatchesManifest source lock
    let store ← storeRoot lock.resolved
    let root ← fs.canonicalize store
    let actualTree ← prefixedTreeSha256 fs root
    bailIf (actualTree ≠ lock.resolved.treeSha256)
      ("external source `" ++ source.id ++ "` cached tree hash mismatch: lock has " ++
        lock.resolved.treeSha256 ++ ", cache has " ++ actualTree)
    let libraries ← lockedLibraries fs toml source lock root
    let availableLibraries ← availableLibraryNames fs toml root
    return ⟨source.id, root, libraries, availableLibraries⟩

/-! ## Units -/

/-- `CatalogUnit`, as far as it is looked up. -/
structure CatalogUnit where
  catalogName : String
  unitRoot : Path
  codeRoot : Path
  manifest : UnitManifest
deriving DecidableEq

/-- `units` and `library_units` of a catalog, as they are built. -/
structure Units where
  units : List (String × CatalogUnit) := []
  libraryUnits : List (String × String) := []
deriving DecidableEq

/-- `external_provider_unit_id`. -/
def externalProviderUnitId (sourceId libraryName : String) : String :=
  "external:" ++ sourceId ++ ":" ++ libraryName

/-- `canonical_unit_code_root`. -/
def canonicalUnitCodeRoot (unitRoot : Path) (manifest : UnitManifest) : Except String Path := do
  let codeRoot ← fs.canonicalize (join unitRoot manifest.codeRoot)
  bailIf (¬ fs.isDir codeRoot) "code root is not a directory"
  return codeRoot

/-- `ensure_catalog_path_under_workspace`. -/
def ensureCatalogPathUnderWorkspace (workspaceRoot path : Path) (label : String) :
    Except String Unit :=
  bailIf (path ≠ workspaceRoot ∧ (stripPrefix path workspaceRoot).isNone)
    (label ++ " must stay under workspace root")

/-- Whether a unit of a tree is the one that a library of a checkout names. -/
def isUnitOf (checkout : ExternalSourceCheckout) (library : ExternalLibraryCheckout)
    (unit : Path × UnitManifest) : Bool :=
  unit.2.kind = .library && (match stripPrefix unit.1 checkout.root with
    | some relative => unitText relative == library.unit
    | none => false)

/-- One library of a checkout. -/
def addLibrary (checkout : ExternalSourceCheckout) (unitRoots : List (Path × UnitManifest))
    (units : Units) (library : ExternalLibraryCheckout) : Except String Units :=
  match unitRoots.find? (isUnitOf checkout library) with
  | none => .error ("external source `" ++ checkout.sourceId ++ "` locked library `" ++ library.name ++
      "` is missing unit `" ++ library.unit ++ "`")
  | some (unitRoot, manifest) =>
    if manifest.libraryName ≠ library.name then
      .error ("external source `" ++ checkout.sourceId ++ "` locked library `" ++ library.name ++
        "` resolved to manifest library `" ++ manifest.libraryName ++ "`")
    else if !library.publishable then .ok units
    else do
      let codeRoot ← canonicalUnitCodeRoot fs unitRoot manifest
      ensureCatalogPathUnderWorkspace checkout.root unitRoot "external unit root"
      ensureCatalogPathUnderWorkspace checkout.root codeRoot "external code root"
      let catalogName := externalProviderUnitId checkout.sourceId library.name
      bailIf (catalogName ∈ units.units.map Prod.fst)
        ("duplicate external library provider `" ++ catalogName ++ "`")
      match units.libraryUnits.lookup library.name with
      | some existing => throw ("duplicate library name `" ++ library.name ++ "` from units `" ++
          existing ++ "` and `" ++ catalogName ++ "`")
      | none => return {
          units := units.units ++ [(catalogName, ⟨catalogName, unitRoot, codeRoot, manifest⟩)]
          libraryUnits := units.libraryUnits ++ [(library.name, catalogName)] }

/-- One checkout of `add_external_units`. -/
def addCheckout (units : Units) (checkout : ExternalSourceCheckout) : Except String Units := do
  let unitRoots ← unitsOf fs toml checkout.root
  checkout.libraries.foldlM (addLibrary fs checkout unitRoots) units

/-- `add_external_units`. -/
def addExternalUnits (units : Units) (checkouts : List ExternalSourceCheckout) : Except String Units :=
  checkouts.foldlM (addCheckout fs toml) units

end Tree

/-! ## The parts of a check that has passed -/

section Parts

variable {fs : Fs} {toml : Toml} {source : ExternalSourceDecl} {root : Path}

theorem nodup_of_validateDistinctNames {label : String} {message : String → String} :
    ∀ {names seen : List String}, validateDistinctNames label message seen names = .ok () →
      names.Nodup ∧ ∀ name ∈ names, name ∉ seen
  | [], _, _ => ⟨List.nodup_nil, by simp⟩
  | name :: names, seen, h => by
    obtain ⟨⟨⟩, _, h⟩ := bind_eq_ok.1 h
    obtain ⟨⟨⟩, hnot, h⟩ := bind_eq_ok.1 h
    have hnot : name ∉ seen := bailIf_eq_ok.1 hnot
    obtain ⟨hnodup, hseen⟩ := nodup_of_validateDistinctNames h
    refine ⟨List.nodup_cons.2 ⟨fun hmem => hseen name hmem List.mem_cons_self, hnodup⟩, ?_⟩
    rw [List.forall_mem_cons]
    exact ⟨hnot, fun n hn hmem => hseen n hn (List.mem_cons_of_mem _ hmem)⟩

theorem isSegment_of_validateDistinctNames {label : String} {message : String → String} :
    ∀ {names seen : List String}, validateDistinctNames label message seen names = .ok () →
      ∀ name ∈ names, Graph.IsSegment name
  | [], _, _ => by simp
  | name :: names, seen, h => by
    obtain ⟨⟨⟩, hname, h⟩ := bind_eq_ok.1 h
    obtain ⟨⟨⟩, _, h⟩ := bind_eq_ok.1 h
    rw [List.forall_mem_cons]
    exact ⟨Graph.isSegment_of_validate hname, isSegment_of_validateDistinctNames h⟩

/-- The names in a declaration that has passed. -/
theorem isSegment_of_validateSourceDecl (h : validateSourceDecl source = .ok ()) :
    Graph.IsSegment source.id ∧ ∀ name ∈ source.libraries, Graph.IsSegment name := by
  obtain ⟨⟨⟩, hid, h⟩ := bind_eq_ok.1 h
  obtain ⟨⟨⟩, _, h⟩ := bind_eq_ok.1 h
  obtain ⟨⟨⟩, _, h⟩ := bind_eq_ok.1 h
  obtain ⟨⟨⟩, _, h⟩ := bind_eq_ok.1 h
  obtain ⟨⟨⟩, _, h⟩ := bind_eq_ok.1 h
  exact ⟨Graph.isSegment_of_validate hid, isSegment_of_validateDistinctNames h⟩

theorem nodup_libraries (h : validateSourceDecl source = .ok ()) : source.libraries.Nodup := by
  obtain ⟨⟨⟩, _, h⟩ := bind_eq_ok.1 h
  obtain ⟨⟨⟩, _, h⟩ := bind_eq_ok.1 h
  obtain ⟨⟨⟩, _, h⟩ := bind_eq_ok.1 h
  obtain ⟨⟨⟩, _, h⟩ := bind_eq_ok.1 h
  obtain ⟨⟨⟩, _, h⟩ := bind_eq_ok.1 h
  exact (nodup_of_validateDistinctNames h).1

/-- The libraries of a lock that has passed. -/
theorem mem_of_validateLock {lock : ExternalSourceLock}
    (h : validateLockMatchesManifest source lock = .ok ()) :
    ∀ allowed ∈ source.libraries, ∃ library ∈ lock.libraries, library.name = allowed := by
  obtain ⟨⟨⟩, _, h⟩ := bind_eq_ok.1 h
  obtain ⟨⟨⟩, _, h⟩ := bind_eq_ok.1 h
  obtain ⟨⟨⟩, _, h⟩ := bind_eq_ok.1 h
  obtain ⟨⟨⟩, _, h⟩ := bind_eq_ok.1 h
  intro allowed hallowed
  have hmem := not_not.1 (bailIf_eq_ok.1 (forM_eq_ok.1 h allowed hallowed))
  exact List.mem_map.1 hmem

/-- A library of a lock that has passed. -/
structure LockedAs (fs : Fs) (toml : Toml) (source : ExternalSourceDecl) (root : Path)
    (library : ExternalLibraryLock) (checkout : ExternalLibraryCheckout) : Prop where
  allowed : library.name ∈ source.libraries
  exportsSha256 : prefixedExportsSha256 fs (join root library.unit) = .ok library.exportsSha256
  publishable : publishableLibraryAt fs toml (join root library.unit) = .ok checkout.publishable
  name : checkout.name = library.name
  unit : checkout.unit = library.unit

theorem lockedLibrary_eq_ok {library : ExternalLibraryLock} {checkout : ExternalLibraryCheckout} :
    lockedLibrary fs toml source root library = .ok checkout ↔
      LockedAs fs toml source root library checkout := by
  constructor
  · intro h
    obtain ⟨⟨⟩, hallowed, h⟩ := bind_eq_ok.1 h
    obtain ⟨exportsSha256, hexports, h⟩ := bind_eq_ok.1 h
    obtain ⟨⟨⟩, heq, h⟩ := bind_eq_ok.1 h
    obtain ⟨publishable, hpublishable, h⟩ := bind_eq_ok.1 h
    obtain rfl := Except.ok.inj h
    obtain rfl := not_not.1 (bailIf_eq_ok.1 heq)
    exact ⟨not_not.1 (bailIf_eq_ok.1 hallowed), hexports, hpublishable, rfl, rfl⟩
  · rintro ⟨hallowed, hexports, hpublishable, hname, hunit⟩
    obtain ⟨name, unit, publishable⟩ := checkout
    subst hname hunit
    refine bind_eq_ok.2 ⟨(), bailIf_eq_ok.2 (not_not.2 hallowed), bind_eq_ok.2 ⟨_, hexports, ?_⟩⟩
    exact bind_eq_ok.2 ⟨(), bailIf_eq_ok.2 (not_not.2 rfl), bind_eq_ok.2 ⟨_, hpublishable, rfl⟩⟩

end Parts

end Fkst.Manifest
