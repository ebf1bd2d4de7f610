import Fkst.Graph.Scan
import Fkst.Manifest.Catalog

/-!
# The roots of a supervisor and of its runs

`path_resolver.rs`: the supervisor resolves the roots of its packages and hands them to every run, as
arguments and, with the catalogs, as a snapshot.  A run takes the snapshot if it fits the arguments,
and derives the namespaces and the owner of the host again to see whether it does.

What is found below a root is given (`Workspaces`): how a catalog is built is no concern here.

`handsOff_iff` says when a run takes over what the supervisor has resolved: a variable of the
environment must not be set that a run does not have, and the host must not be one of several packages.
-/

set_option autoImplicit false

namespace Fkst.Manifest

open Lib
open Lib.Checks (bind_eq_ok bailIf bailIf_eq_ok mapM_eq_ok forM_eq_ok mem_of_mapM_eq_ok exists_of_mapM_eq_ok)

/-! ## Catalogs by root -/

/-- `UnitCatalog`, with the workspace that it is of. -/
structure WorkspaceCatalog where
  workspaceRoot : Path
  externalSources : List ExternalSourceDecl
  catalog : IndexedCatalog

/-- What a process has besides its arguments.  Arguments that are paths have been joined to the working
directory. -/
structure Process where
  env : String → Option String
  cwd : Path

/-- What is found below a root. -/
structure Workspaces where
  /-- `UnitCatalog::discover`. -/
  discover : Path → Except String (Option WorkspaceCatalog)
  /-- `UnitCatalog::discover_workspace_root`. -/
  discoverWorkspaceRoot : Path → Except String (Option Path)
  /-- `UnitCatalog::discover_excluding_roots_with_local_sources`. -/
  discoverExcludingRoots : Path → List Path → List (String × Path) →
    Except String (Option WorkspaceCatalog)
  /-- `local_source_roots_for_package_roots`. -/
  localSourceRoots : Path → List ExternalSourceDecl → List Path → Except String (List (String × Path))
  /-- `validate_locked_local_package_sources`. -/
  validateLockedLocalPackageSources : WorkspaceCatalog → List (String × Path) → Except String Unit

section Catalogs

variable (fs : Fs)

/-- `unit_for_root`. -/
def WorkspaceCatalog.unitForRoot (catalog : WorkspaceCatalog) (ownerRoot : Path) :
    Except String (Option CatalogUnit) := do
  let canonical ← fs.canonicalize ownerRoot
  return (catalog.catalog.units.toList.map Prod.snd).find? fun unit =>
    unit.unitRoot = canonical ∨ unit.codeRoot = canonical

/-- `unit_name_for_root`. -/
def WorkspaceCatalog.unitNameForRoot (catalog : WorkspaceCatalog) (ownerRoot : Path) :
    Except String (Option String) := do
  return (← catalog.unitForRoot fs ownerRoot).map CatalogUnit.catalogName

end Catalogs

/-! ## Package roots -/

/-- `HOST_NAMESPACE`. -/
def hostNamespace : String := "host"

/-- `PACKAGE_ROOT_ENV`. -/
def packageRootEnv : String := "FKST_PACKAGE_ROOT"

/-- `PACKAGE_ROOTS_ENV`. -/
def packageRootsEnv : String := "FKST_PACKAGE_ROOTS"

/-- `REJECTED_PACKAGE_ROOT_ENVS`. -/
def rejectedPackageRootEnvs : List String :=
  ["FKST_STDLIB_ROOT", "FKST_RUNTIME_PACKAGE_ROOT", "FKST_GRAPH_ROOTS"]

/-- `PackageRoots`. -/
structure PackageRoots where
  packageRoots : List Path
  hostRoot : Path
  packageNamespaces : List String
  runHostOwner : Bool
  catalog : Option WorkspaceCatalog
  externalCatalogs : Table Path WorkspaceCatalog
  externalPackageCatalogRoots : Table Path Path

/-- `PackageRootInput`. -/
structure PackageRootInput where
  roots : List Path
  explicit : Bool

section Resolve

variable (fs : Fs) (workspaces : Workspaces) (process : Process)

/-- `reject_removed_package_root_envs`. -/
def rejectRemovedPackageRootEnvs : Except String Unit :=
  rejectedPackageRootEnvs.forM fun key =>
    bailIf (process.env key).isSome
      (key ++ " is a removed package root surface; use " ++ packageRootsEnv ++ ", " ++ packageRootEnv ++
        ", or --package-root")

/-- `canonical_dir`. -/
def canonicalDir (label : String) (path : Path) : Except String Path := do
  let canonical ← fs.canonicalize path
  bailIf (¬ fs.isDir canonical) (label ++ " is not a directory: " ++ display canonical)
  let _ ← fs.readDir canonical
  return canonical

/-- `canonical_dir` of a text. -/
def canonicalDirText (label text : String) : Except String Path := do
  bailIf (text = "") ("canonicalize " ++ label ++ " ")
  canonicalDir fs label (join process.cwd text)

/-- `reject_duplicate_roots`. -/
def rejectDuplicateRoots : List Path → List Path → Except String Unit
  | _, [] => .ok ()
  | seen, root :: roots => do
    bailIf (root ∈ seen) ("duplicate package root: " ++ display root)
    rejectDuplicateRoots (root :: seen) roots

/-- `canonical_dirs`, by what makes a directory of a root. -/
def canonicalDirs {α : Type} (canonical : α → Except String Path) (label : String) (roots : List α) :
    Except String (List Path) := do
  bailIf roots.isEmpty (label ++ " must contain at least one path")
  let roots ← roots.mapM canonical
  rejectDuplicateRoots [] roots
  return roots

/-- `std::env::split_paths`. -/
def splitPaths (raw : String) : List String := (raw.toList.splitOn ':').map String.ofList

/-- `roots_from_env`. -/
def rootsFromEnv : Except String (List Path) :=
  match process.env packageRootsEnv, process.env packageRootEnv with
  | some _, some _ => .error (packageRootsEnv ++ " and " ++ packageRootEnv ++
      " are mutually exclusive without --package-root")
  | some raw, none => do
    bailIf (raw = "") (packageRootsEnv ++ " must not be empty")
    bailIf (splitPaths raw).isEmpty (packageRootsEnv ++ " must contain at least one path")
    canonicalDirs (canonicalDirText fs process packageRootsEnv) packageRootsEnv (splitPaths raw)
  | none, some root => do
    bailIf (root = "") (packageRootEnv ++ " must not be empty")
    return [← canonicalDirText fs process packageRootEnv root]
  | none, none => .error (packageRootsEnv ++ ", " ++ packageRootEnv ++ ", or --package-root is required")

/-- The namespace of a root: its basename, or that of the host. -/
def packageNamespace (hostRoot : Path) (runHostOwner : Bool) (root : Path) : Except String String :=
  if runHostOwner ∧ root = hostRoot then .ok hostNamespace
  else match root.getLast? with
    | some name => .ok name
    | none => .error ("package root has no basename: " ++ display root)

/-- One round of `package_namespaces`. -/
def addPackageNamespace (hostRoot : Path) (runHostOwner : Bool) (namespaces : List String)
    (root : Path) : Except String (List String) := do
  let nspace ← packageNamespace hostRoot runHostOwner root
  bailIf (nspace ∈ namespaces) ("duplicate package root basename `" ++ nspace ++ "`")
  return namespaces ++ [nspace]

/-- `package_namespaces`. -/
def packageNamespacesOf (hostRoot : Path) (packageRoots : List Path) (runHostOwner : Bool) :
    Except String (List String) :=
  packageRoots.foldlM (addPackageNamespace hostRoot runHostOwner) []

/-- `reject_env_external_package_roots`, of roots that are not explicit; `is_under` is a prefix that is
not all. -/
def rejectEnvExternalPackageRoots (hostRoot : Path) (input : PackageRootInput) : Except String Unit :=
  if input.explicit then .ok ()
  else input.roots.forM fun root =>
    bailIf (root ≠ hostRoot ∧ ¬(hostRoot <+: root))
      ("external package root " ++ display root ++ " requires explicit --package-root")

/-- The namespaces are names of segments, and none is the one of the host, if there are several. -/
def validateNamespaces (hostRoot : Path) (packageRoots : List Path) (namespaces : List String) :
    Except String Unit :=
  let hostIsFolded : Bool := hostRoot ∈ packageRoots
  if packageRoots.length + (if hostIsFolded then 0 else 1) > 1 then do
    namespaces.forM (Graph.validateNameSegment "package root basename")
    bailIf (hostIsFolded = false ∧ hostNamespace ∈ namespaces)
      ("package root basename `" ++ hostNamespace ++
        "` conflicts with independent host namespace `" ++ hostNamespace ++ "`")
  else .ok ()

/-- `explicit_external_roots`. -/
def explicitExternalRoots (hostRoot : Path) (packageRoots : List Path) : Except String (List Path) := do
  let found ← packageRoots.mapM fun root => do
    match ← workspaces.discoverWorkspaceRoot root with
    | some workspaceRoot =>
      return if workspaceRoot ≠ hostRoot ∧ hostRoot <+: workspaceRoot then [workspaceRoot, root] else []
    | none => return []
  return found.flatten

/-- What `from_canonical` says if there is no workspace. -/
def missingWorkspace : String := "manifest catalog is required: missing fkst.workspace.toml"

/-- The catalog of the host in `from_canonical`. -/
def hostCatalog (hostRoot : Path) (input : PackageRootInput) :
    Except String (Option WorkspaceCatalog) := do
  let excludedRoots ← if input.explicit then explicitExternalRoots workspaces hostRoot input.roots
    else .ok []
  let mayBeAbsent : Bool := input.explicit && input.roots.all fun root => !hostRoot.isPrefixOf root
  let catalog ← workspaces.discoverExcludingRoots hostRoot excludedRoots []
  bailIf (catalog.isNone ∧ mayBeAbsent = false) missingWorkspace
  let localSourceRoots ←
    match input.explicit, catalog with
    | true, some catalog => workspaces.localSourceRoots hostRoot catalog.externalSources input.roots
    | _, _ => .ok []
  let catalog ←
    if localSourceRoots.isEmpty then .ok catalog
    else do
      let catalog ← workspaces.discoverExcludingRoots hostRoot excludedRoots localSourceRoots
      bailIf catalog.isNone missingWorkspace
      return catalog
  if let some catalog := catalog then
    workspaces.validateLockedLocalPackageSources catalog localSourceRoots
  return catalog

/-- One package of `external_package_declarations`. -/
def declarePackage (source : ExternalSourceDecl) (declared : Table String String) (package : String) :
    Except String (Table String String) :=
  match declared[package]? with
  | some previousSource =>
    if previousSource = source.id then .error ("external source `" ++ source.id ++
        "` declares duplicate platform package `" ++ package ++ "`")
    else .error ("ambiguous target fkst.workspace.toml platform package `" ++ package ++
        "` declared by external sources `" ++ previousSource ++ "` and `" ++ source.id ++ "`")
  | none => .ok (declared.insert package source.id)

/-- `external_package_declarations`. -/
def externalPackageDeclarations (sources : List ExternalSourceDecl) :
    Except String (Table String String) :=
  sources.foldlM (fun declared source => do
    Graph.validateNameSegment "external source id" source.id
    source.packages.foldlM (fun declared package => do
      Graph.validateNameSegment "external source package" package
      declarePackage source declared package) declared) ∅

/-- The package of a root that no external source declares. -/
def undeclaredPackage (hostRoot : Path) (hostCatalog : WorkspaceCatalog)
    (declared : Table String String) (root : Path) : Except String (Option String) :=
  if root = hostRoot then .ok none
  else do
    if (← hostCatalog.unitNameForRoot fs root).isSome then return none
    match ← workspaces.discover root with
    | none => throw ("manifest catalog is required for package root " ++ display root)
    | some catalog =>
      if (← catalog.unitForRoot fs root).isNone then return none
      match root.getLast? with
      | none => throw ("package root has no basename: " ++ display root)
      | some package =>
        Graph.validateNameSegment "package root basename" package
        return if declared.contains package then none else some package

/-- `validate_external_package_declarations`. -/
def validateExternalPackageDeclarations (hostRoot : Path) (catalog : WorkspaceCatalog)
    (packageRoots : List Path) : Except String Unit :=
  if catalog.externalSources.isEmpty then .ok ()
  else do
    let declared ← externalPackageDeclarations catalog.externalSources
    let missing ← packageRoots.mapM (undeclaredPackage fs workspaces hostRoot catalog declared)
    bailIf (missing.any Option.isSome)
      ("target fkst.workspace.toml does not declare platform packages in [[external_sources]].packages: " ++
        ", ".intercalate (missing.filterMap id).mergeSort.dedup ++
        "; add them to the external source block that owns these package roots")

/-- What `external_package_catalogs` collects. -/
structure ExternalCatalogs where
  catalogs : Table Path WorkspaceCatalog := ∅
  packageCatalogRoots : Table Path Path := ∅

/-- Whether a unit of the host has the root. -/
def ownedByHost (hostCatalog : Option WorkspaceCatalog) (root : Path) : Except String Bool :=
  match hostCatalog with
  | some catalog => do return (← catalog.unitNameForRoot fs root).isSome
  | none => .ok false

/-- One round of `external_package_catalogs`. -/
def addExternalPackage (hostRoot : Path) (hostCatalog : Option WorkspaceCatalog)
    (externals : ExternalCatalogs) (root : Path) : Except String ExternalCatalogs := do
  let ownedByHost ← ownedByHost fs hostCatalog root
  if root = hostRoot ∨ ownedByHost then return externals
  match ← workspaces.discover root with
  | none => throw ("manifest catalog is required for package root " ++ display root)
  | some catalog =>
    bailIf (hostCatalog.any fun host => catalog.workspaceRoot = host.workspaceRoot)
      ("no manifest unit owns " ++ display root)
    bailIf (← catalog.unitNameForRoot fs root).isNone ("no manifest unit owns " ++ display root)
    return {
      catalogs :=
        if externals.catalogs.contains catalog.workspaceRoot then externals.catalogs
        else externals.catalogs.insert catalog.workspaceRoot catalog
      packageCatalogRoots := externals.packageCatalogRoots.insert root catalog.workspaceRoot }

/-- The catalogs of the packages that are not of the host, in `from_canonical`. -/
def externalCatalogsOf (hostRoot : Path) (input : PackageRootInput)
    (hostCatalog : Option WorkspaceCatalog) : Except String ExternalCatalogs :=
  if input.explicit then do
    if let some catalog := hostCatalog then
      validateExternalPackageDeclarations fs workspaces hostRoot catalog input.roots
    input.roots.foldlM (addExternalPackage fs workspaces hostRoot hostCatalog) {}
  else .ok {}

/-- `from_canonical`. -/
def fromCanonical (hostRoot : Path) (input : PackageRootInput) (runHostOwner : Bool) :
    Except String PackageRoots := do
  rejectEnvExternalPackageRoots hostRoot input
  let namespaces ← packageNamespacesOf hostRoot input.roots runHostOwner
  validateNamespaces hostRoot input.roots namespaces
  let catalog ← hostCatalog workspaces hostRoot input
  let externals ← externalCatalogsOf fs workspaces hostRoot input catalog
  return ⟨input.roots, hostRoot, namespaces, runHostOwner, catalog, externals.catalogs,
    externals.packageCatalogRoots⟩

/-- The package roots that `resolve` takes: the explicit ones, or those of the environment. -/
def packageRootInput (explicitPackageRoots : List Path) : Except String PackageRootInput :=
  if explicitPackageRoots.isEmpty then do return ⟨← rootsFromEnv fs process, false⟩
  else do
    return ⟨← canonicalDirs (canonicalDir fs "--package-root") "--package-root" explicitPackageRoots,
      true⟩

/-- `resolve`. -/
def PackageRoots.resolve (hostRoot : Path) (explicitPackageRoots : List Path) :
    Except String PackageRoots := do
  rejectRemovedPackageRootEnvs process
  let hostRoot ← canonicalDir fs "--project-root" hostRoot
  let input ← packageRootInput fs process explicitPackageRoots
  fromCanonical fs workspaces hostRoot input false

/-! ## Owners -/

namespace PackageRoots

variable (roots : PackageRoots)

/-- The catalogs of which one has a unit for a root, the first of them. -/
def firstWithUnit (canonical : Path) : List WorkspaceCatalog → Except String (Option WorkspaceCatalog)
  | [] => .ok none
  | catalog :: catalogs => do
    if (← catalog.unitNameForRoot fs canonical).isSome then return some catalog
    firstWithUnit canonical catalogs

/-- `catalog_for_canonical_owner_root`. -/
def catalogForCanonicalOwnerRoot (canonical : Path) : Except String (Option WorkspaceCatalog) :=
  match roots.externalPackageCatalogRoots[canonical]? with
  | some workspaceRoot =>
    match roots.externalCatalogs[workspaceRoot]? with
    | some catalog => .ok (some catalog)
    | none => .error ("external package root " ++ display canonical ++ " maps to missing catalog " ++
        display workspaceRoot)
  | none => do
    let catalog ← firstWithUnit fs canonical
      (roots.catalog.toList ++ roots.externalCatalogs.toList.map Prod.snd)
    return catalog.or roots.catalog

/-- `catalog_for_owner_root`. -/
def catalogForOwnerRoot (ownerRoot : Path) : Except String WorkspaceCatalog := do
  let canonical ← fs.canonicalize ownerRoot
  match ← roots.catalogForCanonicalOwnerRoot fs canonical with
  | some catalog => return catalog
  | none => throw ("manifest catalog is required for owner root " ++ display canonical)

/-- `unit_name_for_owner_root`. -/
def unitNameForOwnerRoot (ownerRoot : Path) : Except String (Option String) := do
  let canonical ← fs.canonicalize ownerRoot
  match ← roots.catalogForCanonicalOwnerRoot fs canonical with
  | some catalog => catalog.unitNameForRoot fs canonical
  | none => return none

end PackageRoots

/-! ## The graph of the supervisor -/

/-- `GraphRootKind`. -/
inductive GraphRootKind where
  | package
  | host
  | packageAndHost
deriving DecidableEq

/-- `GraphRoot`. -/
structure GraphRoot where
  root : Path
  kind : GraphRootKind
  nspace : String

/-- `graph_roots`. -/
def PackageRoots.graphRoots (roots : PackageRoots) : List GraphRoot :=
  let packages := (roots.packageRoots.zip roots.packageNamespaces).map fun (root, nspace) =>
    let kind : GraphRootKind :=
      if root = roots.hostRoot then if roots.runHostOwner then .host else .packageAndHost else .package
    ⟨root, kind, nspace⟩
  if roots.hostRoot ∈ packages.map GraphRoot.root then packages
  else packages ++ [⟨roots.hostRoot, .host, hostNamespace⟩]

/-- What the files below a root declare, and the defaults of the host: Lua makes it of the files. -/
structure Declared where
  defaults : PackageRoots → Except String Graph.HostGraphDefaults
  files : GraphRoot → WorkspaceCatalog → String →
    Except String (List Graph.DepartmentFile × List Graph.RaiserFile)

variable (declared : Declared)

/-- A graph root with what is declared below it.  A root that no unit owns has to be that of a host that
declares nothing. -/
def ownedGraphRoot (roots : PackageRoots) (graphRoot : GraphRoot) : Except String Graph.GraphRoot := do
  match ← roots.unitNameForOwnerRoot fs graphRoot.root with
  | some ownerUnit =>
    let catalog ← roots.catalogForOwnerRoot fs graphRoot.root
    let (departments, raisers) ← declared.files graphRoot catalog ownerUnit
    return ⟨display graphRoot.root, graphRoot.nspace, departments, raisers⟩
  | none =>
    let hasOwnGraph : Bool :=
      fs.isDir (graphRoot.root ++ ["departments"]) || fs.isDir (graphRoot.root ++ ["raisers"])
    if graphRoot.kind = .host ∧ hasOwnGraph = false then
      return ⟨display graphRoot.root, graphRoot.nspace, [], []⟩
    else throw ("no manifest unit owns " ++ display graphRoot.root)

/-- `load_roots`. -/
def loadPackageRoots (roots : PackageRoots) : Except String Graph.Config := do
  -- `reject_removed_surfaces`
  roots.graphRoots.forM fun graphRoot =>
    bailIf (fs.isFile (graphRoot.root ++ ["package.lua"]))
      (display (graphRoot.root ++ ["package.lua"]) ++
        " is a removed graph surface; use departments/<dept>/main.lua M.spec.fanout")
  let defaults ← declared.defaults roots
  let graphRoots ← roots.graphRoots.mapM (ownedGraphRoot fs declared roots)
  Graph.loadRoots graphRoots defaults

/-! ## Runs -/

/-- `CATALOG_SNAPSHOT_SCHEMA`. -/
def catalogSnapshotSchema : String := "fkst.package-roots-catalog.v1"

/-- `MAX_CATALOG_SNAPSHOT_BYTES`. -/
def maxCatalogSnapshotBytes : ℕ := 64 * 1024 * 1024

/-- `CatalogSnapshot`. -/
structure CatalogSnapshot where
  schema : String
  roots : PackageRoots

/-- `serde_json`, of snapshots. -/
structure Serde where
  toVec : CatalogSnapshot → Except String (List UInt8)
  fromSlice : List UInt8 → Except String CatalogSnapshot

variable (serde : Serde)

/-- `serialize_catalog_snapshot`. -/
def serializeCatalogSnapshot (roots : PackageRoots) : Except String (List UInt8) :=
  serde.toVec ⟨catalogSnapshotSchema, roots⟩

/-- `validate_snapshot_binding`. -/
def validateSnapshotBinding (roots : PackageRoots) (hostRoot : Path) (packageRoots : List Path) :
    Except String Unit := do
  bailIf (roots.hostRoot ≠ hostRoot ∨ roots.packageRoots ≠ packageRoots)
    "package catalog snapshot roots do not match run arguments"
  let runHostOwner : Bool := packageRoots.length > 1 ∧ hostRoot ∈ packageRoots
  let packageNamespaces ← packageNamespacesOf hostRoot packageRoots runHostOwner
  bailIf (roots.runHostOwner ≠ runHostOwner ∨ roots.packageNamespaces ≠ packageNamespaces)
    "package catalog snapshot namespace binding is invalid"
  packageRoots.forM fun packageRoot => do
    let catalog ← roots.catalogForOwnerRoot fs packageRoot
    bailIf (← catalog.unitNameForRoot fs packageRoot).isNone
      ("package catalog snapshot has no manifest unit for owner root " ++ display packageRoot)

/-- `resolve_run_snapshot`. -/
def resolveRunSnapshot (hostRoot : Path) (explicitPackageRoots : List Path) (bytes : List UInt8) :
    Except String PackageRoots := do
  rejectRemovedPackageRootEnvs process
  bailIf (process.env packageRootsEnv).isSome
    (packageRootsEnv ++ " is not valid for `run`; pass one --package-root")
  bailIf explicitPackageRoots.isEmpty "--catalog-stdin requires at least one --package-root"
  let hostRoot ← canonicalDir fs "--project-root" hostRoot
  let packageRoots ←
    canonicalDirs (canonicalDir fs "--package-root") "--package-root" explicitPackageRoots
  bailIf (bytes.length > maxCatalogSnapshotBytes)
    ("package catalog snapshot exceeds " ++ toString maxCatalogSnapshotBytes ++ " bytes")
  let snapshot ← serde.fromSlice bytes
  bailIf (snapshot.schema ≠ catalogSnapshotSchema)
    ("unsupported package catalog snapshot schema `" ++ snapshot.schema ++ "`")
  validateSnapshotBinding fs snapshot.roots hostRoot packageRoots
  return snapshot.roots

end Resolve

/-! ## What is resolved -/

section Resolved

variable {fs : Fs} {workspaces : Workspaces} {process : Process} {declared : Declared} {serde : Serde}

theorem canonicalDir_canonical {label : String} {path canonical : Path}
    (h : canonicalDir fs label path = .ok canonical) (label' : String) :
    canonicalDir fs label' canonical = .ok canonical := by
  obtain ⟨path', hpath, h⟩ := bind_eq_ok.1 h
  obtain ⟨⟨⟩, hdir, h⟩ := bind_eq_ok.1 h
  obtain ⟨names, hread, h⟩ := bind_eq_ok.1 h
  obtain rfl := Except.ok.inj h
  refine bind_eq_ok.2 ⟨path', fs.canonicalize_canonical hpath, ?_⟩
  refine bind_eq_ok.2 ⟨(), ?_, bind_eq_ok.2 ⟨names, hread, rfl⟩⟩
  rw [bailIf_eq_ok] at hdir ⊢
  exact hdir

/-- Roots that have been made canonical are what is made of them again. -/
theorem canonicalDirs_canonical {α : Type} {canonical : α → Except String Path} {label : String}
    {args : List α} {roots : List Path} (h : canonicalDirs canonical label args = .ok roots)
    (hdir : ∀ arg root, canonical arg = .ok root → ∃ label path, canonicalDir fs label path = .ok root)
    (label' : String) : canonicalDirs (canonicalDir fs label') label' roots = .ok roots := by
  obtain ⟨⟨⟩, hempty, h⟩ := bind_eq_ok.1 h
  obtain ⟨roots', hroots, h⟩ := bind_eq_ok.1 h
  obtain ⟨⟨⟩, hdup, h⟩ := bind_eq_ok.1 h
  obtain rfl := Except.ok.inj h
  have hlen := (mapM_eq_ok.1 hroots).length_eq
  have hfixed : roots'.mapM (canonicalDir fs label') = .ok roots' := by
    rw [mapM_eq_ok, List.forall₂_same]
    intro root hroot
    obtain ⟨arg, _, harg⟩ := (mem_of_mapM_eq_ok hroots).1 hroot
    obtain ⟨_, _, hdir⟩ := hdir arg root harg
    exact canonicalDir_canonical hdir label'
  refine bind_eq_ok.2 ⟨(), ?_, bind_eq_ok.2 ⟨roots', hfixed, bind_eq_ok.2 ⟨(), hdup, rfl⟩⟩⟩
  rw [bailIf_eq_ok, List.isEmpty_iff_length_eq_zero] at hempty ⊢
  omega

theorem canonicalDirText_eq {label text : String} {root : Path}
    (h : canonicalDirText fs process label text = .ok root) :
    canonicalDir fs label (join process.cwd text) = .ok root := by
  obtain ⟨⟨⟩, _, h⟩ := bind_eq_ok.1 h
  exact h

/-- The package roots come out of the arguments or of the environment as directories, each once. -/
theorem packageRootInput_canonical {explicitPackageRoots : List Path} {input : PackageRootInput}
    (h : packageRootInput fs process explicitPackageRoots = .ok input) (label : String) :
    canonicalDirs (canonicalDir fs label) label input.roots = .ok input.roots := by
  rw [packageRootInput] at h
  split_ifs at h
  · obtain ⟨roots, hroots, h⟩ := bind_eq_ok.1 h
    obtain rfl := Except.ok.inj h
    rw [rootsFromEnv] at hroots
    split at hroots
    · cases hroots
    · obtain ⟨⟨⟩, _, hroots⟩ := bind_eq_ok.1 hroots
      obtain ⟨⟨⟩, _, hroots⟩ := bind_eq_ok.1 hroots
      exact canonicalDirs_canonical hroots (fun _ _ htext => ⟨_, _, canonicalDirText_eq htext⟩) label
    · obtain ⟨⟨⟩, _, hroots⟩ := bind_eq_ok.1 hroots
      obtain ⟨root, hroot, hroots⟩ := bind_eq_ok.1 hroots
      obtain rfl := Except.ok.inj hroots
      have hroot' := canonicalDir_canonical (canonicalDirText_eq hroot) label
      refine bind_eq_ok.2 ⟨(), rfl, bind_eq_ok.2 ⟨[root], ?_, rfl⟩⟩
      rw [mapM_eq_ok]
      exact .cons hroot' .nil
    · cases hroots
  · obtain ⟨roots, hroots, h⟩ := bind_eq_ok.1 h
    obtain rfl := Except.ok.inj h
    exact canonicalDirs_canonical hroots (fun _ _ hdir => ⟨_, _, hdir⟩) label

/-- **What the supervisor has resolved.** -/
structure Resolved (fs : Fs) (process : Process) (roots : PackageRoots) : Prop where
  envs : rejectRemovedPackageRootEnvs process = .ok ()
  host : canonicalDir fs "--project-root" roots.hostRoot = .ok roots.hostRoot
  packages : canonicalDirs (canonicalDir fs "--package-root") "--package-root" roots.packageRoots =
    .ok roots.packageRoots
  namespaces : packageNamespacesOf roots.hostRoot roots.packageRoots false = .ok roots.packageNamespaces
  notOwner : roots.runHostOwner = false

theorem resolved_of_resolve {hostRoot : Path} {explicitPackageRoots : List Path} {roots : PackageRoots}
    (h : PackageRoots.resolve fs workspaces process hostRoot explicitPackageRoots = .ok roots) :
    Resolved fs process roots := by
  obtain ⟨⟨⟩, henvs, h⟩ := bind_eq_ok.1 h
  obtain ⟨host, hhost, h⟩ := bind_eq_ok.1 h
  obtain ⟨input, hinput, h⟩ := bind_eq_ok.1 h
  obtain ⟨⟨⟩, _, h⟩ := bind_eq_ok.1 h
  obtain ⟨namespaces, hnamespaces, h⟩ := bind_eq_ok.1 h
  obtain ⟨⟨⟩, _, h⟩ := bind_eq_ok.1 h
  obtain ⟨catalog, _, h⟩ := bind_eq_ok.1 h
  obtain ⟨externals, _, h⟩ := bind_eq_ok.1 h
  obtain rfl := Except.ok.inj h
  exact ⟨henvs, canonicalDir_canonical hhost _, packageRootInput_canonical hinput _, hnamespaces, rfl⟩

theorem length_of_addPackageNamespaces {hostRoot : Path} {runHostOwner : Bool} :
    ∀ {roots : List Path} {namespaces namespaces' : List String},
      roots.foldlM (addPackageNamespace hostRoot runHostOwner) namespaces = .ok namespaces' →
      namespaces'.length = namespaces.length + roots.length
  | [], namespaces, namespaces', h => by
    obtain rfl := Except.ok.inj h
    rfl
  | root :: roots, namespaces, namespaces', h => by
    rw [List.foldlM_cons] at h
    obtain ⟨next, hnext, h⟩ := bind_eq_ok.1 h
    obtain ⟨nspace, _, hnext⟩ := bind_eq_ok.1 hnext
    obtain ⟨⟨⟩, _, hnext⟩ := bind_eq_ok.1 hnext
    obtain rfl := Except.ok.inj hnext
    rw [length_of_addPackageNamespaces h, List.length_append, List.length_cons, List.length_cons, List.length_nil]
    omega

/-- Every package root is a graph root that is not only the host. -/
theorem Resolved.exists_graphRoot {roots : PackageRoots} (h : Resolved fs process roots) {root : Path}
    (hroot : root ∈ roots.packageRoots) :
    ∃ graphRoot ∈ roots.graphRoots, graphRoot.root = root ∧ graphRoot.kind ≠ .host := by
  have hlen := length_of_addPackageNamespaces h.namespaces
  obtain ⟨i, hi, rfl⟩ := List.getElem_of_mem hroot
  have hi' : i < roots.packageNamespaces.length := by
    rw [hlen, List.length_nil, Nat.zero_add]
    exact hi
  have hzip : (roots.packageRoots[i], roots.packageNamespaces[i]) ∈
      roots.packageRoots.zip roots.packageNamespaces := by
    rw [← List.getElem_zip (h := by rw [List.length_zip]; omega)]
    exact List.getElem_mem _
  refine ⟨⟨roots.packageRoots[i], if roots.packageRoots[i] = roots.hostRoot then .packageAndHost
    else .package, roots.packageNamespaces[i]⟩, ?_, rfl, ?_⟩
  · have hmem : ∀ l l' : List GraphRoot, ∀ graphRoot, graphRoot ∈ l →
        graphRoot ∈ if roots.hostRoot ∈ l.map GraphRoot.root then l else l ++ l' := by
      intro l l' graphRoot hmem
      split_ifs
      · exact hmem
      · exact List.mem_append_left _ hmem
    refine hmem _ _ _ (List.mem_map.2 ⟨_, hzip, ?_⟩)
    simp [h.notOwner]
  · dsimp only
    split_ifs <;> exact GraphRootKind.noConfusion

/-- **A graph that is scanned has a unit for every package root.** -/
theorem Resolved.exists_unit {roots : PackageRoots} (h : Resolved fs process roots) {cfg : Graph.Config}
    (hload : loadPackageRoots fs declared roots = .ok cfg) {root : Path}
    (hroot : root ∈ roots.packageRoots) :
    ∃ unit, roots.unitNameForOwnerRoot fs root = .ok (some unit) := by
  obtain ⟨graphRoot, hmem, rfl, hkind⟩ := h.exists_graphRoot hroot
  obtain ⟨⟨⟩, _, hload⟩ := bind_eq_ok.1 hload
  obtain ⟨defaults, _, hload⟩ := bind_eq_ok.1 hload
  obtain ⟨graphRoots, hroots, _⟩ := bind_eq_ok.1 hload
  obtain ⟨owned, howned⟩ := exists_of_mapM_eq_ok hroots hmem
  obtain ⟨unit, hunit, howned⟩ := bind_eq_ok.1 howned
  cases unit with
  | some unit => exact ⟨unit, hunit⟩
  | none =>
    dsimp only at howned
    rw [if_neg fun h => hkind h.1] at howned
    cases howned

/-! ## The hand-off -/

/-- A run takes over what the supervisor has resolved: the roots with their namespaces, and for every
owner root the catalog and the name of its unit. -/
def HandsOff (fs : Fs) (process : Process) (serde : Serde) (roots : PackageRoots) (bytes : List UInt8) :
    Prop :=
  ∃ run, resolveRunSnapshot fs process serde roots.hostRoot roots.packageRoots bytes = .ok run ∧
    run.packageRoots = roots.packageRoots ∧ run.packageNamespaces = roots.packageNamespaces ∧
    ∀ ownerRoot, run.catalogForOwnerRoot fs ownerRoot = roots.catalogForOwnerRoot fs ownerRoot ∧
      run.unitNameForOwnerRoot fs ownerRoot = roots.unitNameForOwnerRoot fs ownerRoot

/-- The host is one of several packages. -/
def PackageRoots.HostAmongOthers (roots : PackageRoots) : Prop :=
  1 < roots.packageRoots.length ∧ roots.hostRoot ∈ roots.packageRoots

instance (roots : PackageRoots) : Decidable roots.HostAmongOthers := inferInstanceAs (Decidable (_ ∧ _))

theorem catalogForOwnerRoot_of_unit {roots : PackageRoots} {root : Path} {unit : String}
    (hroot : fs.canonicalize root = .ok root)
    (h : roots.unitNameForOwnerRoot fs root = .ok (some unit)) :
    ∃ catalog, roots.catalogForOwnerRoot fs root = .ok catalog ∧
      catalog.unitNameForRoot fs root = .ok (some unit) := by
  obtain ⟨canonical, hcanonical, h⟩ := bind_eq_ok.1 h
  obtain rfl : root = canonical := Except.ok.inj (hroot.symm.trans hcanonical)
  obtain ⟨catalog, hcatalog, h⟩ := bind_eq_ok.1 h
  cases catalog with
  | none => cases h
  | some catalog =>
    exact ⟨catalog, bind_eq_ok.2 ⟨root, hroot, bind_eq_ok.2 ⟨some catalog, hcatalog, rfl⟩⟩, h⟩

/-- A package root is canonical. -/
theorem Resolved.canonical {roots : PackageRoots} (h : Resolved fs process roots) {root : Path}
    (hroot : root ∈ roots.packageRoots) : fs.canonicalize root = .ok root := by
  obtain ⟨⟨⟩, _, hpackages⟩ := bind_eq_ok.1 h.packages
  obtain ⟨roots', hroots, hpackages⟩ := bind_eq_ok.1 hpackages
  obtain ⟨⟨⟩, _, hpackages⟩ := bind_eq_ok.1 hpackages
  have hsame : roots' = roots.packageRoots := Except.ok.inj hpackages
  rw [← hsame] at hroot
  obtain ⟨path, _, hpath⟩ := (mem_of_mapM_eq_ok hroots).1 hroot
  obtain ⟨canonical, hcanonical, hpath⟩ := bind_eq_ok.1 hpath
  obtain ⟨⟨⟩, _, hpath⟩ := bind_eq_ok.1 hpath
  obtain ⟨_, _, hpath⟩ := bind_eq_ok.1 hpath
  obtain rfl := Except.ok.inj hpath
  exact fs.canonicalize_canonical hcanonical

/-- The snapshot binds to the arguments if the host is not one of several packages. -/
theorem Resolved.validateSnapshotBinding_iff {roots : PackageRoots} (h : Resolved fs process roots)
    {cfg : Graph.Config} (hload : loadPackageRoots fs declared roots = .ok cfg) :
    validateSnapshotBinding fs roots roots.hostRoot roots.packageRoots = .ok () ↔
      ¬roots.HostAmongOthers := by
  constructor
  · intro hvalid hothers
    obtain ⟨⟨⟩, _, hvalid⟩ := bind_eq_ok.1 hvalid
    obtain ⟨namespaces, _, hvalid⟩ := bind_eq_ok.1 hvalid
    obtain ⟨⟨⟩, hbinding, _⟩ := bind_eq_ok.1 hvalid
    rw [bailIf_eq_ok] at hbinding
    refine hbinding (.inl ?_)
    rw [h.notOwner]
    exact (decide_eq_true hothers).symm ▸ Bool.false_ne_true
  · intro hothers
    have howner : decide (roots.packageRoots.length > 1 ∧ roots.hostRoot ∈ roots.packageRoots) = false :=
      decide_eq_false hothers
    refine bind_eq_ok.2 ⟨(), bailIf_eq_ok.2 (by simp), ?_⟩
    dsimp only
    rw [howner]
    refine bind_eq_ok.2 ⟨_, h.namespaces, bind_eq_ok.2 ⟨(), bailIf_eq_ok.2 ?_, ?_⟩⟩
    · rintro (hne | hne)
      · exact hne h.notOwner
      · exact hne rfl
    · refine forM_eq_ok.2 fun root hroot => ?_
      obtain ⟨unit, hunit⟩ := h.exists_unit hload hroot
      have hcanonical := h.canonical hroot
      obtain ⟨catalog, hcatalog, hname⟩ := catalogForOwnerRoot_of_unit hcanonical hunit
      exact bind_eq_ok.2 ⟨catalog, hcatalog, bind_eq_ok.2 ⟨some unit, hname, bailIf_eq_ok.2 (by simp)⟩⟩

/-- A run takes over what is resolved if the variable is not set and the snapshot binds. -/
theorem Resolved.handsOff_iff_binding {roots : PackageRoots} (h : Resolved fs process roots)
    {bytes : List UInt8} (hround : serde.fromSlice bytes = .ok ⟨catalogSnapshotSchema, roots⟩)
    (hsize : bytes.length ≤ maxCatalogSnapshotBytes) :
    HandsOff fs process serde roots bytes ↔ process.env packageRootsEnv = none ∧
      validateSnapshotBinding fs roots roots.hostRoot roots.packageRoots = .ok () := by
  constructor
  · rintro ⟨run, hrun, -⟩
    obtain ⟨⟨⟩, _, hrun⟩ := bind_eq_ok.1 hrun
    obtain ⟨⟨⟩, henv, hrun⟩ := bind_eq_ok.1 hrun
    obtain ⟨⟨⟩, _, hrun⟩ := bind_eq_ok.1 hrun
    obtain ⟨host, hhost, hrun⟩ := bind_eq_ok.1 hrun
    obtain ⟨packages, hpackages, hrun⟩ := bind_eq_ok.1 hrun
    obtain ⟨⟨⟩, _, hrun⟩ := bind_eq_ok.1 hrun
    obtain ⟨snapshot, hsnapshot, hrun⟩ := bind_eq_ok.1 hrun
    obtain ⟨⟨⟩, _, hrun⟩ := bind_eq_ok.1 hrun
    obtain ⟨⟨⟩, hbinding, _⟩ := bind_eq_ok.1 hrun
    obtain rfl := Except.ok.inj (h.host.symm.trans hhost)
    obtain rfl := Except.ok.inj (h.packages.symm.trans hpackages)
    obtain rfl := Except.ok.inj (hround.symm.trans hsnapshot)
    rw [bailIf_eq_ok, Bool.not_eq_true, Option.isSome_eq_false_iff, Option.isNone_iff_eq_none] at henv
    exact ⟨henv, hbinding⟩
  · rintro ⟨henv, hbinding⟩
    refine ⟨roots, ?_, rfl, rfl, fun _ => ⟨rfl, rfl⟩⟩
    obtain ⟨⟨⟩, hempty, _⟩ := bind_eq_ok.1 h.packages
    refine bind_eq_ok.2 ⟨(), h.envs, bind_eq_ok.2 ⟨(), bailIf_eq_ok.2 (by simp [henv]), ?_⟩⟩
    refine bind_eq_ok.2 ⟨(), bailIf_eq_ok.2 (bailIf_eq_ok.1 hempty), ?_⟩
    refine bind_eq_ok.2 ⟨_, h.host, bind_eq_ok.2 ⟨_, h.packages, ?_⟩⟩
    refine bind_eq_ok.2 ⟨(), bailIf_eq_ok.2 (not_lt.2 hsize), bind_eq_ok.2 ⟨_, hround, ?_⟩⟩
    exact bind_eq_ok.2 ⟨(), bailIf_eq_ok.2 (fun h => h rfl), bind_eq_ok.2 ⟨(), hbinding, rfl⟩⟩

/-- **When a run takes over what the supervisor has resolved**: if the variable is not set from which
the supervisor may take several roots, and the host is not one of several packages.  The snapshot is
read back as it was written (`hround`), and is not too long. -/
theorem handsOff_iff {hostRoot : Path} {explicitPackageRoots : List Path} {roots : PackageRoots}
    {cfg : Graph.Config} {bytes : List UInt8}
    (hresolve : PackageRoots.resolve fs workspaces process hostRoot explicitPackageRoots = .ok roots)
    (hload : loadPackageRoots fs declared roots = .ok cfg)
    (hbytes : serializeCatalogSnapshot serde roots = .ok bytes)
    (hround : ∀ bytes, serializeCatalogSnapshot serde roots = .ok bytes →
      serde.fromSlice bytes = .ok ⟨catalogSnapshotSchema, roots⟩)
    (hsize : bytes.length ≤ maxCatalogSnapshotBytes) :
    HandsOff fs process serde roots bytes ↔
      process.env packageRootsEnv = none ∧ ¬roots.HostAmongOthers := by
  have hresolved := resolved_of_resolve hresolve
  rw [hresolved.handsOff_iff_binding (hround bytes hbytes) hsize,
    hresolved.validateSnapshotBinding_iff hload]

end Resolved

/-! ## A shop with a cart -/

/-- A file system of directories only. -/
def shopFs : Fs where
  canonicalize path := .ok path
  isDir _ := true
  isFile _ := false
  pathExists _ := true
  readDir _ := .ok []
  symlinkMetadata _ := .ok .dir
  readToString _ := .error "is a directory"
  tree _ := .ok .nil
  canonicalize_canonical := @canonicalize_ok

/-- A package of the shop. -/
def shopUnit (name : String) (root : Path) : CatalogUnit where
  catalogName := name
  unitRoot := root
  codeRoot := root
  manifest := { kind := .package .flat, name := name, codeRoot := ".", exports := {} }

/-- The catalog of the shop: the shop is a unit itself. -/
def shopCatalog : WorkspaceCatalog where
  workspaceRoot := ["srv", "shop"]
  externalSources := []
  catalog :=
    { units := Std.ExtTreeMap.ofList
        [("shop", shopUnit "shop" ["srv", "shop"]), ("cart", shopUnit "cart" ["srv", "shop", "cart"])]
      libraryUnits := ∅
      deniedExternalLibraries := ∅
      scans := ∅
      indexes := ∅ }

/-- The workspace of the shop. -/
def shopWorkspaces : Workspaces where
  discover _ := .ok (some shopCatalog)
  discoverWorkspaceRoot _ := .ok (some ["srv", "shop"])
  discoverExcludingRoots _ _ _ := .ok (some shopCatalog)
  localSourceRoots _ _ _ := .ok []
  validateLockedLocalPackageSources _ _ := .ok ()

/-- A process without variables. -/
def shopProcess : Process := ⟨fun _ => none, ["srv"]⟩

/-- A shop that declares nothing. -/
def shopDeclared : Declared where
  defaults _ := .ok ⟨64, "10m", 4, ⟨5, "1s", "1m"⟩⟩
  files _ _ _ := .ok ([], [])

/-- What is resolved of packages of the shop. -/
def shopRoots (packageRoots : List Path) (namespaces : List String) : PackageRoots :=
  ⟨packageRoots, ["srv", "shop"], namespaces, false, some shopCatalog, ∅, ∅⟩

theorem resolve_cart : PackageRoots.resolve shopFs shopWorkspaces shopProcess ["srv", "shop"]
    [["srv", "shop", "cart"]] = .ok (shopRoots [["srv", "shop", "cart"]] ["cart"]) := by
  rfl

theorem resolve_shop_and_cart : PackageRoots.resolve shopFs shopWorkspaces shopProcess ["srv", "shop"]
    [["srv", "shop"], ["srv", "shop", "cart"]] =
      .ok (shopRoots [["srv", "shop"], ["srv", "shop", "cart"]] ["shop", "cart"]) := by
  rfl

/-- A text in quotes. -/
def quoted (text : String) : String := "\"" ++ text ++ "\""

/-- The text of a snapshot, up to its catalogs. -/
def snapshotText (snapshot : CatalogSnapshot) : String :=
  "\x7b\"schema\":" ++ quoted snapshot.schema ++ ",\"roots\":\x7b\"package_roots\":[" ++
    ",".intercalate (snapshot.roots.packageRoots.map fun root => quoted (display root)) ++
    "],\"host_root\":" ++ quoted (display snapshot.roots.hostRoot) ++ ",\"package_namespaces\":[" ++
    ",".intercalate (snapshot.roots.packageNamespaces.map quoted) ++ "]\x7d\x7d"

/-- A serialization of the snapshots of some roots. -/
def shopSerde (roots : PackageRoots) : Serde where
  toVec snapshot := .ok (Lib.Utf8.encode (snapshotText snapshot).toList)
  fromSlice _ := .ok ⟨catalogSnapshotSchema, roots⟩

theorem handsOff_iff_cart : ∃ roots bytes,
    HandsOff shopFs shopProcess (shopSerde roots) roots bytes := by
  obtain ⟨cfg, hload⟩ : ∃ cfg, loadPackageRoots shopFs shopDeclared
      (shopRoots [["srv", "shop", "cart"]] ["cart"]) = .ok cfg := ⟨_, rfl⟩
  have hwritten : serializeCatalogSnapshot (shopSerde (shopRoots [["srv", "shop", "cart"]] ["cart"]))
      (shopRoots [["srv", "shop", "cart"]] ["cart"]) = .ok _ := rfl
  exact ⟨_, _, (handsOff_iff resolve_cart hload hwritten (fun _ _ => rfl) (by decide +kernel)).2
    ⟨rfl, by decide⟩⟩

/-- The host as one of two packages: the graph is scanned, and no run of it starts. -/
theorem not_handsOff_shop_and_cart : ∃ roots cfg bytes,
    PackageRoots.resolve shopFs shopWorkspaces shopProcess ["srv", "shop"]
      [["srv", "shop"], ["srv", "shop", "cart"]] = .ok roots ∧
    loadPackageRoots shopFs shopDeclared roots = .ok cfg ∧
    serializeCatalogSnapshot (shopSerde roots) roots = .ok bytes ∧
    bytes.length ≤ maxCatalogSnapshotBytes ∧
    ¬HandsOff shopFs shopProcess (shopSerde roots) roots bytes := by
  refine ⟨_, _, _, resolve_shop_and_cart, rfl, rfl, by decide +kernel, fun h => ?_⟩
  rw [(resolved_of_resolve resolve_shop_and_cart).handsOff_iff_binding rfl (by decide +kernel)] at h
  cases h.2

end Fkst.Manifest
