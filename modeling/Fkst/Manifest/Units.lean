import Fkst.Lib.Checks
import Fkst.Manifest.TreeHash

/-!
# Units of a workspace

A workspace lists its units by patterns, and every unit has a manifest.  `discoverUnitRoots` walks the
patterns; what the file system answers on the way (`Fs`) and what the TOML parser makes of a file
(`Toml`) is given.

A path is the list of its components, and a component is text.  The path of a unit below the root of
its workspace is written down as a text with slashes (`unitText`), and read back with `join`:
`join_unitText` says when the same path comes out.
-/

set_option autoImplicit false

namespace Fkst.Manifest

/-! ## Files -/

/-- A path. -/
abbrev Path := List String

instance : LawfulBEq Path := inferInstance

/-- What `symlink_metadata` says. -/
inductive FileType where
  | dir
  | symlink
  | file
  | other
deriving DecidableEq

/-- A file system that does not change. -/
structure Fs where
  canonicalize : Path → Except String Path
  isDir : Path → Bool
  isFile : Path → Bool
  pathExists : Path → Bool
  readDir : Path → Except String (List String)
  symlinkMetadata : Path → Except String FileType
  readToString : Path → Except String String
  /-- All that `collect_hash_files` reads below a directory. -/
  tree : Path → Except String Entries
  canonicalize_canonical : ∀ {p q : Path}, canonicalize p = .ok q → canonicalize q = .ok q

/-- Where every path is canonical. -/
theorem canonicalize_ok {p q : Path} (_ : (Except.ok p : Except String Path) = .ok q) :
    (Except.ok q : Except String Path) = .ok q := rfl

/-- `Path::join` with a text. -/
def join (base : Path) (text : String) : Path :=
  let parts := ((text.toList.splitOn '/').map String.ofList).filter fun part => part ≠ "" ∧ part ≠ "."
  if text.toList.head? = some '/' then parts else base ++ parts

/-- `Path::strip_prefix`. -/
def stripPrefix (path root : Path) : Option Path := root.isPrefixOf? path

/-- A path below a root, as a text with slashes. -/
def unitText (path : Path) : String := String.ofList (relativeText path)

/-! ## Manifests -/

/-- `PackageKind`. -/
inductive PackageKind where
  | flat
  | composed
deriving DecidableEq

/-- `UnitKind`. -/
inductive UnitKind where
  | package (kind : PackageKind)
  | library
deriving DecidableEq

/-- `LibraryMeta`, as far as it is read here. -/
structure LibraryMeta where
  name : String
  publishable : Bool := false
deriving DecidableEq

/-- `Visibility`: a library may be used by all units or by some. -/
inductive Visibility where
  | everyone
  | allow (units : List String)
deriving DecidableEq

/-- `Exports`. -/
structure Exports where
  publicModules : List String := []
  exact : Bool := false
deriving DecidableEq

/-- `UnitManifest`, as far as it is read here. -/
structure UnitManifest where
  kind : UnitKind
  name : String
  codeRoot : String
  library : Option LibraryMeta := none
  libDeps : List String := []
  visibility : Visibility := .everyone
  exports : Exports := {}
deriving DecidableEq

/-- The name of a library: that of its section, or that of the unit. -/
def UnitManifest.libraryName (manifest : UnitManifest) : String :=
  match manifest.library with
  | some library => library.name
  | none => manifest.name

/-- `WorkspaceToml`. -/
structure WorkspaceToml where
  units : List String := []
  packages : List String := []
  libraries : List String := []

/-- `discovered_units` of a workspace. -/
def WorkspaceToml.discoveredUnits (workspace : WorkspaceToml) : List String :=
  workspace.units ++ workspace.packages ++ workspace.libraries

/-- What is made of the text of a manifest. -/
structure Toml where
  workspace : String → Except String WorkspaceToml
  unit : String → Except String UnitManifest

section Discover

variable (fs : Fs) (toml : Toml)

/-- `WorkspaceManifest::parse_file` at the root of a workspace. -/
def parseWorkspace (root : Path) : Except String WorkspaceToml := do
  let raw ← fs.readToString (root ++ ["fkst.workspace.toml"])
  toml.workspace raw

/-- `UnitManifest::parse_file` at the root of a unit. -/
def parseUnit (root : Path) : Except String UnitManifest := do
  let raw ← fs.readToString (root ++ ["fkst.toml"])
  toml.unit raw

/-- `collect_glob_inner`: the roots of the units below `base`. -/
def collectGlobInner (workspaceRoot base : Path) : List String → Except String (List Path)
  | [] =>
    if fs.pathExists (base ++ ["fkst.toml"]) then do
      let root ← fs.canonicalize base
      return [root]
    else .error "workspace unit is missing fkst.toml"
  | segment :: rest =>
    if base ≠ workspaceRoot ∧ fs.pathExists (base ++ ["fkst.workspace.toml"]) then .ok []
    else if segment = "*" then do
      let names ← fs.readDir base
      let roots ← (names.insertionSort (· ≤ ·)).mapM fun name => do
        match ← fs.symlinkMetadata (base ++ [name]) with
        | .dir => collectGlobInner workspaceRoot (base ++ [name]) rest
        | _ => return []
      return roots.flatten
    else if '*' ∈ segment.toList then
      .error ("workspace unit pattern segment `" ++ segment ++ "` only supports bare `*` globs")
    else do
      match ← fs.symlinkMetadata (join base segment) with
      | .dir => collectGlobInner workspaceRoot (join base segment) rest
      | _ => .error "workspace unit path is not a real directory"

/-- `collect_glob`. -/
def collectGlob (workspaceRoot : Path) (pattern : String) : Except String (List Path) :=
  if pattern.toList.isEmpty ∨ pattern.toList.head? = some '/' then
    .error ("workspace unit pattern `" ++ pattern ++ "` must be a relative path")
  else
    let segments := (pattern.toList.splitOn '/').map String.ofList
    if ".." ∈ segments then
      .error ("workspace unit pattern `" ++ pattern ++ "` must not contain `..`")
    else collectGlobInner fs workspaceRoot workspaceRoot segments

/-- `discover_unit_roots`: each root once, in the order of the paths. -/
def discoverUnitRoots (workspaceRoot : Path) (patterns : List String) : Except String (List Path) := do
  let roots ← patterns.mapM (collectGlob fs workspaceRoot)
  return roots.flatten.dedup.insertionSort (· ≤ ·)

/-- The roots of the units of a workspace. -/
def unitRootsOf (root : Path) : Except String (List Path) := do
  let workspace ← parseWorkspace fs toml root
  discoverUnitRoots fs root workspace.discoveredUnits

end Discover

/-! ## Texts of paths -/

/-- A component that stands in the text of a path as it is. -/
def IsPlain (name : String) : Prop := '/' ∉ name.toList ∧ '\\' ∉ name.toList ∧ name ≠ "" ∧ name ≠ "."

theorem toList_unitText {path : Path} (h : ∀ name ∈ path, IsPlain name) :
    (unitText path).toList = ['/'].intercalate (path.map String.toList) := by
  rw [unitText, relativeText, Router.joinSegments, String.toList_ofList, String.toList_ofList]
  refine (List.map_congr_left fun c hc => if_neg ?_).trans (List.map_id _)
  rintro rfl
  rcases Lib.Text.mem_intercalate hc with hslash | ⟨l, hl, hmem⟩
  · exact absurd hslash (by decide)
  · obtain ⟨name, hname, rfl⟩ := List.mem_map.1 hl
    exact (h name hname).2.1 hmem

/-- **The text of a path leads back to it** if no component has a slash or a backslash in it. -/
theorem join_unitText {root path : Path} (h : ∀ name ∈ path, IsPlain name) :
    join root (unitText path) = root ++ path := by
  rw [join, toList_unitText h]
  cases path with
  | nil => simp [List.intercalate]
  | cons name path =>
    have hsplit : (['/'].intercalate ((name :: path).map String.toList)).splitOn '/' =
        (name :: path).map String.toList := by
      refine List.splitOn_intercalate '/' (fun l hl => ?_) (by simp)
      obtain ⟨n, hn, rfl⟩ := List.mem_map.1 hl
      exact (h n hn).1
    have hparts : (((name :: path).map String.toList).map String.ofList).filter
        (fun part => part ≠ "" ∧ part ≠ ".") = name :: path := by
      rw [List.map_map, show String.ofList ∘ String.toList = id from funext fun s => by simp,
        List.map_id, List.filter_eq_self]
      intro n hn
      simpa using (h n hn).2.2
    have hhead : (['/'].intercalate ((name :: path).map String.toList)).head? ≠ some '/' := by
      obtain ⟨hslash, _, hne, _⟩ := h name List.mem_cons_self
      cases hname : name.toList with
      | nil => exact absurd (String.toList_eq_nil_iff.1 hname) hne
      | cons c cs =>
        rw [List.map_cons, hname, List.intercalate_cons_cons_left, List.head?_cons]
        rintro ⟨⟩
        exact hslash (hname ▸ List.mem_cons_self)
    simp only [hsplit, hparts, if_neg hhead]

end Fkst.Manifest
