import Fkst.Lib.Distinct
import Fkst.Manifest.External

/-!
# Modules of a unit

`manifest_modules.rs`: the modules of a unit are the Lua files below its code root.  A library has its
public modules in `public` and its private ones in `private`, or it has neither directory and all its
files are public; the public ones are named after the library.

The scan is a walk over the tree that puts every file into a table and fails if a name comes twice.
`scanOwnModules_spec` says what is in the tables when it has not failed: a name and a path are there
if and only if the tree has such a file at the end of real directories, links not followed.
-/

set_option autoImplicit false

namespace Fkst.Manifest

open Lib
open Lib.Checks (bind_eq_ok bailIf bailIf_eq_ok forM_eq_ok)

/-- `ModulePaths`. -/
abbrev ModulePaths := Table String Path

/-- `Path::display`, of an absolute path. -/
def display (path : Path) : String :=
  "/" ++ String.ofList (['/'].intercalate (path.map String.toList))

/-! ## File names -/

/-- `Path::file_stem` and `Path::extension` of a name: it is cut at the last dot, unless that is the
first character. -/
def splitExtension (name : String) : String × Option String :=
  if name = ".." then (name, none)
  else
    match Text.splitOnce '.' name.toList.reverse with
    | none => (name, none)
    | some (extension, stem) =>
      if stem = [] then (name, none)
      else (String.ofList stem.reverse, some (String.ofList extension.reverse))

example : splitExtension "a.b.lua" = ("a.b", some "lua") := by decide

example : splitExtension ".lua" = (".lua", none) := by decide

/-- A name of a Lua file. -/
def isLuaName (name : String) : Bool := (splitExtension name).2 == some "lua"

/-! ## Walking a tree -/

/-- `sort_by_key` on the paths of the entries of one directory. -/
def inNameOrder {α : Type} (entries : List (String × α)) : List (String × α) :=
  entries.insertionSort fun a b => a.1 ≤ b.1

mutual

/-- The Lua files that a name in a directory leads to, with their paths below the root. -/
def Node.luaFiles (dirs : Path) (name : String) : Node → List Path
  | .file _ => if isLuaName name then [dirs ++ [name]] else []
  | .symlink _ => []
  | .dir entries => (inNameOrder (entries.luaFiles (dirs ++ [name]))).flatMap Prod.snd
  | .other => []

/-- Those of each entry of a directory. -/
def Entries.luaFiles (dirs : Path) : Entries → List (String × List Path)
  | .nil => []
  | .cons name node rest => (name, node.luaFiles dirs name) :: rest.luaFiles dirs

end

/-- The files in the order in which `scan_lua_modules_inner` comes to them. -/
def Entries.allLuaFiles (entries : Entries) : List Path :=
  (inNameOrder (entries.luaFiles [])).flatMap Prod.snd

/-- The segments of the logical name of a file. -/
def moduleSegments (allowRootInit : Bool) (root relative : Path) : Except String (Option Path) :=
  match relative.getLast? with
  | none => .error ("empty module path " ++ display (root ++ relative))
  | some last =>
    let dirs := relative.dropLast
    if last = "init.lua" then
      if dirs.isEmpty then
        if allowRootInit then .ok none
        else .error ("root init.lua has no logical module name: " ++ display (root ++ relative))
      else .ok (some dirs)
    else .ok (some (dirs ++ [(splitExtension last).1]))

/-- `logical_module_name`. -/
def logicalModuleName (allowRootInit : Bool) (root relative : Path) : Except String String := do
  match ← moduleSegments allowRootInit root relative with
  | none => return ""
  | some segments =>
    bailIf ("" ∈ segments) ("empty module segment in " ++ display (root ++ relative))
    return String.ofList (['.'].intercalate (segments.map String.toList))

/-- What `insert_path_entry` says of a name that comes twice. -/
def duplicateModule (context logical : String) (previous path : Path) : String :=
  context ++ " has duplicate logical module `" ++ logical ++ "` at " ++ display previous ++ " and " ++
    display path

/-- `scan_lua_modules` and `scan_lua_modules_allow_root_init`.  The root is canonical and no links are
followed, so the path of a file is canonical too. -/
def scanLuaModules (allowRootInit : Bool) (root : Path) (entries : Entries) : Except String ModulePaths :=
  Table.fillNew (duplicateModule ("module root " ++ display root))
    (fun relative => do
      let logical ← logicalModuleName allowRootInit root relative
      return (logical, root ++ relative))
    ∅ entries.allLuaFiles

/-! ## Exports -/

/-- `export_pattern_matches`. -/
def exportPatternMatches (pattern module : String) : Bool :=
  let text := pattern.toList
  if ".*".toList.isSuffixOf text then
    let stem := text.take (text.length - 2)
    module.toList == stem || (stem ++ ['.']).isPrefixOf module.toList
  else pattern == module

/-- `validate_public_export_patterns`. -/
def validatePublicExportPatterns (libraryName : String) (patterns : List String)
    (publicModules : ModulePaths) : Except String Unit :=
  patterns.forM fun pattern =>
    bailIf (publicModules.toList.all fun entry => !exportPatternMatches pattern entry.1)
      ("library `" ++ libraryName ++ "` export pattern `" ++ pattern ++ "` matches no public modules")

/-- The loop over the declared modules of `validate_exact_public_exports`. -/
def declaredOnce (libraryName : String) : List String → List String → Except String Unit
  | _, [] => .ok ()
  | seen, module :: rest => do
    bailIf (module ∈ seen) ("library `" ++ libraryName ++
      "` exact exports declare duplicate public module `" ++ module ++ "`")
    declaredOnce libraryName (module :: seen) rest

/-- `validate_exact_public_exports`.  The sets are walked in order. -/
def validateExactPublicExports (libraryName : String) (declared : List String)
    (publicModules : ModulePaths) : Except String Unit := do
  declaredOnce libraryName [] declared
  let actual := publicModules.toList.map Prod.fst
  match (declared.insertionSort (· ≤ ·)).find? fun module => module ∉ actual with
  | some module => throw ("library `" ++ libraryName ++
      "` exact exports declare missing public module `" ++ module ++ "`")
  | none =>
    match actual.find? fun module => module ∉ declared with
    | some module => throw ("library `" ++ libraryName ++ "` exact exports omit public module `" ++
        module ++ "`")
    | none => return ()

/-- `validate_public_exports`. -/
def validatePublicExports (libraryName : String) (exports : Exports) (publicModules : ModulePaths) :
    Except String Unit :=
  if exports.exact then validateExactPublicExports libraryName exports.publicModules publicModules
  else validatePublicExportPatterns libraryName exports.publicModules publicModules

/-! ## Units -/

/-- `OwnModuleScan`. -/
structure OwnModuleScan where
  ownModules : ModulePaths
  publicModules : ModulePaths
  privateModules : ModulePaths

/-- `is_real_dir` of a name in a directory, with what is in it. -/
def Entries.realDir (name : String) : Entries → Option Entries
  | .nil => none
  | .cons name' node rest =>
    if name' = name then
      match node with
      | .dir entries => some entries
      | _ => none
    else rest.realDir name

/-- The name of a public module outside its library. -/
def exportName (libraryName logical : String) : String :=
  if logical = "" then libraryName else libraryName ++ "." ++ logical

/-- `prefix_library_public_modules`. -/
def prefixLibraryPublicModules (unit : CatalogUnit) (modules : ModulePaths) :
    Except String ModulePaths :=
  Table.fillNew (duplicateModule ("library `" ++ unit.manifest.name ++ "`"))
    (fun entry => .ok (exportName unit.manifest.libraryName entry.1, entry.2)) ∅ modules.toList

/-- The modules of a library that are public, before they are named after it. -/
def scanPublic (unit : CatalogUnit) (tree : Entries) : Except String ModulePaths :=
  match tree.realDir "public" with
  | some entries => scanLuaModules true (unit.codeRoot ++ ["public"]) entries
  | none =>
    match tree.realDir "private" with
    | some _ => .ok ∅
    | none => scanLuaModules true unit.codeRoot tree

/-- The modules of a library that are private. -/
def scanPrivate (unit : CatalogUnit) (tree : Entries) : Except String ModulePaths :=
  match tree.realDir "private" with
  | some entries => scanLuaModules false (unit.codeRoot ++ ["private"]) entries
  | none => .ok ∅

/-- `scan_own_modules`, with what is below the code root. -/
def scanOwnModules (unit : CatalogUnit) (tree : Entries) : Except String OwnModuleScan :=
  if unit.manifest.kind ≠ .library then do
    let ownModules ← scanLuaModules false unit.codeRoot tree
    return ⟨ownModules, ∅, ∅⟩
  else do
    let rawPublicModules ← scanPublic unit tree
    let privateModules ← scanPrivate unit tree
    rawPublicModules.toList.forM fun entry => bailIf (privateModules[entry.1]?.isSome)
      ("library `" ++ unit.manifest.name ++ "` exports duplicate public/private module `" ++ entry.1 ++
        "`")
    let publicModules ← prefixLibraryPublicModules unit rawPublicModules
    validatePublicExports unit.manifest.libraryName unit.manifest.exports publicModules
    let ownModules ← Table.fillNew (duplicateModule ("library `" ++ unit.manifest.name ++ "`"))
      (fun entry => .ok (entry.1, entry.2)) ∅ (publicModules.toList ++ privateModules.toList)
    return ⟨ownModules, publicModules, privateModules⟩

/-! ## What is found -/

/-- The last name of a path is that of a Lua file. -/
def EndsInLua (path : Path) : Prop := ∃ name, path.getLast? = some name ∧ isLuaName name = true

theorem mem_flatMap_inNameOrder {α : Type} {entries : List (String × List α)} {x : α} :
    x ∈ (inNameOrder entries).flatMap Prod.snd ↔ ∃ a ∈ entries, x ∈ a.2 := by
  simp only [List.mem_flatMap, inNameOrder, List.mem_insertionSort]

mutual

theorem Node.mem_luaFiles : ∀ {node : Node} {dirs q : Path} {name : String},
    q ∈ node.luaFiles dirs name ↔
      ∃ r content, q = dirs ++ name :: r ∧ node.Holds r (.file content) ∧ EndsInLua (name :: r)
  | .file content, dirs, q, name => by
    rw [Node.luaFiles]
    constructor
    · intro h
      split at h
      · rename_i hlua
        exact ⟨[], content, List.mem_singleton.1 h, .file content, name, rfl, hlua⟩
      · cases h
    · rintro ⟨r, content', rfl, hholds, last, hlast, hlua⟩
      cases hholds
      obtain rfl : name = last := Option.some.inj hlast
      rw [if_pos hlua, List.mem_singleton]
  | .symlink target, dirs, q, name => by
    rw [Node.luaFiles]
    constructor
    · intro h
      cases h
    · rintro ⟨r, content, _, hholds, _⟩
      cases hholds
  | .dir entries, dirs, q, name => by
    rw [Node.luaFiles, mem_flatMap_inNameOrder]
    constructor
    · rintro ⟨⟨name', files⟩, hmem, hq⟩
      obtain ⟨r, content, rfl, hholds, last, hlast, hlua⟩ := Entries.mem_luaFiles.1 ⟨files, hmem, hq⟩
      refine ⟨name' :: r, content, by simp, .dir hholds, last, ?_, hlua⟩
      rw [List.getLast?_cons_cons, hlast]
    · rintro ⟨r, content, rfl, hholds, last, hlast, hlua⟩
      cases hholds with
      | dir hholds =>
        obtain ⟨name', r', rfl, _⟩ := hholds.names
        rw [List.getLast?_cons_cons] at hlast
        obtain ⟨files, hmem, hq⟩ := Entries.mem_luaFiles.2
          ⟨r', content, rfl, hholds, last, hlast, hlua⟩
        exact ⟨(name', files), hmem, by simpa using hq⟩
  | .other, dirs, q, name => by
    rw [Node.luaFiles]
    constructor
    · intro h
      cases h
    · rintro ⟨r, content, _, hholds, _⟩
      cases hholds

theorem Entries.mem_luaFiles : ∀ {entries : Entries} {dirs q : Path} {name : String},
    (∃ files, (name, files) ∈ entries.luaFiles dirs ∧ q ∈ files) ↔
      ∃ r content, q = dirs ++ name :: r ∧ entries.Holds (name :: r) (.file content) ∧
        EndsInLua (name :: r)
  | .nil, dirs, q, name => by
    constructor
    · rintro ⟨files, hmem, _⟩
      cases hmem
    · rintro ⟨r, content, _, hholds, _⟩
      cases hholds
  | .cons name' node rest, dirs, q, name => by
    constructor
    · rintro ⟨files, hmem, hq⟩
      rw [Entries.luaFiles, List.mem_cons, Prod.mk.injEq] at hmem
      rcases hmem with ⟨rfl, rfl⟩ | hmem
      · obtain ⟨r, content, hpath, hholds, hlua⟩ := Node.mem_luaFiles.1 hq
        exact ⟨r, content, hpath, .here hholds, hlua⟩
      · obtain ⟨r, content, hpath, hholds, hlua⟩ := Entries.mem_luaFiles.1 ⟨files, hmem, hq⟩
        exact ⟨r, content, hpath, .there hholds, hlua⟩
    · rintro ⟨r, content, hpath, hholds, hlua⟩
      rw [Entries.luaFiles]
      cases hholds with
      | here hholds =>
        exact ⟨_, List.mem_cons_self, Node.mem_luaFiles.2 ⟨r, content, hpath, hholds, hlua⟩⟩
      | there hholds =>
        obtain ⟨files, hmem, hq⟩ := Entries.mem_luaFiles.2 ⟨r, content, hpath, hholds, hlua⟩
        exact ⟨files, List.mem_cons_of_mem _ hmem, hq⟩

end

/-- The walk comes to the Lua files at the end of real directories. -/
theorem Entries.mem_allLuaFiles {entries : Entries} {relative : Path} :
    relative ∈ entries.allLuaFiles ↔
      EndsInLua relative ∧ ∃ content, entries.Holds relative (.file content) := by
  rw [Entries.allLuaFiles, mem_flatMap_inNameOrder]
  constructor
  · rintro ⟨⟨name, files⟩, hmem, hq⟩
    obtain ⟨r, content, rfl, hholds, hlua⟩ := Entries.mem_luaFiles.1 ⟨files, hmem, hq⟩
    exact ⟨hlua, content, hholds⟩
  · rintro ⟨hlua, content, hholds⟩
    obtain ⟨name, r, rfl, _⟩ := hholds.names
    obtain ⟨files, hmem, hq⟩ := Entries.mem_luaFiles.2 ⟨r, content, rfl, hholds, hlua⟩
    exact ⟨(name, files), hmem, hq⟩

/-- **A module below a root**: a Lua file at the end of real directories, with its logical name. -/
def HasModule (allowRootInit : Bool) (root : Path) (entries : Entries) (logical : String)
    (path : Path) : Prop :=
  ∃ relative content, entries.Holds relative (.file content) ∧ EndsInLua relative ∧
    logicalModuleName allowRootInit root relative = .ok logical ∧ path = root ++ relative

theorem scanLuaModules_spec {allowRootInit : Bool} {root : Path} {entries : Entries}
    {modules : ModulePaths} (h : scanLuaModules allowRootInit root entries = .ok modules)
    {logical : String} {path : Path} :
    modules[logical]? = some path ↔ HasModule allowRootInit root entries logical path := by
  rw [Table.get_fillNew h]
  constructor
  · rintro (hempty | ⟨relative, hrelative, hname⟩)
    · simp at hempty
    · obtain ⟨name, hlogical, hentry⟩ := bind_eq_ok.1 hname
      obtain ⟨rfl, rfl⟩ := Prod.mk.inj (Except.ok.inj hentry)
      obtain ⟨hlua, content, hholds⟩ := Entries.mem_allLuaFiles.1 hrelative
      exact ⟨relative, content, hholds, hlua, hlogical, rfl⟩
  · rintro ⟨relative, content, hholds, hlua, hlogical, rfl⟩
    refine Or.inr ⟨relative, Entries.mem_allLuaFiles.2 ⟨hlua, content, hholds⟩, ?_⟩
    exact bind_eq_ok.2 ⟨logical, hlogical, rfl⟩

/-! ## Modules of a unit -/

/-- A public module of a library, before it is named after it. -/
def RawPublicModule (unit : CatalogUnit) (tree : Entries) (logical : String) (path : Path) : Prop :=
  match tree.realDir "public" with
  | some entries => HasModule true (unit.codeRoot ++ ["public"]) entries logical path
  | none => tree.realDir "private" = none ∧ HasModule true unit.codeRoot tree logical path

/-- A public module of a library. -/
def PublicModule (unit : CatalogUnit) (tree : Entries) (name : String) (path : Path) : Prop :=
  unit.manifest.kind = .library ∧ ∃ logical, RawPublicModule unit tree logical path ∧
    name = exportName unit.manifest.libraryName logical

/-- A private module of a library. -/
def PrivateModule (unit : CatalogUnit) (tree : Entries) (name : String) (path : Path) : Prop :=
  unit.manifest.kind = .library ∧ ∃ entries, tree.realDir "private" = some entries ∧
    HasModule false (unit.codeRoot ++ ["private"]) entries name path

/-- A module of a unit itself. -/
def OwnModule (unit : CatalogUnit) (tree : Entries) (name : String) (path : Path) : Prop :=
  if unit.manifest.kind = .library then
    PublicModule unit tree name path ∨ PrivateModule unit tree name path
  else HasModule false unit.codeRoot tree name path

theorem scanPublic_spec {unit : CatalogUnit} {tree : Entries} {modules : ModulePaths}
    (h : scanPublic unit tree = .ok modules) {logical : String} {path : Path} :
    modules[logical]? = some path ↔ RawPublicModule unit tree logical path := by
  rw [scanPublic] at h
  rw [RawPublicModule]
  cases hpublic : tree.realDir "public" with
  | some entries =>
    rw [hpublic] at h
    exact scanLuaModules_spec h
  | none =>
    rw [hpublic] at h
    cases hprivate : tree.realDir "private" with
    | some entries =>
      rw [hprivate] at h
      obtain rfl := Except.ok.inj h
      simp
    | none =>
      rw [hprivate] at h
      simpa using scanLuaModules_spec h

theorem scanPrivate_spec {unit : CatalogUnit} {tree : Entries} {modules : ModulePaths}
    (hkind : unit.manifest.kind = .library) (h : scanPrivate unit tree = .ok modules) {name : String}
    {path : Path} : modules[name]? = some path ↔ PrivateModule unit tree name path := by
  rw [scanPrivate] at h
  cases hprivate : tree.realDir "private" with
  | some entries =>
    rw [hprivate] at h
    rw [scanLuaModules_spec h]
    simp [PrivateModule, hkind, hprivate]
  | none =>
    rw [hprivate] at h
    obtain rfl := Except.ok.inj h
    simp [PrivateModule, hprivate]

theorem prefixLibraryPublicModules_spec {unit : CatalogUnit} {raw modules : ModulePaths}
    (h : prefixLibraryPublicModules unit raw = .ok modules) {name : String} {path : Path} :
    modules[name]? = some path ↔ ∃ logical, raw[logical]? = some path ∧
      name = exportName unit.manifest.libraryName logical := by
  rw [Table.get_fillNew h]
  constructor
  · rintro (hempty | ⟨⟨logical, path'⟩, hentry, hname⟩)
    · simp at hempty
    · obtain ⟨rfl, rfl⟩ := Prod.mk.inj (Except.ok.inj hname)
      exact ⟨logical, Std.ExtTreeMap.mem_toList_iff_getElem?_eq_some.1 hentry, rfl⟩
  · rintro ⟨logical, hentry, rfl⟩
    exact Or.inr ⟨(logical, path), Std.ExtTreeMap.mem_toList_iff_getElem?_eq_some.2 hentry, rfl⟩

/-- **What the scan of a unit finds.** -/
theorem scanOwnModules_spec {unit : CatalogUnit} {tree : Entries} {scan : OwnModuleScan}
    (h : scanOwnModules unit tree = .ok scan) {name : String} {path : Path} :
    (scan.ownModules[name]? = some path ↔ OwnModule unit tree name path) ∧
      (scan.publicModules[name]? = some path ↔ PublicModule unit tree name path) := by
  rw [scanOwnModules] at h
  by_cases hkind : unit.manifest.kind = .library
  · rw [if_neg (not_not.2 hkind)] at h
    obtain ⟨raw, hraw, h⟩ := bind_eq_ok.1 h
    obtain ⟨privateModules, hprivate, h⟩ := bind_eq_ok.1 h
    obtain ⟨_, _, h⟩ := bind_eq_ok.1 h
    obtain ⟨publicModules, hpublic, h⟩ := bind_eq_ok.1 h
    obtain ⟨_, _, h⟩ := bind_eq_ok.1 h
    obtain ⟨ownModules, hown, h⟩ := bind_eq_ok.1 h
    obtain rfl := Except.ok.inj h
    have hpublicSpec : publicModules[name]? = some path ↔ PublicModule unit tree name path := by
      rw [prefixLibraryPublicModules_spec hpublic]
      simp only [scanPublic_spec hraw, PublicModule, hkind, true_and]
    refine ⟨?_, hpublicSpec⟩
    rw [Table.get_fillNew hown, OwnModule, if_pos hkind, ← hpublicSpec, ← scanPrivate_spec hkind hprivate]
    constructor
    · rintro (hempty | ⟨⟨name', path'⟩, hentry, heq⟩)
      · simp at hempty
      · obtain ⟨rfl, rfl⟩ := Prod.mk.inj (Except.ok.inj heq)
        rw [List.mem_append, Std.ExtTreeMap.mem_toList_iff_getElem?_eq_some,
          Std.ExtTreeMap.mem_toList_iff_getElem?_eq_some] at hentry
        exact hentry
    · intro hentry
      refine Or.inr ⟨(name, path), ?_, rfl⟩
      rwa [List.mem_append, Std.ExtTreeMap.mem_toList_iff_getElem?_eq_some,
        Std.ExtTreeMap.mem_toList_iff_getElem?_eq_some]
  · rw [if_pos hkind] at h
    obtain ⟨ownModules, hown, h⟩ := bind_eq_ok.1 h
    obtain rfl := Except.ok.inj h
    rw [OwnModule, if_neg hkind]
    exact ⟨scanLuaModules_spec hown, by simp [PublicModule, hkind]⟩

end Fkst.Manifest
