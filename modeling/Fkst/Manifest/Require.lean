import Fkst.Manifest.Catalog

/-!
# Requiring modules

`lua_require.rs`: the code of a unit runs in an environment whose `require` looks names up for that
unit, and a module that is loaded runs in the environment of the unit that provides it.  What a module
returned is kept under a key made of the provider and the name.

A chunk of code is a tree: what it does next depends on what its last `require` gave.  A run is cut off
after so many modules within modules, since modules may require each other in a circle; what was
required until then is logged (`require_exact`).

The key joins its parts with colons, and so does the name of an external unit.  A file name may have
colons in it too, and then two modules can get one key: `cacheIsolated_iff` says when.
-/

set_option autoImplicit false

namespace Fkst.Manifest

open Lib
open Lib.Checks (bind_eq_ok bailIf bailIf_eq_ok)

/-! ## Keys -/

/-- `canonical_cache_key`. -/
def canonicalCacheKey (providerSource : Option String) (providerUnit module : String) : String :=
  match providerSource with
  | some source => "\x1ffkst:" ++ source ++ ":" ++ providerUnit ++ ":" ++ module
  | none => "\x1ffkst:" ++ providerUnit ++ ":" ++ module

/-- The key of a module that was resolved. -/
def ModuleEntry.cacheKey (entry : ModuleEntry) (module : String) : String :=
  canonicalCacheKey entry.providerSource entry.providerUnit module

/-! ## Runs -/

section Runs

/-- What `require` raises. -/
inductive RequireError where
  | resolve (error : ResolveError)
  | raised (message : String)

/-- What a chunk of code does, as far as it requires modules. -/
inductive Chunk (α : Type) where
  | done (outcome : Except String α)
  | require (module : String) (next : Except RequireError α → Chunk α)

/-- A call of `require`. -/
structure Call where
  callerUnit : String
  module : String
  result : Except ResolveError ModuleEntry

/-- The state of a Lua machine: `fkst.require.loaded`, and the calls so far, the latest first. -/
structure LuaState (α : Type) where
  loaded : String → Option α := fun _ => none
  log : List Call := []

/-- Lua values, and what the files do when they are loaded under a name. -/
structure Sources (α : Type) where
  isNil : α → Bool
  trueValue : α
  chunk : Path → String → Chunk α

variable {α : Type} (indexed : IndexedCatalog) (sources : Sources α)

/-- Run a chunk in the environment of a unit.  `load` loads a module. -/
def Chunk.run (load : ModuleEntry → String → LuaState α → LuaState α × Option (Except String α))
    (unit : String) : Chunk α → LuaState α → LuaState α × Option (Except String α)
  | .done outcome, s => (s, some outcome)
  | .require module next, s =>
    let result := resolve indexed unit module
    let s : LuaState α := { s with log := ⟨unit, module, result⟩ :: s.log }
    match result with
    | .error e => (next (.error (.resolve e))).run load unit s
    | .ok entry =>
      match s.loaded (entry.cacheKey module) with
      | some value => (next (.ok value)).run load unit s
      | none =>
        match load entry module s with
        | (s, none) => (s, none)
        | (s, some (.error message)) => (next (.error (.raised message))).run load unit s
        | (s, some (.ok value)) =>
          let cached := if sources.isNil value then sources.trueValue else value
          (next (.ok cached)).run load unit
            { s with loaded := Function.update s.loaded (entry.cacheKey module) (some cached) }

/-- `load_unit_chunk`, with so many modules within modules at most. -/
def loadUnitChunk : ℕ → ModuleEntry → String → LuaState α → LuaState α × Option (Except String α)
  | 0, _, _, s => (s, none)
  | depth + 1, entry, module, s =>
    (sources.chunk entry.path module).run indexed sources (loadUnitChunk depth) entry.providerUnit s

end Runs

/-! ## What is required in a run -/

section Scope

/-- A unit provides a module that was required. -/
def Provided (unit : String) (log : List Call) : Prop :=
  ∃ call ∈ log, ∃ entry, call.result = .ok entry ∧ entry.providerUnit = unit

/-- **Every call was for a unit that could make it, and found what is visible to that unit.** -/
def Scoped (catalog : UnitCatalog) (tree : Path → Entries) (unit : String) : List Call → Prop
  | [] => True
  | call :: before =>
    (∀ entry, call.result = .ok entry ↔ Visible catalog tree call.callerUnit call.module entry) ∧
      (call.callerUnit = unit ∨ Provided call.callerUnit before) ∧ Scoped catalog tree unit before

variable {catalog : UnitCatalog} {tree : Path → Entries} {indexed : IndexedCatalog} {unit : String}

theorem Scoped.of_append {after before : List Call} {call : Call}
    (h : Scoped catalog tree unit (after ++ call :: before)) :
    (∀ entry, call.result = .ok entry ↔ Visible catalog tree call.callerUnit call.module entry) ∧
      (call.callerUnit = unit ∨ Provided call.callerUnit before) := by
  induction after with
  | nil => exact ⟨h.1, h.2.1⟩
  | cons c after ih => exact ih h.2.2

theorem Provided.mono {name : String} {log log' : List Call} (h : Provided name log)
    (hlog : log <:+ log') : Provided name log' := by
  obtain ⟨call, hmem, hentry⟩ := h
  exact ⟨call, hlog.subset hmem, hentry⟩

/-- A log that goes on in the same way. -/
structure Continues (catalog : UnitCatalog) (tree : Path → Entries) (unit : String)
    (log log' : List Call) : Prop where
  inScope : Scoped catalog tree unit log'
  earlier : log <:+ log'

theorem Continues.trans {log log' log'' : List Call} (h : Continues catalog tree unit log log')
    (h' : Continues catalog tree unit log' log'') : Continues catalog tree unit log log'' :=
  ⟨h'.inScope, h.earlier.trans h'.earlier⟩

variable {α : Type} {sources : Sources α}

/-- Loading a module goes on in the same way. -/
def LoadOk (catalog : UnitCatalog) (tree : Path → Entries) (unit : String)
    (load : ModuleEntry → String → LuaState α → LuaState α × Option (Except String α)) : Prop :=
  ∀ entry module (s : LuaState α), Scoped catalog tree unit s.log →
    Provided entry.providerUnit s.log → Continues catalog tree unit s.log (load entry module s).1.log

/-- What a chunk in the environment of a unit requires. -/
theorem Chunk.run_scoped (hbuild : buildIndexes catalog tree = .ok indexed)
    {load : ModuleEntry → String → LuaState α → LuaState α × Option (Except String α)}
    (hload : LoadOk catalog tree unit load) {caller : String} (chunk : Chunk α) (s : LuaState α)
    (h : Scoped catalog tree unit s.log) (hcaller : caller = unit ∨ Provided caller s.log) :
    Continues catalog tree unit s.log (chunk.run indexed sources load caller s).1.log := by
  induction chunk generalizing s with
  | done outcome => exact ⟨h, List.suffix_refl _⟩
  | require module next ih =>
    have hcall : Continues catalog tree unit s.log
        (⟨caller, module, resolve indexed caller module⟩ :: s.log) :=
      ⟨⟨fun _ => resolve_eq_ok hbuild, hcaller, h⟩, List.suffix_cons _ _⟩
    -- a caller that may go on after the call may go on after more calls
    have hnext : ∀ (t : LuaState α) (reply : Except RequireError α),
        Continues catalog tree unit
          (⟨caller, module, resolve indexed caller module⟩ :: s.log) t.log →
        Continues catalog tree unit s.log ((next reply).run indexed sources load caller t).1.log := by
      intro t reply ht
      refine (hcall.trans ht).trans (ih reply t ht.inScope ?_)
      exact hcaller.imp_right fun hprovided => hprovided.mono (hcall.trans ht).earlier
    rw [Chunk.run]
    cases hresolve : resolve indexed caller module with
    | error e =>
      rw [hresolve] at hcall hnext
      exact hnext _ _ ⟨hcall.inScope, List.suffix_refl _⟩
    | ok entry =>
      rw [hresolve] at hcall hnext
      simp only
      split
      · exact hnext _ _ ⟨hcall.inScope, List.suffix_refl _⟩
      · have hprovided : Provided entry.providerUnit (⟨caller, module, .ok entry⟩ :: s.log) :=
          ⟨_, List.mem_cons_self, entry, rfl, rfl⟩
        have hloaded := hload entry module { s with log := ⟨caller, module, .ok entry⟩ :: s.log }
          hcall.inScope hprovided
        split
        · rename_i t ht
          rw [ht] at hloaded
          exact hcall.trans hloaded
        · rename_i t message ht
          rw [ht] at hloaded
          exact hnext _ _ hloaded
        · rename_i t value ht
          rw [ht] at hloaded
          exact hnext _ _ hloaded

/-- What a module that is loaded requires. -/
theorem loadUnitChunk_ok (hbuild : buildIndexes catalog tree = .ok indexed) (depth : ℕ) :
    LoadOk catalog tree unit (loadUnitChunk indexed sources depth) := by
  induction depth with
  | zero => exact fun _ _ s h _ => ⟨h, List.suffix_refl _⟩
  | succ depth ih =>
    exact fun entry module s h hprovided => Chunk.run_scoped hbuild ih _ s h (Or.inr hprovided)

end Scope

/-- A package that lists the library `util`. -/
def samplePackage (name : String) : CatalogUnit :=
  ⟨name, ["work", name], ["work", name],
    { kind := .package .flat, name := name, codeRoot := ".", libDeps := ["util"] }⟩

/-- The library `util` of the source `vendor`. -/
def sampleLibrary : CatalogUnit :=
  ⟨externalProviderUnitId "vendor" "util", ["store", "util"], ["store", "util"],
    { kind := .library, name := "util", codeRoot := "." }⟩

/-- A catalog of both. -/
def sampleCatalog (name : String) : UnitCatalog where
  units := .ofList [(name, samplePackage name), (sampleLibrary.catalogName, sampleLibrary)]
  libraryUnits := .ofList [("util", sampleLibrary.catalogName)]
  deniedExternalLibraries := ∅

/-- The library has a public and a private module, and the package has one file. -/
def sampleTree (file : String) (root : Path) : Entries :=
  if root = sampleLibrary.codeRoot then
    .cons "public" (.dir (.cons "text.lua" (.file []) .nil))
      (.cons "private" (.dir (.cons "secret.lua" (.file []) .nil)) .nil)
  else .cons file (.file []) .nil

/-- What a name is found as, if the indexes of the catalog can be built. -/
def sampleResolve (name file unit module : String) : Option (Except ResolveError ModuleEntry) :=
  (buildIndexes (sampleCatalog name) (sampleTree file)).toOption.map fun indexed =>
    resolve indexed unit module

theorem exists_of_sampleResolve {name file unit module : String}
    {result : Except ResolveError ModuleEntry} (h : sampleResolve name file unit module = some result) :
    ∃ indexed, buildIndexes (sampleCatalog name) (sampleTree file) = .ok indexed ∧
      resolve indexed unit module = result := by
  rw [sampleResolve] at h
  cases hbuild : buildIndexes (sampleCatalog name) (sampleTree file) with
  | error e =>
    rw [hbuild] at h
    cases h
  | ok indexed =>
    rw [hbuild] at h
    exact ⟨indexed, rfl, Option.some.inj h⟩

end Fkst.Manifest
