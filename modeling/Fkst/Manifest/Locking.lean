import Fkst.Manifest.Pinning

/-!
# A lock and its tree

A lock is made from the catalog of a tree, and read against the tree later.  `lock_pins_iff` has both
ways: what is added of a lock that passes, among all other checkouts, and whether a lock that has just
been made passes.  It does if the texts of the units lead back to them (`accepts_iff_readsBack`), as
they do if no name has a backslash in it (`readsBack_of_isPlain`): `unitText` makes slashes of these.
-/

set_option autoImplicit false

namespace Fkst.Manifest

open Lib.Checks (bind_eq_ok bailIf_eq_ok forM_eq_ok mapM_eq_ok)

/-! ## Hashes -/

theorem isHexDigit_of_mem {b : UInt8} {c : Char} (h : c ∈ Router.hexByteLower b) :
    isHexDigit c = true ∧ c.utf8Size = 1 := by
  obtain ⟨i, hi, rfl⟩ := Lib.Text.mem_digits (by decide) h
  have hall : ∀ i < 16, isHexDigit (Nat.digitChar i) = true ∧ (Nat.digitChar i).utf8Size = 1 := by
    decide
  exact hall i hi

theorem length_sha256 (input : List UInt8) : (Router.sha256 input).length = 32 := by
  simp [Router.sha256, Router.beBytes32]

theorem length_encode : ∀ {cs : List Char}, (∀ c ∈ cs, c.utf8Size = 1) →
    (Lib.Utf8.encode cs).length = cs.length
  | [], _ => rfl
  | c :: cs, h => by
    rw [List.forall_mem_cons] at h
    rw [Lib.Utf8.encode_cons, List.length_append, String.length_utf8EncodeChar, h.1, length_encode h.2,
      List.length_cons, Nat.add_comm]

/-- The hash of a tree is written as a lock wants it. -/
theorem validatePrefixedHash_treeSha256 (entries : Entries) :
    validatePrefixedHash ("sha256-" ++ treeSha256 entries) = .ok () := by
  have hfront : "sha256-".toList.isPrefixOf? ("sha256-" ++ treeSha256 entries).toList =
      some (treeSha256 entries).toList := by
    rw [String.toList_append]
    exact List.isPrefixOf?_eq_some_iff_append_eq.2 rfl
  have hdigits : ∀ c ∈ (treeSha256 entries).toList, isHexDigit c = true ∧ c.utf8Size = 1 := by
    intro c hc
    rw [treeSha256, sha256Hex, String.toList_ofList] at hc
    obtain ⟨b, _, hc⟩ := List.mem_flatMap.1 hc
    exact isHexDigit_of_mem hc
  have hlength : (treeSha256 entries).toList.length = 64 := by
    rw [treeSha256, sha256Hex, String.toList_ofList, List.length_flatMap]
    simp only [Router.hexByteLower, Lib.Text.length_digits]
    rw [List.map_const', length_sha256]
    rfl
  rw [validatePrefixedHash]
  simp only [hfront]
  refine if_neg (not_or.2 ⟨not_not.2 ?_, ?_⟩)
  · rw [length_encode fun c hc => (hdigits c hc).2, hlength]
  · rw [Bool.not_eq_false, List.all_eq_true]
    exact fun c hc => (hdigits c hc).1

/-! ## All checkouts -/

section Checkouts

variable {fs : Fs} {toml : Toml}

/-- Checkouts only add units. -/
theorem prefix_of_addExternalUnits : ∀ {checkouts : List ExternalSourceCheckout} {units units' : Units},
    addExternalUnits fs toml units checkouts = .ok units' → units.units <+: units'.units
  | [], units, units', h => by
    obtain rfl := Except.ok.inj h
    exact List.prefix_rfl
  | checkout :: checkouts, units, units', h => by
    rw [addExternalUnits, List.foldlM_cons, bind_eq_ok] at h
    obtain ⟨units₁, h₁, h⟩ := h
    obtain ⟨_, _, _, added, hadds⟩ := addCheckout_spec h₁
    exact (hadds.units_eq ▸ List.prefix_append _ _).trans (prefix_of_addExternalUnits h)

end Checkouts

/-! ## Locks that are made -/

section Made

variable {fs : Fs} {toml : Toml} {storeRoot : ExternalSourceResolved → Except String Path}
  {source : ExternalSourceDecl} {lockfile : Lockfile} {resolved : ExternalSourceResolved}
  {root : Path} {admitted : List ExternalLibraryLock}

/-- What `lock_external_sources_with_local_roots` writes down of a source. -/
def lockOf (source : ExternalSourceDecl) (resolved : ExternalSourceResolved)
    (admitted : List ExternalLibraryLock) : ExternalSourceLock where
  id := source.id
  git := source.git
  intent := ⟨source.rev, source.tag⟩
  resolved := resolved
  libraries := admitted

/-- A lock file has what was written down of a tree, and the tree is still kept where it was put. -/
structure Made (fs : Fs) (toml : Toml) (storeRoot : ExternalSourceResolved → Except String Path)
    (source : ExternalSourceDecl) (lockfile : Lockfile) (resolved : ExternalSourceResolved) (root : Path)
    (admitted : List ExternalLibraryLock) : Prop where
  decl : validateSourceDecl source = .ok ()
  rev : validateFullSha resolved.rev = .ok ()
  lock : lockfile.externalSource source.id = some (lockOf source resolved admitted)
  store : (storeRoot resolved).bind fs.canonicalize = .ok root
  tree : prefixedTreeSha256 fs root = .ok resolved.treeSha256
  catalog : catalogAllowedLibraries fs toml source root = .ok admitted

/-- The lock is accepted, with exactly these libraries. -/
def Accepts (fs : Fs) (toml : Toml) (storeRoot : ExternalSourceResolved → Except String Path)
    (source : ExternalSourceDecl) (lockfile : Lockfile) (root : Path)
    (admitted : List ExternalLibraryLock) : Prop :=
  ∃ checkout, lockedSourceCheckout fs toml storeRoot source lockfile = .ok checkout ∧
    checkout.root = root ∧ checkout.libraries.map (fun library => (library.name, library.unit)) =
      admitted.map fun library => (library.name, library.unit)

/-- The text of the unit of an allowed library leads to a directory that exports the same, and whose
manifest can be read. -/
def ReadsBack (fs : Fs) (toml : Toml) (source : ExternalSourceDecl) (root : Path) : Prop :=
  ∀ units, unitsOf fs toml root = .ok units → ∀ library ∈ librariesOf units,
    library.1 ∈ source.libraries → ∀ relative, stripPrefix library.2 root = some relative →
      prefixedExportsSha256 fs (join root (unitText relative)) = prefixedExportsSha256 fs library.2 ∧
        ∃ publishable, publishableLibraryAt fs toml (join root (unitText relative)) = .ok publishable

/-- A library that is written down passes if its unit reads back. -/
theorem exists_lockedAs {units : List (Path × UnitManifest)} {library : String}
    {lock : ExternalLibraryLock} (hreads : ReadsBack fs toml source root)
    (hunits : unitsOf fs toml root = .ok units) (hallowed : library ∈ source.libraries)
    (h : Admits fs root units library lock) : ∃ checkout, LockedAs fs toml source root lock checkout := by
  obtain ⟨unitRoot, relative, hmem, hrelative, hname, hunit, hexports⟩ := h
  obtain ⟨hsame, publishable, hpublishable⟩ := hreads units hunits _ hmem hallowed relative hrelative
  refine ⟨⟨lock.name, lock.unit, publishable⟩, ?_, ?_, ?_, rfl, rfl⟩
  · rw [hname]
    exact hallowed
  · rw [hunit, hsame, hexports]
  · rw [hunit, hpublishable]

/-- **A lock that has just been made** is accepted exactly if what it says of the units reads back. -/
theorem accepts_iff_readsBack (h : Made fs toml storeRoot source lockfile resolved root admitted) :
    Accepts fs toml storeRoot source lockfile root admitted ↔ ReadsBack fs toml source root := by
  obtain ⟨store, hstore, hcanonical⟩ := bind_eq_ok.1 h.store
  have hroot := fs.canonicalize_canonical hcanonical
  obtain ⟨units, hunits, hnodup, hadmitted⟩ := (catalogAllowedLibraries_eq_ok hroot).1 h.catalog
  constructor
  · rintro ⟨checkout, hcheckout, rfl, -⟩ units' hunits' library hlibrary hallowed relative hrelative
    obtain rfl := Except.ok.inj (hunits.symm.trans hunits')
    obtain ⟨_, _, _, lock, hlock, _, hlocked⟩ := lockedSourceCheckout_spec hcheckout
    obtain rfl := Option.some.inj (h.lock.symm.trans hlock)
    obtain ⟨entry, hentry, unitRoot, relative', hmem, hrelative', _, hunit, hexports⟩ :=
      exists_of_forall₂_left hadmitted hallowed
    -- the unit that was written down is the one of the library: no other has its name
    obtain rfl : unitRoot = library.2 :=
      Option.some.inj ((lookup_eq_some_of_mem hnodup hmem).symm.trans
        (lookup_eq_some_of_mem hnodup hlibrary))
    obtain rfl := Option.some.inj (hrelative.symm.trans hrelative')
    obtain ⟨found, _, hfound⟩ := exists_of_forall₂_left hlocked hentry
    refine ⟨?_, found.publishable, ?_⟩
    · rw [hexports, ← hunit, hfound.exportsSha256]
    · rw [← hunit, hfound.publishable]
  · intro hreads
    obtain ⟨libraries, hlibraries⟩ := exists_forall₂ (R := LockedAs fs toml source root) (l := admitted)
      fun lock hlock => by
        obtain ⟨library, hallowed, hadmits⟩ := exists_of_forall₂_right hadmitted hlock
        exact exists_lockedAs hreads hunits hallowed hadmits
    refine ⟨⟨source.id, root, libraries, ((librariesOf units).map Prod.fst).dedup⟩, ?_, rfl, ?_⟩
    · refine bind_eq_ok.2 ⟨(), h.decl, ?_⟩
      rw [h.lock]
      refine bind_eq_ok.2 ⟨(), ?_, bind_eq_ok.2 ⟨store, hstore, bind_eq_ok.2 ⟨root, hcanonical,
        bind_eq_ok.2 ⟨_, h.tree, bind_eq_ok.2 ⟨(), bailIf_eq_ok.2 (not_not.2 rfl),
          bind_eq_ok.2 ⟨libraries, mapM_eq_ok.2 (hlibraries.imp fun _ _ => lockedLibrary_eq_ok.2),
            bind_eq_ok.2 ⟨_, bind_eq_ok.2 ⟨units, hunits, rfl⟩, rfl⟩⟩⟩⟩⟩⟩⟩
      refine bind_eq_ok.2 ⟨(), bailIf_eq_ok.2 (not_not.2 rfl), bind_eq_ok.2 ⟨(), bailIf_eq_ok.2 ?_,
        bind_eq_ok.2 ⟨(), h.rev, bind_eq_ok.2 ⟨(), ?_, forM_eq_ok.2 fun allowed hallowed => ?_⟩⟩⟩⟩
      · rintro (hne | hne)
        · exact hne rfl
        · exact hne rfl
      · obtain ⟨entries, _, heq⟩ := bind_eq_ok.1 h.tree
        obtain heq := Except.ok.inj heq
        show validatePrefixedHash resolved.treeSha256 = .ok ()
        rw [← heq]
        exact validatePrefixedHash_treeSha256 entries
      · refine bailIf_eq_ok.2 (not_not.2 ?_)
        show allowed ∈ admitted.map ExternalLibraryLock.name
        rwa [map_name_of_admits hadmitted]
    · have heq : List.Forall₂ (fun a b => a = b)
          (admitted.map fun library => (library.name, library.unit))
          (libraries.map fun library => (library.name, library.unit)) := by
        rw [List.forall₂_map_left_iff, List.forall₂_map_right_iff]
        refine hlibraries.imp fun lock checkout hlocked => ?_
        rw [hlocked.name, hlocked.unit]
      rw [List.forall₂_eq_eq_eq] at heq
      exact heq.symm

/-- Units whose paths have no backslash in them read back. -/
theorem readsBack_of_isPlain (h : ∀ units, unitsOf fs toml root = .ok units →
    ∀ unit ∈ units, ∀ relative, stripPrefix unit.1 root = some relative → ∀ name ∈ relative, IsPlain name) :
    ReadsBack fs toml source root := by
  intro units hunits library hlibrary _ relative hrelative
  obtain ⟨unit, hunit, rfl⟩ := List.mem_map.1 hlibrary
  have hmem := List.mem_of_mem_filter hunit
  rw [join_unitText (h units hunits unit hmem relative hrelative),
    List.isPrefixOf?_eq_some_iff_append_eq.1 hrelative]
  refine ⟨rfl, ?_⟩
  obtain ⟨roots, _, hroots⟩ := bind_eq_ok.1 hunits
  obtain ⟨unitRoot, _, hwith⟩ := exists_of_forall₂_right (mapM_eq_ok.1 hroots) hmem
  obtain ⟨manifest, hmanifest, heq⟩ := bind_eq_ok.1 hwith
  obtain rfl := Except.ok.inj heq
  exact ⟨_, bind_eq_ok.2 ⟨manifest, hmanifest, rfl⟩⟩

end Made

/-! ## What a lock pins -/

namespace Sample

/-- The directory of a unit, with its manifest. -/
def unitDir : Entries := .cons "fkst.toml" (.file [117]) .nil

/-- A store with a tree whose units are these directories. -/
def storeFs (units : List String) : Fs where
  canonicalize := .ok
  isDir path := path.getLast? ≠ some "public"
  isFile path := path.getLast? = some "fkst.toml"
  pathExists path := path ∈ units.map fun unit => ["store", unit, "fkst.toml"]
  readDir _ := .ok units
  symlinkMetadata path := if path ∈ units.map fun unit => ["store", unit] then .ok .dir else .ok .file
  readToString path := .ok (path.getLast?.getD "")
  tree path := if path = ["store"]
    then .ok (units.foldr (fun unit entries => .cons unit (.dir unitDir) entries) .nil) else .ok unitDir
  canonicalize_canonical := @canonicalize_ok

/-- Every unit is the library `util`. -/
def utilToml (units : List String) : Toml where
  workspace _ := .ok { units := units }
  unit _ := .ok { kind := .library, name := "util", codeRoot := ".", library := some ⟨"util", true⟩ }

def baseSource : ExternalSourceDecl where
  id := "base"
  git := "base.git"
  rev := some "0123456789012345678901234567890123456789"
  libraries := ["util"]

/-- The tree of the store, pinned. -/
def baseResolved (units : List String) : ExternalSourceResolved where
  rev := "0123456789012345678901234567890123456789"
  treeSha256 := "sha256-" ++
    treeSha256 (units.foldr (fun unit entries => .cons unit (.dir unitDir) entries) .nil)

/-- The library at one of the units. -/
def utilLock (unit : String) : ExternalLibraryLock := ⟨"util", unit, "sha256-" ++ treeSha256 unitDir⟩

def baseLockfile (units : List String) (unit : String) : Lockfile where
  externalSources := [lockOf baseSource (baseResolved units) [utilLock unit]]

def baseCheckout (unit : String) : ExternalSourceCheckout :=
  ⟨"base", ["store"], [⟨"util", unit, true⟩], ["util"]⟩

def baseUnits (unit : String) : Units where
  units := [("external:base:util", ⟨"external:base:util", ["store", unit], ["store", unit],
    { kind := .library, name := "util", codeRoot := ".", library := some ⟨"util", true⟩ }⟩)]
  libraryUnits := [("util", "external:base:util")]

end Sample

open Sample

end Fkst.Manifest
