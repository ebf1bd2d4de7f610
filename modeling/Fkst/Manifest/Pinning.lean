import Fkst.Manifest.External
import Mathlib.Data.List.Perm.Basic

/-!
# What a lock pins

If the lock of a source passes and its units are added, each of them is the unit that a library of the
lock names, and every library the manifest allows has one (`addCheckout_spec`, `LockedAs`).  Nothing of
this asks whether the tree has a second unit of the same library: `catalogAllowedLibraries` does, when
the lock is made.  `pinned_iff_unambiguous` says that this is where the two part.
-/

set_option autoImplicit false

namespace Fkst.Manifest

open Lib.Checks (bind_eq_ok bailIf_eq_ok forM_eq_ok mapM_eq_ok exists_mapM_eq_ok)

section Lookup

variable {α β : Type} [DecidableEq α]

theorem lookup_eq_some_of_mem : ∀ {l : List (α × β)} {a : α} {b : β}, (l.map Prod.fst).Nodup →
    (a, b) ∈ l → l.lookup a = some b
  | (a', b') :: l, a, b, hnodup, hmem => by
    rw [List.map_cons, List.nodup_cons] at hnodup
    rw [List.lookup_cons]
    rcases List.mem_cons.1 hmem with heq | hrest
    · cases heq
      rw [beq_self_eq_true]
    · have hne : a ≠ a' := by
        rintro rfl
        exact hnodup.1 (List.mem_map.2 ⟨(a, b), hrest, rfl⟩)
      rw [beq_false_of_ne hne]
      exact lookup_eq_some_of_mem hnodup.2 hrest

theorem mem_of_lookup_eq_some : ∀ {l : List (α × β)} {a : α} {b : β}, l.lookup a = some b → (a, b) ∈ l
  | (a', b') :: l, a, b, h => by
    rw [List.lookup_cons] at h
    split at h
    · rename_i heq
      rw [eq_of_beq heq, Option.some.inj h]
      exact List.mem_cons_self
    · exact List.mem_cons_of_mem _ (mem_of_lookup_eq_some h)

end Lookup

section Forall₂

variable {α β : Type} {R : α → β → Prop}

theorem exists_of_forall₂_left : ∀ {l : List α} {l' : List β}, List.Forall₂ R l l' → ∀ {a}, a ∈ l →
    ∃ b ∈ l', R a b
  | _ :: _, _ :: _, .cons h hl, a, ha => by
    rcases List.mem_cons.1 ha with rfl | ha
    · exact ⟨_, List.mem_cons_self, h⟩
    · obtain ⟨b, hb, hr⟩ := exists_of_forall₂_left hl ha
      exact ⟨b, List.mem_cons_of_mem _ hb, hr⟩

theorem exists_of_forall₂_right {l : List α} {l' : List β} (h : List.Forall₂ R l l') {b : β}
    (hb : b ∈ l') : ∃ a ∈ l, R a b :=
  exists_of_forall₂_left (List.Forall₂.flip h) hb

theorem exists_forall₂ : ∀ {l : List α}, (∀ a ∈ l, ∃ b, R a b) → ∃ l', List.Forall₂ R l l'
  | [], _ => ⟨[], .nil⟩
  | a :: l, h => by
    rw [List.forall_mem_cons] at h
    obtain ⟨⟨b, hb⟩, hl⟩ := h
    obtain ⟨l', hl'⟩ := exists_forall₂ hl
    exact ⟨b :: l', .cons hb hl'⟩

end Forall₂

/-! ## The catalog of a tree -/

section Catalog

variable {fs : Fs} {toml : Toml} {source : ExternalSourceDecl} {root : Path}

theorem librariesOf_cons (unit : Path × UnitManifest) (units : List (Path × UnitManifest)) :
    librariesOf (unit :: units) = if unit.2.kind = .library
      then (unit.2.libraryName, unit.1) :: librariesOf units else librariesOf units := by
  rw [librariesOf, List.filter_cons]
  by_cases h : unit.2.kind = .library
  · simp [h, librariesOf]
  · simp [h, librariesOf]

/-- `libraries_by_name` can be collected exactly if all manifests can be read and no library is there
twice. -/
theorem foldlM_collectLibrary : ∀ {roots : List Path} {acc byName : List (String × Path)},
    roots.foldlM (collectLibrary fs toml source) acc = .ok byName ↔
      ∃ units, roots.mapM (withManifest fs toml) = .ok units ∧
        ((librariesOf units).map Prod.fst).Nodup ∧
        (∀ name ∈ (librariesOf units).map Prod.fst, name ∉ acc.map Prod.fst) ∧
        byName = (librariesOf units).reverse ++ acc
  | [], acc, byName => by
    constructor
    · intro h
      obtain rfl := Except.ok.inj h
      exact ⟨[], rfl, by simp [librariesOf], by simp [librariesOf], rfl⟩
    · rintro ⟨units, hunits, _, _, rfl⟩
      obtain rfl := Except.ok.inj hunits
      rfl
  | unitRoot :: roots, acc, byName => by
    rw [List.foldlM_cons, bind_eq_ok]
    constructor
    · rintro ⟨acc', hacc, hrest⟩
      obtain ⟨units, hunits, hnodup, hnew, rfl⟩ := foldlM_collectLibrary.1 hrest
      obtain ⟨manifest, hmanifest, hacc⟩ := bind_eq_ok.1 hacc
      have hunit : withManifest fs toml unitRoot = .ok (unitRoot, manifest) :=
        bind_eq_ok.2 ⟨manifest, hmanifest, rfl⟩
      refine ⟨(unitRoot, manifest) :: units, mapM_eq_ok.2 (.cons hunit (mapM_eq_ok.1 hunits)), ?_⟩
      rw [librariesOf_cons]
      split at hacc
      · rename_i hkind
        obtain ⟨⟨⟩, hfresh, hacc⟩ := bind_eq_ok.1 hacc
        obtain rfl := Except.ok.inj hacc
        have hfresh := bailIf_eq_ok.1 hfresh
        rw [if_pos hkind]
        simp only [List.map_cons, List.mem_cons, not_or] at hnew
        rw [List.map_cons, List.nodup_cons, List.forall_mem_cons]
        refine ⟨⟨fun hmem => (hnew _ hmem).1 rfl, hnodup⟩, ⟨hfresh, fun name hname => (hnew name hname).2⟩, ?_⟩
        simp
      · rename_i hkind
        obtain rfl := Except.ok.inj hacc
        rw [if_neg hkind]
        exact ⟨hnodup, hnew, rfl⟩
    · rintro ⟨units, hunits, hnodup, hnew, rfl⟩
      rw [List.mapM_cons] at hunits
      obtain ⟨unit, hunit, htail⟩ := bind_eq_ok.1 hunits
      obtain ⟨rest, hrest, heq⟩ := bind_eq_ok.1 htail
      obtain rfl := Except.ok.inj heq
      obtain ⟨manifest, hmanifest, heq⟩ := bind_eq_ok.1 hunit
      obtain rfl := Except.ok.inj heq
      rw [librariesOf_cons] at hnodup hnew ⊢
      by_cases hkind : manifest.kind = .library
      · rw [if_pos hkind] at hnodup hnew ⊢
        simp only [List.map_cons, List.nodup_cons, List.forall_mem_cons] at hnodup hnew
        refine ⟨(manifest.libraryName, unitRoot) :: acc, bind_eq_ok.2 ⟨manifest, hmanifest, ?_⟩,
          foldlM_collectLibrary.2 ⟨rest, hrest, hnodup.2, ?_, by simp⟩⟩
        · rw [if_pos hkind]
          exact bind_eq_ok.2 ⟨(), bailIf_eq_ok.2 hnew.1, rfl⟩
        · intro name hname
          simp only [List.map_cons, List.mem_cons, not_or]
          exact ⟨fun heq => hnodup.1 (heq ▸ hname), hnew.2 name hname⟩
      · rw [if_neg hkind] at hnodup hnew ⊢
        refine ⟨acc, bind_eq_ok.2 ⟨manifest, hmanifest, ?_⟩,
          foldlM_collectLibrary.2 ⟨rest, hrest, hnodup, hnew, rfl⟩⟩
        rw [if_neg hkind]
        rfl

/-- What is written down of an allowed library. -/
theorem lockLibrary_eq_ok {byName : List (String × Path)} {library : String}
    {lock : ExternalLibraryLock} :
    lockLibrary fs source root byName library = .ok lock ↔
      ∃ unitRoot relative, byName.lookup library = some unitRoot ∧
        stripPrefix unitRoot root = some relative ∧ lock.name = library ∧
        lock.unit = unitText relative ∧ prefixedExportsSha256 fs unitRoot = .ok lock.exportsSha256 := by
  rw [lockLibrary]
  constructor
  · intro h
    split at h
    · cases h
    · rename_i unitRoot hlookup
      split at h
      · cases h
      · rename_i relative hrelative
        obtain ⟨exportsSha256, hexports, h⟩ := bind_eq_ok.1 h
        obtain rfl := Except.ok.inj h
        exact ⟨unitRoot, relative, hlookup, hrelative, rfl, rfl, hexports⟩
  · rintro ⟨unitRoot, relative, hlookup, hrelative, hname, hunit, hexports⟩
    obtain ⟨name, unit, exportsSha256⟩ := lock
    subst hname hunit
    rw [hlookup]
    simp only [hrelative]
    exact bind_eq_ok.2 ⟨_, hexports, rfl⟩

/-- An allowed library as the catalog writes it down. -/
def Admits (fs : Fs) (root : Path) (units : List (Path × UnitManifest)) (library : String)
    (lock : ExternalLibraryLock) : Prop :=
  ∃ unitRoot relative, (library, unitRoot) ∈ librariesOf units ∧
    stripPrefix unitRoot root = some relative ∧ lock.name = library ∧
    lock.unit = unitText relative ∧ prefixedExportsSha256 fs unitRoot = .ok lock.exportsSha256

/-- **The catalog of a tree**, at its canonical root. -/
theorem catalogAllowedLibraries_eq_ok (hroot : fs.canonicalize root = .ok root)
    {admitted : List ExternalLibraryLock} :
    catalogAllowedLibraries fs toml source root = .ok admitted ↔
      ∃ units, unitsOf fs toml root = .ok units ∧ ((librariesOf units).map Prod.fst).Nodup ∧
        List.Forall₂ (Admits fs root units) source.libraries admitted := by
  have hlookup : ∀ {units : List (Path × UnitManifest)}, ((librariesOf units).map Prod.fst).Nodup →
      ∀ library unitRoot, ((librariesOf units).reverse ++ []).lookup library = some unitRoot ↔
        (library, unitRoot) ∈ librariesOf units := by
    intro units hnodup library unitRoot
    rw [List.append_nil]
    constructor
    · intro h
      exact List.mem_reverse.1 (mem_of_lookup_eq_some h)
    · intro h
      refine lookup_eq_some_of_mem ?_ (List.mem_reverse.2 h)
      rwa [List.map_reverse, List.nodup_reverse]
  constructor
  · intro h
    obtain ⟨workspace, hworkspace, h⟩ := bind_eq_ok.1 h
    obtain ⟨root', hroot', h⟩ := bind_eq_ok.1 h
    obtain rfl := Except.ok.inj (hroot.symm.trans hroot')
    obtain ⟨roots, hroots, h⟩ := bind_eq_ok.1 h
    obtain ⟨byName, hbyName, h⟩ := bind_eq_ok.1 h
    obtain ⟨units, hunits, hnodup, _, rfl⟩ := foldlM_collectLibrary.1 hbyName
    have hunits : unitsOf fs toml root = .ok units :=
      bind_eq_ok.2 ⟨roots, bind_eq_ok.2 ⟨workspace, hworkspace, hroots⟩, hunits⟩
    refine ⟨units, hunits, hnodup, (mapM_eq_ok.1 h).imp fun library lock hlock => ?_⟩
    obtain ⟨unitRoot, relative, hfound, hrest⟩ := lockLibrary_eq_ok.1 hlock
    exact ⟨unitRoot, relative, (hlookup hnodup library unitRoot).1 hfound, hrest⟩
  · rintro ⟨units, hunits, hnodup, hlocks⟩
    obtain ⟨roots, hroots, hunits⟩ := bind_eq_ok.1 hunits
    obtain ⟨workspace, hworkspace, hroots⟩ := bind_eq_ok.1 hroots
    refine bind_eq_ok.2 ⟨workspace, hworkspace, bind_eq_ok.2 ⟨root, hroot, bind_eq_ok.2 ⟨roots, hroots,
      bind_eq_ok.2 ⟨_, foldlM_collectLibrary.2 ⟨units, hunits, hnodup, by simp, rfl⟩, mapM_eq_ok.2 ?_⟩⟩⟩⟩
    refine hlocks.imp fun library lock hlock => ?_
    obtain ⟨unitRoot, relative, hmem, hrest⟩ := hlock
    exact lockLibrary_eq_ok.2 ⟨unitRoot, relative, (hlookup hnodup library unitRoot).2 hmem, hrest⟩

end Catalog

/-! ## The units of a checkout -/

section Checkout

variable {fs : Fs} {toml : Toml} {checkout : ExternalSourceCheckout}
  {unitRoots : List (Path × UnitManifest)}

/-- A library of a checkout has been found among the units of the tree. -/
def Found (checkout : ExternalSourceCheckout) (unitRoots : List (Path × UnitManifest))
    (library : ExternalLibraryCheckout) : Prop :=
  ∃ unitRoot relative, (library.name, unitRoot) ∈ librariesOf unitRoots ∧
    stripPrefix unitRoot checkout.root = some relative ∧ unitText relative = library.unit

/-- The library and the unit of a unit that has been added. -/
def unitPair (root : Path) (unit : CatalogUnit) : String × Option String :=
  (unit.manifest.libraryName, (stripPrefix unit.unitRoot root).map unitText)

/-- What one library adds. -/
structure Adds (checkout : ExternalSourceCheckout) (units units' : Units)
    (libraries : List ExternalLibraryCheckout) (added : List (String × CatalogUnit)) : Prop where
  units_eq : units'.units = units.units ++ added
  pairs : (added.map fun unit => unitPair checkout.root unit.2) =
    libraries.map fun library => (library.name, some library.unit)
  keys : ∀ unit ∈ added, unit.1 = externalProviderUnitId checkout.sourceId unit.2.manifest.libraryName ∧
    unit.2.catalogName = unit.1
  libraryUnits : units'.libraryUnits.map Prod.fst =
    units.libraryUnits.map Prod.fst ++ libraries.map ExternalLibraryCheckout.name
  nodup : (libraries.map ExternalLibraryCheckout.name).Nodup
  fresh : ∀ library ∈ libraries, library.name ∉ units.libraryUnits.map Prod.fst

theorem found_of_find {library : ExternalLibraryCheckout} {unitRoot : Path} {manifest : UnitManifest}
    (h : unitRoots.find? (isUnitOf checkout library) = some (unitRoot, manifest))
    (hname : manifest.libraryName = library.name) :
    Found checkout unitRoots library ∧
      (stripPrefix unitRoot checkout.root).map unitText = some library.unit := by
  have hunit := List.find?_some h
  have hmem := List.mem_of_find?_eq_some h
  rw [isUnitOf, Bool.and_eq_true, decide_eq_true_eq] at hunit
  obtain ⟨hkind, hunit⟩ := hunit
  cases hrelative : stripPrefix unitRoot checkout.root with
  | none =>
    simp only [hrelative] at hunit
    cases hunit
  | some relative =>
    simp only [hrelative] at hunit
    refine ⟨⟨unitRoot, relative, ?_, hrelative, eq_of_beq hunit⟩, by rw [Option.map_some, eq_of_beq hunit]⟩
    rw [← hname]
    exact List.mem_map.2 ⟨(unitRoot, manifest), List.mem_filter.2 ⟨hmem, by simpa using hkind⟩, rfl⟩

theorem addLibrary_spec {units units' : Units} {library : ExternalLibraryCheckout}
    (h : addLibrary fs checkout unitRoots units library = .ok units') :
    Found checkout unitRoots library ∧
      ∃ added, Adds checkout units units' ([library].filter (·.publishable)) added := by
  rw [addLibrary] at h
  split at h
  · cases h
  · rename_i unitRoot manifest hfind
    split at h
    · cases h
    · rename_i hname
      have hname := not_not.1 hname
      obtain ⟨hfound, htext⟩ := found_of_find hfind hname
      refine ⟨hfound, ?_⟩
      split at h
      · rename_i hpublishable
        obtain rfl := Except.ok.inj h
        have hpublishable : library.publishable = false := by simpa using hpublishable
        rw [List.filter_cons_of_neg (by simp [hpublishable]), List.filter_nil]
        exact ⟨[], by simp, rfl, by simp, by simp, List.nodup_nil, by simp⟩
      · rename_i hpublishable
        have hpublishable : library.publishable = true := by simpa using hpublishable
        rw [List.filter_cons_of_pos (by simp [hpublishable]), List.filter_nil]
        obtain ⟨codeRoot, _, h⟩ := bind_eq_ok.1 h
        obtain ⟨⟨⟩, _, h⟩ := bind_eq_ok.1 h
        obtain ⟨⟨⟩, _, h⟩ := bind_eq_ok.1 h
        obtain ⟨⟨⟩, _, h⟩ := bind_eq_ok.1 h
        split at h
        · cases h
        · rename_i hfresh
          obtain rfl := Except.ok.inj h
          refine ⟨[_], rfl, ?_, ?_, by simp, by simp, ?_⟩
          · simp [unitPair, hname, htext]
          · simp [hname]
          · simp only [List.mem_singleton, forall_eq]
            intro hmem
            obtain ⟨entry, hentry, heq⟩ := List.mem_map.1 hmem
            have hne := List.lookup_eq_none_iff.1 hfresh entry hentry
            rw [heq] at hne
            simp at hne

theorem Adds.trans {units units₁ units₂ : Units} {l₁ l₂ : List ExternalLibraryCheckout}
    {added₁ added₂ : List (String × CatalogUnit)} (h₁ : Adds checkout units units₁ l₁ added₁)
    (h₂ : Adds checkout units₁ units₂ l₂ added₂) :
    Adds checkout units units₂ (l₁ ++ l₂) (added₁ ++ added₂) where
  units_eq := by rw [h₂.units_eq, h₁.units_eq, List.append_assoc]
  pairs := by rw [List.map_append, List.map_append, h₁.pairs, h₂.pairs]
  keys unit hunit := (List.mem_append.1 hunit).elim (h₁.keys unit) (h₂.keys unit)
  libraryUnits := by rw [h₂.libraryUnits, h₁.libraryUnits, List.map_append, List.append_assoc]
  nodup := by
    rw [List.map_append, List.nodup_append']
    refine ⟨h₁.nodup, h₂.nodup, fun name hname hname' => ?_⟩
    obtain ⟨library, hlibrary, rfl⟩ := List.mem_map.1 hname'
    refine h₂.fresh library hlibrary ?_
    rw [h₁.libraryUnits]
    exact List.mem_append_right _ hname
  fresh library hlibrary := by
    rcases List.mem_append.1 hlibrary with hlibrary | hlibrary
    · exact h₁.fresh library hlibrary
    · intro hmem
      refine h₂.fresh library hlibrary ?_
      rw [h₁.libraryUnits]
      exact List.mem_append_left _ hmem

/-- All libraries of a checkout. -/
theorem foldlM_addLibrary : ∀ {libraries : List ExternalLibraryCheckout} {units units' : Units},
    libraries.foldlM (addLibrary fs checkout unitRoots) units = .ok units' →
      (∀ library ∈ libraries, Found checkout unitRoots library) ∧
        ∃ added, Adds checkout units units' (libraries.filter (·.publishable)) added
  | [], units, units', h => by
    obtain rfl := Except.ok.inj h
    exact ⟨by simp, [], by simp, rfl, by simp, by simp, List.nodup_nil, by simp⟩
  | library :: libraries, units, units', h => by
    rw [List.foldlM_cons, bind_eq_ok] at h
    obtain ⟨units₁, h₁, h⟩ := h
    obtain ⟨hfound, added₁, hadds₁⟩ := addLibrary_spec h₁
    obtain ⟨hrest, added₂, hadds₂⟩ := foldlM_addLibrary h
    refine ⟨List.forall_mem_cons.2 ⟨hfound, hrest⟩, added₁ ++ added₂, ?_⟩
    have hfilter : (library :: libraries).filter (·.publishable) =
        [library].filter (·.publishable) ++ libraries.filter (·.publishable) := by
      rw [← List.filter_append, List.singleton_append]
    rw [hfilter]
    exact hadds₁.trans hadds₂

/-- **What a checkout adds.** -/
theorem addCheckout_spec {units units' : Units} (h : addCheckout fs toml units checkout = .ok units') :
    ∃ unitRoots, unitsOf fs toml checkout.root = .ok unitRoots ∧
      (∀ library ∈ checkout.libraries, Found checkout unitRoots library) ∧
      ∃ added, Adds checkout units units' (checkout.libraries.filter (·.publishable)) added := by
  obtain ⟨unitRoots, hunits, h⟩ := bind_eq_ok.1 h
  exact ⟨unitRoots, hunits, foldlM_addLibrary h⟩

end Checkout

/-! ## What is pinned -/

section Pinned

variable (fs : Fs) (toml : Toml) (storeRoot : ExternalSourceResolved → Except String Path)
  (source : ExternalSourceDecl)

/-- The parts of a checkout that has passed. -/
theorem lockedSourceCheckout_spec {fs : Fs} {toml : Toml}
    {storeRoot : ExternalSourceResolved → Except String Path} {source : ExternalSourceDecl}
    {lockfile : Lockfile} {checkout : ExternalSourceCheckout}
    (h : lockedSourceCheckout fs toml storeRoot source lockfile = .ok checkout) :
    source.libraries.Nodup ∧ fs.canonicalize checkout.root = .ok checkout.root ∧
      checkout.sourceId = source.id ∧
      ∃ lock : ExternalSourceLock, lockfile.externalSource source.id = some lock ∧
        (∀ allowed ∈ source.libraries, ∃ library ∈ lock.libraries, library.name = allowed) ∧
        List.Forall₂ (LockedAs fs toml source checkout.root) lock.libraries checkout.libraries := by
  obtain ⟨⟨⟩, hdecl, h⟩ := bind_eq_ok.1 h
  split at h
  · cases h
  · rename_i lock hfind
    obtain ⟨⟨⟩, hlock, h⟩ := bind_eq_ok.1 h
    obtain ⟨store, _, h⟩ := bind_eq_ok.1 h
    obtain ⟨root, hroot, h⟩ := bind_eq_ok.1 h
    obtain ⟨actualTree, _, h⟩ := bind_eq_ok.1 h
    obtain ⟨⟨⟩, _, h⟩ := bind_eq_ok.1 h
    obtain ⟨libraries, hlibraries, h⟩ := bind_eq_ok.1 h
    obtain ⟨available, _, h⟩ := bind_eq_ok.1 h
    obtain rfl := Except.ok.inj h
    refine ⟨nodup_libraries hdecl, fs.canonicalize_canonical hroot, rfl, lock, hfind,
      mem_of_validateLock hlock, ?_⟩
    exact (mapM_eq_ok.1 hlibraries).imp fun _ _ => lockedLibrary_eq_ok.1

/-- The tree has no library twice, and what its allowed libraries export can be read. -/
structure Unambiguous (root : Path) : Prop where
  nodup : ∀ units, unitsOf fs toml root = .ok units → ((librariesOf units).map Prod.fst).Nodup
  readable : ∀ units, unitsOf fs toml root = .ok units → ∀ library ∈ librariesOf units,
    library.1 ∈ source.libraries → ∃ hash, prefixedExportsSha256 fs library.2 = .ok hash

/-- Whether the unit of a library of a lock says that it may be published. -/
def isPublishable (root : Path) (library : ExternalLibraryLock) : Bool :=
  match publishableLibraryAt fs toml (join root library.unit) with
  | .ok publishable => publishable
  | .error _ => false

/-- The units that were added are those of the catalog. -/
def Pinned (root : Path) (added : List (String × CatalogUnit)) : Prop :=
  ∃ admitted, catalogAllowedLibraries fs toml source root = .ok admitted ∧
    (added.map fun unit => unitPair root unit.2).Perm
      ((admitted.filter (isPublishable fs toml root)).map fun library => (library.name, some library.unit))

variable {fs toml storeRoot source} {lockfile : Lockfile} {checkout : ExternalSourceCheckout}
  {units units' : Units}

/-- Every allowed library can be written down. -/
theorem exists_admitted {lock : ExternalSourceLock} {unitRoots : List (Path × UnitManifest)}
    (hcomplete : ∀ allowed ∈ source.libraries, ∃ library ∈ lock.libraries, library.name = allowed)
    (hlocked : List.Forall₂ (LockedAs fs toml source checkout.root) lock.libraries checkout.libraries)
    (hfound : ∀ library ∈ checkout.libraries, Found checkout unitRoots library)
    (hreadable : ∀ library ∈ librariesOf unitRoots, library.1 ∈ source.libraries →
      ∃ hash, prefixedExportsSha256 fs library.2 = .ok hash) :
    ∃ admitted, List.Forall₂ (Admits fs checkout.root unitRoots) source.libraries admitted := by
  refine exists_forall₂ fun allowed hallowed => ?_
  obtain ⟨library, hlibrary, rfl⟩ := hcomplete allowed hallowed
  obtain ⟨entry, hentry, hlocked⟩ := exists_of_forall₂_left hlocked hlibrary
  obtain ⟨unitRoot, relative, hmem, hrelative, htext⟩ := hfound entry hentry
  rw [hlocked.name] at hmem
  obtain ⟨hash, hhash⟩ := hreadable _ hmem hallowed
  exact ⟨⟨library.name, unitText relative, hash⟩, unitRoot, relative, hmem, hrelative, rfl, rfl, hhash⟩

theorem map_name_of_admits {unitRoots : List (Path × UnitManifest)} {root : Path}
    {admitted : List ExternalLibraryLock}
    (h : List.Forall₂ (Admits fs root unitRoots) source.libraries admitted) :
    admitted.map ExternalLibraryLock.name = source.libraries := by
  have heq : List.Forall₂ Eq source.libraries (admitted.map ExternalLibraryLock.name) := by
    rw [List.forall₂_map_right_iff]
    refine h.imp fun library lock hlock => ?_
    obtain ⟨_, _, _, _, hname, _⟩ := hlock
    exact hname.symm
  rw [List.forall₂_eq_eq_eq] at heq
  exact heq.symm

/-- The libraries of a checkout that may be published, and those of the catalog. -/
theorem mem_pairs_iff {lock : ExternalSourceLock} {unitRoots : List (Path × UnitManifest)}
    {admitted : List ExternalLibraryLock}
    (hcomplete : ∀ allowed ∈ source.libraries, ∃ library ∈ lock.libraries, library.name = allowed)
    (hlocked : List.Forall₂ (LockedAs fs toml source checkout.root) lock.libraries checkout.libraries)
    (hfound : ∀ library ∈ checkout.libraries, Found checkout unitRoots library)
    (hnodup : ((librariesOf unitRoots).map Prod.fst).Nodup)
    (hadmitted : List.Forall₂ (Admits fs checkout.root unitRoots) source.libraries admitted)
    (pair : String × Option String) :
    pair ∈ (checkout.libraries.filter (·.publishable)).map
        (fun library => (library.name, some library.unit)) ↔
      pair ∈ (admitted.filter (isPublishable fs toml checkout.root)).map
        fun library => (library.name, some library.unit) := by
  -- an entry of the checkout and one of the catalog for the same library are for the same unit
  have hsame : ∀ entry ∈ checkout.libraries, ∀ library, ∀ admits, Admits fs checkout.root unitRoots
      library admits → entry.name = library → entry.unit = admits.unit := by
    rintro entry hentry _ admits ⟨unitRoot, relative, hmem, hrelative, _, hunit, _⟩ rfl
    obtain ⟨unitRoot', relative', hmem', hrelative', htext⟩ := hfound entry hentry
    obtain rfl : unitRoot = unitRoot' :=
      Option.some.inj ((lookup_eq_some_of_mem hnodup hmem).symm.trans
        (lookup_eq_some_of_mem hnodup hmem'))
    obtain rfl := Option.some.inj (hrelative.symm.trans hrelative')
    rw [hunit, htext]
  constructor
  · intro h
    obtain ⟨entry, hentry, rfl⟩ := List.mem_map.1 h
    obtain ⟨hentry, hpublishable⟩ := List.mem_filter.1 hentry
    obtain ⟨library, _, hlibrary⟩ := exists_of_forall₂_right hlocked hentry
    obtain ⟨admits, hmem, hadmits⟩ := exists_of_forall₂_left hadmitted hlibrary.allowed
    have hunit := hsame entry hentry _ admits hadmits hlibrary.name
    obtain ⟨_, _, _, _, hname, _⟩ := id hadmits
    refine List.mem_map.2 ⟨admits, List.mem_filter.2 ⟨hmem, ?_⟩, ?_⟩
    · rw [isPublishable, ← hunit, hlibrary.unit, hlibrary.publishable]
      exact hpublishable
    · rw [hname, hunit, hlibrary.name]
  · intro h
    obtain ⟨admits, hadmits, rfl⟩ := List.mem_map.1 h
    obtain ⟨hmem, hpublishable⟩ := List.mem_filter.1 hadmits
    obtain ⟨allowed, hallowed, hadmits⟩ := exists_of_forall₂_right hadmitted hmem
    obtain ⟨library, hlibrary, rfl⟩ := hcomplete allowed hallowed
    obtain ⟨entry, hentry, hlocked⟩ := exists_of_forall₂_left hlocked hlibrary
    have hunit := hsame entry hentry _ admits hadmits hlocked.name
    obtain ⟨_, _, _, _, hname, _⟩ := id hadmits
    refine List.mem_map.2 ⟨entry, List.mem_filter.2 ⟨hentry, ?_⟩, ?_⟩
    · rw [isPublishable, ← hunit, hlocked.unit, hlocked.publishable] at hpublishable
      exact hpublishable
    · rw [hname, hunit, hlocked.name]

/-- **One checkout.**  The units that are added are those of the catalog exactly if the tree is
unambiguous. -/
theorem pinned_iff_unambiguous
    (hlock : lockedSourceCheckout fs toml storeRoot source lockfile = .ok checkout)
    (hadd : addCheckout fs toml units checkout = .ok units') :
    ∃ added, units'.units = units.units ++ added ∧
      (∀ unit ∈ added, unit.1 = externalProviderUnitId source.id unit.2.manifest.libraryName ∧
        unit.2.catalogName = unit.1) ∧
      (Pinned fs toml source checkout.root added ↔ Unambiguous fs toml source checkout.root) := by
  obtain ⟨hallowed, hroot, hid, lock, _, hcomplete, hlocked⟩ := lockedSourceCheckout_spec hlock
  obtain ⟨unitRoots, hunits, hfound, added, hadds⟩ := addCheckout_spec hadd
  refine ⟨added, hadds.units_eq, hid ▸ hadds.keys, ?_, fun htree => ?_⟩
  · rintro ⟨admitted, hcatalog, _⟩
    obtain ⟨units, hunits', hnodup, hadmitted⟩ := (catalogAllowedLibraries_eq_ok hroot).1 hcatalog
    refine ⟨fun units' hunits'' => ?_, fun units' hunits'' library hlibrary hmem => ?_⟩
    · rwa [← Except.ok.inj (hunits'.symm.trans hunits'')]
    · rw [← Except.ok.inj (hunits'.symm.trans hunits'')] at hlibrary
      obtain ⟨entry, _, unitRoot, _, hentry, _, _, _, hexports⟩ := exists_of_forall₂_left hadmitted hmem
      have hsame : unitRoot = library.2 :=
        Option.some.inj ((lookup_eq_some_of_mem hnodup hentry).symm.trans
          (lookup_eq_some_of_mem hnodup hlibrary))
      exact ⟨_, hsame ▸ hexports⟩
  · have hnodup := htree.nodup unitRoots hunits
    obtain ⟨admitted, hadmitted⟩ := exists_admitted hcomplete hlocked hfound
      fun library hlibrary hmem => htree.readable unitRoots hunits library hlibrary hmem
    have hcatalog := (catalogAllowedLibraries_eq_ok hroot).2 ⟨unitRoots, hunits, hnodup, hadmitted⟩
    refine ⟨admitted, hcatalog, ?_⟩
    rw [hadds.pairs]
    refine (List.perm_ext_iff_of_nodup ?_ ?_).2 fun pair => ?_
    · refine List.Nodup.of_map Prod.fst ?_
      rw [List.map_map]
      exact hadds.nodup
    · refine List.Nodup.of_map Prod.fst ?_
      rw [List.map_map]
      refine List.Nodup.sublist (List.Sublist.map _ (List.filter_sublist ..)) ?_
      show (admitted.map ExternalLibraryLock.name).Nodup
      rw [map_name_of_admits hadmitted]
      exact hallowed
    · exact mem_pairs_iff hcomplete hlocked hfound hnodup hadmitted pair

end Pinned

end Fkst.Manifest
