import Fkst.ReadCoalesce
import Fkst.Scratch.Cache

/-!
# Who uses which files

Scripts take locks with `with_lock`, mark keys with `once` and keep values with the cache; the engine
keeps the output of commands for read coalescing.  All of them map keys to files below the same two
directories, and tell their files apart by the first segment of the path.

`with_lock` refuses the segments that `once` and the cache put before their keys, but not the one
that read coalescing does, and the cache refuses none.  So a script that uses a key of read
coalescing has the lock of the engine or its entry, and this is the only way the files meet
(`separate_iff`).
-/

set_option autoImplicit false

namespace Fkst.Scratch

open Router (validateRuntimeKey joinSegments SafeSegment)
open ReadCoalesce (Fingerprint Crates cacheKeyOf digestJson)
open Lib.Checks (bailIf bailIf_eq_ok bind_eq_ok)

/-! ## Locks and files -/

/-- A text is a word or starts with the word and a slash. -/
def InNamespace (word text : String) : Prop :=
  text = word ∨ (word ++ "/").toList <+: text.toList

instance (word text : String) : Decidable (InNamespace word text) :=
  inferInstanceAs (Decidable (_ ∨ _))

/-- The names that `with_lock` takes. -/
def withLockName (name : String) : Except LuaError String := do
  let name ← checkKey name
  bailIf (InNamespace "once" name)
    (.message ("with_lock name '" ++ name ++ "' uses reserved lock namespace 'once'"))
  bailIf (InNamespace "cache" name)
    (.message ("with_lock name '" ++ name ++ "' uses reserved lock namespace 'cache'"))
  return name

/-- The lock of `with_lock`. -/
def withLockFile (layout : RuntimeLayout) (name : String) : Path :=
  runtimeKeyFile (layout.runtimeDir .locks) name runtimeLockLeaf

/-- The lock of `once`. -/
def onceLockFile (layout : RuntimeLayout) (key : String) : Path :=
  runtimeKeyFile (layout.runtimeDir .locks ++ ["once"]) key runtimeLockLeaf

/-- The lock of `acquire_cache_lock`. -/
def cacheLockFile (layout : RuntimeLayout) (key : String) : Path :=
  runtimeKeyFile (layout.runtimeDir .locks ++ ["cache"]) key runtimeLockLeaf

/-- The lock of `ReadCoalescePlan::acquire_lock`. -/
def coalesceLockFile (layout : RuntimeLayout) (cacheKey : String) : Path :=
  runtimeKeyFile (layout.runtimeDir .locks) cacheKey runtimeLockLeaf

/-- The entry of a `ReadCoalescePlan`. -/
def coalesceValueFile (layout : RuntimeLayout) (cacheKey : String) : Path :=
  runtimeKeyFile (layout.runtimeDir .cache) cacheKey runtimeValueLeaf

/-! ## Uses -/

/-- What uses scratch files. -/
inductive Primitive where
  | withLock
  | once
  | cache
  | readCoalesce
deriving DecidableEq

/-- A call of one of them. -/
inductive Use where
  | withLock (name : String)
  | once (key : String)
  | cache (key : String)
  | readCoalesce (fingerprint : Fingerprint)

namespace Use

/-- What is called. -/
def primitive : Use → Primitive
  | .withLock _ => .withLock
  | .once _ => .once
  | .cache _ => .cache
  | .readCoalesce _ => .readCoalesce

/-- The key of a call. -/
def key (crates : Crates) : Use → String
  | .withLock name => name
  | .once key => key
  | .cache key => key
  | .readCoalesce fingerprint => cacheKeyOf crates fingerprint

/-- The call is not refused because of its key.  Read coalescing makes its own. -/
def Accepted : Use → Prop
  | .withLock name => withLockName name = .ok name
  | .once key => checkKey key = .ok key
  | .cache key => checkKey key = .ok key
  | .readCoalesce _ => True

variable (layout : RuntimeLayout) (crates : Crates)

/-- The lock that is taken. -/
def lockFile : Use → Path
  | .withLock name => withLockFile layout name
  | .once key => onceLockFile layout key
  | .cache key => cacheLockFile layout key
  | .readCoalesce fingerprint => coalesceLockFile layout (cacheKeyOf crates fingerprint)

/-- The mark or the value. -/
def dataFile : Use → Option Path
  | .withLock _ => none
  | .once key => some (markFile layout key)
  | .cache key => some (valueFile layout key)
  | .readCoalesce fingerprint => some (coalesceValueFile layout (cacheKeyOf crates fingerprint))

/-- All files. -/
def files (u : Use) : List Path := u.lockFile layout crates :: (u.dataFile layout crates).toList

end Use

/-- **The calls do not get into each other's way.** -/
structure Separate (layout : RuntimeLayout) (crates : Crates) (uses : Set Use) : Prop where
  /-- Calls of different primitives or with different keys take different locks. -/
  lock_ne : ∀ u ∈ uses, ∀ v ∈ uses, u.primitive ≠ v.primitive ∨ u.key crates ≠ v.key crates →
    u.lockFile layout crates ≠ v.lockFile layout crates
  /-- Different keys of one primitive have different marks or values. -/
  data_ne : ∀ u ∈ uses, ∀ v ∈ uses, u.primitive = v.primitive → u.key crates ≠ v.key crates →
    ∀ path ∈ u.dataFile layout crates, path ∉ v.dataFile layout crates
  /-- No file is a directory on the way to a file. -/
  not_directory : ∀ u ∈ uses, ∀ v ∈ uses, ∀ path ∈ u.files layout crates,
    ∀ path' ∈ v.files layout crates, path <+: path' → path = path'
  /-- Scripts do not change the entries of read coalescing. -/
  entry_kept : ∀ key fingerprint, .cache key ∈ uses → .readCoalesce fingerprint ∈ uses →
    ∀ host : Host, host.layout = layout → ∀ number now files files' value ttlSeconds,
      cacheSet host number now files key value ttlSeconds = .ok files' ∨
        cacheExpire host files key = .ok files' →
      files' (coalesceValueFile layout (cacheKeyOf crates fingerprint)) =
        files (coalesceValueFile layout (cacheKeyOf crates fingerprint))

/-! ## Paths below the root -/

section Paths

variable {layout : RuntimeLayout} {crates : Crates} {u v : Use}

/-- The directories that a primitive keeps its locks below. -/
def Primitive.lockBase : Primitive → Path
  | .withLock => ["locks"]
  | .once => ["locks", "once"]
  | .cache => ["locks", "cache"]
  | .readCoalesce => ["locks"]

/-- The directories between the root and a lock. -/
def Use.lockDirs (crates : Crates) (u : Use) : Path :=
  u.primitive.lockBase ++ components (u.key crates)

theorem lockDirs_eq (u : Use) : u.lockDirs crates = "locks" :: (match u with
    | .withLock name => components name
    | .once key => "once" :: components key
    | .cache key => "cache" :: components key
    | .readCoalesce fingerprint => components (cacheKeyOf crates fingerprint)) := by
  cases u <;> simp [Use.lockDirs, Use.primitive, Use.key, Primitive.lockBase]

theorem Use.lockFile_eq (u : Use) :
    u.lockFile layout crates = layout.root ++ (u.lockDirs crates ++ [runtimeLockLeaf]) := by
  cases u <;> simp [Use.lockFile, Use.lockDirs, Use.primitive, Use.key, Primitive.lockBase,
    withLockFile, onceLockFile, cacheLockFile, coalesceLockFile, runtimeKeyFile,
    RuntimeLayout.runtimeDir, RuntimeKind.dirName]

theorem Use.lockFile_inj :
    u.lockFile layout crates = v.lockFile layout crates ↔ u.lockDirs crates = v.lockDirs crates := by
  rw [u.lockFile_eq, v.lockFile_eq, List.append_cancel_left_eq, List.append_cancel_right_eq]

theorem joinSegments_pair (a b : String) : joinSegments [a.toList, b.toList] = a ++ "/" ++ b := by
  refine String.toList_inj.1 ?_
  rw [joinSegments, String.toList_ofList, List.intercalate_cons_cons, List.intercalate_singleton,
    String.toList_append, String.toList_append]
  rfl

/-- The two segments of a key of read coalescing. -/
theorem cacheKeyOf_eq (fingerprint : Fingerprint) :
    cacheKeyOf crates fingerprint =
      joinSegments ["exec-read-coalesce".toList, (digestJson crates fingerprint).toList] := by
  have hslash : "exec-read-coalesce/" = "exec-read-coalesce" ++ "/" := by decide
  exact (congrArg (· ++ digestJson crates fingerprint) hslash).trans (joinSegments_pair _ _).symm

theorem safeSegment_coalesce : SafeSegment "exec-read-coalesce".toList := by decide

theorem safeSegment_digestJson (fingerprint : Fingerprint) :
    SafeSegment (digestJson crates fingerprint).toList := by
  rw [digestJson, String.toList_ofList]
  generalize Lib.Fnv.feed Lib.Fnv.basis (crates.fingerprintToVec fingerprint) = hash
  have hdigits : ∀ c ∈ Lib.Fnv.hex hash, isKeyChar c = true ∧ (c == '.') = false := by
    have hdigit : ∀ i, i < 16 →
        isKeyChar (Nat.digitChar i) = true ∧ (Nat.digitChar i == '.') = false := by decide
    intro c hc
    obtain ⟨i, hi, rfl⟩ := Lib.Text.mem_digits (by decide) hc
    exact hdigit i hi
  have hlength := Lib.Fnv.length_hex hash
  have hne : Lib.Fnv.hex hash ≠ [] := by
    intro hnil
    rw [hnil] at hlength
    cases hlength
  refine ⟨hne, ?_, by omega, List.all_eq_true.2 fun c hc => (hdigits c hc).1⟩
  obtain ⟨c, hc⟩ := List.exists_mem_of_ne_nil _ hne
  exact List.all_eq_false.2 ⟨c, hc, by simp [(hdigits c hc).2]⟩

theorem safeSegments_cacheKeyOf (fingerprint : Fingerprint) :
    ∀ s ∈ ["exec-read-coalesce".toList, (digestJson crates fingerprint).toList], SafeSegment s := by
  intro s hs
  rcases List.mem_cons.1 hs with rfl | hs
  · exact safeSegment_coalesce
  · rw [List.mem_singleton.1 hs]
    exact safeSegment_digestJson fingerprint

/-- A key of read coalescing is a runtime key. -/
theorem validateRuntimeKey_cacheKeyOf (fingerprint : Fingerprint) :
    validateRuntimeKey (cacheKeyOf crates fingerprint) = .ok (cacheKeyOf crates fingerprint) := by
  rw [cacheKeyOf_eq]
  exact Router.validateRuntimeKey_joinSegments (List.cons_ne_nil _ _)
    (safeSegments_cacheKeyOf fingerprint)

theorem components_cacheKeyOf (fingerprint : Fingerprint) :
    components (cacheKeyOf crates fingerprint) =
      ["exec-read-coalesce", digestJson crates fingerprint] := by
  rw [cacheKeyOf_eq, components_joinSegments (List.cons_ne_nil _ _) fun s hs =>
    (safeSegments_cacheKeyOf fingerprint s hs).sep_notMem]
  simp only [List.map_cons, List.map_nil, String.ofList_toList]

/-- A text whose first segment is a word is in its namespace. -/
theorem inNamespace_of_components {word name : String} {rest : Path}
    (h : components name = word :: rest) : InNamespace word name := by
  have hname : name.toList = ['/'].intercalate ((components name).map String.toList) := by
    rw [components, List.map_map]
    simp [List.intercalate_splitOn]
  rw [h, List.map_cons] at hname
  cases rest with
  | nil =>
    rw [List.map_nil, List.intercalate_singleton] at hname
    exact Or.inl (String.toList_inj.1 hname)
  | cons segment rest =>
    rw [List.map_cons, List.intercalate_cons_cons] at hname
    refine Or.inr ?_
    rw [hname, String.toList_append]
    exact List.prefix_append _ _

theorem withLockName_eq_ok {name : String} : withLockName name = .ok name ↔
    checkKey name = .ok name ∧ ¬ InNamespace "once" name ∧ ¬ InNamespace "cache" name := by
  constructor
  · intro h
    obtain ⟨name', hkey, hrest⟩ := bind_eq_ok.1 h
    obtain rfl := checkKey_self hkey
    obtain ⟨_, honce, hrest⟩ := bind_eq_ok.1 hrest
    obtain ⟨_, hcache, _⟩ := bind_eq_ok.1 hrest
    exact ⟨hkey, bailIf_eq_ok.1 honce, bailIf_eq_ok.1 hcache⟩
  · rintro ⟨hkey, honce, hcache⟩
    refine bind_eq_ok.2 ⟨name, hkey, ?_⟩
    refine bind_eq_ok.2 ⟨(), bailIf_eq_ok.2 honce, ?_⟩
    exact bind_eq_ok.2 ⟨(), bailIf_eq_ok.2 hcache, rfl⟩

theorem Use.Accepted.validate (h : u.Accepted) :
    validateRuntimeKey (u.key crates) = .ok (u.key crates) := by
  cases u with
  | withLock name => exact checkKey_eq_ok.1 (withLockName_eq_ok.1 h).1
  | once key => exact checkKey_eq_ok.1 h
  | cache key => exact checkKey_eq_ok.1 h
  | readCoalesce fingerprint => exact validateRuntimeKey_cacheKeyOf fingerprint

/-- A file is below fixed directories and the segments of a key. -/
theorem Use.Accepted.keyFile (crates : Crates) (h : u.Accepted) (dirs : Path)
    (hdirs : ∀ name ∈ dirs, ¬ Reserved name) {leaf : String} (hleaf : Reserved leaf) :
    KeyFile (dirs ++ components (u.key crates) ++ [leaf]) := by
  refine keyFile_append (fun name hname => ?_) hleaf
  rcases List.mem_append.1 hname with hname | hname
  · exact hdirs name hname
  · exact not_reserved_of_mem_components h.validate hname

theorem Use.Accepted.keyFile_lock (h : u.Accepted) :
    KeyFile (u.lockDirs crates ++ [runtimeLockLeaf]) := by
  have hlock : Reserved runtimeLockLeaf := by unfold Reserved; decide
  have hbase : ∀ p : Primitive, ∀ name ∈ p.lockBase, ¬ Reserved name := by
    intro p
    cases p <;> (unfold Reserved; decide)
  exact h.keyFile crates _ (hbase u.primitive) hlock

/-- The path of a file below the root. -/
theorem Use.Accepted.exists_keyFile (h : u.Accepted) {path : Path}
    (hpath : path ∈ u.files layout crates) : ∃ below, path = layout.root ++ below ∧ KeyFile below := by
  have hmarks : ∀ name ∈ ["marks"], ¬ Reserved name := by unfold Reserved; decide
  have hcache : ∀ name ∈ ["cache"], ¬ Reserved name := by unfold Reserved; decide
  have hmark : Reserved runtimeMarkLeaf := by unfold Reserved; decide
  have hvalue : Reserved runtimeValueLeaf := by unfold Reserved; decide
  have hbelow : ∀ dirs leaf, layout.root ++ dirs ++ components (u.key crates) ++ [leaf] =
      layout.root ++ (dirs ++ components (u.key crates) ++ [leaf]) := by simp
  rw [Use.files, List.mem_cons, Option.mem_toList] at hpath
  rcases hpath with rfl | hpath
  · exact ⟨_, u.lockFile_eq, h.keyFile_lock⟩
  · cases u with
    | withLock name => cases hpath
    | once key =>
      obtain rfl := Option.mem_some.1 hpath
      exact ⟨_, hbelow ["marks"] runtimeMarkLeaf, h.keyFile crates ["marks"] hmarks hmark⟩
    | cache key =>
      obtain rfl := Option.mem_some.1 hpath
      exact ⟨_, hbelow ["cache"] runtimeValueLeaf, h.keyFile crates ["cache"] hcache hvalue⟩
    | readCoalesce fingerprint =>
      obtain rfl := Option.mem_some.1 hpath
      exact ⟨_, hbelow ["cache"] runtimeValueLeaf, h.keyFile crates ["cache"] hcache hvalue⟩

/-- A script has a key of read coalescing as the name of a lock or as a key of the cache. -/
def Use.Shadows (crates : Crates) (u : Use) (fingerprint : Fingerprint) : Prop :=
  (u.primitive = .withLock ∨ u.primitive = .cache) ∧ u.key crates = cacheKeyOf crates fingerprint

/-- Two calls that take one lock are of one primitive and key, or one is of a script and has the key
of the other. -/
theorem Use.Accepted.same_of_lockDirs (hu : u.Accepted) (hv : v.Accepted)
    (h : u.lockDirs crates = v.lockDirs crates) :
    (u.primitive = v.primitive ∧ u.key crates = v.key crates) ∨
      (∃ fingerprint, v = .readCoalesce fingerprint ∧ u.Shadows crates fingerprint) ∨
      ∃ fingerprint, u = .readCoalesce fingerprint ∧ v.Shadows crates fingerprint := by
  -- the first segments are told apart by the checks of `with_lock` and by the fixed words
  have hname : ∀ {name word : String} {rest : Path}, (Use.withLock name).Accepted →
      components name = word :: rest → word ≠ "once" ∧ word ≠ "cache" := by
    rintro name word rest haccepted hcomponents
    obtain ⟨_, honce, hcache⟩ := withLockName_eq_ok.1 haccepted
    constructor
    · rintro rfl
      exact honce (inNamespace_of_components hcomponents)
    · rintro rfl
      exact hcache (inNamespace_of_components hcomponents)
  have hcoalesce : ∀ {fingerprint : Fingerprint} {word : String} {rest : Path},
      components (cacheKeyOf crates fingerprint) = word :: rest → word = "exec-read-coalesce" := by
    intro fingerprint word rest hcomponents
    rw [components_cacheKeyOf] at hcomponents
    exact (List.cons.inj hcomponents).1.symm
  cases u with
  | withLock name =>
    cases v with
    | withLock name' =>
      simp only [lockDirs_eq, List.cons.injEq, true_and] at h
      exact Or.inl ⟨rfl, (components_injective h : name = name')⟩
    | once key =>
      simp only [lockDirs_eq, List.cons.injEq, true_and] at h
      exact absurd rfl (hname hu h).1
    | cache key =>
      simp only [lockDirs_eq, List.cons.injEq, true_and] at h
      exact absurd rfl (hname hu h).2
    | readCoalesce fingerprint =>
      simp only [lockDirs_eq, List.cons.injEq, true_and] at h
      exact Or.inr (Or.inl ⟨fingerprint, rfl, Or.inl rfl, components_injective h⟩)
  | once key =>
    cases v with
    | withLock name =>
      simp only [lockDirs_eq, List.cons.injEq, true_and] at h
      exact absurd rfl (hname hv h.symm).1
    | once key' =>
      simp only [lockDirs_eq, List.cons.injEq, true_and] at h
      exact Or.inl ⟨rfl, (components_injective h : key = key')⟩
    | cache key' => simp [lockDirs_eq] at h
    | readCoalesce fingerprint =>
      simp only [lockDirs_eq, List.cons.injEq, true_and] at h
      exact absurd (hcoalesce h.symm) (by decide)
  | cache key =>
    cases v with
    | withLock name =>
      simp only [lockDirs_eq, List.cons.injEq, true_and] at h
      exact absurd rfl (hname hv h.symm).2
    | once key' => simp [lockDirs_eq] at h
    | cache key' =>
      simp only [lockDirs_eq, List.cons.injEq, true_and] at h
      exact Or.inl ⟨rfl, (components_injective h : key = key')⟩
    | readCoalesce fingerprint =>
      simp only [lockDirs_eq, List.cons.injEq, true_and] at h
      exact absurd (hcoalesce h.symm) (by decide)
  | readCoalesce fingerprint =>
    cases v with
    | withLock name =>
      simp only [lockDirs_eq, List.cons.injEq, true_and] at h
      exact Or.inr (Or.inr ⟨fingerprint, rfl, Or.inl rfl, (components_injective h).symm⟩)
    | once key =>
      simp only [lockDirs_eq, List.cons.injEq, true_and] at h
      exact absurd (hcoalesce h) (by decide)
    | cache key =>
      simp only [lockDirs_eq, List.cons.injEq, true_and] at h
      exact absurd (hcoalesce h) (by decide)
    | readCoalesce fingerprint' =>
      simp only [lockDirs_eq, List.cons.injEq, true_and] at h
      exact Or.inl ⟨rfl, components_injective h⟩

/-- Different keys of one primitive have different data. -/
theorem Use.data_ne (hprimitive : u.primitive = v.primitive) (hkey : u.key crates ≠ v.key crates)
    {path : Path} (hu : path ∈ u.dataFile layout crates) : path ∉ v.dataFile layout crates := by
  intro hv
  cases u with
  | withLock name => cases hu
  | once key =>
    cases v with
    | once key' =>
      have h := (Option.mem_some.1 hu).trans (Option.mem_some.1 hv).symm
      exact hkey (runtimeKeyFile_injective h)
    | _ => cases hprimitive
  | cache key =>
    cases v with
    | cache key' =>
      have h := (Option.mem_some.1 hu).trans (Option.mem_some.1 hv).symm
      exact hkey (runtimeKeyFile_injective h)
    | _ => cases hprimitive
  | readCoalesce fingerprint =>
    cases v with
    | readCoalesce fingerprint' =>
      have h := (Option.mem_some.1 hu).trans (Option.mem_some.1 hv).symm
      exact hkey (runtimeKeyFile_injective h)
    | _ => cases hprimitive

end Paths

/-! ## Entries of read coalescing -/

section Entries

variable {host : Host} {number now : ℕ} {files files' : Files} {key : String} {value : Bytes}
  {ttlSeconds : Option (Option ℚ)}

/-- The cache changes the files of its key. -/
theorem kept_of_cache
    (h : cacheSet host number now files key value ttlSeconds = .ok files' ∨
      cacheExpire host files key = .ok files') {cacheKey : String} (hne : key ≠ cacheKey) :
    files' (coalesceValueFile host.layout cacheKey) =
      files (coalesceValueFile host.layout cacheKey) := by
  have hvalue : coalesceValueFile host.layout cacheKey ≠ valueFile host.layout key :=
    fun h => hne (runtimeKeyFile_injective h).symm
  rcases h with h | h
  · obtain ⟨_, ttl, _, rfl⟩ := cacheSet_eq_ok h
    have htemp : coalesceValueFile host.layout cacheKey ≠
        tempFile host.layout key (host.temp number) := Ne.symm tempFile_ne_valueFile
    rw [Function.update_of_ne htemp, Function.update_of_ne hvalue]
  · obtain ⟨_, rfl⟩ := cacheExpire_eq_ok h
    exact Function.update_of_ne hvalue _ _

/-- `cache_expire` of a key of read coalescing removes its entry. -/
theorem cacheExpire_coalesce (host : Host) (files : Files) {cacheKey : String}
    (hkey : checkKey cacheKey = .ok cacheKey) :
    ∃ files', cacheExpire host files cacheKey = .ok files' ∧
      files' (coalesceValueFile host.layout cacheKey) = none := by
  refine ⟨files.remove (valueFile host.layout cacheKey), ?_, Function.update_self _ _ _⟩
  rw [cacheExpire, hkey]
  rfl

end Entries

/-- **When scratch files are apart.**  However many calls there are: their locks, marks and values are
different files, none of them a directory of another, and the entries of read coalescing are left
alone, if and only if no script has a key of read coalescing as the name of a lock or as a key of the
cache. -/
theorem separate_iff (layout : RuntimeLayout) (crates : Crates) {uses : Set Use}
    (haccepted : ∀ u ∈ uses, u.Accepted) :
    Separate layout crates uses ↔
      ∀ u ∈ uses, ∀ fingerprint, .readCoalesce fingerprint ∈ uses → ¬ u.Shadows crates fingerprint := by
  constructor
  · rintro h u hu fingerprint hfingerprint ⟨hprimitive, hkey⟩
    cases u with
    | withLock name =>
      have hlock := h.lock_ne _ hu _ hfingerprint (Or.inl nofun)
      exact hlock (congrArg (withLockFile layout) hkey)
    | cache key =>
      let host : Host := ⟨layout, fun _ => none, fun _ => ""⟩
      obtain ⟨files', hexpire, hnone⟩ :=
        cacheExpire_coalesce host (fun _ => some []) (haccepted _ hu)
      have hkept := h.entry_kept key fingerprint hu hfingerprint host rfl 0 0 _ files' [] none
        (Or.inr hexpire)
      have hsome := hkept.symm.trans ((congrArg (fun k => files' (coalesceValueFile layout k))
        hkey.symm).trans hnone)
      cases hsome
    | once key => rcases hprimitive with h | h <;> cases h
    | readCoalesce fingerprint' => rcases hprimitive with h | h <;> cases h
  · intro h
    refine ⟨?_, ?_, ?_, ?_⟩
    · intro u hu v hv hne heq
      rcases (haccepted u hu).same_of_lockDirs (haccepted v hv) (Use.lockFile_inj.1 heq) with
        hsame | ⟨fingerprint, rfl, hshadows⟩ | ⟨fingerprint, rfl, hshadows⟩
      · rcases hne with hne | hne
        · exact hne hsame.1
        · exact hne hsame.2
      · exact h u hu fingerprint hv hshadows
      · exact h v hv fingerprint hu hshadows
    · intro u _ v _ hprimitive hkey path hpath
      exact Use.data_ne hprimitive hkey hpath
    · intro u hu v hv path hpath path' hpath' hpre
      obtain ⟨below, rfl, hbelow⟩ := (haccepted u hu).exists_keyFile hpath
      obtain ⟨below', rfl, hbelow'⟩ := (haccepted v hv).exists_keyFile hpath'
      rw [hbelow.eq_of_isPrefix hbelow' ((List.prefix_append_right_inj _).1 hpre)]
    · rintro key fingerprint hkey hfingerprint host rfl number now files files' value ttlSeconds hcall
      exact kept_of_cache hcall fun heq => h _ hkey fingerprint hfingerprint ⟨Or.inr rfl, heq⟩

/-! ## What is not so -/

/-- The root of a checkout that keeps its runtime files in it. -/
def sampleLayout : RuntimeLayout := ⟨["repo", ".fkst"], by decide⟩

/-- The name that a script would have to use. -/
def shadowKey : String := "exec-read-coalesce/0871570757937542"

theorem cacheKeyOf_sample :
    cacheKeyOf ReadCoalesce.sampleCrates ReadCoalesce.sampleFingerprint = shadowKey := by
  have hjson : ReadCoalesce.sampleCrates.fingerprintToVec ReadCoalesce.sampleFingerprint =
      strBytes ReadCoalesce.sampleFingerprintJson := by
    simp only [ReadCoalesce.sampleCrates, if_true]
  have hdigest : digestJson ReadCoalesce.sampleCrates ReadCoalesce.sampleFingerprint =
      "0871570757937542" := by
    rw [digestJson, hjson]
    decide +kernel
  have hkey : "exec-read-coalesce/" ++ "0871570757937542" = shadowKey := by decide
  exact (congrArg ("exec-read-coalesce/" ++ ·) hdigest).trans hkey

theorem accepted_shadowKey :
    (Use.withLock shadowKey).Accepted ∧ (Use.cache shadowKey).Accepted := by
  have hkey : checkKey shadowKey = .ok shadowKey := by
    rw [checkKey_eq_ok, ← cacheKeyOf_sample]
    exact validateRuntimeKey_cacheKeyOf ReadCoalesce.sampleFingerprint
  exact ⟨withLockName_eq_ok.2 ⟨hkey, by decide, by decide⟩, hkey⟩

/-- A script that locks the name of a lock of read coalescing takes that lock, and a script that
expires its key removes the entry. -/
theorem coalesce_shadowed :
    (Use.withLock shadowKey).Accepted ∧ (Use.cache shadowKey).Accepted ∧
      ¬ Separate sampleLayout ReadCoalesce.sampleCrates
        {.withLock shadowKey, .readCoalesce ReadCoalesce.sampleFingerprint} ∧
      ¬ Separate sampleLayout ReadCoalesce.sampleCrates
        {.cache shadowKey, .readCoalesce ReadCoalesce.sampleFingerprint} := by
  obtain ⟨hlock, hcache⟩ := accepted_shadowKey
  refine ⟨hlock, hcache, ?_, ?_⟩
  · intro h
    have hne := h.lock_ne (.withLock shadowKey) (Or.inl rfl)
      (.readCoalesce ReadCoalesce.sampleFingerprint) (Or.inr rfl) (Or.inl nofun)
    exact hne (congrArg (withLockFile sampleLayout) cacheKeyOf_sample.symm)
  · intro h
    let host : Host := ⟨sampleLayout, fun _ => none, fun _ => ""⟩
    obtain ⟨files', hexpire, hnone⟩ := cacheExpire_coalesce host (fun _ => some []) hcache
    have hkept := h.entry_kept shadowKey ReadCoalesce.sampleFingerprint (Or.inl rfl) (Or.inr rfl)
      host rfl 0 0 _ files' [] none (Or.inr hexpire)
    rw [cacheKeyOf_sample] at hkept
    cases hkept.symm.trans hnone

/-- Four calls with one key, and a command. -/
def sampleUses : Set Use :=
  {.withLock "deploy/main", .once "deploy/main", .cache "deploy/main", .cache "deploy",
    .readCoalesce ReadCoalesce.sampleFingerprint}

theorem accepted_sampleUses : ∀ u ∈ sampleUses, u.Accepted := by
  have hmain : checkKey "deploy/main" = .ok "deploy/main" := by decide +kernel
  have hdeploy : checkKey "deploy" = .ok "deploy" := by decide +kernel
  rintro u (rfl | rfl | rfl | rfl | rfl)
  · exact withLockName_eq_ok.2 ⟨hmain, by decide, by decide⟩
  · exact hmain
  · exact hmain
  · exact hdeploy
  · trivial

theorem separate_sampleUses :
    Separate sampleLayout ReadCoalesce.sampleCrates sampleUses := by
  refine (separate_iff sampleLayout ReadCoalesce.sampleCrates accepted_sampleUses).2 ?_
  rintro u hu fingerprint (h | h | h | h | h) ⟨hprimitive, hkey⟩
  · cases h
  · cases h
  · cases h
  · cases h
  · obtain rfl : fingerprint = ReadCoalesce.sampleFingerprint := by
      cases h
      rfl
    rw [cacheKeyOf_sample] at hkey
    rcases hu with rfl | rfl | rfl | rfl | rfl
    · exact absurd hkey (by decide)
    · exact absurd hkey (by decide)
    · exact absurd hkey (by decide)
    · exact absurd hkey (by decide)
    · rcases hprimitive with h | h <;> cases h

end Fkst.Scratch
