import Fkst.Router.Keys

/-!
# The files of runtime keys

`runtime_layout.rs`: everything that the scripts and the engine keep outside the repository is under
one root, in a directory for each kind of thing.  A runtime key is a path below such a directory, and
its files are in the directory it leads to, under names with an equals sign.

No segment of a key has an equals sign, so the directories on the way to a file can be told from the
file (`KeyFile.eq_of_isPrefix`), and a key can be read off the path (`runtimeKeyFile_injective`).
-/

set_option autoImplicit false

namespace Fkst.Scratch

open Router (validateRuntimeKey validateSegment joinSegments FkstError)
open Lib.Checks (bind_eq_ok forM_eq_ok)

/-- A path is the list of its components. -/
abbrev Path := List String

/-- `RuntimeKind`. -/
inductive RuntimeKind where
  | worktrees
  | codexPermits
  | locks
  | logs
  | marks
  | cache
deriving DecidableEq

/-- `RuntimeKind::dir_name`. -/
def RuntimeKind.dirName : RuntimeKind → String
  | .worktrees => "worktrees"
  | .codexPermits => "codex-permits"
  | .locks => "locks"
  | .logs => "logs"
  | .marks => "marks"
  | .cache => "cache"

/-- `RuntimeLayout`. -/
structure RuntimeLayout where
  root : Path
  no_traversal : ".." ∉ root

/-- `RuntimeLayout::runtime_dir`. -/
def RuntimeLayout.runtimeDir (layout : RuntimeLayout) (kind : RuntimeKind) : Path :=
  layout.root ++ [kind.dirName]

/-- `RUNTIME_LOCK_LEAF`. -/
def runtimeLockLeaf : String := "=lock"

/-- `RUNTIME_MARK_LEAF`. -/
def runtimeMarkLeaf : String := "=mark"

/-- `RUNTIME_VALUE_LEAF`. -/
def runtimeValueLeaf : String := "=value"

/-- The components of a key that has no empty segments and none of dots. -/
def components (key : String) : Path := (key.toList.splitOn '/').map String.ofList

/-- `runtime_key_file`. -/
def runtimeKeyFile (base : Path) (key leaf : String) : Path := base ++ components key ++ [leaf]

/-- The marker of `once`. -/
def markFile (layout : RuntimeLayout) (key : String) : Path :=
  runtimeKeyFile (layout.runtimeDir .marks) key runtimeMarkLeaf

/-- The file next to it that is written first. -/
def tempMarkFile (layout : RuntimeLayout) (key : String) : Path :=
  runtimeKeyFile (layout.runtimeDir .marks) key ("." ++ runtimeMarkLeaf ++ ".tmp")

/-- The file that the cache keeps a value in. -/
def valueFile (layout : RuntimeLayout) (key : String) : Path :=
  runtimeKeyFile (layout.runtimeDir .cache) key runtimeValueLeaf

/-- The file next to it that is written first. -/
def tempFile (layout : RuntimeLayout) (key temp : String) : Path :=
  runtimeKeyFile (layout.runtimeDir .cache) key ("." ++ runtimeValueLeaf ++ "." ++ temp ++ ".tmp")

/-! ## Components of keys -/

theorem components_injective {key key' : String} (h : components key = components key') :
    key = key' := by
  have hsplit : key.toList.splitOn '/' = key'.toList.splitOn '/' :=
    List.map_injective_iff.2 (fun _ _ => String.ofList_inj.1) h
  have hkey : ['/'].intercalate (key.toList.splitOn '/') = key.toList :=
    List.intercalate_splitOn '/'
  rw [← String.toList_inj, ← hkey, hsplit, List.intercalate_splitOn]

theorem runtimeKeyFile_injective {base : Path} {key key' leaf leaf' : String}
    (h : runtimeKeyFile base key leaf = runtimeKeyFile base key' leaf') : key = key' := by
  rw [runtimeKeyFile, runtimeKeyFile, List.append_assoc, List.append_assoc,
    List.append_cancel_left_eq] at h
  exact components_injective (List.append_inj_left' h rfl)

/-- The name of a file can be read off its path. -/
theorem leaf_of_runtimeKeyFile {base base' : Path} {key key' leaf leaf' : String}
    (h : runtimeKeyFile base key leaf = runtimeKeyFile base' key' leaf') : leaf = leaf' := by
  have hlast := congrArg List.getLast? h
  rwa [runtimeKeyFile, runtimeKeyFile, List.getLast?_concat, List.getLast?_concat,
    Option.some_inj] at hlast

section Names

variable {layout : RuntimeLayout} {key key' temp : String}

theorem valueFile_ne (h : key ≠ key') : valueFile layout key ≠ valueFile layout key' :=
  fun heq => h (runtimeKeyFile_injective heq)

theorem markFile_ne (h : key ≠ key') : markFile layout key ≠ markFile layout key' :=
  fun heq => h (runtimeKeyFile_injective heq)

theorem markFile_ne_valueFile : markFile layout key ≠ valueFile layout key' :=
  fun h => absurd (leaf_of_runtimeKeyFile h) (by decide)

theorem tempMarkFile_ne_markFile : tempMarkFile layout key ≠ markFile layout key' :=
  fun h => absurd (leaf_of_runtimeKeyFile h) (by decide)

theorem tempMarkFile_ne_valueFile : tempMarkFile layout key ≠ valueFile layout key' :=
  fun h => absurd (leaf_of_runtimeKeyFile h) (by decide)

/-- The name of a temporary file starts with a dot. -/
theorem tempFile_ne {base : Path} {leaf : String} (hleaf : leaf.toList.head? ≠ some '.') :
    tempFile layout key temp ≠ runtimeKeyFile base key' leaf := by
  intro h
  have hname := congrArg String.toList (leaf_of_runtimeKeyFile h)
  have hdot : ".".toList = ['.'] := rfl
  rw [String.toList_append, String.toList_append, String.toList_append, String.toList_append,
    List.append_assoc, List.append_assoc, List.append_assoc, hdot, List.singleton_append] at hname
  rw [← hname] at hleaf
  exact hleaf rfl

theorem tempFile_ne_valueFile : tempFile layout key temp ≠ valueFile layout key' :=
  tempFile_ne (by decide)

theorem tempFile_ne_markFile : tempFile layout key temp ≠ markFile layout key' :=
  tempFile_ne (by decide)

end Names

theorem components_joinSegments {segments : List (List Char)} (hne : segments ≠ [])
    (h : ∀ s ∈ segments, '/' ∉ s) : components (joinSegments segments) = segments.map String.ofList := by
  rw [components, Router.splitOn_joinSegments hne h]

/-- A key that passes is not changed, and neither are its segments. -/
theorem validateRuntimeKey_eq_ok {key key' : String} (h : validateRuntimeKey key = .ok key') :
    key' = key ∧ ∀ s ∈ key.toList.splitOn '/', validateSegment key s = .ok () := by
  rw [validateRuntimeKey] at h
  split_ifs at h
  obtain ⟨⟨⟩, hsegments, hkey⟩ := bind_eq_ok.1 h
  exact ⟨(Except.ok.inj hkey).symm, forM_eq_ok.1 hsegments⟩

/-- A name that is not a segment of any key. -/
def Reserved (name : String) : Prop := '=' ∈ name.toList

theorem not_reserved_of_validateSegment {key : String} {segment : List Char}
    (h : validateSegment key segment = .ok ()) : ¬ Reserved (String.ofList segment) := by
  rw [validateSegment] at h
  split_ifs at h with h₁ h₂ h₃ h₄
  intro hmem
  rw [Reserved, String.toList_ofList] at hmem
  have hchar := List.all_eq_true.1 (by simpa using h₄) '=' hmem
  exact absurd hchar (by decide)

theorem not_reserved_of_mem_components {key key' : String} (h : validateRuntimeKey key = .ok key')
    {name : String} (hname : name ∈ components key) : ¬ Reserved name := by
  obtain ⟨segment, hsegment, rfl⟩ := List.mem_map.1 hname
  exact not_reserved_of_validateSegment ((validateRuntimeKey_eq_ok h).2 segment hsegment)

/-! ## Files and directories -/

/-- The path below a common root of a file that scratch data is kept in: none of its directories has
a reserved name, and the file has one. -/
structure KeyFile (path : Path) : Prop where
  dirs : ∀ name ∈ path.dropLast, ¬ Reserved name
  leaf : ∃ name, path.getLast? = some name ∧ Reserved name

theorem keyFile_append {dirs : Path} {leaf : String} (hdirs : ∀ name ∈ dirs, ¬ Reserved name)
    (hleaf : Reserved leaf) : KeyFile (dirs ++ [leaf]) where
  dirs := by rwa [List.dropLast_concat]
  leaf := ⟨leaf, List.getLast?_concat, hleaf⟩

/-- **A file is not a directory on the way to another file.** -/
theorem KeyFile.eq_of_isPrefix {path path' : Path} (h : KeyFile path) (h' : KeyFile path')
    (hpre : path <+: path') : path = path' := by
  obtain ⟨leaf, hlast, hleaf⟩ := h.leaf
  have hmem : leaf ∈ path := List.mem_of_getLast? hlast
  by_contra hne
  -- a longer path has all of the shorter one, the file name included, among its directories
  have hdirs : path <+: path'.dropLast := by
    obtain ⟨rest, rfl⟩ := hpre
    have hrest : rest ≠ [] := by
      rintro rfl
      exact hne (List.append_nil path).symm
    rw [List.dropLast_append_of_ne_nil hrest]
    exact List.prefix_append path _
  exact h'.dirs leaf (hdirs.subset hmem) hleaf

end Fkst.Scratch
