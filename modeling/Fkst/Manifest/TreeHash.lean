import Mathlib.Data.List.Lex
import Mathlib.Data.List.Sort
import Mathlib.Data.String.Basic
import Fkst.Lib.Utf8
import Fkst.Router.Identity

/-!
# The hash of a tree

An external source is locked by the hash of its tree.  `collectHashFiles` lists the files and links of
a directory, every directory in the order of the names in it, and `treeSha256` hashes the listing:
path, NUL, kind, content, NUL, one entry after another.

The listing of a tree is in the order of the paths (`pairwise_listing`), so that two trees which hold
the same files and links have the same listing (`listing_eq_iff`).  The text of the listing is another
matter.  No path has a NUL in it but a content may, and then it can look like the end of its own entry
and the start of the next one: `treeSha256_identifies_iff` says that this is the only way in which two
trees that differ get the same hash.
-/

set_option autoImplicit false

namespace Fkst.Manifest

open Lib.Text (RunsOn)

/-! ## Trees -/

mutual

/-- What a name in a directory stands for; a fifo, a socket or a device is `other`. -/
inductive Node where
  | file (content : List UInt8)
  | symlink (target : List UInt8)
  | dir (entries : Entries)
  | other

/-- The entries of a directory as `read_dir` gives them, in any order. -/
inductive Entries where
  | nil
  | cons (name : String) (node : Node) (rest : Entries)

end

/-- `HashEntry`.  The content of a file stands for its path, which is read later. -/
inductive HashEntry where
  | file (content : List UInt8)
  | symlink (target : List UInt8)
deriving DecidableEq

namespace HashEntry

/-- The byte that tells a file from a link. -/
def kind : HashEntry → UInt8
  | file _ => 102
  | symlink _ => 108

/-- What is hashed of an entry. -/
def content : HashEntry → List UInt8
  | file content => content
  | symlink target => target

theorem ext_kind {e e' : HashEntry} (hkind : e.kind = e'.kind) (hcontent : e.content = e'.content) :
    e = e' := by
  cases e <;> cases e' <;> simp_all [kind, content]

end HashEntry

/-- Files and links with their paths. -/
abbrev Listing := List (List String × HashEntry)

/-- `sort_by_key` on the paths of the entries of one directory: they differ in the last name only. -/
def byName (entries : List (String × Listing)) : List (String × Listing) :=
  entries.insertionSort fun a b => a.1 ≤ b.1

mutual

/-- What `collect_hash_files` does with an entry whose path below the root is `path`. -/
def Node.collect (path : List String) : Node → Listing
  | .file content => [(path, .file content)]
  | .symlink target => [(path, .symlink target)]
  | .dir entries => (byName (entries.collect path)).flatMap Prod.snd
  | .other => []

/-- What it does with each entry of a directory; `.git` is left out. -/
def Entries.collect (path : List String) : Entries → List (String × Listing)
  | .nil => []
  | .cons name node rest =>
    (name, if name = ".git" then [] else node.collect (path ++ [name])) :: rest.collect path

end

/-- `collect_hash_files` at the root. -/
def collectHashFiles (root : Entries) : Listing := (Node.dir root).collect []

/-! ## The hash -/

/-- The path of an entry as text: the names joined by slashes, and then every backslash made a
slash. -/
def relativeText (path : List String) : List Char :=
  (Router.joinSegments (path.map String.toList)).toList.map fun c => if c = '\\' then '/' else c

/-- One entry in the text that is hashed. -/
def entryText (entry : List String × HashEntry) : List UInt8 :=
  Lib.Utf8.encode (relativeText entry.1) ++ 0 :: entry.2.kind :: (entry.2.content ++ [0])

/-- The text that is hashed. -/
def listingText (listing : Listing) : List UInt8 := listing.flatMap entryText

/-- `sha256_hex` of `manifest_hash`, whose `sha256` is the router's line for line. -/
def sha256Hex (input : List UInt8) : String :=
  String.ofList ((Router.sha256 input).flatMap Router.hexByteLower)

/-- `tree_sha256`. -/
def treeSha256 (root : Entries) : String := sha256Hex (listingText (collectHashFiles root))

/-! ## What a tree holds -/

mutual

/-- A node holds a file or a link under a path. -/
inductive Node.Holds : Node → List String → HashEntry → Prop
  | file (content : List UInt8) : Node.Holds (.file content) [] (.file content)
  | symlink (target : List UInt8) : Node.Holds (.symlink target) [] (.symlink target)
  | dir {entries : Entries} {path : List String} {e : HashEntry} (h : entries.Holds path e) :
    Node.Holds (.dir entries) path e

/-- A directory holds a file or a link under a path. -/
inductive Entries.Holds : Entries → List String → HashEntry → Prop
  | here {name : String} {node : Node} {rest : Entries} {path : List String} {e : HashEntry}
    (h : node.Holds path e) : Entries.Holds (.cons name node rest) (name :: path) e
  | there {name : String} {node : Node} {rest : Entries} {path : List String} {e : HashEntry}
    (h : rest.Holds path e) : Entries.Holds (.cons name node rest) path e

end

/-- The names in a directory. -/
def Entries.names : Entries → List String
  | .nil => []
  | .cons name _ rest => name :: rest.names

/-- A name the file system has, without backslash, and not `.git`. -/
structure IsFileName (name : String) : Prop where
  slash_notMem : '/' ∉ name.toList
  backslash_notMem : '\\' ∉ name.toList
  nul_notMem : '\x00' ∉ name.toList
  ne_git : name ≠ ".git"

instance (name : String) : Decidable (IsFileName name) :=
  decidable_of_iff
    ('/' ∉ name.toList ∧ '\\' ∉ name.toList ∧ '\x00' ∉ name.toList ∧ name ≠ ".git")
    ⟨fun ⟨h, h', h'', h'''⟩ => ⟨h, h', h'', h'''⟩, fun ⟨h, h', h'', h'''⟩ => ⟨h, h', h'', h'''⟩⟩

mutual

/-- Names are as they should be, and no directory has one twice. -/
def Node.WellNamed : Node → Prop
  | .dir entries => entries.WellNamed
  | _ => True

/-- Names are as they should be, and no directory has one twice. -/
def Entries.WellNamed : Entries → Prop
  | .nil => True
  | .cons name node rest =>
    IsFileName name ∧ name ∉ rest.names ∧ node.WellNamed ∧ rest.WellNamed

end

/-- A directory tree. -/
structure Tree where
  root : Entries
  wellNamed : root.WellNamed

/-- The tree holds a file or a link under a path. -/
def Tree.Holds (t : Tree) (path : List String) (e : HashEntry) : Prop := t.root.Holds path e

theorem Entries.Holds.names : ∀ {entries : Entries} {path : List String} {e : HashEntry},
    entries.Holds path e → ∃ name rest, path = name :: rest ∧ name ∈ entries.names
  | .cons name _ _, _, _, .here _ => ⟨name, _, rfl, List.mem_cons_self⟩
  | .cons _ _ _, _, _, .there h => by
    obtain ⟨name, rest, hpath, hmem⟩ := h.names
    exact ⟨name, rest, hpath, List.mem_cons_of_mem _ hmem⟩

/-! ## The listing of a tree -/

theorem mem_flatMap_byName {entries : List (String × Listing)} {x : List String × HashEntry} :
    x ∈ (byName entries).flatMap Prod.snd ↔ ∃ a ∈ entries, x ∈ a.2 := by
  simp only [List.mem_flatMap, byName, List.mem_insertionSort]

mutual

theorem Node.mem_collect : ∀ {node : Node} {path q : List String} {e : HashEntry},
    node.WellNamed → ((q, e) ∈ node.collect path ↔ ∃ r, q = path ++ r ∧ node.Holds r e)
  | .file content, path, q, e, _ => by
    rw [Node.collect, List.mem_singleton, Prod.mk.injEq]
    constructor
    · rintro ⟨rfl, rfl⟩
      exact ⟨[], (List.append_nil _).symm, .file content⟩
    · rintro ⟨r, rfl, h⟩
      cases h
      exact ⟨List.append_nil _, rfl⟩
  | .symlink target, path, q, e, _ => by
    rw [Node.collect, List.mem_singleton, Prod.mk.injEq]
    constructor
    · rintro ⟨rfl, rfl⟩
      exact ⟨[], (List.append_nil _).symm, .symlink target⟩
    · rintro ⟨r, rfl, h⟩
      cases h
      exact ⟨List.append_nil _, rfl⟩
  | .dir entries, path, q, e, hn => by
    rw [Node.collect, mem_flatMap_byName]
    constructor
    · rintro ⟨⟨name, listing⟩, hmem, hq⟩
      obtain ⟨r, hr, hholds⟩ := (Entries.mem_collect hn).1 ⟨listing, hmem, hq⟩
      exact ⟨name :: r, hr, .dir hholds⟩
    · rintro ⟨r, rfl, h⟩
      cases h with
      | dir h =>
        obtain ⟨name, r', rfl, _⟩ := h.names
        have hholds : ∃ r, path ++ name :: r' = path ++ name :: r ∧ entries.Holds (name :: r) e :=
          ⟨r', rfl, h⟩
        obtain ⟨listing, hmem, hq⟩ := (Entries.mem_collect hn).2 hholds
        exact ⟨(name, listing), hmem, hq⟩
  | .other, path, q, e, _ => by
    rw [Node.collect]
    constructor
    · intro h
      cases h
    · rintro ⟨r, _, h⟩
      cases h

theorem Entries.mem_collect : ∀ {entries : Entries} {path q : List String} {name : String}
    {e : HashEntry}, entries.WellNamed →
      ((∃ listing, (name, listing) ∈ entries.collect path ∧ (q, e) ∈ listing) ↔
        ∃ r, q = path ++ name :: r ∧ entries.Holds (name :: r) e)
  | .nil, path, q, name, e, _ => by
    constructor
    · rintro ⟨listing, hmem, _⟩
      cases hmem
    · rintro ⟨r, _, h⟩
      cases h
  | .cons name' node rest, path, q, name, e, ⟨hname, _, hnode, hrest⟩ => by
    have hgit : (if name' = ".git" then [] else node.collect (path ++ [name'])) =
        node.collect (path ++ [name']) := if_neg hname.ne_git
    constructor
    · rintro ⟨listing, hmem, hq⟩
      rw [Entries.collect, hgit, List.mem_cons, Prod.mk.injEq] at hmem
      rcases hmem with ⟨rfl, rfl⟩ | hmem
      · obtain ⟨r, hr, hholds⟩ := (Node.mem_collect hnode).1 hq
        exact ⟨r, by rw [hr, List.append_assoc, List.singleton_append], .here hholds⟩
      · obtain ⟨r, hr, hholds⟩ := (Entries.mem_collect hrest).1 ⟨listing, hmem, hq⟩
        exact ⟨r, hr, .there hholds⟩
    · rintro ⟨r, rfl, h⟩
      rw [Entries.collect, hgit]
      cases h with
      | here h =>
        refine ⟨_, List.mem_cons_self, (Node.mem_collect hnode).2 ⟨r, ?_, h⟩⟩
        rw [List.append_assoc, List.singleton_append]
      | there h =>
        have hholds : ∃ r', path ++ name :: r = path ++ name :: r' ∧ rest.Holds (name :: r') e :=
          ⟨r, rfl, h⟩
        obtain ⟨listing, hmem, hq⟩ := (Entries.mem_collect hrest).2 hholds
        exact ⟨listing, List.mem_cons_of_mem _ hmem, hq⟩

end

theorem Entries.map_fst_collect (path : List String) : ∀ entries : Entries,
    (entries.collect path).map Prod.fst = entries.names
  | .nil => rfl
  | .cons name node rest => by
    rw [Entries.collect, Entries.names, List.map_cons, rest.map_fst_collect path]

theorem Entries.WellNamed.nodup : ∀ {entries : Entries}, entries.WellNamed → entries.names.Nodup
  | .nil, _ => List.nodup_nil
  | .cons _ _ _, ⟨_, hnot, _, hrest⟩ => List.nodup_cons.2 ⟨hnot, hrest.nodup⟩

/-- The names of a directory after sorting. -/
theorem pairwise_byName {entries : List (String × Listing)} (h : (entries.map Prod.fst).Nodup) :
    (byName entries).Pairwise fun a b => a.1 < b.1 := by
  have hle : (byName entries).Pairwise fun a b => a.1 ≤ b.1 := by
    have : Std.Total fun a b : String × Listing => a.1 ≤ b.1 := ⟨fun a b => le_total a.1 b.1⟩
    have : IsTrans (String × Listing) fun a b => a.1 ≤ b.1 := ⟨fun a b c => le_trans⟩
    exact List.pairwise_insertionSort _ _
  have hne : (byName entries).Pairwise fun a b => a.1 ≠ b.1 := by
    have hperm : (byName entries).Perm entries := List.perm_insertionSort _ _
    exact List.pairwise_map.1 ((hperm.map Prod.fst).nodup_iff.2 h)
  exact (hle.and hne).imp fun h => lt_of_le_of_ne h.1 h.2

mutual

theorem Node.pairwise_collect : ∀ {node : Node} (path : List String), node.WellNamed →
    (node.collect path).Pairwise fun a b => a.1 < b.1
  | .file content, path, _ => List.pairwise_singleton _ _
  | .symlink target, path, _ => List.pairwise_singleton _ _
  | .dir entries, path, hn => by
    rw [Node.collect, List.pairwise_flatMap]
    constructor
    · intro a ha
      exact Entries.pairwise_collect path hn a ((List.mem_insertionSort _).1 ha)
    · have hsorted : (byName (entries.collect path)).Pairwise fun a b => a.1 < b.1 :=
        pairwise_byName (by rw [entries.map_fst_collect]; exact Entries.WellNamed.nodup hn)
      -- a path goes through the name of its entry
      have hpath : ∀ a ∈ byName (entries.collect path), ∀ x ∈ a.2, ∃ r, x.1 = path ++ a.1 :: r := by
        intro a ha x hx
        obtain ⟨r, hr, _⟩ := (Entries.mem_collect hn).1 ⟨a.2, (List.mem_insertionSort _).1 ha, hx⟩
        exact ⟨r, hr⟩
      refine hsorted.imp_of_mem fun ha hb hlt x hx y hy => ?_
      obtain ⟨r, hr⟩ := hpath _ ha x hx
      obtain ⟨r', hr'⟩ := hpath _ hb y hy
      rw [hr, hr']
      exact List.append_left_lt (List.cons_lt_cons_iff.2 (Or.inl hlt))
  | .other, path, _ => List.Pairwise.nil

theorem Entries.pairwise_collect : ∀ {entries : Entries} (path : List String), entries.WellNamed →
    ∀ a ∈ entries.collect path, a.2.Pairwise fun x y => x.1 < y.1
  | .nil, path, _, a, ha => by cases ha
  | .cons name node rest, path, ⟨hname, _, hnode, hrest⟩, a, ha => by
    rw [Entries.collect, if_neg hname.ne_git, List.mem_cons] at ha
    rcases ha with rfl | ha
    · exact Node.pairwise_collect _ hnode
    · exact Entries.pairwise_collect path hrest a ha

end

/-- The listing of a tree. -/
def Tree.listing (t : Tree) : Listing := collectHashFiles t.root

theorem Tree.mem_listing (t : Tree) {path : List String} {e : HashEntry} :
    (path, e) ∈ t.listing ↔ t.Holds path e := by
  have hroot : (Node.dir t.root).WellNamed := t.wellNamed
  rw [Tree.listing, collectHashFiles, Node.mem_collect hroot]
  constructor
  · rintro ⟨r, rfl, h⟩
    cases h with
    | dir h => exact h
  · intro h
    exact ⟨path, rfl, .dir h⟩

theorem Tree.pairwise_listing (t : Tree) : t.listing.Pairwise fun a b => a.1 < b.1 := by
  have hroot : (Node.dir t.root).WellNamed := t.wellNamed
  exact Node.pairwise_collect [] hroot

/-- **The listing is that of the files and links.** -/
theorem Tree.listing_eq_iff (t t' : Tree) :
    t.listing = t'.listing ↔ ∀ path e, t.Holds path e ↔ t'.Holds path e := by
  constructor
  · intro h path e
    rw [← t.mem_listing, h, t'.mem_listing]
  · intro h
    have hnodup : ∀ t : Tree, t.listing.Nodup := fun t =>
      t.pairwise_listing.imp fun hlt heq => absurd (congrArg Prod.fst heq) (ne_of_lt hlt)
    have hperm : t.listing.Perm t'.listing := by
      rw [List.perm_ext_iff_of_nodup (hnodup t) (hnodup t')]
      rintro ⟨path, e⟩
      rw [t.mem_listing, t'.mem_listing, h]
    refine hperm.eq_of_pairwise (fun a b _ _ hab hba => ?_) t.pairwise_listing t'.pairwise_listing
    exact absurd hba (lt_asymm hab)

/-! ## The text of a listing -/

/-- The paths of a listing are made of file names. -/
def Listing.WellNamed (listing : Listing) : Prop :=
  ∀ entry ∈ listing, entry.1 ≠ [] ∧ ∀ name ∈ entry.1, IsFileName name

mutual

theorem Node.Holds.isFileName : ∀ {node : Node} {path : List String} {e : HashEntry},
    node.Holds path e → node.WellNamed → ∀ name ∈ path, IsFileName name
  | .dir _, _, _, .dir h, hn => h.isFileName hn
  | .file _, _, _, .file _, _ => by simp
  | .symlink _, _, _, .symlink _, _ => by simp

theorem Entries.Holds.isFileName : ∀ {entries : Entries} {path : List String} {e : HashEntry},
    entries.Holds path e → entries.WellNamed → ∀ name ∈ path, IsFileName name
  | .cons _ _ _, _, _, .here h, ⟨hname, _, hnode, _⟩ => List.forall_mem_cons.2
      ⟨hname, h.isFileName hnode⟩
  | .cons _ _ _, _, _, .there h, ⟨_, _, _, hrest⟩ => h.isFileName hrest

end

theorem Tree.wellNamed_listing (t : Tree) : t.listing.WellNamed := by
  rintro ⟨path, e⟩ h
  have hholds : t.root.Holds path e := t.mem_listing.1 h
  obtain ⟨name, rest, rfl, _⟩ := hholds.names
  exact ⟨List.cons_ne_nil _ _, hholds.isFileName t.wellNamed⟩

/-- Without backslashes the text of a path is the names joined by slashes. -/
theorem relativeText_eq {path : List String} (h : ∀ name ∈ path, IsFileName name) :
    relativeText path = (Router.joinSegments (path.map String.toList)).toList := by
  refine List.map_congr_left (g := id) (fun c hc => if_neg fun hback => ?_) |>.trans (List.map_id _)
  rw [Router.joinSegments, String.toList_ofList] at hc
  rcases Lib.Text.mem_intercalate hc with hslash | ⟨s, hs, hmem⟩
  · exact absurd (hback.symm.trans hslash) (by decide)
  · obtain ⟨name, hname, rfl⟩ := List.mem_map.1 hs
    exact (h name hname).backslash_notMem (hback ▸ hmem)

theorem relativeText_injective {path path' : List String} (hne : path ≠ []) (hne' : path' ≠ [])
    (h : ∀ name ∈ path, IsFileName name) (h' : ∀ name ∈ path', IsFileName name)
    (heq : relativeText path = relativeText path') : path = path' := by
  have hslash : ∀ {path : List String}, (∀ name ∈ path, IsFileName name) →
      ∀ s ∈ path.map String.toList, '/' ∉ s := by
    intro path h s hs
    obtain ⟨name, hname, rfl⟩ := List.mem_map.1 hs
    exact (h name hname).slash_notMem
  rw [relativeText_eq h, relativeText_eq h', String.toList_inj] at heq
  have hmap := Router.joinSegments_injective (by simpa using hne) (by simpa using hne') (hslash h)
    (hslash h') heq
  exact List.map_injective_iff.2 (fun _ _ => String.toList_inj.1) hmap

/-- No path has a NUL in it. -/
theorem nul_notMem_relativeText {path : List String} (h : ∀ name ∈ path, IsFileName name) :
    0 ∉ Lib.Utf8.encode (relativeText path) := by
  intro hmem
  rw [Lib.Utf8.mem_encode (a := '\x00') (b := 0) rfl, relativeText_eq h, Router.joinSegments,
    String.toList_ofList] at hmem
  rcases Lib.Text.mem_intercalate hmem with hslash | ⟨s, hs, hmem⟩
  · exact absurd hslash (by decide)
  · obtain ⟨name, hname, rfl⟩ := List.mem_map.1 hs
    exact (h name hname).nul_notMem hmem

theorem listingText_cons (path : List String) (e : HashEntry) (rest : Listing) :
    listingText ((path, e) :: rest) =
      Lib.Utf8.encode (relativeText path) ++ 0 :: e.kind :: (e.content ++ 0 :: listingText rest) := by
  simp [listingText, entryText]

/-- One listing runs on into the other: up to some path they agree; there both have a file, or both a
link, and the content of the second runs on into the entries that follow in the first. -/
def RunsInto (listing listing' : Listing) : Prop :=
  ∃ before path e e' rest rest', listing = before ++ (path, e) :: rest ∧
    listing' = before ++ (path, e') :: rest' ∧ e.kind = e'.kind ∧
    RunsOn e.content (0 :: listingText rest) e'.content (0 :: listingText rest')

theorem RunsInto.cons {listing listing' : Listing} (entry : List String × HashEntry)
    (h : RunsInto listing listing') : RunsInto (entry :: listing) (entry :: listing') := by
  obtain ⟨before, path, e, e', rest, rest', rfl, rfl, hkind, hruns⟩ := h
  exact ⟨entry :: before, path, e, e', rest, rest', rfl, rfl, hkind, hruns⟩

theorem RunsInto.ne {listing listing' : Listing} (h : RunsInto listing listing') :
    listing ≠ listing' := by
  obtain ⟨before, path, e, e', rest, rest', rfl, rfl, _, hruns⟩ := h
  intro heq
  rw [List.append_cancel_left_eq, List.cons.injEq, Prod.mk.injEq] at heq
  exact hruns.ne (congrArg HashEntry.content heq.1.2)

theorem RunsInto.text_eq {listing listing' : Listing} (h : RunsInto listing listing') :
    listingText listing = listingText listing' := by
  obtain ⟨before, path, e, e', rest, rest', rfl, rfl, hkind, hruns⟩ := h
  have hcontent : e.content ++ 0 :: listingText rest = e'.content ++ 0 :: listingText rest' :=
    Lib.Text.append_eq_append_iff_runsOn.2 (Or.inr (Or.inl hruns))
  have happend : ∀ l l' : Listing, listingText (l ++ l') = listingText l ++ listingText l' :=
    fun l l' => List.flatMap_append
  rw [happend, happend, listingText_cons, listingText_cons, hkind, hcontent]

/-- **The text determines the listing, unless one runs on into the other.** -/
theorem listingText_eq_iff : ∀ {listing listing' : Listing}, listing.WellNamed →
    listing'.WellNamed → (listingText listing = listingText listing' ↔
      listing = listing' ∨ RunsInto listing listing' ∨ RunsInto listing' listing) := by
  have hinj : ∀ {listing listing' : Listing}, listing.WellNamed → listing'.WellNamed →
      listingText listing = listingText listing' →
        listing = listing' ∨ RunsInto listing listing' ∨ RunsInto listing' listing := by
    intro listing
    induction listing with
    | nil =>
      rintro (_ | ⟨⟨path, e⟩, rest⟩) _ _ h
      · exact Or.inl rfl
      · rw [listingText_cons] at h
        exact absurd h.symm (by simp [listingText])
    | cons entry rest ih =>
      obtain ⟨path, e⟩ := entry
      rintro (_ | ⟨⟨path', e'⟩, rest'⟩) hl hl' h
      · rw [listingText_cons] at h
        exact absurd h (by simp [listingText])
      · obtain ⟨⟨hne, hpath⟩, hrest⟩ := List.forall_mem_cons.1 hl
        obtain ⟨⟨hne', hpath'⟩, hrest'⟩ := List.forall_mem_cons.1 hl'
        rw [listingText_cons, listingText_cons] at h
        obtain ⟨htext, hbody⟩ := Lib.Text.append_sep_inj (nul_notMem_relativeText hpath)
          (nul_notMem_relativeText hpath') h
        have hsame : path = path' := by
          refine relativeText_injective hne hne' hpath hpath' ?_
          rw [← Lib.Utf8.lossy_encode (relativeText path), htext, Lib.Utf8.lossy_encode]
        subst hsame
        obtain ⟨hkind, hbody⟩ := List.cons.inj hbody
        rcases Lib.Text.append_eq_append_iff_runsOn.1 hbody with ⟨hcontent, hnext⟩ | hruns | hruns
        · obtain rfl := HashEntry.ext_kind hkind hcontent
          rcases ih hrest hrest' (List.cons.inj hnext).2 with rfl | h | h
          · exact Or.inl rfl
          · exact Or.inr (Or.inl (h.cons _))
          · exact Or.inr (Or.inr (h.cons _))
        · exact Or.inr (Or.inl ⟨[], path, e, e', rest, rest', rfl, rfl, hkind, hruns⟩)
        · exact Or.inr (Or.inr ⟨[], path, e', e, rest', rest, rfl, rfl, hkind.symm, hruns⟩)
  intro listing listing' hl hl'
  constructor
  · exact hinj hl hl'
  · rintro (rfl | h | h)
    · rfl
    · exact h.text_eq
    · exact h.text_eq.symm

/-- Contents without NUL do not run on. -/
theorem not_runsInto {listing listing' : Listing}
    (h : ∀ entry ∈ listing', 0 ∉ entry.2.content) : ¬ RunsInto listing listing' := by
  rintro ⟨before, path, e, e', rest, rest', rfl, rfl, _, hruns⟩
  exact h (path, e') (by simp) hruns.mem

/-! ## What the hash identifies -/

/-- **When the hash identifies the tree.**  Two trees without a hash collision have the same hash
exactly if they hold the same files and links, unless one listing runs on into the other. -/
theorem treeSha256_identifies_iff (t t' : Tree)
    (hsha : sha256Hex (listingText (collectHashFiles t.root)) =
        sha256Hex (listingText (collectHashFiles t'.root)) →
      listingText (collectHashFiles t.root) = listingText (collectHashFiles t'.root)) :
    (treeSha256 t.root = treeSha256 t'.root ↔ ∀ path e, t.Holds path e ↔ t'.Holds path e) ↔
      ¬ RunsInto (collectHashFiles t.root) (collectHashFiles t'.root) ∧
        ¬ RunsInto (collectHashFiles t'.root) (collectHashFiles t.root) := by
  have hhash : treeSha256 t.root = treeSha256 t'.root ↔
      listingText t.listing = listingText t'.listing :=
    ⟨hsha, fun h => congrArg sha256Hex h⟩
  rw [hhash, ← t.listing_eq_iff, listingText_eq_iff t.wellNamed_listing t'.wellNamed_listing]
  constructor
  · intro h
    exact ⟨fun hruns => hruns.ne (h.1 (Or.inr (Or.inl hruns))),
      fun hruns => hruns.ne (h.1 (Or.inr (Or.inr hruns))).symm⟩
  · rintro ⟨hruns, hruns'⟩
    exact ⟨fun h => h.resolve_right fun h => h.elim hruns hruns', Or.inl⟩

/-- A link and a file with a NUL in it. -/
def linkTree : Tree where
  root := .cons "b" (.symlink [97]) (.cons "a" (.file [0]) .nil)
  wellNamed := ⟨by decide, by decide, trivial, by decide, by decide, trivial, trivial⟩

/-- The same, the other way round and beside an empty directory. -/
def linkTreeReversed : Tree where
  root := .cons "a" (.file [0]) (.cons "c" (.dir .nil) (.cons "b" (.symlink [97]) .nil))
  wellNamed := ⟨by decide, by decide, trivial, by decide, by decide, trivial, by decide,
    by decide, trivial, trivial⟩

theorem treeSha256_identifies_linkTree :
    (treeSha256 linkTree.root = treeSha256 linkTreeReversed.root ↔
        ∀ path e, linkTree.Holds path e ↔ linkTreeReversed.Holds path e) ↔
      ¬ RunsInto (collectHashFiles linkTree.root) (collectHashFiles linkTreeReversed.root) ∧
        ¬ RunsInto (collectHashFiles linkTreeReversed.root) (collectHashFiles linkTree.root) :=
  treeSha256_identifies_iff linkTree linkTreeReversed fun _ => by decide

/-- Two files. -/
def twoFiles : Tree where
  root := .cons "a" (.file [120]) (.cons "b" (.file [121]) .nil)
  wellNamed := ⟨by decide, by decide, trivial, by decide, by decide, trivial, trivial⟩

/-- One file, whose content is that of the first and then the text of the second. -/
def oneFile : Tree where
  root := .cons "a" (.file [120, 0, 98, 0, 102, 121]) .nil
  wellNamed := ⟨by decide, by decide, trivial, trivial⟩

/-- A tree of one file has the hash of a tree of two. -/
theorem treeSha256_twoFiles_eq_oneFile :
    listingText (collectHashFiles twoFiles.root) = listingText (collectHashFiles oneFile.root) ∧
      treeSha256 twoFiles.root = treeSha256 oneFile.root ∧
      ¬ ∀ path e, twoFiles.Holds path e ↔ oneFile.Holds path e := by
  have htext : listingText (collectHashFiles twoFiles.root) =
      listingText (collectHashFiles oneFile.root) := by decide
  refine ⟨htext, congrArg sha256Hex htext, fun h => ?_⟩
  rw [← Tree.listing_eq_iff] at h
  exact absurd h (by decide)

end Fkst.Manifest
