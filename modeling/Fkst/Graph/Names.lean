import Fkst.Lib.Checks
import Fkst.Lib.Table
import Fkst.Router.Identity

/-!
# Names

The names of queues, departments and raisers, as `path_resolver.rs` reads them.  A declaration and
the queues it mentions are named from inside a package; the rest of the engine works with canonical
names, which have the namespace of a package in front unless there is only one.

The errors are texts.  What the callers put in front of them (`with_context`) is left out.

Whatever is resolved is a name in the sense of `IsName`, so that ids of deliveries can be made of it.
-/

set_option autoImplicit false

namespace Fkst.Graph

open Lib.Checks (bind_eq_ok)
open Router (IsName)

/-- The characters of a segment of a name. -/
def isNameChar (c : Char) : Bool := c.isAlphanum || c == '_' || c == '-'

/-- `validate_name_segment`. -/
def validateNameSegment (label value : String) : Except String Unit :=
  if value.toList.isEmpty then .error (label ++ " must not be empty")
  else if !value.toList.all isNameChar then
    .error (label ++ " `" ++ value ++ "` must match [A-Za-z0-9_-]+")
  else .ok ()

/-- `ParsedName`. -/
inductive ParsedName where
  | bare (name : String)
  | qualified (nspace name : String)
deriving DecidableEq

/-- `parse_name`. -/
def parseName (raw : String) : Except String ParsedName :=
  match (raw.toList.splitOn '.').map String.ofList with
  | [name] => do
    validateNameSegment "name" name
    return .bare name
  | [nspace, name] => do
    validateNameSegment "namespace" nspace
    validateNameSegment "name" name
    return .qualified nspace name
  | _ => .error ("name `" ++ raw ++ "` must be bare `name` or qualified `namespace.name`")

/-- `{namespace}.{name}`. -/
def qualifiedName (nspace name : String) : String := nspace ++ "." ++ name

/-- `NameResolutionMode`. -/
inductive NameResolutionMode where
  | legacyFlat
  | namespaced
deriving DecidableEq

/-- `NameResolver`. -/
structure NameResolver where
  mode : NameResolutionMode
  namespaces : Std.ExtTreeSet String
  recordedOnlyQueues : Std.ExtTreeSet String

namespace NameResolver

/-- `NameResolver::new`. -/
def new (namespaces : List String) : NameResolver :=
  let namespaces := Std.ExtTreeSet.ofList namespaces
  ⟨if namespaces.size = 1 then .legacyFlat else .namespaced, namespaces, ∅⟩

/-- `with_recorded_only_queues`. -/
def withRecordedOnlyQueues (resolver : NameResolver) (queues : Std.ExtTreeSet String) : NameResolver :=
  { resolver with recordedOnlyQueues := queues }

@[simp] theorem mode_withRecordedOnlyQueues (resolver : NameResolver) (queues : Std.ExtTreeSet String) :
    (resolver.withRecordedOnlyQueues queues).mode = resolver.mode := rfl

@[simp] theorem namespaces_withRecordedOnlyQueues (resolver : NameResolver)
    (queues : Std.ExtTreeSet String) :
    (resolver.withRecordedOnlyQueues queues).namespaces = resolver.namespaces := rfl

@[simp] theorem recordedOnlyQueues_withRecordedOnlyQueues (resolver : NameResolver)
    (queues : Std.ExtTreeSet String) :
    (resolver.withRecordedOnlyQueues queues).recordedOnlyQueues = queues := rfl

/-- `add_recorded_only_queue`. -/
def addRecordedOnlyQueue (resolver : NameResolver) (queue : String) : NameResolver :=
  { resolver with recordedOnlyQueues := resolver.recordedOnlyQueues.insert queue }

section

variable (resolver : NameResolver) (ownerNamespace raw : String)

/-- The check of the owner namespace when it is used as a qualifier. -/
def validateQualifier : Except String Unit :=
  match resolver.mode with
  | .legacyFlat => .ok ()
  | .namespaced => validateNameSegment "owner namespace" ownerNamespace

/-- `validate_owner`. -/
def validateOwner : Except String Unit := do
  resolver.validateQualifier ownerNamespace
  if !resolver.namespaces.contains ownerNamespace then
    throw ("unknown owner namespace `" ++ ownerNamespace ++ "`")

/-- `resolve`. -/
def resolve : Except String String := do
  resolver.validateOwner ownerNamespace
  let parsed ← parseName raw
  match resolver.mode, parsed with
  | .legacyFlat, .bare name => return name
  | .legacyFlat, .qualified nspace name =>
    if resolver.recordedOnlyQueues.contains (qualifiedName nspace name) then
      return qualifiedName nspace name
    else if nspace ≠ ownerNamespace then
      throw ("qualified name `" ++ raw ++ "` uses namespace `" ++ nspace ++
        "` but legacy owner namespace is `" ++ ownerNamespace ++ "`")
    else return name
  | .namespaced, .bare name => return qualifiedName ownerNamespace name
  | .namespaced, .qualified nspace name =>
    if resolver.namespaces.contains nspace then return qualifiedName nspace name
    else if resolver.recordedOnlyQueues.contains (qualifiedName nspace name) then
      return qualifiedName nspace name
    else throw ("qualified name `" ++ raw ++ "` uses unknown namespace `" ++ nspace ++ "`")

/-- `canonical_decl_name`. -/
def canonicalDeclName : Except String String := do
  resolver.validateQualifier ownerNamespace
  validateNameSegment "declaration name" raw
  match resolver.mode with
  | .legacyFlat => return raw
  | .namespaced => return qualifiedName ownerNamespace raw

end

end NameResolver

/-! ## What is resolved is a name -/

/-- A segment of a name. -/
def IsSegment (value : String) : Prop := value.toList ≠ [] ∧ ∀ c ∈ value.toList, isNameChar c = true

instance (value : String) : Decidable (IsSegment value) :=
  decidable_of_iff (value.toList ≠ [] ∧ value.toList.all isNameChar = true)
    (and_congr_right' List.all_eq_true)

theorem isSegment_of_validate {label value : String}
    (h : validateNameSegment label value = .ok ()) : IsSegment value := by
  rw [validateNameSegment] at h
  split at h
  · cases h
  · rename_i hempty
    split at h
    · cases h
    · rename_i hchars
      refine ⟨by simpa using hempty, ?_⟩
      simpa [List.all_eq_true] using hchars

theorem IsSegment.dot_notMem {value : String} (h : IsSegment value) : '.' ∉ value.toList :=
  fun hmem => absurd (h.2 '.' hmem) (by decide)

theorem IsSegment.char {value : String} (h : IsSegment value) {c : Char} (hc : c ∈ value.toList) :
    c.isAlphanum ∨ c = '_' ∨ c = '-' ∨ c = '.' := by
  have := h.2 c hc
  simp only [isNameChar, Bool.or_eq_true, beq_iff_eq] at this
  tauto

theorem IsSegment.isName {value : String} (h : IsSegment value) : IsName value :=
  ⟨fun _ hc => h.char hc, by rw [List.count_eq_zero_of_not_mem h.dot_notMem]; exact Nat.zero_le 1⟩

theorem toList_qualifiedName (nspace name : String) :
    (qualifiedName nspace name).toList = nspace.toList ++ '.' :: name.toList := by
  simp [qualifiedName]

theorem isName_qualifiedName {nspace name : String} (hspace : IsSegment nspace)
    (hname : IsSegment name) : IsName (qualifiedName nspace name) := by
  rw [IsName, toList_qualifiedName]
  refine ⟨fun c hc => ?_, ?_⟩
  · rcases List.mem_append.1 hc with hc | hc
    · exact hspace.char hc
    · rcases List.mem_cons.1 hc with rfl | hc
      · exact Or.inr (Or.inr (Or.inr rfl))
      · exact hname.char hc
  · rw [List.count_append, List.count_cons_self, List.count_eq_zero_of_not_mem hspace.dot_notMem,
      List.count_eq_zero_of_not_mem hname.dot_notMem]

/-- A name as it is canonical: one segment, or a segment that qualifies another. -/
inductive IsCanonical : String → Prop
  | bare {name : String} (h : IsSegment name) : IsCanonical name
  | qualified {nspace name : String} (hspace : IsSegment nspace) (hname : IsSegment name) :
    IsCanonical (qualifiedName nspace name)

theorem IsCanonical.isName {name : String} (h : IsCanonical name) : IsName name := by
  cases h with
  | bare h => exact h.isName
  | qualified hspace hname => exact isName_qualifiedName hspace hname

/-- The segments of a parsed name. -/
def ParsedName.Ok : ParsedName → Prop
  | .bare name => IsSegment name
  | .qualified nspace name => IsSegment nspace ∧ IsSegment name

theorem parseName_ok {raw : String} {parsed : ParsedName} (h : parseName raw = .ok parsed) :
    parsed.Ok := by
  rw [parseName] at h
  split at h
  · obtain ⟨⟨⟩, hname, h⟩ := bind_eq_ok.1 h
    obtain rfl := Except.ok.inj h
    exact isSegment_of_validate hname
  · obtain ⟨⟨⟩, hspace, h⟩ := bind_eq_ok.1 h
    obtain ⟨⟨⟩, hname, h⟩ := bind_eq_ok.1 h
    obtain rfl := Except.ok.inj h
    exact ⟨isSegment_of_validate hspace, isSegment_of_validate hname⟩
  · cases h

theorem validate_of_isSegment (label : String) {value : String} (h : IsSegment value) :
    validateNameSegment label value = .ok () := by
  rw [validateNameSegment, if_neg (by simpa using h.1), if_neg (by simpa [List.all_eq_true] using h.2)]

/-- The text of a parsed name. -/
def ParsedName.text : ParsedName → String
  | .bare name => name
  | .qualified nspace name => qualifiedName nspace name

/-- A name is read as what it is written as. -/
theorem text_of_parseName {raw : String} {parsed : ParsedName} (h : parseName raw = .ok parsed) :
    parsed.text = raw := by
  have hjoin : ['.'].intercalate (raw.toList.splitOn '.') = raw.toList := List.intercalate_splitOn '.'
  rw [parseName] at h
  split at h
  · rename_i name hsplit
    obtain ⟨⟨⟩, _, h⟩ := bind_eq_ok.1 h
    obtain rfl := Except.ok.inj h
    obtain ⟨cs, hcs, rfl⟩ := List.map_eq_singleton_iff.1 hsplit
    rw [hcs, List.intercalate_singleton] at hjoin
    rw [ParsedName.text, hjoin, String.ofList_toList]
  · rename_i nspace name hsplit
    obtain ⟨⟨⟩, _, h⟩ := bind_eq_ok.1 h
    obtain ⟨⟨⟩, _, h⟩ := bind_eq_ok.1 h
    obtain rfl := Except.ok.inj h
    obtain ⟨cs, rest, hcs, rfl, hrest⟩ := List.map_eq_cons_iff.1 hsplit
    obtain ⟨ds, rfl, rfl⟩ := List.map_eq_singleton_iff.1 hrest
    rw [hcs, List.intercalate_cons_cons, List.intercalate_singleton, List.append_assoc,
      List.singleton_append] at hjoin
    rw [ParsedName.text, ← String.toList_inj, toList_qualifiedName, String.toList_ofList,
      String.toList_ofList, hjoin]
  · cases h

theorem parseName_bare {name : String} (h : IsSegment name) : parseName name = .ok (.bare name) := by
  have hsplit : (['.'].intercalate [name.toList]).splitOn '.' = [name.toList] :=
    List.splitOn_intercalate '.' (by simpa using h.dot_notMem) (by simp)
  rw [List.intercalate_singleton] at hsplit
  rw [parseName, hsplit]
  simp [validate_of_isSegment _ h, bind, Except.bind, pure, Except.pure]

theorem parseName_qualified {nspace name : String} (hspace : IsSegment nspace) (hname : IsSegment name) :
    parseName (qualifiedName nspace name) = .ok (.qualified nspace name) := by
  have hsplit : (['.'].intercalate [nspace.toList, name.toList]).splitOn '.' =
      [nspace.toList, name.toList] :=
    List.splitOn_intercalate '.' (by simpa using ⟨hspace.dot_notMem, hname.dot_notMem⟩) (by simp)
  rw [List.intercalate_cons_cons, List.intercalate_singleton, List.append_assoc,
    List.singleton_append, ← toList_qualifiedName] at hsplit
  rw [parseName, hsplit]
  simp [validate_of_isSegment _ hspace, validate_of_isSegment _ hname, bind, Except.bind, pure, Except.pure]

section Resolved

variable {resolver : NameResolver} {ownerNamespace raw name : String}

theorem NameResolver.isSegment_of_validateQualifier (hmode : resolver.mode = .namespaced)
    (h : resolver.validateQualifier ownerNamespace = .ok ()) : IsSegment ownerNamespace := by
  rw [validateQualifier, hmode] at h
  exact isSegment_of_validate h

/-- **What is resolved is a canonical name.** -/
theorem NameResolver.isCanonical_of_resolve (h : resolver.resolve ownerNamespace raw = .ok name) :
    IsCanonical name := by
  obtain ⟨⟨⟩, howner, h⟩ := bind_eq_ok.1 h
  obtain ⟨⟨⟩, hqualifier, _⟩ := bind_eq_ok.1 howner
  obtain ⟨parsed, hparsed, h⟩ := bind_eq_ok.1 h
  have hok := parseName_ok hparsed
  split at h
  · obtain rfl := Except.ok.inj h
    exact .bare hok
  · split at h
    · obtain rfl := Except.ok.inj h
      exact .qualified hok.1 hok.2
    · split at h
      · cases h
      · obtain rfl := Except.ok.inj h
        exact .bare hok.2
  · rename_i hmode
    obtain rfl := Except.ok.inj h
    exact .qualified (isSegment_of_validateQualifier hmode hqualifier) hok
  · split at h
    · obtain rfl := Except.ok.inj h
      exact .qualified hok.1 hok.2
    · split at h
      · obtain rfl := Except.ok.inj h
        exact .qualified hok.1 hok.2
      · cases h

theorem NameResolver.isCanonical_of_canonicalDeclName
    (h : resolver.canonicalDeclName ownerNamespace raw = .ok name) : IsCanonical name := by
  obtain ⟨⟨⟩, hqualifier, h⟩ := bind_eq_ok.1 h
  obtain ⟨⟨⟩, hname, h⟩ := bind_eq_ok.1 h
  have hsegment := isSegment_of_validate hname
  split at h
  · obtain rfl := Except.ok.inj h
    exact .bare hsegment
  · rename_i hmode
    obtain rfl := Except.ok.inj h
    exact .qualified (isSegment_of_validateQualifier hmode hqualifier) hsegment

end Resolved

end Fkst.Graph
