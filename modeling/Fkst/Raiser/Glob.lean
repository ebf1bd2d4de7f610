import Fkst.Lib.Glob
import Fkst.Lib.Text

/-!
# Globs

Two parts of the engine match globs: the raiser that watches files (`source_runner.rs`), with a
recursion over the segments and character by character, and the declarative conformance check
(`declarative_conformance.rs`), with a table over the segments and byte by byte.

`GlobMeans` is what a glob means.  Both matchers ask whether two symbols are the same before they ask
for a wildcard, so both go wrong on names with an asterisk, and the one over bytes also on question
marks that stand for characters of several bytes.  `globRight_iff` says that they are right
everywhere else, and that every such path and every glob with a wildcard in a name is part of some
case that goes wrong.
-/

set_option autoImplicit false

namespace Fkst.Raiser

open Lib
open Lib.Glob (Means Pins PathMeans isMatch isMatch_eq_true)

/-! ## Segments -/

/-- `split_path_segments`. -/
def splitPathSegments (text : List Char) : List (List Char) := text.splitOn '/'

/-- `normalize_separators`. -/
def normalizeSeparators (text : List Char) : List Char :=
  text.map fun c => if c = '\\' then '/' else c

/-- The segment that stands for any number of names. -/
def recursiveSegment : List Char := ['*', '*']

/-- `GlobSegment`: `none` is `Recursive`. -/
def globSegment (segment : List Char) : Option (List Char) :=
  if segment = recursiveSegment then none else some segment

/-- The segments of `GlobPattern::new`. -/
def globPattern (glob : List Char) : List (Option (List Char)) :=
  (splitPathSegments glob).map globSegment

/-- **What a glob means.** -/
def GlobMeans (glob path : List Char) : Prop :=
  PathMeans (Means '*' '?') (globPattern glob) (splitPathSegments path)

/-! ## The matcher of the raiser -/

/-- `glob_segment_match` of `source_runner.rs`. -/
def globSegmentMatch (glob text : List Char) : Bool := isMatch '*' '?' glob text

/-- `glob_segments_match`. -/
def globSegmentsMatch (glob path : List (List Char)) : Bool :=
  match glob with
  | [] => path.isEmpty
  | segment :: glob =>
    match path with
    | [] => segment = recursiveSegment && globSegmentsMatch glob []
    | name :: path =>
      if segment = recursiveSegment then
        globSegmentsMatch glob (name :: path) || globSegmentsMatch (segment :: glob) path
      else globSegmentMatch segment name && globSegmentsMatch glob path
termination_by glob.length + path.length

/-- `glob_matches_path`. -/
def globMatchesPath (glob path : List Char) : Bool :=
  globSegmentsMatch (splitPathSegments (normalizeSeparators glob))
    (splitPathSegments (normalizeSeparators path))

/-! ## The matcher of the conformance check -/

/-- `glob_segment_match` of `declarative_conformance.rs`. -/
def globSegmentMatchBytes (pattern text : List Char) : Bool :=
  isMatch 42 63 (Utf8.encode pattern) (Utf8.encode text)

/-- One row of the table of `match_segments`, from its end: an entry for each end of the path. -/
def matchRow (segment : Option (List Char)) : List (List Char) → List Bool → List Bool
  | [], next => [segment.isNone && next.headD false]
  | name :: path, next =>
    let row := matchRow segment path next.tail
    let entry := match segment with
      | none => next.headD false || row.headD false
      | some segment => globSegmentMatchBytes segment name && next.tail.headD false
    entry :: row

/-- `match_segments`. -/
def matchSegments (pattern : List (Option (List Char))) (path : List (List Char)) : Bool :=
  (pattern.foldr (fun segment row => matchRow segment path row)
    (path.map (fun _ => false) ++ [true])).headD false

/-! ## What the matchers decide -/

section Decide

theorem globSegment_recursive : globSegment recursiveSegment = none := if_pos rfl

theorem globSegment_of_ne {segment : List Char} (h : segment ≠ recursiveSegment) :
    globSegment segment = some segment := if_neg h

/-- What the matcher of the raiser decides. -/
theorem globSegmentsMatch_eq_true {glob path : List (List Char)} :
    globSegmentsMatch glob path = true ↔ PathMeans (Pins '*' '?') (glob.map globSegment) path := by
  fun_induction globSegmentsMatch glob path with
  | case1 path => simp [PathMeans]
  | case2 segment glob ih =>
    rw [List.map_cons, Bool.and_eq_true, decide_eq_true_eq, ih]
    by_cases h : segment = recursiveSegment
    · rw [h, globSegment_recursive, Lib.Glob.pathMeans_none_nil]
      simp
    · rw [globSegment_of_ne h]
      simp [h, PathMeans]
  | case3 glob name path ih ih' =>
    rw [List.map_cons, globSegment_recursive, Lib.Glob.pathMeans_none_cons, Bool.or_eq_true, ih, ih',
      List.map_cons, globSegment_recursive]
  | case4 segment glob name path h ih =>
    rw [List.map_cons, globSegment_of_ne h, Lib.Glob.pathMeans_some_cons, Bool.and_eq_true, ih,
      globSegmentMatch, isMatch_eq_true (by decide)]

/-- What the conformance check takes for a match of one name. -/
def PinsBytes (segment name : List Char) : Prop :=
  Pins (42 : UInt8) 63 (Utf8.encode segment) (Utf8.encode name)

/-- A row of the table has an answer for every end of the path. -/
def Answers (answer : List (List Char) → Prop) : List (List Char) → List Bool → Prop
  | [], row => ∃ b : Bool, row = [b] ∧ (b = true ↔ answer [])
  | name :: path, row => ∃ (b : Bool) (rest : List Bool), row = b :: rest ∧
      (b = true ↔ answer (name :: path)) ∧ Answers answer path rest

theorem Answers.headD {answer : List (List Char) → Prop} {path : List (List Char)} {row : List Bool}
    (h : Answers answer path row) : row.headD false = true ↔ answer path := by
  cases path with
  | nil =>
    obtain ⟨b, rfl, hb⟩ := h
    exact hb
  | cons name path =>
    obtain ⟨b, rest, rfl, hb, _⟩ := h
    exact hb

theorem answers_last (path : List (List Char)) :
    Answers (PathMeans PinsBytes []) path (path.map (fun _ => false) ++ [true]) := by
  induction path with
  | nil => exact ⟨true, rfl, by simp [PathMeans]⟩
  | cons name path ih => exact ⟨false, _, rfl, by simp [PathMeans], ih⟩

/-- One row of the table from the row behind it. -/
theorem answers_matchRow {segment : Option (List Char)} {pattern : List (Option (List Char))}
    {path : List (List Char)} {next : List Bool} (h : Answers (PathMeans PinsBytes pattern) path next) :
    Answers (PathMeans PinsBytes (segment :: pattern)) path (matchRow segment path next) := by
  induction path generalizing next with
  | nil =>
    refine ⟨_, rfl, ?_⟩
    rw [Bool.and_eq_true, h.headD]
    cases segment with
    | none => simp [Lib.Glob.pathMeans_none_nil]
    | some segment => simp [PathMeans]
  | cons name path ih =>
    obtain ⟨b, rest, rfl, hb, hrest⟩ := h
    refine ⟨_, _, rfl, ?_, ih hrest⟩
    cases segment with
    | none =>
      rw [Lib.Glob.pathMeans_none_cons]
      simp only [List.headD_cons, List.tail_cons, Bool.or_eq_true, hb, (ih hrest).headD]
    | some segment =>
      rw [Lib.Glob.pathMeans_some_cons]
      simp only [List.tail_cons, Bool.and_eq_true, hrest.headD, globSegmentMatchBytes,
        isMatch_eq_true (show (42 : UInt8) ≠ 63 by decide)]
      rfl

/-- What the conformance check decides. -/
theorem matchSegments_eq_true {pattern : List (Option (List Char))} {path : List (List Char)} :
    matchSegments pattern path = true ↔ PathMeans PinsBytes pattern path := by
  have h : ∀ pattern : List (Option (List Char)), Answers (PathMeans PinsBytes pattern) path
      (pattern.foldr (fun segment row => matchRow segment path row)
        (path.map (fun _ => false) ++ [true])) := by
    intro pattern
    induction pattern with
    | nil => exact answers_last path
    | cons segment pattern ih => exact answers_matchRow ih
  exact (h pattern).headD

end Decide

/-! ## Where they are right -/

/-- Text without backslashes. -/
def NoBackslash (text : List Char) : Prop := '\\' ∉ text

instance (text : List Char) : Decidable (NoBackslash text) := inferInstanceAs (Decidable (_ ∉ text))

/-- Text in which every character is one byte. -/
def Ascii (text : List Char) : Prop := ∀ c ∈ text, c.utf8Size = 1

instance (text : List Char) : Decidable (Ascii text) :=
  decidable_of_iff (text.all (·.utf8Size = 1)) (by simp [Ascii])

/-- **Both matchers say what a glob means.** -/
def GlobRight (glob path : List Char) : Prop :=
  (globMatchesPath glob path = true ↔ GlobMeans glob path) ∧
    (matchSegments (globPattern glob) (splitPathSegments path) = true ↔ GlobMeans glob path)

/-- No asterisk of a glob is held against a name with one, and no question mark against a name with
characters of several bytes. -/
def Harmless (glob path : List Char) : Prop :=
  ∀ segment ∈ splitPathSegments glob, segment ≠ recursiveSegment →
    ∀ name ∈ splitPathSegments path,
      ('*' ∉ segment ∨ '*' ∉ name) ∧ ('?' ∉ segment ∨ Ascii name)

instance (glob path : List Char) : Decidable (Harmless glob path) :=
  inferInstanceAs (Decidable (∀ segment ∈ splitPathSegments glob, segment ≠ recursiveSegment →
    ∀ name ∈ splitPathSegments path, ('*' ∉ segment ∨ '*' ∉ name) ∧ ('?' ∉ segment ∨ Ascii name)))

section Right

variable {glob path : List Char}

theorem normalizeSeparators_of_noBackslash (h : NoBackslash glob) : normalizeSeparators glob = glob := by
  refine (List.map_congr_left fun c hc => if_neg ?_).trans (List.map_id _)
  rintro rfl
  exact h hc

theorem globMatchesPath_eq_true (hglob : NoBackslash glob) (hpath : NoBackslash path) :
    globMatchesPath glob path = true ↔
      PathMeans (Pins '*' '?') (globPattern glob) (splitPathSegments path) := by
  rw [globMatchesPath, normalizeSeparators_of_noBackslash hglob,
    normalizeSeparators_of_noBackslash hpath, globSegmentsMatch_eq_true]
  rfl

theorem some_mem_globPattern {segment : List Char} :
    some segment ∈ globPattern glob ↔ segment ∈ splitPathSegments glob ∧ segment ≠ recursiveSegment := by
  rw [globPattern, List.mem_map]
  constructor
  · rintro ⟨segment', hmem, hsome⟩
    rw [globSegment] at hsome
    split at hsome
    · cases hsome
    · obtain rfl := Option.some.inj hsome
      exact ⟨hmem, by assumption⟩
  · exact fun ⟨hmem, hne⟩ => ⟨segment, hmem, globSegment_of_ne hne⟩

theorem mem_reduceOption_globPattern {segment : List Char} :
    segment ∈ (globPattern glob).reduceOption ↔
      segment ∈ splitPathSegments glob ∧ segment ≠ recursiveSegment := by
  rw [List.reduceOption_mem_iff, some_mem_globPattern]

theorem pinsBytes_iff {segment name : List Char} (hstar : '*' ∉ segment ∨ '*' ∉ name)
    (hany : '?' ∉ segment ∨ Ascii name) : PinsBytes segment name ↔ Means '*' '?' segment name := by
  have hs : String.utf8EncodeChar '*' = [42] := by decide
  have ha : String.utf8EncodeChar '?' = [63] := by decide
  have hbytes : 42 ∉ Utf8.encode segment ∨ 42 ∉ Utf8.encode name := by
    rwa [Utf8.mem_encode hs, Utf8.mem_encode hs]
  rw [PinsBytes, Lib.Glob.pins_iff hbytes, Lib.Glob.means_encode hs ha (by decide) hany]

/-- Both matchers are right where no wildcard comes upon what it cannot handle. -/
theorem globRight_of_harmless (hglob : NoBackslash glob) (hpath : NoBackslash path)
    (h : Harmless glob path) : GlobRight glob path := by
  constructor
  · rw [globMatchesPath_eq_true hglob hpath]
    refine Lib.Glob.pathMeans_congr fun segment hsegment name hname => ?_
    obtain ⟨hmem, hne⟩ := some_mem_globPattern.1 hsegment
    exact Lib.Glob.pins_iff (h segment hmem hne name hname).1
  · rw [matchSegments_eq_true]
    refine Lib.Glob.pathMeans_congr fun segment hsegment name hname => ?_
    obtain ⟨hmem, hne⟩ := some_mem_globPattern.1 hsegment
    obtain ⟨hstar, hany⟩ := h segment hmem hne name hname
    exact pinsBytes_iff hstar hany

/-- A glob that is matched name by name, if it is matched rightly. -/
theorem forall₂_of_globRight (hglob : NoBackslash glob) (hpath : NoBackslash path)
    (h : List.Forall₂ (Means '*' '?') (globPattern glob).reduceOption (splitPathSegments path))
    (hright : GlobRight glob path) :
    List.Forall₂ (Pins '*' '?') (globPattern glob).reduceOption (splitPathSegments path) ∧
      List.Forall₂ PinsBytes (globPattern glob).reduceOption (splitPathSegments path) := by
  have hlength := h.length_eq.symm
  have hmeans : GlobMeans glob path := (Lib.Glob.pathMeans_iff_forall₂ hlength).2 h
  constructor
  · have hmatch := hright.1.2 hmeans
    rwa [globMatchesPath_eq_true hglob hpath, Lib.Glob.pathMeans_iff_forall₂ hlength] at hmatch
  · have hmatch := hright.2.2 hmeans
    rwa [matchSegments_eq_true, Lib.Glob.pathMeans_iff_forall₂ hlength] at hmatch

/-- The names of a text are in it. -/
theorem mem_of_mem_splitPathSegments {text name : List Char} (hname : name ∈ splitPathSegments text)
    {c : Char} (hc : c ∈ name) : c ∈ text := by
  have hjoin : ['/'].intercalate (splitPathSegments text) = text := List.intercalate_splitOn '/'
  rw [← hjoin]
  exact Text.mem_intercalate_of_mem hname hc

theorem slash_notMem {text name : List Char} (hname : name ∈ splitPathSegments text) : '/' ∉ name :=
  Text.notMem_of_mem_splitOn hname

theorem exists_name_of_mem {text : List Char} {c : Char} (hne : c ≠ '/') (hc : c ∈ text) :
    ∃ name ∈ splitPathSegments text, c ∈ name := by
  have hjoin : ['/'].intercalate (splitPathSegments text) = text := List.intercalate_splitOn '/'
  rw [← hjoin] at hc
  rcases Text.mem_intercalate hc with hc | hc
  · exact absurd hc hne
  · exact hc

/-! ## Where they are wrong -/

/-- A list of names is the split of the path that they make. -/
theorem splitPathSegments_intercalate {names : List (List Char)} (hne : names ≠ [])
    (h : ∀ name ∈ names, '/' ∉ name) : splitPathSegments (['/'].intercalate names) = names :=
  List.splitOn_intercalate '/' h hne

theorem splitPathSegments_ne_nil (text : List Char) : splitPathSegments text ≠ [] :=
  List.splitOn_ne_nil '/' text

theorem noBackslash_intercalate {names : List (List Char)} (h : ∀ name ∈ names, NoBackslash name) :
    NoBackslash (['/'].intercalate names) := by
  intro hmem
  rcases Text.mem_intercalate hmem with hslash | ⟨name, hname, hmem⟩
  · cases hslash
  · exact h name hname hmem

/-- **Every name that a glob of its own misses** is a name of paths that a glob misses. -/
theorem exists_glob_of_name (hpath : NoBackslash path) (segment : List Char → List Char)
    (hwild : ∀ name, ∀ c ∈ segment name, c = '*' ∨ c = '?')
    (hrec : ∀ name, segment name ≠ recursiveSegment)
    (hmeans : ∀ name, Means '*' '?' (segment name) name) {name : List Char}
    (hname : name ∈ splitPathSegments path)
    (hmiss : ¬ (Pins '*' '?' (segment name) name ∧ PinsBytes (segment name) name)) :
    ∃ glob, NoBackslash glob ∧ ¬ GlobRight glob path := by
  have hnot : ∀ c, c ≠ '*' → c ≠ '?' → ∀ s ∈ (splitPathSegments path).map segment, c ∉ s := by
    intro c hstar hany s hs hc
    obtain ⟨name, _, rfl⟩ := List.mem_map.1 hs
    exact (hwild name c hc).elim hstar hany
  have hglob : NoBackslash (['/'].intercalate ((splitPathSegments path).map segment)) :=
    noBackslash_intercalate (hnot _ (by decide) (by decide))
  have hpattern : (globPattern (['/'].intercalate ((splitPathSegments path).map segment))).reduceOption =
      (splitPathSegments path).map segment := by
    rw [globPattern, splitPathSegments_intercalate (by simpa using splitPathSegments_ne_nil path)
      (hnot _ (by decide) (by decide)), List.map_map, List.reduceOption, List.filterMap_map,
      ← List.filterMap_eq_map]
    exact List.filterMap_congr fun name _ => globSegment_of_ne (hrec name)
  refine ⟨_, hglob, fun hright => hmiss ?_⟩
  have hforall := forall₂_of_globRight hglob hpath (by
    rw [hpattern, List.forall₂_map_left_iff]
    exact List.forall₂_same.2 fun name _ => hmeans name) hright
  rw [hpattern, List.forall₂_map_left_iff, List.forall₂_map_left_iff] at hforall
  exact ⟨List.forall₂_same.1 hforall.1 name hname, List.forall₂_same.1 hforall.2 name hname⟩

/-- **Every segment that misses a name** is a segment of globs that miss a path. -/
theorem exists_path_of_segment (hglob : NoBackslash glob) (text : List Char → List Char)
    (hchars : ∀ segment ∈ splitPathSegments glob, ∀ c ∈ text segment,
      c ∈ segment ∨ c ≠ '/' ∧ c ≠ '\\')
    (hmeans : ∀ segment, Means '*' '?' segment (text segment)) {segment : List Char}
    (hsegment : segment ∈ splitPathSegments glob) (hne : segment ≠ recursiveSegment)
    (hmiss : ¬ (Pins '*' '?' segment (text segment) ∧ PinsBytes segment (text segment))) :
    ∃ path, NoBackslash path ∧ ¬ GlobRight glob path := by
  have hmem := mem_reduceOption_globPattern.2 ⟨hsegment, hne⟩
  have hslash : ∀ name ∈ (globPattern glob).reduceOption.map text, '/' ∉ name := by
    intro name hname hc
    obtain ⟨s, hs, rfl⟩ := List.mem_map.1 hname
    have hs := (mem_reduceOption_globPattern.1 hs).1
    exact (hchars s hs _ hc).elim (slash_notMem hs) fun h => h.1 rfl
  have hsplit := splitPathSegments_intercalate (by simpa using List.ne_nil_of_mem hmem) hslash
  have hpath : NoBackslash (['/'].intercalate ((globPattern glob).reduceOption.map text)) := by
    refine noBackslash_intercalate fun name hname hc => ?_
    obtain ⟨s, hs, rfl⟩ := List.mem_map.1 hname
    have hs := (mem_reduceOption_globPattern.1 hs).1
    exact (hchars s hs _ hc).elim (fun hc => hglob (mem_of_mem_splitPathSegments hs hc)) fun h => h.2 rfl
  refine ⟨_, hpath, fun hright => hmiss ?_⟩
  have hforall := forall₂_of_globRight hglob hpath (by
    rw [hsplit, List.forall₂_map_right_iff]
    exact List.forall₂_same.2 fun s _ => hmeans s) hright
  rw [hsplit, List.forall₂_map_right_iff, List.forall₂_map_right_iff] at hforall
  exact ⟨List.forall₂_same.1 hforall.1 segment hmem, List.forall₂_same.1 hforall.2 segment hmem⟩

theorem not_pinsBytes_of_length_lt {segment name : List Char} (hstar : '*' ∉ segment)
    (h : (Utf8.encode segment).length < (Utf8.encode name).length) : ¬ PinsBytes segment name := by
  intro hpins
  have hs : String.utf8EncodeChar '*' = [42] := by decide
  have hlength := Lib.Glob.length_of_pins (by rwa [Utf8.mem_encode hs]) hpins
  omega

/-- Question marks for all characters of a name. -/
def anyName (name : List Char) : List Char := List.replicate name.length '?'

theorem anyName_ne_recursiveSegment (name : List Char) : anyName name ≠ recursiveSegment := by
  intro h
  have hmem : '*' ∈ anyName name := by
    rw [h]
    exact List.mem_cons_self
  cases List.eq_of_mem_replicate hmem

theorem means_anyName (name : List Char) : Means '*' '?' (anyName name) name :=
  Lib.Glob.means_of_literal (Lib.Glob.literal_replicate name)

theorem length_encode_anyName (name : List Char) :
    (Utf8.encode (anyName name)).length = name.length := by
  have ha : String.utf8EncodeChar '?' = [63] := by decide
  rw [anyName, Utf8.encode, List.flatMap_replicate, ha]
  simp

/-- Some glob misses a path with an asterisk. -/
theorem exists_glob_of_star (hpath : NoBackslash path) (hstar : '*' ∈ path) :
    ∃ glob, NoBackslash glob ∧ ¬ GlobRight glob path := by
  have hsegment : ∀ name : List Char, ∃ segment : List Char, (∀ c ∈ segment, c = '*' ∨ c = '?') ∧
      segment ≠ recursiveSegment ∧ Means '*' '?' segment name ∧
      ('*' ∈ name → ¬ Pins '*' '?' segment name) := by
    intro name
    by_cases h : '*' ∈ name
    · obtain ⟨segment, hwild, hany, hmeans, hmiss⟩ :=
        Lib.Glob.exists_pattern (show '*' ≠ '?' by decide) h
      refine ⟨segment, hwild, ?_, hmeans, fun _ => hmiss⟩
      rintro rfl
      exact absurd hany (by decide)
    · exact ⟨anyName name, fun c hc => Or.inr (List.eq_of_mem_replicate hc),
        anyName_ne_recursiveSegment name, means_anyName name, fun hmem => absurd hmem h⟩
  choose segment hwild hrec hmeans hmiss using hsegment
  obtain ⟨name, hname, hmem⟩ := exists_name_of_mem (by decide) hstar
  exact exists_glob_of_name hpath segment hwild hrec hmeans hname fun h => hmiss name hmem h.1

/-- Some glob misses a path with a character of several bytes. -/
theorem exists_glob_of_not_ascii (hpath : NoBackslash path) (hascii : ¬ Ascii path) :
    ∃ glob, NoBackslash glob ∧ ¬ GlobRight glob path := by
  simp only [Ascii, not_forall] at hascii
  obtain ⟨c, hc, hsize⟩ := hascii
  obtain ⟨name, hname, hc⟩ := exists_name_of_mem (by rintro rfl; exact hsize (by decide)) hc
  refine exists_glob_of_name hpath anyName (fun name c hc => Or.inr (List.eq_of_mem_replicate hc))
    anyName_ne_recursiveSegment means_anyName hname fun h => not_pinsBytes_of_length_lt ?_ ?_ h.2
  · exact fun hmem => absurd (List.eq_of_mem_replicate hmem) (by decide)
  · rw [length_encode_anyName]
    exact Utf8.length_lt_encode hc hsize

/-- A segment with an asterisk misses a path. -/
theorem exists_path_of_star (hglob : NoBackslash glob) {segment : List Char}
    (hsegment : segment ∈ splitPathSegments glob) (hne : segment ≠ recursiveSegment)
    (hstar : '*' ∈ segment) : ∃ path, NoBackslash path ∧ ¬ GlobRight glob path := by
  have htext : ∀ segment : List Char, ∃ text : List Char, (∀ c ∈ text, c ∈ segment ∨ c = 'x') ∧
      Means '*' '?' segment text ∧ ('*' ∈ segment → ¬ Pins '*' '?' segment text) := by
    intro segment
    by_cases h : '*' ∈ segment
    · obtain ⟨text, hchars, hmeans, hmiss⟩ :=
        Lib.Glob.exists_text (show '*' ≠ '?' by decide) h 'x'
      exact ⟨text, hchars, hmeans, fun _ => hmiss⟩
    · exact ⟨segment, fun c hc => Or.inl hc,
        Lib.Glob.means_of_literal (Lib.Glob.literal_self segment), fun hmem => absurd hmem h⟩
  choose text hchars hmeans hmiss using htext
  refine exists_path_of_segment hglob text (fun segment _ c hc => (hchars segment c hc).imp_right ?_)
    hmeans hsegment hne fun h => hmiss segment hstar h.1
  rintro rfl
  decide

/-- A name with a character of two bytes for every question mark. -/
def accented (segment : List Char) : List Char := segment.map fun c => if c = '?' then 'é' else c

theorem means_accented (segment : List Char) : Means '*' '?' segment (accented segment) := by
  have hliteral : Lib.Glob.Literal '?' segment (accented segment) := by
    rw [accented, Lib.Glob.Literal, List.forall₂_map_right_iff]
    refine List.forall₂_same.2 fun c _ => ?_
    split
    · exact Or.inl ‹_›
    · exact Or.inr rfl
  exact Lib.Glob.means_of_literal hliteral

theorem length_encode_le_accented (segment : List Char) :
    (Utf8.encode segment).length ≤ (Utf8.encode (accented segment)).length := by
  induction segment with
  | nil => exact Nat.le_refl _
  | cons c segment ih =>
    rw [accented, List.map_cons, Utf8.encode_cons, Utf8.encode_cons, List.length_append,
      List.length_append, ← accented]
    refine Nat.add_le_add ?_ ih
    split
    · rename_i hc
      rw [hc]
      decide
    · exact Nat.le_refl _

theorem length_encode_lt_accented {segment : List Char} (h : '?' ∈ segment) :
    (Utf8.encode segment).length < (Utf8.encode (accented segment)).length := by
  obtain ⟨front, rest, rfl⟩ := List.append_of_mem h
  have hfront := length_encode_le_accented front
  have hrest := length_encode_le_accented rest
  have hany : (String.utf8EncodeChar '?').length < (String.utf8EncodeChar 'é').length := by decide
  rw [accented, List.map_append, List.map_cons, if_pos rfl, ← accented, ← accented,
    Utf8.encode_append, Utf8.encode_append, Utf8.encode_cons, Utf8.encode_cons]
  simp only [List.length_append]
  omega

/-- A segment with a question mark misses a path. -/
theorem exists_path_of_any (hglob : NoBackslash glob) {segment : List Char}
    (hsegment : segment ∈ splitPathSegments glob) (hne : segment ≠ recursiveSegment)
    (hany : '?' ∈ segment) : ∃ path, NoBackslash path ∧ ¬ GlobRight glob path := by
  by_cases hstar : '*' ∈ segment
  · exact exists_path_of_star hglob hsegment hne hstar
  · refine exists_path_of_segment hglob accented (fun segment _ c hc => ?_) means_accented hsegment hne
      fun h => not_pinsBytes_of_length_lt hstar (length_encode_lt_accented hany) h.2
    obtain ⟨d, hd, rfl⟩ := List.mem_map.1 hc
    split
    · exact Or.inr (by decide)
    · exact Or.inl hd

end Right

/-- **Where the matchers are right.**  They are where no asterisk comes upon an asterisk and no
question mark upon a character of several bytes; they are for all globs on the paths that have
neither, and for all paths with the globs that have no wildcard in a name. -/
theorem globRight_iff (glob path : List Char) (hglob : NoBackslash glob) (hpath : NoBackslash path) :
    (Harmless glob path → GlobRight glob path) ∧
    ((∀ glob, NoBackslash glob → GlobRight glob path) ↔ '*' ∉ path ∧ Ascii path) ∧
    ((∀ path, NoBackslash path → GlobRight glob path) ↔
      ∀ segment ∈ splitPathSegments glob, segment ≠ recursiveSegment →
        '*' ∉ segment ∧ '?' ∉ segment) := by
  refine ⟨globRight_of_harmless hglob hpath, ⟨fun h => ?_, fun h glob hglob => ?_⟩,
    fun h segment hsegment hne => ?_, fun h path hpath => ?_⟩
  · constructor
    · intro hstar
      obtain ⟨glob, hglob, hwrong⟩ := exists_glob_of_star hpath hstar
      exact hwrong (h glob hglob)
    · by_contra hascii
      obtain ⟨glob, hglob, hwrong⟩ := exists_glob_of_not_ascii hpath hascii
      exact hwrong (h glob hglob)
  · refine globRight_of_harmless hglob hpath fun segment _ _ name hname => ⟨Or.inr ?_, Or.inr ?_⟩
    · exact fun hmem => h.1 (mem_of_mem_splitPathSegments hname hmem)
    · exact fun c hc => h.2 c (mem_of_mem_splitPathSegments hname hc)
  · constructor
    · intro hstar
      obtain ⟨path, hpath, hwrong⟩ := exists_path_of_star hglob hsegment hne hstar
      exact hwrong (h path hpath)
    · intro hany
      obtain ⟨path, hpath, hwrong⟩ := exists_path_of_any hglob hsegment hne hany
      exact hwrong (h path hpath)
  · refine globRight_of_harmless hglob hpath fun segment hsegment hne name _ => ⟨Or.inl ?_, Or.inl ?_⟩
    · exact (h segment hsegment hne).1
    · exact (h segment hsegment hne).2

/-- The files of a directory, with names in ASCII. -/
theorem globRight_sample : GlobRight "**/*.lua".toList "a/b.lua".toList :=
  (globRight_iff _ _ (by decide) (by decide)).1 (by decide)

/-- An asterisk misses the file `*a`, and for the conformance check a question mark misses `é`. -/
theorem glob_misses : ¬ (∀ glob path, NoBackslash glob → NoBackslash path → GlobRight glob path) ∧
    (GlobMeans "*".toList "*a".toList ∧ globMatchesPath "*".toList "*a".toList = false) ∧
    GlobMeans "?".toList "é".toList ∧ globMatchesPath "?".toList "é".toList = true ∧
    matchSegments (globPattern "?".toList) (splitPathSegments "é".toList) = false := by
  have hstar : GlobMeans "*".toList "*a".toList :=
    ⟨_, [], rfl, ⟨[], by decide, rfl⟩, rfl⟩
  have hany : GlobMeans "?".toList "é".toList :=
    ⟨_, [], rfl, ⟨'é', [], rfl, Or.inl rfl, rfl⟩, rfl⟩
  have hmiss : globMatchesPath "*".toList "*a".toList = false := by
    rw [Bool.eq_false_iff, ne_eq, globMatchesPath_eq_true (by decide) (by decide)]
    rintro ⟨name, rest, hsplit, hpins, _⟩
    obtain rfl : name = ['*', 'a'] := (List.cons.inj hsplit).1.symm
    cases hpins
  refine ⟨fun h => ?_, ⟨hstar, hmiss⟩, hany, ?_, ?_⟩
  · have hright := (h _ _ (by decide) (by decide)).1.2 hstar
    rw [hmiss] at hright
    cases hright
  · rw [globMatchesPath_eq_true (by decide) (by decide)]
    exact ⟨_, [], rfl, ⟨'é', [], rfl, Or.inl rfl, rfl⟩, rfl⟩
  · rw [Bool.eq_false_iff, ne_eq, matchSegments_eq_true]
    rintro ⟨name, rest, hsplit, hpins, _⟩
    obtain rfl : name = ['é'] := (List.cons.inj hsplit).1.symm
    exact not_pinsBytes_of_length_lt (by decide) (by decide) hpins

end Fkst.Raiser
