import Fkst.Escape
import Fkst.Lib.Checks

/-!
# Runtime keys

A runtime key is a relative path whose segments are made of letters, digits, `.`, `_` and `-`.  The
router makes the ids of deliveries this way: `runtime_key` escapes every part, `runtime_key_v3` takes
some parts as they are, and both cut what they escaped into segments of 200 bytes.

The segments of a part determine the part (`runtimeKeyPartSegments_injective`), although an escape
may be cut in two and a segment of dots is rewritten; the segments of a key can be read off the key
(`joinSegments_injective`); and all but the last segment of a part are long (`Block`), which is what
tells the parts apart.
-/

set_option autoImplicit false

namespace Fkst.Router

open Lib.Codec
open Lib.Checks (bind_eq_ok forM_eq_ok)

/-! ## Validation -/

/-- `FkstError`, as far as validation raises it. -/
inductive FkstError where
  | schema (message : String)
deriving DecidableEq

/-- What `validate_runtime_key` asks of a segment.  Lengths are in bytes. -/
def validateSegment (key : String) (segment : List Char) : Except FkstError Unit :=
  if segment.isEmpty then
    .error (.schema ("runtime key '" ++ key ++ "' contains an empty path segment"))
  else if segment.all (· == '.') then
    .error (.schema ("runtime key '" ++ key ++ "' contains all-dots path segment '" ++
      String.ofList segment ++ "'"))
  else if 255 < (segment.map Char.utf8Size).sum then
    .error (.schema ("runtime key '" ++ key ++ "' contains path segment longer than 255 bytes"))
  else if !segment.all isKeyChar then
    .error (.schema ("runtime key '" ++ key ++ "' contains invalid path segment '" ++
      String.ofList segment ++ "'"))
  else .ok ()

/-- `validate_runtime_key`.  A path is absolute if it starts with a slash. -/
def validateRuntimeKey (key : String) : Except FkstError String :=
  if key.toList.isEmpty then .error (.schema "runtime key must not be empty")
  else if key.toList.head? = some '/' then
    .error (.schema ("runtime key '" ++ key ++ "' must be a relative path"))
  else if key.toList.getLast? = some '/' then
    .error (.schema ("runtime key '" ++ key ++ "' must not have a trailing slash"))
  else if '\\' ∈ key.toList then
    .error (.schema ("runtime key '" ++ key ++ "' must not contain backslash"))
  else if '\x00' ∈ key.toList then
    .error (.schema ("runtime key '" ++ key ++ "' must not contain NUL"))
  else do
    (key.toList.splitOn '/').forM (validateSegment key)
    return key

/-! ## Making keys -/

/-- `DELIVERY_ID_PART_CHUNK_BYTES`. -/
def deliveryIdPartChunkBytes : ℕ := 200

/-- `encode_runtime_key_part`. -/
def encodeRuntimeKeyPart (part : String) : List Char := escapeChars (strBytes part)

/-- A segment of dots gets a mark. -/
def markDots (chunk : List Char) : List Char :=
  if chunk.all (· == '.') then '_' :: 'x' :: chunk else chunk

/-- `runtime_key_part_segments`. -/
def runtimeKeyPartSegments (part : String) : List (List Char) :=
  (chunks deliveryIdPartChunkBytes (encodeRuntimeKeyPart part)).map markDots

/-- The segments of a key, joined by slashes. -/
def joinSegments (segments : List (List Char)) : String := String.ofList (['/'].intercalate segments)

/-- `runtime_key`. -/
def runtimeKey (parts : List String) : String := joinSegments (parts.flatMap runtimeKeyPartSegments)

/-- `encode_runtime_key_part_v3`. -/
def encodeRuntimeKeyPartV3 (part : String) : List Char := escapeCharsV3 (strBytes part)

/-- `runtime_key_part_segments_v3`. -/
def runtimeKeyPartSegmentsV3 (part : String) : List (List Char) :=
  chunks deliveryIdPartChunkBytes (encodeRuntimeKeyPartV3 part)

/-- A part of a `v3` key. -/
inductive RuntimeKeyPart where
  | raw (part : String)
  | escaped (part : String)

/-- The segments of a part of a `v3` key. -/
def RuntimeKeyPart.segments : RuntimeKeyPart → List (List Char)
  | .raw part => [part.toList]
  | .escaped part => runtimeKeyPartSegmentsV3 part

/-- `runtime_key_v3`. -/
def runtimeKeyV3 (parts : List RuntimeKeyPart) : String :=
  joinSegments (parts.flatMap RuntimeKeyPart.segments)

/-! ## Segments determine their part -/

theorem markDots_of_dots {c : List Char} (h : c.all (· == '.') = true) :
    markDots c = '_' :: 'x' :: c := if_pos h

theorem markDots_of_not_dots {c : List Char} (h : c.all (· == '.') = false) : markDots c = c :=
  if_neg (Bool.eq_false_iff.1 h)

/-- A segment of dots that was marked is not a piece of a regular text read from the same place. -/
theorem markDots_ne_of_scan {q : Scan} {c c' rest rest' : List Char} (hne : c ≠ [])
    (hdots : c.all (· == '.') = true) (hc : scan q (c ++ rest) ≠ none)
    (hc' : scan q (c' ++ rest') ≠ none) : '_' :: 'x' :: c ≠ c' := by
  rintro rfl
  obtain ⟨d, rfl, _⟩ := exists_dot_cons hne hdots
  obtain rfl := scan_dot hc
  exact hc' (scan_mark _)

/-- Marking loses nothing of the pieces of regular texts, wherever the texts are cut. -/
theorem map_markDots_injective : ∀ {C C' : List (List Char)} {q : Scan}, (∀ c ∈ C, c ≠ []) →
    (∀ c ∈ C', c ≠ []) → scan q C.flatten ≠ none → scan q C'.flatten ≠ none →
    C.map markDots = C'.map markDots → C = C'
  | [], [], _, _, _, _, _, _ => rfl
  | [], _ :: _, _, _, _, _, _, h => by simp at h
  | _ :: _, [], _, _, _, _, _, h => by simp at h
  | c :: C, c' :: C', q, hne, hne', hscan, hscan', h => by
    rw [List.map_cons, List.map_cons, List.cons.injEq] at h
    rw [List.flatten_cons] at hscan hscan'
    have hc : c = c' := by
      have hmark := h.1
      cases hd : c.all (· == '.') with
      | true =>
        cases hd' : c'.all (· == '.') with
        | true =>
          rw [markDots_of_dots hd, markDots_of_dots hd', List.cons.injEq, List.cons.injEq] at hmark
          exact hmark.2.2
        | false =>
          rw [markDots_of_dots hd, markDots_of_not_dots hd'] at hmark
          exact absurd hmark (markDots_ne_of_scan (hne c (by simp)) hd hscan hscan')
      | false =>
        cases hd' : c'.all (· == '.') with
        | true =>
          rw [markDots_of_not_dots hd, markDots_of_dots hd'] at hmark
          exact absurd hmark.symm (markDots_ne_of_scan (hne' c' (by simp)) hd' hscan' hscan)
        | false => rwa [markDots_of_not_dots hd, markDots_of_not_dots hd'] at hmark
    subst hc
    rw [scan_append] at hscan hscan'
    cases hq : scan q c with
    | none => exact absurd (by rw [hq]; rfl) hscan
    | some q' =>
      rw [hq, Option.bind_some] at hscan hscan'
      rw [map_markDots_injective (fun x hx => hne x (by simp [hx])) (fun x hx => hne' x (by simp [hx]))
        hscan hscan' h.2]

theorem chunkBytes_pos : 0 < deliveryIdPartChunkBytes := by decide

/-- The segments of a regular text determine it. -/
theorem eq_of_segments_regular {bs bs' : List UInt8}
    (h : (chunks deliveryIdPartChunkBytes (bs.flatMap escapeByte)).map markDots =
      (chunks deliveryIdPartChunkBytes (bs'.flatMap escapeByte)).map markDots) : bs = bs' := by
  have hchunks := map_markDots_injective (q := .start)
    (fun c hc => (ne_nil_of_mem_chunks chunkBytes_pos hc).1)
    (fun c hc => (ne_nil_of_mem_chunks chunkBytes_pos hc).1)
    (by simp [flatten_chunks chunkBytes_pos, scan_flatMap_escapeByte])
    (by simp [flatten_chunks chunkBytes_pos, scan_flatMap_escapeByte]) h
  exact prefixCode_escapeByte.flatMap_injective (chunks_injective chunkBytes_pos hchunks)

theorem scan_dots {d : List Char} (h : d.all (· == '.') = true) : scan .start d = some .start := by
  induction d with
  | nil => rfl
  | cons c d ih =>
    rw [List.all_cons, Bool.and_eq_true, beq_iff_eq] at h
    obtain ⟨rfl, hd⟩ := h
    exact ih hd

/-- The segments of a text of dots: the mark is in the first of them. -/
theorem segments_dots {d : List Char} (hd : d.all (· == '.') = true) :
    ∃ rest : List (List Char), (chunks deliveryIdPartChunkBytes ('_' :: 'x' :: d)).map markDots =
        ('_' :: 'x' :: d.take 198) :: rest.map markDots ∧
      rest.flatten = d.drop 198 ∧ (∀ c ∈ rest, c ≠ []) ∧ scan .start rest.flatten ≠ none := by
  obtain ⟨rest, hchunks, hflatten, hne⟩ :=
    chunks_eq_cons chunkBytes_pos (List.cons_ne_nil '_' ('x' :: d))
  have hflatten : rest.flatten = d.drop 198 := hflatten
  have hmark : markDots ('_' :: 'x' :: d.take 198) = '_' :: 'x' :: d.take 198 :=
    markDots_of_not_dots (by simp)
  refine ⟨rest, ?_, hflatten, hne, ?_⟩
  · rw [hchunks, List.map_cons]
    exact congrArg (· :: rest.map markDots) hmark
  · have hdrop : (d.drop 198).all (· == '.') = true :=
      List.all_eq_true.2 fun c hc => List.all_eq_true.1 hd c (List.mem_of_mem_drop hc)
    rw [hflatten, scan_dots hdrop]
    simp

/-- The segments of a text of dots determine it. -/
theorem eq_of_segments_dots {d d' : List Char} (hd : d.all (· == '.') = true)
    (hd' : d'.all (· == '.') = true)
    (h : (chunks deliveryIdPartChunkBytes ('_' :: 'x' :: d)).map markDots =
      (chunks deliveryIdPartChunkBytes ('_' :: 'x' :: d')).map markDots) : d = d' := by
  obtain ⟨rest, hsegments, hflatten, hne, hscan⟩ := segments_dots hd
  obtain ⟨rest', hsegments', hflatten', hne', hscan'⟩ := segments_dots hd'
  rw [hsegments, hsegments', List.cons.injEq] at h
  have hrest := map_markDots_injective hne hne' hscan hscan' h.2
  have htake : d.take 198 = d'.take 198 := by simpa using h.1
  rw [← List.take_append_drop 198 d, ← List.take_append_drop 198 d', htake, ← hflatten, ← hflatten',
    hrest]

/-- The segments of a regular text are not those of a text of dots.  The mark in the first segment
of the latter counts towards the length of the segment, and the mark of a segment of dots does
not. -/
theorem segments_dots_ne_regular {d : List Char} {bs : List UInt8} (hne : d ≠ [])
    (hd : d.all (· == '.') = true) (hbs : bs ≠ [])
    (hregular : (bs.flatMap escapeByte).all (· == '.') = false) :
    (chunks deliveryIdPartChunkBytes ('_' :: 'x' :: d)).map markDots ≠
      (chunks deliveryIdPartChunkBytes (bs.flatMap escapeByte)).map markDots := by
  intro h
  obtain ⟨rest, hsegments, _⟩ := segments_dots hd
  obtain ⟨rest', hchunks', _⟩ := chunks_eq_cons chunkBytes_pos (flatMap_escapeByte_ne_nil hbs)
  rw [hsegments, hchunks', List.map_cons, List.cons.injEq] at h
  have hscan := scan_flatMap_escapeByte bs
  set encoded := bs.flatMap escapeByte
  have hmark := h.1
  cases hfirst : (encoded.take deliveryIdPartChunkBytes).all (· == '.') with
  | true =>
    -- the first segment is short, so it is the whole text
    rw [markDots_of_dots hfirst, List.cons.injEq, List.cons.injEq] at hmark
    have hlen := congrArg List.length hmark.2.2
    have hall : encoded.take deliveryIdPartChunkBytes = encoded := by
      refine List.take_of_length_le ?_
      rw [List.length_take, List.length_take] at hlen
      change encoded.length ≤ 200
      have hbytes : deliveryIdPartChunkBytes = 200 := rfl
      omega
    rw [hall, hregular] at hfirst
    cases hfirst
  | false =>
    rw [markDots_of_not_dots hfirst] at hmark
    obtain ⟨d', rfl, _⟩ := exists_dot_cons hne hd
    rw [← List.take_append_drop deliveryIdPartChunkBytes encoded, ← hmark] at hscan
    have hnone : scan .start ('_' :: 'x' :: ('.' :: d').take 198 ++
        encoded.drop deliveryIdPartChunkBytes) = none := scan_mark _
    rw [hnone] at hscan
    cases hscan

/-- The segments of a text that is neither empty nor of dots are not those of the empty one. -/
theorem segments_regular_ne_empty {bs : List UInt8} :
    (chunks deliveryIdPartChunkBytes (bs.flatMap escapeByte)).map markDots ≠ [['_']] := by
  intro h
  obtain ⟨c, C, hchunks, hmark, hC⟩ := List.map_eq_cons_iff.1 h
  obtain rfl := List.map_eq_nil_iff.1 hC
  have hc : c = ['_'] := by
    cases hd : c.all (· == '.') with
    | true => simp [markDots_of_dots hd] at hmark
    | false => rwa [markDots_of_not_dots hd] at hmark
  have hflatten := flatten_chunks chunkBytes_pos (bs.flatMap escapeByte)
  rw [hchunks, hc] at hflatten
  exact flatMap_escapeByte_ne_under bs hflatten.symm

/-- **The segments of a part determine it.** -/
theorem runtimeKeyPartSegments_injective {part part' : String}
    (h : runtimeKeyPartSegments part = runtimeKeyPartSegments part') : part = part' := by
  refine strBytes_injective ?_
  rw [runtimeKeyPartSegments, runtimeKeyPartSegments, encodeRuntimeKeyPart, encodeRuntimeKeyPart] at h
  have hform := escapeForm (strBytes part)
  have hform' := escapeForm (strBytes part')
  have hempty : (chunks deliveryIdPartChunkBytes ['_']).map markDots = [['_']] := rfl
  have hdots : ∀ {d : List Char}, d.all (· == '.') = true →
      (chunks deliveryIdPartChunkBytes ('_' :: 'x' :: d)).map markDots ≠ [['_']] := by
    intro d hd heq
    obtain ⟨rest, hsegments, _⟩ := segments_dots hd
    rw [hsegments] at heq
    simp at heq
  generalize strBytes part = bs at *
  generalize strBytes part' = bs' at *
  generalize escapeChars bs = e at hform h
  generalize escapeChars bs' = e' at hform' h
  cases hform with
  | empty hbs =>
    rw [hempty] at h
    cases hform' with
    | empty hbs' => rw [hbs, hbs']
    | dots _ hall => exact absurd h.symm (hdots hall)
    | regular => exact absurd h.symm segments_regular_ne_empty
  | dots hbs hall =>
    cases hform' with
    | empty hbs' => exact absurd (h.trans hempty) (hdots hall)
    | dots _ hall' =>
      exact prefixCode_escapeByte.flatMap_injective (eq_of_segments_dots hall hall' h)
    | regular hbs' hregular =>
      exact absurd h
        (segments_dots_ne_regular (flatMap_escapeByte_ne_nil hbs) hall hbs' hregular)
  | regular hbs hregular =>
    cases hform' with
    | empty => exact absurd (h.trans hempty) segments_regular_ne_empty
    | dots hbs' hall' =>
      exact absurd h.symm
        (segments_dots_ne_regular (flatMap_escapeByte_ne_nil hbs') hall' hbs hregular)
    | regular => exact eq_of_segments_regular h

/-- The segments of a part of a `v3` key determine it. -/
theorem runtimeKeyPartSegmentsV3_injective {part part' : String}
    (h : runtimeKeyPartSegmentsV3 part = runtimeKeyPartSegmentsV3 part') : part = part' :=
  strBytes_injective (escapeCharsV3_injective (chunks_injective chunkBytes_pos h))

/-- Only the last segment of a part is short. -/
theorem block_runtimeKeyPartSegments (part : String) :
    Block deliveryIdPartChunkBytes (runtimeKeyPartSegments part) where
  ne_nil h := by
    have hne : encodeRuntimeKeyPart part ≠ [] := by
      rw [encodeRuntimeKeyPart]
      have hform := escapeForm (strBytes part)
      generalize escapeChars (strBytes part) = e at hform
      cases hform with
      | empty => simp
      | dots => simp
      | regular hbs => exact flatMap_escapeByte_ne_nil hbs
    exact chunks_ne_nil chunkBytes_pos hne (List.map_eq_nil_iff.1 h)
  full h hC := by
    obtain ⟨A, B, hchunks, rfl, hB⟩ := List.map_eq_append_iff.1 h
    obtain ⟨c, C, rfl, rfl, rfl⟩ := List.map_eq_cons_iff.1 hB
    have hlen := length_of_chunks_append hchunks fun hnil => hC (by rw [hnil]; rfl)
    rw [markDots]
    split
    · simp only [List.length_cons]
      omega
    · exact Nat.le_of_eq hlen.symm

/-! ## Safe segments -/

/-- What makes a segment pass the validation of keys. -/
structure SafeSegment (segment : List Char) : Prop where
  ne_nil : segment ≠ []
  not_dots : segment.all (· == '.') = false
  length_le : segment.length ≤ 255
  keyChars : segment.all isKeyChar = true

instance (segment : List Char) : Decidable (SafeSegment segment) :=
  decidable_of_iff (segment ≠ [] ∧ segment.all (· == '.') = false ∧ segment.length ≤ 255 ∧
      segment.all isKeyChar = true)
    ⟨fun ⟨h1, h2, h3, h4⟩ => ⟨h1, h2, h3, h4⟩, fun ⟨h1, h2, h3, h4⟩ => ⟨h1, h2, h3, h4⟩⟩

theorem SafeSegment.sep_notMem {segment : List Char} (h : SafeSegment segment) : '/' ∉ segment :=
  sep_notMem_of_isKeyChar h.keyChars

theorem isKeyChar_of_mem_flatten {l : List (List Char)} (h : l.flatten.all isKeyChar = true)
    {c : List Char} (hc : c ∈ l) : c.all isKeyChar = true :=
  List.all_eq_true.2 fun x hx => List.all_eq_true.1 h x (List.mem_flatten.2 ⟨c, hc, hx⟩)

/-- The segments that `runtime_key` makes are safe. -/
theorem safeSegment_runtimeKeyPartSegments {part : String} {segment : List Char}
    (h : segment ∈ runtimeKeyPartSegments part) : SafeSegment segment := by
  obtain ⟨c, hc, rfl⟩ := List.mem_map.1 h
  obtain ⟨hne, hlen⟩ := ne_nil_of_mem_chunks chunkBytes_pos hc
  have hchars : c.all isKeyChar = true := by
    refine isKeyChar_of_mem_flatten ?_ hc
    rw [flatten_chunks chunkBytes_pos]
    exact isKeyChar_escapeChars _
  have hbytes : deliveryIdPartChunkBytes = 200 := rfl
  cases hd : c.all (· == '.') with
  | true =>
    rw [markDots_of_dots hd]
    refine ⟨by simp, by simp, ?_, ?_⟩
    · simp only [List.length_cons]
      omega
    · rw [List.all_cons, List.all_cons, hchars]
      decide
  | false =>
    rw [markDots_of_not_dots hd]
    exact ⟨hne, hd, by omega, hchars⟩

theorem dot_notMem_escapeByteV3 : ∀ b : UInt8, '.' ∉ escapeByteV3 b :=
  forall_byte (p := fun b => '.' ∉ escapeByteV3 b) (by decide +kernel)

/-- The segments that `runtime_key_v3` makes of the parts it escapes are safe. -/
theorem safeSegment_runtimeKeyPartSegmentsV3 {part : String} {segment : List Char}
    (h : segment ∈ runtimeKeyPartSegmentsV3 part) : SafeSegment segment := by
  obtain ⟨hne, hlen⟩ := ne_nil_of_mem_chunks chunkBytes_pos h
  have hflatten := flatten_chunks chunkBytes_pos (encodeRuntimeKeyPartV3 part)
  have hbytes : deliveryIdPartChunkBytes = 200 := rfl
  refine ⟨hne, ?_, by omega, ?_⟩
  · have hdot : '.' ∉ encodeRuntimeKeyPartV3 part := by
      rw [encodeRuntimeKeyPartV3, escapeCharsV3]
      split
      · decide
      · rw [List.mem_flatMap]
        rintro ⟨b, _, hb⟩
        exact dot_notMem_escapeByteV3 b hb
    rw [Bool.eq_false_iff]
    intro hdots
    obtain ⟨d, rfl, _⟩ := exists_dot_cons hne hdots
    exact hdot (hflatten ▸ List.mem_flatten.2 ⟨_, h, by simp⟩)
  · exact isKeyChar_of_mem_flatten (hflatten.symm ▸ isKeyChar_escapeCharsV3 _) h

/-! ## Segments of a key -/

theorem splitOn_joinSegments {segments : List (List Char)} (hne : segments ≠ [])
    (h : ∀ s ∈ segments, '/' ∉ s) : (joinSegments segments).toList.splitOn '/' = segments := by
  rw [joinSegments, String.toList_ofList, List.splitOn_intercalate '/' h hne]

/-- A key determines its segments. -/
theorem joinSegments_injective {l l' : List (List Char)} (hne : l ≠ []) (hne' : l' ≠ [])
    (hl : ∀ s ∈ l, '/' ∉ s) (hl' : ∀ s ∈ l', '/' ∉ s) (h : joinSegments l = joinSegments l') :
    l = l' := by
  rw [← splitOn_joinSegments hne hl, h, splitOn_joinSegments hne' hl']

theorem utf8Size_of_isKeyChar {c : Char} (hchar : isKeyChar c = true) : c.utf8Size = 1 := by
  have hlt : c.toNat < 128 := by
    simp only [isKeyChar, Bool.or_eq_true, beq_iff_eq] at hchar
    rcases hchar with ((h | rfl) | rfl) | rfl
    · have hcode := toNat_of_isAlphanum h
      omega
    all_goals decide
  exact Char.utf8Size_eq_one_iff.2 (UInt32.le_iff_toNat_le.2 (Nat.le_of_lt_succ hlt))

theorem validateSegment_of_safe (key : String) {segment : List Char} (h : SafeSegment segment) :
    validateSegment key segment = .ok () := by
  have hlen : (segment.map Char.utf8Size).sum = segment.length := by
    have hones : segment.map Char.utf8Size = segment.map fun _ => 1 :=
      List.map_congr_left fun c hc => utf8Size_of_isKeyChar (List.all_eq_true.1 h.keyChars c hc)
    rw [hones, List.map_const', List.sum_replicate_nat, Nat.mul_one]
  rw [validateSegment, if_neg (by simp [h.ne_nil]), if_neg (by simp [h.not_dots]),
    if_neg (by rw [hlen]; exact Nat.not_lt.2 h.length_le), if_neg (by simp [h.keyChars])]

/-- A segment that passes is no longer than 255 bytes. -/
theorem length_le_of_validateSegment {key : String} {segment : List Char}
    (h : validateSegment key segment = .ok ()) : segment.length ≤ 255 := by
  have hlen : segment.length ≤ (segment.map Char.utf8Size).sum := by
    clear h
    induction segment with
    | nil => exact Nat.le_refl 0
    | cons c segment ih =>
      have hpos := c.utf8Size_pos
      rw [List.length_cons, List.map_cons, List.sum_cons]
      omega
  rw [validateSegment] at h
  split_ifs at h with h₁ h₂ h₃ h₄
  exact hlen.trans (Nat.not_lt.1 h₃)

/-- A key of safe segments is a runtime key. -/
theorem validateRuntimeKey_joinSegments {segments : List (List Char)} (hne : segments ≠ [])
    (h : ∀ s ∈ segments, SafeSegment s) :
    validateRuntimeKey (joinSegments segments) = .ok (joinSegments segments) := by
  have hsplit := splitOn_joinSegments hne fun s hs => (h s hs).sep_notMem
  have hempty : [] ∉ segments := fun hmem => (h [] hmem).ne_nil rfl
  generalize joinSegments segments = key at hsplit
  -- a slash at either end, or no text at all, would leave an empty segment
  have hhead : key.toList.head? ≠ some '/' := by
    intro hslash
    obtain ⟨rest, hrest⟩ := List.head?_eq_some_iff.1 hslash
    rw [hrest, show '/' :: rest = [] ++ '/' :: rest from rfl, List.splitOn_append_cons_self] at hsplit
    exact hempty (hsplit ▸ by simp)
  have hlast : key.toList.getLast? ≠ some '/' := by
    intro hslash
    obtain ⟨rest, hrest⟩ := List.getLast?_eq_some_iff.1 hslash
    rw [hrest, List.splitOn_append_cons_self] at hsplit
    exact hempty (hsplit ▸ by simp)
  have hnil : key.toList ≠ [] := by
    intro hnil
    rw [hnil] at hsplit
    exact hempty (hsplit ▸ by simp)
  have hchars : ∀ c, c ≠ '/' → isKeyChar c = false → c ∉ key.toList := by
    intro c hsep hc hmem
    have hkey : ['/'].intercalate (key.toList.splitOn '/') = key.toList :=
      List.intercalate_splitOn '/'
    rw [hsplit] at hkey
    rw [← hkey] at hmem
    rcases Lib.Text.mem_intercalate hmem with hcs | ⟨s, hs, hcs⟩
    · exact hsep hcs
    · rw [List.all_eq_true.1 (h s hs).keyChars c hcs] at hc
      cases hc
  rw [validateRuntimeKey, if_neg (by simp [hnil]), if_neg hhead, if_neg hlast,
    if_neg (hchars _ (by decide) (by decide)), if_neg (hchars _ (by decide) (by decide)), hsplit,
    forM_eq_ok.2 fun s hs => validateSegment_of_safe key (h s hs)]
  rfl

/-- The segments of a runtime key pass. -/
theorem validateSegment_of_validateRuntimeKey {segments : List (List Char)} (hne : segments ≠ [])
    (hsep : ∀ s ∈ segments, '/' ∉ s) {key : String}
    (h : validateRuntimeKey (joinSegments segments) = .ok key) :
    ∀ s ∈ segments, validateSegment (joinSegments segments) s = .ok () := by
  rw [validateRuntimeKey] at h
  split_ifs at h
  obtain ⟨⟨⟩, hsegments, _⟩ := bind_eq_ok.1 h
  rw [splitOn_joinSegments hne hsep] at hsegments
  exact forM_eq_ok.1 hsegments

end Fkst.Router
