import Fkst.Delivery.Types
import Fkst.Router.Keys

/-!
# Delivery identity

`derive_delivery_identity` of `delivery_router.rs`: the id of a delivery is a runtime key made of its
queue, its department and what identifies it there.  That is one of four things, by precedence: the
source, for a delivery that comes from one; the `dedup_key` of a raised event; the `source_ref` of a
raised event or of its parent; the parent and the ordinal of a raised event.

`IdentityKey` names the four, and the theorem of this file is that ids are collision-free: an id
determines the queue, the department and the identity key.
-/

set_option autoImplicit false

namespace Fkst.Router

open Lib.Codec
open Delivery (SourceKind SourceRef)

/-! ## The digest of the parent id -/

/-- The eight working variables of `sha256`, and its chaining value. -/
structure Sha256State where
  a : UInt32
  b : UInt32
  c : UInt32
  d : UInt32
  e : UInt32
  f : UInt32
  g : UInt32
  h : UInt32
deriving DecidableEq

/-- `H0`. -/
def sha256H0 : Sha256State :=
  ⟨0x6a09e667, 0xbb67ae85, 0x3c6ef372, 0xa54ff53a, 0x510e527f, 0x9b05688c, 0x1f83d9ab, 0x5be0cd19⟩

/-- `K`. -/
def sha256K : List UInt32 :=
  [0x428a2f98, 0x71374491, 0xb5c0fbcf, 0xe9b5dba5, 0x3956c25b, 0x59f111f1, 0x923f82a4, 0xab1c5ed5,
    0xd807aa98, 0x12835b01, 0x243185be, 0x550c7dc3, 0x72be5d74, 0x80deb1fe, 0x9bdc06a7, 0xc19bf174,
    0xe49b69c1, 0xefbe4786, 0x0fc19dc6, 0x240ca1cc, 0x2de92c6f, 0x4a7484aa, 0x5cb0a9dc, 0x76f988da,
    0x983e5152, 0xa831c66d, 0xb00327c8, 0xbf597fc7, 0xc6e00bf3, 0xd5a79147, 0x06ca6351, 0x14292967,
    0x27b70a85, 0x2e1b2138, 0x4d2c6dfc, 0x53380d13, 0x650a7354, 0x766a0abb, 0x81c2c92e, 0x92722c85,
    0xa2bfe8a1, 0xa81a664b, 0xc24b8b70, 0xc76c51a3, 0xd192e819, 0xd6990624, 0xf40e3585, 0x106aa070,
    0x19a4c116, 0x1e376c08, 0x2748774c, 0x34b0bcb5, 0x391c0cb3, 0x4ed8aa4a, 0x5b9cca4f, 0x682e6ff3,
    0x748f82ee, 0x78a5636f, 0x84c87814, 0x8cc70208, 0x90befffa, 0xa4506ceb, 0xbef9a3f7, 0xc67178f2]

/-- `u32::rotate_right`, by less than 32. -/
def rotateRight (x n : UInt32) : UInt32 := x >>> n ||| x <<< (32 - n)

/-- `u32::to_be_bytes`. -/
def beBytes32 (x : UInt32) : List UInt8 :=
  [(x >>> 24).toUInt8, (x >>> 16).toUInt8, (x >>> 8).toUInt8, x.toUInt8]

/-- `u64::to_be_bytes`. -/
def beBytes64 (x : UInt64) : List UInt8 := beBytes32 (x >>> 32).toUInt32 ++ beBytes32 x.toUInt32

/-- `u32::from_be_bytes`, for as many words as there are. -/
def beWords : List UInt8 → List UInt32
  | b₀ :: b₁ :: b₂ :: b₃ :: rest =>
    (b₀.toUInt32 <<< 24 ||| b₁.toUInt32 <<< 16 ||| b₂.toUInt32 <<< 8 ||| b₃.toUInt32) :: beWords rest
  | _ => []

/-- The message with its padding: a one bit, zeros up to 56 modulo 64, and the length in bits. -/
def sha256Message (input : List UInt8) : List UInt8 :=
  let bitLen := UInt64.ofNat input.length * 8
  let zeros := (120 - (input.length + 1) % 64) % 64
  input ++ 0x80 :: List.replicate zeros 0 ++ beBytes64 bitLen

/-- The message schedule, the last word first: each round puts another word in front. -/
def sha256Schedule (chunk : List UInt8) : List UInt32 :=
  (List.range' 16 48).foldl (fun w _ =>
    let w15 := w.getD 14 0
    let w2 := w.getD 1 0
    let s0 := rotateRight w15 7 ^^^ rotateRight w15 18 ^^^ w15 >>> 3
    let s1 := rotateRight w2 17 ^^^ rotateRight w2 19 ^^^ w2 >>> 10
    (w.getD 15 0 + s0 + w.getD 6 0 + s1) :: w) (beWords chunk).reverse

/-- One round of the compression. -/
def sha256Round (v : Sha256State) (kw : UInt32 × UInt32) : Sha256State :=
  let s1 := rotateRight v.e 6 ^^^ rotateRight v.e 11 ^^^ rotateRight v.e 25
  let ch := (v.e &&& v.f) ^^^ (~~~v.e &&& v.g)
  let temp1 := v.h + s1 + ch + kw.1 + kw.2
  let s0 := rotateRight v.a 2 ^^^ rotateRight v.a 13 ^^^ rotateRight v.a 22
  let maj := (v.a &&& v.b) ^^^ (v.a &&& v.c) ^^^ (v.b &&& v.c)
  let temp2 := s0 + maj
  ⟨temp1 + temp2, v.a, v.b, v.c, v.d + temp1, v.e, v.f, v.g⟩

/-- One chunk of the message. -/
def sha256Chunk (h : Sha256State) (chunk : List UInt8) : Sha256State :=
  let v := (sha256K.zip (sha256Schedule chunk).reverse).foldl sha256Round h
  ⟨h.a + v.a, h.b + v.b, h.c + v.c, h.d + v.d, h.e + v.e, h.f + v.f, h.g + v.g, h.h + v.h⟩

/-- `sha256`. -/
def sha256 (input : List UInt8) : List UInt8 :=
  let h := (chunks 64 (sha256Message input)).foldl sha256Chunk sha256H0
  [h.a, h.b, h.c, h.d, h.e, h.f, h.g, h.h].flatMap beBytes32

/-- `{byte:02x}`. -/
def hexByteLower (b : UInt8) : List Char := Lib.Text.digits Nat.digitChar 16 2 b.toNat

/-- `stable_hex_hash`: the first half of the digest. -/
def stableHexHash (value : String) : String :=
  String.ofList (((sha256 (strBytes value)).take 16).flatMap hexByteLower)

example : stableHexHash "delivery/v1/source/cron/queue/jobs/dept/worker/ref/tick" =
    "1137428a8a684af06e4ef49a79a0d5e8" := by
  decide +kernel

/-! ## Deriving the identity -/

/-- What a raised event was raised by. -/
structure DerivedDelivery where
  parentDeliveryId : String
  /-- The position of the event among those its parent raised. -/
  ordinal : ℕ
deriving DecidableEq

/-- The id of a delivery, and whether deliveries of this id are collapsed into one. -/
structure DeliveryIdentity where
  deliveryId : String
  collapseByDedupId : Bool
deriving DecidableEq

/-- `source_kind_key`. -/
def sourceKindKey : SourceKind → String
  | .file => "file_watch"
  | .cron => "cron"
  | .git => "git"
  | .external => "external"

/-- The arguments of `derive_delivery_identity`. -/
structure IdentityArgs where
  queue : String
  dept : String
  source : Option SourceRef
  derived : Option DerivedDelivery
  raisedDedupKey : Option String
  raisedSourceRef : Option SourceRef
deriving DecidableEq

/-- The key of `derive_delivery_identity`, and whether deliveries are collapsed by it.  `none` is the
panic of a delivery that has neither a parent nor a source. -/
def deliveryKey (args : IdentityArgs) : Option (String × Bool) :=
  match args.derived with
  | some derived =>
    match args.raisedDedupKey.filter (!·.isEmpty) with
    | some dedupKey =>
      some (runtimeKeyV3 [.raw "delivery", .raw "v3", .raw "raised", .raw "queue", .raw args.queue,
        .raw "dept", .raw args.dept, .raw "dedup", .escaped dedupKey], true)
    | none =>
      match args.raisedSourceRef.or args.source with
      | some sourceRef =>
        some (runtimeKeyV3 [.raw "delivery", .raw "v3", .raw "raised-src", .raw "queue",
          .raw args.queue, .raw "dept", .raw args.dept, .raw "kind",
          .raw (sourceKindKey sourceRef.kind), .raw "ref", .escaped sourceRef.reference], false)
      | none =>
        let parentHash := stableHexHash derived.parentDeliveryId
        some (runtimeKey ["delivery", "v2", "raised", "queue", args.queue, "dept", args.dept,
          "parent_hash", parentHash, "ordinal", derived.ordinal.repr], false)
  | none =>
    match args.source with
    | some source =>
      some (runtimeKey ["delivery", "v1", "source", sourceKindKey source.kind, "queue", args.queue,
        "dept", args.dept, "ref", source.reference], false)
    | none => none

/-- `derive_delivery_identity`.  `none` is a panic: there is no source to derive the id from, or the
key is not a runtime key. -/
def deriveDeliveryIdentity (args : IdentityArgs) : Option DeliveryIdentity :=
  match deliveryKey args with
  | none => none
  | some (key, collapseByDedupId) =>
    match validateRuntimeKey key with
    | .ok _ => some ⟨key, collapseByDedupId⟩
    | .error _ => none

/-! ## What identifies a delivery -/

/-- What identifies a delivery in its queue and department. -/
inductive IdentityKey where
  /-- A delivery from a source. -/
  | source (src : SourceRef)
  /-- A raised event with a `dedup_key`. -/
  | dedup (key : String)
  /-- A raised event with a source of its own, or of its parent. -/
  | raisedSource (src : SourceRef)
  /-- A raised event with nothing else to tell it by. -/
  | ordinal (parentHash : String) (n : ℕ)
deriving DecidableEq

/-- The identity key that the arguments call for. -/
def IdentityArgs.identityKey (args : IdentityArgs) : Option IdentityKey :=
  match args.derived with
  | none => args.source.map .source
  | some derived =>
    some <| match args.raisedDedupKey.filter (!·.isEmpty), args.raisedSourceRef.or args.source with
      | some key, _ => .dedup key
      | none, some source => .raisedSource source
      | none, none => .ordinal (stableHexHash derived.parentDeliveryId) derived.ordinal

/-- Deliveries are collapsed by their `dedup_key`. -/
def IdentityKey.isDedup : IdentityKey → Bool
  | .dedup _ => true
  | _ => false

/-- The segments of the id of a delivery. -/
def IdentityKey.segments (queue dept : String) : IdentityKey → List (List Char)
  | .source src =>
    ["delivery", "v1", "source", sourceKindKey src.kind, "queue", queue, "dept", dept, "ref",
      src.reference].flatMap runtimeKeyPartSegments
  | .dedup key =>
    [.raw "delivery", .raw "v3", .raw "raised", .raw "queue", .raw queue, .raw "dept", .raw dept,
      .raw "dedup", .escaped key].flatMap RuntimeKeyPart.segments
  | .raisedSource src =>
    [.raw "delivery", .raw "v3", .raw "raised-src", .raw "queue", .raw queue, .raw "dept", .raw dept,
      .raw "kind", .raw (sourceKindKey src.kind), .raw "ref", .escaped src.reference].flatMap
        RuntimeKeyPart.segments
  | .ordinal parentHash n =>
    ["delivery", "v2", "raised", "queue", queue, "dept", dept, "parent_hash", parentHash, "ordinal",
      n.repr].flatMap runtimeKeyPartSegments

/-- The hash of an identity key is one. -/
def IdentityKey.Hashed : IdentityKey → Prop
  | .ordinal parentHash _ => ∃ parent, parentHash = stableHexHash parent
  | _ => True

theorem IdentityArgs.hashed_identityKey {args : IdentityArgs} {k : IdentityKey}
    (h : args.identityKey = some k) : k.Hashed := by
  rw [identityKey] at h
  split at h
  · obtain ⟨source, _, rfl⟩ := Option.map_eq_some_iff.1 h
    trivial
  · obtain rfl := Option.some.inj h
    split
    · trivial
    · trivial
    · exact ⟨_, rfl⟩

/-- The key of a delivery is made of what identifies it. -/
theorem deliveryKey_eq (args : IdentityArgs) :
    deliveryKey args = args.identityKey.map fun k =>
      (joinSegments (k.segments args.queue args.dept), k.isDedup) := by
  obtain ⟨queue, dept, source, derived, raisedDedupKey, raisedSourceRef⟩ := args
  cases derived with
  | none => cases source <;> rfl
  | some derived =>
    rw [deliveryKey, IdentityArgs.identityKey]
    dsimp only
    cases raisedDedupKey.filter (!·.isEmpty) with
    | some key => rfl
    | none => cases raisedSourceRef.or source <;> rfl

/-! ## Ids are collision-free -/

/-- A queue or department name: segments of letters, digits, `_` and `-`, joined by at most one
dot. -/
def IsName (name : String) : Prop :=
  (∀ c ∈ name.toList, c.isAlphanum ∨ c = '_' ∨ c = '-' ∨ c = '.') ∧ name.toList.count '.' ≤ 1

instance (name : String) : Decidable (IsName name) :=
  have : Decidable (∀ c ∈ name.toList, c.isAlphanum ∨ c = '_' ∨ c = '-' ∨ c = '.') :=
    List.decidableBAll _ _
  inferInstanceAs (Decidable (_ ∧ _))

theorem IsName.sep_notMem {name : String} (h : IsName name) : '/' ∉ name.toList := by
  intro hmem
  rcases h.1 '/' hmem with h | h | h | h <;> exact absurd h (by decide)

/-- A word of the key format is its own segment. -/
theorem segments_word :
    runtimeKeyPartSegments "delivery" = ["delivery".toList] ∧
    runtimeKeyPartSegments "v1" = ["v1".toList] ∧ runtimeKeyPartSegments "v2" = ["v2".toList] ∧
    runtimeKeyPartSegments "source" = ["source".toList] ∧
    runtimeKeyPartSegments "raised" = ["raised".toList] ∧
    runtimeKeyPartSegments "queue" = ["queue".toList] ∧
    runtimeKeyPartSegments "dept" = ["dept".toList] ∧
    runtimeKeyPartSegments "ref" = ["ref".toList] ∧
    runtimeKeyPartSegments "parent_hash" = ["parent__hash".toList] ∧
    runtimeKeyPartSegments "ordinal" = ["ordinal".toList] := by
  decide +kernel

theorem segments_sourceKindKey (kind : SourceKind) :
    runtimeKeyPartSegments (sourceKindKey kind) = [encodeRuntimeKeyPart (sourceKindKey kind)] := by
  cases kind <;> decide +kernel

theorem sourceKindKey_injective {kind kind' : SourceKind}
    (h : sourceKindKey kind = sourceKindKey kind') : kind = kind' := by
  cases kind <;> cases kind' <;> first | rfl | exact absurd h (by decide)

/-- The segments that tell the four kinds of ids apart. -/
def IdentityKey.tag : IdentityKey → List (List Char)
  | .source _ => ["delivery".toList, "v1".toList, "source".toList]
  | .dedup _ => ["delivery".toList, "v3".toList, "raised".toList]
  | .raisedSource _ => ["delivery".toList, "v3".toList, "raised-src".toList]
  | .ordinal _ _ => ["delivery".toList, "v2".toList, "raised".toList]

section Segments

variable {queue dept queue' dept' : String}

theorem segments_source (source : SourceRef) :
    IdentityKey.segments queue dept (.source source) =
      (IdentityKey.source source).tag ++ [encodeRuntimeKeyPart (sourceKindKey source.kind),
        "queue".toList] ++ (runtimeKeyPartSegments queue ++ "dept".toList ::
          (runtimeKeyPartSegments dept ++ "ref".toList ::
            runtimeKeyPartSegments source.reference)) := by
  obtain ⟨hdelivery, hv1, _, hsource, _, hqueue, hdept, href, _⟩ := segments_word
  simp [IdentityKey.segments, IdentityKey.tag, hdelivery, hv1, hsource, hqueue, hdept, href,
    segments_sourceKindKey]

theorem segments_ordinal (parentHash : String) (ordinal : ℕ) :
    IdentityKey.segments queue dept (.ordinal parentHash ordinal) =
      (IdentityKey.ordinal parentHash ordinal).tag ++ ["queue".toList] ++
        (runtimeKeyPartSegments queue ++ "dept".toList ::
          (runtimeKeyPartSegments dept ++ "parent__hash".toList ::
            (runtimeKeyPartSegments parentHash ++ "ordinal".toList ::
              runtimeKeyPartSegments ordinal.repr))) := by
  obtain ⟨hdelivery, _, hv2, _, hraised, hqueue, hdept, _, hhash, hordinal⟩ := segments_word
  simp [IdentityKey.segments, IdentityKey.tag, hdelivery, hv2, hraised, hqueue, hdept, hhash,
    hordinal]

theorem segments_dedup (key : String) :
    IdentityKey.segments queue dept (.dedup key) =
      (IdentityKey.dedup key).tag ++ ["queue".toList, queue.toList, "dept".toList, dept.toList,
        "dedup".toList] ++ runtimeKeyPartSegmentsV3 key := by
  simp [IdentityKey.segments, IdentityKey.tag, RuntimeKeyPart.segments]

theorem segments_raisedSource (source : SourceRef) :
    IdentityKey.segments queue dept (.raisedSource source) =
      (IdentityKey.raisedSource source).tag ++ ["queue".toList, queue.toList, "dept".toList,
        dept.toList, "kind".toList, (sourceKindKey source.kind).toList, "ref".toList] ++
        runtimeKeyPartSegmentsV3 source.reference := by
  simp [IdentityKey.segments, IdentityKey.tag, RuntimeKeyPart.segments]

/-- The first three segments of an id say of which kind it is. -/
theorem take_segments (queue dept : String) (k : IdentityKey) :
    (k.segments queue dept).take 3 = k.tag := by
  cases k with
  | source => rw [segments_source]; rfl
  | dedup => rw [segments_dedup]; rfl
  | raisedSource => rw [segments_raisedSource]; rfl
  | ordinal => rw [segments_ordinal]; rfl

/-- A hash is not the word in front of it. -/
theorem stableHexHash_ne (parent : String) : stableHexHash parent ≠ "parent_hash" := by
  intro h
  have hmem : '_' ∈ (stableHexHash parent).toList := by
    rw [h]
    decide
  rw [stableHexHash, String.toList_ofList, List.mem_flatMap] at hmem
  obtain ⟨b, _, hb⟩ := hmem
  obtain ⟨i, hi, hc⟩ := Lib.Text.mem_digits (by decide) hb
  clear hb
  revert i
  decide

theorem repr_injective {n m : ℕ} (h : n.repr = m.repr) : n = m := by
  have h := congrArg String.toList h
  rw [Nat.toList_repr, Nat.toList_repr] at h
  rw [← Nat.ofDigitChars_ten_toDigits (n := n), h, Nat.ofDigitChars_ten_toDigits]

theorem segments_source_injective {src src' : SourceRef}
    (h : IdentityKey.segments queue dept (.source src) =
      IdentityKey.segments queue' dept' (.source src')) :
    queue = queue' ∧ dept = dept' ∧ src = src' := by
  have hblock := block_runtimeKeyPartSegments
  rw [segments_source, segments_source] at h
  obtain ⟨hhead, htail⟩ := List.append_inj h rfl
  have hkind : encodeRuntimeKeyPart (sourceKindKey src.kind) =
      encodeRuntimeKeyPart (sourceKindKey src'.kind) := by
    simpa [IdentityKey.tag] using hhead
  -- the reference would have nothing left for its own segments
  have hshort : ∀ r r' : String,
      runtimeKeyPartSegments r ≠ "ref".toList :: runtimeKeyPartSegments r' := by
    intro r r' heq
    exact (hblock r').ne_nil ((hblock r).eq_nil_of_short (A := []) (by decide) heq)
  obtain ⟨hq, hd, hr⟩ := Block.two_markers_inj (hblock queue) (hblock queue') (hblock dept)
    (hblock dept') (by decide) (by decide) (hshort _ _) (hshort _ _) htail
  have hkind := strBytes_injective (escapeChars_injective hkind)
  obtain ⟨kind, reference⟩ := src
  obtain ⟨kind', reference'⟩ := src'
  obtain rfl := sourceKindKey_injective hkind
  obtain rfl := runtimeKeyPartSegments_injective hr
  exact ⟨runtimeKeyPartSegments_injective hq, runtimeKeyPartSegments_injective hd, rfl⟩

theorem segments_ordinal_injective {hash hash' : String} {n n' : ℕ}
    (hhash : (IdentityKey.ordinal hash n).Hashed) (hhash' : (IdentityKey.ordinal hash' n').Hashed)
    (h : IdentityKey.segments queue dept (.ordinal hash n) =
      IdentityKey.segments queue' dept' (.ordinal hash' n')) :
    queue = queue' ∧ dept = dept' ∧ hash = hash' ∧ n = n' := by
  have hblock := block_runtimeKeyPartSegments
  rw [segments_ordinal, segments_ordinal] at h
  have htail := (List.append_inj h rfl).2
  -- a hash that starts with the word in front of it would be that word
  have hword : ∀ (parent : String) (X Y : List (List Char)),
      runtimeKeyPartSegments (stableHexHash parent) ++ X ≠ "parent__hash".toList :: Y := by
    intro parent X Y heq
    obtain ⟨heq, _⟩ := (hblock _).of_cons_append (by decide) heq
    rw [← segments_word.2.2.2.2.2.2.2.2.1] at heq
    exact stableHexHash_ne parent (runtimeKeyPartSegments_injective heq)
  obtain ⟨parent, rfl⟩ := hhash
  obtain ⟨parent', rfl⟩ := hhash'
  obtain ⟨hq, hd, hrest⟩ := Block.two_markers_inj (hblock queue) (hblock queue') (hblock dept)
    (hblock dept') (by decide) (by decide) (hword _ _ _) (hword _ _ _) htail
  have hshort : ∀ r r' : String,
      runtimeKeyPartSegments r ≠ "ordinal".toList :: runtimeKeyPartSegments r' := by
    intro r r' heq
    exact (hblock r').ne_nil ((hblock r).eq_nil_of_short (A := []) (by decide) heq)
  rcases (hblock _).marker_cases (hblock _) (by decide) hrest with ⟨hh, hn⟩ | ⟨_, hn⟩ | ⟨_, hn⟩
  · exact ⟨runtimeKeyPartSegments_injective hq, runtimeKeyPartSegments_injective hd,
      runtimeKeyPartSegments_injective hh, repr_injective (runtimeKeyPartSegments_injective hn)⟩
  · exact absurd hn (hshort _ _)
  · exact absurd hn (hshort _ _)

theorem segments_dedup_injective {key key' : String}
    (h : IdentityKey.segments queue dept (.dedup key) =
      IdentityKey.segments queue' dept' (.dedup key')) :
    queue = queue' ∧ dept = dept' ∧ key = key' := by
  rw [segments_dedup, segments_dedup] at h
  obtain ⟨hhead, htail⟩ := List.append_inj h rfl
  have hnames : queue.toList = queue'.toList ∧ dept.toList = dept'.toList := by
    simpa [IdentityKey.tag] using hhead
  exact ⟨String.toList_inj.1 hnames.1, String.toList_inj.1 hnames.2,
    runtimeKeyPartSegmentsV3_injective htail⟩

theorem segments_raisedSource_injective {src src' : SourceRef}
    (h : IdentityKey.segments queue dept (.raisedSource src) =
      IdentityKey.segments queue' dept' (.raisedSource src')) :
    queue = queue' ∧ dept = dept' ∧ src = src' := by
  rw [segments_raisedSource, segments_raisedSource] at h
  obtain ⟨hhead, htail⟩ := List.append_inj h rfl
  have hnames : queue.toList = queue'.toList ∧ dept.toList = dept'.toList ∧
      (sourceKindKey src.kind).toList = (sourceKindKey src'.kind).toList := by
    simpa [IdentityKey.tag] using hhead
  obtain ⟨kind, reference⟩ := src
  obtain ⟨kind', reference'⟩ := src'
  obtain rfl := sourceKindKey_injective (String.toList_inj.1 hnames.2.2)
  obtain rfl := runtimeKeyPartSegmentsV3_injective htail
  exact ⟨String.toList_inj.1 hnames.1, String.toList_inj.1 hnames.2.1, rfl⟩

/-- **The segments of an id determine what it identifies.** -/
theorem segments_injective {k k' : IdentityKey} (hk : k.Hashed) (hk' : k'.Hashed)
    (h : k.segments queue dept = k'.segments queue' dept') :
    queue = queue' ∧ dept = dept' ∧ k = k' := by
  have htag : k.tag = k'.tag := by
    rw [← take_segments queue dept, h, take_segments]
  cases k with
  | source src =>
    cases k' with
    | source src' =>
      obtain ⟨hq, hd, rfl⟩ := segments_source_injective h
      exact ⟨hq, hd, rfl⟩
    | dedup | raisedSource | ordinal => exact absurd htag (by simp [IdentityKey.tag])
  | dedup key =>
    cases k' with
    | dedup key' =>
      obtain ⟨hq, hd, rfl⟩ := segments_dedup_injective h
      exact ⟨hq, hd, rfl⟩
    | source | raisedSource | ordinal => exact absurd htag (by simp [IdentityKey.tag])
  | raisedSource src =>
    cases k' with
    | raisedSource src' =>
      obtain ⟨hq, hd, rfl⟩ := segments_raisedSource_injective h
      exact ⟨hq, hd, rfl⟩
    | source | dedup | ordinal => exact absurd htag (by simp [IdentityKey.tag])
  | ordinal hash n =>
    cases k' with
    | ordinal hash' n' =>
      obtain ⟨hq, hd, rfl, rfl⟩ := segments_ordinal_injective hk hk' h
      exact ⟨hq, hd, rfl⟩
    | source | dedup | raisedSource => exact absurd htag (by simp [IdentityKey.tag])

/-- What holds of safe segments, of the queue and of the department holds of all segments of an
id. -/
theorem forall_mem_segments {P : List Char → Prop} (hsafe : ∀ s, SafeSegment s → P s)
    (hqueue : P queue.toList) (hdept : P dept.toList) (k : IdentityKey) :
    ∀ s ∈ k.segments queue dept, P s := by
  have hparts : ∀ parts : List String, ∀ s ∈ parts.flatMap runtimeKeyPartSegments, P s := by
    intro parts s hs
    obtain ⟨part, _, hs⟩ := List.mem_flatMap.1 hs
    exact hsafe s (safeSegment_runtimeKeyPartSegments hs)
  have hescaped : ∀ part, ∀ s ∈ runtimeKeyPartSegmentsV3 part, P s := fun part s hs =>
    hsafe s (safeSegment_runtimeKeyPartSegmentsV3 hs)
  have hwords : ∀ w ∈ ["delivery", "v3", "raised", "raised-src", "queue", "dept", "dedup", "kind",
      "ref"], P w.toList := by
    have hsafe' : ∀ w ∈ ["delivery", "v3", "raised", "raised-src", "queue", "dept", "dedup", "kind",
      "ref"], SafeSegment w.toList := by decide +kernel
    exact fun w hw => hsafe _ (hsafe' w hw)
  simp only [List.forall_mem_cons] at hwords
  obtain ⟨hdelivery, hv3, hraised, hraisedSrc, hqueueWord, hdeptWord, hdedup, hkindWord, href, _⟩ :=
    hwords
  cases k with
  | source src => exact hparts _
  | ordinal hash n => exact hparts _
  | dedup key =>
    rw [segments_dedup, List.forall_mem_append]
    refine ⟨?_, hescaped key⟩
    simp only [IdentityKey.tag, List.cons_append, List.nil_append, List.forall_mem_cons]
    exact ⟨hdelivery, hv3, hraised, hqueueWord, hqueue, hdeptWord, hdept, hdedup, by simp⟩
  | raisedSource src =>
    have hkind : P (sourceKindKey src.kind).toList := by
      refine hsafe _ ?_
      cases src.kind <;> decide +kernel
    rw [segments_raisedSource, List.forall_mem_append]
    refine ⟨?_, hescaped src.reference⟩
    simp only [IdentityKey.tag, List.cons_append, List.nil_append, List.forall_mem_cons]
    exact ⟨hdelivery, hv3, hraisedSrc, hqueueWord, hqueue, hdeptWord, hdept, hkindWord, hkind, href,
      by simp⟩

theorem segments_ne_nil (k : IdentityKey) : k.segments queue dept ≠ [] := by
  intro h
  have htag := take_segments queue dept k
  rw [h] at htag
  cases k <;> cases htag

end Segments

/-- **The id of a delivery exists** if there is something to identify it by and the names of its queue
and department can be segments of a path. -/
theorem deriveDeliveryIdentity_eq {args : IdentityArgs} {k : IdentityKey}
    (hk : args.identityKey = some k) (hqueue : SafeSegment args.queue.toList)
    (hdept : SafeSegment args.dept.toList) :
    deriveDeliveryIdentity args =
      some ⟨joinSegments (k.segments args.queue args.dept), k.isDedup⟩ := by
  have hvalid := validateRuntimeKey_joinSegments (segments_ne_nil k)
    (forall_mem_segments (P := SafeSegment) (fun _ hs => hs) hqueue hdept k)
  rw [deriveDeliveryIdentity, deliveryKey_eq, hk]
  simp only [Option.map_some, hvalid]

/-- **Keys are collision-free.** -/
theorem deliveryKey_eq_iff {args args' : IdentityArgs} {p p' : String × Bool}
    (hqueue : IsName args.queue) (hdept : IsName args.dept) (hqueue' : IsName args'.queue)
    (hdept' : IsName args'.dept) (h : deliveryKey args = some p) (h' : deliveryKey args' = some p') :
    p.1 = p'.1 ↔ args.queue = args'.queue ∧ args.dept = args'.dept ∧
      args.identityKey = args'.identityKey := by
  rw [deliveryKey_eq] at h h'
  obtain ⟨k, hk, rfl⟩ := Option.map_eq_some_iff.1 h
  obtain ⟨k', hk', rfl⟩ := Option.map_eq_some_iff.1 h'
  rw [hk, hk']
  refine ⟨fun heq => ?_, ?_⟩
  · have hsegments := joinSegments_injective (segments_ne_nil k) (segments_ne_nil k')
      (forall_mem_segments (fun _ hs => hs.sep_notMem) hqueue.sep_notMem hdept.sep_notMem k)
      (forall_mem_segments (fun _ hs => hs.sep_notMem) hqueue'.sep_notMem hdept'.sep_notMem k') heq
    obtain ⟨hq, hd, rfl⟩ := segments_injective (IdentityArgs.hashed_identityKey hk)
      (IdentityArgs.hashed_identityKey hk') hsegments
    exact ⟨hq, hd, rfl⟩
  · rintro ⟨hq, hd, hkey⟩
    dsimp only
    rw [hq, hd, Option.some.inj hkey]

theorem deriveDeliveryIdentity_eq_some {args : IdentityArgs} {i : DeliveryIdentity}
    (h : deriveDeliveryIdentity args = some i) :
    deliveryKey args = some (i.deliveryId, i.collapseByDedupId) := by
  rw [deriveDeliveryIdentity] at h
  split at h
  · cases h
  · split at h
    · obtain rfl := Option.some.inj h
      assumption
    · cases h

/-- A delivery always has a name. -/
theorem deliveryId_ne_empty {args : IdentityArgs} {i : DeliveryIdentity}
    (h : deriveDeliveryIdentity args = some i) : i.deliveryId ≠ "" := by
  rw [deriveDeliveryIdentity] at h
  split at h
  · cases h
  · split at h
    · rename_i key _ _ hvalid
      obtain rfl := Option.some.inj h
      rintro rfl
      cases hvalid
    · cases h

/-- **Delivery identity is collision-free.**  For names of queues and departments, two calls return
the same id exactly when they have the same queue, the same department and the same identity key.
In particular an id never mixes deliveries that are collapsed by it with others. -/
theorem deliveryIds_collisionFree (args args' : IdentityArgs) {i i' : DeliveryIdentity}
    (hqueue : IsName args.queue) (hdept : IsName args.dept) (hqueue' : IsName args'.queue)
    (hdept' : IsName args'.dept) (h : deriveDeliveryIdentity args = some i)
    (h' : deriveDeliveryIdentity args' = some i') :
    (i.deliveryId = i'.deliveryId ↔ args.queue = args'.queue ∧ args.dept = args'.dept ∧
      args.identityKey = args'.identityKey) ∧
    (i.deliveryId = i'.deliveryId → i.collapseByDedupId = i'.collapseByDedupId) := by
  have hkey := deriveDeliveryIdentity_eq_some h
  have hkey' := deriveDeliveryIdentity_eq_some h'
  have hiff := deliveryKey_eq_iff hqueue hdept hqueue' hdept' hkey hkey'
  refine ⟨hiff, fun heq => ?_⟩
  have hsame := (hiff.1 heq).2.2
  rw [deliveryKey_eq] at hkey hkey'
  obtain ⟨k, hk, hi⟩ := Option.map_eq_some_iff.1 hkey
  obtain ⟨k', hk', hi'⟩ := Option.map_eq_some_iff.1 hkey'
  obtain rfl : k = k' := Option.some.inj (hk.symm.trans (hsame.trans hk'))
  exact (Prod.mk.inj hi).2.symm.trans (Prod.mk.inj hi').2

namespace Sample

/-- The arguments for an event that was raised with a `dedup_key`. -/
def raised (dedupKey : String) : IdentityArgs := ⟨"next", "next_worker", none,
  some ⟨"delivery/v1/source/cron/queue/jobs/dept/worker/ref/tick", 0⟩, some dedupKey, none⟩

end Sample

/-- The theorem at two `dedup_key`s that a path would confuse. -/
theorem deliveryIds_collisionFree_dedup : ∃ i i',
    deriveDeliveryIdentity (Sample.raised "a/b") = some i ∧
    deriveDeliveryIdentity (Sample.raised "a:b") = some i' ∧ i.deliveryId ≠ i'.deliveryId := by
  have hnames : IsName "next" ∧ IsName "next_worker" := by decide +kernel
  have hderive : (deriveDeliveryIdentity (Sample.raised "a/b")).isSome ∧
      (deriveDeliveryIdentity (Sample.raised "a:b")).isSome := by
    decide +kernel
  obtain ⟨i, hi⟩ := Option.isSome_iff_exists.1 hderive.1
  obtain ⟨i', hi'⟩ := Option.isSome_iff_exists.1 hderive.2
  refine ⟨i, i', hi, hi', fun heq => ?_⟩
  have hsame := ((deliveryIds_collisionFree (Sample.raised "a/b") (Sample.raised "a:b") hnames.1
    hnames.2 hnames.1 hnames.2 hi hi').1.1 heq).2.2
  exact absurd hsame (by decide)

end Fkst.Router
