import Fkst.Lib.Codec
import Fkst.Rust

/-!
# The escapings of keys

The engine writes free text into keys in two ways.

* `escapeChars` is the body shared by `encode_index_part` of `delivery_index.rs` and
  `encode_runtime_key_part` of `delivery_router.rs`, which are the same function twice: letters,
  digits, `.` and `-` stand for themselves, `_` is doubled, any other byte is `_xHH`.  Two texts
  get a form of their own, because the plain one would not be a usable path segment: the empty one
  is `_`, and one made of dots only gets the mark `_x` in front.
* `escapeCharsV3` is `encode_runtime_key_part_v3`: every byte other than a letter, a digit or `-`
  is `_HH_`, and the empty text is `_`.

Both are injective.  The interesting part is that the marks of the first one collide with no
regular text, and the tool for that is `scan`, an automaton that reads a regular text from the left
and knows at each place whether it stands inside an escape.  It is what the chunked identifiers of
the router need again, where an escape may be cut in two.
-/

set_option autoImplicit false

namespace Fkst

open Lib.Codec

/-- The digits of `{byte:02X}`. -/
def hexUpper (i : ℕ) : Char := if i < 10 then Char.ofNat (48 + i) else Char.ofNat (55 + i)

/-- `{byte:02X}`. -/
def hexByte (b : UInt8) : List Char := Lib.Text.digits hexUpper 16 2 b.toNat

/-- An ASCII letter or digit. -/
def isAlnumByte (b : UInt8) : Bool :=
  (65 ≤ b && b ≤ 90) || (97 ≤ b && b ≤ 122) || (48 ≤ b && b ≤ 57)

/-- One byte of `encode_index_part` and `encode_runtime_key_part`. -/
def escapeByte (b : UInt8) : List Char :=
  if isAlnumByte b || b == 46 || b == 45 then [Char.ofNat b.toNat]
  else if b == 95 then ['_', '_']
  else '_' :: 'x' :: hexByte b

/-- `encode_index_part` and `encode_runtime_key_part`, on the bytes of the part. -/
def escapeChars (bs : List UInt8) : List Char :=
  if bs.isEmpty then ['_']
  else
    let encoded := bs.flatMap escapeByte
    if encoded.all (· == '.') then '_' :: 'x' :: encoded else encoded

/-- One byte of `encode_runtime_key_part_v3`. -/
def escapeByteV3 (b : UInt8) : List Char :=
  if isAlnumByte b || b == 45 then [Char.ofNat b.toNat] else '_' :: hexByte b ++ ['_']

/-- `encode_runtime_key_part_v3`, on the bytes of the part. -/
def escapeCharsV3 (bs : List UInt8) : List Char :=
  if bs.isEmpty then ['_'] else bs.flatMap escapeByteV3

/-! ## Both codes are prefix codes -/

/-- The value of a digit of `hexUpper`. -/
def hexVal (c : Char) : ℕ := if c.toNat < 58 then c.toNat - 48 else c.toNat - 55

/-- A statement about a byte that can be checked is checked for all 256. -/
theorem forall_byte {p : UInt8 → Prop} [DecidablePred p]
    (h : ∀ n, n < 256 → p (UInt8.ofNat n)) (b : UInt8) : p b := by
  have := h b.toNat b.toNat_lt
  rwa [UInt8.ofNat_toNat] at this

theorem char_of_plain : ∀ b : UInt8, (isAlnumByte b || b == 46 || b == 45) = true →
    Char.ofNat b.toNat ≠ '_' ∧ UInt8.ofNat (Char.ofNat b.toNat).toNat = b :=
  forall_byte (p := fun b => (isAlnumByte b || b == 46 || b == 45) = true →
    Char.ofNat b.toNat ≠ '_' ∧ UInt8.ofNat (Char.ofNat b.toNat).toNat = b) (by decide +kernel)

theorem hexByte_eq (b : UInt8) :
    hexByte b = [hexUpper (b.toNat / 16 % 16), hexUpper (b.toNat % 16)] := by
  simp [hexByte, Lib.Text.digits]

theorem hexVal_hexByte : ∀ b : UInt8,
    UInt8.ofNat (hexVal (hexUpper (b.toNat / 16 % 16)) * 16 + hexVal (hexUpper (b.toNat % 16))) = b :=
  forall_byte (p := fun b => UInt8.ofNat (hexVal (hexUpper (b.toNat / 16 % 16)) * 16 +
    hexVal (hexUpper (b.toNat % 16))) = b) (by decide +kernel)

/-- Read the first escaped byte off a text. -/
def unescapeByte : List Char → Option (UInt8 × List Char)
  | [] => none
  | c :: s =>
    if c = '_' then
      match s with
      | d :: t =>
        if d = '_' then some (95, t)
        else match t with
          | h :: l :: t => some (UInt8.ofNat (hexVal h * 16 + hexVal l), t)
          | _ => none
      | _ => none
    else some (UInt8.ofNat c.toNat, s)

theorem unescapeByte_escapeByte (b : UInt8) (s : List Char) :
    unescapeByte (escapeByte b ++ s) = some (b, s) := by
  rw [escapeByte]
  split
  · rename_i hb
    obtain ⟨hne, hval⟩ := char_of_plain b hb
    simp [unescapeByte, hne, hval]
  · split
    · rename_i hb
      simp [unescapeByte, beq_iff_eq.1 hb]
    · simp [unescapeByte, hexByte_eq, hexVal_hexByte b]

theorem prefixCode_escapeByte : PrefixCode escapeByte := by
  refine .of_decode unescapeByte_escapeByte fun b => ?_
  rw [escapeByte]
  split
  · simp
  · split <;> simp

/-- Read the first byte of a `v3` text. -/
def unescapeByteV3 : List Char → Option (UInt8 × List Char)
  | [] => none
  | c :: s =>
    if c = '_' then
      match s with
      | h :: l :: _ :: t => some (UInt8.ofNat (hexVal h * 16 + hexVal l), t)
      | _ => none
    else some (UInt8.ofNat c.toNat, s)

theorem unescapeByteV3_escapeByteV3 (b : UInt8) (s : List Char) :
    unescapeByteV3 (escapeByteV3 b ++ s) = some (b, s) := by
  rw [escapeByteV3]
  split
  · rename_i hb
    obtain ⟨hne, hval⟩ := char_of_plain b (by
      rw [Bool.or_eq_true] at hb
      rcases hb with h | h <;> simp [h])
    simp [unescapeByteV3, hne, hval]
  · simp [unescapeByteV3, hexByte_eq, hexVal_hexByte b]

theorem prefixCode_escapeByteV3 : PrefixCode escapeByteV3 := by
  refine .of_decode unescapeByteV3_escapeByteV3 fun b => ?_
  rw [escapeByteV3]
  split <;> simp

/-! ## The automaton of regular texts -/

/-- Where a reader of an escaped text stands. -/
inductive Scan where
  /-- Between two bytes. -/
  | start
  /-- After the `_` that opens an escape. -/
  | under
  /-- Before the first hexadecimal digit. -/
  | high
  /-- Before the second hexadecimal digit. -/
  | low
deriving DecidableEq

/-- A digit of `{byte:02X}`. -/
def isHexUpper (c : Char) : Bool := c.isDigit || ('A' ≤ c && c ≤ 'F')

/-- A character that stands for itself. -/
def isPlainChar (c : Char) : Bool := c.isAlphanum || c == '.' || c == '-'

/-- Read one character of a regular text. -/
def Scan.step : Scan → Char → Option Scan
  | .start, c => if c = '_' then some .under else if isPlainChar c then some .start else none
  | .under, c => if c = '_' then some .start else if c = 'x' then some .high else none
  | .high, c => if isHexUpper c then some .low else none
  | .low, c => if isHexUpper c then some .start else none

/-- Read a piece of a regular text. -/
def scan : Scan → List Char → Option Scan
  | q, [] => some q
  | q, c :: cs => (q.step c).bind fun q' => scan q' cs

theorem scan_append (q : Scan) : ∀ a b : List Char,
    scan q (a ++ b) = (scan q a).bind fun q' => scan q' b := by
  intro a
  induction a generalizing q with
  | nil => intro b; rfl
  | cons c a ih =>
    intro b
    rw [List.cons_append, scan, scan, Option.bind_assoc]
    congr 1
    funext q'
    exact ih q' b

theorem scan_escapeByte : ∀ b : UInt8, scan .start (escapeByte b) = some .start :=
  forall_byte (p := fun b => scan .start (escapeByte b) = some .start) (by decide +kernel)

/-- A regular text is read from between two bytes to between two bytes. -/
theorem scan_flatMap_escapeByte : ∀ bs : List UInt8,
    scan .start (bs.flatMap escapeByte) = some .start
  | [] => rfl
  | b :: bs => by
    rw [List.flatMap_cons, scan_append, scan_escapeByte, Option.bind_some,
      scan_flatMap_escapeByte bs]

/-- A dot stands between two bytes. -/
theorem scan_dot {q : Scan} {s : List Char} (h : scan q ('.' :: s) ≠ none) : q = .start := by
  cases q with
  | start => rfl
  | under | high | low => exact absurd rfl h

/-- No regular text has `_x.` between two bytes. -/
theorem scan_mark (s : List Char) : scan .start ('_' :: 'x' :: '.' :: s) = none := rfl

/-! ## The escapings are injective -/

/-- The three forms an escaped text can have. -/
inductive EscapeForm (bs : List UInt8) : List Char → Prop where
  /-- The empty text. -/
  | empty : bs = [] → EscapeForm bs ['_']
  /-- Dots only. -/
  | dots : bs ≠ [] → (bs.flatMap escapeByte).all (· == '.') = true →
      EscapeForm bs ('_' :: 'x' :: bs.flatMap escapeByte)
  /-- Anything else. -/
  | regular : bs ≠ [] → (bs.flatMap escapeByte).all (· == '.') = false →
      EscapeForm bs (bs.flatMap escapeByte)

theorem escapeForm (bs : List UInt8) : EscapeForm bs (escapeChars bs) := by
  rw [escapeChars]
  split
  · rename_i h; exact .empty (List.isEmpty_iff.1 h)
  · rename_i h
    rw [List.isEmpty_iff] at h
    dsimp only
    split
    · rename_i hall; exact .dots h hall
    · rename_i hall; exact .regular h (Bool.eq_false_iff.2 hall)

theorem flatMap_escapeByte_ne_nil {bs : List UInt8} (h : bs ≠ []) : bs.flatMap escapeByte ≠ [] := by
  cases bs with
  | nil => exact absurd rfl h
  | cons b bs =>
    rw [List.flatMap_cons]
    exact fun hn => prefixCode_escapeByte.ne_nil b (List.append_eq_nil_iff.1 hn).1

/-- A text of dots starts with one. -/
theorem exists_dot_cons {l : List Char} (hne : l ≠ []) (h : l.all (· == '.') = true) :
    ∃ l', l = '.' :: l' ∧ l'.all (· == '.') = true := by
  cases l with
  | nil => exact absurd rfl hne
  | cons c l' =>
    rw [List.all_cons, Bool.and_eq_true, beq_iff_eq] at h
    exact ⟨l', by rw [h.1], h.2⟩

/-- A regular text is neither of the two marked ones. -/
theorem flatMap_escapeByte_ne_marked (bs : List UInt8) {d : List Char} (hne : d ≠ [])
    (hd : d.all (· == '.') = true) : bs.flatMap escapeByte ≠ '_' :: 'x' :: d := by
  intro h
  obtain ⟨d', rfl, _⟩ := exists_dot_cons hne hd
  have := scan_flatMap_escapeByte bs
  rw [h, scan_mark] at this
  cases this

theorem flatMap_escapeByte_ne_under (bs : List UInt8) : bs.flatMap escapeByte ≠ ['_'] := by
  intro h
  have := scan_flatMap_escapeByte bs
  rw [h] at this
  cases this

/-- **The first escaping is injective.** -/
theorem escapeChars_injective {bs bs' : List UInt8} (h : escapeChars bs = escapeChars bs') :
    bs = bs' := by
  have hf := escapeForm bs
  have hf' := escapeForm bs'
  rw [← h] at hf'
  generalize escapeChars bs = e at hf hf'
  cases hf with
  | empty hb =>
    generalize he : ['_'] = e at hf'
    cases hf' with
    | empty hb' => rw [hb, hb']
    | dots => simp at he
    | regular => exact absurd he.symm (flatMap_escapeByte_ne_under bs')
  | dots hb hall =>
    generalize he : '_' :: 'x' :: bs.flatMap escapeByte = e at hf'
    cases hf' with
    | empty => simp at he
    | dots =>
      rw [List.cons.injEq, List.cons.injEq] at he
      exact prefixCode_escapeByte.flatMap_injective he.2.2
    | regular =>
      exact absurd he.symm (flatMap_escapeByte_ne_marked bs' (flatMap_escapeByte_ne_nil hb) hall)
  | regular hb hall =>
    generalize he : bs.flatMap escapeByte = e at hf'
    cases hf' with
    | empty => exact absurd he (flatMap_escapeByte_ne_under bs)
    | dots hb' hall' =>
      exact absurd he (flatMap_escapeByte_ne_marked bs (flatMap_escapeByte_ne_nil hb') hall')
    | regular => exact prefixCode_escapeByte.flatMap_injective he

/-- **The `v3` escaping is injective.** -/
theorem escapeCharsV3_injective {bs bs' : List UInt8} (h : escapeCharsV3 bs = escapeCharsV3 bs') :
    bs = bs' := by
  have hne : ∀ b : UInt8, ∀ s, escapeByteV3 b ++ s ≠ ['_'] :=
    fun b s hs => by
      have hlen := congrArg List.length hs
      have hb : (escapeByteV3 b).head? = some '_' → 4 ≤ (escapeByteV3 b).length := by
        revert b
        exact fun b _ _ => forall_byte (p := fun b => (escapeByteV3 b).head? = some '_' →
          4 ≤ (escapeByteV3 b).length) (by decide +kernel) b
      cases hb' : escapeByteV3 b with
      | nil => exact prefixCode_escapeByteV3.ne_nil b hb'
      | cons c t =>
        rw [hb', List.cons_append, List.cons.injEq] at hs
        have := hb (by rw [hb', hs.1]; rfl)
        simp at hlen
        omega
  rw [escapeCharsV3, escapeCharsV3] at h
  cases bs with
  | nil =>
    cases bs' with
    | nil => rfl
    | cons b bs' => exact absurd h.symm (by simpa using hne b _)
  | cons b bs =>
    cases bs' with
    | nil => exact absurd h (by simpa using hne b _)
    | cons b' bs' => exact prefixCode_escapeByteV3.flatMap_injective (by simpa using h)

/-! ## The alphabet of the escaped texts -/

/-- A character of a runtime key segment. -/
def isKeyChar (c : Char) : Bool := c.isAlphanum || c == '.' || c == '_' || c == '-'

theorem isKeyChar_escapeByte : ∀ b : UInt8, (escapeByte b).all isKeyChar = true :=
  forall_byte (p := fun b => (escapeByte b).all isKeyChar = true) (by decide +kernel)

theorem isKeyChar_escapeByteV3 : ∀ b : UInt8, (escapeByteV3 b).all isKeyChar = true :=
  forall_byte (p := fun b => (escapeByteV3 b).all isKeyChar = true) (by decide +kernel)

theorem isKeyChar_escapeChars (bs : List UInt8) : (escapeChars bs).all isKeyChar = true := by
  have hreg : (bs.flatMap escapeByte).all isKeyChar = true := by
    rw [List.all_flatMap, List.all_eq_true]
    exact fun b _ => isKeyChar_escapeByte b
  have hf := escapeForm bs
  generalize escapeChars bs = e at hf
  cases hf with
  | empty => decide
  | dots => rw [List.all_cons, List.all_cons, hreg]; decide
  | regular => exact hreg

theorem isKeyChar_escapeCharsV3 (bs : List UInt8) : (escapeCharsV3 bs).all isKeyChar = true := by
  rw [escapeCharsV3]
  split
  · decide
  · rw [List.all_flatMap, List.all_eq_true]
    exact fun b _ => isKeyChar_escapeByteV3 b

theorem sep_notMem_of_isKeyChar {l : List Char} (h : l.all isKeyChar = true) : '/' ∉ l := fun hm =>
  absurd (List.all_eq_true.1 h _ hm) (by decide)

end Fkst
