import Mathlib.Tactic.Common

/-!
# Text in bytes

`encode` writes text in UTF-8 and `lossy` reads bytes back, with a replacement character for what is
no UTF-8.  Text is read back as it was written (`lossy_encode`), and the byte of an ASCII character
stands for that character only (`mem_encode`), so that a program may look for a line feed among the
bytes.  Comparing bytes is comparing characters (`encode_lt_encode_iff`).
-/

set_option autoImplicit false

namespace Lib.Utf8

/-- Text in UTF-8. -/
def encode (cs : List Char) : List UInt8 := cs.flatMap String.utf8EncodeChar

@[simp] theorem encode_nil : encode [] = [] := rfl

theorem encode_cons (c : Char) (cs : List Char) :
    encode (c :: cs) = String.utf8EncodeChar c ++ encode cs :=
  List.flatMap_cons

@[simp] theorem encode_append (a b : List Char) : encode (a ++ b) = encode a ++ encode b :=
  List.flatMap_append

/-! ## Reading -/

/-- A byte that continues a character. -/
def isContinuation (b : UInt8) : Bool := 0x80 ≤ b && b ≤ 0xBF

/-- The bytes that may follow the first byte of a character of several bytes, and how many bytes the
character has. -/
def following (b : UInt8) : Option (UInt8 × UInt8 × ℕ) :=
  if 0xC2 ≤ b ∧ b ≤ 0xDF then some (0x80, 0xBF, 2)
  else if b = 0xE0 then some (0xA0, 0xBF, 3)
  else if b = 0xED then some (0x80, 0x9F, 3)
  else if 0xE1 ≤ b ∧ b ≤ 0xEF then some (0x80, 0xBF, 3)
  else if b = 0xF0 then some (0x90, 0xBF, 4)
  else if 0xF1 ≤ b ∧ b ≤ 0xF3 then some (0x80, 0xBF, 4)
  else if b = 0xF4 then some (0x80, 0x8F, 4)
  else none

/-- How many bytes one replacement character stands for: the longest start of a character, and at
least one byte. -/
def invalidLength : List UInt8 → ℕ
  | [] => 1
  | b :: bs =>
    match following b, bs with
    | some (lo, hi, width), second :: bs =>
      if lo ≤ second ∧ second ≤ hi then 2 + ((bs.take (width - 3)).takeWhile isContinuation).length
      else 1
    | _, _ => 1

/-- The character at the front. -/
def decodeChar (bytes : List UInt8) : Option Char := bytes.toByteArray.utf8DecodeChar? 0

/-- Read at most `n` characters. -/
def lossyGo : ℕ → List UInt8 → List Char
  | 0, _ => []
  | _ + 1, [] => []
  | n + 1, b :: bs =>
    match decodeChar (b :: bs) with
    | some c => c :: lossyGo n ((b :: bs).drop c.utf8Size)
    | none => Char.ofNat 0xFFFD :: lossyGo n ((b :: bs).drop (invalidLength (b :: bs)))

/-- Read bytes as UTF-8, with a replacement character for what is none. -/
def lossy (bytes : List UInt8) : List Char := lossyGo bytes.length bytes

theorem decodeChar_append (c : Char) (bytes : List UInt8) :
    decodeChar (String.utf8EncodeChar c ++ bytes) = some c := by
  rw [decodeChar, List.toByteArray_append, ByteArray.utf8DecodeChar?_utf8EncodeChar_append]

theorem lossyGo_encode : ∀ (cs : List Char) (n : ℕ), (encode cs).length ≤ n →
    lossyGo n (encode cs) = cs
  | [], 0, _ => rfl
  | [], n + 1, _ => rfl
  | c :: cs, n, hn => by
    have hpos := c.utf8Size_pos
    have hlength := String.length_utf8EncodeChar c
    rw [encode_cons, List.length_append] at hn
    have hdecode := decodeChar_append c (encode cs)
    have hdrop : (String.utf8EncodeChar c ++ encode cs).drop c.utf8Size = encode cs := by
      rw [← hlength, List.drop_left]
    cases n with
    | zero => omega
    | succ n =>
      rw [encode_cons]
      cases hbytes : String.utf8EncodeChar c ++ encode cs with
      | nil => simp at hbytes
      | cons b bs =>
        rw [hbytes] at hdecode hdrop
        simp only [lossyGo, hdecode, hdrop]
        rw [lossyGo_encode cs n (by omega)]

/-- **Text is read back as it was written.** -/
theorem lossy_encode (cs : List Char) : lossy (encode cs) = cs :=
  lossyGo_encode cs _ (Nat.le_refl _)

/-- Read bytes as UTF-8, if they are. -/
def fromUtf8 (bytes : List UInt8) : Option (List Char) :=
  if encode (lossy bytes) = bytes then some (lossy bytes) else none

theorem fromUtf8_eq_some {bytes : List UInt8} {text : List Char} :
    fromUtf8 bytes = some text ↔ encode text = bytes := by
  rw [fromUtf8, Option.ite_none_right_eq_some, Option.some.injEq]
  constructor
  · rintro ⟨hbytes, rfl⟩
    exact hbytes
  · rintro rfl
    rw [lossy_encode]
    exact ⟨rfl, rfl⟩

/-! ## Looking for ASCII -/

section Ascii

variable {a : Char} {b : UInt8}

/-- The byte of an ASCII character is in no other character. -/
theorem mem_utf8EncodeChar (ha : String.utf8EncodeChar a = [b]) (c : Char) :
    b ∈ String.utf8EncodeChar c ↔ c = a := by
  constructor
  · intro h
    obtain ⟨i, hi, hb⟩ := List.getElem_of_mem h
    have hfirst : b.IsUTF8FirstByte := by
      have h0 := UInt8.isUTF8FirstByte_getElem_zero_utf8EncodeChar (c := a)
      simpa [ha] using h0
    rw [← hb, UInt8.isUTF8FirstByte_getElem_utf8EncodeChar] at hfirst
    subst hfirst
    have hsplit : String.utf8EncodeChar c =
        String.utf8EncodeChar a ++ (String.utf8EncodeChar c).tail := by
      rw [ha, ← hb, List.singleton_append]
      simpa using List.drop_eq_getElem_cons hi
    have hdecode := decodeChar_append c []
    rw [List.append_nil, hsplit, decodeChar_append] at hdecode
    exact (Option.some.inj hdecode).symm
  · rintro rfl
    simp [ha]

theorem mem_encode (ha : String.utf8EncodeChar a = [b]) (cs : List Char) :
    b ∈ encode cs ↔ a ∈ cs := by
  rw [encode, List.mem_flatMap]
  constructor
  · rintro ⟨c, hc, hb⟩
    rwa [← (mem_utf8EncodeChar ha c).1 hb]
  · intro h
    exact ⟨a, h, by simp [ha]⟩

/-- Text ends in the byte of an ASCII character if it ends in the character. -/
theorem getLast?_encode (ha : String.utf8EncodeChar a = [b]) (cs : List Char) :
    (encode cs).getLast? = some b ↔ cs.getLast? = some a := by
  rcases cs.eq_nil_or_concat with rfl | ⟨ds, c, hcs⟩
  · simp
  · rw [List.concat_eq_append] at hcs
    subst hcs
    have hlast : (encode (ds ++ [c])).getLast? = (String.utf8EncodeChar c).getLast? := by
      rw [encode_append, encode_cons, encode_nil, List.append_nil,
        List.getLast?_append, List.getLast?_eq_some_getLast String.utf8EncodeChar_ne_nil,
        Option.some_or]
    rw [hlast, List.getLast?_concat, Option.some_inj]
    constructor
    · intro h
      exact (mem_utf8EncodeChar ha c).1 (List.mem_of_getLast? h)
    · rintro rfl
      rw [ha]
      rfl

end Ascii

/-! ## Where characters start -/

/-- Text whose bytes start like a character starts with that character. -/
theorem exists_of_append_eq_encode {c : Char} {rest : List UInt8} {cs : List Char}
    (h : String.utf8EncodeChar c ++ rest = encode cs) : ∃ cs', cs = c :: cs' ∧ rest = encode cs' := by
  cases cs with
  | nil => exact absurd (List.append_eq_nil_iff.1 h).1 String.utf8EncodeChar_ne_nil
  | cons d cs =>
    rw [encode_cons] at h
    have hdecode := decodeChar_append c rest
    rw [h, decodeChar_append] at hdecode
    obtain rfl := Option.some.inj hdecode
    exact ⟨cs, rfl, List.append_cancel_left h⟩

/-- Within a character there is no first byte but the first one. -/
theorem eq_of_suffix_utf8EncodeChar {c : Char} {b : UInt8} {bytes : List UInt8}
    (h : b :: bytes <:+ String.utf8EncodeChar c) (hb : b.IsUTF8FirstByte) :
    b :: bytes = String.utf8EncodeChar c := by
  obtain ⟨front, hfront⟩ := h
  have hi : front.length < (String.utf8EncodeChar c).length := by
    rw [← hfront]
    simp
  have hget : (String.utf8EncodeChar c)[front.length] = b := by
    simp [← hfront]
  rw [← hget, UInt8.isUTF8FirstByte_getElem_utf8EncodeChar] at hb
  rw [List.length_eq_zero_iff.1 hb] at hfront
  exact hfront

/-- The end of a text in bytes is the end of the text if it starts with a first byte. -/
theorem exists_suffix_of_firstByte {cs : List Char} {bytes : List UInt8} (h : bytes <:+ encode cs)
    (hfirst : ∀ b, bytes.head? = some b → b.IsUTF8FirstByte) :
    ∃ cs', cs' <:+ cs ∧ bytes = encode cs' := by
  induction cs with
  | nil => exact ⟨[], List.suffix_refl _, List.suffix_nil.1 h⟩
  | cons c cs ih =>
    rw [encode_cons] at h
    obtain ⟨front, hfront⟩ := h
    rcases List.append_eq_append_iff.1 hfront with ⟨inner, hinner, rfl⟩ | ⟨outer, rfl, houter⟩
    · cases inner with
      | nil => exact ⟨cs, List.suffix_cons c cs, rfl⟩
      | cons b inner =>
        have hwhole := eq_of_suffix_utf8EncodeChar (hinner ▸ List.suffix_append front _)
          (hfirst b rfl)
        exact ⟨c :: cs, List.suffix_refl _, by rw [hwhole, encode_cons]⟩
    · obtain ⟨cs', hcs', hbytes⟩ := ih (houter ▸ List.suffix_append outer bytes)
      exact ⟨cs', hcs'.trans (List.suffix_cons c cs), hbytes⟩

/-- A text whose bytes are a start of those of another is a start of it. -/
theorem prefix_of_encode_prefix : ∀ {cs cs' : List Char}, encode cs <+: encode cs' → cs <+: cs'
  | [], _, _ => List.nil_prefix
  | c :: cs, cs', h => by
    obtain ⟨rest, hrest⟩ := h
    rw [encode_cons, List.append_assoc] at hrest
    obtain ⟨cs', rfl, htail⟩ := exists_of_append_eq_encode hrest
    exact List.cons_prefix_cons.2 ⟨rfl, prefix_of_encode_prefix ⟨rest, htail⟩⟩

/-- A text has at least as many bytes as characters, and more if it has one of several bytes. -/
theorem length_le_encode (cs : List Char) : cs.length ≤ (encode cs).length := by
  induction cs with
  | nil => exact Nat.le_refl 0
  | cons c cs ih =>
    rw [encode_cons, List.length_append, List.length_cons, String.length_utf8EncodeChar]
    have := c.utf8Size_pos
    omega

theorem length_lt_encode {cs : List Char} {c : Char} (hc : c ∈ cs) (hsize : c.utf8Size ≠ 1) :
    cs.length < (encode cs).length := by
  obtain ⟨front, rest, rfl⟩ := List.append_of_mem hc
  have hfront := length_le_encode front
  have hrest := length_le_encode rest
  have hpos := c.utf8Size_pos
  rw [encode_append, encode_cons, List.length_append, List.length_append, List.length_append,
    List.length_cons, String.length_utf8EncodeChar]
  omega

/-- A text that is longer has more bytes. -/
theorem length_encode_lt {cs cs' : List Char} (h : cs <+: cs') (hne : cs ≠ cs') :
    (encode cs).length < (encode cs').length := by
  obtain ⟨rest, rfl⟩ := h
  have hrest : rest ≠ [] := fun hnil => hne (by rw [hnil, List.append_nil])
  have hle := length_le_encode rest
  have hpos := List.length_pos_iff.2 hrest
  rw [encode_append, List.length_append]
  omega

/-! ## Order -/

theorem cons_ofNat_lt_cons_ofNat {m n : ℕ} (hm : m < 256) (hn : n < 256) (x y : List UInt8) :
    UInt8.ofNat m :: x < UInt8.ofNat n :: y ↔ m < n ∨ m = n ∧ x < y := by
  rw [List.cons_lt_cons_iff, UInt8.lt_iff_toNat_lt, ← UInt8.toNat_inj, UInt8.toNat_ofNat',
    UInt8.toNat_ofNat', Nat.mod_eq_of_lt hm, Nat.mod_eq_of_lt hn]

theorem utf8EncodeChar_append_lt {c c' : Char} (h : c < c') (x y : List UInt8) :
    String.utf8EncodeChar c ++ x < String.utf8EncodeChar c' ++ y := by
  have hlt : c.val.toNat < c'.val.toNat := UInt32.lt_iff_toNat_lt.1 (Char.lt_def.1 h)
  have hmax : c'.val.toNat < 0x110000 := by
    rcases c'.valid with h | h <;> omega
  rw [String.utf8EncodeChar, String.utf8EncodeChar]
  generalize c.val.toNat = v at hlt
  generalize c'.val.toNat = w at hlt hmax
  -- the digits of a number in base 64
  have hdigit₂ : ∀ n : ℕ, n / 4096 = n / 64 / 64 := fun n => (Nat.div_div_eq_div_mul n 64 64).symm
  have hdigit₃ : ∀ n : ℕ, n / 262144 = n / 64 / 64 / 64 := fun n => by
    rw [Nat.div_div_eq_div_mul, Nat.div_div_eq_div_mul]
  rw [hdigit₂, hdigit₂, hdigit₃, hdigit₃]
  split_ifs <;> simp only [List.cons_append, List.nil_append] <;>
    simp (disch := omega) only [cons_ofNat_lt_cons_ofNat] <;> omega

/-- **Texts are ordered like their bytes.** -/
theorem encode_lt_encode_iff {cs cs' : List Char} : encode cs < encode cs' ↔ cs < cs' := by
  have hmono : ∀ {cs cs' : List Char}, cs < cs' → encode cs < encode cs' := by
    intro cs cs' h
    induction cs generalizing cs' with
    | nil =>
      cases cs' with
      | nil => exact absurd h (List.not_lt_nil _)
      | cons c' cs' =>
        obtain ⟨b, bytes, hbytes⟩ := List.exists_cons_of_ne_nil (String.utf8EncodeChar_ne_nil (c := c'))
        rw [encode_nil, encode_cons, hbytes]
        exact List.nil_lt_cons _ _
    | cons c cs ih =>
      cases cs' with
      | nil => exact absurd h (List.not_lt_nil _)
      | cons c' cs' =>
        rw [encode_cons, encode_cons]
        rcases List.cons_lt_cons_iff.1 h with hlt | ⟨rfl, hlt⟩
        · exact utf8EncodeChar_append_lt hlt _ _
        · exact List.append_left_lt (ih hlt)
  refine ⟨fun h => ?_, hmono⟩
  by_contra hnot
  by_cases hgt : cs' < cs
  · exact List.lt_asymm h (hmono hgt)
  · obtain rfl := Std.Trichotomous.trichotomous cs cs' hnot hgt
    exact List.lt_irrefl _ h

end Lib.Utf8
