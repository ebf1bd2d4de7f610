import Mathlib.Data.Nat.Init
import Mathlib.Tactic.Common
import Mathlib.Tactic.Ring

/-!
# Base64 for names

The variant of base64 that is safe in file names and URLs, without padding: three bytes are written
as four characters, and one or two bytes at the end as two or three.  A text can be read back
(`decode_encode`), so that no two texts are encoded alike (`encode_inj`), and no character of the
encoding is a slash (`sep_notMem_encode`).
-/

set_option autoImplicit false

namespace Lib.Base64

/-- The character for six bits. -/
def symbol (i : ℕ) : Char :=
  if i < 26 then Char.ofNat (65 + i)
  else if i < 52 then Char.ofNat (97 + (i - 26))
  else if i < 62 then Char.ofNat (48 + (i - 52))
  else if i = 62 then '-'
  else '_'

/-- The characters for `w` groups of six bits, the most significant first. -/
def symbols : ℕ → ℕ → List Char
  | 0, _ => []
  | w + 1, n => symbol (n / 64 ^ w % 64) :: symbols w n

/-- `URL_SAFE_NO_PAD.encode`. -/
def encode : List UInt8 → List Char
  | a :: b :: c :: rest => symbols 4 (a.toNat * 65536 + b.toNat * 256 + c.toNat) ++ encode rest
  | [a, b] => symbols 3 ((a.toNat * 256 + b.toNat) * 4)
  | [a] => symbols 2 (a.toNat * 16)
  | [] => []

theorem symbol_ne_sep : ∀ i, i < 64 → symbol i ≠ '/' := by
  decide

theorem sep_notMem_symbols : ∀ (w n : ℕ), '/' ∉ symbols w n
  | 0, _ => by simp [symbols]
  | w + 1, n => by
    rw [symbols, List.mem_cons, not_or]
    exact ⟨(symbol_ne_sep _ (Nat.mod_lt _ (by decide))).symm, sep_notMem_symbols w n⟩

theorem sep_notMem_encode : ∀ bytes, '/' ∉ encode bytes
  | a :: b :: c :: rest => by
    rw [encode, List.mem_append, not_or]
    exact ⟨sep_notMem_symbols _ _, sep_notMem_encode rest⟩
  | [_, _] => sep_notMem_symbols _ _
  | [_] => sep_notMem_symbols _ _
  | [] => by simp [encode]

/-! ## Reading -/

/-- The six bits of a character. -/
def value (c : Char) : Option ℕ := (List.range 64).find? fun i => symbol i == c

/-- The number that some characters stand for, the most significant one first. -/
def values (acc : ℕ) : List Char → Option ℕ
  | [] => some acc
  | c :: rest => (value c).bind fun v => values (acc * 64 + v) rest

/-- `URL_SAFE_NO_PAD.decode`.  The bits that are left over at the end have to be zero. -/
def decode : List Char → Option (List UInt8)
  | a :: b :: c :: d :: rest =>
    (values 0 [a, b, c, d]).bind fun n => (decode rest).map fun bytes =>
      UInt8.ofNat (n / 65536) :: UInt8.ofNat (n / 256) :: UInt8.ofNat n :: bytes
  | [a, b, c] => (values 0 [a, b, c]).bind fun n =>
    if n % 4 = 0 then some [UInt8.ofNat (n / 1024), UInt8.ofNat (n / 4)] else none
  | [a, b] => (values 0 [a, b]).bind fun n =>
    if n % 16 = 0 then some [UInt8.ofNat (n / 16)] else none
  | [_] => none
  | [] => some []

theorem value_symbol : ∀ i, i < 64 → value (symbol i) = some i := by
  decide +kernel

theorem values_symbols (n : ℕ) : ∀ w acc, values acc (symbols w n) = some (acc * 64 ^ w + n % 64 ^ w)
  | 0, acc => by simp [symbols, values, Nat.mod_one]
  | w + 1, acc => by
    rw [symbols, values, value_symbol _ (Nat.mod_lt _ (by decide))]
    show values _ (symbols w n) = _
    rw [values_symbols n w, Nat.mod_pow_succ, Nat.pow_succ]
    exact congrArg some (by ring)

theorem values_symbols_of_lt {w n : ℕ} (h : n < 64 ^ w) : values 0 (symbols w n) = some n := by
  rw [values_symbols, Nat.mod_eq_of_lt h, Nat.zero_mul, Nat.zero_add]

theorem ofNat_eq_of_mod {n : ℕ} {b : UInt8} (h : n % 256 = b.toNat) : UInt8.ofNat n = b := by
  rw [← UInt8.toNat_inj, UInt8.toNat_ofNat', h]

/-- **What was encoded can be read back.** -/
theorem decode_encode : ∀ bytes, decode (encode bytes) = some bytes
  | a :: b :: c :: rest => by
    have := a.toNat_lt
    have := b.toNat_lt
    have := c.toNat_lt
    rw [encode]
    show (values 0 (symbols 4 (a.toNat * 65536 + b.toNat * 256 + c.toNat))).bind (fun n =>
      (decode (encode rest)).map fun bytes =>
        UInt8.ofNat (n / 65536) :: UInt8.ofNat (n / 256) :: UInt8.ofNat n :: bytes) = _
    rw [values_symbols_of_lt (by omega), decode_encode rest, Option.bind_some, Option.map_some,
      ofNat_eq_of_mod (b := a) (by omega), ofNat_eq_of_mod (b := b) (by omega),
      ofNat_eq_of_mod (b := c) (by omega)]
  | [a, b] => by
    have := a.toNat_lt
    have := b.toNat_lt
    rw [encode]
    show (values 0 (symbols 3 ((a.toNat * 256 + b.toNat) * 4))).bind (fun n =>
      if n % 4 = 0 then some [UInt8.ofNat (n / 1024), UInt8.ofNat (n / 4)] else none) = _
    rw [values_symbols_of_lt (by omega), Option.bind_some, if_pos (by omega),
      ofNat_eq_of_mod (b := a) (by omega), ofNat_eq_of_mod (b := b) (by omega)]
  | [a] => by
    have := a.toNat_lt
    rw [encode]
    show (values 0 (symbols 2 (a.toNat * 16))).bind (fun n =>
      if n % 16 = 0 then some [UInt8.ofNat (n / 16)] else none) = _
    rw [values_symbols_of_lt (by omega), Option.bind_some, if_pos (by omega),
      ofNat_eq_of_mod (b := a) (by omega)]
  | [] => rfl

/-- **No two texts are encoded alike.** -/
theorem encode_inj {bytes bytes' : List UInt8} (h : encode bytes = encode bytes') :
    bytes = bytes' := by
  have hread := decode_encode bytes
  rw [h, decode_encode] at hread
  exact (Option.some.inj hread).symm

end Lib.Base64
