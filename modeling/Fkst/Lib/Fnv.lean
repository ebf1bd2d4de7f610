import Fkst.Lib.Text

/-!
# FNV-1a

The 64-bit hash FNV-1a over bytes.  A hash may be fed piece by piece (`feed_append`), and it is
written with sixteen hexadecimal digits, which determine it (`hex_injective`).
-/

set_option autoImplicit false

namespace Lib.Fnv

/-- The offset basis. -/
def basis : UInt64 := 0xcbf29ce484222325

/-- Feed bytes to a hash. -/
def feed (hash : UInt64) (bytes : List UInt8) : UInt64 :=
  bytes.foldl (fun hash byte => (hash ^^^ byte.toUInt64) * 0x100000001b3) hash

@[simp] theorem feed_append (hash : UInt64) (a b : List UInt8) :
    feed hash (a ++ b) = feed (feed hash a) b :=
  List.foldl_append

/-- A hash in hexadecimal. -/
def hex (hash : UInt64) : List Char := Text.digits Nat.digitChar 16 16 hash.toNat

@[simp] theorem length_hex (hash : UInt64) : (hex hash).length = 16 := Text.length_digits _ _ _ _

theorem hex_injective {h h' : UInt64} (heq : hex h = hex h') : h = h' := by
  have hpow : 16 ^ 16 = 2 ^ 64 := by decide
  refine UInt64.toNat_inj.1 ?_
  exact Text.digits_injOn (by decide) Text.digitChar_inj_sixteen (hpow ▸ h.toNat_lt)
    (hpow ▸ h'.toNat_lt) heq

example : hex (feed basis [97]) = "af63dc4c8601ec8c".toList := by decide

end Lib.Fnv
