import Mathlib.Analysis.SpecialFunctions.Pow.Real
import Mathlib.NumberTheory.PrimeCounting

/-!
# SHA-256

The hash function of FIPS 180-4, as the standard has it: a message is a list of bits, which is padded
and cut into blocks of sixteen words, and the constants are the first bits of the fractional parts of
the roots of the first primes.  Only messages of less than `2 ^ 64` bits have a digest in the standard.

To compare a program with it, the bits of bytes and words have to be read (`ofBits`, `toBits`), and
tables of constants have to be compared with roots, which takes natural numbers only
(`rootBits_eq`).
-/

set_option autoImplicit false

namespace Lib.Sha256

/-! ## Bits -/

/-- The number that some bits are, the highest one first. -/
def ofBits (bits : List Bool) : ℕ := bits.foldl (fun n b => 2 * n + b.toNat) 0

/-- The lowest `w` bits of a number, the highest one first. -/
def toBits : ℕ → ℕ → List Bool
  | 0, _ => []
  | w + 1, n => toBits w (n / 2) ++ [decide (n % 2 = 1)]

theorem ofBits_append_singleton (bits : List Bool) (b : Bool) :
    ofBits (bits ++ [b]) = 2 * ofBits bits + b.toNat := by
  rw [ofBits, List.foldl_append]
  rfl

theorem ofBits_append (bits bits' : List Bool) :
    ofBits (bits ++ bits') = ofBits bits * 2 ^ bits'.length + ofBits bits' := by
  induction bits' using List.reverseRecOn with
  | nil => simp [ofBits]
  | append_singleton bits' b ih =>
    rw [← List.append_assoc, ofBits_append_singleton, ih, ofBits_append_singleton, List.length_append,
      List.length_singleton]
    ring

@[simp] theorem length_toBits (w n : ℕ) : (toBits w n).length = w := by
  induction w generalizing n with
  | zero => rfl
  | succ w ih => rw [toBits, List.length_append, ih, List.length_singleton]

theorem toBits_add (v w n : ℕ) : toBits (v + w) n = toBits v (n / 2 ^ w) ++ toBits w n := by
  induction w generalizing n with
  | zero => simp [toBits]
  | succ w ih =>
    rw [← Nat.add_assoc, toBits, ih, toBits, List.append_assoc, Nat.div_div_eq_div_mul, pow_succ,
      Nat.mul_comm 2]

theorem toBits_mod (w n : ℕ) : toBits w (n % 2 ^ w) = toBits w n := by
  induction w generalizing n with
  | zero => rfl
  | succ w ih =>
    have hlow : n % 2 ^ (w + 1) % 2 = n % 2 :=
      Nat.mod_mod_of_dvd n (dvd_pow_self 2 (Nat.succ_ne_zero w))
    have hhigh : n % 2 ^ (w + 1) / 2 = n / 2 % 2 ^ w := by
      rw [pow_succ', Nat.mod_mul_right_div_self]
    rw [toBits, toBits, hlow, hhigh, ih]

theorem ofBits_toBits (w n : ℕ) : ofBits (toBits w n) = n % 2 ^ w := by
  induction w generalizing n with
  | zero => simp [toBits, ofBits, Nat.mod_one]
  | succ w ih =>
    rw [toBits, ofBits_append_singleton, ih, pow_succ', Nat.mod_mul]
    rcases Nat.mod_two_eq_zero_or_one n with h | h
    · simp [h]
    · simp [h, Nat.add_comm]

/-! ## Functions -/

/-- A word. -/
abbrev Word := BitVec 32

/-- `ROTR`. -/
def rotr (n : ℕ) (x : Word) : Word := x.rotateRight n

/-- `SHR`. -/
def shr (n : ℕ) (x : Word) : Word := x >>> n

/-- `Ch`. -/
def ch (x y z : Word) : Word := (x &&& y) ^^^ (~~~x &&& z)

/-- `Maj`. -/
def maj (x y z : Word) : Word := (x &&& y) ^^^ (x &&& z) ^^^ (y &&& z)

/-- `Σ₀`. -/
def bigSigma0 (x : Word) : Word := rotr 2 x ^^^ rotr 13 x ^^^ rotr 22 x

/-- `Σ₁`. -/
def bigSigma1 (x : Word) : Word := rotr 6 x ^^^ rotr 11 x ^^^ rotr 25 x

/-- `σ₀`. -/
def smallSigma0 (x : Word) : Word := rotr 7 x ^^^ rotr 18 x ^^^ shr 3 x

/-- `σ₁`. -/
def smallSigma1 (x : Word) : Word := rotr 17 x ^^^ rotr 19 x ^^^ shr 10 x

/-! ## Constants -/

/-- The first 32 bits of the fractional part of the `n`-th root of `m`. -/
noncomputable def rootBits (n m : ℕ) : Word :=
  BitVec.ofNat 32 ⌊Int.fract ((m : ℝ) ^ (n⁻¹ : ℝ)) * 2 ^ 32⌋₊

/-- The constants of the rounds. -/
noncomputable def K (t : ℕ) : Word := rootBits 3 (Nat.nth Nat.Prime t)

/-- The words of the initial hash value. -/
noncomputable def H0 (j : ℕ) : Word := rootBits 2 (Nat.nth Nat.Prime j)

/-- **The first bits of a root**, from a bound in natural numbers. -/
theorem rootBits_eq {n m k : ℕ} (hn : n ≠ 0) (hle : k ^ n ≤ m * 2 ^ (32 * n))
    (hlt : m * 2 ^ (32 * n) < (k + 1) ^ n) : rootBits n m = BitVec.ofNat 32 k := by
  have hroot : ((m : ℝ) ^ (n⁻¹ : ℝ) * 2 ^ 32) ^ n = ((m * 2 ^ (32 * n) : ℕ) : ℝ) := by
    rw [mul_pow, Real.rpow_inv_natCast_pow (Nat.cast_nonneg m) hn, ← pow_mul]
    push_cast
    rfl
  generalize hx : (m : ℝ) ^ (n⁻¹ : ℝ) = x at hroot
  have hnonneg : 0 ≤ x := hx ▸ Real.rpow_nonneg (Nat.cast_nonneg m) _
  have hfloor : ⌊x * 2 ^ 32⌋₊ = k := by
    rw [Nat.floor_eq_iff (by positivity)]
    constructor
    · refine le_of_pow_le_pow_left₀ hn (by positivity) ?_
      rw [hroot]
      exact_mod_cast hle
    · refine lt_of_pow_lt_pow_left₀ n (by positivity) ?_
      rw [hroot]
      exact_mod_cast hlt
  have hfract : Int.fract x * 2 ^ 32 = x * 2 ^ 32 - ((⌊x⌋₊ * 2 ^ 32 : ℕ) : ℝ) := by
    rw [Int.fract, ← natCast_floor_eq_intCast_floor hnonneg]
    push_cast
    ring
  have hwhole : ⌊x⌋₊ * 2 ^ 32 ≤ k := by
    rw [← hfloor]
    refine Nat.le_floor ?_
    rw [Nat.cast_mul, Nat.cast_pow, Nat.cast_ofNat]
    exact mul_le_mul_of_nonneg_right (Nat.floor_le hnonneg) (by positivity)
  refine BitVec.eq_of_toNat_eq ?_
  rw [rootBits, hx, hfract, Nat.floor_sub_natCast, hfloor, BitVec.toNat_ofNat, BitVec.toNat_ofNat]
  omega

/-- A word is the first bits of a root if it is with some digit in front. -/
theorem rootBits_of_exists {n m : ℕ} {b : Word} (hn : n ≠ 0)
    (h : ∃ i < 8, (i * 2 ^ 32 + b.toNat) ^ n ≤ m * 2 ^ (32 * n) ∧
      m * 2 ^ (32 * n) < (i * 2 ^ 32 + b.toNat + 1) ^ n) : rootBits n m = b := by
  obtain ⟨i, _, hle, hlt⟩ := h
  refine (rootBits_eq hn hle hlt).trans (BitVec.eq_of_toNat_eq ?_)
  rw [BitVec.toNat_ofNat, Nat.mul_add_mod_self_right, Nat.mod_eq_of_lt b.isLt]

/-! ### The first primes -/

/-- The first numbers with a property are those of an initial range. -/
theorem nth_eq_getElem {p : ℕ → Prop} [DecidablePred p] {N i : ℕ}
    (h : i < ((List.range N).filter fun n => decide (p n)).length) :
    Nat.nth p i = ((List.range N).filter fun n => decide (p n))[i] := by
  induction N with
  | zero => simp at h
  | succ N ih =>
    have hcount : ((List.range N).filter fun n => decide (p n)).length = Nat.count p N := by
      rw [Nat.count, List.countP_eq_length_filter]
    simp only [List.range_succ, List.filter_append] at h ⊢
    by_cases hi : i < ((List.range N).filter fun n => decide (p n)).length
    · rw [List.getElem_append_left hi, ih hi]
    · by_cases hN : p N
      · obtain rfl : i = Nat.count p N := by
          simp only [hcount, not_lt] at hi
          simp only [List.length_append, hcount, hN, decide_true, List.filter_cons_of_pos,
            List.filter_nil, List.length_singleton] at h
          omega
        rw [Nat.nth_count hN, List.getElem_append_right (by rw [hcount])]
        simp [hN]
      · simp only [List.length_append, hN, decide_false, Bool.false_eq_true, not_false_eq_true,
          List.filter_cons_of_neg, List.filter_nil, List.length_nil, Nat.add_zero] at h
        exact absurd h hi

/-- Trial division, by the numbers below 18. -/
def isPrime (n : ℕ) : Bool :=
  decide (2 ≤ n) && (List.range' 2 16).all fun d => !decide (d * d ≤ n) || !decide (n % d = 0)

theorem isPrime_iff {n : ℕ} (h : n < 324) : isPrime n = true ↔ n.Prime := by
  rw [Nat.prime_def_le_sqrt, isPrime, Bool.and_eq_true, decide_eq_true_eq]
  refine and_congr_right fun _ => ?_
  simp only [List.all_eq_true, List.mem_range'_1, Bool.or_eq_true, Bool.not_eq_true',
    decide_eq_false_iff_not, Nat.le_sqrt, Nat.dvd_iff_mod_eq_zero]
  constructor
  · intro hall d hd hsquare
    have hlt : d < 18 := by
      by_contra hge
      have hbig := Nat.mul_le_mul (Nat.not_lt.1 hge) (Nat.not_lt.1 hge)
      omega
    exact (hall d ⟨hd, hlt⟩).resolve_left (not_not.2 hsquare)
  · intro hall d hd
    by_cases hsquare : d * d ≤ n
    · exact .inr (hall d hd.1 hsquare)
    · exact .inl hsquare

/-- The first 64 primes. -/
def firstPrimes : List ℕ := (List.range 312).filter isPrime

theorem length_firstPrimes : firstPrimes.length = 64 := by decide +kernel

theorem nth_prime {t : ℕ} (h : t < 64) : Nat.nth Nat.Prime t = firstPrimes.getD t 0 := by
  have hprimes : ((List.range 312).filter fun n => decide n.Prime) = firstPrimes := by
    refine List.filter_congr fun n hn => ?_
    rw [Bool.eq_iff_iff, decide_eq_true_iff]
    exact (isPrime_iff (Nat.lt_of_lt_of_le (List.mem_range.1 hn) (by decide))).symm
  have hlt : t < firstPrimes.length := by rwa [length_firstPrimes]
  rw [List.getD_eq_getElem firstPrimes 0 hlt]
  revert hlt
  rw [← hprimes]
  exact nth_eq_getElem

/-- Whether the words of a table are the first bits of the `n`-th roots of the first primes. -/
def isRootTable (n : ℕ) (table : List Word) : Bool :=
  (firstPrimes.zip table).all fun entry => (List.range 8).any fun i =>
    decide ((i * 2 ^ 32 + entry.2.toNat) ^ n ≤ entry.1 * 2 ^ (32 * n) ∧
      entry.1 * 2 ^ (32 * n) < (i * 2 ^ 32 + entry.2.toNat + 1) ^ n)

/-- **A table of constants** is checked by computing in natural numbers. -/
theorem eq_map_rootBits (n : ℕ) (table : List Word) (hn : n ≠ 0) (hlength : table.length ≤ 64)
    (h : isRootTable n table = true) :
    table = (List.range table.length).map fun t => rootBits n (Nat.nth Nat.Prime t) := by
  refine List.ext_getElem (by simp) fun t ht _ => ?_
  have hprime : t < firstPrimes.length := by
    rw [length_firstPrimes]
    exact Nat.lt_of_lt_of_le ht hlength
  have hmem : (firstPrimes[t], table[t]) ∈ firstPrimes.zip table := by
    rw [← List.getElem_zip (h := by rw [List.length_zip]; exact Nat.lt_min.2 ⟨hprime, ht⟩)]
    exact List.getElem_mem _
  obtain ⟨i, hi, hroot⟩ := List.any_eq_true.1 (List.all_eq_true.1 h _ hmem)
  rw [List.getElem_map, List.getElem_range, nth_prime (Nat.lt_of_lt_of_le ht hlength),
    List.getD_eq_getElem _ _ hprime]
  exact (rootBits_of_exists hn ⟨i, List.mem_range.1 hi, of_decide_eq_true hroot⟩).symm

/-! ## Padding -/

theorem exists_zeros (l : ℕ) : ∃ k, (l + 1 + k) % 512 = 448 := ⟨(447 + 511 * l) % 512, by omega⟩

/-- The number of zeros behind a message of `l` bits and the one behind it. -/
def zeros (l : ℕ) : ℕ := Nat.find (exists_zeros l)

theorem zeros_eq {l k : ℕ} (hk : (l + 1 + k) % 512 = 448) (hlt : k < 512) : zeros l = k := by
  refine (Nat.find_eq_iff _).2 ⟨hk, fun k' hk' h => ?_⟩
  omega

/-- A message with its padding. -/
def pad (message : List Bool) : List Bool :=
  message ++ true :: (List.replicate (zeros message.length) false ++ toBits 64 message.length)

/-- A word of a block. -/
def word (block : List Bool) (j : ℕ) : Word := BitVec.ofNat 32 (ofBits ((block.drop (32 * j)).take 32))

/-! ## The digest -/

/-- The message schedule of a block. -/
def schedule (m : ℕ → Word) (t : ℕ) : Word :=
  if t < 16 then m t
  else smallSigma1 (schedule m (t - 2)) + schedule m (t - 7) + smallSigma0 (schedule m (t - 15)) +
    schedule m (t - 16)
termination_by t

/-- The eight working variables, and the eight words of a hash value. -/
@[ext] structure Working where
  a : Word
  b : Word
  c : Word
  d : Word
  e : Word
  f : Word
  g : Word
  h : Word

/-- The words of a hash value. -/
def Working.toList (v : Working) : List Word := [v.a, v.b, v.c, v.d, v.e, v.f, v.g, v.h]

/-- One round, with a constant and a word of the schedule. -/
def round (k w : Word) (v : Working) : Working :=
  let t1 := v.h + bigSigma1 v.e + ch v.e v.f v.g + k + w
  let t2 := bigSigma0 v.a + maj v.a v.b v.c
  ⟨t1 + t2, v.a, v.b, v.c, v.d + t1, v.e, v.f, v.g⟩

/-- The sums of the words of two hash values. -/
def Working.add (v v' : Working) : Working :=
  ⟨v.a + v'.a, v.b + v'.b, v.c + v'.c, v.d + v'.d, v.e + v'.e, v.f + v'.f, v.g + v'.g, v.h + v'.h⟩

theorem Working.add_comm (v v' : Working) : v.add v' = v'.add v :=
  Working.ext (BitVec.add_comm _ _) (BitVec.add_comm _ _) (BitVec.add_comm _ _) (BitVec.add_comm _ _)
    (BitVec.add_comm _ _) (BitVec.add_comm _ _) (BitVec.add_comm _ _) (BitVec.add_comm _ _)

/-- The rounds of a block. -/
noncomputable def rounds (m : ℕ → Word) (v : Working) : Working :=
  (List.range 64).foldl (fun v t => round (K t) (schedule m t) v) v

/-- The hash value after a block. -/
noncomputable def compress (v : Working) (block : List Bool) : Working :=
  (rounds (word block) v).add v

/-- The initial hash value. -/
noncomputable def initial : Working := ⟨H0 0, H0 1, H0 2, H0 3, H0 4, H0 5, H0 6, H0 7⟩

/-- The hash value of a message. -/
noncomputable def hash (message : List Bool) : Working :=
  (List.range ((pad message).length / 512)).foldl
    (fun v i => compress v (((pad message).drop (512 * i)).take 512)) initial

/-- **The digest of a message.** -/
noncomputable def digest (message : List Bool) : List Bool :=
  (hash message).toList.flatMap fun w => toBits 32 w.toNat

end Lib.Sha256
