import Fkst.Lib.Sha256
import Fkst.Router.Identity

/-!
# The digest of the router

`sha256` of `delivery_router.rs` is written out by hand, over bytes and words.  This file compares it,
step by step, with the standard, whose messages are lists of bits (`toList_sha256`).

The loop that pads a message with zeros is a formula in `sha256Message`; `padZeros_eq` is the loop.
-/

set_option autoImplicit false

namespace Fkst.Router

open Lib.Codec
open Lib.Sha256 (toBits ofBits rotr shr word schedule Working rootBits firstPrimes)

/-! ## The bits of bytes -/

/-- The bits of some bytes. -/
def bits (bytes : List UInt8) : List Bool := bytes.flatMap fun b => toBits 8 b.toNat

theorem bits_cons (b : UInt8) (bytes : List UInt8) : bits (b :: bytes) = toBits 8 b.toNat ++ bits bytes :=
  List.flatMap_cons

theorem bits_append (bytes bytes' : List UInt8) : bits (bytes ++ bytes') = bits bytes ++ bits bytes' :=
  List.flatMap_append

@[simp] theorem length_bits (bytes : List UInt8) : (bits bytes).length = 8 * bytes.length := by
  induction bytes with
  | nil => rfl
  | cons b bytes ih =>
    rw [bits_cons, List.length_append, Lib.Sha256.length_toBits, ih, List.length_cons]
    omega

theorem drop_bits (bytes : List UInt8) (n : ℕ) : (bits bytes).drop (8 * n) = bits (bytes.drop n) := by
  induction n generalizing bytes with
  | zero => rfl
  | succ n ih =>
    cases bytes with
    | nil => simp [bits]
    | cons b bytes =>
      rw [bits_cons, Nat.mul_succ, Nat.add_comm, ← List.drop_drop, List.drop_left' (by simp), ih,
        List.drop_succ_cons]

theorem take_bits (bytes : List UInt8) (n : ℕ) : (bits bytes).take (8 * n) = bits (bytes.take n) := by
  induction n generalizing bytes with
  | zero => rfl
  | succ n ih =>
    cases bytes with
    | nil => simp [bits]
    | cons b bytes =>
      have hlen : 8 * (n + 1) = (toBits 8 b.toNat).length + 8 * n := by
        rw [Lib.Sha256.length_toBits]
        omega
      rw [bits_cons, hlen, List.take_length_add_append, ih, List.take_succ_cons, bits_cons]

theorem bits_beBytes32 (x : UInt32) : bits (beBytes32 x) = toBits 32 x.toNat := by
  have hbyte : ∀ n : ℕ, toBits 8 (n % 256) = toBits 8 n := Lib.Sha256.toBits_mod 8
  have hsplit : toBits 32 x.toNat = toBits 8 (x.toNat / 16777216) ++ (toBits 8 (x.toNat / 65536) ++
      (toBits 8 (x.toNat / 256) ++ toBits 8 x.toNat)) := by
    rw [Lib.Sha256.toBits_add 24 8, Lib.Sha256.toBits_add 16 8, Lib.Sha256.toBits_add 8 8]
    simp only [Nat.div_div_eq_div_mul, List.append_assoc]
    rfl
  rw [hsplit]
  simp [beBytes32, bits, hbyte, Nat.shiftRight_eq_div_pow]

theorem bits_beBytes64 (x : UInt64) : bits (beBytes64 x) = toBits 64 x.toNat := by
  have hhalf : ∀ n : ℕ, toBits 32 (n % 4294967296) = toBits 32 n := Lib.Sha256.toBits_mod 32
  rw [beBytes64, bits_append, bits_beBytes32, bits_beBytes32, Lib.Sha256.toBits_add 32 32]
  simp [hhalf, Nat.shiftRight_eq_div_pow]

/-! ## The message -/

/-- `while message.len() % 64 != 56 \x7b message.push(0); }`. -/
def padZeros (message : List UInt8) : List UInt8 :=
  if message.length % 64 = 56 then message else padZeros (message ++ [0])
termination_by (120 - message.length % 64) % 64
decreasing_by
  rw [List.length_append, List.length_singleton]
  omega

theorem padZeros_eq (message : List UInt8) :
    padZeros message = message ++ List.replicate ((120 - message.length % 64) % 64) 0 := by
  induction message using padZeros.induct with
  | case1 message h =>
    rw [padZeros, if_pos h, h]
    simp
  | case2 message h ih =>
    have hcount : (120 - message.length % 64) % 64 = (120 - (message ++ [0]).length % 64) % 64 + 1 := by
      rw [List.length_append, List.length_singleton]
      omega
    rw [padZeros, if_neg h, ih, List.append_assoc, hcount, List.replicate_succ]
    rfl

/-- **The message that is hashed is the padded one of the standard.** -/
theorem bits_sha256Message {input : List UInt8} (h : input.length < 2 ^ 61) :
    bits (sha256Message input) = Lib.Sha256.pad (bits input) := by
  have hlen : (UInt64.ofNat input.length * 8).toNat = 8 * input.length := by
    have height : (8 : UInt64).toNat = 8 := rfl
    rw [UInt64.toNat_mul, UInt64.toNat_ofNat', height]
    omega
  have hzeros : Lib.Sha256.zeros (8 * input.length) =
      7 + 8 * ((120 - (input.length + 1) % 64) % 64) := by
    refine Lib.Sha256.zeros_eq ?_ ?_
    · omega
    · omega
  have hreplicate : ∀ n, bits (List.replicate n 0) = List.replicate (8 * n) false := by
    intro n
    induction n with
    | zero => rfl
    | succ n ih =>
      rw [List.replicate_succ, bits_cons, ih, Nat.mul_succ, Nat.add_comm, List.replicate_add]
      rfl
  have hone : toBits 8 (0x80 : UInt8).toNat = true :: List.replicate 7 false := by decide
  rw [sha256Message, bits_append, bits_append, bits_cons, hreplicate, bits_beBytes64, hlen, hone,
    Lib.Sha256.pad, length_bits, hzeros, List.replicate_add]
  simp only [List.append_assoc, List.cons_append]

theorem length_sha256Message (input : List UInt8) : 64 ∣ (sha256Message input).length := by
  rw [sha256Message]
  simp only [List.length_append, List.length_cons, List.length_replicate, beBytes64, beBytes32,
    List.length_nil]
  omega

/-! ## The rounds -/

theorem toBitVec_rotateRight {x n : UInt32} (h : n.toNat < 32) (hpos : 0 < n.toNat) :
    (rotateRight x n).toBitVec = rotr n.toNat x.toBitVec := by
  have hback : (32 - n).toNat = 32 - n.toNat := by
    rw [UInt32.toNat_sub_of_le]
    · rfl
    · rw [UInt32.le_iff_toNat_le]
      exact Nat.le_of_lt h
  have hright : (x >>> n).toBitVec = x.toBitVec >>> n.toNat := by
    rw [UInt32.toBitVec_shiftRight, BitVec.ushiftRight_eq', BitVec.toNat_umod]
    show x.toBitVec >>> (n.toNat % 32) = _
    rw [Nat.mod_eq_of_lt h]
  have hleft : (x <<< (32 - n)).toBitVec = x.toBitVec <<< (32 - n.toNat) := by
    rw [UInt32.toBitVec_shiftLeft, BitVec.shiftLeft_eq', BitVec.toNat_umod]
    show x.toBitVec <<< ((32 - n).toNat % 32) = _
    rw [hback, Nat.mod_eq_of_lt (by omega)]
  rw [rotateRight, UInt32.toBitVec_or, hright, hleft, rotr, BitVec.rotateRight, BitVec.rotateRightAux,
    Nat.mod_eq_of_lt h]

theorem toBitVec_smallSigma0 (x : UInt32) :
    (rotateRight x 7 ^^^ rotateRight x 18 ^^^ x >>> 3).toBitVec =
      Lib.Sha256.smallSigma0 x.toBitVec := by
  rw [UInt32.toBitVec_xor, UInt32.toBitVec_xor, toBitVec_rotateRight (by decide) (by decide),
    toBitVec_rotateRight (by decide) (by decide)]
  rfl

theorem toBitVec_smallSigma1 (x : UInt32) :
    (rotateRight x 17 ^^^ rotateRight x 19 ^^^ x >>> 10).toBitVec =
      Lib.Sha256.smallSigma1 x.toBitVec := by
  rw [UInt32.toBitVec_xor, UInt32.toBitVec_xor, toBitVec_rotateRight (by decide) (by decide),
    toBitVec_rotateRight (by decide) (by decide)]
  rfl

theorem toBitVec_bigSigma0 (x : UInt32) :
    (rotateRight x 2 ^^^ rotateRight x 13 ^^^ rotateRight x 22).toBitVec =
      Lib.Sha256.bigSigma0 x.toBitVec := by
  rw [UInt32.toBitVec_xor, UInt32.toBitVec_xor, toBitVec_rotateRight (by decide) (by decide),
    toBitVec_rotateRight (by decide) (by decide), toBitVec_rotateRight (by decide) (by decide)]
  rfl

theorem toBitVec_bigSigma1 (x : UInt32) :
    (rotateRight x 6 ^^^ rotateRight x 11 ^^^ rotateRight x 25).toBitVec =
      Lib.Sha256.bigSigma1 x.toBitVec := by
  rw [UInt32.toBitVec_xor, UInt32.toBitVec_xor, toBitVec_rotateRight (by decide) (by decide),
    toBitVec_rotateRight (by decide) (by decide), toBitVec_rotateRight (by decide) (by decide)]
  rfl

/-- Bits that do not meet are added. -/
theorem or_eq_add (i a : ℕ) {b : ℕ} (h : b < 2 ^ i) : a * 2 ^ i ||| b = a * 2 ^ i + b := by
  rw [Nat.mul_comm]
  exact (Nat.two_pow_add_eq_or_of_lt h a).symm

theorem toBitVec_beWord (b₀ b₁ b₂ b₃ : UInt8) :
    (b₀.toUInt32 <<< 24 ||| b₁.toUInt32 <<< 16 ||| b₂.toUInt32 <<< 8 ||| b₃.toUInt32).toBitVec =
      BitVec.ofNat 32 (ofBits (bits [b₀, b₁, b₂, b₃])) := by
  have h₀ : b₀.toNat < 256 := b₀.toNat_lt
  have h₁ : b₁.toNat < 256 := b₁.toNat_lt
  have h₂ : b₂.toNat < 256 := b₂.toNat_lt
  have h₃ : b₃.toNat < 256 := b₃.toNat_lt
  have hsum : ofBits (bits [b₀, b₁, b₂, b₃]) =
      ((b₀.toNat * 256 + b₁.toNat) * 256 + b₂.toNat) * 256 + b₃.toNat := by
    simp only [bits, List.flatMap_cons, List.flatMap_nil, List.append_nil, Lib.Sha256.ofBits_append,
      Lib.Sha256.ofBits_toBits, Lib.Sha256.length_toBits, List.length_append]
    omega
  have hor₁ : b₀.toNat * 16777216 ||| b₁.toNat * 65536 = (b₀.toNat * 256 + b₁.toNat) * 65536 :=
    (or_eq_add 24 _ (by omega)).trans (by omega)
  have hor₂ : (b₀.toNat * 256 + b₁.toNat) * 65536 ||| b₂.toNat * 256 =
      ((b₀.toNat * 256 + b₁.toNat) * 256 + b₂.toNat) * 256 :=
    (or_eq_add 16 _ (by omega)).trans (by omega)
  have hor₃ : ((b₀.toNat * 256 + b₁.toNat) * 256 + b₂.toNat) * 256 ||| b₃.toNat =
      ((b₀.toNat * 256 + b₁.toNat) * 256 + b₂.toNat) * 256 + b₃.toNat := or_eq_add 8 _ (by omega)
  refine BitVec.eq_of_toNat_eq ?_
  rw [hsum, BitVec.toNat_ofNat, ← hor₃, ← hor₂, ← hor₁]
  simp only [UInt32.toBitVec_or, BitVec.toNat_or, UInt32.toNat_toBitVec, UInt32.toNat_shiftLeft,
    UInt8.toNat_toUInt32, Nat.shiftLeft_eq]
  -- none of the four bytes is shifted out of the word
  have hmod : ∀ n i : ℕ, n * i < 2 ^ 32 → n * i % 2 ^ 32 = n * i := fun _ _ => Nat.mod_eq_of_lt
  have hall : (b₀.toNat * 16777216 ||| b₁.toNat * 65536 ||| b₂.toNat * 256 ||| b₃.toNat) < 2 ^ 32 := by
    rw [hor₁, hor₂, hor₃]
    omega
  rw [Nat.mod_eq_of_lt hall]
  exact congrArg₂ (· ||| ·) (congrArg₂ (· ||| ·) (congrArg₂ (· ||| ·) (hmod _ 16777216 (by omega))
    (hmod _ 65536 (by omega))) (hmod _ 256 (by omega))) rfl

theorem word_bits (block : List UInt8) (j : ℕ) :
    word (bits block) j = BitVec.ofNat 32 (ofBits (bits ((block.drop (4 * j)).take 4))) := by
  have hstart : 32 * j = 8 * (4 * j) := by omega
  rw [word, hstart, drop_bits]
  exact congrArg (fun bits => BitVec.ofNat 32 (ofBits bits)) (take_bits _ 4)

/-- The words of a block. -/
theorem map_beWords (n : ℕ) {block : List UInt8} (h : block.length = 4 * n) :
    beWords block = (List.range n).map fun j => UInt32.ofBitVec (word (bits block) j) := by
  induction n generalizing block with
  | zero =>
    obtain rfl := List.eq_nil_of_length_eq_zero h
    rfl
  | succ n ih =>
    match block, h with
    | b₀ :: b₁ :: b₂ :: b₃ :: rest, h =>
      have hrest : rest.length = 4 * n := by
        simp only [List.length_cons] at h
        omega
      rw [beWords, ih hrest, List.range_succ_eq_map, List.map_cons, List.map_map]
      refine congrArg₂ List.cons ?_ (List.map_congr_left fun j _ => ?_)
      · rw [word_bits, ← UInt32.toBitVec_inj]
        exact toBitVec_beWord b₀ b₁ b₂ b₃
      · show _ = UInt32.ofBitVec (word _ (j + 1))
        rw [word_bits, word_bits]
        rfl

theorem getD_reverse_map_range {α : Type} (f : ℕ → α) {n k : ℕ} (hk : k < n) (a : α) :
    ((List.range n).map f).reverse.getD k a = f (n - 1 - k) := by
  rw [List.getD_eq_getElem _ _ (by simpa using hk)]
  simp

/-- A word of the schedule of a block. -/
def scheduleWord (block : List UInt8) (t : ℕ) : UInt32 :=
  UInt32.ofBitVec (schedule (word (bits block)) t)

theorem beWords_eq {block : List UInt8} (h : block.length = 64) :
    beWords block = (List.range 16).map (scheduleWord block) := by
  rw [map_beWords 16 h]
  refine List.map_congr_left fun t ht => ?_
  rw [scheduleWord, schedule, if_pos (List.mem_range.1 ht)]

/-- The next word of the schedule. -/
theorem scheduleWord_next (block : List UInt8) (t : ℕ) :
    scheduleWord block (16 + t) = scheduleWord block t + (rotateRight (scheduleWord block (t + 1)) 7 ^^^
      rotateRight (scheduleWord block (t + 1)) 18 ^^^ scheduleWord block (t + 1) >>> 3) +
      scheduleWord block (t + 9) + (rotateRight (scheduleWord block (t + 14)) 17 ^^^
        rotateRight (scheduleWord block (t + 14)) 19 ^^^ scheduleWord block (t + 14) >>> 10) := by
  have hlate : ¬ 16 + t < 16 := by omega
  have h14 : 16 + t - 2 = t + 14 := by omega
  have h9 : 16 + t - 7 = t + 9 := by omega
  have h1 : 16 + t - 15 = t + 1 := by omega
  rw [← UInt32.toBitVec_inj, UInt32.toBitVec_add, UInt32.toBitVec_add, UInt32.toBitVec_add,
    toBitVec_smallSigma0, toBitVec_smallSigma1]
  show schedule _ (16 + t) = schedule _ t + Lib.Sha256.smallSigma0 (schedule _ (t + 1)) +
    schedule _ (t + 9) + Lib.Sha256.smallSigma1 (schedule _ (t + 14))
  rw [schedule, if_neg hlate, h14, h9, h1, Nat.add_sub_cancel_left]
  ac_rfl

/-- **The words of the loop are the schedule**, as far as it has come. -/
theorem sha256Schedule_eq {block : List UInt8} (h : block.length = 64) :
    (sha256Schedule block).reverse = (List.range 64).map (scheduleWord block) := by
  have hrun : ∀ n, (List.range' 16 n).foldl (fun w _ =>
      let w15 := w.getD 14 0
      let w2 := w.getD 1 0
      let s0 := rotateRight w15 7 ^^^ rotateRight w15 18 ^^^ w15 >>> 3
      let s1 := rotateRight w2 17 ^^^ rotateRight w2 19 ^^^ w2 >>> 10
      (w.getD 15 0 + s0 + w.getD 6 0 + s1) :: w) ((List.range 16).map (scheduleWord block)).reverse =
        ((List.range (16 + n)).map (scheduleWord block)).reverse := by
    intro n
    induction n with
    | zero => rfl
    | succ n ih =>
      have h1 : 16 + n - 1 - 14 = n + 1 := by omega
      have h14 : 16 + n - 1 - 1 = n + 14 := by omega
      have h0 : 16 + n - 1 - 15 = n := by omega
      have h9 : 16 + n - 1 - 6 = n + 9 := by omega
      rw [List.range'_concat, List.foldl_append, ih, List.foldl_cons, List.foldl_nil,
        getD_reverse_map_range _ (by omega), getD_reverse_map_range _ (by omega),
        getD_reverse_map_range _ (by omega), getD_reverse_map_range _ (by omega), ← Nat.add_assoc,
        List.range_succ, List.map_append, List.reverse_append, h0, h1, h9, h14, List.map_singleton,
        List.reverse_singleton, List.singleton_append, scheduleWord_next]
  rw [sha256Schedule, beWords_eq h]
  exact (congrArg List.reverse (hrun 48)).trans (List.reverse_reverse _)

/-- A hash value, as the standard has it. -/
def Sha256State.working (v : Sha256State) : Working :=
  ⟨v.a.toBitVec, v.b.toBitVec, v.c.toBitVec, v.d.toBitVec, v.e.toBitVec, v.f.toBitVec, v.g.toBitVec,
    v.h.toBitVec⟩

theorem working_sha256Round (v : Sha256State) (k w : UInt32) :
    (sha256Round v (k, w)).working = Lib.Sha256.round k.toBitVec w.toBitVec v.working := by
  simp only [sha256Round, Sha256State.working, Lib.Sha256.round, UInt32.toBitVec_add,
    toBitVec_bigSigma0, toBitVec_bigSigma1]
  rfl

/-- **The constants of the rounds.** -/
theorem sha256K_eq : sha256K = (List.range 64).map fun t => UInt32.ofBitVec (Lib.Sha256.K t) := by
  have htable := Lib.Sha256.eq_map_rootBits 3 (sha256K.map UInt32.toBitVec) (by decide)
    (by decide) (by decide +kernel)
  have hback : (sha256K.map UInt32.toBitVec).map UInt32.ofBitVec = sha256K := by
    rw [List.map_map]
    exact List.map_id _
  rw [← hback, htable, List.map_map]
  rfl

/-- The initial hash value. -/
theorem working_sha256H0 : sha256H0.working = Lib.Sha256.initial := by
  have htable := Lib.Sha256.eq_map_rootBits 2 sha256H0.working.toList (by decide)
    (by decide) (by decide +kernel)
  have hrange : List.range sha256H0.working.toList.length = [0, 1, 2, 3, 4, 5, 6, 7] := by decide
  rw [hrange] at htable
  simp only [Working.toList, List.map_cons, List.map_nil, List.cons.injEq, and_true] at htable
  obtain ⟨ha, hb, hc, hd, he, hf, hg, hh⟩ := htable
  exact Working.ext ha hb hc hd he hf hg hh

theorem working_sha256Chunk (v : Sha256State) {block : List UInt8} (h : block.length = 64) :
    (sha256Chunk v block).working = Lib.Sha256.compress v.working (bits block) := by
  have hrounds : ((sha256K.zip (sha256Schedule block).reverse).foldl sha256Round v).working =
      Lib.Sha256.rounds (word (bits block)) v.working := by
    rw [sha256Schedule_eq h, sha256K_eq, List.zip_map', List.foldl_map, Lib.Sha256.rounds]
    exact (List.foldl_hom Sha256State.working fun v t => (working_sha256Round v _ _).symm).symm
  rw [Lib.Sha256.compress, ← hrounds, Working.add_comm]
  rfl

/-! ## The digest -/

theorem working_foldl {blocks : List (List UInt8)} (h : ∀ block ∈ blocks, block.length = 64)
    (v : Sha256State) : (blocks.foldl sha256Chunk v).working =
      blocks.foldl (fun v block => Lib.Sha256.compress v (bits block)) v.working := by
  induction blocks generalizing v with
  | nil => rfl
  | cons block blocks ih =>
    rw [List.forall_mem_cons] at h
    rw [List.foldl_cons, List.foldl_cons, ih h.2, working_sha256Chunk v h.1]

theorem length_of_mem_chunks {message : List UInt8} {n : ℕ} (h : message.length = 64 * n)
    {chunk : List UInt8} (hchunk : chunk ∈ chunks 64 message) : chunk.length = 64 := by
  rw [chunks_eq_map_range (by decide) h] at hchunk
  obtain ⟨i, hi, rfl⟩ := List.mem_map.1 hchunk
  have hlt := List.mem_range.1 hi
  rw [List.length_take, List.length_drop, h]
  omega

/-- **The hash value** of the padded message. -/
theorem working_hash {message : List UInt8} {n : ℕ} (h : message.length = 64 * n) (v : Sha256State) :
    ((chunks 64 message).foldl sha256Chunk v).working =
      (List.range n).foldl (fun v i => Lib.Sha256.compress v
        (((bits message).drop (512 * i)).take 512)) v.working := by
  have hblock : ∀ i, ((bits message).drop (512 * i)).take 512 =
      bits ((message.drop (64 * i)).take 64) := by
    intro i
    have hstart : 512 * i = 8 * (64 * i) := by omega
    rw [hstart, drop_bits]
    exact take_bits _ 64
  rw [working_foldl fun _ => length_of_mem_chunks h, chunks_eq_map_range (by decide) h, List.foldl_map]
  simp only [hblock]

theorem bits_words (words : List UInt32) : bits (words.flatMap beBytes32) =
    (words.map UInt32.toBitVec).flatMap fun w => toBits 32 w.toNat := by
  induction words with
  | nil => rfl
  | cons w words ih =>
    rw [List.flatMap_cons, bits_append, ih, bits_beBytes32]
    rfl

/-- **The digest of the router is SHA-256.** -/
theorem bits_sha256 {input : List UInt8} (h : input.length < 2 ^ 61) :
    bits (sha256 input) = Lib.Sha256.digest (bits input) := by
  obtain ⟨n, hn⟩ := length_sha256Message input
  have hcount : (bits (sha256Message input)).length / 512 = n := by
    rw [length_bits, hn]
    omega
  have hhash := working_hash hn sha256H0
  rw [working_sha256H0] at hhash
  rw [Lib.Sha256.digest, Lib.Sha256.hash, ← bits_sha256Message h, hcount, ← hhash, sha256]
  exact bits_words _

end Fkst.Router
