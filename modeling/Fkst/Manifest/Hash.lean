import Fkst.Manifest.TreeHash
import Fkst.Router.Digest

/-!
# The digest of the manifests

`manifest_hash.rs` has a second `sha256`, next to the one of the router.  Both are SHA-256
(`sha256_standard`), so that they give the same digests.
-/

set_option autoImplicit false

namespace Fkst.Manifest

open Lib.Codec
open Router (Sha256State beBytes32 beBytes64 bits padZeros rotateRight scheduleWord sha256Message)

/-! ## The function -/

/-- `H0`. -/
def h0 : Sha256State :=
  ⟨0x6a09e667, 0xbb67ae85, 0x3c6ef372, 0xa54ff53a, 0x510e527f, 0x9b05688c, 0x1f83d9ab, 0x5be0cd19⟩

/-- `K`. -/
def k : List UInt32 :=
  [0x428a2f98, 0x71374491, 0xb5c0fbcf, 0xe9b5dba5, 0x3956c25b, 0x59f111f1, 0x923f82a4, 0xab1c5ed5,
    0xd807aa98, 0x12835b01, 0x243185be, 0x550c7dc3, 0x72be5d74, 0x80deb1fe, 0x9bdc06a7, 0xc19bf174,
    0xe49b69c1, 0xefbe4786, 0x0fc19dc6, 0x240ca1cc, 0x2de92c6f, 0x4a7484aa, 0x5cb0a9dc, 0x76f988da,
    0x983e5152, 0xa831c66d, 0xb00327c8, 0xbf597fc7, 0xc6e00bf3, 0xd5a79147, 0x06ca6351, 0x14292967,
    0x27b70a85, 0x2e1b2138, 0x4d2c6dfc, 0x53380d13, 0x650a7354, 0x766a0abb, 0x81c2c92e, 0x92722c85,
    0xa2bfe8a1, 0xa81a664b, 0xc24b8b70, 0xc76c51a3, 0xd192e819, 0xd6990624, 0xf40e3585, 0x106aa070,
    0x19a4c116, 0x1e376c08, 0x2748774c, 0x34b0bcb5, 0x391c0cb3, 0x4ed8aa4a, 0x5b9cca4f, 0x682e6ff3,
    0x748f82ee, 0x78a5636f, 0x84c87814, 0x8cc70208, 0x90befffa, 0xa4506ceb, 0xbef9a3f7, 0xc67178f2]

/-- The data that is hashed. -/
def sha256Data (input : List UInt8) : List UInt8 :=
  let bitLen := UInt64.ofNat input.length * 8
  padZeros (input ++ [0x80]) ++ beBytes64 bitLen

/-- The word of a chunk that starts at a byte of it. -/
def chunkWord (chunk : List UInt8) (offset : ℕ) : UInt32 :=
  (chunk.getD offset 0).toUInt32 <<< 24 ||| (chunk.getD (offset + 1) 0).toUInt32 <<< 16 |||
    (chunk.getD (offset + 2) 0).toUInt32 <<< 8 ||| (chunk.getD (offset + 3) 0).toUInt32

/-- The array `words` after the first of the two loops that fill it. -/
def chunkWords (chunk : List UInt8) : List UInt32 :=
  (List.range' 0 16).foldl (fun words idx => words.set idx (chunkWord chunk (idx * 4)))
    (List.replicate 64 0)

/-- The word that the second loop makes of the words before it. -/
def nextWord (words : List UInt32) (idx : ℕ) : UInt32 :=
  let w15 := words.getD (idx - 15) 0
  let w2 := words.getD (idx - 2) 0
  let s0 := rotateRight w15 7 ^^^ rotateRight w15 18 ^^^ w15 >>> 3
  let s1 := rotateRight w2 17 ^^^ rotateRight w2 19 ^^^ w2 >>> 10
  words.getD (idx - 16) 0 + s0 + words.getD (idx - 7) 0 + s1

/-- The array `words` after both loops. -/
def words (chunk : List UInt8) : List UInt32 :=
  (List.range' 16 48).foldl (fun words idx => words.set idx (nextWord words idx)) (chunkWords chunk)

/-- One round of the third loop. -/
def sha256Round (words : List UInt32) (v : Sha256State) (idx : ℕ) : Sha256State :=
  let s1 := rotateRight v.e 6 ^^^ rotateRight v.e 11 ^^^ rotateRight v.e 25
  let ch := (v.e &&& v.f) ^^^ (~~~v.e &&& v.g)
  let temp1 := v.h + s1 + ch + k.getD idx 0 + words.getD idx 0
  let s0 := rotateRight v.a 2 ^^^ rotateRight v.a 13 ^^^ rotateRight v.a 22
  let maj := (v.a &&& v.b) ^^^ (v.a &&& v.c) ^^^ (v.b &&& v.c)
  let temp2 := s0 + maj
  ⟨temp1 + temp2, v.a, v.b, v.c, v.d + temp1, v.e, v.f, v.g⟩

/-- The state after a chunk. -/
def sha256Chunk (state : Sha256State) (chunk : List UInt8) : Sha256State :=
  let v := (List.range 64).foldl (sha256Round (words chunk)) state
  ⟨state.a + v.a, state.b + v.b, state.c + v.c, state.d + v.d, state.e + v.e, state.f + v.f,
    state.g + v.g, state.h + v.h⟩

/-- `sha256`. -/
def sha256 (input : List UInt8) : List UInt8 :=
  let state := (chunks 64 (sha256Data input)).foldl sha256Chunk h0
  [state.a, state.b, state.c, state.d, state.e, state.f, state.g, state.h].flatMap beBytes32

/-! ## Both functions are the same -/

theorem sha256Data_eq (input : List UInt8) : sha256Data input = sha256Message input := by
  simp [sha256Data, Router.padZeros_eq, sha256Message]

/-- A loop over an array that fills it, one place after the other. -/
theorem foldl_set (f : List UInt32 → ℕ → UInt32) (w : ℕ → UInt32) {start stop : ℕ}
    (hf : ∀ words i, start ≤ i → i < stop → (∀ t < i, words.getD t 0 = w t) → f words i = w i) (n : ℕ)
    (hn : start + n ≤ stop) {words : List UInt32} (hlength : stop ≤ words.length)
    (h : ∀ t < start, words.getD t 0 = w t) :
    ((List.range' start n).foldl (fun words i => words.set i (f words i)) words).length = words.length ∧
      ∀ t < start + n,
        ((List.range' start n).foldl (fun words i => words.set i (f words i)) words).getD t 0 = w t := by
  induction n with
  | zero => exact ⟨rfl, h⟩
  | succ n ih =>
    obtain ⟨hkept, hfilled⟩ := ih (by omega)
    rw [List.range'_concat, List.foldl_append, Nat.one_mul, List.foldl_cons, List.foldl_nil]
    generalize (List.range' start n).foldl (fun words i => words.set i (f words i)) words = words' at *
    refine ⟨by rw [List.length_set, hkept], fun t ht => ?_⟩
    have hin : start + n < words'.length := by omega
    by_cases heq : t = start + n
    · subst heq
      rw [hf words' _ (Nat.le_add_right _ _) (by omega) hfilled]
      simp [List.getD_eq_getElem?_getD, hin]
    · have hne : start + n ≠ t := fun h => heq h.symm
      rw [List.getD_eq_getElem?_getD, List.getElem?_set_ne hne, ← List.getD_eq_getElem?_getD]
      exact hfilled t (by omega)

theorem getD_beWords (i : ℕ) {chunk : List UInt8} (h : 4 * i + 4 ≤ chunk.length) :
    (Router.beWords chunk).getD i 0 = chunkWord chunk (i * 4) := by
  induction i generalizing chunk with
  | zero =>
    match chunk, h with
    | b₀ :: b₁ :: b₂ :: b₃ :: rest, _ => rfl
  | succ i ih =>
    match chunk, h with
    | b₀ :: b₁ :: b₂ :: b₃ :: rest, h =>
      have hrest : 4 * i + 4 ≤ rest.length := by
        simp only [List.length_cons] at h
        omega
      rw [Router.beWords, List.getD_cons_succ, ih hrest, Nat.succ_mul]
      rfl

theorem chunkWord_eq {chunk : List UInt8} (h : chunk.length = 64) {i : ℕ} (hi : i < 16) :
    chunkWord chunk (i * 4) = scheduleWord chunk i := by
  rw [← getD_beWords i (by omega), Router.beWords_eq h, List.getD_eq_getElem _ _ (by simpa using hi)]
  simp

theorem nextWord_eq {chunk : List UInt8} {words : List UInt32} {i : ℕ} (hi : 16 ≤ i)
    (hwords : ∀ t < i, words.getD t 0 = scheduleWord chunk t) :
    nextWord words i = scheduleWord chunk i := by
  obtain ⟨t, rfl⟩ := Nat.exists_eq_add_of_le hi
  have h14 : 16 + t - 2 = t + 14 := by omega
  have h9 : 16 + t - 7 = t + 9 := by omega
  have h1 : 16 + t - 15 = t + 1 := by omega
  simp only [nextWord, h14, h9, h1, Nat.add_sub_cancel_left]
  rw [hwords t (by omega), hwords (t + 1) (by omega), hwords (t + 9) (by omega),
    hwords (t + 14) (by omega), Router.scheduleWord_next]

/-- **The two loops fill the array with the schedule.** -/
theorem words_eq {chunk : List UInt8} (h : chunk.length = 64) :
    words chunk = (List.range 64).map (scheduleWord chunk) := by
  obtain ⟨hlength, hfirst⟩ := foldl_set (fun _ i => chunkWord chunk (i * 4)) (scheduleWord chunk)
    (fun _ i _ hi _ => chunkWord_eq h hi) 16 (Nat.le_refl (0 + 16))
    (by simp : 0 + 16 ≤ (List.replicate 64 (0 : UInt32)).length) (by simp)
  obtain ⟨hlength', hall⟩ := foldl_set nextWord (scheduleWord chunk)
    (fun _ _ hi _ hwords => nextWord_eq hi hwords) 48 (Nat.le_refl (16 + 48))
    (by rw [hlength, List.length_replicate]) hfirst
  have hwords : (words chunk).length = 64 := hlength'.trans hlength
  refine List.ext_getElem (by rw [List.length_map, List.length_range, hwords]) fun t ht _ => ?_
  rw [List.getElem_map, List.getElem_range]
  exact (List.getD_eq_getElem _ _ ht).symm.trans (hall t (Nat.lt_of_lt_of_eq ht hwords))

theorem k_eq : k = Router.sha256K := by decide

theorem sha256Chunk_eq (state : Sha256State) {chunk : List UInt8} (h : chunk.length = 64) :
    sha256Chunk state chunk = Router.sha256Chunk state chunk := by
  have hget : ∀ (f : ℕ → UInt32) {t : ℕ}, t ∈ List.range 64 →
      ((List.range 64).map f).getD t 0 = f t := by
    intro f t ht
    rw [List.getD_eq_getElem _ _ (by simpa using ht)]
    simp
  have hrounds : (List.range 64).foldl (sha256Round (words chunk)) state =
      (Router.sha256K.zip (Router.sha256Schedule chunk).reverse).foldl Router.sha256Round state := by
    rw [Router.sha256Schedule_eq h, words_eq h, Router.sha256K_eq, List.zip_map', List.foldl_map]
    refine List.foldl_ext _ _ _ fun v t ht => ?_
    rw [sha256Round, k_eq, Router.sha256K_eq, hget _ ht, hget _ ht]
    rfl
  rw [sha256Chunk, Router.sha256Chunk, hrounds]

/-- **The two functions give the same digests.** -/
theorem sha256_eq (input : List UInt8) : sha256 input = Router.sha256 input := by
  obtain ⟨n, hn⟩ := Router.length_sha256Message input
  have hstate : (chunks 64 (sha256Message input)).foldl sha256Chunk h0 =
      (chunks 64 (sha256Message input)).foldl Router.sha256Chunk Router.sha256H0 := by
    refine List.foldl_ext _ _ _ fun state chunk hchunk => sha256Chunk_eq state ?_
    exact Router.length_of_mem_chunks hn hchunk
  rw [sha256, sha256Data_eq, hstate, Router.sha256]

/-- `sha256_hex`. -/
theorem sha256Hex_eq (input : List UInt8) :
    sha256Hex input = String.ofList ((sha256 input).flatMap Router.hexByteLower) := by
  rw [sha256Hex, sha256_eq]

/-- **Both hand-written functions are SHA-256**, for every input that has a digest in the standard. -/
theorem sha256_standard (input : List UInt8) (h : input.length < 2 ^ 61) :
    bits (Router.sha256 input) = Lib.Sha256.digest (bits input) ∧
      bits (sha256 input) = Lib.Sha256.digest (bits input) ∧
      Router.sha256 input = sha256 input := by
  rw [sha256_eq]
  exact ⟨Router.bits_sha256 h, Router.bits_sha256 h, rfl⟩

/-- The digest of `abc`. -/
theorem sha256_standard_abc :
    Lib.Sha256.digest (bits [0x61, 0x62, 0x63]) =
      bits [0xba, 0x78, 0x16, 0xbf, 0x8f, 0x01, 0xcf, 0xea, 0x41, 0x41, 0x40, 0xde, 0x5d, 0xae, 0x22,
        0x23, 0xb0, 0x03, 0x61, 0xa3, 0x96, 0x17, 0x7a, 0x9c, 0xb4, 0x10, 0xff, 0x61, 0xf2, 0x00, 0x15,
        0xad] := by
  rw [← (sha256_standard [0x61, 0x62, 0x63] (by decide)).1]
  exact congrArg bits (by decide +kernel)

end Fkst.Manifest
