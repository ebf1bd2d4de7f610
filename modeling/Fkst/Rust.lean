import Mathlib.Data.List.DropRight
import Mathlib.Tactic.Common
import Fkst.Lib.Lines
import Fkst.Lib.Text
import Fkst.Lib.Utf8

/-!
# The pieces of the Rust standard library the engine leans on

Times, counters and generations of the engine are `u64`, and all of its arithmetic on them is
saturating or checked; `UInt64` with `saturatingAdd` and `checkedSub` is that.  `Duration` is the
standard library's pair of seconds and nanoseconds, read in milliseconds wherever the engine reads
it.  A `&str` is a `String`; where the source walks its bytes, `strBytes` gives them.
-/

set_option autoImplicit false

namespace Fkst

/-- `u64::MAX`. -/
def u64Max : UInt64 := 18446744073709551615

/-- `usize::MAX` on the 64-bit targets the engine is built for. -/
def usizeMax : ℕ := 2 ^ 64 - 1

/-- `u64::saturating_sub`. -/
def saturatingSub (a b : UInt64) : UInt64 := if b ≤ a then a - b else 0

/-- `u64::saturating_add`. -/
def saturatingAdd (a b : UInt64) : UInt64 :=
  if a.toNat + b.toNat < 2 ^ 64 then a + b else u64Max

theorem toNat_saturatingAdd (a b : UInt64) :
    (saturatingAdd a b).toNat = min (a.toNat + b.toNat) (2 ^ 64 - 1) := by
  rw [saturatingAdd]
  split
  · rw [UInt64.toNat_add, Nat.mod_eq_of_lt (by assumption)]
    omega
  · rw [Nat.min_eq_right (by omega)]
    rfl

/-- Below saturation the successor is strictly larger than everything it was at least as large
as. -/
theorem lt_saturatingAdd_one {g h : UInt64} (hle : g ≤ h) (hg : g < u64Max) :
    g < saturatingAdd h 1 := by
  rw [UInt64.lt_iff_toNat_lt, toNat_saturatingAdd]
  have h1 := UInt64.le_iff_toNat_le.1 hle
  have h2 := UInt64.lt_iff_toNat_lt.1 hg
  have h3 : u64Max.toNat = 2 ^ 64 - 1 := rfl
  have h4 : (1 : UInt64).toNat = 1 := rfl
  omega

theorem le_saturatingAdd (g h : UInt64) : g ≤ saturatingAdd g h := by
  rw [UInt64.le_iff_toNat_le, toNat_saturatingAdd]
  have := g.toNat_lt
  omega

theorem saturatingAdd_mono {a a' b b' : UInt64} (ha : a ≤ a') (hb : b ≤ b') :
    saturatingAdd a b ≤ saturatingAdd a' b' := by
  rw [UInt64.le_iff_toNat_le, toNat_saturatingAdd, toNat_saturatingAdd]
  rw [UInt64.le_iff_toNat_le] at ha hb
  omega

/-- `u64::checked_sub`. -/
def checkedSub (a b : UInt64) : Option UInt64 := if b ≤ a then some (a - b) else none

/-- `usize::saturating_mul`. -/
def usizeSaturatingMul (a b : ℕ) : ℕ := min (a * b) usizeMax

/-- `usize::saturating_add`. -/
def usizeSaturatingAdd (a b : ℕ) : ℕ := min (a + b) usizeMax

theorem toNat_of_isUpper {c : Char} (h : c.isUpper = true) : 65 ≤ c.toNat ∧ c.toNat ≤ 90 := of_decide_eq_true h

theorem toNat_of_isLower {c : Char} (h : c.isLower = true) : 97 ≤ c.toNat ∧ c.toNat ≤ 122 := by
  have h : (decide (97 ≤ c.val) && decide (c.val ≤ 122)) = true := h
  rw [Bool.and_eq_true] at h
  exact ⟨UInt32.le_iff_toNat_le.1 (of_decide_eq_true h.1), UInt32.le_iff_toNat_le.1 (of_decide_eq_true h.2)⟩

theorem toNat_of_isDigit {c : Char} (h : c.isDigit = true) : 48 ≤ c.toNat ∧ c.toNat ≤ 57 := by
  have h : (decide (48 ≤ c.val) && decide (c.val ≤ 57)) = true := h
  rw [Bool.and_eq_true] at h
  exact ⟨UInt32.le_iff_toNat_le.1 (of_decide_eq_true h.1), UInt32.le_iff_toNat_le.1 (of_decide_eq_true h.2)⟩

theorem toNat_of_isAlphanum {c : Char} (h : c.isAlphanum = true) :
    (65 ≤ c.toNat ∧ c.toNat ≤ 90) ∨ (97 ≤ c.toNat ∧ c.toNat ≤ 122) ∨ (48 ≤ c.toNat ∧ c.toNat ≤ 57) := by
  have h : ((c.isUpper || c.isLower) || c.isDigit) = true := h
  simp only [Bool.or_eq_true] at h
  rcases h with (h | h) | h
  · exact Or.inl (toNat_of_isUpper h)
  · exact Or.inr (Or.inl (toNat_of_isLower h))
  · exact Or.inr (Or.inr (toNat_of_isDigit h))

instance neZero_nanosPerSec : NeZero 1000000000 := ⟨by decide⟩

/-- `std::time::Duration`. -/
structure Duration where
  /-- Whole seconds. -/
  secs : UInt64
  /-- The rest, in nanoseconds. -/
  nanos : Fin 1000000000
deriving DecidableEq

/-- `Duration::as_millis`, a `u128` that cannot overflow. -/
def Duration.asMillis (d : Duration) : ℕ := d.secs.toNat * 1000 + d.nanos.val / 1000000

/-- `Duration::from_millis`. -/
def Duration.fromMillis (n : UInt64) : Duration where
  secs := n / 1000
  nanos := Fin.ofNat 1000000000 (n.toNat % 1000 * 1000000)

/-- `Duration::ZERO`. -/
def Duration.zero : Duration := ⟨0, 0⟩

/-- A duration in nanoseconds. -/
def Duration.asNanos (d : Duration) : ℕ := d.secs.toNat * 1000000000 + d.nanos.val

/-- `Duration::from_secs`. -/
def Duration.fromSecs (n : UInt64) : Duration := ⟨n, 0⟩

/-- `Duration::saturating_add`. -/
def Duration.saturatingAdd (a b : Duration) : Duration :=
  let nanos := a.nanos.val + b.nanos.val
  let secs := a.secs.toNat + b.secs.toNat + nanos / 1000000000
  if secs < 2 ^ 64 then ⟨UInt64.ofNat secs, Fin.ofNat 1000000000 nanos⟩ else ⟨u64Max, 999999999⟩

/-- `Duration / 2`: half of the seconds, and what is left of them goes to the nanoseconds. -/
def Duration.half (d : Duration) : Duration :=
  ⟨d.secs / 2, Fin.ofNat 1000000000 ((d.secs.toNat % 2 * 1000000000 + d.nanos.val) / 2)⟩

/-- `Duration::max`. -/
def Duration.max (a b : Duration) : Duration := if a.asNanos ≤ b.asNanos then b else a

/-- The clamp of a `u128` to `u64` that the source writes as `.min(u64::MAX as u128) as u64`. -/
def clampU64 (n : ℕ) : UInt64 := UInt64.ofNat (min n (2 ^ 64 - 1))

theorem toNat_clampU64 (n : ℕ) : (clampU64 n).toNat = min n (2 ^ 64 - 1) := by
  rw [clampU64, UInt64.toNat_ofNat']
  omega

theorem clampU64_mono {n m : ℕ} (h : n ≤ m) : clampU64 n ≤ clampU64 m := by
  rw [UInt64.le_iff_toNat_le, toNat_clampU64, toNat_clampU64]
  omega

/-- `duration_millis`: a duration in milliseconds, clamped to `u64`. -/
def durationMillis (d : Duration) : UInt64 := clampU64 d.asMillis

theorem toNat_durationMillis (d : Duration) :
    (durationMillis d).toNat = min d.asMillis (2 ^ 64 - 1) := by
  rw [durationMillis, toNat_clampU64]

@[simp] theorem durationMillis_fromMillis (n : UInt64) : durationMillis (Duration.fromMillis n) = n := by
  rw [← UInt64.toNat_inj, toNat_durationMillis]
  have hn := n.toNat_lt
  simp only [Duration.fromMillis, Duration.asMillis, Fin.val_ofNat, UInt64.toNat_div, UInt64.reduceToNat]
  omega

theorem Duration.asMillis_eq (d : Duration) : d.asMillis = d.asNanos / 1000000 := by
  rw [Duration.asMillis, Duration.asNanos]
  omega

theorem Duration.asNanos_fromSecs (n : UInt64) :
    (Duration.fromSecs n).asNanos = n.toNat * 1000000000 := by
  simp [Duration.fromSecs, Duration.asNanos]

/-- Below saturation, durations add up. -/
theorem Duration.asNanos_saturatingAdd {a b : Duration}
    (h : a.asNanos + b.asNanos < 2 ^ 64 * 1000000000) :
    (a.saturatingAdd b).asNanos = a.asNanos + b.asNanos := by
  rw [Duration.asNanos, Duration.asNanos] at h ⊢
  have hsecs : a.secs.toNat + b.secs.toNat + (a.nanos.val + b.nanos.val) / 1000000000 < 2 ^ 64 := by
    omega
  simp only [Duration.saturatingAdd, if_pos hsecs, Duration.asNanos, Fin.val_ofNat,
    UInt64.toNat_ofNat_of_lt' hsecs]
  omega

theorem Duration.asNanos_half (d : Duration) : d.half.asNanos = d.asNanos / 2 := by
  have hnanos := d.nanos.isLt
  simp only [Duration.half, Duration.asNanos, Fin.val_ofNat, UInt64.toNat_div, UInt64.reduceToNat]
  omega

theorem Duration.asNanos_max (a b : Duration) : (a.max b).asNanos = Max.max a.asNanos b.asNanos := by
  rw [Duration.max]
  split <;> omega

/-- `str::bytes`. -/
def strBytes (s : String) : List UInt8 := s.toByteArray.data.toList

theorem strBytes_injective {s t : String} (h : strBytes s = strBytes t) : s = t := by
  rw [strBytes, strBytes, Array.toList_inj] at h
  exact String.toByteArray_inj.1 (ByteArray.ext h)

theorem strBytes_eq (s : String) : strBytes s = Lib.Utf8.encode s.toList := by
  rw [strBytes, ← String.utf8Encode_toList, List.utf8Encode, Lib.Utf8.encode, List.data_toByteArray]

/-- `char::is_whitespace`. -/
def isWhitespace (c : Char) : Bool :=
  (0x9 ≤ c.toNat && c.toNat ≤ 0xD) || (0x2000 ≤ c.toNat && c.toNat ≤ 0x200A) ||
    [0x20, 0x85, 0xA0, 0x1680, 0x2028, 0x2029, 0x202F, 0x205F, 0x3000].contains c.toNat

/-- `str::trim_start`. -/
def trimStart (text : List Char) : List Char := text.dropWhile isWhitespace

/-- `str::trim`. -/
def trim (text : List Char) : List Char := (trimStart text).rdropWhile isWhitespace

/-- Drop a last element. -/
def stripLast {α : Type} [DecidableEq α] (a : α) (l : List α) : List α :=
  if l.getLast? = some a then l.dropLast else l

/-- `str::lines`. -/
def strLines (text : List Char) : List (List Char) :=
  match Lib.Lines.cut '\n' text with
  | (lines, rest) => lines.map (stripLast '\r') ++ if rest.isEmpty then [] else [rest]

/-- `str::parse::<u64>`: an optional sign, then decimal digits whose value fits. -/
def parseU64 (cs : List Char) : Option UInt64 :=
  let body := match cs with
    | '+' :: rest => rest
    | _ => cs
  match body with
  | [] => none
  | _ => (Lib.Text.readDec 0 body).bind fun n => if n < 2 ^ 64 then some (UInt64.ofNat n) else none

/-- `str::parse::<u32>`. -/
def parseU32 (cs : List Char) : Option ℕ :=
  (parseU64 cs).bind fun n => if n.toNat < 2 ^ 32 then some n.toNat else none

/-- `str::parse::<u128>`. -/
def parseU128 (cs : List Char) : Option ℕ :=
  let body := match cs with
    | '+' :: rest => rest
    | _ => cs
  match body with
  | [] => none
  | _ => (Lib.Text.readDec 0 body).bind fun n => if n < 2 ^ 128 then some n else none

theorem repr_cases (n : ℕ) : (∀ rest, n.repr.toList ≠ '+' :: rest) ∧ n.repr.toList ≠ [] := by
  refine ⟨fun rest h => ?_, by simp⟩
  have hplus : '+' ∈ n.repr.toList := by simp [h]
  rw [Nat.toList_repr] at hplus
  exact absurd (Nat.isDigit_of_mem_toDigits (by decide) (by decide) hplus) (by decide)

/-- A number that was printed is read back. -/
theorem parseU64_repr (n : UInt64) : parseU64 n.toNat.repr.toList = some n := by
  obtain ⟨hplus, hne⟩ := repr_cases n.toNat
  rw [parseU64]
  · rw [Lib.Text.readDec_repr, Option.bind_some, if_pos n.toNat_lt, UInt64.ofNat_toNat]
  · exact hplus
  · exact hne

theorem parseU128_repr {n : ℕ} (hn : n < 2 ^ 128) : parseU128 n.repr.toList = some n := by
  obtain ⟨hplus, hne⟩ := repr_cases n
  rw [parseU128]
  · rw [Lib.Text.readDec_repr, Option.bind_some, if_pos hn]
  · exact hplus
  · exact hne

/-- `str::parse` of a signed integer of so many bits. -/
def parseSigned (bits : ℕ) (cs : List Char) : Option ℤ :=
  let (negative, body) := match cs with
    | '-' :: rest => (true, rest)
    | '+' :: rest => (false, rest)
    | _ => (false, cs)
  match body with
  | [] => none
  | _ => (Lib.Text.readDec 0 body).bind fun n =>
    let value : ℤ := if negative then -n else n
    if -2 ^ (bits - 1) ≤ value ∧ value < 2 ^ (bits - 1) then some value else none

theorem parseSigned_toString {bits : ℕ} {n : ℤ} (hlo : -2 ^ (bits - 1) ≤ n)
    (hhi : n < 2 ^ (bits - 1)) : parseSigned bits (toString n).toList = some n := by
  cases n with
  | ofNat n =>
    obtain ⟨hplus, hne⟩ := repr_cases n
    have hminus : ∀ rest, n.repr.toList ≠ '-' :: rest := by
      intro rest h
      have hmem : '-' ∈ n.repr.toList := by simp [h]
      rw [Nat.toList_repr] at hmem
      exact absurd (Nat.isDigit_of_mem_toDigits (by decide) (by decide) hmem) (by decide)
    show parseSigned bits n.repr.toList = _
    rw [parseSigned]
    · rw [Lib.Text.readDec_repr, Option.bind_some]
      exact if_pos ⟨hlo, hhi⟩
    · exact hminus
    · exact hplus
    · exact hne
  | negSucc n =>
    have hne := (repr_cases (n + 1)).2
    have htext : (toString (Int.negSucc n)).toList = '-' :: (n + 1).repr.toList := by
      show ("-" ++ (n + 1).repr).toList = _
      simp
    rw [htext, parseSigned]
    · rw [Lib.Text.readDec_repr, Option.bind_some]
      exact if_pos ⟨hlo, hhi⟩
    · exact hne

/-! ## Trimming -/

section Trim

variable {text front back : List Char}

theorem trimStart_suffix (text : List Char) : trimStart text <:+ text := List.dropWhile_suffix _

theorem infix_of_trim (text : List Char) : trim text <:+: text :=
  (List.rdropWhile_prefix _ _).isInfix.trans (trimStart_suffix text).isInfix

theorem trimStart_append_of_all (h : ∀ c ∈ front, isWhitespace c = true) :
    trimStart (front ++ back) = trimStart back := by
  induction front with
  | nil => rfl
  | cons c front ih =>
    rw [List.cons_append, trimStart, List.dropWhile_cons_of_pos (h c List.mem_cons_self)]
    exact ih fun d hd => h d (List.mem_cons_of_mem _ hd)

theorem trimStart_append_of_ne_nil (h : trimStart front ≠ []) :
    trimStart (front ++ back) = trimStart front ++ back := by
  induction front with
  | nil => exact absurd rfl h
  | cons c front ih =>
    rw [List.cons_append, trimStart, trimStart] at *
    by_cases hc : isWhitespace c = true
    · rw [List.dropWhile_cons_of_pos hc] at h ⊢
      rw [List.dropWhile_cons_of_pos hc]
      exact ih h
    · rw [List.dropWhile_cons_of_neg hc, List.dropWhile_cons_of_neg hc]
      rfl

theorem all_of_trimStart_eq_nil (h : trimStart text = []) : ∀ c ∈ text, isWhitespace c = true :=
  List.dropWhile_eq_nil_iff.1 h

theorem trimStart_of_head {c : Char} (h : isWhitespace c = false) :
    trimStart (c :: text) = c :: text :=
  List.dropWhile_cons_of_neg (by simp [h])

/-- What ends in no white space is trimmed at its start only. -/
theorem trim_of_last (front : List Char) {c : Char} (h : isWhitespace c = false) :
    trim (front ++ [c]) = trimStart (front ++ [c]) := by
  obtain ⟨rest, hrest⟩ : ∃ rest, trimStart (front ++ [c]) = rest ++ [c] := by
    by_cases hfront : trimStart front = []
    · rw [trimStart_append_of_all (all_of_trimStart_eq_nil hfront), trimStart_of_head h]
      exact ⟨[], rfl⟩
    · exact ⟨_, trimStart_append_of_ne_nil hfront⟩
  rw [trim, hrest, List.rdropWhile_concat_neg _ _ _ (by simp [h])]

theorem trim_of_graphic (h : ∀ c ∈ text, isWhitespace c = false) : trim text = text := by
  rcases text.eq_nil_or_concat with rfl | ⟨front, c, htext⟩
  · rfl
  · rw [List.concat_eq_append] at htext
    subst htext
    rw [trim_of_last front (h c (by simp))]
    cases front with
    | nil => exact trimStart_of_head (h c (by simp))
    | cons d front => exact trimStart_of_head (h d (by simp))

end Trim

/-! ## Numbers in keys -/

/-- `{n:020}` of a `u64`: twenty decimal digits. -/
def padded20 (n : UInt64) : List Char := Lib.Text.digits Nat.digitChar 10 20 n.toNat

theorem toNat_lt_pow20 (n : UInt64) : n.toNat < 10 ^ 20 := by
  have := n.toNat_lt
  omega

theorem padded20_injective {n m : UInt64} (h : padded20 n = padded20 m) : n = m :=
  UInt64.toNat_inj.1 (Lib.Text.digits_injOn (by decide) Lib.Text.digitChar_inj_ten
    (toNat_lt_pow20 n) (toNat_lt_pow20 m) h)

theorem padded20_append_lt_iff {n m : UInt64} {x y : List Char} :
    padded20 n ++ x < padded20 m ++ y ↔ n < m ∨ n = m ∧ x < y := by
  rw [padded20, padded20, Lib.Text.digits_append_lt_iff (by decide) Lib.Text.digitChar_lt_ten
    (toNat_lt_pow20 n) (toNat_lt_pow20 m), UInt64.lt_iff_toNat_lt, UInt64.toNat_inj]

theorem isDigit_of_mem_padded20 {n : UInt64} {c : Char} (h : c ∈ padded20 n) :
    c.isDigit = true := by
  obtain ⟨i, hi, rfl⟩ := Lib.Text.mem_digits (by decide) h
  clear h
  revert i
  decide

theorem sep_notMem_padded20 (n : UInt64) : '/' ∉ padded20 n := fun h =>
  absurd (isDigit_of_mem_padded20 h) (by decide)

/-- Twenty digits are read back as the number they were written from. -/
theorem parseU64_padded20 (n : UInt64) : parseU64 (padded20 n) = some n := by
  have hread : Lib.Text.readDec 0 (padded20 n) = some n.toNat := by
    rw [padded20, Lib.Text.readDec_digits, Nat.mod_eq_of_lt (toNat_lt_pow20 n)]
    simp
  have hlen : (padded20 n).length = 20 := Lib.Text.length_digits _ _ _ _
  rw [parseU64, hread, Option.bind_some, if_pos n.toNat_lt, UInt64.ofNat_toNat]
  · intro rest hp
    exact absurd (isDigit_of_mem_padded20 (n := n) (c := '+') (by rw [hp]; simp)) (by decide)
  · intro hp
    rw [hp] at hlen
    simp at hlen

end Fkst
