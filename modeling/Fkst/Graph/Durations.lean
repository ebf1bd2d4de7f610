import Mathlib.Tactic.IntervalCases
import Fkst.Delivery.Types
import Fkst.Graph.Config
import Fkst.Lib.Checks

/-!
# Durations in declarations

A duration is written as a number and one of `s`, `m` and `h`, and three parts of the engine read it
on their own: the validator of `fkst_common` in milliseconds of 128 bits, `parse_duration` of the
supervisor in seconds of 64 bits, and the rule for stall windows, which looks at the last character
only.  `parse_duration` cuts off the last byte, which panics if that is not a character, and it
multiplies without a check.

`parseDuration_of_millis` says how the two readers of numbers go together.
-/

set_option autoImplicit false

namespace Fkst.Graph

open Lib.Checks (bind_eq_ok bailIf bailIf_eq_ok)
open Delivery (RetryPolicy)

/-! ## Readers -/

/-- The seconds that a unit stands for. -/
def unitSeconds (unit : Char) : Option ℕ :=
  match unit with
  | 's' => some 1
  | 'm' => some 60
  | 'h' => some 3600
  | _ => none

/-- `u128::saturating_mul`. -/
def u128SaturatingMul (a b : ℕ) : ℕ := min (a * b) (2 ^ 128 - 1)

/-- `parse_duration_millis`. -/
def parseDurationMillis (raw : String) : Option ℕ := do
  let unit ← raw.toList.getLast?
  let value ← parseU128 raw.toList.dropLast
  if value = 0 then none
  else
    let seconds ← unitSeconds unit
    return u128SaturatingMul value (seconds * 1000)

/-- Why `parse_duration` gives no duration. -/
inductive DurationError where
  | message (text : String)
  | panicked
deriving DecidableEq

/-- A product of `u64`s that is not checked in the source: where the build checks for overflow it
panics, and else it wraps around. -/
def mulU64 (overflowChecks : Bool) (a b : UInt64) : Except DurationError UInt64 :=
  if overflowChecks ∧ 2 ^ 64 ≤ a.toNat * b.toNat then .error .panicked else .ok (a * b)

/-- What `parse_duration` makes of a number and a unit. -/
def secondsOf (overflowChecks : Bool) (n : UInt64) (unit : Char) : Except DurationError UInt64 :=
  match unit with
  | 's' => .ok n
  | 'm' => mulU64 overflowChecks n 60
  | 'h' => mulU64 overflowChecks n 3600
  | _ => .error (.message ("unit must be s/m/h, got '" ++ unit.toString ++ "'"))

/-- `parse_duration`.  The text is cut before its last byte. -/
def parseDuration (overflowChecks : Bool) (s : String) : Except DurationError Duration :=
  let text := trim s.toList
  match text.getLast? with
  | none => .error (.message "empty duration")
  | some unit =>
    if unit.utf8Size ≠ 1 then .error .panicked
    else
      match parseU64 text.dropLast with
      | none => .error (.message ("not a number: '" ++ String.ofList text.dropLast ++ "'"))
      | some n => (secondsOf overflowChecks n unit).map Duration.fromSecs

/-- `policy_from_decl`. -/
def policyFromDecl (overflowChecks : Bool) (decl : RetryDecl) : Except DurationError RetryPolicy := do
  let base ← parseDuration overflowChecks decl.base
  let cap ← parseDuration overflowChecks decl.cap
  return ⟨decl.maxAttempts, base, cap⟩

/-! ## The validator -/

/-- `validate_retry_decl`. -/
def validateRetryDecl (name : String) (retry : RetryDecl) : Except String Unit := do
  bailIf (retry.maxAttempts = 0) ("department '" ++ name ++ "' retry.max_attempts must be > 0")
  match parseDurationMillis retry.base with
  | none => throw ("department '" ++ name ++ "' retry.base '" ++ retry.base ++
      "' must be a positive s/m/h duration")
  | some base =>
    match parseDurationMillis retry.cap with
    | none => throw ("department '" ++ name ++ "' retry.cap '" ++ retry.cap ++
        "' must be a positive s/m/h duration")
    | some cap => bailIf (cap < base) ("department '" ++ name ++ "' retry.cap '" ++ retry.cap ++
        "' must be >= retry.base '" ++ retry.base ++ "'")

/-! ## What the readers agree on -/

section Readers

variable {raw : String} {overflowChecks : Bool}

/-- What `parse_duration_millis` reads. -/
theorem parseDurationMillis_eq_some {millis : ℕ} (h : parseDurationMillis raw = some millis) :
    ∃ digits unit n seconds, raw.toList = digits ++ [unit] ∧ parseU128 digits = some n ∧ 0 < n ∧
      unitSeconds unit = some seconds ∧ millis = u128SaturatingMul n (seconds * 1000) := by
  obtain ⟨unit, hunit, h⟩ := Option.bind_eq_some_iff.1 h
  obtain ⟨n, hn, h⟩ := Option.bind_eq_some_iff.1 h
  split at h
  · cases h
  · rename_i hzero
    obtain ⟨seconds, hseconds, h⟩ := Option.bind_eq_some_iff.1 h
    refine ⟨raw.toList.dropLast, unit, n, seconds, ?_, hn, Nat.pos_of_ne_zero hzero, hseconds,
      (Option.some.inj h).symm⟩
    rw [List.dropLast_append_getLast? unit hunit]

theorem isWhitespace_of_decValue {c : Char} {v : ℕ} (h : Lib.Text.decValue c = some v) :
    isWhitespace c = false := by
  rw [Lib.Text.decValue] at h
  split at h
  · rename_i hdigit
    obtain ⟨hlo, hhi⟩ : 48 ≤ c.toNat ∧ c.toNat ≤ 57 := hdigit
    rw [isWhitespace]
    generalize c.toNat = n at hlo hhi
    interval_cases n <;> rfl
  · cases h

/-- The digits of a number are no white space. -/
theorem isWhitespace_of_readDec : ∀ {digits : List Char} {acc n : ℕ},
    Lib.Text.readDec acc digits = some n → ∀ c ∈ digits, isWhitespace c = false
  | [], _, _, _ => by simp
  | c :: digits, acc, n, h => by
    obtain ⟨v, hv, hrest⟩ := Option.bind_eq_some_iff.1 h
    rw [List.forall_mem_cons]
    exact ⟨isWhitespace_of_decValue hv, isWhitespace_of_readDec hrest⟩

/-- Where 128 bits are enough, 64 bits are, or the number does not fit; and it has no white space. -/
theorem parseU128_eq_some {digits : List Char} {n : ℕ} (h : parseU128 digits = some n) :
    (∀ c ∈ digits, isWhitespace c = false) ∧
      parseU64 digits = if n < 2 ^ 64 then some (UInt64.ofNat n) else none := by
  have hbody : ∀ {body : List Char},
      ((Lib.Text.readDec 0 body).bind fun n => if n < 2 ^ 128 then some n else none) = some n →
      Lib.Text.readDec 0 body = some n := by
    intro body hread
    obtain ⟨m, hm, hfits⟩ := Option.bind_eq_some_iff.1 hread
    split at hfits
    · rwa [← Option.some.inj hfits]
    · cases hfits
  by_cases hplus : ∃ rest, digits = '+' :: rest
  · obtain ⟨rest, rfl⟩ := hplus
    cases rest with
    | nil => cases h
    | cons c rest =>
      have hread : Lib.Text.readDec 0 (c :: rest) = some n := hbody h
      refine ⟨List.forall_mem_cons.2 ⟨by decide, isWhitespace_of_readDec hread⟩, ?_⟩
      show ((Lib.Text.readDec 0 (c :: rest)).bind _) = _
      rw [hread]
      rfl
  · have hplus : ∀ rest, digits ≠ '+' :: rest := fun rest hrest => hplus ⟨rest, hrest⟩
    have hne : digits ≠ [] := by
      rintro rfl
      cases h
    rw [parseU128] at h
    · have hread := hbody h
      rw [parseU64]
      · rw [hread]
        exact ⟨isWhitespace_of_readDec hread, rfl⟩
      · exact hplus
      · exact hne
    · exact hplus
    · exact hne

theorem unitSeconds_eq_some {unit : Char} {seconds : ℕ} (h : unitSeconds unit = some seconds) :
    (unit = 's' ∧ seconds = 1) ∨ (unit = 'm' ∧ seconds = 60) ∨ (unit = 'h' ∧ seconds = 3600) := by
  simp only [unitSeconds] at h
  split at h
  · exact Or.inl ⟨rfl, (Option.some.inj h).symm⟩
  · exact Or.inr (Or.inl ⟨rfl, (Option.some.inj h).symm⟩)
  · exact Or.inr (Or.inr ⟨rfl, (Option.some.inj h).symm⟩)
  · cases h

theorem unit_of_unitSeconds {unit : Char} {seconds : ℕ} (h : unitSeconds unit = some seconds) :
    unit.utf8Size = 1 ∧ isWhitespace unit = false ∧ 1 ≤ seconds := by
  rcases unitSeconds_eq_some h with ⟨rfl, rfl⟩ | ⟨rfl, rfl⟩ | ⟨rfl, rfl⟩ <;> decide

/-- A product that fits is that product in every build. -/
theorem mulU64_of_lt {a b : UInt64} (h : a.toNat * b.toNat < 2 ^ 64) :
    mulU64 overflowChecks a b = .ok (UInt64.ofNat (a.toNat * b.toNat)) := by
  rw [mulU64, if_neg fun hc => absurd hc.2 (Nat.not_le.2 h), UInt64.ofNat_mul, UInt64.ofNat_toNat,
    UInt64.ofNat_toNat]

/-- What `parse_duration` makes of a number and a unit that the validator knows, too. -/
theorem secondsOf_of_unitSeconds {unit : Char} {seconds : ℕ} (h : unitSeconds unit = some seconds)
    {n : UInt64} (hn : n.toNat * seconds < 2 ^ 64) :
    secondsOf overflowChecks n unit = .ok (UInt64.ofNat (n.toNat * seconds)) := by
  rcases unitSeconds_eq_some h with ⟨rfl, rfl⟩ | ⟨rfl, rfl⟩ | ⟨rfl, rfl⟩
  · rw [Nat.mul_one, UInt64.ofNat_toNat]
    rfl
  · exact mulU64_of_lt hn
  · exact mulU64_of_lt hn

theorem secondsOf_of_overflow {unit : Char} {seconds : ℕ} (h : unitSeconds unit = some seconds)
    {n : UInt64} (hn : 2 ^ 64 ≤ n.toNat * seconds) : secondsOf true n unit = .error .panicked := by
  rcases unitSeconds_eq_some h with ⟨rfl, rfl⟩ | ⟨rfl, rfl⟩ | ⟨rfl, rfl⟩
  · have := n.toNat_lt
    omega
  · exact if_pos ⟨rfl, hn⟩
  · exact if_pos ⟨rfl, hn⟩

/-- A duration that was read is of whole seconds. -/
theorem asMillis_of_parseDuration {d : Duration} (h : parseDuration overflowChecks raw = .ok d) :
    ∃ n : UInt64, d.asMillis = n.toNat * 1000 := by
  simp only [parseDuration] at h
  split at h
  · cases h
  · split at h
    · cases h
    · split at h
      · cases h
      · cases hseconds : secondsOf overflowChecks _ _ with
        | error e =>
          rw [hseconds] at h
          cases h
        | ok n =>
          rw [hseconds] at h
          obtain rfl := Except.ok.inj h
          exact ⟨n, by simp [Duration.fromSecs, Duration.asMillis]⟩

/-- There are no blanks around what the validator read. -/
theorem trim_of_parts {digits : List Char} {unit : Char} {n seconds : ℕ}
    (hraw : raw.toList = digits ++ [unit]) (hn : parseU128 digits = some n)
    (hunit : unitSeconds unit = some seconds) : trim raw.toList = digits ++ [unit] := by
  rw [hraw]
  refine trim_of_graphic fun c hc => ?_
  rcases List.mem_append.1 hc with hc | hc
  · exact (parseU128_eq_some hn).1 c hc
  · rw [List.mem_singleton.1 hc]
    exact (unit_of_unitSeconds hunit).2.1

/-- What `parse_duration` makes of what the validator read. -/
theorem parseDuration_of_parts {digits : List Char} {unit : Char} {n seconds : ℕ}
    (hraw : raw.toList = digits ++ [unit]) (hn : parseU128 digits = some n)
    (hunit : unitSeconds unit = some seconds) :
    parseDuration overflowChecks raw = if n < 2 ^ 64 then
      (secondsOf overflowChecks (UInt64.ofNat n) unit).map Duration.fromSecs
    else .error (.message ("not a number: '" ++ String.ofList digits ++ "'")) := by
  rw [parseDuration, trim_of_parts hraw hn hunit]
  simp only [List.getLast?_append, List.getLast?_singleton, Option.some_or, List.dropLast_concat,
    (unit_of_unitSeconds hunit).1, ne_eq, not_true_eq_false, if_false, (parseU128_eq_some hn).2]
  by_cases hn64 : n < 2 ^ 64
  · rw [if_pos hn64, if_pos hn64]
  · rw [if_neg hn64, if_neg hn64]

/-- **The two readers of numbers.**  What the validator computed is read by `parse_duration` if and
only if its seconds fit into 64 bits. -/
theorem parseDuration_of_millis {millis : ℕ} (h : parseDurationMillis raw = some millis) :
    (∃ d, parseDuration overflowChecks raw = .ok d ∧ d.asMillis = millis) ↔
      millis < 2 ^ 64 * 1000 := by
  constructor
  · rintro ⟨d, hd, rfl⟩
    obtain ⟨n, hn⟩ := asMillis_of_parseDuration hd
    have := n.toNat_lt
    omega
  · intro hmillis
    obtain ⟨digits, unit, n, seconds, hraw, hn, hpos, hunit, rfl⟩ := parseDurationMillis_eq_some h
    obtain ⟨_, _, hseconds⟩ := unit_of_unitSeconds hunit
    have hfits : n * seconds < 2 ^ 64 := by
      rw [u128SaturatingMul, ← Nat.mul_assoc] at hmillis
      omega
    have hn64 : n < 2 ^ 64 := (Nat.le_mul_of_pos_right n hseconds).trans_lt hfits
    have hnat : (UInt64.ofNat n).toNat = n := UInt64.toNat_ofNat_of_lt' hn64
    refine ⟨Duration.fromSecs (UInt64.ofNat (n * seconds)), ?_, ?_⟩
    · rw [parseDuration_of_parts hraw hn hunit, if_pos hn64,
        secondsOf_of_unitSeconds hunit (by rwa [hnat]), hnat]
      rfl
    · rw [u128SaturatingMul, ← Nat.mul_assoc] at hmillis ⊢
      simp only [Duration.fromSecs, Duration.asMillis, UInt64.toNat_ofNat_of_lt' hfits]
      omega

/-- Where the build checks for overflow, `parse_duration` reads nothing else. -/
theorem asMillis_of_checked {millis : ℕ} (h : parseDurationMillis raw = some millis) {d : Duration}
    (hd : parseDuration true raw = .ok d) : d.asMillis = millis := by
  by_cases hmillis : millis < 2 ^ 64 * 1000
  · obtain ⟨d', hd', hsame⟩ : ∃ d', parseDuration true raw = .ok d' ∧ d'.asMillis = millis :=
      (parseDuration_of_millis h).2 hmillis
    rwa [Except.ok.inj (hd.symm.trans hd')]
  · obtain ⟨digits, unit, n, seconds, hraw, hn, hpos, hunit, rfl⟩ := parseDurationMillis_eq_some h
    rw [parseDuration_of_parts hraw hn hunit] at hd
    split at hd
    · rename_i hn64
      have hlarge : 2 ^ 64 ≤ n * seconds := by
        rw [u128SaturatingMul, ← Nat.mul_assoc] at hmillis
        omega
      rw [secondsOf_of_overflow hunit (by rwa [UInt64.toNat_ofNat_of_lt' hn64])] at hd
      cases hd
    · cases hd

end Readers

/-- What the validator says of a declaration that it accepts. -/
theorem millis_of_validateRetryDecl {name : String} {decl : RetryDecl}
    (h : validateRetryDecl name decl = .ok ()) : ∃ base cap,
      parseDurationMillis decl.base = some base ∧ parseDurationMillis decl.cap = some cap ∧
        0 < decl.maxAttempts ∧ 0 < base ∧ base ≤ cap := by
  obtain ⟨⟨⟩, hattempts, h⟩ := bind_eq_ok.1 h
  split at h
  · cases h
  · rename_i base hbase
    split at h
    · cases h
    · rename_i cap hcap
      refine ⟨base, cap, hbase, hcap, ?_, ?_, Nat.not_lt.1 (bailIf_eq_ok.1 h)⟩
      · exact UInt64.pos_iff_ne_zero.2 (bailIf_eq_ok.1 hattempts)
      · obtain ⟨_, unit, n, seconds, _, _, hpos, hunit, rfl⟩ := parseDurationMillis_eq_some hbase
        obtain ⟨_, _, hseconds⟩ := unit_of_unitSeconds hunit
        rw [u128SaturatingMul]
        have := Nat.mul_pos hpos hseconds
        rw [← Nat.mul_assoc]
        omega

/-- A policy that was made of an accepted declaration, where the build checks for overflow. -/
theorem policy_of_accepted {name : String} {decl : RetryDecl} {policy : RetryPolicy}
    (h : validateRetryDecl name decl = .ok ()) (hpolicy : policyFromDecl true decl = .ok policy) :
    0 < policy.base.asMillis ∧ policy.base.asMillis ≤ policy.cap.asMillis := by
  obtain ⟨base, cap, hbase, hcap, _, hpos, hle⟩ := millis_of_validateRetryDecl h
  obtain ⟨b, hb, hpolicy⟩ := bind_eq_ok.1 hpolicy
  obtain ⟨c, hc, hpolicy⟩ := bind_eq_ok.1 hpolicy
  obtain rfl := Except.ok.inj hpolicy
  rw [asMillis_of_checked hbase hb, asMillis_of_checked hcap hc]
  exact ⟨hpos, hle⟩

end Fkst.Graph
