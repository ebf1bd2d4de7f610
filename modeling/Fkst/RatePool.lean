import Fkst.Lib.Bucket
import Fkst.Lib.Machine
import Fkst.Rust

/-!
# Rate pools

`rate_pool.rs`: a token bucket that processes share through a file.  A call of `try_acquire_token`
holds the lock of the pool from before it reads the clock until it has replaced the file, so that the
calls of all processes come one after the other, and the clock does not go back from one to the next.

A part of a token is carried along as a numerator over `NANOS_PER_MINUTE`.  The tokens and the numerator
together are the level of a `Bucket` (`credit_refill`), which is where all properties of the pool come
from.
-/

set_option autoImplicit false

namespace Fkst.RatePool

open Lib

/-! ## The pool -/

/-- `NANOS_PER_MINUTE`. -/
def nanosPerMinute : ℕ := 60000000000

/-- `RatePoolConfig`. -/
structure RatePoolConfig where
  burst : UInt64
  refillPerMinute : UInt64

/-- `BucketState`.  A `u128` is a number here. -/
structure BucketState where
  tokens : UInt64
  remainderNumerator : ℕ
  updatedNanos : ℕ
deriving DecidableEq

/-- `u128::saturating_mul`. -/
def u128SaturatingMul (a b : ℕ) : ℕ := min (a * b) (2 ^ 128 - 1)

/-- `u128::saturating_add`. -/
def u128SaturatingAdd (a b : ℕ) : ℕ := min (a + b) (2 ^ 128 - 1)

/-- `u64::min`. -/
def u64Min (a b : UInt64) : UInt64 := if a ≤ b then a else b

theorem toNat_u64Min (a b : UInt64) : (u64Min a b).toNat = min a.toNat b.toNat := by
  rw [u64Min]
  split
  · rename_i h
    exact (min_eq_left (UInt64.le_iff_toNat_le.1 h)).symm
  · rename_i h
    rw [UInt64.le_iff_toNat_le] at h
    exact (min_eq_right (by omega)).symm

/-- `empty_state`. -/
def emptyState (nowNanos : ℕ) : BucketState := ⟨0, 0, nowNanos⟩

/-- `parse_state_field`.  Its errors are dropped by its only caller. -/
def parseStateField {α : Type} (parse : List Char → Option α) (line : Option (List Char))
    (label : String) : Option α := do
  let line ← line
  let (key, value) ← Text.splitOnce '=' line
  if key = label.toList then parse value else none

/-- What `read_state` makes of the lines of a file. -/
def parseState (config : RatePoolConfig) (content : List Char) : Option BucketState := do
  let lines := strLines content
  let updatedNanos ← parseStateField parseU128 lines[0]? "updated_nanos"
  let tokens ← parseStateField parseU64 lines[1]? "tokens"
  let remainderNumerator ← parseStateField parseU128 lines[2]? "remainder_nanos"
  return ⟨u64Min tokens config.burst, remainderNumerator, updatedNanos⟩

/-- `read_state`. -/
def readState (config : RatePoolConfig) (ledger : Option (List Char)) (nowNanos : ℕ) : BucketState :=
  match ledger with
  | none => emptyState nowNanos
  | some content =>
    if (trim content).isEmpty then emptyState nowNanos
    else (parseState config content).getD (emptyState nowNanos)

/-- A line of the file. -/
def stateLine (label : String) (value : ℕ) : List Char := label.toList ++ '=' :: value.repr.toList

/-- What `write_state` writes. -/
def writeState (state : BucketState) : List Char :=
  stateLine "updated_nanos" state.updatedNanos ++ '\n' ::
    (stateLine "tokens" state.tokens.toNat ++ '\n' ::
      (stateLine "remainder_nanos" state.remainderNumerator ++ ['\n']))

/-- `refill`. -/
def refill (config : RatePoolConfig) (state : BucketState) (nowNanos : ℕ) : BucketState :=
  if nowNanos < state.updatedNanos then { state with updatedNanos := nowNanos }
  else if nowNanos = state.updatedNanos then state
  else if config.burst ≤ state.tokens then ⟨config.burst, 0, nowNanos⟩
  else
    let elapsed := nowNanos - state.updatedNanos
    let producedNumerator := u128SaturatingAdd
      (u128SaturatingMul elapsed config.refillPerMinute.toNat) state.remainderNumerator
    let produced := producedNumerator / nanosPerMinute
    let remainderNumerator := producedNumerator % nanosPerMinute
    if 0 < produced then
      let produced := UInt64.ofNat (min produced u64Max.toNat)
      let tokens := u64Min (saturatingAdd state.tokens produced) config.burst
      ⟨tokens, if config.burst ≤ tokens then 0 else remainderNumerator, nowNanos⟩
    else ⟨state.tokens, remainderNumerator, nowNanos⟩

/-- How a call ends: it returns, or it fails or its process dies before the file is replaced, or
after that. -/
inductive Ending where
  | returns
  | failsBefore
  | failsAfter
deriving DecidableEq

/-- A call of `try_acquire_token`: what the clock says, and how it ends. -/
structure Poll where
  nowNanos : ℕ
  ending : Ending

/-- What a call returned, and when. -/
structure Answer where
  nowNanos : ℕ
  admitted : Bool
deriving DecidableEq

/-- `try_acquire_token`, on the contents of the file. -/
def tryAcquireToken (config : RatePoolConfig) (ledger : Option (List Char)) (poll : Poll) :
    Option (List Char) × Option Answer :=
  let state := refill config (readState config ledger poll.nowNanos) poll.nowNanos
  let (state, admitted) :=
    if 0 < state.tokens then ({ state with tokens := state.tokens - 1 }, true) else (state, false)
  match poll.ending with
  | .returns => (some (writeState state), some ⟨poll.nowNanos, admitted⟩)
  | .failsBefore => (ledger, none)
  | .failsAfter => (some (writeState state), none)

/-- The calls of all processes, one after the other. -/
def run (config : RatePoolConfig) : Option (List Char) → List Poll →
    Option (List Char) × List Answer :=
  Machine.run (tryAcquireToken config)

/-- When tokens were handed out. -/
def admissions (answers : List Answer) : List ℕ :=
  (answers.filter Answer.admitted).map Answer.nowNanos

/-- The polls of a clock that does not go back and stays below `2 ^ 64`. -/
structure Clocked (polls : List Poll) : Prop where
  ordered : polls.Pairwise fun p q => p.nowNanos ≤ q.nowNanos
  below : ∀ p ∈ polls, p.nowNanos < 2 ^ 64

/-! ## The file -/

section Ledger

theorem parseStateField_stateLine {α : Type} {parse : List Char → Option α} {label : String}
    (hlabel : '=' ∉ label.toList) (value : ℕ) :
    parseStateField parse (some (stateLine label value)) label = parse value.repr.toList := by
  have hsplit : Text.splitOnce '=' (stateLine label value) = some (label.toList, value.repr.toList) :=
    Text.splitOnce_append hlabel
  simp only [parseStateField, Option.bind_eq_bind, Option.bind_some, hsplit, if_true]

theorem digit_of_mem_repr {value : ℕ} {c : Char} (h : c ∈ value.repr.toList) : c.isDigit = true := by
  rw [Nat.toList_repr] at h
  exact Nat.isDigit_of_mem_toDigits (by decide) (by decide) h

theorem notMem_stateLine {label : String} {c : Char} (hlabel : c ∉ label.toList) (heq : c ≠ '=')
    (hdigit : c.isDigit = false) (value : ℕ) : c ∉ stateLine label value := by
  rw [stateLine, List.mem_append, List.mem_cons]
  rintro (h | h | h)
  · exact hlabel h
  · exact heq h
  · rw [digit_of_mem_repr h] at hdigit
    cases hdigit

theorem stripLast_stateLine {label : String} (hlabel : '\r' ∉ label.toList) (value : ℕ) :
    stripLast '\r' (stateLine label value) = stateLine label value := by
  rw [stripLast, if_neg]
  intro h
  exact notMem_stateLine hlabel (by decide) (by decide) value (List.mem_of_getLast? h)

theorem strLines_writeState (state : BucketState) :
    strLines (writeState state) = [stateLine "updated_nanos" state.updatedNanos,
      stateLine "tokens" state.tokens.toNat, stateLine "remainder_nanos" state.remainderNumerator] := by
  have hline : ∀ {label : String} (value : ℕ), '\n' ∉ label.toList → '\n' ∉ stateLine label value :=
    fun value hlabel => notMem_stateLine hlabel (by decide) (by decide) value
  have hcut : Lines.cut '\n' (writeState state) =
      ([stateLine "updated_nanos" state.updatedNanos, stateLine "tokens" state.tokens.toNat,
        stateLine "remainder_nanos" state.remainderNumerator], []) := by
    rw [writeState, Lines.cut_append_sep _ (hline _ (by decide)),
      Lines.cut_append_sep _ (hline _ (by decide)), Lines.cut_append_sep _ (hline _ (by decide)),
      Lines.cut_nil]
  rw [strLines, hcut]
  simp [stripLast_stateLine]

/-- **`read_state` undoes `write_state`.** -/
theorem readState_writeState {config : RatePoolConfig} {state : BucketState}
    (htokens : state.tokens ≤ config.burst) (hremainder : state.remainderNumerator < 2 ^ 128)
    (hupdated : state.updatedNanos < 2 ^ 128) (nowNanos : ℕ) :
    readState config (some (writeState state)) nowNanos = state := by
  have hparse : parseState config (writeState state) = some state := by
    have hmin : u64Min state.tokens config.burst = state.tokens := if_pos htokens
    have hfirst : parseStateField parseU128 (some (stateLine "updated_nanos" state.updatedNanos))
        "updated_nanos" = some state.updatedNanos :=
      (parseStateField_stateLine (by decide) _).trans (parseU128_repr hupdated)
    have hsecond : parseStateField parseU64 (some (stateLine "tokens" state.tokens.toNat)) "tokens" =
        some state.tokens :=
      (parseStateField_stateLine (by decide) _).trans (parseU64_repr state.tokens)
    have hthird : parseStateField parseU128
        (some (stateLine "remainder_nanos" state.remainderNumerator)) "remainder_nanos" =
          some state.remainderNumerator :=
      (parseStateField_stateLine (by decide) _).trans (parseU128_repr hremainder)
    simp only [parseState, strLines_writeState, List.getElem?_cons_zero, List.getElem?_cons_succ,
      hfirst, hsecond, hthird, Option.bind_eq_bind, Option.bind_some, hmin]
    rfl
  have htrim : (trim (writeState state)).isEmpty = false := by
    have hstart : trimStart (writeState state) = writeState state := rfl
    have hmem : 'u' ∈ writeState state := by simp [writeState, stateLine]
    rw [trim, hstart, List.isEmpty_eq_false_iff, Ne, List.rdropWhile_eq_nil_iff]
    exact fun h => absurd (h 'u' hmem) (by decide)
  rw [readState, htrim, hparse]
  rfl

end Ledger

/-! ## Refilling -/

/-- A state of a pool: not more tokens than the burst, less than a token as a remainder, and none of
that if the bucket is full. -/
structure BucketState.Bounded (config : RatePoolConfig) (state : BucketState) : Prop where
  tokens_le : state.tokens ≤ config.burst
  remainder_lt : state.remainderNumerator < nanosPerMinute
  full : state.tokens = config.burst → state.remainderNumerator = 0
  updated_lt : state.updatedNanos < 2 ^ 64

/-- The tokens and the part of a token. -/
def BucketState.credit (state : BucketState) : ℕ :=
  state.tokens.toNat * nanosPerMinute + state.remainderNumerator

/-- `refill` with numbers that have no bound, on the tokens, the remainder and the time. -/
def refillExact (config : RatePoolConfig) : ℕ × ℕ × ℕ → ℕ → ℕ × ℕ × ℕ
  | (tokens, remainder, updated), now =>
    if now < updated then (tokens, remainder, now)
    else if now = updated then (tokens, remainder, updated)
    else if config.burst.toNat ≤ tokens then (config.burst.toNat, 0, now)
    else
      let numerator := (now - updated) * config.refillPerMinute.toNat + remainder
      let tokens := min (tokens + numerator / nanosPerMinute) config.burst.toNat
      (tokens, if config.burst.toNat ≤ tokens then 0 else numerator % nanosPerMinute, now)

/-- The numbers of a state. -/
def BucketState.exact (state : BucketState) : ℕ × ℕ × ℕ :=
  (state.tokens.toNat, state.remainderNumerator, state.updatedNanos)

section Refill

variable {config : RatePoolConfig} {state : BucketState} {now : ℕ}

theorem exact_injective {state' : BucketState} (h : state.exact = state'.exact) : state = state' := by
  obtain ⟨tokens, remainder, updated⟩ := state
  obtain ⟨tokens', remainder', updated'⟩ := state'
  simp only [BucketState.exact, Prod.mk.injEq, UInt64.toNat_inj] at h
  obtain ⟨rfl, rfl, rfl⟩ := h
  rfl

/-- The products of `refill` do not saturate. -/
theorem produced_eq (hnow : now < 2 ^ 64) (hremainder : state.remainderNumerator < nanosPerMinute) :
    u128SaturatingAdd (u128SaturatingMul (now - state.updatedNanos) config.refillPerMinute.toNat)
        state.remainderNumerator =
      (now - state.updatedNanos) * config.refillPerMinute.toNat + state.remainderNumerator := by
  have hrate := config.refillPerMinute.toNat_lt
  have hmul : (now - state.updatedNanos) * config.refillPerMinute.toNat ≤
      (2 ^ 64 - 1) * (2 ^ 64 - 1) :=
    Nat.mul_le_mul (by omega) (by omega)
  rw [nanosPerMinute] at hremainder
  rw [u128SaturatingMul, min_eq_left (by omega), u128SaturatingAdd, min_eq_left (by omega)]

/-- The last branch of `refill`. -/
theorem exact_absorb (hnotFull : ¬ config.burst.toNat ≤ state.tokens.toNat)
    (produced remainder now : ℕ) :
    (if 0 < produced then
      let produced := UInt64.ofNat (min produced u64Max.toNat)
      let tokens := u64Min (saturatingAdd state.tokens produced) config.burst
      ⟨tokens, if config.burst ≤ tokens then 0 else remainder, now⟩
    else ⟨state.tokens, remainder, now⟩ : BucketState).exact =
      (min (state.tokens.toNat + produced) config.burst.toNat,
        if config.burst.toNat ≤ min (state.tokens.toNat + produced) config.burst.toNat then 0
        else remainder, now) := by
  have hburst := config.burst.toNat_lt
  by_cases hproduced : 0 < produced
  · have hclamp : (UInt64.ofNat (min produced u64Max.toNat)).toNat = min produced (2 ^ 64 - 1) := by
      rw [UInt64.toNat_ofNat', show u64Max.toNat = 2 ^ 64 - 1 from rfl]
      exact Nat.mod_eq_of_lt (by omega)
    have htokens : (u64Min (saturatingAdd state.tokens
        (UInt64.ofNat (min produced u64Max.toNat))) config.burst).toNat =
          min (state.tokens.toNat + produced) config.burst.toNat := by
      rw [toNat_u64Min, toNat_saturatingAdd, hclamp]
      omega
    simp only [hproduced, BucketState.exact, UInt64.le_iff_toNat_le, htokens, ↓reduceIte]
  · have htokens : min (state.tokens.toNat + produced) config.burst.toNat = state.tokens.toNat := by
      omega
    simp only [hproduced, BucketState.exact, htokens, hnotFull, ↓reduceIte]

/-- **Saturation never changes anything.** -/
theorem exact_refill (hstate : state.Bounded config) (hnow : now < 2 ^ 64) :
    (refill config state now).exact = refillExact config state.exact now := by
  by_cases hback : now < state.updatedNanos
  · simp only [refill, refillExact, BucketState.exact, hback, ↓reduceIte]
  by_cases hsame : now = state.updatedNanos
  · simp only [refill, refillExact, BucketState.exact, hsame, Nat.lt_irrefl, ↓reduceIte]
  by_cases hfull : config.burst ≤ state.tokens
  · simp only [refill, refillExact, BucketState.exact, hback, hsame, hfull,
      UInt64.le_iff_toNat_le.1 hfull, ↓reduceIte]
  have hnotFull := hfull
  rw [UInt64.le_iff_toNat_le] at hnotFull
  rw [refill, if_neg hback, if_neg hsame, if_neg hfull, BucketState.exact.eq_1 state, refillExact,
    if_neg hback, if_neg hsame, if_neg hnotFull]
  dsimp only
  rw [produced_eq hnow hstate.remainder_lt]
  exact exact_absorb hnotFull _ _ now

/-- What a state holds is at most the burst. -/
theorem credit_le (hstate : state.Bounded config) :
    state.credit ≤ config.burst.toNat * nanosPerMinute := by
  have htokens := UInt64.le_iff_toNat_le.1 hstate.tokens_le
  have hremainder := hstate.remainder_lt
  rw [BucketState.credit]
  rcases Nat.lt_or_ge state.tokens.toNat config.burst.toNat with hlt | hge
  · have := Nat.mul_le_mul_right nanosPerMinute (Nat.succ_le_of_lt hlt)
    rw [Nat.succ_mul] at this
    omega
  · have heq : state.tokens.toNat = config.burst.toNat := by omega
    rw [hstate.full (UInt64.toNat_inj.1 heq), heq, Nat.add_zero]

/-- **Refilling is filling a bucket.** -/
theorem refill_spec (hstate : state.Bounded config) (hle : state.updatedNanos ≤ now)
    (hnow : now < 2 ^ 64) :
    (refill config state now).Bounded config ∧ (refill config state now).updatedNanos = now ∧
    (refill config state now).credit = Bucket.fill (config.burst.toNat * nanosPerMinute)
      config.refillPerMinute.toNat (now - state.updatedNanos) state.credit := by
  rcases Nat.eq_or_lt_of_le hle with heq | hlt
  · have hsame : refill config state now = state := by
      rw [refill, if_neg (by omega), if_pos heq.symm]
    rw [hsame, ← heq, Nat.sub_self, Bucket.fill_zero (credit_le hstate)]
    exact ⟨hstate, rfl, rfl⟩
  have hexact := exact_refill hstate hnow
  rw [BucketState.exact.eq_1 state, refillExact, if_neg (by omega), if_neg (by omega)] at hexact
  have hN : 0 < nanosPerMinute := by decide
  by_cases hfull : config.burst.toNat ≤ state.tokens.toNat
  · rw [if_pos hfull, BucketState.exact, Prod.mk.injEq, Prod.mk.injEq, UInt64.toNat_inj] at hexact
    obtain ⟨htokens, hremainder, hupdated⟩ := hexact
    have heq : state.tokens.toNat = config.burst.toNat :=
      Nat.le_antisymm (UInt64.le_iff_toNat_le.1 hstate.tokens_le) hfull
    refine ⟨⟨htokens ▸ UInt64.le_refl _, hremainder ▸ hN, fun _ => hremainder, hupdated.trans_lt hnow⟩,
      hupdated, ?_⟩
    rw [BucketState.credit, BucketState.credit, htokens, hremainder, Bucket.fill, heq, Nat.add_zero,
      Nat.add_assoc]
    exact (min_eq_left (Nat.le_add_right _ _)).symm
  · rw [if_neg hfull, BucketState.exact, Prod.mk.injEq, Prod.mk.injEq] at hexact
    obtain ⟨htokens, hremainder, hupdated⟩ := hexact
    have hnumerator : state.credit + config.refillPerMinute.toNat * (now - state.updatedNanos) =
        state.tokens.toNat * nanosPerMinute + ((now - state.updatedNanos) *
          config.refillPerMinute.toNat + state.remainderNumerator) := by
      rw [BucketState.credit, Nat.mul_comm config.refillPerMinute.toNat]
      omega
    rw [Bucket.fill, hnumerator]
    generalize (now - state.updatedNanos) * config.refillPerMinute.toNat + state.remainderNumerator =
      numerator at htokens hremainder
    have hdiv := Nat.div_add_mod numerator nanosPerMinute
    have hmod := Nat.mod_lt numerator hN
    generalize numerator / nanosPerMinute = produced at htokens hremainder hdiv
    generalize numerator % nanosPerMinute = remainder at hremainder hdiv hmod
    have hsum : state.tokens.toNat * nanosPerMinute + numerator =
        (state.tokens.toNat + produced) * nanosPerMinute + remainder := by
      rw [← hdiv, Nat.add_mul, Nat.mul_comm nanosPerMinute produced, Nat.add_assoc]
    rw [hsum]
    by_cases hover : config.burst.toNat ≤ min (state.tokens.toNat + produced) config.burst.toNat
    · rw [if_pos hover] at hremainder
      have heq : (refill config state now).tokens = config.burst :=
        UInt64.toNat_inj.1 (by omega)
      refine ⟨⟨heq ▸ UInt64.le_refl _, hremainder ▸ hN, fun _ => hremainder, hupdated.trans_lt hnow⟩,
        hupdated, ?_⟩
      rw [BucketState.credit, heq, hremainder, Nat.add_zero]
      have hmul := Nat.mul_le_mul_right nanosPerMinute
        (show config.burst.toNat ≤ state.tokens.toNat + produced by omega)
      exact (min_eq_left (by omega)).symm
    · rw [if_neg hover] at hremainder
      have htokens' : (refill config state now).tokens.toNat = state.tokens.toNat + produced := by
        omega
      refine ⟨⟨UInt64.le_iff_toNat_le.2 (by omega), hremainder ▸ hmod, fun h => ?_, hupdated.trans_lt hnow⟩,
        hupdated, ?_⟩
      · rw [h] at htokens'
        omega
      · rw [BucketState.credit, htokens', hremainder]
        have hmul := Nat.mul_le_mul_right nanosPerMinute
          (show state.tokens.toNat + produced + 1 ≤ config.burst.toNat by omega)
        rw [Nat.add_mul _ 1, Nat.one_mul] at hmul
        exact (min_eq_right (by omega)).symm

/-- A state is known by its credit and its time. -/
theorem eq_of_credit_eq {state' : BucketState} (hstate : state.Bounded config)
    (hstate' : state'.Bounded config) (hcredit : state.credit = state'.credit)
    (hupdated : state.updatedNanos = state'.updatedNanos) : state = state' := by
  have hN : 0 < nanosPerMinute := by decide
  have hdiv : ∀ {x : BucketState}, x.Bounded config → x.credit / nanosPerMinute = x.tokens.toNat ∧
      x.credit % nanosPerMinute = x.remainderNumerator := by
    intro x hx
    rw [BucketState.credit, Nat.add_comm, Nat.add_mul_div_right _ _ hN, Nat.add_mul_mod_self_right,
      Nat.div_eq_of_lt hx.remainder_lt, Nat.mod_eq_of_lt hx.remainder_lt, Nat.zero_add]
    exact ⟨rfl, rfl⟩
  refine exact_injective ?_
  rw [BucketState.exact, BucketState.exact, ← (hdiv hstate).1, ← (hdiv hstate).2, hcredit,
    (hdiv hstate').1, (hdiv hstate').2, hupdated]

/-- **A poll that changes nothing loses and gains nothing.** -/
theorem refill_refill (hstate : state.Bounded config) {t₁ t₂ : ℕ} (h₁ : state.updatedNanos ≤ t₁)
    (h₂ : t₁ ≤ t₂) (hlt : t₂ < 2 ^ 64) :
    refill config (refill config state t₁) t₂ = refill config state t₂ := by
  obtain ⟨hbounded₁, hupdated₁, hcredit₁⟩ := refill_spec hstate h₁ (by omega)
  obtain ⟨hbounded₂, hupdated₂, hcredit₂⟩ := refill_spec hbounded₁ (hupdated₁.trans_le h₂) hlt
  obtain ⟨hbounded₃, hupdated₃, hcredit₃⟩ := refill_spec hstate (h₁.trans h₂) hlt
  refine eq_of_credit_eq hbounded₂ hbounded₃ ?_ (hupdated₂.trans hupdated₃.symm)
  rw [hcredit₂, hcredit₁, hcredit₃, hupdated₁, Bucket.fill_fill]
  congr 1
  omega

end Refill

/-! ## Runs -/

/-- The file of a pool and when tokens were taken: there is no file yet, or its state accounts for all
of them. -/
def Accounts (config : RatePoolConfig) (ledger : Option (List Char)) (clock : ℕ) (taken : List ℕ) :
    Prop :=
  match ledger with
  | none => taken = []
  | some content => ∃ state, content = writeState state ∧ state.Bounded config ∧
    state.updatedNanos ≤ clock ∧ Bucket.Within (config.burst.toNat * nanosPerMinute)
      config.refillPerMinute.toNat nanosPerMinute state.credit state.updatedNanos taken

section Runs

variable {config : RatePoolConfig} {ledger : Option (List Char)} {clock : ℕ} {taken : List ℕ}

theorem bounded_emptyState (config : RatePoolConfig) {now : ℕ} (hnow : now < 2 ^ 64) :
    (emptyState now).Bounded config :=
  ⟨UInt64.le_iff_toNat_le.2 (Nat.zero_le _), show 0 < nanosPerMinute by decide, fun _ => rfl, hnow⟩

theorem BucketState.Bounded.readState_writeState {state : BucketState} (h : state.Bounded config)
    (now : ℕ) : readState config (some (writeState state)) now = state := by
  have hN : nanosPerMinute < 2 ^ 128 := by decide
  exact RatePool.readState_writeState h.tokens_le (h.remainder_lt.trans hN)
    (h.updated_lt.trans (by decide)) now

/-- What is read from the file. -/
theorem Accounts.readState (h : Accounts config ledger clock taken) {now : ℕ} (hle : clock ≤ now)
    (hnow : now < 2 ^ 64) :
    (readState config ledger now).Bounded config ∧ (readState config ledger now).updatedNanos ≤ now ∧
    Bucket.Within (config.burst.toNat * nanosPerMinute) config.refillPerMinute.toNat nanosPerMinute
      (readState config ledger now).credit (readState config ledger now).updatedNanos taken := by
  cases ledger with
  | none =>
    obtain rfl : taken = [] := h
    have hempty : (emptyState now).credit = 0 := by simp [emptyState, BucketState.credit]
    refine ⟨bounded_emptyState config hnow, Nat.le_refl now, ?_⟩
    rw [RatePool.readState, hempty]
    exact Bucket.within_nil (Nat.zero_le _)
  | some content =>
    obtain ⟨state, rfl, hbounded, hupdated, hwithin⟩ := h
    rw [hbounded.readState_writeState]
    exact ⟨hbounded, hupdated.trans hle, hwithin⟩

theorem BucketState.Bounded.take {state : BucketState} (h : state.Bounded config)
    (hpos : 0 < state.tokens) :
    ({ state with tokens := state.tokens - 1 } : BucketState).Bounded config ∧
    ({ state with tokens := state.tokens - 1 } : BucketState).credit = state.credit - nanosPerMinute ∧
    nanosPerMinute ≤ state.credit := by
  have hpos' : 0 < state.tokens.toNat := UInt64.lt_iff_toNat_lt.1 hpos
  have hsub : (state.tokens - 1).toNat = state.tokens.toNat - 1 :=
    UInt64.toNat_sub_of_le _ _ (UInt64.le_iff_toNat_le.2 hpos')
  have hle := UInt64.le_iff_toNat_le.1 h.tokens_le
  have hmul : state.tokens.toNat * nanosPerMinute =
      (state.tokens.toNat - 1) * nanosPerMinute + nanosPerMinute := by
    rw [← Nat.succ_mul, Nat.succ_eq_add_one, Nat.sub_add_cancel hpos']
  refine ⟨⟨UInt64.le_iff_toNat_le.2 ?_, h.remainder_lt, fun hfull => ?_, h.updated_lt⟩, ?_, ?_⟩
  · rw [hsub]
    omega
  · have := congrArg UInt64.toNat hfull
    rw [hsub] at this
    omega
  · rw [credit, credit]
    dsimp only
    rw [hsub]
    omega
  · rw [credit]
    omega

theorem accounts_writeState {state : BucketState} (hbounded : state.Bounded config)
    (htime : state.updatedNanos = clock)
    (hwithin : Bucket.Within (config.burst.toNat * nanosPerMinute) config.refillPerMinute.toNat
      nanosPerMinute state.credit clock taken) :
    Accounts config (some (writeState state)) clock taken :=
  ⟨state, rfl, hbounded, Nat.le_of_eq htime, by rw [htime]; exact hwithin⟩

/-- **One call keeps the account.** -/
theorem Accounts.tryAcquireToken (h : Accounts config ledger clock taken) {poll : Poll}
    (hle : clock ≤ poll.nowNanos) (hnow : poll.nowNanos < 2 ^ 64) :
    Accounts config (tryAcquireToken config ledger poll).1 poll.nowNanos
      (taken ++ admissions (tryAcquireToken config ledger poll).2.toList) := by
  obtain ⟨hread, hupdated, hwithin⟩ := h.readState hle hnow
  obtain ⟨hbounded, htime, hcredit⟩ := refill_spec hread hupdated hnow
  have hfilled := hwithin.fill hupdated
  rw [← hcredit] at hfilled
  have hkept : Accounts config ledger poll.nowNanos taken := by
    cases ledger with
    | none => exact h
    | some content =>
      obtain ⟨state, heq, hstate, hclock, hstateWithin⟩ := h
      exact ⟨state, heq, hstate, hclock.trans hle, hstateWithin⟩
  rw [RatePool.tryAcquireToken]
  dsimp only
  by_cases hpos : 0 < (refill config (RatePool.readState config ledger poll.nowNanos)
      poll.nowNanos).tokens
  · obtain ⟨htaken, htakenCredit, hprice⟩ := hbounded.take hpos
    rw [if_pos hpos]
    have hdraw := hfilled.draw hprice
    have hspill := hfilled.spill nanosPerMinute
    rw [← htakenCredit] at hdraw hspill
    cases poll.ending with
    | returns => exact accounts_writeState htaken htime hdraw
    | failsBefore => simpa [admissions] using hkept
    | failsAfter => exact accounts_writeState htaken htime (by simpa [admissions] using hspill)
  · rw [if_neg hpos]
    cases poll.ending with
    | returns => exact accounts_writeState hbounded htime (by simpa [admissions] using hfilled)
    | failsBefore => simpa [admissions] using hkept
    | failsAfter => exact accounts_writeState hbounded htime (by simpa [admissions] using hfilled)

theorem admissions_append (a b : List Answer) :
    admissions (a ++ b) = admissions a ++ admissions b := by
  simp [admissions]

theorem clocked_cons {poll : Poll} {polls : List Poll} (h : Clocked (poll :: polls)) :
    poll.nowNanos < 2 ^ 64 ∧ (∀ p ∈ polls, poll.nowNanos ≤ p.nowNanos) ∧ Clocked polls := by
  obtain ⟨hfirst, hordered⟩ := List.pairwise_cons.1 h.ordered
  obtain ⟨hlt, hbelow⟩ := List.forall_mem_cons.1 h.below
  exact ⟨hlt, hfirst, hordered, hbelow⟩

/-- **All calls keep the account.** -/
theorem Accounts.run {polls : List Poll} : ∀ {ledger : Option (List Char)} {clock : ℕ}
    {taken : List ℕ}, Accounts config ledger clock taken → Clocked polls →
    (∀ p ∈ polls, clock ≤ p.nowNanos) →
    ∃ clock', Accounts config (run config ledger polls).1 clock'
      (taken ++ admissions (run config ledger polls).2) := by
  induction polls with
  | nil =>
    intro ledger clock taken h _ _
    exact ⟨clock, by simpa [RatePool.run, admissions] using h⟩
  | cons poll polls ih =>
    intro ledger clock taken h hclocked hle
    obtain ⟨hlt, hfirst, hrest⟩ := clocked_cons hclocked
    have hstep := h.tryAcquireToken (hle poll List.mem_cons_self) hlt
    obtain ⟨clock', hrun⟩ := ih hstep hrest hfirst
    refine ⟨clock', ?_⟩
    rw [RatePool.run, Machine.run_cons, admissions_append, ← List.append_assoc]
    exact hrun

end Runs

/-- **A rate pool is a token bucket.**  For every configuration and every sequence of calls with a clock
that does not go back, from no file on: the state that the next call finds has at most `burst` tokens,
less than a token as a remainder and none if it is full; the file holds exactly this state; when the
state is looked at in between makes no difference, and neither do the bounds of the numbers; and in no
window of time are more tokens handed out than the burst and what has run in since its start.  Any state
that is written is read back. -/
theorem tokenBucket_exact (config : RatePoolConfig) (polls : List Poll) (hclocked : Clocked polls) :
    (∀ now, (∀ p ∈ polls, p.nowNanos ≤ now) → now < 2 ^ 64 →
      let ledger := (run config none polls).1
      let state := readState config ledger now
      (state.tokens ≤ config.burst ∧ state.remainderNumerator < nanosPerMinute ∧
        (state.tokens = config.burst → state.remainderNumerator = 0)) ∧
      (∀ content, ledger = some content → content = writeState state) ∧
      (∀ t₁ t₂, state.updatedNanos ≤ t₁ → t₁ ≤ t₂ → t₂ < 2 ^ 64 →
        refill config (refill config state t₁) t₂ = refill config state t₂) ∧
      ∀ t < 2 ^ 64, (refill config state t).exact = refillExact config state.exact t) ∧
    (∀ s t, s ≤ t → Bucket.countIn s t (admissions (run config none polls).2) * nanosPerMinute ≤
      config.burst.toNat * nanosPerMinute + config.refillPerMinute.toNat * (t - s)) ∧
    ∀ state : BucketState, state.tokens ≤ config.burst → state.remainderNumerator < 2 ^ 128 →
      state.updatedNanos < 2 ^ 128 → ∀ now,
      readState config (some (writeState state)) now = state := by
  have hstart : Accounts config none 0 [] := rfl
  obtain ⟨clock, haccounts⟩ := hstart.run hclocked fun _ _ => Nat.zero_le _
  rw [List.nil_append] at haccounts
  refine ⟨fun now _ hnow => ?_, ?_, fun state htokens hremainder hupdated now =>
    readState_writeState htokens hremainder hupdated now⟩
  · have hstate : (readState config (run config none polls).1 now).Bounded config ∧
        ∀ content, (run config none polls).1 = some content →
          content = writeState (readState config (run config none polls).1 now) := by
      cases hledger : (run config none polls).1 with
      | none => exact ⟨bounded_emptyState config hnow, fun _ h => by cases h⟩
      | some content =>
        rw [hledger] at haccounts
        obtain ⟨state, rfl, hbounded, _, _⟩ := haccounts
        rw [hbounded.readState_writeState]
        exact ⟨hbounded, fun _ h => (Option.some.inj h).symm⟩
    exact ⟨⟨hstate.1.tokens_le, hstate.1.remainder_lt, hstate.1.full⟩, hstate.2,
      fun t₁ t₂ h₁ h₂ hlt => refill_refill hstate.1 h₁ h₂ hlt, fun t ht => exact_refill hstate.1 ht⟩
  · intro s t hst
    cases hledger : (run config none polls).1 with
    | none =>
      rw [hledger] at haccounts
      rw [show admissions (run config none polls).2 = [] from haccounts]
      simp [Bucket.countIn]
    | some content =>
      rw [hledger] at haccounts
      obtain ⟨state, _, _, _, hwithin⟩ := haccounts
      exact hwithin.window s t hst

namespace Sample

/-- Two tokens, and one in a minute. -/
def config : RatePoolConfig := ⟨2, 1⟩

/-- A first call, two calls two minutes later, and one that fails. -/
def polls : List Poll :=
  [⟨1, .returns⟩, ⟨120000000001, .returns⟩, ⟨120000000001, .returns⟩, ⟨120000000002, .failsAfter⟩]

end Sample

/-- The theorem at a pool that hands out its burst. -/
theorem tokenBucket_exact_sample : Clocked Sample.polls ∧
    admissions (run Sample.config none Sample.polls).2 = [120000000001, 120000000001] ∧
    Bucket.countIn 1 120000000001 (admissions (run Sample.config none Sample.polls).2) *
      nanosPerMinute ≤ 2 * nanosPerMinute + 1 * (120000000001 - 1) := by
  have hclocked : Clocked Sample.polls :=
    ⟨by simp [Sample.polls], by simp [Sample.polls]⟩
  exact ⟨hclocked, by decide +kernel,
    (tokenBucket_exact Sample.config Sample.polls hclocked).2.1 1 120000000001 (by decide)⟩

end Fkst.RatePool
