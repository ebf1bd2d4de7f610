import Fkst.Lib.Calendar
import Fkst.Lib.Text
import Fkst.Rust

/-!
# Dates

The engine writes times for people in four places, and each has a copy of `civil_from_days`, the
calendar date of a day.  The arithmetic is that of `i64`: an operation whose result does not fit has
no value (`i64`), and a build that checks for overflow stops there.

`civilFromDays_exact` is that every copy gives the date of the day; the times that
`unix_seconds_to_iso8601` writes are then in the order of the seconds.
-/

set_option autoImplicit false

namespace Fkst.Clock

open Lib.Calendar

/-! ## `i64` -/

/-- A result that has to fit an `i64`. -/
def i64 (n : ℤ) : Option ℤ := if -2 ^ 63 ≤ n ∧ n < 2 ^ 63 then some n else none

theorem i64_bind {β : Type} {n : ℤ} (h : -2 ^ 63 ≤ n ∧ n < 2 ^ 63) (f : ℤ → Option β) :
    (i64 n >>= f) = f n := by
  rw [i64, if_pos h]
  rfl

/-- `as i32`. -/
def asI32 (n : ℤ) : ℤ := n.bmod (2 ^ 32)

/-- `as u32`. -/
def asU32 (n : ℤ) : ℕ := (n % 2 ^ 32).toNat

/-- A `u64` that is cast by `as i64`. -/
def asI64 (n : UInt64) : ℤ := (n.toNat : ℤ).bmod (2 ^ 64)

theorem asI32_eq {n : ℤ} (h : 0 ≤ n ∧ n < 2 ^ 31) : asI32 n = n :=
  Int.bmod_eq_of_le (by omega) (by omega)

theorem asI64_eq {n : UInt64} (h : n.toNat < 2 ^ 63) : asI64 n = n.toNat :=
  Int.bmod_eq_of_le (by omega) (by omega)

/-! ## `civil_from_days` -/

/-- `civil_from_days`, up to the type of the year. -/
def civilFromDaysWith (castYear : ℤ → ℤ) (daysSinceEpoch : ℤ) : Option (ℤ × ℕ × ℕ) := do
  let z ← i64 (daysSinceEpoch + 719468)
  let era ← i64 ((← i64 (if z ≥ 0 then z else z - 146096)).tdiv 146097)
  let doe ← i64 (z - (← i64 (era * 146097)))
  let yoe ← i64 ((← i64 ((← i64 ((← i64 (doe - doe.tdiv 1460)) + doe.tdiv 36524)) -
    doe.tdiv 146096)).tdiv 365)
  let y ← i64 (yoe + (← i64 (era * 400)))
  let doy ← i64 (doe - (← i64 ((← i64 ((← i64 (365 * yoe)) + yoe.tdiv 4)) - yoe.tdiv 100)))
  let mp ← i64 ((← i64 ((← i64 (5 * doy)) + 2)).tdiv 153)
  let day ← i64 ((← i64 (doy - (← i64 ((← i64 (153 * mp)) + 2)).tdiv 5)) + 1)
  let month ← i64 (mp + if mp < 10 then 3 else -9)
  let year ← i64 (y + if month ≤ 2 then 1 else 0)
  return (castYear year, asU32 month, asU32 day)

/-- `civil_from_days` of `external_command`. -/
def ExternalCommand.civilFromDays : ℤ → Option (ℤ × ℕ × ℕ) := civilFromDaysWith fun year => year

/-- `civil_from_days` of `sdk_log`. -/
def SdkLog.civilFromDays : ℤ → Option (ℤ × ℕ × ℕ) := civilFromDaysWith fun year => year

/-- `civil_from_days` of `sdk_git`. -/
def SdkGit.civilFromDays : ℤ → Option (ℤ × ℕ × ℕ) := civilFromDaysWith asI32

/-- `civil_from_days` of `sdk_codex`. -/
def SdkCodex.civilFromDays : ℤ → Option (ℤ × ℕ × ℕ) := civilFromDaysWith asI32

example : SdkGit.civilFromDays 19782 = some (2024, 2, 29) := by decide +kernel

/-- The date that the arithmetic without bounds gives to a day. -/
def civilDate (daysSinceEpoch : ℤ) : Date :=
  let z := daysSinceEpoch + 719468
  let yoe := withoutLeapDays (z % 146097) / 365
  let doy := z % 146097 - (365 * yoe + yoe / 4 - yoe / 100)
  let mp := (5 * doy + 2) / 153
  let month := mp + if mp < 10 then 3 else -9
  { year := yoe + z / 146097 * 400 + if month ≤ 2 then 1 else 0
    month := month.toNat
    day := (doy - (153 * mp + 2) / 5 + 1).toNat }

/-- The numbers on the way to it. -/
structure Steps (daysSinceEpoch z doe yoe doy mp : ℤ) : Prop where
  z_eq : z = daysSinceEpoch + 719468
  doe_eq : doe = z % 146097
  yoe_eq : yoe = withoutLeapDays doe / 365
  doy_eq : doy = doe - (365 * yoe + yoe / 4 - yoe / 100)
  mp_eq : mp = (5 * doy + 2) / 153

theorem exists_steps (daysSinceEpoch : ℤ) :
    ∃ z doe yoe doy mp, Steps daysSinceEpoch z doe yoe doy mp :=
  ⟨_, _, _, _, _, rfl, rfl, rfl, rfl, rfl⟩

section Steps

variable {daysSinceEpoch z doe yoe doy mp : ℤ} (h : Steps daysSinceEpoch z doe yoe doy mp)
include h

theorem Steps.civilDate_eq : civilDate daysSinceEpoch =
    { year := yoe + z / 146097 * 400 + if (mp + if mp < 10 then 3 else -9) ≤ 2 then 1 else 0
      month := (mp + if mp < 10 then 3 else -9).toNat
      day := (doy - (153 * mp + 2) / 5 + 1).toNat } := by
  rw [h.mp_eq, h.doy_eq, h.yoe_eq, h.doe_eq, h.z_eq]
  rfl

theorem Steps.doe_bounds : 0 ≤ doe ∧ doe < 146097 := by
  have hdoe := h.doe_eq
  omega

theorem Steps.yoe_bounds : 0 ≤ yoe ∧ yoe < 400 := by
  obtain ⟨hpos, hlt, -⟩ := yearOfEra h.doe_bounds.1 h.doe_bounds.2 h.yoe_eq
  exact ⟨hpos, hlt⟩

/-- A day is in its year. -/
theorem Steps.doy_bounds : 0 ≤ doy ∧ doy < marchYears (yoe + 1) - marchYears yoe := by
  obtain ⟨hpos, hlt, hstart, hend⟩ := yearOfEra h.doe_bounds.1 h.doe_bounds.2 h.yoe_eq
  have hyear : marchYears yoe = 365 * yoe + yoe / 4 - yoe / 100 := by
    rw [marchYears]
    omega
  have hdoy := h.doy_eq
  omega

theorem Steps.doy_le : doy ≤ 365 := by
  have hdoy := h.doy_bounds.2
  rw [marchYears, marchYears] at hdoy
  omega

theorem Steps.mp_bounds : 0 ≤ mp ∧ mp ≤ 11 := by
  have hmp := h.mp_eq
  have hpos := h.doy_bounds.1
  have hle := h.doy_le
  omega

end Steps

/-- **The date of a day.** -/
theorem civilDate_spec (daysSinceEpoch : ℤ) :
    (civilDate daysSinceEpoch).Valid ∧ (civilDate daysSinceEpoch).dayCount = daysSinceEpoch := by
  obtain ⟨z, doe, yoe, doy, mp, h⟩ := exists_steps daysSinceEpoch
  obtain ⟨⟨hdoy₀, hdoy⟩, hdoy₁⟩ := And.intro h.doy_bounds h.doy_le
  obtain ⟨hmp₀, hmp₁⟩ := h.mp_bounds
  have hmp := h.mp_eq
  obtain ⟨m, hm⟩ : ∃ m : ℕ, mp + (if mp < 10 then 3 else -9) = m :=
    Int.eq_ofNat_of_zero_le (by omega)
  obtain ⟨day, hday⟩ : ∃ day : ℕ, doy - (153 * mp + 2) / 5 + 1 = day :=
    Int.eq_ofNat_of_zero_le (by omega)
  have hmonth : 1 ≤ m ∧ m ≤ 12 := by omega
  have hmarch : (((m + 9) % 12 : ℕ) : ℤ) = mp := by omega
  rw [h.civilDate_eq, hm, hday, Int.toNat_natCast, Int.toNat_natCast]
  generalize hy : yoe + z / 146097 * 400 + (if (m : ℤ) ≤ 2 then 1 else 0) = y
  have hera := marchYears_add_era yoe (z / 146097)
  have hvalid : (⟨y, m, day⟩ : Date).Valid := by
    have hlen := daysInMonth_eq y hmonth.1 hmonth.2
    rw [Nat.cast_add, hmarch] at hlen
    refine ⟨hmonth, by dsimp only; omega, ?_⟩
    dsimp only
    by_cases hfeb : m = 2
    · have hnext : y = yoe + 1 + z / 146097 * 400 := by
        rw [← hy, if_pos (by omega)]
        ring
      have hlast : y - 1 = yoe + z / 146097 * 400 := by omega
      rw [if_pos hfeb, hlast, hera] at hlen
      rw [hnext, marchYears_add_era, ← hnext] at hlen
      omega
    · rw [if_neg hfeb] at hlen
      omega
  refine ⟨hvalid, ?_⟩
  have hmarchYear : (if m ≤ 2 then y - 1 else y) = yoe + z / 146097 * 400 := by
    rw [← hy]
    split_ifs <;> omega
  have hyear : marchYears yoe = 365 * yoe + yoe / 4 - yoe / 100 := by
    have hyoe := h.yoe_bounds
    rw [marchYears]
    omega
  have hz := h.z_eq
  have hdoe := h.doe_eq
  have hdoyEq := h.doy_eq
  rw [dayCount_eq hvalid]
  dsimp only
  rw [hmarchYear, hera, hmarch]
  omega

/-- **No step overflows**, and the result is the date of the day. -/
theorem civilFromDaysWith_eq (castYear : ℤ → ℤ) {daysSinceEpoch : ℤ} (hpos : 0 ≤ daysSinceEpoch)
    (hmax : daysSinceEpoch < 2 ^ 62) : civilFromDaysWith castYear daysSinceEpoch =
      some (castYear (civilDate daysSinceEpoch).year, (civilDate daysSinceEpoch).month,
        (civilDate daysSinceEpoch).day) := by
  obtain ⟨z, doe, yoe, doy, mp, h⟩ := exists_steps daysSinceEpoch
  obtain ⟨hyoe₀, hyoe₁⟩ := h.yoe_bounds
  obtain ⟨hdoe₀, hdoe₁⟩ := h.doe_bounds
  obtain ⟨hdoy₀, hdoy₁⟩ := And.intro h.doy_bounds.1 h.doy_le
  obtain ⟨hmp₀, hmp₁⟩ := h.mp_bounds
  have hz := h.z_eq
  have hshift : z.tdiv 146097 = z / 146097 := Int.tdiv_eq_ediv_of_nonneg (by omega)
  have hdoe : z - z / 146097 * 146097 = doe := by
    have := h.doe_eq
    omega
  have hyoe : (doe - doe / 1460 + doe / 36524 - doe / 146096).tdiv 365 = yoe := by
    rw [Int.tdiv_eq_ediv_of_nonneg (by omega), h.yoe_eq, withoutLeapDays]
  have hdoy : doe - (365 * yoe + yoe / 4 - yoe / 100) = doy := h.doy_eq.symm
  have hmonth := h.mp_eq
  have hmp : (5 * doy + 2).tdiv 153 = mp := by
    rw [Int.tdiv_eq_ediv_of_nonneg (by omega), h.mp_eq]
  have hbefore : (153 * mp + 2).tdiv 5 = (153 * mp + 2) / 5 :=
    Int.tdiv_eq_ediv_of_nonneg (by omega)
  rw [civilFromDaysWith, ← hz, h.civilDate_eq]
  -- the era and the day of the era
  rw [i64_bind (by omega), if_pos (by omega : z ≥ 0), i64_bind (by omega), hshift,
    i64_bind (by omega), i64_bind (by omega), hdoe, i64_bind (by omega)]
  -- the year of the era
  simp only [Int.tdiv_eq_ediv_of_nonneg hdoe₀]
  rw [i64_bind (by omega), i64_bind (by omega), i64_bind (by omega), hyoe, i64_bind (by omega),
    i64_bind (by omega), i64_bind (by omega)]
  -- the day of the year
  simp only [Int.tdiv_eq_ediv_of_nonneg hyoe₀]
  rw [i64_bind (by omega), i64_bind (by omega), i64_bind (by omega), hdoy, i64_bind (by omega)]
  -- the month and the day of it
  rw [i64_bind (by omega), i64_bind (by omega), hmp, i64_bind (by omega), i64_bind (by omega),
    i64_bind (by omega), hbefore, i64_bind (by omega), i64_bind (by omega), i64_bind (by omega),
    i64_bind (by omega)]
  have hasMonth : asU32 (mp + if mp < 10 then 3 else -9) =
      (mp + if mp < 10 then 3 else -9).toNat := by
    rw [asU32, Int.emod_eq_of_lt (by omega) (by omega)]
  have hasDay : asU32 (doy - (153 * mp + 2) / 5 + 1) = (doy - (153 * mp + 2) / 5 + 1).toNat := by
    rw [asU32, Int.emod_eq_of_lt (by omega) (by omega)]
  rw [hasMonth, hasDay]
  rfl

/-- The date of a day whose year fits an `i32`. -/
theorem civilFromDaysWith_of_date {castYear : ℤ → ℤ}
    (hcast : ∀ n, 0 ≤ n ∧ n < 2 ^ 31 → castYear n = n) {date : Date} (hvalid : date.Valid)
    (hpos : 0 ≤ date.dayCount) (hyear : date.year < 2 ^ 31) :
    civilFromDaysWith castYear date.dayCount = some (date.year, date.month, date.day) := by
  have hdate : civilDate date.dayCount = date :=
    dayCount_inj (civilDate_spec _).1 hvalid (civilDate_spec _).2
  have hstart : 0 ≤ date.year := by
    by_contra hneg
    have hend := (dayCount_bounds hvalid).2
    have hle : daysBeforeYear (date.year + 1) ≤ daysBeforeYear 1970 :=
      daysBeforeYear_le (by omega)
    rw [show daysBeforeYear 1970 = 0 from rfl] at hle
    omega
  have hmax : date.dayCount < 2 ^ 62 := by
    have hend := (dayCount_bounds hvalid).2
    rw [daysBeforeYear_eq, leapsBefore] at hend
    omega
  rw [civilFromDaysWith_eq castYear hpos hmax, hdate, hcast _ ⟨hstart, hyear⟩]

/-! ## `unix_seconds_to_iso8601` -/

/-- A number that `{:0w}` writes. -/
def padded (w : ℕ) (n : ℕ) : String :=
  String.ofList (List.replicate (w - n.repr.length) '0') ++ n.repr

/-- A number that `{:0w}` writes, with the sign in front of the zeros. -/
def paddedInt (w : ℕ) : ℤ → String
  | .ofNat n => padded w n
  | .negSucc n => "-" ++ padded (w - 1) (n + 1)

/-- The text of a time. -/
def isoText (year : ℤ) (month day hour minute second : ℕ) : String :=
  paddedInt 4 year ++ "-" ++ padded 2 month ++ "-" ++ padded 2 day ++ "T" ++ padded 2 hour ++ ":" ++
    padded 2 minute ++ ":" ++ padded 2 second ++ "Z"

/-- `unix_seconds_to_iso8601`. -/
def unixSecondsToIso8601 (seconds : UInt64) : Option String := do
  let days := asI64 (seconds / 86400)
  let secondsOfDay := seconds % 86400
  let (year, month, day) ← SdkCodex.civilFromDays days
  let hour := secondsOfDay / 3600
  let minute := (secondsOfDay % 3600) / 60
  let second := secondsOfDay % 60
  return isoText year month day hour.toNat minute.toNat second.toNat

example : unixSecondsToIso8601 1709210096 = some "2024-02-29T12:34:56Z" := by decide +kernel

/-- The time of a second. -/
def timeOf (seconds : ℕ) : Time where
  date := civilDate (seconds / 86400 : ℕ)
  hour := seconds % 86400 / 3600
  minute := seconds % 86400 % 3600 / 60
  second := seconds % 86400 % 60

theorem timeOf_valid (seconds : ℕ) : (timeOf seconds).Valid where
  date := (civilDate_spec _).1
  hour := by
    dsimp only [timeOf]
    omega
  minute := by
    dsimp only [timeOf]
    omega
  second := by
    dsimp only [timeOf]
    omega

theorem secondCount_timeOf (seconds : ℕ) : (timeOf seconds).secondCount = seconds := by
  have hdays := (civilDate_spec (seconds / 86400 : ℕ)).2
  dsimp only [Time.secondCount, timeOf]
  rw [hdays]
  omega

/-- **The text of a second is that of its time.** -/
theorem unixSecondsToIso8601_eq {seconds : UInt64}
    (hyear : (timeOf seconds.toNat).date.year < 2 ^ 31) :
    unixSecondsToIso8601 seconds = some (isoText (timeOf seconds.toNat).date.year
      (timeOf seconds.toNat).date.month (timeOf seconds.toNat).date.day (timeOf seconds.toNat).hour
      (timeOf seconds.toNat).minute (timeOf seconds.toNat).second) := by
  have hlt := seconds.toNat_lt
  have hdays : (seconds / 86400).toNat = seconds.toNat / 86400 := by
    rw [UInt64.toNat_div]
    rfl
  obtain ⟨hvalid, hcount⟩ := civilDate_spec (seconds.toNat / 86400 : ℕ)
  have hdate := civilFromDaysWith_of_date (fun _ => asI32_eq) hvalid
    (by rw [hcount]; omega) hyear
  rw [hcount] at hdate
  rw [unixSecondsToIso8601, asI64_eq (by omega), hdays, SdkCodex.civilFromDays, hdate,
    Option.bind_eq_bind, Option.bind_some]
  simp only [UInt64.toNat_div, UInt64.toNat_mod]
  rfl

/-- **The calendar conversion.**  A day from 1970 on is the day of one date.  If the year of the
date fits an `i32`, every copy of `civil_from_days` returns the date, and no step of it overflows.  The
times that `unix_seconds_to_iso8601` writes for such days come one after the other, as the seconds
do. -/
theorem civilFromDays_exact :
    (∀ daysSinceEpoch : ℤ, 0 ≤ daysSinceEpoch →
      ∃ date : Date, (date.Valid ∧ date.dayCount = daysSinceEpoch) ∧
        (∀ other : Date, other.Valid → other.dayCount = daysSinceEpoch → other = date) ∧
        (date.year < 2 ^ 31 →
          ExternalCommand.civilFromDays daysSinceEpoch = some (date.year, date.month, date.day) ∧
          SdkLog.civilFromDays daysSinceEpoch = some (date.year, date.month, date.day) ∧
          SdkGit.civilFromDays daysSinceEpoch = some (date.year, date.month, date.day) ∧
          SdkCodex.civilFromDays daysSinceEpoch = some (date.year, date.month, date.day))) ∧
    ∀ (earlier later : UInt64) (date : Date), earlier < later → date.Valid →
      date.dayCount = (later.toNat / 86400 : ℕ) → date.year < 2 ^ 31 →
      ∃ a b : Time, a.Valid ∧ a.secondCount = earlier.toNat ∧ b.Valid ∧
        b.secondCount = later.toNat ∧ a.Before b ∧
        unixSecondsToIso8601 earlier =
          some (isoText a.date.year a.date.month a.date.day a.hour a.minute a.second) ∧
        unixSecondsToIso8601 later =
          some (isoText b.date.year b.date.month b.date.day b.hour b.minute b.second) := by
  refine ⟨fun daysSinceEpoch hpos => ?_, fun earlier later date hlt hvalid hcount hyear => ?_⟩
  · obtain ⟨hvalid, hcount⟩ := civilDate_spec daysSinceEpoch
    have hpos' : 0 ≤ (civilDate daysSinceEpoch).dayCount := by rwa [hcount]
    refine ⟨_, ⟨hvalid, hcount⟩, fun other hother hsame => ?_, fun hyear => ?_⟩
    · exact dayCount_inj hother hvalid (hsame.trans hcount.symm)
    · have hwide := civilFromDaysWith_of_date (fun _ _ => rfl) hvalid
        hpos' hyear
      have hnarrow := civilFromDaysWith_of_date (fun _ => asI32_eq) hvalid hpos' hyear
      rw [hcount] at hwide hnarrow
      exact ⟨hwide, hwide, hnarrow, hnarrow⟩
  · have hseconds : (earlier.toNat : ℤ) < later.toNat :=
      Int.ofNat_lt.2 (UInt64.lt_iff_toNat_lt.1 hlt)
    have hbefore : (timeOf earlier.toNat).Before (timeOf later.toNat) := by
      rw [← secondCount_lt_iff (timeOf_valid _) (timeOf_valid _), secondCount_timeOf,
        secondCount_timeOf]
      exact hseconds
    have hdate : (timeOf later.toNat).date = date :=
      dayCount_inj (timeOf_valid _).date hvalid ((civilDate_spec _).2.trans hcount.symm)
    have hyears : (timeOf earlier.toNat).date.year ≤ (timeOf later.toNat).date.year := by
      rcases hbefore with (hlt | ⟨heq, -⟩) | ⟨heq, -⟩
      · exact hlt.le
      · exact heq.le
      · rw [heq]
    rw [← hdate] at hyear
    exact ⟨_, _, timeOf_valid _, secondCount_timeOf _, timeOf_valid _, secondCount_timeOf _,
      hbefore, unixSecondsToIso8601_eq (hyears.trans_lt hyear), unixSecondsToIso8601_eq hyear⟩

theorem civilFromDays_exact_leapDay :
    SdkGit.civilFromDays 19782 = some (2024, 2, 29) ∧
      ∃ a b : Time, a.Before b ∧ a.secondCount = 1709251199 ∧ b.secondCount = 1709251200 := by
  obtain ⟨date, ⟨hvalid, hcount⟩, -, hcopies⟩ := civilFromDays_exact.1 19782 (by decide)
  have hdate : date = ⟨2024, 2, 29⟩ :=
    dayCount_inj hvalid ⟨by decide, by decide⟩ (hcount.trans (by decide))
  subst hdate
  obtain ⟨a, b, -, ha, -, hb, hbefore, -⟩ := civilFromDays_exact.2 1709251199 1709251200
    ⟨2024, 3, 1⟩ (by decide) ⟨by decide, by decide⟩ (by decide) (by decide)
  exact ⟨(hcopies (by decide)).2.2.1, a, b, hbefore, ha, hb⟩

end Fkst.Clock
