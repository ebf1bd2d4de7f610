import Mathlib.Algebra.BigOperators.Intervals
import Mathlib.Algebra.Order.BigOperators.Group.Finset
import Mathlib.Order.Interval.Finset.Nat
import Mathlib.Order.SuccPred.Basic
import Mathlib.Tactic.IntervalCases
import Mathlib.Tactic.Linarith
import Mathlib.Tactic.Ring

/-!
# The Gregorian calendar

Days are counted from 1970-01-01, by adding up the lengths of years and months.  A valid date is
determined by its count, and dates are in the order of their counts (`dayCount_lt`).

Programs count from a first of March instead, since the leap day is then the last day of a year, and
months have lengths that a division by five makes; `dayCount_eq` is this count.
-/

set_option autoImplicit false

namespace Lib.Calendar

/-! ## Dates -/

/-- A leap year. -/
def IsLeap (y : ℤ) : Prop := y % 4 = 0 ∧ (y % 100 ≠ 0 ∨ y % 400 = 0)

instance (y : ℤ) : Decidable (IsLeap y) := inferInstanceAs (Decidable (_ ∧ _))

/-- The days of a month. -/
def daysInMonth (y : ℤ) : ℕ → ℕ
  | 2 => if IsLeap y then 29 else 28
  | 4 | 6 | 9 | 11 => 30
  | _ => 31

/-- The days of a year. -/
def daysInYear (y : ℤ) : ℤ := if IsLeap y then 366 else 365

/-- A date. -/
structure Date where
  year : ℤ
  month : ℕ
  day : ℕ
deriving DecidableEq

/-- A date of the calendar. -/
structure Date.Valid (d : Date) : Prop where
  month : 1 ≤ d.month ∧ d.month ≤ 12
  day : 1 ≤ d.day ∧ d.day ≤ daysInMonth d.year d.month

/-- The order of dates. -/
def Date.Before (a b : Date) : Prop :=
  a.year < b.year ∨ a.year = b.year ∧ (a.month < b.month ∨ a.month = b.month ∧ a.day < b.day)

/-! ## Counting -/

/-- The days from the start of 1970 to the start of a year. -/
def daysBeforeYear (y : ℤ) : ℤ :=
  match y - 1970 with
  | .ofNat n => ∑ i ∈ Finset.range n, daysInYear (1970 + i)
  | .negSucc n => -∑ i ∈ Finset.range (n + 1), daysInYear (1969 - i)

/-- The days from the start of a year to the start of a month. -/
def daysBeforeMonth (y : ℤ) (m : ℕ) : ℤ := ∑ k ∈ Finset.Ico 1 m, (daysInMonth y k : ℤ)

/-- The days from 1970-01-01 to a date. -/
def Date.dayCount (d : Date) : ℤ :=
  daysBeforeYear d.year + daysBeforeMonth d.year d.month + (d.day - 1)

example : (⟨1970, 1, 1⟩ : Date).dayCount = 0 ∧ (⟨1972, 3, 1⟩ : Date).dayCount = 790 := by
  decide

/-- The leap years before a year, from the first one on. -/
def leapsBefore (y : ℤ) : ℤ := (y - 1) / 4 - (y - 1) / 100 + (y - 1) / 400

theorem daysInYear_eq (y : ℤ) : daysInYear y = 365 + (leapsBefore (y + 1) - leapsBefore y) := by
  rw [daysInYear, leapsBefore, leapsBefore]
  split_ifs with h <;> rw [IsLeap] at h <;> omega

theorem daysBeforeYear_eq (y : ℤ) :
    daysBeforeYear y = 365 * (y - 1970) + (leapsBefore y - 477) := by
  have hfuture : ∀ n : ℕ, ∑ i ∈ Finset.range n, daysInYear (1970 + i) =
      365 * n + (leapsBefore (1970 + n) - 477) := by
    intro n
    induction n with
    | zero => decide
    | succ n ih =>
      rw [Finset.sum_range_succ, ih, daysInYear_eq]
      push_cast
      rw [← add_assoc (1970 : ℤ)]
      ring
  have hpast : ∀ n : ℕ, ∑ i ∈ Finset.range n, daysInYear (1969 - i) =
      365 * n + (477 - leapsBefore (1970 - n)) := by
    intro n
    induction n with
    | zero => decide
    | succ n ih =>
      have hsub : (1969 : ℤ) - n + 1 = 1970 - n := by ring
      have hsub' : (1970 : ℤ) - (n + 1) = 1969 - n := by ring
      rw [Finset.sum_range_succ, ih, daysInYear_eq, hsub]
      push_cast
      rw [hsub']
      ring
  rw [daysBeforeYear]
  split
  · rename_i n hn
    have hy : y = 1970 + n := by
      rw [Int.ofNat_eq_natCast] at hn
      omega
    rw [hfuture, hy]
    ring
  · rename_i n hn
    have hy : y = 1970 - (n + 1 : ℕ) := by
      rw [Int.negSucc_eq] at hn
      push_cast
      omega
    rw [hpast, hy]
    ring

theorem daysBeforeYear_succ (y : ℤ) : daysBeforeYear (y + 1) = daysBeforeYear y + daysInYear y := by
  rw [daysBeforeYear_eq, daysBeforeYear_eq, daysInYear_eq]
  ring

theorem daysBeforeMonth_succ (y : ℤ) {m : ℕ} (hm : 1 ≤ m) :
    daysBeforeMonth y (m + 1) = daysBeforeMonth y m + daysInMonth y m :=
  Finset.sum_Ico_succ_top hm _

theorem daysBeforeMonth_le (y : ℤ) {m m' : ℕ} (h : m ≤ m') :
    daysBeforeMonth y m ≤ daysBeforeMonth y m' :=
  Finset.sum_le_sum_of_subset_of_nonneg (Finset.Ico_subset_Ico_right h)
    fun _ _ _ => Int.natCast_nonneg _

/-- The twelve months make up the year. -/
theorem daysBeforeMonth_thirteen (y : ℤ) : daysBeforeMonth y 13 = daysInYear y := by
  rw [daysBeforeMonth, daysInYear]
  simp only [Finset.sum_Ico_succ_top, Finset.Ico_self, Finset.sum_empty, Nat.one_le_ofNat, le_refl,
    daysInMonth]
  split_ifs <;> rfl

/-! ## The order of dates -/

theorem dayCount_lt_of_month {a b : Date} (ha : a.Valid) (hyear : a.year = b.year)
    (hmonth : a.month < b.month) :
    daysBeforeMonth a.year a.month + a.day ≤ daysBeforeMonth b.year b.month := by
  have hstep := daysBeforeMonth_succ a.year ha.month.1
  have hnext : a.month + 1 ≤ b.month := hmonth
  have hle := daysBeforeMonth_le b.year hnext
  have hday : (a.day : ℤ) ≤ daysInMonth a.year a.month := Int.ofNat_le.2 ha.day.2
  rw [← hyear] at hle ⊢
  omega

/-- A date is in its year. -/
theorem dayCount_bounds {a : Date} (ha : a.Valid) :
    daysBeforeYear a.year ≤ a.dayCount ∧ a.dayCount < daysBeforeYear (a.year + 1) := by
  have hstart := daysBeforeMonth_le a.year ha.month.1
  have hone : daysBeforeMonth a.year 1 = 0 := rfl
  have hend : daysBeforeMonth a.year a.month + a.day ≤ daysBeforeMonth a.year 13 :=
    dayCount_lt_of_month (b := ⟨a.year, 13, 1⟩) ha rfl (Nat.lt_succ_of_le ha.month.2)
  have hday : (1 : ℤ) ≤ a.day := Int.ofNat_le.2 ha.day.1
  rw [daysBeforeMonth_thirteen] at hend
  rw [daysBeforeYear_succ, Date.dayCount]
  omega

theorem daysBeforeYear_le {y y' : ℤ} (h : y ≤ y') : daysBeforeYear y ≤ daysBeforeYear y' := by
  induction y', h using Int.leInduction with
  | base => exact le_refl _
  | succ y' _ ih =>
    rw [daysBeforeYear_succ, daysInYear]
    split_ifs <;> omega

/-- **Dates are in the order of their counts.** -/
theorem dayCount_lt {a b : Date} (ha : a.Valid) (hb : b.Valid) (h : a.Before b) :
    a.dayCount < b.dayCount := by
  rcases h with hyear | ⟨hyear, hmonth | ⟨hmonth, hday⟩⟩
  · have hle := daysBeforeYear_le (Int.add_one_le_of_lt hyear)
    have hend := (dayCount_bounds ha).2
    have hstart := (dayCount_bounds hb).1
    omega
  · have hle := dayCount_lt_of_month ha hyear hmonth
    have hday : (1 : ℤ) ≤ b.day := Int.ofNat_le.2 hb.day.1
    rw [Date.dayCount, Date.dayCount, hyear]
    rw [hyear] at hle
    omega
  · rw [Date.dayCount, Date.dayCount, hyear, hmonth]
    omega

theorem before_trichotomy (a b : Date) : a.Before b ∨ a = b ∨ b.Before a := by
  obtain ⟨y, m, d⟩ := a
  obtain ⟨y', m', d'⟩ := b
  simp only [Date.Before, Date.mk.injEq]
  omega

theorem dayCount_lt_iff {a b : Date} (ha : a.Valid) (hb : b.Valid) :
    a.dayCount < b.dayCount ↔ a.Before b := by
  refine ⟨fun hlt => ?_, dayCount_lt ha hb⟩
  rcases before_trichotomy a b with h | rfl | h
  · exact h
  · exact absurd hlt (lt_irrefl _)
  · exact absurd (dayCount_lt hb ha h) (lt_asymm hlt)

/-- **A date is determined by its count.** -/
theorem dayCount_inj {a b : Date} (ha : a.Valid) (hb : b.Valid) (h : a.dayCount = b.dayCount) :
    a = b := by
  rcases before_trichotomy a b with hlt | rfl | hlt
  · exact absurd h (dayCount_lt ha hb hlt).ne
  · rfl
  · exact absurd h (dayCount_lt hb ha hlt).ne'

/-! ## Times -/

/-- A time of a day, to the second. -/
structure Time where
  date : Date
  hour : ℕ
  minute : ℕ
  second : ℕ
deriving DecidableEq

/-- A time of the calendar. -/
structure Time.Valid (t : Time) : Prop where
  date : t.date.Valid
  hour : t.hour < 24
  minute : t.minute < 60
  second : t.second < 60

/-- The order of times: year, month, day, hour, minute and second, the first that differs. -/
def Time.Before (a b : Time) : Prop :=
  a.date.Before b.date ∨ a.date = b.date ∧ (a.hour < b.hour ∨ a.hour = b.hour ∧
    (a.minute < b.minute ∨ a.minute = b.minute ∧ a.second < b.second))

/-- The seconds from the start of 1970 to a time. -/
def Time.secondCount (t : Time) : ℤ :=
  t.date.dayCount * 86400 + t.hour * 3600 + t.minute * 60 + t.second

/-- **Times are in the order of their counts.** -/
theorem secondCount_lt_iff {a b : Time} (ha : a.Valid) (hb : b.Valid) :
    a.secondCount < b.secondCount ↔ a.Before b := by
  obtain ⟨hadate, hahour, haminute, hasecond⟩ := ha
  obtain ⟨hbdate, hbhour, hbminute, hbsecond⟩ := hb
  have hdate := dayCount_lt_iff hadate hbdate
  rw [Time.secondCount, Time.secondCount, Time.Before, ← hdate]
  by_cases heq : a.date = b.date
  · simp only [heq, true_and]
    omega
  · have hne : a.date.dayCount ≠ b.date.dayCount := fun h => heq (dayCount_inj hadate hbdate h)
    simp only [heq, false_and, or_false]
    omega

/-! ## Counting from March -/

/-- The days before a year that starts in March, from the year 0 on. -/
def marchYears (y : ℤ) : ℤ := 365 * y + y / 4 - y / 100 + y / 400

/-- The lengths of the months from March on are those that a division by five makes. -/
theorem daysBeforeMonth_eq (y : ℤ) {m : ℕ} (hstart : 1 ≤ m) (hend : m ≤ 12) :
    daysBeforeMonth y m = (153 * ((m + 9) % 12 : ℕ) + 2) / 5 +
      (if m ≤ 2 then -306 else 59 + (leapsBefore (y + 1) - leapsBefore y)) := by
  have hlen : daysBeforeMonth y m = daysBeforeMonth (if IsLeap y then 4 else 1) m := by
    refine Finset.sum_congr rfl fun k _ => ?_
    by_cases h : IsLeap y
    · simp only [if_pos h, daysInMonth, if_pos (by decide : IsLeap 4)]
    · simp only [if_neg h, daysInMonth, if_neg (by decide : ¬IsLeap 1)]
  have hleaps : leapsBefore (y + 1) - leapsBefore y = if IsLeap y then 1 else 0 := by
    have hyear := daysInYear_eq y
    rw [daysInYear] at hyear
    split_ifs at hyear ⊢ <;> omega
  have hleap : ∀ m, m ≤ 12 → 1 ≤ m → daysBeforeMonth 4 m =
      (153 * ((m + 9) % 12 : ℕ) + 2) / 5 + (if m ≤ 2 then -306 else 59 + 1) := by
    decide
  have hcommon : ∀ m, m ≤ 12 → 1 ≤ m → daysBeforeMonth 1 m =
      (153 * ((m + 9) % 12 : ℕ) + 2) / 5 + (if m ≤ 2 then -306 else 59 + 0) := by
    decide
  rw [hlen, hleaps]
  by_cases h : IsLeap y
  · rw [if_pos h, if_pos h, hleap m hend hstart]
  · rw [if_neg h, if_neg h, hcommon m hend hstart]

/-- **The count from a first of March.** -/
theorem dayCount_eq {d : Date} (h : d.Valid) : d.dayCount =
    marchYears (if d.month ≤ 2 then d.year - 1 else d.year) +
      (153 * ((d.month + 9) % 12 : ℕ) + 2) / 5 + (d.day - 1) - 719468 := by
  rw [Date.dayCount, daysBeforeYear_eq, daysBeforeMonth_eq _ h.month.1 h.month.2]
  simp only [marchYears, leapsBefore]
  split_ifs <;> omega

/-- A month is as long as the division has it, and February is what is left of the year. -/
theorem daysInMonth_eq (y : ℤ) {m : ℕ} (hstart : 1 ≤ m) (hend : m ≤ 12) :
    (daysInMonth y m : ℤ) =
      (if m = 2 then marchYears y - marchYears (y - 1)
        else (153 * ((m + 9) % 12 + 1 : ℕ) + 2) / 5) -
        (153 * ((m + 9) % 12 : ℕ) + 2) / 5 := by
  by_cases hfeb : m = 2
  · rw [hfeb, if_pos rfl, daysInMonth, marchYears, marchYears]
    split_ifs with h <;> rw [IsLeap] at h <;> push_cast <;> omega
  · rw [if_neg hfeb]
    interval_cases m <;> first | rfl | exact absurd rfl hfeb

/-- An era of 400 years has the same days as every other. -/
theorem marchYears_add_era (y era : ℤ) :
    marchYears (y + era * 400) = marchYears y + era * 146097 := by
  rw [marchYears, marchYears]
  omega

/-- The days of an era before one of it, less the leap days. -/
def withoutLeapDays (doe : ℤ) : ℤ := doe - doe / 1460 + doe / 36524 - doe / 146096

theorem withoutLeapDays_mono {doe doe' : ℤ} (hpos : 0 ≤ doe) (h : doe ≤ doe')
    (hera : doe' < 146097) :
    withoutLeapDays doe ≤ withoutLeapDays doe' := by
  induction doe', h using Int.leInduction with
  | base => exact le_refl _
  | succ doe' hle ih =>
    refine le_trans (ih (by omega)) ?_
    rw [withoutLeapDays, withoutLeapDays]
    omega

theorem withoutLeapDays_marchYears : ∀ n : ℕ, n < 400 →
    365 * (n : ℤ) ≤ withoutLeapDays (marchYears n) ∧
      (0 < n → withoutLeapDays (marchYears n - 1) < 365 * (n : ℤ)) := by
  decide +kernel

/-- **The year of a day of an era.** -/
theorem yearOfEra {doe yoe : ℤ} (hpos : 0 ≤ doe) (hera : doe < 146097)
    (hyoe : yoe = withoutLeapDays doe / 365) :
    0 ≤ yoe ∧ yoe < 400 ∧ marchYears yoe ≤ doe ∧ doe < marchYears (yoe + 1) := by
  have hlow : withoutLeapDays 0 ≤ withoutLeapDays doe :=
    withoutLeapDays_mono (le_refl 0) hpos hera
  have hhigh : withoutLeapDays doe ≤ withoutLeapDays 146096 :=
    withoutLeapDays_mono hpos (by omega) (by omega)
  rw [show withoutLeapDays 0 = 0 from rfl] at hlow
  rw [show withoutLeapDays 146096 = 145999 from rfl] at hhigh
  obtain ⟨n, rfl⟩ : ∃ n : ℕ, yoe = n := Int.eq_ofNat_of_zero_le (by omega)
  have hn : n < 400 := by omega
  refine ⟨by omega, by omega, ?_, ?_⟩
  · -- before its year, too few days would be left
    by_contra hlt
    have hzero : marchYears 0 = 0 := rfl
    have hne : 0 < n := by
      rcases Nat.eq_zero_or_pos n with rfl | hne
      · rw [Nat.cast_zero, hzero] at hlt
        exact absurd hpos hlt
      · exact hne
    have hmono := withoutLeapDays_mono hpos (Int.le_sub_one_of_lt (not_le.1 hlt))
      (by rw [marchYears]; omega)
    have hbefore := (withoutLeapDays_marchYears n hn).2 hne
    omega
  · by_contra hge
    rcases Nat.lt_or_ge (n + 1) 400 with hlast | hlast
    · have hstart : 0 ≤ marchYears ((n + 1 : ℕ) : ℤ) := by
        rw [marchYears]
        omega
      have hmono := withoutLeapDays_mono hstart (by push_cast; exact not_lt.1 hge) hera
      have hyear := (withoutLeapDays_marchYears (n + 1) hlast).1
      push_cast at hyear hmono
      omega
    · have hall : marchYears 400 = 146097 := rfl
      have hn : ((n : ℤ) + 1) = 400 := by omega
      rw [hn, hall] at hge
      exact hge hera

end Lib.Calendar
