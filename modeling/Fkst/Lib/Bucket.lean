import Mathlib.Algebra.Order.Group.Nat
import Mathlib.Data.List.Count
import Mathlib.Tactic.Ring

/-!
# Token buckets

A bucket holds at most `cap` and is filled at a constant `rate`.  What it holds after a while does not
depend on how often one has looked at it in between (`fill_fill`).

`Within` is the account of what has been taken out, and it bounds every window of time: what was taken
out after `s` and up to `t` is at most what the bucket can hold and what has run in since `s`
(`Within.window`).  Taking a `price` out of a bucket that has it keeps the account (`Within.draw`).
-/

set_option autoImplicit false

namespace Lib.Bucket

variable {cap rate price : ℕ}

/-- What a bucket holds after some time. -/
def fill (cap rate elapsed level : ℕ) : ℕ := min cap (level + rate * elapsed)

theorem fill_le (elapsed level : ℕ) : fill cap rate elapsed level ≤ cap := min_le_left _ _

theorem fill_zero {level : ℕ} (h : level ≤ cap) : fill cap rate 0 level = level := by
  rw [fill, Nat.mul_zero, Nat.add_zero]
  exact min_eq_right h

/-- **Looking does not matter.** -/
theorem fill_fill (d₁ d₂ level : ℕ) :
    fill cap rate d₂ (fill cap rate d₁ level) = fill cap rate (d₁ + d₂) level := by
  have hadd : level + rate * (d₁ + d₂) = level + rate * d₁ + rate * d₂ := by ring
  rw [fill, fill, fill, hadd]
  rcases Nat.le_total cap (level + rate * d₁) with hle | hle
  · rw [min_eq_left hle, min_eq_left (Nat.le_add_right _ _),
      min_eq_left (hle.trans (Nat.le_add_right _ _))]
  · rw [min_eq_right hle]

/-- How many of the times are after `s` and not after `t`. -/
def countIn (s t : ℕ) (times : List ℕ) : ℕ := times.countP fun x => s < x && x ≤ t

theorem countIn_concat (s t x : ℕ) (times : List ℕ) :
    countIn s t (times ++ [x]) = countIn s t times + if s < x ∧ x ≤ t then 1 else 0 := by
  simp [countIn, List.countP_append, List.countP_singleton]

/-- The account of a bucket that held `level` when it was filled last, at `time`: what has been taken
out in a window is bounded, and what has been taken out since some time and what is left as well. -/
structure Within (cap rate price level time : ℕ) (taken : List ℕ) : Prop where
  level_le : level ≤ cap
  past : ∀ x ∈ taken, x ≤ time
  window : ∀ s t, s ≤ t → countIn s t taken * price ≤ cap + rate * (t - s)
  since : ∀ s, s ≤ time → countIn s time taken * price + level ≤ cap + rate * (time - s)

theorem within_nil {level time : ℕ} (h : level ≤ cap) : Within cap rate price level time [] where
  level_le := h
  past := by simp
  window := by simp [countIn]
  since s _ := by
    simp only [countIn, List.countP_nil, Nat.zero_mul, Nat.zero_add]
    exact h.trans (Nat.le_add_right _ _)

namespace Within

variable {level time now : ℕ} {taken : List ℕ}

theorem countIn_eq (h : Within cap rate price level time taken) (s : ℕ) {t : ℕ} (ht : time ≤ t) :
    countIn s t taken = countIn s time taken := by
  refine List.countP_congr fun x hx => ?_
  have := h.past x hx
  simp only [Bool.and_eq_true, decide_eq_true_eq]
  omega

theorem countIn_eq_zero (h : Within cap rate price level time taken) {s : ℕ} (hs : time ≤ s) (t : ℕ) :
    countIn s t taken = 0 := by
  rw [countIn, List.countP_eq_zero]
  intro x hx
  have := h.past x hx
  simp only [Bool.and_eq_true, decide_eq_true_eq]
  omega

/-- Time passes. -/
theorem fill (h : Within cap rate price level time taken) (hnow : time ≤ now) :
    Within cap rate price (fill cap rate (now - time) level) now taken where
  level_le := fill_le _ _
  past x hx := (h.past x hx).trans hnow
  window := h.window
  since s hs := by
    rw [h.countIn_eq s hnow]
    rcases Nat.le_total s time with hle | hle
    · have hadd : rate * (now - s) = rate * (time - s) + rate * (now - time) := by
        rw [← Nat.mul_add]
        congr 1
        omega
      have hfill : Bucket.fill cap rate (now - time) level ≤ level + rate * (now - time) :=
        min_le_right _ _
      have := h.since s hle
      omega
    · rw [← h.countIn_eq s (Nat.le_refl time), h.countIn_eq_zero hle, Nat.zero_mul, Nat.zero_add]
      exact (fill_le _ _).trans (Nat.le_add_right _ _)

/-- Something is taken out at the time the bucket was filled. -/
theorem draw (h : Within cap rate price level time taken) (hprice : price ≤ level) :
    Within cap rate price (level - price) time (taken ++ [time]) where
  level_le := (Nat.sub_le _ _).trans h.level_le
  past x hx := by
    rcases List.mem_append.1 hx with hx | hx
    · exact h.past x hx
    · exact Nat.le_of_eq (List.mem_singleton.1 hx)
  window s t hst := by
    rw [countIn_concat]
    split
    · rename_i hin
      have hsince := h.since s (Nat.le_of_lt hin.1)
      have hmono : rate * (time - s) ≤ rate * (t - s) :=
        Nat.mul_le_mul_left rate (Nat.sub_le_sub_right hin.2 s)
      rw [h.countIn_eq s hin.2, Nat.add_mul, Nat.one_mul]
      omega
    · rw [Nat.add_zero]
      exact h.window s t hst
  since s hs := by
    have hsince := h.since s hs
    rw [countIn_concat, Nat.add_mul]
    split <;> omega

/-- Something is thrown away. -/
theorem spill (h : Within cap rate price level time taken) (lost : ℕ) :
    Within cap rate price (level - lost) time taken where
  level_le := (Nat.sub_le _ _).trans h.level_le
  past := h.past
  window := h.window
  since s hs := by
    have := h.since s hs
    omega

end Within

end Lib.Bucket
