import Mathlib

/-!
# Times in whole microseconds

A timestamp column holds whole microseconds since the epoch. A time is an exact rational number of
seconds, and goes into a column rounded down (`micros`); `ofMicros` is the time that a column holds.
The two form a Galois connection, so the stored time is the latest one on the grid that is not after
the given one, and rounding keeps every order between times (`floorMicros_mono`).

`rint` is the rounding of a floating-point product to whole microseconds, with ties to even.
-/

namespace RickIntelligence.Lib

/-- The whole microseconds of a time, rounded down. -/
def micros (t : ℚ) : ℤ := ⌊t * 1000000⌋

/-- The time of a number of microseconds. -/
def ofMicros (m : ℤ) : ℚ := m / 1000000

/-- A time rounded down to whole microseconds. -/
def floorMicros (t : ℚ) : ℚ := ofMicros (micros t)

/-- Rounding down finds the latest column value that is not after a time. -/
theorem ofMicros_le_iff {m : ℤ} {t : ℚ} : ofMicros m ≤ t ↔ m ≤ micros t := by
  unfold ofMicros micros
  rw [Int.le_floor, div_le_iff₀ (by norm_num)]

/-- Column values and their times are in the same order. -/
theorem ofMicros_le_ofMicros {m n : ℤ} : ofMicros m ≤ ofMicros n ↔ m ≤ n := by
  unfold ofMicros
  rw [div_le_div_iff_of_pos_right (by norm_num), Int.cast_le]

/-- A column holds its own time. -/
@[simp]
theorem micros_ofMicros (m : ℤ) : micros (ofMicros m) = m := by
  unfold micros ofMicros
  rw [div_mul_cancel₀ _ (by norm_num), Int.floor_intCast]

/-- A time on the grid is not changed by rounding. -/
@[simp]
theorem floorMicros_ofMicros (m : ℤ) : floorMicros (ofMicros m) = ofMicros m := by
  rw [floorMicros, micros_ofMicros]

/-- A rounded time is not after the time. -/
theorem floorMicros_le (t : ℚ) : floorMicros t ≤ t := ofMicros_le_iff.mpr le_rfl

/-- Rounding down keeps the order of column values. -/
theorem micros_mono {t u : ℚ} (h : t ≤ u) : micros t ≤ micros u :=
  ofMicros_le_iff.mp (le_trans (floorMicros_le t) h)

/-- Rounding down keeps the order of times. -/
theorem floorMicros_mono {t u : ℚ} (h : t ≤ u) : floorMicros t ≤ floorMicros u :=
  ofMicros_le_ofMicros.mpr (micros_mono h)

/-- A time is not negative exactly when its column value is not. -/
theorem ofMicros_nonneg {m : ℤ} : 0 ≤ ofMicros m ↔ 0 ≤ m := by
  have h : ofMicros 0 = 0 := by simp [ofMicros]
  rw [← h, ofMicros_le_ofMicros]

/-- The epoch is on the grid: a time that is not before it is not rounded to before it. -/
theorem micros_nonneg {t : ℚ} (h : 0 ≤ t) : 0 ≤ micros t := by
  rw [← ofMicros_le_iff]
  simpa [ofMicros] using h

/-- A time that is not before the epoch is not rounded to before it. -/
theorem floorMicros_nonneg {t : ℚ} (h : 0 ≤ t) : 0 ≤ floorMicros t :=
  ofMicros_nonneg.mpr (micros_nonneg h)

/-! ## Rounding to the nearest microsecond -/

/-- `rint`: the nearest whole number, and the even one of two that are as near. -/
def rint (x : ℚ) : ℤ :=
  if 2 * Int.fract x < 1 ∨ (2 * Int.fract x = 1 ∧ Even ⌊x⌋) then ⌊x⌋ else ⌊x⌋ + 1

/-- The microseconds of an interval of some seconds. -/
def interval (seconds : ℚ) : ℤ := rint (seconds * 1000000)

/-- A number is rounded to a whole number next to it. -/
theorem floor_le_rint (x : ℚ) : ⌊x⌋ ≤ rint x ∧ rint x ≤ ⌊x⌋ + 1 := by
  unfold rint
  split_ifs <;> omega

/-- A whole number is not rounded. -/
@[simp]
theorem rint_intCast (m : ℤ) : rint m = m := by simp [rint]

/-- Rounding keeps the order of numbers. -/
theorem rint_mono {x y : ℚ} (h : x ≤ y) : rint x ≤ rint y := by
  have hx := floor_le_rint x
  have hy := floor_le_rint y
  rcases lt_or_eq_of_le (Int.floor_mono h) with hlt | heq
  · omega
  · -- With the same floor the fractions are in order, and a tie is broken the same way for both.
    have hfract : Int.fract x ≤ Int.fract y := by
      unfold Int.fract
      rw [heq]
      linarith
    unfold rint
    rw [heq]
    by_cases h1 : 2 * Int.fract x < 1 ∨ (2 * Int.fract x = 1 ∧ Even ⌊y⌋)
    · rw [if_pos h1]
      split_ifs <;> omega
    · rw [if_neg h1, if_neg]
      push Not at h1 ⊢
      refine ⟨by linarith [h1.1], fun htie => h1.2 ?_⟩
      linarith [h1.1]

/-- An interval of a tenth of a second or more is positive. -/
theorem interval_pos {seconds : ℚ} (h : 1 / 10 ≤ seconds) : 0 < interval seconds := by
  have hle : ((100000 : ℤ) : ℚ) ≤ seconds * 1000000 := by
    push_cast
    linarith
  have hrint := rint_mono hle
  rw [rint_intCast] at hrint
  unfold interval
  omega

end RickIntelligence.Lib
