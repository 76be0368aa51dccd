import Mathlib.Algebra.Order.Field.Power
import Mathlib.Algebra.Order.Field.Rat
import Mathlib.Tactic.NormNum
import Mathlib.Tactic.Ring

/-!
# Coefficient and power of ten

A positive number as a coefficient times a power of ten. Where its first digit stands follows
from the length of the coefficient, and without trailing zeros the pair is the shortest one.
-/
namespace OiTerminal.Lib.Scientific

set_option autoImplicit false

def value (m : Nat) (k : Int) : ℚ := m * 10 ^ k

/-- The power of ten just above the number. -/
def point (m : Nat) (k : Int) : Int := (Nat.toDigits 10 m).length + k

section

variable {m m' : Nat} {k e : Int}

theorem value_pos (hm : 0 < m) : 0 < value m k :=
  mul_pos (Nat.cast_pos.mpr hm) (zpow_pos (by decide) k)

theorem value_nonneg : 0 ≤ value m k := mul_nonneg m.cast_nonneg (zpow_nonneg (by decide) k)

@[simp] theorem value_zero (k : Int) : value 0 k = 0 := by
  unfold value
  rw [Nat.cast_zero, zero_mul]

/-- Powers of ten move into the coefficient. -/
theorem value_add (m : Nat) (k : Int) (n : Nat) : value m (k + n) = value (m * 10 ^ n) k := by
  unfold value
  rw [zpow_add₀ (by decide), zpow_natCast]
  push_cast
  ring

theorem value_inj : value m k = value m' k ↔ m = m' := by
  unfold value
  rw [mul_left_inj' (zpow_ne_zero k (by decide)), Nat.cast_inj]

theorem lt_pow_point : value m k < 10 ^ point m k := by
  have hdigits : m < 10 ^ (Nat.toDigits 10 m).length :=
    (Nat.length_toDigits_le_iff (by decide) Nat.length_toDigits_pos).mp (le_refl _)
  unfold point value
  rw [zpow_add₀ (by decide), zpow_natCast]
  exact mul_lt_mul_of_pos_right (by exact_mod_cast hdigits) (zpow_pos (by decide) k)

theorem pow_le_value (hm : 0 < m) : (10 : ℚ) ^ (point m k - 1) ≤ value m k := by
  have hdigits : 10 ^ ((Nat.toDigits 10 m).length - 1) ≤ m := by
    by_contra hlt
    have hlength : 0 < (Nat.toDigits 10 m).length - 1 := by
      by_contra hone
      rw [Nat.eq_zero_of_not_pos hone] at hlt
      exact hlt hm
    have hle := (Nat.length_toDigits_le_iff (by decide) hlength).mpr (not_le.mp hlt)
    omega
  have hpos : 0 < (Nat.toDigits 10 m).length := Nat.length_toDigits_pos
  have hpoint : point m k - 1 = ((Nat.toDigits 10 m).length - 1 : Nat) + k := by
    unfold point
    omega
  unfold value
  rw [hpoint, zpow_add₀ (by decide), zpow_natCast]
  exact mul_le_mul_of_nonneg_right (by exact_mod_cast hdigits) (zpow_nonneg (by decide) k)

/-- A number reaches the powers of ten below its point. -/
theorem pow_le_value_iff (hm : 0 < m) (j : Int) : (10 : ℚ) ^ j ≤ value m k ↔ j < point m k := by
  constructor
  · intro h
    exact (zpow_lt_zpow_iff_right₀ (by norm_num : (1 : ℚ) < 10)).mp (h.trans_lt lt_pow_point)
  · intro h
    exact (zpow_le_zpow_right₀ (by norm_num) (Int.le_sub_one_of_lt h)).trans (pow_le_value hm)

theorem value_lt_pow_iff (hm : 0 < m) (j : Int) : value m k < (10 : ℚ) ^ j ↔ point m k ≤ j := by
  rw [← not_le, pow_le_value_iff hm, not_lt]

/-- A coefficient that ends in no zero goes with the largest exponent. -/
theorem exponent_le (hm : ¬ 10 ∣ m) (h : value m k = value m' e) : e ≤ k := by
  by_contra hlt
  obtain ⟨n, rfl⟩ := Int.le.dest (not_le.mp hlt).le
  have hn : n ≠ 0 := by
    rintro rfl
    exact hlt (by rw [Nat.cast_zero, add_zero])
  rw [value_add, value_inj] at h
  exact hm (h ▸ Dvd.dvd.mul_left (dvd_pow_self 10 hn) m')

theorem coefficient_le (hm : ¬ 10 ∣ m) (h : value m k = value m' e) : m ≤ m' := by
  obtain ⟨n, rfl⟩ := Int.le.dest (exponent_le hm h)
  rw [value_add, value_inj] at h
  rw [← h]
  exact Nat.le_mul_of_pos_right m (Nat.pow_pos (by decide))

end

/-- Trailing zeros of the coefficient go to the exponent, as many as there is fuel. -/
def stripFuel : Nat → Nat → Int → Nat × Int
  | 0, m, k => (m, k)
  | fuel + 1, m, k => if m % 10 = 0 then stripFuel fuel (m / 10) (k + 1) else (m, k)

/-- The shortest pair for a number, and (0, 0) for zero. -/
def strip (m : Nat) (k : Int) : Nat × Int := if m = 0 then (0, 0) else stripFuel m m k

theorem value_stripFuel (fuel m : Nat) (k : Int) :
    value (stripFuel fuel m k).1 (stripFuel fuel m k).2 = value m k := by
  induction fuel generalizing m k with
  | zero => rfl
  | succ fuel ih =>
    unfold stripFuel
    split
    · rename_i hzero
      have hm : m / 10 * 10 ^ 1 = m := by omega
      rw [ih, ← hm, ← value_add]
      simp
    · rfl

theorem value_strip (m : Nat) (k : Int) : value (strip m k).1 (strip m k).2 = value m k := by
  unfold strip
  split
  · rename_i hzero
    rw [hzero, value_zero, value_zero]
  · exact value_stripFuel m m k

theorem not_dvd_stripFuel {fuel m : Nat} (hm : 0 < m) (hfuel : m ≤ fuel) (k : Int) :
    ¬ 10 ∣ (stripFuel fuel m k).1 := by
  induction fuel generalizing m k with
  | zero => omega
  | succ fuel ih =>
    unfold stripFuel
    split
    · exact ih (by omega) (by omega) (k + 1)
    · rename_i hrest
      exact fun hdvd => hrest (Nat.mod_eq_zero_of_dvd hdvd)

theorem not_dvd_strip {m : Nat} (hm : 0 < m) (k : Int) : ¬ 10 ∣ (strip m k).1 := by
  unfold strip
  rw [if_neg hm.ne']
  exact not_dvd_stripFuel hm (le_refl m) k

end OiTerminal.Lib.Scientific
