import Mathlib.Algebra.Order.Field.Rat
import Mathlib.Data.Int.Log
import Mathlib.Data.Rat.Floor
import Mathlib.Tactic.Linarith
import Mathlib.Tactic.Ring

/-!
# Rounding to the nearest number, a tie to the even one

First a fraction is rounded to a whole number, then a rational to the 24 binary digits of a single
precision number. The exponent of such a number has no bounds here, so nothing under- or overflows.
-/
namespace OiTerminal.Lib.Rounding

set_option autoImplicit false

/-- `n / d`, rounded to a whole number. -/
def nearestEven (n d : ℕ) : ℕ :=
  if d < 2 * (n % d) ∨ d = 2 * (n % d) ∧ n / d % 2 = 1 then n / d + 1 else n / d

theorem div_le_nearestEven (n d : ℕ) : n / d ≤ nearestEven n d := by
  unfold nearestEven
  split <;> omega

theorem nearestEven_le (n d : ℕ) : nearestEven n d ≤ n / d + 1 := by
  unfold nearestEven
  split <;> omega

@[simp]
theorem nearestEven_one (n : ℕ) : nearestEven n 1 = n := by
  unfold nearestEven
  rw [Nat.mod_one, Nat.div_one]
  exact if_neg (by omega)

/-- The distance to the fraction is at most one half. -/
theorem nearestEven_error {n d : ℕ} (hd : 0 < d) :
    2 * n ≤ 2 * (d * nearestEven n d) + d ∧ 2 * (d * nearestEven n d) ≤ 2 * n + d := by
  have hdiv : d * (n / d) + n % d = n := Nat.div_add_mod n d
  have hmod : n % d < d := Nat.mod_lt n hd
  unfold nearestEven
  split
  case isTrue hup =>
    rw [Nat.mul_add, Nat.mul_one]
    omega
  case isFalse hdown => omega

/-- Of two fractions the greater one is rounded to the greater number. -/
theorem nearestEven_mono {n d n' d' : ℕ} (hd : 0 < d) (hd' : 0 < d') (h : n * d' ≤ n' * d) :
    nearestEven n d ≤ nearestEven n' d' := by
  have hquotient : n / d ≤ n' / d' := by
    rw [Nat.le_div_iff_mul_le hd']
    refine Nat.le_of_mul_le_mul_right ?_ hd
    calc n / d * d' * d = n / d * d * d' := Nat.mul_right_comm _ _ _
      _ ≤ n * d' := Nat.mul_le_mul_right d' (Nat.div_mul_le_self n d)
      _ ≤ n' * d := h
  rcases hquotient.lt_or_eq with hlt | heq
  · exact ((nearestEven_le n d).trans hlt).trans (div_le_nearestEven n' d')
  -- with the same whole part the remainders decide
  have hdiv : n / d * d + n % d = n := Nat.div_add_mod' n d
  have hdiv' : n' / d' * d' + n' % d' = n' := Nat.div_add_mod' n' d'
  have hrest : n % d * d' ≤ n' % d' * d := by
    rw [← hdiv, ← hdiv', heq] at h
    have hsame : n' / d' * d * d' = n' / d' * d' * d := Nat.mul_right_comm _ _ _
    rw [Nat.add_mul, Nat.add_mul, hsame] at h
    exact Nat.le_of_add_le_add_left h
  unfold nearestEven
  rw [← heq]
  split
  case isFalse => split <;> omega
  case isTrue hup =>
    rw [if_pos]
    rcases hup with hmore | ⟨htie, hodd⟩
    · refine .inl (Nat.lt_of_mul_lt_mul_right (a := d) ?_)
      nlinarith
    · have hhalf : d' ≤ 2 * (n' % d') := by
        refine Nat.le_of_mul_le_mul_right ?_ hd
        nlinarith
      rcases hhalf.lt_or_eq with hlt | htie'
      · exact .inl hlt
      · exact .inr ⟨htie', hodd⟩

/-! ## Single precision -/

/-- A rational that is not negative, rounded to a whole number. -/
def nearest (x : ℚ) : ℕ := nearestEven x.num.toNat x.den

/-- The distance of the single precision numbers around `x`. -/
def ulp (x : ℚ) : ℚ := 2 ^ (Int.log 2 x - 23)

/-- The single precision number that is nearest to a rational, which is not negative. -/
def toBinary32 (x : ℚ) : ℚ := nearest (x / ulp x) * ulp x

variable {x y : ℚ}

theorem ulp_pos (x : ℚ) : 0 < ulp x := zpow_pos (by decide) _

theorem num_toNat (hx : 0 ≤ x) : ((x.num.toNat : ℕ) : ℤ) = x.num :=
  Int.toNat_of_nonneg (Rat.num_nonneg.mpr hx)

theorem nearest_mono (hx : 0 ≤ x) (h : x ≤ y) : nearest x ≤ nearest y := by
  refine nearestEven_mono x.den_pos y.den_pos ?_
  have hcross : x.num * y.den ≤ y.num * x.den := (Rat.le_iff x y).mp h
  rw [← num_toNat hx, ← num_toNat (hx.trans h)] at hcross
  exact_mod_cast hcross

@[simp]
theorem nearest_natCast (n : ℕ) : nearest (n : ℚ) = n := by
  unfold nearest
  rw [Rat.num_natCast, Rat.den_natCast, Int.toNat_natCast, nearestEven_one]

theorem nearest_error (hx : 0 ≤ x) : x ≤ nearest x + 1 / 2 ∧ (nearest x : ℚ) ≤ x + 1 / 2 := by
  have hden : (0 : ℚ) < x.den := by exact_mod_cast x.den_pos
  obtain ⟨hlow, hhigh⟩ := nearestEven_error (n := x.num.toNat) x.den_pos
  have hnum : ((x.num.toNat : ℕ) : ℚ) = x * x.den := by
    have hcast : ((x.num.toNat : ℕ) : ℚ) = ((x.num.toNat : ℤ) : ℚ) := rfl
    rw [hcast, num_toNat hx, Rat.mul_den_eq_num]
  have hlow' : 2 * (x * x.den) ≤ 2 * (x.den * nearest x) + x.den := by
    rw [← hnum]
    exact_mod_cast hlow
  have hhigh' : 2 * (x.den * nearest x) ≤ 2 * (x * x.den) + x.den := by
    rw [← hnum]
    exact_mod_cast hhigh
  constructor <;> nlinarith

/-- A positive number has 24 binary digits before the point, in units of its last place. -/
theorem div_ulp_bounds (hx : 0 < x) : 2 ^ 23 ≤ x / ulp x ∧ x / ulp x < 2 ^ 24 := by
  have hlow : (2 : ℚ) ^ Int.log 2 x ≤ x := by exact_mod_cast Int.zpow_log_le_self (by decide) hx
  have hhigh : x < (2 : ℚ) ^ (Int.log 2 x + 1) := by
    exact_mod_cast Int.lt_zpow_succ_log_self (b := 2) (by decide) x
  have hsplit : ∀ k : ℤ, (2 : ℚ) ^ (Int.log 2 x + k) = 2 ^ (k + 23) * ulp x := by
    intro k
    unfold ulp
    rw [← zpow_add₀ (by decide)]
    congr 1
    ring
  constructor
  · rw [le_div_iff₀ (ulp_pos x)]
    have h := hsplit 0
    rw [add_zero, zero_add] at h
    exact_mod_cast h ▸ hlow
  · rw [div_lt_iff₀ (ulp_pos x)]
    have h := hsplit 1
    exact_mod_cast h ▸ hhigh

theorem toBinary32_nonneg (x : ℚ) : 0 ≤ toBinary32 x :=
  mul_nonneg (Nat.cast_nonneg _) (ulp_pos x).le

@[simp]
theorem toBinary32_zero : toBinary32 0 = 0 := by
  have hnearest : nearest (0 / ulp 0) = 0 := by
    rw [zero_div]
    exact nearest_natCast 0
  unfold toBinary32
  rw [hnearest, Nat.cast_zero, zero_mul]

theorem toBinary32_mono (hx : 0 ≤ x) (h : x ≤ y) : toBinary32 x ≤ toBinary32 y := by
  rcases hx.lt_or_eq with hpos | rfl
  case inr =>
    rw [toBinary32_zero]
    exact toBinary32_nonneg y
  case inl =>
    have hlog : Int.log 2 x ≤ Int.log 2 y := Int.log_mono_right hpos h
    rcases hlog.lt_or_eq with hlt | heq
    · -- a power of two lies between them
      have hbelow : nearest (x / ulp x) ≤ 2 ^ 24 := by
        have hle := nearest_mono (y := ((2 ^ 24 : ℕ) : ℚ)) (div_nonneg hx (ulp_pos x).le)
          (by exact_mod_cast (div_ulp_bounds hpos).2.le)
        rwa [nearest_natCast] at hle
      have habove : 2 ^ 23 ≤ nearest (y / ulp y) := by
        have hle := nearest_mono (x := ((2 ^ 23 : ℕ) : ℚ)) (Nat.cast_nonneg _)
          (by exact_mod_cast (div_ulp_bounds (hpos.trans_le h)).1)
        rwa [nearest_natCast] at hle
      have hulp : 2 * ulp x ≤ ulp y := by
        unfold ulp
        rw [← zpow_one_add₀ (by decide)]
        exact zpow_le_zpow_right₀ (by decide) (by omega)
      have hbelow' : (nearest (x / ulp x) : ℚ) ≤ 2 ^ 24 := by exact_mod_cast hbelow
      have habove' : (2 : ℚ) ^ 23 ≤ nearest (y / ulp y) := by exact_mod_cast habove
      calc toBinary32 x ≤ 2 ^ 24 * ulp x := mul_le_mul_of_nonneg_right hbelow' (ulp_pos x).le
        _ = 2 ^ 23 * (2 * ulp x) := by ring
        _ ≤ 2 ^ 23 * ulp y := mul_le_mul_of_nonneg_left hulp (by positivity)
        _ ≤ toBinary32 y := mul_le_mul_of_nonneg_right habove' (ulp_pos y).le
    · have hulp : ulp x = ulp y := by
        unfold ulp
        rw [heq]
      have hle : nearest (x / ulp x) ≤ nearest (y / ulp y) := by
        rw [← hulp]
        exact nearest_mono (div_nonneg hx (ulp_pos x).le)
          (div_le_div_of_nonneg_right h (ulp_pos x).le)
      unfold toBinary32
      rw [← hulp] at hle ⊢
      exact mul_le_mul_of_nonneg_right (by exact_mod_cast hle) (ulp_pos x).le

/-- The relative error is at most 2⁻²⁴. -/
theorem toBinary32_error (hx : 0 ≤ x) :
    x ≤ toBinary32 x + x / 2 ^ 24 ∧ toBinary32 x ≤ x + x / 2 ^ 24 := by
  rcases hx.lt_or_eq with hpos | rfl
  case inr => simp
  case inl =>
    have hulp := ulp_pos x
    obtain ⟨hlow, hhigh⟩ := nearest_error (div_nonneg hx hulp.le)
    have hscale : x / ulp x * ulp x = x := div_mul_cancel₀ x hulp.ne'
    have hlast : ulp x ≤ x / 2 ^ 23 := by
      rw [le_div_iff₀ (by positivity), mul_comm, ← le_div_iff₀ hulp]
      exact (div_ulp_bounds hpos).1
    have hhalf : x / 2 ^ 24 = x / 2 ^ 23 / 2 := by ring
    unfold toBinary32
    constructor <;> nlinarith

end OiTerminal.Lib.Rounding
