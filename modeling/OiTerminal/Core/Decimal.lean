import Mathlib.Algebra.Order.Ring.Int
import Mathlib.Tactic.Ring
import OiTerminal.Lib.Rounding

/-!
# Decimals and their multiplication

A decimal is a sign, a 96-bit magnitude and a scale of at most 28 digits. Reading a text and
multiplying give a zero without a sign, and nothing else makes decimals here. Their order
is the order of the numbers: every decimal is a whole number of 10⁻²⁸ units.
Multiplication belongs to another crate, so it is a parameter. What the code relies
on is the point at which the operator panics: the result is rounded to the digits that fit, and
even a whole number does not.
-/
namespace OiTerminal.Core

open OiTerminal.Lib.Rounding

set_option autoImplicit false

structure Decimal where
  negative : Bool
  mantissa : Nat
  scale : Nat
  mantissa_lt : mantissa < 2 ^ 96
  scale_le : scale ≤ 28
  zero_unsigned : mantissa = 0 → negative = false
  deriving DecidableEq, Repr

namespace Decimal

/-- The value in units of 10⁻²⁸. -/
def units (d : Decimal) : Int :=
  (if d.negative then -1 else 1) * (d.mantissa * 10 ^ (28 - d.scale) : Nat)

instance : LT Decimal := ⟨fun a b => a.units < b.units⟩
instance : LE Decimal := ⟨fun a b => a.units ≤ b.units⟩

instance (a b : Decimal) : Decidable (a < b) := inferInstanceAs (Decidable (a.units < b.units))
instance (a b : Decimal) : Decidable (a ≤ b) := inferInstanceAs (Decidable (a.units ≤ b.units))

/-- Decimals of equal value may differ in their digits, so the order is not antisymmetric. -/
instance : Preorder Decimal where
  le_refl a := le_refl a.units
  le_trans _ _ _ := Int.le_trans
  lt_iff_le_not_ge _ _ := Int.lt_iff_le_and_not_ge

instance : Std.Total fun a b : Decimal => a ≤ b := ⟨fun a b => Int.le_total a.units b.units⟩

/-- The whole number `n`, where it fits. -/
def ofNat (n : Nat) (h : n < 2 ^ 96) : Decimal := ⟨false, n, 0, h, by decide, fun _ => rfl⟩

/-- The sign that a magnitude takes. -/
def signFor (negative : Bool) (mantissa : Nat) : Bool := negative && mantissa != 0

theorem signFor_zero {negative : Bool} {mantissa : Nat} (h : mantissa = 0) :
    signFor negative mantissa = false := by
  subst h
  exact Bool.and_false _

theorem signFor_negative (d : Decimal) : signFor d.negative d.mantissa = d.negative := by
  by_cases hzero : d.mantissa = 0
  · rw [signFor_zero hzero, d.zero_unsigned hzero]
  · simp [signFor, hzero]

/-- The exact product, rounded to a whole number. -/
def roundedProduct (a b : Decimal) : Nat :=
  nearestEven (a.mantissa * b.mantissa) (10 ^ (a.scale + b.scale))

/-- The rounded product fits the 96-bit magnitude. -/
def Fits (a b : Decimal) : Prop := roundedProduct a b < 2 ^ 96

instance (a b : Decimal) : Decidable (Fits a b) :=
  inferInstanceAs (Decidable (roundedProduct a b < 2 ^ 96))

-- the integral part of this product fits, but rounding its fraction carries to 2 ^ 96
example : ¬ Fits ⟨false, 72025602285694852357767227578, 1, by decide, by decide, fun _ => rfl⟩
    (.ofNat 11 (by decide)) := by decide

end Decimal

/-- An arithmetic panic. Under `panic = "abort"` it ends the process. -/
inductive Panic where
  | multiplicationOverflowed
  deriving DecidableEq, Repr

/-- The multiplication operator of the decimal crate. -/
structure DecimalArith where
  mul : Decimal → Decimal → Except Panic Decimal
  panics_iff : ∀ a b, mul a b = .error .multiplicationOverflowed ↔ ¬ Decimal.Fits a b

namespace DecimalArith

theorem returns_iff (A : DecimalArith) (a b : Decimal) :
    (∃ q, A.mul a b = .ok q) ↔ Decimal.Fits a b := by
  rw [← not_iff_not, ← A.panics_iff a b]
  cases h : A.mul a b with
  | error e => cases e; simp
  | ok q => simp

/-- The product with an optional factor, `factor.map(|y| x * y)`. -/
def mapMul (A : DecimalArith) (x : Decimal) : Option Decimal → Except Panic (Option Decimal)
  | some y => (A.mul x y).map some
  | none => .ok none

theorem mapMul_returns_iff (A : DecimalArith) (x : Decimal) (factor : Option Decimal) :
    (∃ q, A.mapMul x factor = .ok q) ↔ ∀ y, factor = some y → Decimal.Fits x y := by
  cases factor with
  | none => simp [mapMul]
  | some y =>
    have hfits : (∀ z, some y = some z → Decimal.Fits x z) ↔ Decimal.Fits x y := by simp
    rw [hfits, ← A.returns_iff x y]
    cases h : A.mul x y <;> simp [mapMul, h, Except.map]

theorem mapMul_eq_some {A : DecimalArith} {x q : Decimal} {factor : Option Decimal} :
    A.mapMul x factor = .ok (some q) ↔ ∃ y, factor = some y ∧ A.mul x y = .ok q := by
  cases factor with
  | none => simp [mapMul]
  | some y => cases h : A.mul x y <;> simp [mapMul, h, Except.map]

/-- Drop digits after the point until the magnitude and the scale both fit. The result is the scale
that is left. -/
def scaleFor : Nat → Nat → Option Nat
  | m, 0 => if m < 2 ^ 96 then some 0 else none
  | m, s + 1 => if m < 2 ^ 96 ∧ s + 1 ≤ 28 then some (s + 1) else scaleFor (m / 10) s

theorem scaleFor_eq_some {m s s' : Nat} (h : scaleFor m s = some s') :
    s' ≤ s ∧ s' ≤ 28 ∧ m / 10 ^ (s - s') < 2 ^ 96 := by
  induction s generalizing m with
  | zero =>
    simp only [scaleFor] at h
    split at h
    · rename_i hm
      obtain rfl := Option.some.inj h
      exact ⟨le_refl 0, by decide, by simpa using hm⟩
    · contradiction
  | succ s ih =>
    simp only [scaleFor] at h
    split at h
    · rename_i hm
      obtain rfl := Option.some.inj h
      exact ⟨le_refl _, hm.2, by simpa using hm.1⟩
    · obtain ⟨hle, hscale, hlt⟩ := ih h
      have hdiv : m / 10 / 10 ^ (s - s') = m / 10 ^ (s + 1 - s') := by
        rw [Nat.div_div_eq_div_mul, Nat.succ_sub hle, Nat.pow_succ, Nat.mul_comm]
      exact ⟨hle.trans (Nat.le_succ s), hscale, hdiv ▸ hlt⟩

theorem scaleFor_eq_none {m s : Nat} (h : scaleFor m s = none) : 2 ^ 96 ≤ m / 10 ^ s := by
  induction s generalizing m with
  | zero =>
    simp only [scaleFor] at h
    split at h
    · contradiction
    · rename_i hm
      simpa using hm
  | succ s ih =>
    have hdiv : m / 10 / 10 ^ s = m / 10 ^ (s + 1) := by
      rw [Nat.div_div_eq_div_mul, Nat.pow_succ, Nat.mul_comm]
    simp only [scaleFor] at h
    split at h
    · contradiction
    · exact hdiv ▸ ih h

/-- Round to the scale for which the magnitude fits. A carry to 2⁹⁶ drops one more digit. -/
def rescale (m s : Nat) : Option (Nat × Nat) :=
  (scaleFor m s).bind fun s' =>
    let rounded := nearestEven m (10 ^ (s - s'))
    if rounded < 2 ^ 96 then some (rounded, s')
    else if s' = 0 then none
    else some (nearestEven rounded 10, s' - 1)

theorem rescale_bounds {m s m' s' : Nat} (h : rescale m s = some (m', s')) :
    m' < 2 ^ 96 ∧ s' ≤ 28 := by
  obtain ⟨scale, hscale, hrest⟩ := Option.bind_eq_some_iff.mp h
  obtain ⟨-, hle, hlt⟩ := scaleFor_eq_some hscale
  dsimp only at hrest
  split at hrest
  case isTrue hfits =>
    cases hrest
    exact ⟨hfits, hle⟩
  case isFalse =>
    split at hrest
    case isTrue => cases hrest
    case isFalse =>
      cases hrest
      have hcarry := nearestEven_le m (10 ^ (s - scale))
      have hround := nearestEven_le (nearestEven m (10 ^ (s - scale))) 10
      constructor <;> omega

/-- The rounding fails exactly if the number rounded to a whole one does not fit. -/
theorem rescale_eq_none_iff (m s : Nat) :
    rescale m s = none ↔ ¬ nearestEven m (10 ^ s) < 2 ^ 96 := by
  have hwhole := div_le_nearestEven m (10 ^ s)
  unfold rescale
  cases hscale : scaleFor m s with
  | none =>
    have hlarge := scaleFor_eq_none hscale
    exact iff_of_true rfl (by omega)
  | some scale =>
    obtain ⟨hle, -, hlt⟩ := scaleFor_eq_some hscale
    rw [Option.bind_some]
    dsimp only
    cases scale with
    | zero =>
      rw [Nat.sub_zero] at hlt ⊢
      split <;> simp_all
    | succ scale =>
      -- with a digit left after the point the whole part is ten times smaller
      have hsplit : m / 10 ^ s ≤ m / 10 ^ (s - (scale + 1)) / 10 := by
        rw [Nat.div_div_eq_div_mul, ← Nat.pow_succ]
        exact Nat.div_le_div_left (Nat.pow_le_pow_right (by decide) (by omega)) (by positivity)
      have hround := nearestEven_le m (10 ^ s)
      refine iff_of_false ?_ (not_not.mpr (by omega))
      split <;> simp

/-- A multiplication that is exact while the digits fit and otherwise rounds. It instantiates the
parameter on concrete inputs. -/
def roundingMul (a b : Decimal) : Except Panic Decimal :=
  match h : rescale (a.mantissa * b.mantissa) (a.scale + b.scale) with
  | none => .error .multiplicationOverflowed
  | some (m, s) =>
    .ok ⟨Decimal.signFor (a.negative != b.negative) m, m, s, (rescale_bounds h).1,
      (rescale_bounds h).2, Decimal.signFor_zero⟩

def rounding : DecimalArith where
  mul := roundingMul
  panics_iff a b := by
    rw [Decimal.Fits, Decimal.roundedProduct, ← rescale_eq_none_iff]
    unfold roundingMul
    split
    · rename_i h
      simp [h]
    · rename_i h
      simp [h]

/-- Whole numbers are multiplied exactly. -/
theorem rounding_mul_ofNat {a b c : Nat} {ha : a < 2 ^ 96} {hb : b < 2 ^ 96} {hc : c < 2 ^ 96}
    (h : a * b = c) : rounding.mul (.ofNat a ha) (.ofNat b hb) = .ok (.ofNat c hc) := by
  subst h
  have hrescale : rescale (a * b) 0 = some (a * b, 0) := by
    have hscale : scaleFor (a * b) 0 = some 0 := by
      unfold scaleFor
      exact if_pos hc
    unfold rescale
    rw [hscale, Option.bind_some]
    dsimp only
    rw [Nat.sub_zero, Nat.pow_zero, nearestEven_one, if_pos hc]
  show roundingMul _ _ = _
  unfold roundingMul
  split
  case h_1 hnone => cases hrescale.symm.trans hnone
  case h_2 m s hsome =>
    obtain ⟨rfl, rfl⟩ := Prod.mk.inj (Option.some.inj (hrescale.symm.trans hsome))
    rfl

end DecimalArith

end OiTerminal.Core
