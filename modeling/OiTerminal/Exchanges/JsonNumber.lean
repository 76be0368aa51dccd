import Mathlib.Tactic.FieldSimp
import OiTerminal.Core.DecimalText
import OiTerminal.Lib.Scientific

/-!
# JSON numbers as decimals

MEXC and KuCoin send numbers without quotes. They are parsed into integers of 64 bits or into
floats, printed again, and the text is read as a decimal. A float is kept here as the shortest
digits that identify it. Which digits these are, and what the decimal crate reads, belongs to
other crates and is a parameter.
-/
namespace OiTerminal.Exchanges.JsonNumber

open OiTerminal.Core
open OiTerminal.Lib.Scientific

set_option autoImplicit false

def signOf (negative : Bool) : ℚ := if negative then -1 else 1

/-- A number as it is written: digits, digits after the point, if there is one, and an
exponent. -/
structure Literal where
  negative : Bool
  whole : Nat
  fraction : List (Fin 10)
  exponent : Option Int

namespace Literal

/-- All the digits, without the point. -/
def coefficient (l : Literal) : Nat := l.fraction.foldl (fun m (d : Fin 10) => m * 10 + d) l.whole

def power (l : Literal) : Int := l.exponent.getD 0 - l.fraction.length

def isInteger (l : Literal) : Bool := l.fraction.isEmpty && l.exponent.isNone

/-- The number that is written. -/
def number (l : Literal) : ℚ := signOf l.negative * value l.coefficient l.power

/-- The written digits without leading zeros. Zeros at the end of an integer are not
significant. -/
def significantDigits (l : Literal) : Nat :=
  (Nat.toDigits 10 (if l.isInteger then (strip l.whole 0).1 else l.coefficient)).length

end Literal

/-- The number that a decimal stands for. -/
def decimalNumber (d : Decimal) : ℚ := d.units / 10 ^ 28

/-- `serde_json::Number`, with a float as the coefficient and exponent of its digits. -/
inductive Number where
  | posInt (n : Nat)
  | negInt (n : Nat)
  | float (negative : Bool) (coefficient : Nat) (exponent : Int)
  deriving DecidableEq

/-- Numbers from 1e-5 to below 1e16 are printed in plain notation. -/
def InPlainRange (x : ℚ) : Prop := (10 : ℚ) ^ (-5 : Int) ≤ x ∧ x < (10 : ℚ) ^ (16 : Int)

/-- The shortest digits of the float that a positive literal is parsed into. A literal of at
most 15 digits whose power of ten is exact in a float is rounded once, and gives back its own
digits. -/
structure FloatDigits where
  digits : Nat → Int → Nat × Int
  zero : ∀ e, digits 0 e = (0, 0)
  exact : ∀ m e, 0 < m → m < 10 ^ 15 → -22 ≤ e → e ≤ 22 →
    value (digits m e).1 (digits m e).2 = value m e ∧ ¬ 10 ∣ (digits m e).1
  outside : ∀ m e, 0 < m → m < 10 ^ 15 ∨ e = 0 ∧ 2 ^ 63 ≤ m →
    (10 : ℚ) ^ (-28 : Int) ≤ value m e → value m e < (10 : ℚ) ^ (29 : Int) →
    ¬ InPlainRange (value m e) →
      0 < (digits m e).1 ∧ ¬ InPlainRange (value (digits m e).1 (digits m e).2)

/-- What `Decimal::from_str` makes of plain notation and of exponent notation. -/
structure PlainText extends DecimalText where
  reads_plain : ∀ negative mantissa scale, mantissa < 2 ^ 96 → scale ≤ 28 →
    ∃ d, fromText (DecimalText.printParts negative mantissa scale) = .ok d ∧
      decimalNumber d = signOf negative * value mantissa (-scale)
  rejects_exponent : ∀ s d, 'e' ∈ s.toList → fromText s ≠ .ok d

/-- `serde_json` without arbitrary precision. Minus zero becomes a float. -/
def parseNumber (F : FloatDigits) (l : Literal) : Number :=
  if l.isInteger then
    if l.negative then
      if 0 < l.whole ∧ l.whole ≤ 2 ^ 63 then .negInt l.whole
      else .float true (F.digits l.whole 0).1 (F.digits l.whole 0).2
    else if l.whole < 2 ^ 64 then .posInt l.whole
    else .float false (F.digits l.whole 0).1 (F.digits l.whole 0).2
  else .float l.negative (F.digits l.coefficient l.power).1 (F.digits l.coefficient l.power).2

def sign (negative : Bool) : List Char := if negative then ['-'] else []

/-- The first digit, the others after a point, and the power of ten of the first with its sign. -/
def exponentNotation (m : Nat) (k : Int) : List Char :=
  (match Nat.toDigits 10 m with
    | [] => []
    | [digit] => [digit]
    | digit :: rest => digit :: '.' :: rest) ++
  'e' :: ((if 0 ≤ point m k - 1 then ['+'] else []) ++ (point m k - 1).repr.toList)

/-- A float always shows a point or an exponent. -/
def formatFinite (negative : Bool) (m : Nat) (k : Int) : String :=
  String.ofList <| sign negative ++
    if -5 < point m k ∧ point m k ≤ 16 then
      if 0 ≤ k then DecimalText.magnitude (m * 10 ^ (k.toNat + 1)) 1
      else DecimalText.magnitude m (-k).toNat
    else exponentNotation m k

def Number.toString : Number → String
  | .posInt n => String.ofList (Nat.toDigits 10 n)
  | .negInt n => String.ofList ('-' :: Nat.toDigits 10 n)
  | .float negative m k => formatFinite negative m k

def Mexc.numberToDecimal (T : DecimalText) (n : Number) : Option Decimal :=
  (T.fromText n.toString).toOption

def KuCoin.numberToDecimal (T : DecimalText) (n : Number) : Option Decimal :=
  (T.fromText n.toString).toOption

/-- The conversion returns the number that is written. -/
def ReturnsNumber (convert : Number → Option Decimal) (F : FloatDigits) (l : Literal) : Prop :=
  ∃ d, convert (parseNumber F l) = some d ∧ decimalNumber d = l.number

/-- The number is an integer literal of 64 bits, zero, or printed in plain notation. -/
def PrintsPlain (l : Literal) : Prop :=
  (l.isInteger = true ∧ if l.negative then l.whole ≤ 2 ^ 63 else l.whole < 2 ^ 64) ∨
    l.number = 0 ∨ InPlainRange |l.number|

theorem decimalNumber_eq (d : Decimal) :
    decimalNumber d = signOf d.negative * value d.mantissa (-d.scale) := by
  have hpow : (10 : ℚ) ^ 28 = 10 ^ (28 - d.scale) * 10 ^ d.scale := by
    rw [← pow_add, Nat.sub_add_cancel d.scale_le]
  unfold decimalNumber Decimal.units signOf value
  rw [hpow, zpow_neg, zpow_natCast]
  have hne : (10 : ℚ) ^ d.scale ≠ 0 := pow_ne_zero _ (by norm_num)
  have hne' : (10 : ℚ) ^ (28 - d.scale) ≠ 0 := pow_ne_zero _ (by norm_num)
  cases d.negative <;> push_cast <;> field_simp

theorem inPlainRange_iff {m : Nat} (hm : 0 < m) (k : Int) :
    InPlainRange (value m k) ↔ -5 < point m k ∧ point m k ≤ 16 := by
  unfold InPlainRange
  rw [pow_le_value_iff hm, value_lt_pow_iff hm]

section

variable (T : PlainText)

/-- What is printed in plain notation is read as the same number. -/
theorem reads_number (negative : Bool) {mantissa scale : Nat} (hm : mantissa < 2 ^ 96)
    (hs : scale ≤ 28) : ∃ d,
      (T.fromText (DecimalText.printParts negative mantissa scale)).toOption = some d ∧
        decimalNumber d = signOf negative * value mantissa (-scale) := by
  obtain ⟨d, hread, hnumber⟩ := T.reads_plain negative mantissa scale hm hs
  exact ⟨d, by rw [hread]; rfl, hnumber⟩

theorem reads_integer (negative : Bool) {n : Nat} (hn : n < 2 ^ 96) :
    ∃ d, (T.fromText (String.ofList
        ((if negative then ['-'] else []) ++ Nat.toDigits 10 n))).toOption = some d ∧
      decimalNumber d = signOf negative * n := by
  obtain ⟨d, hread, hnumber⟩ := reads_number T negative hn (Nat.zero_le 28)
  refine ⟨d, ?_, ?_⟩
  · rw [← hread]
    simp [DecimalText.printParts, DecimalText.magnitude]
  · rw [hnumber]
    simp [value]

/-- A float in plain notation is read as its digits say. -/
theorem reads_float (negative : Bool) {m : Nat} {k : Int} (hm : m < 10 ^ 15) (hk : -28 ≤ k)
    (hplain : -5 < point m k ∧ point m k ≤ 16) :
    ∃ d, (T.fromText (Number.float negative m k).toString).toOption = some d ∧
      decimalNumber d = signOf negative * value m k := by
  show ∃ d, (T.fromText (formatFinite negative m k)).toOption = some d ∧ _
  unfold formatFinite
  rw [if_pos hplain]
  by_cases hsign : 0 ≤ k
  · obtain ⟨n, rfl⟩ := Int.eq_ofNat_of_zero_le hsign
    have hsmall : m * 10 ^ (n + 1) < 2 ^ 96 := by
      have hlt : value (m * 10 ^ n) 0 < (10 : ℚ) ^ (16 : Int) := by
        rw [← value_add, zero_add]
        exact lt_pow_point.trans_le (zpow_le_zpow_right₀ (by norm_num) hplain.2)
      unfold value at hlt
      rw [zpow_zero, mul_one] at hlt
      have hnat : m * 10 ^ n < 10 ^ 16 := by exact_mod_cast hlt
      rw [pow_succ, ← mul_assoc]
      omega
    obtain ⟨d, hread, hnumber⟩ := reads_number T negative hsmall (Nat.succ_le_succ (Nat.zero_le 27))
    rw [if_pos hsign]
    refine ⟨d, hread, ?_⟩
    rw [hnumber, ← value_add]
    congr 2
    push_cast
    ring
  · obtain ⟨n, hn⟩ := Int.eq_ofNat_of_zero_le (Int.neg_nonneg_of_nonpos (not_le.mp hsign).le)
    have hscale : n ≤ 28 := by omega
    obtain ⟨d, hread, hnumber⟩ := reads_number T negative (hm.trans (by decide)) hscale
    rw [if_neg hsign, hn]
    refine ⟨d, hread, ?_⟩
    rw [hnumber, ← hn, neg_neg]

/-- A float outside the plain range is not read at all. -/
theorem rejects_float (negative : Bool) {m : Nat} {k : Int}
    (hplain : ¬ (-5 < point m k ∧ point m k ≤ 16)) :
    (T.fromText (Number.float negative m k).toString).toOption = none := by
  have hmem : 'e' ∈ (Number.float negative m k).toString.toList := by
    show 'e' ∈ (formatFinite negative m k).toList
    unfold formatFinite exponentNotation
    rw [if_neg hplain, String.toList_ofList]
    exact List.mem_append_right _ (List.mem_append_right _ List.mem_cons_self)
  cases hread : T.fromText (Number.float negative m k).toString with
  | error e => rfl
  | ok d => exact absurd hread (T.rejects_exponent _ d hmem)

end

theorem abs_signed (negative : Bool) (m : Nat) (k : Int) :
    |signOf negative * value m k| = value m k := by
  have hsign : |signOf negative| = 1 := by cases negative <;> simp [signOf]
  rw [abs_mul, hsign, one_mul, abs_of_nonneg value_nonneg]

/-- A decimal that is not zero lies between its smallest unit and its 96 bits. -/
theorem bounds_of_representable {m : Nat} {k : Int} (hm : 0 < m) {d : Decimal}
    (hd : |decimalNumber d| = value m k) :
    (10 : ℚ) ^ (-28 : Int) ≤ value m k ∧ value m k < (10 : ℚ) ^ (29 : Int) := by
  rw [decimalNumber_eq, abs_signed] at hd
  have hmantissa : 0 < d.mantissa := by
    by_contra hzero
    rw [Nat.eq_zero_of_not_pos hzero, value_zero] at hd
    exact (value_pos hm).ne hd
  have hlength : (Nat.toDigits 10 d.mantissa).length ≤ 29 :=
    (Nat.length_toDigits_le_iff (by decide) (by decide)).mpr
      (d.mantissa_lt.trans (by decide))
  have hpos : 0 < (Nat.toDigits 10 d.mantissa).length := Nat.length_toDigits_pos
  have hscale := d.scale_le
  rw [← hd, pow_le_value_iff hmantissa, value_lt_pow_iff hmantissa]
  unfold point
  omega

/-- In the plain range a coefficient of 15 digits has a power of ten that is exact. -/
theorem power_of_plain {m : Nat} {e : Int} (hm : m < 10 ^ 15)
    (hplain : -5 < point m e ∧ point m e ≤ 16) : -22 ≤ e ∧ e ≤ 22 := by
  have hlength : (Nat.toDigits 10 m).length ≤ 15 :=
    (Nat.length_toDigits_le_iff (by decide) (by decide)).mpr hm
  have hpos : 0 < (Nat.toDigits 10 m).length := Nat.length_toDigits_pos
  unfold point at hplain
  omega

/-- A float in the plain range has the digits of its literal, and is read as they say. -/
theorem float_returned (T : PlainText) (F : FloatDigits) (negative : Bool) {m : Nat} {e : Int}
    (hpos : 0 < m) (hm : m < 10 ^ 15 ∨ e = 0 ∧ 2 ^ 63 ≤ m) (hrange : InPlainRange (value m e)) :
    ∃ d, (T.fromText (Number.float negative (F.digits m e).1 (F.digits m e).2).toString).toOption =
      some d ∧ decimalNumber d = signOf negative * value m e := by
  have hplain := (inPlainRange_iff hpos e).mp hrange
  have hsmall : m < 10 ^ 15 := by
    rcases hm with hsmall | ⟨rfl, hlarge⟩
    · exact hsmall
    · have hlt := hrange.2
      unfold value at hlt
      rw [zpow_zero, mul_one] at hlt
      have hnat : m < 10 ^ 16 := by exact_mod_cast hlt
      omega
  obtain ⟨hlow, hhigh⟩ := power_of_plain hsmall hplain
  obtain ⟨hvalue, hstripped⟩ := F.exact m e hpos hsmall hlow hhigh
  have hcoefficient : 0 < (F.digits m e).1 := by
    by_contra hzero
    rw [Nat.eq_zero_of_not_pos hzero] at hstripped
    exact hstripped (dvd_zero 10)
  have hle := coefficient_le hstripped hvalue
  have hexp := exponent_le hstripped hvalue
  rw [← hvalue] at hrange ⊢
  exact reads_float T negative (by omega) (by omega) ((inPlainRange_iff hcoefficient _).mp hrange)

/-- A float outside the plain range that a decimal could hold is printed with an exponent. -/
theorem float_dropped (T : PlainText) (F : FloatDigits) (negative : Bool) {m : Nat} {e : Int}
    (hpos : 0 < m) (hm : m < 10 ^ 15 ∨ e = 0 ∧ 2 ^ 63 ≤ m) (hrange : ¬ InPlainRange (value m e))
    (hrep : ∃ d : Decimal, decimalNumber d = signOf negative * value m e) :
    (T.fromText (Number.float negative (F.digits m e).1 (F.digits m e).2).toString).toOption =
      none := by
  obtain ⟨d, hd⟩ := hrep
  obtain ⟨hlow, hhigh⟩ := bounds_of_representable hpos (by rw [hd, abs_signed])
  obtain ⟨hcoefficient, houtside⟩ := F.outside m e hpos hm hlow hhigh hrange
  rw [inPlainRange_iff hcoefficient] at houtside
  exact rejects_float T negative houtside

/-- A literal that becomes a float is returned if it is zero or in the plain range. -/
theorem float_returned_iff (T : PlainText) (F : FloatDigits) (negative : Bool) {m : Nat} {e : Int}
    (hm : m < 10 ^ 15 ∨ e = 0 ∧ 2 ^ 63 ≤ m)
    (hrep : ∃ d : Decimal, decimalNumber d = signOf negative * value m e) :
    (∃ d, (T.fromText (Number.float negative (F.digits m e).1 (F.digits m e).2).toString).toOption =
      some d ∧ decimalNumber d = signOf negative * value m e) ↔
    signOf negative * value m e = 0 ∨ InPlainRange |signOf negative * value m e| := by
  rw [abs_signed]
  rcases Nat.eq_zero_or_pos m with rfl | hpos
  · rw [F.zero, value_zero, mul_zero]
    refine iff_of_true ?_ (.inl rfl)
    obtain ⟨d, hread, hnumber⟩ := reads_float T negative (m := 0) (k := 0) (by decide) (by decide)
      (by decide)
    exact ⟨d, hread, by rw [hnumber, value_zero, mul_zero]⟩
  have hnonzero : signOf negative * value m e ≠ 0 := by
    refine mul_ne_zero ?_ (value_pos hpos).ne'
    cases negative <;> simp [signOf]
  rw [or_iff_right hnonzero]
  by_cases hrange : InPlainRange (value m e)
  · exact iff_of_true (float_returned T F negative hpos hm hrange) hrange
  · refine iff_of_false ?_ hrange
    rintro ⟨d, hread, -⟩
    rw [float_dropped T F negative hpos hm hrange hrep] at hread
    cases hread

theorem number_eq {l : Literal} {m : Nat} {k : Int} (hm : l.coefficient = m) (hk : l.power = k) :
    l.number = signOf l.negative * value m k := by
  unfold Literal.number
  rw [hm, hk]

theorem integer_parts {l : Literal} (h : l.isInteger = true) :
    l.coefficient = l.whole ∧ l.power = 0 := by
  obtain ⟨hfraction, hexponent⟩ := Bool.and_eq_true_iff.mp h
  have hnil := List.isEmpty_iff.mp hfraction
  have hnone := Option.isNone_iff_eq_none.mp hexponent
  unfold Literal.coefficient Literal.power
  rw [hnil, hnone]
  exact ⟨rfl, rfl⟩

/-- An integer literal that does not fit 64 bits becomes a float, and so does minus zero. -/
theorem integer_returned_iff (T : PlainText) (F : FloatDigits) {l : Literal}
    (hinteger : l.isInteger = true) (hrep : ∃ d : Decimal, decimalNumber d = l.number) :
    ReturnsNumber (fun n => (T.fromText n.toString).toOption) F l ↔ PrintsPlain l := by
  obtain ⟨hwhole, hpower⟩ := integer_parts hinteger
  have hnumber : l.number = signOf l.negative * value l.whole 0 := number_eq hwhole hpower
  have hfloat : l.whole = 0 ∨ 2 ^ 63 ≤ l.whole →
      ((∃ d, (T.fromText (Number.float l.negative (F.digits l.whole 0).1
        (F.digits l.whole 0).2).toString).toOption = some d ∧ decimalNumber d = l.number) ↔
      l.number = 0 ∨ InPlainRange |l.number|) := by
    intro hlarge
    rw [hnumber] at hrep ⊢
    refine float_returned_iff T F l.negative ?_ hrep
    rcases hlarge with hzero | hlarge
    · exact .inl (by rw [hzero]; decide)
    · exact .inr ⟨rfl, hlarge⟩
  unfold ReturnsNumber PrintsPlain parseNumber
  rw [if_pos hinteger]
  cases hsign : l.negative with
  | false =>
    rw [hsign] at hnumber hfloat
    simp only [Bool.false_eq_true, if_false]
    by_cases hfits : l.whole < 2 ^ 64
    · rw [if_pos hfits]
      refine iff_of_true ?_ (.inl ⟨hinteger, hfits⟩)
      obtain ⟨d, hread, hd⟩ := reads_integer T false (hfits.trans (by decide))
      exact ⟨d, hread, by rw [hd, hnumber]; simp [signOf, value]⟩
    · rw [if_neg hfits, or_iff_right fun h => hfits h.2]
      exact hfloat (.inr (by omega))
  | true =>
    rw [hsign] at hnumber hfloat
    simp only [if_true]
    by_cases hfits : 0 < l.whole ∧ l.whole ≤ 2 ^ 63
    · rw [if_pos hfits]
      refine iff_of_true ?_ (.inl ⟨hinteger, hfits.2⟩)
      obtain ⟨d, hread, hd⟩ := reads_integer T true (hfits.2.trans_lt (by decide))
      exact ⟨d, hread, by rw [hd, hnumber]; simp [signOf, value]⟩
    · rw [if_neg hfits]
      by_cases hzero : l.whole = 0
      · have hnumberZero : l.number = 0 := by rw [hnumber, hzero, value_zero, mul_zero]
        exact iff_of_true ((hfloat (.inl hzero)).mpr (.inl hnumberZero)) (.inr (.inl hnumberZero))
      · rw [or_iff_right fun h => hfits ⟨Nat.pos_of_ne_zero hzero, h.2⟩]
        exact hfloat (.inr (by omega))

theorem returned_iff (T : PlainText) (F : FloatDigits) {l : Literal}
    (hdigits : l.significantDigits ≤ 15) (hrep : ∃ d : Decimal, decimalNumber d = l.number) :
    ReturnsNumber (fun n => (T.fromText n.toString).toOption) F l ↔ PrintsPlain l := by
  cases hinteger : l.isInteger with
  | true => exact integer_returned_iff T F hinteger hrep
  | false =>
    unfold Literal.significantDigits at hdigits
    rw [hinteger] at hdigits
    have hsmall : l.coefficient < 10 ^ 15 :=
      (Nat.length_toDigits_le_iff (by decide) (by decide)).mp hdigits
    unfold ReturnsNumber PrintsPlain parseNumber
    rw [hinteger, or_iff_right fun h => Bool.false_ne_true h.1]
    exact float_returned_iff T F l.negative (.inl hsmall) hrep

/-! Concrete parameters: the usual notation, and the digits of the literal itself. -/

theorem mem_digits_of_exponent {chars : List Char} (h : 'e' ∈ chars) :
    'e' ∈ chars.takeWhile (· ≠ '.') ++ (chars.dropWhile (· ≠ '.')).drop 1 := by
  have hsplit : 'e' ∈ chars.takeWhile (· ≠ '.') ++ chars.dropWhile (· ≠ '.') := by
    rw [List.takeWhile_append_dropWhile]
    exact h
  rcases List.mem_append.mp hsplit with hwhole | hrest
  · exact List.mem_append_left _ hwhole
  · refine List.mem_append_right _ ?_
    have hhead := List.head?_dropWhile_not (· ≠ '.') chars
    cases hdrop : chars.dropWhile (· ≠ '.') with
    | nil =>
      rw [hdrop] at hrest
      cases hrest
    | cons c rest =>
      rw [hdrop] at hhead hrest
      obtain rfl : c = '.' := of_decide_eq_true (by simpa using hhead)
      exact (List.mem_cons.mp hrest).resolve_left (by decide)

theorem parseMagnitude_of_exponent {negative : Bool} {chars : List Char} {d : Decimal}
    (h : 'e' ∈ chars) : DecimalText.parseMagnitude negative chars ≠ .ok d := by
  have hall : ¬ ((chars.takeWhile (· ≠ '.') ++ (chars.dropWhile (· ≠ '.')).drop 1).all
      Char.isDigit = true) := fun hall =>
    absurd (List.all_eq_true.mp hall 'e' (mem_digits_of_exponent h)) (by decide)
  intro hok
  unfold DecimalText.parseMagnitude at hok
  dsimp only at hok
  split at hok
  · rw [if_neg fun hdigits => hall hdigits.2] at hok
    cases hok
  · cases hok

def plainText : PlainText where
  toDecimalText := .plain
  reads_plain negative mantissa scale hm hs := by
    refine ⟨_, DecimalText.parse_printParts negative hm hs, ?_⟩
    rw [decimalNumber_eq]
    by_cases hzero : mantissa = 0
    · simp [hzero, value_zero]
    · have hsign : Decimal.signFor negative mantissa = negative := by simp [Decimal.signFor, hzero]
      exact congrArg (fun b => signOf b * value mantissa (-scale)) hsign
  rejects_exponent s d h := by
    intro hok
    change DecimalText.parse s = .ok d at hok
    unfold DecimalText.parse at hok
    split at hok
    case h_1 rest hs =>
      rw [hs] at h
      exact parseMagnitude_of_exponent ((List.mem_cons.mp h).resolve_left (by decide)) hok
    case h_2 => exact parseMagnitude_of_exponent h hok

def ownDigits : FloatDigits where
  digits := strip
  zero _ := if_pos rfl
  exact m e hm _ _ _ := ⟨value_strip m e, not_dvd_strip hm e⟩
  outside m e hm _ _ _ hrange := by
    rw [value_strip]
    refine ⟨?_, hrange⟩
    by_contra hzero
    have hvalue := value_strip m e
    rw [Nat.eq_zero_of_not_pos hzero, value_zero] at hvalue
    exact (value_pos hm).ne hvalue

/-- Both adapters return the number of a literal exactly if it is printed in plain notation. -/
theorem number_returned_iff (T : PlainText) (F : FloatDigits) (l : Literal)
    (hdigits : l.significantDigits ≤ 15) (hrep : ∃ d : Decimal, decimalNumber d = l.number) :
    (ReturnsNumber (Mexc.numberToDecimal T.toDecimalText) F l ↔ PrintsPlain l) ∧
      (ReturnsNumber (KuCoin.numberToDecimal T.toDecimalText) F l ↔ PrintsPlain l) :=
  ⟨returned_iff T F hdigits hrep, returned_iff T F hdigits hrep⟩

theorem contract_size_returned :
    ReturnsNumber (Mexc.numberToDecimal .plain) ownDigits ⟨false, 0, [0, 0, 0, 1], none⟩ := by
  let size : Literal := ⟨false, 0, [0, 0, 0, 1], none⟩
  have hsize : size.number = signOf false * value 1 (-4) := number_eq (by decide) (by decide)
  refine (number_returned_iff plainText ownDigits size (by decide) ?_).1.mpr (.inr (.inr ?_))
  · rw [hsize]
    exact ⟨⟨false, 1, 4, by decide, by decide, fun _ => rfl⟩, decimalNumber_eq _⟩
  · rw [hsize, abs_signed]
    exact (inPlainRange_iff (by decide) _).mpr (by decide)

/-- A funding rate of 0.000001 is printed as 1e-6, and dropped. -/
theorem small_rate_dropped : ¬ ∀ (T : PlainText) (F : FloatDigits) (l : Literal),
    l.significantDigits ≤ 15 → (∃ d : Decimal, decimalNumber d = l.number) →
      ReturnsNumber (Mexc.numberToDecimal T.toDecimalText) F l ∧
        ReturnsNumber (KuCoin.numberToDecimal T.toDecimalText) F l := by
  intro h
  let rate : Literal := ⟨false, 0, [0, 0, 0, 0, 0, 1], none⟩
  have hrate : rate.number = signOf false * value 1 (-6) := number_eq (by decide) (by decide)
  have hrep : ∃ d : Decimal, decimalNumber d = rate.number := by
    rw [hrate]
    exact ⟨⟨false, 1, 6, by decide, by decide, fun _ => rfl⟩, decimalNumber_eq _⟩
  obtain ⟨d, hread, -⟩ := (h plainText ownDigits rate (by decide) hrep).1
  have hparse : parseNumber ownDigits rate = .float false 1 (-6) := by decide
  rw [hparse] at hread
  unfold Mexc.numberToDecimal at hread
  rw [rejects_float plainText false (m := 1) (k := -6) (by decide)] at hread
  cases hread

end OiTerminal.Exchanges.JsonNumber
