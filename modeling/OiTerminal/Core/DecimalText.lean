import OiTerminal.Core.Decimal

/-!
# Decimals as text

The storage columns hold decimals as strings. Printing and parsing belong to the decimal
crate and are a parameter with the law that parsing inverts printing. `plain` prints the
usual notation and instantiates the parameter on concrete inputs.
-/
namespace OiTerminal.Core

set_option autoImplicit false

/-- `Decimal::to_string` and `Decimal::from_str`. -/
structure DecimalText where
  toText : Decimal → String
  fromText : String → Except String Decimal
  fromText_toText : ∀ d, fromText (toText d) = .ok d

namespace DecimalText

/-- The last `scale` digits of a number, with leading zeros. -/
def padded : Nat → Nat → List Char
  | 0, _ => []
  | scale + 1, n => padded scale (n / 10) ++ [Nat.digitChar (n % 10)]

theorem length_padded (scale n : Nat) : (padded scale n).length = scale := by
  induction scale generalizing n with
  | zero => rfl
  | succ scale ih => simp [padded, ih]

theorem isDigit_of_mem_padded {scale n : Nat} {c : Char} (h : c ∈ padded scale n) :
    c.isDigit = true := by
  induction scale generalizing n with
  | zero => cases h
  | succ scale ih =>
    rcases List.mem_append.mp h with htail | hlast
    · exact ih htail
    · have hlt : n % 10 < 10 := Nat.mod_lt n (by decide)
      have hdigits : Nat.toDigits 10 (n % 10) = [Nat.digitChar (n % 10)] :=
        Nat.toDigits_of_lt_base hlt
      exact Nat.isDigit_of_mem_toDigits (by decide) (le_refl 10) (hdigits ▸ hlast)

theorem ofDigitChars_padded (scale n init : Nat) :
    Nat.ofDigitChars 10 (padded scale n) init = 10 ^ scale * init + n % 10 ^ scale := by
  induction scale generalizing n with
  | zero => simp [padded, Nat.mod_one]
  | succ scale ih =>
    have hlt : n % 10 < 10 := Nat.mod_lt n (by decide)
    rw [padded, Nat.ofDigitChars_append, ih, Nat.ofDigitChars_cons_digitChar_of_lt_ten hlt,
      Nat.ofDigitChars_nil]
    have hmod : n % 10 ^ (scale + 1) = 10 * (n / 10 % 10 ^ scale) + n % 10 := by
      rw [Nat.pow_succ', Nat.mod_mul]
      omega
    rw [hmod, Nat.pow_succ']
    ring

/-- Digits with a point before the last `scale` of them. -/
def magnitude (mantissa scale : Nat) : List Char :=
  Nat.toDigits 10 (mantissa / 10 ^ scale) ++
    if scale = 0 then [] else '.' :: padded scale mantissa

/-- A sign, and the digits after it. -/
def printParts (negative : Bool) (mantissa scale : Nat) : String :=
  String.ofList ((if negative then ['-'] else []) ++ magnitude mantissa scale)

def print (d : Decimal) : String := printParts d.negative d.mantissa d.scale

def parseMagnitude (negative : Bool) (chars : List Char) : Except String Decimal :=
  let whole := chars.takeWhile (· ≠ '.')
  let fraction := (chars.dropWhile (· ≠ '.')).drop 1
  let mantissa := Nat.ofDigitChars 10 (whole ++ fraction) 0
  if h : mantissa < 2 ^ 96 ∧ fraction.length ≤ 28 then
    if whole ≠ [] ∧ (whole ++ fraction).all Char.isDigit then
      .ok ⟨Decimal.signFor negative mantissa, mantissa, fraction.length, h.1, h.2,
        Decimal.signFor_zero⟩
    else .error "Invalid decimal: unknown character"
  else .error "Invalid decimal: overflow"

def parse (s : String) : Except String Decimal :=
  match s.toList with
  | '-' :: rest => parseMagnitude true rest
  | chars => parseMagnitude false chars

theorem isDigit_ne_point {c : Char} (h : c.isDigit = true) : c ≠ '.' := by
  rintro rfl
  exact absurd h (by decide)

theorem isDigit_of_mem_toDigits {n : Nat} {c : Char} (h : c ∈ Nat.toDigits 10 n) :
    c.isDigit = true := Nat.isDigit_of_mem_toDigits (by decide) (le_refl 10) h

theorem takeWhile_whole (n : Nat) (rest : List Char) (hrest : rest.takeWhile (· ≠ '.') = []) :
    (Nat.toDigits 10 n ++ rest).takeWhile (· ≠ '.') = Nat.toDigits 10 n := by
  rw [List.takeWhile_append_of_pos, hrest, List.append_nil]
  exact fun c hc => decide_eq_true (isDigit_ne_point (isDigit_of_mem_toDigits hc))

theorem dropWhile_whole (n : Nat) (rest : List Char) (hrest : rest.dropWhile (· ≠ '.') = rest) :
    (Nat.toDigits 10 n ++ rest).dropWhile (· ≠ '.') = rest := by
  rw [List.dropWhile_append_of_pos, hrest]
  exact fun c hc => decide_eq_true (isDigit_ne_point (isDigit_of_mem_toDigits hc))

theorem parseMagnitude_magnitude (negative : Bool) {mantissa scale : Nat}
    (hm : mantissa < 2 ^ 96) (hs : scale ≤ 28) :
    parseMagnitude negative (magnitude mantissa scale) =
      .ok ⟨Decimal.signFor negative mantissa, mantissa, scale, hm, hs, Decimal.signFor_zero⟩ := by
  let tail : List Char := if scale = 0 then [] else '.' :: padded scale mantissa
  have htake : tail.takeWhile (· ≠ '.') = [] := by
    simp only [tail]
    split <;> simp
  have hdrop : tail.dropWhile (· ≠ '.') = tail := by
    simp only [tail]
    split <;> simp
  have hfraction : tail.drop 1 = padded scale mantissa := by
    simp only [tail]
    split
    · rename_i hzero
      rw [hzero]
      rfl
    · rfl
  have hwhole : (magnitude mantissa scale).takeWhile (· ≠ '.') =
      Nat.toDigits 10 (mantissa / 10 ^ scale) := takeWhile_whole _ tail htake
  have hrest : ((magnitude mantissa scale).dropWhile (· ≠ '.')).drop 1 =
      padded scale mantissa := by
    rw [← hfraction]
    exact congrArg (List.drop 1) (dropWhile_whole _ tail hdrop)
  have hvalue : Nat.ofDigitChars 10
      (Nat.toDigits 10 (mantissa / 10 ^ scale) ++ padded scale mantissa) 0 = mantissa := by
    rw [Nat.ofDigitChars_append, Nat.ofDigitChars_ten_toDigits, ofDigitChars_padded]
    exact Nat.div_add_mod mantissa (10 ^ scale)
  have hdigits : (Nat.toDigits 10 (mantissa / 10 ^ scale) ++ padded scale mantissa).all
      Char.isDigit = true := by
    rw [List.all_eq_true]
    intro c hc
    exact (List.mem_append.mp hc).elim isDigit_of_mem_toDigits isDigit_of_mem_padded
  simp only [parseMagnitude, hwhole, hrest, hvalue, length_padded, hdigits]
  rw [dif_pos ⟨hm, hs⟩, if_pos ⟨Nat.toDigits_ne_nil, trivial⟩]

/-- A sign of zero is not kept. -/
theorem parse_printParts (negative : Bool) {mantissa scale : Nat} (hm : mantissa < 2 ^ 96)
    (hs : scale ≤ 28) : parse (printParts negative mantissa scale) =
      .ok ⟨Decimal.signFor negative mantissa, mantissa, scale, hm, hs, Decimal.signFor_zero⟩ := by
  simp only [parse, printParts, String.toList_ofList]
  cases negative with
  | true => exact parseMagnitude_magnitude true hm hs
  | false =>
    have hfirst : ∀ rest, magnitude mantissa scale ≠ '-' :: rest := by
      intro rest h
      have hmem : '-' ∈ Nat.toDigits 10 (mantissa / 10 ^ scale) := by
        cases hd : Nat.toDigits 10 (mantissa / 10 ^ scale) with
        | nil => exact absurd hd Nat.toDigits_ne_nil
        | cons c cs =>
          rw [magnitude, hd, List.cons_append] at h
          rw [(List.cons.inj h).1]
          exact List.mem_cons_self
      exact absurd (isDigit_of_mem_toDigits hmem) (by decide)
    simp only [Bool.false_eq_true, if_false, List.nil_append]
    exact parseMagnitude_magnitude false hm hs

theorem parse_print (d : Decimal) : parse (print d) = .ok d := by
  have hparts := parse_printParts d.negative d.mantissa_lt d.scale_le
  simp only [Decimal.signFor_negative] at hparts
  exact hparts

/-- The usual notation. -/
def plain : DecimalText where
  toText := print
  fromText := parse
  fromText_toText := parse_print

end DecimalText

end OiTerminal.Core
