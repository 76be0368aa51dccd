import Mathlib.Algebra.Order.Ring.Nat
import Mathlib.Data.Char
import Mathlib.Data.List.Lex
import Mathlib.Order.Lattice

/-!
# Numerals in lexicographic order

Numerals of the same length are ordered like their values. Of two numerals of different lengths
the shorter comes first exactly if its value is at most that of the other one's leading digits.
-/
namespace OiTerminal.Lib.Numeral

set_option autoImplicit false

/-- What comes before lists of one length decides first. -/
theorem append_lt_append_iff {α : Type*} [LinearOrder α] {xs ys s t : List α}
    (h : xs.length = ys.length) : xs ++ s < ys ++ t ↔ xs < ys ∨ xs = ys ∧ s < t := by
  induction xs generalizing ys with
  | nil =>
    obtain rfl := List.length_eq_zero_iff.mp h.symm
    simp
  | cons x xs ih =>
    cases ys with
    | nil => cases h
    | cons y ys =>
      have hlen : xs.length = ys.length := Nat.succ.inj h
      rw [List.cons_append, List.cons_append, List.cons_lt_cons_iff, List.cons_lt_cons_iff,
        ih hlen, List.cons_eq_cons]
      tauto

theorem digitChar_lt_iff {d e : ℕ} (hd : d < 16) (he : e < 16) :
    d.digitChar < e.digitChar ↔ d < e := by
  have hall : ∀ d < 16, ∀ e < 16, (d.digitChar < e.digitChar ↔ d < e) := by decide
  exact hall d hd e he

theorem zero_le_digitChar {d : ℕ} (hd : d < 16) : '0' ≤ d.digitChar := by
  have hall : ∀ d < 16, '0' ≤ d.digitChar := by decide
  exact hall d hd

variable {b m n k : ℕ}

theorem digitChar_mod_lt_iff (hb : 1 < b) (hb16 : b ≤ 16) :
    (m % b).digitChar < (n % b).digitChar ↔ m % b < n % b := by
  have hm : m % b < b := Nat.mod_lt m (by omega)
  have hn : n % b < b := Nat.mod_lt n (by omega)
  exact digitChar_lt_iff (by omega) (by omega)

/-- A longer numeral has the greater value. -/
theorem length_toDigits_mono (hb : 1 < b) (h : m ≤ n) :
    (Nat.toDigits b m).length ≤ (Nat.toDigits b n).length := by
  have hpos : 0 < (Nat.toDigits b n).length := Nat.length_toDigits_pos
  have hn : n < b ^ (Nat.toDigits b n).length := (Nat.length_toDigits_le_iff hb hpos).mp le_rfl
  exact (Nat.length_toDigits_le_iff hb hpos).mpr (h.trans_lt hn)

/-- Numerals of one length: the greater value comes later. -/
theorem toDigits_lt_of_lt (hb : 1 < b) (hb16 : b ≤ 16) :
    ∀ {m n : ℕ}, (Nat.toDigits b m).length = (Nat.toDigits b n).length → m < n →
      Nat.toDigits b m < Nat.toDigits b n := by
  intro m n
  induction n using Nat.strong_induction_on generalizing m with
  | h n ih =>
    intro hlen hlt
    by_cases hn : n < b
    · have hm : m < b := hlt.trans hn
      rw [Nat.toDigits_of_lt_base hm, Nat.toDigits_of_lt_base hn, List.cons_lt_cons_iff]
      exact .inl ((digitChar_lt_iff (by omega) (by omega)).mpr hlt)
    · have hbn : b ≤ n := not_lt.mp hn
      have hbm : b ≤ m := by
        by_contra hm
        rw [Nat.toDigits_of_lt_base (not_le.mp hm), Nat.toDigits_of_base_le hb hbn,
          List.length_append] at hlen
        have hpos : 0 < (Nat.toDigits b (n / b)).length := Nat.length_toDigits_pos
        simp only [List.length_singleton] at hlen
        omega
      rw [Nat.toDigits_of_base_le hb hbm, Nat.toDigits_of_base_le hb hbn] at hlen ⊢
      have hheads : (Nat.toDigits b (m / b)).length = (Nat.toDigits b (n / b)).length := by
        simpa only [List.length_append, List.length_singleton, Nat.add_right_cancel_iff] using hlen
      rw [append_lt_append_iff hheads]
      -- the leading digits decide, and only if they agree the last one
      rcases (Nat.div_le_div_right hlt.le : m / b ≤ n / b).lt_or_eq with hdiv | hdiv
      · exact .inl (ih (n / b) (Nat.div_lt_self (by omega) hb) hheads hdiv)
      · have hmod : m % b < n % b := by
          have hm := Nat.div_add_mod m b
          have hn := Nat.div_add_mod n b
          rw [hdiv] at hm
          omega
        refine .inr ⟨by rw [hdiv], ?_⟩
        rw [List.cons_lt_cons_iff]
        exact .inl ((digitChar_mod_lt_iff hb hb16).mpr hmod)

theorem toDigits_lt_iff (hb : 1 < b) (hb16 : b ≤ 16)
    (hlen : (Nat.toDigits b m).length = (Nat.toDigits b n).length) :
    Nat.toDigits b m < Nat.toDigits b n ↔ m < n := by
  constructor
  · intro h
    by_contra hnm
    rcases (not_lt.mp hnm).lt_or_eq with hlt | rfl
    · exact lt_asymm h (toDigits_lt_of_lt hb hb16 hlen.symm hlt)
    · exact lt_irrefl _ h
  · exact toDigits_lt_of_lt hb hb16 hlen

theorem toDigits_inj (hb : 1 < b) (hb16 : b ≤ 16) (h : Nat.toDigits b m = Nat.toDigits b n) :
    m = n := by
  have hlen := congrArg List.length h
  refine le_antisymm ?_ ?_ <;> rw [← not_lt, ← toDigits_lt_iff hb hb16]
  · rw [h]; exact lt_irrefl _
  · exact hlen.symm
  · rw [h]; exact lt_irrefl _
  · exact hlen

/-- The last `k` digits taken off, a numeral is that of the leading digits. -/
theorem toDigits_split (hb : 1 < b) (hb16 : b ≤ 16) (hk : k < (Nat.toDigits b n).length) :
    ∃ low : List Char, low.length = k ∧ (∀ d ∈ low, '0' ≤ d) ∧
      Nat.toDigits b n = Nat.toDigits b (n / b ^ k) ++ low := by
  induction k with
  | zero => exact ⟨[], rfl, List.forall_mem_nil _, by simp⟩
  | succ k ih =>
    obtain ⟨low, hlow, hdigits, hsplit⟩ := ih (by omega)
    have hbase : b ≤ n / b ^ k := by
      by_contra hlt
      rw [hsplit, Nat.toDigits_of_lt_base (not_le.mp hlt), List.length_append,
        List.length_singleton, hlow] at hk
      omega
    refine ⟨(n / b ^ k % b).digitChar :: low, by rw [List.length_cons, hlow], ?_, ?_⟩
    · intro d hd
      rcases List.mem_cons.mp hd with rfl | hd
      · have hmod : n / b ^ k % b < b := Nat.mod_lt _ (by omega)
        exact zero_le_digitChar (by omega)
      · exact hdigits d hd
    · rw [hsplit, Nat.toDigits_of_base_le hb hbase, List.append_assoc, Nat.pow_succ,
        Nat.div_div_eq_div_mul]
      rfl

/-- A separator before all digits ends both numerals: the smaller one comes first exactly if the
leading digits of the other one are no less. -/
theorem toDigits_sep_lt_iff (hb : 1 < b) (hb16 : b ≤ 16) {c : Char} (hc : c < '0') (s : List Char)
    (h : m < n) :
    Nat.toDigits b m ++ c :: s < Nat.toDigits b n ++ c :: s ↔
      m ≤ n / b ^ ((Nat.toDigits b n).length - (Nat.toDigits b m).length) := by
  have hle := length_toDigits_mono hb h.le
  have hpos : 0 < (Nat.toDigits b m).length := Nat.length_toDigits_pos
  obtain ⟨low, hlow, hdigits, hsplit⟩ := toDigits_split hb hb16
    (k := (Nat.toDigits b n).length - (Nat.toDigits b m).length) (n := n) (by omega)
  generalize n / b ^ ((Nat.toDigits b n).length - (Nat.toDigits b m).length) = q at hsplit ⊢
  have hlen : (Nat.toDigits b m).length = (Nat.toDigits b q).length := by
    have hsum := congrArg List.length hsplit
    rw [List.length_append, hlow] at hsum
    omega
  have heq : Nat.toDigits b m = Nat.toDigits b q ↔ m = q :=
    ⟨toDigits_inj hb hb16, fun h => by rw [h]⟩
  rw [hsplit, List.append_assoc, append_lt_append_iff hlen, toDigits_lt_iff hb hb16 hlen, heq,
    le_iff_lt_or_eq]
  refine or_congr_right (and_iff_left_of_imp fun hmq => ?_)
  cases low with
  | nil =>
    -- no digit is left, and the numerals are the same
    rw [List.append_nil, ← hmq] at hsplit
    exact absurd (toDigits_inj hb hb16 hsplit) h.ne'
  | cons d low =>
    rw [List.cons_append, List.cons_lt_cons_iff]
    exact .inl (hc.trans_le (hdigits d List.mem_cons_self))

theorem digitValue_lt {x y : Char} (hx : x.isDigit = true) (h : x < y) :
    x.toNat - '0'.toNat < y.toNat - '0'.toNat := by
  have hlt : x.toNat < y.toNat := h
  have hlow : '0'.toNat ≤ x.toNat := by
    unfold Char.isDigit at hx
    exact (of_decide_eq_true (Bool.and_eq_true_iff.mp hx).1 : '0'.val ≤ x.val)
  omega

theorem ofDigitChars_lt_pow {xs : List Char} (h : ∀ c ∈ xs, c.isDigit = true) :
    Nat.ofDigitChars 10 xs 0 < 10 ^ xs.length := by
  induction xs with
  | nil => simp
  | cons x xs ih =>
    have htail := ih fun c hc => h c (List.mem_cons_of_mem x hc)
    have hx : x.toNat ≤ '9'.toNat := by
      have hdigit := h x List.mem_cons_self
      unfold Char.isDigit at hdigit
      exact (of_decide_eq_true (Bool.and_eq_true_iff.mp hdigit).2 : x.val ≤ '9'.val)
    have hvalue : x.toNat - '0'.toNat ≤ 9 := by
      have hnine : '9'.toNat = 57 := rfl
      have hzero : '0'.toNat = 48 := rfl
      omega
    rw [Nat.ofDigitChars_cons, Nat.ofDigitChars_eq_ofDigitChars_zero, List.length_cons,
      Nat.pow_succ, Nat.mul_zero, Nat.zero_add]
    have hmul := Nat.mul_le_mul_left (10 ^ xs.length) hvalue
    omega

/-- Of two digit strings of one length the later one has the greater value. -/
theorem ofDigitChars_lt_of_lt {xs ys : List Char} (hlen : xs.length = ys.length)
    (hxs : ∀ c ∈ xs, c.isDigit = true) (hys : ∀ c ∈ ys, c.isDigit = true) (h : xs < ys) :
    Nat.ofDigitChars 10 xs 0 < Nat.ofDigitChars 10 ys 0 := by
  induction xs generalizing ys with
  | nil =>
    obtain rfl := List.length_eq_zero_iff.mp hlen.symm
    exact absurd h (lt_irrefl _)
  | cons x xs ih =>
    cases ys with
    | nil => cases hlen
    | cons y ys =>
      have hrest : xs.length = ys.length := Nat.succ.inj hlen
      have htail := fun c hc => hxs c (List.mem_cons_of_mem x hc)
      have hytail := fun c hc => hys c (List.mem_cons_of_mem y hc)
      rw [Nat.ofDigitChars_cons, Nat.ofDigitChars_cons, Nat.ofDigitChars_eq_ofDigitChars_zero,
        Nat.ofDigitChars_eq_ofDigitChars_zero (l := ys), hrest]
      rcases List.cons_lt_cons_iff.mp h with hlt | ⟨rfl, hlt⟩
      · have hbound := ofDigitChars_lt_pow htail
        have hstep := digitValue_lt (hxs x List.mem_cons_self) hlt
        rw [hrest] at hbound
        have hmul := Nat.mul_le_mul_left (10 ^ ys.length) (Nat.succ_le_of_lt hstep)
        rw [Nat.mul_succ] at hmul
        simp only [Nat.mul_zero, Nat.zero_add]
        omega
      · exact Nat.add_lt_add_left (ih hrest htail hytail hlt) _

end OiTerminal.Lib.Numeral
