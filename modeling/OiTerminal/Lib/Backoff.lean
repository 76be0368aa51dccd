import Mathlib.Algebra.Group.Nat.Defs
import Mathlib.Data.List.DropRight
import Mathlib.Order.MinMax

/-!
# Backoff by doubling

A delay that doubles up to a cap, and the number of failures since the last success. A counter
that is never reset counts the whole history, which is the same only as long as the first entry
alone may be a success.
-/
namespace OiTerminal.Lib.Backoff

set_option autoImplicit false

/-- The delay after `k` earlier ones. -/
def capped (base cap k : Nat) : Nat := min (base * 2 ^ k) cap

section

variable {base cap : Nat}

theorem capped_mono : Monotone (capped base cap) := by
  intro k k' hk
  have hpow : 2 ^ k ≤ 2 ^ k' := Nat.pow_le_pow_right (by decide) hk
  exact min_le_min (Nat.mul_le_mul_left base hpow) (le_refl cap)

theorem capped_zero_lt (hbase : 0 < base) (hcap : base < cap) (k : Nat) :
    capped base cap 0 < capped base cap (k + 1) := by
  have hstep : capped base cap 1 ≤ capped base cap (k + 1) := capped_mono (Nat.le_add_left 1 k)
  have hfirst : capped base cap 0 < capped base cap 1 := by
    unfold capped
    omega
  exact hfirst.trans_le hstep

theorem capped_of_le {k : Nat} (h : cap ≤ base * 2 ^ k) : capped base cap k = cap :=
  min_eq_right h

end

section

variable {α : Type} (failed : α → Bool)

/-- Failures since the last success. -/
def failures (past : List α) : Nat := (past.rtakeWhile failed).length

theorem failures_concat_failed {past : List α} {x : α} (h : failed x = true) :
    failures failed (past ++ [x]) = failures failed past + 1 := by
  unfold failures
  rw [List.rtakeWhile_concat_pos _ _ _ h, List.length_append]
  rfl

theorem failures_concat_succeeded {past : List α} {x : α} (h : failed x = false) :
    failures failed (past ++ [x]) = 0 := by
  unfold failures
  rw [List.rtakeWhile_concat_neg _ _ _ (by rw [h]; decide)]
  rfl

variable {failed}

/-- If only the first entry may be a success, all the others are failures since then. -/
theorem le_failures {past : List α} (h : ∀ x ∈ past.tail, failed x = true) :
    past.length ≤ failures failed past + 1 := by
  cases past with
  | nil => exact Nat.zero_le _
  | cons first rest =>
    induction rest using List.reverseRecOn with
    | nil => exact Nat.le_add_left ..
    | append_singleton rest x ih =>
      have hx : failed x = true := h x (List.mem_append_right _ (List.mem_singleton_self x))
      have hrest := ih fun y hy => h y (List.mem_append_left _ hy)
      rw [← List.cons_append, failures_concat_failed failed hx, List.length_append]
      exact Nat.succ_le_succ hrest

/-- Delays that go by the length of the history stay within those that go by the failures
since the last success, exactly if only the first entry may be a success. -/
theorem le_since_iff {delay : Nat → Nat} (hmono : Monotone delay)
    (hfirst : ∀ k, delay 0 < delay (k + 1)) (xs : List α) :
    (∀ i < xs.length, delay i ≤ delay (failures failed (xs.take (i + 1)))) ↔
      ∀ x ∈ xs.tail, failed x = true := by
  constructor
  · intro h x hx
    obtain ⟨i, hi, rfl⟩ := List.getElem_of_mem hx
    have hlt : i + 1 < xs.length := by
      rw [List.length_tail] at hi
      omega
    rw [List.getElem_tail]
    by_contra hnot
    have hzero : failures failed (xs.take (i + 1 + 1)) = 0 := by
      rw [List.take_succ_eq_append_getElem hlt]
      exact failures_concat_succeeded failed (Bool.eq_false_iff.mpr hnot)
    have hle := h (i + 1) hlt
    rw [hzero] at hle
    exact absurd hle (Nat.not_le_of_lt (hfirst i))
  · intro h i hi
    apply hmono
    have htail : ∀ x ∈ (xs.take (i + 1)).tail, failed x = true := by
      intro x hx
      rw [← List.drop_one, List.drop_take, List.drop_one] at hx
      exact h x (List.mem_of_mem_take hx)
    have hlength := le_failures htail
    rw [List.length_take_of_le hi] at hlength
    exact Nat.le_of_succ_le_succ hlength

end

end OiTerminal.Lib.Backoff
