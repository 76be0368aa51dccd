import Mathlib.Algebra.Order.Group.Basic
import Mathlib.Algebra.Order.Module.Defs
import Mathlib.Data.Set.Card
import Mathlib.Order.Interval.Finset.Nat
import Mathlib.Tactic.Abel

/-!
# The backlog of a periodic server

A server that is due every `period`, never starts early and then works for `work k`. What
one round leaves undone is carried into the next, and idle time is not saved up.
-/
namespace OiTerminal.Lib.Backlog

set_option autoImplicit false

variable {α : Type*} [AddCommGroup α] [LinearOrder α] [IsOrderedAddMonoid α]

/-- Each round adds its excess over the period to what was left, and zero is the floor. -/
def Carries (period : α) (work backlog : ℕ → α) : Prop :=
  ∀ k, backlog (k + 1) = max 0 (backlog k + work k - period)

variable {period d : α} {work backlog : ℕ → α} {n : ℕ}

/-- Rounds that leave `d` of the period unused reduce the backlog by `d` each. -/
theorem Carries.le_of_spare (h : Carries period work backlog) (hd : 0 ≤ d)
    (hspare : ∀ k, n ≤ k → work k ≤ period - d) (j : ℕ) :
    backlog (n + j) ≤ max 0 (backlog n - j • d) := by
  induction j with
  | zero =>
    rw [zero_smul, sub_zero]
    exact le_max_right _ _
  | succ j ih =>
    have hround : backlog (n + j) + work (n + j) - period ≤ backlog (n + j) - d := by
      have hwork := add_le_add_right (hspare (n + j) (Nat.le_add_right n j)) (backlog (n + j))
      calc backlog (n + j) + work (n + j) - period
          ≤ backlog (n + j) + (period - d) - period := sub_le_sub_right hwork period
        _ = backlog (n + j) - d := by abel
    rw [← Nat.add_assoc, h (n + j)]
    refine max_le (le_max_left _ _) (hround.trans ?_)
    rcases le_max_iff.mp ih with hzero | hcarried
    · exact le_max_of_le_left (sub_nonpos.mpr (hzero.trans hd))
    · refine le_max_of_le_right ?_
      calc backlog (n + j) - d ≤ backlog n - j • d - d := sub_le_sub_right hcarried d
        _ = backlog n - (j + 1) • d := by rw [succ_nsmul]; abel

/-- A backlog of at most `m` spare times is worked off within `m` rounds. -/
theorem Carries.encard_positive_le (h : Carries period work backlog) (hd : 0 ≤ d)
    (hspare : ∀ k, n ≤ k → work k ≤ period - d) {m : ℕ} (hm : backlog n ≤ m • d) :
    {k | n ≤ k ∧ 0 < backlog k}.encard ≤ m := by
  have hsub : {k | n ≤ k ∧ 0 < backlog k} ⊆ (Finset.Ico n (n + m) : Set ℕ) := by
    intro k hk
    obtain ⟨j, rfl⟩ := Nat.exists_eq_add_of_le hk.1
    have hbound := h.le_of_spare hd hspare j
    have hj : j < m := by
      by_contra hmj
      have hsmul : m • d ≤ j • d := nsmul_le_nsmul_left hd (Nat.le_of_not_lt hmj)
      have hzero : backlog n - j • d ≤ 0 := sub_nonpos.mpr (hm.trans hsmul)
      exact absurd hk.2 (not_lt.mpr (hbound.trans (max_le le_rfl hzero)))
    exact Finset.mem_coe.mpr (Finset.mem_Ico.mpr ⟨Nat.le_add_right n j, by omega⟩)
  calc {k | n ≤ k ∧ 0 < backlog k}.encard
      ≤ (Finset.Ico n (n + m) : Set ℕ).encard := Set.encard_le_encard hsub
    _ = m := by rw [Set.encard_coe_eq_coe_finsetCard, Nat.card_Ico, Nat.add_sub_cancel_left]

end OiTerminal.Lib.Backlog
