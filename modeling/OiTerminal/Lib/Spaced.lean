import Mathlib.Data.List.Basic
import Mathlib.Data.List.Pairwise

/-!
# Times that keep a distance

A history of times, the newest first, in which each one is at least a gap after the one before.
-/
namespace OiTerminal.Lib.Spaced

set_option autoImplicit false

def Apart (gap : ℕ) (times : List ℕ) : Prop :=
  times.Pairwise fun later earlier => earlier + gap ≤ later

variable {gap : ℕ} {times : List ℕ}

theorem Apart.cons (h : Apart gap times) {now : ℕ} (hnow : ∀ t ∈ times, t + gap ≤ now) :
    Apart gap (now :: times) := List.pairwise_cons.mpr ⟨hnow, h⟩

/-- The newest time is a gap for each earlier one behind the oldest. -/
theorem Apart.spread {t a : ℕ} {rest : List ℕ} (h : Apart gap (t :: rest))
    (hall : ∀ u ∈ t :: rest, a ≤ u) : a + rest.length * gap ≤ t := by
  induction rest generalizing t with
  | nil =>
    rw [List.length_nil, Nat.zero_mul]
    exact hall t List.mem_cons_self
  | cons u more ih =>
    obtain ⟨hnewer, hrest⟩ := List.pairwise_cons.mp h
    have hspread := ih hrest fun v hv => hall v (List.mem_cons_of_mem t hv)
    have hgap := hnewer u List.mem_cons_self
    rw [List.length_cons, Nat.add_mul]
    omega

/-- A window of length `w` holds no more times than fit into it. -/
theorem Apart.window (h : Apart gap times) (hgap : 0 < gap) (a w : ℕ) :
    (times.filter fun t => a ≤ t ∧ t < a + w).length * gap < w + gap := by
  have hinside : Apart gap (times.filter fun t => a ≤ t ∧ t < a + w) := List.Pairwise.filter _ h
  have hall : ∀ t ∈ times.filter (fun t => a ≤ t ∧ t < a + w), a ≤ t ∧ t < a + w :=
    fun t ht => of_decide_eq_true (List.mem_filter.mp ht).2
  cases hfilter : times.filter fun t => a ≤ t ∧ t < a + w with
  | nil =>
    rw [List.length_nil, Nat.zero_mul]
    omega
  | cons t rest =>
    rw [hfilter] at hinside hall
    have hspread := hinside.spread fun u hu => (hall u hu).1
    have hlast := (hall t List.mem_cons_self).2
    rw [List.length_cons, Nat.add_mul]
    omega

end OiTerminal.Lib.Spaced
