import Mathlib.Data.Set.Basic
import Mathlib.Order.Basic

/-!
# Resuming from the newest stored item

A store that holds every item below each of its elements has no gap below any of them. It
may therefore be completed by fetching only what is newer than one of its elements.
-/
namespace OiTerminal.Lib.CatchUp

set_option autoImplicit false

variable {τ : Type*} [LinearOrder τ] {items stored fetched : Set τ} {since : Option τ} {now : τ}

/-- Nothing is missing below a stored element. -/
def Closed (items stored : Set τ) : Prop := ∀ x ∈ stored, ∀ v ∈ items, v < x → v ∈ stored

/-- All items after the cursor, if there is one, up to now. -/
def FetchedSince (items : Set τ) (since : Option τ) (now : τ) (fetched : Set τ) : Prop :=
  ∀ v, v ∈ fetched ↔ v ∈ items ∧ (∀ x ∈ since, x < v) ∧ v ≤ now

theorem Closed.mem_of_le (h : Closed items stored) {x v : τ} (hx : x ∈ stored) (hv : v ∈ items)
    (hle : v ≤ x) : v ∈ stored := by
  rcases lt_or_eq_of_le hle with hlt | rfl
  · exact h x hx v hv hlt
  · exact hx

/-- More elements keep the store closed when nothing is missing below them. -/
theorem Closed.union (h : Closed items stored)
    (hnew : ∀ x ∈ fetched, ∀ v ∈ items, v < x → v ∈ stored ∨ v ∈ fetched) :
    Closed items (stored ∪ fetched) := by
  rintro x (hx | hx) v hv hlt
  · exact .inl (h x hx v hv hlt)
  · exact hnew x hx v hv hlt

/-- Fetching from a stored cursor completes the store up to now. -/
theorem Closed.mem_of_fetched (h : Closed items stored) (hsince : ∀ x ∈ since, x ∈ stored)
    (hfetched : FetchedSince items since now fetched) {v : τ} (hv : v ∈ items) (hle : v ≤ now) :
    v ∈ stored ∨ v ∈ fetched := by
  by_cases hnewer : ∀ x ∈ since, x < v
  · exact .inr ((hfetched v).mpr ⟨hv, hnewer, hle⟩)
  · push Not at hnewer
    obtain ⟨x, hx, hvx⟩ := hnewer
    exact .inl (h.mem_of_le (hsince x hx) hv hvx)

theorem Closed.catchUp (h : Closed items stored) (hsince : ∀ x ∈ since, x ∈ stored)
    (hfetched : FetchedSince items since now fetched) : Closed items (stored ∪ fetched) := by
  refine h.union fun x hx v hv hlt => ?_
  have hx' : x ≤ now := ((hfetched x).mp hx).2.2
  exact h.mem_of_fetched hsince hfetched hv (hlt.le.trans hx')

end OiTerminal.Lib.CatchUp
