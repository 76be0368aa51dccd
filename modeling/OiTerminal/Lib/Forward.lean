import Mathlib.Data.List.Dedup
import Mathlib.Data.List.Forall2
import Mathlib.Order.Lattice
import OiTerminal.Lib.ByKey

/-!
# Moves forward in a sequence

Of a sequence with values in an order, the neighbours of which the second has the greater value.
If the values never go back, each value but the last is left exactly once, by the last element
that has it.
-/
namespace OiTerminal.Lib.Forward

open OiTerminal.Lib.ByKey

set_option autoImplicit false

variable {α β : Type*}

def neighbours (xs : List α) : List (α × α) := xs.zip xs.tail

variable [LinearOrder β] (f : α → β)

def forward (xs : List α) : List (α × α) := (neighbours xs).filter fun p => f p.1 < f p.2

theorem neighbours_cons_cons (x y : α) (rest : List α) :
    neighbours (x :: y :: rest) = (x, y) :: neighbours (y :: rest) := rfl

theorem neighbours_concat (xs : List α) (x : α) :
    neighbours (xs ++ [x]) = neighbours xs ++ (xs.getLast?.map fun y => (y, x)).toList := by
  induction xs with
  | nil => rfl
  | cons a rest ih =>
    cases rest with
    | nil => rfl
    | cons b rest =>
      rw [List.cons_append, List.cons_append, neighbours_cons_cons, neighbours_cons_cons,
        ← List.cons_append, ih, List.getLast?_cons_cons]
      rfl

variable {f}

theorem mem_forward {xs : List α} {p : α × α} :
    p ∈ forward f xs ↔ p ∈ neighbours xs ∧ f p.1 < f p.2 := by
  rw [forward, List.mem_filter, decide_eq_true_iff]

theorem forward_concat (xs : List α) (x : α) :
    forward f (xs ++ [x]) = forward f xs ++
      ((xs.getLast?.filter fun y => f y < f x).map fun y => (y, x)).toList := by
  unfold forward
  rw [neighbours_concat, List.filter_append]
  congr 1
  cases xs.getLast? with
  | none => rfl
  | some y =>
    by_cases h : f y < f x
    · simp [Option.filter, h]
    · simp [Option.filter, h]

theorem forward_cons_cons (x y : α) (rest : List α) : forward f (x :: y :: rest) =
    if f x < f y then (x, y) :: forward f (y :: rest) else forward f (y :: rest) := by
  unfold forward
  rw [neighbours_cons_cons, List.filter_cons]
  simp only [decide_eq_true_iff]

/-- A later element takes precedence. -/
theorem lastOf_cons_of_mem {v : β} {xs : List α} (h : v ∈ xs.map f) (x : α) :
    lastOf f v (x :: xs) = lastOf f v xs := by
  obtain ⟨y, hy, rfl⟩ := List.mem_map.mp h
  have hsome : lastOf f (f y) xs ≠ none := fun hnone => lastOf_eq_none_iff.mp hnone y hy rfl
  obtain ⟨z, hz⟩ := Option.ne_none_iff_exists'.mp hsome
  rw [← List.singleton_append, lastOf_append, hz, Option.some_or]

theorem lastOf_cons_of_notMem {x : α} {xs : List α} (h : f x ∉ xs.map f) :
    lastOf f (f x) (x :: xs) = some x := by
  have hnone : lastOf f (f x) xs = none := lastOf_eq_none_iff.mpr fun y hy heq =>
    h (heq ▸ List.mem_map_of_mem hy)
  rw [← List.singleton_append, lastOf_append, hnone, Option.none_or, lastOf,
    ofKey_cons_self [] rfl]
  rfl

/-- Where the values never go back, the moves forward leave the values but the last in their
order, each at the last element that has it. -/
theorem forward_of_sorted {xs : List α} (h : (xs.map f).Pairwise (· ≤ ·)) :
    List.Forall₂ (fun v p => lastOf f v xs = some p.1) (xs.map f).dedup.dropLast
      (forward f xs) := by
  induction xs with
  | nil => exact .nil
  | cons x rest ih =>
    rw [List.map_cons] at h
    obtain ⟨hx, hrest⟩ := List.pairwise_cons.mp h
    have ih := ih hrest
    cases rest with
    | nil => exact .nil
    | cons y more =>
      -- what is left over keeps its last elements
      have htail : List.Forall₂ (fun v p => lastOf f v (x :: y :: more) = some p.1)
          ((y :: more).map f).dedup.dropLast (forward f (y :: more)) := by
        have hmem : ∀ v ∈ ((y :: more).map f).dedup.dropLast, v ∈ (y :: more).map f :=
          fun v hv => List.dedup_subset _ ((List.dropLast_sublist _).subset hv)
        refine ((List.forall₂_and_left _ _).mpr ⟨hmem, ih⟩).imp ?_
        intro v p hboth
        rw [lastOf_cons_of_mem hboth.1, hboth.2]
      rw [forward_cons_cons, List.map_cons]
      by_cases hxy : f x < f y
      · have hnew : f x ∉ (y :: more).map f := by
          intro hmem
          rw [List.map_cons] at hrest hmem
          rcases List.mem_cons.mp hmem with heq | hmem
          · exact ne_of_lt hxy heq
          · exact absurd ((List.pairwise_cons.mp hrest).1 _ hmem) (not_le.mpr hxy)
        have hne : ((y :: more).map f).dedup ≠ [] := by simp
        rw [List.dedup_cons_of_notMem hnew, List.dropLast_cons_of_ne_nil hne, if_pos hxy]
        exact .cons (lastOf_cons_of_notMem hnew) htail
      · have heq : f x = f y := le_antisymm (hx (f y) List.mem_cons_self) (not_lt.mp hxy)
        have hold : f x ∈ (y :: more).map f := heq ▸ List.mem_cons_self
        rw [List.dedup_cons_of_mem hold, if_neg hxy]
        exact htail

end OiTerminal.Lib.Forward
