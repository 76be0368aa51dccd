import Mathlib.Data.List.Basic

/-!
# Cutting a list into chunks

The chunks of a list have the same length, except for the last one, which may be shorter.
-/
namespace OiTerminal.Lib.Chunks

set_option autoImplicit false

variable {α : Type*}

/-- Chunks of `n` elements, for a positive `n`. -/
def chunks (n : ℕ) : List α → List (List α)
  | [] => []
  | x :: rest => (x :: rest.take (n - 1)) :: chunks n (rest.drop (n - 1))
termination_by xs => xs.length
decreasing_by
  rw [List.length_drop, List.length_cons]
  omega

theorem flatten_chunks (n : ℕ) (xs : List α) : (chunks n xs).flatten = xs := by
  induction xs using chunks.induct n with
  | case1 => rw [chunks, List.flatten_nil]
  | case2 x rest ih =>
    rw [chunks, List.flatten_cons, ih, List.cons_append, List.take_append_drop]

theorem length_le_of_mem_chunks {n : ℕ} (hn : 0 < n) {xs chunk : List α}
    (h : chunk ∈ chunks n xs) : chunk ≠ [] ∧ chunk.length ≤ n := by
  induction xs using chunks.induct n with
  | case1 =>
    rw [chunks] at h
    cases h
  | case2 x rest ih =>
    rw [chunks] at h
    rcases List.mem_cons.mp h with rfl | hmore
    · refine ⟨List.cons_ne_nil _ _, ?_⟩
      rw [List.length_cons, List.length_take]
      omega
    · exact ih hmore

theorem chunks_map {β : Type*} (f : α → β) (n : ℕ) (xs : List α) :
    chunks n (xs.map f) = (chunks n xs).map (List.map f) := by
  induction xs using chunks.induct n with
  | case1 =>
    rw [List.map_nil, chunks, chunks, List.map_nil]
  | case2 x rest ih =>
    rw [List.map_cons, chunks, chunks, List.map_cons, List.map_cons, ← List.map_take,
      ← List.map_drop, ih]

end OiTerminal.Lib.Chunks
