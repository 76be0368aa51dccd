import Mathlib.Data.List.Basic

/-!
# Loops that stop at the first error

The body takes one element after the other and changes a state. It goes on or returns an
error, and an error ends the loop. What the loop has done is a prefix of its list for which
the body went on and, if it failed, the element after that.
-/
namespace OiTerminal.Lib.EarlyExit

set_option autoImplicit false

variable {α σ ε : Type*}

def loop (body : α → σ → Except ε Unit × σ) : List α → σ → Except ε Unit × σ
  | [], s => (.ok (), s)
  | x :: rest, s =>
    match body x s with
    | (.ok (), t) => loop body rest t
    | (.error e, t) => (.error e, t)

/-- The body goes on for each of the elements, from the first state to the last. -/
inductive Passes (body : α → σ → Except ε Unit × σ) : List α → σ → σ → Prop where
  | nil (s : σ) : Passes body [] s s
  | cons {x : α} {rest : List α} {s t u : σ} (head : body x s = (.ok (), t))
      (tail : Passes body rest t u) : Passes body (x :: rest) s u

/-- The loop has ended without an error, or at an element for which the body returned one. -/
inductive Ends (body : α → σ → Except ε Unit × σ) (mid : σ) :
    List α → Except ε Unit × σ → Prop where
  | done : Ends body mid [] (.ok (), mid)
  | failed {x : α} {later : List α} {e : ε} {t : σ} (h : body x mid = (.error e, t)) :
      Ends body mid (x :: later) (.error e, t)

/-- Each element that the loop comes to is met in a state where `ok` allows it. -/
def Meets (body : α → σ → Except ε Unit × σ) (ok : σ → α → Prop) : List α → σ → Prop
  | [], _ => True
  | x :: rest, s => ok s x ∧ ∀ t, body x s = (.ok (), t) → Meets body ok rest t

variable {body : α → σ → Except ε Unit × σ} {ok : σ → α → Prop}

/-- The loop handles a prefix and ends after it. -/
theorem loop_split (body : α → σ → Except ε Unit × σ) (xs : List α) (s : σ) :
    ∃ done tail mid, xs = done ++ tail ∧ Passes body done s mid ∧
      Ends body mid tail (loop body xs s) := by
  induction xs generalizing s with
  | nil => exact ⟨[], [], s, rfl, .nil s, .done⟩
  | cons x rest ih =>
    unfold loop
    cases hbody : body x s with
    | mk answer t =>
      cases answer with
      | ok u =>
        obtain ⟨done, tail, mid, rfl, hpasses, hends⟩ := ih t
        exact ⟨x :: done, tail, mid, rfl, .cons hbody hpasses, hends⟩
      | error e => exact ⟨[], x :: rest, s, rfl, .nil s, .failed hbody⟩

theorem Passes.append {xs ys : List α} {s t u : σ} (h : Passes body xs s t)
    (h' : Passes body ys t u) : Passes body (xs ++ ys) s u := by
  induction h with
  | nil s => exact h'
  | cons head _ ih => exact .cons head (ih h')

/-- An invariant that may speak of what has been handled so far and of what is left. -/
theorem Passes.induct {inv : List α → σ → Prop} {s mid : σ} {xs : List α}
    (h : Passes body xs s mid) (hs : inv [] s)
    (hstep : ∀ done x later t u, xs = done ++ x :: later → inv done t →
      body x t = (.ok (), u) → inv (done ++ [x]) u) : inv xs mid := by
  suffices hall : ∀ front, (∀ done x later t u, front ++ xs = done ++ x :: later → inv done t →
      body x t = (.ok (), u) → inv (done ++ [x]) u) → inv front s → inv (front ++ xs) mid from
    hall [] hstep hs
  clear hs hstep
  induction h with
  | nil s =>
    intro front _ hfront
    rw [List.append_nil]
    exact hfront
  | @cons x rest s t u head tail ih =>
    intro front hstep hfront
    have hnext := hstep front x rest s t rfl hfront head
    rw [← List.singleton_append, ← List.append_assoc] at hstep ⊢
    exact ih (front ++ [x]) hstep hnext

/-- What no step changes the loop does not change. -/
theorem loop_keeps {P : σ → Prop} (hstep : ∀ s x, P s → P (body x s).2) {xs : List α} {s : σ}
    (hs : P s) : P (loop body xs s).2 := by
  induction xs generalizing s with
  | nil => exact hs
  | cons x rest ih =>
    have hnext := hstep s x hs
    unfold loop
    cases hbody : body x s with
    | mk answer t =>
      rw [hbody] at hnext
      cases answer with
      | ok u => exact ih hnext
      | error e => exact hnext

/-- Where a step keeps `P` exactly if it is allowed, and nothing restores `P`, the loop keeps
it exactly if all that it comes to is allowed. -/
theorem loop_iff_meets {P : σ → Prop} (hstep : ∀ s x, P s → (P (body x s).2 ↔ ok s x))
    (hlost : ∀ s x, ¬ P s → ¬ P (body x s).2) {xs : List α} {s : σ} (hs : P s) :
    P (loop body xs s).2 ↔ Meets body ok xs s := by
  induction xs generalizing s with
  | nil => exact iff_of_true hs trivial
  | cons x rest ih =>
    have hx := hstep s x hs
    unfold loop Meets
    cases hbody : body x s with
    | mk answer t =>
      rw [hbody] at hx
      cases answer with
      | error e =>
        simp only [Prod.mk.injEq, reduceCtorEq, false_and, false_implies, implies_true, and_true]
        exact hx
      | ok u =>
        simp only [Prod.mk.injEq, true_and, forall_eq']
        by_cases ht : P t
        · rw [ih ht, and_iff_right (hx.mp ht)]
        · have hend : ¬ P (loop body rest t).2 := loop_keeps hlost ht
          exact iff_of_false hend fun h => ht (hx.mpr h.1)

/-- What the element `x` turns from `A` into `B` has become `B` after a loop that no error
ends. -/
theorem loop_reaches {A B : σ → Prop} {x : α} (hgoes : ∀ s y, ∃ t, body y s = (.ok (), t))
    (hother : ∀ s y t, y ≠ x → A s → body y s = (.ok (), t) → A t)
    (hself : ∀ s t, A s → body x s = (.ok (), t) → B t)
    (hkeep : ∀ s y, B s → B (body y s).2) {xs : List α} {s : σ} (hx : x ∈ xs) (hs : A s) :
    B (loop body xs s).2 := by
  induction xs generalizing s with
  | nil => cases hx
  | cons y rest ih =>
    obtain ⟨t, hbody⟩ := hgoes s y
    unfold loop
    rw [hbody]
    dsimp only
    by_cases hyx : y = x
    · subst hyx
      exact loop_keeps hkeep (hself s t hs hbody)
    · have hrest : x ∈ rest := (List.mem_cons.mp hx).resolve_left (Ne.symm hyx)
      exact ih hrest (hother s y t hyx hs hbody)

end OiTerminal.Lib.EarlyExit
