import Mathlib.Data.List.Basic
import Mathlib.Data.Prod.Lex

/-!
# Scans by key

A scan goes through the keys in their order, and for each of them through the elements that have
it. What it finds is the first element with an answer: by the place of its key, and then by its
own.
-/
namespace OiTerminal.Lib.Scan

set_option autoImplicit false

variable {α κ ρ : Type*} [DecidableEq κ]

def scan (keys : List κ) (key : α → κ) (answer : κ → α → Option ρ) (xs : List α) : Option ρ :=
  keys.findSome? fun k => (xs.filter fun x => key x = k).findSome? (answer k)

/-- The place of an element, for elements with places of their own. -/
def place (keys : List κ) (key : α → κ) (pos : α → ℕ) (x : α) : ℕ ×ₗ ℕ :=
  toLex (keys.idxOf (key x), pos x)

variable {keys : List κ} {key : α → κ} {answer : κ → α → Option ρ} {xs : List α} {pos : α → ℕ}

theorem scan_eq_none_iff :
    scan keys key answer xs = none ↔ ∀ x ∈ xs, key x ∈ keys → answer (key x) x = none := by
  unfold scan
  simp only [List.findSome?_eq_none_iff, List.mem_filter, decide_eq_true_iff]
  constructor
  · exact fun h x hx hkey => h (key x) hkey x ⟨hx, rfl⟩
  · intro h k hk x hx
    obtain ⟨hmem, rfl⟩ := hx
    exact h x hmem hk

theorem pos_le_of_notMem {x y : α} {front back : List α}
    (hpos : (front ++ x :: back).Pairwise fun x y => pos x < pos y) (hy : y ∈ front ++ x :: back)
    (hfront : y ∉ front) : pos x ≤ pos y := by
  have hback := (List.pairwise_cons.mp (List.pairwise_append.mp hpos).2.1).1
  rcases List.mem_cons.mp ((List.mem_append.mp hy).resolve_left hfront) with rfl | hmem
  · exact le_rfl
  · exact (hback y hmem).le

/-- What is found comes from the first element that has an answer. -/
theorem exists_of_scan (hpos : xs.Pairwise fun x y => pos x < pos y) {r : ρ}
    (h : scan keys key answer xs = some r) :
    ∃ x ∈ xs, answer (key x) x = some r ∧ ∀ y ∈ xs, answer (key y) y ≠ none →
      place keys key pos x ≤ place keys key pos y := by
  obtain ⟨before, k, after, hkeys, hfound, hbefore⟩ := List.findSome?_eq_some_iff.mp h
  obtain ⟨front, x, back, hfilter, hanswer, hfront⟩ := List.findSome?_eq_some_iff.mp hfound
  have hx : x ∈ xs.filter fun x => key x = k := by
    rw [hfilter]
    simp
  obtain ⟨hmem, hkey⟩ := List.mem_filter.mp hx
  obtain rfl := of_decide_eq_true hkey
  -- an element with an answer has its key at this one or after it
  have hlater : ∀ y ∈ xs, answer (key y) y ≠ none → key y ∉ before := by
    intro y hy hsome hin
    have hnone := List.findSome?_eq_none_iff.mp (hbefore (key y) hin) y
      (List.mem_filter.mpr ⟨hy, decide_eq_true rfl⟩)
    exact hsome hnone
  have hself : answer (key x) x ≠ none := by
    rw [hanswer]
    exact Option.some_ne_none r
  refine ⟨x, hmem, hanswer, fun y hy hsome => ?_⟩
  have hidx : keys.idxOf (key x) = before.length := by
    rw [hkeys, List.idxOf_append_of_notMem (hlater x hmem hself), List.idxOf_cons_self]
    rfl
  have hidxY : keys.idxOf (key y) = before.length + (key x :: after).idxOf (key y) := by
    rw [hkeys, List.idxOf_append_of_notMem (hlater y hy hsome)]
  rw [place, place, Prod.Lex.toLex_le_toLex, hidx, hidxY]
  dsimp only
  by_cases heq : key y = key x
  · right
    rw [heq, List.idxOf_cons_self]
    refine ⟨rfl, ?_⟩
    -- the same key: the element is not in front
    have hsorted := hpos.filter fun x' => key x' = key x
    have hyfilter : y ∈ xs.filter fun x' => key x' = key x :=
      List.mem_filter.mpr ⟨hy, decide_eq_true heq⟩
    rw [hfilter] at hsorted hyfilter
    exact pos_le_of_notMem hsorted hyfilter fun hin => (heq ▸ hsome) (hfront y hin)
  · left
    rw [List.idxOf_cons_ne _ (Ne.symm heq)]
    omega

end OiTerminal.Lib.Scan
