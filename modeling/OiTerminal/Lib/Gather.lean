import Mathlib.Data.List.Perm.Basic
import OiTerminal.Lib.FanOut

/-!
# Fan-outs that gather answers as they complete

The loop takes up every answer when its task completes. What it has gathered at the end is the fold
of the answers in the order of completion, in which every task comes once.
-/
namespace OiTerminal.Lib.Gather

open OiTerminal.Lib OiTerminal.Lib.Transition

set_option autoImplicit false

variable {Task Answer Acc : Type*}

/-- `order` is the history of the completions. -/
structure Gathering (Answer Acc : Type*) where
  progress : FanOut.Progress Answer
  acc : Acc
  order : List ℕ

def start (tasks : List Task) (limit : ℕ) (acc : Acc) : Gathering Answer Acc :=
  ⟨FanOut.start tasks limit, acc, []⟩

/-- The task of this index completes, and its answer is taken up. -/
def step (tasks : List Task) (answer : ℕ → Task → Answer) (absorb : Acc → Task → Answer → Acc)
    (g : Gathering Answer Acc) (idx : ℕ) : Option (Gathering Answer Acc) :=
  (FanOut.step tasks answer g.progress idx).bind fun progress =>
    (tasks[idx]?).map fun task =>
      ⟨progress, absorb g.acc task (answer idx task), g.order ++ [idx]⟩

/-- The tasks in the order of completion, with their indices. -/
def taken (tasks : List Task) (order : List ℕ) : List (Task × ℕ) :=
  order.filterMap fun idx => (tasks[idx]?).map fun task => (task, idx)

/-- The answers that were taken up, in order. -/
def gathered (answer : ℕ → Task → Answer) (absorb : Acc → Task → Answer → Acc) (acc : Acc)
    (taken : List (Task × ℕ)) : Acc :=
  taken.foldl (fun acc t => absorb acc t.1 (answer t.2 t.1)) acc

/-- The accumulator is the fold of the completions. -/
structure Inv (tasks : List Task) (limit : ℕ) (answer : ℕ → Task → Answer)
    (absorb : Acc → Task → Answer → Acc) (acc : Acc) (g : Gathering Answer Acc) : Prop where
  run : run (FanOut.step tasks answer) (FanOut.start tasks limit) g.order = some g.progress
  acc : g.acc = gathered answer absorb acc (taken tasks g.order)

variable {tasks : List Task} {limit : ℕ} {answer : ℕ → Task → Answer}
  {absorb : Acc → Task → Answer → Acc} {acc : Acc} {g g' : Gathering Answer Acc}

theorem inv_start : Inv tasks limit answer absorb acc (start tasks limit acc) := ⟨rfl, rfl⟩

theorem inv_step {idx : ℕ} (h : Inv tasks limit answer absorb acc g)
    (hstep : step tasks answer absorb g idx = some g') : Inv tasks limit answer absorb acc g' := by
  obtain ⟨progress, hprogress, hnext⟩ := Option.bind_eq_some_iff.mp hstep
  obtain ⟨task, htask, rfl⟩ := Option.map_eq_some_iff.mp hnext
  refine ⟨?_, ?_⟩
  · rw [run_append h.run, run, hprogress]
    rfl
  · have htaken : taken tasks (g.order ++ [idx]) = taken tasks g.order ++ [(task, idx)] := by
      unfold taken
      rw [List.filterMap_append, List.filterMap_cons_some (b := (task, idx)) (by rw [htask]; rfl)]
      rfl
    dsimp only
    rw [htaken, gathered, List.foldl_append, h.acc]
    rfl

theorem taken_range (tasks : List Task) :
    taken tasks (List.range tasks.length) = tasks.zipIdx := by
  have hmap : (List.range tasks.length).map (fun idx => (tasks[idx]?).map fun task => (task, idx)) =
      tasks.zipIdx.map some := by
    apply List.ext_getElem
    · rw [List.length_map, List.length_map, List.length_range, List.length_zipIdx]
    · intro i hi _
      rw [List.length_map, List.length_range] at hi
      rw [List.getElem_map, List.getElem_map, List.getElem_range, List.getElem_zipIdx,
        List.getElem?_eq_getElem hi, Nat.zero_add]
      rfl
  have htaken : ∀ order, taken tasks order =
      (order.map fun idx => (tasks[idx]?).map fun task => (task, idx)).filterMap id := by
    intro order
    rw [List.filterMap_map]
    rfl
  rw [htaken, hmap, List.filterMap_map]
  exact List.filterMap_some

/-- When nothing is in flight, every task has been taken up once. -/
theorem Inv.taken_perm (h : Inv tasks limit answer absorb acc g) (hlimit : 0 < limit)
    (hdrained : g.progress.inflight = []) : (taken tasks g.order).Perm tasks.zipIdx := by
  rw [← taken_range]
  exact (FanOut.perm_of_drained hlimit h.run hdrained).filterMap _

theorem Inv.reached (h : Inv tasks limit answer absorb acc g) :
    FanOut.Reached tasks limit answer g.order g.progress := FanOut.reached_of_run h.run

end OiTerminal.Lib.Gather
