import Mathlib.Data.List.Nodup
import OiTerminal.Lib.Transition

/-!
# Bounded fan-out

A list of tasks, of which at most `limit` are in flight. A task that completes writes its
answer into the slot of its own index, and the next task is started. Completions come in
any order. Once nothing is in flight every slot holds the answer of its task.
-/
namespace OiTerminal.Lib.FanOut

open OiTerminal.Lib.Transition

set_option autoImplicit false

structure Progress (Answer : Type*) where
  next : ℕ
  inflight : List ℕ
  slots : List (Option Answer)

variable {Task Answer : Type*}

def Progress.spawn (f : Progress Answer) : Progress Answer :=
  { f with next := f.next + 1, inflight := f.inflight ++ [f.next] }

/-- Start tasks up to the limit. -/
def prime (total limit : ℕ) (f : Progress Answer) : Progress Answer :=
  if f.next < total ∧ f.inflight.length < limit then prime total limit f.spawn else f
termination_by total - f.next
decreasing_by
  show total - (f.next + 1) < total - f.next
  omega

def start (tasks : List Task) (limit : ℕ) : Progress Answer :=
  prime tasks.length limit ⟨0, [], List.replicate tasks.length none⟩

/-- The task of this index completes, if it is in flight. -/
def step (tasks : List Task) (answer : ℕ → Task → Answer) (f : Progress Answer) (idx : ℕ) :
    Option (Progress Answer) :=
  if idx ∈ f.inflight then
    (tasks[idx]?).map fun task =>
      let done : Progress Answer := { f with
        inflight := f.inflight.erase idx
        slots := f.slots.set idx (some (answer idx task)) }
      if done.next < tasks.length then done.spawn else done
  else none

/-- All the slots, each of which has to be filled. -/
def Progress.collect (f : Progress Answer) : Option (List Answer) := f.slots.mapM id

structure Inv (tasks : List Task) (limit : ℕ) (answer : ℕ → Task → Answer) (f : Progress Answer) :
    Prop where
  length : f.slots.length = tasks.length
  next_le : f.next ≤ tasks.length
  nodup : f.inflight.Nodup
  started : ∀ i ∈ f.inflight, i < f.next
  bounded : f.inflight.length ≤ limit
  filled : ∀ i < f.next, i ∉ f.inflight →
    f.slots[i]? = (tasks[i]?).map fun task => some (answer i task)

/-- As many tasks are in flight as may be. -/
def Full (tasks : List Task) (limit : ℕ) (f : Progress Answer) : Prop :=
  f.next = tasks.length ∨ f.inflight.length = limit

variable {tasks : List Task} {limit : ℕ} {answer : ℕ → Task → Answer} {f f' : Progress Answer}

theorem Inv.spawn (h : Inv tasks limit answer f) (hnext : f.next < tasks.length)
    (hroom : f.inflight.length < limit) : Inv tasks limit answer f.spawn where
  length := h.length
  next_le := hnext
  nodup := by
    have hnew : f.next ∉ f.inflight := fun hmem => Nat.lt_irrefl _ (h.started _ hmem)
    exact List.nodup_append.mpr ⟨h.nodup, List.nodup_singleton _, fun a ha b hb hab => by
      rw [List.mem_singleton] at hb
      subst hb hab
      exact hnew ha⟩
  started i hi := by
    show i < f.next + 1
    rcases List.mem_append.mp hi with hold | hnew
    · have := h.started i hold
      omega
    · have := List.mem_singleton.mp hnew
      omega
  bounded := by
    show (f.inflight ++ [f.next]).length ≤ limit
    rw [List.length_append, List.length_singleton]
    omega
  filled i hi hout := by
    change i < f.next + 1 at hi
    have hne : i ≠ f.next := fun heq => hout (List.mem_append_right _ (by simp [heq]))
    exact h.filled i (by omega) fun hmem => hout (List.mem_append_left _ hmem)

/-- Priming ends with the limit reached or all tasks started. -/
theorem prime_spec (h : Inv tasks limit answer f) :
    Inv tasks limit answer (prime tasks.length limit f) ∧
      Full tasks limit (prime tasks.length limit f) := by
  induction f using prime.induct tasks.length limit with
  | case1 f hroom ih =>
    rw [prime, if_pos hroom]
    exact ih (h.spawn hroom.1 hroom.2)
  | case2 f hdone =>
    rw [prime, if_neg hdone]
    refine ⟨h, ?_⟩
    have hnext := h.next_le
    have hbounded := h.bounded
    unfold Full
    omega

theorem start_spec (tasks : List Task) (limit : ℕ) (answer : ℕ → Task → Answer) :
    Inv tasks limit answer (start tasks limit) ∧
      Full tasks limit (start tasks limit : Progress Answer) := by
  apply prime_spec
  constructor
  case length => exact List.length_replicate
  case next_le => exact Nat.zero_le _
  case nodup => exact List.nodup_nil
  case started => intro i hi; cases hi
  case bounded => exact Nat.zero_le _
  case filled => intro i hi; cases hi

/-- What a completion does: its slot is filled, and one more task is started if any is
left. -/
theorem step_cases {idx : ℕ} (h : step tasks answer f idx = some f') :
    ∃ task, idx ∈ f.inflight ∧ tasks[idx]? = some task ∧
      ((f.next < tasks.length ∧ f' = Progress.spawn ⟨f.next, f.inflight.erase idx,
          f.slots.set idx (some (answer idx task))⟩) ∨
        (tasks.length ≤ f.next ∧ f' = ⟨f.next, f.inflight.erase idx,
          f.slots.set idx (some (answer idx task))⟩)) := by
  unfold step at h
  split at h
  case isFalse => cases h
  case isTrue hmem =>
    obtain ⟨task, htask, hnext⟩ := Option.map_eq_some_iff.mp h
    refine ⟨task, hmem, htask, ?_⟩
    by_cases hmore : f.next < tasks.length
    · exact .inl ⟨hmore, by rw [← hnext]; exact if_pos hmore⟩
    · exact .inr ⟨Nat.le_of_not_lt hmore, by rw [← hnext]; exact if_neg hmore⟩

/-- The slot of a task that completes, and the others as they were. -/
theorem Inv.complete {idx : ℕ} {task : Task} (h : Inv tasks limit answer f)
    (hmem : idx ∈ f.inflight) (htask : tasks[idx]? = some task) :
    Inv tasks limit answer
      ⟨f.next, f.inflight.erase idx, f.slots.set idx (some (answer idx task))⟩ where
  length := List.length_set.trans h.length
  next_le := h.next_le
  nodup := h.nodup.erase idx
  started i hi := h.started i (List.mem_of_mem_erase hi)
  bounded := Nat.le_trans List.length_erase_le h.bounded
  filled i hi hout := by
    show (f.slots.set idx (some (answer idx task)))[i]? = _
    by_cases hidx : i = idx
    · subst hidx
      have hlt : i < f.slots.length := by
        rw [h.length]
        exact Nat.lt_of_lt_of_le hi h.next_le
      rw [List.getElem?_set_self hlt, htask]
      rfl
    · rw [List.getElem?_set_ne (Ne.symm hidx)]
      exact h.filled i hi fun hin => hout ((List.mem_erase_of_ne hidx).mpr hin)

theorem step_spec {idx : ℕ} (h : Inv tasks limit answer f) (hfull : Full tasks limit f)
    (hstep : step tasks answer f idx = some f') :
    Inv tasks limit answer f' ∧ Full tasks limit f' := by
  obtain ⟨task, hmem, htask, ⟨hmore, rfl⟩ | ⟨hdone, rfl⟩⟩ := step_cases hstep
  · have hlength : (f.inflight.erase idx).length + 1 = f.inflight.length := by
      rw [List.length_erase_of_mem hmem]
      have := List.length_pos_of_mem hmem
      omega
    have hlimit : f.inflight.length = limit := hfull.resolve_left (by omega)
    refine ⟨(h.complete hmem htask).spawn hmore ?_, .inr ?_⟩
    · show (f.inflight.erase idx).length < limit
      omega
    · show (f.inflight.erase idx ++ [f.next]).length = limit
      rw [List.length_append, List.length_singleton]
      omega
  · have hnext := h.next_le
    exact ⟨h.complete hmem htask, .inl (Nat.le_antisymm hnext hdone)⟩

theorem run_spec {order : List ℕ} (h : Inv tasks limit answer f) (hfull : Full tasks limit f)
    (hrun : run (step tasks answer) f order = some f') :
    Inv tasks limit answer f' ∧ Full tasks limit f' := by
  induction order generalizing f with
  | nil =>
    obtain rfl := Option.some.inj hrun
    exact ⟨h, hfull⟩
  | cons idx rest ih =>
    obtain ⟨next, hnext, hrest⟩ := run_cons_eq_some.mp hrun
    obtain ⟨hinv, hfull'⟩ := step_spec h hfull hnext
    exact ih hinv hfull' hrest

theorem mapM_id_map_some (xs : List Answer) : (xs.map some).mapM id = some xs := by
  induction xs with
  | nil => rfl
  | cons x rest ih =>
    rw [List.map_cons, List.mapM_cons, ih]
    rfl

/-- When nothing is in flight, every task has been started. -/
theorem next_of_drained (hfull : Full tasks limit f) (hlimit : 0 < limit)
    (hdrained : f.inflight = []) : f.next = tasks.length := by
  rcases hfull with hall | hlen
  · exact hall
  · rw [hdrained, List.length_nil] at hlen
    omega

/-- When nothing is in flight, every task has answered into its own slot. -/
theorem collect_of_drained (h : Inv tasks limit answer f) (hfull : Full tasks limit f)
    (hlimit : 0 < limit) (hdrained : f.inflight = []) :
    f.collect = some (tasks.mapIdx answer) := by
  have hnext := next_of_drained hfull hlimit hdrained
  have hslots : f.slots = (tasks.mapIdx answer).map some := by
    apply List.ext_getElem?
    intro i
    rw [List.getElem?_map, List.getElem?_mapIdx, Option.map_map]
    by_cases hi : i < tasks.length
    · exact h.filled i (hnext ▸ hi) (by rw [hdrained]; exact List.not_mem_nil)
    · rw [List.getElem?_eq_none (by rw [h.length]; omega), List.getElem?_eq_none (by omega)]
      rfl
  unfold Progress.collect
  rw [hslots]
  exact mapM_id_map_some _

/-- Whatever the order of completion, a run that drains collects the answers in the order
of the tasks. -/
theorem collect_of_run {order : List ℕ} (hlimit : 0 < limit)
    (hrun : run (step tasks answer) (start tasks limit) order = some f)
    (hdrained : f.inflight = []) : f.collect = some (tasks.mapIdx answer) := by
  obtain ⟨hinv, hfull⟩ := start_spec tasks limit answer
  obtain ⟨hinv', hfull'⟩ := run_spec hinv hfull hrun
  exact collect_of_drained hinv' hfull' hlimit hdrained

/-- A task in flight can complete, which leaves one task less to do. -/
theorem exists_step {idx : ℕ} (h : Inv tasks limit answer f) (hmem : idx ∈ f.inflight) :
    ∃ f', step tasks answer f idx = some f' ∧
      tasks.length - f'.next + f'.inflight.length + 1 =
        tasks.length - f.next + f.inflight.length := by
  have hidx : idx < tasks.length := Nat.lt_of_lt_of_le (h.started idx hmem) h.next_le
  have hlength : (f.inflight.erase idx).length + 1 = f.inflight.length := by
    rw [List.length_erase_of_mem hmem]
    have := List.length_pos_of_mem hmem
    omega
  have hstep : ∃ f', step tasks answer f idx = some f' := by
    unfold step
    rw [if_pos hmem, List.getElem?_eq_getElem hidx]
    exact ⟨_, rfl⟩
  obtain ⟨f', hf'⟩ := hstep
  refine ⟨f', hf', ?_⟩
  obtain ⟨task, _, _, ⟨hmore, rfl⟩ | ⟨hdone, rfl⟩⟩ := step_cases hf'
  · show tasks.length - (f.next + 1) + (f.inflight.erase idx ++ [f.next]).length + 1 = _
    rw [List.length_append, List.length_singleton]
    omega
  · show tasks.length - f.next + (f.inflight.erase idx).length + 1 = _
    omega

/-- From any state the tasks can complete, by induction on those that have not. -/
theorem exists_drain (n : ℕ) (h : Inv tasks limit answer f) (hfull : Full tasks limit f)
    (hleft : tasks.length - f.next + f.inflight.length = n) :
    ∃ order f', run (step tasks answer) f order = some f' ∧ f'.inflight = [] := by
  induction n generalizing f with
  | zero =>
    have hempty : f.inflight.length = 0 := by omega
    exact ⟨[], f, rfl, List.length_eq_zero_iff.mp hempty⟩
  | succ n ih =>
    cases hinflight : f.inflight with
    | nil => exact ⟨[], f, rfl, hinflight⟩
    | cons idx rest =>
      have hmem : idx ∈ f.inflight := by
        rw [hinflight]
        exact List.mem_cons_self
      obtain ⟨next, hstep, hfewer⟩ := exists_step h hmem
      obtain ⟨hinv, hfull'⟩ := step_spec h hfull hstep
      obtain ⟨order, f', hrun, hdrained⟩ := ih hinv hfull' (by omega)
      exact ⟨idx :: order, f', run_cons_eq_some.mpr ⟨next, hstep, hrun⟩, hdrained⟩

theorem exists_complete_run (tasks : List Task) (limit : ℕ) (answer : ℕ → Task → Answer) :
    ∃ order f, run (step tasks answer) (start tasks limit) order = some f ∧ f.inflight = [] := by
  obtain ⟨hinv, hfull⟩ := start_spec tasks limit answer
  exact exists_drain _ hinv hfull rfl

theorem perm_spawn {done : List ℕ} (h : (done ++ f.inflight).Perm (List.range f.next)) :
    (done ++ f.spawn.inflight).Perm (List.range f.spawn.next) := by
  show (done ++ (f.inflight ++ [f.next])).Perm (List.range (f.next + 1))
  rw [← List.append_assoc, List.range_succ]
  exact h.append_right [f.next]

theorem perm_prime {done : List ℕ} {total : ℕ}
    (h : (done ++ f.inflight).Perm (List.range f.next)) :
    (done ++ (prime total limit f).inflight).Perm (List.range (prime total limit f).next) := by
  induction f using prime.induct total limit with
  | case1 f hroom ih =>
    rw [prime, if_pos hroom]
    exact ih (perm_spawn h)
  | case2 f hdone =>
    rw [prime, if_neg hdone]
    exact h

/-- A task that completes moves from those in flight to those that are done. -/
theorem perm_step {done : List ℕ} {idx : ℕ} (h : (done ++ f.inflight).Perm (List.range f.next))
    (hstep : step tasks answer f idx = some f') :
    (done ++ [idx] ++ f'.inflight).Perm (List.range f'.next) := by
  obtain ⟨task, hmem, -, hcases⟩ := step_cases hstep
  have hdone : (done ++ [idx] ++ f.inflight.erase idx).Perm (List.range f.next) := by
    rw [List.append_assoc, List.singleton_append]
    exact ((List.perm_cons_erase hmem).symm.append_left done).trans h
  rcases hcases with ⟨-, rfl⟩ | ⟨-, rfl⟩
  · exact perm_spawn (f := ⟨f.next, f.inflight.erase idx, _⟩) hdone
  · exact hdone

theorem perm_run {done order : List ℕ} (h : (done ++ f.inflight).Perm (List.range f.next))
    (hrun : run (step tasks answer) f order = some f') :
    (done ++ order ++ f'.inflight).Perm (List.range f'.next) := by
  induction order generalizing f done with
  | nil =>
    obtain rfl := Option.some.inj hrun
    rwa [List.append_nil]
  | cons idx rest ih =>
    obtain ⟨next, hnext, hrest⟩ := run_cons_eq_some.mp hrun
    rw [← List.singleton_append, ← List.append_assoc]
    exact ih (perm_step h hnext) hrest

/-- Each task that has been started is in flight or has completed once. -/
theorem perm_of_run {order : List ℕ}
    (hrun : run (step tasks answer) (start tasks limit) order = some f) :
    (order ++ f.inflight).Perm (List.range f.next) := by
  have hbegin : ([] ++ (start tasks limit : Progress Answer).inflight).Perm
      (List.range (start tasks limit : Progress Answer).next) := by
    unfold start
    exact perm_prime (List.Perm.refl [])
  exact perm_run hbegin hrun

/-- Priming starts as many tasks as may be in flight. -/
theorem next_start (answer : ℕ → Task → Answer) (tasks : List Task) (limit : ℕ) :
    (start tasks limit : Progress Answer).next = min tasks.length limit := by
  obtain ⟨hinv, hfull⟩ := start_spec tasks limit answer
  have hrun : run (step tasks answer) (start tasks limit) [] = some (start tasks limit) := rfl
  have hperm := perm_of_run hrun
  have hlength := hperm.length_eq
  rw [List.nil_append, List.length_range] at hlength
  have hnext := hinv.next_le
  have hbounded := hinv.bounded
  rcases hfull with hall | hlimit
  · omega
  · omega

/-- After the completions of `order`: every task that was started has completed once or is in
flight, no more are in flight than may be, and each of these can complete. -/
structure Reached (tasks : List Task) (limit : ℕ) (answer : ℕ → Task → Answer) (order : List ℕ)
    (f : Progress Answer) : Prop where
  started : (order ++ f.inflight).Perm (List.range f.next)
  next_le : f.next ≤ tasks.length
  bounded : f.inflight.length ≤ limit
  completes : ∀ idx ∈ f.inflight, ∃ f', step tasks answer f idx = some f'

theorem reached_of_run {order : List ℕ}
    (hrun : run (step tasks answer) (start tasks limit) order = some f) :
    Reached tasks limit answer order f := by
  obtain ⟨hinv, hfull⟩ := start_spec tasks limit answer
  obtain ⟨hend, -⟩ := run_spec hinv hfull hrun
  refine ⟨perm_of_run hrun, hend.next_le, hend.bounded, fun idx hidx => ?_⟩
  obtain ⟨f', hstep, -⟩ := exists_step hend hidx
  exact ⟨f', hstep⟩

/-- No run is longer than the list of tasks. -/
theorem Reached.length_le {order : List ℕ} (h : Reached tasks limit answer order f) :
    order.length ≤ tasks.length := by
  have hlen := h.started.length_eq
  rw [List.length_append, List.length_range] at hlen
  have hnext := h.next_le
  omega

/-- In a run that drains, each task completes once. -/
theorem perm_of_drained {order : List ℕ} (hlimit : 0 < limit)
    (hrun : run (step tasks answer) (start tasks limit) order = some f)
    (hdrained : f.inflight = []) : order.Perm (List.range tasks.length) := by
  obtain ⟨hinv, hfull⟩ := start_spec tasks limit answer
  obtain ⟨-, hfull'⟩ := run_spec hinv hfull hrun
  have hperm := perm_of_run hrun
  rwa [hdrained, List.append_nil, next_of_drained hfull' hlimit hdrained] at hperm

end OiTerminal.Lib.FanOut
