import Mathlib.Data.List.Range
import Mathlib.Data.List.Perm.Subperm

/-!
# A bounded broadcast ring

Values go into one log, which every receiver reads at a position of its own. The ring keeps
the last `capacity` of them. A receiver that has fallen further behind is told how many values
it has missed, and goes on with the oldest one that is kept.
-/
namespace OiTerminal.Lib.Broadcast

set_option autoImplicit false

variable {α β : Type*}

/-- What a receiver gets. -/
inductive Recv (α : Type*) where
  | empty
  | lagged (skipped : ℕ)
  | value (a : α)

/-- The answer to a receiver at position `next`, and its position afterwards. -/
def recv (capacity : ℕ) (sent : List α) (next : ℕ) : Recv α × ℕ :=
  if next + capacity < sent.length then
    (.lagged (sent.length - capacity - next), sent.length - capacity)
  else
    match sent[next]? with
    | some a => (.value a, next + 1)
    | none => (.empty, next)

/-- A receiver that subscribed at `start` and stands at `next` has read the positions `kept`, in
their order, and was told of `skipped` more. Each of these had left the ring. -/
structure Reads (capacity : ℕ) (sent : List α) (start next : ℕ) (kept : List ℕ) (skipped : ℕ) :
    Prop where
  start_le : start ≤ next
  next_le : next ≤ sent.length
  ordered : kept.Pairwise (· < ·)
  within : ∀ i ∈ kept, start ≤ i ∧ i < next
  count : kept.length + skipped = next - start
  overwritten : ∀ i, start ≤ i → i < next → i ∉ kept → i + capacity < sent.length

variable {capacity start next next' skipped n : ℕ} {sent : List α} {kept : List ℕ} {a : α}

theorem recv_lagged (h : recv capacity sent next = (.lagged n, next')) :
    next + capacity < sent.length ∧ n = sent.length - capacity - next ∧
      next' = sent.length - capacity := by
  unfold recv at h
  split at h
  case isTrue hbehind =>
    obtain ⟨hn, rfl⟩ := Prod.mk.inj h
    exact ⟨hbehind, (Recv.lagged.inj hn).symm, rfl⟩
  case isFalse => split at h <;> cases h

theorem recv_value (h : recv capacity sent next = (.value a, next')) :
    sent[next]? = some a ∧ next' = next + 1 := by
  unfold recv at h
  split at h
  case isTrue => cases h
  case isFalse =>
    split at h
    · rename_i b hb
      obtain ⟨hvalue, rfl⟩ := Prod.mk.inj h
      exact ⟨by rw [hb, Recv.value.inj hvalue], rfl⟩
    · cases h

theorem Reads.subscribe (capacity : ℕ) (sent : List α) :
    Reads capacity sent sent.length sent.length [] 0 where
  start_le := Nat.le_refl _
  next_le := Nat.le_refl _
  ordered := List.Pairwise.nil
  within := by
    intro i hi
    cases hi
  count := (Nat.sub_self _).symm
  overwritten i hge hlt := absurd hlt (Nat.not_lt.mpr hge)

/-- What was sent before is neither moved nor brought back by another value. -/
theorem Reads.send (h : Reads capacity sent start next kept skipped) (more : List α) :
    Reads capacity (sent ++ more) start next kept skipped where
  start_le := h.start_le
  next_le := by
    rw [List.length_append]
    exact Nat.le_add_right_of_le h.next_le
  ordered := h.ordered
  within := h.within
  count := h.count
  overwritten i hge hlt hout := by
    rw [List.length_append]
    exact Nat.lt_add_right _ (h.overwritten i hge hlt hout)

theorem Reads.value (h : Reads capacity sent start next kept skipped)
    (hrecv : recv capacity sent next = (.value a, next')) :
    Reads capacity sent start next' (kept ++ [next]) skipped := by
  obtain ⟨ha, rfl⟩ := recv_value hrecv
  have hlt := (List.getElem?_eq_some_iff.mp ha).1
  have hstart := h.start_le
  constructor
  case start_le => omega
  case next_le => exact hlt
  case ordered =>
    refine List.pairwise_append.mpr ⟨h.ordered, List.pairwise_singleton _ _, fun i hi j hj => ?_⟩
    rw [List.mem_singleton.mp hj]
    exact (h.within i hi).2
  case within =>
    intro i hi
    rcases List.mem_append.mp hi with hold | hnew
    · have := h.within i hold
      omega
    · have := List.mem_singleton.mp hnew
      omega
  case count =>
    have hcount := h.count
    rw [List.length_append, List.length_singleton]
    omega
  case overwritten =>
    intro i hge hi hout
    have hne : i ≠ next := fun heq => hout (List.mem_append_right _ (by simp [heq]))
    exact h.overwritten i hge (by omega) fun hmem => hout (List.mem_append_left _ hmem)

theorem Reads.lagged (h : Reads capacity sent start next kept skipped)
    (hrecv : recv capacity sent next = (.lagged n, next')) :
    Reads capacity sent start next' kept (skipped + n) := by
  obtain ⟨hbehind, rfl, rfl⟩ := recv_lagged hrecv
  have hstart := h.start_le
  constructor
  case start_le => omega
  case next_le => exact Nat.sub_le _ _
  case ordered => exact h.ordered
  case within =>
    intro i hi
    have := h.within i hi
    omega
  case count =>
    have hcount := h.count
    omega
  case overwritten =>
    intro i hge hi hout
    by_cases hread : i < next
    · exact h.overwritten i hge hread hout
    · omega

/-- A receiver that was told of no missed value has read every position. -/
theorem Reads.kept_eq (h : Reads capacity sent start next kept 0) :
    kept = List.range' start (next - start) := by
  have hsorted : (List.range' start (next - start)).Pairwise (· < ·) := List.pairwise_lt_range'
  have hsub : kept ⊆ List.range' start (next - start) := by
    intro i hi
    have := h.within i hi
    rw [List.mem_range'_1]
    omega
  have hnodup : kept.Nodup := h.ordered.imp (fun hlt => Nat.ne_of_lt hlt)
  have hperm : kept.Perm (List.range' start (next - start)) := by
    refine (hnodup.subperm hsub).perm_of_length_le ?_
    have hcount := h.count
    rw [List.length_range']
    omega
  exact hperm.eq_of_pairwise (fun a b _ _ hab hba => absurd hab (Nat.lt_asymm hba)) h.ordered hsorted

/-- The values at the positions that were read. -/
def valuesAt (sent : List α) (kept : List ℕ) : List α := kept.filterMap fun i => sent[i]?

theorem valuesAt_concat (ha : sent[next]? = some a) :
    valuesAt sent (kept ++ [next]) = valuesAt sent kept ++ [a] := by
  unfold valuesAt
  rw [List.filterMap_append]
  simp [ha]

theorem Reads.valuesAt_send (h : Reads capacity sent start next kept skipped) (more : List α) :
    valuesAt (sent ++ more) kept = valuesAt sent kept := by
  refine List.filterMap_congr fun i hi => ?_
  have hlt := (h.within i hi).2
  have hle := h.next_le
  exact List.getElem?_append_left (by omega)

theorem valuesAt_range' (hle : next ≤ sent.length) :
    valuesAt sent (List.range' start (next - start)) = (sent.take next).drop start := by
  unfold valuesAt
  induction next with
  | zero => simp
  | succ n ih =>
    by_cases hstart : start ≤ n
    · have hrange : List.range' start (n + 1 - start) = List.range' start (n - start) ++ [n] := by
        rw [Nat.succ_sub hstart, List.range'_concat, Nat.one_mul, Nat.add_sub_cancel' hstart]
      have hlength : start ≤ (sent.take n).length := by
        rw [List.length_take]
        omega
      rw [hrange, List.filterMap_append, ih (by omega), List.take_add_one,
        List.drop_append_of_le_length hlength]
      rfl
    · have hnone : n + 1 - start = 0 := by omega
      have hlength : (sent.take (n + 1)).length ≤ start := by
        rw [List.length_take]
        omega
      rw [hnone, List.drop_eq_nil_of_le hlength]
      rfl

/-- Without a missed value a receiver has read all that was sent between its subscription and
its position, in order. -/
theorem Reads.valuesAt_eq (h : Reads capacity sent start next kept 0) :
    valuesAt sent kept = (sent.take next).drop start := by
  rw [h.kept_eq]
  exact valuesAt_range' h.next_le

end OiTerminal.Lib.Broadcast
