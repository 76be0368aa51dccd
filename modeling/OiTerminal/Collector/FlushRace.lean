import OiTerminal.Collector.Aggregator
import OiTerminal.Lib.Transition

/-!
# A flush beside the WS task

`flush_through` collects the keys of closed bars and then removes them one by one. The WS
task may observe between any two of these steps. `since` records the bucket of the last
sample that was observed for an instrument after its key was collected, and influences
nothing.
-/
namespace OiTerminal.Collector.FlushRace

open OiTerminal.Core
open OiTerminal.Core.Time
open OiTerminal.Lib.Transition

set_option autoImplicit false

/-- Collecting, with the entries that the iterator has visited, or removing. -/
inductive Stage where
  | collecting (visited : List InstrumentId)
  | removing

structure Flush where
  agg : OiAggregator
  stage : Stage
  /-- The keys that were collected and are not removed yet. -/
  toFlush : List InstrumentId
  out : List OiSnapshot
  since : InstrumentId → Option Int

inductive Action where
  | observe (s : OiSample)
  | visit (id : InstrumentId)
  | collected
  | remove

/-- A flush begins on whatever the aggregator holds. -/
def start (agg : OiAggregator) : Flush := ⟨agg, .collecting [], [], [], fun _ => none⟩

def step (upTo : Int) (f : Flush) : Action → Option Flush
  | .observe s =>
    some { f with
      agg := (f.agg.observe s).1
      since := Function.update f.since s.instrument (some s.bucketTs) }
  | .visit id =>
    match f.stage, f.agg.current id with
    | .collecting visited, some bar =>
      if id ∈ visited then none
      else
        let f := { f with stage := .collecting (id :: visited) }
        if bar.bucketTs ≤ upTo then
          some { f with
            toFlush := f.toFlush ++ [id]
            since := Function.update f.since id none }
        else some f
    | _, _ => none
  | .collected =>
    match f.stage with
    | .collecting _ => some { f with stage := .removing }
    | .removing => none
  | .remove =>
    match f.stage, f.toFlush with
    | .removing, k :: rest =>
      some { f with
        agg := (f.agg.remove k).2
        toFlush := rest
        out := f.out ++ (f.agg.remove k).1.toList }
    | _, _ => none

/-! ## A flush that nothing interrupts -/

theorem run_remove (upTo : Int) (agg : OiAggregator) (keys : List InstrumentId)
    (out : List OiSnapshot) (since : InstrumentId → Option Int) :
    run (step upTo) ⟨agg, .removing, keys, out, since⟩ (List.replicate keys.length .remove) =
      some ⟨(agg.drain keys).2, .removing, [], out ++ (agg.drain keys).1, since⟩ := by
  induction keys generalizing agg out with
  | nil => simp [run, OiAggregator.drain]
  | cons k rest ih =>
    show run (step upTo) ⟨(agg.remove k).2, .removing, rest, out ++ (agg.remove k).1.toList, since⟩
      (List.replicate rest.length .remove) = _
    rw [ih, List.append_assoc]
    rfl

/-- By induction on the entries still to be visited. -/
theorem run_visit (upTo : Int) (agg : OiAggregator)
    (entries : List (Sigma fun _ : InstrumentId => OiSnapshot)) (visited keys : List InstrumentId)
    (since : InstrumentId → Option Int) (hsub : ∀ e ∈ entries, agg.current e.1 = some e.2)
    (hnodup : (entries.map Sigma.fst).Nodup) (hnew : ∀ e ∈ entries, e.1 ∉ visited) :
    ∃ visited' since', run (step upTo) ⟨agg, .collecting visited, keys, [], since⟩
      (entries.map fun e => .visit e.1) = some ⟨agg, .collecting visited',
        keys ++ (entries.filter fun e => e.2.bucketTs ≤ upTo).map Sigma.fst, [], since'⟩ := by
  induction entries generalizing visited keys since with
  | nil => exact ⟨visited, since, by simp [run]⟩
  | cons e rest ih =>
    rw [List.map_cons, List.nodup_cons] at hnodup
    have hrest : ∀ e' ∈ rest, e'.1 ∉ e.1 :: visited := fun e' he' hmem => by
      rcases List.mem_cons.mp hmem with heq | hold
      · exact hnodup.1 (heq ▸ List.mem_map_of_mem he')
      · exact hnew e' (List.mem_cons_of_mem e he') hold
    have hcur := hsub e List.mem_cons_self
    have hsub' : ∀ e' ∈ rest, agg.current e'.1 = some e'.2 := fun e' he' =>
      hsub e' (List.mem_cons_of_mem e he')
    by_cases hclosed : e.2.bucketTs ≤ upTo
    · obtain ⟨v, t, hrun⟩ := ih (e.1 :: visited) (keys ++ [e.1]) (Function.update since e.1 none)
        hsub' hnodup.2 hrest
      refine ⟨v, t, run_cons_eq_some.mpr ⟨_, ?_, hrun.trans ?_⟩⟩
      · simp [step, hcur, hnew e List.mem_cons_self, hclosed]
      · simp [hclosed]
    · obtain ⟨v, t, hrun⟩ := ih (e.1 :: visited) keys since hsub' hnodup.2 hrest
      refine ⟨v, t, run_cons_eq_some.mpr ⟨_, ?_, hrun.trans ?_⟩⟩
      · simp [step, hcur, hnew e List.mem_cons_self, hclosed]
      · simp [hclosed]

/-- With no step of the WS task in between, the steps compute `flushThrough`. -/
theorem uninterrupted_flush (upTo : Int) (agg : OiAggregator) :
    ∃ since, run (step upTo) (start agg) (agg.bars.entries.map (fun e => .visit e.1) ++
        .collected :: List.replicate (agg.keysThrough upTo).length .remove) =
      some ⟨(agg.flushThrough upTo).2, .removing, [], (agg.flushThrough upTo).1, since⟩ := by
  obtain ⟨visited, since, hvisit⟩ := run_visit upTo agg agg.bars.entries [] [] (fun _ => none)
    (fun e he => AList.mem_lookup_iff.mpr he) agg.bars.keys_nodup (fun e _ => List.not_mem_nil)
  refine ⟨since, ?_⟩
  unfold start
  rw [run_append hvisit]
  exact run_remove upTo agg (agg.keysThrough upTo) [] since

/-! ## What it returns -/

/-- The flush has returned no bar of a later bucket. -/
def AllClosed (upTo : Int) (f : Flush) : Prop := ∀ bar ∈ f.out, bar.bucketTs ≤ upTo

/-- When a key is removed, the last sample observed for it since it was collected, if there
is one, is not of a later bucket. -/
def StillClosed (upTo : Int) (f : Flush) : Action → Prop
  | .remove => ∀ k ∈ f.toFlush.head?, ∀ b ∈ f.since k, b ≤ upTo
  | _ => True

instance (upTo : Int) (f : Flush) : ∀ a, Decidable (StillClosed upTo f a)
  | .remove => inferInstanceAs (Decidable (∀ k ∈ f.toFlush.head?, ∀ b ∈ f.since k, b ≤ upTo))
  | .observe _ | .visit _ | .collected => isTrue trivial

/-- A collected key was visited once, and its bar is of the bucket it was last given. -/
structure Inv (upTo : Int) (f : Flush) : Prop where
  nodup : f.toFlush.Nodup
  visited : ∀ visited, f.stage = .collecting visited → ∀ k ∈ f.toFlush, k ∈ visited
  entry : ∀ k ∈ f.toFlush, ∃ bar, f.agg.current k = some bar ∧
    (bar.bucketTs ≤ upTo ↔ ∀ b ∈ f.since k, b ≤ upTo)
  closed : AllClosed upTo f

theorem inv_start (upTo : Int) (agg : OiAggregator) : Inv upTo (start agg) where
  nodup := .nil
  visited := by intro visited _ k hk; cases hk
  entry := by intro k hk; cases hk
  closed := by intro bar hbar; cases hbar

variable {upTo : Int} {f f' : Flush}

theorem Inv.observe (h : Inv upTo f) (s : OiSample) :
    Inv upTo { f with
      agg := (f.agg.observe s).1
      since := Function.update f.since s.instrument (some s.bucketTs) } where
  nodup := h.nodup
  visited := h.visited
  entry k hk := by
    show ∃ bar, (f.agg.observe s).1.current k = some bar ∧ (bar.bucketTs ≤ upTo ↔
      ∀ b ∈ Function.update f.since s.instrument (some s.bucketTs) k, b ≤ upTo)
    by_cases hks : k = s.instrument
    · subst hks
      obtain ⟨bar, hcur, hb⟩ := OiAggregator.observe_current_self f.agg s
      refine ⟨bar, hcur, ?_⟩
      rw [Function.update_self, hb]
      simp
    · obtain ⟨bar, hcur, hb⟩ := h.entry k hk
      refine ⟨bar, (OiAggregator.observe_current_ne hks).trans hcur, ?_⟩
      rw [Function.update_of_ne hks]
      exact hb
  closed := h.closed

theorem visit_cases {id : InstrumentId} (hstep : step upTo f (.visit id) = some f') :
    ∃ visited bar, f.stage = .collecting visited ∧ f.agg.current id = some bar ∧ id ∉ visited ∧
      ((bar.bucketTs ≤ upTo ∧ f' = { f with
          stage := .collecting (id :: visited)
          toFlush := f.toFlush ++ [id]
          since := Function.update f.since id none }) ∨
        f' = { f with stage := .collecting (id :: visited) }) := by
  simp only [step] at hstep
  split at hstep
  · rename_i visited bar hstage hcur
    refine ⟨visited, bar, hstage, hcur, ?_⟩
    split at hstep
    · cases hstep
    · rename_i hnew
      refine ⟨hnew, ?_⟩
      split at hstep
      · rename_i hclosed
        exact .inl ⟨hclosed, (Option.some.inj hstep).symm⟩
      · exact .inr (Option.some.inj hstep).symm
  · cases hstep

theorem Inv.visit (h : Inv upTo f) {id : InstrumentId}
    (hstep : step upTo f (.visit id) = some f') : Inv upTo f' := by
  obtain ⟨visited, bar, hstage, hcur, hnew, hcase⟩ := visit_cases hstep
  have hid : id ∉ f.toFlush := fun hmem => hnew (h.visited visited hstage id hmem)
  rcases hcase with ⟨hclosed, rfl⟩ | rfl
  · refine ⟨List.nodup_append.mpr ⟨h.nodup, List.nodup_singleton id, fun a ha b hb hab => ?_⟩,
      fun v hv k hk => ?_, fun k hk => ?_, h.closed⟩
    · rw [hab, List.mem_singleton.mp hb] at ha
      exact hid ha
    · obtain rfl := Stage.collecting.inj hv
      rcases List.mem_append.mp hk with hold | hlast
      · exact List.mem_cons_of_mem id (h.visited visited hstage k hold)
      · rw [List.mem_singleton.mp hlast]
        exact List.mem_cons_self
    · show ∃ b, f.agg.current k = some b ∧ (b.bucketTs ≤ upTo ↔
        ∀ t ∈ Function.update f.since id none k, t ≤ upTo)
      by_cases hk' : k = id
      · subst hk'
        rw [Function.update_self]
        exact ⟨bar, hcur, by simp [hclosed]⟩
      · rw [Function.update_of_ne hk']
        rcases List.mem_append.mp hk with hold | hlast
        · exact h.entry k hold
        · exact absurd (List.mem_singleton.mp hlast) hk'
  · refine ⟨h.nodup, fun v hv k hk => ?_, h.entry, h.closed⟩
    obtain rfl := Stage.collecting.inj hv
    exact List.mem_cons_of_mem id (h.visited visited hstage k hk)

theorem remove_cases (hstep : step upTo f .remove = some f') :
    ∃ k rest, f.stage = .removing ∧ f.toFlush = k :: rest ∧ f' = { f with
      agg := (f.agg.remove k).2
      toFlush := rest
      out := f.out ++ (f.agg.current k).toList } := by
  simp only [step] at hstep
  split at hstep
  · rename_i k rest hstage hkeys
    exact ⟨k, rest, hstage, hkeys, (Option.some.inj hstep).symm⟩
  · cases hstep

/-- Removing a key returns its bar, which is closed exactly if the last sample was. -/
theorem Inv.remove (h : Inv upTo f) (hok : StillClosed upTo f .remove)
    (hstep : step upTo f .remove = some f') : Inv upTo f' := by
  obtain ⟨k, rest, hstage, hkeys, rfl⟩ := remove_cases hstep
  have hnodup := h.nodup
  rw [hkeys, List.nodup_cons] at hnodup
  obtain ⟨bar, hcur, hclosed⟩ := h.entry k (hkeys ▸ List.mem_cons_self)
  refine ⟨hnodup.2, fun v hv => ?_, fun k' hk' => ?_, fun b hb => ?_⟩
  · rw [hstage] at hv
    cases hv
  · obtain ⟨bar', hcur', hb'⟩ := h.entry k' (hkeys ▸ List.mem_cons_of_mem k hk')
    have hne : k' ≠ k := fun heq => hnodup.1 (heq ▸ hk')
    exact ⟨bar', (OiAggregator.current_remove_ne hne).trans hcur', hb'⟩
  · rw [hcur] at hb
    rcases List.mem_append.mp hb with hold | hnew
    · exact h.closed b hold
    · rw [List.mem_singleton.mp hnew]
      exact hclosed.mpr (hok k (by rw [hkeys]; rfl))

theorem inv_step {a : Action} (h : Inv upTo f) (hok : StillClosed upTo f a)
    (hstep : step upTo f a = some f') : Inv upTo f' := by
  cases a with
  | observe s =>
    obtain rfl := Option.some.inj hstep
    exact h.observe s
  | visit id => exact h.visit hstep
  | collected =>
    simp only [step] at hstep
    split at hstep
    · obtain rfl := Option.some.inj hstep
      exact ⟨h.nodup, (fun v hv => by cases hv), h.entry, h.closed⟩
    · cases hstep
  | remove => exact h.remove hok hstep

theorem stillClosed_of_closed {a : Action} (h : Inv upTo f) (hstep : step upTo f a = some f')
    (hclosed : AllClosed upTo f') : StillClosed upTo f a := by
  cases a with
  | observe s => trivial
  | visit id => trivial
  | collected => trivial
  | remove =>
    obtain ⟨k, rest, _, hkeys, rfl⟩ := remove_cases hstep
    obtain ⟨bar, hcur, hb⟩ := h.entry k (hkeys ▸ List.mem_cons_self)
    intro k' hk'
    rw [hkeys] at hk'
    obtain rfl := Option.some.inj hk'
    refine hb.mp (hclosed bar ?_)
    rw [hcur]
    exact List.mem_append_right _ List.mem_cons_self

/-- Whatever the aggregator holds and however the WS task interleaves, the flush returns
closed bars only if and only if no collected bar has rolled past it by its removal. -/
theorem flush_closed_iff (upTo : Int) (agg : OiAggregator) (acts : List Action) :
    Throughout (step upTo) (AllClosed upTo) (start agg) acts ↔
      Along (step upTo) (StillClosed upTo) (start agg) acts :=
  throughout_iff_along (fun _ _ _ h hok hs => inv_step h hok hs) (fun _ h => h.closed)
    (fun _ _ _ h hs hclosed => stillClosed_of_closed h hs hclosed) (inv_start upTo agg)

/-- A sample of the next minute arrives between the collection of its key and the removal:
the flush returns the bar of the minute that has just begun. -/
theorem rolled_bar_flushed : ¬ ∀ (upTo : Int) (agg : OiAggregator) (acts : List Action),
    Throughout (step upTo) (AllClosed upTo) (start agg) acts := by
  intro hall
  let agg := (OiAggregator.new.observe (sampleAt 0 (seconds 30))).1
  let late := sampleAt (minutes 1) (minutes 1)
  let acts : List Action := [.visit late.instrument, .collected, .observe late, .remove]
  have hrun : ∃ f ∈ run (step 0) (start agg) acts, ∃ bar ∈ f.out, bar.bucketTs = minutes 1 := by
    decide
  obtain ⟨f, hf, bar, hbar, hbucket⟩ := hrun
  have hclosed : bar.bucketTs ≤ 0 := throughout_run (hall 0 agg acts) hf bar hbar
  rw [hbucket] at hclosed
  exact absurd hclosed (by decide)

end OiTerminal.Collector.FlushRace
