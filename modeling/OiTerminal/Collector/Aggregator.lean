import Mathlib.Data.List.AList
import OiTerminal.Core.Snapshot

/-!
# The per-instrument minute aggregator

One in-progress bar per instrument. The concurrent map locks one entry at a time, so an
`observe` and a removal are atomic, while a flush is a scan followed by one removal per
key found.
-/
namespace OiTerminal.Collector

open OiTerminal.Core

set_option autoImplicit false

structure OiAggregator where
  bars : AList (fun _ : InstrumentId => OiSnapshot)

namespace OiAggregator

def new : OiAggregator := ⟨∅⟩

/-- The in-progress bar for an instrument. -/
def current (agg : OiAggregator) (instrument : InstrumentId) : Option OiSnapshot :=
  agg.bars.lookup instrument

/-- Write an entry back. -/
def put (agg : OiAggregator) (instrument : InstrumentId) (bar : OiSnapshot) : OiAggregator :=
  ⟨agg.bars.insert instrument bar⟩

/-- Fold a sample into the running bar for its instrument. A bar of any other bucket is
replaced. The second component is the clone handed to the publisher. -/
def observe (agg : OiAggregator) (sample : OiSample) : OiAggregator × OiSnapshot :=
  let instrument := sample.instrument
  let entry := (agg.current instrument).getD (.startFromSample sample)
  if entry.bucketTs = sample.bucketTs then
    -- a bar that `or_insert_with` has just built already holds the sample
    if entry.samples = 1 ∧ entry.lastRecvTs = sample.recvTs then
      (agg.put instrument entry, entry)
    else
      match entry.observe sample with
      | .error _ => (agg.put instrument entry, entry)
      | .ok bar => (agg.put instrument bar, bar)
  else
    (agg.put instrument (.startFromSample sample), .startFromSample sample)

/-- The keys of the bars at or before `upTo`. -/
def keysThrough (agg : OiAggregator) (upTo : Int) : List InstrumentId :=
  (agg.bars.entries.filter fun e => e.2.bucketTs ≤ upTo).map Sigma.fst

/-- Remove one key and return the bar found there at that moment. -/
def remove (agg : OiAggregator) (instrument : InstrumentId) : Option OiSnapshot × OiAggregator :=
  (agg.current instrument, ⟨agg.bars.erase instrument⟩)

/-- Remove the collected keys one after the other. -/
def drain : OiAggregator → List InstrumentId → List OiSnapshot × OiAggregator
  | agg, [] => ([], agg)
  | agg, k :: rest =>
    let (bar, agg') := agg.remove k
    let (out, final) := agg'.drain rest
    (bar.toList ++ out, final)

/-- Drain and return all bars whose bucket is at or before `upTo`. -/
def flushThrough (agg : OiAggregator) (upTo : Int) : List OiSnapshot × OiAggregator :=
  agg.drain (agg.keysThrough upTo)

@[simp] theorem current_new (id : InstrumentId) : new.current id = none := AList.lookup_empty id

@[simp] theorem current_put (agg : OiAggregator) (id : InstrumentId) (bar : OiSnapshot) :
    (agg.put id bar).current id = some bar := AList.lookup_insert agg.bars

theorem current_put_ne {agg : OiAggregator} {id other : InstrumentId} {bar : OiSnapshot}
    (h : other ≠ id) : (agg.put id bar).current other = agg.current other :=
  AList.lookup_insert_ne h

@[simp] theorem current_remove (agg : OiAggregator) (id : InstrumentId) :
    (agg.remove id).2.current id = none := AList.lookup_erase id agg.bars

theorem current_remove_ne {agg : OiAggregator} {id other : InstrumentId} (h : other ≠ id) :
    (agg.remove id).2.current other = agg.current other := AList.lookup_erase_ne h

theorem mem_keysThrough {agg : OiAggregator} {upTo : Int} {id : InstrumentId} :
    id ∈ agg.keysThrough upTo ↔ ∃ bar, agg.current id = some bar ∧ bar.bucketTs ≤ upTo := by
  simp only [keysThrough, List.mem_map, List.mem_filter, decide_eq_true_eq]
  constructor
  · rintro ⟨⟨k, bar⟩, ⟨hmem, hle⟩, rfl⟩
    exact ⟨bar, AList.mem_lookup_iff.mpr hmem, hle⟩
  · rintro ⟨bar, hcur, hle⟩
    exact ⟨⟨id, bar⟩, ⟨AList.mem_lookup_iff.mp hcur, hle⟩, rfl⟩

theorem keysThrough_nodup (agg : OiAggregator) (upTo : Int) : (agg.keysThrough upTo).Nodup := by
  have hsub : (agg.keysThrough upTo).Sublist agg.bars.keys := List.filter_sublist.map _
  exact hsub.nodup agg.bars.keys_nodup

theorem observe_vacant {agg : OiAggregator} {s : OiSample}
    (h : agg.current s.instrument = none) :
    agg.observe s = (agg.put s.instrument (.startFromSample s), .startFromSample s) := by
  simp [observe, h]

theorem observe_fold {agg : OiAggregator} {s : OiSample} {bar : OiSnapshot}
    (h : agg.current s.instrument = some bar) (hi : s.instrument = bar.instrument)
    (hb : bar.bucketTs = s.bucketTs) (hnew : bar.lastRecvTs ≠ s.recvTs) :
    agg.observe s = (agg.put s.instrument (bar.fold s), bar.fold s) := by
  simp [observe, h, hb, hnew, OiSnapshot.observe_eq_ok hi hb.symm]

theorem observe_roll {agg : OiAggregator} {s : OiSample} {bar : OiSnapshot}
    (h : agg.current s.instrument = some bar) (hb : bar.bucketTs ≠ s.bucketTs) :
    agg.observe s = (agg.put s.instrument (.startFromSample s), .startFromSample s) := by
  simp [observe, h, hb]

/-- Observing touches the entry of the sample's instrument only. -/
theorem observe_current_ne {agg : OiAggregator} {s : OiSample} {id : InstrumentId}
    (h : id ≠ s.instrument) : (agg.observe s).1.current id = agg.current id := by
  unfold observe
  dsimp only
  split
  · split
    · exact current_put_ne h
    · split <;> exact current_put_ne h
  · exact current_put_ne h

/-- A repeat of the receive time of a one-sample bar changes nothing. -/
theorem observe_repeat {agg : OiAggregator} {s : OiSample} {bar : OiSnapshot}
    (h : agg.current s.instrument = some bar) (hb : bar.bucketTs = s.bucketTs)
    (hone : bar.samples = 1) (hrecv : bar.lastRecvTs = s.recvTs) :
    agg.observe s = (agg.put s.instrument bar, bar) := by
  simp [observe, h, hb, hone, hrecv]

/-- The entry that an observe leaves behind is of the sample's bucket. -/
theorem observe_current_self (agg : OiAggregator) (s : OiSample) :
    ∃ bar, (agg.observe s).1.current s.instrument = some bar ∧ bar.bucketTs = s.bucketTs := by
  unfold observe
  dsimp only
  split
  · rename_i hb
    split
    · exact ⟨_, current_put _ _ _, hb⟩
    · split
      · exact ⟨_, current_put _ _ _, hb⟩
      · rename_i bar hok
        refine ⟨bar, current_put _ _ _, ?_⟩
        unfold OiSnapshot.observe at hok
        split at hok
        · cases hok
        · obtain rfl := Except.ok.inj hok
          exact hb
  · exact ⟨_, current_put _ _ _, rfl⟩

/-- Draining empties the entries of its keys and no others. -/
theorem current_drain {agg : OiAggregator} {keys : List InstrumentId} {id : InstrumentId} :
    (agg.drain keys).2.current id = if id ∈ keys then none else agg.current id := by
  induction keys generalizing agg with
  | nil => simp [drain]
  | cons k rest ih =>
    show ((agg.remove k).2.drain rest).2.current id = _
    rw [ih]
    by_cases hid : id = k
    · subst hid
      simp
    · simp only [List.mem_cons, hid, false_or, current_remove_ne hid]

/-- Each bar is filed under its own instrument. -/
def Filed (agg : OiAggregator) : Prop := ∀ id bar, agg.current id = some bar → bar.instrument = id

theorem Filed.remove {agg : OiAggregator} (h : agg.Filed) (k : InstrumentId) :
    (agg.remove k).2.Filed := by
  intro id bar hcur
  by_cases hid : id = k
  · subst hid
    simp at hcur
  · exact h id bar (by rwa [current_remove_ne hid] at hcur)

/-- The bars of a drain come in the order of their keys, at most one for each. -/
theorem drain_instruments {agg : OiAggregator} (h : agg.Filed) (keys : List InstrumentId) :
    ((agg.drain keys).1.map OiSnapshot.instrument).Sublist keys := by
  induction keys generalizing agg with
  | nil => exact List.nil_sublist _
  | cons k rest ih =>
    show (((agg.current k).toList ++ ((agg.remove k).2.drain rest).1).map _).Sublist (k :: rest)
    cases hcur : agg.current k with
    | none => exact (ih (h.remove k)).cons k
    | some bar =>
      rw [Option.toList_some, List.singleton_append, List.map_cons, h k bar hcur]
      exact (ih (h.remove k)).cons_cons k

theorem mem_drain {agg : OiAggregator} {keys : List InstrumentId} (hnd : keys.Nodup)
    {bar : OiSnapshot} :
    bar ∈ (agg.drain keys).1 ↔ ∃ id ∈ keys, agg.current id = some bar := by
  induction keys generalizing agg with
  | nil => simp [drain]
  | cons k rest ih =>
    obtain ⟨hk, hrest⟩ := List.nodup_cons.mp hnd
    have hframe : ∀ id ∈ rest, (agg.remove k).2.current id = agg.current id := fun id hid =>
      current_remove_ne fun he => hk (he ▸ hid)
    have htail : bar ∈ ((agg.remove k).2.drain rest).1 ↔
        ∃ id ∈ rest, agg.current id = some bar := by
      rw [ih hrest]
      exact exists_congr fun id => and_congr_right fun hid => by rw [hframe id hid]
    show bar ∈ (agg.current k).toList ++ ((agg.remove k).2.drain rest).1 ↔ _
    rw [List.mem_append, htail, Option.mem_toList, List.exists_mem_cons_iff]

/-- A flush emits exactly the bars at or before its argument. -/
theorem mem_flushThrough {agg : OiAggregator} {upTo : Int} {bar : OiSnapshot} :
    bar ∈ (agg.flushThrough upTo).1 ↔
      ∃ id, agg.current id = some bar ∧ bar.bucketTs ≤ upTo := by
  rw [flushThrough, mem_drain (keysThrough_nodup agg upTo)]
  constructor
  · rintro ⟨id, hmem, hcur⟩
    obtain ⟨b, hb, hle⟩ := mem_keysThrough.mp hmem
    obtain rfl : b = bar := Option.some.inj (hb.symm.trans hcur)
    exact ⟨id, hcur, hle⟩
  · rintro ⟨id, hcur, hle⟩
    exact ⟨id, mem_keysThrough.mpr ⟨bar, hcur, hle⟩, hcur⟩

end OiAggregator

end OiTerminal.Collector
