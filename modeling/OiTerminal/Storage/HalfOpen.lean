import Mathlib.Data.List.Perm.Basic
import OiTerminal.Storage.ClickHouseReads

/-!
# The bounds of a range read

Both bounds are bound to the query as whole milliseconds. Cutting a bound moves it, and a row
that lies on the millisecond between the two is gained or lost.
-/
namespace OiTerminal.Storage.HalfOpen

open OiTerminal.Core OiTerminal.Core.Time
open OiTerminal.Storage.ClickHouse
open OiTerminal.Storage.ClickHouseReads
open OiTerminal.Lib.ReplacingTable

set_option autoImplicit false

/-- A bar of the instrument with `start ≤ timestamp < stop`. -/
def Within {α Row : Type} (S : Series α Row) (id : InstrumentId) (start stop : Int) (x : α) :
    Prop := S.instrument x = id ∧ start ≤ S.ts x ∧ S.ts x < stop

instance {α Row : Type} (S : Series α Row) (id : InstrumentId) (start stop : Int) (x : α) :
    Decidable (Within S id start stop x) :=
  inferInstanceAs (Decidable (S.instrument x = id ∧ start ≤ S.ts x ∧ S.ts x < stop))

section

variable (T : DecimalText) (t : Table) (values : List t.Value) (id : InstrumentId)
  (start stop : Int)

/-- The rows that an upsert of the values leaves. -/
def storedRows : List t.Row := values.map (t.series T).toRow

/-- What the rows keep of the values: timestamps are whole milliseconds. -/
def storedBars : List t.Value := values.map (t.series T).cut

/-- A range read returns the stored bars of the range, each as often as it is stored. -/
def ReturnsRange : Prop :=
  ∀ result, t.rangeOf T (storedRows T t values) id start stop result →
    ∃ bars, result = .ok bars ∧
      bars.Perm ((storedBars T t values).filter (Within (t.series T) id start stop))

/-- The millisecond that the start is cut back to is in the range that is asked for. -/
def Gained (ts : Int) : Prop :=
  ts = cutMillis start ∧ cutMillis start < start ∧ cutMillis start < cutMillis stop

/-- The millisecond that the stop is cut back to is no longer asked for. -/
def Lost (ts : Int) : Prop :=
  ts = cutMillis stop ∧ cutMillis stop < stop ∧ start ≤ cutMillis stop

/-- No stored bar of the instrument lies where a bound was cut back to, unless the other bound
excludes it. -/
def OffCutBounds : Prop :=
  ∀ x ∈ storedBars T t values, (t.series T).instrument x = id →
    ¬ Gained start stop ((t.series T).ts x) ∧ ¬ Lost start stop ((t.series T).ts x)

end

/-- On whole milliseconds, the cut bounds make a difference exactly where one was cut back. -/
theorem cut_range_iff (start stop ms : Int) :
    (unixMillis start ≤ ms ∧ ms < unixMillis stop ↔ start ≤ ofMillis ms ∧ ofMillis ms < stop) ↔
      ¬ Gained start stop (ofMillis ms) ∧ ¬ Lost start stop (ofMillis ms) := by
  have hstart := unixMillis_cases start
  have hstop := unixMillis_cases stop
  unfold Gained Lost cutMillis
  unfold ofMillis at hstart hstop ⊢
  omega

variable {α Row : Type} {S : Series α Row} {id : InstrumentId} {start stop : Int}

theorem ofInstrument_toRow {x : α} :
    S.ofInstrument id (S.toRow x) = true ↔ S.instrument x = id := by
  unfold Series.ofInstrument
  rw [S.key_toRow, decide_eq_true_iff]
  constructor
  · intro h
    obtain ⟨hcode, hsymbol⟩ := h
    have hexchange := Exchange.code_injective hcode
    exact InstrumentId.ext hexchange hsymbol
  · rintro rfl
    exact ⟨rfl, rfl⟩

/-- Storage does not change the instrument. -/
theorem instrument_cut (S : Series α Row) (x : α) : S.instrument (S.cut x) = S.instrument x := by
  rw [← ofInstrument_toRow, S.toRow_cut, ofInstrument_toRow]

theorem inRange_toRow {x : α} : S.inRange id start stop (S.toRow x) = true ↔
    S.instrument (S.cut x) = id ∧
      unixMillis start ≤ unixMillis (S.ts x) ∧ unixMillis (S.ts x) < unixMillis stop := by
  unfold Series.inRange
  rw [decide_eq_true_iff, ofInstrument_toRow, instrument_cut, S.key_toRow]

theorem within_cut {x : α} : Within S id start stop (S.cut x) ↔
    S.instrument (S.cut x) = id ∧
      start ≤ ofMillis (unixMillis (S.ts x)) ∧ ofMillis (unixMillis (S.ts x)) < stop := by
  unfold Within
  rw [S.ts_cut]

/-- The query selects what was asked for exactly if no bar lies on a cut bound. -/
theorem selects_iff {x : α} :
    (S.inRange id start stop (S.toRow x) = true ↔ Within S id start stop (S.cut x)) ↔
      (S.instrument (S.cut x) = id → ¬ Gained start stop (S.ts (S.cut x)) ∧
        ¬ Lost start stop (S.ts (S.cut x))) := by
  rw [inRange_toRow, within_cut, S.ts_cut, ← cut_range_iff]
  tauto

/-- A read decodes to the bars whose rows the query selects. -/
theorem rangeRead_bars {values : List α} {result : Except CoreError (List α)}
    (h : S.rangeRead (values.map S.toRow) id start stop result) :
    ∃ bars, result = .ok bars ∧
      bars.Perm ((values.filter fun x => S.inRange id start stop (S.toRow x)).map S.cut) := by
  obtain ⟨ans, hans, rfl⟩ := h
  have hperm := hans.perm
  rw [List.filter_map] at hperm
  -- the answer is the rows of some order of the selected values
  obtain ⟨xs, rfl, hxs⟩ :=
    (congrFun (congrFun (List.eq_map_comp_perm S.toRow) ans) _).mpr hperm
  refine ⟨xs.map S.cut, ?_, hxs.map S.cut⟩
  clear hans hperm hxs
  induction xs with
  | nil => rfl
  | cons x rest ih =>
    rw [List.map_cons, List.mapM_cons, S.fromRow_toRow, ih]
    rfl

/-- Two lists of bars are the same up to order exactly if the same values are selected. -/
theorem perm_within_iff (values : List α) (id : InstrumentId) (start stop : Int) :
    ((values.filter fun x => S.inRange id start stop (S.toRow x)).map S.cut).Perm
        ((values.map S.cut).filter (Within S id start stop)) ↔
      ∀ x ∈ values, S.inRange id start stop (S.toRow x) = true ↔
        Within S id start stop (S.cut x) := by
  constructor
  · intro hperm x hx
    constructor
    · intro hsel
      have hmem := hperm.mem_iff.mp (List.mem_map_of_mem (List.mem_filter.mpr ⟨hx, hsel⟩))
      exact of_decide_eq_true (List.mem_filter.mp hmem).2
    · intro hwithin
      have hmem := hperm.mem_iff.mpr
        (List.mem_filter.mpr ⟨List.mem_map_of_mem hx, decide_eq_true hwithin⟩)
      obtain ⟨y, hy, hcut⟩ := List.mem_map.mp hmem
      -- equal bars have equal rows
      rw [← S.toRow_cut x, ← hcut, S.toRow_cut y]
      exact (List.mem_filter.mp hy).2
  · intro h
    rw [List.filter_map]
    have hsame : values.filter (fun x => S.inRange id start stop (S.toRow x)) =
        values.filter ((fun x => decide (Within S id start stop x)) ∘ S.cut) := by
      refine List.filter_congr fun x hx => ?_
      rw [Bool.eq_iff_iff, h x hx, Function.comp_apply, decide_eq_true_iff]
    rw [hsame]

theorem returnsRange_iff_selects (T : DecimalText) (t : Table) (values : List t.Value)
    (id : InstrumentId) (start stop : Int) :
    ReturnsRange T t values id start stop ↔
      ∀ x ∈ values, (t.series T).inRange id start stop ((t.series T).toRow x) = true ↔
        Within (t.series T) id start stop ((t.series T).cut x) := by
  have hread : t.rangeOf T = (t.series T).rangeRead := by cases t <;> rfl
  unfold ReturnsRange
  rw [hread, ← perm_within_iff]
  constructor
  · intro h
    obtain ⟨ans, hans⟩ := exists_rangeAnswer (fun r => ((t.series T).key r).ts)
      ((t.series T).inRange id start stop) (storedRows T t values)
    obtain ⟨bars, hbars, hperm⟩ := rangeRead_bars ⟨ans, hans, rfl⟩
    obtain ⟨bars', hbars', hperm'⟩ := h _ ⟨ans, hans, rfl⟩
    obtain rfl := Except.ok.inj (hbars.symm.trans hbars')
    exact hperm.symm.trans hperm'
  · intro h result hresult
    obtain ⟨bars, hbars, hperm⟩ := rangeRead_bars hresult
    exact ⟨bars, hbars, hperm.trans h⟩

/-- The three range reads return what is in the half-open range exactly if no stored bar lies
on the millisecond to which a bound was cut back, where the other bound lets it in. -/
theorem returnsRange_iff (T : DecimalText) (t : Table) (values : List t.Value)
    (id : InstrumentId) (start stop : Int) :
    ReturnsRange T t values id start stop ↔ OffCutBounds T t values id start stop := by
  rw [returnsRange_iff_selects]
  unfold OffCutBounds storedBars
  rw [List.forall_mem_map]
  exact forall₂_congr fun x _ => selects_iff

/-- The bar of the epoch is returned for a range that starts half a millisecond later. -/
theorem earlier_bar_returned : ¬ ∀ (T : DecimalText) (t : Table) (values : List t.Value)
    (id : InstrumentId) (start stop : Int), ReturnsRange T t values id start stop := by
  intro h
  have hselects := (returnsRange_iff_selects .plain .oiMinute [replayedBar]
    replayedBar.instrument 500000 (minutes 1)).mp (h _ _ _ _ _ _)
  have hwithin := (hselects replayedBar (List.mem_singleton_self _)).mp
    (inRange_toRow.mpr ⟨rfl, by decide, by decide⟩)
  exact absurd hwithin.2.1 (by decide)

end OiTerminal.Storage.HalfOpen
