import OiTerminal.Lib.ReplacingTable
import OiTerminal.Storage.ClickHouse

/-!
# One bar per key on read

The three tables deduplicate by (exchange, symbol, timestamp), but only when a background
merge gets to a key. The queries read without `FINAL`, so a range read lists every row of a
key that is still there, and a read of the newest row may return any of them.
-/
namespace OiTerminal.Storage.ClickHouseReads

open OiTerminal.Core OiTerminal.Core.Time OiTerminal.Storage.ClickHouse
open OiTerminal.Lib.ReplacingTable

set_option autoImplicit false

/-- The sorting key of a table. -/
@[ext]
structure RowKey where
  exchange : String
  symbol : String
  ts : Int
  deriving DecidableEq, Repr

/-- A table with its values, its rows and the columns that the queries name. -/
structure Series (α Row : Type) where
  toRow : α → Row
  fromRow : Row → Except CoreError α
  /-- What a row keeps of a value. -/
  cut : α → α
  key : Row → RowKey
  instrument : α → InstrumentId
  ts : α → Int
  fromRow_toRow : ∀ x, fromRow (toRow x) = .ok (cut x)
  key_toRow : ∀ x, key (toRow x) =
    ⟨(instrument x).exchange.code, (instrument x).symbol, unixMillis (ts x)⟩
  toRow_cut : ∀ x, toRow (cut x) = toRow x
  ts_cut : ∀ x, ts (cut x) = ofMillis (unixMillis (ts x))

section Tables

variable (T : DecimalText)

def oiMinute : Series OiSnapshot OiRow where
  toRow := snapToRow T
  fromRow := rowToSnap T
  cut := cutSnap
  key r := ⟨r.exchange, r.symbol, r.bucketTs⟩
  instrument := OiSnapshot.instrument
  ts := OiSnapshot.bucketTs
  fromRow_toRow := rowToSnap_snapToRow T
  key_toRow _ := rfl
  toRow_cut s := by simp [snapToRow, cutSnap]
  ts_cut _ := rfl

def fundingMinute : Series FundingBar FundingRow where
  toRow := fundingToRow T
  fromRow := rowToFunding T
  cut := cutFunding
  key r := ⟨r.exchange, r.symbol, r.bucketTs⟩
  instrument := FundingBar.instrument
  ts := FundingBar.bucketTs
  fromRow_toRow := rowToFunding_fundingToRow T
  key_toRow _ := rfl
  toRow_cut b := by
    have hnext : (b.nextFundingTs.map cutMillis).map unixMillis =
        b.nextFundingTs.map unixMillis := by
      cases b.nextFundingTs with
      | none => rfl
      | some t => exact congrArg some (unixMillis_cutMillis t)
    simp [fundingToRow, cutFunding, hnext]
  ts_cut _ := rfl

def fundingEvent : Series FundingEvent FundingEventRow where
  toRow := eventToRow T
  fromRow := rowToEvent T
  cut := cutEvent
  key r := ⟨r.exchange, r.symbol, r.settlementTs⟩
  instrument := FundingEvent.instrument
  ts := FundingEvent.settlementTs
  fromRow_toRow := rowToEvent_eventToRow T
  key_toRow _ := rfl
  toRow_cut e := by simp [eventToRow, cutEvent]
  ts_cut _ := rfl

end Tables

namespace Series

variable {α Row : Type} (S : Series α Row)

/-- The key that a value is stored under. -/
def keyOf (x : α) : RowKey := S.key (S.toRow x)

def ofInstrument (id : InstrumentId) (r : Row) : Bool :=
  (S.key r).exchange = id.exchange.code ∧ (S.key r).symbol = id.symbol

/-- The `WHERE` clause of a range query. -/
def inRange (id : InstrumentId) (start stop : Int) (r : Row) : Bool :=
  S.ofInstrument id r ∧ unixMillis start ≤ (S.key r).ts ∧ (S.key r).ts < unixMillis stop

/-- An insert of many values. An empty batch sends nothing. -/
def upsert (values : List α) (rows : List Row) : List Row :=
  if values.isEmpty then rows else rows ++ values.map S.toRow

/-- The last upsert of the key that a value is stored under, as storage keeps it. -/
def lastOf (ops : List (Op α RowKey)) (x : α) : Option α :=
  (lastUpsert S.keyOf (S.keyOf x) ops).map S.cut

/-- `ORDER BY` the timestamp. Every row that matches is converted. -/
def rangeRead (rows : List Row) (id : InstrumentId) (start stop : Int)
    (result : Except CoreError (List α)) : Prop :=
  ∃ ans, RangeAnswer (fun r => (S.key r).ts) (S.inRange id start stop) rows ans ∧
    result = ans.mapM S.fromRow

/-- `ORDER BY` the timestamp `DESC LIMIT 1`. -/
def latestRead (rows : List Row) (id : InstrumentId) (result : Except CoreError (Option α)) :
    Prop :=
  ∃ ans, LatestAnswer (fun r => (S.key r).ts) (S.ofInstrument id) rows ans ∧
    result = ans.mapM S.fromRow

end Series

section Repo

variable (T : DecimalText)

def upsertSnapshots : List OiSnapshot → List OiRow → List OiRow := (oiMinute T).upsert

def upsertFunding : List FundingBar → List FundingRow → List FundingRow :=
  (fundingMinute T).upsert

def upsertFundingEvents : List FundingEvent → List FundingEventRow → List FundingEventRow :=
  (fundingEvent T).upsert

/-- `SELECT_OHLC_COLUMNS`. -/
def range : List OiRow → InstrumentId → Int → Int → Except CoreError (List OiSnapshot) → Prop :=
  (oiMinute T).rangeRead

/-- `SELECT_OHLC_LATEST`. -/
def latest : List OiRow → InstrumentId → Except CoreError (Option OiSnapshot) → Prop :=
  (oiMinute T).latestRead

/-- `SELECT_FUNDING_RANGE`. -/
def fundingRange :
    List FundingRow → InstrumentId → Int → Int → Except CoreError (List FundingBar) → Prop :=
  (fundingMinute T).rangeRead

/-- `SELECT_FUNDING_LATEST`. -/
def latestFunding : List FundingRow → InstrumentId → Except CoreError (Option FundingBar) → Prop :=
  (fundingMinute T).latestRead

/-- `SELECT_EVENTS_RANGE`. -/
def fundingEventsRange :
    List FundingEventRow → InstrumentId → Int → Int → Except CoreError (List FundingEvent) → Prop :=
  (fundingEvent T).rangeRead

/-- `SELECT_EVENT_LATEST`. -/
def latestFundingEvent :
    List FundingEventRow → InstrumentId → Except CoreError (Option FundingEvent) → Prop :=
  (fundingEvent T).latestRead

end Repo

inductive Table where
  | oiMinute
  | fundingMinute
  | fundingEvent
  deriving DecidableEq, Repr

namespace Table

abbrev Value : Table → Type
  | .oiMinute => OiSnapshot
  | .fundingMinute => FundingBar
  | .fundingEvent => FundingEvent

abbrev Row : Table → Type
  | .oiMinute => OiRow
  | .fundingMinute => FundingRow
  | .fundingEvent => FundingEventRow

variable (T : DecimalText)

def series : (t : Table) → Series t.Value t.Row
  | .oiMinute => ClickHouseReads.oiMinute T
  | .fundingMinute => ClickHouseReads.fundingMinute T
  | .fundingEvent => ClickHouseReads.fundingEvent T

def upsert : (t : Table) → List t.Value → List t.Row → List t.Row
  | .oiMinute => upsertSnapshots T
  | .fundingMinute => upsertFunding T
  | .fundingEvent => upsertFundingEvents T

def rangeOf : (t : Table) → List t.Row → InstrumentId → Int → Int →
    Except CoreError (List t.Value) → Prop
  | .oiMinute => range T
  | .fundingMinute => fundingRange T
  | .fundingEvent => fundingEventsRange T

def latestOf : (t : Table) → List t.Row → InstrumentId →
    Except CoreError (Option t.Value) → Prop
  | .oiMinute => latest T
  | .fundingMinute => latestFunding T
  | .fundingEvent => latestFundingEvent T

/-- An upsert through the repository, or a background merge of one key. -/
def step (t : Table) (rows : List t.Row) : Op t.Value RowKey → List t.Row
  | .insert values => t.upsert T values rows
  | .merge k => mergeKey (t.series T).key k rows

/-- The rows of the table after the operations, in ingest order. -/
def rows (t : Table) (ops : List (Op t.Value RowKey)) : List t.Row :=
  ops.foldl (t.step T) []

end Table

variable (T : DecimalText)

/-- Whatever the reads return is right: a range has strictly increasing timestamps, and
every bar of it, as well as the newest bar, is the last upsert of its key. -/
structure OneBarPerKey (t : Table) (ops : List (Op t.Value RowKey)) (id : InstrumentId)
    (start stop : Int) : Prop where
  range : ∀ result, t.rangeOf T (t.rows T ops) id start stop result →
    ∃ bars, result = .ok bars ∧
      bars.Pairwise (fun a b => (t.series T).ts a < (t.series T).ts b) ∧
      ∀ x ∈ bars, (t.series T).lastOf ops x = some x
  latest : ∀ result, t.latestOf T (t.rows T ops) id result →
    ∃ found, result = .ok found ∧ ∀ x ∈ found, (t.series T).lastOf ops x = some x

/-- The merges have caught up: no key of the range has two rows left, and the rows left of
the newest key are equal. -/
structure CaughtUp (t : Table) (ops : List (Op t.Value RowKey)) (id : InstrumentId)
    (start stop : Int) : Prop where
  range : Single (t.series T).key ((t.series T).inRange id start stop)
    (ops.map (Op.map (t.series T).toRow))
  newest : NewestAgrees (t.series T).key (fun r => ((t.series T).key r).ts)
    ((t.series T).ofInstrument id) (ops.map (Op.map (t.series T).toRow))

namespace Series

variable {α Row : Type} {S : Series α Row} {ops : List (Op α RowKey)} {x : α} {r : Row}

/-- The value that a stored row is read as. -/
structure Stored (S : Series α Row) (x : α) (r : Row) : Prop where
  fromRow : S.fromRow r = .ok x
  toRow : S.toRow x = r
  ts : S.ts x = ofMillis (S.key r).ts

theorem stored_cut (S : Series α Row) (x : α) : S.Stored (S.cut x) (S.toRow x) where
  fromRow := S.fromRow_toRow x
  toRow := S.toRow_cut x
  ts := by rw [S.ts_cut, S.key_toRow]

/-- Every row of the table is the row of an upserted value. -/
theorem exists_stored (h : r ∈ table S.key (ops.map (Op.map S.toRow))) : ∃ x, S.Stored x r := by
  have hup : r ∈ (upserts ops).map S.toRow := by
    rw [← upserts_map]
    exact mem_upserts_of_mem_table h
  obtain ⟨x, _, rfl⟩ := List.mem_map.mp hup
  exact ⟨S.cut x, S.stored_cut x⟩

/-- A read value is the last upsert of its key exactly when its row is the last row. -/
theorem lastOf_eq_some_iff (h : S.Stored x r) :
    S.lastOf ops x = some x ↔
      lastUpsert S.key (S.key r) (ops.map (Op.map S.toRow)) = some r := by
  have hkey : S.keyOf x = S.key r := congrArg S.key h.toRow
  rw [lastOf, hkey, lastUpsert_map]
  show (lastUpsert S.keyOf (S.key r) ops).map S.cut = some x ↔
    (lastUpsert S.keyOf (S.key r) ops).map S.toRow = some r
  rw [Option.map_eq_some_iff, Option.map_eq_some_iff]
  constructor
  · rintro ⟨y, hy, hcut⟩
    refine ⟨y, hy, ?_⟩
    rw [← S.toRow_cut, hcut, h.toRow]
  · rintro ⟨y, hy, hrow⟩
    refine ⟨y, hy, ?_⟩
    have hread : S.fromRow (S.toRow y) = .ok x := by rw [hrow, h.fromRow]
    rw [S.fromRow_toRow] at hread
    exact Except.ok.inj hread

/-- Stored rows are all converted, one value for each. -/
theorem mapM_fromRow {rows : List Row} (h : ∀ r ∈ rows, ∃ x, S.Stored x r) :
    ∃ values, rows.mapM S.fromRow = .ok values ∧ List.Forall₂ S.Stored values rows := by
  induction rows with
  | nil => exact ⟨[], rfl, .nil⟩
  | cons r rest ih =>
    obtain ⟨x, hx⟩ := h r List.mem_cons_self
    obtain ⟨values, hvalues, hall⟩ := ih fun r hr => h r (List.mem_cons_of_mem _ hr)
    refine ⟨x :: values, ?_, .cons hx hall⟩
    rw [List.mapM_cons, hx.fromRow, hvalues]
    rfl

/-- A fact about values that amounts to a fact about their rows. -/
theorem forall_stored_iff {p : α → Prop} {q : Row → Prop} (hpq : ∀ x r, S.Stored x r → (p x ↔ q r))
    {values : List α} {rows : List Row} (h : List.Forall₂ S.Stored values rows) :
    (∀ x ∈ values, p x) ↔ ∀ r ∈ rows, q r := by
  induction h with
  | nil => simp
  | cons hx _ ih => rw [List.forall_mem_cons, List.forall_mem_cons, ih, hpq _ _ hx]

theorem pairwise_ts_iff {values : List α} {rows : List Row}
    (h : List.Forall₂ S.Stored values rows) :
    values.Pairwise (fun a b => S.ts a < S.ts b) ↔
      rows.Pairwise fun a b => (S.key a).ts < (S.key b).ts := by
  induction h with
  | nil => simp
  | cons hx hall ih =>
    rw [List.pairwise_cons, List.pairwise_cons, ih]
    refine and_congr_left fun _ => forall_stored_iff (fun y r hy => ?_) hall
    rw [hx.ts, hy.ts]
    simp only [ofMillis]
    omega

theorem selects_ofInstrument (S : Series α Row) (id : InstrumentId) :
    Selects S.key (fun r => (S.key r).ts) (S.ofInstrument id) where
  congr r x h := by rw [ofInstrument, ofInstrument, h]
  key_iff r x hr hx := by
    simp only [ofInstrument, decide_eq_true_eq] at hr hx
    refine ⟨congrArg RowKey.ts, fun hts => ?_⟩
    exact RowKey.ext (hr.1.trans hx.1.symm) (hr.2.trans hx.2.symm) hts

theorem selects_inRange (S : Series α Row) (id : InstrumentId) (start stop : Int) :
    Selects S.key (fun r => (S.key r).ts) (S.inRange id start stop) where
  congr r x h := by rw [inRange, inRange, ofInstrument, ofInstrument, h]
  key_iff r x hr hx := by
    simp only [inRange, decide_eq_true_eq] at hr hx
    exact (S.selects_ofInstrument id).key_iff r x hr.1 hx.1

theorem upsert_eq (S : Series α Row) (values : List α) (rows : List Row) :
    S.upsert values rows = rows ++ values.map S.toRow := by
  cases values with
  | nil => exact (List.append_nil rows).symm
  | cons x rest => rfl

/-- The range reads are right exactly when no key of the range has two rows left. -/
theorem rangeRead_iff (S : Series α Row) (ops : List (Op α RowKey)) (id : InstrumentId)
    (start stop : Int) :
    (∀ result, S.rangeRead (table S.key (ops.map (Op.map S.toRow))) id start stop result →
      ∃ bars, result = .ok bars ∧ bars.Pairwise (fun a b => S.ts a < S.ts b) ∧
        ∀ x ∈ bars, S.lastOf ops x = some x) ↔
      Single S.key (S.inRange id start stop) (ops.map (Op.map S.toRow)) := by
  rw [← range_answers_iff (S.selects_inRange id start stop)]
  have hread : ∀ ans, RangeAnswer (fun r => (S.key r).ts) (S.inRange id start stop)
      (table S.key (ops.map (Op.map S.toRow))) ans →
      ∃ bars, ans.mapM S.fromRow = .ok bars ∧ List.Forall₂ S.Stored bars ans := by
    intro ans hans
    exact mapM_fromRow fun r hr =>
      exists_stored (List.mem_of_mem_filter (hans.perm.mem_iff.mp hr))
  constructor
  · intro hgood ans hans
    obtain ⟨bars, hbars, hall⟩ := hread ans hans
    obtain ⟨_, hok, hts, hlast⟩ := hgood _ ⟨ans, hans, rfl⟩
    obtain rfl := Except.ok.inj (hbars.symm.trans hok)
    refine ⟨(pairwise_ts_iff hall).mp hts, ?_⟩
    exact (forall_stored_iff (fun _ _ => lastOf_eq_some_iff) hall).mp hlast
  · rintro hgood _ ⟨ans, hans, rfl⟩
    obtain ⟨bars, hbars, hall⟩ := hread ans hans
    obtain ⟨hts, hlast⟩ := hgood ans hans
    refine ⟨bars, hbars, (pairwise_ts_iff hall).mpr hts, ?_⟩
    exact (forall_stored_iff (fun _ _ => lastOf_eq_some_iff) hall).mpr hlast

/-- The reads of the newest bar are right exactly when the rows left of its key are equal. -/
theorem latestRead_iff (S : Series α Row) (ops : List (Op α RowKey)) (id : InstrumentId) :
    (∀ result, S.latestRead (table S.key (ops.map (Op.map S.toRow))) id result →
      ∃ found, result = .ok found ∧ ∀ x ∈ found, S.lastOf ops x = some x) ↔
      NewestAgrees S.key (fun r => (S.key r).ts) (S.ofInstrument id)
        (ops.map (Op.map S.toRow)) := by
  rw [← latest_answers_iff (S.selects_ofInstrument id)]
  have hread : ∀ {x r}, S.Stored x r → (some r).mapM S.fromRow = .ok (some x) := by
    intro x r hx
    show (S.fromRow r).map some = _
    rw [hx.fromRow]
    rfl
  constructor
  · intro hgood r hr
    obtain ⟨x, hx⟩ := exists_stored hr.1
    obtain ⟨_, hok, hlast⟩ := hgood _ ⟨some r, hr, rfl⟩
    obtain rfl := Except.ok.inj ((hread hx).symm.trans hok)
    exact (lastOf_eq_some_iff hx).mp (hlast x rfl)
  · rintro hgood _ ⟨ans, hans, rfl⟩
    cases ans with
    | none => exact ⟨none, rfl, fun _ h => absurd h (Option.not_mem_none _)⟩
    | some r =>
      obtain ⟨x, hx⟩ := exists_stored hans.1
      refine ⟨some x, hread hx, fun y hy => ?_⟩
      obtain rfl := Option.some.inj hy
      exact (lastOf_eq_some_iff hx).mpr (hgood r hans)

end Series

/-- The repository's upserts and the merges make up the table of the converted rows. -/
theorem rows_eq (t : Table) (ops : List (Op t.Value RowKey)) :
    t.rows T ops = table (t.series T).key (ops.map (Op.map (t.series T).toRow)) := by
  have hupsert : t.upsert T = (t.series T).upsert := by cases t <;> rfl
  induction ops using List.reverseRecOn with
  | nil => rfl
  | append_singleton ops op ih =>
    rw [List.map_append, List.map_singleton, table_concat, ← ih]
    simp only [Table.rows, List.foldl_append, List.foldl_cons, List.foldl_nil]
    cases op with
    | insert values => rw [Table.step, hupsert, Series.upsert_eq, Op.map, apply]
    | merge k => rfl

theorem oneBarPerKey_iff_caughtUp (t : Table) (ops : List (Op t.Value RowKey))
    (id : InstrumentId) (start stop : Int) :
    OneBarPerKey T t ops id start stop ↔ CaughtUp T t ops id start stop := by
  have hrange : t.rangeOf T = (t.series T).rangeRead := by cases t <;> rfl
  have hlatest : t.latestOf T = (t.series T).latestRead := by cases t <;> rfl
  have hr := (t.series T).rangeRead_iff ops id start stop
  have hl := (t.series T).latestRead_iff ops id
  rw [← rows_eq, ← hrange] at hr
  rw [← rows_eq, ← hlatest] at hl
  exact ⟨fun h => ⟨hr.mp h.range, hl.mp h.latest⟩, fun h => ⟨hr.mpr h.range, hl.mpr h.newest⟩⟩

/-- The bar of one minute with a single sample. -/
def replayedBar : OiSnapshot := .startFromSample (sampleAt 0 0)

/-- A minute that is written twice, as a replay does, before any merge: the range read
returns it twice. -/
theorem replayed_minute_read_twice :
    ¬ OneBarPerKey .plain .oiMinute [.insert [replayedBar], .insert [replayedBar]]
      replayedBar.instrument 0 (minutes 1) := by
  intro h
  let row := snapToRow .plain replayedBar
  have hans : RangeAnswer (fun r => ((oiMinute .plain).key r).ts)
      ((oiMinute .plain).inRange replayedBar.instrument 0 (minutes 1)) [row, row] [row, row] :=
    ⟨.refl _, by simp⟩
  obtain ⟨bars, hbars, hts, -⟩ := h.range _ ⟨[row, row], hans, rfl⟩
  have hread : rowToSnap .plain row = .ok (cutSnap replayedBar) :=
    rowToSnap_snapToRow .plain replayedBar
  have htwo : [row, row].mapM (rowToSnap .plain) =
      .ok [cutSnap replayedBar, cutSnap replayedBar] := by
    rw [List.mapM_cons, List.mapM_cons, hread]
    rfl
  obtain rfl := Except.ok.inj (hbars.symm.trans htwo)
  exact absurd (List.rel_of_pairwise_cons hts List.mem_cons_self) (lt_irrefl _)

end OiTerminal.Storage.ClickHouseReads
