import OiTerminal.Core.BarOrigins
import OiTerminal.Core.DecimalText

/-!
# The samples of OKX

A push carries coins. A row of the REST payload carries coins or, when that text is empty,
contracts. The minute loop enriches the rows, the WS task builds its samples itself, and
both observe into one aggregator.
-/
namespace OiTerminal.Exchanges.Okx

open OiTerminal.Core
open OiTerminal.Core.Time
open OiTerminal.Core.TracedBar

set_option autoImplicit false

/-- A row of the open interest endpoint. A missing text is the empty one. -/
structure OiRow where
  instId : String
  oi : String
  oiCcy : String
  deriving DecidableEq

/-- Prefer `oiCcy`, and fall back to `oi` only when it is empty. A row without either and one
with a text that is no decimal are skipped. -/
def OiRow.valueUnit (T : DecimalText) (r : OiRow) : Option (Decimal × UnitKind) :=
  if r.oiCcy ≠ "" then
    match T.fromText r.oiCcy with
    | .ok v => some (v, .coins)
    | .error _ => none
  else if r.oi ≠ "" then
    match T.fromText r.oi with
    | .ok v => some (v, .contracts)
    | .error _ => none
  else none

def OiRow.toRaw (T : DecimalText) (bucket now : Int) (r : OiRow) : Option RawOi :=
  (r.valueUnit T).map fun (value, unit) => ⟨⟨.okx, r.instId⟩, value, unit, bucket, now, none⟩

def fetchOi (T : DecimalText) (rows : List OiRow) (instruments : List InstrumentId)
    (bucket now : Int) : List RawOi :=
  let wanted := instruments.map InstrumentId.symbol
  (rows.filter fun r => wanted.contains r.instId).filterMap (OiRow.toRaw T bucket now)

/-- The texts of a row of a push. What is absent or no string is `none`. -/
structure PushRow where
  instId : Option String
  oiCcy : Option String

/-- The channel and the data of a frame, as far as it has them. -/
structure Push where
  channel : Option String
  data : Option (List PushRow)

def extractOiUpdate (T : DecimalText) (frame : Push) : Option (String × Decimal) := do
  let channel ← frame.channel
  if channel ≠ "open-interest" then none
  else
    let row ← (← frame.data).head?
    let instId ← row.instId
    let coinsStr := row.oiCcy.getD ""
    if coinsStr ≠ "" then
      let value ← (T.fromText coinsStr).toOption
      return (instId, value)
    else none

def toRaw (instId : String) (value : Decimal) (now : Int) : RawOi :=
  ⟨⟨.okx, instId⟩, value, .coins, floorToMinute now, now, none⟩

def enrichOkx (raw : RawOi) : OiSample where
  instrument := raw.instrument
  bucketTs := raw.bucketTs
  recvTs := raw.recvTs
  nativeValue := raw.value
  nativeUnit := .coins
  oiCoins := some raw.value
  oiUsd := none
  priceUsed := none

/-- What the two tasks of the venue turn into samples: a push, and a row of a fetch with the
metadata and the price that the tick has for it. -/
inductive Source where
  | push (frame : Push) (now : Int)
  | row (r : OiRow) (info : InstrumentMeta) (price : Option Decimal) (bucket now : Int)

def Source.sample (A : DecimalArith) (T : DecimalText) : Source → Option OiSample
  | .push frame now =>
    (extractOiUpdate T frame).map fun (instId, value) => enrichOkx (toRaw instId value now)
  | .row r info price bucket now =>
    (r.toRaw T bucket now).bind fun raw =>
      match OiSample.enrich A raw info price with
      | .ok (.ok s) => some s
      | _ => none

/-- A row of the REST payload without coins. -/
def Source.fallsBack : Source → Bool
  | .push _ _ => false
  | .row r _ _ _ _ => r.oiCcy == ""

variable {A : DecimalArith} {T : DecimalText} {source : Source} {s : OiSample}

theorem enrich_nativeUnit {raw : RawOi} {info : InstrumentMeta} {price : Option Decimal}
    (h : OiSample.enrich A raw info price = .ok (.ok s)) : s.nativeUnit = raw.unit := by
  unfold OiSample.enrich at h
  split at h
  · cases Except.ok.inj h
  · obtain ⟨coins, _, hrest⟩ := OiSample.bind_eq_ok.mp h
    obtain ⟨usd, _, hlast⟩ := OiSample.bind_eq_ok.mp hrest
    rw [← Except.ok.inj (Except.ok.inj hlast)]

theorem valueUnit_unit {r : OiRow} {value : Decimal} {unit : UnitKind}
    (h : r.valueUnit T = some (value, unit)) :
    unit = if r.oiCcy = "" then .contracts else .coins := by
  unfold OiRow.valueUnit at h
  by_cases hcoins : r.oiCcy = ""
  · rw [if_neg (not_not_intro hcoins)] at h
    rw [if_pos hcoins]
    split at h
    · split at h
      · exact (Prod.mk.inj (Option.some.inj h)).2.symm
      · cases h
    · cases h
  · rw [if_pos hcoins] at h
    rw [if_neg hcoins]
    split at h
    · exact (Prod.mk.inj (Option.some.inj h)).2.symm
    · cases h

/-- A sample is in contracts exactly if it comes from a row without coins. -/
theorem sample_nativeUnit (h : source.sample A T = some s) :
    s.nativeUnit = if source.fallsBack = true then .contracts else .coins := by
  cases source with
  | push frame now =>
    obtain ⟨update, _, rfl⟩ := Option.map_eq_some_iff.mp h
    rfl
  | row r info price bucket now =>
    obtain ⟨raw, hraw, henrich⟩ := Option.bind_eq_some_iff.mp h
    obtain ⟨⟨value, unit⟩, hvalue, rfl⟩ := Option.map_eq_some_iff.mp hraw
    have hs : OiSample.enrich A ⟨⟨.okx, r.instId⟩, value, unit, bucket, now, none⟩ info price =
        .ok (.ok s) := by
      split at henrich
      case h_1 t ht =>
        obtain rfl := Option.some.inj henrich
        exact ht
      case h_2 => cases henrich
    rw [enrich_nativeUnit hs, valueUnit_unit hvalue]
    simp [Source.fallsBack]

/-- The values of a fetch are those of the wanted rows that can be read. -/
theorem mem_fetchOi {rows : List OiRow} {instruments : List InstrumentId} {bucket now : Int}
    {raw : RawOi} : raw ∈ fetchOi T rows instruments bucket now ↔
      ∃ r ∈ rows, (∃ id ∈ instruments, id.symbol = r.instId) ∧ r.toRaw T bucket now = some raw := by
  unfold fetchOi
  simp only [List.mem_filterMap, List.mem_filter, List.contains_iff_mem, List.mem_map, and_assoc]

/-- A bar stays in its unit exactly if all samples of its minute have the unit of the first.
For OKX they have if either all of them come from rows without coins, or none does. -/
theorem one_unit_iff (A : DecimalArith) (T : DecimalText) :
    (∀ first rest, OneUnit first rest ↔
      ∀ s ∈ rest, Belongs first s → s.nativeUnit = first.nativeUnit) ∧
    ∀ (source : Source) (sources : List Source) (first : OiSample),
      source.sample A T = some first →
        (OneUnit first (sources.filterMap (Source.sample A T)) ↔
          ∀ other ∈ sources, ∀ s, other.sample A T = some s → Belongs first s →
            other.fallsBack = source.fallsBack) := by
  refine ⟨fun first rest => oneUnit_iff, fun source sources first hfirst => ?_⟩
  have hunit : ∀ other s, Source.sample A T other = some s →
      (s.nativeUnit = first.nativeUnit ↔ other.fallsBack = source.fallsBack) := by
    intro other s hs
    rw [sample_nativeUnit hs, sample_nativeUnit hfirst]
    cases other.fallsBack <;> cases source.fallsBack <;> decide
  rw [oneUnit_iff]
  constructor
  · intro h other hother s hs hbelongs
    exact (hunit other s hs).mp (h s (List.mem_filterMap.mpr ⟨other, hother, hs⟩) hbelongs)
  · intro h s hs hbelongs
    obtain ⟨other, hother, hsample⟩ := List.mem_filterMap.mp hs
    exact (hunit other s hsample).mpr (h other hother s hsample hbelongs)

/-- A push of 1234 coins, then the row of the minute with an empty `oiCcy`: 123400 contracts
close a bar in coins. -/
theorem fallback_folded_as_coins :
    ¬ ∀ (A : DecimalArith) (T : DecimalText) (source : Source) (sources : List Source)
      (first : OiSample), source.sample A T = some first →
        OneUnit first (sources.filterMap (Source.sample A T)) := by
  intro h
  let id : InstrumentId := ⟨.okx, "BTC-USDT-SWAP"⟩
  let info : InstrumentMeta := ⟨id, "BTC", "USDT", true, .coins, none, none, none, true⟩
  let push : Push := ⟨some "open-interest", some [⟨some id.symbol, some "1234"⟩]⟩
  let value : Decimal := .ofNat 1234 (by decide)
  let contracts : Decimal := .ofNat 123400 (by decide)
  let row : Source := .row ⟨id.symbol, "123400", ""⟩ info none 0 (seconds 62)
  let closing : OiSample := ⟨id, 0, seconds 62, contracts, .contracts, none, none, none⟩
  have hpush : (Source.push push (seconds 30)).sample .rounding .plain =
      some (enrichOkx (toRaw id.symbol value (seconds 30))) := by decide
  have hrow : row.sample .rounding .plain = some closing := by decide
  have hmem : closing ∈ [row].filterMap (Source.sample .rounding .plain) :=
    List.mem_filterMap.mpr ⟨row, List.mem_singleton_self row, hrow⟩
  have hunit := oneUnit_iff.mp (h _ _ _ [row] _ hpush) closing hmem ⟨rfl, by decide⟩
  exact absurd hunit (by decide)

end OiTerminal.Exchanges.Okx
