import Mathlib.Data.List.Induction
import OiTerminal.Core.Instrument
import OiTerminal.Core.Time

/-!
# Samples and the minute bar they fold into

`startFromSample` and `observe` build one bar from the samples of a minute.
`barOf` is that fold over a list of samples. Enrichment multiplies decimals, and each
multiplication may panic.
-/
namespace OiTerminal.Core

set_option autoImplicit false

/-- Open interest as published by the exchange, before enrichment. -/
structure RawOi where
  instrument : InstrumentId
  value : Decimal
  unit : UnitKind
  bucketTs : Int
  recvTs : Int
  priceHint : Option PriceQuote
  deriving DecidableEq, Repr

/-- A single enriched observation. -/
structure OiSample where
  instrument : InstrumentId
  bucketTs : Int
  recvTs : Int
  nativeValue : Decimal
  nativeUnit : UnitKind
  oiCoins : Option Decimal
  oiUsd : Option Decimal
  priceUsed : Option Decimal
  deriving DecidableEq, Repr

namespace UnitKind

/-- Convert a native value into coins. -/
def toCoins (A : DecimalArith) (unit : UnitKind) (native : Decimal)
    (multiplier : Option Decimal) : Except Panic (Option Decimal) :=
  match unit with
  | .coins => .ok (some native)
  | .contracts => A.mapMul native multiplier
  | .usd => .ok none

/-- Convert a native value into USD. The product of contracts, multiplier and price
associates to the left. -/
def toUsd (A : DecimalArith) (unit : UnitKind) (native : Decimal)
    (multiplier price : Option Decimal) : Except Panic (Option Decimal) :=
  match unit with
  | .usd => .ok (some native)
  | .coins => A.mapMul native price
  | .contracts =>
    match multiplier, price with
    | some m, some p => do
      let coins ← A.mul native m
      let usd ← A.mul coins p
      return some usd
    | _, _ => .ok none

end UnitKind

namespace OiSample

/-- Enrich a raw value with the instrument's metadata and an optional price. The hint
that came with the value is preferred over the price of the provider. -/
def enrich (A : DecimalArith) (raw : RawOi) (info : InstrumentMeta)
    (priceUsd : Option Decimal) : Except Panic (Except ExchangeError OiSample) :=
  if raw.instrument ≠ info.id then
    .ok (.error (.schema [.text "instrument mismatch: raw=", .instrument raw.instrument,
      .text " meta=", .instrument info.id]))
  else do
    let mult := info.contractMultiplier
    let price := (raw.priceHint.map PriceQuote.price).or priceUsd
    let oiCoins ← raw.unit.toCoins A raw.value mult
    let oiUsd ← raw.unit.toUsd A raw.value mult price
    return .ok {
      instrument := raw.instrument
      bucketTs := raw.bucketTs
      recvTs := raw.recvTs
      nativeValue := raw.value
      nativeUnit := raw.unit
      oiCoins
      oiUsd
      priceUsed := price }

/-- What follows a call that returned. -/
theorem bind_eq_ok {ε α β : Type} {x : Except ε α} {k : α → Except ε β} {b : β} :
    x >>= k = .ok b ↔ ∃ a, x = .ok a ∧ k a = .ok b := by
  cases x with
  | error e => simp [bind, Except.bind]
  | ok a => simp [bind, Except.bind]

/-- A row that is enriched with its own metadata yields a sample of the row's instants. -/
theorem enrich_eq_ok {A : DecimalArith} {raw : RawOi} {info : InstrumentMeta}
    {priceUsd : Option Decimal} {result : Except ExchangeError OiSample}
    (hid : raw.instrument = info.id) (h : enrich A raw info priceUsd = .ok result) :
    ∃ s, result = .ok s ∧ s.instrument = raw.instrument ∧ s.bucketTs = raw.bucketTs ∧
      s.recvTs = raw.recvTs := by
  unfold enrich at h
  rw [if_neg (not_not.mpr hid)] at h
  obtain ⟨coins, _, hrest⟩ := bind_eq_ok.mp h
  obtain ⟨usd, _, hlast⟩ := bind_eq_ok.mp hrest
  exact ⟨_, (Except.ok.inj hlast).symm, rfl, rfl, rfl⟩

end OiSample

/-- A sample of 100 coins of one instrument, for runs on fixed inputs. -/
def sampleAt (bucketTs recvTs : Int) : OiSample where
  instrument := ⟨.bybit, "BTCUSDT"⟩
  bucketTs := bucketTs
  recvTs := recvTs
  nativeValue := .ofNat 100 (by decide)
  nativeUnit := .coins
  oiCoins := none
  oiUsd := none
  priceUsed := none

/-- One-minute OHLC bar. -/
structure OiSnapshot where
  instrument : InstrumentId
  bucketTs : Int
  firstRecvTs : Int
  lastRecvTs : Int
  samples : Nat
  nativeUnit : UnitKind
  nativeOpen : Decimal
  nativeHigh : Decimal
  nativeLow : Decimal
  nativeClose : Decimal
  oiCoinsOpen : Option Decimal
  oiCoinsHigh : Option Decimal
  oiCoinsLow : Option Decimal
  oiCoinsClose : Option Decimal
  oiUsdOpen : Option Decimal
  oiUsdHigh : Option Decimal
  oiUsdLow : Option Decimal
  oiUsdClose : Option Decimal
  priceUsedClose : Option Decimal
  deriving DecidableEq, Repr

/-- The four optional columns of one axis. -/
structure OptionalOhlc where
  opn : Option Decimal
  high : Option Decimal
  low : Option Decimal
  close : Option Decimal
  deriving DecidableEq, Repr

/-- The first value of the axis sets all four fields. Later ones move the close, and
the extremes when they cross them. -/
def foldOptional (axis : OptionalOhlc) (incoming : Option Decimal) : OptionalOhlc :=
  match incoming with
  | none => axis
  | some v =>
    if axis.opn.isNone then ⟨some v, some v, some v, some v⟩
    else
      { opn := axis.opn
        high := axis.high.map fun h => if h < v then v else h
        low := axis.low.map fun l => if v < l then v else l
        close := some v }

/-- Largest value of the 32-bit sample counter, which saturates. -/
def maxSamples : Nat := 2 ^ 32 - 1

namespace OiSnapshot

/-- Initialize a bar from the first sample in the bucket. -/
def startFromSample (s : OiSample) : OiSnapshot where
  instrument := s.instrument
  bucketTs := s.bucketTs
  firstRecvTs := s.recvTs
  lastRecvTs := s.recvTs
  samples := 1
  nativeUnit := s.nativeUnit
  nativeOpen := s.nativeValue
  nativeHigh := s.nativeValue
  nativeLow := s.nativeValue
  nativeClose := s.nativeValue
  oiCoinsOpen := s.oiCoins
  oiCoinsHigh := s.oiCoins
  oiCoinsLow := s.oiCoins
  oiCoinsClose := s.oiCoins
  oiUsdOpen := s.oiUsd
  oiUsdHigh := s.oiUsd
  oiUsdLow := s.oiUsd
  oiUsdClose := s.oiUsd
  priceUsedClose := s.priceUsed

def coins (bar : OiSnapshot) : OptionalOhlc :=
  ⟨bar.oiCoinsOpen, bar.oiCoinsHigh, bar.oiCoinsLow, bar.oiCoinsClose⟩

def usd (bar : OiSnapshot) : OptionalOhlc :=
  ⟨bar.oiUsdOpen, bar.oiUsdHigh, bar.oiUsdLow, bar.oiUsdClose⟩

/-- The bar after one more sample of its own instrument and bucket. -/
def fold (bar : OiSnapshot) (s : OiSample) : OiSnapshot :=
  let coins := foldOptional bar.coins s.oiCoins
  let usd := foldOptional bar.usd s.oiUsd
  { bar with
    samples := min (bar.samples + 1) maxSamples
    lastRecvTs := s.recvTs
    nativeClose := s.nativeValue
    nativeHigh := if bar.nativeHigh < s.nativeValue then s.nativeValue else bar.nativeHigh
    nativeLow := if s.nativeValue < bar.nativeLow then s.nativeValue else bar.nativeLow
    oiCoinsOpen := coins.opn
    oiCoinsHigh := coins.high
    oiCoinsLow := coins.low
    oiCoinsClose := coins.close
    oiUsdOpen := usd.opn
    oiUsdHigh := usd.high
    oiUsdLow := usd.low
    oiUsdClose := usd.close
    priceUsedClose := s.priceUsed.or bar.priceUsedClose }

/-- Fold a subsequent sample into this bar. A sample of another instrument or bucket
is rejected. -/
def observe (bar : OiSnapshot) (s : OiSample) : Except ExchangeError OiSnapshot :=
  if s.instrument ≠ bar.instrument ∨ s.bucketTs ≠ bar.bucketTs then
    .error (.schema [.text "observe: sample bucket ", .instrument s.instrument, .text "@",
      .timestamp s.bucketTs, .text " does not match bar ", .instrument bar.instrument,
      .text "@", .timestamp bar.bucketTs])
  else .ok (bar.fold s)

@[simp] theorem startFromSample_instrument (s : OiSample) :
    (startFromSample s).instrument = s.instrument := rfl
@[simp] theorem startFromSample_bucketTs (s : OiSample) :
    (startFromSample s).bucketTs = s.bucketTs := rfl
@[simp] theorem startFromSample_lastRecvTs (s : OiSample) :
    (startFromSample s).lastRecvTs = s.recvTs := rfl
@[simp] theorem startFromSample_samples (s : OiSample) : (startFromSample s).samples = 1 := rfl
@[simp] theorem fold_instrument (bar : OiSnapshot) (s : OiSample) :
    (bar.fold s).instrument = bar.instrument := rfl
@[simp] theorem fold_bucketTs (bar : OiSnapshot) (s : OiSample) :
    (bar.fold s).bucketTs = bar.bucketTs := rfl
@[simp] theorem fold_lastRecvTs (bar : OiSnapshot) (s : OiSample) :
    (bar.fold s).lastRecvTs = s.recvTs := rfl

theorem observe_eq_ok {bar : OiSnapshot} {s : OiSample} (hi : s.instrument = bar.instrument)
    (hb : s.bucketTs = bar.bucketTs) : bar.observe s = .ok (bar.fold s) := by
  simp [observe, hi, hb]

end OiSnapshot

/-- The bar that a non-empty list of samples folds into, when every fold is accepted. -/
def barOf : List OiSample → Option OiSnapshot
  | [] => none
  | s :: rest => (rest.foldlM OiSnapshot.observe (OiSnapshot.startFromSample s)).toOption

theorem barOf_singleton (s : OiSample) : barOf [s] = some (.startFromSample s) := rfl

/-- One more accepted sample extends the folded list. -/
theorem barOf_append {l : List OiSample} {bar : OiSnapshot} {s : OiSample}
    (h : barOf l = some bar) (hi : s.instrument = bar.instrument)
    (hb : s.bucketTs = bar.bucketTs) : barOf (l ++ [s]) = some (bar.fold s) := by
  cases l with
  | nil => cases h
  | cons first rest =>
    have hfold : rest.foldlM OiSnapshot.observe (.startFromSample first) = .ok bar := by
      simp only [barOf] at h
      cases hr : rest.foldlM OiSnapshot.observe (.startFromSample first) with
      | error e => rw [hr] at h; cases h
      | ok b => rw [hr] at h; cases h; rfl
    have hs : bar.observe s = .ok (bar.fold s) := OiSnapshot.observe_eq_ok hi hb
    simp only [barOf, List.cons_append, List.foldlM_append, hfold]
    show ((bar.observe s).bind pure).toOption = _
    rw [hs]
    rfl

theorem barOf_ne_nil {l : List OiSample} {bar : OiSnapshot} (h : barOf l = some bar) : l ≠ [] := by
  rintro rfl
  cases h

/-- A bar's last receive time is that of a sample folded into it. -/
theorem exists_lastRecvTs {l : List OiSample} {bar : OiSnapshot} (h : barOf l = some bar) :
    ∃ s ∈ l, bar.lastRecvTs = s.recvTs := by
  induction l using List.reverseRecOn generalizing bar with
  | nil => cases h
  | append_singleton l s ih =>
    refine ⟨s, by simp, ?_⟩
    cases l with
    | nil => cases h; rfl
    | cons first rest =>
      simp only [barOf, List.cons_append, List.foldlM_append, List.foldlM_cons,
        List.foldlM_nil] at h
      cases hr : rest.foldlM OiSnapshot.observe (.startFromSample first) with
      | error e => rw [hr] at h; cases h
      | ok b =>
        rw [hr] at h
        change ((b.observe s).bind pure).toOption = _ at h
        unfold OiSnapshot.observe at h
        split at h
        · cases h
        · cases h; rfl

end OiTerminal.Core
