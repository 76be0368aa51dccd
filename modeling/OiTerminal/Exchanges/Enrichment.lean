import OiTerminal.Core.Snapshot

/-!
# Enrichment of venue values

The live enrichers build a sample from a raw value and its own price hint, without
instrument metadata. Together with `OiSample.enrich` they are the paths on which venue
numbers are multiplied.
-/
namespace OiTerminal.Exchanges

open OiTerminal.Core

set_option autoImplicit false

/-- A coins-native value with the price hint that came with it. -/
def enrichCoinsNative (A : DecimalArith) (raw : RawOi) : Except Panic OiSample := do
  let price := raw.priceHint.map PriceQuote.price
  let oiUsd ← A.mapMul raw.value price
  return {
    instrument := raw.instrument
    bucketTs := raw.bucketTs
    recvTs := raw.recvTs
    nativeValue := raw.value
    nativeUnit := .coins
    oiCoins := some raw.value
    oiUsd
    priceUsed := price }

def enrichBybit (A : DecimalArith) (raw : RawOi) : Except Panic OiSample := enrichCoinsNative A raw

def enrichBitget (A : DecimalArith) (raw : RawOi) : Except Panic OiSample :=
  enrichCoinsNative A raw

def enrichHyperliquid (A : DecimalArith) (raw : RawOi) : Except Panic OiSample :=
  enrichCoinsNative A raw

/-- The call comes back, with a value or with an error, instead of panicking. -/
def Returns {α : Type} (call : Except Panic α) : Prop := ∃ result, call = .ok result

theorem returns_bind {α β : Type} (x : Except Panic α) (k : α → Except Panic β) :
    Returns (x >>= k) ↔ ∃ a, x = .ok a ∧ Returns (k a) := by
  cases x with
  | error e => simp [Returns, bind, Except.bind]
  | ok a => simp [Returns, bind, Except.bind]

theorem returns_ok {α : Type} (a : α) : Returns (Except.ok a) := ⟨a, rfl⟩

/-- The products of the chain, rounded to whole numbers, are below 2⁹⁶. For contracts the second
product takes the first as the multiplication rounds it. -/
def ProductsFit (A : DecimalArith) (unit : UnitKind) (native : Decimal)
    (multiplier price : Option Decimal) : Prop :=
  match unit with
  | .usd => True
  | .coins => ∀ p, price = some p → Decimal.Fits native p
  | .contracts => ∀ m, multiplier = some m → Decimal.Fits native m ∧
      ∀ p coins, price = some p → A.mul native m = .ok coins → Decimal.Fits coins p

/-- The same for a call of `enrich`, which multiplies nothing on an instrument mismatch. -/
def EnrichFits (A : DecimalArith) (raw : RawOi) (info : InstrumentMeta)
    (priceUsd : Option Decimal) : Prop :=
  raw.instrument = info.id → ProductsFit A raw.unit raw.value info.contractMultiplier
    ((raw.priceHint.map PriceQuote.price).or priceUsd)

/-- The product of a live enricher, rounded to a whole number, is below 2⁹⁶. -/
def HintFits (raw : RawOi) : Prop :=
  ∀ quote, raw.priceHint = some quote → Decimal.Fits raw.value quote.price

theorem toCoins_toUsd_return_iff (A : DecimalArith) (unit : UnitKind) (native : Decimal)
    (multiplier price : Option Decimal) :
    Returns (unit.toCoins A native multiplier) ∧ Returns (unit.toUsd A native multiplier price) ↔
      ProductsFit A unit native multiplier price := by
  cases unit with
  | usd => simp [UnitKind.toCoins, UnitKind.toUsd, ProductsFit, Returns]
  | coins =>
    simp only [UnitKind.toCoins, UnitKind.toUsd, ProductsFit, Returns]
    rw [A.mapMul_returns_iff]
    simp
  | contracts =>
    cases multiplier with
    | none => simp [UnitKind.toCoins, UnitKind.toUsd, ProductsFit, Returns, DecimalArith.mapMul]
    | some m =>
      have hcoins : Returns (UnitKind.contracts.toCoins A native (some m)) ↔
          Decimal.Fits native m :=
        (A.mapMul_returns_iff native (some m)).trans (by simp)
      rw [hcoins]
      cases price with
      | none => simp [UnitKind.toUsd, ProductsFit, Returns]
      | some p =>
        have husd : Returns (UnitKind.contracts.toUsd A native (some m) (some p)) ↔
            ∃ coins, A.mul native m = .ok coins ∧ Decimal.Fits coins p := by
          simp only [UnitKind.toUsd, returns_bind, ← A.returns_iff _ p]
          refine exists_congr fun coins => and_congr_right fun _ => ?_
          exact exists_congr fun q => and_iff_left (returns_ok _)
        rw [husd]
        constructor
        · rintro ⟨hm, coins, hmul, hp⟩ m' hm'
          obtain rfl := Option.some.inj hm'
          refine ⟨hm, fun p' coins' hp' hmul' => ?_⟩
          obtain rfl := Option.some.inj hp'
          obtain rfl : coins = coins' := Except.ok.inj (hmul.symm.trans hmul')
          exact hp
        · intro h
          obtain ⟨hm, hchain⟩ := h m rfl
          obtain ⟨coins, hmul⟩ := (A.returns_iff native m).mpr hm
          exact ⟨hm, coins, hmul, hchain p coins rfl hmul⟩

theorem enrich_returns_iff (A : DecimalArith) (raw : RawOi) (info : InstrumentMeta)
    (priceUsd : Option Decimal) :
    Returns (OiSample.enrich A raw info priceUsd) ↔ EnrichFits A raw info priceUsd := by
  unfold OiSample.enrich EnrichFits
  by_cases hid : raw.instrument = info.id
  · rw [if_neg (not_not.mpr hid), ← toCoins_toUsd_return_iff]
    simp only [returns_bind, hid, true_imp_iff]
    constructor
    · rintro ⟨coins, hcoins, usd, husd, _⟩
      exact ⟨⟨coins, hcoins⟩, usd, husd⟩
    · rintro ⟨⟨coins, hcoins⟩, usd, husd⟩
      exact ⟨coins, hcoins, usd, husd, returns_ok _⟩
  · rw [if_pos hid]
    exact iff_of_true (returns_ok _) fun h => absurd h hid

theorem enrichCoinsNative_returns_iff (A : DecimalArith) (raw : RawOi) :
    Returns (enrichCoinsNative A raw) ↔ HintFits raw := by
  unfold enrichCoinsNative HintFits
  simp only [returns_bind]
  have hprod := A.mapMul_returns_iff raw.value (raw.priceHint.map PriceQuote.price)
  constructor
  · rintro ⟨usd, husd, _⟩ quote hquote
    exact hprod.mp ⟨usd, husd⟩ quote.price (by rw [hquote]; rfl)
  · intro h
    obtain ⟨usd, husd⟩ := hprod.mpr fun p hp => by
      obtain ⟨quote, hquote, rfl⟩ := Option.map_eq_some_iff.mp hp
      exact h quote hquote
    exact ⟨usd, husd, returns_ok _⟩

/-- No call of the four enrichment paths panics. -/
def NeverPanics (A : DecimalArith) : Prop :=
  (∀ raw info priceUsd, Returns (OiSample.enrich A raw info priceUsd)) ∧
    ∀ raw, Returns (enrichBybit A raw) ∧ Returns (enrichBitget A raw) ∧
      Returns (enrichHyperliquid A raw)

/-- Each enrichment path returns exactly when the products it forms fit. -/
theorem enrichment_returns_iff (A : DecimalArith) (raw : RawOi) (info : InstrumentMeta)
    (priceUsd : Option Decimal) :
    (Returns (OiSample.enrich A raw info priceUsd) ↔ EnrichFits A raw info priceUsd) ∧
      (Returns (enrichBybit A raw) ↔ HintFits raw) ∧
      (Returns (enrichBitget A raw) ↔ HintFits raw) ∧
      (Returns (enrichHyperliquid A raw) ↔ HintFits raw) :=
  ⟨enrich_returns_iff A raw info priceUsd, enrichCoinsNative_returns_iff A raw,
    enrichCoinsNative_returns_iff A raw, enrichCoinsNative_returns_iff A raw⟩

/-- An open interest of 2⁹⁶ - 1 coins priced at 2 overflows the live enricher. -/
theorem large_interest_panics : ¬ ∀ A : DecimalArith, NeverPanics A := by
  intro hnever
  let id : InstrumentId := ⟨.bybit, "BTCUSDT"⟩
  let hint : PriceQuote := ⟨id, .ofNat 2 (by decide), .mark, 0⟩
  let raw : RawOi := ⟨id, .ofNat (2 ^ 96 - 1) (by decide), .coins, 0, 0, some hint⟩
  have hreturns : Returns (enrichBybit .rounding raw) := ((hnever .rounding).2 raw).1
  have hfits := (enrichCoinsNative_returns_iff .rounding raw).mp hreturns
  exact absurd (hfits hint rfl) (by decide)

end OiTerminal.Exchanges
