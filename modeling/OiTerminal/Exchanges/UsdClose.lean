import OiTerminal.Core.BarFold
import OiTerminal.Exchanges.Enrichment
import OiTerminal.Exchanges.Okx

/-!
# The USD close and the price beside it

The USD columns move with the samples that have a USD value, the price with those that have
a price. A sample of contracts without a multiplier may have a price alone.
-/
namespace OiTerminal.Exchanges.UsdClose

open OiTerminal.Core
open OiTerminal.Exchanges

set_option autoImplicit false

/-- The samples of the collector: a row in coins or contracts enriched by the minute loop,
or a push enriched by its venue's task. -/
inductive Produced (A : DecimalArith) (s : OiSample) : Prop where
  | enrich (raw : RawOi) (info : InstrumentMeta) (price : Option Decimal)
      (hunit : raw.unit ≠ .usd) (h : OiSample.enrich A raw info price = .ok (.ok s))
  | bybit (raw : RawOi) (h : enrichBybit A raw = .ok s)
  | bitget (raw : RawOi) (h : enrichBitget A raw = .ok s)
  | hyperliquid (raw : RawOi) (h : enrichHyperliquid A raw = .ok s)
  | okx (raw : RawOi) (h : Okx.enrichOkx raw = s)

/-- The last sample with a USD value, and what comes after it. -/
def lastValued : List OiSample → Option (OiSample × List OiSample)
  | [] => none
  | s :: rest =>
    match lastValued rest with
    | some found => some found
    | none => if s.oiUsd.isSome then some (s, rest) else none

/-- The product has the value of `usd`, be it with other digits. -/
def Makes (A : DecimalArith) (coins price usd : Decimal) : Prop :=
  ∃ q, A.mul coins price = .ok q ∧ q.units = usd.units

/-- Beside a USD close stands a price that makes it of the coins of the last sample with a
USD value. -/
def Reproduces (A : DecimalArith) (samples : List OiSample) (bar : OiSnapshot) : Prop :=
  ∀ usd, bar.oiUsdClose = some usd → ∃ price, bar.priceUsedClose = some price ∧
    ∃ s post, lastValued samples = some (s, post) ∧
      ∃ coins, s.oiCoins = some coins ∧ Makes A coins price usd

/-- No price comes after the last USD value, unless the last of them makes the same value of
the coins. -/
def NoLaterPrice (A : DecimalArith) (samples : List OiSample) : Prop :=
  ∀ s post, lastValued samples = some (s, post) →
    ∀ price, (post.filterMap OiSample.priceUsed).getLast? = some price →
      ∃ coins usd, s.oiCoins = some coins ∧ s.oiUsd = some usd ∧ Makes A coins price usd

variable {A : DecimalArith} {s : OiSample}

/-- Outside of USD a value in USD is the product of coins and price. -/
theorem coins_of_toUsd {unit : UnitKind} {native usd : Decimal}
    {multiplier price coins : Option Decimal} (hunit : unit ≠ .usd)
    (hcoins : unit.toCoins A native multiplier = .ok coins)
    (husd : unit.toUsd A native multiplier price = .ok (some usd)) :
    ∃ c p, coins = some c ∧ price = some p ∧ A.mul c p = .ok usd := by
  cases unit with
  | usd => exact absurd rfl hunit
  | coins =>
    obtain rfl := Except.ok.inj hcoins
    obtain ⟨p, hp, hmul⟩ := DecimalArith.mapMul_eq_some.mp husd
    exact ⟨native, p, rfl, hp, hmul⟩
  | contracts =>
    unfold UnitKind.toUsd at husd
    dsimp only at husd
    split at husd
    case h_1 m p =>
      obtain ⟨c, hc, hrest⟩ := OiSample.bind_eq_ok.mp husd
      obtain ⟨q, hq, hlast⟩ := OiSample.bind_eq_ok.mp hrest
      obtain rfl : q = usd := Option.some.inj (Except.ok.inj hlast)
      have hsome : UnitKind.contracts.toCoins A native (some m) = .ok (some c) :=
        DecimalArith.mapMul_eq_some.mpr ⟨m, rfl, hc⟩
      exact ⟨c, p, Except.ok.inj (hcoins.symm.trans hsome), rfl, hq⟩
    case h_2 => cases husd

theorem usd_of_enrich {raw : RawOi} {info : InstrumentMeta} {price : Option Decimal}
    (hunit : raw.unit ≠ .usd) (h : OiSample.enrich A raw info price = .ok (.ok s))
    {usd : Decimal} (husd : s.oiUsd = some usd) :
    ∃ coins p, s.oiCoins = some coins ∧ s.priceUsed = some p ∧ A.mul coins p = .ok usd := by
  unfold OiSample.enrich at h
  split at h
  · cases Except.ok.inj h
  · obtain ⟨coins, hcoins, hrest⟩ := OiSample.bind_eq_ok.mp h
    obtain ⟨product, hproduct, hlast⟩ := OiSample.bind_eq_ok.mp hrest
    obtain rfl := Except.ok.inj (Except.ok.inj hlast)
    obtain rfl : product = some usd := husd
    exact coins_of_toUsd hunit hcoins hproduct

theorem usd_of_enrichCoinsNative {raw : RawOi} (h : enrichCoinsNative A raw = .ok s)
    {usd : Decimal} (husd : s.oiUsd = some usd) :
    ∃ coins p, s.oiCoins = some coins ∧ s.priceUsed = some p ∧ A.mul coins p = .ok usd := by
  obtain ⟨product, hproduct, hsample⟩ := OiSample.bind_eq_ok.mp h
  obtain rfl := Except.ok.inj hsample
  obtain rfl : product = some usd := husd
  obtain ⟨p, hp, hmul⟩ := DecimalArith.mapMul_eq_some.mp hproduct
  exact ⟨raw.value, p, rfl, hp, hmul⟩

/-- A value in USD is the product of the sample's own coins and price. -/
theorem Produced.usd (h : Produced A s) {usd : Decimal} (husd : s.oiUsd = some usd) :
    ∃ coins p, s.oiCoins = some coins ∧ s.priceUsed = some p ∧ A.mul coins p = .ok usd := by
  cases h with
  | enrich raw info price hunit h => exact usd_of_enrich hunit h husd
  | bybit raw h => exact usd_of_enrichCoinsNative h husd
  | bitget raw h => exact usd_of_enrichCoinsNative h husd
  | hyperliquid raw h => exact usd_of_enrichCoinsNative h husd
  | okx raw h =>
    subst h
    cases husd

theorem lastValued_eq_none {samples : List OiSample} (h : lastValued samples = none) :
    samples.filterMap OiSample.oiUsd = [] := by
  induction samples with
  | nil => rfl
  | cons s rest ih =>
    unfold lastValued at h
    split at h
    · cases h
    case h_2 hrest =>
      split at h
      · cases h
      case isFalse hnone =>
        rw [List.filterMap_cons_none (Option.not_isSome_iff_eq_none.mp hnone)]
        exact ih hrest

/-- The last sample with a USD value, between the earlier ones and some without. -/
theorem lastValued_split {samples post : List OiSample}
    (h : lastValued samples = some (s, post)) :
    (∃ usd, s.oiUsd = some usd) ∧ (∃ pre, samples = pre ++ s :: post) ∧
      post.filterMap OiSample.oiUsd = [] := by
  induction samples with
  | nil => cases h
  | cons t rest ih =>
    unfold lastValued at h
    split at h
    case h_1 found hrest =>
      obtain rfl := Option.some.inj h
      obtain ⟨husd, ⟨pre, rfl⟩, hpost⟩ := ih hrest
      exact ⟨husd, ⟨t :: pre, rfl⟩, hpost⟩
    case h_2 hrest =>
      split at h
      case isTrue hsome =>
        obtain ⟨rfl, rfl⟩ := Prod.mk.inj (Option.some.inj h)
        exact ⟨Option.isSome_iff_exists.mp hsome, ⟨[], rfl⟩, lastValued_eq_none hrest⟩
      case isFalse => cases h

/-- The columns of a bar after the last sample with a USD value. -/
theorem columns_of_lastValued {samples post : List OiSample} {bar : OiSnapshot}
    (href : OiSnapshot.Reference samples bar) (h : lastValued samples = some (s, post))
    {price : Decimal} (hprice : s.priceUsed = some price) :
    bar.oiUsdClose = s.oiUsd ∧
      bar.priceUsedClose =
        some (((post.filterMap OiSample.priceUsed).getLast?).getD price) := by
  obtain ⟨⟨usd, husd⟩, ⟨pre, rfl⟩, hpost⟩ := lastValued_split h
  constructor
  · have hclose : bar.oiUsdClose =
        ((pre ++ s :: post).filterMap OiSample.oiUsd).getLast? := href.usd.close
    rw [hclose, List.filterMap_append, List.filterMap_cons_some husd, hpost, husd,
      List.getLast?_concat]
  · rw [href.priceUsedClose, List.filterMap_append, List.filterMap_cons_some hprice,
      List.getLast?_append, List.getLast?_cons]
    rfl

/-- The stored price reproduces the stored USD value exactly if no price comes after the
last USD value, or the last such price makes the same value of the same coins. -/
theorem usd_close_reproduced_iff {samples : List OiSample} {bar : OiSnapshot}
    (hproduced : ∀ s ∈ samples, Produced A s) (hbar : barOf samples = some bar) :
    Reproduces A samples bar ↔ NoLaterPrice A samples := by
  have href := OiSnapshot.reference_of_barOf hbar
  cases hlast : lastValued samples with
  | none =>
    have hnone : bar.oiUsdClose = none := by
      have hclose : bar.oiUsdClose = (samples.filterMap OiSample.oiUsd).getLast? :=
        href.usd.close
      rw [hclose, lastValued_eq_none hlast]
      rfl
    unfold Reproduces NoLaterPrice
    simp [hnone, hlast]
  | some found =>
    obtain ⟨s, post⟩ := found
    obtain ⟨⟨usd, husd⟩, ⟨pre, hsplit⟩, _⟩ := lastValued_split hlast
    have hs : s ∈ samples := by
      rw [hsplit]
      simp
    obtain ⟨coins, own, hcoins, hown, hmul⟩ := (hproduced s hs).usd husd
    obtain ⟨hclose, hprice⟩ := columns_of_lastValued href hlast hown
    constructor
    · intro h s' post' hfound price hlater
      obtain ⟨rfl, rfl⟩ := Prod.mk.inj (Option.some.inj (hlast.symm.trans hfound))
      obtain ⟨stored, hstored, s'', post'', hfound', coins', hcoins', hmakes⟩ :=
        h usd (hclose.trans husd)
      obtain ⟨rfl, rfl⟩ := Prod.mk.inj (Option.some.inj (hlast.symm.trans hfound'))
      rw [hprice, hlater] at hstored
      obtain rfl : price = stored := Option.some.inj hstored
      exact ⟨coins', usd, hcoins', husd, hmakes⟩
    · intro h stored hstored
      obtain rfl : usd = stored := Option.some.inj (husd.symm.trans (hclose.symm.trans hstored))
      refine ⟨_, hprice, s, post, hlast, coins, hcoins, ?_⟩
      cases hlater : (post.filterMap OiSample.priceUsed).getLast? with
      | none => exact ⟨usd, hmul, rfl⟩
      | some later =>
        obtain ⟨coins', usd', hcoins', husd', hmakes⟩ := h s post hlast later hlater
        obtain rfl : coins = coins' := Option.some.inj (hcoins.symm.trans hcoins')
        obtain rfl : usd = usd' := Option.some.inj (husd.symm.trans husd')
        exact hmakes

/-- Where each priced sample has a USD value, as it has in coins, no price comes later. -/
theorem noLaterPrice_of_valued {samples : List OiSample}
    (h : ∀ s ∈ samples, s.priceUsed ≠ none → s.oiUsd ≠ none) : NoLaterPrice A samples := by
  intro s post hfound price hprice
  obtain ⟨_, ⟨pre, rfl⟩, hpost⟩ := lastValued_split hfound
  obtain ⟨t, ht, hpriced⟩ := List.mem_filterMap.mp (List.mem_of_getLast? hprice)
  have hunvalued : t.oiUsd = none := List.filterMap_eq_nil_iff.mp hpost t ht
  have hmem : t ∈ pre ++ s :: post := List.mem_append_right _ (List.mem_cons_of_mem _ ht)
  exact absurd hunvalued (h t hmem (by rw [hpriced]; exact Option.some_ne_none _))

/-- A row of 275 contracts. -/
def contractsRow (recvTs : Int) : RawOi :=
  ⟨⟨.kuCoin, "XBTUSDTM"⟩, .ofNat 275 (by decide), .contracts, 0, recvTs, none⟩

def contractsInfo (multiplier : Option Decimal) : InstrumentMeta :=
  ⟨⟨.kuCoin, "XBTUSDTM"⟩, "XBT", "USDT", true, .contracts, multiplier, none, none, true⟩

/-- The sample of the row with a multiplier of 2 and a price of 3. -/
def pricedSample (recvTs : Int) : OiSample :=
  ⟨⟨.kuCoin, "XBTUSDTM"⟩, 0, recvTs, .ofNat 275 (by decide), .contracts,
    some (.ofNat 550 (by decide)), some (.ofNat 1650 (by decide)), some (.ofNat 3 (by decide))⟩

theorem pricedSample_produced (recvTs : Int) : Produced .rounding (pricedSample recvTs) := by
  have hcoins : DecimalArith.rounding.mul (.ofNat 275 (by decide)) (.ofNat 2 (by decide)) =
      .ok (.ofNat 550 (by decide)) := DecimalArith.rounding_mul_ofNat rfl
  apply Produced.enrich (contractsRow recvTs) (contractsInfo (some (.ofNat 2 (by decide))))
    (some (.ofNat 3 (by decide))) (by simp [contractsRow])
  simp only [OiSample.enrich, contractsRow, contractsInfo, ne_eq, not_true_eq_false, if_false,
    UnitKind.toCoins, UnitKind.toUsd, DecimalArith.mapMul, hcoins, Except.map, bind,
    Except.bind]
  rfl

/-- The sample of the row with neither. -/
def bareSample (recvTs : Int) : OiSample :=
  ⟨⟨.kuCoin, "XBTUSDTM"⟩, 0, recvTs, .ofNat 275 (by decide), .contracts, none, none, none⟩

theorem bareSample_produced (recvTs : Int) : Produced .rounding (bareSample recvTs) :=
  .enrich (contractsRow recvTs) (contractsInfo none) none (by simp [contractsRow]) rfl

/-- A priced sample between two bare ones: the bar keeps its USD close and its price, while the
last row closes the native value. -/
theorem priced_sample_reproduced :
    ∃ bar, barOf [bareSample 1, pricedSample 2, bareSample 3] = some bar ∧
      bar.samples = 3 ∧ bar.oiUsdClose = some (.ofNat 1650 (by decide)) ∧
      bar.priceUsedClose = some (.ofNat 3 (by decide)) ∧
      Reproduces .rounding [bareSample 1, pricedSample 2, bareSample 3] bar := by
  have hproduced : ∀ s ∈ [bareSample 1, pricedSample 2, bareSample 3], Produced .rounding s := by
    intro s hs
    rcases List.mem_cons.mp hs with rfl | hs
    · exact bareSample_produced 1
    · rcases List.mem_cons.mp hs with rfl | hs
      · exact pricedSample_produced 2
      · rw [List.mem_singleton.mp hs]
        exact bareSample_produced 3
  have hvalued : ∀ s ∈ [bareSample 1, pricedSample 2, bareSample 3], s.priceUsed ≠ none →
      s.oiUsd ≠ none := by
    intro s hs
    rcases List.mem_cons.mp hs with rfl | hs
    · exact fun hpriced => absurd rfl hpriced
    · rcases List.mem_cons.mp hs with rfl | hs
      · exact fun _ => Option.some_ne_none _
      · rw [List.mem_singleton.mp hs]
        exact fun hpriced => absurd rfl hpriced
  refine ⟨_, rfl, rfl, rfl, rfl, ?_⟩
  exact (usd_close_reproduced_iff hproduced rfl).mpr (noLaterPrice_of_valued hvalued)

/-- The next row comes without its multiplier, and with a price of 5. The bar then has the
USD close of the first row and the price of the second. -/
theorem unconvertible_price_stored :
    ¬ ∀ (A : DecimalArith) (samples : List OiSample) (bar : OiSnapshot),
      (∀ s ∈ samples, Produced A s) → barOf samples = some bar → Reproduces A samples bar := by
  intro h
  let later : OiSample := ⟨⟨.kuCoin, "XBTUSDTM"⟩, 0, 2, .ofNat 275 (by decide), .contracts,
    none, none, some (.ofNat 5 (by decide))⟩
  let bar : OiSnapshot := (OiSnapshot.startFromSample (pricedSample 1)).fold later
  have hproduced : ∀ s ∈ [pricedSample 1, later], Produced .rounding s := by
    intro s hs
    rcases List.mem_cons.mp hs with rfl | hs
    · exact pricedSample_produced 1
    · rw [List.mem_singleton.mp hs]
      exact .enrich (contractsRow 2) (contractsInfo none) (some (.ofNat 5 (by decide)))
        (by decide) rfl
  have hbar : barOf [pricedSample 1, later] = some bar := rfl
  obtain ⟨price, hprice, s, post, hfound, coins, hcoins, q, hmul, hq⟩ :=
    h _ _ bar hproduced hbar (.ofNat 1650 (by decide)) rfl
  obtain rfl : Decimal.ofNat 5 (by decide) = price := Option.some.inj hprice
  obtain ⟨rfl, rfl⟩ : pricedSample 1 = s ∧ [later] = post := Prod.mk.inj (Option.some.inj hfound)
  obtain rfl : Decimal.ofNat 550 (by decide) = coins := Option.some.inj hcoins
  have hproduct : DecimalArith.rounding.mul (.ofNat 550 (by decide)) (.ofNat 5 (by decide)) =
      .ok (.ofNat 2750 (by decide)) := DecimalArith.rounding_mul_ofNat rfl
  obtain rfl : Decimal.ofNat 2750 (by decide) = q := Except.ok.inj (hproduct.symm.trans hmul)
  exact absurd hq (by decide)

end OiTerminal.Exchanges.UsdClose
