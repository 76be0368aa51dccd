import OiTerminal.Exchanges.Rest
import OiTerminal.Lib.Batch

/-!
# The symbols of a batch

One call serves many symbols. What it returns for one of them should depend on the rows of this
symbol alone, whatever stands in the others. Two calls with the same rows of a symbol are
compared.
-/
namespace OiTerminal.Exchanges.BatchIsolation

open OiTerminal.Core OiTerminal.Core.Time
open OiTerminal.Exchanges.Rest
open OiTerminal.Exchanges.Rest.Hyperliquid (MapOrder)
open OiTerminal.Lib.Batch OiTerminal.Lib.ByKey

set_option autoImplicit false

inductive Call where
  | fetchOi
  | fetchPrices
  | fetchFunding
  deriving DecidableEq

/-- What a call depends on beside its rows: the crates' parsers and texts, the intervals that
discovery has found, the bucket and the clock. -/
structure Setting where
  text : DecimalText
  rangeError : String
  intervals : String → Option Nat
  bucket : Int
  now : Int

structure Endpoint where
  Row : Type
  Out : Type
  symbolOf : Row → String
  instrumentOf : Out → InstrumentId
  answer : MapOrder → List InstrumentId → List Row → Except ExchangeError (List Out)

/-- An adapter that leaves the default of `fetch_prices` asks for no rows. The rows of
Hyperliquid are pairs of a name and a context. -/
def endpoint (c : Setting) : Exchange → Call → Endpoint
  | .binance, .fetchOi => ⟨_, _, fun r => r.inst.symbol, RawOi.instrument,
      fun _ _ rows => .ok (Binance.fetchOi c.text rows c.bucket c.now)⟩
  | .binance, .fetchPrices => ⟨_, _, Binance.MarkPriceResp.symbol, PriceQuote.instrument,
      fun _ ids rows => Binance.fetchPrices c.text c.rangeError rows ids⟩
  | .binance, .fetchFunding => ⟨_, _, Binance.MarkPriceResp.symbol, FundingBar.instrument,
      fun _ ids rows => .ok (Binance.fetchFunding c.text rows ids c.bucket c.now)⟩
  | .aster, .fetchOi => ⟨_, _, fun r => r.inst.symbol, RawOi.instrument,
      fun _ _ rows => .ok (Aster.fetchOi c.text rows c.bucket c.now)⟩
  | .aster, .fetchPrices => ⟨_, _, Binance.MarkPriceResp.symbol, PriceQuote.instrument,
      fun _ ids rows => Aster.fetchPrices c.text c.rangeError rows ids⟩
  | .aster, .fetchFunding => ⟨_, _, Binance.MarkPriceResp.symbol, FundingBar.instrument,
      fun _ ids rows => .ok (Aster.fetchFunding c.text rows ids c.bucket c.now)⟩
  | .bybit, .fetchOi => ⟨_, _, Bybit.TickerRow.symbol, RawOi.instrument,
      fun _ ids rows => .ok (Bybit.fetchOi c.text rows ids c.bucket c.now)⟩
  | .bybit, .fetchPrices => ⟨_, _, Bybit.TickerRow.symbol, PriceQuote.instrument,
      fun _ ids rows => .ok (Bybit.fetchPrices c.text rows ids c.now)⟩
  | .bybit, .fetchFunding => ⟨_, _, Bybit.TickerRow.symbol, FundingBar.instrument,
      fun _ ids rows => .ok (Bybit.fetchFunding c.text rows ids c.bucket c.now)⟩
  | .bitget, .fetchOi => ⟨_, _, Bitget.TickerRow.symbol, RawOi.instrument,
      fun _ ids rows => .ok (Bitget.fetchOi c.text rows ids c.bucket c.now)⟩
  | .bitget, .fetchFunding => ⟨_, _, Bitget.TickerRow.symbol, FundingBar.instrument,
      fun _ ids rows => .ok (Bitget.fetchFunding c.text rows ids c.bucket c.now)⟩
  | .okx, .fetchOi => ⟨_, _, Okx.OiRow.instId, RawOi.instrument,
      fun _ ids rows => .ok (Okx.fetchOi c.text rows ids c.bucket c.now)⟩
  | .okx, .fetchPrices => ⟨_, _, fun r => r.1.instId, PriceQuote.instrument,
      fun _ ids rows => .ok (Okx.fetchPrices c.text rows ids)⟩
  | .okx, .fetchFunding => ⟨_, _, fun r => r.inst.symbol, FundingBar.instrument,
      fun _ _ rows => .ok (Okx.fetchFunding c.text rows c.bucket c.now)⟩
  | .bingX, .fetchOi => ⟨_, _, fun r => r.inst.symbol, RawOi.instrument,
      fun _ _ rows => .ok (BingX.fetchOi c.text rows c.bucket c.now)⟩
  | .bingX, .fetchPrices => ⟨_, _, BingX.PremiumRow.symbol, PriceQuote.instrument,
      fun _ ids rows => .ok (BingX.fetchPrices c.text rows ids c.now)⟩
  | .bingX, .fetchFunding => ⟨_, _, BingX.PremiumRow.symbol, FundingBar.instrument,
      fun _ ids rows => .ok (BingX.fetchFunding c.text rows ids c.bucket c.now)⟩
  | .kuCoin, .fetchOi => ⟨_, _, KuCoin.ContractRow.symbol, RawOi.instrument,
      fun _ ids rows => .ok (KuCoin.fetchOi c.text rows ids c.bucket c.now)⟩
  | .kuCoin, .fetchFunding => ⟨_, _, KuCoin.ContractRow.symbol, FundingBar.instrument,
      fun _ ids rows => .ok (KuCoin.fetchFunding c.text c.intervals rows ids c.bucket c.now)⟩
  | .mexc, .fetchOi => ⟨_, _, Mexc.TickerRow.symbol, RawOi.instrument,
      fun _ ids rows => .ok (Mexc.fetchOi c.text rows ids c.bucket c.now)⟩
  | .mexc, .fetchFunding => ⟨_, _, Mexc.TickerRow.symbol, FundingBar.instrument,
      fun _ ids rows => .ok (Mexc.fetchFunding c.text c.intervals rows ids c.bucket c.now)⟩
  | .hyperliquid, .fetchOi => ⟨String × Hyperliquid.AssetCtx, _, Prod.fst, RawOi.instrument,
      fun O ids rows => Hyperliquid.fetchOi c.text O (rows.map Prod.fst) (rows.map Prod.snd) ids
        c.bucket c.now⟩
  | .hyperliquid, .fetchPrices => ⟨String × Hyperliquid.AssetCtx, _, Prod.fst,
      PriceQuote.instrument, fun _ ids rows =>
        .ok (Hyperliquid.fetchPrices c.text (rows.map Prod.fst) (rows.map Prod.snd) ids c.now)⟩
  | .hyperliquid, .fetchFunding => ⟨String × Hyperliquid.AssetCtx, _, Prod.fst,
      FundingBar.instrument, fun _ ids rows =>
        .ok (Hyperliquid.fetchFunding c.text (rows.map Prod.fst) (rows.map Prod.snd) ids c.bucket
          c.now)⟩
  | .bitget, .fetchPrices | .kuCoin, .fetchPrices | .mexc, .fetchPrices =>
    ⟨Empty, _, nofun, PriceQuote.instrument, fun _ _ _ => .ok []⟩

/-- The row cannot end its call: it is no row of the prices of Binance and Aster, or its price
is a decimal and its time in range. -/
def Readable (c : Setting) : (e : Exchange) → (call : Call) → (endpoint c e call).Row → Prop
  | .binance, .fetchPrices, r | .aster, .fetchPrices, r =>
    (∃ price, c.text.fromText r.markPrice = .ok price) ∧ InRange (ofMillis r.time)
  | _, _, _ => True

/-- Every row of a requested symbol is readable. -/
def AllReadable (c : Setting) (e : Exchange) (call : Call) (instruments : List InstrumentId)
    (rows : List (endpoint c e call).Row) : Prop :=
  ∀ r ∈ rows, wanted instruments ((endpoint c e call).symbolOf r) → Readable c e call r

section

variable {T : DecimalText} {Row : Type} {key : Row → String} {bucket now : Int}

theorem keeps_tickerQuote {id : Row → InstrumentId} {mark last : Row → String} {ts : Row → Int}
    (h : ∀ r, (id r).symbol = key r) :
    KeepsKey key (fun q => q.instrument.symbol)
      fun r => tickerQuote T (id r) (mark r) (last r) (ts r) := by
  intro r q hq
  dsimp only [tickerQuote] at hq
  split at hq
  · obtain ⟨p, -, rfl⟩ := Option.map_eq_some_iff.mp hq
    exact h r
  · split at hq
    · obtain ⟨p, -, rfl⟩ := Option.map_eq_some_iff.mp hq
      exact h r
    · cases hq

theorem keeps_textOi {id : Row → InstrumentId} {text : Row → String} {unit : UnitKind}
    {hint : Row → Option PriceQuote} (h : ∀ r, (id r).symbol = key r) :
    KeepsKey key (fun o => o.instrument.symbol)
      fun r => textOi T (id r) (text r) unit bucket now (hint r) := by
  intro r o ho
  obtain ⟨-, hmap⟩ := Option.ite_none_left_eq_some.mp ho
  obtain ⟨value, -, rfl⟩ := Option.map_eq_some_iff.mp hmap
  exact h r

theorem keeps_textFunding {id : Row → InstrumentId} {text : Row → String}
    {next : Row → Option Int} (h : ∀ r, (id r).symbol = key r) :
    KeepsKey key (fun b => b.instrument.symbol)
      fun r => textFunding T (id r) (text r) (next r) bucket now := by
  intro r b hb
  obtain ⟨-, hmap⟩ := Option.ite_none_left_eq_some.mp hb
  obtain ⟨rate, -, rfl⟩ := Option.map_eq_some_iff.mp hmap
  exact h r

/-- The loop that skips isolates every symbol. -/
theorem isolated_collect {Out : Type} {outKey : Out → String} {convert : Row → Option Out}
    (h : KeepsKey key outKey convert) {instruments : List InstrumentId} {symbol : String}
    {rows rows' : List Row} (hsame : ofKey key symbol rows = ofKey key symbol rows') :
    Isolated outKey symbol
      (.ok (collect key convert instruments rows) : Except ExchangeError _)
      (.ok (collect key convert instruments rows')) := by
  unfold collect
  rw [List.filterMap_filter, List.filterMap_filter]
  exact isolated_filterMap (h.filter fun r => wanted instruments (key r)) hsame

end

theorem wanted_forwarded (instruments : List InstrumentId) :
    wanted (Aster.forwarded instruments) = wanted instruments := by
  have hsymbols : (Aster.forwarded instruments).map InstrumentId.symbol =
      instruments.map InstrumentId.symbol := List.map_map
  funext symbol
  rw [wanted, wanted, hsymbols]

theorem keeps_toQuote (c : Setting) : KeepsKey Binance.MarkPriceResp.symbol
    (fun q : PriceQuote => q.instrument.symbol)
    fun r => (Binance.toQuote c.text c.rangeError r).toOption := by
  intro r q hq
  dsimp only [Binance.toQuote] at hq
  split at hq
  · cases hq
  · split at hq
    · cases hq
    · rw [← Option.some.inj hq]

/-- A row of Binance converts exactly if it is readable. -/
theorem toQuote_ok_iff (c : Setting) (r : Binance.MarkPriceResp) :
    (∃ q, Binance.toQuote c.text c.rangeError r = .ok q) ↔
      Readable c .binance .fetchPrices r := by
  show _ ↔ (∃ price, c.text.fromText r.markPrice = .ok price) ∧ InRange (ofMillis r.time)
  unfold Binance.toQuote fromUnixMillis
  cases hprice : c.text.fromText r.markPrice with
  | error e => simp
  | ok price =>
    by_cases hrange : InRange (ofMillis r.time)
    · simp [hrange]
    · simp [hrange]

section

variable (c : Setting) (instruments : List InstrumentId) {symbol : String}
  {rows rows' : List Binance.MarkPriceResp}

/-- The loop over the prices, by what it makes of one row. -/
theorem isolated_prices_iff {quote : Binance.MarkPriceResp → Except ExchangeError PriceQuote}
    (hkeeps : KeepsKey Binance.MarkPriceResp.symbol (fun q : PriceQuote => q.instrument.symbol)
      fun r => (quote r).toOption)
    (hok : ∀ r, (∃ q, quote r = .ok q) ↔ Readable c .binance .fetchPrices r)
    (hsame : ofKey Binance.MarkPriceResp.symbol symbol rows =
      ofKey Binance.MarkPriceResp.symbol symbol rows') :
    Isolated (fun q : PriceQuote => q.instrument.symbol) symbol
      ((rows.filter fun r => wanted instruments r.symbol).mapM quote)
      ((rows'.filter fun r => wanted instruments r.symbol).mapM quote) ↔
    AllReadable c .binance .fetchPrices instruments rows ∧
      AllReadable c .binance .fetchPrices instruments rows' := by
  have hall : ∀ rows : List Binance.MarkPriceResp,
      (∀ r ∈ rows.filter fun r => wanted instruments r.symbol, ∃ q, quote r = .ok q) ↔
      AllReadable c .binance .fetchPrices instruments rows := by
    intro rows
    simp only [List.mem_filter, and_imp, hok]
    rfl
  rw [isolated_mapM_iff hkeeps, hall, hall]
  rw [ofKey_filter, ofKey_filter, hsame]

theorem aster_fetchPrices (rows : List Binance.MarkPriceResp) :
    Aster.fetchPrices c.text c.rangeError rows instruments =
      (rows.filter fun r => wanted instruments r.symbol).mapM fun r =>
        (Binance.toQuote c.text c.rangeError r).map fun q =>
          { q with instrument := Aster.retag .aster q.instrument } := by
  unfold Aster.fetchPrices Binance.fetchPrices
  rw [map_mapM, wanted_forwarded]

theorem aster_isolated_prices_iff
    (hsame : ofKey Binance.MarkPriceResp.symbol symbol rows =
      ofKey Binance.MarkPriceResp.symbol symbol rows') :
    Isolated (fun q : PriceQuote => q.instrument.symbol) symbol
      (Aster.fetchPrices c.text c.rangeError rows instruments)
      (Aster.fetchPrices c.text c.rangeError rows' instruments) ↔
    AllReadable c .aster .fetchPrices instruments rows ∧
      AllReadable c .aster .fetchPrices instruments rows' := by
  rw [aster_fetchPrices, aster_fetchPrices]
  refine isolated_prices_iff c instruments ?_ (fun r => ?_) hsame
  · simp only [toOption_map]
    exact (keeps_toQuote c).map fun _ => rfl
  · rw [← toQuote_ok_iff]
    cases Binance.toQuote c.text c.rangeError r <;> simp [Except.map]

end

section

variable (T : DecimalText) (instruments : List InstrumentId) (bucket now : Int)

theorem hyperliquid_fetchOi (O : MapOrder) (rows : List (String × Hyperliquid.AssetCtx)) :
    Hyperliquid.fetchOi T O (rows.map Prod.fst) (rows.map Prod.snd) instruments bucket now =
      .ok (((O.order (rows.map Prod.fst).dedup).filter (wanted instruments)).filterMap
        fun name => (lastOf Prod.fst name rows).bind (Hyperliquid.toRaw T bucket now)) := by
  unfold Hyperliquid.fetchOi
  rw [if_neg (by simp), ← List.zip_of_prod rfl rfl]
  rfl

variable {symbol : String} {rows rows' : List (String × Hyperliquid.AssetCtx)}

theorem hyperliquid_isolated_oi (O O' : MapOrder)
    (hsame : ofKey Prod.fst symbol rows = ofKey Prod.fst symbol rows') :
    Isolated (fun o : RawOi => o.instrument.symbol) symbol
      (Hyperliquid.fetchOi T O (rows.map Prod.fst) (rows.map Prod.snd) instruments bucket now)
      (Hyperliquid.fetchOi T O' (rows'.map Prod.fst) (rows'.map Prod.snd) instruments bucket
        now) := by
  have hkeeps : KeepsKey Prod.fst (fun o : RawOi => o.instrument.symbol)
      (Hyperliquid.toRaw T bucket now) := .of_map fun _ _ => rfl
  rw [hyperliquid_fetchOi, hyperliquid_fetchOi]
  exact isolated_last _ hkeeps (O.perm _) (O'.perm _) hsame

/-- The loops over both lists at once go through the pairs. -/
theorem hyperliquid_isolated_zip {Out : Type} {outKey : Out → String}
    {convert : String × Hyperliquid.AssetCtx → Option Out} (h : KeepsKey Prod.fst outKey convert)
    (hsame : ofKey Prod.fst symbol rows = ofKey Prod.fst symbol rows') :
    let answer (rows : List (String × Hyperliquid.AssetCtx)) : Except ExchangeError (List Out) :=
      .ok (if (rows.map Prod.fst).length ≠ (rows.map Prod.snd).length then []
        else collect Prod.fst convert instruments ((rows.map Prod.fst).zip (rows.map Prod.snd)))
    Isolated outKey symbol (answer rows) (answer rows') := by
  intro answer
  have hanswer : ∀ rows, answer rows = .ok (collect Prod.fst convert instruments rows) := by
    intro rows
    dsimp only [answer]
    rw [if_neg (by simp), ← List.zip_of_prod rfl rfl]
  rw [hanswer, hanswer]
  exact isolated_collect h hsame

end

section

variable (c : Setting) (e : Exchange) (O O' : MapOrder) (instruments : List InstrumentId)
  {symbol : String}

theorem isolated_oi {rows rows' : List (endpoint c e .fetchOi).Row}
    (hsame : ofKey (endpoint c e .fetchOi).symbolOf symbol rows =
      ofKey (endpoint c e .fetchOi).symbolOf symbol rows') :
    Isolated (fun o => ((endpoint c e .fetchOi).instrumentOf o).symbol) symbol
      ((endpoint c e .fetchOi).answer O instruments rows)
      ((endpoint c e .fetchOi).answer O' instruments rows') := by
  cases e with
  | binance => exact isolated_filterMap (.of_map fun _ _ => rfl) hsame
  | bybit => exact isolated_collect (keeps_textOi fun _ => rfl) hsame
  | okx =>
    have hkeeps : KeepsKey Okx.OiRow.instId (fun o : RawOi => o.instrument.symbol)
        (Okx.OiRow.toRaw c.text c.bucket c.now) := .of_map fun _ _ => rfl
    exact isolated_collect hkeeps hsame
  | bingX => exact isolated_filterMap (.of_map fun _ _ => rfl) hsame
  | kuCoin => exact isolated_collect (keeps_textOi fun _ => rfl) hsame
  | mexc =>
    have hkeeps : KeepsKey Mexc.TickerRow.symbol (fun o : RawOi => o.instrument.symbol)
        (Mexc.toRaw c.text c.bucket c.now) := .of_map fun _ _ => rfl
    exact isolated_collect hkeeps hsame
  | bitget => exact isolated_collect (keeps_textOi fun _ => rfl) hsame
  | hyperliquid => exact hyperliquid_isolated_oi _ _ _ _ O O' hsame
  | aster =>
    have hinner : Isolated (fun o : RawOi => o.instrument.symbol) symbol
        (.ok (Binance.fetchOi c.text rows c.bucket c.now) : Except ExchangeError _)
        (.ok (Binance.fetchOi c.text rows' c.bucket c.now)) :=
      isolated_filterMap (.of_map fun _ _ => rfl) hsame
    exact hinner.map fun _ => rfl

theorem isolated_funding {rows rows' : List (endpoint c e .fetchFunding).Row}
    (hsame : ofKey (endpoint c e .fetchFunding).symbolOf symbol rows =
      ofKey (endpoint c e .fetchFunding).symbolOf symbol rows') :
    Isolated (fun o => ((endpoint c e .fetchFunding).instrumentOf o).symbol) symbol
      ((endpoint c e .fetchFunding).answer O instruments rows)
      ((endpoint c e .fetchFunding).answer O' instruments rows') := by
  cases e with
  | binance => exact isolated_collect (keeps_textFunding fun _ => rfl) hsame
  | bybit => exact isolated_collect (keeps_textFunding fun _ => rfl) hsame
  | okx => exact isolated_filterMap (.of_map fun _ _ => rfl) hsame
  | bingX => exact isolated_collect (keeps_textFunding fun _ => rfl) hsame
  | kuCoin =>
    have hkeeps : KeepsKey KuCoin.ContractRow.symbol (fun b : FundingBar => b.instrument.symbol)
        (KuCoin.toBar c.text c.intervals c.bucket c.now) := .of_map fun _ _ => rfl
    exact isolated_collect hkeeps hsame
  | mexc =>
    have hkeeps : KeepsKey Mexc.TickerRow.symbol (fun b : FundingBar => b.instrument.symbol)
        (Mexc.toBar c.text c.intervals c.bucket c.now) := .of_map fun _ _ => rfl
    exact isolated_collect hkeeps hsame
  | bitget => exact isolated_collect (keeps_textFunding fun _ => rfl) hsame
  | hyperliquid =>
    have hkeeps : KeepsKey Prod.fst (fun b : FundingBar => b.instrument.symbol)
        (Hyperliquid.toBar c.text c.bucket c.now) := .of_map fun _ _ => rfl
    exact hyperliquid_isolated_zip instruments hkeeps hsame
  | aster =>
    have hinner : Isolated (fun b : FundingBar => b.instrument.symbol) symbol
        (.ok (Binance.fetchFunding c.text rows (Aster.forwarded instruments) c.bucket c.now) :
          Except ExchangeError _)
        (.ok (Binance.fetchFunding c.text rows' (Aster.forwarded instruments) c.bucket c.now)) :=
      isolated_collect (keeps_textFunding fun _ => rfl) hsame
    exact hinner.map fun _ => rfl

/-- Binance and Aster are left. -/
theorem isolated_prices (hbinance : e ≠ .binance) (haster : e ≠ .aster)
    {rows rows' : List (endpoint c e .fetchPrices).Row}
    (hsame : ofKey (endpoint c e .fetchPrices).symbolOf symbol rows =
      ofKey (endpoint c e .fetchPrices).symbolOf symbol rows') :
    Isolated (fun o => ((endpoint c e .fetchPrices).instrumentOf o).symbol) symbol
      ((endpoint c e .fetchPrices).answer O instruments rows)
      ((endpoint c e .fetchPrices).answer O' instruments rows') := by
  cases e with
  | binance => exact absurd rfl hbinance
  | bybit => exact isolated_collect (keeps_tickerQuote fun _ => rfl) hsame
  | okx => exact isolated_collect (keeps_tickerQuote fun _ => rfl) hsame
  | bingX =>
    have hkeeps : KeepsKey BingX.PremiumRow.symbol (fun q : PriceQuote => q.instrument.symbol)
        (BingX.quote c.text c.now) := .of_map fun _ _ => rfl
    exact isolated_collect hkeeps hsame
  | kuCoin => exact ⟨[], [], rfl, rfl, rfl⟩
  | mexc => exact ⟨[], [], rfl, rfl, rfl⟩
  | bitget => exact ⟨[], [], rfl, rfl, rfl⟩
  | hyperliquid =>
    have hkeeps : KeepsKey Prod.fst (fun q : PriceQuote => q.instrument.symbol)
        (Hyperliquid.quote c.text c.now) := .of_map fun _ _ => rfl
    exact hyperliquid_isolated_zip instruments hkeeps hsame
  | aster => exact absurd rfl haster

end

/-- Of the calls that skip, every row is readable. -/
theorem allReadable_of_skips (c : Setting) (e : Exchange) (call : Call)
    (h : call = .fetchPrices → e ≠ .binance ∧ e ≠ .aster) (instruments : List InstrumentId)
    (rows : List (endpoint c e call).Row) : AllReadable c e call instruments rows := by
  intro r _ _
  cases call with
  | fetchOi => cases e <;> exact trivial
  | fetchFunding => cases e <;> exact trivial
  | fetchPrices =>
    obtain ⟨hbinance, haster⟩ := h rfl
    cases e with
    | binance => exact absurd rfl hbinance
    | aster => exact absurd rfl haster
    | _ => exact trivial

/-- Between two calls with the same rows of a symbol, both succeed with the same outputs for the
symbol exactly if no requested row, in either of them, is one that ends its call. -/
theorem isolated_iff (c : Setting) (e : Exchange) (call : Call) (O O' : MapOrder)
    (instruments : List InstrumentId) (symbol : String)
    (rows rows' : List (endpoint c e call).Row)
    (hsame : ofKey (endpoint c e call).symbolOf symbol rows =
      ofKey (endpoint c e call).symbolOf symbol rows') :
    Isolated (fun o => ((endpoint c e call).instrumentOf o).symbol) symbol
      ((endpoint c e call).answer O instruments rows)
      ((endpoint c e call).answer O' instruments rows') ↔
    AllReadable c e call instruments rows ∧ AllReadable c e call instruments rows' := by
  have hskips : ∀ h : call = .fetchPrices → e ≠ .binance ∧ e ≠ .aster,
      AllReadable c e call instruments rows ∧ AllReadable c e call instruments rows' := fun h =>
    ⟨allReadable_of_skips c e call h instruments rows,
      allReadable_of_skips c e call h instruments rows'⟩
  cases call with
  | fetchOi =>
    exact iff_of_true (isolated_oi c e O O' instruments hsame) (hskips fun h => nomatch h)
  | fetchFunding =>
    exact iff_of_true (isolated_funding c e O O' instruments hsame) (hskips fun h => nomatch h)
  | fetchPrices =>
    have hothers := fun hbinance haster =>
      iff_of_true (isolated_prices c e O O' instruments hbinance haster hsame)
        (hskips fun _ => ⟨hbinance, haster⟩)
    cases e with
    | binance =>
      exact isolated_prices_iff c instruments (keeps_toQuote c) (toQuote_ok_iff c) hsame
    | aster => exact aster_isolated_prices_iff c instruments hsame
    | _ => exact hothers nofun nofun

/-! Two rows of Binance, and the second with a text that is no price. -/

def exampleSetting : Setting := ⟨.plain, "timestamp must be in range", fun _ => none, 0, 0⟩

def inOrder : MapOrder := ⟨id, fun _ => .refl _⟩

def exampleRow (symbol price : String) : Binance.MarkPriceResp :=
  ⟨symbol, price, "0.0001", 0, 1714000000000⟩

def exampleRows : List Binance.MarkPriceResp :=
  [exampleRow "BTCUSDT" "64000.50", exampleRow "ETHUSDT" "3200.10"]

def exampleIds : List InstrumentId := [⟨.binance, "BTCUSDT"⟩, ⟨.binance, "ETHUSDT"⟩]

def replacedRows : List Binance.MarkPriceResp := exampleRows.set 1 (exampleRow "ETHUSDT" "n/a")

theorem other_row_replaced : ofKey Binance.MarkPriceResp.symbol "BTCUSDT" exampleRows =
    ofKey Binance.MarkPriceResp.symbol "BTCUSDT" replacedRows := by
  refine (ofKey_set (fun old hold => ?_) (by decide)).symm
  rw [← Option.some.inj hold]
  decide

/-- The funding of the first is what it was. -/
theorem funding_isolated : Isolated (fun b : FundingBar => b.instrument.symbol) "BTCUSDT"
    (.ok (Binance.fetchFunding .plain exampleRows exampleIds 0 0) : Except ExchangeError _)
    (.ok (Binance.fetchFunding .plain replacedRows exampleIds 0 0)) := by
  have hall : ∀ rows : List Binance.MarkPriceResp,
      AllReadable exampleSetting .binance .fetchFunding exampleIds rows := fun rows =>
    allReadable_of_skips exampleSetting .binance .fetchFunding nofun exampleIds rows
  exact (isolated_iff exampleSetting .binance .fetchFunding inOrder inOrder exampleIds "BTCUSDT"
    exampleRows replacedRows other_row_replaced).mpr ⟨hall _, hall _⟩

/-- Its price is lost. -/
theorem prices_not_isolated : ¬ ∀ (c : Setting) (e : Exchange) (call : Call) (O O' : MapOrder)
    (instruments : List InstrumentId) (symbol : String) (rows rows' : List (endpoint c e call).Row),
    ofKey (endpoint c e call).symbolOf symbol rows =
      ofKey (endpoint c e call).symbolOf symbol rows' →
    Isolated (fun o => ((endpoint c e call).instrumentOf o).symbol) symbol
      ((endpoint c e call).answer O instruments rows)
      ((endpoint c e call).answer O' instruments rows') := by
  intro h
  obtain ⟨out, out', -, hout', -⟩ := h exampleSetting .binance .fetchPrices inOrder inOrder
    exampleIds "BTCUSDT" exampleRows replacedRows other_row_replaced
  obtain ⟨hall, -⟩ := mapM_eq_ok_iff.mp hout'
  obtain ⟨q, hq⟩ := hall (exampleRow "ETHUSDT" "n/a") (by decide)
  obtain ⟨⟨price, hprice⟩, -⟩ := (toQuote_ok_iff exampleSetting _).mp ⟨q, hq⟩
  have hbad : DecimalText.plain.fromText "n/a" = .error "Invalid decimal: unknown character" := rfl
  cases hbad.symm.trans hprice

end OiTerminal.Exchanges.BatchIsolation
