import OiTerminal.Exchanges.BybitStream
import OiTerminal.Exchanges.Http
import OiTerminal.Lib.Pages

/-!
# The instruments of the venues

Discovery asks a venue for its contracts and keeps the linear perpetual ones, each with the unit of
its open interest. Bybit answers in pages. What the adapters of KuCoin and MEXC ask for after that
is in `FundingIntervals`.
-/
namespace OiTerminal.Exchanges.Discovery

open OiTerminal.Core
open OiTerminal.Collector.SweepPool (AdapterError)
open OiTerminal.Exchanges.BybitStream (Value)
open OiTerminal.Exchanges.Http
open OiTerminal.Exchanges.JsonNumber (Number)
open OiTerminal.Exchanges.Rest (decimal)
open OiTerminal.Lib.Pages

set_option autoImplicit false

section

variable (T : DecimalText)

/-- A size that may be left out, as its text. -/
def textSize (s : String) : Option Decimal := if s = "" then none else decimal T s

/-- A perpetual contract that is counted in coins. -/
def coinsMeta (exchange : Exchange) (symbol base quote : String) (priceTick qtyStep : Option Decimal)
    (active : Bool) : InstrumentMeta :=
  ⟨⟨exchange, symbol⟩, base, quote, true, .coins, none, priceTick, qtyStep, active⟩

namespace Binance

structure SymbolInfo where
  symbol : String
  contractType : String
  baseAsset : String
  quoteAsset : String
  status : String
  filters : List Value

def endsWith (s pat : String) : Bool := pat.toList.isSuffixOf s.toList

/-- A size in a filter. -/
def filterSize (f : Value) (key : String) : Option Decimal :=
  ((f.get key).bind Value.asStr).bind (decimal T)

/-- Of two filters of one type the later one counts. -/
def extractFilters (filters : List Value) : Option Decimal × Option Decimal :=
  filters.foldl (fun (tick, step) f =>
    match (f.get "filterType").bind Value.asStr with
    | some "PRICE_FILTER" => (filterSize T f "tickSize", step)
    | some "LOT_SIZE" => (tick, filterSize T f "stepSize")
    | _ => (tick, step)) (none, none)

/-- Every class of perpetuals ends in the same word, dated futures do not. -/
def toMeta (s : SymbolInfo) : Option InstrumentMeta :=
  if !endsWith s.contractType "PERPETUAL" then none
  else
    let (priceTick, qtyStep) := extractFilters T s.filters
    some (coinsMeta .binance s.symbol s.baseAsset s.quoteAsset priceTick qtyStep
      (s.status == "TRADING"))

end Binance

namespace Aster

def toMeta (s : Binance.SymbolInfo) : Option InstrumentMeta :=
  (Binance.toMeta T s).map fun m => { m with id := Rest.Aster.retag .aster m.id }

end Aster

namespace Bybit

/-- The two filters are there or not. -/
structure InstrumentRow where
  symbol : String
  contractType : String
  status : String
  baseCoin : String
  quoteCoin : String
  tickSize : Option String
  qtyStep : Option String

def toMeta (r : InstrumentRow) : Option InstrumentMeta :=
  if r.contractType ≠ "" ∧ r.contractType ≠ "LinearPerpetual" then none
  else some (coinsMeta .bybit r.symbol r.baseCoin r.quoteCoin (r.tickSize.bind (decimal T))
    (r.qtyStep.bind (decimal T)) (r.status == "Trading"))

end Bybit

namespace Okx

structure InstrumentRow where
  instId : String
  quoteCcy : String
  settleCcy : String
  ctVal : String
  tickSz : String
  lotSz : String
  state : String
  ctType : String

/-- The base is the first segment of the id. The multiplier is kept, although the open interest is
read in coins where it is given so. -/
def toMeta (r : InstrumentRow) : Option InstrumentMeta :=
  if r.ctType ≠ "" ∧ r.ctType ≠ "linear" then none
  else some
    { id := ⟨.okx, r.instId⟩
      baseAsset := String.ofList (r.instId.toList.takeWhile (· ≠ '-'))
      quoteAsset := if r.quoteCcy = "" then r.settleCcy else r.quoteCcy
      isPerpetual := true
      nativeUnit := .coins
      contractMultiplier := textSize T r.ctVal
      priceTick := textSize T r.tickSz
      qtyStep := textSize T r.lotSz
      active := r.state == "live" }

end Okx

namespace Bitget

structure ContractRow where
  symbol : String
  baseCoin : String
  quoteCoin : String
  symbolType : String
  symbolStatus : String
  minTradeNum : String

def toMeta (r : ContractRow) : Option InstrumentMeta :=
  if r.symbolType = "" ∨ r.symbolType = "perpetual" then
    some (coinsMeta .bitget r.symbol r.baseCoin r.quoteCoin none (decimal T r.minTradeNum)
      (r.symbolStatus == "normal"))
  else none

end Bitget

namespace BingX

structure ContractRow where
  symbol : String
  asset : String
  currency : String
  status : Int
  pricePrecision : Int

theorem one_fits : 1 < 2 ^ 96 := by decide

/-- The tick is a one in the last place. -/
def priceTick (precision : Int) : Option Decimal :=
  if 0 < precision then
    decimal T ("0." ++ String.ofList (List.replicate (precision - 1).toNat '0') ++ "1")
  else some (.ofNat 1 one_fits)

def toMeta (r : ContractRow) : Option InstrumentMeta :=
  some (coinsMeta .bingX r.symbol r.asset r.currency (priceTick T r.pricePrecision) none
    (r.status == 1))

end BingX

namespace KuCoin

structure ContractRow where
  symbol : String
  baseCurrency : String
  quoteCurrency : String
  contractType : String
  multiplier : Option Number
  tickSize : Option Number
  status : String
  isInverse : Bool

def toMeta (r : ContractRow) : Option InstrumentMeta :=
  if r.isInverse = false ∧ (r.contractType = "" ∨ r.contractType = "FFWCSX") then some
    { id := ⟨.kuCoin, r.symbol⟩
      baseAsset := r.baseCurrency
      quoteAsset := r.quoteCurrency
      isPerpetual := true
      nativeUnit := .contracts
      contractMultiplier := r.multiplier.bind (JsonNumber.KuCoin.numberToDecimal T)
      priceTick := r.tickSize.bind (JsonNumber.KuCoin.numberToDecimal T)
      qtyStep := none
      active := r.status == "Open" }
  else none

end KuCoin

namespace Mexc

structure DetailRow where
  symbol : String
  baseCoin : String
  quoteCoin : String
  contractSize : Option Number
  priceUnit : Option Number
  volUnit : Option Number
  state : Int

def toMeta (r : DetailRow) : Option InstrumentMeta := some
  { id := ⟨.mexc, r.symbol⟩
    baseAsset := r.baseCoin
    quoteAsset := r.quoteCoin
    isPerpetual := true
    nativeUnit := .contracts
    contractMultiplier := r.contractSize.bind (JsonNumber.Mexc.numberToDecimal T)
    priceTick := r.priceUnit.bind (JsonNumber.Mexc.numberToDecimal T)
    qtyStep := r.volUnit.bind (JsonNumber.Mexc.numberToDecimal T)
    active := r.state == 0 }

end Mexc

namespace Hyperliquid

structure UniverseEntry where
  name : String
  isDelisted : Bool

def toMeta (u : UniverseEntry) : Option InstrumentMeta :=
  some (coinsMeta .hyperliquid u.name u.name "USD" none none !u.isDelisted)

end Hyperliquid

/-! ## All venues -/

/-- A row of the listing of a venue. -/
abbrev Listed : Exchange → Type
  | .binance | .aster => Binance.SymbolInfo
  | .bybit => Bybit.InstrumentRow
  | .okx => Okx.InstrumentRow
  | .bitget => Bitget.ContractRow
  | .bingX => BingX.ContractRow
  | .kuCoin => KuCoin.ContractRow
  | .mexc => Mexc.DetailRow
  | .hyperliquid => Hyperliquid.UniverseEntry

def toMeta : (e : Exchange) → Listed e → Option InstrumentMeta
  | .binance => Binance.toMeta T
  | .aster => Aster.toMeta T
  | .bybit => Bybit.toMeta T
  | .okx => Okx.toMeta T
  | .bitget => Bitget.toMeta T
  | .bingX => BingX.toMeta T
  | .kuCoin => KuCoin.toMeta T
  | .mexc => Mexc.toMeta T
  | .hyperliquid => Hyperliquid.toMeta

/-- What discovery makes of the rows. -/
def discovered (e : Exchange) (rows : List (Listed e)) : List InstrumentMeta :=
  rows.filterMap (toMeta T e)

variable {T}

/-- Every instrument is one of the venue. -/
theorem exchange_of_toMeta {e : Exchange} {row : Listed e} {info : InstrumentMeta}
    (h : toMeta T e row = some info) : info.id.exchange = e := by
  cases e with
  | binance =>
    obtain ⟨-, hsome⟩ := Option.ite_none_left_eq_some.mp h
    rw [← Option.some.inj hsome]
    rfl
  | aster =>
    obtain ⟨_, -, rfl⟩ := Option.map_eq_some_iff.mp h
    rfl
  | bybit =>
    obtain ⟨-, hsome⟩ := Option.ite_none_left_eq_some.mp h
    rw [← Option.some.inj hsome]
    rfl
  | okx =>
    obtain ⟨-, hsome⟩ := Option.ite_none_left_eq_some.mp h
    rw [← Option.some.inj hsome]
  | bitget =>
    obtain ⟨-, hsome⟩ := Option.ite_none_right_eq_some.mp h
    rw [← Option.some.inj hsome]
    rfl
  | kuCoin =>
    obtain ⟨-, hsome⟩ := Option.ite_none_right_eq_some.mp h
    rw [← Option.some.inj hsome]
  | bingX =>
    rw [← Option.some.inj h]
    rfl
  | mexc => rw [← Option.some.inj h]
  | hyperliquid =>
    rw [← Option.some.inj h]
    rfl

theorem exchange_of_discovered {e : Exchange} {rows : List (Listed e)} {info : InstrumentMeta}
    (h : info ∈ discovered T e rows) : info.id.exchange = e := by
  obtain ⟨_, -, hsome⟩ := List.mem_filterMap.mp h
  exact exchange_of_toMeta hsome

end

/-! ## The requests -/

structure InstrumentsPage where
  list : List Bybit.InstrumentRow
  nextPageCursor : String

/-- How the body of each venue decodes. -/
structure Decoders where
  binance : String → Except String (List Binance.SymbolInfo)
  bybit : String → Except String (Envelope Int InstrumentsPage)
  okx : String → Except String (Envelope String (List Okx.InstrumentRow))
  bitget : String → Except String (Envelope String (List Bitget.ContractRow))
  bingX : String → Except String (Envelope Int (List BingX.ContractRow))
  kuCoin : String → Except String (Envelope String (List KuCoin.ContractRow))
  mexc : String → Except String (Mexc.Envelope (List Mexc.DetailRow))
  hyperliquid : String → Except String (List Hyperliquid.UniverseEntry)

section

variable (D : Decoders) (base : String)

/-- An empty cursor is none. -/
def InstrumentsPage.toPage (p : InstrumentsPage) : Page Bybit.InstrumentRow String :=
  ⟨p.list, if p.nextPageCursor = "" then none else some p.nextPageCursor⟩

/-- The cursor goes into the query as it came. -/
def pageCall (cursor : Option String) : Call (Page Bybit.InstrumentRow String) where
  exchangeCode := "bybit"
  request := .get (base ++ "/v5/market/instruments-info?category=linear&limit=1000" ++
    match cursor with
    | some cursor => "&cursor=" ++ cursor
    | none => "")
  Payload := Envelope Int InstrumentsPage
  decode := D.bybit
  accept env := (Http.Bybit.check env).map InstrumentsPage.toPage

/-- The requests of one discovery find the network in one state after the other. -/
def askBybit (transports : ℕ → Transport) : Server Bybit.InstrumentRow String AdapterError :=
  fun k cursor => (pageCall D base cursor).run (transports k)

def maxPages : ℕ := 32

def binanceList : Call (List Binance.SymbolInfo) :=
  ⟨"binance", .get (base ++ "/fapi/v1/exchangeInfo"), _, D.binance, .ok⟩

/-- The rows of the listing. -/
def listed (transports : ℕ → Transport) : (e : Exchange) → Except AdapterError (List (Listed e))
  | .binance | .aster => (binanceList D base).run (transports 0)
  | .bybit => collect (askBybit D base transports) maxPages 0 none
  | .okx => (⟨"okx", .get (base ++ "/api/v5/public/instruments?instType=SWAP"), _, D.okx,
      Http.Okx.check⟩ : Call _).run (transports 0)
  | .bitget => (⟨"bitget", .get (base ++
      "/api/v2/mix/market/contracts?productType=USDT-FUTURES"), _, D.bitget,
      Http.Bitget.check⟩ : Call _).run (transports 0)
  | .bingX => (⟨"bingx", .get (base ++ "/openApi/swap/v2/quote/contracts"), _, D.bingX,
      Http.BingX.check⟩ : Call _).run (transports 0)
  | .kuCoin => (⟨"kucoin", .get (base ++ "/api/v1/contracts/active"), _, D.kuCoin,
      Http.KuCoin.check⟩ : Call _).run (transports 0)
  | .mexc => (⟨"mexc", .get (base ++ "/api/v1/contract/detail"), _, D.mexc,
      Http.Mexc.check⟩ : Call _).run (transports 0)
  | .hyperliquid => (⟨"hyperliquid", .post (base ++ "/info") [("type", .text "metaAndAssetCtxs")], _,
      D.hyperliquid, .ok⟩ : Call _).run (transports 0)

def discoverInstruments (T : DecimalText) (transports : ℕ → Transport) (e : Exchange) :
    Except AdapterError (List InstrumentMeta) :=
  (listed D base transports e).map (discovered T e)

end

/-- What the pages of Bybit come to. -/
def metasOf (T : DecimalText) (pages : List (Page Bybit.InstrumentRow String)) :
    List InstrumentMeta :=
  discovered T .bybit (pages.flatMap Page.rows)

section

variable {α β ε : Type} {f : α → β} {x : Except ε α}

theorem map_eq_ok {b : β} : x.map f = .ok b ↔ ∃ a, x = .ok a ∧ f a = b := by
  cases x <;> simp [Except.map]

theorem map_eq_error {e : ε} : x.map f = .error e ↔ x = .error e := by
  cases x <;> simp [Except.map]

end

/-- Discovery at Bybit goes along the cursors, at most 32 pages far, and has what stands on them. It
fails with the first page that fails. Of a listing it has all, unless it takes more pages. -/
theorem discovery_follows_the_cursors (D : Decoders) (base : String) (T : DecimalText)
    (transports : ℕ → Transport) :
    let ask := askBybit D base transports
    let result := discoverInstruments D base T transports .bybit
    (∀ metas, result = .ok metas ↔ ∃ pages, Follows ask 0 none pages ∧ metas = metasOf T pages ∧
      pages.length ≤ 32 ∧ (pages.length = 32 ∨ Ended pages)) ∧
    (∀ e, result = .error e ↔ ∃ pages, Follows ask 0 none pages ∧ pages.length < 32 ∧
      ¬ Ended pages ∧ ask pages.length (cursorAfter none pages) = .error e) ∧
    ∀ pages, Lists ask 0 none pages → result = .ok (metasOf T (pages.take 32)) := by
  intro ask result
  have hresult : result = (collect ask 32 0 none).map (discovered T .bybit) := rfl
  refine ⟨fun metas => ?returns, fun e => ?fails, fun pages hlists => ?whole⟩
  case returns =>
    rw [hresult, map_eq_ok]
    constructor
    · rintro ⟨rows, hrows, rfl⟩
      obtain ⟨pages, hfollows, rfl, hbounds⟩ := collect_eq_ok.mp hrows
      exact ⟨pages, hfollows, rfl, hbounds⟩
    · rintro ⟨pages, hfollows, rfl, hbounds⟩
      exact ⟨_, collect_eq_ok.mpr ⟨pages, hfollows, rfl, hbounds⟩, rfl⟩
  case fails =>
    rw [hresult, map_eq_error, collect_eq_error]
    refine exists_congr fun pages => ?_
    rw [Nat.zero_add]
  case whole =>
    rw [hresult, hlists.collect_eq]
    rfl

end OiTerminal.Exchanges.Discovery
