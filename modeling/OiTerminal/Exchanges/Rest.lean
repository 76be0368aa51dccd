import OiTerminal.Core.Funding
import OiTerminal.Exchanges.JsonNumber
import OiTerminal.Exchanges.Okx
import OiTerminal.Lib.ByKey

/-!
# The REST calls of the adapters

What the calls make of the rows that the venues return, as they are decoded. Most adapters skip
a row that does not convert. Prices of Binance, and of Aster, which forwards to Binance, end
the call there. A text that the payload leaves out is the empty one. Some adapters drop the
settlements that are not after the cursor, others leave this to the venue.
-/
namespace OiTerminal.Exchanges.Rest

open OiTerminal.Core OiTerminal.Core.Time
open OiTerminal.Exchanges.JsonNumber (Number)
open OiTerminal.Lib.ByKey

set_option autoImplicit false

/-- `str::parse::<i64>`. -/
def parseI64 (s : String) : Option Int :=
  let digits (cs : List Char) : Option Nat :=
    if cs ≠ [] ∧ cs.all Char.isDigit then some (Nat.ofDigitChars 10 cs 0) else none
  match s.toList with
  | '-' :: rest => (digits rest).bind fun n => if n ≤ 2 ^ 63 then some (-n : Int) else none
  | '+' :: rest => (digits rest).bind fun n => if n < 2 ^ 63 then some (n : Int) else none
  | cs => (digits cs).bind fun n => if n < 2 ^ 63 then some (n : Int) else none

def parseMs (s : String) : Option Int := (parseI64 s).bind fromUnixMillis

/-- The time of the next settlement, of which zero says that there is none. -/
def nextFunding (ms : Option Int) : Option Int :=
  (ms.filter fun ms => 0 < ms).bind fromUnixMillis

def wanted (instruments : List InstrumentId) (symbol : String) : Bool :=
  (instruments.map InstrumentId.symbol).contains symbol

/-- The loop over rows of which others than the requested ones, and those that do not convert,
are skipped. -/
def collect {Row Out : Type} (symbol : Row → String) (convert : Row → Option Out)
    (instruments : List InstrumentId) (rows : List Row) : List Out :=
  (rows.filter fun r => wanted instruments (symbol r)).filterMap convert

/-- What `stream.next()` yields of the requests in flight: the instrument, and the decoded
response unless the task panicked or the request failed. -/
structure Completion (Body : Type) where
  inst : InstrumentId
  body : Option Body

section

variable (T : DecimalText)

def decimal (s : String) : Option Decimal := (T.fromText s).toOption

/-- The mark price, unless its text is empty, else the last price. -/
def tickerQuote (id : InstrumentId) (markPrice lastPrice : String) (ts : Int) :
    Option PriceQuote :=
  if markPrice ≠ "" then (decimal T markPrice).map fun p => ⟨id, p, .mark, ts⟩
  else if lastPrice ≠ "" then (decimal T lastPrice).map fun p => ⟨id, p, .last, ts⟩
  else none

/-- The mark price, unless it is absent or does not convert, else the last price. The source is
that of the price that is present. -/
def numberQuote (convert : Number → Option Decimal) (id : InstrumentId)
    (mark last : Option Number) (ts : Int) : Option PriceQuote :=
  ((mark.bind convert).or (last.bind convert)).map fun p =>
    ⟨id, p, if mark.isSome then .mark else .last, ts⟩

/-- An open interest as text, which may be missing, with a price from the same row. -/
def textOi (id : InstrumentId) (openInterest : String) (unit : UnitKind) (bucket now : Int)
    (hint : Option PriceQuote) : Option RawOi :=
  if openInterest = "" then none
  else (decimal T openInterest).map fun value => ⟨id, value, unit, bucket, now, hint⟩

/-- A rate as text, which may be missing. -/
def textFunding (id : InstrumentId) (rate : String) (next : Option Int) (bucket now : Int) :
    Option FundingBar :=
  if rate = "" then none
  else (decimal T rate).map fun rate => ⟨id, bucket, now, rate, next, some 8⟩

/-- The open interest of one request. A failure is logged. -/
def completedOi {Body : Type} (fetched : String → Body → Except ExchangeError Decimal)
    (bucket now : Int) (done : Completion Body) : Option RawOi :=
  (done.body.bind fun body => (fetched done.inst.symbol body).toOption).map fun value =>
    ⟨done.inst, value, .coins, bucket, now, none⟩

/-- A settlement without a mark price. -/
def settlement (id : InstrumentId) (rate : Option Decimal) (ts : Option Int) :
    Option FundingEvent :=
  rate.bind fun rate => ts.map fun ts => ⟨id, ts, rate, none⟩

/-- Whether an event is kept by the adapters that drop what is not after the cursor. -/
def newer (since : Option Int) (e : FundingEvent) : Bool :=
  match since with
  | some s => !decide (e.settlementTs ≤ s)
  | none => true

namespace Binance

structure OpenInterestResp where
  openInterest : String
  deriving DecidableEq

structure MarkPriceResp where
  symbol : String
  markPrice : String
  lastFundingRate : String
  nextFundingTime : Int
  time : Int
  deriving DecidableEq

def fetchOne (symbol : String) (resp : OpenInterestResp) : Except ExchangeError Decimal :=
  match T.fromText resp.openInterest with
  | .ok value => .ok value
  | .error e => .error (.schema [.text ("openInterest " ++ symbol ++ ": " ++ e)])

/-- The requests complete in any order. -/
def fetchOi (completions : List (Completion OpenInterestResp)) (bucket now : Int) : List RawOi :=
  completions.filterMap (completedOi (fetchOne T) bucket now)

/-- The text of a range error belongs to the time crate. -/
def toQuote (rangeError : String) (r : MarkPriceResp) : Except ExchangeError PriceQuote :=
  match T.fromText r.markPrice with
  | .error e => .error (.schema [.text ("mark price " ++ r.symbol ++ ": " ++ e)])
  | .ok price =>
    match fromUnixMillis r.time with
    | none => .error (.schema [.text ("ts: " ++ rangeError)])
    | some ts => .ok ⟨⟨.binance, r.symbol⟩, price, .mark, ts⟩

/-- The first requested row that does not convert ends the call. -/
def fetchPrices (rangeError : String) (rows : List MarkPriceResp)
    (instruments : List InstrumentId) : Except ExchangeError (List PriceQuote) :=
  (rows.filter fun r => wanted instruments r.symbol).mapM (toQuote T rangeError)

def toBar (bucket now : Int) (r : MarkPriceResp) : Option FundingBar :=
  textFunding T ⟨.binance, r.symbol⟩ r.lastFundingRate (nextFunding (some r.nextFundingTime))
    bucket now

def fetchFunding (rows : List MarkPriceResp) (instruments : List InstrumentId)
    (bucket now : Int) : List FundingBar :=
  collect MarkPriceResp.symbol (toBar T bucket now) instruments rows

structure HistoryRow where
  fundingRate : String
  fundingTime : Int
  markPrice : String
  deriving DecidableEq

def toEvent (instrument : InstrumentId) (r : HistoryRow) : Option FundingEvent :=
  (decimal T r.fundingRate).bind fun rate => (fromUnixMillis r.fundingTime).map fun ts =>
    ⟨instrument, ts, rate, if r.markPrice = "" then none else decimal T r.markPrice⟩

/-- The cursor is only part of the query. -/
def fetchFundingHistory (rows : List HistoryRow) (instrument : InstrumentId)
    (_since : Option Int) : List FundingEvent :=
  rows.filterMap (toEvent T instrument)

end Binance

namespace Aster

def retag (exchange : Exchange) (id : InstrumentId) : InstrumentId := { id with exchange }

def forwarded (instruments : List InstrumentId) : List InstrumentId :=
  instruments.map fun i => ⟨.binance, i.symbol⟩

/-- The completions are those of the forwarded instruments. -/
def fetchOi (completions : List (Completion Binance.OpenInterestResp)) (bucket now : Int) :
    List RawOi :=
  (Binance.fetchOi T completions bucket now).map fun r =>
    { r with
      instrument := retag .aster r.instrument
      priceHint := r.priceHint.map fun hint =>
        { hint with instrument := retag .aster hint.instrument } }

def fetchPrices (rangeError : String) (rows : List Binance.MarkPriceResp)
    (instruments : List InstrumentId) : Except ExchangeError (List PriceQuote) :=
  (Binance.fetchPrices T rangeError rows (forwarded instruments)).map
    (List.map fun q => { q with instrument := retag .aster q.instrument })

def fetchFunding (rows : List Binance.MarkPriceResp) (instruments : List InstrumentId)
    (bucket now : Int) : List FundingBar :=
  (Binance.fetchFunding T rows (forwarded instruments) bucket now).map fun b =>
    { b with instrument := retag .aster b.instrument }

def fetchFundingHistory (rows : List Binance.HistoryRow) (instrument : InstrumentId)
    (since : Option Int) : List FundingEvent :=
  (Binance.fetchFundingHistory T rows ⟨.binance, instrument.symbol⟩ since).map fun e =>
    { e with instrument := retag .aster e.instrument }

end Aster

namespace Bybit

structure TickerRow where
  symbol : String
  openInterest : String
  markPrice : String
  lastPrice : String
  fundingRate : String
  nextFundingTime : String
  deriving DecidableEq

def quote (now : Int) (r : TickerRow) : Option PriceQuote :=
  tickerQuote T ⟨.bybit, r.symbol⟩ r.markPrice r.lastPrice now

def toRaw (bucket now : Int) (r : TickerRow) : Option RawOi :=
  textOi T ⟨.bybit, r.symbol⟩ r.openInterest .coins bucket now (quote T now r)

def toBar (bucket now : Int) (r : TickerRow) : Option FundingBar :=
  textFunding T ⟨.bybit, r.symbol⟩ r.fundingRate (nextFunding (parseI64 r.nextFundingTime))
    bucket now

def fetchOi (rows : List TickerRow) (instruments : List InstrumentId) (bucket now : Int) :
    List RawOi :=
  collect TickerRow.symbol (toRaw T bucket now) instruments rows

def fetchPrices (rows : List TickerRow) (instruments : List InstrumentId) (now : Int) :
    List PriceQuote :=
  collect TickerRow.symbol (quote T now) instruments rows

def fetchFunding (rows : List TickerRow) (instruments : List InstrumentId) (bucket now : Int) :
    List FundingBar :=
  collect TickerRow.symbol (toBar T bucket now) instruments rows

structure HistoryRow where
  fundingRate : String
  fundingRateTimestamp : String
  deriving DecidableEq

def toEvent (instrument : InstrumentId) (r : HistoryRow) : Option FundingEvent :=
  settlement instrument (decimal T r.fundingRate) (parseMs r.fundingRateTimestamp)

/-- The cursor is only part of the query. -/
def fetchFundingHistory (rows : List HistoryRow) (instrument : InstrumentId)
    (_since : Option Int) : List FundingEvent :=
  rows.filterMap (toEvent T instrument)

end Bybit

namespace Bitget

structure TickerRow where
  symbol : String
  holdingAmount : String
  markPrice : String
  lastPr : String
  fundingRate : String
  nextFundingTime : String
  deriving DecidableEq

def toRaw (bucket now : Int) (r : TickerRow) : Option RawOi :=
  textOi T ⟨.bitget, r.symbol⟩ r.holdingAmount .coins bucket now
    (tickerQuote T ⟨.bitget, r.symbol⟩ r.markPrice r.lastPr now)

def toBar (bucket now : Int) (r : TickerRow) : Option FundingBar :=
  textFunding T ⟨.bitget, r.symbol⟩ r.fundingRate (nextFunding (parseI64 r.nextFundingTime))
    bucket now

def fetchOi (rows : List TickerRow) (instruments : List InstrumentId) (bucket now : Int) :
    List RawOi :=
  collect TickerRow.symbol (toRaw T bucket now) instruments rows

def fetchFunding (rows : List TickerRow) (instruments : List InstrumentId) (bucket now : Int) :
    List FundingBar :=
  collect TickerRow.symbol (toBar T bucket now) instruments rows

structure HistoryRow where
  fundingRate : String
  fundingTime : String
  deriving DecidableEq

def toEvent (instrument : InstrumentId) (r : HistoryRow) : Option FundingEvent :=
  settlement instrument (decimal T r.fundingRate) (parseMs r.fundingTime)

def fetchFundingHistory (rows : List HistoryRow) (instrument : InstrumentId)
    (since : Option Int) : List FundingEvent :=
  rows.filterMap fun r => (toEvent T instrument r).filter (newer since)

end Bitget

namespace Okx

structure TickerRow where
  instId : String
  last : String
  markPx : String
  ts : String
  deriving DecidableEq

structure FundingRateRow where
  fundingRate : String
  nextFundingTime : String
  deriving DecidableEq

/-- A row without a time is given the time at which the loop comes to it. -/
def quote (r : TickerRow × Int) : Option PriceQuote :=
  tickerQuote T ⟨.okx, r.1.instId⟩ r.1.markPx r.1.last ((parseMs r.1.ts).getD r.2)

/-- Each row stands with the clock when the loop comes to it. -/
def fetchPrices (rows : List (TickerRow × Int)) (instruments : List InstrumentId) :
    List PriceQuote :=
  collect (fun r => r.1.instId) (quote T) instruments rows

/-- The response has no row while an instrument is being listed. -/
def fetchOneFunding (symbol : String) (rows : List FundingRateRow) :
    Except ExchangeError (Option (Decimal × Option Int)) :=
  match rows with
  | [] => .ok none
  | r :: _ =>
    if r.fundingRate = "" then .ok none
    else
      match T.fromText r.fundingRate with
      | .ok rate => .ok (some (rate, parseMs r.nextFundingTime))
      | .error e => .error (.schema [.text ("okx fundingRate " ++ symbol ++ ": " ++ e)])

def completedFunding (bucket now : Int) (done : Completion (List FundingRateRow)) :
    Option FundingBar :=
  (done.body.bind fun rows => (fetchOneFunding T done.inst.symbol rows).toOption.join).map
    fun (rate, next) => ⟨done.inst, bucket, now, rate, next, some 8⟩

/-- The requests complete in any order. -/
def fetchFunding (completions : List (Completion (List FundingRateRow))) (bucket now : Int) :
    List FundingBar :=
  completions.filterMap (completedFunding T bucket now)

structure HistoryRow where
  realizedRate : String
  fundingRate : String
  fundingTime : String
  deriving DecidableEq

/-- Prefer the rate that was paid over the one that was predicted. -/
def HistoryRow.rate (r : HistoryRow) : Option Decimal :=
  if r.realizedRate ≠ "" then decimal T r.realizedRate
  else if r.fundingRate ≠ "" then decimal T r.fundingRate
  else none

def toEvent (instrument : InstrumentId) (r : HistoryRow) : Option FundingEvent :=
  settlement instrument (r.rate T) (parseMs r.fundingTime)

/-- The cursor is only part of the query. -/
def fetchFundingHistory (rows : List HistoryRow) (instrument : InstrumentId)
    (_since : Option Int) : List FundingEvent :=
  rows.filterMap (toEvent T instrument)

end Okx

namespace BingX

structure OpenInterestData where
  openInterest : String
  deriving DecidableEq

structure PremiumRow where
  symbol : String
  markPrice : String
  lastFundingRate : String
  nextFundingTime : Int
  deriving DecidableEq

def fetchOne (symbol : String) (data : OpenInterestData) : Except ExchangeError Decimal :=
  match T.fromText data.openInterest with
  | .ok value => .ok value
  | .error e => .error (.schema [.text ("bingx openInterest " ++ symbol ++ ": " ++ e)])

/-- The requests complete in any order. -/
def fetchOi (completions : List (Completion OpenInterestData)) (bucket now : Int) : List RawOi :=
  completions.filterMap (completedOi (fetchOne T) bucket now)

def quote (now : Int) (r : PremiumRow) : Option PriceQuote :=
  (decimal T r.markPrice).map fun price => ⟨⟨.bingX, r.symbol⟩, price, .mark, now⟩

def toBar (bucket now : Int) (r : PremiumRow) : Option FundingBar :=
  textFunding T ⟨.bingX, r.symbol⟩ r.lastFundingRate (nextFunding (some r.nextFundingTime))
    bucket now

def fetchPrices (rows : List PremiumRow) (instruments : List InstrumentId) (now : Int) :
    List PriceQuote :=
  collect PremiumRow.symbol (quote T now) instruments rows

def fetchFunding (rows : List PremiumRow) (instruments : List InstrumentId) (bucket now : Int) :
    List FundingBar :=
  collect PremiumRow.symbol (toBar T bucket now) instruments rows

structure HistoryRow where
  fundingRate : String
  fundingTime : Int
  deriving DecidableEq

def toEvent (instrument : InstrumentId) (r : HistoryRow) : Option FundingEvent :=
  settlement instrument (decimal T r.fundingRate) (fromUnixMillis r.fundingTime)

def fetchFundingHistory (rows : List HistoryRow) (instrument : InstrumentId)
    (since : Option Int) : List FundingEvent :=
  rows.filterMap fun r => (toEvent T instrument r).filter (newer since)

end BingX

namespace KuCoin

structure ContractRow where
  symbol : String
  openInterest : String
  markPrice : Option Number
  lastTradePrice : Option Number
  fundingFeeRate : Option Number
  nextFundingRateTime : Option Int
  deriving DecidableEq

def toRaw (bucket now : Int) (r : ContractRow) : Option RawOi :=
  textOi T ⟨.kuCoin, r.symbol⟩ r.openInterest .contracts bucket now
    (numberQuote (JsonNumber.KuCoin.numberToDecimal T) ⟨.kuCoin, r.symbol⟩ r.markPrice
      r.lastTradePrice now)

/-- The interval is the one that discovery has found, or eight hours. -/
def toBar (intervals : String → Option Nat) (bucket now : Int) (r : ContractRow) :
    Option FundingBar :=
  (r.fundingFeeRate.bind (JsonNumber.KuCoin.numberToDecimal T)).map fun rate =>
    ⟨⟨.kuCoin, r.symbol⟩, bucket, now, rate, nextFunding r.nextFundingRateTime,
      (intervals r.symbol).or (some 8)⟩

def fetchOi (rows : List ContractRow) (instruments : List InstrumentId) (bucket now : Int) :
    List RawOi :=
  collect ContractRow.symbol (toRaw T bucket now) instruments rows

def fetchFunding (intervals : String → Option Nat) (rows : List ContractRow)
    (instruments : List InstrumentId) (bucket now : Int) : List FundingBar :=
  collect ContractRow.symbol (toBar T intervals bucket now) instruments rows

structure HistoryRow where
  fundingRate : Option Number
  timepoint : Option Int
  deriving DecidableEq

def toEvent (instrument : InstrumentId) (r : HistoryRow) : Option FundingEvent :=
  settlement instrument (r.fundingRate.bind (JsonNumber.KuCoin.numberToDecimal T))
    (r.timepoint.bind fromUnixMillis)

def fetchFundingHistory (rows : List HistoryRow) (instrument : InstrumentId)
    (since : Option Int) : List FundingEvent :=
  rows.filterMap fun r => (toEvent T instrument r).filter (newer since)

end KuCoin

namespace Mexc

structure TickerRow where
  symbol : String
  holdVol : Option Number
  fairPrice : Option Number
  lastPrice : Option Number
  fundingRate : Option Number
  deriving DecidableEq

def toRaw (bucket now : Int) (r : TickerRow) : Option RawOi :=
  (r.holdVol.bind (JsonNumber.Mexc.numberToDecimal T)).map fun value =>
    ⟨⟨.mexc, r.symbol⟩, value, .contracts, bucket, now,
      numberQuote (JsonNumber.Mexc.numberToDecimal T) ⟨.mexc, r.symbol⟩ r.fairPrice r.lastPrice
        now⟩

/-- The time of the next settlement is on another endpoint. -/
def toBar (intervals : String → Option Nat) (bucket now : Int) (r : TickerRow) :
    Option FundingBar :=
  (r.fundingRate.bind (JsonNumber.Mexc.numberToDecimal T)).map fun rate =>
    ⟨⟨.mexc, r.symbol⟩, bucket, now, rate, none, (intervals r.symbol).or (some 8)⟩

def fetchOi (rows : List TickerRow) (instruments : List InstrumentId) (bucket now : Int) :
    List RawOi :=
  collect TickerRow.symbol (toRaw T bucket now) instruments rows

def fetchFunding (intervals : String → Option Nat) (rows : List TickerRow)
    (instruments : List InstrumentId) (bucket now : Int) : List FundingBar :=
  collect TickerRow.symbol (toBar T intervals bucket now) instruments rows

structure HistoryRow where
  fundingRate : Option Number
  settleTime : Option Int
  deriving DecidableEq

def toEvent (instrument : InstrumentId) (r : HistoryRow) : Option FundingEvent :=
  settlement instrument (r.fundingRate.bind (JsonNumber.Mexc.numberToDecimal T))
    (r.settleTime.bind fromUnixMillis)

def fetchFundingHistory (rows : List HistoryRow) (instrument : InstrumentId)
    (since : Option Int) : List FundingEvent :=
  rows.filterMap fun r => (toEvent T instrument r).filter (newer since)

end Mexc

namespace Hyperliquid

structure AssetCtx where
  openInterest : Option String
  markPx : Option String
  funding : Option String
  deriving DecidableEq

/-- The order in which a hash map is visited, of which nothing is promised. -/
structure MapOrder where
  order : List String → List String
  perm : ∀ keys, (order keys).Perm keys

def quote (now : Int) (entry : String × AssetCtx) : Option PriceQuote :=
  (entry.2.markPx.bind (decimal T)).map fun p => ⟨⟨.hyperliquid, entry.1⟩, p, .mark, now⟩

def toRaw (bucket now : Int) (entry : String × AssetCtx) : Option RawOi :=
  (entry.2.openInterest.bind (decimal T)).map fun value =>
    ⟨⟨.hyperliquid, entry.1⟩, value, .coins, bucket, now, quote T now entry⟩

/-- Funding is paid every hour. -/
def toBar (bucket now : Int) (entry : String × AssetCtx) : Option FundingBar :=
  (entry.2.funding.bind (decimal T)).map fun rate =>
    ⟨⟨.hyperliquid, entry.1⟩, bucket, now, rate, none, some 1⟩

/-- The universe is given by its names. The map by name keeps the last context of a name. -/
def fetchOi (O : MapOrder) (names : List String) (ctxs : List AssetCtx)
    (instruments : List InstrumentId) (bucket now : Int) : Except ExchangeError (List RawOi) :=
  if names.length ≠ ctxs.length then
    .error (.schema [.text ("universe/ctxs length mismatch: " ++ toString names.length ++
      " vs " ++ toString ctxs.length)])
  else
    let pairs := names.zip ctxs
    .ok (collect id (fun name => (lastOf Prod.fst name pairs).bind (toRaw T bucket now))
      instruments (O.order (pairs.map Prod.fst).dedup))

def fetchPrices (names : List String) (ctxs : List AssetCtx)
    (instruments : List InstrumentId) (now : Int) : List PriceQuote :=
  if names.length ≠ ctxs.length then []
  else collect Prod.fst (quote T now) instruments (names.zip ctxs)

def fetchFunding (names : List String) (ctxs : List AssetCtx)
    (instruments : List InstrumentId) (bucket now : Int) : List FundingBar :=
  if names.length ≠ ctxs.length then []
  else collect Prod.fst (toBar T bucket now) instruments (names.zip ctxs)

structure HistoryRow where
  fundingRate : String
  time : Int
  deriving DecidableEq

def toEvent (instrument : InstrumentId) (r : HistoryRow) : Option FundingEvent :=
  settlement instrument (decimal T r.fundingRate) (fromUnixMillis r.time)

def fetchFundingHistory (rows : List HistoryRow) (instrument : InstrumentId)
    (since : Option Int) : List FundingEvent :=
  rows.filterMap fun r => (toEvent T instrument r).filter (newer since)

end Hyperliquid

end

end OiTerminal.Exchanges.Rest
