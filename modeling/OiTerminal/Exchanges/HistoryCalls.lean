import OiTerminal.Exchanges.Http

/-!
# The requests for past settlements

Each adapter asks its venue for the settlements of one symbol. The cursor of the sweep is part of
the query, or the rows that are not after it are dropped later. Some adapters read the clock for the
end of the window.
-/
namespace OiTerminal.Exchanges.HistoryCalls

open OiTerminal.Core OiTerminal.Core.Time
open OiTerminal.Collector.SweepPool (AdapterError)
open OiTerminal.Exchanges OiTerminal.Exchanges.Http

set_option autoImplicit false

/-- How the bodies decode, the parameters of a venue, and the clock of its adapter. -/
structure Setting where
  text : DecimalText
  base : String
  now : Int

/-- The cursor as a parameter of the query, in milliseconds. -/
def sinceParam (name : String) (since : Option Int) : String :=
  match since with
  | some s => "&" ++ name ++ "=" ++ toString (unixMillis s)
  | none => ""

/-- Where a window without a cursor begins. -/
def weekAgo (now : Int) : Int := now - minutes (7 * 24 * 60)

/-- A payload that is an envelope around the rows. -/
def unwrap {Env Rows Out : Type} (check : Env → Except AdapterError Rows) (convert : Rows → Out)
    (env : Env) : Except AdapterError Out :=
  (check env).map convert

section

variable (c : Setting) (instrument : InstrumentId) (since : Option Int)

namespace Binance

def historyRequest : Request :=
  .get (c.base ++ "/fapi/v1/fundingRate?symbol=" ++ instrument.symbol ++ "&limit=1000" ++
    sinceParam "startTime" since)

def historyCall (decode : String → Except String (List Rest.Binance.HistoryRow)) :
    Call (List FundingEvent) :=
  ⟨"binance", historyRequest c instrument since, _, decode,
    fun rows => .ok (Rest.Binance.fetchFundingHistory c.text rows instrument since)⟩

end Binance

namespace Aster

/-- The inner adapter asks, under its own code and at the other address. -/
def historyCall (decode : String → Except String (List Rest.Binance.HistoryRow)) :
    Call (List FundingEvent) :=
  ⟨"binance", Binance.historyRequest c ⟨.binance, instrument.symbol⟩ since, _, decode,
    fun rows => .ok (Rest.Aster.fetchFundingHistory c.text rows instrument since)⟩

end Aster

namespace Bybit

/-- A lone start is refused by the venue, so the end goes with it. -/
def historyRequest : Request :=
  .get (c.base ++ "/v5/market/funding/history?category=linear&symbol=" ++ instrument.symbol ++
    "&limit=200" ++
    match since with
    | some s => "&startTime=" ++ toString (unixMillis s) ++ "&endTime=" ++
        toString (unixMillis c.now)
    | none => "")

def historyCall (decode : String → Except String (Envelope Int (List Rest.Bybit.HistoryRow))) :
    Call (List FundingEvent) :=
  ⟨"bybit", historyRequest c instrument since, _, decode, unwrap Bybit.check
    fun rows => Rest.Bybit.fetchFundingHistory c.text rows instrument since⟩

end Bybit

namespace Okx

def historyRequest : Request :=
  .get (c.base ++ "/api/v5/public/funding-rate-history?instId=" ++ instrument.symbol ++
    "&limit=100" ++ sinceParam "before" since)

def historyCall (decode : String → Except String (Envelope String (List Rest.Okx.HistoryRow))) :
    Call (List FundingEvent) :=
  ⟨"okx", historyRequest c instrument since, _, decode, unwrap Okx.check
    fun rows => Rest.Okx.fetchFundingHistory c.text rows instrument since⟩

end Okx

namespace BingX

def historyRequest : Request :=
  .get (c.base ++ "/openApi/swap/v2/quote/fundingRate?symbol=" ++ instrument.symbol ++
    "&limit=1000" ++ sinceParam "startTime" since)

def historyCall (decode : String → Except String (Envelope Int (List Rest.BingX.HistoryRow))) :
    Call (List FundingEvent) :=
  ⟨"bingx", historyRequest c instrument since, _, decode, unwrap BingX.check
    fun rows => Rest.BingX.fetchFundingHistory c.text rows instrument since⟩

end BingX

namespace KuCoin

def historyRequest : Request :=
  .get (c.base ++ "/api/v1/contract/funding-rates?symbol=" ++ instrument.symbol ++ "&from=" ++
    toString (unixMillis (since.getD (weekAgo c.now))) ++ "&to=" ++ toString (unixMillis c.now))

def historyCall (decode : String → Except String (Envelope String (List Rest.KuCoin.HistoryRow))) :
    Call (List FundingEvent) :=
  ⟨"kucoin", historyRequest c instrument since, _, decode, unwrap KuCoin.check
    fun rows => Rest.KuCoin.fetchFundingHistory c.text rows instrument since⟩

end KuCoin

namespace Mexc

/-- One page, whatever the cursor is. -/
def historyRequest : Request :=
  .get (c.base ++ "/api/v1/contract/funding_rate/history?symbol=" ++ instrument.symbol ++
    "&page_num=1&page_size=100")

def historyCall (decode : String → Except String (Mexc.Envelope (List Rest.Mexc.HistoryRow))) :
    Call (List FundingEvent) :=
  ⟨"mexc", historyRequest c instrument, _, decode, unwrap Mexc.check
    fun rows => Rest.Mexc.fetchFundingHistory c.text rows instrument since⟩

end Mexc

namespace Bitget

/-- The newest page, whatever the cursor is. -/
def historyRequest : Request :=
  .get (c.base ++ "/api/v2/mix/market/history-fund-rate?symbol=" ++ instrument.symbol ++
    "&productType=USDT-FUTURES&pageSize=100")

def historyCall (decode : String → Except String (Envelope String (List Rest.Bitget.HistoryRow))) :
    Call (List FundingEvent) :=
  ⟨"bitget", historyRequest c instrument, _, decode, unwrap Bitget.check
    fun rows => Rest.Bitget.fetchFundingHistory c.text rows instrument since⟩

end Bitget

namespace Hyperliquid

def historyRequest : Request :=
  .post (c.base ++ "/info") [("type", .text "fundingHistory"), ("coin", .text instrument.symbol),
    ("startTime", .int (unixMillis (since.getD (weekAgo c.now))))]

def historyCall (decode : String → Except String (List Rest.Hyperliquid.HistoryRow)) :
    Call (List FundingEvent) :=
  ⟨"hyperliquid", historyRequest c instrument since, _, decode,
    fun rows => .ok (Rest.Hyperliquid.fetchFundingHistory c.text rows instrument since)⟩

end Hyperliquid

end

/-- How the body of each venue decodes. -/
structure Decoders where
  binance : String → Except String (List Rest.Binance.HistoryRow)
  bybit : String → Except String (Envelope Int (List Rest.Bybit.HistoryRow))
  okx : String → Except String (Envelope String (List Rest.Okx.HistoryRow))
  bingX : String → Except String (Envelope Int (List Rest.BingX.HistoryRow))
  kuCoin : String → Except String (Envelope String (List Rest.KuCoin.HistoryRow))
  mexc : String → Except String (Mexc.Envelope (List Rest.Mexc.HistoryRow))
  bitget : String → Except String (Envelope String (List Rest.Bitget.HistoryRow))
  hyperliquid : String → Except String (List Rest.Hyperliquid.HistoryRow)

def historyCall (D : Decoders) (c : Setting) (instrument : InstrumentId) (since : Option Int) :
    Exchange → Call (List FundingEvent)
  | .binance => Binance.historyCall c instrument since D.binance
  | .aster => Aster.historyCall c instrument since D.binance
  | .bybit => Bybit.historyCall c instrument since D.bybit
  | .okx => Okx.historyCall c instrument since D.okx
  | .bingX => BingX.historyCall c instrument since D.bingX
  | .kuCoin => KuCoin.historyCall c instrument since D.kuCoin
  | .mexc => Mexc.historyCall c instrument since D.mexc
  | .bitget => Bitget.historyCall c instrument since D.bitget
  | .hyperliquid => Hyperliquid.historyCall c instrument since D.hyperliquid

theorem endedAuth_unwrap {Env Rows Out : Type} {check : Env → Except AdapterError Rows}
    (hcheck : ∀ env, endedAuth (check env) = false) (convert : Rows → Out) (env : Env) :
    endedAuth (unwrap check convert env) = false := by
  have h := hcheck env
  unfold unwrap
  cases hresult : check env with
  | ok rows => rfl
  | error e =>
    rw [hresult] at h
    exact h

/-- No adapter calls anything else than the answer of the client a failure of authorisation. -/
theorem endedAuth_historyCall (D : Decoders) (c : Setting) (instrument : InstrumentId)
    (since : Option Int) (e : Exchange) (transport : Transport) :
    endedAuth ((historyCall D c instrument since e).run transport) =
      Forbidden transport (historyCall D c instrument since e).request := by
  apply Call.endedAuth_run
  cases e with
  | binance => exact fun _ => rfl
  | aster => exact fun _ => rfl
  | hyperliquid => exact fun _ => rfl
  | bybit => exact endedAuth_unwrap (fun _ => endedAuth_verdict _ _ _ _) _
  | okx => exact endedAuth_unwrap (fun _ => endedAuth_verdict _ _ _ _) _
  | bingX => exact endedAuth_unwrap (fun _ => endedAuth_verdict _ _ _ _) _
  | kuCoin => exact endedAuth_unwrap (fun _ => endedAuth_verdict _ _ _ _) _
  | mexc => exact endedAuth_unwrap (fun _ => endedAuth_verdict _ _ _ _) _
  | bitget => exact endedAuth_unwrap (fun _ => endedAuth_verdict _ _ _ _) _

end OiTerminal.Exchanges.HistoryCalls
