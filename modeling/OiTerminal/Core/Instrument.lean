import OiTerminal.Core.Decimal

/-!
# Instruments, units and prices

The closed enumerations of the source and the records built from them. An error
message keeps the values it displays, so that its text does not depend on how an
instant is printed.
-/
namespace OiTerminal.Core

set_option autoImplicit false

inductive Exchange where
  | binance
  | bybit
  | okx
  | bingX
  | kuCoin
  | mexc
  | bitget
  | hyperliquid
  | aster
  deriving DecidableEq, Repr

namespace Exchange

/-- Stable short code, used as a column value and as a key prefix. -/
def code : Exchange → String
  | .binance => "binance"
  | .bybit => "bybit"
  | .okx => "okx"
  | .bingX => "bingx"
  | .kuCoin => "kucoin"
  | .mexc => "mexc"
  | .bitget => "bitget"
  | .hyperliquid => "hyperliquid"
  | .aster => "aster"

def all : List Exchange :=
  [.binance, .bybit, .okx, .bingX, .kuCoin, .mexc, .bitget, .hyperliquid, .aster]

def asciiLowercase (s : String) : String := String.ofList (s.toList.map Char.toLower)

def fromStr (s : String) : Except String Exchange :=
  let lower := asciiLowercase s
  match lower with
  | "binance" => .ok .binance
  | "bybit" => .ok .bybit
  | "okx" => .ok .okx
  | "bingx" => .ok .bingX
  | "kucoin" => .ok .kuCoin
  | "mexc" => .ok .mexc
  | "bitget" => .ok .bitget
  | "hyperliquid" => .ok .hyperliquid
  | "aster" => .ok .aster
  | other => .error ("unknown exchange: " ++ other)

theorem fromStr_code (e : Exchange) : fromStr e.code = .ok e := by
  cases e <;> decide

theorem code_injective {e e' : Exchange} (h : e.code = e'.code) : e = e' := by
  have hread := fromStr_code e
  rw [h, fromStr_code] at hread
  exact (Except.ok.inj hread).symm

/-- The name is read without regard to case. -/
theorem fromStr_eq_ok {s : String} {e : Exchange} :
    fromStr s = .ok e ↔ asciiLowercase s = e.code := by
  constructor
  · intro h
    unfold fromStr at h
    dsimp only at h
    split at h
    all_goals first | cases h; assumption | cases h
  · intro h
    rw [← fromStr_code e]
    unfold fromStr
    rw [h]
    cases e <;> rfl

theorem code_no_colon (e : Exchange) : ∀ c ∈ e.code.toList, c ≠ ':' := by
  have hall : e.code.toList.all (· != ':') = true := by cases e <;> rfl
  intro c hc
  simpa using List.all_eq_true.mp hall c hc

/-- A string that reads as an exchange has no colon either. -/
theorem no_colon_of_fromStr {s : String} {e : Exchange} (h : fromStr s = .ok e) :
    ∀ c ∈ s.toList, c ≠ ':' := by
  intro c hc hcolon
  subst hcolon
  have hlower : (asciiLowercase s).toList = s.toList.map Char.toLower := String.toList_ofList
  have hmem : Char.toLower ':' ∈ e.code.toList := by
    rw [← fromStr_eq_ok.mp h, hlower]
    exact List.mem_map_of_mem hc
  exact e.code_no_colon _ hmem (by decide)

end Exchange

/-- The unit in which an exchange reports open interest. -/
inductive UnitKind where
  | coins
  | usd
  | contracts
  deriving DecidableEq, Repr

@[ext]
structure InstrumentId where
  exchange : Exchange
  symbol : String
  deriving DecidableEq, Repr

/-- Canonical key form, `"binance:BTCUSDT"`. -/
def InstrumentId.key (id : InstrumentId) : String := id.exchange.code ++ ":" ++ id.symbol

theorem takeWhile_key (e : Exchange) (rest : List Char) :
    (e.code.toList ++ ':' :: rest).takeWhile (· ≠ ':') = e.code.toList := by
  rw [List.takeWhile_append_of_pos fun c hc => decide_eq_true (e.code_no_colon c hc)]
  simp

/-- The first colon ends the exchange, whatever the symbol is. -/
theorem InstrumentId.key_injective {id id' : InstrumentId} (h : id.key = id'.key) : id = id' := by
  have hlist : id.exchange.code.toList ++ ':' :: id.symbol.toList =
      id'.exchange.code.toList ++ ':' :: id'.symbol.toList := by
    have := congrArg String.toList h
    simpa [InstrumentId.key, String.toList_append] using this
  have hcode : id.exchange.code.toList = id'.exchange.code.toList := by
    rw [← takeWhile_key id.exchange id.symbol.toList, hlist, takeWhile_key]
  have hexchange : id.exchange = id'.exchange :=
    Exchange.code_injective (String.toList_injective hcode)
  have hsymbol : id.symbol = id'.symbol := by
    rw [hcode] at hlist
    exact String.toList_injective (List.cons.inj (List.append_cancel_left hlist)).2
  exact InstrumentId.ext hexchange hsymbol

structure InstrumentMeta where
  id : InstrumentId
  baseAsset : String
  quoteAsset : String
  isPerpetual : Bool
  nativeUnit : UnitKind
  contractMultiplier : Option Decimal
  priceTick : Option Decimal
  qtyStep : Option Decimal
  active : Bool
  deriving DecidableEq, Repr

inductive PriceSource where
  | mark
  | last
  | index
  | mid
  deriving DecidableEq, Repr

structure PriceQuote where
  instrument : InstrumentId
  price : Decimal
  source : PriceSource
  ts : Int
  deriving DecidableEq, Repr

/-- One fragment of a formatted message: literal text or a displayed value. -/
inductive Fragment where
  | text (s : String)
  | instrument (id : InstrumentId)
  | timestamp (ts : Int)
  deriving DecidableEq, Repr

/-- The constructor that the folding and enrichment paths return. -/
inductive ExchangeError where
  | schema (message : List Fragment)
  deriving DecidableEq, Repr

end OiTerminal.Core
