import OiTerminal.Core.DecimalText
import OiTerminal.Core.Funding
import OiTerminal.Core.Snapshot

/-!
# Wire rows of the durable repository

A row keeps its timestamps as milliseconds and its decimals as text. Reading a written row
back gives the value with its timestamps cut to milliseconds.
-/
namespace OiTerminal.Storage.ClickHouse

open OiTerminal.Core OiTerminal.Core.Time

set_option autoImplicit false

/-- The constructor that the repository returns. -/
inductive CoreError where
  | storage (message : String)
  deriving DecidableEq, Repr

/-- A row of `oi.oi_minute`. -/
structure OiRow where
  exchange : String
  symbol : String
  bucketTs : Int
  firstRecvTs : Int
  lastRecvTs : Int
  samples : Nat
  nativeUnit : String
  nativeOpen : String
  nativeHigh : String
  nativeLow : String
  nativeClose : String
  oiCoinsOpen : Option String
  oiCoinsHigh : Option String
  oiCoinsLow : Option String
  oiCoinsClose : Option String
  oiUsdOpen : Option String
  oiUsdHigh : Option String
  oiUsdLow : Option String
  oiUsdClose : Option String
  priceUsedClose : Option String
  deriving DecidableEq, Repr

/-- A row of `oi.funding_minute`. -/
structure FundingRow where
  exchange : String
  symbol : String
  bucketTs : Int
  recvTs : Int
  rate : String
  nextFundingTs : Option Int
  intervalHours : Option Nat
  deriving DecidableEq, Repr

/-- A row of `oi.funding_event`. -/
structure FundingEventRow where
  exchange : String
  symbol : String
  settlementTs : Int
  rate : String
  markPrice : Option String
  deriving DecidableEq, Repr

def unitCode : UnitKind → String
  | .coins => "coins"
  | .contracts => "contracts"
  | .usd => "usd"

/-- An unknown unit in storage is treated as coins. -/
def unitOfCode : String → UnitKind
  | "coins" => .coins
  | "contracts" => .contracts
  | "usd" => .usd
  | _ => .coins

@[simp] theorem unitOfCode_unitCode (u : UnitKind) : unitOfCode (unitCode u) = u := by
  cases u <;> rfl

def parseExchange (s : String) : Except CoreError Exchange :=
  (Exchange.fromStr s).mapError .storage

@[simp] theorem parseExchange_code (e : Exchange) : parseExchange e.code = .ok e := by
  rw [parseExchange, Exchange.fromStr_code]
  rfl

/-- A stored instant, cut to milliseconds. -/
def cutMillis (ts : Int) : Int := ofMillis (unixMillis ts)

@[simp] theorem unixMillis_cutMillis (ts : Int) : unixMillis (cutMillis ts) = unixMillis ts :=
  unixMillis_ofMillis _

section Decimals

variable (T : DecimalText)

def parseRequired (name s : String) : Except CoreError Decimal :=
  (T.fromText s).mapError fun e => .storage (name ++ ": " ++ e)

def parseOptional (name : String) (o : Option String) : Except CoreError (Option Decimal) :=
  o.mapM (parseRequired T name)

@[simp] theorem parseRequired_toText (name : String) (d : Decimal) :
    parseRequired T name (T.toText d) = .ok d := by
  rw [parseRequired, T.fromText_toText]
  rfl

@[simp] theorem parseOptional_toText (name : String) (o : Option Decimal) :
    parseOptional T name (o.map T.toText) = .ok o := by
  cases o with
  | none => rfl
  | some d =>
    show (parseRequired T name (T.toText d)).map some = .ok (some d)
    rw [parseRequired_toText]
    rfl

/-- The row that `upsert_snapshots` writes for a bar. -/
def snapToRow (s : OiSnapshot) : OiRow where
  exchange := s.instrument.exchange.code
  symbol := s.instrument.symbol
  bucketTs := unixMillis s.bucketTs
  firstRecvTs := unixMillis s.firstRecvTs
  lastRecvTs := unixMillis s.lastRecvTs
  samples := s.samples
  nativeUnit := unitCode s.nativeUnit
  nativeOpen := T.toText s.nativeOpen
  nativeHigh := T.toText s.nativeHigh
  nativeLow := T.toText s.nativeLow
  nativeClose := T.toText s.nativeClose
  oiCoinsOpen := s.oiCoinsOpen.map T.toText
  oiCoinsHigh := s.oiCoinsHigh.map T.toText
  oiCoinsLow := s.oiCoinsLow.map T.toText
  oiCoinsClose := s.oiCoinsClose.map T.toText
  oiUsdOpen := s.oiUsdOpen.map T.toText
  oiUsdHigh := s.oiUsdHigh.map T.toText
  oiUsdLow := s.oiUsdLow.map T.toText
  oiUsdClose := s.oiUsdClose.map T.toText
  priceUsedClose := s.priceUsedClose.map T.toText

def rowToSnap (r : OiRow) : Except CoreError OiSnapshot := do
  let exchange ← parseExchange r.exchange
  let nativeOpen ← parseRequired T "native_open" r.nativeOpen
  let nativeHigh ← parseRequired T "native_high" r.nativeHigh
  let nativeLow ← parseRequired T "native_low" r.nativeLow
  let nativeClose ← parseRequired T "native_close" r.nativeClose
  let oiCoinsOpen ← parseOptional T "decimal" r.oiCoinsOpen
  let oiCoinsHigh ← parseOptional T "decimal" r.oiCoinsHigh
  let oiCoinsLow ← parseOptional T "decimal" r.oiCoinsLow
  let oiCoinsClose ← parseOptional T "decimal" r.oiCoinsClose
  let oiUsdOpen ← parseOptional T "decimal" r.oiUsdOpen
  let oiUsdHigh ← parseOptional T "decimal" r.oiUsdHigh
  let oiUsdLow ← parseOptional T "decimal" r.oiUsdLow
  let oiUsdClose ← parseOptional T "decimal" r.oiUsdClose
  let priceUsedClose ← parseOptional T "decimal" r.priceUsedClose
  return {
    instrument := ⟨exchange, r.symbol⟩
    bucketTs := ofMillis r.bucketTs
    firstRecvTs := ofMillis r.firstRecvTs
    lastRecvTs := ofMillis r.lastRecvTs
    samples := r.samples
    nativeUnit := unitOfCode r.nativeUnit
    nativeOpen, nativeHigh, nativeLow, nativeClose
    oiCoinsOpen, oiCoinsHigh, oiCoinsLow, oiCoinsClose
    oiUsdOpen, oiUsdHigh, oiUsdLow, oiUsdClose
    priceUsedClose }

/-- The row that `upsert_funding` writes for a bar. -/
def fundingToRow (b : FundingBar) : FundingRow where
  exchange := b.instrument.exchange.code
  symbol := b.instrument.symbol
  bucketTs := unixMillis b.bucketTs
  recvTs := unixMillis b.recvTs
  rate := T.toText b.rate
  nextFundingTs := b.nextFundingTs.map unixMillis
  intervalHours := b.intervalHours

def rowToFunding (r : FundingRow) : Except CoreError FundingBar := do
  let exchange ← parseExchange r.exchange
  let rate ← parseRequired T "funding rate" r.rate
  return {
    instrument := ⟨exchange, r.symbol⟩
    bucketTs := ofMillis r.bucketTs
    recvTs := ofMillis r.recvTs
    rate
    nextFundingTs := r.nextFundingTs.map ofMillis
    intervalHours := r.intervalHours }

/-- The row that `upsert_funding_events` writes for an event. -/
def eventToRow (e : FundingEvent) : FundingEventRow where
  exchange := e.instrument.exchange.code
  symbol := e.instrument.symbol
  settlementTs := unixMillis e.settlementTs
  rate := T.toText e.rate
  markPrice := e.markPrice.map T.toText

def rowToEvent (r : FundingEventRow) : Except CoreError FundingEvent := do
  let exchange ← parseExchange r.exchange
  let rate ← parseRequired T "event rate" r.rate
  let markPrice ← parseOptional T "event mark_price" r.markPrice
  return {
    instrument := ⟨exchange, r.symbol⟩
    settlementTs := ofMillis r.settlementTs
    rate, markPrice }

/-- What storage keeps of a bar. -/
def cutSnap (s : OiSnapshot) : OiSnapshot :=
  { s with
    bucketTs := cutMillis s.bucketTs
    firstRecvTs := cutMillis s.firstRecvTs
    lastRecvTs := cutMillis s.lastRecvTs }

/-- What storage keeps of a funding sample. -/
def cutFunding (b : FundingBar) : FundingBar :=
  { b with
    bucketTs := cutMillis b.bucketTs
    recvTs := cutMillis b.recvTs
    nextFundingTs := b.nextFundingTs.map cutMillis }

/-- What storage keeps of a settlement event. -/
def cutEvent (e : FundingEvent) : FundingEvent :=
  { e with settlementTs := cutMillis e.settlementTs }

theorem rowToSnap_snapToRow (s : OiSnapshot) : rowToSnap T (snapToRow T s) = .ok (cutSnap s) := by
  simp only [rowToSnap, snapToRow, parseExchange_code, parseRequired_toText,
    parseOptional_toText, unitOfCode_unitCode]
  rfl

theorem rowToFunding_fundingToRow (b : FundingBar) :
    rowToFunding T (fundingToRow T b) = .ok (cutFunding b) := by
  have hnext : (b.nextFundingTs.map unixMillis).map ofMillis =
      b.nextFundingTs.map cutMillis := Option.map_map ..
  simp only [rowToFunding, fundingToRow, parseExchange_code, parseRequired_toText, hnext]
  rfl

theorem rowToEvent_eventToRow (e : FundingEvent) :
    rowToEvent T (eventToRow T e) = .ok (cutEvent e) := by
  simp only [rowToEvent, eventToRow, parseExchange_code, parseRequired_toText,
    parseOptional_toText]
  rfl

/-- Writing a value and reading its row back changes its timestamps, to the millisecond, and
nothing else. -/
theorem rows_lossless :
    (∀ s : OiSnapshot, rowToSnap T (snapToRow T s) = .ok
      { s with
        bucketTs := cutMillis s.bucketTs
        firstRecvTs := cutMillis s.firstRecvTs
        lastRecvTs := cutMillis s.lastRecvTs }) ∧
    (∀ b : FundingBar, rowToFunding T (fundingToRow T b) = .ok
      { b with
        bucketTs := cutMillis b.bucketTs
        recvTs := cutMillis b.recvTs
        nextFundingTs := b.nextFundingTs.map cutMillis }) ∧
    ∀ e : FundingEvent, rowToEvent T (eventToRow T e) = .ok
      { e with settlementTs := cutMillis e.settlementTs } := by
  refine ⟨?snap, ?funding, ?event⟩
  case snap => exact rowToSnap_snapToRow T
  case funding => exact rowToFunding_fundingToRow T
  case event => exact rowToEvent_eventToRow T

end Decimals

end OiTerminal.Storage.ClickHouse
