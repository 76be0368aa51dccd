import OiTerminal.Core.Rfc3339
import OiTerminal.Storage.ClickHouse

/-!
# Range requests over REST

The three series share their handlers up to the shape of a row. Rows are answered as an
array of objects or, for two of the series, as columns. Printing and reading RFC 3339
instants belong to another crate and are parameters.
-/
namespace OiTerminal.Api.Range

open OiTerminal.Core OiTerminal.Core.Time
open OiTerminal.Storage.ClickHouse (CoreError unitCode)

set_option autoImplicit false

/-- `format` and `parse` of the RFC 3339 well-known format. -/
structure Rfc3339 where
  format : Int → String
  parse : String → Except String Int

/-- Prints every instant and reads the given ones, for runs on fixed inputs. -/
def Rfc3339.reading (known : List Int) : Rfc3339 where
  format := rfc3339
  parse s :=
    match known.find? fun ts => rfc3339 ts = s with
    | some ts => .ok ts
    | none => .error "the input is not recognised"

structure BarDto where
  exchange : String
  symbol : String
  bucketTs : String
  firstRecvTs : String
  lastRecvTs : String
  samples : Nat
  nativeUnit : String
  nativeOpen : String
  nativeHigh : String
  nativeLow : String
  nativeClose : String
  oiCoinsOpen : Option String
  oiCoinsHigh : Option String
  oiCoinsLow : Option String
  oiCoinsClose : Option String
  oiUsdOpen : Option String
  oiUsdHigh : Option String
  oiUsdLow : Option String
  oiUsdClose : Option String
  priceUsedClose : Option String
  deriving DecidableEq

/-- A column that no snapshot has a value for is left out. -/
structure OiColumns where
  fmt : String
  n : Nat
  ts : List Int
  nativeOpen : List String
  nativeHigh : List String
  nativeLow : List String
  nativeClose : List String
  oiCoinsOpen : Option (List (Option String))
  oiCoinsHigh : Option (List (Option String))
  oiCoinsLow : Option (List (Option String))
  oiCoinsClose : Option (List (Option String))
  oiUsdOpen : Option (List (Option String))
  oiUsdHigh : Option (List (Option String))
  oiUsdLow : Option (List (Option String))
  oiUsdClose : Option (List (Option String))
  deriving DecidableEq

structure FundingDto where
  exchange : String
  symbol : String
  bucketTs : String
  recvTs : String
  rate : String
  nextFundingTs : Option String
  intervalHours : Option Nat
  deriving DecidableEq

structure FundingColumns where
  fmt : String
  n : Nat
  ts : List Int
  rate : List String
  nextFundingTs : Option (List (Option Int))
  intervalHours : Option (List (Option Nat))
  deriving DecidableEq

structure FundingEventDto where
  exchange : String
  symbol : String
  settlementTs : String
  rate : String
  markPrice : Option String
  deriving DecidableEq

section

variable (D : DecimalText) (R : Rfc3339)

def BarDto.ofSnapshot (s : OiSnapshot) : BarDto where
  exchange := s.instrument.exchange.code
  symbol := s.instrument.symbol
  bucketTs := R.format s.bucketTs
  firstRecvTs := R.format s.firstRecvTs
  lastRecvTs := R.format s.lastRecvTs
  samples := s.samples
  nativeUnit := unitCode s.nativeUnit
  nativeOpen := D.toText s.nativeOpen
  nativeHigh := D.toText s.nativeHigh
  nativeLow := D.toText s.nativeLow
  nativeClose := D.toText s.nativeClose
  oiCoinsOpen := s.oiCoinsOpen.map D.toText
  oiCoinsHigh := s.oiCoinsHigh.map D.toText
  oiCoinsLow := s.oiCoinsLow.map D.toText
  oiCoinsClose := s.oiCoinsClose.map D.toText
  oiUsdOpen := s.oiUsdOpen.map D.toText
  oiUsdHigh := s.oiUsdHigh.map D.toText
  oiUsdLow := s.oiUsdLow.map D.toText
  oiUsdClose := s.oiUsdClose.map D.toText
  priceUsedClose := s.priceUsedClose.map D.toText

def hasCoins (s : OiSnapshot) : Bool :=
  s.oiCoinsOpen.isSome || s.oiCoinsHigh.isSome || s.oiCoinsLow.isSome || s.oiCoinsClose.isSome

def hasUsd (s : OiSnapshot) : Bool :=
  s.oiUsdOpen.isSome || s.oiUsdHigh.isSome || s.oiUsdLow.isSome || s.oiUsdClose.isSome

/-- A column that is emitted if the flag is set. -/
def optionalColumn {α β : Type} (emitted : Bool) (f : α → β) (rows : List α) : Option (List β) :=
  if emitted then some (rows.map f) else none

def OiColumns.fromSnapshots (snaps : List OiSnapshot) : OiColumns :=
  let hasCo := snaps.any hasCoins
  let hasUo := snaps.any hasUsd
  let column (emitted : Bool) (f : OiSnapshot → Option Decimal) :=
    optionalColumn emitted (fun s => (f s).map D.toText) snaps
  { fmt := "col"
    n := snaps.length
    ts := snaps.map fun s => unixMillis s.bucketTs
    nativeOpen := snaps.map fun s => D.toText s.nativeOpen
    nativeHigh := snaps.map fun s => D.toText s.nativeHigh
    nativeLow := snaps.map fun s => D.toText s.nativeLow
    nativeClose := snaps.map fun s => D.toText s.nativeClose
    oiCoinsOpen := column hasCo OiSnapshot.oiCoinsOpen
    oiCoinsHigh := column hasCo OiSnapshot.oiCoinsHigh
    oiCoinsLow := column hasCo OiSnapshot.oiCoinsLow
    oiCoinsClose := column hasCo OiSnapshot.oiCoinsClose
    oiUsdOpen := column hasUo OiSnapshot.oiUsdOpen
    oiUsdHigh := column hasUo OiSnapshot.oiUsdHigh
    oiUsdLow := column hasUo OiSnapshot.oiUsdLow
    oiUsdClose := column hasUo OiSnapshot.oiUsdClose }

/-- The derived default. -/
def OiColumns.empty : OiColumns where
  fmt := ""
  n := 0
  ts := []
  nativeOpen := []
  nativeHigh := []
  nativeLow := []
  nativeClose := []
  oiCoinsOpen := none
  oiCoinsHigh := none
  oiCoinsLow := none
  oiCoinsClose := none
  oiUsdOpen := none
  oiUsdHigh := none
  oiUsdLow := none
  oiUsdClose := none

def FundingDto.ofBar (b : FundingBar) : FundingDto where
  exchange := b.instrument.exchange.code
  symbol := b.instrument.symbol
  bucketTs := R.format b.bucketTs
  recvTs := R.format b.recvTs
  rate := D.toText b.rate
  nextFundingTs := b.nextFundingTs.map R.format
  intervalHours := b.intervalHours

def FundingColumns.fromBars (bars : List FundingBar) : FundingColumns where
  fmt := "col"
  n := bars.length
  ts := bars.map fun b => unixMillis b.bucketTs
  rate := bars.map fun b => D.toText b.rate
  nextFundingTs := optionalColumn (bars.any fun b => b.nextFundingTs.isSome)
    (fun b => b.nextFundingTs.map unixMillis) bars
  intervalHours := optionalColumn (bars.any fun b => b.intervalHours.isSome)
    FundingBar.intervalHours bars

def FundingColumns.empty : FundingColumns := ⟨"", 0, [], [], none, none⟩

def FundingEventDto.ofEvent (e : FundingEvent) : FundingEventDto where
  exchange := e.instrument.exchange.code
  symbol := e.instrument.symbol
  settlementTs := R.format e.settlementTs
  rate := D.toText e.rate
  markPrice := e.markPrice.map D.toText

end

/-- How a series is written: its objects, and its columns with their default if it has
a columnar format. -/
structure Series (Row Dto Columns : Type) where
  dto : Row → Dto
  columns : Option ((List Row → Columns) × Columns)

inductive Body (Dto Columns : Type) where
  | rows (bars : List Dto)
  | columns (columns : Columns)
  deriving DecidableEq

inductive Response (Dto Columns : Type) where
  | ok (body : Body Dto Columns)
  | badRequest (message : String)
  | internal (message : String)

def CoreError.text : CoreError → String
  | .storage message => "storage error: " ++ message

def parseId (ex sym : String) : Except String InstrumentId := do
  let ex ← Exchange.fromStr ex
  return ⟨ex, sym⟩

def parseRfc3339 (R : Rfc3339) (s : String) : Except String Int :=
  (R.parse s).mapError fun e => "rfc3339: " ++ e

section

variable {Row Dto Columns : Type}

/-- The columnar format of the series, when the request asks for it. -/
def Series.columnar (S : Series Row Dto Columns) (fmt : Option String) :
    Option ((List Row → Columns) × Columns) :=
  if fmt = some "col" then S.columns else none

def Series.body (S : Series Row Dto Columns) (fmt : Option String) (rows : List Row) :
    Body Dto Columns :=
  match S.columnar fmt with
  | some (columns, _) => .columns (columns rows)
  | none => .rows (rows.map S.dto)

structure RangeQuery where
  fromTs : String
  toTs : String
  fmt : Option String

/-- The handler of a single range, given what the repository answers. -/
def rangeOf (S : Series Row Dto Columns) (R : Rfc3339)
    (ask : InstrumentId → Int → Int → Except CoreError (List Row)) (ex sym : String)
    (q : RangeQuery) : Response Dto Columns :=
  match parseId ex sym with
  | .error e => .badRequest e
  | .ok id =>
    match parseRfc3339 R q.fromTs with
    | .error e => .badRequest e
    | .ok fromTs =>
      match parseRfc3339 R q.toTs with
      | .error e => .badRequest e
      | .ok toTs =>
        match ask id fromTs toTs with
        | .ok rows => .ok (S.body q.fmt rows)
        | .error e => .internal (CoreError.text e)

end

def oiSeries (D : DecimalText) (R : Rfc3339) : Series OiSnapshot BarDto OiColumns where
  dto := .ofSnapshot D R
  columns := some (.fromSnapshots D, .empty)

def fundingSeries (D : DecimalText) (R : Rfc3339) :
    Series FundingBar FundingDto FundingColumns where
  dto := .ofBar D R
  columns := some (.fromBars D, .empty)

/-- Settlement events are sparse and have no columnar format. -/
def fundingEventSeries (D : DecimalText) (R : Rfc3339) :
    Series FundingEvent FundingEventDto Empty where
  dto := .ofEvent D R
  columns := none

/-! The handlers. `ask` is the answer of the repository. -/

def range (D : DecimalText) (R : Rfc3339)
    (ask : InstrumentId → Int → Int → Except CoreError (List OiSnapshot)) (ex sym : String)
    (q : RangeQuery) : Response BarDto OiColumns := rangeOf (oiSeries D R) R ask ex sym q

def fundingRange (D : DecimalText) (R : Rfc3339)
    (ask : InstrumentId → Int → Int → Except CoreError (List FundingBar)) (ex sym : String)
    (q : RangeQuery) : Response FundingDto FundingColumns :=
  rangeOf (fundingSeries D R) R ask ex sym q

def fundingEventRange (D : DecimalText) (R : Rfc3339)
    (ask : InstrumentId → Int → Int → Except CoreError (List FundingEvent)) (ex sym : String)
    (q : RangeQuery) : Response FundingEventDto Empty :=
  rangeOf (fundingEventSeries D R) R ask ex sym q

end OiTerminal.Api.Range
