import OiTerminal.Core.Instrument

/-!
# Funding-rate value objects

The predicted rate is sampled once per minute. A settlement event carries the rate that
was paid at the venue's settlement boundary.
-/
namespace OiTerminal.Core

set_option autoImplicit false

/-- One-minute funding-rate sample. -/
structure FundingBar where
  instrument : InstrumentId
  bucketTs : Int
  recvTs : Int
  rate : Decimal
  nextFundingTs : Option Int
  intervalHours : Option Nat
  deriving DecidableEq, Repr

/-- Funding actually paid at a settlement boundary. -/
structure FundingEvent where
  instrument : InstrumentId
  settlementTs : Int
  rate : Decimal
  markPrice : Option Decimal
  deriving DecidableEq, Repr

end OiTerminal.Core
