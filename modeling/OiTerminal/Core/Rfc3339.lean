import Mathlib.Data.List.DropRight
import OiTerminal.Core.DecimalText
import OiTerminal.Core.Time

/-!
# Instants as text

How the time crate prints a UTC instant of the years 0 to 9999. The fraction of the second is
printed without its trailing zeros.
-/
namespace OiTerminal.Core.Time

set_option autoImplicit false

/-- Year, month and day of a day counted from the Unix epoch. The years of the computation begin
in March, in eras of 400 years. -/
def civil (day : Int) : Int × Int × Int :=
  let sinceEra := (day + 719468) % 146097
  let year := (sinceEra - sinceEra / 1460 + sinceEra / 36524 - sinceEra / 146096) / 365
  let sinceMarch := sinceEra - (365 * year + year / 4 - year / 100)
  let march := (5 * sinceMarch + 2) / 153
  let month := if march < 10 then march + 3 else march - 9
  let januaries := if month ≤ 2 then 1 else 0
  (year + (day + 719468) / 146097 * 400 + januaries, month,
    sinceMarch - (153 * march + 2) / 5 + 1)

def fixed (width : Nat) (n : Int) : String := String.ofList (DecimalText.padded width n.toNat)

def fraction (nanos : Int) : String :=
  if nanos = 0 then ""
  else "." ++ String.ofList ((DecimalText.padded 9 nanos.toNat).rdropWhile (· = '0'))

/-- `format(&Rfc3339)` of a UTC instant. -/
def rfc3339 (ts : Int) : String :=
  let (year, month, day) := civil (ts / 86400000000000)
  let ofDay := ts / 1000000000 % 86400
  fixed 4 year ++ "-" ++ fixed 2 month ++ "-" ++ fixed 2 day ++ "T" ++
    fixed 2 (ofDay / 3600) ++ ":" ++ fixed 2 (ofDay / 60 % 60) ++ ":" ++ fixed 2 (second ts) ++
    fraction (nanosecond ts) ++ "Z"

example : rfc3339 (seconds 951827696 + 500000000) = "2000-02-29T12:34:56.5Z" := by decide +kernel

example : rfc3339 (-1) = "1969-12-31T23:59:59.999999999Z" := by decide +kernel

end OiTerminal.Core.Time
