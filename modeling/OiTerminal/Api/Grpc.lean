import OiTerminal.Api.Subscribe
import OiTerminal.Core.DecimalText
import OiTerminal.Core.Funding

/-!
# Messages of the gRPC interface

Decimals are text and an absent one is the empty text. Instants are split into seconds and
nanoseconds by divisions that round toward zero.
-/
namespace OiTerminal.Api.Grpc

open OiTerminal.Core
open OiTerminal.Api.Subscribe

set_option autoImplicit false

/-- An instant that the time crate can hold: the years from -9999 to 9999. -/
structure OffsetDateTime where
  nanos : Int
  min_le : -377705116800000000000 ≤ nanos
  le_max : nanos ≤ 253402300799999999999

theorem OffsetDateTime.ext {t t' : OffsetDateTime} (h : t.nanos = t'.nanos) : t = t' := by
  cases t
  cases t'
  cases h
  rfl

structure Timestamp where
  seconds : Int
  nanos : Int
  deriving DecidableEq

/-- What the protobuf type demands of the nanoseconds. -/
def Timestamp.Valid (t : Timestamp) : Prop := 0 ≤ t.nanos ∧ t.nanos < 1000000000

instance (t : Timestamp) : Decidable t.Valid :=
  inferInstanceAs (Decidable (0 ≤ t.nanos ∧ t.nanos < 1000000000))

inductive PbUnit where
  | unspecified
  | coins
  | contracts
  | usd
  deriving DecidableEq

/-- The numbers of the enumeration. -/
def PbUnit.number : PbUnit → Int
  | .unspecified => 0
  | .coins => 1
  | .contracts => 2
  | .usd => 3

structure Bar where
  instrument : Option PbInstrument
  bucketTs : Option Timestamp
  firstRecvTs : Option Timestamp
  lastRecvTs : Option Timestamp
  samples : Nat
  nativeUnit : Int
  nativeOpen : String
  nativeHigh : String
  nativeLow : String
  nativeClose : String
  oiCoinsOpen : String
  oiCoinsHigh : String
  oiCoinsLow : String
  oiCoinsClose : String
  oiUsdOpen : String
  oiUsdHigh : String
  oiUsdLow : String
  oiUsdClose : String
  priceUsedClose : String

structure Funding where
  instrument : Option PbInstrument
  bucketTs : Option Timestamp
  recvTs : Option Timestamp
  rate : String
  nextFundingTs : Option Timestamp
  intervalHours : Nat

structure PbFundingEvent where
  instrument : Option PbInstrument
  settlementTs : Option Timestamp
  rate : String
  markPrice : String

/-- Both casts of the source keep the value of every instant. -/
def tsToPb (t : Int) : Timestamp := ⟨t.tdiv 1000000000, t.tmod 1000000000⟩

/-- The text of a range error belongs to the time crate. -/
def pbTs (rangeError : String) (t : Option Timestamp) : Except Status OffsetDateTime :=
  match t with
  | none => .error (.invalidArgument "timestamp required")
  | some t =>
    let nanos := t.seconds * 1000000000 + t.nanos
    if h : -377705116800000000000 ≤ nanos ∧ nanos ≤ 253402300799999999999 then
      .ok ⟨nanos, h.1, h.2⟩
    else .error (.invalidArgument ("timestamp: " ++ rangeError))

def unitToPb : UnitKind → PbUnit
  | .coins => .coins
  | .contracts => .contracts
  | .usd => .usd

def instrumentToPb (id : InstrumentId) : PbInstrument := ⟨id.exchange.code, id.symbol⟩

section

variable (T : DecimalText)

/-- `unwrap_or_default`: an absent decimal is the empty text. -/
def optToPb (d : Option Decimal) : String := (d.map T.toText).getD ""

def snapToBar (s : OiSnapshot) : Bar where
  instrument := some (instrumentToPb s.instrument)
  bucketTs := some (tsToPb s.bucketTs)
  firstRecvTs := some (tsToPb s.firstRecvTs)
  lastRecvTs := some (tsToPb s.lastRecvTs)
  samples := s.samples
  nativeUnit := (unitToPb s.nativeUnit).number
  nativeOpen := T.toText s.nativeOpen
  nativeHigh := T.toText s.nativeHigh
  nativeLow := T.toText s.nativeLow
  nativeClose := T.toText s.nativeClose
  oiCoinsOpen := optToPb T s.oiCoinsOpen
  oiCoinsHigh := optToPb T s.oiCoinsHigh
  oiCoinsLow := optToPb T s.oiCoinsLow
  oiCoinsClose := optToPb T s.oiCoinsClose
  oiUsdOpen := optToPb T s.oiUsdOpen
  oiUsdHigh := optToPb T s.oiUsdHigh
  oiUsdLow := optToPb T s.oiUsdLow
  oiUsdClose := optToPb T s.oiUsdClose
  priceUsedClose := optToPb T s.priceUsedClose

def fundingToPb (b : FundingBar) : Funding where
  instrument := some (instrumentToPb b.instrument)
  bucketTs := some (tsToPb b.bucketTs)
  recvTs := some (tsToPb b.recvTs)
  rate := T.toText b.rate
  nextFundingTs := b.nextFundingTs.map tsToPb
  intervalHours := b.intervalHours.getD 0

def fundingEventToPb (e : FundingEvent) : PbFundingEvent where
  instrument := some (instrumentToPb e.instrument)
  settlementTs := some (tsToPb e.settlementTs)
  rate := T.toText e.rate
  markPrice := optToPb T e.markPrice

end

/-- Seconds and nanoseconds of one instant add up to it on both sides of the epoch. -/
theorem tsToPb_sum (t : Int) : (tsToPb t).seconds * 1000000000 + (tsToPb t).nanos = t := by
  unfold tsToPb
  rw [mul_comm]
  exact Int.mul_tdiv_add_tmod t 1000000000

theorem pbTs_tsToPb (rangeError : String) (t : OffsetDateTime) :
    pbTs rangeError (some (tsToPb t.nanos)) = .ok t := by
  unfold pbTs
  dsimp only
  rw [dif_pos (by rw [tsToPb_sum]; exact ⟨t.min_le, t.le_max⟩)]
  exact congrArg Except.ok (OffsetDateTime.ext (tsToPb_sum t.nanos))

theorem tsToPb_inj {t t' : Int} : tsToPb t = tsToPb t' ↔ t = t' := by
  constructor
  · intro h
    rw [← tsToPb_sum t, h, tsToPb_sum]
  · exact congrArg tsToPb

/-- The nanoseconds are negative exactly for a fraction of a second before the epoch. -/
theorem valid_tsToPb_iff (t : Int) :
    (tsToPb t).Valid ↔ 0 ≤ t ∨ t % 1000000000 = 0 := by
  unfold Timestamp.Valid tsToPb
  dsimp only
  rcases lt_or_ge t 0 with hneg | hpos
  · have hlt := Int.tmod_lt_of_pos t (by decide : (0 : Int) < 1000000000)
    have hsign := Int.tmod_nonneg 1000000000 (Int.neg_nonneg_of_nonpos hneg.le)
    have hzero : t.tmod 1000000000 = 0 ↔ t % 1000000000 = 0 := by
      rw [← Int.dvd_iff_tmod_eq_zero, Int.dvd_iff_emod_eq_zero]
    rw [Int.neg_tmod] at hsign
    rw [← hzero]
    generalize t.tmod 1000000000 = rest at *
    omega
  · have hlow := Int.tmod_nonneg 1000000000 hpos
    have hhigh := Int.tmod_lt_of_pos t (by decide : (0 : Int) < 1000000000)
    exact iff_of_true ⟨hlow, hhigh⟩ (.inl hpos)

theorem instrumentToPb_inj {id id' : InstrumentId} :
    instrumentToPb id = instrumentToPb id' ↔ id = id' := by
  constructor
  · intro h
    obtain ⟨hcode, hsymbol⟩ := PbInstrument.mk.inj h
    exact InstrumentId.ext (Exchange.code_injective hcode) hsymbol
  · exact congrArg instrumentToPb

theorem unitToPb_inj {u u' : UnitKind} :
    (unitToPb u).number = (unitToPb u').number ↔ u = u' := by
  cases u <;> cases u' <;> decide

section

variable {T : DecimalText}

theorem toText_inj {d d' : Decimal} : T.toText d = T.toText d' ↔ d = d' := by
  constructor
  · intro h
    have hread := T.fromText_toText d
    rw [h, T.fromText_toText] at hread
    exact (Except.ok.inj hread).symm
  · exact congrArg T.toText

/-- No decimal prints as the empty text. -/
theorem toText_ne_empty (hempty : ∀ d, T.fromText "" ≠ .ok d) (d : Decimal) :
    T.toText d ≠ "" := by
  intro h
  have hread := T.fromText_toText d
  rw [h] at hread
  exact hempty d hread

theorem optToPb_inj (hempty : ∀ d, T.fromText "" ≠ .ok d) {o o' : Option Decimal} :
    optToPb T o = optToPb T o' ↔ o = o' := by
  cases o with
  | none =>
    cases o' with
    | none => simp
    | some d => exact iff_of_false (fun h => toText_ne_empty hempty d h.symm) (by simp)
  | some d =>
    cases o' with
    | none => exact iff_of_false (toText_ne_empty hempty d) (by simp)
    | some d' => exact toText_inj.trans Option.some_inj.symm

theorem snapToBar_injective (hempty : ∀ d, T.fromText "" ≠ .ok d) {s s' : OiSnapshot}
    (h : snapToBar T s = snapToBar T s') : s = s' := by
  cases s
  cases s'
  simpa only [snapToBar, Bar.mk.injEq, OiSnapshot.mk.injEq, Option.some_inj, instrumentToPb_inj,
    tsToPb_inj, unitToPb_inj, toText_inj, optToPb_inj hempty] using h

theorem fundingEventToPb_injective (hempty : ∀ d, T.fromText "" ≠ .ok d) {e e' : FundingEvent}
    (h : fundingEventToPb T e = fundingEventToPb T e') : e = e' := by
  cases e
  cases e'
  simpa only [fundingEventToPb, PbFundingEvent.mk.injEq, FundingEvent.mk.injEq, Option.some_inj,
    instrumentToPb_inj, tsToPb_inj, toText_inj, optToPb_inj hempty] using h

/-- An interval that is not reported and one of zero hours are the same message. -/
theorem fundingToPb_eq_iff {b b' : FundingBar} : fundingToPb T b = fundingToPb T b' ↔
    { b with intervalHours := none } = { b' with intervalHours := none } ∧
      b.intervalHours.getD 0 = b'.intervalHours.getD 0 := by
  have hnext : ∀ o o' : Option Int, o.map tsToPb = o'.map tsToPb ↔ o = o' := fun o o' =>
    (Option.map_injective fun _ _ => tsToPb_inj.mp).eq_iff
  cases b
  cases b'
  simp only [fundingToPb, Funding.mk.injEq, FundingBar.mk.injEq, Option.some_inj,
    instrumentToPb_inj, tsToPb_inj, toText_inj, hnext, and_true, and_assoc]

end

section

variable (T : DecimalText) (rangeError : String)

/-- The messages give back every instant and every field, but for an interval of zero hours,
which stands for one that is not reported. -/
theorem messages_lossless (hempty : ∀ d, T.fromText "" ≠ .ok d) :
    (∀ t : OffsetDateTime, pbTs rangeError (some (tsToPb t.nanos)) = .ok t) ∧
    (∀ t : OffsetDateTime, 0 ≤ t.nanos ∨ t.nanos % 1000000000 = 0 → (tsToPb t.nanos).Valid) ∧
    (∀ s s' : OiSnapshot, snapToBar T s = snapToBar T s' → s = s') ∧
    (∀ e e' : FundingEvent, fundingEventToPb T e = fundingEventToPb T e' → e = e') ∧
    ∀ b b' : FundingBar, fundingToPb T b = fundingToPb T b' →
      { b with intervalHours := none } = { b' with intervalHours := none } ∧
        b.intervalHours.getD 0 = b'.intervalHours.getD 0 := by
  refine ⟨?instant, ?valid, ?bar, ?event, ?funding⟩
  case instant => exact pbTs_tsToPb rangeError
  case valid => exact fun t => (valid_tsToPb_iff t.nanos).mpr
  case bar => exact fun _ _ => snapToBar_injective hempty
  case event => exact fun _ _ => fundingEventToPb_injective hempty
  case funding => exact fun _ _ => fundingToPb_eq_iff.mp

end

theorem plain_instants_read_back :
    pbTs "" (some (tsToPb (-1))) = .ok ⟨-1, by decide, by decide⟩ ∧
      (tsToPb 1500000000).Valid := by
  have hempty : ∀ d, DecimalText.plain.fromText "" ≠ .ok d := by
    intro d h
    cases h
  have h := messages_lossless .plain "" hempty
  exact ⟨h.1 ⟨-1, by decide, by decide⟩,
    h.2.1 ⟨1500000000, by decide, by decide⟩ (.inl (by decide))⟩

/-- A bar without an interval and one with an interval of zero hours give one message, and the
nanosecond before the epoch has negative nanoseconds. -/
theorem zero_interval_not_told :
    ¬ (∀ b b' : FundingBar, fundingToPb .plain b = fundingToPb .plain b' →
      b.intervalHours = b'.intervalHours) ∧
    ¬ ∀ t : OffsetDateTime, (tsToPb t.nanos).Valid := by
  constructor
  · intro h
    let rate : Decimal := ⟨false, 1, 4, by decide, by decide, fun _ => rfl⟩
    have hhours := h ⟨⟨.mexc, "BTC_USDT"⟩, 0, 0, rate, none, none⟩
      ⟨⟨.mexc, "BTC_USDT"⟩, 0, 0, rate, none, some 0⟩ rfl
    cases hhours
  · intro h
    exact absurd (h ⟨-1, by decide, by decide⟩) (by decide)

end OiTerminal.Api.Grpc
