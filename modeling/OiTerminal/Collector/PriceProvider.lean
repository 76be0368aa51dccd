import Mathlib.Algebra.Order.Group.Unbundled.Abs
import Mathlib.Data.List.AList
import OiTerminal.Core.Instrument
import OiTerminal.Core.Time
import OiTerminal.Lib.ByKey

/-!
# The price cache and its fallback across exchanges

Every collector loop ingests the quotes of its own exchange and looks prices up by
instrument. A lookup that finds no fresh quote of the instrument borrows one of the same
base asset from another exchange.
-/
namespace OiTerminal.Collector.PriceProvider

open OiTerminal.Core
open OiTerminal.Lib.ByKey

set_option autoImplicit false

/-- Where a returned USD price came from. -/
inductive Provenance where
  | native
  | fallback (source : Exchange) (quoteMatch : Bool)
  deriving DecidableEq, Repr

structure IndexEntry where
  id : InstrumentId
  quoteCanonical : String
  deriving DecidableEq, Repr

structure InMemoryPriceProvider where
  prices : AList (fun _ : InstrumentId => Decimal × Int)
  byBase : AList (fun _ : String => List IndexEntry)
  /-- Maximum age of a price before we treat it as unusable. -/
  tolerance : Int

def asciiUppercase (s : String) : String := String.ofList (s.toList.map Char.toUpper)

/-- KuCoin's `XBT` is the `BTC` of every other venue. -/
def canonicalBase (asset : String) : String :=
  match asciiUppercase asset with
  | "XBT" => "BTC"
  | _ => asset

/-- USD and the stablecoins pegged to it are one family. -/
def canonicalQuote (quote : String) : String :=
  match asciiUppercase quote with
  | "USDT" | "USDC" | "BUSD" | "FDUSD" | "USD" | "TUSD" | "DAI" => "USD-PEG"
  | _ => quote

namespace InMemoryPriceProvider

def withTolerance (tolerance : Int) : InMemoryPriceProvider := ⟨∅, ∅, tolerance⟩

def insert (p : InMemoryPriceProvider) (q : PriceQuote) : InMemoryPriceProvider :=
  { p with prices := p.prices.insert q.instrument (q.price, q.ts) }

def ingest (p : InMemoryPriceProvider) (quotes : List PriceQuote) : InMemoryPriceProvider :=
  quotes.foldl insert p

/-- Register an instrument's base and quote in the fallback index. -/
def registerInstrument (p : InMemoryPriceProvider) (instrument : InstrumentId)
    (baseAsset quoteAsset : String) : InMemoryPriceProvider :=
  let base := canonicalBase baseAsset
  let bucket := (p.byBase.lookup base).getD []
  if bucket.any fun e => e.id = instrument then { p with byBase := p.byBase.insert base bucket }
  else
    let entry : IndexEntry := ⟨instrument, canonicalQuote quoteAsset⟩
    { p with byBase := p.byBase.insert base (bucket ++ [entry]) }

def fresh (p : InMemoryPriceProvider) (instrument : InstrumentId) (near : Int) : Option Decimal :=
  match p.prices.lookup instrument with
  | some (price, ts) => if |near - ts| ≤ p.tolerance then some price else none
  | none => none

/-- One pass over the entries of a base asset in the order of the exchanges, with the
canonical quote that is required, if one is. -/
def scanPass (p : InMemoryPriceProvider) (entries : List IndexEntry) (target : InstrumentId)
    (near : Int) (requireQuote : Option String) : Option (Decimal × Provenance) :=
  Exchange.all.findSome? fun ex =>
    (entries.filter fun e => e.id.exchange = ex).findSome? fun entry =>
      if entry.id = target then none
      else if ∃ q ∈ requireQuote, entry.quoteCanonical ≠ q then none
      else (p.fresh entry.id near).map fun price => (price, .fallback ex requireQuote.isSome)

/-- The instrument's own quote, else a donor of the same base and quote family, else a
donor of the same base. -/
def priceUsdWithFallback (p : InMemoryPriceProvider) (instrument : InstrumentId)
    (baseAsset quoteAsset : String) (near : Int) : Option (Decimal × Provenance) :=
  match p.fresh instrument near with
  | some price => some (price, .native)
  | none =>
    match p.byBase.lookup (canonicalBase baseAsset) with
    | none => none
    | some entries =>
      match p.scanPass entries instrument near (some (canonicalQuote quoteAsset)) with
      | some found => some found
      | none => p.scanPass entries instrument near none

variable {p : InMemoryPriceProvider} {id : InstrumentId} {near : Int}

@[simp] theorem ingest_tolerance (quotes : List PriceQuote) :
    (p.ingest quotes).tolerance = p.tolerance := by
  induction quotes generalizing p with
  | nil => rfl
  | cons q rest ih => exact ih

/-- The last quote of an instrument wins, and the others keep what they had. -/
theorem ingest_lookup (quotes : List PriceQuote) : (p.ingest quotes).prices.lookup id =
    ((lastOf PriceQuote.instrument id quotes).map fun q => (q.price, q.ts)).or
      (p.prices.lookup id) := by
  induction quotes generalizing p with
  | nil => rfl
  | cons q rest ih =>
    show ((p.insert q).ingest rest).prices.lookup id = _
    rw [ih, ← List.singleton_append, lastOf_append, Option.map_or, Option.or_assoc]
    by_cases hq : q.instrument = id
    · subst hq
      have hlast : lastOf PriceQuote.instrument q.instrument [q] = some q := by
        simp [lastOf, ofKey]
      rw [hlast]
      exact congrArg _ (AList.lookup_insert p.prices)
    · have hlast : lastOf PriceQuote.instrument id [q] = none :=
        lastOf_eq_none_iff.mpr fun r hr => by rwa [List.mem_singleton.mp hr]
      rw [hlast]
      exact congrArg _ (AList.lookup_insert_ne fun h => hq h.symm)

@[simp] theorem registerInstrument_prices (instrument : InstrumentId) (base quote : String) :
    (p.registerInstrument instrument base quote).prices = p.prices := by
  unfold registerInstrument
  dsimp only
  split <;> rfl

@[simp] theorem registerInstrument_tolerance (instrument : InstrumentId) (base quote : String) :
    (p.registerInstrument instrument base quote).tolerance = p.tolerance := by
  unfold registerInstrument
  dsimp only
  split <;> rfl

@[simp] theorem ingest_byBase (quotes : List PriceQuote) : (p.ingest quotes).byBase = p.byBase := by
  induction quotes generalizing p with
  | nil => rfl
  | cons q rest ih => exact ih

/-- A registration adds to the entries of its own base, unless the instrument is there. -/
theorem lookup_registerInstrument (instrument : InstrumentId) (baseAsset quoteAsset base : String) :
    (p.registerInstrument instrument baseAsset quoteAsset).byBase.lookup base =
      if canonicalBase baseAsset = base then
        let bucket := (p.byBase.lookup base).getD []
        some (if bucket.any fun e => e.id = instrument then bucket
          else bucket ++ [⟨instrument, canonicalQuote quoteAsset⟩])
      else p.byBase.lookup base := by
  unfold registerInstrument
  by_cases hbase : canonicalBase baseAsset = base
  · subst hbase
    rw [if_pos rfl]
    dsimp only
    split <;> exact AList.lookup_insert _
  · rw [if_neg hbase]
    dsimp only
    split <;> exact AList.lookup_insert_ne (Ne.symm hbase)

/-- A donor is never reported as native. -/
theorem scanPass_ne_native {entries : List IndexEntry} {target : InstrumentId}
    {requireQuote : Option String} {price : Decimal} :
    p.scanPass entries target near requireQuote ≠ some (price, .native) := by
  intro h
  obtain ⟨ex, _, hex⟩ := List.exists_of_findSome?_eq_some h
  obtain ⟨entry, _, hentry⟩ := List.exists_of_findSome?_eq_some hex
  split at hentry
  · cases hentry
  · split at hentry
    · cases hentry
    · obtain ⟨_, _, hpair⟩ := Option.map_eq_some_iff.mp hentry
      cases hpair

/-- A price is native exactly when the instrument's own quote is fresh. -/
theorem native_iff {baseAsset quoteAsset : String} {price : Decimal} :
    p.priceUsdWithFallback id baseAsset quoteAsset near = some (price, .native) ↔
      p.fresh id near = some price := by
  unfold priceUsdWithFallback
  cases hfresh : p.fresh id near with
  | some own => simp
  | none =>
    simp only [reduceCtorEq, iff_false]
    split
    · intro h
      cases h
    · split
      · rename_i entries _ found hfound
        intro h
        exact scanPass_ne_native (hfound.trans h)
      · exact scanPass_ne_native

end InMemoryPriceProvider

end OiTerminal.Collector.PriceProvider
