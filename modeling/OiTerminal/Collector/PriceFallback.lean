import Mathlib.Data.List.Induction
import OiTerminal.Collector.PriceProvider
import OiTerminal.Lib.Scan

/-!
# Which donor a price is borrowed from

A lookup without a price of its own takes the first donor: one of the same quote family before
the others, then by the order of the exchanges, then by the order of registration. The calls of
the provider say who is registered and what was quoted last.
-/
namespace OiTerminal.Collector.PriceFallback

open OiTerminal.Core
open OiTerminal.Collector.PriceProvider
open OiTerminal.Lib.ByKey
open OiTerminal.Lib.Scan

set_option autoImplicit false

inductive ProviderCall where
  | register (instrument : InstrumentId) (baseAsset quoteAsset : String)
  | ingest (quotes : List PriceQuote)
  deriving DecidableEq, Repr

def apply (p : InMemoryPriceProvider) : ProviderCall → InMemoryPriceProvider
  | .register instrument baseAsset quoteAsset =>
    p.registerInstrument instrument baseAsset quoteAsset
  | .ingest quotes => p.ingest quotes

def after (tolerance : Int) (calls : List ProviderCall) : InMemoryPriceProvider :=
  calls.foldl apply (.withTolerance tolerance)

/-- The registrations under a canonical base, repeated ones included. -/
def registrations (base : String) (calls : List ProviderCall) : List IndexEntry :=
  calls.filterMap fun
    | .register instrument baseAsset quoteAsset =>
      if canonicalBase baseAsset = base then some ⟨instrument, canonicalQuote quoteAsset⟩ else none
    | .ingest _ => none

def quotesOf (calls : List ProviderCall) : List PriceQuote :=
  calls.flatMap fun
    | .register _ _ _ => []
    | .ingest quotes => quotes

/-- The last price quoted for an instrument, if it is near enough in time. -/
def priceWithin (tolerance : Int) (calls : List ProviderCall) (id : InstrumentId) (near : Int) :
    Option Decimal :=
  (lastOf PriceQuote.instrument id (quotesOf calls)).bind fun q =>
    if |near - q.ts| ≤ tolerance then some q.price else none

def sameId (id : InstrumentId) (e : IndexEntry) : Bool := e.id = id

/-- The entry of an instrument: the first registration counts, with its quote. -/
def Registered (base : String) (calls : List ProviderCall) (e : IndexEntry) : Prop :=
  (registrations base calls).find? (sameId e.id) = some e

/-- An instrument other than the target, of the same base, with a price in time. -/
structure Donor (tolerance : Int) (calls : List ProviderCall) (target : InstrumentId)
    (base : String) (near : Int) (e : IndexEntry) (price : Decimal) : Prop where
  registered : Registered base calls e
  other : e.id ≠ target
  price : priceWithin tolerance calls e.id near = some price

/-- The place of an entry among the registrations. -/
def registeredAt (base : String) (calls : List ProviderCall) (e : IndexEntry) : ℕ :=
  (registrations base calls).findIdx (sameId e.id)

/-- By the order of the exchanges, then by that of the registrations. -/
def placeOf (base : String) (calls : List ProviderCall) (e : IndexEntry) : ℕ ×ₗ ℕ :=
  place Exchange.all (fun e : IndexEntry => e.id.exchange) (registeredAt base calls) e

/-- The same quote comes first, and then the place decides. -/
def rank (calls : List ProviderCall) (base quote : String) (e : IndexEntry) : ℕ ×ₗ ℕ ×ₗ ℕ :=
  toLex (if e.quoteCanonical = quote then 0 else 1, placeOf base calls e)

variable {tolerance near : Int} {calls : List ProviderCall} {call : ProviderCall}
  {base : String} {id target : InstrumentId} {e : IndexEntry} {price : Decimal}

theorem registrations_concat (base : String) (calls : List ProviderCall) (call : ProviderCall) :
    registrations base (calls ++ [call]) =
      registrations base calls ++ registrations base [call] :=
  List.filterMap_append

theorem quotesOf_concat (calls : List ProviderCall) (call : ProviderCall) :
    quotesOf (calls ++ [call]) = quotesOf calls ++ quotesOf [call] :=
  List.flatMap_append

theorem after_concat (tolerance : Int) (calls : List ProviderCall) (call : ProviderCall) :
    after tolerance (calls ++ [call]) = apply (after tolerance calls) call := by
  simp [after]

theorem tolerance_after (tolerance : Int) (calls : List ProviderCall) :
    (after tolerance calls).tolerance = tolerance := by
  induction calls using List.reverseRecOn with
  | nil => rfl
  | append_singleton calls call ih =>
    rw [after_concat]
    cases call with
    | register instrument baseAsset quoteAsset =>
      exact (InMemoryPriceProvider.registerInstrument_tolerance ..).trans ih
    | ingest quotes => exact (InMemoryPriceProvider.ingest_tolerance quotes).trans ih

/-- The cache has the last quote of each instrument. -/
theorem prices_after (tolerance : Int) (calls : List ProviderCall) (id : InstrumentId) :
    (after tolerance calls).prices.lookup id =
      (lastOf PriceQuote.instrument id (quotesOf calls)).map fun q => (q.price, q.ts) := by
  induction calls using List.reverseRecOn with
  | nil => exact AList.lookup_empty id
  | append_singleton calls call ih =>
    rw [after_concat, quotesOf_concat, lastOf_append, Option.map_or, ← ih]
    cases call with
    | register instrument baseAsset quoteAsset =>
      exact congrArg (AList.lookup id) (InMemoryPriceProvider.registerInstrument_prices ..)
    | ingest quotes =>
      have hquotes : quotesOf [ProviderCall.ingest quotes] = quotes := by simp [quotesOf]
      rw [hquotes]
      exact InMemoryPriceProvider.ingest_lookup quotes

theorem fresh_after (tolerance : Int) (calls : List ProviderCall) (id : InstrumentId)
    (near : Int) :
    (after tolerance calls).fresh id near = priceWithin tolerance calls id near := by
  unfold InMemoryPriceProvider.fresh priceWithin
  rw [prices_after, tolerance_after]
  cases lastOf PriceQuote.instrument id (quotesOf calls) with
  | none => rfl
  | some q => rfl

/-- The entries of a base: the first registration of each instrument, in their order. -/
structure Bucket (regs entries : List IndexEntry) : Prop where
  mem : ∀ e, e ∈ entries ↔ regs.find? (sameId e.id) = some e
  sorted : entries.Pairwise fun a b =>
    regs.findIdx (sameId a.id) < regs.findIdx (sameId b.id)

variable {regs entries : List IndexEntry}

theorem sameId_of_find? (h : regs.find? (sameId id) = some e) : e.id = id := by
  have hsame := List.find?_some h
  exact of_decide_eq_true hsame

/-- An instrument is among the entries exactly if it was registered. -/
theorem Bucket.any_iff (h : Bucket regs entries) (id : InstrumentId) :
    (entries.any fun e => e.id = id) = true ↔ ∃ e, regs.find? (sameId id) = some e := by
  rw [List.any_eq_true]
  constructor
  · intro hany
    obtain ⟨e, he, hid⟩ := hany
    obtain rfl := of_decide_eq_true hid
    exact ⟨e, (h.mem e).mp he⟩
  · intro hfound
    obtain ⟨e, he⟩ := hfound
    have hid := sameId_of_find? he
    exact ⟨e, (h.mem e).mpr (hid ▸ he), decide_eq_true hid⟩

/-- What was found before stays where it is. -/
theorem findIdx_append_of_find? (h : regs.find? (sameId id) = some e) (more : List IndexEntry) :
    (regs ++ more).findIdx (sameId id) = regs.findIdx (sameId id) := by
  have hlt : regs.findIdx (sameId id) < regs.length := List.findIdx_lt_length.mpr
    ⟨e, List.mem_of_find?_eq_some h, List.find?_some h⟩
  rw [List.findIdx_append, if_pos hlt]

theorem Bucket.findIdx_append (h : Bucket regs entries) (r : IndexEntry) (he : e ∈ entries) :
    (regs ++ [r]).findIdx (sameId e.id) = regs.findIdx (sameId e.id) :=
  findIdx_append_of_find? ((h.mem e).mp he) [r]

/-- An instrument that is registered again keeps its entry. -/
theorem Bucket.repeated (h : Bucket regs entries) {r first : IndexEntry}
    (hfirst : regs.find? (sameId r.id) = some first) : Bucket (regs ++ [r]) entries where
  mem e := by
    rw [h.mem, List.find?_append]
    cases hfound : regs.find? (sameId e.id) with
    | some x => rw [Option.some_or]
    | none =>
      have hne : r.id ≠ e.id := by
        intro heq
        rw [heq, hfound] at hfirst
        cases hfirst
      simp [sameId, hne]
  sorted := by
    refine h.sorted.imp_of_mem ?_
    intro a b ha hb hlt
    rwa [h.findIdx_append r ha, h.findIdx_append r hb]

/-- A new one gets its entry at the end. -/
theorem Bucket.added (h : Bucket regs entries) {r : IndexEntry}
    (hnone : regs.find? (sameId r.id) = none) : Bucket (regs ++ [r]) (entries ++ [r]) where
  mem e := by
    rw [List.mem_append, List.mem_singleton, h.mem, List.find?_append]
    cases hfound : regs.find? (sameId e.id) with
    | some x =>
      have hne : e ≠ r := by
        intro heq
        rw [heq, hnone] at hfound
        cases hfound
      rw [Option.some_or, or_iff_left hne]
    | none =>
      by_cases hid : r.id = e.id
      · simp [sameId, hid, eq_comm]
      · have hne : e ≠ r := fun heq => hid (congrArg IndexEntry.id heq.symm)
        simp [sameId, hid, hne]
  sorted := by
    have hlen : regs.findIdx (sameId r.id) = regs.length :=
      List.findIdx_eq_length.mpr fun x hx => by simpa using List.find?_eq_none.mp hnone x hx
    have hlast : (regs ++ [r]).findIdx (sameId r.id) = regs.length := by
      rw [List.findIdx_append, hlen, if_neg (lt_irrefl _)]
      simp [sameId]
    refine List.pairwise_append.mpr ⟨h.sorted.imp_of_mem ?_, List.pairwise_singleton _ _, ?_⟩
    · intro a b ha hb hlt
      rwa [h.findIdx_append r ha, h.findIdx_append r hb]
    · intro a ha b hb
      obtain rfl := List.mem_singleton.mp hb
      rw [h.findIdx_append b ha, hlast]
      exact List.findIdx_lt_length.mpr ⟨a, List.mem_of_find?_eq_some ((h.mem a).mp ha),
        decide_eq_true rfl⟩

/-- One more registration. -/
theorem Bucket.register (h : Bucket regs entries) (r : IndexEntry) :
    Bucket (regs ++ [r])
      (if entries.any fun e => e.id = r.id then entries else entries ++ [r]) := by
  by_cases hany : (entries.any fun e => e.id = r.id) = true
  · rw [if_pos hany]
    obtain ⟨first, hfirst⟩ := (h.any_iff r.id).mp hany
    exact h.repeated hfirst
  · rw [if_neg hany]
    apply h.added
    cases hfound : regs.find? (sameId r.id) with
    | none => rfl
    | some x => exact absurd ((h.any_iff r.id).mpr ⟨x, hfound⟩) hany

/-- The index after any calls. -/
theorem bucket_after (tolerance : Int) (calls : List ProviderCall) (base : String) :
    Bucket (registrations base calls)
      (((after tolerance calls).byBase.lookup base).getD []) := by
  induction calls using List.reverseRecOn with
  | nil =>
    rw [show (after tolerance []).byBase.lookup base = none from AList.lookup_empty base]
    exact ⟨fun e => by simp [registrations], .nil⟩
  | append_singleton calls call ih =>
    rw [after_concat, registrations_concat]
    cases call with
    | ingest quotes =>
      have hnone : registrations base [ProviderCall.ingest quotes] = [] := rfl
      have hsame : (apply (after tolerance calls) (.ingest quotes)).byBase =
          (after tolerance calls).byBase := InMemoryPriceProvider.ingest_byBase quotes
      rw [hnone, List.append_nil, hsame]
      exact ih
    | register instrument baseAsset quoteAsset =>
      have hlookup := InMemoryPriceProvider.lookup_registerInstrument
        (p := after tolerance calls) instrument baseAsset quoteAsset base
      by_cases hbase : canonicalBase baseAsset = base
      · have hone : registrations base [.register instrument baseAsset quoteAsset] =
            [⟨instrument, canonicalQuote quoteAsset⟩] := by simp [registrations, hbase]
        rw [if_pos hbase] at hlookup
        rw [hone]
        show Bucket _ (((after tolerance calls).registerInstrument instrument baseAsset
          quoteAsset).byBase.lookup base |>.getD [])
        rw [hlookup, Option.getD_some]
        exact ih.register ⟨instrument, canonicalQuote quoteAsset⟩
      · have hnone : registrations base [.register instrument baseAsset quoteAsset] = [] := by
          simp [registrations, hbase]
        rw [if_neg hbase] at hlookup
        rw [hnone, List.append_nil]
        show Bucket _ (((after tolerance calls).registerInstrument instrument baseAsset
          quoteAsset).byBase.lookup base |>.getD [])
        rw [hlookup]
        exact ih

/-- What one entry contributes to a pass. -/
def passAnswer (p : InMemoryPriceProvider) (target : InstrumentId) (near : Int)
    (requireQuote : Option String) (ex : Exchange) (entry : IndexEntry) :
    Option (Decimal × Provenance) :=
  if entry.id = target then none
  else if ∃ q ∈ requireQuote, entry.quoteCanonical ≠ q then none
  else (p.fresh entry.id near).map fun price => (price, .fallback ex requireQuote.isSome)

theorem scanPass_eq (p : InMemoryPriceProvider) (entries : List IndexEntry)
    (target : InstrumentId) (near : Int) (requireQuote : Option String) :
    p.scanPass entries target near requireQuote =
      scan Exchange.all (fun e => e.id.exchange) (passAnswer p target near requireQuote) entries :=
  rfl

theorem mem_all (ex : Exchange) : ex ∈ Exchange.all := by
  cases ex <;> decide

variable {requireQuote : Option String}

/-- A pass takes its answers from the donors with the quote that it requires. -/
theorem passAnswer_eq_some (ex : Exchange) {r : Decimal × Provenance}
    (he : Registered base calls e) :
    passAnswer (after tolerance calls) target near requireQuote ex e = some r ↔
      ∃ price, Donor tolerance calls target base near e price ∧
        (∀ q ∈ requireQuote, e.quoteCanonical = q) ∧
        r = (price, .fallback ex requireQuote.isSome) := by
  unfold passAnswer
  rw [fresh_after]
  constructor
  · intro h
    split at h
    case isTrue => cases h
    case isFalse hother =>
      split at h
      case isTrue => cases h
      case isFalse hquote =>
        obtain ⟨price, hprice, rfl⟩ := Option.map_eq_some_iff.mp h
        exact ⟨price, ⟨he, hother, hprice⟩, fun q hq => not_not.mp fun hne => hquote ⟨q, hq, hne⟩,
          rfl⟩
  · intro h
    obtain ⟨price, hdonor, hquote, rfl⟩ := h
    have hmatch : ¬ ∃ q ∈ requireQuote, e.quoteCanonical ≠ q := by
      intro hne
      obtain ⟨q, hq, hne⟩ := hne
      exact hne (hquote q hq)
    rw [if_neg hdonor.other, if_neg hmatch, hdonor.price]
    rfl

theorem pass_some {r : Decimal × Provenance} (hentries : Bucket (registrations base calls) entries)
    (h : (after tolerance calls).scanPass entries target near requireQuote = some r) :
    ∃ e price, Donor tolerance calls target base near e price ∧
      (∀ q ∈ requireQuote, e.quoteCanonical = q) ∧
      r = (price, .fallback e.id.exchange requireQuote.isSome) ∧
      ∀ e' price', Donor tolerance calls target base near e' price' →
        (∀ q ∈ requireQuote, e'.quoteCanonical = q) →
          placeOf base calls e ≤ placeOf base calls e' := by
  rw [scanPass_eq] at h
  have hsorted : entries.Pairwise fun a b =>
      registeredAt base calls a < registeredAt base calls b := hentries.sorted
  obtain ⟨e, he, hanswer, hfirst⟩ := exists_of_scan hsorted h
  obtain ⟨price, hdonor, hquote, hr⟩ := (passAnswer_eq_some _ ((hentries.mem e).mp he)).mp hanswer
  refine ⟨e, price, hdonor, hquote, hr, fun e' price' hdonor' hquote' => ?_⟩
  refine hfirst e' ((hentries.mem e').mpr hdonor'.registered) ?_
  have hanswer' := (passAnswer_eq_some e'.id.exchange hdonor'.registered).mpr
    ⟨price', hdonor', hquote', rfl⟩
  rw [hanswer']
  exact Option.some_ne_none _

theorem pass_none (hentries : Bucket (registrations base calls) entries)
    (h : (after tolerance calls).scanPass entries target near requireQuote = none)
    (hdonor : Donor tolerance calls target base near e price) :
    ¬ ∀ q ∈ requireQuote, e.quoteCanonical = q := by
  intro hquote
  rw [scanPass_eq, scan_eq_none_iff] at h
  have hnone := h e ((hentries.mem e).mpr hdonor.registered) (mem_all _)
  have hanswer := (passAnswer_eq_some e.id.exchange hdonor.registered).mpr
    ⟨price, hdonor, hquote, rfl⟩
  rw [hnone] at hanswer
  cases hanswer

/-- The donor that is tried before all others. -/
structure FirstDonor (tolerance : Int) (calls : List ProviderCall) (target : InstrumentId)
    (base quote : String) (near : Int) (e : IndexEntry) (price : Decimal) : Prop where
  donor : Donor tolerance calls target base near e price
  first : ∀ e' price', Donor tolerance calls target base near e' price' →
    rank calls base quote e ≤ rank calls base quote e'

/-- Without a price of its own: the two passes over the entries of the base. -/
theorem borrowed (hentries : Bucket (registrations base calls) entries) (target : InstrumentId)
    (near : Int) (quote : String) :
    let p := after tolerance calls
    let found := match p.scanPass entries target near (some quote) with
      | some found => some found
      | none => p.scanPass entries target near none
    (∃ e price, FirstDonor tolerance calls target base quote near e price ∧
        found = some (price, .fallback e.id.exchange (decide (e.quoteCanonical = quote)))) ∨
      ((∀ e price, ¬ Donor tolerance calls target base near e price) ∧ found = none) := by
  dsimp only
  cases hstrict : (after tolerance calls).scanPass entries target near (some quote) with
  | some r =>
    obtain ⟨e, price, hdonor, hquote, rfl, hfirst⟩ := pass_some hentries hstrict
    have hsame : e.quoteCanonical = quote := hquote quote rfl
    refine .inl ⟨e, price, ⟨hdonor, fun e' price' hdonor' => ?_⟩, by simp [hsame]⟩
    unfold rank
    rw [Prod.Lex.toLex_le_toLex, if_pos hsame]
    dsimp only
    by_cases hsame' : e'.quoteCanonical = quote
    · rw [if_pos hsame']
      refine .inr ⟨rfl, hfirst e' price' hdonor' ?_⟩
      intro q hq
      obtain rfl := Option.some.inj hq
      exact hsame'
    · rw [if_neg hsame']
      exact .inl Nat.zero_lt_one
  | none =>
    -- no donor has the quote, and the second pass decides
    have hother : ∀ e price, Donor tolerance calls target base near e price →
        e.quoteCanonical ≠ quote := by
      intro e price hdonor hsame
      refine pass_none hentries hstrict hdonor fun q hq => ?_
      obtain rfl := Option.some.inj hq
      exact hsame
    cases hany : (after tolerance calls).scanPass entries target near none with
    | some r =>
      obtain ⟨e, price, hdonor, -, rfl, hfirst⟩ := pass_some hentries hany
      have hdiffer := hother e price hdonor
      refine .inl ⟨e, price, ⟨hdonor, fun e' price' hdonor' => ?_⟩, by simp [hdiffer]⟩
      unfold rank
      rw [Prod.Lex.toLex_le_toLex, if_neg hdiffer, if_neg (hother e' price' hdonor')]
      exact .inr ⟨rfl, hfirst e' price' hdonor' fun q hq => absurd hq (Option.not_mem_none q)⟩
    | none =>
      refine .inr ⟨fun e price hdonor => ?_, rfl⟩
      exact pass_none hentries hany hdonor fun q hq => absurd hq (Option.not_mem_none q)

/-- After any registrations and quotes, a lookup returns the instrument's own price if that is in
time. Otherwise it returns the price of the first donor, says from which exchange it is and
whether the quotes agree, and it returns nothing only if there is no donor. -/
theorem price_of_first_donor (tolerance : Int) (calls : List ProviderCall)
    (instrument : InstrumentId) (baseAsset quoteAsset : String) (near : Int) :
    match priceWithin tolerance calls instrument near with
    | some price => (after tolerance calls).priceUsdWithFallback instrument baseAsset quoteAsset
        near = some (price, .native)
    | none =>
      (∃ e price, FirstDonor tolerance calls instrument (canonicalBase baseAsset)
          (canonicalQuote quoteAsset) near e price ∧
        (after tolerance calls).priceUsdWithFallback instrument baseAsset quoteAsset near =
          some (price, .fallback e.id.exchange
            (decide (e.quoteCanonical = canonicalQuote quoteAsset)))) ∨
      ((∀ e price, ¬ Donor tolerance calls instrument (canonicalBase baseAsset) near e price) ∧
        (after tolerance calls).priceUsdWithFallback instrument baseAsset quoteAsset near =
          none) := by
  unfold InMemoryPriceProvider.priceUsdWithFallback
  rw [fresh_after]
  cases priceWithin tolerance calls instrument near with
  | some price => rfl
  | none =>
    dsimp only
    have hentries := bucket_after tolerance calls (canonicalBase baseAsset)
    cases hlookup : (after tolerance calls).byBase.lookup (canonicalBase baseAsset) with
    | none =>
      rw [hlookup, Option.getD_none] at hentries
      refine .inr ⟨fun e price hdonor => ?_, rfl⟩
      exact absurd ((hentries.mem e).mpr hdonor.registered) List.not_mem_nil
    | some entries =>
      rw [hlookup, Option.getD_some] at hentries
      exact borrowed hentries instrument near (canonicalQuote quoteAsset)

end OiTerminal.Collector.PriceFallback
