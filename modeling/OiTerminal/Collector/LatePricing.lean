import OiTerminal.Collector.ExchangeLoop

/-!
# Pricing a minute that is processed late

A quote is fresh while it is within the tolerance of the row's bucket. The scheduler lets
the bucket fall behind the clock, and the quotes of a tick carry the clock.
-/
namespace OiTerminal.Collector.LatePricing

open OiTerminal.Core
open OiTerminal.Core.Time
open OiTerminal.Collector.ExchangeLoop
open OiTerminal.Collector.PriceProvider
open OiTerminal.Collector.Scheduler
open OiTerminal.Lib.ByKey
open OiTerminal.Lib.Transition

set_option autoImplicit false

variable {exchange : Exchange}

/-- The bucket that the scheduler hands to the next tick. -/
def bucketOf (r : Run) (i : TickInput exchange) : Int := (r.state.sched.next i.now).2.1.bucketTs

/-- The clock when the tick fetches prices. -/
def fetchTime (r : Run) (i : TickInput exchange) (fetch : PriceFetch exchange) : Int :=
  i.now + (r.state.sched.next i.now).2.2 + fetch.delay

/-- The quote of an instrument that counts: the last one of the fetch. -/
def quoteOf (fetch : PriceFetch exchange) (id : InstrumentId) :
    Option { q : PriceQuote // q.instrument.exchange = exchange } :=
  lastOf (fun q => q.val.instrument) id fetch.quotes

/-- Each lookup of the tick answers with the quote that the tick fetched for the
instrument, if that quote is stamped with the time of the fetch. -/
def PricedNatively (A : DecimalArith) (r : Run) (i : TickInput exchange) : Prop :=
  ∀ state handed, tick A r.state i = .ok (state, some handed) →
    ∀ fetch ∈ i.prices, ∀ lookup ∈ handed.lookups, ∀ q ∈ quoteOf fetch lookup.row.instrument,
      q.val.ts = fetchTime r i fetch → lookup.answer = some (q.val.price, .native)

/-- Where a row of the tick has such a quote, prices are fetched at most five minutes after
the bucket of the tick begins. -/
def FetchedInTime (r : Run) (i : TickInput exchange) : Prop :=
  ∀ fetch ∈ i.prices, ∀ oi ∈ i.oi, ∀ row ∈ oi.rows, (∃ m ∈ r.state.metas, m.id = row.2.instrument) →
    ∀ q ∈ quoteOf fetch row.2.instrument, q.val.ts = fetchTime r i fetch →
      fetchTime r i fetch ≤ bucketOf r i + minutes 5

/-! ## The provider in the course of a tick -/

/-- The two providers have the same quotes of the loop's own exchange. -/
structure SameOwn (exchange : Exchange) (p p' : InMemoryPriceProvider) : Prop where
  tolerance : p.tolerance = p'.tolerance
  own : ∀ id, id.exchange = exchange → p.prices.lookup id = p'.prices.lookup id

theorem SameOwn.trans {p p' p'' : InMemoryPriceProvider} (h : SameOwn exchange p p')
    (h' : SameOwn exchange p' p'') : SameOwn exchange p p'' where
  tolerance := h.tolerance.trans h'.tolerance
  own id hid := (h.own id hid).trans (h'.own id hid)

/-- No other task stores a quote of the loop's exchange. -/
theorem sameOwn_meanwhile (m : Meanwhile exchange) (shared : Shared) :
    SameOwn exchange (shared.meanwhile m).prices shared.prices := by
  cases m with
  | ingest quotes =>
    refine ⟨InMemoryPriceProvider.ingest_tolerance _, fun id hid => ?_⟩
    have hnone : lastOf PriceQuote.instrument id (quotes.map Subtype.val) = none := by
      refine lastOf_eq_none_iff.mpr fun q hq hqid => ?_
      obtain ⟨q', _, rfl⟩ := List.mem_map.mp hq
      exact q'.property (hqid ▸ hid)
    show (shared.prices.ingest _).prices.lookup id = _
    rw [InMemoryPriceProvider.ingest_lookup, hnone]
    rfl
  | registerInstrument id base quote =>
    exact ⟨InMemoryPriceProvider.registerInstrument_tolerance _ _ _, fun _ _ => by
      show (shared.prices.registerInstrument _ _ _).prices.lookup _ = _
      rw [InMemoryPriceProvider.registerInstrument_prices]⟩
  | live sample => exact ⟨rfl, fun _ _ => rfl⟩

theorem sameOwn_foldl (ms : List (Meanwhile exchange)) (shared : Shared) :
    SameOwn exchange (ms.foldl Shared.meanwhile shared).prices shared.prices := by
  induction ms generalizing shared with
  | nil => exact ⟨rfl, fun _ _ => rfl⟩
  | cons m rest ih => exact (ih (shared.meanwhile m)).trans (sameOwn_meanwhile m shared)

/-- A lookup of a known row against a provider with the given quotes of the exchange. -/
def Asked (exchange : Exchange) (metas : List InstrumentMeta) (prices : InMemoryPriceProvider)
    (r : RawOi) (l : Lookup) : Prop :=
  ∃ info ∈ metas, info.id = r.instrument ∧ ∃ p, SameOwn exchange p prices ∧ l = lookupPrice p info r

variable {A : DecimalArith} {metas : List InstrumentMeta} {bucket recvTs : Int} {s s' : Rows}

theorem observeRow_lookups (exchange : Exchange) {r : RawOi} (h : observeRow A metas s r = .ok s') :
    SameOwn exchange s'.shared.prices s.shared.prices ∧
    (∀ l ∈ s.lookups, l ∈ s'.lookups) ∧
    (∀ l ∈ s'.lookups, l ∈ s.lookups ∨ Asked exchange metas s.shared.prices r l) ∧
    ((∃ m ∈ metas, m.id = r.instrument) →
      ∃ l ∈ s'.lookups, Asked exchange metas s.shared.prices r l) := by
  have hsame : SameOwn exchange s.shared.prices s.shared.prices := ⟨rfl, fun _ _ => rfl⟩
  rcases observeRow_cases h with ⟨hunknown, rfl⟩ | ⟨info, hinfo, hid, sample, _, _, _, rfl⟩
  · refine ⟨hsame, fun l hl => hl, fun l hl => .inl hl, fun hknown => ?_⟩
    obtain ⟨m, hm, hmid⟩ := hknown
    exact absurd hmid (hunknown m hm)
  · have hasked : Asked exchange metas s.shared.prices r (lookupPrice s.shared.prices info r) :=
      ⟨info, hinfo, hid, _, hsame, rfl⟩
    refine ⟨hsame, fun l hl => List.mem_append_left _ hl, fun l hl => ?_, fun _ =>
      ⟨_, List.mem_append_right _ List.mem_cons_self, hasked⟩⟩
    rcases List.mem_append.mp hl with hold | hnew
    · exact .inl hold
    · rw [List.mem_singleton.mp hnew]
      exact .inr hasked

theorem Asked.congr {p p' : InMemoryPriceProvider} (h : SameOwn exchange p p') {r : RawOi}
    {l : Lookup} (hl : Asked exchange metas p r l) : Asked exchange metas p' r l := by
  obtain ⟨info, hinfo, hid, p'', hp, rfl⟩ := hl
  exact ⟨info, hinfo, hid, p'', hp.trans h, rfl⟩

/-- The lookups of a tick are those of its known rows, and no other task changes what they
find of the exchange's own quotes. -/
theorem observeRows_lookups {rows : List (List (Meanwhile exchange) × FetchedRow)}
    (h : observeRows A metas bucket recvTs s rows = .ok s') :
    SameOwn exchange s'.shared.prices s.shared.prices ∧ (∀ l ∈ s.lookups, l ∈ s'.lookups) ∧
    (∀ l ∈ s'.lookups, l ∈ s.lookups ∨ ∃ row ∈ rows,
      Asked exchange metas s.shared.prices (row.2.raw bucket recvTs) l) ∧
    (∀ row ∈ rows, (∃ m ∈ metas, m.id = row.2.instrument) →
      ∃ l ∈ s'.lookups, Asked exchange metas s.shared.prices (row.2.raw bucket recvTs) l) := by
  induction rows generalizing s with
  | nil =>
    obtain rfl := Except.ok.inj h
    exact ⟨⟨rfl, fun _ _ => rfl⟩, fun l hl => hl, fun l hl => .inl hl,
      fun row hrow => by cases hrow⟩
  | cons row rest ih =>
    obtain ⟨mid, hrow, htail⟩ := OiSample.bind_eq_ok.mp h
    have hbefore := sameOwn_foldl row.1 s.shared
    obtain ⟨hsame, hkeep, honly, hthere⟩ := observeRow_lookups exchange hrow
    obtain ⟨hsame', hkeep', honly', hthere'⟩ := ih htail
    have hmid := hsame.trans hbefore
    refine ⟨hsame'.trans hmid, fun l hl => hkeep' l (hkeep l hl), fun l hl => ?_,
      fun row' hrow' hknown => ?_⟩
    · rcases honly' l hl with hold | ⟨row', hrow', hasked⟩
      · rcases honly l hold with hfirst | hasked
        · exact .inl hfirst
        · exact .inr ⟨row, List.mem_cons_self, hasked.congr hbefore⟩
      · exact .inr ⟨row', List.mem_cons_of_mem row hrow', hasked.congr hmid⟩
    · rcases List.mem_cons.mp hrow' with heq | hmem
      · subst heq
        obtain ⟨l, hl, hasked⟩ := hthere hknown
        exact ⟨l, hkeep' l hl, hasked.congr hbefore⟩
      · obtain ⟨l, hl, hasked⟩ := hthere' row' hmem hknown
        exact ⟨l, hl, hasked.congr hmid⟩

/-- With a stored quote of the instrument a lookup is native exactly when it is fresh. -/
theorem Asked.native_iff {prices : InMemoryPriceProvider} {r : RawOi} {l : Lookup}
    (h : Asked exchange metas prices r l) (hown : r.instrument.exchange = exchange)
    {price : Decimal} {ts : Int} (hstored : prices.prices.lookup r.instrument = some (price, ts)) :
    l.answer = some (price, .native) ↔ |r.bucketTs - ts| ≤ prices.tolerance := by
  obtain ⟨info, _, _, p, hp, rfl⟩ := h
  show p.priceUsdWithFallback r.instrument info.baseAsset info.quoteAsset r.bucketTs = _ ↔ _
  rw [InMemoryPriceProvider.native_iff, ← hp.tolerance]
  unfold InMemoryPriceProvider.fresh
  rw [hp.own _ hown, hstored]
  simp

/-- The quotes of the tick are in the provider when its rows arrive. -/
theorem beforeRows_lookup {ls : LoopState} {i : TickInput exchange} {fetch : PriceFetch exchange}
    (hfetch : i.prices = some fetch) {id : InstrumentId}
    {q : { q : PriceQuote // q.instrument.exchange = exchange }} (hq : q ∈ quoteOf fetch id) :
    (beforeRows ls i).prices.prices.lookup id = some (q.val.price, q.val.ts) := by
  unfold beforeRows
  rw [hfetch]
  show ((i.before.foldl Shared.meanwhile ls.shared).prices.ingest
    (fetch.quotes.map Subtype.val)).prices.lookup id = _
  have hlast : lastOf (fun q : { q : PriceQuote // q.instrument.exchange = exchange } =>
    q.val.instrument) id fetch.quotes = some q := hq
  rw [InMemoryPriceProvider.ingest_lookup, lastOf_map, hlast]
  rfl

theorem beforeRows_tolerance (ls : LoopState) (i : TickInput exchange) :
    (beforeRows ls i).prices.tolerance = ls.shared.prices.tolerance := by
  have hbefore := (sameOwn_foldl i.before ls.shared).tolerance
  unfold beforeRows
  dsimp only
  split
  · exact (InMemoryPriceProvider.ingest_tolerance _).trans hbefore
  · exact hbefore

/-! ## Whole runs -/

/-- The tolerance and the settle offset that the runner configures. -/
structure Configured (r : Run) : Prop where
  tolerance : r.state.shared.prices.tolerance = minutes 5
  offset : r.state.sched.offset = seconds 2

variable {r r' : Run} {i : TickInput exchange}

theorem configured_step (h : Configured r) (hstep : step A r i = some r') : Configured r' := by
  obtain ⟨state, handed, htick, rfl⟩ := step_eq_some hstep
  have hbefore := (beforeRows_tolerance r.state i).trans h.tolerance
  cases hfetch : i.oi with
  | none =>
    obtain ⟨rfl, _⟩ := tick_fetch_failed hfetch htick
    exact ⟨hbefore, h.offset⟩
  | some fetch =>
    obtain ⟨done, minute, rfl, hrows, shared, rfl, rfl, _⟩ := tick_fetched hfetch htick
    have hdone := (observeRows_lookups hrows).1.tolerance.trans hbefore
    exact ⟨(sameOwn_foldl fetch.after done.shared).tolerance.trans hdone, h.offset⟩

/-- Prices are never fetched before the bucket of the tick begins. -/
theorem bucketOf_le_fetchTime (h : Configured r) (i : TickInput exchange)
    (fetch : PriceFetch exchange) : bucketOf r i ≤ fetchTime r i fetch := by
  have hoffset : 0 ≤ r.state.sched.offset := by
    rw [h.offset]
    decide
  have hreturned : bucketOf r i ≤ i.now + (r.state.sched.next i.now).2.2 :=
    bucketTs_le_returnedAt hoffset
  unfold fetchTime
  omega

/-- A lookup of a row with a quote of this tick is native exactly when prices were fetched
within the tolerance of the bucket. -/
theorem native_iff_inTime (h : Configured r) {fetch : PriceFetch exchange}
    (hfetch : i.prices = some fetch) {row : FetchedRow} {recvTs : Int} {l : Lookup}
    (hasked : Asked exchange r.state.metas (beforeRows r.state i).prices
      (row.raw (bucketOf r i) recvTs) l)
    {q : { q : PriceQuote // q.instrument.exchange = exchange }}
    (hq : q ∈ quoteOf fetch row.instrument) (hts : q.val.ts = fetchTime r i fetch) :
    l.answer = some (q.val.price, .native) ↔ fetchTime r i fetch ≤ bucketOf r i + minutes 5 := by
  have hown : row.instrument.exchange = exchange := by
    rw [← (lastOf_mem hq).2]
    exact q.property
  have hle := bucketOf_le_fetchTime h i fetch
  rw [hasked.native_iff hown (beforeRows_lookup hfetch hq), beforeRows_tolerance, h.tolerance, hts]
  show |bucketOf r i - fetchTime r i fetch| ≤ minutes 5 ↔ _
  rw [abs_le]
  omega

theorem pricedNatively_iff (h : Configured r) (hstep : step A r i = some r') :
    PricedNatively A r i ↔ FetchedInTime r i := by
  constructor
  · intro hnative fetch hfetch oi hoi row hrow hknown q hq hts
    obtain ⟨state, handed, htick, _⟩ := step_eq_some hstep
    obtain ⟨done, minute, rfl, hrows, shared, _, _, rfl⟩ := tick_fetched hoi htick
    obtain ⟨l, hl, hasked⟩ := (observeRows_lookups hrows).2.2.2 row hrow hknown
    obtain ⟨info, _, _, p, _, hlookup⟩ := id hasked
    have hanswer := hnative state _ htick fetch hfetch l hl q (by rw [hlookup]; exact hq) hts
    exact (native_iff_inTime h hfetch hasked hq hts).mp hanswer
  · intro htime state handed htick fetch hfetch l hl q hq hts
    cases hoi : i.oi with
    | none => cases (tick_fetch_failed hoi htick).2
    | some oi =>
      obtain ⟨done, minute, rfl, hrows, shared, _, _, hhanded⟩ := tick_fetched hoi htick
      rw [Option.some.inj hhanded] at hl
      rcases (observeRows_lookups hrows).2.2.1 l hl with hnone | ⟨row, hrow, hasked⟩
      · cases hnone
      obtain ⟨info, hinfo, hid, p, _, hlookup⟩ := id hasked
      have hq' : q ∈ quoteOf fetch row.2.instrument := by
        rw [hlookup] at hq
        exact hq
      exact (native_iff_inTime h hfetch hasked hq' hts).mpr
        (htime fetch hfetch oi hoi row hrow ⟨info, hinfo, hid⟩ q hq' hts)

/-- In a run under the five-minute tolerance the quotes of every tick price its rows exactly
when every tick that needs them fetches within five minutes of its bucket. -/
theorem native_pricing_iff_inTime (A : DecimalArith) (metas : List InstrumentMeta)
    (inputs : List (TickInput exchange)) :
    Along (step A) (PricedNatively A) (start metas (.withTolerance (minutes 5))) inputs ↔
      Along (step A) FetchedInTime (start metas (.withTolerance (minutes 5))) inputs := by
  have hstart : Configured (start metas (.withTolerance (minutes 5))) := ⟨rfl, rfl⟩
  exact ⟨along_of_along (fun _ _ _ h _ hs => configured_step h hs)
      (fun _ _ _ h hok hs => (pricedNatively_iff h hs).mp hok) hstart,
    along_of_along (fun _ _ _ h _ hs => configured_step h hs)
      (fun _ _ _ h hok hs => (pricedNatively_iff h hs).mpr hok) hstart⟩

/-- A tick five minutes behind prices its minute with nothing, although the quote was
fetched in the same tick. -/
theorem overrun_tick_unpriced : ¬ ∀ (A : DecimalArith) (metas : List InstrumentMeta)
    (inputs : List (TickInput .binance)),
    Along (step A) (PricedNatively A) (start metas (.withTolerance (minutes 5))) inputs := by
  intro hall
  let early := sampleTick 0 [seconds 2] [sampleRow 100]
  let late := sampleTick (minutes 7) [minutes 7] [sampleRow 100]
  have hrun : ∃ r ∈ run (step .rounding) (start [sampleMeta] (.withTolerance (minutes 5)))
      [early], (step .rounding r late).isSome = true ∧ r.state.metas = [sampleMeta] ∧
      bucketOf r late = 0 ∧ (∀ fetch ∈ late.prices, fetchTime r late fetch = minutes 7) ∧
      r.state.shared.prices.tolerance = minutes 5 ∧ r.state.sched.offset = seconds 2 := by
    decide
  obtain ⟨r, hrun, hsome, hmetas, hbucket, htime, htolerance, hoffset⟩ := hrun
  obtain ⟨r', hstep⟩ := Option.isSome_iff_exists.mp hsome
  have hnative : PricedNatively .rounding r late :=
    (hall .rounding [sampleMeta] ([early] ++ late :: [])).of_run hrun hstep
  have hinTime : FetchedInTime r late :=
    (pricedNatively_iff ⟨htolerance, hoffset⟩ hstep).mp hnative
  have hle := hinTime _ rfl _ rfl _ List.mem_cons_self ⟨sampleMeta, by rw [hmetas]; decide, rfl⟩
    _ rfl (htime _ rfl).symm
  rw [htime _ rfl, hbucket] at hle
  exact absurd hle (by decide)

end OiTerminal.Collector.LatePricing
