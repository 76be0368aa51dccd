import OiTerminal.Collector.Aggregator
import OiTerminal.Collector.PriceProvider
import OiTerminal.Collector.Scheduler
import OiTerminal.Lib.Transition

/-!
# The collector loop of one exchange

A tick waits for its minute, ingests prices, enriches and observes every fetched row, and
hands the drained bars to the repository. Between its steps the loops of the other
exchanges use the shared price provider, and the WS task of the exchange, if it has one,
observes into the shared aggregator.
-/
namespace OiTerminal.Collector.ExchangeLoop

open OiTerminal.Core
open OiTerminal.Core.Time
open OiTerminal.Collector.PriceProvider
open OiTerminal.Collector.Scheduler
open OiTerminal.Lib.Transition

set_option autoImplicit false

/-- What the loop shares with other tasks. -/
structure Shared where
  prices : InMemoryPriceProvider
  aggregator : OiAggregator

/-- A step of another task. Adapters quote their own exchange only. -/
inductive Meanwhile (exchange : Exchange) where
  | ingest (quotes : List { q : PriceQuote // q.instrument.exchange ≠ exchange })
  | registerInstrument (instrument : InstrumentId) (baseAsset quoteAsset : String)
  | live (sample : OiSample)

variable {exchange : Exchange}

def Shared.meanwhile (s : Shared) : Meanwhile exchange → Shared
  | .ingest quotes => { s with prices := s.prices.ingest (quotes.map Subtype.val) }
  | .registerInstrument instrument base quote =>
    { s with prices := s.prices.registerInstrument instrument base quote }
  | .live sample => { s with aggregator := (s.aggregator.observe sample).1 }

/-- A row of `fetch_oi` without the two instants that the adapter stamps on every row. -/
structure FetchedRow where
  instrument : InstrumentId
  value : Decimal
  unit : UnitKind
  priceHint : Option PriceQuote

def FetchedRow.raw (bucket recvTs : Int) (row : FetchedRow) : RawOi where
  instrument := row.instrument
  value := row.value
  unit := row.unit
  bucketTs := bucket
  recvTs := recvTs
  priceHint := row.priceHint

/-- An answer of `fetch_oi`. Each row comes with what other tasks do before the loop
reaches it, and `after` is what they do between the last row and the flush. -/
structure OiFetch (exchange : Exchange) where
  recvTs : Int
  rows : List (List (Meanwhile exchange) × FetchedRow)
  after : List (Meanwhile exchange)

/-- An answer of `fetch_prices`, made `delay` nanoseconds after the tick began. -/
structure PriceFetch (exchange : Exchange) where
  delay : ℕ
  quotes : List { q : PriceQuote // q.instrument.exchange = exchange }

/-- What the world does in one tick. A fetch that failed is `none`. -/
structure TickInput (exchange : Exchange) where
  now : Int
  before : List (Meanwhile exchange)
  prices : Option (PriceFetch exchange)
  oi : Option (OiFetch exchange)
  /-- The metadata, when this tick rediscovers it. -/
  rediscovered : Option (List InstrumentMeta)

structure LoopState where
  metas : List InstrumentMeta
  sched : MinuteScheduler
  shared : Shared

/-- A price lookup of the loop. -/
structure Lookup where
  row : RawOi
  answer : Option (Decimal × Provenance)

/-- A call of `upsert_snapshots`, with what its tick had fetched and looked up. -/
structure Handed where
  bucket : Int
  metas : List InstrumentMeta
  payload : List RawOi
  lookups : List Lookup
  snaps : List OiSnapshot

/-- What a successful fetch gives a tick to hand over: its minute, the metadata that the loop holds,
and the rows. -/
structure Fetched where
  bucket : Int
  metas : List InstrumentMeta
  payload : List RawOi

def Handed.fetched (h : Handed) : Fetched := ⟨h.bucket, h.metas, h.payload⟩

/-- The loop over the rows: the shared state and the lookups made so far. -/
structure Rows where
  shared : Shared
  lookups : List Lookup

def lookupPrice (prices : InMemoryPriceProvider) (info : InstrumentMeta) (r : RawOi) : Lookup :=
  ⟨r, prices.priceUsdWithFallback r.instrument info.baseAsset info.quoteAsset r.bucketTs⟩

/-- Enrich one row and observe it. Rows of unknown symbols are dropped. -/
def observeRow (A : DecimalArith) (metas : List InstrumentMeta) (s : Rows) (r : RawOi) :
    Except Panic Rows :=
  match metas.find? fun m => m.id = r.instrument with
  | none => .ok s
  | some info => do
    let lookup := lookupPrice s.shared.prices info r
    let lookups := s.lookups ++ [lookup]
    match ← OiSample.enrich A r info (lookup.answer.map Prod.fst) with
    | .ok sample =>
      return ⟨{ s.shared with aggregator := (s.shared.aggregator.observe sample).1 }, lookups⟩
    | .error _ => return ⟨s.shared, lookups⟩

def observeRows (A : DecimalArith) (metas : List InstrumentMeta) (bucket recvTs : Int)
    (s : Rows) (rows : List (List (Meanwhile exchange) × FetchedRow)) : Except Panic Rows :=
  rows.foldlM (fun s row => observeRow A metas
    { s with shared := row.1.foldl Shared.meanwhile s.shared } (row.2.raw bucket recvTs)) s

/-- The shared state when the rows of a tick arrive. -/
def beforeRows (s : LoopState) (i : TickInput exchange) : Shared :=
  let shared := i.before.foldl Shared.meanwhile s.shared
  match i.prices with
  | some fetch => { shared with prices := shared.prices.ingest (fetch.quotes.map Subtype.val) }
  | none => shared

/-- One iteration of the loop. -/
def tick (A : DecimalArith) (s : LoopState) (i : TickInput exchange) :
    Except Panic (LoopState × Option Handed) :=
  let (sched, minute, _) := s.sched.next i.now
  match i.oi with
  | none => .ok ({ s with sched, shared := beforeRows s i }, none)
  | some fetch => do
    let done ← observeRows A s.metas minute.bucketTs fetch.recvTs ⟨beforeRows s i, []⟩ fetch.rows
    let shared := fetch.after.foldl Shared.meanwhile done.shared
    let (snaps, aggregator) := shared.aggregator.flushThrough minute.bucketTs
    let handed : Handed := {
      bucket := minute.bucketTs
      metas := s.metas
      payload := fetch.rows.map fun row => row.2.raw minute.bucketTs fetch.recvTs
      lookups := done.lookups
      snaps }
    return ({ metas := i.rediscovered.getD s.metas, sched, shared := { shared with aggregator } },
      some handed)

/-- A run of the loop, with the calls of `upsert_snapshots` so far. -/
structure Run where
  state : LoopState
  handed : List Handed

/-- A panic ends the process. -/
def step (A : DecimalArith) (r : Run) (i : TickInput exchange) : Option Run :=
  match tick A r.state i with
  | .error _ => none
  | .ok (state, handed) => some ⟨state, r.handed ++ handed.toList⟩

/-- The loop after discovery, with a new aggregator and whatever the provider holds. -/
def start (metas : List InstrumentMeta) (prices : InMemoryPriceProvider) : Run where
  state := ⟨metas, .new (seconds 2), ⟨prices, .new⟩⟩
  handed := []

/-- The successful fetches of a run, told from what the ticks meet alone. Metadata change only after
a fetch that succeeded. -/
def fetches (metas : List InstrumentMeta) (sched : MinuteScheduler) :
    List (TickInput exchange) → List Fetched
  | [] => []
  | i :: rest =>
    let (next, minute, _) := sched.next i.now
    match i.oi with
    | none => fetches metas next rest
    | some fetch =>
      ⟨minute.bucketTs, metas, fetch.rows.map fun row => row.2.raw minute.bucketTs fetch.recvTs⟩ ::
        fetches (i.rediscovered.getD metas) next rest

/-! Values for runs on fixed inputs. -/

def sampleMeta : InstrumentMeta where
  id := ⟨.binance, "BTCUSDT"⟩
  baseAsset := "BTC"
  quoteAsset := "USDT"
  isPerpetual := true
  nativeUnit := .coins
  contractMultiplier := none
  priceTick := none
  qtyStep := none
  active := true

def sampleRow (coins : Nat) (h : coins < 2 ^ 96 := by decide) : FetchedRow where
  instrument := ⟨.binance, "BTCUSDT"⟩
  value := .ofNat coins h
  unit := .coins
  priceHint := none

/-- A tick that no other task interrupts, with quotes stamped `quotedAt`. -/
def sampleTick (now : Int) (quotedAt : List Int) (rows : List FetchedRow) :
    TickInput .binance where
  now := now
  before := []
  prices := some ⟨0, quotedAt.map fun ts =>
    ⟨⟨⟨.binance, "BTCUSDT"⟩, .ofNat 65000 (by decide), .mark, ts⟩, rfl⟩⟩
  oi := some ⟨now, rows.map fun row => ([], row), []⟩
  rediscovered := none

/-! ## What the steps do -/

variable {A : DecimalArith} {metas : List InstrumentMeta} {bucket recvTs : Int} {s s' : Rows}
  {r : RawOi}

/-- A row is dropped, or looked up and observed as a sample of its own instants. -/
theorem observeRow_cases (h : observeRow A metas s r = .ok s') :
    ((∀ m ∈ metas, m.id ≠ r.instrument) ∧ s' = s) ∨
    ∃ info ∈ metas, info.id = r.instrument ∧ ∃ sample : OiSample,
      sample.instrument = r.instrument ∧ sample.bucketTs = r.bucketTs ∧
      sample.recvTs = r.recvTs ∧
      s' = ⟨{ s.shared with aggregator := (s.shared.aggregator.observe sample).1 },
        s.lookups ++ [lookupPrice s.shared.prices info r]⟩ := by
  unfold observeRow at h
  split at h
  · rename_i hnone
    refine .inl ⟨fun m hm => ?_, (Except.ok.inj h).symm⟩
    simpa using List.find?_eq_none.mp hnone m hm
  · rename_i info hsome
    have hid : info.id = r.instrument := by simpa using List.find?_some hsome
    refine .inr ⟨info, List.mem_of_find?_eq_some hsome, hid, ?_⟩
    obtain ⟨result, henrich, hrest⟩ := OiSample.bind_eq_ok.mp h
    obtain ⟨sample, rfl, hi, hb, hr⟩ := OiSample.enrich_eq_ok hid.symm henrich
    exact ⟨sample, hi, hb, hr, (Except.ok.inj hrest).symm⟩

variable {ls ls' : LoopState} {i : TickInput exchange} {handed : Option Handed}

/-- A tick whose fetch failed hands nothing over, and neither drains the aggregator nor
rediscovers. -/
theorem tick_fetch_failed (hfetch : i.oi = none) (h : tick A ls i = .ok (ls', handed)) :
    ls' = ⟨ls.metas, (ls.sched.next i.now).1, beforeRows ls i⟩ ∧ handed = none := by
  unfold tick at h
  rw [hfetch] at h
  obtain ⟨hstate, hhanded⟩ := Prod.mk.inj (Except.ok.inj h)
  exact ⟨hstate.symm, hhanded.symm⟩

/-- A tick that fetched hands over what the flush through its minute drains. -/
theorem tick_fetched {fetch : OiFetch exchange} (hfetch : i.oi = some fetch)
    (h : tick A ls i = .ok (ls', handed)) :
    ∃ (done : Rows) (minute : MinuteTick), minute = (ls.sched.next i.now).2.1 ∧
      observeRows A ls.metas minute.bucketTs fetch.recvTs ⟨beforeRows ls i, []⟩ fetch.rows =
        .ok done ∧
      ∃ shared : Shared, shared = fetch.after.foldl Shared.meanwhile done.shared ∧
      ls' = ⟨i.rediscovered.getD ls.metas, (ls.sched.next i.now).1,
        { shared with aggregator := (shared.aggregator.flushThrough minute.bucketTs).2 }⟩ ∧
      handed = some {
        bucket := minute.bucketTs
        metas := ls.metas
        payload := fetch.rows.map fun row => row.2.raw minute.bucketTs fetch.recvTs
        lookups := done.lookups
        snaps := (shared.aggregator.flushThrough minute.bucketTs).1 } := by
  unfold tick at h
  rw [hfetch] at h
  obtain ⟨done, hdone, hrest⟩ := OiSample.bind_eq_ok.mp h
  obtain ⟨hstate, hhanded⟩ := Prod.mk.inj (Except.ok.inj hrest)
  exact ⟨done, _, rfl, hdone, _, rfl, hstate.symm, hhanded.symm⟩

/-- A step is a tick that did not panic. -/
theorem step_eq_some {run run' : Run} (h : step A run i = some run') :
    ∃ state handed, tick A run.state i = .ok (state, handed) ∧
      run' = ⟨state, run.handed ++ handed.toList⟩ := by
  unfold step at h
  split at h
  · cases h
  · rename_i state handed htick
    exact ⟨state, handed, htick, (Option.some.inj h).symm⟩

/-- A step hands over one batch for a fetch that succeeded, and none for one that failed. -/
theorem step_fetches {run run' : Run} (h : step A run i = some run')
    (rest : List (TickInput exchange)) :
    run'.handed.map Handed.fetched ++ fetches run'.state.metas run'.state.sched rest =
      run.handed.map Handed.fetched ++ fetches run.state.metas run.state.sched (i :: rest) := by
  obtain ⟨state, handed, htick, rfl⟩ := step_eq_some h
  cases hfetch : i.oi with
  | none =>
    obtain ⟨rfl, rfl⟩ := tick_fetch_failed hfetch htick
    simp only [fetches, hfetch, Option.toList_none, List.append_nil]
  | some fetch =>
    obtain ⟨done, minute, rfl, -, shared, -, rfl, rfl⟩ := tick_fetched hfetch htick
    simp only [fetches, hfetch, Option.toList_some, List.map_append, List.append_assoc]
    rfl

/-- A run has handed over one batch for each successful fetch, in order and of its minute, its
metadata and its rows. By induction on the ticks. -/
theorem run_fetches {r r' : Run} {inputs : List (TickInput exchange)}
    (h : run (step A) r inputs = some r') :
    r'.handed.map Handed.fetched =
      r.handed.map Handed.fetched ++ fetches r.state.metas r.state.sched inputs := by
  induction inputs generalizing r with
  | nil =>
    obtain rfl := Option.some.inj h
    exact (List.append_nil _).symm
  | cons i rest ih =>
    obtain ⟨mid, hstep, hrest⟩ := run_cons_eq_some.mp h
    rw [ih hrest, step_fetches hstep]

end OiTerminal.Collector.ExchangeLoop
