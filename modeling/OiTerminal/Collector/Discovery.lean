import OiTerminal.Collector.ExchangeLoop

/-!
# The universe of a loop and what is derived from it

At its start the loop registers the active instruments in the fallback index and publishes their
ids. A refresh replaces the metadata and publishes the new ids, and leaves the index alone.
-/
namespace OiTerminal.Collector.Discovery

open OiTerminal.Core
open OiTerminal.Core.Time
open OiTerminal.Collector.ExchangeLoop
open OiTerminal.Collector.PriceProvider
open OiTerminal.Lib.Transition

set_option autoImplicit false

variable {exchange : Exchange}

def active (metas : List InstrumentMeta) : List InstrumentMeta := metas.filter fun m => m.active

def activeIds (metas : List InstrumentMeta) : List InstrumentId :=
  (active metas).map InstrumentMeta.id

/-- The loop, and the list that it publishes to the sweep. -/
structure Tracking where
  run : Run
  symbolList : List InstrumentId

def registerActive (prices : InMemoryPriceProvider) (metas : List InstrumentMeta) :
    InMemoryPriceProvider :=
  (active metas).foldl (fun p m => p.registerInstrument m.id m.baseAsset m.quoteAsset) prices

/-- The loop after the first discovery. -/
def startup (prices : InMemoryPriceProvider) (metas : List InstrumentMeta) : Tracking :=
  ⟨ExchangeLoop.start metas (registerActive prices metas), activeIds metas⟩

/-- The metadata that the tick takes over. A tick without open interest does not come to it. -/
def refreshed (i : TickInput exchange) : Option (List InstrumentMeta) :=
  i.oi.bind fun _ => i.rediscovered

def step (A : DecimalArith) (s : Tracking) (i : TickInput exchange) : Option Tracking :=
  (ExchangeLoop.step A s.run i).map fun run =>
    ⟨run, (refreshed i).elim s.symbolList activeIds⟩

/-- The instrument is in the index under the base. -/
def Indexed (p : InMemoryPriceProvider) (id : InstrumentId) (base : String) : Prop :=
  ∃ e ∈ (p.byBase.lookup base).getD [], e.id = id

instance (p : InMemoryPriceProvider) (id : InstrumentId) (base : String) :
    Decidable (Indexed p id base) :=
  inferInstanceAs (Decidable (∃ e ∈ (p.byBase.lookup base).getD [], e.id = id))

def prices (s : Tracking) : InMemoryPriceProvider := s.run.state.shared.prices

/-- Every active instrument can donate its price, and the published list is that of the active
ones. -/
structure Tracked (s : Tracking) : Prop where
  indexed : ∀ m ∈ active s.run.state.metas, Indexed (prices s) m.id (canonicalBase m.baseAsset)
  listed : s.symbolList = activeIds s.run.state.metas

/-- Another task registers the instrument under the base. -/
def Registers (id : InstrumentId) (base : String) : Meanwhile exchange → Prop
  | .registerInstrument instrument baseAsset _ =>
    instrument = id ∧ canonicalBase baseAsset = base
  | _ => False

/-- All that other tasks do in the course of a tick. -/
def meanwhile (i : TickInput exchange) : List (Meanwhile exchange) :=
  i.before ++ i.oi.elim [] fun fetch => fetch.rows.flatMap Prod.fst ++ fetch.after

/-- Each active instrument of a refresh is in the index already, or another task adds it. -/
def Known (s : Tracking) (i : TickInput exchange) : Prop :=
  ∀ metas ∈ refreshed i, ∀ m ∈ active metas,
    Indexed (prices s) m.id (canonicalBase m.baseAsset) ∨
      ∃ other ∈ meanwhile i, Registers m.id (canonicalBase m.baseAsset) other

/-! ## The index in the course of a tick -/

variable {p : InMemoryPriceProvider} {id : InstrumentId} {base : String} {shared : Shared}

theorem indexed_registerInstrument (instrument : InstrumentId) (baseAsset quoteAsset : String) :
    Indexed (p.registerInstrument instrument baseAsset quoteAsset) id base ↔
      Indexed p id base ∨ instrument = id ∧ canonicalBase baseAsset = base := by
  unfold Indexed
  rw [InMemoryPriceProvider.lookup_registerInstrument]
  by_cases hbase : canonicalBase baseAsset = base
  · rw [if_pos hbase, and_iff_left hbase]
    dsimp only
    rw [Option.getD_some]
    by_cases hany : (((p.byBase.lookup base).getD []).any fun e => e.id = instrument) = true
    · rw [if_pos hany]
      refine (or_iff_left_of_imp fun hid => ?_).symm
      obtain ⟨e, he, heq⟩ := List.any_eq_true.mp hany
      exact ⟨e, he, (of_decide_eq_true heq).trans hid⟩
    · rw [if_neg hany]
      simp [or_and_right, exists_or]
  · rw [if_neg hbase]
    simp [hbase]

theorem indexed_meanwhile (other : Meanwhile exchange) :
    Indexed (shared.meanwhile other).prices id base ↔
      Indexed shared.prices id base ∨ Registers id base other := by
  cases other with
  | ingest quotes =>
    have hsame : (shared.meanwhile (Meanwhile.ingest quotes)).prices.byBase =
        shared.prices.byBase := InMemoryPriceProvider.ingest_byBase _
    unfold Indexed Registers
    rw [hsame, or_false]
  | registerInstrument instrument baseAsset quoteAsset =>
    exact indexed_registerInstrument instrument baseAsset quoteAsset
  | live sample => exact (or_iff_left not_false).symm

theorem indexed_foldl (others : List (Meanwhile exchange)) (shared : Shared) :
    Indexed (others.foldl Shared.meanwhile shared).prices id base ↔
      Indexed shared.prices id base ∨ ∃ other ∈ others, Registers id base other := by
  induction others generalizing shared with
  | nil => simp
  | cons other rest ih =>
    rw [List.foldl_cons, ih, indexed_meanwhile, or_assoc]
    simp

variable {A : DecimalArith} {metas : List InstrumentMeta} {bucket recvTs : Int} {rs rs' : Rows}

theorem prices_observeRow {r : RawOi} (h : observeRow A metas rs r = .ok rs') :
    rs'.shared.prices = rs.shared.prices := by
  rcases observeRow_cases h with ⟨-, rfl⟩ | ⟨info, -, -, sample, -, -, -, rfl⟩ <;> rfl

theorem indexed_observeRows {rows : List (List (Meanwhile exchange) × FetchedRow)}
    (h : observeRows A metas bucket recvTs rs rows = .ok rs') :
    Indexed rs'.shared.prices id base ↔
      Indexed rs.shared.prices id base ∨
        ∃ other ∈ rows.flatMap Prod.fst, Registers id base other := by
  induction rows generalizing rs with
  | nil =>
    obtain rfl := Except.ok.inj h
    simp
  | cons row rest ih =>
    obtain ⟨mid, hrow, hrest⟩ := OiSample.bind_eq_ok.mp h
    rw [ih hrest, prices_observeRow hrow, indexed_foldl, or_assoc, List.flatMap_cons]
    refine or_congr_right ?_
    simp only [List.mem_append, or_and_right, exists_or]

theorem indexed_beforeRows (ls : LoopState) (i : TickInput exchange) :
    Indexed (beforeRows ls i).prices id base ↔
      Indexed ls.shared.prices id base ∨ ∃ other ∈ i.before, Registers id base other := by
  rw [← indexed_foldl]
  unfold beforeRows
  cases i.prices with
  | none => rfl
  | some fetch =>
    unfold Indexed
    dsimp only
    rw [InMemoryPriceProvider.ingest_byBase]

/-- In a tick only other tasks add to the index. -/
theorem indexed_tick {ls ls' : LoopState} {i : TickInput exchange} {handed : Option Handed}
    (h : tick A ls i = .ok (ls', handed)) :
    Indexed ls'.shared.prices id base ↔
      Indexed ls.shared.prices id base ∨ ∃ other ∈ meanwhile i, Registers id base other := by
  unfold meanwhile
  cases hfetch : i.oi with
  | none =>
    obtain ⟨rfl, -⟩ := tick_fetch_failed hfetch h
    rw [Option.elim_none, List.append_nil]
    exact indexed_beforeRows ls i
  | some fetch =>
    obtain ⟨done, minute, -, hdone, shared, rfl, rfl, -⟩ := tick_fetched hfetch h
    show Indexed (fetch.after.foldl Shared.meanwhile done.shared).prices id base ↔ _
    rw [indexed_foldl, indexed_observeRows hdone, indexed_beforeRows, or_assoc, or_assoc]
    refine or_congr_right ?_
    simp only [Option.elim_some, List.mem_append, or_and_right, exists_or]

/-- The metadata after a tick are those of the refresh, if there was one. -/
theorem metas_tick {ls ls' : LoopState} {i : TickInput exchange} {handed : Option Handed}
    (h : tick A ls i = .ok (ls', handed)) : ls'.metas = (refreshed i).getD ls.metas := by
  unfold refreshed
  cases hfetch : i.oi with
  | none =>
    obtain ⟨rfl, -⟩ := tick_fetch_failed hfetch h
    rfl
  | some fetch =>
    obtain ⟨done, minute, -, -, shared, -, rfl, -⟩ := tick_fetched hfetch h
    rfl

/-! ## What holds between the ticks -/

theorem indexed_register (ms : List InstrumentMeta) (p : InMemoryPriceProvider) :
    Indexed (ms.foldl (fun p m => p.registerInstrument m.id m.baseAsset m.quoteAsset) p) id base ↔
      Indexed p id base ∨ ∃ m ∈ ms, m.id = id ∧ canonicalBase m.baseAsset = base := by
  induction ms generalizing p with
  | nil => simp
  | cons m rest ih =>
    rw [List.foldl_cons, ih, indexed_registerInstrument, or_assoc]
    simp

theorem tracked_startup (p : InMemoryPriceProvider) (metas : List InstrumentMeta) :
    Tracked (startup p metas) where
  indexed m hm := (indexed_register (active metas) p).mpr (.inr ⟨m, hm, rfl, rfl⟩)
  listed := rfl

/-- A step of the loop, and the ids that it publishes. -/
theorem step_cases {s s' : Tracking} {i : TickInput exchange} (h : step A s i = some s') :
    ∃ state handed, tick A s.run.state i = .ok (state, handed) ∧ s'.run.state = state ∧
      s'.symbolList = (refreshed i).elim s.symbolList activeIds := by
  obtain ⟨run, hrun, rfl⟩ := Option.map_eq_some_iff.mp h
  obtain ⟨state, handed, htick, rfl⟩ := step_eq_some hrun
  exact ⟨state, handed, htick, rfl, rfl⟩

theorem tracked_step {s s' : Tracking} {i : TickInput exchange} (h : Tracked s)
    (hknown : Known s i) (hstep : step A s i = some s') : Tracked s' := by
  obtain ⟨state, handed, htick, rfl, hlist⟩ := step_cases hstep
  have hmetas := metas_tick htick
  cases hrefreshed : refreshed i with
  | none =>
    rw [hrefreshed, Option.getD_none] at hmetas
    rw [hrefreshed, Option.elim_none] at hlist
    refine ⟨fun m hm => ?_, by rw [hlist, hmetas, h.listed]⟩
    rw [hmetas] at hm
    exact (indexed_tick htick).mpr (.inl (h.indexed m hm))
  | some metas =>
    rw [hrefreshed, Option.getD_some] at hmetas
    rw [hrefreshed, Option.elim_some] at hlist
    refine ⟨fun m hm => ?_, by rw [hlist, hmetas]⟩
    rw [hmetas] at hm
    exact (indexed_tick htick).mpr (hknown metas hrefreshed m hm)

/-- A refresh with an instrument that is in nobody's index leaves it without one. -/
theorem known_of_tracked {s s' : Tracking} {i : TickInput exchange}
    (hstep : step A s i = some s') (h : Tracked s') : Known s i := by
  obtain ⟨state, handed, htick, rfl, -⟩ := step_cases hstep
  intro metas hrefreshed m hm
  have hmetas := metas_tick htick
  rw [show refreshed i = some metas from hrefreshed, Option.getD_some] at hmetas
  refine (indexed_tick htick).mp (h.indexed m ?_)
  rwa [hmetas]

/-- In every run, each active instrument is in the fallback index between the ticks, and the
published list is that of the active instruments, exactly if every refresh brings only active
instruments that are in the index already or that another task adds in the same tick. -/
theorem tracked_throughout_iff (A : DecimalArith) (p : InMemoryPriceProvider)
    (metas : List InstrumentMeta) (inputs : List (TickInput exchange)) :
    Throughout (step A) Tracked (startup p metas) inputs ↔
      Along (step A) Known (startup p metas) inputs :=
  throughout_iff_along (fun _ _ _ h hknown hstep => tracked_step h hknown hstep) (fun _ h => h)
    (fun _ _ _ _ hstep h => known_of_tracked hstep h) (tracked_startup p metas)

def newListing : InstrumentMeta :=
  { sampleMeta with id := ⟨.binance, "NEWUSDT"⟩, baseAsset := "NEW" }

def refreshTick (metas : List InstrumentMeta) : TickInput .binance :=
  { sampleTick 0 [] [] with rediscovered := some metas }

/-- The venue lists an instrument after the start of the loop. -/
theorem new_listing_not_indexed : ¬ ∀ (A : DecimalArith) (p : InMemoryPriceProvider)
    (metas : List InstrumentMeta) (inputs : List (TickInput .binance)),
    Throughout (step A) Tracked (startup p metas) inputs := by
  intro hall
  have hthroughout := hall .rounding (.withTolerance (minutes 5)) [sampleMeta]
    [refreshTick [sampleMeta, newListing]]
  obtain ⟨s, hstep⟩ : ∃ s, step .rounding (startup (.withTolerance (minutes 5)) [sampleMeta])
      (refreshTick [sampleMeta, newListing]) = some s := ⟨_, rfl⟩
  have hknown := known_of_tracked hstep (hthroughout.2 s hstep)
  rcases hknown [sampleMeta, newListing] rfl newListing (by decide) with hindexed | hothers
  · exact absurd hindexed (by decide +kernel)
  · obtain ⟨other, hother, -⟩ := hothers
    exact absurd hother List.not_mem_nil

end OiTerminal.Collector.Discovery
