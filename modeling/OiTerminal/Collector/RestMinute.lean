import OiTerminal.Collector.ExchangeLoop

/-!
# The minutes of a venue without WS push

Only the loop observes, so an aggregator that was empty before a tick holds one bar of one
sample for each known instrument of the payload, and the flush takes them all.
-/
namespace OiTerminal.Collector.RestMinute

open OiTerminal.Core
open OiTerminal.Core.Time
open OiTerminal.Collector.ExchangeLoop
open OiTerminal.Collector.Scheduler
open OiTerminal.Lib.Transition

set_option autoImplicit false

variable {exchange : Exchange}

def isLive : Meanwhile exchange → Bool
  | .live _ => true
  | _ => false

/-- What other tasks do in the course of a tick. -/
def meanwhiles (i : TickInput exchange) : List (Meanwhile exchange) :=
  i.before ++ (i.oi.map fun fetch => fetch.rows.flatMap Prod.fst ++ fetch.after).getD []

/-- No WS task observes into the aggregator. -/
def RestOnly (i : TickInput exchange) : Prop := ∀ m ∈ meanwhiles i, isLive m = false

instance (i : TickInput exchange) : Decidable (RestOnly i) :=
  inferInstanceAs (Decidable (∀ m ∈ meanwhiles i, isLive m = false))

/-- Open, high, low and close agree on every axis. -/
structure Flat (bar : OiSnapshot) : Prop where
  native : bar.nativeHigh = bar.nativeOpen ∧ bar.nativeLow = bar.nativeOpen ∧
    bar.nativeClose = bar.nativeOpen
  coins : bar.oiCoinsHigh = bar.oiCoinsOpen ∧ bar.oiCoinsLow = bar.oiCoinsOpen ∧
    bar.oiCoinsClose = bar.oiCoinsOpen
  usd : bar.oiUsdHigh = bar.oiUsdOpen ∧ bar.oiUsdLow = bar.oiUsdOpen ∧
    bar.oiUsdClose = bar.oiUsdOpen

/-- The batch has one flat bar of the bucket for each known instrument of its payload. -/
structure Degenerate (h : Handed) : Prop where
  once : (h.snaps.map OiSnapshot.instrument).Nodup
  known : ∀ id, id ∈ h.snaps.map OiSnapshot.instrument ↔
    (∃ r ∈ h.payload, r.instrument = id) ∧ ∃ m ∈ h.metas, m.id = id
  bucket : ∀ bar ∈ h.snaps, bar.bucketTs = h.bucket
  samples : ∀ bar ∈ h.snaps, bar.samples = 1
  flat : ∀ bar ∈ h.snaps, Flat bar

def rowKey (bar : OiSnapshot) : InstrumentId × Int := (bar.instrument, bar.bucketTs)

/-- The aggregator is empty between ticks. Each tick whose fetch succeeded has handed over one
batch, with its bucket and for its rows and metadata, and nothing else was handed over. Every batch
is degenerate, and no row is handed over twice. -/
structure WrittenOnce (metas : List InstrumentMeta) (inputs : List (TickInput exchange))
    (r : Run) : Prop where
  emptied : ∀ id, r.state.shared.aggregator.current id = none
  handed : r.handed.map Handed.fetched = fetches metas (.new (seconds 2)) inputs
  degenerate : ∀ h ∈ r.handed, Degenerate h
  once : ((r.handed.flatMap Handed.snaps).map rowKey).Nodup

theorem flat_startFromSample (s : OiSample) : Flat (.startFromSample s) :=
  ⟨⟨rfl, rfl, rfl⟩, ⟨rfl, rfl, rfl⟩, ⟨rfl, rfl, rfl⟩⟩

/-! ## Filling the aggregator -/

/-- The aggregator holds a bar of one sample of this fetch for each of the instruments. -/
structure Filled (bucket recvTs : Int) (ids : InstrumentId → Prop) (agg : OiAggregator) :
    Prop where
  present : ∀ id, ids id ↔ ∃ bar, agg.current id = some bar
  single : ∀ id bar, agg.current id = some bar → ∃ s : OiSample, bar = .startFromSample s ∧
    s.instrument = id ∧ s.bucketTs = bucket ∧ s.recvTs = recvTs

variable {bucket recvTs : Int} {ids : InstrumentId → Prop} {agg : OiAggregator}
  {sample : OiSample}

theorem filled_empty (h : ∀ id, agg.current id = none) :
    Filled bucket recvTs (fun _ => False) agg where
  present id := by simp [h id]
  single id bar hcur := by simp [h id] at hcur

/-- A sample of an instrument that has no bar starts one, and any other is skipped because
its receive time is that of the bar. -/
theorem Filled.observe (h : Filled bucket recvTs ids agg) (hb : sample.bucketTs = bucket)
    (hr : sample.recvTs = recvTs) :
    Filled bucket recvTs (fun id => ids id ∨ id = sample.instrument) (agg.observe sample).1 := by
  have hself : ∃ s : OiSample,
      (agg.observe sample).1.current sample.instrument = some (.startFromSample s) ∧
      s.instrument = sample.instrument ∧ s.bucketTs = bucket ∧ s.recvTs = recvTs := by
    cases hcur : agg.current sample.instrument with
    | none =>
      rw [OiAggregator.observe_vacant hcur]
      exact ⟨sample, OiAggregator.current_put _ _ _, rfl, hb, hr⟩
    | some bar =>
      obtain ⟨s, rfl, hsi, hsb, hsr⟩ := h.single _ bar hcur
      rw [OiAggregator.observe_repeat hcur (hsb.trans hb.symm) rfl (hsr.trans hr.symm)]
      exact ⟨s, OiAggregator.current_put _ _ _, hsi, hsb, hsr⟩
  obtain ⟨s, hcur, hsi, hsb, hsr⟩ := hself
  constructor
  · intro id
    by_cases hid : id = sample.instrument
    · subst hid
      exact iff_of_true (.inr rfl) ⟨_, hcur⟩
    · rw [OiAggregator.observe_current_ne hid, ← h.present id]
      exact or_iff_left hid
  · intro id bar hbar
    by_cases hid : id = sample.instrument
    · subst hid
      obtain rfl := Option.some.inj (hcur.symm.trans hbar)
      exact ⟨s, rfl, hsi, hsb, hsr⟩
    · rw [OiAggregator.observe_current_ne hid] at hbar
      exact h.single id bar hbar

theorem Filled.congr {ids' : InstrumentId → Prop} (h : Filled bucket recvTs ids agg)
    (hids : ∀ id, ids' id ↔ ids id) : Filled bucket recvTs ids' agg where
  present id := (hids id).trans (h.present id)
  single := h.single

/-- The loops of other exchanges do not touch the aggregator. -/
theorem aggregator_meanwhile {ms : List (Meanwhile exchange)}
    (h : ∀ m ∈ ms, isLive m = false) (shared : Shared) :
    (ms.foldl Shared.meanwhile shared).aggregator = shared.aggregator := by
  induction ms generalizing shared with
  | nil => rfl
  | cons m rest ih =>
    show (rest.foldl Shared.meanwhile (shared.meanwhile m)).aggregator = shared.aggregator
    rw [ih fun m' hm' => h m' (List.mem_cons_of_mem m hm')]
    have hm := h m List.mem_cons_self
    cases m with
    | ingest quotes => rfl
    | registerInstrument id base quote => rfl
    | live s => cases hm

/-- The instruments of the rows that have metadata. -/
def Known (metas : List InstrumentMeta) (rows : List RawOi) (id : InstrumentId) : Prop :=
  (∃ r ∈ rows, r.instrument = id) ∧ ∃ m ∈ metas, m.id = id

variable {A : DecimalArith} {metas : List InstrumentMeta} {r : RawOi} {rows : List RawOi}
  {id : InstrumentId}

theorem known_cons_of_unknown (h : ∀ m ∈ metas, m.id ≠ r.instrument) :
    Known metas (r :: rows) id ↔ Known metas rows id := by
  refine ⟨fun ⟨⟨r', hr', hid⟩, m, hm, hmid⟩ => ⟨⟨r', ?_, hid⟩, m, hm, hmid⟩,
    fun ⟨⟨r', hr', hid⟩, hmeta⟩ => ⟨⟨r', List.mem_cons_of_mem r hr', hid⟩, hmeta⟩⟩
  rcases List.mem_cons.mp hr' with heq | hmem
  · subst heq
    exact absurd (hmid.trans hid.symm) (h m hm)
  · exact hmem

theorem known_cons_of_known {info : InstrumentMeta} (hinfo : info ∈ metas)
    (hid : info.id = r.instrument) :
    Known metas (r :: rows) id ↔ id = r.instrument ∨ Known metas rows id := by
  constructor
  · intro hknown
    obtain ⟨⟨r', hr', hr'id⟩, hmeta⟩ := hknown
    rcases List.mem_cons.mp hr' with heq | hmem
    · exact .inl (heq ▸ hr'id.symm)
    · exact .inr ⟨⟨r', hmem, hr'id⟩, hmeta⟩
  · intro h
    rcases h with heq | ⟨⟨r', hr', hr'id⟩, hmeta⟩
    · exact ⟨⟨r, List.mem_cons_self, heq.symm⟩, info, hinfo, hid.trans heq.symm⟩
    · exact ⟨⟨r', List.mem_cons_of_mem r hr', hr'id⟩, hmeta⟩

/-- By induction on the rows: each one adds its instrument or changes nothing. -/
theorem filled_observeRows {fetched : List (List (Meanwhile exchange) × FetchedRow)}
    {s s' : Rows} (hrest : ∀ row ∈ fetched, ∀ m ∈ row.1, isLive m = false)
    (h : Filled bucket recvTs ids s.shared.aggregator)
    (hrows : observeRows A metas bucket recvTs s fetched = .ok s') :
    Filled bucket recvTs
      (fun id => ids id ∨ Known metas (fetched.map fun row => row.2.raw bucket recvTs) id)
      s'.shared.aggregator := by
  induction fetched generalizing s ids with
  | nil =>
    obtain rfl := Except.ok.inj hrows
    exact h.congr fun id => by simp [Known]
  | cons row rest ih =>
    obtain ⟨mid, hrow, htail⟩ := OiSample.bind_eq_ok.mp hrows
    rw [← aggregator_meanwhile (hrest row List.mem_cons_self) s.shared] at h
    have hrest' : ∀ row' ∈ rest, ∀ m ∈ row'.1, isLive m = false := fun row' hmem =>
      hrest row' (List.mem_cons_of_mem row hmem)
    rcases observeRow_cases hrow with ⟨hunknown, rfl⟩ | ⟨info, hinfo, hid, sample, hi, hb, hr, rfl⟩
    · refine (ih hrest' h htail).congr fun id => ?_
      rw [List.map_cons, known_cons_of_unknown hunknown]
    · refine (ih hrest' (h.observe hb hr) htail).congr fun id => ?_
      rw [List.map_cons, known_cons_of_known hinfo hid, hi, or_assoc]

/-! ## Draining it -/

theorem Filled.filed (h : Filled bucket recvTs ids agg) : agg.Filed := by
  intro id bar hcur
  obtain ⟨s, rfl, hi, _⟩ := h.single id bar hcur
  exact hi

theorem Filled.mem_keysThrough (h : Filled bucket recvTs ids agg) :
    id ∈ agg.keysThrough bucket ↔ ids id := by
  rw [OiAggregator.mem_keysThrough, h.present id]
  refine exists_congr fun bar => and_iff_left_of_imp fun hcur => ?_
  obtain ⟨s, rfl, _, hb, _⟩ := h.single id bar hcur
  exact hb.le

theorem Filled.emptied (h : Filled bucket recvTs ids agg) (id : InstrumentId) :
    (agg.flushThrough bucket).2.current id = none := by
  unfold OiAggregator.flushThrough
  rw [OiAggregator.current_drain]
  split
  · rfl
  · rename_i hid
    cases hcur : agg.current id with
    | none => rfl
    | some bar => exact absurd (h.mem_keysThrough.mpr ((h.present id).mpr ⟨bar, hcur⟩)) hid

theorem Filled.mem_flush (h : Filled bucket recvTs ids agg) {bar : OiSnapshot} :
    bar ∈ (agg.flushThrough bucket).1 ↔ ∃ id, agg.current id = some bar := by
  rw [OiAggregator.mem_flushThrough]
  refine exists_congr fun id => and_iff_left_of_imp fun hcur => ?_
  obtain ⟨s, rfl, _, hb, _⟩ := h.single id bar hcur
  exact hb.le

theorem Filled.degenerate {h : Handed} (hf : Filled h.bucket recvTs (Known h.metas h.payload) agg)
    (hsnaps : h.snaps = (agg.flushThrough h.bucket).1) : Degenerate h := by
  have hone : ∀ bar ∈ h.snaps, ∃ s : OiSample, bar = .startFromSample s ∧
      s.bucketTs = h.bucket := by
    intro bar hbar
    rw [hsnaps] at hbar
    obtain ⟨id, hcur⟩ := hf.mem_flush.mp hbar
    obtain ⟨s, hs, _, hb, _⟩ := hf.single id bar hcur
    exact ⟨s, hs, hb⟩
  constructor
  · rw [hsnaps]
    exact (OiAggregator.drain_instruments hf.filed _).nodup
      (OiAggregator.keysThrough_nodup agg h.bucket)
  · intro id
    show _ ↔ Known h.metas h.payload id
    rw [hf.present id, hsnaps, List.mem_map]
    constructor
    · intro hmem
      obtain ⟨bar, hbar, hid⟩ := hmem
      obtain ⟨id', hcur⟩ := hf.mem_flush.mp hbar
      exact ⟨bar, by rwa [← hid, hf.filed id' bar hcur]⟩
    · intro hpresent
      obtain ⟨bar, hcur⟩ := hpresent
      exact ⟨bar, hf.mem_flush.mpr ⟨id, hcur⟩, hf.filed id bar hcur⟩
  · intro bar hbar
    obtain ⟨s, rfl, hb⟩ := hone bar hbar
    exact hb
  · intro bar hbar
    obtain ⟨s, rfl, _⟩ := hone bar hbar
    rfl
  · intro bar hbar
    obtain ⟨s, rfl, _⟩ := hone bar hbar
    exact flat_startFromSample s

/-! ## Whole runs -/

/-- The buckets of the batches increase up to the last one that was scheduled. -/
structure Inv (r : Run) : Prop where
  emptied : ∀ id, r.state.shared.aggregator.current id = none
  degenerate : ∀ h ∈ r.handed, Degenerate h
  past : ∀ h ∈ r.handed, ∃ last ∈ r.state.sched.lastBucket, h.bucket ≤ last
  increasing : r.handed.Pairwise fun h h' => h.bucket < h'.bucket

theorem inv_start (metas : List InstrumentMeta) (prices : PriceProvider.InMemoryPriceProvider) :
    Inv (start metas prices) where
  emptied := OiAggregator.current_new
  degenerate := by intro h hh; cases hh
  past := by intro h hh; cases hh
  increasing := .nil

theorem next_lastBucket (s : MinuteScheduler) (now : Int) :
    (s.next now).1.lastBucket = some (s.next now).2.1.bucketTs := rfl

theorem lt_next {s : MinuteScheduler} {last : Int} (h : last ∈ s.lastBucket) (now : Int) :
    last < (s.next now).2.1.bucketTs := by
  have hnext : (s.next now).2.1.bucketTs = last + minutes 1 := bucketTs_of_some h
  unfold minutes at hnext
  omega

theorem Inv.lt_bucket {run : Run} (h : Inv run) {now : Int} :
    ∀ b ∈ run.handed, b.bucket < (run.state.sched.next now).2.1.bucketTs := by
  intro b hb
  obtain ⟨last, hlast, hle⟩ := h.past b hb
  exact lt_of_le_of_lt hle (lt_next hlast now)

/-- Batches of different minutes have no row in common. -/
theorem Inv.once {run : Run} (h : Inv run) :
    ((run.handed.flatMap Handed.snaps).map rowKey).Nodup := by
  rw [List.map_flatMap, List.nodup_flatMap]
  constructor
  · intro b hb
    have hnodup : ((b.snaps.map rowKey).map Prod.fst).Nodup := by
      rw [List.map_map]
      exact (h.degenerate b hb).once
    exact hnodup.of_map
  · refine h.increasing.imp_of_mem fun {b b'} hb hb' hlt => ?_
    show List.Disjoint (b.snaps.map rowKey) (b'.snaps.map rowKey)
    intro k hk hk'
    obtain ⟨bar, hbar, rfl⟩ := List.mem_map.mp hk
    obtain ⟨bar', hbar', heq⟩ := List.mem_map.mp hk'
    have hbucket : bar'.bucketTs = bar.bucketTs := congrArg Prod.snd heq
    rw [(h.degenerate b hb).bucket bar hbar, (h.degenerate b' hb').bucket bar' hbar'] at hbucket
    omega

theorem aggregator_beforeRows {i : TickInput exchange} (hrest : RestOnly i) (ls : LoopState) :
    (beforeRows ls i).aggregator = ls.shared.aggregator := by
  have hbefore := aggregator_meanwhile
    (fun m hm => hrest m (List.mem_append_left _ hm)) ls.shared
  unfold beforeRows
  dsimp only
  split <;> exact hbefore

theorem inv_step {run run' : Run} {i : TickInput exchange} (h : Inv run) (hrest : RestOnly i)
    (hstep : step A run i = some run') : Inv run' := by
  obtain ⟨state, handed, htick, rfl⟩ := step_eq_some hstep
  have hempty : ∀ id, (beforeRows run.state i).aggregator.current id = none := by
    rw [aggregator_beforeRows hrest]
    exact h.emptied
  have hpast : ∀ b ∈ run.handed,
      ∃ last ∈ (run.state.sched.next i.now).1.lastBucket, b.bucket ≤ last := fun b hb =>
    ⟨_, next_lastBucket run.state.sched i.now, (h.lt_bucket b hb).le⟩
  cases hfetch : i.oi with
  | none =>
    obtain ⟨rfl, rfl⟩ := tick_fetch_failed hfetch htick
    rw [Option.toList_none, List.append_nil]
    exact ⟨hempty, h.degenerate, hpast, h.increasing⟩
  | some fetch =>
    obtain ⟨done, minute, rfl, hrows, shared, rfl, rfl, rfl⟩ := tick_fetched hfetch htick
    have hmem : ∀ m ∈ fetch.rows.flatMap Prod.fst ++ fetch.after, isLive m = false := by
      intro m hm
      refine hrest m (List.mem_append_right _ ?_)
      rw [hfetch]
      exact hm
    have hfilled := filled_observeRows (fun row hrow m hm => hmem m (List.mem_append_left _
      (List.mem_flatMap.mpr ⟨row, hrow, hm⟩))) (filled_empty hempty) hrows
    rw [← aggregator_meanwhile (fun m hm => hmem m (List.mem_append_right _ hm)) done.shared]
      at hfilled
    have hknown : Filled _ _ (Known run.state.metas (fetch.rows.map fun row =>
        row.2.raw (run.state.sched.next i.now).2.1.bucketTs fetch.recvTs)) _ :=
      hfilled.congr fun id => (false_or _).symm.to_iff
    rw [Option.toList_some]
    refine ⟨hknown.emptied, fun b hb => ?_, fun b hb => ?_, ?_⟩
    · rcases List.mem_append.mp hb with hold | hnew
      · exact h.degenerate b hold
      · rw [List.mem_singleton.mp hnew]
        exact hknown.degenerate rfl
    · rcases List.mem_append.mp hb with hold | hnew
      · exact hpast b hold
      · rw [List.mem_singleton.mp hnew]
        exact ⟨_, next_lastBucket run.state.sched i.now, le_refl _⟩
    · rw [List.pairwise_append]
      refine ⟨h.increasing, List.pairwise_singleton _ _, fun b hb b' hb' => ?_⟩
      rw [List.mem_singleton.mp hb']
      exact h.lt_bucket b hb

/-- However the rows repeat and the fetches fail, every minute of a venue without WS push that was
fetched is handed over once, as degenerate bars. -/
theorem rest_minute_written_once (A : DecimalArith) (metas : List InstrumentMeta)
    (prices : PriceProvider.InMemoryPriceProvider) (inputs : List (TickInput exchange))
    (hrest : ∀ i ∈ inputs, RestOnly i) {r : Run}
    (hrun : run (step A) (start metas prices) inputs = some r) : WrittenOnce metas inputs r := by
  have hthroughout : Throughout (step A) Inv (start metas prices) inputs :=
    throughout_of_along (fun _ _ _ h hi hstep => inv_step h hi hstep) (fun _ h => h)
      (inv_start metas prices) (along_of_forall hrest _)
  have hinv : Inv r := throughout_run hthroughout hrun
  exact ⟨hinv.emptied, run_fetches hrun, hinv.degenerate, hinv.once⟩

/-- A payload with a repeated row and an unknown symbol, a failed fetch and a late tick: two
batches of one bar. -/
theorem rest_minute_written_once_repeated :
    let btc := sampleRow 100
    let unknown : FetchedRow := { btc with instrument := ⟨.binance, "NEWUSDT"⟩ }
    let inputs := [sampleTick 0 [] [btc, unknown, sampleRow 7],
      { sampleTick (minutes 1) [] [] with oi := none }, sampleTick (minutes 9) [] [btc]]
    ∃ r, run (step .rounding) (start [sampleMeta] (.withTolerance (minutes 5))) inputs = some r ∧
      r.handed.map (fun h => (h.bucket, h.payload.length, h.snaps.length)) =
        [(-minutes 1, 3, 1), (minutes 1, 1, 1)] ∧
      WrittenOnce [sampleMeta] inputs r := by
  intro btc unknown inputs
  have hrun : (run (step .rounding) (start [sampleMeta] (.withTolerance (minutes 5))) inputs).map
      (fun r => r.handed.map fun h => (h.bucket, h.payload.length, h.snaps.length)) =
        some [(-minutes 1, 3, 1), (minutes 1, 1, 1)] := by decide
  obtain ⟨r, hr, hbatches⟩ := Option.map_eq_some_iff.mp hrun
  exact ⟨r, hr, hbatches, rest_minute_written_once .rounding _ _ _ (by decide) hr⟩

end OiTerminal.Collector.RestMinute
