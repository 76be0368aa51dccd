import OiTerminal.Collector.FlushRace
import OiTerminal.Collector.LiveNode
import OiTerminal.Collector.Resync
import OiTerminal.Collector.RestMinute

/-!
# The writers of minute bars

Each venue has a minute loop and, some of them, WS shards that share the aggregator of the
loop. A resync is a process of its own, and the drainer writes again what was handed over
before. All of them end in `upsert_snapshots`, which takes the buckets as they come.
-/
namespace OiTerminal.Collector.Alignment

open OiTerminal.Core
open OiTerminal.Core.Time
open OiTerminal.Collector.ExchangeLoop
open OiTerminal.Collector.FlushRace
open OiTerminal.Collector.LiveNode (Task bybitTask venueTask)
open OiTerminal.Collector.RestMinute
open OiTerminal.Collector.Resync
open OiTerminal.Collector.Scheduler
open OiTerminal.Exchanges
open OiTerminal.Exchanges.BybitStream (Received)
open OiTerminal.Lib.Transition

set_option autoImplicit false

/-- Where the minute loop of a venue stands, and the bucket of its tick. -/
inductive Phase where
  | waiting
  | observing (bucket : Int)
  | flushing (bucket : Int)

/-- What a venue without WS push does with a frame. -/
def noTask : Task := ⟨Unit, (), fun memory _ => (memory, none)⟩

/-- What the shards of a venue do with a frame, up to the sample that they observe. -/
def liveTask (A : DecimalArith) (T : DecimalText) : Exchange → Task
  | .bybit => bybitTask A T
  | .okx => venueTask LiveStreams.okx A T
  | .bitget => venueTask LiveStreams.bitget A T
  | .hyperliquid => venueTask LiveStreams.hyperliquid A T
  | _ => noTask

/-- `flush` holds the shared aggregator and, while the loop flushes, what it has drained. `shards`
is what each WS shard keeps. -/
structure Venue (task : Task) where
  sched : MinuteScheduler
  phase : Phase
  flush : Flush
  shards : ℕ → task.Memory

variable {task : Task}

def Venue.new (task : Task) (offset : Int) : Venue task :=
  ⟨.new offset, .waiting, FlushRace.start .new, fun _ => task.empty⟩

def Venue.observe (v : Venue task) (s : OiSample) : Venue task :=
  { v with flush := { v.flush with
      agg := (v.flush.agg.observe s).1
      since := Function.update v.flush.since s.instrument (some s.bucketTs) } }

inductive VenueAction where
  | tick (now : Int)
  | fetchFailed
  | rest (row : FetchedRow) (recvTs : Int) (info : InstrumentMeta) (price : Option Decimal)
  | flushThrough
  | flush (a : FlushRace.Action)
  | upsertSnapshots
  | live (shard : ℕ) (r : Received)

/-- One step of a venue, with the bars that it hands to the repository. A panic ends the process. -/
def Venue.step (A : DecimalArith) (v : Venue task) :
    VenueAction → Option (Venue task × List OiSnapshot)
  | .tick now =>
    match v.phase with
    | .waiting =>
      let (sched, minute, _) := v.sched.next now
      some ({ v with sched, phase := .observing minute.bucketTs }, [])
    | _ => none
  | .fetchFailed =>
    match v.phase with
    | .observing _ => some ({ v with phase := .waiting }, [])
    | _ => none
  | .rest row recvTs info price =>
    match v.phase with
    | .observing bucket =>
      if info.id = row.instrument then
        match OiSample.enrich A (row.raw bucket recvTs) info price with
        | .error _ => none
        | .ok (.error _) => some (v, [])
        | .ok (.ok s) => some (v.observe s, [])
      else none
    | _ => none
  | .flushThrough =>
    match v.phase with
    | .observing bucket =>
      some ({ v with phase := .flushing bucket, flush := FlushRace.start v.flush.agg }, [])
    | _ => none
  | .flush a =>
    match v.phase, a with
    | .flushing _, .observe _ => none
    | .flushing bucket, a =>
      (FlushRace.step bucket v.flush a).map fun flush => ({ v with flush }, [])
    | _, _ => none
  | .upsertSnapshots =>
    match v.phase, v.flush.stage, v.flush.toFlush with
    | .flushing _, .removing, [] => some ({ v with phase := .waiting }, v.flush.out)
    | _, _, _ => none
  | .live shard r =>
    let (memory, result) := task.turn (v.shards shard) r
    let v := { v with shards := Function.update v.shards shard memory }
    match result with
    | none => some (v, [])
    | some (.error _) => none
    | some (.ok s) => some (v.observe s, [])

structure Node (A : DecimalArith) (T : DecimalText) where
  venues : ∀ ex, Venue (liveTask A T ex)
  /-- The bars that have reached `upsert_snapshots`. -/
  stored : List OiSnapshot

inductive Action where
  | venue (ex : Exchange) (a : VenueAction)
  | restart
  | drain (batch : List OiSnapshot)
  | resync (args : Args) (w : World)

section

variable (parse : String → Except String Int) {A : DecimalArith} {T : DecimalText} (offset : Int)

def step (s : Node A T) : Action → Option (Node A T)
  | .venue ex a =>
    (Venue.step A (s.venues ex) a).map fun next =>
      ⟨Function.update s.venues ex next.1, s.stored ++ next.2⟩
  | .restart => some { s with venues := fun _ => .new _ offset }
  | .drain batch =>
    if ∀ bar ∈ batch, bar ∈ s.stored then some { s with stored := s.stored ++ batch } else none
  | .resync args w => some { s with stored := s.stored ++ (runResync parse A args w).handed }

def start (A : DecimalArith) (T : DecimalText) : Node A T := ⟨fun _ => .new _ offset, []⟩

end

def WholeMinute (ts : Int) : Prop := minutes 1 ∣ ts

/-- All stored bars are of whole minutes, so those of one instrument and minute share their
row key. -/
structure AllAligned {A : DecimalArith} {T : DecimalText} (s : Node A T) : Prop where
  aligned : ∀ bar ∈ s.stored, WholeMinute bar.bucketTs
  key : ∀ bar ∈ s.stored, ∀ bar' ∈ s.stored, bar.instrument = bar'.instrument →
    floorToMinute bar.bucketTs = floorToMinute bar'.bucketTs → rowKey bar = rowKey bar'

/-- The action is not a resync of a bucket, or takes its `--bucket` from the given texts. -/
def Action.BucketFrom (given : Set String) : Action → Prop
  | .resync args _ => ∀ text, args.bucket = some text → text ∈ given
  | _ => True

structure Inv (v : Venue task) : Prop where
  sched : ∀ b, v.sched.lastBucket = some b → WholeMinute b
  observing : ∀ b, v.phase = .observing b → WholeMinute b
  bars : ∀ id bar, v.flush.agg.current id = some bar → WholeMinute bar.bucketTs
  out : ∀ bar ∈ v.flush.out, WholeMinute bar.bucketTs

theorem wholeMinute_floorToMinute (ts : Int) : WholeMinute (floorToMinute ts) := by
  rw [WholeMinute, floorToMinute_eq]
  exact Int.dvd_self_sub_emod

theorem wholeMinute_minutes (n : Int) : WholeMinute (minutes n) := by
  unfold WholeMinute minutes
  exact Int.mul_dvd_mul_right _ (one_dvd n)

theorem floorToMinute_of_wholeMinute {ts : Int} (h : WholeMinute ts) : floorToMinute ts = ts := by
  rw [floorToMinute_eq, Int.emod_eq_zero_of_dvd h, sub_zero]

theorem inv_new (task : Task) (offset : Int) : Inv (.new task offset) where
  sched b hb := by cases hb
  observing b hb := by cases hb
  bars id bar hbar := by
    change OiAggregator.new.current id = some bar at hbar
    rw [OiAggregator.current_new] at hbar
    cases hbar
  out bar hbar := by cases hbar

variable {A : DecimalArith} {T : DecimalText} {v v' : Venue task} {snaps : List OiSnapshot}

/-! ## The samples of the WS shards -/

/-- A sample carries the minute in which its frame is handled. -/
def Floored (task : Task) : Prop :=
  ∀ memory r s, (task.turn memory r).2 = some (.ok s) → s.bucketTs = floorToMinute r.now

theorem bucketTs_of_enrichCoinsNative {raw : RawOi} {s : OiSample}
    (h : enrichCoinsNative A raw = .ok s) : s.bucketTs = raw.bucketTs := by
  obtain ⟨usd, _, hlast⟩ := OiSample.bind_eq_ok.mp h
  rw [← Except.ok.inj hlast]

theorem bybit_bucketTs {state : String → BybitStream.SymbolState} {r : Received} {raw : RawOi}
    (hraw : (BybitStream.handleFrame T state r).2 = some raw) :
    raw.bucketTs = floorToMinute r.now := by
  unfold BybitStream.handleFrame at hraw
  split at hraw
  case h_1 => cases hraw
  case h_2 =>
    dsimp only at hraw
    split at hraw
    case isFalse => cases hraw
    case isTrue =>
      unfold BybitStream.SymbolState.toRaw at hraw
      split at hraw
      case h_1 => cases hraw
      case h_2 => rw [← Option.some.inj hraw]

theorem handleFrame_bucketTs {D : LiveStreams.Dialect} {last : LiveStreams.Last} {r : Received}
    {raw : RawOi} (hraw : (D.handleFrame T last r).2 = some raw) :
    raw.bucketTs = floorToMinute r.now := by
  cases hframe : r.frame with
  | raw =>
    have hpush : D.push T r = none := by rw [LiveStreams.Dialect.push, hframe]
    rw [LiveStreams.handleFrame_other hpush] at hraw
    cases hraw
  | payload value =>
    have hread : D.push T r = (D.extractOiUpdate T value).map fun u => (u, r.now) := by
      rw [LiveStreams.Dialect.push, hframe]
    cases hupdate : D.extractOiUpdate T value with
    | none =>
      rw [hupdate] at hread
      rw [LiveStreams.handleFrame_other hread] at hraw
      cases hraw
    | some u =>
      rw [hupdate] at hread
      rw [LiveStreams.handleFrame_push hread] at hraw
      split at hraw
      case isTrue => cases hraw
      case isFalse =>
        rw [← Option.some.inj hraw]
        rfl

theorem floored_bybitTask : Floored (bybitTask A T) := by
  intro state r s hturn
  obtain ⟨raw, hraw, henrich⟩ := Option.map_eq_some_iff.mp hturn
  rw [bucketTs_of_enrichCoinsNative henrich]
  exact bybit_bucketTs hraw

theorem floored_venueTask {V : LiveStreams.Venue}
    (henrich : ∀ raw s, V.enrich A raw = .ok s → s.bucketTs = raw.bucketTs) :
    Floored (venueTask V A T) := by
  intro last r s hturn
  obtain ⟨raw, hraw, hsample⟩ := Option.map_eq_some_iff.mp hturn
  rw [henrich raw s hsample]
  exact handleFrame_bucketTs hraw

theorem floored_liveTask (ex : Exchange) : Floored (liveTask A T ex) := by
  have hnone : Floored noTask := fun _ _ _ h => nomatch h
  cases ex with
  | bybit => exact floored_bybitTask
  | okx => exact floored_venueTask fun raw s h => by rw [← Except.ok.inj h]; rfl
  | bitget => exact floored_venueTask fun _ _ => bucketTs_of_enrichCoinsNative
  | hyperliquid => exact floored_venueTask fun _ _ => bucketTs_of_enrichCoinsNative
  | _ => exact hnone

/-! ## A venue -/

theorem Inv.observe {s : OiSample} (h : Inv v) (hs : WholeMinute s.bucketTs) :
    Inv (v.observe s) where
  sched := h.sched
  observing := h.observing
  bars id bar hbar := by
    change (v.flush.agg.observe s).1.current id = some bar at hbar
    by_cases hid : id = s.instrument
    · subst hid
      obtain ⟨bar', hcur, hbucket⟩ := OiAggregator.observe_current_self v.flush.agg s
      obtain rfl : bar' = bar := Option.some.inj (hcur.symm.trans hbar)
      rw [hbucket]
      exact hs
    · rw [OiAggregator.observe_current_ne hid] at hbar
      exact h.bars id bar hbar
  out := h.out

/-- What the shards keep is no part of the bars. -/
theorem Inv.withShards (h : Inv v) (shards : ℕ → task.Memory) : Inv { v with shards } :=
  ⟨h.sched, h.observing, h.bars, h.out⟩

/-- A step of a flush moves bars out of the aggregator and makes none. -/
theorem Inv.flush {bucket : Int} {a : FlushRace.Action} {flush : Flush} (h : Inv v)
    (hobserve : ∀ s, a ≠ .observe s) (hstep : FlushRace.step bucket v.flush a = some flush) :
    Inv { v with flush } := by
  cases a with
  | observe s => exact absurd rfl (hobserve s)
  | visit id =>
    obtain ⟨visited, bar, _, _, _, ⟨_, rfl⟩ | rfl⟩ := FlushRace.visit_cases hstep
    · exact ⟨h.sched, h.observing, h.bars, h.out⟩
    · exact ⟨h.sched, h.observing, h.bars, h.out⟩
  | collected =>
    simp only [FlushRace.step] at hstep
    split at hstep
    · obtain rfl := Option.some.inj hstep
      exact ⟨h.sched, h.observing, h.bars, h.out⟩
    · cases hstep
  | remove =>
    obtain ⟨k, rest, _, _, rfl⟩ := FlushRace.remove_cases hstep
    refine ⟨h.sched, h.observing, fun id bar hbar => ?_, fun bar hbar => ?_⟩
    · by_cases hid : id = k
      · subst hid
        change (v.flush.agg.remove id).2.current id = some bar at hbar
        rw [OiAggregator.current_remove] at hbar
        cases hbar
      · change (v.flush.agg.remove k).2.current id = some bar at hbar
        rw [OiAggregator.current_remove_ne hid] at hbar
        exact h.bars id bar hbar
    · rcases List.mem_append.mp hbar with hold | hnew
      · exact h.out bar hold
      · exact h.bars k bar (Option.mem_toList.mp hnew)

/-- The next bucket of a scheduler whose buckets are whole minutes. -/
theorem wholeMinute_next {sched : MinuteScheduler} {now : Int}
    (h : ∀ b, sched.lastBucket = some b → WholeMinute b) :
    WholeMinute (sched.next now).2.1.bucketTs := by
  show WholeMinute (call sched now).tick.bucketTs
  cases hlast : sched.lastBucket with
  | none =>
    rw [bucketTs_of_none hlast]
    exact Int.dvd_sub (wholeMinute_floorToMinute now) (dvd_refl _)
  | some b =>
    rw [bucketTs_of_some hlast]
    exact Int.dvd_add (h b hlast) (dvd_refl _)

/-- A row is dropped or observed, as a sample of the bucket of the tick. -/
theorem rest_cases {row : FetchedRow} {recvTs : Int} {info : InstrumentMeta}
    {price : Option Decimal} (hstep : v.step A (.rest row recvTs info price) = some (v', snaps)) :
    snaps = [] ∧ (v' = v ∨ ∃ sample, v.phase = .observing sample.bucketTs ∧
      v' = v.observe sample) := by
  simp only [Venue.step] at hstep
  split at hstep
  case h_2 => cases hstep
  case h_1 bucket hphase =>
    split at hstep
    case isFalse => cases hstep
    case isTrue hid =>
      split at hstep
      · cases hstep
      · cases hstep
        exact ⟨rfl, .inl rfl⟩
      case h_3 s henrich =>
        cases hstep
        obtain ⟨sample, hsample, _, hbucket, _⟩ := OiSample.enrich_eq_ok hid.symm henrich
        cases hsample
        exact ⟨rfl, .inr ⟨s, hphase.trans (congrArg Phase.observing hbucket.symm), rfl⟩⟩

/-- A venue whose bars are of whole minutes hands over only such bars. -/
theorem Inv.step {a : VenueAction} (htask : Floored task) (h : Inv v)
    (hstep : v.step A a = some (v', snaps)) :
    Inv v' ∧ ∀ bar ∈ snaps, WholeMinute bar.bucketTs := by
  have hnone : ∀ bar ∈ ([] : List OiSnapshot), WholeMinute bar.bucketTs := by
    intro bar hbar
    cases hbar
  cases a with
  | tick now =>
    simp only [Venue.step] at hstep
    split at hstep
    · cases hstep
      have hnext : WholeMinute (v.sched.next now).2.1.bucketTs := wholeMinute_next h.sched
      refine ⟨⟨fun b hb => ?_, fun b hb => ?_, h.bars, h.out⟩, hnone⟩
      · obtain rfl := Option.some.inj hb
        exact hnext
      · obtain rfl := Phase.observing.inj hb
        exact hnext
    · cases hstep
  | fetchFailed =>
    simp only [Venue.step] at hstep
    split at hstep
    · cases hstep
      exact ⟨⟨h.sched, (fun b hb => by cases hb), h.bars, h.out⟩, hnone⟩
    · cases hstep
  | rest row recvTs info price =>
    obtain ⟨rfl, rfl | ⟨sample, hphase, rfl⟩⟩ := rest_cases hstep
    · exact ⟨h, hnone⟩
    · exact ⟨h.observe (h.observing _ hphase), hnone⟩
  | flushThrough =>
    simp only [Venue.step] at hstep
    split at hstep
    · cases hstep
      exact ⟨⟨h.sched, (fun b hb => by cases hb), h.bars, hnone⟩, hnone⟩
    · cases hstep
  | flush a =>
    simp only [Venue.step] at hstep
    split at hstep
    · cases hstep
    case h_2 bucket hphase hobserve =>
      obtain ⟨flush, hflush, hnext⟩ := Option.map_eq_some_iff.mp hstep
      cases hnext
      exact ⟨h.flush (fun s hs => hobserve s hs) hflush, hnone⟩
    · cases hstep
  | upsertSnapshots =>
    simp only [Venue.step] at hstep
    split at hstep
    · cases hstep
      exact ⟨⟨h.sched, (fun b hb => by cases hb), h.bars, h.out⟩, h.out⟩
    · cases hstep
  | live shard r =>
    simp only [Venue.step] at hstep
    split at hstep
    · cases hstep
      exact ⟨h.withShards _, hnone⟩
    · cases hstep
    case h_3 s hsample =>
      cases hstep
      have hbucket : WholeMinute s.bucketTs :=
        htask _ _ s hsample ▸ wholeMinute_floorToMinute r.now
      exact ⟨(h.withShards _).observe hbucket, hnone⟩

/-! ## The node -/

structure NodeInv (s : Node A T) : Prop where
  venues : ∀ ex, Inv (s.venues ex)
  stored : ∀ bar ∈ s.stored, WholeMinute bar.bucketTs

theorem allAligned_of_nodeInv {s : Node A T} (h : NodeInv s) : AllAligned s where
  aligned := h.stored
  key bar hbar bar' hbar' hinstrument hminute := by
    rw [floorToMinute_of_wholeMinute (h.stored bar hbar),
      floorToMinute_of_wholeMinute (h.stored bar' hbar')] at hminute
    exact Prod.ext hinstrument hminute

variable {parse : String → Except String Int} {offset : Int} {given : Set String}

/-- What a resync stores is of whole minutes if its `--bucket` is. -/
theorem wholeMinute_runResync {args : Args} {w : World} {bar : OiSnapshot}
    (hgiven : ∀ text ∈ given, ∀ ts, parse text = .ok ts → WholeMinute ts)
    (hargs : ∀ text, args.bucket = some text → text ∈ given)
    (hbar : bar ∈ (runResync parse A args w).handed) : WholeMinute bar.bucketTs := by
  rcases runResync_bucketTs hbar with ⟨text, hbucket, hparse⟩ | ⟨ex, n, i, hbucket⟩
  · exact hgiven text (hargs text hbucket) _ hparse
  · rw [hbucket]
    exact Int.dvd_add (Int.dvd_sub (wholeMinute_floorToMinute _) (wholeMinute_minutes _))
      (wholeMinute_minutes _)

theorem nodeInv_step {s s' : Node A T} {a : Action}
    (hgiven : ∀ text ∈ given, ∀ ts, parse text = .ok ts → WholeMinute ts)
    (h : NodeInv s) (hok : a.BucketFrom given) (hstep : step parse offset s a = some s') :
    NodeInv s' := by
  cases a with
  | venue ex a =>
    obtain ⟨⟨v, snaps⟩, hvenue, rfl⟩ := Option.map_eq_some_iff.mp hstep
    obtain ⟨hv, hsnaps⟩ := (h.venues ex).step (floored_liveTask ex) hvenue
    refine ⟨fun other => ?_, fun bar hbar => ?_⟩
    · by_cases hother : other = ex
      · subst hother
        show Inv (Function.update s.venues other v other)
        rw [Function.update_self]
        exact hv
      · change Inv (Function.update s.venues ex v other)
        rw [Function.update_of_ne hother]
        exact h.venues other
    · exact (List.mem_append.mp hbar).elim (h.stored bar) (hsnaps bar)
  | restart =>
    obtain rfl := Option.some.inj hstep
    exact ⟨fun _ => inv_new _ offset, h.stored⟩
  | drain batch =>
    simp only [step] at hstep
    split at hstep
    case isTrue hbatch =>
      obtain rfl := Option.some.inj hstep
      refine ⟨h.venues, fun bar hbar => ?_⟩
      exact (List.mem_append.mp hbar).elim (h.stored bar) fun hnew => h.stored bar (hbatch bar hnew)
    case isFalse => cases hstep
  | resync args w =>
    obtain rfl := Option.some.inj hstep
    refine ⟨h.venues, fun bar hbar => ?_⟩
    exact (List.mem_append.mp hbar).elim (h.stored bar) (wholeMinute_runResync hgiven hok)

theorem nodeInv_start (offset : Int) : NodeInv (start offset A T) where
  venues _ := inv_new _ offset
  stored bar hbar := by cases hbar

/-- An exchange that answers with one row. -/
def sampleAnswers : Answers where
  adapter := .ok ()
  metas := .ok [sampleMeta]
  instrumentsStored := .ok ()
  prices := .ok []
  rows := .ok (0, [sampleRow 250])
  stored := .ok ()

def sampleWorld : World := ⟨.ok (), fun _ => 0, fun _ _ => sampleAnswers⟩

theorem exchangesOf_binance : exchangesOf "binance" = .ok [.binance] := by
  have hall : Exchange.asciiLowercase "binance" ≠ "all" := by decide
  unfold exchangesOf
  rw [if_neg hall]
  exact congrArg (Except.map fun ex => [ex]) (Exchange.fromStr_code .binance)

/-- The bar of that row is of the instant that `--bucket` denotes. -/
theorem runResync_sampleWorld {text : String} {ts : Int} (h : parse text = .ok ts) :
    ∃ bar ∈ (runResync parse A ⟨"binance", some text, none⟩ sampleWorld).handed,
      bar.bucketTs = ts := by
  have hbucket : ∃ bar, resyncBucket A ts sampleAnswers = ⟨[bar], .wrote 1⟩ ∧ bar.bucketTs = ts :=
    ⟨_, rfl, rfl⟩
  obtain ⟨bar, hdone, hts⟩ := hbucket
  have hrun : runResync parse A ⟨"binance", some text, none⟩ sampleWorld =
      ⟨[bar], .wrote (0 + 1)⟩ := by
    unfold runResync resyncAll
    dsimp only
    rw [exchangesOf_binance, h]
    show resyncExchanges (fun _ => resyncBucket A ts sampleAnswers) [.binance] 0 = _
    unfold resyncExchanges
    rw [hdone]
    rfl
  rw [hrun]
  exact ⟨bar, List.mem_cons_self, hts⟩

/-- A resync of one venue stores a bar of whatever `--bucket` denotes. -/
theorem wholeMinute_of_aligned
    (hall : ∀ acts : List Action, (∀ a ∈ acts, a.BucketFrom given) →
      Throughout (step parse offset) AllAligned (start offset A T) acts) :
    ∀ text ∈ given, ∀ ts, parse text = .ok ts → WholeMinute ts := by
  intro text htext ts hts
  have hthrough := hall [.resync ⟨"binance", some text, none⟩ sampleWorld] (by
    intro a ha
    obtain rfl := List.mem_singleton.mp ha
    intro other hother
    exact Option.some.inj hother ▸ htext)
  obtain ⟨bar, hbar, hbucket⟩ := runResync_sampleWorld (A := A) hts
  have haligned := (hthrough.2 _ rfl).aligned bar (List.mem_append_right _ hbar)
  rwa [hbucket] at haligned

/-- The stored bars are of whole minutes in every run, however the writers interleave, if
and only if the resyncs are given whole minutes: nothing floors what `--bucket` denotes. -/
theorem stored_aligned_iff (parse : String → Except String Int) (A : DecimalArith)
    (T : DecimalText) (offset : Int) (given : Set String) :
    (∀ acts : List Action, (∀ a ∈ acts, a.BucketFrom given) →
        Throughout (step parse offset) AllAligned (start offset A T) acts) ↔
      ∀ text ∈ given, ∀ ts, parse text = .ok ts → WholeMinute ts := by
  refine ⟨wholeMinute_of_aligned, fun hgiven acts hacts => ?_⟩
  exact throughout_of_along (fun s a s' h hok hstep => nodeInv_step hgiven h hok hstep)
    (fun s h => allAligned_of_nodeInv h) (nodeInv_start offset)
    (along_of_forall hacts (start offset A T))

/-- A `--bucket` of half past the minute is written as it stands. -/
theorem unfloored_bucket_stored :
    ¬ ∀ (parse : String → Except String Int) (A : DecimalArith) (T : DecimalText) (offset : Int)
      (acts : List Action), Throughout (step parse offset) AllAligned (start offset A T) acts := by
  intro hall
  let text := "2026-04-24T10:15:30Z"
  let parse : String → Except String Int := fun s =>
    if s = text then .ok (seconds 1777025730) else .error "invalid timestamp"
  have hgiven : ∀ s ∈ ({text} : Set String), ∀ ts, parse s = .ok ts → WholeMinute ts :=
    wholeMinute_of_aligned fun acts _ => hall parse .rounding .plain (seconds 2) acts
  have hwhole : WholeMinute (seconds 1777025730) := hgiven text rfl _ (if_pos rfl)
  unfold WholeMinute at hwhole
  exact absurd hwhole (by decide)

end OiTerminal.Collector.Alignment
