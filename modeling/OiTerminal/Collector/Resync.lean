import OiTerminal.Collector.ExchangeLoop
import OiTerminal.Lib.ByKey

/-!
# The resync command

A resync takes what the exchange answers now and writes it as the bars of a bucket: of the
instant given by `--bucket`, or of each of the previous minutes. Reading an instant from
text belongs to another crate, so it is a parameter.
-/
namespace OiTerminal.Collector.Resync

open OiTerminal.Core
open OiTerminal.Core.Time
open OiTerminal.Collector.ExchangeLoop
open OiTerminal.Lib.ByKey

set_option autoImplicit false

/-- What the adapter and the repository answer to one `resync_bucket`. The rows come with
the instant at which they were received. -/
structure Answers where
  adapter : Except String Unit
  metas : Except String (List InstrumentMeta)
  instrumentsStored : Except String Unit
  prices : Except String (List PriceQuote)
  rows : Except String (Int × List FetchedRow)
  stored : Except String Unit

inductive Outcome where
  | wrote (n : Nat)
  | failed (message : String)
  | panicked
  deriving DecidableEq

/-- The bars handed to the repository, and how the call ended. -/
structure Resynced where
  handed : List OiSnapshot
  outcome : Outcome

def Resynced.after (done : Resynced) (handed : List OiSnapshot) : Resynced :=
  { done with handed := handed ++ done.handed }

/-- One row as a bar with equal open, high, low and close. Of two prices or two metadata
records of an instrument the map keeps the later one. -/
def resyncBar (A : DecimalArith) (metas : List InstrumentMeta) (prices : List PriceQuote)
    (r : RawOi) : Except Panic (Option OiSnapshot) :=
  match lastOf InstrumentMeta.id r.instrument metas with
  | none => .ok none
  | some info =>
    let price := (r.priceHint.map PriceQuote.price).or
      ((lastOf PriceQuote.instrument r.instrument prices).map PriceQuote.price)
    match OiSample.enrich A r info price with
    | .error panic => .error panic
    | .ok (.error _) => .ok none
    | .ok (.ok s) => .ok (some (.startFromSample s))

def resyncBars (A : DecimalArith) (metas : List InstrumentMeta) (prices : List PriceQuote) :
    List RawOi → Except Panic (List OiSnapshot)
  | [] => .ok []
  | r :: rest => do
    let bar ← resyncBar A metas prices r
    let bars ← resyncBars A metas prices rest
    return bar.toList ++ bars

def resyncBucket (A : DecimalArith) (bucket : Int) (w : Answers) : Resynced :=
  match w.adapter, w.metas, w.instrumentsStored, w.rows with
  | .error e, _, _, _ => ⟨[], .failed e⟩
  | .ok (), .error e, _, _ => ⟨[], .failed e⟩
  | .ok (), .ok _, .error e, _ => ⟨[], .failed e⟩
  | .ok (), .ok _, .ok (), .error e => ⟨[], .failed e⟩
  | .ok (), .ok metas, .ok (), .ok (recvTs, rows) =>
    match resyncBars A metas (w.prices.toOption.getD []) (rows.map (·.raw bucket recvTs)) with
    | .error _ => ⟨[], .panicked⟩
    | .ok snaps =>
      match w.stored with
      | .error e => ⟨snaps, .failed e⟩
      | .ok () => ⟨snaps, .wrote snaps.length⟩

/-- The loop of `resync_recent` over the minutes still to do. A minute that failed is
logged and passed over. -/
def resyncMinutes (A : DecimalArith) (startMin : Int) (answers : ℕ → Answers) :
    List ℕ → ℕ → Resynced
  | [], total => ⟨[], .wrote total⟩
  | i :: rest, total =>
    let bucket := startMin + minutes i
    let done := resyncBucket A bucket (answers i)
    match done.outcome with
    | .wrote n => (resyncMinutes A startMin answers rest (total + n)).after done.handed
    | .failed _ => (resyncMinutes A startMin answers rest total).after done.handed
    | .panicked => done

def resyncRecent (A : DecimalArith) (now : Int) (n : ℕ) (answers : ℕ → Answers) : Resynced :=
  let startMin := floorToMinute now - minutes n
  resyncMinutes A startMin answers (List.range n) 0

/-- The arguments of the command. -/
structure Args where
  exchange : String
  bucket : Option String
  minutes : Option ℕ

/-- What a run of the command meets: the configuration and the stores, the clock, and the
answers of each exchange, one for each bucket. -/
structure World where
  connected : Except String Unit
  now : Exchange → Int
  answers : Exchange → ℕ → Answers

def isProductionReady : Exchange → Bool
  | .binance | .bybit | .hyperliquid | .okx | .bitget | .mexc | .aster | .bingX | .kuCoin => true

def exchangesOf (raw : String) : Except String (List Exchange) :=
  if Exchange.asciiLowercase raw = "all" then .ok (Exchange.all.filter isProductionReady)
  else (Exchange.fromStr raw).map fun ex => [ex]

/-- One exchange after the other, until one fails. -/
def resyncExchanges (resync : Exchange → Resynced) : List Exchange → ℕ → Resynced
  | [], total => ⟨[], .wrote total⟩
  | ex :: rest, total =>
    match (resync ex).outcome with
    | .wrote n => (resyncExchanges resync rest (total + n)).after (resync ex).handed
    | _ => resync ex

def resyncAll (args : Args) (w : World) (resync : Exchange → Resynced) : Resynced :=
  match w.connected, exchangesOf args.exchange with
  | .error e, _ => ⟨[], .failed e⟩
  | .ok (), .error e => ⟨[], .failed e⟩
  | .ok (), .ok exchanges => resyncExchanges resync exchanges 0

def runResync (parse : String → Except String Int) (A : DecimalArith) (args : Args) (w : World) :
    Resynced :=
  match args.bucket, args.minutes with
  | none, none => ⟨[], .failed "resync: must specify either --bucket or --minutes"⟩
  | some _, some _ => ⟨[], .failed "resync: --bucket and --minutes are mutually exclusive"⟩
  | some bucket, none =>
    resyncAll args w fun ex =>
      match parse bucket with
      | .error e => ⟨[], .failed e⟩
      | .ok ts => resyncBucket A ts (w.answers ex 0)
  | none, some n => resyncAll args w fun ex => resyncRecent A (w.now ex) n (w.answers ex)

/-! ## The buckets of the bars -/

variable {A : DecimalArith} {bar : OiSnapshot} {bucket : Int}

theorem resyncBar_bucketTs {metas : List InstrumentMeta} {prices : List PriceQuote} {r : RawOi}
    (h : resyncBar A metas prices r = .ok (some bar)) : bar.bucketTs = r.bucketTs := by
  unfold resyncBar at h
  split at h
  · cases h
  case h_2 info hinfo =>
    dsimp only at h
    split at h
    · cases h
    · cases h
    case h_3 s henrich =>
      obtain rfl := Option.some.inj (Except.ok.inj h)
      have hid : r.instrument = info.id := (lastOf_mem hinfo).2.symm
      obtain ⟨sample, hsample, _, hbucket, _⟩ := OiSample.enrich_eq_ok hid henrich
      cases hsample
      exact hbucket

theorem resyncBars_bucketTs {metas : List InstrumentMeta} {prices : List PriceQuote}
    {raws : List RawOi} {bars : List OiSnapshot} (h : resyncBars A metas prices raws = .ok bars)
    (hraws : ∀ r ∈ raws, r.bucketTs = bucket) : ∀ bar ∈ bars, bar.bucketTs = bucket := by
  induction raws generalizing bars with
  | nil =>
    cases h
    intro bar hbar
    cases hbar
  | cons r rest ih =>
    obtain ⟨first, hfirst, hmore⟩ := OiSample.bind_eq_ok.mp h
    obtain ⟨others, hothers, hbars⟩ := OiSample.bind_eq_ok.mp hmore
    obtain rfl := Except.ok.inj hbars
    intro bar hbar
    rcases List.mem_append.mp hbar with hnew | hold
    · rw [Option.mem_toList.mp hnew] at hfirst
      exact (resyncBar_bucketTs hfirst).trans (hraws r List.mem_cons_self)
    · exact ih hothers (fun r' hr' => hraws r' (List.mem_cons_of_mem r hr')) bar hold

/-- A resync of a bucket stamps that bucket on every bar. -/
theorem resyncBucket_bucketTs {w : Answers} (h : bar ∈ (resyncBucket A bucket w).handed) :
    bar.bucketTs = bucket := by
  unfold resyncBucket at h
  split at h
  · cases h
  · cases h
  · cases h
  · cases h
  case h_5 metas recvTs rows _ _ _ _ =>
    split at h
    · cases h
    case h_2 snaps hsnaps =>
      have hbars : ∀ b ∈ snaps, b.bucketTs = bucket := by
        refine resyncBars_bucketTs hsnaps fun r hr => ?_
        obtain ⟨row, _, rfl⟩ := List.mem_map.mp hr
        rfl
      split at h
      · exact hbars bar h
      · exact hbars bar h

theorem mem_after {done : Resynced} {handed : List OiSnapshot} :
    bar ∈ (done.after handed).handed ↔ bar ∈ handed ∨ bar ∈ done.handed := List.mem_append

/-- By induction on the minutes still to do. -/
theorem resyncMinutes_bucketTs {startMin : Int} {answers : ℕ → Answers} {is : List ℕ}
    {total : ℕ} (h : bar ∈ (resyncMinutes A startMin answers is total).handed) :
    ∃ i : ℕ, bar.bucketTs = startMin + minutes i := by
  induction is generalizing total with
  | nil => cases h
  | cons i rest ih =>
    have hfirst : bar ∈ (resyncBucket A (startMin + minutes i) (answers i)).handed →
        ∃ i : ℕ, bar.bucketTs = startMin + minutes i := fun hbar =>
      ⟨i, resyncBucket_bucketTs hbar⟩
    unfold resyncMinutes at h
    dsimp only at h
    split at h
    · exact (mem_after.mp h).elim hfirst ih
    · exact (mem_after.mp h).elim hfirst ih
    · exact hfirst h

theorem resyncExchanges_handed {resync : Exchange → Resynced} {exchanges : List Exchange}
    {total : ℕ} (h : bar ∈ (resyncExchanges resync exchanges total).handed) :
    ∃ ex, bar ∈ (resync ex).handed := by
  induction exchanges generalizing total with
  | nil => cases h
  | cons ex rest ih =>
    unfold resyncExchanges at h
    split at h
    · exact (mem_after.mp h).elim (fun hbar => ⟨ex, hbar⟩) ih
    · exact ⟨ex, h⟩

theorem resyncAll_handed {args : Args} {w : World} {resync : Exchange → Resynced}
    (h : bar ∈ (resyncAll args w resync).handed) : ∃ ex, bar ∈ (resync ex).handed := by
  unfold resyncAll at h
  split at h
  · cases h
  · cases h
  · exact resyncExchanges_handed h

/-- Every bar of a resync is of the instant given by `--bucket`, or of a minute counted
back from the floor of the clock. -/
theorem runResync_bucketTs {parse : String → Except String Int} {args : Args} {w : World}
    (h : bar ∈ (runResync parse A args w).handed) :
    (∃ text, args.bucket = some text ∧ parse text = .ok bar.bucketTs) ∨
      ∃ (ex : Exchange) (n i : ℕ),
        bar.bucketTs = floorToMinute (w.now ex) - minutes n + minutes i := by
  unfold runResync at h
  split at h
  · cases h
  · cases h
  case h_3 text hbucket _ =>
    obtain ⟨ex, hbar⟩ := resyncAll_handed h
    split at hbar
    · cases hbar
    case h_2 ts hts =>
      rw [resyncBucket_bucketTs hbar]
      exact .inl ⟨text, hbucket, hts⟩
  case h_4 n _ _ =>
    obtain ⟨ex, hbar⟩ := resyncAll_handed h
    obtain ⟨i, hi⟩ := resyncMinutes_bucketTs hbar
    exact .inr ⟨ex, n, i, hi⟩

end OiTerminal.Collector.Resync
