import OiTerminal.Collector.Discovery
import OiTerminal.Collector.Resync
import OiTerminal.Exchanges.Discovery
import OiTerminal.Exchanges.FetchPool

/-!
# The rows of a venue and their metadata

The loop asks for the open interest of the active instruments that discovery has found, and needs
the metadata of a row again to convert it. A row without metadata would be dropped.
-/
namespace OiTerminal.Collector.Metadata

open OiTerminal.Core
open OiTerminal.Collector.Discovery (active activeIds)
open OiTerminal.Collector.ExchangeLoop
open OiTerminal.Collector.Resync
open OiTerminal.Exchanges
open OiTerminal.Exchanges.Discovery (Listed discovered)
open OiTerminal.Exchanges.Rest (Completion collect wanted)
open OiTerminal.Exchanges.Rest.Hyperliquid (MapOrder)
open OiTerminal.Lib OiTerminal.Lib.ByKey OiTerminal.Lib.Transition

set_option autoImplicit false

/-- What `fetch_oi` works on: the completions of the requests, or what the one response holds. -/
abbrev OiAnswer : Exchange → Type
  | .binance | .aster => List (Completion Rest.Binance.OpenInterestResp)
  | .bingX => List (Completion Rest.BingX.OpenInterestData)
  | .bybit => List Rest.Bybit.TickerRow
  | .okx => List Okx.OiRow
  | .bitget => List Rest.Bitget.TickerRow
  | .kuCoin => List Rest.KuCoin.ContractRow
  | .mexc => List Rest.Mexc.TickerRow
  | .hyperliquid => List String × List Rest.Hyperliquid.AssetCtx

/-- A fan-out has completions of the instruments that it asked for. One response can have rows of
any symbols. -/
def Asked (ids : List InstrumentId) : (e : Exchange) → OiAnswer e → Prop
  | .binance, rows => ∀ done ∈ rows, done.inst ∈ ids
  | .aster, rows => ∀ done ∈ rows, done.inst ∈ Rest.Aster.forwarded ids
  | .bingX, rows => ∀ done ∈ rows, done.inst ∈ ids
  | _, _ => True

section

variable (T : DecimalText) (O : MapOrder) (bucket now : Int) (ids : List InstrumentId)

/-- `fetch_oi` of each adapter. -/
def fetchOi : (e : Exchange) → OiAnswer e → Except ExchangeError (List RawOi)
  | .binance, rows => .ok (Rest.Binance.fetchOi T rows bucket now)
  | .aster, rows => .ok (Rest.Aster.fetchOi T rows bucket now)
  | .bingX, rows => .ok (Rest.BingX.fetchOi T rows bucket now)
  | .bybit, rows => .ok (Rest.Bybit.fetchOi T rows ids bucket now)
  | .okx, rows => .ok (Okx.fetchOi T rows ids bucket now)
  | .bitget, rows => .ok (Rest.Bitget.fetchOi T rows ids bucket now)
  | .kuCoin, rows => .ok (Rest.KuCoin.fetchOi T rows ids bucket now)
  | .mexc, rows => .ok (Rest.Mexc.fetchOi T rows ids bucket now)
  | .hyperliquid, (names, ctxs) => Rest.Hyperliquid.fetchOi T O names ctxs ids bucket now

end

/-- A row of an instrument that was asked for, in coins or in contracts. -/
structure Own (ids : List InstrumentId) (bucket now : Int) (r : RawOi) : Prop where
  requested : r.instrument ∈ ids
  unit : r.unit = .coins ∨
    r.unit = .contracts ∧ r.instrument.exchange ∈ [Exchange.okx, .kuCoin, .mexc]
  bucketTs : r.bucketTs = bucket
  recvTs : r.recvTs = now

/-! ## The rows of a venue -/

section

variable {T : DecimalText} {O : MapOrder} {bucket now : Int} {ids : List InstrumentId}
  {e : Exchange}

theorem mem_of_wanted (hids : ∀ id ∈ ids, id.exchange = e) {symbol : String}
    (h : wanted ids symbol = true) : (⟨e, symbol⟩ : InstrumentId) ∈ ids := by
  obtain ⟨id, hid, rfl⟩ := List.mem_map.mp (List.contains_iff_mem.mp h)
  rw [← hids id hid]
  exact hid

theorem own_collect {Row : Type} (symbol : Row → String) {convert : Row → Option RawOi}
    (hids : ∀ id ∈ ids, id.exchange = e)
    (hconvert : ∀ row r, convert row = some r → r.instrument = ⟨e, symbol row⟩ ∧
      (r.unit = .coins ∨ r.unit = .contracts ∧ e ∈ [Exchange.okx, .kuCoin, .mexc]) ∧
      r.bucketTs = bucket ∧ r.recvTs = now)
    {rows : List Row} : ∀ r ∈ collect symbol convert ids rows, Own ids bucket now r := by
  intro r hr
  obtain ⟨row, hrow, hsome⟩ := List.mem_filterMap.mp hr
  obtain ⟨hinstrument, hunit, hbucket, hnow⟩ := hconvert row r hsome
  have hmem := mem_of_wanted hids (List.mem_filter.mp hrow).2
  exact ⟨hinstrument ▸ hmem, by rwa [hinstrument], hbucket, hnow⟩

theorem textOi_eq_some {id : InstrumentId} {text : String} {unit : UnitKind}
    {hint : Option PriceQuote} {r : RawOi}
    (h : Rest.textOi T id text unit bucket now hint = some r) :
    r.instrument = id ∧ r.unit = unit ∧ r.bucketTs = bucket ∧ r.recvTs = now := by
  obtain ⟨-, hmap⟩ := Option.ite_none_left_eq_some.mp h
  obtain ⟨value, -, rfl⟩ := Option.map_eq_some_iff.mp hmap
  exact ⟨rfl, rfl, rfl, rfl⟩

theorem own_completions {Body : Type} {fetched : String → Body → Except ExchangeError Decimal}
    {rows : List (Completion Body)} (hasked : ∀ done ∈ rows, done.inst ∈ ids) :
    ∀ r ∈ rows.filterMap (Rest.completedOi fetched bucket now), Own ids bucket now r := by
  intro r hr
  obtain ⟨done, hdone, hsome⟩ := List.mem_filterMap.mp hr
  obtain ⟨value, -, rfl⟩ := Option.map_eq_some_iff.mp hsome
  exact ⟨hasked done hdone, .inl rfl, rfl, rfl⟩

/-- Aster asks under the names of Binance and gives the rows back under its own. -/
theorem own_aster (hids : ∀ id ∈ ids, id.exchange = .aster)
    {rows : List (Completion Rest.Binance.OpenInterestResp)} (hasked : Asked ids .aster rows) :
    ∀ r ∈ Rest.Aster.fetchOi T rows bucket now, Own ids bucket now r := by
  intro r hr
  obtain ⟨inner, hinner, rfl⟩ := List.mem_map.mp hr
  obtain ⟨hrequested, hunit, hbucket, hnow⟩ := own_completions hasked inner hinner
  obtain ⟨id, hid, hforwarded⟩ := List.mem_map.mp hrequested
  have hcoins : inner.unit = .coins := by
    rcases hunit with hcoins | ⟨-, hother⟩
    · exact hcoins
    · rw [← hforwarded] at hother
      exact absurd hother (by decide : Exchange.binance ∉ [Exchange.okx, .kuCoin, .mexc])
  have hretag : Rest.Aster.retag .aster inner.instrument = id := by
    unfold Rest.Aster.retag
    rw [← hforwarded, ← hids id hid]
  exact ⟨hretag ▸ hid, .inl hcoins, hbucket, hnow⟩

/-- A row of OKX is in coins if it says how many. -/
theorem own_okx (hids : ∀ id ∈ ids, id.exchange = .okx) (rows : List Okx.OiRow) :
    ∀ r ∈ Okx.fetchOi T rows ids bucket now, Own ids bucket now r := by
  refine own_collect Okx.OiRow.instId hids fun row r hr => ?_
  obtain ⟨⟨value, unit⟩, hunit, rfl⟩ := Option.map_eq_some_iff.mp hr
  refine ⟨rfl, ?_, rfl, rfl⟩
  rw [show _ = _ from Okx.valueUnit_unit hunit]
  by_cases hcoins : row.oiCcy = ""
  · rw [if_pos hcoins]
    exact .inr ⟨rfl, by decide⟩
  · rw [if_neg hcoins]
    exact .inl rfl

theorem own_hyperliquid (hids : ∀ id ∈ ids, id.exchange = .hyperliquid) {names : List String}
    {ctxs : List Rest.Hyperliquid.AssetCtx} {raws : List RawOi}
    (h : Rest.Hyperliquid.fetchOi T O names ctxs ids bucket now = .ok raws) :
    ∀ r ∈ raws, Own ids bucket now r := by
  unfold Rest.Hyperliquid.fetchOi at h
  split at h
  · cases h
  · obtain rfl := Except.ok.inj h
    refine own_collect id hids fun name r hr => ?_
    obtain ⟨entry, hentry, hraw⟩ := Option.bind_eq_some_iff.mp hr
    obtain ⟨value, -, rfl⟩ := Option.map_eq_some_iff.mp hraw
    refine ⟨?_, .inl rfl, rfl, rfl⟩
    rw [(lastOf_mem hentry).2]
    rfl

/-- Every row is one of an instrument that was asked for. -/
theorem own_fetchOi (hids : ∀ id ∈ ids, id.exchange = e) {answer : OiAnswer e}
    (hasked : Asked ids e answer) {raws : List RawOi}
    (h : fetchOi T O bucket now ids e answer = .ok raws) : ∀ r ∈ raws, Own ids bucket now r := by
  cases e with
  | binance =>
    obtain rfl := Except.ok.inj h
    exact own_completions hasked
  | bingX =>
    obtain rfl := Except.ok.inj h
    exact own_completions hasked
  | aster =>
    obtain rfl := Except.ok.inj h
    exact own_aster hids hasked
  | bybit =>
    obtain rfl := Except.ok.inj h
    refine own_collect _ hids fun row r hr => ?_
    obtain ⟨hinstrument, hunit, hbucket, hnow⟩ := textOi_eq_some hr
    exact ⟨hinstrument, .inl hunit, hbucket, hnow⟩
  | bitget =>
    obtain rfl := Except.ok.inj h
    refine own_collect _ hids fun row r hr => ?_
    obtain ⟨hinstrument, hunit, hbucket, hnow⟩ := textOi_eq_some hr
    exact ⟨hinstrument, .inl hunit, hbucket, hnow⟩
  | kuCoin =>
    obtain rfl := Except.ok.inj h
    refine own_collect _ hids fun row r hr => ?_
    obtain ⟨hinstrument, hunit, hbucket, hnow⟩ := textOi_eq_some hr
    exact ⟨hinstrument, .inr ⟨hunit, by decide⟩, hbucket, hnow⟩
  | mexc =>
    obtain rfl := Except.ok.inj h
    refine own_collect _ hids fun row r hr => ?_
    obtain ⟨value, -, rfl⟩ := Option.map_eq_some_iff.mp hr
    exact ⟨rfl, .inr ⟨rfl, by decide⟩, rfl, rfl⟩
  | okx =>
    obtain rfl := Except.ok.inj h
    exact own_okx hids answer
  | hyperliquid => exact own_hyperliquid hids h

end

theorem exchange_of_activeIds {T : DecimalText} {e : Exchange} {listing : List (Listed e)}
    {id : InstrumentId} (h : id ∈ activeIds (discovered T e listing)) : id.exchange = e := by
  obtain ⟨info, hinfo, rfl⟩ := List.mem_map.mp h
  exact Exchanges.Discovery.exchange_of_discovered (List.mem_filter.mp hinfo).1

/-- A row without the two instants that are the same for all rows. -/
def fetchedRow (r : RawOi) : FetchedRow := ⟨r.instrument, r.value, r.unit, r.priceHint⟩

theorem raw_fetchedRow {ids : List InstrumentId} {bucket now : Int} {r : RawOi}
    (h : Own ids bucket now r) : (fetchedRow r).raw bucket now = r := by
  unfold fetchedRow FetchedRow.raw
  rw [← h.bucketTs, ← h.recvTs]

/-! ## The minute loop -/

/-- What the venue answers, whatever instruments are asked for, and what other tasks do before the
row of each number and after the last one. -/
structure Polled (e : Exchange) where
  recvTs : Int
  order : MapOrder
  answer : (ids : List InstrumentId) → { a : OiAnswer e // Asked ids e a }
  between : ℕ → List (Meanwhile e)
  after : List (Meanwhile e)

/-- What a tick of the loop meets at its venue. -/
structure Minute (e : Exchange) where
  now : Int
  before : List (Meanwhile e)
  prices : Option (PriceFetch e)
  oi : Option (Polled e)
  relisted : Option (List (Listed e))

section

variable (T : DecimalText) (A : DecimalArith) {e : Exchange}

/-- The rows that the adapter returns for the active instruments. A failed call is `none`. -/
def answered (metas : List InstrumentMeta) (bucket : Int) (polled : Polled e) :
    Option (List RawOi) :=
  (fetchOi T polled.order bucket polled.recvTs (activeIds metas) e
    (polled.answer (activeIds metas)).val).toOption

def polledRows (metas : List InstrumentMeta) (bucket : Int) (polled : Polled e) :
    Option (OiFetch e) :=
  (answered T metas bucket polled).map fun raws =>
    ⟨polled.recvTs, raws.zipIdx.map fun (r, i) => (polled.between i, fetchedRow r), polled.after⟩

def tickInput (s : LoopState) (m : Minute e) : TickInput e where
  now := m.now
  before := m.before
  prices := m.prices
  oi := m.oi.bind (polledRows T s.metas (s.sched.next m.now).2.1.bucketTs)
  rediscovered := m.relisted.map (discovered T e)

def step (r : Run) (m : Minute e) : Option Run := ExchangeLoop.step A r (tickInput T r.state m)

def start (listing : List (Listed e)) (prices : PriceProvider.InMemoryPriceProvider) : Run :=
  ExchangeLoop.start (discovered T e listing) prices

/-- The tick hands over one batch for the rows that the adapter returns, and none if it fails. -/
def HandsOver (r : Run) (m : Minute e) : Prop :=
  ∀ r', step T A r m = some r' →
    let bucket := (r.state.sched.next m.now).2.1.bucketTs
    r'.handed.map Handed.fetched = r.handed.map Handed.fetched ++
      ((m.oi.bind (answered T r.state.metas bucket)).map (⟨bucket, r.state.metas, ·⟩)).toList

end

/-- Every row of the payload is one of a tracked instrument and was looked up with its metadata. -/
structure Matched (h : Handed) : Prop where
  tracked : ∀ r ∈ h.payload, ∃ info ∈ active h.metas, info.id = r.instrument
  lookups : h.lookups.map Lookup.row = h.payload

section

variable {T : DecimalText} {A : DecimalArith} {e : Exchange} {metas : List InstrumentMeta}
  {bucket recvTs : Int}

theorem lookups_observeRows {rows : List (List (Meanwhile e) × FetchedRow)} {s done : Rows}
    (hknown : ∀ row ∈ rows, ∃ info ∈ metas, info.id = row.2.instrument)
    (h : observeRows A metas bucket recvTs s rows = .ok done) :
    done.lookups.map Lookup.row =
      s.lookups.map Lookup.row ++ rows.map fun row => row.2.raw bucket recvTs := by
  unfold observeRows at h
  induction rows generalizing s with
  | nil =>
    obtain rfl := Except.ok.inj h
    exact (List.append_nil _).symm
  | cons row rest ih =>
    rw [List.foldlM_cons] at h
    obtain ⟨next, hrow, hrest⟩ := OiSample.bind_eq_ok.mp h
    rw [ih (fun row hrow => hknown row (List.mem_cons_of_mem _ hrow)) hrest]
    rcases observeRow_cases hrow with ⟨hnone, -⟩ | ⟨info, -, -, sample, -, -, -, rfl⟩
    · obtain ⟨info, hinfo, hid⟩ := hknown row List.mem_cons_self
      exact absurd hid (hnone info hinfo)
    · rw [List.map_append, List.append_assoc]
      rfl

theorem own_answered {polled : Polled e} {raws : List RawOi}
    (hmetas : ∃ listing, metas = discovered T e listing)
    (h : answered T metas bucket polled = some raws) :
    ∀ r ∈ raws, Own (activeIds metas) bucket polled.recvTs r := by
  obtain ⟨listing, rfl⟩ := hmetas
  have hfetch : fetchOi T polled.order bucket polled.recvTs (activeIds (discovered T e listing)) e
      (polled.answer (activeIds (discovered T e listing))).val = .ok raws := by
    unfold answered at h
    revert h
    cases fetchOi T polled.order bucket polled.recvTs (activeIds (discovered T e listing)) e
      (polled.answer (activeIds (discovered T e listing))).val with
    | error e =>
      intro h
      cases h
    | ok rows =>
      intro h
      rw [Option.some.inj h]
  exact own_fetchOi (fun _ => exchange_of_activeIds) (polled.answer _).property hfetch

/-- The rows that the loop is given are the rows of the adapter. -/
theorem polledRows_cases {polled : Polled e} {fetch : OiFetch e}
    (hmetas : ∃ listing, metas = discovered T e listing)
    (h : polledRows T metas bucket polled = some fetch) :
    (∀ row ∈ fetch.rows, ∃ info ∈ active metas, info.id = row.2.instrument) ∧
      answered T metas bucket polled =
        some (fetch.rows.map fun row => row.2.raw bucket fetch.recvTs) := by
  obtain ⟨raws, hraws, rfl⟩ := Option.map_eq_some_iff.mp h
  have hown := own_answered hmetas hraws
  constructor
  · intro row hrow
    obtain ⟨⟨r, i⟩, hr, rfl⟩ := List.mem_map.mp hrow
    have hmem := (hown r (List.fst_mem_of_mem_zipIdx hr)).requested
    obtain ⟨info, hinfo, hid⟩ := List.mem_map.mp hmem
    exact ⟨info, hinfo, hid⟩
  · have hsame : raws.zipIdx.map (fun p => (fetchedRow p.1).raw bucket polled.recvTs) =
        raws.zipIdx.map Prod.fst := List.map_congr_left fun p hp =>
      raw_fetchedRow (hown p.1 (List.fst_mem_of_mem_zipIdx hp))
    rw [hraws, List.map_map]
    rw [List.zipIdx_map_fst] at hsame
    exact congrArg some hsame.symm

/-- What the tick fetched is what the adapter returned. -/
theorem fetches_tickInput {s : LoopState} (hmetas : ∃ listing, s.metas = discovered T e listing)
    (m : Minute e) :
    let bucket := (s.sched.next m.now).2.1.bucketTs
    fetches s.metas s.sched [tickInput T s m] =
      ((m.oi.bind (answered T s.metas bucket)).map (⟨bucket, s.metas, ·⟩)).toList := by
  intro bucket
  simp only [fetches]
  cases hoi : (tickInput T s m).oi with
  | none =>
    have hnone : m.oi.bind (answered T s.metas bucket) = none := by
      cases hm : m.oi with
      | none => rfl
      | some polled =>
        change m.oi.bind (polledRows T s.metas bucket) = none at hoi
        rw [hm] at hoi
        exact Option.map_eq_none_iff.mp hoi
    rw [hnone]
    rfl
  | some fetch =>
    obtain ⟨polled, hm, hpolled⟩ := Option.bind_eq_some_iff.mp hoi
    rw [hm, Option.bind_some, (polledRows_cases hmetas hpolled).2]
    rfl

/-- The metadata come from a discovery, and all that was handed over is matched. -/
structure Inv (T : DecimalText) (e : Exchange) (r : Run) : Prop where
  metas : ∃ listing : List (Listed e), r.state.metas = discovered T e listing
  handed : ∀ h ∈ r.handed, Matched h

theorem inv_step {r r' : Run} {m : Minute e} (h : Inv T e r) (hstep : step T A r m = some r') :
    Inv T e r' := by
  obtain ⟨state, handed, htick, rfl⟩ := step_eq_some hstep
  cases hoi : (tickInput T r.state m).oi with
  | none =>
    obtain ⟨rfl, rfl⟩ := tick_fetch_failed hoi htick
    exact ⟨h.metas, by rw [Option.toList_none, List.append_nil]; exact h.handed⟩
  | some fetch =>
    obtain ⟨done, minute, rfl, hdone, shared, -, rfl, rfl⟩ := tick_fetched hoi htick
    obtain ⟨polled, -, hpolled⟩ := Option.bind_eq_some_iff.mp hoi
    have hrows := (polledRows_cases h.metas hpolled).1
    have hlookups := lookups_observeRows
      (fun row hrow => (hrows row hrow).imp fun _ h => ⟨(List.mem_filter.mp h.1).1, h.2⟩) hdone
    refine ⟨?metas, fun new hnew => ?handed⟩
    case metas =>
      show ∃ listing : List (Listed e),
        (m.relisted.map (discovered T e)).getD r.state.metas = discovered T e listing
      cases m.relisted with
      | none => exact h.metas
      | some listing => exact ⟨listing, rfl⟩
    case handed =>
      rcases List.mem_append.mp hnew with hold | hnew
      · exact h.handed new hold
      · obtain rfl := Option.some.inj (Option.mem_toList.mp hnew)
        refine ⟨fun raw hraw => ?_, hlookups⟩
        obtain ⟨row, hrow, rfl⟩ := List.mem_map.mp hraw
        exact hrows row hrow

theorem handsOver_of_inv {r : Run} (h : Inv T e r) (m : Minute e) : HandsOver T A r m := by
  intro r' hstep
  have hfetches := step_fetches hstep []
  rw [fetches_tickInput h.metas] at hfetches
  exact (List.append_nil _).symm.trans hfetches

/-- Whatever the venue lists and answers, over any number of ticks and rediscoveries: every row that
an adapter returns is handed over in the batch of its tick, is one of an active instrument of the
metadata of that tick, and the loop looks it up. No row of any venue is dropped as one of an unknown
symbol. -/
theorem no_fetched_row_is_unknown (T : DecimalText) (A : DecimalArith) (e : Exchange)
    (listing : List (Listed e)) (prices : PriceProvider.InMemoryPriceProvider)
    (minutes : List (Minute e)) :
    Throughout (step T A) (fun r => ∀ h ∈ r.handed, Matched h) (start T listing prices) minutes ∧
      Along (step T A) (HandsOver T A) (start T listing prices) minutes := by
  have hstart : Inv T e (start T listing prices) :=
    ⟨⟨listing, rfl⟩, fun _ h => (List.not_mem_nil h).elim⟩
  have hall : Along (step T A) (fun _ _ => True) (start T listing prices) minutes :=
    along_of_forall (fun _ _ => trivial) _
  exact ⟨throughout_of_step (fun _ _ _ h hstep => inv_step h hstep) (fun _ h => h.handed) hstart,
    along_of_along (fun _ _ _ h _ hstep => inv_step h hstep)
      (fun _ m _ h _ _ => handsOver_of_inv h m) hstart hall⟩

end

/-! ## The resync -/

/-- A bar of this row alone, converted with this metadata. -/
structure Converted (A : DecimalArith) (info : InstrumentMeta) (r : RawOi) (bar : OiSnapshot) :
    Prop where
  instrument : bar.instrument = r.instrument
  bucketTs : bar.bucketTs = r.bucketTs
  native : bar.nativeUnit = r.unit ∧ bar.nativeClose = r.value
  coins : r.unit.toCoins A r.value info.contractMultiplier = .ok bar.oiCoinsClose
  missing : bar.oiCoinsClose = none ↔ r.unit = .contracts ∧ info.contractMultiplier = none

section

variable {T : DecimalText} {A : DecimalArith} {e : Exchange} {metas : List InstrumentMeta}
  {prices : List PriceQuote} {bucket now : Int} {ids : List InstrumentId} {r : RawOi}

/-- Coins are missing only for contracts of which the size is not known. -/
theorem toCoins_eq_none {native : Decimal} {multiplier coins : Option Decimal} {unit : UnitKind}
    (hunit : unit ≠ .usd) (h : unit.toCoins A native multiplier = .ok coins) :
    coins = none ↔ unit = .contracts ∧ multiplier = none := by
  cases unit with
  | usd => exact absurd rfl hunit
  | coins =>
    rw [← Except.ok.inj h]
    simp
  | contracts =>
    cases multiplier with
    | none =>
      rw [← Except.ok.inj h]
      simp
    | some size =>
      obtain ⟨product, -, hsome⟩ := OiSample.bind_eq_ok.mp h
      rw [← Except.ok.inj hsome]
      simp

theorem converted_of_enrich {info : InstrumentMeta} {price : Option Decimal}
    {result : Except ExchangeError OiSample} (hid : r.instrument = info.id) (hunit : r.unit ≠ .usd)
    (h : OiSample.enrich A r info price = .ok result) :
    ∃ s, result = .ok s ∧ Converted A info r (.startFromSample s) := by
  unfold OiSample.enrich at h
  rw [if_neg (not_not_intro hid)] at h
  obtain ⟨coins, hcoins, hrest⟩ := OiSample.bind_eq_ok.mp h
  obtain ⟨usd, -, hlast⟩ := OiSample.bind_eq_ok.mp hrest
  exact ⟨_, (Except.ok.inj hlast).symm, rfl, rfl, ⟨rfl, rfl⟩, hcoins,
    toCoins_eq_none hunit hcoins⟩

/-- A row with metadata becomes a bar, if no multiplication overflows. -/
theorem resyncBar_known {info : InstrumentMeta} {bar : Option OiSnapshot}
    (hinfo : lastOf InstrumentMeta.id r.instrument metas = some info) (hunit : r.unit ≠ .usd)
    (h : resyncBar A metas prices r = .ok bar) : ∃ b, bar = some b ∧ Converted A info r b := by
  have hid : r.instrument = info.id := (lastOf_mem hinfo).2.symm
  unfold resyncBar at h
  rw [hinfo] at h
  dsimp only at h
  split at h
  case h_1 => cases h
  case h_2 henrich =>
    obtain ⟨s, hs, -⟩ := converted_of_enrich hid hunit henrich
    cases hs
  case h_3 sample henrich =>
    obtain ⟨s, hs, hconverted⟩ := converted_of_enrich hid hunit henrich
    obtain rfl := Except.ok.inj hs
    exact ⟨_, (Except.ok.inj h).symm, hconverted⟩

/-- Each row becomes a bar with the last metadata of its instrument. -/
def Each (A : DecimalArith) (metas : List InstrumentMeta) (r : RawOi) (bar : OiSnapshot) : Prop :=
  ∃ info, lastOf InstrumentMeta.id r.instrument metas = some info ∧ Converted A info r bar

theorem resyncBars_known {raws : List RawOi} {bars : List OiSnapshot}
    (hids : ∀ id ∈ ids, ∃ info ∈ metas, info.id = id)
    (hraws : ∀ r ∈ raws, Own ids bucket now r) (h : resyncBars A metas prices raws = .ok bars) :
    List.Forall₂ (Each A metas) raws bars := by
  induction raws generalizing bars with
  | nil =>
    obtain rfl := Except.ok.inj h
    exact .nil
  | cons r rest ih =>
    obtain ⟨first, hfirst, hmore⟩ := OiSample.bind_eq_ok.mp h
    obtain ⟨others, hothers, hbars⟩ := OiSample.bind_eq_ok.mp hmore
    obtain rfl := Except.ok.inj hbars
    have hown := hraws r List.mem_cons_self
    have hunit : r.unit ≠ .usd := by
      rcases hown.unit with hcoins | ⟨hcontracts, -⟩
      · rw [hcoins]
        decide
      · rw [hcontracts]
        decide
    obtain ⟨info, hinfo⟩ : ∃ info, lastOf InstrumentMeta.id r.instrument metas = some info := by
      rw [← Option.ne_none_iff_exists', Ne, lastOf_eq_none_iff]
      obtain ⟨known, hknown, hid⟩ := hids _ hown.requested
      exact fun hnone => hnone known hknown hid
    obtain ⟨bar, rfl, hconverted⟩ := resyncBar_known hinfo hunit hfirst
    exact .cons ⟨info, hinfo, hconverted⟩
      (ih (fun r hr => hraws r (List.mem_cons_of_mem _ hr)) hothers)

end

/-- What a resync of a bucket meets at its venue and at the repository. -/
structure Repair (e : Exchange) where
  listed : Except String (List (Listed e))
  instrumentsStored : Except String Unit
  prices : Except String (List PriceQuote)
  recvTs : Int
  order : MapOrder
  answer : (ids : List InstrumentId) → Except String { a : OiAnswer e // Asked ids e a }
  errorText : ExchangeError → String
  stored : Except String Unit

section

variable (T : DecimalText) {e : Exchange} (bucket : Int) (v : Repair e)

/-- The rows of the adapter, for the metadata that it has found. -/
def Repair.fetched (metas : List InstrumentMeta) : Except String (List RawOi) := do
  let answer ← v.answer (activeIds metas)
  (fetchOi T v.order bucket v.recvTs (activeIds metas) e answer.val).mapError v.errorText

def Repair.answers : Answers where
  adapter := .ok ()
  metas := v.listed.map (discovered T e)
  instrumentsStored := v.instrumentsStored
  prices := v.prices
  rows := do
    let listing ← v.listed
    let raws ← v.fetched T bucket (discovered T e listing)
    return (v.recvTs, raws.map fetchedRow)
  stored := v.stored

end

theorem own_fetched {T : DecimalText} {e : Exchange} {bucket : Int} {v : Repair e}
    {listing : List (Listed e)} {raws : List RawOi}
    (h : v.fetched T bucket (discovered T e listing) = .ok raws) :
    ∀ r ∈ raws, Own (activeIds (discovered T e listing)) bucket v.recvTs r := by
  obtain ⟨answer, -, hfetch⟩ := OiSample.bind_eq_ok.mp h
  refine own_fetchOi (fun _ => exchange_of_activeIds) answer.property (O := v.order) (T := T) ?_
  revert hfetch
  cases fetchOi T v.order bucket v.recvTs (activeIds (discovered T e listing)) e answer.val with
  | error e =>
    intro h
    cases h
  | ok rows =>
    intro h
    rw [Except.ok.inj h]

/-- A resync gives the repository nothing, or the bars of the rows. -/
theorem resyncBucket_cases (A : DecimalArith) (bucket : Int) (w : Answers) :
    let done := resyncBucket A bucket w
    (done.handed = [] ∧ ∀ n, done.outcome ≠ .wrote n) ∨
      ∃ metas recvTs rows, w.metas = .ok metas ∧ w.rows = .ok (recvTs, rows) ∧
        resyncBars A metas (w.prices.toOption.getD []) (rows.map (·.raw bucket recvTs)) =
          .ok done.handed ∧
        (w.stored = .ok () ∧ done.outcome = .wrote done.handed.length ∨
          ∃ message, w.stored = .error message ∧ done.outcome = .failed message) := by
  intro done
  have hdone : done = resyncBucket A bucket w := rfl
  unfold resyncBucket at hdone
  split at hdone
  case h_5 metas recvTs rows _ hmetas _ hrows =>
    split at hdone
    case h_1 => exact .inl ⟨by rw [hdone], by rw [hdone]; simp⟩
    case h_2 snaps hsnaps =>
      refine .inr ⟨metas, recvTs, rows, hmetas, hrows, ?_⟩
      split at hdone
      case h_1 message hstored =>
        rw [hdone]
        exact ⟨hsnaps, .inr ⟨message, hstored, rfl⟩⟩
      case h_2 hstored =>
        rw [hdone]
        exact ⟨hsnaps, .inl ⟨hstored, rfl⟩⟩
  all_goals exact .inl ⟨by rw [hdone], by rw [hdone]; simp⟩

/-- A resync is all or nothing. Either it gives the repository nothing and does not succeed, or it
gives it one bar for each row of the adapter, in order and converted with the metadata of its
instrument, and it reports their number or that the repository failed. -/
theorem resync_writes_each_row (T : DecimalText) (A : DecimalArith) (e : Exchange) (bucket : Int)
    (v : Repair e) :
    let done := resyncBucket A bucket (v.answers T bucket)
    (done.handed = [] ∧ ∀ n, done.outcome ≠ .wrote n) ∨
      ∃ listing raws, v.listed = .ok listing ∧
        v.fetched T bucket (discovered T e listing) = .ok raws ∧
        List.Forall₂ (Each A (discovered T e listing)) raws done.handed ∧
        (v.stored = .ok () ∧ done.outcome = .wrote raws.length ∨
          ∃ message, v.stored = .error message ∧ done.outcome = .failed message) := by
  intro done
  rcases resyncBucket_cases A bucket (v.answers T bucket) with hnothing | hbars
  · exact .inl hnothing
  obtain ⟨metas, recvTs, rows, hmetas, hrows, hbars, hend⟩ := hbars
  obtain ⟨listing, hlisted, hrest⟩ := OiSample.bind_eq_ok.mp hrows
  obtain ⟨raws, hraws, hpair⟩ := OiSample.bind_eq_ok.mp hrest
  obtain ⟨rfl, rfl⟩ := Prod.mk.inj (Except.ok.inj hpair)
  obtain rfl : discovered T e listing = metas := by
    have hmap : v.listed.map (discovered T e) = .ok metas := hmetas
    rw [hlisted] at hmap
    exact Except.ok.inj hmap
  have hown := own_fetched hraws
  have hsame : (raws.map fetchedRow).map (·.raw bucket v.recvTs) = raws := by
    rw [List.map_map]
    exact (List.map_congr_left fun r hr => raw_fetchedRow (hown r hr)).trans (List.map_id raws)
  rw [hsame] at hbars
  have hids : ∀ id ∈ activeIds (discovered T e listing),
      ∃ info ∈ discovered T e listing, info.id = id := by
    intro id hid
    obtain ⟨info, hinfo, rfl⟩ := List.mem_map.mp hid
    exact ⟨info, (List.mem_filter.mp hinfo).1, rfl⟩
  have heach := resyncBars_known hids hown hbars
  refine .inr ⟨listing, raws, hlisted, hraws, heach, ?_⟩
  rw [heach.length_eq]
  exact hend

end OiTerminal.Collector.Metadata
