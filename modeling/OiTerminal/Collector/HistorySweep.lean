import OiTerminal.Collector.SweepPool
import OiTerminal.Exchanges.Rest

/-!
# What a sweep sees of a history

A sweep asks each adapter for the settlements after the last one it has stored. The venue may
answer with any rows, that one and older ones among them.
-/
namespace OiTerminal.Collector.HistorySweep

open OiTerminal.Core OiTerminal.Core.Time
open OiTerminal.Collector.FundingSweep (NotDue exampleId exampleRate)
open OiTerminal.Collector.SweepPool
open OiTerminal.Exchanges.Rest
open OiTerminal.Lib
open OiTerminal.Lib.Transition
open OiTerminal.Storage.ClickHouse (CoreError)

set_option autoImplicit false

/-- A row of the history of a venue. -/
def HistoryRow : Exchange → Type
  | .binance | .aster => Binance.HistoryRow
  | .bybit => Bybit.HistoryRow
  | .okx => Okx.HistoryRow
  | .bingX => BingX.HistoryRow
  | .kuCoin => KuCoin.HistoryRow
  | .mexc => Mexc.HistoryRow
  | .bitget => Bitget.HistoryRow
  | .hyperliquid => Hyperliquid.HistoryRow

section

variable (T : DecimalText)

def fetchFundingHistory : (e : Exchange) → List (HistoryRow e) → InstrumentId → Option Int →
    List FundingEvent
  | .binance => Binance.fetchFundingHistory T
  | .aster => Aster.fetchFundingHistory T
  | .bybit => Bybit.fetchFundingHistory T
  | .okx => Okx.fetchFundingHistory T
  | .bingX => BingX.fetchFundingHistory T
  | .kuCoin => KuCoin.fetchFundingHistory T
  | .mexc => Mexc.fetchFundingHistory T
  | .bitget => Bitget.fetchFundingHistory T
  | .hyperliquid => Hyperliquid.fetchFundingHistory T

/-- The settlement in a row, if its rate and its time can be read. -/
def toEvent : (e : Exchange) → InstrumentId → HistoryRow e → Option FundingEvent
  | .binance => Binance.toEvent T
  | .aster => fun id r => (Binance.toEvent T ⟨.binance, id.symbol⟩ r).map fun e =>
      { e with instrument := Aster.retag .aster e.instrument }
  | .bybit => Bybit.toEvent T
  | .okx => Okx.toEvent T
  | .bingX => BingX.toEvent T
  | .kuCoin => KuCoin.toEvent T
  | .mexc => Mexc.toEvent T
  | .bitget => Bitget.toEvent T
  | .hyperliquid => Hyperliquid.toEvent T

end

/-- The adapters that compare a settlement with the cursor themselves. -/
def dropsOld : Exchange → Bool
  | .bingX | .kuCoin | .mexc | .bitget | .hyperliquid => true
  | .binance | .aster | .bybit | .okx => false

section

variable (T : DecimalText) (e : Exchange) (id : InstrumentId) (s : Int)
  (rows : List (HistoryRow e))

/-- A fetch from the cursor on returns nothing up to it, and all that can be read after it. -/
structure OnlyNew : Prop where
  newer : ∀ ev ∈ fetchFundingHistory T e rows id (some s), s < ev.settlementTs
  complete : ∀ r ∈ rows, ∀ ev, toEvent T e id r = some ev → s < ev.settlementTs →
    ev ∈ fetchFundingHistory T e rows id (some s)

/-- The venue has nothing after the cursor. -/
def NothingNew : Prop := ∀ r ∈ rows, ∀ ev, toEvent T e id r = some ev → ev.settlementTs ≤ s

/-- The venue has answered with nothing up to the cursor. -/
def NothingOld : Prop := ∀ r ∈ rows, ∀ ev, toEvent T e id r = some ev → s < ev.settlementTs

end

/-- A task that has a cursor and is answered with nothing after it. -/
structure UpToDate (T : DecimalText) (e : Exchange) (io : TaskIo) (id : InstrumentId) (s : Int)
    (rows : List (HistoryRow e)) : Prop where
  runs : io.panics = false
  cursor : since (io.latest id) = some s
  answer : io.history id (some s) = .ok (fetchFundingHistory T e rows id (some s))
  nothingNew : NothingNew T e id s rows

variable {T : DecimalText} {e : Exchange} {id : InstrumentId} {s : Int}
  {rows : List (HistoryRow e)}

/-- Every adapter goes through the rows, with or without the comparison. -/
theorem fetchFundingHistory_eq (T : DecimalText) (e : Exchange) (rows : List (HistoryRow e))
    (id : InstrumentId) (since : Option Int) : fetchFundingHistory T e rows id since =
      rows.filterMap fun r =>
        (toEvent T e id r).filter fun ev => !dropsOld e || newer since ev := by
  have hkept : ∀ (o : Option FundingEvent) (p : FundingEvent → Bool),
      o.filter (fun ev => !false || p ev) = o := by
    intro o p
    cases o <;> rfl
  cases e with
  | aster => exact List.map_filterMap.trans (List.filterMap_congr fun r _ => (hkept _ _).symm)
  | binance => exact List.filterMap_congr fun r _ => (hkept _ _).symm
  | bybit => exact List.filterMap_congr fun r _ => (hkept _ _).symm
  | okx => exact List.filterMap_congr fun r _ => (hkept _ _).symm
  | _ => rfl

theorem mem_fetchFundingHistory {ev : FundingEvent} :
    ev ∈ fetchFundingHistory T e rows id (some s) ↔
      ∃ r ∈ rows, toEvent T e id r = some ev ∧ (dropsOld e = true → s < ev.settlementTs) := by
  rw [fetchFundingHistory_eq, List.mem_filterMap]
  simp only [Option.filter_eq_some_iff, newer, Bool.or_eq_true, Bool.not_eq_true',
    decide_eq_false_iff_not, not_le]
  cases dropsOld e <;> simp

/-- An adapter keeps to the cursor exactly if it compares, or has nothing to drop. -/
theorem onlyNew_iff (T : DecimalText) (e : Exchange) (id : InstrumentId) (s : Int)
    (rows : List (HistoryRow e)) :
    OnlyNew T e id s rows ↔ dropsOld e = true ∨ NothingOld T e id s rows := by
  constructor
  · intro h
    by_cases hdrops : dropsOld e = true
    · exact .inl hdrops
    · refine .inr fun r hr ev hev => ?_
      exact h.newer ev (mem_fetchFundingHistory.mpr ⟨r, hr, hev, fun h => absurd h hdrops⟩)
  · intro h
    constructor
    · intro ev hmem
      obtain ⟨r, hr, hev, hdropped⟩ := mem_fetchFundingHistory.mp hmem
      rcases h with hdrops | hold
      · exact hdropped hdrops
      · exact hold r hr ev hev
    · intro r hr ev hev hnew
      exact mem_fetchFundingHistory.mpr ⟨r, hr, hev, fun _ => hnew⟩

/-- Where there is nothing new, keeping to the cursor is to return nothing. -/
theorem fetch_eq_nil_iff (h : NothingNew T e id s rows) :
    fetchFundingHistory T e rows id (some s) = [] ↔
      dropsOld e = true ∨ NothingOld T e id s rows := by
  rw [← onlyNew_iff]
  constructor
  · intro hnil
    constructor
    · intro ev hmem
      rw [hnil] at hmem
      cases hmem
    · intro r hr ev hev hnew
      exact absurd hnew (not_lt.mpr (h r hr ev hev))
  · intro honly
    refine List.eq_nil_iff_forall_not_mem.mpr fun ev hmem => ?_
    obtain ⟨r, hr, hev, -⟩ := mem_fetchFundingHistory.mp hmem
    exact absurd (honly.newer ev hmem) (not_lt.mpr (h r hr ev hev))

theorem UpToDate.fetchTask {io : TaskIo} (h : UpToDate T e io id s rows) :
    fetchTask io id = .fetched (if NotDue io.now (some s) then []
      else fetchFundingHistory T e rows id (some s)) := by
  unfold SweepPool.fetchTask
  rw [h.runs, h.cursor, h.answer]
  split
  · contradiction
  · split <;> rfl

/-- A sweep reports the events of all answers. -/
theorem events_foldl (upserted : ℕ → Except CoreError Unit) (answers : List Joined) (t : Tally) :
    (answers.foldl (Tally.handle upserted) t).stats.events =
      t.stats.events + (answers.map fun a => a.events.length).sum := by
  have hflush : ∀ t : Tally, (t.flush upserted).stats.events = t.stats.events := by
    intro t
    unfold Tally.flush
    dsimp only
    split <;> rfl
  induction answers generalizing t with
  | nil => rfl
  | cons a rest ih =>
    have hhandle : (t.handle upserted a).stats.events = t.stats.events + a.events.length := by
      cases a with
      | panicked => rfl
      | failed e => rfl
      | fetched events =>
        unfold Tally.handle Joined.events
        dsimp only
        split
        · rename_i hnil
          rw [hnil]
          rfl
        · split
          · exact hflush _
          · rfl
    rw [List.foldl_cons, ih, hhandle, List.map_cons, List.sum_cons, Nat.add_assoc]

/-- Answers without events leave the tally of a sweep as it is. -/
theorem foldl_handle_quiet (upserted : ℕ → Except CoreError Unit) {answers : List Joined}
    (h : ∀ a ∈ answers, a = .fetched []) (t : Tally) :
    answers.foldl (Tally.handle upserted) t = t := by
  induction answers with
  | nil => rfl
  | cons a rest ih =>
    obtain rfl := h a List.mem_cons_self
    exact ih fun b hb => h b (List.mem_cons_of_mem _ hb)

/-- A sweep of tasks that fetch something reports and writes nothing exactly if all of them have
fetched nothing. -/
theorem quiet_iff (upserted : ℕ → Except CoreError Unit) {answers : List Joined}
    (hfetched : ∀ a ∈ answers, a = .fetched a.events) :
    (answers.foldl (Tally.handle upserted) .empty).finish upserted = .empty ↔
      ∀ a ∈ answers, a.events = [] := by
  have hfinish : ∀ t : Tally, (t.finish upserted).stats.events = t.stats.events := by
    intro t
    unfold Tally.finish Tally.flush
    dsimp only
    split
    · rfl
    · split <;> rfl
  constructor
  · intro h a ha
    have hevents := hfinish (answers.foldl (Tally.handle upserted) .empty)
    rw [h, events_foldl] at hevents
    have hsum : (answers.map fun a => a.events.length).sum = 0 := by
      rw [← Nat.zero_add (List.sum _)]
      exact hevents.symm
    exact List.length_eq_zero_iff.mp
      (List.sum_eq_zero_iff_forall_eq_nat.mp hsum _ (List.mem_map_of_mem ha))
  · intro h
    rw [foldl_handle_quiet upserted fun a ha => by rw [hfetched a ha, h a ha]]
    rfl

section

variable {instruments : List InstrumentId} {concurrency : ℕ} {io : ℕ → TaskIo}
  {upserted : ℕ → Except CoreError Unit} {order : List ℕ} {sweep : Sweep} {cursor : ℕ → Int}
  {answers : ℕ → List (HistoryRow e)}

/-- Once nothing is in flight, each instrument has been joined. -/
theorem mem_order_iff (hconcurrency : 0 < concurrency)
    (hrun : run (step instruments io upserted) (start instruments concurrency) order = some sweep)
    (hdrained : sweep.pool.inflight = []) (idx : ℕ) :
    idx ∈ order ↔ ∃ inst, instruments[idx]? = some inst := by
  have horder := FanOut.perm_of_drained hconcurrency (run_cases hrun).1 hdrained
  rw [horder.mem_iff, List.mem_range]
  constructor
  · intro hlt
    exact ⟨_, List.getElem?_eq_getElem hlt⟩
  · rintro ⟨inst, hinst⟩
    exact (List.getElem?_eq_some_iff.mp hinst).1

/-- The answer of a task with nothing new has no events, unless the venue has sent old ones to
an adapter that does not compare. -/
theorem UpToDate.joinedAt {idx : ℕ} {inst : InstrumentId} (hinst : instruments[idx]? = some inst)
    (h : UpToDate T e (io idx) inst (cursor idx) (answers idx)) :
    joinedAt instruments io idx = .fetched (joinedAt instruments io idx).events ∧
      ((joinedAt instruments io idx).events = [] ↔ NotDue (io idx).now (some (cursor idx)) ∨
        dropsOld e = true ∨ NothingOld T e inst (cursor idx) (answers idx)) := by
  have hjoined : SweepPool.joinedAt instruments io idx =
      .fetched (if NotDue (io idx).now (some (cursor idx)) then []
        else fetchFundingHistory T e (answers idx) inst (some (cursor idx))) := by
    unfold SweepPool.joinedAt
    rw [hinst]
    exact h.fetchTask
  rw [hjoined]
  refine ⟨rfl, ?_⟩
  rw [← fetch_eq_nil_iff h.nothingNew]
  unfold Joined.events
  dsimp only
  by_cases hdue : NotDue (io idx).now (some (cursor idx))
  · rw [if_pos hdue]
    exact iff_of_true rfl (.inl hdue)
  · rw [if_neg hdue, or_iff_right hdue]

/-- A sweep with nothing new, which has ended. -/
theorem quiet_sweep_iff (hconcurrency : 0 < concurrency)
    (hrun : run (step instruments io upserted) (start instruments concurrency) order = some sweep)
    (hdrained : sweep.pool.inflight = [])
    (h : ∀ idx inst, instruments[idx]? = some inst →
      UpToDate T e (io idx) inst (cursor idx) (answers idx)) :
    sweep.tally.finish upserted = .empty ↔ ∀ idx inst, instruments[idx]? = some inst →
      NotDue (io idx).now (some (cursor idx)) ∨ dropsOld e = true ∨
        NothingOld T e inst (cursor idx) (answers idx) := by
  have hmem := mem_order_iff hconcurrency hrun hdrained
  rw [(run_cases hrun).2]
  refine (quiet_iff upserted fun a ha => ?_).trans ?_
  · obtain ⟨idx, hidx, rfl⟩ := List.mem_map.mp ha
    obtain ⟨inst, hinst⟩ := (hmem idx).mp hidx
    exact ((h idx inst hinst).joinedAt hinst).1
  · rw [List.forall_mem_map]
    constructor
    · intro hall idx inst hinst
      exact ((h idx inst hinst).joinedAt hinst).2.mp (hall idx ((hmem idx).mpr ⟨inst, hinst⟩))
    · intro hall idx hidx
      obtain ⟨inst, hinst⟩ := (hmem idx).mp hidx
      exact ((h idx inst hinst).joinedAt hinst).2.mpr (hall idx inst hinst)

end

/-- A fetch keeps to its cursor exactly if the adapter compares or the venue has answered with
nothing up to the cursor. A sweep with nothing new reports nothing and writes nothing exactly if
this holds of every instrument that is due. -/
theorem history_only_new_iff (T : DecimalText) (e : Exchange) :
    (∀ (id : InstrumentId) (s : Int) (rows : List (HistoryRow e)),
      OnlyNew T e id s rows ↔ dropsOld e = true ∨ NothingOld T e id s rows) ∧
    ∀ (instruments : List InstrumentId) (concurrency : ℕ) (io : ℕ → TaskIo)
      (upserted : ℕ → Except CoreError Unit) (order : List ℕ) (sweep : Sweep) (cursor : ℕ → Int)
      (answers : ℕ → List (HistoryRow e)), 0 < concurrency →
      run (step instruments io upserted) (start instruments concurrency) order = some sweep →
      sweep.pool.inflight = [] →
      (∀ idx inst, instruments[idx]? = some inst →
        UpToDate T e (io idx) inst (cursor idx) (answers idx)) →
      (sweep.tally.finish upserted = .empty ↔ ∀ idx inst, instruments[idx]? = some inst →
        NotDue (io idx).now (some (cursor idx)) ∨ dropsOld e = true ∨
          NothingOld T e inst (cursor idx) (answers idx)) :=
  ⟨onlyNew_iff T e, fun _ _ _ _ _ _ _ _ hconcurrency hrun hdrained h =>
    quiet_sweep_iff hconcurrency hrun hdrained h⟩

theorem ts_of_settlement {rate : Option Decimal} {ts : Option Int} {ev : FundingEvent}
    (h : settlement id rate ts = some ev) : ts = some ev.settlementTs := by
  obtain ⟨rate, -, hmap⟩ := Option.bind_eq_some_iff.mp h
  obtain ⟨t, rfl, rfl⟩ := Option.map_eq_some_iff.mp hmap
  rfl

/-! The settlement of hour eight is stored, and the venue sends it again. -/

def storedAt : Int := ofMillis 28800000

def resentTo (e : Exchange) (rows : List (HistoryRow e)) : TaskIo where
  panics := false
  now := storedAt + minutes 60
  latest _ := .ok (some ⟨exampleId, storedAt, exampleRate, none⟩)
  history id since := .ok (fetchFundingHistory .plain e rows id since)

theorem bitget_resent_dropped : ∃ order sweep,
    run (step [exampleId] (fun _ => resentTo .bitget [⟨"0.0001", "28800000"⟩]) fun _ => .ok ())
      (start [exampleId] 1) order = some sweep ∧
    sweep.tally.finish (fun _ => .ok ()) = .empty := by
  let io (_ : ℕ) : TaskIo := resentTo .bitget [⟨"0.0001", "28800000"⟩]
  obtain ⟨order, pool, hpool, hdrained⟩ := FanOut.exists_complete_run [exampleId] 1 (answer io)
  obtain ⟨sweep, hrun, rfl⟩ := run_of_pool (s := start [exampleId] 1) (fun _ => .ok ()) hpool
  refine ⟨order, sweep, hrun, ?_⟩
  refine ((history_only_new_iff .plain .bitget).2 [exampleId] 1 io _ order sweep
    (fun _ => storedAt) (fun _ => [⟨"0.0001", "28800000"⟩]) (by decide) hrun hdrained ?_).mpr ?_
  · intro idx inst _
    refine ⟨rfl, rfl, rfl, ?_⟩
    intro r hr ev hev
    obtain rfl := List.mem_singleton.mp hr
    have hset : settlement inst (decimal .plain "0.0001") (parseMs "28800000") = some ev := hev
    have hts := ts_of_settlement hset
    have hread : parseMs "28800000" = some storedAt := by decide
    exact (Option.some.inj (hts.symm.trans hread)).le
  · intro idx inst _
    exact .inr (.inl rfl)

/-- Binance hands the settlement on, and it is stored once more. -/
theorem binance_resent_returned : ¬ ∀ (T : DecimalText) (e : Exchange) (id : InstrumentId) (s : Int)
    (rows : List (HistoryRow e)), OnlyNew T e id s rows := by
  intro h
  let resent : Binance.HistoryRow := ⟨"0.0001", 28800000, "64000.50"⟩
  let event : FundingEvent := ⟨exampleId, storedAt,
    ⟨false, 1, 4, by decide, by decide, fun _ => rfl⟩,
    some ⟨false, 6400050, 2, by decide, by decide, fun _ => rfl⟩⟩
  have hevent : toEvent .plain .binance exampleId resent = some event := by decide
  have hnewer := (h .plain .binance exampleId storedAt [resent]).newer event
    (mem_fetchFundingHistory.mpr ⟨resent, List.mem_singleton.mpr rfl, hevent, fun h => nomatch h⟩)
  exact lt_irrefl _ hnewer

end OiTerminal.Collector.HistorySweep
