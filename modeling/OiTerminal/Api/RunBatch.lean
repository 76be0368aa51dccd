import OiTerminal.Api.RangeBatch

/-!
# The loop over the queries of a batch

The helper behind all batch handlers, for any rows and payload. Answers are written by index
while the set of queries in flight is refilled in the order of completion.
-/
namespace OiTerminal.Api.RunBatch

open OiTerminal.Core
open OiTerminal.Storage.ClickHouse (CoreError)
open OiTerminal.Api.Range
open OiTerminal.Api.RangeBatch
open OiTerminal.Lib
open OiTerminal.Lib.Transition

set_option autoImplicit false

variable {Row Payload : Type}

/-- The query of an item, for the closures of the handlers. -/
abbrev Query (Row : Type) := ℕ → InstrumentId → Int → Int → Except CoreError (List Row)

section

variable (query : Query Row) (finalize : List Row → Payload) (dflt : Payload)

/-- A failed query gives the default payload with its error. -/
def batchEntry (idx : ℕ) (item : Parsed) : BatchEntry Payload :=
  match query idx item.1 item.2.1 item.2.2 with
  | .ok rows => ⟨item.1.exchange.code, item.1.symbol, none, finalize rows⟩
  | .error e => ⟨item.1.exchange.code, item.1.symbol, some (CoreError.text e), dflt⟩

/-- The next of the queries in flight to complete. -/
def step (items : List Parsed) :
    FanOut.Progress (BatchEntry Payload) → ℕ → Option (FanOut.Progress (BatchEntry Payload)) :=
  FanOut.step items (batchEntry query finalize dflt)

/-- The queries before the first completion. -/
def primed (items : List Parsed) : FanOut.Progress (BatchEntry Payload) :=
  FanOut.start items batchConcurrency

/-- The whole call, for an order of completion after which nothing is in flight. -/
def runBatchOf (items : List Parsed) (order : List ℕ) : Option (BatchResponse Payload) :=
  (run (step query finalize dflt items) (primed items) order).bind fun f =>
    if f.inflight = [] then
      match f.collect with
      | some results => some (.ok results)
      | none => some .panicked
    else none

end

/-- The handlers of the series call this helper. -/
theorem runBatch_eq {Dto Columns : Type} (S : Series Row Dto Columns) (ask : Query Row)
    (fmt : Option String) (items : List Parsed) (order : List ℕ) :
    runBatch S ask fmt items order =
      runBatchOf ask (S.body fmt) (defaultPayload S fmt) items order := by
  have hanswer : answerOf S ask fmt = batchEntry ask (S.body fmt) (defaultPayload S fmt) := by
    funext idx item
    unfold answerOf entryOf batchEntry
    cases ask idx item.1 item.2.1 item.2.2 <;> rfl
  unfold runBatch runBatchOf step primed
  rw [hanswer]
  congr 1
  funext f
  by_cases hdrained : f.inflight = []
  · rw [if_pos hdrained, if_pos hdrained]
    cases f.collect <;> rfl
  · rw [if_neg hdrained, if_neg hdrained]

/-- The entry of an item: its exchange and symbol, and the rows or the error of its query. -/
structure Answers (query : Query Row) (finalize : List Row → Payload) (dflt : Payload)
    (idx : ℕ) (item : Parsed) (entry : BatchEntry Payload) : Prop where
  exchange : entry.exchange = item.1.exchange.code
  symbol : entry.symbol = item.1.symbol
  rows : ∀ rows, query idx item.1 item.2.1 item.2.2 = .ok rows →
    entry.error = none ∧ entry.payload = finalize rows
  failed : ∀ e, query idx item.1 item.2.1 item.2.2 = .error e →
    entry.error = some (CoreError.text e) ∧ entry.payload = dflt

variable {query : Query Row} {finalize : List Row → Payload} {dflt : Payload}
  {items : List Parsed} {order : List ℕ} {f : FanOut.Progress (BatchEntry Payload)}

theorem answers_batchEntry (idx : ℕ) (item : Parsed) :
    Answers query finalize dflt idx item (batchEntry query finalize dflt idx item) := by
  unfold batchEntry
  cases hquery : query idx item.1 item.2.1 item.2.2 with
  | ok rows =>
    refine ⟨rfl, rfl, ?_, ?_⟩
    · intro rows' h
      rw [hquery] at h
      obtain rfl := Except.ok.inj h
      exact ⟨rfl, rfl⟩
    · intro e h
      rw [hquery] at h
      cases h
  | error e =>
    refine ⟨rfl, rfl, ?_, ?_⟩
    · intro rows h
      rw [hquery] at h
      cases h
    · intro e' h
      rw [hquery] at h
      obtain rfl := Except.error.inj h
      exact ⟨rfl, rfl⟩

/-- The slots of a call that has ended are all filled, in the order of the items. -/
theorem runBatchOf_of_drained
    (hrun : run (step query finalize dflt items) (primed items) order = some f)
    (hdrained : f.inflight = []) : runBatchOf query finalize dflt items order =
      some (.ok (items.mapIdx (batchEntry query finalize dflt))) := by
  have hcollect : f.collect = some (items.mapIdx (batchEntry query finalize dflt)) :=
    FanOut.collect_of_run (by decide) hrun hdrained
  unfold runBatchOf
  rw [hrun, Option.bind_some, if_pos hdrained, hcollect]

/-- Whatever the queries answer and in whichever order they complete: every item that was asked
for is in flight or has completed once, no more than the bound are in flight, each of these can
complete, and no more complete than there are items. When none is left, each item has been asked
for once, and the call returns one entry for each, which answers the item of its index. -/
theorem runBatchOf_exact (query : Query Row) (finalize : List Row → Payload) (dflt : Payload)
    (items : List Parsed) (order : List ℕ) (f : FanOut.Progress (BatchEntry Payload))
    (hrun : run (step query finalize dflt items) (primed items) order = some f) :
    FanOut.Reached items batchConcurrency (batchEntry query finalize dflt) order f ∧
      order.length ≤ items.length ∧
      (f.inflight = [] → order.Perm (List.range items.length) ∧
        ∃ results, runBatchOf query finalize dflt items order = some (.ok results) ∧
          results.length = items.length ∧
          ∀ (idx : ℕ) item, items[idx]? = some item →
            ∃ entry, results[idx]? = some entry ∧ Answers query finalize dflt idx item entry) := by
  refine ⟨FanOut.reached_of_run hrun, (FanOut.reached_of_run hrun).length_le, ?_⟩
  intro hdrained
  refine ⟨FanOut.perm_of_drained (by decide) hrun hdrained, _,
    runBatchOf_of_drained hrun hdrained, List.length_mapIdx, ?_⟩
  intro idx item hitem
  refine ⟨batchEntry query finalize dflt idx item, ?_, answers_batchEntry idx item⟩
  rw [List.getElem?_mapIdx, hitem]
  rfl

/-- Two items, the second of which cannot be queried. -/
def sampleItems : List Parsed := [(⟨.binance, "BTCUSDT"⟩, 0, 60), (⟨.okx, "BTC-USDT-SWAP"⟩, 0, 60)]

def sampleQuery : Query ℕ := fun _ id _ _ =>
  if id.exchange = .okx then .error (.storage "timeout") else .ok [1, 2]

theorem two_items_answered : ∃ order results,
    runBatchOf sampleQuery List.length 0 sampleItems order = some (.ok results) ∧
      order.Perm [0, 1] ∧ results.length = 2 := by
  obtain ⟨order, f, hrun, hdrained⟩ := FanOut.exists_complete_run sampleItems batchConcurrency
    (batchEntry sampleQuery List.length 0)
  obtain ⟨hperm, results, hresults, hlength, -⟩ :=
    (runBatchOf_exact sampleQuery List.length 0 sampleItems order f hrun).2.2 hdrained
  exact ⟨order, results, hresults, hperm, hlength⟩

end OiTerminal.Api.RunBatch
