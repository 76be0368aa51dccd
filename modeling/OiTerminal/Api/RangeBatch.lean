import OiTerminal.Api.Range
import OiTerminal.Lib.FanOut

/-!
# Batch range requests

A batch is read as a whole, its items are asked for concurrently, and each entry of the
answer belongs to the item of the same index. The repository may answer the queries of two
items differently at different times, so `ask` takes the index of the item.
-/
namespace OiTerminal.Api.RangeBatch

open OiTerminal.Core OiTerminal.Core.Time
open OiTerminal.Storage.ClickHouse (CoreError)
open OiTerminal.Api.Range
open OiTerminal.Lib.FanOut
open OiTerminal.Lib.Transition

set_option autoImplicit false

def batchMaxItems : ℕ := 128

def batchConcurrency : ℕ := 16

structure RangeBatchItem where
  exchange : String
  symbol : String
  fromTs : String
  toTs : String

structure RangeBatchRequest where
  items : List RangeBatchItem
  fmt : Option String

/-- An item that has been read. -/
abbrev Parsed := InstrumentId × Int × Int

structure BatchEntry (Payload : Type) where
  exchange : String
  symbol : String
  error : Option String
  payload : Payload

inductive BatchResponse (Payload : Type) where
  | ok (results : List (BatchEntry Payload))
  | refused (code : Nat) (message : String)
  | panicked

/-- The entries of an answer, none of which exist where the batch was refused. -/
def BatchResponse.results {Payload : Type} : BatchResponse Payload → List (BatchEntry Payload)
  | .ok results => results
  | .refused _ _ => []
  | .panicked => []

variable {Row Dto Columns : Type}

def parseItem (R : Rfc3339) (i : ℕ) (it : RangeBatchItem) : Except String Parsed := do
  let path := "items[" ++ toString i ++ "]"
  let id ← (parseId it.exchange it.symbol).mapError fun e => path ++ ": " ++ e
  let fromTs ← (parseRfc3339 R it.fromTs).mapError fun e => path ++ ".from: " ++ e
  let toTs ← (parseRfc3339 R it.toTs).mapError fun e => path ++ ".to: " ++ e
  return (id, fromTs, toTs)

/-- The first item that cannot be read refuses all of them. -/
def parseItems (R : Rfc3339) : ℕ → List RangeBatchItem → Except String (List Parsed)
  | _, [] => .ok []
  | i, it :: rest => do
    let parsed ← parseItem R i it
    let others ← parseItems R (i + 1) rest
    return parsed :: others

def parseBatch (R : Rfc3339) (req : RangeBatchRequest) : Except (Nat × String) (List Parsed) :=
  if req.items.isEmpty then .error (400, "items: empty")
  else if batchMaxItems < req.items.length then
    .error (400, "items: " ++ toString req.items.length ++ " exceeds max " ++
      toString batchMaxItems)
  else (parseItems R 0 req.items).mapError fun e => (400, e)

/-- The payload of an entry whose query failed. -/
def defaultPayload (S : Series Row Dto Columns) (fmt : Option String) : Body Dto Columns :=
  match S.columnar fmt with
  | some (_, empty) => .columns empty
  | none => .rows []

def entryOf (S : Series Row Dto Columns) (fmt : Option String) (item : Parsed)
    (out : Except CoreError (List Row)) : BatchEntry (Body Dto Columns) :=
  match out with
  | .ok rows => ⟨item.1.exchange.code, item.1.symbol, none, S.body fmt rows⟩
  | .error e =>
    ⟨item.1.exchange.code, item.1.symbol, some (CoreError.text e), defaultPayload S fmt⟩

section

variable (S : Series Row Dto Columns) (R : Rfc3339)
  (ask : ℕ → InstrumentId → Int → Int → Except CoreError (List Row))

/-- The entry of an item whose query completes. -/
def answerOf (fmt : Option String) (i : ℕ) (item : Parsed) : BatchEntry (Body Dto Columns) :=
  entryOf S fmt item (ask i item.1 item.2.1 item.2.2)

/-- The loop over the queries, for a given order of their completion. It ends when none is
in flight. -/
def runBatch (fmt : Option String) (items : List Parsed) (order : List ℕ) :
    Option (BatchResponse (Body Dto Columns)) :=
  (run (step items (answerOf S ask fmt)) (start items batchConcurrency) order).bind fun f =>
    if f.inflight = [] then
      match f.collect with
      | some results => some (.ok results)
      | none => some .panicked
    else none

/-- The batch handler of a series. -/
def rangeBatchOf (req : RangeBatchRequest) (order : List ℕ) :
    Option (BatchResponse (Body Dto Columns)) :=
  match parseBatch R req with
  | .error (code, message) => some (.refused code message)
  | .ok items => runBatch S ask req.fmt items order

end

section

variable (D : DecimalText) (R : Rfc3339) (req : RangeBatchRequest) (order : List ℕ)

def rangeBatch (ask : ℕ → InstrumentId → Int → Int → Except CoreError (List OiSnapshot)) :
    Option (BatchResponse (Body BarDto OiColumns)) :=
  rangeBatchOf (oiSeries D R) R ask req order

def fundingRangeBatch (ask : ℕ → InstrumentId → Int → Int → Except CoreError (List FundingBar)) :
    Option (BatchResponse (Body FundingDto FundingColumns)) :=
  rangeBatchOf (fundingSeries D R) R ask req order

def fundingEventRangeBatch
    (ask : ℕ → InstrumentId → Int → Int → Except CoreError (List FundingEvent)) :
    Option (BatchResponse (Body FundingEventDto Empty)) :=
  rangeBatchOf (fundingEventSeries D R) R ask req order

end

/-- The entry says what the single request would have been answered. -/
def Carries (entry : BatchEntry (Body Dto Columns)) : Response Dto Columns → Prop
  | .ok body => entry.error = none ∧ entry.payload = body
  | .badRequest message => entry.error = some message
  | .internal message => entry.error = some message

/-- Every entry of the answer carries what the single request for its item alone is
answered, whatever the repository answers and in whatever order the queries complete. -/
def Isolated (S : Series Row Dto Columns) (R : Rfc3339) (req : RangeBatchRequest) : Prop :=
  ∀ ask order response, rangeBatchOf S R ask req order = some response →
    ∀ (i : ℕ) it, req.items[i]? = some it → ∃ entry, response.results[i]? = some entry ∧
      Carries entry (rangeOf S R (ask i) it.exchange it.symbol ⟨it.fromTs, it.toTs, req.fmt⟩)

/-- What the three parts of an item are read as. -/
structure RangeBatchItem.ReadsAs (R : Rfc3339) (it : RangeBatchItem) (item : Parsed) : Prop where
  id : parseId it.exchange it.symbol = .ok item.1
  fromTs : parseRfc3339 R it.fromTs = .ok item.2.1
  toTs : parseRfc3339 R it.toTs = .ok item.2.2

/-- The exchange is known and both timestamps can be read. -/
def RangeBatchItem.Parses (R : Rfc3339) (it : RangeBatchItem) : Prop :=
  ∃ item, it.ReadsAs R item

/-- Another batch with the same item at an index gets the same entry there, when the
repository answers that item alike. -/
def Undisturbed (S : Series Row Dto Columns) (R : Rfc3339) (req req' : RangeBatchRequest) : Prop :=
  ∀ i : ℕ, req.items[i]? = req'.items[i]? → ∀ ask ask', ask i = ask' i →
    ∀ order order' response response',
      rangeBatchOf S R ask req order = some response →
      rangeBatchOf S R ask' req' order' = some response' →
      response.results[i]? = response'.results[i]?

/-- The sizes that a batch may have. -/
def RangeBatchRequest.Sized (req : RangeBatchRequest) : Prop :=
  1 ≤ req.items.length ∧ req.items.length ≤ batchMaxItems

instance (req : RangeBatchRequest) : Decidable req.Sized :=
  inferInstanceAs (Decidable (1 ≤ req.items.length ∧ req.items.length ≤ batchMaxItems))

/-! ## Reading the items -/

variable {R : Rfc3339} {S : Series Row Dto Columns}

theorem mapError_eq_ok {α : Type} {x : Except String α} {f : String → String} {a : α} :
    x.mapError f = .ok a ↔ x = .ok a := by
  cases x <;> simp [Except.mapError]

theorem parseItem_eq_ok {i : ℕ} {it : RangeBatchItem} {item : Parsed} :
    parseItem R i it = .ok item ↔ it.ReadsAs R item := by
  constructor
  · intro h
    obtain ⟨id, hid, hrest⟩ := OiSample.bind_eq_ok.mp h
    obtain ⟨fromTs, hfrom, hrest⟩ := OiSample.bind_eq_ok.mp hrest
    obtain ⟨toTs, hto, hitem⟩ := OiSample.bind_eq_ok.mp hrest
    obtain rfl := Except.ok.inj hitem
    exact ⟨mapError_eq_ok.mp hid, mapError_eq_ok.mp hfrom, mapError_eq_ok.mp hto⟩
  · intro h
    unfold parseItem
    rw [h.id, h.fromTs, h.toTs]
    rfl

/-- Items that were read stand at their own indices. -/
theorem parseItems_getElem? {n : ℕ} {items : List RangeBatchItem} {parsed : List Parsed}
    (h : parseItems R n items = .ok parsed) (i : ℕ) :
    (items[i]? = none ∧ parsed[i]? = none) ∨
      ∃ it item, items[i]? = some it ∧ parsed[i]? = some item ∧ it.ReadsAs R item := by
  induction items generalizing n parsed i with
  | nil =>
    obtain rfl := Except.ok.inj h
    exact .inl ⟨rfl, rfl⟩
  | cons it rest ih =>
    obtain ⟨item, hitem, hmore⟩ := OiSample.bind_eq_ok.mp h
    obtain ⟨others, hothers, hparsed⟩ := OiSample.bind_eq_ok.mp hmore
    obtain rfl := Except.ok.inj hparsed
    cases i with
    | zero => exact .inr ⟨it, item, rfl, rfl, parseItem_eq_ok.mp hitem⟩
    | succ i => exact ih hothers i

/-- A list of items is read exactly if each of them is. -/
theorem exists_parseItems_iff {n : ℕ} {items : List RangeBatchItem} :
    (∃ parsed, parseItems R n items = .ok parsed) ↔ ∀ it ∈ items, it.Parses R := by
  constructor
  · rintro ⟨parsed, h⟩ it hit
    obtain ⟨i, hi⟩ := List.mem_iff_getElem?.mp hit
    rcases parseItems_getElem? h i with ⟨hnone, _⟩ | ⟨it', item, hit', _, hreads⟩
    · rw [hi] at hnone
      cases hnone
    · obtain rfl := Option.some.inj (hi.symm.trans hit')
      exact ⟨item, hreads⟩
  · intro h
    induction items generalizing n with
    | nil => exact ⟨[], rfl⟩
    | cons it rest ih =>
      obtain ⟨item, hitem⟩ := h it List.mem_cons_self
      have hrest : ∃ others, parseItems R (n + 1) rest = .ok others :=
        ih fun it' hit' => h it' (List.mem_cons_of_mem it hit')
      obtain ⟨others, hothers⟩ := hrest
      refine ⟨item :: others, ?_⟩
      unfold parseItems
      rw [parseItem_eq_ok.mpr hitem, hothers]
      rfl

theorem parseBatch_of_sized {req : RangeBatchRequest} (h : req.Sized) :
    parseBatch R req = (parseItems R 0 req.items).mapError fun e => (400, e) := by
  have hempty : req.items.isEmpty = false := by
    cases hitems : req.items with
    | nil =>
      have hlength := h.1
      rw [hitems] at hlength
      cases hlength
    | cons it rest => rfl
  unfold parseBatch
  rw [hempty, if_neg Bool.false_ne_true, if_neg (by have := h.2; omega)]

/-! ## The answer to a batch that is read -/

variable {ask : ℕ → InstrumentId → Int → Int → Except CoreError (List Row)} {order : List ℕ}
  {response : BatchResponse (Body Dto Columns)}

/-- A batch that cannot be read has no entries. -/
theorem rangeBatchOf_refused {req : RangeBatchRequest} (hsize : req.Sized)
    (h : ¬ ∀ it ∈ req.items, it.Parses R) :
    ∃ message, rangeBatchOf S R ask req order = some (.refused 400 message) := by
  unfold rangeBatchOf
  rw [parseBatch_of_sized hsize]
  cases hparsed : parseItems R 0 req.items with
  | error message => exact ⟨message, rfl⟩
  | ok parsed => exact absurd (exists_parseItems_iff.mp ⟨parsed, hparsed⟩) h

/-- However the queries complete, the entries stand in the order of the items. -/
theorem runBatch_results {fmt : Option String} {items : List Parsed}
    (h : runBatch S ask fmt items order = some response) :
    response = .ok (items.mapIdx (answerOf S ask fmt)) := by
  obtain ⟨f, hrun, hresponse⟩ := Option.bind_eq_some_iff.mp h
  split at hresponse
  case isTrue hdrained =>
    rw [collect_of_run (by decide) hrun hdrained] at hresponse
    exact (Option.some.inj hresponse).symm
  case isFalse => cases hresponse

theorem exists_runBatch (S : Series Row Dto Columns)
    (ask : ℕ → InstrumentId → Int → Int → Except CoreError (List Row)) (fmt : Option String)
    (items : List Parsed) : ∃ order response, runBatch S ask fmt items order = some response := by
  obtain ⟨order, f, hrun, hdrained⟩ :=
    exists_complete_run items batchConcurrency (answerOf S ask fmt)
  refine ⟨order, .ok (items.mapIdx (answerOf S ask fmt)), ?_⟩
  unfold runBatch
  rw [hrun, Option.bind_some, if_pos hdrained, collect_of_run (by decide) hrun hdrained]

/-- Every batch is answered in some order of completion. -/
theorem exists_rangeBatchOf (S : Series Row Dto Columns) (R : Rfc3339)
    (ask : ℕ → InstrumentId → Int → Int → Except CoreError (List Row))
    (req : RangeBatchRequest) :
    ∃ order response, rangeBatchOf S R ask req order = some response := by
  unfold rangeBatchOf
  cases parseBatch R req with
  | error refusal => exact ⟨[], _, rfl⟩
  | ok items => exact exists_runBatch S ask req.fmt items

/-- The entry at an index is made from the item there and the answer to its own query. -/
theorem rangeBatchOf_getElem? {req : RangeBatchRequest} (hsize : req.Sized)
    (hparses : ∀ it ∈ req.items, it.Parses R)
    (h : rangeBatchOf S R ask req order = some response) (i : ℕ) :
    (req.items[i]? = none ∧ response.results[i]? = none) ∨
      ∃ it item, req.items[i]? = some it ∧ it.ReadsAs R item ∧
        response.results[i]? = some (answerOf S ask req.fmt i item) := by
  obtain ⟨parsed, hparsed⟩ := exists_parseItems_iff.mpr hparses
  unfold rangeBatchOf at h
  rw [parseBatch_of_sized hsize, hparsed] at h
  have hresponse := runBatch_results h
  subst hresponse
  have hresults : ((BatchResponse.ok (parsed.mapIdx (answerOf S ask req.fmt))).results)[i]? =
      (parsed[i]?).map (answerOf S ask req.fmt i) := List.getElem?_mapIdx
  rw [hresults]
  rcases parseItems_getElem? hparsed i with ⟨hnone, hgone⟩ | ⟨it, item, hit, hitem, hreads⟩
  · rw [hgone]
    exact .inl ⟨hnone, rfl⟩
  · rw [hitem]
    exact .inr ⟨it, item, hit, hreads, rfl⟩

/-- An item that is read gets the answer of the single request. -/
theorem carries_answerOf {fmt : Option String} {i : ℕ} {it : RangeBatchItem} {item : Parsed}
    (h : it.ReadsAs R item) : Carries (answerOf S ask fmt i item)
      (rangeOf S R (ask i) it.exchange it.symbol ⟨it.fromTs, it.toTs, fmt⟩) := by
  unfold rangeOf answerOf entryOf
  rw [h.id]
  dsimp only
  rw [h.fromTs]
  dsimp only
  rw [h.toTs]
  dsimp only
  cases ask i item.1 item.2.1 item.2.2 with
  | ok rows => exact ⟨rfl, rfl⟩
  | error e => exact rfl

theorem RangeBatchItem.ReadsAs.unique {it : RangeBatchItem} {item item' : Parsed}
    (h : it.ReadsAs R item) (h' : it.ReadsAs R item') : item = item' := by
  have hid := Except.ok.inj (h.id.symm.trans h'.id)
  have hfrom := Except.ok.inj (h.fromTs.symm.trans h'.fromTs)
  have hto := Except.ok.inj (h.toTs.symm.trans h'.toTs)
  exact Prod.ext hid (Prod.ext hfrom hto)

theorem isolated_of_parses {req : RangeBatchRequest} (hsize : req.Sized)
    (hparses : ∀ it ∈ req.items, it.Parses R) : Isolated S R req := by
  intro ask order response hresponse i it hit
  rcases rangeBatchOf_getElem? hsize hparses hresponse i with
    ⟨hnone, _⟩ | ⟨it', item, hit', h, hget⟩
  · rw [hit] at hnone
    cases hnone
  · obtain rfl := Option.some.inj (hit.symm.trans hit')
    exact ⟨_, hget, carries_answerOf h⟩

theorem undisturbed_of_parses {req req' : RangeBatchRequest} (hfmt : req.fmt = req'.fmt)
    (hsize : req.Sized) (hsize' : req'.Sized) (hparses : ∀ it ∈ req.items, it.Parses R)
    (hparses' : ∀ it ∈ req'.items, it.Parses R) : Undisturbed S R req req' := by
  intro i hsame ask ask' hask order order' response response' h h'
  rcases rangeBatchOf_getElem? hsize hparses h i with
    ⟨hnone, hgone⟩ | ⟨it, item, hit, hreads, hget⟩
  · rcases rangeBatchOf_getElem? hsize' hparses' h' i with ⟨_, hgone'⟩ | ⟨it', _, hit', _, _⟩
    · rw [hgone, hgone']
    · rw [hsame, hit'] at hnone
      cases hnone
  · rcases rangeBatchOf_getElem? hsize' hparses' h' i with
      ⟨hnone', _⟩ | ⟨it', item', hit', hreads', hget'⟩
    · rw [← hsame, hit] at hnone'
      cases hnone'
    · rw [hsame, hit'] at hit
      obtain rfl := Option.some.inj hit
      obtain rfl := hreads.unique hreads'
      rw [hget, hget', hfmt]
      unfold answerOf
      rw [hask]

/-- A batch with an item that cannot be read has no entry for its first item. -/
theorem parses_of_isolated {req : RangeBatchRequest} (hsize : req.Sized)
    (hisolated : Isolated S R req) : ∀ it ∈ req.items, it.Parses R := by
  by_contra hunread
  let ask : ℕ → InstrumentId → Int → Int → Except CoreError (List Row) := fun _ _ _ _ => .ok []
  have hrefused : ∃ message, rangeBatchOf S R ask req [] = some (.refused 400 message) :=
    rangeBatchOf_refused hsize hunread
  obtain ⟨message, hrefused⟩ := hrefused
  obtain ⟨it, rest, hitems⟩ := List.exists_cons_of_length_pos hsize.1
  have hfirst : req.items[0]? = some it := by
    rw [hitems]
    rfl
  obtain ⟨entry, hentry, _⟩ := hisolated ask [] _ hrefused 0 _ hfirst
  cases hentry

/-- A batch of a permitted size answers each item as the single request for it would be
answered if and only if all items can be read: the first that cannot refuses the others as
well. Between two batches that can be read no item affects another. -/
theorem batch_isolated_iff (S : Series Row Dto Columns) (R : Rfc3339) (req : RangeBatchRequest)
    (hsize : req.Sized) :
    (Isolated S R req ↔ ∀ it ∈ req.items, it.Parses R) ∧
      ∀ req' : RangeBatchRequest, req'.Sized → req.fmt = req'.fmt →
        (∀ it ∈ req.items, it.Parses R) → (∀ it ∈ req'.items, it.Parses R) →
          Undisturbed S R req req' :=
  ⟨⟨parses_of_isolated hsize, isolated_of_parses hsize⟩,
    fun _ hsize' hfmt hparses hparses' =>
      undisturbed_of_parses hfmt hsize hsize' hparses hparses'⟩

/-- Reads the first instants of two days. -/
def sampleRfc3339 : Rfc3339 := .reading [seconds 1778803200, seconds 1778889600]

theorem sampleRfc3339_parse :
    parseRfc3339 sampleRfc3339 "2026-05-15T00:00:00Z" = .ok (seconds 1778803200) ∧
      parseRfc3339 sampleRfc3339 "2026-05-16T00:00:00Z" = .ok (seconds 1778889600) := by
  decide +kernel

def sampleBatch (exchanges : List String) : RangeBatchRequest where
  items := exchanges.map fun ex => ⟨ex, "BTCUSDT", "2026-05-15T00:00:00Z", "2026-05-16T00:00:00Z"⟩
  fmt := none

theorem sampleBatch_parses (venues : List Exchange) :
    ∀ it ∈ (sampleBatch (venues.map Exchange.code)).items, it.Parses sampleRfc3339 := by
  intro it hit
  obtain ⟨code, hcode, rfl⟩ := List.mem_map.mp hit
  obtain ⟨ex, _, rfl⟩ := List.mem_map.mp hcode
  refine ⟨(⟨ex, "BTCUSDT"⟩, seconds 1778803200, seconds 1778889600), ?_, sampleRfc3339_parse.1,
    sampleRfc3339_parse.2⟩
  unfold parseId
  rw [Exchange.fromStr_code]
  rfl

/-- The bar that the repository holds of each instrument. -/
def sampleBar (id : InstrumentId) : OiSnapshot :=
  .startFromSample
    { sampleAt (seconds 1778803200) (seconds 1778803202) with instrument := id }

/-- The query of the second item fails. -/
def secondFails (i : ℕ) (id : InstrumentId) (_ _ : Int) : Except CoreError (List OiSnapshot) :=
  if i = 1 then .error (.storage "timeout") else .ok [sampleBar id]

def noneFails (_ : ℕ) (id : InstrumentId) (_ _ : Int) : Except CoreError (List OiSnapshot) :=
  .ok [sampleBar id]

/-- The second of three queries fails. The others are answered with their bars, and as in the
batch that asks for another venue there. -/
theorem failed_item_isolated :
    ∃ order response order' response',
      rangeBatch .plain sampleRfc3339 (sampleBatch ["binance", "bybit", "okx"]) order
        secondFails = some response ∧
      rangeBatch .plain sampleRfc3339 (sampleBatch ["binance", "mexc", "okx"]) order'
        noneFails = some response' ∧
      (∃ entry, response.results[0]? = some entry ∧ entry.error = none ∧ entry.payload =
        .rows [.ofSnapshot .plain sampleRfc3339 (sampleBar ⟨.binance, "BTCUSDT"⟩)]) ∧
      (∃ entry, response.results[1]? = some entry ∧
        entry.error = some "storage error: timeout") ∧
      response'.results[0]? = response.results[0]? ∧
      response'.results[2]? = response.results[2]? := by
  let S := oiSeries .plain sampleRfc3339
  have hreads : ∀ it ∈ (sampleBatch ["binance", "bybit", "okx"]).items,
      it.Parses sampleRfc3339 := sampleBatch_parses [.binance, .bybit, .okx]
  have hreads' : ∀ it ∈ (sampleBatch ["binance", "mexc", "okx"]).items,
      it.Parses sampleRfc3339 := sampleBatch_parses [.binance, .mexc, .okx]
  obtain ⟨order, response, h⟩ := exists_rangeBatchOf S sampleRfc3339 secondFails
    (sampleBatch ["binance", "bybit", "okx"])
  obtain ⟨order', response', h'⟩ := exists_rangeBatchOf S sampleRfc3339 noneFails
    (sampleBatch ["binance", "mexc", "okx"])
  have hboth := batch_isolated_iff S sampleRfc3339 (sampleBatch ["binance", "bybit", "okx"])
    (by decide)
  have hisolated := hboth.1.mpr hreads secondFails order response h
  have hundisturbed := hboth.2 (sampleBatch ["binance", "mexc", "okx"]) (by decide) rfl hreads
    hreads'
  refine ⟨order, response, order', response', h, h', ?_, ?_, ?_, ?_⟩
  · exact hisolated 0 _ rfl
  · exact hisolated 1 _ rfl
  · exact (hundisturbed 0 rfl secondFails noneFails rfl order order' response response' h h').symm
  · exact (hundisturbed 2 rfl secondFails noneFails rfl order order' response response' h h').symm

/-- An unknown exchange in the second item, and the first gets no entry. -/
theorem unknown_exchange_refuses_batch :
    ¬ ∀ req : RangeBatchRequest, req.Sized →
      Isolated (oiSeries .plain sampleRfc3339) sampleRfc3339 req := by
  intro hall
  have hisolated := hall (sampleBatch ["binance", "noex"]) (by decide)
  have hparses := parses_of_isolated (by decide) hisolated
  obtain ⟨item, hreads⟩ := hparses ⟨"noex", "BTCUSDT", _, _⟩ (.tail _ (.head _))
  have hid := hreads.id
  cases hid

end OiTerminal.Api.RangeBatch
