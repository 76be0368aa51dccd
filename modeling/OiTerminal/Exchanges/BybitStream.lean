import OiTerminal.Core.DecimalText
import OiTerminal.Exchanges.Enrichment
import OiTerminal.Lib.Register

/-!
# Tickers of Bybit

A frame is a snapshot or a delta, and either may leave out any field. The shard keeps a state
for each symbol, merges every frame into it, and builds a sample when the open interest has
changed.
-/
namespace OiTerminal.Exchanges.BybitStream

open OiTerminal.Core OiTerminal.Core.Time
open OiTerminal.Lib.Register

set_option autoImplicit false

/-- A JSON value. A number is kept as its text. -/
inductive Value where
  | null
  | bool (b : Bool)
  | number (text : String)
  | string (s : String)
  | array (items : List Value)
  | object (fields : List (String × Value))

def Value.get (v : Value) (key : String) : Option Value :=
  match v with
  | .object fields => fields.lookup key
  | _ => none

def Value.asStr : Value → Option String
  | .string s => some s
  | _ => none

inductive FrameType where
  | snapshot
  | delta
  deriving DecidableEq

structure SymbolState where
  openInterest : Option Decimal
  markPrice : Option Decimal
  lastPrice : Option Decimal
  deriving DecidableEq

def SymbolState.empty : SymbolState := ⟨none, none, none⟩

def stripPrefix (s front : String) : Option String :=
  if front.toList.isPrefixOf s.toList then
    some (String.ofList (s.toList.drop front.toList.length))
  else none

def classifyFrame (frame : Value) : Option (FrameType × String) := do
  let topic ← (← frame.get "topic").asStr
  let symbol ← stripPrefix topic "tickers."
  let ty ←
    match ← (← frame.get "type").asStr with
    | "snapshot" => some FrameType.snapshot
    | "delta" => some FrameType.delta
    | _ => none
  return (ty, symbol)

section

variable (T : DecimalText)

def pickDecimal (data : Value) (key : String) : Option Decimal := do
  let s ← (← data.get key).asStr
  if s = "" then none else (T.fromText s).toOption

/-- Returns the new open interest if it changed, and the merged state. -/
def SymbolState.merge (st : SymbolState) (frameType : FrameType) (data : Value) :
    Option Decimal × SymbolState :=
  let prevOi := st.openInterest
  let st : SymbolState :=
    match frameType with
    | .snapshot =>
      { openInterest := (pickDecimal T data "openInterest").or st.openInterest
        markPrice := (pickDecimal T data "markPrice").or st.markPrice
        lastPrice := (pickDecimal T data "lastPrice").or st.lastPrice }
    | .delta =>
      let st :=
        match pickDecimal T data "openInterest" with
        | some v => { st with openInterest := some v }
        | none => st
      let st :=
        match pickDecimal T data "markPrice" with
        | some v => { st with markPrice := some v }
        | none => st
      match pickDecimal T data "lastPrice" with
      | some v => { st with lastPrice := some v }
      | none => st
  let changed :=
    match prevOi, st.openInterest with
    | some a, some b => if a.units = b.units then none else some b
    | none, some new => some new
    | _, none => none
  (changed, st)

def SymbolState.toRaw (st : SymbolState) (symbol : String) (bucketTs recvTs : Int) :
    Option RawOi :=
  match st.openInterest with
  | none => none
  | some value =>
    let instrument : InstrumentId := ⟨.bybit, symbol⟩
    let priceHint := (st.markPrice.or st.lastPrice).map fun price =>
      { instrument, price
        source := if st.markPrice.isSome then .mark else .last
        ts := recvTs : PriceQuote }
    some ⟨instrument, value, .coins, bucketTs, recvTs, priceHint⟩

/-- What the socket gives to the shard. -/
inductive Frame where
  | payload (value : Value)
  | raw

/-- A frame and the time at which it is handled. -/
structure Received where
  frame : Frame
  now : Int

/-- The frames that go on: a ticker with a `data` field. -/
def Received.update (r : Received) : Option (FrameType × String × Value) :=
  match r.frame with
  | .raw => none
  | .payload value =>
    match classifyFrame value with
    | none => none
    | some (ty, symbol) => (value.get "data").map fun data => (ty, symbol, data)

abbrev States := String → SymbolState

/-- One turn of the shard, up to the enrichment. -/
def handleFrame (state : States) (r : Received) : States × Option RawOi :=
  match r.update with
  | none => (state, none)
  | some (ty, symbol, data) =>
    let bucket := floorToMinute r.now
    let (changed, entry) := (state symbol).merge T ty data
    let state := Function.update state symbol entry
    (state, if changed.isSome then entry.toRaw symbol bucket r.now else none)

/-- The samples that the shard folds, and its states. A panic ends it. -/
def runShard (A : DecimalArith) (state : States) : List Received →
    Except Panic (States × List OiSample)
  | [] => .ok (state, [])
  | r :: rest =>
    let (state, raw) := handleFrame T state r
    match raw with
    | none => runShard A state rest
    | some raw => do
      let sample ← enrichBybit A raw
      let (final, samples) ← runShard A state rest
      return (final, sample :: samples)

/-- The value that a frame carries for a field of the symbol, if it can be read. -/
def field (key symbol : String) (r : Received) : Option Decimal :=
  r.update.bind fun (_, name, data) => if name = symbol then pickDecimal T data key else none

/-- The last value seen for each field of the symbol. -/
def lastSeen (frames : List Received) (symbol : String) : SymbolState :=
  { openInterest := newest (field T "openInterest" symbol) frames
    markPrice := newest (field T "markPrice" symbol) frames
    lastPrice := newest (field T "lastPrice" symbol) frames }

/-- The mark price, or the last price if no mark price was ever seen. -/
def priceSeen (instrument : InstrumentId) (seen : SymbolState) (now : Int) : Option PriceQuote :=
  match seen.markPrice with
  | some mark => some ⟨instrument, mark, .mark, now⟩
  | none => seen.lastPrice.map fun last => ⟨instrument, last, .last, now⟩

/-- The change of open interest that a frame makes after the earlier ones. -/
def changeAt (past : List Received) (r : Received) : Option RawOi :=
  r.update.bind fun (_, symbol, _) =>
    let instrument : InstrumentId := ⟨.bybit, symbol⟩
    let seen := lastSeen T (past ++ [r]) symbol
    seen.openInterest.bind fun value =>
      if (lastSeen T past symbol).openInterest.map Decimal.units = some value.units then none
      else some ⟨instrument, value, .coins, floorToMinute r.now, r.now,
        priceSeen instrument seen r.now⟩

/-- The changes that the frames make, in order. -/
def changes (past : List Received) : List Received → List RawOi
  | [] => []
  | r :: rest => (changeAt T past r).toList ++ changes (past ++ [r]) rest

end

section

variable {T : DecimalText}

/-- Snapshots and deltas are merged in the same way. -/
theorem merge_state (st : SymbolState) (ty : FrameType) (data : Value) :
    (st.merge T ty data).2 =
      { openInterest := (pickDecimal T data "openInterest").or st.openInterest
        markPrice := (pickDecimal T data "markPrice").or st.markPrice
        lastPrice := (pickDecimal T data "lastPrice").or st.lastPrice } := by
  cases ty with
  | snapshot => rfl
  | delta =>
    unfold SymbolState.merge
    cases pickDecimal T data "openInterest" <;> cases pickDecimal T data "markPrice" <;>
      cases pickDecimal T data "lastPrice" <;> rfl

/-- A merge returns the open interest if its number changed. -/
theorem merge_changed (st : SymbolState) (ty : FrameType) (data : Value) :
    (st.merge T ty data).1 =
      if st.openInterest.map Decimal.units =
          (st.merge T ty data).2.openInterest.map Decimal.units then none
      else (st.merge T ty data).2.openInterest := by
  have hreturned : ∀ prev new : Option Decimal, (prev.isSome → new.isSome) →
      (match prev, new with
        | some a, some b => if a.units = b.units then none else some b
        | none, some new => some new
        | _, none => none) =
      if prev.map Decimal.units = new.map Decimal.units then none else new := by
    intro prev new hkept
    cases prev with
    | none => cases new <;> simp
    | some a =>
      cases new with
      | none => exact absurd (hkept rfl) (by decide)
      | some b => simp
  refine hreturned st.openInterest (st.merge T ty data).2.openInterest fun hsome => ?_
  rw [merge_state]
  cases hold : st.openInterest with
  | none =>
    rw [hold] at hsome
    cases hsome
  | some a => cases pickDecimal T data "openInterest" <;> rfl

theorem toRaw_eq (st : SymbolState) (symbol : String) (bucketTs recvTs : Int) :
    st.toRaw symbol bucketTs recvTs = st.openInterest.map fun value =>
      ⟨⟨.bybit, symbol⟩, value, .coins, bucketTs, recvTs,
        priceSeen ⟨.bybit, symbol⟩ st recvTs⟩ := by
  unfold SymbolState.toRaw priceSeen
  cases st.openInterest with
  | none => rfl
  | some value => cases st.markPrice <;> rfl

theorem lastSeen_concat (past : List Received) (r : Received) (symbol : String) :
    lastSeen T (past ++ [r]) symbol =
      { openInterest := (field T "openInterest" symbol r).or (lastSeen T past symbol).openInterest
        markPrice := (field T "markPrice" symbol r).or (lastSeen T past symbol).markPrice
        lastPrice := (field T "lastPrice" symbol r).or (lastSeen T past symbol).lastPrice } := by
  unfold lastSeen
  rw [newest_concat, newest_concat, newest_concat]

/-- A frame of another symbol, or one that does not go on, shows nothing. -/
theorem field_eq_none {r : Received} {key symbol : String}
    (h : ∀ ty data, r.update ≠ some (ty, symbol, data)) : field T key symbol r = none := by
  unfold field
  cases hupdate : r.update with
  | none => rfl
  | some update =>
    obtain ⟨ty, name, data⟩ := update
    have hname : name ≠ symbol := by
      rintro rfl
      exact h ty data hupdate
    exact if_neg hname

theorem field_of_update {r : Received} {ty : FrameType} {symbol : String} {data : Value}
    (h : r.update = some (ty, symbol, data)) (key : String) :
    field T key symbol r = pickDecimal T data key := by
  unfold field
  rw [h]
  exact if_pos rfl

theorem lastSeen_of_other {past : List Received} {r : Received} {symbol : String}
    (h : ∀ ty data, r.update ≠ some (ty, symbol, data)) :
    lastSeen T (past ++ [r]) symbol = lastSeen T past symbol := by
  rw [lastSeen_concat, field_eq_none h, field_eq_none h, field_eq_none h]
  rfl

/-- Merging a frame into what was seen gives what is seen with it. -/
theorem merge_lastSeen {past : List Received} {r : Received} {ty : FrameType} {symbol : String}
    {data : Value} (h : r.update = some (ty, symbol, data)) :
    ((lastSeen T past symbol).merge T ty data).2 = lastSeen T (past ++ [r]) symbol := by
  rw [merge_state, lastSeen_concat, field_of_update h, field_of_update h, field_of_update h]

/-- Only the entry of the frame's symbol is written. -/
theorem update_lastSeen {past : List Received} {r : Received} {ty : FrameType} {symbol : String}
    {data : Value} (h : r.update = some (ty, symbol, data)) :
    Function.update (lastSeen T past) symbol (lastSeen T (past ++ [r]) symbol) =
      lastSeen T (past ++ [r]) := by
  funext name
  by_cases hname : name = symbol
  · rw [hname, Function.update_self]
  · rw [Function.update_of_ne hname]
    refine (lastSeen_of_other fun ty' data' hother => hname ?_).symm
    rw [h] at hother
    exact (Prod.mk.inj (Prod.mk.inj (Option.some.inj hother)).2).1.symm

/-- The raw value is built only if the merge returned something. -/
theorem emit_eq (build : Decimal → RawOi) (prev : Option Int) (value : Option Decimal) :
    (if (if prev = value.map Decimal.units then none else value).isSome then value.map build
      else none) =
    value.bind fun v => if prev = some v.units then none else some (build v) := by
  cases value with
  | none => simp
  | some v => by_cases hsame : prev = some v.units <;> simp [hsame]

/-- One turn keeps the states at what was seen, and builds the value of the change. -/
theorem handleFrame_lastSeen (past : List Received) (r : Received) :
    handleFrame T (lastSeen T past) r = (lastSeen T (past ++ [r]), changeAt T past r) := by
  unfold handleFrame changeAt
  cases hupdate : r.update with
  | none =>
    have hsame : lastSeen T (past ++ [r]) = lastSeen T past := by
      funext symbol
      exact lastSeen_of_other fun ty data h => by
        rw [hupdate] at h
        cases h
    rw [hsame]
    rfl
  | some update =>
    obtain ⟨ty, symbol, data⟩ := update
    dsimp only [Option.bind_some]
    rw [merge_changed, merge_lastSeen hupdate, update_lastSeen hupdate, toRaw_eq, emit_eq]

/-- The shard builds one sample for each change. -/
theorem runShard_eq (A : DecimalArith) (past frames : List Received) :
    runShard T A (lastSeen T past) frames =
      ((changes T past frames).mapM (enrichBybit A)).map fun samples =>
        (lastSeen T (past ++ frames), samples) := by
  induction frames generalizing past with
  | nil =>
    rw [List.append_nil]
    rfl
  | cons r rest ih =>
    unfold runShard changes
    rw [handleFrame_lastSeen]
    dsimp only
    have hrest := ih (past ++ [r])
    rw [List.append_assoc, List.singleton_append] at hrest
    cases changeAt T past r with
    | none => exact hrest
    | some raw =>
      rw [Option.toList_some, List.singleton_append, List.mapM_cons, hrest]
      dsimp only
      cases enrichBybit A raw with
      | error panic => rfl
      | ok sample =>
        cases (changes T (past ++ [r]) rest).mapM (enrichBybit A) <;> rfl

end

section

variable (A : DecimalArith) (T : DecimalText)

end

end OiTerminal.Exchanges.BybitStream
