import Mathlib.Data.List.AList
import OiTerminal.Collector.FundingSweep
import OiTerminal.Lib.ByKey
import OiTerminal.Lib.Forward
import OiTerminal.Lib.Transition
import OiTerminal.Storage.ClickHouse

/-!
# Settlement events from the funding stream

The minute loop keeps the announced settlement time and the predicted rate that each instrument
had last. When the time rolls forward it takes the old one for a settlement at that rate. What
an instrument gets is decided by the neighbours among the times that were announced for it.
-/
namespace OiTerminal.Collector.FundingDerivation

open OiTerminal.Core
open OiTerminal.Lib.ByKey
open OiTerminal.Lib.Forward
open OiTerminal.Lib.Transition
open OiTerminal.Storage.ClickHouse

set_option autoImplicit false

/-- The last announced time and the rate that came with it. -/
abbrev FundingCursor := AList fun _ : InstrumentId => Int × Decimal

/-- A derived event, and the bar that triggered it. The bar influences nothing. -/
structure Roll where
  event : FundingEvent
  bar : FundingBar
  deriving DecidableEq, Repr

/-- One bar of a fetch. The cursor follows every announced time, forward or back. -/
def deriveEvent (acc : List Roll × FundingCursor) (bar : FundingBar) :
    List Roll × FundingCursor :=
  match bar.nextFundingTs with
  | none => acc
  | some next =>
    let rolls :=
      match acc.2.lookup bar.instrument with
      | some (prevNext, prevRate) =>
        if prevNext < next then acc.1 ++ [⟨⟨bar.instrument, prevNext, prevRate, none⟩, bar⟩]
        else acc.1
      | none => acc.1
    (rolls, acc.2.insert bar.instrument (next, bar.rate))

/-- What a tick fetches, unless that fails, and how the upsert of its events ends. -/
structure Tick where
  fetched : Option (List FundingBar)
  upserted : Except CoreError Unit

/-- The loop between two ticks. `rolls` records what it has derived so far and `accepted` the
events of the upserts that succeeded; both influence nothing. -/
structure State where
  cursor : FundingCursor
  rolls : List Roll
  accepted : List FundingEvent

def start : State := ⟨∅, [], []⟩

/-- The events of a tick go out in one call. An error of the call is logged. The upsert of the
bars themselves follows and changes nothing here. -/
def fundingPart (s : State) (tick : Tick) : State :=
  match tick.fetched with
  | none => s
  | some [] => s
  | some (first :: rest) =>
    let out := (first :: rest).foldl deriveEvent ([], s.cursor)
    let accepted :=
      if out.1 = [] then s.accepted
      else
        match tick.upserted with
        | .ok () => s.accepted ++ out.1.map Roll.event
        | .error _ => s.accepted
    ⟨out.2, s.rolls ++ out.1, accepted⟩

def after (ticks : List Tick) : State := ticks.foldl fundingPart start

def Tick.bars (tick : Tick) : List FundingBar := tick.fetched.getD []

def fetchedBars (ticks : List Tick) : List FundingBar := ticks.flatMap Tick.bars

/-- The times announced for an instrument, with their bars. -/
def announced (id : InstrumentId) (bars : List FundingBar) : List (Int × FundingBar) :=
  bars.filterMap fun bar =>
    if bar.instrument = id then bar.nextFundingTs.map fun next => (next, bar) else none

def rollOf (id : InstrumentId) (p : (Int × FundingBar) × (Int × FundingBar)) : Roll :=
  ⟨⟨id, p.1.1, p.1.2.rate, none⟩, p.2.2⟩

def Roll.instrument (roll : Roll) : InstrumentId := roll.event.instrument

/-- The cursor has the last announced time of each instrument, and the rolls of an instrument
are the moves forward of its times. -/
structure Follows (bars : List FundingBar) (acc : List Roll × FundingCursor) : Prop where
  cursor : ∀ id, acc.2.lookup id = (announced id bars).getLast?.map fun a => (a.1, a.2.rate)
  rolls : ∀ id, ofKey Roll.instrument id acc.1 =
    (forward Prod.fst (announced id bars)).map (rollOf id)

variable {bars : List FundingBar} {acc : List Roll × FundingCursor} {bar : FundingBar}
  {id : InstrumentId}

theorem announced_concat (id : InstrumentId) (bars : List FundingBar) (bar : FundingBar) :
    announced id (bars ++ [bar]) = announced id bars ++ announced id [bar] :=
  List.filterMap_append

theorem announced_none (h : bar.nextFundingTs = none) : announced id [bar] = [] := by
  simp [announced, h]

theorem announced_other (h : bar.instrument ≠ id) : announced id [bar] = [] := by
  simp [announced, h]

theorem announced_self {next : Int} (h : bar.nextFundingTs = some next) :
    announced bar.instrument [bar] = [(next, bar)] := by
  simp [announced, h]

/-- The roll that a bar with an announced time adds. -/
theorem rolls_deriveEvent {next : Int} (hnext : bar.nextFundingTs = some next)
    (h : Follows bars acc) : (deriveEvent acc bar).1 = acc.1 ++
      ((((announced bar.instrument bars).getLast?.filter fun a => a.1 < next).map fun a =>
        (a, (next, bar))).toList.map (rollOf bar.instrument)) := by
  unfold deriveEvent
  rw [hnext]
  dsimp only
  rw [h.cursor]
  cases (announced bar.instrument bars).getLast? with
  | none => simp
  | some a =>
    by_cases hlt : a.1 < next
    · simp [Option.filter, hlt, rollOf]
    · simp [Option.filter, hlt]

theorem follows_deriveEvent (h : Follows bars acc) (bar : FundingBar) :
    Follows (bars ++ [bar]) (deriveEvent acc bar) := by
  cases hnext : bar.nextFundingTs with
  | none =>
    have hsame : deriveEvent acc bar = acc := by
      unfold deriveEvent
      rw [hnext]
    refine ⟨fun id => ?_, fun id => ?_⟩
    · rw [hsame, announced_concat, announced_none hnext, List.append_nil, h.cursor]
    · rw [hsame, announced_concat, announced_none hnext, List.append_nil, h.rolls]
  | some next =>
    have hcursor : (deriveEvent acc bar).2 = acc.2.insert bar.instrument (next, bar.rate) := by
      unfold deriveEvent
      rw [hnext]
    refine ⟨fun id => ?_, fun id => ?_⟩
    · rw [hcursor]
      by_cases hid : bar.instrument = id
      · subst hid
        rw [AList.lookup_insert, announced_concat, announced_self hnext, List.getLast?_concat]
        rfl
      · rw [AList.lookup_insert_ne (Ne.symm hid), announced_concat, announced_other hid,
          List.append_nil, h.cursor]
    · rw [rolls_deriveEvent hnext h, ofKey_append, h.rolls, ofKey_map]
      by_cases hid : bar.instrument = id
      · subst hid
        rw [announced_concat, announced_self hnext, forward_concat, List.map_append]
        congr 2
        exact List.filter_eq_self.mpr fun _ _ => decide_eq_true rfl
      · rw [announced_concat, announced_other hid, List.append_nil]
        simp [ofKey, rollOf, Roll.instrument, hid]

theorem follows_foldl (h : Follows bars acc) (more : List FundingBar) :
    Follows (bars ++ more) (more.foldl deriveEvent acc) := by
  induction more generalizing bars acc with
  | nil => simpa using h
  | cons bar rest ih =>
    rw [← List.singleton_append, ← List.append_assoc]
    exact ih (follows_deriveEvent h bar)

/-- What was derived before stays in front. -/
theorem foldl_deriveEvent (rolls : List Roll) (cursor : FundingCursor) (bars : List FundingBar) :
    bars.foldl deriveEvent (rolls, cursor) =
      (rolls ++ (bars.foldl deriveEvent ([], cursor)).1,
        (bars.foldl deriveEvent ([], cursor)).2) := by
  induction bars generalizing rolls cursor with
  | nil => simp
  | cons bar rest ih =>
    have hone : deriveEvent (rolls, cursor) bar =
        (rolls ++ (deriveEvent ([], cursor) bar).1, (deriveEvent ([], cursor) bar).2) := by
      unfold deriveEvent
      cases bar.nextFundingTs with
      | none => simp
      | some next =>
        dsimp only
        cases cursor.lookup bar.instrument with
        | none => simp
        | some prev =>
          dsimp only
          split <;> simp
    rw [List.foldl_cons, List.foldl_cons, hone, ih]
    rw [ih (deriveEvent ([], cursor) bar).1 (deriveEvent ([], cursor) bar).2, List.append_assoc]

/-- A tick handles its bars one after the other. -/
theorem fundingPart_eq (s : State) (tick : Tick) :
    ((fundingPart s tick).rolls, (fundingPart s tick).cursor) =
      tick.bars.foldl deriveEvent (s.rolls, s.cursor) := by
  unfold fundingPart Tick.bars
  split
  case h_1 heq => rw [heq]; rfl
  case h_2 heq => rw [heq]; rfl
  case h_3 heq =>
    rw [heq, Option.getD_some]
    exact (foldl_deriveEvent s.rolls s.cursor _).symm

theorem follows_start : Follows [] (start.rolls, start.cursor) :=
  ⟨fun _ => AList.lookup_empty _, fun _ => rfl⟩

/-- After any number of ticks. -/
theorem follows_after (ticks : List Tick) :
    Follows (fetchedBars ticks) ((after ticks).rolls, (after ticks).cursor) := by
  induction ticks using List.reverseRecOn with
  | nil => exact follows_start
  | append_singleton ticks tick ih =>
    have hbars : fetchedBars (ticks ++ [tick]) = fetchedBars ticks ++ tick.bars := by
      simp [fetchedBars]
    have hafter : after (ticks ++ [tick]) = fundingPart (after ticks) tick := by
      simp [after]
    rw [hbars, hafter, fundingPart_eq]
    exact follows_foldl ih tick.bars

theorem mem_rolls_iff (ticks : List Tick) {roll : Roll} : roll ∈ (after ticks).rolls ↔
    ∃ id, ∃ p ∈ neighbours (announced id (fetchedBars ticks)),
      p.1.1 < p.2.1 ∧ roll = rollOf id p := by
  have hrolls := (follows_after ticks).rolls
  have hkey : roll ∈ (after ticks).rolls ↔
      roll ∈ ofKey Roll.instrument roll.instrument (after ticks).rolls := by
    rw [mem_ofKey, and_iff_left rfl]
  rw [hkey, hrolls]
  simp only [List.mem_map, mem_forward]
  constructor
  · intro h
    obtain ⟨p, ⟨hp, hlt⟩, heq⟩ := h
    exact ⟨roll.instrument, p, hp, hlt, heq.symm⟩
  · intro h
    obtain ⟨id, p, hp, hlt, rfl⟩ := h
    exact ⟨p, ⟨hp, hlt⟩, rfl⟩

/-- The projection to one instrument, as the sweep has it. -/
theorem deriveBar_deriveEvent (id : InstrumentId) (acc : List Roll × FundingCursor)
    (bar : FundingBar) :
    FundingSweep.deriveBar id
        ((ofKey Roll.instrument id acc.1).map Roll.event, acc.2.lookup id) bar =
      ((ofKey Roll.instrument id (deriveEvent acc bar).1).map Roll.event,
        (deriveEvent acc bar).2.lookup id) := by
  unfold FundingSweep.deriveBar deriveEvent
  by_cases hid : bar.instrument = id
  · subst hid
    rw [if_neg (not_not_intro rfl)]
    cases bar.nextFundingTs with
    | none => rfl
    | some next =>
      dsimp only
      rw [AList.lookup_insert]
      cases acc.2.lookup bar.instrument with
      | none => rfl
      | some prev =>
        dsimp only
        by_cases hlt : prev.1 < next
        · rw [if_pos hlt, if_pos hlt, ofKey_append, List.map_append]
          simp [ofKey, Roll.instrument]
        · rw [if_neg hlt, if_neg hlt]
  · rw [if_pos hid]
    cases bar.nextFundingTs with
    | none => rfl
    | some next =>
      dsimp only
      rw [AList.lookup_insert_ne (Ne.symm hid)]
      cases acc.2.lookup bar.instrument with
      | none => rfl
      | some prev =>
        dsimp only
        split
        · rw [ofKey_append]
          simp [ofKey, Roll.instrument, hid]
        · rfl

/-- Over a tick, the sweep's loop for an instrument derives what this one derives for it. -/
theorem foldl_deriveBar (id : InstrumentId) (bars : List FundingBar)
    (acc : List Roll × FundingCursor) :
    bars.foldl (FundingSweep.deriveBar id)
        ((ofKey Roll.instrument id acc.1).map Roll.event, acc.2.lookup id) =
      ((ofKey Roll.instrument id (bars.foldl deriveEvent acc).1).map Roll.event,
        (bars.foldl deriveEvent acc).2.lookup id) := by
  induction bars generalizing acc with
  | nil => rfl
  | cons bar rest ih => rw [List.foldl_cons, List.foldl_cons, deriveBar_deriveEvent, ih]

/-- No derived event lies after the receipt of the bar that triggers it exactly if each announced
time that gives way to a later one has passed by then. -/
theorem rolls_in_past_iff (ticks : List Tick) :
    (∀ roll ∈ (after ticks).rolls, roll.event.settlementTs ≤ roll.bar.recvTs) ↔
      ∀ id, ∀ p ∈ neighbours (announced id (fetchedBars ticks)),
        p.1.1 < p.2.1 → p.1.1 ≤ p.2.2.recvTs := by
  constructor
  · intro h id p hp hlt
    exact h (rollOf id p) ((mem_rolls_iff ticks).mpr ⟨id, p, hp, hlt, rfl⟩)
  · intro h roll hroll
    obtain ⟨id, p, hp, hlt, rfl⟩ := (mem_rolls_iff ticks).mp hroll
    exact h id p hp hlt

/-- A bar of the example instrument that announces a settlement. -/
def barAt (recvHour nextHour : Nat) : FundingBar :=
  let recvTs := Time.minutes (60 * recvHour)
  ⟨FundingSweep.exampleId, recvTs, recvTs, FundingSweep.exampleRate,
    some (Time.minutes (60 * nextHour)), none⟩

def tickOf (bar : FundingBar) : Tick := ⟨some [bar], .ok ()⟩

/-- At 14 o'clock the venue moves its settlement from 16 to 20 o'clock. -/
theorem postponed_settlement_derived : ¬ ∀ ticks : List Tick,
    ∀ roll ∈ (after ticks).rolls, roll.event.settlementTs ≤ roll.bar.recvTs := by
  intro h
  have hrolls : (after [tickOf (barAt 13 16), tickOf (barAt 14 20)]).rolls =
      [⟨⟨FundingSweep.exampleId, Time.minutes 960, FundingSweep.exampleRate, none⟩, barAt 14 20⟩] :=
    by decide
  have hpast := h [tickOf (barAt 13 16), tickOf (barAt 14 20)] _
    (by rw [hrolls]; exact List.mem_singleton_self _)
  exact absurd hpast (by decide)

/-- No settlement of an instrument is derived twice exactly if none of its announced times gives
way to a later one twice. -/
theorem derived_once_iff (ticks : List Tick) :
    ((after ticks).rolls.map fun roll => (roll.event.instrument, roll.event.settlementTs)).Nodup ↔
      ∀ id, ((forward Prod.fst (announced id (fetchedBars ticks))).map fun p => p.1.1).Nodup := by
  have hkey : ((after ticks).rolls.map fun roll =>
        (roll.event.instrument, roll.event.settlementTs)).Nodup ↔
      ∀ id, ((ofKey Roll.instrument id (after ticks).rolls).map fun roll =>
        roll.event.settlementTs).Nodup :=
    nodup_map_iff Roll.instrument fun roll => roll.event.settlementTs
  rw [hkey]
  refine forall_congr' fun id => ?_
  rw [(follows_after ticks).rolls, List.map_map]
  rfl

/-- The announced time goes back from 16 to 8 o'clock and forward again. -/
theorem settlement_derived_twice : ¬ ∀ ticks : List Tick,
    ((after ticks).rolls.map fun roll =>
      (roll.event.instrument, roll.event.settlementTs)).Nodup := by
  intro h
  have hnodup := h [tickOf (barAt 7 8), tickOf (barAt 9 16), tickOf (barAt 10 8),
    tickOf (barAt 11 16)]
  exact absurd hnodup (by decide)

/-- Where the announced times of an instrument never go back, its events are one for each of the
times but the last, in their order and with the rate of the last bar that carried the time. -/
theorem derived_of_sorted (ticks : List Tick) (id : InstrumentId)
    (h : ((announced id (fetchedBars ticks)).map Prod.fst).Pairwise (· ≤ ·)) :
    List.Forall₂
      (fun t event => ∃ bar, lastOf Prod.fst t (announced id (fetchedBars ticks)) = some (t, bar) ∧
        event = ⟨id, t, bar.rate, none⟩)
      ((announced id (fetchedBars ticks)).map Prod.fst).dedup.dropLast
      ((ofKey Roll.instrument id (after ticks).rolls).map Roll.event) := by
  rw [(follows_after ticks).rolls, List.map_map, List.forall₂_map_right_iff]
  refine (forward_of_sorted h).imp ?_
  intro t p hlast
  obtain ⟨⟨t', bar⟩, q⟩ := p
  obtain rfl : t' = t := (lastOf_mem hlast).2
  exact ⟨bar, hlast, rfl⟩

/-- The times 8, 8 and 16 o'clock, with a bar between them that announces none. -/
theorem derived_of_three_bars : List.Forall₂
    (fun t event => ∃ bar, lastOf Prod.fst t
        (announced FundingSweep.exampleId [barAt 6 8, { barAt 7 8 with nextFundingTs := none },
          barAt 7 8, barAt 9 16]) = some (t, bar) ∧
      event = ⟨FundingSweep.exampleId, t, bar.rate, none⟩)
    [Time.minutes 480]
    ((ofKey Roll.instrument FundingSweep.exampleId
      (after [⟨some [barAt 6 8, { barAt 7 8 with nextFundingTs := none }], .ok ()⟩,
        tickOf (barAt 7 8), tickOf (barAt 9 16)]).rolls).map Roll.event) :=
  derived_of_sorted [⟨some [barAt 6 8, { barAt 7 8 with nextFundingTs := none }], .ok ()⟩,
    tickOf (barAt 7 8), tickOf (barAt 9 16)] FundingSweep.exampleId (by decide)

def step (s : State) (tick : Tick) : Option State := some (fundingPart s tick)

/-- Each derived event was accepted by an upsert, or the cursor has its time and rate still. -/
def Kept (s : State) : Prop :=
  ∀ roll ∈ s.rolls, roll.event ∈ s.accepted ∨
    s.cursor.lookup roll.instrument = some (roll.event.settlementTs, roll.event.rate)

/-- No bar of the tick rolls a time forward, or the upsert of the events succeeds. -/
def Writes (s : State) (tick : Tick) : Prop :=
  (tick.bars.foldl deriveEvent ([], s.cursor)).1 = [] ∨ tick.upserted = .ok ()

/-- Everything that was derived has been accepted. -/
def AllAccepted (s : State) : Prop := ∀ roll ∈ s.rolls, roll.event ∈ s.accepted

theorem allAccepted_fundingPart {s : State} {tick : Tick} (h : AllAccepted s)
    (hwrites : Writes s tick) : AllAccepted (fundingPart s tick) := by
  unfold Writes Tick.bars at hwrites
  unfold fundingPart
  split
  case h_1 => exact h
  case h_2 => exact h
  case h_3 first rest heq =>
    rw [heq, Option.getD_some] at hwrites
    intro roll hroll
    dsimp only at hroll ⊢
    by_cases hnone : ((first :: rest).foldl deriveEvent ([], s.cursor)).1 = []
    · rw [if_pos hnone]
      rw [hnone, List.append_nil] at hroll
      exact h roll hroll
    · rw [if_neg hnone, hwrites.resolve_left hnone]
      dsimp only
      rcases List.mem_append.mp hroll with hold | hnew
      · exact List.mem_append_left _ (h roll hold)
      · exact List.mem_append_right _ (List.mem_map_of_mem hnew)

/-- In a run in which every tick with a roll has its events accepted, no event is lost. -/
theorem kept_throughout (ticks : List Tick) (h : Along step Writes start ticks) :
    Throughout step Kept start ticks := by
  have hstart : AllAccepted start := List.forall_mem_nil _
  refine throughout_of_along ?_ ?_ hstart h
  · intro s tick s' hs hwrites hstep
    obtain rfl := Option.some.inj hstep
    exact allAccepted_fundingPart hs hwrites
  · exact fun s hs roll hroll => .inl (hs roll hroll)

/-- A roll from 8 to 16 o'clock, and one write that fails. -/
def rollTicks (upserted : Except CoreError Unit) : List Tick :=
  [tickOf (barAt 7 8), ⟨some [barAt 8 16], upserted⟩]

theorem kept_of_accepted_roll : Throughout step Kept start (rollTicks (.ok ())) := by
  have hok : ∀ tick ∈ rollTicks (.ok ()), tick.upserted = .ok () := by
    unfold rollTicks tickOf
    simp
  exact kept_throughout _ ((along_of_forall hok start).mono fun _ _ h => .inr h)

/-- The cursor has moved on when the write fails. -/
theorem failed_write_loses_event : ¬ ∀ ticks : List Tick, Throughout step Kept start ticks := by
  intro h
  have hend : run step start (rollTicks (.error (.storage "down"))) =
      some (after (rollTicks (.error (.storage "down")))) := rfl
  have hkept := throughout_run (h _) hend
    ⟨⟨FundingSweep.exampleId, Time.minutes 480, FundingSweep.exampleRate, none⟩, barAt 8 16⟩
    (by decide)
  rcases hkept with haccepted | hcursor
  · exact absurd haccepted (by decide)
  · exact absurd hcursor (by decide)

end OiTerminal.Collector.FundingDerivation
