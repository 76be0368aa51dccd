import OiTerminal.Core.Funding
import OiTerminal.Core.Time
import OiTerminal.Lib.CatchUp
import OiTerminal.Lib.Transition

/-!
# Settlement history of one instrument

Two writers fill the event store. The live loop derives an event when the next settlement
time rolls forward. The sweep looks up the newest stored settlement and fetches what the
venue has after it. Their steps interleave in any order, fail in any order, and a restart
ends both. `completed` records when the passes that succeeded fetched, and influences
nothing.
-/
namespace OiTerminal.Collector.FundingSweep

open OiTerminal.Core OiTerminal.Core.Time OiTerminal.Lib.Transition OiTerminal.Lib.CatchUp

set_option autoImplicit false

/-- A settlement fresher than this has no successor yet. -/
def notDueBefore : Int := minutes 50

/-- How an upsert ends. A failed one may have landed. -/
inductive Outcome where
  | ok
  | failed (landed : Bool)
  deriving DecidableEq, Repr

def Outcome.landed : Outcome → Bool
  | .ok => true
  | .failed landed => landed

/-- Where the sweep's pass over the instrument stands. -/
inductive Sweep where
  | idle
  | looked (since : Option Int)
  | fetched (fetchedAt : Int) (events : List FundingEvent)
  deriving DecidableEq, Repr

structure State where
  now : Int
  stored : List FundingEvent
  fundingCursor : Option (Int × Decimal)
  derived : List FundingEvent
  sweep : Sweep
  completed : List Int
  deriving DecidableEq, Repr

inductive Act where
  | elapse (d : Nat)
  | restart
  | tick (bars : List FundingBar)
  | storeDerived (outcome : Outcome)
  | lookup (ok : Bool)
  | fetch (ok : Bool)
  | upsert (outcome : Outcome)
  deriving DecidableEq, Repr

/-- One bar of a tick: the events derived so far and the cursor. -/
def deriveBar (id : InstrumentId) (acc : List FundingEvent × Option (Int × Decimal))
    (bar : FundingBar) : List FundingEvent × Option (Int × Decimal) :=
  if bar.instrument ≠ id then acc
  else
    match bar.nextFundingTs with
    | none => acc
    | some next =>
      let events :=
        match acc.2 with
        | some (prevNext, prevRate) =>
          if prevNext < next then acc.1 ++ [⟨bar.instrument, prevNext, prevRate, none⟩] else acc.1
        | none => acc.1
      (events, some (next, bar.rate))

/-- The stored event with the newest settlement. -/
def latestFundingEvent (stored : List FundingEvent) : Option FundingEvent :=
  newestBy FundingEvent.settlementTs stored

def settlementTimes (events : List FundingEvent) : List Int :=
  events.map FundingEvent.settlementTs

/-- The last stored settlement is too fresh for a new one. -/
def NotDue (now : Int) (since : Option Int) : Prop := ∃ x ∈ since, now - x < notDueBefore

instance (now : Int) (since : Option Int) : Decidable (NotDue now since) :=
  inferInstanceAs (Decidable (∃ x ∈ since, now - x < notDueBefore))

/-- A step of the live loop, the sweep or the clock. `history` is the adapter's
`fetch_funding_history` at a moment. -/
def step (history : Option Int → Int → List FundingEvent) (id : InstrumentId) (s : State) :
    Act → Option State
  | .elapse d => some { s with now := s.now + d }
  | .restart => some { s with fundingCursor := none, derived := [], sweep := .idle }
  | .tick bars =>
    if s.derived = [] then
      let out := bars.foldl (deriveBar id) ([], s.fundingCursor)
      some { s with derived := out.1, fundingCursor := out.2 }
    else none
  | .storeDerived outcome =>
    if s.derived = [] then none
    else
      some { s with
        derived := []
        stored := if outcome.landed then s.stored ++ s.derived else s.stored }
  | .lookup ok =>
    match s.sweep with
    | .idle =>
      -- a failed lookup fetches the whole history
      let since := if ok then (latestFundingEvent s.stored).map FundingEvent.settlementTs else none
      some { s with sweep := .looked since }
    | _ => none
  | .fetch ok =>
    match s.sweep with
    | .looked since =>
      let done := { s with sweep := .idle, completed := s.completed ++ [s.now] }
      if NotDue s.now since then some done
      else if ok then
        let events := history since s.now
        some (if events = [] then done else { s with sweep := .fetched s.now events })
      else some { s with sweep := .idle }
    | _ => none
  | .upsert outcome =>
    match s.sweep with
    | .fetched fetchedAt events =>
      some { s with
        sweep := .idle
        stored := if outcome.landed then s.stored ++ events else s.stored
        completed := if outcome = .ok then s.completed ++ [fetchedAt] else s.completed }
    | _ => none

/-- A new instrument: nothing is stored and neither task has run. -/
def start (now : Int) : State where
  now := now
  stored := []
  fundingCursor := none
  derived := []
  sweep := .idle
  completed := []

/-- The adapter returns all settlements after the cursor up to now. -/
def FetchesAll (settles : Int → Prop) (history : Option Int → Int → List FundingEvent) : Prop :=
  ∀ since now, FetchedSince {v | settles v} since now {v | v ∈ settlementTimes (history since now)}

/-- After a successful pass at `t` no settlement up to `t` less the due margin is missing. -/
def Complete (settles : Int → Prop) (s : State) : Prop :=
  ∀ t ∈ s.completed, ∀ v, settles v → v ≤ t - notDueBefore → v ∈ settlementTimes s.stored

/-- A derived event is stored only when no earlier settlement is missing. -/
def NoHole (settles : Int → Prop) (s : State) : Act → Prop
  | .storeDerived outcome =>
    outcome.landed = true → ∀ e ∈ s.derived, ∀ v, settles v → v < e.settlementTs →
      v ∈ settlementTimes s.stored ∨ v ∈ settlementTimes s.derived
  | _ => True

/-- The cursor of the pass in flight is stored, and what it fetched follows the cursor. -/
def SweepInv (history : Option Int → Int → List FundingEvent) (stored : List FundingEvent) :
    Sweep → Prop
  | .idle => True
  | .looked since => ∀ x ∈ since, x ∈ settlementTimes stored
  | .fetched fetchedAt events =>
    ∃ since, (∀ x ∈ since, x ∈ settlementTimes stored) ∧ events = history since fetchedAt

structure Inv (settles : Int → Prop) (history : Option Int → Int → List FundingEvent) (s : State) :
    Prop where
  closed : Closed {v | settles v} {v | v ∈ settlementTimes s.stored}
  complete : Complete settles s
  sweep : SweepInv history s.stored s.sweep

variable {settles : Int → Prop} {history : Option Int → Int → List FundingEvent}
  {id : InstrumentId} {s s' : State} {stored more : List FundingEvent}

theorem setOf_settlementTimes_append (stored more : List FundingEvent) :
    {v | v ∈ settlementTimes (stored ++ more)} =
      {v | v ∈ settlementTimes stored} ∪ {v | v ∈ settlementTimes more} := by
  ext v
  simp [settlementTimes]

theorem mem_settlementTimes_append {v : Int} (h : v ∈ settlementTimes stored)
    (more : List FundingEvent) : v ∈ settlementTimes (stored ++ more) := by
  rw [settlementTimes, List.map_append]
  exact List.mem_append_left _ h

theorem SweepInv.mono {sweep : Sweep} (h : SweepInv history stored sweep)
    (hsub : ∀ v ∈ settlementTimes stored, v ∈ settlementTimes more) :
    SweepInv history more sweep := by
  cases sweep with
  | idle => trivial
  | looked since => exact fun x hx => hsub x (h x hx)
  | fetched fetchedAt events =>
    obtain ⟨since, hsince, hevents⟩ := h
    exact ⟨since, fun x hx => hsub x (hsince x hx), hevents⟩

/-- The cursor that a lookup finds is a stored settlement. -/
theorem mem_of_latestFundingEvent {x : Int}
    (h : (latestFundingEvent stored).map FundingEvent.settlementTs = some x) :
    x ∈ settlementTimes stored := by
  obtain ⟨e, he, rfl⟩ := Option.map_eq_some_iff.mp h
  exact List.mem_map_of_mem (newestBy_mem he)

/-- A store that grows without a gap below what is new keeps the invariant, whatever the
pass in flight becomes. -/
theorem Inv.grow (h : Inv settles history s) (more : List FundingEvent)
    (hstored : s'.stored = s.stored ++ more)
    (hclosed : Closed {v | settles v} {v | v ∈ settlementTimes (s.stored ++ more)})
    (hcompleted : ∀ t ∈ s'.completed, t ∈ s.completed ∨ ∀ v, settles v → v ≤ t →
      v ∈ settlementTimes (s.stored ++ more))
    (hsweep : s'.sweep = .idle ∨ s'.sweep = s.sweep) : Inv settles history s' where
  closed := by rw [hstored]; exact hclosed
  complete t ht v hv hle := by
    rw [hstored]
    rcases hcompleted t ht with hold | hnew
    · exact mem_settlementTimes_append (h.complete t hold v hv hle) more
    · refine hnew v hv ?_
      simp only [notDueBefore, minutes] at hle
      omega
  sweep := by
    rw [hstored]
    rcases hsweep with hidle | hsame
    · rw [hidle]
      trivial
    · rw [hsame]
      exact h.sweep.mono fun v hv => mem_settlementTimes_append hv more

/-- A step that stores nothing. -/
theorem Inv.quiet (h : Inv settles history s) (hstored : s'.stored = s.stored)
    (hcompleted : ∀ t ∈ s'.completed, t ∈ s.completed ∨ ∀ v, settles v → v ≤ t - notDueBefore →
      v ∈ settlementTimes s.stored)
    (hsweep : SweepInv history s.stored s'.sweep) : Inv settles history s' where
  closed := by rw [hstored]; exact h.closed
  complete t ht v hv hle := by
    rw [hstored]
    rcases hcompleted t ht with hold | hnew
    · exact h.complete t hold v hv hle
    · exact hnew v hv hle
  sweep := by rw [hstored]; exact hsweep

/-- A pass that the due gate ends needs no fetch. -/
theorem Inv.notDue (h : Inv settles history s) {since : Option Int}
    (hsince : ∀ x ∈ since, x ∈ settlementTimes s.stored) (hdue : NotDue s.now since) {v : Int}
    (hv : settles v) (hle : v ≤ s.now - notDueBefore) : v ∈ settlementTimes s.stored := by
  obtain ⟨x, hx, hfresh⟩ := hdue
  have hvx : v ≤ x := by omega
  exact h.closed.mem_of_le (hsince x hx) hv hvx

/-- The events of a fetch complete the store up to the moment of the fetch. -/
theorem Inv.mem_of_history (h : Inv settles history s) (hall : FetchesAll settles history)
    {since : Option Int} (hsince : ∀ x ∈ since, x ∈ settlementTimes s.stored) {fetchedAt v : Int}
    (hv : settles v) (hle : v ≤ fetchedAt) :
    v ∈ settlementTimes (s.stored ++ history since fetchedAt) := by
  have hmem := h.closed.mem_of_fetched hsince (hall since fetchedAt) hv hle
  show v ∈ {v | v ∈ settlementTimes (s.stored ++ history since fetchedAt)}
  rw [setOf_settlementTimes_append]
  exact hmem

/-- The pass that has just been recorded is the only new one. -/
theorem mem_completed {completed : List Int} {done : Int} {P : Int → Prop} (hdone : P done) :
    ∀ t ∈ completed ++ [done], t ∈ completed ∨ P t := by
  intro t ht
  rcases List.mem_append.mp ht with hold | hnew
  · exact .inl hold
  · obtain rfl := List.mem_singleton.mp hnew
    exact .inr hdone

/-- A fetch ends the pass at the due gate, with nothing new, with events in hand or with an
error. -/
theorem Inv.fetch (h : Inv settles history s) (hall : FetchesAll settles history)
    {since : Option Int} {ok : Bool} (hsweep : s.sweep = .looked since)
    (hstep : step history id s (.fetch ok) = some s') : Inv settles history s' := by
  have hsince : ∀ x ∈ since, x ∈ settlementTimes s.stored := by
    have hinv := h.sweep
    rwa [hsweep] at hinv
  simp only [step, hsweep] at hstep
  split at hstep
  case isTrue hdue =>
    obtain rfl := Option.some.inj hstep
    exact h.quiet rfl (mem_completed fun v hv hle => h.notDue hsince hdue hv hle) trivial
  case isFalse =>
    split at hstep
    case isTrue =>
      obtain rfl := Option.some.inj hstep
      by_cases hevents : history since s.now = []
      · rw [if_pos hevents]
        have hfetched : ∀ v, settles v → v ≤ s.now → v ∈ settlementTimes (s.stored ++ []) :=
          fun v hv hle => hevents ▸ h.mem_of_history hall hsince hv hle
        refine h.grow [] (List.append_nil _).symm ?_ (mem_completed hfetched) (.inl rfl)
        rw [List.append_nil]
        exact h.closed
      · rw [if_neg hevents]
        exact h.quiet rfl (fun _ ht => .inl ht) ⟨since, hsince, rfl⟩
    case isFalse =>
      obtain rfl := Option.some.inj hstep
      exact h.quiet rfl (fun _ ht => .inl ht) trivial

/-- An upsert that lands completes the store; one that answers as well completes the pass. -/
theorem Inv.upsert (h : Inv settles history s) (hall : FetchesAll settles history)
    {fetchedAt : Int} {events : List FundingEvent} {outcome : Outcome}
    (hsweep : s.sweep = .fetched fetchedAt events)
    (hstep : step history id s (.upsert outcome) = some s') : Inv settles history s' := by
  have hinv := h.sweep
  rw [hsweep] at hinv
  obtain ⟨since, hsince, rfl⟩ := hinv
  simp only [step, hsweep, Option.some.injEq] at hstep
  subst hstep
  have hclosed : Closed {v | settles v}
      {v | v ∈ settlementTimes (s.stored ++ history since fetchedAt)} := by
    rw [setOf_settlementTimes_append]
    exact h.closed.catchUp hsince (hall since fetchedAt)
  have hfetched : ∀ v, settles v → v ≤ fetchedAt →
      v ∈ settlementTimes (s.stored ++ history since fetchedAt) :=
    fun v hv hle => h.mem_of_history hall hsince hv hle
  cases outcome with
  | ok => exact h.grow _ rfl hclosed (mem_completed hfetched) (.inl rfl)
  | failed landed =>
    cases landed with
    | true => exact h.grow _ rfl hclosed (fun _ ht => .inl ht) (.inl rfl)
    | false => exact h.quiet rfl (fun _ ht => .inl ht) trivial

theorem inv_step (hall : FetchesAll settles history) {a : Act} (h : Inv settles history s)
    (hok : NoHole settles s a) (hstep : step history id s a = some s') :
    Inv settles history s' := by
  cases a with
  | elapse d =>
    obtain rfl := Option.some.inj hstep
    exact h.quiet rfl (fun _ ht => .inl ht) h.sweep
  | restart =>
    obtain rfl := Option.some.inj hstep
    exact h.quiet rfl (fun _ ht => .inl ht) trivial
  | tick bars =>
    simp only [step, Option.ite_none_right_eq_some, Option.some.injEq] at hstep
    obtain ⟨_, rfl⟩ := hstep
    exact h.quiet rfl (fun _ ht => .inl ht) h.sweep
  | storeDerived outcome =>
    simp only [step, Option.ite_none_left_eq_some, Option.some.injEq] at hstep
    obtain ⟨_, rfl⟩ := hstep
    cases hlanded : outcome.landed with
    | false => exact h.quiet rfl (fun _ ht => .inl ht) h.sweep
    | true =>
      refine h.grow s.derived rfl ?_ (fun _ ht => .inl ht) (.inr rfl)
      rw [setOf_settlementTimes_append]
      refine h.closed.union fun x hx v hv hlt => ?_
      obtain ⟨e, he, rfl⟩ := List.mem_map.mp hx
      exact hok hlanded e he v hv hlt
  | lookup ok =>
    cases hsweep : s.sweep with
    | idle =>
      simp only [step, hsweep, Option.some.injEq] at hstep
      subst hstep
      refine h.quiet rfl (fun _ ht => .inl ht) fun x hx => ?_
      cases ok with
      | true => exact mem_of_latestFundingEvent hx
      | false => exact absurd hx (Option.not_mem_none x)
    | _ => simp [step, hsweep] at hstep
  | fetch ok =>
    cases hsweep : s.sweep with
    | looked since => exact h.fetch hall hsweep hstep
    | _ => simp [step, hsweep] at hstep
  | upsert outcome =>
    cases hsweep : s.sweep with
    | fetched fetchedAt events => exact h.upsert hall hsweep hstep
    | _ => simp [step, hsweep] at hstep

theorem inv_start (settles : Int → Prop) (history : Option Int → Int → List FundingEvent)
    (now : Int) : Inv settles history (start now) where
  closed _ hx := absurd hx List.not_mem_nil
  complete _ ht := by cases ht
  sweep := trivial

/-- Whatever fails and however the two writers interleave, a successful pass leaves no gap,
as long as the live loop never stores an event past a settlement that is missing. -/
theorem complete_throughout (settles : Int → Prop)
    (history : Option Int → Int → List FundingEvent) (hall : FetchesAll settles history)
    (id : InstrumentId) (now : Int) (acts : List Act)
    (hok : Along (step history id) (NoHole settles) (start now) acts) :
    Throughout (step history id) (Complete settles) (start now) acts :=
  throughout_of_along (fun _ _ _ h ha hs => inv_step hall h ha hs) (fun _ h => h.complete)
    (inv_start settles history now) hok

instance (times : List Int) (s : State) : ∀ a, Decidable (NoHole (fun v => v ∈ times) s a)
  | .storeDerived outcome =>
    inferInstanceAs (Decidable (outcome.landed = true → ∀ e ∈ s.derived, ∀ v ∈ times,
      v < e.settlementTs → v ∈ settlementTimes s.stored ∨ v ∈ settlementTimes s.derived))
  | .elapse _ | .restart | .tick _ | .lookup _ | .fetch _ | .upsert _ => isTrue trivial

/-- The adapter of a venue with the given settlements. -/
def historyOf (events : List FundingEvent) (since : Option Int) (now : Int) :
    List FundingEvent :=
  events.filter fun e => (∀ x ∈ since, x < e.settlementTs) ∧ e.settlementTs ≤ now

theorem fetchesAll_historyOf (events : List FundingEvent) :
    FetchesAll (fun v => v ∈ settlementTimes events) (historyOf events) := by
  intro since now v
  simp only [settlementTimes, historyOf, Set.mem_ofPred_eq, List.mem_map, List.mem_filter,
    decide_eq_true_eq]
  constructor
  · rintro ⟨e, ⟨he, hafter, hle⟩, rfl⟩
    exact ⟨⟨e, he, rfl⟩, hafter, hle⟩
  · rintro ⟨⟨e, he, rfl⟩, hafter, hle⟩
    exact ⟨e, ⟨he, hafter, hle⟩, rfl⟩

def exampleId : InstrumentId := ⟨.bybit, "BTCUSDT"⟩

def exampleRate : Decimal := .ofNat 1 (by decide)

def settlementAt (hour : Nat) : FundingEvent := ⟨exampleId, minutes (60 * hour), exampleRate, none⟩

/-- Settlements at 0, 8 and 16 o'clock. -/
def eightHourly : List FundingEvent := [settlementAt 0, settlementAt 8, settlementAt 16]

/-- A tick whose bar announces the next settlement. -/
def tickWith (nextHour : Nat) : Act :=
  .tick [⟨exampleId, 0, 0, exampleRate, some (minutes (60 * nextHour)), none⟩]

/-- The live loop sees the roll over the settlement at 16 o'clock. -/
def rollActs : List Act := [tickWith 16, .elapse (minutes 2).toNat, tickWith 24, .storeDerived .ok]

def sweepActs : List Act := [.lookup true, .fetch true, .upsert .ok]

/-- A pass at 9 o'clock stores the history before the live loop adds to it. -/
theorem complete_throughout_swept_first :
    Throughout (step (historyOf eightHourly) exampleId)
      (Complete fun v => v ∈ settlementTimes eightHourly) (start (minutes (60 * 9)))
      (sweepActs ++ [.elapse (minutes 419).toNat] ++ rollActs ++
        [.elapse (minutes 60).toNat, .lookup true, .fetch true]) :=
  complete_throughout _ _ (fetchesAll_historyOf eightHourly) _ _ _ (by decide +kernel)

/-- Without that pass the derived event moves the cursor past the settlements at 0 and 8
o'clock, and the next pass succeeds without them. -/
theorem derived_event_hides_settlements :
    ¬ ∀ (settles : Int → Prop) (history : Option Int → Int → List FundingEvent),
      FetchesAll settles history → ∀ (id : InstrumentId) (now : Int) (acts : List Act),
        Throughout (step history id) (Complete settles) (start now) acts := by
  intro hall
  let acts := rollActs ++ [.elapse (minutes 60).toNat, .lookup true, .fetch true]
  have hrun : (run (step (historyOf eightHourly) exampleId) (start (minutes 959)) acts).map
      (fun s => (s.completed, s.stored)) = some ([minutes 1021], [settlementAt 16]) := by
    decide +kernel
  obtain ⟨s, hs, hproj⟩ := Option.map_eq_some_iff.mp hrun
  obtain ⟨hcompleted, hstored⟩ := Prod.mk.inj hproj
  have hcomplete := throughout_run
    (hall _ _ (fetchesAll_historyOf eightHourly) exampleId (minutes 959) acts) hs
  have hmissing := hcomplete (minutes 1021) (by rw [hcompleted]; exact List.mem_cons_self)
    (minutes 480) (by decide) (by decide)
  rw [hstored] at hmissing
  exact absurd hmissing (by decide)

end OiTerminal.Collector.FundingSweep
