import OiTerminal.Collector.SweepLoop
import OiTerminal.Exchanges.HistoryCalls
import OiTerminal.Lib.Gather

/-!
# The pause after a ban

A venue that bans the address of this node answers with 401 or 403. The sweep counts such answers,
and when they are many its loop leaves the venue alone for hours.
-/
namespace OiTerminal.Collector.WafBan

open OiTerminal.Core
open OiTerminal.Collector.FundingSweep (NotDue)
open OiTerminal.Collector.SweepPool
open OiTerminal.Collector.SweepLoop
open OiTerminal.Exchanges.Http OiTerminal.Exchanges.HistoryCalls
open OiTerminal.Lib OiTerminal.Lib.Transition
open OiTerminal.Storage.ClickHouse

set_option autoImplicit false

/-- The adapter of a sweep. -/
structure Venue where
  exchange : Exchange
  decoders : Decoders
  text : DecimalText
  base : String

/-- What a task meets, with the clock of the adapter and the network. -/
structure Visit where
  panics : Bool
  now : Int
  latest : InstrumentId → Except CoreError (Option FundingEvent)
  clock : Int
  transport : Transport

section

variable (V : Venue) (v : Visit)

def Visit.call (inst : InstrumentId) (since : Option Int) : Call (List FundingEvent) :=
  historyCall V.decoders ⟨V.text, V.base, v.clock⟩ inst since V.exchange

def Visit.io : TaskIo where
  panics := v.panics
  now := v.now
  latest := v.latest
  history inst since := (v.call V inst since).run v.transport

/-- The task comes to ask the venue, and is turned away. -/
def Visit.turnedAway (inst : InstrumentId) : Bool :=
  !v.panics && !decide (NotDue v.now (since (v.latest inst))) &&
    Forbidden v.transport (v.call V inst (since (v.latest inst))).request

end

/-- How many tasks of a sweep are turned away. -/
def turnedAway (V : Venue) (visits : ℕ → Visit) (ids : List InstrumentId) : ℕ :=
  ids.zipIdx.countP fun task => (visits task.2).turnedAway V task.1

def isForbidden : Joined → Bool
  | .failed e => e.isAuth
  | _ => false

variable {V : Venue} {visits : ℕ → Visit} {ids : List InstrumentId}
  {upserted : ℕ → Except CoreError Unit}

/-- A task reports a failure of authorisation exactly if it was turned away. -/
theorem isForbidden_fetchTask (v : Visit) (inst : InstrumentId) :
    isForbidden (fetchTask (v.io V) inst) = v.turnedAway V inst := by
  unfold fetchTask Visit.io Visit.turnedAway
  dsimp only
  cases v.panics with
  | true => rfl
  | false =>
    by_cases hdue : NotDue v.now (since (v.latest inst))
    · simp [hdue, isForbidden]
    · have hended := endedAuth_historyCall V.decoders ⟨V.text, V.base, v.clock⟩ inst
        (since (v.latest inst)) V.exchange v.transport
      rw [if_neg Bool.false_ne_true, if_neg hdue, decide_eq_false hdue, Bool.not_false,
        Bool.true_and, Bool.true_and]
      unfold Visit.call
      rw [← hended]
      split
      case h_1 events hevents => rw [hevents]; rfl
      case h_2 e herror => rw [herror]; rfl

/-! ## The count of a sweep -/

@[simp] theorem authFailures_flush (t : Tally) :
    (t.flush upserted).stats.authFailures = t.stats.authFailures := by
  unfold Tally.flush
  cases upserted t.calls.length <;> rfl

@[simp] theorem authFailures_finish (t : Tally) :
    (t.finish upserted).stats.authFailures = t.stats.authFailures := by
  unfold Tally.finish
  split
  · rfl
  · exact authFailures_flush t

theorem authFailures_handle (t : Tally) (joined : Joined) :
    (t.handle upserted joined).stats.authFailures =
      t.stats.authFailures + if isForbidden joined then 1 else 0 := by
  cases joined with
  | panicked => rfl
  | failed e => rfl
  | fetched events =>
    unfold Tally.handle
    dsimp only
    split
    · rfl
    · split
      · exact authFailures_flush _
      · rfl

theorem authFailures_foldl (t : Tally) (answers : List Joined) :
    (answers.foldl (Tally.handle upserted) t).stats.authFailures =
      t.stats.authFailures + answers.countP isForbidden := by
  induction answers generalizing t with
  | nil => rfl
  | cons joined rest ih =>
    rw [List.foldl_cons, ih, authFailures_handle, List.countP_cons]
    omega

theorem countP_forbidden_le (answers : List Joined) :
    answers.countP isForbidden ≤ answers.countP Joined.isFailure := by
  refine List.countP_mono_left fun joined _ h => ?_
  cases joined with
  | panicked => rfl
  | failed e => rfl
  | fetched events => cases h

/-- Over the tasks of a sweep, in the order of the list. -/
theorem countP_joinedAt (V : Venue) (visits : ℕ → Visit) (ids : List InstrumentId) :
    (List.range ids.length).countP (fun idx =>
      isForbidden (joinedAt ids (fun idx => (visits idx).io V) idx)) = turnedAway V visits ids := by
  unfold turnedAway
  rw [← Gather.taken_range, Gather.taken, List.countP_filterMap]
  refine List.countP_congr fun idx hidx => ?_
  have hlt := List.mem_range.mp hidx
  unfold joinedAt
  rw [List.getElem?_eq_getElem hlt]
  dsimp only [Option.map]
  rw [answer, isForbidden_fetchTask]
  simp

/-- A sweep that has ended counts the tasks that were turned away, among its failures. -/
theorem authFailures_of_run {concurrency : ℕ} (hconcurrency : 0 < concurrency) {order : List ℕ}
    {s : Sweep} (hrun : run (SweepPool.step ids (fun idx => (visits idx).io V) upserted)
      (SweepPool.start ids concurrency) order = some s) (hdrained : s.pool.inflight = []) :
    (s.tally.finish upserted).stats.authFailures = turnedAway V visits ids ∧
      turnedAway V visits ids ≤ (s.tally.finish upserted).stats.failures := by
  obtain ⟨hpool, htally⟩ := run_cases hrun
  have horder := FanOut.perm_of_drained hconcurrency hpool hdrained
  have hcount : (order.map (joinedAt ids fun idx => (visits idx).io V)).countP isForbidden =
      turnedAway V visits ids := by
    rw [List.countP_map, ← countP_joinedAt, horder.countP_eq]
    rfl
  constructor
  · rw [authFailures_finish, htally, authFailures_foldl, hcount]
    exact Nat.zero_add _
  · obtain ⟨_, _, htallied⟩ :=
      (tallied_empty (joinedAt ids fun idx => (visits idx).io V)).foldl upserted order
    obtain ⟨_, hfinal⟩ := htallied.finish upserted
    rw [htally, ← hcount]
    refine (countP_forbidden_le _).trans ?_
    rw [List.countP_map]
    exact (Nat.le_add_right _ _).trans (Nat.le_of_eq hfinal.failures.symm)

/-! ## The pause -/

variable {cfg : Config} {l l' : Loop} {work : Work} {sweep : Sweep}

/-- In a reachable state of the loop the sweep is a run of the pool. -/
theorem pooled_of_joining (leader : Bool) {acts : List Act}
    (hrun : run (SweepLoop.step cfg) (SweepLoop.start leader) acts = some l)
    (hphase : l.phase = .joining work sweep) : SweepLoop.Pooled cfg work sweep := by
  have hinv : SweepLoop.Inv cfg l :=
    throughout_run (throughout_of_step (fun _ _ _ h hstep => SweepLoop.inv_step h hstep)
      (fun _ h => h) (SweepLoop.inv_start leader)) hrun
  have hfits := hinv.fits
  rw [hphase] at hfits
  exact hfits.2

theorem finish_cases (hphase : l.phase = .joining work sweep)
    (hfinish : SweepLoop.step cfg l .finish = some l') :
    sweep.pool.inflight = [] ∧
      l'.phase = .asleep (l.now + pauseAfter cfg (sweep.tally.finish work.upserted).stats) := by
  unfold SweepLoop.step at hfinish
  rw [hphase] at hfinish
  dsimp only at hfinish
  split at hfinish
  case isTrue hdrained =>
    obtain rfl := Option.some.inj hfinish
    exact ⟨hdrained, rfl⟩
  case isFalse => cases hfinish

/-- Whenever the loop ends a sweep, whatever the tasks met before: it sleeps for four hours if the
venue turned twenty of them away as unauthorised or forbidden, and for the interval otherwise. Rate
limits, other errors, panics, tasks that are not due and failed upserts make no difference. -/
theorem loop_rests_after_bans (V : Venue) (hconcurrency : 0 < cfg.concurrency) (leader : Bool)
    (acts : List Act) (visits : ℕ → Visit)
    (hrun : run (SweepLoop.step cfg) (SweepLoop.start leader) acts = some l)
    (hphase : l.phase = .joining work sweep) (hio : work.io = fun idx => (visits idx).io V)
    (hfinish : SweepLoop.step cfg l .finish = some l') :
    l'.phase = .asleep (l.now +
      if 20 ≤ turnedAway V visits work.ids then wafCooldown else cfg.interval) := by
  obtain ⟨hdrained, hasleep⟩ := finish_cases hphase hfinish
  obtain ⟨order, hpool⟩ := pooled_of_joining leader hrun hphase
  rw [hio] at hpool
  have hcount := (authFailures_of_run hconcurrency hpool hdrained).1
  rw [hasleep, pauseAfter, hcount]
  rfl

/-- A venue of one symbol that forbids every request. -/
def closedVenue : Venue where
  exchange := .binance
  decoders := ⟨fun _ => .ok [], fun _ => .error "", fun _ => .error "", fun _ => .error "",
    fun _ => .error "", fun _ => .error "", fun _ => .error "", fun _ => .ok []⟩
  text := .plain
  base := ""

def forbiddenVisit : Visit :=
  ⟨false, 0, fun _ => .ok none, 0, fun _ => .answered ⟨403, none, .ok ""⟩⟩

/-- A sweep of so many symbols of that venue. -/
def closedWork (n : ℕ) : Work where
  ids := (List.range n).map fun i => ⟨.binance, "SYMBOL" ++ toString i⟩
  io _ := forbiddenVisit.io closedVenue
  upserted _ := .ok ()

theorem turnedAway_closed (n : ℕ) :
    turnedAway closedVenue (fun _ => forbiddenVisit) (closedWork n).ids = n := by
  have hall : ∀ task ∈ (closedWork n).ids.zipIdx,
      forbiddenVisit.turnedAway closedVenue task.1 = true := fun _ _ => rfl
  rw [turnedAway, List.countP_eq_length.mpr hall, List.length_zipIdx, closedWork, List.length_map,
    List.length_range]

/-- With eight workers and a sweep every half hour, nineteen tasks that are turned away are not
enough to keep away from the venue, and twenty are. -/
theorem twenty_forbidden_rest :
    (∃ acts l sweep l', run (SweepLoop.step ⟨1800000, 8⟩) (SweepLoop.start true) acts = some l ∧
      l.phase = .joining (closedWork 19) sweep ∧
      SweepLoop.step ⟨1800000, 8⟩ l .finish = some l' ∧ l'.phase = .asleep (l.now + 1800000)) ∧
    ∃ acts l sweep l', run (SweepLoop.step ⟨1800000, 8⟩) (SweepLoop.start true) acts = some l ∧
      l.phase = .joining (closedWork 20) sweep ∧
      SweepLoop.step ⟨1800000, 8⟩ l .finish = some l' ∧
      l'.phase = .asleep (l.now + 4 * 3600 * 1000) := by
  have hrests : ∀ n, ∃ acts l sweep l',
      run (SweepLoop.step ⟨1800000, 8⟩) (SweepLoop.start true) acts = some l ∧
      l.phase = .joining (closedWork n) sweep ∧
      SweepLoop.step ⟨1800000, 8⟩ l .finish = some l' ∧
      l'.phase = .asleep (l.now + if 20 ≤ n then wafCooldown else 1800000) := by
    intro n
    obtain ⟨acts, l, sweep, hrun, hphase, hdrained⟩ := exists_swept ⟨1800000, 8⟩ (closedWork n)
    obtain ⟨l', hfinish⟩ := exists_finish hphase hdrained
    have hasleep := loop_rests_after_bans closedVenue (by decide) true acts
      (fun _ => forbiddenVisit) hrun hphase rfl hfinish
    rw [turnedAway_closed] at hasleep
    exact ⟨acts, l, sweep, l', hrun, hphase, hfinish, hasleep⟩
  exact ⟨hrests 19, hrests 20⟩

end OiTerminal.Collector.WafBan
