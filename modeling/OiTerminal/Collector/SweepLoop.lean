import OiTerminal.Collector.SweepPool
import OiTerminal.Lib.Spaced

/-!
# The loop of the funding sweep

The task of a venue sleeps, asks the lease, and sweeps if this node leads. A sweep launches its
tasks one at a time with a pause before each. The sleep after it is longer when the venue has turned
too many requests away.
-/
namespace OiTerminal.Collector.SweepLoop

open OiTerminal.Core
open OiTerminal.Collector.SweepPool
open OiTerminal.Lib OiTerminal.Lib.Spaced OiTerminal.Lib.Transition
open OiTerminal.Storage.ClickHouse

set_option autoImplicit false

/-- Times and durations are milliseconds. -/
def spawnSpacing : ℕ := 1000

def firstDelay : ℕ := 15 * 1000

def wafBanThreshold : ℕ := 20

def wafCooldown : ℕ := 4 * 3600 * 1000

/-- The two parameters of `spawn_funding_sweep` that matter here. -/
structure Config where
  interval : ℕ
  concurrency : ℕ

/-- What a sweep works on, and what its tasks and its upserts will meet. -/
structure Work where
  ids : List InstrumentId
  io : ℕ → TaskIo
  upserted : ℕ → Except CoreError Unit

/-- Where the task stands. Before a launch it sleeps until `wake`. -/
inductive Phase where
  | asleep (wake : ℕ)
  | priming (work : Work) (wake : ℕ)
  | joining (work : Work) (sweep : Sweep)
  | spacing (work : Work) (sweep : Sweep) (idx : ℕ) (wake : ℕ)

/-- How a cycle has ended, if it has. -/
inductive Ending where
  | running
  | skipped
  | swept (at' : ℕ) (stats : SweepStats)

/-- A cycle in the history: when it began, whether this node led then, the symbols, and the times
of its launches, the newest first. -/
structure Cycle where
  begun : ℕ
  leader : Bool
  ids : List InstrumentId
  launches : List ℕ
  ending : Ending

structure Loop where
  now : ℕ
  leader : Bool
  instruments : List InstrumentId
  phase : Phase
  cycles : List Cycle

/-- Time passes, the lease changes, and the minute loop replaces the list of instruments. The rest
is what the task does. -/
inductive Act where
  | elapse (d : ℕ)
  | lease (leader : Bool)
  | discovered (ids : List InstrumentId)
  | wake (io : ℕ → TaskIo) (upserted : ℕ → Except CoreError Unit)
  | launch
  | join (idx : ℕ)
  | finish

/-- How long the task sleeps after a sweep. -/
def pauseAfter (cfg : Config) (stats : SweepStats) : ℕ :=
  if wafBanThreshold ≤ stats.authFailures then wafCooldown else cfg.interval

/-- The current cycle is the newest. -/
def onCurrent (f : Cycle → Cycle) : List Cycle → List Cycle
  | [] => []
  | c :: rest => f c :: rest

def Cycle.launch (now : ℕ) (c : Cycle) : Cycle := { c with launches := now :: c.launches }

/-- The pool once `launched` tasks were primed: the loop goes on to join when the pool is full. -/
def afterPriming (cfg : Config) (work : Work) (launched now : ℕ) : Phase :=
  if launched < min work.ids.length cfg.concurrency then .priming work (now + spawnSpacing)
  else .joining work (SweepPool.start work.ids cfg.concurrency)

def launchedBy (cycles : List Cycle) : ℕ :=
  match cycles with
  | [] => 0
  | c :: _ => c.launches.length

def step (cfg : Config) (l : Loop) : Act → Option Loop
  | .elapse d => some { l with now := l.now + d }
  | .lease leader => some { l with leader }
  | .discovered ids => some { l with instruments := ids }
  | .wake io upserted =>
    match l.phase with
    | .asleep wake =>
      if wake ≤ l.now then
        if l.leader then
          let work : Work := ⟨l.instruments, io, upserted⟩
          some { l with
            phase := afterPriming cfg work 0 l.now
            cycles := ⟨l.now, true, l.instruments, [], .running⟩ :: l.cycles }
        else
          some { l with
            phase := .asleep (l.now + cfg.interval)
            cycles := ⟨l.now, false, l.instruments, [], .skipped⟩ :: l.cycles }
      else none
    | _ => none
  | .launch =>
    match l.phase with
    | .priming work wake =>
      if wake ≤ l.now then
        let cycles := onCurrent (Cycle.launch l.now) l.cycles
        some { l with phase := afterPriming cfg work (launchedBy cycles) l.now, cycles }
      else none
    | .spacing work sweep idx wake =>
      if wake ≤ l.now then
        (SweepPool.step work.ids work.io work.upserted sweep idx).map fun sweep =>
          { l with
            phase := .joining work sweep
            cycles := onCurrent (Cycle.launch l.now) l.cycles }
      else none
    | _ => none
  | .join idx =>
    match l.phase with
    | .joining work sweep =>
      if idx ∈ sweep.pool.inflight then
        if sweep.pool.next < work.ids.length then
          some { l with phase := .spacing work sweep idx (l.now + spawnSpacing) }
        else
          (SweepPool.step work.ids work.io work.upserted sweep idx).map fun sweep =>
            { l with phase := .joining work sweep }
      else none
    | _ => none
  | .finish =>
    match l.phase with
    | .joining work sweep =>
      if sweep.pool.inflight = [] then
        let stats := (sweep.tally.finish work.upserted).stats
        some { l with
          phase := .asleep (l.now + pauseAfter cfg stats)
          cycles := onCurrent (fun c => { c with ending := .swept l.now stats }) l.cycles }
      else none
    | _ => none

def start (leader : Bool) : Loop := ⟨0, leader, [], .asleep firstDelay, []⟩

/-- The next cycle does not begin before the sleep after this one is over. -/
def Cycle.Permits (cfg : Config) (c : Cycle) (wake : ℕ) : Prop :=
  match c.ending with
  | .running => False
  | .skipped => c.begun + cfg.interval ≤ wake
  | .swept at' stats => at' + pauseAfter cfg stats ≤ wake

/-- What a cycle keeps to. A follower launches nothing. A leader launches nothing at once, no more
tasks than there are symbols, and one for each when the sweep has ended. -/
structure Cycle.Keeps (cfg : Config) (c : Cycle) : Prop where
  delayed : firstDelay ≤ c.begun
  leading : c.leader = false → c.launches = []
  after : ∀ t ∈ c.launches, c.begun + spawnSpacing ≤ t
  once : c.launches.length ≤ c.ids.length
  whole : ∀ at' stats, c.ending = .swept at' stats →
    (∀ t ∈ c.launches, t ≤ at') ∧ (cfg.concurrency ≠ 0 → c.launches.length = c.ids.length)

/-- The load on the venue: the launches of the whole run keep their distance, and the pauses between
the cycles are kept. -/
structure Courteous (cfg : Config) (cycles : List Cycle) : Prop where
  apart : Apart spawnSpacing (cycles.flatMap Cycle.launches)
  keeps : ∀ c ∈ cycles, c.Keeps cfg
  paused : cycles.IsChain fun newer older => older.Permits cfg newer.begun

/-- The current cycle is a sweep of this work that has launched so many tasks. -/
def Sweeping (cycles : List Cycle) (work : Work) (launched : ℕ) : Prop :=
  ∃ c rest, cycles = c :: rest ∧ c.ending = .running ∧ c.leader = true ∧ c.ids = work.ids ∧
    c.launches.length = launched

/-- Everything so far was over a pause before. -/
def Rested (cycles : List Cycle) (wake : ℕ) : Prop :=
  ∀ c ∈ cycles, c.begun + spawnSpacing ≤ wake ∧ ∀ t ∈ c.launches, t + spawnSpacing ≤ wake

/-- The sweep is a state of the pool. -/
def Pooled (cfg : Config) (work : Work) (sweep : Sweep) : Prop :=
  ∃ order, run (SweepPool.step work.ids work.io work.upserted)
    (SweepPool.start work.ids cfg.concurrency) order = some sweep

def Phase.Fits (cfg : Config) (cycles : List Cycle) : Phase → Prop
  | .asleep wake => firstDelay ≤ wake ∧ ∀ c ∈ cycles.head?, c.Permits cfg wake
  | .priming work wake => ∃ launched, Sweeping cycles work launched ∧
      launched < min work.ids.length cfg.concurrency ∧ Rested cycles wake
  | .joining work sweep => Sweeping cycles work sweep.pool.next ∧ Pooled cfg work sweep
  | .spacing work sweep _ wake => Sweeping cycles work sweep.pool.next ∧ Pooled cfg work sweep ∧
      sweep.pool.next < work.ids.length ∧ Rested cycles wake

/-- Nothing of the history is in the future. -/
def Past (cycles : List Cycle) (now : ℕ) : Prop :=
  ∀ c ∈ cycles, c.begun ≤ now ∧ ∀ t ∈ c.launches, t ≤ now

structure Inv (cfg : Config) (l : Loop) : Prop where
  courteous : Courteous cfg l.cycles
  past : Past l.cycles l.now
  fits : l.phase.Fits cfg l.cycles

variable {cfg : Config} {l l' : Loop}

theorem inv_start (leader : Bool) : Inv cfg (start leader) where
  courteous :=
    { apart := .nil
      keeps := fun _ h => absurd h List.not_mem_nil
      paused := .nil }
  past _ h := absurd h List.not_mem_nil
  fits := ⟨le_refl _, fun _ h => nomatch h⟩

/-- What only concerns the clock, the lease or the list leaves the sweep as it is. -/
theorem Inv.outside (h : Inv cfg l) {now : ℕ} (hnow : l.now ≤ now) (leader : Bool)
    (ids : List InstrumentId) : Inv cfg { l with now, leader, instruments := ids } where
  courteous := h.courteous
  past c hc := ⟨(h.past c hc).1.trans hnow, fun t ht => ((h.past c hc).2 t ht).trans hnow⟩
  fits := h.fits

theorem Past.rested {cycles : List Cycle} {now : ℕ} (h : Past cycles now) :
    Rested cycles (now + spawnSpacing) :=
  fun c hc => ⟨Nat.add_le_add_right (h c hc).1 _, fun t ht => Nat.add_le_add_right ((h c hc).2 t ht) _⟩

/-- A launch after a pause keeps the distances. -/
theorem Courteous.launch {cycles : List Cycle} {work : Work} {launched wake now : ℕ}
    (h : Courteous cfg cycles) (hsweeping : Sweeping cycles work launched)
    (hrested : Rested cycles wake) (hwake : wake ≤ now) (hleft : launched < work.ids.length) :
    Courteous cfg (onCurrent (Cycle.launch now) cycles) := by
  obtain ⟨c, rest, rfl, hrunning, hleader, hids, hlaunched⟩ := hsweeping
  refine { apart := ?apart, keeps := fun d hd => ?keeps, paused := ?paused }
  case apart =>
    refine Apart.cons h.apart fun t ht => ?_
    obtain ⟨d, hd, ht⟩ := List.mem_flatMap.mp ht
    exact ((hrested d hd).2 t ht).trans hwake
  case keeps =>
    rcases List.mem_cons.mp hd with rfl | hold
    · have hc := h.keeps c List.mem_cons_self
      have hbegun := (hrested c List.mem_cons_self).1
      refine
        { delayed := hc.delayed
          leading := fun hfollower => ?_
          after := fun t ht => ?_
          once := ?_
          whole := fun at' stats hswept => ?_ }
      · rw [show c.leader = false from hfollower] at hleader
        cases hleader
      · rcases List.mem_cons.mp ht with rfl | hearlier
        · exact hbegun.trans hwake
        · exact hc.after t hearlier
      · change c.launches.length + 1 ≤ c.ids.length
        rw [hlaunched, hids]
        exact hleft
      · rw [show c.ending = .swept at' stats from hswept] at hrunning
        cases hrunning
    · exact h.keeps d (List.mem_cons_of_mem c hold)
  case paused =>
    have hpaused := h.paused
    cases rest with
    | nil => exact .singleton _
    | cons older more =>
      obtain ⟨hpermits, hrest⟩ := List.isChain_cons_cons.mp hpaused
      exact .cons_cons hpermits hrest

theorem Sweeping.launch {cycles : List Cycle} {work : Work} {launched : ℕ}
    (h : Sweeping cycles work launched) (now : ℕ) :
    Sweeping (onCurrent (Cycle.launch now) cycles) work (launched + 1) := by
  obtain ⟨c, rest, rfl, hrunning, hleader, hids, hlaunched⟩ := h
  exact ⟨c.launch now, rest, rfl, hrunning, hleader, hids, congrArg (· + 1) hlaunched⟩

theorem Past.launch {cycles : List Cycle} {now : ℕ} (h : Past cycles now) :
    Past (onCurrent (Cycle.launch now) cycles) now := by
  cases cycles with
  | nil => exact h
  | cons c rest =>
    intro d hd
    rcases List.mem_cons.mp hd with rfl | hold
    · obtain ⟨hbegun, hlaunches⟩ := h c List.mem_cons_self
      refine ⟨hbegun, fun t ht => ?_⟩
      rcases List.mem_cons.mp ht with rfl | hearlier
      · exact le_refl _
      · exact hlaunches t hearlier
    · exact h d (List.mem_cons_of_mem c hold)

theorem launchedBy_launch {cycles : List Cycle} {work : Work} {launched : ℕ}
    (h : Sweeping cycles work launched) : launchedBy cycles = launched := by
  obtain ⟨c, rest, rfl, _, _, _, hlaunched⟩ := h
  exact hlaunched

/-- The pool is primed one launch after the other, and then its tasks are joined. -/
theorem afterPriming_fits {cycles : List Cycle} {work : Work} {launched now : ℕ}
    (hsweeping : Sweeping cycles work launched)
    (hmost : launched ≤ min work.ids.length cfg.concurrency) (hpast : Past cycles now) :
    (afterPriming cfg work launched now).Fits cfg cycles := by
  unfold afterPriming
  split
  case isTrue hmore => exact ⟨launched, hsweeping, hmore, hpast.rested⟩
  case isFalse hdone =>
    refine ⟨?_, [], rfl⟩
    have hnext := FanOut.next_start (SweepPool.answer work.io) work.ids cfg.concurrency
    change Sweeping cycles work (FanOut.start work.ids cfg.concurrency).next
    rw [hnext, show min work.ids.length cfg.concurrency = launched by omega]
    exact hsweeping

/-- Joining a task while there is another one to launch makes room for it. -/
theorem next_step {work : Work} {sweep sweep' : Sweep} {idx : ℕ}
    (h : SweepPool.step work.ids work.io work.upserted sweep idx = some sweep') :
    sweep'.pool.next =
      if sweep.pool.next < work.ids.length then sweep.pool.next + 1 else sweep.pool.next := by
  obtain ⟨task, _, _, ⟨hmore, hpool⟩ | ⟨hdone, hpool⟩⟩ := FanOut.step_cases (step_cases h).1
  · rw [hpool, if_pos hmore]
    rfl
  · rw [hpool, if_neg (by omega)]

theorem Pooled.step {work : Work} {sweep sweep' : Sweep} {idx : ℕ} (h : Pooled cfg work sweep)
    (hstep : SweepPool.step work.ids work.io work.upserted sweep idx = some sweep') :
    Pooled cfg work sweep' := by
  obtain ⟨order, hrun⟩ := h
  refine ⟨order ++ [idx], ?_⟩
  rw [run_append hrun, run, hstep]
  rfl

/-- A sweep with nothing left in flight has started all tasks. -/
theorem Pooled.next_eq {work : Work} {sweep : Sweep} (h : Pooled cfg work sweep)
    (hdrained : sweep.pool.inflight = []) (hconcurrency : cfg.concurrency ≠ 0) :
    sweep.pool.next = work.ids.length := by
  obtain ⟨order, hrun⟩ := h
  obtain ⟨hinv, hfull⟩ := FanOut.start_spec work.ids cfg.concurrency (SweepPool.answer work.io)
  obtain ⟨_, hfull'⟩ := FanOut.run_spec hinv hfull (run_cases hrun).1
  exact FanOut.next_of_drained hfull' (Nat.pos_of_ne_zero hconcurrency) hdrained

/-- A new cycle begins when the sleep is over. -/
theorem Courteous.begin {cycles : List Cycle} {c : Cycle} {wake : ℕ} (h : Courteous cfg cycles)
    (hwake : wake ≤ c.begun) (hdelay : firstDelay ≤ wake)
    (hpermits : ∀ older ∈ cycles.head?, older.Permits cfg wake) (hlaunches : c.launches = [])
    (hending : ∀ at' stats, c.ending ≠ .swept at' stats) : Courteous cfg (c :: cycles) where
  apart := by
    rw [List.flatMap_cons, hlaunches]
    exact h.apart
  keeps d hd := by
    rcases List.mem_cons.mp hd with rfl | hold
    · exact
        { delayed := hdelay.trans hwake
          leading := fun _ => hlaunches
          after := fun t ht => by
            rw [hlaunches] at ht
            cases ht
          once := by
            rw [hlaunches]
            exact Nat.zero_le _
          whole := fun at' stats hswept => absurd hswept (hending at' stats) }
    · exact h.keeps d hold
  paused := by
    cases cycles with
    | nil => exact .singleton _
    | cons older rest =>
      have holder : older.Permits cfg c.begun := by
        have hbefore := hpermits older rfl
        unfold Cycle.Permits at hbefore ⊢
        cases hend : older.ending with
        | running =>
          rw [hend] at hbefore
          exact hbefore
        | skipped =>
          rw [hend] at hbefore
          exact hbefore.trans hwake
        | swept at' stats =>
          rw [hend] at hbefore
          exact hbefore.trans hwake
      exact .cons_cons holder h.paused

theorem Past.begin {cycles : List Cycle} {now : ℕ} {c : Cycle} (h : Past cycles now)
    (hbegun : c.begun = now) (hlaunches : c.launches = []) : Past (c :: cycles) now := by
  intro d hd
  rcases List.mem_cons.mp hd with rfl | hold
  · refine ⟨hbegun.le, fun t ht => ?_⟩
    rw [hlaunches] at ht
    cases ht
  · exact h d hold

theorem inv_wake {io : ℕ → TaskIo} {upserted : ℕ → Except CoreError Unit} (h : Inv cfg l)
    (hstep : step cfg l (.wake io upserted) = some l') : Inv cfg l' := by
  unfold step at hstep
  dsimp only at hstep
  split at hstep
  case h_2 => cases hstep
  case h_1 wake hasleep =>
    have hfits := h.fits
    rw [hasleep] at hfits
    obtain ⟨hdelay, hpermits⟩ := hfits
    split at hstep
    case isFalse => cases hstep
    case isTrue hwake =>
      split at hstep
      case isTrue =>
        obtain rfl := Option.some.inj hstep
        have hpast := h.past.begin (c := ⟨l.now, true, l.instruments, [], .running⟩) rfl rfl
        have hcourteous := h.courteous.begin (c := ⟨l.now, true, l.instruments, [], .running⟩)
          hwake hdelay hpermits rfl fun _ _ => Ending.noConfusion
        refine ⟨hcourteous, hpast, ?_⟩
        exact afterPriming_fits ⟨_, _, rfl, rfl, rfl, rfl, rfl⟩ (Nat.zero_le _) hpast
      case isFalse =>
        obtain rfl := Option.some.inj hstep
        have hpast := h.past.begin (c := ⟨l.now, false, l.instruments, [], .skipped⟩) rfl rfl
        have hcourteous := h.courteous.begin (c := ⟨l.now, false, l.instruments, [], .skipped⟩)
          hwake hdelay hpermits rfl fun _ _ => Ending.noConfusion
        refine ⟨hcourteous, hpast, ?_, fun c hc => ?_⟩
        · exact (hdelay.trans hwake).trans (Nat.le_add_right _ _)
        · obtain rfl := Option.some.inj hc
          exact le_refl _

theorem inv_launch (h : Inv cfg l) (hstep : step cfg l .launch = some l') : Inv cfg l' := by
  unfold step at hstep
  dsimp only at hstep
  have hfits := h.fits
  split at hstep
  case h_3 => cases hstep
  case h_1 work wake hpriming =>
    rw [hpriming] at hfits
    obtain ⟨launched, hsweeping, hless, hrested⟩ := hfits
    split at hstep
    case isFalse => cases hstep
    case isTrue hwake =>
      obtain rfl := Option.some.inj hstep
      have hnext := hsweeping.launch l.now
      refine ⟨h.courteous.launch hsweeping hrested hwake (by omega), h.past.launch, ?_⟩
      dsimp only
      rw [launchedBy_launch hnext]
      exact afterPriming_fits hnext (by omega) h.past.launch
  case h_2 work sweep idx wake hspacing =>
    rw [hspacing] at hfits
    obtain ⟨hsweeping, hpooled, hless, hrested⟩ := hfits
    split at hstep
    case isFalse => cases hstep
    case isTrue hwake =>
      obtain ⟨sweep', hpool, rfl⟩ := Option.map_eq_some_iff.mp hstep
      have hnext := next_step hpool
      rw [if_pos hless] at hnext
      refine ⟨h.courteous.launch hsweeping hrested hwake hless, h.past.launch, ?_,
        hpooled.step hpool⟩
      rw [hnext]
      exact hsweeping.launch l.now

theorem inv_join {idx : ℕ} (h : Inv cfg l) (hstep : step cfg l (.join idx) = some l') :
    Inv cfg l' := by
  unfold step at hstep
  dsimp only at hstep
  have hfits := h.fits
  split at hstep
  case h_2 => cases hstep
  case h_1 work sweep hjoining =>
    rw [hjoining] at hfits
    obtain ⟨hsweeping, hpooled⟩ := hfits
    split at hstep
    case isFalse => cases hstep
    case isTrue =>
      split at hstep
      case isTrue hless =>
        obtain rfl := Option.some.inj hstep
        exact ⟨h.courteous, h.past, hsweeping, hpooled, hless, h.past.rested⟩
      case isFalse hall =>
        obtain ⟨sweep', hpool, rfl⟩ := Option.map_eq_some_iff.mp hstep
        have hnext := next_step hpool
        rw [if_neg hall] at hnext
        refine ⟨h.courteous, h.past, ?_, hpooled.step hpool⟩
        rw [hnext]
        exact hsweeping

theorem inv_finish (h : Inv cfg l) (hstep : step cfg l .finish = some l') : Inv cfg l' := by
  unfold step at hstep
  dsimp only at hstep
  have hfits := h.fits
  split at hstep
  case h_2 => cases hstep
  case h_1 work sweep hjoining =>
    rw [hjoining] at hfits
    obtain ⟨⟨c, rest, hcycles, _, hleader, hids, hlaunched⟩, hpooled⟩ := hfits
    split at hstep
    case isFalse => cases hstep
    case isTrue hdrained =>
      obtain rfl := Option.some.inj hstep
      have hcourteous := h.courteous
      have hpast := h.past
      rw [hcycles] at hcourteous hpast
      have hc := hcourteous.keeps c List.mem_cons_self
      obtain ⟨hbegun, hlaunches⟩ := hpast c List.mem_cons_self
      rw [hcycles]
      refine ⟨⟨hcourteous.apart, fun d hd => ?keeps, ?paused⟩, fun d hd => ?past, ?delay,
        fun d hd => ?permits⟩
      case keeps =>
        rcases List.mem_cons.mp hd with rfl | hold
        · refine ⟨hc.delayed, hc.leading, hc.after, hc.once, fun at' stats hswept => ?_⟩
          obtain ⟨rfl, _⟩ := Ending.swept.inj hswept
          refine ⟨hlaunches, fun hconcurrency => ?_⟩
          change c.launches.length = c.ids.length
          rw [hlaunched, hpooled.next_eq hdrained hconcurrency, hids]
        · exact hcourteous.keeps d (List.mem_cons_of_mem c hold)
      case paused =>
        have hpaused := hcourteous.paused
        cases rest with
        | nil => exact .singleton _
        | cons older more =>
          obtain ⟨hpermits, hrest⟩ := List.isChain_cons_cons.mp hpaused
          exact .cons_cons hpermits hrest
      case past =>
        rcases List.mem_cons.mp hd with rfl | hold
        · exact ⟨hbegun, hlaunches⟩
        · exact hpast d (List.mem_cons_of_mem c hold)
      case delay => exact (hc.delayed.trans hbegun).trans (Nat.le_add_right _ _)
      case permits =>
        obtain rfl := Option.some.inj hd
        exact le_refl _

theorem inv_step {a : Act} (h : Inv cfg l) (hstep : step cfg l a = some l') : Inv cfg l' := by
  cases a with
  | elapse d =>
    obtain rfl := Option.some.inj hstep
    exact h.outside (Nat.le_add_right _ d) l.leader l.instruments
  | lease leader =>
    obtain rfl := Option.some.inj hstep
    exact h.outside (le_refl _) leader l.instruments
  | discovered ids =>
    obtain rfl := Option.some.inj hstep
    exact h.outside (le_refl _) l.leader ids
  | wake io upserted => exact inv_wake h hstep
  | launch => exact inv_launch h hstep
  | join idx => exact inv_join h hstep
  | finish => exact inv_finish h hstep

/-- Over the whole life of the sweep task, however the requests, the lease and the clock go: tasks
are launched at least a second apart, so in no stretch of time more than one for each second. A cycle
that begins as a follower launches none, one that leads launches one for each symbol. The next cycle
waits for the interval, and for four hours when twenty requests or more were forbidden. -/
theorem sweep_is_courteous (cfg : Config) (leader : Bool) (acts : List Act) :
    Throughout (step cfg)
      (fun l => Courteous cfg l.cycles ∧ ∀ a w, ((l.cycles.flatMap Cycle.launches).filter fun t =>
        a ≤ t ∧ t < a + w).length * spawnSpacing < w + spawnSpacing)
      (start leader) acts :=
  throughout_of_step (fun _ _ _ h hstep => inv_step h hstep)
    (fun _ h => ⟨h.courteous, fun a w => h.courteous.apart.window (by decide) a w⟩)
    (inv_start leader)

/-! ## A sweep can be ended -/

/-- What is left to prime can be launched, by induction on how much that is. -/
theorem exists_primed {work : Work} {launched at' : ℕ} (hsweeping : Sweeping l.cycles work launched)
    (hphase : l.phase = afterPriming cfg work launched at') :
    ∃ acts l', run (step cfg) l acts = some l' ∧
      l'.phase = .joining work (SweepPool.start work.ids cfg.concurrency) := by
  induction hleft : min work.ids.length cfg.concurrency - launched generalizing l launched at' with
  | zero =>
    unfold afterPriming at hphase
    rw [if_neg (by omega)] at hphase
    exact ⟨[], l, rfl, hphase⟩
  | succ n ih =>
    unfold afterPriming at hphase
    rw [if_pos (by omega)] at hphase
    let now : ℕ := l.now + (at' + spawnSpacing)
    let primed : Loop := { l with
      now
      phase := afterPriming cfg work (launchedBy (onCurrent (Cycle.launch now) l.cycles)) now
      cycles := onCurrent (Cycle.launch now) l.cycles }
    have hnext := hsweeping.launch now
    have hlaunch : step cfg { l with now } .launch = some primed := by
      unfold step
      dsimp only
      rw [hphase]
      exact if_pos (Nat.le_add_left _ _)
    obtain ⟨acts, l', hrun, hjoining⟩ := ih (l := primed) hnext
      (show primed.phase = afterPriming cfg work (launched + 1) now by
        rw [← launchedBy_launch hnext]) (by omega)
    have hacts : run (step cfg) l (.elapse (at' + spawnSpacing) :: .launch :: acts) = some l' :=
      run_cons_eq_some.mpr ⟨_, rfl, run_cons_eq_some.mpr ⟨primed, hlaunch, hrun⟩⟩
    exact ⟨_, l', hacts, hjoining⟩

/-- The loop can follow any run of its pool. -/
theorem exists_joined {work : Work} {sweep sweep' : Sweep} {order : List ℕ}
    (hphase : l.phase = .joining work sweep)
    (hrun : run (SweepPool.step work.ids work.io work.upserted) sweep order = some sweep') :
    ∃ acts l', run (step cfg) l acts = some l' ∧ l'.phase = .joining work sweep' := by
  induction order generalizing l sweep with
  | nil =>
    obtain rfl := Option.some.inj hrun
    exact ⟨[], l, rfl, hphase⟩
  | cons idx rest ih =>
    obtain ⟨next, hpool, hrest⟩ := run_cons_eq_some.mp hrun
    obtain ⟨_, hmem, _, _⟩ := FanOut.step_cases (step_cases hpool).1
    by_cases hmore : sweep.pool.next < work.ids.length
    · let spaced : Loop := { l with phase := .spacing work sweep idx (l.now + spawnSpacing) }
      let launched : Loop := { l with
        now := l.now + spawnSpacing
        phase := .joining work next
        cycles := onCurrent (Cycle.launch (l.now + spawnSpacing)) l.cycles }
      have hjoin : step cfg l (.join idx) = some spaced := by
        unfold step
        dsimp only
        rw [hphase]
        exact (if_pos hmem).trans (if_pos hmore)
      have hlaunch : step cfg { spaced with now := l.now + spawnSpacing } .launch =
          some launched := by
        unfold step
        dsimp only [spaced]
        rw [if_pos (Nat.le_refl _), hpool]
        rfl
      obtain ⟨acts, l', hacts, hjoined⟩ := ih (l := launched) rfl hrest
      refine ⟨.join idx :: .elapse spawnSpacing :: .launch :: acts, l', ?_, hjoined⟩
      exact run_cons_eq_some.mpr ⟨spaced, hjoin,
        run_cons_eq_some.mpr ⟨_, rfl, run_cons_eq_some.mpr ⟨launched, hlaunch, hacts⟩⟩⟩
    · have hjoin : step cfg l (.join idx) = some { l with phase := .joining work next } := by
        unfold step
        dsimp only
        rw [hphase]
        dsimp only
        rw [if_pos hmem, if_neg hmore, hpool]
        rfl
      obtain ⟨acts, l', hacts, hjoined⟩ := ih (l := { l with phase := .joining work next }) rfl hrest
      exact ⟨.join idx :: acts, l', run_cons_eq_some.mpr ⟨_, hjoin, hacts⟩, hjoined⟩

theorem exists_finish {work : Work} {sweep : Sweep} (hphase : l.phase = .joining work sweep)
    (hdrained : sweep.pool.inflight = []) : ∃ l', step cfg l .finish = some l' := by
  unfold step
  dsimp only
  rw [hphase]
  dsimp only
  rw [if_pos hdrained]
  exact ⟨_, rfl⟩

/-- Whatever the symbols, the tasks and the upserts, the loop of a leader can sweep them all. -/
theorem exists_swept (cfg : Config) (work : Work) :
    ∃ acts l sweep, run (step cfg) (start true) acts = some l ∧ l.phase = .joining work sweep ∧
      sweep.pool.inflight = [] := by
  let woken : Loop := ⟨firstDelay, true, work.ids, afterPriming cfg work 0 firstDelay,
    [⟨firstDelay, true, work.ids, [], .running⟩]⟩
  have hbegin : run (step cfg) (start true) [.discovered work.ids, .elapse firstDelay,
      .wake work.io work.upserted] = some woken := by
    simp [run, step, start, woken]
  have hready : woken.phase = afterPriming cfg work 0 firstDelay := rfl
  have hsweeping : Sweeping woken.cycles work 0 := ⟨_, [], rfl, rfl, rfl, rfl, rfl⟩
  obtain ⟨acts, primed, hprimed, hphase⟩ := exists_primed hsweeping hready
  obtain ⟨order, pool, hpool, hdrained⟩ :=
    FanOut.exists_complete_run work.ids cfg.concurrency (SweepPool.answer work.io)
  obtain ⟨sweep, hsweep, rfl⟩ := SweepPool.run_of_pool (s := SweepPool.start work.ids cfg.concurrency)
    work.upserted hpool
  have hjoins : ∃ more l, run (step cfg) primed more = some l ∧ l.phase = .joining work sweep :=
    exists_joined hphase hsweep
  obtain ⟨more, l, hjoined, hjoining⟩ := hjoins
  have hrun := (run_append hbegin).trans ((run_append hprimed).trans hjoined)
  exact ⟨_, l, sweep, hrun, hjoining, hdrained⟩

end OiTerminal.Collector.SweepLoop
