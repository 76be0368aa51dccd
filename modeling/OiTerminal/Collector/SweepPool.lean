import OiTerminal.Collector.FundingSweep
import OiTerminal.Lib.FanOut
import OiTerminal.Storage.ClickHouse

/-!
# The pool of the funding sweep

One task per instrument looks up the last stored settlement and fetches what follows, a bounded
number of them at a time. Their events gather in a batch that goes out when it is large enough
and once more at the end. Tasks finish in any order and in any way, and so do the upserts.
-/
namespace OiTerminal.Collector.SweepPool

open OiTerminal.Core
open OiTerminal.Collector.FundingSweep (NotDue exampleId exampleRate settlementAt)
open OiTerminal.Lib
open OiTerminal.Lib.Transition
open OiTerminal.Storage.ClickHouse

set_option autoImplicit false

/-- The errors of an adapter, with what they carry. -/
inductive AdapterError where
  | transient (sourceKind message : String)
  | rateLimited (retryAfter : Option Nat)
  | auth (message : String)
  | schema (message : String)
  | notFound (symbol : String)
  | unexpected (message : String)
  deriving DecidableEq, Repr

def AdapterError.isAuth : AdapterError → Bool
  | .auth _ => true
  | _ => false

/-- How the task of an instrument ends. -/
inductive Joined where
  | panicked
  | failed (e : AdapterError)
  | fetched (events : List FundingEvent)
  deriving DecidableEq, Repr

/-- What a task meets: whether it panics, the clock, the store and the venue. -/
structure TaskIo where
  panics : Bool
  now : Int
  latest : InstrumentId → Except CoreError (Option FundingEvent)
  history : InstrumentId → Option Int → Except AdapterError (List FundingEvent)

/-- A failed lookup fetches the whole history. -/
def since : Except CoreError (Option FundingEvent) → Option Int
  | .ok latest => latest.map FundingEvent.settlementTs
  | .error _ => none

def fetchTask (io : TaskIo) (inst : InstrumentId) : Joined :=
  if io.panics then .panicked
  else if NotDue io.now (since (io.latest inst)) then .fetched []
  else
    match io.history inst (since (io.latest inst)) with
    | .ok events => .fetched events
    | .error e => .failed e

structure SweepStats where
  events : Nat
  failures : Nat
  authFailures : Nat
  deriving DecidableEq, Repr

/-- `calls` records the upserts with their answers, and influences nothing. -/
structure Tally where
  stats : SweepStats
  batch : List FundingEvent
  calls : List (List FundingEvent × Except CoreError Unit)

def Tally.empty : Tally := ⟨⟨0, 0, 0⟩, [], []⟩

def flushAt : Nat := 500

section

variable (upserted : ℕ → Except CoreError Unit)

/-- The batch goes out and is cleared whatever the answer is. -/
def Tally.flush (t : Tally) : Tally :=
  let answer := upserted t.calls.length
  { stats :=
      match answer with
      | .ok () => t.stats
      | .error _ => { t.stats with failures := t.stats.failures + 1 }
    batch := []
    calls := t.calls ++ [(t.batch, answer)] }

def Tally.handle (t : Tally) : Joined → Tally
  | .panicked => { t with stats := { t.stats with failures := t.stats.failures + 1 } }
  | .failed e =>
    { t with
      stats := { t.stats with
        failures := t.stats.failures + 1
        authFailures := t.stats.authFailures + if e.isAuth then 1 else 0 } }
  | .fetched events =>
    if events = [] then t
    else
      let gathered : Tally := { t with
        stats := { t.stats with events := t.stats.events + events.length }
        batch := t.batch ++ events }
      if flushAt ≤ gathered.batch.length then gathered.flush upserted else gathered

/-- What is left goes out after the last task. -/
def Tally.finish (t : Tally) : Tally := if t.batch = [] then t else t.flush upserted

end

/-- The pool notes what each task answered, which influences nothing. -/
structure Sweep where
  pool : FanOut.Progress Joined
  tally : Tally

section

variable (instruments : List InstrumentId) (concurrency : ℕ) (io : ℕ → TaskIo)
  (upserted : ℕ → Except CoreError Unit)

def answer (idx : ℕ) (inst : InstrumentId) : Joined := fetchTask (io idx) inst

def start : Sweep := ⟨FanOut.start instruments concurrency, .empty⟩

/-- A task is joined: the next one is started, and then its events are handled. -/
def step (s : Sweep) (idx : ℕ) : Option Sweep :=
  (FanOut.step instruments (answer io) s.pool idx).bind fun pool =>
    (instruments[idx]?).map fun inst => ⟨pool, s.tally.handle upserted (answer io idx inst)⟩

/-- The answer of the task of this index, and nothing where there is no task. -/
def joinedAt (idx : ℕ) : Joined :=
  match instruments[idx]? with
  | some inst => answer io idx inst
  | none => .fetched []

end

def Joined.events : Joined → List FundingEvent
  | .fetched events => events
  | _ => []

def Joined.isFailure : Joined → Bool
  | .fetched _ => false
  | _ => true

def isError : Except CoreError Unit → Bool
  | .ok () => false
  | .error _ => true

/-- What has been joined in an order, and what became of the events: whole answers went out in
each call, and those of the last tasks are in the batch. -/
structure Tallied (joined : ℕ → Joined) (order : List ℕ) (groups : List (List ℕ))
    (tail : List ℕ) (t : Tally) : Prop where
  parts : groups.flatten ++ tail = order.filter fun idx => (joined idx).events ≠ []
  calls : t.calls.map Prod.fst =
    groups.map fun group => group.flatMap fun idx => (joined idx).events
  batch : t.batch = tail.flatMap fun idx => (joined idx).events
  failures : t.stats.failures = order.countP (fun idx => (joined idx).isFailure) +
    t.calls.countP fun call => isError call.2

variable {upserted : ℕ → Except CoreError Unit} {joined : ℕ → Joined} {order tail : List ℕ}
  {groups : List (List ℕ)} {t t' : Tally}

theorem tallied_empty (joined : ℕ → Joined) : Tallied joined [] [] [] .empty :=
  ⟨rfl, rfl, rfl, rfl⟩

theorem Tallied.flush (h : Tallied joined order groups tail t)
    (upserted : ℕ → Except CoreError Unit) :
    Tallied joined order (groups ++ [tail]) [] (t.flush upserted) where
  parts := by rw [List.flatten_concat, List.append_nil, h.parts]
  calls := by
    show (t.calls ++ [(t.batch, _)]).map Prod.fst = _
    rw [List.map_append, h.calls, List.map_append, h.batch]
    rfl
  batch := rfl
  failures := by
    unfold Tally.flush
    rw [List.countP_append, ← Nat.add_assoc, ← h.failures]
    cases upserted t.calls.length with
    | ok u => rfl
    | error e => rfl

/-- The answer of one more task. -/
theorem Tallied.handle (h : Tallied joined order groups tail t)
    (upserted : ℕ → Except CoreError Unit) (idx : ℕ) :
    ∃ groups' tail',
      Tallied joined (order ++ [idx]) groups' tail' (t.handle upserted (joined idx)) := by
  have hquiet : (joined idx).events = [] →
      groups.flatten ++ tail = (order ++ [idx]).filter fun idx => (joined idx).events ≠ [] := by
    intro hnone
    rw [List.filter_append, ← h.parts]
    simp [hnone]
  have hfailed : (joined idx).isFailure = true → t.stats.failures + 1 =
      (order ++ [idx]).countP (fun idx => (joined idx).isFailure) +
        t.calls.countP fun call => isError call.2 := by
    intro hfailure
    rw [List.countP_append, List.countP_singleton, if_pos hfailure, Nat.add_right_comm,
      ← h.failures]
  cases hjoined : joined idx with
  | panicked =>
    exact ⟨groups, tail, hquiet (by rw [hjoined]; rfl), h.calls, h.batch,
      hfailed (by rw [hjoined]; rfl)⟩
  | failed e =>
    exact ⟨groups, tail, hquiet (by rw [hjoined]; rfl), h.calls, h.batch,
      hfailed (by rw [hjoined]; rfl)⟩
  | fetched events =>
    have hcount : (order ++ [idx]).countP (fun idx => (joined idx).isFailure) =
        order.countP fun idx => (joined idx).isFailure := by
      rw [List.countP_append]
      simp [hjoined, Joined.isFailure]
    unfold Tally.handle
    dsimp only
    by_cases hempty : events = []
    · rw [if_pos hempty]
      refine ⟨groups, tail, hquiet (by rw [hjoined]; exact hempty), h.calls, h.batch, ?_⟩
      rw [hcount, h.failures]
    · rw [if_neg hempty]
      have hgathered : Tallied joined (order ++ [idx]) groups (tail ++ [idx])
          ⟨{ t.stats with events := t.stats.events + events.length }, t.batch ++ events,
            t.calls⟩ := by
        refine ⟨?_, h.calls, ?_, by rw [hcount]; exact h.failures⟩
        · rw [List.filter_append, ← h.parts, List.append_assoc]
          simp [hjoined, Joined.events, hempty]
        · show t.batch ++ events = _
          rw [List.flatMap_append, ← h.batch, List.flatMap_singleton, hjoined]
          rfl
      split
      · exact ⟨_, _, hgathered.flush upserted⟩
      · exact ⟨_, _, hgathered⟩

theorem Tallied.foldl (h : Tallied joined order groups tail t)
    (upserted : ℕ → Except CoreError Unit) (more : List ℕ) :
    ∃ groups' tail', Tallied joined (order ++ more) groups' tail'
      ((more.map joined).foldl (Tally.handle upserted) t) := by
  induction more generalizing order groups tail t with
  | nil => exact ⟨groups, tail, by rwa [List.append_nil]⟩
  | cons idx rest ih =>
    obtain ⟨groups', tail', hone⟩ := h.handle upserted idx
    rw [← List.singleton_append, ← List.append_assoc]
    exact ih hone

/-- At the end nothing is left in the batch. -/
theorem Tallied.finish (h : Tallied joined order groups tail t)
    (upserted : ℕ → Except CoreError Unit) :
    ∃ groups', Tallied joined order groups' [] (t.finish upserted) := by
  unfold Tally.finish
  by_cases hbatch : t.batch = []
  · rw [if_pos hbatch]
    have htail : tail = [] := by
      rw [List.eq_nil_iff_forall_not_mem]
      intro idx hidx
      have hmem : idx ∈ order.filter fun idx => (joined idx).events ≠ [] :=
        h.parts ▸ List.mem_append_right _ hidx
      have hnone : (joined idx).events = [] :=
        List.flatMap_eq_nil_iff.mp (h.batch.symm.trans hbatch) idx hidx
      exact absurd hnone (of_decide_eq_true (List.mem_filter.mp hmem).2)
    subst htail
    exact ⟨groups, h⟩
  · rw [if_neg hbatch]
    exact ⟨_, h.flush upserted⟩

/-- What goes out in the calls does not depend on their answers. -/
structure SameCalls (t t' : Tally) : Prop where
  batch : t.batch = t'.batch
  calls : t.calls.map Prod.fst = t'.calls.map Prod.fst

theorem SameCalls.flush (h : SameCalls t t') (upserted upserted' : ℕ → Except CoreError Unit) :
    SameCalls (t.flush upserted) (t'.flush upserted') where
  batch := rfl
  calls := by
    show (t.calls ++ [(t.batch, _)]).map Prod.fst = (t'.calls ++ [(t'.batch, _)]).map Prod.fst
    rw [List.map_append, List.map_append, h.calls, h.batch]
    rfl

theorem SameCalls.handle (h : SameCalls t t') (upserted upserted' : ℕ → Except CoreError Unit)
    (joined : Joined) :
    SameCalls (t.handle upserted joined) (t'.handle upserted' joined) := by
  cases joined with
  | panicked => exact ⟨h.batch, h.calls⟩
  | failed e => exact ⟨h.batch, h.calls⟩
  | fetched events =>
    unfold Tally.handle
    dsimp only
    rw [h.batch]
    split
    · exact h
    · have hgathered : SameCalls
          ⟨{ t.stats with events := t.stats.events + events.length }, t'.batch ++ events, t.calls⟩
          ⟨{ t'.stats with events := t'.stats.events + events.length }, t'.batch ++ events,
            t'.calls⟩ := ⟨rfl, h.calls⟩
      split
      · exact hgathered.flush upserted upserted'
      · exact hgathered

theorem SameCalls.foldl (h : SameCalls t t') (upserted upserted' : ℕ → Except CoreError Unit)
    (answers : List Joined) :
    SameCalls (answers.foldl (Tally.handle upserted) t)
      (answers.foldl (Tally.handle upserted') t') := by
  induction answers generalizing t t' with
  | nil => exact h
  | cons joined rest ih => exact ih (h.handle upserted upserted' joined)

theorem SameCalls.finish (h : SameCalls t t') (upserted upserted' : ℕ → Except CoreError Unit) :
    SameCalls (t.finish upserted) (t'.finish upserted') := by
  unfold Tally.finish
  rw [h.batch]
  split
  · exact h
  · exact h.flush upserted upserted'

variable {instruments : List InstrumentId} {concurrency : ℕ} {io : ℕ → TaskIo} {s s' : Sweep}

theorem step_cases {idx : ℕ} (h : step instruments io upserted s idx = some s') :
    FanOut.step instruments (answer io) s.pool idx = some s'.pool ∧
      s'.tally = s.tally.handle upserted (joinedAt instruments io idx) := by
  obtain ⟨pool, hpool, hrest⟩ := Option.bind_eq_some_iff.mp h
  obtain ⟨inst, hinst, rfl⟩ := Option.map_eq_some_iff.mp hrest
  refine ⟨hpool, ?_⟩
  unfold joinedAt
  rw [hinst]

/-- The pool goes its own way, and the answers are handled in the order of the joins. -/
theorem run_cases {order : List ℕ} (h : run (step instruments io upserted) s order = some s') :
    run (FanOut.step instruments (answer io)) s.pool order = some s'.pool ∧
      s'.tally = (order.map (joinedAt instruments io)).foldl (Tally.handle upserted) s.tally := by
  induction order generalizing s with
  | nil =>
    obtain rfl := Option.some.inj h
    exact ⟨rfl, rfl⟩
  | cons idx rest ih =>
    obtain ⟨next, hnext, hrest⟩ := run_cons_eq_some.mp h
    obtain ⟨hpool, htally⟩ := step_cases hnext
    obtain ⟨hpools, htallies⟩ := ih hrest
    refine ⟨run_cons_eq_some.mpr ⟨next.pool, hpool, hpools⟩, ?_⟩
    rw [htallies, htally]
    rfl

/-- The answers of the upserts do not change how the pool goes. -/
theorem run_of_pool (upserted : ℕ → Except CoreError Unit) {order : List ℕ}
    {pool : FanOut.Progress Joined}
    (h : run (FanOut.step instruments (answer io)) s.pool order = some pool) :
    ∃ s', run (step instruments io upserted) s order = some s' ∧ s'.pool = pool := by
  induction order generalizing s with
  | nil =>
    obtain rfl := Option.some.inj h
    exact ⟨s, rfl, rfl⟩
  | cons idx rest ih =>
    obtain ⟨next, hnext, hrest⟩ := run_cons_eq_some.mp h
    obtain ⟨inst, -, hinst, -⟩ := FanOut.step_cases hnext
    have hstep : step instruments io upserted s idx =
        some ⟨next, s.tally.handle upserted (answer io idx inst)⟩ := by
      unfold step
      rw [hnext, hinst]
      rfl
    obtain ⟨s', hrun, hpool⟩ := ih (s := ⟨next, _⟩) hrest
    exact ⟨s', run_cons_eq_some.mpr ⟨_, hstep, hrun⟩, hpool⟩

theorem exists_step {idx : ℕ} {pool : FanOut.Progress Joined}
    (h : FanOut.step instruments (answer io) s.pool idx = some pool) :
    ∃ next, step instruments io upserted s idx = some next := by
  obtain ⟨inst, -, hinst, -⟩ := FanOut.step_cases h
  unfold step
  rw [h, hinst]
  exact ⟨_, rfl⟩

/-- The pool in a reachable state: each task that was started is unfinished or was joined once,
no more are unfinished than may be, each of them can be joined, and the loop is over after as
many joins as there are instruments. -/
structure Pooled (instruments : List InstrumentId) (concurrency : ℕ) (io : ℕ → TaskIo)
    (upserted : ℕ → Except CoreError Unit) (order : List ℕ) (s : Sweep) : Prop where
  started : (order ++ s.pool.inflight).Perm (List.range s.pool.next)
  tasks : s.pool.next ≤ instruments.length
  bounded : s.pool.inflight.length ≤ concurrency
  joinable : ∀ idx ∈ s.pool.inflight, ∃ next, step instruments io upserted s idx = some next
  ends : order.length ≤ instruments.length

theorem pooled_of_run {order : List ℕ}
    (hrun : run (step instruments io upserted) (start instruments concurrency) order = some s) :
    Pooled instruments concurrency io upserted order s := by
  have hreached := FanOut.reached_of_run (run_cases hrun).1
  refine ⟨hreached.started, hreached.next_le, hreached.bounded, ?_, hreached.length_le⟩
  intro idx hidx
  obtain ⟨pool, hpool⟩ := hreached.completes idx hidx
  exact exists_step hpool

/-- A sweep that has ended: each instrument had one task, each call took whole answers and each
answer with events went into one call, and the failures are those of the tasks and the calls. -/
structure Swept (instruments : List InstrumentId) (io : ℕ → TaskIo) (order : List ℕ)
    (t : Tally) : Prop where
  once : order.Perm (List.range instruments.length)
  calls : ∃ groups : List (List ℕ),
    groups.flatten = order.filter (fun idx => (joinedAt instruments io idx).events ≠ []) ∧
      t.calls.map Prod.fst =
        groups.map fun group => group.flatMap fun idx => (joinedAt instruments io idx).events
  failures : t.stats.failures = order.countP (fun idx => (joinedAt instruments io idx).isFailure) +
    t.calls.countP fun call => isError call.2

/-- Whatever the tasks and the upserts answer and in whichever order the tasks finish, the pool
keeps to its bound and can go on, and the loop ends with every instrument swept once, every event
in one call with those of its instrument, and all failures counted. What the calls are given does
not depend on which of them fail. -/
theorem sweepOnce_exact (instruments : List InstrumentId) (concurrency : ℕ)
    (hconcurrency : 0 < concurrency) (io : ℕ → TaskIo) (upserted : ℕ → Except CoreError Unit)
    (order : List ℕ) (s : Sweep)
    (hrun : run (step instruments io upserted) (start instruments concurrency) order = some s) :
    Pooled instruments concurrency io upserted order s ∧
      (s.pool.inflight = [] → Swept instruments io order (s.tally.finish upserted) ∧
        ∀ upserted', ∃ s', run (step instruments io upserted') (start instruments concurrency)
            order = some s' ∧
          (s'.tally.finish upserted').calls.map Prod.fst =
            (s.tally.finish upserted).calls.map Prod.fst) := by
  obtain ⟨hpool, htally⟩ := run_cases hrun
  refine ⟨pooled_of_run hrun, ?_⟩
  intro hdrained
  constructor
  · obtain ⟨groups, tail, htallied⟩ :=
      (tallied_empty (joinedAt instruments io)).foldl upserted order
    rw [List.nil_append] at htallied
    obtain ⟨groups, hfinal⟩ := htallied.finish upserted
    have hparts := hfinal.parts
    rw [List.append_nil] at hparts
    rw [htally]
    exact ⟨FanOut.perm_of_drained hconcurrency hpool hdrained, ⟨groups, hparts, hfinal.calls⟩,
      hfinal.failures⟩
  · intro upserted'
    obtain ⟨s', hrun', -⟩ :=
      run_of_pool (s := start instruments concurrency) upserted' hpool
    refine ⟨s', hrun', ?_⟩
    rw [(run_cases hrun').2, htally]
    have hsame : SameCalls (start instruments concurrency).tally
        (start instruments concurrency).tally := ⟨rfl, rfl⟩
    exact ((hsame.foldl upserted' upserted _).finish upserted' upserted).calls

/-- A venue that has one settlement for every instrument, before an empty store. -/
def oneEvent : TaskIo := ⟨false, 0, fun _ => .ok none, fun _ _ => .ok [settlementAt 8]⟩

/-- Of three tasks the second panics, and two are in flight at a time. -/
theorem three_tasks_swept : ∃ order s, run
    (step [exampleId, exampleId, exampleId]
      (fun idx => { oneEvent with panics := idx = 1 }) fun _ => .ok ())
      (start [exampleId, exampleId, exampleId] 2) order = some s ∧
    Swept [exampleId, exampleId, exampleId] (fun idx => { oneEvent with panics := idx = 1 }) order
      (s.tally.finish fun _ => .ok ()) := by
  obtain ⟨order, pool, hpool, hdrained⟩ := FanOut.exists_complete_run
    [exampleId, exampleId, exampleId] 2 (answer fun idx => { oneEvent with panics := idx = 1 })
  obtain ⟨s, hrun, rfl⟩ := run_of_pool (s := start [exampleId, exampleId, exampleId] 2)
    (fun _ => .ok ()) hpool
  exact ⟨order, s, hrun, ((sweepOnce_exact _ 2 (by decide) _ _ order s hrun).2 hdrained).1⟩

end OiTerminal.Collector.SweepPool
