import OiTerminal.Collector.Aggregator
import OiTerminal.Exchanges.LiveStreams
import OiTerminal.Lib.Transition

/-!
# The live tasks of a venue

Each shard of a live venue is a task of its own. A task handles a frame, folds the sample into the
aggregator that it shares with the other shards and with the minute loop, asks the lease, and
publishes the bar before it takes the next frame. The steps of all of them interleave.
-/
namespace OiTerminal.Collector.LiveNode

open OiTerminal.Core
open OiTerminal.Exchanges OiTerminal.Exchanges.BybitStream OiTerminal.Exchanges.LiveStreams
open OiTerminal.Lib.Transition

set_option autoImplicit false

/-- What a shard keeps, and what it makes of a frame. A panic in the enrichment ends it. -/
structure Task where
  Memory : Type
  empty : Memory
  turn : Memory → Received → Memory × Option (Except Panic OiSample)

/-- `run_bybit_shard`, up to the fold. -/
def bybitTask (A : DecimalArith) (T : DecimalText) : Task where
  Memory := States
  empty := fun _ => .empty
  turn state r :=
    let (state, raw) := BybitStream.handleFrame T state r
    (state, raw.map (enrichBybit A))

/-- `run_okx_shard`, `run_bitget_shard` and `run_hyperliquid`, up to the fold. -/
def venueTask (V : Venue) (A : DecimalArith) (T : DecimalText) : Task where
  Memory := Last
  empty := fun _ => none
  turn last r :=
    let (last, raw) := V.handleFrame T last r
    (last, raw.map (V.enrich A))

/-- A task by itself. -/
def Task.run (task : Task) : task.Memory → List Received →
    Except Panic (task.Memory × List OiSample)
  | memory, [] => .ok (memory, [])
  | memory, r :: rest =>
    match task.turn memory r with
    | (memory, none) => task.run memory rest
    | (memory, some result) => do
      let sample ← result
      let (final, samples) ← task.run memory rest
      return (final, sample :: samples)

/-- Where a task stands. -/
inductive Phase where
  | waiting
  | observed (bar : OiSnapshot)
  | publishing (bar : OiSnapshot)
  | dead

/-- The bar that is under way. -/
def Phase.bar : Phase → List OiSnapshot
  | .observed bar | .publishing bar => [bar]
  | .waiting | .dead => []

/-- What is done to an entry of the aggregator. -/
inductive Op where
  | observe (s : OiSample)
  | remove

/-- What becomes of one entry by itself. -/
def Op.apply (entry : Option OiSnapshot) : Op → Option OiSnapshot
  | .remove => none
  | .observe s =>
    match entry with
    | none => some (.startFromSample s)
    | some bar =>
      if bar.bucketTs = s.bucketTs then
        if bar.samples = 1 ∧ bar.lastRecvTs = s.recvTs then some bar else some (bar.fold s)
      else some (.startFromSample s)

/-- An entry after its operations. -/
def replay (ops : List Op) : Option OiSnapshot := ops.foldl Op.apply none

/-- What became of a bar. -/
inductive Outcome where
  | held
  | failed
  | sent
  deriving DecidableEq

section

variable {ι : Type} (tasks : ι → Task)

/-- What comes from outside and reaches the aggregator: a frame, a sample of the minute loop, and a
removal by its flush. -/
inductive Input (ι : Type) where
  | frame (i : ι) (r : Received)
  | rest (s : OiSample)
  | remove (id : InstrumentId)

/-- What the inputs determine. `frames`, `samples` and `folded` are the history of each task, and
`ops` is that of each entry of the aggregator. -/
structure Core where
  memory : ∀ i, (tasks i).Memory
  agg : OiAggregator
  ops : InstrumentId → List Op
  frames : ι → List Received
  samples : ι → List OiSample
  folded : ι → List OiSnapshot

/-- `followed` tells whether the node has ever been a follower, and `published` what went out, in
the order of the publisher. -/
structure Node where
  core : Core tasks
  phase : ι → Phase
  leader : Bool
  followed : Bool
  outcomes : ι → List (OiSnapshot × Outcome)
  published : List (ι × OiSnapshot)
  livePublishes : ℕ

inductive Act (ι : Type) where
  | input (x : Input ι)
  | gate (i : ι)
  | published (i : ι) (ok : Bool)
  | lease (leader : Bool)

variable [DecidableEq ι]

variable {tasks}

def Core.observe (c : Core tasks) (s : OiSample) : Core tasks :=
  { c with
    agg := (c.agg.observe s).1
    ops := Function.update c.ops s.instrument (c.ops s.instrument ++ [.observe s]) }

def Core.remove (c : Core tasks) (id : InstrumentId) : Core tasks :=
  { c with
    agg := (c.agg.remove id).2
    ops := Function.update c.ops id (c.ops id ++ [.remove]) }

/-- The turn of a task, with the fold. -/
def Core.handle (c : Core tasks) (i : ι) (r : Received) : Core tasks :=
  let (memory, result) := (tasks i).turn (c.memory i) r
  let c := { c with
    memory := Function.update c.memory i memory
    frames := Function.update c.frames i (c.frames i ++ [r]) }
  match result with
  | some (.ok sample) =>
    { c.observe sample with
      samples := Function.update c.samples i (c.samples i ++ [sample])
      folded := Function.update c.folded i (c.folded i ++ [(c.agg.observe sample).2]) }
  | _ => c

def Core.absorb (c : Core tasks) : Input ι → Core tasks
  | .frame i r => c.handle i r
  | .rest s => c.observe s
  | .remove id => c.remove id

/-- Where a task stands after its turn. -/
def Core.phaseAfter (c : Core tasks) (i : ι) (r : Received) : Phase :=
  match ((tasks i).turn (c.memory i) r).2 with
  | none => .waiting
  | some (.error _) => .dead
  | some (.ok sample) => .observed (c.agg.observe sample).2

def Node.settle (node : Node tasks) (i : ι) (bar : OiSnapshot) (outcome : Outcome) : Node tasks :=
  { node with
    phase := Function.update node.phase i .waiting
    outcomes := Function.update node.outcomes i (node.outcomes i ++ [(bar, outcome)]) }

/-- `may_publish` is asked after the fold, and `publish` is awaited. -/
def step (node : Node tasks) : Act ι → Option (Node tasks)
  | .input (.frame i r) =>
    match node.phase i with
    | .waiting =>
      some { node with
        core := node.core.absorb (.frame i r)
        phase := Function.update node.phase i (node.core.phaseAfter i r) }
    | _ => none
  | .input x => some { node with core := node.core.absorb x }
  | .gate i =>
    match node.phase i with
    | .observed bar =>
      if node.leader then
        some { node with phase := Function.update node.phase i (.publishing bar) }
      else some (node.settle i bar .held)
    | _ => none
  | .published i ok =>
    match node.phase i with
    | .publishing bar =>
      if ok then
        some { node.settle i bar .sent with
          published := node.published ++ [(i, bar)]
          livePublishes := node.livePublishes + 1 }
      else some (node.settle i bar .failed)
    | _ => none
  | .lease leader =>
    some { node with leader, followed := node.followed || !leader }

variable (tasks)

def Core.start : Core tasks where
  memory i := (tasks i).empty
  agg := .new
  ops _ := []
  frames _ := []
  samples _ := []
  folded _ := []

/-- A node that starts as the leader or as a follower. Without a lease it is the leader. -/
def start (leader : Bool) : Node tasks where
  core := .start tasks
  phase _ := .waiting
  leader := leader
  followed := !leader
  outcomes _ := []
  published := []
  livePublishes := 0

/-- A bar is the entry of its instrument right after the sample. -/
def Shows (c : Core tasks) (s : OiSample) (bar : OiSnapshot) : Prop :=
  bar.instrument = s.instrument ∧ bar.bucketTs = s.bucketTs ∧
    ∃ past, past ++ [.observe s] <+: c.ops s.instrument ∧
      replay (past ++ [.observe s]) = some bar

/-- What holds at any time. An entry is what its own operations make of it, whatever else goes on.
A task that lives has folded what it folds by itself, and each of its bars is sent, failed, held or
under way, in order. What is published is what the tasks have sent, and it is counted. A bar is held
only on a node that has followed. -/
structure Accounted (node : Node tasks) : Prop where
  own : ∀ id, node.core.agg.current id = replay (node.core.ops id)
  streams : ∀ i, node.phase i ≠ .dead → (tasks i).run (tasks i).empty (node.core.frames i) =
    .ok (node.core.memory i, node.core.samples i)
  shown : ∀ i, List.Forall₂ (Shows tasks node.core) (node.core.samples i) (node.core.folded i)
  settled : ∀ i, node.core.folded i = (node.outcomes i).map Prod.fst ++ (node.phase i).bar
  sent : ∀ i, ((node.outcomes i).filter fun outcome => outcome.2 = .sent).map Prod.fst =
    (node.published.filter fun entry => entry.1 = i).map Prod.snd
  counted : node.livePublishes = node.published.length
  gated : node.followed = false → node.leader = true ∧
    ∀ i, ∀ outcome ∈ node.outcomes i, outcome.2 ≠ .held

end

section

variable {ι : Type} {tasks : ι → Task}

theorem replay_concat (ops : List Op) (op : Op) : replay (ops ++ [op]) = op.apply (replay ops) := by
  unfold replay
  rw [List.foldl_append]
  rfl

/-- A task goes on from where it stands. -/
theorem Task.run_append (task : Task) {memory mid final : task.Memory} {frames more : List Received}
    {samples added : List OiSample} (h : task.run memory frames = .ok (mid, samples))
    (hmore : task.run mid more = .ok (final, added)) :
    task.run memory (frames ++ more) = .ok (final, samples ++ added) := by
  induction frames generalizing memory samples with
  | nil =>
    obtain ⟨rfl, rfl⟩ := Prod.mk.inj (Except.ok.inj h)
    exact hmore
  | cons r rest ih =>
    rw [List.cons_append, Task.run]
    rw [Task.run] at h
    cases hturn : task.turn memory r with
    | mk next result =>
      rw [hturn] at h
      cases result with
      | none => exact ih h
      | some result =>
        cases result with
        | error panic => cases h
        | ok sample =>
          dsimp only at h ⊢
          cases hrest : task.run next rest with
          | error panic =>
            rw [hrest] at h
            cases h
          | ok pair =>
            rw [hrest] at h
            obtain ⟨rfl, rfl⟩ := Prod.mk.inj (Except.ok.inj h)
            rw [ih hrest]
            rfl

/-- The entry of the sample's instrument is what the operation makes of it, and the clone is that
bar. -/
theorem observe_entry {agg : OiAggregator} (hfiled : agg.Filed) (s : OiSample) :
    (agg.observe s).1.current s.instrument = some (agg.observe s).2 ∧
      Op.apply (agg.current s.instrument) (.observe s) = some (agg.observe s).2 := by
  unfold Op.apply
  cases hcurrent : agg.current s.instrument with
  | none =>
    rw [OiAggregator.observe_vacant hcurrent]
    exact ⟨OiAggregator.current_put _ _ _, rfl⟩
  | some bar =>
    dsimp only
    by_cases hbucket : bar.bucketTs = s.bucketTs
    · rw [if_pos hbucket]
      by_cases hrepeat : bar.samples = 1 ∧ bar.lastRecvTs = s.recvTs
      · rw [if_pos hrepeat, OiAggregator.observe_repeat hcurrent hbucket hrepeat.1 hrepeat.2]
        exact ⟨OiAggregator.current_put _ _ _, rfl⟩
      · have hfold : agg.observe s = (agg.put s.instrument (bar.fold s), bar.fold s) := by
          unfold OiAggregator.observe
          dsimp only
          rw [hcurrent, Option.getD_some, if_pos hbucket, if_neg hrepeat,
            OiSnapshot.observe_eq_ok (hfiled _ _ hcurrent).symm hbucket.symm]
        rw [if_neg hrepeat, hfold]
        exact ⟨OiAggregator.current_put _ _ _, rfl⟩
    · rw [if_neg hbucket, OiAggregator.observe_roll hcurrent hbucket]
      exact ⟨OiAggregator.current_put _ _ _, rfl⟩

theorem apply_observe {entry : Option OiSnapshot} {s : OiSample} {bar : OiSnapshot}
    (hentry : ∀ old, entry = some old → old.instrument = s.instrument)
    (h : Op.apply entry (.observe s) = some bar) :
    bar.instrument = s.instrument ∧ bar.bucketTs = s.bucketTs := by
  unfold Op.apply at h
  cases entry with
  | none =>
    obtain rfl := Option.some.inj h
    exact ⟨rfl, rfl⟩
  | some old =>
    dsimp only at h
    have hold := hentry old rfl
    split at h
    case isTrue hbucket =>
      split at h
      case isTrue =>
        obtain rfl := Option.some.inj h
        exact ⟨hold, hbucket⟩
      case isFalse =>
        obtain rfl := Option.some.inj h
        exact ⟨hold, hbucket⟩
    case isFalse =>
      obtain rfl := Option.some.inj h
      exact ⟨rfl, rfl⟩

/-- Every entry is filed under its instrument, and is what its own operations make of it. -/
structure Core.Own (c : Core tasks) : Prop where
  filed : c.agg.Filed
  own : ∀ id, c.agg.current id = replay (c.ops id)

theorem Core.Own.observe {c : Core tasks} (h : c.Own) (s : OiSample) : (c.observe s).Own := by
  obtain ⟨hcurrent, happly⟩ := observe_entry h.filed s
  refine ⟨fun id bar hbar => ?_, fun id => ?_⟩
  · by_cases hid : id = s.instrument
    · subst hid
      obtain rfl := Option.some.inj (hcurrent.symm.trans hbar)
      exact (apply_observe (fun old hold => h.filed _ _ hold) happly).1
    · exact h.filed id bar ((OiAggregator.observe_current_ne hid).symm.trans hbar)
  · change (c.agg.observe s).1.current id = replay (Function.update c.ops _ _ id)
    by_cases hid : id = s.instrument
    · subst hid
      rw [Function.update_self, replay_concat, ← h.own, hcurrent, happly]
    · rw [Function.update_of_ne hid, OiAggregator.observe_current_ne hid]
      exact h.own id

theorem Core.Own.remove {c : Core tasks} (h : c.Own) (k : InstrumentId) : (c.remove k).Own := by
  refine ⟨h.filed.remove k, fun id => ?_⟩
  change (c.agg.remove k).2.current id = replay (Function.update c.ops _ _ id)
  by_cases hid : id = k
  · subst hid
    rw [Function.update_self, replay_concat, OiAggregator.current_remove]
    rfl
  · rw [Function.update_of_ne hid, OiAggregator.current_remove_ne hid]
    exact h.own id

/-- The operations of an entry are only added to. -/
def Core.Grows (c c' : Core tasks) : Prop := ∀ id, c.ops id <+: c'.ops id

theorem Core.grows_observe (c : Core tasks) (s : OiSample) : c.Grows (c.observe s) := by
  intro id
  change c.ops id <+: Function.update c.ops _ _ id
  by_cases hid : id = s.instrument
  · subst hid
    rw [Function.update_self]
    exact List.prefix_append _ _
  · rewrite [Function.update_of_ne hid]
    exact List.prefix_rfl

theorem Core.grows_remove (c : Core tasks) (k : InstrumentId) : c.Grows (c.remove k) := by
  intro id
  change c.ops id <+: Function.update c.ops _ _ id
  by_cases hid : id = k
  · subst hid
    rw [Function.update_self]
    exact List.prefix_append _ _
  · rewrite [Function.update_of_ne hid]
    exact List.prefix_rfl

theorem Shows.mono {c c' : Core tasks} {s : OiSample} {bar : OiSnapshot}
    (h : Shows tasks c s bar) (hgrows : c.Grows c') : Shows tasks c' s bar := by
  obtain ⟨hinstrument, hbucket, past, hpast, hreplay⟩ := h
  exact ⟨hinstrument, hbucket, past, hpast.trans (hgrows _), hreplay⟩

/-- The bar of a fold shows the sample. -/
theorem Core.Own.shows {c : Core tasks} (h : c.Own) (s : OiSample) :
    Shows tasks (c.observe s) s (c.agg.observe s).2 := by
  obtain ⟨_, happly⟩ := observe_entry h.filed s
  obtain ⟨hinstrument, hbucket⟩ := apply_observe (fun old hold => h.filed _ _ hold) happly
  refine ⟨hinstrument, hbucket, c.ops s.instrument, ?_, ?_⟩
  · change _ <+: Function.update c.ops _ _ s.instrument
    rewrite [Function.update_self]
    exact List.prefix_rfl
  · rw [replay_concat, ← h.own]
    exact happly

theorem own_start : (Core.start tasks).Own := by
  refine ⟨fun id bar h => ?_, fun id => OiAggregator.current_new id⟩
  change OiAggregator.new.current id = some bar at h
  rw [OiAggregator.current_new] at h
  cases h

variable [DecidableEq ι]

/-- The entries, and the accounts of the tasks. -/
structure Inv (node : Node tasks) : Prop where
  entries : node.core.Own
  accounted : Accounted tasks node

theorem inv_start (leader : Bool) : Inv (start tasks leader) where
  entries := own_start
  accounted :=
    { own := fun id => OiAggregator.current_new id
      streams := fun _ _ => rfl
      shown := fun _ => .nil
      settled := fun _ => rfl
      sent := fun _ => rfl
      counted := rfl
      gated := fun h => ⟨by simpa [start] using h, fun _ _ hmem => absurd hmem List.not_mem_nil⟩ }

/-- An operation of a minute loop changes the entries only. -/
theorem Inv.entry {node : Node tasks} (h : Inv node) {c : Core tasks} (hown : c.Own)
    (hgrows : node.core.Grows c) (hmemory : c.memory = node.core.memory)
    (hframes : c.frames = node.core.frames) (hsamples : c.samples = node.core.samples)
    (hfolded : c.folded = node.core.folded) : Inv { node with core := c } where
  entries := hown
  accounted :=
    { own := hown.own
      streams := fun i halive => by
        dsimp only
        rw [hmemory, hframes, hsamples]
        exact h.accounted.streams i halive
      shown := fun i => by
        dsimp only
        rw [hsamples, hfolded]
        exact (h.accounted.shown i).imp fun _ _ hshows => hshows.mono hgrows
      settled := fun i => by
        dsimp only
        rw [hfolded]
        exact h.accounted.settled i
      sent := h.accounted.sent
      counted := h.accounted.counted
      gated := h.accounted.gated }

theorem Inv.lease {node : Node tasks} (h : Inv node) (leader : Bool) :
    Inv { node with leader, followed := node.followed || !leader } := by
  refine ⟨h.entries, ?_⟩
  refine
    { own := h.accounted.own
      streams := h.accounted.streams
      shown := h.accounted.shown
      settled := h.accounted.settled
      sent := h.accounted.sent
      counted := h.accounted.counted
      gated := fun hfollowed => ?_ }
  obtain ⟨hbefore, hleader⟩ := Bool.or_eq_false_iff.mp hfollowed
  exact ⟨by simpa using hleader, (h.accounted.gated hbefore).2⟩

theorem handle_fold {c : Core tasks} {i : ι} {r : Received} {memory : (tasks i).Memory}
    {sample : OiSample} (hturn : (tasks i).turn (c.memory i) r = (memory, some (.ok sample))) :
    c.handle i r = { c.observe sample with
      memory := Function.update c.memory i memory
      frames := Function.update c.frames i (c.frames i ++ [r])
      samples := Function.update c.samples i (c.samples i ++ [sample])
      folded := Function.update c.folded i (c.folded i ++ [(c.agg.observe sample).2]) } := by
  unfold Core.handle
  rw [hturn]
  rfl

/-- Without a sample only the memory of the task changes. -/
theorem handle_quiet {c : Core tasks} {i : ι} {r : Received} {memory : (tasks i).Memory}
    {result : Option (Except Panic OiSample)}
    (hturn : (tasks i).turn (c.memory i) r = (memory, result))
    (hquiet : ∀ sample, result ≠ some (.ok sample)) :
    c.handle i r = { c with
      memory := Function.update c.memory i memory
      frames := Function.update c.frames i (c.frames i ++ [r]) } := by
  unfold Core.handle
  rw [hturn]
  cases result with
  | none => rfl
  | some result =>
    cases result with
    | error panic => rfl
    | ok sample => exact absurd rfl (hquiet sample)

/-- The stream of the task goes on by one turn, those of the others stay. -/
theorem Inv.streams {node : Node tasks} (h : Inv node) {i : ι} {r : Received}
    {memory : (tasks i).Memory} {added : List OiSample} {phase : Phase}
    (hwaiting : node.phase i = .waiting)
    (hrun : phase ≠ .dead → (tasks i).run (node.core.memory i) [r] = .ok (memory, added)) (j : ι)
    (halive : Function.update node.phase i phase j ≠ .dead) :
    (tasks j).run (tasks j).empty
        (Function.update node.core.frames i (node.core.frames i ++ [r]) j) =
      .ok (Function.update node.core.memory i memory j,
        Function.update node.core.samples i (node.core.samples i ++ added) j) := by
  by_cases hj : j = i
  · subst hj
    rw [Function.update_self] at halive
    rw [Function.update_self, Function.update_self, Function.update_self]
    have hbefore := h.accounted.streams j (by rw [hwaiting]; exact Phase.noConfusion)
    exact Task.run_append _ hbefore (hrun halive)
  · rw [Function.update_of_ne hj] at halive
    rw [Function.update_of_ne hj, Function.update_of_ne hj, Function.update_of_ne hj]
    exact h.accounted.streams j halive

/-- A frame that folds nothing leaves the task waiting, or ends it. -/
theorem Inv.quiet {node : Node tasks} (h : Inv node) {i : ι} {r : Received}
    {memory : (tasks i).Memory} {result : Option (Except Panic OiSample)} {phase : Phase}
    (hwaiting : node.phase i = .waiting)
    (hturn : (tasks i).turn (node.core.memory i) r = (memory, result))
    (hquiet : ∀ sample, result ≠ some (.ok sample)) (hbar : phase.bar = [])
    (halive : phase ≠ .dead → result = none) :
    Inv { node with
      core := node.core.handle i r
      phase := Function.update node.phase i phase } := by
  have hrun : phase ≠ .dead → (tasks i).run (node.core.memory i) [r] = .ok (memory, []) := by
    intro hphase
    rw [Task.run, hturn, halive hphase]
    rfl
  rw [handle_quiet hturn hquiet]
  refine ⟨⟨h.entries.filed, h.entries.own⟩, ?_⟩
  refine
    { own := h.accounted.own
      streams := fun j hj => ?streams
      shown := h.accounted.shown
      settled := fun j => ?settled
      sent := h.accounted.sent
      counted := h.accounted.counted
      gated := h.accounted.gated }
  case streams =>
    have hstream := h.streams hwaiting hrun j hj
    rw [List.append_nil, Function.update_eq_self] at hstream
    exact hstream
  case settled =>
    dsimp only
    rw [h.accounted.settled j]
    by_cases hj : j = i
    · subst hj
      rw [Function.update_self, hwaiting, hbar]
      rfl
    · rw [Function.update_of_ne hj]

/-- A fold adds a sample, and its bar, which is then under way. -/
theorem Inv.fold {node : Node tasks} (h : Inv node) {i : ι} {r : Received}
    {memory : (tasks i).Memory} {sample : OiSample} (hwaiting : node.phase i = .waiting)
    (hturn : (tasks i).turn (node.core.memory i) r = (memory, some (.ok sample))) :
    Inv { node with
      core := node.core.handle i r
      phase := Function.update node.phase i (.observed (node.core.agg.observe sample).2) } := by
  have hrun : (tasks i).run (node.core.memory i) [r] = .ok (memory, [sample]) := by
    rw [Task.run, hturn]
    rfl
  have hown := h.entries.observe sample
  rw [handle_fold hturn]
  refine ⟨⟨hown.filed, hown.own⟩, ?_⟩
  refine
    { own := hown.own
      streams := fun j hj => h.streams hwaiting (fun _ => hrun) j hj
      shown := fun j => ?shown
      settled := fun j => ?settled
      sent := h.accounted.sent
      counted := h.accounted.counted
      gated := h.accounted.gated }
  case shown =>
    have hbefore : List.Forall₂ (Shows tasks (node.core.observe sample)) (node.core.samples j)
        (node.core.folded j) :=
      (h.accounted.shown j).imp fun _ _ hshows => hshows.mono (node.core.grows_observe sample)
    dsimp only
    by_cases hj : j = i
    · subst hj
      rw [Function.update_self, Function.update_self]
      exact List.rel_append hbefore (.cons (h.entries.shows sample) .nil)
    · rw [Function.update_of_ne hj, Function.update_of_ne hj]
      exact hbefore
  case settled =>
    dsimp only
    by_cases hj : j = i
    · subst hj
      have hbefore := h.accounted.settled j
      rw [hwaiting] at hbefore
      rw [Function.update_self, Function.update_self, hbefore]
      exact congrArg (· ++ _) (List.append_nil _)
    · rw [Function.update_of_ne hj, Function.update_of_ne hj]
      exact h.accounted.settled j

/-- What is published once the bar is settled. -/
def Node.publishedAfter (node : Node tasks) (i : ι) (bar : OiSnapshot) (outcome : Outcome) :
    List (ι × OiSnapshot) :=
  if outcome = .sent then node.published ++ [(i, bar)] else node.published

/-- The bar that is under way is settled. -/
theorem Inv.settle {node : Node tasks} (h : Inv node) {i : ι} {bar : OiSnapshot}
    {outcome : Outcome} (hbar : (node.phase i).bar = [bar])
    (hheld : outcome = .held → node.leader = false) :
    Inv { node.settle i bar outcome with
      published := node.publishedAfter i bar outcome
      livePublishes := (node.publishedAfter i bar outcome).length } := by
  refine ⟨h.entries, ?_⟩
  have hdead : node.phase i ≠ .dead := fun hdead => by
    rw [hdead] at hbar
    cases hbar
  refine
    { own := h.accounted.own
      streams := fun j hj => ?streams
      shown := h.accounted.shown
      settled := fun j => ?settled
      sent := fun j => ?sent
      counted := rfl
      gated := fun hfollowed => ?gated }
  case streams =>
    refine h.accounted.streams j fun hphase => ?_
    by_cases hji : j = i
    · subst hji
      exact hdead hphase
    · refine hj ?_
      change Function.update node.phase i .waiting j = .dead
      rw [Function.update_of_ne hji]
      exact hphase
  case settled =>
    change node.core.folded j = (Function.update node.outcomes i _ j).map Prod.fst ++
      (Function.update node.phase i .waiting j).bar
    rw [h.accounted.settled j]
    by_cases hj : j = i
    · subst hj
      rw [Function.update_self, Function.update_self, hbar, List.map_append]
      exact (List.append_nil _).symm
    · rw [Function.update_of_ne hj, Function.update_of_ne hj]
  case sent =>
    change ((Function.update node.outcomes i _ j).filter _).map Prod.fst =
      ((node.publishedAfter i bar outcome).filter _).map Prod.snd
    unfold Node.publishedAfter
    have hbefore := h.accounted.sent j
    by_cases hj : j = i
    · subst hj
      rw [Function.update_self, List.filter_append, List.map_append, hbefore]
      by_cases hsent : outcome = .sent
      · rw [if_pos hsent, List.filter_append, List.map_append]
        simp [hsent]
      · rw [if_neg hsent]
        simp [hsent]
    · rw [Function.update_of_ne hj, hbefore]
      by_cases hsent : outcome = .sent
      · rw [if_pos hsent, List.filter_append]
        simp [Ne.symm hj]
      · rw [if_neg hsent]
  case gated =>
    obtain ⟨hleader, hnone⟩ := h.accounted.gated hfollowed
    refine ⟨hleader, fun j => ?_⟩
    change ∀ entry ∈ Function.update node.outcomes i _ j, entry.2 ≠ .held
    by_cases hj : j = i
    · subst hj
      rw [Function.update_self]
      intro entry hentry heq
      rcases List.mem_append.mp hentry with hold | hnew
      · exact hnone j entry hold heq
      · rw [List.mem_singleton.mp hnew] at heq
        rw [hheld heq] at hleader
        cases hleader
    · rw [Function.update_of_ne hj]
      exact hnone j

/-- A bar that is held or fails leaves the publisher as it was. -/
theorem Inv.drop {node : Node tasks} (h : Inv node) {i : ι} {bar : OiSnapshot}
    {outcome : Outcome} (hbar : (node.phase i).bar = [bar])
    (hheld : outcome = .held → node.leader = false) (hsent : outcome ≠ .sent) :
    Inv (node.settle i bar outcome) := by
  have hsettled := h.settle hbar hheld
  unfold Node.publishedAfter at hsettled
  rw [if_neg hsent, ← h.accounted.counted] at hsettled
  exact hsettled

/-- The gate lets the bar pass. -/
theorem Inv.pass {node : Node tasks} (h : Inv node) {i : ι} {bar : OiSnapshot}
    (hphase : node.phase i = .observed bar) :
    Inv { node with phase := Function.update node.phase i (.publishing bar) } := by
  refine ⟨h.entries, ?_⟩
  refine
    { own := h.accounted.own
      streams := fun j hj => ?streams
      shown := h.accounted.shown
      settled := fun j => ?settled
      sent := h.accounted.sent
      counted := h.accounted.counted
      gated := h.accounted.gated }
  case streams =>
    refine h.accounted.streams j fun hdead => ?_
    by_cases hji : j = i
    · subst hji
      rw [hphase] at hdead
      cases hdead
    · refine hj ?_
      dsimp only
      rw [Function.update_of_ne hji]
      exact hdead
  case settled =>
    dsimp only
    rw [h.accounted.settled j]
    by_cases hj : j = i
    · subst hj
      rw [Function.update_self, hphase]
      rfl
    · rw [Function.update_of_ne hj]

theorem inv_frame {node node' : Node tasks} {i : ι} {r : Received} (h : Inv node)
    (hstep : step node (.input (.frame i r)) = some node') : Inv node' := by
  unfold step at hstep
  dsimp only at hstep
  split at hstep
  case h_2 => cases hstep
  case h_1 hwaiting =>
    obtain rfl := Option.some.inj hstep
    unfold Core.phaseAfter
    cases hturn : (tasks i).turn (node.core.memory i) r with
    | mk memory result =>
      cases result with
      | none =>
        exact h.quiet hwaiting hturn (fun _ h => nomatch h) rfl fun _ => rfl
      | some result =>
        cases result with
        | error panic =>
          exact h.quiet hwaiting hturn (fun _ h => nomatch h) rfl fun halive => absurd rfl halive
        | ok sample => exact h.fold hwaiting hturn

theorem inv_step {node node' : Node tasks} {a : Act ι} (h : Inv node)
    (hstep : step node a = some node') : Inv node' := by
  cases a with
  | input x =>
    cases x with
    | frame i r => exact inv_frame h hstep
    | rest s =>
      obtain rfl := Option.some.inj hstep
      exact h.entry (h.entries.observe s) (node.core.grows_observe s) rfl rfl rfl rfl
    | remove id =>
      obtain rfl := Option.some.inj hstep
      exact h.entry (h.entries.remove id) (node.core.grows_remove id) rfl rfl rfl rfl
  | gate i =>
    unfold step at hstep
    dsimp only at hstep
    split at hstep
    case h_2 => cases hstep
    case h_1 bar hphase =>
      split at hstep
      case isTrue =>
        obtain rfl := Option.some.inj hstep
        exact h.pass hphase
      case isFalse hleader =>
        obtain rfl := Option.some.inj hstep
        exact h.drop (by rw [hphase]; rfl) (fun _ => Bool.eq_false_iff.mpr hleader)
          Outcome.noConfusion
  | published i ok =>
    unfold step at hstep
    dsimp only at hstep
    split at hstep
    case h_2 => cases hstep
    case h_1 bar hphase =>
      have hbar : (node.phase i).bar = [bar] := by rw [hphase]; rfl
      split at hstep
      case isTrue =>
        obtain rfl := Option.some.inj hstep
        have hsettled := h.settle hbar (Outcome.noConfusion : Outcome.sent = .held → _)
        unfold Node.publishedAfter at hsettled
        rw [if_pos rfl, List.length_append, ← h.accounted.counted] at hsettled
        exact hsettled
      case isFalse =>
        obtain rfl := Option.some.inj hstep
        exact h.drop hbar (Outcome.noConfusion : Outcome.failed = .held → _) Outcome.noConfusion
  | lease leader =>
    obtain rfl := Option.some.inj hstep
    exact h.lease leader

/-- However the tasks, the minute loops, the lease and Redis interleave, every entry of the
aggregator is what its own operations make of it, so a follower holds the bars that a leader holds.
Every task folds the stream that it would fold alone, and each of its bars, which shows its
instrument right after the sample, is sent once, fails once or is held back once, in order. A node
that has led from the start holds none back. -/
theorem live_bars_are_accounted_for (tasks : ι → Task) (leader : Bool) (acts : List (Act ι)) :
    Throughout step (Accounted tasks) (start tasks leader) acts :=
  throughout_of_step (fun _ _ _ h hstep => inv_step h hstep) (fun _ h => h.accounted)
    (inv_start leader)

/-! ### The streams of the venues -/

theorem Task.run_cons (task : Task) (memory : task.Memory) (r : Received) (rest : List Received) :
    task.run memory (r :: rest) =
      match task.turn memory r with
      | (memory, none) => task.run memory rest
      | (memory, some result) => do
        let sample ← result
        let (final, samples) ← task.run memory rest
        return (final, sample :: samples) := rfl

/-- By itself the task of Bybit is the shard of Bybit. -/
theorem bybitTask_run (A : DecimalArith) (T : DecimalText) (state : States)
    (frames : List Received) :
    (bybitTask A T).run state frames = BybitStream.runShard T A state frames := by
  induction frames generalizing state with
  | nil => rfl
  | cons r rest ih =>
    refine (Task.run_cons (bybitTask A T) state r rest).trans ?_
    have hturn : (bybitTask A T).turn state r = ((BybitStream.handleFrame T state r).1,
        (BybitStream.handleFrame T state r).2.map (enrichBybit A)) := rfl
    rw [hturn, BybitStream.runShard]
    cases BybitStream.handleFrame T state r with
    | mk next raw =>
      cases raw with
      | none => exact ih next
      | some raw =>
        dsimp only [Option.map_some]
        rw [ih next]
        rfl

/-- By itself the task of a venue folds the samples of its shard. -/
theorem venueTask_run (V : Venue) (A : DecimalArith) (T : DecimalText) (last : Last)
    (frames : List Received) :
    ((venueTask V A T).run last frames).map Prod.snd = V.runShard T A last frames := by
  induction frames generalizing last with
  | nil => rfl
  | cons r rest ih =>
    rw [runShard_cons]
    refine (congrArg (Except.map Prod.snd) (Task.run_cons (venueTask V A T) last r rest)).trans ?_
    have hturn : (venueTask V A T).turn last r = ((V.handleFrame T last r).1,
        (V.handleFrame T last r).2.map (V.enrich A)) := rfl
    rw [hturn]
    cases V.handleFrame T last r with
    | mk next raw =>
      cases raw with
      | none => exact ih next
      | some raw =>
        dsimp only [Option.map_some]
        rw [← ih next]
        cases V.enrich A raw with
        | error panic => rfl
        | ok sample => cases (venueTask V A T).run next rest <;> rfl

end

end OiTerminal.Collector.LiveNode
