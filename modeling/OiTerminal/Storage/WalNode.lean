import OiTerminal.Lib.Transition
import OiTerminal.Storage.Wal

/-!
# Collector nodes over one database

A node runs `WalBacked` over the leader-gated repository, its drainer and, on a follower,
the reaper. Each step below is one file or database operation; any step of any task on
any node may come next. A crash ends all tasks of a process and keeps its directory.
`appended`, `reaped`, `promotions` and the tags of an insert record the history and
influence nothing.
-/
namespace OiTerminal.Storage

set_option autoImplicit false

/-- Where a call of `upsert_snapshots` stands. -/
inductive Stage where
  | creating (chunks : List Bytes)
  | writing (chunks : List Bytes)
  | appended
  | gated (era : Nat)
  | stored

/-- A call in flight, with the name drawn for its file. -/
structure Call where
  name : WalName
  batch : Batch
  stage : Stage

/-- Where the drainer task stands. `rest` is what is left of the listing. -/
inductive Drainer where
  | asleep
  | listing
  | draining (rest : List WalName)
  | unreadable (name : WalName) (rest : List WalName)
  | loaded (name : WalName) (batch : Batch) (rest : List WalName)
  | gated (name : WalName) (batch : Batch) (era : Nat) (rest : List WalName)
  | stored (name : WalName) (batch : Batch) (rest : List WalName)
  | reapListing
  | reaping (now : Nat) (rest : List WalName)

/-- A file that the reaper deleted at clock reading `now`. -/
structure Reaped where
  name : WalName
  bytes : Bytes
  now : Nat

structure Node where
  leader : Bool
  followerMaxAge : Option Nat
  pid : Nat
  counter : Nat
  dir : Dir
  tmp : Dir
  calls : Nat → Option Call
  drainer : Drainer
  appended : List (WalName × Batch)
  reaped : List Reaped

/-- A batch that the database took, and the leadership era of the gate check before it. -/
structure Insert (ι : Type) where
  node : ι
  era : Nat
  name : WalName
  batch : Batch
  deriving DecidableEq

inductive CallAct where
  | start (batch : Batch) (nowMs : Nat)
  | create
  | write
  | rename
  | appendFails
  | gate
  | insert
  | insertFails (landed : Bool)
  | ack
  | ackFails

inductive DrainAct where
  | wake
  | list
  | listFails
  | read
  | quarantine (renamed : Bool)
  | gate
  | insert
  | insertFails (landed : Bool)
  | ack
  | ackFails
  | finish
  | reapList (nowMs : Nat)
  | reap
  | reapFails

namespace Node

def setCall (node : Node) (t : Nat) (call : Option Call) : Node :=
  { node with calls := Function.update node.calls t call }

theorem setCall_self (node : Node) (t : Nat) (call : Option Call) :
    (node.setCall t call).calls t = call := Function.update_self _ _ _

theorem setCall_ne {node : Node} {t t' : Nat} (h : t' ≠ t) (call : Option Call) :
    (node.setCall t call).calls t' = node.calls t' := Function.update_of_ne h _ _

/-- A call is in the slot that is set or in another one. -/
theorem setCall_cases {node : Node} {t t' : Nat} {call : Option Call} {c : Call}
    (h : (node.setCall t call).calls t' = some c) :
    t' = t ∧ call = some c ∨ t' ≠ t ∧ node.calls t' = some c := by
  by_cases ht : t' = t
  · subst ht
    rw [setCall_self] at h
    exact .inl ⟨rfl, h⟩
  · rw [setCall_ne ht] at h
    exact .inr ⟨ht, h⟩

/-- A step of the call in slot `t`: the node afterwards and what the database took, with
the era of the gate check. -/
def callStep (C : Codec) (era : Nat) (node : Node) (t : Nat) :
    CallAct → Option (Node × Option (Nat × WalName × Batch))
  | .start batch nowMs =>
    match node.calls t, C.encode batch with
    | none, some payload =>
      if batch = [] then none
      else
        let name : WalName := ⟨nowMs, node.pid, node.counter⟩
        some ({ node.setCall t (some ⟨name, batch, .creating (C.frameChunks payload)⟩) with
          counter := node.counter + 1 }, none)
    | _, _ => none
  | act =>
    match node.calls t with
    | none => none
    | some ⟨name, batch, stage⟩ =>
      let at' (stage : Stage) := node.setCall t (some ⟨name, batch, stage⟩)
      match act, stage with
      | .create, .creating chunks =>
        some ({ at' (.writing chunks) with tmp := node.tmp.insert name [] }, none)
      | .write, .writing (chunk :: chunks) =>
        match node.tmp.lookup name with
        | some written =>
          some ({ at' (.writing chunks) with tmp := node.tmp.insert name (written ++ chunk) }, none)
        | none => none
      | .rename, .writing [] =>
        match node.tmp.lookup name with
        | some bytes =>
          some ({ at' .appended with
            tmp := node.tmp.erase name
            dir := node.dir.insert name bytes
            appended := node.appended ++ [(name, batch)] }, none)
        | none => none
      | .appendFails, .creating _ => some (node.setCall t none, none)
      | .appendFails, .writing _ => some (node.setCall t none, none)
      | .gate, .appended =>
        -- a follower answers "not leader" and the file stays
        some (if node.leader then at' (.gated era) else node.setCall t none, none)
      | .insert, .gated gateEra => some (at' .stored, some (gateEra, name, batch))
      | .insertFails landed, .gated gateEra =>
        some (node.setCall t none, if landed then some (gateEra, name, batch) else none)
      | .ack, .stored => some ({ node.setCall t none with dir := node.dir.erase name }, none)
      | .ackFails, .stored => some (node.setCall t none, none)
      | _, _ => none

/-- A step of the drainer task. -/
def drainStep (C : Codec) (era : Nat) (node : Node) (act : DrainAct) :
    Option (Node × Option (Nat × WalName × Batch)) :=
  let at' (drainer : Drainer) : Node := { node with drainer }
  match act, node.drainer with
  | .wake, .asleep =>
    some (at' (if node.leader then .listing
      else if node.followerMaxAge.isSome then .reapListing else .asleep), none)
  | .list, .listing => some (at' (.draining node.dir.pending), none)
  | .listFails, .listing => some (at' .asleep, none)
  | .listFails, .reapListing => some (at' .asleep, none)
  | .read, .draining (name :: rest) =>
    match node.dir.lookup name with
    | none => some (at' (.unreadable name rest), none)
    | some bytes =>
      match C.read bytes with
      | .ok batch => some (at' (.loaded name batch rest), none)
      | .error _ => some (at' (.unreadable name rest), none)
  | .quarantine renamed, .unreadable name rest =>
    -- the renamed file no longer has the pending suffix; a missing one cannot be renamed
    some ({ at' (.draining rest) with dir := if renamed then node.dir.erase name else node.dir },
      none)
  | .gate, .loaded name batch rest =>
    some (at' (if node.leader then .gated name batch era rest else .asleep), none)
  | .insert, .gated name batch gateEra rest =>
    some (at' (.stored name batch rest), some (gateEra, name, batch))
  | .insertFails landed, .gated name batch gateEra _ =>
    some (at' .asleep, if landed then some (gateEra, name, batch) else none)
  | .ack, .stored name _ rest =>
    some ({ at' (.draining rest) with dir := node.dir.erase name }, none)
  | .ackFails, .stored _ _ _ => some (at' .asleep, none)
  | .finish, .draining [] => some (at' .asleep, none)
  | .reapList nowMs, .reapListing => some (at' (.reaping nowMs node.dir.pending), none)
  | .reap, .reaping nowMs (name :: rest) =>
    match node.followerMaxAge with
    | none => none
    | some maxAge =>
      if name.Aged maxAge nowMs then
        some ({ at' (.reaping nowMs rest) with
          dir := node.dir.erase name
          reaped := ((node.dir.lookup name).toList.map fun bytes => ⟨name, bytes, nowMs⟩) ++
            node.reaped }, none)
      else some (at' .asleep, none)
  | .reapFails, .reaping _ _ => some (at' .asleep, none)
  | .finish, .reaping _ [] => some (at' .asleep, none)
  | _, _ => none

/-- The steps of a call one by one, each with its guards. -/
inductive CallSpec (C : Codec) (era : Nat) (node : Node) (t : Nat) :
    CallAct → Node → Option (Nat × WalName × Batch) → Prop where
  | start {batch payload} (nowMs : Nat) (hcall : node.calls t = none)
      (hencode : C.encode batch = some payload) (hbatch : batch ≠ []) :
      CallSpec C era node t (.start batch nowMs)
        { node.setCall t (some ⟨⟨nowMs, node.pid, node.counter⟩, batch,
            .creating (C.frameChunks payload)⟩) with counter := node.counter + 1 } none
  | create {name batch chunks} (hcall : node.calls t = some ⟨name, batch, .creating chunks⟩) :
      CallSpec C era node t .create
        { node.setCall t (some ⟨name, batch, .writing chunks⟩) with
          tmp := node.tmp.insert name [] } none
  | write {name batch chunk chunks written}
      (hcall : node.calls t = some ⟨name, batch, .writing (chunk :: chunks)⟩)
      (htmp : node.tmp.lookup name = some written) :
      CallSpec C era node t .write
        { node.setCall t (some ⟨name, batch, .writing chunks⟩) with
          tmp := node.tmp.insert name (written ++ chunk) } none
  | rename {name batch bytes} (hcall : node.calls t = some ⟨name, batch, .writing []⟩)
      (htmp : node.tmp.lookup name = some bytes) :
      CallSpec C era node t .rename
        { node.setCall t (some ⟨name, batch, .appended⟩) with
          tmp := node.tmp.erase name
          dir := node.dir.insert name bytes
          appended := node.appended ++ [(name, batch)] } none
  | pass {name batch} (hcall : node.calls t = some ⟨name, batch, .appended⟩)
      (hleader : node.leader = true) :
      CallSpec C era node t .gate (node.setCall t (some ⟨name, batch, .gated era⟩)) none
  | insert {name batch gateEra} (hcall : node.calls t = some ⟨name, batch, .gated gateEra⟩) :
      CallSpec C era node t .insert (node.setCall t (some ⟨name, batch, .stored⟩))
        (some (gateEra, name, batch))
  | insertFails {name batch gateEra} (landed : Bool)
      (hcall : node.calls t = some ⟨name, batch, .gated gateEra⟩) :
      CallSpec C era node t (.insertFails landed) (node.setCall t none)
        (if landed then some (gateEra, name, batch) else none)
  | ack {name batch} (hcall : node.calls t = some ⟨name, batch, .stored⟩) :
      CallSpec C era node t .ack { node.setCall t none with dir := node.dir.erase name } none
  | leave {act call} (hcall : node.calls t = some call)
      (hact : act = .appendFails ∨ act = .ackFails ∨ act = .gate ∧ node.leader = false) :
      CallSpec C era node t act (node.setCall t none) none

theorem callStep_spec {C : Codec} {era t : Nat} {node node' : Node} {act : CallAct}
    {taken : Option (Nat × WalName × Batch)}
    (h : node.callStep C era t act = some (node', taken)) :
    CallSpec C era node t act node' taken := by
  cases hcall : node.calls t with
  | none =>
    cases act with
    | start batch nowMs =>
      cases hencode : C.encode batch with
      | none => simp [callStep, hcall, hencode] at h
      | some payload =>
        simp only [callStep, hcall, hencode, Option.ite_none_left_eq_some, Option.some.injEq,
          Prod.mk.injEq] at h
        obtain ⟨hbatch, rfl, rfl⟩ := h
        exact .start nowMs hcall hencode hbatch
    | _ => simp [callStep, hcall] at h
  | some call =>
    obtain ⟨name, batch, stage⟩ := call
    cases act <;> cases stage <;>
      simp only [callStep, hcall, Option.some.injEq, Prod.mk.injEq, reduceCtorEq] at h
    case create.creating chunks =>
      obtain ⟨rfl, rfl⟩ := h
      exact .create hcall
    case write.writing chunks =>
      cases chunks with
      | nil => simp at h
      | cons chunk chunks =>
        cases htmp : node.tmp.lookup name with
        | none => simp [htmp] at h
        | some written =>
          simp only [htmp, Option.some.injEq, Prod.mk.injEq] at h
          obtain ⟨rfl, rfl⟩ := h
          exact .write hcall htmp
    case rename.writing chunks =>
      cases chunks with
      | nil =>
        cases htmp : node.tmp.lookup name with
        | none => simp [htmp] at h
        | some bytes =>
          simp only [htmp, Option.some.injEq, Prod.mk.injEq] at h
          obtain ⟨rfl, rfl⟩ := h
          exact .rename hcall htmp
      | cons chunk chunks => simp at h
    case gate.appended =>
      obtain ⟨rfl, rfl⟩ := h
      split
      case isTrue hleader => exact .pass hcall hleader
      case isFalse hleader =>
        exact .leave hcall (.inr (.inr ⟨rfl, Bool.eq_false_of_not_eq_true hleader⟩))
    case insert.gated gateEra =>
      obtain ⟨rfl, rfl⟩ := h
      exact .insert hcall
    case insertFails.gated landed gateEra =>
      obtain ⟨rfl, rfl⟩ := h
      exact .insertFails landed hcall
    case ack.stored =>
      obtain ⟨rfl, rfl⟩ := h
      exact .ack hcall
    all_goals
      obtain ⟨rfl, rfl⟩ := h
      exact .leave hcall (by simp)

/-- The steps of the drainer one by one, each with its guards. -/
inductive DrainSpec (C : Codec) (era : Nat) (node : Node) :
    DrainAct → Node → Option (Nat × WalName × Batch) → Prop where
  | wake (hdrainer : node.drainer = .asleep) (hleader : node.leader = true) :
      DrainSpec C era node .wake { node with drainer := .listing } none
  | wakeReaper {maxAge} (hdrainer : node.drainer = .asleep) (hleader : node.leader = false)
      (hage : node.followerMaxAge = some maxAge) :
      DrainSpec C era node .wake { node with drainer := .reapListing } none
  | list (hdrainer : node.drainer = .listing) :
      DrainSpec C era node .list { node with drainer := .draining node.dir.pending } none
  | missing {name rest} (hdrainer : node.drainer = .draining (name :: rest))
      (hfile : node.dir.lookup name = none) :
      DrainSpec C era node .read { node with drainer := .unreadable name rest } none
  | corrupt {name rest bytes e} (hdrainer : node.drainer = .draining (name :: rest))
      (hfile : node.dir.lookup name = some bytes) (hread : C.read bytes = .error e) :
      DrainSpec C era node .read { node with drainer := .unreadable name rest } none
  | load {name rest bytes batch} (hdrainer : node.drainer = .draining (name :: rest))
      (hfile : node.dir.lookup name = some bytes) (hread : C.read bytes = .ok batch) :
      DrainSpec C era node .read { node with drainer := .loaded name batch rest } none
  | quarantine {name rest} (renamed : Bool) (hdrainer : node.drainer = .unreadable name rest) :
      DrainSpec C era node (.quarantine renamed)
        { node with
          drainer := .draining rest
          dir := if renamed then node.dir.erase name else node.dir } none
  | pass {name batch rest} (hdrainer : node.drainer = .loaded name batch rest)
      (hleader : node.leader = true) :
      DrainSpec C era node .gate { node with drainer := .gated name batch era rest } none
  | insert {name batch gateEra rest} (hdrainer : node.drainer = .gated name batch gateEra rest) :
      DrainSpec C era node .insert { node with drainer := .stored name batch rest }
        (some (gateEra, name, batch))
  | insertFails {name batch gateEra rest} (landed : Bool)
      (hdrainer : node.drainer = .gated name batch gateEra rest) :
      DrainSpec C era node (.insertFails landed) { node with drainer := .asleep }
        (if landed then some (gateEra, name, batch) else none)
  | ack {name batch rest} (hdrainer : node.drainer = .stored name batch rest) :
      DrainSpec C era node .ack
        { node with drainer := .draining rest, dir := node.dir.erase name } none
  | reapList (nowMs : Nat) (hdrainer : node.drainer = .reapListing) :
      DrainSpec C era node (.reapList nowMs)
        { node with drainer := .reaping nowMs node.dir.pending } none
  | reap {nowMs maxAge name rest} (hdrainer : node.drainer = .reaping nowMs (name :: rest))
      (hage : node.followerMaxAge = some maxAge) (haged : name.Aged maxAge nowMs) :
      DrainSpec C era node .reap
        { node with
          drainer := .reaping nowMs rest
          dir := node.dir.erase name
          reaped := ((node.dir.lookup name).toList.map fun bytes => ⟨name, bytes, nowMs⟩) ++
            node.reaped } none
  | sleep {act} : DrainSpec C era node act { node with drainer := .asleep } none

theorem drainStep_spec {C : Codec} {era : Nat} {node node' : Node} {act : DrainAct}
    {taken : Option (Nat × WalName × Batch)}
    (h : node.drainStep C era act = some (node', taken)) :
    DrainSpec C era node act node' taken := by
  cases hd : node.drainer <;> cases act <;>
    simp only [drainStep, hd, Option.some.injEq, Prod.mk.injEq, reduceCtorEq] at h
  case asleep.wake =>
    obtain ⟨rfl, rfl⟩ := h
    split
    case isTrue hleader => exact .wake hd hleader
    case isFalse hleader =>
      split
      case isTrue hsome =>
        obtain ⟨maxAge, hage⟩ := Option.isSome_iff_exists.mp hsome
        exact .wakeReaper hd (Bool.eq_false_of_not_eq_true hleader) hage
      case isFalse => exact .sleep
  case listing.list =>
    obtain ⟨rfl, rfl⟩ := h
    exact .list hd
  case draining.read rest =>
    cases rest with
    | nil => simp at h
    | cons name rest =>
      cases hfile : node.dir.lookup name with
      | none =>
        simp only [hfile, Option.some.injEq, Prod.mk.injEq] at h
        obtain ⟨rfl, rfl⟩ := h
        exact .missing hd hfile
      | some bytes =>
        cases hread : C.read bytes with
        | ok batch =>
          simp only [hfile, hread, Option.some.injEq, Prod.mk.injEq] at h
          obtain ⟨rfl, rfl⟩ := h
          exact .load hd hfile hread
        | error e =>
          simp only [hfile, hread, Option.some.injEq, Prod.mk.injEq] at h
          obtain ⟨rfl, rfl⟩ := h
          exact .corrupt hd hfile hread
  case draining.finish rest =>
    cases rest with
    | nil =>
      simp only [Option.some.injEq, Prod.mk.injEq] at h
      obtain ⟨rfl, rfl⟩ := h
      exact .sleep
    | cons name rest => simp at h
  case unreadable.quarantine name rest renamed =>
    obtain ⟨rfl, rfl⟩ := h
    exact .quarantine renamed hd
  case loaded.gate name batch rest =>
    obtain ⟨rfl, rfl⟩ := h
    split
    case isTrue hleader => exact .pass hd hleader
    case isFalse => exact .sleep
  case gated.insert name batch gateEra rest =>
    obtain ⟨rfl, rfl⟩ := h
    exact .insert hd
  case gated.insertFails name batch gateEra rest landed =>
    obtain ⟨rfl, rfl⟩ := h
    exact .insertFails landed hd
  case stored.ack name batch rest =>
    obtain ⟨rfl, rfl⟩ := h
    exact .ack hd
  case reapListing.reapList nowMs =>
    obtain ⟨rfl, rfl⟩ := h
    exact .reapList nowMs hd
  case reaping.reap nowMs rest =>
    cases rest with
    | nil => simp at h
    | cons name rest =>
      simp only at h
      split at h
      · cases h
      · rename_i maxAge hage
        split at h <;> simp only [Option.some.injEq, Prod.mk.injEq] at h <;>
          obtain ⟨rfl, rfl⟩ := h
        case isTrue haged => exact .reap hd hage haged
        case isFalse => exact .sleep
  case reaping.finish nowMs rest =>
    cases rest with
    | nil =>
      simp only [Option.some.injEq, Prod.mk.injEq] at h
      obtain ⟨rfl, rfl⟩ := h
      exact .sleep
    | cons name rest => simp at h
  all_goals
    obtain ⟨rfl, rfl⟩ := h
    exact .sleep

/-- The process dies and is started again on the same directory. -/
def crash (node : Node) (pid : Nat) : Node :=
  { node with
    leader := false
    pid := pid
    counter := 0
    calls := fun _ => none
    drainer := .asleep }

end Node

structure Cluster (ι : Type) where
  nodes : ι → Node
  inserts : List (Insert ι)
  promotions : List ι

inductive ClusterAct where
  | call (t : Nat) (act : CallAct)
  | drain (act : DrainAct)
  | flip (leader : Bool)
  | crash (pid : Nat)

/-- Steps of one node, in order. -/
def onNode {ι : Type} (i : ι) (acts : List ClusterAct) : List (ι × ClusterAct) :=
  acts.map fun act => (i, act)

/-- The steps of one append. -/
def appendSteps (batch : Batch) (nowMs : Nat) : List CallAct :=
  [.start batch nowMs, .create, .write, .write, .write, .rename]

/-- The steps of a drain cycle that replays one file. -/
def drainSteps : List DrainAct := [.wake, .list, .read, .gate, .insert, .ack, .finish]

/-- The steps of one append in slot `t`. -/
def appendActs (t : Nat) (batch : Batch) (nowMs : Nat) : List ClusterAct :=
  (appendSteps batch nowMs).map (ClusterAct.call t)

namespace Cluster

variable {ι : Type} [DecidableEq ι]

/-- The number of promotions so far. -/
def era (s : Cluster ι) : Nat := s.promotions.length

/-- Write a node back and log what the database took from it. -/
def commit (s : Cluster ι) (i : ι) (node : Node) (taken : Option (Nat × WalName × Batch)) :
    Cluster ι :=
  { s with
    nodes := Function.update s.nodes i node
    inserts := s.inserts ++ taken.toList.map fun x => ⟨i, x.1, x.2.1, x.2.2⟩ }

def step (C : Codec) (s : Cluster ι) : ι × ClusterAct → Option (Cluster ι)
  | (i, .call t act) =>
    ((s.nodes i).callStep C s.era t act).map fun out => s.commit i out.1 out.2
  | (i, .drain act) => ((s.nodes i).drainStep C s.era act).map fun out => s.commit i out.1 out.2
  | (i, .flip leader) =>
    some { s.commit i { s.nodes i with leader } none with
      promotions :=
        if leader ∧ (s.nodes i).leader = false then s.promotions ++ [i] else s.promotions }
  | (i, .crash pid) => some (s.commit i ((s.nodes i).crash pid) none)

/-- Empty directories and no leader. -/
def start (followerMaxAge : ι → Option Nat) (pid : ι → Nat) : Cluster ι where
  nodes i := {
    leader := false
    followerMaxAge := followerMaxAge i
    pid := pid i
    counter := 0
    dir := ∅
    tmp := ∅
    calls := fun _ => none
    drainer := .asleep
    appended := []
    reaped := [] }
  inserts := []
  promotions := []

end Cluster

end OiTerminal.Storage
