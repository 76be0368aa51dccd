import Mathlib.Data.Fintype.Basic
import Mathlib.Algebra.Order.Ring.Int
import OiTerminal.Lib.Transition

/-!
# The leader lease

Each node runs a loop of ticks against one Redis key. A tick sends `SET NX PX` or the
refresh script, Redis executes it at one instant, and the flag changes when the answer
arrives. Instants are milliseconds. `granted` records when Redis executed the command
behind a node's flag and influences nothing.
-/
namespace OiTerminal.Replication.Failover

open OiTerminal.Lib.Transition

set_option autoImplicit false

structure LeaseConfig where
  ttl : Int
  refreshInterval : Int

/-- The defaults of `LeaseConfig::new`. -/
def LeaseConfig.new : LeaseConfig := ⟨15000, 5000⟩

inductive Command where
  | acquire
  | refreshIfOwned
  deriving DecidableEq

/-- Where the loop of a node stands. `held` is the flag that the tick was called with. -/
inductive Loop where
  | sleeping (wake : Int)
  | sent (held : Bool)
  | answered (held reply : Bool) (executedAt : Int)
  deriving DecidableEq

structure LeaseNode where
  isLeader : Bool
  loop : Loop

variable {ι : Type}

/-- The lease key: its value and the instant at which it expires. -/
abbrev Key (ι : Type) := Option (ι × Int)

/-- The value that a command finds. -/
def Key.get (key : Key ι) (now : Int) : Option ι :=
  match key with
  | some (owner, expiry) => if now < expiry then some owner else none
  | none => none

/-- The key names the node and expires no earlier than `expiry`. -/
def Owned (key : Key ι) (i : ι) (expiry : Int) : Prop := ∃ e, key = some (i, e) ∧ expiry ≤ e

theorem Owned.get {key : Key ι} {i : ι} {now expiry : Int} (h : Owned key i expiry)
    (hlive : now < expiry) : key.get now = some i := by
  obtain ⟨e, rfl, he⟩ := h
  exact if_pos (by omega)

variable [DecidableEq ι]

/-- Redis executes a command of node `i`: the key afterwards and the answer. -/
def exec (cfg : LeaseConfig) (key : Key ι) (now : Int) (i : ι) : Command → Key ι × Bool
  | .acquire => if key.get now = none then (some (i, now + cfg.ttl), true) else (key, false)
  | .refreshIfOwned =>
    if key.get now = some i then (some (i, now + cfg.ttl), true) else (key, false)

/-- The command that `tick` sends. -/
def tickCommand (currentlyLeader : Bool) : Command :=
  if currentlyLeader then .refreshIfOwned else .acquire

structure World (ι : Type) where
  now : Int
  key : Key ι
  nodes : ι → LeaseNode
  /-- Commands whose tick gave up. Redis may still execute them. -/
  orphans : List (ι × Command)
  granted : ι → Int

inductive Action (ι : Type) where
  | elapse (d : Int)
  | send (i : ι)
  | execute (i : ι)
  | reply (i : ι)
  | fail (i : ι)
  | orphan (k : Nat)
  | restart (i : ι)

namespace World

def setNode (w : World ι) (i : ι) (node : LeaseNode) : World ι :=
  { w with nodes := Function.update w.nodes i node }

/-- A tick that has been sent and not executed leaves its command behind. -/
def leftBehind (w : World ι) (i : ι) : List (ι × Command) :=
  match (w.nodes i).loop with
  | .sent held => [(i, tickCommand held)]
  | _ => []

end World

/-- No key, and all nodes are followers about to tick. -/
def start (now : Int) : World ι where
  now := now
  key := none
  nodes := fun _ => ⟨false, .sleeping now⟩
  orphans := []
  granted := fun _ => now

def step (cfg : LeaseConfig) (w : World ι) : Action ι → Option (World ι)
  | .elapse d => if 0 ≤ d then some { w with now := w.now + d } else none
  | .send i =>
    match (w.nodes i).loop with
    | .sleeping wake =>
      if wake ≤ w.now then
        some (w.setNode i { w.nodes i with loop := .sent (w.nodes i).isLeader })
      else none
    | _ => none
  | .execute i =>
    match (w.nodes i).loop with
    | .sent held =>
      let result := exec cfg w.key w.now i (tickCommand held)
      some { w.setNode i { w.nodes i with loop := .answered held result.2 w.now } with
        key := result.1 }
    | _ => none
  | .reply i =>
    match (w.nodes i).loop with
    | .answered held newState executedAt =>
      some { w.setNode i {
          isLeader := if newState ≠ held then newState else (w.nodes i).isLeader
          loop := .sleeping (w.now + cfg.refreshInterval) } with
        granted := if newState then Function.update w.granted i executedAt else w.granted }
    | _ => none
  | .fail i =>
    -- on a Redis error the node demotes itself, whatever Redis did or will do
    let demoted (held : Bool) : World ι :=
      { w.setNode i {
          isLeader := if held then false else (w.nodes i).isLeader
          loop := .sleeping (w.now + cfg.refreshInterval) } with
        orphans := w.leftBehind i ++ w.orphans }
    match (w.nodes i).loop with
    | .sent held => some (demoted held)
    | .answered held _ _ => some (demoted held)
    | .sleeping _ => none
  | .orphan k =>
    match w.orphans[k]? with
    | some (i, command) =>
      some { w with
        key := (exec cfg w.key w.now i command).1
        orphans := w.orphans.eraseIdx k }
    | none => none
  | .restart i =>
    some { w.setNode i ⟨false, .sleeping w.now⟩ with orphans := w.leftBehind i ++ w.orphans }

/-- At most one node's flag is up. -/
def MutualExclusion (w : World ι) : Prop :=
  ∀ i j, (w.nodes i).isLeader = true → (w.nodes j).isLeader = true → i = j

/-- Flags are revised in time: a flag stays up for less than the time to live after Redis
executed the command behind it, and a positive answer arrives within that time. -/
def Timely (cfg : LeaseConfig) (w : World ι) : Action ι → Prop
  | .elapse d => ∀ i, (w.nodes i).isLeader = true → w.now + d < w.granted i + cfg.ttl
  | .reply i =>
    match (w.nodes i).loop with
    | .answered _ true executedAt => w.now < executedAt + cfg.ttl
    | _ => True
  | _ => True

instance [Fintype ι] (cfg : LeaseConfig) (w : World ι) : ∀ a, Decidable (Timely cfg w a)
  | .elapse d => inferInstanceAs
      (Decidable (∀ i, (w.nodes i).isLeader = true → w.now + d < w.granted i + cfg.ttl))
  | .reply i =>
    match h : (w.nodes i).loop with
    | .answered _ true executedAt =>
      decidable_of_iff (w.now < executedAt + cfg.ttl) (by simp [Timely, h])
    | .answered _ false _ | .sleeping _ | .sent _ => isTrue (by simp [Timely, h])
  | .send _ | .execute _ | .fail _ | .orphan _ | .restart _ => isTrue trivial

variable {cfg : LeaseConfig} {w w' : World ι} {i j : ι}

/-! ## What a step can do -/

theorem elapse_cases {d : Int} (hstep : step cfg w (.elapse d) = some w') :
    0 ≤ d ∧ w' = { w with now := w.now + d } := by
  simp only [step, Option.ite_none_right_eq_some, Option.some.injEq] at hstep
  exact ⟨hstep.1, hstep.2.symm⟩

theorem send_cases (hstep : step cfg w (.send i) = some w') :
    ∃ wake, (w.nodes i).loop = .sleeping wake ∧ wake ≤ w.now ∧
      w' = w.setNode i { w.nodes i with loop := .sent (w.nodes i).isLeader } := by
  simp only [step] at hstep
  split at hstep
  · rename_i wake hloop
    simp only [Option.ite_none_right_eq_some, Option.some.injEq] at hstep
    exact ⟨wake, hloop, hstep.1, hstep.2.symm⟩
  · cases hstep

theorem execute_cases (hstep : step cfg w (.execute i) = some w') :
    ∃ held, (w.nodes i).loop = .sent held ∧ w' = { w.setNode i { w.nodes i with
        loop := .answered held (exec cfg w.key w.now i (tickCommand held)).2 w.now } with
      key := (exec cfg w.key w.now i (tickCommand held)).1 } := by
  simp only [step] at hstep
  split at hstep
  · rename_i held hloop
    exact ⟨held, hloop, (Option.some.inj hstep).symm⟩
  · cases hstep

theorem reply_cases (hstep : step cfg w (.reply i) = some w') :
    ∃ held newState executedAt, (w.nodes i).loop = .answered held newState executedAt ∧
      w' = { w.setNode i {
          isLeader := if newState ≠ held then newState else (w.nodes i).isLeader
          loop := .sleeping (w.now + cfg.refreshInterval) } with
        granted := if newState then Function.update w.granted i executedAt else w.granted } := by
  simp only [step] at hstep
  split at hstep
  · rename_i held newState executedAt hloop
    exact ⟨held, newState, executedAt, hloop, (Option.some.inj hstep).symm⟩
  · cases hstep

theorem fail_cases (hstep : step cfg w (.fail i) = some w') :
    ∃ held, ((w.nodes i).loop = .sent held ∨
        ∃ newState executedAt, (w.nodes i).loop = .answered held newState executedAt) ∧
      w' = { w.setNode i {
          isLeader := if held then false else (w.nodes i).isLeader
          loop := .sleeping (w.now + cfg.refreshInterval) } with
        orphans := w.leftBehind i ++ w.orphans } := by
  simp only [step] at hstep
  split at hstep
  · rename_i held hloop
    exact ⟨held, .inl hloop, (Option.some.inj hstep).symm⟩
  · rename_i held newState executedAt hloop
    exact ⟨held, .inr ⟨newState, executedAt, hloop⟩, (Option.some.inj hstep).symm⟩
  · cases hstep

theorem orphan_cases {k : Nat} (hstep : step cfg w (.orphan k) = some w') :
    ∃ i command, w.orphans[k]? = some (i, command) ∧ w' = { w with
      key := (exec cfg w.key w.now i command).1
      orphans := w.orphans.eraseIdx k } := by
  simp only [step] at hstep
  split at hstep
  · rename_i i command hk
    exact ⟨i, command, hk, (Option.some.inj hstep).symm⟩
  · cases hstep

theorem restart_cases (hstep : step cfg w (.restart i) = some w') :
    w' = { w.setNode i ⟨false, .sleeping w.now⟩ with orphans := w.leftBehind i ++ w.orphans } :=
  (Option.some.inj hstep).symm

/-! ## What a command does to the key -/

/-- No command takes the key from its owner before it expires, or shortens its life. -/
theorem Owned.exec {key : Key ι} {now t : Int} {command : Command} (h : Owned key j (t + cfg.ttl))
    (hlive : now < t + cfg.ttl) (hpast : t ≤ now) :
    Owned (exec cfg key now i command).1 j (t + cfg.ttl) := by
  have hget : key.get now = some j := h.get hlive
  cases command with
  | acquire =>
    simp only [Failover.exec, hget, reduceCtorEq, if_false]
    exact h
  | refreshIfOwned =>
    by_cases hij : j = i
    · subst hij
      simp only [Failover.exec, hget, if_true]
      exact ⟨now + cfg.ttl, rfl, by omega⟩
    · simp only [Failover.exec, hget, Option.some.injEq, hij, if_false]
      exact h

/-- A positive answer means that the node has just been given the key. -/
theorem exec_positive {key : Key ι} {now : Int} {command : Command}
    (h : (exec cfg key now i command).2 = true) :
    Owned (exec cfg key now i command).1 i (now + cfg.ttl) := by
  cases command with
  | acquire =>
    simp only [exec] at h ⊢
    split at h
    · rename_i hnone
      rw [if_pos hnone]
      exact ⟨now + cfg.ttl, rfl, le_refl _⟩
    · cases h
  | refreshIfOwned =>
    simp only [exec] at h ⊢
    split at h
    · rename_i hown
      rw [if_pos hown]
      exact ⟨now + cfg.ttl, rfl, le_refl _⟩
    · cases h

/-! ## The invariant -/

/-- In a timely run a flag that is up, or about to come up in time, has the key behind it. -/
structure Inv (cfg : LeaseConfig) (w : World ι) : Prop where
  past : ∀ i, w.granted i ≤ w.now
  flag : ∀ i, (w.nodes i).isLeader = true →
    w.now < w.granted i + cfg.ttl ∧ Owned w.key i (w.granted i + cfg.ttl)
  answer : ∀ i held t, (w.nodes i).loop = .answered held true t →
    t ≤ w.now ∧ (w.now < t + cfg.ttl → Owned w.key i (t + cfg.ttl))

omit [DecidableEq ι] in
theorem inv_start (now : Int) : Inv cfg (start now : World ι) where
  past _ := le_refl now
  flag _ h := by cases h
  answer _ _ _ h := by cases h

theorem setNode_self (node : LeaseNode) : (w.setNode i node).nodes i = node :=
  Function.update_self _ _ _

theorem setNode_ne (h : j ≠ i) (node : LeaseNode) : (w.setNode i node).nodes j = w.nodes j :=
  Function.update_of_ne h _ _

/-- Redis executing a command, of whichever node, keeps what the invariant says of the key. -/
theorem Inv.exec (h : Inv cfg w) (i : ι) (command : Command) :
    Inv cfg { w with key := (exec cfg w.key w.now i command).1 } where
  past := h.past
  flag j hj := by
    obtain ⟨hlive, hown⟩ := h.flag j hj
    exact ⟨hlive, hown.exec hlive (h.past j)⟩
  answer j held t hj := by
    obtain ⟨hpast, hown⟩ := h.answer j held t hj
    exact ⟨hpast, fun hlive => (hown hlive).exec hlive hpast⟩

/-- A node whose flag does not come up, and that awaits no answer, claims nothing. -/
theorem Inv.setNode (h : Inv cfg w) {node : LeaseNode} {orphans : List (ι × Command)}
    (hflag : node.isLeader = true → (w.nodes i).isLeader = true)
    (hloop : ∀ held t, node.loop = .answered held true t → t ≤ w.now ∧
      (w.now < t + cfg.ttl → Owned w.key i (t + cfg.ttl))) :
    Inv cfg { w.setNode i node with orphans := orphans } where
  past := h.past
  flag j hj := by
    by_cases hji : j = i
    · subst hji
      exact h.flag j (hflag (by rwa [setNode_self] at hj))
    · exact h.flag j (by rwa [setNode_ne hji] at hj)
  answer j held t hj := by
    by_cases hji : j = i
    · subst hji
      exact hloop held t (by rwa [setNode_self] at hj)
    · exact h.answer j held t (by rwa [setNode_ne hji] at hj)

/-- A tick that ends without a promotion: the node goes to sleep, and its flag is at most
what it was. -/
theorem Inv.sleep (h : Inv cfg w) {held : Bool} {wake : Int} {orphans : List (ι × Command)} :
    Inv cfg { w.setNode i ⟨if held then false else (w.nodes i).isLeader, .sleeping wake⟩ with
      orphans := orphans } := by
  refine h.setNode (fun hf => ?_) fun held' t' hl => by cases hl
  cases held with
  | true => cases hf
  | false => exact hf

/-- A positive answer that arrives in time raises the flag over a key that is still held. -/
theorem Inv.promote (h : Inv cfg w) {node : LeaseNode} {t : Int} {wake : Int}
    (hloop : node.loop = .sleeping wake) (hpast : t ≤ w.now) (hlive : w.now < t + cfg.ttl)
    (hown : Owned w.key i (t + cfg.ttl)) :
    Inv cfg { w.setNode i node with granted := Function.update w.granted i t } where
  past j := by
    show Function.update w.granted i t j ≤ w.now
    by_cases hji : j = i
    · subst hji
      rw [Function.update_self]
      exact hpast
    · rw [Function.update_of_ne hji]
      exact h.past j
  flag j hj := by
    show w.now < Function.update w.granted i t j + cfg.ttl ∧
      Owned w.key j (Function.update w.granted i t j + cfg.ttl)
    by_cases hji : j = i
    · subst hji
      rw [Function.update_self]
      exact ⟨hlive, hown⟩
    · rw [Function.update_of_ne hji]
      exact h.flag j (by rwa [setNode_ne hji] at hj)
  answer j held t' hj := by
    by_cases hji : j = i
    · subst hji
      rw [setNode_self, hloop] at hj
      cases hj
    · exact h.answer j held t' (by rwa [setNode_ne hji] at hj)

theorem inv_step {a : Action ι} (h : Inv cfg w) (hok : Timely cfg w a)
    (hstep : step cfg w a = some w') : Inv cfg w' := by
  cases a with
  | elapse d =>
    obtain ⟨hd, rfl⟩ := elapse_cases hstep
    refine ⟨fun i => ?_, fun i hi => ⟨hok i hi, (h.flag i hi).2⟩, fun i held t hi => ?_⟩
    · have hpast := h.past i
      show w.granted i ≤ w.now + d
      omega
    · obtain ⟨hpast, hown⟩ := h.answer i held t hi
      show t ≤ w.now + d ∧ (w.now + d < t + cfg.ttl → _)
      exact ⟨by omega, fun hlive => hown (by omega)⟩
  | send i =>
    obtain ⟨_, _, _, rfl⟩ := send_cases hstep
    exact h.setNode (fun hf => hf) fun held t hl => by cases hl
  | execute i =>
    obtain ⟨held, _, rfl⟩ := execute_cases hstep
    refine (h.exec i (tickCommand held)).setNode (fun hf => hf) fun held' t hl => ?_
    obtain ⟨_, hpos, rfl⟩ : held = held' ∧ _ = true ∧ w.now = t := by simpa using hl
    exact ⟨le_refl _, fun _ => exec_positive hpos⟩
  | reply i =>
    obtain ⟨held, newState, t, hloop, rfl⟩ := reply_cases hstep
    cases newState with
    | true =>
      have hlive : w.now < t + cfg.ttl := by simpa [Timely, hloop] using hok
      obtain ⟨hpast, hown⟩ := h.answer i held t hloop
      exact h.promote rfl hpast hlive (hown hlive)
    | false =>
      refine h.setNode (fun hf => ?_) fun held' t' hl => by cases hl
      cases held with
      | true => cases hf
      | false => exact hf
  | fail i =>
    obtain ⟨_, _, rfl⟩ := fail_cases hstep
    exact h.sleep
  | orphan k =>
    obtain ⟨i, command, _, rfl⟩ := orphan_cases hstep
    have hexec := h.exec i command
    exact ⟨hexec.past, hexec.flag, hexec.answer⟩
  | restart i =>
    obtain rfl := restart_cases hstep
    exact h.setNode (fun hf => by cases hf) fun held t hl => by cases hl

omit [DecidableEq ι] in
theorem mutualExclusion_of_inv (h : Inv cfg w) : MutualExclusion w := by
  intro i j hi hj
  obtain ⟨_, e, he, _⟩ := h.flag i hi
  obtain ⟨_, e', he', _⟩ := h.flag j hj
  rw [he] at he'
  exact (Prod.mk.inj (Option.some.inj he')).1

/-- In every run whose flags are revised in time no two nodes lead at once. -/
theorem mutualExclusion_throughout (cfg : LeaseConfig) (now : Int) (acts : List (Action ι))
    (htimely : Along (step cfg) (Timely cfg) (start now) acts) :
    Throughout (step cfg) MutualExclusion (start now) acts :=
  throughout_of_along (fun _ _ _ h hok hs => inv_step h hok hs) (fun _ => mutualExclusion_of_inv)
    (inv_start now) htimely

/-- A tick that goes through: the command, its execution and the answer. -/
def completeTick (i : ι) : List (Action ι) := [.send i, .execute i, .reply i]

/-- The first node leads, refreshes, loses Redis and demotes itself; the second takes over
when the key has expired. -/
theorem mutualExclusion_throughout_failover :
    Throughout (step .new) MutualExclusion (start 0)
      (completeTick false ++ completeTick true ++ [.elapse 5000] ++ completeTick false ++
        [.elapse 5000, .send false, .fail false, .elapse 15000] ++ completeTick true) :=
  mutualExclusion_throughout .new 0 _ (by decide)

/-- A leader that does not tick for the time to live keeps its flag while the second node
acquires the expired key. -/
theorem delayed_tick_two_leaders :
    ¬ ∀ (cfg : LeaseConfig) (acts : List (Action Bool)), cfg.refreshInterval < cfg.ttl →
      Throughout (step cfg) MutualExclusion (start 0) acts := by
  intro hall
  have hrun : ∃ w, run (step .new) (start 0)
      (completeTick false ++ [.elapse 15000] ++ completeTick true) = some w ∧
      (w.nodes false).isLeader = true ∧ (w.nodes true).isLeader = true := ⟨_, rfl, rfl, rfl⟩
  obtain ⟨w, hw, hfirst, hsecond⟩ := hrun
  have hexcl := throughout_run (hall .new _ (by decide)) hw
  exact absurd (hexcl false true hfirst hsecond) (by decide)

end OiTerminal.Replication.Failover
