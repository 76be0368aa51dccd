import OiTerminal.Replication.Failover

/-!
# The leadership flag and the lease key

`is_leader` is documented to be true iff the node currently holds the lease. The flag is
the last answer, so the question is when an answer still describes the key.
-/
namespace OiTerminal.Replication.LeaseFlag

open OiTerminal.Lib.Transition
open OiTerminal.Replication.Failover

set_option autoImplicit false

variable {ι : Type} [DecidableEq ι]

/-- When Redis executed the command behind a positive answer that is on its way. -/
def grantedAt : Loop → Option Int
  | .answered _ true executedAt => some executedAt
  | _ => none

/-- A negative answer is on its way. -/
def refused : Loop → Bool
  | .answered _ false _ => true
  | _ => false

/-- The flag is up exactly when the value of the key is the id of the node. -/
def FlagMatches (w : World ι) (i : ι) : Prop :=
  (w.nodes i).isLeader = true ↔ w.key.get w.now = some i

/-- A tick of node `i` that completes without error leaves flag and key in agreement. -/
def MatchesAfterTick (cfg : LeaseConfig) (i : ι) (w : World ι) (a : Action ι) : Prop :=
  a = .reply i → ∀ w', step cfg w a = some w' → FlagMatches w' i

/-- `SET NX` meets no key that is still the node's own, a positive answer arrives within
the time to live, and Redis executes no abandoned `SET NX` of the node while it is being
told that it lost. -/
def Informed (cfg : LeaseConfig) (i : ι) (w : World ι) : Action ι → Prop
  | .execute j => j = i → (w.nodes i).loop = .sent false → w.key.get w.now ≠ some i
  | .reply j => j = i → ∀ t ∈ grantedAt (w.nodes i).loop, w.now < t + cfg.ttl
  | .orphan k => w.orphans[k]? = some (i, .acquire) → refused (w.nodes i).loop = false
  | _ => True

instance (cfg : LeaseConfig) (i : ι) (w : World ι) : ∀ a, Decidable (Informed cfg i w a)
  | .execute j => inferInstanceAs
      (Decidable (j = i → (w.nodes i).loop = .sent false → w.key.get w.now ≠ some i))
  | .reply j => inferInstanceAs
      (Decidable (j = i → ∀ t ∈ grantedAt (w.nodes i).loop, w.now < t + cfg.ttl))
  | .orphan k => inferInstanceAs
      (Decidable (w.orphans[k]? = some (i, .acquire) → refused (w.nodes i).loop = false))
  | .elapse _ | .send _ | .fail _ | .restart _ => isTrue trivial

/-- The flag that the tick in progress was called with. -/
def heldBy : Loop → Option Bool
  | .sleeping _ => none
  | .sent held => some held
  | .answered held _ _ => some held

/-- The flag has not moved since the tick began, a positive answer has the key behind it
for the time to live, and a negative one has not been overtaken. -/
structure Inv (cfg : LeaseConfig) (i : ι) (w : World ι) : Prop where
  held : ∀ held ∈ heldBy (w.nodes i).loop, (w.nodes i).isLeader = held
  granted : ∀ t ∈ grantedAt (w.nodes i).loop,
    t ≤ w.now ∧ (w.now < t + cfg.ttl → Owned w.key i (t + cfg.ttl))
  refusal : refused (w.nodes i).loop = true → w.key.get w.now ≠ some i

variable {cfg : LeaseConfig} {w w' : World ι} {i j : ι}

omit [DecidableEq ι] in
/-- A key that names the node later names it now. -/
theorem get_of_later {key : Key ι} {now d : Int} (hd : 0 ≤ d)
    (h : key.get (now + d) = some i) : key.get now = some i := by
  cases key with
  | none => cases h
  | some entry =>
    obtain ⟨owner, expiry⟩ := entry
    simp only [Key.get, Option.ite_none_right_eq_some] at h ⊢
    exact ⟨by omega, h.2⟩

/-- Only its own `SET NX` gives the key to a node that does not have it. -/
theorem exec_get_ne {key : Key ι} {now : Int} {command : Command} (h : key.get now ≠ some i)
    (hown : j = i → command = .refreshIfOwned) :
    (exec cfg key now j command).1.get now ≠ some i := by
  cases command with
  | acquire =>
    have hji : j ≠ i := fun hji => by cases hown hji
    simp only [exec]
    split
    · intro hget
      simp only [Key.get, Option.ite_none_right_eq_some, Option.some.injEq] at hget
      exact hji hget.2
    · exact h
  | refreshIfOwned =>
    simp only [exec]
    split
    · rename_i hj
      intro hget
      simp only [Key.get, Option.ite_none_right_eq_some, Option.some.injEq] at hget
      exact h (hget.2 ▸ hj)
    · exact h

/-- A node that is refused does not have the key, unless `SET NX` met its own. -/
theorem exec_negative {key : Key ι} {now : Int} {held : Bool}
    (hown : held = false → key.get now ≠ some i)
    (h : (exec cfg key now i (tickCommand held)).2 = false) :
    (exec cfg key now i (tickCommand held)).1.get now ≠ some i := by
  cases held with
  | true =>
    simp only [tickCommand, if_true, exec] at h ⊢
    split at h
    · cases h
    · rename_i hkey
      rw [if_neg hkey]
      exact hkey
  | false =>
    simp only [tickCommand, Bool.false_eq_true, if_false, exec] at h ⊢
    split at h
    · cases h
    · rename_i hkey
      rw [if_neg hkey]
      exact hown rfl

omit [DecidableEq ι] in
/-- A node that sleeps awaits no answer. -/
theorem inv_of_sleeping {wake : Int} (h : (w.nodes i).loop = .sleeping wake) : Inv cfg i w where
  held b hb := by simp [h, heldBy] at hb
  granted t ht := by simp [h, grantedAt] at ht
  refusal hr := by simp [h, refused] at hr

omit [DecidableEq ι] in
/-- What happens to the other nodes changes nothing. -/
theorem Inv.congr (h : Inv cfg i w) (hnow : w'.now = w.now) (hkey : w'.key = w.key)
    (hnode : w'.nodes i = w.nodes i) : Inv cfg i w' where
  held := by rw [hnode]; exact h.held
  granted := by rw [hnode, hnow, hkey]; exact h.granted
  refusal := by rw [hnode, hnow, hkey]; exact h.refusal

theorem Inv.exec (h : Inv cfg i w) {command : Command}
    (hown : j = i → refused (w.nodes i).loop = true → command = .refreshIfOwned) :
    Inv cfg i { w with key := (exec cfg w.key w.now j command).1 } where
  held := h.held
  granted t ht := by
    obtain ⟨hpast, hkey⟩ := h.granted t ht
    exact ⟨hpast, fun hlive => (hkey hlive).exec hlive hpast⟩
  refusal hr := exec_get_ne (h.refusal hr) fun hji => hown hji hr

/-- The answer is made while Redis executes the command. -/
theorem Inv.answered (h : Inv cfg i w) {held : Bool} (hloop : (w.nodes i).loop = .sent held)
    (hown : held = false → w.key.get w.now ≠ some i) :
    Inv cfg i { w.setNode i { w.nodes i with
        loop := .answered held (Failover.exec cfg w.key w.now i (tickCommand held)).2 w.now } with
      key := (Failover.exec cfg w.key w.now i (tickCommand held)).1 } where
  held b hb := by
    simp only [setNode_self, heldBy, Option.mem_some_iff] at hb ⊢
    exact hb ▸ h.held held (by simp [hloop, heldBy])
  granted t ht := by
    simp only [setNode_self] at ht
    cases hpos : (Failover.exec cfg w.key w.now i (tickCommand held)).2 with
    | true =>
      obtain rfl : w.now = t := by simpa [hpos, grantedAt] using ht
      exact ⟨le_refl _, fun _ => exec_positive hpos⟩
    | false => simp [hpos, grantedAt] at ht
  refusal hr := by
    simp only [setNode_self] at hr
    cases hneg : (Failover.exec cfg w.key w.now i (tickCommand held)).2 with
    | true => simp [hneg, refused] at hr
    | false => exact exec_negative hown hneg

/-- When a node goes to sleep it awaits no answer, and the others are as they were. -/
theorem Inv.sleep (h : Inv cfg i w) {node : LeaseNode} {wake : Int}
    (hloop : node.loop = .sleeping wake) {orphans : List (ι × Command)} {granted : ι → Int} :
    Inv cfg i { w.setNode j node with orphans, granted } := by
  by_cases hij : i = j
  · subst hij
    exact inv_of_sleeping ((congrArg LeaseNode.loop (setNode_self node)).trans hloop)
  · exact h.congr rfl rfl (setNode_ne hij _)

theorem inv_step {a : Action ι} (h : Inv cfg i w) (hok : Informed cfg i w a)
    (hstep : step cfg w a = some w') : Inv cfg i w' := by
  cases a with
  | elapse d =>
    obtain ⟨hd, rfl⟩ := elapse_cases hstep
    refine ⟨h.held, fun t ht => ?_, fun hr hget => h.refusal hr (get_of_later hd hget)⟩
    obtain ⟨hpast, hkey⟩ := h.granted t ht
    show t ≤ w.now + d ∧ (w.now + d < t + cfg.ttl → _)
    exact ⟨by omega, fun hlive => hkey (by omega)⟩
  | send j =>
    obtain ⟨_, _, _, rfl⟩ := send_cases hstep
    by_cases hij : i = j
    · subst hij
      refine ⟨fun b hb => ?_, fun t ht => ?_, fun hr => ?_⟩
      · simpa [setNode_self, heldBy] using hb
      · simp [setNode_self, grantedAt] at ht
      · simp [setNode_self, refused] at hr
    · exact h.congr rfl rfl (setNode_ne hij _)
  | execute j =>
    obtain ⟨held, hloop, rfl⟩ := execute_cases hstep
    by_cases hij : i = j
    · subst hij
      exact h.answered hloop fun hheld => hok rfl (hheld ▸ hloop)
    · exact (h.exec fun hji => absurd hji.symm hij).congr rfl rfl (setNode_ne hij _)
  | reply j =>
    obtain ⟨_, _, _, _, rfl⟩ := reply_cases hstep
    exact h.sleep rfl
  | fail j =>
    obtain ⟨_, _, rfl⟩ := fail_cases hstep
    exact h.sleep rfl
  | orphan k =>
    obtain ⟨j, command, hk, rfl⟩ := orphan_cases hstep
    refine (h.exec fun hji hr => ?_ : Inv cfg i { w with
      key := (exec cfg w.key w.now j command).1 }).congr rfl rfl rfl
    subst hji
    cases command with
    | acquire => exact absurd hr (by rw [hok hk]; decide)
    | refreshIfOwned => rfl
  | restart j =>
    obtain rfl := restart_cases hstep
    exact h.sleep rfl

/-- After an answer the flag is the answer. -/
theorem isLeader_reply (h : Inv cfg i w) {held reply : Bool} {executedAt : Int}
    (hloop : (w.nodes i).loop = .answered held reply executedAt)
    (hstep : step cfg w (.reply i) = some w') : (w'.nodes i).isLeader = reply := by
  have hheld : (w.nodes i).isLeader = held := h.held held (by simp [hloop, heldBy])
  simp only [step, hloop, Option.some.injEq] at hstep
  subst hstep
  show ((w.setNode i _).nodes i).isLeader = reply
  rw [setNode_self, hheld]
  cases held <;> cases reply <;> rfl

theorem matches_reply {a : Action ι} (h : Inv cfg i w) (hok : Informed cfg i w a) :
    MatchesAfterTick cfg i w a := by
  intro ha w' hstep
  subst ha
  have hsame : w'.key = w.key ∧ w'.now = w.now := by
    obtain ⟨_, _, _, _, rfl⟩ := reply_cases hstep
    exact ⟨rfl, rfl⟩
  unfold FlagMatches
  rw [hsame.1, hsame.2]
  obtain ⟨held, reply, executedAt, hloop, _⟩ := reply_cases hstep
  rw [isLeader_reply h hloop hstep]
  cases reply with
  | true =>
    have hmem : executedAt ∈ grantedAt (w.nodes i).loop := by simp [hloop, grantedAt]
    have hlive : w.now < executedAt + cfg.ttl := hok rfl _ hmem
    have hown := (h.granted _ hmem).2 hlive
    exact ⟨fun _ => hown.get hlive, fun _ => rfl⟩
  | false =>
    have hother := h.refusal (by simp [hloop, refused])
    exact ⟨fun hf => (Bool.false_ne_true hf).elim, fun hget => absurd hget hother⟩

/-- Where the answers of a node describe the key when they arrive, every tick that
completes leaves the flag in agreement with the key. -/
theorem flag_matches_lease (cfg : LeaseConfig) (i : ι) (now : Int) (acts : List (Action ι))
    (hok : Along (step cfg) (Informed cfg i) (start now) acts) :
    Along (step cfg) (MatchesAfterTick cfg i) (start now) acts :=
  along_of_along (fun _ _ _ h hinf hs => inv_step h hinf hs)
    (fun _ _ _ h hinf _ => matches_reply h hinf) (inv_of_sleeping rfl) hok

/-- The node leads and refreshes, loses an answer, finds its lease expired and taken by the
other node, and returns after a restart. -/
theorem flag_matches_lease_failover :
    Along (step .new) (MatchesAfterTick .new false) (start 0)
      (completeTick false ++ [.elapse 5000] ++ completeTick false ++
        [.elapse 5000, .send false, .execute false, .fail false, .elapse 15000] ++
        completeTick true ++ completeTick false ++ [.restart false, .elapse 15000] ++
        completeTick false) :=
  flag_matches_lease .new false 0 _ (by decide)

/-- A node that restarts under its configured id while its lease lives is refused by its own
key: a follower, with the key naming it. -/
theorem restarted_owner_refused :
    ¬ ∀ (cfg : LeaseConfig) (acts : List (Action Bool)), cfg.refreshInterval < cfg.ttl →
      Along (step cfg) (MatchesAfterTick cfg false) (start 0) acts := by
  intro hall
  have hrun : ∃ w w', run (step .new) (start 0) (completeTick false ++
      [.restart false, .send false, .execute false]) = some w ∧
      step .new w (.reply false) = some w' ∧ ¬ FlagMatches w' false := by
    refine ⟨_, _, rfl, rfl, ?_⟩
    unfold FlagMatches
    decide
  obtain ⟨w, w', hw, hlast, hbad⟩ := hrun
  have hok := (hall .new (_ ++ .reply false :: []) (by decide)).of_run hw hlast
  exact hbad (hok rfl w' hlast)

end OiTerminal.Replication.LeaseFlag
