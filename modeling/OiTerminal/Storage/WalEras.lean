import Mathlib.Data.Fintype.Basic
import OiTerminal.Storage.BarCodec
import OiTerminal.Storage.WalNode

/-!
# Who inserts in a leadership era

An era is the stretch between two promotions. With at most one flag up at a time an
insert is admitted in an era only on the node whose promotion began it. A node promoted
later replays what is still pending in its own log, so a minute may be inserted again in
another era; the table collapses the copies of a key.
-/
namespace OiTerminal.Storage.WalEras

open OiTerminal.Core OiTerminal.Lib.Transition
open OiTerminal.Storage.BarCodec (codecOf)

set_option autoImplicit false

variable {C : Codec} {node node' : Node} {era e t : Nat}
  {taken : Option (Nat × WalName × Batch)}

/-- A task of the node has passed the gate in era `e` and not yet inserted. -/
def Admitted (node : Node) (e : Nat) : Prop :=
  (∃ t call, node.calls t = some call ∧ call.stage = .gated e) ∨
    ∃ name batch rest, node.drainer = .gated name batch e rest

/-- What a step does to the gate: nothing is admitted but by a check on a leader, and the
database takes only what was admitted. -/
structure GateSpec (node node' : Node) (era : Nat) (taken : Option (Nat × WalName × Batch)) :
    Prop where
  leader : node'.leader = true → node.leader = true
  admitted : ∀ e, Admitted node' e → Admitted node e ∨ e = era ∧ node.leader = true
  taken : ∀ x, taken = some x → Admitted node x.1

/-- A step of a call changes its own slot and, to others, nothing that matters to the gate. -/
theorem admitted_setCall {call : Option Call} {node' : Node}
    (hcalls : node'.calls = (node.setCall t call).calls) (hdrainer : node'.drainer = node.drainer)
    (h : Admitted node' e) : Admitted node e ∨ ∃ c, call = some c ∧ c.stage = .gated e := by
  rcases h with ⟨t', c, hc, hstage⟩ | ⟨name, batch, rest, hd⟩
  · rw [hcalls] at hc
    rcases Node.setCall_cases hc with ⟨-, hnew⟩ | ⟨-, hold⟩
    · exact .inr ⟨c, hnew, hstage⟩
    · exact .inl (.inl ⟨t', c, hold, hstage⟩)
  · exact .inl (.inr ⟨name, batch, rest, hdrainer.symm.trans hd⟩)

/-- A step that moves the call to a stage before or after the gate. -/
theorem gateSpec_call {call : Option Call} (hleader : node'.leader = node.leader)
    (hcalls : node'.calls = (node.setCall t call).calls) (hdrainer : node'.drainer = node.drainer)
    (hcall : ∀ c, call = some c → ∀ e, c.stage ≠ .gated e)
    (htaken : ∀ x, taken = some x → Admitted node x.1) : GateSpec node node' era taken where
  leader h := hleader ▸ h
  admitted e h := by
    rcases admitted_setCall hcalls hdrainer h with hold | ⟨c, hc, hstage⟩
    · exact .inl hold
    · exact absurd hstage (hcall c hc e)
  taken := htaken

theorem gateSpec_callStep {act : CallAct} (h : node.callStep C era t act = some (node', taken)) :
    GateSpec node node' era taken := by
  cases Node.callStep_spec h with
  | start _ _ _ _ | create _ | write _ _ | rename _ _ =>
    exact gateSpec_call rfl rfl rfl (fun c hc e => by cases hc; simp) fun _ hx => by cases hx
  | pass _ hleader =>
    refine ⟨id, fun e he => ?_, fun _ hx => by cases hx⟩
    rcases admitted_setCall rfl rfl he with hold | ⟨c, hc, hstage⟩
    · exact .inl hold
    · cases hc
      cases hstage
      exact .inr ⟨rfl, hleader⟩
  | insert hcall =>
    refine gateSpec_call rfl rfl rfl (fun c hc e => by cases hc; simp) fun x hx => ?_
    cases hx
    exact .inl ⟨t, _, hcall, rfl⟩
  | insertFails landed hcall =>
    refine gateSpec_call rfl rfl rfl (fun c hc => by cases hc) fun x hx => ?_
    cases landed <;> cases hx
    exact .inl ⟨t, _, hcall, rfl⟩
  | ack _ | leave _ _ =>
    exact gateSpec_call rfl rfl rfl (fun c hc => by cases hc) fun _ hx => by cases hx

/-- A step after which the drainer is not past the gate. -/
theorem gateSpec_drainer (hleader : node'.leader = node.leader) (hcalls : node'.calls = node.calls)
    (hdrainer : ∀ name batch e rest, node'.drainer ≠ .gated name batch e rest)
    (htaken : ∀ x, taken = some x → Admitted node x.1) : GateSpec node node' era taken where
  leader h := hleader ▸ h
  admitted e h := by
    rcases h with ⟨t, c, hc, hstage⟩ | ⟨name, batch, rest, hd⟩
    · exact .inl (.inl ⟨t, c, hcalls ▸ hc, hstage⟩)
    · exact absurd hd (hdrainer name batch e rest)
  taken := htaken

theorem gateSpec_drainStep {act : DrainAct} (h : node.drainStep C era act = some (node', taken)) :
    GateSpec node node' era taken := by
  cases Node.drainStep_spec h with
  | pass _ hleader =>
    refine ⟨id, fun e he => ?_, fun _ hx => by cases hx⟩
    rcases he with ⟨t, c, hc, hstage⟩ | ⟨name', batch', rest', hd⟩
    · exact .inl (.inl ⟨t, c, hc, hstage⟩)
    · cases hd
      exact .inr ⟨rfl, hleader⟩
  | insert hdrainer =>
    refine gateSpec_drainer rfl rfl (fun _ _ _ _ hd => by cases hd) fun x hx => ?_
    cases hx
    exact .inr ⟨_, _, _, hdrainer⟩
  | insertFails landed hdrainer =>
    refine gateSpec_drainer rfl rfl (fun _ _ _ _ hd => by cases hd) fun x hx => ?_
    cases landed <;> cases hx
    exact .inr ⟨_, _, _, hdrainer⟩
  | _ => exact gateSpec_drainer rfl rfl (fun _ _ _ _ hd => by cases hd) fun _ hx => by cases hx

section Cluster

variable {ι : Type} [DecidableEq ι] {s s' : Cluster ι} {i j : ι}

/-- A node is promoted only when no other flag is up. -/
def Exclusive (s : Cluster ι) : ι × ClusterAct → Prop
  | (i, .flip true) => ∀ j, (s.nodes j).leader = true → j = i
  | _ => True

instance [Fintype ι] (s : Cluster ι) : ∀ a, Decidable (Exclusive s a)
  | (i, .flip true) => inferInstanceAs (Decidable (∀ j, (s.nodes j).leader = true → j = i))
  | (_, .flip false) | (_, .call _ _) | (_, .drain _) | (_, .crash _) => isTrue trivial

/-- The batch holds a bar of the exchange's minute. -/
def Carries (batch : Batch) (minute : Exchange × Int) : Prop :=
  ∃ bar ∈ batch, (bar.instrument.exchange, bar.bucketTs) = minute

/-- The database took a minute from one node only. -/
def OneWriter (s : Cluster ι) : Prop :=
  ∀ x ∈ s.inserts, ∀ y ∈ s.inserts, ∀ minute, Carries x.batch minute → Carries y.batch minute →
    x.node = y.node

/-- Where two nodes inserted a minute, a promotion lies between their gate checks. -/
def OneWriterPerEra (s : Cluster ι) : Prop :=
  ∀ x ∈ s.inserts, ∀ y ∈ s.inserts, ∀ minute, Carries x.batch minute → Carries y.batch minute →
    x.node ≠ y.node → x.era ≠ y.era

/-- The node whose promotion began the era. -/
def OwnsEra (s : Cluster ι) (i : ι) (e : Nat) : Prop := 0 < e ∧ s.promotions[e - 1]? = some i

structure Inv (s : Cluster ι) : Prop where
  exclusive : ∀ i j, (s.nodes i).leader = true → (s.nodes j).leader = true → i = j
  current : ∀ i, (s.nodes i).leader = true → OwnsEra s i s.era
  admitted : ∀ i e, Admitted (s.nodes i) e → OwnsEra s i e
  inserts : ∀ x ∈ s.inserts, OwnsEra s x.node x.era

omit [DecidableEq ι] in
theorem inv_start (followerMaxAge : ι → Option Nat) (pid : ι → Nat) :
    Inv (Cluster.start followerMaxAge pid) where
  exclusive _ _ h := by cases h
  current _ h := by cases h
  admitted _ _ h := by
    rcases h with ⟨_, _, hc, _⟩ | ⟨_, _, _, hd⟩
    · cases hc
    · cases hd
  inserts _ h := by cases h

theorem commit_self (node : Node) : (s.commit i node taken).nodes i = node :=
  Function.update_self _ _ _

theorem commit_ne (h : j ≠ i) (node : Node) : (s.commit i node taken).nodes j = s.nodes j :=
  Function.update_of_ne h _ _

/-- A step of one node's tasks is covered by the gate's specification. -/
theorem inv_commit (h : Inv s) (hspec : GateSpec (s.nodes i) node s.era taken) :
    Inv (s.commit i node taken) := by
  have hleader : ∀ j, ((s.commit i node taken).nodes j).leader = true →
      (s.nodes j).leader = true := by
    intro j hl
    by_cases hj : j = i
    · subst hj
      rw [commit_self] at hl
      exact hspec.leader hl
    · rwa [commit_ne hj] at hl
  refine ⟨fun j k hj hk => ?_, fun j hj => ?_, fun j e he => ?_, fun x hx => ?_⟩
  · exact h.exclusive j k (hleader j hj) (hleader k hk)
  · exact h.current j (hleader j hj)
  · by_cases hj : j = i
    · subst hj
      rw [commit_self] at he
      rcases hspec.admitted e he with hold | ⟨rfl, hl⟩
      · exact h.admitted j e hold
      · exact h.current j hl
    · rw [commit_ne hj] at he
      exact h.admitted j e he
  · rcases List.mem_append.mp hx with hold | hnew
    · exact h.inserts x hold
    · obtain ⟨y, hy, rfl⟩ := List.mem_map.mp hnew
      exact h.admitted i y.1 (hspec.taken y (Option.mem_toList.mp hy))

/-- A promotion begins an era and leaves the owners of the earlier ones as they are. -/
theorem inv_promote (h : Inv s) (hok : ∀ j, (s.nodes j).leader = true → j = i) :
    Inv { s.commit i { s.nodes i with leader := true } none with
      promotions := s.promotions ++ [i] } := by
  have hmono : ∀ j e, OwnsEra s j e →
      OwnsEra { s.commit i { s.nodes i with leader := true } none with
        promotions := s.promotions ++ [i] } j e := by
    rintro j e ⟨hpos, hget⟩
    have hlt : e - 1 < s.promotions.length := (List.getElem?_eq_some_iff.mp hget).1
    exact ⟨hpos, (List.getElem?_append_left hlt).trans hget⟩
  have hleader : ∀ j, ((s.commit i { s.nodes i with leader := true } none).nodes j).leader = true →
      j = i := by
    intro j hl
    by_cases hj : j = i
    · exact hj
    · rw [commit_ne hj] at hl
      exact hok j hl
  refine ⟨fun j k hj hk => (hleader j hj).trans (hleader k hk).symm, fun j hj => ?_,
    fun j e he => ?_, fun x hx => ?_⟩
  · obtain rfl := hleader j hj
    refine ⟨by simp [Cluster.era], ?_⟩
    simp [Cluster.era]
  · refine hmono j e (h.admitted j e ?_)
    by_cases hj : j = i
    · subst hj
      change Admitted ((s.commit j { s.nodes j with leader := true } none).nodes j) e at he
      rwa [commit_self] at he
    · change Admitted ((s.commit i { s.nodes i with leader := true } none).nodes j) e at he
      rwa [commit_ne hj] at he
  · exact hmono x.node x.era (h.inserts x (by simpa [Cluster.commit] using hx))

theorem inv_step {a : ι × ClusterAct} (h : Inv s) (hok : Exclusive s a)
    (hstep : s.step C a = some s') : Inv s' := by
  obtain ⟨i, act⟩ := a
  cases act with
  | call t act =>
    obtain ⟨⟨node, taken⟩, hout, rfl⟩ := Option.map_eq_some_iff.mp hstep
    exact inv_commit h (gateSpec_callStep hout)
  | drain act =>
    obtain ⟨⟨node, taken⟩, hout, rfl⟩ := Option.map_eq_some_iff.mp hstep
    exact inv_commit h (gateSpec_drainStep hout)
  | flip leader =>
    obtain rfl := Option.some.inj hstep
    by_cases hpromoted : leader = true ∧ (s.nodes i).leader = false
    · rw [if_pos hpromoted]
      obtain ⟨rfl, _⟩ := hpromoted
      exact inv_promote h hok
    · rw [if_neg hpromoted]
      refine inv_commit h ⟨fun hl => ?_, fun e he => .inl he, fun _ hx => by cases hx⟩
      cases hold : (s.nodes i).leader with
      | true => rfl
      | false => exact absurd ⟨hl, hold⟩ hpromoted
  | crash pid =>
    obtain rfl := Option.some.inj hstep
    have hnone : ∀ e, ¬ Admitted ((s.nodes i).crash pid) e := by
      rintro e (⟨_, _, hc, _⟩ | ⟨_, _, _, hd⟩)
      · cases hc
      · cases hd
    exact inv_commit h
      { leader := fun hl => by cases hl
        admitted := fun e he => absurd he (hnone e)
        taken := fun _ hx => by cases hx }

omit [DecidableEq ι] in
theorem oneWriterPerEra_of_inv (h : Inv s) : OneWriterPerEra s := by
  intro x hx y hy minute _ _ hne hera
  obtain ⟨_, hownx⟩ := h.inserts x hx
  obtain ⟨_, howny⟩ := h.inserts y hy
  rw [hera] at hownx
  exact hne (Option.some.inj (hownx.symm.trans howny))

/-- With at most one flag up at any time, two nodes never insert a minute in one era,
whatever the calls, drains, failures, promotions and crashes. -/
theorem oneWriterPerEra_throughout (C : Codec) (followerMaxAge : ι → Option Nat) (pid : ι → Nat)
    (acts : List (ι × ClusterAct))
    (hexcl : Along (Cluster.step C) Exclusive (Cluster.start followerMaxAge pid) acts) :
    Throughout (Cluster.step C) OneWriterPerEra (Cluster.start followerMaxAge pid) acts :=
  throughout_of_along (fun _ _ _ h hok hs => inv_step h hok hs) (fun _ => oneWriterPerEra_of_inv)
    (inv_start followerMaxAge pid) hexcl

end Cluster

/-- Both nodes append a minute, the leader stores its copy and crashes, the follower is
promoted and drains its own. -/
def failoverActs : List (Bool × ClusterAct) :=
  onNode false (.flip true :: appendActs 0 (batchAt 0) 1000 ++
    [.call 0 .gate, .call 0 .insert, .call 0 .ack]) ++
  onNode true (appendActs 0 (batchAt 0) 1001 ++ [.call 0 .gate]) ++
  onNode false [.crash 2] ++ onNode true (.flip true :: drainSteps.map ClusterAct.drain)

theorem oneWriterPerEra_throughout_failover :
    Throughout (Cluster.step (codecOf [batchAt 0, batchAt 60])) OneWriterPerEra
      (Cluster.start (fun _ => none) fun _ => 1) failoverActs :=
  oneWriterPerEra_throughout _ _ _ _ (by decide +kernel)

/-- In that run the minute is inserted by both nodes. -/
theorem promoted_follower_reinserts_minute :
    ¬ ∀ (C : Codec) (acts : List (Bool × ClusterAct)),
      Along (Cluster.step C) Exclusive (Cluster.start (fun _ => none) fun _ => 1) acts →
      Throughout (Cluster.step C) OneWriter (Cluster.start (fun _ => none) fun _ => 1) acts := by
  intro hall
  let C := codecOf [batchAt 0, batchAt 60]
  have hrun : (run (Cluster.step C) (Cluster.start (fun _ => none) fun _ => 1) failoverActs).map
      Cluster.inserts = some [⟨false, 1, ⟨1000, 1, 0⟩, batchAt 0⟩,
        ⟨true, 2, ⟨1001, 1, 0⟩, batchAt 0⟩] := by decide +kernel
  obtain ⟨s, hs, hins⟩ := Option.map_eq_some_iff.mp hrun
  have hone := throughout_run (hall C failoverActs (by decide +kernel)) hs
  have hcarries : Carries (batchAt 0) (.bybit, 0) := ⟨_, List.mem_singleton.mpr rfl, rfl⟩
  have hnode := hone _ (by rw [hins]; exact List.mem_cons_self) _
    (by rw [hins]; exact List.mem_cons_of_mem _ List.mem_cons_self) (.bybit, 0) hcarries hcarries
  exact absurd hnode (by decide)

end OiTerminal.Storage.WalEras
