import OiTerminal.Lib.ReplayQueue
import OiTerminal.Storage.WalNoLoss

/-!
# Replayed batches and later writes

One node takes calls and drain cycles against a database that may refuse any insert. The
appended batches are a replay queue: a batch is outstanding while its file is pending or a
task that holds it has not made its insert yet.
-/
namespace OiTerminal.Storage.WalReplay

open OiTerminal.Core OiTerminal.Storage.WalNoLoss
open OiTerminal.Storage.BarCodec (codecOf)
open OiTerminal.Lib.Transition OiTerminal.Lib.ReplayQueue

set_option autoImplicit false

abbrev Entry := WalName × Batch

/-- The key that the database keeps one row of. -/
def barKey (bar : OiSnapshot) : InstrumentId × Int := (bar.instrument, bar.bucketTs)

/-- The node, and the batches that the database took, in order. -/
structure State where
  node : Node
  inserts : List Entry

inductive Act where
  | call (t : Nat) (act : CallAct)
  | drain (act : DrainAct)

def nodeStep (C : Codec) (node : Node) : Act → Option (Node × Option (Nat × WalName × Batch))
  | .call t act => node.callStep C 0 t act
  | .drain act => node.drainStep C 0 act

/-- The batch that a step hands to the database, if the database takes it. -/
def inserting (C : Codec) (node : Node) (a : Act) : Option Entry :=
  (nodeStep C node a).bind fun out => out.2.map Prod.snd

def step (C : Codec) (s : State) (a : Act) : Option State :=
  (nodeStep C s.node a).map fun out =>
    ⟨out.1, s.inserts ++ (out.2.map Prod.snd).toList⟩

/-- A leader with an empty directory. -/
def start (pid : Nat) : State where
  node := {
    leader := true
    followerMaxAge := none
    pid := pid
    counter := 0
    dir := ∅
    tmp := ∅
    calls := fun _ => none
    drainer := .asleep
    appended := []
    reaped := [] }
  inserts := []

/-- The row that the database holds for a key is the last one that was inserted. Whenever
no file is pending, it is the one of the latest append that contained the key. -/
def LaterWins (s : State) : Prop :=
  s.node.dir.pending = [] → ∀ k : InstrumentId × Int,
    lastRow Prod.snd barKey k s.inserts = lastRow Prod.snd barKey k s.node.appended

def AboutToInsert : Stage → Prop
  | .appended | .gated _ => True
  | _ => False

/-- The batch that the drainer has read and not yet inserted. -/
def inHand : Drainer → Option Entry
  | .loaded name batch _ | .gated name batch _ _ => some (name, batch)
  | _ => none

/-- A call or the drainer has the batch and has not made its insert. -/
def Holds (node : Node) (e : Entry) : Prop :=
  (∃ t call, node.calls t = some call ∧ AboutToInsert call.stage ∧ (call.name, call.batch) = e) ∨
    inHand node.drainer = some e

def view (C : Codec) (node : Node) (inserts : List Entry) : View Entry where
  appended := node.appended
  inserted := inserts
  queued e := Pending C node e.1 e.2
  outstanding e := Pending C node e.1 e.2 ∨ Holds node e

/-- No batch is inserted while an older one with a common bar is pending or about to be
inserted. -/
def InOrder (C : Codec) (s : State) (a : Act) : Prop :=
  OldestFirst Prod.snd barKey (view C s.node s.inserts) (inserting C s.node a)

structure Inv (C : Codec) (s : State) : Prop where
  node : NodeInv C (fun name batch => (name, batch) ∈ s.inserts) s.node
  settled : ∀ e ∈ s.node.appended, Settled s.node e.1
  noReaper : s.node.followerMaxAge = none
  queue : Lib.ReplayQueue.Inv Prod.snd barKey (view C s.node s.inserts)

variable {C : Codec} {s : State} {node node' : Node} {inserts : List Entry} {t : Nat}
  {name : WalName} {batch : Batch} {e : Entry} {call : Option Call} {era : Nat}
  {taken : Option (Nat × WalName × Batch)}

/-- A file that is there belongs to an appended batch, so no call is about to create it. -/
theorem Inv.lookup_eq_none (h : Inv C s) {stage : Stage}
    (hcall : s.node.calls t = some ⟨name, batch, stage⟩) (hpre : PreRename stage) :
    s.node.dir.lookup name = none := by
  by_contra hsome
  obtain ⟨bytes, hbytes⟩ := Option.ne_none_iff_exists'.mp hsome
  obtain ⟨found, hread⟩ := h.node.files name bytes hbytes
  have happ : (name, found) ∈ s.node.appended :=
    h.queue.known (name, found) (.inl ⟨bytes, hbytes, hread⟩)
  exact (h.settled _ happ).created t _ hcall rfl hpre

theorem holds_setCall (hcalls : node'.calls = (node.setCall t call).calls)
    (hdrainer : node'.drainer = node.drainer) (h : Holds node' e) :
    Holds node e ∨ ∃ c, call = some c ∧ AboutToInsert c.stage ∧ (c.name, c.batch) = e := by
  rcases h with ⟨t', c, hc, hstage, he⟩ | hd
  · rw [hcalls] at hc
    rcases Node.setCall_cases hc with ⟨-, hnew⟩ | ⟨-, hold⟩
    · exact .inr ⟨c, hnew, hstage, he⟩
    · exact .inl (.inl ⟨t', c, hold, hstage, he⟩)
  · exact .inl (.inr (hdrainer ▸ hd))

theorem settled_setCall (h : Settled node name) (hpid : node'.pid = node.pid)
    (hcounter : node.counter ≤ node'.counter)
    (hcalls : node'.calls = (node.setCall t call).calls)
    (hnew : ∀ c, call = some c → c.name = name → ¬ PreRename c.stage) : Settled node' name where
  pid := h.pid.trans hpid.symm
  drawn := lt_of_lt_of_le h.drawn hcounter
  created t' c hc hname := by
    rw [hcalls] at hc
    rcases Node.setCall_cases hc with ⟨-, hcall⟩ | ⟨-, hold⟩
    · exact hnew c hcall hname
    · exact h.created t' c hold hname

/-- A step that leaves files and appends alone. -/
theorem advance_quiet {taken : Option Entry} (happ : node'.appended = node.appended)
    (hdir : node'.dir = node.dir)
    (hholds : ∀ e, Holds node' e → Pending C node e.1 e.2 ∨ Holds node e)
    (htaken : ∀ e ∈ taken, Holds node e) :
    Advance (view C node inserts) (view C node' (inserts ++ taken.toList)) none taken where
  appended := by simp [view, happ]
  inserted := rfl
  unused _ he := by cases he
  allowed e he := .inr (htaken e he)
  outstanding e he := by
    refine .inl (he.elim (fun hp => .inl ?_) (hholds e))
    obtain ⟨bytes, hb, hread⟩ := hp
    exact ⟨bytes, hdir ▸ hb, hread⟩
  queued e := by
    rintro ⟨bytes, hb, hread⟩
    exact .inl ⟨bytes, hdir ▸ hb, hread⟩

/-- A file may go once the batch it decodes to is inserted. -/
theorem advance_erase (happ : node'.appended = node.appended)
    (hdir : node'.dir = node.dir.erase name) (hholds : ∀ e, Holds node' e → Holds node e)
    (hgone : ∀ batch, Pending C node name batch → (name, batch) ∈ inserts) :
    Advance (view C node inserts) (view C node' (inserts ++ (none : Option Entry).toList))
      none none where
  appended := by simp [view, happ]
  inserted := rfl
  unused _ he := by cases he
  allowed _ he := by cases he
  outstanding e he := by
    refine .inl (he.imp (fun hpending => ?_) (hholds e))
    obtain ⟨bytes, hb, hread⟩ := hpending
    rw [hdir] at hb
    have hne : e.1 ≠ name := by
      intro heq
      rw [heq, AList.lookup_erase] at hb
      cases hb
    exact ⟨bytes, (AList.lookup_erase_ne hne).symm.trans hb, hread⟩
  queued e he := by
    by_cases hname : e.1 = name
    · subst hname
      exact .inr (List.mem_append_left _ (hgone e.2 he))
    · obtain ⟨bytes, hb, hread⟩ := he
      exact .inl ⟨bytes, by rw [hdir]; exact (AList.lookup_erase_ne hname).trans hb, hread⟩

/-- What a step of the node does to the queue. -/
structure StepSpec (C : Codec) (node node' : Node) (inserts : List Entry) (taken : Option Entry) :
    Prop where
  settled : ∀ x, Settled node x → Settled node' x
  noReaper : node'.followerMaxAge = node.followerMaxAge
  queue : ∃ fresh : Option Entry, (∀ e ∈ fresh, Settled node' e.1) ∧
    Advance (view C node inserts) (view C node' (inserts ++ taken.toList)) fresh taken

/-- A step that appends nothing. -/
theorem stepSpec_of_advance {taken : Option Entry}
    (hsettled : ∀ x, Settled node x → Settled node' x)
    (hreaper : node'.followerMaxAge = node.followerMaxAge)
    (hadvance : Advance (view C node inserts) (view C node' (inserts ++ taken.toList)) none taken) :
    StepSpec C node node' inserts taken :=
  ⟨hsettled, hreaper, none, fun e he => absurd he (Option.not_mem_none e), hadvance⟩

/-- What is left of a call after a step: nothing, or the same name and batch at a stage that
is no earlier with respect to the rename and to the insert. -/
def MovesOn (old : Call) (call : Option Call) : Prop :=
  ∀ c ∈ call, c.name = old.name ∧ c.batch = old.batch ∧
    (PreRename c.stage → PreRename old.stage) ∧ (AboutToInsert c.stage → AboutToInsert old.stage)

theorem movesOn_none (old : Call) : MovesOn old none :=
  fun c hc => absurd hc (Option.not_mem_none c)

theorem movesOn_stage {stage stage' : Stage} (hpre : PreRename stage' → PreRename stage)
    (hinsert : AboutToInsert stage' → AboutToInsert stage) :
    MovesOn ⟨name, batch, stage⟩ (some ⟨name, batch, stage'⟩) := by
  intro c hc
  obtain rfl := Option.some.inj hc
  exact ⟨rfl, rfl, hpre, hinsert⟩

/-- A step of one call that only moves the call on. -/
theorem stepSpec_call {old : Call} {taken : Option Entry} (hcall : node.calls t = some old)
    (hnode : node' = { node.setCall t call with tmp := node'.tmp })
    (hmoves : MovesOn old call)
    (htaken : ∀ e ∈ taken, AboutToInsert old.stage ∧ (old.name, old.batch) = e) :
    StepSpec C node node' inserts taken := by
  rw [hnode]
  refine stepSpec_of_advance (fun x hx => ?_) rfl ?_
  · refine settled_setCall hx rfl le_rfl rfl fun c hc hname hpre => ?_
    obtain ⟨hn, _, hp, _⟩ := hmoves c hc
    exact hx.created t old hcall (hn.symm.trans hname) (hp hpre)
  refine advance_quiet rfl rfl (fun e he => .inr ?_) fun e he => ?_
  · rcases holds_setCall rfl rfl he with hold | ⟨c, hc, hstage, he⟩
    · exact hold
    · obtain ⟨hn, hb, _, ha⟩ := hmoves c hc
      exact .inl ⟨t, old, hcall, ha hstage, by rw [← he, hn, hb]⟩
  · obtain ⟨hstage, he⟩ := htaken e he
    exact .inl ⟨t, old, hcall, hstage, he⟩

theorem stepSpec_call_idle {old : Call} (hcall : node.calls t = some old)
    (hnode : node' = { node.setCall t call with tmp := node'.tmp }) (hmoves : MovesOn old call) :
    StepSpec C node node' inserts none :=
  stepSpec_call hcall hnode hmoves fun e he => absurd he (Option.not_mem_none e)

/-- A new call draws a name that no appended batch has. -/
theorem stepSpec_begin {nowMs : Nat} {chunks : List Bytes} :
    StepSpec C node { node.setCall t
        (some ⟨⟨nowMs, node.pid, node.counter⟩, batch, .creating chunks⟩) with
      counter := node.counter + 1 } inserts none := by
  refine stepSpec_of_advance (fun x hx => ?_) rfl ?_
  · refine settled_setCall hx rfl (Nat.le_succ _) rfl fun c hc hname _ => ?_
    obtain rfl := Option.some.inj hc
    have hlt : x.n < node.counter := hx.drawn
    rw [← hname] at hlt
    exact Nat.lt_irrefl _ hlt
  refine advance_quiet rfl rfl (fun e he => .inr ?_) fun e he => absurd he (Option.not_mem_none e)
  rcases holds_setCall rfl rfl he with hold | ⟨c, hc, hstage, _⟩
  · exact hold
  · obtain rfl := Option.some.inj hc
    exact hstage.elim

/-- The rename makes the batch the newest of the queue. -/
theorem Inv.stepSpec_rename (h : Inv C s) {bytes : Bytes}
    (hcall : s.node.calls t = some ⟨name, batch, .writing []⟩)
    (hread : C.read bytes = .ok batch) :
    StepSpec C s.node { s.node.setCall t (some ⟨name, batch, .appended⟩) with
      tmp := s.node.tmp.erase name
      dir := s.node.dir.insert name bytes
      appended := s.node.appended ++ [(name, batch)] } s.inserts none where
  settled x hx := by
    refine settled_setCall hx rfl le_rfl rfl fun c hc _ hpre => ?_
    obtain rfl := Option.some.inj hc
    exact hpre
  noReaper := rfl
  queue := by
    have hfree : s.node.dir.lookup name = none := h.lookup_eq_none hcall trivial
    obtain ⟨hpid, hdrawn⟩ := h.node.drawn t _ hcall
    refine ⟨some (name, batch), fun e he => ?_, ?_⟩
    · obtain rfl := Option.some.inj he
      refine ⟨hpid, hdrawn, fun t' c hc hname => ?_⟩
      rcases calls_setCall hc with ⟨_, rfl⟩ | ⟨ht, hold⟩
      · exact fun hpre => hpre
      · exact absurd (h.node.distinct t' t c _ hold hcall hname) ht
    constructor
    case appended => rfl
    case inserted => rfl
    case unused =>
      intro e he
      obtain rfl := Option.some.inj he
      refine ⟨fun happ => ?_, ⟨bytes, AList.lookup_insert _, hread⟩⟩
      exact (h.settled _ happ).created t _ hcall rfl trivial
    case allowed => exact fun _ he => by cases he
    case outstanding =>
      rintro e (⟨found, hb, hr⟩ | hheld)
      · by_cases hname : e.1 = name
        · rw [hname] at hb
          obtain rfl := Option.some.inj ((AList.lookup_insert _).symm.trans hb)
          have hbatch : batch = e.2 := Except.ok.inj (hread.symm.trans hr)
          exact .inr (by rw [hbatch, ← hname]; rfl)
        · exact .inl (.inl ⟨found, (AList.lookup_insert_ne hname).symm.trans hb, hr⟩)
      · rcases holds_setCall rfl rfl hheld with hold | ⟨c, hc, _, he⟩
        · exact .inl (.inr hold)
        · obtain rfl := Option.some.inj hc
          exact .inr (by rw [← he]; rfl)
    case queued =>
      rintro e ⟨found, hb, hr⟩
      have hname : e.1 ≠ name := by
        rintro hname
        rw [hname, hfree] at hb
        cases hb
      exact .inl ⟨found, (AList.lookup_insert_ne hname).trans hb, hr⟩

theorem Inv.stepSpec_callStep (h : Inv C s) {act : CallAct}
    (hstep : s.node.callStep C era t act = some (node', taken)) :
    StepSpec C s.node node' s.inserts (taken.map Prod.snd) := by
  cases Node.callStep_spec hstep with
  | start nowMs _ _ _ => exact stepSpec_begin
  | create hcall => exact stepSpec_call_idle hcall rfl (movesOn_stage id id)
  | write hcall _ => exact stepSpec_call_idle hcall rfl (movesOn_stage id id)
  | rename hcall htmp =>
    obtain ⟨found, hfound, hread⟩ := h.node.stages t _ hcall
    obtain rfl := Option.some.inj (htmp.symm.trans hfound)
    exact h.stepSpec_rename hcall (by simpa using hread)
  | pass hcall _ => exact stepSpec_call_idle hcall rfl (movesOn_stage id fun _ => trivial)
  | insert hcall =>
    exact stepSpec_call hcall rfl (movesOn_stage id False.elim)
      fun e he => ⟨trivial, Option.some.inj he⟩
  | insertFails landed hcall =>
    refine stepSpec_call hcall rfl (movesOn_none _) fun e he => ⟨trivial, ?_⟩
    cases landed with
    | false => cases he
    | true => exact Option.some.inj he
  | @ack name batch hcall =>
    obtain ⟨hintact, hstored⟩ := h.node.stages t _ hcall
    have hsettled : ∀ x, Settled s.node x →
        Settled { s.node.setCall t none with dir := s.node.dir.erase name } x :=
      fun x hx => settled_setCall hx rfl le_rfl rfl fun c hc => absurd hc (by simp)
    refine stepSpec_of_advance hsettled rfl ?_
    refine advance_erase rfl rfl (fun e he => ?_) fun found hpending => ?_
    · rcases holds_setCall rfl rfl he with hold | ⟨c, hc, _⟩
      · exact hold
      · cases hc
    · obtain ⟨bytes, hb, hread⟩ := hpending
      obtain rfl := Except.ok.inj ((hintact bytes hb).symm.trans hread)
      exact hstored
  | leave hcall _ => exact stepSpec_call_idle hcall rfl (movesOn_none _)

/-- A step of the drainer that touches no file. -/
theorem stepSpec_drainer {d : Drainer} {taken : Option Entry}
    (hhand : ∀ e, inHand d = some e → Pending C node e.1 e.2 ∨ inHand node.drainer = some e)
    (htaken : ∀ e ∈ taken, inHand node.drainer = some e) :
    StepSpec C node { node with drainer := d } inserts taken := by
  refine stepSpec_of_advance (fun _ hx => ⟨hx.pid, hx.drawn, hx.created⟩) rfl ?_
  refine advance_quiet rfl rfl (fun e he => ?_) fun e he => .inr (htaken e he)
  rcases he with hcall | hd
  · exact .inr (.inl hcall)
  · exact (hhand e hd).imp_right .inr

theorem stepSpec_idle {d : Drainer} (hd : inHand d = none) :
    StepSpec C node { node with drainer := d } inserts none :=
  stepSpec_drainer (fun e he => by rw [hd] at he; cases he)
    fun e he => absurd he (Option.not_mem_none e)

/-- A step of the drainer that takes a file away. -/
theorem stepSpec_drop {rest : List WalName}
    (hgone : ∀ batch, Pending C node name batch → (name, batch) ∈ inserts) :
    StepSpec C node { node with dir := node.dir.erase name, drainer := .draining rest }
      inserts none := by
  refine stepSpec_of_advance (fun _ hx => ⟨hx.pid, hx.drawn, hx.created⟩) rfl ?_
  refine advance_erase rfl rfl (fun e he => ?_) hgone
  rcases he with hcall | hd
  · exact .inl hcall
  · cases hd

theorem Inv.stepSpec_drainStep (h : Inv C s) {act : DrainAct}
    (hstep : s.node.drainStep C era act = some (node', taken)) :
    StepSpec C s.node node' s.inserts (taken.map Prod.snd) := by
  have hd := h.node.drainer
  cases Node.drainStep_spec hstep with
  | wake _ _ | wakeReaper _ _ _ | list _ | missing _ _ | corrupt _ _ _ | reapList _ _ | sleep =>
    exact stepSpec_idle rfl
  | load hdrainer hfile hread =>
    refine stepSpec_drainer (fun e he => .inl ?_) fun e he => absurd he (Option.not_mem_none e)
    obtain rfl := Option.some.inj he
    exact ⟨_, hfile, hread⟩
  | @quarantine name rest renamed hdrainer =>
    rw [hdrainer] at hd
    cases renamed with
    | false => exact stepSpec_idle rfl
    | true =>
      -- the file was missing when it was read, and no call creates it any more
      refine stepSpec_drop fun batch hpending => ?_
      obtain ⟨bytes, hb, _⟩ := hpending
      rw [show s.node.dir.lookup name = none from hd.inHand] at hb
      cases hb
  | pass hdrainer _ =>
    refine stepSpec_drainer (fun e he => .inr ?_) fun e he => absurd he (Option.not_mem_none e)
    rw [hdrainer]
    exact he
  | insert hdrainer =>
    refine stepSpec_drainer (fun e he => by cases he) fun e he => ?_
    rw [hdrainer]
    exact he
  | insertFails landed hdrainer =>
    refine stepSpec_drainer (fun e he => by cases he) fun e he => ?_
    rw [hdrainer]
    cases landed with
    | false => cases he
    | true => exact he
  | ack hdrainer =>
    rw [hdrainer] at hd
    obtain ⟨hintact, hstored⟩ := hd.inHand
    refine stepSpec_drop fun found hpending => ?_
    obtain ⟨bytes, hb, hread⟩ := hpending
    obtain rfl := Except.ok.inj ((hintact bytes hb).symm.trans hread)
    exact hstored
  | reap _ hage _ =>
    rw [h.noReaper] at hage
    cases hage

/-- Within one process a rename is always onto a free name. -/
theorem Inv.freshRename (h : Inv C s) {act : CallAct} {out : Node × Option (Nat × WalName × Batch)}
    (hstep : s.node.callStep C era t act = some out) : FreshRename s.node t act := by
  cases act with
  | rename =>
    cases hcall : s.node.calls t with
    | none => simp [FreshRename, hcall]
    | some call =>
      obtain ⟨name, batch, stage⟩ := call
      cases stage with
      | writing chunks => simpa [FreshRename, hcall] using h.lookup_eq_none hcall trivial
      | _ => simp [Node.callStep, hcall] at hstep
  | _ => trivial

theorem Inv.advance (h : Inv C s) {taken : Option Entry}
    (hspec : StepSpec C s.node node' s.inserts taken)
    (hok : OldestFirst Prod.snd barKey (view C s.node s.inserts) taken)
    (hnode : NodeInv C (fun name batch => (name, batch) ∈ s.inserts ++ taken.toList) node') :
    Inv C ⟨node', s.inserts ++ taken.toList⟩ := by
  obtain ⟨fresh, hfresh, hadvance⟩ := hspec.queue
  refine ⟨hnode, fun e he => ?_, hspec.noReaper.trans h.noReaper, h.queue.advance hadvance hok⟩
  have happ : node'.appended = s.node.appended ++ fresh.toList := hadvance.appended
  rw [happ] at he
  rcases List.mem_append.mp he with hold | hnew
  · exact hspec.settled e.1 (h.settled e hold)
  · exact hfresh e (Option.mem_toList.mp hnew)

theorem inv_step {s' : State} {a : Act} (h : Inv C s) (hok : InOrder C s a)
    (hstep : step C s a = some s') : Inv C s' := by
  obtain ⟨⟨node', taken⟩, hout, rfl⟩ := Option.map_eq_some_iff.mp hstep
  have hins : inserting C s.node a = taken.map Prod.snd := by
    rw [inserting, hout]
    rfl
  have hmono : NodeInv C (fun name batch =>
      (name, batch) ∈ s.inserts ++ (taken.map Prod.snd).toList) s.node :=
    h.node.mono fun _ _ hx => List.mem_append_left _ hx
  have htaken : ∀ x, taken = some x →
      (x.2.1, x.2.2) ∈ s.inserts ++ (taken.map Prod.snd).toList := by
    intro x hx
    rw [hx]
    exact List.mem_append_right _ List.mem_cons_self
  rw [InOrder, hins] at hok
  cases a with
  | call t act =>
    exact h.advance (h.stepSpec_callStep hout) hok (hmono.callStep (h.freshRename hout) hout htaken)
  | drain act => exact h.advance (h.stepSpec_drainStep hout) hok (hmono.drainStep hout htaken)

theorem inv_start (C : Codec) (pid : Nat) : Inv C (start pid) where
  node :=
    { drawn := fun _ _ hc => by cases hc
      distinct := fun _ _ _ _ hc => by cases hc
      stages := fun _ _ hc => by cases hc
      files := fun _ _ hb => by cases hb
      kept := fun _ he => by cases he
      drainer := drainerInv_idle rfl trivial }
  settled _ he := by cases he
  noReaper := rfl
  queue := by
    refine inv_empty rfl rfl fun e he => ?_
    rcases he with ⟨_, hb, _⟩ | ⟨_, _, hc, _⟩ | hd
    · cases hb
    · cases hc
    · cases hd

theorem laterWins_of_inv (h : Inv C s) : LaterWins s := by
  intro hempty k
  refine h.queue.lastRow_eq (fun e hq => ?_) k
  obtain ⟨bytes, hb, _⟩ := hq
  have hmem : e.1 ∈ s.node.dir.pending := Dir.mem_pending.mpr ⟨bytes, hb⟩
  rw [hempty] at hmem
  cases hmem

/-- Whatever the database refuses, a replay never overwrites a later write of the same bar,
as long as no batch is inserted past an older one that shares a bar with it. -/
theorem laterWins_throughout (C : Codec) (pid : Nat) (acts : List Act)
    (hok : Along (step C) (InOrder C) (start pid) acts) :
    Throughout (step C) LaterWins (start pid) acts :=
  throughout_of_along (fun _ _ _ h hok hs => inv_step h hok hs) (fun _ => laterWins_of_inv)
    (inv_start C pid) hok

/-- A call in slot 0 that the database refuses, or takes. -/
def refusedCall (batch : Batch) (nowMs : Nat) : List Act :=
  List.map (.call 0) (appendSteps batch nowMs ++ [.gate, .insertFails false])

def directCall (batch : Batch) (nowMs : Nat) : List Act :=
  List.map (.call 0) (appendSteps batch nowMs ++ [.gate, .insert, .ack])

def drainCycle : List Act := drainSteps.map Act.drain

/-- No older batch at all shares a bar with the one that is inserted. -/
def NoOlder (C : Codec) (s : State) (a : Act) : Prop :=
  ∀ q ∈ inserting C s.node a, ∀ p ∈ s.node.appended,
    ¬ ([p, q].Sublist s.node.appended ∧ ∃ r ∈ p.2, ∃ r' ∈ q.2, barKey r = barKey r')

instance (C : Codec) (s : State) (a : Act) : Decidable (NoOlder C s a) :=
  inferInstanceAs (Decidable (∀ q ∈ inserting C s.node a, ∀ p ∈ s.node.appended,
    ¬ ([p, q].Sublist s.node.appended ∧ ∃ r ∈ p.2, ∃ r' ∈ q.2, barKey r = barKey r')))

theorem inOrder_of_noOlder (s : State) (a : Act) (h : NoOlder C s a) : InOrder C s a :=
  fun q hq p hbefore hoverlap => absurd ⟨hbefore, hoverlap⟩ (h q hq p hbefore.mem_left)

/-- A refused minute is queued, the next minute goes straight through, the first is
replayed. -/
theorem laterWins_throughout_two_minutes :
    Throughout (step (codecOf [batchAt 0, batchAt 60])) LaterWins (start 1)
      (refusedCall (batchAt 0) 1000 ++ directCall (batchAt 60) 1001 ++ drainCycle) :=
  laterWins_throughout _ _ _ (Along.mono inOrder_of_noOlder (by decide +kernel))

/-- A later bar of the same minute. -/
def correctedBatch : Batch := [.startFromSample (sampleAt 0 30)]

/-- A refused batch is queued, a later one of the same minute goes straight through, and the
replay of the first then replaces its row. -/
theorem replay_overwrites_later_write :
    ¬ ∀ (C : Codec) (pid : Nat) (acts : List Act),
      Throughout (step C) LaterWins (start pid) acts := by
  intro hall
  let C := codecOf [batchAt 0, correctedBatch]
  let acts := refusedCall (batchAt 0) 1000 ++ directCall correctedBatch 1001 ++ drainCycle
  let first : Entry := (⟨1000, 1, 0⟩, batchAt 0)
  let second : Entry := (⟨1001, 1, 1⟩, correctedBatch)
  have hrun : (run (step C) (start 1) acts).map
      (fun s => (s.node.dir.pending, s.inserts, s.node.appended)) =
      some ([], [second, first], [first, second]) := by decide +kernel
  obtain ⟨s, hs, hproj⟩ := Option.map_eq_some_iff.mp hrun
  obtain ⟨hpending, hrest⟩ := Prod.mk.inj hproj
  obtain ⟨hinserts, happended⟩ := Prod.mk.inj hrest
  have hheld := throughout_run (hall C 1 acts) hs hpending (⟨.bybit, "BTCUSDT"⟩, 0)
  rw [hinserts, happended] at hheld
  exact absurd hheld (by decide +kernel)

end OiTerminal.Storage.WalReplay
