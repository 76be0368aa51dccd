import OiTerminal.Storage.BarCodec
import OiTerminal.Storage.WalNode

/-!
# No appended batch is lost

The invariant of one node relates its files to the calls in flight and to what the
drainer holds. Every step keeps it as long as no rename replaces a file that is still
there, and it says where each appended batch is.
-/
namespace OiTerminal.Storage.WalNoLoss

open OiTerminal.Lib.Transition
open OiTerminal.Storage.BarCodec (codecOf toVecNamed)

set_option autoImplicit false

/-- The file is not there, or it decodes to the batch. -/
def Intact (C : Codec) (dir : Dir) (name : WalName) (batch : Batch) : Prop :=
  ∀ bytes, dir.lookup name = some bytes → C.read bytes = .ok batch

/-- A pending file that decodes to exactly the batch. -/
def Pending (C : Codec) (node : Node) (name : WalName) (batch : Batch) : Prop :=
  ∃ bytes, node.dir.lookup name = some bytes ∧ C.read bytes = .ok batch

/-- The reaper deleted the batch's file when it was older than the configured age. -/
def WasReaped (C : Codec) (node : Node) (name : WalName) (batch : Batch) : Prop :=
  ∃ r ∈ node.reaped, r.name = name ∧ C.read r.bytes = .ok batch ∧
    ∃ maxAge, node.followerMaxAge = some maxAge ∧ r.name.Aged maxAge r.now

/-- Where an appended batch is, given what the database holds. -/
def Kept (C : Codec) (stored : WalName → Batch → Prop) (node : Node) (name : WalName)
    (batch : Batch) : Prop :=
  stored name batch ∨ Pending C node name batch ∨ WasReaped C node name batch

/-- The file of the call is not yet renamed into place. -/
def PreRename : Stage → Prop
  | .creating _ | .writing _ => True
  | _ => False

/-- The name was drawn by this process and no call will create it any more. -/
structure Settled (node : Node) (name : WalName) : Prop where
  pid : name.pid = node.pid
  drawn : name.n < node.counter
  created : ∀ t call, node.calls t = some call → call.name = name → ¬ PreRename call.stage

/-- A name the drainer relies on: the file is there, or it is gone for good. -/
def Held (node : Node) (name : WalName) : Prop :=
  (∃ bytes, node.dir.lookup name = some bytes) ∨ Settled node name

/-- The names that the drainer will still touch in this cycle. -/
def held : Drainer → List WalName
  | .draining rest => rest
  | .unreadable name rest | .loaded name _ rest | .gated name _ _ rest | .stored name _ rest =>
    name :: rest
  | _ => []

/-- What the drainer knows about the file in its hands. -/
def InHand (C : Codec) (stored : WalName → Batch → Prop) (dir : Dir) : Drainer → Prop
  | .unreadable name _ => dir.lookup name = none
  | .loaded name batch _ | .gated name batch _ _ => Intact C dir name batch
  | .stored name batch _ => Intact C dir name batch ∧ stored name batch
  | _ => True

structure DrainerInv (C : Codec) (stored : WalName → Batch → Prop) (node : Node) (d : Drainer) :
    Prop where
  nodup : (held d).Nodup
  names : ∀ name ∈ held d, Held node name
  inHand : InHand C stored node.dir d

/-- What a call knows about its file. -/
def StageInv (C : Codec) (stored : WalName → Batch → Prop) (node : Node) (name : WalName)
    (batch : Batch) : Stage → Prop
  | .creating chunks => C.read chunks.flatten = .ok batch
  | .writing chunks =>
    ∃ written, node.tmp.lookup name = some written ∧ C.read (written ++ chunks.flatten) = .ok batch
  | .appended | .gated _ => Intact C node.dir name batch
  | .stored => Intact C node.dir name batch ∧ stored name batch

structure NodeInv (C : Codec) (stored : WalName → Batch → Prop) (node : Node) : Prop where
  drawn : ∀ t call, node.calls t = some call →
    call.name.pid = node.pid ∧ call.name.n < node.counter
  distinct : ∀ t t' call call', node.calls t = some call → node.calls t' = some call' →
    call.name = call'.name → t = t'
  stages : ∀ t call, node.calls t = some call →
    StageInv C stored node call.name call.batch call.stage
  files : ∀ name bytes, node.dir.lookup name = some bytes → ∃ batch, C.read bytes = .ok batch
  kept : ∀ e ∈ node.appended, Kept C stored node e.1 e.2
  drainer : DrainerInv C stored node node.drainer

variable {C : Codec} {stored stored' : WalName → Batch → Prop} {node node' : Node} {t : Nat}
  {name : WalName} {batch : Batch} {d : Drainer}

/-- What the drainer relies on survives a change of the node that keeps names settled and
takes files away only under settled names. -/
theorem DrainerInv.transfer (h : DrainerInv C stored node d)
    (hstored : ∀ x b, stored x b → stored' x b)
    (hset : ∀ x, Settled node x → Settled node' x)
    (hdir : ∀ x ∈ held d, node'.dir.lookup x = node.dir.lookup x ∨
      node'.dir.lookup x = none ∧ Settled node' x) : DrainerInv C stored' node' d where
  nodup := h.nodup
  names x hx := by
    rcases h.names x hx with ⟨bytes, hb⟩ | hs
    · rcases hdir x hx with heq | ⟨_, hs⟩
      · exact .inl ⟨bytes, heq.trans hb⟩
      · exact .inr hs
    · exact .inr (hset x hs)
  inHand := by
    have hintact : ∀ x batch, x ∈ held d → Intact C node.dir x batch →
        Intact C node'.dir x batch := by
      intro x batch hx hi bytes hb
      rcases hdir x hx with heq | ⟨hnone, _⟩
      · exact hi bytes (heq.symm.trans hb)
      · rw [hnone] at hb
        cases hb
    cases d with
    | unreadable name rest =>
      rcases hdir name List.mem_cons_self with heq | ⟨hnone, _⟩
      · exact heq.trans h.inHand
      · exact hnone
    | loaded name batch rest => exact hintact name batch List.mem_cons_self h.inHand
    | gated name batch era rest => exact hintact name batch List.mem_cons_self h.inHand
    | stored name batch rest =>
      exact ⟨hintact name batch List.mem_cons_self h.inHand.1, hstored name batch h.inHand.2⟩
    | _ => trivial

/-- Likewise for a call, whose temporary file must stay as it is. -/
theorem StageInv.transfer {stage : Stage} (h : StageInv C stored node name batch stage)
    (hstored : ∀ x b, stored x b → stored' x b)
    (htmp : node'.tmp.lookup name = node.tmp.lookup name)
    (hdir : node'.dir.lookup name = node.dir.lookup name ∨ node'.dir.lookup name = none) :
    StageInv C stored' node' name batch stage := by
  have hintact : Intact C node.dir name batch → Intact C node'.dir name batch := by
    intro hi bytes hb
    rcases hdir with heq | hnone
    · exact hi bytes (heq.symm.trans hb)
    · rw [hnone] at hb
      cases hb
  cases stage with
  | creating chunks => exact h
  | writing chunks =>
    obtain ⟨written, hw, hread⟩ := h
    exact ⟨written, htmp.trans hw, hread⟩
  | appended => exact hintact h
  | gated era => exact hintact h
  | stored => exact ⟨hintact h.1, hstored name batch h.2⟩

/-- The database only grows. -/
theorem NodeInv.mono (h : NodeInv C stored node) (hstored : ∀ x b, stored x b → stored' x b) :
    NodeInv C stored' node where
  drawn := h.drawn
  distinct := h.distinct
  stages t call hc := (h.stages t call hc).transfer hstored rfl (.inl rfl)
  files := h.files
  kept e he := (h.kept e he).imp_left (hstored e.1 e.2)
  drainer := h.drainer.transfer hstored (fun _ hs => hs) fun _ _ => .inl rfl

/-- The calls after one slot is filled. -/
theorem calls_setCall {t' : Nat} {call new : Call}
    (h : (node.setCall t (some new)).calls t' = some call) :
    t' = t ∧ call = new ∨ t' ≠ t ∧ node.calls t' = some call := by
  rcases Node.setCall_cases h with ⟨ht, hnew⟩ | hold
  · exact .inl ⟨ht, (Option.some.inj hnew).symm⟩
  · exact .inr hold

theorem NodeInv.setDrainer (h : NodeInv C stored node) (hd : DrainerInv C stored node d) :
    NodeInv C stored { node with drainer := d } :=
  { h with
    stages := fun t call hc => (h.stages t call hc).transfer (fun _ _ hb => hb) rfl (.inl rfl)
    drainer := hd.transfer (fun _ _ hb => hb) (fun _ hs => ⟨hs.pid, hs.drawn, hs.created⟩)
      fun _ _ => .inl rfl }

/-- A finished call leaves its slot. -/
theorem NodeInv.endCall (h : NodeInv C stored node) (t : Nat) :
    NodeInv C stored (node.setCall t none) := by
  have hold : ∀ t' call, (node.setCall t none).calls t' = some call →
      node.calls t' = some call := by
    intro t' call hc
    rcases Node.setCall_cases hc with ⟨-, hnew⟩ | ⟨-, hkept⟩
    · cases hnew
    · exact hkept
  constructor
  case drawn => exact fun t' call hc => h.drawn t' call (hold t' call hc)
  case distinct =>
    exact fun t₁ t₂ c₁ c₂ h₁ h₂ => h.distinct t₁ t₂ c₁ c₂ (hold _ _ h₁) (hold _ _ h₂)
  case stages =>
    intro t' call hc
    exact (h.stages t' call (hold t' call hc)).transfer (fun _ _ hb => hb) rfl (.inl rfl)
  case files => exact h.files
  case kept => exact h.kept
  case drainer =>
    refine h.drainer.transfer (fun _ _ hb => hb) (fun x hs => ?_) fun _ _ => .inl rfl
    exact ⟨hs.pid, hs.drawn, fun t' call hc => hs.created t' call (hold t' call hc)⟩

/-- A call moves on without touching the pending files. Only its own temporary file
changes. -/
theorem NodeInv.advance (h : NodeInv C stored node) {old new : Stage} {tmp : Dir}
    (hcall : node.calls t = some ⟨name, batch, old⟩) (hpre : PreRename new → PreRename old)
    (htmp : ∀ x, x ≠ name → tmp.lookup x = node.tmp.lookup x)
    (hnew : StageInv C stored { node with tmp := tmp } name batch new) :
    NodeInv C stored { node.setCall t (some ⟨name, batch, new⟩) with tmp := tmp } := by
  constructor
  case drawn =>
    intro t' call hc
    rcases calls_setCall hc with ⟨rfl, rfl⟩ | ⟨_, hold⟩
    · exact h.drawn _ ⟨name, batch, old⟩ hcall
    · exact h.drawn t' call hold
  case distinct =>
    intro t₁ t₂ c₁ c₂ h₁ h₂ heq
    rcases calls_setCall h₁ with ⟨rfl, rfl⟩ | ⟨_, hold₁⟩ <;>
      rcases calls_setCall h₂ with ⟨rfl, rfl⟩ | ⟨_, hold₂⟩
    · rfl
    · exact h.distinct t₁ t₂ _ c₂ hcall hold₂ heq
    · exact h.distinct t₁ t₂ c₁ _ hold₁ hcall heq
    · exact h.distinct t₁ t₂ c₁ c₂ hold₁ hold₂ heq
  case stages =>
    intro t' call hc
    rcases calls_setCall hc with ⟨rfl, rfl⟩ | ⟨ht, hold⟩
    · exact hnew.transfer (fun _ _ hb => hb) rfl (.inl rfl)
    · have hne : call.name ≠ name := fun heq => ht (h.distinct t' t call _ hold hcall heq)
      exact (h.stages t' call hold).transfer (fun _ _ hb => hb) (htmp _ hne) (.inl rfl)
  case files => exact h.files
  case kept => exact h.kept
  case drainer =>
    refine h.drainer.transfer (fun _ _ hb => hb) (fun x hs => ?_) fun _ _ => .inl rfl
    refine ⟨hs.pid, hs.drawn, fun t' call hc hx => ?_⟩
    rcases calls_setCall hc with ⟨rfl, rfl⟩ | ⟨_, hold⟩
    · exact fun hp => hs.created t' _ hcall hx (hpre hp)
    · exact hs.created t' call hold hx

/-- A new call draws a name that this process has not used. -/
theorem NodeInv.begin (h : NodeInv C stored node) {nowMs : Nat} {chunks : List Bytes}
    (hfree : node.calls t = none) (hread : C.read chunks.flatten = .ok batch) :
    NodeInv C stored { node.setCall t
        (some ⟨⟨nowMs, node.pid, node.counter⟩, batch, .creating chunks⟩) with
      counter := node.counter + 1 } := by
  let fresh : Call := ⟨⟨nowMs, node.pid, node.counter⟩, batch, .creating chunks⟩
  have hnew : ∀ t' call, node.calls t' = some call → call.name ≠ fresh.name := by
    intro t' call hc heq
    have hlt : call.name.n < node.counter := (h.drawn t' call hc).2
    rw [heq] at hlt
    exact Nat.lt_irrefl _ hlt
  constructor
  case drawn =>
    intro t' call hc
    rcases calls_setCall hc with ⟨_, rfl⟩ | ⟨_, hold⟩
    · exact ⟨rfl, Nat.lt_succ_self _⟩
    · obtain ⟨hpid, hlt⟩ := h.drawn t' call hold
      exact ⟨hpid, Nat.lt_succ_of_lt hlt⟩
  case distinct =>
    intro t₁ t₂ c₁ c₂ h₁ h₂ heq
    rcases calls_setCall h₁ with ⟨rfl, rfl⟩ | ⟨_, hold₁⟩ <;>
      rcases calls_setCall h₂ with ⟨rfl, rfl⟩ | ⟨_, hold₂⟩
    · rfl
    · exact absurd heq.symm (hnew t₂ c₂ hold₂)
    · exact absurd heq (hnew t₁ c₁ hold₁)
    · exact h.distinct t₁ t₂ c₁ c₂ hold₁ hold₂ heq
  case stages =>
    intro t' call hc
    rcases calls_setCall hc with ⟨_, rfl⟩ | ⟨_, hold⟩
    · exact hread
    · exact (h.stages t' call hold).transfer (fun _ _ hb => hb) rfl (.inl rfl)
  case files => exact h.files
  case kept => exact h.kept
  case drainer =>
    refine h.drainer.transfer (fun _ _ hb => hb) (fun x hs => ?_) fun _ _ => .inl rfl
    refine ⟨hs.pid, Nat.lt_succ_of_lt hs.drawn, fun t' call hc hx => ?_⟩
    rcases calls_setCall hc with ⟨_, rfl⟩ | ⟨_, hold⟩
    · exact absurd hs.drawn (by rw [← hx]; exact Nat.lt_irrefl _)
    · exact hs.created t' call hold hx

/-- The rename publishes the file of a call under a name that is free. -/
theorem NodeInv.publish (h : NodeInv C stored node) {bytes : Bytes}
    (hcall : node.calls t = some ⟨name, batch, .appended⟩) (hfree : node.dir.lookup name = none)
    (hheld : name ∉ held node.drainer) (hread : C.read bytes = .ok batch) :
    NodeInv C stored { node with
      dir := node.dir.insert name bytes
      appended := node.appended ++ [(name, batch)] } := by
  have hother : ∀ x, x ≠ name → (node.dir.insert name bytes).lookup x = node.dir.lookup x :=
    fun x hx => AList.lookup_insert_ne hx
  constructor
  case drawn => exact h.drawn
  case distinct => exact h.distinct
  case stages =>
    intro t' call hc
    by_cases hname : call.name = name
    · obtain rfl : t' = t := h.distinct t' t call _ hc hcall hname
      obtain rfl := Option.some.inj (hcall.symm.trans hc)
      intro found hfound
      obtain rfl := Option.some.inj ((AList.lookup_insert node.dir).symm.trans hfound)
      exact hread
    · exact (h.stages t' call hc).transfer (fun _ _ hb => hb) rfl (.inl (hother _ hname))
  case files =>
    intro x found hfound
    by_cases hx : x = name
    · subst hx
      obtain rfl := Option.some.inj ((AList.lookup_insert node.dir).symm.trans hfound)
      exact ⟨batch, hread⟩
    · exact h.files x found ((hother x hx).symm.trans hfound)
  case kept =>
    intro e he
    rcases List.mem_append.mp he with hold | hnew
    · refine (h.kept e hold).imp_right fun hk => hk.imp_left fun ⟨found, hfound, hr⟩ => ?_
      have hne : e.1 ≠ name := by
        rintro rfl
        rw [hfree] at hfound
        cases hfound
      exact ⟨found, (hother e.1 hne).trans hfound, hr⟩
    · obtain rfl := List.mem_singleton.mp hnew
      exact .inr (.inl ⟨bytes, AList.lookup_insert node.dir, hread⟩)
  case drainer =>
    refine h.drainer.transfer (fun _ _ hb => hb) (fun _ hs => ⟨hs.pid, hs.drawn, hs.created⟩) ?_
    intro x hx
    exact .inl (hother x fun heq => hheld (heq ▸ hx))

/-- A file is taken away once its batch is stored, or by the reaper. -/
theorem NodeInv.erase (h : NodeInv C stored node) {reaped : List Reaped}
    (hgone : ∀ bytes batch, node.dir.lookup name = some bytes → C.read bytes = .ok batch →
      stored name batch ∨ WasReaped C { node with reaped := reaped } name batch)
    (hsub : node.reaped ⊆ reaped)
    (hd : DrainerInv C stored { node with dir := node.dir.erase name } d) :
    NodeInv C stored { node with
      dir := node.dir.erase name
      drainer := d
      reaped := reaped } := by
  have hnone : (node.dir.erase name).lookup name = none := AList.lookup_erase name node.dir
  have hother : ∀ x, x ≠ name → (node.dir.erase name).lookup x = node.dir.lookup x :=
    fun x hx => AList.lookup_erase_ne hx
  constructor
  case drawn => exact h.drawn
  case distinct => exact h.distinct
  case stages =>
    intro t call hc
    refine (h.stages t call hc).transfer (fun _ _ hb => hb) rfl ?_
    by_cases hname : call.name = name
    · exact .inr (hname ▸ hnone)
    · exact .inl (hother _ hname)
  case files =>
    intro x bytes hx
    have hne : x ≠ name := by
      rintro rfl
      rw [hnone] at hx
      cases hx
    exact h.files x bytes ((hother x hne).symm.trans hx)
  case kept =>
    intro e he
    rcases h.kept e he with hs | ⟨bytes, hb, hread⟩ | ⟨r, hr, hrest⟩
    · exact .inl hs
    · by_cases hname : e.1 = name
      · subst hname
        exact (hgone bytes e.2 hb hread).imp_right .inr
      · exact .inr (.inl ⟨bytes, (hother _ hname).trans hb, hread⟩)
    · exact .inr (.inr ⟨r, hsub hr, hrest⟩)
  case drainer =>
    exact hd.transfer (fun _ _ hb => hb) (fun _ hs => ⟨hs.pid, hs.drawn, hs.created⟩)
      fun _ _ => .inl rfl

/-- A rename is onto a free name. -/
def FreshRename (node : Node) (t : Nat) (act : CallAct) : Prop :=
  match act, node.calls t with
  | .rename, some call => node.dir.lookup call.name = none
  | _, _ => True

instance (node : Node) (t : Nat) (act : CallAct) : Decidable (FreshRename node t act) :=
  match act with
  | .rename =>
    match h : node.calls t with
    | some call => decidable_of_iff (node.dir.lookup call.name = none) (by simp [FreshRename, h])
    | none => isTrue (by simp [FreshRename, h])
  | .start _ _ | .create | .write | .appendFails | .gate | .insert | .insertFails _ | .ack
  | .ackFails => isTrue trivial

theorem NodeInv.rename (h : NodeInv C stored node) {bytes : Bytes}
    (hcall : node.calls t = some ⟨name, batch, .writing []⟩) (hfree : node.dir.lookup name = none)
    (htmp : node.tmp.lookup name = some bytes) :
    NodeInv C stored { node.setCall t (some ⟨name, batch, .appended⟩) with
      tmp := node.tmp.erase name
      dir := node.dir.insert name bytes
      appended := node.appended ++ [(name, batch)] } := by
  obtain ⟨written, hw, hread⟩ := h.stages t _ hcall
  obtain rfl : bytes = written := Option.some.inj (htmp.symm.trans hw)
  have hintact : Intact C node.dir name batch := fun found hfound => by
    rw [hfree] at hfound
    cases hfound
  have hmoved : NodeInv C stored { node.setCall t (some ⟨name, batch, .appended⟩) with
      tmp := node.tmp.erase name } :=
    h.advance hcall (fun hp => hp.elim) (fun x hx => AList.lookup_erase_ne hx) hintact
  refine hmoved.publish (t := t) (Node.setCall_self node t _) hfree (fun hmem => ?_)
    (by simpa using hread)
  -- a name that the drainer holds is there, or no call is about to create it
  rcases h.drainer.names name hmem with ⟨found, hfound⟩ | hs
  · rw [hfree] at hfound
    cases hfound
  · exact hs.created t _ hcall rfl trivial

/-- The file of a call whose batch is stored may go. -/
theorem NodeInv.ackCall (h : NodeInv C stored node)
    (hcall : node.calls t = some ⟨name, batch, .stored⟩) :
    NodeInv C stored { node.setCall t none with dir := node.dir.erase name } := by
  obtain ⟨hintact, hstored⟩ := h.stages t _ hcall
  obtain ⟨hpid, hdrawn⟩ := h.drawn t _ hcall
  have hsettled : Settled node name := ⟨hpid, hdrawn, fun t' call hc hname => by
    obtain rfl : t' = t := h.distinct t' t call _ hc hcall hname
    obtain rfl := Option.some.inj (hcall.symm.trans hc)
    exact fun hp => hp⟩
  have herased : NodeInv C stored { node with dir := node.dir.erase name } := by
    refine h.erase (fun bytes found hb hread => .inl ?_) (fun _ hr => hr) ?_
    · obtain rfl := Except.ok.inj ((hintact bytes hb).symm.trans hread)
      exact hstored
    · refine h.drainer.transfer (fun _ _ hb => hb)
        (fun _ hs => ⟨hs.pid, hs.drawn, hs.created⟩) fun x _ => ?_
      by_cases hx : x = name
      · subst hx
        exact .inr ⟨AList.lookup_erase x node.dir,
          ⟨hsettled.pid, hsettled.drawn, hsettled.created⟩⟩
      · exact .inl (AList.lookup_erase_ne hx)
  exact herased.endCall t

/-- Every step of a call keeps the invariant once the database's answer is counted. -/
theorem NodeInv.callStep (h : NodeInv C stored node) {era : Nat} {act : CallAct}
    {taken : Option (Nat × WalName × Batch)} (hfresh : FreshRename node t act)
    (hstep : node.callStep C era t act = some (node', taken))
    (htaken : ∀ x, taken = some x → stored x.2.1 x.2.2) : NodeInv C stored node' := by
  cases Node.callStep_spec hstep with
  | start nowMs hcall hencode hbatch => exact h.begin hcall (C.read_frame hencode)
  | create hcall =>
    exact h.advance hcall (fun _ => trivial) (fun x hx => AList.lookup_insert_ne hx)
      ⟨[], AList.lookup_insert node.tmp, h.stages t _ hcall⟩
  | write hcall htmp =>
    obtain ⟨found, hfound, hread⟩ := h.stages t _ hcall
    obtain rfl := Option.some.inj (htmp.symm.trans hfound)
    refine h.advance hcall (fun hp => hp) (fun x hx => AList.lookup_insert_ne hx)
      ⟨_, AList.lookup_insert node.tmp, ?_⟩
    simpa using hread
  | rename hcall htmp => exact h.rename hcall (by simpa only [FreshRename, hcall] using hfresh) htmp
  | pass hcall hleader =>
    exact h.advance hcall (fun hp => hp.elim) (fun _ _ => rfl) (h.stages t _ hcall)
  | insert hcall =>
    exact h.advance hcall (fun hp => hp.elim) (fun _ _ => rfl)
      ⟨h.stages t _ hcall, htaken _ rfl⟩
  | insertFails landed hcall => exact h.endCall t
  | ack hcall => exact h.ackCall hcall
  | leave hcall hact => exact h.endCall t

/-- The drainer goes on with the rest of its listing. -/
theorem DrainerInv.tail {rest : List WalName} (h : DrainerInv C stored node d)
    (hheld : held d = name :: rest) : DrainerInv C stored node (.draining rest) where
  nodup := (List.nodup_cons.mp (hheld ▸ h.nodup)).2
  names x hx := h.names x (hheld ▸ List.mem_cons_of_mem name hx)
  inHand := trivial

/-- Taking the file in hand away does not concern the rest of the listing. -/
theorem DrainerInv.eraseTail {rest : List WalName} (h : DrainerInv C stored node d)
    (hheld : held d = name :: rest) :
    DrainerInv C stored { node with dir := node.dir.erase name } (.draining rest) := by
  have hnd := List.nodup_cons.mp (hheld ▸ h.nodup)
  refine (h.tail hheld).transfer (fun _ _ hb => hb)
    (fun _ hs => ⟨hs.pid, hs.drawn, hs.created⟩) fun x hx => ?_
  have hne : x ≠ name := fun heq => hnd.1 (heq ▸ hx)
  exact .inl (AList.lookup_erase_ne hne)

theorem drainerInv_idle (hheld : held d = []) (hhand : InHand C stored node.dir d) :
    DrainerInv C stored node d where
  nodup := by rw [hheld]; exact List.nodup_nil
  names x hx := by rw [hheld] at hx; cases hx
  inHand := hhand

/-- Every step of the drainer keeps the invariant once the database's answer is counted. -/
theorem NodeInv.drainStep (h : NodeInv C stored node) {era : Nat} {act : DrainAct}
    {taken : Option (Nat × WalName × Batch)}
    (hstep : node.drainStep C era act = some (node', taken))
    (htaken : ∀ x, taken = some x → stored x.2.1 x.2.2) : NodeInv C stored node' := by
  have hd : DrainerInv C stored node node.drainer := h.drainer
  cases Node.drainStep_spec hstep with
  | wake _ _ | wakeReaper _ _ _ | insertFails _ _ | reapList _ _ | sleep =>
    exact h.setDrainer (drainerInv_idle rfl trivial)
  | list _ =>
    exact h.setDrainer ⟨Dir.pending_nodup _, fun x hx => .inl (Dir.mem_pending.mp hx), trivial⟩
  | missing hdrainer hfile =>
    rw [hdrainer] at hd
    exact h.setDrainer ⟨hd.nodup, hd.names, hfile⟩
  | corrupt _ hfile hread =>
    -- every pending file decodes, so an existing one is never taken for corrupt
    obtain ⟨batch, hdecodes⟩ := h.files _ _ hfile
    rw [hdecodes] at hread
    cases hread
  | load hdrainer hfile hread =>
    rw [hdrainer] at hd
    refine h.setDrainer ⟨hd.nodup, hd.names, fun found hfound => ?_⟩
    obtain rfl := Option.some.inj (hfile.symm.trans hfound)
    exact hread
  | @quarantine name rest renamed hdrainer =>
    rw [hdrainer] at hd
    cases renamed with
    | false => exact h.setDrainer (hd.tail rfl)
    | true =>
      refine h.erase (fun bytes batch hb _ => ?_) (fun _ hr => hr) (hd.eraseTail rfl)
      rw [show node.dir.lookup name = none from hd.inHand] at hb
      cases hb
  | pass hdrainer _ =>
    rw [hdrainer] at hd
    exact h.setDrainer ⟨hd.nodup, hd.names, hd.inHand⟩
  | insert hdrainer =>
    rw [hdrainer] at hd
    exact h.setDrainer ⟨hd.nodup, hd.names, hd.inHand, htaken _ rfl⟩
  | ack hdrainer =>
    rw [hdrainer] at hd
    obtain ⟨hintact, hstored⟩ := hd.inHand
    refine h.erase (fun bytes found hb hread => .inl ?_) (fun _ hr => hr) (hd.eraseTail rfl)
    obtain rfl := Except.ok.inj ((hintact bytes hb).symm.trans hread)
    exact hstored
  | @reap nowMs maxAge name rest _ hage haged =>
    refine h.erase (fun bytes batch hb hread => .inr ?_) (fun r hr => List.mem_append_right _ hr)
      (drainerInv_idle (d := .reaping nowMs rest) rfl trivial)
    exact ⟨⟨name, bytes, nowMs⟩, by simp [hb], rfl, hread, maxAge, hage, haged⟩

/-- The flag concerns no file. -/
theorem NodeInv.flip (h : NodeInv C stored node) (leader : Bool) :
    NodeInv C stored { node with leader := leader } :=
  { h with
    stages := fun t call hc => (h.stages t call hc).transfer (fun _ _ hb => hb) rfl (.inl rfl)
    drainer := h.drainer.transfer (fun _ _ hb => hb) (fun _ hs => ⟨hs.pid, hs.drawn, hs.created⟩)
      fun _ _ => .inl rfl }

/-- A crash leaves the files and the database; no task of the old process is left. -/
theorem NodeInv.crash (h : NodeInv C stored node) (pid : Nat) :
    NodeInv C stored (node.crash pid) where
  drawn _ _ hc := by cases hc
  distinct _ _ _ _ hc := by cases hc
  stages _ _ hc := by cases hc
  files := h.files
  kept := h.kept
  drainer := drainerInv_idle rfl trivial

section Cluster

variable {ι : Type} [DecidableEq ι]

/-- The database took the batch from some node. -/
def Stored (s : Cluster ι) (batch : Batch) : Prop := ∃ x ∈ s.inserts, x.batch = batch

/-- Every appended batch is in the database, pending on its node or reaped there. Two
nodes that appended a minute therefore both still hold it, unless it is stored or reaped. -/
structure NoLoss (C : Codec) (s : Cluster ι) : Prop where
  kept : ∀ i, ∀ e ∈ (s.nodes i).appended, Kept C (fun _ => Stored s) (s.nodes i) e.1 e.2
  pair : ∀ i j, ∀ e ∈ (s.nodes i).appended, ∀ e' ∈ (s.nodes j).appended,
    Stored s e.2 ∨ Stored s e'.2 ∨ WasReaped C (s.nodes i) e.1 e.2 ∨
      WasReaped C (s.nodes j) e'.1 e'.2 ∨
      Pending C (s.nodes i) e.1 e.2 ∧ Pending C (s.nodes j) e'.1 e'.2

/-- No rename of the run replaces a pending file. -/
def FreshNames (s : Cluster ι) : ι × ClusterAct → Prop
  | (i, .call t act) => FreshRename (s.nodes i) t act
  | _ => True

instance (s : Cluster ι) : ∀ a, Decidable (FreshNames s a)
  | (i, .call t act) => inferInstanceAs (Decidable (FreshRename (s.nodes i) t act))
  | (_, .drain _) | (_, .flip _) | (_, .crash _) => isTrue trivial

def Inv (C : Codec) (s : Cluster ι) : Prop := ∀ i, NodeInv C (fun _ => Stored s) (s.nodes i)

theorem stored_commit {s : Cluster ι} {i : ι} {taken : Option (Nat × WalName × Batch)}
    (h : Stored s batch) : Stored (s.commit i node taken) batch := by
  obtain ⟨x, hx, hb⟩ := h
  exact ⟨x, List.mem_append_left _ hx, hb⟩

theorem stored_taken {s : Cluster ι} {i : ι} {taken : Option (Nat × WalName × Batch)}
    {x : Nat × WalName × Batch} (h : taken = some x) :
    Stored (s.commit i node taken) x.2.2 :=
  ⟨⟨i, x.1, x.2.1, x.2.2⟩, by simp [Cluster.commit, h], rfl⟩

/-- A step of one node concerns the others only through the database. -/
theorem inv_commit {s : Cluster ι} (h : Inv C s) {i : ι}
    {taken : Option (Nat × WalName × Batch)}
    (hnode : NodeInv C (fun _ => Stored (s.commit i node taken)) node) :
    Inv C (s.commit i node taken) := by
  intro j
  by_cases hj : j = i
  · subst hj
    rwa [show (s.commit j node taken).nodes j = node from Function.update_self _ _ _]
  · rw [show (s.commit i node taken).nodes j = s.nodes j from Function.update_of_ne hj _ _]
    exact (h j).mono fun _ _ hb => stored_commit hb

theorem inv_step {s s' : Cluster ι} {a : ι × ClusterAct} (h : Inv C s) (hok : FreshNames s a)
    (hstep : s.step C a = some s') : Inv C s' := by
  obtain ⟨i, act⟩ := a
  cases act with
  | call t act =>
    obtain ⟨⟨node, taken⟩, hout, rfl⟩ := Option.map_eq_some_iff.mp hstep
    exact inv_commit h (((h i).mono fun _ _ hb => stored_commit hb).callStep hok hout
      fun _ hx => stored_taken hx)
  | drain act =>
    obtain ⟨⟨node, taken⟩, hout, rfl⟩ := Option.map_eq_some_iff.mp hstep
    exact inv_commit h (((h i).mono fun _ _ hb => stored_commit hb).drainStep hout
      fun _ hx => stored_taken hx)
  | flip leader =>
    obtain rfl := Option.some.inj hstep
    exact inv_commit h (((h i).mono fun _ _ hb => stored_commit hb).flip leader)
  | crash pid =>
    obtain rfl := Option.some.inj hstep
    exact inv_commit h (((h i).mono fun _ _ hb => stored_commit hb).crash pid)

omit [DecidableEq ι] in
theorem inv_start (followerMaxAge : ι → Option Nat) (pid : ι → Nat) :
    Inv C (Cluster.start followerMaxAge pid) := fun _ =>
  { drawn := fun _ _ hc => by cases hc
    distinct := fun _ _ _ _ hc => by cases hc
    stages := fun _ _ hc => by cases hc
    files := fun _ _ hb => by cases hb
    kept := fun _ he => by cases he
    drainer := drainerInv_idle rfl trivial }

omit [DecidableEq ι] in
theorem noLoss_of_inv {s : Cluster ι} (h : Inv C s) : NoLoss C s where
  kept i := (h i).kept
  pair i j e he e' he' := by
    rcases (h i).kept e he with hs | hp | hr
    · exact .inl hs
    · rcases (h j).kept e' he' with hs' | hp' | hr'
      · exact .inr (.inl hs')
      · exact .inr (.inr (.inr (.inr ⟨hp, hp'⟩)))
      · exact .inr (.inr (.inr (.inl hr')))
    · exact .inr (.inr (.inl hr))

/-- No interleaving of calls, drains, reaping, leadership flips and crashes on any number
of nodes loses an appended batch, as long as no rename replaces a pending file. -/
theorem noLoss_throughout (C : Codec) (followerMaxAge : ι → Option Nat) (pid : ι → Nat)
    (acts : List (ι × ClusterAct))
    (hfresh : Along (Cluster.step C) FreshNames (Cluster.start followerMaxAge pid) acts) :
    Throughout (Cluster.step C) (NoLoss C) (Cluster.start followerMaxAge pid) acts :=
  throughout_of_along (fun _ _ _ h hok hs => inv_step h hok hs) (fun _ => noLoss_of_inv)
    (inv_start followerMaxAge pid) hfresh

/-- A follower appends and its call ends with "not leader". After a restart under the same
process id the leader appends again, and stores and acknowledges the second batch. -/
theorem noLoss_throughout_two_appends :
    Throughout (Cluster.step (codecOf [batchAt 0, batchAt 60]))
      (NoLoss (codecOf [batchAt 0, batchAt 60]))
      (Cluster.start (fun _ : Unit => none) fun _ => 1)
      (onNode () (appendActs 0 (batchAt 0) 1000 ++ [.call 0 .gate, .crash 1, .flip true] ++
        appendActs 0 (batchAt 60) 1001 ++ [.call 0 .gate, .call 0 .insert, .call 0 .ack])) :=
  noLoss_throughout _ _ _ _ (by decide +kernel)

/-- With the same clock reading the second append takes the name of the first, whose batch
is then nowhere. -/
theorem restart_in_same_millisecond_loses_batch :
    ¬ ∀ (C : Codec) (acts : List (Unit × ClusterAct)),
      Throughout (Cluster.step C) (NoLoss C) (Cluster.start (fun _ => none) fun _ => 1) acts := by
  intro hall
  let C := codecOf [batchAt 0, batchAt 60]
  let name : WalName := ⟨1000, 1, 0⟩
  let acts := onNode () (appendActs 0 (batchAt 0) 1000 ++ [.call 0 .gate, .crash 1] ++
    appendActs 0 (batchAt 60) 1000)
  have hrun : ∃ t ∈ run (Cluster.step C) (Cluster.start (fun _ => none) fun _ => 1) acts,
      t.inserts = [] ∧ (t.nodes ()).reaped = [] ∧
      (t.nodes ()).appended = [(name, batchAt 0), (name, batchAt 60)] ∧
      (t.nodes ()).dir.lookup name = some (C.frameChunks (toVecNamed (batchAt 60))).flatten := by
    decide +kernel
  obtain ⟨t, ht, hins, hreaped, happ, hdir⟩ := hrun
  have hkept := (throughout_run (hall C _) ht).kept () (name, batchAt 0) (by rw [happ]; simp)
  have hread : C.read (C.frameChunks (toVecNamed (batchAt 60))).flatten = .ok (batchAt 60) := by
    decide +kernel
  rcases hkept with ⟨x, hx, _⟩ | ⟨bytes, hb, hok⟩ | ⟨r, hr, _⟩
  · rw [hins] at hx
    cases hx
  · obtain rfl := Option.some.inj (hdir.symm.trans hb)
    have heq : batchAt 60 = batchAt 0 := Except.ok.inj (hread.symm.trans hok)
    exact absurd heq (by decide +kernel)
  · rw [hreaped] at hr
    cases hr

end Cluster

end OiTerminal.Storage.WalNoLoss
