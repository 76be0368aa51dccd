import OiTerminal.Lib.Expiring
import OiTerminal.Storage.Composite
import OiTerminal.Storage.PubSub

/-!
# The latest bars in Redis, with their expiry

Redis keeps the MessagePack of a bar for fifteen minutes. The clock counts in milliseconds. Redis
may lose a key at any time, and a pipeline may break off after any of its commands. `history` lists
what has happened to the keys, and influences nothing.
-/
namespace OiTerminal.Storage.HotCache

open OiTerminal.Core
open OiTerminal.Lib.ByKey OiTerminal.Lib.Transition
open OiTerminal.Lib.Expiring hiding get
open OiTerminal.Storage.ClickHouse (CoreError)
open OiTerminal.Storage.Composite (latestKey latestKey_injective primaryLatest)
open OiTerminal.Storage.PubSub (SnapCodec redisErr)

set_option autoImplicit false

def latestTtlSecs : ℕ := 15 * 60

abbrev ttl : ℕ := latestTtlSecs * 1000

abbrev Bars := List (Event InstrumentId OiSnapshot)

structure State where
  now : ℕ
  redis : Store String Bytes
  primary : List OiSnapshot
  history : Bars

/-- How many commands of a pipeline Redis executes, and its answer. -/
structure Reply where
  executed : ℕ
  answer : Except String Unit

inductive Act where
  | elapse (ms : ℕ)
  | upsertSnapshots (snaps : List OiSnapshot) (stored leader : Bool) (reply : Reply)
  | drain (snaps : List OiSnapshot)
  | evict (id : InstrumentId)

section

variable (C : SnapCodec) (now : ℕ)

/-- The `SETEX` commands of a batch. A bar that does not encode ends the call before any of them is
sent. -/
def pipeline : List OiSnapshot → Except CoreError (List (Event String Bytes))
  | [] => .ok []
  | s :: rest =>
    match C.encode s with
    | .error e => .error (.storage ("msgpack: " ++ e))
    | .ok bytes => (pipeline rest).map fun more =>
        .setEx (latestKey s.instrument) bytes now :: more

/-- The commands that Redis executes, and what the call returns. -/
def bulkSetLatest (snaps : List OiSnapshot) (reply : Reply) :
    List (Event String Bytes) × Except CoreError Unit :=
  if snaps = [] then ([], .ok ())
  else
    match pipeline C now snaps with
    | .error e => ([], .error e)
    | .ok cmds => (cmds.take reply.executed, reply.answer.mapError redisErr)

end

section

variable (C : SnapCodec)

/-- The commands of a call of `upsert_snapshots`. Its failures are only logged. -/
def commands (now : ℕ) (snaps : List OiSnapshot) (leader : Bool) (reply : Reply) :
    List (Event String Bytes) :=
  if leader then (bulkSetLatest C now snaps reply).1 else []

/-- The bars of these commands. -/
def puts (now : ℕ) (snaps : List OiSnapshot) (leader : Bool) (reply : Reply) : Bars :=
  (snaps.take (commands C now snaps leader reply).length).map fun s => .setEx s.instrument s now

def step (s : State) : Act → Option State
  | .elapse ms => some { s with now := s.now + ms }
  | .upsertSnapshots snaps stored leader reply => some { s with
      redis := replay ttl s.redis (commands C s.now snaps leader reply)
      primary := s.primary ++ if stored then snaps else []
      history := s.history ++ puts C s.now snaps leader reply }
  | .drain snaps => some { s with primary := s.primary ++ snaps }
  | .evict id => some { s with
      redis := replay ttl s.redis [.drop (latestKey id)]
      history := s.history ++ [.drop id] }

def start : State := ⟨0, empty, [], []⟩

variable (errorText : Bytes → String)

def getLatest (s : State) (id : InstrumentId) (answer : Except String Unit) :
    Except CoreError (Option OiSnapshot) :=
  match answer with
  | .error e => .error (redisErr e)
  | .ok () =>
    match Lib.Expiring.get s.now s.redis (latestKey id) with
    | none => .ok none
    | some bytes =>
      match C.decode bytes with
      | some bar => .ok (some bar)
      | none => .error (.storage ("msgpack decode: " ++ errorText bytes))

/-- A miss, or an error of Redis, falls back to the primary. -/
def latest (s : State) (id : InstrumentId) (answer : Except String Unit) : Option OiSnapshot :=
  match getLatest C errorText s id answer with
  | .ok (some bar) => some bar
  | .ok none => primaryLatest s.primary id
  | .error _ => primaryLatest s.primary id

end

section

variable {C : SnapCodec} {errorText : Bytes → String} {s s' : State} {a : Act} {now : ℕ}
  {snaps : List OiSnapshot} {cmds : List (Event String Bytes)} {id : InstrumentId}

/-- The bytes of a bar. -/
abbrev Decodes (C : SnapCodec) (bytes : Bytes) (bar : OiSnapshot) : Prop :=
  C.decode bytes = some bar

theorem pipeline_same (h : pipeline C now snaps = .ok cmds) :
    List.Forall₂ (Same latestKey (Decodes C)) cmds
      (snaps.map fun s => .setEx s.instrument s now) := by
  induction snaps generalizing cmds with
  | nil =>
    obtain rfl := Except.ok.inj h
    exact .nil
  | cons s rest ih =>
    rw [pipeline] at h
    cases hbytes : C.encode s with
    | error e => simp [hbytes] at h
    | ok bytes =>
      cases hmore : pipeline C now rest with
      | error e => simp [hbytes, hmore, Except.map] at h
      | ok more =>
        simp only [hbytes, hmore, Except.map, Except.ok.injEq] at h
        subst h
        exact .cons (.setEx (C.decode_encode s bytes hbytes)) (ih hmore)

/-- Redis executes the commands of the first bars of the batch. -/
theorem commands_same (now : ℕ) (snaps : List OiSnapshot) (leader : Bool) (reply : Reply) :
    List.Forall₂ (Same latestKey (Decodes C)) (commands C now snaps leader reply)
      (puts C now snaps leader reply) := by
  have hnone : ∀ {cmds}, cmds = [] → commands C now snaps leader reply = cmds →
      List.Forall₂ (Same latestKey (Decodes C)) (commands C now snaps leader reply)
        (puts C now snaps leader reply) := by
    rintro cmds rfl h
    rw [puts, h]
    exact .nil
  cases leader with
  | false => exact hnone rfl rfl
  | true =>
    by_cases hempty : snaps = []
    · exact hnone rfl (by rw [commands, if_pos rfl, bulkSetLatest, if_pos hempty])
    · cases hpipeline : pipeline C now snaps with
      | error e =>
        exact hnone rfl (by rw [commands, if_pos rfl, bulkSetLatest, if_neg hempty, hpipeline])
      | ok cmds =>
        have hcmds : commands C now snaps true reply = cmds.take reply.executed := by
          rw [commands, if_pos rfl, bulkSetLatest, if_neg hempty, hpipeline]
        have hsame := pipeline_same hpipeline
        rw [puts, hcmds, List.length_take, hsame.length_eq, List.length_map, ← List.take_take,
          List.take_length, List.map_take]
        exact List.forall₂_take _ hsame

/-- Redis holds the bytes of what the history leaves. -/
def Inv (C : SnapCodec) (s : State) : Prop :=
  Represents latestKey (Decodes C) s.redis (replay ttl empty s.history)

theorem inv_start : Inv C start := fun _ => .none

theorem inv_step (h : Inv C s) (hstep : step C s a = some s') : Inv C s' := by
  have hkey : Function.Injective latestKey := fun _ _ => latestKey_injective
  cases a with
  | elapse ms =>
    obtain rfl := Option.some.inj hstep
    exact h
  | upsertSnapshots snaps stored leader reply =>
    obtain rfl := Option.some.inj hstep
    unfold Inv
    rw [replay_append]
    exact h.replay hkey (commands_same ..)
  | drain snaps =>
    obtain rfl := Option.some.inj hstep
    exact h
  | evict id =>
    obtain rfl := Option.some.inj hstep
    unfold Inv
    rw [replay_append]
    exact h.replay hkey (.cons (.drop id) .nil)

/-- What an answer of Redis says. -/
def hot (s : State) (id : InstrumentId) : Option OiSnapshot :=
  Lib.Expiring.get s.now (replay ttl empty s.history) id

theorem getLatest_of_inv (h : Inv C s) (id : InstrumentId) :
    getLatest C errorText s id (.ok ()) = .ok (hot s id) := by
  have hrel := Represents.get h s.now id
  unfold getLatest hot
  dsimp only
  generalize Lib.Expiring.get s.now s.redis (latestKey id) = bytes,
    Lib.Expiring.get s.now (replay ttl empty s.history) id = bar at hrel
  cases hrel with
  | none => rfl
  | some hdecodes => simp only [show _ = _ from hdecodes]

theorem latest_of_inv (h : Inv C s) (id : InstrumentId) (answer : Except String Unit) :
    latest C errorText s id answer =
      (if answer.isOk then hot s id else none).or (primaryLatest s.primary id) := by
  unfold latest
  cases answer with
  | error e => rfl
  | ok _ =>
    rw [getLatest_of_inv h]
    change _ = (hot s id).or _
    cases hot s id <;> rfl

/-- Redis answers with the bar that it was last given, for fifteen minutes at most, and never with
an error of its codec. All other answers are those of the primary. -/
structure Fresh (C : SnapCodec) (errorText : Bytes → String) (s : State) : Prop where
  cached : ∀ id bar, getLatest C errorText s id (.ok ()) = .ok (some bar) ↔
    ∃ instant, lastOf Event.key id s.history = some (.setEx id bar instant) ∧
      s.now ≤ instant + ttl
  decodes : ∀ id, ∃ found, getLatest C errorText s id (.ok ()) = .ok found
  missed : ∀ id answer, (∀ bar, getLatest C errorText s id answer ≠ .ok (some bar)) →
    latest C errorText s id answer = primaryLatest s.primary id
  healed : ∀ id answer, (∀ bar instant, .setEx id bar instant ∈ s.history →
    instant + ttl < s.now) → latest C errorText s id answer = primaryLatest s.primary id

theorem fresh_of_inv (h : Inv C s) : Fresh C errorText s where
  cached id bar := by
    rw [getLatest_of_inv h, Except.ok.injEq, hot, get_replay_eq_some]
  decodes id := ⟨_, getLatest_of_inv h id⟩
  missed id answer hmissed := by
    unfold latest
    cases hfound : getLatest C errorText s id answer with
    | error e => rfl
    | ok found =>
      cases found with
      | none => rfl
      | some bar => exact absurd hfound (hmissed bar)
  healed id answer hold := by
    have hhot : hot s id = none := by
      rw [Option.eq_none_iff_forall_ne_some]
      intro bar hbar
      obtain ⟨instant, hlast, hle⟩ := get_replay_eq_some.mp hbar
      have hlt := hold bar instant (lastOf_mem hlast).1
      omega
    rw [latest_of_inv h, hhot, ite_self, Option.none_or]

end

/-- However batches, drains, losses of keys and time follow one another: a bar that Redis answers
with is the last one that it was given, no more than fifteen minutes ago. Once it has been given
none for so long, the answers are those of the primary again. -/
theorem hot_answers_are_fresh (C : SnapCodec) (errorText : Bytes → String) (acts : List Act) :
    Throughout (step C) (Fresh C errorText) start acts :=
  throughout_of_step (fun _ _ _ h hstep => inv_step h hstep) (fun _ => fresh_of_inv) inv_start

/-! ## The model without time -/

/-- The bars that Redis was given. -/
def given (history : Bars) : List OiSnapshot :=
  history.filterMap fun
    | .setEx _ bar _ => some bar
    | .drop _ => none

/-- The other model has an instant for the expiry of a key. Here it is where the time passes. -/
structure Refines (s : State) (c : Composite.State) : Prop where
  primary : c.primary = s.primary
  shown : c.shown = given s.history
  cache : ∀ id, c.cache (latestKey id) = hot s id

section

variable {C : SnapCodec} {errorText : Bytes → String} {s s' : State} {a : Act}
  {c : Composite.State} {id : InstrumentId}

theorem given_append (history more : Bars) :
    given (history ++ more) = given history ++ given more := List.filterMap_append

theorem given_setEx (now : ℕ) (bars : List OiSnapshot) :
    given (bars.map fun s => .setEx s.instrument s now) = bars := by
  rw [given, List.filterMap_map]
  exact List.filterMap_some

/-- A lapse of time only loses keys. -/
theorem hot_elapse {ms : ℕ} {bar : OiSnapshot} (h : hot { s with now := s.now + ms } id = some bar) :
    hot s id = some bar := by
  obtain ⟨instant, hlast, hle⟩ := get_replay_eq_some.mp h
  exact get_replay_eq_some.mpr ⟨instant, hlast, (Nat.le_add_right _ _).trans hle⟩

theorem hot_eq_none_of_new (h : ∀ e ∈ s.history, e.key ≠ id) : hot s id = none := by
  rw [hot, Lib.Expiring.get, replay_empty, lastOf_eq_none_iff.mpr h]
  rfl

/-- What is put now is there now. -/
theorem hot_put {bars : List OiSnapshot} (hnow : s'.now = s.now)
    (hhistory : s'.history = s.history ++ bars.map fun s => .setEx s.instrument s s'.now) :
    hot s' id = (Composite.lastPut id bars).or (hot s id) := by
  unfold hot
  rw [Lib.Expiring.get, replay_empty, hhistory, lastOf_append, lastOf_map]
  change ((((Composite.lastPut id bars).map _).or _).bind _).bind _ = _
  cases Composite.lastPut id bars with
  | none =>
    rw [Option.map_none, Option.none_or, Option.none_or, Lib.Expiring.get, replay_empty, hnow]
  | some bar => exact if_pos (Nat.le_add_right _ _)

theorem run_expire (ids : List InstrumentId) (c : Composite.State) :
    ∃ c', run Composite.step c (ids.map .expire) = some c' ∧ c'.primary = c.primary ∧
      c'.shown = c.shown ∧
      ∀ id, c'.cache (latestKey id) = if id ∈ ids then none else c.cache (latestKey id) := by
  induction ids generalizing c with
  | nil => exact ⟨c, rfl, rfl, rfl, fun _ => rfl⟩
  | cons gone rest ih =>
    obtain ⟨next, hstep⟩ : ∃ next, Composite.step c (.expire gone) = some next := ⟨_, rfl⟩
    obtain ⟨hprimary, hshown, hcache⟩ := Composite.step_write hstep
    obtain ⟨c', hrun, hprimary', hshown', hcache'⟩ := ih next
    refine ⟨c', run_cons_eq_some.mpr ⟨next, hstep, hrun⟩, ?_, ?_, fun id => ?_⟩
    · rw [hprimary', hprimary]
      exact List.append_nil _
    · rw [hshown', hshown]
      exact List.append_nil _
    · obtain rfl := Option.some.inj hstep
      rw [hcache' id]
      by_cases hrest : id ∈ rest
      · rw [if_pos hrest, if_pos (List.mem_cons_of_mem _ hrest)]
      · rw [if_neg hrest]
        by_cases hid : id = gone
        · subst hid
          rw [if_pos List.mem_cons_self]
          exact Function.update_self ..
        · have hnot : id ∉ gone :: rest := by simp [hid, hrest]
          rw [if_neg hnot]
          exact Function.update_of_ne (fun hkey => hid (latestKey_injective hkey)) ..

/-- What expires in a lapse of time is expired at once. -/
theorem refines_elapse (h : Refines s c) (ms : ℕ) :
    ∃ acts c', run Composite.step c acts = some c' ∧
      Refines { s with now := s.now + ms } c' := by
  let later : State := { s with now := s.now + ms }
  obtain ⟨c', hrun, hprimary, hshown, hcache⟩ :=
    run_expire ((s.history.map Event.key).filter fun id => (hot later id).isNone) c
  refine ⟨_, c', hrun, hprimary.trans h.primary, hshown.trans h.shown, fun id => ?_⟩
  rw [hcache id, h.cache id]
  change _ = hot later id
  cases hlater : hot later id with
  | some bar =>
    rw [if_neg (by simp [hlater])]
    exact hot_elapse hlater
  | none =>
    by_cases hnew : ∀ e ∈ s.history, e.key ≠ id
    · rw [hot_eq_none_of_new hnew, ite_self]
    · push Not at hnew
      obtain ⟨e, he, rfl⟩ := hnew
      refine if_pos (List.mem_filter.mpr ⟨List.mem_map_of_mem he, ?_⟩)
      rw [hlater]
      rfl

/-- The other model is told how many commands Redis executes. -/
theorem refines_upsertSnapshots {snaps : List OiSnapshot} {stored leader : Bool} {reply : Reply}
    (h : Refines s c) (hstep : step C s (.upsertSnapshots snaps stored leader reply) = some s') :
    ∃ acts c', run Composite.step c acts = some c' ∧ Refines s' c' := by
  obtain rfl := Option.some.inj hstep
  obtain ⟨c', hc'⟩ : ∃ c', Composite.step c (.upsertSnapshots snaps stored leader
    (commands C s.now snaps leader reply).length) = some c' := ⟨_, rfl⟩
  have hputs : Composite.puts (.upsertSnapshots snaps stored leader
      (commands C s.now snaps leader reply).length) =
      snaps.take (commands C s.now snaps leader reply).length := by
    cases leader with
    | false => rfl
    | true => rfl
  obtain ⟨hprimary, hshown, ⟨_, hexpire, -⟩ | hcache⟩ := Composite.step_write hc'
  · cases hexpire
  refine ⟨[_], c', run_cons_eq_some.mpr ⟨c', hc', rfl⟩, ?_, ?_, fun id => ?_⟩
  · rw [hprimary, h.primary]
    rfl
  · rw [hshown, h.shown, hputs, given_append, puts, given_setEx]
  · rw [hcache, Composite.bulkSetLatest_latestKey, hputs, h.cache id]
    symm
    exact hot_put rfl rfl

theorem refines_evict (h : Refines s c) {gone : InstrumentId}
    (hstep : step C s (.evict gone) = some s') :
    ∃ acts c', run Composite.step c acts = some c' ∧ Refines s' c' := by
  obtain rfl := Option.some.inj hstep
  obtain ⟨c', hrun, hprimary, hshown, hcache⟩ := run_expire [gone] c
  refine ⟨_, c', hrun, hprimary.trans h.primary, ?_, fun id => ?_⟩
  · rw [hshown, h.shown, given_append]
    exact (List.append_nil _).symm
  · rw [hcache id, h.cache id, hot, hot, replay_append, get_replay_drop]
    exact if_congr List.mem_singleton rfl rfl

theorem refines_step (h : Refines s c) (hstep : step C s a = some s') :
    ∃ acts c', run Composite.step c acts = some c' ∧ Refines s' c' := by
  cases a with
  | elapse ms =>
    obtain rfl := Option.some.inj hstep
    exact refines_elapse h ms
  | upsertSnapshots snaps stored leader reply => exact refines_upsertSnapshots h hstep
  | drain snaps =>
    obtain rfl := Option.some.inj hstep
    obtain ⟨c', hc'⟩ : ∃ c', Composite.step c (.drain snaps) = some c' := ⟨_, rfl⟩
    refine ⟨[_], c', run_cons_eq_some.mpr ⟨c', hc', rfl⟩, ?_⟩
    obtain rfl := Option.some.inj hc'
    exact ⟨by rw [h.primary]; rfl, by rw [h.shown]; exact List.append_nil _, h.cache⟩
  | evict gone => exact refines_evict h hstep

theorem latest_of_refines (h : Refines s c) (hinv : Inv C s) (id : InstrumentId)
    (answer : Except String Unit) :
    latest C errorText s id answer = Composite.latest c id answer.isOk := by
  rw [latest_of_inv hinv, Composite.latest, h.cache id, h.primary]
  cases (if answer.isOk then hot s id else none) <;> rfl

end

/-- The model without time has a run that leads to this state. -/
structure Simulated (C : SnapCodec) (s : State) : Prop where
  inv : Inv C s
  run : ∃ abstract c, run Composite.step Composite.start abstract = some c ∧ Refines s c

theorem simulated_step {C : SnapCodec} {s s' : State} {a : Act} (h : Simulated C s)
    (hstep : step C s a = some s') : Simulated C s' := by
  obtain ⟨abstract, c, hrun, hrefines⟩ := h.run
  obtain ⟨more, c', hmore, hrefines'⟩ := refines_step hrefines hstep
  exact ⟨inv_step h.inv hstep, abstract ++ more, c', (run_append hrun).trans hmore, hrefines'⟩

/-- At every moment of every run, the model that knows neither time nor bytes has a run that has
stored the same rows, shown Redis the same bars, and gives the same answers. -/
theorem hot_cache_refines_composite (C : SnapCodec) (errorText : Bytes → String)
    (acts : List Act) :
    Throughout (step C) (fun s => ∃ abstract c,
      run Composite.step Composite.start abstract = some c ∧ c.primary = s.primary ∧
        c.shown = given s.history ∧ ∀ id answer,
          latest C errorText s id answer = Composite.latest c id answer.isOk) start acts := by
  refine throughout_of_step (fun _ _ _ (h : Simulated C _) hstep => simulated_step h hstep)
    (fun s h => ?_) ⟨inv_start, [], Composite.start, rfl, rfl, rfl, fun _ => rfl⟩
  obtain ⟨abstract, c, hrun, hrefines⟩ := h.run
  exact ⟨abstract, c, hrun, hrefines.primary, hrefines.shown, latest_of_refines hrefines h.inv⟩

end OiTerminal.Storage.HotCache
