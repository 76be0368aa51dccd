import OiTerminal.Storage.ClickHouse

/-!
# Repository decorators

Three wrappers around a repository: one appends every batch of bars to a WAL first, one
refuses writes on a follower, one adds a Redis cache. The trait gives its funding methods
a body that does nothing, so a wrapper that forgets one still compiles. A stack nests the
wrappers in any order and depth. The surroundings of a wrapper (its directory, its Redis,
its gate) are a state of their own, of any type.
-/
namespace OiTerminal.Storage.Decorators

open OiTerminal.Core OiTerminal.Storage.ClickHouse

set_option autoImplicit false

/-- A method call: its answer, and the state it leaves. -/
abbrev Op (σ α : Type) := σ → Except CoreError α × σ

structure OiRepository (σ : Type) where
  upsertSnapshots : List OiSnapshot → Op σ Unit
  upsertInstruments : List InstrumentMeta → Op σ Unit
  range : InstrumentId → Int → Int → Op σ (List OiSnapshot)
  latest : InstrumentId → Op σ (Option OiSnapshot)
  upsertFunding : List FundingBar → Op σ Unit := fun _ s => (.ok (), s)
  fundingRange : InstrumentId → Int → Int → Op σ (List FundingBar) := fun _ _ _ s => (.ok [], s)
  latestFunding : InstrumentId → Op σ (Option FundingBar) := fun _ s => (.ok none, s)
  upsertFundingEvents : List FundingEvent → Op σ Unit := fun _ s => (.ok (), s)
  fundingEventsRange : InstrumentId → Int → Int → Op σ (List FundingEvent) :=
    fun _ _ _ s => (.ok [], s)
  latestFundingEvent : InstrumentId → Op σ (Option FundingEvent) := fun _ s => (.ok none, s)

/-- The two operations of the WAL that its wrapper calls. -/
structure FileWal (ω : Type) where
  append : List OiSnapshot → Op ω String
  ack : String → Op ω Unit

/-- What the composite repository asks of Redis. -/
structure RedisCache (ω : Type) where
  bulkSetLatest : List OiSnapshot → Op ω Unit
  publish : List OiSnapshot → Op ω Unit
  getLatest : InstrumentId → Op ω (Option OiSnapshot)

abbrev LeaderGate (ω : Type) := ω → Bool

section

variable {ω σ α : Type}

/-- The wrapper only passes the call on. -/
def delegate (op : Op σ α) : Op (ω × σ) α := fun s =>
  let (answer, inner) := op s.2
  (answer, (s.1, inner))

def walBacked (wal : FileWal ω) (inner : OiRepository σ) : OiRepository (ω × σ) where
  upsertSnapshots snaps := fun s =>
    if snaps.isEmpty then (.ok (), s)
    else
      match wal.append snaps s.1 with
      | (.error e, w) => (.error e, (w, s.2))
      | (.ok path, w) =>
        match inner.upsertSnapshots snaps s.2 with
        | (.ok (), t) =>
          let (acked, w') := wal.ack path w
          (acked, (w', t))
        -- the file stays for the drainer
        | (.error e, t) => (.error e, (w, t))
  upsertInstruments metas := delegate (inner.upsertInstruments metas)
  range id lo hi := delegate (inner.range id lo hi)
  latest id := delegate (inner.latest id)
  upsertFunding bars := delegate (inner.upsertFunding bars)
  fundingRange id lo hi := delegate (inner.fundingRange id lo hi)
  latestFunding id := delegate (inner.latestFunding id)
  upsertFundingEvents events := delegate (inner.upsertFundingEvents events)
  fundingEventsRange id lo hi := delegate (inner.fundingEventsRange id lo hi)
  latestFundingEvent id := delegate (inner.latestFundingEvent id)

/-- A write that only the leader passes on. -/
def ifLeader (isLeader : LeaderGate ω) (op : Op σ α) : Op (ω × σ) α := fun s =>
  if isLeader s.1 then delegate op s else (.error (.storage "not leader"), s)

def leaderGatedRepo (isLeader : LeaderGate ω) (inner : OiRepository σ) :
    OiRepository (ω × σ) where
  upsertSnapshots snaps := ifLeader isLeader (inner.upsertSnapshots snaps)
  upsertInstruments metas := delegate (inner.upsertInstruments metas)
  range id lo hi := delegate (inner.range id lo hi)
  latest id := delegate (inner.latest id)
  upsertFunding bars := ifLeader isLeader (inner.upsertFunding bars)
  fundingRange id lo hi := delegate (inner.fundingRange id lo hi)
  latestFunding id := delegate (inner.latestFunding id)
  upsertFundingEvents events := ifLeader isLeader (inner.upsertFundingEvents events)
  fundingEventsRange id lo hi := delegate (inner.fundingEventsRange id lo hi)
  latestFundingEvent id := delegate (inner.latestFundingEvent id)

def compositeRepository (cache : RedisCache ω) (leaderGate : Option (LeaderGate ω))
    (primary : OiRepository σ) : OiRepository (ω × σ) where
  upsertSnapshots snaps := fun s =>
    let (primaryResult, t) := primary.upsertSnapshots snaps s.2
    let isLeader := (leaderGate.map fun gate => gate s.1).getD true
    if isLeader then
      -- failures of Redis are logged and go no further
      let (_, w) := cache.bulkSetLatest snaps s.1
      let (_, w') := cache.publish snaps w
      (primaryResult, (w', t))
    else (primaryResult, (s.1, t))
  upsertInstruments metas := delegate (primary.upsertInstruments metas)
  range id lo hi := delegate (primary.range id lo hi)
  latest id := fun s =>
    match cache.getLatest id s.1 with
    | (.ok (some bar), w) => (.ok (some bar), (w, s.2))
    | (.ok none, w) => delegate (primary.latest id) (w, s.2)
    | (.error _, w) => delegate (primary.latest id) (w, s.2)
  upsertFunding bars := delegate (primary.upsertFunding bars)
  fundingRange id lo hi := delegate (primary.fundingRange id lo hi)
  latestFunding id := delegate (primary.latestFunding id)
  upsertFundingEvents events := delegate (primary.upsertFundingEvents events)
  fundingEventsRange id lo hi := delegate (primary.fundingEventsRange id lo hi)
  latestFundingEvent id := delegate (primary.latestFundingEvent id)

end

/-- The ten methods with their arguments. -/
inductive Call where
  | upsertSnapshots (snaps : List OiSnapshot)
  | upsertInstruments (metas : List InstrumentMeta)
  | range (id : InstrumentId) (lo hi : Int)
  | latest (id : InstrumentId)
  | upsertFunding (bars : List FundingBar)
  | fundingRange (id : InstrumentId) (lo hi : Int)
  | latestFunding (id : InstrumentId)
  | upsertFundingEvents (events : List FundingEvent)
  | fundingEventsRange (id : InstrumentId) (lo hi : Int)
  | latestFundingEvent (id : InstrumentId)
  deriving DecidableEq

abbrev Call.Answer : Call → Type
  | .upsertSnapshots _ => Unit
  | .upsertInstruments _ => Unit
  | .range _ _ _ => List OiSnapshot
  | .latest _ => Option OiSnapshot
  | .upsertFunding _ => Unit
  | .fundingRange _ _ _ => List FundingBar
  | .latestFunding _ => Option FundingBar
  | .upsertFundingEvents _ => Unit
  | .fundingEventsRange _ _ _ => List FundingEvent
  | .latestFundingEvent _ => Option FundingEvent

/-- The writes that a gate holds back on a follower. -/
def Call.gated : Call → Bool
  | .upsertSnapshots _ => true
  | .upsertFunding _ => true
  | .upsertFundingEvents _ => true
  | _ => false

namespace OiRepository

variable {σ : Type}

def call (R : OiRepository σ) : (c : Call) → Op σ c.Answer
  | .upsertSnapshots snaps => R.upsertSnapshots snaps
  | .upsertInstruments metas => R.upsertInstruments metas
  | .range id lo hi => R.range id lo hi
  | .latest id => R.latest id
  | .upsertFunding bars => R.upsertFunding bars
  | .fundingRange id lo hi => R.fundingRange id lo hi
  | .latestFunding id => R.latestFunding id
  | .upsertFundingEvents events => R.upsertFundingEvents events
  | .fundingEventsRange id lo hi => R.fundingEventsRange id lo hi
  | .latestFundingEvent id => R.latestFundingEvent id

/-- The same repository, which also notes the calls that reach it. -/
def recorded (R : OiRepository σ) : OiRepository (σ × List Call) :=
  let note (c : Call) : Op (σ × List Call) c.Answer := fun s =>
    let (answer, t) := R.call c s.1
    (answer, (t, s.2 ++ [c]))
  { upsertSnapshots snaps := note (.upsertSnapshots snaps)
    upsertInstruments metas := note (.upsertInstruments metas)
    range id lo hi := note (.range id lo hi)
    latest id := note (.latest id)
    upsertFunding bars := note (.upsertFunding bars)
    fundingRange id lo hi := note (.fundingRange id lo hi)
    latestFunding id := note (.latestFunding id)
    upsertFundingEvents events := note (.upsertFundingEvents events)
    fundingEventsRange id lo hi := note (.fundingEventsRange id lo hi)
    latestFundingEvent id := note (.latestFundingEvent id) }

theorem call_recorded (R : OiRepository σ) (c : Call) (s : σ × List Call) :
    R.recorded.call c s = ((R.call c s.1).1, ((R.call c s.1).2, s.2 ++ [c])) := by
  cases c <;> rfl

end OiRepository

/-- Wrappers nested around a repository with state `σ`, the outermost first. -/
inductive Stack (σ : Type) : Type → Type 1 where
  | bare : Stack σ σ
  | walBacked {ω τ : Type} (wal : FileWal ω) (inner : Stack σ τ) : Stack σ (ω × τ)
  | leaderGated {ω τ : Type} (isLeader : LeaderGate ω) (inner : Stack σ τ) : Stack σ (ω × τ)
  | composite {ω τ : Type} (cache : RedisCache ω) (leaderGate : Option (LeaderGate ω))
      (primary : Stack σ τ) : Stack σ (ω × τ)

namespace Stack

variable {σ : Type}

def repo (R : OiRepository σ) : {τ : Type} → Stack σ τ → OiRepository τ
  | _, .bare => R
  | _, .walBacked wal inner => Decorators.walBacked wal (inner.repo R)
  | _, .leaderGated isLeader inner => leaderGatedRepo isLeader (inner.repo R)
  | _, .composite cache leaderGate primary =>
    compositeRepository cache leaderGate (primary.repo R)

/-- The state of the innermost repository. -/
def base : {τ : Type} → Stack σ τ → τ → σ
  | _, .bare, s => s
  | _, .walBacked _ inner, s => inner.base s.2
  | _, .leaderGated _ inner, s => inner.base s.2
  | _, .composite _ _ primary, s => primary.base s.2

/-- Every gate of the stack is open. -/
def Leading : {τ : Type} → Stack σ τ → τ → Prop
  | _, .bare, _ => True
  | _, .walBacked _ inner, s => inner.Leading s.2
  | _, .leaderGated isLeader inner, s => isLeader s.1 = true ∧ inner.Leading s.2
  | _, .composite _ _ primary, s => primary.Leading s.2

/-- Some gate of the stack is shut. -/
def Following : {τ : Type} → Stack σ τ → τ → Prop
  | _, .bare, _ => False
  | _, .walBacked _ inner, s => inner.Following s.2
  | _, .leaderGated isLeader inner, s => isLeader s.1 = false ∨ inner.Following s.2
  | _, .composite _ _ primary, s => primary.Following s.2

/-- Every WAL of the stack takes the batch and removes its file again. -/
def WalSucceeds (snaps : List OiSnapshot) : {τ : Type} → Stack σ τ → τ → Prop
  | _, .bare, _ => True
  | _, .walBacked wal inner, s =>
    (∃ path w, wal.append snaps s.1 = (.ok path, w) ∧ (wal.ack path w).1 = .ok ()) ∧
      inner.WalSucceeds snaps s.2
  | _, .leaderGated _ inner, s => inner.WalSucceeds snaps s.2
  | _, .composite _ _ primary, s => primary.WalSucceeds snaps s.2

/-- No cache of the stack answers for the instrument. -/
def CacheMiss (id : InstrumentId) : {τ : Type} → Stack σ τ → τ → Prop
  | _, .bare, _ => True
  | _, .walBacked _ inner, s => inner.CacheMiss id s.2
  | _, .leaderGated _ inner, s => inner.CacheMiss id s.2
  | _, .composite cache _ primary, s =>
    (∀ bar, (cache.getLatest id s.1).1 ≠ .ok (some bar)) ∧ primary.CacheMiss id s.2

/-- What a call needs of the stack to come through: open gates for a gated write, working
WALs for a batch that is not empty, and caches that do not answer a read of the latest
bar. -/
structure Admits {τ : Type} (c : Call) (stack : Stack σ τ) (s : τ) : Prop where
  leading : c.gated = true → stack.Leading s
  appended : ∀ snaps, c = .upsertSnapshots snaps → snaps ≠ [] ∧ stack.WalSucceeds snaps s
  missed : ∀ id, c = .latest id → stack.CacheMiss id s

end Stack

/-- The call on the outer state answers as the call on the inner one, and leaves its
state. -/
structure Carries {σ τ α : Type} (base : τ → σ) (outer : Op τ α) (inner : Op σ α) (s : τ) :
    Prop where
  answer : (outer s).1 = (inner (base s)).1
  state : base (outer s).2 = (inner (base s)).2

/-- The call leaves the inner state alone, and fails unless the batch is empty. -/
structure Refuses {σ τ : Type} (base : τ → σ) (c : Call) (op : Op τ c.Answer) (s : τ) :
    Prop where
  error : c ≠ .upsertSnapshots [] → ∃ e, (op s).1 = .error e
  untouched : base (op s).2 = base s

section

variable {ρ σ τ ω α : Type} {c : Call}

theorem Carries.trans {f : τ → σ} {g : σ → ρ} {outer : Op τ α} {middle : Op σ α}
    {inner : Op ρ α} {s : τ} (h : Carries f outer middle s) (h' : Carries g middle inner (f s)) :
    Carries (fun t => g (f t)) outer inner s where
  answer := h.answer.trans h'.answer
  state := by rw [h.state, h'.state]

theorem carries_delegate (op : Op σ α) (s : ω × σ) : Carries Prod.snd (delegate op) op s :=
  ⟨rfl, rfl⟩

theorem carries_ifLeader {isLeader : LeaderGate ω} (op : Op σ α) {s : ω × σ}
    (h : isLeader s.1 = true) : Carries Prod.snd (ifLeader isLeader op) op s := by
  have hop : ifLeader isLeader op s = delegate op s := if_pos h
  constructor
  · rw [hop]
    rfl
  · rw [hop]
    rfl

theorem carries_walBacked {wal : FileWal ω} (inner : OiRepository σ) {s : ω × σ}
    (h : ∀ snaps, c = .upsertSnapshots snaps → snaps ≠ [] ∧
      ∃ path w, wal.append snaps s.1 = (.ok path, w) ∧ (wal.ack path w).1 = .ok ()) :
    Carries Prod.snd ((walBacked wal inner).call c) (inner.call c) s := by
  cases c
  case upsertSnapshots snaps =>
    obtain ⟨hne, path, w, happend, hack⟩ := h snaps rfl
    have hempty : snaps.isEmpty = false := List.isEmpty_eq_false_iff.mpr hne
    have hop : (walBacked wal inner).call (.upsertSnapshots snaps) s =
        match inner.upsertSnapshots snaps s.2 with
        | (.ok (), t) => ((wal.ack path w).1, ((wal.ack path w).2, t))
        | (.error e, t) => (.error e, (w, t)) := by
      unfold OiRepository.call walBacked
      dsimp only
      rw [hempty, happend]
      rfl
    show Carries Prod.snd _ (inner.upsertSnapshots snaps) s
    cases hinner : inner.upsertSnapshots snaps s.2 with
    | mk answer t =>
      rw [hinner] at hop
      cases answer with
      | ok done =>
        constructor
        · rw [hop, hinner]
          exact hack
        · rw [hop, hinner]
      | error e =>
        constructor
        · rw [hop, hinner]
        · rw [hop, hinner]
  all_goals exact carries_delegate _ s

theorem carries_leaderGated {isLeader : LeaderGate ω} (inner : OiRepository σ) {s : ω × σ}
    (h : c.gated = true → isLeader s.1 = true) :
    Carries Prod.snd ((leaderGatedRepo isLeader inner).call c) (inner.call c) s := by
  cases c
  case upsertSnapshots => exact carries_ifLeader _ (h rfl)
  case upsertFunding => exact carries_ifLeader _ (h rfl)
  case upsertFundingEvents => exact carries_ifLeader _ (h rfl)
  all_goals exact carries_delegate _ s

/-- Redis neither changes an answer nor reaches the primary. -/
theorem carries_composite {cache : RedisCache ω} {leaderGate : Option (LeaderGate ω)}
    (primary : OiRepository σ) {s : ω × σ}
    (h : ∀ id, c = .latest id → ∀ bar, (cache.getLatest id s.1).1 ≠ .ok (some bar)) :
    Carries Prod.snd ((compositeRepository cache leaderGate primary).call c)
      (primary.call c) s := by
  cases c
  case upsertSnapshots snaps =>
    constructor
    all_goals
      unfold OiRepository.call compositeRepository
      dsimp only
      split
      · rfl
      · rfl
  case latest id =>
    have hmiss := h id rfl
    have hop : ∃ w, (compositeRepository cache leaderGate primary).call (.latest id) s =
        delegate (primary.latest id) (w, s.2) := by
      unfold OiRepository.call compositeRepository
      dsimp only
      split
      case h_1 bar w hget => exact absurd (congrArg Prod.fst hget) (hmiss bar)
      case h_2 w hget => exact ⟨w, rfl⟩
      case h_3 e w hget => exact ⟨w, rfl⟩
    obtain ⟨w, hop⟩ := hop
    constructor
    · rw [hop]
      rfl
    · rw [hop]
      rfl
  all_goals exact carries_delegate _ s

end

/-- A call that every layer lets through reaches the innermost repository, which answers. -/
theorem call_repo {σ τ : Type} (R : OiRepository σ) {c : Call} (stack : Stack σ τ) {s : τ}
    (h : stack.Admits c s) :
    Carries stack.base ((stack.repo R).call c) (R.call c) s := by
  induction stack with
  | bare => exact ⟨rfl, rfl⟩
  | walBacked wal inner ih =>
    have hinner : inner.Admits c s.2 :=
      ⟨h.leading, fun snaps hc => ⟨(h.appended snaps hc).1, (h.appended snaps hc).2.2⟩, h.missed⟩
    exact (carries_walBacked (inner.repo R)
      fun snaps hc => ⟨(h.appended snaps hc).1, (h.appended snaps hc).2.1⟩).trans (ih hinner)
  | leaderGated isLeader inner ih =>
    have hinner : inner.Admits c s.2 :=
      ⟨fun hgated => (h.leading hgated).2, h.appended, h.missed⟩
    exact (carries_leaderGated (inner.repo R) fun hgated => (h.leading hgated).1).trans (ih hinner)
  | composite cache leaderGate primary ih =>
    have hprimary : primary.Admits c s.2 :=
      ⟨h.leading, h.appended, fun id hc => (h.missed id hc).2⟩
    exact (carries_composite (primary.repo R) fun id hc => (h.missed id hc).1).trans (ih hprimary)

section

variable {σ τ ω : Type} {c : Call} {base : τ → σ}

theorem refuses_delegate {op : Op τ c.Answer} {s : ω × τ} (h : Refuses base c op s.2) :
    Refuses (fun t => base t.2) c (delegate op) s :=
  ⟨h.error, h.untouched⟩

/-- A gate that is shut refuses, and one that is open passes a refusal on. -/
theorem refuses_ifLeader {isLeader : LeaderGate ω} {op : Op τ c.Answer} {s : ω × τ}
    (h : isLeader s.1 = false ∨ Refuses base c op s.2) :
    Refuses (fun t => base t.2) c (ifLeader isLeader op) s := by
  cases hgate : isLeader s.1 with
  | false =>
    have hop : ifLeader isLeader op s = (.error (.storage "not leader"), s) :=
      if_neg (by simp [hgate])
    constructor
    · intro _
      exact ⟨_, congrArg Prod.fst hop⟩
    · rw [hop]
  | true =>
    have hop : ifLeader isLeader op s = delegate op s := if_pos hgate
    have hinner : Refuses base c op s.2 := h.resolve_left (by simp [hgate])
    constructor
    · rw [hop]
      exact hinner.error
    · rw [hop]
      exact hinner.untouched

/-- The WAL keeps the batch, and the error of the inner repository comes back. -/
theorem refuses_walBacked {wal : FileWal ω} {inner : OiRepository τ} {s : ω × τ}
    (h : Refuses base c (inner.call c) s.2) :
    Refuses (fun t => base t.2) c ((walBacked wal inner).call c) s := by
  cases c
  case upsertSnapshots snaps =>
    by_cases hempty : snaps = []
    · subst hempty
      exact ⟨fun hne => absurd rfl hne, rfl⟩
    · have hop : ∃ e w,
          (walBacked wal inner).call (.upsertSnapshots snaps) s = (.error e, (w, s.2)) ∨
          (walBacked wal inner).call (.upsertSnapshots snaps) s =
            (.error e, (w, (inner.upsertSnapshots snaps s.2).2)) := by
        obtain ⟨e, herror⟩ := h.error (by simpa using hempty)
        have hnonempty : snaps.isEmpty = false := List.isEmpty_eq_false_iff.mpr hempty
        change (inner.upsertSnapshots snaps s.2).1 = .error e at herror
        unfold OiRepository.call walBacked
        dsimp only
        rw [hnonempty]
        cases happend : wal.append snaps s.1 with
        | mk appended w =>
          cases appended with
          | error e' => exact ⟨e', w, .inl rfl⟩
          | ok path =>
            cases hinner : inner.upsertSnapshots snaps s.2 with
            | mk answer t =>
              rw [hinner] at herror
              subst herror
              exact ⟨e, w, .inr rfl⟩
      obtain ⟨e, w, hop | hop⟩ := hop
      · exact ⟨fun _ => ⟨e, congrArg Prod.fst hop⟩, by rw [hop]⟩
      · exact ⟨fun _ => ⟨e, congrArg Prod.fst hop⟩, by rw [hop]; exact h.untouched⟩
  all_goals exact refuses_delegate h

theorem refuses_leaderGated {isLeader : LeaderGate ω} {inner : OiRepository τ} {s : ω × τ}
    (hgated : c.gated = true) (h : isLeader s.1 = false ∨ Refuses base c (inner.call c) s.2) :
    Refuses (fun t => base t.2) c ((leaderGatedRepo isLeader inner).call c) s := by
  cases c
  case upsertSnapshots => exact refuses_ifLeader h
  case upsertFunding => exact refuses_ifLeader h
  case upsertFundingEvents => exact refuses_ifLeader h
  all_goals cases hgated

theorem refuses_composite {cache : RedisCache ω} {leaderGate : Option (LeaderGate ω)}
    {primary : OiRepository τ} {s : ω × τ} (hgated : c.gated = true)
    (h : Refuses base c (primary.call c) s.2) :
    Refuses (fun t => base t.2) c ((compositeRepository cache leaderGate primary).call c) s := by
  cases c
  case upsertSnapshots snaps =>
    have hop : Carries Prod.snd ((compositeRepository cache leaderGate primary).call _)
        (primary.call (.upsertSnapshots snaps)) s :=
      carries_composite primary fun id hc => by cases hc
    constructor
    · intro hne
      rw [hop.answer]
      exact h.error hne
    · rw [hop.state]
      exact h.untouched
  case upsertFunding => exact refuses_delegate h
  case upsertFundingEvents => exact refuses_delegate h
  all_goals cases hgated

end

/-- One shut gate is enough, wherever it stands. -/
theorem refuses_repo {σ τ : Type} (R : OiRepository σ) {c : Call} (hgated : c.gated = true)
    (stack : Stack σ τ) {s : τ} (h : stack.Following s) :
    Refuses stack.base c ((stack.repo R).call c) s := by
  induction stack with
  | bare => cases h
  | walBacked wal inner ih => exact refuses_walBacked (ih h)
  | leaderGated isLeader inner ih => exact refuses_leaderGated hgated (h.imp_right ih)
  | composite cache leaderGate primary ih => exact refuses_composite hgated (ih h)

/-- The call has reached the innermost repository once, with its own arguments, and its
answer and its effect there are the ones of that repository. -/
structure Reaches {σ τ : Type} (stack : Stack (σ × List Call) τ) (R : OiRepository σ) (c : Call)
    (s : τ) : Prop where
  answer : ((stack.repo R.recorded).call c s).1 = (R.call c (stack.base s).1).1
  state : (stack.base ((stack.repo R.recorded).call c s).2).1 = (R.call c (stack.base s).1).2
  once : (stack.base ((stack.repo R.recorded).call c s).2).2 = (stack.base s).2 ++ [c]

/-- A stack is transparent for every method, and a shut gate holds back the gated writes
and no read. -/
theorem stack_transparent {σ τ : Type} (stack : Stack (σ × List Call) τ) (R : OiRepository σ)
    (c : Call) (s : τ) :
    (stack.Admits c s → Reaches stack R c s) ∧
      (stack.Following s → c.gated = true →
        Refuses stack.base c ((stack.repo R.recorded).call c) s) := by
  constructor
  · intro h
    obtain ⟨hanswer, hstate⟩ := call_repo R.recorded stack h
    rw [OiRepository.call_recorded] at hanswer hstate
    exact ⟨hanswer, congrArg Prod.fst hstate, congrArg Prod.snd hstate⟩
  · intro h hgated
    exact refuses_repo R.recorded hgated stack h

/-- A repository that keeps its bars in memory. -/
def memory : OiRepository (List OiSnapshot) where
  upsertSnapshots snaps := fun s => (.ok (), s ++ snaps)
  upsertInstruments _ := fun s => (.ok (), s)
  range id lo hi := fun s =>
    (.ok (s.filter fun bar => bar.instrument = id ∧ lo ≤ bar.bucketTs ∧ bar.bucketTs < hi), s)
  latest id := fun s => (.ok (s.filter fun bar => bar.instrument = id).getLast?, s)

/-- The stack of a node: the gate next to the repository, the WAL around it, Redis outside.
The state of each wrapper holds the batches it has seen. -/
def node : Stack (List OiSnapshot × List Call)
    (List OiSnapshot × List String × Bool × List OiSnapshot × List Call) :=
  .composite
    ⟨fun snaps s => (.ok (), s ++ snaps), fun _ s => (.ok (), s), fun _ s => (.ok none, s)⟩
    none
    (.walBacked
      ⟨fun _ s => (.ok "batch.mpk", s ++ ["batch.mpk"]), fun path s => (.ok (), s.erase path)⟩
      (.leaderGated (fun isLeader => isLeader) .bare))

/-- The leader of a pair stores the batch and the follower does not. -/
theorem stack_transparent_node :
    Reaches node memory (.upsertSnapshots [.startFromSample (sampleAt 0 0)])
        ([], [], true, [], []) ∧
      Refuses node.base (.upsertSnapshots [.startFromSample (sampleAt 0 0)])
        ((node.repo memory.recorded).call _) ([], [], false, [], []) := by
  constructor
  · apply (stack_transparent node memory _ _).1
    constructor
    case leading => exact fun _ => ⟨rfl, trivial⟩
    case appended =>
      intro snaps hsnaps
      cases hsnaps
      exact ⟨by simp, ⟨_, _, rfl, rfl⟩, trivial⟩
    case missed =>
      intro id hid
      cases hid
  · exact (stack_transparent node memory _ _).2 (.inl rfl) rfl

end OiTerminal.Storage.Decorators
