import OiTerminal.Collector.Aggregator
import OiTerminal.Core.Time
import OiTerminal.Lib.Transition

/-!
# The two producers of a live venue

The WebSocket task and the minute loop of one exchange share an aggregator. WebSocket
samples carry the minute that contains their receive time, the samples of a tick carry
the minute that the tick closes. The steps below are the points where the two tasks can
interleave. `folded`, `flushed` and `seen` record the history and influence nothing.
-/
namespace OiTerminal.Collector.LiveFeed

open OiTerminal.Core OiTerminal.Core.Time OiTerminal.Lib.Transition

set_option autoImplicit false

/-- Where the minute loop stands. -/
inductive Phase where
  | idle
  | observing
  | flushing (keys : List InstrumentId)
  deriving DecidableEq

structure Feed where
  agg : OiAggregator
  now : Int
  phase : Phase
  /-- The bucket of the current or, when idle, of the next tick. -/
  bucket : Int
  folded : InstrumentId → List OiSample
  flushed : List (OiSnapshot × List OiSample)
  seen : List OiSample

inductive Action where
  | ws (s : OiSample)
  | tick (t : Int) (fetched : Bool)
  | rest (s : OiSample)
  | flushThrough
  | remove
  | tickEnds

def start (bucket now : Int) : Feed where
  agg := .new
  now := now
  phase := .idle
  bucket := bucket
  folded := fun _ => []
  flushed := []
  seen := []

/-- The samples behind the bar that `observe` leaves, given those behind the entry. -/
def contributors (entry : Option OiSnapshot) (prior : List OiSample) (s : OiSample) :
    List OiSample :=
  match entry with
  | none => [s]
  | some bar =>
    if bar.bucketTs = s.bucketTs then
      if bar.samples = 1 ∧ bar.lastRecvTs = s.recvTs then prior else prior ++ [s]
    else [s]

namespace Feed

/-- No earlier sample of the instrument was received at the same instant. -/
def Fresh (f : Feed) (s : OiSample) : Prop :=
  ∀ x ∈ f.seen, x.instrument = s.instrument → x.recvTs ≠ s.recvTs

instance (f : Feed) (s : OiSample) : Decidable (f.Fresh s) :=
  inferInstanceAs (Decidable (∀ x ∈ f.seen, x.instrument = s.instrument → x.recvTs ≠ s.recvTs))

def observe (f : Feed) (s : OiSample) : Feed :=
  { f with
    agg := (f.agg.observe s).1
    folded := Function.update f.folded s.instrument
      (contributors (f.agg.current s.instrument) (f.folded s.instrument) s)
    seen := s :: f.seen }

/-- A frame is observed when it is received. -/
def frame (f : Feed) (s : OiSample) : Feed := { f.observe s with now := s.recvTs }

/-- Remove one collected key. A key that is gone is skipped. -/
def removeKey (f : Feed) (k : InstrumentId) (rest : List InstrumentId) : Feed :=
  { f with
    agg := (f.agg.remove k).2
    phase := .flushing rest
    folded := Function.update f.folded k []
    flushed := ((f.agg.remove k).1.toList.map fun bar => (bar, f.folded k)) ++ f.flushed }

end Feed

/-- One atomic step of either task. A tick executes two seconds after its minute has
ended, or later. When `fetch_oi` fails the loop goes on to the next minute. -/
def step (f : Feed) : Action → Option Feed
  | .ws s =>
    if f.now ≤ s.recvTs ∧ s.bucketTs = floorToMinute s.recvTs ∧ f.Fresh s then
      some (f.frame s)
    else none
  | .tick t fetched =>
    if f.phase = .idle ∧ f.now ≤ t ∧ f.bucket + minutes 1 + seconds 2 ≤ t then
      if fetched then some { f with now := t, phase := .observing }
      else some { f with now := t, bucket := f.bucket + minutes 1 }
    else none
  | .rest s =>
    if f.phase = .observing ∧ s.bucketTs = f.bucket ∧ f.Fresh s then some (f.observe s) else none
  | .flushThrough =>
    if f.phase = .observing then
      some { f with phase := .flushing (f.agg.keysThrough f.bucket) }
    else none
  | .remove =>
    match f.phase with
    | .flushing (k :: rest) => some (f.removeKey k rest)
    | _ => none
  | .tickEnds =>
    if f.phase = .flushing [] then
      some { f with phase := .idle, bucket := f.bucket + minutes 1 }
    else none

/-- `bar` is the fold of `l`, belongs to the sample's instrument and minute, and the
sample is one of those folded. -/
structure Covers (bar : OiSnapshot) (l : List OiSample) (s : OiSample) : Prop where
  mem : s ∈ l
  fold : barOf l = some bar
  instrument : s.instrument = bar.instrument
  bucket : s.bucketTs = bar.bucketTs

/-- Every observed sample sits in a flushed or in-progress bar of its own minute, and a
flushed bar covers all samples of its minute. -/
structure NoLoss (f : Feed) : Prop where
  covered : ∀ s ∈ f.seen, (∃ e ∈ f.flushed, Covers e.1 e.2 s) ∨
    ∃ bar, f.agg.current s.instrument = some bar ∧ Covers bar (f.folded s.instrument) s
  complete : ∀ e ∈ f.flushed, ∀ s ∈ f.seen, s.instrument = e.1.instrument →
    s.bucketTs = e.1.bucketTs → Covers e.1 e.2 s

/-- An open bar of the sample's instrument is of the sample's minute. -/
def SameMinute (f : Feed) (s : OiSample) : Prop :=
  ∀ bar, f.agg.current s.instrument = some bar → bar.bucketTs = s.bucketTs

/-- The step does not take the replacing branch of `observe`. -/
def NoRoll (f : Feed) : Action → Prop
  | .ws s | .rest s => SameMinute f s
  | _ => True

/-- What holds in every state that is reached without a roll. -/
structure Inv (f : Feed) : Prop where
  vacant : ∀ id, f.agg.current id = none → f.folded id = []
  opened : ∀ id bar, f.agg.current id = some bar →
    bar.instrument = id ∧ barOf (f.folded id) = some bar
  members : ∀ id, ∀ s ∈ f.folded id, s.instrument = id ∧ s ∈ f.seen ∧
    ∀ bar, f.agg.current id = some bar → s.bucketTs = bar.bucketTs
  closed : ∀ e ∈ f.flushed, ∀ s ∈ e.2, Covers e.1 e.2 s ∧ s ∈ f.seen
  disjoint : ∀ e ∈ f.flushed, ∀ id, ∀ s ∈ f.folded id, s ∉ e.2
  placed : ∀ s ∈ f.seen, (∃ e ∈ f.flushed, s ∈ e.2) ∨ s ∈ f.folded s.instrument
  complete : ∀ e ∈ f.flushed, ∀ s ∈ f.seen, s.instrument = e.1.instrument →
    s.bucketTs = e.1.bucketTs → s ∈ e.2
  elapsed : ∀ e ∈ f.flushed, e.1.bucketTs + minutes 1 + seconds 2 ≤ f.now
  ticked : f.phase ≠ .idle → f.bucket + minutes 1 + seconds 2 ≤ f.now
  before : ∀ e ∈ f.flushed, e.1.bucketTs ≤ f.bucket
  notYet : (∀ keys, f.phase ≠ .flushing keys) → ∀ e ∈ f.flushed, e.1.bucketTs < f.bucket
  keys : ∀ ks, f.phase = .flushing ks → ks.Nodup ∧
    ∀ k ∈ ks, ∃ bar, f.agg.current k = some bar ∧ bar.bucketTs ≤ f.bucket

theorem inv_start (bucket now : Int) : Inv (start bucket now) where
  vacant _ _ := rfl
  opened id bar h := by simp [start] at h
  members _ _ h := by simp [start] at h
  closed _ h := by simp [start] at h
  disjoint _ h := by simp [start] at h
  placed _ h := by simp [start] at h
  complete _ h := by simp [start] at h
  elapsed _ h := by simp [start] at h
  ticked h := absurd rfl h
  before _ h := by simp [start] at h
  notYet _ _ h := by simp [start] at h
  keys _ h := by simp [start] at h

variable {f : Feed} {s : OiSample} {id : InstrumentId}

theorem step_ws (hnow : f.now ≤ s.recvTs) (hb : s.bucketTs = floorToMinute s.recvTs)
    (hfresh : f.Fresh s) : step f (.ws s) = some (f.frame s) := if_pos ⟨hnow, hb, hfresh⟩

theorem observe_current_ne (h : id ≠ s.instrument) :
    (f.observe s).agg.current id = f.agg.current id := OiAggregator.observe_current_ne h

theorem observe_folded_ne (h : id ≠ s.instrument) : (f.observe s).folded id = f.folded id :=
  Function.update_of_ne h _ _

/-- Without a roll the sample extends the list behind the entry. -/
theorem observe_entry (h : Inv f) (hfresh : f.Fresh s) (hsame : SameMinute f s) :
    ∃ bar, (f.observe s).agg.current s.instrument = some bar ∧
      (f.observe s).folded s.instrument = f.folded s.instrument ++ [s] ∧
      barOf (f.folded s.instrument ++ [s]) = some bar ∧
      bar.instrument = s.instrument ∧ bar.bucketTs = s.bucketTs := by
  cases hcur : f.agg.current s.instrument with
  | none =>
    have hnil : f.folded s.instrument = [] := h.vacant _ hcur
    refine ⟨.startFromSample s, ?_, ?_, by rw [hnil]; exact barOf_singleton s, rfl, rfl⟩
    · simp [Feed.observe, OiAggregator.observe_vacant hcur]
    · simp [Feed.observe, contributors, hcur, hnil]
  | some bar =>
    obtain ⟨hinst, hfold⟩ := h.opened _ bar hcur
    have hb : bar.bucketTs = s.bucketTs := hsame bar hcur
    -- the receive time of the bar is that of a sample seen before
    have hnew : bar.lastRecvTs ≠ s.recvTs := by
      obtain ⟨x, hx, hlast⟩ := exists_lastRecvTs hfold
      obtain ⟨hxi, hseen, _⟩ := h.members _ x hx
      rw [hlast]
      exact hfresh x hseen hxi
    refine ⟨bar.fold s, ?_, ?_, barOf_append hfold hinst.symm hb.symm, hinst, hb⟩
    · simp [Feed.observe, OiAggregator.observe_fold hcur hinst.symm hb hnew]
    · simp [Feed.observe, contributors, hcur, hb, hnew]

/-- Behind the bars are the samples from before and the new one. -/
theorem mem_observe_folded (hlist : (f.observe s).folded s.instrument =
    f.folded s.instrument ++ [s]) {x : OiSample} :
    x ∈ (f.observe s).folded id ↔ x ∈ f.folded id ∨ x = s ∧ id = s.instrument := by
  by_cases hid : id = s.instrument
  · subst hid
    rw [hlist, List.mem_append, List.mem_singleton]
    simp
  · rw [observe_folded_ne hid]
    simp [hid]

/-- Observing without a roll keeps the invariant, as long as no bar of the sample's
minute has been flushed. -/
theorem inv_observe (h : Inv f) (hfresh : f.Fresh s) (hsame : SameMinute f s)
    (hopen : ∀ e ∈ f.flushed, e.1.bucketTs ≠ s.bucketTs) : Inv (f.observe s) := by
  obtain ⟨bar, hcur, hlist, hfold, hinst, hbucket⟩ := observe_entry h hfresh hsame
  have hnotSeen : s ∉ f.seen := fun hs => hfresh s hs rfl rfl
  constructor
  case vacant =>
    intro id hid
    have hne : id ≠ s.instrument := by
      rintro rfl
      rw [hcur] at hid
      cases hid
    rw [observe_folded_ne hne]
    exact h.vacant id (by rwa [observe_current_ne hne] at hid)
  case opened =>
    intro id b hb
    by_cases hid : id = s.instrument
    · subst hid
      obtain rfl : bar = b := Option.some.inj (hcur.symm.trans hb)
      exact ⟨hinst, hlist ▸ hfold⟩
    · rw [observe_current_ne hid] at hb
      rw [observe_folded_ne hid]
      exact h.opened id b hb
  case members =>
    intro id x hx
    rcases (mem_observe_folded hlist).mp hx with hold | ⟨rfl, rfl⟩
    case inr =>
      refine ⟨rfl, List.mem_cons_self, fun b hb => ?_⟩
      obtain rfl : bar = b := Option.some.inj (hcur.symm.trans hb)
      exact hbucket.symm
    case inl =>
      obtain ⟨hxi, hseen, hxb⟩ := h.members id x hold
      refine ⟨hxi, List.mem_cons_of_mem s hseen, fun b hb => ?_⟩
      by_cases hid : id = s.instrument
      · subst hid
        obtain rfl : bar = b := Option.some.inj (hcur.symm.trans hb)
        cases hentry : f.agg.current s.instrument with
        | none => rw [h.vacant _ hentry] at hold; cases hold
        | some old => rw [hxb old hentry, hsame old hentry, hbucket]
      · exact hxb b (by rwa [observe_current_ne hid] at hb)
  case closed =>
    intro e he x hx
    obtain ⟨hcov, hseen⟩ := h.closed e he x hx
    exact ⟨hcov, List.mem_cons_of_mem s hseen⟩
  case disjoint =>
    intro e he id x hx hmem
    rcases (mem_observe_folded hlist).mp hx with hold | ⟨rfl, _⟩
    · exact h.disjoint e he id x hold hmem
    · exact hnotSeen (h.closed e he x hmem).2
  case placed =>
    intro x hx
    rcases List.mem_cons.mp hx with rfl | hseen
    · exact .inr ((mem_observe_folded hlist).mpr (.inr ⟨rfl, rfl⟩))
    · exact (h.placed x hseen).imp_right fun hold => (mem_observe_folded hlist).mpr (.inl hold)
  case complete =>
    intro e he x hx hxi hxb
    rcases List.mem_cons.mp hx with rfl | hseen
    · exact absurd hxb.symm (hopen e he)
    · exact h.complete e he x hseen hxi hxb
  case elapsed => exact h.elapsed
  case ticked => exact h.ticked
  case before => exact h.before
  case notYet => exact h.notYet
  case keys =>
    intro ks hks
    obtain ⟨hnd, hbars⟩ := h.keys ks hks
    refine ⟨hnd, fun k hk => ?_⟩
    obtain ⟨old, hold, hle⟩ := hbars k hk
    by_cases hid : k = s.instrument
    · subst hid
      exact ⟨bar, hcur, by rwa [hbucket, ← hsame old hold]⟩
    · exact ⟨old, by rwa [observe_current_ne hid], hle⟩

/-- Time passes without an effect on the invariant. -/
theorem inv_later (h : Inv f) {now : Int} (hle : f.now ≤ now) : Inv { f with now := now } :=
  { h with
    elapsed := fun e he => (h.elapsed e he).trans hle
    ticked := fun hp => (h.ticked hp).trans hle }

theorem removeKey_current_ne {k : InstrumentId} {rest : List InstrumentId} (h : id ≠ k) :
    (f.removeKey k rest).agg.current id = f.agg.current id := OiAggregator.current_remove_ne h

theorem removeKey_folded_ne {k : InstrumentId} {rest : List InstrumentId} (h : id ≠ k) :
    (f.removeKey k rest).folded id = f.folded id := Function.update_of_ne h _ _

/-- No flushed bar shares instrument and minute with an open one. -/
theorem open_not_flushed (h : Inv f) {bar : OiSnapshot} (hcur : f.agg.current id = some bar)
    {e : OiSnapshot × List OiSample} (he : e ∈ f.flushed) (hi : e.1.instrument = id) :
    e.1.bucketTs ≠ bar.bucketTs := by
  intro hb
  obtain ⟨hinst, hfold⟩ := h.opened id bar hcur
  obtain ⟨x, hx⟩ := List.exists_mem_of_ne_nil _ (barOf_ne_nil hfold)
  obtain ⟨hxi, hseen, hxb⟩ := h.members id x hx
  have hxe : x ∈ e.2 :=
    h.complete e he x hseen (hxi.trans hi.symm) ((hxb bar hcur).trans hb.symm)
  exact h.disjoint e he id x hx hxe

/-- What was seen of an open bar's minute is behind the bar. -/
theorem mem_folded_of_open (h : Inv f) {bar : OiSnapshot} (hcur : f.agg.current id = some bar)
    {x : OiSample} (hseen : x ∈ f.seen) (hxi : x.instrument = id)
    (hxb : x.bucketTs = bar.bucketTs) : x ∈ f.folded id := by
  rcases h.placed x hseen with ⟨e, he, hxe⟩ | hopen
  · have hcov := (h.closed e he x hxe).1
    exact absurd (hcov.bucket.symm.trans hxb)
      (open_not_flushed h hcur he (hcov.instrument.symm.trans hxi))
  · exact hxi ▸ hopen

theorem removeKey_folded_self {k : InstrumentId} {rest : List InstrumentId} :
    (f.removeKey k rest).folded k = [] := Function.update_self _ _ _

theorem mem_removeKey_folded {k : InstrumentId} {rest : List InstrumentId} {x : OiSample}
    (hx : x ∈ (f.removeKey k rest).folded id) : id ≠ k ∧ x ∈ f.folded id := by
  have hne : id ≠ k := by
    rintro rfl
    rw [removeKey_folded_self] at hx
    cases hx
  exact ⟨hne, by rwa [removeKey_folded_ne hne] at hx⟩

/-- The bar under a key goes to the flushed bars with the samples behind it. -/
theorem mem_removeKey_flushed {k : InstrumentId} {rest : List InstrumentId} {bar : OiSnapshot}
    (hcur : f.agg.current k = some bar) {e : OiSnapshot × List OiSample} :
    e ∈ (f.removeKey k rest).flushed ↔ e = (bar, f.folded k) ∨ e ∈ f.flushed := by
  simp [Feed.removeKey, OiAggregator.remove, hcur]

theorem inv_removeKey (h : Inv f) {k : InstrumentId} {rest : List InstrumentId}
    (hphase : f.phase = .flushing (k :: rest)) : Inv (f.removeKey k rest) := by
  obtain ⟨hnd, hbars⟩ := h.keys _ hphase
  obtain ⟨hk, hrest⟩ := List.nodup_cons.mp hnd
  obtain ⟨bar, hcur, hle⟩ := hbars k List.mem_cons_self
  obtain ⟨hinst, hfold⟩ := h.opened k bar hcur
  have hgone : (f.removeKey k rest).agg.current k = none := OiAggregator.current_remove _ k
  have helapsed : bar.bucketTs + minutes 1 + seconds 2 ≤ f.now := by
    have h2 : f.bucket + minutes 1 + seconds 2 ≤ f.now := h.ticked (by rw [hphase]; simp)
    omega
  constructor
  case vacant =>
    intro id hid
    by_cases hne : id = k
    · rw [hne, removeKey_folded_self]
    · rw [removeKey_folded_ne hne]
      exact h.vacant id (by rwa [removeKey_current_ne hne] at hid)
  case opened =>
    intro id b hb
    have hne : id ≠ k := by
      rintro rfl
      rw [hgone] at hb
      cases hb
    rw [removeKey_current_ne hne] at hb
    rw [removeKey_folded_ne hne]
    exact h.opened id b hb
  case members =>
    intro id x hx
    obtain ⟨hne, hold⟩ := mem_removeKey_folded hx
    rw [removeKey_current_ne hne]
    exact h.members id x hold
  case closed =>
    intro e he x hx
    rcases (mem_removeKey_flushed hcur).mp he with rfl | hold
    · obtain ⟨hxi, hseen, hxb⟩ := h.members k x hx
      exact ⟨⟨hx, hfold, hxi.trans hinst.symm, hxb bar hcur⟩, hseen⟩
    · exact h.closed e hold x hx
  case disjoint =>
    intro e he id x hx
    obtain ⟨hne, hold⟩ := mem_removeKey_folded hx
    rcases (mem_removeKey_flushed hcur).mp he with rfl | hmem
    · intro hxk
      exact hne ((h.members id x hold).1.symm.trans (h.members k x hxk).1)
    · exact h.disjoint e hmem id x hold
  case placed =>
    intro x hx
    rcases h.placed x hx with ⟨e, he, hxe⟩ | hopen
    · exact .inl ⟨e, (mem_removeKey_flushed hcur).mpr (.inr he), hxe⟩
    · by_cases hxk : x.instrument = k
      · exact .inl ⟨_, (mem_removeKey_flushed hcur).mpr (.inl rfl), hxk ▸ hopen⟩
      · exact .inr (by rwa [removeKey_folded_ne hxk])
  case complete =>
    intro e he x hx hxi hxb
    rcases (mem_removeKey_flushed hcur).mp he with rfl | hold
    · exact mem_folded_of_open h hcur hx (hxi.trans hinst) hxb
    · exact h.complete e hold x hx hxi hxb
  case elapsed =>
    intro e he
    rcases (mem_removeKey_flushed hcur).mp he with rfl | hold
    · exact helapsed
    · exact h.elapsed e hold
  case ticked => exact fun _ => h.ticked (by rw [hphase]; simp)
  case before =>
    intro e he
    rcases (mem_removeKey_flushed hcur).mp he with rfl | hold
    · exact hle
    · exact h.before e hold
  case notYet => exact fun hp => absurd rfl (hp rest)
  case keys =>
    intro ks hks
    obtain rfl : rest = ks := by injection hks
    refine ⟨hrest, fun k' hk' => ?_⟩
    obtain ⟨b, hb, hbl⟩ := hbars k' (List.mem_cons_of_mem k hk')
    have hne : k' ≠ k := fun he => hk (he ▸ hk')
    exact ⟨b, by rwa [removeKey_current_ne hne], hbl⟩

/-- A frame that arrives now belongs to a minute that no tick has flushed yet. -/
theorem ws_minute_open (h : Inv f) (hnow : f.now ≤ s.recvTs)
    (hb : s.bucketTs = floorToMinute s.recvTs) : ∀ e ∈ f.flushed, e.1.bucketTs ≠ s.bucketTs := by
  intro e he
  have helapsed := h.elapsed e he
  rw [hb, floorToMinute_eq]
  simp only [minutes, seconds] at helapsed ⊢
  omega

theorem inv_step {f' : Feed} {a : Action} (h : Inv f) (hok : NoRoll f a)
    (hstep : step f a = some f') : Inv f' := by
  cases a with
  | ws s =>
    simp only [step, Option.ite_none_right_eq_some, Option.some.injEq] at hstep
    obtain ⟨⟨hnow, hb, hfresh⟩, rfl⟩ := hstep
    exact inv_later (inv_observe h hfresh hok (ws_minute_open h hnow hb)) hnow
  | tick t fetched =>
    simp only [step, Option.ite_none_right_eq_some] at hstep
    obtain ⟨⟨hidle, hnow, hdue⟩, hpost⟩ := hstep
    have hlater := inv_later h hnow
    have hnotYet : ∀ e ∈ f.flushed, e.1.bucketTs < f.bucket :=
      h.notYet fun keys hk => by rw [hidle] at hk; cases hk
    cases fetched with
    | true =>
      obtain rfl := Option.some.inj hpost
      exact { hlater with
        ticked := fun _ => hdue
        notYet := fun _ => hnotYet
        keys := fun ks hks => by cases hks }
    | false =>
      obtain rfl := Option.some.inj hpost
      have hmin : f.bucket < f.bucket + minutes 1 := by simp only [minutes]; omega
      exact { hlater with
        ticked := fun hp => absurd hidle hp
        before := fun e he => (hnotYet e he).le.trans hmin.le
        notYet := fun _ e he => (hnotYet e he).trans hmin
        keys := fun ks hks => by rw [hidle] at hks; cases hks }
  | rest s =>
    simp only [step, Option.ite_none_right_eq_some, Option.some.injEq] at hstep
    obtain ⟨⟨hphase, hb, hfresh⟩, rfl⟩ := hstep
    have hnotYet : ∀ e ∈ f.flushed, e.1.bucketTs < f.bucket :=
      h.notYet fun keys hk => by rw [hphase] at hk; cases hk
    exact inv_observe h hfresh hok fun e he => by rw [hb]; exact (hnotYet e he).ne
  | flushThrough =>
    simp only [step, Option.ite_none_right_eq_some, Option.some.injEq] at hstep
    obtain ⟨hphase, rfl⟩ := hstep
    exact { h with
      ticked := fun _ => h.ticked (by rw [hphase]; simp)
      notYet := fun hp => absurd rfl (hp _)
      keys := fun ks hks => by
        obtain rfl : f.agg.keysThrough f.bucket = ks := by injection hks
        exact ⟨OiAggregator.keysThrough_nodup _ _, fun k hk => OiAggregator.mem_keysThrough.mp hk⟩ }
  | remove =>
    cases hphase : f.phase with
    | idle => simp [step, hphase] at hstep
    | observing => simp [step, hphase] at hstep
    | flushing keys =>
      cases keys with
      | nil => simp [step, hphase] at hstep
      | cons k rest =>
        simp only [step, hphase, Option.some.injEq] at hstep
        exact hstep ▸ inv_removeKey h hphase
  | tickEnds =>
    simp only [step, Option.ite_none_right_eq_some, Option.some.injEq] at hstep
    obtain ⟨hphase, rfl⟩ := hstep
    have hmin : f.bucket < f.bucket + minutes 1 := by simp only [minutes]; omega
    exact { h with
      ticked := fun hp => absurd rfl hp
      before := fun e he => (h.before e he).trans hmin.le
      notYet := fun _ e he => (h.before e he).trans_lt hmin
      keys := fun ks hks => by cases hks }

theorem noLoss_of_inv (h : Inv f) : NoLoss f where
  covered s hs := by
    have hflushed : (∃ e ∈ f.flushed, s ∈ e.2) → ∃ e ∈ f.flushed, Covers e.1 e.2 s :=
      fun ⟨e, he, hse⟩ => ⟨e, he, (h.closed e he s hse).1⟩
    refine (h.placed s hs).imp hflushed fun hopen => ?_
    cases hcur : f.agg.current s.instrument with
    | none =>
      rw [h.vacant _ hcur] at hopen
      cases hopen
    | some bar =>
      obtain ⟨hinst, hfold⟩ := h.opened _ bar hcur
      exact ⟨bar, rfl, hopen, hfold, hinst.symm, (h.members _ s hopen).2.2 bar hcur⟩
  complete e he s hs hi hb := (h.closed e he s (h.complete e he s hs hi hb)).1

/-- A roll drops what the replaced bar held. -/
theorem not_noLoss_of_roll (h : Inv f) (now : Int) (hroll : ¬ SameMinute f s) :
    ¬ NoLoss { f.observe s with now := now } := by
  simp only [SameMinute, not_forall] at hroll
  obtain ⟨bar, hcur, hb⟩ := hroll
  obtain ⟨hinst, hfold⟩ := h.opened _ bar hcur
  obtain ⟨x, hx⟩ := List.exists_mem_of_ne_nil _ (barOf_ne_nil hfold)
  obtain ⟨hxi, hseen, hxb⟩ := h.members _ x hx
  intro hloss
  rcases hloss.covered x (List.mem_cons_of_mem s hseen) with ⟨e, he, hcov⟩ | ⟨bar', hcur', hcov⟩
  · exact h.disjoint e he _ x hx hcov.mem
  · have hnow : (f.observe s).agg.current s.instrument = some (.startFromSample s) := by
      simp [Feed.observe, OiAggregator.observe_roll hcur hb]
    change (f.observe s).agg.current x.instrument = some bar' at hcur'
    rw [hxi, hnow] at hcur'
    obtain rfl := Option.some.inj hcur'
    exact hb ((hxb bar hcur).symm.trans hcov.bucket)

/-- The runs that lose no sample are exactly those in which no observed sample meets an
open bar of another minute. -/
theorem noLoss_iff_noRoll (bucket now : Int) (acts : List Action) :
    Throughout step NoLoss (start bucket now) acts ↔
      Along step NoRoll (start bucket now) acts := by
  refine throughout_iff_along (fun _ _ _ h hok hs => inv_step h hok hs)
    (fun _ => noLoss_of_inv) ?_ (inv_start bucket now)
  intro f a f' h hstep hloss
  cases a with
  | ws s =>
    simp only [step, Option.ite_none_right_eq_some, Option.some.injEq] at hstep
    obtain ⟨_, rfl⟩ := hstep
    by_contra hroll
    exact not_noLoss_of_roll h s.recvTs hroll hloss
  | rest s =>
    simp only [step, Option.ite_none_right_eq_some, Option.some.injEq] at hstep
    obtain ⟨_, rfl⟩ := hstep
    by_contra hroll
    exact not_noLoss_of_roll h f.now hroll hloss
  | tick t fetched => trivial
  | flushThrough => trivial
  | remove => trivial
  | tickEnds => trivial

/-- The removals that follow a scan compose to the rest of `flush_through` when no frame
arrives in between. -/
theorem run_removals {keys : List InstrumentId} (hphase : f.phase = .flushing keys) :
    ∃ f', run step f (keys.map fun _ => .remove) = some f' ∧ f'.phase = .flushing [] ∧
      f'.agg = (f.agg.drain keys).2 ∧
      f'.flushed.map Prod.fst = (f.agg.drain keys).1.reverse ++ f.flushed.map Prod.fst := by
  induction keys generalizing f with
  | nil => exact ⟨f, rfl, hphase, rfl, rfl⟩
  | cons k rest ih =>
    obtain ⟨f', hrun, hend, hagg, hout⟩ := ih (f := f.removeKey k rest) rfl
    have hstep : step f .remove = some (f.removeKey k rest) := by simp [step, hphase]
    refine ⟨f', run_cons_eq_some.mpr ⟨_, hstep, hrun⟩, hend, hagg, ?_⟩
    rw [hout]
    show ((f.agg.remove k).2.drain rest).1.reverse ++ (f.removeKey k rest).flushed.map Prod.fst =
      ((f.agg.current k).toList ++ ((f.agg.remove k).2.drain rest).1).reverse ++ _
    cases hcur : f.agg.current k <;> simp [Feed.removeKey, OiAggregator.remove, hcur]

/-- Undisturbed, the steps of a flush compute `flush_through`. -/
theorem run_flushThrough (hphase : f.phase = .observing) :
    ∃ f', run step f (.flushThrough :: (f.agg.keysThrough f.bucket).map fun _ => .remove) =
        some f' ∧ f'.agg = (f.agg.flushThrough f.bucket).2 ∧
      f'.flushed.map Prod.fst =
        (f.agg.flushThrough f.bucket).1.reverse ++ f.flushed.map Prod.fst := by
  obtain ⟨f', hrun, _, hagg, hout⟩ :=
    run_removals (f := { f with phase := .flushing (f.agg.keysThrough f.bucket) }) rfl
  have hstep : step f .flushThrough =
      some { f with phase := .flushing (f.agg.keysThrough f.bucket) } := by simp [step, hphase]
  exact ⟨f', run_cons_eq_some.mpr ⟨_, hstep, hrun⟩, hagg, hout⟩

/-- Frames at second 30 of a minute and at second 1 of the next, before the tick of the
first minute is due: the second frame replaces the bar that holds the first. -/
theorem frame_before_tick_loses_bar :
    ¬ ∀ bucket now acts, Throughout step NoLoss (start bucket now) acts := by
  intro hall
  let early := sampleAt 0 (seconds 30)
  let late := sampleAt (minutes 1) (seconds 61)
  have hfirst : step (start 0 0) (.ws early) = some ((start 0 0).frame early) :=
    step_ws (by decide) (by decide) (by decide)
  have hsecond : step ((start 0 0).frame early) (.ws late) =
      some (((start 0 0).frame early).frame late) := step_ws (by decide) (by decide) (by decide)
  have hinv : Inv ((start 0 0).frame early) :=
    inv_step (inv_start 0 0) (a := .ws early) (fun bar hb => by simp [start] at hb) hfirst
  have hrun := hall 0 0 [.ws early, .ws late]
  refine not_noLoss_of_roll hinv (seconds 61) ?_ ((hrun.2 _ hfirst).2 _ hsecond)
  intro hsame
  have hbucket := hsame (.startFromSample early) rfl
  exact absurd hbucket (by decide)

end OiTerminal.Collector.LiveFeed
