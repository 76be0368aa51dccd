import OiTerminal.Core.Snapshot
import OiTerminal.Lib.ByKey
import OiTerminal.Lib.Transition

/-!
# The latest bar in Redis and in ClickHouse

`upsert_snapshots` writes to the primary and, on the leader, sets the latest key of every
bar of the batch. The drainer writes to the primary alone. `latest` prefers Redis. Calls
follow one another; each write may fail, a Redis pipeline after any number of its
commands. `shown` lists the bars that Redis has held, and influences nothing.
-/
namespace OiTerminal.Storage.Composite

open OiTerminal.Core OiTerminal.Lib.ByKey OiTerminal.Lib.Transition

set_option autoImplicit false

def latestKey (id : InstrumentId) : String := "oi:latest:" ++ id.key

/-- Two instruments never share a key. -/
theorem latestKey_injective {id id' : InstrumentId} (h : latestKey id = latestKey id') :
    id = id' := by
  have hlist := congrArg String.toList h
  unfold latestKey at hlist
  rw [String.toList_append, String.toList_append] at hlist
  exact InstrumentId.key_injective (String.toList_injective (List.append_cancel_left hlist))

abbrev Cache := String → Option OiSnapshot

structure State where
  primary : List OiSnapshot
  cache : Cache
  shown : List OiSnapshot

/-- One call of `upsert_snapshots`: whether the primary stored the batch, what the gate
answered, and how many commands of the pipeline Redis executed. -/
inductive Act where
  | upsertSnapshots (snaps : List OiSnapshot) (stored leader : Bool) (executed : Nat)
  | drain (snaps : List OiSnapshot)
  | expire (id : InstrumentId)

/-- The pipeline of `SETEX` commands, in the order of the batch. -/
def bulkSetLatest (cache : Cache) (bars : List OiSnapshot) : Cache :=
  bars.foldl (fun c bar => Function.update c (latestKey bar.instrument) (some bar)) cache

/-- The bars of a step that the primary stores. -/
def rows : Act → List OiSnapshot
  | .upsertSnapshots snaps stored _ _ => if stored then snaps else []
  | .drain snaps => snaps
  | .expire _ => []

/-- The bars of a step that reach Redis. -/
def puts : Act → List OiSnapshot
  | .upsertSnapshots snaps _ leader executed => if leader then snaps.take executed else []
  | .drain _ => []
  | .expire _ => []

def step (s : State) (a : Act) : Option State :=
  let written : State :=
    { primary := s.primary ++ rows a
      cache := bulkSetLatest s.cache (puts a)
      shown := s.shown ++ puts a }
  match a with
  | .expire id => some { written with cache := Function.update s.cache (latestKey id) none }
  | _ => some written

def start : State := ⟨[], fun _ => none, []⟩

def primaryLatest (primary : List OiSnapshot) (id : InstrumentId) : Option OiSnapshot :=
  Time.newestBy OiSnapshot.bucketTs (primary.filter fun bar => bar.instrument = id)

/-- A miss, or a Redis error, falls back to the primary. -/
def latest (s : State) (id : InstrumentId) (redisAnswers : Bool) : Option OiSnapshot :=
  match (if redisAnswers then s.cache (latestKey id) else none) with
  | some bar => some bar
  | none => primaryLatest s.primary id

/-- The first bar does not overtake the second, if they are of one instrument. -/
def InTime (x y : OiSnapshot) : Prop := x.instrument = y.instrument → x.bucketTs ≤ y.bucketTs

instance (x y : OiSnapshot) : Decidable (InTime x y) :=
  inferInstanceAs (Decidable (x.instrument = y.instrument → x.bucketTs ≤ y.bucketTs))

/-- Every answer is at least as new as every bar in the primary, and the bars that Redis
has held only move forward. -/
structure Agrees (s : State) : Prop where
  latest : ∀ id redisAnswers bar, latest s id redisAnswers = some bar →
    ∀ row ∈ s.primary, row.instrument = id → row.bucketTs ≤ bar.bucketTs
  forward : s.shown.Pairwise InTime

/-- The bars reach Redis in the order of their minutes. Where a step puts bars of an
instrument into Redis, one of them is at least as new as each bar of it in the primary. A
bar that only the primary stores is no newer than the one Redis holds, if any. -/
structure InOrder (s : State) (a : Act) : Prop where
  puts : (s.shown ++ puts a).Pairwise InTime
  stored : ∀ row ∈ s.primary ++ rows a,
    (∃ bar ∈ Composite.puts a, bar.instrument = row.instrument) →
    ∃ bar ∈ Composite.puts a, bar.instrument = row.instrument ∧ row.bucketTs ≤ bar.bucketTs
  bypassing : ∀ row ∈ rows a, (∀ bar ∈ Composite.puts a, bar.instrument ≠ row.instrument) →
    ∀ bar ∈ s.cache (latestKey row.instrument), row.bucketTs ≤ bar.bucketTs

structure Inv (s : State) : Prop where
  own : ∀ id bar, s.cache (latestKey id) = some bar → bar.instrument = id
  newest : ∀ id bar, s.cache (latestKey id) = some bar →
    ∀ row ∈ s.primary, row.instrument = id → row.bucketTs ≤ bar.bucketTs
  forward : s.shown.Pairwise InTime

variable {s s' : State} {a : Act} {bars : List OiSnapshot} {id : InstrumentId} {cache : Cache}

/-- The last bar of an instrument in a list of writes. -/
def lastPut (id : InstrumentId) (bars : List OiSnapshot) : Option OiSnapshot :=
  lastOf OiSnapshot.instrument id bars

/-- In a list that moves forward the last bar of an instrument is its newest. -/
theorem le_lastPut {bar last : OiSnapshot} (hforward : bars.Pairwise InTime)
    (hlast : lastPut id bars = some last) (hbar : bar ∈ bars) (hid : bar.instrument = id) :
    bar.bucketTs ≤ last.bucketTs := by
  obtain ⟨front, hfilter⟩ := List.getLast?_eq_some_iff.mp hlast
  have hmem : bar ∈ ofKey OiSnapshot.instrument id bars := mem_ofKey.mpr ⟨hbar, hid⟩
  have hpair : (ofKey OiSnapshot.instrument id bars).Pairwise InTime :=
    hforward.sublist List.filter_sublist
  rw [hfilter] at hmem hpair
  rcases List.mem_append.mp hmem with hfront | hself
  · have hintime := (List.pairwise_append.mp hpair).2.2 bar hfront last List.mem_cons_self
    exact hintime (hid.trans (lastOf_mem hlast).2.symm)
  · rw [List.mem_singleton.mp hself]

/-- The pipeline leaves the last bar of an instrument under its key. -/
theorem bulkSetLatest_latestKey (cache : Cache) (bars : List OiSnapshot) (id : InstrumentId) :
    bulkSetLatest cache bars (latestKey id) = (lastPut id bars).or (cache (latestKey id)) := by
  induction bars using List.reverseRecOn with
  | nil => rfl
  | append_singleton bars bar ih =>
    have hfold : bulkSetLatest cache (bars ++ [bar]) =
        Function.update (bulkSetLatest cache bars) (latestKey bar.instrument) (some bar) := by
      simp only [bulkSetLatest, List.foldl_append, List.foldl_cons, List.foldl_nil]
    rw [hfold, lastPut, lastOf_append]
    by_cases hid : bar.instrument = id
    · have hlast : lastOf OiSnapshot.instrument id [bar] = some bar := by
        rw [lastOf, ofKey_cons_self _ hid]
        rfl
      rw [hlast, ← hid, Function.update_self]
      rfl
    · have hkey : latestKey id ≠ latestKey bar.instrument := fun h =>
        hid (latestKey_injective h).symm
      have hlast : lastOf OiSnapshot.instrument id [bar] = none := by
        rw [lastOf, ofKey_cons_ne _ hid]
        rfl
      rw [hlast, Function.update_of_ne hkey, ih, Option.none_or, lastPut]

theorem agrees_of_inv (h : Inv s) : Agrees s where
  latest id redisAnswers bar hlatest row hrow hid := by
    have hprimary : primaryLatest s.primary id = some bar → row.bucketTs ≤ bar.bucketTs := by
      intro hmax
      have hmem : row ∈ s.primary.filter fun bar => bar.instrument = id :=
        List.mem_filter.mpr ⟨hrow, decide_eq_true hid⟩
      exact Time.le_newestBy hmax hmem
    rw [latest] at hlatest
    cases redisAnswers with
    | false => exact hprimary hlatest
    | true =>
      cases hcache : s.cache (latestKey id) with
      | none =>
        rw [hcache] at hlatest
        exact hprimary hlatest
      | some cached =>
        rw [hcache] at hlatest
        obtain rfl := Option.some.inj hlatest
        exact h.newest id cached hcache row hrow hid
  forward := h.forward

/-- What a step that writes leaves in the three fields. -/
theorem step_write (hstep : step s a = some s') :
    s'.primary = s.primary ++ rows a ∧ s'.shown = s.shown ++ puts a ∧
      ((∃ id, a = .expire id ∧ s'.cache = Function.update s.cache (latestKey id) none) ∨
        s'.cache = bulkSetLatest s.cache (puts a)) := by
  cases a with
  | upsertSnapshots snaps stored leader executed =>
    obtain rfl := Option.some.inj hstep
    exact ⟨rfl, rfl, .inr rfl⟩
  | drain snaps =>
    obtain rfl := Option.some.inj hstep
    exact ⟨rfl, rfl, .inr rfl⟩
  | expire id =>
    obtain rfl := Option.some.inj hstep
    exact ⟨rfl, rfl, .inl ⟨id, rfl, rfl⟩⟩

/-- What Redis holds for an instrument after a step: a bar that the step put there, or the
one from before where the step put none. -/
theorem cached_after {bar : OiSnapshot} (hstep : step s a = some s')
    (hcache : s'.cache (latestKey id) = some bar) :
    lastPut id (puts a) = some bar ∨
      lastPut id (puts a) = none ∧ s.cache (latestKey id) = some bar := by
  obtain ⟨_, _, ⟨gone, rfl, hc⟩ | hc⟩ := step_write hstep
  · rw [hc] at hcache
    by_cases hkey : latestKey id = latestKey gone
    · rw [hkey, Function.update_self] at hcache
      cases hcache
    · rw [Function.update_of_ne hkey] at hcache
      exact .inr ⟨rfl, hcache⟩
  · rw [hc, bulkSetLatest_latestKey] at hcache
    cases hlast : lastPut id (puts a) with
    | none =>
      rw [hlast, Option.none_or] at hcache
      exact .inr ⟨rfl, hcache⟩
    | some last =>
      rw [hlast, Option.some_or] at hcache
      exact .inl hcache

theorem inv_step (h : Inv s) (hok : InOrder s a) (hstep : step s a = some s') : Inv s' := by
  obtain ⟨hprimary, hshown, _⟩ := step_write hstep
  constructor
  case own =>
    intro id bar hcache
    rcases cached_after hstep hcache with hput | ⟨_, hold⟩
    · exact (lastOf_mem hput).2
    · exact h.own id bar hold
  case newest =>
    intro id bar hcache row hrow hid
    rw [hprimary] at hrow
    rcases cached_after hstep hcache with hput | ⟨hnone, hold⟩
    · obtain ⟨hmem, hbar⟩ := lastOf_mem hput
      obtain ⟨newer, hnewer, hsame, hle⟩ := hok.stored row hrow ⟨bar, hmem, hbar.trans hid.symm⟩
      have hforward : (puts a).Pairwise InTime := (List.pairwise_append.mp hok.puts).2.1
      exact hle.trans (le_lastPut hforward hput hnewer (hsame.trans hid))
    · rcases List.mem_append.mp hrow with hrow | hrow
      · exact h.newest id bar hold row hrow hid
      · subst hid
        exact hok.bypassing row hrow (lastOf_eq_none_iff.mp hnone) bar hold
  case forward =>
    rw [hshown]
    exact hok.puts

/-- A step that breaks the order shows in the answers. -/
theorem inOrder_of_agrees (hstep : step s a = some s') (hagrees : Agrees s') : InOrder s a := by
  obtain ⟨hprimary, hshown, hcache⟩ := step_write hstep
  have hanswer : ∀ id bar, s'.cache (latestKey id) = some bar → ∀ row ∈ s.primary ++ rows a,
      row.instrument = id → row.bucketTs ≤ bar.bucketTs := by
    intro id bar hbar row hrow
    refine hagrees.latest id true bar ?_ row (hprimary ▸ hrow)
    simp [latest, hbar]
  constructor
  case puts => rw [← hshown]; exact hagrees.forward
  case stored =>
    rintro row hrow ⟨bar, hbar, hid⟩
    cases hlast : lastPut row.instrument (puts a) with
    | none => exact absurd hid (lastOf_eq_none_iff.mp hlast bar hbar)
    | some last =>
      obtain ⟨hmem, hsame⟩ := lastOf_mem hlast
      refine ⟨last, hmem, hsame, hanswer row.instrument last ?_ row hrow rfl⟩
      rcases hcache with ⟨gone, rfl, _⟩ | hc
      · cases hbar
      · rw [hc, bulkSetLatest_latestKey, hlast, Option.some_or]
  case bypassing =>
    intro row hrow hnone bar hbar
    refine hanswer row.instrument bar ?_ row (List.mem_append_right _ hrow) rfl
    have hlast : lastPut row.instrument (puts a) = none := lastOf_eq_none_iff.mpr hnone
    rcases hcache with ⟨gone, rfl, _⟩ | hc
    · cases hrow
    · rw [hc, bulkSetLatest_latestKey, hlast, Option.none_or]
      exact hbar

theorem inv_start : Inv start where
  own _ _ hcache := by cases hcache
  newest _ _ hcache := by cases hcache
  forward := List.Pairwise.nil

/-- The answers agree with the primary in exactly the runs whose writes keep the order of
the minutes. -/
theorem agrees_iff_inOrder (acts : List Act) :
    Throughout step Agrees start acts ↔ Along step InOrder start acts :=
  throughout_iff_along (fun _ _ _ h hok hstep => inv_step h hok hstep) (fun _ => agrees_of_inv)
    (fun _ _ _ _ hstep hagrees => inOrder_of_agrees hstep hagrees) inv_start

def barAt (minute : Int) : OiSnapshot :=
  .startFromSample (sampleAt (Time.minutes minute) (Time.minutes minute))

/-- The minute loop writes 10:05 and a resync then rewrites 10:00: Redis answers 10:00
while the primary holds 10:05. -/
theorem resync_moves_latest_back :
    ¬ ∀ acts : List Act, Throughout step Agrees start acts := by
  intro hall
  let acts : List Act := [.upsertSnapshots [barAt 605] true true 1,
    .upsertSnapshots [barAt 600] true true 1]
  have hrun : (run step start acts).map
      (fun s => (s.primary, latest s (barAt 605).instrument true)) =
      some ([barAt 605, barAt 600], some (barAt 600)) := by decide +kernel
  obtain ⟨s, hs, hproj⟩ := Option.map_eq_some_iff.mp hrun
  obtain ⟨hprimary, hlatest⟩ := Prod.mk.inj hproj
  have hagrees := (throughout_run (hall acts) hs).latest _ true _ hlatest (barAt 605)
    (by rw [hprimary]; exact List.mem_cons_self) rfl
  exact absurd hagrees (by decide)

end OiTerminal.Storage.Composite
