import OiTerminal.Exchanges.Rest
import OiTerminal.Lib.Gather
import OiTerminal.Lib.Register

/-!
# The funding intervals of KuCoin and MEXC

Discovery asks for the interval of each active symbol, and keeps what it learns in a cache that the
funding bars of every minute read. A request that fails leaves the entry as it is.
-/
namespace OiTerminal.Exchanges.FundingIntervals

open OiTerminal.Core
open OiTerminal.Lib OiTerminal.Lib.Gather OiTerminal.Lib.Register OiTerminal.Lib.Transition

set_option autoImplicit false

abbrev Cache := String → Option ℕ

/-- How many requests are in flight, and the interval that an accepted answer carries. -/
structure Endpoint (Body : Type) where
  limit : ℕ
  hours : Body → Option ℕ
  limit_pos : 0 < limit

/-- The granularity is in milliseconds. Integer division rounds toward zero. -/
def kuCoin : Endpoint (Option Int) where
  limit := 4
  hours granularity := granularity.map fun ms => (min 24 (max 1 (ms.tdiv 3600000))).toNat
  limit_pos := Nat.succ_pos 3

def mexc : Endpoint (Option UInt8) where
  limit := 8
  hours collectCycle := collectCycle.map UInt8.toNat
  limit_pos := Nat.succ_pos 7

section

variable {Body : Type} (E : Endpoint Body)

/-- A task that panicked, a request that failed and an envelope with an error code have no body. -/
def absorb (cache : Cache) (sym : String) (body : Option Body) : Cache :=
  match body.bind E.hours with
  | some hours => Function.update cache sym (some hours)
  | none => cache

/-- A refresh: the active symbols, what each request yields, and the order of the completions. -/
structure Refresh (Body : Type) where
  symbols : List String
  answer : ℕ → String → Option Body
  order : List ℕ

/-- The loop ends when nothing is in flight. -/
def refreshFundingIntervals (cache : Cache) (r : Refresh Body) : Option Cache :=
  (run (Gather.step r.symbols r.answer (absorb E)) (Gather.start r.symbols E.limit cache)
    r.order).bind fun g => if g.progress.inflight = [] then some g.acc else none

/-- The cache of an adapter. `past` is the history of its refreshes. -/
structure State (Body : Type) where
  cache : Cache
  past : List (Refresh Body)

def step (s : State Body) (r : Refresh Body) : Option (State Body) :=
  (refreshFundingIntervals E s.cache r).map fun cache => ⟨cache, s.past ++ [r]⟩

def start : State Body := ⟨fun _ => none, []⟩

/-- What a task of a refresh learns for a symbol. -/
def learnedBy (r : Refresh Body) (sym : String) (t : String × ℕ) : Option ℕ :=
  if t.1 = sym then (r.answer t.2 t.1).bind E.hours else none

/-- What a refresh learns for a symbol. More than one answer comes only if it is listed twice. -/
def learned (r : Refresh Body) (sym : String) : List ℕ :=
  r.symbols.zipIdx.filterMap (learnedBy E r sym)

/-- An interval was learned by the last refresh that learned any. -/
def LastLearned (past : List (Refresh Body)) (sym : String) (hours : ℕ) : Prop :=
  ∃ before r after, past = before ++ r :: after ∧ hours ∈ learned E r sym ∧
    ∀ r' ∈ after, learned E r' sym = []

/-- An entry is what was learned last, and is missing only if nothing ever was. -/
def LastKnown (s : State Body) : Prop :=
  ∀ sym, (∀ hours, s.cache sym = some hours → LastLearned E s.past sym hours) ∧
    (s.cache sym = none → ∀ r ∈ s.past, learned E r sym = [])

end

section

variable {Body : Type} {E : Endpoint Body} {s s' : State Body} {r : Refresh Body}

/-- The entry of a symbol is the newest answer for it, or what it was. -/
theorem gathered_apply (cache : Cache) (tasks : List (String × ℕ)) (sym : String) :
    gathered r.answer (absorb E) cache tasks sym =
      (newest (learnedBy E r sym) tasks).or (cache sym) := by
  induction tasks using List.reverseRecOn with
  | nil => rfl
  | append_singleton past t ih =>
    unfold gathered at ih ⊢
    rw [List.foldl_append, List.foldl_cons, List.foldl_nil, newest_concat, Option.or_assoc, ← ih]
    unfold absorb learnedBy
    by_cases hown : t.1 = sym
    · subst hown
      rw [if_pos rfl]
      cases (r.answer t.2 t.1).bind E.hours with
      | none => rfl
      | some hours =>
        dsimp only
        rw [Function.update_self]
        rfl
    · rw [if_neg hown]
      cases (r.answer t.2 t.1).bind E.hours with
      | none => rfl
      | some hours =>
        dsimp only
        rw [Function.update_of_ne (Ne.symm hown)]
        rfl

/-- What a refresh does to the entry of a symbol. -/
theorem refresh_cases {cache cache' : Cache} (h : refreshFundingIntervals E cache r = some cache')
    (sym : String) :
    (learned E r sym = [] ∧ cache' sym = cache sym) ∨
      ∃ hours ∈ learned E r sym, cache' sym = some hours := by
  obtain ⟨g, hrun, hdone⟩ := Option.bind_eq_some_iff.mp h
  split at hdone
  case isFalse => cases hdone
  case isTrue hdrained =>
    obtain rfl := Option.some.inj hdone
    have hinv : Inv r.symbols E.limit r.answer (absorb E) cache g :=
      throughout_run (throughout_of_step (fun _ _ _ h hstep => inv_step h hstep) (fun _ h => h)
        inv_start) hrun
    have hperm := (hinv.taken_perm E.limit_pos hdrained).filterMap (learnedBy E r sym)
    have hacc := gathered_apply (E := E) (r := r) cache (taken r.symbols g.order) sym
    rw [← hinv.acc] at hacc
    unfold newest at hacc
    cases hlast : ((taken r.symbols g.order).filterMap (learnedBy E r sym)).getLast? with
    | none =>
      rw [List.getLast?_eq_none_iff.mp hlast] at hperm
      rw [hlast] at hacc
      exact .inl ⟨hperm.nil_eq.symm, hacc⟩
    | some hours =>
      rw [hlast] at hacc
      exact .inr ⟨hours, hperm.mem_iff.mp (List.mem_of_getLast? hlast), hacc⟩

theorem lastKnown_start : LastKnown E (start : State Body) := by
  intro sym
  refine ⟨fun hours h => ?_, fun _ r hr => ?_⟩
  · cases h
  · cases hr

theorem lastKnown_step (h : LastKnown E s) (hstep : step E s r = some s') : LastKnown E s' := by
  obtain ⟨cache, hcache, rfl⟩ := Option.map_eq_some_iff.mp hstep
  intro sym
  obtain ⟨hknown, hunknown⟩ := h sym
  rcases refresh_cases hcache sym with ⟨hnothing, hsame⟩ | ⟨hours, hmem, hnew⟩
  · refine ⟨fun hours hentry => ?_, fun hentry r' hr' => ?_⟩
    · obtain ⟨before, at', after, hpast, hmem, hafter⟩ := hknown hours (hsame ▸ hentry)
      refine ⟨before, at', after ++ [r], ?_, hmem, fun r' hr' => ?_⟩
      · dsimp only
        rw [hpast, List.append_assoc, List.cons_append]
      · rcases List.mem_append.mp hr' with hold | hlast
        · exact hafter r' hold
        · rw [List.mem_singleton.mp hlast]
          exact hnothing
    · rcases List.mem_append.mp hr' with hold | hlast
      · exact hunknown (hsame ▸ hentry) r' hold
      · rw [List.mem_singleton.mp hlast]
        exact hnothing
  · refine ⟨fun hours' hentry => ?_, fun hentry => ?_⟩
    · obtain rfl := Option.some.inj (hnew.symm.trans hentry)
      refine ⟨s.past, r, [], rfl, hmem, fun r' hr' => ?_⟩
      cases hr'
    · change cache sym = none at hentry
      rw [hnew] at hentry
      cases hentry

/-- The bars carry what is known for their symbols, or eight hours. -/
def Tagged (E : Endpoint Body) (s : State Body) (bars : List FundingBar) : Prop :=
  ∀ bar ∈ bars,
    (∃ hours, bar.intervalHours = some hours ∧
      LastLearned E s.past bar.instrument.symbol hours) ∨
    bar.intervalHours = some 8 ∧ ∀ r ∈ s.past, learned E r bar.instrument.symbol = []

theorem LastKnown.tagged (h : LastKnown E s) {bars : List FundingBar}
    (hbars : ∀ bar ∈ bars, bar.intervalHours = (s.cache bar.instrument.symbol).or (some 8)) :
    Tagged E s bars := by
  intro bar hbar
  obtain ⟨hknown, hunknown⟩ := h bar.instrument.symbol
  rw [hbars bar hbar]
  cases hentry : s.cache bar.instrument.symbol with
  | some hours => exact .inl ⟨hours, rfl, hknown hours hentry⟩
  | none => exact .inr ⟨rfl, hunknown hentry⟩

end

theorem kuCoin_bars (T : DecimalText) (cache : Cache) (rows : List Rest.KuCoin.ContractRow)
    (instruments : List InstrumentId) (bucket now : Int) :
    ∀ bar ∈ Rest.KuCoin.fetchFunding T cache rows instruments bucket now,
      bar.intervalHours = (cache bar.instrument.symbol).or (some 8) := by
  intro bar hbar
  obtain ⟨row, _, hrow⟩ := List.mem_filterMap.mp hbar
  obtain ⟨rate, _, rfl⟩ := Option.map_eq_some_iff.mp hrow
  rfl

theorem mexc_bars (T : DecimalText) (cache : Cache) (rows : List Rest.Mexc.TickerRow)
    (instruments : List InstrumentId) (bucket now : Int) :
    ∀ bar ∈ Rest.Mexc.fetchFunding T cache rows instruments bucket now,
      bar.intervalHours = (cache bar.instrument.symbol).or (some 8) := by
  intro bar hbar
  obtain ⟨row, _, hrow⟩ := List.mem_filterMap.mp hbar
  obtain ⟨rate, _, rfl⟩ := Option.map_eq_some_iff.mp hrow
  rfl

/-- The hours of KuCoin are clamped. -/
theorem kuCoin_range {r : Refresh (Option Int)} {sym : String} {hours : ℕ}
    (h : hours ∈ learned kuCoin r sym) : 1 ≤ hours ∧ hours ≤ 24 := by
  obtain ⟨t, _, ht⟩ := List.mem_filterMap.mp h
  unfold learnedBy at ht
  split at ht
  case isFalse => cases ht
  case isTrue =>
    obtain ⟨granularity, _, hhours⟩ := Option.bind_eq_some_iff.mp ht
    obtain ⟨ms, _, rfl⟩ := Option.map_eq_some_iff.mp hhours
    omega

/-- Through any refreshes, with any failures and any orders of completion, a funding bar of KuCoin
or MEXC carries the interval that the last refresh to learn one for its symbol has learned, and
eight hours only if none ever did. KuCoin stays between one hour and a day. -/
theorem bars_carry_last_known_interval (T : DecimalText) (instruments : List InstrumentId)
    (bucket now : Int) :
    (∀ refreshes rows, Throughout (step kuCoin)
      (fun s =>
        let bars := Rest.KuCoin.fetchFunding T s.cache rows instruments bucket now
        Tagged kuCoin s bars ∧
          ∀ bar ∈ bars, ∃ hours, bar.intervalHours = some hours ∧ 1 ≤ hours ∧ hours ≤ 24)
      start refreshes) ∧
    ∀ refreshes rows, Throughout (step mexc)
      (fun s => Tagged mexc s (Rest.Mexc.fetchFunding T s.cache rows instruments bucket now))
      start refreshes := by
  refine ⟨fun refreshes rows => ?kuCoin, fun refreshes rows => ?mexc⟩
  case kuCoin =>
    refine throughout_of_step (fun _ _ _ h hstep => lastKnown_step h hstep) (fun s h => ?_)
      lastKnown_start
    have htagged := h.tagged (kuCoin_bars T s.cache rows instruments bucket now)
    refine ⟨htagged, fun bar hbar => ?_⟩
    rcases htagged bar hbar with ⟨hours, hinterval, before, r, after, _, hmem, _⟩ | ⟨height, _⟩
    · exact ⟨hours, hinterval, kuCoin_range hmem⟩
    · exact ⟨8, height, by omega, by omega⟩
  case mexc =>
    exact throughout_of_step (fun _ _ _ h hstep => lastKnown_step h hstep)
      (fun s h => h.tagged (mexc_bars T s.cache rows instruments bucket now)) lastKnown_start

end OiTerminal.Exchanges.FundingIntervals
