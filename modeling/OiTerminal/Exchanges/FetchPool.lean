import OiTerminal.Exchanges.Rest
import OiTerminal.Lib.Gather

/-!
# The fan-outs of the adapters

Some endpoints answer for one symbol only. The adapters ask for the symbols side by side, a bounded
number of them at a time, and take up the answers as they come.
-/
namespace OiTerminal.Exchanges.FetchPool

open OiTerminal.Core
open OiTerminal.Exchanges.Rest
open OiTerminal.Lib OiTerminal.Lib.Gather OiTerminal.Lib.Transition

set_option autoImplicit false

/-- A fan-out: how many requests are in flight, what one completion adds to the output, and the
output of a list of completions. -/
structure Fan (Body Out : Type) where
  limit : ℕ
  convert : Completion Body → Option Out
  fetch : List (Completion Body) → List Out
  limit_pos : 0 < limit
  fetch_eq : ∀ completions, fetch completions = completions.filterMap convert

/-- `with_concurrency` takes at least one. The default is 16. -/
def binanceOi (T : DecimalText) (concurrency : ℕ) (bucket now : Int) :
    Fan Binance.OpenInterestResp RawOi where
  limit := max concurrency 1
  convert := completedOi (Binance.fetchOne T) bucket now
  fetch completions := Binance.fetchOi T completions bucket now
  limit_pos := by omega
  fetch_eq _ := rfl

def bingxOi (T : DecimalText) (bucket now : Int) : Fan BingX.OpenInterestData RawOi where
  limit := 8
  convert := completedOi (BingX.fetchOne T) bucket now
  fetch completions := BingX.fetchOi T completions bucket now
  limit_pos := by omega
  fetch_eq _ := rfl

def okxFunding (T : DecimalText) (bucket now : Int) : Fan (List Okx.FundingRateRow) FundingBar where
  limit := 8
  convert := Okx.completedFunding T bucket now
  fetch completions := Okx.fetchFunding T completions bucket now
  limit_pos := by omega
  fetch_eq _ := rfl

namespace Fan

variable {Body Out : Type} (F : Fan Body Out) (instruments : List InstrumentId)
  (answer : ℕ → InstrumentId → Option Body)

/-- A completion is pushed when it converts. -/
def absorb (out : List Out) (inst : InstrumentId) (body : Option Body) : List Out :=
  match F.convert ⟨inst, body⟩ with
  | some row => out ++ [row]
  | none => out

def step : Gathering (Option Body) (List Out) → ℕ → Option (Gathering (Option Body) (List Out)) :=
  Gather.step instruments answer F.absorb

def start : Gathering (Option Body) (List Out) := Gather.start instruments F.limit []

def completionsOf (tasks : List (InstrumentId × ℕ)) : List (Completion Body) :=
  tasks.map fun t => ⟨t.1, answer t.2 t.1⟩

/-- While the call runs. No instrument is asked for twice, and no more are in flight than may be.
The output is that of the completions so far. The call goes on while anything is in flight. When
nothing is, each instrument has been asked for exactly once, and the output is that of all of them,
up to the order. -/
structure Gathers (g : Gathering (Option Body) (List Out)) : Prop where
  once : (g.order ++ g.progress.inflight).Nodup
  bounded : g.progress.inflight.length ≤ F.limit
  output : g.acc = F.fetch (completionsOf answer (taken instruments g.order))
  completes : ∀ idx ∈ g.progress.inflight, ∃ g', F.step instruments answer g idx = some g'
  ends : g.order.length ≤ instruments.length
  asked : g.progress.inflight = [] → g.order.Perm (List.range instruments.length)
  whole : g.progress.inflight = [] →
    g.acc.Perm (F.fetch (completionsOf answer instruments.zipIdx))

variable {F instruments answer} {g g' : Gathering (Option Body) (List Out)}

theorem gathered_eq (tasks : List (InstrumentId × ℕ)) :
    gathered answer F.absorb [] tasks = F.fetch (completionsOf answer tasks) := by
  rw [F.fetch_eq]
  unfold completionsOf
  induction tasks using List.reverseRecOn with
  | nil => rfl
  | append_singleton past t ih =>
    unfold gathered at ih ⊢
    rw [List.foldl_append, ih, List.map_append, List.filterMap_append, List.foldl_cons,
      List.foldl_nil, List.map_singleton, List.filterMap_cons, List.filterMap_nil]
    unfold absorb
    cases F.convert ⟨t.1, answer t.2 t.1⟩ with
    | none => exact (List.append_nil _).symm
    | some row => rfl

theorem gathers_of_inv (h : Inv instruments F.limit answer F.absorb [] g) :
    F.Gathers instruments answer g := by
  have hreached := h.reached
  have houtput : g.acc = F.fetch (completionsOf answer (taken instruments g.order)) :=
    h.acc.trans (gathered_eq _)
  refine
    { once := ?once
      bounded := hreached.bounded
      output := houtput
      completes := fun idx hidx => ?completes
      ends := hreached.length_le
      asked := fun hdrained => FanOut.perm_of_drained F.limit_pos h.run hdrained
      whole := fun hdrained => ?whole }
  case once => exact hreached.started.nodup_iff.mpr List.nodup_range
  case completes =>
    obtain ⟨progress, hprogress⟩ := hreached.completes idx hidx
    obtain ⟨inst, _, hinst, _⟩ := FanOut.step_cases hprogress
    unfold step Gather.step
    rw [hprogress, Option.bind_some, hinst]
    exact ⟨_, rfl⟩
  case whole =>
    rw [houtput, F.fetch_eq, F.fetch_eq]
    exact ((h.taken_perm F.limit_pos hdrained).map _).filterMap _

theorem throughout_gathers (order : List ℕ) :
    Throughout (F.step instruments answer) (F.Gathers instruments answer)
      (F.start instruments) order :=
  throughout_of_step (fun _ _ _ h hstep => inv_step h hstep) (fun _ h => gathers_of_inv h) inv_start

end Fan

/-- Whatever the requests of Binance, BingX and OKX answer, and in whatever order they complete, each
instrument is asked for once, within the limit, and the call returns the rows of all instruments
that answered. -/
theorem fetches_in_any_order (T : DecimalText) (concurrency : ℕ) (bucket now : Int)
    (instruments : List InstrumentId) (order : List ℕ) :
    (∀ answer, let F := binanceOi T concurrency bucket now
      Throughout (F.step instruments answer) (F.Gathers instruments answer) (F.start instruments)
        order) ∧
    (∀ answer, let F := bingxOi T bucket now
      Throughout (F.step instruments answer) (F.Gathers instruments answer) (F.start instruments)
        order) ∧
    ∀ answer, let F := okxFunding T bucket now
      Throughout (F.step instruments answer) (F.Gathers instruments answer) (F.start instruments)
        order :=
  ⟨fun _ => Fan.throughout_gathers order, fun _ => Fan.throughout_gathers order,
    fun _ => Fan.throughout_gathers order⟩

end OiTerminal.Exchanges.FetchPool
