import OiTerminal.Lib.MaxRegister
import OiTerminal.Lib.Rounding

/-!
# The peak of the CPU usage

Each request of the system metrics takes a sample of the CPU usage, raises the peak of the process
to it, and reports both. The sample is reported as it was taken, and the peak is kept in hundredths
of a percent. Requests run side by side, and share nothing but the peak.
-/
namespace OiTerminal.Api.SysMetrics

open OiTerminal.Lib OiTerminal.Lib.MaxRegister OiTerminal.Lib.Rounding OiTerminal.Lib.Transition

set_option autoImplicit false

/-- What `global_cpu_usage` returns, between 0 and 100. -/
structure Usage where
  pct : ℚ
  nonneg : 0 ≤ pct
  le_hundred : pct ≤ 100

/-- `(usage * 100.0).round() as u32`, where the cast saturates. -/
def Usage.centi (usage : Usage) : ℕ :=
  min ⌊toBinary32 (usage.pct * 100) + 1 / 2⌋₊ (2 ^ 32 - 1)

/-- `peak as f32 / 100.0`. -/
def peakPct (centi : ℕ) : ℚ := toBinary32 (toBinary32 centi / 100)

/-- The two numbers of the page that go back to samples. -/
structure CpuMetrics where
  usagePct : ℚ
  peakPct : ℚ

/-- The accesses to `CPU_PEAK_CENTI`, and the sample that each request has taken. A request has a
number. `samples` is the history of the samples, the last one first. -/
structure State where
  peak : MaxRegister.State ℕ ℕ
  usage : ℕ → Option Usage
  samples : List Usage

inductive Act where
  | sample (i : ℕ) (usage : Usage)
  | load (i : ℕ)
  | compareExchange (i : ℕ) (spurious : Bool)
  | report (i : ℕ)

/-- The peak is zero when the process starts. -/
def start : State := ⟨MaxRegister.start 0, fun _ => none, []⟩

def step (s : State) : Act → Option State
  | .sample i usage => (MaxRegister.step s.peak (.enter i usage.centi)).map fun peak =>
      ⟨peak, Function.update s.usage i (some usage), usage :: s.samples⟩
  | .load i => (MaxRegister.step s.peak (.load i)).map ({ s with peak := · })
  | .compareExchange i spurious =>
    (MaxRegister.step s.peak (.compareExchange i spurious)).map ({ s with peak := · })
  | .report i => (MaxRegister.step s.peak (.read i)).map ({ s with peak := · })

/-- What the request has answered. -/
def State.answer (s : State) (i : ℕ) : Option CpuMetrics :=
  match s.peak.phase i, s.usage i with
  | .read _ centi, some usage => some ⟨usage.pct, peakPct centi⟩
  | _, _ => none

/-! ## Rounding to hundredths -/

variable {usage usage' : Usage} {centi centi' : ℕ}

theorem centi_mono (h : usage.pct ≤ usage'.pct) : usage.centi ≤ usage'.centi := by
  have hscaled : toBinary32 (usage.pct * 100) ≤ toBinary32 (usage'.pct * 100) :=
    toBinary32_mono (mul_nonneg usage.nonneg (by norm_num)) (by linarith)
  exact min_le_min_right _ (Nat.floor_mono (by linarith))

theorem peakPct_mono (h : centi ≤ centi') : peakPct centi ≤ peakPct centi' := by
  have hcast : toBinary32 (centi : ℚ) ≤ toBinary32 centi' :=
    toBinary32_mono (Nat.cast_nonneg _) (by exact_mod_cast h)
  exact toBinary32_mono (div_nonneg (toBinary32_nonneg _) (by norm_num)) (by linarith)

/-- No sample is near the limit of the cast. -/
theorem centi_eq (usage : Usage) : usage.centi = ⌊toBinary32 (usage.pct * 100) + 1 / 2⌋₊ := by
  refine min_eq_left ?_
  obtain ⟨-, hhigh⟩ := toBinary32_error (mul_nonneg usage.nonneg (by norm_num : (0 : ℚ) ≤ 100))
  have hle := usage.le_hundred
  refine Nat.floor_le_of_le ?_
  push_cast
  linarith

/-- A percentage that was rounded to hundredths is shown with less than a hundredth of error. -/
theorem pct_le_peakPct (usage : Usage) : usage.pct ≤ peakPct usage.centi + 1 / 100 := by
  have hnonneg : 0 ≤ usage.pct * 100 := mul_nonneg usage.nonneg (by norm_num)
  have hle := usage.le_hundred
  have hround : toBinary32 (usage.pct * 100) < usage.centi + 1 / 2 := by
    have hfloor := Nat.lt_floor_add_one (toBinary32 (usage.pct * 100) + 1 / 2)
    rw [← centi_eq] at hfloor
    linarith
  obtain ⟨hscaled, hscaled'⟩ := toBinary32_error hnonneg
  have hcenti : (usage.centi : ℚ) ≤ 20000 := by
    have hfloor : (usage.centi : ℚ) ≤ toBinary32 (usage.pct * 100) + 1 / 2 := by
      rw [centi_eq]
      exact Nat.floor_le (by linarith [toBinary32_nonneg (usage.pct * 100)])
    linarith
  obtain ⟨hcast, hcast'⟩ := toBinary32_error (Nat.cast_nonneg (α := ℚ) usage.centi)
  obtain ⟨hshown, -⟩ := toBinary32_error
    (div_nonneg (toBinary32_nonneg (usage.centi : ℚ)) (by norm_num : (0 : ℚ) ≤ 100))
  unfold peakPct
  linarith

/-! ## The page -/

/-- What the page shows. A reported peak is that of a number of hundredths, which is not below the
rounded sample of its own request, and is the rounded sample of some request or zero. So the page
shows a usage above the peak by less than a hundredth only. Reported peaks never go down. Once no
request is in the loop, the peak is the greatest of all rounded samples, which is the greatest
sample rounded. -/
structure PeakHolds (s : State) : Prop where
  answered : ∀ i page, s.answer i = some page → ∃ usage centi, s.usage i = some usage ∧
    page = ⟨usage.pct, peakPct centi⟩ ∧ usage.centi ≤ centi ∧ centi ≤ s.peak.register ∧
      centi ∈ 0 :: s.samples.map Usage.centi
  shown : ∀ i page, s.answer i = some page → page.usagePct ≤ page.peakPct + 1 / 100
  rising : (s.peak.readings.map peakPct).Pairwise fun earlier later => earlier ≤ later
  settled : (∀ i, (s.peak.phase i).pending = none) →
    IsGreatest {x | x ∈ 0 :: s.samples.map Usage.centi} s.peak.register ∧
      ∀ usage ∈ s.samples, (∀ other ∈ s.samples, other.pct ≤ usage.pct) →
        s.peak.register = usage.centi

structure Inv (s : State) : Prop where
  peak : MaxRegister.Inv 0 s.peak
  samples : s.peak.samples = s.samples.map Usage.centi
  own : ∀ i, (s.peak.phase i).own = (s.usage i).map Usage.centi

variable {s s' : State}

theorem inv_start : Inv start := ⟨MaxRegister.inv_start, rfl, fun _ => rfl⟩

/-- An access by a request that has taken its sample before. -/
theorem Inv.access (h : Inv s) {a : MaxRegister.Act ℕ ℕ} (ha : ∀ i x, a ≠ .enter i x)
    (hstep : (MaxRegister.step s.peak a).map ({ s with peak := · }) = some s') : Inv s' := by
  obtain ⟨peak, hpeak, rfl⟩ := Option.map_eq_some_iff.mp hstep
  rcases own_step hpeak with ⟨i, x, rfl, -⟩ | ⟨-, hsamples, hown⟩
  · exact absurd rfl (ha i x)
  · exact ⟨MaxRegister.inv_step h.peak hpeak, hsamples.trans h.samples,
      fun i => (hown i).trans (h.own i)⟩

theorem inv_step {a : Act} (h : Inv s) (hstep : step s a = some s') : Inv s' := by
  cases a with
  | load i => exact h.access (by simp) hstep
  | compareExchange i spurious => exact h.access (by simp) hstep
  | report i => exact h.access (by simp) hstep
  | sample i usage =>
    obtain ⟨peak, hpeak, rfl⟩ := Option.map_eq_some_iff.mp hstep
    rcases own_step hpeak with ⟨j, x, hact, hsamples, hown⟩ | ⟨hother, -⟩
    · obtain ⟨rfl, rfl⟩ := MaxRegister.Act.enter.inj hact
      refine ⟨MaxRegister.inv_step h.peak hpeak, ?_, fun k => ?_⟩
      · rw [hsamples, h.samples]
        rfl
      · rw [hown]
        by_cases hk : k = i
        · rw [if_pos hk, hk]
          dsimp only
          rw [Function.update_self]
          rfl
        · rw [if_neg hk, h.own]
          dsimp only
          rw [Function.update_of_ne hk]
    · exact absurd rfl (hother i usage.centi)

theorem Inv.answered (h : Inv s) {i : ℕ} {page : CpuMetrics} (hpage : s.answer i = some page) :
    ∃ usage centi, s.usage i = some usage ∧ page = ⟨usage.pct, peakPct centi⟩ ∧
      usage.centi ≤ centi ∧ centi ≤ s.peak.register ∧
        centi ∈ 0 :: s.samples.map Usage.centi := by
  unfold State.answer at hpage
  split at hpage
  case h_2 => cases hpage
  case h_1 x centi usage hread husage =>
    have hclient := h.peak.clients i
    have hown := h.own i
    rw [hread] at hclient hown
    rw [husage] at hown
    obtain rfl := Option.some.inj hown
    obtain ⟨-, hle, hregister, hmember⟩ := hclient
    exact ⟨usage, centi, husage, (Option.some.inj hpage).symm, hle, hregister,
      h.samples ▸ hmember⟩

theorem peakHolds_of_inv (h : Inv s) : PeakHolds s where
  answered i page hpage := h.answered hpage
  shown i page hpage := by
    obtain ⟨usage, centi, -, rfl, hle, -⟩ := h.answered hpage
    have hown := pct_le_peakPct usage
    have hpeak := peakPct_mono hle
    dsimp only
    linarith
  rising := by
    rw [List.pairwise_map]
    exact h.peak.sorted.imp peakPct_mono
  settled hsettled := by
    have hgreatest := h.peak.isGreatest hsettled
    rw [h.samples] at hgreatest
    refine ⟨hgreatest, fun usage husage htop => le_antisymm ?_ ?_⟩
    · rcases List.mem_cons.mp hgreatest.1 with hzero | hsample
      · rw [hzero]
        exact Nat.zero_le _
      · obtain ⟨other, hother, hcenti⟩ := List.mem_map.mp hsample
        rw [← hcenti]
        exact centi_mono (htop other hother)
    · exact hgreatest.2 (List.mem_cons_of_mem 0 (List.mem_map_of_mem husage))

/-- However the loads, the exchanges and their failures of all requests interleave. -/
theorem peak_is_greatest_sample (acts : List Act) : Throughout step PeakHolds start acts :=
  throughout_of_step (fun _ _ _ h hstep => inv_step h hstep) (fun _ h => peakHolds_of_inv h)
    inv_start

end OiTerminal.Api.SysMetrics
