import OiTerminal.Core.Snapshot
import OiTerminal.Lib.Transition

/-!
# Where the native values of a bar come from

A bar notes its unit once, and its four native values are bare numbers. The traced bar keeps
the sample behind each of them.
-/
namespace OiTerminal.Core

open OiTerminal.Lib.Transition

set_option autoImplicit false

/-- A bar with the samples that its native values are taken from. -/
structure TracedBar where
  bar : OiSnapshot
  opn : OiSample
  high : OiSample
  low : OiSample
  close : OiSample
  opn_value : bar.nativeOpen = opn.nativeValue
  high_value : bar.nativeHigh = high.nativeValue
  low_value : bar.nativeLow = low.nativeValue
  close_value : bar.nativeClose = close.nativeValue

namespace TracedBar

def start (s : OiSample) : TracedBar :=
  ⟨.startFromSample s, s, s, s, s, rfl, rfl, rfl, rfl⟩

def fold (t : TracedBar) (s : OiSample) : TracedBar where
  bar := t.bar.fold s
  opn := t.opn
  high := if t.bar.nativeHigh < s.nativeValue then s else t.high
  low := if s.nativeValue < t.bar.nativeLow then s else t.low
  close := s
  opn_value := t.opn_value
  high_value := by
    show (if t.bar.nativeHigh < s.nativeValue then _ else _) = _
    split
    · rfl
    · exact t.high_value
  low_value := by
    show (if s.nativeValue < t.bar.nativeLow then _ else _) = _
    split
    · rfl
    · exact t.low_value
  close_value := rfl

/-- A rejected sample leaves the bar as it is. -/
def observe (t : TracedBar) (s : OiSample) : TracedBar :=
  match t.bar.observe s with
  | .error _ => t
  | .ok _ => t.fold s

def step (t : TracedBar) (s : OiSample) : Option TracedBar := some (t.observe s)

/-- All four values are expressed in the unit of the bar. -/
structure InUnit (t : TracedBar) : Prop where
  opn : t.opn.nativeUnit = t.bar.nativeUnit
  high : t.high.nativeUnit = t.bar.nativeUnit
  low : t.low.nativeUnit = t.bar.nativeUnit
  close : t.close.nativeUnit = t.bar.nativeUnit

/-- The sample is one of the bar's instrument and bucket. -/
def Belongs (first s : OiSample) : Prop :=
  s.instrument = first.instrument ∧ s.bucketTs = first.bucketTs

/-- Whatever is observed after the first sample, the bar stays in its unit. -/
def OneUnit (first : OiSample) (rest : List OiSample) : Prop :=
  Throughout step InUnit (start first) rest

/-- What every sequence keeps of the first sample. -/
structure Begun (first : OiSample) (t : TracedBar) : Prop where
  instrument : t.bar.instrument = first.instrument
  bucketTs : t.bar.bucketTs = first.bucketTs
  nativeUnit : t.bar.nativeUnit = first.nativeUnit

variable {first s : OiSample} {t : TracedBar}

/-- The bar that is traced is the one that the untraced calls leave. -/
theorem observe_bar (t : TracedBar) (s : OiSample) :
    (t.observe s).bar = match t.bar.observe s with
      | .error _ => t.bar
      | .ok bar => bar := by
  unfold observe OiSnapshot.observe
  by_cases hmismatch : s.instrument ≠ t.bar.instrument ∨ s.bucketTs ≠ t.bar.bucketTs
  · rw [if_pos hmismatch]
  · rw [if_neg hmismatch]
    rfl

theorem Begun.observe_of_belongs (h : Begun first t) (hs : Belongs first s) :
    t.observe s = t.fold s := by
  unfold observe
  rw [OiSnapshot.observe_eq_ok (hs.1.trans h.instrument.symm) (hs.2.trans h.bucketTs.symm)]

theorem Begun.observe_of_not_belongs (h : Begun first t) (hs : ¬ Belongs first s) :
    t.observe s = t := by
  have hmismatch : s.instrument ≠ t.bar.instrument ∨ s.bucketTs ≠ t.bar.bucketTs := by
    rw [h.instrument, h.bucketTs]
    exact not_and_or.mp hs
  unfold observe OiSnapshot.observe
  rw [if_pos hmismatch]

theorem Begun.observe (h : Begun first t) (s : OiSample) : Begun first (t.observe s) := by
  by_cases hs : Belongs first s
  · rw [h.observe_of_belongs hs]
    exact ⟨h.instrument, h.bucketTs, h.nativeUnit⟩
  · rw [h.observe_of_not_belongs hs]
    exact h

/-- A sample of the bar's unit keeps all four values in it. -/
theorem InUnit.fold (h : InUnit t) (hs : s.nativeUnit = t.bar.nativeUnit) :
    InUnit (t.fold s) := by
  constructor
  case opn => exact h.opn
  case high =>
    show (if _ then s else t.high).nativeUnit = _
    split
    · exact hs
    · exact h.high
  case low =>
    show (if _ then s else t.low).nativeUnit = _
    split
    · exact hs
    · exact h.low
  case close => exact hs

/-- The invariant of a sequence without a foreign unit. -/
def Kept (first : OiSample) (t : TracedBar) : Prop := Begun first t ∧ InUnit t

theorem kept_start (first : OiSample) : Kept first (start first) :=
  ⟨⟨rfl, rfl, rfl⟩, ⟨rfl, rfl, rfl, rfl⟩⟩

theorem Kept.of_step {t' : TracedBar} (h : Kept first t)
    (hs : Belongs first s → s.nativeUnit = first.nativeUnit) (hstep : step t s = some t') :
    Kept first t' := by
  obtain ⟨hbegun, hunit⟩ := h
  obtain rfl := Option.some.inj hstep
  refine ⟨hbegun.observe s, ?_⟩
  by_cases hbelongs : Belongs first s
  · rw [hbegun.observe_of_belongs hbelongs]
    exact hunit.fold ((hs hbelongs).trans hbegun.nativeUnit.symm)
  · rw [hbegun.observe_of_not_belongs hbelongs]
    exact hunit

/-- The close shows a foreign unit. -/
theorem Kept.unit_of_inUnit {t' : TracedBar} (h : Kept first t) (hstep : step t s = some t')
    (hunit : InUnit t') (hs : Belongs first s) : s.nativeUnit = first.nativeUnit := by
  obtain rfl := Option.some.inj hstep
  rw [h.1.observe_of_belongs hs] at hunit
  exact hunit.close.trans h.1.nativeUnit

/-- A bar stays in its unit exactly if every sample of its instrument and bucket has the
unit of the first one. -/
theorem oneUnit_iff {rest : List OiSample} :
    OneUnit first rest ↔ ∀ s ∈ rest, Belongs first s → s.nativeUnit = first.nativeUnit := by
  have hiff : OneUnit first rest ↔
      Along step (fun _ s => Belongs first s → s.nativeUnit = first.nativeUnit) (start first)
        rest :=
    throughout_iff_along (fun _ _ _ hkept hok hstep => hkept.of_step hok hstep)
      (fun _ hkept => hkept.2)
      (fun _ _ _ hkept hstep hunit => hkept.unit_of_inUnit hstep hunit) (kept_start first)
  rw [hiff]
  exact along_iff_forall fun _ _ => rfl

end TracedBar

end OiTerminal.Core
