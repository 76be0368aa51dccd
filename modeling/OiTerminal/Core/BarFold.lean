import OiTerminal.Core.Snapshot
import OiTerminal.Lib.Ohlc

/-!
# The bar as a fold of its samples

The method that folds a sample in changes the bar field by field. What it arrives at is the
first, the last and the extreme values of each axis, the axes being independent of each
other.
-/
namespace OiTerminal.Core

open OiTerminal.Lib

set_option autoImplicit false

/-- `observe` as the method of the source: the check comes first, then each field is set in
turn. The bar that is left comes with the result. -/
def OiSnapshot.observeMut (self : OiSnapshot) (s : OiSample) :
    Except ExchangeError Unit × OiSnapshot :=
  if s.instrument ≠ self.instrument ∨ s.bucketTs ≠ self.bucketTs then
    (.error (.schema [.text "observe: sample bucket ", .instrument s.instrument, .text "@",
      .timestamp s.bucketTs, .text " does not match bar ", .instrument self.instrument,
      .text "@", .timestamp self.bucketTs]), self)
  else
    let self := { self with samples := min (self.samples + 1) maxSamples }
    let self := { self with lastRecvTs := s.recvTs }
    let self := { self with nativeClose := s.nativeValue }
    let self := if self.nativeHigh < s.nativeValue then { self with nativeHigh := s.nativeValue }
      else self
    let self := if s.nativeValue < self.nativeLow then { self with nativeLow := s.nativeValue }
      else self
    let coins := foldOptional self.coins s.oiCoins
    let self := { self with
      oiCoinsOpen := coins.opn
      oiCoinsHigh := coins.high
      oiCoinsLow := coins.low
      oiCoinsClose := coins.close }
    let usd := foldOptional self.usd s.oiUsd
    let self := { self with
      oiUsdOpen := usd.opn
      oiUsdHigh := usd.high
      oiUsdLow := usd.low
      oiUsdClose := usd.close }
    match s.priceUsed with
    | some p => (.ok (), { self with priceUsedClose := some p })
    | none => (.ok (), self)

/-- A caller that observes one sample after the other and stops at the first error. -/
def OiSnapshot.observeAll (self : OiSnapshot) :
    List OiSample → Except ExchangeError Unit × OiSnapshot
  | [] => (.ok (), self)
  | s :: rest =>
    match self.observeMut s with
    | (.error e, self) => (.error e, self)
    | (.ok (), self) => self.observeAll rest

/-- The method and the function agree, and a rejected sample leaves the bar as it was. -/
theorem OiSnapshot.observeMut_eq (bar : OiSnapshot) (s : OiSample) :
    bar.observeMut s =
      match bar.observe s with
      | .ok folded => (.ok (), folded)
      | .error e => (.error e, bar) := by
  unfold observeMut observe
  by_cases hmismatch : s.instrument ≠ bar.instrument ∨ s.bucketTs ≠ bar.bucketTs
  · rw [if_pos hmismatch, if_pos hmismatch]
  · rw [if_neg hmismatch, if_neg hmismatch]
    unfold fold
    by_cases hhigh : bar.nativeHigh < s.nativeValue
    all_goals by_cases hlow : s.nativeValue < bar.nativeLow
    all_goals
      simp only [hhigh, hlow, if_true, if_false]
      cases s.priceUsed <;> rfl

namespace OptionalOhlc

/-- An axis whose values may be missing agrees with its series: open and close are the first
and the last value, the extremes are attained, and without values all is empty. -/
structure Reference (axis : OptionalOhlc) (values : List Decimal) : Prop where
  opn : axis.opn = values.head?
  high : axis.high = none ∧ values = [] ∨
    ∃ h, axis.high = some h ∧ IsGreatest {v | v ∈ values} h
  low : axis.low = none ∧ values = [] ∨ ∃ l, axis.low = some l ∧ IsLeast {v | v ∈ values} l
  close : axis.close = values.getLast?

/-- The extremes enclose open and close, where there are any. -/
def Ordered (axis : OptionalOhlc) : Prop :=
  ∀ o h l c, axis = ⟨some o, some h, some l, some c⟩ → l ≤ o ∧ l ≤ c ∧ o ≤ h ∧ c ≤ h

def ofBar : Option (Ohlc.Bar Decimal) → OptionalOhlc
  | none => ⟨none, none, none, none⟩
  | some bar => ⟨some bar.opn, some bar.high, some bar.low, some bar.close⟩

theorem foldOptional_ofBar (bar : Option (Ohlc.Bar Decimal)) (incoming : Option Decimal) :
    foldOptional (ofBar bar) incoming = ofBar (Ohlc.offer bar incoming) := by
  cases incoming with
  | none => rfl
  | some v => cases bar <;> rfl

/-- The axis is a bar of the library, or none. -/
theorem reference_iff {axis : OptionalOhlc} {values : List Decimal} :
    axis.Reference values ↔ ∃ bar, axis = ofBar bar ∧ Ohlc.Describes bar values := by
  constructor
  · intro h
    obtain ⟨opn, high, low, close⟩ := axis
    obtain ⟨hopn, hhigh, hlow, hclose⟩ := h
    dsimp only at hopn hhigh hlow hclose
    cases values with
    | nil =>
      refine ⟨none, ?_, rfl⟩
      rcases hhigh with ⟨rfl, _⟩ | ⟨h, _, hgreatest⟩
      · rcases hlow with ⟨rfl, _⟩ | ⟨l, _, hleast⟩
        · rw [hopn, hclose]
          rfl
        · cases hleast.1
      · cases hgreatest.1
    | cons v rest =>
      obtain ⟨h, rfl, hgreatest⟩ := hhigh.resolve_left fun hnone => List.cons_ne_nil _ _ hnone.2
      obtain ⟨l, rfl, hleast⟩ := hlow.resolve_left fun hnone => List.cons_ne_nil _ _ hnone.2
      have hlast : (v :: rest).getLast? = some ((v :: rest).getLast (List.cons_ne_nil _ _)) :=
        List.getLast?_eq_some_getLast _
      refine ⟨some ⟨v, h, l, (v :: rest).getLast (List.cons_ne_nil _ _)⟩, ?_, ?_⟩
      · rw [hopn, hclose, hlast]
        rfl
      · exact ⟨rfl, hgreatest, hleast, hlast⟩
  · intro h
    obtain ⟨bar, rfl, hdescribes⟩ := h
    cases bar with
    | none =>
      obtain rfl : values = [] := hdescribes
      exact ⟨rfl, .inl ⟨rfl, rfl⟩, .inl ⟨rfl, rfl⟩, rfl⟩
    | some bar =>
      obtain ⟨hopn, hhigh, hlow, hclose⟩ := hdescribes
      exact ⟨hopn.symm, .inr ⟨bar.high, rfl, hhigh⟩, .inr ⟨bar.low, rfl, hlow⟩, hclose.symm⟩

namespace Reference

variable {axis : OptionalOhlc} {values : List Decimal}

theorem foldOptional (h : axis.Reference values) (incoming : Option Decimal) :
    (foldOptional axis incoming).Reference (values ++ incoming.toList) := by
  obtain ⟨bar, rfl, hdescribes⟩ := reference_iff.mp h
  rw [foldOptional_ofBar]
  exact reference_iff.mpr ⟨_, rfl, hdescribes.offer incoming⟩

theorem absent_iff (h : axis.Reference values) :
    axis = ⟨none, none, none, none⟩ ↔ values = [] := by
  obtain ⟨bar, rfl, hdescribes⟩ := reference_iff.mp h
  cases bar with
  | none => exact iff_of_true rfl hdescribes
  | some bar =>
    apply iff_of_false
    · intro hnone
      cases hnone
    · rintro rfl
      cases hdescribes.opn

theorem ordered (h : axis.Reference values) : axis.Ordered := by
  obtain ⟨bar, rfl, hdescribes⟩ := reference_iff.mp h
  intro o hi l c hsome
  cases bar with
  | none => cases hsome
  | some bar =>
    obtain ⟨rfl, rfl, rfl, rfl⟩ : bar.opn = o ∧ bar.high = hi ∧ bar.low = l ∧ bar.close = c := by
      simpa [ofBar] using hsome
    have hbar : bar.Summarizes values := hdescribes
    exact ⟨hbar.low_le_opn, hbar.low_le_close, hbar.opn_le_high, hbar.close_le_high⟩

end Reference

end OptionalOhlc

namespace OiSnapshot

def native (bar : OiSnapshot) : Ohlc.Bar Decimal :=
  ⟨bar.nativeOpen, bar.nativeHigh, bar.nativeLow, bar.nativeClose⟩

/-- The bar agrees with the samples, each column with what it is said to hold. -/
structure Reference (samples : List OiSample) (bar : OiSnapshot) : Prop where
  count : bar.samples = min samples.length maxSamples
  firstRecvTs : samples.head?.map OiSample.recvTs = some bar.firstRecvTs
  lastRecvTs : samples.getLast?.map OiSample.recvTs = some bar.lastRecvTs
  native : bar.native.Summarizes (samples.map OiSample.nativeValue)
  coins : bar.coins.Reference (samples.filterMap OiSample.oiCoins)
  usd : bar.usd.Reference (samples.filterMap OiSample.oiUsd)
  priceUsedClose : bar.priceUsedClose = (samples.filterMap OiSample.priceUsed).getLast?

theorem reference_start (s : OiSample) : Reference [s] (startFromSample s) := by
  have haxis : ∀ v : Option Decimal, (⟨v, v, v, v⟩ : OptionalOhlc).Reference v.toList := by
    intro v
    rw [OptionalOhlc.reference_iff]
    cases v with
    | none => exact ⟨none, rfl, rfl⟩
    | some v => exact ⟨some (.start v), rfl, Ohlc.Bar.summarizes_start v⟩
  have hsingle : ∀ f : OiSample → Option Decimal, [s].filterMap f = (f s).toList := by
    intro f
    cases hf : f s <;> simp [hf]
  constructor
  case count => rfl
  case firstRecvTs => rfl
  case lastRecvTs => rfl
  case native => exact Ohlc.Bar.summarizes_start s.nativeValue
  case coins =>
    rw [hsingle]
    exact haxis s.oiCoins
  case usd =>
    rw [hsingle]
    exact haxis s.oiUsd
  case priceUsedClose =>
    rw [hsingle]
    show s.priceUsed = _
    cases s.priceUsed <;> rfl

/-- One more sample, whatever it lacks. -/
theorem Reference.fold {samples : List OiSample} {bar : OiSnapshot} (h : Reference samples bar)
    (s : OiSample) : Reference (samples ++ [s]) (bar.fold s) := by
  have hmore : ∀ f : OiSample → Option Decimal,
      (samples ++ [s]).filterMap f = samples.filterMap f ++ (f s).toList := by
    intro f
    rw [List.filterMap_append]
    cases hf : f s <;> simp [hf]
  constructor
  case count =>
    show min (bar.samples + 1) maxSamples = _
    rw [h.count, List.length_append, List.length_singleton]
    omega
  case firstRecvTs =>
    rw [List.head?_append]
    have hfirst := h.firstRecvTs
    cases hhead : samples.head? with
    | none =>
      rw [hhead] at hfirst
      cases hfirst
    | some first =>
      rw [hhead] at hfirst
      exact hfirst
  case lastRecvTs =>
    rw [List.getLast?_concat]
    rfl
  case native =>
    rw [List.map_append]
    exact h.native.push
  case coins =>
    rw [hmore]
    exact h.coins.foldOptional s.oiCoins
  case usd =>
    rw [hmore]
    exact h.usd.foldOptional s.oiUsd
  case priceUsedClose =>
    rw [hmore, List.getLast?_append, ← h.priceUsedClose]
    show s.priceUsed.or bar.priceUsedClose = _
    cases s.priceUsed <;> rfl

/-- Samples of the bar's own instrument and bucket are folded in one by one. -/
theorem observeAll_eq {bar : OiSnapshot} {rest : List OiSample}
    (h : ∀ s ∈ rest, s.instrument = bar.instrument ∧ s.bucketTs = bar.bucketTs) :
    bar.observeAll rest = (.ok (), rest.foldl fold bar) := by
  induction rest generalizing bar with
  | nil => rfl
  | cons s rest ih =>
    obtain ⟨hs, hrest⟩ := List.forall_mem_cons.mp h
    unfold observeAll
    rw [observeMut_eq, observe_eq_ok hs.1 hs.2]
    exact ih hrest

theorem Reference.foldl {samples rest : List OiSample} {bar : OiSnapshot}
    (h : Reference samples bar) :
    Reference (samples ++ rest) (rest.foldl OiSnapshot.fold bar) := by
  induction rest generalizing samples bar with
  | nil => simpa using h
  | cons s rest ih =>
    have hstep := ih (h.fold s)
    rw [List.append_assoc] at hstep
    exact hstep

/-- The fold of a list, where no sample is rejected. -/
theorem barOf_cons {s : OiSample} {rest : List OiSample}
    (h : ∀ t ∈ rest, t.instrument = s.instrument ∧ t.bucketTs = s.bucketTs) :
    barOf (s :: rest) = some (rest.foldl fold (startFromSample s)) := by
  suffices hall : ∀ bar : OiSnapshot,
      (∀ t ∈ rest, t.instrument = bar.instrument ∧ t.bucketTs = bar.bucketTs) →
        rest.foldlM observe bar = .ok (rest.foldl fold bar) by
    show (rest.foldlM observe (startFromSample s)).toOption = _
    rw [hall (startFromSample s) h]
    rfl
  intro bar hbar
  clear h
  induction rest generalizing bar with
  | nil => rfl
  | cons t rest ih =>
    obtain ⟨ht, hrest⟩ := List.forall_mem_cons.mp hbar
    rw [List.foldlM_cons, observe_eq_ok ht.1 ht.2]
    exact ih (bar.fold t) hrest

/-- A bar that all samples were folded into is their reference fold. -/
theorem reference_of_barOf {samples : List OiSample} {bar : OiSnapshot}
    (h : barOf samples = some bar) : Reference samples bar := by
  have hall : ∀ (rest front : List OiSample) (start : OiSnapshot), Reference front start →
      (rest.foldlM observe start).toOption = some bar → Reference (front ++ rest) bar := by
    intro rest
    induction rest with
    | nil =>
      intro front start hfront hbar
      obtain rfl := Option.some.inj hbar
      rw [List.append_nil]
      exact hfront
    | cons s rest ih =>
      intro front start hfront hbar
      rw [List.foldlM_cons] at hbar
      unfold observe at hbar
      split at hbar
      · cases hbar
      · have hstep := ih (front ++ [s]) (start.fold s) (hfront.fold s) hbar
        rw [List.append_assoc] at hstep
        exact hstep
  cases samples with
  | nil => cases h
  | cons s rest => exact hall rest [s] (startFromSample s) (reference_start s) h

theorem foldl_fold_key (rest : List OiSample) (bar : OiSnapshot) :
    (rest.foldl fold bar).instrument = bar.instrument ∧
      (rest.foldl fold bar).bucketTs = bar.bucketTs := by
  induction rest generalizing bar with
  | nil => exact ⟨rfl, rfl⟩
  | cons s rest ih => exact ih (bar.fold s)

/-- The bar of a minute is the reference fold of its samples: counts, receive times, open,
close and extremes of the three axes and the price. The extremes enclose open and close, and
a sample of another instrument or bucket is rejected and leaves the bar as it was. -/
theorem observeAll_reference (s : OiSample) (rest : List OiSample)
    (h : ∀ t ∈ rest, t.instrument = s.instrument ∧ t.bucketTs = s.bucketTs) :
    ∃ bar, (startFromSample s).observeAll rest = (.ok (), bar) ∧
      Reference (s :: rest) bar ∧
      (bar.nativeLow ≤ bar.nativeOpen ∧ bar.nativeLow ≤ bar.nativeClose ∧
        bar.nativeOpen ≤ bar.nativeHigh ∧ bar.nativeClose ≤ bar.nativeHigh) ∧
      bar.coins.Ordered ∧ bar.usd.Ordered ∧
      (bar.coins = ⟨none, none, none, none⟩ ↔ ∀ t ∈ s :: rest, t.oiCoins = none) ∧
      (bar.usd = ⟨none, none, none, none⟩ ↔ ∀ t ∈ s :: rest, t.oiUsd = none) ∧
      ∀ other : OiSample, other.instrument ≠ s.instrument ∨ other.bucketTs ≠ s.bucketTs →
        ∃ e, bar.observeMut other = (.error e, bar) := by
  have href : Reference (s :: rest) (rest.foldl fold (startFromSample s)) :=
    (reference_start s).foldl
  refine ⟨rest.foldl fold (startFromSample s), observeAll_eq h, href, ?_, href.coins.ordered,
    href.usd.ordered, ?_, ?_, ?_⟩
  · exact ⟨href.native.low_le_opn, href.native.low_le_close, href.native.opn_le_high,
      href.native.close_le_high⟩
  · rw [href.coins.absent_iff, List.filterMap_eq_nil_iff]
  · rw [href.usd.absent_iff, List.filterMap_eq_nil_iff]
  · intro other hother
    obtain ⟨hinstrument, hbucket⟩ := foldl_fold_key rest (startFromSample s)
    rw [startFromSample_instrument] at hinstrument
    rw [startFromSample_bucketTs] at hbucket
    unfold observeMut
    rw [hinstrument, hbucket, if_pos hother]
    exact ⟨_, rfl⟩

/-- Two samples of one minute. -/
theorem two_samples_reference :
    ∃ bar, (startFromSample (sampleAt 60 61)).observeAll [sampleAt 60 62] = (.ok (), bar) ∧
      bar.samples = 2 := by
  obtain ⟨bar, hbar, href, _⟩ := observeAll_reference (sampleAt 60 61) [sampleAt 60 62] (by decide)
  exact ⟨bar, hbar, href.count⟩

end OiSnapshot

end OiTerminal.Core
