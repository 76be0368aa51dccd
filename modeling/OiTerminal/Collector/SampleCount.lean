import OiTerminal.Core.BarFold
import OiTerminal.Collector.Aggregator

/-!
# The samples that the aggregator counts

The aggregator tells a bar that it has just made from an older one by the bar's counter and
receive time. A second sample with the receive time of the first looks like the first.
-/
namespace OiTerminal.Collector.SampleCount

open OiTerminal.Core

set_option autoImplicit false

/-- Calls in a row, with the bar that each of them returns. -/
def observeEach (agg : OiAggregator) : List OiSample → OiAggregator × List OiSnapshot
  | [] => (agg, [])
  | s :: rest =>
    let (agg, bar) := agg.observe s
    let (agg, bars) := observeEach agg rest
    (agg, bar :: bars)

/-- The bar that the last call returns. -/
def lastBar (agg : OiAggregator) (samples : List OiSample) : Option OiSnapshot :=
  (observeEach agg samples).2.getLast?

/-- Each call returns the bar of all samples so far. -/
def CountsEach (agg : OiAggregator) (samples : List OiSample) : Prop :=
  ∀ front, front <+: samples → front ≠ [] → lastBar agg front = barOf front

/-- The second sample, if there is one, was received at another time than the first. -/
def SecondApart (s : OiSample) (rest : List OiSample) : Prop :=
  ∀ t ∈ rest.head?, t.recvTs ≠ s.recvTs

/-- What one call makes of the bar of its minute. -/
def next (bar : OiSnapshot) (s : OiSample) : OiSnapshot :=
  if bar.samples = 1 ∧ bar.lastRecvTs = s.recvTs then bar else bar.fold s

variable {agg : OiAggregator} {bar : OiSnapshot} {s : OiSample} {rest : List OiSample}

theorem observe_next (hcur : agg.current s.instrument = some bar)
    (hi : s.instrument = bar.instrument) (hb : s.bucketTs = bar.bucketTs) :
    agg.observe s = (agg.put s.instrument (next bar s), next bar s) := by
  unfold next
  split
  case isTrue hrepeat => exact OiAggregator.observe_repeat hcur hb.symm hrepeat.1 hrepeat.2
  case isFalse hfold =>
    unfold OiAggregator.observe
    dsimp only
    rw [hcur, Option.getD_some, if_pos hb.symm, if_neg hfold, OiSnapshot.observe_eq_ok hi hb]

theorem next_key (bar : OiSnapshot) (s : OiSample) :
    (next bar s).instrument = bar.instrument ∧ (next bar s).bucketTs = bar.bucketTs := by
  unfold next
  split <;> exact ⟨rfl, rfl⟩

/-- Further calls of the minute go on from the bar that is there. -/
theorem observeEach_getLast (hcur : agg.current bar.instrument = some bar)
    (hsame : ∀ t ∈ rest, t.instrument = bar.instrument ∧ t.bucketTs = bar.bucketTs) :
    (bar :: (observeEach agg rest).2).getLast? = some (rest.foldl next bar) := by
  induction rest generalizing agg bar with
  | nil => rfl
  | cons t rest ih =>
    obtain ⟨ht, hrest⟩ := List.forall_mem_cons.mp hsame
    obtain ⟨hinstrument, hbucket⟩ := next_key bar t
    have hobserve : agg.observe t = (agg.put t.instrument (next bar t), next bar t) := by
      apply observe_next _ ht.1 ht.2
      rw [ht.1]
      exact hcur
    unfold observeEach
    rw [hobserve]
    dsimp only
    rw [List.getLast?_cons_cons]
    apply ih
    · rw [hinstrument, ← ht.1]
      exact OiAggregator.current_put _ _ _
    · rw [hinstrument, hbucket]
      exact hrest

theorem lastBar_cons (hvacant : agg.current s.instrument = none)
    (hsame : ∀ t ∈ rest, t.instrument = s.instrument ∧ t.bucketTs = s.bucketTs) :
    lastBar agg (s :: rest) = some (rest.foldl next (.startFromSample s)) := by
  unfold lastBar observeEach
  rw [OiAggregator.observe_vacant hvacant]
  exact observeEach_getLast (OiAggregator.current_put _ _ _) hsame

/-- From the second counted sample on every one is folded in. -/
theorem foldl_next_of_two (h : 2 ≤ bar.samples) :
    rest.foldl next bar = rest.foldl OiSnapshot.fold bar := by
  induction rest generalizing bar with
  | nil => rfl
  | cons t rest ih =>
    have hnext : next bar t = bar.fold t := if_neg fun hone => by omega
    have hmore : 2 ≤ (bar.fold t).samples := by
      show 2 ≤ min (bar.samples + 1) maxSamples
      unfold maxSamples
      omega
    rw [List.foldl_cons, List.foldl_cons, hnext, ih hmore]

/-- The samples that repeat the receive time of the first are left out. -/
theorem foldl_next_start : rest.foldl next (.startFromSample s) =
    (rest.dropWhile fun t => t.recvTs = s.recvTs).foldl OiSnapshot.fold (.startFromSample s) := by
  induction rest with
  | nil => rfl
  | cons t rest ih =>
    rw [List.foldl_cons, List.dropWhile_cons]
    by_cases ht : t.recvTs = s.recvTs
    · have hnext : next (.startFromSample s) t = .startFromSample s := if_pos ⟨rfl, ht.symm⟩
      rw [hnext, if_pos (decide_eq_true ht), ih]
    · have hnext : next (.startFromSample s) t = (OiSnapshot.startFromSample s).fold t :=
        if_neg fun hrepeat => ht hrepeat.2.symm
      have htwo : ((OiSnapshot.startFromSample s).fold t).samples = 2 := rfl
      rw [hnext, if_neg (by simpa using ht), foldl_next_of_two htwo.ge, List.foldl_cons]

theorem foldl_next_of_apart (h : SecondApart s rest) :
    rest.foldl next (.startFromSample s) =
      rest.foldl OiSnapshot.fold (.startFromSample s) := by
  rw [foldl_next_start]
  cases rest with
  | nil => rfl
  | cons t rest =>
    have ht : t.recvTs ≠ s.recvTs := h t rfl
    rw [List.dropWhile_cons, if_neg (by simpa using ht)]

/-- A repeat of the first receive time shows in the counter, unless that is full. -/
theorem samples_lt_of_repeat (h : ¬ SecondApart s rest) (hlen : rest.length < maxSamples) :
    (rest.foldl next (.startFromSample s)).samples <
      (rest.foldl OiSnapshot.fold (.startFromSample s)).samples := by
  cases rest with
  | nil => exact absurd (fun t ht => by cases ht) h
  | cons t rest =>
    have ht : t.recvTs = s.recvTs := by
      by_contra hne
      exact h fun u hu => (Option.some.inj hu) ▸ hne
    have hcount : ∀ l : List OiSample, (l.foldl OiSnapshot.fold (.startFromSample s)).samples =
        min (l.length + 1) maxSamples := by
      intro l
      have href : OiSnapshot.Reference ([s] ++ l) _ := (OiSnapshot.reference_start s).foldl
      rw [href.count, List.singleton_append, List.length_cons]
    have hdrop : ((t :: rest).dropWhile fun u => u.recvTs = s.recvTs).length ≤ rest.length := by
      rw [List.dropWhile_cons, if_pos (decide_eq_true ht)]
      exact (List.dropWhile_suffix _).length_le
    rw [foldl_next_start, hcount, hcount, List.length_cons]
    rw [List.length_cons] at hlen
    omega

/-- As long as the counter is not full, the bar of the last call tells. -/
theorem lastBar_eq_iff (hvacant : agg.current s.instrument = none)
    (hsame : ∀ t ∈ rest, t.instrument = s.instrument ∧ t.bucketTs = s.bucketTs)
    (hlen : rest.length < maxSamples) :
    lastBar agg (s :: rest) = barOf (s :: rest) ↔ SecondApart s rest := by
  rw [lastBar_cons hvacant hsame, OiSnapshot.barOf_cons hsame, Option.some.injEq]
  constructor
  · intro heq
    by_contra hrepeat
    exact absurd (congrArg OiSnapshot.samples heq) (samples_lt_of_repeat hrepeat hlen).ne
  · exact foldl_next_of_apart

/-- A run of calls for a minute returns the bar of the samples so far at each call exactly
if the second sample was received at another time than the first. As long as the counter is
not full, the bar of the last call alone tells. -/
theorem counts_iff_second_apart (hvacant : agg.current s.instrument = none)
    (hsame : ∀ t ∈ rest, t.instrument = s.instrument ∧ t.bucketTs = s.bucketTs) :
    (CountsEach agg (s :: rest) ↔ SecondApart s rest) ∧
      (rest.length < maxSamples →
        (lastBar agg (s :: rest) = barOf (s :: rest) ↔ SecondApart s rest)) := by
  have hfront : ∀ front, front <+: rest →
      ∀ t ∈ front, t.instrument = s.instrument ∧ t.bucketTs = s.bucketTs :=
    fun front hstarts t ht => hsame t (hstarts.subset ht)
  refine ⟨⟨?_, ?_⟩, lastBar_eq_iff hvacant hsame⟩
  · intro hcounts
    -- two samples are enough to see it
    cases rest with
    | nil => intro t ht; cases ht
    | cons t rest =>
      have hstarts : [t] <+: t :: rest := List.prefix_append [t] rest
      have htwo := hcounts (s :: [t]) (List.prefix_cons_iff.mpr (.inr ⟨[t], rfl, hstarts⟩))
        (List.cons_ne_nil _ _)
      have hlen : [t].length < maxSamples := show 1 < maxSamples by decide
      exact (lastBar_eq_iff hvacant (hfront [t] hstarts) hlen).mp htwo
  · intro happart front hstarts hne
    obtain ⟨u, front, rfl⟩ := List.exists_cons_of_ne_nil hne
    obtain ⟨rfl, hrest⟩ := List.cons_prefix_cons.mp hstarts
    rw [lastBar_cons hvacant (hfront front hrest), OiSnapshot.barOf_cons (hfront front hrest),
      foldl_next_of_apart]
    intro t ht
    obtain ⟨tail, rfl⟩ := hrest
    apply happart t
    rw [List.head?_append, Option.mem_def.mp ht]
    rfl

/-- Three samples of a minute, each received at its own time. -/
theorem three_apart_counted :
    lastBar .new [sampleAt 60 61, sampleAt 60 62, sampleAt 60 63] =
      barOf [sampleAt 60 61, sampleAt 60 62, sampleAt 60 63] := by
  have hlen : [sampleAt 60 62, sampleAt 60 63].length < maxSamples := by
    show 2 < maxSamples
    decide
  apply ((counts_iff_second_apart (OiAggregator.current_new _) (by decide)).2 hlen).mpr
  intro t ht
  obtain rfl : sampleAt 60 62 = t := Option.some.inj ht
  decide

/-- Two samples of one frame carry one receive time, and the second is not counted. -/
theorem repeated_recv_time_skipped :
    ¬ ∀ (agg : OiAggregator) (s : OiSample) (rest : List OiSample),
      agg.current s.instrument = none →
      (∀ t ∈ rest, t.instrument = s.instrument ∧ t.bucketTs = s.bucketTs) →
        lastBar agg (s :: rest) = barOf (s :: rest) := by
  intro h
  let second : OiSample := { sampleAt 60 61 with nativeValue := .ofNat 300 (by decide) }
  have hskipped := h .new (sampleAt 60 61) [second] (OiAggregator.current_new _) (by decide)
  rw [lastBar_cons (OiAggregator.current_new _) (by decide),
    OiSnapshot.barOf_cons (by decide)] at hskipped
  exact absurd (congrArg OiSnapshot.samples (Option.some.inj hskipped)) (by decide)

end OiTerminal.Collector.SampleCount
