import Mathlib.Algebra.Order.Floor.Ring
import Mathlib.Data.Rat.Floor
import OiTerminal.Core.Time
import OiTerminal.Lib.Backlog

/-!
# The minute scheduler

One scheduler per collector loop. It remembers the last bucket and computes the wait from
the clock, so a loop that overran is handed the next minute at once.
-/
namespace OiTerminal.Collector.Scheduler

open OiTerminal.Core.Time
open OiTerminal.Lib.Backlog

set_option autoImplicit false

structure MinuteTick where
  /-- The minute boundary we're firing for. -/
  bucketTs : Int
  /-- Fired without sleeping because the previous iteration overran its minute. -/
  late : Bool
  deriving DecidableEq

structure MinuteScheduler where
  offset : Int
  lastBucket : Option Int

/-- The offset is cut to whole seconds. -/
def MinuteScheduler.new (offset : Int) : MinuteScheduler := ⟨seconds (offset / seconds 1), none⟩

/-- The next bucket to process and how long to sleep before its data is due. -/
def plan (lastBucket : Option Int) (now offset : Int) : Int × Int :=
  let target := match lastBucket with
    | some b => b + minutes 1
    | none => floorToMinute now - minutes 1
  let deadline := target + minutes 1 + offset
  (target, deadline - now)

def wholeMilliseconds (d : Int) : Int := d.tdiv 1000000

/-- A call of `next` at `now`: the scheduler afterwards, the tick, and the time slept. -/
def MinuteScheduler.next (s : MinuteScheduler) (now : Int) : MinuteScheduler × MinuteTick × Int :=
  let (target, wait) := plan s.lastBucket now s.offset
  let late := decide (wait ≤ 0) && s.lastBucket.isSome
  let slept := if 0 < wait then max (wholeMilliseconds wait) 0 * 1000000 else 0
  ({ s with lastBucket := some target }, ⟨target, late⟩, slept)

/-! ## Runs of a loop that works between calls -/

/-- One call of `next` in a run, with the scheduler that it leaves behind. -/
structure Call where
  calledAt : Int
  tick : MinuteTick
  returnedAt : Int
  scheduler : MinuteScheduler

/-- The sleep wakes exactly when asked. -/
def call (s : MinuteScheduler) (now : Int) : Call where
  calledAt := now
  tick := (s.next now).2.1
  returnedAt := now + (s.next now).2.2
  scheduler := (s.next now).1

/-- The `k`-th call, when the first is made at `start` and the iteration after the `k`-th
call works for `w k`. -/
def calls (offset start : Int) (w : ℕ → Int) : ℕ → Call
  | 0 => call (.new offset) start
  | k + 1 =>
    let previous := calls offset start w k
    call previous.scheduler (previous.returnedAt + w k)

/-- Bucket data is due one minute and the settle offset after the bucket starts. -/
def Call.deadline (c : Call) (offset : Int) : Int := c.tick.bucketTs + minutes 1 + offset

/-- How far behind its deadline the call returned. -/
def Call.lag (c : Call) (offset : Int) : Int := c.returnedAt - c.deadline offset

/-- What the scheduler promises its loop over a whole run. -/
structure Promises (offset : Int) (w : ℕ → Int) (run : ℕ → Call) : Prop where
  aligned : minutes 1 ∣ (run 0).tick.bucketTs
  everyMinute : ∀ k : ℕ, (run k).tick.bucketTs = (run 0).tick.bucketTs + minutes k
  returned : ∀ k, (run k).returnedAt = max (run k).calledAt ((run k).deadline offset)
  closed : ∀ k, (run k).tick.bucketTs + minutes 1 ≤ (run k).returnedAt
  lag : Carries (minutes 1) w fun k => (run k).lag offset
  late : ∀ k, 1 ≤ k → ((run k).tick.late = true ↔ (run k).deadline offset ≤ (run k).calledAt)
  heals : ∀ (n : ℕ) (d : Int), 0 < d → (∀ k, n ≤ k → w k ≤ minutes 1 - d) →
    {k | n ≤ k ∧ 0 < (run k).lag offset}.encard ≤ ⌈((run n).lag offset : ℚ) / d⌉₊

variable {offset start : Int} {w : ℕ → Int} {s : MinuteScheduler} {now : Int}

theorem bucketTs_of_some {b : Int} (h : s.lastBucket = some b) :
    (call s now).tick.bucketTs = b + minutes 1 := by
  simp only [call, MinuteScheduler.next, plan, h]

theorem bucketTs_of_none (h : s.lastBucket = none) :
    (call s now).tick.bucketTs = floorToMinute now - minutes 1 := by
  simp only [call, MinuteScheduler.next, plan, h]

theorem plan_wait : (plan s.lastBucket now s.offset).2 =
    (call s now).deadline s.offset - now := rfl

theorem late_iff (h : s.lastBucket.isSome = true) :
    (call s now).tick.late = true ↔ (call s now).deadline s.offset ≤ (call s now).calledAt := by
  show (decide ((plan s.lastBucket now s.offset).2 ≤ 0) && s.lastBucket.isSome) = true ↔
    (call s now).deadline s.offset ≤ now
  rw [h, Bool.and_true, decide_eq_true_iff, plan_wait]
  omega

/-- A wait of whole milliseconds is slept in full. -/
theorem returnedAt_eq (h : (1000000 : Int) ∣ (call s now).deadline s.offset - now) :
    (call s now).returnedAt = max (call s now).calledAt ((call s now).deadline s.offset) := by
  obtain ⟨ms, hms⟩ := h
  have hwait : (plan s.lastBucket now s.offset).2 = 1000000 * ms := plan_wait.trans hms
  show now + (if 0 < (plan s.lastBucket now s.offset).2 then
    max (wholeMilliseconds (plan s.lastBucket now s.offset).2) 0 * 1000000 else 0) =
      max now ((call s now).deadline s.offset)
  rw [hwait, wholeMilliseconds, Int.mul_tdiv_cancel_left ms (by decide)]
  split
  · omega
  · omega

/-- No call returns before its bucket starts, also when the sleep drops a fraction of a
millisecond. -/
theorem bucketTs_le_returnedAt (h : 0 ≤ s.offset) :
    (call s now).tick.bucketTs ≤ (call s now).returnedAt := by
  have hwait : (plan s.lastBucket now s.offset).2 =
      (call s now).tick.bucketTs + minutes 1 + s.offset - now := plan_wait
  show (call s now).tick.bucketTs ≤ now + (if 0 < (plan s.lastBucket now s.offset).2 then
    max (wholeMilliseconds (plan s.lastBucket now s.offset).2) 0 * 1000000 else 0)
  rw [hwait]
  unfold wholeMilliseconds minutes
  split
  · rename_i hpos
    rw [Int.tdiv_eq_ediv_of_nonneg hpos.le]
    omega
  · omega

/-! ### The buckets -/

theorem calls_offset (k : ℕ) :
    (calls offset start w k).scheduler.offset = seconds (offset / seconds 1) := by
  induction k with
  | zero => rfl
  | succ k ih => exact ih

theorem calls_lastBucket (k : ℕ) : (calls offset start w k).scheduler.lastBucket =
    some (calls offset start w k).tick.bucketTs := by
  cases k <;> rfl

theorem bucketTs_zero :
    (calls offset start w 0).tick.bucketTs = floorToMinute start - minutes 1 :=
  bucketTs_of_none rfl

theorem bucketTs_succ (k : ℕ) : (calls offset start w (k + 1)).tick.bucketTs =
    (calls offset start w k).tick.bucketTs + minutes 1 :=
  bucketTs_of_some (calls_lastBucket k)

theorem bucketTs_calls (k : ℕ) : (calls offset start w k).tick.bucketTs =
    (calls offset start w 0).tick.bucketTs + minutes k := by
  induction k with
  | zero =>
    unfold minutes
    omega
  | succ k ih =>
    rw [bucketTs_succ, ih]
    unfold minutes
    omega

theorem aligned_zero : minutes 1 ∣ (calls offset start w 0).tick.bucketTs := by
  rw [bucketTs_zero, floorToMinute_eq]
  unfold minutes
  omega

/-! ### The clock -/

theorem seconds_truncate (n : Int) : seconds (seconds n / seconds 1) = seconds n := by
  unfold seconds
  omega

/-- Every call of a run is made on a scheduler that knows a bucket, the first one excepted. -/
theorem exists_call (secs start : Int) (w : ℕ → Int) (k : ℕ) : ∃ s now, s.offset = seconds secs ∧
    (1 ≤ k → s.lastBucket.isSome = true) ∧ calls (seconds secs) start w k = call s now := by
  cases k with
  | zero =>
    exact ⟨.new (seconds secs), start, seconds_truncate secs, fun h => absurd h (by decide), rfl⟩
  | succ k =>
    exact ⟨_, _, (calls_offset k).trans (seconds_truncate secs),
      fun _ => by rw [calls_lastBucket]; rfl, rfl⟩

/-- With whole seconds of offset every deadline is a whole number of milliseconds. -/
theorem deadline_whole (secs : Int) (k : ℕ) :
    (1000000 : Int) ∣ (calls offset start w k).deadline (seconds secs) := by
  have haligned : minutes 1 ∣ (calls offset start w 0).tick.bucketTs := aligned_zero
  obtain ⟨b, hb⟩ := haligned
  unfold Call.deadline
  rw [bucketTs_calls, hb]
  unfold minutes seconds
  omega

/-- Rounding the quotient up covers the dividend. -/
theorem le_ceil_smul (x : Int) {d : Int} (hd : 0 < d) : x ≤ ⌈(x : ℚ) / d⌉₊ • d := by
  have hdq : (0 : ℚ) < d := by exact_mod_cast hd
  have hceil : (x : ℚ) / d ≤ ⌈(x : ℚ) / d⌉₊ := Nat.le_ceil _
  have hmul : (x : ℚ) ≤ ⌈(x : ℚ) / d⌉₊ * d := (div_le_iff₀ hdq).mp hceil
  rw [nsmul_eq_mul]
  exact_mod_cast hmul

section WholeMilliseconds

variable (secs startMs : Int) (ms : ℕ → Int)

/-- The run of a loop whose clock and whose work are in whole milliseconds. -/
def millisCalls : ℕ → Call := calls (seconds secs) (ofMillis startMs) fun k => ofMillis (ms k)

variable {secs startMs ms}

theorem returnedAt_of_calledAt {k : ℕ}
    (h : (1000000 : Int) ∣ (millisCalls secs startMs ms k).calledAt) :
    (millisCalls secs startMs ms k).returnedAt = max (millisCalls secs startMs ms k).calledAt
      ((millisCalls secs startMs ms k).deadline (seconds secs)) := by
  have hdue : (1000000 : Int) ∣ (millisCalls secs startMs ms k).deadline (seconds secs) :=
    deadline_whole secs k
  obtain ⟨s, now, hoffset, _, hcall⟩ := exists_call secs (ofMillis startMs)
    (fun k => ofMillis (ms k)) k
  unfold millisCalls at h hdue ⊢
  rw [hcall] at h hdue ⊢
  rw [← hoffset] at hdue ⊢
  exact returnedAt_eq (dvd_sub hdue h)

theorem calledAt_whole (k : ℕ) : (1000000 : Int) ∣ (millisCalls secs startMs ms k).calledAt := by
  induction k with
  | zero => exact Dvd.intro_left startMs rfl
  | succ k ih =>
    have hdue : (1000000 : Int) ∣ (millisCalls secs startMs ms k).deadline (seconds secs) :=
      deadline_whole secs k
    show (1000000 : Int) ∣ (millisCalls secs startMs ms k).returnedAt + ofMillis (ms k)
    rw [returnedAt_of_calledAt ih]
    unfold ofMillis
    omega

theorem returnedAt_millisCalls (k : ℕ) :
    (millisCalls secs startMs ms k).returnedAt = max (millisCalls secs startMs ms k).calledAt
      ((millisCalls secs startMs ms k).deadline (seconds secs)) :=
  returnedAt_of_calledAt (calledAt_whole k)

/-- The next call is made when the work is done, and its deadline is one minute on. -/
theorem lag_carries : Carries (minutes 1) (fun k => ofMillis (ms k))
    fun k => (millisCalls secs startMs ms k).lag (seconds secs) := by
  intro k
  have hdue : (millisCalls secs startMs ms (k + 1)).deadline (seconds secs) =
      (millisCalls secs startMs ms k).deadline (seconds secs) + minutes 1 := by
    unfold Call.deadline millisCalls
    rw [bucketTs_succ]
    omega
  have hcalled : (millisCalls secs startMs ms (k + 1)).calledAt =
      (millisCalls secs startMs ms k).returnedAt + ofMillis (ms k) := rfl
  show (millisCalls secs startMs ms (k + 1)).returnedAt -
    (millisCalls secs startMs ms (k + 1)).deadline (seconds secs) =
      max 0 ((millisCalls secs startMs ms k).lag (seconds secs) + ofMillis (ms k) - minutes 1)
  rw [returnedAt_millisCalls (k + 1), hdue, hcalled]
  unfold Call.lag
  omega

theorem closed_of_returned (hsecs : 0 ≤ secs) (k : ℕ) :
    (millisCalls secs startMs ms k).tick.bucketTs + minutes 1 ≤
      (millisCalls secs startMs ms k).returnedAt := by
  rw [returnedAt_millisCalls]
  unfold Call.deadline seconds
  omega

theorem late_millisCalls {k : ℕ} (hk : 1 ≤ k) :
    (millisCalls secs startMs ms k).tick.late = true ↔
      (millisCalls secs startMs ms k).deadline (seconds secs) ≤
        (millisCalls secs startMs ms k).calledAt := by
  obtain ⟨s, now, hoffset, hsome, hcall⟩ := exists_call secs (ofMillis startMs)
    (fun k => ofMillis (ms k)) k
  unfold millisCalls
  rw [hcall, ← hoffset]
  exact late_iff (hsome hk)

/-- For any clock reading, any whole-second offset and any work in whole milliseconds, no
minute is skipped, repeated or handed out early, and lag is worked off. -/
theorem schedule_keeps_promises (startMs : Int) (secs : ℕ) (ms : ℕ → ℕ) :
    Promises (seconds secs) (fun k => ofMillis (ms k))
      (calls (seconds secs) (ofMillis startMs) fun k => ofMillis (ms k)) where
  aligned := aligned_zero
  everyMinute := bucketTs_calls
  returned := returnedAt_millisCalls
  closed := closed_of_returned (Int.natCast_nonneg secs)
  lag := lag_carries
  late _ hk := late_millisCalls hk
  heals _ _ hd hspare := lag_carries.encard_positive_le hd.le hspare (le_ceil_smul _ hd)

end WholeMilliseconds

end OiTerminal.Collector.Scheduler
