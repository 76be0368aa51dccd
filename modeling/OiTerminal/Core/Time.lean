import Mathlib.Algebra.Order.Ring.Int

/-!
# Instants and minute buckets

An `OffsetDateTime` of the source is the instant it denotes, an `Int` of nanoseconds
since the Unix epoch. Comparison, difference and the minute floor depend on nothing
else, because every clock the collector reads is in UTC. Durations are `Int`
nanoseconds as well.
-/
namespace OiTerminal.Core.Time

set_option autoImplicit false

def seconds (n : Int) : Int := n * 1000000000

def minutes (n : Int) : Int := n * 60000000000

/-- The second within the minute. -/
def second (ts : Int) : Int := ts / 1000000000 % 60

/-- The nanosecond within the second. -/
def nanosecond (ts : Int) : Int := ts % 1000000000

/-- Truncate a timestamp to the start of its UTC minute. -/
def floorToMinute (ts : Int) : Int := ts - seconds (second ts) - nanosecond ts

theorem floorToMinute_eq (ts : Int) : floorToMinute ts = ts - ts % minutes 1 := by
  simp only [floorToMinute, second, nanosecond, seconds, minutes]
  omega

/-- `unix_millis`: whole milliseconds, rounded toward zero as Rust's division rounds. -/
def unixMillis (ts : Int) : Int := ts.tdiv 1000000

/-- The instant that a stored millisecond count denotes. -/
def ofMillis (ms : Int) : Int := ms * 1000000

@[simp] theorem unixMillis_ofMillis (ms : Int) : unixMillis (ofMillis ms) = ms :=
  Int.mul_tdiv_cancel ms (by decide)

/-- What the time crate can hold: the years from -9999 to 9999. -/
def InRange (ts : Int) : Prop :=
  -377705116800000000000 ≤ ts ∧ ts ≤ 253402300799999999999

instance (ts : Int) : Decidable (InRange ts) :=
  inferInstanceAs (Decidable (-377705116800000000000 ≤ ts ∧ ts ≤ 253402300799999999999))

/-- `from_unix_timestamp_nanos` of a count of milliseconds. -/
def fromUnixMillis (ms : Int) : Option Int :=
  if InRange (ofMillis ms) then some (ofMillis ms) else none

/-- The cut goes back to the millisecond, or forward to it before the epoch. -/
theorem unixMillis_cases (ts : Int) :
    (ofMillis (unixMillis ts) ≤ ts ∧ ts < ofMillis (unixMillis ts + 1)) ∨
      (ts < ofMillis (unixMillis ts) ∧ ofMillis (unixMillis ts - 1) < ts) := by
  unfold unixMillis ofMillis
  have hsplit := Int.mul_tdiv_add_tmod ts 1000000
  rcases lt_or_ge ts 0 with hneg | hpos
  · have hlow := Int.lt_tmod_of_pos ts (by decide : (0 : Int) < 1000000)
    have hhigh := Int.tmod_nonneg 1000000 (Int.neg_nonneg_of_nonpos hneg.le)
    rw [Int.neg_tmod] at hhigh
    omega
  · have hlow := Int.tmod_nonneg 1000000 hpos
    have hhigh := Int.tmod_lt_of_pos ts (by decide : (0 : Int) < 1000000)
    omega

/-- The element with the newest timestamp. -/
def newestBy {α : Type} (ts : α → Int) : List α → Option α
  | [] => none
  | x :: rest =>
    match newestBy ts rest with
    | some y => if ts x ≤ ts y then some y else some x
    | none => some x

theorem newestBy_mem {α : Type} {ts : α → Int} {xs : List α} {y : α}
    (h : newestBy ts xs = some y) : y ∈ xs := by
  induction xs generalizing y with
  | nil => cases h
  | cons x rest ih =>
    rw [newestBy] at h
    split at h
    · rename_i z hz
      split at h
      · exact List.mem_cons_of_mem x (ih (hz.trans h))
      · rw [Option.some.inj h]
        exact List.mem_cons_self
    · rw [Option.some.inj h]
      exact List.mem_cons_self

theorem newestBy_eq_none {α : Type} {ts : α → Int} {xs : List α} (h : newestBy ts xs = none) :
    xs = [] := by
  cases xs with
  | nil => rfl
  | cons x rest =>
    rw [newestBy] at h
    split at h
    · split at h <;> cases h
    · cases h

theorem le_newestBy {α : Type} {ts : α → Int} {xs : List α} {x y : α}
    (h : newestBy ts xs = some y) (hx : x ∈ xs) : ts x ≤ ts y := by
  induction xs generalizing y with
  | nil => cases h
  | cons first rest ih =>
    rw [newestBy] at h
    cases hrest : newestBy ts rest with
    | none =>
      rw [hrest] at h
      rw [newestBy_eq_none hrest] at hx
      rw [List.mem_singleton.mp hx, Option.some.inj h]
    | some z =>
      rw [hrest] at h
      have hz : x ∈ rest → ts x ≤ ts z := fun hx => ih hrest hx
      by_cases hle : ts first ≤ ts z
      · simp only [if_pos hle] at h
        obtain rfl := Option.some.inj h
        exact (List.mem_cons.mp hx).elim (fun heq => heq ▸ hle) hz
      · simp only [if_neg hle] at h
        obtain rfl := Option.some.inj h
        rcases List.mem_cons.mp hx with heq | hmem
        · rw [heq]
        · have := hz hmem
          omega

end OiTerminal.Core.Time
