import Mathlib.Data.List.Basic
import Mathlib.Order.Bounds.Basic

/-!
# Open, high, low and close of a series

A bar starts at one value and takes the later ones in turn. Over a total preorder it ends
up with the first and the last of them and with two extremes. An axis whose values may be
missing has no bar until its first value.
-/
namespace OiTerminal.Lib.Ohlc

set_option autoImplicit false

structure Bar (α : Type*) where
  opn : α
  high : α
  low : α
  close : α

variable {α : Type*}

def Bar.start (v : α) : Bar α := ⟨v, v, v, v⟩

def Bar.push [LT α] [DecidableLT α] (bar : Bar α) (v : α) : Bar α where
  opn := bar.opn
  high := if bar.high < v then v else bar.high
  low := if v < bar.low then v else bar.low
  close := v

/-- A missing value changes nothing, the first one starts the bar. -/
def offer [LT α] [DecidableLT α] (bar : Option (Bar α)) (v : Option α) : Option (Bar α) :=
  match v with
  | none => bar
  | some v => some ((bar.map fun b => b.push v).getD (.start v))

variable [Preorder α]

structure Bar.Summarizes (bar : Bar α) (series : List α) : Prop where
  opn : series.head? = some bar.opn
  high : IsGreatest {v | v ∈ series} bar.high
  low : IsLeast {v | v ∈ series} bar.low
  close : series.getLast? = some bar.close

/-- There is a bar exactly if there is a value. -/
def Describes (bar : Option (Bar α)) (series : List α) : Prop :=
  match bar with
  | none => series = []
  | some bar => bar.Summarizes series

theorem Bar.summarizes_start (v : α) : (Bar.start v).Summarizes [v] := by
  constructor
  case opn => rfl
  case high =>
    refine ⟨List.mem_singleton_self v, fun w hw => ?_⟩
    exact (List.mem_singleton.mp hw).le
  case low =>
    refine ⟨List.mem_singleton_self v, fun w hw => ?_⟩
    exact (List.mem_singleton.mp hw).ge
  case close => rfl

namespace Bar.Summarizes

variable {bar : Bar α} {series : List α}

theorem low_le_opn (h : bar.Summarizes series) : bar.low ≤ bar.opn :=
  h.low.2 (List.mem_of_head? h.opn)

theorem opn_le_high (h : bar.Summarizes series) : bar.opn ≤ bar.high :=
  h.high.2 (List.mem_of_head? h.opn)

theorem low_le_close (h : bar.Summarizes series) : bar.low ≤ bar.close :=
  h.low.2 (List.mem_of_getLast? h.close)

theorem close_le_high (h : bar.Summarizes series) : bar.close ≤ bar.high :=
  h.high.2 (List.mem_of_getLast? h.close)

variable [Std.Total fun a b : α => a ≤ b] {v : α}

theorem le_of_not_lt {a b : α} (h : ¬ a < b) : b ≤ a := by
  rcases total_of (fun a b : α => a ≤ b) b a with hle | hle
  · exact hle
  · by_contra hba
    exact h (lt_of_le_not_ge hle hba)

variable [DecidableLT α]

/-- The larger of the old maximum and the new value is the maximum of all. -/
theorem push_high (h : bar.Summarizes series) :
    IsGreatest {w | w ∈ series ++ [v]} (bar.push v).high := by
  unfold Bar.push
  dsimp only
  split
  case isTrue hlt =>
    refine ⟨by simp, fun w hw => ?_⟩
    rcases List.mem_append.mp hw with hold | hnew
    · exact (h.high.2 hold).trans hlt.le
    · exact (List.mem_singleton.mp hnew).le
  case isFalse hle =>
    refine ⟨List.mem_append_left _ h.high.1, fun w hw => ?_⟩
    rcases List.mem_append.mp hw with hold | hnew
    · exact h.high.2 hold
    · rw [List.mem_singleton.mp hnew]
      exact le_of_not_lt hle

theorem push_low (h : bar.Summarizes series) :
    IsLeast {w | w ∈ series ++ [v]} (bar.push v).low := by
  unfold Bar.push
  dsimp only
  split
  case isTrue hlt =>
    refine ⟨by simp, fun w hw => ?_⟩
    rcases List.mem_append.mp hw with hold | hnew
    · exact hlt.le.trans (h.low.2 hold)
    · exact (List.mem_singleton.mp hnew).ge
  case isFalse hle =>
    refine ⟨List.mem_append_left _ h.low.1, fun w hw => ?_⟩
    rcases List.mem_append.mp hw with hold | hnew
    · exact h.low.2 hold
    · rw [List.mem_singleton.mp hnew]
      exact le_of_not_lt hle

/-- One more value extends the series. -/
theorem push (h : bar.Summarizes series) : (bar.push v).Summarizes (series ++ [v]) := by
  constructor
  case opn =>
    rw [List.head?_append, h.opn]
    rfl
  case high => exact h.push_high
  case low => exact h.push_low
  case close => exact List.getLast?_concat

end Bar.Summarizes

variable [DecidableLT α] [Std.Total fun a b : α => a ≤ b]

/-- An observation that may be missing extends the series by what it has. -/
theorem Describes.offer {bar : Option (Bar α)} {series : List α} (h : Describes bar series)
    (v : Option α) : Describes (offer bar v) (series ++ v.toList) := by
  cases v with
  | none =>
    rw [Option.toList_none, List.append_nil]
    exact h
  | some v =>
    cases bar with
    | none =>
      obtain rfl : series = [] := h
      exact Bar.summarizes_start v
    | some bar => exact Bar.Summarizes.push h

end OiTerminal.Lib.Ohlc
