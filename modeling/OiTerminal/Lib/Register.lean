import Mathlib.Data.List.Destutter
import Mathlib.Logic.Function.Basic

/-!
# Registers that keep the last value written

A register is written by updates that may carry no value. It holds the last value that any of
them carried, and the values at which it changes are the written ones without consecutive
repeats.
-/
namespace OiTerminal.Lib.Register

set_option autoImplicit false

section

variable {α β : Type}

/-- The last value that the updates carry. -/
def newest (f : α → Option β) (updates : List α) : Option β := (updates.filterMap f).getLast?

@[simp] theorem newest_nil (f : α → Option β) : newest f [] = none := rfl

/-- One more update overwrites the register, if it carries a value. -/
theorem newest_concat (f : α → Option β) (updates : List α) (x : α) :
    newest f (updates ++ [x]) = (f x).or (newest f updates) := by
  unfold newest
  rw [List.filterMap_append]
  cases hx : f x with
  | none => simp [hx]
  | some y => simp [hx]

end

section

variable {α κ : Type} [DecidableEq κ] (key : α → κ)

/-- The values that differ, in their key, from the one before. -/
def changesFrom : Option κ → List α → List α
  | _, [] => []
  | prev, x :: rest =>
    if prev = some (key x) then changesFrom prev rest else x :: changesFrom (some (key x)) rest

theorem changesFrom_cons (prev : Option κ) (x : α) (rest : List α) :
    changesFrom key prev (x :: rest) =
      (if prev = some (key x) then [] else [x]) ++ changesFrom key (some (key x)) rest := by
  rw [changesFrom]
  by_cases hsame : prev = some (key x)
  · rw [if_pos hsame, if_pos hsame, hsame]
    rfl
  · rw [if_neg hsame, if_neg hsame]
    rfl

theorem destutter'_eq_changesFrom (x : α) (xs : List α) :
    xs.destutter' (fun a b => key a ≠ key b) x = x :: changesFrom key (some (key x)) xs := by
  induction xs generalizing x with
  | nil => rfl
  | cons y rest ih =>
    rw [changesFrom_cons]
    by_cases hkey : key x = key y
    · rw [List.destutter'_cons_neg _ (not_not.mpr hkey), ih, if_pos (congrArg some hkey), hkey]
      rfl
    · rw [List.destutter'_cons_pos _ hkey, ih, if_neg fun h => hkey (Option.some.inj h)]
      rfl

/-- Without an earlier value these are the values with consecutive repeats removed. -/
theorem changesFrom_none (xs : List α) :
    changesFrom key none xs = xs.destutter fun a b => key a ≠ key b := by
  cases xs with
  | nil => rfl
  | cons x rest =>
    rw [List.destutter_cons', destutter'_eq_changesFrom]
    rfl

end

/-! ### A register for each name -/

section

variable {α ν κ : Type} [DecidableEq ν] [DecidableEq κ] (name : α → ν) (key : α → κ)

/-- The values that differ, in their key, from the one that their register holds. -/
def keyedChanges : (ν → Option κ) → List α → List α
  | _, [] => []
  | last, x :: rest =>
    if last (name x) = some (key x) then keyedChanges last rest
    else x :: keyedChanges (Function.update last (name x) (some (key x))) rest

/-- The registers do not disturb each other. -/
theorem filter_keyedChanges (n : ν) (last : ν → Option κ) (xs : List α) :
    (keyedChanges name key last xs).filter (fun x => name x = n) =
      changesFrom key (last n) (xs.filter fun x => name x = n) := by
  induction xs generalizing last with
  | nil => rfl
  | cons x rest ih =>
    unfold keyedChanges
    by_cases hown : name x = n
    · have hcons : ∀ more : List α, (x :: more).filter (fun y => name y = n) =
          x :: more.filter fun y => name y = n :=
        fun _ => List.filter_cons_of_pos (decide_eq_true hown)
      rw [hcons rest, changesFrom, hown]
      by_cases hsame : last n = some (key x)
      · rw [if_pos hsame, if_pos hsame]
        exact ih last
      · rw [if_neg hsame, if_neg hsame, hcons, ih, Function.update_self]
    · have hcons : ∀ more : List α, (x :: more).filter (fun y => name y = n) =
          more.filter fun y => name y = n :=
        fun _ => List.filter_cons_of_neg (by simpa using hown)
      rw [hcons rest]
      by_cases hsame : last (name x) = some (key x)
      · rw [if_pos hsame]
        exact ih last
      · rw [if_neg hsame, hcons, ih, Function.update_of_ne (Ne.symm hown)]

end

end OiTerminal.Lib.Register
