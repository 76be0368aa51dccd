import Mathlib.Data.List.Induction
import Mathlib.Logic.Function.Basic
import OiTerminal.Lib.ByKey

/-!
# Stores whose values expire

A write gives a key a value and a deadline. A read after the deadline finds nothing. A store with
other keys and values represents it, if each of its writes represents one.
-/
namespace OiTerminal.Lib.Expiring

open OiTerminal.Lib.ByKey

set_option autoImplicit false

/-- What happens to a key: a write at an instant, or a loss. -/
inductive Event (Key Value : Type) where
  | setEx (key : Key) (value : Value) (instant : ℕ)
  | drop (key : Key)

/-- The value of a key and its deadline. -/
abbrev Store (Key Value : Type) := Key → Option (Value × ℕ)

section

variable {Key Value : Type}

def Event.key : Event Key Value → Key
  | .setEx key _ _ => key
  | .drop key => key

def Event.entry (ttl : ℕ) : Event Key Value → Option (Value × ℕ)
  | .setEx _ value instant => some (value, instant + ttl)
  | .drop _ => none

/-- The value of an entry before its deadline. -/
def alive (now : ℕ) (entry : Value × ℕ) : Option Value :=
  if now ≤ entry.2 then some entry.1 else none

def get (now : ℕ) (store : Store Key Value) (k : Key) : Option Value :=
  (store k).bind (alive now)

theorem alive_eq_some {now : ℕ} {entry : Value × ℕ} {value : Value} :
    alive now entry = some value ↔ entry.1 = value ∧ now ≤ entry.2 := by
  unfold alive
  by_cases h : now ≤ entry.2 <;> simp [h]

end

section

variable {Key Value : Type} [DecidableEq Key] (ttl : ℕ)

def apply (store : Store Key Value) (e : Event Key Value) : Store Key Value :=
  Function.update store e.key (e.entry ttl)

def replay (store : Store Key Value) (events : List (Event Key Value)) : Store Key Value :=
  events.foldl (apply ttl) store

def empty : Store Key Value := fun _ => none

variable {ttl} {store : Store Key Value} {events : List (Event Key Value)} {k : Key}
  {value : Value} {now : ℕ}

theorem replay_append (store : Store Key Value) (events more : List (Event Key Value)) :
    replay ttl store (events ++ more) = replay ttl (replay ttl store events) more :=
  List.foldl_append

theorem get_replay_drop (gone : Key) :
    get now (replay ttl store [.drop gone]) k = if k = gone then none else get now store k := by
  unfold get
  change (Function.update store gone none k).bind _ = _
  by_cases hk : k = gone
  · rw [if_pos hk, hk, Function.update_self, Option.bind_none]
  · rw [if_neg hk, Function.update_of_ne hk]

/-- A key has what the last event of it gave it. -/
theorem replay_empty (events : List (Event Key Value)) (k : Key) :
    replay ttl empty events k = (lastOf Event.key k events).bind (Event.entry ttl) := by
  induction events using List.reverseRecOn with
  | nil => rfl
  | append_singleton events e ih =>
    rw [replay_append, lastOf_append]
    change Function.update (replay ttl empty events) e.key (e.entry ttl) k = _
    by_cases hkey : e.key = k
    · have hlast : lastOf Event.key k [e] = some e := by
        rw [lastOf, ofKey_cons_self _ hkey]
        rfl
      rw [hlast, ← hkey, Function.update_self]
      rfl
    · have hlast : lastOf Event.key k [e] = none := by
        rw [lastOf, ofKey_cons_ne _ hkey]
        rfl
      rw [hlast, Function.update_of_ne (Ne.symm hkey), ih, Option.none_or]

/-- A read finds the last write of its key, if no loss followed it and it has not expired. -/
theorem get_replay_eq_some :
    get now (replay ttl empty events) k = some value ↔
      ∃ instant, lastOf Event.key k events = some (.setEx k value instant) ∧
        now ≤ instant + ttl := by
  rw [get, replay_empty, Option.bind_eq_some_iff]
  constructor
  · rintro ⟨entry, hentry, halive⟩
    obtain ⟨e, he, hsome⟩ := Option.bind_eq_some_iff.mp hentry
    obtain ⟨rfl, hle⟩ := alive_eq_some.mp halive
    cases e with
    | drop key => cases hsome
    | setEx key written instant =>
      obtain rfl := Option.some.inj hsome
      obtain rfl : key = k := (lastOf_mem he).2
      exact ⟨instant, he, hle⟩
  · rintro ⟨instant, he, hle⟩
    exact ⟨(value, instant + ttl), by rw [he]; rfl, alive_eq_some.mpr ⟨rfl, hle⟩⟩

end

/-! ## Representations -/

section

variable {Key Value Key' Value' : Type} {f : Key → Key'} {R : Value' → Value → Prop}

/-- The same event, of the key and the value that represent the other ones. -/
inductive Same (f : Key → Key') (R : Value' → Value → Prop) :
    Event Key' Value' → Event Key Value → Prop
  | setEx {key : Key} {value' : Value'} {value : Value} {instant : ℕ} (h : R value' value) :
    Same f R (.setEx (f key) value' instant) (.setEx key value instant)
  | drop (key : Key) : Same f R (.drop (f key)) (.drop key)

def SameEntry (R : Value' → Value → Prop) (entry' : Value' × ℕ) (entry : Value × ℕ) : Prop :=
  R entry'.1 entry.1 ∧ entry'.2 = entry.2

def Represents (f : Key → Key') (R : Value' → Value → Prop) (store' : Store Key' Value')
    (store : Store Key Value) : Prop :=
  ∀ k, Option.Rel (SameEntry R) (store' (f k)) (store k)

variable {store' : Store Key' Value'} {store : Store Key Value} {ttl : ℕ}

theorem Represents.get (h : Represents f R store' store) (now : ℕ) (k : Key) :
    Option.Rel R (get now store' (f k)) (get now store k) := by
  unfold Expiring.get
  generalize store' (f k) = entry', store k = entry, h k = hentry
  cases hentry with
  | none => exact .none
  | some hsame =>
    rename_i entry' entry
    obtain ⟨hvalue, hdeadline⟩ := hsame
    rw [Option.bind_some, Option.bind_some, alive, alive, hdeadline]
    by_cases hle : now ≤ entry.2
    · rw [if_pos hle, if_pos hle]
      exact .some hvalue
    · rw [if_neg hle, if_neg hle]
      exact .none

variable [DecidableEq Key] [DecidableEq Key']

theorem Represents.apply (hf : Function.Injective f) (h : Represents f R store' store)
    {e' : Event Key' Value'} {e : Event Key Value} (hsame : Same f R e' e) :
    Represents f R (apply ttl store' e') (apply ttl store e) := by
  have hkey : e'.key = f e.key := by cases hsame <;> rfl
  have hentry : Option.Rel (SameEntry R) (e'.entry ttl) (e.entry ttl) := by
    cases hsame with
    | setEx hvalue => exact .some ⟨hvalue, rfl⟩
    | drop key => exact .none
  intro k
  unfold Expiring.apply
  by_cases hk : k = e.key
  · rw [hk, hkey, Function.update_self, Function.update_self]
    exact hentry
  · have hne : f k ≠ e'.key := fun heq => hk (hf (heq.trans hkey))
    rw [Function.update_of_ne hne, Function.update_of_ne hk]
    exact h k

theorem Represents.replay (hf : Function.Injective f) {events' : List (Event Key' Value')}
    {events : List (Event Key Value)} (hsame : List.Forall₂ (Same f R) events' events)
    (h : Represents f R store' store) :
    Represents f R (replay ttl store' events') (replay ttl store events) := by
  induction hsame generalizing store' store with
  | nil => exact h
  | cons hfirst _ ih => exact ih (h.apply hf hfirst)

end

end OiTerminal.Lib.Expiring
