import Mathlib.Data.List.Basic

/-!
# The rows of a key and the last of them

Lists are in the order of their writes, so the last row of a key is the one that was
written last.
-/
namespace OiTerminal.Lib.ByKey

set_option autoImplicit false

variable {Row Key : Type*} [DecidableEq Key] (key : Row → Key)

def ofKey (k : Key) (rows : List Row) : List Row := rows.filter fun r => key r = k

def lastOf (k : Key) (rows : List Row) : Option Row := (ofKey key k rows).getLast?

variable {key} {k : Key} {rows more : List Row} {r : Row}

theorem mem_ofKey : r ∈ ofKey key k rows ↔ r ∈ rows ∧ key r = k := by
  simp [ofKey]

theorem ofKey_cons_self (rows : List Row) (h : key r = k) :
    ofKey key k (r :: rows) = r :: ofKey key k rows := by
  simp [ofKey, h]

theorem ofKey_cons_ne (rows : List Row) (h : key r ≠ k) :
    ofKey key k (r :: rows) = ofKey key k rows := by
  simp [ofKey, h]

theorem ofKey_append (rows more : List Row) :
    ofKey key k (rows ++ more) = ofKey key k rows ++ ofKey key k more := List.filter_append ..

theorem ofKey_map {α : Type*} (f : α → Row) (xs : List α) :
    ofKey key k (xs.map f) = (ofKey (fun x => key (f x)) k xs).map f := List.filter_map

theorem lastOf_mem (h : lastOf key k rows = some r) : r ∈ rows ∧ key r = k :=
  mem_ofKey.mp (List.mem_of_getLast? h)

theorem lastOf_eq_none_iff : lastOf key k rows = none ↔ ∀ r ∈ rows, key r ≠ k := by
  rw [lastOf, List.getLast?_eq_none_iff, List.eq_nil_iff_forall_not_mem]
  simp only [mem_ofKey, not_and, ne_eq]

/-- What is written later takes precedence. -/
theorem lastOf_append (rows more : List Row) :
    lastOf key k (rows ++ more) = (lastOf key k more).or (lastOf key k rows) := by
  rw [lastOf, ofKey_append, List.getLast?_append, lastOf, lastOf]

theorem lastOf_map {α : Type*} (f : α → Row) (xs : List α) :
    lastOf key k (xs.map f) = (lastOf (fun x => key (f x)) k xs).map f := by
  rw [lastOf, ofKey_map, List.getLast?_map, lastOf]

/-- Nothing occurs twice exactly if nothing does under any key. -/
theorem nodup_map_iff {α : Type*} (key : Row → Key) (g : Row → α) :
    (rows.map fun r => (key r, g r)).Nodup ↔ ∀ k, ((ofKey key k rows).map g).Nodup := by
  induction rows with
  | nil => simp [ofKey]
  | cons r rest ih =>
    have hfresh : (key r, g r) ∉ rest.map (fun r => (key r, g r)) ↔
        g r ∉ (ofKey key (key r) rest).map g := by
      simp only [List.mem_map, mem_ofKey, Prod.mk.injEq]
      exact not_congr (exists_congr fun x => by tauto)
    rw [List.map_cons, List.nodup_cons, ih, hfresh]
    constructor
    · intro h k
      by_cases hk : key r = k
      · subst hk
        rw [ofKey_cons_self rest rfl, List.map_cons]
        exact List.nodup_cons.mpr ⟨h.1, h.2 (key r)⟩
      · rw [ofKey_cons_ne rest hk]
        exact h.2 k
    · intro h
      have hself := h (key r)
      rw [ofKey_cons_self rest rfl, List.map_cons, List.nodup_cons] at hself
      refine ⟨hself.1, fun k => ?_⟩
      by_cases hk : key r = k
      · subst hk
        exact hself.2
      · have hother := h k
        rwa [ofKey_cons_ne rest hk] at hother

end OiTerminal.Lib.ByKey
