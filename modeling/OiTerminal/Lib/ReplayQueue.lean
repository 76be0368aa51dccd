import Mathlib.Data.List.Basic
import Mathlib.Data.List.Nodup
import OiTerminal.Lib.ByKey

/-!
# Batches that are inserted directly or replayed

Entries are appended to a queue and inserted into a store, each of them any number of times
while it is outstanding. The store keeps, for each key, the row that was inserted last.
Where no entry is inserted while an older one with a common key is outstanding, the store
holds the row of the newest entry of each key once the queue is empty.
-/
namespace OiTerminal.Lib.ReplayQueue

open OiTerminal.Lib.ByKey

set_option autoImplicit false

variable {Entry Row Key : Type*}

/-- What has happened to the entries, in order, and which may still be inserted. -/
structure View (Entry : Type*) where
  appended : List Entry
  inserted : List Entry
  queued : Entry → Prop
  outstanding : Entry → Prop

/-- One step: a new entry may be appended, and an outstanding one inserted. An entry leaves
the queue only once it is inserted. -/
structure Advance (v v' : View Entry) (fresh taken : Option Entry) : Prop where
  appended : v'.appended = v.appended ++ fresh.toList
  inserted : v'.inserted = v.inserted ++ taken.toList
  unused : ∀ e ∈ fresh, e ∉ v.appended ∧ v'.queued e
  allowed : ∀ e ∈ taken, v.outstanding e
  outstanding : ∀ e, v'.outstanding e → v.outstanding e ∨ e ∈ fresh
  queued : ∀ e, v.queued e → v'.queued e ∨ e ∈ v'.inserted

/-- The first entry was appended before the second. -/
def Before (entries : List Entry) (p q : Entry) : Prop := [p, q].Sublist entries

theorem Before.mem_left {entries : List Entry} {p q : Entry} (h : Before entries p q) :
    p ∈ entries := h.subset List.mem_cons_self

theorem Before.of_concat {entries : List Entry} {fresh : Option Entry} {p q : Entry}
    (h : Before (entries ++ fresh.toList) p q) (hq : q ∉ fresh) : Before entries p q := by
  cases fresh with
  | none => exact (List.append_nil entries) ▸ h
  | some x =>
    obtain ⟨l₁, l₂, hl, h₁, h₂⟩ := List.sublist_append_iff.mp h
    rcases List.sublist_singleton.mp h₂ with rfl | rfl
    · rw [List.append_nil] at hl
      rw [Before, hl]
      exact h₁
    · have hlast : q = x := by
        have := congrArg List.getLast? hl
        simpa using this
      exact absurd (hlast ▸ rfl : q ∈ some x) hq

theorem before_of_mem_right {older newer : List Entry} {p q : Entry} (h : q ∈ newer) :
    Before (older ++ p :: newer) p q :=
  ((List.singleton_sublist.mpr h).cons_cons p).trans (List.sublist_append_right _ _)

variable [DecidableEq Key] (rows : Entry → List Row) (key : Row → Key)

/-- The row of a key in the last entry that has one. -/
def lastRow (k : Key) (entries : List Entry) : Option Row := lastOf key k (entries.flatMap rows)

def Overlap (p q : Entry) : Prop := ∃ r ∈ rows p, ∃ r' ∈ rows q, key r = key r'

/-- No entry is inserted while an older one with a common key is outstanding. -/
def OldestFirst (v : View Entry) (taken : Option Entry) : Prop :=
  ∀ q ∈ taken, ∀ p, Before v.appended p q → Overlap rows key p q → ¬ v.outstanding p

variable {rows key} {k : Key} {v v' : View Entry} {fresh taken : Option Entry} {e : Entry}

theorem lastRow_append (l l' : List Entry) :
    lastRow rows key k (l ++ l') = (lastRow rows key k l').or (lastRow rows key k l) := by
  rw [lastRow, List.flatMap_append, lastOf_append, lastRow, lastRow]

theorem exists_of_lastRow {l : List Entry} {r : Row} (h : lastRow rows key k l = some r) :
    ∃ e ∈ l, r ∈ rows e ∧ key r = k := by
  obtain ⟨hr, hk⟩ := lastOf_mem h
  obtain ⟨e, he, hr⟩ := List.mem_flatMap.mp hr
  exact ⟨e, he, hr, hk⟩

theorem lastRow_subset {l l' : List Entry} (hsub : l ⊆ l') (h : lastRow rows key k l' = none) :
    lastRow rows key k l = none := by
  rw [lastRow, lastOf_eq_none_iff] at h ⊢
  intro r hr
  obtain ⟨e, he, hr⟩ := List.mem_flatMap.mp hr
  exact h r (List.mem_flatMap.mpr ⟨e, hsub he, hr⟩)

variable [DecidableEq Entry]

/-- The appended entries that have been inserted, in append order. -/
def View.done (v : View Entry) : List Entry := v.appended.filter (· ∈ v.inserted)

variable (rows key) in
structure Inv (v : View Entry) : Prop where
  nodup : v.appended.Nodup
  known : ∀ e, v.outstanding e → e ∈ v.appended
  inserted_known : ∀ e ∈ v.inserted, e ∈ v.appended
  kept : ∀ e ∈ v.appended, v.queued e ∨ e ∈ v.inserted
  settled : ∀ q ∈ v.inserted, ∀ p, Before v.appended p q → Overlap rows key p q →
    ¬ v.outstanding p
  last : ∀ k, lastRow rows key k v.inserted = lastRow rows key k v.done

theorem inv_empty {v : View Entry} (happ : v.appended = []) (hins : v.inserted = [])
    (hout : ∀ e, ¬ v.outstanding e) : Inv rows key v where
  nodup := by rw [happ]; exact List.nodup_nil
  known e he := absurd he (hout e)
  inserted_known e he := by rw [hins] at he; cases he
  kept e he := by rw [happ] at he; cases he
  settled q hq := by rw [hins] at hq; cases hq
  last k := by rw [View.done, happ, hins]; rfl

/-- The last row of each key after one more insertion. -/
theorem Inv.last_insert (h : Inv rows key v) {q : Entry} (hq : v.outstanding q) (k : Key) :
    lastRow rows key k (v.inserted ++ [q]) =
      lastRow rows key k (v.appended.filter (· ∈ v.inserted ++ [q])) := by
  obtain ⟨older, newer, happ⟩ := List.append_of_mem (h.known q hq)
  have hnodup : (older ++ q :: newer).Nodup := happ ▸ h.nodup
  have hout : ∀ x, x ∈ older ∨ x ∈ newer → (x ∈ v.inserted ++ [q] ↔ x ∈ v.inserted) := by
    intro x hx
    have hne : x ≠ q := by
      rintro rfl
      have hmid := (List.nodup_middle.mp hnodup)
      exact (List.nodup_cons.mp hmid).1 (List.mem_append.mpr hx)
    simp [hne]
  have hdone : v.done = older.filter (· ∈ v.inserted) ++
      ([q].filter (· ∈ v.inserted) ++ newer.filter (· ∈ v.inserted)) := by
    rw [View.done, happ, ← List.singleton_append, List.filter_append, List.filter_append]
  have hdone' : v.appended.filter (· ∈ v.inserted ++ [q]) = older.filter (· ∈ v.inserted) ++
      ([q] ++ newer.filter (· ∈ v.inserted)) := by
    have hself : q ∈ v.inserted ++ [q] := List.mem_append_right _ List.mem_cons_self
    rw [happ, List.filter_append, List.filter_cons, if_pos (decide_eq_true hself)]
    congr 1
    · exact List.filter_congr fun x hx => decide_eq_decide.mpr (hout x (.inl hx))
    · refine congrArg (q :: ·) ?_
      exact List.filter_congr fun x hx => decide_eq_decide.mpr (hout x (.inr hx))
  rw [lastRow_append, h.last, hdone, hdone', lastRow_append, lastRow_append, lastRow_append,
    lastRow_append]
  cases hk : lastRow rows key k [q] with
  | none =>
    -- the entry has no row of the key, and neither list changes for it
    have hself : lastRow rows key k ([q].filter (· ∈ v.inserted)) = none :=
      lastRow_subset (List.filter_subset_self _) hk
    rw [hself]
    simp only [Option.none_or, Option.or_none]
  | some r =>
    -- no newer entry that is inserted has a row of the key
    have hnewer : lastRow rows key k (newer.filter (· ∈ v.inserted)) = none := by
      cases hlast : lastRow rows key k (newer.filter (· ∈ v.inserted)) with
      | none => rfl
      | some r' =>
        obtain ⟨x, hx, hr', hrk'⟩ := exists_of_lastRow hlast
        obtain ⟨hx, hins⟩ := List.mem_filter.mp hx
        obtain ⟨y, hy, hr, hrk⟩ := exists_of_lastRow hk
        obtain rfl := List.mem_singleton.mp hy
        have hbefore : Before v.appended y x := happ ▸ before_of_mem_right hx
        exact absurd hq (h.settled x (of_decide_eq_true hins) y hbefore
          ⟨r, hr, r', hr', hrk.trans hrk'.symm⟩)
    rw [hnewer]
    simp only [Option.none_or, Option.some_or]

theorem Inv.advance (h : Inv rows key v) (hstep : Advance v v' fresh taken)
    (hok : OldestFirst rows key v taken) : Inv rows key v' := by
  have hknown : ∀ e ∈ v'.inserted, e ∈ v.appended := by
    intro e he
    rw [hstep.inserted] at he
    rcases List.mem_append.mp he with hold | hnew
    · exact h.inserted_known e hold
    · exact h.known e (hstep.allowed e (Option.mem_toList.mp hnew))
  have hfresh : ∀ e ∈ v.appended, e ∉ fresh := fun e he hf => (hstep.unused e hf).1 he
  constructor
  case nodup =>
    rw [hstep.appended]
    refine h.nodup.append ?_ fun e he hf => hfresh e he (Option.mem_toList.mp hf)
    cases fresh <;> simp
  case known =>
    intro e he
    rw [hstep.appended]
    rcases hstep.outstanding e he with hold | hnew
    · exact List.mem_append_left _ (h.known e hold)
    · exact List.mem_append_right _ (Option.mem_toList.mpr hnew)
  case inserted_known =>
    intro e he
    rw [hstep.appended]
    exact List.mem_append_left _ (hknown e he)
  case kept =>
    intro e he
    rw [hstep.appended] at he
    rcases List.mem_append.mp he with hold | hnew
    · rcases h.kept e hold with hq | hi
      · exact hstep.queued e hq
      · rw [hstep.inserted]
        exact .inr (List.mem_append_left _ hi)
    · exact .inl (hstep.unused e (Option.mem_toList.mp hnew)).2
  case settled =>
    intro q hq p hbefore hoverlap hout
    rw [hstep.appended] at hbefore
    have hold := hbefore.of_concat (hfresh q (hknown q hq))
    rcases hstep.outstanding p hout with hout | hnew
    · rw [hstep.inserted] at hq
      rcases List.mem_append.mp hq with hq | hq
      · exact h.settled q hq p hold hoverlap hout
      · exact hok q (Option.mem_toList.mp hq) p hold hoverlap hout
    · exact hfresh p hold.mem_left hnew
  case last =>
    intro k
    have hdone : v'.done = v.appended.filter (· ∈ v'.inserted) := by
      rw [View.done, hstep.appended, List.filter_append, List.append_right_eq_self]
      refine List.filter_eq_nil_iff.mpr fun e he hi => ?_
      exact hfresh e (hknown e (of_decide_eq_true hi)) (Option.mem_toList.mp he)
    rw [hdone]
    have htaken := hstep.inserted
    cases taken with
    | none =>
      rw [Option.toList_none, List.append_nil] at htaken
      rw [htaken]
      exact h.last k
    | some q =>
      rw [Option.toList_some] at htaken
      rw [htaken]
      exact h.last_insert (hstep.allowed q rfl) k

/-- Once nothing is queued, the store holds the newest row of every key. -/
theorem Inv.lastRow_eq (h : Inv rows key v) (hempty : ∀ e, ¬ v.queued e) (k : Key) :
    lastRow rows key k v.inserted = lastRow rows key k v.appended := by
  have hall : v.done = v.appended := by
    refine List.filter_eq_self.mpr fun e he => decide_eq_true ?_
    exact (h.kept e he).resolve_left (hempty e)
  rw [h.last, hall]

end OiTerminal.Lib.ReplayQueue
