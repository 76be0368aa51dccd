import Mathlib.Data.List.Induction
import Mathlib.Data.List.Nodup
import Mathlib.Data.List.Sort
import Mathlib.Order.Basic
import OiTerminal.Lib.ByKey

/-!
# Tables that deduplicate eventually

A table lists its rows in ingest order. A merge may drop, at any moment or never, all rows
of a key but the latest one. A plain read sees every row that no merge has dropped, so
what it may answer depends on the rows of a key that are still live.
-/
namespace OiTerminal.Lib.ReplacingTable

open OiTerminal.Lib.ByKey

set_option autoImplicit false

variable {Row Key : Type*}

inductive Op (Row Key : Type*) where
  | insert (rows : List Row)
  | merge (k : Key)

/-- The operation on converted rows. -/
def Op.map {α Row Key : Type*} (f : α → Row) : Op α Key → Op Row Key
  | .insert xs => .insert (xs.map f)
  | .merge k => .merge k

/-- The rows that the operations ever inserted, in order. -/
def upserts (ops : List (Op Row Key)) : List Row :=
  ops.flatMap fun
    | .insert rows => rows
    | .merge _ => []

variable [DecidableEq Key] (key : Row → Key)

/-- Drop the rows of the key but the latest. -/
def mergeKey (k : Key) : List Row → List Row
  | [] => []
  | r :: rest =>
    if key r = k ∧ (ofKey key k rest).isEmpty = false then mergeKey k rest
    else r :: mergeKey k rest

def apply (rows : List Row) : Op Row Key → List Row
  | .insert more => rows ++ more
  | .merge k => mergeKey key k rows

def table (ops : List (Op Row Key)) : List Row := ops.foldl (apply key) []

/-- The row of the last upsert of a key. -/
def lastUpsert (k : Key) (ops : List (Op Row Key)) : Option Row :=
  lastOf key k (upserts ops)

/-- The rows of one key after one more operation. -/
def applyLive (k : Key) (rows : List Row) : Op Row Key → List Row
  | .insert more => rows ++ ofKey key k more
  | .merge k' => if k' = k then rows.getLast?.toList else rows

/-- The upserts of one key that no merge of that key has dropped. -/
def live (k : Key) (ops : List (Op Row Key)) : List Row := ops.foldl (applyLive key k) []

variable {key} {k k' : Key} {rows : List Row} {ops : List (Op Row Key)} {r : Row}

theorem ofKey_mergeKey (rows : List Row) :
    ofKey key k (mergeKey key k rows) = (ofKey key k rows).getLast?.toList := by
  induction rows with
  | nil => rfl
  | cons r rest ih =>
    by_cases hr : key r = k
    · cases hlive : ofKey key k rest with
      | nil =>
        have hkeep : ¬ (key r = k ∧ (ofKey key k rest).isEmpty = false) := by simp [hlive]
        rw [mergeKey, if_neg hkeep, ofKey_cons_self _ hr, ofKey_cons_self _ hr, ih, hlive]
        rfl
      | cons x xs =>
        have hdrop : key r = k ∧ (ofKey key k rest).isEmpty = false := by simp [hr, hlive]
        rw [mergeKey, if_pos hdrop, ih, ofKey_cons_self _ hr, hlive, List.getLast?_cons_cons]
    · have hkeep : ¬ (key r = k ∧ (ofKey key k rest).isEmpty = false) := fun h => hr h.1
      rw [mergeKey, if_neg hkeep, ofKey_cons_ne _ hr, ofKey_cons_ne _ hr, ih]

/-- A merge of one key leaves the rows of the others alone. -/
theorem ofKey_mergeKey_ne (h : k ≠ k') (rows : List Row) :
    ofKey key k' (mergeKey key k rows) = ofKey key k' rows := by
  induction rows with
  | nil => rfl
  | cons r rest ih =>
    rw [mergeKey]
    split
    · rename_i hdrop
      rw [ih, ofKey_cons_ne _ fun hr => h (hdrop.1.symm.trans hr)]
    · by_cases hr : key r = k'
      · rw [ofKey_cons_self _ hr, ofKey_cons_self _ hr, ih]
      · rw [ofKey_cons_ne _ hr, ofKey_cons_ne _ hr, ih]

theorem mem_of_mem_mergeKey (h : r ∈ mergeKey key k rows) : r ∈ rows := by
  induction rows with
  | nil => cases h
  | cons x rest ih =>
    rw [mergeKey] at h
    split at h
    · exact List.mem_cons_of_mem x (ih h)
    · exact (List.mem_cons.mp h).elim (fun he => he ▸ List.mem_cons_self)
        fun h => List.mem_cons_of_mem x (ih h)

theorem table_concat (ops : List (Op Row Key)) (op : Op Row Key) :
    table key (ops ++ [op]) = apply key (table key ops) op := by
  simp only [table, List.foldl_append, List.foldl_cons, List.foldl_nil]

theorem live_concat (ops : List (Op Row Key)) (op : Op Row Key) :
    live key k (ops ++ [op]) = applyLive key k (live key k ops) op := by
  simp only [live, List.foldl_append, List.foldl_cons, List.foldl_nil]

/-- The rows of a key in the table are its live upserts. -/
theorem ofKey_table (k : Key) (ops : List (Op Row Key)) :
    ofKey key k (table key ops) = live key k ops := by
  induction ops using List.reverseRecOn with
  | nil => rfl
  | append_singleton ops op ih =>
    rw [table_concat, live_concat]
    cases op with
    | insert more => rw [apply, applyLive, ofKey_append, ih]
    | merge k' =>
      by_cases hk : k' = k
      · subst hk
        rw [apply, applyLive, ofKey_mergeKey, ih, if_pos rfl]
      · rw [apply, applyLive, ofKey_mergeKey_ne hk, ih, if_neg hk]

omit [DecidableEq Key] in
theorem upserts_concat (ops : List (Op Row Key)) (op : Op Row Key) :
    upserts (ops ++ [op]) = upserts ops ++ upserts [op] := List.flatMap_append

omit [DecidableEq Key] in
theorem upserts_insert (rows : List Row) : upserts [(Op.insert rows : Op Row Key)] = rows :=
  List.append_nil rows

/-- No merge drops the latest upsert. -/
theorem getLast?_live (k : Key) (ops : List (Op Row Key)) :
    (live key k ops).getLast? = lastUpsert key k ops := by
  induction ops using List.reverseRecOn with
  | nil => rfl
  | append_singleton ops op ih =>
    rw [live_concat, lastUpsert, upserts_concat, lastOf_append]
    cases op with
    | insert more =>
      rw [applyLive, upserts_insert, List.getLast?_append, ih]
      rfl
    | merge k' =>
      show (applyLive key k (live key k ops) (.merge k')).getLast? =
        lastUpsert key k ops
      rw [applyLive, ← ih]
      split
      · cases (live key k ops).getLast? <;> rfl
      · rfl

/-- Every row of the table was upserted. -/
theorem mem_upserts_of_mem_table (h : r ∈ table key ops) : r ∈ upserts ops := by
  induction ops using List.reverseRecOn with
  | nil => cases h
  | append_singleton ops op ih =>
    rw [table_concat] at h
    rw [upserts_concat]
    cases op with
    | insert more =>
      rw [upserts_insert]
      exact (List.mem_append.mp h).elim (fun h => List.mem_append_left _ (ih h))
        fun h => List.mem_append_right _ h
    | merge k' => exact List.mem_append_left _ (ih (mem_of_mem_mergeKey h))

/-- Every upserted key still has a row. -/
theorem exists_mem_table (h : r ∈ upserts ops) : ∃ x ∈ table key ops, key x = key r := by
  have hlast : (live key (key r) ops).getLast? ≠ none := by
    rw [getLast?_live, lastUpsert, Ne, lastOf_eq_none_iff]
    exact fun hnone => hnone r h rfl
  obtain ⟨x, hx⟩ := Option.ne_none_iff_exists'.mp hlast
  have hlive : x ∈ ofKey key (key r) (table key ops) := by
    rw [ofKey_table]
    exact List.mem_of_getLast? hx
  obtain ⟨hx, hkey⟩ := mem_ofKey.mp hlive
  exact ⟨x, hx, hkey⟩

/-- Keys are distinct exactly when no key has two rows. -/
theorem nodup_map_key_iff (rows : List Row) :
    (rows.map key).Nodup ↔ ∀ k, (ofKey key k rows).length ≤ 1 := by
  have hcount : ∀ k, (rows.map key).count k = (ofKey key k rows).length := by
    intro k
    rw [List.count_eq_countP, List.countP_map, List.countP_eq_length_filter]
    rfl
  rw [List.nodup_iff_count_le_one]
  exact forall_congr' fun k => by rw [hcount]

section Map

variable {α : Type*} {f : α → Row}

omit [DecidableEq Key] in
theorem upserts_map (f : α → Row) (ops : List (Op α Key)) :
    upserts (ops.map (Op.map f)) = (upserts ops).map f := by
  simp only [upserts, List.flatMap_map, List.map_flatMap]
  congr 1
  funext op
  cases op <;> rfl

theorem lastUpsert_map (f : α → Row) (ops : List (Op α Key)) :
    lastUpsert key k (ops.map (Op.map f)) = (lastUpsert (fun x => key (f x)) k ops).map f := by
  rw [lastUpsert, upserts_map, lastOf_map, lastUpsert]

end Map

section Reads

variable {τ : Type*} [LinearOrder τ] {ts : Row → τ} {sel : Row → Bool} {ans : List Row}

/-- What an ordered read of the selected rows may return. Ties come in any order. -/
structure RangeAnswer (ts : Row → τ) (sel : Row → Bool) (rows ans : List Row) : Prop where
  perm : ans.Perm (rows.filter sel)
  sorted : ans.Pairwise fun a b => ts a ≤ ts b

/-- What a read of the newest selected row may return. -/
def LatestAnswer (ts : Row → τ) (sel : Row → Bool) (rows : List Row) : Option Row → Prop
  | none => rows.filter sel = []
  | some r => r ∈ rows ∧ sel r = true ∧ ∀ x ∈ rows, sel x = true → ts x ≤ ts r

omit [DecidableEq Key] in
theorem exists_rangeAnswer (ts : Row → τ) (sel : Row → Bool) (rows : List Row) :
    ∃ ans, RangeAnswer ts sel rows ans := by
  refine ⟨(rows.filter sel).insertionSort fun a b => ts a ≤ ts b, List.perm_insertionSort _ _, ?_⟩
  have : Std.Total fun a b : Row => ts a ≤ ts b := ⟨fun a b => le_total (ts a) (ts b)⟩
  have : IsTrans Row fun a b => ts a ≤ ts b := ⟨fun _ _ _ => le_trans⟩
  exact List.pairwise_insertionSort _ _

/-- Selected rows agree on their key exactly when they agree on their time. -/
structure Selects (key : Row → Key) (ts : Row → τ) (sel : Row → Bool) : Prop where
  congr : ∀ r x, key r = key x → sel r = sel x
  key_iff : ∀ r x, sel r = true → sel x = true → (key r = key x ↔ ts r = ts x)

omit [DecidableEq Key] in
/-- A sorted answer has strictly increasing times exactly when its keys are distinct. -/
theorem strictly_sorted_iff {rows : List Row} (hsel : Selects key ts sel)
    (h : RangeAnswer ts sel rows ans) :
    ans.Pairwise (fun a b => ts a < ts b) ↔ ((rows.filter sel).map key).Nodup := by
  have hmem : ∀ r ∈ ans, sel r = true := fun r hr =>
    (List.mem_filter.mp (h.perm.mem_iff.mp hr)).2
  rw [← (h.perm.map key).nodup_iff, List.Nodup, List.pairwise_map]
  constructor
  · intro hlt
    refine hlt.imp_of_mem fun ha hb hab hkey => ?_
    exact absurd ((hsel.key_iff _ _ (hmem _ ha) (hmem _ hb)).mp hkey) hab.ne
  · intro hne
    refine (hne.and h.sorted).imp_of_mem fun ha hb hab => ?_
    refine lt_of_le_of_ne hab.2 fun hts => hab.1 ?_
    exact (hsel.key_iff _ _ (hmem _ ha) (hmem _ hb)).mpr hts

/-- No selected key has two live upserts. -/
def Single (key : Row → Key) (sel : Row → Bool) (ops : List (Op Row Key)) : Prop :=
  ∀ r ∈ upserts ops, sel r = true → (live key (key r) ops).length ≤ 1

omit [LinearOrder τ] in
theorem single_iff_nodup (hsel : Selects key ts sel) :
    Single key sel ops ↔ (((table key ops).filter sel).map key).Nodup := by
  have hof : ∀ r, sel r = true →
      ofKey key (key r) ((table key ops).filter sel) = live key (key r) ops := by
    intro r hr
    rw [← ofKey_table, ofKey, ofKey, List.filter_filter]
    refine List.filter_congr fun x _ => ?_
    by_cases hx : key x = key r
    · rw [hsel.congr x r hx, hr, Bool.and_true]
    · simp [hx]
  rw [nodup_map_key_iff]
  constructor
  · intro hsingle k
    cases hrows : ofKey key k ((table key ops).filter sel) with
    | nil => exact Nat.zero_le 1
    | cons r rest =>
      obtain ⟨hr, rfl⟩ := mem_ofKey.mp (hrows ▸ List.mem_cons_self : r ∈ ofKey key k _)
      obtain ⟨htable, hsr⟩ := List.mem_filter.mp hr
      rw [← hrows, hof r hsr]
      exact hsingle r (mem_upserts_of_mem_table htable) hsr
  · intro hnodup r _ hsr
    rw [← hof r hsr]
    exact hnodup (key r)

/-- Every answer lists one row per key, the last upsert of that key, exactly when no
selected key has two live upserts. -/
theorem range_answers_iff (hsel : Selects key ts sel) :
    (∀ ans, RangeAnswer ts sel (table key ops) ans → ans.Pairwise (fun a b => ts a < ts b) ∧
      ∀ r ∈ ans, lastUpsert key (key r) ops = some r) ↔ Single key sel ops := by
  rw [single_iff_nodup hsel]
  constructor
  · intro hgood
    obtain ⟨ans, hans⟩ := exists_rangeAnswer ts sel (table key ops)
    exact (strictly_sorted_iff hsel hans).mp (hgood ans hans).1
  · intro hnodup ans hans
    refine ⟨(strictly_sorted_iff hsel hans).mpr hnodup, fun r hr => ?_⟩
    obtain ⟨htable, hsr⟩ := List.mem_filter.mp (hans.perm.mem_iff.mp hr)
    have hle : (live key (key r) ops).length ≤ 1 :=
      (single_iff_nodup hsel).mpr hnodup r (mem_upserts_of_mem_table htable) hsr
    have hmem : r ∈ live key (key r) ops := by
      rw [← ofKey_table]
      exact mem_ofKey.mpr ⟨htable, rfl⟩
    rw [← getLast?_live]
    match hlive : live key (key r) ops with
    | [] => rw [hlive] at hmem; cases hmem
    | [x] =>
      rw [hlive] at hmem
      rw [List.mem_singleton.mp hmem]
      rfl
    | _ :: _ :: _ => rw [hlive] at hle; simp at hle

/-- All live upserts of the newest selected key carry the same row. -/
def NewestAgrees (key : Row → Key) (ts : Row → τ) (sel : Row → Bool) (ops : List (Op Row Key)) :
    Prop :=
  ∀ r ∈ upserts ops, sel r = true → (∀ x ∈ upserts ops, sel x = true → ts x ≤ ts r) →
    ∀ x ∈ live key (key r) ops, lastUpsert key (key r) ops = some x

/-- The newest row is surely the last upsert of its key exactly when the live upserts of
that key agree. -/
theorem latest_answers_iff (hsel : Selects key ts sel) :
    (∀ r, LatestAnswer ts sel (table key ops) (some r) → lastUpsert key (key r) ops = some r) ↔
      NewestAgrees key ts sel ops := by
  have htime : ∀ r x, sel r = true → key x = key r → ts x = ts r := fun r x hr hx =>
    (hsel.key_iff x r ((hsel.congr x r hx).trans hr) hr).mp hx
  constructor
  · intro hgood r _ hsr hnewest x hx
    rw [← ofKey_table] at hx
    obtain ⟨hxt, hxk⟩ := mem_ofKey.mp hx
    have hans : LatestAnswer ts sel (table key ops) (some x) := by
      refine ⟨hxt, (hsel.congr x r hxk).trans hsr, fun y hy hsy => ?_⟩
      rw [htime r x hsr hxk]
      exact hnewest y (mem_upserts_of_mem_table hy) hsy
    rw [← hxk]
    exact hgood x hans
  · rintro hagree r ⟨hrt, hsr, hmax⟩
    have hnewest : ∀ x ∈ upserts ops, sel x = true → ts x ≤ ts r := by
      intro x hx hsx
      obtain ⟨y, hy, hyk⟩ := exists_mem_table hx
      rw [← htime x y hsx hyk]
      exact hmax y hy ((hsel.congr y x hyk).trans hsx)
    refine hagree r (mem_upserts_of_mem_table hrt) hsr hnewest r ?_
    rw [← ofKey_table]
    exact mem_ofKey.mpr ⟨hrt, rfl⟩

end Reads

end OiTerminal.Lib.ReplacingTable
