import Mathlib.Data.List.Dedup
import OiTerminal.Lib.ByKey

/-!
# Batches of rows with keys

A batch is converted row by row. What does not convert is skipped, or fails the batch. Two
batches with the same rows of a key are told apart, under this key, by nothing but a failure.
-/
namespace OiTerminal.Lib.Batch

open OiTerminal.Lib.ByKey

set_option autoImplicit false

variable {Row Out Key ε : Type} {key : Row → Key} {outKey : Out → Key} {convert : Row → Option Out}

/-- A row becomes nothing but an output under its own key. -/
def KeepsKey (key : Row → Key) (outKey : Out → Key) (convert : Row → Option Out) : Prop :=
  ∀ r o, convert r = some o → outKey o = key r

theorem KeepsKey.filter (h : KeepsKey key outKey convert) (p : Row → Bool) :
    KeepsKey key outKey fun r => if p r then convert r else none := by
  intro r o ho
  exact h r o (Option.ite_none_right_eq_some.mp ho).2

theorem KeepsKey.of_map {α : Type} {read : Row → Option α} {build : Row → α → Out}
    (h : ∀ r a, outKey (build r a) = key r) :
    KeepsKey key outKey fun r => (read r).map (build r) := by
  intro r o ho
  obtain ⟨a, -, rfl⟩ := Option.map_eq_some_iff.mp ho
  exact h r a

theorem KeepsKey.map {Out' : Type} {outKey' : Out' → Key} (h : KeepsKey key outKey convert)
    {f : Out → Out'} (hf : ∀ o, outKey' (f o) = outKey o) :
    KeepsKey key outKey' fun r => (convert r).map f := by
  intro r o ho
  obtain ⟨o', ho', rfl⟩ := Option.map_eq_some_iff.mp ho
  exact (hf o').trans (h r o' ho')

variable [DecidableEq Key]

/-- Both runs succeed, with the same outputs under the key. -/
def Isolated (outKey : Out → Key) (k : Key) (answer answer' : Except ε (List Out)) : Prop :=
  ∃ out out', answer = .ok out ∧ answer' = .ok out' ∧ ofKey outKey k out = ofKey outKey k out'

variable {k : Key} {rows rows' : List Row}

theorem ofKey_filter (p : Row → Bool) (k : Key) (rows : List Row) :
    ofKey key k (rows.filter p) = (ofKey key k rows).filter p := by
  unfold ofKey
  rw [List.filter_filter, List.filter_filter]
  simp only [Bool.and_comm]

/-- Any other row may be replaced, wherever it stands. -/
theorem ofKey_set {i : Nat} {r : Row} (hold : ∀ old, rows[i]? = some old → key old ≠ k)
    (hnew : key r ≠ k) : ofKey key k (rows.set i r) = ofKey key k rows := by
  induction rows generalizing i with
  | nil => rfl
  | cons head rest ih =>
    cases i with
    | zero => rw [List.set_cons_zero, ofKey_cons_ne rest hnew, ofKey_cons_ne rest (hold head rfl)]
    | succ i =>
      have hrest := ih (i := i) fun old h => hold old h
      rw [List.set_cons_succ]
      by_cases hk : key head = k
      · rw [ofKey_cons_self _ hk, ofKey_cons_self _ hk, hrest]
      · rw [ofKey_cons_ne _ hk, ofKey_cons_ne _ hk, hrest]

/-- The outputs under a key come from the rows under it. -/
theorem ofKey_filterMap (h : KeepsKey key outKey convert) (k : Key) (rows : List Row) :
    ofKey outKey k (rows.filterMap convert) = (ofKey key k rows).filterMap convert := by
  induction rows with
  | nil => rfl
  | cons r rest ih =>
    cases hr : convert r with
    | none =>
      rw [List.filterMap_cons_none hr, ih]
      by_cases hk : key r = k
      · rw [ofKey_cons_self rest hk, List.filterMap_cons_none hr]
      · rw [ofKey_cons_ne rest hk]
    | some o =>
      have ho := h r o hr
      rw [List.filterMap_cons_some hr]
      by_cases hk : key r = k
      · rw [ofKey_cons_self rest hk, ofKey_cons_self _ (ho.trans hk), ih,
          List.filterMap_cons_some hr]
      · rw [ofKey_cons_ne rest hk, ofKey_cons_ne _ fun hout => hk (ho.symm.trans hout), ih]

theorem isolated_filterMap (h : KeepsKey key outKey convert)
    (hsame : ofKey key k rows = ofKey key k rows') :
    Isolated outKey k (.ok (rows.filterMap convert) : Except ε _)
      (.ok (rows'.filterMap convert)) := by
  refine ⟨_, _, rfl, rfl, ?_⟩
  rw [ofKey_filterMap h, ofKey_filterMap h, hsame]

theorem mapM_cons_eq_ok {f : Row → Except ε Out} {r : Row} {out : List Out} :
    (r :: rows).mapM f = .ok out ↔
      ∃ o others, f r = .ok o ∧ rows.mapM f = .ok others ∧ out = o :: others := by
  rw [List.mapM_cons]
  cases f r with
  | error e => exact iff_of_false (fun h => nomatch h) fun ⟨_, _, ho, _⟩ => nomatch ho
  | ok o =>
    cases rows.mapM f with
    | error e =>
      exact iff_of_false (fun h => nomatch h) fun ⟨_, _, _, hothers, _⟩ => nomatch hothers
    | ok others =>
      constructor
      · intro h
        exact ⟨o, others, rfl, rfl, (Except.ok.inj h).symm⟩
      · rintro ⟨_, _, ho, hothers, rfl⟩
        rw [← Except.ok.inj ho, ← Except.ok.inj hothers]
        rfl

/-- The outputs of both runs are changed under their keys. -/
theorem Isolated.map {out out' : List Out} {Out' : Type} {outKey' : Out' → Key} {f : Out → Out'}
    (h : Isolated outKey k (.ok out : Except ε _) (.ok out'))
    (hf : ∀ o, outKey' (f o) = outKey o) :
    Isolated outKey' k (.ok (out.map f) : Except ε _) (.ok (out'.map f)) := by
  obtain ⟨_, _, hout, hout', hkey⟩ := h
  obtain rfl := Except.ok.inj hout
  obtain rfl := Except.ok.inj hout'
  refine ⟨_, _, rfl, rfl, ?_⟩
  have hkeys : (fun o => outKey' (f o)) = outKey := funext hf
  rw [ofKey_map, ofKey_map, hkeys, hkey]

/-- A loop that fails at the first row that does not convert. -/
theorem mapM_eq_ok_iff {f : Row → Except ε Out} {out : List Out} :
    rows.mapM f = .ok out ↔
      (∀ r ∈ rows, ∃ o, f r = .ok o) ∧ out = rows.filterMap fun r => (f r).toOption := by
  induction rows generalizing out with
  | nil =>
    rw [List.mapM_nil, List.filterMap_nil]
    constructor
    · intro h
      exact ⟨fun r hr => absurd hr List.not_mem_nil, (Except.ok.inj h).symm⟩
    · rintro ⟨-, rfl⟩
      rfl
  | cons r rest ih =>
    rw [mapM_cons_eq_ok, List.forall_mem_cons, List.filterMap_cons]
    constructor
    · rintro ⟨o, others, ho, hothers, rfl⟩
      obtain ⟨hall, rfl⟩ := ih.mp hothers
      refine ⟨⟨⟨o, ho⟩, hall⟩, ?_⟩
      rw [ho]
      rfl
    · rintro ⟨⟨⟨o, ho⟩, hall⟩, rfl⟩
      refine ⟨o, _, ho, ih.mpr ⟨hall, rfl⟩, ?_⟩
      rw [ho]
      rfl

/-- A loop that fails at bad rows isolates a key exactly if there are none. -/
theorem isolated_mapM_iff {f : Row → Except ε Out}
    (h : KeepsKey key outKey fun r => (f r).toOption)
    (hsame : ofKey key k rows = ofKey key k rows') :
    Isolated outKey k (rows.mapM f) (rows'.mapM f) ↔
      (∀ r ∈ rows, ∃ o, f r = .ok o) ∧ ∀ r ∈ rows', ∃ o, f r = .ok o := by
  constructor
  · rintro ⟨out, out', hout, hout', -⟩
    exact ⟨(mapM_eq_ok_iff.mp hout).1, (mapM_eq_ok_iff.mp hout').1⟩
  · rintro ⟨hall, hall'⟩
    obtain ⟨out, out', hout, hout', hkey⟩ := isolated_filterMap (ε := ε) h hsame
    obtain rfl := Except.ok.inj hout
    obtain rfl := Except.ok.inj hout'
    exact ⟨_, _, mapM_eq_ok_iff.mpr ⟨hall, rfl⟩, mapM_eq_ok_iff.mpr ⟨hall', rfl⟩, hkey⟩

theorem toOption_map {Out' : Type} (answer : Except ε Out) (g : Out → Out') :
    (answer.map g).toOption = answer.toOption.map g := by
  cases answer <;> rfl

/-- What is done to every output of a loop that fails may be done to each row. -/
theorem map_mapM {Out' : Type} (f : Row → Except ε Out) (g : Out → Out') (rows : List Row) :
    (rows.mapM f).map (List.map g) = rows.mapM fun r => (f r).map g := by
  induction rows with
  | nil => rfl
  | cons r rest ih =>
    rw [List.mapM_cons, List.mapM_cons, ← ih]
    cases f r with
    | error e => rfl
    | ok o => cases rest.mapM f <;> rfl

/-- The keys of a map, in whichever order they are visited, contain each key once. -/
theorem ofKey_of_perm_dedup {keys order : List Key} (h : order.Perm keys.dedup) (k : Key) :
    ofKey id k order = if k ∈ keys then [k] else [] := by
  unfold ofKey
  simp only [id_eq]
  rw [List.filter_eq, h.count_eq, List.count_dedup]
  split <;> rfl

/-- A map into which later rows of a key are written over earlier ones, and of which some keys
are visited. -/
theorem isolated_last {order order' : List Key} {convert : Key × Row → Option Out}
    {pairs pairs' : List (Key × Row)} (p : Key → Bool) (h : KeepsKey Prod.fst outKey convert)
    (horder : order.Perm (pairs.map Prod.fst).dedup)
    (horder' : order'.Perm (pairs'.map Prod.fst).dedup)
    (hsame : ofKey Prod.fst k pairs = ofKey Prod.fst k pairs') :
    Isolated outKey k
      (.ok ((order.filter p).filterMap fun name => (lastOf Prod.fst name pairs).bind convert) :
        Except ε _)
      (.ok ((order'.filter p).filterMap fun name =>
        (lastOf Prod.fst name pairs').bind convert)) := by
  have hkeeps : ∀ pairs : List (Key × Row),
      KeepsKey id outKey fun name => (lastOf Prod.fst name pairs).bind convert := by
    intro pairs name o ho
    obtain ⟨row, hrow, hconvert⟩ := Option.bind_eq_some_iff.mp ho
    exact (h row o hconvert).trans (lastOf_mem hrow).2
  have hmem : k ∈ pairs.map Prod.fst ↔ k ∈ pairs'.map Prod.fst := by
    have hnone : ∀ pairs : List (Key × Row),
        k ∈ pairs.map Prod.fst ↔ ofKey Prod.fst k pairs ≠ [] := by
      intro pairs
      simp [ofKey, List.filter_eq_nil_iff]
    rw [hnone, hnone, hsame]
  have hlast : lastOf Prod.fst k pairs = lastOf Prod.fst k pairs' := congrArg List.getLast? hsame
  refine ⟨_, _, rfl, rfl, ?_⟩
  rw [ofKey_filterMap (hkeeps pairs), ofKey_filterMap (hkeeps pairs'), ofKey_filter, ofKey_filter,
    ofKey_of_perm_dedup horder, ofKey_of_perm_dedup horder']
  simp only [hmem]
  refine List.filterMap_congr fun name hname => ?_
  have hk : name = k := by
    have hvisited := (List.mem_filter.mp hname).1
    split at hvisited
    · exact List.mem_singleton.mp hvisited
    · cases hvisited
  rw [hk, hlast]

end OiTerminal.Lib.Batch
