import Mathlib.Data.String.Basic
import OiTerminal.Storage.WalCalls
import OiTerminal.Lib.Numeral

/-!
# Pending files in the order of their appends

The listing sorts names that begin with the clock reading, and the ids of one millisecond
differ in a hexadecimal counter that is printed without padding.
-/
namespace OiTerminal.Storage.PendingOrder

open OiTerminal.Core
open OiTerminal.Storage.BarCodec (codecOf toVecNamed)
open OiTerminal.Storage.WalCalls
open OiTerminal.Storage.WalDir
open OiTerminal.Lib.Numeral
open OiTerminal.Lib.Transition

set_option autoImplicit false

/-- One call of `append`. -/
structure Appending where
  snaps : Batch
  io : AppendIo

/-- The node, and the names of the successful appends in the order of their ids. -/
structure State where
  node : Node
  allocated : List WalName

variable (C : Codec) (pid : Nat)

/-- The name that a successful append gives its file. -/
def nameOf (node : Node) (call : Appending) : Option WalName :=
  match (append C pid call.io call.snaps node).1, call.io with
  | .ok _, .done nowMs => some ⟨nowMs, pid, node.counter⟩
  | _, _ => none

def step (s : State) (call : Appending) : Option State :=
  some ⟨(append C pid call.io call.snaps s.node).2,
    s.allocated ++ (nameOf C pid s.node call).toList⟩

/-- The digits of the shorter counter do not exceed the leading digits of the longer one. -/
def LeadingAtMost (m n : Nat) : Prop :=
  m ≤ n / 16 ^ ((Nat.toDigits 16 n).length - (Nat.toDigits 16 m).length)

instance (m n : Nat) : Decidable (LeadingAtMost m n) :=
  inferInstanceAs (Decidable (m ≤ n / 16 ^ _))

/-- In one millisecond, the counter printed later does not have smaller leading digits. -/
def OrderedIds (a b : WalName) : Prop := a.tsMs = b.tsMs → LeadingAtMost a.n b.n

def DigitsOfMs (ts : Nat) : Prop := 10 ^ 12 ≤ ts ∧ ts < 10 ^ 13

variable {C pid}

theorem toList_fileName (name : WalName) : name.fileName.toList =
    Nat.toDigits 10 name.tsMs ++ ('-' :: Nat.toDigits 16 name.pid ++
      '-' :: (Nat.toDigits 16 name.n ++ '.' :: ['m', 'p', 'k'])) := by
  have hts : (toString name.tsMs).toList = Nat.toDigits 10 name.tsMs := String.toList_ofList
  have hhex : ∀ n, (WalName.hex n).toList = Nat.toDigits 16 n := fun _ => String.toList_ofList
  have hdash : "-".toList = ['-'] := by decide
  have hsuffix : WalName.pendingSuffix.toList = '.' :: ['m', 'p', 'k'] := by decide
  unfold WalName.fileName
  simp only [String.toList_append, List.append_assoc, hts, hhex, hdash, hsuffix,
    List.cons_append, List.nil_append]

theorem length_digitsOfMs {ts : Nat} (h : DigitsOfMs ts) : (Nat.toDigits 10 ts).length = 13 := by
  apply le_antisymm
  · exact (Nat.length_toDigits_le_iff (by decide) (by decide)).mpr h.2
  · by_contra hlt
    have hle : (Nat.toDigits 10 ts).length ≤ 12 := by omega
    have hts := (Nat.length_toDigits_le_iff (by decide) (by decide)).mp hle
    exact absurd h.1 (not_le.mpr hts)

/-- The later of two ids has the later name exactly if the ids are ordered in their digits. -/
theorem fileName_lt_iff {a b : WalName} (ha : DigitsOfMs a.tsMs) (hb : DigitsOfMs b.tsMs)
    (hpid : a.pid = b.pid) (hts : a.tsMs ≤ b.tsMs) (hn : a.n < b.n) :
    a.fileName < b.fileName ↔ OrderedIds a b := by
  have hlen : (Nat.toDigits 10 a.tsMs).length = (Nat.toDigits 10 b.tsMs).length := by
    rw [length_digitsOfMs ha, length_digitsOfMs hb]
  rw [String.lt_iff_toList_lt, toList_fileName, toList_fileName, append_lt_append_iff hlen,
    toDigits_lt_iff (by decide) (by decide) hlen]
  unfold OrderedIds LeadingAtMost
  rcases hts.lt_or_eq with hlt | heq
  · exact iff_of_true (.inl hlt) fun h => absurd h hlt.ne
  · have hcounters := toDigits_sep_lt_iff (b := 16) (c := '.') (by decide) (by decide) (by decide)
      ['m', 'p', 'k'] hn
    rw [heq, hpid, append_lt_append_iff rfl]
    simp [hcounters]

/-- Two ids of a process have two names. -/
theorem n_of_fileName_eq {a b : WalName} (ha : DigitsOfMs a.tsMs) (hb : DigitsOfMs b.tsMs)
    (hpid : a.pid = b.pid) (h : a.fileName = b.fileName) : a.n = b.n := by
  have hchars := congrArg String.toList h
  rw [toList_fileName, toList_fileName] at hchars
  obtain ⟨-, hrest⟩ := List.append_inj hchars
    (by rw [length_digitsOfMs ha, length_digitsOfMs hb])
  rw [hpid] at hrest
  have hcounters := List.cons.inj (List.append_cancel_left hrest)
  exact toDigits_inj (by decide) (by decide) (List.append_cancel_right hcounters.2)

theorem pending_pairwise (files : Files) : files.pending.Pairwise (· ≤ ·) := by
  unfold Files.pending
  exact List.pairwise_insertionSort (fun a b : String => a ≤ b) _

/-- Some of the pending files are listed in an order exactly if that is the order of their
names. -/
theorem filter_pending_eq_iff {files : Files} {names : List String} (hnodup : names.Nodup)
    (hpending : ∀ name ∈ names, name ∈ files.pending) :
    files.pending.filter (· ∈ names) = names ↔ names.Pairwise (· ≤ ·) := by
  have hsorted : (files.pending.filter (· ∈ names)).Pairwise (· ≤ ·) :=
    (pending_pairwise files).filter _
  have hperm : (files.pending.filter (· ∈ names)).Perm names := by
    rw [List.perm_ext_iff_of_nodup ((files.pending_nodup).filter _) hnodup]
    intro name
    rw [List.mem_filter, decide_eq_true_iff]
    exact and_iff_right_of_imp (hpending name)
  constructor
  · intro h
    rwa [h] at hsorted
  · intro h
    exact hperm.eq_of_pairwise' hsorted h

/-- What every append keeps: the files of its process are pending, and the counter grows. -/
structure Inv (C : Codec) (pid : Nat) (s : State) : Prop where
  files : ∀ name ∈ s.allocated, ∃ bytes, s.node.files.lookup name.fileName = some bytes
  pids : ∀ name ∈ s.allocated, name.pid = pid
  below : ∀ name ∈ s.allocated, name.n < s.node.counter
  counters : s.allocated.Pairwise fun a b => a.n < b.n

theorem inv_start (node : Node) : Inv C pid ⟨node, []⟩ :=
  ⟨List.forall_mem_nil _, List.forall_mem_nil _, List.forall_mem_nil _, .nil⟩

/-- A call gives a name and leaves its file, or it changes no pending file. -/
theorem append_cases (C : Codec) (pid : Nat) (node : Node) (call : Appending) :
    (∃ name bytes, nameOf C pid node call = some name ∧ name.pid = pid ∧ name.n = node.counter ∧
      (append C pid call.io call.snaps node).1 = .ok name.fileName ∧
      (append C pid call.io call.snaps node).2.counter = node.counter + 1 ∧
      (append C pid call.io call.snaps node).2.files.lookup name.fileName = some bytes ∧
      ∀ other, isPending other = true → other ≠ name.fileName →
        (append C pid call.io call.snaps node).2.files.lookup other = node.files.lookup other) ∨
    (nameOf C pid node call = none ∧
      (∃ e, (append C pid call.io call.snaps node).1 = .error e) ∧
      node.counter ≤ (append C pid call.io call.snaps node).2.counter ∧
      ∀ other, isPending other = true →
        (append C pid call.io call.snaps node).2.files.lookup other = node.files.lookup other) := by
  obtain ⟨snaps, io⟩ := call
  unfold nameOf append
  cases C.encode snaps with
  | none => exact .inr ⟨rfl, ⟨_, rfl⟩, le_rfl, fun _ _ => rfl⟩
  | some payload =>
    cases io with
    | clock e => exact .inr ⟨rfl, ⟨_, rfl⟩, le_rfl, fun _ _ => rfl⟩
    | create nowMs e => exact .inr ⟨rfl, ⟨_, rfl⟩, Nat.le_succ _, fun _ _ => rfl⟩
    | fill nowMs written e =>
      exact .inr ⟨rfl, ⟨_, rfl⟩, Nat.le_succ _, fun _ => lookup_insert_tmpName node.files⟩
    | rename nowMs e =>
      exact .inr ⟨rfl, ⟨_, rfl⟩, Nat.le_succ _, fun _ => lookup_insert_tmpName node.files⟩
    | done nowMs =>
      refine .inl ⟨⟨nowMs, pid, node.counter⟩, (C.frameChunks payload).flatten, rfl, rfl, rfl,
        rfl, rfl, ?_, ?_⟩
      · dsimp only
        exact Files.lookup_rename_insert ..
      · intro other hother hne
        dsimp only at hne ⊢
        exact (Files.lookup_rename_ne (ne_tmpName_of_isPending hother) hne).trans
          (lookup_insert_tmpName node.files hother)

theorem inv_step {s s' : State} {call : Appending} (h : Inv C pid s)
    (hstep : step C pid s call = some s') : Inv C pid s' := by
  cases hstep
  rcases append_cases C pid s.node call with
    ⟨name, bytes, hname, hpid, hn, -, hcounter, hfile, hsame⟩ | ⟨hname, -, hcounter, hsame⟩
  · rw [hname]
    refine ⟨?_, ?_, ?_, ?_⟩
    · intro other hother
      rcases List.mem_append.mp hother with hold | hnew
      · by_cases heq : other.fileName = name.fileName
        · rw [heq]
          exact ⟨bytes, hfile⟩
        · rw [hsame _ (isPending_fileName other) heq]
          exact h.files other hold
      · cases List.mem_singleton.mp hnew
        exact ⟨bytes, hfile⟩
    · intro other hother
      rcases List.mem_append.mp hother with hold | hnew
      · exact h.pids other hold
      · cases List.mem_singleton.mp hnew
        exact hpid
    · intro other hother
      rw [hcounter]
      rcases List.mem_append.mp hother with hold | hnew
      · exact Nat.lt_succ_of_lt (h.below other hold)
      · cases List.mem_singleton.mp hnew
        exact hn.trans_lt (Nat.lt_succ_self _)
    · refine List.pairwise_append.mpr ⟨h.counters, List.pairwise_singleton _ _, ?_⟩
      intro other hother new hnew
      cases List.mem_singleton.mp hnew
      rw [hn]
      exact h.below other hother
  · rw [hname, Option.toList_none, List.append_nil]
    refine ⟨?_, h.pids, fun other hother => (h.below other hother).trans_le hcounter, h.counters⟩
    intro other hother
    rw [hsame _ (isPending_fileName other)]
    exact h.files other hother

theorem inv_run {node : Node} {calls : List Appending} {s : State}
    (hrun : run (step C pid) ⟨node, []⟩ calls = some s) : Inv C pid s := by
  have hall : Throughout (step C pid) (Inv C pid) ⟨node, []⟩ calls :=
    throughout_of_step (fun _ _ _ => inv_step) (fun _ h => h) (inv_start node)
  exact throughout_run hall hrun

/-- The files of a process are listed in the order of their ids exactly if their names are
ordered. -/
theorem listed_iff_names {s : State} (h : Inv C pid s)
    (hdigits : ∀ name ∈ s.allocated, DigitsOfMs name.tsMs) :
    s.node.files.pending.filter (· ∈ s.allocated.map WalName.fileName) =
        s.allocated.map WalName.fileName ↔
      s.allocated.Pairwise fun a b => a.fileName ≤ b.fileName := by
  have hnodup : (s.allocated.map WalName.fileName).Nodup := by
    refine List.pairwise_map.mpr (h.counters.imp_of_mem ?_)
    intro a b ha hb hlt heq
    have hpid : a.pid = b.pid := by rw [h.pids a ha, h.pids b hb]
    exact hlt.ne (n_of_fileName_eq (hdigits a ha) (hdigits b hb) hpid heq)
  have hpending : ∀ path ∈ s.allocated.map WalName.fileName, path ∈ s.node.files.pending := by
    intro path hpath
    obtain ⟨name, hname, rfl⟩ := List.mem_map.mp hpath
    exact Files.mem_pending.mpr ⟨isPending_fileName name, h.files name hname⟩
  rw [filter_pending_eq_iff hnodup hpending, List.pairwise_map]

theorem names_iff_ids {s : State} (h : Inv C pid s)
    (hclock : s.allocated.Pairwise fun a b => a.tsMs ≤ b.tsMs)
    (hdigits : ∀ name ∈ s.allocated, DigitsOfMs name.tsMs) :
    s.allocated.Pairwise (fun a b => a.fileName ≤ b.fileName) ↔
      s.allocated.Pairwise OrderedIds := by
  have hiff : ∀ {a b}, a ∈ s.allocated → b ∈ s.allocated → a.tsMs ≤ b.tsMs → a.n < b.n →
      (a.fileName ≤ b.fileName ↔ OrderedIds a b) := by
    intro a b ha hb hts hn
    have hpid : a.pid = b.pid := by rw [h.pids a ha, h.pids b hb]
    have hne : a.fileName ≠ b.fileName := fun heq =>
      hn.ne (n_of_fileName_eq (hdigits a ha) (hdigits b hb) hpid heq)
    rw [← fileName_lt_iff (hdigits a ha) (hdigits b hb) hpid hts hn]
    exact ⟨fun hle => lt_of_le_of_ne hle hne, le_of_lt⟩
  have hboth := hclock.and h.counters
  constructor
  · intro hnames
    exact (hnames.and hboth).imp_of_mem fun ha hb hab => (hiff ha hb hab.2.1 hab.2.2).mp hab.1
  · intro hids
    exact (hids.and hboth).imp_of_mem fun ha hb hab => (hiff ha hb hab.2.1 hab.2.2).mpr hab.1

/-- After every run of appends of one process, with clock readings of 13 digits that do not go
back, its files are listed in the order of their ids exactly if no two ids of a millisecond have
counters of which the shorter one exceeds the leading digits of the longer one. -/
theorem listed_in_append_order_iff {node : Node} {calls : List Appending} {s : State}
    (hrun : run (step C pid) ⟨node, []⟩ calls = some s)
    (hclock : s.allocated.Pairwise fun a b => a.tsMs ≤ b.tsMs)
    (hdigits : ∀ name ∈ s.allocated, DigitsOfMs name.tsMs) :
    s.node.files.pending.filter (· ∈ s.allocated.map WalName.fileName) =
        s.allocated.map WalName.fileName ↔
      s.allocated.Pairwise OrderedIds :=
  (listed_iff_names (inv_run hrun) hdigits).trans (names_iff_ids (inv_run hrun) hclock hdigits)

/-- Two appends of one millisecond. -/
def twoAppends : List Appending :=
  [⟨batchAt 0, .done 1700000000000⟩, ⟨batchAt 60, .done 1700000000000⟩]

/-- The names that a process gives them after `n` ids. -/
def namesFrom (n : Nat) : List WalName := [⟨1700000000000, 7, n⟩, ⟨1700000000000, 7, n + 1⟩]

theorem step_done (pid : Nat) (s : State) {batch : Batch} {payload : Bytes} (nowMs : Nat)
    (h : C.encode batch = some payload) : ∃ files, step C pid s ⟨batch, .done nowMs⟩ =
      some ⟨⟨files, s.node.counter + 1⟩, s.allocated ++ [⟨nowMs, pid, s.node.counter⟩]⟩ := by
  unfold step nameOf append
  rw [h]
  exact ⟨_, rfl⟩

theorem run_twoAppends (n : Nat) : ∃ s,
    run (step (codecOf [batchAt 0, batchAt 60]) 7) ⟨⟨∅, n⟩, []⟩ twoAppends = some s ∧
      s.allocated = namesFrom n := by
  let C : Codec := codecOf [batchAt 0, batchAt 60]
  have hfirst : C.encode (batchAt 0) = some (toVecNamed (batchAt 0)) := by decide +kernel
  have hsecond : C.encode (batchAt 60) = some (toVecNamed (batchAt 60)) := by decide +kernel
  obtain ⟨files, hstep⟩ := step_done 7 ⟨⟨∅, n⟩, []⟩ 1700000000000 hfirst
  obtain ⟨files', hstep'⟩ := step_done 7 ⟨⟨files, n + 1⟩, [⟨1700000000000, 7, n⟩]⟩ 1700000000000
    hsecond
  exact ⟨_, run_cons_eq_some.mpr ⟨_, hstep, run_cons_eq_some.mpr ⟨_, hstep', rfl⟩⟩, rfl⟩

theorem clock_namesFrom (n : Nat) : (namesFrom n).Pairwise fun a b => a.tsMs ≤ b.tsMs := by
  unfold namesFrom
  simp

theorem digits_namesFrom (n : Nat) : ∀ name ∈ namesFrom n, DigitsOfMs name.tsMs := by
  unfold namesFrom DigitsOfMs
  simp

theorem listed_after_first_ids : ∃ s,
    run (step (codecOf [batchAt 0, batchAt 60]) 7) ⟨⟨∅, 0⟩, []⟩ twoAppends = some s ∧
      s.node.files.pending.filter (· ∈ s.allocated.map WalName.fileName) =
        s.allocated.map WalName.fileName := by
  obtain ⟨s, hrun, hnames⟩ := run_twoAppends 0
  refine ⟨s, hrun, (listed_in_append_order_iff hrun ?_ ?_).mpr ?_⟩ <;> rw [hnames]
  · exact clock_namesFrom 0
  · exact digits_namesFrom 0
  · unfold namesFrom OrderedIds
    decide

/-- The ids `f` and `10` of one millisecond are listed the other way round. -/
theorem sixteenth_id_listed_first : ¬ ∀ (C : Codec) (pid : Nat) (node : Node)
    (calls : List Appending) (s : State), run (step C pid) ⟨node, []⟩ calls = some s →
    (s.allocated.Pairwise fun a b => a.tsMs ≤ b.tsMs) →
    (∀ name ∈ s.allocated, DigitsOfMs name.tsMs) →
    s.node.files.pending.filter (· ∈ s.allocated.map WalName.fileName) =
      s.allocated.map WalName.fileName := by
  intro h
  obtain ⟨s, hrun, hnames⟩ := run_twoAppends 15
  have hclock := hnames.symm ▸ clock_namesFrom 15
  have hdigits := hnames.symm ▸ digits_namesFrom 15
  have hlisted := h _ _ _ _ s hrun hclock hdigits
  have hids := (names_iff_ids (inv_run hrun) hclock hdigits).mp
    ((listed_iff_names (inv_run hrun) hdigits).mp hlisted)
  rw [hnames] at hids
  have hleading : LeadingAtMost 15 16 := (List.pairwise_pair.mp hids) rfl
  exact absurd hleading (by decide)

end OiTerminal.Storage.PendingOrder
