import OiTerminal.Storage.BarCodec
import OiTerminal.Storage.WalDir
import OiTerminal.Storage.Decorators
import OiTerminal.Lib.Transition

/-!
# What a call of the WAL wrapper leaves behind

The bars of a batch have left the aggregator, so the wrapper has to put them into the inner
repository or into a pending file. Each step of `append` may fail, and so may the inner
upsert and the removal of the file.
-/
namespace OiTerminal.Storage.WalCalls

open OiTerminal.Core
open OiTerminal.Storage.BarCodec (codecOf)
open OiTerminal.Storage.ClickHouse
open OiTerminal.Storage.Decorators
open OiTerminal.Storage.WalDir
open OiTerminal.Lib.Transition

set_option autoImplicit false

/-- The step of `append` that fails, with its error, or none. The file may have been filled
in part. -/
inductive AppendIo where
  | clock (e : CoreError)
  | create (nowMs : Nat) (e : CoreError)
  | fill (nowMs : Nat) (written : Bytes) (e : CoreError)
  | rename (nowMs : Nat) (e : CoreError)
  | done (nowMs : Nat)

/-- The directory, and the counter of the process that names its files. -/
structure Node where
  files : Files
  counter : Nat

/-- The file is filled under its hidden name, which it keeps unless the rename comes. -/
def append (C : Codec) (pid : Nat) (io : AppendIo) (snaps : List OiSnapshot) : Op Node String :=
  fun node =>
    match C.encode snaps with
    | none => (.error (.storage "wal msgpack"), node)
    | some payload =>
      let finalName (nowMs : Nat) := WalName.fileName ⟨nowMs, pid, node.counter⟩
      let frame := (C.frameChunks payload).flatten
      match io with
      | .clock e => (.error e, node)
      | .create _ e => (.error e, ⟨node.files, node.counter + 1⟩)
      | .fill nowMs written e =>
        (.error e, ⟨node.files.insert (tmpName (finalName nowMs)) written, node.counter + 1⟩)
      | .rename nowMs e =>
        (.error e, ⟨node.files.insert (tmpName (finalName nowMs)) frame, node.counter + 1⟩)
      | .done nowMs =>
        let filled : Files := node.files.insert (tmpName (finalName nowMs)) frame
        (.ok (finalName nowMs),
          ⟨filled.rename (tmpName (finalName nowMs)) (finalName nowMs), node.counter + 1⟩)

/-- A missing file is not an error. -/
def ack (io : Option CoreError) (path : String) : Op Node Unit := fun node =>
  match node.files.lookup path, io with
  | none, _ => (.ok (), node)
  | some _, some e => (.error e, node)
  | some _, none => (.ok (), ⟨node.files.erase path, node.counter⟩)

/-- The inner repository: what it has stored, to which a successful upsert adds. -/
structure Inner (σ : Type) where
  repo : OiRepository σ
  Stored : σ → Batch → Prop
  stores : ∀ batch s t, repo.upsertSnapshots batch s = (.ok (), t) → Stored t batch

/-- One call of the wrapper, with the fate of its file. -/
structure Upsert where
  snaps : Batch
  append : AppendIo
  ack : Option CoreError

/-- The directory, and the inner repository with a record of the calls that reach it. -/
abbrev State (σ : Type) := Node × (σ × List Call)

variable {σ : Type} (C : Codec) (pid : Nat) (inner : Inner σ)

def upsertSnapshots (call : Upsert) : Op (State σ) Unit :=
  (walBacked ⟨append C pid call.append, ack call.ack⟩ inner.repo.recorded).upsertSnapshots
    call.snaps

def step (s : State σ) (call : Upsert) : Option (State σ) :=
  some (upsertSnapshots C pid inner call s).2

/-- The inner repository has the batch, or a pending file does. -/
def Kept (batch : Batch) (s : State σ) : Prop :=
  inner.Stored s.2.1 batch ∨
    ∃ name ∈ s.1.files.pending, ∃ bytes, s.1.files.lookup name = some bytes ∧
      C.read bytes = .ok batch

/-- The append failed, and the inner upsert was then attempted and failed too. -/
def BothFailed (call : Upsert) (s : State σ) : Prop :=
  (∃ e, (append C pid call.append call.snaps s.1).1 = .error e) ∧
    (upsertSnapshots C pid inner call s).2.2.2 = s.2.2 ++ [.upsertSnapshots call.snaps] ∧
    ∃ e, (inner.repo.upsertSnapshots call.snaps s.2.1).1 = .error e

/-- A batch is lost only if both stores fail. -/
def Safe (s : State σ) (call : Upsert) : Prop :=
  call.snaps ≠ [] →
    Kept C inner call.snaps (upsertSnapshots C pid inner call s).2 ∨
      BothFailed C pid inner call s

/-- The batch can be encoded and every step of `append` succeeds. -/
def Upsert.Appends (call : Upsert) : Prop :=
  (∃ payload, C.encode call.snaps = some payload) ∧ ∃ nowMs, call.append = .done nowMs

variable {C pid inner} {call : Upsert} {s : State σ} {node : Node}

/-- A successful append leaves a pending file with the batch. -/
theorem append_of_appends (h : call.Appends C) (node : Node) :
    ∃ name node', append C pid call.append call.snaps node = (.ok name, node') ∧
      isPending name = true ∧ ∃ bytes, node'.files.lookup name = some bytes ∧
        C.read bytes = .ok call.snaps := by
  obtain ⟨⟨payload, hpayload⟩, nowMs, hio⟩ := h
  unfold append
  rw [hpayload, hio]
  refine ⟨_, _, rfl, isPending_fileName _, _, ?_, C.read_frame hpayload⟩
  dsimp only
  exact Files.lookup_rename_insert ..

/-- The path that a successful append returns names the frame of the batch. -/
theorem file_of_append {io : AppendIo} {batch : Batch} {node' : Node} {path : String}
    (h : append C pid io batch node = (.ok path, node')) :
    ∃ payload, C.encode batch = some payload ∧
      node'.files.lookup path = some (C.frameChunks payload).flatten := by
  unfold append at h
  cases hpayload : C.encode batch with
  | none =>
    rw [hpayload] at h
    cases h
  | some payload =>
    rw [hpayload] at h
    cases io with
    | done nowMs =>
      obtain ⟨hpath, rfl⟩ := Prod.mk.inj h
      obtain rfl := Except.ok.inj hpath
      refine ⟨payload, rfl, ?_⟩
      dsimp only
      exact Files.lookup_rename_insert ..
    | clock e => cases h
    | create nowMs e => cases h
    | fill nowMs written e => cases h
    | rename nowMs e => cases h

/-- A failed one changes no pending file. -/
theorem append_of_not_appends (pid : Nat) (h : ¬ call.Appends C) (node : Node) :
    ∃ e node', append C pid call.append call.snaps node = (.error e, node') ∧
      ∀ name, isPending name = true → node'.files.lookup name = node.files.lookup name := by
  unfold append
  cases hpayload : C.encode call.snaps with
  | none => exact ⟨_, _, rfl, fun _ _ => rfl⟩
  | some payload =>
    cases hio : call.append with
    | clock e => exact ⟨_, _, rfl, fun _ _ => rfl⟩
    | create nowMs e => exact ⟨_, _, rfl, fun _ _ => rfl⟩
    | fill nowMs written e => exact ⟨_, _, rfl, fun _ => lookup_insert_tmpName node.files⟩
    | rename nowMs e => exact ⟨_, _, rfl, fun _ => lookup_insert_tmpName node.files⟩
    | done nowMs => exact absurd ⟨⟨payload, hpayload⟩, nowMs, hio⟩ h

/-- After an append the batch is in the inner repository or still in the file. -/
theorem kept_of_appends (hne : call.snaps ≠ []) (h : call.Appends C) :
    Kept C inner call.snaps (upsertSnapshots C pid inner call s).2 := by
  obtain ⟨path, node, happend, hpending, bytes, hlookup, hread⟩ := append_of_appends h s.1
  have hempty : call.snaps.isEmpty = false := List.isEmpty_eq_false_iff.mpr hne
  cases hanswer : inner.repo.upsertSnapshots call.snaps s.2.1 with
  | mk answer t =>
    have hinner : inner.repo.recorded.upsertSnapshots call.snaps s.2 =
        (answer, (t, s.2.2 ++ [.upsertSnapshots call.snaps])) := by
      show inner.repo.recorded.call (.upsertSnapshots call.snaps) s.2 = _
      rw [OiRepository.call_recorded]
      show ((inner.repo.upsertSnapshots call.snaps s.2.1).1,
        ((inner.repo.upsertSnapshots call.snaps s.2.1).2, _)) = _
      rw [hanswer]
    unfold upsertSnapshots walBacked
    dsimp only
    rw [hempty, happend]
    dsimp only
    rw [if_neg Bool.false_ne_true, hinner]
    cases answer with
    | ok u => exact .inl (inner.stores _ _ _ hanswer)
    | error e =>
      exact .inr ⟨path, Files.mem_pending.mpr ⟨hpending, bytes, hlookup⟩, bytes, hlookup, hread⟩

/-- A failed append ends the call: the inner repository is not asked. -/
theorem upsertSnapshots_of_not_appends (pid : Nat) (inner : Inner σ) (s : State σ)
    (hne : call.snaps ≠ []) (h : ¬ call.Appends C) :
    (upsertSnapshots C pid inner call s).2.2 = s.2 ∧
      ∀ name, isPending name = true →
        (upsertSnapshots C pid inner call s).2.1.files.lookup name = s.1.files.lookup name := by
  obtain ⟨e, node, happend, hsame⟩ := append_of_not_appends pid h s.1
  have hempty : call.snaps.isEmpty = false := List.isEmpty_eq_false_iff.mpr hne
  have hcall : upsertSnapshots C pid inner call s = (.error e, (node, s.2)) := by
    unfold upsertSnapshots walBacked
    dsimp only
    rw [hempty, happend]
    rfl
  rw [hcall]
  exact ⟨rfl, hsame⟩

theorem kept_congr {t : State σ} {batch : Batch} (hinner : t.2 = s.2)
    (hfiles : ∀ name, isPending name = true → t.1.files.lookup name = s.1.files.lookup name) :
    Kept C inner batch t ↔ Kept C inner batch s := by
  have hpending : ∀ name, name ∈ t.1.files.pending ↔ name ∈ s.1.files.pending := by
    intro name
    rw [Files.mem_pending, Files.mem_pending]
    refine and_congr_right fun hname => ?_
    rw [hfiles name hname]
  unfold Kept
  rw [hinner]
  refine or_congr_right (exists_congr fun name => ?_)
  rw [hpending]
  refine and_congr_right fun hname => ?_
  rw [hfiles name (Files.mem_pending.mp hname).1]

/-- The call keeps its batch exactly if the append succeeds or the batch is kept already. -/
theorem safe_iff : Safe C pid inner s call ↔
    (call.snaps ≠ [] → call.Appends C ∨ Kept C inner call.snaps s) := by
  unfold Safe
  refine forall_congr' fun hne => ?_
  by_cases happends : call.Appends C
  · exact iff_of_true (.inl (kept_of_appends hne happends)) (.inl happends)
  · obtain ⟨hinner, hfiles⟩ := upsertSnapshots_of_not_appends pid inner s hne happends
    have hattempted : ¬ BothFailed C pid inner call s := by
      intro hboth
      have hcalls := hboth.2.1
      rw [hinner] at hcalls
      simp at hcalls
    rw [or_iff_left hattempted, or_iff_right happends]
    exact kept_congr hinner hfiles

variable (C pid inner) in
/-- In every run of calls, a batch is lost only if both stores fail, exactly if each append
succeeds or meets a batch that is kept already: a failed append is not followed by the inner
upsert. -/
theorem lost_only_if_both_fail_iff (s : State σ) (calls : List Upsert) :
    Along (step C pid inner) (Safe C pid inner) s calls ↔
      Along (step C pid inner)
        (fun s call => call.snaps ≠ [] → call.Appends C ∨ Kept C inner call.snaps s) s calls :=
  ⟨.mono fun _ _ => safe_iff.mp, .mono fun _ _ => safe_iff.mpr⟩

/-- A repository in memory that takes every batch. -/
def memoryRepository : OiRepository (List Batch) where
  upsertSnapshots snaps := fun s => (.ok (), s ++ [snaps])
  upsertInstruments _ := fun s => (.ok (), s)
  range _ _ _ := fun s => (.ok [], s)
  latest _ := fun s => (.ok none, s)

/-- The disk is full, and the batch does not even reach an inner repository that would take
it. -/
theorem full_disk_loses_batch : ¬ ∀ (C : Codec) (pid : Nat) (inner : Inner (List Batch))
    (s : State (List Batch)) (calls : List Upsert),
    Along (step C pid inner) (Safe C pid inner) s calls := by
  intro h
  let inner : Inner (List Batch) := ⟨memoryRepository, fun s batch => batch ∈ s, by
    intro batch s t hok
    cases hok
    exact List.mem_append_right s (List.mem_singleton_self batch)⟩
  let C : Codec := codecOf [batchAt 0, batchAt 60]
  let call : Upsert := ⟨batchAt 0, .create 1000 (.storage "wal create: No space left"), none⟩
  let s : State (List Batch) := (⟨∅, 0⟩, ([], []))
  have hsafe : Safe C 7 inner s call := (h C 7 inner s [call] _ rfl).1
  rcases safe_iff.mp hsafe (by decide) with happends | hkept
  · obtain ⟨_, nowMs, hio⟩ := happends
    cases hio
  · rcases hkept with hstored | ⟨name, hname, _⟩
    · exact absurd hstored List.not_mem_nil
    · obtain ⟨_, bytes, hbytes⟩ := Files.mem_pending.mp hname
      rw [AList.lookup_empty] at hbytes
      cases hbytes

end OiTerminal.Storage.WalCalls
