import OiTerminal.Storage.DrainOnce
import OiTerminal.Storage.WalCalls

/-!
# What the drainer puts aside

Only damaged content should leave the pending files without having been replayed. The drainer
does not ask why a file could not be read, so an error of the file system puts aside a good
batch, which no later cycle lists.
-/
namespace OiTerminal.Storage.Quarantine

open OiTerminal.Core
open OiTerminal.Lib
open OiTerminal.Lib.Transition
open OiTerminal.Storage.BarCodec (codecOf toVecNamed)
open OiTerminal.Storage.ClickHouse
open OiTerminal.Storage.Decorators
open OiTerminal.Storage.DrainOnce
open OiTerminal.Storage.WalDir

set_option autoImplicit false

variable {τ : Type}

/-- One cycle. The file system and the target answer as they like. -/
def step (C : Codec) (target : OiRepository τ) (q : Queue τ) (io : Io) : Option (Queue τ) :=
  some (drainOnce C target io q).2

/-- Nothing that holds a batch has been renamed. -/
def AsideDamaged (C : Codec) (q : Queue τ) : Prop :=
  ∀ entry ∈ q.setAside, ∀ batch, C.read entry.2 ≠ .ok batch

/-- Whatever was pending is so still, has been replayed or has been put aside. -/
def Accounted (C : Codec) (files : Files) (q : Queue τ) : Prop :=
  ∀ path bytes, isPending path = true → files.lookup path = some bytes →
    q.files.lookup path = some bytes ∨
      (∃ batch, C.read bytes = .ok batch ∧ (path, batch) ∈ q.replayed) ∨
      (path, bytes) ∈ q.setAside

/-- The files of the start that hold a batch are kept until they have been replayed, and a
cycle that can read such a file replays it if no other call fails. -/
structure Honoured (C : Codec) (files : Files) (q : Queue τ) : Prop where
  aside : AsideDamaged C q
  kept : ∀ path bytes batch, isPending path = true → files.lookup path = some bytes →
    C.read bytes = .ok batch →
      q.files.lookup path = some bytes ∨ (path, batch) ∈ q.replayed
  later : ∀ path bytes batch, isPending path = true → q.files.lookup path = some bytes →
    C.read bytes = .ok batch → ∀ (target : OiRepository τ) (io : Io), io.list = none →
      io.read path = none → (∀ name, io.remove name = none) →
      (∀ b t, (target.upsertSnapshots b t).1 = .ok ()) →
        (path, batch) ∈ (drainOnce C target io q).2.replayed

/-- If the file holds a batch then reading it does not fail, or it cannot be renamed either. -/
def Sound (C : Codec) (io : Io) (q : Queue τ) (path : String) : Prop :=
  ∀ bytes batch, q.files.lookup path = some bytes → C.read bytes = .ok batch →
    io.read path = none ∨ io.renames path = false

variable {C : Codec} {target : OiRepository τ} {io : Io} {q : Queue τ} {path : String}

/-- What one turn of the loop may change. -/
inductive Change (C : Codec) (io : Io) (path : String) (q : Queue τ) : Queue τ → Prop where
  | stays (t : τ) (h : io.read path = none ∨ q.files.lookup path = none ∨
      io.renames path = false) : Change C io path q { q with target := t }
  | aside {bytes : Bytes} (hbytes : q.files.lookup path = some bytes)
      (hread : io.read path = none → ∀ batch, C.read bytes ≠ .ok batch)
      (hrename : io.renames path = true) :
      Change C io path q
        { q with
          files := q.files.rename path (asideName path)
          setAside := q.setAside ++ [(path, bytes)] }
  | replayed {bytes : Bytes} {batch : Batch} {files : Files} (t : τ)
      (hbytes : q.files.lookup path = some bytes) (hbatch : C.read bytes = .ok batch)
      (hread : io.read path = none) (hfiles : files = q.files ∨ files = q.files.erase path) :
      Change C io path q
        { q with files := files, target := t, replayed := q.replayed ++ [(path, batch)] }

theorem change_quarantine {e : CoreError} (h : read C io q.files path = .error e) :
    Change C io path q (quarantine io path q) := by
  unfold quarantine
  cases hbytes : q.files.lookup path with
  | none => exact .stays q.target (.inr (.inl hbytes))
  | some bytes =>
    dsimp only
    split
    case isFalse hrename =>
      exact .stays q.target (.inr (.inr (Bool.not_eq_true _ ▸ hrename)))
    case isTrue hrename =>
      refine .aside hbytes (fun hio batch hbatch => ?_) hrename
      unfold DrainOnce.read at h
      rw [hio, hbytes] at h
      dsimp only at h
      rw [hbatch] at h
      cases h

theorem io_of_read {batch : Batch} (h : read C io q.files path = .ok batch) :
    io.read path = none := by
  unfold DrainOnce.read at h
  cases hio : io.read path with
  | none => rfl
  | some e =>
    rw [hio] at h
    cases h

theorem change_drainFile (C : Codec) (target : OiRepository τ) (io : Io) (path : String)
    (q : Queue τ) : Change C io path q (drainFile C target io path q).2 := by
  have hturn := drainFile_turn C target io path q
  generalize drainFile C target io path q = result at hturn
  cases hturn with
  | unreadable hread => exact change_quarantine hread
  | refused hread htarget => exact .stays _ (.inl (io_of_read hread))
  | stuck hread htarget hremove =>
    obtain ⟨bytes, hbytes, hbatch⟩ := lookup_of_read hread
    exact .replayed _ hbytes hbatch (io_of_read hread) (.inl rfl)
  | drained hread htarget =>
    obtain ⟨bytes, hbytes, hbatch⟩ := lookup_of_read hread
    exact .replayed _ hbytes hbatch (io_of_read hread) (.inr rfl)

/-! ## What a turn preserves -/

/-- The records only grow. -/
theorem Change.records {t : Queue τ} (h : Change C io path q t) :
    (∀ entry ∈ q.setAside, entry ∈ t.setAside) ∧ ∀ entry ∈ q.replayed, entry ∈ t.replayed := by
  cases h with
  | stays t _ => exact ⟨fun _ => id, fun _ => id⟩
  | aside _ _ _ => exact ⟨fun _ => List.mem_append_left _, fun _ => id⟩
  | replayed t _ _ _ _ => exact ⟨fun _ => id, fun _ => List.mem_append_left _⟩

/-- Another pending file keeps its bytes. -/
theorem Change.lookup_other {t : Queue τ} (h : Change C io path q t) {name : String}
    (hname : isPending name = true) (hne : name ≠ path) :
    t.files.lookup name = q.files.lookup name := by
  cases h with
  | stays t _ => rfl
  | aside _ _ _ => exact Files.lookup_rename_ne hne (ne_corrupt_of_isPending hname)
  | replayed t _ _ _ hfiles =>
    obtain rfl | rfl := hfiles
    · rfl
    · exact AList.lookup_erase_ne hne

/-- A turn puts no batch aside exactly if it is sound. -/
theorem Change.asideDamaged_iff {t : Queue τ} (h : Change C io path q t) (hq : AsideDamaged C q) :
    AsideDamaged C t ↔ Sound C io q path := by
  cases h with
  | stays t hwhy =>
    refine iff_of_true hq fun bytes batch hbytes _ => ?_
    rcases hwhy with hread | hnone | hrename
    · exact .inl hread
    · rw [hnone] at hbytes
      cases hbytes
    · exact .inr hrename
  | @aside bytes hbytes hread hrename =>
    constructor
    · intro ht bytes' batch hbytes' hbatch
      obtain rfl := Option.some.inj (hbytes.symm.trans hbytes')
      exact absurd hbatch (ht (path, bytes) (by simp) batch)
    · intro hsound entry hentry
      rcases List.mem_append.mp hentry with hold | hnew
      · exact hq entry hold
      · obtain rfl := List.mem_singleton.mp hnew
        intro batch hbatch
        rcases hsound bytes batch hbytes hbatch with hio | hstays
        · exact hread hio batch hbatch
        · rw [hrename] at hstays
          cases hstays
  | replayed t _ _ hread _ => exact iff_of_true hq fun _ _ _ _ => .inl hread

theorem Change.accounted {t : Queue τ} {files : Files} (h : Change C io path q t)
    (hq : Accounted C files q) : Accounted C files t := by
  intro name bytes hname hbytes
  rcases hq name bytes hname hbytes with hpending | ⟨batch, hbatch, hreplayed⟩ | haside
  · by_cases hne : name = path
    · subst hne
      cases h with
      | stays t _ => exact .inl hpending
      | aside hlookup _ _ =>
        obtain rfl := Option.some.inj (hlookup.symm.trans hpending)
        exact .inr (.inr (by simp))
      | replayed t hlookup hbatch _ _ =>
        obtain rfl := Option.some.inj (hlookup.symm.trans hpending)
        exact .inr (.inl ⟨_, hbatch, by simp⟩)
    · exact .inl ((h.lookup_other hname hne).trans hpending)
  · exact .inr (.inl ⟨batch, hbatch, h.records.2 _ hreplayed⟩)
  · exact .inr (.inr (h.records.1 _ haside))

/-! ## Whole cycles -/

theorem accounted_drainOnce {files : Files} (hq : Accounted C files q) :
    Accounted C files (drainOnce C target io q).2 := by
  unfold drainOnce
  split
  · exact hq
  · exact EarlyExit.loop_keeps (fun s name hs => (change_drainFile C target io name s).accounted hs)
      hq

/-- A cycle puts no batch aside exactly if every file that it comes to is sound. -/
theorem asideDamaged_drainOnce_iff (hq : AsideDamaged C q) :
    AsideDamaged C (drainOnce C target io q).2 ↔ (io.list = none →
      EarlyExit.Meets (drainFile C target io) (Sound C io) q.files.pending q) := by
  unfold drainOnce
  cases io.list with
  | some e => exact iff_of_true hq fun h => absurd h (by simp)
  | none =>
    rw [forall_prop_of_true rfl]
    apply EarlyExit.loop_iff_meets _ _ hq
    · exact fun s name hs => (change_drainFile C target io name s).asideDamaged_iff hs
    · intro s name hs hnext
      have hgrows := (change_drainFile C target io name s).records.1
      exact hs fun entry hentry => hnext entry (hgrows entry hentry)

/-- Nothing stops a cycle whose target accepts and whose files can be removed. -/
theorem drainFile_goes_on (haccepts : ∀ b t, (target.upsertSnapshots b t).1 = .ok ())
    (hremove : ∀ name, io.remove name = none) (q : Queue τ) (path : String) :
    ∃ t, drainFile C target io path q = (.ok (), t) := by
  cases hturn : drainFile C target io path q with
  | mk answer t =>
    cases answer with
    | ok done => exact ⟨t, rfl⟩
    | error e =>
      obtain ⟨_, batch, _, htarget | ⟨_, hio⟩⟩ := drainFile_error hturn
      · have hok := haccepts batch q.target
        rw [htarget] at hok
        cases hok
      · rw [hremove path] at hio
        cases hio

/-- A file that can be read is replayed by such a cycle, whatever the others hold. -/
theorem replayed_drainOnce {bytes : Bytes} {batch : Batch} (hpath : isPending path = true)
    (hbytes : q.files.lookup path = some bytes) (hbatch : C.read bytes = .ok batch)
    (hlist : io.list = none) (hread : io.read path = none)
    (hremove : ∀ name, io.remove name = none)
    (haccepts : ∀ b t, (target.upsertSnapshots b t).1 = .ok ()) :
    (path, batch) ∈ (drainOnce C target io q).2.replayed := by
  unfold drainOnce
  rw [hlist]
  apply EarlyExit.loop_reaches (A := fun s => s.files.lookup path = some bytes)
    (B := fun s => (path, batch) ∈ s.replayed) (x := path) (drainFile_goes_on haccepts hremove)
  case hother =>
    intro s name t hne hs hbody
    have hchange := change_drainFile C target io name s
    rw [hbody] at hchange
    exact (hchange.lookup_other hpath hne.symm).trans hs
  case hself =>
    intro s t hs hbody
    have hok := read_eq_ok hread hs hbatch
    rcases drainFile_ok hbody with ⟨e, herror, _⟩ | ⟨snaps, t', hsnaps, _, rfl⟩
    · rw [hok] at herror
      cases herror
    · obtain rfl := Except.ok.inj (hok.symm.trans hsnaps)
      exact List.mem_append_right _ (List.mem_singleton_self _)
  case hkeep => exact fun s name hs => (change_drainFile C target io name s).records.2 _ hs
  case hx => exact Files.mem_pending.mpr ⟨hpath, bytes, hbytes⟩
  case hs => exact hbytes

/-! ## Runs -/

structure Inv (C : Codec) (files : Files) (q : Queue τ) : Prop where
  accounted : Accounted C files q
  aside : AsideDamaged C q

theorem inv_start (C : Codec) (files : Files) (r : τ) : Inv C files ⟨files, r, [], []⟩ := by
  refine ⟨fun _ _ _ hbytes => .inl hbytes, fun entry hentry => ?_⟩
  cases hentry

theorem Inv.honoured {files : Files} (h : Inv C files q) : Honoured C files q := by
  refine ⟨h.aside, ?_, ?_⟩
  · intro path bytes batch hpath hbytes hbatch
    rcases h.accounted path bytes hpath hbytes with hpending | ⟨batch', hbatch', hreplayed⟩ | hset
    · exact .inl hpending
    · obtain rfl := Except.ok.inj (hbatch.symm.trans hbatch')
      exact .inr hreplayed
    · exact absurd hbatch (h.aside _ hset batch)
  · intro path bytes batch hpath hbytes hbatch target io hlist hread hremove haccepts
    exact replayed_drainOnce hpath hbytes hbatch hlist hread hremove haccepts

/-- In every run of cycles, whatever the file system and the target answer, only damaged
content is put aside exactly if no file with a batch is met that cannot be read but can be
renamed. -/
theorem only_damaged_put_aside_iff (C : Codec) (target : OiRepository τ) (files : Files) (r : τ)
    (cycles : List Io) :
    Throughout (step C target) (Honoured C files) ⟨files, r, [], []⟩ cycles ↔
      Along (step C target)
        (fun q io => io.list = none →
          EarlyExit.Meets (drainFile C target io) (Sound C io) q.files.pending q)
        ⟨files, r, [], []⟩ cycles := by
  refine throughout_iff_along ?_ (fun _ => Inv.honoured) ?_ (inv_start C files r)
  case refine_1 =>
    intro q io _ hq hok hstep
    obtain rfl := Option.some.inj hstep
    exact ⟨accounted_drainOnce hq.accounted, (asideDamaged_drainOnce_iff hq.aside).mpr hok⟩
  case refine_2 =>
    intro q io _ hq hstep hnext
    obtain rfl := Option.some.inj hstep
    exact (asideDamaged_drainOnce_iff hq.aside).mp hnext.aside

/-- Too many files are open at the moment, and a batch is put aside for good. -/
theorem open_files_exhausted : ¬ ∀ (C : Codec) (target : OiRepository (List Batch))
    (files : Files) (r : List Batch) (cycles : List Io),
    Throughout (step C target) (Honoured C files) ⟨files, r, [], []⟩ cycles := by
  intro h
  let C : Codec := codecOf [batchAt 0]
  let file : Bytes := (C.frameChunks (toVecNamed (batchAt 0))).flatten
  let files : Files := AList.singleton "1000-7-0.mpk" file
  let io : Io := ⟨none, fun _ => some (.storage "wal read: Too many open files"), fun _ => true,
    fun _ => none⟩
  have hend : Honoured C files (drainOnce C WalCalls.memoryRepository io ⟨files, [], [], []⟩).2 :=
    (h C WalCalls.memoryRepository files [] [io]).2 _ rfl
  have haside : ("1000-7-0.mpk", file) ∈
      (drainOnce C WalCalls.memoryRepository io ⟨files, [], [], []⟩).2.setAside := by
    decide +kernel
  have hencode : C.encode (batchAt 0) = some (toVecNamed (batchAt 0)) := by decide +kernel
  exact hend.aside _ haside (batchAt 0) (C.read_frame hencode)

end OiTerminal.Storage.Quarantine
