import OiTerminal.Lib.PowerLoss
import OiTerminal.Lib.Transition
import OiTerminal.Storage.BarCodec

/-!
# The log across a power failure

`append` syncs the contents of a file and renames it into place. Neither the rename nor
the creation of the directory is followed by a sync of a directory. Appends run as tasks
of one process, acks and drains come in between, and the process may end and be started
again. The power may fail after any step. `appended`, `acked` and `restarts` record the
history and influence nothing.
-/
namespace OiTerminal.Storage.WalPower

open OiTerminal.Lib.PowerLoss
open OiTerminal.Lib.Transition
open OiTerminal.Storage.BarCodec (codecOf)

set_option autoImplicit false

/-- The names under which a batch is in the directory. -/
inductive FileName where
  | pending (name : WalName)
  | tmp (name : WalName)
  | corrupt (name : WalName)
  deriving DecidableEq

/-- A file that was there when the system came up, or the file of the append with this number. -/
inductive Inode where
  | leftover (k : ℕ)
  | appended (file : ℕ)
  deriving DecidableEq

structure File where
  data : Bytes
  synced : Bool
  deriving DecidableEq

inductive Stage where
  | creating (chunks : List Bytes)
  | writing (chunks : List Bytes)
  | synced
  | renamed
  deriving DecidableEq

/-- An `append` that has not returned. -/
structure Task where
  name : WalName
  file : ℕ
  batch : Batch
  stage : Stage

/-- An `append` that has returned `Ok`. -/
structure Appended where
  name : WalName
  file : ℕ
  batch : Batch

/-- The log of a running process. `next` numbers the appends of all processes. -/
structure FileWal where
  /-- The entry of the directory itself is on the disk. -/
  directoryDurable : Bool
  dir : Directory FileName Inode
  files : Inode → File
  pid : ℕ
  counter : ℕ
  next : ℕ
  tasks : ℕ → Option Task
  appended : List Appended
  acked : List WalName
  restarts : ℕ

inductive Action where
  | append (t : ℕ) (batch : Batch) (nowMs : ℕ)
  | create (t : ℕ)
  | write (t : ℕ)
  | sync (t : ℕ)
  | rename (t : ℕ)
  | returnOk (t : ℕ)
  | returnErr (t : ℕ)
  | ack (name : WalName)
  | quarantine (name : WalName) (ioError : Bool)
  | restart (pid : ℕ)

/-- A directory that is there when the system comes up, or that somebody has made since. -/
structure Found where
  entries : Entries FileName Inode
  durable : Bool

/-- The first `FileWal::open` after the system came up. Without a directory it makes one. -/
def FileWal.open (found : Option Found) (files : Inode → File) (pid : ℕ) : FileWal where
  directoryDurable := (found.map Found.durable).getD false
  dir := ⟨(found.map Found.entries).getD ∅, []⟩
  files := files
  pid := pid
  counter := 0
  next := 0
  tasks := fun _ => none
  appended := []
  acked := []
  restarts := 0

namespace FileWal

def setTask (w : FileWal) (t : ℕ) (task : Option Task) : FileWal :=
  { w with tasks := Function.update w.tasks t task }

def setFile (w : FileWal) (inode : Inode) (file : File) : FileWal :=
  { w with files := Function.update w.files inode file }

end FileWal

def Task.inode (task : Task) : Inode := .appended task.file

/-- The directory change that puts the file of an append in place. -/
def install (name : WalName) (file : ℕ) : Change FileName Inode :=
  .rename (.tmp name) (.pending name) (.appended file)

def step (C : Codec) (w : FileWal) : Action → Option FileWal
  | .append t batch nowMs =>
    match w.tasks t, C.encode batch with
    | none, some payload =>
      let name : WalName := ⟨nowMs, w.pid, w.counter⟩
      some { w.setTask t (some ⟨name, w.next, batch, .creating (C.frameChunks payload)⟩) with
        counter := w.counter + 1
        next := w.next + 1 }
    | _, _ => none
  | .create t =>
    match w.tasks t with
    | some ⟨name, file, batch, .creating chunks⟩ =>
      some { (w.setTask t (some ⟨name, file, batch, .writing chunks⟩)).setFile
          (.appended file) ⟨[], false⟩ with
        dir := w.dir.change (.create (.tmp name) (.appended file)) }
    | _ => none
  | .write t =>
    match w.tasks t with
    | some ⟨name, file, batch, .writing (chunk :: chunks)⟩ =>
      some ((w.setTask t (some ⟨name, file, batch, .writing chunks⟩)).setFile (.appended file)
        ⟨(w.files (.appended file)).data ++ chunk, false⟩)
    | _ => none
  | .sync t =>
    match w.tasks t with
    | some ⟨name, file, batch, .writing []⟩ =>
      some ((w.setTask t (some ⟨name, file, batch, .synced⟩)).setFile (.appended file)
        ⟨(w.files (.appended file)).data, true⟩)
    | _ => none
  | .rename t =>
    match w.tasks t with
    | some ⟨name, file, batch, .synced⟩ =>
      some { w.setTask t (some ⟨name, file, batch, .renamed⟩) with
        dir := w.dir.change (install name file) }
    | _ => none
  | .returnOk t =>
    match w.tasks t with
    | some ⟨name, file, batch, .renamed⟩ =>
      some { w.setTask t none with appended := w.appended ++ [⟨name, file, batch⟩] }
    | _ => none
  | .returnErr t => (w.tasks t).map fun _ => w.setTask t none
  | .ack name =>
    match w.dir.current.lookup (.pending name) with
    | some _ => some { w with
        dir := w.dir.change (.unlink (.pending name))
        acked := name :: w.acked }
    | none => some { w with acked := name :: w.acked }
  | .quarantine name ioError =>
    -- a drain renames a file aside when it cannot read it, for whatever reason
    match w.dir.current.lookup (.pending name) with
    | some inode =>
      if ioError || (C.read (w.files inode).data).toOption.isNone then
        some { w with dir := w.dir.change (.rename (.pending name) (.corrupt name) inode) }
      else none
    | none => none
  | .restart pid =>
    -- the next process finds the directory as it is, and syncs nothing
    some { w with pid, counter := 0, tasks := fun _ => none, restarts := w.restarts + 1 }

/-! ## After the failure -/

/-- A power failure: the unsynced changes that reach the disk all the same, whether the entry of the
directory does, and what unsynced contents turn into. -/
structure Failure where
  kept : List (Change FileName Inode)
  directoryKept : Bool
  garbage : Inode → Bytes

/-- Any of the changes may be undone, and no others happen. -/
def Possible (w : FileWal) (f : Failure) : Prop := f.kept.Sublist w.dir.unsynced

/-- The entries that `open` finds after the restart. -/
def recovered (w : FileWal) (f : Failure) : Entries FileName Inode :=
  if w.directoryDurable || f.directoryKept then w.dir.afterFailure f.kept else ∅

def recoveredData (w : FileWal) (f : Failure) (inode : Inode) : Bytes :=
  if (w.files inode).synced then (w.files inode).data else f.garbage inode

def pendingName : FileName → Option WalName
  | .pending name => some name
  | .tmp _ => none
  | .corrupt _ => none

/-- `pending` skips dotfiles and other suffixes, and sorts. -/
def pending (entries : Entries FileName Inode) : List WalName :=
  (entries.keys.filterMap pendingName).insertionSort fun a b => a.fileName ≤ b.fileName

/-- `read` of a name that `pending` lists. -/
def readBack (C : Codec) (w : FileWal) (f : Failure) (name : WalName) : Except ReadError Batch :=
  match (recovered w f).lookup (.pending name) with
  | some inode => C.read (recoveredData w f inode)
  | none => .error .notFound

/-- Every batch whose append returned and that was not acked is listed and reads back. -/
def Survives (C : Codec) (w : FileWal) (f : Failure) : Prop :=
  ∀ e ∈ w.appended, e.name ∉ w.acked →
    e.name ∈ pending (recovered w f) ∧ readBack C w f e.name = .ok e.batch

/-- The failure undoes neither the rename of such a batch nor the entry of the directory. -/
def RenamesKept (w : FileWal) (f : Failure) : Prop :=
  ∀ e ∈ w.appended, e.name ∉ w.acked →
    install e.name e.file ∈ f.kept ∧ (w.directoryDurable = true ∨ f.directoryKept = true)

/-- No such batch was quarantined by a drain, or the quarantine is undone. -/
def NotQuarantined (w : FileWal) (f : Failure) : Prop :=
  ∀ e ∈ w.appended, e.name ∉ w.acked → ∀ inode,
    Change.rename (.pending e.name) (.corrupt e.name) inode ∉ f.kept

/-- No other append has taken the name of such a batch. Only one of another process can. -/
def NotReplaced (w : FileWal) (f : Failure) : Prop :=
  ∀ e ∈ w.appended, e.name ∉ w.acked → ∀ file, install e.name file ∈ f.kept → file = e.file

/-- No file from before the system came up has the name of such a batch. -/
def NewNames (w : FileWal) : Prop :=
  ∀ e ∈ w.appended, w.dir.durable.lookup (.pending e.name) = none

theorem mem_pending {entries : Entries FileName Inode} {name : WalName} :
    name ∈ pending entries ↔ ∃ inode, entries.lookup (.pending name) = some inode := by
  rw [pending, List.mem_insertionSort, List.mem_filterMap, ← Option.isSome_iff_exists,
    AList.lookup_isSome, AList.mem_keys]
  constructor
  · intro h
    obtain ⟨key, hkey, hname⟩ := h
    cases key with
    | pending name' => exact Option.some.inj hname ▸ hkey
    | tmp name' => cases hname
    | corrupt name' => cases hname
  · exact fun h => ⟨_, h, rfl⟩

/-! ## The invariant -/

/-- The counter of the first process numbers the files. -/
def FileWal.Numbered (w : FileWal) (name : WalName) (file : ℕ) : Prop :=
  w.restarts = 0 → name.n = file

/-- The changes that the processes make to their directory. -/
inductive Made (w : FileWal) : Change FileName Inode → Prop
  | create (name : WalName) (file : ℕ) : Made w (.create (.tmp name) (.appended file))
  | install (name : WalName) (file : ℕ) (h : w.Numbered name file) : Made w (install name file)
  | unlink (name : WalName) (h : name ∈ w.acked) : Made w (.unlink (.pending name))
  | quarantine (name : WalName) (inode : Inode) :
      Made w (.rename (.pending name) (.corrupt name) inode)

theorem Made.mono {w w' : FileWal} {c : Change FileName Inode} (h : Made w c)
    (hacked : ∀ name ∈ w.acked, name ∈ w'.acked) (hrestarts : w.restarts ≤ w'.restarts) :
    Made w' c := by
  cases h with
  | create name file => exact .create name file
  | install name file hnumbered =>
    exact .install name file fun hzero => hnumbered (Nat.le_zero.mp (hzero ▸ hrestarts))
  | unlink name hname => exact .unlink name (hacked name hname)
  | quarantine name inode => exact .quarantine name inode

/-- What a task has done to its file. -/
def Task.Holds (C : Codec) (w : FileWal) (task : Task) : Prop :=
  match task.stage with
  | .creating chunks => C.read chunks.flatten = .ok task.batch
  | .writing chunks => C.read ((w.files task.inode).data ++ chunks.flatten) = .ok task.batch
  | .synced => (w.files task.inode).synced = true ∧
      C.read (w.files task.inode).data = .ok task.batch
  | .renamed => (w.files task.inode).synced = true ∧
      C.read (w.files task.inode).data = .ok task.batch ∧
      install task.name task.file ∈ w.dir.unsynced

structure Inv (C : Codec) (w : FileWal) : Prop where
  made : ∀ c ∈ w.dir.unsynced, Made w c
  counted : w.restarts = 0 → w.counter = w.next
  below : ∀ t task, w.tasks t = some task → task.file < w.next ∧ w.Numbered task.name task.file
  apart : ∀ t t' task task', w.tasks t = some task → w.tasks t' = some task' →
    task.file = task'.file → t = t'
  holds : ∀ t task, w.tasks t = some task → task.Holds C w
  appended : ∀ e ∈ w.appended, e.file < w.next ∧
    (∀ t task, w.tasks t = some task → task.file ≠ e.file) ∧
    (w.files (.appended e.file)).synced = true ∧
    C.read (w.files (.appended e.file)).data = .ok e.batch ∧
    install e.name e.file ∈ w.dir.unsynced

variable {C : Codec} {w w' : FileWal} {f : Failure}

theorem inv_open (found : Option Found) (files : Inode → File) (pid : ℕ) :
    Inv C (.open found files pid) where
  made := by intro c hc; cases hc
  counted _ := rfl
  below := by intro t task h; cases h
  apart := by intro t t' task task' h; cases h
  holds := by intro t task h; cases h
  appended := by intro e he; cases he

/-- A name that was appended and not acked leads to the file of its append as soon as the
rename is kept and no quarantine is. -/
theorem Inv.lookup_recovered (h : Inv C w) (hpossible : Possible w f) {e : Appended}
    (hacked : e.name ∉ w.acked) (hinstall : install e.name e.file ∈ f.kept)
    (hquarantine : ∀ inode, Change.rename (.pending e.name) (.corrupt e.name) inode ∉ f.kept)
    (hreplaced : ∀ file, install e.name file ∈ f.kept → file = e.file) :
    (w.dir.afterFailure f.kept).lookup (.pending e.name) = some (.appended e.file) := by
  refine lookup_foldl_added (fun c hc => ?_) (.inl ⟨_, hinstall, rfl⟩)
  cases h.made c (hpossible.subset hc) with
  | create name file => exact .inr ⟨by simp [Change.create], by simp [Change.create]⟩
  | install name file =>
    by_cases hname : name = e.name
    · subst hname
      exact .inl (by rw [hreplaced file hc]; rfl)
    · exact .inr ⟨by simp [install, Change.rename], by simp [install, Change.rename, hname]⟩
  | unlink name hname =>
    have hne : name ≠ e.name := fun heq => hacked (heq ▸ hname)
    exact .inr ⟨by simp [Change.unlink, hne], by simp [Change.unlink]⟩
  | quarantine name inode =>
    have hne : name ≠ e.name := fun heq => hquarantine inode (heq ▸ hc)
    exact .inr ⟨by simp [Change.rename, hne], by simp [Change.rename]⟩

theorem Inv.survives (h : Inv C w) (hpossible : Possible w f) (hkept : RenamesKept w f)
    (hnot : NotQuarantined w f) (hreplaced : NotReplaced w f) : Survives C w f := by
  intro e he hacked
  obtain ⟨hinstall, hdirectory⟩ := hkept e he hacked
  obtain ⟨_, _, hsynced, hread, _⟩ := h.appended e he
  have hentries : recovered w f = w.dir.afterFailure f.kept :=
    if_pos (Bool.or_eq_true_iff.mpr hdirectory)
  have hlookup := h.lookup_recovered hpossible hacked hinstall (hnot e he hacked)
    (hreplaced e he hacked)
  constructor
  · rw [mem_pending, hentries]
    exact ⟨_, hlookup⟩
  · unfold readBack
    rw [hentries, hlookup]
    show C.read (recoveredData w f _) = _
    unfold recoveredData
    rw [if_pos hsynced]
    exact hread

/-- An undone rename loses the batch. -/
theorem Inv.renamesKept (h : Inv C w) (hpossible : Possible w f) (hreplaced : NotReplaced w f)
    (hnew : NewNames w) (hsurvives : Survives C w f) : RenamesKept w f := by
  intro e he hacked
  obtain ⟨inode, hlookup⟩ := mem_pending.mp (hsurvives e he hacked).1
  unfold recovered at hlookup
  split at hlookup
  case isFalse => cases hlookup
  case isTrue hdirectory =>
    refine ⟨?_, Bool.or_eq_true_iff.mp hdirectory⟩
    by_contra hlost
    have hnone : (w.dir.afterFailure f.kept).lookup (.pending e.name) = none := by
      refine lookup_foldl_not_added (fun c hc i hadded => ?_) (hnew e he)
      cases h.made c (hpossible.subset hc) with
      | create name file => cases hadded
      | install name file =>
        have hname : name = e.name :=
          FileName.pending.inj (Prod.mk.inj (Option.some.inj hadded)).1
        subst hname
        exact hlost (hreplaced e he hacked file hc ▸ hc)
      | unlink name _ => cases hadded
      | quarantine name i' => cases hadded
    rw [hnone] at hlookup
    cases hlookup

/-- A process gives no name twice. -/
theorem Inv.notReplaced (h : Inv C w) (hpossible : Possible w f) (hfirst : w.restarts = 0) :
    NotReplaced w f := by
  have hnumbered : ∀ name file, install name file ∈ w.dir.unsynced → name.n = file := by
    intro name file hmem
    have hmade := h.made _ hmem
    generalize hchange : install name file = c at hmade
    cases hmade with
    | create name' file' => cases hchange
    | install name' file' hnumbered =>
      cases hchange
      exact hnumbered hfirst
    | unlink name' _ => cases hchange
    | quarantine name' inode => cases hchange
  intro e he _ file hkept
  obtain ⟨_, _, _, _, hinstall⟩ := h.appended e he
  rw [← hnumbered _ _ (hpossible.subset hkept), hnumbered _ _ hinstall]

/-! ## Every step keeps it -/

/-- After one task has changed, a task is the changed one or one that was there. -/
theorem update_eq_some {tasks : ℕ → Option Task} {t t' : ℕ} {new : Option Task} {task : Task}
    (h : Function.update tasks t new t' = some task) :
    t' = t ∧ new = some task ∨ t' ≠ t ∧ tasks t' = some task := by
  by_cases heq : t' = t
  · subst heq
    rw [Function.update_self] at h
    exact .inl ⟨rfl, h⟩
  · rw [Function.update_of_ne heq] at h
    exact .inr ⟨heq, h⟩

theorem Task.Holds.congr {task : Task} (h : task.Holds C w)
    (hfile : w'.files task.inode = w.files task.inode)
    (hsub : ∀ c ∈ w.dir.unsynced, c ∈ w'.dir.unsynced) : task.Holds C w' := by
  unfold Task.Holds at h ⊢
  rw [hfile]
  cases hstage : task.stage with
  | creating chunks => rw [hstage] at h; exact h
  | writing chunks => rw [hstage] at h; exact h
  | synced => rw [hstage] at h; exact h
  | renamed =>
    rw [hstage] at h
    exact ⟨h.1, h.2.1, hsub _ h.2.2⟩

/-- The step neither draws a name nor starts a process. -/
structure SameNumbers (w w' : FileWal) : Prop where
  counter : w'.counter = w.counter
  next : w'.next = w.next
  restarts : w'.restarts = w.restarts

theorem SameNumbers.numbered (h : SameNumbers w w') {name : WalName} {file : ℕ}
    (hw : w.Numbered name file) : w'.Numbered name file :=
  fun hzero => hw (h.restarts ▸ hzero)

theorem SameNumbers.counted (h : SameNumbers w w') (hw : w.restarts = 0 → w.counter = w.next) :
    w'.restarts = 0 → w'.counter = w'.next := by
  rw [h.counter, h.next, h.restarts]
  exact hw

/-- An ack or a quarantine only changes the directory. -/
theorem Inv.grow (h : Inv C w) (hfiles : w'.files = w.files) (htasks : w'.tasks = w.tasks)
    (hnumbers : SameNumbers w w') (happended : w'.appended = w.appended)
    (hmade : ∀ c ∈ w'.dir.unsynced, Made w' c)
    (hsub : ∀ c ∈ w.dir.unsynced, c ∈ w'.dir.unsynced) : Inv C w' where
  made := hmade
  counted := hnumbers.counted h.counted
  below t task ht := by
    rw [htasks] at ht
    rw [hnumbers.next]
    exact (h.below t task ht).imp id hnumbers.numbered
  apart := by rw [htasks]; exact h.apart
  holds t task ht := by
    rw [htasks] at ht
    exact (h.holds t task ht).congr (by rw [hfiles]) hsub
  appended := by
    rw [happended, hnumbers.next, htasks, hfiles]
    intro e he
    obtain ⟨hbelow, hother, hsynced, hread, hinstall⟩ := h.appended e he
    exact ⟨hbelow, hother, hsynced, hread, hsub _ hinstall⟩

/-- A step of a task touches its own file and may add one change. -/
theorem Inv.advance (h : Inv C w) {t : ℕ} {task task' : Task} (ht : w.tasks t = some task)
    (htasks : w'.tasks = Function.update w.tasks t (some task'))
    (hname : task'.name = task.name) (hfile : task'.file = task.file)
    (hfiles : ∀ i, i ≠ task.inode → w'.files i = w.files i)
    (hnumbers : SameNumbers w w') (happended : w'.appended = w.appended)
    (hacked : w'.acked = w.acked)
    (hdir : ∀ c ∈ w'.dir.unsynced, c ∈ w.dir.unsynced ∨ Made w c)
    (hsub : ∀ c ∈ w.dir.unsynced, c ∈ w'.dir.unsynced) (hholds : task'.Holds C w') :
    Inv C w' := by
  have hold : ∀ t' other, w'.tasks t' = some other → t' = t ∧ other = task' ∨
      t' ≠ t ∧ w.tasks t' = some other := by
    intro t' other hother
    rw [htasks] at hother
    rcases update_eq_some hother with ⟨heq, hnew⟩ | hsame
    · exact .inl ⟨heq, (Option.some.inj hnew).symm⟩
    · exact .inr hsame
  have hbefore : ∀ t' other, w'.tasks t' = some other → ∃ before, w.tasks t' = some before ∧
      before.name = other.name ∧ before.file = other.file := by
    intro t' other hother
    rcases hold t' other hother with ⟨rfl, rfl⟩ | ⟨_, hw⟩
    · exact ⟨task, ht, hname.symm, hfile.symm⟩
    · exact ⟨other, hw, rfl, rfl⟩
  refine ⟨fun c hc => ?_, hnumbers.counted h.counted, fun t' other hother => ?_,
    fun t₁ t₂ a b ha hb hab => ?_, fun t' other hother => ?_, fun e he => ?_⟩
  · exact ((hdir c hc).elim (h.made c) id).mono (by rw [hacked]; exact fun _ h => h)
      hnumbers.restarts.ge
  · obtain ⟨before, hw, hn, hf⟩ := hbefore t' other hother
    rw [hnumbers.next, ← hn, ← hf]
    exact (h.below t' before hw).imp id hnumbers.numbered
  · obtain ⟨a', ha', _, hfa⟩ := hbefore t₁ a ha
    obtain ⟨b', hb', _, hfb⟩ := hbefore t₂ b hb
    exact h.apart t₁ t₂ a' b' ha' hb' (by rw [hfa, hfb]; exact hab)
  · rcases hold t' other hother with ⟨_, rfl⟩ | ⟨hne, hw⟩
    · exact hholds
    · refine (h.holds t' other hw).congr (hfiles _ fun hinode => hne ?_) hsub
      exact h.apart t' t other task hw ht (Inode.appended.inj hinode)
  · rw [happended] at he
    obtain ⟨hbelow, hother, hsynced, hread, hinstall⟩ := h.appended e he
    have hsame : w'.files (.appended e.file) = w.files (.appended e.file) :=
      hfiles _ fun hinode => hother t task ht (Inode.appended.inj hinode).symm
    refine ⟨hnumbers.next ▸ hbelow, fun t' other hw' => ?_, by rw [hsame]; exact hsynced,
      by rw [hsame]; exact hread, hsub _ hinstall⟩
    obtain ⟨before, hw, _, hf⟩ := hbefore t' other hw'
    rw [← hf]
    exact hother t' before hw

/-- A task that ends leaves the others as they are. -/
theorem Inv.finish (h : Inv C w) (t : ℕ) : Inv C (w.setTask t none) := by
  have hold : ∀ t' task, (w.setTask t none).tasks t' = some task → w.tasks t' = some task := by
    intro t' task htask
    rcases update_eq_some htask with ⟨_, hnone⟩ | ⟨_, hw⟩
    · cases hnone
    · exact hw
  exact ⟨fun c hc => (h.made c hc).mono (fun _ h => h) (le_refl _), h.counted,
    fun t' task ht => h.below t' task (hold t' task ht),
    fun t₁ t₂ a b ha hb => h.apart t₁ t₂ a b (hold t₁ a ha) (hold t₂ b hb),
    fun t' task ht => (h.holds t' task (hold t' task ht)).congr rfl fun _ hc => hc,
    fun e he => by
      obtain ⟨hbelow, hother, hrest⟩ := h.appended e he
      exact ⟨hbelow, fun t' task ht => hother t' task (hold t' task ht), hrest⟩⟩

/-- A new call draws a number that no file has. -/
theorem Inv.append (h : Inv C w) {t : ℕ} {batch : Batch} {nowMs : ℕ}
    (hstep : step C w (.append t batch nowMs) = some w') : Inv C w' := by
  simp only [step] at hstep
  split at hstep
  · rename_i payload hnone hpayload
    obtain rfl := Option.some.inj hstep
    have hold : ∀ t' task, Function.update w.tasks t (some (⟨⟨nowMs, w.pid, w.counter⟩, w.next,
        batch, .creating (C.frameChunks payload)⟩ : Task)) t' = some task →
        t' = t ∧ task = ⟨⟨nowMs, w.pid, w.counter⟩, w.next, batch,
          .creating (C.frameChunks payload)⟩ ∨ t' ≠ t ∧ w.tasks t' = some task := by
      intro t' task htask
      rcases update_eq_some htask with ⟨heq, hnew⟩ | hsame
      · exact .inl ⟨heq, (Option.some.inj hnew).symm⟩
      · exact .inr hsame
    refine ⟨fun c hc => (h.made c hc).mono (fun _ h => h) (le_refl _),
      fun hzero => congrArg (· + 1) (h.counted hzero), fun t' task ht' => ?_,
      fun t₁ t₂ a b ha hb hab => ?_, fun t' task ht' => ?_, fun e he => ?_⟩
    · rcases hold t' task ht' with ⟨_, rfl⟩ | ⟨_, hw⟩
      · exact ⟨Nat.lt_succ_self _, h.counted⟩
      · exact ⟨(h.below t' task hw).1.trans (Nat.lt_succ_self _), (h.below t' task hw).2⟩
    · rcases hold t₁ a ha with ⟨rfl, rfl⟩ | ⟨_, hwa⟩
      · rcases hold t₂ b hb with ⟨rfl, _⟩ | ⟨_, hwb⟩
        · rfl
        · exact absurd hab.symm (h.below t₂ b hwb).1.ne
      · rcases hold t₂ b hb with ⟨rfl, rfl⟩ | ⟨_, hwb⟩
        · exact absurd hab (h.below t₁ a hwa).1.ne
        · exact h.apart t₁ t₂ a b hwa hwb hab
    · rcases hold t' task ht' with ⟨_, rfl⟩ | ⟨_, hw⟩
      · exact C.read_frame hpayload
      · exact (h.holds t' task hw).congr rfl fun _ hc => hc
    · obtain ⟨hbelow, hother, hrest⟩ := h.appended e he
      refine ⟨hbelow.trans (Nat.lt_succ_self _), fun t' task ht' => ?_, hrest⟩
      rcases hold t' task ht' with ⟨_, rfl⟩ | ⟨_, hw⟩
      · exact hbelow.ne'
      · exact hother t' task hw
  · cases hstep

/-- A call that returns leaves a synced file, and its rename among the changes. -/
theorem Inv.returned (h : Inv C w) {t : ℕ} {name : WalName} {file : ℕ} {batch : Batch}
    (ht : w.tasks t = some ⟨name, file, batch, .renamed⟩) :
    Inv C { w.setTask t none with appended := w.appended ++ [⟨name, file, batch⟩] } := by
  obtain ⟨hsynced, hread, hinstall⟩ : (w.files (.appended file)).synced = true ∧
    C.read (w.files (.appended file)).data = .ok batch ∧
    install name file ∈ w.dir.unsynced := h.holds t _ ht
  have hfinish := h.finish t
  refine ⟨fun c hc => (hfinish.made c hc).mono (fun _ h => h) (le_refl _), hfinish.counted,
    hfinish.below, hfinish.apart, fun t' task ht' => ?_, fun e he => ?_⟩
  · exact (hfinish.holds t' task ht').congr rfl fun _ hc => hc
  · rcases List.mem_append.mp he with hold | hnew
    · exact hfinish.appended e hold
    · rw [List.mem_singleton.mp hnew]
      refine ⟨(h.below t _ ht).1, fun t' task ht' hsame => ?_, hsynced, hread, hinstall⟩
      rcases update_eq_some ht' with ⟨_, hnone⟩ | ⟨hne, hw⟩
      · cases hnone
      · exact hne (h.apart t' t task _ hw ht hsame)

/-- The file is empty, and all the chunks are still to be written. -/
theorem Inv.create (h : Inv C w) {t : ℕ} (hstep : step C w (.create t) = some w') :
    Inv C w' := by
  simp only [step] at hstep
  split at hstep
  · rename_i name file batch chunks ht
    obtain rfl := Option.some.inj hstep
    have hholds : C.read chunks.flatten = .ok batch := h.holds t _ ht
    refine h.advance ht rfl rfl rfl (fun i hi => Function.update_of_ne hi _ _) ⟨rfl, rfl, rfl⟩
      rfl rfl (fun c hc => ?_) (fun c hc => Directory.mem_unsynced_change.mpr (.inl hc)) ?_
    · rcases Directory.mem_unsynced_change.mp hc with hold | rfl
      · exact .inl hold
      · exact .inr (.create name file)
    · show C.read ((Function.update w.files (.appended file) ⟨[], false⟩
        (.appended file)).data ++ chunks.flatten) = .ok batch
      rw [Function.update_self]
      exact hholds
  · cases hstep

theorem Inv.write (h : Inv C w) {t : ℕ} (hstep : step C w (.write t) = some w') :
    Inv C w' := by
  simp only [step] at hstep
  split at hstep
  · rename_i name file batch chunk chunks ht
    obtain rfl := Option.some.inj hstep
    have hholds : C.read ((w.files (.appended file)).data ++ (chunk :: chunks).flatten) =
        .ok batch := h.holds t _ ht
    refine h.advance ht rfl rfl rfl (fun i hi => Function.update_of_ne hi _ _) ⟨rfl, rfl, rfl⟩
      rfl rfl (fun c hc => .inl hc) (fun c hc => hc) ?_
    show C.read ((Function.update w.files (.appended file) _
      (.appended file)).data ++ chunks.flatten) = .ok batch
    rw [Function.update_self, List.append_assoc]
    exact hholds
  · cases hstep

/-- All the chunks are written, so the file that is synced holds the batch. -/
theorem Inv.sync (h : Inv C w) {t : ℕ} (hstep : step C w (.sync t) = some w') :
    Inv C w' := by
  simp only [step] at hstep
  split at hstep
  · rename_i name file batch ht
    obtain rfl := Option.some.inj hstep
    have hholds : C.read ((w.files (.appended file)).data ++ ([] : List Bytes).flatten) =
        .ok batch := h.holds t _ ht
    rw [List.flatten_nil, List.append_nil] at hholds
    refine h.advance ht rfl rfl rfl (fun i hi => Function.update_of_ne hi _ _) ⟨rfl, rfl, rfl⟩
      rfl rfl (fun c hc => .inl hc) (fun c hc => hc) ?_
    show (Function.update w.files (.appended file) _ (.appended file)).synced = true ∧
      C.read (Function.update w.files (.appended file) _ (.appended file)).data = .ok batch
    rw [Function.update_self]
    exact ⟨rfl, hholds⟩
  · cases hstep

theorem Inv.rename (h : Inv C w) {t : ℕ} (hstep : step C w (.rename t) = some w') :
    Inv C w' := by
  simp only [step] at hstep
  split at hstep
  · rename_i name file batch ht
    obtain rfl := Option.some.inj hstep
    obtain ⟨hsynced, hread⟩ : (w.files (.appended file)).synced = true ∧
      C.read (w.files (.appended file)).data = .ok batch := h.holds t _ ht
    refine h.advance ht rfl rfl rfl (fun i _ => rfl) ⟨rfl, rfl, rfl⟩ rfl rfl (fun c hc => ?_)
      (fun c hc => Directory.mem_unsynced_change.mpr (.inl hc))
      ⟨hsynced, hread, Directory.mem_unsynced_change.mpr (.inr rfl)⟩
    rcases Directory.mem_unsynced_change.mp hc with hold | rfl
    · exact .inl hold
    · exact .inr (.install name file (h.below t _ ht).2)
  · cases hstep

theorem Inv.ack (h : Inv C w) {name : WalName} (hstep : step C w (.ack name) = some w') :
    Inv C w' := by
  simp only [step] at hstep
  split at hstep
  · obtain rfl := Option.some.inj hstep
    refine h.grow rfl rfl ⟨rfl, rfl, rfl⟩ rfl (fun c hc => ?_)
      fun c hc => Directory.mem_unsynced_change.mpr (.inl hc)
    rcases Directory.mem_unsynced_change.mp hc with hold | rfl
    · exact (h.made c hold).mono (fun _ => List.mem_cons_of_mem name) (le_refl _)
    · exact .unlink name List.mem_cons_self
  · obtain rfl := Option.some.inj hstep
    exact h.grow rfl rfl ⟨rfl, rfl, rfl⟩ rfl
      (fun c hc => (h.made c hc).mono (fun _ => List.mem_cons_of_mem name) (le_refl _))
      fun c hc => hc

theorem Inv.quarantine (h : Inv C w) {name : WalName} {ioError : Bool}
    (hstep : step C w (.quarantine name ioError) = some w') : Inv C w' := by
  simp only [step] at hstep
  split at hstep
  · split at hstep
    · obtain rfl := Option.some.inj hstep
      refine h.grow rfl rfl ⟨rfl, rfl, rfl⟩ rfl (fun c hc => ?_)
        fun c hc => Directory.mem_unsynced_change.mpr (.inl hc)
      rcases Directory.mem_unsynced_change.mp hc with hold | rfl
      · exact (h.made c hold).mono (fun _ h => h) (le_refl _)
      · exact .quarantine name _
    · cases hstep
  · cases hstep

/-- The next process has no task, and the files and the directory are as they were. -/
theorem Inv.restart (h : Inv C w) (pid : ℕ) :
    Inv C { w with pid, counter := 0, tasks := fun _ => none, restarts := w.restarts + 1 } where
  made c hc := (h.made c hc).mono (fun _ h => h) (Nat.le_succ _)
  counted hzero := absurd hzero (Nat.succ_ne_zero _)
  below t task ht := by cases ht
  apart t t' task task' ht := by cases ht
  holds t task ht := by cases ht
  appended e he := by
    obtain ⟨hbelow, _, hrest⟩ := h.appended e he
    refine ⟨hbelow, fun t task ht => ?_, hrest⟩
    cases ht

theorem inv_step {a : Action} (h : Inv C w) (hstep : step C w a = some w') : Inv C w' := by
  cases a with
  | append t batch nowMs => exact h.append hstep
  | create t => exact h.create hstep
  | write t => exact h.write hstep
  | sync t => exact h.sync hstep
  | rename t => exact h.rename hstep
  | returnOk t =>
    simp only [step] at hstep
    split at hstep
    · rename_i name file batch ht
      obtain rfl := Option.some.inj hstep
      exact h.returned ht
    · cases hstep
  | returnErr t =>
    simp only [step, Option.map_eq_some_iff] at hstep
    obtain ⟨_, _, rfl⟩ := hstep
    exact h.finish t
  | ack name => exact h.ack hstep
  | quarantine name ioError => exact h.quarantine hstep
  | restart pid =>
    obtain rfl := Option.some.inj hstep
    exact h.restart pid

/-- What the log keeps through a failure, where no batch is quarantined or replaced under its name:
everything if the renames and the directory are kept, and with new names only then. A name is
replaced only after a restart. -/
def KeptExactly (C : Codec) (w : FileWal) : Prop :=
  ∀ f, Possible w f → NotQuarantined w f →
    (NotReplaced w f → (RenamesKept w f → Survives C w f) ∧
      (NewNames w → Survives C w f → RenamesKept w f)) ∧
    (w.restarts = 0 → NotReplaced w f)

/-- At every point of every run, with any number of processes after each other, the appended batches
survive a power failure that undoes neither their renames nor the entry of the directory. -/
theorem appended_survive_iff_kept (C : Codec) (found : Option Found) (files : Inode → File)
    (pid : ℕ) (acts : List Action) :
    Throughout (step C) (KeptExactly C) (.open found files pid) acts :=
  throughout_of_step (fun _ _ _ h hs => inv_step h hs)
    (fun _ h _ hpossible hnot =>
      ⟨fun hreplaced => ⟨fun hkept => h.survives hpossible hkept hnot hreplaced,
        fun hnew => h.renamesKept hpossible hreplaced hnew⟩, h.notReplaced hpossible⟩)
    (inv_open found files pid)

-- one process makes the directory and ends, the next appends: the rename is kept, the directory not
example : (run (step (codecOf [batchAt 0])) (.open none (fun _ => ⟨[], false⟩) 1)
    [.restart 2, .append 0 (batchAt 0) 0, .create 0, .write 0, .write 0, .write 0, .sync 0, .rename 0,
      .returnOk 0]).map (fun w => (w.appended.map Appended.batch,
        pending (recovered w ⟨w.dir.unsynced, false, fun _ => []⟩))) = some ([batchAt 0], []) := by
  decide +kernel

/-- An append that returned, and a power failure that undoes its rename. -/
theorem undone_rename_loses_batch : ¬ ∀ (C : Codec) (found : Option Found)
    (files : Inode → File) (pid : ℕ) (acts : List Action),
    Throughout (step C) (fun w => ∀ f, Possible w f → Survives C w f)
      (.open found files pid) acts := by
  intro hall
  let C := codecOf [batchAt 0]
  let acts : List Action := [.append 0 (batchAt 0) 0, .create 0, .write 0, .write 0, .write 0,
    .sync 0, .rename 0, .returnOk 0]
  let f : Failure := ⟨[], true, fun _ => []⟩
  have hrun : (run (step C) (.open (some ⟨∅, true⟩) (fun _ => ⟨[], false⟩) 1) acts).map
      (fun w => (w.appended.map fun e => (e.name, e.batch), w.acked, pending (recovered w f))) =
      some ([(⟨0, 1, 0⟩, batchAt 0)], [], []) := by decide +kernel
  obtain ⟨w, hw, hproj⟩ := Option.map_eq_some_iff.mp hrun
  obtain ⟨happended, hrest⟩ := Prod.mk.inj hproj
  obtain ⟨hacked, hpending⟩ := Prod.mk.inj hrest
  have hsurvives := throughout_run (hall C (some ⟨∅, true⟩) _ 1 acts) hw f (List.nil_sublist _)
  have hmem : ((⟨0, 1, 0⟩ : WalName), batchAt 0) ∈ w.appended.map fun e => (e.name, e.batch) := by
    rw [happended]
    exact List.mem_cons_self
  obtain ⟨e, he, _⟩ := List.mem_map.mp hmem
  have hlisted := (hsurvives e he (by rw [hacked]; exact List.not_mem_nil)).1
  rw [hpending] at hlisted
  cases hlisted

end OiTerminal.Storage.WalPower
