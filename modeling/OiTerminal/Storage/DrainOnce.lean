import OiTerminal.Lib.EarlyExit
import OiTerminal.Storage.Decorators
import OiTerminal.Storage.WalDir

/-!
# One cycle of the WAL drainer

The pending files are taken one after the other. One that cannot be read is put aside, one
that can goes to the target and is then removed. A failure of the target or of the removal
ends the cycle. What stopped the reading is not looked at: an error of the file system counts
as damaged content.
-/
namespace OiTerminal.Storage.DrainOnce

open OiTerminal.Core
open OiTerminal.Lib
open OiTerminal.Storage.ClickHouse
open OiTerminal.Storage.Decorators
open OiTerminal.Storage.WalDir

set_option autoImplicit false

/-- What the file system does in the course of a cycle: the errors of listing, reading and
removing, as they are reported, and whether a rename succeeds. -/
structure Io where
  list : Option CoreError
  read : String → Option CoreError
  renames : String → Bool
  remove : String → Option CoreError

/-- `replayed` and `setAside` record what the target has accepted and what has been renamed,
and influence nothing. -/
structure Queue (τ : Type) where
  files : Files
  target : τ
  replayed : List (String × Batch)
  setAside : List (String × Bytes)

/-- All errors of `read` are of one type. -/
def contentError : ReadError → CoreError
  | .notFound => .storage "wal read"
  | .crcMismatch _ _ => .storage "wal crc mismatch"
  | .decode => .storage "wal decode"

def read (C : Codec) (io : Io) (files : Files) (path : String) : Except CoreError Batch :=
  match io.read path with
  | some e => .error e
  | none =>
    match files.lookup path with
    | none => .error (contentError .notFound)
    | some bytes => (C.read bytes).mapError contentError

def asideName (path : String) : String := withExtension path "corrupt"

section

variable {τ : Type} (C : Codec) (target : OiRepository τ) (io : Io)

/-- A rename that fails is logged and leaves the file in place. -/
def quarantine (path : String) (q : Queue τ) : Queue τ :=
  match q.files.lookup path with
  | none => q
  | some bytes =>
    if io.renames path then
      { q with
        files := q.files.rename path (asideName path)
        setAside := q.setAside ++ [(path, bytes)] }
    else q

/-- A missing file is not an error. -/
def ack (path : String) : Op (Queue τ) Unit := fun q =>
  match q.files.lookup path, io.remove path with
  | none, _ => (.ok (), q)
  | some _, some e => (.error e, q)
  | some _, none => (.ok (), { q with files := q.files.erase path })

/-- The body of the loop. An error ends it. -/
def drainFile (path : String) : Op (Queue τ) Unit := fun q =>
  match read C io q.files path with
  | .error _ => (.ok (), quarantine io path q)
  | .ok snaps =>
    match target.upsertSnapshots snaps q.target with
    | (.ok (), t) =>
      ack io path { q with target := t, replayed := q.replayed ++ [(path, snaps)] }
    | (.error e, t) => (.error e, { q with target := t })

def drainOnce : Op (Queue τ) Unit := fun q =>
  match io.list with
  | some e => (.error e, q)
  | none => EarlyExit.loop (drainFile C target io) q.files.pending q

end

/-- The batch in a file, as its bytes have it. -/
def decoded (C : Codec) (files : Files) (path : String) : Option Batch :=
  (files.lookup path).bind fun bytes => (C.read bytes).toOption

variable {τ : Type} {C : Codec} {target : OiRepository τ} {io : Io} {q : Queue τ}
  {path : String} {snaps : Batch}

theorem read_of_io_ok (h : io.read path = none) :
    (read C io q.files path).toOption = decoded C q.files path := by
  unfold read decoded
  rw [h]
  cases q.files.lookup path with
  | none => rfl
  | some bytes => cases hread : C.read bytes <;> simp [hread, Except.mapError, Except.toOption]

theorem lookup_quarantine_ne {name : String} (hname : name ≠ path)
    (haside : name ≠ asideName path) :
    (quarantine io path q).files.lookup name = q.files.lookup name := by
  unfold quarantine
  cases q.files.lookup path with
  | none => rfl
  | some bytes =>
    dsimp only
    split
    · exact Files.lookup_rename_ne hname haside
    · rfl

/-- A file that is put aside keeps its content under a name that is not listed. -/
theorem quarantine_renamed {bytes : Bytes} (hpath : isPending path = true)
    (hbytes : q.files.lookup path = some bytes) (hrename : io.renames path = true) :
    (quarantine io path q).files.lookup path = none ∧
      (quarantine io path q).files.lookup (asideName path) = some bytes := by
  unfold quarantine
  rw [hbytes]
  dsimp only
  rw [if_pos hrename]
  exact ⟨Files.lookup_rename_src (ne_corrupt_of_isPending hpath), Files.lookup_rename_dst hbytes⟩

theorem lookup_of_read (h : read C io q.files path = .ok snaps) :
    ∃ bytes, q.files.lookup path = some bytes ∧ C.read bytes = .ok snaps := by
  unfold read at h
  split at h
  · cases h
  · split at h
    · cases h
    case h_2 bytes hbytes =>
      refine ⟨bytes, hbytes, ?_⟩
      cases hread : C.read bytes with
      | error e =>
        rw [hread] at h
        cases h
      | ok batch =>
        rw [hread] at h
        exact congrArg _ (Except.ok.inj h)

theorem read_eq_ok {bytes : Bytes} (hio : io.read path = none)
    (hbytes : q.files.lookup path = some bytes) (hbatch : C.read bytes = .ok snaps) :
    read C io q.files path = .ok snaps := by
  unfold read
  rw [hio, hbytes]
  dsimp only
  rw [hbatch]
  rfl

/-- The queue after a file that was replayed and removed. -/
def Queue.replay (q : Queue τ) (path : String) (snaps : Batch) (t : τ) : Queue τ where
  files := q.files.erase path
  target := t
  replayed := q.replayed ++ [(path, snaps)]
  setAside := q.setAside

/-- What one turn of the loop may come to. -/
inductive Turn (C : Codec) (target : OiRepository τ) (io : Io) (path : String) (q : Queue τ) :
    Except CoreError Unit × Queue τ → Prop where
  | unreadable {e : CoreError} (hread : read C io q.files path = .error e) :
      Turn C target io path q (.ok (), quarantine io path q)
  | refused {snaps : Batch} {t : τ} {e : CoreError} (hread : read C io q.files path = .ok snaps)
      (h : target.upsertSnapshots snaps q.target = (.error e, t)) :
      Turn C target io path q (.error e, { q with target := t })
  | stuck {snaps : Batch} {t : τ} {e : CoreError} (hread : read C io q.files path = .ok snaps)
      (h : target.upsertSnapshots snaps q.target = (.ok (), t)) (hremove : io.remove path = some e) :
      Turn C target io path q
        (.error e, { q with target := t, replayed := q.replayed ++ [(path, snaps)] })
  | drained {snaps : Batch} {t : τ} (hread : read C io q.files path = .ok snaps)
      (h : target.upsertSnapshots snaps q.target = (.ok (), t)) :
      Turn C target io path q (.ok (), q.replay path snaps t)

theorem drainFile_turn (C : Codec) (target : OiRepository τ) (io : Io) (path : String)
    (q : Queue τ) : Turn C target io path q (drainFile C target io path q) := by
  unfold drainFile
  cases hread : read C io q.files path with
  | error e => exact .unreadable hread
  | ok snaps =>
    obtain ⟨bytes, hbytes, _⟩ := lookup_of_read hread
    dsimp only
    cases htarget : target.upsertSnapshots snaps q.target with
    | mk answer t =>
      cases answer with
      | error e => exact .refused hread htarget
      | ok done =>
        unfold ack
        dsimp only
        rw [hbytes]
        cases hremove : io.remove path with
        | some e => exact .stuck hread htarget hremove
        | none => exact .drained hread htarget

/-- The loop goes on after a file that cannot be read, and after one that is replayed. -/
theorem drainFile_ok {u : Queue τ} (h : drainFile C target io path q = (.ok (), u)) :
    (∃ e, read C io q.files path = .error e ∧ u = quarantine io path q) ∨
      ∃ snaps t, read C io q.files path = .ok snaps ∧
        target.upsertSnapshots snaps q.target = (.ok (), t) ∧ u = q.replay path snaps t := by
  have hturn := drainFile_turn C target io path q
  rw [h] at hturn
  cases hturn with
  | unreadable hread => exact .inl ⟨_, hread, rfl⟩
  | drained hread htarget => exact .inr ⟨_, _, hread, htarget, rfl⟩

/-- It ends where the target fails or the file cannot be removed, with all files as they
were. -/
theorem drainFile_error {u : Queue τ} {e : CoreError}
    (h : drainFile C target io path q = (.error e, u)) :
    u.files = q.files ∧ ∃ snaps, read C io q.files path = .ok snaps ∧
      (target.upsertSnapshots snaps q.target = (.error e, u.target) ∨
        target.upsertSnapshots snaps q.target = (.ok (), u.target) ∧ io.remove path = some e) := by
  have hturn := drainFile_turn C target io path q
  rw [h] at hturn
  cases hturn with
  | refused hread htarget => exact ⟨rfl, _, hread, .inl htarget⟩
  | stuck hread htarget hremove => exact ⟨rfl, _, hread, .inr ⟨htarget, hremove⟩⟩

/-! ## A prefix of the queue -/

/-- What becomes of a file that the cycle handles: one with a batch is removed, any other is
put aside with its content. -/
def Settled (C : Codec) (io : Io) (before after : Files) (path : String) : Prop :=
  match decoded C before path with
  | some _ => after.lookup path = none
  | none =>
    if io.renames path then
      after.lookup path = none ∧ isPending (asideName path) = false ∧
        after.lookup (asideName path) = before.lookup path
    else after.lookup path = before.lookup path

/-- The calls that reach a repository with these batches. -/
def upserts (batches : List Batch) : List Call := batches.map .upsertSnapshots

/-- The state of a cycle that has handled the files of `front`, each once. -/
structure Handled {ρ : Type} (C : Codec) (R : OiRepository ρ) (io : Io)
    (q : Queue (ρ × List Call)) (front : List String) (t : Queue (ρ × List Call)) : Prop where
  accepted : EarlyExit.Passes R.upsertSnapshots (front.filterMap (decoded C q.files)) q.target.1
    t.target.1
  calls : t.target.2 = q.target.2 ++ upserts (front.filterMap (decoded C q.files))
  settled : ∀ p ∈ front, Settled C io q.files t.files p
  frame : ∀ name, name ∉ front → (∀ p ∈ front, name ≠ asideName p) →
    t.files.lookup name = q.files.lookup name

section

variable {ρ : Type} {R : OiRepository ρ} {start t u : Queue (ρ × List Call)}
  {front : List String} {before after : Files}

theorem recorded_upsert {snaps : Batch} {s s' : ρ × List Call} {answer : Except CoreError Unit}
    (h : R.recorded.upsertSnapshots snaps s = (answer, s')) :
    R.upsertSnapshots snaps s.1 = (answer, s'.1) ∧ s'.2 = s.2 ++ [.upsertSnapshots snaps] := by
  change R.recorded.call (.upsertSnapshots snaps) s = (answer, s') at h
  rw [OiRepository.call_recorded] at h
  obtain ⟨rfl, rfl⟩ := Prod.mk.inj h
  exact ⟨rfl, rfl⟩

theorem Settled.congr {after' : Files} {p : String} (h : Settled C io before after p)
    (hp : after'.lookup p = after.lookup p)
    (haside : after'.lookup (asideName p) = after.lookup (asideName p)) :
    Settled C io before after' p := by
  unfold Settled at h ⊢
  rw [hp, haside]
  exact h

/-- A later file leaves a settled one alone. -/
theorem Settled.of_other {after' : Files} {p x : String} (h : Settled C io before after p)
    (hp : isPending p = true) (hx : isPending x = true) (hne : p ≠ x)
    (hsame : ∀ name, name ≠ x → name ≠ asideName x → after'.lookup name = after.lookup name) :
    Settled C io before after' p := by
  apply h.congr
  · exact hsame p hne (ne_corrupt_of_isPending hp)
  · apply hsame
    · exact (ne_corrupt_of_isPending hx).symm
    · exact fun heq => hne (corrupt_injOn hp hx heq)

/-- What has not been handled is as it was. -/
theorem Handled.lookup_pending (h : Handled C R io start front t)
    (hpath : isPending path = true) (hnew : path ∉ front) :
    t.files.lookup path = start.files.lookup path :=
  h.frame path hnew fun _ _ => ne_corrupt_of_isPending hpath

theorem Handled.decoded_eq (h : Handled C R io start front t) (hpath : isPending path = true)
    (hnew : path ∉ front) : decoded C t.files path = decoded C start.files path := by
  unfold decoded
  rw [h.lookup_pending hpath hnew]

/-- One more file, which changes at most its own entry and its name aside. -/
theorem Handled.extend (h : Handled C R io start front t)
    (hfront : ∀ p ∈ front, isPending p = true) (hpath : isPending path = true)
    (hnew : path ∉ front)
    (hsame : ∀ name, name ≠ path → name ≠ asideName path →
      u.files.lookup name = t.files.lookup name)
    (haccepted : EarlyExit.Passes R.upsertSnapshots (decoded C start.files path).toList t.target.1
      u.target.1)
    (hcalls : u.target.2 = t.target.2 ++ upserts (decoded C start.files path).toList)
    (hself : Settled C io start.files u.files path) :
    Handled C R io start (front ++ [path]) u := by
  have hbatches : (front ++ [path]).filterMap (decoded C start.files) =
      front.filterMap (decoded C start.files) ++ (decoded C start.files path).toList := by
    rw [List.filterMap_append]
    cases hdecoded : decoded C start.files path <;> simp [hdecoded]
  constructor
  case accepted =>
    rw [hbatches]
    exact h.accepted.append haccepted
  case calls =>
    rw [hbatches, hcalls, h.calls, upserts, upserts, upserts, List.map_append, List.append_assoc]
  case settled =>
    intro p hp
    rcases List.mem_append.mp hp with hold | hlast
    · have hne : p ≠ path := fun heq => hnew (heq ▸ hold)
      exact (h.settled p hold).of_other (hfront p hold) hpath hne hsame
    · rw [List.mem_singleton.mp hlast]
      exact hself
  case frame =>
    intro name hname haside
    rw [List.mem_append, List.mem_singleton, not_or] at hname
    rw [hsame name hname.2 (haside path (by simp))]
    exact h.frame name hname.1 fun p hp => haside p (List.mem_append_left _ hp)

/-- A file without a batch is put aside and goes nowhere else. -/
theorem Handled.quarantine (h : Handled C R io start front t)
    (hfront : ∀ p ∈ front, isPending p = true) (hpath : path ∈ start.files.pending)
    (hnew : path ∉ front) (hnone : decoded C start.files path = none) :
    Handled C R io start (front ++ [path]) (quarantine io path t) := by
  obtain ⟨hpending, bytes, hbytes⟩ := Files.mem_pending.mp hpath
  have hlookup := (h.lookup_pending hpending hnew).trans hbytes
  have htarget : (DrainOnce.quarantine io path t).target = t.target := by
    unfold DrainOnce.quarantine
    rw [hlookup]
    dsimp only
    split <;> rfl
  apply h.extend hfront hpending hnew
  case hsame => exact fun name hname haside => lookup_quarantine_ne hname haside
  case haccepted =>
    rw [hnone, htarget]
    exact .nil _
  case hcalls =>
    rw [hnone, htarget]
    exact (List.append_nil _).symm
  case hself =>
    unfold Settled
    rw [hnone]
    dsimp only
    split
    case isTrue hrename =>
      obtain ⟨hgone, haside⟩ := quarantine_renamed hpending hlookup hrename
      exact ⟨hgone, not_isPending_corrupt path, haside.trans hbytes.symm⟩
    case isFalse hstays =>
      unfold DrainOnce.quarantine
      rw [hlookup]
      dsimp only
      rw [if_neg hstays]
      exact hlookup.trans hbytes.symm

/-- A file with a batch goes to the target once and is removed. -/
theorem Handled.replay (h : Handled C R io start front t)
    (hfront : ∀ p ∈ front, isPending p = true) (hpath : isPending path = true)
    (hnew : path ∉ front) (hsome : decoded C start.files path = some snaps)
    {t' : ρ × List Call} (htarget : R.recorded.upsertSnapshots snaps t.target = (.ok (), t')) :
    Handled C R io start (front ++ [path]) (t.replay path snaps t') := by
  obtain ⟨hupsert, hcall⟩ := recorded_upsert htarget
  apply h.extend hfront hpath hnew
  case hsame => exact fun name hname _ => AList.lookup_erase_ne hname
  case haccepted =>
    rw [hsome]
    exact .cons hupsert (.nil _)
  case hcalls =>
    rw [hsome]
    exact hcall
  case hself =>
    unfold Settled
    rw [hsome]
    exact AList.lookup_erase path t.files

/-- One turn of the loop, where the file can be read. -/
theorem Handled.step (h : Handled C R io start front t)
    (hfront : ∀ p ∈ front, isPending p = true) (hpath : path ∈ start.files.pending)
    (hnew : path ∉ front) (hio : io.read path = none)
    (hbody : drainFile C R.recorded io path t = (.ok (), u)) :
    Handled C R io start (front ++ [path]) u := by
  have hpending := (Files.mem_pending.mp hpath).1
  have hread := read_of_io_ok (C := C) (q := t) hio
  rw [h.decoded_eq hpending hnew] at hread
  rcases drainFile_ok hbody with ⟨e, herror, rfl⟩ | ⟨snaps, t', hok, htarget, rfl⟩
  · rw [herror] at hread
    exact h.quarantine hfront hpath hnew hread.symm
  · rw [hok] at hread
    exact h.replay hfront hpending hnew hread.symm htarget

/-- The files before the one that ends the loop have been handled. -/
theorem handled_of_passes {tail : List String} (hio : ∀ p, io.read p = none)
    (horder : start.files.pending = front ++ tail)
    (hpasses : EarlyExit.Passes (drainFile C R.recorded io) front start t) :
    Handled C R io start front t := by
  have hnodup := Files.pending_nodup start.files
  rw [horder] at hnodup
  apply hpasses.induct
  case hs =>
    refine ⟨.nil _, (List.append_nil _).symm, fun p hp => ?_, fun _ _ _ => rfl⟩
    cases hp
  case hstep =>
    intro done x later t u hsplit hdone hbody
    rw [hsplit] at horder hnodup
    have hx : x ∈ start.files.pending := by
      rw [horder]
      simp
    have hfront : ∀ p ∈ done, isPending p = true := by
      intro p hp
      have hmem : p ∈ start.files.pending := by
        rw [horder]
        simp [hp]
      exact (Files.mem_pending.mp hmem).1
    have hnew : x ∉ done := by
      rw [List.append_assoc] at hnodup
      exact fun hmem => List.disjoint_of_nodup_append hnodup hmem (by simp)
    exact hdone.step hfront hx hnew (hio x) hbody

/-- The others are still pending, with their content. -/
theorem Handled.left {tail : List String} (h : Handled C R io start front t)
    (horder : start.files.pending = front ++ tail) :
    ∀ p ∈ tail, p ∈ t.files.pending ∧ t.files.lookup p = start.files.lookup p := by
  intro p hp
  have hnodup := Files.pending_nodup start.files
  have hmem : p ∈ start.files.pending := by
    rw [horder]
    exact List.mem_append_right _ hp
  rw [horder] at hnodup
  have hlookup : t.files.lookup p = start.files.lookup p :=
    h.lookup_pending (Files.mem_pending.mp hmem).1
      fun hhandled => List.disjoint_of_nodup_append hnodup hhandled hp
  refine ⟨?_, hlookup⟩
  rw [Files.mem_pending, hlookup]
  exact Files.mem_pending.mp hmem

/-- How a cycle ends after the files that it has handled. `r` is the target at that point,
and `log` the calls up to there. -/
inductive Ending (C : Codec) (R : OiRepository ρ) (io : Io) (before : Files) (r : ρ)
    (log : List Call) : List String → Except CoreError Unit → ρ × List Call → Prop where
  | drained : Ending C R io before r log [] (.ok ()) (r, log)
  | targetFailed {f : String} {later : List String} {b : Batch} {e : CoreError} {r' : ρ}
      (hb : decoded C before f = some b) (h : R.upsertSnapshots b r = (.error e, r')) :
      Ending C R io before r log (f :: later) (.error e) (r', log ++ upserts [b])
  | removeFailed {f : String} {later : List String} {b : Batch} {e : CoreError} {r' : ρ}
      (hb : decoded C before f = some b) (h : R.upsertSnapshots b r = (.ok (), r'))
      (hremove : io.remove f = some e) :
      Ending C R io before r log (f :: later) (.error e) (r', log ++ upserts [b])

/-- A cycle has handled the files of a prefix of the queue and left the others. -/
structure CyclePrefix (C : Codec) (R : OiRepository ρ) (io : Io) (q : Queue (ρ × List Call))
    (handled tail : List String) (r : ρ)
    (result : Except CoreError Unit × Queue (ρ × List Call)) : Prop where
  order : q.files.pending = handled ++ tail
  accepted : EarlyExit.Passes R.upsertSnapshots (handled.filterMap (decoded C q.files))
    q.target.1 r
  settled : ∀ p ∈ handled, Settled C io q.files result.2.files p
  left : ∀ p ∈ tail, p ∈ result.2.files.pending ∧ result.2.files.lookup p = q.files.lookup p
  ending : Ending C R io q.files r
    (q.target.2 ++ upserts (handled.filterMap (decoded C q.files))) tail result.1 result.2.target

/-- The loop stops at a file whose batch it can read, with the files as they were. -/
theorem Handled.stop {e : CoreError} (h : Handled C R io start front t) (hio : io.read path = none)
    (hlookup : t.files.lookup path = start.files.lookup path)
    (hbody : drainFile C R.recorded io path t = (.error e, u)) (later : List String) :
    u.files = t.files ∧ Ending C R io start.files t.target.1
      (start.target.2 ++ upserts (front.filterMap (decoded C start.files))) (path :: later)
      (.error e) u.target := by
  obtain ⟨hfiles, snaps, hread, hstop⟩ := drainFile_error hbody
  refine ⟨hfiles, ?_⟩
  have hdecoded : decoded C start.files path = some snaps := by
    have hsame : decoded C start.files path = decoded C t.files path := by
      unfold decoded
      rw [hlookup]
    have hsnaps := congrArg Except.toOption hread
    rw [read_of_io_ok hio] at hsnaps
    exact hsame.trans hsnaps
  rw [← h.calls, ← Prod.mk.eta (p := u.target)]
  rcases hstop with htarget | ⟨htarget, hremove⟩
  · obtain ⟨hupsert, hcall⟩ := recorded_upsert htarget
    rw [hcall]
    exact .targetFailed hdecoded hupsert
  · obtain ⟨hupsert, hcall⟩ := recorded_upsert htarget
    rw [hcall]
    exact .removeFailed hdecoded hupsert hremove

/-- Whatever the files hold and whatever the target answers: the cycle handles a prefix of
the queue and nothing else. -/
theorem drainOnce_prefix (C : Codec) (R : OiRepository ρ) (renames : String → Bool)
    (remove : String → Option CoreError) (q : Queue (ρ × List Call)) :
    ∃ handled tail r, CyclePrefix C R ⟨none, fun _ => none, renames, remove⟩ q handled tail r
      (drainOnce C R.recorded ⟨none, fun _ => none, renames, remove⟩ q) := by
  obtain ⟨handled, tail, mid, horder, hpasses, hends⟩ := EarlyExit.loop_split
    (drainFile C R.recorded ⟨none, fun _ => none, renames, remove⟩) q.files.pending q
  have hmid := handled_of_passes (fun _ => rfl) horder hpasses
  have hleft := hmid.left horder
  refine ⟨handled, tail, mid.target.1, ?_⟩
  show CyclePrefix C R _ q handled tail mid.target.1 (EarlyExit.loop _ _ q)
  generalize EarlyExit.loop _ _ q = result at hends
  cases hends with
  | done =>
    refine ⟨horder, hmid.accepted, hmid.settled, hleft, ?_⟩
    rw [← hmid.calls]
    exact .drained
  | @failed f later e u hbody =>
    obtain ⟨hfiles, hending⟩ :=
      hmid.stop rfl (hleft f List.mem_cons_self).2 hbody later
    refine ⟨horder, hmid.accepted, ?_, ?_, hending⟩
    · rw [hfiles]
      exact hmid.settled
    · rw [hfiles]
      exact hleft

end

end OiTerminal.Storage.DrainOnce
