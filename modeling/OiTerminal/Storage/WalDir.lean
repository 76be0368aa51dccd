import OiTerminal.Storage.Wal

/-!
# The directory of the write-ahead log

Files go by their names. Writes in flight are dotfiles, a file that is put aside loses the
suffix, and only the names that have it are pending.
-/
namespace OiTerminal.Storage.WalDir

set_option autoImplicit false

abbrev Files := AList (fun _ : String => Bytes)

/-- `pending()` skips dotfiles and anything without the suffix. -/
def isPending (name : String) : Bool :=
  !(['.'].isPrefixOf name.toList) && WalName.pendingSuffix.toList.isSuffixOf name.toList

/-- Pending files, in the order of their names. -/
def Files.pending (files : Files) : List String :=
  (files.keys.filter isPending).insertionSort fun a b => a ≤ b

def tmpName (finalName : String) : String := "." ++ finalName ++ ".tmp"

/-- What stands before the last dot, unless that begins the name. -/
def fileStem (name : List Char) : List Char :=
  match name.reverse.dropWhile (· ≠ '.') with
  | [] => name
  | _ :: before => if before = [] then name else before.reverse

def withExtension (name ext : String) : String :=
  String.ofList (fileStem name.toList ++ '.' :: ext.toList)

/-- The new name takes the content over, whatever it named before. -/
def Files.rename (files : Files) (src dst : String) : Files :=
  match files.lookup src with
  | none => files
  | some bytes => (files.erase src).insert dst bytes

namespace Files

variable {files : Files} {name src dst : String} {bytes : Bytes}

theorem mem_pending : name ∈ files.pending ↔
    isPending name = true ∧ ∃ bytes, files.lookup name = some bytes := by
  rw [pending, List.mem_insertionSort, List.mem_filter, ← AList.mem_keys, ← AList.lookup_isSome,
    Option.isSome_iff_exists, and_comm]

theorem pending_nodup (files : Files) : files.pending.Nodup :=
  (List.perm_insertionSort _ _).nodup_iff.mpr (files.keys_nodup.filter _)

theorem lookup_rename_dst (h : files.lookup src = some bytes) :
    (files.rename src dst).lookup dst = some bytes := by
  unfold rename
  rw [h]
  exact AList.lookup_insert _

/-- A file filled under one name and moved to another has its contents there. -/
theorem lookup_rename_insert (files : Files) (src dst : String) (bytes : Bytes) :
    (Files.rename (files.insert src bytes) src dst).lookup dst = some bytes :=
  lookup_rename_dst (AList.lookup_insert _)

theorem lookup_rename_src (h : src ≠ dst) : (files.rename src dst).lookup src = none := by
  unfold rename
  cases hsrc : files.lookup src with
  | none => exact hsrc
  | some bytes => exact (AList.lookup_insert_ne h).trans (AList.lookup_erase src files)

theorem lookup_rename_ne (hsrc : name ≠ src) (hdst : name ≠ dst) :
    (files.rename src dst).lookup name = files.lookup name := by
  unfold rename
  cases files.lookup src with
  | none => rfl
  | some bytes => exact (AList.lookup_insert_ne hdst).trans (AList.lookup_erase_ne hsrc)

end Files

/-- The stem and the suffix of a pending name. -/
theorem stem_of_isPending {name : String} (h : isPending name = true) :
    name.toList = fileStem name.toList ++ WalName.pendingSuffix.toList := by
  obtain ⟨hdot, hsuffix⟩ := Bool.and_eq_true_iff.mp h
  obtain ⟨stem, hstem⟩ := List.isSuffixOf_iff_suffix.mp hsuffix
  have hne : stem ≠ [] := by
    rintro rfl
    rw [← hstem] at hdot
    exact absurd hdot (by decide)
  have hreverse : name.toList.reverse.dropWhile (· ≠ '.') = '.' :: stem.reverse := by
    have hsuffixReverse : WalName.pendingSuffix.toList.reverse = ['k', 'p', 'm', '.'] := by decide
    rw [← hstem, List.reverse_append, hsuffixReverse]
    rfl
  unfold fileStem
  rw [hreverse]
  dsimp only
  rw [if_neg (by simpa using hne), List.reverse_reverse, hstem]

/-- A file that is put aside is no longer listed. -/
theorem not_isPending_corrupt (name : String) :
    isPending (withExtension name "corrupt") = false := by
  have hsuffix : WalName.pendingSuffix.toList.isSuffixOf
      (withExtension name "corrupt").toList = false := by
    rw [Bool.eq_false_iff, ne_eq, List.isSuffixOf_iff_suffix]
    intro h
    obtain ⟨front, hfront⟩ := h
    have hlast := congrArg List.getLast? hfront
    unfold withExtension at hlast
    have hmpk : WalName.pendingSuffix.toList.getLast? = some 'k' := by decide
    have hcorrupt : ('.' :: "corrupt".toList).getLast? = some 't' := by decide
    rw [String.toList_ofList, List.getLast?_append, List.getLast?_append, hmpk, hcorrupt] at hlast
    exact absurd (Option.some.inj hlast) (by decide)
  unfold isPending
  rw [hsuffix, Bool.and_false]

theorem ne_corrupt_of_isPending {name other : String} (h : isPending name = true) :
    name ≠ withExtension other "corrupt" := by
  rintro rfl
  rw [not_isPending_corrupt] at h
  cases h

/-- Two pending files are put aside under two names. -/
theorem corrupt_injOn {name other : String} (h : isPending name = true)
    (h' : isPending other = true)
    (heq : withExtension name "corrupt" = withExtension other "corrupt") : name = other := by
  have hstems : fileStem name.toList = fileStem other.toList :=
    List.append_cancel_right (String.ofList_injective heq)
  apply String.toList_injective
  rw [stem_of_isPending h, stem_of_isPending h', hstems]

/-- The names that `append` gives. -/
theorem isPending_fileName (name : WalName) : isPending name.fileName = true := by
  have hname : name.fileName.toList = Nat.toDigits 10 name.tsMs ++
      ("-" ++ WalName.hex name.pid ++ "-" ++ WalName.hex name.n).toList ++
        WalName.pendingSuffix.toList := by
    have hts : (toString name.tsMs).toList = Nat.toDigits 10 name.tsMs := String.toList_ofList
    unfold WalName.fileName
    simp only [String.toList_append, List.append_assoc, hts]
  -- the name begins with a digit
  obtain ⟨c, rest, hdigits⟩ := List.exists_cons_of_ne_nil
    (Nat.toDigits_ne_nil (b := 10) (n := name.tsMs))
  have hc : c ≠ '.' := by
    rintro rfl
    have hmem : '.' ∈ Nat.toDigits 10 name.tsMs := hdigits ▸ List.mem_cons_self
    exact absurd (Nat.isDigit_of_mem_toDigits (by decide) (le_refl 10) hmem) (by decide)
  have hdot : ['.'].isPrefixOf name.fileName.toList = false := by
    rw [hname, hdigits, List.cons_append, List.cons_append, List.isPrefixOf_cons_cons]
    simp [hc.symm]
  have hsuffix : WalName.pendingSuffix.toList.isSuffixOf name.fileName.toList = true := by
    rw [List.isSuffixOf_iff_suffix, hname]
    exact List.suffix_append _ _
  unfold isPending
  rw [hdot, hsuffix]
  rfl

theorem not_isPending_tmpName (finalName : String) : isPending (tmpName finalName) = false := by
  have hdot : ['.'].isPrefixOf (tmpName finalName).toList = true := by
    unfold tmpName
    simp [String.toList_append]
  unfold isPending
  rw [hdot]
  rfl

theorem ne_tmpName_of_isPending {name finalName : String} (h : isPending name = true) :
    name ≠ tmpName finalName := by
  rintro rfl
  rw [not_isPending_tmpName] at h
  cases h

/-- A write in flight changes no pending file. -/
theorem lookup_insert_tmpName {name finalName : String} {bytes : Bytes} (files : Files)
    (h : isPending name = true) :
    (files.insert (tmpName finalName) bytes).lookup name = files.lookup name :=
  AList.lookup_insert_ne (ne_tmpName_of_isPending h)

end OiTerminal.Storage.WalDir
