import Mathlib.Data.List.AList

/-!
# Directory entries across a power failure

A directory is what the disk is sure to hold and the changes that no sync has followed. A
power failure undoes any of these changes. A change is atomic: it removes a name, adds
one, or does both.
-/
namespace OiTerminal.Lib.PowerLoss

set_option autoImplicit false

variable {Name Inode : Type} [DecidableEq Name]

abbrev Entries (Name Inode : Type) := AList (fun _ : Name => Inode)

structure Change (Name Inode : Type) where
  removed : Option Name
  added : Option (Name × Inode)
  deriving DecidableEq

namespace Change

def create (name : Name) (inode : Inode) : Change Name Inode := ⟨none, some (name, inode)⟩

def rename (source target : Name) (inode : Inode) : Change Name Inode :=
  ⟨some source, some (target, inode)⟩

def unlink (name : Name) : Change Name Inode := ⟨some name, none⟩

def apply (entries : Entries Name Inode) (c : Change Name Inode) : Entries Name Inode :=
  let entries := match c.removed with
    | some name => entries.erase name
    | none => entries
  match c.added with
  | some (name, inode) => entries.insert name inode
  | none => entries

end Change

structure Directory (Name Inode : Type) where
  durable : Entries Name Inode
  unsynced : List (Change Name Inode)

namespace Directory

/-- What the running system sees. -/
def current (d : Directory Name Inode) : Entries Name Inode :=
  d.unsynced.foldl Change.apply d.durable

def change (d : Directory Name Inode) (c : Change Name Inode) : Directory Name Inode :=
  { d with unsynced := d.unsynced ++ [c] }

/-- What is left when a power failure keeps these of the unsynced changes. -/
def afterFailure (d : Directory Name Inode) (kept : List (Change Name Inode)) :
    Entries Name Inode :=
  kept.foldl Change.apply d.durable

omit [DecidableEq Name] in
theorem mem_unsynced_change {d : Directory Name Inode} {c c' : Change Name Inode} :
    c' ∈ (d.change c).unsynced ↔ c' ∈ d.unsynced ∨ c' = c := by
  unfold change
  rw [List.mem_append, List.mem_singleton]

end Directory

variable {entries : Entries Name Inode} {c : Change Name Inode} {cs : List (Change Name Inode)}
  {name : Name} {inode : Inode}

theorem lookup_apply_added (h : c.added = some (name, inode)) :
    (c.apply entries).lookup name = some inode := by
  unfold Change.apply
  rw [h]
  exact AList.lookup_insert _

theorem lookup_apply_untouched (hremoved : c.removed ≠ some name)
    (hadded : ∀ inode, c.added ≠ some (name, inode)) :
    (c.apply entries).lookup name = entries.lookup name := by
  have herase : (match c.removed with
      | some other => entries.erase other
      | none => entries).lookup name = entries.lookup name := by
    split
    · rename_i other hother
      exact AList.lookup_erase_ne fun heq => hremoved (heq ▸ hother)
    · rfl
  unfold Change.apply
  dsimp only
  split
  · rename_i other i hother
    have hne : name ≠ other := fun heq => hadded i (heq ▸ hother)
    exact (AList.lookup_insert_ne hne).trans herase
  · exact herase

/-- A name that no change adds is found only if it was there before. -/
theorem lookup_foldl_not_added (h : ∀ c ∈ cs, ∀ inode, c.added ≠ some (name, inode))
    (hnone : entries.lookup name = none) : (cs.foldl Change.apply entries).lookup name = none := by
  induction cs generalizing entries with
  | nil => exact hnone
  | cons c rest ih =>
    refine ih (fun c' hc' => h c' (List.mem_cons_of_mem c hc')) ?_
    by_cases hremoved : c.removed = some name
    · have hother : ∀ inode, c.added ≠ some (name, inode) := h c List.mem_cons_self
      unfold Change.apply
      rw [hremoved]
      dsimp only
      split
      · rename_i other i hadd
        have hne : name ≠ other := fun heq => hother i (heq ▸ hadd)
        exact (AList.lookup_insert_ne hne).trans (AList.lookup_erase _ _)
      · exact AList.lookup_erase _ _
    · rw [lookup_apply_untouched hremoved (h c List.mem_cons_self)]
      exact hnone

/-- A name is bound to the inode when every change of it binds it so and there is one. -/
theorem lookup_foldl_added
    (hall : ∀ c ∈ cs, c.added = some (name, inode) ∨
      c.removed ≠ some name ∧ ∀ i, c.added ≠ some (name, i))
    (hone : (∃ c ∈ cs, c.added = some (name, inode)) ∨ entries.lookup name = some inode) :
    (cs.foldl Change.apply entries).lookup name = some inode := by
  induction cs generalizing entries with
  | nil =>
    rcases hone with ⟨c, hc, _⟩ | hbound
    · cases hc
    · exact hbound
  | cons c rest ih =>
    refine ih (fun c' hc' => hall c' (List.mem_cons_of_mem c hc')) ?_
    rcases hall c List.mem_cons_self with hadds | ⟨hremoved, hadded⟩
    · exact .inr (lookup_apply_added hadds)
    · rw [lookup_apply_untouched hremoved hadded]
      refine hone.imp_left fun hex => ?_
      obtain ⟨c', hc', hadds⟩ := hex
      rcases List.mem_cons.mp hc' with rfl | hmem
      · exact absurd hadds (hadded inode)
      · exact ⟨c', hmem, hadds⟩

end OiTerminal.Lib.PowerLoss
