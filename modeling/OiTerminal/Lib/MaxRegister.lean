import Mathlib.Order.Bounds.Basic
import Mathlib.Order.Lattice
import OiTerminal.Lib.Transition

/-!
# A register that is raised by compare-and-swap

A client reads the register, and while its own value is larger it tries to exchange what it has read
for that value. An exchange fails when the register has changed in between, and may fail without a
reason. The accesses of all clients to the register happen in one order.
-/
namespace OiTerminal.Lib.MaxRegister

open OiTerminal.Lib.Transition

set_option autoImplicit false

/-- Where a client stands: with the value it brings, and with what it has read last. -/
inductive Phase (α : Type*) where
  | idle
  | entered (x : α)
  | exchanging (x prev : α)
  | raised (x : α)
  | read (x seen : α)

/-- The value of a client that still has to raise the register. -/
def Phase.pending {α : Type*} : Phase α → Option α
  | .entered x | .exchanging x _ => some x
  | _ => none

/-- The value that a client has brought. -/
def Phase.own {α : Type*} : Phase α → Option α
  | .idle => none
  | .entered x | .exchanging x _ | .raised x | .read x _ => some x

/-- `samples` is the history of the values that clients have brought, and `readings` that of the
values that they have read at the end. -/
structure State (ι α : Type*) where
  register : α
  phase : ι → Phase α
  samples : List α
  readings : List α

inductive Act (ι α : Type*) where
  | enter (i : ι) (x : α)
  | load (i : ι)
  | compareExchange (i : ι) (spurious : Bool)
  | read (i : ι)

section

variable {ι α : Type*} [LinearOrder α]

/-- The condition of the loop, for a client that has just read the register. -/
def compare (x prev : α) : Phase α := if prev < x then .exchanging x prev else .raised x

def start (init : α) : State ι α := ⟨init, fun _ => .idle, [], []⟩

def State.at [DecidableEq ι] (s : State ι α) (i : ι) (phase : Phase α) : State ι α :=
  { s with phase := Function.update s.phase i phase }

def step [DecidableEq ι] (s : State ι α) : Act ι α → Option (State ι α)
  | .enter i x =>
    match s.phase i with
    | .idle => some { s.at i (.entered x) with samples := x :: s.samples }
    | _ => none
  | .load i =>
    match s.phase i with
    | .entered x => some (s.at i (compare x s.register))
    | _ => none
  | .compareExchange i spurious =>
    match s.phase i with
    | .exchanging x prev =>
      if s.register = prev ∧ spurious = false then
        some { s.at i (.raised x) with register := x }
      else some (s.at i (compare x s.register))
    | _ => none
  | .read i =>
    match s.phase i with
    | .raised x =>
      some { s.at i (.read x s.register) with readings := s.readings ++ [s.register] }
    | _ => none

/-- What is known of a client. -/
def Phase.Sound (init : α) (s : State ι α) : Phase α → Prop
  | .idle => True
  | .entered x => x ∈ s.samples
  | .exchanging x prev => x ∈ s.samples ∧ prev < x ∧ prev ≤ s.register
  | .raised x => x ∈ s.samples ∧ x ≤ s.register
  | .read x seen => x ∈ s.samples ∧ x ≤ seen ∧ seen ≤ s.register ∧ seen ∈ init :: s.samples

/-- The register holds the initial value or a sample, and a sample above it is still to be raised by
its client. It has not fallen since it was read. -/
structure Inv (init : α) (s : State ι α) : Prop where
  member : s.register ∈ init :: s.samples
  lower : init ≤ s.register
  clients : ∀ i, (s.phase i).Sound init s
  covered : ∀ x ∈ s.samples, s.register < x → ∃ i, (s.phase i).pending = some x
  sorted : s.readings.Pairwise fun x y => x ≤ y
  rising : ∀ x ∈ s.readings, x ≤ s.register

variable {init : α} {s s' : State ι α}

theorem inv_start : Inv init (start init : State ι α) where
  member := List.mem_cons_self
  lower := le_refl init
  clients _ := trivial
  covered _ h := absurd h List.not_mem_nil
  sorted := .nil
  rising _ h := absurd h List.not_mem_nil

/-- What is known of a client stays known when the register rises and samples are added. -/
theorem Phase.Sound.mono {phase : Phase α} (h : phase.Sound init s)
    (hregister : s.register ≤ s'.register) (hsamples : s.samples ⊆ s'.samples) :
    phase.Sound init s' := by
  cases phase with
  | idle => trivial
  | entered x => exact hsamples h
  | exchanging x prev => exact ⟨hsamples h.1, h.2.1, h.2.2.trans hregister⟩
  | raised x => exact ⟨hsamples h.1, h.2.trans hregister⟩
  | read x seen =>
    obtain ⟨hmem, hle, hseen, hmember⟩ := h
    exact ⟨hsamples hmem, hle, hseen.trans hregister, List.cons_subset_cons init hsamples hmember⟩

/-- The register is read. -/
theorem Inv.read (h : Inv init s) :
    Inv init { s with readings := s.readings ++ [s.register] } where
  member := h.member
  lower := h.lower
  clients i := (h.clients i).mono (le_refl _) (List.Subset.refl _)
  covered := h.covered
  sorted := by
    refine List.pairwise_append.mpr ⟨h.sorted, List.pairwise_singleton _ _, fun x hx y hy => ?_⟩
    rw [List.mem_singleton.mp hy]
    exact h.rising x hx
  rising x hx := by
    rcases List.mem_append.mp hx with hold | hnew
    · exact h.rising x hold
    · rw [List.mem_singleton.mp hnew]

/-- Without a client that still has to raise it, the register is the greatest value. -/
theorem Inv.isGreatest (h : Inv init s) (hsettled : ∀ i, (s.phase i).pending = none) :
    IsGreatest {x | x ∈ init :: s.samples} s.register := by
  refine ⟨h.member, fun x hx => ?_⟩
  rcases List.mem_cons.mp hx with rfl | hsample
  · exact h.lower
  · by_contra hgt
    obtain ⟨i, hi⟩ := h.covered x hsample (not_le.mp hgt)
    rw [hsettled i] at hi
    cases hi

variable [DecidableEq ι]

/-- A client comes in with one value and keeps it. -/
theorem own_step {a : Act ι α} (hstep : step s a = some s') :
    (∃ i x, a = .enter i x ∧ s'.samples = x :: s.samples ∧
        ∀ j, (s'.phase j).own = if j = i then some x else (s.phase j).own) ∨
      (∀ i x, a ≠ .enter i x) ∧ s'.samples = s.samples ∧
        ∀ j, (s'.phase j).own = (s.phase j).own := by
  have hat : ∀ (i : ι) (phase : Phase α) (j : ι),
      ((Function.update s.phase i phase) j).own = if j = i then phase.own else (s.phase j).own := by
    intro i phase j
    by_cases hj : j = i
    · rw [hj, Function.update_self, if_pos rfl]
    · rw [Function.update_of_ne hj, if_neg hj]
  have hsame : ∀ {i : ι} {phase : Phase α}, (s.phase i).own = phase.own →
      ∀ j, ((Function.update s.phase i phase) j).own = (s.phase j).own := by
    intro i phase hown j
    rw [hat, ← hown]
    split
    case isTrue hj => rw [hj]
    case isFalse => rfl
  have hcompare : ∀ x prev : α, (compare x prev).own = some x := by
    intro x prev
    unfold MaxRegister.compare
    split <;> rfl
  cases a with
  | enter i x =>
    unfold step at hstep
    dsimp only at hstep
    split at hstep
    case h_2 => cases hstep
    case h_1 =>
      obtain rfl := Option.some.inj hstep
      exact .inl ⟨i, x, rfl, rfl, hat i (.entered x)⟩
  | load i =>
    unfold step at hstep
    dsimp only at hstep
    split at hstep
    case h_2 => cases hstep
    case h_1 x hentered =>
      obtain rfl := Option.some.inj hstep
      refine .inr ⟨fun _ _ h => (nomatch h), rfl, hsame ?_⟩
      rw [hentered, hcompare]
      rfl
  | compareExchange i spurious =>
    unfold step at hstep
    dsimp only at hstep
    split at hstep
    case h_2 => cases hstep
    case h_1 x prev hexchanging =>
      refine .inr ⟨fun _ _ h => (nomatch h), ?_⟩
      split at hstep
      · obtain rfl := Option.some.inj hstep
        refine ⟨rfl, hsame ?_⟩
        rw [hexchanging]
        rfl
      · obtain rfl := Option.some.inj hstep
        refine ⟨rfl, hsame ?_⟩
        rw [hexchanging, hcompare]
        rfl
  | read i =>
    unfold step at hstep
    dsimp only at hstep
    split at hstep
    case h_2 => cases hstep
    case h_1 x hraised =>
      obtain rfl := Option.some.inj hstep
      refine .inr ⟨fun _ _ h => (nomatch h), rfl, hsame ?_⟩
      rw [hraised]
      rfl

/-- One client moves on, and the register does not fall. -/
theorem Inv.move (h : Inv init s) {i : ι} {phase : Phase α} {register : α}
    (hregister : s.register ≤ register) (hmember : register ∈ init :: s.samples)
    (hsound : phase.Sound init ⟨register, s.phase, s.samples, s.readings⟩)
    (hpending : ∀ x, (s.phase i).pending = some x → phase.pending = some x ∨ x ≤ register) :
    Inv init { s.at i phase with register := register } where
  member := hmember
  lower := h.lower.trans hregister
  clients j := by
    change (Function.update s.phase i phase j).Sound init _
    by_cases hj : j = i
    · subst hj
      rw [Function.update_self]
      exact hsound.mono (le_refl register) (List.Subset.refl _)
    · rw [Function.update_of_ne hj]
      exact (h.clients j).mono hregister (List.Subset.refl _)
  covered x hx hlt := by
    change register < x at hlt
    obtain ⟨j, hj⟩ := h.covered x hx (hregister.trans_lt hlt)
    by_cases hji : j = i
    · subst hji
      rcases hpending x hj with hstill | hle
      · refine ⟨j, ?_⟩
        change (Function.update s.phase j phase j).pending = some x
        rw [Function.update_self]
        exact hstill
      · exact absurd hle (not_le_of_gt hlt)
    · refine ⟨j, ?_⟩
      change (Function.update s.phase i phase j).pending = some x
      rw [Function.update_of_ne hji]
      exact hj
  sorted := h.sorted
  rising x hx := (h.rising x hx).trans hregister

/-- A client comes in with a value. -/
theorem Inv.enter (h : Inv init s) {i : ι} (x : α) (hidle : s.phase i = .idle) :
    Inv init { s.at i (.entered x) with samples := x :: s.samples } where
  member := List.cons_subset_cons init (List.subset_cons_self x _) h.member
  lower := h.lower
  clients j := by
    change (Function.update s.phase i (.entered x) j).Sound init _
    by_cases hj : j = i
    · subst hj
      rw [Function.update_self]
      exact List.mem_cons_self
    · rw [Function.update_of_ne hj]
      exact (h.clients j).mono (le_refl _) (List.subset_cons_self x _)
  covered y hy hlt := by
    rcases List.mem_cons.mp hy with rfl | hold
    · refine ⟨i, ?_⟩
      change (Function.update s.phase i (.entered y) i).pending = some y
      rw [Function.update_self]
      rfl
    · obtain ⟨j, hj⟩ := h.covered y hold hlt
      have hji : j ≠ i := by
        rintro rfl
        rw [hidle] at hj
        cases hj
      refine ⟨j, ?_⟩
      change (Function.update s.phase i (.entered x) j).pending = some y
      rw [Function.update_of_ne hji]
      exact hj
  sorted := h.sorted
  rising := h.rising

/-- A client that has read the register goes on in the loop or leaves it. -/
theorem Inv.compare (h : Inv init s) {i : ι} {x : α} (hx : x ∈ s.samples)
    (hpending : (s.phase i).pending = some x) : Inv init (s.at i (compare x s.register)) := by
  refine h.move (le_refl _) h.member ?_ fun y hy => ?_
  · unfold MaxRegister.compare
    split
    case isTrue hlt => exact ⟨hx, hlt, le_refl _⟩
    case isFalse hge => exact ⟨hx, not_lt.mp hge⟩
  · obtain rfl := Option.some.inj (hpending.symm.trans hy)
    unfold MaxRegister.compare
    split
    case isTrue => exact .inl rfl
    case isFalse hge => exact .inr (not_lt.mp hge)

theorem inv_step {a : Act ι α} (h : Inv init s) (hstep : step s a = some s') : Inv init s' := by
  cases a with
  | enter i x =>
    unfold step at hstep
    dsimp only at hstep
    split at hstep
    case h_2 => cases hstep
    case h_1 hidle =>
      obtain rfl := Option.some.inj hstep
      exact h.enter x hidle
  | load i =>
    unfold step at hstep
    dsimp only at hstep
    split at hstep
    case h_2 => cases hstep
    case h_1 x hentered =>
      obtain rfl := Option.some.inj hstep
      have hx := h.clients i
      rw [hentered] at hx
      exact h.compare hx (by rw [hentered]; rfl)
  | compareExchange i spurious =>
    unfold step at hstep
    dsimp only at hstep
    split at hstep
    case h_2 => cases hstep
    case h_1 x prev hexchanging =>
      have hclient := h.clients i
      rw [hexchanging] at hclient
      obtain ⟨hx, hlt, _⟩ := hclient
      split at hstep
      case isTrue hsame =>
        obtain rfl := Option.some.inj hstep
        refine h.move (by rw [hsame.1]; exact hlt.le) (List.mem_cons_of_mem _ hx)
          ⟨hx, le_refl x⟩ fun y hy => ?_
        rw [hexchanging] at hy
        obtain rfl := Option.some.inj hy
        exact .inr (le_refl x)
      case isFalse =>
        obtain rfl := Option.some.inj hstep
        exact h.compare hx (by rw [hexchanging]; rfl)
  | read i =>
    unfold step at hstep
    dsimp only at hstep
    split at hstep
    case h_2 => cases hstep
    case h_1 x hraised =>
      obtain rfl := Option.some.inj hstep
      have hclient := h.clients i
      rw [hraised] at hclient
      have hread : Phase.Sound init s (.read x s.register) :=
        ⟨hclient.1, hclient.2, le_refl _, h.member⟩
      refine (h.move (le_refl _) h.member hread fun y hy => ?_).read
      rw [hraised] at hy
      cases hy

end

end OiTerminal.Lib.MaxRegister
