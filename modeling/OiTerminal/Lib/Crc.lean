import Mathlib.Data.BitVec
import Mathlib.Logic.Function.Iterate

/-!
# Cyclic redundancy checks, least significant bit first

The register is shifted once for each bit, and the polynomial is added where a one falls out.
The polynomial's top bit is set, so the bit that falls out can be read off the result and no
shift loses anything. A checksum therefore tells any two inputs apart that differ in one byte.
-/
namespace OiTerminal.Lib.Crc

set_option autoImplicit false

variable {w : Nat}

def shift (poly c : BitVec w) : BitVec w :=
  if c.getLsbD 0 then c >>> 1 ^^^ poly else c >>> 1

/-- One byte is added to the low end of the register and shifted out. -/
def step (poly c : BitVec w) (b : UInt8) : BitVec w :=
  (shift poly)^[8] (c ^^^ b.toBitVec.setWidth w)

/-- The bytes in their order. -/
def run (poly : BitVec w) : BitVec w → List UInt8 → BitVec w
  | c, [] => c
  | c, b :: rest =>
    -- the match has the register computed before the next byte is taken
    match (step poly c b).toNat with
    | 0 => run poly 0#w rest
    | n + 1 => run poly (.ofNat w (n + 1)) rest

def crc (poly start final : BitVec w) (bytes : List UInt8) : BitVec w :=
  run poly start bytes ^^^ final

variable {poly : BitVec w}

theorem run_eq_foldl (c : BitVec w) (bytes : List UInt8) :
    run poly c bytes = bytes.foldl (step poly) c := by
  induction bytes generalizing c with
  | nil => rfl
  | cons b rest ih =>
    have hreg : BitVec.ofNat w (step poly c b).toNat = step poly c b := by
      rw [BitVec.ofNat_toNat, BitVec.setWidth_eq]
    rw [run, List.foldl_cons, ← ih]
    cases hnext : (step poly c b).toNat with
    | zero => rw [← hreg, hnext]
    | succ n => rw [← hreg, hnext]

/-- The bit that falls out shows in the top bit. -/
theorem msb_shift (hpoly : poly.msb = true) (c : BitVec w) :
    (shift poly c).msb = c.getLsbD 0 := by
  have htop : (c >>> 1).msb = false := by
    rw [BitVec.msb_ushiftRight]
    simp
  unfold shift
  split
  case isTrue hbit => rw [BitVec.msb_xor, htop, hpoly, hbit, Bool.false_xor]
  case isFalse hbit => rw [htop, Bool.eq_false_iff.mpr hbit]

theorem shift_injective (hpoly : poly.msb = true) : Function.Injective (shift poly) := by
  intro a b h
  have hlow : a.getLsbD 0 = b.getLsbD 0 := by
    rw [← msb_shift hpoly a, ← msb_shift hpoly b, h]
  have hhigh : a >>> 1 = b >>> 1 := by
    unfold shift at h
    rw [hlow] at h
    split at h
    · exact (BitVec.xor_left_inj poly).mp h
    · exact h
  apply BitVec.eq_of_getLsbD_eq
  intro i hi
  cases i with
  | zero => exact hlow
  | succ i =>
    have hbit := congrArg (fun c : BitVec w => c.getLsbD i) hhigh
    simpa only [BitVec.getLsbD_ushiftRight, Nat.add_comm 1 i] using hbit

theorem step_left_injective (hpoly : poly.msb = true) (b : UInt8) :
    Function.Injective fun c => step poly c b :=
  ((shift_injective hpoly).iterate 8).comp fun _ _ => (BitVec.xor_left_inj _).mp

theorem step_right_injective (hpoly : poly.msb = true) (hw : 8 ≤ w) (c : BitVec w) :
    Function.Injective (step poly c) := by
  have hwiden : Function.Injective fun b : UInt8 => b.toBitVec.setWidth w := by
    intro a b h
    apply UInt8.toBitVec_inj.mp
    apply BitVec.eq_of_getLsbD_eq
    intro i hi
    have hbit := congrArg (fun v : BitVec w => v.getLsbD i) h
    simpa only [BitVec.getLsbD_setWidth, decide_eq_true (hi.trans_le hw), Bool.true_and] using hbit
  intro a b h
  exact hwiden ((BitVec.xor_right_inj c).mp ((shift_injective hpoly).iterate 8 h))

/-- A fold that loses neither its state nor its input tells one changed element. -/
theorem foldl_set_ne {α σ : Type*} {f : σ → α → σ} (hstate : ∀ x, Function.Injective fun s => f s x)
    (hinput : ∀ s, Function.Injective (f s)) {xs : List α} {i : Nat} {x : α} (s : σ)
    (h : xs.set i x ≠ xs) : (xs.set i x).foldl f s ≠ xs.foldl f s := by
  induction xs generalizing i s with
  | nil => exact absurd List.set_nil h
  | cons y rest ih =>
    cases i with
    | succ i => exact ih (f s y) fun heq => h (congrArg (y :: ·) heq)
    | zero =>
      -- the states after the changed element differ, and stay so
      have hkeep : ∀ {s t : σ}, s ≠ t → rest.foldl f s ≠ rest.foldl f t := by
        clear ih h
        induction rest with
        | nil => exact fun hne => hne
        | cons z more ih => exact fun hne => ih ((hstate z).ne hne)
      exact hkeep ((hinput s).ne fun heq => h (congrArg (· :: rest) heq))

/-- A changed byte changes the checksum. -/
theorem crc_set_ne (hpoly : poly.msb = true) (hw : 8 ≤ w) (start final : BitVec w)
    {bytes : List UInt8} {i : Nat} {b : UInt8} (h : bytes.set i b ≠ bytes) :
    crc poly start final (bytes.set i b) ≠ crc poly start final bytes := by
  refine mt (BitVec.xor_left_inj final).mp ?_
  rw [run_eq_foldl, run_eq_foldl]
  exact foldl_set_ne (step_left_injective hpoly) (step_right_injective hpoly hw) start h

end OiTerminal.Lib.Crc
