import Mathlib.Data.List.AList
import Mathlib.Data.List.Sort
import OiTerminal.Core.Snapshot

/-!
# Files of the write-ahead log

A batch is one file: a magic, the checksum of the payload and the payload. The name
carries the clock reading, the process id and a process-wide counter. The MessagePack
codec and the checksum belong to other crates and are parameters.
-/
namespace OiTerminal.Storage

open OiTerminal.Core

set_option autoImplicit false

abbrev Batch := List OiSnapshot

abbrev Bytes := List UInt8

/-- The three numbers printed in `<unix_ms>-<pid>-<counter>.mpk`. -/
structure WalName where
  tsMs : Nat
  pid : Nat
  n : Nat
  deriving DecidableEq, Repr

namespace WalName

def hex (n : Nat) : String := String.ofList (Nat.toDigits 16 n)

def pendingSuffix : String := ".mpk"

def fileName (name : WalName) : String :=
  toString name.tsMs ++ "-" ++ hex name.pid ++ "-" ++ hex name.n ++ pendingSuffix

/-- The reaper's test on the timestamp in the name. -/
def Aged (maxAge now : Nat) (name : WalName) : Prop := maxAge < now - name.tsMs

instance (maxAge now : Nat) (name : WalName) : Decidable (name.Aged maxAge now) :=
  inferInstanceAs (Decidable (maxAge < now - name.tsMs))

end WalName

/-- The files of one kind in a node's directory. -/
abbrev Dir := AList (fun _ : WalName => Bytes)

/-- Pending batches, oldest first: file names in lexicographic order. -/
def Dir.pending (dir : Dir) : List WalName :=
  dir.keys.insertionSort fun a b => a.fileName ≤ b.fileName

theorem Dir.mem_pending {dir : Dir} {name : WalName} :
    name ∈ dir.pending ↔ ∃ bytes, dir.lookup name = some bytes := by
  rw [Dir.pending, List.mem_insertionSort, ← AList.mem_keys, ← AList.lookup_isSome,
    Option.isSome_iff_exists]

theorem Dir.pending_nodup (dir : Dir) : dir.pending.Nodup :=
  (List.perm_insertionSort _ _).nodup_iff.mpr dir.keys_nodup

def frameMagic : Bytes := [0x4F, 0x49, 0x57, 0x31]

def frameHeaderLen : Nat := 8

def toBeBytes (c : UInt32) : Bytes :=
  [UInt8.ofNat (c.toNat / 2 ^ 24), UInt8.ofNat (c.toNat / 2 ^ 16), UInt8.ofNat (c.toNat / 2 ^ 8),
    UInt8.ofNat c.toNat]

def fromBeBytes (bytes : Bytes) : UInt32 :=
  UInt32.ofNat (bytes.foldl (fun acc b => acc * 256 + b.toNat) 0)

theorem fromBeBytes_toBeBytes (c : UInt32) : fromBeBytes (toBeBytes c) = c := by
  have hc : c.toNat < 2 ^ 32 := c.toNat_lt
  have hsum : (toBeBytes c).foldl (fun acc b => acc * 256 + b.toNat) 0 = c.toNat := by
    simp only [toBeBytes, List.foldl_cons, List.foldl_nil, UInt8.toNat_ofNat']
    omega
  rw [fromBeBytes, hsum, UInt32.ofNat_toNat]

theorem toBeBytes_fromBeBytes {bytes : Bytes} (h : bytes.length = 4) :
    toBeBytes (fromBeBytes bytes) = bytes := by
  obtain ⟨a, b, c, d, rfl⟩ := List.length_eq_four.mp h
  have ha := a.toNat_lt
  have hb := b.toNat_lt
  have hc := c.toNat_lt
  have hd := d.toNat_lt
  simp only [toBeBytes, fromBeBytes, List.foldl_cons, List.foldl_nil, UInt32.toNat_ofNat',
    List.cons.injEq, and_true, ← UInt8.toNat_inj, UInt8.toNat_ofNat']
  omega

/-- The batch codec and the checksum. Decoding inverts encoding where the latter succeeds. -/
structure Codec where
  encode : Batch → Option Bytes
  decode : Bytes → Option Batch
  crc32 : Bytes → UInt32
  decode_encode : ∀ batch payload, encode batch = some payload → decode payload = some batch

inductive ReadError where
  | notFound
  | crcMismatch (stored actual : UInt32)
  | decode
  deriving DecidableEq, Repr

namespace Codec

variable (C : Codec)

/-- The three writes that fill a new file. -/
def frameChunks (payload : Bytes) : List Bytes :=
  [frameMagic, toBeBytes (C.crc32 payload), payload]

def decodeBatch (payload : Bytes) : Except ReadError Batch :=
  match C.decode payload with
  | some batch => .ok batch
  | none => .error .decode

/-- Read and validate the bytes of a file. Without the magic they are taken for the
legacy unframed format. -/
def read (bytes : Bytes) : Except ReadError Batch :=
  if frameHeaderLen ≤ bytes.length ∧ bytes.take 4 = frameMagic then
    let storedCrc := fromBeBytes ((bytes.drop 4).take 4)
    let payload := bytes.drop frameHeaderLen
    let actualCrc := C.crc32 payload
    if storedCrc ≠ actualCrc then .error (.crcMismatch storedCrc actualCrc)
    else C.decodeBatch payload
  else C.decodeBatch bytes

theorem flatten_frameChunks (payload : Bytes) :
    (C.frameChunks payload).flatten = frameMagic ++ (toBeBytes (C.crc32 payload) ++ payload) := by
  simp [frameChunks]

/-- After the magic the next four bytes are compared with the checksum of the others. -/
theorem read_magic {crcBytes : Bytes} (hcrc : crcBytes.length = 4) (payload : Bytes) :
    C.read (frameMagic ++ (crcBytes ++ payload)) =
      if fromBeBytes crcBytes ≠ C.crc32 payload then
        .error (.crcMismatch (fromBeBytes crcBytes) (C.crc32 payload))
      else C.decodeBatch payload := by
  have hmagic : frameMagic.length = 4 := rfl
  have hlen : frameHeaderLen ≤ (frameMagic ++ (crcBytes ++ payload)).length := by
    simp only [List.length_append, hmagic, hcrc, frameHeaderLen]
    omega
  have htake : (frameMagic ++ (crcBytes ++ payload)).take 4 = frameMagic := List.take_left' hmagic
  have hdrop : (frameMagic ++ (crcBytes ++ payload)).drop 4 = crcBytes ++ payload :=
    List.drop_left' hmagic
  have hpayload : (frameMagic ++ (crcBytes ++ payload)).drop frameHeaderLen = payload := by
    rw [← List.append_assoc]
    apply List.drop_left'
    rw [List.length_append, hmagic, hcrc]
    rfl
  rw [read, if_pos ⟨hlen, htake⟩, hdrop, hpayload, List.take_left' hcrc]

/-- What `append` writes reads back as the batch. -/
theorem read_frame {batch : Batch} {payload : Bytes} (h : C.encode batch = some payload) :
    C.read (C.frameChunks payload).flatten = .ok batch := by
  rw [flatten_frameChunks, read_magic C rfl, fromBeBytes_toBeBytes, if_neg (not_not.mpr rfl),
    decodeBatch, C.decode_encode batch payload h]

end Codec

/-- A batch of one bar of the given minute. -/
def batchAt (bucketTs : Int) : Batch := [.startFromSample (sampleAt bucketTs bucketTs)]

end OiTerminal.Storage
