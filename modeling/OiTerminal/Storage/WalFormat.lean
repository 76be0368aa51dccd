import OiTerminal.Storage.WalCalls

/-!
# Which bytes a WAL file may hold

A framed file begins with the magic and carries the checksum of its payload. Any other file is
taken for the legacy format, a bare MessagePack array, and is not checked. The two formats
cannot be confused, but a change of the magic leads around the checksum.
-/
namespace OiTerminal.Storage.WalFormat

open OiTerminal.Core
open OiTerminal.Lib
open OiTerminal.Lib.MessagePack (arrayHeader IsArrayMarker IsMapMarker)
open OiTerminal.Storage.BarCodec (codecOf crc32 toVecNamed)
open OiTerminal.Storage.WalCalls
open OiTerminal.Storage.WalDir

set_option autoImplicit false

/-- The test for the framed format. -/
def IsFramed (bytes : Bytes) : Prop :=
  frameHeaderLen ≤ bytes.length ∧ bytes.take 4 = frameMagic

instance (bytes : Bytes) : Decidable (IsFramed bytes) :=
  inferInstanceAs (Decidable (frameHeaderLen ≤ bytes.length ∧ bytes.take 4 = frameMagic))

/-- What is documented of the two libraries: the checksum is the standard one, and a list is
decoded from an array. An element is a struct, so it begins like a map or an array and takes
a byte at least. The bytes after an empty array are ignored. -/
structure Standard (C : Codec) : Prop where
  crc : ∀ bytes, C.crc32 bytes = crc32 bytes
  empty : ∀ rest, C.decode (0x90 :: rest) = some []
  array : ∀ bytes batch, C.decode bytes = some batch → ∃ n rest,
    arrayHeader bytes = some (n, rest) ∧ n ≤ rest.length ∧
      (0 < n → ∀ b ∈ rest.head?, IsMapMarker b ∨ IsArrayMarker b)

/-- An encoded list begins with the marker of an array. -/
def StartsWithArray (C : Codec) : Prop :=
  ∀ batch payload, C.encode batch = some payload →
    ∃ b rest, payload = b :: rest ∧ IsArrayMarker b

theorem standard_codecOf (known : List Batch) : Standard (codecOf known) := by
  refine ⟨fun _ => rfl, fun _ => rfl, ?_⟩
  intro bytes batch h
  obtain ⟨more, rfl⟩ := BarCodec.codecOf_decode h
  obtain ⟨n, rest, hheader, hlen, hmap⟩ := BarCodec.arrayHeader_toVecNamed batch more
  exact ⟨n, rest, hheader, hlen, fun hpos b hb => .inl (hmap hpos b hb)⟩

theorem startsWithArray_codecOf (known : List Batch) : StartsWithArray (codecOf known) := by
  intro batch payload h
  rw [BarCodec.codecOf_encode h]
  exact BarCodec.exists_toVecNamed batch

variable {C : Codec} {payload crcBytes : Bytes}

/-! ## Frames -/

/-- The magic and any four bytes make a frame of whatever follows. -/
theorem isFramed_magic (hcrc : crcBytes.length = 4) (payload : Bytes) :
    IsFramed (frameMagic ++ (crcBytes ++ payload)) := by
  have hmagic : frameMagic.length = 4 := rfl
  refine ⟨?_, List.take_left' hmagic⟩
  simp only [List.length_append, hmagic, hcrc, frameHeaderLen]
  omega

theorem read_legacy {bytes : Bytes} (h : ¬ IsFramed bytes) : C.read bytes = C.decodeBatch bytes :=
  if_neg h

/-- The magic is no beginning of an array. -/
theorem not_isFramed_of_marker {b : UInt8} {rest : Bytes} (hb : IsArrayMarker b) :
    ¬ IsFramed (b :: rest) := by
  intro h
  obtain rfl : b = 0x4F := (List.cons.inj h.2).1
  exact absurd hb (by decide)

/-- Both formats read back as what was written, and the test for the framed one tells them
apart: it accepts the frame of any payload, and no encoding of a batch. An append whose steps all
succeed writes a framed file. -/
theorem both_formats_read_back (C : Codec) (hmarker : StartsWithArray C) :
    (∀ pid nowMs batch node payload, C.encode batch = some payload →
      ∃ path node', append C pid (.done nowMs) batch node = (.ok path, node') ∧
        isPending path = true ∧
        ∃ file, node'.files.lookup path = some file ∧ IsFramed file ∧ C.read file = .ok batch) ∧
    (∀ pid io batch node path node', append C pid io batch node = (.ok path, node') →
      ∃ file, node'.files.lookup path = some file ∧ IsFramed file ∧ C.read file = .ok batch) ∧
    (∀ batch payload, C.encode batch = some payload →
      ¬ IsFramed payload ∧ C.read payload = .ok batch) ∧
    ∀ payload, IsFramed (C.frameChunks payload).flatten := by
  have hframed : ∀ payload, IsFramed (C.frameChunks payload).flatten := by
    intro payload
    rw [C.flatten_frameChunks]
    exact isFramed_magic rfl payload
  have hwritten : ∀ pid io batch node path node',
      append C pid io batch node = (.ok path, node') →
      ∃ file, node'.files.lookup path = some file ∧ IsFramed file ∧ C.read file = .ok batch := by
    intro pid io batch node path node' happend
    obtain ⟨payload, hpayload, hfile⟩ := file_of_append happend
    exact ⟨_, hfile, hframed payload, C.read_frame hpayload⟩
  refine ⟨?_, hwritten, ?_, hframed⟩
  · intro pid nowMs batch node payload hpayload
    have happends : Upsert.Appends C ⟨batch, .done nowMs, none⟩ := ⟨⟨payload, hpayload⟩, nowMs, rfl⟩
    obtain ⟨path, node', happend, hpending, _⟩ := append_of_appends happends node
    exact ⟨path, node', happend, hpending, hwritten _ _ _ _ _ _ happend⟩
  · intro batch payload hpayload
    obtain ⟨b, rest, rfl, hb⟩ := hmarker batch payload hpayload
    have hlegacy : ¬ IsFramed (b :: rest) := not_isFramed_of_marker hb
    refine ⟨hlegacy, ?_⟩
    rw [read_legacy hlegacy, Codec.decodeBatch, C.decode_encode _ _ hpayload]

theorem encode_batchAt :
    (codecOf [batchAt 0]).encode (batchAt 0) = some (toVecNamed (batchAt 0)) := by
  decide +kernel

/-- A bar in both formats. -/
theorem one_bar_reads_back :
    (∃ path node', append (codecOf [batchAt 0]) 7 (.done 1000) (batchAt 0) ⟨∅, 0⟩ =
        (.ok path, node') ∧ isPending path = true ∧
      ∃ file, node'.files.lookup path = some file ∧ IsFramed file ∧
        (codecOf [batchAt 0]).read file = .ok (batchAt 0)) ∧
      ¬ IsFramed (toVecNamed (batchAt 0)) ∧
      (codecOf [batchAt 0]).read (toVecNamed (batchAt 0)) = .ok (batchAt 0) := by
  obtain ⟨hframed, _, hlegacy, _⟩ :=
    both_formats_read_back (codecOf [batchAt 0]) (startsWithArray_codecOf _)
  exact ⟨hframed 7 1000 (batchAt 0) ⟨∅, 0⟩ _ encode_batchAt, hlegacy (batchAt 0) _ encode_batchAt⟩

/-! ## One changed byte -/

theorem crc32_set_ne {i : Nat} {b : UInt8} (h : payload.set i b ≠ payload) :
    crc32 (payload.set i b) ≠ crc32 payload := by
  intro heq
  have hcrc := congrArg UInt32.toBitVec heq
  exact Crc.crc_set_ne (by decide) (by decide) _ _ h hcrc

/-- A change of the stored checksum. -/
theorem read_changed_crc (hcrc : crcBytes.length = 4) (h : crcBytes ≠ toBeBytes (C.crc32 payload)) :
    ∃ e, C.read (frameMagic ++ (crcBytes ++ payload)) = .error e := by
  have hne : fromBeBytes crcBytes ≠ C.crc32 payload := by
    intro heq
    rw [← heq, toBeBytes_fromBeBytes hcrc] at h
    exact h rfl
  rw [C.read_magic hcrc, if_pos hne]
  exact ⟨_, rfl⟩

/-- A change of the payload. -/
theorem read_changed_payload (hC : Standard C) {i : Nat} {b : UInt8}
    (h : payload.set i b ≠ payload) :
    ∃ e, C.read (frameMagic ++ (toBeBytes (C.crc32 payload) ++ payload.set i b)) = .error e := by
  apply read_changed_crc rfl
  intro heq
  have hcrc := congrArg fromBeBytes heq
  rw [fromBeBytes_toBeBytes, fromBeBytes_toBeBytes, hC.crc, hC.crc] at hcrc
  exact crc32_set_ne h hcrc.symm

theorem decodeBatch_error_iff {bytes : Bytes} :
    (∃ e, C.decodeBatch bytes = .error e) ↔ C.decode bytes = none := by
  unfold Codec.decodeBatch
  cases C.decode bytes <;> simp

/-- The array markers that may stand in the place of the first byte of the magic announce more
elements than the bytes behind it can be. -/
theorem decode_of_changed_marker (hC : Standard C) {b : UInt8} {crcBytes payload : Bytes}
    {batch : Batch} (hcrc : crcBytes.length = 4) (hb : b ≠ 0x90)
    (h : C.decode (b :: 0x49 :: 0x57 :: 0x31 :: (crcBytes ++ payload)) = some batch) :
    b = 0xDD ∧ 2 ^ 30 ≤ payload.length := by
  obtain ⟨n, rest, hheader, hlen, helement⟩ := hC.array _ _ h
  obtain ⟨c0, c1, c2, c3, rfl⟩ := List.length_eq_four.mp hcrc
  unfold arrayHeader at hheader
  dsimp only at hheader
  split at hheader
  case isTrue hfix =>
    obtain ⟨rfl, rfl⟩ := Prod.mk.inj (Option.some.inj hheader)
    have hpos : 0 < b.toNat - 0x90 := by
      have hle := UInt8.le_iff_toNat_le.mp hfix.1
      have hne : b.toNat ≠ 0x90 := fun heq => hb (UInt8.toNat_inj.mp heq)
      have hvalue : (0x90 : UInt8).toNat = 0x90 := rfl
      omega
    exact absurd (helement hpos 0x49 rfl) (by decide)
  case isFalse =>
    split at hheader
    case isTrue =>
      obtain ⟨rfl, rfl⟩ := Prod.mk.inj (Option.some.inj hheader)
      have hpos : 0 < 0x4957 := by decide
      exact absurd (helement hpos 0x31 rfl) (by decide)
    case isFalse =>
      split at hheader
      case isFalse => cases hheader
      case isTrue hwide =>
        obtain ⟨rfl, rfl⟩ := Prod.mk.inj (Option.some.inj hheader)
        refine ⟨hwide, ?_⟩
        have hcount : ([0x49, 0x57, 0x31, c0] : Bytes).foldl
            (fun acc b => acc * 256 + b.toNat) 0 ≤ (c1 :: c2 :: c3 :: payload).length := hlen
        have hvalues : (0x49 : UInt8).toNat = 0x49 ∧ (0x57 : UInt8).toNat = 0x57 ∧
            (0x31 : UInt8).toNat = 0x31 := ⟨rfl, rfl, rfl⟩
        simp only [List.foldl_cons, List.foldl_nil, List.length_cons, hvalues] at hcount
        omega

/-- A change of the magic makes the whole file a legacy one, which does not begin with an array
unless the first byte was changed. -/
theorem read_changed_magic (hC : Standard C) {i : Nat} {b : UInt8}
    (h : frameMagic.set i b ≠ frameMagic) :
    (∃ e, C.read (frameMagic.set i b ++ (crcBytes ++ payload)) = .error e) ↔
      (i = 0 → C.decode (frameMagic.set i b ++ (crcBytes ++ payload)) = none) := by
  have hlegacy : ¬ IsFramed (frameMagic.set i b ++ (crcBytes ++ payload)) := by
    intro hframed
    have htake : (frameMagic.set i b ++ (crcBytes ++ payload)).take 4 = frameMagic.set i b :=
      List.take_left' List.length_set
    exact h (htake.symm.trans hframed.2)
  rw [read_legacy hlegacy, decodeBatch_error_iff]
  cases i with
  | zero => rw [forall_prop_of_true rfl]
  | succ i =>
    refine iff_of_true ?_ fun hzero => by cases hzero
    rw [Option.eq_none_iff_forall_ne_some]
    intro batch hbatch
    obtain ⟨n, rest, hheader, _⟩ := hC.array _ _ hbatch
    cases hheader

/-- The byte is not the first of the file, or its new value does not make the file an array.
`0x90` always does. Of the other markers only `0xDD` can, in a file that announces more than a
thousand million bars. -/
def Noticed (C : Codec) (file : Bytes) (i : Nat) (b : UInt8) : Prop :=
  i = 0 → b ≠ 0x90 ∧ (b = 0xDD → 2 ^ 30 ≤ file.length → C.decode (file.set 0 b) = none)

theorem noticed_zero_iff (hC : Standard C) {b : UInt8} (hcrc : crcBytes.length = 4) :
    Noticed C (frameMagic ++ (crcBytes ++ payload)) 0 b ↔
      C.decode (frameMagic.set 0 b ++ (crcBytes ++ payload)) = none := by
  constructor
  · intro h
    obtain ⟨hempty, hwide⟩ := h rfl
    rw [Option.eq_none_iff_forall_ne_some]
    intro batch hbatch
    obtain ⟨hb, hlen⟩ := decode_of_changed_marker hC hcrc hempty hbatch
    have hnone := hwide hb (hlen.trans (by simp [frameMagic]; omega))
    exact absurd (hnone.symm.trans hbatch) (by simp)
  · intro hnone _
    refine ⟨?_, fun _ _ => hnone⟩
    intro hb
    subst hb
    exact absurd (hnone.symm.trans (hC.empty _)) (by simp)

/-- Each of the three parts of a frame has its own check. -/
theorem changed_frame_refused_iff (hC : Standard C) {i : Nat} {b : UInt8}
    (h : (C.frameChunks payload).flatten.set i b ≠ (C.frameChunks payload).flatten) :
    (∃ e, C.read ((C.frameChunks payload).flatten.set i b) = .error e) ↔
      Noticed C (C.frameChunks payload).flatten i b := by
  rw [C.flatten_frameChunks] at h ⊢
  have hmagicLen : frameMagic.length = 4 := rfl
  have hcrcLen : (toBeBytes (C.crc32 payload)).length = 4 := rfl
  by_cases hmagic : i < frameMagic.length
  · rw [List.set_append_left _ _ hmagic] at h ⊢
    rw [read_changed_magic hC fun heq => h (by rw [heq])]
    cases i with
    | zero => rw [forall_prop_of_true rfl, noticed_zero_iff hC hcrcLen]
    | succ i => exact iff_of_true (fun hzero => by cases hzero) fun hzero => by cases hzero
  · have hnoticed : Noticed C (frameMagic ++ (toBeBytes (C.crc32 payload) ++ payload)) i b :=
      fun hzero => absurd hzero (by omega)
    refine iff_of_true ?_ hnoticed
    rw [List.set_append_right _ _ (not_lt.mp hmagic)] at h ⊢
    by_cases hcrc : i - frameMagic.length < (toBeBytes (C.crc32 payload)).length
    · rw [List.set_append_left _ _ hcrc] at h ⊢
      exact read_changed_crc (by rw [List.length_set, hcrcLen]) fun heq => h (by rw [heq])
    · rw [List.set_append_right _ _ (not_lt.mp hcrc)] at h ⊢
      exact read_changed_payload hC fun heq => h (by rw [heq])

/-- With the marker of an empty array in the first place the rest is ignored. -/
theorem read_empty_marker (hC : Standard C) (payload : Bytes) :
    C.read ((C.frameChunks payload).flatten.set 0 0x90) = .ok [] := by
  rw [C.flatten_frameChunks]
  have hlegacy : ¬ IsFramed (frameMagic.set 0 0x90 ++ (toBeBytes (C.crc32 payload) ++ payload)) :=
    not_isFramed_of_marker (by decide)
  have hempty : C.decode (frameMagic.set 0 0x90 ++ (toBeBytes (C.crc32 payload) ++ payload)) =
      some [] := hC.empty _
  rw [List.set_append_left _ _ (by decide), read_legacy hlegacy, Codec.decodeBatch, hempty]

/-- A file in which one byte has been changed is refused exactly if the change is noticed. With
`0x90` in the first place it is read as the empty batch. -/
theorem changed_byte_refused_iff (C : Codec) (hC : Standard C) (pid : Nat) (io : AppendIo)
    (batch : Batch) (node : Node) {node' : Node} {path : String} {file : Bytes}
    (happend : append C pid io batch node = (.ok path, node'))
    (hfile : node'.files.lookup path = some file) {i : Nat} {b : UInt8}
    (hchange : file.set i b ≠ file) :
    ((∃ e, C.read (file.set i b) = .error e) ↔ Noticed C file i b) ∧
      (i = 0 → b = 0x90 → C.read (file.set i b) = .ok []) := by
  obtain ⟨payload, hpayload, hlookup⟩ := file_of_append happend
  obtain rfl := Option.some.inj (hlookup.symm.trans hfile)
  refine ⟨changed_frame_refused_iff hC hchange, ?_⟩
  intro hi hb
  subst hi hb
  exact read_empty_marker hC payload

/-- The file of a batch of one bar. -/
def barFile : Bytes := ((codecOf [batchAt 0]).frameChunks (toVecNamed (batchAt 0))).flatten

theorem append_barFile : ∃ path node',
    append (codecOf [batchAt 0]) 7 (.done 1000) (batchAt 0) ⟨∅, 0⟩ = (.ok path, node') ∧
      node'.files.lookup path = some barFile := by
  have happends : Upsert.Appends (codecOf [batchAt 0]) ⟨batchAt 0, .done 1000, none⟩ :=
    ⟨⟨_, encode_batchAt⟩, 1000, rfl⟩
  obtain ⟨path, node', happend, _⟩ := append_of_appends happends ⟨∅, 0⟩
  obtain ⟨payload, hpayload, hfile⟩ := file_of_append happend
  obtain rfl := Option.some.inj (encode_batchAt.symm.trans hpayload)
  exact ⟨path, node', happend, hfile⟩

/-- The array of one bar is made one of two, and then the magic an array of one. -/
theorem changed_bar_refused :
    (∃ e, (codecOf [batchAt 0]).read (barFile.set 8 0x92) = .error e) ∧
      ∃ e, (codecOf [batchAt 0]).read (barFile.set 0 0x91) = .error e := by
  have hC := standard_codecOf [batchAt 0]
  obtain ⟨path, node', happend, hfile⟩ := append_barFile
  have hpayload : barFile.set 8 0x92 ≠ barFile := by decide +kernel
  have hmagic : barFile.set 0 0x91 ≠ barFile := by decide +kernel
  constructor
  · exact (changed_byte_refused_iff _ hC 7 _ _ _ happend hfile hpayload).1.mpr
      fun hzero => by cases hzero
  · exact (changed_byte_refused_iff _ hC 7 _ _ _ happend hfile hmagic).1.mpr
      fun _ => ⟨by decide, fun hwide => absurd hwide (by decide)⟩

/-- A batch of one bar is read as the empty one after its first byte has been changed to
`0x90`. -/
theorem first_byte_read_as_empty : ¬ ∀ (C : Codec), Standard C → ∀ (pid : Nat) (io : AppendIo)
    (batch : Batch) (node node' : Node) (path : String) (file : Bytes),
    append C pid io batch node = (.ok path, node') → node'.files.lookup path = some file →
    ∀ (i : Nat) (b : UInt8), file.set i b ≠ file → ∃ e, C.read (file.set i b) = .error e := by
  intro h
  have hC := standard_codecOf [batchAt 0]
  obtain ⟨path, node', happend, hfile⟩ := append_barFile
  have hchange : barFile.set 0 0x90 ≠ barFile := by decide +kernel
  obtain ⟨e, he⟩ := h _ hC 7 _ _ _ _ path barFile happend hfile 0 0x90 hchange
  rw [barFile, read_empty_marker hC] at he
  cases he

end OiTerminal.Storage.WalFormat
