import OiTerminal.Core.Rfc3339
import OiTerminal.Lib.Crc
import OiTerminal.Lib.MessagePack
import OiTerminal.Storage.Wal

/-!
# The bytes of a batch

A bar is written as a MessagePack map of its fields, under their names in the source. Instants
are RFC 3339 text and decimals their usual notation. A batch is the array of its bars. The
libraries remain parameters elsewhere: the codec at the end writes every batch as they do, and
reads the ones that it has been given.
-/
namespace OiTerminal.Storage.BarCodec

open OiTerminal.Core OiTerminal.Core.Time
open OiTerminal.Lib
open OiTerminal.Lib.MessagePack (arrayHeader array named nil str uint IsArrayMarker IsMapMarker)

set_option autoImplicit false

/-- The standard CRC-32. -/
def crc32 (bytes : Bytes) : UInt32 :=
  .ofBitVec (Crc.crc 0xEDB88320#32 (BitVec.allOnes 32) (BitVec.allOnes 32) bytes)

example : crc32 [0x31, 0x32, 0x33, 0x34, 0x35, 0x36, 0x37, 0x38, 0x39] = 0xCBF43926 := by
  decide +kernel

/-- The snake case of the variant, which is not the stable code of the exchange. -/
def exchangeName : Exchange → String
  | .binance => "binance"
  | .bybit => "bybit"
  | .okx => "okx"
  | .bingX => "bing_x"
  | .kuCoin => "ku_coin"
  | .mexc => "mexc"
  | .bitget => "bitget"
  | .hyperliquid => "hyperliquid"
  | .aster => "aster"

def unitName : UnitKind → String
  | .coins => "coins"
  | .usd => "usd"
  | .contracts => "contracts"

def decimal (d : Decimal) : Bytes := str (DecimalText.plain.toText d)

def optional : Option Decimal → Bytes
  | none => nil
  | some d => decimal d

def instrumentFields (id : InstrumentId) : List (String × Bytes) :=
  [("exchange", str (exchangeName id.exchange)), ("symbol", str id.symbol)]

def barFields (bar : OiSnapshot) : List (String × Bytes) :=
  [("instrument", named (instrumentFields bar.instrument)),
    ("bucket_ts", str (rfc3339 bar.bucketTs)),
    ("first_recv_ts", str (rfc3339 bar.firstRecvTs)),
    ("last_recv_ts", str (rfc3339 bar.lastRecvTs)),
    ("samples", uint bar.samples),
    ("native_unit", str (unitName bar.nativeUnit)),
    ("native_open", decimal bar.nativeOpen),
    ("native_high", decimal bar.nativeHigh),
    ("native_low", decimal bar.nativeLow),
    ("native_close", decimal bar.nativeClose),
    ("oi_coins_open", optional bar.oiCoinsOpen),
    ("oi_coins_high", optional bar.oiCoinsHigh),
    ("oi_coins_low", optional bar.oiCoinsLow),
    ("oi_coins_close", optional bar.oiCoinsClose),
    ("oi_usd_open", optional bar.oiUsdOpen),
    ("oi_usd_high", optional bar.oiUsdHigh),
    ("oi_usd_low", optional bar.oiUsdLow),
    ("oi_usd_close", optional bar.oiUsdClose),
    ("price_used_close", optional bar.priceUsedClose)]

/-- `to_vec_named` of a bar. -/
def barBytes (bar : OiSnapshot) : Bytes := named (barFields bar)

/-- `to_vec_named` of a batch. -/
def toVecNamed (batch : Batch) : Bytes := array (batch.map barBytes)

/-! ## The first bytes -/

theorem exists_toVecNamed (batch : Batch) :
    ∃ b rest, toVecNamed batch = b :: rest ∧ IsArrayMarker b :=
  MessagePack.exists_array (batch.map barBytes)

theorem length_le_flatten_barBytes (batch : Batch) :
    batch.length ≤ (batch.map barBytes).flatten.length := by
  induction batch with
  | nil => exact Nat.zero_le _
  | cons bar rest ih =>
    obtain ⟨b, more, hbar, _⟩ := MessagePack.exists_named (barFields bar)
    rw [List.map_cons, List.flatten_cons, List.length_append, List.length_cons, barBytes,
      hbar, List.length_cons]
    omega

/-- The header announces no more bars than there are, and they begin like maps. -/
theorem arrayHeader_toVecNamed (batch : Batch) (more : Bytes) :
    ∃ n rest, arrayHeader (toVecNamed batch ++ more) = some (n, rest) ∧ n ≤ rest.length ∧
      (0 < n → ∀ b ∈ rest.head?, IsMapMarker b) := by
  have hheader := MessagePack.arrayHeader_arrayLen (batch.map barBytes).length
    ((batch.map barBytes).flatten ++ more)
  rw [← List.append_assoc] at hheader
  refine ⟨_, _, hheader, ?_, fun hpos b hb => ?_⟩
  · have hbars := length_le_flatten_barBytes batch
    have hmod := Nat.mod_le (batch.map barBytes).length (2 ^ 32)
    rw [List.length_map] at hmod ⊢
    rw [List.length_append]
    omega
  · cases batch with
    | nil => exact absurd hpos (Nat.lt_irrefl 0)
    | cons bar rest =>
      obtain ⟨marker, tail, hbar, hmarker⟩ := MessagePack.exists_named (barFields bar)
      rw [List.map_cons, List.flatten_cons, barBytes, hbar] at hb
      obtain rfl := Option.some.inj hb
      exact hmarker

/-! ## A codec -/

/-- The batch whose bytes come first. What follows them is ignored. -/
def fromSlice (known : List Batch) (bytes : Bytes) : Option Batch :=
  ([] :: known).find? fun batch => (toVecNamed batch).isPrefixOf bytes

/-- A codec that reads the empty batch and the given ones, for runs on fixed inputs. -/
def codecOf (known : List Batch) : Codec where
  encode batch :=
    if fromSlice known (toVecNamed batch) = some batch then some (toVecNamed batch) else none
  decode := fromSlice known
  crc32 := crc32
  decode_encode batch payload h := by
    split at h
    case isTrue hread =>
      obtain rfl := Option.some.inj h
      exact hread
    case isFalse => cases h

theorem codecOf_encode {known : List Batch} {batch : Batch} {payload : Bytes}
    (h : (codecOf known).encode batch = some payload) : payload = toVecNamed batch := by
  change (if _ then some (toVecNamed batch) else none) = some payload at h
  split at h
  case isTrue => exact (Option.some.inj h).symm
  case isFalse => cases h

theorem codecOf_decode {known : List Batch} {batch : Batch} {bytes : Bytes}
    (h : (codecOf known).decode bytes = some batch) : ∃ more, bytes = toVecNamed batch ++ more := by
  have hprefix := List.find?_some h
  obtain ⟨more, hmore⟩ := List.isPrefixOf_iff_prefix.mp hprefix
  exact ⟨more, hmore.symm⟩

end OiTerminal.Storage.BarCodec
