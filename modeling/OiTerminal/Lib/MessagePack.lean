import Mathlib.Data.Nat.Basic
import Mathlib.Algebra.Order.Ring.Nat

/-!
# MessagePack

Every value begins with a marker that tells its kind. Small numbers and lengths are part of the
marker, larger ones follow it, most significant byte first. The writer takes the shortest form.
-/
namespace OiTerminal.Lib.MessagePack

set_option autoImplicit false

abbrev Bytes := List UInt8

/-! ## Numbers of a fixed width -/

def bigEndian : ℕ → ℕ → Bytes
  | 0, _ => []
  | width + 1, n => bigEndian width (n / 256) ++ [UInt8.ofNat n]

def ofBigEndian (bytes : Bytes) : ℕ := bytes.foldl (fun acc b => acc * 256 + b.toNat) 0

theorem length_bigEndian (width n : ℕ) : (bigEndian width n).length = width := by
  induction width generalizing n with
  | zero => rfl
  | succ width ih => rw [bigEndian, List.length_append, ih, List.length_singleton]

theorem ofBigEndian_bigEndian (width n : ℕ) :
    ofBigEndian (bigEndian width n) = n % 256 ^ width := by
  induction width generalizing n with
  | zero => rw [pow_zero, Nat.mod_one]; rfl
  | succ width ih =>
    have hfirst := ih (n / 256)
    have hsplit : n % 256 ^ (width + 1) = n % 256 + 256 * (n / 256 % 256 ^ width) := by
      rw [pow_succ', Nat.mod_mul]
    unfold ofBigEndian at hfirst ⊢
    rw [bigEndian, List.foldl_append, hfirst, List.foldl_cons, List.foldl_nil,
      UInt8.toNat_ofNat', hsplit]
    omega

/-! ## Markers -/

/-- The first bytes of an array. -/
def IsArrayMarker (b : UInt8) : Prop := 0x90 ≤ b ∧ b ≤ 0x9F ∨ b = 0xDC ∨ b = 0xDD

/-- The first bytes of a map. -/
def IsMapMarker (b : UInt8) : Prop := 0x80 ≤ b ∧ b ≤ 0x8F ∨ b = 0xDE ∨ b = 0xDF

instance (b : UInt8) : Decidable (IsArrayMarker b) :=
  inferInstanceAs (Decidable (0x90 ≤ b ∧ b ≤ 0x9F ∨ b = 0xDC ∨ b = 0xDD))

instance (b : UInt8) : Decidable (IsMapMarker b) :=
  inferInstanceAs (Decidable (0x80 ≤ b ∧ b ≤ 0x8F ∨ b = 0xDE ∨ b = 0xDF))

/-- A number of the given width, and the bytes after it. -/
def readNumber (width : ℕ) (bytes : Bytes) : Option (ℕ × Bytes) :=
  if width ≤ bytes.length then some (ofBigEndian (bytes.take width), bytes.drop width) else none

/-- The number of elements that an array announces, and the bytes after that. -/
def arrayHeader : Bytes → Option (ℕ × Bytes)
  | [] => none
  | marker :: rest =>
    if 0x90 ≤ marker ∧ marker ≤ 0x9F then some (marker.toNat - 0x90, rest)
    else if marker = 0xDC then readNumber 2 rest
    else if marker = 0xDD then readNumber 4 rest
    else none

/-! ## Writing -/

def nil : Bytes := [0xC0]

def uint (n : ℕ) : Bytes :=
  if n < 2 ^ 7 then [UInt8.ofNat n]
  else if n < 2 ^ 8 then 0xCC :: bigEndian 1 n
  else if n < 2 ^ 16 then 0xCD :: bigEndian 2 n
  else if n < 2 ^ 32 then 0xCE :: bigEndian 4 n
  else 0xCF :: bigEndian 8 n

def strLen (n : ℕ) : Bytes :=
  if n < 32 then [UInt8.ofNat (0xA0 + n)]
  else if n < 2 ^ 8 then 0xD9 :: bigEndian 1 n
  else if n < 2 ^ 16 then 0xDA :: bigEndian 2 n
  else 0xDB :: bigEndian 4 n

def str (text : String) : Bytes :=
  let utf8 := text.toUTF8.data.toList
  strLen utf8.length ++ utf8

/-- The length of an array or a map, with the three markers of its kind. -/
def collectionLen (small : ℕ) (short long : UInt8) (n : ℕ) : Bytes :=
  if n < 16 then [UInt8.ofNat (small + n)]
  else if n < 2 ^ 16 then short :: bigEndian 2 n
  else long :: bigEndian 4 n

def arrayLen (n : ℕ) : Bytes := collectionLen 0x90 0xDC 0xDD n

def mapLen (n : ℕ) : Bytes := collectionLen 0x80 0xDE 0xDF n

def array (items : List Bytes) : Bytes := arrayLen items.length ++ items.flatten

/-- A struct with its field names. -/
def named (fields : List (String × Bytes)) : Bytes :=
  mapLen fields.length ++ (fields.map fun field => str field.1 ++ field.2).flatten

/-! ## What is written begins with its marker -/

theorem exists_collectionLen {IsMarker : UInt8 → Prop} {small : ℕ} {short long : UInt8}
    (hsmall : ∀ n < 16, IsMarker (UInt8.ofNat (small + n))) (hshort : IsMarker short)
    (hlong : IsMarker long) (n : ℕ) :
    ∃ b rest, collectionLen small short long n = b :: rest ∧ IsMarker b := by
  unfold collectionLen
  split
  case isTrue hn => exact ⟨_, [], rfl, hsmall n hn⟩
  case isFalse =>
    split
    case isTrue => exact ⟨short, _, rfl, hshort⟩
    case isFalse => exact ⟨long, _, rfl, hlong⟩

theorem exists_arrayLen (n : ℕ) : ∃ b rest, arrayLen n = b :: rest ∧ IsArrayMarker b :=
  exists_collectionLen (by decide) (by decide) (by decide) n

theorem exists_mapLen (n : ℕ) : ∃ b rest, mapLen n = b :: rest ∧ IsMapMarker b :=
  exists_collectionLen (by decide) (by decide) (by decide) n

theorem exists_array (items : List Bytes) :
    ∃ b rest, array items = b :: rest ∧ IsArrayMarker b := by
  obtain ⟨b, rest, hlen, hb⟩ := exists_arrayLen items.length
  exact ⟨b, rest ++ items.flatten, by rw [array, hlen, List.cons_append], hb⟩

theorem exists_named (fields : List (String × Bytes)) :
    ∃ b rest, named fields = b :: rest ∧ IsMapMarker b := by
  obtain ⟨b, rest, hlen, hb⟩ := exists_mapLen fields.length
  exact ⟨b, rest ++ (fields.map fun field => str field.1 ++ field.2).flatten,
    by rw [named, hlen, List.cons_append], hb⟩

theorem readNumber_bigEndian (width n : ℕ) (body : Bytes) :
    readNumber width (bigEndian width n ++ body) = some (n % 256 ^ width, body) := by
  have hlen : width ≤ (bigEndian width n ++ body).length := by
    rw [List.length_append, length_bigEndian]
    exact Nat.le_add_right _ _
  rw [readNumber, if_pos hlen, List.take_left' (length_bigEndian width n),
    List.drop_left' (length_bigEndian width n), ofBigEndian_bigEndian]

/-- The header of an array announces its elements, up to the 32 bits that it has for them. -/
theorem arrayHeader_arrayLen (n : ℕ) (body : Bytes) :
    arrayHeader (arrayLen n ++ body) = some (n % 2 ^ 32, body) := by
  have hsmall : ∀ n < 16, 0x90 ≤ UInt8.ofNat (0x90 + n) ∧ UInt8.ofNat (0x90 + n) ≤ 0x9F ∧
      (UInt8.ofNat (0x90 + n)).toNat - 0x90 = n := by decide
  unfold arrayLen collectionLen
  split
  case isTrue hn =>
    obtain ⟨hlow, hhigh, hvalue⟩ := hsmall n hn
    rw [List.singleton_append, arrayHeader, if_pos ⟨hlow, hhigh⟩, hvalue,
      Nat.mod_eq_of_lt (by omega)]
  case isFalse =>
    split
    case isTrue hn =>
      rw [List.cons_append, arrayHeader, if_neg (by decide), if_pos rfl, readNumber_bigEndian,
        Nat.mod_eq_of_lt (by omega), Nat.mod_eq_of_lt (by omega)]
    case isFalse =>
      rw [List.cons_append, arrayHeader, if_neg (by decide), if_neg (by decide), if_pos rfl,
        readNumber_bigEndian]
      rfl

end OiTerminal.Lib.MessagePack
