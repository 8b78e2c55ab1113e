import Mathlib

/-! Values that take a fixed number of bytes, and packed records of such values. Words are stored
with their least significant byte first. -/

namespace BVisor.Data

open List

/-- The last `count` base-256 digits of a number, the least significant first. -/
def littleEndian : Nat → Nat → List UInt8
  | 0, _ => []
  | count + 1, value => UInt8.ofNat value :: littleEndian count (value / 256)

def ofLittleEndian : List UInt8 → Nat
  | [] => 0
  | byte :: rest => byte.toNat + 256 * ofLittleEndian rest

@[simp] theorem littleEndian_length (count value : Nat) :
    (littleEndian count value).length = count := by
  induction count generalizing value with
  | zero => rfl
  | succ count ih => simp only [littleEndian, length_cons, ih]

theorem ofLittleEndian_littleEndian (count value : Nat) :
    ofLittleEndian (littleEndian count value) = value % 256 ^ count := by
  induction count generalizing value with
  | zero => simp only [littleEndian, ofLittleEndian, Nat.pow_zero, Nat.mod_one]
  | succ count ih =>
    have byte : (UInt8.ofNat value).toNat = value % 256 := UInt8.toNat_ofNat
    rw [littleEndian, ofLittleEndian, ih, byte, Nat.pow_succ, Nat.mul_comm (256 ^ count), Nat.mod_mul]

/-- A way to store the values of a type in a fixed number of bytes. -/
structure Packed (α : Type) where
  size : Nat
  encode : α → List UInt8
  decode : List UInt8 → α
  encode_length : ∀ value, (encode value).length = size
  decode_encode : ∀ value, decode (encode value) = value

namespace Packed

variable {α β : Type}

def uint8 : Packed UInt8 where
  size := 1
  encode value := littleEndian 1 value.toNat
  decode bytes := UInt8.ofNat (ofLittleEndian bytes)
  encode_length _ := littleEndian_length _ _
  decode_encode value := by
    have fits : value.toNat < 256 ^ 1 := value.toNat_lt
    rw [ofLittleEndian_littleEndian, Nat.mod_eq_of_lt fits, UInt8.ofNat_toNat]

def uint16 : Packed UInt16 where
  size := 2
  encode value := littleEndian 2 value.toNat
  decode bytes := UInt16.ofNat (ofLittleEndian bytes)
  encode_length _ := littleEndian_length _ _
  decode_encode value := by
    have fits : value.toNat < 256 ^ 2 := value.toNat_lt
    rw [ofLittleEndian_littleEndian, Nat.mod_eq_of_lt fits, UInt16.ofNat_toNat]

def uint32 : Packed UInt32 where
  size := 4
  encode value := littleEndian 4 value.toNat
  decode bytes := UInt32.ofNat (ofLittleEndian bytes)
  encode_length _ := littleEndian_length _ _
  decode_encode value := by
    have fits : value.toNat < 256 ^ 4 := value.toNat_lt
    rw [ofLittleEndian_littleEndian, Nat.mod_eq_of_lt fits, UInt32.ofNat_toNat]

def uint64 : Packed UInt64 where
  size := 8
  encode value := littleEndian 8 value.toNat
  decode bytes := UInt64.ofNat (ofLittleEndian bytes)
  encode_length _ := littleEndian_length _ _
  decode_encode value := by
    have fits : value.toNat < 256 ^ 8 := value.toNat_lt
    rw [ofLittleEndian_littleEndian, Nat.mod_eq_of_lt fits, UInt64.ofNat_toNat]

/-- Bytes that are skipped, written as zeros. -/
def padding (count : Nat) : Packed Unit where
  size := count
  encode _ := List.replicate count 0
  decode _ := ()
  encode_length _ := List.length_replicate
  decode_encode _ := rfl

def pair (first : Packed α) (second : Packed β) : Packed (α × β) where
  size := first.size + second.size
  encode value := first.encode value.1 ++ second.encode value.2
  decode bytes := (first.decode (bytes.take first.size), second.decode (bytes.drop first.size))
  encode_length value := by
    rw [List.length_append, first.encode_length, second.encode_length]
  decode_encode value := by
    rw [List.take_left' (first.encode_length _), List.drop_left' (first.encode_length _),
      first.decode_encode, second.decode_encode]

def record (packed : Packed α) (fields : β → α) (make : α → β)
    (made : ∀ value, make (fields value) = value) : Packed β where
  size := packed.size
  encode value := packed.encode (fields value)
  decode bytes := make (packed.decode bytes)
  encode_length value := packed.encode_length (fields value)
  decode_encode value := by rw [packed.decode_encode, made]

def encodeAll (packed : Packed α) (items : List α) : List UInt8 :=
  items.flatMap packed.encode

def decodeAll (packed : Packed α) : Nat → List UInt8 → List α
  | 0, _ => []
  | count + 1, bytes =>
    packed.decode (bytes.take packed.size) :: decodeAll packed count (bytes.drop packed.size)

@[simp] theorem encodeAll_length (packed : Packed α) (items : List α) :
    (packed.encodeAll items).length = items.length * packed.size := by
  induction items with
  | nil => simp only [encodeAll, flatMap_nil, length_nil, Nat.zero_mul]
  | cons item rest ih =>
    simp only [encodeAll, flatMap_cons, length_append, length_cons] at ih ⊢
    rw [ih, packed.encode_length, Nat.succ_mul, Nat.add_comm]

@[simp] theorem decodeAll_length (packed : Packed α) (count : Nat) (bytes : List UInt8) :
    (packed.decodeAll count bytes).length = count := by
  induction count generalizing bytes with
  | zero => rfl
  | succ count ih => simp only [decodeAll, length_cons, ih]

theorem decodeAll_encodeAll (packed : Packed α) (items : List α) :
    packed.decodeAll items.length (packed.encodeAll items) = items := by
  induction items with
  | nil => rfl
  | cons item rest ih =>
    have split : packed.encodeAll (item :: rest) = packed.encode item ++ packed.encodeAll rest := rfl
    rw [split, length_cons, decodeAll, take_left' (packed.encode_length item),
      drop_left' (packed.encode_length item), packed.decode_encode, ih]

end Packed

end BVisor.Data
