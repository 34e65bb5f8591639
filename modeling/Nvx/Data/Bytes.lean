import Mathlib.Algebra.Order.BigOperators.Ring.Finset

namespace Nvx.Data

/-! Byte strings of a fixed width, and the parts of a byte string. -/

abbrev Bytes (width : Nat) := { bytes : List UInt8 // bytes.length = width }

def slice (start width : Nat) (bytes : List UInt8) : List UInt8 :=
  (bytes.drop start).take width

theorem length_slice (fits : start + width ≤ bytes.length) :
    (slice start width bytes).length = width := by
  simp only [slice, List.length_take, List.length_drop]
  omega

theorem slice_append_drop (start width : Nat) (bytes : List UInt8) :
    slice start width bytes ++ bytes.drop (start + width) =
      bytes.drop start := by
  rw [slice, ← List.drop_drop, List.take_append_drop]

namespace Bytes

def zero (width : Nat) : Bytes width :=
  ⟨List.replicate width 0, List.length_replicate⟩

def part {total : Nat} (bytes : Bytes total) (start width : Nat)
    (fits : start + width ≤ total) : Bytes width :=
  ⟨slice start width bytes.val, length_slice (bytes.property.symm ▸ fits)⟩

def get {total : Nat} (bytes : Bytes total) (index : Fin total) : UInt8 :=
  bytes.val.get (index.cast bytes.property.symm)

theorem get_cons_drop (bytes : Bytes total) (index : Fin total) :
    bytes.get index :: bytes.val.drop (index + 1) = bytes.val.drop index := by
  have bound : index.val < bytes.val.length := by
    rw [bytes.property]
    exact index.isLt
  exact (List.drop_eq_getElem_cons bound).symm

end Bytes

namespace LittleEndian

def encode : (width value : Nat) → List UInt8
  | 0, _ => []
  | width + 1, value => UInt8.ofNat value :: encode width (value / 256)

def decode : List UInt8 → Nat
  | [] => 0
  | byte :: bytes => byte.toNat + 256 * decode bytes

@[simp] theorem length_encode (width value : Nat) : (encode width value).length = width := by
  induction width generalizing value with
  | zero => rfl
  | succ width induction => rw [encode, List.length_cons, induction]

theorem decode_lt (bytes : List UInt8) : decode bytes < 256 ^ bytes.length := by
  induction bytes with
  | nil => simp [decode]
  | cons byte bytes induction =>
    have small := byte.toNat_lt
    rw [decode, List.length_cons, Nat.pow_succ]
    omega

theorem decode_encode (width value : Nat) : decode (encode width value) = value % 256 ^ width := by
  induction width generalizing value with
  | zero => rw [encode, decode, Nat.pow_zero, Nat.mod_one]
  | succ width induction =>
    rw [encode, decode, induction, UInt8.toNat_ofNat',
      Nat.pow_succ 256 width, Nat.mul_comm (256 ^ width) 256, Nat.mod_mul]

theorem encode_decode (bytes : List UInt8) : encode bytes.length (decode bytes) = bytes := by
  induction bytes with
  | nil => rfl
  | cons byte bytes induction =>
    have small := byte.toNat_lt
    have first : UInt8.ofNat (byte.toNat + 256 * decode bytes) = byte := by
      apply UInt8.toNat_inj.mp
      rw [UInt8.toNat_ofNat']
      omega
    have rest : (byte.toNat + 256 * decode bytes) / 256 = decode bytes := by
      omega
    rw [List.length_cons, decode, encode, first, rest, induction]

theorem encode_decode_of_length
    (wide : bytes.length = width) : encode width (decode bytes) = bytes := by
  rw [← wide, encode_decode]

def ofUInt16 (value : UInt16) : List UInt8 :=
  encode 2 value.toNat

def toUInt16 (bytes : List UInt8) : UInt16 :=
  UInt16.ofNat (decode bytes)

def ofUInt32 (value : UInt32) : List UInt8 :=
  encode 4 value.toNat

def toUInt32 (bytes : List UInt8) : UInt32 :=
  UInt32.ofNat (decode bytes)

def ofUInt64 (value : UInt64) : List UInt8 :=
  encode 8 value.toNat

def toUInt64 (bytes : List UInt8) : UInt64 :=
  UInt64.ofNat (decode bytes)

@[simp] theorem length_ofUInt16 (value : UInt16) : (ofUInt16 value).length = 2 :=
  length_encode 2 _

@[simp] theorem length_ofUInt32 (value : UInt32) : (ofUInt32 value).length = 4 :=
  length_encode 4 _

@[simp] theorem length_ofUInt64 (value : UInt64) : (ofUInt64 value).length = 8 :=
  length_encode 8 _

@[simp] theorem toUInt16_ofUInt16 (value : UInt16) : toUInt16 (ofUInt16 value) = value := by
  have small := value.toNat_lt
  apply UInt16.toNat_inj.mp
  rw [toUInt16, ofUInt16, decode_encode, UInt16.toNat_ofNat']
  omega

@[simp] theorem toUInt32_ofUInt32 (value : UInt32) : toUInt32 (ofUInt32 value) = value := by
  have small := value.toNat_lt
  apply UInt32.toNat_inj.mp
  rw [toUInt32, ofUInt32, decode_encode, UInt32.toNat_ofNat']
  omega

@[simp] theorem toUInt64_ofUInt64 (value : UInt64) : toUInt64 (ofUInt64 value) = value := by
  have small := value.toNat_lt
  apply UInt64.toNat_inj.mp
  rw [toUInt64, ofUInt64, decode_encode, UInt64.toNat_ofNat']
  omega

theorem ofUInt16_toUInt16 (wide : bytes.length = 2) : ofUInt16 (toUInt16 bytes) = bytes := by
  have small := decode_lt bytes
  rw [wide] at small
  rw [ofUInt16, toUInt16, UInt16.toNat_ofNat_of_lt' small, encode_decode_of_length wide]

theorem ofUInt32_toUInt32 (wide : bytes.length = 4) : ofUInt32 (toUInt32 bytes) = bytes := by
  have small := decode_lt bytes
  rw [wide] at small
  rw [ofUInt32, toUInt32, UInt32.toNat_ofNat_of_lt' small, encode_decode_of_length wide]

theorem ofUInt64_toUInt64 (wide : bytes.length = 8) : ofUInt64 (toUInt64 bytes) = bytes := by
  have small := decode_lt bytes
  rw [wide] at small
  rw [ofUInt64, toUInt64, UInt64.toNat_ofNat_of_lt' small, encode_decode_of_length wide]

end LittleEndian

theorem eq_and_of_and_not {value mask : UInt16}
    (none : value &&& ~~~ mask = 0) : value = value &&& mask := by
  have split : value = (value &&& mask) ||| (value &&& ~~~ mask) := by
    apply UInt16.toBitVec_inj.mp
    ext index bound
    simp
    cases value.toBitVec[index] <;> simp
  rwa [none, UInt16.or_zero] at split

end Nvx.Data
