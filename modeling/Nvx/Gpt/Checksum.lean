import Nvx.Gpt.Layout

namespace Nvx.Gpt

open Nvx.Data

namespace Crc32

/-- The step of the reflected CRC-32 for one bit of a message. -/
def bitStep (state bit : UInt32) : UInt32 :=
  if state &&& 1 = bit then state >>> 1 else (state >>> 1) ^^^ 0xEDB88320

/-- The first bits of a word from the lowest. -/
def bits : Nat → UInt32 → List UInt32
  | 0, _ => []
  | count + 1, word => (word &&& 1) :: bits count (word >>> 1)

/-- The CRC-32 of a message, bit by bit. -/
def bitwise (bytes : List UInt8) : UInt32 :=
  ~~~(bytes.flatMap fun byte => bits 8 byte.toUInt32).foldl bitStep 0xFFFFFFFF

theorem xor_and (first second mask : UInt32) :
    (first ^^^ second) &&& mask = (first &&& mask) ^^^ (second &&& mask) := by
  apply UInt32.eq_of_toBitVec_eq
  simp only [UInt32.toBitVec_and, UInt32.toBitVec_xor]
  ext index
  simp [Bool.and_xor_distrib_right]

/-- What is even passes by the polynomial. -/
theorem shifted_xor (isEven : even &&& 1 = 0) :
    shifted (state ^^^ even) = shifted state ^^^ (even >>> 1) := by
  have same : (state ^^^ even) &&& 1 = state &&& 1 := by
    rw [xor_and, isEven, UInt32.xor_zero]
  unfold shifted
  rw [same, UInt32.shiftRight_xor]
  split
  · rfl
  · ac_rfl

theorem bit_cases (word : UInt32) : word &&& 1 = 0 ∨ word &&& 1 = 1 := by
  have parity : (word &&& 1).toNat = word.toNat % 2 := by simp
  rw [← UInt32.toNat_inj, ← UInt32.toNat_inj, parity]
  change _ = 0 ∨ _ = 1
  omega

theorem bitStep_bit (state word : UInt32) :
    bitStep state (word &&& 1) = shifted (state ^^^ (word &&& 1)) := by
  have ones : ∀ bit : UInt32, bit = 0 ∨ bit = 1 → (bit ^^^ 1 = 0 ↔ bit = 1) := by
    rintro bit (rfl | rfl) <;> decide
  rcases bit_cases word with zero | one
  · rw [zero, UInt32.xor_zero]
    rfl
  · rw [one, bitStep, shifted, xor_and, UInt32.shiftRight_xor]
    simp only [UInt32.and_self, ones _ (bit_cases state)]
    rw [show (1 : UInt32) >>> 1 = 0 by decide, UInt32.xor_zero]
    rfl

theorem bitStep_xor (state word : UInt32) :
    shifted (state ^^^ word) = bitStep state (word &&& 1) ^^^ (word >>> 1) := by
  have even : (word ^^^ (word &&& 1)) &&& 1 = 0 := by
    rw [xor_and, UInt32.and_assoc, UInt32.and_self, UInt32.xor_self]
  have half : (word ^^^ (word &&& 1)) >>> 1 = word >>> 1 := by
    rw [UInt32.shiftRight_xor]
    rcases bit_cases word with zero | one
    · rw [zero, UInt32.zero_shiftRight, UInt32.xor_zero]
    · rw [one, show (1 : UInt32) >>> 1 = 0 by decide, UInt32.xor_zero]
  have split : state ^^^ word = (state ^^^ (word &&& 1)) ^^^ (word ^^^ (word &&& 1)) := by
    rw [UInt32.xor_assoc, UInt32.xor_comm word, ← UInt32.xor_assoc (word &&& 1),
      UInt32.xor_self, UInt32.zero_xor]
  rw [split, shifted_xor even, half, bitStep_bit]

def halved (word : UInt32) : UInt32 := word >>> 1

theorem iterate_shifted (count : Nat) (state word : UInt32) : shifted^[count] (state ^^^ word) =
      (bits count word).foldl bitStep state ^^^ halved^[count] word := by
  induction count generalizing state word with
  | zero => rfl
  | succ count induction =>
    rw [Function.iterate_succ_apply, bitStep_xor, induction]
    rfl

theorem split_low (word : UInt32) : word = word.toUInt8.toUInt32 ^^^ ((word >>> 8) <<< 8) := by
  apply UInt32.eq_of_toBitVec_eq
  simp only [UInt32.toBitVec_xor, UInt32.toBitVec_shiftLeft, UInt32.toBitVec_shiftRight,
    UInt8.toBitVec_toUInt32, UInt32.toBitVec_toUInt8]
  ext index bound
  by_cases inside : index < 8
  · simp [inside, BitVec.getLsbD_eq_getElem bound]
  · have whole : 8 + (index - 8) = index := by omega
    simp [inside, whole, BitVec.getLsbD_eq_getElem bound]

theorem byte_shiftRight (byte : UInt8) : byte.toUInt32 >>> 8 = 0 := by
  apply UInt32.toNat_inj.mp
  have small := byte.toNat_lt
  simp only [UInt32.toNat_shiftRight, UInt8.toNat_toUInt32]
  change byte.toNat >>> 8 = 0
  rw [Nat.shiftRight_eq_div_pow]
  omega

theorem high_shiftRight (word : UInt32) : (word >>> 8) <<< 8 >>> 8 = word >>> 8 := by
  have shifted := congrArg (fun word : UInt32 => word >>> 8) (split_low word)
  simp only [UInt32.shiftRight_xor, byte_shiftRight, UInt32.zero_xor] at shifted
  exact shifted.symm

theorem bits_of_dvd (divides : 2 ^ count ∣ word.toNat) :
    bits count word = List.replicate count 0 := by
  induction count generalizing word with
  | zero => rfl
  | succ count induction =>
    obtain ⟨rest, whole⟩ := divides
    rw [Nat.pow_succ', Nat.mul_assoc] at whole
    have even : word &&& 1 = 0 := by
      apply UInt32.toNat_inj.mp
      have parity : (word &&& 1).toNat = word.toNat % 2 := by simp
      rw [parity, whole]
      exact Nat.mul_mod_right 2 _
    have half : (word >>> 1).toNat = 2 ^ count * rest := by
      change word.toNat >>> 1 = _
      rw [Nat.shiftRight_eq_div_pow, whole]
      omega
    rw [bits, even, induction ⟨rest, half⟩]
    rfl

/-- The table's step is that of the byte's bits. -/
theorem update_byte (state : UInt32) (byte : UInt8) :
    (state >>> 8) ^^^ table (state.toUInt8 ^^^ byte) =
      (bits 8 byte.toUInt32).foldl bitStep state := by
  have serial := iterate_shifted 8 state byte.toUInt32
  have tabled := iterate_shifted 8 (state ^^^ byte.toUInt32).toUInt8.toUInt32
    (((state ^^^ byte.toUInt32) >>> 8) <<< 8)
  have gone : halved^[8] byte.toUInt32 = 0 := byte_shiftRight byte
  have kept : halved^[8] (((state ^^^ byte.toUInt32) >>> 8) <<< 8) = state >>> 8 := by
    refine (high_shiftRight (state ^^^ byte.toUInt32)).trans ?_
    rw [UInt32.shiftRight_xor, byte_shiftRight, UInt32.xor_zero]
  have high : 2 ^ 8 ∣ (((state ^^^ byte.toUInt32) >>> 8) <<< 8).toNat := by
    change 2 ^ 8 ∣ ((state ^^^ byte.toUInt32) >>> 8).toNat <<< 8 % 2 ^ 32
    rw [Nat.shiftLeft_eq]
    omega
  rw [← split_low, serial, gone, UInt32.xor_zero, kept, bits_of_dvd high] at tabled
  rw [tabled, UInt32.xor_comm]
  simp only [UInt32.toUInt8_xor, UInt8.toUInt8_toUInt32]
  rfl

theorem update_eq (state : UInt32) (bytes : List UInt8) :
    update state bytes = (bytes.flatMap fun byte => bits 8 byte.toUInt32).foldl bitStep state := by
  induction bytes generalizing state with
  | nil => rfl
  | cons byte rest induction =>
    rw [List.flatMap_cons, List.foldl_append, ← update_byte]
    exact induction _

theorem finish_pieces (pieces : List (List UInt8)) :
    finish (pieces.foldl update start) = bitwise pieces.flatten := by
  have whole : ∀ state, pieces.foldl update state = update state pieces.flatten := by
    induction pieces with
    | nil => exact fun state => rfl
    | cons piece rest induction =>
      intro state
      rw [List.foldl_cons, induction, List.flatten_cons, update, update, update, List.foldl_append]
  rw [whole, update_eq]
  rfl

end Crc32

section Failing

variable {fails : Fault → Prop} (panics : fails .panicked)

theorem meets_refuse {refused : Prop} [Decidable refused] {error : GptError}
    (told : refused → fails (.refused error)) :
    Meets fails (fun _ => ¬refused) (refuse refused error) := by
  unfold refuse
  split
  case isTrue holds => exact told holds
  case isFalse passes => exact passes

include panics

theorem meets_range (bytes : List UInt8) (start finish : Nat) :
    Meets fails (fun result => finish ≤ bytes.length ∧ result = slice start (finish - start) bytes)
      (range bytes start finish) := by
  unfold range
  split
  case isTrue fits => exact ⟨fits.2, rfl⟩
  case isFalse => exact panics

theorem meets_u32At (bytes : List UInt8) (offset : Nat) :
    Meets fails (fun value => value = field bytes offset 4) (u32At bytes offset) := by
  refine (meets_range panics bytes offset (offset + 4)).bind fun found both => ?_
  rw [both.2, Nat.add_sub_cancel_left]
  rfl

theorem meets_u64At (bytes : List UInt8) (offset : Nat) :
    Meets fails (fun _ => True) (u64At bytes offset) :=
  (meets_range panics bytes offset (offset + 8)).bind fun _ _ => trivial

end Failing

/-- The header with zeros for its checksum. -/
def zeroed (header : List UInt8) : List UInt8 :=
  header.take 16 ++ [0, 0, 0, 0] ++ header.drop 20

def storedCrc (block : List UInt8) : UInt32 := .ofNat (field block 16 4)

def headerCrc (block : List UInt8) : UInt32 :=
  Crc32.bitwise (zeroed (block.take (field block 12 4)))

theorem computed_eq (large : 92 ≤ size) :
    Crc32.finish (Crc32.update (Crc32.update (Crc32.update Crc32.start (slice 0 16 block))
      [0, 0, 0, 0]) (slice 20 (size - 20) block)) = Crc32.bitwise (zeroed (block.take size)) := by
  have pieces := Crc32.finish_pieces [slice 0 16 block, [0, 0, 0, 0], slice 20 (size - 20) block]
  refine pieces.trans (congrArg Crc32.bitwise ?_)
  simp only [slice, List.flatten_cons, List.flatten_nil, List.append_nil, List.drop_zero, zeroed,
    List.take_take, List.drop_take, Nat.min_eq_left (by omega : 16 ≤ size), List.append_assoc]

theorem meets_checkHeader (geometry : Geometry) (block : List UInt8) :
    Meets (fun fault => ∀ stored computed, fault = .refused (.headerCrc stored computed) →
        stored = storedCrc block ∧ computed = headerCrc block ∧ stored ≠ computed)
      (fun _ => storedCrc block = headerCrc block) (checkHeader geometry block) := by
  refine (meets_range (by simp) _ _ _).bind fun _ _ => (meets_refuse (by simp)).bind fun _ _ =>
    (meets_u32At (by simp) _ _).bind fun _ _ => (meets_refuse (by simp)).bind fun _ _ =>
    (meets_u32At (by simp) _ _).bind fun size isSize => (meets_refuse (by simp)).bind
      fun _ sized => ?_
  simp only [not_or, not_lt, headerFieldsSize] at sized
  refine (meets_u32At (by simp) _ _).bind fun stored isStored =>
    (meets_range (by simp) _ _ _).bind fun before isBefore =>
    (meets_range (by simp) _ _ _).bind fun after isAfter => ?_
  rw [isBefore.2, isAfter.2, computed_eq sized.1, isStored, isSize]
  refine (meets_refuse ?_).bind fun _ equal => (meets_u32At (by simp) _ _).bind fun _ _ =>
    (meets_refuse (by simp)).bind fun _ _ => (meets_u64At (by simp) _ _).bind fun _ _ =>
    (meets_refuse (by simp)).mono fun _ _ => not_not.1 equal
  intro differ stored computed same
  injection same with same
  injection same with isStored isComputed
  exact ⟨isStored.symm, isComputed.symm, isStored ▸ isComputed ▸ differ⟩

/-- The checksum is CRC-32, also of the header, in which its own field counts as
zeros. -/
theorem checksum_is_crc32 : (∀ pieces : List (List UInt8),
      Crc32.finish (pieces.foldl Crc32.update Crc32.start) = Crc32.bitwise pieces.flatten) ∧
    ∀ (geometry : Geometry) (block : List UInt8),
      (checkHeader geometry block = .ok () → storedCrc block = headerCrc block) ∧
      ∀ stored computed,
        checkHeader geometry block = .error (.refused (.headerCrc stored computed)) →
        stored = storedCrc block ∧ computed = headerCrc block ∧ stored ≠ computed := by
  refine ⟨Crc32.finish_pieces, fun geometry block => ?_⟩
  have meets := meets_checkHeader geometry block
  constructor
  · intro passed
    rw [passed] at meets
    exact meets
  · intro stored computed failed
    rw [failed] at meets
    exact meets stored computed rfl

end Nvx.Gpt
