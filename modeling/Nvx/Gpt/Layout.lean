import Mathlib.Tactic.Linarith
import Nvx.Gpt.Basic

namespace Nvx.Gpt

open Nvx.Data
open Nvx.Activation (Uuid)

/-! Checks that never panic, and what they establish. -/

abbrev Passes (returns : Value → Prop) (result : Except Fault Value) : Prop :=
  Meets (· ≠ .panicked) returns result

def field (bytes : List UInt8) (offset width : Nat) : Nat :=
  LittleEndian.decode (slice offset width bytes)

theorem field_lt (fits : offset + width ≤ bytes.length) :
    field bytes offset width < 256 ^ width := by
  have bound := LittleEndian.decode_lt (slice offset width bytes)
  rwa [length_slice fits] at bound

namespace Passes

theorem refuse (fails : Prop) [Decidable fails] (error : GptError) :
    Passes (fun _ => ¬ fails) (Gpt.refuse fails error) := by
  unfold Gpt.refuse
  split
  case isTrue => exact Fault.noConfusion
  case isFalse passes => exact passes

theorem okOr (value : Option Value) (error : GptError) :
    Passes (fun result => value = some result) (Gpt.okOr value error) := by
  cases value with
  | none => exact Fault.noConfusion
  | some value => rfl

theorem unchecked (fits : value < wordSize 64) :
    Passes (fun result => result = value) (Gpt.unchecked value) := by
  unfold Gpt.unchecked
  rw [if_pos fits]
  rfl

theorem uncheckedSub (fits : right ≤ left) :
    Passes (fun result => result = left - right) (Gpt.uncheckedSub left right) := by
  unfold Gpt.uncheckedSub
  rw [if_pos fits]
  rfl

theorem range (ordered : start ≤ finish) (fits : finish ≤ bytes.length) :
    Passes (fun result => result = slice start (finish - start) bytes)
      (Gpt.range bytes start finish) := by
  unfold Gpt.range
  rw [if_pos ⟨ordered, fits⟩]
  rfl

theorem u32At (fits : offset + 4 ≤ bytes.length) :
    Passes (fun result => result = field bytes offset 4) (Gpt.u32At bytes offset) := by
  refine (range (Nat.le_add_right offset 4) fits).bind ?_
  rintro _ rfl
  rw [Nat.add_sub_cancel_left]
  rfl

theorem u64At (fits : offset + 8 ≤ bytes.length) :
    Passes (fun result => result = field bytes offset 8) (Gpt.u64At bytes offset) := by
  refine (range (Nat.le_add_right offset 8) fits).bind ?_
  rintro _ rfl
  rw [Nat.add_sub_cancel_left]
  rfl

theorem guidAt (fits : offset + 16 ≤ bytes.length) :
    Passes (fun result => Gpt.guidAt bytes offset = .ok result) (Gpt.guidAt bytes offset) := by
  unfold Gpt.guidAt
  rw [dif_pos fits]
  rfl

end Passes

structure Geometry.Of (logicalBlockSize : UInt32) (size : UInt64) (geometry : Geometry) : Prop where
  blockSize : geometry.blockSize = logicalBlockSize.toNat
  large : 512 ≤ geometry.blockSize
  bytes : geometry.blocks * geometry.blockSize = size.toNat
  blocks : 2 ≤ geometry.blocks

theorem Geometry.passes_new (logicalBlockSize : UInt32) (size : UInt64) :
    Passes (Geometry.Of logicalBlockSize size) (Geometry.new logicalBlockSize size) := by
  refine (Passes.refuse _ _).bind fun _ supported =>
    (Passes.refuse _ _).bind fun _ whole => ?_
  simp only [not_or, not_lt, not_not, minLogicalBlockSize, primaryHeaderLba,
    not_le] at supported whole
  exact ⟨rfl, supported.2.1, Nat.div_mul_cancel (Nat.dvd_of_mod_eq_zero whole.1), whole.2⟩

namespace Geometry.Of

theorem size_lt (of : Of logicalBlockSize size geometry) :
    geometry.blocks * geometry.blockSize < wordSize 64 := by
  rw [of.bytes]
  exact size.toNat_lt

theorem blocks_lt (of : Of logicalBlockSize size geometry) : geometry.blocks < wordSize 64 :=
  (Nat.le_mul_of_pos_right _ (Nat.lt_of_lt_of_le (by decide) of.large)).trans_lt
    of.size_lt

theorem passes_lastLba (of : Of logicalBlockSize size geometry) :
    Passes (fun lba => lba + 1 = geometry.blocks) geometry.lastLba := by
  have blocks := of.blocks
  refine (Passes.uncheckedSub (by omega)).mono ?_
  rintro _ rfl
  omega

theorem mul_le_size (of : Of logicalBlockSize size geometry) (inside : lba ≤ geometry.blocks) :
    lba * geometry.blockSize ≤ size.toNat := by
  rw [← of.bytes]
  exact Nat.mul_le_mul_right _ inside

end Geometry.Of

theorem Geometry.bytes_eq_some {blocks value : Nat} (found : bytes geometry blocks = some value) :
    value = blocks * geometry.blockSize :=
  (checkedMul_eq_some_iff.mp found).2.symm

theorem passes_checkMbr (wide : mbr.length = mbrSize) : Passes (fun _ => True) (checkMbr mbr) := by
  simp only [mbrSize] at wide
  refine (Passes.range (by rw [wide]; decide) le_rfl).bind fun _ _ =>
    (Passes.refuse _ _).bind fun _ _ =>
    (Passes.range (by decide) (by rw [wide]; decide)).bind ?_
  rintro _ rfl
  refine (Passes.okOr _ _).bind fun protective found => ?_
  -- the protective record is one of the chunks, each of sixteen bytes
  have inside := (List.findIdx?_eq_some_iff_getElem.mp found).1
  have record : (List.getD (chunksExact mbrRecordSize
      (slice mbrRecordsOffset (mbrSignatureOffset - mbrRecordsOffset) mbr))
      protective []).length = 16 := by
    rw [List.getD_eq_getElem?_getD, List.getElem?_eq_getElem inside, Option.getD_some]
    simp only [chunksExact, List.getElem_map, List.getElem_range]
    refine length_slice ?_
    simp only [chunksExact, List.length_map, List.length_range] at inside
    simp only [mbrRecordSize] at inside ⊢
    omega
  exact (Passes.u32At (by rw [record]; decide)).bind fun _ _ =>
    (Passes.refuse _ _).bind fun _ _ =>
    (Passes.refuse _ _).mono fun _ _ => trivial

theorem passes_checkHeader (large : 512 ≤ geometry.blockSize)
    (wide : block.length = geometry.blockSize) :
    Passes (fun _ => True) (checkHeader geometry block) := by
  have long : 512 ≤ block.length := wide ▸ large
  refine (Passes.range (by decide) (by omega)).bind fun _ _ =>
    (Passes.refuse _ _).bind fun _ _ =>
    (Passes.u32At (by omega)).bind fun _ _ =>
    (Passes.refuse _ _).bind fun _ _ =>
    (Passes.u32At (by omega)).bind fun headerSize _ =>
    (Passes.refuse _ _).bind fun _ sized => ?_
  simp only [not_or, not_lt, headerFieldsSize] at sized
  exact (Passes.u32At (by omega)).bind fun _ _ =>
    (Passes.range (by decide) (by omega)).bind fun _ _ =>
    (Passes.range (by omega) (by omega)).bind fun _ _ =>
    (Passes.refuse _ _).bind fun _ _ =>
    (Passes.u32At (by omega)).bind fun _ _ =>
    (Passes.refuse _ _).bind fun _ _ =>
    (Passes.u64At (by omega)).bind fun _ _ =>
    (Passes.refuse _ _).mono fun _ _ => trivial

namespace Block

def alternateLba (block : List UInt8) : Nat := field block 32 8
def firstUsableLba (block : List UInt8) : Nat := field block 40 8
def lastUsableLba (block : List UInt8) : Nat := field block 48 8
def entryLba (block : List UInt8) : Nat := field block 72 8
def entryCount (block : List UInt8) : Nat := field block 80 4

end Block

structure Header.Of (geometry : Geometry) (block : List UInt8) (header : Header) : Prop where
  first : header.firstUsableLba = Block.firstUsableLba block
  last : header.lastUsableLba = Block.lastUsableLba block
  guid : header.diskGuid ≠ Uuid.nil
  offset : header.entryArrayOffset = Block.entryLba block * geometry.blockSize
  size : header.entryArraySize = Block.entryCount block * entrySize
  after : 1 < Block.entryLba block
  before : Block.entryLba block + divCeil (Block.entryCount block * entrySize) geometry.blockSize ≤
    Block.firstUsableLba block
  alternate : Block.lastUsableLba block < Block.alternateLba block
  inside : Block.alternateLba block < geometry.blocks
  usable : Block.firstUsableLba block ≤ Block.lastUsableLba block

theorem passes_layout (of : Geometry.Of logicalBlockSize size geometry)
    (wide : block.length = geometry.blockSize) :
    Passes (Header.Of geometry block) (layout geometry block) := by
  have long : 512 ≤ block.length := wide ▸ of.large
  refine (Passes.u32At (by omega)).bind fun _ _ =>
    (Passes.refuse _ _).bind fun _ _ =>
    (Passes.u32At (by omega)).bind ?_
  rintro _ rfl
  have count : field block 80 4 < 256 ^ 4 := field_lt (by omega)
  have words : field block 80 4 * entrySize < wordSize 64 := by
    simp only [entrySize, wordSize]
    omega
  refine (Passes.unchecked words).bind ?_
  rintro _ rfl
  refine (Passes.refuse _ _).bind fun _ _ =>
    (Passes.u64At (by omega)).bind ?_
  rintro _ rfl
  refine of.passes_lastLba.bind fun lastLba isLast =>
    (Passes.okOr _ _).bind fun entryEnd placed =>
    (Passes.u64At (by omega)).bind ?_
  rintro _ rfl
  refine (Passes.refuse _ _).bind fun _ firstAfter =>
    (Passes.u64At (by omega)).bind ?_
  rintro _ rfl
  refine (Passes.refuse _ _).bind fun _ lastInside =>
    (Passes.u64At (by omega)).bind ?_
  rintro _ rfl
  refine (Passes.refuse _ _).bind fun _ alternateInside =>
    (Passes.guidAt (by omega)).bind fun diskGuid _ =>
    (Passes.refuse _ _).bind fun _ named =>
    (Passes.okOr _ _).bind fun offset located =>
    (Passes.u32At (by omega)).bind fun _ _ => ?_
  obtain ⟨ends, ordered⟩ := Option.filter_eq_some_iff.mp placed
  simp only [Bool.and_eq_true, primaryHeaderLba] at ordered
  have sum := (checkedAdd_eq_some_iff.mp ends).2
  simp only [not_or, not_lt, not_le] at firstAfter lastInside alternateInside
  exact {
    first := rfl
    last := rfl
    guid := named
    offset := Geometry.bytes_eq_some located
    size := rfl
    after := of_decide_eq_true ordered.1
    before := sum ▸ firstAfter
    alternate := alternateInside.1
    inside := by
      simp only [Block.alternateLba]
      omega
    usable := lastInside.1 }

end Nvx.Gpt
