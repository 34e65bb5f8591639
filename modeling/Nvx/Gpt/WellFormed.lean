import Nvx.Gpt.Partitions

namespace Nvx.Gpt

open Nvx.Data
open Nvx.Activation (Uuid)

/-! A disk that the reader accepts is well formed. -/

def Partition.extent (partition : Partition) : Extent :=
  ⟨partition.offset, partition.size⟩

/-- The parts of the disk that describe it, as its header block places them. -/
def metadata (blockSize : Nat) (block : List UInt8) : List Extent :=
  [⟨0, mbrSize⟩, ⟨blockSize, blockSize⟩, ⟨Block.alternateLba block * blockSize, blockSize⟩,
    ⟨Block.entryLba block * blockSize, Block.entryCount block * entrySize⟩]

structure Disk.WellFormed (disk : Disk) (block : List UInt8) : Prop where
  few : 2 ≤ disk.partitions.length
  many : disk.partitions.length ≤ 255
  numbered : disk.partitions.map (·.number) = List.range' 1 disk.partitions.length
  usable : ∀ partition ∈ disk.partitions, Block.firstUsableLba block ≤ partition.firstLba ∧
      partition.firstLba ≤ partition.lastLba ∧
      partition.lastLba ≤ Block.lastUsableLba block
  disjoint : disk.partitions.Pairwise fun first second =>
    first.extent.Disjoint second.extent
  apart : ∀ partition ∈ disk.partitions, ∀ part ∈ metadata disk.logicalBlockSize.toNat block,
      part.Disjoint partition.extent
  extents : ∀ partition ∈ disk.partitions,
    partition.offset = partition.firstLba * disk.logicalBlockSize.toNat ∧
      partition.size = (partition.lastLba - partition.firstLba + 1) * disk.logicalBlockSize.toNat ∧
      partition.offset + partition.size ≤ disk.size.toNat
  named : ∀ partition ∈ disk.partitions, partition.uniqueGuid ≠ Uuid.nil
  distinct : (disk.guid :: disk.partitions.map (·.uniqueGuid)).Nodup

section

variable {size : UInt64}

theorem Partition.Of.finish (of : Partition.Of geometry header partition) :
    partition.extent.finish = (partition.lastLba + 1) * geometry.blockSize := by
  have ordered := of.ordered
  simp only [extent, Extent.finish]
  rw [of.offset, of.size, ← Nat.add_mul]
  congr 1
  omega

theorem Partition.Of.disjoint {first second : Partition}
    (ofFirst : Partition.Of geometry header first) (ofSecond : Partition.Of geometry header second)
    (apart : first.Apart second) :
    first.extent.Disjoint second.extent := by
  refine apart.imp (fun before => ?_) fun after => ?_
  · rw [ofFirst.finish, extent, ofSecond.offset]
    exact Nat.mul_le_mul_right _ before
  · rw [ofSecond.finish, extent, ofFirst.offset]
    exact Nat.mul_le_mul_right _ after

theorem Partition.Of.apart_metadata (ofGeometry : Geometry.Of logicalBlockSize size geometry)
    (ofHeader : Header.Of geometry block header) (of : Partition.Of geometry header partition) :
    ∀ part ∈ metadata geometry.blockSize block, part.Disjoint partition.extent := by
  have first := of.first
  have last := of.last
  have after := ofHeader.after
  have before := ofHeader.before
  have alternate := ofHeader.alternate
  rw [ofHeader.first] at first
  rw [ofHeader.last] at last
  -- everything but the alternate header ends where the entry array does
  have starts : (Block.entryLba block +
      divCeil (Block.entryCount block * entrySize) geometry.blockSize) *
        geometry.blockSize ≤ partition.offset := by
    rw [of.offset]
    exact Nat.mul_le_mul_right _ (before.trans first)
  have covered := le_divCeil_mul (Block.entryCount block * entrySize)
    (Nat.lt_of_lt_of_le (by decide) ofGeometry.large)
  have header := Nat.mul_le_mul_right geometry.blockSize after
  rw [Nat.add_mul] at starts
  rw [Nat.succ_mul, Nat.one_mul] at header
  have large := ofGeometry.large
  simp only [metadata, List.forall_mem_cons]
  refine ⟨.inl ?_, .inl ?_, .inr ?_, .inl ?_, fun _ member =>
    absurd member List.not_mem_nil⟩
  · change 0 + 512 ≤ partition.offset
    omega
  · change geometry.blockSize + geometry.blockSize ≤ partition.offset
    omega
  · rw [of.finish]
    exact Nat.mul_le_mul_right _ (Nat.lt_of_le_of_lt last alternate)
  · change Block.entryLba block * geometry.blockSize +
      Block.entryCount block * entrySize ≤ partition.offset
    omega

theorem PartitionsOf.wellFormed {partitions : List Partition}
    (ofGeometry : Geometry.Of logicalBlockSize size geometry)
    (ofHeader : Header.Of geometry block header) (of : PartitionsOf geometry header partitions) :
    Disk.WellFormed ⟨logicalBlockSize, size, header.diskGuid, partitions⟩ block where
  few := of.few
  many := of.many
  numbered := of.numbered
  usable partition member := by
    rw [← ofHeader.first, ← ofHeader.last]
    exact ⟨(of.each partition member).first, (of.each partition member).ordered,
      (of.each partition member).last⟩
  disjoint := of.apart.imp_of_mem fun first second apart =>
    (of.each _ first).disjoint (of.each _ second) apart
  apart partition member := by
    rw [← ofGeometry.blockSize]
    exact (of.each partition member).apart_metadata ofGeometry ofHeader
  extents partition member := by
    have last := (of.each partition member).last
    have alternate := ofHeader.alternate
    have inside := ofHeader.inside
    rw [ofHeader.last] at last
    rw [← ofGeometry.blockSize]
    refine ⟨(of.each partition member).offset, (of.each partition member).size, ?_⟩
    exact (of.each partition member).finish.trans_le (ofGeometry.mul_le_size (by omega))
  named partition member := (of.each partition member).guid
  distinct := of.guids

end

theorem passes_expect [DecidableEq Value] (expected : Option Value)
    (found : Value) (error : Value → GptError) :
    Passes (fun _ => True) (expect expected found error) := by
  cases expected with
  | none => trivial
  | some expected => exact (Passes.refuse _ _).mono fun _ _ => trivial

theorem Expected.passes_checkEach (pairs : List (ExpectedPartition × Partition)) :
    Passes (fun _ => True) (Expected.checkEach pairs) := by
  induction pairs with
  | nil => trivial
  | cons pair rest induction =>
    exact ((passes_expect _ _ _).bind fun _ _ => passes_expect _ _ _).bind fun _ _ => induction

theorem Expected.passes_check (expected : Expected) (disk : Disk) :
    Passes (fun _ => True) (expected.check disk) := by
  refine (passes_expect _ _ _).bind fun _ _ => ?_
  cases expected.partitions with
  | none => trivial
  | some partitions =>
    exact (Passes.refuse _ _).bind fun _ _ => Expected.passes_checkEach _

/-- A reading computation asks only `asks` of its source, never panics, and
returns only `returns`. -/
abbrev Obeys (source : Source) (asks : Extent → Prop) (returns : Value → Prop)
    (reading : Reading Value) : Prop :=
  Conducts source asks (· ≠ Fault.panicked) returns reading

theorem obeys_readExactAt (allowed : asks ⟨offset, length⟩) :
    Obeys source asks (fun bytes => source ⟨offset, length⟩ = .ok bytes)
      (readExactAt offset length) := by
  refine Conducts.ask allowed ?_
  split
  case h_1 bytes answered => exact answered
  case h_2 => exact Fault.noConfusion

/-- What the reader may ask for: the protective MBR, the primary header block,
and the entry array that this block places. -/
inductive Consulted (source : Source) (blockSize : Nat) : Extent → Prop where
  | mbr : Consulted source blockSize ⟨0, mbrSize⟩
  | header : Consulted source blockSize ⟨blockSize, blockSize⟩
  | entries {block : Bytes blockSize} (read : source ⟨blockSize, blockSize⟩ = .ok block) :
      Consulted source blockSize ⟨Block.entryLba block.val * blockSize,
          Block.entryCount block.val * entrySize⟩

def Extent.Inside (size : UInt64) (extent : Extent) : Prop :=
  extent.finish ≤ size.toNat

def Disk.Accepted (source : Source) (logicalBlockSize : UInt32) (size : UInt64)
    (disk : Disk) : Prop :=
  disk.logicalBlockSize = logicalBlockSize ∧ disk.size = size ∧
    ∃ block : Bytes logicalBlockSize.toNat,
      source ⟨logicalBlockSize.toNat, logicalBlockSize.toNat⟩ = .ok block ∧
        disk.WellFormed block.val

def Allowed (source : Source) (geometry : Geometry) (size : UInt64) (extent : Extent) : Prop :=
  extent.Inside size ∧ Consulted source geometry.blockSize extent

theorem obeys_checkProtectiveMbr (of : Geometry.Of logicalBlockSize size geometry) :
    Obeys source (Allowed source geometry size) (fun _ => True)
      checkProtectiveMbr := by
  have large := of.large
  have one := of.mul_le_size (Nat.le_of_succ_le of.blocks)
  have inside : Extent.Inside size ⟨0, mbrSize⟩ := by
    change 0 + 512 ≤ size.toNat
    omega
  exact (obeys_readExactAt ⟨inside, .mbr⟩).bind fun mbr _ =>
    Conducts.ofExcept (passes_checkMbr mbr.property)

theorem obeys_readHeader (of : Geometry.Of logicalBlockSize size geometry) :
    Obeys source (Allowed source geometry size) (fun header => ∃ block : Bytes geometry.blockSize,
        source ⟨geometry.blockSize, geometry.blockSize⟩ = .ok block ∧
          Header.Of geometry block.val header)
      (readHeader geometry) := by
  have inside : Extent.Inside size ⟨geometry.blockSize, geometry.blockSize⟩ :=
    (Nat.two_mul geometry.blockSize).symm.trans_le (of.mul_le_size of.blocks)
  exact (obeys_readExactAt ⟨inside, .header⟩).bind fun block read =>
    Conducts.ofExcept <| (passes_checkHeader of.large block.property).bind fun _ _ =>
      (passes_layout of block.property).mono fun header ofHeader =>
        ⟨block, read, ofHeader⟩

theorem obeys_readPartitions {block : Bytes geometry.blockSize}
    (of : Geometry.Of logicalBlockSize size geometry)
    (read : source ⟨geometry.blockSize, geometry.blockSize⟩ = .ok block)
    (ofHeader : Header.Of geometry block.val header) :
    Obeys source (Allowed source geometry size) (PartitionsOf geometry header)
      (readPartitions geometry header) := by
  have before := ofHeader.before
  have usable := ofHeader.usable
  have alternate := ofHeader.alternate
  have inside := ofHeader.inside
  have ends := of.mul_le_size (show Block.entryLba block.val +
    divCeil (Block.entryCount block.val * entrySize) geometry.blockSize ≤ geometry.blocks by omega)
  have covered := le_divCeil_mul (Block.entryCount block.val * entrySize)
    (Nat.lt_of_lt_of_le (by decide) of.large)
  have words : header.lastUsableLba + 1 < wordSize 64 := by
    have bound := of.blocks_lt
    rw [ofHeader.last]
    omega
  have allowed : Allowed source geometry size ⟨header.entryArrayOffset, header.entryArraySize⟩ := by
    rw [ofHeader.offset, ofHeader.size]
    rw [Nat.add_mul] at ends
    exact ⟨(Nat.add_le_add_left covered _).trans ends, .entries read⟩
  exact (obeys_readExactAt allowed).bind fun array _ =>
    Conducts.ofExcept (passes_entryPartitions array.val words)

namespace Disk

theorem obeys_read (source : Source) (logicalBlockSize : UInt32)
    (size : UInt64) (expected : Expected) :
    Obeys source (fun extent => extent.Inside size ∧ Consulted source logicalBlockSize.toNat extent)
      (Accepted source logicalBlockSize size)
      (read logicalBlockSize size expected) := by
  refine (Conducts.ofExcept (Geometry.passes_new logicalBlockSize size)).bind ?_
  rintro ⟨blockSize, blocks⟩ ofGeometry
  obtain rfl := ofGeometry.blockSize
  refine (obeys_checkProtectiveMbr ofGeometry).bind fun _ _ =>
    (obeys_readHeader ofGeometry).bind ?_
  rintro header ⟨block, isBlock, ofHeader⟩
  refine (obeys_readPartitions ofGeometry isBlock ofHeader).bind fun partitions ofPartitions =>
    (Conducts.ofExcept (expected.passes_check _)).bind fun _ _ =>
    Conducts.ofExcept ?_
  exact ⟨rfl, rfl, block, isBlock, ofPartitions.wellFormed ofGeometry ofHeader⟩

/-- The first partition of a well-formed disk is read from inside the disk. -/
theorem WellFormed.obeys_readFirstPartition
    (wellFormed : WellFormed disk block) (source : Source) (bound : Nat) :
    Obeys source (fun extent => extent.Inside disk.size) (fun _ => True)
      (disk.readFirstPartition bound) := by
  obtain ⟨partition, others, whole⟩ :=
    List.exists_cons_of_length_pos (Nat.lt_of_lt_of_le (by decide) wellFormed.few)
  have first : Passes (· = partition) disk.firstPartition := by
    rw [firstPartition, whole]
    rfl
  have inside := (wellFormed.extents partition (whole ▸ List.mem_cons_self)).2.2
  refine (Conducts.ofExcept first).bind ?_
  rintro _ rfl
  exact (Conducts.ofExcept (Passes.refuse _ _)).bind fun _ _ =>
    (obeys_readExactAt inside).bind fun _ _ => Conducts.ofExcept trivial

/-- Every read of the reader lies in the disk, nothing overflows, an accepted
disk is well formed, and what the reader returns depends on no bytes but those
of the protective MBR, the primary header block and the entry array. -/
theorem accepted_disk_is_well_formed (source : Source)
    (logicalBlockSize : UInt32) (size : UInt64) (expected : Expected) :
    (∀ extent ∈ ((read logicalBlockSize size expected).run.run source).1,
      extent.offset + extent.length ≤ size.toNat) ∧
    ((read logicalBlockSize size expected).run.run source).2 ≠ .error .panicked ∧
    (∀ disk, ((read logicalBlockSize size expected).run.run source).2 = .ok disk →
      disk.logicalBlockSize = logicalBlockSize ∧ disk.size = size ∧
      (∃ block : Bytes logicalBlockSize.toNat,
        source ⟨logicalBlockSize.toNat, logicalBlockSize.toNat⟩ = .ok block ∧
          disk.WellFormed block.val) ∧
      ∀ (image : Source) (bound : Nat),
        (∀ extent ∈ ((disk.readFirstPartition bound).run.run image).1,
          extent.offset + extent.length ≤ size.toNat) ∧
        ((disk.readFirstPartition bound).run.run image).2 ≠ .error .panicked) ∧
    ∀ other : Source, (∀ extent, Consulted source logicalBlockSize.toNat extent →
        other extent = source extent) →
      (read logicalBlockSize size expected).run.run other =
        (read logicalBlockSize size expected).run.run source := by
  have obeys := obeys_read source logicalBlockSize size expected
  refine ⟨fun extent asked => (obeys.asked extent asked).1, ?_, ?_, ?_⟩
  · intro panicked
    have result := obeys.result
    rw [panicked] at result
    exact result rfl
  · intro disk returned
    have result := obeys.result
    rw [returned] at result
    obtain ⟨sameBlock, sameSize, block, read, wellFormed⟩ := result
    refine ⟨sameBlock, sameSize, ⟨block, read, wellFormed⟩, fun image bound => ?_⟩
    have first := wellFormed.obeys_readFirstPartition image bound
    rw [sameSize] at first
    refine ⟨first.asked, fun panicked => ?_⟩
    have result := first.result
    rw [panicked] at result
    exact result rfl
  · intro other agree
    exact Dialogue.run_congr fun extent asked =>
      agree extent (obeys.asked extent asked).2

end Disk

end Nvx.Gpt
