import Nvx.Activation.Basic
import Nvx.Data.Dialogue
import Nvx.Data.Word

namespace Nvx.Gpt

open Nvx.Data
open Nvx.Activation (Uuid)

/-! GPT disks (`gpt/mod.rs`, `gpt/crc.rs`, `gpt/error.rs`).  The words of a
disk are natural numbers; where the source's arithmetic or indexing would
panic, the model fails with `panicked`. -/

def minLogicalBlockSize : Nat := 512
def maxLogicalBlockSize : Nat := 64 * 1024
def entrySize : Nat := 128
def maxEntryArrayBytes : Nat := 1024 * 1024
def minPartitions : Nat := 2
def maxPartitions : Nat := 255
def mbrSize : Nat := 512
def mbrRecordsOffset : Nat := 446
def mbrRecordSize : Nat := 16
def mbrSignatureOffset : Nat := 510
def mbrSignature : List UInt8 := [0x55, 0xAA]
def mbrRecordTypeOffset : Nat := 4
def mbrRecordStartOffset : Nat := 8
def protectiveType : UInt8 := 0xEE
def primaryHeaderLba : Nat := 1

def signature : List UInt8 := [0x45, 0x46, 0x49, 0x20, 0x50, 0x41, 0x52, 0x54]

def revision : Nat := 0x00010000
def headerFieldsSize : Nat := 92

inductive GptError where
  | io (error : String)
  | logicalBlockSize (size : UInt32)
  | diskSize (size : UInt64) (logicalBlockSize : UInt32)
  | mbrSignature
  | noProtectiveRecord
  | protectiveRecordStart (lba : Nat)
  | mbrRecords
  | signature
  | revision (revision : Nat)
  | headerSize (size : Nat)
  | headerCrc (stored computed : UInt32)
  | headerReserved (value : Nat)
  | myLba (lba : Nat)
  | entrySize (size : Nat)
  | entryCount (count : Nat)
  | entryArrayLba (lba : Nat)
  | firstUsableLba (lba : Nat)
  | lastUsableLba (lba : Nat)
  | alternateLba (lba : Nat)
  | nilDiskGuid
  | entryArrayCrc (stored computed : UInt32)
  | hole (unused used : Nat)
  | partitionCount (count : Nat)
  | extent (number firstLba lastLba : Nat)
  | nilPartitionGuid (number : Nat)
  | duplicateGuid (number : Nat)
  | overlap (first second : Nat)
  | diskGuidMismatch (expected found : Uuid)
  | partitionCountMismatch (expected found : Nat)
  | partitionGuidMismatch (number : Nat) (expected found : Uuid)
  | partitionSizeMismatch (number expected found : Nat)
  | firstPartitionTooLarge (size bound : Nat)
  deriving DecidableEq

/-- Why the reader stopped: a check of the source, or an overflow or an index
out of range, which no check of the source reports. -/
inductive Fault where
  | refused (error : GptError)
  | panicked
  deriving DecidableEq

def refuse (fails : Prop) [Decidable fails] (error : GptError) :
    Except Fault Unit :=
  if fails then .error (.refused error) else .ok ()

def okOr (value : Option Value) (error : GptError) : Except Fault Value :=
  match value with
  | some value => .ok value
  | none => .error (.refused error)

def unchecked (value : Nat) : Except Fault Nat :=
  if value < wordSize 64 then .ok value else .error .panicked

def uncheckedSub (left right : Nat) : Except Fault Nat :=
  if right ≤ left then .ok (left - right) else .error .panicked

def range (bytes : List UInt8) (start finish : Nat) : Except Fault (List UInt8) :=
  if start ≤ finish ∧ finish ≤ bytes.length then
    .ok (slice start (finish - start) bytes)
  else .error .panicked

def u32At (bytes : List UInt8) (offset : Nat) : Except Fault Nat := do
  let field ← range bytes offset (offset + 4)
  pure (LittleEndian.decode field)

def u64At (bytes : List UInt8) (offset : Nat) : Except Fault Nat := do
  let field ← range bytes offset (offset + 8)
  pure (LittleEndian.decode field)

def Uuid.swapGroups : List UInt8 → List UInt8
  | a :: b :: c :: d :: e :: f :: g :: h :: rest =>
    d :: c :: b :: a :: f :: e :: h :: g :: rest
  | bytes => bytes

theorem Uuid.length_swapGroups (bytes : List UInt8) :
    (Uuid.swapGroups bytes).length = bytes.length := by
  unfold swapGroups
  split <;> rfl

def Uuid.fromBytesLe (bytes : Bytes 16) : Uuid :=
  ⟨Uuid.swapGroups bytes.val, (Uuid.length_swapGroups bytes.val).trans bytes.property⟩

def Uuid.nil : Uuid := Bytes.zero 16

def guidAt (bytes : List UInt8) (offset : Nat) : Except Fault Uuid :=
  if fits : offset + 16 ≤ bytes.length then
    .ok (Uuid.fromBytesLe ⟨slice offset 16 bytes, length_slice fits⟩)
  else .error .panicked

def chunksExact (width : Nat) (bytes : List UInt8) : List (List UInt8) :=
  (List.range (bytes.length / width)).map fun index =>
    slice (index * width) width bytes

namespace Crc32

def polynomial : UInt32 := 0xEDB88320

def shifted (crc : UInt32) : UInt32 :=
  if crc &&& 1 = 0 then crc >>> 1 else (crc >>> 1) ^^^ polynomial

def table (byte : UInt8) : UInt32 :=
  Nat.iterate shifted 8 byte.toUInt32

def start : UInt32 := 0xFFFFFFFF

def update (state : UInt32) (bytes : List UInt8) : UInt32 :=
  bytes.foldl (fun state byte =>
    (state >>> 8) ^^^ table (state.toUInt8 ^^^ byte)) state

def finish (state : UInt32) : UInt32 := ~~~state

end Crc32

def crc32 (bytes : List UInt8) : UInt32 :=
  Crc32.finish (Crc32.update Crc32.start bytes)

/-- The check value that the source's tests use: the CRC of the digits. -/
example : crc32 [0x31, 0x32, 0x33, 0x34, 0x35, 0x36, 0x37, 0x38, 0x39] = 0xCBF43926 := by
  decide

structure Extent where
  offset : Nat
  length : Nat
  deriving DecidableEq

namespace Extent

def finish (extent : Extent) : Nat := extent.offset + extent.length

def Disjoint (first second : Extent) : Prop :=
  first.finish ≤ second.offset ∨ second.finish ≤ first.offset

end Extent

abbrev Answer (extent : Extent) : Type := Except String (Bytes extent.length)

abbrev Source : Type := (extent : Extent) → Answer extent

abbrev Reading : Type → Type := ExceptT Fault (Dialogue Extent Answer)

def readExactAt (offset length : Nat) : Reading (Bytes length) :=
  ExceptT.mk (.ask ⟨offset, length⟩ fun answer => .done (match answer with
    | .ok bytes => .ok bytes
    | .error error => .error (.refused (.io error))))

def check (result : Except Fault Value) : Reading Value :=
  ExceptT.mk (pure result)

structure Geometry where
  blockSize : Nat
  blocks : Nat

namespace Geometry

def «new» (logicalBlockSize : UInt32) (size : UInt64) :
    Except Fault Geometry := do
  let blockSize := logicalBlockSize.toNat
  refuse (!isPowerOfTwo logicalBlockSize ∨ blockSize < minLogicalBlockSize ∨
      maxLogicalBlockSize < blockSize) (.logicalBlockSize logicalBlockSize)
  let blocks := size.toNat / blockSize
  refuse (size.toNat % blockSize ≠ 0 ∨ blocks ≤ primaryHeaderLba) (.diskSize size logicalBlockSize)
  pure ⟨blockSize, blocks⟩

def lastLba (geometry : Geometry) : Except Fault Nat :=
  uncheckedSub geometry.blocks 1

def bytes (geometry : Geometry) (blocks : Nat) : Option Nat :=
  checkedMul 64 blocks geometry.blockSize

end Geometry

def checkMbr (mbr : List UInt8) : Except Fault Unit := do
  let trailer ← range mbr mbrSignatureOffset mbr.length
  refuse (trailer ≠ mbrSignature) .mbrSignature
  let area ← range mbr mbrRecordsOffset mbrSignatureOffset
  let records := chunksExact mbrRecordSize area
  let protective ← okOr (records.findIdx? fun record =>
    record[mbrRecordTypeOffset]? = some protectiveType) .noProtectiveRecord
  let start ← u32At (records.getD protective []) mbrRecordStartOffset
  refuse (start ≠ primaryHeaderLba) (.protectiveRecordStart start)
  refuse ((records.eraseIdx protective).flatten.any (· ≠ 0)) .mbrRecords

def checkProtectiveMbr : Reading Unit := do
  let mbr ← readExactAt 0 mbrSize
  check (checkMbr mbr.val)

structure Header where
  firstUsableLba : Nat
  lastUsableLba : Nat
  diskGuid : Uuid
  entryArrayOffset : Nat
  entryArraySize : Nat
  entryArrayCrc : UInt32

def checkHeader (geometry : Geometry) (block : List UInt8) :
    Except Fault Unit := do
  let found ← range block 0 8
  refuse (found ≠ signature) .signature
  let version ← u32At block 8
  refuse (version ≠ revision) (.revision version)
  let headerSize ← u32At block 12
  refuse (headerSize < headerFieldsSize ∨ geometry.blockSize < headerSize) (.headerSize headerSize)
  let stored ← u32At block 16
  let before ← range block 0 16
  let after ← range block 20 headerSize
  let computed := Crc32.finish (Crc32.update (Crc32.update
    (Crc32.update Crc32.start before) [0, 0, 0, 0]) after)
  refuse (UInt32.ofNat stored ≠ computed) (.headerCrc (UInt32.ofNat stored) computed)
  let reserved ← u32At block 20
  refuse (reserved ≠ 0) (.headerReserved reserved)
  let myLba ← u64At block 24
  refuse (myLba ≠ primaryHeaderLba) (.myLba myLba)

def layout (geometry : Geometry) (block : List UInt8) : Except Fault Header := do
  let size ← u32At block 84
  refuse (size ≠ entrySize) (.entrySize size)
  let entryCount ← u32At block 80
  let entryArraySize ← unchecked (entryCount * entrySize)
  refuse (entryCount = 0 ∨ maxEntryArrayBytes < entryArraySize) (.entryCount entryCount)
  let entryLba ← u64At block 72
  let lastLba ← geometry.lastLba
  let entryEnd ← okOr ((checkedAdd 64 entryLba
      (divCeil entryArraySize geometry.blockSize)).filter fun finish =>
    primaryHeaderLba < entryLba && finish ≤ lastLba) (.entryArrayLba entryLba)
  let firstUsableLba ← u64At block 40
  refuse (firstUsableLba < entryEnd) (.firstUsableLba firstUsableLba)
  let lastUsableLba ← u64At block 48
  refuse (lastUsableLba < firstUsableLba ∨ lastLba ≤ lastUsableLba) (.lastUsableLba lastUsableLba)
  let alternateLba ← u64At block 32
  refuse (alternateLba ≤ lastUsableLba ∨ lastLba < alternateLba) (.alternateLba alternateLba)
  let diskGuid ← guidAt block 56
  refuse (diskGuid = Uuid.nil) .nilDiskGuid
  let entryArrayOffset ← okOr (geometry.bytes entryLba) (.entryArrayLba entryLba)
  let entryArrayCrc ← u32At block 88
  pure {
    firstUsableLba := firstUsableLba
    lastUsableLba := lastUsableLba
    diskGuid := diskGuid
    entryArrayOffset := entryArrayOffset
    entryArraySize := entryArraySize
    entryArrayCrc := UInt32.ofNat entryArrayCrc }

def readHeader (geometry : Geometry) : Reading Header := do
  let block ← readExactAt geometry.blockSize geometry.blockSize
  check (do checkHeader geometry block.val; layout geometry block.val)

structure Partition where
  number : Nat
  typeGuid : Uuid
  uniqueGuid : Uuid
  attributes : Nat
  firstLba : Nat
  lastLba : Nat
  offset : Nat
  size : Nat
  deriving DecidableEq

/-- The number of used entries, none of which follows an unused one. -/
def countUsed : (number used : Nat) → (unused : Option Nat) → List (List UInt8) → Except Fault Nat
  | _, used, _, [] => pure used
  | number, used, unused, raw :: rest => do
      let typeGuid ← guidAt raw 0
      if typeGuid = Uuid.nil then
        countUsed (number + 1) used (unused.or (some number)) rest
      else match unused with
        | some unused => .error (.refused (.hole unused number))
        | none => countUsed (number + 1) (used + 1) none rest

def readEntry (geometry : Geometry) (header : Header) (guids : List Uuid)
    (number : Nat) (raw : List UInt8) : Except Fault Partition := do
  let firstLba ← u64At raw 32
  let lastLba ← u64At raw 40
  refuse (firstLba < header.firstUsableLba ∨ header.lastUsableLba < lastLba ∨
    lastLba < firstLba) (.extent number firstLba lastLba)
  let uniqueGuid ← guidAt raw 16
  refuse (uniqueGuid = Uuid.nil) (.nilPartitionGuid number)
  refuse (uniqueGuid ∈ guids) (.duplicateGuid number)
  let blocks ← uncheckedSub lastLba firstLba
  let blocks ← unchecked (blocks + 1)
  let offset ← okOr (geometry.bytes firstLba) (.extent number firstLba lastLba)
  let size ← okOr (geometry.bytes blocks) (.extent number firstLba lastLba)
  let typeGuid ← guidAt raw 0
  let attributes ← u64At raw 48
  pure {
    number := number
    typeGuid := typeGuid
    uniqueGuid := uniqueGuid
    attributes := attributes
    firstLba := firstLba
    lastLba := lastLba
    offset := offset
    size := size }

def readEntries (geometry : Geometry) (header : Header) : (guids : List Uuid) →
    List (Nat × List UInt8) → Except Fault (List Partition)
  | _, [] => pure []
  | guids, (number, raw) :: rest => do
      let partition ← readEntry geometry header guids number raw
      let others ← readEntries geometry header (guids ++ [partition.uniqueGuid]) rest
      pure (partition :: others)

def checkOverlap : List Partition → Except Fault Unit
  | first :: second :: rest => do
      refuse (second.firstLba ≤ first.lastLba) (.overlap (min first.number second.number)
          (max first.number second.number))
      checkOverlap (second :: rest)
  | _ => pure ()

def entryPartitions (geometry : Geometry) (header : Header)
    (array : List UInt8) : Except Fault (List Partition) := do
  let computed := crc32 array
  refuse (computed ≠ header.entryArrayCrc) (.entryArrayCrc header.entryArrayCrc computed)
  let entries := chunksExact entrySize array
  let used ← countUsed 1 0 none entries
  refuse (used < minPartitions ∨ maxPartitions < used) (.partitionCount used)
  let partitions ← readEntries geometry header [header.diskGuid]
    ((List.range' 1 255).zip (entries.take used))
  checkOverlap (partitions.mergeSort fun first second =>
    first.firstLba ≤ second.firstLba)
  pure partitions

def readPartitions (geometry : Geometry) (header : Header) : Reading (List Partition) := do
  let array ← readExactAt header.entryArrayOffset header.entryArraySize
  check (entryPartitions geometry header array.val)

structure Disk where
  logicalBlockSize : UInt32
  size : UInt64
  guid : Uuid
  partitions : List Partition
  deriving DecidableEq

structure ExpectedPartition where
  uniqueGuid : Option Uuid := none
  size : Option Nat := none
  deriving DecidableEq

def expect [DecidableEq Value] (expected : Option Value) (found : Value)
    (error : Value → GptError) : Except Fault Unit :=
  match expected with
  | some expected => refuse (expected ≠ found) (error expected)
  | none => .ok ()

def ExpectedPartition.check (expected : ExpectedPartition)
    (partition : Partition) : Except Fault Unit := do
  expect expected.uniqueGuid partition.uniqueGuid fun guid =>
    .partitionGuidMismatch partition.number guid partition.uniqueGuid
  expect expected.size partition.size fun size =>
    .partitionSizeMismatch partition.number size partition.size

structure Expected where
  diskGuid : Option Uuid := none
  partitions : Option (List ExpectedPartition) := none
  deriving DecidableEq

def Expected.checkEach : List (ExpectedPartition × Partition) → Except Fault Unit
  | [] => pure ()
  | (expected, partition) :: rest => do
      expected.check partition
      checkEach rest

def Expected.check (expected : Expected) (disk : Disk) : Except Fault Unit := do
  expect expected.diskGuid disk.guid fun guid => .diskGuidMismatch guid disk.guid
  match expected.partitions with
  | some partitions =>
    refuse (partitions.length ≠ disk.partitions.length)
      (.partitionCountMismatch partitions.length disk.partitions.length)
    checkEach (partitions.zip disk.partitions)
  | none => pure ()

namespace Disk

def read (logicalBlockSize : UInt32) (size : UInt64) (expected : Expected) :
    Reading Disk := do
  let geometry ← check (Geometry.new logicalBlockSize size)
  checkProtectiveMbr
  let header ← readHeader geometry
  let partitions ← readPartitions geometry header
  let disk : Disk := {
    logicalBlockSize := logicalBlockSize
    size := size
    guid := header.diskGuid
    partitions := partitions }
  check (expected.check disk)
  pure disk

def firstPartition (disk : Disk) : Except Fault Partition :=
  match disk.partitions with
  | partition :: _ => .ok partition
  | [] => .error .panicked

def isAsciiWhitespace (byte : UInt8) : Bool :=
  byte = 0x20 || byte = 0x09 || byte = 0x0A || byte = 0x0C || byte = 0x0D

/-- The bytes less the NUL bytes and the ASCII whitespace at their end. -/
def trimmed (bytes : List UInt8) : List UInt8 :=
  (bytes.reverse.dropWhile fun byte => byte = 0 || isAsciiWhitespace byte).reverse

def readFirstPartition (disk : Disk) (bound : Nat) : Reading (List UInt8) := do
  let partition ← check disk.firstPartition
  check (refuse (wordSize 64 ≤ partition.size ∨ bound < partition.size)
    (.firstPartitionTooLarge partition.size bound))
  let bytes ← readExactAt partition.offset partition.size
  pure (trimmed bytes.val)

end Disk

end Nvx.Gpt
