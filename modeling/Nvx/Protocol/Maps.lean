import Nvx.Protocol.Basic

namespace Nvx.Protocol

open Nvx.Data

/-! `MAPS` payloads: consecutive entries of the host mapping table. -/

def maxHostMappings : Nat := 4096
def maxMapPathBytes : Nat := 4095
def mapsHeaderLen : Nat := 8
def mapEntryHeaderLen : Nat := 6
def mapReadOnly : UInt16 := 1

/-- One bind mount, whose paths the host holds as text and the guest as bytes. -/
structure MapOf (Path : Type) where
  source : Path
  target : Path
  readOnly : Bool
  deriving DecidableEq, Repr

abbrev HostMap : Type := MapOf String
abbrev GuestHostMap : Type := MapOf (List UInt8)

structure PayloadOf (Path : Type) where
  first : UInt32
  maps : List (MapOf Path)
  deriving DecidableEq, Repr

abbrev MapsPayload : Type := PayloadOf String
abbrev GuestMapsPayload : Type := PayloadOf (List UInt8)

def dot : UInt8 := 46

def Normal (components : List UInt8) : Prop :=
  components ≠ [] ∧ ∀ component ∈ components.splitOn slash, component ∉ [[], [dot], [dot, dot]]

instance (components : List UInt8) : Decidable (Normal components) :=
  inferInstanceAs (Decidable (_ ∧ _))

def Acceptable (source target : List UInt8) : Prop :=
  (∀ path ∈ [source, target], path.length ≤ maxMapPathBytes ∧ 0 ∉ path) ∧
    (source = [] ∨ Normal source) ∧
    target.head? = some slash ∧ Normal target.tail

instance (source target : List UInt8) : Decidable (Acceptable source target) :=
  inferInstanceAs (Decidable (_ ∧ _ ∧ _ ∧ _))

def entryLen (map : HostMap) : Nat :=
  mapEntryHeaderLen + (asBytes map.source).length + (asBytes map.target).length

/-- The payloads that are complete, the one that is being packed, and the number
of its entries. -/
structure Packing where
  payloads : List (List UInt8)
  payload : List UInt8
  count : UInt32

namespace Packing

def empty : Packing :=
  ⟨[], [], 0⟩

/-- Writes the number of entries into the header of the payload, and completes
it. -/
def complete (packing : Packing) : List (List UInt8) :=
  packing.payloads ++ [packing.payload.take 4 ++
    LittleEndian.ofUInt32 packing.count ++ packing.payload.drop 8]

def flush (packing : Packing) : Packing :=
  ⟨packing.complete, [], 0⟩

def start (index : Nat) (packing : Packing) : Packing :=
  { packing with
    payload := packing.payload ++ LittleEndian.ofUInt32 (lengthU32 index) ++
      LittleEndian.ofUInt32 0 }

def push (map : HostMap) (packing : Packing) : Packing :=
  { packing with
    payload := packing.payload ++ LittleEndian.ofUInt16 (if map.readOnly then mapReadOnly else 0) ++
      LittleEndian.ofUInt16 (lengthU16 (asBytes map.source).length) ++
      LittleEndian.ofUInt16 (lengthU16 (asBytes map.target).length) ++
      asBytes map.source ++ asBytes map.target
    count := packing.count + 1 }

def add (limit index : Nat) (map : HostMap) (packing : Packing) :
    Except ProtocolError Packing :=
  if ¬ Acceptable (asBytes map.source) (asBytes map.target) then
    .error (violation ("a host mapping needs a source that is empty, for the " ++
      "export's root, or relative, and an absolute target, each of at most " ++
      s!"{maxMapPathBytes} bytes without NUL characters or empty, " ++
      "`.`, or `..` components"))
  else if limit < mapsHeaderLen + entryLen map then
    .error (violation "a host mapping exceeds the control protocol limit")
  else
    let packing :=
      if 0 < packing.count ∧ limit < packing.payload.length + entryLen map then
        packing.flush
      else packing
    let packing := if packing.count = 0 then packing.start index else packing
    .ok (packing.push map)

def addAll (limit : Nat) : Nat → List HostMap → Packing → Except ProtocolError Packing
  | _, [], packing => .ok packing
  | index, map :: maps, packing => do
      let packing ← packing.add limit index map
      addAll limit (index + 1) maps packing

end Packing

def encodeMapsPayloads (maps : List HostMap) (limit : Nat) :
    Except ProtocolError (List (List UInt8)) :=
  if maps = [] ∨ maxHostMappings < maps.length then
    .error (violation s!"a host mapping table holds 1 to {maxHostMappings} entries")
  else do
    let packing ← Packing.addAll limit 0 maps .empty
    .ok packing.complete

def mapsTruncated : ProtocolError :=
  violation "the host mapping request is truncated"

def orMapsTruncated (value : Option α) : Except ProtocolError α :=
  match value with
  | some value => .ok value
  | none => .error mapsTruncated

section Decoder

variable {Path : Type} (asRef : Path → List UInt8) (path : List UInt8 → Except ProtocolError Path)

def takePath (length : Nat) (payload : List UInt8) (offset : Nat) :
    Except ProtocolError (Path × Nat) :=
  if payload.length < offset + length then .error mapsTruncated
  else do
    let text ← path (slice offset length payload)
    .ok (text, offset + length)

def decodeMapsEntry (payload : List UInt8) (offset : Nat) :
    Except ProtocolError (MapOf Path × Nat) := do
  let flags ← orMapsTruncated (u16At payload offset)
  let sourceLen ← orMapsTruncated (u16At payload (offset + 2))
  let targetLen ← orMapsTruncated (u16At payload (offset + 4))
  let (source, offset) ←
    takePath path sourceLen.toNat payload (offset + mapEntryHeaderLen)
  let (target, offset) ← takePath path targetLen.toNat payload offset
  if flags &&& ~~~ mapReadOnly ≠ 0 ∨ ¬ Acceptable (asRef source) (asRef target) then
    .error (violation ("a host mapping has unknown flags or a source or target " ++
      "that the guest agent refuses"))
  else .ok (⟨source, target, flags &&& mapReadOnly ≠ 0⟩, offset)

def decodeMapsEntries (payload : List UInt8) (count : UInt32) :
    Except ProtocolError (List (MapOf Path)) := do
  let (maps, offset) ←
    readMany (decodeMapsEntry asRef path) count.toNat payload mapsHeaderLen
  if offset ≠ payload.length then
    .error (violation "the host mapping request has trailing bytes")
  else .ok maps

end Decoder

def textPath (bytes : List UInt8) : Except ProtocolError String :=
  match fromUtf8 bytes with
  | some text => .ok text
  | none => .error (violation "a host mapping is not valid UTF-8")

def decodeMapsPayload (payload : List UInt8) :
    Except ProtocolError MapsPayload := do
  let first ← orMapsTruncated (u32At payload 0)
  let count ← orMapsTruncated (u32At payload 4)
  let maps ← decodeMapsEntries asBytes textPath payload count
  .ok ⟨first, maps⟩

def decodeGuestMapsPayload (payload : List UInt8) :
    Except ProtocolError GuestMapsPayload := do
  let first ← orMapsTruncated (u32At payload 0)
  let count ← orMapsTruncated (u32At payload 4)
  if maxHostMappings < count.toNat then
    .error (violation "the host mapping request has too many entries")
  else do
    let maps ← decodeMapsEntries id .ok payload count
    .ok ⟨first, maps⟩

end Nvx.Protocol
