import Nvx.Activation.Basic
import Nvx.Data.ByteReader

namespace Nvx.Activation

open Nvx.Data

/-! The canonical encoding of an activation record (`activation/codec.rs`). -/

namespace Field

def all : List Field :=
  [.restore, .image, .imageIdentity, .upper, .overlay, .export, .mappings,
    .network, .dns, .proxy, .hostname, .machineId, .workloadIdentity, .resources]

def tag : Field → UInt8
  | .restore => 0x01
  | .image => 0x10
  | .imageIdentity => 0x11
  | .upper => 0x20
  | .overlay => 0x30
  | .export => 0x40
  | .mappings => 0x41
  | .network => 0x50
  | .dns => 0x51
  | .proxy => 0x52
  | .hostname => 0x60
  | .machineId => 0x61
  | .workloadIdentity => 0x62
  | .resources => 0x70

def fromTag (tag : UInt8) : Option Field :=
  all.find? fun field => field.tag == tag

theorem mem_all (field : Field) : field ∈ all := by
  cases field <;> decide

theorem fromTag_eq_some_iff {tag : UInt8} : fromTag tag = some field ↔ field.tag = tag := by
  constructor
  · intro found
    simpa using List.find?_some found
  · rintro rfl
    cases field <;> rfl

theorem tag_injective : Function.Injective tag := by
  intro first second same
  have found := fromTag_eq_some_iff.mpr same
  rw [fromTag_eq_some_iff.mpr rfl] at found
  exact (Option.some.inj found).symm

end Field

class Code (Choice : Type) where
  code : Choice → UInt8
  fromCode : UInt8 → Option Choice
  fromCode_eq_some_iff : ∀ {byte choice}, fromCode byte = some choice ↔ code choice = byte

def codePair (first second : Choice) (byte : UInt8) : Option Choice :=
  if byte = 1 then some first else if byte = 2 then some second else none

theorem codePair_eq_some_iff {first second choice : Choice} :
    codePair first second byte = some choice ↔
      first = choice ∧ byte = 1 ∨ second = choice ∧ byte = 2 := by
  unfold codePair
  split
  · rename_i one
    subst one
    simp
  · split
    · rename_i two
      subst two
      simp
    · simp [*]

/-- The codes of two choices, 1 for the first and 2 for the second. -/
@[reducible] def Code.pair [DecidableEq Choice] (first second : Choice)
    (all : ∀ choice, choice = first ∨ choice = second) (apart : first ≠ second) : Code Choice where
  code choice := if choice = first then 1 else 2
  fromCode := codePair first second
  fromCode_eq_some_iff := @fun byte choice => by
    rw [codePair_eq_some_iff]
    rcases all choice with rfl | rfl <;> simp [apart, apart.symm, eq_comm]

instance : Code ImageFormat := .pair .erofs .gpt (by rintro ⟨⟩ <;> simp) nofun

instance : Code Journal := .pair .allowed .forbidden (by rintro ⟨⟩ <;> simp) nofun

instance : Code OverlayMode :=
  .pair .trustedLowers .untrustedLowers (by rintro ⟨⟩ <;> simp) nofun

instance : Code ExportKind := .pair .directory .aggregate (by rintro ⟨⟩ <;> simp) nofun

instance : Code Publication := .pair .published .unpublished (by rintro ⟨⟩ <;> simp) nofun

instance : Code MachineIdMode := .pair .image .generated (by rintro ⟨⟩ <;> simp) nofun

def tmpfs : UInt8 := 1
def scratch : UInt8 := 2

/-- A field whose value is `parts`, one after the other.  The length is cast to
a byte. -/
def encodeField (field : Field) (parts : List (List UInt8)) : List UInt8 :=
  field.tag :: UInt8.ofNat (parts.map List.length).sum :: parts.flatten

def encodeRestore : Option RestoreSection → List UInt8
  | some restore =>
    encodeField .restore [restore.transaction.val,
      LittleEndian.ofUInt64 restore.template.generation.val,
      restore.template.key.val]
  | none => []

def encodeImage (image : Image) : List UInt8 :=
  match image with
  | .erofs binding _ =>
    encodeField .image [[Code.code image.format], binding.val]
  | .gpt binding _ firstPartitionBound =>
    encodeField .image [[Code.code image.format], binding.val,
      LittleEndian.ofUInt64 firstPartitionBound]

def encodeImageIdentity (image : Image) : List UInt8 :=
  match image.expected with
  | some expected => encodeField .imageIdentity [expected.val]
  | none => []

def encodeUpper : Upper → List UInt8
  | .tmpfs => encodeField .upper [[tmpfs]]
  | .scratch binding journal =>
    encodeField .upper [[scratch], binding.val, [Code.code journal]]

/-- The number of mappings follows an export, cast to sixteen bits. -/
def encodeExport (configuration : Configuration) : List UInt8 :=
  match configuration.export with
  | some shape =>
    encodeField .export [[Code.code shape.kind], shape.plan.val] ++ encodeField .mappings
        [LittleEndian.ofUInt16 (UInt16.ofNat configuration.mappings)]
  | none => []

def encodeDns : Option IpAddr → List UInt8
  | some (.v4 octets) => encodeField .dns [octets.val]
  | some (.v6 octets) => encodeField .dns [octets.val]
  | none => []

def encodeProxy : Option String → List UInt8
  | some proxy => encodeField .proxy [asBytes proxy]
  | none => []

def encodeNetwork : Option Network → List UInt8
  | some network =>
    encodeField .network [network.policy.val, [Code.code network.publication]] ++
      (encodeDns network.dns ++ encodeProxy network.proxy)
  | none => []

def encodeIdentity : Option WorkloadIdentity → List UInt8
  | some identity =>
    encodeField .workloadIdentity [LittleEndian.ofUInt32 identity.uid,
      LittleEndian.ofUInt32 identity.gid]
  | none => []

def encode (record : ActivationRecord) : List UInt8 :=
  let configuration := record.configuration
  LittleEndian.ofUInt16 version ++ (encodeRestore record.restore ++
    encodeImage configuration.image ++
    encodeImageIdentity configuration.image ++
    encodeUpper configuration.upper ++
    encodeField .overlay [[Code.code configuration.overlay]] ++
    encodeExport configuration ++
    encodeNetwork configuration.network ++
    encodeField .hostname [configuration.workload.hostname] ++
    encodeField .machineId [[Code.code configuration.workload.machineId]] ++
    encodeIdentity configuration.workload.identity ++
    encodeField .resources [LittleEndian.ofUInt32 configuration.resources.cpus,
      LittleEndian.ofUInt64 configuration.resources.memory])

structure Draft where
  restore : Option RestoreSection := none
  image : Option Image := none
  imageIdentity : Option Uuid := none
  upper : Option Upper := none
  overlay : Option OverlayMode := none
  «export» : Option Export := none
  mappings : Option Nat := none
  network : Option (Identity × Publication) := none
  dns : Option IpAddr := none
  proxy : Option String := none
  hostname : Option (List UInt8) := none
  machineId : Option MachineIdMode := none
  identity : Option WorkloadIdentity := none
  resources : Option ExpectedResources := none

structure Value where
  field : Field
  length : Nat

namespace Value

variable (value : Value)

def lengthError : ActivationError :=
  .fieldLength value.field value.length

def valueError : ActivationError :=
  .fieldValue value.field

def take (width : Nat) : ByteReader ActivationError (Bytes width) :=
  .takeBytes value.lengthError width

def orRefuse (choice : Option Choice) : Except ActivationError Choice :=
  match choice with
  | some choice => .ok choice
  | none => .error value.valueError

def code (Choice : Type) [Code Choice] : ByteReader ActivationError Choice := do
  let byte ← ByteReader.u8 value.lengthError
  StateT.lift (value.orRefuse (Code.fromCode byte))

def rest : ByteReader ActivationError (List UInt8) :=
  fun bytes => .ok (bytes, [])

def nonZero (number : UInt64) : Except ActivationError StoreGeneration :=
  if nonzero : number ≠ 0 then .ok ⟨number, nonzero⟩ else .error value.valueError

def readGeneration : ByteReader ActivationError StoreGeneration := do
  let number ← ByteReader.u64 value.lengthError
  StateT.lift (value.nonZero number)

def readRestore : ByteReader ActivationError RestoreSection := do
  let transaction ← value.take 16
  let generation ← value.readGeneration
  let key ← value.take 32
  pure { transaction, template := { generation, key } }

def readImageAs : ImageFormat → ByteReader ActivationError Image
  | .erofs => do
      let binding ← value.take 32
      pure (.erofs binding none)
  | .gpt => do
      let binding ← value.take 32
      let firstPartitionBound ← ByteReader.u64 value.lengthError
      pure (.gpt binding none firstPartitionBound)

def readImage : ByteReader ActivationError Image := do
  let format ← value.code ImageFormat
  value.readImageAs format

def readUpperAs (byte : UInt8) : ByteReader ActivationError Upper :=
  if byte = tmpfs then pure .tmpfs
  else if byte = scratch then do
    let binding ← value.take 32
    let journal ← value.code Journal
    pure (.scratch binding journal)
  else StateT.lift (.error value.valueError)

def readUpper : ByteReader ActivationError Upper := do
  let byte ← ByteReader.u8 value.lengthError
  value.readUpperAs byte

def readExport : ByteReader ActivationError Export := do
  let kind ← value.code ExportKind
  let plan ← value.take 32
  pure { kind, plan }

def mappingCount (mappings : UInt16) : Except ActivationError Nat :=
  if mappings = 0 then .error value.valueError else .ok mappings.toNat

def readMappings : ByteReader ActivationError Nat := do
  let mappings ← ByteReader.u16 value.lengthError
  StateT.lift (value.mappingCount mappings)

def readNetwork : ByteReader ActivationError (Identity × Publication) := do
  let policy ← value.take 32
  let publication ← value.code Publication
  pure (policy, publication)

def readDns : ByteReader ActivationError IpAddr :=
  if value.length = 4 then do
    let octets ← value.take 4
    pure (.v4 octets)
  else do
    let octets ← value.take 16
    pure (.v6 octets)

def proxyText (bytes : List UInt8) : Except ActivationError String :=
  match fromUtf8 bytes with
  | some text => .ok text
  | none => .error .proxyEndpoint

def readProxy : ByteReader ActivationError String := do
  let bytes ← rest
  StateT.lift (proxyText bytes)

def readIdentity : ByteReader ActivationError WorkloadIdentity := do
  let uid ← ByteReader.u32 value.lengthError
  let gid ← ByteReader.u32 value.lengthError
  pure { uid, gid }

def readResources : ByteReader ActivationError ExpectedResources := do
  let cpus ← ByteReader.u32 value.lengthError
  let memory ← ByteReader.u64 value.lengthError
  pure { cpus, memory }

def readWhole (read : ByteReader ActivationError Slot) (bytes : List UInt8) :
    Except ActivationError Slot := do
  let (slot, rest) ← read.run bytes
  if rest ≠ [] then .error value.lengthError else .ok slot

end Value

namespace Draft

def read (draft : Draft) (field : Field) (bytes : List UInt8) :
    Except ActivationError Draft :=
  let value : Value := { field, length := bytes.length }
  match field with
  | .restore => do
      let restore ← value.readWhole value.readRestore bytes
      .ok { draft with restore := some restore }
  | .image => do
      let image ← value.readWhole value.readImage bytes
      .ok { draft with image := some image }
  | .imageIdentity => do
      let imageIdentity ← value.readWhole (value.take 16) bytes
      .ok { draft with imageIdentity := some imageIdentity }
  | .upper => do
      let upper ← value.readWhole value.readUpper bytes
      .ok { draft with upper := some upper }
  | .overlay => do
      let overlay ← value.readWhole (value.code OverlayMode) bytes
      .ok { draft with overlay := some overlay }
  | .export => do
      let shape ← value.readWhole value.readExport bytes
      .ok { draft with «export» := some shape }
  | .mappings => do
      let mappings ← value.readWhole value.readMappings bytes
      .ok { draft with mappings := some mappings }
  | .network => do
      let network ← value.readWhole value.readNetwork bytes
      .ok { draft with network := some network }
  | .dns => do
      let dns ← value.readWhole value.readDns bytes
      .ok { draft with dns := some dns }
  | .proxy => do
      let proxy ← value.readWhole Value.readProxy bytes
      .ok { draft with proxy := some proxy }
  | .hostname => do
      let hostname ← value.readWhole Value.rest bytes
      .ok { draft with hostname := some hostname }
  | .machineId => do
      let machineId ← value.readWhole (value.code MachineIdMode) bytes
      .ok { draft with machineId := some machineId }
  | .workloadIdentity => do
      let identity ← value.readWhole value.readIdentity bytes
      .ok { draft with identity := some identity }
  | .resources => do
      let resources ← value.readWhole value.readResources bytes
      .ok { draft with resources := some resources }

def require (field : Field) (slot : Option Slot) : Except ActivationError Slot :=
  match slot with
  | some slot => .ok slot
  | none => .error (.missingField field)

end Draft

def Image.expecting (image : Image) : Option Uuid → Image
  | some expected =>
    match image with
    | .erofs binding _ => .erofs binding (some expected)
    | .gpt binding _ firstPartitionBound =>
      .gpt binding (some expected) firstPartitionBound
  | none => image

namespace Draft

def intoNetwork (draft : Draft) : Except ActivationError (Option Network) :=
  match draft.network with
  | some (policy, publication) =>
    .ok (some { policy, dns := draft.dns, publication, proxy := draft.proxy })
  | none =>
    if draft.dns.isSome then .error (.withoutNetwork .dns)
    else if draft.proxy.isSome then .error (.withoutNetwork .proxy)
    else .ok none

def intoRecord (draft : Draft) : Except ActivationError ActivationRecord := do
  let image ← require .image draft.image
  let upper ← require .upper draft.upper
  let overlay ← require .overlay draft.overlay
  let hostname ← require .hostname draft.hostname
  let machineId ← require .machineId draft.machineId
  let resources ← require .resources draft.resources
  let network ← draft.intoNetwork
  ActivationRecord.new draft.restore
    { image := image.expecting draft.imageIdentity
      upper
      overlay
      «export» := draft.export
      mappings := draft.mappings.getD 0
      network
      workload := { hostname, machineId, identity := draft.identity }
      resources }

end Draft

def lastExceeds (seen : List Field) (tag : UInt8) : Bool :=
  match seen.getLast? with
  | some last => tag < last.tag
  | none => false

def decodeFields (rest : List UInt8) (seen : List Field) (draft : Draft) :
    Except ActivationError Draft :=
  match rest with
  | [] => .ok draft
  | [_] => .error .truncated
  | tag :: length :: tail =>
    match Field.fromTag tag with
    | none => .error (.unknownField tag)
    | some field =>
      if field ∈ seen then .error (.duplicateField field)
      else if lastExceeds seen tag then .error (.fieldOrder field)
      else if tail.length < length.toNat then .error .truncated
      else do
        let draft ← draft.read field (tail.take length.toNat)
        decodeFields (tail.drop length.toNat) (seen ++ [field]) draft
termination_by rest.length
decreasing_by
  rw [List.length_drop]
  exact Nat.lt_succ_of_le (Nat.le_succ_of_le (Nat.sub_le _ _))

def decode (bytes : List UInt8) : Except ActivationError ActivationRecord :=
  if maxRecordBytes < bytes.length then .error (.tooLong bytes.length)
  else
    match bytes with
    | low :: high :: rest =>
      if LittleEndian.toUInt16 [low, high] ≠ version then
        .error (.version (LittleEndian.toUInt16 [low, high]))
      else do
        let draft ← decodeFields rest [] {}
        draft.intoRecord
    | _ => .error .truncated

end Nvx.Activation
