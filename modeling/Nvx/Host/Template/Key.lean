import Nvx.Host.Template.Canonical
import Nvx.Host.Template.Machine

namespace Nvx.Host.Template

open Nvx.Data
open Nvx.Host.Template.Canonical

/-! The compatibility key of a template (`host/template/key.rs`), and the
identities that it holds (`host/store/identity.rs`). -/

inductive ErrorCode where
  | unsupported
  | io
  | formatUnsupported
  deriving DecidableEq

structure TemplateError where
  code : ErrorCode
  message : String
  deriving DecidableEq

def maxIdentityLen : Nat := 128

def isToken (text : String) : Bool :=
  1 ≤ textLen text && textLen text ≤ maxIdentityLen && (asBytes text).all Activation.isAsciiGraphic

def tokenProblem (text what : String) : String :=
  what ++ " " ++ text.quote ++ " must hold 1 to " ++ toString maxIdentityLen ++
    " printable ASCII characters and no space"

structure ArtifactIdentity where
  text : String
  valid : isToken text = true
  deriving DecidableEq

def ArtifactIdentity.new (text : String) : Except TemplateError ArtifactIdentity :=
  if valid : isToken text = true then .ok ⟨text, valid⟩
  else .error ⟨.unsupported, tokenProblem text "artifact identity"⟩

structure RuntimeIdentity where
  openvmm : ArtifactIdentity
  kernel : ArtifactIdentity
  initramfs : ArtifactIdentity
  bootContract : UInt64
  controlContract : String
  controlSession : UInt64
  deriving DecidableEq

def RuntimeIdentity.check (runtime : RuntimeIdentity) : Except TemplateError Unit :=
  if isToken runtime.controlContract then .ok ()
  else .error ⟨.unsupported, tokenProblem runtime.controlContract "control contract revision"⟩

structure Contracts where
  snapshot : UInt64
  deviceState : UInt64
  time : UInt64
  restorePacket : UInt64
  activation : UInt64
  deriving DecidableEq

def Contracts.current : Contracts where
  snapshot := 2
  deviceState := 1
  time := 1
  restorePacket := 1
  activation := Activation.version.toUInt64

def maxSettings : Nat := 64
def maxNameLen : Nat := 64
def maxValueLen : Nat := 256

def isNameByte (byte : UInt8) : Bool :=
  isLowercase byte || isDigit byte || byte == 46 || byte == 45 || byte == 95

def isSettingName (name : String) : Bool :=
  1 ≤ textLen name && textLen name ≤ maxNameLen &&
    (asBytes name).head?.any isLowercase && (asBytes name).all isNameByte

def isSettingValue (value : String) : Bool :=
  textLen value ≤ maxValueLen && (asBytes value).all fun byte => 32 ≤ byte && byte < 127

def checkSetting (name value : String) : Except String Unit :=
  if !isSettingName name then
    .error ("invariant setting " ++ name.quote ++ " must be named by 1 to " ++
      toString maxNameLen ++ " lowercase ASCII letters, digits, '.', '-', or '_', " ++
      "starting with a letter")
  else if !isSettingValue value then
    .error ("the value of invariant setting " ++ name.quote ++
      " must hold at most " ++ toString maxValueLen ++
      " printable ASCII characters")
  else .ok ()

def before (first second : String) : Prop :=
  asBytes first < asBytes second

instance (first second : String) : Decidable (before first second) :=
  inferInstanceAs (Decidable (asBytes first < asBytes second))

@[ext] structure Invariants where
  settings : List (String × String)

namespace Invariants

def empty : Invariants := ⟨[]⟩

/-- The settings with a value of `name`, which replaces any earlier one. -/
def insert (name value : String) (settings : List (String × String)) : List (String × String) :=
  settings.filter (before ·.1 name) ++ (name, value) :: settings.filter (before name ·.1)

def «with» (invariants : Invariants) (name value : String) :
    Except TemplateError Invariants :=
  match checkSetting name value with
  | .error problem => .error ⟨.unsupported, problem⟩
  | .ok () =>
    if (invariants.settings.any fun setting => setting.1 == name) = false ∧
        invariants.settings.length = maxSettings then
      .error ⟨.unsupported, "a template holds at most " ++ toString maxSettings ++
        " invariant settings"⟩
    else .ok ⟨insert name value invariants.settings⟩

structure Valid (invariants : Invariants) : Prop where
  ascending : invariants.settings.Pairwise fun first second =>
    before first.1 second.1
  checked : ∀ setting ∈ invariants.settings, checkSetting setting.1 setting.2 = .ok ()
  few : invariants.settings.length ≤ maxSettings

end Invariants

def isProfileId (id : String) : Bool :=
  match (asBytes id).splitOn 46 with
  | [vendor, generation, 118 :: digits] =>
    isProfileWord vendor && isProfileWord generation && !digits.isEmpty &&
      digits.all isDigit && digits.head? != some 48 && decimal digits < 4294967296
  | _ => false

def cpuProfileProblem (profile : String) : Option String :=
  if profile != "auto" && profile != "host" && !isProfileId profile then
    some ("CPU profile " ++ profile.quote ++
      " must be \"auto\", \"host\", or a profile ID, VENDOR.GENERATION.vREVISION")
  else none

/-- A network that the class may attach: the arguments of its NIC, if it has one,
and the address of the guest. -/
structure SandboxNetwork where
  templateArguments : Except TemplateError (List String)
  guestNetwork : String

structure CaptureClass where
  runtime : RuntimeIdentity
  guestBuild : ArtifactIdentity
  hypervisor : Hypervisor
  cpuProfile : String
  processors : UInt32
  bootProcessors : UInt32
  memory : UInt64
  memoryCapacity : UInt64
  distro : BlockGeometry
  scratch : BlockGeometry
  network : Option SandboxNetwork
  invariants : Invariants
  settled : invariants.Valid

namespace CaptureClass

variable (capture : CaptureClass)

def networkArguments : Except TemplateError (List String) :=
  match capture.network with
  | none => .ok []
  | some network => network.templateArguments

def checkProfile : Except TemplateError Unit :=
  match cpuProfileProblem capture.cpuProfile with
  | some problem => .error ⟨.unsupported, problem⟩
  | none => .ok ()

def checkProcessors : Except TemplateError Unit :=
  if !processorCounts.contains capture.processors ||
      !processorCounts.contains capture.bootProcessors ||
      capture.processors < capture.bootProcessors then
    .error ⟨.unsupported, "a capture of " ++ toString capture.processors ++
      " processors with " ++ toString capture.bootProcessors ++
      " online at boot needs 1, 2, 4, or 8 of each, and no more online than in all"⟩
  else .ok ()

def checkMemory : Except TemplateError Unit :=
  if capture.memory == 0 || capture.memoryCapacity < capture.memory then
    .error ⟨.unsupported, "a capture of " ++ toString capture.memory ++
      " bytes of RAM needs a nonzero RAM and a capacity of at least it, not " ++
      toString capture.memoryCapacity⟩
  else .ok ()

def checkGeometry (role : String) (geometry : BlockGeometry) :
    Except TemplateError Unit :=
  match geometry.problem with
  | some problem => .error ⟨.unsupported, "the " ++ role ++
      " device of a capture is invalid: its " ++ problem⟩
  | none => .ok ()

def check : Except TemplateError Unit := do
  capture.runtime.check
  capture.checkProfile
  capture.checkProcessors
  capture.checkMemory
  checkGeometry "distro" capture.distro
  checkGeometry "scratch" capture.scratch
  let _ ← capture.networkArguments
  .ok ()

end CaptureClass

structure TemplateKey where
  runtime : RuntimeIdentity
  guestBuild : ArtifactIdentity
  contracts : Contracts
  machine : Machine
  filesystemTag : String
  invariants : Invariants

def mountTag : String := "microvm"

def hostGeneration : String := "host"

def dotted (octets : List UInt8) : String :=
  ".".intercalate (octets.map toString)

def guestNetworkOf (nic : Nic) : String :=
  dotted nic.ipv4.val ++ "/" ++ toString nic.prefixLength

def BlockGeometry.debug (geometry : BlockGeometry) : String :=
  "BlockGeometry \x7b length: " ++ toString geometry.length ++
    ", logical_block_size: " ++ toString geometry.logicalBlockSize ++
    ", physical_block_size: " ++ toString geometry.physicalBlockSize ++ " \x7d"

namespace TemplateKey

def version : UInt16 := 1
def maxLen : Nat := 256 * 1024

def mismatch (found requested : String) : TemplateError :=
  ⟨.io, "the capture does not match its class: " ++ found ++
    ", but the class requests " ++ requested⟩

section

variable (capture : CaptureClass) (machine : Machine)

def matchHypervisor : Except TemplateError Unit :=
  if machine.hypervisor ≠ capture.hypervisor then
    .error (mismatch ("its backend is " ++ machine.hypervisor.asStr) capture.hypervisor.asStr)
  else .ok ()

/-- Whether the class's request selects the machine's CPU profile. -/
def selectsProfile : Bool :=
  if capture.cpuProfile = "auto" then true
  else if capture.cpuProfile = "host" then
    machine.cpu.generation == hostGeneration
  else machine.cpu.id == capture.cpuProfile

def matchProfile : Except TemplateError Unit :=
  if selectsProfile capture machine then .ok ()
  else .error (mismatch ("its CPU profile is " ++ machine.cpu.id) capture.cpuProfile)

def onlineAtBoot : UInt32 :=
  if machine.bootProcessors = 0 then machine.processors
  else machine.bootProcessors

def describeProcessors (processors online : UInt32) : String :=
  toString processors ++ " processors, " ++ toString online ++ " online at boot"

def matchProcessors : Except TemplateError Unit :=
  if (machine.processors, onlineAtBoot machine) ≠ (capture.processors, capture.bootProcessors) then
    .error (mismatch ("it has " ++ describeProcessors machine.processors (onlineAtBoot machine))
      (describeProcessors capture.processors capture.bootProcessors))
  else .ok ()

def describeMemory (memory capacity : UInt64) : String :=
  toString memory ++ " bytes of RAM, of a capacity of " ++ toString capacity

def matchMemory : Except TemplateError Unit :=
  if (machine.memory.boot, machine.memory.capacity) ≠ (capture.memory, capture.memoryCapacity) then
    .error (mismatch ("it has " ++ describeMemory machine.memory.boot machine.memory.capacity)
      (describeMemory capture.memory capture.memoryCapacity))
  else .ok ()

def matchGeometry (role : String) (found requested : BlockGeometry) :
    Except TemplateError Unit :=
  if found ≠ requested then
    .error (mismatch ("its " ++ role ++ " geometry is " ++ found.debug) requested.debug)
  else .ok ()

def describeNetwork (network : Option String) : String :=
  network.getD "none"

def matchNetwork : Except TemplateError Unit := do
  let arguments ← capture.networkArguments
  let requested :=
    (capture.network.filter fun _ => !arguments.isEmpty).map (·.guestNetwork)
  let found := machine.nic.map guestNetworkOf
  if found ≠ requested then
    .error (mismatch ("its NIC network is " ++ describeNetwork found) (describeNetwork requested))
  else .ok ()

end

def new {sha256 : List UInt8 → Bytes 32} (capture : CaptureClass)
    (manifest : TemplateManifest sha256) : Except TemplateError TemplateKey := do
  capture.check
  let machine := manifest.machine
  matchHypervisor capture machine
  matchProfile capture machine
  matchProcessors capture machine
  matchMemory capture machine
  matchGeometry "distro" machine.distro capture.distro
  matchGeometry "scratch" machine.scratch capture.scratch
  matchNetwork capture machine
  .ok { runtime := capture.runtime
        guestBuild := capture.guestBuild
        contracts := .current
        machine
        filesystemTag := mountTag
        invariants := capture.invariants }

end TemplateKey

def writeU32 : UInt32 → List UInt8 := LittleEndian.ofUInt32
def writeU64 : UInt64 → List UInt8 := LittleEndian.ofUInt64

def writeRuntime (runtime : RuntimeIdentity) : List UInt8 :=
  writeText runtime.openvmm.text ++ (writeText runtime.kernel.text ++
    (writeText runtime.initramfs.text ++ (writeU64 runtime.bootContract ++
      (writeText runtime.controlContract ++ writeU64 runtime.controlSession))))

def Contracts.write (contracts : Contracts) : List UInt8 :=
  writeU64 contracts.snapshot ++ (writeU64 contracts.deviceState ++
    (writeU64 contracts.time ++ (writeU64 contracts.restorePacket ++
      writeU64 contracts.activation)))

def writeCpu (cpu : CpuProfile) : List UInt8 :=
  writeText cpu.vendor ++ (writeText cpu.generation ++ (writeU32 cpu.revision ++
    (cpu.digest.val ++ writeBytes cpu.effectiveCpuid)))

def writeTopology (topology : Topology) : List UInt8 :=
  writeU32 topology.sockets ++ (writeU32 topology.diesPerSocket ++
    (writeU32 topology.coresPerDie ++ (writeU32 topology.threadsPerCore ++
      writeList writeU32 topology.apicIds)))

def writeRates (rates : Rates) : List UInt8 :=
  writeU64 rates.tscHz ++ (writeU64 rates.apicHz ++ writeU32 rates.tolerancePpm)

def writeMemoryRange (range : MemoryRange) : List UInt8 :=
  writeU64 range.start ++ writeU64 range.length

def writeMemory (memory : Memory) : List UInt8 :=
  writeU64 memory.boot ++ (writeU64 memory.capacity ++
    (writeU64 memory.blockSize ++ (writeList writeMemoryRange memory.ranges ++
      writeList writeMemoryRange memory.expansion)))

def writeGeometry (geometry : BlockGeometry) : List UInt8 :=
  writeU64 geometry.length ++ (writeU32 geometry.logicalBlockSize ++
    writeU32 geometry.physicalBlockSize)

def writeInterrupts (interrupts : Interrupts) : List UInt8 :=
  writeText interrupts.mode ++ (writeU64 interrupts.statusPageStart ++
    writeU64 interrupts.statusPageLength)

def writeDeviceRange (range : DeviceRange) : List UInt8 :=
  writeText range.space.asStr ++ (writeU64 range.start ++ writeU64 range.length)

def writeDevice (device : Device) : List UInt8 :=
  writeText device.stableId ++ (writeText device.kind ++
    (writeText device.stateUnit ++ (writeText device.transport ++
      (writeList writeDeviceRange device.ranges ++ (writeOption writeU32 device.irq ++
          (writeList writeU32 device.featureBanks ++ (writeU32 device.queueCount ++
              writeList writeU32 device.queueMaxSizes)))))))

def writeIpv6 (ipv6 : Ipv6Identity) : List UInt8 :=
  ipv6.address.val ++ ([ipv6.prefixLength] ++ ipv6.gateway.val)

def writePolicy (policy : PolicyIdentity) : List UInt8 :=
  writeText policy.mode ++ (policy.digest.val ++ (writeBool policy.required ++
    writeU32 policy.encodingVersion))

def writeNic (nic : Nic) : List UInt8 :=
  writeText nic.profile ++ (nic.guestMac.val ++ (nic.gatewayMac.val ++
    (nic.ipv4.val ++ ([nic.prefixLength] ++ (nic.gateway.val ++
      (writeOption writeIpv6 nic.ipv6 ++ writePolicy nic.policy))))))

def writeMachine (machine : Machine) (tag : String) : List UInt8 :=
  writeText machine.hypervisor.asStr ++ (writeCpu machine.cpu ++
    (writeTopology machine.topology ++ (writeRates machine.rates ++
      (writeU32 machine.processors ++ (writeU32 machine.bootProcessors ++
        (writeMemory machine.memory ++ (writeText machine.commandLine ++
          (machine.commandLineDigest.val ++ (writeGeometry machine.distro ++
            (writeGeometry machine.scratch ++ (writeInterrupts machine.interrupts ++
                (writeList writeDevice machine.devices ++
                  (writeU32 machine.filesystemSlot ++ (writeText tag ++
                    writeOption writeNic machine.nic))))))))))))))

def writeSetting (setting : String × String) : List UInt8 :=
  writeText setting.1 ++ writeText setting.2

def Invariants.write (invariants : Invariants) : List UInt8 :=
  writeList writeSetting invariants.settings

def TemplateKey.toBytes (key : TemplateKey) : List UInt8 :=
  LittleEndian.ofUInt16 version ++ (writeRuntime key.runtime ++
    (writeText key.guestBuild.text ++ (key.contracts.write ++
      (writeMachine key.machine key.filesystemTag ++ key.invariants.write))))

def orMessage (result : Except TemplateError Value) : Except String Value :=
  match result with
  | .ok value => .ok value
  | .error error => .error error.message

def readArtifact (what : String) : Reader ArtifactIdentity := do
  let text ← Reader.text maxIdentityLen what
  StateT.lift (orMessage (ArtifactIdentity.new text))

def checkedRuntime (runtime : RuntimeIdentity) : Except String RuntimeIdentity := do
  orMessage runtime.check
  .ok runtime

def readRuntimeParts : Reader RuntimeIdentity := do
  let openvmm ← readArtifact "the OpenVMM identity"
  let kernel ← readArtifact "the kernel identity"
  let initramfs ← readArtifact "the initramfs identity"
  let bootContract ← Reader.u64 "the boot contract version"
  let controlContract ← Reader.text maxIdentityLen "the control contract revision"
  let controlSession ← Reader.u64 "the control session version"
  pure { openvmm, kernel, initramfs, bootContract, controlContract, controlSession }

def readRuntime : Reader RuntimeIdentity := do
  let runtime ← readRuntimeParts
  StateT.lift (checkedRuntime runtime)

def Contracts.read : Reader Contracts := do
  let snapshot ← Reader.u64 "the snapshot format version"
  let deviceState ← Reader.u64 "the device-state schema version"
  let time ← Reader.u64 "the time ABI version"
  let restorePacket ← Reader.u64 "the restore packet version"
  let activation ← Reader.u64 "the activation contract version"
  pure { snapshot, deviceState, time, restorePacket, activation }

def short (what : String) : Reader String :=
  Reader.text maxTextLen what

def knownBackend (backend : String) : Except String Hypervisor :=
  match Hypervisor.parse backend with
  | some hypervisor => .ok hypervisor
  | none => .error ("the backend " ++ backend.quote ++ " is unknown")

def readHypervisor : Reader Hypervisor := do
  let backend ← short "the backend"
  StateT.lift (knownBackend backend)

def readCpu : Reader CpuProfile := do
  let vendor ← short "the CPU vendor"
  let generation ← short "the CPU generation"
  let revision ← Reader.u32 "the CPU profile revision"
  let digest ← Reader.fixed 32 "the CPU profile digest"
  let effectiveCpuid ←
    Reader.bytes (maxCpuidEntries * cpuidEntryLen) "the effective CPUID"
  pure { vendor, generation, revision, digest, effectiveCpuid }

def readTopology : Reader Topology := do
  let sockets ← Reader.u32 "the sockets"
  let diesPerSocket ← Reader.u32 "the dies of each socket"
  let coresPerDie ← Reader.u32 "the cores of each die"
  let threadsPerCore ← Reader.u32 "the threads of each core"
  let apicIds ← Reader.list maxProcessors "the APIC IDs" (Reader.u32 "an APIC ID")
  pure { sockets, diesPerSocket, coresPerDie, threadsPerCore, apicIds }

def readRates : Reader Rates := do
  let tscHz ← Reader.u64 "the TSC rate"
  let apicHz ← Reader.u64 "the LAPIC timer rate"
  let tolerancePpm ← Reader.u32 "the rate tolerance"
  pure { tscHz, apicHz, tolerancePpm }

def readMemoryRange (what : String) : Reader MemoryRange := do
  let start ← Reader.u64 what
  let length ← Reader.u64 what
  pure { start, length }

def readMemoryRanges (what : String) : Reader (List MemoryRange) :=
  Reader.list maxMemoryRanges what (readMemoryRange what)

def readMemory : Reader Memory := do
  let boot ← Reader.u64 "the RAM"
  let capacity ← Reader.u64 "the RAM capacity"
  let blockSize ← Reader.u64 "the RAM block size"
  let ranges ← readMemoryRanges "the RAM ranges"
  let expansion ← readMemoryRanges "the RAM expansion ranges"
  pure { boot, capacity, blockSize, ranges, expansion }

def readGeometry (what : String) : Reader BlockGeometry := do
  let length ← Reader.u64 what
  let logicalBlockSize ← Reader.u32 what
  let physicalBlockSize ← Reader.u32 what
  pure { length, logicalBlockSize, physicalBlockSize }

def readInterrupts : Reader Interrupts := do
  let mode ← short "the interrupt delivery mode"
  let statusPageStart ← Reader.u64 "the interrupt-status page"
  let statusPageLength ← Reader.u64 "the interrupt-status page"
  pure { mode, statusPageStart, statusPageLength }

def knownSpace (space : String) : Except String AddressSpace :=
  match AddressSpace.parse space with
  | some space => .ok space
  | none => .error ("the address space " ++ space.quote ++ " is unknown")

def readSpace : Reader AddressSpace := do
  let space ← Reader.text maxTextLen "an address space"
  StateT.lift (knownSpace space)

def readDeviceRange : Reader DeviceRange := do
  let space ← readSpace
  let start ← Reader.u64 "a device range"
  let length ← Reader.u64 "a device range"
  pure { space, start, length }

def readDevice : Reader Device := do
  let stableId ← short "a device ID"
  let kind ← short "a device kind"
  let stateUnit ← short "a device's state unit"
  let transport ← short "a device's transport"
  let ranges ← Reader.list maxDeviceRanges "a device's ranges" readDeviceRange
  let irq ← Reader.option "a device's interrupt" (Reader.u32 "a device's interrupt")
  let featureBanks ←
    Reader.list maxDeviceWords "a device's features" (Reader.u32 "a feature bank")
  let queueCount ← Reader.u32 "a device's queue count"
  let queueMaxSizes ←
    Reader.list maxDeviceWords "a device's queue sizes" (Reader.u32 "a queue size")
  pure { stableId, kind, stateUnit, transport, ranges, irq, featureBanks,
         queueCount, queueMaxSizes }

def readIpv6 : Reader Ipv6Identity := do
  let address ← Reader.fixed 16 "the guest's IPv6 address"
  let prefixLength ← Reader.u8 "the IPv6 prefix length"
  let gateway ← Reader.fixed 16 "the IPv6 gateway"
  pure { address, prefixLength, gateway }

def readPolicy : Reader PolicyIdentity := do
  let mode ← short "the network policy's mode"
  let digest ← Reader.fixed 32 "the network policy's digest"
  let required ← Reader.bool "whether the network policy is required"
  let encodingVersion ← Reader.u32 "the network policy's encoding version"
  pure { mode, digest, required, encodingVersion }

def readNic : Reader Nic := do
  let profile ← short "the network profile"
  let guestMac ← Reader.fixed 6 "the guest's MAC address"
  let gatewayMac ← Reader.fixed 6 "the gateway's MAC address"
  let ipv4 ← Reader.fixed 4 "the guest's IPv4 address"
  let prefixLength ← Reader.u8 "the IPv4 prefix length"
  let gateway ← Reader.fixed 4 "the IPv4 gateway"
  let ipv6 ← Reader.option "the IPv6 identity" readIpv6
  let policy ← readPolicy
  pure { profile, guestMac, gatewayMac, ipv4, prefixLength, gateway, ipv6, policy }

def readMachineParts : Reader (Machine × String) := do
  let hypervisor ← readHypervisor
  let cpu ← readCpu
  let topology ← readTopology
  let rates ← readRates
  let processors ← Reader.u32 "the processor capacity"
  let bootProcessors ← Reader.u32 "the processors online at boot"
  let memory ← readMemory
  let commandLine ← Reader.text maxCommandLineLen "the command line"
  let commandLineDigest ← Reader.fixed 32 "the command line's digest"
  let distro ← readGeometry "the distro geometry"
  let scratch ← readGeometry "the scratch geometry"
  let interrupts ← readInterrupts
  let devices ← Reader.list maxDevices "the devices" readDevice
  let filesystemSlot ← Reader.u32 "the filesystem slot version"
  let tag ← short "the filesystem tag"
  let nic ← Reader.option "the NIC" readNic
  pure ({ hypervisor, cpu, topology, rates, processors, bootProcessors, memory,
          commandLine, commandLineDigest, distro, scratch, interrupts, devices,
          filesystemSlot, nic }, tag)

def checkedMachine (sha256 : List UInt8 → Bytes 32) (parts : Machine × String) :
    Except String (Machine × String) :=
  match parts.1.problem sha256 with
  | some problem => .error ("the machine " ++ problem)
  | none =>
    if parts.1.filesystemSlot ≠ filesystemSlotVersion ∨ textLen parts.2 = 0 then
      .error "the filesystem slot is not the dormant slot of version 1, with a tag"
    else .ok parts

def readMachine (sha256 : List UInt8 → Bytes 32) : Reader (Machine × String) := do
  let parts ← readMachineParts
  StateT.lift (checkedMachine sha256 parts)

def checkedSetting (setting : String × String) : Except String (String × String) := do
  checkSetting setting.1 setting.2
  .ok setting

def readSettingParts : Reader (String × String) := do
  let name ← Reader.text maxNameLen "the name of a setting"
  let value ← Reader.text maxValueLen "the value of a setting"
  pure (name, value)

def readSetting : Reader (String × String) := do
  let setting ← readSettingParts
  StateT.lift (checkedSetting setting)

/-- Whether two neighbours are not in the strict order of their names. -/
def outOfOrder : List (String × String) → Bool
  | first :: second :: rest =>
    !decide (before first.1 second.1) || outOfOrder (second :: rest)
  | _ => false

def orderedInvariants (settings : List (String × String)) :
    Except String Invariants :=
  if outOfOrder settings then
    .error "the invariant settings are not in the strict order of their names"
  else .ok ⟨settings⟩

def Invariants.read : Reader Invariants := do
  let settings ← Reader.list maxSettings "the invariant settings" readSetting
  StateT.lift (orderedInvariants settings)

namespace TemplateKey

def malformed (error : String) : TemplateError :=
  ⟨.io, "the template key is malformed: " ++ error⟩

def orMalformed (result : Except String Value) : Except TemplateError Value :=
  match result with
  | .ok value => .ok value
  | .error error => .error (malformed error)

def read (sha256 : List UInt8 → Bytes 32) : Reader TemplateKey := do
  let runtime ← readRuntime
  let guestBuild ← readArtifact "the guest build"
  let contracts ← Contracts.read
  let (machine, filesystemTag) ← readMachine sha256
  let invariants ← Invariants.read
  pure { runtime, guestBuild, contracts, machine, filesystemTag, invariants }

def fromBytes (sha256 : List UInt8 → Bytes 32) (bytes : List UInt8) :
    Except TemplateError TemplateKey :=
  if maxLen < bytes.length then
    .error ⟨.io, "a template key of " ++ toString bytes.length ++
      " bytes is longer than the " ++ toString maxLen ++
      " bytes that a key may hold"⟩
  else do
    let (found, rest) ← orMalformed ((Reader.u16 "the version").run bytes)
    if found ≠ version then
      .error ⟨.formatUnsupported, "the template key has encoding version " ++
        toString found ++ "; this build reads version " ++ toString version ++
        " only"⟩
    else do
      let (key, rest) ← orMalformed ((read sha256).run rest)
      orMalformed (Reader.finish rest)
      .ok key

end TemplateKey

end Nvx.Host.Template
