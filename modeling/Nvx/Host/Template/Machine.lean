import Nvx.Data.Word
import Nvx.Activation.Basic

namespace Nvx.Host.Template

open Nvx.Data

/-! The machine that a template's manifest describes
(`host/template/manifest.rs`). -/

def maxCommandLineLen : Nat := 2047
def maxMemoryRanges : Nat := 128
def maxDevices : Nat := 64
def maxDeviceRanges : Nat := 16
def maxDeviceWords : Nat := 64
def maxTextLen : Nat := 256
def maxProcessors : Nat := 8
def cpuidEntryLen : Nat := 44
def maxCpuidEntries : Nat := 1024
def processorCounts : List UInt32 := [1, 2, 4, 8]
def filesystemSlotVersion : UInt32 := 1

inductive Hypervisor where
  | kvm
  | mshv
  | whp
  deriving DecidableEq

namespace Hypervisor

def asStr : Hypervisor → String
  | .kvm => "kvm"
  | .mshv => "mshv"
  | .whp => "whp"

def parse (text : String) : Option Hypervisor :=
  if text = "kvm" then some .kvm
  else if text = "mshv" then some .mshv
  else if text = "whp" then some .whp
  else none

end Hypervisor

structure CpuProfile where
  vendor : String
  generation : String
  revision : UInt32
  digest : Bytes 32
  effectiveCpuid : List UInt8
  deriving DecidableEq

def CpuProfile.id (cpu : CpuProfile) : String :=
  cpu.vendor ++ "." ++ cpu.generation ++ ".v" ++ toString cpu.revision

def textLen (text : String) : Nat :=
  (asBytes text).length

def isLowercase (byte : UInt8) : Bool := 97 ≤ byte && byte ≤ 122

def isProfileWord (text : List UInt8) : Bool :=
  1 ≤ text.length && text.length ≤ 32 &&
    text.all fun byte => isLowercase byte || isDigit byte || byte == 45

structure Rates where
  tscHz : UInt64
  apicHz : UInt64
  tolerancePpm : UInt32
  deriving DecidableEq

structure Topology where
  sockets : UInt32
  diesPerSocket : UInt32
  coresPerDie : UInt32
  threadsPerCore : UInt32
  apicIds : List UInt32
  deriving DecidableEq

structure MemoryRange where
  start : UInt64
  length : UInt64
  deriving DecidableEq

def checkedAdd64 (first second : UInt64) : Option UInt64 :=
  if first.toNat + second.toNat < 18446744073709551616 then some (first + second)
  else none

def totalLength (ranges : List MemoryRange) : Option UInt64 :=
  ranges.foldlM (fun total range =>
    if range.length = 0 then none
    else do
      let _ ← checkedAdd64 range.start range.length
      checkedAdd64 total range.length) 0

structure Memory where
  boot : UInt64
  capacity : UInt64
  blockSize : UInt64
  ranges : List MemoryRange
  expansion : List MemoryRange
  deriving DecidableEq

namespace Memory

variable (memory : Memory)

def rangesProblem : Option String :=
  if memory.ranges.isEmpty || maxMemoryRanges < memory.ranges.length ||
      totalLength memory.ranges != some memory.boot || memory.boot == 0 then
    some ("has " ++ toString memory.boot ++ " bytes of RAM in " ++
      toString memory.ranges.length ++ " ranges that do not hold it")
  else none

def capacityProblem : Option String :=
  if memory.blockSize == 0 || memory.capacity < memory.boot ||
      memory.boot % memory.blockSize != 0 ||
      memory.capacity % memory.blockSize != 0 then
    some ("has a RAM capacity of " ++ toString memory.capacity ++
      " bytes in blocks of " ++ toString memory.blockSize ++ " bytes for " ++
      toString memory.boot ++ " bytes of RAM")
  else none

def expansionProblem : Option String :=
  if maxMemoryRanges < memory.expansion.length ||
      totalLength memory.expansion != some (memory.capacity - memory.boot) then
    some "has memory expansion ranges that do not span its RAM capacity"
  else none

def problem : Option String :=
  memory.rangesProblem <|> memory.capacityProblem <|> memory.expansionProblem

end Memory

inductive AddressSpace where
  | mmio
  | pmio
  deriving DecidableEq

namespace AddressSpace

def asStr : AddressSpace → String
  | .mmio => "mmio"
  | .pmio => "pmio"

def parse (text : String) : Option AddressSpace :=
  if text = "mmio" then some .mmio
  else if text = "pmio" then some .pmio
  else none

end AddressSpace

structure DeviceRange where
  space : AddressSpace
  start : UInt64
  length : UInt64
  deriving DecidableEq

structure Device where
  stableId : String
  kind : String
  stateUnit : String
  transport : String
  ranges : List DeviceRange
  irq : Option UInt32
  featureBanks : List UInt32
  queueCount : UInt32
  queueMaxSizes : List UInt32
  deriving DecidableEq

namespace Device

variable (device : Device)

def textsProblem : Option String :=
  if [device.stableId, device.kind, device.stateUnit, device.transport].any
        (fun text => maxTextLen < textLen text) ||
      [device.stableId, device.kind, device.stateUnit].any (fun text => textLen text == 0) then
    some ("has a device without an ID, a kind, or a state unit, or with one of " ++
      "more than " ++ toString maxTextLen ++ " bytes: " ++
      device.stableId.quote)
  else none

def listsProblem : Option String :=
  if maxDeviceRanges < device.ranges.length || maxDeviceWords < device.featureBanks.length ||
      maxDeviceWords < device.queueMaxSizes.length then
    some ("has the device " ++ device.stableId.quote ++ " with more than " ++
      toString maxDeviceRanges ++ " ranges, or more than " ++
      toString maxDeviceWords ++ " feature banks or queues")
  else none

def problem : Option String :=
  device.textsProblem <|> device.listsProblem

end Device

structure Interrupts where
  mode : String
  statusPageStart : UInt64
  statusPageLength : UInt64
  deriving DecidableEq

structure BlockGeometry where
  length : UInt64
  logicalBlockSize : UInt32
  physicalBlockSize : UInt32
  deriving DecidableEq

def BlockGeometry.problem (geometry : BlockGeometry) : Option String :=
  if geometry.logicalBlockSize < 512 || !isPowerOfTwo geometry.logicalBlockSize then
    some ("logical block size " ++ toString geometry.logicalBlockSize ++
      " is not a power of two of at least 512")
  else if geometry.physicalBlockSize < geometry.logicalBlockSize ||
      !isPowerOfTwo geometry.physicalBlockSize then
    some ("physical block size " ++ toString geometry.physicalBlockSize ++
      " is not a power of two of at least its logical block size")
  else if geometry.length == 0 || geometry.length % geometry.logicalBlockSize.toUInt64 != 0 then
    some ("length " ++ toString geometry.length ++
      " is not a nonzero multiple of its logical block size")
  else none

structure Ipv6Identity where
  address : Bytes 16
  prefixLength : UInt8
  gateway : Bytes 16
  deriving DecidableEq

structure PolicyIdentity where
  mode : String
  digest : Bytes 32
  required : Bool
  encodingVersion : UInt32
  deriving DecidableEq

structure Nic where
  profile : String
  guestMac : Bytes 6
  gatewayMac : Bytes 6
  ipv4 : Bytes 4
  prefixLength : UInt8
  gateway : Bytes 4
  ipv6 : Option Ipv6Identity
  policy : PolicyIdentity
  deriving DecidableEq

namespace Nic

variable (nic : Nic)

def textsProblem : Option String :=
  if [nic.profile, nic.policy.mode].any fun text =>
      textLen text == 0 || maxTextLen < textLen text then
    some "has a NIC without a network profile or a policy mode"
  else none

def prefixProblem : Option String :=
  if !(1 ≤ nic.prefixLength && nic.prefixLength ≤ 30) ||
      nic.ipv6.any (fun ipv6 => !(1 ≤ ipv6.prefixLength && ipv6.prefixLength ≤ 128))
  then some "has a NIC with an invalid prefix length"
  else none

def problem : Option String :=
  nic.textsProblem <|> nic.prefixProblem

end Nic

structure Machine where
  hypervisor : Hypervisor
  cpu : CpuProfile
  topology : Topology
  rates : Rates
  processors : UInt32
  bootProcessors : UInt32
  memory : Memory
  commandLine : String
  commandLineDigest : Bytes 32
  distro : BlockGeometry
  scratch : BlockGeometry
  interrupts : Interrupts
  devices : List Device
  filesystemSlot : UInt32
  nic : Option Nic
  deriving DecidableEq

/-- The first device with a problem, or with the ID of one before it. -/
def devicesProblem (earlier : List Device) : List Device → Option String
  | [] => none
  | device :: rest =>
    device.problem <|> (if earlier.any fun other => other.stableId == device.stableId then
        some ("has the device ID " ++ device.stableId.quote ++ " more than once")
      else none) <|>
      devicesProblem (earlier ++ [device]) rest

namespace Machine

variable (machine : Machine)

def profileProblem : Option String :=
  if !isProfileWord (asBytes machine.cpu.vendor) ||
      !isProfileWord (asBytes machine.cpu.generation) || machine.cpu.revision == 0 then
    some ("has the invalid CPU profile vendor " ++ machine.cpu.vendor.quote ++
      ", generation " ++ machine.cpu.generation.quote ++ ", and revision " ++
      toString machine.cpu.revision)
  else none

def cpuidProblem : Option String :=
  let length := machine.cpu.effectiveCpuid.length
  if length == 0 || length % cpuidEntryLen != 0 || maxCpuidEntries * cpuidEntryLen < length then
    some ("has an effective CPUID of " ++ toString length ++ " bytes, not 1 to " ++
      toString maxCpuidEntries ++ " entries of " ++ toString cpuidEntryLen ++
      " bytes")
  else none

def processorsProblem : Option String :=
  if !processorCounts.contains machine.processors ||
      machine.topology.apicIds.length != machine.processors.toNat ||
      machine.processors < machine.bootProcessors ||
      (machine.bootProcessors != 0 && !processorCounts.contains machine.bootProcessors) then
    some ("has " ++ toString machine.processors ++ " processors, " ++
      toString machine.topology.apicIds.length ++ " APIC IDs, and " ++
      toString machine.bootProcessors ++
      " processors online at boot, which a microVM cannot have")
  else none

def ratesProblem : Option String :=
  if machine.rates.tscHz == 0 || machine.rates.apicHz == 0 then
    some "declares no TSC or LAPIC timer rate"
  else none

def commandLineProblem : Option String :=
  if maxCommandLineLen < textLen machine.commandLine then
    some ("has an effective command line of " ++
      toString (textLen machine.commandLine) ++ " bytes, more than the " ++
      toString maxCommandLineLen ++ " that a microVM's command line holds")
  else none

/-- The digest of a byte string, which the source takes with SHA-256. -/
def digestProblem (sha256 : List UInt8 → Bytes 32) : Option String :=
  if machine.commandLineDigest != sha256 (asBytes machine.commandLine) then
    some "has an effective command line whose digest does not match it"
  else none

def blockProblem (role : String) (geometry : BlockGeometry) : Option String :=
  geometry.problem.map fun problem => "has a " ++ role ++ " block whose " ++ problem

def interruptsProblem : Option String :=
  if textLen machine.interrupts.mode == 0 || maxTextLen < textLen machine.interrupts.mode then
    some "names no interrupt delivery mode"
  else none

def deviceCountProblem : Option String :=
  if machine.devices.isEmpty || maxDevices < machine.devices.length then
    some ("has " ++ toString machine.devices.length ++ " devices, not 1 to " ++ toString maxDevices)
  else none

def problem (sha256 : List UInt8 → Bytes 32) : Option String :=
  machine.profileProblem <|> machine.cpuidProblem <|>
    machine.processorsProblem <|> machine.ratesProblem <|>
    machine.memory.problem <|> machine.commandLineProblem <|>
    machine.digestProblem sha256 <|> blockProblem "distro" machine.distro <|>
    blockProblem "scratch" machine.scratch <|> machine.interruptsProblem <|>
    machine.deviceCountProblem <|> devicesProblem [] machine.devices <|>
    machine.nic.bind Nic.problem

end Machine

/-- A manifest's machine passed its checks, and has the dormant filesystem slot.
The rest of a manifest describes the capture, which no key holds. -/
structure TemplateManifest (sha256 : List UInt8 → Bytes 32) where
  machine : Machine
  sound : machine.problem sha256 = none
  dormant : machine.filesystemSlot = filesystemSlotVersion

end Nvx.Host.Template
