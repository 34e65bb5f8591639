import Nvx.Host.Template.Key

namespace Nvx.Host.Template

open Nvx.Data
open Nvx.Host.Template.Canonical

/-! The parts of a key, each read back from what is written of it. -/

theorem small_of_le {max : Nat} (bound : max ≤ 100000) : max < 4294967296 := by
  omega

theorem takes_u32 (what : String) : Takes (Reader.u32 what) writeU32 (fun _ => True) :=
  Takes.u32 _

theorem takes_u64 (what : String) : Takes (Reader.u64 what) writeU64 (fun _ => True) :=
  Takes.u64 _

theorem takes_words {max : Nat} (what item : String) (bound : max ≤ 100000) :
    Takes (Reader.list max what (Reader.u32 item)) (writeList writeU32)
      (fun words => words.length ≤ max) := by
  refine (takes_list what (small_of_le bound) (takes_u32 item) ?_).congr
    (fun words => by simp) fun _ _ => rfl
  intro word _ empty
  have length := LittleEndian.length_ofUInt32 word
  rw [show LittleEndian.ofUInt32 word = [] from empty] at length
  cases length

theorem takes_short (what : String) :
    Takes (short what) writeText (fun text => textLen text ≤ maxTextLen) :=
  takes_text what (by decide)

theorem writeText_ne_nil (text : String) : writeText text ≠ [] := by
  intro empty
  have length := congrArg List.length empty
  simp [writeText, writeBytes, writeLen] at length

theorem textLen_le_of_isToken (valid : isToken text = true) : textLen text ≤ maxIdentityLen := by
  simp only [isToken, Bool.and_eq_true, decide_eq_true_eq] at valid
  exact valid.1.2

theorem takes_readArtifact (what : String) :
    Takes (readArtifact what) (fun artifact => writeText artifact.text) (fun _ => True) := by
  refine (takes_text what (by decide)).convert ArtifactIdentity.text
    fun text artifact => ?_
  rw [ArtifactIdentity.new]
  split
  · rename_i valid
    simp only [orMessage, Except.ok.injEq, and_true]
    constructor
    · rintro ⟨rfl, _⟩
      rfl
    · rintro rfl
      exact ⟨rfl, textLen_le_of_isToken artifact.valid⟩
  · rename_i invalid
    simp only [orMessage, reduceCtorEq, false_and, and_true, false_iff]
    rintro rfl
    exact invalid artifact.valid

theorem takes_readRuntimeParts : Takes readRuntimeParts writeRuntime
      (fun runtime => textLen runtime.controlContract ≤ maxIdentityLen) := by
  refine (takes_readArtifact _).field RuntimeIdentity.openvmm fun openvmm => ?_
  refine (takes_readArtifact _).field RuntimeIdentity.kernel fun kernel => ?_
  refine (takes_readArtifact _).field RuntimeIdentity.initramfs fun initramfs => ?_
  refine (takes_u64 _).field RuntimeIdentity.bootContract fun bootContract => ?_
  refine (takes_text _ (by decide)).bind RuntimeIdentity.controlContract
    (fun _ ⟨_, _, _, _, fits⟩ => fits) fun controlContract fits => ?_
  refine (takes_u64 _).last RuntimeIdentity.controlSession fun session runtime => ?_
  constructor
  · rintro ⟨rfl, rfl, rfl, rfl, rfl, rfl, _⟩
    exact ⟨trivial, rfl⟩
  · rintro ⟨_, rfl⟩
    exact ⟨rfl, rfl, rfl, rfl, rfl, rfl, fits⟩

theorem check_eq_ok_iff {runtime : RuntimeIdentity} :
    runtime.check = .ok () ↔ isToken runtime.controlContract = true := by
  rw [RuntimeIdentity.check]
  split <;> simp_all

theorem takes_readRuntime :
    Takes readRuntime writeRuntime (fun runtime => runtime.check = .ok ()) := by
  refine takes_readRuntimeParts.convert id fun parts runtime => ?_
  rw [check_eq_ok_iff, checkedRuntime, RuntimeIdentity.check]
  split
  · rename_i valid
    change Except.ok parts = .ok runtime ∧ _ ↔ _
    rw [Except.ok.injEq]
    constructor
    · rintro ⟨rfl, _⟩
      exact ⟨rfl, valid⟩
    · rintro ⟨rfl, token⟩
      exact ⟨rfl, textLen_le_of_isToken token⟩
  · rename_i invalid
    constructor
    · rintro ⟨impossible, _⟩
      cases impossible
    · rintro ⟨rfl, valid⟩
      exact absurd valid invalid

theorem takes_readContracts : Takes Contracts.read Contracts.write (fun _ => True) := by
  refine (takes_u64 _).field Contracts.snapshot fun snapshot => ?_
  refine (takes_u64 _).field Contracts.deviceState fun deviceState => ?_
  refine (takes_u64 _).field Contracts.time fun time => ?_
  refine (takes_u64 _).field Contracts.restorePacket fun restorePacket => ?_
  refine (takes_u64 _).last Contracts.activation fun activation contracts => ?_
  constructor
  · rintro ⟨rfl, rfl, rfl, rfl, rfl, _⟩
    exact ⟨trivial, rfl⟩
  · rintro ⟨_, rfl⟩
    exact ⟨rfl, rfl, rfl, rfl, rfl, trivial⟩

theorem takes_named {Name : Type} {asStr : Name → String}
    {known : String → Except String Name} (what : String)
    (found : ∀ text name, known text = .ok name ↔ asStr name = text)
    (fits : ∀ name, textLen (asStr name) ≤ maxTextLen) :
    Takes (do let text ← short what; StateT.lift (known text))
      (fun name => writeText (asStr name)) (fun _ => True) := by
  refine (takes_short what).convert asStr fun text name => ?_
  rw [found, and_true]
  constructor
  · exact fun both => both.1
  · rintro rfl
    exact ⟨rfl, fits name⟩

theorem knownBackend_eq_ok_iff (text : String) (hypervisor : Hypervisor) :
    knownBackend text = .ok hypervisor ↔ hypervisor.asStr = text := by
  constructor
  · intro found
    simp only [knownBackend, Hypervisor.parse] at found
    split at found
    · rename_i named
      obtain rfl := Except.ok.inj found
      split_ifs at named with isKvm isMshv isWhp <;>
        cases named <;> exact (by assumption : text = _).symm
    · cases found
  · rintro rfl
    cases hypervisor <;> simp [knownBackend, Hypervisor.parse, Hypervisor.asStr]

theorem takes_readHypervisor : Takes readHypervisor (fun hypervisor => writeText hypervisor.asStr)
      (fun _ => True) :=
  takes_named _ knownBackend_eq_ok_iff fun hypervisor => by
    cases hypervisor <;> decide

structure CpuProfile.Fits (cpu : CpuProfile) : Prop where
  vendor : textLen cpu.vendor ≤ maxTextLen
  generation : textLen cpu.generation ≤ maxTextLen
  cpuid : cpu.effectiveCpuid.length ≤ maxCpuidEntries * cpuidEntryLen

theorem takes_readCpu : Takes readCpu writeCpu CpuProfile.Fits := by
  refine (takes_short _).bind CpuProfile.vendor
    (fun _ fits => fits.vendor) fun vendor vendorFits => ?_
  refine (takes_short _).bind CpuProfile.generation
    (fun _ ⟨_, fits⟩ => fits.generation) fun generation generationFits => ?_
  refine (takes_u32 _).field CpuProfile.revision fun revision => ?_
  refine (Takes.takeBytes _ _).field CpuProfile.digest fun digest => ?_
  refine (takes_bytes _ (by decide)).last CpuProfile.effectiveCpuid
    fun cpuid cpu => ?_
  constructor
  · rintro ⟨rfl, rfl, rfl, rfl, rfl, fits⟩
    exact ⟨fits.cpuid, rfl⟩
  · rintro ⟨cpuidFits, rfl⟩
    exact ⟨rfl, rfl, rfl, rfl, rfl, vendorFits, generationFits, cpuidFits⟩

theorem takes_readTopology : Takes readTopology writeTopology
      (fun topology => topology.apicIds.length ≤ maxProcessors) := by
  refine (takes_u32 _).field Topology.sockets fun sockets => ?_
  refine (takes_u32 _).field Topology.diesPerSocket fun diesPerSocket => ?_
  refine (takes_u32 _).field Topology.coresPerDie fun coresPerDie => ?_
  refine (takes_u32 _).field Topology.threadsPerCore fun threadsPerCore => ?_
  refine (takes_words _ _ (by decide)).last Topology.apicIds
    fun apicIds topology => ?_
  constructor
  · rintro ⟨rfl, rfl, rfl, rfl, rfl, fits⟩
    exact ⟨fits, rfl⟩
  · rintro ⟨fits, rfl⟩
    exact ⟨rfl, rfl, rfl, rfl, rfl, fits⟩

theorem takes_readRates : Takes readRates writeRates (fun _ => True) := by
  refine (takes_u64 _).field Rates.tscHz fun tscHz => ?_
  refine (takes_u64 _).field Rates.apicHz fun apicHz => ?_
  refine (takes_u32 _).last Rates.tolerancePpm fun tolerancePpm rates => ?_
  constructor
  · rintro ⟨rfl, rfl, rfl, _⟩
    exact ⟨trivial, rfl⟩
  · rintro ⟨_, rfl⟩
    exact ⟨rfl, rfl, rfl, trivial⟩

theorem takes_readMemoryRange (what : String) :
    Takes (readMemoryRange what) writeMemoryRange (fun _ => True) := by
  refine (takes_u64 _).field MemoryRange.start fun start => ?_
  refine (takes_u64 _).last MemoryRange.length fun length range => ?_
  constructor
  · rintro ⟨rfl, rfl, _⟩
    exact ⟨trivial, rfl⟩
  · rintro ⟨_, rfl⟩
    exact ⟨rfl, rfl, trivial⟩

theorem takes_readMemoryRanges (what : String) :
    Takes (readMemoryRanges what) (writeList writeMemoryRange)
      (fun ranges => ranges.length ≤ maxMemoryRanges) := by
  refine (takes_list what (by decide) (takes_readMemoryRange what) ?_).congr
    (fun ranges => by simp) fun _ _ => rfl
  intro range _ empty
  have length := congrArg List.length empty
  simp [writeMemoryRange, writeU64] at length

structure Memory.Fits (memory : Memory) : Prop where
  ranges : memory.ranges.length ≤ maxMemoryRanges
  expansion : memory.expansion.length ≤ maxMemoryRanges

theorem takes_readMemory : Takes readMemory writeMemory Memory.Fits := by
  refine (takes_u64 _).field Memory.boot fun boot => ?_
  refine (takes_u64 _).field Memory.capacity fun capacity => ?_
  refine (takes_u64 _).field Memory.blockSize fun blockSize => ?_
  refine (takes_readMemoryRanges _).bind Memory.ranges
    (fun _ ⟨_, _, _, fits⟩ => fits.ranges) fun ranges rangesFit => ?_
  refine (takes_readMemoryRanges _).last Memory.expansion fun expansion memory => ?_
  constructor
  · rintro ⟨rfl, rfl, rfl, rfl, rfl, fits⟩
    exact ⟨fits.expansion, rfl⟩
  · rintro ⟨expansionFits, rfl⟩
    exact ⟨rfl, rfl, rfl, rfl, rfl, rangesFit, expansionFits⟩

theorem takes_readGeometry (what : String) :
    Takes (readGeometry what) writeGeometry (fun _ => True) := by
  refine (takes_u64 _).field BlockGeometry.length fun length => ?_
  refine (takes_u32 _).field BlockGeometry.logicalBlockSize fun logical => ?_
  refine (takes_u32 _).last BlockGeometry.physicalBlockSize fun physical geometry => ?_
  constructor
  · rintro ⟨rfl, rfl, rfl, _⟩
    exact ⟨trivial, rfl⟩
  · rintro ⟨_, rfl⟩
    exact ⟨rfl, rfl, rfl, trivial⟩

theorem takes_readInterrupts : Takes readInterrupts writeInterrupts
      (fun interrupts => textLen interrupts.mode ≤ maxTextLen) := by
  refine (takes_short _).bind Interrupts.mode (fun _ fits => fits) fun mode fits => ?_
  refine (takes_u64 _).field Interrupts.statusPageStart fun start => ?_
  refine (takes_u64 _).last Interrupts.statusPageLength fun length interrupts => ?_
  constructor
  · rintro ⟨rfl, rfl, rfl, _⟩
    exact ⟨trivial, rfl⟩
  · rintro ⟨_, rfl⟩
    exact ⟨rfl, rfl, rfl, fits⟩

theorem knownSpace_eq_ok_iff (text : String) (space : AddressSpace) :
    knownSpace text = .ok space ↔ space.asStr = text := by
  constructor
  · intro found
    simp only [knownSpace, AddressSpace.parse] at found
    split at found
    · rename_i named
      obtain rfl := Except.ok.inj found
      split_ifs at named with isMmio isPmio <;>
        cases named <;> exact (by assumption : text = _).symm
    · cases found
  · rintro rfl
    cases space <;> simp [knownSpace, AddressSpace.parse, AddressSpace.asStr]

theorem takes_readSpace : Takes readSpace (fun space => writeText space.asStr) (fun _ => True) :=
  takes_named _ knownSpace_eq_ok_iff fun space => by cases space <;> decide

theorem takes_readDeviceRange : Takes readDeviceRange writeDeviceRange (fun _ => True) := by
  refine takes_readSpace.field DeviceRange.space fun space => ?_
  refine (takes_u64 _).field DeviceRange.start fun start => ?_
  refine (takes_u64 _).last DeviceRange.length fun length range => ?_
  constructor
  · rintro ⟨rfl, rfl, rfl, _⟩
    exact ⟨trivial, rfl⟩
  · rintro ⟨_, rfl⟩
    exact ⟨rfl, rfl, rfl, trivial⟩

theorem takes_readDeviceRanges (what : String) :
    Takes (Reader.list maxDeviceRanges what readDeviceRange) (writeList writeDeviceRange)
      (fun ranges => ranges.length ≤ maxDeviceRanges) := by
  refine (takes_list what (by decide) takes_readDeviceRange ?_).congr
    (fun ranges => by simp) fun _ _ => rfl
  intro range _ empty
  exact writeText_ne_nil _ (List.append_eq_nil_iff.mp empty).1

structure Device.Fits (device : Device) : Prop where
  stableId : textLen device.stableId ≤ maxTextLen
  kind : textLen device.kind ≤ maxTextLen
  stateUnit : textLen device.stateUnit ≤ maxTextLen
  transport : textLen device.transport ≤ maxTextLen
  ranges : device.ranges.length ≤ maxDeviceRanges
  featureBanks : device.featureBanks.length ≤ maxDeviceWords
  queueMaxSizes : device.queueMaxSizes.length ≤ maxDeviceWords

theorem takes_readDevice : Takes readDevice writeDevice Device.Fits := by
  refine (takes_short _).bind Device.stableId
    (fun _ fits => fits.stableId) fun stableId idFits => ?_
  refine (takes_short _).bind Device.kind (fun _ ⟨_, fits⟩ => fits.kind) fun kind kindFits => ?_
  refine (takes_short _).bind Device.stateUnit
    (fun _ ⟨_, _, fits⟩ => fits.stateUnit) fun stateUnit unitFits => ?_
  refine (takes_short _).bind Device.transport
    (fun _ ⟨_, _, _, fits⟩ => fits.transport) fun transport transportFits => ?_
  refine (takes_readDeviceRanges _).bind Device.ranges
    (fun _ ⟨_, _, _, _, fits⟩ => fits.ranges) fun ranges rangesFit => ?_
  refine (takes_option _ (takes_u32 _)).bind Device.irq (fun _ _ _ _ => trivial) fun irq _ => ?_
  refine (takes_words _ _ (by decide)).bind Device.featureBanks
    (fun _ ⟨_, _, _, _, _, _, fits⟩ => fits.featureBanks)
    fun featureBanks banksFit => ?_
  refine (takes_u32 _).field Device.queueCount fun queueCount => ?_
  refine (takes_words _ _ (by decide)).last Device.queueMaxSizes
    fun sizes device => ?_
  constructor
  · rintro ⟨rfl, rfl, rfl, rfl, rfl, rfl, rfl, rfl, rfl, fits⟩
    exact ⟨fits.queueMaxSizes, rfl⟩
  · rintro ⟨sizesFit, rfl⟩
    exact ⟨rfl, rfl, rfl, rfl, rfl, rfl, rfl, rfl, rfl, idFits, kindFits, unitFits,
      transportFits, rangesFit, banksFit, sizesFit⟩

theorem takes_readDevices (what : String) :
    Takes (Reader.list maxDevices what readDevice) (writeList writeDevice)
      (fun devices => devices.length ≤ maxDevices ∧ ∀ device ∈ devices, device.Fits) := by
  refine takes_list what (by decide) takes_readDevice ?_
  intro device _ empty
  exact writeText_ne_nil _ (List.append_eq_nil_iff.mp empty).1

theorem takes_readIpv6 : Takes readIpv6 writeIpv6 (fun _ => True) := by
  refine (Takes.takeBytes _ _).field Ipv6Identity.address fun address => ?_
  refine (Takes.u8 _).field Ipv6Identity.prefixLength fun prefixLength => ?_
  refine (Takes.takeBytes _ _).last Ipv6Identity.gateway fun gateway ipv6 => ?_
  constructor
  · rintro ⟨rfl, rfl, rfl, _⟩
    exact ⟨trivial, rfl⟩
  · rintro ⟨_, rfl⟩
    exact ⟨rfl, rfl, rfl, trivial⟩

theorem takes_readPolicy : Takes readPolicy writePolicy
      (fun policy => textLen policy.mode ≤ maxTextLen) := by
  refine (takes_short _).bind PolicyIdentity.mode (fun _ fits => fits) fun mode fits => ?_
  refine (Takes.takeBytes _ _).field PolicyIdentity.digest fun digest => ?_
  refine (takes_bool _).field PolicyIdentity.required fun required => ?_
  refine (takes_u32 _).last PolicyIdentity.encodingVersion fun version policy => ?_
  constructor
  · rintro ⟨rfl, rfl, rfl, rfl, _⟩
    exact ⟨trivial, rfl⟩
  · rintro ⟨_, rfl⟩
    exact ⟨rfl, rfl, rfl, rfl, fits⟩

structure Nic.Fits (nic : Nic) : Prop where
  profile : textLen nic.profile ≤ maxTextLen
  mode : textLen nic.policy.mode ≤ maxTextLen

theorem takes_readNic : Takes readNic writeNic Nic.Fits := by
  refine (takes_short _).bind Nic.profile (fun _ fits => fits.profile) fun profile profileFits => ?_
  refine (Takes.takeBytes _ _).field Nic.guestMac fun guestMac => ?_
  refine (Takes.takeBytes _ _).field Nic.gatewayMac fun gatewayMac => ?_
  refine (Takes.takeBytes _ _).field Nic.ipv4 fun ipv4 => ?_
  refine (Takes.u8 _).field Nic.prefixLength fun prefixLength => ?_
  refine (Takes.takeBytes _ _).field Nic.gateway fun gateway => ?_
  refine (takes_option _ takes_readIpv6).bind Nic.ipv6 (fun _ _ _ _ => trivial) fun ipv6 _ => ?_
  refine takes_readPolicy.last Nic.policy fun policy nic => ?_
  constructor
  · rintro ⟨rfl, rfl, rfl, rfl, rfl, rfl, rfl, rfl, fits⟩
    exact ⟨fits.mode, rfl⟩
  · rintro ⟨modeFits, rfl⟩
    exact ⟨rfl, rfl, rfl, rfl, rfl, rfl, rfl, rfl, profileFits, modeFits⟩

structure Machine.Fits (machine : Machine) : Prop where
  cpu : machine.cpu.Fits
  apicIds : machine.topology.apicIds.length ≤ maxProcessors
  memory : machine.memory.Fits
  commandLine : textLen machine.commandLine ≤ maxCommandLineLen
  mode : textLen machine.interrupts.mode ≤ maxTextLen
  few : machine.devices.length ≤ maxDevices
  devices : ∀ device ∈ machine.devices, device.Fits
  nic : ∀ nic ∈ machine.nic, nic.Fits

theorem takes_readMachineParts : Takes readMachineParts (fun parts => writeMachine parts.1 parts.2)
      (fun parts => parts.1.Fits ∧ textLen parts.2 ≤ maxTextLen) := by
  refine takes_readHypervisor.field (fun parts : Machine × String => parts.1.hypervisor)
    fun hypervisor => ?_
  refine takes_readCpu.bind (fun parts : Machine × String => parts.1.cpu)
    (fun _ ⟨_, fits, _⟩ => fits.cpu) fun cpu cpuFits => ?_
  refine takes_readTopology.bind (fun parts : Machine × String => parts.1.topology)
    (fun _ ⟨_, _, fits, _⟩ => fits.apicIds) fun topology topologyFits => ?_
  refine takes_readRates.field (fun parts : Machine × String => parts.1.rates) fun rates => ?_
  refine (takes_u32 _).field (fun parts : Machine × String => parts.1.processors)
    fun processors => ?_
  refine (takes_u32 _).field (fun parts : Machine × String => parts.1.bootProcessors)
    fun bootProcessors => ?_
  refine takes_readMemory.bind (fun parts : Machine × String => parts.1.memory)
    (fun _ ⟨_, _, _, _, _, _, fits, _⟩ => fits.memory) fun memory memoryFits => ?_
  refine (takes_text _ (by decide)).bind
    (fun parts : Machine × String => parts.1.commandLine)
    (fun _ ⟨_, _, _, _, _, _, _, fits, _⟩ => fits.commandLine)
    fun commandLine commandLineFits => ?_
  refine (Takes.takeBytes _ _).field (fun parts : Machine × String => parts.1.commandLineDigest)
    fun commandLineDigest => ?_
  refine (takes_readGeometry _).field (fun parts : Machine × String => parts.1.distro)
    fun distro => ?_
  refine (takes_readGeometry _).field (fun parts : Machine × String => parts.1.scratch)
    fun scratch => ?_
  refine takes_readInterrupts.bind (fun parts : Machine × String => parts.1.interrupts)
    (fun _ ⟨_, _, _, _, _, _, _, _, _, _, _, fits, _⟩ => fits.mode)
    fun interrupts modeFits => ?_
  refine (takes_readDevices _).bind (fun parts : Machine × String => parts.1.devices)
    (fun _ ⟨_, _, _, _, _, _, _, _, _, _, _, _, fits, _⟩ =>
      ⟨fits.few, fits.devices⟩) fun devices devicesFit => ?_
  refine (takes_u32 _).field (fun parts : Machine × String => parts.1.filesystemSlot)
    fun filesystemSlot => ?_
  refine (takes_short _).bind (fun parts : Machine × String => parts.2)
    (fun _ ⟨_, _, _, _, _, _, _, _, _, _, _, _, _, _, _, fits⟩ => fits)
    fun tag tagFits => ?_
  refine (takes_option _ takes_readNic).last
    (fun parts : Machine × String => parts.1.nic) fun nic parts => ?_
  constructor
  · rintro ⟨rfl, rfl, rfl, rfl, rfl, rfl, rfl, rfl, rfl, rfl, rfl, rfl, rfl, rfl,
      rfl, rfl, fits, _⟩
    exact ⟨fits.nic, rfl⟩
  · rintro ⟨nicFits, rfl⟩
    exact ⟨rfl, rfl, rfl, rfl, rfl, rfl, rfl, rfl, rfl, rfl, rfl, rfl, rfl, rfl,
      rfl, rfl, ⟨cpuFits, topologyFits, memoryFits, commandLineFits, modeFits,
        devicesFit.1, devicesFit.2, nicFits⟩, tagFits⟩

end Nvx.Host.Template
