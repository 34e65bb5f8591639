import Nvx.Host.Template.KeyParts

namespace Nvx.Host.Template

open Nvx.Data
open Nvx.Host.Template.Canonical

/-! A machine without a problem fits its encoding. -/

theorem not_of_ite_eq_none {refused : Prop} [Decidable refused] {problem : Value}
    (accepted : (if refused then some problem else none) = none) : ¬ refused := by
  intro holds
  rw [if_pos holds] at accepted
  cases accepted

theorem orElse_eq_none_iff {first second : Option Value} :
    (first <|> second) = none ↔ first = none ∧ second = none := by
  cases first <;> simp

namespace Device

theorem fits_of_problem (sound : problem device = none) :
    device.Fits := by
  rw [problem, orElse_eq_none_iff] at sound
  obtain ⟨texts, lists⟩ := sound
  have shortTexts := not_of_ite_eq_none texts
  have shortLists := not_of_ite_eq_none lists
  simp only [List.any_cons, List.any_nil, Bool.or_eq_true, decide_eq_true_eq,
    not_or, Nat.not_lt] at shortTexts shortLists
  obtain ⟨⟨stableId, kind, stateUnit, transport, _⟩, _⟩ := shortTexts
  obtain ⟨⟨ranges, banks⟩, sizes⟩ := shortLists
  exact ⟨stableId, kind, stateUnit, transport, ranges, banks, sizes⟩

end Device

theorem fits_of_devicesProblem (sound : devicesProblem earlier devices = none) :
    ∀ device ∈ devices, device.Fits := by
  induction devices generalizing earlier with
  | nil => simp
  | cons device devices induction =>
    simp only [devicesProblem, orElse_eq_none_iff] at sound
    obtain ⟨here, _, others⟩ := sound
    exact List.forall_mem_cons.mpr ⟨Device.fits_of_problem here, induction others⟩

theorem Nic.fits_of_problem (sound : problem nic = none) : nic.Fits := by
  rw [problem, orElse_eq_none_iff] at sound
  obtain ⟨texts, _⟩ := sound
  have shortTexts := not_of_ite_eq_none texts
  simp only [List.any_cons, List.any_nil, Bool.or_eq_true, decide_eq_true_eq,
    not_or, Nat.not_lt] at shortTexts
  exact ⟨shortTexts.1.2, shortTexts.2.1.2⟩

theorem Memory.fits_of_problem (sound : problem memory = none) :
    memory.Fits := by
  rw [problem, orElse_eq_none_iff, orElse_eq_none_iff] at sound
  obtain ⟨ranges, _, expansion⟩ := sound
  have rangesFit := not_of_ite_eq_none ranges
  have expansionFits := not_of_ite_eq_none expansion
  simp only [Bool.or_eq_true, decide_eq_true_eq, not_or, Nat.not_lt] at rangesFit expansionFits
  exact ⟨rangesFit.1.1.2, expansionFits.1⟩

theorem textLen_le_of_isProfileWord
    (word : isProfileWord (asBytes text) = true) : textLen text ≤ maxTextLen := by
  simp only [isProfileWord, Bool.and_eq_true, decide_eq_true_eq] at word
  exact Nat.le_trans word.1.2 (by decide)

theorem Machine.fits_of_problem (sound : problem machine sha256 = none) :
    machine.Fits := by
  simp only [Machine.problem, orElse_eq_none_iff] at sound
  obtain ⟨profile, cpuid, processors, _, memory, commandLine, _, _, _, interrupts,
    count, devices, nic⟩ := sound
  have profile := not_of_ite_eq_none profile
  have cpuid := not_of_ite_eq_none cpuid
  have processors := not_of_ite_eq_none processors
  have commandLine := not_of_ite_eq_none commandLine
  have interrupts := not_of_ite_eq_none interrupts
  have count := not_of_ite_eq_none count
  simp only [Bool.or_eq_true, Bool.not_eq_true', not_or, Bool.not_eq_false,
    decide_eq_true_eq, bne_iff_ne, ne_eq, not_not, Nat.not_lt]
    at profile cpuid processors commandLine interrupts count
  refine ⟨⟨textLen_le_of_isProfileWord profile.1.1,
    textLen_le_of_isProfileWord profile.1.2, cpuid.2⟩, ?_,
    Memory.fits_of_problem memory, commandLine, interrupts.2, count.2,
    fits_of_devicesProblem devices, ?_⟩
  · rw [processors.1.1.2]
    have counted := processors.1.1.1
    simp only [processorCounts, List.contains_eq_mem, List.mem_cons,
      List.not_mem_nil, or_false, decide_eq_true_eq] at counted
    rcases counted with same | same | same | same <;> rw [same] <;> decide
  · intro adapter present
    rw [Option.mem_def.mp present] at nic
    exact Nic.fits_of_problem nic

/-- A machine that passed its checks, with the dormant slot and its tag. -/
structure SoundMachine (sha256 : List UInt8 → Bytes 32) (parts : Machine × String) : Prop where
  sound : parts.1.problem sha256 = none
  dormant : parts.1.filesystemSlot = filesystemSlotVersion
  tagged : textLen parts.2 ≠ 0
  tagFits : textLen parts.2 ≤ maxTextLen

theorem takes_readMachine (sha256 : List UInt8 → Bytes 32) :
    Takes (readMachine sha256) (fun parts => writeMachine parts.1 parts.2)
      (SoundMachine sha256) := by
  refine takes_readMachineParts.convert id fun parts machine => ?_
  rw [checkedMachine]
  constructor
  · rintro ⟨checked, _, tagFits⟩
    split at checked
    · cases checked
    · rename_i sound
      rw [ite_error_eq_ok_iff, not_or, not_not] at checked
      obtain ⟨⟨dormant, tagged⟩, same⟩ := checked
      obtain rfl := Except.ok.inj same
      exact ⟨rfl, sound, dormant, tagged, tagFits⟩
  · rintro ⟨rfl, sound, dormant, tagged, tagFits⟩
    rw [id_eq, sound]
    refine ⟨?_, Machine.fits_of_problem sound, tagFits⟩
    simp [dormant, tagged]

theorem takes_readSettingParts : Takes readSettingParts writeSetting
      (fun setting => textLen setting.1 ≤ maxNameLen ∧ textLen setting.2 ≤ maxValueLen) := by
  refine (takes_text _ (by decide)).bind Prod.fst (fun _ fits => fits.1)
    fun name nameFits => ?_
  refine (takes_text _ (by decide)).last Prod.snd fun value setting => ?_
  constructor
  · rintro ⟨rfl, rfl, fits⟩
    exact ⟨fits.2, rfl⟩
  · rintro ⟨valueFits, rfl⟩
    exact ⟨rfl, rfl, nameFits, valueFits⟩

theorem fits_of_checkSetting (checked : checkSetting name value = .ok ()) :
    textLen name ≤ maxNameLen ∧ textLen value ≤ maxValueLen := by
  simp only [checkSetting, ite_error_eq_ok_iff, Bool.not_eq_true', Bool.not_eq_false,
    isSettingName, isSettingValue, Bool.and_eq_true, decide_eq_true_eq] at checked
  exact ⟨checked.1.1.1.2, checked.2.1.1⟩

theorem takes_readSetting : Takes readSetting writeSetting
      (fun setting => checkSetting setting.1 setting.2 = .ok ()) := by
  refine takes_readSettingParts.convert id fun parts setting => ?_
  rw [checkedSetting, bind_eq_ok_iff]
  constructor
  · rintro ⟨⟨_, checked, same⟩, _⟩
    obtain rfl := Except.ok.inj same
    exact ⟨rfl, checked⟩
  · rintro ⟨rfl, checked⟩
    exact ⟨⟨(), checked, rfl⟩, fits_of_checkSetting checked⟩

theorem before_trans (early : before first second)
    (late : before second third) : before first third :=
  List.lt_trans early late

theorem outOfOrder_eq_false_iff : outOfOrder settings = false ↔
      settings.Pairwise fun first second => before first.1 second.1 := by
  have trans : IsTrans (String × String) fun first second =>
      before first.1 second.1 := ⟨fun _ _ _ => before_trans⟩
  rw [← List.isChain_iff_pairwise]
  induction settings with
  | nil => simp [outOfOrder]
  | cons first rest induction =>
    cases rest with
    | nil => simp [outOfOrder]
    | cons second rest =>
      rw [outOfOrder, Bool.or_eq_false_iff, List.isChain_cons_cons]
      exact and_congr (by simp) induction

theorem takes_readInvariants : Takes Invariants.read Invariants.write Invariants.Valid := by
  refine (takes_list _ (by decide) takes_readSetting ?_).convert
    Invariants.settings fun settings invariants => ?_
  · intro setting _ empty
    exact writeText_ne_nil _ (List.append_eq_nil_iff.mp empty).1
  · rw [orderedInvariants, ite_error_eq_ok_iff, Bool.not_eq_true, outOfOrder_eq_false_iff]
    constructor
    · rintro ⟨⟨ascending, same⟩, few, checked⟩
      obtain rfl := Except.ok.inj same
      exact ⟨rfl, ascending, checked, few⟩
    · rintro ⟨rfl, ascending, checked, few⟩
      exact ⟨⟨ascending, rfl⟩, few, checked⟩

namespace Invariants

variable {settings : List (String × String)}

theorem valid_empty : empty.Valid :=
  ⟨List.Pairwise.nil, by simp [empty], Nat.zero_le _⟩

theorem mem_insert (member : setting ∈ insert name value settings) :
    setting = (name, value) ∨ setting ∈ settings := by
  rcases List.mem_append.mp member with early | late
  · exact .inr (List.mem_filter.mp early).1
  · exact (List.mem_cons.mp late).imp_right fun late => (List.mem_filter.mp late).1

theorem ascending_insert
    (ascending : settings.Pairwise fun first second => before first.1 second.1) :
    (insert name value settings).Pairwise fun first second => before first.1 second.1 := by
  have smaller : ∀ setting ∈ settings.filter (before ·.1 name), before setting.1 name :=
    fun setting member => of_decide_eq_true (List.mem_filter.mp member).2
  have greater : ∀ setting ∈ settings.filter (before name ·.1), before name setting.1 :=
    fun setting member => of_decide_eq_true (List.mem_filter.mp member).2
  refine List.pairwise_append.mpr ⟨ascending.filter _,
    List.pairwise_cons.mpr ⟨greater, ascending.filter _⟩, fun first isFirst second late => ?_⟩
  rcases List.mem_cons.mp late with rfl | isSecond
  · exact smaller first isFirst
  · exact before_trans (smaller first isFirst) (greater second isSecond)

theorem length_insert_le : (insert name value settings).length ≤
    settings.length + (if settings.any (fun setting => setting.1 == name) then 0 else 1) := by
  induction settings with
  | nil => exact Nat.le_refl 1
  | cons first rest induction =>
    have once : ¬ (before first.1 name ∧ before name first.1) :=
      fun both => List.lt_irrefl _ (before_trans both.1 both.2)
    have same : first.1 = name → ¬ before first.1 name := by
      rintro rfl
      exact List.lt_irrefl _
    simp only [insert, List.length_append, List.length_cons, List.filter_cons, List.any_cons]
      at induction ⊢
    grind

theorem Valid.with (valid : Valid invariants) (added : invariants.with name value = .ok next) :
    next.Valid := by
  unfold Invariants.with at added
  split at added
  · cases added
  · rename_i checked
    rw [ite_error_eq_ok_iff, not_and_or, Bool.not_eq_false] at added
    obtain ⟨room, same⟩ := added
    obtain rfl := Except.ok.inj same
    refine ⟨ascending_insert valid.ascending, fun setting member => ?_, ?_⟩
    · rcases mem_insert member with rfl | earlier
      · exact checked
      · exact valid.checked setting earlier
    · have bound := valid.few
      refine Nat.le_trans length_insert_le ?_
      split
      · exact bound
      · rename_i absent
        have few := room.resolve_left absent
        omega

end Invariants

namespace TemplateKey

structure Valid (sha256 : List UInt8 → Bytes 32) (key : TemplateKey) : Prop where
  runtime : key.runtime.check = .ok ()
  machine : SoundMachine sha256 (key.machine, key.filesystemTag)
  invariants : key.invariants.Valid

theorem takes_read (sha256 : List UInt8 → Bytes 32) : Takes (read sha256)
      (fun key => writeRuntime key.runtime ++ (writeText key.guestBuild.text ++
        (key.contracts.write ++ (writeMachine key.machine key.filesystemTag ++
          key.invariants.write)))) (Valid sha256) := by
  refine takes_readRuntime.bind TemplateKey.runtime (fun _ valid => valid.runtime)
    fun runtime runtimeOk => ?_
  refine (takes_readArtifact _).field TemplateKey.guestBuild fun guestBuild => ?_
  refine takes_readContracts.field TemplateKey.contracts fun contracts => ?_
  refine (takes_readMachine sha256).bind (fun key : TemplateKey => (key.machine, key.filesystemTag))
    (fun _ ⟨_, _, _, valid⟩ => valid.machine) fun machine machineOk => ?_
  refine takes_readInvariants.last TemplateKey.invariants fun invariants key => ?_
  constructor
  · rintro ⟨rfl, rfl, rfl, rfl, rfl, valid⟩
    exact ⟨valid.invariants, rfl⟩
  · rintro ⟨invariantsOk, rfl⟩
    exact ⟨rfl, rfl, rfl, rfl, rfl, runtimeOk, machineOk, invariantsOk⟩

end TemplateKey

@[simp] theorem length_writeU32 (word : UInt32) : (writeU32 word).length = 4 :=
  LittleEndian.length_ofUInt32 word

@[simp] theorem length_writeU64 (word : UInt64) : (writeU64 word).length = 8 :=
  LittleEndian.length_ofUInt64 word

@[simp] theorem length_writeText (text : String) : (writeText text).length = 4 + textLen text := by
  simp [writeText, writeBytes, writeLen, textLen]

theorem length_writeList_le {write : Value → List UInt8} {items : List Value}
    {count most : Nat} (few : items.length ≤ count)
    (bounded : ∀ item ∈ items, (write item).length ≤ most) :
    (writeList write items).length ≤ 4 + count * most := by
  have total : (items.flatMap write).length ≤ items.length * most := by
    clear few
    induction items with
    | nil => exact Nat.zero_le _
    | cons item items induction =>
      obtain ⟨first, others⟩ := List.forall_mem_cons.mp bounded
      have later := induction others
      rw [List.flatMap_cons, List.length_append, List.length_cons, Nat.succ_mul]
      omega
  have counted : items.length * most ≤ count * most := Nat.mul_le_mul_right _ few
  rw [writeList, List.length_append, writeLen, LittleEndian.length_ofUInt32]
  omega

theorem length_writeOption_le {write : Value → List UInt8} {option : Option Value}
    {most : Nat} (bounded : ∀ value ∈ option, (write value).length ≤ most) :
    (writeOption write option).length ≤ 1 + most := by
  cases option with
  | none => exact Nat.le_add_right 1 most
  | some value =>
    have small := bounded value rfl
    rw [writeOption, List.length_cons]
    omega

theorem length_writeDevice_le (fits : device.Fits) : (writeDevice device).length ≤ 1957 := by
  obtain ⟨stableId, kind, stateUnit, transport, ranges, banks, sizes⟩ := fits
  have rangesLength : (writeList writeDeviceRange device.ranges).length ≤ 4 + 16 * 24 := by
    refine length_writeList_le ranges fun range _ => ?_
    have named : textLen range.space.asStr = 4 := by
      cases range.space <;> decide
    simp [writeDeviceRange, named]
  have irqLength := @length_writeOption_le _ writeU32 device.irq 4 (by simp)
  have banksLength := @length_writeList_le _ writeU32 _ _ 4 banks (by simp)
  have sizesLength := @length_writeList_le _ writeU32 _ _ 4 sizes (by simp)
  simp only [maxDeviceWords, maxTextLen] at *
  simp only [writeDevice, List.length_append, length_writeText, length_writeU32]
  omega

theorem length_writeNic_le (fits : nic.Fits) : (writeNic nic).length ≤ 700 := by
  obtain ⟨profile, mode⟩ := fits
  have ipv6Length := @length_writeOption_le _ writeIpv6 nic.ipv6 33
    (by simp [writeIpv6, Bytes.length_val])
  simp only [maxTextLen] at *
  simp only [writeNic, writePolicy, List.length_append, length_writeText,
    length_writeU32, writeBool, Bytes.length_val, List.length_singleton]
  omega

theorem length_writeCpu_le (fits : cpu.Fits) : (writeCpu cpu).length ≤ 45620 := by
  obtain ⟨vendor, generation, cpuid⟩ := fits
  simp only [maxTextLen, maxCpuidEntries, cpuidEntryLen] at vendor generation cpuid
  simp only [writeCpu, writeBytes, writeLen, List.length_append, length_writeText,
    length_writeU32, Bytes.length_val, LittleEndian.length_ofUInt32]
  omega

theorem length_writeMemory_le (fits : memory.Fits) : (writeMemory memory).length ≤ 4128 := by
  obtain ⟨ranges, expansion⟩ := fits
  have each : ∀ range : MemoryRange, (writeMemoryRange range).length ≤ 16 := by
    simp [writeMemoryRange]
  have rangesLength := length_writeList_le ranges fun range _ => each range
  have expansionLength := length_writeList_le expansion fun range _ => each range
  simp only [maxMemoryRanges] at rangesLength expansionLength
  simp only [writeMemory, List.length_append, length_writeU64]
  omega

theorem length_writeTopology_le (fits : topology.apicIds.length ≤ maxProcessors) :
    (writeTopology topology).length ≤ 52 := by
  have apicLength := @length_writeList_le _ writeU32 _ _ 4 fits (by simp)
  simp only [maxProcessors] at apicLength
  simp only [writeTopology, List.length_append, length_writeU32]
  omega

theorem length_writeMachine_le (fits : machine.Fits) (tagFits : textLen tag ≤ maxTextLen) :
    (writeMachine machine tag).length ≤ 180000 := by
  have named : textLen machine.hypervisor.asStr ≤ 4 := by
    cases machine.hypervisor <;> decide
  have cpuLength := length_writeCpu_le fits.cpu
  have topologyLength := length_writeTopology_le fits.apicIds
  have memoryLength := length_writeMemory_le fits.memory
  have devicesLength := @length_writeList_le _ writeDevice _ _ _ fits.few
    fun device member => length_writeDevice_le (fits.devices device member)
  have nicLength := @length_writeOption_le _ writeNic _ _
    fun adapter present => length_writeNic_le (fits.nic adapter present)
  have commandLine := fits.commandLine
  have mode := fits.mode
  simp only [maxTextLen, maxCommandLineLen, maxDevices] at tagFits devicesLength commandLine mode
  simp only [writeMachine, writeRates, writeGeometry, writeInterrupts,
    List.length_append, length_writeText, length_writeU32, length_writeU64,
    Bytes.length_val]
  simp only [← Nat.add_assoc]
  omega

namespace TemplateKey

theorem length_toBytes_le {key : TemplateKey} (valid : key.Valid sha256) :
    key.toBytes.length ≤ maxLen := by
  have machineLength : (writeMachine key.machine key.filesystemTag).length ≤ 180000 :=
    length_writeMachine_le (Machine.fits_of_problem valid.machine.sound) valid.machine.tagFits
  have openvmm := textLen_le_of_isToken key.runtime.openvmm.valid
  have kernel := textLen_le_of_isToken key.runtime.kernel.valid
  have initramfs := textLen_le_of_isToken key.runtime.initramfs.valid
  have control := textLen_le_of_isToken (check_eq_ok_iff.mp valid.runtime)
  have guestBuild := textLen_le_of_isToken key.guestBuild.valid
  have settings := @length_writeList_le _ writeSetting _ _ 328
    valid.invariants.few fun setting member => by
      obtain ⟨name, value⟩ :=
        fits_of_checkSetting (valid.invariants.checked setting member)
      simp only [maxNameLen, maxValueLen] at name value
      simp only [writeSetting, List.length_append, length_writeText]
      omega
  simp only [maxIdentityLen, maxSettings] at openvmm kernel initramfs control guestBuild settings
  change _ ≤ 262144
  simp only [toBytes, writeRuntime, Contracts.write, Invariants.write,
    List.length_append, length_writeText, length_writeU64,
    LittleEndian.length_ofUInt16]
  simp only [← Nat.add_assoc]
  omega

theorem orMalformed_eq_ok_iff {value : Value} :
    orMalformed result = .ok value ↔ result = .ok value := by
  cases result <;> simp [orMalformed]

theorem finish_eq_ok_iff : Reader.finish rest = .ok () ↔ rest = [] := by
  rw [← List.length_eq_zero_iff, Reader.finish]
  split <;> simp_all

theorem fromBytes_eq_ok_iff :
    fromBytes sha256 bytes = .ok key ↔ key.Valid sha256 ∧ bytes = key.toBytes := by
  simp only [fromBytes, ite_error_eq_ok_iff, bind_eq_ok_iff, orMalformed_eq_ok_iff,
    Prod.exists, Reader.u16, (Takes.u16 _).run_iff, true_and, not_not,
    (takes_read sha256).run_iff, Except.ok.injEq]
  constructor
  · rintro ⟨_, found, _, rfl, rfl, other, _, ⟨valid, rfl⟩, _, finished, rfl⟩
    obtain rfl := finish_eq_ok_iff.mp finished
    exact ⟨valid, by rw [List.append_nil, toBytes]⟩
  · rintro ⟨valid, rfl⟩
    exact ⟨Nat.not_lt.mpr (length_toBytes_le valid), version, _, rfl, rfl, key, [],
      ⟨valid, (List.append_nil _).symm⟩, (), rfl, rfl⟩

theorem valid_of_new {manifest : TemplateManifest sha256}
    (made : new capture manifest = .ok key) : key.Valid sha256 := by
  simp only [new, bind_eq_ok_iff, CaptureClass.check] at made
  obtain ⟨_, ⟨_, runtime, _⟩, _, _, _, _, _, _, _, _, _, _, _, _, _, _, same⟩ := made
  obtain rfl := Except.ok.inj same
  have tagLength : textLen mountTag = 7 := by decide
  refine ⟨runtime, ⟨manifest.sound, manifest.dormant, ?_, ?_⟩, capture.settled⟩
  · rw [tagLength]
    decide
  · rw [tagLength]
    decide

def Made (sha256 : List UInt8 → Bytes 32) (key : TemplateKey) : Prop :=
  (∃ capture, ∃ manifest : TemplateManifest sha256, new capture manifest = .ok key) ∨
    ∃ bytes, fromBytes sha256 bytes = .ok key

theorem Made.valid {key : TemplateKey} (made : key.Made sha256) :
    key.Valid sha256 := by
  rcases made with ⟨capture, manifest, made⟩ | ⟨bytes, read⟩
  · exact valid_of_new made
  · exact (fromBytes_eq_ok_iff.mp read).1

/-- Keys and their encodings determine each other. -/
theorem template_key_is_read_back (sha256 : List UInt8 → Bytes 32) :
    (∀ capture, ∀ manifest : TemplateManifest sha256, ∀ key, new capture manifest = .ok key →
        key.toBytes.length ≤ maxLen ∧ fromBytes sha256 key.toBytes = .ok key) ∧
    (∀ bytes key, fromBytes sha256 bytes = .ok key → key.toBytes = bytes) ∧
    ∀ first second : TemplateKey, first.Made sha256 → second.Made sha256 →
      (first = second ↔ first.toBytes = second.toBytes) := by
  refine ⟨fun capture manifest key made => ?_, fun bytes key read => ?_,
    fun first second madeFirst madeSecond => ⟨fun same => by rw [same], fun same => ?_⟩⟩
  · have valid := valid_of_new made
    exact ⟨length_toBytes_le valid, fromBytes_eq_ok_iff.mpr ⟨valid, rfl⟩⟩
  · exact (fromBytes_eq_ok_iff.mp read).2.symm
  · have readFirst := fromBytes_eq_ok_iff.mpr ⟨madeFirst.valid, same.symm⟩
    rw [fromBytes_eq_ok_iff.mpr ⟨madeSecond.valid, rfl⟩] at readFirst
    exact (Except.ok.inj readFirst).symm

end TemplateKey

end Nvx.Host.Template
