import Nvx.Activation.Codec

namespace Nvx.Activation

open Nvx.Data

/-! The values of the fields, each read back from what is written of it. -/

namespace Value

section

variable (value : Value)

theorem takes_code (Choice : Type) [Code Choice] :
    Takes (value.code Choice) (fun choice => [Code.code choice]) (fun _ => True) := by
  refine (Takes.u8 value.lengthError).convert Code.code fun byte choice => ?_
  rw [← Code.fromCode_eq_some_iff]
  cases (Code.fromCode byte : Option Choice) <;> simp [orRefuse]

theorem takes_readGeneration : Takes value.readGeneration
      (fun generation => LittleEndian.ofUInt64 generation.val) (fun _ => True) := by
  refine (Takes.u64 value.lengthError).convert Subtype.val fun number generation => ?_
  simp only [nonZero, and_true]
  split
  · simp [Subtype.ext_iff, eq_comm]
  · rename_i zero
    simp only [reduceCtorEq, false_iff]
    rintro rfl
    exact zero generation.property

def restoreBytes (restore : RestoreSection) : List UInt8 :=
  restore.transaction.val ++ (LittleEndian.ofUInt64 restore.template.generation.val ++
      (restore.template.key.val ++ []))

theorem takes_readRestore : Takes value.readRestore restoreBytes (fun _ => True) := by
  refine (Takes.takeBytes _ _).field RestoreSection.transaction fun transaction => ?_
  refine value.takes_readGeneration.field
    (fun restore : RestoreSection => restore.template.generation) fun generation => ?_
  refine (Takes.takeBytes _ _).field (fun restore : RestoreSection => restore.template.key)
    fun key => Takes.pure_of fun restore => ?_
  constructor
  · rintro ⟨rfl, rfl, rfl, _⟩
    rfl
  · rintro rfl
    exact ⟨rfl, rfl, rfl, trivial⟩

/-- The bytes of an image, without what the guest expects of it. -/
def imageBytes : Image → List UInt8
  | .erofs binding _ => Code.code ImageFormat.erofs :: binding.val
  | .gpt binding _ firstPartitionBound =>
    Code.code ImageFormat.gpt :: (binding.val ++ LittleEndian.ofUInt64 firstPartitionBound)

theorem takes_readImage :
    Takes value.readImage imageBytes (fun image => image.expected = none) := by
  refine ⟨@fun bytes image rest => ?_⟩
  simp only [readImage, (value.takes_code ImageFormat).bind_run_iff, true_and]
  constructor
  · rintro ⟨format, middle, rfl, read⟩
    cases format with
    | erofs =>
      simp only [readImageAs, take, (Takes.takeBytes _ _).bind_run_iff, StateT.run_pure] at read
      obtain ⟨binding, _, ⟨_, rfl⟩, same⟩ := read
      cases same
      exact ⟨rfl, rfl⟩
    | gpt =>
      simp only [readImageAs, take, (Takes.takeBytes _ _).bind_run_iff,
        (Takes.u64 _).bind_run_iff, StateT.run_pure] at read
      obtain ⟨binding, _, ⟨_, rfl⟩, bound, _, ⟨_, rfl⟩, same⟩ := read
      cases same
      exact ⟨rfl, by simp [imageBytes]⟩
  · rintro ⟨bare, rfl⟩
    refine ⟨image.format, (imageBytes image).tail ++ rest, ?_, ?_⟩
    · cases image <;> rfl
    · cases image with
      | erofs binding uuid =>
        cases bare
        simp only [Image.format, readImageAs, take, (Takes.takeBytes _ _).bind_run_iff,
          StateT.run_pure]
        exact ⟨binding, _, ⟨trivial, rfl⟩, rfl⟩
      | gpt binding diskGuid bound =>
        cases bare
        simp only [Image.format, readImageAs, take, (Takes.takeBytes _ _).bind_run_iff,
          (Takes.u64 _).bind_run_iff, StateT.run_pure]
        exact ⟨binding, _, ⟨trivial, List.append_assoc _ _ _⟩, bound, _, ⟨trivial, rfl⟩, rfl⟩

def upperBytes : Upper → List UInt8
  | .tmpfs => [tmpfs]
  | .scratch binding journal => scratch :: (binding.val ++ [Code.code journal])

theorem takes_readUpper : Takes value.readUpper upperBytes (fun _ => True) := by
  refine ⟨@fun bytes upper rest => ?_⟩
  simp only [readUpper, (Takes.u8 _).bind_run_iff, true_and]
  constructor
  · rintro ⟨byte, middle, rfl, read⟩
    unfold readUpperAs at read
    split at read
    · rename_i code
      cases read
      rw [code]
      rfl
    · split at read
      · rename_i code
        simp only [take, (Takes.takeBytes _ _).bind_run_iff,
          (value.takes_code Journal).bind_run_iff, StateT.run_pure] at read
        obtain ⟨binding, _, ⟨_, rfl⟩, journal, _, ⟨_, rfl⟩, same⟩ := read
        cases same
        simp [upperBytes, code]
      · cases read
  · rintro rfl
    cases upper with
    | tmpfs => exact ⟨tmpfs, rest, rfl, rfl⟩
    | scratch binding journal =>
      refine ⟨scratch, _, rfl, ?_⟩
      have other : scratch ≠ tmpfs := by decide
      simp only [readUpperAs, other, if_false, if_true, take, (Takes.takeBytes _ _).bind_run_iff,
        (value.takes_code Journal).bind_run_iff, StateT.run_pure]
      exact ⟨binding, _, ⟨trivial, List.append_assoc _ _ _⟩, journal, _, ⟨trivial, rfl⟩, rfl⟩

def exportBytes (shape : Export) : List UInt8 :=
  [Code.code shape.kind] ++ (shape.plan.val ++ [])

theorem takes_readExport : Takes value.readExport exportBytes (fun _ => True) := by
  refine (value.takes_code ExportKind).field Export.kind fun kind => ?_
  refine (Takes.takeBytes _ _).field Export.plan fun plan => Takes.pure_of fun shape => ?_
  constructor
  · rintro ⟨rfl, rfl, _⟩
    rfl
  · rintro rfl
    exact ⟨rfl, rfl, trivial⟩

def mappingsBytes (mappings : Nat) : List UInt8 :=
  LittleEndian.ofUInt16 (UInt16.ofNat mappings)

theorem takes_readMappings : Takes value.readMappings mappingsBytes
      (fun mappings => 0 < mappings ∧ mappings < 65536) := by
  refine (Takes.u16 value.lengthError).convert UInt16.ofNat fun number mappings => ?_
  have small := number.toNat_lt
  rw [mappingCount, ite_error_eq_ok_iff]
  constructor
  · rintro ⟨⟨positive, same⟩, _⟩
    obtain rfl := Except.ok.inj same
    refine ⟨UInt16.ofNat_toNat, ?_, small⟩
    exact Nat.pos_of_ne_zero fun zero => positive (UInt16.toNat_inj.mp zero)
  · rintro ⟨rfl, positive, bounded⟩
    have back : (UInt16.ofNat mappings).toNat = mappings :=
      UInt16.toNat_ofNat_of_lt' bounded
    refine ⟨⟨fun zero => ?_, by rw [back]⟩, trivial⟩
    rw [zero] at back
    exact Nat.ne_of_lt positive back

def networkBytes (network : Identity × Publication) : List UInt8 :=
  network.1.val ++ ([Code.code network.2] ++ [])

theorem takes_readNetwork : Takes value.readNetwork networkBytes (fun _ => True) := by
  refine (Takes.takeBytes _ _).field Prod.fst fun policy => ?_
  refine (value.takes_code Publication).field Prod.snd
    fun publication => Takes.pure_of fun network => ?_
  constructor
  · rintro ⟨rfl, rfl, _⟩
    rfl
  · rintro rfl
    exact ⟨rfl, rfl, trivial⟩

def identityBytes (identity : WorkloadIdentity) : List UInt8 :=
  LittleEndian.ofUInt32 identity.uid ++ (LittleEndian.ofUInt32 identity.gid ++ [])

theorem takes_readIdentity : Takes value.readIdentity identityBytes (fun _ => True) := by
  refine (Takes.u32 _).field WorkloadIdentity.uid fun uid => ?_
  refine (Takes.u32 _).field WorkloadIdentity.gid fun gid => Takes.pure_of fun identity => ?_
  constructor
  · rintro ⟨rfl, rfl, _⟩
    rfl
  · rintro rfl
    exact ⟨rfl, rfl, trivial⟩

def resourcesBytes (resources : ExpectedResources) : List UInt8 :=
  LittleEndian.ofUInt32 resources.cpus ++ (LittleEndian.ofUInt64 resources.memory ++ [])

theorem takes_readResources : Takes value.readResources resourcesBytes (fun _ => True) := by
  refine (Takes.u32 _).field ExpectedResources.cpus fun cpus => ?_
  refine (Takes.u64 _).field ExpectedResources.memory
    fun memory => Takes.pure_of fun resources => ?_
  constructor
  · rintro ⟨rfl, rfl, _⟩
    rfl
  · rintro rfl
    exact ⟨rfl, rfl, trivial⟩

end

/-- Reads the value of `field` with `read`, which knows the value. -/
def parse (field : Field) (read : Value → ByteReader ActivationError Slot)
    (bytes : List UInt8) : Except ActivationError Slot :=
  readWhole { field, length := bytes.length } (read { field, length := bytes.length }) bytes

theorem readWhole_eq_ok_iff {value : Value} {read : ByteReader ActivationError Slot} :
    value.readWhole read bytes = .ok slot ↔ read.run bytes = .ok (slot, []) := by
  simp only [readWhole, bind_eq_ok_iff, Prod.exists, ite_error_eq_ok_iff, not_not, Except.ok.injEq]
  constructor
  · rintro ⟨other, rest, read, rfl, rfl⟩
    exact read
  · intro read
    exact ⟨slot, [], read, rfl, rfl⟩

theorem parses_of_takes {field : Field} {read : Value → ByteReader ActivationError Slot}
    (takes : ∀ value, Takes (read value) write valid) :
    Parses (parse field read) write valid := by
  refine ⟨@fun bytes slot => ?_⟩
  rw [parse, readWhole_eq_ok_iff, (takes _).run_iff, List.append_nil]

def dnsBytes : IpAddr → List UInt8
  | .v4 octets => octets.val
  | .v6 octets => octets.val

theorem parses_dns : Parses (parse .dns readDns) dnsBytes (fun _ => True) := by
  refine ⟨@fun bytes address => ?_⟩
  rw [parse, readWhole_eq_ok_iff, readDns, true_and]
  constructor
  · intro read
    split at read
    all_goals
      simp only [take, (Takes.takeBytes _ _).bind_run_iff, StateT.run_pure] at read
      obtain ⟨octets, _, ⟨_, rfl⟩, same⟩ := read
      cases same
      exact List.append_nil _
  · rintro rfl
    cases address with
    | v4 octets =>
      simp only [dnsBytes, octets.property, if_true, take, (Takes.takeBytes _ _).bind_run_iff,
        StateT.run_pure]
      exact ⟨octets, [], ⟨trivial, (List.append_nil _).symm⟩, rfl⟩
    | v6 octets =>
      have long : ¬ 16 = 4 := by decide
      simp only [dnsBytes, octets.property, long, if_false, take,
        (Takes.takeBytes _ _).bind_run_iff, StateT.run_pure]
      exact ⟨octets, [], ⟨trivial, (List.append_nil _).symm⟩, rfl⟩

theorem parses_proxy : Parses (parse .proxy fun _ => readProxy) asBytes (fun _ => True) := by
  refine ⟨@fun bytes text => ?_⟩
  rw [parse, readWhole_eq_ok_iff, true_and, @eq_comm _ bytes, ← fromUtf8_eq_some_iff]
  change (do let text ← proxyText bytes; .ok (text, [])) = _ ↔ _
  rw [bind_eq_ok_iff, proxyText]
  cases fromUtf8 bytes <;> simp

theorem parses_hostname : Parses (parse .hostname fun _ => rest) id (fun _ => True) := by
  refine ⟨@fun bytes hostname => ?_⟩
  rw [parse, readWhole_eq_ok_iff, true_and]
  change Except.ok (bytes, []) = _ ↔ _
  simp

end Value

namespace Field

@[reducible] def Slot : Field → Type
  | .restore => RestoreSection
  | .image => Image
  | .imageIdentity => Uuid
  | .upper => Upper
  | .overlay => OverlayMode
  | .export => Export
  | .mappings => Nat
  | .network => Identity × Publication
  | .dns => IpAddr
  | .proxy => String
  | .hostname => List UInt8
  | .machineId => MachineIdMode
  | .workloadIdentity => WorkloadIdentity
  | .resources => ExpectedResources

def bytes : (field : Field) → field.Slot → List UInt8
  | .restore => Value.restoreBytes
  | .image => Value.imageBytes
  | .imageIdentity => Subtype.val
  | .upper => Value.upperBytes
  | .overlay => fun overlay => [Code.code overlay]
  | .export => Value.exportBytes
  | .mappings => Value.mappingsBytes
  | .network => Value.networkBytes
  | .dns => Value.dnsBytes
  | .proxy => asBytes
  | .hostname => id
  | .machineId => fun machineId => [Code.code machineId]
  | .workloadIdentity => Value.identityBytes
  | .resources => Value.resourcesBytes

/-- What a reader leaves in a slot: an image without its identity, and a number
of mappings that its field holds. -/
def Valid : (field : Field) → field.Slot → Prop
  | .image => fun image => image.expected = none
  | .mappings => fun mappings => 0 < mappings ∧ mappings < 65536
  | _ => fun _ => True

def parse : (field : Field) → List UInt8 → Except ActivationError field.Slot
  | .restore => Value.parse .restore Value.readRestore
  | .image => Value.parse .image Value.readImage
  | .imageIdentity => Value.parse .imageIdentity (Value.take · 16)
  | .upper => Value.parse .upper Value.readUpper
  | .overlay => Value.parse .overlay (Value.code · OverlayMode)
  | .export => Value.parse .export Value.readExport
  | .mappings => Value.parse .mappings Value.readMappings
  | .network => Value.parse .network Value.readNetwork
  | .dns => Value.parse .dns Value.readDns
  | .proxy => Value.parse .proxy fun _ => Value.readProxy
  | .hostname => Value.parse .hostname fun _ => Value.rest
  | .machineId => Value.parse .machineId (Value.code · MachineIdMode)
  | .workloadIdentity => Value.parse .workloadIdentity Value.readIdentity
  | .resources => Value.parse .resources Value.readResources

theorem parses : (field : Field) → Parses field.parse field.bytes field.Valid
  | .restore => Value.parses_of_takes Value.takes_readRestore
  | .image => Value.parses_of_takes Value.takes_readImage
  | .imageIdentity => Value.parses_of_takes fun _ => Takes.takeBytes _ _
  | .upper => Value.parses_of_takes Value.takes_readUpper
  | .overlay => Value.parses_of_takes (Value.takes_code · OverlayMode)
  | .export => Value.parses_of_takes Value.takes_readExport
  | .mappings => Value.parses_of_takes Value.takes_readMappings
  | .network => Value.parses_of_takes Value.takes_readNetwork
  | .dns => Value.parses_dns
  | .proxy => Value.parses_proxy
  | .hostname => Value.parses_hostname
  | .machineId => Value.parses_of_takes (Value.takes_code · MachineIdMode)
  | .workloadIdentity => Value.parses_of_takes Value.takes_readIdentity
  | .resources => Value.parses_of_takes Value.takes_readResources

end Field

namespace Draft

def slot (draft : Draft) : (field : Field) → Option field.Slot
  | .restore => draft.restore
  | .image => draft.image
  | .imageIdentity => draft.imageIdentity
  | .upper => draft.upper
  | .overlay => draft.overlay
  | .export => draft.export
  | .mappings => draft.mappings
  | .network => draft.network
  | .dns => draft.dns
  | .proxy => draft.proxy
  | .hostname => draft.hostname
  | .machineId => draft.machineId
  | .workloadIdentity => draft.identity
  | .resources => draft.resources

def fill (draft : Draft) : (field : Field) → field.Slot → Draft
  | .restore => fun restore => { draft with restore := some restore }
  | .image => fun image => { draft with image := some image }
  | .imageIdentity => fun uuid => { draft with imageIdentity := some uuid }
  | .upper => fun upper => { draft with upper := some upper }
  | .overlay => fun overlay => { draft with overlay := some overlay }
  | .export => fun shape => { draft with «export» := some shape }
  | .mappings => fun mappings => { draft with mappings := some mappings }
  | .network => fun network => { draft with network := some network }
  | .dns => fun dns => { draft with dns := some dns }
  | .proxy => fun proxy => { draft with proxy := some proxy }
  | .hostname => fun hostname => { draft with hostname := some hostname }
  | .machineId => fun machineId => { draft with machineId := some machineId }
  | .workloadIdentity => fun identity => { draft with identity := some identity }
  | .resources => fun resources => { draft with resources := some resources }

theorem read_eq (draft : Draft) (field : Field) (bytes : List UInt8) : draft.read field bytes = (do
      let slot ← field.parse bytes
      .ok (draft.fill field slot)) := by
  cases field <;> rfl

theorem slot_fill (draft : Draft) (field : Field) (slot : field.Slot) :
    (draft.fill field slot).slot field = some slot := by
  cases field <;> rfl

theorem slot_fill_of_ne (draft : Draft) (different : other ≠ field) (slot : field.Slot) :
    (draft.fill field slot).slot other = draft.slot other := by
  cases field <;> cases other <;> first | rfl | exact absurd rfl different

theorem ext_slot {first second : Draft}
    (same : ∀ field, first.slot field = second.slot field) : first = second := by
  cases first
  cases second
  congr 1
  · exact same .restore
  · exact same .image
  · exact same .imageIdentity
  · exact same .upper
  · exact same .overlay
  · exact same .export
  · exact same .mappings
  · exact same .network
  · exact same .dns
  · exact same .proxy
  · exact same .hostname
  · exact same .machineId
  · exact same .workloadIdentity
  · exact same .resources

def Sound (draft : Draft) : Prop :=
  ∀ field, ∀ slot ∈ draft.slot field, field.Valid slot

def write (draft : Draft) (field : Field) : Option (List UInt8) :=
  (draft.slot field).map field.bytes

theorem ext_write (soundFirst : Sound first) (soundSecond : Sound second)
    (same : ∀ field, first.write field = second.write field) : first = second :=
  ext_slot fun field => field.parses.option_injective (soundFirst field)
    (soundSecond field) (same field)

theorem sound_empty : Sound {} := by
  intro field slot filled
  cases field <;> cases filled

theorem write_empty (field : Field) : write {} field = none := by
  cases field <;> rfl

theorem Sound.of_read (sound : Sound draft) (read : draft.read field bytes = .ok next) :
    next.Sound := by
  rw [read_eq, bind_eq_ok_iff] at read
  obtain ⟨slot, parsed, filled⟩ := read
  obtain rfl := Except.ok.inj filled
  intro other held member
  by_cases same : other = field
  · subst same
    rw [slot_fill, Option.mem_some_iff] at member
    subst member
    exact (other.parses.eq_ok_iff.mp parsed).1
  · rw [draft.slot_fill_of_ne same] at member
    exact sound other held member

theorem write_of_read (read : read draft field bytes = .ok next) :
    next.write field = some bytes ∧
      ∀ other, other ≠ field → next.write other = draft.write other := by
  rw [read_eq, bind_eq_ok_iff] at read
  obtain ⟨slot, parsed, filled⟩ := read
  obtain rfl := Except.ok.inj filled
  obtain ⟨_, rfl⟩ := field.parses.eq_ok_iff.mp parsed
  refine ⟨by rw [write, slot_fill, Option.map_some], fun other different => ?_⟩
  rw [write, draft.slot_fill_of_ne different, write]

theorem exists_read (sound : Sound draft) (writes : draft.write field = some bytes)
    (start : Draft) : ∃ next, start.read field bytes = .ok next := by
  obtain ⟨slot, held, rfl⟩ := Option.map_eq_some_iff.mp writes
  refine ⟨start.fill field slot, ?_⟩
  rw [read_eq, bind_eq_ok_iff]
  exact ⟨slot, field.parses.eq_ok_iff.mpr ⟨sound field slot held, rfl⟩, rfl⟩

end Draft

end Nvx.Activation
