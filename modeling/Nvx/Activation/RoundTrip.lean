import Mathlib.Data.List.Sort
import Nvx.Activation.Slots

namespace Nvx.Activation

open Nvx.Data

/-! The fields of an encoding, with their values. -/

abbrev Entry : Type := Field × List UInt8

def Entry.frame (entry : Entry) : List UInt8 :=
  entry.1.tag :: UInt8.ofNat entry.2.length :: entry.2

def Ascending (fields : List Field) : Prop :=
  fields.Pairwise fun earlier later => earlier.tag < later.tag

theorem Ascending.nodup (ascending : Ascending fields) :
    fields.Nodup := by
  refine List.Pairwise.imp ?_ ascending
  rintro earlier _ before rfl
  exact UInt8.lt_irrefl _ before

theorem ascending_snoc_iff (ascending : Ascending seen) :
    Ascending (seen ++ [field]) ↔ field ∉ seen ∧ ¬ lastExceeds seen field.tag = true := by
  rcases List.eq_nil_or_concat seen with rfl | ⟨earlier, last, rfl⟩
  · simp [Ascending, lastExceeds]
  · rw [List.concat_eq_append] at ascending ⊢
    have beforeLast : ∀ other ∈ earlier, other.tag < last.tag := by
      intro other member
      exact (List.pairwise_append.mp ascending).2.2 other member last (List.mem_singleton_self last)
    rw [Ascending, List.pairwise_append]
    simp only [lastExceeds, List.getLast?_concat, decide_eq_true_eq,
      List.mem_append, List.mem_singleton, forall_eq]
    constructor
    · rintro ⟨_, _, before⟩
      refine ⟨fun present => ?_, fun exceeds => ?_⟩
      · exact UInt8.lt_irrefl _ (before field present)
      · exact UInt8.lt_irrefl _ (UInt8.lt_trans exceeds (before last (.inr rfl)))
    · rintro ⟨absent, bounded⟩
      have beforeField : last.tag < field.tag := by
        refine UInt8.lt_of_le_of_ne (UInt8.not_lt.mp bounded) fun same => ?_
        exact absent (.inr (Field.tag_injective same).symm)
      refine ⟨ascending, List.pairwise_singleton _ _, fun other member => ?_⟩
      rcases member with member | rfl
      · exact UInt8.lt_trans (beforeLast other member) beforeField
      · exact beforeField

namespace Draft

def readAll (draft : Draft) (entries : List Entry) :
    Except ActivationError Draft :=
  entries.foldlM (fun draft entry => draft.read entry.1 entry.2) draft

theorem readAll_cons : readAll draft (entry :: entries) = .ok next ↔
      ∃ middle, draft.read entry.1 entry.2 = .ok middle ∧ middle.readAll entries = .ok next := by
  rw [readAll, List.foldlM_cons, bind_eq_ok_iff]
  rfl

theorem readAll_eq_ok_iff (sound : Sound draft) (distinct : (entries.map Prod.fst).Nodup) :
    draft.readAll entries = .ok next ↔
      next.Sound ∧ (∀ entry ∈ entries, next.write entry.1 = some entry.2) ∧
        ∀ field, field ∉ entries.map Prod.fst →
          next.write field = draft.write field := by
  induction entries generalizing draft with
  | nil =>
    simp only [readAll, List.foldlM_nil]
    constructor
    · intro same
      obtain rfl := Except.ok.inj same
      exact ⟨sound, by simp, fun _ _ => rfl⟩
    · rintro ⟨soundNext, _, same⟩
      rw [ext_write soundNext sound fun field => same field List.not_mem_nil]
      rfl
  | cons entry entries induction =>
    obtain ⟨absent, others⟩ := List.nodup_cons.mp distinct
    rw [readAll_cons]
    constructor
    · rintro ⟨middle, first, later⟩
      obtain ⟨here, kept⟩ := write_of_read first
      obtain ⟨soundNext, written, rest⟩ :=
        (induction (sound.of_read first) others).mp later
      refine ⟨soundNext, List.forall_mem_cons.mpr ⟨?_, written⟩, ?_⟩
      · rw [rest _ absent, here]
      · intro field outside
        rw [List.map_cons, List.mem_cons, not_or] at outside
        rw [rest _ outside.2, kept _ outside.1]
    · rintro ⟨soundNext, written, rest⟩
      obtain ⟨here, later⟩ := List.forall_mem_cons.mp written
      obtain ⟨middle, first⟩ := exists_read soundNext here draft
      obtain ⟨filled, kept⟩ := write_of_read first
      refine ⟨middle, first, (induction (sound.of_read first) others).mpr
        ⟨soundNext, later, fun field outside => ?_⟩⟩
      by_cases same : field = entry.1
      · rw [same, here, filled]
      · rw [kept _ same]
        exact rest _ (by simp [same, outside])

def entries (draft : Draft) : List Entry :=
  Field.all.filterMap fun field =>
    (draft.write field).map fun bytes => (field, bytes)

theorem mem_entries {draft : Draft} :
    entry ∈ draft.entries ↔ draft.write entry.1 = some entry.2 := by
  obtain ⟨field, bytes⟩ := entry
  simp [entries, Field.mem_all]

theorem ascending_entries (draft : Draft) : Ascending (draft.entries.map Prod.fst) := by
  rw [Ascending, List.pairwise_map, entries]
  refine List.Pairwise.filterMap _ ?_
    (by decide : Field.all.Pairwise fun earlier later => earlier.tag < later.tag)
  intro earlier later before first isFirst second isSecond
  obtain ⟨_, _, rfl⟩ := Option.map_eq_some_iff.mp isFirst
  obtain ⟨_, _, rfl⟩ := Option.map_eq_some_iff.mp isSecond
  exact before

theorem eq_entries {draft : Draft} {entries : List Entry}
    (ascending : Ascending (entries.map Prod.fst))
    (members : ∀ entry, entry ∈ entries ↔ draft.write entry.1 = some entry.2) :
    entries = draft.entries := by
  have antisymm : Std.Antisymm fun first second : Entry =>
      first.1.tag < second.1.tag :=
    ⟨fun _ _ before after => absurd after (UInt8.lt_asymm before)⟩
  have irrefl : Std.Irrefl fun first second : Entry =>
      first.1.tag < second.1.tag := ⟨fun _ => UInt8.lt_irrefl _⟩
  have first := List.pairwise_map.mp ascending
  have second := List.pairwise_map.mp draft.ascending_entries
  exact first.eq_of_mem_iff second fun entry => by rw [members, mem_entries]

theorem readAll_empty_eq_ok_iff {entries : List Entry}
    (ascending : Ascending (entries.map Prod.fst)) :
    readAll {} entries = .ok next ↔ next.Sound ∧ entries = next.entries := by
  rw [readAll_eq_ok_iff sound_empty ascending.nodup]
  refine and_congr_right fun _ => ?_
  constructor
  · rintro ⟨written, rest⟩
    refine eq_entries ascending fun entry => ⟨written entry, fun writes => ?_⟩
    by_contra absent
    by_cases named : entry.1 ∈ entries.map Prod.fst
    · obtain ⟨other, member, same⟩ := List.mem_map.mp named
      have value := written other member
      rw [same, writes, Option.some.injEq] at value
      exact absent (Prod.ext same value.symm ▸ member)
    · rw [rest _ named, write_empty] at writes
      cases writes
  · rintro rfl
    refine ⟨fun entry => mem_entries.mp, fun field absent => ?_⟩
    rw [write_empty]
    by_contra present
    obtain ⟨bytes, writes⟩ := Option.ne_none_iff_exists'.mp present
    exact absent (List.mem_map.mpr ⟨(field, bytes), mem_entries.mpr writes, rfl⟩)

end Draft

theorem decodeFields_eq_ok_iff (ascending : Ascending seen) :
    decodeFields rest seen draft = .ok next ↔
      ∃ entries : List Entry, rest = entries.flatMap Entry.frame ∧
        (∀ entry ∈ entries, entry.2.length < 256) ∧
        Ascending (seen ++ entries.map Prod.fst) ∧
        draft.readAll entries = .ok next := by
  induction size : rest.length using Nat.strong_induction_on generalizing rest seen draft with
  | _ size induction =>
    subst size
    constructor
    · intro decoded
      match rest with
      | [] =>
        rw [decodeFields] at decoded
        exact ⟨[], rfl, by simp, by simpa using ascending, decoded⟩
      | [_] =>
        rw [decodeFields] at decoded
        cases decoded
      | tag :: length :: tail =>
        rw [decodeFields] at decoded
        split at decoded
        · cases decoded
        · rename_i field found
          obtain rfl := Field.fromTag_eq_some_iff.mp found
          simp only [ite_error_eq_ok_iff, bind_eq_ok_iff] at decoded
          obtain ⟨fresh, inOrder, fits, middle, first, later⟩ := decoded
          have wide : (tail.take length.toNat).length = length.toNat :=
            List.length_take_of_le (Nat.le_of_not_lt fits)
          have shorter : (tail.drop length.toNat).length <
              (field.tag :: length :: tail).length := by
            simp only [List.length_drop, List.length_cons]
            omega
          obtain ⟨entries, split, small, inOrder, read⟩ :=
            (induction _ shorter ((ascending_snoc_iff ascending).mpr ⟨fresh, inOrder⟩) rfl).mp later
          refine ⟨(field, tail.take length.toNat) :: entries, ?_,
            List.forall_mem_cons.mpr ⟨?_, small⟩, ?_,
            Draft.readAll_cons.mpr ⟨middle, first, read⟩⟩
          · rw [List.flatMap_cons, ← split, Entry.frame, wide,
              UInt8.ofNat_toNat, List.cons_append, List.cons_append,
              List.take_append_drop]
          · rw [wide]
            exact length.toNat_lt
          · rwa [List.append_assoc] at inOrder
    · rintro ⟨entries, rfl, small, inOrder, read⟩
      cases entries with
      | nil =>
        rw [List.flatMap_nil, decodeFields]
        exact read
      | cons entry entries =>
        obtain ⟨field, bytes⟩ := entry
        obtain ⟨fits, others⟩ := List.forall_mem_cons.mp small
        obtain ⟨middle, first, later⟩ := Draft.readAll_cons.mp read
        have back : (UInt8.ofNat bytes.length).toNat = bytes.length :=
          UInt8.toNat_ofNat_of_lt' fits
        rw [List.map_cons, ← List.singleton_append, ← List.append_assoc] at inOrder
        have soFar : Ascending (seen ++ [field]) :=
          (List.pairwise_append.mp inOrder).1
        obtain ⟨fresh, notExceeded⟩ := (ascending_snoc_iff ascending).mp soFar
        rw [List.flatMap_cons, Entry.frame, List.cons_append, List.cons_append,
          decodeFields, Field.fromTag_eq_some_iff.mpr rfl]
        simp only [ite_error_eq_ok_iff, bind_eq_ok_iff, back, List.take_left', List.drop_left']
        refine ⟨fresh, notExceeded, by simp, middle, first, ?_⟩
        refine (induction _ ?_ soFar rfl).mpr ⟨entries, rfl, others, inOrder, later⟩
        simp only [List.flatMap_cons, List.length_append, Entry.frame, List.length_cons]
        omega

namespace Image

def bare : Image → Image
  | .erofs binding _ => .erofs binding none
  | .gpt binding _ firstPartitionBound => .gpt binding none firstPartitionBound

theorem expected_bare (image : Image) : image.bare.expected = none := by
  cases image <;> rfl

theorem expecting_bare (image : Image) : image.bare.expecting image.expected = image := by
  rcases image with ⟨binding, _ | uuid⟩ | ⟨binding, _ | uuid, bound⟩ <;> rfl

theorem bare_expecting (isBare : expected image = none) (uuid : Option Uuid) :
    (image.expecting uuid).bare = image ∧ (image.expecting uuid).expected = uuid := by
  cases image <;> cases isBare <;> cases uuid <;> exact ⟨rfl, rfl⟩

end Image

namespace Draft

def of (record : ActivationRecord) : Draft :=
  let configuration := record.configuration
  { restore := record.restore
    image := some configuration.image.bare
    imageIdentity := configuration.image.expected
    upper := some configuration.upper
    overlay := some configuration.overlay
    «export» := configuration.export
    mappings := configuration.export.map fun _ => configuration.mappings
    network := configuration.network.map fun network =>
      (network.policy, network.publication)
    dns := configuration.network.bind (·.dns)
    proxy := configuration.network.bind (·.proxy)
    hostname := some configuration.workload.hostname
    machineId := some configuration.workload.machineId
    identity := configuration.workload.identity
    resources := some configuration.resources }

theorem sound_of (record : ActivationRecord) : (of record).Sound := by
  intro field slot filled
  cases field with
  | image =>
    obtain rfl := Option.some.inj filled
    exact record.configuration.image.expected_bare
  | mappings =>
    obtain ⟨shape, present, rfl⟩ := Option.map_eq_some_iff.mp filled
    have bounds := Configuration.mappings_bounds record.kept (Option.isSome_of_eq_some present)
    exact ⟨bounds.1, Nat.lt_of_le_of_lt bounds.2 (by decide)⟩
  | _ => trivial

theorem require_eq_ok_iff {slot : Option Slot} :
    require field slot = .ok value ↔ slot = some value := by
  cases slot <;> simp [require]

theorem intoNetwork_eq_ok_iff {draft : Draft} {network : Option Network} :
    draft.intoNetwork = .ok network ↔ draft.network = network.map (fun network =>
          (network.policy, network.publication)) ∧
        draft.dns = network.bind (·.dns) ∧
        draft.proxy = network.bind (·.proxy) := by
  unfold intoNetwork
  cases draft.network with
  | some held =>
    obtain ⟨policy, publication⟩ := held
    rw [Except.ok.injEq]
    constructor
    · rintro rfl
      exact ⟨rfl, rfl, rfl⟩
    · rintro ⟨same, dns, proxy⟩
      obtain ⟨network, rfl, parts⟩ := Option.map_eq_some_iff.mp same.symm
      cases parts
      rw [dns, proxy]
      rfl
  | none =>
    simp only [ite_error_eq_ok_iff, Except.ok.injEq, Option.isSome_iff_ne_none, not_not]
    constructor
    · rintro ⟨dns, proxy, rfl⟩
      exact ⟨rfl, dns, proxy⟩
    · rintro ⟨absent, dns, proxy⟩
      obtain rfl := Option.map_eq_none_iff.mp absent.symm
      exact ⟨dns, proxy, rfl⟩

theorem mappings_eq (sound : Sound draft) (kept : Configuration.check configuration = .ok ())
    (sameMappings : configuration.mappings = draft.mappings.getD 0) :
    draft.mappings = configuration.export.map fun _ => configuration.mappings := by
  cases present : configuration.export with
  | none =>
    have zero := Configuration.mappings_eq_zero kept present
    cases held : draft.mappings with
    | none => rfl
    | some mappings =>
      have positive : 0 < mappings := (sound .mappings mappings held).1
      rw [held, Option.getD_some] at sameMappings
      omega
  | some shape =>
    have bounds := Configuration.mappings_bounds kept (Option.isSome_of_eq_some present)
    cases held : draft.mappings with
    | none =>
      rw [held, Option.getD_none] at sameMappings
      omega
    | some mappings =>
      rw [held, Option.getD_some] at sameMappings
      rw [sameMappings]
      rfl

theorem intoRecord_eq_ok_iff (sound : draft.Sound) :
    draft.intoRecord = .ok record ↔ draft = of record := by
  simp only [intoRecord, bind_eq_ok_iff, require_eq_ok_iff,
    intoNetwork_eq_ok_iff, ActivationRecord.new_eq_ok_iff]
  constructor
  · rintro ⟨image, isImage, upper, isUpper, overlay, isOverlay, hostname,
      isHostname, machineId, isMachineId, resources, isResources, network,
      ⟨isNetwork, isDns, isProxy⟩, isRestore, same⟩
    obtain ⟨restore, configuration, kept⟩ := record
    simp only at isRestore same
    subst isRestore same
    obtain ⟨bare, expected⟩ := Image.bare_expecting (sound .image image isImage) draft.imageIdentity
    apply ext_slot
    intro field
    cases field with
    | image => exact isImage.trans (congrArg some bare.symm)
    | imageIdentity => exact expected.symm
    | upper => exact isUpper
    | overlay => exact isOverlay
    | mappings => exact mappings_eq sound kept rfl
    | network => exact isNetwork
    | dns => exact isDns
    | proxy => exact isProxy
    | hostname => exact isHostname
    | machineId => exact isMachineId
    | resources => exact isResources
    | restore | «export» | workloadIdentity => rfl
  · rintro rfl
    refine ⟨_, rfl, _, rfl, _, rfl, _, rfl, _, rfl, _, rfl,
      record.configuration.network, ⟨rfl, rfl, rfl⟩, rfl, ?_⟩
    have mappings : record.configuration.mappings = (of record).mappings.getD 0 := by
      cases present : record.configuration.export with
      | none => simp [of, present, Configuration.mappings_eq_zero record.kept present]
      | some shape => simp [of, present]
    rw [← mappings]
    simp only [of, Image.expecting_bare]

end Draft

theorem encodeField_eq (field : Field) (parts : List (List UInt8)) :
    encodeField field parts = Entry.frame (field, parts.flatten) := by
  rw [encodeField, Entry.frame, List.length_flatten]

namespace Draft

def written (draft : Draft) (field : Field) : List UInt8 :=
  match draft.write field with
  | some bytes => Entry.frame (field, bytes)
  | none => []

theorem flatMap_entries (draft : Draft) :
    draft.entries.flatMap Entry.frame = Field.all.flatMap draft.written := by
  unfold entries
  induction Field.all with
  | nil => rfl
  | cons field fields induction =>
    rw [List.filterMap_cons, List.flatMap_cons, ← induction, written]
    cases draft.write field <;> rfl

end Draft

section

variable (record : ActivationRecord)

open Draft

theorem encodeRestore_eq : encodeRestore record.restore = (of record).written .restore := by
  rw [written]
  simp only [write, slot, of]
  cases record.restore <;>
    simp [encodeRestore, encodeField_eq, Field.bytes, Value.restoreBytes]

theorem encodeImage_eq : encodeImage record.configuration.image = (of record).written .image ∧
      encodeImageIdentity record.configuration.image = (of record).written .imageIdentity := by
  rw [written, written]
  simp only [write, slot, of]
  constructor
  · cases record.configuration.image <;>
      simp [encodeImage, encodeField_eq, Image.bare, Field.bytes, Image.format, Value.imageBytes]
  · rw [encodeImageIdentity]
    cases record.configuration.image.expected <;>
      simp [encodeField_eq, Field.bytes]

theorem encodeUpper_eq : encodeUpper record.configuration.upper = (of record).written .upper := by
  rw [written]
  simp only [write, slot, of]
  cases record.configuration.upper <;>
    simp [encodeUpper, encodeField_eq, Field.bytes, Value.upperBytes]

theorem encodeExport_eq : encodeExport record.configuration =
      (of record).written .export ++ (of record).written .mappings := by
  rw [written, written, encodeExport]
  simp only [write, slot, of]
  cases record.configuration.export <;>
    simp [encodeField_eq, Field.bytes, Value.exportBytes, Value.mappingsBytes]

theorem encodeNetwork_eq : encodeNetwork record.configuration.network =
      (of record).written .network ++ ((of record).written .dns ++ (of record).written .proxy) := by
  rw [written, written, written]
  simp only [write, slot, of]
  cases record.configuration.network with
  | none => rfl
  | some network =>
    simp only [encodeNetwork, encodeField_eq, Field.bytes, Option.map_some,
      Option.bind_some, Value.networkBytes, List.flatten_cons, List.flatten_nil]
    congr 2
    · rcases network.dns with _ | ⟨octets⟩ | ⟨octets⟩ <;>
        simp [encodeDns, encodeField_eq, Value.dnsBytes]
    · cases network.proxy <;> simp [encodeProxy, encodeField_eq]

theorem encodeIdentity_eq : encodeIdentity record.configuration.workload.identity =
      (of record).written .workloadIdentity := by
  rw [written]
  simp only [write, slot, of]
  cases record.configuration.workload.identity <;>
    simp [encodeIdentity, encodeField_eq, Field.bytes, Value.identityBytes]

theorem encode_eq : encode record = LittleEndian.ofUInt16 version ++
      (of record).entries.flatMap Entry.frame := by
  rw [encode, encodeRestore_eq, (encodeImage_eq record).1, (encodeImage_eq record).2,
    encodeUpper_eq, encodeExport_eq, encodeNetwork_eq, encodeIdentity_eq,
    flatMap_entries]
  simp only [Field.all, List.flatMap_cons, List.flatMap_nil, List.append_assoc,
    List.append_nil, encodeField_eq, List.flatten_singleton]
  rfl

end

def Field.most : Field → Nat
  | .restore => 56
  | .image => 41
  | .imageIdentity => 16
  | .upper => 34
  | .overlay => 1
  | .export => 33
  | .mappings => 2
  | .network => 33
  | .dns => 16
  | .proxy => maxProxyEndpointBytes
  | .hostname => maxHostnameBytes
  | .machineId => 1
  | .workloadIdentity => 8
  | .resources => 12

theorem length_write_le (writes : (Draft.of record).write field = some bytes) :
    bytes.length ≤ field.most := by
  obtain ⟨slot, held, rfl⟩ := Option.map_eq_some_iff.mp writes
  cases field with
  | proxy =>
    obtain ⟨network, isNetwork, isProxy⟩ := Option.bind_eq_some_iff.mp held
    exact Configuration.proxy_length_le record.kept isNetwork isProxy
  | hostname =>
    obtain rfl := Option.some.inj held
    exact Configuration.hostname_length_le record.kept
  | image =>
    cases slot <;>
      simp [Field.bytes, Value.imageBytes, Field.most, Bytes.length_val]
  | upper =>
    cases slot <;>
      simp [Field.bytes, Value.upperBytes, Field.most, Bytes.length_val]
  | dns =>
    cases slot <;>
      simp [Field.bytes, Value.dnsBytes, Field.most, Bytes.length_val]
  | _ =>
    simp [Field.bytes, Field.most, Bytes.length_val, Value.restoreBytes, Value.exportBytes,
      Value.mappingsBytes, Value.networkBytes, Value.identityBytes,
      Value.resourcesBytes]

theorem length_encode_le (record : ActivationRecord) : (encode record).length ≤ 602 := by
  have bounded : ∀ fields : List Field,
      ((fields.filterMap fun field => ((Draft.of record).write field).map
          fun bytes => (field, bytes)).flatMap Entry.frame).length ≤
        (fields.map fun field => field.most + 2).sum := by
    intro fields
    induction fields with
    | nil => simp
    | cons field fields induction =>
      cases writes : (Draft.of record).write field with
      | none =>
        simp only [List.filterMap_cons, writes, Option.map_none, List.map_cons, List.sum_cons]
        omega
      | some bytes =>
        have small := length_write_le writes
        simp only [List.filterMap_cons, writes, Option.map_some,
          List.flatMap_cons, List.length_append, Entry.frame,
          List.length_cons, List.map_cons, List.sum_cons]
        omega
  rw [encode_eq, List.length_append, LittleEndian.length_ofUInt16]
  have whole := bounded Field.all
  have total : (Field.all.map fun field => field.most + 2).sum = 600 := by decide
  rw [total] at whole
  exact Nat.add_le_add_left whole 2

theorem decode_eq_ok_iff : decode bytes = .ok record ↔ bytes = encode record := by
  have ascending : Ascending [] := List.Pairwise.nil
  constructor
  · intro read
    unfold decode at read
    rw [ite_error_eq_ok_iff] at read
    obtain ⟨_, read⟩ := read
    split at read
    · rename_i low high rest
      simp only [ite_error_eq_ok_iff, not_not, bind_eq_ok_iff] at read
      obtain ⟨isVersion, draft, decoded, made⟩ := read
      obtain ⟨entries, rfl, _, inOrder, filled⟩ :=
        (decodeFields_eq_ok_iff ascending).mp decoded
      obtain ⟨sound, rfl⟩ := (Draft.readAll_empty_eq_ok_iff inOrder).mp filled
      rw [(Draft.intoRecord_eq_ok_iff sound).mp made, encode_eq, ← isVersion,
        LittleEndian.ofUInt16_toUInt16 rfl]
      rfl
    · cases read
  · rintro rfl
    have small := length_encode_le record
    have most : maxRecordBytes = 1024 := rfl
    unfold decode
    rw [ite_error_eq_ok_iff]
    refine ⟨by omega, ?_⟩
    rw [encode_eq]
    change (if _ then _ else _) = _
    simp only [ite_error_eq_ok_iff, bind_eq_ok_iff]
    refine ⟨by decide, Draft.of record, ?_,
      (Draft.intoRecord_eq_ok_iff (Draft.sound_of record)).mpr rfl⟩
    refine (decodeFields_eq_ok_iff ascending).mpr
      ⟨(Draft.of record).entries, rfl, fun entry member => ?_,
        (Draft.of record).ascending_entries, ?_⟩
    · refine Nat.lt_of_le_of_lt (length_write_le (Draft.mem_entries.mp member)) ?_
      cases entry.1 <;> decide
    · exact (Draft.readAll_empty_eq_ok_iff
        (Draft.of record).ascending_entries).mpr ⟨Draft.sound_of record, rfl⟩

/-- Records and their encodings determine each other. -/
theorem activation_record_is_read_back : (∀ record, decode (encode record) = .ok record ∧
      (encode record).length ≤ maxRecordBytes) ∧
    (∀ bytes record, decode bytes = .ok record → encode record = bytes) ∧
    ∀ first second record, decode first = .ok record →
      decode second = .ok record → first = second := by
  refine ⟨fun record => ⟨decode_eq_ok_iff.mpr rfl, ?_⟩, fun bytes record read => ?_,
    fun first second record readFirst readSecond => ?_⟩
  · exact Nat.le_trans (length_encode_le record) (by decide)
  · exact (decode_eq_ok_iff.mp read).symm
  · rw [decode_eq_ok_iff.mp readFirst, decode_eq_ok_iff.mp readSecond]

end Nvx.Activation
