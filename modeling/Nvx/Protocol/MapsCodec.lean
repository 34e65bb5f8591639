import Nvx.Protocol.Maps

namespace Nvx.Protocol

open Nvx.Data

/-! The payloads that the decoders of host mappings accept. -/

theorem orMapsTruncated_eq_ok_iff {value : α} :
    orMapsTruncated found = .ok value ↔ found = some value := by
  cases found <;> simp [orMapsTruncated]

theorem readOnly_flags (known : flags &&& ~~~ mapReadOnly = 0) :
    (if flags &&& mapReadOnly ≠ 0 then mapReadOnly else 0) = flags := by
  have masked := eq_and_of_and_not known
  have bound : flags.toNat ≤ 1 := by
    rw [masked, UInt16.toNat_and]
    exact Nat.and_le_right
  have back := UInt16.ofNat_toNat (x := flags)
  generalize flags.toNat = value at bound back
  subst back
  match value with
  | 0 | 1 => decide
  | value + 2 => omega

theorem readOnly_written (readOnly : Bool) :
    (if readOnly then mapReadOnly else 0) &&& ~~~ mapReadOnly = 0 ∧
      decide ((if readOnly then mapReadOnly else 0) &&& mapReadOnly ≠ 0) =
        readOnly := by
  cases readOnly <;> decide

theorem Acceptable.length_le (acceptable : Acceptable source target) :
    source.length ≤ maxMapPathBytes ∧ target.length ≤ maxMapPathBytes := by
  obtain ⟨paths, _⟩ := acceptable
  exact ⟨(paths source (by simp)).1, (paths target (by simp)).1⟩

theorem end_le_of_present {bytes payload : List UInt8}
    (inside : offset ≤ payload.length) (present : bytes <+: payload.drop offset) :
    offset + bytes.length ≤ payload.length := by
  have length := present.length_le
  rw [List.length_drop] at length
  omega

theorem end_le_of_u16 {payload : List UInt8}
    (present : LittleEndian.ofUInt16 value <+: payload.drop offset) :
    offset + 2 ≤ payload.length := by
  have length := present.length_le
  rw [List.length_drop, LittleEndian.length_ofUInt16] at length
  omega

section Decoder

variable {Path : Type} {asRef : Path → List UInt8}

theorem takePath_eq_ok_iff (faithful : ∀ bytes text, path bytes = .ok text ↔ asRef text = bytes)
    (inside : offset ≤ payload.length) :
    takePath path length payload offset = .ok (text, next) ↔
      (asRef text).length = length ∧ asRef text <+: payload.drop offset ∧
        next = offset + length := by
  simp only [takePath, ite_error_eq_ok_iff, not_lt, bind_eq_ok_iff, faithful,
    Except.ok.injEq, Prod.mk.injEq]
  constructor
  · rintro ⟨fits, _, sliced, rfl, rfl⟩
    refine ⟨?_, ?_, rfl⟩
    · rw [sliced, length_slice fits]
    · rw [sliced]
      exact List.take_prefix _ _
  · rintro ⟨rfl, present, rfl⟩
    exact ⟨end_le_of_present inside present, text, List.prefix_iff_eq_take.mp present, rfl, rfl⟩

def entryBytes (asRef : Path → List UInt8) (map : MapOf Path) : List UInt8 :=
  LittleEndian.ofUInt16 (if map.readOnly then mapReadOnly else 0) ++
    (LittleEndian.ofUInt16 (lengthU16 (asRef map.source).length) ++
      (LittleEndian.ofUInt16 (lengthU16 (asRef map.target).length) ++
        (asRef map.source ++ asRef map.target)))

theorem length_entryBytes (map : MapOf Path) : (entryBytes asRef map).length =
      6 + (asRef map.source).length + (asRef map.target).length := by
  simp only [entryBytes, List.length_append, LittleEndian.length_ofUInt16]
  omega

def EntryFits (asRef : Path → List UInt8) (map : MapOf Path) : Prop :=
  Acceptable (asRef map.source) (asRef map.target)

theorem exact_decodeMapsEntry
    (faithful : ∀ bytes text, path bytes = .ok text ↔ asRef text = bytes) :
    Exact (decodeMapsEntry asRef path) (entryBytes asRef) (EntryFits asRef) := by
  intro payload offset map next
  simp only [decodeMapsEntry, bind_eq_ok_iff, orMapsTruncated_eq_ok_iff,
    Prod.exists, ite_error_eq_ok_iff, not_or, not_not, Except.ok.injEq,
    Prod.mk.injEq, u16At_eq_some_iff]
  constructor
  · rintro ⟨flags, present1, sourceLen, present2, targetLen, present3, source, _,
      readSource, target, _, readTarget, ⟨known, acceptable⟩, rfl, rfl⟩
    have inside : offset + mapEntryHeaderLen ≤ payload.length :=
      end_le_of_u16 present3
    rw [takePath_eq_ok_iff faithful inside] at readSource
    obtain ⟨sourceLength, present4, rfl⟩ := readSource
    have inside' := end_le_of_present inside present4
    rw [sourceLength] at inside'
    rw [takePath_eq_ok_iff faithful inside'] at readTarget
    obtain ⟨targetLength, present5, rfl⟩ := readTarget
    refine ⟨acceptable, ?_, ?_⟩
    · simp only [entryBytes, append_prefix_drop_iff, decide_eq_true_eq,
        readOnly_flags known, LittleEndian.length_ofUInt16]
      rw [← eq_lengthU16 sourceLength.symm, ← eq_lengthU16 targetLength.symm, sourceLength]
      exact ⟨present1, present2, present3, present4, present5⟩
    · rw [length_entryBytes, ← sourceLength, ← targetLength]
      simp only [mapEntryHeaderLen]
      omega
  · rintro ⟨acceptable, present, rfl⟩
    rcases map with ⟨source, target, readOnly⟩
    obtain ⟨sourceBound, targetBound⟩ := Acceptable.length_le acceptable
    have sourceWide : (lengthU16 (asRef source).length).toNat = (asRef source).length :=
      toNat_lengthU16 (Nat.lt_of_le_of_lt sourceBound (by decide))
    have targetWide : (lengthU16 (asRef target).length).toNat = (asRef target).length :=
      toNat_lengthU16 (Nat.lt_of_le_of_lt targetBound (by decide))
    obtain ⟨known, written⟩ := readOnly_written readOnly
    rw [length_entryBytes]
    simp only [entryBytes, append_prefix_drop_iff, LittleEndian.length_ofUInt16] at present
    obtain ⟨present1, present2, present3, present4, present5⟩ := present
    have inside : offset + mapEntryHeaderLen ≤ payload.length :=
      end_le_of_u16 present3
    refine ⟨_, present1, _, present2, _, present3, source, _,
      (takePath_eq_ok_iff faithful inside).mpr
        ⟨sourceWide.symm, present4, rfl⟩, target, _, ?_, ?_, ?_, rfl⟩
    · have inside' := end_le_of_present inside present4
      rw [sourceWide, takePath_eq_ok_iff faithful inside', targetWide]
      refine ⟨rfl, present5, ?_⟩
      simp only [mapEntryHeaderLen]
      omega
    · exact ⟨known, acceptable⟩
    · rw [written]

theorem exact_entries (faithful : ∀ bytes text, path bytes = .ok text ↔ asRef text = bytes)
    (count : Nat) :
    Exact (readMany (decodeMapsEntry asRef path) count)
      (fun maps => maps.flatMap (entryBytes asRef))
      (fun maps => maps.length = count ∧ ∀ map ∈ maps, EntryFits asRef map) :=
  Exact.many (exact_decodeMapsEntry faithful) count

def PayloadOf.layout (asRef : Path → List UInt8) (payload : PayloadOf Path) :
    List UInt8 :=
  LittleEndian.ofUInt32 payload.first ++ (LittleEndian.ofUInt32 (lengthU32 payload.maps.length) ++
      payload.maps.flatMap (entryBytes asRef))

theorem decodeMapsEntries_eq_ok_iff
    (faithful : ∀ bytes text, path bytes = .ok text ↔ asRef text = bytes)
    {bytes : List UInt8} {count : UInt32} {payload : PayloadOf Path} :
    (u32At bytes 0 = some payload.first ∧ u32At bytes 4 = some count ∧
        decodeMapsEntries asRef path bytes count = .ok payload.maps) ↔
      count.toNat = payload.maps.length ∧ (∀ map ∈ payload.maps, EntryFits asRef map) ∧
        payload.layout asRef = bytes := by
  simp only [decodeMapsEntries, bind_eq_ok_iff, Prod.exists,
    ite_error_eq_ok_iff, not_not, Except.ok.injEq, u32At_eq_some_iff]
  constructor
  · rintro ⟨present1, present2, maps, _, read, whole, rfl⟩
    obtain ⟨⟨length, fits⟩, present3, rfl⟩ := (exact_entries faithful _).mp read
    refine ⟨length.symm, fits, ?_⟩
    apply eq_of_prefix_drop_zero
    · simp only [PayloadOf.layout, append_prefix_drop_iff, LittleEndian.length_ofUInt32]
      rw [← eq_lengthU32 length.symm]
      exact ⟨present1, present2, present3⟩
    · rw [← whole]
      simp only [PayloadOf.layout, List.length_append, LittleEndian.length_ofUInt32, mapsHeaderLen]
      omega
  · rintro ⟨length, fits, rfl⟩
    have whole : payload.layout asRef <+: (payload.layout asRef).drop 0 :=
      List.prefix_refl _
    nth_rewrite 1 [PayloadOf.layout] at whole
    simp only [append_prefix_drop_iff, LittleEndian.length_ofUInt32, ← eq_lengthU32 length] at whole
    obtain ⟨present1, present2, present3⟩ := whole
    refine ⟨present1, present2, payload.maps, _,
      (exact_entries faithful _).mpr ⟨⟨length.symm, fits⟩, present3, rfl⟩, ?_,
      rfl⟩
    simp only [PayloadOf.layout, List.length_append, LittleEndian.length_ofUInt32, mapsHeaderLen]
    omega

end Decoder

theorem textPath_eq_ok_iff (bytes : List UInt8) (text : String) :
    textPath bytes = .ok text ↔ asBytes text = bytes := by
  rw [← fromUtf8_eq_some_iff, textPath]
  cases fromUtf8 bytes <;> simp

theorem bytePath_eq_ok_iff (bytes text : List UInt8) :
    (.ok bytes : Except ProtocolError (List UInt8)) = .ok text ↔ id text = bytes := by
  rw [Except.ok.injEq, id, eq_comm]

/-- The decoder for text accepts the payloads that hold acceptable entries. -/
theorem decodeMapsPayload_eq_ok_iff :
    decodeMapsPayload bytes = .ok payload ↔ payload.maps.length < 2 ^ 32 ∧
        (∀ map ∈ payload.maps, EntryFits asBytes map) ∧
        payload.layout asBytes = bytes := by
  have entries := @decodeMapsEntries_eq_ok_iff _ _ _ textPath_eq_ok_iff bytes
  simp only [decodeMapsPayload, bind_eq_ok_iff, orMapsTruncated_eq_ok_iff, Except.ok.injEq]
  constructor
  · rintro ⟨first, present1, count, present2, maps, decoded, rfl⟩
    obtain ⟨length, fits, layout⟩ :=
      (@entries count ⟨first, maps⟩).mp ⟨present1, present2, decoded⟩
    exact ⟨length ▸ count.toNat_lt, fits, layout⟩
  · rintro ⟨small, fits, layout⟩
    obtain ⟨present1, present2, decoded⟩ :=
      entries.mpr ⟨toNat_lengthU32 small, fits, layout⟩
    exact ⟨payload.first, present1, _, present2, payload.maps, decoded, rfl⟩

theorem decodeGuestMapsPayload_eq_ok_iff :
    decodeGuestMapsPayload bytes = .ok payload ↔ payload.maps.length ≤ maxHostMappings ∧
        (∀ map ∈ payload.maps, EntryFits id map) ∧
        payload.layout id = bytes := by
  have entries := @decodeMapsEntries_eq_ok_iff _ _ _ bytePath_eq_ok_iff bytes
  simp only [decodeGuestMapsPayload, bind_eq_ok_iff, orMapsTruncated_eq_ok_iff,
    ite_error_eq_ok_iff, not_lt, Except.ok.injEq]
  constructor
  · rintro ⟨first, present1, count, present2, few, maps, decoded, rfl⟩
    obtain ⟨length, fits, layout⟩ :=
      (@entries count ⟨first, maps⟩).mp ⟨present1, present2, decoded⟩
    exact ⟨length ▸ few, fits, layout⟩
  · rintro ⟨few, fits, layout⟩
    have length : (lengthU32 payload.maps.length).toNat = payload.maps.length :=
      toNat_lengthU32 (Nat.lt_of_le_of_lt few (by decide))
    obtain ⟨present1, present2, decoded⟩ :=
      entries.mpr ⟨length, fits, layout⟩
    exact ⟨payload.first, present1, _, present2, by rwa [length], payload.maps,
      decoded, rfl⟩

end Nvx.Protocol
