import Mathlib.Data.List.Forall2
import Nvx.Data.History
import Nvx.Protocol.MapsCodec

namespace Nvx.Protocol

open Nvx.Data

/-! How the encoder cuts the host mapping table into payloads. -/

variable {Path : Type}

def tableOf (chunks : List (PayloadOf Path)) : List (MapOf Path) :=
  chunks.flatMap PayloadOf.maps

theorem tableOf_concat (chunks : List (PayloadOf Path)) (chunk : PayloadOf Path) :
    tableOf (chunks ++ [chunk]) = tableOf chunks ++ chunk.maps := by
  simp [tableOf]

/-- The payload continues the table, and has entries that fit the limit. -/
structure Chunk (limit : Nat) (earlier : List MapsPayload) (payload : MapsPayload) : Prop where
  continues : payload.first.toNat = (tableOf earlier).length
  nonempty : payload.maps ≠ []
  bounded : (payload.layout asBytes).length ≤ limit
  fits : ∀ map ∈ payload.maps, EntryFits asBytes map

theorem length_layout (asRef : Path → List UInt8) (payload : PayloadOf Path) :
    (payload.layout asRef).length = 8 + (payload.maps.flatMap (entryBytes asRef)).length := by
  simp only [PayloadOf.layout, List.length_append, LittleEndian.length_ofUInt32]
  omega

theorem entryLen_eq (map : HostMap) : entryLen map = (entryBytes asBytes map).length :=
  (length_entryBytes map).symm

namespace Packing

theorem push_payload (map : HostMap) (packing : Packing) :
    (packing.push map).payload = packing.payload ++ entryBytes asBytes map := by
  simp only [push, entryBytes, List.append_assoc]

/-- The payloads `chunks` are complete, and no other has been started. -/
structure Closed (limit : Nat) (chunks : List MapsPayload) (packing : Packing) : Prop where
  cut : Throughout (Chunk limit) chunks
  payloads : packing.payloads = chunks.map (PayloadOf.layout asBytes)
  payload : packing.payload = []
  count : packing.count = 0

/-- The payload that is being packed holds `current`, except for its number of
entries. -/
structure Opened (limit : Nat) (chunks : List MapsPayload)
    (current : MapsPayload) (packing : Packing) : Prop where
  cut : Throughout (Chunk limit) chunks
  chunk : Chunk limit chunks current
  payloads : packing.payloads = chunks.map (PayloadOf.layout asBytes)
  payload : packing.payload = LittleEndian.ofUInt32 current.first ++
    (LittleEndian.ofUInt32 0 ++ current.maps.flatMap (entryBytes asBytes))
  count : packing.count.toNat = current.maps.length

theorem closed_empty (limit : Nat) : Closed limit [] empty :=
  ⟨throughout_nil (Chunk limit), rfl, rfl, rfl⟩

theorem Opened.complete_eq (opened : Opened limit chunks current packing) : packing.complete =
      (chunks ++ [current]).map (PayloadOf.layout asBytes) := by
  have header : (LittleEndian.ofUInt32 current.first ++ LittleEndian.ofUInt32 0).length = 8 := by
    simp
  have rest : packing.payload.drop 8 = current.maps.flatMap (entryBytes asBytes) := by
    rw [opened.payload, ← List.append_assoc, List.drop_left' header]
  have first : packing.payload.take 4 = LittleEndian.ofUInt32 current.first := by
    rw [opened.payload, List.take_left' (LittleEndian.length_ofUInt32 _)]
  rw [complete, opened.payloads, rest, first, eq_lengthU32 opened.count,
    List.map_append, List.append_assoc]
  rfl

theorem Opened.flush (opened : Opened limit chunks current packing) :
    Closed limit (chunks ++ [current]) packing.flush where
  cut := opened.cut.concat opened.chunk
  payloads := opened.complete_eq
  payload := rfl
  count := rfl

theorem Closed.push (closed : Closed limit chunks packing) {map : HostMap}
    (small : (tableOf chunks).length < 2 ^ 32) (fits : EntryFits asBytes map)
    (bounded : mapsHeaderLen + entryLen map ≤ limit) :
    Opened limit chunks ⟨lengthU32 (tableOf chunks).length, [map]⟩
      ((packing.start (tableOf chunks).length).push map) where
  cut := closed.cut
  chunk := by
    refine ⟨toNat_lengthU32 small, List.cons_ne_nil map [], ?_, ?_⟩
    · rw [length_layout, List.flatMap_singleton, ← entryLen_eq]
      exact bounded
    · exact List.forall_mem_singleton.mpr fits
  payloads := closed.payloads
  payload := by
    rw [push_payload, start, closed.payload, List.flatMap_singleton]
    simp
  count := by
    simp only [Packing.push, start, closed.count]
    rfl

theorem Opened.push (opened : Opened limit chunks current packing)
    {map : HostMap} (small : current.maps.length + 1 < 2 ^ 32) (fits : EntryFits asBytes map)
    (bounded : packing.payload.length + entryLen map ≤ limit) :
    Opened limit chunks ⟨current.first, current.maps ++ [map]⟩ (packing.push map) where
  cut := opened.cut
  chunk := by
    refine ⟨opened.chunk.continues, by simp, ?_, ?_⟩
    · rw [opened.payload, entryLen_eq] at bounded
      rw [length_layout, List.flatMap_append, List.flatMap_singleton]
      simp only [List.length_append, LittleEndian.length_ofUInt32] at bounded ⊢
      omega
    · rw [List.forall_mem_append, List.forall_mem_singleton]
      exact ⟨opened.chunk.fits, fits⟩
  payloads := opened.payloads
  payload := by
    rw [push_payload, opened.payload, List.flatMap_append, List.flatMap_singleton]
    simp only [List.append_assoc]
  count := by
    have count := opened.count
    rw [List.length_append, List.length_singleton, Packing.push, UInt32.toNat_add, count]
    exact Nat.mod_eq_of_lt small

inductive Packed (limit : Nat) : List HostMap → Packing → Prop
  | empty : Packed limit [] empty
  | opened {chunks : List MapsPayload} {current : MapsPayload}
      {packing : Packing} (opened : Opened limit chunks current packing) :
      Packed limit (tableOf (chunks ++ [current])) packing

theorem add_eq_ok_iff {packing next : Packing} : packing.add limit index map = .ok next ↔
      EntryFits asBytes map ∧ mapsHeaderLen + entryLen map ≤ limit ∧ (let flushed :=
          if 0 < packing.count ∧ limit < packing.payload.length + entryLen map
            then packing.flush else packing
        (if flushed.count = 0 then flushed.start index else flushed).push map =
          next) := by
  simp only [add, ite_error_eq_ok_iff, not_not, not_lt, Except.ok.injEq]
  rfl

theorem Packed.add (packed : Packed limit maps packing) (few : maps.length + 1 < 2 ^ 32)
    (added : packing.add limit maps.length map = .ok next) :
    Packed limit (maps ++ [map]) next := by
  obtain ⟨fits, bounded, result⟩ := add_eq_ok_iff.mp added
  cases packed with
  | empty =>
    subst result
    exact .opened ((closed_empty limit).push (by decide) fits bounded)
  | @opened chunks current packing opened =>
    have positive : 0 < packing.count := by
      rw [UInt32.lt_iff_toNat_lt, opened.count]
      exact List.length_pos_of_ne_nil opened.chunk.nonempty
    have length : current.maps.length + 1 < 2 ^ 32 := by
      rw [tableOf_concat, List.length_append] at few
      omega
    by_cases full : limit < packing.payload.length + entryLen map
    · simp only [if_pos (And.intro positive full)] at result
      rw [if_pos opened.flush.count] at result
      subst result
      have next := opened.flush.push (by omega) fits bounded
      rw [← tableOf_concat _ ⟨_, [map]⟩]
      exact .opened next
    · have room : ¬ (0 < packing.count ∧ limit < packing.payload.length + entryLen map) :=
        fun both => full both.2
      simp only [if_neg room] at result
      rw [if_neg (UInt32.pos_iff_ne_zero.mp positive)] at result
      subst result
      have next := opened.push length fits (by omega)
      rw [tableOf_concat, List.append_assoc, ← tableOf_concat chunks ⟨_, current.maps ++ [map]⟩]
      exact .opened next

theorem Packed.addAll (packed : Packed limit maps packing) (few : (maps ++ others).length < 2 ^ 32)
    (added : packing.addAll limit maps.length others = .ok next) :
    Packed limit (maps ++ others) next := by
  induction others generalizing maps packing with
  | nil =>
    obtain rfl := Except.ok.inj added
    rwa [List.append_nil]
  | cons map others induction =>
    obtain ⟨middle, one, rest⟩ := bind_eq_ok_iff.mp added
    rw [List.append_cons] at few ⊢
    apply induction (packed.add ?_ one) few
    · rwa [List.length_append]
    · simp only [List.length_append] at few
      simp at few
      omega

theorem add_eq_error {packing : Packing} (failed : packing.add limit index map = .error error) :
    ¬ EntryFits asBytes map ∨ limit < mapsHeaderLen + entryLen map := by
  unfold add at failed
  split at failed
  · exact .inl ‹_›
  · split at failed
    · exact .inr ‹_›
    · cases failed

theorem addAll_eq_error {packing : Packing}
    (failed : packing.addAll limit index maps = .error error) :
    ∃ map ∈ maps, ¬ EntryFits asBytes map ∨ limit < mapsHeaderLen + entryLen map := by
  induction maps generalizing index packing with
  | nil => cases failed
  | cons map maps induction =>
    rw [addAll] at failed
    cases added : packing.add limit index map with
    | error _ => exact ⟨map, List.mem_cons_self, add_eq_error added⟩
    | ok next =>
      rw [added] at failed
      obtain ⟨other, member, reason⟩ := induction failed
      exact ⟨other, List.mem_cons_of_mem map member, reason⟩

end Packing

theorem encodeMapsPayloads_ok (encoded : encodeMapsPayloads maps limit = .ok payloads) :
    maps.length ≤ maxHostMappings ∧ ∃ chunks : List MapsPayload,
      Throughout (Chunk limit) chunks ∧ tableOf chunks = maps ∧
        chunks.map (PayloadOf.layout asBytes) = payloads := by
  simp only [encodeMapsPayloads, ite_error_eq_ok_iff, bind_eq_ok_iff,
    Except.ok.injEq, not_or, not_lt] at encoded
  obtain ⟨⟨nonempty, few⟩, packing, added, rfl⟩ := encoded
  refine ⟨few, ?_⟩
  have packed := Packing.Packed.addAll (.empty : Packing.Packed limit [] _)
    (Nat.lt_of_le_of_lt few (by decide)) added
  rw [List.nil_append] at packed
  cases packed with
  | empty => exact absurd rfl nonempty
  | opened opened =>
    exact ⟨_, opened.cut.concat opened.chunk, rfl, opened.complete_eq.symm⟩

def MapOf.bytes (map : HostMap) : GuestHostMap :=
  ⟨asBytes map.source, asBytes map.target, map.readOnly⟩

def PayloadOf.bytes (payload : MapsPayload) : GuestMapsPayload :=
  ⟨payload.first, payload.maps.map MapOf.bytes⟩

theorem PayloadOf.layout_bytes (payload : MapsPayload) :
    payload.bytes.layout id = payload.layout asBytes := by
  simp only [layout, bytes, List.length_map, List.flatMap_map]
  rfl

theorem Chunk.decoded (chunk : Chunk limit earlier payload)
    (few : payload.maps.length ≤ maxHostMappings) :
    decodeMapsPayload (payload.layout asBytes) = .ok payload ∧
      decodeGuestMapsPayload (payload.layout asBytes) = .ok payload.bytes := by
  constructor
  · rw [decodeMapsPayload_eq_ok_iff]
    exact ⟨Nat.lt_of_le_of_lt few (by decide), chunk.fits, rfl⟩
  · rw [decodeGuestMapsPayload_eq_ok_iff]
    refine ⟨?_, ?_, payload.layout_bytes⟩
    · rwa [PayloadOf.bytes, List.length_map]
    · exact List.forall_mem_map.mpr chunk.fits

/-- Packing the host mapping table loses nothing, fails only for the reasons that
it names, and the guest cannot read two payloads alike. -/
theorem host_mapping_table_survives_chunking :
    (∀ maps limit payloads, encodeMapsPayloads maps limit = .ok payloads →
      ∃ chunks : List MapsPayload, List.Forall₂ (fun payload chunk =>
          payload.length ≤ limit ∧ chunk.maps ≠ [] ∧
          decodeMapsPayload payload = .ok chunk ∧
          decodeGuestMapsPayload payload = .ok chunk.bytes) payloads chunks ∧
        (∀ earlier chunk later, chunks = earlier ++ chunk :: later →
          chunk.first.toNat = (tableOf earlier).length) ∧
        tableOf chunks = maps) ∧
    (∀ maps limit error, encodeMapsPayloads maps limit = .error error →
      maps = [] ∨ maxHostMappings < maps.length ∨ ∃ map ∈ maps,
          ¬ Acceptable (asBytes map.source) (asBytes map.target) ∨
          limit < mapsHeaderLen + entryLen map) ∧
    (∀ first second payload, decodeGuestMapsPayload first = .ok payload →
      decodeGuestMapsPayload second = .ok payload → first = second) := by
  refine ⟨?_, ?_, ?_⟩
  · intro maps limit payloads encoded
    obtain ⟨few, chunks, cut, rfl, rfl⟩ := encodeMapsPayloads_ok encoded
    refine ⟨chunks, ?_, fun earlier chunk later split =>
      (cut earlier chunk later split).continues, rfl⟩
    rw [List.forall₂_map_left_iff, List.forall₂_same]
    intro chunk member
    obtain ⟨earlier, later, split⟩ := List.mem_iff_append.mp member
    have law := cut earlier chunk later split
    have length : chunk.maps.length ≤ (tableOf chunks).length := by
      rw [split, tableOf, List.flatMap_append, List.flatMap_cons]
      simp only [List.length_append]
      omega
    exact ⟨law.bounded, law.nonempty, law.decoded (Nat.le_trans length few)⟩
  · intro maps limit error failed
    unfold encodeMapsPayloads at failed
    split at failed
    · rename_i refused
      exact refused.imp_right .inl
    · cases added : Packing.addAll limit 0 maps .empty with
      | error _ => exact .inr (.inr (Packing.addAll_eq_error added))
      | ok packing =>
        rw [added] at failed
        cases failed
  · intro first second payload one other
    rw [decodeGuestMapsPayload_eq_ok_iff] at one other
    rw [← one.2.2, other.2.2]

end Nvx.Protocol
