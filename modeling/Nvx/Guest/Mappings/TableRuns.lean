import Mathlib.Data.List.Forall2
import Nvx.Guest.Mappings.Table
import Nvx.Protocol.MapsRoundTrip

namespace Nvx.Guest.Mappings

open Nvx.Data
open Nvx.Protocol (HostMap GuestHostMap MapsPayload GuestMapsPayload MapOf
  Chunk EntryFits tableOf maxHostMappings slash decodeGuestMapsPayload
  encodeMapsPayloads)

/-! What the table does with any parts and any outcomes. -/

structure Maps (map : GuestHostMap) (mapping : Mapping) : Prop where
  source : mapping.source = map.source
  target : slash :: mapping.target = map.target
  access : mapping.access = if map.readOnly then .readOnly else .readWrite

theorem maps_of_mapping (found : mapping entry map = .ok made) : Maps map made := by
  rw [mapping, ite_error_eq_ok_iff] at found
  obtain ⟨_, found⟩ := found
  dsimp only at found
  cases new : Mapping.new map.source map.target
      (if map.readOnly then .readOnly else .readWrite) with
  | error error =>
    rw [new] at found
    cases found
  | ok value =>
    rw [new] at found
    cases found
    obtain ⟨source, target, access, _⟩ := Mapping.new_eq_ok new
    exact ⟨source, target, access⟩

theorem maps_of_mappings (found : mappings entry maps = .ok made) :
    List.Forall₂ Maps maps made := by
  induction maps generalizing entry made with
  | nil =>
    cases found
    exact .nil
  | cons map maps induction =>
    simp only [mappings, bind_eq_ok_iff, Except.ok.injEq] at found
    obtain ⟨first, isFirst, others, areOthers, rfl⟩ := found
    exact .cons (maps_of_mapping isFirst) (induction areOthers)

/-- The mapper takes every entry that the decoder accepts, except the export's
root. -/
theorem exists_mapping_of_fits {map : GuestHostMap} (fits : EntryFits id map)
    (named : map.source ≠ []) (entry : UInt32) :
    ∃ made, mapping entry map = .ok made := by
  obtain ⟨paths, source, head, components⟩ := fits
  simp only [id_eq, List.forall_mem_cons] at paths source head components
  obtain ⟨⟨sourceShort, sourceText⟩, ⟨targetShort, targetText⟩, _⟩ := paths
  have normal := source.resolve_left named
  obtain ⟨rest, isTarget⟩ : ∃ rest, map.target = slash :: rest := by
    cases target : map.target with
    | nil => simp [target] at head
    | cons byte rest => exact ⟨rest, by simp_all⟩
  rw [isTarget] at targetShort targetText components
  have sourceBelow : map.source = [] ∨ (belowItsRoot map.source false).isSome := by
    right
    simp only [belowItsRoot, Bool.false_eq_true, if_false, Option.bind_eq_bind, Option.bind_some]
    rw [if_pos ⟨sourceShort, sourceText, normal⟩]
    rfl
  have targetBelow : belowItsRoot map.target true = some rest := by
    rw [belowItsRoot_absolute_eq_some_iff, isTarget]
    exact ⟨rfl, targetShort, targetText, components⟩
  rw [mapping, if_neg named]
  dsimp only
  cases new : Mapping.new map.source map.target
      (if map.readOnly then .readOnly else .readWrite) with
  | ok made => exact ⟨made, rfl⟩
  | error error =>
    unfold Mapping.new at new
    rw [dif_pos sourceBelow] at new
    split at new
    · cases new
    · rename_i missing
      rw [targetBelow] at missing
      cases missing

theorem exists_mappings_of_fits
    (fits : ∀ map ∈ maps, EntryFits id map ∧ map.source ≠ []) (entry : UInt32) :
    ∃ made, mappings entry maps = .ok made := by
  induction maps generalizing entry with
  | nil => exact ⟨[], rfl⟩
  | cons map maps induction =>
    obtain ⟨⟨first, named⟩, others⟩ := List.forall_mem_cons.mp fits
    obtain ⟨made, isFirst⟩ := exists_mapping_of_fits first named entry
    obtain ⟨rest, areOthers⟩ := induction others (entry + 1)
    refine ⟨made :: rest, ?_⟩
    simp only [mappings, bind_eq_ok_iff, Except.ok.injEq]
    exact ⟨made, isFirst, rest, areOthers, rfl⟩

namespace MappingTable

variable {table start : MappingTable} {part : Part Error}
  {mappings : List Mapping} {trace : List (Part Error × Return Error)}

structure Sound (table : MappingTable) : Prop where
  few : table.expected.toNat ≤ maxHostMappings
  within : table.applied.toNat ≤ table.expected.toNat

structure Continues (table : MappingTable) (part : List UInt8)
    (payload : GuestMapsPayload) : Prop where
  decodes : decodeGuestMapsPayload part = .ok payload
  next : payload.first = table.applied
  fits : table.applied.toNat + payload.maps.length ≤ table.expected.toNat

theorem toNat_add_ofNat (sound : table.Sound) (few : count ≤ maxHostMappings) :
    (table.applied + UInt32.ofNat count).toNat = table.applied.toNat + count := by
  obtain ⟨expected, within⟩ := sound
  simp only [maxHostMappings] at expected few
  have word : count < UInt32.size := Nat.lt_of_le_of_lt few (by decide)
  rw [UInt32.toNat_add, UInt32.toNat_ofNat_of_lt' word]
  omega

theorem decoded_eq_ok_iff {part : List UInt8} :
    decoded part = .ok payload ↔ decodeGuestMapsPayload part = .ok payload := by
  unfold decoded
  split <;> simp_all

theorem continues_of_check {part : List UInt8} (sound : table.Sound)
    (checked : table.check part = .ok mappings) :
    table.latched = false ∧ ∃ payload, table.Continues part payload ∧
      List.Forall₂ Maps payload.maps mappings := by
  simp only [check, ite_error_eq_ok_iff, bind_eq_ok_iff, decoded_eq_ok_iff,
    not_not, Bool.not_eq_true] at checked
  obtain ⟨open', payload, decodes, _, next, fits, made⟩ := checked
  have few := (Protocol.decodeGuestMapsPayload_eq_ok_iff.mp decodes).1
  refine ⟨open', payload, ⟨decodes, next, ?_⟩, maps_of_mappings made⟩
  rw [← toNat_add_ofNat sound few]
  exact UInt32.le_iff_toNat_le.mp (UInt32.not_lt.mp fits)

theorem exists_check_eq_ok {part : List UInt8} (sound : table.Sound) (free : table.latched = false)
    (continues : table.Continues part payload) (nonempty : payload.maps ≠ [])
    (named : ∀ map ∈ payload.maps, map.source ≠ []) :
    ∃ mappings, table.check part = .ok mappings := by
  have decodes := continues.decodes
  obtain ⟨few, fits, _⟩ :=
    Protocol.decodeGuestMapsPayload_eq_ok_iff.mp decodes
  obtain ⟨made, found⟩ := exists_mappings_of_fits
    (fun map member => ⟨fits map member, named map member⟩) table.applied
  refine ⟨made, ?_⟩
  simp only [check, ite_error_eq_ok_iff, bind_eq_ok_iff, decoded_eq_ok_iff,
    not_not, Bool.not_eq_true]
  refine ⟨free, payload, decodes, nonempty, continues.next, ?_, found⟩
  rw [UInt32.not_lt, UInt32.le_iff_toNat_le, toNat_add_ofNat sound few]
  exact continues.fits

theorem step_of_error (checked : table.check part.bytes = .error refusal) :
    table.step part = (table, ⟨[], .error (.refused table.applied refusal)⟩) := by
  simp only [step, apply, checked]
  rfl

theorem step_of_succeeded (checked : table.check part.bytes = .ok mappings)
    (succeeded : part.outcome = .ok ()) :
    table.step part = (table.applySucceeded mappings, ⟨[mappings], .ok ()⟩) := by
  simp only [step, apply, checked, Dialogue.run_bind, handOver, Dialogue.run, succeeded]
  rfl

theorem step_of_failed (checked : table.check part.bytes = .ok mappings)
    (failed : part.outcome = .error (index, error)) :
    table.step part = (table.applyFailed mappings index,
      ⟨[mappings], .error (.failed (table.applyFailed mappings index).applied error)⟩) := by
  simp only [step, apply, checked, Dialogue.run_bind, handOver, Dialogue.run, failed]
  rfl

def successes (outcome : Except (Nat × Error) Unit) (count : Nat) : Nat :=
  match outcome with
  | .ok () => count
  | .error (index, _) => min index count

theorem successes_le (outcome : Except (Nat × Error) Unit) (count : Nat) :
    successes outcome count ≤ count := by
  unfold successes
  split
  · exact Nat.le_refl count
  · exact Nat.min_le_right _ count

theorem step_of_ok (checked : table.check part.bytes = .ok mappings) :
    (table.step part).1.expected = table.expected ∧ (table.step part).1.applied = table.applied +
        UInt32.ofNat (successes part.outcome mappings.length) ∧
      (table.step part).2.handed = [mappings] := by
  rcases outcome : part.outcome with ⟨index, error⟩ | ⟨⟩
  · rw [step_of_failed checked outcome]
    exact ⟨rfl, rfl, rfl⟩
  · rw [step_of_succeeded checked outcome]
    exact ⟨rfl, rfl, rfl⟩

theorem maps_of_handed (sound : table.Sound) (handed : mappings ∈ (table.step part).2.handed) :
    ∃ payload, decodeGuestMapsPayload part.bytes = .ok payload ∧
      List.Forall₂ Maps payload.maps mappings := by
  cases checked : table.check part.bytes with
  | error refusal =>
    rw [step_of_error checked] at handed
    exact absurd handed List.not_mem_nil
  | ok made =>
    obtain ⟨_, payload, continues, maps⟩ := continues_of_check sound checked
    rw [(step_of_ok checked).2.2] at handed
    rw [List.mem_singleton.mp handed]
    exact ⟨payload, continues.decodes, maps⟩

theorem check_of_refused (refused : (table.step part).2.result = .error (.refused entry refusal)) :
    table.check part.bytes = .error refusal := by
  cases checked : table.check part.bytes with
  | error reason =>
    rw [step_of_error checked] at refused
    cases refused
    rfl
  | ok mappings =>
    rcases outcome : part.outcome with ⟨index, error⟩ | ⟨⟩
    · rw [step_of_failed checked outcome] at refused
      cases refused
    · rw [step_of_succeeded checked outcome] at refused
      cases refused

/-- The entries that a step applied, each with its index in the table as the
part numbers it. -/
def entries (event : Part Error × Return Error) : List (Nat × Mapping) :=
  match decodeGuestMapsPayload event.1.bytes with
  | .ok payload => event.2.handed.flatMap fun mappings =>
    ((List.range' payload.first.toNat mappings.length).zip mappings).take
      (successes event.1.outcome mappings.length)
  | .error _ => []

theorem entries_of_error (checked : table.check part.bytes = .error refusal) :
    entries (part, (table.step part).2) = [] := by
  rw [step_of_error checked, entries]
  split <;> rfl

theorem map_fst_entries (sound : table.Sound) (checked : table.check part.bytes = .ok mappings) :
    (entries (part, (table.step part).2)).map Prod.fst =
      List.range' table.applied.toNat (successes part.outcome mappings.length) := by
  obtain ⟨_, payload, continues, _⟩ := continues_of_check sound checked
  have bound := successes_le part.outcome mappings.length
  simp only [entries, continues.decodes, (step_of_ok checked).2.2,
    List.flatMap_cons, List.flatMap_nil, List.append_nil, List.map_take,
    continues.next]
  rw [List.map_fst_zip (by rw [List.length_range'])]
  have whole := @List.range'_append_1 table.applied.toNat (successes part.outcome mappings.length)
    (mappings.length - successes part.outcome mappings.length)
  rw [Nat.add_sub_cancel' bound] at whole
  rw [← whole, List.take_left' List.length_range']

structure Follows (start : MappingTable) (trace : List (Part Error × Return Error))
    (table : MappingTable) : Prop where
  expected : table.expected = start.expected
  sound : table.Sound
  entries : (trace.flatMap entries).map Prod.fst = List.range table.applied.toNat
  latched : (∃ event ∈ trace, ∃ entry error,
    event.2.result = .error (.failed entry error)) → table.latched = true

theorem Follows.step (follows : Follows start trace table) (part : Part Error) :
    Follows start (trace ++ [(part, (table.step part).2)]) (table.step part).1 := by
  obtain ⟨expected, sound, entries, latched⟩ := follows
  have seen : (∃ event ∈ trace ++ [(part, (table.step part).2)], ∃ entry error,
      event.2.result = .error (.failed entry error)) →
      table.latched = true ∨ ∃ entry error,
        (table.step part).2.result = .error (.failed entry error) := by
    rintro ⟨event, member, failed⟩
    rcases List.mem_append.mp member with before | last
    · exact .inl (latched ⟨event, before, failed⟩)
    · rw [List.mem_singleton.mp last] at failed
      exact .inr failed
  cases checked : table.check part.bytes with
  | error refusal =>
    have same := step_of_error checked
    refine ⟨by rw [same]; exact expected, by rw [same]; exact sound, ?_, ?_⟩
    · rw [List.flatMap_append, List.flatMap_singleton, entries_of_error checked,
        List.append_nil, same]
      exact entries
    · intro failed
      rw [same]
      rcases seen failed with earlier | ⟨entry, error, now⟩
      · exact earlier
      · rw [same] at now
        cases now
  | ok mappings =>
    obtain ⟨free, payload, continues, maps⟩ := continues_of_check sound checked
    obtain ⟨sameExpected, applied, handed⟩ := step_of_ok checked
    have bound := successes_le part.outcome mappings.length
    have length := maps.length_eq
    have fits := continues.fits
    have few := sound.few
    have sum := toNat_add_ofNat sound (show
      successes part.outcome mappings.length ≤ maxHostMappings by omega)
    refine ⟨sameExpected.trans expected, ⟨?_, ?_⟩, ?_, ?_⟩
    · rw [sameExpected]
      exact few
    · rw [sameExpected, applied, sum]
      omega
    · rw [List.flatMap_append, List.map_append, entries, List.flatMap_singleton,
        map_fst_entries sound checked, applied, sum, List.range_eq_range',
        List.range_eq_range', ← List.range'_append_1, Nat.zero_add]
    · intro failed
      rcases seen failed with earlier | ⟨entry, error, now⟩
      · rw [free] at earlier
        cases earlier
      · rcases outcome : part.outcome with ⟨index, error⟩ | ⟨⟩
        · rw [step_of_failed checked outcome]
          rfl
        · rw [step_of_succeeded checked outcome] at now
          cases now

theorem Follows.run (sound : start.Sound) (fresh : start.applied = 0) (parts : List (Part Error)) :
    Follows start ((machine Error).trace start parts) ((machine Error).after start parts) := by
  refine (machine Error).invariant (Follows start) ?_ ?_ parts
  · refine ⟨rfl, sound, ?_, ?_⟩
    · rw [fresh]
      rfl
    · rintro ⟨_, member, _⟩
      exact absurd member List.not_mem_nil
  · intro parts part follows
    exact follows.step part

theorem check_eq_error_of_latched (latched : table.latched = true) (part : List UInt8) :
    table.check part = .error .latched := by
  rw [check, if_pos latched]

theorem exists_check_eq_error (sound : table.Sound) (part : List UInt8)
    (broken : ¬ ∃ payload, table.Continues part payload) :
    ∃ refusal, table.check part = .error refusal := by
  cases checked : table.check part with
  | error refusal => exact ⟨refusal, rfl⟩
  | ok mappings =>
    obtain ⟨_, payload, continues, _⟩ := continues_of_check sound checked
    exact absurd ⟨payload, continues⟩ broken

def handed (trace : List (Part Error × Return Error)) : List Mapping :=
  trace.flatMap fun event => event.2.handed.flatten

def succeeds (Error : Type) (part : List UInt8) : Part Error :=
  ⟨part, .ok ()⟩

structure Received (start : MappingTable) (maps : List GuestHostMap)
    (trace : List (Part Error × Return Error)) (table : MappingTable) : Prop where
  sound : table.Sound
  expected : table.expected = start.expected
  free : table.latched = false
  applied : table.applied.toNat = maps.length
  succeeded : ∀ event ∈ trace, event.2.result = .ok ()
  handed : List.Forall₂ Maps maps (handed trace)

theorem continues_of_chunk {earlier : List MapsPayload}
    (received : Received start ((tableOf earlier).map MapOf.bytes) trace table)
    (next : Chunk limit earlier chunk)
    (fits : (tableOf (earlier ++ [chunk])).length ≤ start.expected.toNat) :
    table.Continues (chunk.layout asBytes) chunk.bytes := by
  have applied := received.applied
  have few := received.sound.few
  rw [Protocol.tableOf_concat, List.length_append] at fits
  rw [List.length_map] at applied
  rw [received.expected] at few
  refine ⟨(next.decoded (by omega)).2,
    UInt32.toNat.inj (next.continues.trans applied.symm), ?_⟩
  rw [Protocol.PayloadOf.bytes, List.length_map, applied, received.expected]
  exact fits

theorem Received.concat {earlier : List MapsPayload}
    (received : Received start ((tableOf earlier).map MapOf.bytes) trace table)
    (next : Chunk limit earlier chunk) (named : ∀ map ∈ chunk.maps, asBytes map.source ≠ [])
    (fits : (tableOf (earlier ++ [chunk])).length ≤ start.expected.toNat) :
    Received start ((tableOf (earlier ++ [chunk])).map MapOf.bytes)
      (trace ++ [(succeeds Error (chunk.layout asBytes),
        (table.step (succeeds Error (chunk.layout asBytes))).2)])
      (table.step (succeeds Error (chunk.layout asBytes))).1 := by
  have continues := continues_of_chunk received next fits
  obtain ⟨sound, expected, free, applied, succeeded, maps⟩ := received
  obtain ⟨mappings, checked⟩ := exists_check_eq_ok sound free continues
    (mt List.map_eq_nil_iff.mp next.nonempty) (List.forall_mem_map.mpr named)
  obtain ⟨_, payload, again, isMapped⟩ := continues_of_check sound checked
  obtain rfl : payload = chunk.bytes :=
    Except.ok.inj (again.decodes.symm.trans continues.decodes)
  have length : mappings.length = chunk.maps.length := by
    rw [← isMapped.length_eq, Protocol.PayloadOf.bytes, List.length_map]
  have bound := continues.fits
  have few := sound.few
  rw [Protocol.PayloadOf.bytes, List.length_map] at bound
  have sum := toNat_add_ofNat sound (show mappings.length ≤ maxHostMappings by
    omega)
  have stepped : table.step (succeeds Error (chunk.layout asBytes)) =
      (table.applySucceeded mappings, ⟨[mappings], .ok ()⟩) :=
    step_of_succeeded checked rfl
  have applied' : (table.applySucceeded mappings).applied.toNat =
      table.applied.toNat + chunk.maps.length := length ▸ sum
  rw [stepped, Protocol.tableOf_concat, List.map_append]
  refine ⟨⟨few, ?_⟩, expected, free, ?_, ?_, ?_⟩
  · rw [applied']
    exact bound
  · rw [applied', applied, List.length_append, List.length_map, List.length_map]
  · rw [List.forall_mem_append]
    exact ⟨succeeded, List.forall_mem_singleton.mpr rfl⟩
  · rw [MappingTable.handed, List.flatMap_append]
    refine List.rel_append maps ?_
    simp only [List.flatMap_cons, List.flatMap_nil, List.flatten_cons,
      List.flatten_nil, List.append_nil]
    exact isMapped

theorem Received.chunks {chunks : List MapsPayload} (sound : start.Sound)
    (free : start.latched = false)
    (fresh : start.applied = 0) (cut : Throughout (Chunk limit) chunks)
    (named : ∀ map ∈ tableOf chunks, asBytes map.source ≠ [])
    (fits : (tableOf chunks).length ≤ start.expected.toNat) :
    Received start ((tableOf chunks).map MapOf.bytes) ((machine Error).trace start
        (chunks.map fun chunk => succeeds Error (chunk.layout asBytes)))
      ((machine Error).after start
        (chunks.map fun chunk => succeeds Error (chunk.layout asBytes))) := by
  induction chunks using List.reverseRecOn with
  | nil =>
    refine ⟨sound, rfl, free, ?_, List.forall_mem_nil _, .nil⟩
    rw [List.map_nil, Machine.after_nil, fresh]
    rfl
  | append_singleton chunks chunk induction =>
    obtain ⟨earlier, next⟩ := throughout_concat.mp cut
    have split := Protocol.tableOf_concat chunks chunk
    have shorter : (tableOf chunks).length ≤ start.expected.toNat := by
      rw [split, List.length_append] at fits
      omega
    rw [split, List.forall_mem_append] at named
    rw [List.map_append, List.map_singleton, Machine.trace_concat, Machine.after_concat]
    exact (induction earlier named.1 shorter).concat next named.2 fits

/-- A table that expects as many mappings as were encoded applies them all. -/
theorem Received.encoded {maps : List HostMap} {payloads : List (List UInt8)}
    {limit : Nat} (encoded : encodeMapsPayloads maps limit = .ok payloads)
    (named : ∀ map ∈ maps, asBytes map.source ≠ []) :
    ∃ start, MappingTable.new (UInt32.ofNat maps.length) = some start ∧
      start.expected.toNat = maps.length ∧
      Received start (maps.map MapOf.bytes)
        ((machine Error).trace start (payloads.map (succeeds Error)))
        ((machine Error).after start (payloads.map (succeeds Error))) := by
  obtain ⟨few, chunks, cut, rfl, rfl⟩ := Protocol.encodeMapsPayloads_ok encoded
  have expected : (UInt32.ofNat (tableOf chunks).length).toNat = (tableOf chunks).length :=
    UInt32.toNat_ofNat_of_lt' (Nat.lt_of_le_of_lt few (by decide))
  refine ⟨⟨UInt32.ofNat (tableOf chunks).length, 0, false⟩, ?_, expected, ?_⟩
  · rw [MappingTable.new, if_pos (by rwa [expected])]
  · rw [List.map_map]
    refine Received.chunks ⟨?_, Nat.zero_le _⟩ rfl rfl cut named ?_
    · rwa [expected]
    · rw [expected]

theorem Received.isComplete (received : Received start maps trace table)
    (all : start.expected.toNat = maps.length) : table.isComplete = true := by
  have applied : table.applied = table.expected := by
    rw [← UInt32.toNat_inj, received.applied, received.expected, all]
  simp [MappingTable.isComplete, received.free, applied]

end MappingTable

end Nvx.Guest.Mappings
