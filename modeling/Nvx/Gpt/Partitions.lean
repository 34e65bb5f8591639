import Mathlib.Data.List.Nodup
import Mathlib.Data.List.Perm.Basic
import Nvx.Gpt.Layout

namespace Nvx.Gpt

open Nvx.Data
open Nvx.Activation (Uuid)

/-! What the entries of the partition array must be. -/

theorem length_of_mem_chunksExact
    (member : chunk ∈ chunksExact width bytes) : chunk.length = width := by
  simp only [chunksExact, List.mem_map, List.mem_range] at member
  obtain ⟨index, inside, rfl⟩ := member
  refine length_slice ?_
  have fits := Nat.mul_le_of_le_div _ _ _ inside
  rwa [Nat.succ_mul] at fits

theorem passes_countUsed (wide : ∀ raw ∈ entries, raw.length = entrySize) :
    Passes (· ≤ used + entries.length) (countUsed number used unused entries) := by
  induction entries generalizing number used unused with
  | nil => exact Nat.le_refl used
  | cons raw rest induction =>
    obtain ⟨here, others⟩ := List.forall_mem_cons.mp wide
    simp only [entrySize] at here
    refine (Passes.guidAt (by omega)).bind fun typeGuid _ => ?_
    rw [List.length_cons]
    split
    · exact (induction others).mono fun count bound => by omega
    · cases unused with
      | some unused => exact Fault.noConfusion
      | none => exact (induction others).mono fun count bound => by omega

structure Partition.Of (geometry : Geometry) (header : Header) (partition : Partition) : Prop where
  first : header.firstUsableLba ≤ partition.firstLba
  ordered : partition.firstLba ≤ partition.lastLba
  last : partition.lastLba ≤ header.lastUsableLba
  guid : partition.uniqueGuid ≠ Uuid.nil
  offset : partition.offset = partition.firstLba * geometry.blockSize
  size : partition.size = (partition.lastLba - partition.firstLba + 1) * geometry.blockSize

theorem passes_readEntry (usable : header.lastUsableLba + 1 < wordSize 64)
    (wide : raw.length = entrySize) :
    Passes (fun partition => partition.number = number ∧
        Partition.Of geometry header partition ∧ partition.uniqueGuid ∉ guids)
      (readEntry geometry header guids number raw) := by
  simp only [entrySize] at wide
  refine (Passes.u64At (by omega)).bind fun firstLba _ =>
    (Passes.u64At (by omega)).bind fun lastLba _ =>
    (Passes.refuse _ _).bind fun _ spans =>
    (Passes.guidAt (by omega)).bind fun uniqueGuid _ =>
    (Passes.refuse _ _).bind fun _ named =>
    (Passes.refuse _ _).bind fun _ fresh => ?_
  simp only [not_or, not_lt] at spans
  obtain ⟨first, last, ordered⟩ := spans
  refine (Passes.uncheckedSub ordered).bind ?_
  rintro _ rfl
  refine (Passes.unchecked (by omega)).bind ?_
  rintro _ rfl
  exact (Passes.okOr _ _).bind fun offset located =>
    (Passes.okOr _ _).bind fun size sized =>
    (Passes.guidAt (by omega)).bind fun typeGuid _ =>
    (Passes.u64At (by omega)).bind fun attributes _ =>
    ⟨rfl, {
      first := first
      ordered := ordered
      last := last
      guid := named
      offset := Geometry.bytes_eq_some located
      size := Geometry.bytes_eq_some sized }, fresh⟩

theorem passes_readEntries (usable : header.lastUsableLba + 1 < wordSize 64)
    (wide : ∀ entry ∈ entries, entry.2.length = entrySize) (distinct : guids.Nodup) :
    Passes (fun partitions =>
        partitions.map (·.number) = entries.map Prod.fst ∧
        (∀ partition ∈ partitions, Partition.Of geometry header partition) ∧
        (guids ++ partitions.map (·.uniqueGuid)).Nodup)
      (readEntries geometry header guids entries) := by
  induction entries generalizing guids with
  | nil => exact ⟨rfl, by simp, by simpa using distinct⟩
  | cons entry rest induction =>
    obtain ⟨here, others⟩ := List.forall_mem_cons.mp wide
    refine (passes_readEntry usable here).bind ?_
    rintro partition ⟨number, of, fresh⟩
    have longer : (guids ++ [partition.uniqueGuid]).Nodup := by
      refine List.nodup_append.mpr ⟨distinct, List.nodup_singleton _, ?_⟩
      intro guid known other same
      rw [List.mem_singleton.mp same]
      exact fun equal => fresh (equal ▸ known)
    refine (induction others longer).bind ?_
    rintro partitions ⟨numbers, all, unique⟩
    refine ⟨?_, List.forall_mem_cons.mpr ⟨of, all⟩, ?_⟩
    · rw [List.map_cons, List.map_cons, numbers, number]
    · simpa using unique

theorem passes_checkOverlap (ordered : ∀ partition ∈ partitions,
      partition.firstLba ≤ partition.lastLba) :
    Passes (fun _ => partitions.Pairwise fun first second =>
        first.lastLba < second.firstLba) (checkOverlap partitions) := by
  induction partitions with
  | nil => exact List.Pairwise.nil
  | cons first rest induction =>
    obtain ⟨_, others⟩ := List.forall_mem_cons.mp ordered
    cases rest with
    | nil => exact List.pairwise_singleton _ _
    | cons second rest =>
      refine (Passes.refuse _ _).bind fun _ apart =>
        (induction others).mono fun _ pairwise => ?_
      rw [not_le] at apart
      -- each later partition starts after the second, which is not empty
      refine List.pairwise_cons.mpr ⟨?_, pairwise⟩
      refine List.forall_mem_cons.mpr ⟨apart, fun third later => ?_⟩
      have second := (List.forall_mem_cons.mp others).1
      have next := (List.pairwise_cons.mp pairwise).1 third later
      omega

def Partition.Apart (first second : Partition) : Prop :=
  first.lastLba < second.firstLba ∨ second.lastLba < first.firstLba

structure PartitionsOf (geometry : Geometry) (header : Header)
    (partitions : List Partition) : Prop where
  few : minPartitions ≤ partitions.length
  many : partitions.length ≤ maxPartitions
  numbered : partitions.map (·.number) = List.range' 1 partitions.length
  each : ∀ partition ∈ partitions, Partition.Of geometry header partition
  guids : (header.diskGuid :: partitions.map (·.uniqueGuid)).Nodup
  apart : partitions.Pairwise Partition.Apart

theorem passes_entryPartitions
    (array : List UInt8) (usable : header.lastUsableLba + 1 < wordSize 64) :
    Passes (PartitionsOf geometry header) (entryPartitions geometry header array) := by
  have wide : ∀ raw ∈ chunksExact entrySize array, raw.length = entrySize :=
    fun raw => length_of_mem_chunksExact
  refine (Passes.refuse _ _).bind fun _ _ =>
    (passes_countUsed wide).bind fun used bounded =>
    (Passes.refuse _ _).bind fun _ counted => ?_
  simp only [not_or, not_lt] at counted
  have taken : ((chunksExact entrySize array).take used).length = used :=
    List.length_take_of_le (by omega)
  refine (passes_readEntries usable ?_ (List.nodup_singleton _)).bind ?_
  · intro entry member
    exact wide _ (List.mem_of_mem_take (List.of_mem_zip member).2)
  · rintro partitions ⟨numbers, each, guids⟩
    have numbered : partitions.map (·.number) = List.range' 1 used := by
      have least : min (List.range' 1 255).length
          ((chunksExact entrySize array).take used).length = used := by
        rw [List.length_range', taken]
        exact Nat.min_eq_right counted.2
      rw [numbers, List.zip_eq_zip_take_min, least, List.map_fst_zip (by simp [taken])]
      have whole := @List.range'_append_1 1 used (255 - used)
      rw [show used + (255 - used) = 255 from
        Nat.add_sub_cancel' counted.2] at whole
      rw [← whole, List.take_left' List.length_range']
    have length : partitions.length = used := by
      have same := congrArg List.length numbered
      rwa [List.length_map, List.length_range'] at same
    have sorted := List.mergeSort_perm partitions
      fun first second => decide (first.firstLba ≤ second.firstLba)
    refine (passes_checkOverlap fun partition member =>
      (each partition (sorted.mem_iff.mp member)).ordered).bind ?_
    intro _ pairwise
    exact {
      few := by rw [length]; exact counted.1
      many := by rw [length]; exact counted.2
      numbered := by rw [length]; exact numbered
      each := each
      guids := guids
      apart := (sorted.pairwise_iff fun apart => apart.symm).mp
        (pairwise.imp fun before => Or.inl before) }

end Nvx.Gpt
