import Mathlib.Data.List.TakeWhile
import Nvx.Host.Egress.Cover

namespace Nvx.Host.Egress

open Nvx.Data

/-! The networks that cover an interval. -/

theorem Family.lastAddress_le (family : Family) : family.lastAddress ≤ addressMax := by
  cases family <;> decide

namespace Network

theorem hostMask_eq (short : prefixLen network ≤ network.family.bits) :
    network.hostMask = 2 ^ (network.family.bits - network.prefixLen) - 1 := by
  unfold hostMask Family.lastAddress
  split
  · have none : network.family.bits - network.prefixLen = 0 := by omega
    rw [none, Nat.pow_zero]
  · have split : 2 ^ network.family.bits = 2 ^ network.prefixLen *
        2 ^ (network.family.bits - network.prefixLen) := by
      rw [← Nat.pow_add, Nat.add_sub_cancel' short]
    have divided := Nat.mul_sub_div 0 (2 ^ network.prefixLen)
      (2 ^ (network.family.bits - network.prefixLen)) (by
        rw [← split]
        exact Nat.two_pow_pos _)
    rw [Nat.shiftRight_eq_div_pow, split]
    simpa using divided

theorem clear_mask (address size : Nat) :
    clear address (2 ^ size - 1) = 2 ^ size * (address / 2 ^ size) := by
  unfold clear
  rw [Nat.and_two_pow_sub_one_eq_mod]
  apply Nat.eq_of_testBit_eq
  intro index
  rw [Nat.testBit_xor, Nat.testBit_mod_two_pow, Nat.testBit_two_pow_mul, Nat.testBit_div_two_pow]
  by_cases inside : index < size
  · simp [inside, Nat.not_le_of_lt inside]
  · have outside : size ≤ index := by omega
    simp [inside, outside]

/-- A network holds the addresses that agree with its own outside the host
bits. -/
theorem interval_new {family : Family} {address prefixLen : Nat} (short : prefixLen ≤ family.bits) :
    (new family address prefixLen).interval = (2 ^ (family.bits - prefixLen) *
          (address / 2 ^ (family.bits - prefixLen)),
        2 ^ (family.bits - prefixLen) * (address / 2 ^ (family.bits - prefixLen)) +
            (2 ^ (family.bits - prefixLen) - 1)) := by
  have mask : ∀ address, hostMask ⟨family, address, prefixLen⟩ =
      2 ^ (family.bits - prefixLen) - 1 := fun address => hostMask_eq short
  have small : 2 ^ (family.bits - prefixLen) - 1 < 2 ^ (family.bits - prefixLen) :=
    Nat.sub_lt (Nat.two_pow_pos _) Nat.one_pos
  simp only [interval, new, mask, clear_mask, ← Nat.two_pow_add_eq_or_of_lt small]

end Network

theorem trailingZeros_dvd (value : Nat) : 2 ^ trailingZeros value ∣ value := by
  apply Nat.dvd_of_mod_eq_zero
  apply Nat.eq_of_testBit_eq
  intro index
  rw [Nat.testBit_mod_two_pow, Nat.zero_testBit]
  by_cases inside : index < trailingZeros value
  · have counted := List.prefix_iff_eq_take.mp
      (List.takeWhile_prefix (l := List.range 128) fun bit => !value.testBit bit)
    have short : trailingZeros value ≤ 128 := by
      have length := congrArg List.length counted
      rw [List.length_take, List.length_range] at length
      unfold trailingZeros
      omega
    have member : index ∈ (List.range 128).takeWhile fun bit => !value.testBit bit := by
      rw [counted, List.take_range, List.mem_range]
      exact Nat.lt_min.mpr ⟨inside, by omega⟩
    have clear := List.mem_takeWhile_imp member
    rw [Bool.not_eq_true'] at clear
    rw [clear, Bool.and_false]
  · simp [inside]

theorem sizeBits_spec {family : Family} {first last : Nat} (inside : first ≤ last) :
    Summary.sizeBits family first last ≤ family.bits ∧
      2 ^ Summary.sizeBits family first last ∣ first ∧
      first + 2 ^ Summary.sizeBits family first last ≤ last + 1 := by
  have aligned : Summary.alignment family first ≤ family.bits ∧
      2 ^ Summary.alignment family first ∣ first := by
    unfold Summary.alignment
    split
    · rename_i zero
      rw [zero]
      exact ⟨Nat.le_refl _, Nat.dvd_zero _⟩
    · exact ⟨Nat.min_le_right _ _, Nat.dvd_trans (Nat.pow_dvd_pow 2 (Nat.min_le_left _ _))
          (trailingZeros_dvd first)⟩
  have room : 2 ^ Summary.fitting (last - first) ≤ last - first + 1 := by
    unfold Summary.fitting
    split
    · rename_i count found
      obtain ⟨rfl, _⟩ := checkedAdd_eq_some_iff.mp found
      exact Nat.log2_self_le (Nat.succ_ne_zero _)
    · rename_i whole
      unfold checkedAdd at whole
      split at whole
      · cases whole
      · unfold addressMax at *
        omega
  unfold Summary.sizeBits
  have smaller := Nat.pow_le_pow_right Nat.two_pos
    (Nat.min_le_right (Summary.alignment family first) (Summary.fitting (last - first)))
  exact ⟨Nat.le_trans (Nat.min_le_left _ _) aligned.1,
    Nat.dvd_trans (Nat.pow_dvd_pow 2 (Nat.min_le_left _ _)) aligned.2,
    by omega⟩

namespace Summary

theorem interval_step {family : Family} {first last : Nat} (inside : first ≤ last) :
    (Network.new family first (family.bits - sizeBits family first last)).interval =
      (first, first + (2 ^ sizeBits family first last - 1)) := by
  obtain ⟨short, aligned, _⟩ := @sizeBits_spec family first last inside
  rw [Network.interval_new (Nat.sub_le _ _), Nat.sub_sub_self short, Nat.mul_div_cancel' aligned]

theorem following_spec {family : Family} {first last size point : Nat}
    (small : last ≤ family.lastAddress) (fits : first + 2 ^ size ≤ last + 1) :
    (∃ next ∈ following family first size, next ≤ point) ∧ point ≤ last ↔
      first + 2 ^ size ≤ point ∧ point ≤ last := by
  have range := family.lastAddress_le
  cases found : following family first size with
  | some next =>
    rw [lt_of_following found]
    simp
  | none =>
    have whole : last < first + 2 ^ size := by
      unfold following at found
      split at found
      · rename_i wide
        have large := Nat.pow_le_pow_right Nat.two_pos wide
        unfold addressMax at range
        omega
      · unfold checkedAdd at found
        split at found
        · rw [Option.filter_eq_none_iff] at found
          have last := found _ rfl
          simp only [decide_eq_true_eq, not_not] at last
          have positive := Nat.two_pow_pos size
          omega
        · omega
    simp only [Option.mem_def, reduceCtorEq, false_and, exists_false, false_iff]
    omega

theorem lt_of_step_eq_none (none : step summary = none)
    (starts : summary.next = some first) : summary.last < first := by
  by_contra inside
  have kept : summary.next.filter (· ≤ summary.last) = some first := by
    rw [Option.filter_eq_some_iff]
    exact ⟨starts, by simpa using inside⟩
  rw [step, kept] at none
  cases none

theorem step_eq_some (found : step summary = some (network, later)) :
    ∃ first, summary.next = some first ∧ first ≤ summary.last ∧ Network.new summary.family first
        (summary.family.bits - sizeBits summary.family first summary.last) = network ∧
      ⟨summary.family, following summary.family first
        (sizeBits summary.family first summary.last), summary.last⟩ = later := by
  unfold step at found
  split at found
  · cases found
  · rename_i first filtered
    obtain ⟨here, inside⟩ := Option.filter_eq_some_iff.mp filtered
    obtain ⟨network, later⟩ := Prod.mk.inj (Option.some.inj found)
    exact ⟨first, here, by simpa using inside, network, later⟩

theorem collect_spec (summary : Summary) (small : summary.last ≤ summary.family.lastAddress) :
    Spaced 0 (summary.collect.map Network.interval) ∧
      (∀ point, Covers (summary.collect.map Network.interval) point ↔
        (∃ first ∈ summary.next, first ≤ point) ∧ point ≤ summary.last) ∧
      ∀ network ∈ summary.collect, network.family = summary.family := by
  induction summary using collect.induct with
  | case1 summary none =>
    rw [collect_eq, none]
    refine ⟨spaced_nil 0, fun point => ?_, by simp⟩
    simp only [List.map_nil, covers_nil, false_iff]
    rintro ⟨⟨first, starts, before⟩, within⟩
    have after := lt_of_step_eq_none none starts
    omega
  | case2 summary network later found induction =>
    rw [collect_eq, found]
    obtain ⟨first, starts, inside, rfl, rfl⟩ := step_eq_some found
    obtain ⟨spaced, covers, families⟩ := induction small
    obtain ⟨_, _, fits⟩ := @sizeBits_spec summary.family _ _ inside
    have positive := Nat.two_pow_pos (sizeBits summary.family first summary.last)
    have rest : ∀ point, _ ↔ _ := fun point =>
      (covers point).trans (following_spec small fits)
    simp only [List.map_cons, interval_step inside]
    refine ⟨spaced_cons.mpr ⟨by simp, fun interval member => ?_, spaced⟩,
      fun point => ?_, List.forall_mem_cons.mpr ⟨rfl, families⟩⟩
    · have start := (rest interval.1).mp
        ⟨interval, member, Nat.le_refl _, spaced.valid interval member⟩
      simp only
      omega
    · rw [covers_cons, rest]
      simp only [starts, Option.mem_some_iff, exists_eq_left']
      omega

end Summary

theorem networksOf_spec (spaced : Spaced 0 intervals)
    (small : ∀ interval ∈ intervals, interval.2 ≤ family.lastAddress) :
    Spaced 0 ((networksOf family intervals).map Network.interval) ∧
      (∀ point, Covers ((networksOf family intervals).map Network.interval)
        point ↔ Covers intervals point) ∧
      ∀ network ∈ networksOf family intervals, network.family = family := by
  induction intervals with
  | nil => exact ⟨spaced_nil 0, fun point => Iff.rfl, by simp [networksOf]⟩
  | cons interval intervals induction =>
    obtain ⟨_, before, rest⟩ := spaced_cons.mp spaced
    obtain ⟨here, others⟩ := List.forall_mem_cons.mp small
    obtain ⟨firstSpaced, firstCovers, firstFamily⟩ :=
      Summary.collect_spec ⟨family, some interval.1, interval.2⟩ here
    obtain ⟨restSpaced, restCovers, restFamily⟩ := induction rest others
    have first : ∀ point, Covers ((summarize family interval).map Network.interval) point ↔
          interval.1 ≤ point ∧ point ≤ interval.2 := fun point => by
      simpa [summarize] using firstCovers point
    have split : networksOf family (interval :: intervals) =
        summarize family interval ++ networksOf family intervals :=
      List.flatMap_cons
    rw [split, List.map_append]
    refine ⟨spaced_append firstSpaced restSpaced ?_, fun point => ?_,
      List.forall_mem_append.mpr ⟨firstFamily, restFamily⟩⟩
    · intro network member other alsoMember
      have ends := (first network.2).mp ⟨network, member,
        firstSpaced.valid network member, Nat.le_refl _⟩
      have starts := (restCovers other.1).mp ⟨other, alsoMember,
        Nat.le_refl _, restSpaced.valid other alsoMember⟩
      have after := lt_of_covers before starts
      omega
    · rw [covers_append, first, restCovers, covers_cons]

theorem nodup_of_spaced {networks : List Network}
    (spaced : Spaced 0 (networks.map Network.interval)) : networks.Nodup :=
  List.Nodup.of_map Network.interval spaced.nodup

end Nvx.Host.Egress
