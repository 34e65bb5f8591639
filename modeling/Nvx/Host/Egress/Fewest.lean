import Nvx.Host.Egress.Summary

namespace Nvx.Host.Egress

open Nvx.Data

/-! The arithmetic of a summary, and that no other networks of an interval are
fewer.  In `exactStep` an operation that overflows has no result. -/

def exactSub (value other : Nat) : Option Nat :=
  if other ≤ value then some (value - other) else none

def exactShr (value bits : Nat) : Option Nat :=
  if bits < 128 then some (value >>> bits) else none

def leadingZeros (count : Nat) : Nat :=
  if count = 0 then 128 else 127 - Nat.log2 count

theorem exactSub_of_le (fits : other ≤ value) : exactSub value other = some (value - other) :=
  if_pos fits

theorem Family.bits_le (family : Family) : family.bits ≤ 128 := by
  cases family <;> decide

namespace Network

def exactMask (network : Network) : Option Nat :=
  if network.family.bits ≤ network.prefixLen then some 0
  else exactShr network.family.lastAddress network.prefixLen

def exactNew (family : Family) (address prefixLen : Nat) : Option Network := do
  let network : Network := ⟨family, address, prefixLen % 256⟩
  let mask ← network.exactMask
  pure { network with address := clear address mask }

theorem exactNew_eq {family : Family} {prefixLen : Nat} (short : prefixLen ≤ family.bits)
    (address : Nat) : exactNew family address prefixLen = some (new family address prefixLen) := by
  have narrow := family.bits_le
  have mask : exactMask ⟨family, address, prefixLen⟩ =
      some (hostMask ⟨family, address, prefixLen⟩) := by
    unfold exactMask hostMask exactShr
    split
    · rfl
    · exact if_pos (by simp only at *; omega)
  unfold exactNew
  simp only [Nat.mod_eq_of_lt (by omega : prefixLen < 256), mask]
  rfl

/-- The host bits are clear. -/
def Clear (network : Network) : Prop :=
  network.prefixLen ≤ network.family.bits ∧
    2 ^ (network.family.bits - network.prefixLen) ∣ network.address

theorem Clear.interval_eq (isClear : Clear network) : network.interval =
    (network.address, network.address + (2 ^ (network.family.bits - network.prefixLen) - 1)) := by
  obtain ⟨short, multiple, same⟩ := isClear
  have small := Nat.sub_lt (Nat.two_pow_pos (network.family.bits - network.prefixLen)) Nat.one_pos
  rw [interval, hostMask_eq short, same, Nat.two_pow_add_eq_or_of_lt small]

end Network

theorem le_trailingZeros (aligned : 2 ^ size ∣ value) (short : size ≤ 128) :
    size ≤ trailingZeros value := by
  have clear : ∀ bit ∈ List.range size, (!value.testBit bit) = true := by
    intro bit inside
    obtain ⟨multiple, rfl⟩ := aligned
    rw [Nat.testBit_two_pow_mul, decide_eq_false (by simpa using inside)]
    rfl
  unfold trailingZeros
  rw [← Nat.add_sub_cancel' short, List.range_add, List.takeWhile_append_of_pos clear]
  simp

theorem add_le_of_aligned {size first second : Nat} (aligned : size ∣ first)
    (alsoAligned : size ∣ second) (before : first < second) : first + size ≤ second := by
  have apart := Nat.le_of_dvd (Nat.sub_pos_of_lt before) (Nat.dvd_sub alsoAligned aligned)
  omega

theorem le_sizeBits (short : size ≤ family.bits)
    (aligned : 2 ^ size ∣ first) (fits : first + 2 ^ size ≤ last + 1) :
    size ≤ Summary.sizeBits family first last := by
  have narrow := family.bits_le
  refine le_min ?_ ?_
  · unfold Summary.alignment
    split
    · exact short
    · exact le_min (le_trailingZeros aligned (by omega)) short
  · unfold Summary.fitting
    split
    case h_1 count found =>
      obtain ⟨rfl, _⟩ := checkedAdd_eq_some_iff.mp found
      exact (Nat.le_log2 (Nat.succ_ne_zero _)).mpr (by omega)
    case h_2 => omega

namespace Summary

def exactFitting (span : Nat) : Option Nat :=
  match checkedAdd span 1 with
  | some count => exactSub 127 (leadingZeros count)
  | none => some 128

def exactFollowing (family : Family) (first size : Nat) : Option (Option Nat) :=
  match if 128 ≤ size then none else checkedAdd first (2 ^ size) with
  | none => some none
  | some next => do
    let previous ← exactSub next 1
    pure (if previous ≠ family.lastAddress then some next else none)

def exactStep (summary : Summary) : Option (Option (Network × Summary)) :=
  match summary.next.filter (· ≤ summary.last) with
  | none => some none
  | some first => do
    let span ← exactSub summary.last first
    let fitting ← exactFitting span
    let size := min (alignment summary.family first) fitting
    let prefixLen ← exactSub summary.family.bits size
    let network ← Network.exactNew summary.family first prefixLen
    let next ← exactFollowing summary.family first size
    pure (some (network, { summary with next }))

theorem exactFitting_eq (span : Nat) : exactFitting span = some (fitting span) := by
  unfold exactFitting fitting
  cases found : checkedAdd span 1 with
  | none => rfl
  | some count =>
    obtain ⟨rfl, small⟩ := checkedAdd_eq_some_iff.mp found
    have narrow : Nat.log2 (span + 1) < 128 := by
      rw [Nat.log2_lt (Nat.succ_ne_zero _)]
      exact Nat.lt_of_le_of_lt small (by decide)
    simp only [leadingZeros, if_neg (Nat.succ_ne_zero span), highestBit]
    rw [exactSub_of_le (by omega), Nat.sub_sub_self (by omega)]

theorem exactFollowing_eq (family : Family) (first size : Nat) :
    exactFollowing family first size = some (following family first size) := by
  unfold exactFollowing following
  split
  case h_1 found =>
    split at found
    case isTrue wide => rw [if_pos wide]
    case isFalse narrow => rw [if_neg narrow, found]; rfl
  case h_2 next found =>
    split at found
    case isTrue wide => cases found
    case isFalse narrow =>
      have isNext := (checkedAdd_eq_some_iff.mp found).1
      have positive := Nat.two_pow_pos size
      rw [if_neg narrow, found, exactSub_of_le (by omega), Option.filter_some]
      simp

theorem exactStep_eq (summary : Summary) : summary.exactStep = some summary.step := by
  unfold exactStep step
  cases found : summary.next.filter (· ≤ summary.last) with
  | none => rfl
  | some first =>
    have inside : first ≤ summary.last := by
      simpa using (Option.filter_eq_some_iff.mp found).2
    have short := (@sizeBits_spec summary.family _ _ inside).1
    unfold sizeBits at *
    simp only [exactSub_of_le inside, exactFitting_eq, exactSub_of_le short,
      Network.exactNew_eq (Nat.sub_le _ _), exactFollowing_eq, Option.bind_eq_bind,
      Option.bind_some]
    rfl

/-- What the iterator yields until it ends, with no overflow on the way. -/
inductive Yields : Summary → List Network → Prop
  | done {summary : Summary} (ends : summary.exactStep = some none) : Yields summary []
  | more {summary later : Summary} {network : Network} {networks : List Network}
      (found : summary.exactStep = some (some (network, later))) (rest : Yields later networks) :
      Yields summary (network :: networks)

theorem yields_collect (summary : Summary) : Yields summary summary.collect := by
  induction summary using collect.induct with
  | case1 summary none =>
    rw [collect_eq, none]
    exact .done (none ▸ exactStep_eq summary)
  | case2 summary network later found induction =>
    rw [collect_eq, found]
    exact .more (found ▸ exactStep_eq summary) induction

theorem clear_collect (summary : Summary) : ∀ network ∈ summary.collect, network.Clear := by
  induction summary using collect.induct with
  | case1 summary none => simp [collect_eq, none]
  | case2 summary network later found induction =>
    rw [collect_eq, found]
    obtain ⟨first, starts, inside, rfl, rfl⟩ := step_eq_some found
    obtain ⟨short, aligned, _⟩ := @sizeBits_spec summary.family _ _ inside
    refine List.forall_mem_cons.mpr ⟨⟨Nat.sub_le _ _, ?_⟩, induction⟩
    have address := congrArg Prod.fst (@interval_step summary.family _ _ inside)
    rw [show Network.address _ = first from address]
    exact (Nat.sub_sub_self short).symm ▸ aligned

/-- A block of the addresses that are left lies within one of the networks. -/
theorem holds_block (summary : Summary) (small : summary.last ≤ summary.family.lastAddress)
    (short : size ≤ summary.family.bits) (aligned : 2 ^ size ∣ start)
    (after : ∃ first ∈ summary.next, first ≤ start) (before : start + 2 ^ size ≤ summary.last + 1) :
    ∃ network ∈ summary.collect, network.interval.1 ≤ start ∧
      start + (2 ^ size - 1) ≤ network.interval.2 := by
  have positive := Nat.two_pow_pos size
  induction summary using collect.induct with
  | case1 summary none =>
    obtain ⟨first, starts, _⟩ := after
    have ended := lt_of_step_eq_none none starts
    omega
  | case2 summary network later found induction =>
    rw [collect_eq, found]
    obtain ⟨first, starts, inside, rfl, rfl⟩ := step_eq_some found
    obtain ⟨_, multiple, fits⟩ := @sizeBits_spec summary.family _ _ inside
    obtain ⟨_, isFirst, le⟩ := after
    obtain rfl : first = _ := Option.some.inj (starts.symm.trans isFirst)
    by_cases here : start < first + 2 ^ sizeBits summary.family first summary.last
    case neg =>
      obtain ⟨next, _⟩ := (following_spec small fits).mpr ⟨not_lt.mp here, by omega⟩
      obtain ⟨network, member, holds⟩ := induction small short next before
      exact ⟨network, List.mem_cons_of_mem _ member, holds⟩
    refine ⟨_, List.mem_cons_self, ?_⟩
    rw [interval_step inside]
    refine ⟨le, ?_⟩
    rcases Nat.eq_or_lt_of_le le with rfl | past
    · have larger := Nat.pow_le_pow_right Nat.two_pos (le_sizeBits short aligned before)
      omega
    · rcases Nat.le_total (sizeBits summary.family first summary.last) size with finer | coarser
      · have apart := add_le_of_aligned multiple ((Nat.pow_dvd_pow 2 finer).trans aligned) past
        omega
      · have finer := Nat.pow_dvd_pow 2 coarser
        have within := add_le_of_aligned aligned ((finer.trans multiple).add finer) here
        omega

end Summary

/-- The networks of an interval cover it exactly, and no list of fewer does. -/
theorem summarize_is_exact_and_smallest (family : Family) (first last : Nat)
    (small : last ≤ family.lastAddress) :
    Summary.Yields ⟨family, some first, last⟩ (summarize family (first, last)) ∧
    (∀ network ∈ summarize family (first, last), network.family = family ∧ network.Clear) ∧
    Spaced 0 ((summarize family (first, last)).map Network.interval) ∧
    (∀ point, Covers ((summarize family (first, last)).map Network.interval) point ↔
      first ≤ point ∧ point ≤ last) ∧
    ∀ others : List Network, (∀ other ∈ others, other.family = family ∧ other.Clear) →
      (∀ point, Covers (others.map Network.interval) point ↔ first ≤ point ∧ point ≤ last) →
      (summarize family (first, last)).length ≤ others.length := by
  obtain ⟨spaced, covers, families⟩ := Summary.collect_spec ⟨family, some first, last⟩ small
  simp only [Option.mem_some_iff, exists_eq_left'] at covers
  refine ⟨Summary.yields_collect _, fun network member => ⟨families network member,
    Summary.clear_collect _ network member⟩, spaced, covers, fun others clear same => ?_⟩
  rw [← List.length_map (f := Network.interval), ← List.length_map (f := Network.interval)]
  refine spaced.length_le (List.forall_mem_map.mpr fun other isOther => ?_)
    fun point covered => (same point).mpr ((covers point).mp covered)
  obtain ⟨rfl, isClear⟩ := clear other isOther
  have positive := Nat.two_pow_pos (other.family.bits - other.prefixLen)
  have bounds : ∀ point, other.address ≤ point → point ≤ other.address +
      (2 ^ (other.family.bits - other.prefixLen) - 1) → first ≤ point ∧ point ≤ last := by
    intro point starts ends
    exact (same point).mp ⟨other.interval, List.mem_map_of_mem isOther,
      by rw [isClear.interval_eq]; exact ⟨starts, ends⟩⟩
  have starts := bounds other.address le_rfl (Nat.le_add_right _ _)
  have ends := bounds _ (Nat.le_add_right _ _) le_rfl
  obtain ⟨network, member, holds⟩ := Summary.holds_block ⟨other.family, some first, last⟩ small
    (Nat.sub_le _ _) isClear.2 ⟨first, rfl, starts.1⟩ (by simp only; omega)
  exact ⟨network.interval, List.mem_map_of_mem member, by rwa [isClear.interval_eq]⟩

theorem whole_space_is_summarized : Summary.Yields ⟨.v6, some 0, addressMax⟩
    (summarize .v6 (0, addressMax)) :=
  (summarize_is_exact_and_smallest .v6 0 addressMax (by decide)).1

end Nvx.Host.Egress
