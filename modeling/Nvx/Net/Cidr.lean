import Nvx.Data.Word
import Nvx.Host.Egress.Fewest

namespace Nvx.Net

open Nvx.Data
open Nvx.Host.Egress (Family Network exactSub exactSub_of_le add_le_of_aligned)

/-! What remains of a network without others.  An operation that overflows has no
result. -/

structure Cidr where
  family : Family
  address : Nat
  prefixLen : Nat
  deriving DecidableEq, Repr

def exactShl (bits : Nat) : Option Nat :=
  if bits < 128 then some (2 ^ bits) else none

def mask (address prefixLen width : Nat) : Option Nat :=
  if prefixLen = 0 then some 0
  else do
    let hostBits ← exactSub width prefixLen
    let hosts ← exactShl hostBits
    pure (Network.clear address (hosts - 1))

namespace Cidr

def contains (self other : Cidr) : Option Bool :=
  if self.family = other.family ∧ self.prefixLen ≤ other.prefixLen then do
    let masked ← mask other.address self.prefixLen self.family.bits
    pure (masked = self.address)
  else some false

def overlaps (self other : Cidr) : Option Bool := do
  if ← self.contains other then pure true else other.contains self

def withBits (self : Cidr) (address prefixLen : Nat) : Cidr :=
  ⟨self.family, address % 2 ^ self.family.bits, prefixLen⟩

def halves (self : Cidr) : Option (Cidr × Cidr) := do
  let prefixLen ← checkedAdd 8 self.prefixLen 1
  let hostBits ← exactSub self.family.bits prefixLen
  let half ← exactShl hostBits
  pure (self.withBits self.address prefixLen, self.withBits (self.address ||| half) prefixLen)

theorem halves_longer (found : halves self = some (low, high)) :
    low.family.bits - low.prefixLen < self.family.bits - self.prefixLen ∧
      high.family.bits - high.prefixLen < self.family.bits - self.prefixLen := by
  simp only [halves, checkedAdd, exactSub, Option.bind_eq_bind, Option.bind_eq_some_iff,
    Option.ite_none_right_eq_some, Option.some.injEq, Option.pure_def, Prod.mk.injEq] at found
  obtain ⟨_, ⟨_, rfl⟩, _, ⟨fits, _⟩, _, _, rfl, rfl⟩ := found
  simp only [withBits]
  omega

def addressLt (self other : Cidr) : Bool :=
  self.family.rank < other.family.rank ∨
    self.family.rank = other.family.rank ∧ self.address < other.address

/-- The derived order: by address, then by prefix length. -/
def le (self other : Cidr) : Bool :=
  self.addressLt other ∨ self.family.rank = other.family.rank ∧ self.address = other.address ∧
    self.prefixLen ≤ other.prefixLen

def anyContains (self : Cidr) : List Cidr → Option Bool
  | [] => some false
  | exclusion :: excluded => do
    if ← exclusion.contains self then pure true else anyContains self excluded

def subtractSorted (self : Cidr) (excluded : List Cidr) (limit : Nat) (remainder : List Cidr) :
    Option (Bool × List Cidr) :=
  if excluded = [] then
    some (remainder.length + 1 ≤ limit, remainder ++ [self])
  else
    match self.anyContains excluded, _found : self.halves with
    | none, _ => none
    | some true, _ => some (true, remainder)
    | some false, none => none
    | some false, some (low, high) => do
      let (fits, remainder) ←
        subtractSorted low (excluded.takeWhile (·.addressLt high)) limit remainder
      if fits then subtractSorted high (excluded.dropWhile (·.addressLt high)) limit remainder
      else pure (false, remainder)
termination_by self.family.bits - self.prefixLen
decreasing_by
  · exact (halves_longer _found).1
  · exact (halves_longer _found).2

def overlapping (self : Cidr) : List Cidr → Option (List Cidr)
  | [] => some []
  | exclusion :: excluded => do
    let overlap ← exclusion.overlaps self
    let others ← overlapping self excluded
    pure (if overlap then exclusion :: others else others)

def subtract (self : Cidr) (excluded : List Cidr) (limit : Nat) : Option (Option (List Cidr)) := do
  let found ← self.overlapping excluded
  let (fits, remainder) ← self.subtractSorted (found.mergeSort le) limit []
  pure (if fits then some remainder else none)

def size (self : Cidr) : Nat := self.family.bits - self.prefixLen

/-- The addresses of the network, from the first through the last. -/
def span (self : Cidr) : Interval := (self.address, self.address + (2 ^ self.size - 1))

structure Valid (cidr : Cidr) : Prop where
  short : cidr.prefixLen ≤ cidr.family.bits
  aligned : 2 ^ cidr.size ∣ cidr.address
  small : cidr.address < 2 ^ cidr.family.bits

def Within (fine coarse : Cidr) : Prop :=
  coarse.family = fine.family ∧ coarse.address ≤ fine.address ∧
    fine.address + 2 ^ fine.size ≤ coarse.address + 2 ^ coarse.size

instance : Decidable (Within fine coarse) := inferInstanceAs (Decidable (_ ∧ _))

theorem mask_eq {family : Family} {address prefixLen : Nat} (short : prefixLen ≤ family.bits)
    (small : address < 2 ^ family.bits) : mask address prefixLen family.bits =
      some (2 ^ (family.bits - prefixLen) * (address / 2 ^ (family.bits - prefixLen))) := by
  have narrow := family.bits_le
  unfold mask
  split
  case isTrue zero =>
    rw [zero, Nat.sub_zero, Nat.div_eq_of_lt small, Nat.mul_zero]
  case isFalse positive =>
    simp only [exactSub_of_le short, exactShl, if_pos (by omega : family.bits - prefixLen < 128),
      Network.clear_mask, Option.bind_eq_bind, Option.bind_some, Option.pure_def]

theorem size_le_of_within (within : Within fine coarse) : fine.size ≤ coarse.size := by
  obtain ⟨_, starts, ends⟩ := within
  exact (Nat.pow_le_pow_iff_right (by decide : 1 < 2)).mp (by omega)

theorem contains_eq (valid : self.Valid) (alsoValid : other.Valid) :
    self.contains other = some (decide (Within other self)) := by
  unfold contains
  split
  case isTrue same =>
    obtain ⟨family, shorter⟩ := same
    have small : other.address < 2 ^ self.family.bits := family ▸ alsoValid.small
    have finer : other.size ≤ self.size := by
      unfold size
      rw [family]
      omega
    rw [mask_eq valid.short small, Option.bind_eq_bind, Option.bind_some, Option.pure_def]
    refine congrArg some (decide_eq_decide.mpr ?_)
    have divided := Nat.div_add_mod other.address (2 ^ self.size)
    have below := Nat.mod_lt other.address (Nat.two_pow_pos self.size)
    constructor
    · intro masked
      refine ⟨family, by rw [← masked]; exact Nat.mul_div_le _ _, ?_⟩
      have finer := Nat.pow_dvd_pow 2 finer
      apply add_le_of_aligned alsoValid.aligned ((finer.trans valid.aligned).add finer)
      rw [← masked]
      change _ < 2 ^ self.size * (other.address / 2 ^ self.size) + _
      omega
    · rintro ⟨_, starts, ends⟩
      have positive := Nat.two_pow_pos other.size
      obtain ⟨multiple, isMultiple⟩ := valid.aligned
      have quotient : other.address / 2 ^ self.size = multiple := by
        apply Nat.div_eq_of_lt_le
        · rw [Nat.mul_comm, ← isMultiple]
          exact starts
        · rw [Nat.succ_mul, Nat.mul_comm, ← isMultiple]
          omega
      rw [isMultiple, ← quotient]
      rfl
  case isFalse differ =>
    rw [decide_eq_false]
    intro within
    have finer := size_le_of_within within
    unfold size at finer
    have short := valid.short
    rw [within.1] at finer short
    exact differ ⟨within.1, by omega⟩

theorem overlaps_eq (valid : self.Valid) (alsoValid : other.Valid) :
    self.overlaps other = some (decide (Within other self ∨ Within self other)) := by
  rw [overlaps, contains_eq valid alsoValid, contains_eq alsoValid valid, Option.bind_eq_bind,
    Option.bind_some]
  split
  case isTrue within => simp [of_decide_eq_true within]
  case isFalse not => simp [of_decide_eq_false (Bool.eq_false_of_not_eq_true not)]

theorem anyContains_eq (valid : self.Valid)
    (allValid : ∀ exclusion ∈ excluded, exclusion.Valid) : self.anyContains excluded =
      some (decide (∃ exclusion ∈ excluded, Within self exclusion)) := by
  induction excluded with
  | nil => simp [anyContains]
  | cons exclusion excluded induction =>
    obtain ⟨here, others⟩ := List.forall_mem_cons.mp allValid
    rw [anyContains, contains_eq here valid, induction others, Option.bind_eq_bind,
      Option.bind_some]
    split <;> simp_all

theorem overlapping_eq (valid : Valid self)
    (allValid : ∀ exclusion ∈ excluded, exclusion.Valid) : self.overlapping excluded =
      some (excluded.filter fun exclusion => Within self exclusion ∨ Within exclusion self) := by
  induction excluded with
  | nil => rfl
  | cons exclusion excluded induction =>
    obtain ⟨here, others⟩ := List.forall_mem_cons.mp allValid
    rw [overlapping, overlaps_eq here valid, induction others, List.filter_cons]
    rfl

structure Halves (cidr low high : Cidr) : Prop where
  lowValid : low.Valid
  highValid : high.Valid
  lowFamily : low.family = cidr.family
  highFamily : high.family = cidr.family
  sameSize : low.size = high.size
  isHalf : cidr.size = high.size + 1
  lowAddress : low.address = cidr.address
  highAddress : high.address = cidr.address + 2 ^ high.size

theorem halves_eq (valid : self.Valid) (more : self.prefixLen < self.family.bits) :
    ∃ low high, self.halves = some (low, high) ∧ Halves self low high := by
  have narrow := self.family.bits_le
  have isSize : self.size = self.family.bits - (self.prefixLen + 1) + 1 := by
    unfold size
    omega
  generalize smaller : self.family.bits - (self.prefixLen + 1) = half at isSize
  have aligned := valid.aligned
  have fits := add_le_of_aligned aligned (Nat.pow_dvd_pow 2 (Nat.sub_le _ _)) valid.small
  rw [isSize, Nat.pow_succ] at fits
  have finer : 2 ^ half ∣ self.address := (Nat.pow_dvd_pow 2 (by omega)).trans aligned
  have joined : self.address ||| 2 ^ half = self.address + 2 ^ half := by
    obtain ⟨multiple, isMultiple⟩ := aligned
    rw [isMultiple, Nat.two_pow_add_eq_or_of_lt (Nat.pow_lt_pow_right (by decide) (by omega))]
  have positive := Nat.two_pow_pos half
  refine ⟨⟨self.family, self.address, self.prefixLen + 1⟩,
    ⟨self.family, self.address + 2 ^ half, self.prefixLen + 1⟩, ?_, ⟨more, ?_, valid.small⟩,
    ⟨more, ?_, ?_⟩, rfl, rfl, rfl, ?_, rfl, ?_⟩
  · have fits : self.prefixLen + 1 < wordSize 8 := by
      rw [wordSize]
      omega
    simp only [halves, checkedAdd, if_pos fits, exactSub_of_le (Nat.succ_le_of_lt more), smaller,
      exactShl, if_pos (by omega : half < 128), joined, withBits, Nat.mod_eq_of_lt valid.small,
      Option.bind_eq_bind, Option.bind_some, Option.pure_def]
    rw [Nat.mod_eq_of_lt (by omega)]
  all_goals simp only [size, smaller]
  · exact finer
  · exact finer.add (Nat.dvd_refl _)
  · omega
  · exact isSize

def Has (self : Cidr) (point : Nat) : Prop :=
  self.address ≤ point ∧ point < self.address + 2 ^ self.size

/-- Networks that hold the addresses of one that no exclusion of its family
holds. -/
def IsRemainder (self : Cidr) (excluded parts : List Cidr) : Prop :=
  (∀ part ∈ parts, part.Valid ∧ part.family = self.family) ∧
    ∀ point, (∃ part ∈ parts, part.Has point) ↔ self.Has point ∧
      ∀ exclusion ∈ excluded, exclusion.family = self.family → ¬ exclusion.Has point

/-- Networks in order, of which each holds as much as one can. -/
structure Parts (cidr : Cidr) (excluded parts : List Cidr) : Prop where
  remain : IsRemainder cidr excluded parts
  ascend : parts.Pairwise fun first second => first.address + 2 ^ first.size ≤ second.address
  hold : ∀ block : Cidr, block.Valid → Within block cidr →
    (∀ exclusion ∈ excluded, exclusion.family = cidr.family → ∀ point, exclusion.Has point →
      ¬ block.Has point) → ∃ part ∈ parts, Within block part

theorem Within.has (within : Within fine coarse) (has : fine.Has point) : coarse.Has point :=
  ⟨within.2.1.trans has.1, has.2.trans_le within.2.2⟩

theorem has_address (self : Cidr) : self.Has self.address :=
  ⟨le_rfl, Nat.lt_add_of_pos_right (Nat.two_pow_pos _)⟩

theorem parts_self (valid : Valid self) : Parts self [] [self] where
  remain := ⟨by simpa using valid, by simp⟩
  ascend := List.pairwise_singleton _ _
  hold block _ within _ := ⟨self, List.mem_singleton_self _, within⟩

theorem parts_nil (member : exclusion ∈ excluded) (within : Within self exclusion) :
    Parts self excluded [] where
  remain := by
    refine ⟨by simp, fun point => ⟨by simp, fun both => ?_⟩⟩
    exact absurd (within.has both.1) (both.2 exclusion member within.1)
  ascend := .nil
  hold block _ inside apart := by
    have first := block.has_address
    exact absurd first (apart exclusion member within.1 _ (within.has (inside.has first)))

theorem Halves.has_iff (halves : Halves self low high) :
    self.Has point ↔ low.Has point ∨ high.Has point := by
  unfold Has
  rw [halves.lowAddress, halves.highAddress, halves.sameSize, halves.isHalf, Nat.pow_succ]
  omega

theorem Halves.lt (halves : Halves self low high) (inLow : low.Has point)
    (inHigh : high.Has other) : point < other := by
  obtain ⟨_, before⟩ := inLow
  obtain ⟨after, _⟩ := inHigh
  rw [halves.lowAddress, halves.sameSize, ← halves.highAddress] at before
  omega

theorem Halves.within (halves : Halves self low high) (valid : block.Valid)
    (inside : Within block self) (smaller : block.size < self.size) :
    (block.address < high.address → Within block low) ∧
      (high.address ≤ block.address → Within block high) := by
  obtain ⟨family, starts, ends⟩ := inside
  have half := halves.isHalf
  have middle := halves.highAddress
  constructor
  · intro before
    have finer := Nat.pow_dvd_pow 2 (by omega : block.size ≤ high.size)
    have fits := add_le_of_aligned valid.aligned (finer.trans halves.highValid.aligned) before
    exact ⟨halves.lowFamily.trans family, halves.lowAddress ▸ starts,
      by rwa [halves.lowAddress, halves.sameSize, ← middle]⟩
  · intro after
    rw [half, Nat.pow_succ] at ends
    exact ⟨halves.highFamily.trans family, after, by omega⟩

/-- The parts of both halves, where some exclusion lies within one of them. -/
theorem parts_append (halves : Halves self low high)
    (inLow : ∀ exclusion ∈ lowExcluded, Within exclusion low)
    (inHigh : ∀ exclusion ∈ highExcluded, Within exclusion high)
    (member : exclusion ∈ lowExcluded ++ highExcluded)
    (lows : Parts low lowExcluded lowParts) (highs : Parts high highExcluded highParts) :
    Parts self (lowExcluded ++ highExcluded) (lowParts ++ highParts) := by
  refine ⟨⟨List.forall_mem_append.mpr ⟨fun part found => ?_, fun part found => ?_⟩,
      fun point => ?_⟩,
    List.pairwise_append.mpr ⟨lows.ascend, highs.ascend, fun first isFirst second isSecond => ?_⟩,
    fun block valid inside apart => ?_⟩
  · exact (lows.remain.1 part found).imp_right (·.trans halves.lowFamily)
  · exact (highs.remain.1 part found).imp_right (·.trans halves.highFamily)
  · simp only [List.mem_append, or_and_right, exists_or, lows.remain.2, highs.remain.2,
      halves.has_iff]
    refine or_congr (and_congr_right fun here => ?_) (and_congr_right fun here => ?_)
    · rw [halves.lowFamily]
      refine ⟨fun free other found family has => ?_,
        fun free other found => free other (.inl found)⟩
      rcases found with found | found
      · exact free other found family has
      · exact Nat.lt_irrefl _ (halves.lt here ((inHigh other found).has has))
    · rw [halves.highFamily]
      refine ⟨fun free other found family has => ?_,
        fun free other found => free other (.inr found)⟩
      rcases found with found | found
      · exact Nat.lt_irrefl _ (halves.lt ((inLow other found).has has) here)
      · exact free other found family has
  · have positive := Nat.two_pow_pos first.size
    have last : first.Has (first.address + 2 ^ first.size - 1) := ⟨by omega, by omega⟩
    have before := halves.lt ((lows.remain.2 _).mp ⟨first, isFirst, last⟩).1
      ((highs.remain.2 _).mp ⟨second, isSecond, second.has_address⟩).1
    omega
  · -- The exclusion is in the network, so a block without it is smaller.
    have here : exclusion.family = self.family ∧ self.Has exclusion.address := by
      rw [halves.has_iff]
      rcases List.mem_append.mp member with found | found
      · have within := inLow _ found
        exact ⟨within.1.symm.trans halves.lowFamily, .inl (within.has exclusion.has_address)⟩
      · have within := inHigh _ found
        exact ⟨within.1.symm.trans halves.highFamily, .inr (within.has exclusion.has_address)⟩
    have smaller : block.size < self.size := by
      by_contra large
      have large := Nat.pow_le_pow_right Nat.two_pos (not_lt.mp large)
      obtain ⟨_, starts, ends⟩ := inside
      obtain ⟨after, before⟩ := here.2
      exact apart exclusion member here.1 _ exclusion.has_address ⟨by omega, by omega⟩
    have half := halves.within valid inside smaller
    rcases Nat.lt_or_ge block.address high.address with before | after
    · obtain ⟨part, found, holds⟩ := lows.hold block valid (half.1 before) fun other found family =>
        apart other (List.mem_append_left _ found) (family.trans halves.lowFamily)
      exact ⟨part, List.mem_append_left _ found, holds⟩
    · obtain ⟨part, found, holds⟩ := highs.hold block valid (half.2 after) fun other found family =>
        apart other (List.mem_append_right _ found) (family.trans halves.highFamily)
      exact ⟨part, List.mem_append_right _ found, holds⟩

/-- What the recursion adds, however much was there before. -/
def Appends (self : Cidr) (excluded parts : List Cidr) : Prop :=
  ∀ limit remainder, remainder.length ≤ limit → ∃ rest,
    self.subtractSorted excluded limit remainder =
      some (decide (remainder.length + parts.length ≤ limit), rest) ∧
    (remainder.length + parts.length ≤ limit → rest = remainder ++ parts)

theorem not_of_mem_dropWhile {values : List α}
    (sorted : values.Pairwise fun first second => p second → p first) :
    ∀ value ∈ values.dropWhile p, ¬ p value := by
  induction values with
  | nil => simp
  | cons value values induction =>
    obtain ⟨before, rest⟩ := List.pairwise_cons.mp sorted
    rw [List.dropWhile_cons]
    split
    case isTrue => exact induction rest
    case isFalse fails =>
      exact List.forall_mem_cons.mpr
        ⟨fails, fun other found holds => fails (before other found holds)⟩

theorem subtractSorted_spec (self : Cidr) (excluded : List Cidr) (valid : self.Valid)
    (overlap : ∀ exclusion ∈ excluded, exclusion.Valid ∧
      (Within self exclusion ∨ Within exclusion self))
    (sorted : excluded.Pairwise fun first second => first.address ≤ second.address) :
    ∃ parts, Parts self excluded parts ∧ Appends self excluded parts := by
  induction isSize : self.size using Nat.strong_induction_on generalizing self excluded with
  | _ size induction =>
    by_cases none : excluded = []
    case pos =>
      subst none
      refine ⟨[self], parts_self valid, fun limit remainder _ => ⟨remainder ++ [self], ?_, by simp⟩⟩
      rw [subtractSorted, if_pos rfl]
      rfl
    by_cases whole : ∃ exclusion ∈ excluded, Within self exclusion
    case pos =>
      obtain ⟨exclusion, member, within⟩ := whole
      refine ⟨[], parts_nil member within, fun limit remainder fits => ⟨remainder, ?_, by simp⟩⟩
      rw [subtractSorted, if_neg none, anyContains_eq valid fun exclusion member =>
        (overlap exclusion member).1, decide_eq_true ⟨exclusion, member, within⟩]
      simp [fits]
    obtain ⟨exclusion, member⟩ := List.exists_mem_of_ne_nil _ none
    have inside : ∀ exclusion ∈ excluded, exclusion.Valid ∧ Within exclusion self ∧
        exclusion.size < self.size := by
      intro exclusion member
      obtain ⟨isValid, within | within⟩ := overlap exclusion member
      · exact absurd ⟨exclusion, member, within⟩ whole
      · refine ⟨isValid, within, ?_⟩
        by_contra large
        have large := Nat.pow_le_pow_right Nat.two_pos (not_lt.mp large)
        obtain ⟨family, starts, ends⟩ := within
        exact whole ⟨exclusion, member, family.symm, by omega, by omega⟩
    have more : self.prefixLen < self.family.bits := by
      have smaller := (inside exclusion member).2.2
      unfold Cidr.size at smaller
      omega
    obtain ⟨low, high, found, halves⟩ := halves_eq valid more
    have order : ∀ exclusion ∈ excluded, exclusion.addressLt high = true ↔
        exclusion.address < high.address := by
      intro exclusion member
      have family := (inside exclusion member).2.1.1.symm.trans halves.highFamily.symm
      simp [addressLt, family]
    have inLow : ∀ exclusion ∈ excluded.takeWhile (·.addressLt high),
        exclusion.Valid ∧ Within exclusion low := by
      intro exclusion taken
      have member := (List.takeWhile_sublist _).subset taken
      obtain ⟨isValid, within, smaller⟩ := inside exclusion member
      have before := List.mem_takeWhile_imp taken
      exact ⟨isValid, (halves.within isValid within smaller).1 ((order exclusion member).mp before)⟩
    have inHigh : ∀ exclusion ∈ excluded.dropWhile (·.addressLt high),
        exclusion.Valid ∧ Within exclusion high := by
      intro exclusion left
      have member := (List.dropWhile_sublist _).subset left
      obtain ⟨isValid, within, smaller⟩ := inside exclusion member
      have after := not_of_mem_dropWhile (sorted.imp_of_mem fun isFirst isSecond le before => by
        rw [order _ isSecond] at before
        exact (order _ isFirst).mpr (Nat.lt_of_le_of_lt le before)) exclusion left
      rw [order exclusion member, not_lt] at after
      exact ⟨isValid, (halves.within isValid within smaller).2 after⟩
    have half := halves.isHalf
    obtain ⟨lows, lowParts, lowAppends⟩ := induction low.size (by rw [halves.sameSize]; omega) low _
      halves.lowValid (fun exclusion taken => (inLow exclusion taken).imp_right .inr)
      (sorted.sublist (List.takeWhile_sublist _)) rfl
    obtain ⟨highs, highParts, highAppends⟩ := induction high.size (by omega) high _
      halves.highValid (fun exclusion left => (inHigh exclusion left).imp_right .inr)
      (sorted.sublist (List.dropWhile_sublist _)) rfl
    refine ⟨lows ++ highs, ?_, fun limit remainder fits => ?_⟩
    · have parts := parts_append halves (fun exclusion taken => (inLow exclusion taken).2)
        (fun exclusion left => (inHigh exclusion left).2)
        (by rwa [List.takeWhile_append_dropWhile]) lowParts highParts
      rwa [List.takeWhile_append_dropWhile] at parts
    · obtain ⟨lowRest, isLow, lowRemains⟩ := lowAppends limit remainder fits
      rw [subtractSorted, if_neg none, anyContains_eq valid fun exclusion member =>
        (overlap exclusion member).1, decide_eq_false whole, found]
      simp only [isLow, Option.bind_eq_bind, Option.bind_some, List.length_append,
        decide_eq_true_eq]
      split
      case isTrue room =>
        rw [lowRemains room]
        obtain ⟨rest, isRest, remains⟩ :=
          highAppends limit (remainder ++ lows) (by simpa using room)
        rw [List.length_append, Nat.add_assoc] at isRest remains
        exact ⟨rest, isRest, fun all => (remains all).trans (List.append_assoc _ _ _)⟩
      case isFalse full =>
        exact ⟨lowRest, by rw [decide_eq_false (by omega)]; rfl, by omega⟩

theorem within_of_has (valid : fine.Valid) (alsoValid : coarse.Valid)
    (family : coarse.family = fine.family) (finer : fine.size ≤ coarse.size) (has : fine.Has point)
    (alsoHas : coarse.Has point) : Within fine coarse := by
  have finer := Nat.pow_dvd_pow 2 finer
  have aligned := finer.trans alsoValid.aligned
  obtain ⟨starts, ends⟩ := has
  obtain ⟨alsoStarts, alsoEnds⟩ := alsoHas
  refine ⟨family, ?_, add_le_of_aligned valid.aligned (aligned.add finer) (by omega)⟩
  by_contra before
  have apart := add_le_of_aligned valid.aligned aligned (not_le.mp before)
  omega

/-- Only the exclusions that overlap the network count. -/
theorem isRemainder_congr (valid : self.Valid) (allValid : ∀ exclusion ∈ excluded, exclusion.Valid)
    (isFound : ∀ exclusion, exclusion ∈ found ↔ exclusion ∈ excluded ∧
      (Within self exclusion ∨ Within exclusion self)) (parts : List Cidr) :
    IsRemainder self found parts ↔ IsRemainder self excluded parts := by
  refine and_congr_right fun _ => forall_congr' fun point => iff_congr Iff.rfl
    (and_congr_right fun here => forall_congr' fun exclusion => ?_)
  rw [isFound]
  refine ⟨fun free member family has => free ⟨member, ?_⟩ family has, fun free both => free both.1⟩
  have isValid := allValid exclusion member
  rcases Nat.le_total self.size exclusion.size with finer | coarser
  · exact .inl (within_of_has valid isValid family finer here has)
  · exact .inr (within_of_has isValid valid family.symm coarser has here)

theorem covers_span {parts : List Cidr} :
    Covers (parts.map span) point ↔ ∃ part ∈ parts, part.Has point := by
  have held : ∀ part : Cidr, part.address ≤ point ∧ point ≤ part.address + (2 ^ part.size - 1) ↔
      part.Has point := fun part => by
    have positive := Nat.two_pow_pos part.size
    unfold Has
    omega
  simp [Covers, span, held]

theorem Parts.spaced (isParts : Parts self excluded parts) : Spaced 0 (parts.map span) := by
  refine ⟨List.forall_mem_map.mpr fun part _ => Nat.le_add_right _ _,
    List.pairwise_map.mpr (isParts.ascend.imp fun {first second} before => ?_)⟩
  have positive := Nat.two_pow_pos first.size
  simp only [span]
  omega

theorem Parts.length_le (isParts : Parts self excluded parts)
    (same : IsRemainder self excluded others) : parts.length ≤ others.length := by
  suffices fewer : (parts.map span).length ≤ (others.map span).length by simpa using fewer
  refine isParts.spaced.length_le (List.forall_mem_map.mpr fun other member => ?_) fun point => ?_
  · have positive := Nat.two_pow_pos other.size
    have inside : ∀ point, other.Has point → _ := fun point has =>
      (same.2 point).mp ⟨other, member, has⟩
    have first := (inside _ other.has_address).1
    have last := (inside (other.address + (2 ^ other.size - 1)) ⟨by omega, by omega⟩).1
    obtain ⟨valid, family⟩ := same.1 other member
    obtain ⟨part, found, within⟩ := isParts.hold other valid
      ⟨family.symm, first.1, by have ends := last.2; omega⟩ fun exclusion isExcluded same point has
        inOther => (inside point inOther).2 exclusion isExcluded same has
    obtain ⟨_, starts, ends⟩ := within
    have alsoPositive := Nat.two_pow_pos part.size
    exact ⟨part.span, List.mem_map_of_mem found, starts, by simp only [span]; omega⟩
  · rw [covers_span, covers_span, isParts.remain.2, same.2]
    exact id

theorem le_trans (first second third : Cidr) (before : le first second)
    (after : le second third) : le first third := by
  simp only [le, addressLt, decide_eq_true_eq] at *
  omega

theorem le_total (first second : Cidr) : le first second || le second first := by
  simp only [le, addressLt, decide_eq_true_eq, Bool.or_eq_true]
  omega

/-- What is left of a network is exact, and the limit is on the fewest networks. -/
theorem subtract_is_exact_and_smallest (self : Cidr) (excluded : List Cidr) (valid : self.Valid)
    (allValid : ∀ exclusion ∈ excluded, exclusion.Valid) :
    ∃ smallest, IsRemainder self excluded smallest ∧ Spaced 0 (smallest.map span) ∧
      (∀ others, IsRemainder self excluded others → smallest.length ≤ others.length) ∧
      ∀ limit, self.subtract excluded limit =
        some (if smallest.length ≤ limit then some smallest else none) := by
  generalize isFound : (excluded.filter fun exclusion =>
    Within self exclusion ∨ Within exclusion self).mergeSort le = found
  have members : ∀ exclusion, exclusion ∈ found ↔ exclusion ∈ excluded ∧
      (Within self exclusion ∨ Within exclusion self) := by
    simp [← isFound]
  have sorted : found.Pairwise fun first second => first.address ≤ second.address := by
    have ordered : found.Pairwise fun first second => le first second := by
      rw [← isFound]
      exact List.pairwise_mergeSort le_trans le_total _
    refine ordered.imp_of_mem fun {first second} isFirst isSecond before => ?_
    have family : ∀ exclusion ∈ found, exclusion.family.rank = self.family.rank := by
      intro exclusion member
      rcases ((members exclusion).mp member).2 with within | within
      · rw [within.1]
      · rw [within.1]
    have isSame := family first isFirst
    have alsoSame := family second isSecond
    simp only [le, addressLt, decide_eq_true_eq] at before
    omega
  obtain ⟨parts, isParts, appends⟩ := subtractSorted_spec self found valid
    (fun exclusion member => by
      obtain ⟨isExcluded, overlap⟩ := (members exclusion).mp member
      exact ⟨allValid exclusion isExcluded, overlap⟩) sorted
  have same := isRemainder_congr valid allValid members
  refine ⟨parts, (same parts).mp isParts.remain, isParts.spaced, fun others isOthers =>
    isParts.length_le ((same others).mpr isOthers), fun limit => ?_⟩
  obtain ⟨rest, isRest, remains⟩ := appends limit [] (Nat.zero_le _)
  rw [List.length_nil, Nat.zero_add] at isRest remains
  simp only [subtract, overlapping_eq valid allValid, Option.bind_eq_bind, Option.bind_some,
    isFound, isRest, Option.pure_def, decide_eq_true_eq]
  split
  case isTrue fits => rw [remains fits, List.nil_append]
  case isFalse => rfl

theorem upper_half_is_excluded : ∃ smallest, IsRemainder ⟨.v4, 0, 0⟩ [⟨.v4, 2 ^ 31, 1⟩] smallest ∧
    ∀ limit, subtract ⟨.v4, 0, 0⟩ [⟨.v4, 2 ^ 31, 1⟩] limit =
      some (if smallest.length ≤ limit then some smallest else none) := by
  obtain ⟨smallest, remains, _, _, limits⟩ := subtract_is_exact_and_smallest ⟨.v4, 0, 0⟩
    [⟨.v4, 2 ^ 31, 1⟩] ⟨by decide, by decide, by decide⟩ (by
      simp only [List.forall_mem_singleton]
      exact ⟨by decide, by decide, by decide⟩)
  exact ⟨smallest, remains, limits⟩

end Cidr

end Nvx.Net
