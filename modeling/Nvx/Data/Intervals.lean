import Mathlib.Algebra.Order.BigOperators.Ring.Finset

namespace Nvx.Data

/-! Sets of naturals as lists of inclusive intervals. -/

abbrev Interval : Type := Nat × Nat

def Covers (intervals : List Interval) (point : Nat) : Prop :=
  ∃ interval ∈ intervals, interval.1 ≤ point ∧ point ≤ interval.2

@[simp] theorem covers_nil (point : Nat) : ¬ Covers [] point := by
  rintro ⟨_, member, _⟩
  cases member

@[simp] theorem covers_cons (interval : Interval) (intervals : List Interval) (point : Nat) :
    Covers (interval :: intervals) point ↔
      interval.1 ≤ point ∧ point ≤ interval.2 ∨ Covers intervals point := by
  simp only [Covers, List.mem_cons, or_and_right, exists_or, exists_eq_left]

@[simp] theorem covers_append (first second : List Interval) (point : Nat) :
    Covers (first ++ second) point ↔ Covers first point ∨ Covers second point := by
  simp only [Covers, List.mem_append, or_and_right, exists_or]

theorem covers_flatMap (values : List α) (f : α → List Interval) (point : Nat) :
    Covers (values.flatMap f) point ↔ ∃ value ∈ values, Covers (f value) point := by
  induction values with
  | nil => simp
  | cons value values induction => simp [induction]

/-- No interval is empty, and each starts more than `gap` after the one before it
ends. -/
structure Spaced (gap : Nat) (intervals : List Interval) : Prop where
  valid : ∀ interval ∈ intervals, interval.1 ≤ interval.2
  apart : intervals.Pairwise fun first second => first.2 + gap < second.1

theorem spaced_nil (gap : Nat) : Spaced gap [] :=
  ⟨by simp, .nil⟩

theorem spaced_singleton (valid : interval.1 ≤ interval.2) : Spaced gap [interval] :=
  ⟨by simpa using valid, List.pairwise_singleton _ _⟩

theorem spaced_cons : Spaced gap (interval :: intervals) ↔ interval.1 ≤ interval.2 ∧
        (∀ later ∈ intervals, interval.2 + gap < later.1) ∧
        Spaced gap intervals := by
  constructor
  · rintro ⟨valid, apart⟩
    rw [List.forall_mem_cons] at valid
    rw [List.pairwise_cons] at apart
    exact ⟨valid.1, apart.1, valid.2, apart.2⟩
  · rintro ⟨here, before, valid, apart⟩
    exact ⟨List.forall_mem_cons.mpr ⟨here, valid⟩, List.pairwise_cons.mpr ⟨before, apart⟩⟩

theorem Spaced.mono (spaced : Spaced gap intervals) (le : smaller ≤ gap) :
    Spaced smaller intervals :=
  ⟨spaced.valid, spaced.apart.imp fun apart => by omega⟩

theorem Spaced.nodup (spaced : Spaced gap intervals) : intervals.Nodup := by
  apply spaced.apart.imp_of_mem
  rintro first second member _ apart rfl
  have valid := spaced.valid first member
  omega

theorem spaced_append (spaced : Spaced gap first) (alsoSpaced : Spaced gap second)
    (apart : ∀ earlier ∈ first, ∀ later ∈ second,
      earlier.2 + gap < later.1) : Spaced gap (first ++ second) :=
  ⟨List.forall_mem_append.mpr ⟨spaced.valid, alsoSpaced.valid⟩,
    List.pairwise_append.mpr ⟨spaced.apart, alsoSpaced.apart, apart⟩⟩

theorem Spaced.dropWhile (spaced : Spaced gap intervals) (p : Interval → Bool) :
    Spaced gap (intervals.dropWhile p) := by
  have rest := List.dropWhile_suffix p (l := intervals)
  exact ⟨fun interval member => spaced.valid interval (rest.subset member),
    spaced.apart.sublist rest.sublist⟩

theorem lt_of_covers {bound : Nat} {intervals : List Interval} {point : Nat}
    (after : ∀ interval ∈ intervals, bound < interval.1)
    (covers : Covers intervals point) : bound < point := by
  obtain ⟨interval, member, starts, _⟩ := covers
  exact Nat.lt_of_lt_of_le (after interval member) starts

theorem Spaced.eq_of_held (spaced : Spaced gap intervals) (member : first ∈ intervals)
    (alsoMember : second ∈ intervals) (held : first.1 ≤ point ∧ point ≤ first.2)
    (alsoHeld : second.1 ≤ point ∧ point ≤ second.2) : first = second := by
  by_contra differ
  have apart := List.pairwise_iff_getElem.mp spaced.apart
  obtain ⟨i, inside, rfl⟩ := List.getElem_of_mem member
  obtain ⟨j, alsoInside, rfl⟩ := List.getElem_of_mem alsoMember
  rcases Nat.lt_trichotomy i j with before | rfl | after
  · have order := apart i j inside alsoInside before
    omega
  · exact differ rfl
  · have order := apart j i alsoInside inside after
    omega

/-- Disjoint intervals are the fewest of those that lie within them. -/
theorem Spaced.length_le
    (spaced : Spaced gap intervals) (within : ∀ other ∈ others, ∃ interval ∈ intervals,
      interval.1 ≤ other.1 ∧ other.2 ≤ interval.2)
    (covers : ∀ point, Covers intervals point → Covers others point) :
    intervals.length ≤ others.length := by
  choose holder member starts ends using within
  have holds : intervals ⊆ others.attach.map fun other => holder other.1 other.2 := by
    intro interval isMember
    have valid := spaced.valid interval isMember
    obtain ⟨other, found, first, last⟩ := covers interval.1 ⟨interval, isMember, le_refl _, valid⟩
    refine List.mem_map.mpr ⟨⟨other, found⟩, List.mem_attach _ _, ?_⟩
    exact spaced.eq_of_held (member other found) isMember
      ⟨(starts other found).trans first, last.trans (ends other found)⟩ ⟨le_refl _, valid⟩
  simpa using (spaced.nodup.subperm holds).length_le

theorem covers_first (valid : interval.1 ≤ interval.2) :
    Covers (interval :: intervals) interval.1 :=
  (covers_cons interval intervals interval.1).mpr (.inl ⟨Nat.le_refl _, valid⟩)

theorem covers_tail_iff (before : ∀ later ∈ intervals, interval.2 + gap < later.1) (point : Nat) :
    Covers intervals point ↔ Covers (interval :: intervals) point ∧ interval.2 < point := by
  rw [covers_cons]
  constructor
  · intro covers
    have after := lt_of_covers before covers
    exact ⟨.inr covers, by omega⟩
  · rintro ⟨here | covers, after⟩
    · omega
    · exact covers

theorem Spaced.first_le (spaced : Spaced gap (interval :: intervals))
    (covers : Covers (interval :: intervals) point) :
    interval.1 ≤ point := by
  obtain ⟨valid, before, _⟩ := spaced_cons.mp spaced
  rcases (covers_cons _ _ _).mp covers with here | later
  · exact here.1
  · have after := lt_of_covers before later
    omega

theorem Spaced.last_le (spaced : Spaced 1 (other :: others)) (starts : interval.1 = other.1)
    (within : ∀ point, Covers (interval :: intervals) point → Covers (other :: others) point) :
    interval.2 ≤ other.2 := by
  obtain ⟨alsoValid, before, _⟩ := spaced_cons.mp spaced
  by_contra longer
  have next := within (other.2 + 1) ((covers_cons _ _ _).mpr (.inl ⟨by omega, by omega⟩))
  rcases (covers_cons _ _ _).mp next with here | later
  · omega
  · exact Nat.lt_irrefl _ (lt_of_covers before later)

/-- Intervals that are not adjacent are determined by the points that they
cover. -/
theorem Spaced.ext (spaced : Spaced 1 first) (alsoSpaced : Spaced 1 second)
    (same : ∀ point, Covers first point ↔ Covers second point) :
    first = second := by
  induction first generalizing second with
  | nil =>
    cases second with
    | nil => rfl
    | cons interval second =>
      have valid := (spaced_cons.mp alsoSpaced).1
      exact absurd ((same _).mpr (covers_first valid)) (covers_nil _)
  | cons interval first induction =>
    obtain ⟨valid, before, rest⟩ := spaced_cons.mp spaced
    cases second with
    | nil => exact absurd ((same _).mp (covers_first valid)) (covers_nil _)
    | cons other second =>
      obtain ⟨alsoValid, alsoBefore, alsoRest⟩ := spaced_cons.mp alsoSpaced
      have starts : interval.1 = other.1 := Nat.le_antisymm
        (spaced.first_le ((same _).mpr (covers_first alsoValid)))
        (alsoSpaced.first_le ((same _).mp (covers_first valid)))
      have ends : interval.2 = other.2 := Nat.le_antisymm
        (alsoSpaced.last_le starts fun point => (same point).mp)
        (spaced.last_le starts.symm fun point => (same point).mpr)
      obtain rfl : interval = other := Prod.ext starts ends
      rw [induction rest alsoRest fun point => ?_]
      rw [covers_tail_iff before, covers_tail_iff alsoBefore, same]

end Nvx.Data
