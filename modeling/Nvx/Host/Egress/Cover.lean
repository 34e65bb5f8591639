import Nvx.Host.Egress.Address

namespace Nvx.Host.Egress

open Nvx.Data

/-! What unions and differences of intervals cover. -/

def InRange (intervals : List Interval) : Prop :=
  ∀ interval ∈ intervals, interval.1 ≤ interval.2 ∧ interval.2 ≤ addressMax

theorem le_saturatingAdd_iff {value other : Nat} (small : value ≤ addressMax) :
    value ≤ saturatingAdd other 1 ↔ value ≤ other + 1 := by
  unfold saturatingAdd
  omega

theorem mergeFrom_spec (inRange : InRange rest) (valid : previous.1 ≤ previous.2)
    (after : ∀ interval ∈ rest, previous.1 ≤ interval.1) (sorted : rest.Pairwise intervalLE) :
    (∀ point, Covers (mergeFrom previous rest) point ↔
      previous.1 ≤ point ∧ point ≤ previous.2 ∨ Covers rest point) ∧
    Spaced 1 (mergeFrom previous rest) ∧
      ∀ interval ∈ mergeFrom previous rest, previous.1 ≤ interval.1 := by
  induction rest generalizing previous with
  | nil =>
    rw [mergeFrom]
    exact ⟨by simp, spaced_singleton valid, by simp⟩
  | cons interval rest induction =>
    obtain ⟨here, others⟩ := List.forall_mem_cons.mp inRange
    obtain ⟨first, later⟩ := List.pairwise_cons.mp sorted
    obtain ⟨starts, ends⟩ := List.forall_mem_cons.mp after
    have bound := @le_saturatingAdd_iff interval.1 previous.2 (Nat.le_trans here.1 here.2)
    rw [mergeFrom]
    split
    · rename_i adjacent
      rw [bound] at adjacent
      obtain ⟨covers, spaced⟩ := @induction (previous.1, max previous.2 interval.2) others
        (Nat.le_trans valid (Nat.le_max_left _ _)) ends later
      refine ⟨fun point => ?_, spaced⟩
      rw [covers, covers_cons, ← or_assoc]
      apply or_congr_left
      simp only
      omega
    · rename_i apart
      rw [bound] at apart
      obtain ⟨covers, spaced, bounds⟩ := induction others here.1 (fun other member => by
          have order := first other member
          unfold intervalLE at order
          omega) later
      refine ⟨fun point => by rw [covers_cons, covers_cons, covers],
        spaced_cons.mpr ⟨valid, fun other member => ?_, spaced⟩,
        List.forall_mem_cons.mpr ⟨Nat.le_refl _, fun other member => ?_⟩⟩
      · have least := bounds other member
        omega
      · exact Nat.le_trans starts (bounds other member)

instance : IsTrans Interval intervalLE where
  trans first second third := by
    unfold intervalLE
    omega

instance : Std.Total intervalLE where
  total first second := by
    unfold intervalLE
    omega

/-- A union covers what its parts cover, in intervals that are not adjacent. -/
theorem merge_spec (inRange : InRange intervals) : Spaced 1 (merge intervals) ∧
      ∀ point, Covers (merge intervals) point ↔ Covers intervals point := by
  have sorted := List.pairwise_insertionSort intervalLE intervals
  have members : ∀ interval, interval ∈ intervals.insertionSort intervalLE ↔
      interval ∈ intervals := fun interval => List.mem_insertionSort intervalLE
  have same : ∀ point, Covers (intervals.insertionSort intervalLE) point ↔
      Covers intervals point := fun point => by
    simp only [Covers, members]
  have alsoInRange : InRange (intervals.insertionSort intervalLE) :=
    fun interval member => inRange interval ((members interval).mp member)
  simp only [← same]
  unfold merge
  split
  · rename_i found
    rw [found]
    exact ⟨spaced_nil 1, fun point => Iff.rfl⟩
  · rename_i first rest found
    rw [found]
    rw [found] at sorted alsoInRange
    obtain ⟨before, later⟩ := List.pairwise_cons.mp sorted
    obtain ⟨here, others⟩ := List.forall_mem_cons.mp alsoInRange
    have after : ∀ interval ∈ rest, first.1 ≤ interval.1 := by
      intro interval member
      have order := before interval member
      unfold intervalLE at order
      omega
    obtain ⟨covers, spaced, _⟩ := mergeFrom_spec others here.1 after later
    exact ⟨spaced, fun point => by rw [covers, covers_cons]⟩

theorem mem_merge_le (inRange : InRange intervals)
    (small : ∀ point, Covers intervals point → point ≤ bound) :
    ∀ interval ∈ merge intervals, interval.2 ≤ bound := by
  obtain ⟨spaced, same⟩ := merge_spec inRange
  intro interval member
  apply small
  rw [← same]
  exact ⟨interval, member, spaced.valid interval member, Nat.le_refl _⟩

theorem checkedAdd_eq_some_iff : checkedAdd value other = some sum ↔
      value + other = sum ∧ sum ≤ addressMax := by
  unfold checkedAdd
  split
  · rw [Option.some.injEq]
    omega
  · simp only [reduceCtorEq, false_iff]
    omega

def cutAfter (sourceEnd cursor excludedEnd : Nat) (rest : List Interval) :
    List Interval :=
  match checkedAdd excludedEnd 1 with
  | none => []
  | some next =>
    if sourceEnd < max cursor next then []
    else cut sourceEnd (max cursor next) rest

theorem cut_cons (sourceEnd cursor excludedStart excludedEnd : Nat) (rest : List Interval) :
    cut sourceEnd cursor ((excludedStart, excludedEnd) :: rest) =
      if excludedStart ≤ sourceEnd then
        (if cursor < excludedStart then [(cursor, excludedStart - 1)] else []) ++
          cutAfter sourceEnd cursor excludedEnd rest
      else if cursor ≤ sourceEnd then [(cursor, sourceEnd)]
      else [] :=
  rfl

theorem covers_cutAfter (small : sourceEnd ≤ addressMax)
    (cuts : ∀ cursor, Covers (cut sourceEnd cursor rest) point ↔
      (cursor ≤ point ∧ point ≤ sourceEnd) ∧ ¬ Covers rest point) :
    Covers (cutAfter sourceEnd cursor excludedEnd rest) point ↔
      (max cursor (excludedEnd + 1) ≤ point ∧ point ≤ sourceEnd) ∧ ¬ Covers rest point := by
  unfold cutAfter
  split
  · rename_i overflows
    have last : addressMax < excludedEnd + 1 := by
      by_contra fits
      unfold checkedAdd at overflows
      rw [if_pos (Nat.le_of_not_lt fits)] at overflows
      cases overflows
    grind [covers_nil]
  · rename_i next found
    obtain ⟨rfl, _⟩ := checkedAdd_eq_some_iff.mp found
    split
    · grind [covers_nil]
    · exact cuts _

theorem covers_cut (small : sourceEnd ≤ addressMax) (spaced : Spaced 0 exclusions) (point : Nat) :
    Covers (cut sourceEnd cursor exclusions) point ↔
      (cursor ≤ point ∧ point ≤ sourceEnd) ∧ ¬ Covers exclusions point := by
  induction exclusions generalizing cursor with
  | nil =>
    rw [cut]
    split
    · simp
    · simp
      omega
  | cons excluded rest induction =>
    obtain ⟨excludedStart, excludedEnd⟩ := excluded
    obtain ⟨valid, before, others⟩ := spaced_cons.mp spaced
    have later := @lt_of_covers _ rest point before
    have piece : Covers (if cursor < excludedStart then
        [(cursor, excludedStart - 1)] else []) point ↔ cursor ≤ point ∧ point < excludedStart := by
      split
      · simp
        omega
      · simp
        omega
    simp only at valid later
    rw [cut_cons, covers_cons]
    split
    · rw [covers_append, piece, covers_cutAfter small fun cursor => induction others]
      grind
    · split
      · simp only [covers_cons]
        grind [covers_nil]
      · grind [covers_nil]

theorem spaced_cut {sourceEnd cursor : Nat} {exclusions : List Interval}
    (spaced : Spaced 0 exclusions) :
    Spaced 0 (cut sourceEnd cursor exclusions) ∧ ∀ interval ∈ cut sourceEnd cursor exclusions,
        cursor ≤ interval.1 ∧ interval.2 ≤ sourceEnd := by
  have whole : ∀ cursor, Spaced 0 (if cursor ≤ sourceEnd then
      [(cursor, sourceEnd)] else []) ∧
        ∀ interval ∈ (if cursor ≤ sourceEnd then [(cursor, sourceEnd)] else []),
          cursor ≤ interval.1 ∧ interval.2 ≤ sourceEnd := by
    intro cursor
    split
    · exact ⟨spaced_singleton ‹_›, by simp⟩
    · exact ⟨spaced_nil 0, by simp⟩
  induction exclusions generalizing cursor with
  | nil => exact whole cursor
  | cons excluded rest induction =>
    obtain ⟨excludedStart, excludedEnd⟩ := excluded
    obtain ⟨valid, _, others⟩ := spaced_cons.mp spaced
    rw [cut_cons]
    split
    · rename_i inside
      have later : Spaced 0 (cutAfter sourceEnd cursor excludedEnd rest) ∧
          ∀ interval ∈ cutAfter sourceEnd cursor excludedEnd rest,
            (cursor ≤ interval.1 ∧ interval.2 ≤ sourceEnd) ∧ excludedStart < interval.1 := by
        unfold cutAfter
        split
        · exact ⟨spaced_nil 0, by simp⟩
        · rename_i next found
          obtain ⟨after, _⟩ := checkedAdd_eq_some_iff.mp found
          split
          · exact ⟨spaced_nil 0, by simp⟩
          · obtain ⟨spaced, bounds⟩ := @induction (max cursor next) others
            refine ⟨spaced, fun interval member => ?_⟩
            have bound := bounds interval member
            simp only at valid
            omega
      split
      · rename_i before
        refine ⟨spaced_cons.mpr ⟨by simp only; omega, fun interval member => ?_,
          later.1⟩, List.forall_mem_cons.mpr ⟨by simp only; omega,
            fun interval member => (later.2 interval member).1⟩⟩
        have bound := (later.2 interval member).2
        simp only
        omega
      · exact ⟨later.1, fun interval member => (later.2 interval member).1⟩
    · exact whole cursor

theorem covers_dropWhile {exclusions : List Interval} {start point : Nat} (after : start ≤ point) :
    Covers (exclusions.dropWhile fun excluded => excluded.2 < start) point ↔
      Covers exclusions point := by
  induction exclusions with
  | nil => rfl
  | cons excluded rest induction =>
    rw [List.dropWhile_cons]
    split
    · rename_i before
      rw [decide_eq_true_iff] at before
      rw [induction, covers_cons]
      constructor
      · exact .inr
      · rintro (here | covered)
        · omega
        · exact covered
    · rfl

theorem covers_subtract (inRange : InRange sources) (sorted : Spaced 0 sources)
    (spaced : Spaced 0 exclusions) (point : Nat) :
    Covers (subtract sources exclusions) point ↔
      Covers sources point ∧ ¬ Covers exclusions point := by
  induction sources generalizing exclusions with
  | nil => simp [subtract]
  | cons source sources induction =>
    obtain ⟨here, others⟩ := List.forall_mem_cons.mp inRange
    obtain ⟨_, before, rest⟩ := spaced_cons.mp sorted
    have dropped := spaced.dropWhile fun excluded =>
      decide (excluded.2 < source.1)
    have later := @lt_of_covers _ sources point before
    have same := @covers_dropWhile exclusions source.1 point
    rw [subtract, covers_append, covers_cut here.2 dropped,
      induction others rest dropped, covers_cons]
    constructor
    · rintro (⟨⟨starts, ends⟩, outside⟩ | ⟨covers, outside⟩)
      · exact ⟨.inl ⟨starts, ends⟩, mt (same starts).mpr outside⟩
      · have after := later covers
        exact ⟨.inr covers, mt (same (by omega)).mpr outside⟩
    · rintro ⟨⟨starts, ends⟩ | covers, outside⟩
      · exact .inl ⟨⟨starts, ends⟩, mt (same starts).mp outside⟩
      · have after := later covers
        exact .inr ⟨covers, mt (same (by omega)).mp outside⟩

theorem spaced_subtract (sorted : Spaced 0 sources) (spaced : Spaced 0 exclusions) :
    Spaced 0 (subtract sources exclusions) ∧
      ∀ interval ∈ subtract sources exclusions, ∃ source ∈ sources,
        source.1 ≤ interval.1 ∧ interval.2 ≤ source.2 := by
  induction sources generalizing exclusions with
  | nil => exact ⟨spaced_nil 0, by simp [subtract]⟩
  | cons source sources induction =>
    obtain ⟨_, before, rest⟩ := spaced_cons.mp sorted
    have dropped := spaced.dropWhile fun excluded =>
      decide (excluded.2 < source.1)
    obtain ⟨pieces, bounds⟩ :=
      @spaced_cut source.2 source.1 _ dropped
    obtain ⟨others, within⟩ := induction rest dropped
    rw [subtract]
    refine ⟨spaced_append pieces others ?_, ?_⟩
    · intro piece member other alsoMember
      obtain ⟨later, found, starts, _⟩ := within other alsoMember
      have ends := (bounds piece member).2
      have after := before later found
      omega
    · rw [List.forall_mem_append]
      refine ⟨fun piece member => ⟨source, List.mem_cons_self,
        bounds piece member⟩, fun other member => ?_⟩
      obtain ⟨later, found, bounds⟩ := within other member
      exact ⟨later, List.mem_cons_of_mem source found, bounds⟩

theorem subtract_eq_nil_iff (inRange : InRange sources) (sorted : Spaced 0 sources)
    (spaced : Spaced 0 exclusions) :
    subtract sources exclusions = [] ↔ ∀ point, Covers sources point → Covers exclusions point := by
  have covers := covers_subtract inRange sorted spaced
  constructor
  · intro empty point covered
    by_contra outside
    have left := (covers point).mpr ⟨covered, outside⟩
    rw [empty] at left
    exact covers_nil point left
  · intro within
    cases found : subtract sources exclusions with
    | nil => rfl
    | cons interval rest =>
      have valid := (spaced_subtract sorted spaced).1.valid interval (found ▸ List.mem_cons_self)
      have left := (covers interval.1).mp (found ▸ covers_first valid)
      exact absurd (within _ left.1) left.2

end Nvx.Host.Egress
