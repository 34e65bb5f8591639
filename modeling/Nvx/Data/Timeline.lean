import Mathlib.Data.Set.Basic
import Nvx.Data.Intervals

namespace Nvx.Data

/-! What is open while a sweep passes over the naturals, and the runs over which
it stays open. -/

variable {Item State : Type} (step : State → Set Item → Set Item) (states : Nat → State)

/-- What is open after the sweep has passed the times before `time`. -/
def openBefore : Nat → Set Item
  | 0 => ∅
  | time + 1 => step (states time) (openBefore time)

variable {step states}

/-- Over times in one state, a step that changes nothing more is made once. -/
theorem openBefore_segment (settles : step state (step state (openBefore step states start)) =
      step state (openBefore step states start))
    (after : start < time)
    (constant : ∀ point, start ≤ point → point < time → states point = state) :
    openBefore step states time = step state (openBefore step states start) := by
  induction time, after using Nat.le_induction with
  | base => rw [openBefore, constant start (Nat.le_refl start) (Nat.lt_succ_self _)]
  | succ time after induction =>
    rw [openBefore, constant time (Nat.le_of_lt after) (Nat.lt_succ_self time),
      induction fun point notBefore before =>
        constant point notBefore (Nat.lt_succ_of_lt before), settles]

/-- The longest runs of times before `time` at which something is open. -/
structure IsRuns (isOpen : Nat → Prop) (time : Nat) (runs : List Interval) : Prop where
  spaced : Spaced 1 runs
  covers : ∀ point, Covers runs point ↔ point < time ∧ isOpen point

namespace IsRuns

theorem zero (isOpen : Nat → Prop) : IsRuns isOpen 0 [] :=
  ⟨spaced_nil 1, by simp⟩

theorem unique (isRuns : IsRuns isOpen time runs)
    (alsoRuns : IsRuns isOpen time others) : runs = others := by
  apply isRuns.spaced.ext alsoRuns.spaced
  intro point
  rw [isRuns.covers, alsoRuns.covers]

theorem ends_before (isRuns : IsRuns isOpen time runs)
    (member : run ∈ runs) : run.2 < time ∧ isOpen run.2 :=
  (isRuns.covers run.2).mp ⟨run, member, isRuns.spaced.valid run member, Nat.le_refl _⟩

theorem idle (isRuns : IsRuns isOpen start runs) (after : start ≤ time)
    (closed : ∀ point, start ≤ point → point < time → ¬ isOpen point) :
    IsRuns isOpen time runs := by
  refine ⟨isRuns.spaced, fun point => ?_⟩
  rw [isRuns.covers]
  constructor
  · rintro ⟨before, opened⟩
    exact ⟨by omega, opened⟩
  · rintro ⟨before, opened⟩
    by_cases early : point < start
    · exact ⟨early, opened⟩
    · exact absurd opened (closed point (by omega) before)

theorem started (isRuns : IsRuns isOpen start runs) (after : start < time)
    (closed : ∀ point, point + 1 = start → ¬ isOpen point)
    (opened : ∀ point, start ≤ point → point < time → isOpen point) :
    IsRuns isOpen time (runs ++ [(start, time - 1)]) := by
  constructor
  · apply spaced_append isRuns.spaced (spaced_singleton (by simp only; omega))
    intro earlier member later last
    obtain rfl := List.mem_singleton.mp last
    obtain ⟨before, stillOpen⟩ := isRuns.ends_before member
    have notNow : earlier.2 + 1 ≠ start := fun now => closed _ now stillOpen
    simp only
    omega
  · intro point
    simp only [covers_append, covers_cons, covers_nil, or_false, isRuns.covers]
    constructor
    · rintro (⟨before, isOpen⟩ | ⟨starts, ends⟩)
      · exact ⟨by omega, isOpen⟩
      · exact ⟨by omega, opened point starts (by omega)⟩
    · rintro ⟨before, isOpen⟩
      by_cases early : point < start
      · exact .inl ⟨early, isOpen⟩
      · exact .inr ⟨by omega, by omega⟩

theorem extend (isRuns : IsRuns isOpen start runs) (after : start < time)
    (wasOpen : ∃ point, point + 1 = start ∧ isOpen point)
    (opened : ∀ point, start ≤ point → point < time → isOpen point) :
    ∃ run, runs.getLast? = some run ∧
      IsRuns isOpen time (runs.dropLast ++ [(run.1, time - 1)]) := by
  obtain ⟨latest, now, stillOpen⟩ := wasOpen
  obtain ⟨inside, member, starts, ends⟩ :=
    (isRuns.covers latest).mpr ⟨by omega, stillOpen⟩
  have nonempty : runs ≠ [] := List.ne_nil_of_mem member
  obtain ⟨earlier, run, rfl⟩ :=
    List.eq_nil_or_concat runs |>.resolve_left nonempty
  rw [List.concat_eq_append] at isRuns member nonempty ⊢
  obtain ⟨apart, _, cross⟩ := List.pairwise_append.mp isRuns.spaced.apart
  obtain ⟨validEarlier, validRun⟩ := List.forall_mem_append.mp isRuns.spaced.valid
  have last : run ∈ [run] := List.mem_singleton_self run
  have valid := validRun run last
  -- The run that holds the latest time is the last one.
  have ending : run.2 = latest := by
    have before := (isRuns.ends_before (List.mem_append_right earlier last)).1
    rcases List.mem_append.mp member with early | here
    · have apart := cross inside early run last
      omega
    · obtain rfl := List.mem_singleton.mp here
      omega
  refine ⟨run, by simp, ?_, fun point => ?_⟩
  · rw [List.dropLast_concat]
    apply spaced_append ⟨validEarlier, apart⟩ (spaced_singleton (by simp only; omega))
    intro one early other same
    obtain rfl := List.mem_singleton.mp same
    exact cross one early run last
  · rw [List.dropLast_concat]
    have before := isRuns.covers point
    simp only [covers_append, covers_cons, covers_nil, or_false] at before ⊢
    constructor
    · rintro (early | ⟨starts, ends⟩)
      · obtain ⟨early, isOpen⟩ := before.mp (.inl early)
        exact ⟨by omega, isOpen⟩
      · by_cases early : point < start
        · exact ⟨by omega, (before.mp (.inr ⟨starts, by omega⟩)).2⟩
        · exact ⟨by omega, opened point (by omega) (by omega)⟩
    · rintro ⟨inTime, isOpen⟩
      by_cases early : point < start
      · rcases before.mpr ⟨early, isOpen⟩ with covered | ⟨starts, ends⟩
        · exact .inl covered
        · exact .inr ⟨starts, by omega⟩
      · exact .inr ⟨by omega, by omega⟩

end IsRuns

end Nvx.Data
