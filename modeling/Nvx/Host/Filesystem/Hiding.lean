import Nvx.Host.Filesystem.Policy

namespace Nvx.Host.Filesystem

open Nvx.Data
open Nvx.UnixPath

/-! Which paths the denied paths hide. -/

/-- The rule is at or above `path`, and above it unless `inclusive`. -/
def Covers (inclusive : Bool) (rule path : Path) : Prop :=
  (inclusive = true ∨ rule ≠ path) ∧ rule <+: path

/-- A denied path covers `path`, below every allowed one that does. -/
def Hidden (denied allowed : List Path) (inclusive : Bool) (path : Path) : Prop :=
  ∃ rule ∈ denied, Covers inclusive rule path ∧
    ∀ shown ∈ allowed, Covers inclusive shown path → shown.length < rule.length

theorem mem_covering_iff {paths : List Path} {isDenied : Bool} :
    rule ∈ ((paths.map (·, isDenied)).filter fun rule =>
        (inclusive || rule.1 ≠ path) && path.startsWith rule.1) ↔
      rule.1 ∈ paths ∧ rule.2 = isDenied ∧ Covers inclusive rule.1 path := by
  obtain ⟨rule, flag⟩ := rule
  simp only [List.mem_filter, List.mem_map, Prod.mk.injEq, Bool.and_eq_true,
    Bool.or_eq_true, decide_eq_true_eq, Path.startsWith, Covers]
  constructor
  · rintro ⟨⟨_, member, rfl, rfl⟩, covers⟩
    exact ⟨member, rfl, covers⟩
  · rintro ⟨member, rfl, covers⟩
    exact ⟨⟨rule, member, rfl, rfl⟩, covers⟩

/-- The nearest rule covers the path, and is no shorter than any other that
does. -/
theorem nearestRule_eq_some
    (found : nearestRule path denied allowed inclusive = some (rule, isDenied)) :
    Covers inclusive rule path ∧ (∀ other ∈ denied, Covers inclusive other path →
        other.length ≤ rule.length) ∧
      (isDenied = true ∧ rule ∈ denied ∧ (∀ shown ∈ allowed,
          Covers inclusive shown path → shown.length < rule.length) ∨
        isDenied = false ∧ rule ∈ allowed) := by
  unfold nearestRule at found
  rw [List.filter_append] at found
  obtain ⟨longest, place⟩ := lastMax_append_eq_some found
  have noShorter : ∀ other ∈ denied, Covers inclusive other path →
      other.length ≤ rule.length := fun other member covers =>
    longest (other, true) (mem_covering_iff.mpr ⟨member, rfl, covers⟩)
  rcases place with ⟨isRule, longer⟩ | ⟨isRule, _⟩
  · obtain ⟨member, flag, covers⟩ := mem_covering_iff.mp isRule
    refine ⟨covers, noShorter, .inl ⟨flag, member, ?_⟩⟩
    exact fun shown isShown covers =>
      longer (shown, false) (mem_covering_iff.mpr ⟨isShown, rfl, covers⟩)
  · obtain ⟨member, flag, covers⟩ := mem_covering_iff.mp isRule
    exact ⟨covers, noShorter, .inr ⟨flag, member⟩⟩

theorem hidingRule_eq_some (found : hidingRule path denied allowed inclusive = some rule) :
    rule ∈ denied ∧ Covers inclusive rule path ∧ (∀ other ∈ denied, Covers inclusive other path →
        other.length ≤ rule.length) ∧
      ∀ shown ∈ allowed, Covers inclusive shown path → shown.length < rule.length := by
  unfold hidingRule at found
  split at found
  case h_2 => cases found
  case h_1 other nearest =>
    obtain rfl := Option.some.inj found
    obtain ⟨covers, longest, ⟨_, member, longer⟩ | ⟨isAllowed, _⟩⟩ :=
      nearestRule_eq_some nearest
    · exact ⟨member, covers, longest, longer⟩
    · cases isAllowed

theorem isSome_hidingRule_iff : (hidingRule path denied allowed inclusive).isSome ↔
      Hidden denied allowed inclusive path := by
  constructor
  · intro isSome
    obtain ⟨rule, found⟩ := Option.isSome_iff_exists.mp isSome
    obtain ⟨member, covers, _, longer⟩ := hidingRule_eq_some found
    exact ⟨rule, member, covers, longer⟩
  · rintro ⟨rule, member, covers, longer⟩
    cases nearest : nearestRule path denied allowed inclusive with
    | none =>
      unfold nearestRule at nearest
      rw [lastMax_eq_none_iff, List.filter_append, List.append_eq_nil_iff] at nearest
      have isRule := mem_covering_iff.mpr
        ⟨member, (rfl : ((rule, true) : Path × Bool).2 = true), covers⟩
      rw [nearest.1] at isRule
      exact absurd isRule List.not_mem_nil
    | some found =>
      obtain ⟨found, isDenied⟩ := found
      obtain ⟨foundCovers, longest, ⟨rfl, _⟩ | ⟨rfl, isAllowed⟩⟩ :=
        nearestRule_eq_some nearest
      · rw [hidingRule, nearest]
        rfl
      · exact absurd (longer found isAllowed foundCovers)
          (Nat.not_lt.mpr (longest rule member covers))

theorem hidingRule_eq_none_iff : hidingRule path denied allowed inclusive = none ↔
      ¬ Hidden denied allowed inclusive path := by
  rw [← isSome_hidingRule_iff, Option.not_isSome_iff_eq_none]

theorem Hidden.congr (hidden : Hidden denied allowed inclusive path)
    (fewerShown : ∀ shown ∈ otherAllowed, shown ∈ allowed)
    (moreDenied : ∀ rule ∈ denied, rule ∈ otherDenied) :
    Hidden otherDenied otherAllowed inclusive path := by
  obtain ⟨rule, member, covers, longer⟩ := hidden
  exact ⟨rule, moreDenied rule member, covers,
    fun shown isShown => longer shown (fewerShown shown isShown)⟩

theorem hidden_neededDeniedPaths_iff :
    Hidden (neededDeniedPaths denied allowed) allowed inclusive path ↔
      Hidden denied allowed inclusive path := by
  have needed : ∀ rule, rule ∈ neededDeniedPaths denied allowed ↔
      rule ∈ denied ∧ ¬ Hidden denied allowed false rule := by
    intro rule
    rw [neededDeniedPaths, mem_sorted, List.mem_filter, Option.isNone_iff_eq_none,
      hidingRule_eq_none_iff]
  constructor
  · intro hidden
    exact hidden.congr (fun _ => id) fun rule member => ((needed rule).mp member).1
  · rintro ⟨rule, member, covers, longer⟩
    -- the shortest denied path that hides `path` is hidden by no other
    induction length : rule.length using Nat.strong_induction_on generalizing rule with
    | _ length induction =>
      by_cases already : Hidden denied allowed false rule
      · obtain ⟨outer, isOuter, ⟨different, above⟩, outerLonger⟩ := already
        have differs : outer ≠ rule := different.resolve_left Bool.false_ne_true
        have shorter : outer.length < rule.length :=
          Nat.lt_of_le_of_ne above.length_le fun same =>
            differs (above.eq_of_length same)
        refine induction outer.length (length ▸ shorter) outer isOuter ?_ ?_ rfl
        · refine ⟨covers.1.imp_right fun _ same => ?_, above.trans covers.2⟩
          have := covers.2.length_le
          rw [same] at shorter
          omega
        · intro shown isShown shownCovers
          have less := longer shown isShown shownCovers
          refine outerLonger shown isShown ⟨.inr fun same => ?_, ?_⟩
          · rw [same] at less
            exact Nat.lt_irrefl _ less
          · exact List.prefix_of_prefix_length_le shownCovers.2 covers.2 less.le
      · exact ⟨rule, (needed rule).mpr ⟨member, already⟩, covers, longer⟩

end Nvx.Host.Filesystem
