import Mathlib.Algebra.Order.BigOperators.Ring.Finset

namespace Nvx.Data

/-! The greatest of a list by a key, the last of several. -/

def lastMax (key : Item → Nat) : List Item → Option Item
  | [] => none
  | item :: rest =>
    match lastMax key rest with
    | none => some item
    | some other => if key other < key item then some item else some other

theorem lastMax_eq_none_iff {key : Item → Nat} : lastMax key items = none ↔ items = [] := by
  cases items with
  | nil => simp [lastMax]
  | cons item rest =>
    simp only [lastMax, reduceCtorEq, iff_false]
    cases lastMax key rest with
    | none => exact Option.some_ne_none _
    | some other =>
      dsimp only
      split <;> exact Option.some_ne_none _

/-- The items before the one found have no greater key, and those after it have
a smaller one. -/
theorem lastMax_eq_some {found : Item} (isMax : lastMax key items = some found) :
    ∃ before after, items = before ++ found :: after ∧ (∀ item ∈ before, key item ≤ key found) ∧
      ∀ item ∈ after, key item < key found := by
  induction items generalizing found with
  | nil => cases isMax
  | cons item rest induction =>
    simp only [lastMax] at isMax
    cases others : lastMax key rest with
    | none =>
      rw [others] at isMax
      obtain rfl := Option.some.inj isMax
      obtain rfl := lastMax_eq_none_iff.mp others
      exact ⟨[], [], rfl, by simp, by simp⟩
    | some other =>
      rw [others] at isMax
      dsimp only at isMax
      obtain ⟨before, after, rfl, smaller, less⟩ := induction others
      split at isMax
      case isTrue greater =>
        obtain rfl := Option.some.inj isMax
        refine ⟨[], _, rfl, by simp, fun next member => ?_⟩
        rcases List.mem_append.mp member with earlier | later
        · exact Nat.lt_of_le_of_lt (smaller next earlier) greater
        · rcases List.mem_cons.mp later with rfl | later
          · exact greater
          · exact (less next later).trans greater
      case isFalse notGreater =>
        obtain rfl := Option.some.inj isMax
        refine ⟨item :: before, after, rfl, ?_, less⟩
        exact List.forall_mem_cons.mpr ⟨Nat.le_of_not_lt notGreater, smaller⟩

theorem lastMax_append_eq_some {found : Item} (isMax : lastMax key (first ++ second) = some found) :
    (∀ item ∈ first, key item ≤ key found) ∧
      (found ∈ first ∧ (∀ item ∈ second, key item < key found) ∨
        found ∈ second ∧ ∀ item ∈ second, key item ≤ key found) := by
  obtain ⟨before, after, split, smaller, less⟩ := lastMax_eq_some isMax
  have all : ∀ item ∈ first ++ second, key item ≤ key found := by
    rw [split, List.forall_mem_append, List.forall_mem_cons]
    exact ⟨smaller, Nat.le_refl _, fun item member => (less item member).le⟩
  obtain ⟨inFirst, inSecond⟩ := List.forall_mem_append.mp all
  refine ⟨inFirst, ?_⟩
  rcases List.append_eq_append_iff.mp split with ⟨middle, _, rfl⟩ | ⟨middle, rfl, same⟩
  · exact .inr ⟨by simp, inSecond⟩
  · cases middle with
    | nil =>
      rw [List.nil_append] at same
      exact .inr ⟨same ▸ List.mem_cons_self, inSecond⟩
    | cons head middle =>
      obtain ⟨rfl, rfl⟩ := List.cons.inj same
      exact .inl ⟨by simp, fun item member =>
        less item (List.mem_append_right middle member)⟩

def dedupAdjacent [DecidableEq Item] : List Item → List Item
  | first :: second :: rest =>
    if first = second then dedupAdjacent (second :: rest)
    else first :: dedupAdjacent (second :: rest)
  | items => items

section

variable [DecidableEq Item]

@[simp] theorem mem_dedupAdjacent {items : List Item} {item : Item} :
    item ∈ dedupAdjacent items ↔ item ∈ items := by
  fun_induction dedupAdjacent items with
  | case1 second rest induction =>
    rw [induction]
    simp
  | case2 first second rest different induction =>
    rw [List.mem_cons, induction, ← List.mem_cons]
  | case3 => rfl

end

variable [LinearOrder Item]

def sorted (paths : List (List Item)) : List (List Item) :=
  paths.mergeSort fun first second => decide (first ≤ second)

@[simp] theorem mem_sorted {paths : List (List Item)} {path : List Item} :
    path ∈ sorted paths ↔ path ∈ paths :=
  (List.mergeSort_perm _ _).mem_iff

def outermost (paths : List (List Item)) : List (List Item) :=
  let paths := dedupAdjacent (sorted paths)
  paths.filter fun path => !paths.any fun other => other ≠ path && other <+: path

theorem mem_outermost {paths : List (List Item)} {path : List Item} : path ∈ outermost paths ↔
      path ∈ paths ∧ ∀ other ∈ paths, other <+: path → other = path := by
  simp only [outermost, List.mem_filter, mem_dedupAdjacent, mem_sorted,
    Bool.not_eq_true', List.any_eq_false, Bool.and_eq_true, decide_eq_true_eq,
    not_and]
  refine and_congr_right fun _ => forall₂_congr fun other _ => ?_
  exact ⟨fun apart inside => not_not.mp fun different => apart different inside,
    fun same different inside => different (same inside)⟩

theorem exists_outermost {paths : List (List Item)} {path : List Item}
    (member : path ∈ paths) : ∃ other ∈ outermost paths, other <+: path := by
  induction length : path.length using Nat.strong_induction_on generalizing path with
  | _ length induction =>
    by_cases outer : ∀ other ∈ paths, other <+: path → other = path
    · exact ⟨path, mem_outermost.mpr ⟨member, outer⟩, List.prefix_rfl⟩
    · push Not at outer
      obtain ⟨other, isPath, inside, different⟩ := outer
      have shorter : other.length < path.length :=
        Nat.lt_of_le_of_ne inside.length_le fun same =>
          different (inside.eq_of_length same)
      obtain ⟨found, isOutermost, within⟩ :=
        induction other.length (length ▸ shorter) isPath rfl
      exact ⟨found, isOutermost, within.trans inside⟩

theorem outermost_eq_nil_iff {paths : List (List Item)} : outermost paths = [] ↔ paths = [] := by
  constructor
  · intro none
    rw [List.eq_nil_iff_forall_not_mem]
    intro path member
    obtain ⟨other, isOutermost, _⟩ := exists_outermost member
    rw [none] at isOutermost
    exact List.not_mem_nil isOutermost
  · rintro rfl
    rw [List.eq_nil_iff_forall_not_mem]
    exact fun path member => List.not_mem_nil (mem_outermost.mp member).1

theorem exists_outermost_iff {paths : List (List Item)} {path : List Item} :
    (∃ other ∈ outermost paths, other <+: path) ↔ ∃ other ∈ paths, other <+: path := by
  constructor
  · rintro ⟨other, isOutermost, above⟩
    exact ⟨other, (mem_outermost.mp isOutermost).1, above⟩
  · rintro ⟨other, member, above⟩
    obtain ⟨outer, isOutermost, isOver⟩ := exists_outermost member
    exact ⟨outer, isOutermost, isOver.trans above⟩

theorem outermost_unique {paths : List (List Item)}
    {first second path : List Item} (isFirst : first ∈ outermost paths)
    (isSecond : second ∈ outermost paths) (within : first <+: path)
    (inside : second <+: path) : first = second := by
  obtain ⟨firstMember, firstOuter⟩ := mem_outermost.mp isFirst
  obtain ⟨secondMember, secondOuter⟩ := mem_outermost.mp isSecond
  rcases List.prefix_or_prefix_of_prefix within inside with before | after
  · exact secondOuter first firstMember before
  · exact (firstOuter second secondMember after).symm

end Nvx.Data
