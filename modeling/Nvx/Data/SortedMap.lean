import Mathlib.Algebra.Order.BigOperators.Ring.Finset

namespace Nvx.Data

/-! Maps from ordered keys to lists, as the entries in the order of their keys. -/

variable {Key Value : Type} [LinearOrder Key]

def valuesAt (map : List (Key × List Value)) (key : Key) : List Value :=
  match map with
  | [] => []
  | (other, values) :: rest => if key = other then values else valuesAt rest key

def pushAt (key : Key) (value : Value) : List (Key × List Value) → List (Key × List Value)
  | [] => [(key, [value])]
  | (other, values) :: rest =>
    if key < other then (key, [value]) :: (other, values) :: rest
    else if key = other then (other, values ++ [value]) :: rest
    else (other, values) :: pushAt key value rest

def modifyLastAt (key : Key) (change : Value → Value) :
    List (Key × List Value) → Option (List (Key × List Value))
  | [] => none
  | (other, values) :: rest =>
    if key = other then
      match values.getLast? with
      | none => none
      | some last =>
        some ((other, values.dropLast ++ [change last]) :: rest)
    else (modifyLastAt key change rest).map ((other, values) :: ·)

structure IsMap (map : List (Key × List Value)) : Prop where
  ascending : map.Pairwise fun first second => first.1 < second.1
  nonempty : ∀ entry ∈ map, entry.2 ≠ []

theorem valuesAt_eq_nil {map : List (Key × List Value)} {key : Key}
    (absent : ∀ entry ∈ map, entry.1 ≠ key) : valuesAt map key = [] := by
  induction map with
  | nil => rfl
  | cons entry rest induction =>
    obtain ⟨here, later⟩ := List.forall_mem_cons.mp absent
    rw [valuesAt, if_neg (Ne.symm here)]
    exact induction later

theorem isMap_nil : IsMap ([] : List (Key × List Value)) :=
  ⟨.nil, by simp⟩

theorem isMap_cons {entry : Key × List Value} {rest : List (Key × List Value)} :
    IsMap (entry :: rest) ↔ entry.2 ≠ [] ∧ (∀ later ∈ rest, entry.1 < later.1) ∧ IsMap rest := by
  constructor
  · rintro ⟨ascending, nonempty⟩
    obtain ⟨before, others⟩ := List.pairwise_cons.mp ascending
    obtain ⟨here, later⟩ := List.forall_mem_cons.mp nonempty
    exact ⟨here, before, others, later⟩
  · rintro ⟨here, before, ascending, nonempty⟩
    exact ⟨List.pairwise_cons.mpr ⟨before, ascending⟩, List.forall_mem_cons.mpr ⟨here, nonempty⟩⟩

theorem mem_iff_valuesAt {map : List (Key × List Value)} (isMap : IsMap map)
    {key : Key} {values : List Value} :
    (key, values) ∈ map ↔ values ≠ [] ∧ valuesAt map key = values := by
  induction map with
  | nil => simp [valuesAt]
  | cons entry rest induction =>
    obtain ⟨here, before, others⟩ := isMap_cons.mp isMap
    rw [List.mem_cons, induction others, valuesAt]
    split
    · rename_i same
      have absent : valuesAt rest key = [] := valuesAt_eq_nil
        fun later member => same ▸ ne_of_gt (before later member)
      rw [absent]
      constructor
      · rintro (rfl | ⟨nonempty, rfl⟩)
        · exact ⟨here, rfl⟩
        · exact absurd rfl nonempty
      · rintro ⟨_, rfl⟩
        exact .inl (Prod.ext same rfl)
    · rename_i other
      constructor
      · rintro (rfl | found)
        · exact absurd rfl other
        · exact found
      · exact .inr

theorem IsMap.ext {first second : List (Key × List Value)} (isMap : IsMap first)
    (alsoMap : IsMap second) (same : ∀ key, valuesAt first key = valuesAt second key) :
    first = second := by
  have members : ∀ entry, entry ∈ first ↔ entry ∈ second := by
    rintro ⟨key, values⟩
    rw [mem_iff_valuesAt isMap, mem_iff_valuesAt alsoMap, same]
  have antisymm : Std.Antisymm fun first second : Key × List Value =>
      first.1 < second.1 :=
    ⟨fun _ _ before after => absurd after (lt_asymm before)⟩
  have irrefl : Std.Irrefl fun first second : Key × List Value =>
      first.1 < second.1 := ⟨fun _ => lt_irrefl _⟩
  exact isMap.ascending.eq_of_mem_iff alsoMap.ascending members

theorem forall_key_pushAt {p : Key → Prop} {key : Key} {value : Value}
    {map : List (Key × List Value)} (here : p key) (others : ∀ entry ∈ map, p entry.1) :
    ∀ entry ∈ pushAt key value map, p entry.1 := by
  induction map with
  | nil => simpa [pushAt] using here
  | cons other rest induction =>
    obtain ⟨first, later⟩ := List.forall_mem_cons.mp others
    rw [pushAt]
    split
    · exact List.forall_mem_cons.mpr ⟨here, others⟩
    · split
      · exact List.forall_mem_cons.mpr ⟨first, later⟩
      · exact List.forall_mem_cons.mpr ⟨first, induction later⟩

theorem isMap_pushAt {map : List (Key × List Value)} (isMap : IsMap map)
    (key : Key) (value : Value) : IsMap (pushAt key value map) := by
  induction map with
  | nil => exact isMap_cons.mpr ⟨by simp, by simp, isMap_nil⟩
  | cons entry rest induction =>
    obtain ⟨here, before, others⟩ := isMap_cons.mp isMap
    rw [pushAt]
    split
    · rename_i first
      refine isMap_cons.mpr ⟨by simp, ?_, isMap⟩
      exact List.forall_mem_cons.mpr ⟨first, fun later member => first.trans (before later member)⟩
    · split
      · exact isMap_cons.mpr ⟨by simp, before, others⟩
      · rename_i notFirst notSame
        have after : entry.1 < key :=
          lt_of_le_of_ne (not_lt.mp notFirst) (Ne.symm notSame)
        exact isMap_cons.mpr ⟨here, forall_key_pushAt after before, induction others⟩

theorem valuesAt_pushAt {map : List (Key × List Value)} (isMap : IsMap map)
    (key other : Key) (value : Value) :
    valuesAt (pushAt key value map) other =
      if other = key then valuesAt map key ++ [value] else valuesAt map other := by
  induction map with
  | nil => simp [pushAt, valuesAt]
  | cons entry rest induction =>
    obtain ⟨here, before, others⟩ := isMap_cons.mp isMap
    rw [pushAt]
    split
    · rename_i first
      have absent : valuesAt (entry :: rest) key = [] := by
        apply valuesAt_eq_nil
        exact List.forall_mem_cons.mpr ⟨ne_of_gt first,
          fun later member => ne_of_gt (first.trans (before later member))⟩
      rw [absent, valuesAt]
      rfl
    · split
      · rename_i same
        subst same
        simp only [valuesAt]
        split <;> simp
      · rename_i notSame
        simp only [valuesAt, induction others, if_neg notSame]
        split
        · rename_i same
          rw [if_neg (same ▸ Ne.symm notSame)]
        · rfl

theorem modifyLastAt_spec {map : List (Key × List Value)} (isMap : IsMap map)
    {key : Key} (change : Value → Value) {last : Value}
    (found : (valuesAt map key).getLast? = some last) :
    ∃ changed, modifyLastAt key change map = some changed ∧ IsMap changed ∧
      changed.map Prod.fst = map.map Prod.fst ∧
      ∀ other, valuesAt changed other =
        if other = key then (valuesAt map key).dropLast ++ [change last]
        else valuesAt map other := by
  induction map with
  | nil => cases found
  | cons entry rest induction =>
    obtain ⟨here, before, others⟩ := isMap_cons.mp isMap
    rw [valuesAt] at found
    rw [modifyLastAt]
    split at found
    · rename_i same
      subst same
      rw [if_pos rfl, found]
      refine ⟨_, rfl, isMap_cons.mpr ⟨by simp, before, others⟩, rfl,
        fun other => ?_⟩
      simp only [valuesAt]
      split <;> simp
    · rename_i notSame
      obtain ⟨changed, result, alsoMap, keys, values⟩ := induction others found
      rw [if_neg notSame, result]
      refine ⟨_, rfl, isMap_cons.mpr ⟨here, ?_, alsoMap⟩, ?_, fun other => ?_⟩
      · intro later member
        have kept : later.1 ∈ rest.map Prod.fst :=
          keys ▸ List.mem_map_of_mem member
        obtain ⟨original, present, same⟩ := List.mem_map.mp kept
        exact same ▸ before original present
      · rw [List.map_cons, List.map_cons, keys]
      · simp only [valuesAt, values, if_neg notSame]
        split
        · rename_i same
          rw [if_neg (same ▸ Ne.symm notSame)]
        · rfl

def valueCount (map : List (Key × List Value)) : Nat :=
  (map.map fun entry => entry.2.length).sum

theorem valueCount_pushAt (key : Key) (value : Value) (map : List (Key × List Value)) :
    valueCount (pushAt key value map) = valueCount map + 1 := by
  induction map with
  | nil => rfl
  | cons entry rest induction =>
    rw [pushAt]
    split
    · simp only [valueCount, List.map_cons, List.sum_cons, List.length_singleton]
      omega
    · split
      · simp only [valueCount, List.map_cons, List.sum_cons,
          List.length_append, List.length_singleton]
        omega
      · simp only [valueCount, List.map_cons, List.sum_cons] at induction ⊢
        omega

theorem valueCount_modifyLastAt {key : Key} {change : Value → Value}
    {map changed : List (Key × List Value)} (result : modifyLastAt key change map = some changed) :
    valueCount changed = valueCount map := by
  induction map generalizing changed with
  | nil => cases result
  | cons entry rest induction =>
    rw [modifyLastAt] at result
    split at result
    · cases found : entry.2.getLast? with
      | none => simp only [found, reduceCtorEq] at result
      | some last =>
        have nonempty : entry.2 ≠ [] := by
          rintro empty
          simp [empty] at found
        have positive := List.length_pos_of_ne_nil nonempty
        simp only [found, Option.some.injEq] at result
        subst result
        simp only [valueCount, List.map_cons, List.sum_cons,
          List.length_append, List.length_dropLast, List.length_singleton]
        omega
    · obtain ⟨later, found, rfl⟩ := Option.map_eq_some_iff.mp result
      simp only [valueCount, List.map_cons, List.sum_cons] at induction ⊢
      rw [induction found]

end Nvx.Data
