import Mathlib.Algebra.BigOperators.Group.List.Basic
import Nvx.Host.Egress.Lowering

namespace Nvx.Host.Egress

open Nvx.Data

/-! Which address sets are active at a port. -/

def countOf (active : Active) (addresses : AddressSet) : Int :=
  match active with
  | [] => 0
  | (other, count) :: rest =>
    if addresses = other then count else countOf rest addresses

/-- Each set is counted once, and only while its count is not zero. -/
structure Counted (active : Active) : Prop where
  keys : (active.map Prod.fst).Nodup
  nonzero : ∀ entry ∈ active, entry.2 ≠ 0

theorem counted_cons {active : Active} : Counted (entry :: active) ↔
      entry.1 ∉ active.map Prod.fst ∧ entry.2 ≠ 0 ∧ Counted active := by
  constructor
  · rintro ⟨keys, nonzero⟩
    obtain ⟨fresh, keys⟩ := List.nodup_cons.mp keys
    obtain ⟨here, others⟩ := List.forall_mem_cons.mp nonzero
    exact ⟨fresh, here, keys, others⟩
  · rintro ⟨fresh, here, keys, others⟩
    exact ⟨List.nodup_cons.mpr ⟨fresh, keys⟩, List.forall_mem_cons.mpr ⟨here, others⟩⟩

theorem countOf_eq_zero (absent : addresses ∉ active.map Prod.fst) :
    countOf active addresses = 0 := by
  induction active with
  | nil => rfl
  | cons entry rest induction =>
    rw [List.map_cons, List.mem_cons, not_or] at absent
    rw [countOf, if_neg absent.1]
    exact induction absent.2

theorem mem_keys_iff (counted : Counted active) :
    addresses ∈ active.map Prod.fst ↔ countOf active addresses ≠ 0 := by
  induction active with
  | nil => simp [countOf]
  | cons entry rest induction =>
    obtain ⟨_, nonzero, others⟩ := counted_cons.mp counted
    rw [List.map_cons, List.mem_cons, countOf]
    split
    · rename_i same
      exact ⟨fun _ => nonzero, fun _ => .inl same⟩
    · rename_i other
      rw [induction others]
      exact ⟨fun found => found.resolve_left other, .inr⟩

theorem mem_adjust_keys (found : addresses ∈ (adjust active event).map Prod.fst) :
    addresses = event.2 ∨ addresses ∈ active.map Prod.fst := by
  induction active with
  | nil =>
    rw [adjust] at found
    split at found
    · cases found
    · exact .inl (List.mem_singleton.mp found)
  | cons entry rest induction =>
    rw [adjust] at found
    split at found
    · split at found
      · exact .inr (List.mem_cons_of_mem _ found)
      · exact .inr found
    · rcases List.mem_cons.mp found with rfl | later
      · exact .inr List.mem_cons_self
      · exact (induction later).imp_right (List.mem_cons_of_mem _)

theorem Counted.adjust (counted : Counted active)
    (event : Int × AddressSet) : Counted (adjust active event) := by
  induction active with
  | nil =>
    rw [Egress.adjust]
    split
    · exact counted
    · rename_i nonzero
      exact counted_cons.mpr ⟨by simp, nonzero, counted⟩
  | cons entry rest induction =>
    obtain ⟨fresh, nonzero, others⟩ := counted_cons.mp counted
    rw [Egress.adjust]
    split
    · split
      · exact others
      · rename_i remains
        exact counted_cons.mpr ⟨fresh, remains, others⟩
    · rename_i other
      refine counted_cons.mpr ⟨fun found => ?_, nonzero, induction others⟩
      rcases mem_adjust_keys found with same | present
      · exact other same.symm
      · exact fresh present

theorem countOf_adjust (counted : Counted active)
    (event : Int × AddressSet) (addresses : AddressSet) :
    countOf (adjust active event) addresses =
      countOf active addresses + if addresses = event.2 then event.1 else 0 := by
  induction active with
  | nil =>
    rw [adjust]
    split
    · rename_i zero
      rw [Int.zero_add] at zero
      simp [zero]
    · simp [countOf]
  | cons entry rest induction =>
    obtain ⟨fresh, nonzero, others⟩ := counted_cons.mp counted
    rw [adjust]
    split
    · rename_i same
      by_cases here : addresses = event.2
      · subst here
        rw [countOf, if_pos same, if_pos rfl]
        split
        · rename_i zero
          rw [zero, countOf_eq_zero (same ▸ fresh)]
        · rw [countOf, if_pos same]
      · have other : addresses ≠ entry.1 := same ▸ here
        rw [if_neg here, Int.add_zero, countOf, if_neg other]
        split
        · rfl
        · rw [countOf, if_neg other]
    · rename_i other
      rw [countOf, countOf, induction others]
      split
      · rename_i here
        have notSame : addresses ≠ event.2 := by
          rintro rfl
          exact other here
        rw [if_neg notSame, Int.add_zero]
      · rfl

/-- What a boundary's events add to the count of an address set. -/
def total (addresses : AddressSet) (events : List (Int × AddressSet)) : Int :=
  (events.map fun event => if addresses = event.2 then event.1 else 0).sum

theorem foldl_adjust (counted : Counted active) (events : List (Int × AddressSet)) :
    Counted (events.foldl adjust active) ∧
      ∀ addresses, countOf (events.foldl adjust active) addresses =
        countOf active addresses + total addresses events := by
  induction events generalizing active with
  | nil => exact ⟨counted, fun addresses => (Int.add_zero _).symm⟩
  | cons event events induction =>
    obtain ⟨still, counts⟩ := induction (counted.adjust event)
    refine ⟨still, fun addresses => ?_⟩
    rw [List.foldl_cons, counts, countOf_adjust counted, total, total, List.map_cons, List.sum_cons]
    omega

/-- The count of an address set once the events up to a port are seen. -/
def balance (events : Events) (addresses : AddressSet) (port : Nat) : Int :=
  (events.map fun event =>
    if event.1 ≤ port then total addresses event.2 else 0).sum

theorem total_append_singleton (addresses : AddressSet)
    (events : List (Int × AddressSet)) (event : Int × AddressSet) :
    total addresses (events ++ [event]) =
      total addresses events + if addresses = event.2 then event.1 else 0 := by
  simp [total]

theorem balance_pushAt (events : Events) (boundary : Nat)
    (event : Int × AddressSet) (addresses : AddressSet) (port : Nat) :
    balance (pushAt boundary event events) addresses port = balance events addresses port +
        if boundary ≤ port ∧ addresses = event.2 then event.1 else 0 := by
  have alone : (if boundary ≤ port then total addresses [event] else 0) =
      if boundary ≤ port ∧ addresses = event.2 then event.1 else 0 := by
    simp only [total, List.map_cons, List.map_nil, List.sum_cons, List.sum_nil,
      Int.add_zero, ite_and]
  induction events with
  | nil =>
    rw [pushAt, ← alone]
    simp [balance]
  | cons entry rest induction =>
    rw [pushAt]
    split
    · rw [← alone]
      simp only [balance, List.map_cons, List.sum_cons]
      omega
    · split
      · rename_i same
        subst same
        simp only [balance, List.map_cons, List.sum_cons, total_append_singleton, ite_and]
        split <;> omega
      · simp only [balance, List.map_cons, List.sum_cons] at induction ⊢
        omega

/-- The rule is of the protocol, and selects addresses that the covered ones do
not hold. -/
def Swept (protocol : NativeProtocol) (covered : List Interval) (rule : Rule) :
    Prop :=
  rule.protocol = some protocol ∧ rule.addresses ≠ [] ∧ subtract rule.addresses covered ≠ []

instance (protocol : NativeProtocol) (covered : List Interval) (rule : Rule) :
    Decidable (Swept protocol covered rule) :=
  inferInstanceAs (Decidable (_ ∧ _))

theorem addEvents_eq (protocol : NativeProtocol) (covered : List Interval)
    (events : Events) (rule : Rule) :
    addEvents protocol covered events rule =
      match rule.ports with
      | none => events
      | some (start, last) =>
        if Swept protocol covered rule then
          pushAt (last.toNat + 1) (-1, rule.addresses)
            (pushAt start.toNat (1, rule.addresses) events)
        else events := by
  unfold addEvents
  cases rule.ports with
  | none => rfl
  | some range =>
    by_cases other : rule.protocol ≠ some protocol ∨ rule.addresses = []
    · have skipped : ¬ Swept protocol covered rule := fun swept =>
        other.elim (· swept.1) swept.2.1
      simp only [if_pos other, if_neg skipped]
    · obtain ⟨same, nonempty⟩ := not_or.mp other
      by_cases held : subtract rule.addresses covered = []
      · have skipped : ¬ Swept protocol covered rule := fun swept =>
          swept.2.2 held
        simp only [if_neg other, if_pos held, if_neg skipped]
      · have swept : Swept protocol covered rule :=
          ⟨not_not.mp same, nonempty, held⟩
        simp only [if_neg other, if_neg held, if_pos swept]

/-- The rule is swept with the addresses, and its ports hold the port. -/
def IsActive (protocol : NativeProtocol) (covered : List Interval)
    (addresses : AddressSet) (port : Nat) (rule : Rule) : Prop :=
  Swept protocol covered rule ∧ rule.addresses = addresses ∧
    ∃ range ∈ rule.ports, range.1.toNat ≤ port ∧ port ≤ range.2.toNat

instance (protocol : NativeProtocol) (covered : List Interval)
    (addresses : AddressSet) (port : Nat) :
    DecidablePred (IsActive protocol covered addresses port) := fun _ =>
  inferInstanceAs (Decidable (_ ∧ _ ∧ _))

def PortsOrdered (rule : Rule) : Prop :=
  ∀ range ∈ rule.ports, range.1 ≤ range.2

theorem balance_addEvents (ordered : PortsOrdered rule)
    (protocol : NativeProtocol) (covered : List Interval) (events : Events)
    (addresses : AddressSet) (port : Nat) :
    balance (addEvents protocol covered events rule) addresses port =
      balance events addresses port +
        if IsActive protocol covered addresses port rule then 1 else 0 := by
  rw [addEvents_eq]
  cases found : rule.ports with
  | none =>
    have inactive : ¬ IsActive protocol covered addresses port rule := by
      rintro ⟨_, _, range, present, _⟩
      rw [found] at present
      cases present
    simp only [if_neg inactive, Int.add_zero]
  | some range =>
    obtain ⟨start, last⟩ := range
    have le : start.toNat ≤ last.toNat := ordered _ found
    by_cases swept : Swept protocol covered rule
    · have active : IsActive protocol covered addresses port rule ↔
          addresses = rule.addresses ∧ start.toNat ≤ port ∧ port ≤ last.toNat := by
        simp [IsActive, swept, found, eq_comm]
      simp only [if_pos swept, balance_pushAt, active]
      -- The start counts from the first port, the end after the last one.
      by_cases same : addresses = rule.addresses
      · simp only [same, and_true, true_and]
        split <;> split <;> split <;> omega
      · simp only [same, and_false, false_and, if_false, Int.add_zero]
    · have inactive : ¬ IsActive protocol covered addresses port rule :=
        fun active => swept active.1
      simp only [if_neg swept, if_neg inactive, Int.add_zero]

def eventsOf (protocol : NativeProtocol) (covered : List Interval) (rules : List Rule) : Events :=
  rules.foldl (addEvents protocol covered) []

theorem balance_foldl {rules : List Rule}
    (ordered : ∀ rule ∈ rules, PortsOrdered rule) (protocol : NativeProtocol)
    (covered : List Interval) (events : Events) (addresses : AddressSet) (port : Nat) :
    balance (rules.foldl (addEvents protocol covered) events) addresses port =
      balance events addresses port +
        rules.countP (IsActive protocol covered addresses port ·) := by
  induction rules generalizing events with
  | nil => simp
  | cons rule rules induction =>
    obtain ⟨here, others⟩ := List.forall_mem_cons.mp ordered
    rw [List.foldl_cons, induction others, balance_addEvents here, List.countP_cons]
    simp only [decide_eq_true_eq]
    split <;> push_cast <;> omega

theorem balance_eventsOf_ne_zero
    (ordered : ∀ rule ∈ rules, PortsOrdered rule) (protocol : NativeProtocol)
    (covered : List Interval) (addresses : AddressSet) (port : Nat) :
    balance (eventsOf protocol covered rules) addresses port ≠ 0 ↔
      ∃ rule ∈ rules, IsActive protocol covered addresses port rule := by
  have counted := balance_foldl ordered protocol covered [] addresses port
  have none : balance [] addresses port = 0 := rfl
  rw [eventsOf, counted, none, Int.zero_add, Int.natCast_ne_zero,
    ← Nat.pos_iff_ne_zero, List.countP_pos_iff]
  simp only [decide_eq_true_eq]

theorem eventsOf_spec (protocol : NativeProtocol) (covered : List Interval) (rules : List Rule) :
    IsMap (eventsOf protocol covered rules) ∧
      ∀ event ∈ eventsOf protocol covered rules, event.1 ≤ 65536 := by
  apply List.foldlRecOn (motive := fun events : Events => IsMap events ∧
    ∀ event ∈ events, event.1 ≤ 65536) rules _ ⟨isMap_nil, by simp⟩
  rintro events ⟨isMap, bounds⟩ rule _
  rw [addEvents_eq]
  cases rule.ports with
  | none => exact ⟨isMap, bounds⟩
  | some range =>
    have startSmall := range.1.toNat_lt
    have lastSmall := range.2.toNat_lt
    simp only
    split
    · refine ⟨isMap_pushAt (isMap_pushAt isMap _ _) _ _, ?_⟩
      apply forall_key_pushAt (p := (· ≤ 65536)) (by omega)
      exact forall_key_pushAt (p := (· ≤ 65536)) (by omega) bounds
    · exact ⟨isMap, bounds⟩

end Nvx.Host.Egress
