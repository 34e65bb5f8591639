import Nvx.Data.Budget
import Nvx.Host.Egress.Lowering
import Nvx.Host.Egress.Summary

namespace Nvx.Host.Egress

open Nvx.Data

/-! The networks of canonical intervals, and what they spend. -/

def InFamily (family : Family) (intervals : List Interval) : Prop :=
  ∀ interval ∈ intervals, interval.1 ≤ interval.2 ∧ interval.2 ≤ family.lastAddress

instance (family : Family) (intervals : List Interval) : Decidable (InFamily family intervals) :=
  inferInstanceAs (Decidable (∀ interval ∈ intervals, _))

theorem inFamily_append :
    InFamily family (first ++ second) ↔ InFamily family first ∧ InFamily family second :=
  List.forall_mem_append

theorem InFamily.inRange (inFamily : InFamily family intervals) : InRange intervals :=
  fun interval member => ⟨(inFamily interval member).1,
    Nat.le_trans (inFamily interval member).2 family.lastAddress_le⟩

theorem InFamily.le (inFamily : InFamily family intervals)
    (covers : Covers intervals point) : point ≤ family.lastAddress := by
  obtain ⟨interval, member, _, ends⟩ := covers
  exact Nat.le_trans ends (inFamily interval member).2

/-- Intervals of the family that are determined by the addresses they cover. -/
structure Canonical (family : Family) (intervals : List Interval) : Prop where
  spaced : Spaced 1 intervals
  inFamily : InFamily family intervals

namespace Canonical

theorem sorted (canonical : Canonical family intervals) : Spaced 0 intervals :=
  canonical.spaced.mono (Nat.zero_le 1)

theorem ext (canonical : Canonical family intervals) (alsoCanonical : Canonical family others)
    (same : ∀ point, Covers intervals point ↔ Covers others point) :
    intervals = others :=
  canonical.spaced.ext alsoCanonical.spaced same

theorem ext_of_le (canonical : Canonical family intervals) (alsoCanonical : Canonical family others)
    (same : ∀ point ≤ family.lastAddress,
      Covers intervals point ↔ Covers others point) : intervals = others := by
  apply canonical.ext alsoCanonical
  intro point
  exact ⟨fun covers => (same point (canonical.inFamily.le covers)).mp covers,
    fun covers => (same point (alsoCanonical.inFamily.le covers)).mpr covers⟩

end Canonical

theorem canonical_merge (inFamily : InFamily family intervals) :
    Canonical family (merge intervals) := by
  obtain ⟨spaced, _⟩ := merge_spec inFamily.inRange
  exact ⟨spaced, fun interval member => ⟨spaced.valid interval member,
    mem_merge_le inFamily.inRange (fun _ => inFamily.le) interval member⟩⟩

theorem covers_merge (inFamily : InFamily family intervals) (point : Nat) :
    Covers (merge intervals) point ↔ Covers intervals point :=
  (merge_spec inFamily.inRange).2 point

theorem merge_eq {family : Family} {intervals merged : List Interval}
    (inFamily : InFamily family intervals) (canonical : Canonical family merged)
    (same : ∀ point, Covers intervals point ↔ Covers merged point) :
    merge intervals = merged :=
  (canonical_merge inFamily).ext canonical fun point =>
    (covers_merge inFamily point).trans (same point)

namespace Network

def Has (network : Network) (point : Nat) : Prop :=
  network.interval.1 ≤ point ∧ point ≤ network.interval.2

def Within (network : Network) (intervals : List Interval) : Prop :=
  ∀ point, network.Has point → Covers intervals point

end Network

theorem covers_map_interval {networks : List Network} :
    Covers (networks.map Network.interval) point ↔ ∃ network ∈ networks, network.Has point := by
  simp only [Covers, List.mem_map, exists_exists_and_eq_and]
  rfl

theorem held_iff {network : Network} (inFamily : InFamily family [network.interval])
    (sorted : Spaced 0 intervals) :
    held network intervals = true ↔ network.Within intervals := by
  have alone : Spaced 0 [network.interval] :=
    spaced_singleton (inFamily _ (List.mem_singleton_self _)).1
  rw [held, decide_eq_true_iff, subtract_eq_nil_iff inFamily.inRange alone sorted]
  simp only [covers_cons, covers_nil, or_false]
  rfl

section NetworksOf

variable (canonical : Canonical family intervals)

include canonical

theorem covers_networksOf (point : Nat) :
    (∃ network ∈ networksOf family intervals, network.Has point) ↔
      Covers intervals point := by
  rw [← covers_map_interval]
  exact (networksOf_spec canonical.sorted fun interval member =>
    (canonical.inFamily interval member).2).2.1 point

theorem nodup_networksOf : (networksOf family intervals).Nodup :=
  nodup_of_spaced (networksOf_spec canonical.sorted fun interval member =>
    (canonical.inFamily interval member).2).1

theorem family_of_mem_networksOf {network : Network}
    (member : network ∈ networksOf family intervals) :
    network.family = family :=
  (networksOf_spec canonical.sorted fun interval member =>
    (canonical.inFamily interval member).2).2.2 network member

theorem within_of_mem_networksOf {network : Network}
    (member : network ∈ networksOf family intervals) :
    network.Within intervals :=
  fun point has => (covers_networksOf canonical point).mp ⟨network, member, has⟩

theorem inFamily_of_mem_networksOf {network : Network}
    (member : network ∈ networksOf family intervals) :
    InFamily family [network.interval] := by
  obtain ⟨spaced, _, _⟩ := networksOf_spec canonical.sorted
    fun interval member => (canonical.inFamily interval member).2
  have valid := spaced.valid _ (List.mem_map_of_mem member)
  have last : network.Has network.interval.2 := ⟨valid, Nat.le_refl _⟩
  intro interval here
  obtain rfl := List.mem_singleton.mp here
  exact ⟨valid, canonical.inFamily.le (within_of_mem_networksOf canonical member _ last)⟩

end NetworksOf

theorem spends_pushNetwork (category : String) (networks : List Network) (network : Network) :
    Spends (tooManyRules category) networks.length (networks ++ [network]).length
      (fun maximum => pushNetwork maximum category networks network)
      (networks ++ [network]) := by
  rw [List.length_append, List.length_singleton]
  refine ⟨Nat.le_succ _, fun budget fits => ?_⟩
  unfold pushNetwork
  split
  · rw [if_neg (by omega)]
  · rw [if_pos (by omega)]

theorem spends_intervalsToNetworks (intervals : List Interval)
    (family : Family) (category : String) :
    Spends (tooManyRules category) 0 (networksOf family intervals).length
      (fun maximum => intervalsToNetworks intervals family maximum category)
      (networksOf family intervals) := by
  have spends := spends_foldlM (spends_pushNetwork category) (networksOf family intervals) []
  rw [List.foldl_append_eq_append, ← List.flatMap_def, List.flatMap_singleton'] at spends
  exact spends

theorem foldl_unless (networks emitted : List Network) (skip : Network → Bool) :
    networks.foldl (fun emitted network =>
        if skip network then emitted else emitted ++ [network]) emitted =
      emitted ++ networks.filter fun network => !skip network := by
  induction networks generalizing emitted with
  | nil => simp
  | cons network networks induction =>
    rw [List.foldl_cons, induction, List.filter_cons]
    cases skip network <;> simp

/-- The networks of both that the covered addresses do not hold. -/
def uncoveredNetworks (family : Family) (protocolIntervals covered : List Interval) :
    List Network :=
  (networksOf family (merge (protocolIntervals ++ covered))).filter
    fun network => !held network covered

theorem spends_protocolIntervalsToNetworks
    (protocolIntervals covered : List Interval) (family : Family) (category : String) :
    Spends (tooManyRules category) 0 (uncoveredNetworks family protocolIntervals covered).length
      (fun maximum => protocolIntervalsToNetworks protocolIntervals covered family maximum category)
      (uncoveredNetworks family protocolIntervals covered) := by
  have steps : ∀ (emitted : List Network) (network : Network),
      Spends (tooManyRules category) emitted.length (if held network covered then emitted
          else emitted ++ [network]).length
        (fun maximum => pushUncovered covered maximum category emitted network)
        (if held network covered then emitted else emitted ++ [network]) := by
    intro emitted network
    unfold pushUncovered
    split
    · exact spends_ok _ _ _
    · exact spends_pushNetwork category emitted network
  have spends := spends_foldlM steps (networksOf family (merge (protocolIntervals ++ covered))) []
  rw [foldl_unless] at spends
  exact spends

theorem checkedSub_of_le (fits : spent ≤ budget) : checkedSub budget spent = .ok (budget - spent) :=
  if_pos fits

theorem spends_left {Result : Type} {failure : Failure}
    {run : Nat → Except Failure Result} {result : Result}
    (spends : Spends failure 0 spent run result) (before : Nat) :
    Spends failure before (before + spent)
      (fun budget => checkedSub budget before >>= run) result := by
  refine ⟨Nat.le_add_right before spent, fun budget fits => ?_⟩
  simp only [checkedSub_of_le fits]
  exact (spends.rest before).result budget fits

end Nvx.Host.Egress
