import Nvx.Host.Egress.Sweep

namespace Nvx.Host.Egress

open Nvx.Data

/-! The native rules of the ports of a protocol. -/

/-- At each port the covered addresses are available, and those of the sets that
the events leave active. -/
structure Describes (family : Family) (covered : List Interval) (events : Events)
    (states : Nat → List Interval) : Prop where
  canonical : ∀ port, Canonical family (states port)
  covers : ∀ port point, Covers (states port) point ↔
    (∃ addresses, balance events addresses port ≠ 0 ∧ Covers addresses point) ∨ Covers covered point
  inFamily : ∀ port addresses, balance events addresses port ≠ 0 → InFamily family addresses

/-- The sweep has processed some of the events, up to the last boundary. -/
structure Underway (family : Family) (covered : List Interval)
    (states : Nat → List Interval) (processed rest : Events) (sweep : Sweep)
    (time : Nat) : Prop where
  reached : Reached family covered states sweep time
  counted : Counted sweep.active
  counts : ∀ addresses, countOf sweep.active addresses =
    (processed.map fun event => total addresses event.2).sum
  past : ∀ event ∈ processed, event.1 ≤ time
  ahead : ∀ event ∈ rest, time ≤ event.1
  previous : (sweep.previousPort = some time ∧ ∀ event ∈ rest, time < event.1) ∨
    (sweep.previousPort = none ∧ sweep.active = [] ∧ sweep.openNetworks = [])

theorem balance_between {port : Nat} (past : ∀ event ∈ processed, event.1 ≤ port)
    (ahead : ∀ event ∈ rest, port < event.1) (addresses : AddressSet) :
    balance (processed ++ rest) addresses port =
      (processed.map fun event => total addresses event.2).sum := by
  have seen : (processed.map fun event =>
      if event.1 ≤ port then total addresses event.2 else 0) =
        processed.map fun event => total addresses event.2 :=
    List.map_congr_left fun event member => if_pos (past event member)
  have unseen : (rest.map fun event =>
      if event.1 ≤ port then total addresses event.2 else 0) = rest.map fun _ => 0 :=
    List.map_congr_left fun event member =>
      if_neg (Nat.not_le_of_lt (ahead event member))
  rw [balance, List.map_append, List.sum_append, seen, unseen]
  simp

namespace Underway

theorem countOf_eq (underway : Underway family covered states processed rest sweep
    time) {port : Nat} (notBefore : time ≤ port)
    (ahead : ∀ event ∈ rest, port < event.1) (addresses : AddressSet) :
    balance (processed ++ rest) addresses port = countOf sweep.active addresses := by
  rw [underway.counts]
  exact balance_between (fun event member =>
    Nat.le_trans (underway.past event member) notBefore) ahead addresses

/-- The available addresses are those of the active sets and the covered ones. -/
theorem covers (describes : Describes family covered (processed ++ rest) states)
    (underway : Underway family covered states processed rest sweep time)
    {port : Nat} (notBefore : time ≤ port) (ahead : ∀ event ∈ rest, port < event.1) (point : Nat) :
    Covers (states port) point ↔
      Covers (sweep.active.flatMap Prod.fst) point ∨ Covers covered point := by
  rw [describes.covers, covers_flatMap]
  simp only [underway.countOf_eq notBefore ahead, ← mem_keys_iff underway.counted,
    List.mem_map, exists_exists_and_eq_and]

theorem inFamily (describes : Describes family covered (processed ++ rest) states)
    (underway : Underway family covered states processed rest sweep time)
    (ahead : ∀ event ∈ rest, time < event.1) :
    InFamily family (sweep.active.flatMap Prod.fst) := by
  intro interval found
  obtain ⟨entry, member, inside⟩ := List.mem_flatMap.mp found
  apply describes.inFamily time entry.1 ?_ interval inside
  rw [underway.countOf_eq (Nat.le_refl time) ahead, ← mem_keys_iff underway.counted]
  exact List.mem_map_of_mem member

theorem states_eq (describes : Describes family covered (processed ++ rest) states)
    (underway : Underway family covered states processed rest sweep time)
    (canonical : Canonical family available) (same : ∀ point, Covers available point ↔
      Covers (sweep.active.flatMap Prod.fst) point ∨ Covers covered point)
    {port : Nat} (notBefore : time ≤ port)
    (ahead : ∀ event ∈ rest, port < event.1) : states port = available := by
  apply (describes.canonical port).ext canonical
  intro point
  rw [underway.covers describes notBefore ahead, same]

end Underway

theorem Reached.update (reached : Reached family covered states sweep time) (active : Active)
    (previousPort : Option Nat) :
    Reached family covered states
      { sweep with active := active, previousPort := previousPort } time :=
  ⟨reached.isMap, reached.counted, reached.runs, reached.nodup, reached.opened⟩

section Boundary

variable {processed rest : Events} (category : String) (canonical : Canonical family covered)
  (describes : Describes family covered (processed ++ event :: rest) states)
  (ascending : ∀ later ∈ rest, event.1 < later.1)
  (underway : Underway family covered states processed (event :: rest) sweep time)

include canonical describes ascending underway

theorem pass_spec : ∃ later, Spends (tooManyRules category) sweep.ruleCount later.ruleCount
        (fun budget => sweep.close.pass family category covered budget event.1)
        later ∧
      later.active = sweep.active ∧
      Reached family covered states later event.1 := by
  have notYet : ∀ port, port < event.1 → ∀ later ∈ event :: rest, port < later.1 := by
    intro port before
    exact List.forall_mem_cons.mpr ⟨before, fun later member =>
      Nat.lt_trans before (ascending later member)⟩
  have idle : sweep.active = [] → (time = event.1 → sweep.openNetworks = []) →
      Reached family covered states { sweep with openNetworks := [] } event.1 := by
    intro inactive closed
    apply underway.reached.idle canonical describes.canonical
      (underway.ahead event List.mem_cons_self) _ closed
    intro port notBefore before
    apply underway.states_eq describes canonical _ notBefore (notYet port before)
    intro point
    simp [inactive]
  rcases underway.previous with ⟨previous, ahead⟩ | ⟨first, inactive, closed⟩
  · have before := ahead event List.mem_cons_self
    by_cases inactive : sweep.active = []
    · refine ⟨{ sweep with openNetworks := [] }, ?_, rfl,
        idle inactive fun same => absurd same (Nat.ne_of_lt before)⟩
      have passes : ∀ budget, sweep.close.pass family category covered budget
          event.1 = .ok { sweep with openNetworks := [] } := by
        intro budget
        simp [Sweep.close, Sweep.pass, previous, inactive]
      simp only [passes]
      exact spends_ok _ _ _
    · obtain ⟨later, spends, active, reached⟩ := segment_spec category canonical
        (describes.canonical time) describes.canonical underway.reached before
        (fun port notBefore inside => underway.states_eq describes (describes.canonical time)
          (underway.covers describes (Nat.le_refl time) (notYet time before))
          notBefore (notYet port inside))
        (underway.inFamily describes (notYet time before))
        (underway.covers describes (Nat.le_refl time) (notYet time before))
      refine ⟨later, ?_, active, reached⟩
      have passes : ∀ budget, sweep.close.pass family category covered budget
          event.1 = sweep.segment family category covered budget time event.1 := by
        intro budget
        simp [Sweep.close, Sweep.pass, previous, inactive, before]
      simp only [passes]
      exact spends
  · refine ⟨sweep, ?_, rfl, ?_⟩
    · have passes : ∀ budget, sweep.close.pass family category covered budget
          event.1 = .ok sweep := by
        intro budget
        simp [Sweep.close, Sweep.pass, first]
      simp only [passes]
      exact spends_ok _ _ _
    · have reached := idle inactive fun _ => closed
      rwa [← closed] at reached

theorem boundary_spec : ∃ later, Spends (tooManyRules category) sweep.ruleCount later.ruleCount
        (fun budget => sweep.boundary family category covered budget event)
        later ∧
      Underway family covered states (processed ++ [event]) rest later
        event.1 := by
  obtain ⟨passed, spends, active, reached⟩ :=
    pass_spec category canonical describes ascending underway
  obtain ⟨counted, counts⟩ := foldl_adjust underway.counted event.2
  refine ⟨{ passed with
    active := event.2.foldl adjust passed.active
    previousPort := some event.1 }, ?_, ?_⟩
  · exact spends.bind (spends_ok _ _ _)
  · refine ⟨reached.update _ _, ?_, fun addresses => ?_, ?_, ?_, .inl ⟨rfl, ascending⟩⟩
    · rw [active]
      exact counted
    · rw [active, counts, underway.counts, List.map_append, List.sum_append]
      simp
    · refine List.forall_mem_append.mpr ⟨fun earlier member => ?_, by simp⟩
      exact Nat.le_trans (underway.past earlier member) (underway.ahead event List.mem_cons_self)
    · exact fun later member => Nat.le_of_lt (ascending later member)

end Boundary

theorem boundaries_spec (category : String) (canonical : Canonical family covered)
    (describes : Describes family covered (processed ++ rest) states) (isMap : IsMap rest)
    (underway : Underway family covered states processed rest sweep time) :
    ∃ later last, Spends (tooManyRules category) sweep.ruleCount later.ruleCount
        (fun budget => rest.foldlM (Sweep.boundary family category covered budget) sweep) later ∧
      Underway family covered states (processed ++ rest) [] later last ∧
      (last = time ∨ ∃ event ∈ rest, event.1 = last) := by
  induction rest generalizing processed sweep time with
  | nil =>
    rw [List.append_nil]
    exact ⟨sweep, time, spends_ok _ _ _, underway, .inl rfl⟩
  | cons event rest induction =>
    obtain ⟨_, ascending, others⟩ := isMap_cons.mp isMap
    obtain ⟨middle, spends, further⟩ :=
      boundary_spec category canonical describes ascending underway
    rw [← List.singleton_append, ← List.append_assoc] at describes
    obtain ⟨later, last, continues, done, bound⟩ :=
      induction describes others further
    rw [List.append_assoc, List.singleton_append] at done
    refine ⟨later, last, ?_, done, .inr ?_⟩
    · simp only [List.foldlM_cons]
      exact spends.bind continues
    · rcases bound with rfl | ⟨found, member, rfl⟩
      · exact ⟨event, List.mem_cons_self, rfl⟩
      · exact ⟨found, List.mem_cons_of_mem _ member, rfl⟩

theorem sweep_spec (category : String) (canonical : Canonical family covered)
    (describes : Describes family covered events states) (isMap : IsMap events)
    (bounds : ∀ event ∈ events, event.1 ≤ 65536)
    (ends : ∀ addresses, balance events addresses 65536 = 0) :
    ∃ sweep, Spends (tooManyRules category) 0 sweep.ruleCount (fun budget => events.foldlM
          (Sweep.boundary family category covered budget) .empty) sweep ∧
      IsMap sweep.portRanges ∧
      sweep.ruleCount = valueCount sweep.portRanges ∧
      ∀ network, IsRuns (fun port =>
        network ∈ openBefore (advance family covered) states (port + 1)) 65536
        (valuesAt sweep.portRanges network) := by
  have start : Underway family covered states [] events .empty 0 :=
    ⟨reached_empty, ⟨.nil, by simp [Sweep.empty]⟩, fun _ => rfl, by simp,
      fun _ _ => Nat.zero_le _, .inr ⟨rfl, rfl, rfl⟩⟩
  obtain ⟨sweep, last, spends, done, bound⟩ :=
    boundaries_spec category canonical (by rwa [List.nil_append]) isMap start
  rw [List.nil_append] at done
  have lastSmall : last ≤ 65536 := by
    rcases bound with rfl | ⟨event, member, rfl⟩
    · omega
    · exact bounds event member
  refine ⟨sweep, spends, done.reached.isMap, done.reached.counted, fun network => ?_⟩
  rcases Nat.eq_or_lt_of_le lastSmall with rfl | before
  · exact done.reached.runs network
  · have inactive : sweep.active = [] := by
      apply List.eq_nil_iff_forall_not_mem.mpr
      intro entry member
      have nonzero := (mem_keys_iff done.counted).mp (List.mem_map_of_mem member)
      rw [← done.countOf_eq lastSmall (by simp), List.append_nil] at nonzero
      exact nonzero (ends entry.1)
    have idle := done.reached.idle canonical describes.canonical lastSmall
      (fun port notBefore _ => done.states_eq (by rwa [List.append_nil]) canonical
        (by simp [inactive]) notBefore (by simp))
      fun same => absurd same (Nat.ne_of_lt before)
    exact idle.runs network

/-- The native rules of a protocol's ports are the runs of the networks that the
sweep keeps open. -/
def IsPortNatives (family : Family) (covered : List Interval)
    (states : Nat → List Interval) (protocol : NativeProtocol)
    (natives : List NativeRule) : Prop :=
  ∃ ranges, natives = portNatives protocol ranges ∧ IsMap ranges ∧ ∀ network, IsRuns (fun port =>
      network ∈ openBefore (advance family covered) states (port + 1)) 65536
      (valuesAt ranges network)

theorem IsPortNatives.unique (isNatives : IsPortNatives family covered states protocol natives)
    (alsoNatives : IsPortNatives family covered states protocol others) :
    natives = others := by
  obtain ⟨ranges, rfl, isMap, runs⟩ := isNatives
  obtain ⟨otherRanges, rfl, alsoMap, otherRuns⟩ := alsoNatives
  rw [isMap.ext alsoMap fun network => (runs network).unique (otherRuns network)]

theorem length_portNatives (protocol : NativeProtocol) (ranges : List (Network × List Interval)) :
    (portNatives protocol ranges).length = valueCount ranges := by
  simp [portNatives, valueCount, List.length_flatMap]

end Nvx.Host.Egress
