import Nvx.Data.Timeline
import Nvx.Host.Egress.Events
import Nvx.Host.Egress.Networks

namespace Nvx.Host.Egress

open Nvx.Data

/-! What the sweep keeps open from port to port. -/

section Advance

variable (family : Family) (covered : List Interval)

def keptIn (available : List Interval) (opened : Set Network) : Set Network :=
  { network | network ∈ opened ∧ network.Within available }

/-- Networks with addresses that neither the covered intervals nor the kept
networks hold. -/
def freshIn (available : List Interval) (opened : Set Network) : Set Network :=
  { network | network ∈ networksOf family available ∧
    ¬ ∀ point, network.Has point → Covers covered point ∨
      ∃ kept ∈ keptIn available opened, kept.Has point }

def advance (available : List Interval) (opened : Set Network) : Set Network :=
  keptIn available opened ∪ freshIn family covered available opened

variable {family covered}

theorem within_of_mem_advance (canonical : Canonical family available) {network : Network}
    (member : network ∈ advance family covered available opened) :
    network.Within available := by
  rcases member with ⟨_, within⟩ | ⟨found, _⟩
  · exact within
  · exact within_of_mem_networksOf canonical found

theorem notMem_freshIn {network : Network} (kept : network ∈ keptIn available opened) :
    network ∉ freshIn family covered available opened :=
  fun fresh => fresh.2 fun _ has => .inr ⟨network, kept, has⟩

theorem notMem_of_mem_freshIn (canonical : Canonical family available) {network : Network}
    (fresh : network ∈ freshIn family covered available opened) :
    network ∉ opened :=
  fun member => notMem_freshIn ⟨member, within_of_mem_networksOf canonical fresh.1⟩ fresh

theorem advance_settles (canonical : Canonical family available) : advance family covered available
        (advance family covered available opened) =
      advance family covered available opened := by
  have keptAll : keptIn available (advance family covered available opened) =
      advance family covered available opened := by
    ext network
    exact ⟨And.left, fun member =>
      ⟨member, within_of_mem_advance canonical member⟩⟩
  apply Set.Subset.antisymm
  · rintro network (kept | ⟨found, missing⟩)
    · exact kept.1
    · -- What is not fresh now was held by the covered or the kept networks.
      by_contra absent
      apply missing
      rw [keptAll]
      intro point has
      have notFresh : network ∉ freshIn family covered available opened :=
        fun fresh => absent (.inr fresh)
      have held : ∀ point, network.Has point → Covers covered point ∨
          ∃ kept ∈ keptIn available opened, kept.Has point := by
        by_contra missing
        exact notFresh ⟨found, missing⟩
      rcases held point has with here | ⟨other, kept, has⟩
      · exact .inl here
      · exact .inr ⟨other, .inl kept, has⟩
  · intro network member
    exact .inl ⟨member, within_of_mem_advance canonical member⟩

theorem covers_advance (canonical : Canonical family available)
    (includes : ∀ point, Covers covered point → Covers available point) (point : Nat) :
    Covers available point ↔ Covers covered point ∨
      ∃ network ∈ advance family covered available opened,
        network.Has point := by
  constructor
  · intro covers
    obtain ⟨network, found, has⟩ := (covers_networksOf canonical point).mpr covers
    by_cases fresh : network ∈ freshIn family covered available opened
    · exact .inr ⟨network, .inr fresh, has⟩
    · have held : ∀ point, network.Has point → Covers covered point ∨
          ∃ kept ∈ keptIn available opened, kept.Has point := by
        by_contra missing
        exact fresh ⟨found, missing⟩
      rcases held point has with here | ⟨other, kept, has⟩
      · exact .inl here
      · exact .inr ⟨other, .inl kept, has⟩
  · rintro (here | ⟨network, member, has⟩)
    · exact includes point here
    · exact within_of_mem_advance canonical member point has

/-- Open networks are of the family, and the covered addresses hold none. -/
def Tidy (family : Family) (covered : List Interval) (opened : Set Network) :
    Prop :=
  ∀ network ∈ opened, network.family = family ∧
    InFamily family [network.interval] ∧ ¬ network.Within covered

theorem Tidy.advance (canonical : Canonical family available) (tidy : Tidy family covered opened) :
    Tidy family covered (advance family covered available opened) := by
  rintro network (kept | ⟨found, missing⟩)
  · exact tidy network kept.1
  · refine ⟨family_of_mem_networksOf canonical found,
      inFamily_of_mem_networksOf canonical found, fun within => ?_⟩
    exact missing fun point has => .inl (within point has)

theorem advance_covered (canonical : Canonical family covered) (tidy : Tidy family covered opened) :
    advance family covered covered opened = ∅ := by
  rw [Set.eq_empty_iff_forall_notMem]
  rintro network (⟨member, within⟩ | ⟨found, missing⟩)
  · exact (tidy network member).2.2 within
  · exact missing fun point has =>
      .inl (within_of_mem_networksOf canonical found point has)

theorem tidy_openBefore {states : Nat → List Interval}
    (canonical : ∀ port, Canonical family (states port)) (time : Nat) :
    Tidy family covered (openBefore (advance family covered) states time) := by
  induction time with
  | zero => exact fun network member => member.elim
  | succ time induction => exact induction.advance (canonical time)

end Advance

def withLast (last : Nat) (runs : List Interval) : List Interval :=
  match runs.getLast? with
  | none => runs
  | some run => runs.dropLast ++ [(run.1, last)]

namespace Sweep

theorem keep_spec (available : List Interval) (port : Nat)
    (nodup : List.Nodup opened) {portRanges : List (Network × List Interval)}
    (isMap : IsMap portRanges) (running : ∀ network ∈ opened, valuesAt portRanges network ≠ [])
    (before : List Network) :
    ∃ later, opened.foldl (keep available port) (before, portRanges) =
        (before ++ opened.filter (held · available), later) ∧
      IsMap later ∧ valueCount later = valueCount portRanges ∧
      ∀ network, valuesAt later network =
        if network ∈ opened ∧ held network available then
          withLast (port - 1) (valuesAt portRanges network)
        else valuesAt portRanges network := by
  induction opened generalizing portRanges before with
  | nil => exact ⟨portRanges, by simp, isMap, rfl, by simp⟩
  | cons network opened induction =>
    obtain ⟨fresh, nodup⟩ := List.nodup_cons.mp nodup
    obtain ⟨here, others⟩ := List.forall_mem_cons.mp running
    rw [List.foldl_cons, keep]
    by_cases stays : held network available
    · obtain ⟨run, last⟩ :=
        Option.isSome_iff_exists.mp (List.getLast?_isSome.mpr here)
      obtain ⟨changed, result, stillMap, _, values⟩ :=
        modifyLastAt_spec isMap (fun range => (range.1, port - 1)) last
      have elsewhere : ∀ other, other ≠ network →
          valuesAt changed other = valuesAt portRanges other :=
        fun other same => by rw [values, if_neg same]
      have stillRunning : ∀ other ∈ opened, valuesAt changed other ≠ [] := by
        intro other member
        rw [elsewhere other (ne_of_mem_of_not_mem member fresh)]
        exact others other member
      obtain ⟨later, folded, laterMap, counts, laterValues⟩ :=
        induction nodup stillMap stillRunning (before ++ [network])
      refine ⟨later, ?_, laterMap, counts.trans (valueCount_modifyLastAt result), fun other => ?_⟩
      · rw [if_pos stays, result, folded, List.filter_cons, if_pos stays,
          List.append_assoc, List.singleton_append]
      · rw [laterValues]
        by_cases same : other = network
        · subst same
          rw [if_neg fun found => fresh found.1, values, if_pos rfl,
            if_pos ⟨List.mem_cons_self, stays⟩, withLast, last]
        · simp only [elsewhere other same, List.mem_cons, same, false_or]
    · obtain ⟨later, folded, laterMap, counts, laterValues⟩ :=
        induction nodup isMap others before
      refine ⟨later, ?_, laterMap, counts, fun other => ?_⟩
      · rw [if_neg stays, folded, List.filter_cons, if_neg stays]
      · rw [laterValues]
        by_cases same : other = network
        · subst same
          rw [if_neg fun found => fresh found.1, if_neg fun found => stays found.2]
        · simp only [List.mem_cons, same, false_or]

theorem start_spec (category : String) (range : Interval) {networks : List Network}
    (nodup : networks.Nodup) {sweep : Sweep} (isMap : IsMap sweep.portRanges) :
    ∃ later, Spends (tooManyRules category) sweep.ruleCount later.ruleCount
        (fun budget => networks.foldlM (start budget category range) sweep) later ∧
      later.active = sweep.active ∧
      later.openNetworks = sweep.openNetworks ++ networks ∧
      IsMap later.portRanges ∧
      later.ruleCount = sweep.ruleCount + networks.length ∧
      valueCount later.portRanges = valueCount sweep.portRanges + networks.length ∧
      ∀ network, valuesAt later.portRanges network =
        if network ∈ networks then valuesAt sweep.portRanges network ++ [range]
        else valuesAt sweep.portRanges network := by
  induction networks generalizing sweep with
  | nil => exact ⟨sweep, spends_ok _ _ _, rfl, by simp, isMap, rfl, rfl, by simp⟩
  | cons network networks induction =>
    obtain ⟨fresh, nodup⟩ := List.nodup_cons.mp nodup
    obtain ⟨later, spends, active, opened, laterMap, count, held, values⟩ :=
      @induction nodup (sweep.opening range network) (isMap_pushAt isMap network range)
    have step : Spends (tooManyRules category) sweep.ruleCount (sweep.ruleCount + 1)
        (fun budget => start budget category range sweep network)
        (sweep.opening range network) := by
      refine ⟨Nat.le_succ _, fun budget fits => ?_⟩
      unfold start
      split
      · rw [if_neg (by omega)]
      · rw [if_pos (by omega)]
    simp only [opening, valueCount_pushAt] at count held opened values
    rw [List.length_cons]
    refine ⟨later, ?_, active, ?_, laterMap, by omega, by omega,
      fun other => ?_⟩
    · simp only [List.foldlM_cons]
      exact step.bind spends
    · rw [opened, List.append_assoc, List.singleton_append]
    · rw [values, valuesAt_pushAt isMap]
      by_cases same : other = network
      · subst same
        rw [if_neg fresh, if_pos rfl, if_pos List.mem_cons_self]
      · simp only [same, if_false, List.mem_cons, false_or]

end Sweep

structure Reached (family : Family) (covered : List Interval)
    (states : Nat → List Interval) (sweep : Sweep) (time : Nat) : Prop where
  isMap : IsMap sweep.portRanges
  counted : sweep.ruleCount = valueCount sweep.portRanges
  runs : ∀ network, IsRuns
    (fun port => network ∈ openBefore (advance family covered) states (port + 1))
    time (valuesAt sweep.portRanges network)
  nodup : sweep.openNetworks.Nodup
  opened : ∀ network, network ∈ sweep.openNetworks ↔
    network ∈ openBefore (advance family covered) states time

theorem reached_empty : Reached family covered states .empty 0 where
  isMap := isMap_nil
  counted := rfl
  runs := fun _ => IsRuns.zero _
  nodup := .nil
  opened := fun _ => ⟨fun member => (List.not_mem_nil member).elim, False.elim⟩

theorem mem_uncoveredNetworks_iff (merged : merge (addresses ++ cover) = available)
    (canonical : Canonical family available) (canonicalCover : Canonical family cover)
    (covers : ∀ point, Covers cover point ↔ Covers covered point ∨
      ∃ network ∈ keptIn available opened, network.Has point)
    (network : Network) :
    network ∈ uncoveredNetworks family addresses cover ↔
      network ∈ freshIn family covered available opened := by
  rw [uncoveredNetworks, merged, List.mem_filter]
  apply and_congr_right
  intro member
  have within := held_iff (inFamily_of_mem_networksOf canonical member) canonicalCover.sorted
  rw [Bool.not_eq_true', ← Bool.not_eq_true, within]
  apply not_congr
  apply forall_congr'
  intro point
  rw [covers]

theorem openBefore_within {previous port : Nat} (canonical : Canonical family available)
    (constant : ∀ point, previous ≤ point → point < port →
      states point = available) (notBefore : previous ≤ point)
    (before : point < port) :
    openBefore (advance family covered) states (point + 1) = advance family covered available
        (openBefore (advance family covered) states previous) :=
  openBefore_segment (advance_settles canonical) (Nat.lt_succ_of_le notBefore)
    fun other notBefore inside => constant other notBefore (by omega)

theorem Reached.idle {previous port : Nat} (canonical : Canonical family covered)
    (states_canonical : ∀ port, Canonical family (states port))
    (reached : Reached family covered states sweep previous) (before : previous ≤ port)
    (constant : ∀ point, previous ≤ point → point < port → states point = covered)
    (closed : previous = port → sweep.openNetworks = []) :
    Reached family covered states { sweep with openNetworks := [] } port := by
  have nothing : ∀ point, previous ≤ point → point < port →
      openBefore (advance family covered) states (point + 1) = ∅ := by
    intro point notBefore inside
    rw [openBefore_within canonical constant notBefore inside]
    exact advance_covered canonical (tidy_openBefore states_canonical previous)
  refine ⟨reached.isMap, reached.counted, fun network => ?_, .nil, fun network => ?_⟩
  · apply (reached.runs network).idle before
    intro point notBefore inside
    rw [nothing point notBefore inside]
    exact Set.notMem_empty network
  · rcases Nat.eq_or_lt_of_le before with rfl | strictly
    · rw [← reached.opened, closed rfl]
    · obtain ⟨latest, rfl⟩ : ∃ latest, port = latest + 1 := ⟨port - 1, by omega⟩
      rw [nothing latest (by omega) (by omega)]
      exact ⟨fun member => (List.not_mem_nil member).elim, False.elim⟩

theorem openJustBefore {network : Network}
    (member : network ∈ openBefore (advance family covered) states previous) :
    ∃ point, point + 1 = previous ∧
      network ∈ openBefore (advance family covered) states (point + 1) := by
  cases previous with
  | zero => exact member.elim
  | succ point => exact ⟨point, rfl, member⟩

theorem withLast_of_getLast? (found : runs.getLast? = some run) :
    withLast last runs = runs.dropLast ++ [(run.1, last)] := by
  rw [withLast, found]

section Segment

variable {previous port : Nat} {network : Network}
  (canonical : Canonical family available)
  (before : previous < port)
  (constant : ∀ point, previous ≤ point → point < port → states point = available)
  (isRuns : IsRuns (fun port =>
    network ∈ openBefore (advance family covered) states (port + 1)) previous
    runs)

include canonical before constant isRuns

theorem isRuns_kept (kept : network ∈ keptIn available
    (openBefore (advance family covered) states previous)) :
    IsRuns (fun port =>
      network ∈ openBefore (advance family covered) states (port + 1)) port
      (withLast (port - 1) runs) := by
  obtain ⟨run, found, extended⟩ := isRuns.extend before (openJustBefore kept.1)
    fun point notBefore inside => by
      rw [openBefore_within canonical constant notBefore inside]
      exact .inl kept
  rw [withLast_of_getLast? found]
  exact extended

theorem isRuns_fresh (fresh : network ∈ freshIn family covered available
    (openBefore (advance family covered) states previous)) :
    IsRuns (fun port =>
      network ∈ openBefore (advance family covered) states (port + 1)) port
      (runs ++ [(previous, port - 1)]) := by
  apply isRuns.started before
  · rintro point rfl
    exact notMem_of_mem_freshIn canonical fresh
  · intro point notBefore inside
    rw [openBefore_within canonical constant notBefore inside]
    exact .inr fresh

theorem isRuns_closed (closed : network ∉ advance family covered available
    (openBefore (advance family covered) states previous)) :
    IsRuns (fun port =>
      network ∈ openBefore (advance family covered) states (port + 1)) port
      runs := by
  apply isRuns.idle (Nat.le_of_lt before)
  intro point notBefore inside
  rw [openBefore_within canonical constant notBefore inside]
  exact closed

end Segment

theorem cover_spec {kept : List Network} (canonicalCovered : Canonical family covered)
    (tidy : Tidy family covered opened)
    (mem_kept : ∀ network, network ∈ kept ↔ network ∈ keptIn available opened) :
    Canonical family (merge (covered ++ kept.map Network.interval)) ∧
      ∀ point, Covers (merge (covered ++ kept.map Network.interval)) point ↔ Covers covered point ∨
          ∃ network ∈ keptIn available opened, network.Has point := by
  have inFamily : InFamily family (covered ++ kept.map Network.interval) := by
    refine inFamily_append.mpr ⟨canonicalCovered.inFamily, ?_⟩
    intro interval found
    obtain ⟨network, member, rfl⟩ := List.mem_map.mp found
    exact (tidy network ((mem_kept network).mp member).1).2.1 _ (List.mem_singleton_self _)
  refine ⟨canonical_merge inFamily, fun point => ?_⟩
  rw [covers_merge inFamily, covers_append, covers_map_interval]
  simp only [mem_kept]

theorem Reached.running (reached : Reached family covered states sweep previous) :
    ∀ network ∈ sweep.openNetworks, valuesAt sweep.portRanges network ≠ [] := by
  intro network member empty
  obtain ⟨point, now, stillOpen⟩ :=
    openJustBefore ((reached.opened network).mp member)
  have covered := ((reached.runs network).covers point).mpr ⟨by omega, stillOpen⟩
  rw [empty] at covered
  exact covers_nil point covered

theorem segment_spec {previous port : Nat} (category : String)
    (canonicalCovered : Canonical family covered) (canonical : Canonical family available)
    (states_canonical : ∀ port, Canonical family (states port))
    (reached : Reached family covered states sweep previous) (before : previous < port)
    (constant : ∀ point, previous ≤ point → point < port → states point = available)
    (inFamily : InFamily family (sweep.active.flatMap Prod.fst))
    (covers : ∀ point, Covers available point ↔
      Covers (sweep.active.flatMap Prod.fst) point ∨ Covers covered point) :
    ∃ later, Spends (tooManyRules category) sweep.ruleCount later.ruleCount
        (fun budget => sweep.segment family category covered budget previous port) later ∧
      later.active = sweep.active ∧
      Reached family covered states later port := by
  have tidy := @tidy_openBefore family covered states states_canonical previous
  have canonicalAddresses := canonical_merge inFamily
  have addressesCover := covers_merge inFamily
  generalize merged : merge (sweep.active.flatMap Prod.fst) = addresses at *
  have available_eq : merge (addresses ++ covered) = available := by
    apply merge_eq (inFamily_append.mpr
      ⟨canonicalAddresses.inFamily, canonicalCovered.inFamily⟩) canonical
    intro point
    rw [covers_append, addressesCover, covers]
  -- The open networks whose addresses stay available are extended.
  obtain ⟨ranges, folded, isMap, held, values⟩ := Sweep.keep_spec available port
    reached.nodup reached.isMap reached.running []
  rw [List.nil_append] at folded
  have selected : ∀ network, network ∈ sweep.openNetworks ∧ Egress.held network available = true ↔
        network ∈ keptIn available (openBefore (advance family covered) states previous) := by
    intro network
    rw [reached.opened]
    apply and_congr_right
    intro member
    exact held_iff (tidy network member).2.1 canonical.sorted
  have mem_kept : ∀ network, network ∈ sweep.openNetworks.filter (Egress.held · available) ↔
        network ∈ keptIn available (openBefore (advance family covered) states previous) :=
    fun network => List.mem_filter.trans (selected network)
  have keptNodup := reached.nodup.filter (Egress.held · available)
  generalize sweep.openNetworks.filter (Egress.held · available) = kept at *
  -- The rest of the available addresses is covered by fresh networks.
  obtain ⟨canonicalCover, coverCovers⟩ :=
    cover_spec canonicalCovered tidy mem_kept
  generalize coverMerged : merge (covered ++ kept.map Network.interval) = cover at *
  have combined : merge (addresses ++ cover) = available := by
    apply merge_eq (inFamily_append.mpr
      ⟨canonicalAddresses.inFamily, canonicalCover.inFamily⟩) canonical
    intro point
    rw [covers_append, addressesCover, coverCovers]
    constructor
    · rintro (here | here | ⟨network, ⟨_, within⟩, has⟩)
      · exact (covers point).mpr (.inl here)
      · exact (covers point).mpr (.inr here)
      · exact within point has
    · intro here
      exact ((covers point).mp here).imp_right .inl
  have mem_fresh := mem_uncoveredNetworks_iff combined canonical canonicalCover coverCovers
  have freshNodup : (uncoveredNetworks family addresses cover).Nodup := by
    rw [uncoveredNetworks, combined]
    exact (nodup_networksOf canonical).filter _
  obtain ⟨later, spends, active, opened, laterMap, count, laterHeld,
      laterValues⟩ := @Sweep.start_spec category (previous, port - 1) _ freshNodup
    { sweep with portRanges := ranges, openNetworks := kept } isMap
  refine ⟨later, ?_, active, laterMap, ?_, fun network => ?_, ?_, fun network => ?_⟩
  · have emitted := spends_left (spends_protocolIntervalsToNetworks addresses
      cover family category) sweep.ruleCount
    have whole := emitted.bind (spends.from_spent (Nat.le_add_right _ _) (Nat.le_of_eq count.symm))
    refine ⟨whole.grows, fun budget fits => ?_⟩
    rw [← whole.result budget fits]
    simp only [Sweep.segment, merged, available_eq, folded, coverMerged, bind_assoc]
  · rw [count, laterHeld, reached.counted, ← held]
  · rw [laterValues, values]
    have runs := reached.runs network
    by_cases isKept : network ∈ sweep.openNetworks ∧ Egress.held network available = true
    · have kept := (selected network).mp isKept
      rw [if_neg fun found => notMem_freshIn kept ((mem_fresh network).mp found), if_pos isKept]
      exact isRuns_kept canonical before constant runs kept
    · rw [if_neg isKept]
      split
      · rename_i isFresh
        exact isRuns_fresh canonical before constant runs ((mem_fresh network).mp isFresh)
      · rename_i notFresh
        apply isRuns_closed canonical before constant runs
        rintro (kept | fresh)
        · exact isKept ((selected network).mpr kept)
        · exact notFresh ((mem_fresh network).mpr fresh)
  · rw [opened]
    refine keptNodup.append freshNodup fun network isKept isFresh => ?_
    exact notMem_freshIn ((mem_kept network).mp isKept) ((mem_fresh network).mp isFresh)
  · rw [opened, List.mem_append, mem_kept, mem_fresh]
    obtain ⟨latest, rfl⟩ : ∃ latest, port = latest + 1 := ⟨port - 1, by omega⟩
    rw [openBefore_within canonical constant (Nat.le_of_lt_succ before) (Nat.lt_succ_self latest)]
    rfl

end Nvx.Host.Egress
