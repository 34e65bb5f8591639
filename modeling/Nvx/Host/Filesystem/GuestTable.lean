import Nvx.Guest.Mappings.Mapper
import Nvx.Guest.Mappings.TableRuns
import Nvx.Host.Filesystem.Check

namespace Nvx.Host.Filesystem

open Nvx.Data
open Nvx.Protocol (slash HostMap MapsPayload GuestHostMap Chunk tableOf
  maxHostMappings encodeMapsPayloads)
open Nvx.Guest.Mappings (MappingTable Mapping Mapper Maps Reserved)
open Nvx.Guest.Mappings.MappingTable (Part Return machine)

/-! What the guest makes of the bind mounts of a checked plan. -/

/-- The guest's paths below the root, as the host writes them. -/
def Absolute (path : String) (below : List UInt8) : Prop :=
  asBytes path = slash :: below

theorem within_iff {inner outer : List UInt8} : Guest.Mappings.within inner outer = true ↔
      inner = outer ∨ ∃ rest, inner = outer ++ slash :: rest := by
  simp only [Guest.Mappings.within, Bool.and_eq_true, Bool.or_eq_true, decide_eq_true_eq]
  constructor
  · rintro ⟨⟨rest, rfl⟩, same | next⟩
    · rw [List.length_append, Nat.add_eq_left, List.length_eq_zero_iff] at same
      exact .inl (by rw [same, List.append_nil])
    · rw [List.getElem?_append_right (Nat.le_refl _), Nat.sub_self] at next
      cases rest with
      | nil => simp at next
      | cons byte rest =>
        rw [List.getElem?_cons_zero, Option.some.injEq] at next
        exact .inr ⟨rest, by rw [next]⟩
  · rintro (rfl | ⟨rest, rfl⟩)
    · exact ⟨List.prefix_rfl, .inl rfl⟩
    · refine ⟨List.prefix_append _ _, .inr ?_⟩
      rw [List.getElem?_append_right (Nat.le_refl _), Nat.sub_self]
      rfl

theorem within_of_below {inner outer : String} (isInner : Absolute inner innerBelow)
    (isOuter : Absolute outer outerBelow)
    (inside : Guest.Mappings.within innerBelow outerBelow = true) :
    within inner outer = true := by
  simp only [within, Bool.or_eq_true, decide_eq_true_eq, Option.any_eq_true]
  rcases within_iff.mp inside with rfl | ⟨rest, rfl⟩
  · exact .inl (asBytes_injective (isInner.trans isOuter.symm))
  · refine .inr ⟨slash :: rest, ?_, by simp⟩
    rw [isInner, isOuter, stripPrefix, if_pos, ← List.cons_append, List.drop_left]
    exact List.prefix_append _ _

theorem exists_absolute_of_relative (found : Reserved.relative paths = .ok below) :
    ∀ relative ∈ below, ∃ path ∈ paths, Absolute path relative := by
  induction paths generalizing below with
  | nil =>
    cases found
    exact List.forall_mem_nil _
  | cons path paths induction =>
    unfold Reserved.relative at found
    split at found
    · cases found
    · rename_i first isFirst
      simp only [bind_eq_ok_iff, Except.ok.injEq] at found
      obtain ⟨others, areOthers, rfl⟩ := found
      rw [List.forall_mem_cons]
      refine ⟨⟨path, List.mem_cons_self, ?_⟩, ?_⟩
      · exact (Guest.Mappings.belowItsRoot_absolute_eq_some_iff.mp isFirst).1
      · intro relative member
        obtain ⟨other, isOther, same⟩ := induction areOthers relative member
        exact ⟨other, List.mem_cons_of_mem path isOther, same⟩

theorem reservation_eq_none_iff {reserved : ReservedTargets} :
    reserved.reservation target = none ↔ target ≠ "/" ∧
      target ∉ reserved.exact ∧ ∀ tree ∈ reserved.trees,
        within target tree = false ∧ within tree target = false := by
  unfold ReservedTargets.reservation
  split
  case isTrue root => simp [root]
  case isFalse root =>
    simp only [Option.or_eq_none_iff, List.find?_eq_none, decide_eq_true_eq,
      Bool.not_eq_true, Bool.or_eq_false_iff, root, ne_eq, not_false_eq_true,
      true_and, List.forall_mem_ne']

theorem holds_eq_false (found : Reserved.containerRoot = .ok reserved)
    (isTarget : Absolute target below)
    (free : ReservedTargets.containerRoot.reservation target = none) :
    reserved.holds below = false := by
  simp only [Reserved.containerRoot, Reserved.new, bind_eq_ok_iff, Except.ok.injEq] at found
  obtain ⟨trees, areTrees, paths, arePaths, rfl⟩ := found
  obtain ⟨_, exact, outside⟩ := reservation_eq_none_iff.mp free
  have apart : ∀ tree ∈ Protocol.reservedMountTargets, ∀ treeBelow, Absolute tree treeBelow →
        (Guest.Mappings.within below treeBelow ||
          Guest.Mappings.within treeBelow below) = false := by
    intro tree member treeBelow isTree
    obtain ⟨notInside, notAround⟩ := outside tree member
    rw [Bool.or_eq_false_iff]
    constructor
    · by_contra inside
      rw [within_of_below isTarget isTree (Bool.eq_true_of_not_eq_false inside)] at notInside
      cases notInside
    · by_contra around
      rw [within_of_below isTree isTarget (Bool.eq_true_of_not_eq_false around)] at notAround
      cases notAround
  unfold Reserved.holds
  dsimp only
  rw [Bool.or_eq_false_iff, Bool.or_eq_false_iff, List.any_eq_false, List.any_eq_false]
  refine ⟨⟨?_, ?_⟩, ?_⟩
  · exact apart "/run/nvx/time" (by decide) _ rfl
  · intro treeBelow member
    obtain ⟨tree, isMember, isTree⟩ :=
      exists_absolute_of_relative areTrees treeBelow member
    rw [apart tree isMember treeBelow isTree]
    decide
  · intro path member same
    obtain ⟨other, isMember, isOther⟩ :=
      exists_absolute_of_relative arePaths path member
    rw [decide_eq_true_eq] at same
    subst same
    rw [asBytes_injective (isTarget.trans isOther.symm)] at exact
    exact exact isMember

theorem depth_le_of_within {inner outer : String} (isInner : Absolute inner innerBelow)
    (isOuter : Absolute outer outerBelow)
    (inside : Guest.Mappings.within innerBelow outerBelow = true) :
    depth outer ≤ depth inner := by
  unfold depth
  rw [isInner, isOuter]
  rcases within_iff.mp inside with rfl | ⟨rest, rfl⟩
  · exact Nat.le_refl _
  · rw [← List.cons_append, List.splitOn_append_cons_self, List.filter_append, List.length_append]
    exact Nat.le_add_right _ _

theorem not_within_of_targetKey_lt {inner outer : String}
    (earlier : targetKey inner < targetKey outer)
    (isInner : Absolute inner innerBelow) (isOuter : Absolute outer outerBelow) :
    Guest.Mappings.within innerBelow outerBelow = false := by
  by_contra inside
  replace inside := Bool.eq_true_of_not_eq_false inside
  have deeper := depth_le_of_within isInner isOuter inside
  have longer : asBytes outer <+: asBytes inner := by
    rw [isInner, isOuter]
    rcases within_iff.mp inside with rfl | ⟨rest, rfl⟩
    · exact List.prefix_rfl
    · exact List.prefix_append (slash :: outerBelow) _
  rcases List.cons_lt_cons_iff.mp earlier with lower | ⟨_, before⟩
  · exact Nat.not_lt.mpr deeper lower
  · exact List.not_lt.mpr (longer.map UInt8.toNat).le before

structure Placed (earlier : List Bind) (bind : Bind) : Prop where
  wellFormed : targetProblem bind.target = none
  free : ReservedTargets.containerRoot.reservation bind.target = none
  after : ∀ previous ∈ earlier.getLast?, targetKey previous.target < targetKey bind.target

theorem placed_of_check {plan : ExportPlan} (checked : plan.check .containerRoot = .ok ()) :
    Throughout Placed plan.binds := by
  simp only [ExportPlan.check, bind_eq_ok_iff] at checked
  obtain ⟨_, _, _, _, _, _, _, _, _, binds, _⟩ := checked
  intro earlier bind later split
  have passes := checkAfter_eq_ok_iff.mp binds earlier bind later split
  unfold ExportPlan.checkBind at passes
  split at passes
  · cases passes
  · simp only [ExportPlan.checkTarget, bind_eq_ok_iff, failOn_eq_ok_iff,
      Option.filter_eq_none_iff, decide_eq_true_eq, not_le, List.nil_append]
      at passes
    obtain ⟨_, _, _, ⟨_, wellFormed, free⟩, _, after, _⟩ := passes
    exact ⟨wellFormed, free, after⟩

theorem pairwise_targetKey (placed : Throughout Placed binds) : binds.Pairwise fun first second =>
      targetKey first.target < targetKey second.target :=
  (placed.mono fun _ _ holds => holds.after).pairwise lt_trans

theorem guestSource_ne_nil (child : Nat) (source : String) :
    asBytes (guestSource child source) ≠ [] := by
  intro empty
  have none : guestSource child source = "" := asBytes_injective empty
  unfold guestSource at none
  split at none
  · exact Nat.repr_ne_empty none
  · simp at none

theorem map_target_of_maps {binds : List Bind} {mappings : List Guest.Mappings.Mapping}
    (maps : List.Forall₂ (fun bind mapping => Absolute bind.target mapping.target) binds mappings) :
    mappings.map (fun mapping => slash :: mapping.target) =
      binds.map fun bind => asBytes bind.target := by
  induction maps with
  | nil => rfl
  | cons first _ induction =>
    rw [List.map_cons, List.map_cons, induction, first]

theorem checkTarget_eq_ok (later : List Guest.Mappings.Mapping)
    (placed : Throughout Placed binds) (found : Reserved.containerRoot = .ok reserved)
    (targets : (earlier ++ mapping :: later).map (fun mapping => slash :: mapping.target) =
        binds.map fun bind => asBytes bind.target)
    (reserves : Mapper.reserved mapper = reserved)
    (tracked : mapper.mapped.map (·.target) = earlier.map (·.target)) :
    mapper.checkTarget mapping.target = .ok () := by
  have free : reserved.holds mapping.target = false := by
    have member : slash :: mapping.target ∈ binds.map fun bind => asBytes bind.target := by
      rw [← targets]
      simp
    obtain ⟨bind, isBind, isTarget⟩ := List.mem_map.mp member
    obtain ⟨before, after, split⟩ := List.mem_iff_append.mp isBind
    exact holds_eq_false found isTarget (placed before bind after split).free
  have apart : (binds.map fun bind => asBytes bind.target).Pairwise
      fun inner outer => ∀ innerBelow outerBelow, inner = slash :: innerBelow →
        outer = slash :: outerBelow → Guest.Mappings.within innerBelow outerBelow = false := by
    rw [List.pairwise_map]
    refine (pairwise_targetKey placed).imp ?_
    intro inner outer before innerBelow outerBelow isInner isOuter
    exact not_within_of_targetKey_lt before isInner isOuter
  rw [← targets, List.pairwise_map, List.pairwise_append] at apart
  have outside : ∀ mapped ∈ mapper.mapped,
      Guest.Mappings.within mapped.target mapping.target = false := by
    intro mapped member
    have isEarlier : mapped.target ∈ earlier.map (·.target) := by
      rw [← tracked]
      exact List.mem_map_of_mem member
    obtain ⟨other, isOther, same⟩ := List.mem_map.mp isEarlier
    rw [← same]
    exact apart.2.2 other isOther mapping List.mem_cons_self _ _ rfl rfl
  have none : (mapper.mapped.find? fun mapped =>
      Guest.Mappings.within mapped.target mapping.target) = none := by
    rw [List.find?_eq_none]
    intro mapped member
    rw [outside mapped member]
    decide
  unfold Mapper.checkTarget
  rw [reserves, free, none]
  rfl

/-- Every mapping of a checked plan reaches the guest's mapper, in order, and
the mapper refuses none of their targets. -/
theorem planned_mappings_are_mapped (plan : ExportPlan)
    (checked : plan.check .containerRoot = .ok ()) (limit : Nat) (payloads : List (List UInt8))
    (encoded : encodeMapsPayloads plan.guestTable limit = .ok payloads) (Error : Type) :
    ∃ table reserved, MappingTable.new (UInt32.ofNat plan.binds.length) = some table ∧
      Reserved.containerRoot = .ok reserved ∧
      let parts := payloads.map (MappingTable.succeeds Error)
      let trace := (machine Error).trace table parts
      let mappings := MappingTable.handed trace
      (∀ event ∈ trace, event.2.result = .ok ()) ∧
      List.Forall₂ Maps (plan.guestTable.map Protocol.MapOf.bytes) mappings ∧
      ((machine Error).after table parts).isComplete = true ∧
      ∀ earlier mapping later, mappings = earlier ++ mapping :: later →
        ∀ mapper : Mapper, mapper.reserved = reserved →
          mapper.mapped.map (·.target) = earlier.map (·.target) →
            mapper.checkTarget mapping.target = .ok () := by
  have named : ∀ map ∈ plan.guestTable, asBytes map.source ≠ [] := by
    intro map member
    obtain ⟨bind, _, rfl⟩ := List.mem_map.mp member
    exact guestSource_ne_nil _ _
  obtain ⟨table, isTable, expected, received⟩ :=
    @MappingTable.Received.encoded Error _ _ _ encoded named
  obtain ⟨reserved, found⟩ : ∃ reserved, Reserved.containerRoot = .ok reserved := ⟨_, rfl⟩
  have maps := received.handed
  rw [ExportPlan.guestTable, List.length_map] at isTable
  refine ⟨table, reserved, isTable, found, received.succeeded, maps, ?_, ?_⟩
  · exact received.isComplete (by rw [expected, List.length_map])
  · intro earlier mapping later split mapper reserves tracked
    refine checkTarget_eq_ok later (placed_of_check checked) found ?_ reserves tracked
    rw [← split]
    rw [ExportPlan.guestTable, List.map_map, List.forall₂_map_left_iff] at maps
    exact map_target_of_maps (maps.imp fun _ _ mapped => mapped.target.symm)

theorem home_valid : asBytes "home" ∉ [[], [Protocol.dot],
      [Protocol.dot, Protocol.dot]] ∧ Protocol.slash ∉ asBytes "home" := by
  decide

def workspacePlan : ExportPlan where
  children := [{
    root := [.rootDir, .normal ⟨asBytes "home", home_valid⟩]
    file := false
    writable := true
    denied := []
    deniedIdentities := []
    allowed := []
    write := [] }]
  binds := [⟨0, "docs", "/docs", true, some ⟨1, 2⟩⟩, ⟨0, "", "/workspace", false, none⟩,
    ⟨0, "data", "/workspace/data", false, some ⟨1, 3⟩⟩]
  owner := .caller

theorem workspace_is_mapped : workspacePlan.check .containerRoot = .ok () ∧ ∃ payloads table,
      encodeMapsPayloads workspacePlan.guestTable 48 = .ok payloads ∧ payloads.length = 2 ∧
      MappingTable.new 3 = some table ∧
      ((machine Unit).after table
        (payloads.map (MappingTable.succeeds Unit))).isComplete = true := by
  obtain ⟨payloads, encoded, two⟩ : ∃ payloads,
      encodeMapsPayloads workspacePlan.guestTable 48 = .ok payloads ∧ payloads.length = 2 :=
    ⟨_, rfl, rfl⟩
  obtain ⟨table, _, isTable, _, _, _, complete, _⟩ :=
    planned_mappings_are_mapped workspacePlan rfl 48 payloads encoded Unit
  exact ⟨rfl, payloads, table, encoded, two, isTable, complete⟩

end Nvx.Host.Filesystem
