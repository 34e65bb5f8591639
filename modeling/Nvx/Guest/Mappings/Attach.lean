import Nvx.Data.Transcript
import Nvx.Guest.Mappings.Mapper

namespace Nvx.Guest.Mappings

open Nvx.Data

/-! What one attach asks of the kernel, whatever the kernel answers. -/

abbrev KernelExchange : Type := Exchange Call.Answer

def Unmoved (history : List KernelExchange) : Prop :=
  ∀ tree destination, ⟨.moveMount tree destination, .ok ()⟩ ∉ history

/-- The parent's status, taken just before, showed a mount of the root's own. -/
def CheckedParent (root : TargetRoot) (parent : Descriptor)
    (earlier : List KernelExchange) : Prop :=
  ∃ before status, earlier = before ++ [⟨.status parent, .ok status⟩] ∧
    root.owns status.mount = true

/-- The tree was restricted just before, and the destination's last status showed
the kind of the source at a place that a mapping may cover. -/
structure Prepared (root : TargetRoot) (mapped : List Nat) (access : Access)
    (kind : Option Kind) (tree destination : Descriptor)
    (before : List KernelExchange) (shown : FileStatus) (copied : Descriptor)
    (clone : Bool) (own : FileStatus) (earlier : List KernelExchange) : Prop where
  exchanged : earlier = before ++ [⟨.status destination, .ok shown⟩,
    ⟨.openTree copied clone, .ok tree⟩,
    ⟨.setAttributes tree access.attributes.1 access.attributes.2, .ok ()⟩,
    ⟨.status tree, .ok own⟩]
  kind : ∃ found, Kind.of shown.kind = some found ∧ (∀ asked ∈ kind, asked = found) ∧
    ∃ origin : FileStatus, ⟨.status copied, .ok origin⟩ ∈ before ∧ Kind.of origin.kind = some found
  place : root.owns shown.mount = true ∨ shown.mount ∈ mapped

def Protected (root : TargetRoot) (mapped : List Nat) (access : Access)
    (kind : Option Kind) (earlier : List KernelExchange)
    (exchange : KernelExchange) : Prop :=
  match exchange.1 with
  | .createDirectory parent _ _ => CheckedParent root parent earlier
  | .createFile parent _ _ => CheckedParent root parent earlier
  | .moveMount tree destination => ∃ before shown copied clone own,
      Prepared root mapped access kind tree destination before shown copied clone own earlier
  | _ => True

theorem Unmoved.concat (unmoved : Unmoved history)
    (other : ∀ tree destination, call ≠ .moveMount tree destination)
    (answer : call.Answer) : Unmoved (history ++ [⟨call, answer⟩]) := by
  intro tree destination moved
  rcases List.mem_append.mp moved with before | last
  · exact unmoved tree destination before
  · exact other tree destination (congrArg Sigma.fst (List.mem_singleton.mp last)).symm

section

variable {law : List KernelExchange → KernelExchange → Prop}

theorem serves_query (unmoved : Unmoved earlier)
    (other : ∀ tree destination, call ≠ .moveMount tree destination)
    (lawful : ∀ answer, law earlier ⟨call, answer⟩) :
    Serves law (fun history _ => Unmoved history)
      (fun history answer => history = earlier ++ [⟨call, answer⟩] ∧
        Unmoved history) earlier (query call) :=
  fun answer => ⟨lawful answer, rfl, unmoved.concat other answer⟩

theorem serves_perform (unmoved : Unmoved earlier)
    (other : ∀ tree destination, call ≠ .moveMount tree destination)
    (lawful : ∀ answer, law earlier ⟨call, answer⟩) :
    Serves law (fun history _ => Unmoved history)
      (fun history result => history = earlier ++ [⟨call, .ok result⟩] ∧
        Unmoved history) earlier (perform step call) := by
  refine (serves_query unmoved other lawful).bind ?_
  rintro _ (error | result) ⟨rfl, unmoved⟩
  · exact unmoved
  · exact ⟨rfl, unmoved⟩

end

section

variable {root : TargetRoot} {mapped : List Nat} {access : Access}
    {kind : Option Kind} {earlier : List KernelExchange}

theorem serves_createEntry (unmoved : Unmoved earlier) (checked : CheckedParent root parent earlier)
    (wanted : Kind) :
    Serves (Protected root mapped access kind) (fun history _ => Unmoved history)
      (fun history _ => Unmoved history) earlier
      (createEntry parent name wanted) := by
  cases wanted with
  | directory | file =>
    exact (serves_query unmoved (by nofun) fun _ => checked).mono
      fun _ _ => And.right

theorem serves_create (unmoved : Unmoved earlier) :
    Serves (Protected root mapped access kind) (fun history _ => Unmoved history)
      (fun history _ => Unmoved history) earlier
      (create root parent name wanted path) := by
  refine (serves_perform unmoved (by nofun) fun _ => trivial).bind ?_
  rintro history status ⟨exchanged, unmoved⟩
  refine Serves.ite (fun owned => ?_) fun _ => unmoved
  refine (serves_createEntry unmoved ⟨earlier, status, exchanged, owned⟩ wanted).bind ?_
  rintro history (error | _) unmoved
  · exact Serves.ite (fun _ => unmoved) fun _ => unmoved
  · exact unmoved

theorem serves_giveMode (unmoved : Unmoved earlier) :
    Serves (Protected root mapped access kind) (fun history _ => Unmoved history)
      (fun history _ => Unmoved history) earlier (giveMode euid opened) := by
  refine (serves_perform unmoved (by nofun) fun _ => trivial).bind ?_
  rintro history status ⟨_, unmoved⟩
  refine Serves.ite (fun _ => ?_) fun _ => unmoved
  exact (serves_perform unmoved (by nofun) fun _ => trivial).mono
    fun _ _ => And.right

theorem serves_walkComponent (unmoved : Unmoved earlier) :
    Serves (Protected root mapped access kind) (fun history _ => Unmoved history)
      (fun history _ => Unmoved history) earlier
      (walkComponent euid root target index parent name wanted) := by
  refine (serves_query unmoved (by nofun) fun _ => trivial).bind ?_
  rintro history (error | opened) ⟨_, unmoved⟩
  · refine Serves.ite (fun _ => ?_) fun _ => unmoved
    refine (serves_create unmoved).bind ?_
    intro history created unmoved
    refine (serves_query unmoved (by nofun) fun _ => trivial).bind ?_
    rintro history (error | opened) ⟨_, unmoved⟩
    · exact unmoved
    · refine Serves.ite (fun _ => ?_) fun _ => unmoved
      exact (serves_giveMode unmoved).bind fun _ _ unmoved => unmoved
  · exact unmoved

theorem serves_walkComponents (unmoved : Unmoved earlier) :
    Serves (Protected root mapped access kind) (fun history _ => Unmoved history)
      (fun history _ => Unmoved history) earlier
      (walkComponents euid root target wanted index current components) := by
  induction components generalizing index current earlier with
  | nil => exact unmoved
  | cons component rest induction =>
    refine Serves.ite (fun _ => unmoved) fun _ => ?_
    exact (serves_walkComponent unmoved).bind fun history opened unmoved => induction unmoved

theorem serves_walk (unmoved : Unmoved earlier) :
    Serves (Protected root mapped access kind) (fun history _ => Unmoved history)
      (fun history destination => Unmoved history ∧ ∃ before status,
        history = before ++ [⟨.status destination, .ok status⟩] ∧
        earlier <+: before ∧
        checkDestination root mapped target wanted status = .ok ()) earlier
      (walk euid root mapped target wanted) := by
  refine (serves_walkComponents unmoved).grows.bind ?_
  rintro history (_ | destination) ⟨grown, unmoved⟩
  · exact unmoved
  · refine (serves_perform unmoved (by nofun) fun _ => trivial).bind ?_
    rintro _ status ⟨rfl, unmoved⟩
    cases checked : checkDestination root mapped target wanted status with
    | error error => exact unmoved
    | ok _ => exact ⟨unmoved, history, status, rfl, grown, checked⟩

theorem serves_sourceKind (unmoved : Unmoved earlier) :
    Serves (Protected root mapped access kind) (fun history _ => Unmoved history)
      (fun history found => history = earlier ∧
        Kind.of status.kind = some found) earlier (sourceKind status) := by
  unfold sourceKind
  cases found : Kind.of status.kind with
  | none => exact unmoved
  | some kind => exact ⟨rfl, rfl⟩

theorem serves_openSource (unmoved : Unmoved earlier) :
    Serves (Protected root mapped access kind) (fun history _ => Unmoved history)
      (fun history opened => Unmoved history ∧ ∃ origin : FileStatus,
        ⟨.status opened.1, .ok origin⟩ ∈ history ∧
        Kind.of origin.kind = some opened.2.1) earlier (openSource source) := by
  cases source with
  | beneath directory path =>
    refine Serves.ite (fun _ => unmoved) fun _ => ?_
    refine (serves_perform unmoved (by nofun) fun _ => trivial).bind ?_
    rintro history descriptor ⟨_, unmoved⟩
    refine (serves_perform unmoved (by nofun) fun _ => trivial).bind ?_
    rintro _ status ⟨rfl, unmoved⟩
    refine (serves_sourceKind unmoved).bind ?_
    rintro _ found ⟨rfl, isFound⟩
    exact ⟨unmoved, status, List.mem_concat_self, isFound⟩
  | mount descriptor =>
    refine (serves_perform unmoved (by nofun) fun _ => trivial).bind ?_
    rintro _ status ⟨rfl, unmoved⟩
    refine Serves.ite (fun _ => ?_) fun _ => unmoved
    refine (serves_sourceKind unmoved).bind ?_
    rintro _ found ⟨rfl, isFound⟩
    exact ⟨unmoved, status, List.mem_concat_self, isFound⟩

theorem unmoved_nil : Unmoved [] :=
  fun _ _ => List.not_mem_nil

/-- Moves nothing, and returns the status of what is at `path`, if anything. -/
theorem serves_statusAt {law : List KernelExchange → KernelExchange → Prop}
    {fails : List KernelExchange → MappingError → Prop}
    (opens : ∀ history answer, law history ⟨.openBeneath directory path .oPath 0 true, answer⟩)
    (shows : ∀ history descriptor answer, law history ⟨.status descriptor, answer⟩) :
    Serves law fails (fun history result => ∃ between, history = earlier ++ between ∧
        Unmoved between ∧ ∀ status, result = .ok status → ∃ descriptor,
          between = [⟨.openBeneath directory path .oPath 0 true, .ok descriptor⟩,
            ⟨.status descriptor, .ok status⟩]) earlier
      (statusAt directory path) := by
  refine Serves.ite (fun _ => ?_) fun _ => ?_
  · exact ⟨[], (List.append_nil _).symm, unmoved_nil, nofun⟩
  · rintro (error | descriptor)
    · refine ⟨opens _ _, _, rfl, unmoved_nil.concat (by nofun) _, nofun⟩
    · refine ⟨opens _ _, fun answer =>
        ⟨shows _ _ _, _, List.append_assoc _ _ _, ?_, ?_⟩⟩
      · exact (unmoved_nil.concat (by nofun) _).concat (by nofun) _
      · rintro status rfl
        exact ⟨descriptor, rfl⟩

/-- The tree is the only one that was moved, just now, and its mount is
`mount`. -/
def JustMoved (root : TargetRoot) (mapped : List Nat) (access : Access)
    (kind : Option Kind) (tree : Descriptor) (mount : Nat)
    (history : List KernelExchange) : Prop :=
  ∃ earlier destination before shown copied clone own,
    Prepared root mapped access kind tree destination before shown copied clone own earlier ∧
    Unmoved earlier ∧ own.mount = mount ∧
    history = earlier ++ [⟨.moveMount tree destination, .ok ()⟩]

theorem serves_mountTree {shown : FileStatus}
    (unmoved : Unmoved (before ++ [⟨.status destination, .ok shown⟩]))
    (isKind : Kind.of shown.kind = some found) (asks : ∀ asked ∈ kind, asked = found)
    (origin : ∃ origin : FileStatus, ⟨.status copied, .ok origin⟩ ∈ before ∧
      Kind.of origin.kind = some found)
    (place : root.owns shown.mount = true ∨ shown.mount ∈ mapped) :
    Serves (Protected root mapped access kind) (fun history _ => Unmoved history)
      (fun history mounted => JustMoved root mapped access kind mounted.1
        mounted.2 history) (before ++ [⟨.status destination, .ok shown⟩])
      (mountTree access copied clone destination) := by
  refine (serves_perform unmoved (by nofun) fun _ => trivial).bind ?_
  rintro _ tree ⟨rfl, unmoved⟩
  refine (serves_perform unmoved (by nofun) fun _ => trivial).bind ?_
  rintro _ _ ⟨rfl, unmoved⟩
  refine (serves_perform unmoved (by nofun) fun _ => trivial).bind ?_
  rintro history own ⟨exchanged, unmoved⟩
  have prepared : Prepared root mapped access kind tree destination before shown
      copied clone own history :=
    ⟨exchanged.trans (by simp only [List.append_assoc]; rfl),
      ⟨found, isKind, asks, origin⟩, place⟩
  rintro (error | _)
  · refine ⟨⟨_, _, _, _, _, prepared⟩, fun other place moved => ?_⟩
    rcases List.mem_append.mp moved with before | last
    · exact unmoved other place before
    · cases List.mem_singleton.mp last
  · exact ⟨⟨_, _, _, _, _, prepared⟩, history, destination, before, shown, copied,
      clone, own, prepared, unmoved, rfl, rfl⟩

def Fails (root : TargetRoot) (mapped : List Nat) (access : Access)
    (kind : Option Kind) (history : List KernelExchange)
    (failure : AttachFailure) : Prop :=
  failure.stray = none ∧ Unmoved history ∨ ∃ moved tree mount between answer,
      JustMoved root mapped access kind tree mount moved ∧
      history = moved ++ between ++ [⟨.detach tree, answer⟩] ∧
      Unmoved between ∧
      (answer = .ok () ∧ failure.stray = none ∨
        (∃ error, answer = .error error) ∧ failure.stray = some tree)

def Attached (root : TargetRoot) (mapped : List Nat) (target : List UInt8)
    (access : Access) (kind : Option Kind) (tree : Descriptor) (mount : Nat)
    (history : List KernelExchange) : Prop :=
  ∃ moved descriptor status, JustMoved root mapped access kind tree mount moved ∧ history = moved ++
      [⟨.openBeneath root.directory target .oPath 0 true, .ok descriptor⟩,
        ⟨.status descriptor, .ok status⟩] ∧
    status.mount = mount ∧ status.mountRoot = true

theorem serves_orFail {mounting : Mounting Value} {returns : List KernelExchange → Value → Prop}
    (serves : Serves (Protected root mapped access kind)
      (fun history _ => Unmoved history) returns earlier mounting) :
    Serves (Protected root mapped access kind)
      (Fails root mapped access kind) returns earlier (orFail mounting) := by
  refine Dialogue.Obeys.bind serves ?_
  rintro history (error | value) meets
  · exact .inl ⟨rfl, meets⟩
  · exact meets

theorem serves_detachMoved {returns : List KernelExchange → Nat → Prop}
    (just : JustMoved root mapped access kind tree mount moved) (unmoved : Unmoved between) :
    Serves (Protected root mapped access kind)
      (Fails root mapped access kind) returns (moved ++ between)
      (detachMoved tree) := by
  rintro (error | _)
  · exact ⟨trivial, .inr ⟨moved, tree, mount, between, .error error, just, rfl,
      unmoved, .inr ⟨⟨error, rfl⟩, rfl⟩⟩⟩
  · exact ⟨trivial, .inr ⟨moved, tree, mount, between, .ok (), just, rfl, unmoved, .inl ⟨rfl, rfl⟩⟩⟩

theorem checkDestination_eq_ok_iff :
    checkDestination root mapped target found status = .ok () ↔ Kind.of status.kind = some found ∧
      (status.mountRoot = true → root.owns status.mount = true) ∧
      (root.owns status.mount = true ∨ status.mount ∈ mapped) := by
  simp only [checkDestination, ite_error_eq_ok_iff, ne_eq, not_not, not_and,
    Bool.not_eq_false, and_true]
  cases root.owns status.mount <;> simp

theorem serves_attach : Serves (Protected root mapped access kind) (Fails root mapped access kind)
      (fun history mount => ∃ tree, Attached root mapped target access kind tree mount history) []
      (attach euid root mapped source target access kind) := by
  refine (serves_orFail (serves_openSource unmoved_nil)).bind ?_
  rintro history ⟨copied, found, clone⟩ ⟨unmoved, origin, seen, isOrigin⟩
  refine Serves.ite (fun _ => .inl ⟨rfl, unmoved⟩) fun same => ?_
  refine (serves_orFail (serves_walk unmoved)).bind ?_
  rintro _ destination ⟨unmoved, before, shown, rfl, grown, checked⟩
  obtain ⟨isKind, _, place⟩ := checkDestination_eq_ok_iff.mp checked
  refine (serves_orFail (serves_mountTree unmoved isKind ?_
    ⟨origin, grown.subset seen, isOrigin⟩ place)).bind ?_
  · intro asked isAsked
    rw [Option.mem_def.mp isAsked] at same
    simpa using same
  rintro moved ⟨tree, mount⟩ just
  refine (serves_orFail (serves_statusAt (fun _ _ => trivial) fun _ _ _ => trivial)).bind ?_
  rintro _ (error | status) ⟨between, rfl, unmoved, located⟩
  · exact serves_detachMoved just unmoved
  · refine Serves.ite (fun own => ?_) fun _ => serves_detachMoved just unmoved
    obtain ⟨descriptor, rfl⟩ := located status rfl
    exact ⟨tree, moved, descriptor, status, just, rfl, own⟩

end

end Nvx.Guest.Mappings
