import Nvx.Guest.Mappings.Sessions

namespace Nvx.Guest.Mappings

open Nvx.Data

/-! The unmount, and whole sessions with it. -/

def Harmless (_earlier : List KernelExchange) (exchange : KernelExchange) :
    Prop :=
  match exchange.1 with
  | .createDirectory .. => False
  | .createFile .. => False
  | .moveMount .. => False
  | _ => True

/-- The mapping's mount was seen at a name, and unmounted there. -/
def Unmounted (mapping : Mapped) (transcript : List KernelExchange) : Prop :=
  ∃ before directory name descriptor status after, transcript = before ++
      [⟨.openBeneath directory name .oPath 0 true, .ok descriptor⟩,
        ⟨.status descriptor, .ok status⟩,
        ⟨.unmountBeneath directory name, .ok ()⟩] ++ after ∧
    status.mount = mapping.mount ∧ status.mountRoot = true

theorem Unmounted.mono {mapping : Mapped} (unmounted : Unmounted mapping transcript)
    (grown : transcript <+: longer) :
    Unmounted mapping longer := by
  obtain ⟨before, directory, name, descriptor, status, after, rfl, own⟩ := unmounted
  obtain ⟨rest, rfl⟩ := grown
  exact ⟨before, directory, name, descriptor, status, after ++ rest, List.append_assoc _ _ _, own⟩

theorem serves_openParent {earlier : List KernelExchange}
    {fails : List KernelExchange → MappingError → Prop} :
    Serves Harmless fails (fun _ _ => True) earlier (openParent root target) := by
  refine Serves.ite (fun _ => trivial) fun _ => ?_
  refine Serves.ite (fun _ => trivial) fun _ => ?_
  exact fun answer => ⟨trivial, trivial⟩

theorem serves_unmount {mapping : Mapped} {earlier : List KernelExchange} :
    Serves Harmless (fun _ _ => True) (fun history _ => Unmounted mapping history) earlier
      (unmount root mapping) := by
  refine serves_openParent.bind ?_
  rintro history (error | directory) _
  · exact trivial
  · dsimp only
    cases UnixPath.fileName mapping.target with
    | none => exact trivial
    | some name =>
      refine (serves_statusAt (fun _ _ => trivial) fun _ _ _ => trivial).bind ?_
      rintro _ (error | status) ⟨between, rfl, _, located⟩
      · exact trivial
      · obtain ⟨descriptor, rfl⟩ := located status rfl
        refine Serves.ite (fun own => ?_) fun _ => trivial
        rintro (error | _)
        · exact ⟨trivial, trivial⟩
        · refine ⟨trivial, history, directory, name.val, descriptor, status, [], ?_, own⟩
          rw [List.append_nil, List.append_assoc]
          rfl

theorem obeys_detachStray {earlier : List KernelExchange} :
    (Mapper.detachStray count stray).Obeys Harmless (fun history failures => ∀ kept ∈ stray,
        ⟨.detach kept.tree, .ok ()⟩ ∈ history ∨
          ∃ error, (count, ⟨absolute kept.target, error⟩) ∈ failures)
      earlier := by
  cases stray with
  | none => exact nofun
  | some stray =>
    rintro (error | _)
    · refine ⟨trivial, fun kept same => .inr ?_⟩
      cases same
      exact ⟨_, List.mem_singleton_self _⟩
    · refine ⟨trivial, fun kept same => .inl ?_⟩
      cases same
      exact List.mem_concat_self

theorem obeys_unmountEach {mappings : List (Mapped × Nat)} {earlier : List KernelExchange} :
    (Mapper.unmountEach root mappings).Obeys Harmless (fun history failures => ∀ mapping ∈ mappings,
        Unmounted mapping.1 history ∨
          ∃ error, (mapping.2, ⟨absolute mapping.1.target, error⟩) ∈ failures)
      earlier := by
  induction mappings generalizing earlier with
  | nil => exact List.forall_mem_nil _
  | cons mapping rest induction =>
    obtain ⟨mapping, index⟩ := mapping
    refine Dialogue.Obeys.bind serves_unmount ?_
    intro history result meets
    refine Dialogue.Obeys.bind induction.grows ?_
    rintro later failures ⟨grown, others⟩
    cases result with
    | ok _ =>
      exact List.forall_mem_cons.mpr ⟨.inl (Unmounted.mono meets grown), others⟩
    | error error =>
      refine List.forall_mem_cons.mpr ⟨.inr ⟨error, List.mem_cons_self⟩, fun other member => ?_⟩
      refine (others other member).imp_right ?_
      rintro ⟨reason, reported⟩
      exact ⟨reason, List.mem_cons_of_mem _ reported⟩

theorem obeys_unmountWith {mapper : Mapper} {earlier : List KernelExchange} :
    mapper.unmountWith.Obeys Harmless (fun history unmounted =>
        (∀ stray ∈ mapper.stray, ⟨.detach stray.tree, .ok ()⟩ ∈ history ∨
          ∃ error, (mapper.mapped.length, ⟨absolute stray.target, error⟩) ∈ unmounted.2) ∧
        ∀ index mapping, mapper.mapped[index]? = some mapping → Unmounted mapping history ∨
            ∃ error, (index, ⟨absolute mapping.target, error⟩) ∈ unmounted.2)
      earlier := by
  refine Dialogue.Obeys.bind obeys_detachStray ?_
  intro history strays detached
  refine Dialogue.Obeys.bind obeys_unmountEach.grows ?_
  rintro later failures ⟨grown, unmounted⟩
  constructor
  · intro stray kept
    rcases detached stray kept with now | ⟨error, reported⟩
    · exact .inl (grown.subset now)
    · exact .inr ⟨error, List.mem_append_left _ reported⟩
  · intro index mapping found
    have member : (mapping, index) ∈ mapper.mapped.zipIdx.reverse := by
      rw [List.mem_reverse, List.mem_zipIdx_iff_getElem?]
      exact found
    refine (unmounted _ member).imp_right ?_
    rintro ⟨error, reported⟩
    exact ⟨error, List.mem_append_right _ reported⟩

def session (euid : Nat) (root : TargetRoot) (reserved : Reserved) (operations : List Operation) :
    Kernel (Mapper × List (Nat × UnmountFailure)) := do
  let mapper ← operate euid (.new root reserved) operations
  let (_, failures) ← mapper.unmountWith
  pure (mapper, failures)

/-- Whatever the kernel answers, no mount is unprotected or forgotten. -/
theorem no_mount_is_unprotected_or_forgotten (euid : Nat) (root : TargetRoot)
    (reserved : Reserved) (operations : List Operation)
    (transcript : List KernelExchange) (mapper : Mapper) (failures : List (Nat × UnmountFailure))
    (talks : (session euid root reserved operations).Talks transcript (mapper, failures)) :
    ∃ attempts unmounting, transcript = attempts.flatMap (·.exchanges) ++ unmounting ∧
      Attempts euid (.new root reserved) attempts mapper ∧
      (∀ attempt ∈ attempts, (∃ operation ∈ operations, operation.Asks attempt) ∧
        Throughout (Protected root attempt.mapped attempt.access attempt.kind) attempt.exchanges ∧
        (attempt.result = .ok () → ∃ tree mount,
          Attached root attempt.mapped attempt.target attempt.access attempt.kind
            tree mount attempt.exchanges ∧
          ⟨attempt.target, mount⟩ ∈ mapper.mapped) ∧
        ∀ tree destination, ⟨.moveMount tree destination, .ok ()⟩ ∈ attempt.exchanges →
            attempt.Kept tree mapper) ∧
      (attempts.Pairwise fun earlier later =>
        earlier.result ≠ .ok () → later.exchanges = []) ∧
      (mapper.mapped.Pairwise fun earlier later =>
        within earlier.target later.target = false) ∧
      (∀ mapped ∈ mapper.mapped, reserved.holds mapped.target = false) ∧
      Throughout Harmless unmounting ∧
      (∀ stray ∈ mapper.stray, ⟨.detach stray.tree, .ok ()⟩ ∈ unmounting ∨
        ∃ error, (mapper.mapped.length, ⟨absolute stray.target, error⟩) ∈ failures) ∧
      ∀ index mapping, mapper.mapped[index]? = some mapping → Unmounted mapping unmounting ∨
          ∃ error, (index, ⟨absolute mapping.target, error⟩) ∈ failures := by
  obtain ⟨operating, final, rest, rfl, operated, talks⟩ :=
    Dialogue.talks_bind.mp talks
  obtain ⟨unmounting, ⟨_, reported⟩, nothing, rfl, unmounted, talks⟩ :=
    Dialogue.talks_bind.mp talks
  obtain ⟨rfl, same⟩ := talks
  cases same
  obtain ⟨attempts, chain, rfl, asked⟩ := made_operate operated
  obtain ⟨harmless, strays, mappings⟩ :=
    Dialogue.Obeys.talks obeys_unmountWith (throughout_nil _) unmounted
  rw [List.nil_append] at harmless strays mappings
  rw [List.append_nil]
  have sound := chain.sound ⟨.nil, List.forall_mem_nil _⟩
  have free := sound.free
  rw [chain.reserved_eq] at free
  refine ⟨attempts, unmounting, rfl, chain, ?_, chain.pairwise, sound.apart, free,
    harmless, strays, mappings⟩
  intro attempt member
  have roots := chain.root_eq.2 attempt member
  have lawful := chain.lawful attempt member
  have attached := chain.attached attempt member
  rw [roots] at lawful attached
  exact ⟨asked attempt member, lawful, attached, chain.kept attempt member⟩

/-- A kernel that moves a mount to the directory `a`, which it forgets after the
move if `renamed`. -/
def oneDirectory (renamed : Bool) (earlier : List KernelExchange) : (call : Call) → call.Answer
  | .openBeneath .. =>
    if earlier.any fun exchange => exchange.1 = .moveMount 12 11 then
      if renamed then .error ENOENT else .ok (13 : Descriptor)
    else .ok (11 : Descriptor)
  | .status descriptor =>
    .ok ⟨.directory, 0, directoryMode, if descriptor = 11 then 1 else 7, descriptor ≠ 11⟩
  | .openTree .. => .ok (12 : Descriptor)
  | .createDirectory .. | .createFile .. | .changeMode .. | .setAttributes ..
  | .moveMount .. | .unmountBeneath .. | .detach .. => .ok ()

def oneMove : Kernel (Mapper × List (Nat × UnmountFailure)) :=
  session 0 ⟨3, [1]⟩ ⟨[], []⟩ [.moveMount 5 (asBytes "a") .readWrite]

theorem moved_mount_is_tracked : ∃ transcript mapper failures unmounting,
    oneMove.Talks transcript (mapper, failures) ∧ mapper.mapped = [⟨asBytes "a", 7⟩] ∧
      Throughout Harmless unmounting ∧ unmounting <:+ transcript := by
  obtain ⟨transcript, _, talks⟩ :=
    Dialogue.exists_talks_transcribe (oneDirectory false) [] oneMove
  obtain ⟨attempts, unmounting, split, _, _, _, _, _, harmless, _⟩ :=
    no_mount_is_unprotected_or_forgotten 0 ⟨3, [1]⟩ ⟨[], []⟩ _ transcript _ _ talks
  exact ⟨transcript, _, _, unmounting, talks, rfl, harmless, ⟨_, split.symm⟩⟩

/-- A tree that was moved is not tracked if it is not at its target then. -/
theorem renamed_mount_is_not_tracked : ∃ transcript mapper failures,
    oneMove.Talks transcript (mapper, failures) ∧
      ⟨.moveMount 12 11, .ok ()⟩ ∈ transcript ∧ mapper.mapped = [] := by
  obtain ⟨transcript, same, talks⟩ :=
    Dialogue.exists_talks_transcribe (oneDirectory true) [] oneMove
  refine ⟨transcript, _, _, talks, ?_, rfl⟩
  rw [List.nil_append] at same
  rw [← same]
  exact @List.mem_of_getElem? _ _ 6 _ rfl

end Nvx.Guest.Mappings
