import Nvx.Guest.Mappings.Attach

namespace Nvx.Guest.Mappings

open Nvx.Data

/-! Sessions of a mapper: any operations, and then the unmount, whatever the
kernel answers. -/

inductive Operation where
  | apply (directory : Descriptor) (mappings : List Mapping)
  | moveMount (mount : Descriptor) (target : List UInt8) (access : Access)

def operate (euid : Nat) : Mapper → List Operation → Kernel Mapper
  | mapper, [] => pure mapper
  | mapper, .apply directory mappings :: rest => do
      let (mapper, _) ← mapper.applyWith euid directory mappings
      operate euid mapper rest
  | mapper, .moveMount mount target access :: rest => do
      let (mapper, _) ← mapper.moveMountWith euid mount target access
      operate euid mapper rest

/-- One attach of a session, and what it exchanged with the kernel. -/
structure Attempt where
  before : Mapper
  source : Source
  target : List UInt8
  access : Access
  kind : Option Kind
  exchanges : List KernelExchange
  after : Mapper
  result : Except MappingError Unit

namespace Attempt

def Talks (euid : Nat) (attempt : Attempt) : Prop :=
  (attempt.before.attachWith euid attempt.source attempt.target attempt.access
    attempt.kind).Talks attempt.exchanges (attempt.after, attempt.result)

def mapped (attempt : Attempt) : List Nat :=
  attempt.before.mapped.map (·.mount)

end Attempt

def Operation.Asks (attempt : Attempt) : Operation → Prop
  | .apply directory mappings => ∃ mapping ∈ mappings,
      attempt.source = .beneath directory mapping.source ∧
      attempt.target = mapping.target ∧ attempt.access = mapping.access ∧
      attempt.kind = mapping.kind
  | .moveMount mount target access =>
    attempt.source = .mount mount ∧ attempt.target = target ∧
    attempt.access = access ∧ attempt.kind = some .directory

inductive Attempts (euid : Nat) : Mapper → List Attempt → Mapper → Prop where
  | nil (mapper : Mapper) : Attempts euid mapper [] mapper
  | cons {attempt : Attempt} {rest : List Attempt} {final : Mapper} :
      attempt.Talks euid → Attempts euid attempt.after rest final →
        Attempts euid attempt.before (attempt :: rest) final

theorem Attempts.append (before : Attempts euid first attempts second)
    (after : Attempts euid second others third) :
    Attempts euid first (attempts ++ others) third := by
  induction before with
  | nil => exact after
  | cons talks _ induction => exact .cons talks (induction after)

/-- The transcript is that of attaches for which `asks` holds. -/
def Made (euid : Nat) (asks : Attempt → Prop) (first last : Mapper)
    (transcript : List KernelExchange) : Prop :=
  ∃ attempts, Attempts euid first attempts last ∧
    transcript = attempts.flatMap (·.exchanges) ∧ ∀ attempt ∈ attempts, asks attempt

theorem made_nil : Made euid asks mapper mapper [] :=
  ⟨[], .nil mapper, rfl, List.forall_mem_nil _⟩

theorem Made.append
    (made : Made euid asks first second before) (more : Made euid others second third after)
    (left : ∀ attempt, asks attempt → either attempt)
    (right : ∀ attempt, others attempt → either attempt) :
    Made euid either first third (before ++ after) := by
  obtain ⟨attempts, chain, rfl, areAsked⟩ := made
  obtain ⟨rest, chain', rfl, areAsked'⟩ := more
  refine ⟨attempts ++ rest, chain.append chain', List.flatMap_append.symm, ?_⟩
  rw [List.forall_mem_append]
  exact ⟨fun attempt member => left attempt (areAsked attempt member),
    fun attempt member => right attempt (areAsked' attempt member)⟩

theorem made_attachWith
    (talks : (mapper.attachWith euid source target access kind).Talks transcript (after, result)) :
    Made euid (fun attempt => attempt.source = source ∧
      attempt.target = target ∧ attempt.access = access ∧ attempt.kind = kind)
      mapper after transcript := by
  let attempt : Attempt :=
    ⟨mapper, source, target, access, kind, transcript, after, result⟩
  have chain : Attempts euid attempt.before [attempt] attempt.after :=
    .cons talks (.nil after)
  refine ⟨[attempt], chain, (List.append_nil transcript).symm, ?_⟩
  exact List.forall_mem_singleton.mpr ⟨rfl, rfl, rfl, rfl⟩

theorem made_applyFrom {mappings : List Mapping} {transcript : List KernelExchange}
    (talks : (Mapper.applyFrom euid directory entry mapper mappings).Talks
      transcript (after, result)) :
    Made euid (Operation.Asks · (.apply directory mappings)) mapper after
      transcript := by
  induction mappings generalizing entry mapper transcript with
  | nil =>
    obtain ⟨rfl, same⟩ := talks
    cases same
    exact made_nil
  | cons mapping rest induction =>
    obtain ⟨before, ⟨next, attached⟩, later, rfl, first, talks⟩ :=
      Dialogue.talks_bind.mp talks
    have asked : ∀ attempt : Attempt, (attempt.source = .beneath directory mapping.source ∧
          attempt.target = mapping.target ∧ attempt.access = mapping.access ∧
          attempt.kind = mapping.kind) →
        Operation.Asks attempt (.apply directory (mapping :: rest)) :=
      fun attempt same => ⟨mapping, List.mem_cons_self, same⟩
    cases attached with
    | error error =>
      obtain ⟨rfl, same⟩ := talks
      cases same
      exact (made_attachWith first).append made_nil asked asked
    | ok _ =>
      refine (made_attachWith first).append (induction talks) asked ?_
      rintro attempt ⟨other, member, same⟩
      exact ⟨other, List.mem_cons_of_mem mapping member, same⟩

theorem made_operate {transcript : List KernelExchange}
    (talks : (operate euid mapper operations).Talks transcript after) :
    Made euid (fun attempt => ∃ operation ∈ operations, operation.Asks attempt)
      mapper after transcript := by
  induction operations generalizing mapper transcript with
  | nil =>
    obtain ⟨rfl, rfl⟩ := talks
    exact made_nil
  | cons operation rest induction =>
    have later : ∀ attempt, (∃ operation ∈ rest, operation.Asks attempt) →
          ∃ other ∈ operation :: rest, other.Asks attempt := by
      rintro attempt ⟨other, member, asks⟩
      exact ⟨other, List.mem_cons_of_mem operation member, asks⟩
    cases operation with
    | apply directory mappings =>
      obtain ⟨before, ⟨next, result⟩, others, rfl, first, talks⟩ :=
        Dialogue.talks_bind.mp talks
      refine (made_applyFrom first).append (induction talks) ?_ later
      exact fun attempt asks => ⟨_, List.mem_cons_self, asks⟩
    | moveMount mount target access =>
      obtain ⟨before, ⟨next, result⟩, others, rfl, first, talks⟩ :=
        Dialogue.talks_bind.mp talks
      refine (made_attachWith first).append (induction talks) ?_ later
      exact fun attempt asks => ⟨_, List.mem_cons_self, asks⟩

namespace Attempt

inductive Outcome (attempt : Attempt) : Prop where
  | refused (error : MappingError) (result : attempt.result = .error error)
      (exchanges : attempt.exchanges = [])
      (latched : attempt.after.latched = true)
      (mapped : attempt.after.mapped = attempt.before.mapped)
      (stray : attempt.before.latched = true → attempt.after.stray = attempt.before.stray)
  | attached (result : attempt.result = .ok ()) (tree : Descriptor) (mount : Nat)
      (free : attempt.before.latched = false)
      (unlatched : attempt.after.latched = false)
      (checked : attempt.before.checkTarget attempt.target = .ok ())
      (exchanges : Attached attempt.before.root attempt.mapped attempt.target
        attempt.access attempt.kind tree mount attempt.exchanges)
      (mapped : attempt.after.mapped = attempt.before.mapped ++ [⟨attempt.target, mount⟩])
  | failed (failure : AttachFailure) (result : attempt.result = .error failure.error)
      (free : attempt.before.latched = false)
      (latched : attempt.after.latched = true)
      (exchanges : Fails attempt.before.root attempt.mapped attempt.access
        attempt.kind attempt.exchanges failure)
      (mapped : attempt.after.mapped = attempt.before.mapped)
      (stray : attempt.after.stray = failure.stray.map fun tree => ⟨attempt.target, tree⟩)

theorem Talks.outcome {attempt : Attempt} (talks : attempt.Talks euid) :
    attempt.after.root = attempt.before.root ∧ attempt.after.reserved = attempt.before.reserved ∧
      Throughout (Protected attempt.before.root attempt.mapped attempt.access
        attempt.kind) attempt.exchanges ∧ attempt.Outcome := by
  obtain ⟨before, source, target, access, kind, exchanges, after, result⟩ :=
    attempt
  unfold Talks Mapper.attachWith at talks
  dsimp only at talks
  split at talks
  case isTrue latched =>
    obtain ⟨rfl, same⟩ := talks
    cases same
    exact ⟨rfl, rfl, throughout_nil _, .refused .latched rfl rfl latched rfl fun _ => rfl⟩
  case isFalse free =>
    rw [Bool.not_eq_true] at free
    split at talks
    case h_1 error checked =>
      obtain ⟨rfl, same⟩ := talks
      cases same
      refine ⟨rfl, rfl, throughout_nil _, .refused error rfl rfl rfl rfl ?_⟩
      intro latched
      rw [free] at latched
      cases latched
    case h_2 checked =>
      obtain ⟨first, attached, second, rfl, talks, rest⟩ :=
        Dialogue.talks_bind.mp talks
      obtain ⟨lawful, meets⟩ :=
        Dialogue.Obeys.talks serves_attach (throughout_nil _) talks
      rw [List.nil_append] at lawful meets
      cases attached with
      | ok mount =>
        obtain ⟨rfl, same⟩ := rest
        cases same
        obtain ⟨tree, isAttached⟩ := meets
        rw [List.append_nil]
        exact ⟨rfl, rfl, lawful, .attached rfl tree mount free free checked isAttached rfl⟩
      | error failure =>
        obtain ⟨rfl, same⟩ := rest
        cases same
        rw [List.append_nil]
        exact ⟨rfl, rfl, lawful, .failed failure rfl free rfl meets rfl rfl⟩

/-- The tree that the attach moved is tracked as its mapping, or was detached at
once, or is kept to be detached later. -/
def Kept (attempt : Attempt) (tree : Descriptor) (final : Mapper) : Prop :=
  (∃ mount, Attached attempt.before.root attempt.mapped attempt.target
      attempt.access attempt.kind tree mount attempt.exchanges ∧
    ⟨attempt.target, mount⟩ ∈ final.mapped) ∨
  attempt.exchanges.getLast? = some ⟨.detach tree, .ok ()⟩ ∨
  final.stray = some ⟨attempt.target, tree⟩

end Attempt

theorem JustMoved.eq_of_mem (just : JustMoved root mapped access kind tree mount history)
    (moved : ⟨.moveMount other destination, .ok ()⟩ ∈ history) : other = tree := by
  obtain ⟨earlier, place, _, _, _, _, _, _, unmoved, _, rfl⟩ := just
  rcases List.mem_append.mp moved with before | last
  · exact absurd before (unmoved other destination)
  · cases List.mem_singleton.mp last
    rfl

/-- Every tree that an attach moved is kept by the mapper after it, which is
latched if it keeps the tree as a stray. -/
theorem Attempt.Outcome.kept (outcome : Outcome attempt)
    (moved : ⟨.moveMount tree destination, .ok ()⟩ ∈ attempt.exchanges) :
    (∃ mount, Attached attempt.before.root attempt.mapped attempt.target
        attempt.access attempt.kind tree mount attempt.exchanges ∧
      ⟨attempt.target, mount⟩ ∈ attempt.after.mapped) ∨
    attempt.exchanges.getLast? = some ⟨.detach tree, .ok ()⟩ ∨
    attempt.after.latched = true ∧ attempt.after.stray = some ⟨attempt.target, tree⟩ := by
  cases outcome with
  | refused _ _ exchanges =>
    rw [exchanges] at moved
    exact absurd moved List.not_mem_nil
  | attached _ found mount _ _ _ exchanges mapped =>
    have isAttached := exchanges
    obtain ⟨history, descriptor, status, just, same, _⟩ := exchanges
    rw [same] at moved
    obtain rfl : tree = found := by
      rcases List.mem_append.mp moved with before | after
      · exact just.eq_of_mem before
      · simp at after
    refine .inl ⟨mount, isAttached, ?_⟩
    rw [mapped]
    exact List.mem_concat_self
  | failed failure _ _ latched exchanges _ stray =>
    rcases exchanges with ⟨_, unmoved⟩ |
      ⟨history, found, mount, between, answer, just, same, unmoved, detached⟩
    · exact absurd moved (unmoved tree destination)
    · obtain rfl : tree = found := by
        rw [same] at moved
        rcases List.mem_append.mp moved with before | after
        · rcases List.mem_append.mp before with before | after
          · exact just.eq_of_mem before
          · exact absurd after (unmoved tree destination)
        · simp at after
      rcases detached with ⟨rfl, _⟩ | ⟨_, kept⟩
      · exact .inr (.inl (by rw [same, List.getLast?_concat]))
      · exact .inr (.inr ⟨latched, by rw [stray, kept]; rfl⟩)

/-- No tracked target holds one that was tracked before it, and none is
reserved. -/
structure Mapper.Sound (mapper : Mapper) : Prop where
  apart : mapper.mapped.Pairwise fun earlier later =>
    within earlier.target later.target = false
  free : ∀ mapped ∈ mapper.mapped, mapper.reserved.holds mapped.target = false

theorem checkTarget_eq_ok_iff {mapper : Mapper} :
    mapper.checkTarget target = .ok () ↔ mapper.reserved.holds target = false ∧
        ∀ mapped ∈ mapper.mapped, within mapped.target target = false := by
  unfold Mapper.checkTarget
  split
  case isTrue held => simp [held]
  case isFalse free =>
    rw [Bool.not_eq_true] at free
    split
    case h_1 mapped found =>
      simp only [reduceCtorEq, free, true_and, false_iff, not_forall]
      exact ⟨mapped, List.mem_of_find?_eq_some found, by
        simp [List.find?_some found]⟩
    case h_2 none =>
      simpa [free] using none

theorem Attempt.Outcome.sound (outcome : Outcome attempt)
    (reserved : attempt.after.reserved = attempt.before.reserved)
    (sound : attempt.before.Sound) : attempt.after.Sound := by
  obtain ⟨apart, free⟩ := sound
  cases outcome with
  | refused _ _ _ _ mapped | failed _ _ _ _ _ mapped =>
    exact ⟨by rwa [mapped], by rwa [mapped, reserved]⟩
  | attached _ _ mount _ _ checked _ mapped =>
    obtain ⟨unreserved, outside⟩ := checkTarget_eq_ok_iff.mp checked
    constructor
    · rw [mapped, List.pairwise_append]
      refine ⟨apart, List.pairwise_singleton _ _, fun earlier member later last => ?_⟩
      rw [List.mem_singleton.mp last]
      exact outside earlier member
    · rw [mapped, reserved, List.forall_mem_append]
      exact ⟨free, List.forall_mem_singleton.mpr unreserved⟩

namespace Attempts

theorem root_eq (chain : Attempts euid first attempts last) :
    last.root = first.root ∧ ∀ attempt ∈ attempts, attempt.before.root = first.root := by
  induction chain with
  | nil => exact ⟨rfl, List.forall_mem_nil _⟩
  | cons talks _ induction =>
    obtain ⟨same, others⟩ := induction
    have step := talks.outcome.1
    refine ⟨same.trans step, List.forall_mem_cons.mpr ⟨rfl, ?_⟩⟩
    exact fun attempt member => (others attempt member).trans step

theorem reserved_eq (chain : Attempts euid first attempts last) :
    last.reserved = first.reserved := by
  induction chain with
  | nil => rfl
  | cons talks _ induction => exact induction.trans talks.outcome.2.1

theorem sound (chain : Attempts euid first attempts last) (initial : first.Sound) : last.Sound := by
  induction chain with
  | nil => exact initial
  | cons talks _ induction =>
    obtain ⟨_, reserved, _, outcome⟩ := talks.outcome
    exact induction (outcome.sound reserved initial)

theorem of_latched (chain : Attempts euid first attempts last) (latched : first.latched = true) :
    last.stray = first.stray ∧ ∀ attempt ∈ attempts, attempt.exchanges = [] := by
  induction chain with
  | nil => exact ⟨rfl, List.forall_mem_nil _⟩
  | cons talks _ induction =>
    obtain ⟨_, _, _, outcome⟩ := talks.outcome
    cases outcome with
    | refused error _ exchanges latched' _ stray =>
      obtain ⟨same, others⟩ := induction latched'
      exact ⟨same.trans (stray latched), List.forall_mem_cons.mpr ⟨exchanges, others⟩⟩
    | attached _ _ _ free | failed _ _ free =>
      rw [latched] at free
      cases free

theorem latched_of_error (outcome : Attempt.Outcome attempt)
    (failed : attempt.result ≠ .ok ()) : attempt.after.latched = true := by
  cases outcome with
  | refused _ _ _ latched | failed _ _ _ latched => exact latched
  | attached result => exact absurd result failed

theorem pairwise (chain : Attempts euid first attempts last) :
    attempts.Pairwise fun earlier later =>
      earlier.result ≠ .ok () → later.exchanges = [] := by
  induction chain with
  | nil => exact .nil
  | cons talks chain induction =>
    refine .cons (fun later member failed => ?_) induction
    obtain ⟨_, _, _, outcome⟩ := talks.outcome
    exact (chain.of_latched (latched_of_error outcome failed)).2 later member

theorem subset_mapped (chain : Attempts euid first attempts last) :
    first.mapped ⊆ last.mapped := by
  induction chain with
  | nil => exact List.Subset.refl _
  | cons talks _ induction =>
    obtain ⟨_, _, _, outcome⟩ := talks.outcome
    cases outcome with
    | refused _ _ _ _ mapped | failed _ _ _ _ _ mapped => rwa [mapped] at induction
    | attached _ _ _ _ _ _ _ mapped =>
      rw [mapped] at induction
      exact List.Subset.trans (List.subset_append_left _ _) induction

theorem attached (chain : Attempts euid first attempts last) :
    ∀ attempt ∈ attempts, attempt.result = .ok () → ∃ tree mount,
      Attached attempt.before.root attempt.mapped attempt.target attempt.access
        attempt.kind tree mount attempt.exchanges ∧
      ⟨attempt.target, mount⟩ ∈ last.mapped := by
  induction chain with
  | nil => exact List.forall_mem_nil _
  | cons talks chain induction =>
    refine List.forall_mem_cons.mpr ⟨fun succeeded => ?_, induction⟩
    obtain ⟨_, _, _, outcome⟩ := talks.outcome
    cases outcome with
    | refused _ result | failed _ result =>
      rw [succeeded] at result
      cases result
    | attached _ tree mount _ _ _ exchanges mapped =>
      refine ⟨tree, mount, exchanges, chain.subset_mapped ?_⟩
      rw [mapped]
      exact List.mem_concat_self

theorem lawful (chain : Attempts euid first attempts last) :
    ∀ attempt ∈ attempts, Throughout (Protected attempt.before.root attempt.mapped
      attempt.access attempt.kind) attempt.exchanges := by
  induction chain with
  | nil => exact List.forall_mem_nil _
  | cons talks _ induction =>
    exact List.forall_mem_cons.mpr ⟨talks.outcome.2.2.1, induction⟩

theorem kept (chain : Attempts euid first attempts last) : ∀ attempt ∈ attempts, ∀ tree destination,
      ⟨.moveMount tree destination, .ok ()⟩ ∈ attempt.exchanges →
        attempt.Kept tree last := by
  induction chain with
  | nil => exact List.forall_mem_nil _
  | cons talks chain induction =>
    refine List.forall_mem_cons.mpr ⟨fun tree destination moved => ?_, induction⟩
    obtain ⟨_, _, _, outcome⟩ := talks.outcome
    rcases outcome.kept moved with
      ⟨mount, isAttached, tracked⟩ | detached | ⟨latched, stray⟩
    · exact .inl ⟨mount, isAttached, chain.subset_mapped tracked⟩
    · exact .inr (.inl detached)
    · exact .inr (.inr ((chain.of_latched latched).1.trans stray))

end Attempts

end Nvx.Guest.Mappings
