import Nvx.Host.Filesystem.Visibility

namespace Nvx.Host.Filesystem

open Nvx.Data
open Nvx.UnixPath

/-- The host lets the guest write what is at or below the child's root. -/
def ExportChild.Writes (child : ExportChild) (path : Path) : Prop :=
  child.writable = true ∧ (child.write = [] ∨ ∃ write ∈ child.write, write <+: path)

def ExportPlan.Maps (made : ExportPlan) (path : Path) (target : String)
    (readOnly : Bool) : Prop :=
  ∃ bind ∈ made.binds, bind.target = target ∧ bind.readOnly = readOnly ∧
    ∃ child, made.children[bind.child]? = some child ∧ child.bound bind = path

namespace ExportPlan

variable {plan : ExportPlan} {refused root : Path}

theorem uninspected_ne (path : Path) (error : IoError) :
    Except.error (uninspected path error) ≠ (.error (.readOnlyInWritable refused root) :
      Except VerifyError Unit) := by
  cases error <;> simp [uninspected]

theorem verifyIdentity_ne :
    verifyIdentity host path expected ≠ .error (.readOnlyInWritable refused root) := by
  unfold verifyIdentity
  split
  · exact uninspected_ne _ _
  · exact failIf_ne_error nofun

/-- Only the check of the read-only bind mounts refuses one in a writable part. -/
theorem verify_ne_readOnly
    (passes : checkAll plan.verifyReadOnly (plan.binds.filter fun bind => bind.readOnly) = .ok ())
    (later : FileSystem) : plan.verify later ≠ .error (.readOnlyInWritable refused root) := by
  unfold verify
  refine bind_ne_error (by simp [passes]) fun _ =>
    bind_ne_error (checkAll_ne_error fun child _ => ?_) fun _ =>
      bind_ne_error (checkAll_ne_error fun bind _ => ?_) fun _ =>
        bind_ne_error (checkAll_ne_error fun denied _ => ?_) fun _ =>
          checkAll_ne_error fun child _ => ?_
  · unfold verifyKind
    split
    · exact uninspected_ne _ _
    · exact failIf_ne_error nofun
  · unfold verifyBind
    split
    · exact nofun
    · exact nofun
    · exact verifyIdentity_ne
  · unfold verifyDenied
    split
    · exact nofun
    · exact verifyIdentity_ne
  · split
    · unfold verifyCaller
      split
      · exact uninspected_ne _ _
      · exact failIf_ne_error nofun
    · exact nofun

end ExportPlan

theorem mem_readWritePaths : path ∈ readWritePaths root mapped ↔ root <+: path ∧
      ∃ entry ∈ mapped, entry.readOnly = false ∧ entry.canonical = path := by
  simp only [readWritePaths, List.mem_map, List.mem_filter, Bool.and_eq_true,
    Bool.not_eq_true', Path.startsWith, decide_eq_true_eq]
  constructor
  · rintro ⟨entry, ⟨member, writable, below⟩, rfl⟩
    exact ⟨below, entry, member, writable, rfl⟩
  · rintro ⟨below, entry, member, writable, rfl⟩
    exact ⟨entry, ⟨member, writable, below⟩, rfl⟩

theorem mem_narrowingPaths :
    path ∈ narrowingPaths root write ↔ root <+: path ∧ path ∈ canonicals write := by
  simp only [narrowingPaths, canonicals, List.mem_map, List.mem_filter,
    Path.startsWith, decide_eq_true_eq]
  constructor
  · rintro ⟨found, ⟨member, below⟩, rfl⟩
    exact ⟨below, found, member, rfl⟩
  · rintro ⟨below, found, member, rfl⟩
    exact ⟨found, ⟨member, below⟩, rfl⟩

theorem narrowed_eq_true_iff : narrowed write roots path = true ↔
      path ∈ roots ∧ ∃ other ∈ canonicals write, path <+: other := by
  simp [narrowed, canonicals, Path.startsWith]

namespace Drafted

variable {draft : Draft}
    (drafted : Drafted host request draft)

include drafted

theorem readOnly_iff (member : entry ∈ draft.mapped) :
    entry.readOnly = true ↔ ∃ mapping ∈ request.mappings,
      mapping.Asks host entry.canonical entry.target ∧ mapping.readOnly = true := by
  constructor
  · intro readOnly
    obtain ⟨mapping, isMapping, asks, same⟩ := (drafted.entries entry member).asked
    exact ⟨mapping, isMapping, asks, same.trans readOnly⟩
  · rintro ⟨mapping, isMapping, asks, readOnly⟩
    obtain ⟨kept, isKept, also, restricts⟩ := drafted.kept mapping isMapping
    obtain rfl := List.inj_on_of_nodup_map drafted.targets isKept member (also.unique asks).2
    exact restricts readOnly

/-- The merged entries are what the request maps. -/
theorem maps_iff {access : Bool} : request.Maps host path target access ↔
    ∃ entry ∈ draft.mapped,
      entry.canonical = path ∧ entry.target = target ∧ entry.readOnly = access := by
  constructor
  · rintro ⟨⟨mapping, isMapping, asks⟩, restricted⟩
    obtain ⟨entry, member, also, _⟩ := drafted.kept mapping isMapping
    obtain ⟨rfl, rfl⟩ := asks.unique also
    exact ⟨entry, member, rfl, rfl,
      Bool.eq_iff_iff.mpr ((drafted.readOnly_iff member).trans restricted.symm)⟩
  · rintro ⟨entry, member, rfl, rfl, rfl⟩
    obtain ⟨mapping, isMapping, asks, _⟩ := (drafted.entries entry member).asked
    exact ⟨⟨mapping, isMapping, asks⟩, drafted.readOnly_iff member⟩

theorem exists_root_of_write (member : path ∈ canonicals draft.write) :
    ∃ root ∈ draft.roots, root <+: path ∧ root ≠ path ∧
      ∃ entry ∈ draft.mapped, entry.canonical = root ∧
        entry.directory = true ∧ entry.readOnly = false := by
  have narrows := drafted.narrows path member
  unfold Filesystem.narrows at narrows
  simp only [Option.any_eq_true, Bool.and_eq_true, decide_eq_true_eq,
    List.any_eq_true, Bool.not_eq_true'] at narrows
  obtain ⟨root, found, different, entry, isEntry, ⟨same, directory⟩, writable⟩ :=
    narrows
  refine ⟨root, List.mem_of_find?_eq_some found, ?_, different, entry, isEntry,
    same, directory, writable⟩
  simpa [Path.startsWith] using List.find?_some found

/-- The paths that the guest may write below the root are those of the read-write
entries that no write path narrows, and the write paths. -/
theorem writes_part_iff {root path : Path} (isRoot : root ∈ draft.roots) (below : root <+: path) :
    ((draft.part root).writable = true ∧ ((draft.part root).write = [] ∨
        ∃ write ∈ (draft.part root).write, write <+: path)) ↔
      (∃ entry ∈ draft.mapped, entry.readOnly = false ∧ entry.canonical <+: path ∧
        narrowed draft.write draft.roots entry.canonical = false) ∨
      ∃ write ∈ canonicals draft.write, write <+: path := by
  -- every read-write entry and write path above `path` lies below this root
  have entryBelow : ∀ entry ∈ draft.mapped, entry.readOnly = false → entry.canonical <+: path →
      entry.canonical ∈ readWritePaths root draft.mapped := by
    intro entry member writable above
    obtain ⟨other, isOther, inside⟩ := drafted.exists_root member
    rw [drafted.root_unique isOther isRoot (inside.trans above) below] at inside
    exact mem_readWritePaths.mpr ⟨inside, entry, member, writable, rfl⟩
  have writeBelow : ∀ write ∈ canonicals draft.write, write <+: path →
      root <+: write ∧ root ∈ readWritePaths root draft.mapped := by
    intro write member above
    obtain ⟨other, isOther, inside, _, entry, isEntry, same, _, writable⟩ :=
      drafted.exists_root_of_write member
    obtain rfl := drafted.root_unique isOther isRoot (inside.trans above) below
    exact ⟨inside, mem_readWritePaths.mpr ⟨List.prefix_rfl, entry, isEntry, writable, same⟩⟩
  have notNarrowed : ∀ inner, root <+: inner → inner ≠ root →
      narrowed draft.write draft.roots inner = false := by
    intro inner inside different
    rw [← Bool.not_eq_true, narrowed_eq_true_iff]
    rintro ⟨isInner, _⟩
    exact different (drafted.root_unique isInner isRoot List.prefix_rfl inside)
  unfold Draft.part writablePart
  dsimp only
  split
  case isTrue none =>
    constructor
    · rintro ⟨impossible, _⟩
      cases impossible
    · rintro (⟨entry, member, writable, above, _⟩ | ⟨write, member, above⟩)
      · have found := entryBelow entry member writable above
        rw [none] at found
        exact absurd found List.not_mem_nil
      · have found := (writeBelow write member above).2
        rw [none] at found
        exact absurd found List.not_mem_nil
  case isFalse some =>
    split
    case isTrue rootReadOnly =>
      rw [outermost_eq_nil_iff, or_iff_right some, exists_outermost_iff]
      constructor
      · rintro ⟨_, inner, member, above⟩
        obtain ⟨inside, entry, isEntry, writable, rfl⟩ :=
          mem_readWritePaths.mp member
        refine .inl ⟨entry, isEntry, writable, above, notNarrowed _ inside ?_⟩
        rintro same
        exact rootReadOnly (same ▸ member)
      · rintro (⟨entry, member, writable, above, _⟩ | ⟨write, member, above⟩)
        · exact ⟨rfl, entry.canonical, entryBelow entry member writable above, above⟩
        · exact absurd (writeBelow write member above).2 rootReadOnly
    case isFalse rootWritable =>
      rw [not_not] at rootWritable
      obtain ⟨_, own, isOwn, ownWritable, same⟩ :=
        mem_readWritePaths.mp rootWritable
      split
      case isTrue whole =>
        refine iff_of_true ⟨rfl, .inl rfl⟩ (.inl ⟨own, isOwn, ownWritable, same ▸ below, ?_⟩)
        rw [← Bool.not_eq_true, narrowed_eq_true_iff, same]
        rintro ⟨_, write, member, inside⟩
        have found := mem_narrowingPaths.mpr ⟨inside, member⟩
        rw [whole] at found
        exact List.not_mem_nil found
      case isFalse narrow =>
        obtain ⟨narrowing, isNarrowing⟩ := List.exists_mem_of_ne_nil _ narrow
        obtain ⟨inside, isWrite⟩ := mem_narrowingPaths.mp isNarrowing
        have rootNarrowed : narrowed draft.write draft.roots root = true :=
          narrowed_eq_true_iff.mpr ⟨isRoot, narrowing, isWrite, inside⟩
        rw [outermost_eq_nil_iff, or_iff_right (by simp [narrow]),
          exists_outermost_iff]
        simp only [List.mem_append, List.mem_filter, decide_eq_true_eq]
        constructor
        · rintro ⟨_, inner, isNarrowing | ⟨member, different⟩, above⟩
          · exact .inr ⟨inner, (mem_narrowingPaths.mp isNarrowing).2, above⟩
          · obtain ⟨inside, entry, isEntry, writable, rfl⟩ :=
              mem_readWritePaths.mp member
            exact .inl ⟨entry, isEntry, writable, above, notNarrowed _ inside different⟩
        · rintro (⟨entry, member, writable, above, free⟩ | ⟨write, member, above⟩)
          · refine ⟨trivial, entry.canonical,
              .inr ⟨entryBelow entry member writable above, ?_⟩, above⟩
            rintro same
            rw [same, rootNarrowed] at free
            cases free
          · exact ⟨trivial, write, .inl (mem_narrowingPaths.mpr
              ⟨(writeBelow write member above).1, member⟩), above⟩

end Drafted

section

variable {draft : Draft}

theorem Rendered.maps_iff (rendered : Rendered draft made)
    (unix : host.Unix) (drafted : Drafted host request draft) :
    made.Maps path target readOnly ↔ request.Maps host path target readOnly := by
  rw [drafted.maps_iff]
  constructor
  · rintro ⟨bind, member, rfl, rfl, child, found, rfl⟩
    obtain ⟨entry, isEntry, bindOf⟩ := rendered.exists_entry_of_bind member
    exact ⟨entry, isEntry, (rendered.bound_eq unix drafted isEntry bindOf found).symm,
      bindOf.target.symm, bindOf.readOnly.symm⟩
  · rintro ⟨entry, isEntry, rfl, rfl, rfl⟩
    obtain ⟨bind, member, bindOf⟩ := rendered.exists_bind_of_entry isEntry
    obtain ⟨child, found, _⟩ := bindOf.child
    exact ⟨bind, member, bindOf.target, bindOf.readOnly, child, found,
      rendered.bound_eq unix drafted isEntry bindOf found⟩

theorem Rendered.writes_iff (rendered : Rendered draft made)
    (drafted : Drafted host request draft) {path : Path}
    (member : child ∈ made.children) (below : child.root <+: path) :
    child.Writes path ↔ (∃ entry ∈ draft.mapped, entry.readOnly = false ∧ entry.canonical <+: path ∧
        narrowed draft.write draft.roots entry.canonical = false) ∨
      ∃ write ∈ canonicals draft.write, write <+: path := by
  obtain ⟨root, isRoot, childOf⟩ := rendered.childOf member
  rw [childOf.isRoot] at below
  rw [ExportChild.Writes, childOf.writable, childOf.write]
  exact drafted.writes_part_iff isRoot below

theorem Drafted.readOnly_outside {inner : Mapped} (unix : host.Unix)
    (drafted : Drafted host request draft)
    (member : inner ∈ draft.mapped) (readOnly : inner.readOnly = true) :
    ¬ ((∃ entry ∈ draft.mapped, entry.readOnly = false ∧ entry.canonical <+: inner.canonical ∧
        narrowed draft.write draft.roots entry.canonical = false) ∨
      ∃ write ∈ canonicals draft.write, write <+: inner.canonical) := by
  have passes := checkAll_eq_ok_iff.mp drafted.readOnly inner
    (List.mem_filter.mpr ⟨member, readOnly⟩)
  unfold checkReadOnlyEntry at passes
  split at passes
  case h_1 => cases passes
  case h_2 outside =>
    rintro (⟨outer, isOuter, writable, above, free⟩ | ⟨_, held, above⟩)
    · split at passes
      case h_1 none =>
        refine absurd ?_ (List.find?_eq_none.mp none outer isOuter)
        simp only [Bool.and_eq_true, Bool.not_eq_true', Bool.or_eq_true,
          decide_eq_true_eq, Path.startsWith]
        refine ⟨⟨writable, free⟩, ?_⟩
        by_cases same : outer.canonical = inner.canonical
        · exact .inl same
        · -- what holds another path is a directory
          obtain ⟨metadata, inspected, directory⟩ :=
            (drafted.entries outer isOuter).metadata
          obtain ⟨text, resolves⟩ := (drafted.entries inner member).canonical
          exact .inr ⟨directory.symm.trans
            (unix.ancestor _ _ _ _ resolves above same inspected), above⟩
      case h_2 => split at passes <;> cases passes
    · obtain ⟨write, isWrite, rfl⟩ := mem_canonicals.mp held
      refine absurd ?_ (List.find?_eq_none.mp outside write isWrite)
      simpa [Path.startsWith] using above

end

/-- The host lets the guest write exactly what is requested read-write or narrowed
to, never a read-only mapping, and nothing outside the read-write mappings. -/
theorem guest_writes_exactly_what_is_requested (host : FileSystem)
    (unix : host.Unix) (request : ExportRequest) (made : ExportPlan)
    (planned : plan host request = .ok (some made)) :
    let write := resolved host request.write.paths
    (∀ path target readOnly,
      made.Maps path target readOnly ↔ request.Maps host path target readOnly) ∧
    (∀ child ∈ made.children, ∀ path, child.root <+: path → (child.Writes path ↔
        (∃ mapped target, request.Maps host mapped target false ∧ mapped <+: path ∧
          ¬ (mapped ∈ made.children.map (·.root) ∧ ∃ narrowing ∈ write, mapped <+: narrowing)) ∨
        ∃ narrowing ∈ write, narrowing <+: path)) ∧
    (∀ mapped target, request.Maps host mapped target true →
      ∀ child ∈ made.children, child.root <+: mapped → ¬ child.Writes mapped) ∧
    checkAll made.verifyReadOnly (made.binds.filter fun bind => bind.readOnly) = .ok () ∧
    (∀ later path root, made.verify later ≠ .error (.readOnlyInWritable path root)) ∧
    ∀ child ∈ made.children, ∀ path, child.root <+: path → child.Writes path →
      ∃ mapped target, request.Maps host mapped target false ∧ mapped <+: path := by
  obtain ⟨draft, drafted, rendering⟩ := plan_eq_ok planned
  have rendered := rendered_of_render rendering
  have maps : ∀ entry ∈ draft.mapped,
      request.Maps host entry.canonical entry.target entry.readOnly := fun entry isEntry =>
    drafted.maps_iff.mpr ⟨entry, isEntry, rfl, rfl, rfl⟩
  have readOnly : ∀ entry ∈ draft.mapped, entry.readOnly = true →
      ∀ child ∈ made.children, child.root <+: entry.canonical →
        ¬ child.Writes entry.canonical := by
    intro entry isEntry isReadOnly child member below writes
    exact drafted.readOnly_outside unix isEntry isReadOnly
      ((rendered.writes_iff drafted member below).mp writes)
  have verifies : checkAll made.verifyReadOnly (made.binds.filter fun bind => bind.readOnly) =
      .ok () := by
    rw [checkAll_eq_ok_iff]
    intro bind member
    obtain ⟨isBind, isReadOnly⟩ := List.mem_filter.mp member
    obtain ⟨entry, isEntry, bindOf⟩ := rendered.exists_entry_of_bind isBind
    obtain ⟨child, found, above, _⟩ := bindOf.child
    have outside := readOnly entry isEntry (bindOf.readOnly.symm.trans isReadOnly) child
      (List.mem_of_getElem? found) above
    unfold ExportPlan.verifyReadOnly
    rw [found]
    dsimp only
    rw [failIf_eq_ok_iff, rendered.bound_eq unix drafted isEntry bindOf found]
    simpa [ExportChild.Writes, Path.startsWith] using outside
  refine ⟨fun path target readOnly => rendered.maps_iff unix drafted, ?_, ?_, verifies,
    fun later path root => ExportPlan.verify_ne_readOnly verifies later, ?_⟩
  · intro child member path below
    rw [rendered.writes_iff drafted member below, rendered.map_root]
    refine or_congr ?_ (exists_congr fun narrowing => ?_)
    · constructor
      · rintro ⟨entry, isEntry, writable, above, free⟩
        refine ⟨entry.canonical, entry.target, writable ▸ maps entry isEntry, above, ?_⟩
        rw [← Bool.not_eq_true, narrowed_eq_true_iff] at free
        simpa [drafted.write] using free
      · rintro ⟨_, _, isMapped, above, free⟩
        obtain ⟨entry, isEntry, rfl, _, writable⟩ := drafted.maps_iff.mp isMapped
        refine ⟨entry, isEntry, writable, above, ?_⟩
        rw [← Bool.not_eq_true, narrowed_eq_true_iff]
        simpa [drafted.write] using free
    · rw [drafted.write]
  · intro mapped target isMapped
    obtain ⟨entry, isEntry, rfl, _, isReadOnly⟩ := drafted.maps_iff.mp isMapped
    exact readOnly entry isEntry isReadOnly
  · intro child member path below writes
    rcases (rendered.writes_iff drafted member below).mp writes with
      ⟨entry, isEntry, writable, above, _⟩ | ⟨write, isWrite, above⟩
    · exact ⟨_, _, writable ▸ maps entry isEntry, above⟩
    · obtain ⟨root, _, inside, _, entry, isEntry, rfl, _, writable⟩ :=
        drafted.exists_root_of_write isWrite
      exact ⟨_, _, writable ▸ maps entry isEntry, inside.trans above⟩

theorem home_writes_are_mapped :
    homeHost.Unix ∧ plan homeHost homeRequest = .ok (some homePlan) ∧
    homeRequest.Maps homeHost (.rootDir :: homePath) "/workspace" false ∧
    ∃ child ∈ homePlan.children, child.root = .rootDir :: homePath ∧ child.Writes child.root := by
  obtain ⟨maps, writes, _⟩ := guest_writes_exactly_what_is_requested homeHost unix_homeHost
    homeRequest homePlan plan_homeRequest
  have home : homeRequest.Maps homeHost (.rootDir :: homePath) "/workspace" false :=
    (maps _ _ _).mp ⟨_, List.mem_cons_self, rfl, rfl, _, rfl, rfl⟩
  refine ⟨unix_homeHost, plan_homeRequest, home, _, List.mem_cons_self, rfl, ?_⟩
  rw [writes _ List.mem_cons_self _ List.prefix_rfl]
  refine .inl ⟨_, _, home, List.prefix_rfl, ?_⟩
  rintro ⟨_, narrowing, none, _⟩
  exact List.not_mem_nil none

end Nvx.Host.Filesystem
