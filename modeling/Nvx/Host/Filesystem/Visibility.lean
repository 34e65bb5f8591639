import Nvx.Host.Filesystem.Rendered

namespace Nvx.Host.Filesystem

open Nvx.Data
open Nvx.UnixPath

/-! What the children of a plan hide. -/

section

variable {draft : Draft}

theorem Rendered.mem_roots (rendered : Rendered draft made) {index : Nat}
    (found : made.children[index]? = some child) : child.root ∈ draft.roots := by
  rw [← rendered.map_root]
  exact List.mem_map_of_mem (List.mem_of_getElem? found)

theorem Rendered.bound_eq (rendered : Rendered draft made)
    (unix : host.Unix) (drafted : Drafted host request draft) {bind : Bind}
    (member : entry ∈ draft.mapped) (bindOf : BindOf made.children entry bind)
    (found : made.children[bind.child]? = some child) :
    child.bound bind = entry.canonical := by
  obtain ⟨other, isOther, _, relative⟩ := bindOf.child
  obtain rfl := Option.some.inj (found.symm.trans isOther)
  exact unix.bound_eq (drafted.canonical_root (rendered.mem_roots found))
    (drafted.entries entry member).canonical relative

theorem Drafted.hidden_resolved_iff (drafted : Drafted host request draft) :
    Hidden (resolved host request.denied.paths) (resolved host request.allowed.paths) true path ↔
      Hidden draft.denied draft.allowed true path :=
  ⟨fun hidden => hidden.congr (fun shown => (drafted.allowed shown).mp)
      fun rule => (drafted.denied rule).mpr,
    fun hidden => hidden.congr (fun shown => (drafted.allowed shown).mpr)
      fun rule => (drafted.denied rule).mp⟩

end

/-- Each child hides what the whole request hides below its root, and shows each
mapped path, or at least what is allowed inside it. -/
theorem children_hide_exactly_what_is_hidden (host : FileSystem)
    (unix : host.Unix) (request : ExportRequest) (made : ExportPlan)
    (planned : plan host request = .ok (some made)) :
    let denied := resolved host request.denied.paths
    let allowed := resolved host request.allowed.paths
    (∀ child ∈ made.children, ∀ path, child.root <+: path →
      ((hidingRule path child.denied child.allowed true).isSome ↔
        (hidingRule path denied allowed true).isSome)) ∧
    ∀ bind ∈ made.binds, ∃ child, made.children[bind.child]? = some child ∧
      let path := child.bound bind
      (hidingRule path denied allowed true = none ∨ path ∈ denied ∧
        (∃ metadata, host.metadata path = .ok metadata ∧ metadata.isDir = true) ∧
        ∃ shown ∈ allowed, shown ≠ path ∧ path <+: shown) := by
  obtain ⟨draft, drafted, rendering⟩ := plan_eq_ok planned
  have rendered := rendered_of_render rendering
  constructor
  · intro child member path below
    obtain ⟨root, isRoot, childOf⟩ := rendered.childOf member
    rw [childOf.isRoot] at below
    rw [isSome_hidingRule_iff, isSome_hidingRule_iff, childOf.denied,
      childOf.allowed, drafted.hidden_resolved_iff]
    exact drafted.hidden_child_iff isRoot below (.inl rfl)
  · intro bind member
    obtain ⟨entry, isEntry, bindOf⟩ := rendered.exists_entry_of_bind member
    obtain ⟨child, found, _⟩ := bindOf.child
    refine ⟨child, found, ?_⟩
    dsimp only
    rw [rendered.bound_eq unix drafted isEntry bindOf found, hidingRule_eq_none_iff,
      drafted.hidden_resolved_iff, ← imp_iff_not_or]
    intro hidden
    obtain ⟨directory, isDenied, shown, isShown, inside⟩ :=
      drafted.shown entry isEntry hidden
    obtain ⟨metadata, inspected, same⟩ := (drafted.entries entry isEntry).metadata
    exact ⟨(drafted.denied _).mp isDenied, ⟨metadata, inspected, same.trans directory⟩,
      shown, (drafted.allowed shown).mp isShown, inside⟩

theorem home_hides_its_secret :
    homeHost.Unix ∧ plan homeHost homeRequest = .ok (some homePlan) ∧
    ∃ child ∈ homePlan.children, child.root = .rootDir :: homePath ∧
      (hidingRule (.rootDir :: secretPath) child.denied child.allowed true).isSome ∧
      ¬ (hidingRule (.rootDir :: homePath) child.denied child.allowed true).isSome := by
  have hides := (children_hide_exactly_what_is_hidden homeHost unix_homeHost
    homeRequest homePlan plan_homeRequest).1
  refine ⟨unix_homeHost, plan_homeRequest, _, List.mem_cons_self, rfl, ?_, ?_⟩
  · rw [hides _ List.mem_cons_self _ (by decide)]
    decide
  · rw [hides _ List.mem_cons_self _ List.prefix_rfl]
    decide

end Nvx.Host.Filesystem
