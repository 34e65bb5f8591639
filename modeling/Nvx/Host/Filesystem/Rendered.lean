import Nvx.Host.Filesystem.Check
import Nvx.Host.Filesystem.Drafts

namespace Nvx.Host.Filesystem

open Nvx.Data
open Nvx.UnixPath
open Nvx.Protocol (slash maxHostMappings)

/-! The children and bind mounts that the planner makes of its draft. -/

structure ChildOf (draft : Draft) (root : Path) (child : ExportChild) : Prop where
  isRoot : child.root = root
  writable : child.writable = (draft.part root).writable
  write : child.write = (draft.part root).write
  denied : child.denied = draft.childDenied root
  allowed : child.allowed = draft.childAllowed root

theorem childOf_of_child {draft : Draft} (made : draft.child host root = .ok child) :
    ChildOf draft root child.1 := by
  unfold Draft.child at made
  split at made
  case h_1 => cases made
  case h_2 =>
    simp only [bind_eq_ok_iff, Except.ok.injEq] at made
    obtain ⟨_, _, _, _, _, _, _, _, _, _, rfl⟩ := made
    exact ⟨rfl, rfl, rfl, rfl, rfl⟩

structure BindOf (children : List ExportChild) (entry : Mapped) (bind : Bind) : Prop where
  child : ∃ child, children[bind.child]? = some child ∧ child.root <+: entry.canonical ∧
    relativeText child.root entry.canonical = some bind.source
  target : bind.target = entry.target
  readOnly : bind.readOnly = entry.readOnly

theorem bindOf_of_bind {draft : Draft} {bind : Bind}
    (made : draft.bind host children entry = .ok bind) : BindOf children entry bind := by
  unfold Draft.bind at made
  split at made
  case h_1 => cases made
  case h_2 index found =>
    split at made
    case h_1 => cases made
    case h_2 source isSource =>
      simp only [bind_eq_ok_iff, Except.ok.injEq] at made
      obtain ⟨_, _, _, _, rfl⟩ := made
      obtain ⟨child, isChild, relative⟩ := Option.bind_eq_some_iff.mp isSource
      exact ⟨⟨child, isChild, prefix_of_relativeText relative, relative⟩, rfl, rfl⟩

structure Rendered (draft : Draft) (plan : ExportPlan) : Prop where
  children : List.Forall₂ (ChildOf draft) draft.roots plan.children
  binds : ∃ binds, plan.binds.Perm binds ∧
    List.Forall₂ (BindOf plan.children) draft.mapped binds

theorem rendered_of_render {draft : Draft} {plan : ExportPlan}
    (found : render host request draft = .ok plan) : Rendered draft plan := by
  simp only [render, bind_eq_ok_iff, Except.ok.injEq] at found
  obtain ⟨_, _, made, areMade, _, _, binds, areBinds, _, _, rfl⟩ := found
  refine ⟨?_, binds, List.mergeSort_perm _ _, ?_⟩
  · rw [List.forall₂_map_right_iff]
    exact (mapAll_eq_ok_iff.mp areMade).imp fun _ _ => childOf_of_child
  · exact (mapAll_eq_ok_iff.mp areBinds).imp fun _ _ => bindOf_of_bind

namespace Drafted

variable {draft : Draft}
    (drafted : Drafted host request draft)

include drafted

theorem root_unique {first second path : Path} (isFirst : first ∈ draft.roots)
    (isSecond : second ∈ draft.roots) (above : first <+: path)
    (isOver : second <+: path) : first = second := by
  rw [drafted.roots] at isFirst isSecond
  exact outermost_unique isFirst isSecond above isOver

theorem exists_root (member : entry ∈ draft.mapped) :
    ∃ root ∈ draft.roots, root <+: entry.canonical := by
  rw [drafted.roots]
  exact exists_outermost (List.mem_map_of_mem member)

theorem exists_entry (isRoot : root ∈ draft.roots) :
    ∃ entry ∈ draft.mapped, entry.canonical = root := by
  rw [drafted.roots] at isRoot
  exact List.mem_map.mp (mem_outermost.mp isRoot).1

theorem canonical_root (isRoot : root ∈ draft.roots) :
    Canonical host root := by
  obtain ⟨entry, member, rfl⟩ := drafted.exists_entry isRoot
  exact (drafted.entries entry member).canonical

theorem not_allowed_above {root shown : Path} (isRoot : root ∈ draft.roots)
    (isShown : shown ∈ draft.allowed) : ¬ shown <+: root := by
  intro above
  obtain ⟨notRoot, other, isOther, below⟩ := drafted.allowedBelow shown isShown
  obtain rfl := drafted.root_unique isOther isRoot (below.trans above) List.prefix_rfl
  exact notRoot (above.eq_of_length_le below.length_le ▸ isOther)

theorem hidden_inside_iff {root path : Path} (isRoot : root ∈ draft.roots) (below : root <+: path)
    (strictly : inclusive = true ∨ path ≠ root) :
    Hidden (Draft.inside root draft.denied) (draft.childAllowed root) inclusive path ↔
      Hidden draft.denied draft.allowed inclusive path := by
  have inside : ∀ {paths : List Path} {other}, other ∈ Draft.inside root paths ↔
      other ∈ paths ∧ root <+: other := by
    intro paths other
    simp [Draft.inside, Path.startsWith]
  constructor
  · rintro ⟨rule, isRule, covers, longer⟩
    obtain ⟨isDenied, ruleBelow⟩ := inside.mp isRule
    refine ⟨rule, isDenied, covers, fun shown isShown shownCovers => ?_⟩
    rcases List.prefix_or_prefix_of_prefix below shownCovers.2 with lower | above
    · exact longer shown (inside.mpr ⟨isShown, lower⟩) shownCovers
    · exact absurd above (drafted.not_allowed_above isRoot isShown)
  · rintro ⟨rule, isRule, covers, longer⟩
    have fewer : ∀ shown ∈ draft.childAllowed root,
        Covers inclusive shown path → shown.length < rule.length :=
      fun shown isShown => longer shown (inside.mp isShown).1
    rcases List.prefix_or_prefix_of_prefix below covers.2 with lower | above
    · exact ⟨rule, inside.mpr ⟨isRule, lower⟩, covers, fewer⟩
    · -- a denied path above the root hides the root, which is denied itself then
      obtain ⟨entry, member, rfl⟩ := drafted.exists_entry isRoot
      have isDenied := (drafted.shown entry member ⟨rule, isRule,
        ⟨.inl rfl, above⟩, fun shown isShown shownCovers =>
          absurd shownCovers.2 (drafted.not_allowed_above isRoot isShown)⟩).denied
      refine ⟨entry.canonical, inside.mpr ⟨isDenied, List.prefix_rfl⟩,
        ⟨strictly.imp_right Ne.symm, below⟩, fun shown isShown shownCovers => ?_⟩
      exact (fewer shown isShown shownCovers).trans_le above.length_le

theorem hidden_child_iff {root path : Path} (isRoot : root ∈ draft.roots) (below : root <+: path)
    (strictly : inclusive = true ∨ path ≠ root) :
    Hidden (draft.childDenied root) (draft.childAllowed root) inclusive path ↔
      Hidden draft.denied draft.allowed inclusive path :=
  hidden_neededDeniedPaths_iff.trans (drafted.hidden_inside_iff isRoot below strictly)

end Drafted

namespace FileSystem.Unix

variable {host : FileSystem} (unix : host.Unix)

include unix

theorem exists_rest {root path : Path} (isRoot : Canonical host root)
    (isPath : Canonical host path) (above : root <+: path) :
    ∃ rest, path = root ++ named rest ∧ ∀ name ∈ rest, 0 ∉ name.val := by
  obtain ⟨_, canonicalRoot⟩ := isRoot
  obtain ⟨_, canonicalPath⟩ := isPath
  obtain ⟨rootNames, rfl, _⟩ := unix.canonical _ _ canonicalRoot
  obtain ⟨names, rfl, plain⟩ := unix.canonical _ _ canonicalPath
  obtain ⟨rest, same⟩ := above
  rw [List.cons_append, List.cons.injEq] at same
  obtain ⟨first, second, rfl, _, rfl⟩ := List.map_eq_append_iff.mp same.2.symm
  refine ⟨second, by rw [List.cons_append, ← same.2]; rfl, fun name member => ?_⟩
  exact plain name (List.mem_append_right first member)

theorem bound_eq {child : ExportChild} {bind : Bind}
    (isRoot : Canonical host child.root) (isPath : Canonical host path)
    (relative : relativeText child.root path = some bind.source) :
    child.bound bind = path := by
  obtain ⟨rest, rfl, _⟩ :=
    unix.exists_rest isRoot isPath (prefix_of_relativeText relative)
  have text := relativeText_append relative
  unfold ExportChild.bound
  split
  case isTrue empty =>
    rw [empty] at text
    rw [textOf_eq_nil_iff.mp text.symm]
    exact (List.append_nil _).symm
  case isFalse =>
    obtain ⟨_, canonicalRoot⟩ := isRoot
    obtain ⟨names, isNames, _⟩ := unix.canonical _ _ canonicalRoot
    rw [Path.join, text, if_neg, parts_textOf]
    rw [not_or]
    exact ⟨head?_textOf rest, by rw [isNames]; exact List.cons_ne_nil _ _⟩

end FileSystem.Unix

namespace Rendered

variable {draft : Draft}
    {plan : ExportPlan}
    (rendered : Rendered draft plan)

include rendered

theorem childOf (member : child ∈ plan.children) : ∃ root ∈ draft.roots, ChildOf draft root child :=
  exists_mem_of_forall₂ rendered.children.flip member

theorem map_root : plan.children.map (·.root) = draft.roots := by
  rw [← List.forall₂_eq_eq_eq, List.forall₂_map_left_iff]
  exact (rendered.children.imp fun _ _ childOf => childOf.isRoot.symm).flip.imp fun _ _ => Eq.symm

theorem exists_entry_of_bind {bind : Bind} (member : bind ∈ plan.binds) :
    ∃ entry ∈ draft.mapped, BindOf plan.children entry bind := by
  obtain ⟨binds, same, related⟩ := rendered.binds
  exact exists_mem_of_forall₂ related.flip (same.mem_iff.mp member)

theorem exists_bind_of_entry (member : entry ∈ draft.mapped) :
    ∃ bind ∈ plan.binds, BindOf plan.children entry bind := by
  obtain ⟨binds, same, related⟩ := rendered.binds
  obtain ⟨bind, isBind, bindOf⟩ := exists_mem_of_forall₂ related member
  exact ⟨bind, same.mem_iff.mpr isBind, bindOf⟩

end Rendered

end Nvx.Host.Filesystem
