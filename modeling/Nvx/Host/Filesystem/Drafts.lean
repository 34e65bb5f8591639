import Nvx.Host.Filesystem.Hiding
import Nvx.Host.Filesystem.Names
import Nvx.Host.Filesystem.Plan

namespace Nvx.Host.Filesystem

open Nvx.Data
open Nvx.UnixPath
open Nvx.Protocol (slash maxHostMappings)

/-! What the planner has checked once it makes the children. -/

/-- A Unix host, whose links resolve to paths of names below directories. -/
structure FileSystem.Unix (host : FileSystem) : Prop where
  canonical : ∀ text path, host.canonicalize text = .ok path → ∃ names,
    path = .rootDir :: named names ∧ ∀ name ∈ names, 0 ∉ name.val
  ancestor : ∀ text path ancestor metadata, host.canonicalize text = .ok path →
    ancestor <+: path → ancestor ≠ path →
      host.metadata ancestor = .ok metadata → metadata.isDir = true

def Canonical (host : FileSystem) (path : Path) : Prop :=
  ∃ text, host.canonicalize text = .ok path

def resolved (host : FileSystem) (paths : List (List UInt8)) : List Path :=
  paths.filterMap fun given => (host.canonicalize given).toOption

theorem mem_resolved {paths : List (List UInt8)} : path ∈ resolved host paths ↔
      ∃ given ∈ paths, host.canonicalize given = .ok path := by
  simp only [resolved, List.mem_filterMap, toOption_eq_some_iff]

def Mapping.targetOf (mapping : Mapping) (path : Path) : Option String :=
  match mapping.target with
  | .convention => guestPath path
  | .guest target => some target

/-- The mapping asks for the object at `path`, at `target` in the guest. -/
def Mapping.Asks (host : FileSystem) (mapping : Mapping) (path : Path) (target : String) : Prop :=
  host.canonicalize mapping.path = .ok path ∧ mapping.targetOf path = some target

/-- The request maps `path` at `target`, read-only if one of its mappings there is. -/
def ExportRequest.Maps (host : FileSystem) (request : ExportRequest) (path : Path)
    (target : String) (readOnly : Bool) : Prop :=
  (∃ mapping ∈ request.mappings, mapping.Asks host path target) ∧
    (readOnly = true ↔ ∃ mapping ∈ request.mappings,
      mapping.Asks host path target ∧ mapping.readOnly = true)

theorem Mapping.Asks.unique {mapping : Mapping} (asks : mapping.Asks host first firstTarget)
    (also : mapping.Asks host second secondTarget) :
    first = second ∧ firstTarget = secondTarget := by
  obtain rfl := Except.ok.inj (asks.1.symm.trans also.1)
  exact ⟨rfl, Option.some.inj (asks.2.symm.trans also.2)⟩

structure Entry (host : FileSystem) (request : ExportRequest) (entry : Mapped) : Prop where
  asked : ∃ mapping ∈ request.mappings,
    mapping.Asks host entry.canonical entry.target ∧ mapping.readOnly = entry.readOnly
  metadata : ∃ metadata, host.metadata entry.canonical = .ok metadata ∧
    metadata.isDir = entry.directory

theorem Entry.canonical (isEntry : Entry host request entry) : Canonical host entry.canonical := by
  obtain ⟨mapping, _, asks, _⟩ := isEntry.asked
  exact ⟨mapping.path, asks.1⟩

theorem resolvePolicyPath_eq_ok_iff :
    resolvePolicyPath host field given = .ok path ↔ host.canonicalize given = .ok path := by
  unfold resolvePolicyPath
  split <;> simp_all

theorem targetOf_of_resolveTarget (found : resolveTarget mapping reserved canonical = .ok target) :
    mapping.targetOf canonical = some target := by
  unfold resolveTarget at found
  split at found
  case h_1 isConvention =>
    split at found
    case h_1 => cases found
    case h_2 target isTarget =>
      simp only [bind_eq_ok_iff, Except.ok.injEq] at found
      obtain ⟨_, _, rfl⟩ := found
      rw [Mapping.targetOf, isConvention, isTarget]
  case h_2 given isGiven =>
    simp only [bind_eq_ok_iff, Except.ok.injEq] at found
    obtain ⟨_, _, _, _, rfl⟩ := found
    rw [Mapping.targetOf, isGiven]

theorem resolveMapping_eq_ok (found : resolveMapping host reserved mapping = .ok entry) :
    mapping.Asks host entry.canonical entry.target ∧ mapping.readOnly = entry.readOnly ∧
      ∃ metadata, host.metadata entry.canonical = .ok metadata ∧
        metadata.isDir = entry.directory := by
  simp only [resolveMapping, bind_eq_ok_iff, Except.ok.injEq, resolvePolicyPath_eq_ok_iff] at found
  obtain ⟨canonical, isCanonical, _, _, metadata, inspected, _, _, _, _,
    target, isTarget, rfl⟩ := found
  refine ⟨⟨isCanonical, targetOf_of_resolveTarget isTarget⟩, rfl, metadata, ?_, rfl⟩
  unfold inspect at inspected
  split at inspected
  · rename_i found
    rw [found, Except.ok.inj inspected]
  · cases inspected

theorem mem_merge (member : other ∈ merge mapped entry) : other ∈ mapped ∨ other = entry := by
  induction mapped with
  | nil => exact .inr (List.mem_singleton.mp member)
  | cons head rest induction =>
    unfold merge at member
    split at member
    · rcases List.mem_cons.mp member with same | later
      · rw [same]
        split
        · exact .inr rfl
        · exact .inl List.mem_cons_self
      · exact .inl (List.mem_cons_of_mem head later)
    · rcases List.mem_cons.mp member with same | later
      · exact .inl (List.mem_cons.mpr (.inl same))
      · exact (induction later).imp_left (List.mem_cons_of_mem head)

theorem mem_foldl_merge {entries : List Mapped} (member : entry ∈ entries.foldl merge mapped) :
    entry ∈ mapped ∨ entry ∈ entries := by
  induction entries generalizing mapped with
  | nil => exact .inl member
  | cons head rest induction =>
    rcases induction member with merged | later
    · rcases mem_merge merged with before | rfl
      · exact .inl before
      · exact .inr List.mem_cons_self
    · exact .inr (List.mem_cons_of_mem head later)

/-- `kept` stands where `entry` does, and is as restrictive. -/
def Keeps (entry kept : Mapped) : Prop :=
  kept.canonical = entry.canonical ∧ kept.target = entry.target ∧
    (entry.readOnly = true → kept.readOnly = true)

theorem keeps_merge (member : entry ∈ added :: mapped) :
    ∃ kept ∈ merge mapped added, Keeps entry kept := by
  induction mapped with
  | nil =>
    obtain rfl := List.mem_singleton.mp member
    exact ⟨entry, List.mem_singleton_self entry, rfl, rfl, id⟩
  | cons head rest induction =>
    rw [List.mem_cons, List.mem_cons] at member
    unfold merge
    split
    · rename_i same
      rcases member with rfl | rfl | later
      · refine ⟨_, List.mem_cons_self, ?_⟩
        split
        · exact ⟨rfl, rfl, id⟩
        · rename_i kept
          exact ⟨same.1, same.2, fun readOnly => by simpa [readOnly] using kept⟩
      · refine ⟨_, List.mem_cons_self, ?_⟩
        split
        · rename_i replaced
          exact ⟨same.1.symm, same.2.symm, fun readOnly => by simp [readOnly] at replaced⟩
        · exact ⟨rfl, rfl, id⟩
      · exact ⟨entry, List.mem_cons_of_mem _ later, rfl, rfl, id⟩
    · rcases member with isAdded | rfl | later
      · obtain ⟨kept, isKept, keeps⟩ := induction (List.mem_cons.mpr (.inl isAdded))
        exact ⟨kept, List.mem_cons_of_mem head isKept, keeps⟩
      · exact ⟨entry, List.mem_cons_self, rfl, rfl, id⟩
      · obtain ⟨kept, isKept, keeps⟩ := induction (List.mem_cons_of_mem added later)
        exact ⟨kept, List.mem_cons_of_mem head isKept, keeps⟩

theorem keeps_foldl_merge {entries : List Mapped} (member : entry ∈ entries ++ mapped) :
    ∃ kept ∈ entries.foldl merge mapped, Keeps entry kept := by
  induction entries generalizing entry mapped with
  | nil => exact ⟨entry, member, rfl, rfl, id⟩
  | cons added rest induction =>
    have cases : entry ∈ rest ∨ entry ∈ added :: mapped := by
      simp only [List.cons_append, List.mem_cons, List.mem_append] at member ⊢
      tauto
    rcases cases with later | earlier
    · exact induction (List.mem_append_left _ later)
    · obtain ⟨first, isFirst, samePath, sameTarget, restricts⟩ := keeps_merge earlier
      obtain ⟨kept, isKept, alsoPath, alsoTarget, alsoRestricts⟩ :=
        induction (List.mem_append_right rest isFirst)
      exact ⟨kept, isKept, alsoPath.trans samePath, alsoTarget.trans sameTarget,
        fun readOnly => alsoRestricts (restricts readOnly)⟩

theorem mem_canonicals : path ∈ canonicals paths ↔ ∃ found ∈ paths, found.canonical = path :=
  List.mem_map

theorem canonicals_addNew {path : PolicyPath} : canonical ∈ canonicals (addNew paths path) ↔
      canonical ∈ canonicals paths ∨ canonical = path.canonical := by
  unfold addNew
  split
  case isTrue found =>
    simp only [List.any_eq_true, decide_eq_true_eq] at found
    refine ⟨.inl, ?_⟩
    rintro (member | rfl)
    · exact member
    · exact mem_canonicals.mpr found
  case isFalse =>
    simp [canonicals, eq_comm]

theorem canonicals_foldl_addNew {found : List PolicyPath} :
    canonical ∈ canonicals (paths.foldl addNew found) ↔
      canonical ∈ canonicals found ∨ canonical ∈ canonicals paths := by
  induction paths generalizing found with
  | nil => simp [canonicals]
  | cons path rest induction =>
    rw [List.foldl_cons, induction, canonicals_addNew, canonicals, canonicals,
      canonicals, List.map_cons, List.mem_cons, or_assoc]

theorem writePaths_eq_ok (found : writePaths host list mapped roots = .ok write) :
    (∀ path, path ∈ canonicals write ↔ path ∈ resolved host list.paths) ∧
      ∀ path ∈ canonicals write, narrows mapped roots path = true := by
  obtain ⟨forward, backward⟩ := exists_mem_of_mapAll found
  have makes : ∀ given path, writePath host list.name mapped roots given = .ok path ↔
        host.canonicalize given = .ok path.canonical ∧
          narrows mapped roots path.canonical = true ∧ path.given = given := by
    intro given path
    simp only [writePath, bind_eq_ok_iff, failIf_eq_ok_iff, Except.ok.injEq,
      resolvePolicyPath_eq_ok_iff, Bool.not_eq_false]
    constructor
    · rintro ⟨canonical, isCanonical, _, isNarrow, rfl⟩
      exact ⟨isCanonical, isNarrow, rfl⟩
    · rintro ⟨isCanonical, isNarrow, rfl⟩
      exact ⟨_, isCanonical, (), isNarrow, rfl⟩
  constructor
  · intro path
    rw [mem_canonicals, mem_resolved]
    constructor
    · rintro ⟨value, member, rfl⟩
      obtain ⟨given, isGiven, made⟩ := backward value member
      exact ⟨given, isGiven, ((makes _ _).mp made).1⟩
    · rintro ⟨given, isGiven, isCanonical⟩
      obtain ⟨value, member, made⟩ := forward given isGiven
      refine ⟨value, member, ?_⟩
      exact Except.ok.inj (((makes _ _).mp made).1.symm.trans isCanonical)
  · intro path member
    obtain ⟨value, isValue, rfl⟩ := mem_canonicals.mp member
    obtain ⟨given, _, made⟩ := backward value isValue
    exact ((makes _ _).mp made).2.1

theorem allowedPaths_eq_ok (found : allowedPaths host list roots = .ok allowed) :
    (∀ path, path ∈ canonicals allowed ↔ path ∈ resolved host list.paths) ∧
      ∀ path ∈ canonicals allowed, path ∉ roots ∧ ∃ root ∈ roots, root <+: path := by
  simp only [allowedPaths, bind_eq_ok_iff, Except.ok.injEq] at found
  obtain ⟨paths, made, rfl⟩ := found
  obtain ⟨forward, backward⟩ := exists_mem_of_mapAll made
  have makes : ∀ given path, allowedPath host list.name roots given = .ok path →
      host.canonicalize given = .ok path.canonical ∧ path.canonical ∉ roots ∧
        ∃ root ∈ roots, root <+: path.canonical := by
    intro given path made
    simp only [allowedPath, bind_eq_ok_iff, failIf_eq_ok_iff, Except.ok.injEq,
      resolvePolicyPath_eq_ok_iff] at made
    obtain ⟨canonical, isCanonical, _, notRoot, _, below, rfl⟩ := made
    refine ⟨isCanonical, notRoot, ?_⟩
    simpa [Path.startsWith] using below
  have same : ∀ path, path ∈ canonicals (paths.foldl addNew []) ↔
      path ∈ canonicals paths := fun path => by
    rw [canonicals_foldl_addNew]
    simp [canonicals]
  refine ⟨fun path => ?_, fun path member => ?_⟩
  · rw [same, mem_canonicals, mem_resolved]
    constructor
    · rintro ⟨value, member, rfl⟩
      obtain ⟨given, isGiven, made⟩ := backward value member
      exact ⟨given, isGiven, (makes _ _ made).1⟩
    · rintro ⟨given, isGiven, isCanonical⟩
      obtain ⟨value, member, made⟩ := forward given isGiven
      exact ⟨value, member, Except.ok.inj ((makes _ _ made).1.symm.trans isCanonical)⟩
  · rw [same] at member
    obtain ⟨value, isValue, rfl⟩ := mem_canonicals.mp member
    obtain ⟨given, _, made⟩ := backward value isValue
    exact (makes _ _ made).2

theorem lenientFrom_eq_ok_true (found : lenientFrom host fuel existing missing = .ok (path, true)) :
    missing = [] ∧ host.canonicalize existing = .ok path := by
  fun_induction lenientFrom host fuel existing missing with
  | case1 _ existing missing canonical isCanonical =>
    simp only [Except.ok.injEq, Prod.mk.injEq, decide_eq_true_eq] at found
    obtain ⟨rfl, rfl⟩ := found
    exact ⟨rfl, by simpa using isCanonical⟩
  | case2 _ _ _ _ _ _ _ _ induction =>
    exact absurd (induction found).1 (by simp)
  | case3 | case4 => cases found

theorem canonicalizeLenient_eq_ok_true_iff :
    canonicalizeLenient host given = .ok (path, true) ↔ host.canonicalize given = .ok path := by
  constructor
  · exact fun found => (lenientFrom_eq_ok_true found).2
  · intro found
    unfold canonicalizeLenient lenientFrom
    simp [found]

theorem resolveDenied_eq_ok (found : resolveDenied host field given = .ok denied) :
    canonicalizeLenient host given = .ok (denied.path.canonical, denied.exists) := by
  unfold resolveDenied at found
  split at found
  case h_2 => cases found
  case h_1 canonical isFound resolves =>
    obtain rfl := Except.ok.inj found
    exact resolves

/-- No entry is hidden, except a denied directory with allowed paths inside. -/
structure Shown (denied allowed : List Path) (entry : Mapped) : Prop where
  directory : entry.directory = true
  denied : entry.canonical ∈ denied
  allowed : ∃ shown ∈ allowed, shown ≠ entry.canonical ∧ entry.canonical <+: shown

theorem hides_eq_false (shows : hides denied allowed entry = false)
    (hidden : Hidden denied allowed true entry.canonical) :
    Shown denied allowed entry := by
  obtain ⟨rule, found⟩ := Option.isSome_iff_exists.mp (isSome_hidingRule_iff.mpr hidden)
  have member := (hidingRule_eq_some found).1
  rw [hides, found] at shows
  simp only [Option.any_some, Bool.not_eq_false', Bool.and_eq_true,
    decide_eq_true_eq, List.any_eq_true, Path.startsWith] at shows
  obtain ⟨⟨directory, rfl⟩, allowed⟩ := shows
  exact ⟨directory, member, allowed⟩

theorem deniedPaths_eq_ok (found : deniedPaths host list mapped allowed = .ok denied) :
    (∀ path, path ∈ canonicals denied ↔ path ∈ resolved host list.paths) ∧
      ∀ entry ∈ mapped, Hidden (canonicals denied) (canonicals allowed) true entry.canonical →
          Shown (canonicals denied) (canonicals allowed) entry := by
  simp only [deniedPaths, bind_eq_ok_iff, Except.ok.injEq] at found
  obtain ⟨all, made, _, checked, rfl⟩ := found
  obtain ⟨forward, backward⟩ := exists_mem_of_mapAll made
  have same : ∀ path, path ∈ canonicals (((all.filter (·.exists)).map (·.path)).foldl addNew []) ↔
        path ∈ canonicals ((all.filter (·.exists)).map (·.path)) := fun path => by
    rw [canonicals_foldl_addNew]
    simp [canonicals]
  have member : ∀ path, path ∈ canonicals ((all.filter (·.exists)).map (·.path)) ↔
      ∃ denied ∈ all, denied.exists = true ∧ denied.path.canonical = path := by
    intro path
    simp [canonicals, and_assoc]
  refine ⟨fun path => ?_, fun entry isEntry hidden => ?_⟩
  · rw [same, member, mem_resolved]
    constructor
    · rintro ⟨denied, isDenied, isFound, rfl⟩
      obtain ⟨given, isGiven, made⟩ := backward denied isDenied
      refine ⟨given, isGiven, canonicalizeLenient_eq_ok_true_iff.mp ?_⟩
      rw [resolveDenied_eq_ok made, isFound]
    · rintro ⟨given, isGiven, isCanonical⟩
      obtain ⟨denied, isDenied, made⟩ := forward given isGiven
      have found := (resolveDenied_eq_ok made).symm.trans
        (canonicalizeLenient_eq_ok_true_iff.mpr isCanonical)
      simp only [Except.ok.injEq, Prod.mk.injEq] at found
      exact ⟨denied, isDenied, found.2, found.1⟩
  · have before := hidden.congr (fun _ => id) fun rule isRule => (same rule).mp isRule
    have ⟨rule, isRule, covers, _⟩ := before
    obtain ⟨denied, isDenied, isFound, rfl⟩ := (member rule).mp isRule
    have passes := checkAll_eq_ok_iff.mp checked denied isDenied
    rw [checkDenied, if_pos isFound, failOn_eq_ok_iff, List.find?_eq_none] at passes
    have shows : hides (canonicals ((all.filter (·.exists)).map (·.path)))
        (canonicals allowed) entry = false := by
      have passed := passes entry isEntry
      rw [Bool.and_eq_true, not_and, Bool.not_eq_true] at passed
      exact passed (by simpa [Path.startsWith] using covers.2)
    obtain ⟨directory, isDenied, isAllowed⟩ := hides_eq_false shows before
    exact ⟨directory, (same _).mpr isDenied, isAllowed⟩

theorem nodup_target_of_checkTargets (checked : checkTargets mapped = .ok ()) :
    (mapped.map (·.target)).Nodup := by
  refine List.pairwise_map.mpr ((pairwise_of_checkAfter checked).imp fun passes same => ?_)
  rw [checkTargetPair, if_pos same.symm] at passes
  cases passes

structure Drafted (host : FileSystem) (request : ExportRequest) (draft : Draft) : Prop where
  entries : ∀ entry ∈ draft.mapped, Entry host request entry
  kept : ∀ mapping ∈ request.mappings, ∃ entry ∈ draft.mapped,
    mapping.Asks host entry.canonical entry.target ∧
      (mapping.readOnly = true → entry.readOnly = true)
  targets : (draft.mapped.map (·.target)).Nodup
  roots : draft.roots = outermost (draft.mapped.map (·.canonical))
  write : ∀ path, path ∈ canonicals draft.write ↔ path ∈ resolved host request.write.paths
  narrows : ∀ path ∈ canonicals draft.write, narrows draft.mapped draft.roots path = true
  readOnly : checkReadOnly draft.mapped draft.write request.write.name draft.roots = .ok ()
  allowed : ∀ path, path ∈ draft.allowed ↔ path ∈ resolved host request.allowed.paths
  allowedBelow : ∀ path ∈ draft.allowed, path ∉ draft.roots ∧ ∃ root ∈ draft.roots, root <+: path
  denied : ∀ path, path ∈ draft.denied ↔ path ∈ resolved host request.denied.paths
  shown : ∀ entry ∈ draft.mapped, Hidden draft.denied draft.allowed true entry.canonical →
      Shown draft.denied draft.allowed entry

theorem drafted_of_draft (entries : ∀ entry ∈ mapped, Entry host request entry)
    (kept : ∀ mapping ∈ request.mappings, ∃ entry ∈ mapped,
      mapping.Asks host entry.canonical entry.target ∧
        (mapping.readOnly = true → entry.readOnly = true))
    (found : draft host request mapped = .ok made) : Drafted host request made := by
  simp only [draft, bind_eq_ok_iff, Except.ok.injEq] at found
  obtain ⟨_, _, _, targets, write, isWrite, _, readOnly, _, _, _, _,
    allowed, isAllowed, denied, isDenied, _, _, _, _, rfl⟩ := found
  obtain ⟨writeMembers, narrows⟩ := writePaths_eq_ok isWrite
  obtain ⟨allowedMembers, allowedBelow⟩ := allowedPaths_eq_ok isAllowed
  obtain ⟨deniedMembers, shown⟩ := deniedPaths_eq_ok isDenied
  have sortedMembers : ∀ path, path ∈ sorted (canonicals allowed) ↔
      path ∈ canonicals allowed := fun path => mem_sorted
  refine {
    entries := entries
    kept := kept
    targets := nodup_target_of_checkTargets targets
    roots := rfl
    write := writeMembers
    narrows := narrows
    readOnly := readOnly
    allowed := fun path => (sortedMembers path).trans (allowedMembers path)
    allowedBelow := fun path member =>
      allowedBelow path ((sortedMembers path).mp member)
    denied := deniedMembers
    shown := ?_ }
  intro entry member hidden
  obtain ⟨directory, isDenied, inside, isInside, strictly⟩ :=
    shown entry member (hidden.congr (fun path => (sortedMembers path).mpr) fun _ => id)
  exact ⟨directory, isDenied, inside, (sortedMembers inside).mpr isInside, strictly⟩

theorem plan_eq_ok (found : plan host request = .ok (some made)) :
    ∃ draft, Drafted host request draft ∧ render host request draft = .ok made := by
  simp only [plan, bind_eq_ok_iff] at found
  obtain ⟨entries, resolves, found⟩ := found
  split at found
  case isTrue => cases found
  case isFalse =>
    simp only [bind_eq_ok_iff, Except.ok.injEq, Option.some.injEq] at found
    obtain ⟨draft, isDraft, made, rendered, rfl⟩ := found
    obtain ⟨forward, backward⟩ := exists_mem_of_mapAll resolves
    refine ⟨draft, drafted_of_draft ?_ ?_ isDraft, rendered⟩
    · intro entry member
      rcases mem_foldl_merge member with none | isEntry
      · exact absurd none List.not_mem_nil
      · obtain ⟨mapping, isMapping, made⟩ := backward entry isEntry
        obtain ⟨asks, same, metadata⟩ := resolveMapping_eq_ok made
        exact ⟨⟨mapping, isMapping, asks, same⟩, metadata⟩
    · intro mapping isMapping
      obtain ⟨entry, isEntry, made⟩ := forward mapping isMapping
      obtain ⟨asks, same, _⟩ := resolveMapping_eq_ok made
      obtain ⟨kept, isKept, samePath, sameTarget, restricts⟩ :=
        keeps_foldl_merge (List.mem_append_left [] isEntry)
      rw [← samePath, ← sameTarget] at asks
      exact ⟨kept, isKept, asks, fun readOnly => restricts (same.symm.trans readOnly)⟩

def homePath : Path := named [⟨asBytes "home", by decide⟩]

def secretPath : Path :=
  named [⟨asBytes "home", by decide⟩, ⟨asBytes "secret", by decide⟩]

def homeMetadata (path : Path) : Metadata :=
  if path = .rootDir :: secretPath then ⟨false, true, 1000, 1000⟩
  else ⟨true, false, 1000, 1000⟩

def homeHost : FileSystem where
  canonicalize text :=
    if text = asBytes "/home" then .ok (.rootDir :: homePath)
    else if text = asBytes "/home/secret" then .ok (.rootDir :: secretPath)
    else .error .notFound
  metadata path := .ok (homeMetadata path)
  symlinkMetadata path := .ok (false, homeMetadata path)
  fileIdentity path := .ok ⟨1, path.length⟩

/-- The guest may write the directory, but does not see the file. -/
def homeRequest : ExportRequest where
  mappings := [⟨"home", asBytes "/home", .guest "/workspace", false⟩]
  denied := ⟨"deny", [asBytes "/home/secret"]⟩
  allowed := ⟨"allow", []⟩
  write := ⟨"write", []⟩
  owner := .caller
  reserved := .containerRoot

theorem homeHost_canonicalize (found : homeHost.canonicalize text = .ok path) :
    path = .rootDir :: homePath ∨ path = .rootDir :: secretPath := by
  unfold homeHost at found
  dsimp only at found
  split at found
  · exact .inl (Except.ok.inj found).symm
  · split at found
    · exact .inr (Except.ok.inj found).symm
    · cases found

theorem unix_homeHost : homeHost.Unix where
  canonical text path found := by
    rcases homeHost_canonicalize found with rfl | rfl
    · exact ⟨_, rfl, by decide⟩
    · exact ⟨_, rfl, by decide⟩
  ancestor text path ancestor metadata found above different inspected := by
    obtain rfl := Except.ok.inj inspected
    have apart : ancestor ≠ .rootDir :: secretPath := by
      rintro rfl
      rcases homeHost_canonicalize found with rfl | rfl
      · exact absurd above.length_le (by decide)
      · exact different rfl
    rw [homeMetadata, if_neg apart]

def homePlan : ExportPlan where
  children := [{
    root := .rootDir :: homePath
    file := false
    writable := true
    denied := [.rootDir :: secretPath]
    deniedIdentities := [some ⟨1, 3⟩]
    allowed := []
    write := [] }]
  binds := [⟨0, "", "/workspace", false, none⟩]
  owner := .caller

theorem plan_homeRequest : plan homeHost homeRequest = .ok (some homePlan) := by
  rw [← toOption_eq_some_iff]
  decide +kernel

end Nvx.Host.Filesystem
