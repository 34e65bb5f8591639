import Mathlib.Data.List.TakeWhile
import Nvx.Guest.Time.Suppression

namespace Nvx.Guest.Time

open Nvx.Data

def Files.set (files : Files) (path : Text) (value : Int) : Files :=
  { files with settings := Function.update files.settings path (some value) }

theorem Files.set_settings (files : Files) (path : Text) (value : Int) :
    (files.set path value).settings = Function.update files.settings path (some value) :=
  rfl

/-- The detectors that exist with the settings, in the order of the list. -/
def existing (detectors : List Detector) (settings : Text → Option Int) :
    List Saved :=
  detectors.filterMap fun detector => (settings detector.path).map fun value =>
    ⟨detector.path, value, detector.suppressed⟩

/-- Only the settings at `paths` can differ from the original ones. -/
structure Touched (original : Text → Option Int) (paths : List Text) (files : Files) : Prop where
  same : ∀ path ∉ paths, files.settings path = original path
  exist : ∀ path, (files.settings path).isSome = (original path).isSome

/-- A record that holds text names the detectors with their original settings,
and no other setting differs. -/
structure Consistent (original : Text → Option Int) (saved : List Saved)
    (files : Files) : Prop where
  touched : Touched original (saved.map Saved.path) files
  clear : files.record = none ∨ files.record = some [] → files.settings = original
  named : ∀ text, files.record = some text → text ≠ [] → text = recordText saved

structure Pending (original : Text → Option Int) (saved : List Saved) (files : Files) : Prop where
  touched : Touched original (saved.map Saved.path) files
  record : files.record = some (recordText saved)

variable {original : Text → Option Int} {saved : List Saved} {files : Files} {world : World}

theorem touched_nil_iff : Touched original [] files ↔ files.settings = original := by
  constructor
  · intro touched
    funext path
    exact touched.same path (by simp)
  · rintro rfl
    exact ⟨fun _ _ => rfl, fun _ => rfl⟩

theorem Touched.mono (touched : Touched original paths files) (subset : paths ⊆ others) :
    Touched original others files :=
  ⟨fun path outside => touched.same path (mt (@subset path) outside), touched.exist⟩

theorem Touched.set (touched : Touched original paths files) (member : path ∈ paths)
    (present : (files.settings path).isSome) (value : Int) :
    Touched original paths (files.set path value) := by
  refine ⟨fun other outside => ?_, fun other => ?_⟩
  · have apart : other ≠ path := by
      rintro rfl
      exact outside member
    rw [Files.set_settings, Function.update_of_ne apart]
    exact touched.same other outside
  · by_cases same : other = path
    · subst same
      rw [← touched.exist, present, Files.set_settings, Function.update_self]
      rfl
    · rw [Files.set_settings, Function.update_of_ne same]
      exact touched.exist other

theorem Touched.reset (touched : Touched original (path :: paths) files)
    (known : original path = some value) (present : (files.settings path).isSome) :
    Touched original paths (files.set path value) := by
  refine ⟨fun other outside => ?_, (touched.set List.mem_cons_self present value).exist⟩
  by_cases same : other = path
  · subst same
    rw [known, Files.set_settings, Function.update_self]
  · rw [Files.set_settings, Function.update_of_ne same]
    exact touched.same other (by simp [same, outside])

theorem recordText_eq_nil_iff : recordText saved = [] ↔ saved = [] := by
  cases saved with
  | nil => simp [recordText]
  | cons saved rest => simp [recordText, line]

theorem Pending.consistent (pending : Pending original saved files) :
    Consistent original saved files := by
  refine ⟨pending.touched, ?_, ?_⟩
  · rw [pending.record]
    rintro (missing | empty)
    · cases missing
    · have none := recordText_eq_nil_iff.mp (Option.some.inj empty)
      rw [none] at pending
      exact touched_nil_iff.mp pending.touched
  · intro text held _
    exact Option.some.inj (held.symm.trans pending.record)

section Steps

variable (known : ∀ item ∈ saved, original item.path = some item.value)

theorem Pending.set (pending : Pending original saved files)
    (member : item ∈ saved) (present : (files.settings item.path).isSome)
    (value : Int) : Pending original saved (files.set item.path value) :=
  ⟨pending.touched.set (List.mem_map_of_mem member) present value, pending.record⟩

include known

end Steps

inductive Call
  | save
  | restore (missingOk : Bool)

def runCall (detectors : List Detector) (world : World) : Call → World
  | .save => (save detectors world).2
  | .restore missingOk => (restore missingOk world).2

def after (detectors : List Detector) (world : World) (calls : List Call) :
    World :=
  calls.foldl (runCall detectors) world

end Nvx.Guest.Time
