import Nvx.Host.Filesystem.Path

namespace Nvx.Host.Filesystem

open Nvx.Data
open Nvx.UnixPath
open Nvx.Protocol (slash dot)

/-! The text of names, and paths made of names alone. -/

def named (names : List Name) : Path :=
  names.map .normal

def textOf (names : List Name) : List UInt8 :=
  [slash].intercalate (names.map Subtype.val)

theorem splitOn_textOf (nonempty : names ≠ []) :
    (textOf names).splitOn slash = names.map Subtype.val := by
  refine List.splitOn_intercalate slash ?_ (mt List.map_eq_nil_iff.mp nonempty)
  rw [List.forall_mem_map]
  exact fun name _ => name.property.2

theorem component_val (name : Name) : component name.val = some (.normal name) := by
  obtain ⟨bytes, valid⟩ := name
  have notParent : bytes ≠ [dot, dot] := fun same =>
    valid.1 (by rw [same]; simp)
  rw [component, if_neg notParent, dif_pos valid]

theorem filterMap_component (names : List Name) :
    (names.map Subtype.val).filterMap component = named names := by
  induction names with
  | nil => rfl
  | cons name rest induction =>
    rw [List.map_cons, List.filterMap_cons_some (component_val name), induction]
    rfl

theorem parts_textOf (names : List Name) : parts (textOf names) = named names := by
  by_cases empty : names = []
  · rw [empty]
    rfl
  · rw [parts, splitOn_textOf empty, filterMap_component]

theorem textOf_cons (name : Name) (nonempty : rest ≠ []) :
    textOf (name :: rest) = name.val ++ slash :: textOf rest := by
  rw [textOf, List.map_cons, List.intercalate_cons_of_ne_nil
    (mt List.map_eq_nil_iff.mp nonempty), List.append_assoc]
  rfl

theorem textOf_singleton (name : Name) : textOf [name] = name.val :=
  List.intercalate_singleton

theorem exists_textOf_cons (name : Name) (rest : List Name) :
    ∃ more, textOf (name :: rest) = name.val ++ more := by
  by_cases empty : rest = []
  · exact ⟨[], by rw [empty, textOf_singleton, List.append_nil]⟩
  · exact ⟨_, textOf_cons name empty⟩

theorem exists_val_cons (name : Name) : ∃ byte rest, name.val = byte :: rest ∧ byte ≠ slash := by
  obtain ⟨bytes, nonempty, plain⟩ := name
  cases bytes with
  | nil => simp at nonempty
  | cons byte rest => exact ⟨byte, rest, rfl, fun same => plain (by simp [same])⟩

theorem textOf_eq_nil_iff : textOf names = [] ↔ names = [] := by
  cases names with
  | nil => simp [textOf]
  | cons name rest =>
    obtain ⟨more, split⟩ := exists_textOf_cons name rest
    obtain ⟨byte, bytes, isName, _⟩ := exists_val_cons name
    rw [split, isName]
    simp

theorem head?_textOf (names : List Name) : (textOf names).head? ≠ some slash := by
  cases names with
  | nil => simp [textOf]
  | cons name rest =>
    obtain ⟨more, split⟩ := exists_textOf_cons name rest
    obtain ⟨byte, bytes, isName, plain⟩ := exists_val_cons name
    rw [split, isName]
    simpa using plain

theorem toStrs_named (found : toStrs (named names) = some texts) :
    texts.map asBytes = names.map Subtype.val := by
  induction names generalizing texts with
  | nil =>
    obtain rfl := Option.some.inj found
    rfl
  | cons name rest induction =>
    simp only [named, List.map_cons, toStrs, Option.bind_eq_bind, Option.bind_eq_some_iff] at found
    obtain ⟨text, isText, others, areOthers, same⟩ := found
    obtain rfl := Option.some.inj same
    rw [List.map_cons, List.map_cons, induction areOthers, fromUtf8_eq_some_iff.mp isText]
    rfl

theorem asBytes_joined (texts : List String) :
    asBytes (joined texts) = [slash].intercalate (texts.map asBytes) := by
  fun_induction joined texts with
  | case1 => rfl
  | case2 text => exact List.intercalate_singleton.symm
  | case3 text others nonempty induction =>
    rw [asBytes_append, asBytes_append, induction, List.map_cons,
      List.intercalate_cons_of_ne_nil (mt List.map_eq_nil_iff.mp nonempty)]
    rfl

theorem relativeText_append (found : relativeText root (root ++ named rest) = some text) :
    asBytes text = textOf rest := by
  rw [relativeText, if_pos (List.prefix_append _ _), List.drop_left,
    Option.map_eq_some_iff] at found
  obtain ⟨texts, areTexts, rfl⟩ := found
  rw [asBytes_joined, toStrs_named areTexts, textOf]

theorem prefix_of_relativeText (found : relativeText root path = some text) : root <+: path := by
  unfold relativeText at found
  split at found
  · assumption
  · cases found

end Nvx.Host.Filesystem
