import Mathlib.Data.List.TakeWhile
import Nvx.Protocol.Basic

namespace Nvx.Protocol.Cmdline

open Nvx.Data

/-! The kernel command line as Linux reads it. -/

def quote : UInt8 := 34
def equalsSign : UInt8 := 61
def dash : UInt8 := 45
def underscore : UInt8 := 95

def isSpace (byte : UInt8) : Bool :=
  byte ∈ [32, 9, 10, 0x0b, 0x0c, 13, 0xa0]

structure Parameter where
  name : List UInt8
  value : Option (List UInt8)
  deriving DecidableEq, Repr

def fold (byte : UInt8) : UInt8 :=
  if byte = dash then underscore else byte

def Parameter.isNamed (parameter : Parameter) (name : String) : Bool :=
  parameter.name.length = (asBytes name).length &&
    (parameter.name.zip (asBytes name)).all fun (byte, expected) =>
      fold byte = fold expected

structure Scan where
  inQuote : Bool
  equals : Option Nat
  length : Nat
  deriving DecidableEq, Repr

def Scan.advance (scan : Scan) (byte : UInt8) : Scan where
  inQuote := if byte = quote then !scan.inQuote else scan.inQuote
  equals :=
    if scan.equals = none ∧ byte = equalsSign ∧ 0 < scan.length then
      some scan.length
    else scan.equals
  length := scan.length + 1

/-- Scans the text from where `scan` stands to the end of the parameter. -/
def Scan.run (scan : Scan) : List UInt8 → Scan
  | [] => scan
  | byte :: text =>
    if isSpace byte ∧ scan.inQuote = false then scan
    else (scan.advance byte).run text

def bareName (quoted : Bool) (parameter : List UInt8) : List UInt8 :=
  if quoted ∧ parameter.getLast? = some quote then
    parameter.take (parameter.length - 1)
  else parameter

/-- The value after the equals sign, without the quotes that the kernel drops. -/
def valueText (quoted : Bool) (parameter : List UInt8) (equals : Nat) :
    List UInt8 :=
  let closing : Bool := parameter.getLast? = some quote
  let value := parameter.drop (equals + 1)
  if value.head? = some quote then
    if closing then value.tail.take (value.tail.length - 1) else value.tail
  else if quoted && closing then value.take (value.length - 1)
  else value

/-- The parameter that the scan found in the text, and the text after it. The
kernel stops at `--`. -/
def finish (quoted : Bool) (text : List UInt8) (scan : Scan) : Option (Parameter × List UInt8) :=
  let parameter := text.take scan.length
  match scan.equals with
  | none =>
    if bareName quoted parameter = [dash, dash] then none
    else some (⟨bareName quoted parameter, none⟩, text.drop scan.length)
  | some equals =>
    some (⟨parameter.take equals, some (valueText quoted parameter equals)⟩, text.drop scan.length)

def scanText (quoted : Bool) (text : List UInt8) : Scan :=
  Scan.run ⟨quoted, none, 0⟩ text

def next (rest : List UInt8) : Option (Parameter × List UInt8) :=
  match rest.dropWhile isSpace with
  | [] => none
  | first :: others =>
    let quoted : Bool := first = quote
    let text := if quoted then others else first :: others
    finish quoted text (scanText quoted text)

/-- The scan takes a first part of the text, up to its end or to a space outside
quotes. -/
theorem Scan.run_spec (scan : Scan) (text : List UInt8) :
    ∃ word rest, word ++ rest = text ∧ scan.run text = word.foldl advance scan ∧
      (∀ space ∈ rest.head?, isSpace space ∧ (scan.run text).inQuote = false) := by
  induction text generalizing scan with
  | nil => exact ⟨[], [], rfl, rfl, by simp⟩
  | cons byte text induction =>
    rw [run]
    split
    · rename_i ends
      exact ⟨[], byte :: text, rfl, rfl, by simpa using ends⟩
    · obtain ⟨word, rest, rfl, ran, stops⟩ := induction (scan.advance byte)
      exact ⟨byte :: word, rest, rfl, ran, stops⟩

theorem Scan.length_foldl (word : List UInt8) (scan : Scan) :
    (word.foldl advance scan).length = scan.length + word.length := by
  induction word generalizing scan with
  | nil => rfl
  | cons byte word induction =>
    rw [List.foldl_cons, induction, List.length_cons]
    exact Nat.add_right_comm scan.length 1 word.length

theorem Scan.length_le_run (text : List UInt8) (scan : Scan) :
    scan.length ≤ (scan.run text).length := by
  obtain ⟨word, rest, _, ran, _⟩ := scan.run_spec text
  rw [ran, length_foldl]
  exact Nat.le_add_right scan.length word.length

theorem scanText_spec (quoted : Bool) (text : List UInt8) :
    (scanText quoted text).length ≤ text.length ∧
      ∀ byte ∈ (text.drop (scanText quoted text).length).head?, isSpace byte := by
  obtain ⟨word, rest, rfl, ran, stops⟩ := Scan.run_spec ⟨quoted, none, 0⟩ text
  have length : (scanText quoted (word ++ rest)).length = word.length := by
    rw [scanText, ran, Scan.length_foldl]
    exact Nat.zero_add word.length
  rw [length, List.drop_left]
  refine ⟨?_, fun byte member => (stops byte member).1⟩
  rw [List.length_append]
  exact Nat.le_add_right word.length rest.length

/-- The equals sign stands after the first byte of what was scanned. -/
def Scan.Sound (scan : Scan) : Prop :=
  ∀ equals ∈ scan.equals, 0 < equals ∧ equals < scan.length

theorem Scan.Sound.advance (sound : Sound scan) (byte : UInt8) : (scan.advance byte).Sound := by
  intro equals found
  simp only [Scan.advance] at found ⊢
  split at found
  · obtain rfl := Option.some.inj found
    omega
  · have bounds := sound equals found
    omega

theorem Scan.Sound.run (sound : Sound scan) (text : List UInt8) : (scan.run text).Sound := by
  induction text generalizing scan with
  | nil => exact sound
  | cons byte text induction =>
    rw [Scan.run]
    split
    · exact sound
    · exact induction (sound.advance byte)

theorem sound_scanText (quoted : Bool) (text : List UInt8) : (scanText quoted text).Sound := by
  apply Scan.Sound.run
  rintro equals ⟨⟩

theorem not_isSpace_of_dropWhile {text others : List UInt8}
    (dropped : text.dropWhile isSpace = first :: others) :
    isSpace first = false := by
  have head := List.head?_dropWhile_not isSpace text
  rwa [dropped] at head

theorem scanText_pos (visible : isSpace first = false)
    (others : List UInt8) : 0 < (scanText false (first :: others)).length := by
  rw [scanText, Scan.run, if_neg (by simp [visible])]
  exact Nat.lt_of_lt_of_le Nat.zero_lt_one
    (Scan.length_le_run others (Scan.advance ⟨false, none, 0⟩ first))

theorem finish_eq_some (found : finish quoted text scan = some (parameter, rest)) :
    rest = text.drop scan.length := by
  unfold finish at found
  simp only at found
  split at found
  · split at found
    · cases found
    · exact (Prod.mk.inj (Option.some.inj found)).2.symm
  · exact (Prod.mk.inj (Option.some.inj found)).2.symm

theorem length_lt_of_next (found : next rest = some (parameter, others)) :
    others.length < rest.length := by
  have shorter := (List.dropWhile_suffix isSpace (l := rest)).length_le
  unfold next at found
  split at found
  · cases found
  · rename_i first later dropped
    have visible := not_isSpace_of_dropWhile dropped
    rw [dropped, List.length_cons] at shorter
    obtain rfl := finish_eq_some found
    rw [List.length_drop]
    by_cases quoted : first = quote
    · simp only [quoted, decide_true, if_true]
      omega
    · simp only [quoted, decide_false, Bool.false_eq_true, if_false]
      have positive := scanText_pos visible later
      rw [List.length_cons]
      omega

def collect (rest : List UInt8) : List Parameter :=
  match _found : next rest with
  | none => []
  | some (parameter, others) => parameter :: collect others
termination_by rest.length
decreasing_by exact length_lt_of_next ‹_›

theorem collect_eq (rest : List UInt8) : collect rest = match next rest with
      | none => []
      | some (parameter, others) => parameter :: collect others := by
  rw [collect]
  split <;> simp_all

theorem bareName_subset (quoted : Bool) (parameter : List UInt8) :
    bareName quoted parameter ⊆ parameter := by
  unfold bareName
  split
  · exact List.take_subset _ parameter
  · exact List.Subset.refl parameter

theorem finish_subset (found : finish quoted text scan = some (parameter, rest)) :
    parameter.name ⊆ text ∧ rest ⊆ text := by
  obtain rfl := finish_eq_some found
  refine ⟨?_, List.drop_subset _ text⟩
  have taken := List.take_subset scan.length text
  unfold finish at found
  simp only at found
  split at found
  · split at found
    · cases found
    · obtain ⟨rfl, _⟩ := Prod.mk.inj (Option.some.inj found)
      exact List.Subset.trans (bareName_subset _ _) taken
  · obtain ⟨rfl, _⟩ := Prod.mk.inj (Option.some.inj found)
    exact List.Subset.trans (List.take_subset _ _) taken

theorem next_subset (found : next rest = some (parameter, others)) :
    parameter.name ⊆ rest ∧ others ⊆ rest := by
  have dropped := (List.dropWhile_suffix isSpace (l := rest)).subset
  unfold next at found
  split at found
  · cases found
  · rename_i first later text
    rw [text] at dropped
    have tail : (if decide (first = quote) = true then later else first :: later) ⊆ rest := by
      split
      · exact List.Subset.trans (List.subset_cons_self first later) dropped
      · exact dropped
    obtain ⟨name, others⟩ := finish_subset found
    exact ⟨List.Subset.trans name tail, List.Subset.trans others tail⟩

theorem name_subset_of_mem_collect (member : parameter ∈ collect rest) : parameter.name ⊆ rest := by
  induction rest using collect.induct with
  | case1 rest none =>
    rw [collect_eq, none] at member
    cases member
  | case2 rest first others found induction =>
    rw [collect_eq, found] at member
    obtain ⟨name, tail⟩ := next_subset found
    rcases List.mem_cons.mp member with rfl | later
    · exact name
    · exact List.Subset.trans (induction later) tail

def parameters (commandLine : List UInt8) : List Parameter :=
  collect (commandLine.takeWhile (· ≠ 0))

end Nvx.Protocol.Cmdline
