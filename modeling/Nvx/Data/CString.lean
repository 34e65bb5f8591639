import Mathlib.Algebra.Order.BigOperators.Ring.Finset
import Mathlib.Data.List.GetD
import Mathlib.Data.List.TakeWhile

namespace Nvx.Data

/-! NUL-terminated strings in a buffer that is written in place. -/

def cstring (buffer : List UInt8) (index : Nat) : List UInt8 :=
  (buffer.drop index).takeWhile (· ≠ 0)

theorem cstring_of_zero (ends : buffer.getD index 0 = 0) : cstring buffer index = [] := by
  unfold cstring
  by_cases inside : index < buffer.length
  · rw [List.getD_eq_getElem _ _ inside] at ends
    rw [List.drop_eq_getElem_cons inside, ends]
    rfl
  · rw [List.drop_eq_nil_of_le (Nat.le_of_not_lt inside)]
    rfl

theorem cstring_of_ne (goesOn : buffer.getD index 0 ≠ 0) :
    cstring buffer index = buffer.getD index 0 :: cstring buffer (index + 1) := by
  unfold cstring
  by_cases inside : index < buffer.length
  · rw [List.getD_eq_getElem _ _ inside] at goesOn ⊢
    rw [List.drop_eq_getElem_cons inside, List.takeWhile_cons, if_pos (by simpa using goesOn)]
  · exact absurd (List.getD_eq_default _ _ (Nat.le_of_not_lt inside)) goesOn

theorem getD_eq_headD (buffer : List UInt8) (index : Nat) :
    buffer.getD index 0 = (cstring buffer index).headD 0 := by
  by_cases ends : buffer.getD index 0 = 0
  · rw [cstring_of_zero ends, ends]
    rfl
  · rw [cstring_of_ne ends]
    rfl

theorem getD_of_cstring_nil (text : cstring buffer index = []) : buffer.getD index 0 = 0 := by
  rw [getD_eq_headD, text]
  rfl

theorem of_cstring_cons (text : cstring buffer index = byte :: rest) :
    buffer.getD index 0 = byte ∧ byte ≠ 0 ∧ cstring buffer (index + 1) = rest := by
  have here : buffer.getD index 0 = byte := by
    rw [getD_eq_headD, text]
    rfl
  have present : buffer.getD index 0 ≠ 0 := by
    intro ends
    rw [cstring_of_zero ends] at text
    cases text
  rw [cstring_of_ne present] at text
  exact ⟨here, here ▸ present, (List.cons.inj text).2⟩

theorem takeWhile_set_zero (bytes : List UInt8) (position : Nat) :
    (bytes.set position 0).takeWhile (· ≠ 0) = (bytes.takeWhile (· ≠ 0)).take position := by
  induction bytes generalizing position with
  | nil => simp
  | cons byte bytes induction =>
    cases position with
    | zero => simp
    | succ position =>
      by_cases ends : byte = 0
      · simp [ends]
      · simpa [ends] using induction position

theorem cstring_set_of_le (later : index ≤ position) :
    cstring (buffer.set position 0) index = (cstring buffer index).take (position - index) := by
  rw [cstring, List.drop_set, if_neg (Nat.not_lt_of_le later), takeWhile_set_zero, cstring]

theorem cstring_set_of_lt (earlier : position < index) :
    cstring (buffer.set position 0) index = cstring buffer index := by
  rw [cstring, List.drop_set, if_pos earlier, cstring]

theorem getD_set_of_ne {buffer : List UInt8} (other : position ≠ index) :
    (buffer.set position 0).getD index 0 = buffer.getD index 0 := by
  rw [List.getD_eq_getElem?_getD, List.getElem?_set_ne other, List.getD_eq_getElem?_getD]

theorem set_of_zero {buffer : List UInt8}
    (ends : buffer.getD position 0 = 0) : buffer.set position 0 = buffer := by
  by_cases inside : position < buffer.length
  · rw [List.getD_eq_getElem _ _ inside] at ends
    have same := List.set_getElem_self inside
    rwa [ends] at same
  · exact List.set_eq_of_length_le (Nat.le_of_not_lt inside)

theorem cstring_add (short : length ≤ (cstring buffer index).length) :
    cstring buffer (index + length) = (cstring buffer index).drop length := by
  induction length generalizing index with
  | zero => rfl
  | succ length induction =>
    by_cases ends : buffer.getD index 0 = 0
    · rw [cstring_of_zero ends] at short
      cases short
    · rw [cstring_of_ne ends] at short ⊢
      rw [List.drop_succ_cons, ← induction (Nat.le_of_succ_le_succ short),
        Nat.add_right_comm, Nat.add_assoc]

theorem getD_cstring (short : length ≤ (cstring buffer index).length) :
    buffer.getD (index + length) 0 = (cstring buffer index).getD length 0 := by
  have rest := cstring_add short
  by_cases ends : buffer.getD (index + length) 0 = 0
  · rw [cstring_of_zero ends, eq_comm, List.drop_eq_nil_iff] at rest
    rw [ends, List.getD_eq_default _ _ rest]
  · rw [cstring_of_ne ends] at rest
    have head := congrArg List.head? rest
    rw [List.head?_cons, List.head?_drop] at head
    rw [@List.getD_eq_getElem?_getD _ _ length, ← head, Option.getD_some]

end Nvx.Data
