import Nvx.Data.Bytes

namespace Nvx.Host.Template.LogSearch

open Nvx.Data

/-! The search back through a log for the last line that starts with some text. -/

def fatalBlockBytes : Nat := 64 * 1024

def newline : UInt8 := 10

inductive IoError
  | unexpectedEof
  deriving DecidableEq, Repr

def readExact (log : List UInt8) (start count : Nat) : Except IoError (List UInt8) :=
  if start + count ≤ log.length then .ok (slice start count log) else .error .unexpectedEof

theorem readExact_eq (inside : start + count ≤ log.length) :
    readExact log start count = .ok (slice start count log) :=
  if_pos inside

/-- The offsets in a block, from its last, that follow one of the first `size`
bytes if that is a newline, and the start of the log. -/
def starts (block : List UInt8) (size start : Nat) : List Nat :=
  ((block.take size).zipIdx.reverse.filter fun pair => pair.1 = newline).map (·.2 + 1)
    ++ if start = 0 then [0] else []

/-- The loop, over blocks of any size. -/
def searchBefore {blockBytes : Nat} (positive : 0 < blockBytes) (log text : List UInt8)
    (finish : Nat) : Except IoError (Option Nat) :=
  if _more : 0 < finish then
    let start := finish - blockBytes
    let stop := min log.length (finish + text.length)
    match readExact log start (stop - start) with
    | .error error => .error error
    | .ok block =>
      match (starts block (finish - start) start).find? fun line =>
          text.isPrefixOf (block.drop line) with
      | some line => .ok (some (start + line))
      | none => searchBefore positive log text start
  else .ok none
termination_by finish
decreasing_by exact Nat.sub_lt _more positive

def lastLineStart (log text : List UInt8) : Except IoError (Option Nat) :=
  searchBefore (by decide : 0 < fatalBlockBytes) log text log.length

/-- A line starts here, and with this text. -/
def Leads (log text : List UInt8) (offset : Nat) : Prop :=
  (offset = 0 ∨ ∃ before, log[before]? = some newline ∧ offset = before + 1) ∧
    text <+: log.drop offset

/-- The last of the lines that start with the text, or none where none does. -/
def IsLast (log text : List UInt8) (result : Option Nat) : Prop :=
  (∀ offset ∈ result, Leads log text offset ∧ ∀ other, Leads log text other → other ≤ offset) ∧
    (result = none → ∀ offset, ¬ Leads log text offset)

theorem Leads.le (leads : Leads log text offset) : offset ≤ log.length := by
  rcases leads.1 with rfl | ⟨before, found, rfl⟩
  · exact Nat.zero_le _
  · exact (List.getElem?_eq_some_iff.mp found).1

theorem Leads.pos (leads : Leads log text offset) (nonempty : text ≠ []) : 0 < log.length := by
  have length := leads.2.length_le
  rw [List.length_drop] at length
  have positive := List.length_pos_iff.mpr nonempty
  omega

theorem mem_starts : line ∈ starts block size start ↔
    (∃ before < size, block[before]? = some newline ∧ line = before + 1) ∨
      start = 0 ∧ line = 0 := by
  simp only [starts, List.mem_append, List.mem_map, List.mem_filter, List.mem_reverse,
    List.mem_zipIdx_iff_getElem?, List.getElem?_take, decide_eq_true_eq, Prod.exists]
  refine or_congr ?_ ?_
  · constructor
    · rintro ⟨byte, before, ⟨found, rfl⟩, rfl⟩
      split at found
      case isTrue inside => exact ⟨before, inside, found, rfl⟩
      case isFalse => cases found
    · rintro ⟨before, inside, found, rfl⟩
      exact ⟨newline, before, ⟨by rw [if_pos inside, found], rfl⟩, rfl⟩
  · split <;> simp_all

theorem starts_descend : (starts block size start).Pairwise (· > ·) := by
  have ascend : (block.take size).zipIdx.Pairwise fun first second => first.2 < second.2 := by
    rw [← List.pairwise_map, List.zipIdx_map_snd]
    exact List.pairwise_lt_range'
  refine List.pairwise_append.mpr ⟨List.pairwise_map.mpr ?_, ?_, ?_⟩
  · exact (List.pairwise_reverse.mpr ascend).filter _ |>.imp fun less => Nat.succ_lt_succ less
  · split <;> simp
  · intro line member other zero
    obtain ⟨pair, _, rfl⟩ := List.mem_map.mp member
    split at zero <;> simp_all

theorem le_of_find? {lines : List Nat} (descend : lines.Pairwise (· > ·))
    (found : lines.find? p = some line) (member : other ∈ lines) (holds : p other) :
    other ≤ line := by
  obtain ⟨_, earlier, later, rfl, fails⟩ := List.find?_eq_some_iff_append.mp found
  rcases List.mem_append.mp member with early | late
  · have fail := fails other early
    rw [holds] at fail
    cases fail
  · rcases List.mem_cons.mp late with rfl | after
    · exact le_rfl
    · exact ((List.pairwise_cons.mp (List.pairwise_append.mp descend).2.1).1 other after).le

theorem getElem?_slice (inside : before < count) :
    (slice start count log)[before]? = log[start + before]? := by
  rw [slice, List.getElem?_take_of_lt inside, List.getElem?_drop]

theorem drop_slice (start count line : Nat) (log : List UInt8) :
    (slice start count log).drop line = (log.drop (start + line)).take (count - line) := by
  rw [slice, List.drop_take, List.drop_drop]

/-- In a block that goes on past its end by the text's length, the lines that
start with the text are those of the log. -/
theorem leads_iff {log text : List UInt8} {start finish count line : Nat}
    (stops : start + count = min log.length (finish + text.length)) (fits : finish ≤ log.length) :
    (line ∈ starts (slice start count log) (finish - start) start ∧
        text <+: (slice start count log).drop line) ↔
      Leads log text (start + line) ∧ start + line ≤ finish ∧ (line = 0 → start = 0) := by
  rw [mem_starts, drop_slice, List.prefix_take_iff]
  have room : text <+: log.drop (start + line) → start + line ≤ finish →
      text.length ≤ count - line := fun leads before => by
    have length := leads.length_le
    rw [List.length_drop] at length
    omega
  constructor
  · rintro ⟨⟨before, inside, found, rfl⟩ | ⟨rfl, rfl⟩, leads, _⟩
    · rw [getElem?_slice (by omega)] at found
      exact ⟨⟨.inr ⟨start + before, found, rfl⟩, leads⟩, by omega, by simp⟩
    · exact ⟨⟨.inl rfl, leads⟩, Nat.zero_le _, fun _ => rfl⟩
  · rintro ⟨⟨here, leads⟩, before, first⟩
    refine ⟨?_, leads, room leads before⟩
    rcases here with zero | ⟨newlineAt, found, follows⟩
    · exact .inr ⟨by omega, by omega⟩
    · have later : line ≠ 0 := fun zero => by
        have none := first zero
        omega
      refine .inl ⟨line - 1, by omega, ?_, by omega⟩
      rw [getElem?_slice (by omega), ← found]
      congr 1
      omega

theorem searchBefore_spec (positive : 0 < blockBytes) (log text : List UInt8) (finish : Nat)
    (fits : finish ≤ log.length)
    (passed : ∀ offset, Leads log text offset → offset ≤ finish ∧ 0 < finish) :
    ∃ result, searchBefore positive log text finish = .ok result ∧ IsLast log text result := by
  induction finish using Nat.strong_induction_on with
  | _ finish induction =>
    rw [searchBefore]
    split
    case isFalse ended =>
      exact ⟨none, rfl, by simp, fun _ offset leads => ended (passed offset leads).2⟩
    case isTrue more =>
      generalize isStart : finish - blockBytes = start
      have earlier : start < finish := isStart ▸ Nat.sub_lt more positive
      simp only [readExact_eq (by omega : start +
        (min log.length (finish + text.length) - start) ≤ log.length)]
      have block : ∀ line, _ ↔ _ := fun line => @leads_iff log text start finish
        (min log.length (finish + text.length) - start) line (by omega) fits
      generalize slice start (min log.length (finish + text.length) - start) log = bytes at block ⊢
      -- A line that starts with the text and is not in this block starts before it.
      have inBlock : ∀ other, Leads log text other → start < other ∨ start = 0 →
          other - start ∈ starts bytes (finish - start) start ∧
            text <+: bytes.drop (other - start) := by
        intro other leads after
        have ends := (passed other leads).1
        refine (block (other - start)).mpr ⟨?_, by omega, by omega⟩
        rwa [Nat.add_sub_cancel' (by omega)]
      split
      case h_1 line found =>
        have holds := List.find?_some found
        have held := (block line).mp ⟨List.mem_of_find?_eq_some found,
          List.isPrefixOf_iff_prefix.mp holds⟩
        refine ⟨some (start + line), rfl, ?_, by simp⟩
        rintro offset ⟨rfl⟩
        refine ⟨held.1, fun other leads => ?_⟩
        by_contra past
        have inside := inBlock other leads (by omega)
        have le := le_of_find? starts_descend found inside.1
          (List.isPrefixOf_iff_prefix.mpr inside.2)
        omega
      case h_2 absent =>
        refine induction start earlier (by omega) fun other leads => ?_
        by_contra past
        have inside := inBlock other leads (by omega)
        exact List.find?_eq_none.mp absent _ inside.1 (List.isPrefixOf_iff_prefix.mpr inside.2)

/-- The search finds the last line of the log that starts with the text. -/
theorem last_line_start_is_exact (log text : List UInt8) (nonempty : text ≠ []) :
    ∃ result, lastLineStart log text = .ok result ∧ IsLast log text result :=
  searchBefore_spec _ log text log.length le_rfl fun _ leads => ⟨leads.le, leads.pos nonempty⟩

theorem last_of_two_lines : ∃ result, lastLineStart [1, newline, 1] [1] = .ok result ∧
    IsLast [1, newline, 1] [1] result :=
  last_line_start_is_exact [1, newline, 1] [1] (by decide)

end Nvx.Host.Template.LogSearch
