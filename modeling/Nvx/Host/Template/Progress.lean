import Nvx.Data.Loops
import Nvx.Host.Egress.Text

namespace Nvx.Host.Template

open Nvx.Data
open Nvx.Host.Egress (hexDigit)

inductive Progress
  | planned
  | launching
  | spawned
  | event
  | acknowledged
  | activating
  | ready
  | starting
  | started
  | committed
  deriving DecidableEq

namespace Progress

def rank (progress : Progress) : Nat := progress.ctorIdx

def max (first second : Progress) : Progress :=
  if first.rank ≤ second.rank then second else first

def asStr : Progress → String
  | .planned => "planned"
  | .launching => "launching"
  | .spawned => "spawned"
  | .event => "event"
  | .acknowledged => "acknowledged"
  | .activating => "activating"
  | .ready => "ready"
  | .starting => "starting"
  | .started => "started"
  | .committed => "committed"

end Progress

def loggedSteps : List Progress :=
  [.spawned, .event, .acknowledged, .activating, .ready, .starting, .started, .committed]

def lowercase (digit : Nat) : UInt8 :=
  .ofNat (if digit < 10 then 48 + digit else 87 + digit)

def isLowercaseHex (byte : UInt8) : Bool :=
  (48 ≤ byte && byte ≤ 57) || (97 ≤ byte && byte ≤ 102)

structure LaunchId where
  text : List UInt8
  valid : text.length = 32 ∧ text.all isLowercaseHex = true

abbrev BootId := Bytes 16

def BootId.text (boot : BootId) : List UInt8 :=
  boot.val.flatMap fun byte =>
    [lowercase (byte.toNat / 16), lowercase (byte.toNat % 16)]

def hexPairs : List UInt8 → Option (List UInt8)
  | first :: second :: rest => do
      let high ← hexDigit first
      let low ← hexDigit second
      let bytes ← hexPairs rest
      return .ofNat (high * 16 + low) :: bytes
  | _ => some []

def parseHexId (digits : List UInt8) : Option BootId := do
  if digits.length = 32 then
    let bytes ← hexPairs digits
    if sized : bytes.length = 16 then some ⟨bytes, sized⟩ else none
  else none

def progressWhat : String := "clone progress log"

def headerText (launch : LaunchId) : List UInt8 :=
  asBytes "nvx-clone-progress 1 " ++ launch.text ++ asBytes " "

structure ProgressLog where
  file : List UInt8
  progress : Progress
  logged : Progress

namespace ProgressLog

def create (launch : LaunchId) (boot : BootId) : ProgressLog where
  file := headerText launch ++ boot.text ++ [10]
  progress := .launching
  logged := .launching

def advance (log : ProgressLog) (step : Progress) : ProgressLog :=
  { log with progress := log.progress.max step }

def line (step : Progress) : List UInt8 := asBytes step.asStr ++ [10]

def reach (write : List UInt8 → List UInt8 → Except String (List UInt8))
    (path : String) (log : ProgressLog) (step : Progress) :
    Except String ProgressLog := do
  let log := log.advance step
  if log.progress.rank ≤ log.logged.rank then return log
  let lines := (loggedSteps.filter fun step =>
    log.logged.rank < step.rank ∧ step.rank ≤ log.progress.rank).flatMap line
  let file ← (write log.file lines).mapError fun _ =>
    s!"cannot record that the clone reached its step {log.progress.asStr} " ++
      s!"in the {progressWhat} {path}"
  return { log with file := file, logged := log.progress }

end ProgressLog

structure Logged where
  progress : Progress
  boot : Option BootId

def maxProgressBytes : Nat := 4096

def readPrivate (path : String) (file : Option (List UInt8)) :
    Except String (Option (List UInt8)) :=
  match file with
  | none => .ok none
  | some bytes => do
      failIf (maxProgressBytes < bytes.length) s!"cannot read the {progressWhat} {path}"
      return some bytes

def malformed (path problem : String) : String :=
  s!"the {progressWhat} {path} {problem}"

def completeLines (text : List UInt8) : List (List UInt8) :=
  (text.splitOn 10).dropLast

def shown (text : List UInt8) : String := (fromUtf8 text).getD ""

def readBoot (launch : LaunchId) (line : List UInt8) : Option BootId :=
  if headerText launch <+: line then
    parseHexId (line.drop (headerText launch).length)
  else none

def readSteps (path : String) (progress : Progress) : List (List UInt8) → Except String Progress
  | [] => .ok progress
  | line :: rest => do
      let refused := malformed path
        (s!"records {(shown line).quote} after the step {progress.asStr}, " ++
          "which is not a later step")
      match loggedSteps.find? fun step => asBytes step.asStr = line with
      | some step =>
        if progress.rank < step.rank then readSteps path step rest
        else .error refused
      | none => .error refused

def readLines (path : String) (launch : LaunchId) : List (List UInt8) → Except String Logged
  | [] => .ok ⟨.launching, none⟩
  | first :: lines =>
    match readBoot launch first with
    | none => .error (malformed path
        (s!"begins with {(shown first).quote}, not with the first line of " ++
          s!"the launch {shown launch.text}, " ++
          s!"{(shown (headerText launch)).quote} " ++
          "followed by the identity of a boot"))
    | some boot => do
        let progress ← readSteps path .launching lines
        return ⟨progress, some boot⟩

def readProgress (path : String) (launch : LaunchId)
    (file : Option (List UInt8)) : Except String (Option Logged) := do
  match ← readPrivate path file with
  | none => return none
  | some bytes =>
    failIf (¬ IsUtf8 bytes) (malformed path "is not UTF-8")
    let logged ← readLines path launch (completeLines bytes)
    return some logged

def writtenLines (lines : List (List UInt8)) : List UInt8 :=
  lines.flatMap (· ++ [10])

@[simp] theorem writtenLines_cons (line : List UInt8) (lines : List (List UInt8)) :
    writtenLines (line :: lines) = line ++ 10 :: writtenLines lines := by
  simp [writtenLines]

theorem noNewline {text : List UInt8} (plain : 10 ∉ text) :
    ∀ byte ∈ text, (byte == 10) = false := by
  intro byte member
  rw [beq_eq_false_iff_ne]
  rintro rfl
  exact plain member

theorem completeLines_of_notMem (plain : 10 ∉ text) : completeLines text = [] := by
  rw [completeLines, List.splitOn, List.splitOnP_eq_singleton (noNewline plain)]
  rfl

theorem completeLines_append (plain : 10 ∉ line) (rest : List UInt8) :
    completeLines (line ++ 10 :: rest) = line :: completeLines rest := by
  rw [completeLines, List.splitOn, List.splitOnP_append_cons_of_forall_mem (noNewline plain) 10 rfl,
    List.dropLast_cons_of_ne_nil (List.splitOnP_ne_nil _ _)]
  rfl

/-- What is left of a file holds its first lines, and not the one after them. -/
theorem exists_completeLines
    (plain : ∀ line ∈ lines, 10 ∉ line) (cut : kept <+: writtenLines lines) :
    ∃ count ≤ lines.length, completeLines kept = lines.take count ∧
      ∀ other ≤ lines.length, writtenLines (lines.take other) <+: kept ↔ other ≤ count := by
  induction lines generalizing kept with
  | nil =>
    obtain rfl : kept = [] := List.prefix_nil.mp cut
    exact ⟨0, Nat.le_refl _, rfl, by simp [writtenLines]⟩
  | cons line lines induction =>
    rw [List.forall_mem_cons] at plain
    rw [writtenLines_cons] at cut
    have whole : line ++ [10] <+: line ++ 10 :: writtenLines lines := by simp
    have cases : kept <+: line ∨ line ++ [10] <+: kept := by
      rcases List.prefix_or_prefix_of_prefix cut whole with short | long
      · rcases List.prefix_concat_iff.mp short with rfl | short
        · exact .inr List.prefix_rfl
        · exact .inl short
      · exact .inr long
    rcases cases with short | ⟨rest, rfl⟩
    · have noLine : 10 ∉ kept := mt (fun member => short.subset member) plain.1
      refine ⟨0, Nat.zero_le _, completeLines_of_notMem noLine, ?_⟩
      intro other _
      cases other with
      | zero => simp [writtenLines]
      | succ other =>
        rw [List.take_succ_cons, writtenLines_cons]
        refine iff_of_false (fun holds => noLine ?_) (by omega)
        exact holds.subset (by simp)
    · rw [List.append_assoc, List.singleton_append,
        List.prefix_append_right_inj, List.cons_prefix_cons] at cut
      obtain ⟨count, most, same, holds⟩ := induction plain.2 cut.2
      refine ⟨count + 1, Nat.succ_le_succ most, ?_, ?_⟩
      · rw [List.append_assoc, List.singleton_append,
          completeLines_append plain.1, same, List.take_succ_cons]
      · intro other inside
        cases other with
        | zero => simp [writtenLines]
        | succ other =>
          rw [List.take_succ_cons, writtenLines_cons, List.append_assoc,
            List.singleton_append, List.prefix_append_right_inj,
            List.cons_prefix_cons, Nat.succ_le_succ_iff]
          exact (and_iff_right rfl).trans (holds other (Nat.le_of_succ_le_succ inside))

def Plain (text : List UInt8) : Prop :=
  ∀ byte ∈ text, byte.toNat < 128 ∧ byte ≠ 10

instance (text : List UInt8) : Decidable (Plain text) :=
  inferInstanceAs (Decidable (∀ byte ∈ text, _))

theorem Plain.append (one : Plain first) (other : Plain second) : Plain (first ++ second) :=
  List.forall_mem_append.mpr ⟨one, other⟩

theorem plain_of_hex (hex : isLowercaseHex byte = true) : byte.toNat < 128 ∧ byte ≠ 10 := by
  simp only [isLowercaseHex, Bool.or_eq_true, Bool.and_eq_true,
    decide_eq_true_iff, UInt8.le_iff_toNat_le] at hex
  constructor
  · change 48 ≤ byte.toNat ∧ byte.toNat ≤ 57 ∨ 97 ≤ byte.toNat ∧ byte.toNat ≤ 102 at hex
    omega
  · rintro rfl
    revert hex
    decide

theorem lowercase_spec : ∀ digit < 16, isLowercaseHex (lowercase digit) = true ∧
    hexDigit (lowercase digit) = some digit := by
  decide

theorem hexPairs_text (bytes : List UInt8) :
    hexPairs (bytes.flatMap fun byte => [lowercase (byte.toNat / 16),
      lowercase (byte.toNat % 16)]) = some bytes := by
  induction bytes with
  | nil => rfl
  | cons byte rest induction =>
    have small := byte.toNat_lt
    have high := (lowercase_spec (byte.toNat / 16) (by omega)).2
    have low := (lowercase_spec (byte.toNat % 16) (by omega)).2
    have whole : byte.toNat / 16 * 16 + byte.toNat % 16 = byte.toNat := by omega
    simp only [List.flatMap_cons, List.cons_append, List.nil_append, hexPairs,
      high, low, induction, Option.bind_eq_bind, Option.bind_some, whole,
      UInt8.ofNat_toNat]
    rfl

theorem parseHexId_text (boot : BootId) : parseHexId boot.text = some boot := by
  have length : boot.text.length = 32 := by
    simp [BootId.text, boot.property]
  rw [parseHexId, if_pos length, BootId.text, hexPairs_text]
  simp [boot.property]

def firstLine (launch : LaunchId) (boot : BootId) : List UInt8 :=
  headerText launch ++ boot.text

theorem plain_firstLine (launch : LaunchId) (boot : BootId) : Plain (firstLine launch boot) := by
  have magic : Plain (asBytes "nvx-clone-progress 1 ") := by decide +kernel
  have blank : Plain (asBytes " ") := by decide +kernel
  refine ((magic.append ?_).append blank).append ?_
  · intro byte member
    exact plain_of_hex (List.all_eq_true.mp launch.valid.2 byte member)
  · intro byte member
    obtain ⟨origin, _, digit⟩ := List.mem_flatMap.mp member
    have small := origin.toNat_lt
    rcases List.mem_pair.mp digit with rfl | rfl
    · exact plain_of_hex (lowercase_spec _ (by omega)).1
    · exact plain_of_hex (lowercase_spec _ (by omega)).1

theorem readBoot_firstLine (launch : LaunchId) (boot : BootId) :
    readBoot launch (firstLine launch boot) = some boot := by
  rw [readBoot, firstLine, if_pos (List.prefix_append _ _), List.drop_left]
  exact parseHexId_text boot

def stepsUpTo (logged : Progress) : List Progress :=
  loggedSteps.filter fun step => step.rank ≤ logged.rank

def content (launch : LaunchId) (boot : BootId) (logged : Progress) :
    List UInt8 :=
  writtenLines (firstLine launch boot :: (stepsUpTo logged).map fun step => asBytes step.asStr)

theorem stepsUpTo_append (logged progress : Progress) (less : logged.rank ≤ progress.rank) :
    stepsUpTo logged ++ loggedSteps.filter (fun step =>
      logged.rank < step.rank ∧ step.rank ≤ progress.rank) =
        stepsUpTo progress := by
  revert less
  cases logged <;> cases progress <;> decide

theorem plain_asStr (step : Progress) : Plain (asBytes step.asStr) := by
  cases step <;> decide +kernel

theorem find_loggedSteps (member : step ∈ loggedSteps) :
    (loggedSteps.find? fun other => asBytes other.asStr = asBytes step.asStr) =
      some step := by
  simp only [asBytes_injective.eq_iff]
  revert member
  cases step <;> decide

theorem readSteps_map (path : String) (known : ∀ step ∈ steps, step ∈ loggedSteps)
    (ascending : (progress :: steps).Pairwise (·.rank < ·.rank)) :
    readSteps path progress (steps.map fun step => asBytes step.asStr) =
      .ok (steps.getLastD progress) := by
  induction steps generalizing progress with
  | nil => rfl
  | cons step rest induction =>
    rw [List.forall_mem_cons] at known
    obtain ⟨later, ascending⟩ := List.pairwise_cons.mp ascending
    rw [List.map_cons, readSteps, find_loggedSteps known.1]
    simp only
    rw [if_pos (later step List.mem_cons_self), induction known.2 ascending, List.getLastD_cons]

inductive Call
  | advance (step : Progress)
  | reach (step : Progress)

def ProgressLog.run (log : ProgressLog) : Call → ProgressLog
  | .advance step => log.advance step
  | .reach step =>
    match log.reach (fun file lines => .ok (file ++ lines)) "" step with
    | .ok log => log
    | .error _ => log

def Call.step : Call → Progress
  | .advance step => step
  | .reach step => step

def Call.isAdvance : Call → Bool
  | .advance _ => true
  | .reach _ => false

/-- The calls up to the last one that records steps. -/
def untilReach (calls : List Call) : List Call :=
  calls.rdropWhile Call.isAdvance

/-- The latest of `launching` and the steps of the calls. -/
structure Latest (calls : List Call) (latest : Progress) : Prop where
  named : latest = .launching ∨ ∃ call ∈ calls, call.step = latest
  least : Progress.launching.rank ≤ latest.rank
  most : ∀ call ∈ calls, call.step.rank ≤ latest.rank

theorem latest_nil : Latest [] .launching :=
  ⟨.inl rfl, Nat.le_refl _, List.forall_mem_nil _⟩

theorem Latest.concat (latest : Latest calls step) (call : Call) :
    Latest (calls ++ [call]) (step.max call.step) := by
  obtain ⟨named, least, most⟩ := latest
  unfold Progress.max
  split
  · rename_i less
    refine ⟨.inr ⟨call, by simp, rfl⟩, least.trans less, ?_⟩
    simp only [List.forall_mem_append, List.forall_mem_singleton, Nat.le_refl, and_true]
    exact fun other member => (most other member).trans less
  · rename_i more
    refine ⟨named.imp_right ?_, least, ?_⟩
    · rintro ⟨other, member, same⟩
      exact ⟨other, List.mem_append_left _ member, same⟩
    · simp only [List.forall_mem_append, List.forall_mem_singleton]
      exact ⟨most, Nat.le_of_not_le more⟩

structure Recorded (launch : LaunchId) (boot : BootId) (calls : List Call)
    (log : ProgressLog) : Prop where
  file : log.file = content launch boot log.logged
  logged : Latest (untilReach calls) log.logged
  reached : log.logged.rank ≤ log.progress.rank
  progress : Latest calls log.progress

theorem recorded_create (launch : LaunchId) (boot : BootId) :
    Recorded launch boot [] (.create launch boot) := by
  refine ⟨?_, latest_nil, Nat.le_refl _, latest_nil⟩
  have none : stepsUpTo .launching = [] := by decide
  rw [ProgressLog.create, content, none]
  simp [writtenLines, firstLine]

theorem Recorded.advance (recorded : Recorded launch boot calls log)
    (step : Progress) : Recorded launch boot (calls ++ [.advance step]) (log.advance step) := by
  refine ⟨recorded.file, ?_, ?_, recorded.progress.concat (.advance step)⟩
  · rw [untilReach, List.rdropWhile_concat_pos _ _ _ rfl]
    exact recorded.logged
  · have reached := recorded.reached
    simp only [ProgressLog.advance, Progress.max]
    split <;> omega

theorem eq_of_rank_eq {first second : Progress} (same : first.rank = second.rank) :
    first = second := by
  revert same
  cases first <;> cases second <;> decide

theorem Recorded.run (recorded : Recorded launch boot calls log) (call : Call) :
    Recorded launch boot (calls ++ [call]) (log.run call) := by
  cases call with
  | advance step => exact recorded.advance step
  | reach step =>
    have advanced := recorded.advance step
    have all : Latest (calls ++ [.reach step]) (log.advance step).progress :=
      recorded.progress.concat (.reach step)
    have latest : Latest (untilReach (calls ++ [.reach step])) (log.advance step).progress := by
      rwa [untilReach, List.rdropWhile_concat_neg _ _ _ Bool.false_ne_true]
    rw [ProgressLog.run, ProgressLog.reach]
    generalize log.advance step = log at advanced latest all ⊢
    by_cases old : log.progress.rank ≤ log.logged.rank
    · simp only [if_pos old]
      have same := eq_of_rank_eq (advanced.reached.antisymm old)
      exact ⟨advanced.file, same ▸ latest, advanced.reached, all⟩
    · simp only [if_neg old]
      refine ⟨?_, latest, Nat.le_refl _, all⟩
      have more : content launch boot log.progress =
          content launch boot log.logged ++ (loggedSteps.filter fun step =>
            log.logged.rank < step.rank ∧
              step.rank ≤ log.progress.rank).flatMap ProgressLog.line := by
        rw [content, content, ← stepsUpTo_append _ _ advanced.reached]
        simp only [writtenLines, List.map_append, List.flatMap_append,
          List.flatMap_map, List.flatMap_cons, List.append_assoc]
        rfl
      change log.file ++ _ = content launch boot log.progress
      rw [more, ← advanced.file]

theorem recorded_run (launch : LaunchId) (boot : BootId) (calls : List Call) :
    Recorded launch boot calls (calls.foldl .run (.create launch boot)) := by
  induction calls using List.reverseRecOn with
  | nil => exact recorded_create launch boot
  | append_singleton calls call induction =>
    rw [List.foldl_concat]
    exact induction.run call

/-- The step of a log of which `count` lines after the first are left. -/
def stepAt (logged : Progress) (count : Nat) : Progress :=
  ((stepsUpTo logged).take count).getLastD .launching

theorem ascending_stepsUpTo (logged : Progress) :
    (.launching :: stepsUpTo logged).Pairwise (·.rank < ·.rank) := by
  cases logged <;> decide

theorem stepAt_spec (least : Progress.launching.rank ≤ logged.rank) :
    ∀ count ≤ 8, count ≤ (stepsUpTo logged).length →
      stepsUpTo (stepAt logged count) = (stepsUpTo logged).take count ∧
      (stepAt logged count).rank ≤ logged.rank ∧
      ∀ step ∈ loggedSteps, step.rank ≤ logged.rank →
        stepsUpTo step = (stepsUpTo logged).take (stepsUpTo step).length ∧
        ((stepsUpTo step).length ≤ count → step.rank ≤ (stepAt logged count).rank) := by
  revert least
  cases logged <;> decide

theorem stepAt_length (least : Progress.launching.rank ≤ logged.rank) :
    stepAt logged (stepsUpTo logged).length = logged := by
  revert least
  cases logged <;> decide

theorem length_content_le (launch : LaunchId) (boot : BootId) (logged : Progress) :
    (content launch boot logged).length ≤ maxProgressBytes := by
  have first : (firstLine launch boot).length = 86 := by
    have magic : (asBytes "nvx-clone-progress 1 ").length = 21 := by
      decide +kernel
    have blank : (asBytes " ").length = 1 := by decide +kernel
    simp [firstLine, headerText, BootId.text, magic, blank, launch.valid.1, boot.property]
  have rest : (writtenLines ((stepsUpTo logged).map
      fun step => asBytes step.asStr)).length ≤ 100 := by
    cases logged <;> decide +kernel
  rw [content, writtenLines_cons, List.length_append, List.length_cons, first, maxProgressBytes]
  omega

theorem ascii_content (launch : LaunchId) (boot : BootId) (logged : Progress) :
    ∀ byte ∈ content launch boot logged, byte.toNat < 128 := by
  intro byte member
  obtain ⟨line, inside, inLine⟩ := List.mem_flatMap.mp member
  rcases List.mem_append.mp inLine with inText | inEnd
  · rcases List.mem_cons.mp inside with rfl | named
    · exact (plain_firstLine launch boot byte inText).1
    · obtain ⟨step, _, rfl⟩ := List.mem_map.mp named
      exact (plain_asStr step byte inText).1
  · rw [List.mem_singleton.mp inEnd]
    decide

theorem readProgress_cut (path : String) (cut : kept <+: content launch boot logged) :
    (¬ firstLine launch boot ++ [10] <+: kept ∧
      readProgress path launch (some kept) = .ok (some ⟨.launching, none⟩)) ∨
    ∃ count ≤ (stepsUpTo logged).length, readProgress path launch (some kept) =
        .ok (some ⟨stepAt logged count, some boot⟩) ∧
      ∀ other ≤ (stepsUpTo logged).length,
        writtenLines (firstLine launch boot :: ((stepsUpTo logged).take
          other).map fun step => asBytes step.asStr) <+: kept ↔ other ≤ count := by
  have plain : ∀ line ∈ firstLine launch boot ::
      (stepsUpTo logged).map (fun step => asBytes step.asStr), 10 ∉ line := by
    intro line member inLine
    rcases List.mem_cons.mp member with rfl | named
    · exact (plain_firstLine launch boot 10 inLine).2 rfl
    · obtain ⟨step, _, rfl⟩ := List.mem_map.mp named
      exact (plain_asStr step 10 inLine).2 rfl
  have short : ¬ maxProgressBytes < kept.length :=
    Nat.not_lt.mpr (cut.length_le.trans (length_content_le launch boot logged))
  have utf8 : IsUtf8 kept := isUtf8_of_ascii fun byte member =>
    ascii_content launch boot logged byte (cut.subset member)
  obtain ⟨count, most, same, holds⟩ := exists_completeLines plain cut
  rw [List.length_cons, List.length_map] at most holds
  have read : readProgress path launch (some kept) =
      (readLines path launch (completeLines kept)).map some := by
    simp only [readProgress, readPrivate, failIf, if_neg short, bind, pure,
      Except.bind, Except.pure, utf8, not_true_eq_false, if_false]
    cases readLines path launch (completeLines kept) <;> rfl
  cases count with
  | zero =>
    left
    rw [read, same]
    refine ⟨fun holdsFirst => ?_, rfl⟩
    have one := (holds 1 (by omega)).mp (by simpa [writtenLines] using holdsFirst)
    omega
  | succ count =>
    right
    refine ⟨count, Nat.le_of_succ_le_succ most, ?_, ?_⟩
    · rw [read, same, List.take_succ_cons, readLines, readBoot_firstLine]
      simp only
      rw [← List.map_take, readSteps_map]
      · rfl
      · intro step member
        exact (List.mem_filter.mp (List.mem_of_mem_take member)).1
      · exact (ascending_stepsUpTo logged).sublist ((List.take_sublist _ _).cons_cons _)
    · intro other inside
      have next := holds (other + 1) (Nat.succ_le_succ inside)
      rw [List.take_succ_cons, ← List.map_take, Nat.succ_le_succ_iff] at next
      exact next

/-- A log that is cut anywhere is read as the last step that it still holds, which
the clone had reached, and the whole log as the latest step up to the last `reach`. -/
theorem torn_log_understates (path : String) (launch : LaunchId) (boot : BootId)
    (calls : List Call) :
    let log := calls.foldl ProgressLog.run (.create launch boot)
    Latest calls log.progress ∧ Latest (untilReach calls) log.logged ∧
    log.file = content launch boot log.logged ∧
    log.logged.rank ≤ log.progress.rank ∧
    readProgress path launch (some log.file) = .ok (some ⟨log.logged, some boot⟩) ∧
    ∀ kept, kept <+: log.file → ∃ logged, readProgress path launch (some kept) = .ok (some logged) ∧
      logged.boot = (if firstLine launch boot ++ [10] <+: kept then some boot else none) ∧
      logged.progress.rank ≤ log.progress.rank ∧
      (content launch boot logged.progress <+: kept ∨ logged.progress = .launching) ∧
      ∀ step ∈ loggedSteps, step.rank ≤ log.logged.rank → content launch boot step <+: kept →
          step.rank ≤ logged.progress.rank := by
  intro log
  have recorded : Recorded launch boot calls log := recorded_run launch boot calls
  generalize log = log at recorded ⊢
  have few : (stepsUpTo log.logged).length ≤ 8 := List.length_filter_le _ _
  have first : ∀ {step kept}, content launch boot step <+: kept →
      firstLine launch boot ++ [10] <+: kept := by
    intro step kept holds
    apply List.IsPrefix.trans _ holds
    simp [content]
  refine ⟨recorded.progress, recorded.logged, recorded.file, recorded.reached, ?_,
    fun kept cut => ?_⟩
  · rw [recorded.file]
    have whole : content launch boot log.logged <+:
        content launch boot log.logged := List.prefix_rfl
    rcases readProgress_cut path whole with ⟨torn, _⟩ | ⟨count, most, read, holds⟩
    · exact absurd (first whole) torn
    · have all := (holds _ (Nat.le_refl _)).mp (by
        rw [List.take_length]
        exact whole)
      rw [read, Nat.le_antisymm most all, stepAt_length recorded.logged.least]
  · rw [recorded.file] at cut
    rcases readProgress_cut path cut with ⟨torn, read⟩ | ⟨count, most, read, holds⟩
    · refine ⟨_, read, by rw [if_neg torn],
        recorded.progress.least, .inr rfl, ?_⟩
      intro step _ _ whole
      exact absurd (first whole) torn
    · obtain ⟨same, less, latest⟩ :=
        stepAt_spec recorded.logged.least count (most.trans few) most
      have whole : content launch boot (stepAt log.logged count) <+: kept := by
        rw [content, same]
        exact (holds count most).mpr (Nat.le_refl _)
      refine ⟨_, read, by rw [if_pos (first whole)],
        less.trans recorded.reached, .inl whole, ?_⟩
      intro step member earlier held
      obtain ⟨taken, bound⟩ := latest step member earlier
      apply bound
      rw [content, taken] at held
      refine (holds _ ?_).mp held
      rw [taken, List.length_take]
      exact Nat.min_le_right _ _

end Nvx.Host.Template
