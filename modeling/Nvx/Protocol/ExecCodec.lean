import Mathlib.Data.List.TakeWhile
import Nvx.Protocol.ExecPayload

namespace Nvx.Protocol

open Nvx.Data ExecString

/-! What the decoders of `EXEC` payloads accept. -/

/-- A string that a payload can hold: neither empty nor too long, and without
NUL characters. -/
def WellFormed (bytes : List UInt8) : Prop :=
  1 ≤ bytes.length ∧ bytes.length ≤ maxArgumentBytes ∧ 0 ∉ bytes

theorem orTruncated_eq_ok_iff {result : α} :
    orTruncated value = .ok result ↔ value = some result := by
  cases value <;> simp [orTruncated]

theorem bytesAt_eq_ok_iff (positive : 1 ≤ length) : bytesAt payload offset length what = .ok bytes ↔
      bytes.length = length ∧ 0 ∉ bytes ∧ bytes <+: payload.drop offset := by
  unfold bytesAt
  rw [ite_error_eq_ok_iff, ite_error_eq_ok_iff, Except.ok.injEq, not_lt]
  constructor
  · rintro ⟨fits, noNul, rfl⟩
    have wide := length_slice fits
    refine ⟨wide, noNul, ?_⟩
    have nonempty : slice offset length payload ≠ [] :=
      List.ne_nil_of_length_pos (by rw [wide]; exact positive)
    rw [prefix_drop_iff_slice nonempty, wide]
    exact ⟨fits, rfl⟩
  · rintro ⟨rfl, noNul, present⟩
    rw [prefix_drop_iff_slice (List.ne_nil_of_length_pos positive)] at present
    rw [present.2]
    exact ⟨present.1, noNul, rfl⟩

theorem length_prefixed (bytes : List UInt8) : (prefixed bytes).length = 4 + bytes.length := by
  simp [prefixed]

theorem exact_prefixedBytes (what : String) : Exact (prefixedBytes what) prefixed WellFormed := by
  intro payload offset bytes next
  simp only [prefixedBytes, bind_eq_ok_iff, orTruncated_eq_ok_iff,
    ite_error_eq_ok_iff, Except.ok.injEq, Prod.mk.injEq, u32At_eq_some_iff,
    not_or, not_lt]
  constructor
  · rintro ⟨length, present, ⟨positive, bounded⟩, found, read, rfl, rfl⟩
    rw [bytesAt_eq_ok_iff (Nat.one_le_iff_ne_zero.mpr positive)] at read
    obtain ⟨wide, noNul, following⟩ := read
    refine ⟨⟨by omega, by omega, noNul⟩, ?_, ?_⟩
    · rw [prefixed, ← eq_lengthU32 wide.symm, append_prefix_drop_iff, LittleEndian.length_ofUInt32]
      exact ⟨present, following⟩
    · rw [length_prefixed]
      omega
  · rintro ⟨⟨positive, bounded, noNul⟩, present, rfl⟩
    have small : bytes.length < 2 ^ 32 :=
      Nat.lt_of_le_of_lt bounded (by decide)
    have wide := toNat_lengthU32 small
    rw [prefixed, append_prefix_drop_iff, LittleEndian.length_ofUInt32] at present
    refine ⟨_, present.1, ⟨by omega, by omega⟩, bytes, ?_, rfl, ?_⟩
    · rw [bytesAt_eq_ok_iff (by omega)]
      exact ⟨wide.symm, noNul, present.2⟩
    · rw [length_prefixed]
      omega

variable {S : Type} [ExecString S]

def prefixedText (text : S) : List UInt8 :=
  prefixed (asRef text)

theorem exact_prefixedString (what : String) : Exact (prefixedString (S := S) what) prefixedText
      (fun text => WellFormed (asRef text)) := by
  intro payload offset text next
  simp only [prefixedString, bind_eq_ok_iff, Prod.exists, convert_eq_ok_iff,
    Except.ok.injEq, Prod.mk.injEq]
  constructor
  · rintro ⟨bytes, middle, read, _, rfl, rfl, rfl⟩
    exact (exact_prefixedBytes what).mp read
  · intro present
    exact ⟨_, _, (exact_prefixedBytes what).mpr present, text, rfl, rfl, rfl⟩

theorem exact_arguments (count : Nat) : Exact (readMany (prefixedString (S := S) "arguments") count)
      (fun arguments => arguments.flatMap prefixedText)
      (fun arguments => arguments.length = count ∧
        ∀ argument ∈ arguments, WellFormed (asRef argument)) :=
  Exact.many (exact_prefixedString "arguments") count

theorem entryName_eq_splitName (bytes : List UInt8) : entryName bytes = splitName bytes := by
  unfold entryName splitName
  cases found : bytes.findIdx? (· = equals) with
  | none =>
    have absent : equals ∉ bytes := by
      intro member
      have different := List.findIdx?_eq_none_iff.mp found equals member
      simp at different
    simp [absent]
  | some position =>
    obtain ⟨bound, first⟩ := List.findIdx?_eq_some_iff_findIdx_eq.mp found
    have here : equals ∈ bytes := by
      have holds := List.findIdx_lt_length.mp (first ▸ bound)
      simpa using holds
    have name : bytes.takeWhile (· ≠ equals) = bytes.take position := by
      rw [List.takeWhile_eq_take_findIdx_not]
      simpa using congrArg (bytes.take ·) first
    rw [name]
    by_cases zero : position = 0
    · simp [zero]
    · have nonempty : bytes.take position ≠ [] := by
        apply List.ne_nil_of_length_pos
        rw [List.length_take]
        omega
      simp [zero, here, nonempty]

/-- Each entry has a name that no entry before it and none of `names` has. -/
def Named (names : List (List UInt8)) : List (List UInt8) → Prop
  | [] => True
  | entry :: entries => ∃ name, splitName entry = some name ∧ name ∉ names ∧
      Named (name :: names) entries

theorem exact_decodeEnvironment (count : Nat) (names : List (List UInt8)) :
    Exact (decodeEnvironment (S := S) count names) (fun entries => entries.flatMap prefixedText)
      (fun entries => (entries.length = count ∧ ∀ entry ∈ entries, WellFormed (asRef entry)) ∧
          Named names (entries.map asRef)) := by
  induction count generalizing names with
  | zero =>
    intro payload offset entries next
    simp only [decodeEnvironment, Except.ok.injEq, Prod.mk.injEq, List.length_eq_zero_iff]
    constructor
    · rintro ⟨rfl, rfl⟩
      simp [Named]
    · rintro ⟨⟨⟨rfl, _⟩, _⟩, _, rfl⟩
      simp
  | succ count induction =>
    intro payload offset entries next
    simp only [decodeEnvironment, bind_eq_ok_iff, Prod.exists, entryName_eq_splitName]
    constructor
    · rintro ⟨entry, middle, read, rest⟩
      obtain ⟨isValid, present, rfl⟩ :=
        (exact_prefixedString "environment entries").mp read
      split at rest
      · cases rest
      · rename_i name named
        rw [ite_error_eq_ok_iff, bind_eq_ok_iff] at rest
        obtain ⟨fresh, ⟨others, last⟩, read, result⟩ := rest
        obtain ⟨rfl, rfl⟩ := Prod.mk.inj (Except.ok.inj result)
        obtain ⟨⟨⟨length, areValid⟩, areNamed⟩, following, rfl⟩ :=
          (induction _).mp read
        refine ⟨⟨⟨by rw [List.length_cons, length], ?_⟩,
          name, named, fresh, areNamed⟩, ?_, ?_⟩
        · exact List.forall_mem_cons.mpr ⟨isValid, areValid⟩
        · rw [List.flatMap_cons, append_prefix_drop_iff]
          exact ⟨present, following⟩
        · rw [List.flatMap_cons, List.length_append, Nat.add_assoc]
    · rintro ⟨⟨⟨length, areValid⟩, areNamed⟩, present, rfl⟩
      cases entries with
      | nil => simp at length
      | cons entry entries =>
        rw [List.flatMap_cons, append_prefix_drop_iff] at present
        rw [List.forall_mem_cons] at areValid
        obtain ⟨name, named, fresh, others⟩ := areNamed
        refine ⟨entry, _, (exact_prefixedString _).mpr ⟨areValid.1, present.1, rfl⟩, ?_⟩
        simp only [named]
        rw [ite_error_eq_ok_iff, bind_eq_ok_iff]
        refine ⟨fresh, (entries, _), (induction _).mpr
          ⟨⟨⟨Nat.succ.inj length, areValid.2⟩, others⟩, present.2, rfl⟩, ?_⟩
        rw [List.flatMap_cons, List.length_append, Nat.add_assoc]

def cwdBytes (cwd : Option S) : List UInt8 :=
  (cwd.map asRef).getD []

/-- A working directory is an absolute path, if the flags tell of one. -/
def CwdFits (flags : UInt16) (cwdLen : Nat) (cwd : Option S) : Prop :=
  match cwd with
  | none => flags &&& execCwdPresent = 0
  | some text => flags &&& execCwdPresent ≠ 0 ∧ (asRef text).length = cwdLen ∧
      0 ∉ asRef text ∧ (asRef text).head? = some slash

theorem decodeCwd_eq_ok_iff {flags : UInt16} {cwdLen offset next : Nat}
    {payload : List UInt8} {cwd : Option S} (positive : flags &&& execCwdPresent ≠ 0 → 1 ≤ cwdLen) :
    decodeCwd payload flags cwdLen offset = .ok (cwd, next) ↔
      CwdFits flags cwdLen cwd ∧ cwdBytes cwd <+: payload.drop offset ∧
        next = offset + (cwdBytes cwd).length := by
  unfold decodeCwd
  split
  · rename_i absent
    cases cwd with
    | none => simp [CwdFits, cwdBytes, absent, eq_comm]
    | some text => simp [CwdFits, absent]
  · rename_i given
    simp only [bind_eq_ok_iff, bytesAt_eq_ok_iff (positive given),
      convert_eq_ok_iff, ite_error_eq_ok_iff, not_not, Except.ok.injEq,
      Prod.mk.injEq]
    constructor
    · rintro ⟨_, ⟨wide, noNul, present⟩, text, rfl, absolute, rfl, rfl⟩
      exact ⟨⟨given, wide, noNul, absolute⟩, present, by rw [← wide]; rfl⟩
    · cases cwd with
      | none =>
        rintro ⟨absent, _⟩
        exact absurd absent given
      | some text =>
        rintro ⟨⟨_, wide, noNul, absolute⟩, present, rfl⟩
        exact ⟨_, ⟨wide, noNul, present⟩, text, rfl, absolute, rfl, by rw [← wide]; rfl⟩

def headerBytes (extension : UInt16) (timeoutMs : UInt32) (count : Nat)
    (flags : UInt16) (environmentCount cwdLen : Nat) : List UInt8 :=
  LittleEndian.ofUInt32 timeoutMs ++ (LittleEndian.ofUInt16 (lengthU16 count) ++
      (LittleEndian.ofUInt16 extension ++
        if extension = 0 then [] else LittleEndian.ofUInt16 flags ++
          (LittleEndian.ofUInt16 (lengthU16 environmentCount) ++
            LittleEndian.ofUInt32 (lengthU32 cwdLen))))

structure HeaderFits (maxCwd : Nat) (extension flags : UInt16)
    (count environmentCount cwdLen : Nat) : Prop where
  known : extension = 0 ∨ extension = execExtended
  counted : 1 ≤ count ∧ count ≤ maxArguments
  consistent : FlagsFit maxCwd flags environmentCount cwdLen
  legacy : extension = 0 → flags = 0

theorem FlagsFit.cwdLen_le (fits : FlagsFit maxCwd flags environmentCount cwdLen) :
    cwdLen ≤ maxCwd := by
  have cwd := fits.2.1
  split at cwd
  · omega
  · exact cwd.2

theorem FlagsFit.zero :
    FlagsFit maxCwd 0 environmentCount cwdLen ↔ environmentCount = 0 ∧ cwdLen = 0 := by
  constructor
  · rintro ⟨_, cwd, environment, _⟩
    rw [if_pos (by decide)] at cwd
    rcases environment with absurd | both
    · exact (absurd (by decide)).elim
    · exact ⟨both.1, cwd⟩
  · rintro ⟨rfl, rfl⟩
    refine ⟨by decide, ?_, .inr ⟨rfl, by decide⟩, Nat.zero_le _⟩
    rw [if_pos (by decide)]

theorem decodeExecHeader_eq_ok_iff (small : maxCwd < 2 ^ 32) :
    decodeExecHeader payload maxCwd = .ok header ↔
      ∃ extension, HeaderFits maxCwd extension header.flags header.count
          header.environmentCount header.cwdLen ∧
        headerBytes extension header.timeoutMs header.count header.flags
          header.environmentCount header.cwdLen <+: payload.drop 0 ∧
        header.offset = (headerBytes extension header.timeoutMs header.count
          header.flags header.environmentCount header.cwdLen).length := by
  simp only [decodeExecHeader, ite_error_eq_ok_iff, bind_eq_ok_iff,
    orTruncated_eq_ok_iff, u16At_eq_some_iff, u32At_eq_some_iff, not_or, not_lt]
  constructor
  · rintro ⟨_, timeoutMs, timeout, count, counted, extension, extended, ⟨some, few⟩, rest⟩
    split at rest
    · rename_i legacy
      subst legacy
      obtain rfl := Except.ok.inj rest
      refine ⟨0, ⟨.inl rfl, ⟨Nat.one_le_iff_ne_zero.mpr some, few⟩, FlagsFit.zero.mpr ⟨rfl, rfl⟩,
        fun _ => rfl⟩, ?_, ?_⟩
      · simp only [headerBytes, append_prefix_drop_iff,
          LittleEndian.length_ofUInt32, LittleEndian.length_ofUInt16]
        rw [← eq_lengthU16 rfl]
        exact ⟨timeout, counted, extended, by simp⟩
      · simp [headerBytes]
    · rename_i different
      split at rest
      · rename_i same
        subst same
        simp only [ite_error_eq_ok_iff, bind_eq_ok_iff, orTruncated_eq_ok_iff,
          u16At_eq_some_iff, u32At_eq_some_iff, not_not, not_lt] at rest
        obtain ⟨_, flags, flagged, environmentCount, environment, cwdLen, cwd, fits, result⟩ := rest
        obtain rfl := Except.ok.inj result
        refine ⟨execExtended, ⟨.inr rfl, ⟨Nat.one_le_iff_ne_zero.mpr some, few⟩, fits,
          fun zero => absurd zero different⟩, ?_, ?_⟩
        · simp only [headerBytes, append_prefix_drop_iff,
            LittleEndian.length_ofUInt32, LittleEndian.length_ofUInt16,
            if_neg different]
          rw [← eq_lengthU16 rfl, ← eq_lengthU16 rfl, ← eq_lengthU32 rfl]
          exact ⟨timeout, counted, extended, flagged, environment, cwd⟩
        · simp [headerBytes, different]
      · cases rest
  · rintro ⟨extension, ⟨known, counted, fits, legacy⟩, present, length⟩
    rcases header with ⟨timeoutMs, count, flags, environmentCount, cwdLen, offset⟩
    simp only at counted fits legacy present length
    subst length
    have room := present.length_le
    have countWide : (lengthU16 count).toNat = count :=
      toNat_lengthU16 (Nat.lt_of_le_of_lt counted.2 (by decide))
    have environmentWide : (lengthU16 environmentCount).toNat = environmentCount :=
      toNat_lengthU16 (Nat.lt_of_le_of_lt fits.2.2.2 (by decide))
    have cwdWide : (lengthU32 cwdLen).toNat = cwdLen :=
      toNat_lengthU32 (Nat.lt_of_le_of_lt fits.cwdLen_le small)
    simp only [headerBytes, append_prefix_drop_iff,
      LittleEndian.length_ofUInt32, LittleEndian.length_ofUInt16] at present
    obtain ⟨timeout, number, extended, rest⟩ := present
    rw [List.drop_zero] at room
    rcases known with rfl | rfl
    · obtain rfl := legacy rfl
      obtain ⟨rfl, rfl⟩ := FlagsFit.zero.mp fits
      refine ⟨?_, timeoutMs, timeout, _, number, 0, extended, ?_, ?_⟩
      · simpa [headerBytes] using room
      · rw [countWide]
        exact ⟨by omega, counted.2⟩
      · simp [headerBytes, countWide]
    · have different : execExtended ≠ 0 := by decide
      rw [if_neg different, append_prefix_drop_iff, append_prefix_drop_iff] at rest
      have long : 16 ≤ payload.length := by
        simpa [headerBytes, different] using room
      refine ⟨by omega, timeoutMs, timeout, _, number, _, extended, ?_, ?_⟩
      · rw [countWide]
        exact ⟨by omega, counted.2⟩
      · rw [if_neg different, if_pos rfl, ite_error_eq_ok_iff]
        simp only [bind_eq_ok_iff, orTruncated_eq_ok_iff, u16At_eq_some_iff,
          u32At_eq_some_iff, ite_error_eq_ok_iff, not_not, not_lt]
        refine ⟨long, flags, rest.1, _, rest.2.1, _, rest.2.2, ?_, ?_⟩
        · rw [environmentWide, cwdWide]
          exact fits
        · simp [headerBytes, different, countWide, environmentWide, cwdWide]

namespace DecodedExec

def entries (decoded : DecodedExec S) : List S :=
  decoded.environment.getD []

/-- The payload with this extension that holds what was decoded. -/
def layout (extension : UInt16) (decoded : DecodedExec S) : List UInt8 :=
  headerBytes extension decoded.timeoutMs decoded.argv.length decoded.flags
      decoded.entries.length (cwdBytes decoded.cwd).length ++
    (decoded.argv.flatMap prefixedText ++
      (cwdBytes decoded.cwd ++ decoded.entries.flatMap prefixedText))

structure Fits (maxCwd : Nat) (extension : UInt16) (decoded : DecodedExec S) : Prop where
  header : HeaderFits maxCwd extension decoded.flags decoded.argv.length
    decoded.entries.length (cwdBytes decoded.cwd).length
  arguments : ∀ argument ∈ decoded.argv, WellFormed (asRef argument)
  program : (decoded.argv.head?.bind fun program => (asRef program).head?) = some slash
  cwd : CwdFits decoded.flags (cwdBytes decoded.cwd).length decoded.cwd
  present : decoded.environment.isSome = true ↔ decoded.flags &&& execEnvironmentPresent ≠ 0
  entries : ∀ entry ∈ decoded.entries, WellFormed (asRef entry)
  named : Named [] (decoded.entries.map asRef)

end DecodedExec

theorem FlagsFit.one_le_cwdLen (fits : FlagsFit maxCwd flags environmentCount cwdLen)
    (given : flags &&& execCwdPresent ≠ 0) : 1 ≤ cwdLen := by
  have cwd := fits.2.1
  rw [if_neg given] at cwd
  exact cwd.1

theorem CwdFits.length_eq {maxCwd : Nat} {flags : UInt16} {environmentCount cwdLen : Nat}
    (fits : FlagsFit maxCwd flags environmentCount cwdLen) {cwd : Option S}
    (cwdFits : CwdFits flags cwdLen cwd) : cwdLen = (cwdBytes cwd).length := by
  cases cwd with
  | none =>
    have length := fits.2.1
    rwa [if_pos (show flags &&& execCwdPresent = 0 from cwdFits)] at length
  | some text => exact cwdFits.2.1.symm

theorem decodeExec_eq_ok_iff {payload : List UInt8} {maxCwd : Nat}
    (small : maxCwd < 2 ^ 32) {decoded : DecodedExec S} :
    decodeExec payload maxCwd = .ok decoded ↔ ∃ extension, decoded.Fits maxCwd extension ∧
        decoded.layout extension = payload := by
  simp only [decodeExec, bind_eq_ok_iff, Prod.exists, ite_error_eq_ok_iff,
    not_not, Except.ok.injEq, decodeExecHeader_eq_ok_iff small]
  constructor
  · rintro ⟨⟨timeoutMs, _, flags, _, _, _⟩, ⟨extension, headerFits, header0,
      start⟩, argv, _, arguments, program, cwd, _, directory, environment, _,
      entries, last, rfl⟩
    simp only at headerFits header0 start arguments directory entries last ⊢
    subst start
    rw [exact_arguments] at arguments
    obtain ⟨⟨rfl, wellFormed⟩, present1, rfl⟩ := arguments
    rw [decodeCwd_eq_ok_iff headerFits.consistent.one_le_cwdLen] at directory
    obtain ⟨cwdFits, present2, rfl⟩ := directory
    rw [exact_decodeEnvironment] at entries
    obtain ⟨⟨⟨rfl, entriesFit⟩, named⟩, present3, rfl⟩ := entries
    obtain rfl := cwdFits.length_eq headerFits.consistent
    -- Without the flag there are no entries.
    have same : (if flags &&& execEnvironmentPresent ≠ 0 then
        some environment else none).getD [] = environment := by
      split
      · rfl
      · rename_i absent
        rcases headerFits.consistent.2.2.1 with given | none
        · exact absurd given absent
        · rw [List.length_eq_zero_iff.mp none.1]
          rfl
    refine ⟨extension, ⟨?_, wellFormed, program, cwdFits, ?_, ?_, ?_⟩, ?_⟩
    · rwa [DecodedExec.entries, same]
    · by_cases given : flags &&& execEnvironmentPresent = 0 <;> simp [given]
    · rwa [DecodedExec.entries, same]
    · rwa [DecodedExec.entries, same]
    · apply eq_of_prefix_drop_zero
      · rw [DecodedExec.layout, DecodedExec.entries, same]
        simp only [append_prefix_drop_iff, Nat.zero_add]
        exact ⟨header0, present1, present2, present3⟩
      · rw [DecodedExec.layout, DecodedExec.entries, same, ← last]
        simp only [List.length_append, Nat.add_assoc]
  · rintro ⟨extension, fits, rfl⟩
    have consistent := fits.header.consistent
    have present : decoded.layout extension <+: (decoded.layout extension).drop 0 := List.prefix_rfl
    unfold DecodedExec.layout at present
    simp only [append_prefix_drop_iff, Nat.zero_add] at present
    obtain ⟨present0, present1, present2, present3⟩ := present
    refine ⟨⟨decoded.timeoutMs, decoded.argv.length, decoded.flags,
        decoded.entries.length, (cwdBytes decoded.cwd).length,
        (headerBytes extension decoded.timeoutMs decoded.argv.length
          decoded.flags decoded.entries.length
          (cwdBytes decoded.cwd).length).length⟩,
      ⟨extension, fits.header, present0, rfl⟩, decoded.argv, _,
      (exact_arguments _).mpr ⟨⟨rfl, fits.arguments⟩, present1, rfl⟩,
      fits.program, decoded.cwd, _,
      (decodeCwd_eq_ok_iff consistent.one_le_cwdLen).mpr
        ⟨fits.cwd, present2, rfl⟩, decoded.entries, _,
      (exact_decodeEnvironment _ _).mpr ⟨⟨⟨rfl, fits.entries⟩, fits.named⟩, present3, rfl⟩, ?_, ?_⟩
    · simp only [DecodedExec.layout, List.length_append, Nat.add_assoc]
    · have environment := fits.present
      rcases decoded with ⟨timeoutMs, flags, argv, cwd, _ | entries⟩
      · simp only [Option.isSome_none, Bool.false_eq_true, false_iff, not_not] at environment
        simp [environment]
      · simp only [Option.isSome_some, true_iff] at environment
        simp [environment, DecodedExec.entries]

end Nvx.Protocol
