import Mathlib.Data.Set.List
import Nvx.Protocol.ExecCodec

namespace Nvx.Protocol

open Nvx.Data ExecString

/-! What the encoder of `EXEC` payloads writes. -/

theorem encodeArguments_ok (encoded : encodeArguments argv payload = .ok result) :
    (∀ argument ∈ argv, WellFormed (asRef argument)) ∧
      result = payload ++ argv.flatMap prefixedText := by
  induction argv generalizing payload with
  | nil =>
    obtain rfl := Except.ok.inj encoded
    simp
  | cons argument argv induction =>
    simp only [encodeArguments, ite_error_eq_ok_iff, not_or, not_lt] at encoded
    obtain ⟨⟨nonempty, bounded, noNul⟩, rest⟩ := encoded
    obtain ⟨others, rfl⟩ := induction rest
    refine ⟨List.forall_mem_cons.mpr ⟨?_, others⟩, ?_⟩
    · exact ⟨List.length_pos_of_ne_nil nonempty, bounded, noNul⟩
    · rw [List.flatMap_cons, List.append_assoc]
      rfl

theorem encodeExecHeader_eq (timeoutMs : UInt32) (count : Nat) (flags : UInt16)
    (environmentCount cwdLen : Nat) :
    encodeExecHeader timeoutMs count flags environmentCount cwdLen =
      headerBytes (if flags = 0 then 0 else execExtended) timeoutMs count flags
        environmentCount cwdLen := by
  unfold encodeExecHeader headerBytes
  by_cases legacy : flags = 0
  · simp [legacy]
  · have extended : execExtended ≠ 0 := by decide
    simp [legacy, extended]

theorem one_le_length_of_splitName (named : splitName bytes = some name) : 1 ≤ bytes.length := by
  unfold splitName at named
  simp only at named
  split at named
  · rename_i present
    exact List.length_pos_of_mem present.1
  · cases named

theorem encodeEnvironment_ok (encoded : encodeEnvironment entries names payload = .ok result) :
    (∀ entry ∈ entries, WellFormed (asRef entry)) ∧ Named names (entries.map asRef) ∧
      result = payload ++ entries.flatMap prefixedText := by
  induction entries generalizing names payload with
  | nil =>
    obtain rfl := Except.ok.inj encoded
    simp [Named]
  | cons entry entries induction =>
    simp only [encodeEnvironment] at encoded
    split at encoded
    · cases encoded
    · rename_i name named
      rw [ite_error_eq_ok_iff, ite_error_eq_ok_iff, not_or, not_lt] at encoded
      obtain ⟨⟨bounded, noNul⟩, fresh, rest⟩ := encoded
      obtain ⟨others, areNamed, rfl⟩ := induction rest
      refine ⟨List.forall_mem_cons.mpr ⟨?_, others⟩, ⟨name, named, fresh, areNamed⟩, ?_⟩
      · exact ⟨one_le_length_of_splitName named, bounded, noNul⟩
      · rw [List.flatMap_cons, List.append_assoc]
        rfl

namespace WorkloadEnvironment

def explicit : WorkloadEnvironment → Option (List String)
  | .default => none
  | .replaced entries => some entries
  | .layered entries => some entries

def inherits : WorkloadEnvironment → Bool
  | .replaced _ => false
  | _ => true

end WorkloadEnvironment

namespace Workload

def decoded (workload : Workload) : DecodedExec String where
  timeoutMs := workload.timeoutMs
  flags := if workload.cwd.isSome then
    workload.environment.flags ||| execCwdPresent
    else workload.environment.flags
  argv := workload.argv
  cwd := workload.cwd
  environment := workload.environment.explicit

/-- Only a workload that names neither a directory nor an environment keeps the
legacy layout. -/
def extension (workload : Workload) : UInt16 :=
  if workload.decoded.flags = 0 then 0 else execExtended

theorem entries_decoded (workload : Workload) :
    workload.decoded.entries = workload.environment.entries := by
  rcases workload with ⟨_, _, _, environment⟩
  cases environment <;> rfl

/-- The flags tell of a working directory, of named entries, and of entries that
are layered over the default ones. -/
theorem flags_decoded (workload : Workload) : workload.decoded.flags &&& ~~~ execKnownFlags = 0 ∧
      (workload.decoded.flags &&& execCwdPresent = 0 ↔ workload.cwd = none) ∧
      (workload.decoded.flags &&& execEnvironmentPresent = 0 ↔ workload.environment = .default) ∧
      (workload.decoded.flags &&& execInheritDefaultEnv = 0 ↔
        ∀ entries, workload.environment ≠ .layered entries) := by
  rcases workload with ⟨argv, timeoutMs, cwd, environment⟩
  cases cwd <;> cases environment <;>
    simp [decoded, WorkloadEnvironment.flags] <;> decide

theorem flagsFit {workload : Workload} (few : workload.environment.entries.length ≤ maxEnvironment)
    (cwd : ∀ text ∈ workload.cwd, 1 ≤ (asBytes text).length ∧
      (asBytes text).length ≤ maxArgumentBytes) :
    FlagsFit maxArgumentBytes workload.decoded.flags
      workload.environment.entries.length (cwdBytes workload.cwd).length := by
  obtain ⟨known, directory, named, layered⟩ := workload.flags_decoded
  refine ⟨known, ?_, ?_, few⟩
  · cases given : workload.cwd with
    | none =>
      rw [if_pos (directory.mpr given)]
      rfl
    | some text =>
      rw [if_neg fun absent => by simp [given] at directory; exact directory absent]
      exact cwd text given
  · by_cases default : workload.environment = .default
    · rw [layered, default]
      exact .inr ⟨rfl, by simp⟩
    · exact .inl (mt named.mp default)

theorem cwdFits {workload : Workload} (cwd : ∀ text ∈ workload.cwd, 0 ∉ asBytes text ∧
      (asBytes text).head? = some slash) :
    CwdFits workload.decoded.flags (cwdBytes workload.cwd).length
      workload.cwd := by
  have directory := workload.flags_decoded.2.1
  cases given : workload.cwd with
  | none => exact directory.mpr given
  | some text =>
    refine ⟨mt directory.mp (by simp [given]), rfl, cwd text given⟩

theorem inherits_decoded (workload : Workload) :
    decide (workload.decoded.flags &&& execEnvironmentPresent = 0 ∨
      workload.decoded.flags &&& execInheritDefaultEnv ≠ 0) =
        workload.environment.inherits := by
  obtain ⟨_, _, named, layered⟩ := workload.flags_decoded
  apply Bool.eq_iff_iff.mpr
  rw [decide_eq_true_iff, ne_eq, named, layered]
  rcases workload with ⟨argv, timeoutMs, cwd, environment⟩
  cases environment <;> simp [WorkloadEnvironment.inherits]

theorem isSome_environment (workload : Workload) : workload.decoded.environment.isSome = true ↔
      workload.decoded.flags &&& execEnvironmentPresent ≠ 0 := by
  rw [Ne, workload.flags_decoded.2.2.1]
  rcases workload with ⟨argv, timeoutMs, cwd, environment⟩
  cases environment <;> simp [decoded, WorkloadEnvironment.explicit]

end Workload

theorem encodeExecPayload_ok (encoded : encodeExecPayload workload = .ok payload) :
    workload.decoded.Fits maxArgumentBytes workload.extension ∧
      workload.decoded.layout workload.extension = payload := by
  simp only [encodeExecPayload, ite_error_eq_ok_iff, bind_eq_ok_iff,
    Except.ok.injEq, not_or, not_lt, not_not] at encoded
  obtain ⟨⟨nonempty, few⟩, program, cwd, fewEntries, first, arguments, second,
    entries, _, rfl⟩ := encoded
  obtain ⟨argumentsFit, rfl⟩ := encodeArguments_ok arguments
  obtain ⟨entriesFit, named, rfl⟩ := encodeEnvironment_ok entries
  have directory : ∀ text ∈ workload.cwd, (asBytes text).head? = some slash ∧
        (asBytes text).length ≤ maxArgumentBytes ∧ 0 ∉ asBytes text := by
    intro text member
    by_contra unfit
    apply cwd
    refine ⟨asBytes text, by simpa using ⟨text, member, rfl⟩, ?_⟩
    rw [not_and_or, not_and_or, not_le, not_not] at unfit
    exact unfit
  have flags := Workload.flagsFit fewEntries fun text member => by
    obtain ⟨absolute, bounded, _⟩ := directory text member
    refine ⟨List.length_pos_of_ne_nil fun empty => ?_, bounded⟩
    rw [empty] at absolute
    cases absolute
  have entriesEq := workload.entries_decoded
  constructor
  · refine ⟨⟨?_, ⟨List.length_pos_of_ne_nil nonempty, few⟩, ?_, ?_⟩,
      argumentsFit, program, Workload.cwdFits fun text member => ?_,
      workload.isSome_environment, ?_, ?_⟩
    · unfold Workload.extension
      split
      · exact .inl rfl
      · exact .inr rfl
    · rw [entriesEq]
      exact flags
    · unfold Workload.extension
      split
      · rename_i zero
        exact fun _ => zero
      · intro absurd
        cases absurd
    · exact ⟨(directory text member).2.2, (directory text member).1⟩
    · rwa [entriesEq]
    · rwa [entriesEq]
  · have same : (workload.cwd.map asBytes).getD [] = cwdBytes workload.cwd := rfl
    rw [DecodedExec.layout, entriesEq, Workload.extension, same]
    simp only [encodeExecHeader_eq, Option.isSome_map, List.append_assoc]
    rfl

theorem decodeExecPayload_eq_ok_iff :
    decodeExecPayload payload = .ok result ↔ ∃ decoded : DecodedExec String,
        decodeExec payload maxArgumentBytes = .ok decoded ∧
        ⟨decoded.timeoutMs, decoded.argv, decoded.cwd, decoded.environment,
          decide (decoded.flags &&& execEnvironmentPresent = 0 ∨
            decoded.flags &&& execInheritDefaultEnv ≠ 0)⟩ = result := by
  simp only [decodeExecPayload, bind_eq_ok_iff, Except.ok.injEq]

theorem decodeGuestExecPayload_eq_ok_iff :
    decodeGuestExecPayload payload = .ok result ↔ ∃ decoded : DecodedExec (List UInt8),
        decodeExec payload maxArgumentBytes = .ok decoded ∧
        ⟨decoded.timeoutMs, decoded.argv, decoded.cwd, decoded.environment,
          decide (decoded.flags &&& execInheritDefaultEnv ≠ 0)⟩ = result := by
  simp only [decodeGuestExecPayload, bind_eq_ok_iff, Except.ok.injEq, maxGuestCwdBytes]

namespace DecodedExec

def map (convert : S → T) (decoded : DecodedExec S) : DecodedExec T where
  timeoutMs := decoded.timeoutMs
  flags := decoded.flags
  argv := decoded.argv.map convert
  cwd := decoded.cwd.map convert
  environment := decoded.environment.map fun entries => entries.map convert

/-- The bytes of the strings, as the guest's decoder holds them. -/
def bytes (decoded : DecodedExec String) : DecodedExec (List UInt8) :=
  decoded.map asBytes

theorem entries_bytes (decoded : DecodedExec String) :
    decoded.bytes.entries = decoded.entries.map asBytes := by
  rcases decoded with ⟨_, _, _, _, _ | entries⟩ <;> rfl

theorem cwdBytes_bytes (decoded : DecodedExec String) :
    cwdBytes decoded.bytes.cwd = cwdBytes decoded.cwd := by
  rcases decoded with ⟨_, _, _, _ | cwd, _⟩ <;> rfl

theorem flatMap_bytes (texts : List String) :
    (texts.map asBytes).flatMap prefixedText = texts.flatMap prefixedText := by
  rw [List.flatMap_map]
  rfl

theorem layout_bytes (extension : UInt16) (decoded : DecodedExec String) :
    decoded.bytes.layout extension = decoded.layout extension := by
  simp only [layout, entries_bytes, cwdBytes_bytes, List.length_map, flatMap_bytes]
  simp only [bytes, map, List.length_map, flatMap_bytes]

theorem fits_bytes {decoded : DecodedExec String} :
    decoded.bytes.Fits maxCwd extension ↔ decoded.Fits maxCwd extension := by
  have program : (decoded.bytes.argv.head?.bind fun program =>
      (asRef program).head?) = decoded.argv.head?.bind fun program => (asRef program).head? := by
    rcases decoded with ⟨_, _, _ | ⟨program, argv⟩, _, _⟩ <;> rfl
  have cwd : ∀ length, CwdFits decoded.flags length decoded.bytes.cwd ↔
      CwdFits decoded.flags length decoded.cwd := by
    rcases decoded with ⟨_, _, _, _ | cwd, _⟩ <;> exact fun _ => Iff.rfl
  have names : decoded.bytes.entries.map asRef = decoded.entries.map asRef := by
    rw [entries_bytes, List.map_map]
    rfl
  have wellFormed : ∀ texts : List String, (∀ bytes ∈ texts.map asBytes, WellFormed (asRef bytes)) ↔
        ∀ text ∈ texts, WellFormed (asRef text) :=
    fun texts => List.forall_mem_map
  have header : HeaderFits maxCwd extension decoded.bytes.flags
      decoded.bytes.argv.length decoded.bytes.entries.length
      (cwdBytes decoded.bytes.cwd).length ↔
        HeaderFits maxCwd extension decoded.flags decoded.argv.length
          decoded.entries.length (cwdBytes decoded.cwd).length := by
    rw [entries_bytes, cwdBytes_bytes, List.length_map]
    simp only [bytes, map, List.length_map]
  have present : decoded.bytes.environment.isSome =
      decoded.environment.isSome := Option.isSome_map
  constructor
  · rintro ⟨first, second, third, fourth, fifth, sixth, seventh⟩
    refine ⟨header.mp first, (wellFormed _).mp second, program ▸ third, ?_,
      present ▸ fifth, ?_, names ▸ seventh⟩
    · rw [cwdBytes_bytes] at fourth
      exact (cwd _).mp fourth
    · rw [entries_bytes] at sixth
      exact (wellFormed _).mp sixth
  · rintro ⟨first, second, third, fourth, fifth, sixth, seventh⟩
    refine ⟨header.mpr first, (wellFormed _).mpr second, program.trans third,
      ?_, present.symm ▸ fifth, ?_, names.symm ▸ seventh⟩
    · rw [cwdBytes_bytes]
      exact (cwd _).mpr fourth
    · rw [entries_bytes]
      exact (wellFormed _).mpr sixth

end DecodedExec

theorem decodeExec_bytes : decodeExec payload maxArgumentBytes = .ok decoded.bytes ↔
      decodeExec payload maxArgumentBytes = .ok decoded := by
  rw [decodeExec_eq_ok_iff (by decide), decodeExec_eq_ok_iff (by decide)]
  simp only [DecodedExec.layout_bytes, DecodedExec.fits_bytes]

theorem exists_texts (utf8 : ∀ bytes ∈ strings, IsUtf8 bytes) :
    ∃ texts : List String, texts.map asBytes = strings := by
  have range := Set.range_list_map asBytes
  have member : strings ∈ Set.range (List.map asBytes) := by
    rw [range]
    exact fun bytes member => isUtf8_iff.mp (utf8 bytes member)
  exact member

namespace GuestExecPayload

def strings (payload : GuestExecPayload) : List (List UInt8) :=
  payload.argv ++ payload.cwd.toList ++ payload.environment.getD []

end GuestExecPayload

namespace DecodedExec

def strings (decoded : DecodedExec S) : List S :=
  decoded.argv ++ decoded.cwd.toList ++ decoded.environment.getD []

theorem strings_bytes (decoded : DecodedExec String) :
    decoded.bytes.strings = decoded.strings.map asBytes := by
  rcases decoded with ⟨_, _, _, _ | _, _ | _⟩ <;> simp [strings, bytes, map]

theorem exists_bytes (utf8 : ∀ bytes ∈ decoded.strings, IsUtf8 bytes) :
    ∃ texts : DecodedExec String, texts.bytes = decoded := by
  rcases decoded with ⟨timeoutMs, flags, argv, cwd, environment⟩
  simp only [strings, List.forall_mem_append] at utf8
  obtain ⟨⟨arguments, directory⟩, entries⟩ := utf8
  obtain ⟨argv, rfl⟩ := exists_texts arguments
  have cwdTexts : ∃ text : Option String, text.map asBytes = cwd := by
    cases cwd with
    | none => exact ⟨none, rfl⟩
    | some bytes =>
      obtain ⟨text, rfl⟩ := isUtf8_iff.mp (directory bytes (by simp))
      exact ⟨some text, rfl⟩
  have environmentTexts : ∃ texts : Option (List String),
      (texts.map fun texts => texts.map asBytes) = environment := by
    cases environment with
    | none => exact ⟨none, rfl⟩
    | some strings =>
      obtain ⟨texts, rfl⟩ := exists_texts entries
      exact ⟨some texts, rfl⟩
  obtain ⟨cwd, rfl⟩ := cwdTexts
  obtain ⟨environment, rfl⟩ := environmentTexts
  exact ⟨⟨timeoutMs, flags, argv, cwd, environment⟩, rfl⟩

end DecodedExec

theorem flags_lt (known : flags &&& ~~~ execKnownFlags = 0) : flags.toNat < 8 := by
  rw [eq_and_of_and_not known, UInt16.toNat_and]
  exact Nat.lt_succ_of_le Nat.and_le_right

theorem flags_eq_bits (known : flags &&& ~~~ execKnownFlags = 0) :
    flags = (if flags &&& execCwdPresent = 0 then 0 else execCwdPresent) |||
      (if flags &&& execEnvironmentPresent = 0 then 0 else execEnvironmentPresent) |||
      (if flags &&& execInheritDefaultEnv = 0 then 0 else execInheritDefaultEnv) := by
  have bound := flags_lt known
  have back := UInt16.ofNat_toNat (x := flags)
  generalize flags.toNat = value at bound back
  subst back
  match value with
  | 0 | 1 | 2 | 3 | 4 | 5 | 6 | 7 => rfl
  | value + 8 => omega

theorem flags_ext (known : first &&& ~~~ execKnownFlags = 0)
    (alsoKnown : second &&& ~~~ execKnownFlags = 0)
    (cwd : first &&& execCwdPresent = 0 ↔ second &&& execCwdPresent = 0)
    (environment : first &&& execEnvironmentPresent = 0 ↔ second &&& execEnvironmentPresent = 0)
    (inherits : first &&& execInheritDefaultEnv = 0 ↔
      second &&& execInheritDefaultEnv = 0) : first = second := by
  rw [flags_eq_bits known, flags_eq_bits alsoKnown]
  simp only [cwd, environment, inherits]

namespace DecodedExec

variable [ExecString S]

theorem Fits.flags_eq {maxCwd : Nat} {extension : UInt16}
    {first second : DecodedExec S} (fits : first.Fits maxCwd extension)
    (alsoFits : second.Fits maxCwd extension) (cwd : first.cwd = second.cwd)
    (environment : first.environment = second.environment)
    (inherits : first.flags &&& execInheritDefaultEnv = 0 ↔
      second.flags &&& execInheritDefaultEnv = 0) :
    first.flags = second.flags := by
  apply flags_ext fits.header.consistent.1 alsoFits.header.consistent.1
  · have one := fits.cwd
    have other := alsoFits.cwd
    rw [← cwd] at other
    generalize first.cwd = given at one other
    cases given with
    | none => exact iff_of_true one other
    | some text => exact iff_of_false one.1 other.1
  · have one := fits.present
    have other := alsoFits.present
    rw [← environment] at other
    exact not_iff_not.mp (one.symm.trans other)
  · exact inherits

theorem u16At_layout (extension : UInt16) (decoded : DecodedExec S) :
    u16At (decoded.layout extension) 6 = some extension := by
  rw [u16At_eq_some_iff]
  have whole : decoded.layout extension <+: (decoded.layout extension).drop 0 :=
    List.prefix_refl _
  nth_rewrite 1 [layout, headerBytes] at whole
  simp only [append_prefix_drop_iff, LittleEndian.length_ofUInt32,
    LittleEndian.length_ofUInt16] at whole
  exact whole.1.2.2.1

end DecodedExec

/-- What the `EXEC` encoder writes is read back, the two decoders differ only on
strings that are not UTF-8, and a guest value has one payload of each layout. -/
theorem exec_payload_is_read_back : (∀ workload payload, encodeExecPayload workload = .ok payload →
      decodeExecPayload payload = .ok
        { timeoutMs := workload.timeoutMs
          argv := workload.argv
          cwd := workload.cwd
          environment := workload.environment.explicit
          inheritDefaultEnv := workload.environment.inherits }) ∧
    (∀ payload, (∃ text, decodeExecPayload payload = .ok text) ↔
        ∃ guest, decodeGuestExecPayload payload = .ok guest ∧
          ∀ bytes ∈ guest.strings, IsUtf8 bytes) ∧
    (∀ payload text guest, decodeExecPayload payload = .ok text →
      decodeGuestExecPayload payload = .ok guest → guest.timeoutMs = text.timeoutMs ∧
        guest.argv = text.argv.map asBytes ∧
        guest.cwd = text.cwd.map asBytes ∧
        guest.environment = text.environment.map fun entries => entries.map asBytes) ∧
    (∀ first second guest, u16At first 6 = u16At second 6 →
      decodeGuestExecPayload first = .ok guest →
      decodeGuestExecPayload second = .ok guest → first = second) := by
  refine ⟨?_, ?_, ?_, ?_⟩
  · intro workload payload encoded
    rw [decodeExecPayload_eq_ok_iff]
    refine ⟨workload.decoded, ?_, ?_⟩
    · rw [decodeExec_eq_ok_iff (by decide)]
      exact ⟨workload.extension, encodeExecPayload_ok encoded⟩
    · rw [← workload.inherits_decoded]
      rfl
  · intro payload
    constructor
    · rintro ⟨text, accepted⟩
      obtain ⟨decoded, read, rfl⟩ := decodeExecPayload_eq_ok_iff.mp accepted
      refine ⟨_, decodeGuestExecPayload_eq_ok_iff.mpr
        ⟨decoded.bytes, decodeExec_bytes.mpr read, rfl⟩, ?_⟩
      intro bytes member
      have mapped : bytes ∈ decoded.bytes.strings := member
      rw [decoded.strings_bytes] at mapped
      obtain ⟨text, _, rfl⟩ := List.mem_map.mp mapped
      exact isUtf8_asBytes text
    · rintro ⟨guest, accepted, utf8⟩
      obtain ⟨decoded, read, rfl⟩ :=
        decodeGuestExecPayload_eq_ok_iff.mp accepted
      obtain ⟨texts, rfl⟩ := DecodedExec.exists_bytes utf8
      exact ⟨_, decodeExecPayload_eq_ok_iff.mpr ⟨texts, decodeExec_bytes.mp read, rfl⟩⟩
  · intro payload text guest textual binary
    obtain ⟨texts, readTexts, rfl⟩ := decodeExecPayload_eq_ok_iff.mp textual
    obtain ⟨decoded, read, rfl⟩ := decodeGuestExecPayload_eq_ok_iff.mp binary
    rw [← decodeExec_bytes, read] at readTexts
    obtain rfl := Except.ok.inj readTexts
    exact ⟨rfl, rfl, rfl, rfl⟩
  · intro first second guest extension one other
    obtain ⟨decoded, read, rfl⟩ := decodeGuestExecPayload_eq_ok_iff.mp one
    obtain ⟨again, readAgain, same⟩ := decodeGuestExecPayload_eq_ok_iff.mp other
    rw [decodeExec_eq_ok_iff (by decide)] at read readAgain
    obtain ⟨_, fits, rfl⟩ := read
    obtain ⟨_, alsoFits, rfl⟩ := readAgain
    rw [DecodedExec.u16At_layout, DecodedExec.u16At_layout] at extension
    obtain rfl := Option.some.inj extension
    injection same with timeoutMs argv cwd environment inherits
    have flags := alsoFits.flags_eq fits cwd environment
      (not_iff_not.mp (decide_eq_decide.mp inherits))
    have values : again = decoded := by
      cases again
      cases decoded
      simp_all
    rw [values]

end Nvx.Protocol
