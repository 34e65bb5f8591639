import Nvx.Data.Codec

namespace Nvx.Data

/-! Readers that take bytes from the front of what remains. -/

abbrev ByteReader (Error Value : Type) := StateT (List UInt8) (Except Error) Value

/-- The reader takes the encodings of valid values off the front, and nothing
else. -/
structure Takes (read : ByteReader Error Value) (write : Value → List UInt8)
    (valid : Value → Prop) : Prop where
  run_iff : ∀ {bytes value rest}, read.run bytes = .ok (value, rest) ↔
    valid value ∧ bytes = write value ++ rest

namespace ByteReader

def takeBytes (error : Error) (width : Nat) : ByteReader Error (Bytes width) :=
  fun bytes =>
    if fits : width ≤ bytes.length then
      .ok (⟨bytes.take width, List.length_take_of_le fits⟩, bytes.drop width)
    else .error error

def u8 (error : Error) : ByteReader Error UInt8 := do
  let bytes ← takeBytes error 1
  pure (bytes.get 0)

def u16 (error : Error) : ByteReader Error UInt16 := do
  let bytes ← takeBytes error 2
  pure (LittleEndian.toUInt16 bytes.val)

def u32 (error : Error) : ByteReader Error UInt32 := do
  let bytes ← takeBytes error 4
  pure (LittleEndian.toUInt32 bytes.val)

def u64 (error : Error) : ByteReader Error UInt64 := do
  let bytes ← takeBytes error 8
  pure (LittleEndian.toUInt64 bytes.val)

def repeated (read : ByteReader Error Value) : Nat → ByteReader Error (List Value)
  | 0 => pure []
  | count + 1 => do
      let value ← read
      let values ← repeated read count
      pure (value :: values)

end ByteReader

namespace Takes

open ByteReader

variable {Error First Value : Type}

theorem pure_of (unique : ∀ other, valid other ↔ other = value) :
    Takes (pure value : ByteReader Error Value) (fun _ => []) valid := by
  refine ⟨@fun bytes other rest => ?_⟩
  rw [StateT.run_pure, unique, List.nil_append]
  constructor
  · intro same
    cases same
    exact ⟨rfl, rfl⟩
  · rintro ⟨rfl, rfl⟩
    rfl

theorem bind_run_iff {first : ByteReader Error First} {next : First → ByteReader Error Value}
    (takes : Takes first write valid) : (first >>= next).run bytes = .ok (value, rest) ↔
      ∃ head middle, (valid head ∧ bytes = write head ++ middle) ∧
        (next head).run middle = .ok (value, rest) := by
  simp only [StateT.run_bind, bind_eq_ok_iff, Prod.exists, takes.run_iff]

/-- A value whose first part is read before the others.  The later parts are
read knowing the first. -/
theorem bind {first : ByteReader Error First} (part : Value → First)
    (takes : Takes first write validFirst)
    (implied : ∀ value, valid value → validFirst (part value)) (later : ∀ head, validFirst head →
      Takes (next head) writeNext (fun value => part value = head ∧ valid value)) :
    Takes (first >>= next) (fun value => write (part value) ++ writeNext value)
      valid := by
  refine ⟨@fun bytes value rest => ?_⟩
  rw [takes.bind_run_iff]
  constructor
  · rintro ⟨head, middle, ⟨validHead, rfl⟩, readNext⟩
    obtain ⟨⟨rfl, isValid⟩, rfl⟩ := (later head validHead).run_iff.mp readNext
    exact ⟨isValid, (List.append_assoc _ _ _).symm⟩
  · rintro ⟨isValid, rfl⟩
    have validHead := implied value isValid
    rw [List.append_assoc]
    exact ⟨part value, _, ⟨validHead, rfl⟩, (later _ validHead).run_iff.mpr ⟨⟨rfl, isValid⟩, rfl⟩⟩

theorem congr {read : ByteReader Error Value} (takes : Takes read write valid)
    (sameValid : ∀ value, valid' value ↔ valid value)
    (sameBytes : ∀ value, valid value → write' value = write value) :
    Takes read write' valid' := by
  refine ⟨@fun bytes value rest => ?_⟩
  rw [takes.run_iff, sameValid]
  exact and_congr_right fun isValid => by rw [sameBytes value isValid]

theorem field {first : ByteReader Error First}
    (part : Value → First) (takes : Takes first write fun _ => True)
    (later : ∀ head, Takes (next head) writeNext (fun value => part value = head ∧ valid value)) :
    Takes (first >>= next) (fun value => write (part value) ++ writeNext value)
      valid :=
  takes.bind part (fun _ _ => trivial) fun head _ => later head

theorem last {first : ByteReader Error First} {make : First → Value}
    (part : Value → First) (takes : Takes first write validFirst)
    (made : ∀ head value, part value = head ∧ valid value ↔ validFirst head ∧ value = make head) :
    Takes (do let head ← first; pure (make head))
      (fun value => write (part value)) valid := by
  refine (takes.bind part (fun value isValid => ?_) fun head validHead =>
    pure_of fun value => ?_).congr (fun _ => Iff.rfl) fun value _ => (List.append_nil _).symm
  · exact ((made (part value) value).mp ⟨rfl, isValid⟩).1
  · rw [made]
    exact and_iff_right validHead

theorem convert {read : ByteReader Error First}
    {make : First → Except Error Value} (part : Value → First) (takes : Takes read write validFirst)
    (made : ∀ head value, make head = .ok value ∧ validFirst head ↔
      part value = head ∧ valid value) :
    Takes (do let head ← read; StateT.lift (make head))
      (fun value => write (part value)) valid := by
  refine ⟨@fun bytes value rest => ?_⟩
  rw [takes.bind_run_iff]
  constructor
  · rintro ⟨head, middle, ⟨validHead, rfl⟩, makes⟩
    rw [StateT.run_lift, bind_eq_ok_iff] at makes
    obtain ⟨other, result, same⟩ := makes
    cases same
    obtain ⟨rfl, isValid⟩ := (made head value).mp ⟨result, validHead⟩
    exact ⟨isValid, rfl⟩
  · rintro ⟨isValid, rfl⟩
    obtain ⟨result, validHead⟩ := (made _ value).mpr ⟨rfl, isValid⟩
    refine ⟨part value, rest, ⟨validHead, rfl⟩, ?_⟩
    rw [StateT.run_lift, result]
    rfl

theorem takeBytes (error : Error) (width : Nat) :
    Takes (ByteReader.takeBytes error width) Subtype.val (fun _ => True) := by
  refine ⟨@fun bytes value rest => ?_⟩
  change ByteReader.takeBytes error width bytes = _ ↔ _
  rw [true_and, ByteReader.takeBytes]
  split
  · constructor
    · intro same
      cases same
      exact (List.take_append_drop width bytes).symm
    · rintro rfl
      congr 1
      refine Prod.ext (Subtype.ext ?_) ?_
      · exact List.take_left' value.property
      · exact List.drop_left' value.property
  · rename_i short
    constructor
    · intro impossible
      cases impossible
    · rintro rfl
      rw [List.length_append, value.property] at short
      omega

theorem fixed {make : Bytes width → Value} (part : Value → Bytes width) (error : Error)
    (unmake : ∀ value, make (part value) = value) (remake : ∀ bytes, part (make bytes) = bytes) :
    Takes (do let bytes ← ByteReader.takeBytes error width; pure (make bytes))
      (fun value => (part value).val) (fun _ => True) := by
  refine ((takeBytes error width).bind part (fun _ _ => trivial)
    fun bytes _ => pure_of fun value => ?_).congr (fun _ => Iff.rfl)
      fun value _ => (List.append_nil _).symm
  constructor
  · rintro ⟨rfl, _⟩
    exact (unmake value).symm
  · rintro rfl
    exact ⟨remake bytes, trivial⟩

theorem u8 (error : Error) :
    Takes (ByteReader.u8 error) (fun value => [value]) (fun _ => True) := by
  refine fixed (fun value => ⟨[value], rfl⟩) error (fun value => rfl) fun bytes => ?_
  obtain ⟨value, single⟩ := List.length_eq_one_iff.mp bytes.property
  obtain ⟨_, wide⟩ := bytes
  cases single
  rfl

theorem u16 (error : Error) : Takes (ByteReader.u16 error) LittleEndian.ofUInt16 (fun _ => True) :=
  fixed (fun value => ⟨_, LittleEndian.length_ofUInt16 value⟩) error LittleEndian.toUInt16_ofUInt16
    fun bytes => Subtype.ext (LittleEndian.ofUInt16_toUInt16 bytes.property)

theorem u32 (error : Error) : Takes (ByteReader.u32 error) LittleEndian.ofUInt32 (fun _ => True) :=
  fixed (fun value => ⟨_, LittleEndian.length_ofUInt32 value⟩) error LittleEndian.toUInt32_ofUInt32
    fun bytes => Subtype.ext (LittleEndian.ofUInt32_toUInt32 bytes.property)

theorem u64 (error : Error) : Takes (ByteReader.u64 error) LittleEndian.ofUInt64 (fun _ => True) :=
  fixed (fun value => ⟨_, LittleEndian.length_ofUInt64 value⟩) error LittleEndian.toUInt64_ofUInt64
    fun bytes => Subtype.ext (LittleEndian.ofUInt64_toUInt64 bytes.property)

theorem repeated {read : ByteReader Error Value} (takes : Takes read write valid) (count : Nat) :
    Takes (ByteReader.repeated read count) (fun values => values.flatMap write)
      (fun values => values.length = count ∧ ∀ value ∈ values, valid value) := by
  induction count with
  | zero =>
    refine ⟨@fun bytes values rest => ?_⟩
    simp only [ByteReader.repeated, StateT.run_pure, List.length_eq_zero_iff]
    constructor
    · intro same
      cases same
      simp
    · rintro ⟨⟨rfl, _⟩, rfl⟩
      rfl
  | succ count induction =>
    refine ⟨@fun bytes values rest => ?_⟩
    simp only [ByteReader.repeated, takes.bind_run_iff, induction.bind_run_iff, StateT.run_pure]
    constructor
    · rintro ⟨value, _, ⟨isValid, rfl⟩, others, _, ⟨⟨length, areValid⟩, rfl⟩, same⟩
      cases same
      refine ⟨⟨by rw [List.length_cons, length], ?_⟩, ?_⟩
      · exact List.forall_mem_cons.mpr ⟨isValid, areValid⟩
      · rw [List.flatMap_cons, List.append_assoc]
    · rintro ⟨⟨length, areValid⟩, rfl⟩
      cases values with
      | nil => simp at length
      | cons value values =>
        rw [List.forall_mem_cons] at areValid
        rw [List.flatMap_cons, List.append_assoc]
        exact ⟨value, _, ⟨areValid.1, rfl⟩, values, rest,
          ⟨⟨Nat.succ.inj length, areValid.2⟩, rfl⟩, rfl⟩

end Takes

theorem Bytes.length_val (bytes : Bytes width) : bytes.val.length = width :=
  bytes.property

/-- The parser accepts the encodings of valid values, and nothing else. -/
structure Parses (parse : List UInt8 → Except Error Value)
    (write : Value → List UInt8) (valid : Value → Prop) : Prop where
  eq_ok_iff : ∀ {bytes value}, parse bytes = .ok value ↔ valid value ∧ bytes = write value

theorem Parses.injective {parse : List UInt8 → Except Error Value}
    (parses : Parses parse write valid) (validFirst : valid first) (validSecond : valid second)
    (same : write first = write second) : first = second := by
  have parsed := parses.eq_ok_iff.mpr ⟨validFirst, same.symm⟩
  rw [parses.eq_ok_iff.mpr ⟨validSecond, rfl⟩] at parsed
  exact (Except.ok.inj parsed).symm

theorem Parses.option_injective {parse : List UInt8 → Except Error Value}
    (parses : Parses parse write valid) {first second : Option Value}
    (validFirst : ∀ value ∈ first, valid value) (validSecond : ∀ value ∈ second, valid value)
    (same : first.map write = second.map write) : first = second := by
  cases first with
  | none => exact (Option.map_eq_none_iff.mp same.symm).symm
  | some value =>
    cases second with
    | none => cases same
    | some other =>
      rw [parses.injective (validFirst value rfl) (validSecond other rfl) (Option.some.inj same)]

end Nvx.Data
