import Nvx.Data.CString
import Nvx.Protocol.Cmdline

namespace Nvx.Protocol.Cmdline.Model

open Nvx.Data

/-! How Linux reads its command line: a transcription of the code with which the
kernel splits a NUL-terminated buffer in place. -/

structure Reading where
  parameters : List (List UInt8 × Option (List UInt8))
  rest : Option (List UInt8)
  deriving DecidableEq, Repr

def isspace (byte : UInt8) : Bool :=
  byte ∈ [9, 10, 11, 12, 13, 32, 160]

theorem lt_of_getD_ne {buffer : List UInt8}
    (present : buffer.getD index 0 ≠ 0) : index < buffer.length := by
  by_contra outside
  exact present (List.getD_eq_default _ _ (Nat.le_of_not_lt outside))

theorem ne_zero_of_isspace (space : isspace byte = true) : byte ≠ 0 := by
  rintro rfl
  revert space
  decide

def skipSpaces (buffer : List UInt8) (index : Nat) : Nat :=
  if isspace (buffer.getD index 0) then skipSpaces buffer (index + 1) else index
termination_by buffer.length - index
decreasing_by
  have inside := lt_of_getD_ne (ne_zero_of_isspace ‹_›)
  omega

/-- The loop that finds where the parameter at `args` ends, and its first equals
sign after the first byte. -/
def scanArg (buffer : List UInt8) (args i equals : Nat) (inQuote : Bool) : Nat × Nat :=
  if buffer.getD (args + i) 0 ≠ 0 then
    if isspace (buffer.getD (args + i) 0) ∧ inQuote = false then (i, equals)
    else
      scanArg buffer args (i + 1)
        (if equals = 0 ∧ buffer.getD (args + i) 0 = equalsSign then i else equals)
        (if buffer.getD (args + i) 0 = quote then !inQuote else inQuote)
  else (i, equals)
termination_by buffer.length - (args + i)
decreasing_by
  have inside := lt_of_getD_ne ‹_›
  omega

def dropQuote (buffer : List UInt8) (position : Nat) : List UInt8 :=
  if buffer.getD position 0 = quote then buffer.set position 0 else buffer

/-- The buffer after a parameter was split off, where the next one starts, and
where the parameter's name and value start. -/
structure Arg where
  buffer : List UInt8
  next : Nat
  param : Nat
  val : Option Nat

/-- Splits the name from the value at the equals sign, if there is one. -/
def splitValue (buffer : List UInt8) (args i equals : Nat) : List UInt8 × Option Nat :=
  if equals = 0 then (buffer, none)
  else
    let buffer := buffer.set (args + equals) 0
    if buffer.getD (args + equals + 1) 0 = quote then
      (dropQuote buffer (args + i - 1), some (args + equals + 2))
    else (buffer, some (args + equals + 1))

/-- Drops the quote that ends a parameter which starts with one. -/
def closeQuote (quoted : Bool) (buffer : List UInt8) (args i : Nat) :
    List UInt8 :=
  if quoted ∧ 0 < i then dropQuote buffer (args + i - 1) else buffer

def nextArg (buffer : List UInt8) (start : Nat) : Arg :=
  let quoted : Bool := buffer.getD start 0 = quote
  let args := if quoted then start + 1 else start
  let (i, equals) := scanArg buffer args 0 0 quoted
  let (buffer, val) := splitValue buffer args i equals
  let buffer := closeQuote quoted buffer args i
  let (buffer, next) :=
    if buffer.getD (args + i) 0 ≠ 0 then
      (buffer.set (args + i) 0, args + i + 1)
    else (buffer, args + i)
  ⟨buffer, skipSpaces buffer next, args, val⟩

theorem isspace_eq (byte : UInt8) : isspace byte = isSpace byte := by
  simp only [isspace, isSpace, List.mem_cons, List.not_mem_nil, or_false]
  apply decide_eq_decide.mpr
  tauto

theorem getD_advance (sound : Scan.Sound scan) (byte : UInt8) : (scan.advance byte).equals.getD 0 =
      if scan.equals.getD 0 = 0 ∧ byte = equalsSign then scan.length
      else scan.equals.getD 0 := by
  rcases scan with ⟨inQuote, equals, length⟩
  cases equals with
  | none =>
    by_cases sign : byte = equalsSign
    · rcases Nat.eq_zero_or_pos length with rfl | positive
      · simp [Scan.advance]
      · simp [Scan.advance, sign, positive]
    · simp [Scan.advance, sign]
  | some equals =>
    have positive := (sound equals rfl).1
    simp [Scan.advance]
    omega

theorem scanArg_eq (buffer : List UInt8) (args : Nat) {scan : Scan} (sound : scan.Sound) :
    scanArg buffer args scan.length (scan.equals.getD 0) scan.inQuote =
      ((scan.run (cstring buffer (args + scan.length))).length,
        (scan.run (cstring buffer (args + scan.length))).equals.getD 0) := by
  generalize text : cstring buffer (args + scan.length) = rest
  induction rest generalizing scan with
  | nil =>
    rw [scanArg, if_neg (not_not.mpr (getD_of_cstring_nil text))]
    rfl
  | cons byte rest induction =>
    obtain ⟨here, goesOn, later⟩ := of_cstring_cons text
    rw [scanArg, here, if_pos goesOn, isspace_eq, Scan.run]
    split
    · rfl
    · rw [← getD_advance sound byte]
      exact induction (sound.advance byte) later

theorem cstring_dropQuote_of_le (later : index ≤ position) :
    cstring (dropQuote buffer position) index =
      if buffer.getD position 0 = quote then
        (cstring buffer index).take (position - index)
      else cstring buffer index := by
  unfold dropQuote
  split
  · exact cstring_set_of_le later
  · rfl

theorem cstring_dropQuote_of_lt (earlier : position < index) :
    cstring (dropQuote buffer position) index = cstring buffer index := by
  unfold dropQuote
  split
  · exact cstring_set_of_lt earlier
  · rfl

theorem closing_iff (short : i ≤ (cstring buffer args).length) :
    (0 < i ∧ buffer.getD (args + i - 1) 0 = quote) ↔
      ((cstring buffer args).take i).getLast? = some quote := by
  cases i with
  | zero => simp
  | succ i =>
    rw [Nat.add_succ_sub_one, getD_cstring (Nat.le_of_succ_le short),
      List.getLast?_take, if_neg (Nat.succ_ne_zero i), Nat.add_sub_cancel,
      List.getElem?_eq_getElem short, List.getD_eq_getElem _ _ short]
    simp

theorem param_bare (quoted : Bool) (short : i ≤ (cstring buffer args).length) :
    cstring ((closeQuote quoted buffer args i).set (args + i) 0) args =
      bareName quoted ((cstring buffer args).take i) := by
  rw [cstring_set_of_le (Nat.le_add_right args i), Nat.add_sub_cancel_left]
  simp only [bareName, ← closing_iff short, List.length_take_of_le short, closeQuote]
  cases quoted with
  | false => simp
  | true =>
    by_cases positive : 0 < i
    · simp only [positive, and_true, true_and, if_true]
      rw [cstring_dropQuote_of_le (by omega)]
      split
      · rw [List.take_take, List.take_take]
        congr 1
        omega
      · rfl
    · simp [positive]

theorem opening_iff (short : i ≤ (cstring buffer args).length) (before : equals < i)
    (stops : ∀ byte ∈ ((cstring buffer args).drop i).head?, isSpace byte) :
    (buffer.set (args + equals) 0).getD (args + equals + 1) 0 = quote ↔
      (((cstring buffer args).take i).drop (equals + 1)).head? = some quote := by
  rw [getD_set_of_ne (by omega), Nat.add_assoc,
    getD_cstring (Nat.le_trans before short), List.head?_drop,
    List.getElem?_take]
  split
  · rename_i inside
    have bound := Nat.lt_of_lt_of_le inside short
    rw [List.getElem?_eq_getElem bound, List.getD_eq_getElem _ _ bound]
    simp
  · rename_i outside
    obtain rfl : i = equals + 1 := by omega
    rw [List.head?_drop] at stops
    rw [List.getD_eq_getElem?_getD]
    cases found : (cstring buffer args)[equals + 1]? with
    | none => simp [quote]
    | some byte =>
      have space := stops byte found
      simp only [Option.getD_some, reduceCtorEq, iff_false]
      rintro rfl
      revert space
      decide

theorem keeps_set {text : List UInt8} (string : cstring buffer args = text.take length)
    (later : args + length ≤ position) :
    cstring (buffer.set position 0) args = text.take length := by
  rw [cstring_set_of_le (by omega), string, List.take_take]
  congr 1
  omega

theorem keeps_dropQuote {text : List UInt8} (string : cstring buffer args = text.take length)
    (later : args + length ≤ position) :
    cstring (dropQuote buffer position) args = text.take length := by
  unfold dropQuote
  split
  · exact keeps_set string later
  · exact string

theorem keeps_closeQuote {text : List UInt8} (quoted : Bool)
    (string : cstring buffer args = text.take length) (later : length < i) :
    cstring (closeQuote quoted buffer args i) args = text.take length := by
  unfold closeQuote
  split
  · exact keeps_dropQuote string (by omega)
  · exact string

theorem param_named (quoted : Bool) (positive : 0 < equals) (before : equals < i) :
    cstring ((closeQuote quoted (splitValue buffer args i equals).1 args i).set (args + i) 0) args =
      ((cstring buffer args).take i).take equals := by
  have name : cstring (buffer.set (args + equals) 0) args = (cstring buffer args).take equals := by
    rw [cstring_set_of_le (Nat.le_add_right args equals), Nat.add_sub_cancel_left]
  have split : cstring (splitValue buffer args i equals).1 args =
      (cstring buffer args).take equals := by
    rw [splitValue, if_neg (Nat.ne_of_gt positive)]
    simp only
    split
    · exact keeps_dropQuote name (by omega)
    · exact name
  rw [List.take_take, Nat.min_eq_left (Nat.le_of_lt before)]
  exact keeps_set (keeps_closeQuote quoted split before) (by omega)

theorem dropQuote_dropQuote (buffer : List UInt8) (position : Nat) :
    dropQuote (dropQuote buffer position) position =
      dropQuote buffer position := by
  by_cases closing : buffer.getD position 0 = quote
  · have written : (buffer.set position 0).getD position 0 ≠ quote := by
      rw [List.getD_eq_getElem?_getD, List.getElem?_set_self']
      cases buffer[position]? <;> simp [quote]
    rw [show dropQuote buffer position = buffer.set position 0 from
      if_pos closing]
    exact if_neg written
  · rw [show dropQuote buffer position = buffer from if_neg closing]
    exact if_neg closing

theorem value_quoted (quoted : Bool) (short : i ≤ (cstring buffer args).length)
    (opens : equals + 1 < i)
    (opening : (((cstring buffer args).take i).drop (equals + 1)).head? = some quote) :
    cstring ((closeQuote quoted (dropQuote (buffer.set (args + equals) 0)
        (args + i - 1)) args i).set (args + i) 0) (args + equals + 2) =
      valueText quoted ((cstring buffer args).take i) equals := by
  have same : closeQuote quoted (dropQuote (buffer.set (args + equals) 0) (args + i - 1)) args i =
        dropQuote (buffer.set (args + equals) 0) (args + i - 1) := by
    unfold closeQuote
    split
    · exact dropQuote_dropQuote _ _
    · rfl
  have text : cstring (buffer.set (args + equals) 0) (args + equals + 2) =
      (cstring buffer args).drop (equals + 2) := by
    rw [cstring_set_of_lt (by omega), Nat.add_assoc,
      cstring_add (Nat.le_trans opens short)]
  have tail : (((cstring buffer args).take i).drop (equals + 1)).tail =
      ((cstring buffer args).drop (equals + 2)).take (i - (equals + 2)) := by
    rw [List.tail_drop, List.drop_take]
  have length : (((cstring buffer args).drop (equals + 2)).take
      (i - (equals + 2))).length = i - (equals + 2) := by
    rw [List.length_take, List.length_drop]
    omega
  have last : (buffer.set (args + equals) 0).getD (args + i - 1) 0 =
      buffer.getD (args + i - 1) 0 := getD_set_of_ne (by omega)
  have closing := closing_iff short
  simp only [Nat.zero_lt_of_lt opens, true_and] at closing
  rw [same, cstring_set_of_le (by omega), valueText]
  simp only [opening, if_true, tail, ← closing, decide_eq_true_eq, length]
  by_cases single : i = equals + 2
  · have none : args + i - (args + equals + 2) = 0 := by omega
    have alsoNone : i - (equals + 2) = 0 := by omega
    simp [none, alsoNone]
  · rw [cstring_dropQuote_of_le (by omega), last, text]
    split
    · rw [List.take_take, List.take_take]
      congr 1
      omega
    · congr 1
      omega

theorem value_plain (quoted : Bool) (short : i ≤ (cstring buffer args).length) (before : equals < i)
    (plain : (((cstring buffer args).take i).drop (equals + 1)).head? ≠ some quote) :
    cstring ((closeQuote quoted (buffer.set (args + equals) 0) args i).set
        (args + i) 0) (args + equals + 1) =
      valueText quoted ((cstring buffer args).take i) equals := by
  have text : cstring (buffer.set (args + equals) 0) (args + equals + 1) =
      (cstring buffer args).drop (equals + 1) := by
    rw [cstring_set_of_lt (by omega), Nat.add_assoc,
      cstring_add (Nat.le_trans before short)]
  have value : ((cstring buffer args).take i).drop (equals + 1) =
      ((cstring buffer args).drop (equals + 1)).take (i - (equals + 1)) :=
    List.drop_take
  have length : (((cstring buffer args).drop (equals + 1)).take
      (i - (equals + 1))).length = i - (equals + 1) := by
    rw [List.length_take, List.length_drop]
    omega
  have closing := closing_iff short
  simp only [Nat.zero_lt_of_lt before, true_and] at closing
  rw [cstring_set_of_le (by omega), valueText, if_neg plain]
  simp only [value, ← closing, Bool.and_eq_true, decide_eq_true_eq, length, closeQuote]
  by_cases single : i = equals + 1
  · have none : args + i - (args + equals + 1) = 0 := by omega
    have alsoNone : i - (equals + 1) = 0 := by omega
    simp [none, alsoNone]
  · have last : (buffer.set (args + equals) 0).getD (args + i - 1) 0 =
        buffer.getD (args + i - 1) 0 := getD_set_of_ne (by omega)
    cases quoted with
    | false =>
      simp only [Bool.false_eq_true, false_and, if_false, text]
      congr 1
      omega
    | true =>
      simp only [true_and, Nat.zero_lt_of_lt before, if_true]
      rw [cstring_dropQuote_of_le (by omega), last, text]
      split
      · rw [List.take_take, List.take_take]
        congr 1
        omega
      · congr 1
        omega

theorem value_eq (quoted : Bool) (short : i ≤ (cstring buffer args).length)
    (positive : 0 < equals) (before : equals < i)
    (stops : ∀ byte ∈ ((cstring buffer args).drop i).head?, isSpace byte) :
    (splitValue buffer args i equals).2.map (cstring
        ((closeQuote quoted (splitValue buffer args i equals).1 args i).set (args + i) 0)) =
      some (valueText quoted ((cstring buffer args).take i) equals) := by
  have opening := opening_iff short before stops
  rw [splitValue, if_neg (Nat.ne_of_gt positive)]
  simp only [opening]
  split
  · rename_i opens
    have inside : equals + 1 < i := by
      by_contra outside
      rw [List.drop_eq_nil_of_le (by rw [List.length_take]; omega)] at opens
      cases opens
    exact congrArg some (value_quoted quoted short inside opens)
  · rename_i plain
    exact congrArg some (value_plain quoted short before plain)

theorem cstring_skipSpaces (buffer : List UInt8) (index : Nat) :
    cstring buffer (skipSpaces buffer index) = (cstring buffer index).dropWhile isSpace := by
  generalize text : cstring buffer index = rest
  induction rest generalizing index with
  | nil =>
    rw [skipSpaces, getD_of_cstring_nil text, if_neg (by decide), text]
    rfl
  | cons byte rest induction =>
    obtain ⟨here, _, later⟩ := of_cstring_cons text
    rw [skipSpaces, here, isspace_eq, List.dropWhile_cons]
    split
    · exact induction (index + 1) later
    · exact text

theorem cstring_written
    (quoted : Bool) (sound : equals = 0 ∨ equals < i) (after : args + i ≤ index) :
    cstring (closeQuote quoted (splitValue buffer args i equals).1 args i) index =
      cstring buffer index := by
  have split : cstring (splitValue buffer args i equals).1 index =
      cstring buffer index := by
    unfold splitValue
    split
    · rfl
    · simp only
      split
      · rw [cstring_dropQuote_of_lt (by omega), cstring_set_of_lt (by omega)]
      · rw [cstring_set_of_lt (by omega)]
  unfold closeQuote
  split
  · rw [cstring_dropQuote_of_lt (by omega), split]
  · exact split

theorem getD_equals (quoted : Bool) (text : List UInt8) : (scanText quoted text).equals.getD 0 = 0 ∨
      (scanText quoted text).equals.getD 0 < (scanText quoted text).length := by
  cases found : (scanText quoted text).equals with
  | none => exact .inl rfl
  | some equals => exact .inr (sound_scanText quoted text equals found).2

theorem nextArg_eq {buffer text : List UInt8} {start args : Nat} {quoted : Bool}
    (quotes : decide (buffer.getD start 0 = quote) = quoted)
    (starts : (if quoted then start + 1 else start) = args) (string : cstring buffer args = text) :
    let i := (scanText quoted text).length
    let equals := (scanText quoted text).equals.getD 0
    let written :=
      closeQuote quoted (splitValue buffer args i equals).1 args i
    nextArg buffer start = ⟨written.set (args + i) 0, skipSpaces (written.set (args + i) 0)
          (if buffer.getD (args + i) 0 ≠ 0 then args + i + 1 else args + i),
        args, (splitValue buffer args i equals).2⟩ := by
  intro i equals written
  have scanned : scanArg buffer args 0 0 quoted = (i, equals) := by
    have scan := @scanArg_eq buffer args ⟨quoted, none, 0⟩ (by rintro _ ⟨⟩)
    simp only [Nat.add_zero, string] at scan
    exact scan
  have sound : equals = 0 ∨ equals < i := getD_equals quoted text
  have next : written.getD (args + i) 0 = buffer.getD (args + i) 0 := by
    rw [getD_eq_headD, cstring_written quoted sound le_rfl, ← getD_eq_headD]
  rw [nextArg]
  simp only [quotes, starts, scanned]
  rw [show closeQuote quoted (splitValue buffer args i equals).1 args i = written from rfl, next]
  split
  · rfl
  · rename_i ends
    rw [set_of_zero (next.trans (not_not.mp ends))]

def nameText (quoted : Bool) (text : List UInt8) (scan : Scan) : List UInt8 :=
  match scan.equals with
  | none => bareName quoted (text.take scan.length)
  | some equals => (text.take scan.length).take equals

theorem nextArg_spec {buffer others : List UInt8} {start : Nat} {first : UInt8}
    (string : cstring buffer start = first :: others) :
    let quoted : Bool := first = quote
    let text := if quoted then others else first :: others
    let scan := scanText quoted text
    let arg := nextArg buffer start
    cstring arg.buffer arg.param = nameText quoted text scan ∧ arg.val.map (cstring arg.buffer) =
        scan.equals.map (valueText quoted (text.take scan.length)) ∧
      cstring arg.buffer arg.next = (text.drop scan.length).dropWhile isSpace := by
  intro quoted text scan arg
  obtain ⟨here, _, later⟩ := of_cstring_cons string
  have starts : cstring buffer (if quoted then start + 1 else start) = text := by
    simp only [text]
    split
    · exact later
    · exact string
  have split : arg = _ := nextArg_eq (by rw [here]) rfl starts
  generalize (if quoted then start + 1 else start) = args at *
  clear_value text
  obtain ⟨short, stops⟩ := scanText_spec quoted text
  have sound := sound_scanText quoted text
  rw [split]
  simp only
  subst starts
  refine ⟨?_, ?_, ?_⟩
  · unfold nameText
    split
    · rename_i none
      rw [none]
      exact param_bare quoted short
    · rename_i equals found
      obtain ⟨positive, before⟩ := sound equals found
      rw [found]
      exact param_named quoted positive before
  · cases found : (scanText quoted (cstring buffer args)).equals with
    | none => rfl
    | some equals =>
      obtain ⟨positive, before⟩ := sound equals found
      exact value_eq quoted short positive before stops
  · have sound := getD_equals quoted (cstring buffer args)
    rw [cstring_skipSpaces, ← cstring_add short]
    split
    · rename_i goesOn
      rw [← cstring_add short, cstring_of_ne goesOn] at stops
      rw [cstring_of_ne goesOn, List.dropWhile_cons_of_pos (stops _ rfl),
        cstring_set_of_lt (Nat.lt_succ_self _),
        cstring_written quoted sound (Nat.le_succ _)]
    · rename_i ends
      rw [cstring_of_zero (not_not.mp ends), cstring_set_of_le le_rfl, Nat.sub_self, List.take_zero]

theorem length_cstring_nextArg (goesOn : buffer.getD start 0 ≠ 0) :
    (cstring (nextArg buffer start).buffer (nextArg buffer start).next).length <
      (cstring buffer start).length := by
  have string := cstring_of_ne goesOn
  generalize buffer.getD start 0 = first at string
  generalize cstring buffer (start + 1) = others at string
  obtain ⟨_, _, rest⟩ := nextArg_spec string
  have shorter : ∀ text : List UInt8, (text.dropWhile isSpace).length ≤ text.length := fun text =>
    (List.dropWhile_suffix isSpace).length_le
  rw [rest, string, List.length_cons, Nat.lt_succ_iff]
  by_cases quotes : first = quote
  · simp only [quotes, decide_true, if_true]
    exact Nat.le_trans (shorter _) (by rw [List.length_drop]; omega)
  · simp only [quotes, decide_false, Bool.false_eq_true, if_false]
    cases space : isSpace first with
    | true =>
      have none : (scanText false (first :: others)).length = 0 := by
        rw [scanText, Scan.run, if_pos ⟨space, rfl⟩]
      rw [none, List.drop_zero, List.dropWhile_cons_of_pos space]
      exact shorter others
    | false =>
      have positive := scanText_pos space others
      refine Nat.le_trans (shorter _) ?_
      rw [List.length_drop, List.length_cons]
      omega

def parseArgs (buffer : List UInt8) (args : Nat) (reading : Reading) : Reading :=
  if buffer.getD args 0 ≠ 0 then
    let arg := nextArg buffer args
    let param := cstring arg.buffer arg.param
    let val := arg.val.map (cstring arg.buffer)
    if val = none ∧ param = [dash, dash] then
      { reading with rest := some (cstring arg.buffer arg.next) }
    else
      parseArgs arg.buffer arg.next
        { reading with parameters := reading.parameters ++ [(param, val)] }
  else reading
termination_by (cstring buffer args).length
decreasing_by exact length_cstring_nextArg ‹_›

def read (commandLine : List UInt8) : Reading :=
  let buffer := commandLine ++ [0]
  parseArgs buffer (skipSpaces buffer 0) ⟨[], none⟩

theorem finish_eq (quoted : Bool) (text : List UInt8) (scan : Scan) : finish quoted text scan =
      if scan.equals.map (valueText quoted (text.take scan.length)) = none ∧
          nameText quoted text scan = [dash, dash] then none
      else some (⟨nameText quoted text scan,
        scan.equals.map (valueText quoted (text.take scan.length))⟩, text.drop scan.length) := by
  unfold finish nameText
  cases scan.equals <;> simp

theorem parseArgs_step (string : cstring buffer args = rest.dropWhile isSpace) (reading : Reading) :
    match next rest with
    | none => (parseArgs buffer args reading).parameters = reading.parameters
    | some (parameter, others) => ∃ written next, cstring written next = others.dropWhile isSpace ∧
          parseArgs buffer args reading =
            parseArgs written next { reading with
              parameters := reading.parameters ++
                [(parameter.name, parameter.value)] } := by
  unfold next
  cases text : rest.dropWhile isSpace with
  | nil =>
    rw [text] at string
    rw [parseArgs, if_neg (not_not.mpr (getD_of_cstring_nil string))]
  | cons first others =>
    rw [text] at string
    obtain ⟨name, value, later⟩ := nextArg_spec string
    obtain ⟨here, present, _⟩ := of_cstring_cons string
    rw [parseArgs, if_pos (here ▸ present)]
    simp only [finish_eq, ← name, ← value]
    by_cases stops : (nextArg buffer args).val.map (cstring (nextArg buffer args).buffer) = none ∧
        cstring (nextArg buffer args).buffer (nextArg buffer args).param = [dash, dash]
    · simp only [if_pos stops]
    · simp only [if_neg stops]
      exact ⟨_, _, later, rfl⟩

theorem parseArgs_parameters
    (string : cstring buffer args = rest.dropWhile isSpace) (reading : Reading) :
    (parseArgs buffer args reading).parameters = reading.parameters ++
        (collect rest).map fun parameter => (parameter.name, parameter.value) := by
  induction rest using collect.induct generalizing buffer args reading with
  | case1 rest none =>
    have step := parseArgs_step string reading
    rw [none] at step
    rw [collect_eq, none, step]
    exact (List.append_nil _).symm
  | case2 rest parameter others found induction =>
    have step := parseArgs_step string reading
    rw [found] at step
    obtain ⟨written, next, later, step⟩ := step
    rw [collect_eq, found, step, induction later, List.map_cons, List.append_assoc]
    rfl

def parameqn (first second : List UInt8) (length : Nat) : Bool :=
  (List.range length).all fun i =>
    fold (first.getD i 0) = fold (second.getD i 0)

def parameq (first second : List UInt8) : Bool :=
  parameqn first second (first.length + 1)

theorem fold_eq_zero_iff : fold byte = 0 ↔ byte = 0 := by
  unfold fold
  split
  · rename_i isDash
    rw [isDash]
    decide
  · exact Iff.rfl

theorem all_zip_iff {first second : List UInt8} (bare : 0 ∉ first) (alsoBare : 0 ∉ second) :
    (first.length = second.length ∧ ∀ pair ∈ first.zip second, fold pair.1 = fold pair.2) ↔
      ∀ i < first.length + 1, fold (first.getD i 0) = fold (second.getD i 0) := by
  induction first generalizing second with
  | nil =>
    cases second with
    | nil => simp
    | cons byte second =>
      have present : (0 : UInt8) ≠ fold byte := fun absent =>
        List.ne_of_not_mem_cons alsoBare (fold_eq_zero_iff.mp absent.symm).symm
      simpa [show fold 0 = 0 from rfl] using present
  | cons byte first induction =>
    rw [List.length_cons, Nat.forall_lt_succ_left]
    cases second with
    | nil =>
      have present : fold byte ≠ 0 := fun absent =>
        List.ne_of_not_mem_cons bare (fold_eq_zero_iff.mp absent).symm
      simp [show fold 0 = 0 from rfl, present]
    | cons other second =>
      have rest := induction (List.not_mem_of_not_mem_cons bare)
        (List.not_mem_of_not_mem_cons alsoBare)
      simp only [List.length_cons, Nat.add_right_cancel_iff,
        List.zip_cons_cons, List.forall_mem_cons, List.getD_cons_zero,
        List.getD_cons_succ, ← rest]
      tauto

theorem isNamed_eq_parameq {parameter : Parameter}
    (bare : 0 ∉ parameter.name) (alsoBare : 0 ∉ asBytes name) :
    parameter.isNamed name = parameq parameter.name (asBytes name) := by
  apply Bool.eq_iff_iff.mpr
  simp only [Parameter.isNamed, parameq, parameqn, Bool.and_eq_true,
    List.all_eq_true, decide_eq_true_eq, List.mem_range]
  exact all_zip_iff bare alsoBare

theorem cstring_terminated (commandLine : List UInt8) :
    cstring (commandLine ++ [0]) 0 = commandLine.takeWhile (· ≠ 0) := by
  rw [cstring, List.drop_zero]
  induction commandLine with
  | nil => rfl
  | cons byte commandLine induction =>
    rw [List.cons_append, List.takeWhile_cons, List.takeWhile_cons, induction]

/-- The slices of the command line are the strings that the kernel splits off its
copy, and names are compared as the kernel compares them. -/
theorem parameters_are_the_kernels : (∀ commandLine : List UInt8, (parameters commandLine).map
          (fun parameter => (parameter.name, parameter.value)) =
        (read commandLine).parameters) ∧
    (∀ (parameter : Parameter) (name : String), 0 ∉ parameter.name → 0 ∉ asBytes name →
        parameter.isNamed name = parameq parameter.name (asBytes name)) ∧
    (∀ commandLine, ∀ parameter ∈ parameters commandLine, 0 ∉ parameter.name) := by
  refine ⟨?_, fun parameter name => isNamed_eq_parameq, ?_⟩
  · intro commandLine
    have string := cstring_skipSpaces (commandLine ++ [0]) 0
    rw [cstring_terminated] at string
    exact (parseArgs_parameters string ⟨[], none⟩).symm
  · intro commandLine parameter member nul
    have present := name_subset_of_mem_collect member nul
    simpa using List.mem_takeWhile_imp present

end Nvx.Protocol.Cmdline.Model
