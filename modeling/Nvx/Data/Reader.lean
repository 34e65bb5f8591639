import Mathlib.Algebra.Order.BigOperators.Ring.Finset

namespace Nvx.Data

/-! Incremental readers, which take symbols in pieces of any size and return
each item once its last symbol arrives. -/

def advance (taken : Nat) : State × Except Error (Nat × Option Item) →
      State × Except Error (Nat × Option Item)
  | (state, .ok (count, item)) => (state, .ok (taken + count, item))
  | (state, .error error) => (state, .error error)

/-- Goes on with `rest`, unless an item completed or the reader failed. -/
def proceed (result : State × Except Error (Nat × Option Item))
    (rest : State → State × Except Error (Nat × Option Item)) :
    State × Except Error (Nat × Option Item) :=
  match result with
  | (next, .ok (count, none)) => advance count (rest next)
  | result => result

/-- `push` takes symbols from the front of its input until an item completes or
the input runs out, and tells how many it took. -/
structure Reader (State Symbol Item Error : Type*) where
  push : State → List Symbol → State × Except Error (Nat × Option Item)
  push_one : ∀ {state symbol next count item}, push state [symbol] = (next, .ok (count, item)) →
      count = 1 ∧ push next [] = (next, .ok (0, none))
  push_cons : ∀ state symbol rest, push state (symbol :: rest) =
    proceed (push state [symbol]) fun next => push next rest

/-- The items returned, the state reached, and the failure, if any. -/
@[ext] structure Fed (State Item Failure : Type*) where
  items : List Item
  state : State
  failure : Option Failure

namespace Fed

/-- What is fed after `fed` to the state that it reached, unless it failed. -/
def next (fed : Fed State Item Failure) (shift : Failure → Failure)
    (rest : State → Fed State Item Failure) : Fed State Item Failure :=
  match fed.failure with
  | some _ => fed
  | none =>
    { items := fed.items ++ (rest fed.state).items
      state := (rest fed.state).state
      failure := (rest fed.state).failure.map shift }

end Fed

namespace Reader

variable {State Symbol Item Error : Type*} (reader : Reader State Symbol Item Error)

/-- A failure at the symbol at this position, counted from one. -/
abbrev At (Error : Type*) := Nat × Error

/-- A failure of the `push` that was handed the symbols from the first position
to the second. -/
abbrev Within (Error : Type*) := Nat × Nat × Error

def At.shift (before : Nat) (failure : At Error) : At Error :=
  (before + failure.1, failure.2)

def Within.shift (before : Nat) (failure : Within Error) : Within Error :=
  (before + failure.1, before + failure.2.1, failure.2.2)

def scan (state : State) : List Symbol → Fed State Item (At Error)
  | [] => ⟨[], state, none⟩
  | symbol :: rest =>
    match reader.push state [symbol] with
    | (next, .error error) => ⟨[], next, some (1, error)⟩
    | (next, .ok (_, item)) =>
      { items := item.toList ++ (scan next rest).items
        state := (scan next rest).state
        failure := (scan next rest).failure.map (At.shift 1) }

theorem scan_cons_ok (first : reader.push state [symbol] = (next, .ok (count, item)))
    (rest : List Symbol) :
    reader.scan state (symbol :: rest) =
      { items := item.toList ++ (reader.scan next rest).items
        state := (reader.scan next rest).state
        failure := (reader.scan next rest).failure.map (At.shift 1) } := by
  rw [scan, first]

theorem scan_cons_error (first : reader.push state [symbol] = (next, .error error))
    (rest : List Symbol) :
    reader.scan state (symbol :: rest) = ⟨[], next, some (1, error)⟩ := by
  rw [scan, first]

theorem scan_append (state : State) (first second : List Symbol) :
    reader.scan state (first ++ second) = (reader.scan state first).next (At.shift first.length)
        fun next => reader.scan next second := by
  induction first generalizing state with
  | nil =>
    have same : @At.shift Error 0 = id := by
      funext failure
      simp [At.shift]
    simp [scan, Fed.next, same]
  | cons symbol first induction =>
    simp only [List.cons_append, scan]
    split
    · rfl
    · rename_i next count item _
      rw [induction next]
      simp only [Fed.next]
      split
      · rename_i failed
        simp [failed]
      · rename_i done
        simp only [done, Option.map_none, List.append_assoc, Option.map_map, List.length_cons]
        congr 2
        funext failure
        simp [At.shift]
        omega

def Ready (state : State) : Prop :=
  reader.push state [] = (state, .ok (0, none))

inductive Pushed (state : State) (input : List Symbol) :
    State × Except Error (Nat × Option Item) → Prop
  | all (next : State) (ready : reader.Ready next)
      (scanned : reader.scan state input = ⟨[], next, none⟩) :
      Pushed state input (next, .ok (input.length, none))
  | item (count : Nat) (next : State) (item : Item) (positive : 0 < count)
      (fits : count ≤ input.length) (ready : reader.Ready next)
      (scanned : reader.scan state (input.take count) = ⟨[item], next, none⟩) :
      Pushed state input (next, .ok (count, some item))
  | failed (next : State) (position : Nat) (error : Error)
      (positive : 0 < position) (fits : position ≤ input.length)
      (scanned : reader.scan state input = ⟨[], next, some (position, error)⟩) :
      Pushed state input (next, .error error)

theorem pushed (ready : reader.Ready state) (input : List Symbol) :
    reader.Pushed state input (reader.push state input) := by
  induction input generalizing state with
  | nil =>
    rw [ready]
    exact .all state ready rfl
  | cons symbol rest induction =>
    rw [reader.push_cons]
    rcases first : reader.push state [symbol] with
      ⟨next, error | ⟨count, item⟩⟩
    · exact .failed next 1 error Nat.one_pos (by simp)
        (reader.scan_cons_error first rest)
    · obtain ⟨rfl, still⟩ := reader.push_one first
      cases item with
      | some item =>
        refine .item 1 next item Nat.one_pos (by simp) still ?_
        rw [List.take_succ_cons, reader.scan_cons_ok first]
        simp [scan]
      | none =>
        have later := induction still
        simp only [proceed]
        generalize reader.push next rest = result at later ⊢
        cases later with
        | all last ready scanned =>
          rw [advance, Nat.add_comm]
          refine .all last ready ?_
          rw [reader.scan_cons_ok first, scanned]
          rfl
        | item count last item positive fits ready scanned =>
          rw [advance, Nat.add_comm]
          refine .item (count + 1) last item (Nat.succ_pos count) (Nat.succ_le_succ fits) ready ?_
          rw [List.take_succ_cons, reader.scan_cons_ok first, scanned]
          rfl
        | failed last position error positive fits scanned =>
          rw [advance]
          refine .failed last (1 + position) error (by omega)
            (by rw [List.length_cons]; omega) ?_
          rw [reader.scan_cons_ok first, scanned]
          rfl

theorem scan_push (scanned : reader.scan start taken = ⟨items, state, none⟩)
    (ready : reader.Ready state) (taking : reader.push state input = (next, .ok (count, item))) :
    reader.scan start (taken ++ input.take count) =
      ⟨items ++ item.toList, next, none⟩ ∧ reader.Ready next := by
  have pushed := reader.pushed ready input
  rw [taking] at pushed
  rw [scan_append, scanned]
  cases pushed with
  | all _ still more =>
    rw [List.take_length]
    exact ⟨by simp [Fed.next, more], still⟩
  | item _ _ item _ _ still more => exact ⟨by simp [Fed.next, more], still⟩

theorem items_scan_append (scanned : reader.scan start taken = ⟨items, state, none⟩)
    (rest : List Symbol) :
    (reader.scan start (taken ++ rest)).items = items ++ (reader.scan state rest).items := by
  rw [scan_append, scanned]
  rfl

theorem items_scan_failed (scanned : reader.scan start taken = ⟨items, state, none⟩)
    (ready : reader.Ready state) (failing : reader.push state input = (next, .error error))
    (rest : List Symbol) :
    (reader.scan start (taken ++ (input ++ rest))).items = items := by
  have pushed := reader.pushed ready input
  rw [failing] at pushed
  cases pushed with
  | failed _ _ _ _ _ last =>
    rw [reader.items_scan_append scanned, scan_append, last]
    exact List.append_nil items

theorem positive_of_push (taken : reader.push state (symbol :: rest) = (next, .ok (count, item))) :
    0 < count := by
  rw [reader.push_cons] at taken
  rcases first : reader.push state [symbol] with ⟨middle, error | ⟨one, found⟩⟩
  · simp [first, proceed] at taken
  · obtain ⟨rfl, _⟩ := reader.push_one first
    rw [first] at taken
    cases found with
    | some found =>
      simp only [proceed, Prod.mk.injEq, Except.ok.injEq] at taken
      omega
    | none =>
      rcases later : reader.push middle rest with ⟨_, error | ⟨more, _⟩⟩
      · simp [proceed, later, advance] at taken
      · simp only [proceed, later, advance, Prod.mk.injEq, Except.ok.injEq] at taken
        omega

def feedPiece (state : State) (piece : List Symbol) : Fed State Item (Within Error) :=
  match _taken : reader.push state piece with
  | (next, .error error) => ⟨[], next, some (0, piece.length, error)⟩
  | (next, .ok (count, item)) =>
    if _left : count < piece.length then
      Fed.next ⟨item.toList, next, none⟩ (Within.shift count) fun next =>
        feedPiece next (piece.drop count)
    else ⟨item.toList, next, none⟩
termination_by piece.length
decreasing_by
  cases piece with
  | nil => simp at _left
  | cons symbol rest =>
    have positive := reader.positive_of_push _taken
    simp only [List.length_drop]
    omega

def feed (state : State) : List (List Symbol) → Fed State Item (Within Error)
  | [] => ⟨[], state, none⟩
  | piece :: pieces =>
    (reader.feedPiece state piece).next (Within.shift piece.length) fun next => feed next pieces

inductive Agrees : Fed State Item (Within Error) → Fed State Item (At Error) → Prop
  | done (items : List Item) (state : State) : Agrees ⟨items, state, none⟩ ⟨items, state, none⟩
  | failed (items : List Item) (state : State) (start stop position : Nat)
      (error : Error) (after : start < position) (within : position ≤ stop) :
      Agrees ⟨items, state, some (start, stop, error)⟩ ⟨items, state, some (position, error)⟩

theorem Agrees.next {scanned : Fed State Item (At Error)} (agrees : Agrees fed scanned)
    (later : fed.failure = none → Agrees (rest fed.state) (others fed.state)) (before : Nat) :
    Agrees (fed.next (Within.shift before) rest) (scanned.next (At.shift before) others) := by
  cases agrees with
  | done items state =>
    have same := later rfl
    simp only [Fed.next] at same ⊢
    generalize rest state = fed at same ⊢
    generalize others state = scanned at same ⊢
    cases same with
    | done more last => exact .done _ _
    | failed more last start stop position error after within =>
      exact .failed _ _ _ _ _ _ (Nat.add_lt_add_left after before)
        (Nat.add_le_add_left within before)
  | failed items state start stop position error after within =>
    exact .failed items state start stop position error after within

theorem ready_scan (ready : reader.Ready state) (done : (reader.scan state input).failure = none) :
    reader.Ready (reader.scan state input).state := by
  induction input generalizing state with
  | nil => exact ready
  | cons symbol rest induction =>
    rcases first : reader.push state [symbol] with
      ⟨next, error | ⟨count, item⟩⟩
    · rw [reader.scan_cons_error first] at done
      simp at done
    · rw [reader.scan_cons_ok first, Option.map_eq_none_iff] at done
      rw [reader.scan_cons_ok first]
      exact induction (reader.push_one first).2 done

theorem feedPiece_agrees (ready : reader.Ready state) (piece : List Symbol) :
    Agrees (reader.feedPiece state piece) (reader.scan state piece) := by
  induction length : piece.length using Nat.strongRecOn generalizing state piece with
  | ind size induction =>
    subst size
    have pushed := reader.pushed ready piece
    rw [feedPiece]
    split
    · rename_i next error taken
      rw [taken] at pushed
      cases pushed with
      | failed _ position _ positive fits scanned =>
        rw [scanned]
        exact .failed [] next 0 piece.length position error positive fits
    · rename_i next count item taken
      rw [taken] at pushed
      split
      · rename_i left
        cases pushed with
        | all => exact absurd left (Nat.lt_irrefl _)
        | item _ _ item positive fits ready scanned =>
          have whole := reader.scan_append state (piece.take count) (piece.drop count)
          rw [List.take_append_drop, scanned, List.length_take, Nat.min_eq_left fits] at whole
          rw [whole]
          refine (Agrees.done [item] next).next (fun _ => ?_) count
          apply induction (piece.drop count).length _ ready _ rfl
          rw [List.length_drop]
          omega
      · rename_i exhausted
        cases pushed with
        | all _ _ scanned =>
          rw [scanned]
          exact .done [] next
        | item _ _ item positive fits ready scanned =>
          rw [List.take_of_length_le (Nat.le_of_not_lt exhausted)] at scanned
          rw [scanned]
          exact .done [item] next

theorem feed_agrees (ready : reader.Ready state) (pieces : List (List Symbol)) :
    Agrees (reader.feed state pieces) (reader.scan state pieces.flatten) := by
  induction pieces generalizing state with
  | nil => exact .done [] state
  | cons piece pieces induction =>
    have first := reader.feedPiece_agrees ready piece
    rw [List.flatten_cons, reader.scan_append, feed]
    refine first.next (fun done => ?_) piece.length
    apply induction
    have same : (reader.feedPiece state piece).state = (reader.scan state piece).state ∧
        (reader.scan state piece).failure = none := by
      generalize reader.feedPiece state piece = fed at first done ⊢
      generalize reader.scan state piece = scanned at first ⊢
      cases first with
      | done => exact ⟨rfl, rfl⟩
      | failed => simp at done
    rw [same.1]
    exact reader.ready_scan ready same.2

end Reader

end Nvx.Data
