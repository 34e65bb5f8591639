import Mathlib.Algebra.Order.BigOperators.Ring.Finset
import Nvx.Exec.Basic

namespace Nvx.Exec

open Nvx.Data

/-- `overflowed` marks that an addition or subtraction left its word, at which
a build with overflow checks panics. -/
structure Credit where
  window : Window
  available : Nat
  overflowed : Bool

namespace Credit

variable {credit : Credit}

def new (window : Window) : Credit where
  window := window
  available := 0
  overflowed := false

def grant (credit : Credit) (units : Nat) : Except Violation Credit :=
  if units = 0 ∨ credit.window.size.toNat < credit.available + units then
    .error .credit
  else
    let sum := overflowingAdd 32 credit.available units
    .ok { credit with
      available := sum.1
      overflowed := credit.overflowed || sum.2 }

def sendable (credit : Credit) (length : Nat) : Nat :=
  match credit.window.unit with
  | .bytes => min length credit.available
  | .frames => if 0 < credit.available then length else 0

def spend (credit : Credit) (length : Nat) : Credit :=
  let rest := overflowingSub 32 credit.available (credit.window.cost length)
  { credit with
    available := rest.1
    overflowed := credit.overflowed || rest.2 }

theorem grant_of_le {units : Nat} (positive : 0 < units)
    (fits : credit.available + units ≤ credit.window.size.toNat) :
    credit.grant units = .ok { credit with available := credit.available + units } := by
  have inWord : credit.available + units < wordSize 32 :=
    Nat.lt_of_le_of_lt fits credit.window.size_lt
  have accepted : ¬ (units = 0 ∨ credit.window.size.toNat < credit.available + units) := by omega
  simp [grant, accepted, overflowingAdd_of_lt inWord]

theorem grant_ok {units : Nat} (accepted : credit.grant units = .ok granted) :
    0 < units ∧ credit.available + units ≤ credit.window.size.toNat ∧
      granted = { credit with available := credit.available + units } := by
  have fits : ¬ (units = 0 ∨ credit.window.size.toNat < credit.available + units) := by
    intro refused
    simp [grant, refused] at accepted
  have positive : 0 < units := by omega
  have bounded : credit.available + units ≤ credit.window.size.toNat := by omega
  rw [grant_of_le positive bounded] at accepted
  exact ⟨positive, bounded, (Except.ok.inj accepted).symm⟩

theorem sendable_le (credit : Credit) (length : Nat) : credit.sendable length ≤ length := by
  unfold sendable
  split
  · exact Nat.min_le_left _ _
  · split <;> omega

theorem cost_sendable_le (positive : 0 < credit.sendable length) :
    credit.window.cost (credit.sendable length) ≤ credit.available := by
  unfold sendable at positive ⊢
  unfold Window.cost
  cases kind : credit.window.unit with
  | bytes =>
    simp only [units]
    omega
  | frames =>
    simp only [kind] at positive ⊢
    split at positive <;> omega

theorem spend_of_le (fits : credit.window.cost length ≤ credit.available) : credit.spend length =
      { credit with
        available := credit.available - credit.window.cost length } := by
  simp [spend, overflowingSub_of_le fits]

theorem sendable_pos (positive : 0 < length) (granted : 0 < credit.available) :
    0 < credit.sendable length := by
  unfold sendable
  split
  · omega
  · simp [granted, positive]

structure Sound (credit : Credit) (window : Window) : Prop where
  window_eq : credit.window = window
  bounded : credit.available ≤ window.size.toNat
  inRange : credit.overflowed = false

theorem Sound.new (window : Window) : (Credit.new window).Sound window where
  window_eq := rfl
  bounded := Nat.zero_le _
  inRange := rfl

theorem Sound.grant {window : Window} {units : Nat} (sound : credit.Sound window)
    (accepted : credit.grant units = .ok granted) : granted.Sound window := by
  obtain ⟨_, fits, rfl⟩ := grant_ok accepted
  exact ⟨sound.window_eq, by simpa [sound.window_eq] using fits, sound.inRange⟩

theorem Sound.spend {window : Window} (sound : credit.Sound window)
    (affordable : credit.window.cost length ≤ credit.available) :
    (credit.spend length).Sound window := by
  rw [spend_of_le affordable]
  have bounded := sound.bounded
  exact ⟨sound.window_eq, by simp only; omega, sound.inRange⟩

end Credit

structure Granted where
  window : Window
  opened : Nat
  returnable : Nat
  overflowed : Bool

namespace Granted

variable {granted : Granted}

def new (window : Window) : Granted where
  window := window
  opened := 0
  returnable := window.size.toNat
  overflowed := false

def charge (granted : Granted) (length : Nat) : Except Violation Granted :=
  let cost := granted.window.cost length
  if granted.opened < cost then .error .window
  else
    let rest := overflowingSub 32 granted.opened cost
    .ok { granted with
      opened := rest.1
      overflowed := granted.overflowed || rest.2 }

def free (granted : Granted) (units : Nat) : Granted :=
  let sum := overflowingAdd 32 granted.returnable units
  { granted with
    returnable := sum.1
    overflowed := granted.overflowed || sum.2 }

def takeGrant (granted : Granted) : Granted × Option Nat :=
  let units := granted.returnable
  let sum := overflowingAdd 32 granted.opened units
  ({ granted with
      opened := sum.1
      returnable := 0
      overflowed := granted.overflowed || sum.2 },
    if 0 < units then some units else none)

theorem charge_of_le (fits : granted.window.cost length ≤ granted.opened) : granted.charge length =
      .ok { granted with
        opened := granted.opened - granted.window.cost length } := by
  simp [charge, overflowingSub_of_le fits, Nat.not_lt.mpr fits]

theorem charge_ok (accepted : granted.charge length = .ok charged) :
    granted.window.cost length ≤ granted.opened ∧
      charged = { granted with
        opened := granted.opened - granted.window.cost length } := by
  have fits : granted.window.cost length ≤ granted.opened := by
    by_contra refused
    simp [charge, Nat.not_le.mp refused] at accepted
  rw [charge_of_le fits] at accepted
  exact ⟨fits, (Except.ok.inj accepted).symm⟩

theorem takeGrant_of_zero (small : granted.opened < wordSize 32) (zero : granted.returnable = 0) :
    granted.takeGrant = (granted, none) := by
  have inWord : granted.opened + 0 < wordSize 32 := small
  cases granted
  simp only at small zero
  subst zero
  simp [takeGrant, overflowingAdd_of_lt inWord]

/-- The window never holds more than its units: those open, those to grant
again, and the `held` ones that the consumer has not taken. -/
structure Sound (granted : Granted) (held : Nat) : Prop where
  bounded : granted.opened + granted.returnable + held ≤ granted.window.size.toNat
  inRange : granted.overflowed = false

theorem Sound.free_eq {units : Nat} (sound : granted.Sound (held + units)) : granted.free units =
      { granted with returnable := granted.returnable + units } := by
  have bounded := sound.bounded
  have small := granted.window.size_lt
  have inWord : granted.returnable + units < wordSize 32 := by omega
  simp [free, overflowingAdd_of_lt inWord]

theorem Sound.takeGrant_eq (sound : granted.Sound held) : granted.takeGrant =
      ({ granted with
          opened := granted.opened + granted.returnable
          returnable := 0 },
        if 0 < granted.returnable then some granted.returnable else none) := by
  have bounded := sound.bounded
  have small := granted.window.size_lt
  have inWord : granted.opened + granted.returnable < wordSize 32 := by omega
  simp [takeGrant, overflowingAdd_of_lt inWord]

theorem Sound.new (window : Window) : (Granted.new window).Sound 0 where
  bounded := by simp [Granted.new]
  inRange := rfl

theorem Sound.charge (sound : granted.Sound held) (accepted : granted.charge length = .ok charged) :
    charged.Sound (held + granted.window.cost length) := by
  obtain ⟨fits, rfl⟩ := charge_ok accepted
  have bounded := sound.bounded
  exact ⟨by simp only; omega, sound.inRange⟩

theorem Sound.free {units : Nat} (sound : granted.Sound (held + units)) :
    (granted.free units).Sound held := by
  rw [sound.free_eq]
  have bounded := sound.bounded
  exact ⟨by simp only; omega, sound.inRange⟩

theorem Sound.takeGrant (sound : granted.Sound held) :
    granted.takeGrant.1.Sound held := by
  rw [sound.takeGrant_eq]
  have bounded := sound.bounded
  exact ⟨by simp only; omega, sound.inRange⟩

theorem Sound.mono {fewer : Nat} (sound : granted.Sound held)
    (le : fewer ≤ held) : granted.Sound fewer where
  bounded := Nat.le_trans (by omega) sound.bounded
  inRange := sound.inRange

end Granted

structure Inbox where
  unit : CreditUnit
  bytes : List UInt8
  frames : List Nat
  overflowed : Bool

/-- What the loop of `Inbox::pop` leaves: the frames, the count of those that
it removed, and whether its arithmetic left its word. -/
structure PoppedFrames where
  frames : List Nat
  freed : Nat
  overflowed : Bool

def popFrames (left freed : Nat) : List Nat → PoppedFrames
  | [] => ⟨[], freed, false⟩
  | frame :: frames =>
    if left = 0 then ⟨frame :: frames, freed, false⟩
    else
      let taken := min left frame
      let kept := overflowingSub 64 frame taken
      let rest := overflowingSub 64 left taken
      if kept.1 = 0 then
        let count := overflowingAdd 32 freed 1
        let popped := popFrames rest.1 count.1 frames
        { popped with
          overflowed := kept.2 || rest.2 || count.2 || popped.overflowed }
      else
        -- A frame that keeps bytes took all that was left: the loop ends.
        ⟨kept.1 :: frames, freed, kept.2 || rest.2⟩

namespace Inbox

def new (unit : CreditUnit) : Inbox where
  unit := unit
  bytes := []
  frames := []
  overflowed := false

def push (inbox : Inbox) (bytes : List UInt8) : Inbox :=
  { inbox with
    bytes := inbox.bytes ++ bytes
    frames :=
      if inbox.unit = .frames then inbox.frames ++ [bytes.length]
      else inbox.frames }

/-- The slices that `front` may return: a ring buffer's contiguous start, which
is empty only if the inbox is. -/
def Front (inbox : Inbox) (slice : List UInt8) : Prop :=
  slice <+: inbox.bytes ∧ (slice = [] → inbox.bytes = [])

def pop (inbox : Inbox) (count : Nat) : Inbox × Nat :=
  let count := min count inbox.bytes.length
  match inbox.unit with
  | .bytes => ({ inbox with bytes := inbox.bytes.drop count }, units count)
  | .frames =>
    let popped := popFrames count 0 inbox.frames
    ({ inbox with
        bytes := inbox.bytes.drop count
        frames := popped.frames
        overflowed := inbox.overflowed || popped.overflowed },
      popped.freed)

/-- The inbox without its bytes, how many it held, and the units that frees. -/
def clear (inbox : Inbox) : Inbox × Nat × Nat :=
  let length := inbox.bytes.length
  let popped := inbox.pop length
  ({ popped.1 with bytes := [] }, length, popped.2)

def held (inbox : Inbox) : Nat :=
  match inbox.unit with
  | .bytes => inbox.bytes.length
  | .frames => inbox.frames.length

/-- The frames partition the bytes into nonempty messages of at most a chunk. -/
structure Sound (inbox : Inbox) (chunk : Nat) : Prop where
  partitioned : inbox.unit = .frames → inbox.frames.sum = inbox.bytes.length
  framed : ∀ frame ∈ inbox.frames, 0 < frame ∧ frame ≤ chunk
  inRange : inbox.overflowed = false

end Inbox

/-- The loop removes exactly `left` bytes, and counts each frame it empties. -/
theorem popFrames_spec (frames : List Nat) (left freed : Nat)
    (framed : ∀ frame ∈ frames, 0 < frame ∧ frame ≤ chunk) (available : left ≤ frames.sum)
    (countable : freed + frames.length < wordSize 32) :
    (popFrames left freed frames).overflowed = false ∧
      (popFrames left freed frames).frames.sum + left = frames.sum ∧
      (popFrames left freed frames).frames.length +
        (popFrames left freed frames).freed = frames.length + freed ∧
      ∀ frame ∈ (popFrames left freed frames).frames, 0 < frame ∧ frame ≤ chunk := by
  induction frames generalizing left freed with
  | nil =>
    have : left = 0 := by simpa using available
    simp [popFrames, this]
  | cons frame frames induction =>
    obtain ⟨positive, small⟩ := framed frame (by simp)
    have framedTail : ∀ other ∈ frames, 0 < other ∧ other ≤ chunk :=
      fun other member => framed other (by simp [member])
    simp only [List.sum_cons, List.length_cons] at available countable ⊢
    unfold popFrames
    by_cases none : left = 0
    · subst none
      simpa using framed
    · rw [if_neg none]
      have keptEq : overflowingSub 64 frame (min left frame) = (frame - min left frame, false) :=
        overflowingSub_of_le (Nat.min_le_right _ _)
      have restEq : overflowingSub 64 left (min left frame) = (left - min left frame, false) :=
        overflowingSub_of_le (Nat.min_le_left _ _)
      simp only [keptEq, restEq]
      by_cases emptied : frame - min left frame = 0
      · have countEq : overflowingAdd 32 freed 1 = (freed + 1, false) :=
          overflowingAdd_of_lt (by omega)
        simp only [if_pos emptied, countEq, Bool.false_or]
        obtain ⟨exact, summed, counted, framedRest⟩ :=
          induction (left - min left frame) (freed + 1) framedTail (by omega) (by omega)
        exact ⟨exact, by omega, by omega, framedRest⟩
      · simp only [if_neg emptied, Bool.or_self, List.sum_cons,
          List.length_cons, List.mem_cons, true_and]
        refine ⟨by omega, ?_⟩
        rintro other (rfl | member)
        · omega
        · exact framedTail other member

namespace Inbox

variable {inbox : Inbox}

@[simp] theorem push_unit (inbox : Inbox) (bytes : List UInt8) :
    (inbox.push bytes).unit = inbox.unit := rfl

@[simp] theorem pop_bytes (inbox : Inbox) (count : Nat) :
    (inbox.pop count).1.bytes = inbox.bytes.drop count := by
  have dropped : inbox.bytes.drop (min count inbox.bytes.length) =
      inbox.bytes.drop count := by
    rcases Nat.le_total count inbox.bytes.length with le | ge
    · rw [Nat.min_eq_left le]
    · rw [Nat.min_eq_right ge, List.drop_length, List.drop_eq_nil_of_le ge]
  unfold pop
  split <;> exact dropped

@[simp] theorem pop_unit (inbox : Inbox) (count : Nat) : (inbox.pop count).1.unit = inbox.unit := by
  unfold pop
  split <;> rfl

@[simp] theorem clear_unit (inbox : Inbox) : inbox.clear.1.unit = inbox.unit :=
  inbox.pop_unit _

theorem Sound.new (unit : CreditUnit) (chunk : Nat) : (Inbox.new unit).Sound chunk := by
  constructor <;> simp [Inbox.new]

theorem held_new (unit : CreditUnit) : (Inbox.new unit).held = 0 := by
  cases unit <;> rfl

theorem Sound.push {chunk : Nat} {bytes : List UInt8}
    (sound : inbox.Sound chunk) (positive : 0 < bytes.length)
    (small : bytes.length ≤ chunk) : (inbox.push bytes).Sound chunk where
  partitioned := by
    intro frames
    have unitFrames : inbox.unit = .frames := frames
    simp [Inbox.push, unitFrames, sound.partitioned unitFrames]
  framed := by
    intro frame member
    simp only [Inbox.push] at member
    split at member
    · rw [List.mem_append, List.mem_singleton] at member
      rcases member with member | rfl
      · exact sound.framed frame member
      · exact ⟨positive, small⟩
    · exact sound.framed frame member
  inRange := sound.inRange

theorem held_push {window : Window} {bytes : List UInt8}
    (same : inbox.unit = window.unit) (small : bytes.length < wordSize 32) :
    (inbox.push bytes).held = inbox.held + window.cost bytes.length := by
  unfold held Window.cost
  rw [push_unit, same]
  cases kind : window.unit with
  | bytes =>
    simp only [push, List.length_append, units]
    omega
  | frames => simp [Inbox.push, same, kind]

theorem Sound.pop (sound : inbox.Sound chunk) (countable : inbox.held < wordSize 32) (count : Nat) :
    (inbox.pop count).1.Sound chunk ∧
      (inbox.pop count).1.held + (inbox.pop count).2 = inbox.held := by
  unfold held at countable ⊢
  rw [pop_unit]
  unfold Inbox.pop
  cases kind : inbox.unit with
  | bytes =>
    simp only [kind] at countable ⊢
    refine ⟨⟨by simp, sound.framed, sound.inRange⟩, ?_⟩
    simp only [List.length_drop, units]
    omega
  | frames =>
    simp only [kind] at countable ⊢
    have summed := sound.partitioned kind
    obtain ⟨inRange, rest, counted, framed⟩ :=
      popFrames_spec inbox.frames (min count inbox.bytes.length) 0 sound.framed
        (by omega) (by omega)
    refine ⟨⟨?_, framed, ?_⟩, by omega⟩
    · intro _
      simp only [List.length_drop]
      omega
    · simp [sound.inRange, inRange]

theorem Sound.bytes_eq_nil_iff (sound : inbox.Sound chunk) : inbox.held = 0 ↔ inbox.bytes = [] := by
  unfold held
  cases kind : inbox.unit with
  | bytes => simp
  | frames =>
    have summed := sound.partitioned kind
    constructor
    · intro empty
      have nil : inbox.frames = [] := List.eq_nil_of_length_eq_zero empty
      rw [nil, List.sum_nil] at summed
      exact List.eq_nil_of_length_eq_zero summed.symm
    · intro empty
      rw [empty, List.length_nil] at summed
      cases frames : inbox.frames with
      | nil => rfl
      | cons frame rest =>
        have positive := (sound.framed frame (by simp [frames])).1
        rw [frames, List.sum_cons] at summed
        omega

theorem Sound.clear (sound : inbox.Sound chunk) (countable : inbox.held < wordSize 32) :
    inbox.clear.1.Sound chunk ∧ inbox.clear.1.held = 0 ∧ inbox.clear.2.2 = inbox.held := by
  obtain ⟨popped, freed⟩ := sound.pop countable inbox.bytes.length
  have same : inbox.clear.1 = (inbox.pop inbox.bytes.length).1 := by
    have nil : (inbox.pop inbox.bytes.length).1.bytes = [] := by simp
    simp only [Inbox.clear, ← nil]
  have empty : (inbox.pop inbox.bytes.length).1.held = 0 := by
    rw [popped.bytes_eq_nil_iff]
    simp
  rw [same]
  refine ⟨popped, empty, ?_⟩
  rw [empty, Nat.zero_add] at freed
  exact freed

theorem Sound.length_le (sound : inbox.Sound chunk) : inbox.bytes.length ≤
      match inbox.unit with
      | .bytes => inbox.held
      | .frames => inbox.held * chunk := by
  unfold held
  cases kind : inbox.unit with
  | bytes => simp
  | frames =>
    simp only
    rw [← sound.partitioned kind]
    exact List.sum_le_card_nsmul _ _ (fun frame member => (sound.framed frame member).2)

end Inbox

/-- Moves the first bytes of `queue` to a buffer of `capacity` bytes, at most
`length` of them: the bytes moved, and those left. -/
def take (queue : List UInt8) (capacity length : Nat) : List UInt8 × List UInt8 :=
  let length := min (min length capacity) queue.length
  (queue.take length, queue.drop length)

theorem take_of_le (buffer : length ≤ capacity) (queued : length ≤ queue.length) :
    take queue capacity length = (queue.take length, queue.drop length) := by
  simp [take, Nat.min_eq_left buffer, Nat.min_eq_left queued]

end Nvx.Exec
