import Nvx.Exec.PeerChange
import Nvx.Exec.RunnerChange

namespace Nvx.Exec

/-! What refused and stale messages leave behind. -/

def Refuses (result : Except Violation Receipt) : Prop :=
  (∃ violation, result = .error violation) ∨ result = .ok .stale

/-- A result that leaves the state as it is, if it refuses the message. -/
def Inert {State : Type} (state : State) (result : State × Except Violation Receipt) : Prop :=
  Refuses result.2 → result.1 = state

namespace Inert

variable {State : Type} {state next : State}

@[simp] theorem same (result : Except Violation Receipt) : Inert state (state, result) :=
  fun _ => rfl

@[simp] theorem applied : Inert state (next, .ok .applied) := by
  rintro (⟨_, refused⟩ | stale)
  · cases refused
  · cases stale

@[simp] theorem late : Inert state (next, .ok .late) := by
  rintro (⟨_, refused⟩ | stale)
  · cases refused
  · cases stale

@[simp] theorem ite {holds : Prop} [Decidable holds] (first : Inert state one)
    (second : Inert state two) : Inert state (if holds then one else two) := by
  split
  · exact first
  · exact second

theorem receive (handles : Inert state handle) (own message : Key) :
    Inert state (own.receive message state handle) := by
  unfold Key.receive
  split
  · exact same _
  · exact same _
  · exact handles

theorem split (inert : Inert state result) : (result.2 = .ok .stale → result.1 = state) ∧
      ∀ violation, result.2 = .error violation → result.1 = state :=
  ⟨fun stale => inert (.inr stale), fun violation refused => inert (.inl ⟨violation, refused⟩)⟩

end Inert

namespace Runner

theorem inert_credit (runner : Runner) (key : Key) (pool : Pool)
    (units : Nat) : Inert runner (runner.credit key pool units) := by
  apply Inert.receive
  repeat' split
  all_goals simp

theorem inert_receiveInput (runner : Runner) (key : Key)
    (bytes : List UInt8) : Inert runner (runner.receiveInput key bytes) := by
  apply Inert.receive
  repeat' split
  all_goals simp

theorem inert_endInput (runner : Runner) (key : Key) : Inert runner (runner.endInput key) := by
  apply Inert.receive
  repeat' split
  all_goals simp

theorem inert_cancel (runner : Runner) (now : Instant) (key : Key)
    (cause : Cause) : Inert runner (runner.cancel now key cause) := by
  apply Inert.receive
  simp

theorem inert_receive (runner : Runner) (now : Instant) (key : Key)
    (message : Peer.Message) : Inert runner (runner.receive now key message) := by
  cases message with
  | cancel cause => exact runner.inert_cancel now key cause
  | credit pool units => exact runner.inert_credit key pool units
  | input bytes => exact runner.inert_receiveInput key bytes
  | inputEnd => exact runner.inert_endInput key

end Runner

namespace Peer

theorem inert_receiveCredit (peer : Peer) (key : Key) (units : Nat) :
    Inert peer (peer.receiveCredit key units) := by
  apply Inert.receive
  repeat' split
  all_goals simp

theorem inert_receiveStarted (peer : Peer) (key : Key) : Inert peer (peer.receiveStarted key) := by
  apply Inert.receive
  simp

theorem inert_output (peer : Peer) (key : Key) (stream : Stream)
    (bytes : List UInt8) : Inert peer (peer.output key stream bytes) := by
  apply Inert.receive
  repeat' split
  all_goals simp

theorem inert_endOutput (peer : Peer) (key : Key) (stream : Stream) :
    Inert peer (peer.endOutput key stream) := by
  apply Inert.receive
  simp

theorem inert_inputClosed (peer : Peer) (key : Key) : Inert peer (peer.inputClosed key) := by
  apply Inert.receive
  simp

theorem receiveTerminal_refused {peer : Peer} {key : Key} {outcome : Outcome}
    (refused : Refuses (peer.receiveTerminal now key outcome).2) :
    peer.receiveTerminal now key outcome = (peer, .error .key) ∨
    peer.receiveTerminal now key outcome = (peer, .ok .stale) ∨
    ∃ violation, violation ≠ .key ∧ peer.receiveTerminal now key outcome =
        (peer.tick now, .error violation) := by
  have wrongKey (violation : Violation)
      (failed : peer.key.admits key = .error violation) : violation = .key := by
    unfold Key.admits at failed
    split at failed
    · exact (Except.error.inj failed).symm
    · split at failed
      · cases failed
      · split at failed
        · cases failed
        · exact (Except.error.inj failed).symm
  unfold receiveTerminal Key.receive at refused ⊢
  split
  · rename_i violation failed
    rw [wrongKey violation failed]
    exact .inl rfl
  · exact .inr (.inl rfl)
  · rename_i admitted
    rw [admitted] at refused
    dsimp only at refused ⊢
    split at refused
    · exact absurd refused (by simp [Refuses])
    · rename_i listening
      rw [if_neg listening]
      split at refused
      · rename_i again
        exact .inr (.inr ⟨.ended, by decide, if_pos again⟩)
      · rename_i first
        rw [if_neg first]
        split at refused
        · rename_i early
          exact .inr (.inr ⟨.order, by decide, if_pos early⟩)
        · exact absurd refused (by simp [Refuses])

/-- The state in which the peer refuses a message for a violation. -/
def refusing (peer : Peer) (now : Instant) : Runner.Message → Violation → Peer
  | .terminal _, .key => peer
  | .terminal _, _ => peer.tick now
  | _, _ => peer

theorem refusing_terminal {peer : Peer} {outcome : Outcome} (notKey : violation ≠ .key) :
    peer.refusing now (.terminal outcome) violation = peer.tick now := by
  cases violation with
  | key => exact absurd rfl notKey
  | _ => rfl

theorem receive_refused (peer : Peer) (now : Instant) (key : Key) (message : Runner.Message) :
    ((peer.receive now key message).2 = .ok .stale → (peer.receive now key message).1 = peer) ∧
    ∀ violation, (peer.receive now key message).2 = .error violation →
      (peer.receive now key message).1 =
        peer.refusing now message violation := by
  cases message with
  | credit units => exact (peer.inert_receiveCredit key units).split
  | started => exact (peer.inert_receiveStarted key).split
  | output stream bytes => exact (peer.inert_output key stream bytes).split
  | streamEnd stream => exact (peer.inert_endOutput key stream).split
  | inputClosed => exact (peer.inert_inputClosed key).split
  | terminal outcome =>
    simp only [receive]
    constructor
    · intro stale
      rcases receiveTerminal_refused (.inr stale) with
        same | same | ⟨violation, _, same⟩
      · rw [same]
      · rw [same]
      · rw [same] at stale
        cases stale
    · intro violation refused
      rcases receiveTerminal_refused (.inl ⟨violation, refused⟩) with
        same | same | ⟨other, notKey, same⟩
      · rw [same] at refused ⊢
        cases refused
        rfl
      · rw [same] at refused
        cases refused
      · rw [same] at refused ⊢
        cases refused
        exact (refusing_terminal notKey).symm

end Peer

/-- A message that is refused or stale changes nothing, except that a terminal
outcome refused for its order, not for its key, moves the peer's clock. -/
theorem refused_messages_are_inert :
    (∀ (runner : Runner) (now : Instant) (key : Key) (message : Peer.Message),
      Refuses (runner.receive now key message).2 → (runner.receive now key message).1 = runner) ∧
    ∀ (peer : Peer) (now : Instant) (key : Key) (message : Runner.Message),
      ((peer.receive now key message).2 = .ok .stale → (peer.receive now key message).1 = peer) ∧
      ∀ violation, (peer.receive now key message).2 = .error violation →
        (peer.receive now key message).1 =
          peer.refusing now message violation :=
  ⟨Runner.inert_receive, Peer.receive_refused⟩

/-- A terminal outcome of another execution leaves a timeout pending that the
clock would end. -/
theorem misaddressed_outcome_does_not_tick :
    let peer := Peer.new ⟨0, 0⟩ .smallest ⟨some 1, 0, 0⟩ 0
    let result := peer.receive 1 ⟨1, 0⟩ (.terminal (Outcome.new none))
    result.2 = .error .key ∧ result.1 ≠ peer.tick 1 := by
  refine ⟨rfl, fun same => ?_⟩
  have ended : (none : Option Instant) = some 1 :=
    congrArg Peer.terminatedAt same
  cases ended

end Nvx.Exec
