import Nvx.Exec.PeerLifecycle

namespace Nvx.Exec.Peer

open Nvx.Data

/-! What no call of a run takes back. -/

structure Later (peer next : Peer) : Prop where
  key : next.key = peer.key
  limits : next.limits = peer.limits
  timers : next.timers = peer.timers
  terminal : peer.terminal.isSome = true → next.terminal = peer.terminal
  terminatedAt : peer.terminatedAt.isSome = true →
    next.terminatedAt = peer.terminatedAt
  cause : peer.terminatedAt.isSome = true → next.cause = peer.cause
  gaveUp : peer.gaveUp = true → next.gaveUp = true
  detached : peer.detached = true → next.detached = true
  finished : peer.finished = true → next.finished = true
  inputClosed : peer.input.closed = true → next.input.closed = true
  inputEnded : peer.input.ended = true → next.input.ended = true
  endSent : peer.input.endSent = true → next.input.endSent = true

namespace Later

variable {peer next third : Peer}

theorem refl (peer : Peer) : peer.Later peer where
  key := rfl
  limits := rfl
  timers := rfl
  terminal := fun _ => rfl
  terminatedAt := fun _ => rfl
  cause := fun _ => rfl
  gaveUp := id
  detached := id
  finished := id
  inputClosed := id
  inputEnded := id
  endSent := id

theorem trans (first : peer.Later next) (second : next.Later third) : peer.Later third where
  key := second.key.trans first.key
  limits := second.limits.trans first.limits
  timers := second.timers.trans first.timers
  terminal := fun isSome => by
    have same := first.terminal isSome
    rw [← same] at isSome
    exact (second.terminal isSome).trans same
  terminatedAt := fun isSome => by
    have same := first.terminatedAt isSome
    rw [← same] at isSome
    exact (second.terminatedAt isSome).trans same
  cause := fun isSome => by
    have same := first.terminatedAt isSome
    have cause := first.cause isSome
    rw [← same] at isSome
    exact (second.cause isSome).trans cause
  gaveUp := second.gaveUp ∘ first.gaveUp
  detached := second.detached ∘ first.detached
  finished := second.finished ∘ first.finished
  inputClosed := second.inputClosed ∘ first.inputClosed
  inputEnded := second.inputEnded ∘ first.inputEnded
  endSent := second.endSent ∘ first.endSent

theorem change (change : Change peer next) : peer.Later next := by
  have same := refl peer
  have notYet {holds : Prop} (first : peer.terminatedAt = none)
      (isSome : peer.terminatedAt.isSome = true) : holds := by
    simp [first] at isSome
  cases change with
  | closeInput stillOpen => exact { same with inputClosed := fun _ => rfl }
  | terminate now cause first unfinished closed =>
    exact { same with terminatedAt := notYet first, cause := notYet first }
  | outlive now outcome first ended caused unfinished closed =>
    exact { same with terminatedAt := notYet first }
  | endGrace ending unfinished =>
    rw [endGrace_eq]
    exact { same with }
  | giveUp waiting unfinished silent =>
    exact { same with gaveUp := fun _ => rfl }
  | leaveRunner ending unfinished =>
    exact { same with detached := fun _ => rfl }
  | stopTimeout => exact { same with }

theorem tells (tells : Tells peer next event) :
    peer.Later next := by
  have same := refl peer
  cases tells with
  | finished outcome ended unfinished =>
    exact { same with finished := fun _ => rfl }
  | nothing quiet => exact same
  | _ => exact { same with }

theorem emits (emits : Emits peer capacity next message) : peer.Later next := by
  have same := refl peer
  cases emits with
  | inputEnd turn speaks stillOpen ended empty first =>
    exact { same with endSent := fun _ => rfl }
  | nothing quiet => exact same
  | _ => exact { same with }

theorem kept (start : Peer) : Kept start.Later where
  change := fun step _ later => later.trans (change step)
  takeInput := fun _ _ _ later => later.trans { refl _ with }
  endInput := fun _ _ _ later =>
    later.trans { refl _ with inputEnded := fun _ => rfl }
  consumed := fun _ _ _ _ later => later.trans { refl _ with }
  tells := fun step _ later => later.trans (tells step)
  grant := fun _ _ _ later => later.trans { refl _ with }
  started := fun _ _ _ _ later => later.trans { refl _ with }
  charge := fun _ _ _ _ _ later => later.trans (by
    split <;> exact { refl _ with })
  endOutput := fun _ _ _ _ later => later.trans { refl _ with }
  terminal := fun _ _ first _ _ _ later => later.trans { refl _ with
    terminal := fun isSome => by simp [first] at isSome }
  emits := fun step _ later => later.trans (emits step)

end Later

theorem Consistent.later (consistent : Consistent peer)
    (call : Call) : peer.Later (peer.step call).1 :=
  (Later.kept peer).step consistent.sound.opened_lt call (.refl peer)

theorem Consistent.later_after (consistent : Consistent peer)
    (calls : List Call) : peer.Later (machine.after peer calls) :=
  ((Later.kept peer).mono fun _ => trivial).after consistent (.refl peer) calls

end Nvx.Exec.Peer
