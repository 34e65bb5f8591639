import Nvx.Data.Codec

namespace Nvx.Data

/-! Computations that ask an environment, and go on with what it answers. -/

inductive Dialogue (Question : Type) (Answer : Question → Type) (Value : Type)
    where
  | done (value : Value)
  | ask (question : Question) (next : Answer question → Dialogue Question Answer Value)

namespace Dialogue

variable {Question : Type} {Answer : Question → Type}

protected def bind : Dialogue Question Answer First →
    (First → Dialogue Question Answer Value) → Dialogue Question Answer Value
  | .done value, next => next value
  | .ask question rest, next => .ask question fun answer => (rest answer).bind next

instance : Monad (Dialogue Question Answer) where
  pure := .done
  bind := Dialogue.bind

/-- The questions that a computation asks of an environment that answers a
question always alike, and its value. -/
def run (environment : (question : Question) → Answer question) :
    Dialogue Question Answer Value → List Question × Value
  | .done value => ([], value)
  | .ask question next =>
    let (asked, value) := run environment (next (environment question))
    (question :: asked, value)

variable (environment : (question : Question) → Answer question)

theorem run_bind (first : Dialogue Question Answer First)
    (next : First → Dialogue Question Answer Value) :
    (first >>= next).run environment = ((first.run environment).1 ++
          ((next (first.run environment).2).run environment).1,
        ((next (first.run environment).2).run environment).2) := by
  induction first with
  | done value => rfl
  | ask question rest induction =>
    have later := induction (environment question)
    change run environment (.ask question fun answer => rest answer >>= next) = _
    simp only [run, later]
    rfl

theorem run_congr {environment other : (question : Question) → Answer question}
    {dialogue : Dialogue Question Answer Value}
    (agree : ∀ question ∈ (dialogue.run environment).1, other question = environment question) :
    dialogue.run other = dialogue.run environment := by
  induction dialogue with
  | done value => rfl
  | ask question next induction =>
    simp only [run, List.mem_cons, forall_eq_or_imp] at agree
    simp only [run]
    rw [agree.1, induction (environment question) agree.2]

/-- Whatever the answers, the computation asks only `asks` and returns only
`returns`. -/
def Always (asks : Question → Prop) (returns : Value → Prop) : Dialogue Question Answer Value → Prop
  | .done value => returns value
  | .ask question next =>
    asks question ∧ ∀ answer, Always asks returns (next answer)

namespace Always

variable {returns : Value → Prop}

theorem bind {first : Dialogue Question Answer First} (always : first.Always asks between)
    (later : ∀ value, between value → (next value).Always asks returns) :
    (first >>= next).Always asks returns := by
  induction first with
  | done value => exact later value always
  | ask question rest induction =>
    exact ⟨always.1, fun answer => induction answer (always.2 answer)⟩

theorem mono {dialogue : Dialogue Question Answer Value}
    (always : dialogue.Always asks returns) (weakens : ∀ value, returns value → weaker value) :
    dialogue.Always asks weaker := by
  induction dialogue with
  | done value => exact weakens value always
  | ask question next induction =>
    exact ⟨always.1, fun answer => induction answer (always.2 answer)⟩

end Always

end Dialogue

def Meets (fails : Error → Prop) (returns : Value → Prop) : Except Error Value → Prop
  | .ok value => returns value
  | .error error => fails error

namespace Meets

variable {fails : Error → Prop} {returns : Value → Prop}

theorem bind {between : First → Prop} (meets : Meets fails between first)
    (later : ∀ value, between value → Meets fails returns (next value)) :
    Meets fails returns (first >>= next) := by
  cases first with
  | error error => exact meets
  | ok value => exact later value meets

theorem mono (meets : Meets fails returns result)
    (weakens : ∀ value, returns value → weaker value) :
    Meets fails weaker result := by
  cases result with
  | error error => exact meets
  | ok value => exact weakens value meets

end Meets

/-- A failing computation asks only `asks`, fails only with `fails`, and
returns only `returns`. -/
structure Conducts {Question : Type} {Answer : Question → Type}
    (environment : (question : Question) → Answer question)
    (asks : Question → Prop) (fails : Error → Prop) (returns : Value → Prop)
    (computation : ExceptT Error (Dialogue Question Answer) Value) : Prop where
  asked : ∀ question ∈ (computation.run.run environment).1, asks question
  result : Meets fails returns (computation.run.run environment).2

namespace Conducts

variable {Question : Type} {Answer : Question → Type}
    {environment : (question : Question) → Answer question}
    {fails : Error → Prop} {returns : Value → Prop}

theorem ofExcept {result : Except Error Value} (meets : Meets fails returns result) :
    Conducts environment asks fails returns (ExceptT.mk (pure result)) :=
  ⟨fun _ asked => absurd asked List.not_mem_nil, meets⟩

theorem ask {answer : Answer question → Except Error Value} (allowed : asks question)
    (meets : Meets fails returns (answer (environment question))) :
    Conducts environment asks fails returns
      (ExceptT.mk (.ask question fun reply => .done (answer reply))) :=
  ⟨fun _ asked => List.mem_singleton.mp asked ▸ allowed, meets⟩

theorem bind {between : First → Prop} (conducts : Conducts environment asks fails between first)
    (later : ∀ value, between value → Conducts environment asks fails returns (next value)) :
    Conducts environment asks fails returns (first >>= next) := by
  obtain ⟨asked, result⟩ := conducts
  have whole := Dialogue.run_bind environment first.run (ExceptT.bindCont fun value => next value)
  have rest : Conducts environment asks fails returns
      (ExceptT.mk (ExceptT.bindCont next (first.run.run environment).2)) := by
    cases outcome : (first.run.run environment).2 with
    | error error =>
      rw [outcome] at result
      exact ofExcept result
    | ok value =>
      rw [outcome] at result
      exact later value result
  refine ⟨?_, ?_⟩
  · change ∀ question ∈ (Dialogue.run environment (first.run >>= _)).1, asks question
    rw [whole]
    exact List.forall_mem_append.mpr ⟨asked, rest.asked⟩
  · change Meets fails returns (Dialogue.run environment (first.run >>= _)).2
    rw [whole]
    exact rest.result

end Conducts

end Nvx.Data
