import Nvx.Data.Dialogue
import Nvx.Data.History

namespace Nvx.Data

/-! The transcripts of a dialogue, in which every question may be answered in
every way. -/

abbrev Exchange {Question : Type} (Answer : Question → Type) : Type :=
  (question : Question) × Answer question

namespace Dialogue

variable {Question : Type} {Answer : Question → Type}

/-- The dialogue can exchange `transcript`, and returns `result` then. -/
def Talks : Dialogue Question Answer Value → List (Exchange Answer) → Value → Prop
  | .done value, transcript, result => transcript = [] ∧ result = value
  | .ask question next, transcript, result => ∃ answer rest,
      transcript = ⟨question, answer⟩ :: rest ∧ Talks (next answer) rest result

theorem talks_bind {first : Dialogue Question Answer First} {result : Value} :
    (first >>= next).Talks transcript result ↔ ∃ before value after, transcript = before ++ after ∧
        first.Talks before value ∧ (next value).Talks after result := by
  induction first generalizing transcript with
  | done value =>
    constructor
    · intro talks
      exact ⟨[], value, transcript, rfl, ⟨rfl, rfl⟩, talks⟩
    · rintro ⟨_, _, after, rfl, ⟨rfl, rfl⟩, talks⟩
      exact talks
  | ask question rest induction =>
    constructor
    · rintro ⟨answer, others, rfl, talks⟩
      obtain ⟨before, value, after, rfl, first, later⟩ :=
        (induction answer).mp talks
      exact ⟨⟨question, answer⟩ :: before, value, after, rfl, ⟨answer, before, rfl, first⟩, later⟩
    · rintro ⟨_, value, after, rfl, ⟨answer, before, rfl, first⟩, later⟩
      exact ⟨answer, before ++ after, rfl,
        (induction answer).mpr ⟨before, value, after, rfl, first, later⟩⟩

/-- The transcript when each answer is chosen from the exchanges before it. -/
def transcribe (reply : List (Exchange Answer) → (question : Question) → Answer question) :
    List (Exchange Answer) → Dialogue Question Answer Value → List (Exchange Answer) × Value
  | earlier, .done value => (earlier, value)
  | earlier, .ask question next =>
    let answer := reply earlier question
    transcribe reply (earlier ++ [⟨question, answer⟩]) (next answer)

theorem exists_talks_transcribe
    (reply : List (Exchange Answer) → (question : Question) → Answer question)
    (earlier : List (Exchange Answer)) (dialogue : Dialogue Question Answer Value) :
    ∃ transcript, (dialogue.transcribe reply earlier).1 = earlier ++ transcript ∧
      dialogue.Talks transcript (dialogue.transcribe reply earlier).2 := by
  induction dialogue generalizing earlier with
  | done value => exact ⟨[], (List.append_nil earlier).symm, rfl, rfl⟩
  | ask question next induction =>
    obtain ⟨rest, same, talks⟩ := induction (reply earlier question)
      (earlier ++ [⟨question, reply earlier question⟩])
    exact ⟨_, same.trans (List.append_assoc _ _ _), _, rest, rfl, talks⟩

/-- Whatever the answers, each exchange satisfies `law` after those before it,
and what is returned satisfies `returns`. -/
def Obeys (law : List (Exchange Answer) → Exchange Answer → Prop)
    (returns : List (Exchange Answer) → Value → Prop) :
    List (Exchange Answer) → Dialogue Question Answer Value → Prop
  | earlier, .done value => returns earlier value
  | earlier, .ask question next => ∀ answer, law earlier ⟨question, answer⟩ ∧
      Obeys law returns (earlier ++ [⟨question, answer⟩]) (next answer)

namespace Obeys

theorem bind {first : Dialogue Question Answer First}
    {returns : List (Exchange Answer) → Value → Prop} (obeys : first.Obeys law between earlier)
    (later : ∀ history value, between history value → (next value).Obeys law returns history) :
    (first >>= next).Obeys law returns earlier := by
  induction first generalizing earlier with
  | done value => exact later earlier value obeys
  | ask question rest induction =>
    intro answer
    exact ⟨(obeys answer).1, induction answer (obeys answer).2⟩

theorem mono {dialogue : Dialogue Question Answer Value}
    (obeys : dialogue.Obeys law returns earlier)
    (weakens : ∀ history value, returns history value → weaker history value) :
    dialogue.Obeys law weaker earlier := by
  induction dialogue generalizing earlier with
  | done value => exact weakens earlier value obeys
  | ask question next induction =>
    intro answer
    exact ⟨(obeys answer).1, induction answer (obeys answer).2⟩

theorem grows {dialogue : Dialogue Question Answer Value}
    (obeys : dialogue.Obeys law returns earlier) :
    dialogue.Obeys law (fun history value =>
      earlier <+: history ∧ returns history value) earlier := by
  induction dialogue generalizing earlier with
  | done value => exact ⟨List.prefix_rfl, obeys⟩
  | ask question next induction =>
    intro answer
    refine ⟨(obeys answer).1, (induction answer (obeys answer).2).mono ?_⟩
    rintro history value ⟨grown, returned⟩
    exact ⟨(List.prefix_append _ _).trans grown, returned⟩

theorem talks {dialogue : Dialogue Question Answer Value}
    (obeys : dialogue.Obeys law returns earlier)
    (lawful : Throughout law earlier) (talks : dialogue.Talks transcript result) :
    Throughout law (earlier ++ transcript) ∧ returns (earlier ++ transcript) result := by
  induction dialogue generalizing earlier transcript with
  | done value =>
    obtain ⟨rfl, rfl⟩ := talks
    rw [List.append_nil]
    exact ⟨lawful, obeys⟩
  | ask question next induction =>
    obtain ⟨answer, rest, rfl, later⟩ := talks
    obtain ⟨now, obeys⟩ := obeys answer
    rw [← List.singleton_append, ← List.append_assoc]
    exact induction answer obeys (lawful.concat now) later

end Obeys

end Dialogue

def Serves {Question : Type} {Answer : Question → Type}
    (law : List (Exchange Answer) → Exchange Answer → Prop)
    (fails : List (Exchange Answer) → Error → Prop)
    (returns : List (Exchange Answer) → Value → Prop)
    (earlier : List (Exchange Answer))
    (computation : ExceptT Error (Dialogue Question Answer) Value) : Prop :=
  computation.run.Obeys law (fun history => Meets (fails history) (returns history)) earlier

namespace Serves

variable {Question : Type} {Answer : Question → Type}
    {law : List (Exchange Answer) → Exchange Answer → Prop}
    {fails : List (Exchange Answer) → Error → Prop}
    {returns : List (Exchange Answer) → Value → Prop}
    {earlier : List (Exchange Answer)}

theorem bind {between : List (Exchange Answer) → First → Prop}
    (serves : Serves law fails between earlier first)
    (later : ∀ history value, between history value →
      Serves law fails returns history (next value)) :
    Serves law fails returns earlier (first >>= next) := by
  refine Dialogue.Obeys.bind serves ?_
  rintro history (error | value) meets
  · exact meets
  · exact later history value meets

theorem ite {condition : Prop} [Decidable condition]
    {positive negative : ExceptT Error (Dialogue Question Answer) Value}
    (holds : condition → Serves law fails returns earlier positive)
    (fails' : ¬ condition → Serves law fails returns earlier negative) :
    Serves law fails returns earlier (if condition then positive else negative) := by
  split
  · exact holds ‹_›
  · exact fails' ‹_›

theorem mono (serves : Serves law fails returns earlier computation)
    (weakens : ∀ history value, returns history value → weaker history value) :
    Serves law fails weaker earlier computation := by
  refine Dialogue.Obeys.mono serves ?_
  rintro history result meets
  exact meets.mono (weakens history)

theorem grows (serves : Serves law fails returns earlier computation) :
    Serves law fails (fun history value =>
      earlier <+: history ∧ returns history value) earlier computation := by
  refine (Dialogue.Obeys.grows serves).mono ?_
  rintro history (error | value) ⟨grown, meets⟩
  · exact meets
  · exact ⟨grown, meets⟩

end Serves

end Nvx.Data
