import Mathlib.Data.List.Forall2
import Nvx.Data.Codec
import Nvx.Data.History

namespace Nvx.Data

def failIf (fails : Prop) [Decidable fails] (error : Error) :
    Except Error Unit :=
  if fails then .error error else .ok ()

def failOn (problem : Option Problem) (error : Problem → Error) :
    Except Error Unit :=
  match problem with
  | some problem => .error (error problem)
  | none => .ok ()

@[simp] theorem failIf_eq_ok_iff {fails : Prop} [Decidable fails] {error : Error} {value : Unit} :
    failIf fails error = .ok value ↔ ¬ fails := by
  unfold failIf
  split <;> simp_all

@[simp] theorem failOn_eq_ok_iff {error : Problem → Error} :
    failOn problem error = .ok value ↔ problem = none := by
  cases problem <;> simp [failOn]

def checkAll (check : Item → Except Error Unit) : List Item → Except Error Unit
  | [] => .ok ()
  | item :: rest => do
      check item
      checkAll check rest

def checkAfter (check : List Item → Item → Except Error Unit)
    (earlier : List Item) : List Item → Except Error Unit
  | [] => .ok ()
  | item :: rest => do
      check earlier item
      checkAfter check (earlier ++ [item]) rest

def mapAll (make : Item → Except Error Value) : List Item → Except Error (List Value)
  | [] => .ok []
  | item :: rest => do
      let value ← make item
      let values ← mapAll make rest
      .ok (value :: values)

theorem checkAll_eq_ok_iff {check : Item → Except Error Unit} :
    checkAll check items = .ok () ↔ ∀ item ∈ items, check item = .ok () := by
  induction items with
  | nil => simp [checkAll]
  | cons item rest induction =>
    simp only [checkAll, bind_eq_ok_iff, induction, List.forall_mem_cons]
    constructor
    · rintro ⟨_, first, others⟩
      exact ⟨first, others⟩
    · rintro ⟨first, others⟩
      exact ⟨(), first, others⟩

theorem failIf_ne_error {fails : Prop} [Decidable fails] {error other : Error}
    (different : error ≠ other) : failIf fails error ≠ .error other := by
  unfold failIf
  split <;> simp [different]

theorem bind_ne_error {first : Except Error Middle} {next : Middle → Except Error Result}
    (passes : first ≠ .error error) (others : ∀ middle, next middle ≠ .error error) :
    first >>= next ≠ .error error := by
  cases first with
  | error found => exact fun same => passes (congrArg _ (Except.error.inj same))
  | ok middle => exact others middle

theorem checkAll_ne_error {check : Item → Except Error Unit}
    (never : ∀ item ∈ items, check item ≠ .error error) : checkAll check items ≠ .error error := by
  induction items with
  | nil => simp [checkAll]
  | cons item rest induction =>
    rw [List.forall_mem_cons] at never
    exact bind_ne_error never.1 fun _ => induction never.2

theorem checkAfter_eq_ok_iff {check : List Item → Item → Except Error Unit} :
    checkAfter check earlier items = .ok () ↔ ∀ before item later, items = before ++ item :: later →
        check (earlier ++ before) item = .ok () := by
  induction items generalizing earlier with
  | nil => simp [checkAfter]
  | cons first rest induction =>
    simp only [checkAfter, bind_eq_ok_iff, induction]
    constructor
    · rintro ⟨_, passes, others⟩ before item later split
      cases before with
      | nil =>
        obtain ⟨rfl, rfl⟩ := List.cons.inj split
        rwa [List.append_nil]
      | cons head before =>
        obtain ⟨rfl, rfl⟩ := List.cons.inj split
        have passed := others before item later rfl
        rwa [List.append_assoc] at passed
    · intro all
      refine ⟨(), ?_, fun before item later split => ?_⟩
      · have passes := all [] first rest rfl
        rwa [List.append_nil] at passes
      · have passes := all (first :: before) item later (by rw [split]; rfl)
        rwa [List.append_assoc]

theorem pairwise_of_checkAfter {check : Item → Item → Except Error Unit}
    (passes : checkAfter (fun earlier item => checkAll (check item) earlier) earlier items =
      .ok ()) : items.Pairwise fun first second => check second first = .ok () := by
  induction items generalizing earlier with
  | nil => exact .nil
  | cons first rest induction =>
    simp only [checkAfter, bind_eq_ok_iff] at passes
    obtain ⟨_, _, passes⟩ := passes
    refine .cons (fun second member => ?_) (induction passes)
    obtain ⟨before, later, rfl⟩ := List.mem_iff_append.mp member
    exact checkAll_eq_ok_iff.mp (checkAfter_eq_ok_iff.mp passes before second later rfl) first
      (by simp)

theorem mapAll_eq_ok_iff {make : Item → Except Error Value} : mapAll make items = .ok values ↔
      List.Forall₂ (fun item value => make item = .ok value) items values := by
  induction items generalizing values with
  | nil =>
    simp only [mapAll, Except.ok.injEq, List.forall₂_nil_left_iff]
    exact eq_comm
  | cons item rest induction =>
    simp only [mapAll, bind_eq_ok_iff, Except.ok.injEq, List.forall₂_cons_left_iff, induction]
    constructor
    · rintro ⟨value, made, others, areOthers, rfl⟩
      exact ⟨value, others, made, areOthers, rfl⟩
    · rintro ⟨value, others, made, areOthers, rfl⟩
      exact ⟨value, made, others, areOthers, rfl⟩

theorem exists_mem_of_forall₂ {Related : Item → Value → Prop}
    (related : List.Forall₂ Related items values) (member : item ∈ items) :
    ∃ value ∈ values, Related item value := by
  induction related with
  | nil => cases member
  | cons first _ induction =>
    rcases List.mem_cons.mp member with rfl | later
    · exact ⟨_, List.mem_cons_self, first⟩
    · obtain ⟨value, isValue, makes⟩ := induction later
      exact ⟨value, List.mem_cons_of_mem _ isValue, makes⟩

theorem exists_mem_of_mapAll {make : Item → Except Error Value}
    (made : mapAll make items = .ok values) :
    (∀ item ∈ items, ∃ value ∈ values, make item = .ok value) ∧
      ∀ value ∈ values, ∃ item ∈ items, make item = .ok value :=
  have related := mapAll_eq_ok_iff.mp made
  ⟨fun _ => exists_mem_of_forall₂ related, fun _ => exists_mem_of_forall₂ related.flip⟩

end Nvx.Data
