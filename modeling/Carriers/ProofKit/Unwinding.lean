import Mathlib.Data.List.Forall2

/-! A machine whose operations have owners, and when what others do makes no difference to one of
them: the run with the operations of the others left out gives the same answers. -/

namespace Carriers.ProofKit

variable {S O A : Type} (step : S → O → A × S)

/-- The state after the operations. -/
def runOps (ops : List O) (s : S) : S := ops.foldl (fun s op => (step s op).2) s

/-- The answers to those of the operations that are `mine`. -/
def answersTo (mine : O → Bool) : List O → S → List A
  | [], _ => []
  | op :: ops, s =>
    if mine op then (step s op).1 :: answersTo mine ops (step s op).2
    else answersTo mine ops (step s op).2

/-- `Sim` relates the states of a run to those of the run in which only the operations that are
`mine` take place, and `Agree` the answers to these, as the states that follow see them. -/
structure Unwinding (mine : O → Bool) (Sim : S → S → Prop) (Agree : S → S → A → A → Prop) :
    Prop where
  other : ∀ {s t op}, Sim s t → mine op = false → Sim (step s op).2 t
  own : ∀ {s t op}, Sim s t → mine op = true → Sim (step s op).2 (step t op).2
  answer : ∀ {s t op}, Sim s t → mine op = true →
    Agree (step s op).2 (step t op).2 (step s op).1 (step t op).1
  otherAgree : ∀ {s t op a b}, Sim s t → mine op = false → Agree s t a b →
    Agree (step s op).2 t a b
  ownAgree : ∀ {s t op a b}, Sim s t → mine op = true → Agree s t a b →
    Agree (step s op).2 (step t op).2 a b

variable {step} {mine : O → Bool} {Sim : S → S → Prop} {Agree : S → S → A → A → Prop}

/-- The operations of others change neither what is related nor the answers. -/
theorem Unwinding.run (h : Unwinding step mine Sim Agree) (ops : List O) {s t : S}
    (sim : Sim s t) :
    Sim (runOps step ops s) (runOps step (ops.filter mine) t) ∧
      (∀ a b, Agree s t a b →
        Agree (runOps step ops s) (runOps step (ops.filter mine) t) a b) ∧
      List.Forall₂ (Agree (runOps step ops s) (runOps step (ops.filter mine) t))
        (answersTo step mine ops s) (answersTo step mine (ops.filter mine) t) := by
  induction ops generalizing s t with
  | nil => exact ⟨sim, fun _ _ agree => agree, .nil⟩
  | cons op ops ih =>
    cases isMine : mine op with
    | false =>
      obtain ⟨same, keeps, answers⟩ := ih (h.other sim isMine)
      rw [List.filter_cons_of_neg (by simp [isMine])]
      refine ⟨same, fun a b agree => keeps a b (h.otherAgree sim isMine agree), ?_⟩
      simp only [answersTo, isMine, Bool.false_eq_true, if_false]
      exact answers
    | true =>
      obtain ⟨same, keeps, answers⟩ := ih (h.own sim isMine)
      rw [List.filter_cons_of_pos isMine]
      refine ⟨same, fun a b agree => keeps a b (h.ownAgree sim isMine agree), ?_⟩
      simp only [answersTo, isMine, if_true]
      exact .cons (keeps _ _ (h.answer sim isMine)) answers

end Carriers.ProofKit
