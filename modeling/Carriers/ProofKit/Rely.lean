import Carriers.ProofKit.Trace

/-! Programs that rely on an invariant: what their steps and their values are, as long as every
state that they meet satisfies it. -/

namespace Carriers.ProofKit

namespace Proc

variable {σ ε ε' α β : Type} {I : σ → Prop} {R : σ → σ → Prop}

/-- In states with `I`, every step of the program is one of `R`, and every value that it returns
satisfies `Q`. -/
def Guarantees (I : σ → Prop) (R : σ → σ → Prop) (Q : α → Prop) : Proc σ ε α → Prop
  | .pure value => Q value
  | .throw _ => True
  | .act update next => ∀ s, I s → R s (update s) ∧ (next s).Guarantees I R Q

section
variable {Q : α → Prop} {Q' : β → Prop}

theorem Guarantees.imp {P : α → Prop} {p : Proc σ ε α} (h : p.Guarantees I R P)
    (imp : ∀ value, P value → Q value) : p.Guarantees I R Q := by
  induction p with
  | pure value => exact imp value h
  | throw => trivial
  | act update next ih => exact fun s holds => ⟨(h s holds).1, ih s (h s holds).2⟩

theorem Guarantees.bind {p : Proc σ ε α} {k : α → Proc σ ε β} (h : p.Guarantees I R Q)
    (next : ∀ value, Q value → (k value).Guarantees I R Q') : (p >>= k).Guarantees I R Q' := by
  show (p.bind k).Guarantees I R Q'
  induction p with
  | pure value => exact next value h
  | throw => trivial
  | act update rest ih => exact fun s holds => ⟨(h s holds).1, ih s (h s holds).2⟩

theorem Guarantees.mapError {wrap : ε → ε'} {p : Proc σ ε α} (h : p.Guarantees I R Q) :
    (p.mapError wrap).Guarantees I R Q := by
  induction p with
  | pure value => exact h
  | throw => trivial
  | act update next ih => exact fun s holds => ⟨(h s holds).1, ih s (h s holds).2⟩

theorem Guarantees.attempt {P : Except ε α → Prop} {p : Proc σ ε α} (h : p.Guarantees I R Q)
    (ok : ∀ value, Q value → P (.ok value)) (error : ∀ e, P (.error e)) :
    (p.attempt : Proc σ ε' (Except ε α)).Guarantees I R P := by
  induction p with
  | pure value => exact ok value h
  | throw e => exact error e
  | act update next ih => exact fun s holds => ⟨(h s holds).1, ih s (h s holds).2⟩

theorem Within.guarantees {p : Proc σ ε α} (h : p.Within R) :
    p.Guarantees I R fun _ => True := by
  induction p with
  | pure | throw => trivial
  | act update next ih => exact fun s _ => ⟨(h s).1, ih s (h s).2⟩

theorem Within.guaranteesReturns {p : Proc σ ε α} (within : p.Within R) (returns : p.Returns Q) :
    p.Guarantees I R Q := by
  induction p with
  | pure => exact returns
  | throw => trivial
  | act update next ih => exact fun s _ => ⟨(within s).1, ih s (within s).2 (returns s)⟩

/-- A value that one of the steps decides is decided in a state with the invariant. -/
theorem Founded.guarantees {N : α → Prop} {P : σ → σ → α → Prop} {p : Proc σ ε α}
    (h : p.Founded N P) (within : p.Within R) :
    p.Guarantees I R fun value => N value ∨ ∃ s s', I s ∧ P s s' value := by
  induction p with
  | pure value => exact .inl h
  | throw => trivial
  | act update next ih =>
    intro s holds
    refine ⟨(within s).1, ?_⟩
    rcases h s with founded | returns
    · exact ih s founded (within s).2
    · refine (within s).2.guaranteesReturns (returns.imp fun value => Or.imp_right fun step => ?_)
      exact ⟨s, _, holds, step⟩

theorem Guarantees.within {p : Proc σ ε α} (h : p.Guarantees (fun _ => True) R Q) :
    p.Within R := by
  induction p with
  | pure | throw => trivial
  | act update next ih => exact fun s => ⟨(h s trivial).1, ih s (h s trivial).2⟩

theorem Guarantees.advance {p : Proc σ ε α} (h : p.Guarantees I R Q) {s : σ} (holds : I s)
    (refl : ∀ s, R s s) : R s (p.advance s).2 ∧ (p.advance s).1.Guarantees I R Q := by
  cases p with
  | pure | throw => exact ⟨refl s, h⟩
  | act update next => exact h s holds

end

end Proc

namespace Pool

variable {ι σ ε α : Type} [DecidableEq ι] {I : σ → Prop} {R : σ → σ → Prop} {Q : ι → α → Prop}

/-- Programs that rely on an invariant which the steps of all of them keep. -/
structure Relies (I : σ → Prop) (R : σ → σ → Prop) (Q : ι → α → Prop) (pool : Pool ι σ ε α) :
    Prop where
  state : I pool.state
  thread : ∀ i, (pool.thread i).Guarantees I R (Q i)

variable {pool : Pool ι σ ε α} (refl : ∀ s, R s s) (keeps : ∀ s s', I s → R s s' → I s')
include refl keeps

theorem Relies.step (h : pool.Relies I R Q) (i : ι) :
    R pool.state (pool.step i).state ∧ (pool.step i).Relies I R Q := by
  obtain ⟨related, rest⟩ := (h.thread i).advance h.state refl
  refine ⟨related, keeps _ _ h.state related, fun j => ?_⟩
  by_cases same : j = i
  · subst same
    rw [step_thread_self]
    exact rest
  · rw [step_thread_ne _ same]
    exact h.thread j

/-- In every interleaving the invariant holds, and the first state is related to the last one. -/
theorem Relies.after (h : pool.Relies I R Q) (trans : ∀ s₁ s₂ s₃, R s₁ s₂ → R s₂ s₃ → R s₁ s₃)
    (schedule : List ι) :
    R pool.state (pool.after schedule).state ∧ (pool.after schedule).Relies I R Q := by
  induction schedule generalizing pool with
  | nil => exact ⟨refl _, h⟩
  | cons i schedule ih =>
    obtain ⟨first, relies⟩ := h.step refl keeps i
    obtain ⟨rest, relies⟩ := ih relies
    exact ⟨trans _ _ _ first rest, relies⟩

/-- Any two states of an interleaving, one after the other, are related. -/
theorem Relies.between (h : pool.Relies I R Q)
    (trans : ∀ s₁ s₂ s₃, R s₁ s₂ → R s₂ s₃ → R s₁ s₃) (first second : List ι) :
    R (pool.after first).state (pool.after (first ++ second)).state := by
  rw [after_append]
  exact ((h.after refl keeps trans first).2.after refl keeps trans second).1

end Pool

end Carriers.ProofKit
