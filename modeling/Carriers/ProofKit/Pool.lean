import Carriers.ProofKit.Proc

/-! Programs that run concurrently over one state: in any order, each takes its next atomic step. -/

namespace Carriers.ProofKit

namespace Proc

variable {σ ε α : Type}

/-- The program after its next step, and the state.  A program that has ended stays as it is. -/
def advance : Proc σ ε α → σ → Proc σ ε α × σ
  | .act update next, s => (next s, update s)
  | .pure value, s => (.pure value, s)
  | .throw error, s => (.throw error, s)

/-- The result of a program that has ended. -/
def result : Proc σ ε α → Option (Except ε α)
  | .pure value => some (.ok value)
  | .throw error => some (.error error)
  | .act _ _ => none

@[simp] theorem advance_pure (value : α) (s : σ) :
    (Pure.pure value : Proc σ ε α).advance s = (Pure.pure value, s) := rfl

theorem Returns.advance {Q : α → Prop} {p : Proc σ ε α} (h : p.Returns Q) (s : σ) :
    (p.advance s).1.Returns Q := by
  cases p with
  | pure | throw => exact h
  | act update next => exact h s

theorem Returns.result {Q : α → Prop} {p : Proc σ ε α} (h : p.Returns Q) {value : α}
    (ended : p.result = some (.ok value)) : Q value := by
  cases p with
  | pure other =>
    cases ended
    exact h
  | throw | act => cases ended

theorem Within.advance {R : σ → σ → Prop} {p : Proc σ ε α} (h : p.Within R)
    (refl : ∀ s, R s s) (s : σ) : R s (p.advance s).2 ∧ (p.advance s).1.Within R := by
  cases p with
  | pure | throw => exact ⟨refl s, trivial⟩
  | act update next => exact h s

/-- Before the program returns a value, one of its steps leads to a state in which `D` holds. -/
def Reaches (D : σ → Prop) : Proc σ ε α → Prop
  | .pure _ => False
  | .throw _ => True
  | .act update next => ∀ s, D (update s) ∨ (next s).Reaches D

variable {D : σ → Prop} {β : Type}

theorem Reaches.bind {p : Proc σ ε α} {k : α → Proc σ ε β} (h : p.Reaches D) :
    (p >>= k).Reaches D := by
  show (p.bind k).Reaches D
  induction p with
  | pure => exact h.elim
  | throw => trivial
  | act update next ih => exact fun s => (h s).imp_right (ih s)

/-- A program reaches what its continuation reaches. -/
theorem reaches_bind (p : Proc σ ε α) {k : α → Proc σ ε β} (h : ∀ value, (k value).Reaches D) :
    (p >>= k).Reaches D := by
  show (p.bind k).Reaches D
  induction p with
  | pure value => exact h value
  | throw => trivial
  | act update next ih => exact fun s => .inr (ih s)

theorem reaches_transact {step : σ → α × σ} (h : ∀ s, D (step s).2) :
    (transact step : Proc σ ε α).Reaches D := fun s => .inl (h s)

theorem Reaches.mapError {ε' : Type} {wrap : ε → ε'} {p : Proc σ ε α} (h : p.Reaches D) :
    (p.mapError wrap).Reaches D := by
  induction p with
  | pure => exact h
  | throw => trivial
  | act update next ih => exact fun s => (h s).imp_right (ih s)

theorem Reaches.advance {p : Proc σ ε α} {s : σ} (h : D s ∨ p.Reaches D)
    (keep : D s → D (p.advance s).2) : D (p.advance s).2 ∨ (p.advance s).1.Reaches D := by
  rcases h with holds | reaches
  · exact .inl (keep holds)
  · cases p with
    | pure | throw => exact .inr reaches
    | act update next => exact reaches s

end Proc

/-- Of two steps of different programs in a schedule, one is among the steps before the other. -/
theorem split_order {ι : Type} {i j : ι} {first second later rest : List ι} (distinct : i ≠ j)
    (same : first ++ i :: later = second ++ j :: rest) :
    (∃ between, second = first ++ i :: between) ∨ ∃ between, first = second ++ j :: between := by
  rcases List.append_eq_append_iff.mp same with ⟨between, rfl, cut⟩ | ⟨between, rfl, cut⟩
  · cases between with
    | nil => exact absurd (List.cons.inj cut).1 distinct
    | cons head between =>
      obtain ⟨rfl, -⟩ := List.cons.inj cut
      exact .inl ⟨between, rfl⟩
  · cases between with
    | nil => exact absurd (List.cons.inj cut).1.symm distinct
    | cons head between =>
      obtain ⟨rfl, -⟩ := List.cons.inj cut
      exact .inr ⟨between, rfl⟩

/-- Programs, one for each index, and the state that they share. -/
structure Pool (ι σ ε α : Type) where
  state : σ
  thread : ι → Proc σ ε α

namespace Pool

variable {ι σ ε α : Type} [DecidableEq ι]

/-- The pool once the program `i` has taken a step. -/
def step (pool : Pool ι σ ε α) (i : ι) : Pool ι σ ε α :=
  { state := ((pool.thread i).advance pool.state).2
    thread := Function.update pool.thread i ((pool.thread i).advance pool.state).1 }

/-- The pool once its programs have taken steps in the order of `schedule`. -/
def after (pool : Pool ι σ ε α) (schedule : List ι) : Pool ι σ ε α := schedule.foldl step pool

variable (pool : Pool ι σ ε α)

@[simp] theorem step_thread_self (i : ι) :
    (pool.step i).thread i = ((pool.thread i).advance pool.state).1 := Function.update_self ..

theorem step_state (i : ι) :
    (pool.step i).state = ((pool.thread i).advance pool.state).2 := rfl

theorem step_thread_ne {i j : ι} (h : j ≠ i) : (pool.step i).thread j = pool.thread j :=
  Function.update_of_ne h _ _

@[simp] theorem after_nil : pool.after [] = pool := rfl

theorem after_append (first second : List ι) :
    pool.after (first ++ second) = (pool.after first).after second :=
  List.foldl_append

theorem after_concat (schedule : List ι) (i : ι) :
    pool.after (schedule ++ [i]) = (pool.after schedule).step i := by
  simp [after]

/-- What holds at first and is kept by every step holds after every schedule. -/
theorem after_induction {P : Pool ι σ ε α → Prop} (start : P pool)
    (keep : ∀ pool i, P pool → P (pool.step i)) (schedule : List ι) : P (pool.after schedule) := by
  induction schedule using List.reverseRecOn with
  | nil => exact start
  | append_singleton schedule i ih => exact pool.after_concat schedule i ▸ keep _ i ih

/-- A program that no step of the schedule was given to is as it was. -/
theorem after_thread {i : ι} {schedule : List ι} (absent : i ∉ schedule) :
    (pool.after schedule).thread i = pool.thread i := by
  induction schedule using List.reverseRecOn with
  | nil => rfl
  | append_singleton schedule j ih =>
    simp only [List.mem_append, List.mem_singleton, not_or] at absent
    rw [after_concat, step_thread_ne _ absent.2, ih absent.1]

section
variable {pool} {R : σ → σ → Prop}

theorem step_within (h : ∀ i, (pool.thread i).Within R) (refl : ∀ s, R s s) (i : ι) :
    R pool.state (pool.step i).state ∧ ∀ j, ((pool.step i).thread j).Within R := by
  refine ⟨((h i).advance refl _).1, fun j => ?_⟩
  by_cases same : j = i
  · subst same
    rw [step_thread_self]
    exact ((h j).advance refl _).2
  · rw [step_thread_ne _ same]
    exact h j

theorem after_within (h : ∀ i, (pool.thread i).Within R) (refl : ∀ s, R s s)
    (schedule : List ι) (i : ι) : ((pool.after schedule).thread i).Within R :=
  after_induction pool (P := fun pool => ∀ i, (pool.thread i).Within R) h
    (fun _ i within => (step_within within refl i).2) schedule i

theorem after_returns (pool : Pool ι σ ε α) {Q : ι → α → Prop}
    (h : ∀ i, (pool.thread i).Returns (Q i)) (schedule : List ι) (i : ι) :
    ((pool.after schedule).thread i).Returns (Q i) := by
  refine after_induction pool (P := fun pool => ∀ i, (pool.thread i).Returns (Q i)) h
    (fun pool i returns j => ?_) schedule i
  by_cases same : j = i
  · subst same
    rw [step_thread_self]
    exact (returns j).advance _
  · rw [step_thread_ne _ same]
    exact returns j

/-- A program that has returned a value stays as it is. -/
theorem after_pure (pool : Pool ι σ ε α) {i : ι} {value : α} (ended : pool.thread i = pure value)
    (schedule : List ι) :
    (pool.after schedule).thread i = pure value := by
  refine after_induction pool (P := fun pool => pool.thread i = pure value) ended
    (fun pool j ended => ?_) schedule
  by_cases same : i = j
  · subst same
    rw [step_thread_self, ended, Proc.advance_pure]
  · rw [step_thread_ne _ same, ended]

/-- What every program reaches before it returns, and no step undoes, holds once one has
returned. -/
theorem after_reaches (pool : Pool ι σ ε α) {D : σ → Prop} (within : ∀ i, (pool.thread i).Within R)
    (refl : ∀ s, R s s) {I : σ → Prop} (start : I pool.state)
    (keep : ∀ s s', I s → R s s' → I s' ∧ (D s → D s'))
    (reaches : ∀ i, (pool.thread i).Reaches D) (schedule : List ι) :
    I (pool.after schedule).state ∧ ∀ i, D (pool.after schedule).state ∨
      ((pool.after schedule).thread i).Reaches D := by
  induction schedule using List.reverseRecOn with
  | nil => exact ⟨start, fun i => .inr (reaches i)⟩
  | append_singleton schedule i ih =>
    rw [after_concat]
    have related := (step_within (after_within within refl schedule) refl i).1
    obtain ⟨kept, stable⟩ := keep _ _ ih.1 related
    refine ⟨kept, fun j => ?_⟩
    by_cases same : j = i
    · subst same
      rw [step_thread_self]
      exact Proc.Reaches.advance (ih.2 j) stable
    · rw [step_thread_ne _ same]
      exact (ih.2 j).imp_left stable

end

/-- In the schedule, the program `i` takes a step that relates the states by `E`. -/
def Takes (E : σ → σ → Prop) (schedule : List ι) (i : ι) : Prop :=
  ∃ before rest, schedule = before ++ i :: rest ∧
    E (pool.after before).state ((pool.after before).step i).state

/-- Of two programs that take such a step, one takes it first. -/
theorem takes_order {pool : Pool ι σ ε α} {E : σ → σ → Prop} {schedule : List ι} {i j : ι}
    (distinct : i ≠ j) (hi : pool.Takes E schedule i) (hj : pool.Takes E schedule j) :
    ∃ before k l rest, k ≠ l ∧ schedule = before ++ l :: rest ∧
      E (pool.after before).state ((pool.after before).step l).state ∧ pool.Takes E before k := by
  obtain ⟨first, later, rfl, stepI⟩ := hi
  obtain ⟨second, rest, same, stepJ⟩ := hj
  rcases split_order distinct same with ⟨between, rfl⟩ | ⟨between, rfl⟩
  · exact ⟨_, i, j, rest, distinct, same, stepJ, first, between, rfl, stepI⟩
  · exact ⟨_, j, i, later, distinct.symm, rfl, stepI, second, between, rfl, stepJ⟩

theorem Takes.mem {pool : Pool ι σ ε α} {E : σ → σ → Prop} {schedule : List ι} {i : ι}
    (h : pool.Takes E schedule i) : i ∈ schedule := by
  obtain ⟨before, rest, rfl, -⟩ := h
  simp

end Pool

end Carriers.ProofKit
