import Mathlib

/-! Programs over a shared state, as sequences of atomic steps.  A program that runs alone takes
all its steps in a row (`run`); `Within` says what every single step does to the state, whatever
other programs do between the steps. -/

namespace Carriers.ProofKit

theorem except_bind_ok {ε α β : Type} {p : Except ε α} {k : α → Except ε β} {result : β} :
    (p >>= k) = .ok result ↔ ∃ value, p = .ok value ∧ k value = .ok result := by
  cases p <;> simp [bind, Except.bind]

theorem except_mapError_ok {ε ε' α : Type} {p : Except ε α} {f : ε → ε'} {result : α} :
    p.mapError f = .ok result ↔ p = .ok result := by
  cases p <;> simp [Except.mapError]

@[simp] theorem except_ok_bind {ε α β : Type} (value : α) (k : α → Except ε β) :
    (.ok value >>= k : Except ε β) = k value := rfl

@[simp] theorem except_error_bind {ε α β : Type} (error : ε) (k : α → Except ε β) :
    (.error error >>= k : Except ε β) = .error error := rfl

@[simp] theorem except_map_ok {ε α β : Type} (f : α → β) (value : α) :
    Except.map f (.ok value : Except ε α) = .ok (f value) := rfl

@[simp] theorem except_map_error {ε α β : Type} (f : α → β) (error : ε) :
    Except.map f (.error error : Except ε α) = .error error := rfl

/-- A program over the state `σ` that returns an `α` or fails with an `ε`.  One `act` is one
atomic step: it updates the state and goes on with what it read there before the update. -/
inductive Proc (σ ε α : Type) : Type where
  | pure (value : α)
  | throw (error : ε)
  | act (update : σ → σ) (next : σ → Proc σ ε α)

namespace Proc

variable {σ ε ε' α β : Type}

protected def bind : Proc σ ε α → (α → Proc σ ε β) → Proc σ ε β
  | .pure value, k => k value
  | .throw error, _ => .throw error
  | .act update next, k => .act update fun s => (next s).bind k

instance : Monad (Proc σ ε) where
  pure := .pure
  bind := Proc.bind

theorem bind_value (p : Proc σ ε α) : p.bind .pure = p := by
  induction p with
  | pure | throw => rfl
  | act update next ih => exact congrArg _ (funext ih)

theorem bind_bind {γ : Type} (p : Proc σ ε α) (f : α → Proc σ ε β) (g : β → Proc σ ε γ) :
    (p.bind f).bind g = p.bind fun value => (f value).bind g := by
  induction p with
  | pure | throw => rfl
  | act update next ih => exact congrArg _ (funext ih)

instance : LawfulMonad (Proc σ ε) :=
  LawfulMonad.mk' (Proc σ ε) bind_value (fun _ _ => rfl) bind_bind

/-- The result of the program `p` as a value, which cannot fail. -/
def attempt : Proc σ ε α → Proc σ ε' (Except ε α)
  | .pure value => .pure (.ok value)
  | .throw error => .pure (.error error)
  | .act update next => .act update fun s => (next s).attempt

/-- The program `p` with its errors wrapped. -/
def mapError (wrap : ε → ε') : Proc σ ε α → Proc σ ε' α
  | .pure value => .pure value
  | .throw error => .throw (wrap error)
  | .act update next => .act update fun s => (next s).mapError wrap

/-- The program that takes no step and has the given result. -/
def ofExcept : Except ε α → Proc σ ε α
  | .ok value => .pure value
  | .error error => .throw error

/-- One atomic step that reads `value` in the state and replaces the state. -/
def transact (step : σ → α × σ) : Proc σ ε α :=
  .act (fun s => (step s).2) fun s => .pure (step s).1

/-- The result and the final state of a program that runs alone. -/
def run : Proc σ ε α → σ → Except ε α × σ
  | .pure value, s => (.ok value, s)
  | .throw error, s => (.error error, s)
  | .act update next, s => (next s).run (update s)

@[simp] theorem run_pure (value : α) (s : σ) :
    (Pure.pure value : Proc σ ε α).run s = (.ok value, s) := rfl

@[simp] theorem run_throw (error : ε) (s : σ) :
    (throw error : Proc σ ε α).run s = (.error error, s) := rfl

@[simp] theorem run_ofExcept (result : Except ε α) (s : σ) :
    (ofExcept result : Proc σ ε α).run s = (result, s) := by
  cases result <;> rfl

@[simp] theorem run_transact (step : σ → α × σ) (s : σ) :
    (transact step : Proc σ ε α).run s = (.ok (step s).1, (step s).2) := rfl

theorem run_bind (p : Proc σ ε α) (k : α → Proc σ ε β) (s : σ) :
    (p >>= k).run s =
      match p.run s with
      | (.ok value, s') => (k value).run s'
      | (.error error, s') => (.error error, s') := by
  show (p.bind k).run s = _
  induction p generalizing s with
  | pure | throw => rfl
  | act update next ih => exact ih s (update s)

@[simp] theorem run_map (f : α → β) (p : Proc σ ε α) (s : σ) :
    (f <$> p).run s = ((p.run s).1.map f, (p.run s).2) := by
  rw [← bind_pure_comp, run_bind]
  rcases p.run s with ⟨error | value, mid⟩ <;> rfl

@[simp] theorem run_attempt (p : Proc σ ε α) (s : σ) :
    (p.attempt : Proc σ ε' (Except ε α)).run s = (.ok (p.run s).1, (p.run s).2) := by
  induction p generalizing s with
  | pure | throw => rfl
  | act update next ih => exact ih s (update s)

@[simp] theorem run_mapError (wrap : ε → ε') (p : Proc σ ε α) (s : σ) :
    (p.mapError wrap).run s = ((p.run s).1.mapError wrap, (p.run s).2) := by
  induction p generalizing s with
  | pure | throw => rfl
  | act update next ih => exact ih s (update s)

theorem run_bind_ok {p : Proc σ ε α} {k : α → Proc σ ε β} {s s' : σ} {result : β} :
    (p >>= k).run s = (.ok result, s') ↔
      ∃ value mid, p.run s = (.ok value, mid) ∧ (k value).run mid = (.ok result, s') := by
  rw [run_bind]
  rcases p.run s with ⟨error | value, mid⟩ <;> simp

theorem run_bind_error {p : Proc σ ε α} {k : α → Proc σ ε β} {s s' : σ} {error : ε} :
    (p >>= k).run s = (.error error, s') ↔
      p.run s = (.error error, s') ∨
        ∃ value mid, p.run s = (.ok value, mid) ∧ (k value).run mid = (.error error, s') := by
  rw [run_bind]
  rcases p.run s with ⟨e | value, mid⟩ <;> simp

@[simp] theorem ofExcept_ok_bind (value : α) (k : α → Proc σ ε β) :
    (ofExcept (.ok value) >>= k : Proc σ ε β) = k value := rfl

@[simp] theorem ofExcept_error_bind (error : ε) (k : α → Proc σ ε β) :
    (ofExcept (.error error) >>= k : Proc σ ε β) = throw error := rfl

/-- Every step of the program relates the state before it to the state after it by `R`. -/
def Within (R : σ → σ → Prop) : Proc σ ε α → Prop
  | .pure _ | .throw _ => True
  | .act update next => ∀ s, R s (update s) ∧ (next s).Within R

section Within

variable {R : σ → σ → Prop}

theorem within_pure (value : α) : (Pure.pure value : Proc σ ε α).Within R := trivial

theorem within_ofExcept (result : Except ε α) : (ofExcept result : Proc σ ε α).Within R := by
  cases result <;> trivial

theorem within_transact {step : σ → α × σ} (h : ∀ s, R s (step s).2) :
    (transact step : Proc σ ε α).Within R := fun s => ⟨h s, trivial⟩

theorem Within.bind {p : Proc σ ε α} {k : α → Proc σ ε β} (hp : p.Within R)
    (hk : ∀ value, (k value).Within R) : (p >>= k).Within R := by
  show (p.bind k).Within R
  induction p with
  | pure value => exact hk value
  | throw => trivial
  | act update next ih => exact fun s => ⟨(hp s).1, ih s (hp s).2⟩

theorem Within.mapError {wrap : ε → ε'} {p : Proc σ ε α} (hp : p.Within R) :
    (p.mapError wrap).Within R := by
  induction p with
  | pure | throw => trivial
  | act update next ih => exact fun s => ⟨(hp s).1, ih s (hp s).2⟩

/-- What every step keeps, a program that runs alone keeps. -/
theorem Within.run {p : Proc σ ε α} (hp : p.Within R) (refl : ∀ s, R s s)
    (trans : ∀ s₁ s₂ s₃, R s₁ s₂ → R s₂ s₃ → R s₁ s₃) (s : σ) : R s (p.run s).2 := by
  induction p generalizing s with
  | pure | throw => exact refl s
  | act update next ih => exact trans _ _ _ (hp s).1 (ih s (hp s).2 (update s))

/-- A program whose every step would relate states that nothing relates takes none. -/
theorem Within.eq_ofExcept {p : Proc σ ε α} (h : p.Within fun _ _ => False) (s : σ) :
    p = ofExcept (p.run s).1 := by
  cases p with
  | pure | throw => rfl
  | act update next => exact (h s).1.elim

end Within

/-- Every value that the program can return, whatever it reads, satisfies `Q`. -/
def Returns (Q : α → Prop) : Proc σ ε α → Prop
  | .pure value => Q value
  | .throw _ => True
  | .act _ next => ∀ s, (next s).Returns Q

section Returns

variable {Q : α → Prop} {Q' : β → Prop}

theorem returns_trivial (p : Proc σ ε α) : p.Returns fun _ => True := by
  induction p with
  | pure | throw => trivial
  | act update next ih => exact ih

theorem Returns.imp {Q' : α → Prop} {p : Proc σ ε α} (h : p.Returns Q)
    (imp : ∀ value, Q value → Q' value) : p.Returns Q' := by
  induction p with
  | pure value => exact imp value h
  | throw => trivial
  | act update next ih => exact fun s => ih s (h s)

theorem Returns.bind {p : Proc σ ε α} {k : α → Proc σ ε β} (hp : p.Returns Q)
    (hk : ∀ value, Q value → (k value).Returns Q') : (p >>= k).Returns Q' := by
  show (p.bind k).Returns Q'
  induction p with
  | pure value => exact hk value hp
  | throw => trivial
  | act update next ih => exact fun s => ih s (hp s)

theorem returns_bind {p : Proc σ ε α} {k : α → Proc σ ε β} (hk : ∀ value, (k value).Returns Q') :
    (p >>= k).Returns Q' := (returns_trivial p).bind fun value _ => hk value

theorem Returns.run {p : Proc σ ε α} (h : p.Returns Q) {s s' : σ} {value : α}
    (run : p.run s = (.ok value, s')) : Q value := by
  induction p generalizing s with
  | pure v =>
    cases run
    exact h
  | throw => cases run
  | act update next ih => exact ih s (h s) run

end Returns

/-- The program fails when it runs alone. -/
def Fails (p : Proc σ ε α) (s : σ) : Prop := ∃ error, (p.run s).1 = .error error

section Fails

variable {s : σ}

@[simp] theorem fails_pure (value : α) : (Pure.pure value : Proc σ ε α).Fails s ↔ False := by
  simp [Fails]

@[simp] theorem fails_throw (error : ε) : (throw error : Proc σ ε α).Fails s ↔ True := by
  simp [Fails]

theorem fails_ofExcept_bind (result : Except ε α) (k : α → Proc σ ε β) :
    (ofExcept result >>= k).Fails s ↔
      match result with
      | .error _ => True
      | .ok value => (k value).Fails s := by
  cases result with
  | error error => exact fails_throw error
  | ok value => rfl

theorem fails_bind {p : Proc σ ε α} {k : α → Proc σ ε β} {value : α} {mid : σ}
    (run : p.run s = (.ok value, mid)) : (p >>= k).Fails s ↔ (k value).Fails mid := by
  rw [Fails, run_bind, run]
  rfl

theorem fails_bind_pure (p : Proc σ ε α) (f : α → β) :
    (p >>= fun value => Pure.pure (f value)).Fails s ↔ p.Fails s := by
  rw [Fails, bind_pure_comp, run_map]
  cases h : (p.run s).1 <;> simp [Fails, h]

end Fails

/-- Every error that the program can fail with, whatever it reads, satisfies `Q`. -/
def Throws (Q : ε → Prop) : Proc σ ε α → Prop
  | .pure _ => True
  | .throw error => Q error
  | .act _ next => ∀ s, (next s).Throws Q

section Throws

variable {Q : ε → Prop}

theorem throws_pure (value : α) : (Pure.pure value : Proc σ ε α).Throws Q := trivial

theorem throws_ofExcept {result : Except ε α} (h : ∀ error, result = .error error → Q error) :
    (ofExcept result : Proc σ ε α).Throws Q := by
  cases result with
  | ok value => trivial
  | error error => exact h error rfl

theorem Throws.bind {p : Proc σ ε α} {k : α → Proc σ ε β} (hp : p.Throws Q)
    (hk : ∀ value, (k value).Throws Q) : (p >>= k).Throws Q := by
  show (p.bind k).Throws Q
  induction p with
  | pure value => exact hk value
  | throw error => exact hp
  | act update next ih => exact fun s => ih s (hp s)

theorem Throws.run {p : Proc σ ε α} (h : p.Throws Q) {s s' : σ} {error : ε}
    (run : p.run s = (.error error, s')) : Q error := by
  induction p generalizing s with
  | pure => cases run
  | throw e =>
    cases run
    exact h
  | act update next ih => exact ih s (h s) run

end Throws

end Proc

end Carriers.ProofKit
