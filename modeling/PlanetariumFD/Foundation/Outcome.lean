import Mathlib

/-! # Peeling fallible computations apart -/

namespace PlanetariumFD.Outcome

universe u v

variable {E : Type v} {A B : Type u}

theorem bind_eq_ok {x : Except E A} {f : A → Except E B} {b : B} :
    x >>= f = .ok b ↔ ∃ a, x = .ok a ∧ f a = .ok b := by
  cases x with
  | error e => simp [bind, Except.bind]
  | ok a => simp [bind, Except.bind]

theorem map_eq_ok {f : A → B} {x : Except E A} {b : B} :
    x.map f = .ok b ↔ ∃ a, x = .ok a ∧ f a = b := by
  cases x <;> simp [Except.map]

theorem map_eq_error {f : A → B} {x : Except E A} {e : E} :
    x.map f = .error e ↔ x = .error e := by
  cases x <;> simp [Except.map]

/-- Whether a computation returns a value with a property. -/
def returns (p : A → Bool) : Except E A → Bool
  | .ok a => p a
  | .error _ => false

theorem exists_of_returns {p : A → Bool} {x : Except E A} (h : returns p x = true) :
    ∃ a, x = .ok a ∧ p a = true := by
  cases x with
  | error e => cases h
  | ok a => exact ⟨a, rfl, h⟩

@[simp] theorem ok_bind (a : A) (f : A → Except E B) : (Except.ok a >>= f) = f a := rfl

@[simp] theorem error_bind (e : E) (f : A → Except E B) :
    ((Except.error e : Except E A) >>= f) = .error e := rfl

/-! ## Errors that do not occur -/

/-- The computation does not stop with a bad error. -/
def Avoids (bad : E → Prop) (x : Except E A) : Prop := ∀ e, x = .error e → ¬ bad e

section
variable {bad : E → Prop}

theorem avoids_ok (a : A) : Avoids bad (.ok a : Except E A) := fun _ h => by cases h

theorem avoids_error {e : E} (h : ¬ bad e) : Avoids bad (.error e : Except E A) := by
  intro e' he
  cases he
  exact h

theorem avoids_of_ok {x : Except E A} (h : ∃ a, x = .ok a) : Avoids bad x := by
  obtain ⟨a, rfl⟩ := h
  exact avoids_ok a

theorem Avoids.bind {x : Except E A} {f : A → Except E B} (hx : Avoids bad x)
    (hf : ∀ a, Avoids bad (f a)) : Avoids bad (x >>= f) := by
  cases x with
  | error e => exact avoids_error (hx e rfl)
  | ok a => exact hf a

theorem Avoids.map {x : Except E A} {f : A → B} (hx : Avoids bad x) : Avoids bad (x.map f) := by
  cases x with
  | error e => exact avoids_error (hx e rfl)
  | ok a => exact avoids_ok _

end

end PlanetariumFD.Outcome
