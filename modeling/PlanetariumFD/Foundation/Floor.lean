import PlanetariumFD.Foundation.Transition

/-!
# Floors of an accreting store

A store holds marks taken from a clock that never goes back. A step may drop any
of the marks and adds none from before the clock's present value. A lower bound
of the marks that the clock has reached then stays one in every later state, so
a floor that was read once can be used however late.
-/

namespace PlanetariumFD.Floor

open Transition

variable {S A E ι : Type*} [Preorder ι]

/-- A lower bound of the marks that the clock has reached. -/
structure IsFloor (stored : Set ι) (clock m : ι) : Prop where
  reached : m ≤ clock
  below : m ∈ lowerBounds stored

/-- The steps, from good states, of a store whose marks come from the clock. -/
structure Accretes (step : S → A → Except E S) (Good : S → Prop) (stored : S → Set ι)
    (clock : S → ι) : Prop where
  good : ∀ {s a t}, Good s → step s a = .ok t → Good t
  advance : ∀ {s a t}, Good s → step s a = .ok t → clock s ≤ clock t
  added : ∀ {s a t}, Good s → step s a = .ok t → ∀ i ∈ stored t, i ∈ stored s ∨ clock s ≤ i
  taken : ∀ {s}, Good s → clock s ∈ upperBounds (stored s)

namespace IsFloor

variable {stored stored' : Set ι} {clock clock' m : ι}

/-- The least mark is a floor. -/
theorem of_isLeast (htaken : clock ∈ upperBounds stored) (h : IsLeast stored m) :
    IsFloor stored clock m :=
  ⟨htaken h.1, h.2⟩

theorem after (h : IsFloor stored clock m) (hadv : clock ≤ clock')
    (hadd : ∀ i ∈ stored', i ∈ stored ∨ clock ≤ i) : IsFloor stored' clock' m where
  reached := h.reached.trans hadv
  below i hi := by
    obtain hold | hnew := hadd i hi
    · exact h.below hold
    · exact h.reached.trans hnew

end IsFloor

namespace Accretes

variable {step : S → A → Except E S} {Good : S → Prop} {stored : S → Set ι} {clock : S → ι}
  {s t : S} {m : ι}

theorem run_isFloor (h : Accretes step Good stored clock) (hs : Good s)
    (hm : IsFloor (stored s) (clock s) m) {as : List A} (hrun : run step s as = .ok t) :
    IsFloor (stored t) (clock t) m := by
  refine (run_invariant (P := fun t => Good t ∧ IsFloor (stored t) (clock t) m) ?_ ⟨hs, hm⟩ hrun).2
  rintro u a v ⟨hu, hm⟩ hst
  exact ⟨h.good hu hst, hm.after (h.advance hu hst) (h.added hu hst)⟩

/-- The least mark of a state bounds the marks of every state reached from there. -/
theorem run_of_isLeast (h : Accretes step Good stored clock) (hs : Good s)
    (hm : IsLeast (stored s) m) {as : List A} (hrun : run step s as = .ok t) :
    m ∈ lowerBounds (stored t) :=
  (h.run_isFloor hs (.of_isLeast (h.taken hs) hm) hrun).below

end Accretes

end PlanetariumFD.Floor
