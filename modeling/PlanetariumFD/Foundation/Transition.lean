import Mathlib

/-!
# Runs of fallible step functions

A system is a step function `S → A → Except E S`; an action that is not enabled
or that goes wrong has no successor. `run` plays a list of actions, `trail`
records the pairs of a state and the action taken in it. The rules below turn a
fact about one step into a fact about every run.
-/

namespace PlanetariumFD.Transition

variable {S A E : Type*}

/-- Play the actions in order, stopping at the first one without a successor. -/
def run (step : S → A → Except E S) : S → List A → Except E S
  | s, [] => .ok s
  | s, a :: as =>
    match step s a with
    | .ok t => run step t as
    | .error e => .error e

/-- The states a run passes through, each with the action taken there. -/
def trail (step : S → A → Except E S) : S → List A → List (S × A)
  | _, [] => []
  | s, a :: as =>
    (s, a) :: match step s a with
      | .ok t => trail step t as
      | .error _ => []

/-- Every action of the run is taken in a state that satisfies the condition. -/
def Throughout (step : S → A → Except E S) (P : S → A → Prop) (s : S) (as : List A) : Prop :=
  ∀ p ∈ trail step s as, P p.1 p.2

/-- The condition can be tested along a run. -/
instance decidableThroughout {step : S → A → Except E S} {P : S → A → Prop}
    [∀ s a, Decidable (P s a)] (s : S) (as : List A) : Decidable (Throughout step P s as) :=
  inferInstanceAs (Decidable (∀ p ∈ trail step s as, P p.1 p.2))

/-- The run passes through the state `t`. -/
def Visits (step : S → A → Except E S) (s : S) (as : List A) (t : S) : Prop :=
  ∃ bs, bs <+: as ∧ run step s bs = .ok t

variable {step : S → A → Except E S}

theorem run_append_iff {s u : S} {as bs : List A} :
    run step s (as ++ bs) = .ok u ↔ ∃ t, run step s as = .ok t ∧ run step t bs = .ok u := by
  induction as generalizing s with
  | nil => simp [run]
  | cons a as ih =>
    simp only [List.cons_append, run]
    cases step s a with
    | error e => simp
    | ok t => exact ih

theorem run_cons {s t : S} {a : A} (h : step s a = .ok t) (as : List A) :
    run step s (a :: as) = run step t as := by
  rw [run, h]

theorem run_singleton {s : S} {a : A} : run step s [a] = step s a := by
  simp only [run]
  cases step s a <;> rfl

theorem run_snoc_iff {s u : S} {as : List A} {a : A} :
    run step s (as ++ [a]) = .ok u ↔ ∃ t, run step s as = .ok t ∧ step t a = .ok u := by
  simp only [run_append_iff, run_singleton]

/-- Induction along a run, by its last step. -/
theorem run_induction {init : S} {P : List A → S → Prop} (nil : P [] init)
    (snoc : ∀ as s a t, run step init as = .ok s → P as s → step s a = .ok t → P (as ++ [a]) t) :
    ∀ {as s}, run step init as = .ok s → P as s := by
  intro as
  induction as using List.reverseRecOn with
  | nil =>
    intro s h
    cases h
    exact nil
  | append_singleton as a ih =>
    intro u h
    obtain ⟨t, ht, hu⟩ := run_snoc_iff.mp h
    exact snoc as t a u ht (ih ht) hu

/-- What one step keeps, a run keeps. -/
theorem run_invariant {P : S → Prop} (keeps : ∀ s a t, P s → step s a = .ok t → P t)
    {s t : S} {as : List A} (hs : P s) (h : run step s as = .ok t) : P t :=
  run_induction (P := fun _ t => P t) hs (fun _ s a t _ ih hst => keeps s a t ih hst) h

theorem trail_append {s t : S} {as : List A} (h : run step s as = .ok t) (bs : List A) :
    trail step s (as ++ bs) = trail step s as ++ trail step t bs := by
  induction as generalizing s with
  | nil =>
    cases h
    rfl
  | cons a as ih =>
    simp only [run] at h
    simp only [List.cons_append, trail]
    cases hst : step s a with
    | error e => simp [hst] at h
    | ok u =>
      simp only [hst] at h
      exact congrArg _ (ih h)

theorem trail_singleton (s : S) (a : A) : trail step s [a] = [(s, a)] := by
  simp only [trail]
  cases step s a <;> rfl

theorem trail_snoc {s t : S} {as : List A} (h : run step s as = .ok t) (a : A) :
    trail step s (as ++ [a]) = trail step s as ++ [(t, a)] := by
  rw [trail_append h, trail_singleton]

theorem throughout_append_iff {P : S → A → Prop} {s t : S} {as : List A}
    (h : run step s as = .ok t) (bs : List A) :
    Throughout step P s (as ++ bs) ↔ Throughout step P s as ∧ Throughout step P t bs := by
  simp only [Throughout, trail_append h, List.mem_append, or_imp, forall_and]

theorem throughout_snoc_iff {P : S → A → Prop} {s t : S} {as : List A}
    (h : run step s as = .ok t) (a : A) :
    Throughout step P s (as ++ [a]) ↔ Throughout step P s as ∧ P t a := by
  rw [throughout_append_iff h, Throughout, Throughout, trail_singleton]
  simp only [List.mem_singleton, forall_eq]

/-- A pair on the trail splits the run at that state. -/
theorem mem_trail {s : S} {as : List A} {p : S × A} (hp : p ∈ trail step s as) :
    ∃ bs cs, as = bs ++ p.2 :: cs ∧ run step s bs = .ok p.1 := by
  induction as generalizing s with
  | nil => cases hp
  | cons a as ih =>
    simp only [trail] at hp
    obtain rfl | hp := List.mem_cons.mp hp
    · exact ⟨[], as, rfl, rfl⟩
    · cases hst : step s a with
      | error e =>
        rw [hst] at hp
        cases hp
      | ok t =>
        rw [hst] at hp
        obtain ⟨bs, cs, rfl, hb⟩ := ih hp
        refine ⟨a :: bs, cs, rfl, ?_⟩
        simp only [run, hst]
        exact hb

/-- What a step keeps under a condition, a run keeps if the condition holds
throughout it. -/
theorem run_invariant_of_throughout {P : S → Prop} {C : S → A → Prop}
    (keeps : ∀ s a t, P s → C s a → step s a = .ok t → P t)
    {s t : S} {as : List A} (hs : P s) (h : run step s as = .ok t)
    (hc : Throughout step C s as) : P t := by
  refine run_induction (P := fun as t => Throughout step C s as → P t) (fun _ => hs) ?_ h hc
  intro as u a t hu ih hst hc
  obtain ⟨hc, hlast⟩ := (throughout_snoc_iff hu a).mp hc
  exact keeps u a t (ih hc) hlast hst

end PlanetariumFD.Transition
