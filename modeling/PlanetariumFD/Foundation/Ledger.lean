import PlanetariumFD.Foundation.Transition

/-!
# Quantities along a run

Each action changes a quantity of the state by what it brings in and what it takes
out; over a run the changes add up. The rules are relative to an invariant of the
states and a condition that holds throughout the run.
-/

namespace PlanetariumFD.Transition

variable {S A E M : Type*} {step : S → A → Except E S} {I : S → Prop} {C : S → A → Prop} {s t : S}
  {as : List A}

/-- A quantity that no step lowers is not lowered by a run. -/
theorem run_mono [Preorder M] (rank : S → M) (keeps : ∀ s a t, I s → step s a = .ok t → I t)
    (mono : ∀ s a t, I s → step s a = .ok t → rank s ≤ rank t) (hs : I s)
    (h : run step s as = .ok t) : rank s ≤ rank t := by
  refine (run_induction (P := fun _ t => I t ∧ rank s ≤ rank t) ⟨hs, le_refl _⟩ ?_ h).2
  rintro as u a v - ⟨hu, hle⟩ hst
  exact ⟨keeps u a v hu hst, hle.trans (mono u a v hu hst)⟩

/-- What is left and what was taken out never exceed what there was and what came in. -/
theorem run_budget [AddCommMonoid M] [PartialOrder M] [IsOrderedAddMonoid M] (worth : S → M)
    (income expense : A → M) (keeps : ∀ s a t, I s → C s a → step s a = .ok t → I t)
    (pays : ∀ s a t, I s → C s a → step s a = .ok t → worth t + expense a ≤ worth s + income a)
    (hs : I s) (hc : Throughout step C s as) (h : run step s as = .ok t) :
    worth t + (as.map expense).sum ≤ worth s + (as.map income).sum := by
  refine (run_induction (P := fun as t => Throughout step C s as →
    I t ∧ worth t + (as.map expense).sum ≤ worth s + (as.map income).sum)
      (fun _ => ⟨hs, by simp⟩) ?_ h hc).2
  intro as u a v hrun ih hst hc
  obtain ⟨hc, ha⟩ := (throughout_snoc_iff hrun a).mp hc
  obtain ⟨hu, hle⟩ := ih hc
  refine ⟨keeps u a v hu ha hst, ?_⟩
  simp only [List.map_append, List.map_singleton, List.sum_append, List.sum_singleton]
  calc
    worth v + ((as.map expense).sum + expense a)
        = worth v + expense a + (as.map expense).sum := by abel
    _ ≤ worth u + income a + (as.map expense).sum := add_le_add_left (pays u a v hu ha hst) _
    _ = worth u + (as.map expense).sum + income a := by abel
    _ ≤ worth s + (as.map income).sum + income a := add_le_add_left hle _
    _ = worth s + ((as.map income).sum + income a) := by abel

/-- With exact books for each step, the books of the run are exact. -/
theorem run_balance [AddCommMonoid M] [PartialOrder M] [IsOrderedAddMonoid M] (worth : S → M)
    (income expense : A → M) (keeps : ∀ s a t, I s → C s a → step s a = .ok t → I t)
    (pays : ∀ s a t, I s → C s a → step s a = .ok t → worth t + expense a = worth s + income a)
    (hs : I s) (hc : Throughout step C s as) (h : run step s as = .ok t) :
    worth t + (as.map expense).sum = worth s + (as.map income).sum := by
  refine le_antisymm
    (run_budget worth income expense keeps (fun u a v hu ha hst => (pays u a v hu ha hst).le) hs hc h) ?_
  -- the other half is the same rule in the reversed order
  exact run_budget (M := Mᵒᵈ) worth income expense keeps
    (fun u a v hu ha hst => (pays u a v hu ha hst).ge) hs hc h

/-- Actions worth one each. -/
theorem sum_indicator (p : A → Bool) (as : List A) :
    (as.map fun a => if p a = true then 1 else 0).sum = as.countP p := by
  induction as with
  | nil => rfl
  | cons a as ih => rw [List.map_cons, List.sum_cons, ih, List.countP_cons, add_comm]

end PlanetariumFD.Transition
