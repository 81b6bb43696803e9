import PlanetariumFD.Foundation.Transition

/-!
# The turns of one party

Several parties share a system. A rank that a party's own actions lower, and that no
other action raises, bounds the turns the party can take, however the actions are
interleaved: no other party can keep it from its end.
-/

namespace PlanetariumFD.Transition

variable {S A E : Type*}

/-- `I` is kept by all actions, the rank is lowered by the actions of the party and not
raised by the others. -/
structure Variant (step : S → A → Except E S) (I : S → Prop) (own : A → Bool) (rank : S → Nat) :
    Prop where
  keeps : ∀ s a t, I s → step s a = .ok t → I t
  lowers : ∀ s a t, I s → own a = true → step s a = .ok t → rank t < rank s
  others : ∀ s a t, I s → own a = false → step s a = .ok t → rank t ≤ rank s

namespace Variant

variable {step : S → A → Except E S} {I : S → Prop} {own : A → Bool} {rank : S → Nat}
  {s t : S} {as : List A}

/-- The turns taken and the rank left never exceed the rank at the start. -/
theorem turns_add_rank_le (V : Variant step I own rank) (hs : I s) (h : run step s as = .ok t) :
    as.countP own + rank t ≤ rank s := by
  refine (run_induction (P := fun as t => I t ∧ as.countP own + rank t ≤ rank s)
    ⟨hs, by simp⟩ ?_ h).2
  rintro as u a v - ⟨hu, hle⟩ hst
  refine ⟨V.keeps u a v hu hst, ?_⟩
  rw [List.countP_append, List.countP_singleton]
  cases hown : own a with
  | true =>
    have hlt := V.lowers u a v hu hown hst
    rw [if_pos rfl]
    omega
  | false =>
    have hle' := V.others u a v hu hown hst
    rw [if_neg Bool.false_ne_true]
    omega

/-- A party that has taken as many turns as its rank has none left. -/
theorem rank_eq_zero (V : Variant step I own rank) (hs : I s) (h : run step s as = .ok t)
    (hturns : rank s ≤ as.countP own) : rank t = 0 := by
  have := V.turns_add_rank_le hs h
  omega

/-- The first `n` actions of an infinite run are a run. -/
theorem run_of_path {σ : Nat → S} {α : Nat → A} (hstep : ∀ n, step (σ n) (α n) = .ok (σ (n + 1)))
    (n : Nat) : run step (σ 0) ((List.range n).map α) = .ok (σ n) := by
  induction n with
  | zero => rfl
  | succ n ih =>
    rw [List.range_succ, List.map_append]
    exact run_snoc_iff.mpr ⟨σ n, ih, hstep n⟩

/-- No infinite run gives the party turns again and again. -/
theorem finite_turns (V : Variant step I own rank) {σ : Nat → S} {α : Nat → A} (h₀ : I (σ 0))
    (hstep : ∀ n, step (σ n) (α n) = .ok (σ (n + 1))) : {n | own (α n) = true}.Finite := by
  by_contra hinf
  -- more turns than the rank allows
  obtain ⟨js, hjs, hcard⟩ := (show {n | own (α n) = true}.Infinite from hinf).exists_subset_card_eq
    (rank (σ 0) + 1)
  obtain ⟨n, hn⟩ : ∃ n, ∀ j ∈ js, j < n := ⟨js.sup id + 1, fun j hj =>
    Nat.lt_succ_of_le (Finset.le_sup (f := id) hj)⟩
  have hle := V.turns_add_rank_le h₀ (run_of_path hstep n)
  have hsub : js ⊆ (Finset.range n).filter fun j => own (α j) = true := fun j hj =>
    Finset.mem_filter.mpr ⟨Finset.mem_range.mpr (hn j hj), hjs hj⟩
  have hcount : ((Finset.range n).filter fun j => own (α j) = true).card =
      ((List.range n).map α).countP own := by
    rw [List.countP_map, List.countP_eq_length_filter]
    simp [Finset.card, Finset.filter, Finset.range, Multiset.range, Function.comp_def]
  have := Finset.card_le_card hsub
  omega

end Variant

/-- A condition on the actions alone holds of every action of the run. -/
theorem Throughout.forall_mem {step : S → A → Except E S} {p : A → Prop} {s t : S} {as : List A}
    (hc : Throughout step (fun _ a => p a) s as) (h : run step s as = .ok t) : ∀ a ∈ as, p a := by
  intro a ha
  obtain ⟨bs, cs, rfl⟩ := List.append_of_mem ha
  obtain ⟨u, hu, -⟩ := run_append_iff.mp h
  exact ((throughout_append_iff hu _).mp hc).2 (u, a) List.mem_cons_self

/-- A system that has an allowed step wherever it has not come to its end, one that brings it
nearer to it, can be brought to it by allowed steps. -/
theorem exists_run_of_rank {step : S → A → Except E S} {I Done : S → Prop}
    {allowed : S → A → Prop} (rank : S → Nat) (goesOn : ∀ s, I s → ¬Done s →
      ∃ a t, allowed s a ∧ step s a = .ok t ∧ I t ∧ rank t < rank s) {s : S} (hs : I s) :
    ∃ as t, Throughout step allowed s as ∧ run step s as = .ok t ∧ I t ∧ Done t := by
  induction hn : rank s using Nat.strong_induction_on generalizing s with
  | _ n ih =>
    by_cases hdone : Done s
    · exact ⟨[], s, fun p hp => (List.not_mem_nil hp).elim, rfl, hs, hdone⟩
    · obtain ⟨a, t, ha, hst, ht, hlt⟩ := goesOn s hs hdone
      obtain ⟨as, u, has, hrun, hu⟩ := ih (rank t) (hn ▸ hlt) ht rfl
      refine ⟨[a] ++ as, u, ?_, (run_cons hst as).trans hrun, hu⟩
      rw [throughout_append_iff (run_singleton.trans hst), Throughout, trail_singleton]
      refine ⟨fun p hp => ?_, has⟩
      obtain rfl := List.mem_singleton.mp hp
      exact ha

end PlanetariumFD.Transition
