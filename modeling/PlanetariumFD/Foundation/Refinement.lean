import PlanetariumFD.Foundation.Transition

/-!
# Runs of two systems

Three ways to tell what a run of one system says about another. An abstract account of
a system is a relation `next` on abstract states, and a step function refines it if
every step is matched by abstract steps, or by none, between states that describe its
two ends. A coarse system takes in one step what a fine one takes several for; the
coarse state that belongs to a fine one is found by flushing: what has been begun is
completed at once. And if the others of a system leave alone whatever a party's own
actions depend on, then purging a run of their actions gives a run of the party alone.
-/

/-! ## Refinement -/

namespace PlanetariumFD.Refinement

open Transition Relation

variable {S A E T : Type*}

def Refines (step : S → A → Except E S) (next : T → T → Prop) (Describes : S → T → Prop) : Prop :=
  ∀ s a t x, Describes s x → step s a = .ok t → ∃ y, ReflTransGen next x y ∧ Describes t y

variable {step : S → A → Except E S} {next : T → T → Prop} {Describes : S → T → Prop}

/-- A run is matched by abstract steps. -/
theorem Refines.of_run (h : Refines step next Describes) {s t : S} {as : List A} {x : T}
    (hx : Describes s x) (hrun : run step s as = .ok t) :
    ∃ y, ReflTransGen next x y ∧ Describes t y := by
  refine run_invariant (P := fun t => ∃ y, ReflTransGen next x y ∧ Describes t y) ?_
    ⟨x, .refl, hx⟩ hrun
  rintro u a v ⟨y, hxy, hy⟩ hst
  obtain ⟨z, hyz, hz⟩ := h u a v y hy hst
  exact ⟨z, hxy.trans hyz, hz⟩

/-- What no abstract step lowers, abstract steps do not lower. -/
theorem le_of_steps {ι : Type*} [Preorder ι] {rank : T → ι} (h : ∀ x y, next x y → rank x ≤ rank y)
    {x y : T} (hxy : ReflTransGen next x y) : rank x ≤ rank y := by
  induction hxy with
  | refl => exact le_refl _
  | tail _ hstep ih => exact ih.trans (h _ _ hstep)

/-- What every abstract step keeps, abstract steps keep. -/
theorem of_steps {P : T → Prop} (h : ∀ x y, next x y → P x → P y) {x y : T}
    (hxy : ReflTransGen next x y) (hx : P x) : P y := by
  induction hxy with
  | refl => exact hx
  | tail _ hstep ih => exact h _ _ hstep ih

end PlanetariumFD.Refinement

/-! ## Flushing -/

namespace PlanetariumFD.Flushing

open Transition

variable {S C A E E' E'' : Type*}

/-- `flush` completes what has been begun. A fine step shows in the flushed state as one
coarse step or none; a coarse step can be begun, and what has been begun is ended by
the action `own`. -/
structure Flushes (step : S → A → Except E S) (coarse : C → A → Except E' C) (embed : C → S)
    (flush : S → Except E'' C) (own : A) (rank : S → Nat) : Prop where
  embedded : ∀ c, flush (embed c) = .ok c
  follows : ∀ s a t c', step s a = .ok t → flush t = .ok c' →
    ∃ c, flush s = .ok c ∧ (c' = c ∨ coarse c a = .ok c')
  begins : ∀ c a c', coarse c a = .ok c' → ∃ t, step (embed c) a = .ok t ∧ flush t = .ok c'
  drains : ∀ s c, flush s = .ok c →
    s = embed c ∨ ∃ t, step s own = .ok t ∧ flush t = .ok c ∧ rank t < rank s

variable {step : S → A → Except E S} {coarse : C → A → Except E' C} {embed : C → S}
  {flush : S → Except E'' C} {own : A} {rank : S → Nat} {s t : S} {c c' : C} {as : List A}

namespace Flushes

/-- A fine run shows as a coarse run of some of its actions, in their order. -/
theorem coarse_of_run (h : Flushes step coarse embed flush own rank)
    (hrun : run step (embed c) as = .ok t) (ht : flush t = .ok c') :
    ∃ bs, bs.Sublist as ∧ run coarse c bs = .ok c' := by
  refine run_induction (P := fun as t => ∀ c', flush t = .ok c' →
    ∃ bs, bs.Sublist as ∧ run coarse c bs = .ok c') ?_ ?_ hrun c' ht
  · intro c' hc'
    cases (h.embedded c).symm.trans hc'
    exact ⟨[], List.Sublist.refl _, rfl⟩
  · intro as s a t _ ih hst c' hc'
    obtain ⟨d, hd, rfl | hstep⟩ := h.follows s a t c' hst hc'
    · obtain ⟨bs, hsub, hbs⟩ := ih c' hd
      exact ⟨bs, hsub.trans (List.sublist_append_left _ _), hbs⟩
    · obtain ⟨bs, hsub, hbs⟩ := ih d hd
      exact ⟨bs ++ [a], hsub.append (List.Sublist.refl _), run_snoc_iff.mpr ⟨d, hbs, hstep⟩⟩

/-- What has been begun can be ended by steps of its own. -/
theorem drained (h : Flushes step coarse embed flush own rank) (hs : flush s = .ok c) :
    ∃ n, run step s (List.replicate n own) = .ok (embed c) := by
  induction hrank : rank s using Nat.strong_induction_on generalizing s with
  | _ n ih =>
    obtain rfl | ⟨t, hst, ht, hlt⟩ := h.drains s c hs
    · exact ⟨0, rfl⟩
    · obtain ⟨m, hm⟩ := ih (rank t) (hrank ▸ hlt) ht rfl
      exact ⟨m + 1, by rw [List.replicate_succ, run_cons hst, hm]⟩

/-- Every coarse run can be taken in fine steps. -/
theorem run_of_coarse (h : Flushes step coarse embed flush own rank) {bs : List A}
    (hrun : run coarse c bs = .ok c') : ∃ as, run step (embed c) as = .ok (embed c') := by
  refine run_induction (P := fun _ c' => ∃ as, run step (embed c) as = .ok (embed c'))
    ⟨[], rfl⟩ ?_ hrun
  rintro bs d a d' - ⟨as, has⟩ hstep
  obtain ⟨t, hst, ht⟩ := h.begins d a d' hstep
  obtain ⟨n, hn⟩ := h.drained ht
  exact ⟨as ++ a :: List.replicate n own, run_append_iff.mpr ⟨_, has, by rw [run_cons hst, hn]⟩⟩

/-- Both systems reach the same states, where nothing is left half done. -/
theorem reaches_iff (h : Flushes step coarse embed flush own rank) :
    (∃ as, run step (embed c) as = .ok (embed c')) ↔ ∃ as, run coarse c as = .ok c' := by
  constructor
  · rintro ⟨as, has⟩
    obtain ⟨bs, -, hbs⟩ := h.coarse_of_run has (h.embedded c')
    exact ⟨bs, hbs⟩
  · rintro ⟨bs, hbs⟩
    exact h.run_of_coarse hbs

end Flushes

end PlanetariumFD.Flushing

/-! ## What one party cannot notice -/

namespace PlanetariumFD.Transition

variable {S A E : Type*}

/-- `Same s s₀`: the state `s` of the whole system looks to the party like the state `s₀` it
would have reached alone. `I` is what is known of `s`. -/
structure Unwinding (step : S → A → Except E S) (I : S → Prop) (own : A → Bool)
    (Same : S → S → Prop) : Prop where
  keeps : ∀ s a t, I s → step s a = .ok t → I t
  others : ∀ s a t s₀, I s → Same s s₀ → own a = false → step s a = .ok t → Same t s₀
  matched : ∀ s a t s₀, I s → Same s s₀ → own a = true → step s a = .ok t →
    ∃ t₀, step s₀ a = .ok t₀ ∧ Same t t₀

namespace Unwinding

variable {step : S → A → Except E S} {I : S → Prop} {own : A → Bool} {Same : S → S → Prop}
  {s t s₀ : S} {as : List A}

/-- The party's own actions, played alone, lead to a state that looks the same to it. -/
theorem purge (U : Unwinding step I own Same) (hs : I s) (hsame : Same s s₀)
    (h : run step s as = .ok t) :
    ∃ t₀, run step s₀ (as.filter own) = .ok t₀ ∧ Same t t₀ := by
  refine (run_induction (P := fun as t => I t ∧
    ∃ t₀, run step s₀ (as.filter own) = .ok t₀ ∧ Same t t₀) ⟨hs, s₀, rfl, hsame⟩ ?_ h).2
  rintro as u a v - ⟨hu, u₀, hrun, hsame⟩ hst
  refine ⟨U.keeps u a v hu hst, ?_⟩
  rw [List.filter_append]
  cases hown : own a with
  | true =>
    obtain ⟨v₀, hst₀, hsame'⟩ := U.matched u a v u₀ hu hsame hown hst
    refine ⟨v₀, ?_, hsame'⟩
    rw [List.filter_cons_of_pos hown]
    exact run_snoc_iff.mpr ⟨u₀, hrun, hst₀⟩
  | false =>
    refine ⟨u₀, ?_, U.others u a v u₀ hu hsame hown hst⟩
    rw [List.filter_cons_of_neg (by simp [hown]), List.filter_nil, List.append_nil]
    exact hrun

end Unwinding

end PlanetariumFD.Transition
