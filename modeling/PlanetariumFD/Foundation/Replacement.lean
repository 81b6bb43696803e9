import Mathlib

/-!
# Keeping the best of a sequence

Candidates come one after the other, and one is kept. Above a threshold a closer
candidate replaces it; below, a larger one that is below as well. A candidate at the
threshold itself is never replaced.
-/

namespace PlanetariumFD.Replacement

universe u v w

variable {ι : Type u} {α : Type v} {β : Type w} [LinearOrder α] [LinearOrder β]
variable (dist : ι → α) (size : ι → β) (t : α)

/-- Candidate `c` replaces `k`. -/
def Better (k c : ι) : Prop :=
  (dist c < dist k ∧ t < dist k) ∨ (dist k < t ∧ dist c < t ∧ size k < size c)

/-- After the candidates `cs`, in this order, `k` is kept. -/
inductive Keeps : List ι → ι → Prop
  | first (c : ι) : Keeps [c] c
  | replaced {cs k c} : Keeps cs k → Better dist size t k c → Keeps (cs ++ [c]) c
  | stays {cs k c} : Keeps cs k → ¬ Better dist size t k c → Keeps (cs ++ [c]) k

/-- A best candidate: one of the largest below the threshold if there are any, else
one of the closest. -/
structure IsBest (cs : List ι) (k : ι) : Prop where
  mem : k ∈ cs
  near : ∀ c ∈ cs, dist c < t → dist k < t ∧ size c ≤ size k
  far : (∀ c ∈ cs, ¬ dist c < t) → ∀ c ∈ cs, dist k ≤ dist c

/-- The candidates before the first one below the threshold. -/
def beforeNear (cs : List ι) : List ι := cs.takeWhile fun c => decide (t ≤ dist c)

/-- No candidate at the threshold itself comes before the first one below it. -/
def Unblocked (cs : List ι) : Prop :=
  (∃ c ∈ cs, dist c < t) → ∀ b ∈ beforeNear dist t cs, t < dist b

/-- Two candidates are equally good. -/
def EquallyGood (k k' : ι) : Prop :=
  (dist k < t ∧ dist k' < t ∧ size k = size k') ∨
    (¬ dist k < t ∧ ¬ dist k' < t ∧ dist k = dist k')

variable {dist size t} {cs cs' : List ι} {k k' : ι}

theorem beforeNear_snoc_of_near (h : ∃ c ∈ cs, dist c < t) (c : ι) :
    beforeNear dist t (cs ++ [c]) = beforeNear dist t cs := by
  have hshort : (cs.takeWhile fun c => decide (t ≤ dist c)).length ≠ cs.length := by
    intro hlength
    have hself := (List.takeWhile_prefix _).eq_of_length hlength
    obtain ⟨b, hb, hlt⟩ := h
    exact absurd (of_decide_eq_true (List.takeWhile_eq_self_iff.mp hself b hb)) (not_le.mpr hlt)
  rw [beforeNear, List.takeWhile_append, if_neg hshort, beforeNear]

theorem beforeNear_append_of_far (h : ∀ c ∈ cs, t ≤ dist c) (ds : List ι) :
    beforeNear dist t (cs ++ ds) = cs ++ beforeNear dist t ds :=
  List.takeWhile_append_of_pos fun c hc => decide_eq_true (h c hc)

theorem beforeNear_singleton (c : ι) :
    beforeNear dist t [c] = if t ≤ dist c then [c] else [] := by
  rw [beforeNear, List.takeWhile_cons, List.takeWhile_nil]
  simp only [decide_eq_true_eq]

/-- Where the kept candidate stands. -/
inductive Stands (dist : ι → α) (size : ι → β) (t : α) (cs : List ι) (k : ι) : Prop
  | near (below : dist k < t) (largest : ∀ c ∈ cs, dist c < t → size c ≤ size k)
    (before : ∀ b ∈ beforeNear dist t cs, t < dist b)
  | far (above : t < dist k) (closest : ∀ c ∈ cs, dist k ≤ dist c)
  | stuck (eq : dist k = t) (before : k ∈ beforeNear dist t cs)

theorem Keeps.mem (h : Keeps dist size t cs k) : k ∈ cs := by
  induction h with
  | first c => exact List.mem_singleton_self c
  | replaced _ _ _ => exact List.mem_append_right _ (List.mem_singleton_self _)
  | stays _ _ ih => exact List.mem_append_left _ ih

theorem stands_singleton (c : ι) : Stands dist size t [c] c := by
  obtain hlt | heq | hgt := lt_trichotomy (dist c) t
  · refine .near hlt (fun b hb _ => ?_) (fun b hb => ?_)
    · rw [List.mem_singleton.mp hb]
    · rw [beforeNear_singleton, if_neg (not_le.mpr hlt)] at hb
      cases hb
  · refine .stuck heq ?_
    rw [beforeNear_singleton, if_pos heq.ge]
    exact List.mem_singleton_self c
  · refine .far hgt fun b hb => ?_
    rw [List.mem_singleton.mp hb]

/-- After candidates above the threshold a closer one takes their place. -/
theorem Stands.closer {c : ι} (hcs : ∀ b ∈ cs, t < dist b) (hcloser : ∀ b ∈ cs, dist c < dist b) :
    Stands dist size t (cs ++ [c]) c := by
  have hsnoc := beforeNear_append_of_far (fun b hb => (hcs b hb).le) [c]
  rw [beforeNear_singleton] at hsnoc
  obtain hlt | heq | hgt := lt_trichotomy (dist c) t
  · -- the first candidate below the threshold
    refine .near hlt (fun b hb hb' => ?_) (fun b hb => ?_)
    · obtain hb | hb := List.mem_append.mp hb
      · exact absurd hb' (hcs b hb).le.not_gt
      · rw [List.mem_singleton.mp hb]
    · rw [hsnoc, if_neg (not_le.mpr hlt), List.append_nil] at hb
      exact hcs b hb
  · refine .stuck heq ?_
    rw [hsnoc, if_pos heq.ge]
    exact List.mem_append_right _ (List.mem_singleton_self c)
  · refine .far hgt fun b hb => ?_
    obtain hb | hb := List.mem_append.mp hb
    · exact (hcloser b hb).le
    · rw [List.mem_singleton.mp hb]

/-- One candidate more, which replaces the kept one. -/
theorem Stands.replaced {c : ι} (h : Stands dist size t cs k) (hmem : k ∈ cs)
    (hbetter : Better dist size t k c) : Stands dist size t (cs ++ [c]) c := by
  cases h with
  | near below largest before =>
    obtain ⟨-, habove⟩ | ⟨-, hc, hsize⟩ := hbetter
    · exact absurd below habove.le.not_gt
    · refine .near hc (fun b hb hlt => ?_) ?_
      · obtain hb | hb := List.mem_append.mp hb
        · exact (largest b hb hlt).trans hsize.le
        · rw [List.mem_singleton.mp hb]
      · rw [beforeNear_snoc_of_near ⟨k, hmem, below⟩]
        exact before
  | far above closest =>
    obtain ⟨hcloser, -⟩ | ⟨hbelow, -⟩ := hbetter
    · exact .closer (fun b hb => above.trans_le (closest b hb))
        fun b hb => hcloser.trans_le (closest b hb)
    · exact absurd hbelow above.le.not_gt
  | stuck eq before =>
    obtain ⟨-, habove⟩ | ⟨hbelow, -⟩ := hbetter
    · exact absurd habove eq.le.not_gt
    · exact absurd hbelow eq.ge.not_gt

/-- One candidate more, which does not. -/
theorem Stands.stays {c : ι} (h : Stands dist size t cs k) (hmem : k ∈ cs)
    (hnot : ¬ Better dist size t k c) : Stands dist size t (cs ++ [c]) k := by
  cases h with
  | near below largest before =>
    refine .near below (fun b hb hlt => ?_) ?_
    · obtain hb | hb := List.mem_append.mp hb
      · exact largest b hb hlt
      · rw [List.mem_singleton.mp hb] at hlt ⊢
        by_contra hsize
        exact hnot (.inr ⟨below, hlt, not_le.mp hsize⟩)
    · rw [beforeNear_snoc_of_near ⟨k, hmem, below⟩]
      exact before
  | far above closest =>
    refine .far above fun b hb => ?_
    obtain hb | hb := List.mem_append.mp hb
    · exact closest b hb
    · rw [List.mem_singleton.mp hb]
      by_contra hcloser
      exact hnot (.inl ⟨not_le.mp hcloser, above⟩)
  | stuck eq before =>
    refine .stuck eq ?_
    by_cases hnear : ∃ b ∈ cs, dist b < t
    · rw [beforeNear_snoc_of_near hnear]
      exact before
    · push Not at hnear
      rw [beforeNear_append_of_far hnear]
      exact List.mem_append_left _ hmem

theorem Keeps.stands (h : Keeps dist size t cs k) : Stands dist size t cs k := by
  induction h with
  | first c => exact stands_singleton c
  | replaced hk hbetter ih => exact ih.replaced hk.mem hbetter
  | stays hk hnot ih => exact ih.stays hk.mem hnot

/-- The kept candidate is a best one exactly when no candidate at the threshold came
before the first one below it. -/
theorem Keeps.isBest_iff (h : Keeps dist size t cs k) :
    IsBest dist size t cs k ↔ Unblocked dist t cs := by
  cases h.stands with
  | near below largest before =>
    refine iff_of_true ⟨h.mem, fun c hc hlt => ⟨below, largest c hc hlt⟩, fun hnone => ?_⟩
      fun _ => before
    exact absurd below (hnone k h.mem)
  | far above closest =>
    have hnone : ∀ c ∈ cs, ¬ dist c < t := fun c hc =>
      (above.trans_le (closest c hc)).le.not_gt
    refine iff_of_true ⟨h.mem, fun c hc hlt => absurd hlt (hnone c hc), fun _ => closest⟩ ?_
    rintro ⟨c, hc, hlt⟩
    exact absurd hlt (hnone c hc)
  | stuck eq before =>
    constructor
    · rintro hbest ⟨c, hc, hlt⟩
      exact absurd (hbest.near c hc hlt).1 eq.ge.not_gt
    · intro hfree
      have hnone : ∀ c ∈ cs, ¬ dist c < t := fun c hc hlt =>
        absurd (hfree ⟨c, hc, hlt⟩ k before) eq.le.not_gt
      exact ⟨h.mem, fun c hc hlt => absurd hlt (hnone c hc),
        fun _ c hc => eq.le.trans (not_lt.mp (hnone c hc))⟩

/-- Best candidates of one collection are equally good, in whatever order they came. -/
theorem IsBest.equallyGood (h : IsBest dist size t cs k) (h' : IsBest dist size t cs' k')
    (hperm : cs.Perm cs') : EquallyGood dist size t k k' := by
  have hk : k ∈ cs' := hperm.mem_iff.mp h.mem
  have hk' : k' ∈ cs := hperm.mem_iff.mpr h'.mem
  by_cases hnear : ∃ c ∈ cs, dist c < t
  · obtain ⟨c, hc, hlt⟩ := hnear
    have hkt := (h.near c hc hlt).1
    have hkt' := (h'.near c (hperm.mem_iff.mp hc) hlt).1
    exact .inl ⟨hkt, hkt', le_antisymm (h'.near k hk hkt).2 (h.near k' hk' hkt').2⟩
  · push Not at hnear
    have hfar : ∀ c ∈ cs, ¬ dist c < t := fun c hc => not_lt.mpr (hnear c hc)
    have hfar' : ∀ c ∈ cs', ¬ dist c < t := fun c hc => hfar c (hperm.mem_iff.mpr hc)
    exact .inr ⟨hfar k h.mem, hfar' k' h'.mem,
      le_antisymm (h.far hfar k' hk') (h'.far hfar' k hk)⟩

end PlanetariumFD.Replacement
