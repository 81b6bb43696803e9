import Mathlib

/-!
# Reflected counters

A counter that adds a signed amount and is clamped at zero holds the greatest
sum over the suffixes of the amounts added so far, the empty suffix included.
-/

namespace PlanetariumFD.Reflected

variable {G : Type*} [AddCommGroup G] [LinearOrder G] [IsOrderedAddMonoid G]

/-- The sums over the suffixes of a list. -/
def suffixSums (xs : List G) : Set G := {s | ∃ t, t <:+ xs ∧ s = t.sum}

omit [LinearOrder G] [IsOrderedAddMonoid G] in
theorem zero_mem_suffixSums (xs : List G) : 0 ∈ suffixSums xs :=
  ⟨[], List.nil_suffix, rfl⟩

omit [LinearOrder G] [IsOrderedAddMonoid G] in
/-- A suffix sum after one more amount is the empty one or extends an old one. -/
theorem mem_suffixSums_snoc {xs : List G} {x s : G} :
    s ∈ suffixSums (xs ++ [x]) ↔ s = 0 ∨ ∃ r ∈ suffixSums xs, s = r + x := by
  constructor
  · rintro ⟨t, ht, rfl⟩
    obtain rfl | ⟨u, rfl, hu⟩ := List.suffix_concat_iff.mp ht
    · exact .inl rfl
    · exact .inr ⟨u.sum, ⟨u, hu, rfl⟩, by simp⟩
  · rintro (rfl | ⟨r, ⟨u, hu, rfl⟩, rfl⟩)
    · exact zero_mem_suffixSums _
    · exact ⟨u ++ [x], List.suffix_append_self_iff.mpr hu, by simp⟩

omit [IsOrderedAddMonoid G] in
theorem isGreatest_suffixSums_nil : IsGreatest (suffixSums ([] : List G)) 0 := by
  refine ⟨zero_mem_suffixSums _, ?_⟩
  rintro s ⟨t, ht, rfl⟩
  rw [List.suffix_nil.mp ht, List.sum_nil]

/-- One step of the counter. -/
theorem isGreatest_suffixSums_snoc {xs : List G} {c : G} (h : IsGreatest (suffixSums xs) c) (x : G) :
    IsGreatest (suffixSums (xs ++ [x])) (max 0 (c + x)) := by
  constructor
  · rw [mem_suffixSums_snoc]
    rcases max_choice 0 (c + x) with he | he
    · exact .inl he
    · exact .inr ⟨c, h.1, he⟩
  · intro s hs
    obtain rfl | ⟨r, hr, rfl⟩ := mem_suffixSums_snoc.mp hs
    · exact le_max_left _ _
    · exact le_max_of_le_right (by gcongr; exact h.2 hr)

omit [IsOrderedAddMonoid G] in
theorem nonneg_of_isGreatest {xs : List G} {c : G} (h : IsGreatest (suffixSums xs) c) : 0 ≤ c :=
  h.2 (zero_mem_suffixSums xs)

end PlanetariumFD.Reflected
