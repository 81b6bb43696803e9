import Mathlib

/-!
# Convolution of finite sequences

Entry `i` of the convolution of `m` values with `n` weights sums over the positions
whose weight is among the `n`. With positive weights, an entry divided by the sum of
the weights it uses is a mean of the values it uses.
-/

namespace PlanetariumFD.FiniteConvolution

/-- The positions below `m` that meet a weight below `n` in entry `i`. -/
def valid (m n i : ℕ) : Finset ℕ := {j ∈ Finset.range m | j ≤ i ∧ i < j + n}

theorem mem_valid {m n i j : ℕ} : j ∈ valid m n i ↔ j < m ∧ j ≤ i ∧ i < j + n := by
  rw [valid, Finset.mem_filter, Finset.mem_range]

theorem valid_eq_Ico (m n i : ℕ) : valid m n i = Finset.Ico (i + 1 - n) (min m (i + 1)) := by
  ext j
  rw [mem_valid, Finset.mem_Ico]
  omega

theorem valid_nonempty {m n i : ℕ} (hm : 0 < m) (hn : 0 < n) (hi : i + 1 < m + n) :
    (valid m n i).Nonempty := by
  rw [valid_eq_Ico]
  exact Finset.nonempty_Ico.mpr (by omega)

section
variable {K : Type*} [Field K]

def entry (x y : ℕ → K) (m n i : ℕ) : K := ∑ j ∈ valid m n i, x j * y (i - j)

def weight (y : ℕ → K) (m n i : ℕ) : K := ∑ j ∈ valid m n i, y (i - j)

theorem entry_congr {x x' y y' : ℕ → K} {m n i : ℕ} (hx : ∀ j < m, x j = x' j)
    (hy : ∀ j < n, y j = y' j) : entry x y m n i = entry x' y' m n i := by
  refine Finset.sum_congr rfl fun j hj => ?_
  obtain ⟨hjm, hji, hjn⟩ := mem_valid.mp hj
  rw [hx j hjm, hy (i - j) (by omega)]

/-- The convolution of ones is the sum of the weights. -/
theorem entry_one (y : ℕ → K) (m n i : ℕ) : entry (fun _ => 1) y m n i = weight y m n i :=
  Finset.sum_congr rfl fun _ _ => one_mul _

variable [LinearOrder K] [IsStrictOrderedRing K] {x y : ℕ → K} {m n i : ℕ}

theorem weight_pos (hm : 0 < m) (hn : 0 < n) (hi : i + 1 < m + n) (hy : ∀ j < n, 0 < y j) :
    0 < weight y m n i := by
  refine Finset.sum_pos (fun j hj => hy _ ?_) (valid_nonempty hm hn hi)
  have hmem := mem_valid.mp hj
  omega

/-- The weighted mean lies between two of the values it is taken of. -/
theorem exists_le_mean (hm : 0 < m) (hn : 0 < n) (hi : i + 1 < m + n) (hy : ∀ j < n, 0 < y j)
    (x : ℕ → K) :
    (∃ j ∈ valid m n i, x j ≤ entry x y m n i / weight y m n i) ∧
      ∃ j ∈ valid m n i, entry x y m n i / weight y m n i ≤ x j := by
  have hpos := weight_pos hm hn hi hy
  have hw : ∀ j ∈ valid m n i, 0 < y (i - j) := by
    intro j hj
    have hmem := mem_valid.mp hj
    exact hy _ (by omega)
  -- the mean in every place gives the same weighted sum
  have hsum : ∑ j ∈ valid m n i, entry x y m n i / weight y m n i * y (i - j) =
      ∑ j ∈ valid m n i, x j * y (i - j) := by
    rw [← Finset.mul_sum]
    exact div_mul_cancel₀ _ hpos.ne'
  have hne := valid_nonempty hm hn hi
  obtain ⟨j, hj, hlo⟩ := Finset.exists_le_of_sum_le hne hsum.ge
  obtain ⟨j', hj', hhi⟩ := Finset.exists_le_of_sum_le hne hsum.le
  exact ⟨⟨j, hj, le_of_mul_le_mul_right hlo (hw j hj)⟩,
    ⟨j', hj', le_of_mul_le_mul_right hhi (hw j' hj')⟩⟩

end

end PlanetariumFD.FiniteConvolution
