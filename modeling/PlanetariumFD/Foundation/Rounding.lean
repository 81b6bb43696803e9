import Mathlib

/-!
# Rounded means

Rounding to a nearest integer, halves up, in a linear ordered field with floor,
and the mean of a sequence over a window that is cut off at the ends.
-/

namespace PlanetariumFD.Rounding

section
variable {α : Type*} [Field α] [LinearOrder α] [IsStrictOrderedRing α] [FloorRing α]

theorem le_round_iff {x : α} {n : ℤ} : n ≤ round x ↔ (n : α) ≤ x + 1 / 2 := by
  rw [round_eq, Int.le_floor]

theorem round_of_le {x : α} {n : ℤ} (h : (n : α) ≤ x) : n ≤ round x := by
  rw [le_round_iff]
  linarith

theorem round_mono {x y : α} (h : x ≤ y) : round x ≤ round y := by
  rw [round_eq, round_eq]
  exact Int.floor_mono (by linarith)

theorem round_of_ge {x : α} {n : ℤ} (h : x ≤ n) : round x ≤ n := by
  have hmono := round_mono h
  rwa [round_intCast] at hmono

theorem round_le_add_half (x : α) : (round x : α) ≤ x + 1 / 2 := by
  rw [round_eq]
  exact Int.floor_le _

/-- Numbers that leave any slack at all stay within an integer bound when rounded. -/
theorem round_add_round_le {x y : α} {n : ℤ} (h : x + y < n) : round x + round y ≤ n := by
  have hx := round_le_add_half x
  have hy := round_le_add_half y
  rw [← Int.lt_add_one_iff, ← Int.cast_lt (R := α)]
  push_cast
  linarith

/-- If two numbers with a slack of one exhaust their bound when rounded, the first is a
half-integer. -/
theorem round_eq_add_half {x y : α} {n : ℤ} (h : x + y ≤ n) (hn : n + 1 ≤ round x + round y) :
    (round x : α) = x + 1 / 2 := by
  have hx := round_le_add_half x
  have hy := round_le_add_half y
  have hsum : (n : α) + 1 ≤ round x + round y := by exact_mod_cast hn
  linarith

/-- No two multiples in a row are half-integers. -/
theorem not_half_twice {q : α} {i : ℤ} (h : (round ((i : α) * q) : α) = i * q + 1 / 2) :
    (round (((i + 1 : ℤ) : α) * q) : α) ≠ ((i + 1 : ℤ) : α) * q + 1 / 2 := by
  intro h'
  obtain ⟨z, hz⟩ : ∃ z : ℤ, q = z :=
    ⟨round (((i + 1 : ℤ) : α) * q) - round ((i : α) * q), by
      push_cast at h' ⊢
      rw [h, h']
      ring⟩
  -- then the multiples are integers
  rw [hz, ← Int.cast_mul, round_intCast] at h
  linarith

/-- Of two multiples in a row one stays within the bound when rounded. -/
theorem round_mul_add_le_or {q q' : α} {i n : ℤ} (h : (i : α) * q + i * q' ≤ n)
    (h' : ((i + 1 : ℤ) : α) * q + ((i + 1 : ℤ) : α) * q' ≤ n) :
    round ((i : α) * q) + round ((i : α) * q') ≤ n ∨
      round (((i + 1 : ℤ) : α) * q) + round (((i + 1 : ℤ) : α) * q') ≤ n := by
  by_contra hnot
  rw [not_or, not_le, not_le] at hnot
  exact not_half_twice (round_eq_add_half h (by omega)) (round_eq_add_half h' (by omega))

omit [FloorRing α] in
/-- A number between two others, both above a bound, is above it. -/
theorem le_lerp {a b l s : α} (h0 : 0 ≤ s) (h1 : s ≤ 1) (ha : l ≤ a) (hb : l ≤ b) :
    l ≤ a + s * (b - a) := by
  have hconv : a + s * (b - a) = (1 - s) * a + s * b := by ring
  have h2 : 0 ≤ 1 - s := by linarith
  calc l = (1 - s) * l + s * l := by ring
    _ ≤ (1 - s) * a + s * b := by gcongr
    _ = a + s * (b - a) := hconv.symm

omit [FloorRing α] in
/-- A number between two others, both below a bound, is below it. -/
theorem lerp_le {a b u s : α} (h0 : 0 ≤ s) (h1 : s ≤ 1) (ha : a ≤ u) (hb : b ≤ u) :
    a + s * (b - a) ≤ u := by
  have h := le_lerp (l := -u) h0 h1 (neg_le_neg ha) (neg_le_neg hb)
  linarith

/-- The mean of `x` over the positions within `r` of `t` and below `n`. -/
def windowMean (x : ℕ → α) (r n t : ℕ) : α :=
  (∑ j ∈ Finset.Ico (t - r) (min n (t + r + 1)), x j) / ((min n (t + r + 1) - (t - r) : ℕ) : α)

omit [LinearOrder α] [IsStrictOrderedRing α] [FloorRing α] in
theorem windowMean_congr {x y : ℕ → α} {r n t : ℕ} (h : ∀ j < n, x j = y j) :
    windowMean x r n t = windowMean y r n t := by
  rw [windowMean, windowMean]
  congr 1
  refine Finset.sum_congr rfl fun j hj => h j ?_
  rw [Finset.mem_Ico] at hj
  omega

omit [FloorRing α] in
theorem le_windowMean {x : ℕ → α} {r n t : ℕ} {l : α} (ht : t < n) (h : ∀ j < n, l ≤ x j) :
    l ≤ windowMean x r n t := by
  have hpos : 0 < min n (t + r + 1) - (t - r) := by omega
  rw [windowMean, le_div_iff₀ (by exact_mod_cast hpos)]
  have hcard := Finset.card_nsmul_le_sum (Finset.Ico (t - r) (min n (t + r + 1))) x l fun j hj => by
    rw [Finset.mem_Ico] at hj
    exact h j (by omega)
  rw [Nat.card_Ico, nsmul_eq_mul, mul_comm] at hcard
  exact hcard

omit [FloorRing α] in
/-- The mean of one value is that value. -/
theorem windowMean_const {c : α} {r n t : ℕ} (ht : t < n) : windowMean (fun _ => c) r n t = c := by
  have hpos : 0 < min n (t + r + 1) - (t - r) := by omega
  have hne : ((min n (t + r + 1) - (t - r) : ℕ) : α) ≠ 0 := by exact_mod_cast hpos.ne'
  rw [windowMean, Finset.sum_const, Nat.card_Ico, nsmul_eq_mul, mul_div_cancel_left₀ c hne]

omit [FloorRing α] in
/-- A shift of all values shifts the mean. -/
theorem windowMean_add_const {x : ℕ → α} {c : α} {r n t : ℕ} (ht : t < n) :
    windowMean (fun j => x j + c) r n t = windowMean x r n t + c := by
  have hconst := windowMean_const (c := c) (r := r) ht
  rw [windowMean] at hconst
  rw [windowMean, windowMean, Finset.sum_add_distrib, add_div, hconst]

omit [FloorRing α] in
/-- The values of a window add up to as many times their mean. -/
theorem sum_windowMean {x : ℕ → α} {r n t : ℕ} (ht : t < n) :
    ∑ _j ∈ Finset.Ico (t - r) (min n (t + r + 1)), windowMean x r n t =
      ∑ j ∈ Finset.Ico (t - r) (min n (t + r + 1)), x j := by
  have hpos : 0 < min n (t + r + 1) - (t - r) := by omega
  have hne : ((min n (t + r + 1) - (t - r) : ℕ) : α) ≠ 0 := by exact_mod_cast hpos.ne'
  rw [Finset.sum_const, Nat.card_Ico, nsmul_eq_mul, windowMean, mul_div_cancel₀ _ hne]

omit [FloorRing α] in
/-- Some value of the window is at most the mean, and some at least. -/
theorem exists_le_windowMean (x : ℕ → α) {r n t : ℕ} (ht : t < n) :
    (∃ j < n, j ≤ t + r ∧ t ≤ j + r ∧ x j ≤ windowMean x r n t) ∧
      ∃ j < n, j ≤ t + r ∧ t ≤ j + r ∧ windowMean x r n t ≤ x j := by
  have hne : (Finset.Ico (t - r) (min n (t + r + 1))).Nonempty :=
    Finset.nonempty_Ico.mpr (by omega)
  have hsum := sum_windowMean (x := x) (r := r) ht
  obtain ⟨i, hi, hlo⟩ := Finset.exists_le_of_sum_le hne hsum.ge
  obtain ⟨j, hj, hhi⟩ := Finset.exists_le_of_sum_le hne hsum.le
  rw [Finset.mem_Ico] at hi hj
  exact ⟨⟨i, by omega, by omega, by omega, hlo⟩, ⟨j, by omega, by omega, by omega, hhi⟩⟩

omit [FloorRing α] in
theorem windowMean_le {x : ℕ → α} {r n t : ℕ} {u : α} (ht : t < n) (h : ∀ j < n, x j ≤ u) :
    windowMean x r n t ≤ u := by
  obtain ⟨-, j, hj, -, -, hle⟩ := exists_le_windowMean x ht
  exact hle.trans (h j hj)

omit [LinearOrder α] [IsStrictOrderedRing α] [FloorRing α] in
theorem windowMean_add (x y : ℕ → α) (r n t : ℕ) :
    windowMean (fun j => x j + y j) r n t = windowMean x r n t + windowMean y r n t := by
  rw [windowMean, windowMean, windowMean, Finset.sum_add_distrib, add_div]

omit [FloorRing α] in
/-- Of two neighbours one is below the bound, so the mean is. -/
theorem windowMean_lt {x : ℕ → α} {r n t : ℕ} {u : α} (hr : 0 < r) (ht : t < n)
    (h : ∀ j < n, x j ≤ u) (hpair : ∀ j, j + 1 < n → x j < u ∨ x (j + 1) < u)
    (hone : n = 1 → x 0 < u) : windowMean x r n t < u := by
  have hpos : 0 < min n (t + r + 1) - (t - r) := by omega
  have hbelow : ∃ j ∈ Finset.Ico (t - r) (min n (t + r + 1)), x j < u := by
    simp only [Finset.mem_Ico]
    by_cases hn : n = 1
    · obtain rfl : t = 0 := by omega
      exact ⟨0, by omega, hone hn⟩
    · obtain hlt | hlt := hpair (t - r) (by omega)
      · exact ⟨t - r, by omega, hlt⟩
      · exact ⟨t - r + 1, by omega, hlt⟩
  rw [windowMean, div_lt_iff₀ (by exact_mod_cast hpos)]
  calc
    ∑ j ∈ Finset.Ico (t - r) (min n (t + r + 1)), x j <
        ∑ _j ∈ Finset.Ico (t - r) (min n (t + r + 1)), u :=
      Finset.sum_lt_sum (fun j hj => h j (by rw [Finset.mem_Ico] at hj; omega)) hbelow
    _ = u * ((min n (t + r + 1) - (t - r) : ℕ) : α) := by
      rw [Finset.sum_const, Nat.card_Ico, nsmul_eq_mul, mul_comm]

omit [LinearOrder α] [IsStrictOrderedRing α] [FloorRing α] in
/-- Windows that reach over both ends are the same window. -/
theorem windowMean_of_le {x : ℕ → α} {r s n t : ℕ} (ht : t < n) (hr : n ≤ r + 1) (hs : n ≤ s + 1) :
    windowMean x r n t = windowMean x s n t := by
  have hlo : t - r = t - s := by omega
  have hhi : min n (t + r + 1) = min n (t + s + 1) := by omega
  rw [windowMean, windowMean, hlo, hhi]

end

end PlanetariumFD.Rounding
