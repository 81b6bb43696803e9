import PlanetariumFD.Foundation.FiniteConvolution
import PlanetariumFD.Foundation.Outcome
import PlanetariumFD.Detector.Face

/-!
# The two convolutions

`LinearConvolution` writes every entry of a convolution, `LinearConvolutionSame` the
middle ones, each divided by the weights it used. Both are templates over the element
type. A read outside an array is a fault.
-/

namespace PlanetariumFD.FdUtil

open Outcome FiniteConvolution

section
variable {T : Type*} [Zero T] [Add T] [Mul T]

/-- The inner loop of `LinearConvolution`, `turns` turns from `n`. -/
def sumAt (X Y : List T) (i : Nat) : (n turns : Nat) → T → Except Fault T
  | _, 0, sum => .ok sum
  | n, turns + 1, sum =>
    match X[n]?, Y[i - n]? with
    | some x, some y => sumAt X Y i (n + 1) turns (sum + x * y)
    | _, _ => .error .indexOutOfRange

/-- Its outer loop, `turns` turns from `i`; `Z` is what has been written. -/
def linearConvolutionFrom (X Y : List T) (lenx leny : Nat) :
    (i turns : Nat) → List T → Except Fault (List T)
  | _, 0, Z => .ok Z
  | i, turns + 1, Z => do
    let sum ← sumAt X Y i (i + 1 - leny) (min lenx (i + 1) - (i + 1 - leny)) 0
    linearConvolutionFrom X Y lenx leny (i + 1) turns (Z ++ [sum])

def linearConvolution (X Y : List T) (lenx leny : Nat) : Except Fault (List T) :=
  linearConvolutionFrom X Y lenx leny 0 (lenx + leny - 1) []

/-- The inner loop of `LinearConvolutionSame`: `sum` and `normalize`. -/
def convolveAt (X Y : List T) (i : Nat) : (n turns : Nat) → T × T → Except Fault (T × T)
  | _, 0, acc => .ok acc
  | n, turns + 1, acc =>
    match X[n]?, Y[i - n]? with
    | some x, some y => convolveAt X Y i (n + 1) turns (acc.1 + x * y, acc.2 + y)
    | _, _ => .error .indexOutOfRange

/-- The window of turn `i` of the outer loop: `n_lo` to `n_hi`. -/
def convolveWindow (X Y : List T) (lenx leny i : Nat) : Except Fault (T × T) :=
  convolveAt X Y i (i + 1 - leny) (min lenx (i + 1) - (i + 1 - leny)) (0, 0)

variable [Div T]

/-- The outer loop returns once `lenx` outputs are behind it, and starts to write
half a filter late. -/
def linearConvolutionSameFrom (X Y : List T) (lenx leny : Nat) :
    (i turns : Nat) → List T → Except Fault (List T)
  | _, 0, Z => .ok Z
  | i, turns + 1, Z =>
    if lenx + leny / 2 ≤ i then .ok Z
    else do
      let acc ← convolveWindow X Y lenx leny i
      linearConvolutionSameFrom X Y lenx leny (i + 1) turns
        (if leny / 2 ≤ i then Z ++ [acc.1 / acc.2] else Z)

def linearConvolutionSame (X Y : List T) (lenx leny : Nat) : Except Fault (List T) :=
  linearConvolutionSameFrom X Y lenx leny 0 (lenx + leny - 1) []

end

/-! ## The outer loops, given the inner ones -/

section
variable {T : Type*} [Zero T] [Add T] [Mul T] {X Y : List T} {lenx leny : Nat}

theorem linearConvolutionFrom_eq {s : Nat → T} {len : Nat}
    (hs : ∀ i < len, sumAt X Y i (i + 1 - leny) (min lenx (i + 1) - (i + 1 - leny)) 0 = .ok (s i)) :
    ∀ turns i, i + turns = len →
      linearConvolutionFrom X Y lenx leny i turns ((List.range i).map s) =
        .ok ((List.range len).map s) := by
  intro turns
  induction turns with
  | zero =>
    intro i hi
    rw [linearConvolutionFrom, ← hi, Nat.add_zero]
  | succ turns ih =>
    intro i hi
    have hsucc : (List.range i).map s ++ [s i] = (List.range (i + 1)).map s := by
      rw [List.range_succ, List.map_append, List.map_singleton]
    rw [linearConvolutionFrom, hs i (by omega), ok_bind, hsucc]
    exact ih (i + 1) (by omega)

theorem linearConvolution_eq {s : Nat → T}
    (hs : ∀ i < lenx + leny - 1,
      sumAt X Y i (i + 1 - leny) (min lenx (i + 1) - (i + 1 - leny)) 0 = .ok (s i)) :
    linearConvolution X Y lenx leny = .ok ((List.range (lenx + leny - 1)).map s) :=
  linearConvolutionFrom_eq hs _ 0 (Nat.zero_add _)

variable [Div T]

/-- Turn `i` of the outer loop writes position `i - leny / 2`, so when it stops
every position has been written in order. -/
theorem linearConvolutionSameFrom_eq {s : Nat → T × T}
    (hs : ∀ i < lenx + leny / 2, convolveWindow X Y lenx leny i = .ok (s i)) :
    ∀ turns i, i ≤ lenx + leny / 2 →
      linearConvolutionSameFrom X Y lenx leny i turns ((List.range (i - leny / 2)).map fun t =>
          (s (t + leny / 2)).1 / (s (t + leny / 2)).2) =
        .ok ((List.range (min (i + turns) (lenx + leny / 2) - leny / 2)).map fun t =>
          (s (t + leny / 2)).1 / (s (t + leny / 2)).2) := by
  intro turns
  induction turns with
  | zero =>
    intro i hi
    rw [linearConvolutionSameFrom, Nat.add_zero, min_eq_left hi]
  | succ turns ih =>
    intro i hi
    rw [linearConvolutionSameFrom]
    split
    · next hstop =>
      have he : min (i + (turns + 1)) (lenx + leny / 2) = i := by omega
      rw [he]
    · next hgo =>
      rw [hs i (by omega), ok_bind]
      have hwritten : (if leny / 2 ≤ i then
            ((List.range (i - leny / 2)).map fun t =>
              (s (t + leny / 2)).1 / (s (t + leny / 2)).2) ++ [(s i).1 / (s i).2]
          else (List.range (i - leny / 2)).map fun t =>
              (s (t + leny / 2)).1 / (s (t + leny / 2)).2) =
          (List.range (i + 1 - leny / 2)).map fun t =>
            (s (t + leny / 2)).1 / (s (t + leny / 2)).2 := by
        -- the first half filter of turns writes nothing
        by_cases hle : leny / 2 ≤ i
        · have hsucc : i + 1 - leny / 2 = i - leny / 2 + 1 := by omega
          have hpos : i - leny / 2 + leny / 2 = i := by omega
          rw [if_pos hle, hsucc, List.range_succ, List.map_append, List.map_singleton, hpos]
        · have h₀ : i - leny / 2 = 0 := by omega
          have h₁ : i + 1 - leny / 2 = 0 := by omega
          rw [if_neg hle, h₀, h₁]
      have hturns : i + 1 + turns = i + (turns + 1) := by omega
      rw [hwritten, ih (i + 1) (by omega), hturns]

theorem linearConvolutionSame_eq {s : Nat → T × T} (hleny : 0 < leny)
    (hs : ∀ i < lenx + leny / 2, convolveWindow X Y lenx leny i = .ok (s i)) :
    linearConvolutionSame X Y lenx leny = .ok ((List.range lenx).map fun t =>
      (s (t + leny / 2)).1 / (s (t + leny / 2)).2) := by
  have hrun := linearConvolutionSameFrom_eq hs (lenx + leny - 1) 0 (Nat.zero_le _)
  have hall : min (0 + (lenx + leny - 1)) (lenx + leny / 2) - leny / 2 = lenx := by omega
  rw [hall, Nat.zero_sub] at hrun
  exact hrun

end

/-! ## What is read of the filter -/

section
variable {T : Type*} [Add T] [Mul T] {X Y : List T} {lenx leny : Nat}

/-- The window reads `leny` elements of the filter at most. -/
theorem convolveAt_take {i : Nat} (hleny : 0 < leny) : ∀ turns n acc, i < n + leny →
    convolveAt X (Y.take leny) i n turns acc = convolveAt X Y i n turns acc := by
  intro turns
  induction turns with
  | zero => exact fun _ _ _ => rfl
  | succ turns ih =>
    intro n acc hn
    have hread : (Y.take leny)[i - n]? = Y[i - n]? := List.getElem?_take_of_lt (by omega)
    rw [convolveAt, convolveAt, hread]
    split
    · exact ih (n + 1) _ (by omega)
    · rfl

theorem convolveAt_fault {i : Nat} : ∀ turns n acc (f : Fault),
    convolveAt X Y i n turns acc = .error f → f = .indexOutOfRange := by
  intro turns
  induction turns with
  | zero => exact fun _ _ _ h => by cases h
  | succ turns ih =>
    intro n acc f h
    rw [convolveAt] at h
    split at h
    · exact ih (n + 1) _ f h
    · cases h
      rfl

variable [Zero T] [Div T]

theorem linearConvolutionSameFrom_take (hleny : 0 < leny) : ∀ turns i Z,
    linearConvolutionSameFrom X (Y.take leny) lenx leny i turns Z =
      linearConvolutionSameFrom X Y lenx leny i turns Z := by
  intro turns
  induction turns with
  | zero => exact fun _ _ => rfl
  | succ turns ih =>
    intro i Z
    have hwindow : convolveWindow X (Y.take leny) lenx leny i = convolveWindow X Y lenx leny i :=
      convolveAt_take hleny _ _ _ (by omega)
    rw [linearConvolutionSameFrom, linearConvolutionSameFrom, hwindow]
    simp only [ih]

theorem linearConvolutionSame_take (hleny : 0 < leny) :
    linearConvolutionSame X (Y.take leny) lenx leny = linearConvolutionSame X Y lenx leny :=
  linearConvolutionSameFrom_take hleny _ _ _

theorem linearConvolutionSameFrom_fault : ∀ turns i Z (f : Fault),
    linearConvolutionSameFrom X Y lenx leny i turns Z = .error f → f = .indexOutOfRange := by
  intro turns
  induction turns with
  | zero => exact fun _ _ _ h => by cases h
  | succ turns ih =>
    intro i Z f h
    rw [linearConvolutionSameFrom] at h
    split at h
    · cases h
    · cases hwindow : convolveWindow X Y lenx leny i with
      | error e =>
        rw [hwindow] at h
        cases h
        exact convolveAt_fault _ _ _ _ hwindow
      | ok acc =>
        rw [hwindow, ok_bind] at h
        exact ih (i + 1) _ f h

/-- A call that returns has read every window up to the last output. -/
theorem convolveWindow_of_ok : ∀ turns i Z out,
    linearConvolutionSameFrom X Y lenx leny i turns Z = .ok out →
      ∀ j, i ≤ j → j < i + turns → j < lenx + leny / 2 →
        ∃ acc, convolveWindow X Y lenx leny j = .ok acc := by
  intro turns
  induction turns with
  | zero => exact fun _ _ _ _ _ hij hj _ => absurd hj (by omega)
  | succ turns ih =>
    intro i Z out h j hij hj hread
    rw [linearConvolutionSameFrom, if_neg (by omega)] at h
    obtain ⟨acc, hacc, h⟩ := bind_eq_ok.mp h
    obtain rfl | hlt := eq_or_lt_of_le hij
    · exact ⟨acc, hacc⟩
    · exact ih (i + 1) _ out h j hlt (by omega) hread

/-- With a length beyond the end of the filter the loop reads the element after the
last one. -/
theorem linearConvolutionSame_outOfRange (hX : X ≠ []) (hlenx : lenx = X.length)
    (hY : Y.length < leny) (hread : Y.length < lenx + leny / 2) :
    linearConvolutionSame X Y lenx leny = .error .indexOutOfRange := by
  have hpos := List.length_pos_iff.mpr hX
  cases hrun : linearConvolutionSame X Y lenx leny with
  | error f => rw [linearConvolutionSameFrom_fault _ _ _ f hrun]
  | ok out =>
    obtain ⟨acc, hacc⟩ := convolveWindow_of_ok _ _ _ _ hrun Y.length (Nat.zero_le _) (by omega) hread
    -- its window starts at the first value, which meets that element
    have hlo : Y.length + 1 - leny = 0 := by omega
    have hturns : min lenx (Y.length + 1) - 0 = min lenx (Y.length + 1) - 1 + 1 := by omega
    have hnone : Y[Y.length - 0]? = none := List.getElem?_eq_none (le_refl _)
    rw [convolveWindow, hlo, hturns, convolveAt, hnone] at hacc
    split at hacc
    · next hsome =>
      cases hsome
    · cases hacc

end

/-! ## The inner loops -/

/-- Without its second sum the loop of `LinearConvolutionSame` is that of
`LinearConvolution`. -/
theorem sumAt_eq_map_fst {T : Type*} [Zero T] [Add T] [Mul T] {X Y : List T} {i : Nat} :
    ∀ turns n sum normalize, sumAt X Y i n turns sum =
      (convolveAt X Y i n turns (sum, normalize)).map Prod.fst := by
  intro turns
  induction turns with
  | zero => exact fun _ _ _ => rfl
  | succ turns ih =>
    intro n sum normalize
    rw [sumAt, convolveAt]
    split
    · exact ih (n + 1) _ _
    · rfl

section
variable {K : Type*} [Field K] {X Y : List K} {i : Nat}

theorem getElem?_eq_getD {xs : List K} {n : Nat} (h : n < xs.length) :
    xs[n]? = some (xs.getD n 0) := by
  rw [List.getElem?_eq_getElem h, List.getD_eq_getElem _ _ h]

theorem convolveAt_eq : ∀ turns n sum normalize, n + turns ≤ X.length → i < n + Y.length →
    n + turns ≤ i + 1 → convolveAt X Y i n turns (sum, normalize) =
      .ok (sum + ∑ j ∈ Finset.Ico n (n + turns), X.getD j 0 * Y.getD (i - j) 0,
        normalize + ∑ j ∈ Finset.Ico n (n + turns), Y.getD (i - j) 0) := by
  intro turns
  induction turns with
  | zero =>
    intro n sum normalize _ _ _
    rw [convolveAt, Nat.add_zero, Finset.Ico_self, Finset.sum_empty, Finset.sum_empty, add_zero,
      add_zero]
  | succ turns ih =>
    intro n sum normalize hX hY hle
    have hx : X[n]? = some (X.getD n 0) := getElem?_eq_getD (by omega)
    have hy : Y[i - n]? = some (Y.getD (i - n) 0) := getElem?_eq_getD (by omega)
    have hlt : n < n + 1 + turns := by omega
    have hturns : n + (turns + 1) = n + 1 + turns := by omega
    simp only [convolveAt, hx, hy]
    rw [ih (n + 1) _ _ (by omega) (by omega) (by omega), hturns,
      Finset.sum_eq_sum_Ico_succ_bot hlt, Finset.sum_eq_sum_Ico_succ_bot hlt, add_assoc sum,
      add_assoc normalize]

/-- A turn of the outer loop meets every weight that the entry uses. -/
theorem convolveWindow_eq (hX : 0 < X.length) (hY : 0 < Y.length)
    (hi : i + 1 < X.length + Y.length) : convolveWindow X Y X.length Y.length i =
      .ok (entry (fun n => X.getD n 0) (fun n => Y.getD n 0) X.length Y.length i,
        weight (fun n => Y.getD n 0) X.length Y.length i) := by
  have hend : i + 1 - Y.length + (min X.length (i + 1) - (i + 1 - Y.length)) =
      min X.length (i + 1) := by omega
  rw [convolveWindow, convolveAt_eq _ _ _ _ (by omega) (by omega) (by omega), hend, entry, weight,
    valid_eq_Ico, zero_add, zero_add]

theorem linearConvolution_entries (hX : 0 < X.length) (hY : 0 < Y.length) :
    linearConvolution X Y X.length Y.length = .ok ((List.range (X.length + Y.length - 1)).map
      (entry (fun n => X.getD n 0) (fun n => Y.getD n 0) X.length Y.length)) := by
  refine linearConvolution_eq fun i hi => ?_
  have hwindow := convolveWindow_eq hX hY (show i + 1 < X.length + Y.length by omega)
  rw [convolveWindow] at hwindow
  rw [sumAt_eq_map_fst _ _ _ 0, hwindow]
  rfl

theorem linearConvolutionSame_entries (hX : 0 < X.length) (hY : 0 < Y.length) :
    linearConvolutionSame X Y X.length Y.length = .ok ((List.range X.length).map fun k =>
      entry (fun n => X.getD n 0) (fun n => Y.getD n 0) X.length Y.length (k + Y.length / 2) /
        weight (fun n => Y.getD n 0) X.length Y.length (k + Y.length / 2)) :=
  linearConvolutionSame_eq hY fun _ hi => convolveWindow_eq hX hY (by omega)

omit [Field K] in
theorem map_range_getElem? {s : Nat → K} {len k : Nat} (hk : k < len) :
    ((List.range len).map s)[k]? = some (s k) := by
  rw [List.getElem?_map, List.getElem?_range hk, Option.map_some]

end

/-! ## The normalised centre -/

/-- `F` and `G` are the full convolutions of the signal `X` and of ones with the filter
`Y`; `Z` has one output for each value of the signal, and output `k` is the quotient of
their entries half a filter further on. -/
structure IsNormalisedCentre {K : Type*} [Field K] [LinearOrder K] (X Y F G Z : List K) :
    Prop where
  outputs : Z.length = X.length
  entries : F.length = X.length + Y.length - 1
  entry : ∀ i < X.length + Y.length - 1,
    F[i]? = some (∑ n ∈ valid X.length Y.length i, X.getD n 0 * Y.getD (i - n) 0)
  centre : ∀ k < X.length, ∃ f g, F[k + Y.length / 2]? = some f ∧ G[k + Y.length / 2]? = some g ∧
    g ≠ 0 ∧ Z[k]? = some (f / g)
  between : ∀ k z, Z[k]? = some z →
    (∃ n ∈ valid X.length Y.length (k + Y.length / 2), X.getD n 0 ≤ z) ∧
      ∃ n ∈ valid X.length Y.length (k + Y.length / 2), z ≤ X.getD n 0

section
variable {K : Type*} [Field K] [LinearOrder K] [IsStrictOrderedRing K] {X Y : List K}

omit [IsStrictOrderedRing K] in
theorem getD_pos (hpos : ∀ y ∈ Y, 0 < y) : ∀ j < Y.length, 0 < Y.getD j 0 := by
  intro j hj
  rw [List.getD_eq_getElem _ _ hj]
  exact hpos _ (List.getElem_mem hj)

theorem isNormalisedCentre_entries (hX : 0 < X.length) (hY : 0 < Y.length)
    (hpos : ∀ y ∈ Y, 0 < y) :
    IsNormalisedCentre X Y
      ((List.range (X.length + Y.length - 1)).map
        (entry (fun n => X.getD n 0) (fun n => Y.getD n 0) X.length Y.length))
      ((List.range (X.length + Y.length - 1)).map
        (weight (fun n => Y.getD n 0) X.length Y.length))
      ((List.range X.length).map fun k =>
        entry (fun n => X.getD n 0) (fun n => Y.getD n 0) X.length Y.length (k + Y.length / 2) /
          weight (fun n => Y.getD n 0) X.length Y.length (k + Y.length / 2)) := by
  have hweights := getD_pos hpos
  refine ⟨by simp, by simp, fun i hi => map_range_getElem? hi, fun k hk => ?_, fun k z hz => ?_⟩
  · have hcentre : k + Y.length / 2 < X.length + Y.length - 1 := by omega
    exact ⟨_, _, map_range_getElem? hcentre, map_range_getElem? hcentre,
      (weight_pos hX hY (by omega) hweights).ne', map_range_getElem? hk⟩
  · obtain ⟨hk, rfl⟩ := List.getElem?_eq_some_iff.mp hz
    rw [List.length_map, List.length_range] at hk
    rw [List.getElem_map, List.getElem_range]
    exact exists_le_mean hX hY (by omega) hweights fun n => X.getD n 0

/-- The same-size convolution is the centre of the full one, divided by the centre of
the full convolution of ones; no sum of weights it divides by is zero. -/
theorem linearConvolutionSame_law (hX : X ≠ []) (hY : Y ≠ []) (hpos : ∀ y ∈ Y, 0 < y) :
    (∀ i < X.length + Y.length / 2, ∃ acc,
      convolveWindow X Y X.length Y.length i = .ok acc ∧ 0 < acc.2) ∧
    ∃ F G Z, linearConvolution X Y X.length Y.length = .ok F ∧
      linearConvolution (List.replicate X.length 1) Y X.length Y.length = .ok G ∧
      linearConvolutionSame X Y X.length Y.length = .ok Z ∧ IsNormalisedCentre X Y F G Z := by
  have hlenx := List.length_pos_iff.mpr hX
  have hleny := List.length_pos_iff.mpr hY
  refine ⟨fun i hi => ?_, _, _, _, linearConvolution_entries hlenx hleny, ?_,
    linearConvolutionSame_entries hlenx hleny, isNormalisedCentre_entries hlenx hleny hpos⟩
  · have hturn : i + 1 < X.length + Y.length := by omega
    exact ⟨_, convolveWindow_eq hlenx hleny hturn, weight_pos hlenx hleny hturn (getD_pos hpos)⟩
  · -- the convolution of ones
    have hones := linearConvolution_entries (X := List.replicate X.length (1 : K)) (Y := Y)
      (by simpa using hlenx) hleny
    rw [List.length_replicate] at hones
    rw [hones]
    congr 1
    refine List.map_congr_left fun i _ => ?_
    rw [← entry_one]
    refine entry_congr (fun j hj => ?_) fun _ _ => rfl
    rw [List.getD_eq_getElem _ _ (by simpa using hj), List.getElem_replicate]

/-- The filter of `try_conv` on a signal shorter than it. -/
theorem linearConvolutionSame_short :
    ∃ F G Z : List ℚ, linearConvolution [1, 2] [1, 3, 3, 1] 2 4 = .ok F ∧
      linearConvolution [1, 1] [1, 3, 3, 1] 2 4 = .ok G ∧
      linearConvolutionSame [1, 2] [1, 3, 3, 1] 2 4 = .ok Z ∧
      IsNormalisedCentre [1, 2] [1, 3, 3, 1] F G Z :=
  (linearConvolutionSame_law (X := ([1, 2] : List ℚ)) (Y := [1, 3, 3, 1]) (by decide) (by decide)
    (by decide +kernel)).2

end

end PlanetariumFD.FdUtil
