import PlanetariumFD.Detector.Smoothing

/-!
# Smoothed rectangles and the frame

With exact arithmetic every smoothed coordinate is a rounded window mean of the
interpolated ones. The lower bounds survive. At the right edge position and size are
rounded apart, which costs a face that touches it one pixel; at the lower edge they
are averaged over different windows besides. The edges are safe where every position
goes with every size.
-/

namespace PlanetariumFD

open Outcome Rounding

/-! ## Rectangles in the frame -/

def InFrame (W H : Int) (r : CvRect) : Prop :=
  0 ≤ r.x ∧ 0 ≤ r.y ∧ 1 ≤ r.width ∧ 1 ≤ r.height ∧ r.x + r.width ≤ W ∧ r.y + r.height ≤ H

instance (W H : Int) (r : CvRect) : Decidable (InFrame W H r) := by
  unfold InFrame
  infer_instance

/-- What is cropped for the smoothed video lies in the frame. -/
def StaysInFrame (W H : Int) (faces : List Face) : Prop :=
  ∃ out, smoothedFaces (F := ℚ) faces = .ok out ∧ ∀ f ∈ out, InFrame W H f.toCvRect

/-- No face touches the right edge, or every width fits at every `x`; and every height fits
at every `y`. -/
def EdgesFit (W H : Int) (faces : List Face) : Prop :=
  ((∀ f ∈ faces, f.x + f.width < W) ∨ ∀ f ∈ faces, ∀ f' ∈ faces, f.x + f'.width ≤ W) ∧
    ∀ f ∈ faces, ∀ f' ∈ faces, f.y + f'.height ≤ H

instance (W H : Int) (faces : List Face) : Decidable (EdgesFit W H faces) := by
  unfold EdgesFit
  infer_instance

/-- Two lists with the same greatest `x`, `y`, width and height, of which both or neither
touch the right edge. -/
structure SameExtent (W : Int) (faces faces' : List Face) : Prop where
  x : (faces.map fun f => f.x).max? = (faces'.map fun f => f.x).max?
  y : (faces.map fun f => f.y).max? = (faces'.map fun f => f.y).max?
  width : (faces.map fun f => f.width).max? = (faces'.map fun f => f.width).max?
  height : (faces.map fun f => f.height).max? = (faces'.map fun f => f.height).max?
  touches : (∃ f ∈ faces, f.x + f.width = W) ↔ ∃ f ∈ faces', f.x + f.width = W

/-! ## Closed forms of the passes -/

/-- The inner loop sums the window and counts it. -/
theorem convolveAt_sizeFilt {X : List ℚ} {i : Nat} :
    ∀ (turns n : Nat) (acc : ℚ × ℚ), n + turns ≤ X.length → i < n + 7 →
      FdUtil.convolveAt X sizeFilt i n turns acc =
        .ok (acc.1 + ∑ j ∈ Finset.Ico n (n + turns), X.getD j 0, acc.2 + turns) := by
  intro turns
  induction turns with
  | zero =>
    intro n acc _ _
    simp [FdUtil.convolveAt]
  | succ turns ih =>
    intro n acc hX hi
    have hx : X[n]? = some (X.getD n 0) := by
      rw [List.getD_eq_getElem?_getD, List.getElem?_eq_getElem (by omega : n < X.length)]
      rfl
    have hy : (sizeFilt : List ℚ)[i - n]? = some 1 := by
      rw [sizeFilt, List.getElem?_replicate, if_pos (by omega)]
      rfl
    simp only [FdUtil.convolveAt, hx, hy]
    have hturns : n + 1 + turns = n + (turns + 1) := by omega
    rw [ih (n + 1) _ (by omega) (by omega), hturns,
      Finset.sum_eq_sum_Ico_succ_bot (by omega : n < n + (turns + 1))]
    congr 2
    · show acc.1 + X.getD n 0 * 1 + _ = _
      ring
    · show acc.2 + 1 + (turns : ℚ) = acc.2 + ((turns + 1 : ℕ) : ℚ)
      push_cast
      ring

theorem linearConvolutionSame_sizeFilt (X : List ℚ) {r : Nat} (hr : r ≤ 3) :
    FdUtil.linearConvolutionSame X sizeFilt X.length (2 * r + 1) =
      .ok ((List.range X.length).map fun t => windowMean (fun j => X.getD j 0) r X.length t) := by
  have hwin : ∀ i < X.length + (2 * r + 1) / 2,
      FdUtil.convolveWindow X sizeFilt X.length (2 * r + 1) i =
      .ok (∑ j ∈ Finset.Ico (i - 2 * r) (min X.length (i + 1)), X.getD j 0,
        ((min X.length (i + 1) - (i - 2 * r) : ℕ) : ℚ)) := by
    intro i hi
    -- the window of turn `i` is `i - 2r` to `i`, cut off at both ends
    have hlo : i + 1 - (2 * r + 1) = i - 2 * r := by omega
    have hhi : i - 2 * r + (min X.length (i + 1) - (i - 2 * r)) = min X.length (i + 1) := by omega
    rw [FdUtil.convolveWindow, hlo, convolveAt_sizeFilt _ _ _ (by omega) (by omega), hhi]
    congr 2
    · exact zero_add _
    · exact zero_add _
  rw [FdUtil.linearConvolutionSame_eq (by omega) hwin]
  congr 1
  refine List.map_congr_left fun t _ => ?_
  have hhalf : (2 * r + 1) / 2 = r := by omega
  have hlo : t + r - 2 * r = t - r := by omega
  simp only [hhalf, hlo]
  rfl

theorem smoothPass_range {get : Face → Int} {set : Face → Int → Face} {r : Nat} (hr : r ≤ 3) (N : Nat)
    (face : Nat → Face) :
    smoothPass (F := ℚ) get set (2 * r + 1) ((List.range N).map face) =
      .ok ((List.range N).map fun k =>
        set (face k) (round (windowMean (fun j => (get (face j) : ℚ)) r N k))) := by
  set X : List ℚ := ((List.range N).map face).map fun f => FloatOps.ofInt (get f) with hX
  have hlen : X.length = N := by simp [hX]
  have hfaces : ((List.range N).map face).length = X.length := by simp [hX]
  have hget : ∀ j < N, X.getD j 0 = (get (face j) : ℚ) := by
    intro j hj
    simp only [hX, List.map_map, List.getD_eq_getElem?_getD, List.getElem?_map,
      List.getElem?_range hj]
    rfl
  have hpass : smoothPass (F := ℚ) get set (2 * r + 1) ((List.range N).map face) =
      FdUtil.linearConvolutionSame X sizeFilt X.length (2 * r + 1) >>= fun out =>
        .ok (List.zipWith (fun f o => set f (myRound o)) ((List.range N).map face) out) := by
    rw [← hfaces]
    rfl
  rw [hpass, linearConvolutionSame_sizeFilt X hr, ok_bind, hlen, List.zipWith_map,
    List.zipWith_self]
  congr 1
  refine List.map_congr_left fun k _ => ?_
  rw [myRound_eq_round, windowMean_congr hget]

/-- The four passes on a list given frame by frame. -/
theorem smoothFaceSeries_range (N : Nat) (face : Nat → Face) :
    smoothFaceSeries (F := ℚ) ((List.range N).map face) = .ok ((List.range N).map fun k =>
      { x := round (windowMean (fun j => ((face j).x : ℚ)) 3 N k)
        y := round (windowMean (fun j => ((face j).y : ℚ)) 3 N k)
        width := round (windowMean (fun j => ((face j).width : ℚ)) 3 N k)
        height := round (windowMean (fun j => ((face j).height : ℚ)) 1 N k)
        frameId := (face k).frameId }) := by
  rw [smoothFaceSeries, smoothX, sizeFilt_length, smoothPass_range (r := 3) (le_refl 3), ok_bind,
    smoothY, sizeFilt_length, smoothPass_range (r := 3) (le_refl 3), ok_bind,
    smoothWidth, sizeFilt_length, smoothPass_range (r := 3) (le_refl 3), ok_bind,
    smoothHeight, locationFilt_length, smoothPass_range (r := 1) (by decide)]

/-! ## The passes on sequences -/

/-- The mean of a sequence over the positions within `r` of `k`. -/
def seriesMean (r : Nat) (xs : List Int) (k : Nat) : ℚ :=
  windowMean (fun j => ((xs.getD j 0 : ℤ) : ℚ)) r xs.length k

def smoothedSeries (r : Nat) (xs : List Int) : List Int :=
  (List.range xs.length).map fun k => round (seriesMean r xs k)

section
variable {r : Nat} {xs : List Int}

theorem smoothedSeries_getElem? {k : Nat} {v : Int} (h : (smoothedSeries r xs)[k]? = some v) :
    k < xs.length ∧ v = round (seriesMean r xs k) := by
  rw [smoothedSeries, List.getElem?_map, Option.map_eq_some_iff] at h
  obtain ⟨j, hj, rfl⟩ := h
  obtain ⟨hlt, rfl⟩ := List.getElem?_eq_some_iff.mp hj
  rw [List.length_range] at hlt
  rw [List.getElem_range]
  exact ⟨hlt, rfl⟩

/-- The mean of one value is that value. -/
theorem seriesMean_of_forall_eq {k : Nat} {c : Int} (h : ∀ x ∈ xs, x = c)
    (hk : k < xs.length) : seriesMean r xs k = c := by
  rw [seriesMean, ← windowMean_const (c := (c : ℚ)) hk]
  refine windowMean_congr fun j hj => ?_
  rw [List.getD_eq_getElem _ _ hj, h _ (List.getElem_mem hj)]

theorem smoothedSeries_of_forall_eq {c : Int} (h : ∀ x ∈ xs, x = c) : smoothedSeries r xs = xs := by
  apply List.ext_getElem
  · simp [smoothedSeries]
  · intro k hk hk'
    have hget : (smoothedSeries r xs)[k] = round (seriesMean r xs k) :=
      (smoothedSeries_getElem? (List.getElem?_eq_getElem hk)).2
    rw [hget, seriesMean_of_forall_eq h hk', round_intCast, h _ (List.getElem_mem hk')]

end

theorem map_range_getD (faces : List Face) :
    (List.range faces.length).map (fun k => faces.getD k nullFace) = faces := by
  apply List.ext_getElem
  · simp
  · intro k hk hk'
    rw [List.getElem_map, List.getElem_range, List.getD_eq_getElem _ _ hk']

theorem seriesMean_map {c : Face → Int} {r : Nat} (faces : List Face) (k : Nat) :
    windowMean (fun j => ((c (faces.getD j nullFace) : ℤ) : ℚ)) r faces.length k =
      seriesMean r (faces.map c) k := by
  rw [seriesMean, List.length_map]
  refine windowMean_congr fun j hj => ?_
  rw [List.getD_eq_getElem _ _ hj, List.getD_eq_getElem _ _ (by simpa using hj), List.getElem_map]

/-- Each coordinate is smoothed on its own; the heights alone over the short window. -/
theorem smoothFaceSeries_series (faces : List Face) :
    ∃ out, smoothFaceSeries (F := ℚ) faces = .ok out ∧
      out.map (fun f => f.x) = smoothedSeries 3 (faces.map fun f => f.x) ∧
      out.map (fun f => f.y) = smoothedSeries 3 (faces.map fun f => f.y) ∧
      out.map (fun f => f.width) = smoothedSeries 3 (faces.map fun f => f.width) ∧
      out.map (fun f => f.height) = smoothedSeries 1 (faces.map fun f => f.height) := by
  have hrun := smoothFaceSeries_range faces.length fun k => faces.getD k nullFace
  rw [map_range_getD] at hrun
  refine ⟨_, hrun, ?_, ?_, ?_, ?_⟩
  all_goals
    rw [List.map_map, smoothedSeries, List.length_map]
    exact List.map_congr_left fun k _ => by
      simp only [Function.comp_apply, ← seriesMean_map]

/-! ## The filled list -/

/-- A coordinate in frame `t`: given there, or interpolated between the given
neighbours and rounded. -/
def interpolated (c : Face → Int) : List Face → Int → Int
  | prev :: next :: rest, t =>
    if t < next.frameId then
      c prev + round (((t - prev.frameId : ℤ) : ℚ) *
        (((c next : ℚ) - c prev) / ((next.frameId - prev.frameId : ℤ) : ℚ)))
    else interpolated c (next :: rest) t
  | [f], _ => c f
  | [], _ => 0

def firstFrame (faces : List Face) : Int := (faces.head?.map Face.frameId).getD 0

/-- The mean of a coordinate over the frames of the span within `r` of the `k`-th. -/
def spanMean (c : Face → Int) (r : Nat) (faces : List Face) (k : Nat) : ℚ :=
  windowMean (fun j => (interpolated c faces (firstFrame faces + j) : ℚ)) r (spanLength faces) k

section
variable {faces : List Face}

theorem missingFace_rat (prev next : Face) (diff i : Int) (c : Face → Int) :
    c prev + myRound ((FloatOps.ofInt i : ℚ) *
        ((FloatOps.ofInt (c next) - FloatOps.ofInt (c prev)) / FloatOps.ofInt diff)) =
      c prev + round ((i : ℚ) * (((c next : ℚ) - c prev) / (diff : ℚ))) := by
  rw [myRound_eq_round]
  rfl

/-- A coordinate that `missingFace` interpolates. -/
def Interpolates (c : Face → Int) : Prop := ∀ prev next diff i,
  c (missingFace (F := ℚ) prev next diff i) =
    c prev + round ((i : ℚ) * (((c next : ℚ) - c prev) / (diff : ℚ)))

theorem interpolates_x : Interpolates fun f => f.x := fun prev next diff i =>
  missingFace_rat prev next diff i fun f => f.x

theorem interpolates_y : Interpolates fun f => f.y := fun prev next diff i =>
  missingFace_rat prev next diff i fun f => f.y

theorem interpolates_width : Interpolates fun f => f.width := fun prev next diff i =>
  missingFace_rat prev next diff i fun f => f.width

theorem interpolates_height : Interpolates fun f => f.height := fun prev next diff i =>
  missingFace_rat prev next diff i fun f => f.height

theorem spanFace_coordinate {c : Face → Int} (hc : Interpolates c) (hne : faces ≠ [])
    (h : faces.Pairwise fun f f' => f.frameId < f'.frameId) (t : Int) :
    c (spanFace (F := ℚ) faces t) = interpolated c faces t := by
  induction faces with
  | nil => exact absurd rfl hne
  | cons prev fs ih =>
    cases fs with
    | nil => rfl
    | cons next rest =>
      have hlt : prev.frameId < next.frameId := List.rel_of_pairwise_cons h List.mem_cons_self
      rw [spanFace, interpolated]
      by_cases ht : t = prev.frameId
      · rw [if_pos ht, if_pos (by omega), ht]
        simp
      · rw [if_neg ht]
        by_cases hn : t < next.frameId
        · rw [if_pos hn, if_pos hn, hc]
        · rw [if_neg hn, if_neg hn]
          exact ih (List.cons_ne_nil _ _) h.of_cons

/-- Between two given faces a coordinate is a rounded convex combination of theirs. -/
theorem exists_lerp (c : Face → Int) {prev next : Face} (rest : List Face) {t : Int}
    (ht : prev.frameId ≤ t) (hn : t < next.frameId) : ∃ s : ℚ, 0 ≤ s ∧ s ≤ 1 ∧
      interpolated c (prev :: next :: rest) t = round ((c prev : ℚ) + s * ((c next : ℚ) - c prev)) := by
  have hd : (0 : ℚ) < ((next.frameId - prev.frameId : ℤ) : ℚ) := by exact_mod_cast by omega
  have hu : (0 : ℚ) ≤ ((t - prev.frameId : ℤ) : ℚ) := by exact_mod_cast by omega
  have hle : ((t - prev.frameId : ℤ) : ℚ) ≤ ((next.frameId - prev.frameId : ℤ) : ℚ) := by
    exact_mod_cast by omega
  refine ⟨_, div_nonneg hu hd.le, (div_le_one hd).mpr hle, ?_⟩
  have hswap : ((t - prev.frameId : ℤ) : ℚ) *
      (((c next : ℚ) - c prev) / ((next.frameId - prev.frameId : ℤ) : ℚ)) =
      ((t - prev.frameId : ℤ) : ℚ) / ((next.frameId - prev.frameId : ℤ) : ℚ) *
        ((c next : ℚ) - c prev) := by ring
  rw [interpolated, if_pos hn, ← round_intCast_add, hswap]

/-- What holds of the given values and between them holds of the interpolated ones. -/
theorem interpolated_induction {P : Int → Prop} {c : Face → Int} (hne : faces ≠ [])
    (h : faces.Pairwise fun f f' => f.frameId < f'.frameId) (given : ∀ f ∈ faces, P (c f))
    (between : ∀ f ∈ faces, ∀ f' ∈ faces, ∀ s : ℚ, 0 ≤ s → s ≤ 1 →
      P (round ((c f : ℚ) + s * ((c f' : ℚ) - c f)))) {t : Int}
    (ht : (faces.head hne).frameId ≤ t) : P (interpolated c faces t) := by
  induction faces with
  | nil => exact absurd rfl hne
  | cons prev fs ih =>
    rw [List.head_cons] at ht
    cases fs with
    | nil => exact given prev List.mem_cons_self
    | cons next rest =>
      by_cases hn : t < next.frameId
      · obtain ⟨s, h0, h1, heq⟩ := exists_lerp c rest ht hn
        rw [heq]
        exact between prev List.mem_cons_self next (List.mem_cons_of_mem _ List.mem_cons_self)
          s h0 h1
      · rw [interpolated, if_neg hn]
        exact ih (List.cons_ne_nil _ _) h.of_cons
          (fun f hf => given f (List.mem_cons_of_mem _ hf))
          (fun f hf f' hf' => between f (List.mem_cons_of_mem _ hf) f' (List.mem_cons_of_mem _ hf'))
          (by rw [List.head_cons]; omega)

/-- Interpolation between values above a bound stays above it. -/
theorem le_interpolated {c : Face → Int} {l : Int} (hne : faces ≠ [])
    (h : faces.Pairwise fun f f' => f.frameId < f'.frameId) (hl : ∀ f ∈ faces, l ≤ c f) {t : Int}
    (ht : (faces.head hne).frameId ≤ t) : l ≤ interpolated c faces t := by
  refine interpolated_induction (P := fun v => l ≤ v) hne h hl (fun f hf f' hf' s h0 h1 => ?_) ht
  exact round_of_le (le_lerp h0 h1 (by exact_mod_cast hl f hf) (by exact_mod_cast hl f' hf'))

theorem interpolated_le {c : Face → Int} {u : Int} (hne : faces ≠ [])
    (h : faces.Pairwise fun f f' => f.frameId < f'.frameId) (hu : ∀ f ∈ faces, c f ≤ u) {t : Int}
    (ht : (faces.head hne).frameId ≤ t) : interpolated c faces t ≤ u := by
  refine interpolated_induction (P := fun v => v ≤ u) hne h hu (fun f hf f' hf' s h0 h1 => ?_) ht
  exact round_of_ge (lerp_le h0 h1 (by exact_mod_cast hu f hf) (by exact_mod_cast hu f' hf'))

theorem interpolated_head (c : Face → Int) (hne : faces ≠ [])
    (h : faces.Pairwise fun f f' => f.frameId < f'.frameId) :
    interpolated c faces (faces.head hne).frameId = c (faces.head hne) := by
  cases faces with
  | nil => exact absurd rfl hne
  | cons prev fs =>
    cases fs with
    | nil => rfl
    | cons next rest =>
      have hlt : prev.frameId < next.frameId := List.rel_of_pairwise_cons h List.mem_cons_self
      rw [List.head_cons, interpolated, if_pos hlt]
      simp

/-- Two coordinates whose sum is one short of a bound in two neighbours stay so in between,
before they are rounded. -/
theorem lerp_add_le {a a' b b' u i d : Int} (ha : a + b < u) (hb : a' + b' < u) (hd : 0 < d)
    (h0 : 0 ≤ i) (hi : i ≤ d) :
    (i : ℚ) * (((a' : ℚ) - a) / (d : ℚ)) + (i : ℚ) * (((b' : ℚ) - b) / (d : ℚ)) ≤
      ((u - 1 - a - b : ℤ) : ℚ) := by
  have hd' : (0 : ℚ) < (d : ℚ) := by exact_mod_cast hd
  have hlerp := lerp_le (a := ((a + b : ℤ) : ℚ)) (b := ((a' + b' : ℤ) : ℚ))
    (u := ((u - 1 : ℤ) : ℚ)) (s := (i : ℚ) / (d : ℚ))
    (div_nonneg (by exact_mod_cast h0) hd'.le) ((div_le_one hd').mpr (by exact_mod_cast hi))
    (by exact_mod_cast by omega) (by exact_mod_cast by omega)
  have hsum : (i : ℚ) * (((a' : ℚ) - a) / (d : ℚ)) + (i : ℚ) * (((b' : ℚ) - b) / (d : ℚ)) =
      (i : ℚ) / (d : ℚ) * (((a' + b' : ℤ) : ℚ) - ((a + b : ℤ) : ℚ)) := by
    push_cast
    ring
  rw [hsum]
  push_cast at hlerp ⊢
  linarith

/-- Two coordinates whose sum is below a bound in every given face: interpolated, they may
reach it, but not in two frames in a row. -/
theorem interpolated_add_lt {c d : Face → Int} {u : Int} (hne : faces ≠ [])
    (h : faces.Pairwise fun f f' => f.frameId < f'.frameId) (hlt : ∀ f ∈ faces, c f + d f < u)
    {t : Int} (ht : (faces.head hne).frameId ≤ t) :
    interpolated c faces t + interpolated d faces t ≤ u ∧
      (interpolated c faces t + interpolated d faces t < u ∨
        interpolated c faces (t + 1) + interpolated d faces (t + 1) < u) := by
  induction faces with
  | nil => exact absurd rfl hne
  | cons prev fs ih =>
    rw [List.head_cons] at ht
    have hprev := hlt prev List.mem_cons_self
    cases fs with
    | nil => exact ⟨hprev.le, .inl hprev⟩
    | cons next rest =>
      have hnext := hlt next (List.mem_cons_of_mem _ List.mem_cons_self)
      by_cases hn : t < next.frameId
      · have hbefore : ∀ i, 0 ≤ i → i ≤ next.frameId - prev.frameId → _ := fun i h0 hi =>
          lerp_add_le hprev hnext (by omega : 0 < next.frameId - prev.frameId) h0 hi
        have hnow := hbefore (t - prev.frameId) (by omega) (by omega)
        have hle := round_add_round_le (n := u - 1 - c prev - d prev + 1)
          (hnow.trans_lt (by push_cast; linarith))
        rw [interpolated, interpolated, if_pos hn, if_pos hn]
        refine ⟨by omega, ?_⟩
        by_cases hn' : t + 1 < next.frameId
        · have hstep : t + 1 - prev.frameId = t - prev.frameId + 1 := by omega
          rw [interpolated, interpolated, if_pos hn', if_pos hn', hstep]
          obtain hnot | hnot := round_mul_add_le_or hnow
            (hbefore (t - prev.frameId + 1) (by omega) (by omega))
          · exact .inl (by omega)
          · exact .inr (by omega)
        · -- the next frame is the given one
          have hgiven : t + 1 = next.frameId := by omega
          have hhead : ∀ e : Face → Int, interpolated e (next :: rest) next.frameId = e next :=
            fun e => interpolated_head e (List.cons_ne_nil _ _) h.of_cons
          rw [interpolated, interpolated, if_neg hn', if_neg hn', hgiven, hhead, hhead]
          exact .inr hnext
      · obtain ⟨hle, hor⟩ := ih (List.cons_ne_nil _ _) h.of_cons
          (fun f hf => hlt f (List.mem_cons_of_mem _ hf)) (by rw [List.head_cons]; omega)
        have hn' : ¬ t + 1 < next.frameId := by omega
        rw [interpolated, interpolated, if_neg hn, if_neg hn, interpolated, interpolated,
          if_neg hn', if_neg hn']
        exact ⟨hle, hor⟩

theorem firstFrame_eq (hne : faces ≠ []) : firstFrame faces = (faces.head hne).frameId := by
  rw [firstFrame, List.head?_eq_some_head hne]
  rfl

theorem le_round_spanMean {c : Face → Int} {l : Int} {r k : Nat} (hne : faces ≠ [])
    (h : faces.Pairwise fun f f' => f.frameId < f'.frameId) (hl : ∀ f ∈ faces, l ≤ c f)
    (hk : k < spanLength faces) : l ≤ round (spanMean c r faces k) := by
  refine round_of_le (le_windowMean hk fun j _ => ?_)
  have hfirst := firstFrame_eq hne
  exact_mod_cast le_interpolated hne h hl (by omega)

/-- The list that is cropped, frame by frame. -/
theorem smoothedFaces_eq (hne : faces ≠ [])
    (h : faces.Pairwise fun f f' => f.frameId < f'.frameId) :
    ∃ ids : Nat → Int, smoothedFaces (F := ℚ) faces = .ok ((List.range (spanLength faces)).map fun k =>
      { x := round (spanMean (fun f => f.x) 3 faces k)
        y := round (spanMean (fun f => f.y) 3 faces k)
        width := round (spanMean (fun f => f.width) 3 faces k)
        height := round (spanMean (fun f => f.height) 1 faces k)
        frameId := ids k }) := by
  obtain ⟨modified, hfill⟩ := addMissingFrames_eq (F := ℚ) hne h
  rw [← firstFrame_eq hne] at hfill
  refine ⟨fun k => (spanFace (F := ℚ) faces (firstFrame faces + k)).frameId, ?_⟩
  rw [smoothedFaces, hfill, ok_bind]
  simp only [smoothFaceSeries_range]
  simp only [spanMean, ← spanFace_coordinate interpolates_x hne h,
    ← spanFace_coordinate interpolates_y hne h, ← spanFace_coordinate interpolates_width hne h,
    ← spanFace_coordinate interpolates_height hne h]

/-- The four lower bounds survive, so the two edges decide. -/
theorem staysInFrame_iff {W H : Int} (hne : faces ≠ [])
    (h : faces.Pairwise fun f f' => f.frameId < f'.frameId)
    (hin : ∀ f ∈ faces, InFrame W H f.toCvRect) :
    StaysInFrame W H faces ↔ ∀ k < spanLength faces,
      round (spanMean (fun f => f.x) 3 faces k) + round (spanMean (fun f => f.width) 3 faces k) ≤ W ∧
        round (spanMean (fun f => f.y) 3 faces k) +
          round (spanMean (fun f => f.height) 1 faces k) ≤ H := by
  obtain ⟨ids, heq⟩ := smoothedFaces_eq hne h
  rw [StaysInFrame, heq]
  simp only [Except.ok.injEq, exists_eq_left', List.mem_map, List.mem_range, forall_exists_index,
    and_imp, forall_apply_eq_imp_iff₂]
  refine forall₂_congr fun k hk => ?_
  have hx := le_round_spanMean (c := fun f => f.x) (r := 3) hne h (fun f hf => (hin f hf).1) hk
  have hy := le_round_spanMean (c := fun f => f.y) (r := 3) hne h (fun f hf => (hin f hf).2.1) hk
  have hw := le_round_spanMean (c := fun f => f.width) (r := 3) hne h
    (fun f hf => (hin f hf).2.2.1) hk
  have hh := le_round_spanMean (c := fun f => f.height) (r := 1) hne h
    (fun f hf => (hin f hf).2.2.2.1) hk
  exact ⟨fun hall => hall.2.2.2.2, fun hedges => ⟨hx, hy, hw, hh, hedges⟩⟩

theorem round_spanMean_le {c : Face → Int} {u : Int} {r k : Nat} (hne : faces ≠ [])
    (h : faces.Pairwise fun f f' => f.frameId < f'.frameId) (hu : ∀ f ∈ faces, c f ≤ u)
    (hk : k < spanLength faces) : round (spanMean c r faces k) ≤ u := by
  refine round_of_ge (windowMean_le hk fun j _ => ?_)
  have hfirst := firstFrame_eq hne
  exact_mod_cast interpolated_le hne h hu (by omega)

/-- Where every value of the one goes with every value of the other, so do their means, over
whatever windows. -/
theorem round_spanMean_add_le {c d : Face → Int} {u : Int} {r r' k : Nat} (hne : faces ≠ [])
    (h : faces.Pairwise fun f f' => f.frameId < f'.frameId)
    (hu : ∀ f ∈ faces, ∀ f' ∈ faces, c f + d f' ≤ u) (hk : k < spanLength faces) :
    round (spanMean c r faces k) + round (spanMean d r' faces k) ≤ u := by
  have hfirst : ∀ f' ∈ faces, round (spanMean c r faces k) ≤ u - d f' := fun f' hf' =>
    round_spanMean_le hne h (fun f hf => by have := hu f hf f' hf'; omega) hk
  have hsecond := round_spanMean_le (c := d) (u := u - round (spanMean c r faces k)) (r := r') hne h
    (fun f' hf' => by have := hfirst f' hf'; omega) hk
  omega

/-- Over one window a sum that is below the bound in every given face stays within it. -/
theorem round_spanMean_add_le_of_lt {c d : Face → Int} {u : Int} {r k : Nat} (hr : 0 < r)
    (hne : faces ≠ []) (h : faces.Pairwise fun f f' => f.frameId < f'.frameId)
    (hlt : ∀ f ∈ faces, c f + d f < u) (hk : k < spanLength faces) :
    round (spanMean c r faces k) + round (spanMean d r faces k) ≤ u := by
  have hfirst := firstFrame_eq hne
  refine round_add_round_le ?_
  rw [spanMean, spanMean, ← windowMean_add]
  refine windowMean_lt hr hk (fun j _ => ?_) (fun j _ => ?_) fun _ => ?_
  · exact_mod_cast (interpolated_add_lt hne h hlt (by omega)).1
  · have hor := (interpolated_add_lt hne h hlt (t := firstFrame faces + j) (by omega)).2
    rw [add_assoc] at hor
    exact_mod_cast hor
  · have hhead : ∀ e : Face → Int, interpolated e faces (firstFrame faces) = e (faces.head hne) :=
      fun e => by rw [hfirst, interpolated_head e hne h]
    rw [Nat.cast_zero, add_zero, hhead, hhead]
    exact_mod_cast hlt _ (List.head_mem hne)

theorem staysInFrame_of_edgesFit {W H : Int} (hne : faces ≠ [])
    (h : faces.Pairwise fun f f' => f.frameId < f'.frameId)
    (hin : ∀ f ∈ faces, InFrame W H f.toCvRect) (hfit : EdgesFit W H faces) :
    StaysInFrame W H faces := by
  obtain ⟨hright, hlower⟩ := hfit
  refine (staysInFrame_iff hne h hin).mpr fun k hk => ⟨?_, ?_⟩
  · obtain hright | hright := hright
    · exact round_spanMean_add_le_of_lt (by decide) hne h hright hk
    · exact round_spanMean_add_le hne h hright hk
  · exact round_spanMean_add_le hne h hlower hk

end

/-! ## Faces in consecutive frames -/

/-- Rectangles in consecutive frames, from frame 1 on. -/
def inTurn (rects : List CvRect) : List Face := rects.zipIdx.map fun p => ⟨p.1, p.2 + 1⟩

section
variable {rects : List CvRect}

theorem length_inTurn (rects : List CvRect) : (inTurn rects).length = rects.length := by
  rw [inTurn, List.length_map, List.length_zipIdx]

theorem inTurn_ne_nil (hne : rects ≠ []) : inTurn rects ≠ [] := by
  rw [← List.length_pos_iff, length_inTurn]
  exact List.length_pos_iff.mpr hne

theorem frameId_inTurn (rects : List CvRect) : (inTurn rects).map (fun f => f.frameId) =
    (List.range rects.length).map fun k : Nat => (1 : Int) + k := by
  rw [inTurn, List.map_map, List.range_eq_range', ← List.zipIdx_map_snd, List.map_map]
  exact List.map_congr_left fun p _ => add_comm _ _

theorem pairwise_inTurn (rects : List CvRect) :
    (inTurn rects).Pairwise fun f f' => f.frameId < f'.frameId := by
  rw [← List.pairwise_map, frameId_inTurn]
  exact pairwise_consecutive 1 _

theorem map_inTurn {β : Type} (c : CvRect → β) (rects : List CvRect) :
    (inTurn rects).map (fun f => c f.toCvRect) = rects.map c := by
  rw [inTurn, List.map_map]
  show rects.zipIdx.map (c ∘ Prod.fst) = _
  rw [← List.map_map, List.zipIdx_map_fst]

theorem mem_iff_inTurn {r : CvRect} : r ∈ rects ↔ ∃ f ∈ inTurn rects, f.toCvRect = r := by
  rw [← List.mem_map, map_inTurn (fun r => r), List.map_id']

theorem forall_inTurn_iff {P : CvRect → Prop} :
    (∀ f ∈ inTurn rects, P f.toCvRect) ↔ ∀ r ∈ rects, P r := by
  simp only [mem_iff_inTurn, forall_exists_index, and_imp, forall_apply_eq_imp_iff₂]

theorem exists_inTurn_iff {P : CvRect → Prop} :
    (∃ f ∈ inTurn rects, P f.toCvRect) ↔ ∃ r ∈ rects, P r := by
  simp only [mem_iff_inTurn]
  constructor
  · rintro ⟨f, hf, hp⟩
    exact ⟨_, ⟨f, hf, rfl⟩, hp⟩
  · rintro ⟨_, ⟨f, hf, rfl⟩, hp⟩
    exact ⟨f, hf, hp⟩

theorem addMissingFrames_of_full {faces : List Face} (hne : faces ≠ [])
    (hfull : (faces.getLast hne).frameId - (faces.head hne).frameId + 1 = faces.length) :
    addMissingFrames (F := ℚ) faces = .ok (faces, false) := by
  cases faces with
  | nil => exact absurd rfl hne
  | cons f fs => exact if_pos hfull

theorem head_inTurn (hne : rects ≠ []) :
    ((inTurn rects).head (inTurn_ne_nil hne)).frameId = 1 := by
  have hpos : rects.length ≠ 0 := fun h => hne (List.length_eq_zero_iff.mp h)
  have h := congrArg List.head? (frameId_inTurn rects)
  rw [List.head?_map, List.head?_map, List.head?_eq_some_head (inTurn_ne_nil hne), List.head?_range,
    if_neg hpos] at h
  exact Option.some.inj h

theorem getLast_inTurn (hne : rects ≠ []) :
    ((inTurn rects).getLast (inTurn_ne_nil hne)).frameId = rects.length := by
  have hpos : rects.length ≠ 0 := fun h => hne (List.length_eq_zero_iff.mp h)
  have h := congrArg List.getLast? (frameId_inTurn rects)
  rw [List.getLast?_map, List.getLast?_map, List.getLast?_eq_some_getLast (inTurn_ne_nil hne),
    List.getLast?_range, if_neg hpos] at h
  have hid : ((inTurn rects).getLast (inTurn_ne_nil hne)).frameId =
      1 + ((rects.length - 1 : Nat) : Int) := Option.some.inj h
  omega

theorem spanLength_inTurn (hne : rects ≠ []) : spanLength (inTurn rects) = rects.length := by
  have hspan := spanLength_eq (inTurn_ne_nil hne) (pairwise_inTurn rects)
  rw [getLast_inTurn hne, head_inTurn hne] at hspan
  omega

/-- No frame is missing. -/
theorem smoothedFaces_inTurn (hne : rects ≠ []) :
    smoothedFaces (F := ℚ) (inTurn rects) = smoothFaceSeries (F := ℚ) (inTurn rects) := by
  have hfull := addMissingFrames_of_full (inTurn_ne_nil hne)
    (by rw [head_inTurn hne, getLast_inTurn hne, length_inTurn]; omega)
  rw [smoothedFaces, hfull, ok_bind]

end

/-- The first mean over the positions within three. -/
theorem seriesMean_three_first (a b c d : Int) (xs : List Int) :
    seriesMean 3 (a :: b :: c :: d :: xs) 0 = ((a + b + c + d : ℤ) : ℚ) / 4 := by
  have hmin : min (xs.length + 1 + 1 + 1 + 1) (0 + 3 + 1) = 4 := by omega
  simp only [seriesMean, windowMean, List.length_cons, hmin]
  simp [Finset.sum_range_succ]

/-- The first mean over the positions within one. -/
theorem seriesMean_one_first (a b : Int) (xs : List Int) :
    seriesMean 1 (a :: b :: xs) 0 = ((a + b : ℤ) : ℚ) / 2 := by
  have hmin : min (xs.length + 1 + 1) (0 + 1 + 1) = 2 := by omega
  simp only [seriesMean, windowMean, List.length_cons, hmin]
  simp [Finset.sum_range_succ]

theorem head?_smoothedSeries (r : Nat) {xs : List Int} (hne : xs ≠ []) :
    (smoothedSeries r xs).head? = some (round (seriesMean r xs 0)) := by
  have hpos : xs.length ≠ 0 := fun h => hne (List.length_eq_zero_iff.mp h)
  rw [smoothedSeries, List.head?_map, List.head?_range, if_neg hpos]
  rfl

/-- The first rectangle that is cropped. -/
theorem exists_first_smoothed (r₀ r₁ r₂ r₃ : CvRect) (rest : List CvRect) :
    ∃ out, smoothedFaces (F := ℚ) (inTurn (r₀ :: r₁ :: r₂ :: r₃ :: rest)) = .ok out ∧ ∃ f ∈ out,
      f.x = round (((r₀.x + r₁.x + r₂.x + r₃.x : ℤ) : ℚ) / 4) ∧
      f.y = round (((r₀.y + r₁.y + r₂.y + r₃.y : ℤ) : ℚ) / 4) ∧
      f.width = round (((r₀.width + r₁.width + r₂.width + r₃.width : ℤ) : ℚ) / 4) ∧
      f.height = round (((r₀.height + r₁.height : ℤ) : ℚ) / 2) := by
  obtain ⟨out, hout, hx, hy, hwidth, hheight⟩ :=
    smoothFaceSeries_series (inTurn (r₀ :: r₁ :: r₂ :: r₃ :: rest))
  refine ⟨out, by rw [smoothedFaces_inTurn (List.cons_ne_nil _ _), hout], ?_⟩
  have hfirst : ∀ (c : CvRect → Int) (r : Nat),
      out.map (fun f => c f.toCvRect) = smoothedSeries r
        ((inTurn (r₀ :: r₁ :: r₂ :: r₃ :: rest)).map fun f => c f.toCvRect) →
      out.head?.map (fun f => c f.toCvRect) =
        some (round (seriesMean r (c r₀ :: c r₁ :: c r₂ :: c r₃ :: rest.map c) 0)) := by
    intro c r h
    rw [map_inTurn] at h
    rw [← List.head?_map, h, head?_smoothedSeries r (by simp)]
    rfl
  replace hx := hfirst (fun r => r.x) 3 hx
  replace hy := hfirst (fun r => r.y) 3 hy
  replace hwidth := hfirst (fun r => r.width) 3 hwidth
  replace hheight := hfirst (fun r => r.height) 1 hheight
  cases hhead : out.head? with
  | none =>
    rw [hhead] at hx
    cases hx
  | some f =>
    rw [hhead, Option.map_some, Option.some_inj] at hx hy hwidth hheight
    rw [seriesMean_three_first] at hx hy hwidth
    rw [seriesMean_one_first] at hheight
    exact ⟨f, List.mem_of_mem_head? hhead, hx, hy, hwidth, hheight⟩

/-! ## The exact condition -/

theorem exists_le_of_max?_eq {l m : List Int} (h : l.max? = m.max?) :
    ∀ a ∈ l, ∃ b ∈ m, a ≤ b := by
  intro a ha
  cases hm : m.max? with
  | none =>
    rw [hm, List.max?_eq_none_iff] at h
    rw [h] at ha
    cases ha
  | some b =>
    rw [hm] at h
    exact ⟨b, (List.max?_eq_some_iff.mp hm).1, (List.max?_eq_some_iff.mp h).2 a ha⟩

theorem max?_append_of_le {l m : List Int} (h : ∀ a ∈ l, ∃ b ∈ m, a ≤ b) :
    (l ++ m).max? = m.max? := by
  cases hm : m.max? with
  | none =>
    rw [List.max?_eq_none_iff] at hm ⊢
    subst hm
    rw [List.append_nil]
    refine List.eq_nil_iff_forall_not_mem.mpr fun a ha => ?_
    obtain ⟨b, hb, -⟩ := h a ha
    cases hb
  | some b =>
    obtain ⟨hmem, hle⟩ := List.max?_eq_some_iff.mp hm
    refine List.max?_eq_some_iff.mpr ⟨List.mem_append_right _ hmem, fun a ha => ?_⟩
    obtain ha | ha := List.mem_append.mp ha
    · obtain ⟨c, hc, hac⟩ := h a ha
      exact hac.trans (hle c hc)
    · exact hle a ha

section
variable {W H : Int} {faces faces' : List Face}

theorem EdgesFit.of_sameExtent (h : EdgesFit W H faces) (hext : SameExtent W faces' faces)
    (hin : ∀ f ∈ faces', InFrame W H f.toCvRect) : EdgesFit W H faces' := by
  have hle : ∀ c : Face → Int, (faces'.map c).max? = (faces.map c).max? →
      ∀ f' ∈ faces', ∃ f ∈ faces, c f' ≤ c f := by
    intro c hmax f' hf'
    obtain ⟨_, hb, hle⟩ := exists_le_of_max?_eq hmax (c f') (List.mem_map_of_mem hf')
    obtain ⟨f, hf, rfl⟩ := List.mem_map.mp hb
    exact ⟨f, hf, hle⟩
  obtain ⟨hright, hlower⟩ := h
  refine ⟨?_, fun f hf f' hf' => ?_⟩
  · obtain hfree | hright := hright
    · refine .inl fun f hf => lt_of_le_of_ne (hin f hf).2.2.2.2.1 fun htouch => ?_
      obtain ⟨g, hg, hg'⟩ := hext.touches.mp ⟨f, hf, htouch⟩
      exact absurd hg' (hfree g hg).ne
    · refine .inr fun f hf f' hf' => ?_
      obtain ⟨g, hg, hxle⟩ := hle (fun f => f.x) hext.x f hf
      obtain ⟨g', hg', hwle⟩ := hle (fun f => f.width) hext.width f' hf'
      exact (add_le_add hxle hwle).trans (hright g hg g' hg')
  · obtain ⟨g, hg, hyle⟩ := hle (fun f => f.y) hext.y f hf
    obtain ⟨g', hg', hhle⟩ := hle (fun f => f.height) hext.height f' hf'
    exact (add_le_add hyle hhle).trans (hlower g hg g' hg')

/-- A rectangle that does not reach beyond what the faces reach. -/
structure Within (W : Int) (faces : List Face) (r : CvRect) : Prop where
  x : ∃ f ∈ faces, r.x ≤ f.x
  y : ∃ f ∈ faces, r.y ≤ f.y
  width : ∃ f ∈ faces, r.width ≤ f.width
  height : ∃ f ∈ faces, r.height ≤ f.height
  touches : r.x + r.width = W → ∃ f ∈ faces, f.x + f.width = W

/-- Such rectangles in front of the faces do not change the extent. -/
theorem sameExtent_append {rects : List CvRect} (h : ∀ r ∈ rects, Within W faces r) :
    SameExtent W (inTurn (rects ++ faces.map fun f => f.toCvRect)) faces := by
  have hmax : ∀ c : CvRect → Int, (∀ r ∈ rects, ∃ f ∈ faces, c r ≤ c f.toCvRect) →
      ((inTurn (rects ++ faces.map fun f => f.toCvRect)).map fun f => c f.toCvRect).max? =
        (faces.map fun f => c f.toCvRect).max? := by
    intro c hle
    rw [map_inTurn, List.map_append, List.map_map]
    refine max?_append_of_le fun a ha => ?_
    obtain ⟨r, hr, rfl⟩ := List.mem_map.mp ha
    obtain ⟨f, hf, hrf⟩ := hle r hr
    exact ⟨_, List.mem_map_of_mem hf, hrf⟩
  refine ⟨hmax (fun r => r.x) fun r hr => (h r hr).x, hmax (fun r => r.y) fun r hr => (h r hr).y,
    hmax (fun r => r.width) fun r hr => (h r hr).width,
    hmax (fun r => r.height) fun r hr => (h r hr).height, ?_⟩
  rw [exists_inTurn_iff (P := fun r => r.x + r.width = W)]
  constructor
  · rintro ⟨r, hr, htouch⟩
    obtain hr | hr := List.mem_append.mp hr
    · exact (h r hr).touches htouch
    · obtain ⟨f, hf, rfl⟩ := List.mem_map.mp hr
      exact ⟨f, hf, htouch⟩
  · rintro ⟨f, hf, htouch⟩
    exact ⟨f.toCvRect, List.mem_append_right _ (List.mem_map_of_mem hf), htouch⟩

/-- Two rectangles in turn, each touching the edge, before the faces. -/
def edgeTurns (r₀ r₁ : CvRect) (faces : List Face) : List Face :=
  inTurn ([r₀, r₁, r₀, r₁] ++ faces.map fun f => f.toCvRect)

theorem exists_first_edgeTurns (r₀ r₁ : CvRect) (faces : List Face) :
    ∃ out, smoothedFaces (F := ℚ) (edgeTurns r₀ r₁ faces) = .ok out ∧ ∃ f ∈ out,
      f.x = round (((r₀.x + r₁.x : ℤ) : ℚ) / 2) ∧ f.y = round (((r₀.y + r₁.y : ℤ) : ℚ) / 2) ∧
      f.width = round (((r₀.width + r₁.width : ℤ) : ℚ) / 2) ∧
      f.height = round (((r₀.height + r₁.height : ℤ) : ℚ) / 2) := by
  obtain ⟨out, hout, f, hf, hx, hy, hwidth, hheight⟩ :=
    exists_first_smoothed r₀ r₁ r₀ r₁ (faces.map fun f => f.toCvRect)
  have hhalf : ∀ a b : ℤ, ((a + b + a + b : ℤ) : ℚ) / 4 = ((a + b : ℤ) : ℚ) / 2 := fun a b => by
    push_cast
    ring
  rw [hhalf] at hx hy hwidth
  exact ⟨out, hout, f, hf, hx, hy, hwidth, hheight⟩

/-- Half of an odd number is rounded up. -/
theorem round_odd_half (n : ℤ) : round (((n - 1 + n : ℤ) : ℚ) / 2) = n := by
  rw [round_eq, Int.floor_eq_iff]
  push_cast
  constructor <;> linarith

/-- The list is one of the kind: increasing numbers, in the frame, of the same extent. -/
theorem edgeTurns_ok {r₀ r₁ : CvRect} (hin : ∀ f ∈ faces, InFrame W H f.toCvRect)
    (h₀ : InFrame W H r₀) (h₁ : InFrame W H r₁) (hw₀ : Within W faces r₀)
    (hw₁ : Within W faces r₁) :
    edgeTurns r₀ r₁ faces ≠ [] ∧
      (edgeTurns r₀ r₁ faces).Pairwise (fun f f' => f.frameId < f'.frameId) ∧
      (∀ f ∈ edgeTurns r₀ r₁ faces, InFrame W H f.toCvRect) ∧
      SameExtent W (edgeTurns r₀ r₁ faces) faces := by
  refine ⟨inTurn_ne_nil (by simp), pairwise_inTurn _, forall_inTurn_iff.mpr fun r hr => ?_,
    sameExtent_append fun r hr => ?_⟩
  · obtain hr | hr := List.mem_append.mp hr
    · simp only [List.mem_cons, List.not_mem_nil, or_false] at hr
      obtain rfl | rfl | rfl | rfl := hr
      exacts [h₀, h₁, h₀, h₁]
    · obtain ⟨f, hf, rfl⟩ := List.mem_map.mp hr
      exact hin f hf
  · simp only [List.mem_cons, List.not_mem_nil, or_false] at hr
    obtain rfl | rfl | rfl | rfl := hr
    exacts [hw₀, hw₁, hw₀, hw₁]

/-- A rectangle on the right edge that begins no further to the right than some face and is
no wider than another. -/
theorem on_rightEdge (hin : ∀ f ∈ faces, InFrame W H f.toCvRect) {f f' : Face} (hf : f ∈ faces)
    (hf' : f' ∈ faces) (htouch : ∃ g ∈ faces, g.x + g.width = W) {x : Int} (h0 : 0 ≤ x)
    (hx : x ≤ f.x) (hwidth : W - x ≤ f'.width) :
    InFrame W H ⟨x, 0, W - x, 1⟩ ∧ Within W faces ⟨x, 0, W - x, 1⟩ := by
  obtain ⟨hfx, hfy, hfw, hfh, hright, hlower⟩ := hin f hf
  refine ⟨?_, ⟨f, hf, hx⟩, ⟨f, hf, hfy⟩, ⟨f', hf', hwidth⟩, ⟨f, hf, hfh⟩, fun _ => htouch⟩
  simp only [InFrame]
  omega

/-- A rectangle on the lower edge that begins no further down than some face and is no
higher than another. -/
theorem on_lowerEdge (hin : ∀ f ∈ faces, InFrame W H f.toCvRect) {f f' : Face} (hf : f ∈ faces)
    (hf' : f' ∈ faces) {y : Int} (h0 : 0 ≤ y) (hy : y ≤ f.y) (hheight : H - y ≤ f'.height) :
    InFrame W H ⟨0, y, 1, H - y⟩ ∧ Within W faces ⟨0, y, 1, H - y⟩ := by
  obtain ⟨hfx, hfy, hfw, hfh, hright, hlower⟩ := hin f hf
  refine ⟨?_, ⟨f, hf, hfx⟩, ⟨f, hf, hy⟩, ⟨f, hf, hfw⟩, ⟨f', hf', hheight⟩, fun hone => ⟨f, hf, ?_⟩⟩
  · simp only [InFrame]
    omega
  · -- in a frame one pixel wide every face touches the edge
    replace hone : 0 + 1 = W := hone
    omega

/-- Lists of one kind all stay in the frame only if the edges fit. -/
theorem edgesFit_of_forall (hin : ∀ f ∈ faces, InFrame W H f.toCvRect)
    (hall : ∀ faces', faces' ≠ [] → faces'.Pairwise (fun f f' => f.frameId < f'.frameId) →
      (∀ f ∈ faces', InFrame W H f.toCvRect) → SameExtent W faces' faces →
        StaysInFrame W H faces') : EdgesFit W H faces := by
  refine ⟨?_, fun f hf f' hf' => ?_⟩
  · by_contra hnot
    rw [not_or] at hnot
    push Not at hnot
    obtain ⟨⟨g, hg, hreach⟩, f, hf, f', hf', hbeyond⟩ := hnot
    have htouch : ∃ g ∈ faces, g.x + g.width = W :=
      ⟨g, hg, le_antisymm (hin g hg).2.2.2.2.1 hreach⟩
    have hfx := (hin f hf).1
    have hright := (hin f hf).2.2.2.2.1
    have hright' := (hin f' hf').2.2.2.2.1
    have hfw := (hin f hf).2.2.1
    have hfx' := (hin f' hf').1
    -- the two rectangles differ by a pixel, so both means are rounded up
    obtain ⟨h₀, hw₀⟩ := on_rightEdge hin hf hf' htouch (x := f.x - 1) (by omega) (by omega) (by omega)
    obtain ⟨h₁, hw₁⟩ := on_rightEdge hin hf hf' htouch hfx (le_refl _) (by omega)
    obtain ⟨hne, hinc, hin', hext⟩ := edgeTurns_ok hin h₀ h₁ hw₀ hw₁
    obtain ⟨out, hout, hinside⟩ := hall _ hne hinc hin' hext
    obtain ⟨_, hout', e, he, hxe, -, hwe, -⟩ := exists_first_edgeTurns
      ⟨f.x - 1, 0, W - (f.x - 1), 1⟩ ⟨f.x, 0, W - f.x, 1⟩ faces
    cases hout.symm.trans hout'
    have hsize : W - (f.x - 1) + (W - f.x) = W - f.x + 1 - 1 + (W - f.x + 1) := by omega
    rw [round_odd_half] at hxe
    rw [hsize, round_odd_half] at hwe
    have hcrop := (hinside e he).2.2.2.2.1
    omega
  · by_contra hbeyond
    have hfy := (hin f hf).2.1
    have hlower := (hin f hf).2.2.2.2.2
    have hlower' := (hin f' hf').2.2.2.2.2
    have hfh := (hin f hf).2.2.2.1
    have hfy' := (hin f' hf').2.1
    obtain ⟨h₀, hw₀⟩ := on_lowerEdge hin hf hf' (y := f.y - 1) (by omega) (by omega) (by omega)
    obtain ⟨h₁, hw₁⟩ := on_lowerEdge hin hf hf' hfy (le_refl _) (by omega)
    obtain ⟨hne, hinc, hin', hext⟩ := edgeTurns_ok hin h₀ h₁ hw₀ hw₁
    obtain ⟨out, hout, hinside⟩ := hall _ hne hinc hin' hext
    obtain ⟨_, hout', e, he, -, hye, -, hhe⟩ := exists_first_edgeTurns
      ⟨0, f.y - 1, 1, H - (f.y - 1)⟩ ⟨0, f.y, 1, H - f.y⟩ faces
    cases hout.symm.trans hout'
    have hsize : H - (f.y - 1) + (H - f.y) = H - f.y + 1 - 1 + (H - f.y + 1) := by omega
    rw [round_odd_half] at hye
    rw [hsize, round_odd_half] at hhe
    have hcrop := (hinside e he).2.2.2.2.2
    omega

/-- Where the edges fit, everything that is cropped lies in the frame, and no weaker
condition on the greatest coordinates and on the right edge would do: it holds iff all lists
of the same extent stay in the frame. -/
theorem smoothedFaces_inFrame_iff (hne : faces ≠ [])
    (h : faces.Pairwise fun f f' => f.frameId < f'.frameId)
    (hin : ∀ f ∈ faces, InFrame W H f.toCvRect) :
    (EdgesFit W H faces → StaysInFrame W H faces) ∧
      ((∀ faces', faces' ≠ [] → faces'.Pairwise (fun f f' => f.frameId < f'.frameId) →
        (∀ f ∈ faces', InFrame W H f.toCvRect) → SameExtent W faces' faces →
          StaysInFrame W H faces') ↔ EdgesFit W H faces) := by
  refine ⟨staysInFrame_of_edgesFit hne h hin, edgesFit_of_forall hin, fun hfit => ?_⟩
  intro faces' hne' h' hin' hext
  exact staysInFrame_of_edgesFit hne' h' hin' (hfit.of_sameExtent hext hin')

end

/-- A face that moves to the right and grows narrower, with two frames missing in between. -/
def movingFaces : List Face := [⟨⟨0, 0, 3, 3⟩, 1⟩, ⟨⟨2, 2, 1, 1⟩, 4⟩]

theorem staysInFrame_movingFaces : StaysInFrame 4 5 movingFaces :=
  (smoothedFaces_inFrame_iff (by decide) (by decide) (by decide)).1 (by decide)

/-- Twelve faces on the right edge of a 640 x 480 frame, two and one pixel wide in turn. -/
def edgeFaces : List Face := (List.range 12).map fun k =>
  ⟨⟨638 + ((k % 2 : Nat) : Int), 0, 2 - ((k % 2 : Nat) : Int), 1⟩, k + 1⟩

/-- In the first frame position and width average to 638.5 and 1.5, and both round up. -/
theorem smoothed_outside_frame :
    edgeFaces ≠ [] ∧ edgeFaces.Pairwise (fun f f' => f.frameId < f'.frameId) ∧
      (∀ f ∈ edgeFaces, InFrame 640 480 f.toCvRect) ∧
      ∃ out, smoothedFaces (F := ℚ) edgeFaces = .ok out ∧
        ¬ ∀ f ∈ out, InFrame 640 480 f.toCvRect := by
  have hruns : returns (fun out => decide (¬ ∀ f ∈ out, InFrame 640 480 f.toCvRect))
      (smoothedFaces (F := ℚ) edgeFaces) = true := by decide +kernel
  obtain ⟨out, hout, hall⟩ := exists_of_returns hruns
  exact ⟨by decide, by decide, by decide, out, hout, of_decide_eq_true hall⟩

end PlanetariumFD
