import PlanetariumFD.Detector.SmoothingBounds

/-!
# Square faces after smoothing

The detector's rectangles are square. Filling the gaps keeps them so, since width
and height are interpolated alike. Smoothing averages a width over the frames
within three and a height over the frames within one, so a rectangle stays square
only where the two means round to one integer.
-/

namespace PlanetariumFD

open Outcome Rounding

/-! ## When the two windows give the same -/

theorem smoothedSeries_of_length_le {xs : List Int} (h : xs.length ≤ 2) :
    smoothedSeries 3 xs = smoothedSeries 1 xs := by
  refine List.map_congr_left fun k hk => ?_
  -- two positions are all in both windows
  rw [seriesMean, seriesMean, windowMean_of_le (List.mem_range.mp hk) (by omega) h]

/-- Two values first and two others next: the short window sees only the first. -/
theorem smoothedSeries_ne_of_lt {a b : Int} (h : a < b) (xs : List Int) :
    smoothedSeries 3 (a :: a :: b :: b :: xs) ≠ smoothedSeries 1 (a :: a :: b :: b :: xs) := by
  intro heq
  have hhead := congrArg List.head? heq
  rw [head?_smoothedSeries _ (by simp), head?_smoothedSeries _ (by simp), seriesMean_three_first,
    seriesMean_one_first, Option.some_inj] at hhead
  have hshort : round (((a + a : ℤ) : ℚ) / 2) ≤ a := round_of_ge (by push_cast; linarith)
  have hlong : a + 1 ≤ round (((a + a + b + b : ℤ) : ℚ) / 4) := by
    have hb : ((a : ℚ)) + 1 ≤ b := by exact_mod_cast h
    rw [le_round_iff]
    push_cast
    linarith
  omega

theorem seriesMean_three_of_three (a b c : Int) :
    seriesMean 3 [a, b, c] 0 = ((a + b + c : ℤ) : ℚ) / 3 := by
  simp only [seriesMean, windowMean, List.length_cons, List.length_nil]
  norm_num [Finset.sum_range_succ]

/-- Three values, the greatest in the middle if it is the next integer, else at the end. -/
theorem exists_smoothedSeries_ne_of_three {a b : Int} (h : a < b) :
    ∃ m l, (m = a ∧ l = b ∨ m = b ∧ l = a) ∧ smoothedSeries 3 [a, m, l] ≠ smoothedSeries 1 [a, m, l] := by
  have hhead : ∀ m l, smoothedSeries 3 [a, m, l] = smoothedSeries 1 [a, m, l] →
      round (((a + m + l : ℤ) : ℚ) / 3) = round (((a + m : ℤ) : ℚ) / 2) := by
    intro m l heq
    have hhead := congrArg List.head? heq
    rwa [head?_smoothedSeries _ (by simp), head?_smoothedSeries _ (by simp),
      seriesMean_three_of_three, seriesMean_one_first, Option.some_inj] at hhead
  by_cases hnext : b = a + 1
  · refine ⟨b, a, .inr ⟨rfl, rfl⟩, fun heq => ?_⟩
    have hlong : round (((a + b + a : ℤ) : ℚ) / 3) = a := by
      rw [hnext, round_eq, Int.floor_eq_iff]
      push_cast
      constructor <;> linarith
    have hshort : a + 1 ≤ round (((a + b : ℤ) : ℚ) / 2) := by
      rw [hnext, le_round_iff]
      push_cast
      linarith
    have := hhead b a heq
    omega
  · refine ⟨a, b, .inl ⟨rfl, rfl⟩, fun heq => ?_⟩
    have hshort : round (((a + a : ℤ) : ℚ) / 2) ≤ a := round_of_ge (by push_cast; linarith)
    have hlong : a + 1 ≤ round (((a + a + b : ℤ) : ℚ) / 3) := by
      have hb : ((a : ℚ)) + 2 ≤ b := by exact_mod_cast by omega
      rw [le_round_iff]
      push_cast
      linarith
    have := hhead a b heq
    omega

/-- From three values on, unequal ones are not always smoothed alike. -/
theorem exists_smoothedSeries_ne {N : Nat} {a b : Int} (hN : 3 ≤ N) (h : a < b) :
    ∃ xs : List Int, xs.length = N ∧ xs.min? = some a ∧ xs.max? = some b ∧
      smoothedSeries 3 xs ≠ smoothedSeries 1 xs := by
  obtain rfl | hlt := hN.eq_or_lt
  · obtain ⟨m, l, hml, hne⟩ := exists_smoothedSeries_ne_of_three h
    refine ⟨[a, m, l], rfl, List.min?_eq_some_iff.mpr ?_, List.max?_eq_some_iff.mpr ?_, hne⟩
    · obtain ⟨rfl, rfl⟩ | ⟨rfl, rfl⟩ := hml <;> simp [h.le]
    · obtain ⟨rfl, rfl⟩ | ⟨rfl, rfl⟩ := hml <;> simp [h.le]
  · refine ⟨a :: a :: b :: b :: List.replicate (N - 4) b, ?_, List.min?_eq_some_iff.mpr ?_,
      List.max?_eq_some_iff.mpr ?_, smoothedSeries_ne_of_lt h _⟩
    · simp only [List.length_cons, List.length_replicate]
      omega
    · simp [h.le]
    · simp [h.le]

theorem smoothedSeries_eq_of_min?_max? {xs : List Int} {a b : Int} (hmin : xs.min? = some a)
    (hmax : xs.max? = some b) (h : xs.length ≤ 2 ∨ b ≤ a) :
    smoothedSeries 3 xs = smoothedSeries 1 xs := by
  obtain hlen | hle := h
  · exact smoothedSeries_of_length_le hlen
  · have hsame : ∀ x ∈ xs, x = a := fun x hx =>
      le_antisymm (((List.max?_eq_some_iff.mp hmax).2 x hx).trans hle)
        ((List.min?_eq_some_iff.mp hmin).2 x hx)
    rw [smoothedSeries_of_forall_eq hsame, smoothedSeries_of_forall_eq hsame]

/-! ## The law -/

/-- What the heights become is what they would become as widths: in every list whose
widths are these heights, the widths become the same. -/
def SameTransformation (faces : List Face) : Prop :=
  ∃ out, smoothFaceSeries (F := ℚ) faces = .ok out ∧
    ∀ faces' : List Face, faces'.map (fun f => f.width) = faces.map (fun f => f.height) →
      ∃ out', smoothFaceSeries (F := ℚ) faces' = .ok out' ∧
        out'.map (fun f => f.width) = out.map fun f => f.height

theorem sameTransformation_iff (faces : List Face) : SameTransformation faces ↔
    smoothedSeries 3 (faces.map fun f => f.height) =
      smoothedSeries 1 (faces.map fun f => f.height) := by
  obtain ⟨out, hout, -, -, -, hheight⟩ := smoothFaceSeries_series faces
  rw [← hheight]
  constructor
  · rintro ⟨_, hout', hall⟩
    cases hout.symm.trans hout'
    -- the list with each height in the width's place
    let turned := faces.map fun f => { f with width := f.height }
    have hturned : turned.map (fun f => f.width) = faces.map fun f => f.height := by
      simp [turned]
    obtain ⟨_, hrun, hwidths⟩ := hall turned hturned
    obtain ⟨_, hrun', -, -, hwidth, -⟩ := smoothFaceSeries_series turned
    cases hrun.symm.trans hrun'
    rw [← hwidths, hwidth, hturned]
  · intro h
    refine ⟨out, hout, fun faces' hfaces' => ?_⟩
    obtain ⟨out', hout', -, -, hwidth, -⟩ := smoothFaceSeries_series faces'
    refine ⟨out', hout', ?_⟩
    rw [hwidth, hfaces', h]

def Square (f : Face) : Prop := f.width = f.height

instance (f : Face) : Decidable (Square f) := by
  unfold Square
  infer_instance

theorem forall_square_iff (faces : List Face) :
    (∀ f ∈ faces, Square f) ↔ faces.map (fun f => f.width) = faces.map fun f => f.height :=
  List.map_inj_left.symm

/-- What is cropped for the smoothed video is square. -/
def StaysSquare (faces : List Face) : Prop :=
  ∃ out, smoothedFaces (F := ℚ) faces = .ok out ∧ ∀ f ∈ out, Square f

/-- A list of square faces stays square iff smoothing treats its sizes alike. -/
theorem smoothFaceSeries_square_iff {faces : List Face} (h : ∀ f ∈ faces, Square f) :
    (∃ out, smoothFaceSeries (F := ℚ) faces = .ok out ∧ ∀ f ∈ out, Square f) ↔
      smoothedSeries 3 (faces.map fun f => f.width) =
        smoothedSeries 1 (faces.map fun f => f.width) := by
  obtain ⟨out, hout, -, -, hwidth, hheight⟩ := smoothFaceSeries_series faces
  rw [hout]
  simp only [Except.ok.injEq, exists_eq_left']
  rw [forall_square_iff, hwidth, hheight, ← (forall_square_iff faces).mp h]

section
variable {faces : List Face}

/-- The widths frame by frame, from the first face to the last. -/
def spanWidths (faces : List Face) : List Int :=
  (List.range (spanLength faces)).map fun k : Nat =>
    interpolated (fun f => f.width) faces (firstFrame faces + k)

theorem interpolated_congr {c d : Face → Int} (h : ∀ f ∈ faces, c f = d f) (t : Int) :
    interpolated c faces t = interpolated d faces t := by
  induction faces with
  | nil => rfl
  | cons prev fs ih =>
    have hprev : c prev = d prev := h prev List.mem_cons_self
    cases fs with
    | nil => exact hprev
    | cons next rest =>
      have hnext : c next = d next := h next (List.mem_cons_of_mem _ List.mem_cons_self)
      rw [interpolated, interpolated, hprev, hnext,
        ih fun f hf => h f (List.mem_cons_of_mem _ hf)]

/-- Filling the gaps keeps faces square, with the widths interpolated. -/
theorem addMissingFrames_square (hne : faces ≠ [])
    (h : faces.Pairwise fun f f' => f.frameId < f'.frameId) (hsq : ∀ f ∈ faces, Square f) :
    ∃ filled modified, addMissingFrames (F := ℚ) faces = .ok (filled, modified) ∧
      (∀ f ∈ filled, Square f) ∧ filled.map (fun f => f.width) = spanWidths faces := by
  obtain ⟨modified, hfill⟩ := addMissingFrames_eq (F := ℚ) hne h
  refine ⟨_, modified, hfill, ?_, ?_⟩
  · intro f hf
    obtain ⟨k, -, rfl⟩ := List.mem_map.mp hf
    rw [Square, spanFace_coordinate interpolates_width hne h,
      spanFace_coordinate interpolates_height hne h, interpolated_congr hsq]
  · rw [List.map_map, spanWidths, firstFrame_eq hne]
    exact List.map_congr_left fun k _ => spanFace_coordinate interpolates_width hne h _

/-- Over two frames, or with sizes that do not change, square faces stay square. -/
theorem staysSquare_of_min?_max? (hne : faces ≠ [])
    (h : faces.Pairwise fun f f' => f.frameId < f'.frameId) (hsq : ∀ f ∈ faces, Square f)
    {a b : Int} (hmin : (faces.map fun f => f.width).min? = some a)
    (hmax : (faces.map fun f => f.width).max? = some b) (hsame : spanLength faces ≤ 2 ∨ b ≤ a) :
    StaysSquare faces := by
  obtain ⟨filled, modified, hfill, hfilled, hwidths⟩ := addMissingFrames_square hne h hsq
  rw [StaysSquare, smoothedFaces, hfill, ok_bind]
  refine (smoothFaceSeries_square_iff hfilled).mpr ?_
  rw [hwidths]
  obtain hlen | hle := hsame
  · exact smoothedSeries_of_length_le (by rw [spanWidths, List.length_map, List.length_range]; exact hlen)
  · have hfirst := firstFrame_eq hne
    -- interpolated between equal sizes
    have hall : ∀ w ∈ spanWidths faces, w = a := by
      intro w hw
      obtain ⟨k, -, rfl⟩ := List.mem_map.mp hw
      refine le_antisymm (le_trans ?_ hle) ?_
      · exact interpolated_le hne h (fun f hf => (List.max?_eq_some_iff.mp hmax).2 _
          (List.mem_map_of_mem hf)) (by omega)
      · exact le_interpolated hne h (fun f hf => (List.min?_eq_some_iff.mp hmin).2 _
          (List.mem_map_of_mem hf)) (by omega)
    rw [smoothedSeries_of_forall_eq hall, smoothedSeries_of_forall_eq hall]

end

/-- Squares of the given sizes in consecutive frames. -/
def squares (xs : List Int) : List Face := inTurn (xs.map fun s => ⟨0, 0, s, s⟩)

theorem width_squares (xs : List Int) : (squares xs).map (fun f => f.width) = xs := by
  rw [squares, map_inTurn fun r => r.width, List.map_map]
  exact List.map_id _

theorem height_squares (xs : List Int) : (squares xs).map (fun f => f.height) = xs := by
  rw [squares, map_inTurn fun r => r.height, List.map_map]
  exact List.map_id _

theorem square_squares (xs : List Int) : ∀ f ∈ squares xs, Square f :=
  (forall_square_iff _).mpr ((width_squares xs).trans (height_squares xs).symm)

theorem staysSquare_squares_iff {xs : List Int} (hne : xs ≠ []) :
    StaysSquare (squares xs) ↔ smoothedSeries 3 xs = smoothedSeries 1 xs := by
  have hrects : (xs.map fun s => (⟨0, 0, s, s⟩ : CvRect)) ≠ [] := by simpa using hne
  have hfill := smoothedFaces_inTurn hrects
  have hiff := smoothFaceSeries_square_iff (square_squares xs)
  rw [width_squares] at hiff
  rw [StaysSquare, squares, hfill]
  exact hiff

/-- For every length of the span, and every least and greatest size: all square faces of that
kind stay square, and all heights of that kind are smoothed as widths would be, iff the
span has at most two frames or the sizes are all the same. -/
theorem squareLaw_iff (N : Nat) (a b : Int) :
    ((∀ faces : List Face, faces ≠ [] → faces.Pairwise (fun f f' => f.frameId < f'.frameId) →
      (∀ f ∈ faces, Square f) → spanLength faces = N →
      (faces.map fun f => f.width).min? = some a → (faces.map fun f => f.width).max? = some b →
        StaysSquare faces) ↔ N ≤ 2 ∨ b ≤ a) ∧
      ((∀ faces : List Face, faces.length = N → (faces.map fun f => f.height).min? = some a →
        (faces.map fun f => f.height).max? = some b → SameTransformation faces) ↔ N ≤ 2 ∨ b ≤ a) := by
  refine ⟨⟨fun hall => ?_, ?_⟩, fun hall => ?_, ?_⟩
  · by_contra hnot
    rw [not_or, not_le, not_le] at hnot
    obtain ⟨xs, hlen, hmin, hmax, hne⟩ := exists_smoothedSeries_ne hnot.1 hnot.2
    have hxs : xs ≠ [] := by
      rintro rfl
      cases hmin
    refine hne ((staysSquare_squares_iff hxs).mp (hall (squares xs) (inTurn_ne_nil (by simpa using hxs))
      (pairwise_inTurn _) (square_squares xs) ?_ ?_ ?_))
    · rw [squares, spanLength_inTurn (by simpa using hxs), List.length_map, hlen]
    · rw [width_squares, hmin]
    · rw [width_squares, hmax]
  · rintro hsame faces hne h hsq rfl hmin hmax
    exact staysSquare_of_min?_max? hne h hsq hmin hmax hsame
  · by_contra hnot
    rw [not_or, not_le, not_le] at hnot
    obtain ⟨xs, hlen, hmin, hmax, hne⟩ := exists_smoothedSeries_ne hnot.1 hnot.2
    have hsame := hall (squares xs) (by rw [squares, length_inTurn, List.length_map, hlen])
      (by rw [height_squares, hmin]) (by rw [height_squares, hmax])
    rw [sameTransformation_iff, height_squares] at hsame
    exact hne hsame
  · rintro hsame faces rfl hmin hmax
    refine (sameTransformation_iff faces).mpr (smoothedSeries_eq_of_min?_max? hmin hmax ?_)
    rw [List.length_map]
    exact hsame

/-- Two faces of one size and the two frames between them. -/
def equalSquares : List Face := [⟨⟨0, 0, 2, 2⟩, 1⟩, ⟨⟨1, 1, 2, 2⟩, 4⟩]

theorem staysSquare_equalSquares : StaysSquare equalSquares :=
  (squareLaw_iff 4 2 2).1.mpr (.inr (le_refl 2)) equalSquares (by decide) (by decide) (by decide)
    (by decide) (by decide) (by decide)

/-- A face that comes nearer: a pixel wider on each side in every frame. -/
def nearingFaces : List Face := (List.range 12).map fun k : Nat =>
  ⟨⟨200 - (k : Int), 200 - (k : Int), 100 + 2 * (k : Int), 100 + 2 * (k : Int)⟩, k + 1⟩

/-- In the first frame the widths average to 103 and the heights to 101. -/
theorem smoothed_not_square :
    (nearingFaces ≠ [] ∧ nearingFaces.Pairwise (fun f f' => f.frameId < f'.frameId) ∧
      (∀ f ∈ nearingFaces, Square f) ∧
      ∃ out, smoothedFaces (F := ℚ) nearingFaces = .ok out ∧ ¬ ∀ f ∈ out, Square f) ∧
      ¬ SameTransformation nearingFaces := by
  have hruns : returns (fun out => decide (¬ ∀ f ∈ out, Square f))
      (smoothedFaces (F := ℚ) nearingFaces) = true := by decide +kernel
  obtain ⟨out, hout, hall⟩ := exists_of_returns hruns
  have hnot : ¬ ∀ f ∈ out, Square f := of_decide_eq_true hall
  refine ⟨⟨by decide, by decide, by decide, out, hout, hnot⟩, fun hsame => hnot ?_⟩
  -- the list has no gaps and is its own turned list
  have hwidths : nearingFaces.map (fun f => f.width) = nearingFaces.map fun f => f.height := by
    decide
  obtain ⟨out₁, hout₁, hall₁⟩ := hsame
  obtain ⟨out₂, hout₂, heq⟩ := hall₁ nearingFaces hwidths
  have hfill : smoothedFaces (F := ℚ) nearingFaces = smoothFaceSeries (F := ℚ) nearingFaces := rfl
  cases hout₁.symm.trans hout₂
  cases hout₁.symm.trans (hfill.symm.trans hout)
  exact (forall_square_iff out).mpr heq

end PlanetariumFD
