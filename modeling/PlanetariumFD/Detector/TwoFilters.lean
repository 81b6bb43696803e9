import PlanetariumFD.Detector.Smoothing

/-!
# The smoother with two filters

`smoothFaceSeries2` smooths the centres with one filter and the sizes around them with
another. The centre passes hand over `LOCATION_FILT` with the length of `SIZE_FILT`, and
the height pass `SIZE_FILT` with the length of `LOCATION_FILT`.
-/

namespace PlanetariumFD

open Outcome FiniteConvolution

/-- Why the smoother stops before its end. -/
inductive SmoothStop
  | fault (f : Fault)
  | exception (what : String)
  deriving DecidableEq, Repr

/-- A direction of the image: a position, the size along it, and what is thrown there. -/
structure Axis where
  pos : Face → Int
  size : Face → Int
  set : Face → Int → Int → Face
  what : String
  pos_set : ∀ f p s, pos (set f p s) = p
  size_set : ∀ f p s, size (set f p s) = s

def Axis.x : Axis where
  pos f := f.x
  size f := f.width
  set f pos size := { f with x := pos, width := size }
  what := "Size smoothing created an out of bounds window on X"
  pos_set _ _ _ := rfl
  size_set _ _ _ := rfl

def Axis.y : Axis where
  pos f := f.y
  size f := f.height
  set f pos size := { f with y := pos, height := size }
  what := "Size smoothing created an out of bounds window on Y"
  pos_set _ _ _ := rfl
  size_set _ _ _ := rfl

section
variable {F : Type} [FloatOps F]

/-- `SIZE_FILT` in either setting of `USE_NEW_SMOOTH`; `LOCATION_FILT` is the same in
both. -/
def sizeFiltOf (useNewSmooth : Bool) : List F :=
  if useNewSmooth then [1, 1, 2, 2, 2, 2, 2, 2, 2, 1, 1].map FloatOps.ofInt else sizeFilt

/-- The first half of a pass: the values are filtered. -/
def filterPass (value : Face → F) (filt : List F) (leny : Nat) (faces : List Face) :
    Except SmoothStop (List F) :=
  (FdUtil.linearConvolutionSame (faces.map value) filt faces.length leny).mapError .fault

def centreOf (ax : Axis) (f : Face) : F :=
  FloatOps.ofInt (ax.pos f) + FloatOps.ofInt (ax.size f) / FloatOps.ofInt 2

/-- The pass over the centres: the rectangles are moved to the smoothed ones. -/
def centrePass (ax : Axis) (filt : List F) (leny : Nat) (faces : List Face) :
    Except SmoothStop (List Face) := do
  let out ← filterPass (centreOf ax) filt leny faces
  .ok (List.zipWith (fun f o =>
    ax.set f (myRound (o - FloatOps.ofInt (ax.size f) / FloatOps.ofInt 2)) (ax.size f)) faces out)

/-- The loop over the smoothed sizes: the position is adjusted by the new size, and a
window that leaves the frame is thrown. -/
def adjustSizes (ax : Axis) (frameSize : Int) : List Face → List F → Except SmoothStop (List Face)
  | f :: fs, o :: os =>
    let pos := ax.pos f - myRound ((o - FloatOps.ofInt (ax.size f)) / FloatOps.ofInt 2)
    let size := myRound o
    if pos < 0 ∨ pos + size ≥ frameSize then .error (.exception ax.what)
    else do
      let fs ← adjustSizes ax frameSize fs os
      .ok (ax.set f pos size :: fs)
  | fs, _ => .ok fs

def sizePass (ax : Axis) (frameSize : Int) (filt : List F) (leny : Nat) (faces : List Face) :
    Except SmoothStop (List Face) := do
  let out ← filterPass (fun f => FloatOps.ofInt (ax.size f)) filt leny faces
  adjustSizes ax frameSize faces out

/-- The four passes; each call names its filter and a length. -/
def smoothFaceSeries2 (useNewSmooth : Bool) (frameWidth frameHeight : Int) (faces : List Face) :
    Except SmoothStop (List Face) := do
  let SIZE_FILT : List F := sizeFiltOf useNewSmooth
  let faces ← centrePass (F := F) .x locationFilt SIZE_FILT.length faces
  let faces ← centrePass (F := F) .y locationFilt SIZE_FILT.length faces
  let faces ← sizePass .x frameWidth SIZE_FILT SIZE_FILT.length faces
  sizePass .y frameHeight SIZE_FILT (locationFilt (F := F)).length faces

end

/-! ## The filters as declared -/

/-- The mean of the series around each position, weighted by the part of the filter that
meets it. -/
def filtered (filt X : List ℚ) : List ℚ :=
  (List.range X.length).map fun k =>
    entry (fun n => X.getD n 0) (fun n => filt.getD n 0) X.length filt.length
        (k + filt.length / 2) /
      weight (fun n => filt.getD n 0) X.length filt.length (k + filt.length / 2)

/-- The rectangles moved to the filtered centres. -/
def centred (ax : Axis) (filt : List ℚ) (faces : List Face) : List Face :=
  List.zipWith (fun f o => ax.set f (myRound (o - (ax.size f : ℚ) / 2)) (ax.size f)) faces
    (filtered filt (faces.map fun f => (ax.pos f : ℚ) + (ax.size f : ℚ) / 2))

/-- The rectangles with the filtered sizes, around the same centres. -/
def resized (ax : Axis) (filt : List ℚ) (faces : List Face) : List Face :=
  List.zipWith (fun f o =>
      ax.set f (ax.pos f - myRound ((o - (ax.size f : ℚ)) / 2)) (myRound o)) faces
    (filtered filt (faces.map fun f => (ax.size f : ℚ)))

/-- The four passes read their filters inside the arrays. What is returned was smoothed
by 1, 2, 1 in its centres and by the whole of `SIZE_FILT` in its sizes, and lies in the
frame. -/
structure UsesFiltersAsDeclared (useNewSmooth : Bool) (frameWidth frameHeight : Int)
    (faces : List Face) : Prop where
  reads : smoothFaceSeries2 (F := ℚ) useNewSmooth frameWidth frameHeight faces ≠
    .error (.fault .indexOutOfRange)
  passes : ∀ out, smoothFaceSeries2 (F := ℚ) useNewSmooth frameWidth frameHeight faces = .ok out →
    out = resized .y (sizeFiltOf useNewSmooth) (resized .x (sizeFiltOf useNewSmooth)
      (centred .y [1, 2, 1] (centred .x [1, 2, 1] faces)))
  inFrame : ∀ out, smoothFaceSeries2 (F := ℚ) useNewSmooth frameWidth frameHeight faces = .ok out →
    ∀ f ∈ out, 0 ≤ f.x ∧ f.x + f.width < frameWidth ∧ 0 ≤ f.y ∧ f.y + f.height < frameHeight

/-! ## The centre passes -/

section
variable {F : Type} [FloatOps F] {faces : List Face}

theorem length_sizeFiltOf (useNewSmooth : Bool) :
    7 ≤ (sizeFiltOf useNewSmooth : List F).length := by
  cases useNewSmooth
  · exact le_refl 7
  · show 7 ≤ 11
    decide

/-- A filter of less than half its stated length is left behind at the first face. -/
theorem filterPass_outOfRange (value : Face → F) {filt : List F} {leny : Nat} (hne : faces ≠ [])
    (hlen : filt.length < leny) (hread : filt.length ≤ leny / 2) :
    filterPass value filt leny faces = .error (.fault .indexOutOfRange) := by
  have hpos := List.length_pos_iff.mpr hne
  let _ : Zero F := ⟨FloatOps.ofInt 0⟩
  rw [filterPass, FdUtil.linearConvolutionSame_outOfRange
    (by simpa using hne) (List.length_map _).symm hlen (by omega)]
  rfl

/-- Whatever the arithmetic, the first pass reads behind `LOCATION_FILT`. -/
theorem smoothFaceSeries2_outOfRange (useNewSmooth : Bool) (frameWidth frameHeight : Int)
    (hne : faces ≠ []) : smoothFaceSeries2 (F := F) useNewSmooth frameWidth frameHeight faces =
      .error (.fault .indexOutOfRange) := by
  have hlen := length_sizeFiltOf (F := F) useNewSmooth
  have hfilt : (locationFilt : List F).length = 3 := rfl
  rw [smoothFaceSeries2, centrePass, filterPass_outOfRange _ hne (by omega) (by omega)]
  rfl

end

/-- No list of faces is smoothed with the filters as declared. -/
theorem usesFiltersAsDeclared_never (useNewSmooth : Bool) (frameWidth frameHeight : Int)
    {faces : List Face} (hne : faces ≠ []) :
    ¬ UsesFiltersAsDeclared useNewSmooth frameWidth frameHeight faces :=
  fun h => h.reads (smoothFaceSeries2_outOfRange useNewSmooth frameWidth frameHeight hne)

theorem usesFiltersAsDeclared_never_oneFace : ([⟨⟨10, 10, 20, 20⟩, 1⟩] : List Face) ≠ [] ∧
    ¬ UsesFiltersAsDeclared true 640 480 [⟨⟨10, 10, 20, 20⟩, 1⟩] :=
  ⟨by decide, usesFiltersAsDeclared_never true 640 480 (by decide)⟩

/-- A single face is enough, in both settings. -/
theorem oneFace_readsBehindFilter :
    ¬ UsesFiltersAsDeclared false 640 480 [⟨⟨10, 10, 20, 20⟩, 1⟩] ∧
      ¬ UsesFiltersAsDeclared true 640 480 [⟨⟨10, 10, 20, 20⟩, 1⟩] := by
  have hne : ([⟨⟨10, 10, 20, 20⟩, 1⟩] : List Face) ≠ [] := by decide
  exact ⟨fun h => h.reads (smoothFaceSeries2_outOfRange false 640 480 hne),
    fun h => h.reads (smoothFaceSeries2_outOfRange true 640 480 hne)⟩

/-! ## The size passes -/

section
variable {ax : Axis} {frameSize : Int} {faces out : List Face}

/-- With a length inside the array a filter is read up to that length. -/
theorem filterPass_eq (value : Face → ℚ) {filt : List ℚ} {leny : Nat} (hne : faces ≠ [])
    (hpos : 0 < leny) (hleny : leny ≤ filt.length) :
    filterPass value filt leny faces = .ok (filtered (filt.take leny) (faces.map value)) := by
  have htake : (filt.take leny).length = leny := List.length_take_of_le hleny
  have hX : 0 < (faces.map value).length := by
    rw [List.length_map]
    exact List.length_pos_iff.mpr hne
  have hentries := FdUtil.linearConvolutionSame_entries hX (htake.symm ▸ hpos)
  rw [htake, FdUtil.linearConvolutionSame_take hpos] at hentries
  rw [filterPass, ← List.length_map value, hentries, filtered, htake]
  rfl

theorem length_filtered (filt X : List ℚ) : (filtered filt X).length = X.length := by
  rw [filtered, List.length_map, List.length_range]

theorem length_resized (ax : Axis) (filt : List ℚ) (faces : List Face) :
    (resized ax filt faces).length = faces.length := by
  rw [resized, List.length_zipWith, length_filtered, List.length_map, min_self]

/-- The loop returns the adjusted windows, and along its axis they lie in the frame. -/
theorem adjustSizes_ok {os : List ℚ} (h : adjustSizes ax frameSize faces os = .ok out)
    (hlen : os.length = faces.length) :
    out = List.zipWith (fun f o =>
        ax.set f (ax.pos f - myRound ((o - (ax.size f : ℚ)) / 2)) (myRound o)) faces os ∧
      ∀ g ∈ out, 0 ≤ ax.pos g ∧ ax.pos g + ax.size g < frameSize := by
  induction faces generalizing os out with
  | nil =>
    cases h
    exact ⟨rfl, fun g hg => by cases hg⟩
  | cons f fs ih =>
    cases os with
    | nil => cases hlen
    | cons o os =>
      rw [adjustSizes] at h
      split at h
      · cases h
      · next hin =>
        obtain ⟨rest, hrest, h⟩ := bind_eq_ok.mp h
        cases h
        obtain ⟨heq, hall⟩ := ih hrest (Nat.succ.inj hlen)
        refine ⟨by rw [List.zipWith_cons_cons, heq]; rfl, ?_⟩
        intro g hg
        obtain rfl | hg := List.mem_cons.mp hg
        · rw [ax.pos_set, ax.size_set]
          omega
        · exact hall g hg

/-- What the pass does not set it keeps. -/
theorem forall_adjustSizes {P : Face → Prop} (hset : ∀ f p s, P f → P (ax.set f p s))
    {os : List ℚ} (h : adjustSizes ax frameSize faces os = .ok out) (hall : ∀ f ∈ faces, P f) :
    ∀ g ∈ out, P g := by
  induction faces generalizing os out with
  | nil =>
    cases h
    exact hall
  | cons f fs ih =>
    cases os with
    | nil =>
      cases h
      exact hall
    | cons o os =>
      rw [adjustSizes] at h
      split at h
      · cases h
      · obtain ⟨rest, hrest, h⟩ := bind_eq_ok.mp h
        cases h
        intro g hg
        obtain rfl | hg := List.mem_cons.mp hg
        · exact hset _ _ _ (hall f (List.mem_cons_self ..))
        · exact ih hrest (fun f' hf' => hall f' (List.mem_cons_of_mem _ hf')) g hg

/-- A size pass that returns has filtered the sizes with the first `leny` weights. -/
theorem sizePass_ok {filt : List ℚ} {leny : Nat}
    (h : sizePass ax frameSize filt leny faces = .ok out) (hne : faces ≠ []) (hpos : 0 < leny)
    (hleny : leny ≤ filt.length) : out = resized ax (filt.take leny) faces ∧
      ∀ g ∈ out, 0 ≤ ax.pos g ∧ ax.pos g + ax.size g < frameSize := by
  rw [sizePass, filterPass_eq _ hne hpos hleny, ok_bind] at h
  refine adjustSizes_ok h ?_
  rw [length_filtered, List.length_map]

end

/-- The width pass applies the whole of `SIZE_FILT`, the height pass its first three
weights, and what they return lies in the frame. -/
theorem sizePasses_ok {useNewSmooth : Bool} {frameWidth frameHeight : Int}
    {faces faces' out : List Face} (hne : faces ≠ [])
    (hwidth : sizePass .x frameWidth (sizeFiltOf useNewSmooth : List ℚ)
      (sizeFiltOf useNewSmooth : List ℚ).length faces = .ok faces')
    (hheight : sizePass .y frameHeight (sizeFiltOf useNewSmooth : List ℚ)
      (locationFilt : List ℚ).length faces' = .ok out) :
    faces' = resized .x (sizeFiltOf useNewSmooth) faces ∧
      out = resized .y ((sizeFiltOf useNewSmooth).take 3) faces' ∧
      ∀ f ∈ out, 0 ≤ f.x ∧ f.x + f.width < frameWidth ∧ 0 ≤ f.y ∧ f.y + f.height < frameHeight := by
  have hlen := length_sizeFiltOf (F := ℚ) useNewSmooth
  obtain ⟨hresized, hx⟩ := sizePass_ok hwidth hne (by omega) (le_refl _)
  rw [List.take_length] at hresized
  have hne' : faces' ≠ [] := by
    rw [← List.length_pos_iff, hresized, length_resized]
    exact List.length_pos_iff.mpr hne
  have hthree : (locationFilt : List ℚ).length = 3 := rfl
  obtain ⟨hresized', hy⟩ := sizePass_ok hheight hne' (by decide) (by omega)
  have hkept : ∀ f ∈ out, 0 ≤ f.x ∧ f.x + f.width < frameWidth := by
    rw [sizePass, filterPass_eq _ hne' (by decide) (by omega), ok_bind] at hheight
    have hset : ∀ f p s, 0 ≤ f.x ∧ f.x + f.width < frameWidth →
        0 ≤ (Axis.y.set f p s).x ∧ (Axis.y.set f p s).x + (Axis.y.set f p s).width < frameWidth :=
      fun _ _ _ hf => hf
    exact forall_adjustSizes hset hheight hx
  refine ⟨hresized, hresized', fun f hf => ?_⟩
  obtain ⟨hx₀, hx₁⟩ := hkept f hf
  exact ⟨hx₀, hx₁, hy f hf⟩

/-- The heights of a face that grows are not smoothed by the whole filter. -/
example :
    let faces : List Face := (List.range 5).map fun i => ⟨⟨10, 10, 20, 10 + 10 * i * i⟩, i⟩
    resized .y ((sizeFiltOf true).take 3) faces ≠ resized .y (sizeFiltOf true) faces := by
  decide +kernel

end PlanetariumFD
