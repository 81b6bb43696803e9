import PlanetariumFD.Foundation.Outcome
import PlanetariumFD.Foundation.Rounding
import PlanetariumFD.Detector.Face
import PlanetariumFD.Detector.FdUtil

/-!
# Filling and smoothing a face list

`saveThreadVideo` fills the gaps of a thread's face list by linear interpolation
and smooths the four coordinates with a moving average, each on its own. The
loops are total, and with exact arithmetic they have closed forms.
-/

namespace PlanetariumFD

open Outcome Rounding

/-! ## `smoothFaceSeries` -/

section
variable {F : Type} [FloatOps F]

def sizeFilt : List F := List.replicate 7 (FloatOps.ofInt 1)

def locationFilt : List F := [FloatOps.ofInt 1, FloatOps.ofInt 2, FloatOps.ofInt 1]

/-- One of the four passes: a coordinate is filtered and rounded. -/
def smoothPass (get : Face → Int) (set : Face → Int → Face) (leny : Nat) (faces : List Face) :
    Except Fault (List Face) := do
  let out : List F ← FdUtil.linearConvolutionSame (faces.map fun f => FloatOps.ofInt (get f))
    sizeFilt faces.length leny
  .ok (List.zipWith (fun f o => set f (myRound o)) faces out)

def smoothX (faces : List Face) : Except Fault (List Face) :=
  smoothPass (F := F) (fun f => f.x) (fun f v => { f with x := v }) (sizeFilt (F := F)).length faces

def smoothY (faces : List Face) : Except Fault (List Face) :=
  smoothPass (F := F) (fun f => f.y) (fun f v => { f with y := v }) (sizeFilt (F := F)).length faces

def smoothWidth (faces : List Face) : Except Fault (List Face) :=
  smoothPass (F := F) (fun f => f.width) (fun f v => { f with width := v })
    (sizeFilt (F := F)).length faces

/-- The height pass takes `SIZE_FILT` with the length of `LOCATION_FILT`. -/
def smoothHeight (faces : List Face) : Except Fault (List Face) :=
  smoothPass (F := F) (fun f => f.height) (fun f v => { f with height := v })
    (locationFilt (F := F)).length faces

def smoothFaceSeries (faces : List Face) : Except Fault (List Face) := do
  let faces ← smoothX (F := F) faces
  let faces ← smoothY (F := F) faces
  let faces ← smoothWidth (F := F) faces
  smoothHeight (F := F) faces

/-! ## `addMissingFrames` -/

/-- The face inserted `i` frames after `prev`, `diff` frames before `next`. -/
def missingFace (prev next : Face) (diff i : Int) : Face :=
  let step (c : Face → Int) : F :=
    (FloatOps.ofInt (c next) - FloatOps.ofInt (c prev)) / FloatOps.ofInt diff
  { x := prev.x + myRound (FloatOps.ofInt i * step fun f => f.x)
    y := prev.y + myRound (FloatOps.ofInt i * step fun f => f.y)
    width := prev.width + myRound (FloatOps.ofInt i * step fun f => f.width)
    height := prev.height + myRound (FloatOps.ofInt i * step fun f => f.height)
    frameId := prev.frameId + i }

/-- The inner loop: the faces inserted between two neighbours. -/
def missingFaces (prev next : Face) : List Face :=
  let diff := next.frameId - prev.frameId
  if diff > 1 then
    (List.range (diff.toNat - 1)).map fun i : Nat => missingFace (F := F) prev next diff (i + 1)
  else []

/-- The outer loop from `itr` on. -/
def fillFrom : Face → List Face → List Face
  | _, [] => []
  | prev, f :: fs => missingFaces (F := F) prev f ++ f :: fillFrom f fs

/-- The new list, and whether it was modified. -/
def addMissingFrames (faces : List Face) : Except Fault (List Face × Bool) :=
  match faces with
  | [] => .error .backOfEmptyList
  | f :: fs =>
    if ((f :: fs).getLast (List.cons_ne_nil f fs)).frameId - f.frameId + 1 = (f :: fs).length then
      .ok (f :: fs, false)
    else .ok (f :: fillFrom (F := F) f fs, true)

/-- The list that `saveThreadVideo` crops for the smoothed video. -/
def smoothedFaces (faces : List Face) : Except Fault (List Face) := do
  let r ← addMissingFrames (F := F) faces
  smoothFaceSeries (F := F) r.1

end

/-! ## The convolution is total -/

section
variable {F : Type} [FloatOps F]

theorem convolveAt_total {X Y : List F} {i : Nat} :
    ∀ (turns n : Nat) (acc : F × F), n + turns ≤ X.length → i < n + Y.length → 0 < Y.length →
      ∃ r, FdUtil.convolveAt X Y i n turns acc = .ok r := by
  intro turns
  induction turns with
  | zero => exact fun n acc _ _ _ => ⟨acc, rfl⟩
  | succ turns ih =>
    intro n acc hX hY hpos
    have hx : X[n]? = some X[n] := List.getElem?_eq_getElem (by omega)
    have hy : Y[i - n]? = some Y[i - n] := List.getElem?_eq_getElem (by omega)
    simp only [FdUtil.convolveAt, hx, hy]
    exact ih (n + 1) _ (by omega) (by omega) hpos

theorem linearConvolutionSame_total {X Y : List F} {leny : Nat} (hleny : 0 < leny)
    (hY : leny ≤ Y.length) :
    ∃ Z, FdUtil.linearConvolutionSame X Y X.length leny = .ok Z ∧ Z.length = X.length := by
  have hwin : ∀ i, ∃ r : F × F, i < X.length + leny / 2 →
      FdUtil.convolveWindow X Y X.length leny i = .ok r := by
    intro i
    by_cases hi : i < X.length + leny / 2
    · obtain ⟨r, hr⟩ := convolveAt_total (X := X) (Y := Y) (i := i)
        (min X.length (i + 1) - (i + 1 - leny)) (i + 1 - leny) (0, 0)
        (by omega) (by omega) (by omega)
      exact ⟨r, fun _ => hr⟩
    · exact ⟨(0, 0), fun h => absurd h hi⟩
  choose s hs using hwin
  exact ⟨_, FdUtil.linearConvolutionSame_eq hleny hs, by simp⟩

@[simp] theorem sizeFilt_length : (sizeFilt : List F).length = 7 := rfl

@[simp] theorem locationFilt_length : (locationFilt : List F).length = 3 := rfl

/-- A pass keeps the number of faces and everything but its own coordinate. -/
theorem smoothPass_ok {get : Face → Int} {set : Face → Int → Face} {leny : Nat} {faces out : List Face}
    (h : smoothPass (F := F) get set leny faces = .ok out) (hleny : 0 < leny) (h7 : leny ≤ 7)
    (hid : ∀ f v, (set f v).frameId = f.frameId) :
    out.map Face.frameId = faces.map Face.frameId := by
  obtain ⟨Z, hZ, hlen⟩ := linearConvolutionSame_total (F := F)
    (X := faces.map fun f => FloatOps.ofInt (get f)) (Y := sizeFilt) hleny h7
  rw [List.length_map] at hZ hlen
  rw [smoothPass, hZ, ok_bind, Except.ok.injEq] at h
  rw [← h, List.map_zipWith]
  simp only [hid]
  clear h hZ
  induction faces generalizing Z with
  | nil => rfl
  | cons f fs ih =>
    cases Z with
    | nil => cases hlen
    | cons z Z =>
      rw [List.zipWith_cons_cons, List.map_cons, ih Z (by simpa using hlen)]

theorem smoothPass_total {get : Face → Int} {set : Face → Int → Face} {leny : Nat} (faces : List Face)
    (hleny : 0 < leny) (h7 : leny ≤ 7) : ∃ out, smoothPass (F := F) get set leny faces = .ok out := by
  obtain ⟨Z, hZ, -⟩ := linearConvolutionSame_total (F := F)
    (X := faces.map fun f => FloatOps.ofInt (get f)) (Y := sizeFilt) hleny h7
  rw [List.length_map] at hZ
  exact ⟨_, by rw [smoothPass, hZ, ok_bind]⟩

theorem smoothFaceSeries_total (faces : List Face) :
    ∃ out, smoothFaceSeries (F := F) faces = .ok out := by
  have h7 : (sizeFilt : List F).length ≤ 7 := le_refl 7
  have h3 : (locationFilt : List F).length ≤ 7 := by simp
  obtain ⟨f₁, h₁⟩ : ∃ f₁, smoothX (F := F) faces = .ok f₁ := smoothPass_total faces (by simp) h7
  obtain ⟨f₂, h₂⟩ : ∃ f₂, smoothY (F := F) f₁ = .ok f₂ := smoothPass_total f₁ (by simp) h7
  obtain ⟨f₃, h₃⟩ : ∃ f₃, smoothWidth (F := F) f₂ = .ok f₃ := smoothPass_total f₂ (by simp) h7
  obtain ⟨f₄, h₄⟩ : ∃ f₄, smoothHeight (F := F) f₃ = .ok f₄ := smoothPass_total f₃ (by simp) h3
  exact ⟨f₄, by simp only [smoothFaceSeries, h₁, h₂, h₃, h₄, ok_bind]⟩

theorem smoothFaceSeries_frameId {faces out : List Face}
    (h : smoothFaceSeries (F := F) faces = .ok out) :
    out.map Face.frameId = faces.map Face.frameId := by
  obtain ⟨f₁, h₁, h⟩ := bind_eq_ok.mp h
  obtain ⟨f₂, h₂, h⟩ := bind_eq_ok.mp h
  obtain ⟨f₃, h₃, h₄⟩ := bind_eq_ok.mp h
  have h7 : (sizeFilt : List F).length ≤ 7 := le_refl 7
  have hpos : 0 < (sizeFilt : List F).length := by simp
  have h3 : (locationFilt : List F).length ≤ 7 := by simp
  have hpos3 : 0 < (locationFilt : List F).length := by simp
  calc out.map Face.frameId = f₃.map Face.frameId := smoothPass_ok h₄ hpos3 h3 fun _ _ => rfl
    _ = f₂.map Face.frameId := smoothPass_ok h₃ hpos h7 fun _ _ => rfl
    _ = f₁.map Face.frameId := smoothPass_ok h₂ hpos h7 fun _ _ => rfl
    _ = faces.map Face.frameId := smoothPass_ok h₁ hpos h7 fun _ _ => rfl

/-! ## Consecutive numbers -/

omit [FloatOps F] in
theorem mem_consecutive_iff {first t : Int} {n : Nat} :
    t ∈ (List.range n).map (fun k : Nat => first + k) ↔ first ≤ t ∧ t < first + n := by
  rw [List.mem_map]
  constructor
  · rintro ⟨k, hk, rfl⟩
    rw [List.mem_range] at hk
    omega
  · rintro ⟨hle, hlt⟩
    exact ⟨(t - first).toNat, List.mem_range.mpr (by omega), by omega⟩

omit [FloatOps F] in
theorem pairwise_consecutive (first : Int) (n : Nat) :
    ((List.range n).map fun k : Nat => first + k).Pairwise (· < ·) := by
  rw [List.pairwise_map]
  exact List.pairwise_lt_range.imp fun hlt => by omega

/-! ## The filled list, frame by frame -/

/-- The face of frame `t` in the filled list: the given one or an inserted one. -/
def spanFace : List Face → Int → Face
  | prev :: next :: rest, t =>
    if t = prev.frameId then prev
    else if t < next.frameId then
      missingFace (F := F) prev next (next.frameId - prev.frameId) (t - prev.frameId)
    else spanFace (next :: rest) t
  | [f], _ => f
  | [], _ => nullFace

theorem spanFace_frameId {faces : List Face} (h : faces.Pairwise fun f f' => f.frameId < f'.frameId)
    {f l : Face} (hf : faces.head? = some f) (hl : faces.getLast? = some l) {t : Int}
    (hft : f.frameId ≤ t) (htl : t ≤ l.frameId) : (spanFace (F := F) faces t).frameId = t := by
  induction faces generalizing f with
  | nil => cases hf
  | cons prev rest ih =>
    obtain rfl : prev = f := by simpa using hf
    cases rest with
    | nil =>
      obtain rfl : prev = l := by simpa using hl
      exact le_antisymm hft htl
    | cons next rest =>
      rw [spanFace]
      split
      · next ht => exact ht.symm
      · split
        · simp only [missingFace]
          omega
        · next hge =>
          rw [List.getLast?_cons_cons] at hl
          exact ih h.of_cons rfl hl (not_lt.mp hge)

/-- The number of frames from the first face to the last. -/
def spanLength (faces : List Face) : Nat :=
  match faces.head?, faces.getLast? with
  | some f, some l => (l.frameId - f.frameId + 1).toNat
  | _, _ => 0

omit [FloatOps F] in
theorem frameId_le_getLast {f : Face} {fs : List Face}
    (h : (f :: fs).Pairwise fun f f' => f.frameId < f'.frameId) :
    f.frameId ≤ ((f :: fs).getLast (List.cons_ne_nil f fs)).frameId := by
  rcases List.mem_cons.mp (List.getLast_mem (List.cons_ne_nil f fs)) with he | hm
  · rw [he]
  · exact (List.rel_of_pairwise_cons h hm).le

omit [FloatOps F] in
theorem spanLength_eq {faces : List Face} (hne : faces ≠ [])
    (h : faces.Pairwise fun f f' => f.frameId < f'.frameId) :
    (spanLength faces : Int) = (faces.getLast hne).frameId - (faces.head hne).frameId + 1 := by
  cases faces with
  | nil => exact absurd rfl hne
  | cons f fs =>
    have hle := frameId_le_getLast h
    simp only [spanLength, List.head?_cons, List.getLast?_eq_some_getLast hne, List.head_cons]
    omega

omit [FloatOps F] in
theorem spanLength_pos {faces : List Face} (hne : faces ≠ [])
    (h : faces.Pairwise fun f f' => f.frameId < f'.frameId) : 0 < spanLength faces := by
  have hspan := spanLength_eq hne h
  cases faces with
  | nil => exact absurd rfl hne
  | cons f fs =>
    have hle := frameId_le_getLast h
    rw [List.head_cons] at hspan
    omega

theorem spanFace_frameId_of_lt {faces : List Face} (hne : faces ≠ [])
    (h : faces.Pairwise fun f f' => f.frameId < f'.frameId) {k : Nat} (hk : k < spanLength faces) :
    (spanFace (F := F) faces ((faces.head hne).frameId + k)).frameId =
      (faces.head hne).frameId + k := by
  have hspan := spanLength_eq hne h
  exact spanFace_frameId h (List.head?_eq_some_head hne) (List.getLast?_eq_some_getLast hne)
    (by omega) (by omega)

theorem spanFaces_frameId {faces : List Face} (hne : faces ≠ [])
    (h : faces.Pairwise fun f f' => f.frameId < f'.frameId) :
    ((List.range (spanLength faces)).map fun k : Nat =>
      spanFace (F := F) faces ((faces.head hne).frameId + k)).map Face.frameId =
    (List.range (spanLength faces)).map fun k : Nat => (faces.head hne).frameId + k := by
  rw [List.map_map]
  exact List.map_congr_left fun k hk => spanFace_frameId_of_lt hne h (List.mem_range.mp hk)

/-- The loop of `addMissingFrames` leaves one face for every frame of the span. -/
theorem fillFrom_eq (fs : List Face) : ∀ prev : Face,
    (prev :: fs).Pairwise (fun f f' => f.frameId < f'.frameId) →
    prev :: fillFrom (F := F) prev fs = (List.range (spanLength (prev :: fs))).map fun k : Nat =>
      spanFace (F := F) (prev :: fs) (prev.frameId + k) := by
  induction fs with
  | nil =>
    intro prev _
    have hone : spanLength [prev] = 1 := by simp [spanLength]
    rw [hone]
    rfl
  | cons f fs ih =>
    intro prev h
    have hlt : prev.frameId < f.frameId := List.rel_of_pairwise_cons h List.mem_cons_self
    have hlast := frameId_le_getLast h.of_cons
    obtain ⟨d, hd⟩ : ∃ d : Nat, f.frameId = prev.frameId + d + 1 :=
      ⟨(f.frameId - prev.frameId - 1).toNat, by omega⟩
    have hspan : spanLength (prev :: f :: fs) = 1 + d + spanLength (f :: fs) := by
      have hall := spanLength_eq (List.cons_ne_nil prev (f :: fs)) h
      have hrest := spanLength_eq (List.cons_ne_nil f fs) h.of_cons
      rw [List.head_cons, List.getLast_cons (List.cons_ne_nil f fs)] at hall
      rw [List.head_cons] at hrest
      omega
    have hgap : missingFaces (F := F) prev f = (List.range d).map fun i : Nat =>
        missingFace (F := F) prev f (f.frameId - prev.frameId) (i + 1) := by
      have htoNat : (f.frameId - prev.frameId).toNat - 1 = d := by omega
      simp only [missingFaces, htoNat]
      split
      · rfl
      · have h₀ : d = 0 := by omega
        rw [h₀]
        rfl
    rw [fillFrom, ih f h.of_cons, hspan, hgap, List.range_add, List.range_add, List.map_append,
      List.map_append, List.map_map, List.map_map]
    -- the given face, the gap after it, and the rest of the span
    have hfirst : (List.range 1).map (fun k : Nat =>
        spanFace (F := F) (prev :: f :: fs) (prev.frameId + k)) = [prev] := by
      simp [spanFace]
    rw [hfirst, List.append_assoc, List.singleton_append]
    congr 2
    · refine List.map_congr_left fun i hi => ?_
      rw [List.mem_range] at hi
      simp only [Function.comp_apply, spanFace]
      rw [if_neg (by push_cast; omega), if_pos (by push_cast; omega)]
      congr 1
      push_cast
      omega
    · refine List.map_congr_left fun k _ => ?_
      simp only [Function.comp_apply, spanFace]
      rw [if_neg (by push_cast; omega), if_neg (by push_cast; omega)]
      congr 1
      push_cast
      omega

theorem sublist_fillFrom (fs : List Face) : ∀ prev : Face, fs.Sublist (fillFrom (F := F) prev fs) := by
  induction fs with
  | nil => exact fun _ => List.nil_sublist _
  | cons f fs ih =>
    intro prev
    rw [fillFrom]
    exact ((ih f).cons_cons f).trans (List.sublist_append_right _ _)

/-- `addMissingFrames` returns the filled list on either path. -/
theorem addMissingFrames_eq {faces : List Face} (hne : faces ≠ [])
    (h : faces.Pairwise fun f f' => f.frameId < f'.frameId) :
    ∃ modified, addMissingFrames (F := F) faces = .ok ((List.range (spanLength faces)).map
      fun k : Nat => spanFace (F := F) faces ((faces.head hne).frameId + k), modified) := by
  cases faces with
  | nil => exact absurd rfl hne
  | cons f fs =>
    have hfill := fillFrom_eq (F := F) fs f h
    rw [List.head_cons, ← hfill]
    simp only [addMissingFrames]
    split
    · next hfull =>
      -- the early return: as long as the filled list, of which it is a part
      have hspan : spanLength (f :: fs) = (f :: fs).length := by
        exact_mod_cast (spanLength_eq hne h).trans hfull
      have hlen : (f :: fillFrom (F := F) f fs).length = (f :: fs).length := by
        rw [hfill, List.length_map, List.length_range, hspan]
      have hsame : fs = fillFrom (F := F) f fs :=
        (sublist_fillFrom fs f).eq_of_length (by simpa using hlen.symm)
      exact ⟨false, by rw [← hsame]⟩
    · exact ⟨true, rfl⟩

/-- The smoothed list has a face for every frame from the first to the last. -/
theorem smoothedFaces_frameId {faces : List Face} (hne : faces ≠ [])
    (h : faces.Pairwise fun f f' => f.frameId < f'.frameId) :
    ∃ out, smoothedFaces (F := F) faces = .ok out ∧ out.map Face.frameId =
      (List.range (spanLength faces)).map fun k : Nat => (faces.head hne).frameId + k := by
  obtain ⟨modified, hfill⟩ := addMissingFrames_eq (F := F) hne h
  obtain ⟨out, hout⟩ := smoothFaceSeries_total (F := F) ((List.range (spanLength faces)).map
    fun k : Nat => spanFace (F := F) faces ((faces.head hne).frameId + k))
  refine ⟨out, by rw [smoothedFaces, hfill, ok_bind, hout], ?_⟩
  rw [smoothFaceSeries_frameId hout]
  exact spanFaces_frameId hne h

/-- Its numbers increase, from the first face's to the last one's. -/
theorem smoothedFaces_ok {faces : List Face} (hne : faces ≠ [])
    (h : faces.Pairwise fun f f' => f.frameId < f'.frameId) :
    ∃ out, smoothedFaces (F := F) faces = .ok out ∧
      (out.Pairwise fun f f' => f.frameId < f'.frameId) ∧
      (∀ g ∈ out, (faces.head hne).frameId ≤ g.frameId ∧
        g.frameId ≤ (faces.getLast hne).frameId) ∧
      out.map Face.frameId =
        (List.range (spanLength faces)).map fun k : Nat => (faces.head hne).frameId + k := by
  obtain ⟨out, hout, hids⟩ := smoothedFaces_frameId (F := F) hne h
  have hspan := spanLength_eq hne h
  refine ⟨out, hout, ?_, fun g hg => ?_, hids⟩
  · rw [← List.pairwise_map, hids]
    exact pairwise_consecutive _ _
  · have hmem : g.frameId ∈ out.map Face.frameId := List.mem_map_of_mem hg
    rw [hids, mem_consecutive_iff] at hmem
    omega

end

end PlanetariumFD
