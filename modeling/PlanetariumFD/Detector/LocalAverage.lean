import PlanetariumFD.Detector.FilledFrames

/-!
# Smoothing as a local average

Every smoothed coordinate is a rounded mean of the same coordinate of faces at most
three positions away, so it stays between them, keeps what is constant, and moves
with the list.
-/

namespace PlanetariumFD

open Outcome Rounding

/-! ## One pass -/

/-- `u` stands in `xs` at most three positions from `k`. -/
def IsNear {α : Type} (xs : List α) (k : Nat) (u : α) : Prop :=
  ∃ i, i ≤ k + 3 ∧ k ≤ i + 3 ∧ xs[i]? = some u

theorem isNear_map {α β : Type} {c : α → β} {xs : List α} {k : Nat} {u : β}
    (h : IsNear (xs.map c) k u) : ∃ g, IsNear xs k g ∧ c g = u := by
  obtain ⟨i, hik, hki, hu⟩ := h
  rw [List.getElem?_map, Option.map_eq_some_iff] at hu
  obtain ⟨g, hg, heq⟩ := hu
  exact ⟨g, ⟨i, hik, hki, hg⟩, heq⟩

section
variable {r : Nat} {xs : List Int}

/-- A smoothed value lies between two values near it. -/
theorem smoothedSeries_between (hr : r ≤ 3) {k : Nat} {v : Int}
    (h : (smoothedSeries r xs)[k]? = some v) :
    (∃ u, IsNear xs k u ∧ u ≤ v) ∧ ∃ u, IsNear xs k u ∧ v ≤ u := by
  obtain ⟨hk, rfl⟩ := smoothedSeries_getElem? h
  obtain ⟨⟨i, hi, hik, hki, hlo⟩, ⟨j, hj, hjk, hkj, hhi⟩⟩ :=
    exists_le_windowMean (fun j => ((xs.getD j 0 : ℤ) : ℚ)) (r := r) hk
  refine ⟨⟨xs.getD i 0, ⟨i, by omega, by omega, ?_⟩, round_of_le hlo⟩,
    ⟨xs.getD j 0, ⟨j, by omega, by omega, ?_⟩, round_of_ge hhi⟩⟩
  · rw [List.getElem?_eq_getElem hi, List.getD_eq_getElem _ _ hi]
  · rw [List.getElem?_eq_getElem hj, List.getD_eq_getElem _ _ hj]

theorem seriesMean_map_add (d : Int) {k : Nat} (hk : k < xs.length) :
    seriesMean r (xs.map (· + d)) k = seriesMean r xs k + d := by
  rw [seriesMean, seriesMean, List.length_map, ← windowMean_add_const hk]
  refine windowMean_congr fun j hj => ?_
  rw [List.getD_eq_getElem _ _ (by simpa using hj), List.getD_eq_getElem _ _ hj, List.getElem_map]
  push_cast
  rfl

theorem smoothedSeries_map_add (r : Nat) (xs : List Int) (d : Int) :
    smoothedSeries r (xs.map (· + d)) = (smoothedSeries r xs).map (· + d) := by
  rw [smoothedSeries, smoothedSeries, List.length_map, List.map_map]
  refine List.map_congr_left fun k hk => ?_
  rw [List.mem_range] at hk
  rw [seriesMean_map_add d hk, Function.comp_apply, round_add_intCast]

end

/-! ## The four passes -/

def Face.shiftX (d : Int) (f : Face) : Face := { f with x := f.x + d }

def Face.shiftY (d : Int) (f : Face) : Face := { f with y := f.y + d }

/-- Every coordinate of `out` lies between the same coordinates of near faces. -/
structure IsLocalAverage (faces out : List Face) : Prop where
  frameIds : out.map Face.frameId = faces.map Face.frameId
  between : ∀ c ∈ Face.coordinates, ∀ k f, out[k]? = some f →
    (∃ g, IsNear faces k g ∧ c g ≤ c f) ∧ ∃ g, IsNear faces k g ∧ c f ≤ c g

theorem faces_ext {l l' : List Face} (hids : l.map Face.frameId = l'.map Face.frameId)
    (h : ∀ c ∈ Face.coordinates, l.map c = l'.map c) : l = l' := by
  apply List.ext_getElem?
  intro k
  have hget : ∀ c : Face → Int, l.map c = l'.map c → (l[k]?).map c = (l'[k]?).map c := by
    intro c hc
    rw [← List.getElem?_map, ← List.getElem?_map, hc]
  have hid := hget _ hids
  have hx := hget _ (h (fun f => f.x) (by simp [Face.coordinates]))
  have hy := hget _ (h (fun f => f.y) (by simp [Face.coordinates]))
  have hwidth := hget _ (h (fun f => f.width) (by simp [Face.coordinates]))
  have hheight := hget _ (h (fun f => f.height) (by simp [Face.coordinates]))
  cases hl : l[k]? with
  | none =>
    rw [hl] at hid
    exact (Option.map_eq_none_iff.mp hid.symm).symm
  | some f =>
    cases hl' : l'[k]? with
    | none =>
      rw [hl, hl'] at hid
      cases hid
    | some f' =>
      rw [hl, hl'] at hid hx hy hwidth hheight
      obtain ⟨⟨x, y, width, height⟩, frameId⟩ := f
      obtain ⟨⟨x', y', width', height'⟩, frameId'⟩ := f'
      simp only [Option.map_some, Option.some.injEq] at hid hx hy hwidth hheight
      rw [hid, hx, hy, hwidth, hheight]

theorem smoothFaceSeries_ok {faces out : List Face}
    (h : smoothFaceSeries (F := ℚ) faces = .ok out) :
    out.map (fun f => f.x) = smoothedSeries 3 (faces.map fun f => f.x) ∧
      out.map (fun f => f.y) = smoothedSeries 3 (faces.map fun f => f.y) ∧
      out.map (fun f => f.width) = smoothedSeries 3 (faces.map fun f => f.width) ∧
      out.map (fun f => f.height) = smoothedSeries 1 (faces.map fun f => f.height) := by
  obtain ⟨out', hrun, hall⟩ := smoothFaceSeries_series faces
  cases h.symm.trans hrun
  exact hall

/-- Each coordinate is smoothed on its own, over at most three neighbours on each side. -/
theorem smoothFaceSeries_coordinate {c : Face → Int} (hc : c ∈ Face.coordinates) :
    ∃ r ≤ 3, ∀ {faces out}, smoothFaceSeries (F := ℚ) faces = .ok out →
      out.map c = smoothedSeries r (faces.map c) := by
  simp only [Face.coordinates, List.mem_cons, List.not_mem_nil, or_false] at hc
  obtain rfl | rfl | rfl | rfl := hc
  · exact ⟨3, le_refl 3, fun h => (smoothFaceSeries_ok h).1⟩
  · exact ⟨3, le_refl 3, fun h => (smoothFaceSeries_ok h).2.1⟩
  · exact ⟨3, le_refl 3, fun h => (smoothFaceSeries_ok h).2.2.1⟩
  · exact ⟨1, by decide, fun h => (smoothFaceSeries_ok h).2.2.2⟩

section
variable {faces out : List Face}

theorem isLocalAverage_of_ok (h : smoothFaceSeries (F := ℚ) faces = .ok out) :
    IsLocalAverage faces out where
  frameIds := smoothFaceSeries_frameId h
  between c hc k f hf := by
    obtain ⟨r, hr, hcoord⟩ := smoothFaceSeries_coordinate hc
    have hv : (smoothedSeries r (faces.map c))[k]? = some (c f) := by
      rw [← hcoord h, List.getElem?_map, hf]
      rfl
    obtain ⟨⟨u, hu, hle⟩, ⟨v, hv, hge⟩⟩ := smoothedSeries_between hr hv
    obtain ⟨g, hg, rfl⟩ := isNear_map hu
    obtain ⟨g', hg', rfl⟩ := isNear_map hv
    exact ⟨⟨g, hg, hle⟩, ⟨g', hg', hge⟩⟩

theorem IsNear.mem {k : Nat} {g : Face} (h : IsNear faces k g) : g ∈ faces := by
  obtain ⟨i, -, -, hget⟩ := h
  exact List.mem_of_getElem? hget

/-- Sizes that are positive stay so. -/
theorem IsLocalAverage.size_pos (h : IsLocalAverage faces out)
    (hpos : ∀ f ∈ faces, 0 < f.width ∧ 0 < f.height) : ∀ f ∈ out, 0 < f.width ∧ 0 < f.height := by
  intro f hf
  obtain ⟨k, hk⟩ := List.mem_iff_getElem?.mp hf
  obtain ⟨⟨g, hg, hwidth⟩, -⟩ := h.between (fun f => f.width) (by simp [Face.coordinates]) k f hk
  obtain ⟨⟨g', hg', hheight⟩, -⟩ :=
    h.between (fun f => f.height) (by simp [Face.coordinates]) k f hk
  exact ⟨(hpos g hg.mem).1.trans_le hwidth, (hpos g' hg'.mem).2.trans_le hheight⟩

/-- Faces with one rectangle stay as they are. -/
theorem smoothFaceSeries_of_const (h : smoothFaceSeries (F := ℚ) faces = .ok out) {r : CvRect}
    (hconst : ∀ f ∈ faces, f.toCvRect = r) : out = faces := by
  refine faces_ext (smoothFaceSeries_frameId h) fun c hc => ?_
  obtain ⟨n, -, hcoord⟩ := smoothFaceSeries_coordinate hc
  have hsame : ∀ v ∈ faces.map c, v = c { r with frameId := 0 } := by
    intro v hv
    obtain ⟨f, hf, rfl⟩ := List.mem_map.mp hv
    simp only [Face.coordinates, List.mem_cons, List.not_mem_nil, or_false] at hc
    obtain rfl | rfl | rfl | rfl := hc
    all_goals
      have hr := hconst f hf
      show _ = _
      rw [← hr]
  rw [hcoord h, smoothedSeries_of_forall_eq hsame]

/-- A move of the whole list moves what comes out. -/
theorem smoothFaceSeries_map {move : Face → Face} (hid : ∀ f, (move f).frameId = f.frameId)
    (hmove : ∀ c ∈ Face.coordinates, ∃ d : Int, ∀ f, c (move f) = c f + d)
    (h : smoothFaceSeries (F := ℚ) faces = .ok out) :
    smoothFaceSeries (F := ℚ) (faces.map move) = .ok (out.map move) := by
  obtain ⟨moved, hmoved⟩ := smoothFaceSeries_total (F := ℚ) (faces.map move)
  have hids : ∀ l : List Face, (l.map move).map Face.frameId = l.map Face.frameId := by
    intro l
    rw [List.map_map]
    exact List.map_congr_left fun f _ => hid f
  rw [hmoved]
  congr 1
  refine faces_ext ?_ fun c hc => ?_
  · rw [smoothFaceSeries_frameId hmoved, hids, hids, smoothFaceSeries_frameId h]
  · obtain ⟨d, hd⟩ := hmove c hc
    have hadd : ∀ l : List Face, (l.map move).map c = (l.map c).map (· + d) := by
      intro l
      rw [List.map_map, List.map_map]
      exact List.map_congr_left fun f _ => hd f
    obtain ⟨r, -, hcoord⟩ := smoothFaceSeries_coordinate hc
    rw [hcoord hmoved, hadd, hadd, smoothedSeries_map_add, hcoord h]

theorem shiftX_coordinate (d : Int) {c : Face → Int} (hc : c ∈ Face.coordinates) :
    ∃ e : Int, ∀ f, c (Face.shiftX d f) = c f + e := by
  simp only [Face.coordinates, List.mem_cons, List.not_mem_nil, or_false] at hc
  obtain rfl | rfl | rfl | rfl := hc
  · exact ⟨d, fun _ => rfl⟩
  all_goals exact ⟨0, fun _ => (add_zero _).symm⟩

theorem shiftY_coordinate (d : Int) {c : Face → Int} (hc : c ∈ Face.coordinates) :
    ∃ e : Int, ∀ f, c (Face.shiftY d f) = c f + e := by
  simp only [Face.coordinates, List.mem_cons, List.not_mem_nil, or_false] at hc
  obtain rfl | rfl | rfl | rfl := hc
  · exact ⟨0, fun _ => (add_zero _).symm⟩
  · exact ⟨d, fun _ => rfl⟩
  all_goals exact ⟨0, fun _ => (add_zero _).symm⟩

end

/-- What `smoothFaceSeries` makes of any list of faces. -/
theorem smoothFaceSeries_law (faces : List Face) :
    ∃ out, smoothFaceSeries (F := ℚ) faces = .ok out ∧ IsLocalAverage faces out ∧
      ((∀ f ∈ faces, 0 < f.width ∧ 0 < f.height) → ∀ f ∈ out, 0 < f.width ∧ 0 < f.height) ∧
      (∀ r : CvRect, (∀ f ∈ faces, f.toCvRect = r) → out = faces) ∧
      (∀ d, smoothFaceSeries (F := ℚ) (faces.map (Face.shiftX d)) =
        .ok (out.map (Face.shiftX d))) ∧
      ∀ d, smoothFaceSeries (F := ℚ) (faces.map (Face.shiftY d)) =
        .ok (out.map (Face.shiftY d)) := by
  obtain ⟨out, hout⟩ := smoothFaceSeries_total (F := ℚ) faces
  have havg := isLocalAverage_of_ok hout
  refine ⟨out, hout, havg, havg.size_pos, fun r => smoothFaceSeries_of_const hout, fun d => ?_,
    fun d => ?_⟩
  · exact smoothFaceSeries_map (fun _ => rfl) (fun c hc => shiftX_coordinate d hc) hout
  · exact smoothFaceSeries_map (fun _ => rfl) (fun c hc => shiftY_coordinate d hc) hout

/-- A step from 0 to 70 becomes a ramp. -/
example : returns (fun out => decide (out.map (fun f => f.x) = [0, 14, 23, 30, 40, 47, 56, 70]))
    (smoothFaceSeries (F := ℚ) ((List.range 8).map fun k =>
      ⟨⟨if k < 4 then 0 else 70, 0, 10, 10⟩, k⟩)) = true := by decide +kernel

end PlanetariumFD
