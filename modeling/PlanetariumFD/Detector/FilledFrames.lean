import PlanetariumFD.Detector.SmoothingBounds

/-!
# The list `addMissingFrames` leaves

One face for every frame from the first to the last. The given faces stay, and a
face in a gap lies on the line between its two neighbours, each coordinate rounded
to a nearest integer.
-/

namespace PlanetariumFD

open Outcome Rounding

/-- The coordinates that are interpolated. -/
def Face.coordinates : List (Face → Int) :=
  [fun f => f.x, fun f => f.y, fun f => f.width, fun f => f.height]

/-- The value in frame `t` on the line from `prev` to `next`. -/
def linear (c : Face → Int) (prev next : Face) (t : Int) : ℚ :=
  c prev + ((t - prev.frameId : ℤ) : ℚ) *
    (((c next : ℚ) - c prev) / ((next.frameId - prev.frameId : ℤ) : ℚ))

/-- `out` has the faces of `faces` and fills the gaps between them. -/
structure FillsGaps (faces out : List Face) : Prop where
  frameIds : out.map Face.frameId =
    (List.range (spanLength faces)).map fun k : Nat => firstFrame faces + k
  originals : faces.Sublist out
  inserted : ∀ g ∈ out, g ∉ faces → ∃ prev next, [prev, next] <:+: faces ∧
    prev.frameId < g.frameId ∧ g.frameId < next.frameId ∧
      ∀ c ∈ Face.coordinates, |linear c prev next g.frameId - c g| ≤ 1 / 2
  between : ∀ prev next, [prev, next] <:+: faces → ∀ g ∈ out, prev.frameId ≤ g.frameId →
    g.frameId ≤ next.frameId → ∀ c ∈ Face.coordinates,
      min (c prev) (c next) ≤ c g ∧ c g ≤ max (c prev) (c next)
  monotone : ∀ prev next, [prev, next] <:+: faces → ∀ g ∈ out, ∀ g' ∈ out,
    prev.frameId ≤ g.frameId → g.frameId ≤ g'.frameId → g'.frameId ≤ next.frameId →
      ∀ c ∈ Face.coordinates,
        (c prev ≤ c next → c g ≤ c g') ∧ (c next ≤ c prev → c g' ≤ c g)

/-! ## A gap -/

section
variable {c : Face → Int} {prev next : Face}

theorem linear_prev : linear c prev next prev.frameId = c prev := by
  simp [linear]

theorem linear_next (h : prev.frameId < next.frameId) :
    linear c prev next next.frameId = c next := by
  have hd : ((next.frameId - prev.frameId : ℤ) : ℚ) ≠ 0 := by exact_mod_cast by omega
  rw [linear, mul_div_cancel₀ _ hd]
  ring

/-- The line rises or falls with its ends. -/
theorem linear_mono (h : prev.frameId < next.frameId) (hc : c prev ≤ c next) {s t : Int}
    (hst : s ≤ t) : linear c prev next s ≤ linear c prev next t := by
  have hd : (0 : ℚ) < ((next.frameId - prev.frameId : ℤ) : ℚ) := by exact_mod_cast by omega
  have hstep : (0 : ℚ) ≤ ((c next : ℚ) - c prev) / ((next.frameId - prev.frameId : ℤ) : ℚ) :=
    div_nonneg (sub_nonneg.mpr (by exact_mod_cast hc)) hd.le
  have hcast : ((s - prev.frameId : ℤ) : ℚ) ≤ ((t - prev.frameId : ℤ) : ℚ) := by
    exact_mod_cast by omega
  exact add_le_add_right (mul_le_mul_of_nonneg_right hcast hstep) _

theorem linear_anti (h : prev.frameId < next.frameId) (hc : c next ≤ c prev) {s t : Int}
    (hst : s ≤ t) : linear c prev next t ≤ linear c prev next s := by
  have hd : (0 : ℚ) < ((next.frameId - prev.frameId : ℤ) : ℚ) := by exact_mod_cast by omega
  have hstep : ((c next : ℚ) - c prev) / ((next.frameId - prev.frameId : ℤ) : ℚ) ≤ 0 :=
    div_nonpos_of_nonpos_of_nonneg (sub_nonpos.mpr (by exact_mod_cast hc)) hd.le
  have hcast : ((s - prev.frameId : ℤ) : ℚ) ≤ ((t - prev.frameId : ℤ) : ℚ) := by
    exact_mod_cast by omega
  exact add_le_add_right (mul_le_mul_of_nonpos_right hcast hstep) _

theorem Interpolates.missingFace_eq (hc : Interpolates c) (t : Int) :
    c (missingFace (F := ℚ) prev next (next.frameId - prev.frameId) (t - prev.frameId)) =
      round (linear c prev next t) := by
  rw [hc, linear, round_intCast_add]

end

theorem interpolates_of_mem {c : Face → Int} (h : c ∈ Face.coordinates) : Interpolates c := by
  simp only [Face.coordinates, List.mem_cons, List.not_mem_nil, or_false] at h
  obtain rfl | rfl | rfl | rfl := h
  · exact interpolates_x
  · exact interpolates_y
  · exact interpolates_width
  · exact interpolates_height

/-! ## The filled list against the given one -/

section
variable {faces : List Face}

theorem spanFace_head (f : Face) (fs : List Face) :
    spanFace (F := ℚ) (f :: fs) f.frameId = f := by
  cases fs with
  | nil => rfl
  | cons next rest => rw [spanFace, if_pos rfl]

/-- A face of the filled list was given, or made for a frame of a gap. -/
theorem spanFace_cases (hne : faces ≠ []) (t : Int) (hfirst : firstFrame faces ≤ t) :
    spanFace (F := ℚ) faces t ∈ faces ∨ ∃ prev next, [prev, next] <:+: faces ∧
      prev.frameId < t ∧ t < next.frameId ∧ spanFace (F := ℚ) faces t =
        missingFace (F := ℚ) prev next (next.frameId - prev.frameId) (t - prev.frameId) := by
  induction faces with
  | nil => exact absurd rfl hne
  | cons prev fs ih =>
    cases fs with
    | nil => exact .inl List.mem_cons_self
    | cons next rest =>
      replace hfirst : prev.frameId ≤ t := hfirst
      rw [spanFace]
      by_cases ht : t = prev.frameId
      · rw [if_pos ht]
        exact .inl List.mem_cons_self
      · rw [if_neg ht]
        by_cases hn : t < next.frameId
        · rw [if_pos hn]
          exact .inr ⟨prev, next, ⟨[], rest, rfl⟩, by omega, hn, rfl⟩
        · rw [if_neg hn]
          obtain hmem | ⟨p, n, hadj, hrest⟩ := ih (List.cons_ne_nil _ _) (not_lt.mp hn)
          · exact .inl (List.mem_cons_of_mem _ hmem)
          · exact .inr ⟨p, n, List.infix_cons hadj, hrest⟩

theorem frameId_lt_of_adjacent (h : faces.Pairwise fun f f' => f.frameId < f'.frameId)
    {prev next : Face} (hadj : [prev, next] <:+: faces) : prev.frameId < next.frameId := by
  have hpair := h.sublist hadj.sublist
  exact List.rel_of_pairwise_cons hpair List.mem_cons_self

/-- From one given face to the next, ends included, each coordinate is the rounded line. -/
theorem spanFace_of_adjacent (h : faces.Pairwise fun f f' => f.frameId < f'.frameId)
    {c : Face → Int} (hc : Interpolates c) {prev next : Face} (hadj : [prev, next] <:+: faces)
    {t : Int} (hprev : prev.frameId ≤ t) (hnext : t ≤ next.frameId) :
    c (spanFace (F := ℚ) faces t) = round (linear c prev next t) := by
  induction faces with
  | nil => exact absurd hadj (by simp)
  | cons a fs ih =>
    cases fs with
    | nil =>
      have hlen := hadj.length_le
      simp at hlen
    | cons b rest =>
      have hlt := frameId_lt_of_adjacent h hadj
      rw [spanFace]
      obtain hpre | hadj := List.infix_cons_iff.mp hadj
      · -- the gap at the front
        rw [List.cons_prefix_cons, List.cons_prefix_cons] at hpre
        obtain ⟨rfl, rfl, -⟩ := hpre
        by_cases ht : t = prev.frameId
        · rw [if_pos ht, ht, linear_prev, round_intCast]
        · rw [if_neg ht]
          by_cases hn : t < next.frameId
          · rw [if_pos hn, hc.missingFace_eq]
          · have hend : t = next.frameId := by omega
            rw [if_neg hn, hend, spanFace_head, linear_next hlt, round_intCast]
      · have hle : b.frameId ≤ prev.frameId := by
          obtain rfl | hmem := List.mem_cons.mp (hadj.subset List.mem_cons_self)
          · exact le_refl _
          · exact (List.rel_of_pairwise_cons h.of_cons hmem).le
        have hab : a.frameId < b.frameId := List.rel_of_pairwise_cons h List.mem_cons_self
        rw [if_neg (by omega), if_neg (by omega)]
        exact ih h.of_cons hadj

theorem sublist_spanFace (hne : faces ≠ [])
    (h : faces.Pairwise fun f f' => f.frameId < f'.frameId) :
    faces.Sublist ((List.range (spanLength faces)).map
      fun k : Nat => spanFace (F := ℚ) faces (firstFrame faces + k)) := by
  cases faces with
  | nil => exact absurd rfl hne
  | cons f fs =>
    have hfill := fillFrom_eq (F := ℚ) fs f h
    rw [firstFrame_eq hne, List.head_cons, ← hfill]
    exact (sublist_fillFrom fs f).cons_cons f

/-- A face of the filled list is the one of its own frame. -/
theorem eq_spanFace_of_mem (hne : faces ≠ [])
    (h : faces.Pairwise fun f f' => f.frameId < f'.frameId) {g : Face}
    (hg : g ∈ (List.range (spanLength faces)).map
      fun k : Nat => spanFace (F := ℚ) faces (firstFrame faces + k)) :
    firstFrame faces ≤ g.frameId ∧ spanFace (F := ℚ) faces g.frameId = g := by
  obtain ⟨k, hk, rfl⟩ := List.mem_map.mp hg
  rw [firstFrame_eq hne, spanFace_frameId_of_lt hne h (List.mem_range.mp hk)]
  exact ⟨by omega, rfl⟩

theorem fillsGaps_spanFace (hne : faces ≠ [])
    (h : faces.Pairwise fun f f' => f.frameId < f'.frameId) :
    FillsGaps faces ((List.range (spanLength faces)).map
      fun k : Nat => spanFace (F := ℚ) faces (firstFrame faces + k)) where
  frameIds := by
    rw [firstFrame_eq hne]
    exact spanFaces_frameId hne h
  originals := sublist_spanFace hne h
  inserted g hg hnew := by
    obtain ⟨hfirst, heq⟩ := eq_spanFace_of_mem hne h hg
    obtain hmem | ⟨prev, next, hadj, hprev, hnext, hmissing⟩ := spanFace_cases hne _ hfirst
    · rw [heq] at hmem
      exact absurd hmem hnew
    · refine ⟨prev, next, hadj, hprev, hnext, fun c hc => ?_⟩
      rw [heq] at hmissing
      have hround : c g = round (linear c prev next g.frameId) :=
        (congrArg c hmissing).trans ((interpolates_of_mem hc).missingFace_eq _)
      rw [hround]
      exact abs_sub_round _
  between prev next hadj g hg hprev hnext c hc := by
    have hlt := frameId_lt_of_adjacent h hadj
    have hround := spanFace_of_adjacent h (interpolates_of_mem hc) hadj hprev hnext
    rw [(eq_spanFace_of_mem hne h hg).2] at hround
    rw [hround]
    obtain hup | hdown := le_total (c prev) (c next)
    · have hlo := round_mono (linear_mono hlt hup hprev)
      have hhi := round_mono (linear_mono hlt hup hnext)
      rw [linear_prev, round_intCast] at hlo
      rw [linear_next hlt, round_intCast] at hhi
      exact ⟨(min_le_left _ _).trans hlo, hhi.trans (le_max_right _ _)⟩
    · have hhi := round_mono (linear_anti hlt hdown hprev)
      have hlo := round_mono (linear_anti hlt hdown hnext)
      rw [linear_prev, round_intCast] at hhi
      rw [linear_next hlt, round_intCast] at hlo
      exact ⟨(min_le_right _ _).trans hlo, hhi.trans (le_max_left _ _)⟩
  monotone prev next hadj g hg g' hg' hprev hle hnext c hc := by
    have hlt := frameId_lt_of_adjacent h hadj
    have hround := spanFace_of_adjacent h (interpolates_of_mem hc) hadj hprev (hle.trans hnext)
    have hround' := spanFace_of_adjacent h (interpolates_of_mem hc) hadj (hprev.trans hle) hnext
    rw [(eq_spanFace_of_mem hne h hg).2] at hround
    rw [(eq_spanFace_of_mem hne h hg').2] at hround'
    rw [hround, hround']
    exact ⟨fun hup => round_mono (linear_mono hlt hup hle),
      fun hdown => round_mono (linear_anti hlt hdown hle)⟩

/-! ## The function -/

/-- A list without gaps is left alone. -/
theorem addMissingFrames_of_consecutive {out : List Face} {first : Int} {n : Nat} (hpos : 0 < n)
    (hids : out.map Face.frameId = (List.range n).map fun k : Nat => first + k) :
    addMissingFrames (F := ℚ) out = .ok (out, false) := by
  have hlen : out.length = n := by
    rw [← List.length_map Face.frameId, hids, List.length_map, List.length_range]
  have hget : ∀ k (hk : k < out.length), out[k].frameId = first + k := by
    intro k hk
    have hmap : (out.map Face.frameId)[k]? = some (first + (k : Int)) := by
      rw [hids, List.getElem?_map, List.getElem?_range (by omega)]
      rfl
    rw [List.getElem?_map, List.getElem?_eq_getElem hk] at hmap
    exact Option.some.inj hmap
  cases out with
  | nil =>
    rw [List.length_nil] at hlen
    omega
  | cons f fs =>
    have hfirst : f.frameId = first + (0 : Nat) := hget 0 (by simp)
    have hlast := hget fs.length (by simp)
    rw [addMissingFrames, if_pos]
    rw [List.getLast_eq_getElem]
    simp only [List.length_cons, Nat.add_sub_cancel, hlast, hfirst]
    push_cast
    ring

/-- The list returned is the given one unless it had gaps. -/
theorem addMissingFrames_modified (hne : faces ≠ [])
    (h : faces.Pairwise fun f f' => f.frameId < f'.frameId) {out : List Face} {modified : Bool}
    (hrun : addMissingFrames (F := ℚ) faces = .ok (out, modified))
    (hlen : out.length = spanLength faces) : modified = true ↔ out ≠ faces := by
  cases faces with
  | nil => exact absurd rfl hne
  | cons f fs =>
    have hspan := spanLength_eq hne h
    rw [addMissingFrames] at hrun
    split at hrun
    · cases hrun
      exact iff_of_false Bool.false_ne_true fun hsame => hsame rfl
    · next hgaps =>
      cases hrun
      refine iff_of_true rfl fun hsame => ?_
      rw [hsame] at hlen
      rw [List.head_cons] at hspan
      omega

/-- Filling gaps, from any list of faces: what it leaves, what it returns, and that it
finds nothing more to do. -/
theorem addMissingFrames_law (hne : faces ≠ [])
    (h : faces.Pairwise fun f f' => f.frameId < f'.frameId) :
    ∃ out modified, addMissingFrames (F := ℚ) faces = .ok (out, modified) ∧
      FillsGaps faces out ∧ (modified = true ↔ out ≠ faces) ∧
      addMissingFrames (F := ℚ) out = .ok (out, false) := by
  obtain ⟨modified, hrun⟩ := addMissingFrames_eq (F := ℚ) hne h
  rw [← firstFrame_eq hne] at hrun
  have hfills := fillsGaps_spanFace hne h
  have hpos := spanLength_pos hne h
  exact ⟨_, modified, hrun, hfills, addMissingFrames_modified hne h hrun (by simp),
    addMissingFrames_of_consecutive hpos hfills.frameIds⟩

end

/-- Faces in frames 1, 4, 5 and 7. -/
def gappyFaces : List Face :=
  [⟨⟨400, -1, -1, -1⟩, 1⟩, ⟨⟨100, -1, -1, -1⟩, 4⟩, ⟨⟨50, -1, -1, -1⟩, 5⟩, ⟨⟨250, -1, -1, -1⟩, 7⟩]

theorem addMissingFrames_gappyFaces :
    ∃ out modified, addMissingFrames (F := ℚ) gappyFaces = .ok (out, modified) ∧
      FillsGaps gappyFaces out ∧ (modified = true ↔ out ≠ gappyFaces) ∧
      addMissingFrames (F := ℚ) out = .ok (out, false) :=
  addMissingFrames_law (by decide) (by decide)

end PlanetariumFD
