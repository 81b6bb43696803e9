import PlanetariumFD.Detector.ThreadChoice
import PlanetariumFD.Foundation.Replacement

/-!
# The candidate a thread keeps

Among the faces that choose a thread, part 1 keeps one in `matches`. The test that
replaces it is the rule of `Replacement`, with the distance to the thread's last face
and the area as its measures.
-/

namespace PlanetariumFD

open Outcome Replacement

/-- The area that `getSizeDiff` divides. -/
def area (face : Face) : Int := face.height * face.width

section
variable {F : Type} [FloatOps F]

/-- The faces that choose the thread at index `i`, as part 1 runs on from `ms`. -/
def candidates (cfg : Config F) (gThreads : NodeList FDFaceThread) (i : Nat) (faces : List Face)
    (ms : List (Matching F)) : List Face :=
  ((faces.zip (selections cfg gThreads faces ms)).filter fun p => p.2 = some i).map Prod.fst

/-- The element of `matches` after it was offered a face of its thread. -/
def offered (cfg : Config F) (last : Face) (m : Matching F) (face : Face) : Matching F :=
  if isBetterCandidate cfg m face (faceDist face last) last then
    { m with found := true, face := face, faceDistance := faceDist face last }
  else m

variable {cfg : Config F} {gThreads : NodeList FDFaceThread} {face last : Face}
  {ms : List (Matching F)} {i : Nat} {th : FDFaceThread} {m : Matching F}

omit [FloatOps F] in
/-- Element `i` of `matches` points at thread `i`. -/
theorem get?_of_index (hms : ms.map Matching.th = gThreads.addrs) (hth : gThreads.vals[i]? = some th)
    (hm : ms[i]? = some m) : gThreads.get? m.th = some th := by
  obtain ⟨p, hp, rfl⟩ : ∃ p, gThreads.nodes[i]? = some p ∧ p.2 = th := by
    simpa [NodeList.vals] using hth
  have haddr : m.th = p.1 := by
    have hat := congrArg (fun l => l[i]?) hms
    simpa [NodeList.addrs, hp, hm] using hat
  rw [haddr, NodeList.get?_eq_some_iff]
  exact List.mem_of_getElem? hp

/-- A face changes the element of the thread it chooses, by an offer, and no other. -/
theorem matchFace_offered {r : List (Matching F) × Option Nat}
    (h : matchFace cfg gThreads face ms = .ok r) (hms : ms.map Matching.th = gThreads.addrs)
    (hth : gThreads.vals[i]? = some th) (hlast : th.pFaces.getLast? = some last)
    (hm : ms[i]? = some m) :
    r.1[i]? = some (if r.2 = some i then offered cfg last m face else m) := by
  obtain ⟨⟨minDist, thInd⟩, hbest, h⟩ := bind_eq_ok.mp h
  cases thInd with
  | none =>
    cases h
    exact hm
  | some k =>
    obtain ⟨ms', hoffer, h⟩ := bind_eq_ok.mp h
    cases h
    -- the distance is that of the thread which was chosen
    obtain ⟨j, t, hkj, ht, hdist⟩ := (chooseThread_dist _ _ _ _ hbest).resolve_left (by simp)
    obtain rfl : k = j := by omega
    unfold offerFace at hoffer
    by_cases hki : k = i
    · subst hki
      rw [hth] at ht
      cases ht
      rw [threadDist, hlast] at hdist
      cases hdist
      rw [if_pos rfl, offered]
      simp only [hm, get?_of_index hms hth hm, FDFaceThread.back_eq_ok.mpr hlast, ok_bind] at hoffer
      obtain ⟨hlt, -⟩ := List.getElem?_eq_some_iff.mp hm
      split at hoffer
      · next hbetter =>
        cases hoffer
        rw [if_pos hbetter]
        exact List.getElem?_set_self hlt
      · next hworse =>
        cases hoffer
        rw [if_neg hworse]
        exact hm
    · have hne : ¬ some k = some i := fun h => hki (Option.some.inj h)
      rw [if_neg hne]
      obtain ⟨mk, -, ⟨rfl, -⟩ | rfl⟩ := offerFace_ok hoffer
      · exact hm
      · rw [List.getElem?_set_ne hki]
        exact hm

end

section
variable {F : Type} [FloatOps F] [ExactOps F] {cfg : Config F} {gThreads : NodeList FDFaceThread}
  {last : Face} {ms : List (Matching F)} {i : Nat} {th : FDFaceThread} {m : Matching F}
  {cs : List Face}

/-- The distance of a candidate to the thread's last face, as a number. -/
noncomputable def distTo (F : Type) [FloatOps F] [ExactOps F] (last c : Face) : ℝ :=
  ExactOps.val (faceDist c last : F)

/-- `VERY_CLOSE_DIST_THRESH` as a number. -/
noncomputable def veryClose (cfg : Config F) : ℝ := ExactOps.val cfg.veryCloseDistThresh

/-- What an element of `matches` holds after the candidates `cs`. -/
def Holds (cfg : Config F) (last : Face) (cs : List Face) (m : Matching F) : Prop :=
  (cs = [] ∧ m.found = false) ∨
    (m.found = true ∧ m.faceDistance = faceDist m.face last ∧
      Keeps (distTo F last) area (veryClose cfg) cs m.face)

/-- Of two faces of positive area the larger has the smaller ratio. -/
theorem getSizeDiff_lt_iff {c k : Face} (hlast : 0 < area last) (hc : 0 < area c)
    (hk : 0 < area k) :
    FloatOps.lt (getSizeDiff c.toCvRect last.toCvRect : F) (getSizeDiff k.toCvRect last.toCvRect) =
      true ↔ area k < area c := by
  have hval : ∀ f : Face, ExactOps.val (getSizeDiff f.toCvRect last.toCvRect : F) =
      (area last : ℝ) / (area f : ℝ) := fun f => by
    rw [getSizeDiff, ExactOps.val_div, ExactOps.val_ofInt, ExactOps.val_ofInt]
    rfl
  have hlast' : (0 : ℝ) < area last := Int.cast_pos.mpr hlast
  have hc' : (0 : ℝ) < area c := Int.cast_pos.mpr hc
  have hk' : (0 : ℝ) < area k := Int.cast_pos.mpr hk
  rw [ExactOps.lt_iff, hval, hval, div_lt_div_iff_of_pos_left hlast' hc' hk', Int.cast_lt]

theorem isBetterCandidate_iff {c : Face} (hfound : m.found = true)
    (hdist : m.faceDistance = faceDist m.face last) (hlast : 0 < area last) (hc : 0 < area c)
    (hk : 0 < area m.face) :
    isBetterCandidate cfg m c (faceDist c last) last = true ↔
      Better (distTo F last) area (veryClose cfg) m.face c := by
  rw [isBetterCandidate, hfound, hdist]
  simp only [Bool.not_true, Bool.false_or, Bool.or_eq_true, Bool.and_eq_true, ExactOps.lt_iff,
    and_assoc, getSizeDiff_lt_iff hlast hc hk]
  rw [Better, distTo, distTo, veryClose]

/-- An offer keeps to the rule of replacement. -/
theorem Holds.offered (h : Holds cfg last cs m) {c : Face} (hlast : 0 < area last)
    (hpos : ∀ b ∈ cs ++ [c], 0 < area b) :
    Holds cfg last (cs ++ [c]) (offered cfg last m c) := by
  have hc := hpos c (List.mem_append_right _ (List.mem_singleton_self c))
  unfold PlanetariumFD.offered
  obtain ⟨rfl, hfound⟩ | ⟨hfound, hdist, hkeeps⟩ := h
  · have hbetter : isBetterCandidate cfg m c (faceDist c last) last = true := by
      rw [isBetterCandidate, hfound]
      rfl
    rw [if_pos hbetter]
    exact .inr ⟨rfl, rfl, .first c⟩
  · have hk := hpos m.face (List.mem_append_left _ hkeeps.mem)
    have hiff : isBetterCandidate cfg m c (faceDist c last) last = true ↔
        Better (distTo F last) area (veryClose cfg) m.face c :=
      isBetterCandidate_iff hfound hdist hlast hc hk
    by_cases hbetter : isBetterCandidate cfg m c (faceDist c last) last = true
    · rw [if_pos hbetter]
      exact .inr ⟨rfl, rfl, .replaced hkeeps (hiff.mp hbetter)⟩
    · rw [if_neg hbetter]
      exact .inr ⟨hfound, hdist, .stays hkeeps fun h => hbetter (hiff.mpr h)⟩

/-- Part 1 keeps to the rule for every thread. -/
theorem matchFaces_holds (hth : gThreads.vals[i]? = some th)
    (hlast : th.pFaces.getLast? = some last) (hpos : 0 < area last) (faces : List Face) :
    ∀ {ms : List (Matching F)} {m : Matching F} {cs : List Face}
      {r : List (Matching F) × List Face}, ms.map Matching.th = gThreads.addrs →
      ms[i]? = some m → Holds cfg last cs m → matchFaces cfg gThreads faces ms = .ok r →
      (∀ c ∈ cs ++ candidates cfg gThreads i faces ms, 0 < area c) →
      ∃ m', r.1[i]? = some m' ∧ Holds cfg last (cs ++ candidates cfg gThreads i faces ms) m' := by
  induction faces with
  | nil =>
    intro ms m cs r _ hm hholds hrun _
    cases hrun
    exact ⟨m, hm, by rw [candidates, List.zip_nil_left, List.filter_nil, List.map_nil,
      List.append_nil]; exact hholds⟩
  | cons face faces ih =>
    intro ms m cs r hms hm hholds hrun hareas
    obtain ⟨r₁, h₁, hrun⟩ := bind_eq_ok.mp hrun
    obtain ⟨r₂, h₂, hrun⟩ := bind_eq_ok.mp hrun
    cases hrun
    have hm' := matchFace_offered h₁ hms hth hlast hm
    have hms' := (matchFace_ok h₁).1.trans hms
    have hcands : candidates cfg gThreads i (face :: faces) ms =
        (if r₁.2 = some i then [face] else []) ++ candidates cfg gThreads i faces r₁.1 := by
      rw [candidates, selections, h₁]
      dsimp only
      rw [List.zip_cons_cons, List.filter_cons]
      by_cases hchosen : r₁.2 = some i
      · rw [if_pos (decide_eq_true hchosen), if_pos hchosen]
        rfl
      · rw [if_neg (fun h => hchosen (of_decide_eq_true h)), if_neg hchosen]
        rfl
    rw [hcands, ← List.append_assoc] at hareas ⊢
    show ∃ m', r₂.1[i]? = some m' ∧ _
    refine ih hms' hm' ?_ h₂ hareas
    by_cases hchosen : r₁.2 = some i
    · rw [if_pos hchosen] at hareas ⊢
      rw [if_pos hchosen]
      exact hholds.offered hpos fun b hb => hareas b (List.mem_append_left _ hb)
    · rw [if_neg hchosen, if_neg hchosen, List.append_nil]
      exact hholds

/-- The face kept in `matches` for a thread, if any face chose it, is a best one. -/
def KeepsBest (cfg : Config F) (gThreads : NodeList FDFaceThread) (i : Nat) (last : Face)
    (faces : List Face) : Prop :=
  ∀ r m, matchFaces cfg gThreads faces (initMatches gThreads) = .ok r → r.1[i]? = some m →
    candidates cfg gThreads i faces (initMatches gThreads) ≠ [] →
      m.found = true ∧ IsBest (distTo F last) area (veryClose cfg)
        (candidates cfg gThreads i faces (initMatches gThreads)) m.face

/-- No candidate at `VERY_CLOSE_DIST_THRESH` itself comes before the first one below it. -/
def NoneBlocks (cfg : Config F) (gThreads : NodeList FDFaceThread) (i : Nat) (last : Face)
    (faces : List Face) : Prop :=
  Unblocked (distTo F last) (veryClose cfg)
    (candidates cfg gThreads i faces (initMatches gThreads))

/-- What part 1 leaves in `matches` for a thread. -/
theorem matchFaces_holds_of_init (hth : gThreads.vals[i]? = some th)
    (hlast : th.pFaces.getLast? = some last) (hpos : 0 < area last) {faces : List Face}
    {r : List (Matching F) × List Face}
    (hrun : matchFaces cfg gThreads faces (initMatches gThreads) = .ok r)
    (hareas : ∀ c ∈ candidates cfg gThreads i faces (initMatches gThreads), 0 < area c) :
    ∃ m, r.1[i]? = some m ∧
      Holds cfg last (candidates cfg gThreads i faces (initMatches gThreads)) m := by
  have hms := initMatches_th (F := F) gThreads
  obtain ⟨m₀, hm₀⟩ : ∃ m, (initMatches gThreads : List (Matching F))[i]? = some m := by
    obtain ⟨hlt, -⟩ := List.getElem?_eq_some_iff.mp hth
    have hlength : (initMatches gThreads : List (Matching F)).length = gThreads.vals.length := by
      rw [initMatches, List.length_map, NodeList.addrs_length, NodeList.vals, List.length_map]
      rfl
    exact ⟨_, List.getElem?_eq_getElem (hlength ▸ hlt)⟩
  have hholds : Holds cfg last [] m₀ :=
    .inl ⟨rfl, initMatches_found (List.mem_of_getElem? hm₀)⟩
  exact matchFaces_holds hth hlast hpos faces hms hm₀ hholds hrun hareas

/-- The exact condition, for every run of part 1 and every thread; and two orders of the
same candidates that meet it keep equally good faces. -/
theorem keepsBest_iff (hth : gThreads.vals[i]? = some th)
    (hlast : th.pFaces.getLast? = some last) (hpos : 0 < area last) {faces : List Face}
    {r : List (Matching F) × List Face}
    (hrun : matchFaces cfg gThreads faces (initMatches gThreads) = .ok r)
    (hareas : ∀ c ∈ candidates cfg gThreads i faces (initMatches gThreads), 0 < area c) :
    (KeepsBest cfg gThreads i last faces ↔ NoneBlocks cfg gThreads i last faces) ∧
      ∀ faces' r', matchFaces cfg gThreads faces' (initMatches gThreads) = .ok r' →
        (candidates cfg gThreads i faces (initMatches gThreads)).Perm
          (candidates cfg gThreads i faces' (initMatches gThreads)) →
        NoneBlocks cfg gThreads i last faces → NoneBlocks cfg gThreads i last faces' →
        ∀ m m', r.1[i]? = some m → r'.1[i]? = some m' → m.found = true →
          EquallyGood (distTo F last) area (veryClose cfg) m.face m'.face := by
  obtain ⟨m, hm, hholds⟩ := matchFaces_holds_of_init hth hlast hpos hrun hareas
  constructor
  · obtain ⟨hnil, -⟩ | ⟨hfound, -, hkeeps⟩ := hholds
    · -- no face chose the thread
      refine iff_of_true (fun _ _ _ _ hne => absurd hnil hne) ?_
      rw [NoneBlocks, hnil]
      rintro ⟨c, hc, -⟩
      cases hc
    · rw [NoneBlocks, ← hkeeps.isBest_iff]
      constructor
      · exact fun hbest => (hbest r m hrun hm (List.ne_nil_of_mem hkeeps.mem)).2
      · intro hbest r' m' hrun' hm' _
        rw [hrun] at hrun'
        cases hrun'
        rw [hm] at hm'
        cases hm'
        exact ⟨hfound, hbest⟩
  · intro faces' r' hrun' hperm hfree hfree' m₁ m' hm₁ hm' hfound
    rw [hm] at hm₁
    cases hm₁
    obtain ⟨m₂, hm₂, hholds'⟩ := matchFaces_holds_of_init hth hlast hpos hrun' fun c hc =>
      hareas c (hperm.mem_iff.mpr hc)
    rw [hm'] at hm₂
    cases hm₂
    obtain ⟨-, hnone⟩ | ⟨-, -, hkeeps⟩ := hholds
    · rw [hfound] at hnone
      cases hnone
    · obtain ⟨hnil, -⟩ | ⟨-, -, hkeeps'⟩ := hholds'
      · rw [hnil] at hperm
        exact absurd hperm.eq_nil (List.ne_nil_of_mem hkeeps.mem)
      · exact (hkeeps.isBest_iff.mpr hfree).equallyGood (hkeeps'.isBest_iff.mpr hfree') hperm

end

/-- One live thread, its last face at `x` 0. -/
def oneThread : NodeList FDFaceThread := NodeList.empty.pushBack (threadAt 0 0)

theorem keepsBest_nearFirst :
    KeepsBest (Config.declared : Config ℚ) oneThread 0 (squareAt 0 1) [squareAt 10 2, squareAt 25 2] ↔
      NoneBlocks (Config.declared : Config ℚ) oneThread 0 (squareAt 0 1)
        [squareAt 10 2, squareAt 25 2] := by
  have hruns : returns (fun _ => true) (matchFaces (Config.declared : Config ℚ) oneThread
      [squareAt 10 2, squareAt 25 2] (initMatches oneThread)) = true := by decide +kernel
  have hareas : ∀ c ∈ candidates (Config.declared : Config ℚ) oneThread 0
      [squareAt 10 2, squareAt 25 2] (initMatches oneThread), 0 < area c := by decide +kernel
  obtain ⟨r, hrun, -⟩ := exists_of_returns hruns
  have hth : oneThread.vals[0]? = some (threadAt 0 0) := rfl
  have hlast : (threadAt 0 0).pFaces.getLast? = some (squareAt 0 1) := by decide
  exact (keepsBest_iff hth hlast (by decide) hrun hareas).1

/-- The second face is 10 away, the first one exactly `VERY_CLOSE_DIST_THRESH`, and the
first is kept. -/
theorem threshold_face_kept :
    ¬ KeepsBest (Config.declared : Config ℚ) oneThread 0 (squareAt 0 1)
      [squareAt 25 2, squareAt 10 2] := by
  have hruns : returns (fun r => decide (r.1[0]?.map Matching.face = some (squareAt 25 2)))
      (matchFaces (Config.declared : Config ℚ) oneThread [squareAt 25 2, squareAt 10 2]
        (initMatches oneThread)) = true := by decide +kernel
  have hcands : candidates (Config.declared : Config ℚ) oneThread 0 [squareAt 25 2, squareAt 10 2]
      (initMatches oneThread) = [squareAt 25 2, squareAt 10 2] := by decide +kernel
  have hdist : distTo ℚ (squareAt 0 1) (squareAt 25 2) = 25 := by
    have hrat : (faceDist (squareAt 25 2) (squareAt 0 1) : ℚ) = 25 := by decide +kernel
    show ((faceDist (squareAt 25 2) (squareAt 0 1) : ℚ) : ℝ) = 25
    rw [hrat]
    norm_num
  have hdist' : distTo ℚ (squareAt 0 1) (squareAt 10 2) = 10 := by
    have hrat : (faceDist (squareAt 10 2) (squareAt 0 1) : ℚ) = 10 := by decide +kernel
    show ((faceDist (squareAt 10 2) (squareAt 0 1) : ℚ) : ℝ) = 10
    rw [hrat]
    norm_num
  have hthresh : veryClose (Config.declared : Config ℚ) = 25 := by
    have hrat : (Config.declared : Config ℚ).veryCloseDistThresh = 25 := by decide +kernel
    show (((Config.declared : Config ℚ).veryCloseDistThresh : ℚ) : ℝ) = 25
    rw [hrat]
    norm_num
  obtain ⟨r, hrun, hface⟩ := exists_of_returns hruns
  obtain ⟨m, hm, hkept⟩ := Option.map_eq_some_iff.mp (of_decide_eq_true hface)
  intro hbest
  obtain ⟨-, hbest⟩ := hbest r m hrun hm (by rw [hcands]; exact List.cons_ne_nil _ _)
  rw [hcands, hkept] at hbest
  have hnear := (hbest.near (squareAt 10 2) (List.mem_cons_of_mem _ (List.mem_singleton_self _))
    (by rw [hdist', hthresh]; norm_num)).1
  rw [hdist, hthresh] at hnear
  exact lt_irrefl _ hnear

end PlanetariumFD
