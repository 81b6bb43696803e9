import PlanetariumFD.Foundation.Outcome
import PlanetariumFD.Foundation.NodeList
import PlanetariumFD.Detector.Face

/-!
# Matching input faces to threads

Parts 0 and 1 of `processThreads2`: the input sequence is popped into a face
list, each face chooses a thread among those whose last face is near, and the
array `matches` keeps the best candidate of each thread. Faces that choose no
thread stay in the input list.
-/

namespace PlanetariumFD

open Outcome

/-! ## Part 0 -/

/-- `cvSeqPop` removes the last element of a sequence. -/
def cvSeqPop (seq : List CvRect) : Option (CvRect × List CvRect) :=
  seq.getLast?.map fun r => (r, seq.dropLast)

/-- The loop `while(pInputFaces->total>0)`, on the count that it tests. -/
def popFaces (frameId : Int) : Nat → List CvRect → List Face → List Face × List CvRect
  | 0, seq, inputFaces => (inputFaces, seq)
  | total + 1, seq, inputFaces =>
    match cvSeqPop seq with
    | none => (inputFaces, seq)
    | some (r, seq') =>
      popFaces frameId total seq' (inputFaces ++ [{ r with frameId := frameId }])

/-- Part 0: the face list, and what is left of the sequence. -/
def takeInputFaces (frameId : Int) (seq : List CvRect) : List Face × List CvRect :=
  popFaces frameId seq.length seq []

theorem popFaces_eq (frameId : Int) (seq : List CvRect) (inputFaces : List Face) :
    popFaces frameId seq.length seq inputFaces =
      (inputFaces ++ seq.reverse.map fun r => { r with frameId := frameId }, []) := by
  induction seq using List.reverseRecOn generalizing inputFaces with
  | nil => simp [popFaces]
  | append_singleton seq r ih =>
    rw [List.length_append, List.length_singleton, popFaces]
    simp [cvSeqPop, ih]

/-- Every rectangle becomes a face of this frame, last rectangle first, and the
sequence is left empty. -/
theorem takeInputFaces_eq (frameId : Int) (seq : List CvRect) :
    takeInputFaces frameId seq =
      (seq.reverse.map fun r => { r with frameId := frameId }, []) := by
  rw [takeInputFaces, popFaces_eq, List.nil_append]

/-! ## Part 1 -/

/-- An element of `matches`. The constructor leaves `faceDistance` unset; it is
read only after `found`. -/
structure Matching (F : Type) where
  found : Bool
  faceDistance : F
  face : Face
  th : Nat

section
variable {F : Type} [FloatOps F] (cfg : Config F)

def initMatches (gThreads : NodeList FDFaceThread) : List (Matching F) :=
  gThreads.addrs.map fun a => ⟨false, FloatOps.ofInt 0, nullFace, a⟩

/-- `dist` between an input face and the last face of a thread. -/
def faceDist (face last : Face) : F :=
  getDistance (getRectCenter face.toCvRect) (getRectCenter last.toCvRect)

/-- The inner loop of part 1: `i` counts the threads in step with `matches`,
`best` holds `min_dist` and `thInd`. -/
def chooseThread (face : Face) :
    Nat → List FDFaceThread → List (Matching F) → F × Option Nat → Except Fault (F × Option Nat)
  | _, [], _, best => .ok best
  | _, _ :: _, [], _ => .error .indexOutOfRange
  | i, th :: ths, m :: ms, best => do
    let last ← th.back
    let dist := faceDist face last
    if FloatOps.le dist cfg.distThresh then
      match best.2 with
      | none => chooseThread face (i + 1) ths ms (dist, some i)
      | some _ =>
        if FloatOps.lt dist best.1 then
          if FloatOps.lt best.1 cfg.veryCloseDistThresh &&
              FloatOps.lt (getSizeDiff face.toCvRect last.toCvRect : F)
                (getSizeDiff face.toCvRect m.face.toCvRect) then
            chooseThread face (i + 1) ths ms (dist, some i)
          else chooseThread face (i + 1) ths ms best
        else chooseThread face (i + 1) ths ms best
    else chooseThread face (i + 1) ths ms best

/-- The test for storing a face in `matches[thInd]`; `last` is the last face of
the thread. -/
def isBetterCandidate (m : Matching F) (face : Face) (minDist : F) (last : Face) : Bool :=
  !m.found ||
  (FloatOps.lt minDist m.faceDistance && FloatOps.lt cfg.veryCloseDistThresh m.faceDistance) ||
  (FloatOps.lt m.faceDistance cfg.veryCloseDistThresh &&
    FloatOps.lt minDist cfg.veryCloseDistThresh &&
    FloatOps.lt (getSizeDiff face.toCvRect last.toCvRect : F)
      (getSizeDiff m.face.toCvRect last.toCvRect))

/-- Offer a face to the thread at index `i` of `matches`. -/
def offerFace (gThreads : NodeList FDFaceThread) (face : Face) (minDist : F) (i : Nat)
    (ms : List (Matching F)) : Except Fault (List (Matching F)) :=
  match ms[i]? with
  | none => .error .indexOutOfRange
  | some m =>
    match gThreads.get? m.th with
    | none => .error .danglingPointer
    | some th => do
      let last ← th.back
      if isBetterCandidate cfg m face minDist last then
        .ok (ms.set i { m with found := true, face := face, faceDistance := minDist })
      else .ok ms

/-- One turn of part 1's outer loop: the new `matches` and `thInd`. -/
def matchFace (gThreads : NodeList FDFaceThread) (face : Face) (ms : List (Matching F)) :
    Except Fault (List (Matching F) × Option Nat) := do
  let best ← chooseThread cfg face 0 gThreads.vals ms (FloatOps.ofInt (-1), none)
  match best.2 with
  | none => .ok (ms, none)
  | some i =>
    let ms' ← offerFace cfg gThreads face best.1 i ms
    .ok (ms', some i)

/-- Part 1: the final `matches`, and the faces left in the input list. -/
def matchFaces (gThreads : NodeList FDFaceThread) :
    List Face → List (Matching F) → Except Fault (List (Matching F) × List Face)
  | [], ms => .ok (ms, [])
  | face :: faces, ms => do
    let r ← matchFace cfg gThreads face ms
    let s ← matchFaces gThreads faces r.1
    .ok (s.1, if r.2 = none then face :: s.2 else s.2)

/-- The thread each face of the input list chose, as `matchFaces` ran. -/
def selections (gThreads : NodeList FDFaceThread) : List Face → List (Matching F) → List (Option Nat)
  | [], _ => []
  | face :: faces, ms =>
    match matchFace cfg gThreads face ms with
    | .ok r => r.2 :: selections gThreads faces r.1
    | .error _ => []

/-- The thread's last face has its centre within `DIST_THRESH` of the face's. -/
def isWithin (face : Face) (th : FDFaceThread) : Bool :=
  match th.pFaces.getLast? with
  | none => false
  | some last => FloatOps.le (faceDist face last : F) cfg.distThresh

end

/-! ## What the loops do -/

section
variable {F : Type} [FloatOps F] {cfg : Config F}

theorem initMatches_th (gThreads : NodeList FDFaceThread) :
    (initMatches gThreads : List (Matching F)).map Matching.th = gThreads.addrs := by
  simp [initMatches, Function.comp_def]

theorem initMatches_found {gThreads : NodeList FDFaceThread} {m : Matching F}
    (h : m ∈ (initMatches gThreads : List (Matching F))) : m.found = false := by
  obtain ⟨a, -, rfl⟩ := List.mem_map.mp h
  rfl

theorem FDFaceThread.back_eq_ok {th : FDFaceThread} {f : Face} :
    th.back = .ok f ↔ th.pFaces.getLast? = some f := by
  unfold back
  split <;> simp_all

theorem FDFaceThread.back_of_ne_nil {th : FDFaceThread} (h : th.pFaces ≠ []) :
    th.back = .ok (th.pFaces.getLast h) := by
  rw [back_eq_ok, List.getLast?_eq_some_getLast h]

/-- The search is total on nonempty threads. It ends without a thread iff no
thread is near, and the index it ends with is that of a near thread. -/
theorem chooseThread_spec (cfg : Config F) (face : Face) (ths : List FDFaceThread) :
    ∀ (ms : List (Matching F)) (i : Nat) (best : F × Option Nat),
      (∀ th ∈ ths, th.pFaces ≠ []) → ths.length ≤ ms.length →
      ∃ best', chooseThread cfg face i ths ms best = .ok best' ∧
        (best'.2 = none ↔ best.2 = none ∧ ∀ th ∈ ths, isWithin cfg face th = false) ∧
        ∀ k, best'.2 = some k → best.2 = some k ∨
          ∃ j th, k = i + j ∧ ths[j]? = some th ∧ isWithin cfg face th = true := by
  induction ths with
  | nil => exact fun _ _ _ _ _ => ⟨_, rfl, by simp, fun k hk => .inl hk⟩
  | cons th ths ih =>
    intro ms i best hne hlen
    cases ms with
    | nil => simp at hlen
    | cons m ms =>
      have hth := hne th (by simp)
      have hne' : ∀ t ∈ ths, t.pFaces ≠ [] := fun t ht => hne t (by simp [ht])
      have hlen' : ths.length ≤ ms.length := by simpa using hlen
      have hwithin : isWithin cfg face th =
          FloatOps.le (faceDist face (th.pFaces.getLast hth) : F) cfg.distThresh := by
        simp [isWithin, List.getLast?_eq_some_getLast hth]
      -- the loop goes on with some `b`: the old best, or this thread if it is near
      have go : ∀ b : F × Option Nat,
          (b.2 = best.2 ∧ (best.2 = none → isWithin cfg face th = false)) ∨
            (b.2 = some i ∧ isWithin cfg face th = true) →
          ∃ best', chooseThread cfg face (i + 1) ths ms b = .ok best' ∧
            (best'.2 = none ↔
              best.2 = none ∧ ∀ t ∈ th :: ths, isWithin cfg face t = false) ∧
            ∀ k, best'.2 = some k → best.2 = some k ∨
              ∃ j t, k = i + j ∧ (th :: ths)[j]? = some t ∧ isWithin cfg face t = true := by
        intro b hb
        obtain ⟨best', hrun, hnone, hsome⟩ := ih ms (i + 1) b hne' hlen'
        refine ⟨best', hrun, ?_, fun k hk => ?_⟩
        · rw [hnone]
          rcases hb with ⟨he, hfar⟩ | ⟨he, hnear⟩
          · simp only [he, List.mem_cons, forall_eq_or_imp]
            exact ⟨fun h => ⟨h.1, hfar h.1, h.2⟩, fun h => ⟨h.1, h.2.2⟩⟩
          · simp [he, hnear]
        · rcases hsome k hk with hk | ⟨j, t, rfl, hj, hw⟩
          · rcases hb with ⟨he, -⟩ | ⟨he, hnear⟩
            · exact .inl (he ▸ hk)
            · refine .inr ⟨0, th, ?_, rfl, hnear⟩
              rw [he] at hk
              exact (Option.some.inj hk).symm
          · exact .inr ⟨j + 1, t, by omega, by simpa using hj, hw⟩
      simp only [chooseThread, FDFaceThread.back_of_ne_nil hth, ok_bind]
      by_cases hle : FloatOps.le (faceDist face (th.pFaces.getLast hth) : F) cfg.distThresh = true
      · -- near: the tests may prefer this thread or the old best, and both are near
        rw [if_pos hle]
        obtain ⟨minDist, thInd⟩ := best
        cases thInd with
        | none => exact go _ (.inr ⟨rfl, hwithin.trans hle⟩)
        | some k =>
          dsimp only
          split
          · split
            · exact go _ (.inr ⟨rfl, hwithin.trans hle⟩)
            · exact go _ (.inl ⟨rfl, by simp⟩)
          · exact go _ (.inl ⟨rfl, by simp⟩)
      · rw [if_neg hle]
        exact go _ (.inl ⟨rfl, fun _ => by rw [hwithin]; simpa using hle⟩)

theorem chooseThread_total (cfg : Config F) (face : Face) {gThreads : NodeList FDFaceThread} {ms : List (Matching F)}
    (hne : ∀ th ∈ gThreads.vals, th.pFaces ≠ []) (hms : ms.map Matching.th = gThreads.addrs) :
    ∃ best, chooseThread cfg face 0 gThreads.vals ms (FloatOps.ofInt (-1), none) = .ok best ∧
      (best.2 = none ↔ ∀ th ∈ gThreads.vals, isWithin cfg face th = false) ∧
      ∀ i, best.2 = some i → ∃ th, gThreads.vals[i]? = some th ∧ isWithin cfg face th = true := by
  have hlen : gThreads.vals.length ≤ ms.length := by
    have := congrArg List.length hms
    simp only [List.length_map, NodeList.addrs_length] at this
    simp [NodeList.vals, this, NodeList.size]
  obtain ⟨best, hrun, hnone, hsome⟩ := chooseThread_spec cfg face gThreads.vals ms 0
    (FloatOps.ofInt (-1), none) hne hlen
  refine ⟨best, hrun, by simpa using hnone, fun i hi => ?_⟩
  rcases hsome i hi with h | ⟨j, th, rfl, hj, hw⟩
  · cases h
  · exact ⟨th, by simpa using hj, hw⟩

/-- A face is stored, or the thread already has one. -/
theorem offerFace_ok {gThreads : NodeList FDFaceThread} {face : Face} {minDist : F} {i : Nat}
    {ms ms' : List (Matching F)} (h : offerFace cfg gThreads face minDist i ms = .ok ms') :
    ∃ m, ms[i]? = some m ∧ ((ms' = ms ∧ m.found = true) ∨
      ms' = ms.set i { m with found := true, face := face, faceDistance := minDist }) := by
  unfold offerFace at h
  split at h
  · cases h
  · next m hm =>
    split at h
    · cases h
    · next th _ =>
      obtain ⟨last, -, h⟩ := bind_eq_ok.mp h
      refine ⟨m, hm, ?_⟩
      split at h
      · cases h
        exact .inr rfl
      · next hworse =>
        cases h
        refine .inl ⟨rfl, ?_⟩
        -- an element without a face takes any
        by_contra hf
        simp [isBetterCandidate, hf] at hworse

/-- What one face does to `matches`: at most the element it chose changes, and
afterwards that element holds a face. -/
theorem matchFace_ok {gThreads : NodeList FDFaceThread} {face : Face} {ms : List (Matching F)}
    {r : List (Matching F) × Option Nat} (h : matchFace cfg gThreads face ms = .ok r) :
    r.1.map Matching.th = ms.map Matching.th ∧
      ∀ k m', r.1[k]? = some m' → ∃ m, ms[k]? = some m ∧
        ((m' = m ∧ (r.2 = some k → m.found = true)) ∨
          (r.2 = some k ∧ m'.found = true ∧ m'.face = face)) := by
  obtain ⟨best, -, h⟩ := bind_eq_ok.mp h
  split at h
  · cases h
    exact ⟨rfl, fun k m' hm => ⟨m', hm, .inl ⟨rfl, by simp⟩⟩⟩
  · next i _ =>
    obtain ⟨ms', hoffer, h⟩ := bind_eq_ok.mp h
    cases h
    obtain ⟨m, hm, ⟨rfl, hf⟩ | rfl⟩ := offerFace_ok hoffer
    · refine ⟨rfl, fun k m' hk => ⟨m', hk, .inl ⟨rfl, fun he => ?_⟩⟩⟩
      obtain rfl := Option.some.inj he
      rw [hm] at hk
      exact Option.some.inj hk ▸ hf
    · refine ⟨?_, fun k m' hk => ?_⟩
      · apply List.ext_getElem?
        intro k
        rw [List.map_set, List.getElem?_set]
        split
        · next hik =>
          subst hik
          obtain ⟨hlt, rfl⟩ := List.getElem?_eq_some_iff.mp hm
          simp [hlt]
        · rfl
      · obtain ⟨rfl, rfl⟩ | ⟨hik, hk⟩ := getElem?_set_cases hk
        · exact ⟨m, hm, .inr ⟨rfl, rfl, rfl⟩⟩
        · exact ⟨m', hk, .inl ⟨rfl, fun he => absurd (Option.some.inj he).symm hik⟩⟩

theorem matchFaces_th {gThreads : NodeList FDFaceThread} {faces : List Face} :
    ∀ {ms : List (Matching F)} {r : List (Matching F) × List Face},
      matchFaces cfg gThreads faces ms = .ok r → r.1.map Matching.th = ms.map Matching.th := by
  induction faces with
  | nil =>
    intro ms r h
    cases h
    rfl
  | cons face faces ih =>
    intro ms r h
    obtain ⟨r₁, h₁, h⟩ := bind_eq_ok.mp h
    obtain ⟨r₂, h₂, h⟩ := bind_eq_ok.mp h
    cases h
    exact (ih h₂).trans (matchFace_ok h₁).1

/-- Part 1 is total on nonempty threads. -/
theorem matchFaces_total (cfg : Config F) {gThreads : NodeList FDFaceThread}
    (hne : ∀ th ∈ gThreads.vals, th.pFaces ≠ []) (faces : List Face) :
    ∀ {ms : List (Matching F)}, ms.map Matching.th = gThreads.addrs →
      ∃ r, matchFaces cfg gThreads faces ms = .ok r := by
  induction faces with
  | nil => exact fun _ => ⟨_, rfl⟩
  | cons face faces ih =>
    intro ms hms
    obtain ⟨best, hbest, -, hsome⟩ := chooseThread_total cfg face hne hms
    have hmatch : ∃ r, matchFace cfg gThreads face ms = .ok r := by
      simp only [matchFace, hbest, ok_bind]
      cases hb : best.2 with
      | none => exact ⟨_, rfl⟩
      | some i =>
        obtain ⟨th, hth, -⟩ := hsome i hb
        -- index `i` of `matches` points at the `i`-th node
        obtain ⟨p, hp, rfl⟩ : ∃ p, gThreads.nodes[i]? = some p ∧ p.2 = th := by
          simpa [NodeList.vals] using hth
        obtain ⟨m, hm, hma⟩ : ∃ m, ms[i]? = some m ∧ m.th = p.1 := by
          have := congrArg (fun l => l[i]?) hms
          simpa [NodeList.addrs, hp] using this
        have hget : gThreads.get? m.th = some p.2 := by
          rw [hma, NodeList.get?_eq_some_iff]
          exact List.mem_of_getElem? hp
        have hback := hne p.2 (NodeList.mem_vals_iff.mpr ⟨p.1, List.mem_of_getElem? hp⟩)
        simp only [offerFace, hm, hget, FDFaceThread.back_of_ne_nil hback, ok_bind]
        split <;> exact ⟨_, rfl⟩
    obtain ⟨r₁, h₁⟩ := hmatch
    obtain ⟨r₂, h₂⟩ := ih ((matchFace_ok h₁).1.trans hms)
    exact ⟨_, bind_eq_ok.mpr ⟨r₁, h₁, bind_eq_ok.mpr ⟨r₂, h₂, rfl⟩⟩⟩

/-- Every face held at the end was held before or is an input face. -/
theorem matchFaces_face {gThreads : NodeList FDFaceThread} {faces : List Face} :
    ∀ {ms : List (Matching F)} {r : List (Matching F) × List Face},
      matchFaces cfg gThreads faces ms = .ok r →
      (∀ m ∈ r.1, m.found = true → m.face ∈ faces ∨ m ∈ ms) ∧ r.2 ⊆ faces := by
  induction faces with
  | nil =>
    intro ms r h
    cases h
    exact ⟨fun m hm _ => .inr hm, fun _ h => h⟩
  | cons face faces ih =>
    intro ms r h
    obtain ⟨r₁, h₁, h⟩ := bind_eq_ok.mp h
    obtain ⟨r₂, h₂, h⟩ := bind_eq_ok.mp h
    cases h
    obtain ⟨hheld, hrest⟩ := ih h₂
    refine ⟨fun m hm hf => ?_, ?_⟩
    · rcases hheld m hm hf with hm | hm
      · exact .inl (List.mem_cons_of_mem _ hm)
      · obtain ⟨k, hk⟩ := List.mem_iff_getElem?.mp hm
        obtain ⟨m₀, hm₀, ⟨rfl, -⟩ | ⟨-, -, he⟩⟩ := (matchFace_ok h₁).2 k m hk
        · exact .inr (List.mem_of_getElem? hm₀)
        · exact .inl (he ▸ List.mem_cons_self)
    · dsimp only
      split
      · exact List.cons_subset_cons _ hrest
      · exact fun f hf => List.mem_cons_of_mem _ (hrest hf)

end

end PlanetariumFD
