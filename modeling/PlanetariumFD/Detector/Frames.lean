import PlanetariumFD.Foundation.Transition
import PlanetariumFD.Detector.Threads

/-!
# One frame, and runs of frames

`FdProcessFaces` and the input loop of `_tmain` that calls it. Here the main
thread runs alone; the interleaved system is built from the same pieces.
-/

namespace PlanetariumFD

open Outcome Transition

/-- What one frame brings: the image, the detector's rectangles for it, and the
time `processThreads2` reads. -/
structure FrameInput where
  pImg : IplImage
  pSeqIn : List CvRect
  now : Int
  deriving DecidableEq, Repr

/-- A frame with one detection, and one without. -/
def oneDetection : FrameInput := ⟨⟨640, 480, 8, 3, 0⟩, [⟨10, 10, 20, 20⟩], 0⟩

def noDetection : FrameInput := ⟨⟨640, 480, 8, 3, 0⟩, [], 0⟩

def createFrameCopy (pImg : IplImage) : IplImage := { pImg with depth := 8, nChannels := 3 }

section
variable {F : Type}

/-- `processed_frame_counter++`; past `INT_MAX` the behaviour is undefined. -/
def countFrame (g : Shared F) : Except Fault (Shared F) :=
  if g.processedFrameCounter < intMax then
    .ok { g with processedFrameCounter := g.processedFrameCounter + 1 }
  else .error .signedOverflow

/-- Push the entry of this frame; the result names the new entry's node. -/
def addToHistory (g : Shared F) (pImg : IplImage) (pSeqIn : List CvRect) (frameId : Int) :
    Shared F × Nat :=
  let pVideoFrameCopy := createFrameCopy pImg
  let g := if g.gHistory.size = 0 then
      { g with gFrameWidth := pVideoFrameCopy.width, gFrameHeight := pVideoFrameCopy.height }
    else g
  ({ g with gHistory := g.gHistory.pushBack ⟨frameId, some pVideoFrameCopy, pSeqIn⟩ },
    g.gHistory.fresh)

/-- The start of `FdProcessFaces`: count the frame and record it. -/
def recordFrame (g : Shared F) (inp : FrameInput) : Except Fault (Shared F × Nat) := do
  let g ← countFrame g
  .ok (addToHistory g inp.pImg inp.pSeqIn g.processedFrameCounter)

/-- Every `PRUNE_FACES_INTERVAL` frames the face lists of `gThreads` are pruned. -/
def pruneThreads (cfg : Config F) (g : Shared F) : Except Fault (Shared F) :=
  if cfg.pruneFacesInterval = 0 then .error .remainderByZero
  else if g.processedFrameCounter.tmod cfg.pruneFacesInterval = 0 then
    (g.gThreads.mapValsM fun th => th.pruneFacesList cfg).map fun l => { g with gThreads := l }
  else .ok g

/-- The display filter: a thread's last face is shown once the thread has been
matched often enough. -/
def isShown (cfg : Config F) (th : FDFaceThread) : Bool :=
  th.nonMissedCount > cfg.minFaceOccurencesThresh

def shownFaces (cfg : Config F) : List FDFaceThread → Except Fault (List Face)
  | [] => .ok []
  | th :: ths =>
    if isShown cfg th then do
      let f ← th.back
      let fs ← shownFaces cfg ths
      .ok (f :: fs)
    else shownFaces cfg ths

/-- The end of `FdProcessFaces`: refill `gFacesInCurrentFrame`. -/
def showFaces (cfg : Config F) (g : Shared F) : Except Fault (Shared F) :=
  (shownFaces cfg g.gThreads.vals).map fun fs => { g with gFacesInCurrentFrame := fs }

variable [FloatOps F]

/-- The state `FdInit` leaves; `now` is the time it reads. -/
def fdInit (cfg : Config F) (now : Int) : Shared F where
  gHistory := .empty
  gThreads := .empty
  gThreadsBeingSerialized := .empty
  gFacesInCurrentFrame := []
  gFrameWidth := -1
  gFrameHeight := -1
  processedFrameCounter := 0
  fdTimeSeconds := now
  estimatedFps := cfg.initialFps
  jobs := []

/-- `FdProcessFaces` up to the return of `processThreads2`. -/
def processFrame (cfg : Config F) (g : Shared F) (inp : FrameInput) : Except Fault (Shared F) := do
  let r ← recordFrame g inp
  processThreads2 cfg r.1 r.2 r.1.processedFrameCounter inp.now

def fdProcessFaces (cfg : Config F) (g : Shared F) (inp : FrameInput) : Except Fault (Shared F) := do
  let g ← processFrame cfg g inp
  let g ← pruneThreads cfg g
  showFaces cfg g

/-- A run of frames from the state after `FdInit`. -/
def runFrames (cfg : Config F) (now : Int) (frames : List FrameInput) : Except Fault (Shared F) :=
  run (fdProcessFaces cfg) (fdInit cfg now) frames

end

/-! ## The input loop -/

/-- A rectangle drawn on the displayed frame; the colour is an index of `colorArr`. -/
structure DrawnRect where
  pt1 : CvPoint
  pt2 : CvPoint
  color : Nat
  thickness : Int
  deriving DecidableEq, Repr

/-- The drawing loop: faces of this frame are drawn thick. -/
def drawFaces (frameCount : Int) (faces : List Face) : List DrawnRect :=
  faces.zipIdx.map fun p =>
    ⟨⟨p.1.x, p.1.y⟩, ⟨p.1.x + p.1.width, p.1.y + p.1.height⟩, p.2 % 3,
      if p.1.frameId = frameCount then 3 else 1⟩

/-- The state of `_tmain`'s input loop. -/
structure InputLoop (F : Type) where
  frameCount : Int
  sh : Shared F
  drawn : List DrawnRect

/-- One turn of the input loop on a captured frame. -/
def inputStep {F : Type} [FloatOps F] (cfg : Config F) (s : InputLoop F) (inp : FrameInput) :
    Except Fault (InputLoop F) := do
  let sh ← fdProcessFaces cfg s.sh inp
  .ok ⟨s.frameCount + 1, sh, drawFaces (s.frameCount + 1) sh.gFacesInCurrentFrame⟩

/-! ## What one frame does -/

section
variable {F : Type} [FloatOps F] {cfg : Config F} {g g' : Shared F} {inp : FrameInput}

/-- The state in which `processThreads2` is called. -/
def recorded (g : Shared F) (inp : FrameInput) : Shared F :=
  (addToHistory { g with processedFrameCounter := g.processedFrameCounter + 1 } inp.pImg inp.pSeqIn
    (g.processedFrameCounter + 1)).1

omit [FloatOps F] in
@[simp] theorem recorded_gHistory : (recorded g inp).gHistory = g.gHistory.pushBack
    ⟨g.processedFrameCounter + 1, some (createFrameCopy inp.pImg), inp.pSeqIn⟩ := by
  simp only [recorded, addToHistory]
  split <;> rfl

omit [FloatOps F] in
theorem recorded_others : recorded g inp = { g with
    gHistory := (recorded g inp).gHistory
    gFrameWidth := (recorded g inp).gFrameWidth
    gFrameHeight := (recorded g inp).gFrameHeight
    processedFrameCounter := g.processedFrameCounter + 1 } := by
  simp only [recorded, addToHistory]
  split <;> rfl

omit [FloatOps F] in
@[simp] theorem recorded_gThreads : (recorded g inp).gThreads = g.gThreads := by
  rw [recorded_others]

omit [FloatOps F] in
@[simp] theorem recorded_gThreadsBeingSerialized :
    (recorded g inp).gThreadsBeingSerialized = g.gThreadsBeingSerialized := by
  rw [recorded_others]

omit [FloatOps F] in
@[simp] theorem recorded_jobs : (recorded g inp).jobs = g.jobs := by
  rw [recorded_others]

omit [FloatOps F] in
@[simp] theorem recorded_processedFrameCounter :
    (recorded g inp).processedFrameCounter = g.processedFrameCounter + 1 := by
  rw [recorded_others]

omit [FloatOps F] in
theorem recordFrame_ok {r : Shared F × Nat} (h : recordFrame g inp = .ok r) :
    g.processedFrameCounter < intMax ∧ r = (recorded g inp, g.gHistory.fresh) := by
  obtain ⟨g₁, hc, h⟩ := bind_eq_ok.mp h
  unfold countFrame at hc
  split at hc
  · next hlt =>
    cases hc
    cases h
    refine ⟨hlt, Prod.ext rfl ?_⟩
    simp only [addToHistory]
    split <;> rfl
  · cases hc

omit [FloatOps F] in
theorem recordFrame_of_lt (h : g.processedFrameCounter < intMax) :
    recordFrame g inp = .ok (recorded g inp, g.gHistory.fresh) := by
  simp only [recordFrame, countFrame, if_pos h, ok_bind, Except.ok.injEq]
  refine Prod.ext rfl ?_
  simp only [addToHistory]
  split <;> rfl

/-- The stages of a frame up to the return of `processThreads2`. -/
theorem processFrame_ok (h : processFrame cfg g inp = .ok g') :
    g.processedFrameCounter < intMax ∧
      ∃ m, matchThreads cfg (recorded g inp) g.gHistory.fresh (g.processedFrameCounter + 1) inp.now
          = .ok m ∧
        MatchEffect cfg (recorded g inp) g.gHistory.fresh (g.processedFrameCounter + 1) m ∧
        g' = afterDeletion cfg m := by
  obtain ⟨r, hr, h⟩ := bind_eq_ok.mp h
  obtain ⟨hlt, rfl⟩ := recordFrame_ok hr
  rw [recorded_processedFrameCounter] at h
  exact ⟨hlt, processThreads2_ok h⟩

omit [FloatOps F] in
theorem pruneThreads_ok (h : pruneThreads cfg g = .ok g') :
    cfg.pruneFacesInterval ≠ 0 ∧
      ((g.processedFrameCounter.tmod cfg.pruneFacesInterval ≠ 0 ∧ g' = g) ∨
        (g.processedFrameCounter.tmod cfg.pruneFacesInterval = 0 ∧
          (∀ th ∈ g.gThreads.vals, th.pruneFacesList cfg = .ok (th.pruned cfg)) ∧
          g' = { g with gThreads := g.gThreads.mapVals (FDFaceThread.pruned cfg) })) := by
  unfold pruneThreads at h
  split at h
  · cases h
  · next hne =>
    refine ⟨hne, ?_⟩
    split at h
    · next hz =>
      obtain ⟨l, hl, rfl⟩ := map_eq_ok.mp h
      have hall : ∀ th ∈ g.gThreads.vals, th.pruneFacesList cfg = .ok (th.pruned cfg) := by
        intro th hth
        obtain ⟨th', hth'⟩ := NodeList.body_ok_of_mapValsM hl hth
        rw [hth', (FDFaceThread.pruneFacesList_ok hth').2]
      rw [NodeList.mapValsM_ok hall, Except.ok.injEq] at hl
      exact .inr ⟨hz, hall, by rw [hl]⟩
    · next hnz =>
      cases h
      exact .inl ⟨hnz, rfl⟩

omit [FloatOps F] in
theorem showFaces_ok (h : showFaces cfg g = .ok g') :
    shownFaces cfg g.gThreads.vals = .ok g'.gFacesInCurrentFrame ∧
      g' = { g with gFacesInCurrentFrame := g'.gFacesInCurrentFrame } := by
  obtain ⟨fs, hfs, rfl⟩ := map_eq_ok.mp h
  exact ⟨hfs, rfl⟩

omit [FloatOps F] in
/-- The faces shown are the last faces of the shown threads, in thread order. -/
theorem shownFaces_ok {ths : List FDFaceThread} {fs : List Face}
    (h : shownFaces cfg ths = .ok fs) :
    List.Forall₂ (fun th f => th.pFaces.getLast? = some f) (ths.filter (isShown cfg)) fs := by
  induction ths generalizing fs with
  | nil =>
    cases h
    exact .nil
  | cons th ths ih =>
    simp only [shownFaces] at h
    split at h
    · next hs =>
      obtain ⟨f, hf, h⟩ := bind_eq_ok.mp h
      obtain ⟨fs', hfs, h⟩ := bind_eq_ok.mp h
      cases h
      rw [List.filter_cons_of_pos hs]
      exact .cons (FDFaceThread.back_eq_ok.mp hf) (ih hfs)
    · next hs =>
      rw [List.filter_cons_of_neg hs]
      exact ih h

omit [FloatOps F] in
theorem shownFaces_total {ths : List FDFaceThread} (h : ∀ th ∈ ths, th.pFaces ≠ []) :
    ∃ fs, shownFaces cfg ths = .ok fs := by
  induction ths with
  | nil => exact ⟨_, rfl⟩
  | cons th ths ih =>
    obtain ⟨fs, hfs⟩ := ih fun t ht => h t (List.mem_cons_of_mem _ ht)
    simp only [shownFaces]
    split
    · exact ⟨_, by rw [FDFaceThread.back_of_ne_nil (h th List.mem_cons_self), hfs]; rfl⟩
    · exact ⟨fs, hfs⟩

/-- The stages of a frame. -/
theorem fdProcessFaces_ok (h : fdProcessFaces cfg g inp = .ok g') :
    ∃ g₁ g₂, processFrame cfg g inp = .ok g₁ ∧ pruneThreads cfg g₁ = .ok g₂ ∧
      showFaces cfg g₂ = .ok g' := by
  obtain ⟨g₁, h₁, h⟩ := bind_eq_ok.mp h
  obtain ⟨g₂, h₂, h⟩ := bind_eq_ok.mp h
  exact ⟨g₁, g₂, h₁, h₂, h⟩

end

end PlanetariumFD
