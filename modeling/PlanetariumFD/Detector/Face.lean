import PlanetariumFD.Detector.Arithmetic

/-!
# Faces, face threads and settings

The records of `FaceProcessor.h`, the geometry that compares two rectangles, and
the settings of `FaceProcessorConfig.h`. Integers are unbounded, except for the
frame counter, whose overflow and whose use of `INT_MAX` are modelled.
-/

namespace PlanetariumFD

/-- What stops the program: a failed assertion, or an operation the language
leaves undefined. -/
inductive Fault
  | signedOverflow
  | remainderByZero
  | indexOutOfRange
  | danglingPointer
  | nullImage
  | backOfEmptyList
  | popOfEmptyList
  /-- `assert(itr_to_del != gThreads.end())` -/
  | assertThreadToDelete
  /-- `assert(!itr->_pFaces.empty())` -/
  | assertFacesNonempty
  /-- `assert(min_frame_id != INT_MAX)` -/
  | assertMinFound
  /-- `assert(itr != gHistory.end())` and `assert(!gHistory.empty())` -/
  | assertHistoryNonempty
  /-- `assert(history_itr != gHistory.end())` -/
  | assertHistoryItr
  /-- `assert(history_itr->frame_id == faces_itr->frame_id)` -/
  | assertFrameId
  /-- `assert(false)` of `deleteThreadFromgThreads_beingSerialized` -/
  | assertThreadFound
  /-- `assert(found)` of the playback loop -/
  | assertFound
  deriving DecidableEq, Repr

def intMax : Int := 2147483647

structure CvRect where
  x : Int
  y : Int
  width : Int
  height : Int
  deriving DecidableEq, Repr

structure CvPoint where
  x : Int
  y : Int
  deriving DecidableEq, Repr

def nullRect : CvRect := ⟨-1, -1, -1, -1⟩

def defaultFaceFrameId : Int := -1

structure Face extends CvRect where
  frameId : Int
  deriving DecidableEq, Repr

def nullFace : Face := { nullRect with frameId := defaultFaceFrameId }

/-- A face thread. `ident` numbers the `addNewThread` call that made it; it is
copied with the record and no code reads it. -/
structure FDFaceThread where
  pFaces : List Face
  totalCount : Int
  missedCount : Int
  nonMissedCount : Int
  consecutiveMissedCount : Int
  ident : Nat
  deriving DecidableEq, Repr

def newThread (ident : Nat) : FDFaceThread := ⟨[], 0, 0, 0, 0, ident⟩

structure IplImage where
  width : Int
  height : Int
  depth : Int
  nChannels : Int
  origin : Int
  deriving DecidableEq, Repr

/-- A history entry. Its sequence is the entry's own copy of the detector's. -/
structure FDHistoryEntry where
  frameId : Int
  pFrame : Option IplImage
  pFacesSeq : List CvRect
  deriving DecidableEq, Repr

/-- The tunables of `FaceProcessorConfig.h`, in the order `initConfig` reads them. -/
structure Config (F : Type) where
  oPath : String
  minFramesForVideo : Int
  faceVideoSize : Int
  maxJpgImagesSavedPerThread : Int
  fpsSpeedupFactor : F
  initialFps : F
  sampleTimeEveryXFrames : Int
  pruneFacesInterval : Int
  maxAllowedMissedCount : Int
  maxAllowedConsecutiveMisses : Int
  distThresh : F
  veryCloseDistThresh : F
  minFaceOccurencesThresh : Int
  videoOutputFormat : Int
  pruneHistoryEveryMs : Int
  maxThreadHistorySize : Int

section
variable {F : Type} [FloatOps F]

/-- The values the tunables are declared with. -/
def Config.declared : Config F where
  oPath := ""
  minFramesForVideo := 12
  faceVideoSize := 150
  maxJpgImagesSavedPerThread := 1
  fpsSpeedupFactor := FloatOps.ofInt 1
  initialFps := FloatOps.ofInt 6
  sampleTimeEveryXFrames := 71
  pruneFacesInterval := 31
  maxAllowedMissedCount := 10
  maxAllowedConsecutiveMisses := 3
  distThresh := FloatOps.ofInt 100
  veryCloseDistThresh := FloatOps.ofInt 100 / FloatOps.ofInt 4
  minFaceOccurencesThresh := 3
  videoOutputFormat := -1
  pruneHistoryEveryMs := 1000
  maxThreadHistorySize := 200

def getRectCenter (r : CvRect) : CvPoint :=
  ⟨r.x + r.width.tdiv 2, r.y + r.height.tdiv 2⟩

def getDistance (p1 p2 : CvPoint) : F :=
  let dx : F := FloatOps.ofInt (p2.x - p1.x)
  let dy : F := FloatOps.ofInt (p2.y - p1.y)
  FloatOps.sqrt (dx * dx + dy * dy)

def getSizeDiff (refFace thFace : CvRect) : F :=
  let refArea : F := FloatOps.ofInt (refFace.height * refFace.width)
  let thArea : F := FloatOps.ofInt (thFace.height * thFace.width)
  thArea / refArea

end

/-- `_pFaces.back()` -/
def FDFaceThread.back (th : FDFaceThread) : Except Fault Face :=
  match th.pFaces.getLast? with
  | some f => .ok f
  | none => .error .backOfEmptyList

/-- The loop of `pruneFacesList`: drop faces at the front while the list is
longer than `maxSize`. -/
def popWhileLonger (maxSize : Int) : List Face → Except Fault (List Face)
  | [] => if 0 > maxSize then .error .popOfEmptyList else .ok []
  | f :: fs =>
    if ((f :: fs).length : Int) > maxSize then popWhileLonger maxSize fs else .ok (f :: fs)

def FDFaceThread.pruneFacesList {F : Type} (cfg : Config F) (th : FDFaceThread) :
    Except Fault FDFaceThread :=
  (popWhileLonger cfg.maxThreadHistorySize th.pFaces).map fun fs => { th with pFaces := fs }

/-- A non-negative limit keeps the newest `maxSize` faces. -/
theorem popWhileLonger_eq {maxSize : Int} (h : 0 ≤ maxSize) (fs : List Face) :
    popWhileLonger maxSize fs = .ok (fs.drop (fs.length - maxSize.toNat)) := by
  induction fs with
  | nil => simp [popWhileLonger, h]
  | cons f fs ih =>
    rw [popWhileLonger]
    split
    · next hlong =>
      have hd : (f :: fs).length - maxSize.toNat = fs.length - maxSize.toNat + 1 := by
        simp only [List.length_cons] at hlong ⊢
        omega
      rw [ih, hd, List.drop_succ_cons]
    · next hshort =>
      have hd : (f :: fs).length - maxSize.toNat = 0 := by omega
      rw [hd, List.drop_zero]

/-- A negative limit drains the list and pops once more. -/
theorem popWhileLonger_of_neg {maxSize : Int} (h : maxSize < 0) (fs : List Face) :
    popWhileLonger maxSize fs = .error .popOfEmptyList := by
  induction fs with
  | nil => simp [popWhileLonger, h]
  | cons f fs ih =>
    rw [popWhileLonger, if_pos (by simp only [List.length_cons]; omega), ih]

section
variable {F : Type} {cfg : Config F} {th th' : FDFaceThread}

/-- The record `pruneFacesList` leaves for a non-negative limit. -/
def FDFaceThread.pruned (cfg : Config F) (th : FDFaceThread) : FDFaceThread :=
  { th with pFaces := th.pFaces.drop (th.pFaces.length - cfg.maxThreadHistorySize.toNat) }

theorem FDFaceThread.pruneFacesList_eq (h : 0 ≤ cfg.maxThreadHistorySize) :
    th.pruneFacesList cfg = .ok (th.pruned cfg) := by
  simp [pruneFacesList, popWhileLonger_eq h, Except.map, pruned]

theorem FDFaceThread.pruneFacesList_ok (h : th.pruneFacesList cfg = .ok th') :
    0 ≤ cfg.maxThreadHistorySize ∧ th' = th.pruned cfg := by
  by_cases hneg : cfg.maxThreadHistorySize < 0
  · simp [pruneFacesList, popWhileLonger_of_neg hneg, Except.map] at h
  · rw [pruneFacesList_eq (by omega), Except.ok.injEq] at h
    exact ⟨by omega, h.symm⟩

theorem FDFaceThread.pruned_suffix : (th.pruned cfg).pFaces <:+ th.pFaces :=
  List.drop_suffix _ _

theorem FDFaceThread.pruned_ne_nil (h : 1 ≤ cfg.maxThreadHistorySize) (hn : th.pFaces ≠ []) :
    (th.pruned cfg).pFaces ≠ [] := by
  have := List.length_pos_iff.mpr hn
  rw [← List.length_pos_iff, pruned, List.length_drop]
  omega

end

end PlanetariumFD
