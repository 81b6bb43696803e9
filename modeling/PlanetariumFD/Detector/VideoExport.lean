import PlanetariumFD.Detector.HistoryWalk
import PlanetariumFD.Detector.OutputNames

/-!
# `saveThreadVideo`

One call from its first test to its return, on a history that stands still. What
OpenCV answers is an input, and so is the series number the call has taken.
-/

namespace PlanetariumFD

open Outcome

/-- `thread._pFaces` and `my_faces_copy`. -/
structure FaceLists where
  pFaces : List Face
  myFacesCopy : List Face

namespace FaceLists

/-- The list that the reference `my_faces` names. -/
def myFaces (isSmoothVideo : Bool) (l : FaceLists) : List Face :=
  if isSmoothVideo then l.myFacesCopy else l.pFaces

def setMyFaces (isSmoothVideo : Bool) (l : FaceLists) (faces : List Face) : FaceLists :=
  if isSmoothVideo then { l with myFacesCopy := faces } else { l with pFaces := faces }

end FaceLists

structure CvSize where
  width : Int
  height : Int
  deriving DecidableEq, Repr

/-- A frame of the video: the entry's image within `roi`, resized. -/
structure VideoFrame where
  entry : FDHistoryEntry
  roi : CvRect
  size : CvSize
  deriving DecidableEq, Repr

/-- The arguments of `cvCreateVideoWriter`. -/
structure VideoWriter (F : Type) where
  filenameWithPath : List Char
  fps : F
  size : CvSize

/-- What OpenCV answers; `cvWriteFrame n` is the answer once `n` frames are written. -/
structure VideoAnswers where
  cvCreateImage : Bool
  cvCreateVideoWriter : Bool
  cvWriteFrame : Nat → Bool

/-- A call that has returned. -/
structure VideoCall (F : Type) where
  pFaces : List Face
  writer : Option (VideoWriter F)
  frames : List VideoFrame
  outputFilename : List Char
  returned : Bool

/-- The loop over the faces; `frames` is what has been written. -/
def writeFrames (size : CvSize) (cvWriteFrame : Nat → Bool) :
    List FDHistoryEntry → List Face → List VideoFrame → Except Fault (List VideoFrame × Bool)
  | _, [], frames => .ok (frames, true)
  | [], _ :: _, _ => .error .assertHistoryItr
  | entry :: entries, f :: fs, frames =>
    if entry.frameId < f.frameId then writeFrames size cvWriteFrame entries (f :: fs) frames
    else if entry.frameId ≠ f.frameId then .error .assertFrameId
    else if entry.pFrame = none then .error .nullImage
    else if cvWriteFrame frames.length then
      writeFrames size cvWriteFrame entries fs (frames ++ [⟨entry, f.toCvRect, size⟩])
    else .ok (frames, false)

section
variable {F : Type} [FloatOps F]

/-- The block under `if (isSmoothVideo)`. -/
def smoothMyFaces (isSmoothVideo : Bool) (l : FaceLists) : Except Fault FaceLists :=
  if isSmoothVideo then do
    let r ← addMissingFrames (F := F) (l.myFaces isSmoothVideo)
    let l := l.setMyFaces isSmoothVideo r.1
    let faces ← smoothFaceSeries (F := F) (l.myFaces isSmoothVideo)
    .ok (l.setMyFaces isSmoothVideo faces)
  else .ok l

/-- `owidth` and `oheight`: the setting, or the largest width and height. -/
def outputSize (cfg : Config F) (f : Face) (fs : List Face) : CvSize :=
  if cfg.faceVideoSize ≠ 0 then ⟨cfg.faceVideoSize, cfg.faceVideoSize⟩
  else ⟨(f :: fs).foldl (fun owidth g => if owidth < g.width then g.width else owidth) f.width,
    (f :: fs).foldl (fun oheight g => if oheight < g.height then g.height else oheight) f.height⟩

def videoFps (cfg : Config F) (estimatedFps : F) : F :=
  let fps := estimatedFps * cfg.fpsSpeedupFactor
  if FloatOps.lt fps (FloatOps.ofInt 2) then FloatOps.ofInt 2 else fps

def saveThreadVideo (cfg : Config F) (baseOfilename : List Char) (estimatedFps : F)
    (gHistory : List FDHistoryEntry) (mySeriesNum : Nat) (answers : VideoAnswers)
    (pFaces : List Face) (outputFilename : List Char) (isSmoothVideo : Bool) :
    Except Fault (VideoCall F) :=
  if (pFaces.length : Int) < cfg.minFramesForVideo then
    .ok ⟨pFaces, none, [], outputFilename, false⟩
  else if pFaces = [] then .ok ⟨pFaces, none, [], outputFilename, false⟩
  else do
    let l ← smoothMyFaces (F := F) isSmoothVideo ⟨pFaces, if isSmoothVideo then pFaces else []⟩
    match l.myFaces isSmoothVideo with
    -- `my_faces.front()` of an empty list
    | [] => .error .danglingPointer
    | f :: fs =>
      if gHistory = [] then .error .assertHistoryNonempty
      else match ← seekEntry f.frameId gHistory with
        | [] => .error .assertHistoryItr
        | entry :: entries =>
          if entry.frameId ≠ f.frameId then .error .assertFrameId
          else if entry.pFrame = none then .error .nullImage
          else if answers.cvCreateImage = false then
            .ok ⟨l.pFaces, none, [], outputFilename, false⟩
          else
            let filename := OutputName.video mySeriesNum isSmoothVideo
            let size := outputSize cfg f fs
            let writer : VideoWriter F :=
              ⟨filename.path cfg.oPath.toList baseOfilename, videoFps cfg estimatedFps, size⟩
            if answers.cvCreateVideoWriter = false then
              .ok ⟨l.pFaces, some writer, [], outputFilename, false⟩
            else do
              let (frames, returned) ←
                writeFrames size answers.cvWriteFrame (entry :: entries) (f :: fs) []
              .ok ⟨l.pFaces, some writer, frames,
                if returned then filename.text baseOfilename else outputFilename, returned⟩

end

/-! ## The loop -/

/-- The frame shows the face in its own frame's image. -/
def VideoFrame.Shows (history : List FDHistoryEntry) (size : CvSize) (f : Face) (fr : VideoFrame) :
    Prop :=
  fr.entry ∈ history ∧ fr.entry.frameId = f.frameId ∧ fr.roi = f.toCvRect ∧ fr.size = size

section
variable {history entries : List FDHistoryEntry} {faces : List Face}

/-- In step, the loop writes a frame for each face up to the first that fails. -/
theorem writeFrames_ok (size : CvSize) (cvWriteFrame : Nat → Bool) (h : InStep entries faces)
    (hsub : entries ⊆ history) (frames : List VideoFrame) : ∃ n new,
      writeFrames size cvWriteFrame entries faces frames =
        .ok (frames ++ new, decide (n = faces.length)) ∧
      n ≤ faces.length ∧ List.Forall₂ (VideoFrame.Shows history size) (faces.take n) new ∧
      (∀ i < n, cvWriteFrame (frames.length + i) = true) ∧
      (n < faces.length → cvWriteFrame (frames.length + n) = false) := by
  induction h generalizing frames with
  | done entries =>
    refine ⟨0, [], ?_, le_refl 0, .nil, fun i hi => absurd hi (Nat.not_lt_zero i),
      fun hlt => absurd hlt (Nat.not_lt_zero 0)⟩
    simp [writeFrames]
  | @skip entry entries f faces lt rest ih =>
    rw [writeFrames, if_pos lt]
    exact ih (List.Subset.trans (List.subset_cons_self _ _) hsub) frames
  | @take entry entries f faces eq image rest ih =>
    rw [writeFrames, if_neg eq.not_lt, if_neg (not_not.mpr eq), if_neg image]
    by_cases hw : cvWriteFrame frames.length = true
    · obtain ⟨n, new, hrun, hn, hshows, hall, hstop⟩ :=
        ih (List.Subset.trans (List.subset_cons_self _ _) hsub)
          (frames ++ [⟨entry, f.toCvRect, size⟩])
      rw [List.length_append, List.length_singleton] at hall hstop
      refine ⟨n + 1, ⟨entry, f.toCvRect, size⟩ :: new, ?_, ?_, ?_, fun i hi => ?_, fun hlt => ?_⟩
      · rw [if_pos hw, hrun, List.append_assoc, List.singleton_append]
        simp
      · rw [List.length_cons]
        omega
      · rw [List.take_succ_cons]
        exact .cons ⟨hsub List.mem_cons_self, eq, rfl, rfl⟩ hshows
      · cases i with
        | zero => exact hw
        | succ i =>
          have hnext := hall i (by omega)
          rwa [add_assoc, add_comm 1 i] at hnext
      · rw [List.length_cons] at hlt
        have hnext := hstop (by omega)
        rwa [add_assoc, add_comm 1 n] at hnext
    · refine ⟨0, [], ?_, Nat.zero_le _, .nil, fun i hi => absurd hi (Nat.not_lt_zero i),
        fun _ => Bool.eq_false_iff.mpr hw⟩
      rw [if_neg hw]
      simp

end

/-! ## The call -/

section
variable {F : Type} [FloatOps F] {cfg : Config F} {history : List FDHistoryEntry}
  {answers : VideoAnswers} {pFaces : List Face}

theorem smoothMyFaces_pFaces {isSmoothVideo : Bool} {l l' : FaceLists}
    (h : smoothMyFaces (F := F) isSmoothVideo l = .ok l') : l'.pFaces = l.pFaces := by
  cases isSmoothVideo with
  | false =>
    cases h
    rfl
  | true =>
    obtain ⟨r, -, h⟩ := bind_eq_ok.mp h
    obtain ⟨faces, -, h⟩ := bind_eq_ok.mp h
    cases h
    rfl

/-- The faces that are cropped. -/
def walkedFaces (isSmoothVideo : Bool) (pFaces : List Face) : Except Fault (List Face) :=
  if isSmoothVideo then smoothedFaces (F := F) pFaces else .ok pFaces

/-- What smoothing leaves is the list to be cropped. -/
theorem walkedFaces_of_smoothMyFaces {isSmoothVideo : Bool} {l : FaceLists}
    (h : smoothMyFaces (F := F) isSmoothVideo ⟨pFaces, if isSmoothVideo then pFaces else []⟩ =
      .ok l) : walkedFaces (F := F) isSmoothVideo pFaces = .ok (l.myFaces isSmoothVideo) := by
  cases isSmoothVideo with
  | false =>
    cases h
    rfl
  | true =>
    obtain ⟨r, hr, h⟩ := bind_eq_ok.mp h
    obtain ⟨faces, hfaces, h⟩ := bind_eq_ok.mp h
    cases h
    show (addMissingFrames (F := F) pFaces >>= fun r => smoothFaceSeries (F := F) r.1) = _
    have hr' : addMissingFrames (F := F) pFaces = .ok r := hr
    rw [hr', ok_bind]
    exact hfaces

/-- Smoothing changes the copy only. -/
theorem smoothMyFaces_ok {isSmoothVideo : Bool} {faces : List Face}
    (h : walkedFaces (F := F) isSmoothVideo pFaces = .ok faces) :
    ∃ l, smoothMyFaces (F := F) isSmoothVideo ⟨pFaces, if isSmoothVideo then pFaces else []⟩ = .ok l ∧
      l.pFaces = pFaces ∧ l.myFaces isSmoothVideo = faces := by
  cases isSmoothVideo with
  | false =>
    cases h
    exact ⟨_, rfl, rfl, rfl⟩
  | true =>
    obtain ⟨r, hr, hsmooth⟩ := bind_eq_ok.mp h
    refine ⟨⟨pFaces, faces⟩, ?_, rfl, rfl⟩
    show (addMissingFrames (F := F) pFaces >>= fun r => _) = _
    rw [hr, ok_bind]
    show (smoothFaceSeries (F := F) r.1 >>= fun faces => _) = _
    rw [hsmooth, ok_bind]
    rfl

/-- The writer that a call opens for the faces `f :: fs`. -/
def openedWriter (cfg : Config F) (baseOfilename : List Char) (estimatedFps : F)
    (mySeriesNum : Nat) (isSmoothVideo : Bool) (f : Face) (fs : List Face) : VideoWriter F :=
  ⟨(OutputName.video mySeriesNum isSmoothVideo).path cfg.oPath.toList baseOfilename,
    videoFps cfg estimatedFps, outputSize cfg f fs⟩

/-- How a call ends that has come to the entry of its first face. -/
inductive VideoEnd (cfg : Config F) (baseOfilename outputFilename : List Char) (estimatedFps : F)
    (mySeriesNum : Nat) (answers : VideoAnswers) (isSmoothVideo : Bool) (pFaces : List Face)
    (f : Face) (fs : List Face) (itr : List FDHistoryEntry) : VideoCall F → Prop
  | noImage (h : answers.cvCreateImage = false) :
    VideoEnd cfg baseOfilename outputFilename estimatedFps mySeriesNum answers isSmoothVideo pFaces
      f fs itr ⟨pFaces, none, [], outputFilename, false⟩
  | noWriter (himage : answers.cvCreateImage = true) (h : answers.cvCreateVideoWriter = false) :
    VideoEnd cfg baseOfilename outputFilename estimatedFps mySeriesNum answers isSmoothVideo pFaces
      f fs itr ⟨pFaces, openedWriter cfg baseOfilename estimatedFps mySeriesNum isSmoothVideo f fs,
        [], outputFilename, false⟩
  | written {frames : List VideoFrame} {returned : Bool} (himage : answers.cvCreateImage = true)
    (hwriter : answers.cvCreateVideoWriter = true)
    (h : writeFrames (outputSize cfg f fs) answers.cvWriteFrame itr (f :: fs) [] =
      .ok (frames, returned)) :
    VideoEnd cfg baseOfilename outputFilename estimatedFps mySeriesNum answers isSmoothVideo pFaces
      f fs itr ⟨pFaces, openedWriter cfg baseOfilename estimatedFps mySeriesNum isSmoothVideo f fs,
        frames, if returned then (OutputName.video mySeriesNum isSmoothVideo).text baseOfilename
          else outputFilename, returned⟩

/-- A call that returns was over before the history, or it came to the entry of the first
face and then to an allocation that failed or to the end of its loop. -/
theorem saveThreadVideo_cases {baseOfilename outputFilename : List Char} {estimatedFps : F}
    {mySeriesNum : Nat} {isSmoothVideo : Bool} {call : VideoCall F}
    (h : saveThreadVideo cfg baseOfilename estimatedFps history mySeriesNum answers pFaces
      outputFilename isSmoothVideo = .ok call) :
    (((pFaces.length : Int) < cfg.minFramesForVideo ∨ pFaces = []) ∧
      call = ⟨pFaces, none, [], outputFilename, false⟩) ∨
    pFaces ≠ [] ∧ ∃ f fs entry entries,
      walkedFaces (F := F) isSmoothVideo pFaces = .ok (f :: fs) ∧
      seekEntry f.frameId history = .ok (entry :: entries) ∧ entry.frameId = f.frameId ∧
      entry.pFrame ≠ none ∧ VideoEnd cfg baseOfilename outputFilename estimatedFps mySeriesNum
        answers isSmoothVideo pFaces f fs (entry :: entries) call := by
  unfold saveThreadVideo at h
  split at h
  · next hlen =>
    cases h
    exact .inl ⟨.inl hlen, rfl⟩
  · split at h
    · next hnil =>
      cases h
      exact .inl ⟨.inr hnil, rfl⟩
    · next hne =>
      obtain ⟨l, hl, h⟩ := bind_eq_ok.mp h
      have hsame : l.pFaces = pFaces := smoothMyFaces_pFaces hl
      have hwalked := walkedFaces_of_smoothMyFaces hl
      rw [hsame] at h
      split at h
      · cases h
      · next f fs hfaces =>
        rw [hfaces] at hwalked
        split at h
        · cases h
        · obtain ⟨itr, hseek, h⟩ := bind_eq_ok.mp h
          split at h
          · cases h
          · next entry entries =>
            split at h
            · cases h
            · next hid =>
              split at h
              · cases h
              · next himage =>
                refine .inr ⟨hne, f, fs, entry, entries, hwalked, hseek, not_not.mp hid, himage, ?_⟩
                split at h
                · next hno =>
                  cases h
                  exact .noImage hno
                · next hallocated =>
                  dsimp only at h
                  split at h
                  · next hno =>
                    cases h
                    exact .noWriter (Bool.eq_true_of_not_eq_false hallocated) hno
                  · next hopened =>
                    obtain ⟨⟨frames, returned⟩, hloop, h⟩ := bind_eq_ok.mp h
                    cases h
                    exact .written (Bool.eq_true_of_not_eq_false hallocated)
                      (Bool.eq_true_of_not_eq_false hopened) hloop

/-- No call changes the list of its thread, however it ends. -/
theorem saveThreadVideo_pFaces {baseOfilename outputFilename : List Char} {estimatedFps : F}
    {mySeriesNum : Nat} {isSmoothVideo : Bool} {call : VideoCall F}
    (h : saveThreadVideo cfg baseOfilename estimatedFps history mySeriesNum answers pFaces
      outputFilename isSmoothVideo = .ok call) : call.pFaces = pFaces := by
  obtain ⟨-, rfl⟩ | ⟨-, f, fs, entry, entries, -, -, -, -, hend⟩ := saveThreadVideo_cases h
  · rfl
  · cases hend <;> rfl

/-- The faces that are cropped increase, and keep within the frames of the thread. -/
theorem walkedFaces_ok (isSmoothVideo : Bool) (hne : pFaces ≠ [])
    (increasing : pFaces.Pairwise fun f f' => f.frameId < f'.frameId) :
    ∃ faces, walkedFaces (F := F) isSmoothVideo pFaces = .ok faces ∧ faces ≠ [] ∧
      (faces.Pairwise fun f f' => f.frameId < f'.frameId) ∧
      (∀ g ∈ faces, (pFaces.head hne).frameId ≤ g.frameId ∧
        g.frameId ≤ (pFaces.getLast hne).frameId) ∧
      (isSmoothVideo = true → faces.map Face.frameId = (List.range (spanLength pFaces)).map
        fun k : Nat => (pFaces.head hne).frameId + k) := by
  have within : ∀ g ∈ pFaces, (pFaces.head hne).frameId ≤ g.frameId ∧
      g.frameId ≤ (pFaces.getLast hne).frameId := fun g hg => within_of_mem increasing hne hg
  cases isSmoothVideo with
  | false => exact ⟨pFaces, rfl, hne, increasing, within, fun h => by cases h⟩
  | true =>
    obtain ⟨out, hout, hsorted, hwithin, hids⟩ := smoothedFaces_ok (F := F) hne increasing
    refine ⟨out, hout, ?_, hsorted, hwithin, fun _ => hids⟩
    rintro rfl
    have hlen := congrArg List.length hids
    rw [List.length_map, List.length_map, List.length_range, List.length_nil] at hlen
    exact absurd hlen (spanLength_pos hne increasing).ne

/-- A call under which writer and image are allocated gets to its loop, in step with the
history. -/
theorem saveThreadVideo_eq (baseOfilename outputFilename : List Char) (estimatedFps : F)
    (mySeriesNum : Nat) {isSmoothVideo : Bool} {f : Face} {fs : List Face}
    (hlen : cfg.minFramesForVideo ≤ pFaces.length) (hne : pFaces ≠ [])
    (himage : answers.cvCreateImage = true) (hwriter : answers.cvCreateVideoWriter = true)
    (hwalked : walkedFaces (F := F) isSmoothVideo pFaces = .ok (f :: fs))
    {entry : FDHistoryEntry} {entries : List FDHistoryEntry}
    (hseek : seekEntry f.frameId history = .ok (entry :: entries))
    (hid : entry.frameId = f.frameId) (hframe : entry.pFrame ≠ none) (hhist : history ≠ [])
    {frames : List VideoFrame} {returned : Bool}
    (hloop : writeFrames (outputSize cfg f fs) answers.cvWriteFrame (entry :: entries) (f :: fs) [] =
      .ok (frames, returned)) :
    ∃ writer, saveThreadVideo cfg baseOfilename estimatedFps history mySeriesNum answers pFaces
        outputFilename isSmoothVideo =
      .ok ⟨pFaces, some writer, frames,
        if returned then (OutputName.video mySeriesNum isSmoothVideo).text baseOfilename
        else outputFilename, returned⟩ := by
  obtain ⟨l, hl, hsame, hfaces⟩ := smoothMyFaces_ok hwalked
  refine ⟨⟨(OutputName.video mySeriesNum isSmoothVideo).path cfg.oPath.toList baseOfilename,
    videoFps cfg estimatedFps, outputSize cfg f fs⟩, ?_⟩
  rw [saveThreadVideo, if_neg (by omega), if_neg hne, hl, ok_bind, hfaces]
  simp only [if_neg hhist, hseek, ok_bind, hid, hframe, himage, hwriter, ne_eq, not_true, if_false,
    Bool.true_eq_false, hloop, hsame]

/-- The call's frames, its result and the caller's file name, by the answers of
`cvWriteFrame`. -/
structure WritesFaces (history : List FDHistoryEntry) (cvWriteFrame : Nat → Bool)
    (faces : List Face) (size : CvSize) (filename outputFilename : List Char) (call : VideoCall F) :
    Prop where
  all : (∀ i < faces.length, cvWriteFrame i = true) → call.returned = true ∧
    List.Forall₂ (VideoFrame.Shows history size) faces call.frames ∧ call.outputFilename = filename
  upTo : ∀ j < faces.length, (∀ i < j, cvWriteFrame i = true) → cvWriteFrame j = false →
    call.returned = false ∧
      List.Forall₂ (VideoFrame.Shows history size) (faces.take j) call.frames ∧
      call.outputFilename = outputFilename

/-- Each face is written from the history entry of its own frame, in order, up to the
first write that fails; the smoothed video has every frame of the thread's span. -/
theorem saveThreadVideo_law (cfg : Config F) (baseOfilename outputFilename : List Char)
    (estimatedFps : F) (mySeriesNum : Nat) (isSmoothVideo : Bool)
    (hlen : cfg.minFramesForVideo ≤ pFaces.length) (hne : pFaces ≠ [])
    (increasing : pFaces.Pairwise fun f f' => f.frameId < f'.frameId)
    (covers : Covers history pFaces) (himage : answers.cvCreateImage = true)
    (hwriter : answers.cvCreateVideoWriter = true) :
    ∃ faces size call, walkedFaces (F := F) isSmoothVideo pFaces = .ok faces ∧
      saveThreadVideo cfg baseOfilename estimatedFps history mySeriesNum answers pFaces
        outputFilename isSmoothVideo = .ok call ∧
      call.pFaces = pFaces ∧
      WritesFaces history answers.cvWriteFrame faces size
        ((OutputName.video mySeriesNum isSmoothVideo).text baseOfilename) outputFilename call ∧
      (isSmoothVideo = true →
        (faces.length : Int) = (pFaces.getLast hne).frameId - (pFaces.head hne).frameId + 1 ∧
        faces.map Face.frameId =
          (List.range faces.length).map fun k : Nat => (pFaces.head hne).frameId + k) := by
  obtain ⟨faces, hwalked, hfaces, hsorted, within, hspan⟩ :=
    walkedFaces_ok (F := F) isSmoothVideo hne increasing
  obtain ⟨f, fs, rfl⟩ := List.exists_cons_of_ne_nil hfaces
  have hmem : ∀ g ∈ f :: fs, g.frameId ∈ history.map FDHistoryEntry.frameId := fun g hg =>
    covers.mem_of_within hne (within g hg).1 (within g hg).2
  obtain ⟨entry, entries, hseek, hid, hsub, hstep⟩ :=
    seekEntry_ok covers.sorted covers.images hsorted hmem
  have hentry : entry ∈ history := hsub List.mem_cons_self
  obtain ⟨n, frames, hloop, hn, hshows, hall, hstop⟩ :=
    writeFrames_ok (outputSize cfg f fs) answers.cvWriteFrame hstep hsub []
  obtain ⟨writer, hcall⟩ := saveThreadVideo_eq baseOfilename outputFilename estimatedFps mySeriesNum
    hlen hne himage hwriter hwalked hseek hid (covers.images _ hentry) (List.ne_nil_of_mem hentry)
    hloop
  simp only [List.length_nil, zero_add] at hall hstop
  refine ⟨f :: fs, outputSize cfg f fs, _, hwalked, hcall, saveThreadVideo_pFaces hcall,
    ⟨fun hok => ?_, fun j hj hbefore hfail => ?_⟩, fun hs => ?_⟩
  · have hend : n = (f :: fs).length := by
      by_contra hne
      have hlt : n < (f :: fs).length := by omega
      exact absurd (hok n hlt) (by rw [hstop hlt]; exact Bool.false_ne_true)
    rw [hend, List.take_length] at hshows
    exact ⟨decide_eq_true hend, hshows, if_pos (decide_eq_true hend)⟩
  · have hend : n = j := by
      obtain hlt | heq | hgt := lt_trichotomy n j
      · exact absurd (hbefore n hlt) (by rw [hstop (hlt.trans hj)]; exact Bool.false_ne_true)
      · exact heq
      · exact absurd (hall j hgt) (by rw [hfail]; exact Bool.false_ne_true)
    have hshort : decide (n = (f :: fs).length) = false := decide_eq_false (by omega)
    rw [hend] at hshows
    exact ⟨hshort, hshows, if_neg (by rw [hshort]; exact Bool.false_ne_true)⟩
  · have hids := hspan hs
    have hle := (within f List.mem_cons_self)
    have hlength : (f :: fs).length = spanLength pFaces := by
      rw [← List.length_map Face.frameId, hids, List.length_map, List.length_range]
    refine ⟨?_, by rw [hlength]; exact hids⟩
    rw [hlength]
    exact spanLength_eq hne increasing

end

/-- The third write of the smoothed video fails. -/
theorem saveThreadVideo_thirdWrite :
    ∃ faces size call, walkedFaces (F := ℚ) true twoFaces = .ok faces ∧
      saveThreadVideo { Config.declared with minFramesForVideo := 2 } ['v'] (4 : ℚ) fiveFrames 1
        ⟨true, true, fun n => n < 2⟩ twoFaces [] true = .ok call ∧
      call.pFaces = twoFaces ∧
      WritesFaces fiveFrames (fun n => n < 2) faces size
        ((OutputName.video 1 true).text ['v']) [] call ∧
      (true = true → (faces.length : Int) = 4 - 2 + 1 ∧ faces.map Face.frameId =
        (List.range faces.length).map fun k : Nat => (2 : Int) + k) :=
  saveThreadVideo_law _ _ _ _ _ _ (by decide) (by decide) (by decide) covers_fiveFrames rfl rfl

end PlanetariumFD
