import PlanetariumFD.Foundation.Transition
import PlanetariumFD.Detector.ImageExport
import PlanetariumFD.Detector.SaveJob
import PlanetariumFD.Detector.VideoExport

/-!
# An export, turn by turn

A call of `saveThreadVideo` or `saveThreadImages` on the history as it stands is what
the turns of the save job come to when no other party steps between them: the same
images and frames in the same files, the same series number, the same result.
-/

namespace PlanetariumFD

open Outcome Transition

/-- What OpenCV answers in the course of a job. -/
structure SaveAnswers where
  cvSaveImage : Nat → Bool
  video : Bool → VideoAnswers

/-- `++image_series_cnt`, a 32-bit `long`. -/
def nextSeries (imageSeriesCnt : Nat) : Except Fault Nat :=
  if (imageSeriesCnt : Int) < intMax then .ok (imageSeriesCnt + 1) else .error .signedOverflow

/-! ## The locals of a job -/

/-- An export that has returned, and its series. -/
inductive ExportRecord (F : Type)
  | images (mySeriesNum : Nat) (call : ImageCall)
  | video (mySeriesNum : Nat) (isSmoothVideo : Bool) (call : VideoCall F)

namespace ExportRecord

variable {F : Type}

def returned : ExportRecord F → Bool
  | .images _ call => call.returned
  | .video _ _ call => call.returned

def outputFilename : ExportRecord F → List Char
  | .images _ call => call.outputFilename
  | .video _ _ call => call.outputFilename

end ExportRecord

/-- The locals of the export under way, and the exports that have returned. -/
structure SaveLocals (F : Type) where
  imageSeriesCnt : Nat
  images : ImageLoop
  size : CvSize
  video : VideoCall F
  calls : List (ExportRecord F)

namespace SaveLocals

section
variable {F : Type}

/-- An export has taken its series number. -/
def called (l : SaveLocals F) (mySeriesNum : Nat) (pFaces : List Face) : SaveLocals F :=
  { l with
    imageSeriesCnt := mySeriesNum
    images := ⟨0, 0, [], []⟩
    video := ⟨pFaces, none, [], [], false⟩ }

def imagesReturn (l : SaveLocals F) (returned : Bool) : SaveLocals F :=
  { l with calls := l.calls ++
      [.images l.imageSeriesCnt ⟨l.images.outputFilename, l.images.attempts, returned⟩] }

def videoReturns (l : SaveLocals F) (baseOfilename : List Char) (isSmoothVideo returned : Bool) :
    SaveLocals F :=
  { l with calls := l.calls ++ [.video l.imageSeriesCnt isSmoothVideo { l.video with
      outputFilename :=
        if returned then (OutputName.video l.imageSeriesCnt isSmoothVideo).text baseOfilename else []
      returned := returned }] }

def setImages (l : SaveLocals F) (images : ImageLoop) : SaveLocals F := { l with images := images }

def opened (l : SaveLocals F) (size : CvSize) (writer : VideoWriter F) : SaveLocals F :=
  { l with size := size, video := { l.video with writer := writer } }

def wrote (l : SaveLocals F) (frame : VideoFrame) : SaveLocals F :=
  { l with video := { l.video with frames := l.video.frames ++ [frame] } }

/-- The answer to the call that the next turn makes, if it makes one. -/
def answer (answers : SaveAnswers) (l : SaveLocals F) : JobPC → Bool
  | .saving (.video isSmoothVideo :: _) =>
    (answers.video isSmoothVideo).cvCreateImage && (answers.video isSmoothVideo).cvCreateVideoWriter
  | .walking .images _ _ _ _ => answers.cvSaveImage l.images.attempts.length
  | .walking (.video isSmoothVideo) _ _ _ _ =>
    (answers.video isSmoothVideo).cvWriteFrame l.video.frames.length
  | _ => true

/-- A turn of the loop that saves the images. -/
def walkImages (cfg : Config F) (baseOfilename : List Char) (answers : SaveAnswers) (g : Shared F)
    (historyItr : Option Nat) (faces : List Face) (l : SaveLocals F) : SaveLocals F :=
  match faces with
  | [] => l.imagesReturn (l.images.imageNumSaved > 0)
  | f :: _ =>
    match historyItr.bind g.gHistory.get? with
    | none => l
    | some entry =>
      if entry.frameId < f.frameId then l.setImages l.images.turned
      else
        let wasSucces := answers.cvSaveImage l.images.attempts.length
        let images := saveImage baseOfilename l.imageSeriesCnt entry f wasSucces l.images
        if wasSucces ∧ images.imageNumSaved = cfg.maxJpgImagesSavedPerThread then
          (l.setImages images).imagesReturn true
        else l.setImages images.turned

/-- A turn of the loop that writes the video. -/
def walkVideo (baseOfilename : List Char) (answers : SaveAnswers) (g : Shared F)
    (isSmoothVideo : Bool) (historyItr : Option Nat) (faces : List Face) (l : SaveLocals F) :
    SaveLocals F :=
  match faces with
  | [] => l.videoReturns baseOfilename isSmoothVideo true
  | f :: _ =>
    match historyItr.bind g.gHistory.get? with
    | none => l
    | some entry =>
      if entry.frameId < f.frameId then l
      else if (answers.video isSmoothVideo).cvWriteFrame l.video.frames.length then
        l.wrote ⟨entry, f.toCvRect, l.size⟩
      else l.videoReturns baseOfilename isSmoothVideo false

end

section
variable {F : Type} [FloatOps F]

/-- The allocations of a video whose faces are `f :: fs`. -/
def openVideo (cfg : Config F) (baseOfilename : List Char) (estimatedFps : F)
    (answers : VideoAnswers) (isSmoothVideo : Bool) (f : Face) (fs : List Face)
    (l : SaveLocals F) : SaveLocals F :=
  if answers.cvCreateImage = false then l.videoReturns baseOfilename isSmoothVideo false
  else
    let l := l.opened (outputSize cfg f fs)
      (openedWriter cfg baseOfilename estimatedFps l.imageSeriesCnt isSmoothVideo f fs)
    if answers.cvCreateVideoWriter = false then l.videoReturns baseOfilename isSmoothVideo false
    else l

/-- The turn that calls an export, up to its loop. -/
def startExport (cfg : Config F) (baseOfilename : List Char) (answers : SaveAnswers)
    (estimatedFps : F) (th : FDFaceThread) (e : Export) (l : SaveLocals F) :
    Except Fault (SaveLocals F) :=
  if takesSeries cfg th e then do
    let mySeriesNum ← nextSeries l.imageSeriesCnt
    let l := l.called mySeriesNum th.pFaces
    match e with
    | .images => .ok l
    | .video isSmoothVideo =>
      match ← exportFaces cfg e th with
      | some (f :: fs) =>
        .ok (l.openVideo cfg baseOfilename estimatedFps (answers.video isSmoothVideo)
          isSmoothVideo f fs)
      | _ => .ok (l.videoReturns baseOfilename isSmoothVideo false)
  else .ok l

/-- What a turn does beside the shared state and the job's stage. -/
def turn (cfg : Config F) (baseOfilename : List Char) (answers : SaveAnswers) (g : Shared F)
    (pTh : Nat) (l : SaveLocals F) : JobPC → Except Fault (SaveLocals F)
  | .saving (e :: _) =>
    match g.gThreadsBeingSerialized.get? pTh with
    | none => .error .danglingPointer
    | some th => l.startExport cfg baseOfilename answers g.estimatedFps th e
  | .walking .images _ historyItr faces _ =>
    .ok (l.walkImages cfg baseOfilename answers g historyItr faces)
  | .walking (.video isSmoothVideo) _ historyItr faces _ =>
    .ok (l.walkVideo baseOfilename answers g isSmoothVideo historyItr faces)
  | _ => .ok l

end

end SaveLocals

section
variable {F : Type} [FloatOps F]

/-- A turn of the job's export on a state that stands still. -/
def exportTurn (cfg : Config F) (g : Shared F) (pTh : Nat) (pc : JobPC) (isOk : Bool) :
    Except Fault JobPC := exportStep cfg g pTh isOk pc

/-- The same turn with what it does, when OpenCV answers as it should. -/
def answeredTurn (cfg : Config F) (baseOfilename : List Char) (answers : SaveAnswers)
    (g : Shared F) (pTh : Nat) (s : JobPC × SaveLocals F) (isOk : Bool) :
    Except Halt (JobPC × SaveLocals F) :=
  if isOk = s.2.answer answers s.1 then do
    let pc ← orHalt (exportTurn cfg g pTh s.1 isOk)
    let l ← orHalt (s.2.turn cfg baseOfilename answers g pTh s.1)
    .ok (pc, l)
  else .error .disabled

variable {cfg : Config F} {baseOfilename : List Char} {answers : SaveAnswers} {g : Shared F}
  {pTh : Nat} {todo : List Export}

theorem answeredTurn_eq {l l' : SaveLocals F} {pc pc' : JobPC}
    (hpc : exportTurn cfg g pTh pc (l.answer answers pc) = .ok pc')
    (hl : l.turn cfg baseOfilename answers g pTh pc = .ok l') :
    answeredTurn cfg baseOfilename answers g pTh (pc, l) (l.answer answers pc) = .ok (pc', l') := by
  simp only [answeredTurn, if_true, hpc, hl, orHalt_ok, ok_bind]

/-! ## The scan -/

/-- What is left of the history begins at the node that the job's scan finds. -/
theorem seekHistory_of_seekEntry {frameId : Int} {nodes : List (Nat × FDHistoryEntry)}
    {entry : FDHistoryEntry} {entries : List FDHistoryEntry}
    (h : seekEntry frameId (nodes.map Prod.snd) = .ok (entry :: entries)) :
    ∃ pre a post, nodes = pre ++ (a, entry) :: post ∧ post.map Prod.snd = entries ∧
      seekHistory frameId nodes = .ok (a, entry) := by
  induction nodes with
  | nil => cases h
  | cons p nodes ih =>
    rw [List.map_cons, seekEntry] at h
    split at h
    · next hlt =>
      obtain ⟨pre, a, post, hnodes, hpost, hseek⟩ := ih h
      exact ⟨p :: pre, a, post, by rw [hnodes, List.cons_append], hpost,
        by rw [seekHistory, if_pos hlt, hseek]⟩
    · next hge =>
      cases h
      exact ⟨[], p.1, nodes, rfl, rfl, by rw [seekHistory, if_neg hge]⟩

/-! ## The loops -/

/-- The iterator at the first of some nodes. -/
def iteratorAt (nodes : List (Nat × FDHistoryEntry)) : Option Nat := nodes.head?.map Prod.fst

section
variable {e : Export} {pre post : List (Nat × FDHistoryEntry)} {a : Nat} {entry : FDHistoryEntry}
  {f : Face} {fs : List Face} {saved : Int}

/-- A turn at an entry without a face. -/
theorem turn_skips (hnodes : g.gHistory.nodes = pre ++ (a, entry) :: post)
    (hlt : entry.frameId < f.frameId) (isOk : Bool) :
    exportTurn cfg g pTh (.walking e todo (some a) (f :: fs) saved) isOk =
      .ok (.walking e todo (iteratorAt post) (f :: fs) saved) := by
  rw [exportTurn, exportStep, walkHistory]
  simp only [NodeList.get?_of_nodes_eq hnodes, NodeList.next?_of_nodes_eq hnodes, if_pos hlt]
  rfl

/-- A turn of the video at the entry of the next face. -/
theorem turn_writes {isSmoothVideo : Bool} (hnodes : g.gHistory.nodes = pre ++ (a, entry) :: post)
    (heq : entry.frameId = f.frameId) (himage : entry.pFrame ≠ none) (isOk : Bool) :
    exportTurn cfg g pTh (.walking (.video isSmoothVideo) todo (some a) (f :: fs) saved) isOk =
      .ok (if isOk then .walking (.video isSmoothVideo) todo (iteratorAt post) fs saved
        else .saving todo) := by
  obtain ⟨img, himg⟩ := Option.ne_none_iff_exists'.mp himage
  rw [exportTurn, exportStep, walkHistory]
  simp only [NodeList.get?_of_nodes_eq hnodes, NodeList.next?_of_nodes_eq hnodes,
    if_neg heq.not_lt, if_neg (not_not.mpr heq), himg]
  cases isOk <;> rfl

/-- A turn of the images there, which counts as `saveImage` does. -/
theorem turn_saves {mySeriesNum : Nat} {s images : ImageLoop}
    (hnodes : g.gHistory.nodes = pre ++ (a, entry) :: post) (heq : entry.frameId = f.frameId)
    (himage : entry.pFrame ≠ none) {isOk : Bool}
    (himages : images = saveImage baseOfilename mySeriesNum entry f isOk s) :
    exportTurn cfg g pTh (.walking .images todo (some a) (f :: fs) s.imageNumSaved) isOk =
      .ok (if isOk = true ∧ images.imageNumSaved = cfg.maxJpgImagesSavedPerThread then
          .saving todo
        else .walking .images todo (iteratorAt post) fs images.imageNumSaved) := by
  subst himages
  obtain ⟨img, himg⟩ := Option.ne_none_iff_exists'.mp himage
  rw [exportTurn, exportStep, walkHistory, saveImage_imageNumSaved]
  simp only [NodeList.get?_of_nodes_eq hnodes, NodeList.next?_of_nodes_eq hnodes,
    if_neg heq.not_lt, if_neg (not_not.mpr heq), himg]
  cases isOk with
  | false => rfl
  | true =>
    simp only [if_true, true_and, Nat.cast_succ]
    by_cases hmax : (s.imageNumSaved : Int) + 1 = cfg.maxJpgImagesSavedPerThread
    · simp only [if_pos hmax]
    · simp only [if_neg hmax]
      rfl

/-! What the turns do beside the job's stage -/

variable {l : SaveLocals F}

omit [FloatOps F] in
theorem entry_of_nodes (hnodes : g.gHistory.nodes = pre ++ (a, entry) :: post) :
    (some a).bind g.gHistory.get? = some entry :=
  NodeList.get?_of_nodes_eq hnodes

theorem walkImages_skips (hnodes : g.gHistory.nodes = pre ++ (a, entry) :: post)
    (hlt : entry.frameId < f.frameId) :
    l.turn cfg baseOfilename answers g pTh (.walking .images todo (some a) (f :: fs) saved) =
      .ok (l.setImages l.images.turned) := by
  simp only [SaveLocals.turn, SaveLocals.walkImages, entry_of_nodes hnodes, if_pos hlt]

theorem walkImages_saves (hnodes : g.gHistory.nodes = pre ++ (a, entry) :: post)
    (heq : entry.frameId = f.frameId) {images : ImageLoop}
    (himages : images = saveImage baseOfilename l.imageSeriesCnt entry f
      (answers.cvSaveImage l.images.attempts.length) l.images) :
    l.turn cfg baseOfilename answers g pTh (.walking .images todo (some a) (f :: fs) saved) =
      .ok (if answers.cvSaveImage l.images.attempts.length = true ∧
          images.imageNumSaved = cfg.maxJpgImagesSavedPerThread then
          (l.setImages images).imagesReturn true
        else l.setImages images.turned) := by
  subst himages
  simp only [SaveLocals.turn, SaveLocals.walkImages, entry_of_nodes hnodes, if_neg heq.not_lt]

theorem walkVideo_skips {isSmoothVideo : Bool}
    (hnodes : g.gHistory.nodes = pre ++ (a, entry) :: post) (hlt : entry.frameId < f.frameId) :
    l.turn cfg baseOfilename answers g pTh
      (.walking (.video isSmoothVideo) todo (some a) (f :: fs) saved) = .ok l := by
  simp only [SaveLocals.turn, SaveLocals.walkVideo, entry_of_nodes hnodes, if_pos hlt]

theorem walkVideo_writes {isSmoothVideo : Bool}
    (hnodes : g.gHistory.nodes = pre ++ (a, entry) :: post) (heq : entry.frameId = f.frameId) :
    l.turn cfg baseOfilename answers g pTh
      (.walking (.video isSmoothVideo) todo (some a) (f :: fs) saved) =
      .ok (if (answers.video isSmoothVideo).cvWriteFrame l.video.frames.length = true then
          l.wrote ⟨entry, f.toCvRect, l.size⟩
        else l.videoReturns baseOfilename isSmoothVideo false) := by
  simp only [SaveLocals.turn, SaveLocals.walkVideo, entry_of_nodes hnodes, if_neg heq.not_lt]

end

/-- The loop that writes the video, in turns. -/
theorem turns_of_writeFrames {isSmoothVideo returned : Bool} {faces : List Face}
    {pre post : List (Nat × FDHistoryEntry)} {l : SaveLocals F} {frames : List VideoFrame}
    (hnodes : g.gHistory.nodes = pre ++ post)
    (h : writeFrames l.size (answers.video isSmoothVideo).cvWriteFrame (post.map Prod.snd) faces
      l.video.frames = .ok (frames, returned)) :
    ∃ oks, run (answeredTurn cfg baseOfilename answers g pTh)
      (.walking (.video isSmoothVideo) todo (iteratorAt post) faces 0, l) oks =
        .ok (.saving todo, { l with video := { l.video with frames := frames } }.videoReturns
          baseOfilename isSmoothVideo returned) := by
  induction post generalizing pre faces l with
  | nil =>
    cases faces with
    | nil =>
      cases h
      exact ⟨[_], run_singleton.trans (answeredTurn_eq rfl rfl)⟩
    | cons f fs => cases h
  | cons p post ih =>
    obtain ⟨a, entry⟩ := p
    cases faces with
    | nil =>
      cases h
      exact ⟨[_], run_singleton.trans (answeredTurn_eq rfl rfl)⟩
    | cons f fs =>
      have hrest : g.gHistory.nodes = (pre ++ [(a, entry)]) ++ post := by
        rw [hnodes, List.append_assoc, List.singleton_append]
      rw [List.map_cons, writeFrames] at h
      split at h
      · next hlt =>
        obtain ⟨oks, hoks⟩ := ih hrest h
        exact ⟨_ :: oks, (run_cons
          (answeredTurn_eq (turn_skips hnodes hlt _) (walkVideo_skips hnodes hlt)) oks).trans hoks⟩
      · split at h
        · cases h
        · next heq =>
          split at h
          · cases h
          · next himage =>
            have hid : entry.frameId = f.frameId := not_not.mp heq
            have hpc : exportTurn cfg g pTh
                (.walking (.video isSmoothVideo) todo (some a) (f :: fs) 0) _ = .ok _ :=
              turn_writes hnodes hid himage
                ((answers.video isSmoothVideo).cvWriteFrame l.video.frames.length)
            have hlocals : l.turn cfg baseOfilename answers g pTh
                (.walking (.video isSmoothVideo) todo (some a) (f :: fs) 0) = .ok _ :=
              walkVideo_writes hnodes hid
            split at h
            · next hok =>
              rw [if_pos hok] at hpc hlocals
              obtain ⟨oks, hoks⟩ := ih (l := l.wrote _) hrest h
              exact ⟨_ :: oks, (run_cons (answeredTurn_eq hpc hlocals) oks).trans hoks⟩
            · next hno =>
              rw [if_neg hno] at hpc hlocals
              cases h
              exact ⟨[_], run_singleton.trans (answeredTurn_eq hpc hlocals)⟩

/-- The loop that saves the images, in turns. -/
theorem turns_of_saveImages {returned : Bool} {faces : List Face}
    {pre post : List (Nat × FDHistoryEntry)} {l : SaveLocals F} {images : ImageLoop}
    (hnodes : g.gHistory.nodes = pre ++ post)
    (h : saveImages cfg.maxJpgImagesSavedPerThread baseOfilename l.imageSeriesCnt
      answers.cvSaveImage (post.map Prod.snd) faces l.images = .ok (images, returned)) :
    ∃ oks, run (answeredTurn cfg baseOfilename answers g pTh)
      (.walking .images todo (iteratorAt post) faces l.images.imageNumSaved, l) oks =
        .ok (.saving todo, (l.setImages images).imagesReturn returned) := by
  induction post generalizing pre faces l with
  | nil =>
    cases faces with
    | nil =>
      cases h
      exact ⟨[_], run_singleton.trans (answeredTurn_eq rfl rfl)⟩
    | cons f fs => cases h
  | cons p post ih =>
    obtain ⟨a, entry⟩ := p
    cases faces with
    | nil =>
      cases h
      exact ⟨[_], run_singleton.trans (answeredTurn_eq rfl rfl)⟩
    | cons f fs =>
      have hrest : g.gHistory.nodes = (pre ++ [(a, entry)]) ++ post := by
        rw [hnodes, List.append_assoc, List.singleton_append]
      rw [List.map_cons, saveImages] at h
      split at h
      · next hlt =>
        obtain ⟨oks, hoks⟩ := ih (l := l.setImages l.images.turned) hrest h
        exact ⟨_ :: oks, (run_cons
          (answeredTurn_eq (turn_skips hnodes hlt _) (walkImages_skips hnodes hlt)) oks).trans hoks⟩
      · split at h
        · cases h
        · next heq =>
          split at h
          · cases h
          · next himage =>
            have hid : entry.frameId = f.frameId := not_not.mp heq
            obtain ⟨after, hafter⟩ : ∃ after, after = saveImage baseOfilename l.imageSeriesCnt entry f
              (answers.cvSaveImage l.images.attempts.length) l.images := ⟨_, rfl⟩
            have hpc : exportTurn cfg g pTh
                (.walking .images todo (some a) (f :: fs) l.images.imageNumSaved) _ = .ok _ :=
              turn_saves hnodes hid himage hafter
            have hlocals : l.turn cfg baseOfilename answers g pTh
                (.walking .images todo (some a) (f :: fs) l.images.imageNumSaved) = .ok _ :=
              walkImages_saves hnodes hid hafter
            dsimp only at h
            rw [← hafter] at h
            split at h
            · next hstop =>
              rw [if_pos hstop] at hpc hlocals
              cases h
              exact ⟨[_], run_singleton.trans (answeredTurn_eq hpc hlocals)⟩
            · next hgo =>
              rw [if_neg hgo] at hpc hlocals
              obtain ⟨oks, hoks⟩ := ih (l := l.setImages after.turned) hrest h
              exact ⟨_ :: oks, (run_cons (answeredTurn_eq hpc hlocals) oks).trans hoks⟩

/-! ## The calls -/

section
variable {th : FDFaceThread}

theorem turn_starts {e : Export} (hth : g.gThreadsBeingSerialized.get? pTh = some th)
    (isOk : Bool) :
    exportTurn cfg g pTh (.saving (e :: todo)) isOk = startExport cfg g th isOk e todo := by
  rw [exportTurn, exportStep, hth]

theorem exportFaces_video (isSmoothVideo : Bool)
    (hlen : ¬ (th.pFaces.length : Int) < cfg.minFramesForVideo) (hne : th.pFaces ≠ []) :
    exportFaces cfg (.video isSmoothVideo) th =
      (walkedFaces (F := F) isSmoothVideo th.pFaces).map some := by
  rw [exportFaces, if_neg hlen, if_neg hne]
  cases isSmoothVideo <;> rfl

/-- The first turn gets as far as the scan does. -/
theorem startExport_eq (todo : List Export) {e : Export} {f : Face} {fs : List Face} {a : Nat}
    {entry : FDHistoryEntry} {pre post : List (Nat × FDHistoryEntry)}
    (hfaces : exportFaces cfg e th = .ok (some (f :: fs)))
    (hnodes : g.gHistory.nodes = pre ++ (a, entry) :: post)
    (hseek : seekHistory f.frameId g.gHistory.nodes = .ok (a, entry))
    (hid : entry.frameId = f.frameId) (himage : e ≠ .images → entry.pFrame ≠ none) (isOk : Bool) :
    startExport cfg g th isOk e todo =
      .ok (if e = .images ∨ isOk then .walking e todo (some a) (f :: fs) 0 else .saving todo) := by
  have hsize : g.gHistory.size ≠ 0 := by
    rw [NodeList.size, hnodes, List.length_append, List.length_cons]
    omega
  rw [startExport, hfaces, ok_bind]
  simp only [if_neg hsize, hseek, ok_bind, if_neg (not_not.mpr hid)]
  cases e with
  | images => rfl
  | video isSmoothVideo =>
    obtain ⟨img, himg⟩ := Option.ne_none_iff_exists'.mp (himage (by simp))
    simp only [himg]
    cases isOk <;> rfl

/-- A call of `saveThreadVideo` that returns is a run of the job's turns. -/
theorem saveThreadVideo_turns {isSmoothVideo : Bool} {l : SaveLocals F} {mySeriesNum : Nat}
    {call : VideoCall F} (hth : g.gThreadsBeingSerialized.get? pTh = some th)
    (htakes : takesSeries cfg th (.video isSmoothVideo) = true)
    (hseries : nextSeries l.imageSeriesCnt = .ok mySeriesNum)
    (h : saveThreadVideo cfg baseOfilename g.estimatedFps g.gHistory.vals mySeriesNum
      (answers.video isSmoothVideo) th.pFaces [] isSmoothVideo = .ok call) (todo : List Export) :
    ∃ oks l', run (answeredTurn cfg baseOfilename answers g pTh)
        (.saving (.video isSmoothVideo :: todo), l) oks = .ok (.saving todo, l') ∧
      l'.imageSeriesCnt = mySeriesNum ∧
      l'.calls = l.calls ++ [.video mySeriesNum isSmoothVideo call] := by
  have hlen : ¬ (th.pFaces.length : Int) < cfg.minFramesForVideo := by
    simpa [takesSeries] using htakes
  have hstarts : l.turn cfg baseOfilename answers g pTh (.saving (.video isSmoothVideo :: todo)) =
      l.startExport cfg baseOfilename answers g.estimatedFps th (.video isSmoothVideo) := by
    rw [SaveLocals.turn, hth]
  rw [SaveLocals.startExport, if_pos htakes, hseries, ok_bind] at hstarts
  dsimp only at hstarts
  obtain ⟨hover, rfl⟩ | ⟨hne, f, fs, entry, entries, hwalked, hseek, hid, himage, hend⟩ :=
    saveThreadVideo_cases h
  · have hfaces : exportFaces cfg (.video isSmoothVideo) th = .ok none := by
      rw [exportFaces, if_neg hlen, if_pos (hover.resolve_left hlen)]
    have hpc : ∀ isOk, exportTurn cfg g pTh (.saving (.video isSmoothVideo :: todo)) isOk =
        .ok (.saving todo) := by
      intro isOk
      rw [turn_starts hth, startExport, hfaces]
      rfl
    rw [hfaces, ok_bind] at hstarts
    exact ⟨[_], _, run_singleton.trans (answeredTurn_eq (hpc _) hstarts), rfl, rfl⟩
  · obtain ⟨pre, a, post, hnodes, rfl, hfound⟩ := seekHistory_of_seekEntry hseek
    have hfaces : exportFaces cfg (.video isSmoothVideo) th = .ok (some (f :: fs)) := by
      rw [exportFaces_video isSmoothVideo hlen hne, hwalked]
      rfl
    have hpc : ∀ isOk, exportTurn cfg g pTh (.saving (.video isSmoothVideo :: todo)) isOk = _ :=
      fun isOk => (turn_starts hth isOk).trans
        (startExport_eq todo hfaces hnodes hfound hid (fun _ => himage) isOk)
    rw [hfaces, ok_bind] at hstarts
    dsimp only at hstarts
    cases hend with
    | noImage hno =>
      have hanswer : l.answer answers (.saving (.video isSmoothVideo :: todo)) = false := by
        rw [SaveLocals.answer, hno, Bool.false_and]
      rw [SaveLocals.openVideo, if_pos hno] at hstarts
      have hturn := answeredTurn_eq (hpc _) hstarts
      rw [hanswer, if_neg (by simp)] at hturn
      exact ⟨[false], _, run_singleton.trans hturn, rfl, rfl⟩
    | noWriter hyes hno =>
      have hanswer : l.answer answers (.saving (.video isSmoothVideo :: todo)) = false := by
        rw [SaveLocals.answer, hno, Bool.and_false]
      rw [SaveLocals.openVideo, if_neg (by simp [hyes]), if_pos hno] at hstarts
      have hturn := answeredTurn_eq (hpc _) hstarts
      rw [hanswer, if_neg (by simp)] at hturn
      exact ⟨[false], _, run_singleton.trans hturn, rfl, rfl⟩
    | written hyes hopened hloop =>
      have hanswer : l.answer answers (.saving (.video isSmoothVideo :: todo)) = true := by
        rw [SaveLocals.answer, hyes, hopened, Bool.and_self]
      rw [SaveLocals.openVideo, if_neg (by simp [hyes]), if_neg (by simp [hopened])] at hstarts
      have hturn := answeredTurn_eq (hpc _) hstarts
      rw [hanswer, if_pos (.inr rfl)] at hturn
      obtain ⟨oks, hoks⟩ := turns_of_writeFrames (l := (l.called mySeriesNum th.pFaces).opened
        (outputSize cfg f fs) (openedWriter cfg baseOfilename g.estimatedFps mySeriesNum
          isSmoothVideo f fs)) hnodes hloop
      exact ⟨true :: oks, _, (run_cons hturn oks).trans hoks, rfl, rfl⟩

/-- And so is a call of `saveThreadImages`. -/
theorem saveThreadImages_turns {l : SaveLocals F} {mySeriesNum : Nat} {call : ImageCall}
    (hth : g.gThreadsBeingSerialized.get? pTh = some th)
    (htakes : takesSeries cfg th .images = true)
    (hseries : nextSeries l.imageSeriesCnt = .ok mySeriesNum)
    (h : saveThreadImages cfg baseOfilename g.gHistory.vals mySeriesNum answers.cvSaveImage
      th.pFaces [] = .ok call) (todo : List Export) :
    ∃ oks l', run (answeredTurn cfg baseOfilename answers g pTh) (.saving (.images :: todo), l) oks =
        .ok (.saving todo, l') ∧
      l'.imageSeriesCnt = mySeriesNum ∧ l'.calls = l.calls ++ [.images mySeriesNum call] := by
  have hlocals : l.turn cfg baseOfilename answers g pTh (.saving (.images :: todo)) =
      .ok (l.called mySeriesNum th.pFaces) := by
    rw [SaveLocals.turn, hth]
    dsimp only
    rw [SaveLocals.startExport, if_pos htakes, hseries, ok_bind]
  unfold saveThreadImages at h
  split at h
  · next hnil => exact absurd hnil (by simpa [takesSeries] using htakes)
  · next f fs hcons =>
    have hfaces : exportFaces cfg .images th = .ok (some (f :: fs)) := by
      rw [exportFaces, hcons, if_neg (List.cons_ne_nil f fs)]
    split at h
    · cases h
    · obtain ⟨itr, hseek, h⟩ := bind_eq_ok.mp h
      split at h
      · cases h
      · next entry entries =>
        split at h
        · cases h
        · next hid =>
          obtain ⟨⟨images, returned⟩, hloop, h⟩ := bind_eq_ok.mp h
          cases h
          obtain ⟨pre, a, post, hnodes, rfl, hfound⟩ := seekHistory_of_seekEntry hseek
          have hpc : exportTurn cfg g pTh (.saving (.images :: todo)) true =
              .ok (.walking .images todo (some a) (f :: fs) 0) :=
            (turn_starts hth true).trans (startExport_eq todo hfaces hnodes hfound (not_not.mp hid)
              (fun hno => absurd rfl hno) true)
          obtain ⟨oks, hoks⟩ :=
            turns_of_saveImages (l := l.called mySeriesNum th.pFaces) hnodes hloop
          exact ⟨_ :: oks, _, (run_cons (answeredTurn_eq hpc hlocals) oks).trans hoks, rfl, rfl⟩

end

end

end PlanetariumFD
