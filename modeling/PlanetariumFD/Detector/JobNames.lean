import PlanetariumFD.Detector.Retention
import PlanetariumFD.Detector.WholeJob

/-!
# What a job registers

A job whose frames are retained comes to its end whatever OpenCV answers, and the names
it registers are determined by the thread and by those answers: the first image that can
be saved, numbered by its frame's distance from the first, and each video of which no
frame has failed.
-/

namespace PlanetariumFD

open Outcome Transition

/-! ## The image -/

section
variable {max : Int} {baseOfilename : List Char} {mySeriesNum : Nat} {cvSaveImage : Nat → Bool}

/-- The attempt's file is numbered by the distance of its frame from the first. -/
def ImageAttempt.NumberedFrom (mySeriesNum : Nat) (first : Int) (a : ImageAttempt) : Prop :=
  a.filename = .image mySeriesNum (a.entry.frameId - first).toNat

/-- The loop's count of turns is the distance of the entry that it has come to. -/
theorem saveImages_numbered {first : Int} {entries : List FDHistoryEntry} :
    ∀ {faces : List Face} {s : ImageLoop} {r : ImageLoop × Bool},
      saveImages max baseOfilename mySeriesNum cvSaveImage entries faces s = .ok r →
      (entries.IsChain fun e e' => e'.frameId = e.frameId + 1) →
      (∀ e ∈ entries.head?, e.frameId = first + s.imageNum) →
      (∀ a ∈ s.attempts, a.NumberedFrom mySeriesNum first) →
      ∀ a ∈ r.1.attempts, a.NumberedFrom mySeriesNum first := by
  induction entries with
  | nil =>
    intro faces s r h _ _ hs
    cases faces with
    | nil =>
      cases h
      exact hs
    | cons f fs => cases h
  | cons entry entries ih =>
    intro faces s r h hchain hfirst hs
    have hid : entry.frameId = first + s.imageNum := hfirst entry rfl
    -- the next turn is at the next frame
    have hnext : ∀ e ∈ entries.head?, e.frameId = first + (s.imageNum + 1 : Nat) := by
      intro e he
      cases entries with
      | nil => cases he
      | cons e' entries =>
        cases he
        have := (List.isChain_cons_cons.mp hchain).1
        push_cast
        omega
    cases faces with
    | nil =>
      cases h
      exact hs
    | cons f fs =>
      rw [saveImages] at h
      split at h
      · exact ih h hchain.of_cons hnext hs
      · split at h
        · cases h
        · split at h
          · cases h
          · have hnew : ∀ wasSucces, ∀ a ∈ (saveImage baseOfilename mySeriesNum entry f wasSucces
                s).attempts, a.NumberedFrom mySeriesNum first := by
              intro wasSucces a ha
              have hattempts : (saveImage baseOfilename mySeriesNum entry f wasSucces s).attempts =
                  s.attempts ++ [⟨.image mySeriesNum s.imageNum, entry, f.toCvRect, wasSucces⟩] := by
                cases wasSucces <;> rfl
              rw [hattempts, List.mem_append, List.mem_singleton] at ha
              obtain ha | rfl := ha
              · exact hs a ha
              · show OutputName.image mySeriesNum s.imageNum =
                  .image mySeriesNum (entry.frameId - first).toNat
                congr 1
                omega
            dsimp only at h
            split at h
            · cases h
              exact hnew _
            · refine ih h hchain.of_cons ?_ (hnew _)
              intro e he
              have hturned : (saveImage baseOfilename mySeriesNum entry f
                  (cvSaveImage s.attempts.length) s).turned.imageNum = s.imageNum + 1 := by
                cases cvSaveImage s.attempts.length <;> rfl
              rw [hturned]
              exact hnext e he

end

/-- The frames between the first face and face `i`. -/
def frameOffset (pFaces : List Face) (i : Nat) : Nat :=
  match pFaces.head?, pFaces[i]? with
  | some f, some f' => (f'.frameId - f.frameId).toNat
  | _, _ => 0

/-- The image that is registered: that of the first face whose image can be saved. -/
def registeredImage (pFaces : List Face) (cvSaveImage : Nat → Bool) (mySeriesNum : Nat) :
    Option OutputName :=
  ((List.range pFaces.length).find? cvSaveImage).map fun i =>
    .image mySeriesNum (frameOffset pFaces i)

section
variable {F : Type} {cfg : Config F} {history : List FDHistoryEntry} {pFaces : List Face}
  {baseOfilename : List Char} {mySeriesNum : Nat} {cvSaveImage : Nat → Bool}

theorem seekEntry_suffix {frameId : Int} {history itr : List FDHistoryEntry}
    (h : seekEntry frameId history = .ok itr) : itr <:+ history := by
  induction history with
  | nil => cases h
  | cons entry entries ih =>
    rw [seekEntry] at h
    split at h
    · exact (ih h).trans (List.suffix_cons entry entries)
    · cases h
      exact List.suffix_refl _

theorem saveThreadImages_numbered {outputFilename : List Char} {f : Face} {fs : List Face}
    {call : ImageCall} (h : saveThreadImages cfg baseOfilename history mySeriesNum cvSaveImage
      (f :: fs) outputFilename = .ok call)
    (hchain : history.IsChain fun e e' => e'.frameId = e.frameId + 1) :
    ∀ a ∈ call.attempts, a.NumberedFrom mySeriesNum f.frameId := by
  simp only [saveThreadImages] at h
  split at h
  · cases h
  · obtain ⟨itr, hseek, h⟩ := bind_eq_ok.mp h
    split at h
    · cases h
    · next entry entries =>
      split at h
      · cases h
      · next hid =>
        obtain ⟨r, hloop, h⟩ := bind_eq_ok.mp h
        cases h
        refine saveImages_numbered hloop (hchain.suffix (seekEntry_suffix hseek)) ?_ ?_
        · intro e he
          cases he
          rw [not_not.mp hid, Nat.cast_zero, add_zero]
        · exact fun a ha => by cases ha

/-- A call of `saveThreadImages` succeeds with the first image that can be saved. -/
theorem saveThreadImages_registers (cfg : Config F) (baseOfilename outputFilename : List Char)
    (mySeriesNum : Nat) (cvSaveImage : Nat → Bool) (hne : pFaces ≠ [])
    (increasing : pFaces.Pairwise fun f f' => f.frameId < f'.frameId)
    (covers : Covers history pFaces) :
    ∃ call, saveThreadImages cfg baseOfilename history mySeriesNum cvSaveImage pFaces
        outputFilename = .ok call ∧
      (if call.returned then some call.outputFilename else none) =
        (registeredImage pFaces cvSaveImage mySeriesNum).map (OutputName.text baseOfilename) := by
  obtain ⟨call, t, hcall, hname, hattempts, hsaves⟩ := saveThreadImages_ok cfg baseOfilename
    outputFilename mySeriesNum cvSaveImage hne increasing covers
  refine ⟨call, hcall, ?_⟩
  have hanswers : ∀ i a, call.attempts[i]? = some a → a.wasSucces = cvSaveImage i := by
    intro i a hi
    rw [hsaves.answers i a hi, List.length_nil, zero_add]
  have hcount : t.imageNumSaved = call.attempts.countP ImageAttempt.wasSucces :=
    hsaves.count.trans (Nat.zero_add _)
  have hreturned := hsaves.returned
  -- without a success the loop goes through all faces
  have hall : (∀ a ∈ call.attempts, ¬ a.wasSucces = true) →
      call.attempts.length = pFaces.length := by
    intro hnone
    have hzero := List.countP_eq_zero.mpr hnone
    apply hsaves.fewer
    rw [hcount, hzero]
    push_cast
    omega
  have hinOrder := hsaves.inOrder
  have hlen := hinOrder.length_eq
  rw [List.length_take] at hlen
  cases hfirst : (List.range pFaces.length).find? cvSaveImage with
  | none =>
    have hfails := List.find?_range_eq_none.mp hfirst
    have hnone : ∀ a ∈ call.attempts, ¬ a.wasSucces = true := by
      intro a ha
      obtain ⟨i, hi⟩ := List.mem_iff_getElem?.mp ha
      obtain ⟨hlt, -⟩ := List.getElem?_eq_some_iff.mp hi
      rw [hanswers i a hi]
      simpa using hfails i (by omega)
    rw [hcount, List.countP_eq_zero.mpr hnone] at hreturned
    rw [registeredImage, hfirst, hreturned]
    rfl
  | some i =>
    obtain ⟨hi, hmem, hbefore⟩ := List.find?_range_eq_some.mp hfirst
    have hiFaces : i < pFaces.length := List.mem_range.mp hmem
    have hiAttempts : i < call.attempts.length := by
      by_contra hge
      have hshort : ∀ a ∈ call.attempts, ¬ a.wasSucces = true := by
        intro a ha
        obtain ⟨j, hj⟩ := List.mem_iff_getElem?.mp ha
        obtain ⟨hlt, -⟩ := List.getElem?_eq_some_iff.mp hj
        rw [hanswers j a hj]
        simpa using hbefore j (by omega)
      have := hall hshort
      omega
    have hsucces : call.attempts[i].wasSucces = true :=
      (hanswers i _ (List.getElem?_eq_getElem hiAttempts)).trans hi
    have hfind : call.attempts.find? ImageAttempt.wasSucces = some call.attempts[i] := by
      refine List.find?_eq_some_iff_getElem.mpr ⟨hsucces, i, hiAttempts, rfl, fun j hj => ?_⟩
      have hjAttempts : j < call.attempts.length := hj.trans hiAttempts
      rw [hanswers j _ (List.getElem?_eq_getElem hjAttempts)]
      exact hbefore j hj
    have hsome : 0 < call.attempts.countP ImageAttempt.wasSucces :=
      List.countP_pos_iff.mpr ⟨_, List.getElem_mem hiAttempts, hsucces⟩
    rw [hcount, decide_eq_true hsome] at hreturned
    obtain ⟨f, fs, rfl⟩ := List.exists_cons_of_ne_nil hne
    have hnumbered := saveThreadImages_numbered hcall covers.consecutive _
      (List.getElem_mem hiAttempts)
    have hshows : call.attempts[i].entry.frameId = ((f :: fs)[i]).frameId := by
      have hget := hinOrder.get (i := i) (by rw [List.length_take]; omega) hiAttempts
      simpa using hget.2.1
    rw [registeredImage, hfirst, hreturned, if_pos rfl, hname, hsaves.filename, if_pos rfl,
      firstSaved, hfind, Option.map_some, Option.map_some]
    have hoffset : frameOffset (f :: fs) i = (((f :: fs)[i]).frameId - f.frameId).toNat := by
      simp only [frameOffset, List.head?_cons, List.getElem?_eq_getElem hiFaces]
    rw [hoffset, ← hshows, ← hnumbered]

end

/-! ## A video -/

/-- The video is written to its end. -/
def VideoAnswers.succeeds (answers : VideoAnswers) (frames : Nat) : Bool :=
  answers.cvCreateImage && answers.cvCreateVideoWriter &&
    (List.range frames).all answers.cvWriteFrame

/-- The frames that a video of the thread has. -/
def videoLength (pFaces : List Face) (isSmoothVideo : Bool) : Nat :=
  if isSmoothVideo then spanLength pFaces else pFaces.length

section
variable {F : Type} [FloatOps F] {cfg : Config F} {history : List FDHistoryEntry}
  {answers : VideoAnswers} {pFaces : List Face}

/-- Where an allocation fails the call returns before its loop. -/
theorem saveThreadVideo_unopened (baseOfilename outputFilename : List Char) (estimatedFps : F)
    (mySeriesNum : Nat) {isSmoothVideo : Bool} {f : Face} {fs : List Face}
    (hlen : cfg.minFramesForVideo ≤ pFaces.length) (hne : pFaces ≠ [])
    (hfails : (answers.cvCreateImage && answers.cvCreateVideoWriter) = false)
    (hwalked : walkedFaces (F := F) isSmoothVideo pFaces = .ok (f :: fs))
    {entry : FDHistoryEntry} {entries : List FDHistoryEntry}
    (hseek : seekEntry f.frameId history = .ok (entry :: entries))
    (hid : entry.frameId = f.frameId) (hframe : entry.pFrame ≠ none) (hhist : history ≠ []) :
    ∃ writer, saveThreadVideo cfg baseOfilename estimatedFps history mySeriesNum answers pFaces
        outputFilename isSmoothVideo = .ok ⟨pFaces, writer, [], outputFilename, false⟩ := by
  obtain ⟨l, hl, hsame, hfaces⟩ := smoothMyFaces_ok hwalked
  rw [saveThreadVideo, if_neg (by omega), if_neg hne, hl, ok_bind, hfaces]
  simp only [if_neg hhist, hseek, ok_bind, hid, hframe, ne_eq, not_true, if_false, hsame]
  cases himage : answers.cvCreateImage with
  | false => exact ⟨none, rfl⟩
  | true =>
    rw [himage, Bool.true_and] at hfails
    rw [hfails]
    exact ⟨_, rfl⟩

/-- A call of `saveThreadVideo` succeeds if its file could be opened and no frame failed. -/
theorem saveThreadVideo_registers (cfg : Config F) (baseOfilename outputFilename : List Char)
    (estimatedFps : F) (mySeriesNum : Nat) (answers : VideoAnswers) (isSmoothVideo : Bool)
    (hlen : cfg.minFramesForVideo ≤ pFaces.length) (hne : pFaces ≠ [])
    (increasing : pFaces.Pairwise fun f f' => f.frameId < f'.frameId)
    (covers : Covers history pFaces) :
    ∃ call, saveThreadVideo cfg baseOfilename estimatedFps history mySeriesNum answers pFaces
        outputFilename isSmoothVideo = .ok call ∧ call.pFaces = pFaces ∧
      (if call.returned then some call.outputFilename else none) =
        if answers.succeeds (videoLength pFaces isSmoothVideo) then
          some ((OutputName.video mySeriesNum isSmoothVideo).text baseOfilename) else none := by
  obtain ⟨faces, hwalked, hfaces, hsorted, within, hspan⟩ :=
    walkedFaces_ok (F := F) isSmoothVideo hne increasing
  obtain ⟨f, fs, rfl⟩ := List.exists_cons_of_ne_nil hfaces
  have hlength : (f :: fs).length = videoLength pFaces isSmoothVideo := by
    cases isSmoothVideo with
    | false =>
      cases hwalked
      rfl
    | true =>
      have hids := congrArg List.length (hspan rfl)
      rwa [List.length_map, List.length_map, List.length_range] at hids
  obtain ⟨entry, entries, hseek, hid, hsub, hstep⟩ :=
    seekEntry_ok covers.sorted covers.images hsorted fun g hg =>
      covers.mem_of_within hne (within g hg).1 (within g hg).2
  have hentry : entry ∈ history := hsub List.mem_cons_self
  have hhist : history ≠ [] := List.ne_nil_of_mem hentry
  cases hopens : answers.cvCreateImage && answers.cvCreateVideoWriter with
  | false =>
    obtain ⟨writer, hcall⟩ := saveThreadVideo_unopened baseOfilename outputFilename estimatedFps
      mySeriesNum hlen hne hopens hwalked hseek hid (covers.images _ hentry) hhist
    refine ⟨_, hcall, rfl, ?_⟩
    rw [VideoAnswers.succeeds, hopens]
    rfl
  | true =>
    obtain ⟨himage, hwriter⟩ := (Bool.and_eq_true _ _).mp hopens
    obtain ⟨n, frames, hloop, hn, -, hbefore, hstop⟩ :=
      writeFrames_ok (outputSize cfg f fs) answers.cvWriteFrame hstep hsub []
    simp only [List.length_nil, zero_add] at hbefore hstop
    obtain ⟨writer, hcall⟩ := saveThreadVideo_eq baseOfilename outputFilename estimatedFps
      mySeriesNum hlen hne himage hwriter hwalked hseek hid (covers.images _ hentry) hhist hloop
    have hwrites : (List.range (videoLength pFaces isSmoothVideo)).all answers.cvWriteFrame =
        decide (n = (f :: fs).length) := by
      rw [← hlength, Bool.eq_iff_iff, List.all_eq_true, decide_eq_true_iff]
      constructor
      · intro hall
        by_contra hshort
        have hlt : n < (f :: fs).length := by omega
        exact Bool.false_ne_true ((hstop hlt).symm.trans (hall n (List.mem_range.mpr hlt)))
      · rintro rfl i hi
        exact hbefore i (List.mem_range.mp hi)
    refine ⟨_, hcall, rfl, ?_⟩
    rw [VideoAnswers.succeeds, hopens, Bool.true_and, hwrites]
    dsimp only
    split <;> rfl

end

/-! ## The job -/

/-- The video that is registered, if any. -/
def registeredVideo (pFaces : List Face) (answers : SaveAnswers) (isSmoothVideo : Bool)
    (mySeriesNum : Nat) : Option OutputName :=
  if (answers.video isSmoothVideo).succeeds (videoLength pFaces isSmoothVideo) then
    some (.video mySeriesNum isSmoothVideo)
  else none

/-- What a job adds for a thread that passes its test: `image_series_cnt` goes up with every
export that is begun, and an export that succeeds registers its name. -/
def registeredByJob {F : Type} (cfg : Config F) (baseOfilename : List Char) (answers : SaveAnswers)
    (pFaces : List Face) (imageSeriesCnt : Nat) : Registered :=
  let image := (registeredImage pFaces answers.cvSaveImage (imageSeriesCnt + 1)).toList
  if cfg.minFramesForVideo ≤ pFaces.length then
    ⟨imageSeriesCnt + 3,
      (image ++ ((registeredVideo pFaces answers false (imageSeriesCnt + 2)).toList ++
        (registeredVideo pFaces answers true (imageSeriesCnt + 3)).toList)).map
          (OutputName.text baseOfilename)⟩
  else ⟨imageSeriesCnt + 1, image.map (OutputName.text baseOfilename)⟩

section
variable {F : Type} [FloatOps F] {cfg : Config F} {history : List FDHistoryEntry}
  {answers : SaveAnswers} {th : FDFaceThread} {r : Registered} {baseOfilename : List Char}

theorem nextSeries_of_lt {n : Nat} (h : (n : Int) < intMax) : nextSeries n = .ok (n + 1) := if_pos h

/-- The name of a call that has succeeded goes to the end of the list. -/
theorem names_of_call {names : List (List Char)} {returned : Bool} {outputFilename : List Char}
    {x : Option (List Char)} (h : (if returned then some outputFilename else none) = x) :
    (if returned then names ++ [outputFilename] else names) = names ++ x.toList := by
  subst h
  cases returned with
  | true => rfl
  | false => exact (List.append_nil names).symm

theorem saveAndRegister_images (cfg : Config F) (baseOfilename : List Char) (estimatedFps : F)
    (answers : SaveAnswers) (r : Registered) (hne : th.pFaces ≠ [])
    (increasing : th.pFaces.Pairwise fun f f' => f.frameId < f'.frameId)
    (covers : Covers history th.pFaces) (hlimit : (r.imageSeriesCnt : Int) < intMax) :
    saveAndRegister cfg baseOfilename estimatedFps history answers th r .images =
      .ok (th, ⟨r.imageSeriesCnt + 1, r.names ++ ((registeredImage th.pFaces answers.cvSaveImage
        (r.imageSeriesCnt + 1)).map (OutputName.text baseOfilename)).toList⟩) := by
  obtain ⟨call, hcall, hname⟩ := saveThreadImages_registers cfg baseOfilename []
    (r.imageSeriesCnt + 1) answers.cvSaveImage hne increasing covers
  have htakes : takesSeries cfg th .images = true := decide_eq_true hne
  rw [saveAndRegister, if_pos htakes, nextSeries_of_lt hlimit, ok_bind, callExport, hcall]
  refine congrArg (fun names => Except.ok (th, (⟨_, names⟩ : Registered))) ?_
  exact names_of_call hname

theorem saveAndRegister_video (estimatedFps : F) (isSmoothVideo : Bool) (hne : th.pFaces ≠ [])
    (hlen : cfg.minFramesForVideo ≤ th.pFaces.length)
    (increasing : th.pFaces.Pairwise fun f f' => f.frameId < f'.frameId)
    (covers : Covers history th.pFaces) (hlimit : (r.imageSeriesCnt : Int) < intMax) :
    saveAndRegister cfg baseOfilename estimatedFps history answers th r (.video isSmoothVideo) =
      .ok (th, ⟨r.imageSeriesCnt + 1, r.names ++ ((registeredVideo th.pFaces answers isSmoothVideo
        (r.imageSeriesCnt + 1)).map (OutputName.text baseOfilename)).toList⟩) := by
  obtain ⟨call, hcall, hsame, hname⟩ := saveThreadVideo_registers cfg baseOfilename [] estimatedFps
    (r.imageSeriesCnt + 1) (answers.video isSmoothVideo) isSmoothVideo hlen hne increasing covers
  have htakes : takesSeries cfg th (.video isSmoothVideo) = true := decide_eq_true (not_lt.mpr hlen)
  have hvideo : (registeredVideo th.pFaces answers isSmoothVideo (r.imageSeriesCnt + 1)).map
      (OutputName.text baseOfilename) = if call.returned then some call.outputFilename else none := by
    rw [hname, registeredVideo]
    split <;> rfl
  rw [saveAndRegister, if_pos htakes, nextSeries_of_lt hlimit, ok_bind, callExport, hcall, hvideo]
  have hth : { th with pFaces := call.pFaces } = th := by rw [hsame]
  simp only [Except.map, ok_bind, hth, names_of_call rfl]

theorem saveAndRegister_short (estimatedFps : F) (isSmoothVideo : Bool)
    (hlen : ¬ cfg.minFramesForVideo ≤ th.pFaces.length) :
    saveAndRegister cfg baseOfilename estimatedFps history answers th r (.video isSmoothVideo) =
      .ok (th, r) := by
  have htakes : takesSeries cfg th (.video isSmoothVideo) = false :=
    decide_eq_false (not_not.mpr (not_le.mp hlen))
  rw [saveAndRegister, htakes]
  rfl

/-- The three blocks of a thread whose frames are in the history. -/
theorem saveBlocks_eq (estimatedFps : F) (hne : th.pFaces ≠ [])
    (increasing : th.pFaces.Pairwise fun f f' => f.frameId < f'.frameId)
    (covers : Covers history th.pFaces) {n : Nat} (hlimit : (n : Int) + 3 ≤ intMax) :
    saveBlocks cfg baseOfilename estimatedFps history answers [.images, .video false, .video true] th
      ⟨n, []⟩ = .ok (th, registeredByJob cfg baseOfilename answers th.pFaces n) := by
  simp only [saveBlocks]
  rw [saveAndRegister_images cfg baseOfilename estimatedFps answers ⟨n, []⟩ hne increasing covers
    (by dsimp only; omega), ok_bind]
  by_cases hlen : cfg.minFramesForVideo ≤ th.pFaces.length
  · rw [saveAndRegister_video estimatedFps false hne hlen increasing covers (by dsimp only; omega),
      ok_bind,
      saveAndRegister_video estimatedFps true hne hlen increasing covers (by dsimp only; omega)]
    simp [registeredByJob, if_pos hlen, Option.toList_map]
  · rw [saveAndRegister_short estimatedFps false hlen, ok_bind,
      saveAndRegister_short estimatedFps true hlen]
    simp [registeredByJob, if_neg hlen, Option.toList_map]

end

/-! ## In a run -/

section
variable {F : Type} {s : System F} {lo : Nat} {th : FDFaceThread}

theorem HistoryShape.consecutive (h : HistoryShape s lo) :
    s.sh.gHistory.vals.IsChain fun e e' => e'.frameId = e.frameId + 1 := by
  have hchain : (frameIds s).IsChain fun n n' => n' = n + 1 := by
    rw [h.frameIds_eq, List.isChain_map]
    refine (List.isChain_range' (lo + 1) s.sh.gHistory.size 1).imp ?_
    rintro n n' rfl
    exact Nat.cast_succ n
  exact (List.isChain_map FDHistoryEntry.frameId).mp hchain

/-- The frames of what is left of a thread are among those of the thread. -/
theorem HistoryShape.covers (h : HistoryShape s lo) (S : StoredFaces s) (hret : Retained s)
    (hth : th ∈ allThreads s.sh) {faces : List Face} (hfaces : faces <:+ th.pFaces) :
    Covers s.sh.gHistory.vals faces where
  consecutive := h.consecutive
  images e he := by
    obtain ⟨a, ha⟩ := NodeList.mem_vals_iff.mp he
    exact (h.entries _ ha).2
  span f l hf hl t hft htl := by
    have hin := S.of_allThreads hth
    have hmemf := hfaces.subset (List.mem_of_head? hf)
    have hmeml := hfaces.subset (List.mem_of_getLast? hl)
    have hbefore := (within_of_mem hin.increasing hin.nonempty hmemf).1
    have hafter := (within_of_mem hin.increasing hin.nonempty hmeml).2
    obtain ⟨entry, hentry, hid, -⟩ := hret th hth _ _ (List.head?_eq_some_head hin.nonempty)
      (List.getLast?_eq_some_getLast hin.nonempty) t (by omega) (by omega)
    exact List.mem_map.mpr ⟨entry, hentry, hid⟩

end

section
variable {F : Type} [FloatOps F] {cfg : Config F} {s : System F} {now : Int} {as : List Action}

/-- Where the frames that the threads need are kept, `saveAndDeleteThread` returns whatever
OpenCV answers: the thread is gone from the list, and what was registered is the image and
the videos that could be saved, under the numbers of their turns. -/
theorem wholeJob_registers (cfg : Config F) (h1 : 1 ≤ cfg.maxThreadHistorySize)
    (h : run (step cfg) (start cfg now) as = .ok s) (hret : Retained s) {k : Nat} {j : Job}
    (hj : s.sh.jobs[k]? = some j) (hpc : j.pc = .started) (baseOfilename : List Char)
    (answers : SaveAnswers) {imageSeriesCnt : Nat} (hlimit : (imageSeriesCnt : Int) + 3 ≤ intMax) :
    ∃ th, s.sh.gThreadsBeingSerialized.get? j.pTh = some th ∧ th.ident = j.ident ∧
      wholeJob cfg baseOfilename answers s.sh j.pTh imageSeriesCnt =
        .ok ({ s.sh with gThreadsBeingSerialized := s.sh.gThreadsBeingSerialized.erase j.pTh },
          if passesSave cfg (th.pruned cfg) then
            registeredByJob cfg baseOfilename answers (th.pruned cfg).pFaces imageSeriesCnt
          else ⟨imageSeriesCnt, []⟩) := by
  obtain ⟨-, lo, hshape, -⟩ := historyShape_of_run h
  have S := storedFaces_of_run h1 h
  have hunfinished : j.pc ≠ .finished := by
    rw [hpc]
    exact fun h => by cases h
  obtain ⟨th, hth, hident⟩ := (jobsOwn_of_run h).entry (List.mem_of_getElem? hj) hunfinished
  refine ⟨th, hth, hident, ?_⟩
  have hmem : th ∈ allThreads s.sh := List.mem_append_right _
    (NodeList.mem_vals_iff.mpr ⟨_, NodeList.get?_eq_some_iff.mp hth⟩)
  have hin := S.of_allThreads hmem
  have hprune : th.pruneFacesList cfg = .ok (th.pruned cfg) :=
    FDFaceThread.pruneFacesList_eq (by omega)
  have hcovers : Covers s.sh.gHistory.vals (th.pruned cfg).pFaces :=
    hshape.covers S hret hmem FDFaceThread.pruned_suffix
  -- the entry is still there at the end, and it is all that goes
  have hdelete : deleteThreadFromGThreadsBeingSerialized { s.sh with
      gThreadsBeingSerialized :=
        s.sh.gThreadsBeingSerialized.modify j.pTh fun _ => th.pruned cfg } j.pTh =
      .ok { s.sh with gThreadsBeingSerialized := s.sh.gThreadsBeingSerialized.erase j.pTh } := by
    simp only [deleteThreadFromGThreadsBeingSerialized, NodeList.modify, NodeList.get?_alter, hth,
      Option.map_some]
    rw [← NodeList.erase_modify s.sh.gThreadsBeingSerialized j.pTh fun _ => th.pruned cfg]
    rfl
  have hblocks : saveBlocks cfg baseOfilename s.sh.estimatedFps s.sh.gHistory.vals answers
      (if passesSave cfg (th.pruned cfg) then [.images, .video false, .video true] else [])
      (th.pruned cfg) ⟨imageSeriesCnt, []⟩ = .ok (th.pruned cfg,
        if passesSave cfg (th.pruned cfg) then
          registeredByJob cfg baseOfilename answers (th.pruned cfg).pFaces imageSeriesCnt
        else ⟨imageSeriesCnt, []⟩) := by
    split
    · exact saveBlocks_eq s.sh.estimatedFps (FDFaceThread.pruned_ne_nil h1 hin.nonempty)
        hin.inOrder.pruned.increasing hcovers hlimit
    · rfl
  rw [wholeJob, hth]
  dsimp only
  rw [hprune, ok_bind, hblocks, ok_bind, hdelete]
  rfl

end

theorem wholeJob_registers_fourSeen : ∃ s g,
    run (step earlyVideos) (start earlyVideos 0) fourSeen = .ok s ∧
    wholeJob earlyVideos [] someFail s.sh 0 0 =
      .ok (g, ⟨3, ["__1_1.jpg".toList, "__2.avi".toList]⟩) := by
  have hruns : returns (fun s => decide (s.sh.jobs[0]? = some ⟨0, 0, .started⟩ ∧
      ∀ th ∈ s.sh.gThreadsBeingSerialized.get? 0, passesSave earlyVideos (th.pruned earlyVideos) ∧
        registeredByJob earlyVideos [] someFail (th.pruned earlyVideos).pFaces 0 =
          ⟨3, ["__1_1.jpg".toList, "__2.avi".toList]⟩))
      (run (step earlyVideos) (start earlyVideos 0) fourSeen) = true := by decide +kernel
  obtain ⟨s, hs, hdec⟩ := exists_of_returns hruns
  obtain ⟨hj, hnames⟩ := of_decide_eq_true hdec
  -- the pruner never runs, and so nothing is erased
  have hquiet : Throughout (step earlyVideos) RespectsFloor (start earlyVideos 0) fourSeen := by
    intro p hp hact
    obtain ⟨bs, cs, has, -⟩ := mem_trail hp
    have hmem : Action.pruner ∈ fourSeen := by
      rw [has, hact]
      simp
    exact absurd hmem (by decide)
  obtain ⟨lo, hshape, hkept⟩ := kept_of_run (by decide) hs hquiet
  have hret := (hshape.retained_iff (storedFaces_of_run (by decide) hs)).mpr hkept
  have hlimit : ((0 : Nat) : Int) + 3 ≤ intMax := by decide
  obtain ⟨th, hth, -, hwhole⟩ := wholeJob_registers earlyVideos (by decide) hs hret hj rfl []
    someFail hlimit
  obtain ⟨hpasses, hregistered⟩ := hnames th hth
  rw [if_pos hpasses, hregistered] at hwhole
  exact ⟨s, _, hs, hwhole⟩

end PlanetariumFD
