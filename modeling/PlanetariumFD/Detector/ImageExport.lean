import PlanetariumFD.Detector.HistoryWalk
import PlanetariumFD.Detector.OutputNames

/-!
# `saveThreadImages`

One call from its first test to its return, on a history that stands still. The
limit is tested after a success is counted, so a limit of zero is never met.
-/

namespace PlanetariumFD

/-- One turn that calls `cvSaveImage`: the file, what is saved in it, and the answer. -/
structure ImageAttempt where
  filename : OutputName
  entry : FDHistoryEntry
  roi : CvRect
  wasSucces : Bool
  deriving DecidableEq, Repr

/-- The locals of the loop, the caller's `outputFilename`, and the attempts so far. -/
structure ImageLoop where
  imageNum : Nat
  imageNumSaved : Nat
  outputFilename : List Char
  attempts : List ImageAttempt
  deriving DecidableEq, Repr

/-- `++image_num` -/
def ImageLoop.turned (s : ImageLoop) : ImageLoop := { s with imageNum := s.imageNum + 1 }

/-- A call that has returned. -/
structure ImageCall where
  outputFilename : List Char
  attempts : List ImageAttempt
  returned : Bool
  deriving DecidableEq, Repr

/-- The body of the loop at an entry with the face's frame. -/
def saveImage (baseOfilename : List Char) (mySeriesNum : Nat) (entry : FDHistoryEntry) (f : Face)
    (wasSucces : Bool) (s : ImageLoop) : ImageLoop :=
  let filename := OutputName.image mySeriesNum s.imageNum
  let s := { s with attempts := s.attempts ++ [⟨filename, entry, f.toCvRect, wasSucces⟩] }
  if wasSucces then
    { s with
      imageNumSaved := s.imageNumSaved + 1
      outputFilename :=
        if s.imageNumSaved = 0 then filename.text baseOfilename else s.outputFilename }
  else s

theorem saveImage_imageNumSaved {baseOfilename : List Char} {mySeriesNum : Nat}
    {entry : FDHistoryEntry} {f : Face} {wasSucces : Bool} {s : ImageLoop} :
    (saveImage baseOfilename mySeriesNum entry f wasSucces s).imageNumSaved =
      if wasSucces then s.imageNumSaved + 1 else s.imageNumSaved := by
  cases wasSucces <;> rfl

/-- The loop over the faces; `cvSaveImage n` is the answer to call `n`. -/
def saveImages (maxJpgImagesSavedPerThread : Int) (baseOfilename : List Char) (mySeriesNum : Nat)
    (cvSaveImage : Nat → Bool) :
    List FDHistoryEntry → List Face → ImageLoop → Except Fault (ImageLoop × Bool)
  | _, [], s => .ok (s, s.imageNumSaved > 0)
  | [], _ :: _, _ => .error .assertHistoryItr
  | entry :: entries, f :: fs, s =>
    if entry.frameId < f.frameId then
      saveImages maxJpgImagesSavedPerThread baseOfilename mySeriesNum cvSaveImage entries (f :: fs)
        s.turned
    else if entry.frameId ≠ f.frameId then .error .assertFrameId
    else if entry.pFrame = none then .error .nullImage
    else
      let wasSucces := cvSaveImage s.attempts.length
      let s := saveImage baseOfilename mySeriesNum entry f wasSucces s
      if wasSucces ∧ s.imageNumSaved = maxJpgImagesSavedPerThread then .ok (s, true)
      else
        saveImages maxJpgImagesSavedPerThread baseOfilename mySeriesNum cvSaveImage entries fs
          s.turned

def saveThreadImages {F : Type} (cfg : Config F) (baseOfilename : List Char)
    (gHistory : List FDHistoryEntry) (mySeriesNum : Nat) (cvSaveImage : Nat → Bool)
    (pFaces : List Face) (outputFilename : List Char) : Except Fault ImageCall :=
  match pFaces with
  | [] => .ok ⟨outputFilename, [], false⟩
  | f :: fs =>
    if gHistory = [] then .error .assertHistoryNonempty
    else do
      match ← seekEntry f.frameId gHistory with
      | [] => .error .assertHistoryItr
      | entry :: entries =>
        if entry.frameId ≠ f.frameId then .error .assertFrameId
        else do
          let (s, returned) ← saveImages cfg.maxJpgImagesSavedPerThread baseOfilename mySeriesNum
            cvSaveImage (entry :: entries) (f :: fs) ⟨0, 0, outputFilename, []⟩
          .ok ⟨s.outputFilename, s.attempts, returned⟩

/-! ## The loop -/

/-- The attempt shows the face in its own frame's image. -/
def ImageAttempt.Shows (history : List FDHistoryEntry) (f : Face) (a : ImageAttempt) : Prop :=
  a.entry ∈ history ∧ a.entry.frameId = f.frameId ∧ a.roi = f.toCvRect

/-- The name in the caller's string after `new` attempts, the first of which found none. -/
def firstSaved (baseOfilename outputFilename : List Char) (new : List ImageAttempt) : List Char :=
  match new.find? ImageAttempt.wasSucces with
  | some a => a.filename.text baseOfilename
  | none => outputFilename

/-- What the loop has done from `s` to `t` with `new` attempts at `faces`. -/
structure SavesImages (max : Int) (baseOfilename : List Char) (history : List FDHistoryEntry)
    (cvSaveImage : Nat → Bool) (faces : List Face) (new : List ImageAttempt) (s t : ImageLoop)
    (returned : Bool) : Prop where
  attempts : t.attempts = s.attempts ++ new
  inOrder : List.Forall₂ (ImageAttempt.Shows history) (faces.take new.length) new
  answers : ∀ i a, new[i]? = some a → a.wasSucces = cvSaveImage (s.attempts.length + i)
  count : t.imageNumSaved = s.imageNumSaved + new.countP ImageAttempt.wasSucces
  atMost : (s.imageNumSaved : Int) < max → (t.imageNumSaved : Int) ≤ max
  fewer : (t.imageNumSaved : Int) ≠ max ∨ max ≤ s.imageNumSaved → new.length = faces.length
  returned : returned = decide (0 < t.imageNumSaved)
  filename : t.outputFilename = if s.imageNumSaved = 0 then
    firstSaved baseOfilename s.outputFilename new else s.outputFilename

section
variable {max : Int} {baseOfilename : List Char} {mySeriesNum : Nat} {cvSaveImage : Nat → Bool}
  {history entries : List FDHistoryEntry} {faces : List Face}

namespace SavesImages

variable {new : List ImageAttempt} {s t : ImageLoop} {returned : Bool}

theorem done (s : ImageLoop) : SavesImages max baseOfilename history cvSaveImage [] [] s s
    (decide (s.imageNumSaved > 0)) where
  attempts := (List.append_nil _).symm
  inOrder := .nil
  answers i a h := by cases h
  count := rfl
  atMost := Int.le_of_lt
  fewer _ := rfl
  returned := rfl
  filename := by simp [firstSaved]

/-- `image_num` is no part of what the loop has done. -/
theorem of_turned
    (h : SavesImages max baseOfilename history cvSaveImage faces new s.turned t returned) :
    SavesImages max baseOfilename history cvSaveImage faces new s t returned :=
  ⟨h.attempts, h.inOrder, h.answers, h.count, h.atMost, h.fewer, h.returned, h.filename⟩

/-- The limit ends the loop. -/
theorem full {entry : FDHistoryEntry} {f : Face} (hentry : entry ∈ history)
    (hid : entry.frameId = f.frameId) (hsaved : cvSaveImage s.attempts.length = true)
    (hmax : ((s.imageNumSaved + 1 : Nat) : Int) = max) :
    SavesImages max baseOfilename history cvSaveImage (f :: faces)
      [⟨.image mySeriesNum s.imageNum, entry, f.toCvRect, true⟩] s
      (saveImage baseOfilename mySeriesNum entry f true s) true where
  attempts := rfl
  inOrder := .cons ⟨hentry, hid, rfl⟩ .nil
  answers i a h := by
    obtain ⟨rfl, rfl⟩ : i = 0 ∧ _ = a := by simpa using List.getElem?_eq_some_iff.mp h
    exact hsaved.symm
  count := rfl
  atMost _ := hmax.le
  fewer h := by
    obtain h | h := h
    · exact absurd hmax h
    · omega
  returned := rfl
  filename := rfl

/-- An attempt, and what the loop does from there. -/
theorem cons {entry : FDHistoryEntry} {f : Face} {wasSucces : Bool} (hentry : entry ∈ history)
    (hid : entry.frameId = f.frameId) (hanswer : wasSucces = cvSaveImage s.attempts.length)
    (hgoes : ¬ (wasSucces = true ∧ ((s.imageNumSaved + 1 : Nat) : Int) = max))
    (h : SavesImages max baseOfilename history cvSaveImage faces new
      (saveImage baseOfilename mySeriesNum entry f wasSucces s) t returned) :
    SavesImages max baseOfilename history cvSaveImage (f :: faces)
      (⟨.image mySeriesNum s.imageNum, entry, f.toCvRect, wasSucces⟩ :: new) s t returned := by
  have hattempts := h.attempts
  have hanswers := h.answers
  have hcount := h.count
  have hatMost := h.atMost
  have hfewer := h.fewer
  have hfilename := h.filename
  -- the counter goes up with a success only
  have hsaved : (saveImage baseOfilename mySeriesNum entry f wasSucces s).imageNumSaved =
      s.imageNumSaved + if wasSucces then 1 else 0 := by
    cases wasSucces <;> rfl
  have hlist : (saveImage baseOfilename mySeriesNum entry f wasSucces s).attempts =
      s.attempts ++ [⟨.image mySeriesNum s.imageNum, entry, f.toCvRect, wasSucces⟩] := by
    cases wasSucces <;> rfl
  rw [hlist] at hattempts hanswers
  rw [hsaved] at hcount hatMost hfewer hfilename
  refine ⟨?_, .cons ⟨hentry, hid, rfl⟩ h.inOrder, fun i a hi => ?_, ?_, fun hlt => hatMost ?_,
    fun hall => ?_, h.returned, ?_⟩
  · rw [hattempts, List.append_assoc, List.singleton_append]
  · cases i with
    | zero =>
      cases hi
      exact hanswer
    | succ i =>
      have hnext := hanswers i a hi
      rwa [List.length_append, List.length_singleton, add_assoc, add_comm 1 i] at hnext
  · rw [hcount, List.countP_cons, add_assoc, add_comm (List.countP _ new)]
  · cases wasSucces with
    | false => simpa using hlt
    | true =>
      have hne : ((s.imageNumSaved + 1 : Nat) : Int) ≠ max := fun heq => hgoes ⟨rfl, heq⟩
      simp only [if_true]
      omega
  · rw [List.length_cons, List.length_cons, hfewer (hall.imp id fun hle => ?_)]
    omega
  · rw [hfilename]
    cases wasSucces with
    | false => rfl
    | true => rfl

end SavesImages

/-- In step, the loop returns. -/
theorem saveImages_ok (max : Int) (baseOfilename : List Char) (mySeriesNum : Nat)
    (cvSaveImage : Nat → Bool) (h : InStep entries faces) (hsub : entries ⊆ history)
    (s : ImageLoop) :
    ∃ new t returned,
      saveImages max baseOfilename mySeriesNum cvSaveImage entries faces s = .ok (t, returned) ∧
      SavesImages max baseOfilename history cvSaveImage faces new s t returned := by
  induction h generalizing s with
  | done entries => exact ⟨[], s, _, by rw [saveImages], .done s⟩
  | @skip entry entries f faces lt rest ih =>
    rw [saveImages, if_pos lt]
    obtain ⟨new, t, returned, hrun, hsaves⟩ :=
      ih (List.Subset.trans (List.subset_cons_self _ _) hsub) s.turned
    exact ⟨new, t, returned, hrun, hsaves.of_turned⟩
  | @take entry entries f faces eq image rest ih =>
    have hentry : entry ∈ history := hsub List.mem_cons_self
    rw [saveImages, if_neg eq.not_lt, if_neg (not_not.mpr eq), if_neg image]
    dsimp only
    split
    · next hfull =>
      obtain ⟨hsaved, hmax⟩ := hfull
      rw [hsaved] at hmax ⊢
      exact ⟨_, _, true, rfl, .full hentry eq hsaved hmax⟩
    · next hgoes =>
      obtain ⟨new, t, returned, hrun, hsaves⟩ :=
        ih (List.Subset.trans (List.subset_cons_self _ _) hsub)
          (saveImage baseOfilename mySeriesNum entry f (cvSaveImage s.attempts.length) s).turned
      refine ⟨_, t, returned, hrun, .cons hentry eq rfl (fun hfull => hgoes ?_) hsaves.of_turned⟩
      obtain ⟨hsaved, hmax⟩ := hfull
      rw [hsaved]
      exact ⟨rfl, hmax⟩

end

/-! ## The call -/

/-- The attempts go through the faces in order, each on the entry of its own frame; the
first `max` successes are saved, or all where the faces run out; and the result and the
file name are those of the first image saved. -/
structure RespectsLimit (max : Int) (baseOfilename : List Char) (history : List FDHistoryEntry)
    (cvSaveImage : Nat → Bool) (faces : List Face) (call : ImageCall) : Prop where
  inOrder : List.Forall₂ (ImageAttempt.Shows history) (faces.take call.attempts.length) call.attempts
  answers : ∀ i a, call.attempts[i]? = some a → a.wasSucces = cvSaveImage i
  atMost : (call.attempts.countP ImageAttempt.wasSucces : Int) ≤ max
  fewer : (call.attempts.countP ImageAttempt.wasSucces : Int) < max →
    call.attempts.length = faces.length
  returned : call.returned = true ↔ ∃ a ∈ call.attempts, a.wasSucces = true
  filename : ∀ a, call.attempts.find? ImageAttempt.wasSucces = some a →
    call.outputFilename = a.filename.text baseOfilename

section
variable {F : Type} {cfg : Config F} {history : List FDHistoryEntry} {pFaces : List Face}

theorem saveThreadImages_ok (cfg : Config F) (baseOfilename outputFilename : List Char)
    (mySeriesNum : Nat) (cvSaveImage : Nat → Bool) (hne : pFaces ≠ [])
    (increasing : pFaces.Pairwise fun f f' => f.frameId < f'.frameId)
    (covers : Covers history pFaces) :
    ∃ call t, saveThreadImages cfg baseOfilename history mySeriesNum cvSaveImage pFaces
        outputFilename = .ok call ∧
      call.outputFilename = t.outputFilename ∧ call.attempts = t.attempts ∧
      SavesImages cfg.maxJpgImagesSavedPerThread baseOfilename history cvSaveImage pFaces
        call.attempts ⟨0, 0, outputFilename, []⟩ t call.returned := by
  obtain ⟨f, fs, rfl⟩ := List.exists_cons_of_ne_nil hne
  obtain ⟨entry, entries, hseek, hid, hsub, hstep⟩ :=
    seekEntry_ok covers.sorted covers.images increasing fun g hg =>
      covers.mem_of_within hne (within_of_mem increasing hne hg).1 (within_of_mem increasing hne hg).2
  obtain ⟨new, t, returned, hrun, hsaves⟩ := saveImages_ok cfg.maxJpgImagesSavedPerThread
    baseOfilename mySeriesNum cvSaveImage hstep hsub ⟨0, 0, outputFilename, []⟩
  have hhist : history ≠ [] := List.ne_nil_of_mem (hsub List.mem_cons_self)
  refine ⟨⟨t.outputFilename, t.attempts, returned⟩, t, ?_, rfl, rfl, hsaves.attempts ▸ hsaves⟩
  simp only [saveThreadImages, if_neg hhist, hseek, Outcome.ok_bind, hid, ne_eq, not_true, if_false,
    hrun]

/-- With a limit of at least one, or without a success, the call does what its limit says;
with a limit of zero every image that can be saved is. -/
theorem saveThreadImages_respectsLimit_iff (baseOfilename outputFilename : List Char)
    (mySeriesNum : Nat) (cvSaveImage : Nat → Bool) (hne : pFaces ≠ [])
    (increasing : pFaces.Pairwise fun f f' => f.frameId < f'.frameId)
    (covers : Covers history pFaces) (hmax : 0 ≤ cfg.maxJpgImagesSavedPerThread) :
    (∃ call, saveThreadImages cfg baseOfilename history mySeriesNum cvSaveImage pFaces
        outputFilename = .ok call ∧
      RespectsLimit cfg.maxJpgImagesSavedPerThread baseOfilename history cvSaveImage pFaces call) ↔
      1 ≤ cfg.maxJpgImagesSavedPerThread ∨ ∀ n < pFaces.length, cvSaveImage n = false := by
  obtain ⟨call, t, hcall, hname, hattempts, hsaves⟩ := saveThreadImages_ok cfg baseOfilename
    outputFilename mySeriesNum cvSaveImage hne increasing covers
  have hcount : t.imageNumSaved = call.attempts.countP ImageAttempt.wasSucces :=
    hsaves.count.trans (Nat.zero_add _)
  have hanswers : ∀ i a, call.attempts[i]? = some a → a.wasSucces = cvSaveImage i := by
    intro i a hi
    rw [hsaves.answers i a hi, List.length_nil, zero_add]
  have hatMost := hsaves.atMost
  have hfewer := hsaves.fewer
  have hreturned := hsaves.returned
  rw [hcount] at hatMost hfewer hreturned
  have hlen : call.attempts.length ≤ pFaces.length := by
    have hall := hsaves.inOrder.length_eq
    rw [List.length_take] at hall
    omega
  constructor
  · rintro ⟨_, hcall', h⟩
    cases hcall.symm.trans hcall'
    refine or_iff_not_imp_left.mpr fun hzero n hn => ?_
    -- with a limit of zero all faces are attempted
    have hall : call.attempts.length = pFaces.length := hfewer (.inr (by push_cast; omega))
    have hnone : call.attempts.countP ImageAttempt.wasSucces = 0 := by
      have := h.atMost
      omega
    rw [← hall] at hn
    rw [← hanswers n _ (List.getElem?_eq_getElem hn), ← Bool.not_eq_true]
    exact List.countP_eq_zero.mp hnone _ (List.getElem_mem hn)
  · intro h
    refine ⟨call, hcall, hsaves.inOrder, hanswers, ?_, fun hlt => hfewer (.inl hlt.ne), ?_, ?_⟩
    · obtain hpos | hfail := h
      · exact hatMost (by push_cast; omega)
      · have hnone : call.attempts.countP ImageAttempt.wasSucces = 0 := by
          rw [List.countP_eq_zero]
          intro a ha
          obtain ⟨i, hi⟩ := List.mem_iff_getElem?.mp ha
          obtain ⟨hlt, -⟩ := List.getElem?_eq_some_iff.mp hi
          rw [hanswers i a hi, hfail i (by omega)]
          exact Bool.false_ne_true
        rw [hnone]
        exact_mod_cast hmax
    · rw [hreturned, decide_eq_true_iff, List.countP_pos_iff]
    · intro a ha
      rw [hname, hsaves.filename, if_pos rfl, firstSaved, ha]

end

/-- The first image cannot be saved, and the second uses up a limit of one. -/
theorem saveThreadImages_secondSaved :
    (∃ call, saveThreadImages (Config.declared (F := ℚ)) ['v'] fiveFrames 1 (fun n => n = 1)
        twoFaces [] = .ok call ∧
      RespectsLimit 1 ['v'] fiveFrames (fun n => n = 1) twoFaces call) ↔
      (1 : Int) ≤ 1 ∨ ∀ n < twoFaces.length, decide (n = 1) = false :=
  saveThreadImages_respectsLimit_iff _ _ _ _ (by decide) (by decide) covers_fiveFrames (by decide)

/-- A limit of zero, and both images are saved. -/
theorem saveThreadImages_limitZero :
    Covers fiveFrames twoFaces ∧ ¬ ∃ call,
      saveThreadImages { Config.declared (F := ℚ) with maxJpgImagesSavedPerThread := 0 } ['v']
        fiveFrames 1 (fun _ => true) twoFaces [] = .ok call ∧
      RespectsLimit 0 ['v'] fiveFrames (fun _ => true) twoFaces call := by
  refine ⟨covers_fiveFrames, ?_⟩
  rintro ⟨call, hcall, h⟩
  obtain ⟨call', hcall', hboth⟩ := Outcome.exists_of_returns (p := fun call : ImageCall =>
    decide (call.attempts.countP ImageAttempt.wasSucces = 2)) (x := saveThreadImages
      { Config.declared (F := ℚ) with maxJpgImagesSavedPerThread := 0 } ['v'] fiveFrames 1
      (fun _ => true) twoFaces []) (by decide +kernel)
  cases hcall.symm.trans hcall'
  have hatMost := h.atMost
  rw [of_decide_eq_true hboth] at hatMost
  exact absurd hatMost (by decide)

end PlanetariumFD
