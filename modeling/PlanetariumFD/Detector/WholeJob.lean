import PlanetariumFD.Detector.Custody
import PlanetariumFD.Detector.ExportTurns

/-!
# `saveAndDeleteThread`

The whole of a save job on a history that stands still: `pruneFacesList`, the test, an
export and its registration for the images, the video and the smoothed video, and the
erase. It is what the job's turns come to when no other party steps between them: under
the same answers they export the same images and frames, take the same series numbers and
register the same files.
-/

namespace PlanetariumFD

open Outcome Transition

/-- `image_series_cnt`, and the names that were registered so far. -/
structure Registered where
  imageSeriesCnt : Nat
  names : List (List Char)
  deriving DecidableEq, Repr

/-- An export that has returned. -/
structure ExportCall where
  pFaces : List Face
  outputFilename : List Char
  returned : Bool
  deriving DecidableEq, Repr

section
variable {F : Type} [FloatOps F]

def callExport (cfg : Config F) (baseOfilename : List Char) (estimatedFps : F)
    (gHistory : List FDHistoryEntry) (answers : SaveAnswers) (mySeriesNum : Nat)
    (pFaces : List Face) : Export → Except Fault ExportCall
  | .images =>
    (saveThreadImages cfg baseOfilename gHistory mySeriesNum answers.cvSaveImage pFaces []).map
      fun call => ⟨pFaces, call.outputFilename, call.returned⟩
  | .video isSmoothVideo =>
    (saveThreadVideo cfg baseOfilename estimatedFps gHistory mySeriesNum (answers.video isSmoothVideo)
      pFaces [] isSmoothVideo).map fun call => ⟨call.pFaces, call.outputFilename, call.returned⟩

/-- One of the three blocks: export, and register the file if that has worked. -/
def saveAndRegister (cfg : Config F) (baseOfilename : List Char) (estimatedFps : F)
    (gHistory : List FDHistoryEntry) (answers : SaveAnswers) (th : FDFaceThread) (r : Registered)
    (e : Export) : Except Fault (FDFaceThread × Registered) :=
  if takesSeries cfg th e then do
    let mySeriesNum ← nextSeries r.imageSeriesCnt
    let call ← callExport cfg baseOfilename estimatedFps gHistory answers mySeriesNum th.pFaces e
    .ok ({ th with pFaces := call.pFaces },
      ⟨mySeriesNum, if call.returned then r.names ++ [call.outputFilename] else r.names⟩)
  else .ok (th, r)

def saveBlocks (cfg : Config F) (baseOfilename : List Char) (estimatedFps : F)
    (gHistory : List FDHistoryEntry) (answers : SaveAnswers) :
    List Export → FDFaceThread → Registered → Except Fault (FDFaceThread × Registered)
  | [], th, r => .ok (th, r)
  | e :: todo, th, r => do
    let s ← saveAndRegister cfg baseOfilename estimatedFps gHistory answers th r e
    saveBlocks cfg baseOfilename estimatedFps gHistory answers todo s.1 s.2

/-- `saveAndDeleteThread` from its first line to its last. -/
def wholeJob (cfg : Config F) (baseOfilename : List Char) (answers : SaveAnswers) (g : Shared F)
    (pTh imageSeriesCnt : Nat) : Except Fault (Shared F × Registered) :=
  match g.gThreadsBeingSerialized.get? pTh with
  | none => .error .danglingPointer
  | some th => do
    let th ← th.pruneFacesList cfg
    let r ← saveBlocks cfg baseOfilename g.estimatedFps g.gHistory.vals answers
      (if passesSave cfg th then [.images, .video false, .video true] else []) th
      ⟨imageSeriesCnt, []⟩
    let g ← deleteThreadFromGThreadsBeingSerialized { g with
      gThreadsBeingSerialized := g.gThreadsBeingSerialized.modify pTh fun _ => r.1 } pTh
    .ok (g, r.2)

/-! ## The exports of a job -/

/-- An export that has taken the series `mySeriesNum`. -/
def recordedCall (cfg : Config F) (baseOfilename : List Char) (estimatedFps : F)
    (gHistory : List FDHistoryEntry) (answers : SaveAnswers) (mySeriesNum : Nat)
    (pFaces : List Face) : Export → Except Fault (ExportRecord F)
  | .images =>
    (saveThreadImages cfg baseOfilename gHistory mySeriesNum answers.cvSaveImage pFaces []).map
      (.images mySeriesNum)
  | .video isSmoothVideo =>
    (saveThreadVideo cfg baseOfilename estimatedFps gHistory mySeriesNum (answers.video isSmoothVideo)
      pFaces [] isSmoothVideo).map (.video mySeriesNum isSmoothVideo)

/-- The exports that take a series, one after another. -/
def exportCalls (cfg : Config F) (baseOfilename : List Char) (estimatedFps : F)
    (gHistory : List FDHistoryEntry) (answers : SaveAnswers) (th : FDFaceThread) :
    Nat → List Export → Except Fault (List (ExportRecord F))
  | _, [] => .ok []
  | imageSeriesCnt, e :: todo =>
    if takesSeries cfg th e then do
      let mySeriesNum ← nextSeries imageSeriesCnt
      let call ← recordedCall cfg baseOfilename estimatedFps gHistory answers mySeriesNum th.pFaces e
      let calls ← exportCalls cfg baseOfilename estimatedFps gHistory answers th mySeriesNum todo
      .ok (call :: calls)
    else exportCalls cfg baseOfilename estimatedFps gHistory answers th imageSeriesCnt todo

/-- The exports that `wholeJob` calls, each as it returned. -/
def jobCalls (cfg : Config F) (baseOfilename : List Char) (answers : SaveAnswers) (g : Shared F)
    (pTh imageSeriesCnt : Nat) : Except Fault (List (ExportRecord F)) :=
  match g.gThreadsBeingSerialized.get? pTh with
  | none => .error .danglingPointer
  | some th => do
    let th ← th.pruneFacesList cfg
    exportCalls cfg baseOfilename g.estimatedFps g.gHistory.vals answers th imageSeriesCnt
      (if passesSave cfg th then [.images, .video false, .video true] else [])

/-- The names of the exports that have worked. -/
def registeredNames (calls : List (ExportRecord F)) : List (List Char) :=
  (calls.filter ExportRecord.returned).map ExportRecord.outputFilename

/-- The locals of a job that is about to start. -/
def SaveLocals.start (imageSeriesCnt : Nat) : SaveLocals F where
  imageSeriesCnt := imageSeriesCnt
  images := ⟨0, 0, [], []⟩
  size := ⟨0, 0⟩
  video := ⟨[], none, [], [], false⟩
  calls := []

/-- A turn of job `k` with what it does, when OpenCV answers as it should. -/
def answeredStep (cfg : Config F) (baseOfilename : List Char) (answers : SaveAnswers) (k : Nat)
    (s : System F × SaveLocals F) (isOk : Bool) : Except Halt (System F × SaveLocals F) :=
  match s.1.sh.jobs[k]? with
  | none => .error .disabled
  | some j =>
    if isOk = s.2.answer answers j.pc then do
      let t ← step cfg s.1 (.job k isOk)
      let l ← orHalt (s.2.turn cfg baseOfilename answers s.1.sh j.pTh j.pc)
      .ok (t, l)
    else .error .disabled

/-! ## Turns -/

variable {cfg : Config F} {baseOfilename : List Char} {answers : SaveAnswers} {s : System F}
  {k : Nat} {j : Job}

omit [FloatOps F] in
theorem setJobPC_setJobPC (g : Shared F) (k : Nat) (j : Job) (pc pc' : JobPC) :
    setJobPC (setJobPC g k j pc) k { j with pc := pc } pc' = setJobPC g k j pc' := by
  simp only [setJobPC, List.set_set]

omit [FloatOps F] in
theorem getElem?_setJobPC {g : Shared F} (hj : g.jobs[k]? = some j) (pc : JobPC) :
    (setJobPC g k j pc).jobs[k]? = some { j with pc := pc } := by
  obtain ⟨hlt, -⟩ := List.getElem?_eq_some_iff.mp hj
  exact List.getElem?_set_self hlt

theorem exportStep_setJobPC (g : Shared F) (k : Nat) (j : Job) (pc : JobPC) (pTh : Nat)
    (isOk : Bool) (pc' : JobPC) :
    exportStep cfg (setJobPC g k j pc) pTh isOk pc' = exportStep cfg g pTh isOk pc' := by
  cases pc' with
  | saving todo => cases todo <;> rfl
  | _ => rfl

theorem exportStep_ne_started {g : Shared F} {pTh : Nat} {isOk : Bool} {pc pc' : JobPC}
    (h : exportStep cfg g pTh isOk pc = .ok pc') (hpc : pc ≠ .started) : pc' ≠ .started := by
  unfold exportStep at h
  split at h
  · split at h
    · cases h
    · obtain rfl | ⟨f, fs, p, -, -, -, rfl⟩ := startExport_ok h <;> simp
  · obtain rfl | ⟨f, fs, a, entry, saved', -, -, -, ⟨-, rfl⟩ | ⟨-, rfl⟩⟩ := walkHistory_ok h <;> simp
  · cases h
    exact hpc

/-- A turn of the job that is neither its first nor its last. -/
theorem step_turn (s : System F) {g : Shared F} (hj : g.jobs[k]? = some j) {pc pc' : JobPC}
    {isOk : Bool} (hstart : pc ≠ .started) (hfinished : pc ≠ .finished) (hdone : pc ≠ .saving [])
    (h : exportTurn cfg g j.pTh pc isOk = .ok pc') :
    step cfg { s with sh := setJobPC g k j pc } (.job k isOk) =
      .ok { s with sh := setJobPC g k j pc' } := by
  have hsave : saveAndDeleteThread cfg (setJobPC g k j pc) k { j with pc := pc } isOk =
      .ok (setJobPC g k j pc') := by
    unfold saveAndDeleteThread
    dsimp only
    split
    · exact absurd rfl hstart
    · exact absurd rfl hdone
    · exact absurd rfl hfinished
    · rw [exportStep_setJobPC]
      rw [exportTurn] at h
      rw [h, ok_bind, setJobPC_setJobPC]
  simp only [step, getElem?_setJobPC hj, if_neg hfinished, hsave, orHalt_ok, ok_bind]

/-- A turn with what it does is a step of the job that OpenCV answers as it should. -/
theorem answeredStep_eq {s t : System F} {l l' : SaveLocals F} {j : Job}
    (hj : s.sh.jobs[k]? = some j) (hstep : step cfg s (.job k (l.answer answers j.pc)) = .ok t)
    (hl : l.turn cfg baseOfilename answers s.sh j.pTh j.pc = .ok l') :
    answeredStep cfg baseOfilename answers k (s, l) (l.answer answers j.pc) = .ok (t, l') := by
  simp only [answeredStep, hj, if_true, hstep, hl, orHalt_ok, ok_bind]

/-- Leave out what the turns do. -/
theorem run_of_answered {l l' : SaveLocals F} {t : System F} {oks : List Bool}
    (h : run (answeredStep cfg baseOfilename answers k) (s, l) oks = .ok (t, l')) :
    run (step cfg) s (oks.map (Action.job k)) = .ok t := by
  refine run_induction (P := fun oks x => run (step cfg) s (oks.map (Action.job k)) = .ok x.1) rfl
    ?_ h
  intro oks x isOk y _ ih hst
  rw [List.map_append]
  refine run_snoc_iff.mpr ⟨x.1, ih, ?_⟩
  unfold answeredStep at hst
  split at hst
  · cases hst
  · split at hst
    · obtain ⟨u, hu, hst⟩ := bind_eq_ok.mp hst
      obtain ⟨l, -, hst⟩ := bind_eq_ok.mp hst
      cases hst
      exact hu
    · cases hst

theorem turn_setJobPC (g : Shared F) (k : Nat) (j : Job) (pc : JobPC) (pTh : Nat)
    (l : SaveLocals F) (pc' : JobPC) :
    l.turn cfg baseOfilename answers (setJobPC g k j pc) pTh pc' =
      l.turn cfg baseOfilename answers g pTh pc' := by
  match pc' with
  | .started | .finished | .saving [] | .saving (_ :: _) => rfl
  | .walking .images _ _ _ _ | .walking (.video _) _ _ _ _ => rfl

theorem answeredTurn_ok {g : Shared F} {pTh : Nat} {x : JobPC × SaveLocals F} {isOk : Bool}
    {pc : JobPC} {l : SaveLocals F}
    (h : answeredTurn cfg baseOfilename answers g pTh x isOk = .ok (pc, l)) :
    isOk = x.2.answer answers x.1 ∧ exportTurn cfg g pTh x.1 isOk = .ok pc ∧
      x.2.turn cfg baseOfilename answers g pTh x.1 = .ok l := by
  unfold answeredTurn at h
  split at h
  · next hanswer =>
    obtain ⟨pc', hpc, h⟩ := bind_eq_ok.mp h
    obtain ⟨l', hl, h⟩ := bind_eq_ok.mp h
    cases h
    exact ⟨hanswer, orHalt_eq_ok.mp hpc, orHalt_eq_ok.mp hl⟩
  · cases h

/-- Turns that lead to the next export or to the erase are steps of the job. -/
theorem run_of_turns (s : System F) {g : Shared F} (hj : g.jobs[k]? = some j) {todo : List Export}
    {oks : List Bool} {l' : SaveLocals F} : ∀ {pc : JobPC} {l : SaveLocals F}, pc ≠ .started →
      pc ≠ .finished →
      run (answeredTurn cfg baseOfilename answers g j.pTh) (pc, l) oks = .ok (.saving todo, l') →
      ∃ oks' : List Bool, run (answeredStep cfg baseOfilename answers k)
        ({ s with sh := setJobPC g k j pc }, l) oks' =
          .ok ({ s with sh := setJobPC g k j (.saving todo) }, l') := by
  induction oks with
  | nil =>
    intro pc l _ _ h
    cases h
    exact ⟨[], rfl⟩
  | cons isOk oks ih =>
    intro pc l hstart hfinished h
    cases hturn : answeredTurn cfg baseOfilename answers g j.pTh (pc, l) isOk with
    | error f =>
      rw [run, hturn] at h
      cases h
    | ok x =>
      obtain ⟨pc', l₁⟩ := x
      rw [run_cons hturn] at h
      obtain ⟨rfl, hpc, hlocals⟩ := answeredTurn_ok hturn
      by_cases hdone : pc = .saving []
      · -- nothing is left to be exported, and the turns do nothing
        subst hdone
        cases hpc
        cases hlocals
        exact ih hstart hfinished h
      · obtain ⟨oks', hrun⟩ :=
          ih (exportStep_ne_started hpc hstart) (exportStep_ne_finished hpc hfinished) h
        have hstep := answeredStep_eq (j := { j with pc := pc }) (getElem?_setJobPC hj pc)
          (step_turn s hj hstart hfinished hdone hpc)
          ((turn_setJobPC g k j pc j.pTh l pc).trans hlocals)
        exact ⟨_ :: oks', (run_cons hstep oks').trans hrun⟩

/-! ## The job -/

/-- An export that its first test turns away takes one turn, and leaves no trace. -/
theorem turn_refused {g : Shared F} {pTh : Nat} {th : FDFaceThread} {e : Export}
    {l : SaveLocals F} (hth : g.gThreadsBeingSerialized.get? pTh = some th)
    (h : takesSeries cfg th e = false) (todo : List Export) :
    answeredTurn cfg baseOfilename answers g pTh (.saving (e :: todo), l)
      (l.answer answers (.saving (e :: todo))) = .ok (.saving todo, l) := by
  have hfaces : exportFaces cfg e th = .ok none := by
    cases e with
    | images =>
      have hnil : th.pFaces = [] := by simpa [takesSeries] using h
      rw [exportFaces, if_pos hnil]
    | video isSmoothVideo =>
      have hshort : (th.pFaces.length : Int) < cfg.minFramesForVideo := by
        simpa [takesSeries] using h
      rw [exportFaces, if_pos hshort]
  refine answeredTurn_eq ?_ ?_
  · rw [turn_starts hth, startExport, hfaces]
    rfl
  · rw [SaveLocals.turn, hth]
    dsimp only
    rw [SaveLocals.startExport, if_neg (by rw [h]; exact Bool.false_ne_true)]

/-- What turns of the job have done while the blocks went from `r` to `r'`. -/
structure Exported (l l' : SaveLocals F) (r r' : Registered) (calls : List (ExportRecord F)) :
    Prop where
  series : l'.imageSeriesCnt = r'.imageSeriesCnt
  new : l'.calls = l.calls ++ calls
  names : r'.names = r.names ++ registeredNames calls

omit [FloatOps F] in
theorem Exported.trans {l l' l'' : SaveLocals F} {r r' r'' : Registered}
    {calls calls' : List (ExportRecord F)} (h : Exported l l' r r' calls)
    (h' : Exported l' l'' r' r'' calls') : Exported l l'' r r'' (calls ++ calls') where
  series := h'.series
  new := by rw [h'.new, h.new, List.append_assoc]
  names := by
    rw [h'.names, h.names, List.append_assoc, registeredNames, registeredNames, registeredNames,
      List.filter_append, List.map_append]

omit [FloatOps F] in
theorem registeredNames_singleton (call : ExportRecord F) :
    registeredNames [call] = if call.returned then [call.outputFilename] else [] := by
  cases hreturned : call.returned <;> simp [registeredNames, hreturned]

/-- A call, in turns. -/
theorem turns_of_callExport {g : Shared F} {pTh : Nat} {th : FDFaceThread} {l : SaveLocals F}
    {mySeriesNum : Nat} {e : Export} {c : ExportCall}
    (hth : g.gThreadsBeingSerialized.get? pTh = some th) (htakes : takesSeries cfg th e = true)
    (hseries : nextSeries l.imageSeriesCnt = .ok mySeriesNum)
    (h : callExport cfg baseOfilename g.estimatedFps g.gHistory.vals answers mySeriesNum th.pFaces
      e = .ok c) (todo : List Export) :
    c.pFaces = th.pFaces ∧ ∃ call, recordedCall cfg baseOfilename g.estimatedFps g.gHistory.vals
        answers mySeriesNum th.pFaces e = .ok call ∧
      call.returned = c.returned ∧ call.outputFilename = c.outputFilename ∧
      ∃ oks l', run (answeredTurn cfg baseOfilename answers g pTh) (.saving (e :: todo), l) oks =
          .ok (.saving todo, l') ∧
        l'.imageSeriesCnt = mySeriesNum ∧ l'.calls = l.calls ++ [call] := by
  cases e with
  | images =>
    obtain ⟨call, hcall, rfl⟩ := map_eq_ok.mp h
    exact ⟨rfl, _, map_eq_ok.mpr ⟨call, hcall, rfl⟩, rfl, rfl,
      saveThreadImages_turns hth htakes hseries hcall todo⟩
  | video isSmoothVideo =>
    obtain ⟨call, hcall, rfl⟩ := map_eq_ok.mp h
    exact ⟨saveThreadVideo_pFaces hcall, _, map_eq_ok.mpr ⟨call, hcall, rfl⟩, rfl, rfl,
      saveThreadVideo_turns hth htakes hseries hcall todo⟩

/-- One block, in turns; it leaves the thread as it was. -/
theorem turns_of_saveAndRegister {g : Shared F} {pTh : Nat} {th : FDFaceThread} {r : Registered}
    {l : SaveLocals F} {e : Export} {x : FDFaceThread × Registered}
    (hth : g.gThreadsBeingSerialized.get? pTh = some th)
    (hseries : l.imageSeriesCnt = r.imageSeriesCnt)
    (h : saveAndRegister cfg baseOfilename g.estimatedFps g.gHistory.vals answers th r e = .ok x)
    (todo : List Export) : x.1 = th ∧
      ∃ oks l' calls, run (answeredTurn cfg baseOfilename answers g pTh) (.saving (e :: todo), l)
          oks = .ok (.saving todo, l') ∧
        Exported l l' r x.2 calls ∧
        ∀ calls', exportCalls cfg baseOfilename g.estimatedFps g.gHistory.vals answers th
            x.2.imageSeriesCnt todo = .ok calls' →
          exportCalls cfg baseOfilename g.estimatedFps g.gHistory.vals answers th
            r.imageSeriesCnt (e :: todo) = .ok (calls ++ calls') := by
  unfold saveAndRegister at h
  split at h
  · next htakes =>
    obtain ⟨n, hn, h⟩ := bind_eq_ok.mp h
    obtain ⟨c, hc, h⟩ := bind_eq_ok.mp h
    cases h
    obtain ⟨hsame, call, hcall, hreturned, hname, oks, l', hrun, hn', hcalls⟩ :=
      turns_of_callExport hth htakes ((congrArg nextSeries hseries).trans hn) hc todo
    refine ⟨by rw [hsame], oks, l', [call], hrun, ⟨hn', hcalls, ?_⟩, fun calls' hrest => ?_⟩
    · rw [registeredNames_singleton, hreturned, hname]
      cases c.returned
      · exact (List.append_nil _).symm
      · rfl
    · rw [exportCalls, if_pos htakes, hn, ok_bind, hcall, ok_bind, hrest]
      rfl
  · next hno =>
    cases h
    refine ⟨rfl, [_], l, [], run_singleton.trans (turn_refused hth (by simpa using hno) todo),
      ⟨hseries, (List.append_nil _).symm, (List.append_nil _).symm⟩, fun calls' hrest => ?_⟩
    rw [exportCalls, if_neg hno, hrest, List.nil_append]

/-- The blocks, in turns. -/
theorem turns_of_saveBlocks {g : Shared F} {pTh : Nat} {th : FDFaceThread}
    (hth : g.gThreadsBeingSerialized.get? pTh = some th) {todo : List Export} :
    ∀ {r : Registered} {l : SaveLocals F} {x : FDFaceThread × Registered},
      l.imageSeriesCnt = r.imageSeriesCnt →
      saveBlocks cfg baseOfilename g.estimatedFps g.gHistory.vals answers todo th r = .ok x →
      x.1 = th ∧ ∃ oks l' calls,
        run (answeredTurn cfg baseOfilename answers g pTh) (.saving todo, l) oks =
          .ok (.saving [], l') ∧
        Exported l l' r x.2 calls ∧
        exportCalls cfg baseOfilename g.estimatedFps g.gHistory.vals answers th r.imageSeriesCnt
          todo = .ok calls := by
  induction todo with
  | nil =>
    intro r l x hseries h
    cases h
    exact ⟨rfl, [], l, [], rfl, ⟨hseries, (List.append_nil _).symm, (List.append_nil _).symm⟩, rfl⟩
  | cons e todo ih =>
    intro r l x hseries h
    obtain ⟨⟨th', r'⟩, hblock, hrest⟩ := bind_eq_ok.mp h
    obtain ⟨rfl, oks, l₁, calls, hoks, hdone, hcalls⟩ :=
      turns_of_saveAndRegister hth hseries hblock todo
    obtain ⟨hsame, oks', l₂, calls', hoks', hdone', hcalls'⟩ := ih hdone.series hrest
    exact ⟨hsame, oks ++ oks', l₂, calls ++ calls', run_append_iff.mpr ⟨_, hoks, hoks'⟩,
      hdone.trans hdone', hcalls _ hcalls'⟩

/-- The first turn: the list pruned, and what is to be exported. -/
theorem step_startSave {th th' : FDFaceThread} (hj : s.sh.jobs[k]? = some j) (hpc : j.pc = .started)
    (hth : s.sh.gThreadsBeingSerialized.get? j.pTh = some th)
    (hprune : th.pruneFacesList cfg = .ok th')
    {todo : List Export}
    (htodo : todo = if passesSave cfg th' then [.images, .video false, .video true] else [])
    (isOk : Bool) : step cfg s (.job k isOk) = .ok { s with
      sh := setJobPC { s.sh with
        gThreadsBeingSerialized := s.sh.gThreadsBeingSerialized.modify j.pTh fun _ => th' }
          k j (.saving todo) } := by
  subst htodo
  have hactive : j.pc ≠ .finished := by
    rw [hpc]
    exact fun h => by cases h
  simp only [step, hj, if_neg hactive]
  rw [saveAndDeleteThread]
  split
  · simp only [startSave, hth, hprune, ok_bind, orHalt_ok]
  · next h => cases hpc.symm.trans h
  · next h => cases hpc.symm.trans h
  · next h _ _ => exact absurd hpc h

/-- The last turn: the erase. -/
theorem step_delete (s : System F) {g g' : Shared F} (hj : g.jobs[k]? = some j)
    (h : deleteThreadFromGThreadsBeingSerialized g j.pTh = .ok g') (isOk : Bool) :
    step cfg { s with sh := setJobPC g k j (.saving []) } (.job k isOk) =
      .ok { s with sh := setJobPC g' k j .finished } := by
  have hdelete : deleteThreadFromGThreadsBeingSerialized (setJobPC g k j (.saving [])) j.pTh =
      .ok (setJobPC g' k j (.saving [])) := by
    unfold deleteThreadFromGThreadsBeingSerialized at h ⊢
    split at h
    · cases h
    · next th hth =>
      cases h
      have hth' : (setJobPC g k j (.saving [])).gThreadsBeingSerialized.get? j.pTh = some th := hth
      rw [hth']
      rfl
  simp only [step, getElem?_setJobPC hj, saveAndDeleteThread, hdelete, ok_bind, orHalt_ok,
    setJobPC_setJobPC, reduceCtorEq, if_false]

/-- A save job that nobody interferes with does what `saveAndDeleteThread` does from its
first line to its last: under the same answers of OpenCV its turns make the same exports,
count the same series, register the same names and end in the same state. -/
theorem wholeJob_turns {imageSeriesCnt : Nat} {g : Shared F} {r : Registered}
    (hj : s.sh.jobs[k]? = some j) (hpc : j.pc = .started)
    (h : wholeJob cfg baseOfilename answers s.sh j.pTh imageSeriesCnt = .ok (g, r)) :
    ∃ (oks : List Bool) (l : SaveLocals F),
      run (answeredStep cfg baseOfilename answers k) (s, SaveLocals.start imageSeriesCnt) oks =
        .ok ({ s with sh := setJobPC g k j .finished }, l) ∧
      run (step cfg) s (oks.map (Action.job k)) = .ok { s with sh := setJobPC g k j .finished } ∧
      jobCalls cfg baseOfilename answers s.sh j.pTh imageSeriesCnt = .ok l.calls ∧
      r = ⟨l.imageSeriesCnt, registeredNames l.calls⟩ := by
  unfold wholeJob at h
  split at h
  · cases h
  · next th hth =>
    obtain ⟨th', hprune, h⟩ := bind_eq_ok.mp h
    obtain ⟨x, hblocks, h⟩ := bind_eq_ok.mp h
    obtain ⟨g', hdelete, h⟩ := bind_eq_ok.mp h
    cases h
    -- the state that the first turn leaves
    let g₁ := { s.sh with
      gThreadsBeingSerialized := s.sh.gThreadsBeingSerialized.modify j.pTh fun _ => th' }
    have hj₁ : g₁.jobs[k]? = some j := hj
    have hth₁ : g₁.gThreadsBeingSerialized.get? j.pTh = some th' := by
      show (s.sh.gThreadsBeingSerialized.modify j.pTh fun _ => th').get? j.pTh = some th'
      rw [NodeList.modify, NodeList.get?_alter, hth, Option.map_some, if_pos rfl]
    obtain ⟨rfl, oks, l, calls, hoks, hdone, hcalls⟩ :=
      turns_of_saveBlocks (g := g₁) (l := .start imageSeriesCnt) hth₁ rfl hblocks
    obtain ⟨oks', hrun⟩ := run_of_turns s hj₁ (by simp) (by simp) hoks
    have hfirst : answeredStep cfg baseOfilename answers k (s, .start imageSeriesCnt) _ =
        .ok (_, .start imageSeriesCnt) :=
      answeredStep_eq hj (step_startSave hj hpc hth hprune rfl _) (by rw [hpc]; rfl)
    have hlast : answeredStep cfg baseOfilename answers k (_, l) _ = .ok (_, l) :=
      answeredStep_eq (getElem?_setJobPC hj₁ (.saving [])) (step_delete s hj₁ hdelete _) rfl
    have hall := (run_cons hfirst _).trans
      (run_append_iff.mpr ⟨_, hrun, run_singleton.trans hlast⟩)
    refine ⟨_, l, hall, run_of_answered hall, ?_, ?_⟩
    · rw [jobCalls, hth]
      dsimp only
      rw [hprune, ok_bind, hdone.new]
      exact hcalls
    · rw [hdone.series, hdone.new]
      exact congrArg (Registered.mk x.2.imageSeriesCnt) hdone.names

end

/-- A face is seen in four frames and missed in four, and its job is started. -/
def fourSeen : List Action :=
  [.frame oneDetection, .main, .main, .main] ++
    ((List.replicate 3 (trackingFrame oneDetection)).flatten ++
      (List.replicate 4 (trackingFrame noDetection)).flatten)

def earlyVideos : Config ℚ := { Config.declared with minFramesForVideo := 4 }

/-- The first image and the last frame of the smoothed video cannot be written. -/
def someFail : SaveAnswers where
  cvSaveImage i := decide (i ≠ 0)
  video isSmoothVideo := ⟨true, true, fun i => decide (isSmoothVideo = false ∨ i ≠ 3)⟩

/-- The images and the plain video are registered, the smoothed video is not. -/
theorem wholeJob_turns_fourSeen : ∃ s j g r, run (step earlyVideos) (start earlyVideos 0) fourSeen =
      .ok s ∧ s.sh.jobs[0]? = some j ∧ wholeJob earlyVideos [] someFail s.sh j.pTh 0 = .ok (g, r) ∧
    ∃ (oks : List Bool) (l : SaveLocals ℚ),
      run (answeredStep earlyVideos [] someFail 0) (s, SaveLocals.start 0) oks =
        .ok ({ s with sh := setJobPC g 0 j .finished }, l) ∧
      l.calls.map ExportRecord.returned = [true, true, false] ∧
      r = ⟨3, registeredNames l.calls⟩ := by
  have hruns : returns (fun s => decide (s.sh.jobs[0]? = some ⟨0, 0, .started⟩) &&
      returns (fun x => decide (x.2.imageSeriesCnt = 3))
        (wholeJob earlyVideos [] someFail s.sh 0 0) &&
      returns (fun calls => decide (calls.map ExportRecord.returned = [true, true, false]))
        (jobCalls earlyVideos [] someFail s.sh 0 0))
      (run (step earlyVideos) (start earlyVideos 0) fourSeen) = true := by decide +kernel
  obtain ⟨s, hs, hdec⟩ := exists_of_returns hruns
  obtain ⟨hboth, hexports⟩ := (Bool.and_eq_true _ _).mp hdec
  obtain ⟨hjob, hwhole⟩ := (Bool.and_eq_true _ _).mp hboth
  obtain ⟨⟨g, r⟩, hg, hthree⟩ := exists_of_returns hwhole
  obtain ⟨calls, hcalls, hreturned⟩ := exists_of_returns hexports
  have hj := of_decide_eq_true hjob
  obtain ⟨oks, l, hrun, -, hsame, hr⟩ := wholeJob_turns hj rfl hg
  obtain rfl := Except.ok.inj (hcalls.symm.trans hsame)
  have hcount : l.imageSeriesCnt = 3 := by
    rw [← of_decide_eq_true hthree, hr]
  refine ⟨s, _, g, r, hs, hj, hg, oks, l, hrun, of_decide_eq_true hreturned, ?_⟩
  rw [hr, hcount]

end PlanetariumFD
