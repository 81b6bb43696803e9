import PlanetariumFD.Detector.Progress
import PlanetariumFD.Detector.Settings

/-!
# The tracker under any settings

`initConfig` takes every number it finds. A run is safe as long as each step finds
what it relies on: the divisors are not zero where they divide, and the limit on the
length of a face list leaves a face where a live thread is pruned.
-/

namespace PlanetariumFD

open Outcome Transition

section
variable {F : Type} [FloatOps F] {cfg : Config F} {s t : System F} {a : Action} {lo : Nat}

def NoThreadEmpty (g : Shared F) : Prop := ∀ th ∈ g.gThreads.vals, th.pFaces ≠ []

/-- No live thread is empty before the step or after it. The step takes no remainder by
zero, pops no empty list and, if it is the tracker's, reads no empty list. -/
structure TrackerSafe (cfg : Config F) (s : System F) (a : Action) : Prop where
  before : NoThreadEmpty s.sh
  after : ∀ t, step cfg s a = .ok t → NoThreadEmpty t.sh
  faults : ∀ f, step cfg s a = .error (.fault f) → f ≠ .remainderByZero ∧ f ≠ .popOfEmptyList ∧
    (a = .main → f ≠ .backOfEmptyList)

/-! ## What a run keeps -/

omit [FloatOps F] in
theorem liveThreads_start (cfg : Config F) (now : Int) : LiveThreads (start cfg now) where
  counter := le_refl _
  begun h := absurd rfl h
  nonempty th h := by cases h

theorem LiveThreads.nonempty_after (L : LiveThreads s) (hs : SettingsSuffice cfg s a)
    (h : step cfg s a = .ok t) : NoThreadEmpty t.sh := by
  have hnodes : ∀ p ∈ s.sh.gThreads.nodes, p.2.pFaces ≠ [] := fun p hp =>
    L.nonempty p.2 (NodeList.mem_vals_iff.mpr ⟨p.1, hp⟩)
  intro th hth
  obtain ⟨b, hb⟩ := NodeList.mem_vals_iff.mp hth
  cases step_cases h with
  | frame pc lt =>
    rw [recorded_gThreads] at hth
    exact L.nonempty th hth
  | process pc e =>
    rw [e.nodes] at hb
    obtain ⟨th₀, m, hth₀, -, -, heq⟩ := of_mem_updatedNodes e.inStep hb
    replace heq : th = updateCounters m th₀ := heq
    rw [heq]
    exact updateCounters_ne_nil m (hnodes _ hth₀)
  | delete pc get past get' => exact hnodes _ (NodeList.mem_erase_nodes.mp hb).1
  | seed pc =>
    obtain hb | ⟨i, hi, -⟩ := NodeList.mem_pushAll_nodes.mp hb
    · exact hnodes _ hb
    · rw [List.getElem?_map, Option.map_eq_some_iff] at hi
      obtain ⟨p, -, rfl⟩ := hi
      exact List.cons_ne_nil _ _
  | finish pc prune =>
    obtain ⟨g₁, g₂, h₁, h₂, hne⟩ := finish_total (hs.prune rfl pc) (hs.history rfl pc) L.nonempty
    rw [step, pc, mainStep, h₁, orHalt_ok, ok_bind, h₂] at h
    cases h
    exact hne th hth
  | _ => exact L.nonempty th hth

theorem LiveThreads.after (L : LiveThreads s) (hs : SettingsSuffice cfg s a)
    (h : step cfg s a = .ok t) : LiveThreads t where
  counter := L.counter.trans (step_cases h).counter_le.1
  begun := (step_cases h).begun L.counter L.begun
  nonempty := L.nonempty_after hs h

/-! ## The faults of the other parties -/

/-- A remainder by zero, or a pop of an empty list. -/
def Fault.isArithmetic (f : Fault) : Prop := f = .remainderByZero ∨ f = .popOfEmptyList

instance (f : Fault) : Decidable f.isArithmetic := by
  unfold Fault.isArithmetic
  infer_instance

theorem minFront_avoids (ths : List FDFaceThread) (m : Int) :
    Avoids Fault.isArithmetic (minFront ths m) := by
  induction ths generalizing m with
  | nil => exact avoids_ok m
  | cons th ths ih =>
    rw [minFront]
    split
    · exact avoids_error (by decide)
    · exact ih _

omit [FloatOps F] in
theorem recordFrame_avoids (g : Shared F) (inp : FrameInput) :
    Avoids Fault.isArithmetic (recordFrame g inp) := by
  refine Avoids.bind ?_ fun _ => avoids_ok _
  unfold countFrame
  split
  · exact avoids_ok _
  · exact avoids_error (by decide)

omit [FloatOps F] in
theorem getMinFrameToKeep_avoids (g : Shared F) :
    Avoids Fault.isArithmetic (getMinFrameToKeep g) := by
  unfold getMinFrameToKeep
  split
  · exact avoids_ok _
  · refine (minFront_avoids _ _).bind fun m => (minFront_avoids _ _).bind fun m' => ?_
    split
    · exact avoids_error (by decide)
    · exact avoids_ok _

omit [FloatOps F] in
theorem pruneHistory_avoids (g : Shared F) (pc : PrunerPC) :
    Avoids Fault.isArithmetic (pruneHistory g pc) := by
  unfold pruneHistory
  split
  · exact avoids_ok _
  · refine (getMinFrameToKeep_avoids g).bind fun m => ?_
    split
    · exact avoids_error (by decide)
    · exact avoids_ok _
  · exact avoids_error (by decide)
  · split
    · exact avoids_error (by decide)
    · split <;> exact avoids_ok _
  · exact avoids_ok _

theorem smoothedFaces_avoids (faces : List Face) :
    Avoids Fault.isArithmetic (smoothedFaces (F := F) faces) := by
  refine Avoids.bind ?_ fun r => avoids_of_ok (smoothFaceSeries_total r.1)
  unfold addMissingFrames
  split
  · exact avoids_error (by decide)
  · split <;> exact avoids_ok _

theorem exportFaces_avoids (cfg : Config F) (e : Export) (th : FDFaceThread) :
    Avoids Fault.isArithmetic (exportFaces cfg e th) := by
  unfold exportFaces
  split
  · exact avoids_ok _
  · split
    · exact avoids_ok _
    · split
      · exact avoids_ok _
      · split
        · exact (smoothedFaces_avoids _).map
        · exact avoids_ok _

theorem seekHistory_avoids (frameId : Int) (ps : List (Nat × FDHistoryEntry)) :
    Avoids Fault.isArithmetic (seekHistory frameId ps) := by
  induction ps with
  | nil => exact avoids_error (by decide)
  | cons p ps ih =>
    rw [seekHistory]
    split
    · exact ih
    · exact avoids_ok p

theorem startExport_avoids (cfg : Config F) (g : Shared F) (th : FDFaceThread) (isOk : Bool)
    (e : Export) (todo : List Export) :
    Avoids Fault.isArithmetic (startExport cfg g th isOk e todo) := by
  refine (exportFaces_avoids cfg e th).bind fun faces => ?_
  split
  · exact avoids_ok _
  · exact avoids_error (by decide)
  · split
    · exact avoids_error (by decide)
    · refine (seekHistory_avoids _ _).bind fun p => ?_
      split
      · exact avoids_error (by decide)
      · split
        · exact avoids_ok _
        · split
          · exact avoids_error (by decide)
          · split <;> exact avoids_ok _

omit [FloatOps F] in
theorem walkHistory_avoids (cfg : Config F) (g : Shared F) (isOk : Bool) (e : Export)
    (todo : List Export) (historyItr : Option Nat) (faces : List Face) (saved : Int) :
    Avoids Fault.isArithmetic (walkHistory cfg g isOk e todo historyItr faces saved) := by
  unfold walkHistory
  split
  · exact avoids_ok _
  · split
    · exact avoids_error (by decide)
    · split
      · exact avoids_error (by decide)
      · dsimp only
        split
        · exact avoids_ok _
        · split
          · exact avoids_error (by decide)
          · split
            · exact avoids_error (by decide)
            · split
              · split <;> exact avoids_ok _
              · exact avoids_ok _
            · split <;> exact avoids_ok _

theorem saveAndDeleteThread_avoids (g : Shared F) (k : Nat) (j : Job) (isOk : Bool)
    (hmax : j.pc = .started → 0 ≤ cfg.maxThreadHistorySize) :
    Avoids Fault.isArithmetic (saveAndDeleteThread cfg g k j isOk) := by
  unfold saveAndDeleteThread
  split
  · next hpc =>
    unfold startSave
    split
    · exact avoids_error (by decide)
    · rw [FDFaceThread.pruneFacesList_eq (hmax hpc), ok_bind]
      exact avoids_ok _
  · refine Avoids.bind ?_ fun _ => avoids_ok _
    unfold deleteThreadFromGThreadsBeingSerialized
    split
    · exact avoids_error (by decide)
    · exact avoids_ok _
  · exact avoids_ok _
  · refine Avoids.bind ?_ fun _ => avoids_ok _
    unfold exportStep
    split
    · split
      · exact avoids_error (by decide)
      · exact startExport_avoids _ _ _ _ _ _
    · exact walkHistory_avoids _ _ _ _ _ _ _ _
    · exact avoids_ok _

/-! ## A step, and a run -/

theorem orHalt_fault {A : Type} {x : Except Fault A} {B : Type} {k : A → Except Halt B}
    (hk : ∀ a f, k a ≠ .error (.fault f)) {f : Fault} (h : (orHalt x >>= k) = .error (.fault f)) :
    x = .error f := by
  cases x with
  | error e =>
    cases h
    rfl
  | ok a => exact absurd h (hk a f)

theorem frame_fault {inp : FrameInput} {f : Fault}
    (hf : step cfg s (.frame inp) = .error (.fault f)) : ¬ f.isArithmetic := by
  cases hpc : s.main with
  | idle =>
    rw [step, hpc] at hf
    exact recordFrame_avoids _ _ f (orHalt_fault (fun _ _ h => by cases h) hf)
  | _ =>
    rw [step, hpc] at hf
    cases hf

theorem pruner_fault {f : Fault} (hf : step cfg s .pruner = .error (.fault f)) :
    ¬ f.isArithmetic :=
  pruneHistory_avoids _ _ f (orHalt_fault (fun _ _ h => by cases h) hf)

theorem job_fault {k : Nat} {isOk : Bool} {f : Fault}
    (hmax : ∀ j, s.sh.jobs[k]? = some j → j.pc = .started → 0 ≤ cfg.maxThreadHistorySize)
    (hf : step cfg s (.job k isOk) = .error (.fault f)) : ¬ f.isArithmetic := by
  cases hj : s.sh.jobs[k]? with
  | none =>
    simp only [step, hj] at hf
    cases hf
  | some j =>
    simp only [step, hj] at hf
    split at hf
    · cases hf
    · exact saveAndDeleteThread_avoids _ _ _ _ (hmax j hj) f
        (orHalt_fault (fun _ _ h => by cases h) hf)

theorem LiveThreads.safe (L : LiveThreads s) (J : JobsOwn s) (h : HistoryShape s lo)
    (hs : SettingsSuffice cfg s a) : TrackerSafe cfg s a := by
  refine ⟨L.nonempty, fun t => L.nonempty_after hs, fun f hf => ?_⟩
  have hother : a ≠ .main → ¬ f.isArithmetic := by
    intro ha
    cases a with
    | frame inp => exact frame_fault hf
    | main => exact absurd rfl ha
    | pruner => exact pruner_fault hf
    | job k isOk => exact job_fault (fun j => hs.job k isOk j rfl) hf
  by_cases ha : a = .main
  · -- the main thread is idle or runs on
    subst ha
    by_cases hpc : s.main = .idle
    · rw [step, hpc, mainStep] at hf
      cases hf
    · obtain ⟨t, ht⟩ := main_runs hs J L h hpc
      cases ht.symm.trans hf
  · obtain ⟨hzero, hpop⟩ := not_or.mp (hother ha)
    exact ⟨hzero, hpop, fun hmain => absurd hmain ha⟩

/-! ## Nothing less suffices -/

theorem popWhileLonger_fault {maxSize : Int} {fs : List Face} {f : Fault}
    (h : popWhileLonger maxSize fs = .error f) : f = .popOfEmptyList := by
  by_cases hmax : maxSize < 0
  · rw [popWhileLonger_of_neg hmax] at h
    cases h
    rfl
  · rw [popWhileLonger_eq (by omega)] at h
    cases h

omit [FloatOps F] in
theorem pruneThreads_fault {g : Shared F} {f : Fault} (h : pruneThreads cfg g = .error f) :
    f = .remainderByZero ∨ f = .popOfEmptyList := by
  unfold pruneThreads at h
  split at h
  · cases h
    exact .inl rfl
  · split at h
    · right
      have herr : (g.gThreads.mapValsM fun th => th.pruneFacesList cfg) = .error f :=
        map_eq_error.mp h
      obtain ⟨th, hth⟩ := NodeList.body_error_of_mapValsM herr
      exact popWhileLonger_fault (map_eq_error.mp hth)
    · cases h

omit [FloatOps F] in
theorem shownFaces_fault {ths : List FDFaceThread} {f : Fault}
    (h : shownFaces cfg ths = .error f) : f = .backOfEmptyList := by
  induction ths with
  | nil => cases h
  | cons th ths ih =>
    rw [shownFaces] at h
    split at h
    · cases hb : th.back with
      | error e =>
        rw [hb] at h
        cases h
        unfold FDFaceThread.back at hb
        split at hb
        · cases hb
        · cases hb
          rfl
      | ok face =>
        rw [hb, ok_bind] at h
        cases hfs : shownFaces cfg ths with
        | error e =>
          rw [hfs] at h
          cases h
          exact ih hfs
        | ok fs =>
          rw [hfs] at h
          cases h
    · exact ih h

/-- A safe end of a frame runs to its end. -/
theorem TrackerSafe.finish (T : TrackerSafe cfg s .main) (hpc : s.main = .seeded) :
    ∃ g₁ g₂, pruneThreads cfg s.sh = .ok g₁ ∧ showFaces cfg g₁ = .ok g₂ ∧ NoThreadEmpty g₂ := by
  have hstep : step cfg s .main = (do
      let g ← orHalt (pruneThreads cfg s.sh)
      let g ← orHalt (showFaces cfg g)
      .ok { s with sh := g, main := .idle }) := by
    rw [step, hpc, mainStep]
  cases h₁ : pruneThreads cfg s.sh with
  | error f =>
    have hfault : step cfg s .main = .error (.fault f) := by
      rw [hstep, h₁]
      rfl
    obtain ⟨hzero, hpop, -⟩ := T.faults f hfault
    exact absurd (pruneThreads_fault h₁) (not_or.mpr ⟨hzero, hpop⟩)
  | ok g₁ =>
    cases h₂ : showFaces cfg g₁ with
    | error f =>
      have hfault : step cfg s .main = .error (.fault f) := by
        rw [hstep, h₁, orHalt_ok, ok_bind, h₂]
        rfl
      obtain ⟨-, -, hback⟩ := T.faults f hfault
      exact absurd (shownFaces_fault (map_eq_error.mp h₂)) (hback rfl)
    | ok g₂ =>
      have hok : step cfg s .main = .ok { s with sh := g₂, main := .idle } := by
        rw [hstep, h₁, orHalt_ok, ok_bind, h₂]
        rfl
      exact ⟨g₁, g₂, rfl, h₂, T.after _ hok⟩

/-- A step that is safe found the settings it relies on. -/
theorem TrackerSafe.suffices (T : TrackerSafe cfg s a) (J : JobsOwn s) :
    SettingsSuffice cfg s a where
  sample := by
    rintro cur now rfl hpc hzero
    have hfault : step cfg s .main = .error (.fault .remainderByZero) := by
      rw [step, hpc, mainStep, matchThreads, sampleFps, if_pos hzero]
      rfl
    exact (T.faults _ hfault).1 rfl
  prune := by
    rintro rfl hpc
    obtain ⟨g₁, g₂, h₁, -, -⟩ := T.finish hpc
    exact (pruneThreads_ok h₁).1
  history := by
    rintro rfl hpc
    obtain ⟨g₁, g₂, h₁, h₂, hne⟩ := T.finish hpc
    obtain ⟨-, hg₂⟩ := showFaces_ok h₂
    obtain ⟨-, ⟨hno, -⟩ | ⟨-, -, rfl⟩⟩ := pruneThreads_ok h₁
    · exact .inr (.inl hno)
    · by_cases hmax : 1 ≤ cfg.maxThreadHistorySize
      · exact .inl hmax
      · -- every list has been pruned to nothing
        refine .inr (.inr (List.eq_nil_iff_forall_not_mem.mpr fun th hth => ?_))
        refine hne (th.pruned cfg) ?_ ?_
        · rw [hg₂]
          show th.pruned cfg ∈ (s.sh.gThreads.mapVals (FDFaceThread.pruned cfg)).vals
          rw [NodeList.vals_mapVals]
          exact List.mem_map_of_mem hth
        · rw [FDFaceThread.pruned, Int.toNat_of_nonpos (by omega)]
          exact List.drop_length
  job := by
    rintro k isOk j rfl hj hpc
    obtain ⟨th, hth, -⟩ := J.entry (List.mem_of_getElem? hj) (by rw [hpc]; decide)
    by_contra hmax
    have hpop : th.pruneFacesList cfg = .error .popOfEmptyList :=
      map_eq_error.mpr (popWhileLonger_of_neg (by omega) _)
    have hsave : saveAndDeleteThread cfg s.sh k j isOk = .error .popOfEmptyList := by
      rw [saveAndDeleteThread, hpc]
      show startSave cfg s.sh k j = _
      rw [startSave, hth]
      show (th.pruneFacesList cfg >>= _) = _
      rw [hpop]
      rfl
    have hfault : step cfg s (.job k isOk) = .error (.fault .popOfEmptyList) := by
      simp only [step, hj]
      rw [if_neg (by rw [hpc]; decide), hsave]
      rfl
    exact (T.faults _ hfault).2.1 rfl

/-! ## Every run -/

theorem liveThreads_of_run {now : Int} {as : List Action}
    (h : run (step cfg) (start cfg now) as = .ok s)
    (hs : Throughout (step cfg) (SettingsSuffice cfg) (start cfg now) as) : LiveThreads s :=
  run_invariant_of_throughout (fun _ _ _ L hs hst => L.after hs hst) (liveThreads_start cfg now)
    h hs

/-- Whatever the ini file says, a run is safe at every step exactly if every step finds
the settings it relies on. -/
theorem tracker_safe_iff (sscanf : Sscanf F) (cvFourccDefault : Int) (ini : IniFile) (now : Int)
    (as : List Action) :
    let cfg := loadedConfig sscanf cvFourccDefault ini
    Throughout (step cfg) (TrackerSafe cfg) (start cfg now) as ↔
      Throughout (step cfg) (SettingsSuffice cfg) (start cfg now) as := by
  intro cfg
  constructor
  · intro hsafe p hp
    obtain ⟨bs, cs, -, hrun⟩ := mem_trail hp
    exact (hsafe p hp).suffices (jobsOwn_of_run hrun)
  · intro hs p hp
    obtain ⟨bs, cs, rfl, hrun⟩ := mem_trail hp
    obtain ⟨hbefore, -⟩ := (throughout_append_iff hrun (p.2 :: cs)).mp hs
    obtain ⟨-, lo, hshape, -⟩ := historyShape_of_run hrun
    exact (liveThreads_of_run hrun hbefore).safe (jobsOwn_of_run hrun) hshape (hs p hp)

end

/-! ## Settings that break it -/

def emptyIni : IniFile := fun _ _ => none

/-- Two frames with a face each. -/
def detectedTwice : List Action :=
  [.frame oneDetection, .main, .main, .main, .frame oneDetection, .main]

/-- The step of the main thread ends in the fault. -/
def failsWith (cfg : Config ℚ) (f : Fault) (p : System ℚ × Action) : Bool :=
  match p.2, step cfg p.1 p.2 with
  | .main, .error (.fault f') => decide (f' = f)
  | _, _ => false

/-- One of the faults that a safe step of the tracker cannot have. -/
def IsTrackerFault (f : Fault) : Prop :=
  f = .remainderByZero ∨ f = .popOfEmptyList ∨ f = .backOfEmptyList

/-- In the two frames the main thread comes to a step with the fault, which is not safe. -/
def BreaksTracker (ini : IniFile) (f : Fault) : Prop :=
  let cfg : Config ℚ := loadedConfig Sscanf.decimal 0 ini
  IsTrackerFault f ∧ ¬ Throughout (step cfg) (TrackerSafe cfg) (start cfg 0) detectedTwice ∧
    ∃ as s, as <+: detectedTwice ∧ run (step cfg) (start cfg 0) as = .ok s ∧
      step cfg s .main = .error (.fault f)

theorem breaksTracker_of_any {ini : IniFile} {f : Fault} (htracker : IsTrackerFault f) (h :
    let cfg : Config ℚ := loadedConfig Sscanf.decimal 0 ini
    (trail (step cfg) (start cfg 0) detectedTwice).any (failsWith cfg f) = true) :
    BreaksTracker ini f := by
  obtain ⟨⟨s, a⟩, hp, hfails⟩ := List.any_eq_true.mp h
  unfold failsWith at hfails
  split at hfails
  · next f' hmain hf =>
    obtain rfl : a = .main := hmain
    obtain rfl := of_decide_eq_true hfails
    obtain ⟨as, bs, has, hrun⟩ := mem_trail hp
    refine ⟨htracker, fun hsafe => ?_, as, s, ⟨.main :: bs, has.symm⟩, hrun, hf⟩
    obtain ⟨hzero, hpop, hback⟩ := (hsafe _ hp).faults _ hf
    obtain rfl | rfl | rfl := htracker
    · exact hzero rfl
    · exact hpop rfl
    · exact hback rfl rfl
  · cases hfails

/-- A divisor of zero, for the frame rate or for the pruning, and a limit that leaves no
face, below zero and at zero. -/
theorem badSettings_break :
    BreaksTracker (emptyIni.change "config" "SAMPLE_TIME_EVERY_X_FRAMES" (some "0"))
      .remainderByZero ∧
    BreaksTracker (emptyIni.change "config" "PRUNE_FACES_INTERVAL" (some "0"))
      .remainderByZero ∧
    BreaksTracker ((emptyIni.change "config" "PRUNE_FACES_INTERVAL" (some "1")).change "config"
      "MAX_THREAD_HISTORY_SIZE" (some "-1")) .popOfEmptyList ∧
    BreaksTracker ((emptyIni.change "config" "PRUNE_FACES_INTERVAL" (some "1")).change "config"
      "MAX_THREAD_HISTORY_SIZE" (some "0")) .backOfEmptyList := by
  refine ⟨?_, ?_, ?_, ?_⟩
  · exact breaksTracker_of_any (.inl rfl) (by decide +kernel)
  · exact breaksTracker_of_any (.inl rfl) (by decide +kernel)
  · exact breaksTracker_of_any (.inr (.inl rfl)) (by decide +kernel)
  · exact breaksTracker_of_any (.inr (.inr rfl)) (by decide +kernel)

end PlanetariumFD
