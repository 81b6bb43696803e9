import PlanetariumFD.Detector.ThreadsAlone

/-!
# The frame rate that the videos are written with

Every `SAMPLE_TIME_EVERY_X_FRAMES` frames the clock is read. The estimate is the rate over
the last stretch between two readings that took any time at all, and never below one; the
other threads leave it alone.
-/

namespace PlanetariumFD

open Outcome Transition

/-! ## Readings of a clock -/

/-- The ends of the last interval that took any time. -/
def lastInterval (times : List Int) : Option (Int × Int) :=
  ((times.zip times.tail).filter fun p => p.1 ≠ p.2).getLast?

section
variable {times : List Int} {t u : Int}

theorem zip_tail_snoc (times : List Int) (t u : Int) :
    (times ++ [t, u]).zip (times ++ [t, u]).tail =
      (times ++ [t]).zip (times ++ [t]).tail ++ [(t, u)] := by
  induction times with
  | nil => rfl
  | cons a times ih =>
    cases times with
    | nil => rfl
    | cons b times =>
      simp only [List.cons_append, List.tail_cons, List.zip_cons_cons, List.cons.injEq, true_and]
      exact ih

theorem lastInterval_snoc (h : times.getLast? = some t) : lastInterval (times ++ [u]) =
    if t = u then lastInterval times else some (t, u) := by
  obtain ⟨init, rfl⟩ := List.getLast?_eq_some_iff.mp h
  rw [List.append_assoc, List.singleton_append, lastInterval, zip_tail_snoc, List.filter_append]
  by_cases htu : t = u
  · rw [if_pos htu, List.filter_cons_of_neg (by simp [htu]), List.filter_nil, List.append_nil]
    rfl
  · rw [if_neg htu, List.filter_cons_of_pos (by simp [htu]), List.filter_nil,
      List.getLast?_concat]

end

/-! ## The estimate -/

section
variable {F : Type} [FloatOps F] {cfg : Config F}

/-- `if (estimated_fps < 1.0) estimated_fps = 1.1f`. -/
def atLeastOne (fps : F) : F :=
  if FloatOps.lt fps (FloatOps.ofInt 1) then FloatOps.ofInt 11 / FloatOps.ofInt 10 else fps

/-- The rate after readings at `times`, the first clock reading being that of `FdInit`. -/
def frameRate (cfg : Config F) (now : Int) (times : List Int) : F :=
  if times = [] then cfg.initialFps
  else atLeastOne <| match lastInterval (now :: times) with
    | some (t, u) => FloatOps.ofInt cfg.sampleTimeEveryXFrames / FloatOps.ofInt (u - t)
    | none => cfg.initialFps

/-- The times of the frames at which the clock is read. -/
def sampleTimes (cfg : Config F) (frames : List FrameInput) : List Int :=
  (frames.zipIdx 1).filterMap fun p =>
    if (p.2 : Int).tmod cfg.sampleTimeEveryXFrames = 0 then some p.1.now else none

/-- The frames that `processThreads2` has been called for. -/
def matchedFrames (s : System F) (frames : List FrameInput) : List FrameInput :=
  match s.main with
  | .pushed _ _ => frames.dropLast
  | _ => frames

omit [FloatOps F] in
theorem sampleTimes_snoc (frames : List FrameInput) (inp : FrameInput) :
    sampleTimes cfg (frames ++ [inp]) = sampleTimes cfg frames ++
      if ((frames.length : Int) + 1).tmod cfg.sampleTimeEveryXFrames = 0 then [inp.now] else [] := by
  have hid : ((1 + frames.length : Nat) : Int) = (frames.length : Int) + 1 := by
    push_cast
    omega
  rw [sampleTimes, List.zipIdx_append, List.filterMap_append, List.zipIdx_singleton,
    List.filterMap_cons, List.filterMap_nil, hid]
  split_ifs <;> rfl

/-- An estimate of at least one is kept. -/
theorem atLeastOne_of_not_lt {fps : F} (h : FloatOps.lt fps (FloatOps.ofInt 1) = false) :
    atLeastOne fps = fps := by
  rw [atLeastOne, h]
  rfl

variable (hcap : FloatOps.lt (FloatOps.ofInt 11 / FloatOps.ofInt 10 : F) (FloatOps.ofInt 1) = false)
include hcap

theorem not_atLeastOne_lt (fps : F) : FloatOps.lt (atLeastOne fps) (FloatOps.ofInt 1) = false := by
  unfold atLeastOne
  split
  · exact hcap
  · next h => exact Bool.eq_false_iff.mpr h

theorem not_frameRate_lt {now : Int} {times : List Int} (hne : times ≠ []) :
    FloatOps.lt (frameRate cfg now times) (FloatOps.ofInt 1) = false := by
  rw [frameRate, if_neg hne]
  exact not_atLeastOne_lt hcap _

/-- One reading. -/
theorem frameRate_snoc {now t u : Int} {times : List Int} (h : (now :: times).getLast? = some t) :
    frameRate cfg now (times ++ [u]) = atLeastOne (if u = t then frameRate cfg now times
      else FloatOps.ofInt cfg.sampleTimeEveryXFrames / FloatOps.ofInt (u - t)) := by
  rw [frameRate, if_neg (List.append_ne_nil_of_right_ne_nil times (List.cons_ne_nil u [])),
    ← List.cons_append, lastInterval_snoc h]
  by_cases hut : u = t
  · subst hut
    rw [if_pos rfl, if_pos rfl]
    by_cases hnil : times = []
    · subst hnil
      rfl
    · -- what has been raised once stays
      rw [atLeastOne_of_not_lt (not_frameRate_lt hcap hnil), frameRate, if_neg hnil]
  · rw [if_neg (Ne.symm hut), if_neg hut]

end

/-! ## In a run -/

section
variable {F : Type} [FloatOps F] {cfg : Config F} {s t : System F} {a : Action} {now : Int}
  {frames : List FrameInput}

/-- What is kept of the readings so far. -/
structure ReadsClock (cfg : Config F) (now : Int) (frames : List FrameInput) (s : System F) :
    Prop where
  counter : s.sh.processedFrameCounter = frames.length
  pushed : ∀ cur time, s.main = .pushed cur time → frames.getLast?.map FrameInput.now = some time
  time : (now :: sampleTimes cfg (matchedFrames s frames)).getLast? = some s.sh.fdTimeSeconds
  fps : s.sh.estimatedFps = frameRate cfg now (sampleTimes cfg (matchedFrames s frames))

theorem readsClock_start (cfg : Config F) (now : Int) : ReadsClock cfg now [] (start cfg now) where
  counter := rfl
  pushed cur time h := by cases h
  time := rfl
  fps := rfl

theorem ReadsClock.frame (h : ReadsClock cfg now frames s) {inp : FrameInput}
    (e : StepEffect cfg s (.frame inp) t) : ReadsClock cfg now (frames ++ [inp]) t := by
  cases e with
  | frame pc lt =>
    have hs : matchedFrames s frames = frames := by rw [matchedFrames, pc]
    have htime := h.time
    have hfps := h.fps
    rw [hs] at htime hfps
    -- the new frame has not been matched yet
    constructor
    · dsimp only
      rw [recorded_processedFrameCounter, h.counter, List.length_append]
      rfl
    · intro cur time hpc
      cases hpc
      rw [List.getLast?_concat, Option.map_some]
    · dsimp only [matchedFrames]
      rw [List.dropLast_concat, recorded_others]
      exact htime
    · dsimp only [matchedFrames]
      rw [List.dropLast_concat, recorded_others]
      exact hfps

/-- The clock is read in `processThreads2` alone. -/
theorem ReadsClock.others (h : ReadsClock cfg now frames s) (e : StepEffect cfg s a t)
    (hframe : a.isFrame = false) (hread : a = .main → ∀ cur time, s.main ≠ .pushed cur time) :
    ReadsClock cfg now frames t := by
  have hclock : t.sh.fdTimeSeconds = s.sh.fdTimeSeconds ∧ t.sh.estimatedFps = s.sh.estimatedFps ∧
      t.sh.processedFrameCounter = s.sh.processedFrameCounter := by
    cases e with
    | frame pc lt => cases hframe
    | process pc eff => exact absurd pc (hread rfl _ _)
    | _ => exact ⟨rfl, rfl, rfl⟩
  have hmatched : matchedFrames t frames = matchedFrames s frames := by
    cases e with
    | frame pc lt => cases hframe
    | process pc eff => exact absurd pc (hread rfl _ _)
    | keep pc get under => simp only [matchedFrames, pc]
    | delete pc get past get' => simp only [matchedFrames, pc]
    | seed pc => simp only [matchedFrames, pc]
    | finish pc prune => simp only [matchedFrames, pc]
    | _ => rfl
  have hpushed : ∀ cur time, t.main = .pushed cur time → s.main = .pushed cur time := by
    intro cur time hpc
    cases e with
    | frame pc lt => cases hframe
    | process pc eff => cases hpc
    | keep pc get under => cases hpc
    | delete pc get past get' => cases hpc
    | seed pc => cases hpc
    | finish pc prune => cases hpc
    | _ => exact hpc
  obtain ⟨htime, hfps, hcounter⟩ := hclock
  exact ⟨hcounter.trans h.counter, fun cur time hpc => h.pushed cur time (hpushed cur time hpc),
    by rw [hmatched, htime, h.time], by rw [hmatched, hfps, h.fps]⟩

/-- `processThreads2` keeps what its first lines have read. -/
theorem matchThreads_sampled {g : Shared F} {cur : Nat} {n time : Int} {m : Matched F}
    (h : matchThreads cfg g cur n time = .ok m) : ∃ g₁, sampleFps cfg g n time = .ok g₁ ∧
      m.sh.fdTimeSeconds = g₁.fdTimeSeconds ∧ m.sh.estimatedFps = g₁.estimatedFps := by
  obtain ⟨g₁, hsample, h⟩ := bind_eq_ok.mp h
  refine ⟨g₁, hsample, ?_⟩
  split at h
  · cases h
  · obtain ⟨r, -, h⟩ := bind_eq_ok.mp h
    obtain ⟨l, -, h⟩ := bind_eq_ok.mp h
    cases h
    exact ⟨rfl, rfl⟩

variable (hcap : FloatOps.lt (FloatOps.ofInt 11 / FloatOps.ofInt 10 : F) (FloatOps.ofInt 1) = false)
include hcap

/-- The reading of one frame. -/
theorem sampleFps_frameRate {g g₁ : Shared F} {inp : FrameInput}
    (hn : g.processedFrameCounter = frames.length + 1)
    (htime : (now :: sampleTimes cfg frames).getLast? = some g.fdTimeSeconds)
    (hfps : g.estimatedFps = frameRate cfg now (sampleTimes cfg frames))
    (h : sampleFps cfg g g.processedFrameCounter inp.now = .ok g₁) :
    (now :: sampleTimes cfg (frames ++ [inp])).getLast? = some g₁.fdTimeSeconds ∧
      g₁.estimatedFps = frameRate cfg now (sampleTimes cfg (frames ++ [inp])) := by
  rw [sampleTimes_snoc, ← hn]
  unfold sampleFps at h
  split at h
  · cases h
  · split at h
    · next hmod =>
      cases h
      rw [if_pos hmod, frameRate_snoc hcap htime, ← hfps, ← List.cons_append, List.getLast?_concat]
      exact ⟨rfl, rfl⟩
    · next hmod =>
      cases h
      rw [if_neg hmod, List.append_nil]
      exact ⟨htime, hfps⟩

theorem ReadsClock.process (h : ReadsClock cfg now frames s) {cur : Nat} {time : Int}
    (hpc : s.main = .pushed cur time) (hst : step cfg s .main = .ok t) :
    ReadsClock cfg now frames t := by
  simp only [step, hpc, mainStep] at hst
  obtain ⟨m, hm, hst⟩ := bind_eq_ok.mp hst
  cases hst
  rw [orHalt_eq_ok] at hm
  obtain ⟨g₁, hsample, htime, hfps⟩ := matchThreads_sampled hm
  -- the frame that is matched is the last one pushed
  obtain ⟨inp, hlast, rfl⟩ := Option.map_eq_some_iff.mp (h.pushed cur time hpc)
  obtain ⟨fs, rfl⟩ := List.getLast?_eq_some_iff.mp hlast
  have hs : matchedFrames s (fs ++ [inp]) = fs := by rw [matchedFrames, hpc, List.dropLast_concat]
  have hcounter : s.sh.processedFrameCounter = (fs ++ [inp]).length := h.counter
  have htime₀ := h.time
  have hfps₀ := h.fps
  rw [hs] at htime₀ hfps₀
  obtain ⟨htime₁, hfps₁⟩ := sampleFps_frameRate hcap (by simpa using hcounter) htime₀ hfps₀ hsample
  constructor
  · exact (matchThreads_ok hm).2.counter_eq.trans hcounter
  · intro cur' time' hpc'
    cases hpc'
  · exact htime ▸ htime₁
  · exact hfps.trans hfps₁

theorem readsClock_of_run {as : List Action} (h : run (step cfg) (start cfg now) as = .ok s) :
    ReadsClock cfg now (as.filterMap Action.frame?) s := by
  refine run_induction (P := fun as s => ReadsClock cfg now (as.filterMap Action.frame?) s)
    (readsClock_start cfg now) ?_ h
  intro as s a t _ ih hst
  rw [List.filterMap_append]
  cases a with
  | frame inp => exact ih.frame (step_cases hst)
  | main =>
    rw [List.filterMap_cons_none rfl, List.filterMap_nil, List.append_nil]
    cases hpc : s.main with
    | pushed cur time => exact ih.process hcap hpc hst
    | _ => exact ih.others (step_cases hst) rfl fun _ cur time hno => by cases hpc.symm.trans hno
  | pruner =>
    rw [List.filterMap_cons_none rfl, List.filterMap_nil, List.append_nil]
    exact ih.others (step_cases hst) rfl fun hno => by cases hno
  | job k isOk =>
    rw [List.filterMap_cons_none rfl, List.filterMap_nil, List.append_nil]
    exact ih.others (step_cases hst) rfl fun hno => by cases hno

/-- In every state the estimate is the rate over the last stretch between two readings that
took any time, raised to at least one; before the first reading it is `INITIAL_FPS`. -/
theorem frameRate_of_run (cfg : Config F) {as : List Action}
    (h : run (step cfg) (start cfg now) as = .ok s) :
    let times := sampleTimes cfg (matchedFrames s (as.filterMap Action.frame?))
    s.sh.estimatedFps = frameRate cfg now times ∧
      (now :: times).getLast? = some s.sh.fdTimeSeconds ∧
      (times ≠ [] → FloatOps.lt s.sh.estimatedFps (FloatOps.ofInt 1) = false) := by
  have R := readsClock_of_run hcap h
  exact ⟨R.fps, R.time, fun hne => R.fps ▸ not_frameRate_lt hcap hne⟩

end

/-- The clock is read at every second frame; it goes on between the first two readings. -/
theorem frameRate_of_run_twoReadings : ∃ s,
    run (step { (Config.declared : Config ℚ) with sampleTimeEveryXFrames := 2 })
      (start { Config.declared with sampleTimeEveryXFrames := 2 } 0)
      ([0, 1, 1, 1].flatMap fun now =>
        [.frame { noDetection with now := now }, .main, .main, .main]) = .ok s ∧
    s.sh.estimatedFps = 2 ∧ s.sh.fdTimeSeconds = 1 := by
  have hruns : returns (fun s => s.main.isIdle)
      (run (step { (Config.declared : Config ℚ) with sampleTimeEveryXFrames := 2 })
        (start { Config.declared with sampleTimeEveryXFrames := 2 } 0)
        ([0, 1, 1, 1].flatMap fun now =>
          [.frame { noDetection with now := now }, .main, .main, .main])) = true := by
    decide +kernel
  obtain ⟨s, hs, hidle⟩ := exists_of_returns hruns
  obtain ⟨hfps, htime, -⟩ := frameRate_of_run (by decide +kernel) _ hs
  rw [matchedFrames, MainPC.eq_idle hidle] at hfps htime
  exact ⟨s, hs, hfps.trans (by decide +kernel), (Option.some.inj htime).symm⟩

end PlanetariumFD
