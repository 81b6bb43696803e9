import PlanetariumFD.Detector.Flushed
import PlanetariumFD.Detector.Progress
import PlanetariumFD.Detector.Retention

/-!
# Smaller steps fail where the larger ones do

In the system with smaller steps the pruner may erase between two pops of a sequence, and
take its floor while threads are half updated. With settings that make sense this adds
no way to fail: every reachable state can be flushed, to a state that the larger steps
reach, and there the same step fails.
-/

namespace PlanetariumFD

open Outcome Transition Flushing

section
variable {F : Type} [FloatOps F] {cfg : Config F} {now : Int}

/-- What holds at every turn: the flush comes to a state that the larger steps reach, no
thread is empty, and the sequence popped is the newest entry's. -/
structure FineShape (cfg : Config F) (now : Int) (s : FineSystem F) : Prop where
  flushed : ∃ c bs, flush cfg s = .ok c ∧ run (step cfg) (start cfg now) bs = .ok c
  nonempty : ∀ th ∈ s.sh.gThreads.vals, th.pFaces ≠ []
  newest : ∀ cur frameId faces, s.main = .popping cur frameId faces →
    cur + 1 = s.sh.gHistory.fresh

/-! ## Where a larger step begins -/

theorem nonempty_of_run (h1 : 1 ≤ cfg.maxThreadHistorySize) {bs : List Action} {c : System F}
    (h : run (step cfg) (start cfg now) bs = .ok c) : ∀ th ∈ c.sh.gThreads.vals, th.pFaces ≠ [] :=
  (storedFaces_of_run h1 h).liveThreads.nonempty

theorem FineShape.of_fine (h1 : 1 ≤ cfg.maxThreadHistorySize) {bs : List Action} {c : System F}
    (h : run (step cfg) (start cfg now) bs = .ok c) : FineShape cfg now c.fine where
  flushed := ⟨c, bs, flush_fine c, h⟩
  nonempty := nonempty_of_run h1 h
  newest _ _ _ hpc := by cases hpc

/-- Only the first step for a frame begins a loop that changes the threads. -/
theorem enterStep_cases {c : System F} {t : FineSystem F}
    (h : enterStep cfg c.fine c.main = .ok t) :
    (∃ cur now frameId, c.main = .pushed cur now ∧ t.main = .popping cur frameId [] ∧
      t.sh.gThreads = c.sh.gThreads ∧ t.sh.gHistory = c.sh.gHistory) ∨
    (∀ d, completion cfg t.sh t.main = .ok d → d.gThreads = t.sh.gThreads) ∧
      ∀ cur frameId faces, t.main ≠ .popping cur frameId faces := by
  obtain ⟨g, pc, pr⟩ := c
  cases pc with
  | idle => cases h
  | pushed cur now =>
    obtain ⟨g₁, hg₁, h⟩ := bind_eq_ok.mp h
    obtain ⟨-, hsame⟩ := sampleFps_ok (orHalt_eq_ok.mp hg₁)
    split at h
    · cases h
    · cases h
      refine .inl ⟨cur, now, _, rfl, rfl, ?_, ?_⟩
      · rw [hsame]
        rfl
      · rw [hsame]
        rfl
  | deleting itrs ms inputFaces =>
    right
    cases itrs with
    | nil =>
      cases h
      exact ⟨fun d hd => by cases hd; rfl, fun _ _ _ h => by cases h⟩
    | cons itr itrs =>
      cases ms with
      | nil => cases h
      | cons m ms =>
        simp only [enterStep, System.fine] at h
        split at h
        · cases h
        · split at h
          · split at h
            · cases h
            · cases h
              exact ⟨fun d hd => by cases hd; rfl, fun _ _ _ h => by cases h⟩
          · cases h
            exact ⟨fun d hd => by cases hd; rfl, fun _ _ _ h => by cases h⟩
  | seeded =>
    right
    obtain ⟨g₁, -, h⟩ := bind_eq_ok.mp h
    cases h
    refine ⟨fun d hd => ?_, fun _ _ _ h => by cases h⟩
    obtain ⟨fs, -, hd⟩ := bind_eq_ok.mp hd
    cases hd
    rfl

/-- With settings that make sense the main thread takes every larger step that it begins. -/
theorem main_faultless (hcfg : cfg.Sound) {bs : List Action} {c : System F}
    (hrun : run (step cfg) (start cfg now) bs = .ok c) {f : Fault} :
    step cfg c .main ≠ .error (.fault f) := by
  intro hf
  by_cases hidle : c.main = .idle
  · rw [step, hidle] at hf
    cases hf
  · obtain ⟨-, lo, hshape, -⟩ := historyShape_of_run hrun
    obtain ⟨c', hstep⟩ := main_runs (hcfg.suffices c .main) (jobsOwn_of_run hrun)
      (storedFaces_of_run hcfg.history hrun).liveThreads hshape hidle
    cases hstep.symm.trans hf

/-- So the flush of what it has begun comes to its end. -/
theorem FineShape.enter (hcfg : cfg.Sound) {bs : List Action} {c : System F} {t : FineSystem F}
    (hrun : run (step cfg) (start cfg now) bs = .ok c)
    (h : enterStep cfg c.fine c.main = .ok t) : FineShape cfg now t := by
  have henter := @flush_enterStep F _ cfg c
  rw [h, ok_bind] at henter
  obtain ⟨c', hflush⟩ : ∃ c', flush cfg t = .ok c' := by
    cases hflush : flush cfg t with
    | ok c' => exact ⟨c', rfl⟩
    | error f =>
      rw [hflush] at henter
      exact absurd henter.symm (main_faultless hcfg hrun)
  have hstep : step cfg c .main = .ok c' := by
    rw [step, ← henter, hflush, orHalt_ok]
  have hrun' := run_snoc_iff.mpr ⟨c, hrun, hstep⟩
  obtain ⟨-, lo, hshape, -⟩ := historyShape_of_run hrun
  obtain ⟨cur, n, frameId, hpushed, hpc, hthreads, hhistory⟩ | ⟨hthreads, hpc⟩ := enterStep_cases h
  · refine ⟨⟨c', _, hflush, hrun'⟩, ?_, ?_⟩
    · rw [hthreads]
      exact nonempty_of_run hcfg.history hrun
    · intro cur' frameId' faces hpc'
      cases hpc.symm.trans hpc'
      rw [hhistory]
      exact hshape.cur cur n hpushed
  · refine ⟨⟨c', _, hflush, hrun'⟩, ?_, fun cur frameId faces h => absurd h (hpc cur frameId faces)⟩
    obtain ⟨d, hd, rfl⟩ := map_eq_ok.mp hflush
    rw [← hthreads d hd]
    exact nonempty_of_run hcfg.history hrun'

/-! ## In a loop -/

/-- A turn of a loop empties no thread, and makes no entry. -/
theorem loopStep_keeps {s t : FineSystem F} (h : loopStep cfg s s.main = .ok t) :
    ((∀ th ∈ s.sh.gThreads.vals, th.pFaces ≠ []) → ∀ th ∈ t.sh.gThreads.vals, th.pFaces ≠ []) ∧
      t.sh.gHistory.fresh = s.sh.gHistory.fresh ∧ ∀ cur frameId faces,
        t.main = .popping cur frameId faces → ∃ faces', s.main = .popping cur frameId faces' := by
  obtain ⟨g, pc, pr⟩ := s
  cases pc with
  | coarse pc =>
    cases h
    exact ⟨fun hne => hne, rfl, fun _ _ _ h => by cases h⟩
  | popping cur frameId faces =>
    simp only [loopStep] at h
    split at h
    · cases h
    · split at h
      · cases h
        exact ⟨fun hne => hne, rfl, fun _ _ _ h => by cases h⟩
      · cases h
        refine ⟨fun hne => hne, rfl, fun cur' frameId' faces' hpc => ⟨faces, ?_⟩⟩
        cases hpc
        rfl
  | matching faces left ms =>
    cases faces with
    | nil =>
      cases h
      exact ⟨fun hne => hne, rfl, fun _ _ _ h => by cases h⟩
    | cons face faces =>
      obtain ⟨r, -, h⟩ := bind_eq_ok.mp h
      cases h
      exact ⟨fun hne => hne, rfl, fun _ _ _ h => by cases h⟩
  | updating itrs ahead ms inputFaces =>
    cases itrs with
    | nil =>
      cases h
      exact ⟨fun hne => hne, rfl, fun _ _ _ h => by cases h⟩
    | cons itr itrs =>
      cases ahead with
      | nil => cases h
      | cons m ahead =>
        simp only [loopStep] at h
        split at h
        · cases h
        · cases h
          exact ⟨fun hne => (fronts_modify m m.th hne).2, rfl, fun _ _ _ h => by cases h⟩
  | creating job itrs ms inputFaces =>
    cases h
    exact ⟨fun hne => hne, rfl, fun _ _ _ h => by cases h⟩
  | showing itrs =>
    cases itrs with
    | nil =>
      cases h
      exact ⟨fun hne => hne, rfl, fun _ _ _ h => by cases h⟩
    | cons itr itrs =>
      simp only [loopStep] at h
      split at h
      · cases h
      · split at h
        · obtain ⟨f, -, h⟩ := bind_eq_ok.mp h
          cases h
          exact ⟨fun hne => hne, rfl, fun _ _ _ h => by cases h⟩
        · cases h
          exact ⟨fun hne => hne, rfl, fun _ _ _ h => by cases h⟩

theorem FineShape.turn {s t : FineSystem F} (H : FineShape cfg now s)
    (h : loopStep cfg s s.main = .ok t) : FineShape cfg now t := by
  obtain ⟨c, bs, hflush, hrun⟩ := H.flushed
  obtain ⟨hne, hfresh, hpc⟩ := loopStep_keeps h
  refine ⟨⟨c, bs, (flush_loopStep h).trans hflush, hrun⟩, hne H.nonempty, ?_⟩
  intro cur frameId faces hpopping
  obtain ⟨faces', hpopping'⟩ := hpc cur frameId faces hpopping
  rw [hfresh]
  exact H.newest cur frameId faces' hpopping'

/-! ## The others -/

/-- Where no thread is empty, a step of the pruner or of a job comes to the same before and
after the flush, also where it fails. -/
theorem step_flushed {s : FineSystem F} {c : System F} {a : Action} (hc : flush cfg s = .ok c)
    (hne : ∀ th ∈ s.sh.gThreads.vals, th.pFaces ≠ []) (hmain : a ≠ .main)
    (hframe : a.isFrame = false) (hstarted : a.IsStarted s.sh) :
    ∃ d, completion cfg s.sh s.main = .ok d ∧ step cfg c a =
      (step cfg ⟨s.sh, .idle, s.pruner⟩ a).map fun t => ⟨d.apply t.sh, d.main, t.pruner⟩ := by
  obtain ⟨d, hd, rfl⟩ := map_eq_ok.mp hc
  have hmin := getMinFrameToKeep_apply (completion_keepsFronts hd hne)
  exact ⟨d, hd, step_apply hmain hframe hstarted (fun _ _ _ => hmin) .idle d.main⟩

theorem newest_stays {bs : List Action} {c : System F}
    (hrun : run (step cfg) (start cfg now) bs = .ok c) {cur : Nat}
    (hcur : cur + 1 = c.sh.gHistory.fresh) : ∃ entry, c.sh.gHistory.get? cur = some entry := by
  obtain ⟨-, lo, hshape, -⟩ := historyShape_of_run hrun
  have hcounter := hshape.counter
  have hlo := hshape.lo_lt (by omega)
  obtain ⟨entry, hentry, -⟩ := hshape.get? (a := cur) (by omega) (by omega)
  exact ⟨entry, hentry⟩

theorem FineShape.other {s t : FineSystem F} {a : Action} (H : FineShape cfg now s)
    (h : fineStep cfg s a = .ok t) (hmain : a ≠ .main)
    (hframe : a.isFrame = false) : FineShape cfg now t := by
  obtain ⟨c, bs, hflush, hrun⟩ := H.flushed
  rw [fineStep_other hmain hframe .idle] at h
  obtain ⟨t₁, hstep, rfl⟩ := map_eq_ok.mp h
  obtain ⟨d, hd, hstep'⟩ := step_flushed hflush H.nonempty hmain hframe
    (isStarted_of_step (by rw [hstep]; exact fun h => by cases h))
  obtain ⟨threads, shown, entries⟩ := (step_cases hstep).leaves hmain hframe
  rw [hstep] at hstep'
  replace hstep' : step cfg c a = .ok ⟨d.apply t₁.sh, d.main, t₁.pruner⟩ := hstep'
  have hrun' := run_snoc_iff.mpr ⟨c, hrun, hstep'⟩
  have hfresh := (step_cases hstep).fresh_eq hframe
  have hafter : completion cfg t₁.sh s.main = .ok d := by
    refine (completion_congr threads shown fun cur frameId faces hpc => ?_).trans hd
    -- the pruner has left the newest entry, as it does after the flush
    obtain ⟨e', he'⟩ := newest_stays hrun' ((H.newest cur frameId faces hpc).trans hfresh.symm)
    replace he' : (t₁.sh.gHistory.alter d.entry).get? cur = some e' := he'
    rw [NodeList.get?_alter] at he'
    obtain ⟨e, he, -⟩ := Option.map_eq_some_iff.mp he'
    rw [he, entries cur e he]
  refine ⟨⟨_, _, by rw [flush, hafter]; rfl, hrun'⟩, ?_, ?_⟩
  · show ∀ th ∈ t₁.sh.gThreads.vals, th.pFaces ≠ []
    rw [threads]
    exact H.nonempty
  · intro cur frameId faces hpc
    exact (H.newest cur frameId faces hpc).trans hfresh.symm

/-! ## Whole runs -/

theorem fineShape_of_run (hcfg : cfg.Sound) {as : List Action} {s : FineSystem F}
    (h : run (fineStep cfg) (start cfg now).fine as = .ok s) : FineShape cfg now s := by
  refine run_invariant (P := FineShape cfg now) (fun s a t H hst => ?_)
    (FineShape.of_fine hcfg.history (show run (step cfg) _ [] = .ok _ from rfl)) h
  obtain ⟨c, rfl⟩ | ⟨hloop, hturn⟩ := @fine_or_loop F _ cfg s
  · obtain ⟨c', bs, hflush, hrun⟩ := H.flushed
    cases (flush_fine c).symm.trans hflush
    by_cases hmain : a = .main
    · subst hmain
      exact FineShape.enter hcfg hrun hst
    · rw [fineStep_fine hmain] at hst
      obtain ⟨c', hstep, rfl⟩ := map_eq_ok.mp hst
      exact FineShape.of_fine hcfg.history (run_snoc_iff.mpr ⟨c, hrun, hstep⟩)
  · by_cases hmain : a = .main
    · subst hmain
      rw [hturn] at hst
      exact H.turn (orHalt_eq_ok.mp hst)
    · cases hframe : a.isFrame with
      | true =>
        rw [fineStep_frame hloop hframe] at hst
        cases hst
      | false => exact H.other hst hmain hframe

/-- At every turn the same faults can come, as between the larger steps. -/
theorem fine_faults_iff (hcfg : cfg.Sound) (now : Int) (a : Action) (f : Fault) :
    (∃ as s, run (fineStep cfg) (start cfg now).fine as = .ok s ∧
        fineStep cfg s a = .error (.fault f)) ↔
      ∃ as s, run (step cfg) (start cfg now) as = .ok s ∧ step cfg s a = .error (.fault f) := by
  constructor
  · rintro ⟨as, s, hrun, hf⟩
    have H := fineShape_of_run hcfg hrun
    obtain ⟨c, bs, hflush, hrun'⟩ := H.flushed
    refine ⟨bs, c, hrun', ?_⟩
    obtain ⟨c₁, rfl⟩ | ⟨hloop, hturn⟩ := @fine_or_loop F _ cfg s
    · cases (flush_fine c₁).symm.trans hflush
      by_cases hmain : a = .main
      · subst hmain
        have henter := @flush_enterStep F _ cfg c
        rw [show enterStep cfg c.fine c.main = .error (.fault f) from hf] at henter
        exact henter.symm
      · rw [fineStep_fine hmain] at hf
        exact map_eq_error.mp hf
    · by_cases hmain : a = .main
      · subst hmain
        obtain ⟨t, ht, -⟩ := loopStep_total hflush hloop
        rw [hturn, ht] at hf
        cases hf
      · cases hframe : a.isFrame with
        | true =>
          rw [fineStep_frame hloop hframe] at hf
          cases hf
        | false =>
          rw [fineStep_other hmain hframe .idle] at hf
          replace hf := map_eq_error.mp hf
          obtain ⟨d, -, hstep⟩ := step_flushed hflush H.nonempty hmain hframe
            (isStarted_of_step (by rw [hf]; exact fun h => by cases h))
          rw [hstep, hf]
          rfl
  · rintro ⟨bs, c, hrun, hf⟩
    obtain ⟨as, has⟩ := (flushes cfg).run_of_coarse hrun
    refine ⟨as, c.fine, has, ?_⟩
    have hmain : a ≠ .main := by
      rintro rfl
      exact main_faultless hcfg hrun hf
    rw [fineStep_fine hmain, hf]
    rfl

end

/-- The lookup that fails after a pass with a stale floor fails at the turns of the loops too. -/
theorem fine_faults_staleFloorRun : ∃ as s,
    run (fineStep (Config.declared : Config ℚ)) (start Config.declared 0).fine as = .ok s ∧
      fineStep Config.declared s (.job 0 true) = .error (.fault .assertFrameId) := by
  have hruns : returns (fun s =>
      decide (((step Config.declared s (.job 0 true)).map fun _ => ()) =
        .error (.fault .assertFrameId)))
      (run (step (Config.declared : Config ℚ)) (start Config.declared 0) staleFloorRun) = true := by
    decide +kernel
  obtain ⟨s, hs, hdec⟩ := exists_of_returns hruns
  exact (fine_faults_iff ⟨by decide, by decide, by decide⟩ 0 (.job 0 true) .assertFrameId).mpr
    ⟨staleFloorRun, s, hs, map_eq_error.mp (of_decide_eq_true hdec)⟩

end PlanetariumFD
