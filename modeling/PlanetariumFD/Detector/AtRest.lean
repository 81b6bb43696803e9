import PlanetariumFD.Detector.EndOfInput
import PlanetariumFD.Detector.Progress
import PlanetariumFD.Detector.Retention

/-!
# The system comes to rest

As long as the pruner respects the floor nothing fails, and nobody waits for anybody: from
every state the main thread can finish its frame and the jobs can finish after it, whatever
OpenCV answers them.
-/

namespace PlanetariumFD

open Outcome Transition

/-- The steps of the main thread up to the end of its frame. -/
def mainTurns {F : Type} (s : System F) : Nat :=
  match s.main with
  | .idle => 0
  | .pushed _ _ => s.sh.gThreads.size + 3
  | .deleting itrs _ _ => itrs.length + 2
  | .seeded => 1

section
variable {F : Type} [FloatOps F] {cfg : Config F} {s t : System F} {a : Action} {now : Int}

theorem StepEffect.mainTurns_lt (e : StepEffect cfg s .main t) : mainTurns t < mainTurns s := by
  cases e with
  | process pc eff =>
    simp only [mainTurns, pc, eff.addrs, NodeList.addrs_length]
    omega
  | keep pc get under => simp [mainTurns, pc]
  | delete pc get past get' => simp [mainTurns, pc]
  | seed pc => simp [mainTurns, pc]
  | finish pc prune => simp [mainTurns, pc]

/-- Reached by a run in which every erase respects the floor. -/
def WellPruned (cfg : Config F) (now : Int) (s : System F) : Prop :=
  ∃ as, run (step cfg) (start cfg now) as = .ok s ∧
    Throughout (step cfg) RespectsFloor (start cfg now) as

theorem WellPruned.after (h : WellPruned cfg now s) (hst : step cfg s a = .ok t)
    (ha : a ≠ .pruner) : WellPruned cfg now t := by
  obtain ⟨as, hrun, hc⟩ := h
  refine ⟨as ++ [a], run_snoc_iff.mpr ⟨s, hrun, hst⟩, (throughout_snoc_iff hrun a).mpr ⟨hc, ?_⟩⟩
  exact fun hpruner => absurd hpruner ha

theorem WellPruned.jobsSucceed (h : WellPruned cfg now s) (h1 : 1 ≤ cfg.maxThreadHistorySize) :
    JobsSucceed cfg s := by
  obtain ⟨as, hrun, hc⟩ := h
  obtain ⟨lo, hshape, hkept⟩ := kept_of_run h1 hrun hc
  exact jobsSucceed_of_kept h1 (jobsOwn_of_run hrun) (storedFaces_of_run h1 hrun) hshape
    (jobsWalk_of_run h1 hrun) hkept

/-- The main thread gets to the end of its frame by itself. -/
theorem WellPruned.finishFrame (hcfg : cfg.Sound) (h : WellPruned cfg now s) :
    ∃ as t, (∀ a ∈ as, a = Action.main) ∧ run (step cfg) s as = .ok t ∧ WellPruned cfg now t ∧
      t.main = .idle := by
  have hfinish : ∃ as t, Throughout (step cfg) (fun _ a => a = Action.main) s as ∧
      run (step cfg) s as = .ok t ∧ WellPruned cfg now t ∧ t.main = .idle := by
    refine exists_run_of_rank mainTurns ?_ h
    rintro u ⟨as, hrun, hc⟩ hbusy
    obtain ⟨-, lo, hshape, -⟩ := historyShape_of_run hrun
    have S := storedFaces_of_run hcfg.history hrun
    obtain ⟨v, hst⟩ := main_runs (hcfg.suffices u .main) (jobsOwn_of_run hrun) S.liveThreads hshape
      hbusy
    have hpruned := WellPruned.after ⟨as, hrun, hc⟩ hst (by simp)
    exact ⟨.main, v, rfl, hst, hpruned, (step_cases hst).mainTurns_lt⟩
  obtain ⟨as, t, hmain, hrun, hend⟩ := hfinish
  exact ⟨as, t, hmain.forall_mem hrun, hrun, hend⟩

/-- The turns that the first `n` jobs still take. -/
def jobsTurns (cfg : Config F) (n : Nat) (s : System F) : Nat :=
  ((List.range n).map (jobTurns cfg s)).sum

/-- A turn of one job brings all of them nearer to their end. -/
theorem jobsTurns_lt (hs : WellPruned cfg now s) {k : Nat} {isOk : Bool} (hk : k < s.sh.jobs.length)
    (hst : step cfg s (.job k isOk) = .ok t) :
    jobsTurns cfg s.sh.jobs.length t < jobsTurns cfg s.sh.jobs.length s := by
  obtain ⟨as, hrun, -⟩ := hs
  refine List.sum_lt_sum _ _ (fun i hi => ?_) ⟨k, List.mem_range.mpr hk, ?_⟩
  · have V := jobTurns_variant cfg i
    have hi : HasJob cfg i s := ⟨⟨now, as, hrun⟩, List.mem_range.mp hi⟩
    cases hown : (Action.job k isOk).isJob i with
    | true => exact (V.lowers s _ t hi hown hst).le
    | false => exact V.others s _ t hi hown hst
  · exact (jobTurns_variant cfg k).lowers s _ t ⟨⟨now, as, hrun⟩, hk⟩
      (by simp [Action.isJob]) hst

/-- A job that has not finished takes its turn unless it fails. -/
theorem job_runs {k : Nat} {isOk : Bool} {j : Job}
    (hsucceeds : ∀ f, step cfg s (.job k isOk) ≠ .error (.fault f)) (hk : s.sh.jobs[k]? = some j)
    (hactive : j.pc ≠ .finished) : ∃ t, step cfg s (.job k isOk) = .ok t := by
  cases hsave : saveAndDeleteThread cfg s.sh k j isOk with
  | ok g =>
    refine ⟨{ s with sh := g }, ?_⟩
    simp only [step, hk, if_neg hactive, hsave]
    rfl
  | error f =>
    refine absurd ?_ (hsucceeds f)
    simp only [step, hk, if_neg hactive, hsave]
    rfl

/-- Between two frames the jobs get to their ends by themselves, whatever OpenCV answers. -/
theorem WellPruned.finishJobs (h1 : 1 ≤ cfg.maxThreadHistorySize) (h : WellPruned cfg now s)
    (hidle : s.main = .idle) (isOk : Bool) :
    ∃ as t, (∀ a ∈ as, ∃ k, a = Action.job k isOk) ∧ run (step cfg) s as = .ok t ∧
      (WellPruned cfg now t ∧ t.main = .idle ∧ t.sh.jobs.length = s.sh.jobs.length) ∧
      ∀ j ∈ t.sh.jobs, j.pc = .finished := by
  have hfinish : ∃ as t, Throughout (step cfg) (fun _ a => ∃ k, a = Action.job k isOk) s as ∧
      run (step cfg) s as = .ok t ∧
      (WellPruned cfg now t ∧ t.main = .idle ∧ t.sh.jobs.length = s.sh.jobs.length) ∧
      ∀ j ∈ t.sh.jobs, j.pc = .finished := by
    refine exists_run_of_rank (jobsTurns cfg s.sh.jobs.length) ?_ ⟨h, hidle, rfl⟩
    rintro u ⟨hu, hmain, hlength⟩ hbusy
    push Not at hbusy
    obtain ⟨j, hj, hactive⟩ := hbusy
    obtain ⟨k, hk⟩ := List.mem_iff_getElem?.mp hj
    have hlt := (List.getElem?_eq_some_iff.mp hk).1
    obtain ⟨v, hst⟩ := job_runs (hu.jobsSucceed h1 k isOk) hk hactive
    have same := (step_cases hst).sameThreads hmain rfl
    have hjobs := congrArg List.length same.jobs
    rw [List.length_map, List.length_map] at hjobs
    refine ⟨_, v, ⟨k, rfl⟩, hst, ⟨hu.after hst (by simp), same.idle, hjobs.trans hlength⟩, ?_⟩
    rw [← hlength]
    exact jobsTurns_lt hu hlt hst
  obtain ⟨as, t, hjob, hrun, hend⟩ := hfinish
  exact ⟨as, t, hjob.forall_mem hrun, hrun, hend⟩

/-- No action fails in a state reached by a run whose erases respect the floor, and from it
the main thread and the jobs can come to rest: the frame is finished, and so is every job. -/
theorem rests_of_run (hcfg : cfg.Sound) {as : List Action}
    (h : run (step cfg) (start cfg now) as = .ok s)
    (hc : Throughout (step cfg) RespectsFloor (start cfg now) as)
    (hlt : s.sh.processedFrameCounter < intMax) (isOk : Bool) :
    (∀ a f, step cfg s a ≠ .error (.fault f)) ∧
      ∃ bs t, (∀ b ∈ bs, b = Action.main ∨ ∃ k, b = Action.job k isOk) ∧
        run (step cfg) s bs = .ok t ∧ t.main = .idle ∧ (∀ j ∈ t.sh.jobs, j.pc = .finished) ∧
        t.sh.gThreadsBeingSerialized.addrs = [] := by
  have hs : WellPruned cfg now s := ⟨as, h, hc⟩
  refine ⟨fun a f hf => ?_, ?_⟩
  · obtain ⟨k, isOk, rfl⟩ := job_of_fault hcfg h hlt hf
    exact hs.jobsSucceed hcfg.history k isOk f hf
  · obtain ⟨bs, u, hbs, hu, hpruned, hidle⟩ := hs.finishFrame hcfg
    obtain ⟨cs, t, hcs, ht, ⟨⟨ds, hrun, -⟩, hrest, -⟩, hdone⟩ :=
      hpruned.finishJobs hcfg.history hidle isOk
    refine ⟨bs ++ cs, t, fun b hb => ?_, run_append_iff.mpr ⟨u, hu, ht⟩, hrest, hdone, ?_⟩
    · exact (List.mem_append.mp hb).imp (hbs b) (hcs b)
    · -- an entry would belong to a job that has not finished
      rw [List.eq_nil_iff_forall_not_mem]
      intro p hp
      obtain ⟨j, hj, -, hactive⟩ := (jobsOwn_of_run hrun).owner hp
      exact hactive (hdone j hj)

end

/-- In the middle of a frame, with the job of another thread half done, after a pass that has
erased three entries. -/
def midFrame : List Action := passBelowFloor ++ [.job 0 true, .frame oneDetection, .main]

theorem rests_of_run_midFrame : ∃ s,
    run (step (Config.declared : Config ℚ)) (start Config.declared 0) midFrame = .ok s ∧
    (∀ entry ∈ s.sh.gHistory.vals, 3 < entry.frameId) ∧
    (∀ a f, step Config.declared s a ≠ .error (.fault f)) ∧
    ∃ bs t, run (step (Config.declared : Config ℚ)) s bs = .ok t ∧ t.main = .idle ∧
      t.sh.gThreadsBeingSerialized.addrs = [] := by
  have hruns : returns (fun s => decide (s.sh.processedFrameCounter < intMax ∧
      ∀ entry ∈ s.sh.gHistory.vals, 3 < entry.frameId))
      (run (step (Config.declared : Config ℚ)) (start Config.declared 0) midFrame) = true := by
    decide +kernel
  obtain ⟨s, hs, hdec⟩ := exists_of_returns hruns
  obtain ⟨hlt, herased⟩ := of_decide_eq_true hdec
  have hrespects : Throughout (step (Config.declared : Config ℚ)) RespectsFloor
      (start Config.declared 0) midFrame := by decide +kernel
  obtain ⟨hsucceeds, bs, t, -, ht, hidle, -, hgone⟩ := rests_of_run
    ⟨by decide, by decide, by decide⟩ hs hrespects hlt true
  exact ⟨s, hs, herased, hsucceeds, bs, t, ht, hidle, hgone⟩

end PlanetariumFD
