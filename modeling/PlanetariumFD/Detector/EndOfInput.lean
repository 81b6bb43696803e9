import PlanetariumFD.Detector.JobTurns

/-!
# After the input

The loop of the program ends with the input, and nothing closes the threads that are
still open then: they stay in `gThreads`, and no job ever gets them. The jobs that have
been started are the last ones, and each of them comes to its end.
-/

namespace PlanetariumFD

open Outcome Transition

section
variable {F : Type} [FloatOps F] {cfg : Config F} {s t : System F} {a : Action}

/-- What stays as it is when no frame comes in any more. -/
structure SameThreads (s t : System F) : Prop where
  idle : t.main = .idle
  threads : t.sh.gThreads = s.sh.gThreads
  shown : t.sh.gFacesInCurrentFrame = s.sh.gFacesInCurrentFrame
  jobs : t.sh.jobs.map Job.ident = s.sh.jobs.map Job.ident

/-- Without a frame the main thread has nothing to do, and the others leave its lists alone. -/
theorem StepEffect.sameThreads (e : StepEffect cfg s a t) (hidle : s.main = .idle)
    (hframe : a.isFrame = false) : SameThreads s t := by
  cases e with
  | frame pc lt => cases hframe
  | process pc eff => cases hidle.symm.trans pc
  | keep pc get under => cases hidle.symm.trans pc
  | delete pc get past get' => cases hidle.symm.trans pc
  | seed pc => cases hidle.symm.trans pc
  | finish pc prune => cases hidle.symm.trans pc
  | jobStart job pc get prune => exact ⟨hidle, rfl, rfl, map_set_pc Job.ident (fun _ _ => rfl) job⟩
  | jobExport job active unstarted undone exports =>
    exact ⟨hidle, rfl, rfl, map_set_pc Job.ident (fun _ _ => rfl) job⟩
  | jobErase job pc get => exact ⟨hidle, rfl, rfl, map_set_pc Job.ident (fun _ _ => rfl) job⟩
  | _ => exact ⟨hidle, rfl, rfl, rfl⟩

theorem sameThreads_of_run (hidle : s.main = .idle) {bs : List Action}
    (h : run (step cfg) s bs = .ok t) (hframes : ∀ a ∈ bs, a.isFrame = false) :
    SameThreads s t := by
  refine run_induction (P := fun bs t => (∀ a ∈ bs, a.isFrame = false) → SameThreads s t)
    (fun _ => ⟨hidle, rfl, rfl, rfl⟩) ?_ h hframes
  intro bs u a v _ ih hst hframes
  have hu := ih fun b hb => hframes b (List.mem_append_left _ hb)
  have hv := (step_cases hst).sameThreads hu.idle
    (hframes a (List.mem_append_right _ List.mem_cons_self))
  exact ⟨hv.idle, hv.threads.trans hu.threads, hv.shown.trans hu.shown, hv.jobs.trans hu.jobs⟩

/-- When the input has ended, the live threads stay live and unchanged whatever the others
do; no job is started, and once each has had its turns none holds a thread. -/
theorem afterInput_of_run (cfg : Config F) {now : Int} {as bs : List Action}
    (h : run (step cfg) (start cfg now) as = .ok s) (hidle : s.main = .idle)
    (h' : run (step cfg) s bs = .ok t) (hframes : ∀ a ∈ bs, a.isFrame = false) :
    SameThreads s t ∧
      ((∀ k < s.sh.jobs.length, jobTurns cfg s k ≤ bs.countP (Action.isJob k)) →
        t.sh.gThreadsBeingSerialized.addrs = []) := by
  have same := sameThreads_of_run hidle h' hframes
  refine ⟨same, fun hturns => ?_⟩
  rw [List.eq_nil_iff_forall_not_mem]
  intro p hp
  -- an entry belongs to a job that has not finished
  obtain ⟨j, hj, -, hactive⟩ := (jobsOwn_of_run (run_append_iff.mpr ⟨s, h, h'⟩)).owner hp
  obtain ⟨k, hk⟩ := List.mem_iff_getElem?.mp hj
  have hlt : k < s.sh.jobs.length := by
    have hlength := congrArg List.length same.jobs
    rw [List.length_map, List.length_map] at hlength
    have := (List.getElem?_eq_some_iff.mp hk).1
    omega
  have V := jobTurns_variant cfg k
  have hs : HasJob cfg k s := ⟨⟨now, as, h⟩, hlt⟩
  have ht : HasJob cfg k t := run_invariant V.keeps hs h'
  obtain ⟨j', hj', hdone, -⟩ :=
    finished_of_jobTurns_eq_zero ht (V.rank_eq_zero hs h' (hturns k hlt))
  cases hk.symm.trans hj'
  exact hactive hdone

end

/-- At the end of the input one thread is open and another is being saved. -/
def openAndSaved : List Action :=
  (.frame oneDetection :: List.replicate 3 .main) ++
    ((List.replicate 4 (trackingFrame oneDetection)).flatten ++
      ((List.replicate 4 (trackingFrame noDetection)).flatten ++
        (.frame oneDetection :: List.replicate 3 .main)))

theorem afterInput_of_run_openAndSaved : ∃ s t,
    run (step (Config.declared : Config ℚ)) (start Config.declared 0) openAndSaved = .ok s ∧
    run (step (Config.declared : Config ℚ)) s (.pruner :: List.replicate 11 (.job 0 false)) = .ok t ∧
    s.sh.gThreads.vals ≠ [] ∧ s.sh.gThreadsBeingSerialized.addrs ≠ [] ∧
    SameThreads s t ∧ t.sh.gThreadsBeingSerialized.addrs = [] := by
  have hruns : returns (fun s => decide (s.main.isIdle = true ∧ s.sh.gThreads.vals ≠ [] ∧
        s.sh.gThreadsBeingSerialized.addrs ≠ [] ∧ ∀ k < s.sh.jobs.length,
          jobTurns Config.declared s k ≤
            (Action.pruner :: List.replicate 11 (Action.job 0 false)).countP (Action.isJob k)) &&
      returns (fun _ => true) (run (step (Config.declared : Config ℚ)) s
        (.pruner :: List.replicate 11 (.job 0 false))))
      (run (step (Config.declared : Config ℚ)) (start Config.declared 0) openAndSaved) = true := by
    decide +kernel
  obtain ⟨s, hs, hdec⟩ := exists_of_returns hruns
  obtain ⟨hstate, hruns⟩ := (Bool.and_eq_true _ _).mp hdec
  obtain ⟨hidle, hopen, hsaved, hturns⟩ := of_decide_eq_true hstate
  obtain ⟨t, ht, -⟩ := exists_of_returns hruns
  obtain ⟨hsame, hgone⟩ := afterInput_of_run Config.declared hs (MainPC.eq_idle hidle) ht (by decide)
  exact ⟨s, t, hs, ht, hopen, hsaved, hsame, hgone hturns⟩

end PlanetariumFD
