import PlanetariumFD.Detector.HistoryWalk
import PlanetariumFD.Detector.JobTurns
import PlanetariumFD.Detector.LookBack
import PlanetariumFD.Detector.Progress
import PlanetariumFD.Detector.ThreadsAlone

/-!
# How long a job can take

A thread that is handed to a job has gaps no longer than the consecutive misses allow,
and the job first prunes it. So the settings alone bound the turns of every job, in any
interleaving and for a video of any length.
-/

namespace PlanetariumFD

open Outcome Transition

/-! ## The threads that are handed over -/

/-- The faces of a thread, with the gaps that a live thread may have. -/
structure HandedFaces {F : Type} (cfg : Config F) (th : FDFaceThread) : Prop where
  nonempty : th.pFaces ≠ []
  increasing : th.pFaces.Pairwise fun f f' => f.frameId < f'.frameId
  gaps : th.pFaces.IsChain fun f f' =>
    f'.frameId - f.frameId ≤ cfg.maxAllowedConsecutiveMisses + 1

section
variable {F : Type} {cfg : Config F} {th : FDFaceThread} {n : Int} {ever : List Face}

theorem Shape.handedFaces (s : Shape cfg n ever th) : HandedFaces cfg th :=
  ⟨s.nonempty, s.increasing, s.gaps⟩

theorem HandedFaces.pruned (h : HandedFaces cfg th) (h1 : 1 ≤ cfg.maxThreadHistorySize) :
    HandedFaces cfg (th.pruned cfg) where
  nonempty := FDFaceThread.pruned_ne_nil h1 h.nonempty
  increasing := h.increasing.sublist FDFaceThread.pruned_suffix.sublist
  gaps := h.gaps.suffix FDFaceThread.pruned_suffix

/-- A pruned thread spans a number of frames that the settings bound. -/
theorem HandedFaces.spanLength_le (h : HandedFaces cfg th)
    (hc : 0 ≤ cfg.maxAllowedConsecutiveMisses) (h1 : 1 ≤ cfg.maxThreadHistorySize) :
    (spanLength (th.pruned cfg).pFaces : Int) ≤
      (cfg.maxThreadHistorySize - 1) * (cfg.maxAllowedConsecutiveMisses + 1) + 1 := by
  have hp := h.pruned h1
  have hspan := span_le_of_isChain (by omega) hp.gaps (List.getLast?_eq_some_getLast hp.nonempty) _
    (List.head_mem hp.nonempty)
  have hlen : ((th.pruned cfg).pFaces.length : Int) ≤ cfg.maxThreadHistorySize := by
    rw [FDFaceThread.pruned, List.length_drop]
    omega
  rw [spanLength_eq hp.nonempty hp.increasing]
  calc _ ≤ (((th.pruned cfg).pFaces.length : Int) - 1) * (cfg.maxAllowedConsecutiveMisses + 1) + 1 :=
        add_le_add_left hspan 1
    _ ≤ _ := add_le_add_left (mul_le_mul_of_nonneg_right (by omega) (by omega)) 1

end

section
variable {F : Type} [FloatOps F] {cfg : Config F} {now : Int} {frames : List FrameInput}
  {g g' : Shared F} {inp : FrameInput}

/-- The threads that a run of frames hands over were in shape when they were matched last. -/
theorem handedFaces_of_runFrames (h1 : 1 ≤ cfg.maxThreadHistorySize)
    (hm : 0 ≤ cfg.maxAllowedMissedCount) (hc : 0 ≤ cfg.maxAllowedConsecutiveMisses)
    (h : runFrames cfg now frames = .ok g) :
    ∀ th ∈ g.gThreadsBeingSerialized.vals, HandedFaces cfg th := by
  refine run_induction (P := fun _ g => ∀ th ∈ g.gThreadsBeingSerialized.vals, HandedFaces cfg th)
    (fun _ h => by cases h) (fun fs s inp t hs ih hst => ?_) h
  have S := shaped_of_runFrames h1 hm hc hs
  have L := life_of_runFrames hs
  obtain ⟨g₁, h₁, hothers, -⟩ := fdProcessFaces_threads hst
  obtain ⟨m, e⟩ := processFrame_effect h₁
  intro th hth
  rw [hothers, e.result, afterDeletion, NodeList.vals_pushAll, e.effect.saved_eq,
    recorded_gThreadsBeingSerialized, List.mem_append, List.mem_filter] at hth
  obtain hth | ⟨hth, -⟩ := hth
  · exact ih th hth
  · obtain ⟨a, ha⟩ := NodeList.mem_vals_iff.mp hth
    have hu : updatedThread cfg s inp a = some th :=
      e.updatedThread_eq.trans (NodeList.get?_eq_some_iff.mpr ha)
    obtain ⟨th₀, hth₀⟩ := e.of_updated hu
    obtain ⟨mt, hmt, hu', -⟩ := e.updated hth₀
    obtain rfl := Option.some.inj (hu.symm.trans hu')
    have hshape := S.shape a th₀ hth₀
    cases hfound : mt.found with
    | false => exact (hshape.miss hfound).handedFaces
    | true => exact (hshape.hit hfound (e.effect.face_frameId hmt hfound) (L.consecutive_le hc hth₀)
        (L.counts a th₀ hth₀).nonneg).handedFaces

omit [FloatOps F] in
theorem deleteThreads_keeps {k : Nat} {th : FDFaceThread} {itrs : List Nat} :
    ∀ {ms : List (Matching F)} {g g' : Shared F}, deleteThreads cfg itrs ms g = .ok g' →
      g.gThreadsBeingSerialized.get? k = some th → g'.gThreadsBeingSerialized.get? k = some th := by
  induction itrs with
  | nil =>
    intro ms g g' h hk
    cases h
    exact hk
  | cons itr itrs ih =>
    intro ms g g' h hk
    cases ms with
    | nil => cases h
    | cons m ms =>
      obtain ⟨g₁, h₁, h⟩ := bind_eq_ok.mp h
      refine ih h ?_
      obtain ⟨rfl, -⟩ | ⟨th', hdel, hth', -⟩ := deleteIfExceeds_same rfl h₁
      · exact hk
      · simp only [deleteThread, hth'] at hdel
        cases hdel
        exact NodeList.get?_pushBack_of_eq_some hk _

/-- A frame takes nothing back from the jobs. -/
theorem restOfFrame_keeps {k : Nat} {th : FDFaceThread} {pc : MainPC F}
    (h : restOfFrame cfg g pc = .ok g') (hk : g.gThreadsBeingSerialized.get? k = some th) :
    g'.gThreadsBeingSerialized.get? k = some th := by
  have hfinish : ∀ {u v w : Shared F}, pruneThreads cfg u = .ok v → showFaces cfg v = .ok w →
      w.gThreadsBeingSerialized = u.gThreadsBeingSerialized := by
    intro u v w hprune hshow
    obtain ⟨-, hw⟩ := showFaces_ok hshow
    rw [hw]
    obtain ⟨-, ⟨-, rfl⟩ | ⟨-, -, rfl⟩⟩ := pruneThreads_ok hprune <;> rfl
  cases pc with
  | idle =>
    cases h
    exact hk
  | pushed cur now =>
    obtain ⟨g₁, h₁, h⟩ := bind_eq_ok.mp h
    obtain ⟨g₂, h₂, h₃⟩ := bind_eq_ok.mp h
    obtain ⟨m, -, e, rfl⟩ := processThreads2_ok h₁
    rw [hfinish h₂ h₃, afterDeletion, NodeList.get?_eq_some_iff, NodeList.mem_pushAll_nodes,
      e.saved_eq]
    exact .inl (NodeList.get?_eq_some_iff.mp hk)
  | deleting itrs ms faces =>
    obtain ⟨g₁, h₁, h⟩ := bind_eq_ok.mp h
    obtain ⟨g₂, h₂, h₃⟩ := bind_eq_ok.mp h
    rw [hfinish h₂ h₃]
    have hkept := deleteThreads_keeps h₁ hk
    exact hkept
  | seeded =>
    obtain ⟨g₁, h₁, h₂⟩ := bind_eq_ok.mp h
    rw [hfinish h₁ h₂]
    exact hk

variable {s : System F} {k : Nat}

/-- In every interleaving, what a job holds is such a thread, pruned or not. -/
theorem handedFaces_of_run (hcfg : cfg.Sound) (hm : 0 ≤ cfg.maxAllowedMissedCount)
    (hc : 0 ≤ cfg.maxAllowedConsecutiveMisses) {as : List Action}
    (h : run (step cfg) (start cfg now) as = .ok s) {th : FDFaceThread}
    (hth : s.sh.gThreadsBeingSerialized.get? k = some th) : HandedFaces cfg th := by
  obtain ⟨s₀, hsame, hmid⟩ := exists_alone h
  obtain ⟨th₀, hth₀, hcase⟩ := hsame.saved k th hth
  obtain ⟨-, rfl⟩ | ⟨fs, g, inp, -, hg, hlt, hrest⟩ := hmid
  · cases hth₀
  · -- the frame that is going on can be finished, and then the thread is still there
    obtain ⟨g', hg'⟩ := fdProcessFaces_total hcfg hg hlt inp
    have hend := restOfFrame_keeps (hrest.trans hg') hth₀
    have hhanded := handedFaces_of_runFrames hcfg.history hm hc
      (run_snoc_iff.mpr ⟨g, hg, hg'⟩) th₀
      (NodeList.mem_vals_iff.mpr ⟨k, NodeList.get?_eq_some_iff.mp hend⟩)
    obtain rfl | rfl := hcase
    · exact hhanded
    · exact hhanded.pruned hcfg.history

/-! ## Turns -/

omit [FloatOps F] in
theorem lastFrame_le {faces : List Face} {n : Int} (hn : 0 ≤ n) (h : ∀ f ∈ faces, f.frameId ≤ n) :
    lastFrame faces ≤ n := by
  induction faces with
  | nil => exact hn
  | cons f faces ih =>
    rw [lastFrame, List.map_cons, List.foldr_cons, max_le_iff]
    exact ⟨h f List.mem_cons_self, ih fun g hg => h g (List.mem_cons_of_mem _ hg)⟩

/-- An export takes a turn for every frame that its thread spans, and two more. -/
theorem exportTurns_le {th : FDFaceThread} (hne : th.pFaces ≠ [])
    (hinc : th.pFaces.Pairwise fun f f' => f.frameId < f'.frameId)
    (hpos : ∀ f ∈ th.pFaces, 1 ≤ f.frameId) (e : Export) :
    exportTurns cfg th e ≤ spanLength th.pFaces + 2 := by
  have hspan := spanLength_eq hne hinc
  have hlast : 1 ≤ (th.pFaces.getLast hne).frameId := hpos _ (List.getLast_mem hne)
  -- an export of faces from the thread's first frame to its last
  have hwalk : ∀ f fs, (∀ f' ∈ f :: fs, (th.pFaces.head hne).frameId ≤ f'.frameId ∧
      f'.frameId ≤ (th.pFaces.getLast hne).frameId) →
      1 + walkTurns (some (f.frameId - 1).toNat) (f :: fs) ≤ spanLength th.pFaces + 2 := by
    intro f fs hfs
    have hto := lastFrame_le (by omega) fun f' hf' => (hfs f' hf').2
    have hfrom := (hfs f List.mem_cons_self).1
    have hfirst := hpos _ (List.head_mem hne)
    simp only [walkTurns]
    omega
  unfold exportTurns
  split
  · next f fs hfaces =>
    apply hwalk f fs
    unfold exportFaces at hfaces
    split at hfaces
    · rw [if_neg hne, Except.ok.injEq, Option.some.injEq] at hfaces
      rw [← hfaces]
      exact fun f' hf' => within_of_mem hinc hne hf'
    · split at hfaces
      · cases hfaces
      · split at hfaces
        · -- the smoothed faces stay within the same frames
          obtain ⟨out, hout, -, hwithin, -⟩ := smoothedFaces_ok (F := F) hne hinc
          rw [hout] at hfaces
          cases hfaces
          exact hwithin
        · rw [Except.ok.injEq, Option.some.injEq] at hfaces
          rw [← hfaces]
          exact fun f' hf' => within_of_mem hinc hne hf'
  · omega

/-- The turns of a job that has just been created, as a number. -/
theorem jobTurns_started_le (hcfg : cfg.Sound) (hm : 0 ≤ cfg.maxAllowedMissedCount)
    (hc : 0 ≤ cfg.maxAllowedConsecutiveMisses) {as : List Action}
    (h : run (step cfg) (start cfg now) as = .ok s) {j : Job} (hj : s.sh.jobs[k]? = some j)
    (hpc : j.pc = .started) : (jobTurns cfg s k : Int) ≤
      2 + 3 * ((cfg.maxThreadHistorySize - 1) * (cfg.maxAllowedConsecutiveMisses + 1) + 3) := by
  obtain ⟨th, hth, -⟩ := (jobsOwn_of_run h).entry (List.mem_of_getElem? hj) (by simp [hpc])
  rw [((jobsOwn_of_run h).pTh_eq hj).1] at hth
  have hhanded := handedFaces_of_run hcfg hm hc h hth
  have hpruned := hhanded.pruned hcfg.history
  have hspan := hhanded.spanLength_le hc hcfg.history
  have hstored := (storedFaces_of_run hcfg.history h).saved _ (NodeList.get?_eq_some_iff.mp hth)
  have hturns : ∀ e, exportTurns cfg (th.pruned cfg) e ≤ spanLength (th.pruned cfg).pFaces + 2 :=
    exportTurns_le hpruned.nonempty hpruned.increasing fun f hf =>
      (hstored.within f (FDFaceThread.pruned_suffix.subset hf)).1
  simp only [jobTurns, hj, hth, hpc, JobPC.turnsLeft, exportsTurns]
  have h₁ := hturns .images
  have h₂ := hturns (.video false)
  have h₃ := hturns (.video true)
  split
  · simp only [List.map_cons, List.map_nil, List.sum_cons, List.sum_nil]
    push_cast
    omega
  · simp only [List.map_nil, List.sum_nil]
    push_cast
    omega

/-- From its creation a save job takes a number of turns that the settings bound, however
long the video is and whatever the other parties do, and after as many it has finished. -/
theorem job_turns_bounded (hcfg : cfg.Sound) (hm : 0 ≤ cfg.maxAllowedMissedCount)
    (hc : 0 ≤ cfg.maxAllowedConsecutiveMisses) {as bs : List Action} {t : System F}
    (h : run (step cfg) (start cfg now) as = .ok s) {j : Job} (hj : s.sh.jobs[k]? = some j)
    (hpc : j.pc = .started) (hrun : run (step cfg) s bs = .ok t) :
    (bs.countP (Action.isJob k) : Int) ≤
      2 + 3 * ((cfg.maxThreadHistorySize - 1) * (cfg.maxAllowedConsecutiveMisses + 1) + 3) ∧
    (2 + 3 * ((cfg.maxThreadHistorySize - 1) * (cfg.maxAllowedConsecutiveMisses + 1) + 3) ≤
        (bs.countP (Action.isJob k) : Int) →
      ∃ j', t.sh.jobs[k]? = some j' ∧ j'.pc = .finished) := by
  have hs : HasJob cfg k s := ⟨⟨now, as, h⟩, (List.getElem?_eq_some_iff.mp hj).1⟩
  have V := jobTurns_variant cfg k
  have hle := jobTurns_started_le hcfg hm hc h hj hpc
  have hturns := V.turns_add_rank_le hs hrun
  refine ⟨by omega, fun hmany => ?_⟩
  have ht : HasJob cfg k t := run_invariant V.keeps hs hrun
  obtain ⟨j', hj', hdone, -⟩ := finished_of_jobTurns_eq_zero ht (by omega)
  exact ⟨j', hj', hdone⟩

end

/-- A job that is created and takes its first turn. -/
theorem job_turns_bounded_oneThreadSaved : ∃ s t,
    run (step (Config.declared : Config ℚ)) (start Config.declared 0) oneThreadSaved.dropLast =
      .ok s ∧
    run (step (Config.declared : Config ℚ)) s [Action.job 0 true] = .ok t ∧
    (([Action.job 0 true].countP (Action.isJob 0) : Nat) : Int) ≤ 2 + 3 * ((200 - 1) * (3 + 1) + 3) := by
  have hruns : returns (fun s => returns (fun _ => decide ((s.sh.jobs.map Job.pc)[0]? = some .started))
        (run (step (Config.declared : Config ℚ)) s [Action.job 0 true]))
      (run (step (Config.declared : Config ℚ)) (start Config.declared 0) oneThreadSaved.dropLast) =
        true := by decide +kernel
  obtain ⟨s, hs, hruns⟩ := exists_of_returns hruns
  obtain ⟨t, ht, hdec⟩ := exists_of_returns hruns
  have hpc := of_decide_eq_true hdec
  rw [List.getElem?_map, Option.map_eq_some_iff] at hpc
  obtain ⟨j, hj, hpc⟩ := hpc
  exact ⟨s, t, hs, ht, (job_turns_bounded ⟨by decide, by decide, by decide⟩ (by decide) (by decide)
    hs hj hpc ht).1⟩

end PlanetariumFD
