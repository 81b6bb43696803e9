import PlanetariumFD.Detector.Custody
import PlanetariumFD.Detector.ThreadLife

/-!
# Nobody stops

With settings that make sense, neither the main thread nor the pruner ever fails, in
any interleaving. What can fail is a job, whose lookups depend on what the pruner has
left of the history.
-/

namespace PlanetariumFD

open Outcome Transition

/-- The settings the code relies on. -/
structure Config.Sound {F : Type} (cfg : Config F) : Prop where
  history : 1 ≤ cfg.maxThreadHistorySize
  prune : cfg.pruneFacesInterval ≠ 0
  sample : cfg.sampleTimeEveryXFrames ≠ 0

/-- What a step relies on in the settings, by what it is about to do. -/
structure SettingsSuffice {F : Type} (cfg : Config F) (s : System F) (a : Action) : Prop where
  sample : ∀ cur now, a = .main → s.main = .pushed cur now → cfg.sampleTimeEveryXFrames ≠ 0
  prune : a = .main → s.main = .seeded → cfg.pruneFacesInterval ≠ 0
  history : a = .main → s.main = .seeded → 1 ≤ cfg.maxThreadHistorySize ∨
    s.sh.processedFrameCounter.tmod cfg.pruneFacesInterval ≠ 0 ∨ s.sh.gThreads.vals = []
  job : ∀ k isOk j, a = .job k isOk → s.sh.jobs[k]? = some j → j.pc = .started →
    0 ≤ cfg.maxThreadHistorySize

theorem Config.Sound.suffices {F : Type} {cfg : Config F} (h : cfg.Sound) (s : System F)
    (a : Action) : SettingsSuffice cfg s a where
  sample _ _ _ _ := h.sample
  prune _ _ := h.prune
  history _ _ := .inl h.history
  job _ _ _ _ _ _ := zero_le_one.trans h.history

section
variable {F : Type} {cfg : Config F} {g : Shared F}

/-- The end of a frame is total on nonempty threads, unless it prunes them to nothing,
and leaves none empty. -/
theorem finish_total (hprune : cfg.pruneFacesInterval ≠ 0)
    (hkeeps : 1 ≤ cfg.maxThreadHistorySize ∨
      g.processedFrameCounter.tmod cfg.pruneFacesInterval ≠ 0 ∨ g.gThreads.vals = [])
    (hne : ∀ th ∈ g.gThreads.vals, th.pFaces ≠ []) :
    ∃ g₁ g₂, pruneThreads cfg g = .ok g₁ ∧ showFaces cfg g₁ = .ok g₂ ∧
      ∀ th ∈ g₂.gThreads.vals, th.pFaces ≠ [] := by
  have hpruned : ∃ g₁, pruneThreads cfg g = .ok g₁ ∧ ∀ th ∈ g₁.gThreads.vals, th.pFaces ≠ [] := by
    unfold pruneThreads
    rw [if_neg hprune]
    split
    · next hmod =>
      have hall : ∀ th ∈ g.gThreads.vals, 1 ≤ cfg.maxThreadHistorySize := by
        intro th hth
        obtain h1 | hno | hnil := hkeeps
        · exact h1
        · exact absurd hmod hno
        · rw [hnil] at hth
          cases hth
      rw [NodeList.mapValsM_ok fun th hth => FDFaceThread.pruneFacesList_eq
        (zero_le_one.trans (hall th hth))]
      refine ⟨_, rfl, fun th hth => ?_⟩
      rw [NodeList.vals_mapVals, List.mem_map] at hth
      obtain ⟨th₀, hth₀, rfl⟩ := hth
      exact FDFaceThread.pruned_ne_nil (hall th₀ hth₀) (hne th₀ hth₀)
    · exact ⟨g, rfl, hne⟩
  obtain ⟨g₁, h₁, hne₁⟩ := hpruned
  have hshow : ∃ fs, shownFaces cfg g₁.gThreads.vals = .ok fs := shownFaces_total hne₁
  obtain ⟨fs, hfs⟩ := hshow
  exact ⟨g₁, { g₁ with gFacesInCurrentFrame := fs }, h₁, by rw [showFaces, hfs]; rfl, hne₁⟩

end

section
variable {F : Type} [FloatOps F] {cfg : Config F} {s t : System F} {a : Action} {lo : Nat}

/-- The part of the invariant that needs no limit on the face lists. -/
structure LiveThreads (s : System F) : Prop where
  counter : 0 ≤ s.sh.processedFrameCounter
  begun : s.main ≠ .idle → 1 ≤ s.sh.processedFrameCounter
  nonempty : ∀ th ∈ s.sh.gThreads.vals, th.pFaces ≠ []

omit [FloatOps F] in
theorem StoredFaces.liveThreads (S : StoredFaces s) : LiveThreads s where
  counter := S.counter
  begun := S.begun
  nonempty th hth := by
    obtain ⟨b, hb⟩ := NodeList.mem_vals_iff.mp hth
    exact (S.live _ hb).nonempty

theorem main_runs (hs : SettingsSuffice cfg s .main) (J : JobsOwn s) (L : LiveThreads s)
    (h : HistoryShape s lo) (hpc : s.main ≠ .idle) : ∃ t, step cfg s .main = .ok t := by
  cases hmain : s.main with
  | idle => exact absurd hmain hpc
  | pushed cur now =>
    -- the pushed entry is the newest, and that one is never erased
    have hcur : cur ∈ s.sh.gHistory.addrs := by
      have hlast := h.cur cur now hmain
      have hlo := h.lo_lt (L.begun hpc)
      have hcounter := h.counter
      exact h.spans.mem_addrs_iff.mpr ⟨by omega, by omega⟩
    have hmatch : ∃ m, matchThreads cfg s.sh cur s.sh.processedFrameCounter now = .ok m :=
      matchThreads_total (hs.sample cur now rfl hmain) hcur L.nonempty
    obtain ⟨m, hm⟩ := hmatch
    exact ⟨_, by rw [step, hmain, mainStep, hm]; rfl⟩
  | deleting itrs ms faces => exact J.deletion_runs hmain
  | seeded =>
    obtain ⟨g₁, g₂, h₁, h₂, -⟩ :=
      finish_total (hs.prune rfl hmain) (hs.history rfl hmain) L.nonempty
    exact ⟨_, by rw [step, hmain, mainStep, h₁, orHalt_ok, ok_bind, h₂]; rfl⟩

/-- In every interleaving, only a job can fail. -/
theorem job_of_fault (hcfg : cfg.Sound) {now : Int} {as : List Action}
    (h : run (step cfg) (start cfg now) as = .ok s) (hlt : s.sh.processedFrameCounter < intMax)
    {f : Fault} (hf : step cfg s a = .error (.fault f)) : ∃ k isOk, a = .job k isOk := by
  have J := jobsOwn_of_run h
  have S := storedFaces_of_run hcfg.history h
  obtain ⟨-, lo, hshape, -⟩ := historyShape_of_run h
  cases a with
  | frame inp =>
    cases hpc : s.main with
    | idle =>
      simp only [step, hpc, recordFrame_of_lt hlt, orHalt_ok, ok_bind] at hf
      cases hf
    | _ =>
      simp only [step, hpc] at hf
      cases hf
  | main =>
    by_cases hpc : s.main = .idle
    · rw [step, hpc, mainStep] at hf
      cases hf
    · obtain ⟨t, ht⟩ := main_runs (hcfg.suffices s .main) J S.liveThreads hshape hpc
      cases ht.symm.trans hf
  | pruner =>
    obtain ⟨r, hr⟩ := hshape.pruner_runs (S.getMin_total hlt)
    simp only [step, hr, orHalt_ok, ok_bind] at hf
    cases hf
  | job k isOk => exact ⟨k, isOk, rfl⟩

/-! ## Frames alone -/

/-- `FdProcessFaces` returns from every state that a run of frames reaches. -/
theorem fdProcessFaces_total (hcfg : cfg.Sound) {now : Int} {frames : List FrameInput}
    {g : Shared F} (h : runFrames cfg now frames = .ok g) (hlt : g.processedFrameCounter < intMax)
    (inp : FrameInput) : ∃ g', fdProcessFaces cfg g inp = .ok g' := by
  obtain ⟨as, -, hrun⟩ := run_of_runFrames h
  have S := storedFaces_of_run hcfg.history hrun
  have hpush : StepEffect cfg ⟨g, .idle, .waiting⟩ (.frame inp)
      ⟨recorded g inp, .pushed g.gHistory.fresh inp.now, .waiting⟩ := .frame rfl hlt
  have S₁ := S.after hcfg.history hpush
  have hcur : g.gHistory.fresh ∈ (recorded g inp).gHistory.addrs := by
    rw [recorded_gHistory, NodeList.addrs_pushBack]
    exact List.mem_append_right _ (List.mem_singleton_self _)
  have hne : ∀ th ∈ (recorded g inp).gThreads.vals, th.pFaces ≠ [] := by
    intro th hth
    obtain ⟨b, hb⟩ := NodeList.mem_vals_iff.mp hth
    exact (S₁.live _ hb).nonempty
  have hmatch : ∃ m, matchThreads cfg (recorded g inp) g.gHistory.fresh
      (recorded g inp).processedFrameCounter inp.now = .ok m :=
    matchThreads_total hcfg.sample hcur hne
  obtain ⟨m, hm⟩ := hmatch
  have S₂ := S₁.after hcfg.history (.process rfl (matchThreads_ok hm).2)
  have hne₂ : ∀ th ∈ (afterDeletion cfg m).gThreads.vals, th.pFaces ≠ [] := by
    intro th hth
    obtain ⟨b, hb⟩ := NodeList.mem_vals_iff.mp hth
    obtain ⟨hold, -⟩ | ⟨i, f, -, -, rfl⟩ := afterDeletion_get?.mp (NodeList.get?_eq_some_iff.mpr hb)
    · exact (S₂.live _ (NodeList.get?_eq_some_iff.mp hold)).nonempty
    · exact List.cons_ne_nil _ _
  obtain ⟨g₁, g₂, h₁, h₂, -⟩ := finish_total hcfg.prune (.inl hcfg.history) hne₂
  exact ⟨g₂, by simp only [fdProcessFaces, processFrame, recordFrame_of_lt hlt, ok_bind,
    processThreads2_of_matchThreads hm, h₁, h₂]⟩

/-- Every list of frames can be run, as long as the frame counter does not overflow. -/
theorem runFrames_total (hcfg : cfg.Sound) (now : Int) {frames : List FrameInput}
    (hlen : (frames.length : Int) ≤ intMax) :
    ∃ g, runFrames cfg now frames = .ok g ∧ g.processedFrameCounter = frames.length := by
  induction frames using List.reverseRecOn with
  | nil => exact ⟨_, rfl, rfl⟩
  | append_singleton frames inp ih =>
    rw [List.length_append, List.length_singleton] at hlen ⊢
    push_cast at hlen ⊢
    obtain ⟨g, hg, hcount⟩ := ih (by omega)
    obtain ⟨g', hg'⟩ := fdProcessFaces_total hcfg hg (by omega) inp
    obtain ⟨g₁, h₁, hothers, -⟩ := fdProcessFaces_threads hg'
    obtain ⟨m, e⟩ := processFrame_effect h₁
    refine ⟨g', run_snoc_iff.mpr ⟨g, hg, hg'⟩, ?_⟩
    rw [hothers]
    exact e.counter.trans (by rw [hcount])

end

end PlanetariumFD
