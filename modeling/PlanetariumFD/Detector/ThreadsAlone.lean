import PlanetariumFD.Foundation.Refinement
import PlanetariumFD.Detector.ExportWalk

/-!
# Tracking does not depend on the schedule

The pruner and the save jobs share the lists with the main thread, yet nothing that the
main thread does depends on them. Purged of their steps, a run of the system is a run of
the main thread alone, which is a run of `FdProcessFaces` on the same frames; what the
jobs hold are the threads that such a run hands over.
-/

namespace PlanetariumFD

open Outcome Transition

def Action.isMain : Action → Bool
  | .frame _ => true
  | .main => true
  | _ => false

/-- What the main thread reads is the same in both states, and the threads that the jobs
of `s` hold are those handed over in `s₀`, pruned or not. -/
structure SameForMain {F : Type} (cfg : Config F) (s s₀ : System F) : Prop where
  main : s₀.main = s.main
  threads : s₀.sh.gThreads = s.sh.gThreads
  shown : s₀.sh.gFacesInCurrentFrame = s.sh.gFacesInCurrentFrame
  counter : s₀.sh.processedFrameCounter = s.sh.processedFrameCounter
  time : s₀.sh.fdTimeSeconds = s.sh.fdTimeSeconds
  fps : s₀.sh.estimatedFps = s.sh.estimatedFps
  pushed : s₀.sh.gHistory.fresh = s.sh.gHistory.fresh
  cur : ∀ cur now, s.main = .pushed cur now → s₀.sh.gHistory.get? cur = s.sh.gHistory.get? cur
  given : s₀.sh.gThreadsBeingSerialized.fresh = s.sh.gThreadsBeingSerialized.fresh
  saved : ∀ k th, s.sh.gThreadsBeingSerialized.get? k = some th →
    ∃ th₀, s₀.sh.gThreadsBeingSerialized.get? k = some th₀ ∧ (th = th₀ ∨ th = th₀.pruned cfg)
  jobs : s.sh.jobs.map Job.ident = s₀.sh.jobs.map Job.ident

section
variable {F : Type} {cfg : Config F} {th : FDFaceThread}

/-- Pruning twice is pruning once. -/
theorem FDFaceThread.pruned_pruned : (th.pruned cfg).pruned cfg = th.pruned cfg := by
  have hdrop : (th.pruned cfg).pFaces.length - cfg.maxThreadHistorySize.toNat = 0 := by
    rw [pruned, List.length_drop]
    omega
  conv_lhs => rw [pruned, hdrop, List.drop_zero]

end

section
variable {F : Type} [FloatOps F] {cfg : Config F} {s s₀ t : System F} {a : Action} {lo : Nat}

/-! ## The others -/

omit [FloatOps F] in
/-- The pruner never erases the entry of the frame that is being matched. -/
theorem HistoryShape.cur_kept (h : HistoryShape s lo) {cur itr : Nat} {now m : Int} {ls : Nat}
    (hcur : s.main = .pushed cur now) (hpc : s.pruner = .erasing (some itr) m ls)
    (hlong : minListSize < ls) :
    (eraseEntry s.sh.gHistory itr).get? cur = s.sh.gHistory.get? cur := by
  have hfits := h.pruner
  rw [hpc] at hfits
  obtain ⟨-, hls, hitr⟩ := hfits
  obtain rfl := Option.some.inj hitr
  have hlast := h.cur cur now hcur
  have hsize := h.size_eq
  have hne : cur ≠ itr := by
    unfold minListSize at hlong
    omega
  rw [eraseEntry, NodeList.get?_erase_of_ne _ hne, NodeList.get?_modify_of_ne _ hne]

theorem SameForMain.others (h : SameForMain cfg s s₀) (hshape : HistoryShape s lo)
    (hother : a.isMain = false) (e : StepEffect cfg s a t) : SameForMain cfg t s₀ := by
  have hset : ∀ {k j} (pc : JobPC), s.sh.jobs[k]? = some j →
      (s.sh.jobs.set k { j with pc := pc }).map Job.ident = s₀.sh.jobs.map Job.ident := by
    intro k j pc hj
    rw [map_set_pc Job.ident (fun _ _ => rfl) hj]
    exact h.jobs
  cases e with
  | frame pc lt => cases hother
  | process pc eff => cases hother
  | keep pc get under => cases hother
  | delete pc get past get' => cases hother
  | seed pc => cases hother
  | finish pc prune => cases hother
  | erase pc get below long =>
    exact { h with
      cur := fun cur now hcur => (h.cur cur now hcur).trans (hshape.cur_kept hcur pc long).symm }
  | @jobStart k isOk j th todo job pc get prune =>
    refine { h with saved := fun i th' hth' => ?_, jobs := hset _ job }
    by_cases hi : i = j.pTh
    · -- the job prunes the thread it was given
      subst hi
      obtain ⟨th₀, hth₀, hcase⟩ := h.saved _ _ get
      refine ⟨th₀, hth₀, .inr ?_⟩
      simp only [setJobPC, NodeList.modify, NodeList.get?_alter, get, Option.map_some, if_pos,
        Option.some.injEq] at hth'
      obtain rfl | rfl := hcase
      · exact hth'.symm
      · rw [← hth', FDFaceThread.pruned_pruned]
    · exact h.saved i th' ((NodeList.get?_modify_of_ne _ hi _).symm.trans hth')
  | jobExport job active unstarted undone exports => exact { h with jobs := hset _ job }
  | @jobErase k isOk j th job pc get =>
    refine { h with saved := fun i th' hth' => ?_, jobs := hset _ job }
    have hne : i ≠ j.pTh := by
      rintro rfl
      have hgone : (s.sh.gThreadsBeingSerialized.erase j.pTh).get? j.pTh = none := by
        rw [NodeList.get?_eq_none_iff, NodeList.addrs_erase]
        simp
      cases hgone.symm.trans hth'
    exact h.saved i th' ((NodeList.get?_erase_of_ne _ hne).symm.trans hth')
  | _ => exact { h with }

/-! ## The main thread -/

theorem sampleFps_same {g g₀ g₁ : Shared F} {n now : Int}
    (time : g₀.fdTimeSeconds = g.fdTimeSeconds) (fps : g₀.estimatedFps = g.estimatedFps)
    (h : sampleFps cfg g n now = .ok g₁) : sampleFps cfg g₀ n now =
      .ok { g₀ with fdTimeSeconds := g₁.fdTimeSeconds, estimatedFps := g₁.estimatedFps } := by
  unfold sampleFps at h ⊢
  split at h
  · cases h
  · next hne =>
    rw [if_neg hne]
    split at h
    · next hmod =>
      cases h
      rw [if_pos hmod, time, fps]
    · next hmod =>
      cases h
      rw [if_neg hmod, ← time, ← fps]

theorem matchThreads_same {g g₀ : Shared F} {cur : Nat} {n now : Int} {m : Matched F}
    (threads : g₀.gThreads = g.gThreads) (time : g₀.fdTimeSeconds = g.fdTimeSeconds)
    (fps : g₀.estimatedFps = g.estimatedFps)
    (entry : g₀.gHistory.get? cur = g.gHistory.get? cur)
    (h : matchThreads cfg g cur n now = .ok m) :
    ∃ m₀, matchThreads cfg g₀ cur n now = .ok m₀ ∧ m₀.ms = m.ms ∧ m₀.inputFaces = m.inputFaces ∧
      m₀.sh.gThreads = m.sh.gThreads ∧ m₀.sh.fdTimeSeconds = m.sh.fdTimeSeconds ∧
      m₀.sh.estimatedFps = m.sh.estimatedFps := by
  obtain ⟨g₁, hsample, h⟩ := bind_eq_ok.mp h
  have hsample₀ := sampleFps_same time fps hsample
  obtain ⟨-, hg₁⟩ := sampleFps_ok hsample
  have hthreads : g₁.gThreads = g.gThreads := by rw [hg₁]
  have hhist : g₁.gHistory = g.gHistory := by rw [hg₁]
  rw [hhist, hthreads] at h
  split at h
  · cases h
  · next e he =>
    obtain ⟨r, hr, h⟩ := bind_eq_ok.mp h
    obtain ⟨l, hl, h⟩ := bind_eq_ok.mp h
    cases h
    simp only [matchThreads, hsample₀, ok_bind, entry, he, threads, hr, hl]
    exact ⟨_, rfl, rfl, rfl, rfl, rfl, rfl⟩

omit [FloatOps F] in
theorem deleteIfExceeds_same {g g₀ g₁ : Shared F} {itr : Nat} {m : Matching F}
    (threads : g₀.gThreads = g.gThreads) (h : deleteIfExceeds cfg itr m g = .ok g₁) :
    (g₁ = g ∧ deleteIfExceeds cfg itr m g₀ = .ok g₀) ∨
      ∃ th, deleteThread g itr = .ok g₁ ∧ g.gThreads.get? itr = some th ∧
        deleteIfExceeds cfg itr m g₀ = .ok { g₀ with
          gThreadsBeingSerialized := g₀.gThreadsBeingSerialized.pushBack th
          gThreads := g₀.gThreads.erase itr
          jobs := g₀.jobs ++ [⟨g₀.gThreadsBeingSerialized.fresh, th.ident, .started⟩] } := by
  unfold deleteIfExceeds at h ⊢
  rw [threads]
  split at h
  · cases h
  · next th hth =>
    split at h
    · next hex =>
      right
      have hdel := h
      unfold deleteThread at h
      split at h
      · cases h
      · next th' hth' =>
        refine ⟨th', hdel, hth', ?_⟩
        simp only [hex, if_true, deleteThread, threads, hth']
    · next hex =>
      cases h
      exact .inl ⟨rfl, by simp only [hex, Bool.false_eq_true, if_false]⟩

omit [FloatOps F] in
theorem finish_same {g g₀ g₁ g₂ : Shared F} (threads : g₀.gThreads = g.gThreads)
    (counter : g₀.processedFrameCounter = g.processedFrameCounter)
    (hprune : pruneThreads cfg g = .ok g₁) (hshow : showFaces cfg g₁ = .ok g₂) :
    ∃ g₁', pruneThreads cfg g₀ = .ok g₁' ∧ showFaces cfg g₁' = .ok { g₀ with
      gThreads := g₂.gThreads
      gFacesInCurrentFrame := g₂.gFacesInCurrentFrame } := by
  obtain ⟨fs, hfs, rfl⟩ := map_eq_ok.mp hshow
  unfold pruneThreads at hprune ⊢
  split at hprune
  · cases hprune
  · next hne =>
    rw [if_neg hne]
    split at hprune
    · next hmod =>
      obtain ⟨l, hl, rfl⟩ := map_eq_ok.mp hprune
      rw [← counter] at hmod
      rw [if_pos hmod, threads, hl]
      exact ⟨_, rfl, by rw [showFaces, hfs]; rfl⟩
    · next hmod =>
      cases hprune
      rw [← counter] at hmod
      rw [if_neg hmod]
      exact ⟨_, rfl, by rw [showFaces, threads, hfs, ← threads]; rfl⟩

theorem SameForMain.frame (h : SameForMain cfg s s₀) {inp : FrameInput}
    (hst : step cfg s (.frame inp) = .ok t) :
    ∃ t₀, step cfg s₀ (.frame inp) = .ok t₀ ∧ SameForMain cfg t t₀ := by
  cases step_cases hst with
  | frame pc lt =>
    have hlt : s₀.sh.processedFrameCounter < intMax := by rw [h.counter]; exact lt
    refine ⟨{ s₀ with sh := recorded s₀.sh inp, main := .pushed s₀.sh.gHistory.fresh inp.now },
      by simp only [step, h.main, pc, recordFrame_of_lt hlt, orHalt_ok, ok_bind], ?_⟩
    have hnew : ∀ (l : NodeList FDHistoryEntry) (e : FDHistoryEntry),
        (l.pushBack e).get? l.fresh = some e := by
      intro l e
      rw [NodeList.get?_eq_some_iff, NodeList.mem_pushBack_nodes]
      exact .inr rfl
    constructor
    case main => rw [h.pushed]
    case threads => rw [recorded_gThreads, recorded_gThreads, h.threads]
    case shown =>
      rw [recorded_others, recorded_others (g := s.sh)]
      exact h.shown
    case counter => rw [recorded_processedFrameCounter, recorded_processedFrameCounter, h.counter]
    case time =>
      rw [recorded_others, recorded_others (g := s.sh)]
      exact h.time
    case fps =>
      rw [recorded_others, recorded_others (g := s.sh)]
      exact h.fps
    case pushed => rw [recorded_gHistory, recorded_gHistory, NodeList.pushBack_fresh,
      NodeList.pushBack_fresh, h.pushed]
    case cur =>
      intro cur now hcur
      cases hcur
      rw [recorded_gHistory, recorded_gHistory, hnew, ← h.pushed, hnew, h.counter]
    case given => rw [recorded_gThreadsBeingSerialized, recorded_gThreadsBeingSerialized, h.given]
    case saved =>
      rw [recorded_gThreadsBeingSerialized, recorded_gThreadsBeingSerialized]
      exact h.saved
    case jobs =>
      rw [recorded_jobs, recorded_jobs]
      exact h.jobs

omit [FloatOps F] in
/-- A thread is handed over in both states. -/
theorem SameForMain.handed (h : SameForMain cfg s s₀) (itr : Nat) (th : FDFaceThread)
    (pc : MainPC F) (hpc : ∀ cur now, pc ≠ .pushed cur now) :
    SameForMain cfg
      { s with
        sh := { s.sh with
          gThreadsBeingSerialized := s.sh.gThreadsBeingSerialized.pushBack th
          gThreads := s.sh.gThreads.erase itr
          jobs := s.sh.jobs ++ [⟨s.sh.gThreadsBeingSerialized.fresh, th.ident, .started⟩] }
        main := pc }
      { s₀ with
        sh := { s₀.sh with
          gThreadsBeingSerialized := s₀.sh.gThreadsBeingSerialized.pushBack th
          gThreads := s₀.sh.gThreads.erase itr
          jobs := s₀.sh.jobs ++ [⟨s₀.sh.gThreadsBeingSerialized.fresh, th.ident, .started⟩] }
        main := pc } where
  main := rfl
  threads := by dsimp only; rw [h.threads]
  shown := h.shown
  counter := h.counter
  time := h.time
  fps := h.fps
  pushed := h.pushed
  cur cur now hcur := absurd hcur (hpc cur now)
  given := by dsimp only; rw [NodeList.pushBack_fresh, NodeList.pushBack_fresh, h.given]
  saved k th' hk := by
    obtain hk | hk := NodeList.mem_pushBack_nodes.mp (NodeList.get?_eq_some_iff.mp hk)
    · obtain ⟨th₀, hth₀, hcase⟩ := h.saved k th' (NodeList.get?_eq_some_iff.mpr hk)
      exact ⟨th₀, NodeList.get?_pushBack_of_eq_some hth₀ _, hcase⟩
    · -- the new entry has the same address in both lists
      obtain ⟨rfl, rfl⟩ := Prod.mk.inj hk
      refine ⟨th', ?_, .inl rfl⟩
      rw [NodeList.get?_eq_some_iff, NodeList.mem_pushBack_nodes, h.given]
      exact .inr rfl
  jobs := by dsimp only; rw [List.map_append, List.map_append, h.jobs]; rfl

theorem SameForMain.mainStep (h : SameForMain cfg s s₀) (hst : step cfg s .main = .ok t) :
    ∃ t₀, step cfg s₀ .main = .ok t₀ ∧ SameForMain cfg t t₀ := by
  simp only [step] at hst ⊢
  rw [h.main]
  cases hpc : s.main with
  | idle =>
    rw [hpc] at hst
    cases hst
  | pushed cur now =>
    rw [hpc] at hst
    obtain ⟨m, hm, hst⟩ := bind_eq_ok.mp hst
    cases hst
    rw [orHalt_eq_ok] at hm
    rw [← h.counter] at hm
    obtain ⟨m₀, hm₀, hms, hfaces, hthreads, htime, hfps⟩ :=
      matchThreads_same h.threads h.time h.fps (h.cur cur now hpc) hm
    have e := (matchThreads_ok hm).2
    have e₀ := (matchThreads_ok hm₀).2
    refine ⟨{ s₀ with sh := m₀.sh, main := .deleting m₀.sh.gThreads.addrs m₀.ms m₀.inputFaces },
      by simp only [PlanetariumFD.mainStep, hm₀, orHalt_ok, ok_bind], ?_⟩
    constructor
    case main => dsimp only; rw [hms, hfaces, hthreads]
    case threads => exact hthreads
    case shown => dsimp only; rw [e.others, e₀.others]; exact h.shown
    case counter => dsimp only; rw [e.counter_eq, e₀.counter_eq]; exact h.counter
    case time => exact htime
    case fps => exact hfps
    case pushed =>
      dsimp only
      rw [e.others, e₀.others]
      simp only [NodeList.modify_fresh]
      exact h.pushed
    case cur =>
      intro cur' now' hcur
      cases hcur
    case given => dsimp only; rw [e.saved_eq, e₀.saved_eq]; exact h.given
    case saved => dsimp only; rw [e.saved_eq, e₀.saved_eq]; exact h.saved
    case jobs => dsimp only; rw [e.jobs_eq, e₀.jobs_eq]; exact h.jobs
  | deleting itrs ms faces =>
    rw [hpc] at hst
    cases itrs with
    | nil =>
      cases hst
      refine ⟨_, rfl, ?_⟩
      exact { h with
        main := rfl
        threads := by dsimp only; rw [h.threads]
        cur := fun cur' now' hcur => by cases hcur }
    | cons itr itrs =>
      cases ms with
      | nil => cases hst
      | cons m ms =>
        obtain ⟨g, hg, hst⟩ := bind_eq_ok.mp hst
        cases hst
        rw [orHalt_eq_ok] at hg
        obtain ⟨rfl, hg₀⟩ | ⟨th, hdel, hth, hg₀⟩ := deleteIfExceeds_same h.threads hg
        · refine ⟨{ s₀ with main := .deleting itrs ms faces },
            by simp only [PlanetariumFD.mainStep, hg₀, orHalt_ok, ok_bind], ?_⟩
          exact { h with main := rfl, cur := fun cur' now' hcur => by cases hcur }
        · simp only [deleteThread, hth] at hdel
          cases hdel
          refine ⟨_, by simp only [PlanetariumFD.mainStep, hg₀, orHalt_ok, ok_bind]; rfl, ?_⟩
          exact h.handed itr th (.deleting itrs ms faces) fun _ _ he => by cases he
  | seeded =>
    rw [hpc] at hst
    obtain ⟨g₁, h₁, hst⟩ := bind_eq_ok.mp hst
    obtain ⟨g₂, h₂, hst⟩ := bind_eq_ok.mp hst
    cases hst
    rw [orHalt_eq_ok] at h₁ h₂
    obtain ⟨g₁', hprune, hshow⟩ := finish_same h.threads h.counter h₁ h₂
    refine ⟨_, by simp only [PlanetariumFD.mainStep, hprune, hshow, orHalt_ok, ok_bind]; rfl, ?_⟩
    obtain ⟨-, hg₂⟩ := showFaces_ok h₂
    have hg₁ : g₁ = { s.sh with gThreads := g₁.gThreads } := by
      obtain ⟨-, ⟨-, rfl⟩ | ⟨-, -, rfl⟩⟩ := pruneThreads_ok h₁ <;> rfl
    have hg : g₂ = { s.sh with
        gThreads := g₂.gThreads, gFacesInCurrentFrame := g₂.gFacesInCurrentFrame } := by
      rw [hg₂, hg₁]
    rw [hg]
    exact { h with
      main := rfl, threads := rfl, shown := rfl, cur := fun cur' now' hcur => by cases hcur }

/-- The pruner and the jobs do nothing that the main thread could notice. -/
theorem main_unwinding (cfg : Config F) : Unwinding (step cfg)
    (fun s => ∃ now as, run (step cfg) (start cfg now) as = .ok s) Action.isMain
    (SameForMain cfg) where
  keeps := by
    rintro s a t ⟨now, as, hrun⟩ hst
    exact ⟨now, as ++ [a], run_snoc_iff.mpr ⟨s, hrun, hst⟩⟩
  others := by
    rintro s a t s₀ ⟨now, as, hrun⟩ hsame hother hst
    obtain ⟨-, lo, hshape, -⟩ := historyShape_of_run hrun
    exact hsame.others hshape hother (step_cases hst)
  matched := by
    rintro s a t s₀ - hsame hown hst
    cases a with
    | frame inp => exact hsame.frame hst
    | main => exact hsame.mainStep hst
    | pruner => cases hown
    | job k isOk => cases hown

omit [FloatOps F] in
theorem SameForMain.refl (cfg : Config F) (s : System F) : SameForMain cfg s s where
  main := rfl
  threads := rfl
  shown := rfl
  counter := rfl
  time := rfl
  fps := rfl
  pushed := rfl
  cur _ _ _ := rfl
  given := rfl
  saved _ th hk := ⟨th, hk, .inl rfl⟩
  jobs := rfl

/-! ## The main thread alone -/

/-- What is left of `FdProcessFaces` where the main thread stands. -/
def restOfFrame (cfg : Config F) (g : Shared F) : MainPC F → Except Fault (Shared F)
  | .idle => .ok g
  | .pushed cur now => do
    let g ← processThreads2 cfg g cur g.processedFrameCounter now
    let g ← pruneThreads cfg g
    showFaces cfg g
  | .deleting itrs ms faces => do
    let g ← deleteThreads cfg itrs ms g
    let g ← pruneThreads cfg { g with gThreads := seedThreads g.gThreads faces }
    showFaces cfg g
  | .seeded => do
    let g ← pruneThreads cfg g
    showFaces cfg g

/-- A step of the main thread does the next part of it. -/
theorem restOfFrame_step (h : step cfg s .main = .ok t) :
    restOfFrame cfg t.sh t.main = restOfFrame cfg s.sh s.main := by
  simp only [step] at h
  cases hpc : s.main with
  | idle =>
    rw [hpc] at h
    cases h
  | pushed cur now =>
    rw [hpc] at h
    obtain ⟨m, hm, h⟩ := bind_eq_ok.mp h
    cases h
    rw [orHalt_eq_ok] at hm
    simp only [restOfFrame, processThreads2, hm, ok_bind]
    cases deleteThreads cfg m.sh.gThreads.addrs m.ms m.sh <;> rfl
  | deleting itrs ms faces =>
    rw [hpc] at h
    cases itrs with
    | nil =>
      cases h
      rfl
    | cons itr itrs =>
      cases ms with
      | nil => cases h
      | cons m ms =>
        obtain ⟨g, hg, h⟩ := bind_eq_ok.mp h
        cases h
        rw [orHalt_eq_ok] at hg
        simp only [restOfFrame, deleteThreads, hg, ok_bind]
  | seeded =>
    rw [hpc] at h
    obtain ⟨g₁, h₁, h⟩ := bind_eq_ok.mp h
    obtain ⟨g₂, h₂, h⟩ := bind_eq_ok.mp h
    cases h
    rw [orHalt_eq_ok] at h₁ h₂
    simp only [restOfFrame, h₁, h₂, ok_bind]

theorem restOfFrame_frame {inp : FrameInput} (h : step cfg s (.frame inp) = .ok t) :
    s.main = .idle ∧ s.sh.processedFrameCounter < intMax ∧
      restOfFrame cfg t.sh t.main = fdProcessFaces cfg s.sh inp := by
  cases step_cases h with
  | frame pc lt =>
    refine ⟨pc, lt, ?_⟩
    simp only [restOfFrame, fdProcessFaces, processFrame, recordFrame_of_lt lt, ok_bind]

def Action.frame? : Action → Option FrameInput
  | .frame inp => some inp
  | _ => none

/-- What is left of the current frame leads to where `FdProcessFaces` leads on the frames
so far. -/
def MidFrame (cfg : Config F) (now : Int) (frames : List FrameInput) (s : System F) : Prop :=
  (frames = [] ∧ s = start cfg now) ∨ ∃ fs g inp, frames = fs ++ [inp] ∧
    runFrames cfg now fs = .ok g ∧ g.processedFrameCounter < intMax ∧
      restOfFrame cfg s.sh s.main = fdProcessFaces cfg g inp

theorem MidFrame.runFrames {now : Int} {frames : List FrameInput} (h : MidFrame cfg now frames s)
    (hidle : s.main = .idle) : runFrames cfg now frames = .ok s.sh := by
  obtain ⟨rfl, rfl⟩ | ⟨fs, g, inp, rfl, hg, -, hrest⟩ := h
  · rfl
  · rw [hidle] at hrest
    exact run_snoc_iff.mpr ⟨g, hg, hrest.symm⟩

theorem midFrame_of_run {now : Int} {as : List Action} (hmain : ∀ a ∈ as, a.isMain = true)
    (h : run (step cfg) (start cfg now) as = .ok s) :
    MidFrame cfg now (as.filterMap Action.frame?) s := by
  refine run_induction (P := fun as s => (∀ a ∈ as, a.isMain = true) →
    MidFrame cfg now (as.filterMap Action.frame?) s) (fun _ => .inl ⟨rfl, rfl⟩) ?_ h hmain
  intro as s a t _ ih hst hall
  have hin := ih fun b hb => hall b (List.mem_append_left _ hb)
  rw [List.filterMap_append]
  cases a with
  | frame inp =>
    obtain ⟨hidle, hlt, hrest⟩ := restOfFrame_frame hst
    exact .inr ⟨_, s.sh, inp, rfl, hin.runFrames hidle, hlt, hrest⟩
  | main =>
    rw [List.filterMap_cons_none rfl, List.filterMap_nil, List.append_nil]
    obtain ⟨hnil, rfl⟩ | ⟨fs, g, inp, hfs, hg, hlt, hrest⟩ := hin
    · cases hst
    · exact .inr ⟨fs, g, inp, hfs, hg, hlt, (restOfFrame_step hst).trans hrest⟩
  | pruner => cases hall .pruner (List.mem_append_right _ (List.mem_singleton_self _))
  | job k isOk => cases hall (.job k isOk) (List.mem_append_right _ (List.mem_singleton_self _))

theorem filterMap_frame?_filter_isMain (as : List Action) :
    (as.filter Action.isMain).filterMap Action.frame? = as.filterMap Action.frame? := by
  induction as with
  | nil => rfl
  | cons a as ih =>
    rw [List.filter_cons, List.filterMap_cons]
    cases a <;> simp [Action.isMain, Action.frame?, List.filterMap_cons, ih]

/-- Every reachable state looks to the main thread like one it reaches alone. -/
theorem exists_alone {now : Int} {as : List Action}
    (h : run (step cfg) (start cfg now) as = .ok s) :
    ∃ s₀, SameForMain cfg s s₀ ∧ MidFrame cfg now (as.filterMap Action.frame?) s₀ := by
  have hstart : ∃ now' bs, run (step cfg) (start cfg now') bs = .ok (start cfg now) := ⟨now, [], rfl⟩
  obtain ⟨s₀, hrun, hsame⟩ := (main_unwinding cfg).purge hstart (SameForMain.refl cfg _) h
  refine ⟨s₀, hsame, ?_⟩
  rw [← filterMap_frame?_filter_isMain]
  exact midFrame_of_run (fun a ha => (List.mem_filter.mp ha).2) hrun

/-- Between two frames it is the state that `FdProcessFaces` leaves. -/
theorem exists_runFrames {now : Int} {as : List Action}
    (h : run (step cfg) (start cfg now) as = .ok s) (hidle : s.main = .idle) :
    ∃ s₀, SameForMain cfg s s₀ ∧
      runFrames cfg now (as.filterMap Action.frame?) = .ok s₀.sh := by
  obtain ⟨s₀, hsame, hin⟩ := exists_alone h
  exact ⟨s₀, hsame, hin.runFrames (hsame.main.trans hidle)⟩

/-- Between two frames, whatever the pruner and the jobs have done, the main thread's state
is that of `FdProcessFaces` run alone on the frames so far; the jobs were given the threads
which that run hands over, and those still held are unchanged but for their pruning. -/
theorem tracking_of_run {now : Int} {as : List Action}
    (h : run (step cfg) (start cfg now) as = .ok s) (hidle : s.main = .idle) :
    ∃ g, runFrames cfg now (as.filterMap Action.frame?) = .ok g ∧
      s.sh.gThreads = g.gThreads ∧ s.sh.gFacesInCurrentFrame = g.gFacesInCurrentFrame ∧
      s.sh.processedFrameCounter = g.processedFrameCounter ∧
      s.sh.fdTimeSeconds = g.fdTimeSeconds ∧ s.sh.estimatedFps = g.estimatedFps ∧
      s.sh.jobs.map Job.ident = g.jobs.map Job.ident ∧
      ∀ k th, s.sh.gThreadsBeingSerialized.get? k = some th →
        ∃ th₀, g.gThreadsBeingSerialized.get? k = some th₀ ∧ (th = th₀ ∨ th = th₀.pruned cfg) := by
  obtain ⟨s₀, hsame, hrun⟩ := exists_runFrames h hidle
  exact ⟨s₀.sh, hrun, hsame.threads.symm, hsame.shown.symm, hsame.counter.symm, hsame.time.symm,
    hsame.fps.symm, hsame.jobs, hsame.saved⟩

end

/-- A thread is saved while the pruner waits. -/
theorem tracking_of_run_oneThreadSaved : ∃ s g,
    run (step (Config.declared : Config ℚ)) (start Config.declared 0)
      (oneThreadSaved ++ [Action.pruner]) = .ok s ∧
    runFrames (Config.declared : Config ℚ) 0
      ((oneThreadSaved ++ [Action.pruner]).filterMap Action.frame?) = .ok g ∧
    s.sh.gThreads = g.gThreads ∧ s.sh.jobs.map Job.ident = g.jobs.map Job.ident := by
  have hruns : returns (fun s => s.main.isIdle)
      (run (step (Config.declared : Config ℚ)) (start Config.declared 0)
        (oneThreadSaved ++ [Action.pruner])) = true := by decide +kernel
  obtain ⟨s, hs, hidle⟩ := exists_of_returns hruns
  obtain ⟨g, hg, hthreads, -, -, -, -, hjobs, -⟩ := tracking_of_run hs (MainPC.eq_idle hidle)
  exact ⟨s, g, hs, hg, hthreads, hjobs⟩

end PlanetariumFD
