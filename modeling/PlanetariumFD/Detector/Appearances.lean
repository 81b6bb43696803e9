import PlanetariumFD.Detector.ThreadShape

/-!
# The threshold of occurrences

How often a face has appeared is not stored: the frame that creates a thread
does not count. The display filter and the save test compare the same counter
with the same threshold, one with `>` and one with `>=`, so a face is shown from
two appearances beyond the threshold on, and saved from one beyond it on.
-/

namespace PlanetariumFD

open Outcome Transition

section
variable {F : Type} [FloatOps F]

/-- The number of frames that attached a face to the thread at `a`, the one that
created it included. -/
def appearances (cfg : Config F) (now : Int) (frames : List FrameInput) (a : Nat) : Nat :=
  (frameTrail cfg now frames).countP fun p => !(attached cfg p.1 p.2 a).isEmpty

/-- The occurrence test of `saveAndDeleteThread`. -/
def occursEnough (cfg : Config F) (th : FDFaceThread) : Bool :=
  th.nonMissedCount ≥ cfg.minFaceOccurencesThresh

/-- The law: after every frame of the run the faces returned are the last faces of
the live threads that appeared often enough, and the occurrence test holds of
exactly those of the threads handed to save jobs. -/
def MeansAppearances (cfg : Config F) (now : Int) (frames : List FrameInput) : Prop :=
  ∀ fs g, fs <+: frames → runFrames cfg now fs = .ok g →
    List.Forall₂ (fun p f => p.2.pFaces.getLast? = some f)
      (g.gThreads.nodes.filter fun p =>
        cfg.minFaceOccurencesThresh ≤ (appearances cfg now fs p.1 : Int))
      g.gFacesInCurrentFrame ∧
    ∀ th ∈ g.gThreadsBeingSerialized.vals, occursEnough cfg th = true ↔
      cfg.minFaceOccurencesThresh ≤ (appearances cfg now fs th.ident : Int)

/-- No frame of the run attaches a face to a thread one appearance short of the
threshold. -/
def StaysShort (cfg : Config F) (now : Int) (frames : List FrameInput) : Prop :=
  ∀ fs inp rest g g', frames = fs ++ inp :: rest → runFrames cfg now fs = .ok g →
    fdProcessFaces cfg g inp = .ok g' → ∀ a,
      (appearances cfg now fs a : Int) + 1 = cfg.minFaceOccurencesThresh →
      attached cfg g inp a = []

/-- The counter of a thread against its appearances, wherever the thread is. -/
structure Counted (cfg : Config F) (now : Int) (frames : List FrameInput) (g : Shared F) :
    Prop where
  live : ∀ a th, g.gThreads.get? a = some th →
    th.ident = a ∧ th.nonMissedCount + 1 = appearances cfg now frames a
  moved : ∀ th ∈ g.gThreadsBeingSerialized.vals, th.ident < g.gThreads.fresh ∧
    th.ident ∉ g.gThreads.addrs ∧ th.nonMissedCount + 1 = appearances cfg now frames th.ident
  unborn : ∀ a, g.gThreads.fresh ≤ a → appearances cfg now frames a = 0

end

section
variable {F : Type} [FloatOps F] {cfg : Config F} {now : Int} {frames fs : List FrameInput}
  {g g' : Shared F} {inp : FrameInput} {m : Matched F}

theorem appearances_snoc (hrun : runFrames cfg now frames = .ok g) (a : Nat) :
    appearances cfg now (frames ++ [inp]) a = appearances cfg now frames a +
      if attached cfg g inp a = [] then 0 else 1 := by
  rw [appearances, frameTrail_snoc hrun, List.countP_append, List.countP_singleton]
  congr 1
  by_cases h : attached cfg g inp a = [] <;> simp [h]

theorem appearances_le (hrun : runFrames cfg now frames = .ok g) (a : Nat) :
    appearances cfg now frames a ≤ frames.length := by
  refine run_induction (P := fun fs _ => appearances cfg now fs a ≤ fs.length) (le_refl 0)
    (fun fs s inp t hs ih _ => ?_) hrun
  rw [appearances_snoc hs, List.length_append, List.length_singleton]
  split <;> omega

/-! ## One frame -/

/-- A frame attaches nothing to an address that is neither live nor handed out by it. -/
theorem attached_of_gone (hstep : processFrame cfg g inp = .ok g') {a : Nat}
    (h : a ∉ g.gThreads.addrs) (h' : a ∉ g'.gThreads.addrs) : attached cfg g inp a = [] := by
  rw [attached_of_none hstep (NodeList.get?_eq_none_iff.mpr h),
    NodeList.get?_eq_none_iff.mpr h']
  rfl

theorem FrameEffect.moved_vals (e : FrameEffect cfg g inp m g') :
    g'.gThreadsBeingSerialized.vals = g.gThreadsBeingSerialized.vals ++
      m.sh.gThreads.vals.filter (exceedsLimit cfg) := by
  rw [e.result, afterDeletion, NodeList.vals_pushAll, e.effect.saved_eq,
    recorded_gThreadsBeingSerialized]

namespace Counted

theorem fdInit : Counted cfg now [] (fdInit cfg now) where
  live _ _ h := by cases h
  moved _ h := by cases h
  unborn _ _ := rfl

/-- Part 2 counts a match iff the frame attaches a face. -/
theorem updated (C : Counted cfg now frames g) (hrun : runFrames cfg now frames = .ok g)
    (e : FrameEffect cfg g inp m g') {a : Nat} {th : FDFaceThread}
    (h : updatedThread cfg g inp a = some th) :
    th.ident = a ∧ th.nonMissedCount + 1 = appearances cfg now (frames ++ [inp]) a := by
  obtain ⟨th₀, hth₀⟩ := e.of_updated h
  obtain ⟨mt, -, hu, hg⟩ := e.updated hth₀
  obtain rfl := Option.some.inj (h.symm.trans hu)
  obtain ⟨hident, hcount⟩ := C.live a th₀ hth₀
  refine ⟨(updateCounters_ident mt th₀).trans hident, ?_⟩
  rw [appearances_snoc hrun, attached_of_get? hth₀, hg]
  cases hf : mt.found with
  | false =>
    have hnm : (updateCounters mt th₀).nonMissedCount = th₀.nonMissedCount := by
      simp [updateCounters, hf]
    simpa [hnm] using hcount
  | true =>
    have hnm : (updateCounters mt th₀).nonMissedCount = th₀.nonMissedCount + 1 := by
      simp [updateCounters, hf, addNewFaceToThread]
    simpa [hnm] using hcount

theorem frame (C : Counted cfg now frames g) (hrun : runFrames cfg now frames = .ok g)
    (hstep : processFrame cfg g inp = .ok g') (e : FrameEffect cfg g inp m g') :
    Counted cfg now (frames ++ [inp]) g' where
  live a th h := by
    obtain ⟨hu, -⟩ | ⟨i, f, -, ha, rfl⟩ := e.get?_iff.mp h
    · exact C.updated hrun e hu
    · -- the frame that creates a thread is its first appearance
      have hnone : g.gThreads.get? a = none := get?_of_fresh_le (by omega)
      have hatt : attached cfg g inp a = [f] := by
        rw [attached_of_none hstep hnone, h]
        rfl
      refine ⟨rfl, ?_⟩
      rw [appearances_snoc hrun, C.unborn a (by omega), hatt]
      rfl
  moved th h := by
    rw [e.moved_vals, List.mem_append, List.mem_filter] at h
    obtain hold | ⟨hnew, hex⟩ := h
    · obtain ⟨hlt, hgone, hcount⟩ := C.moved th hold
      have hgone' : th.ident ∉ g'.gThreads.addrs := fun hm => by
        obtain ⟨th', hth'⟩ := Option.isSome_iff_exists.mp (NodeList.get?_isSome_iff.mpr hm)
        obtain ⟨hu, -⟩ | ⟨i, f, -, hi, -⟩ := e.get?_iff.mp hth'
        · obtain ⟨th₀, hth₀⟩ := e.of_updated hu
          exact hgone (NodeList.get?_isSome_iff.mp (by rw [hth₀]; rfl))
        · omega
      refine ⟨hlt.trans_le e.fresh_le, hgone', ?_⟩
      rw [appearances_snoc hrun, if_pos (attached_of_gone hstep hgone hgone')]
      exact hcount
    · obtain ⟨a, ha⟩ := NodeList.mem_vals_iff.mp hnew
      have hu : updatedThread cfg g inp a = some th := by
        rw [e.updatedThread_eq]
        exact NodeList.get?_eq_some_iff.mpr ha
      obtain ⟨rfl, hcount⟩ := C.updated hrun e hu
      refine ⟨(updatedThread_lt hu).trans_le e.fresh_le, fun hm => ?_, hcount⟩
      obtain ⟨th₀, hth₀⟩ := e.of_updated hu
      obtain ⟨th', hu', hok⟩ :=
        (e.mem_iff (NodeList.get?_isSome_iff.mp (by rw [hth₀]; rfl))).mp hm
      obtain rfl := Option.some.inj (hu.symm.trans hu')
      rw [hex] at hok
      cases hok
  unborn a ha := by
    have hle := e.fresh_le
    have hgone : ∀ {l : NodeList FDFaceThread}, l.fresh ≤ a → a ∉ l.addrs := fun hl hm => by
      have := NodeList.addr_lt_fresh hm
      omega
    rw [appearances_snoc hrun, C.unborn a (hle.trans ha),
      if_pos (attached_of_gone hstep (hgone (hle.trans ha)) (hgone ha))]

/-- A thread that leaves `gThreads` in a frame has been handed to a save job. -/
theorem moved_of_gone (C : Counted cfg now frames g) (hrun : runFrames cfg now frames = .ok g)
    (e : FrameEffect cfg g inp m g') {a : Nat} (h : a ∈ g.gThreads.addrs)
    (hgone : a ∉ g'.gThreads.addrs) : ∃ th ∈ g'.gThreadsBeingSerialized.vals, th.ident = a := by
  obtain ⟨th₀, hth₀⟩ := Option.isSome_iff_exists.mp (NodeList.get?_isSome_iff.mpr h)
  obtain ⟨mt, -, hu, -⟩ := e.updated hth₀
  refine ⟨updateCounters mt th₀, ?_, (C.updated hrun e hu).1⟩
  rw [e.moved_vals]
  refine List.mem_append_right _ (List.mem_filter.mpr ⟨?_, ?_⟩)
  · rw [e.updatedThread_eq] at hu
    exact NodeList.mem_vals_iff.mpr ⟨a, NodeList.get?_eq_some_iff.mp hu⟩
  · by_contra hok
    exact hgone ((e.mem_iff h).mpr ⟨_, hu, by simpa using hok⟩)

/-- Pruning face lists counts nothing. -/
theorem prune (C : Counted cfg now frames g)
    (hsaved : g'.gThreadsBeingSerialized = g.gThreadsBeingSerialized)
    (h : g'.gThreads = g.gThreads ∨ g'.gThreads = g.gThreads.mapVals (FDFaceThread.pruned cfg)) :
    Counted cfg now frames g' := by
  have hfresh : g'.gThreads.fresh = g.gThreads.fresh := by obtain h | h := h <;> rw [h]; rfl
  have haddrs : g'.gThreads.addrs = g.gThreads.addrs := by obtain h | h := h <;> simp [h]
  refine ⟨fun a th hth => ?_, fun th hth => ?_, fun a ha => C.unborn a (hfresh ▸ ha)⟩
  · obtain h | h := h
    · exact C.live a th (h ▸ hth)
    · rw [h, NodeList.get?_mapVals, Option.map_eq_some_iff] at hth
      obtain ⟨th₀, hth₀, rfl⟩ := hth
      exact C.live a th₀ hth₀
  · rw [hfresh, haddrs]
    exact C.moved th (hsaved ▸ hth)

end Counted

/-! ## Runs -/

theorem counted_of_runFrames (h : runFrames cfg now frames = .ok g) :
    Counted cfg now frames g := by
  refine run_induction (P := Counted cfg now) Counted.fdInit (fun fs s inp t hs C hst => ?_) h
  obtain ⟨g₁, h₁, hothers, hthreads⟩ := fdProcessFaces_threads hst
  obtain ⟨m, e⟩ := processFrame_effect h₁
  exact (C.frame hs h₁ e).prune (by rw [hothers]) hthreads

/-- The display filter asks for two appearances more than the threshold. -/
theorem isShown_iff_appearances (C : Counted cfg now frames g) {a : Nat} {th : FDFaceThread}
    (h : g.gThreads.get? a = some th) : isShown cfg th = true ↔
      cfg.minFaceOccurencesThresh + 2 ≤ (appearances cfg now frames a : Int) := by
  have := (C.live a th h).2
  simp only [isShown, gt_iff_lt, decide_eq_true_eq]
  omega

/-- The save test asks for one appearance more than the threshold. -/
theorem occursEnough_iff_appearances (C : Counted cfg now frames g) {th : FDFaceThread}
    (h : th ∈ g.gThreadsBeingSerialized.vals) : occursEnough cfg th = true ↔
      cfg.minFaceOccurencesThresh + 1 ≤ (appearances cfg now frames th.ident : Int) := by
  have := (C.moved th h).2.2
  simp only [occursEnough, ge_iff_le, decide_eq_true_eq]
  omega

/-- What a frame returns, by appearances. -/
theorem shown_of_runFrames (hrun : runFrames cfg now frames = .ok g) :
    List.Forall₂ (fun p f => p.2.pFaces.getLast? = some f)
      (g.gThreads.nodes.filter fun p =>
        cfg.minFaceOccurencesThresh + 2 ≤ (appearances cfg now frames p.1 : Int))
      g.gFacesInCurrentFrame := by
  have C := counted_of_runFrames hrun
  have hfilter : (g.gThreads.nodes.filter fun p =>
      cfg.minFaceOccurencesThresh + 2 ≤ (appearances cfg now frames p.1 : Int)) =
      g.gThreads.nodes.filter fun p => isShown cfg p.2 := by
    refine List.filter_congr fun p hp => Bool.eq_iff_iff.mpr ?_
    rw [decide_eq_true_eq]
    exact (isShown_iff_appearances C (NodeList.get?_eq_some_iff.mpr hp)).symm
  rw [hfilter]
  refine run_induction (P := fun _ (s : Shared F) =>
    List.Forall₂ (fun p f => p.2.pFaces.getLast? = some f)
      (s.gThreads.nodes.filter fun p => isShown cfg p.2) s.gFacesInCurrentFrame) .nil
    (fun fs s inp t _ _ hst => ?_) hrun
  obtain ⟨g₁, g₂, -, -, h₃⟩ := fdProcessFaces_ok hst
  obtain ⟨hshown, ht⟩ := showFaces_ok h₃
  have hthr : g₂.gThreads = t.gThreads := by rw [ht]
  have hall := shownFaces_ok (hthr ▸ hshown)
  rw [NodeList.vals, List.filter_map, List.forall₂_map_left_iff] at hall
  exact hall

/-- As long as no thread reaches the threshold. -/
theorem StaysShort.appearances_lt (h : StaysShort cfg now frames)
    (h1 : 1 ≤ cfg.minFaceOccurencesThresh) (hpre : fs <+: frames)
    (hrun : runFrames cfg now fs = .ok g) (a : Nat) :
    (appearances cfg now fs a : Int) < cfg.minFaceOccurencesThresh := by
  refine run_induction (P := fun fs _ => fs <+: frames →
    (appearances cfg now fs a : Int) < cfg.minFaceOccurencesThresh)
    (fun _ => h1) (fun fs s inp t hs ih hst hpre => ?_) hrun hpre
  obtain ⟨rest, hrest⟩ := hpre
  have hsplit : frames = fs ++ inp :: rest := by rw [← hrest, List.append_assoc]; rfl
  have hlt := ih ⟨inp :: rest, hsplit.symm⟩
  rw [appearances_snoc hs]
  by_cases hatt : attached cfg s inp a = []
  · rw [if_pos hatt]
    exact hlt
  · rw [if_neg hatt]
    have hne := mt (h fs inp rest s t hsplit hs hst a) hatt
    push_cast
    omega

/-- Were threads shown from the threshold on, no live thread could be at it. -/
theorem appearances_ne_of_shown (hrun : runFrames cfg now frames = .ok g)
    (hshown : List.Forall₂ (fun p f => p.2.pFaces.getLast? = some f)
      (g.gThreads.nodes.filter fun p =>
        cfg.minFaceOccurencesThresh ≤ (appearances cfg now frames p.1 : Int))
      g.gFacesInCurrentFrame) {a : Nat} (ha : a ∈ g.gThreads.addrs) :
    (appearances cfg now frames a : Int) ≠ cfg.minFaceOccurencesThresh := by
  intro hreach
  obtain ⟨th, hth⟩ := NodeList.mem_addrs_iff.mp ha
  -- the threads that are shown are among those at the threshold, and as many
  have hsub : (g.gThreads.nodes.filter fun p => cfg.minFaceOccurencesThresh + 2 ≤
        (appearances cfg now frames p.1 : Int)).Sublist
      (g.gThreads.nodes.filter fun p => cfg.minFaceOccurencesThresh ≤
        (appearances cfg now frames p.1 : Int)) := by
    refine List.monotone_filter_right _ fun p hp => ?_
    rw [decide_eq_true_eq] at hp ⊢
    omega
  have heq := hsub.eq_of_length
    ((shown_of_runFrames hrun).length_eq.trans hshown.length_eq.symm)
  have hmem : (a, th) ∈ g.gThreads.nodes.filter fun p => cfg.minFaceOccurencesThresh ≤
      (appearances cfg now frames p.1 : Int) :=
    List.mem_filter.mpr ⟨hth, decide_eq_true hreach.ge⟩
  rw [← heq, List.mem_filter, decide_eq_true_eq] at hmem
  have hlate : _ ≤ (appearances cfg now frames a : Int) := hmem.2
  omega

/-- A thread that is not live after a frame that attached a face to it waits for a job. -/
theorem moved_of_attached (hrun : runFrames cfg now frames = .ok g)
    (hstep : fdProcessFaces cfg g inp = .ok g') {a : Nat} (hatt : attached cfg g inp a ≠ [])
    (ha : a ∉ g'.gThreads.addrs) : ∃ th ∈ g'.gThreadsBeingSerialized.vals, th.ident = a := by
  obtain ⟨g₁, h₁, hothers, hthreads⟩ := fdProcessFaces_threads hstep
  obtain ⟨m, e⟩ := processFrame_effect h₁
  have haddrs : g'.gThreads.addrs = g₁.gThreads.addrs := by
    obtain h | h := hthreads <;> simp [h]
  rw [haddrs] at ha
  have hlive : a ∈ g.gThreads.addrs := by
    by_contra hnot
    exact hatt (attached_of_gone h₁ hnot ha)
  rw [hothers]
  exact (counted_of_runFrames hrun).moved_of_gone hrun e hlive ha

theorem MeansAppearances.staysShort (hlaw : MeansAppearances cfg now frames) :
    StaysShort cfg now frames := by
  intro fs inp rest g g' hfs hrun hstep a hshort
  by_contra hatt
  have hrun' : runFrames cfg now (fs ++ [inp]) = .ok g' := run_snoc_iff.mpr ⟨g, hrun, hstep⟩
  have hpre : fs ++ [inp] <+: frames := ⟨rest, by rw [hfs, List.append_assoc]; rfl⟩
  obtain ⟨hshown, hsaved⟩ := hlaw _ g' hpre hrun'
  have hreach : (appearances cfg now (fs ++ [inp]) a : Int) = cfg.minFaceOccurencesThresh := by
    rw [appearances_snoc hrun, if_neg hatt]
    exact_mod_cast hshort
  by_cases ha : a ∈ g'.gThreads.addrs
  · -- the thread is live with as many appearances as the threshold: it is not shown
    exact appearances_ne_of_shown hrun' hshown ha hreach
  · -- the thread was removed in the frame of that appearance: it is not saved
    obtain ⟨th, hth, rfl⟩ := moved_of_attached hrun hstep hatt ha
    have hlate := (occursEnough_iff_appearances (counted_of_runFrames hrun') hth).mp
      ((hsaved th hth).mpr hreach.ge)
    omega

theorem StaysShort.meansAppearances (hshort : StaysShort cfg now frames)
    (h1 : 1 ≤ cfg.minFaceOccurencesThresh) : MeansAppearances cfg now frames := by
  intro fs g hpre hrun
  have hlt := hshort.appearances_lt h1 hpre hrun
  have C := counted_of_runFrames hrun
  refine ⟨?_, fun th hth => ?_⟩
  · have hnil : ∀ k, 0 ≤ k → (g.gThreads.nodes.filter fun p =>
        cfg.minFaceOccurencesThresh + k ≤ (appearances cfg now fs p.1 : Int)) = [] := by
      intro k hk
      refine List.filter_eq_nil_iff.mpr fun p _ => ?_
      have := hlt p.1
      rw [decide_eq_true_eq]
      omega
    have hshown := shown_of_runFrames hrun
    rw [hnil 2 (by decide)] at hshown
    have h0 := hnil 0 (le_refl 0)
    simp only [add_zero] at h0
    rw [h0]
    exact hshown
  · rw [occursEnough_iff_appearances C hth]
    have := hlt th.ident
    omega

/-- The exact condition: the threshold means what its comment says in the runs in
which no thread reaches it. -/
theorem meansAppearances_iff (cfg : Config F) (h1 : 1 ≤ cfg.minFaceOccurencesThresh) (now : Int)
    (frames : List FrameInput) : MeansAppearances cfg now frames ↔ StaysShort cfg now frames :=
  ⟨fun hlaw => hlaw.staysShort, fun hshort => hshort.meansAppearances h1⟩

/-- A run of fewer frames than the threshold stays short of it. -/
theorem staysShort_of_length_lt (h : (frames.length : Int) < cfg.minFaceOccurencesThresh) :
    StaysShort cfg now frames := by
  intro fs inp rest g g' hfs hrun _ a hshort
  have hle := appearances_le hrun a
  rw [hfs, List.length_append, List.length_cons] at h
  push_cast at h
  omega

end

theorem meansAppearances_twoFrames :
    MeansAppearances (Config.declared : Config ℚ) 0 [oneDetection, oneDetection] :=
  (meansAppearances_iff Config.declared (by decide) 0 _).mpr
    (staysShort_of_length_lt (by decide))

/-- A face that has appeared in three frames is not returned, though the
threshold is three. -/
theorem third_appearance_not_shown :
    ¬ MeansAppearances (Config.declared : Config ℚ) 0 (List.replicate 3 oneDetection) := by
  have hruns : returns (fun g => decide (g.gThreads.addrs = [0] ∧ g.gFacesInCurrentFrame = [] ∧
      appearances (Config.declared : Config ℚ) 0 (List.replicate 3 oneDetection) 0 = 3))
      (runFrames (Config.declared : Config ℚ) 0 (List.replicate 3 oneDetection)) = true := by
    decide +kernel
  obtain ⟨g, hg, hstate⟩ := exists_of_returns hruns
  obtain ⟨haddrs, hfaces, hthree⟩ := of_decide_eq_true hstate
  intro hlaw
  obtain ⟨hshown, -⟩ := hlaw _ g (List.prefix_refl _) hg
  obtain ⟨th, hth⟩ := NodeList.mem_addrs_iff.mp (haddrs ▸ List.mem_singleton_self 0 : 0 ∈ _)
  rw [hfaces, List.forall₂_nil_right_iff, List.filter_eq_nil_iff] at hshown
  refine hshown (0, th) hth (decide_eq_true ?_)
  show (3 : Int) ≤ _
  rw [hthree]
  decide

end PlanetariumFD
