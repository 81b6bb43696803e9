import PlanetariumFD.Detector.ThreadLife

/-!
# The shape of live face threads

The face list of a live thread is the newest part of all faces ever attached to
it. Its frame numbers increase, with gaps bounded by the consecutive misses, and
its last face tells how long ago the thread was matched.
-/

namespace PlanetariumFD

open Outcome Transition

section
variable {F : Type} [FloatOps F]

/-- The faces a frame attaches to the thread at `a`: by part 2 to a thread it
finds in `gThreads`, by part 3 to one it creates. -/
def attached (cfg : Config F) (g : Shared F) (inp : FrameInput) (a : Nat) : List Face :=
  match g.gThreads.get? a, processFrame cfg g inp with
  | some _, _ => gained cfg g inp a
  | none, .ok g' => ((g'.gThreads.get? a).map FDFaceThread.pFaces).getD []
  | none, .error _ => []

/-- All faces ever attached to the thread at `a`, in order. -/
def everAttached (cfg : Config F) (now : Int) (frames : List FrameInput) (a : Nat) : List Face :=
  (frameTrail cfg now frames).flatMap fun p => attached cfg p.1 p.2 a

end

/-- A thread of `gThreads` after frame `n`; `ever` are the faces attached so far. -/
structure Shape {F : Type} (cfg : Config F) (n : Int) (ever : List Face) (th : FDFaceThread) :
    Prop where
  nonempty : th.pFaces ≠ []
  increasing : th.pFaces.Pairwise fun f f' => f.frameId < f'.frameId
  upTo : ∀ f ∈ th.pFaces, f.frameId ≤ n
  gaps : th.pFaces.IsChain fun f f' =>
    f'.frameId - f.frameId ≤ cfg.maxAllowedConsecutiveMisses + 1
  last : ∀ f, th.pFaces.getLast? = some f → f.frameId = n - th.consecutiveMissedCount
  misses : th.consecutiveMissedCount ≤ th.missedCount
  newest : th.pFaces <:+ ever
  long : min cfg.maxThreadHistorySize (th.nonMissedCount + 1) ≤ th.pFaces.length

namespace Shape

section
variable {F : Type} {cfg : Config F} {n : Int} {ever : List Face} {th : FDFaceThread}

theorem seeded {ident : Nat} {f : Face} (hf : f.frameId = n) :
    Shape cfg n [f] (seededThread ident f) where
  nonempty := List.cons_ne_nil _ _
  increasing := List.pairwise_singleton _ _
  upTo g hg := by
    obtain rfl := List.mem_singleton.mp hg
    exact hf.le
  gaps := List.isChain_singleton _
  last g hg := by
    obtain rfl : f = g := Option.some.inj hg
    show f.frameId = n - 0
    omega
  misses := le_refl _
  newest := List.suffix_refl _
  long := min_le_right _ _

/-- A frame without a face for the thread. -/
theorem miss (s : Shape cfg n ever th) {mt : Matching F} (hf : mt.found = false) :
    Shape cfg (n + 1) ever (updateCounters mt th) := by
  have hfaces : (updateCounters mt th).pFaces = th.pFaces := by
    rw [updateCounters_pFaces, hf]
    exact List.append_nil _
  have hcmc : (updateCounters mt th).consecutiveMissedCount = th.consecutiveMissedCount + 1 := by
    simp [updateCounters, hf]
  have hmc : (updateCounters mt th).missedCount = th.missedCount + 1 := by
    simp [updateCounters, hf]
  have hnm : (updateCounters mt th).nonMissedCount = th.nonMissedCount := by
    simp [updateCounters, hf]
  refine ⟨hfaces ▸ s.nonempty, hfaces ▸ s.increasing, fun f hm => ?_, hfaces ▸ s.gaps,
    fun f hl => ?_, ?_, hfaces ▸ s.newest, ?_⟩
  · have := s.upTo f (hfaces ▸ hm)
    omega
  · have := s.last f (hfaces ▸ hl)
    omega
  · have := s.misses
    omega
  · have := s.long
    rw [hfaces, hnm]
    exact this

/-- A frame that gives the thread a face. The gap it leaves is bounded because
the thread was still within the consecutive limit. -/
theorem hit (s : Shape cfg n ever th) {mt : Matching F} (hf : mt.found = true)
    (hid : mt.face.frameId = n + 1)
    (hmax : th.consecutiveMissedCount ≤ cfg.maxAllowedConsecutiveMisses)
    (hmc : 0 ≤ th.missedCount) : Shape cfg (n + 1) (ever ++ [mt.face]) (updateCounters mt th) := by
  have hfaces : (updateCounters mt th).pFaces = th.pFaces ++ [mt.face] := by
    rw [updateCounters_pFaces, hf]
    rfl
  have hzero : (updateCounters mt th).consecutiveMissedCount = 0 := by
    simp [updateCounters, hf, addNewFaceToThread]
  have hnm : (updateCounters mt th).nonMissedCount = th.nonMissedCount + 1 := by
    simp [updateCounters, hf, addNewFaceToThread]
  refine ⟨by rw [hfaces]; simp, ?_, fun f hm => ?_, ?_, fun f hl => ?_, ?_, ?_, ?_⟩
  · rw [hfaces, List.pairwise_append]
    refine ⟨s.increasing, List.pairwise_singleton _ _, fun f hm f' hm' => ?_⟩
    obtain rfl := List.mem_singleton.mp hm'
    have := s.upTo f hm
    omega
  · rw [hfaces, List.mem_append, List.mem_singleton] at hm
    obtain hm | rfl := hm
    · have := s.upTo f hm
      omega
    · omega
  · rw [hfaces]
    -- the gap is one more than the misses since the last face
    refine s.gaps.append (List.isChain_singleton _) fun f hl f' hh => ?_
    obtain rfl : mt.face = f' := by simpa using hh
    have := s.last f hl
    omega
  · rw [hfaces, List.getLast?_concat] at hl
    obtain rfl := Option.some.inj hl
    omega
  · rw [hzero, updateCounters_missedCount mt hmc]
    exact le_max_left _ _
  · rw [hfaces]
    exact List.suffix_append_self_iff.mpr s.newest
  · have := s.long
    rw [hfaces, hnm, List.length_append, List.length_singleton]
    push_cast
    omega

theorem pruned (s : Shape cfg n ever th) (h : 1 ≤ cfg.maxThreadHistorySize) :
    Shape cfg n ever (th.pruned cfg) where
  nonempty := FDFaceThread.pruned_ne_nil h s.nonempty
  increasing := s.increasing.sublist FDFaceThread.pruned_suffix.sublist
  upTo f hm := s.upTo f (FDFaceThread.pruned_suffix.subset hm)
  gaps := s.gaps.suffix FDFaceThread.pruned_suffix
  last f hl := by
    refine s.last f ?_
    rw [FDFaceThread.pruned, List.getLast?_drop] at hl
    split at hl
    · cases hl
    · exact hl
  misses := s.misses
  newest := FDFaceThread.pruned_suffix.trans s.newest
  long := by
    have := s.long
    show _ ≤ (((th.pFaces.drop (th.pFaces.length - cfg.maxThreadHistorySize.toNat)).length : Nat)
      : Int)
    rw [List.length_drop]
    show min cfg.maxThreadHistorySize (th.nonMissedCount + 1) ≤ _
    omega

end

end Shape

/-! ## Runs -/

section
variable {F : Type} [FloatOps F] {cfg : Config F} {now : Int} {frames : List FrameInput}
  {g g' : Shared F} {inp : FrameInput} {m : Matched F}

theorem everAttached_snoc (hrun : runFrames cfg now frames = .ok g) (a : Nat) :
    everAttached cfg now (frames ++ [inp]) a = everAttached cfg now frames a ++
      attached cfg g inp a := by
  rw [everAttached, frameTrail_snoc hrun, List.flatMap_append, List.flatMap_singleton]
  rfl

/-- Every live thread has its shape; addresses not handed out have no faces yet. -/
structure Shaped (cfg : Config F) (now : Int) (frames : List FrameInput) (g : Shared F) : Prop where
  shape : ∀ a th, g.gThreads.get? a = some th →
    Shape cfg g.processedFrameCounter (everAttached cfg now frames a) th
  unborn : ∀ a, g.gThreads.fresh ≤ a → everAttached cfg now frames a = []

theorem shaped_fdInit : Shaped cfg now [] (fdInit cfg now) where
  shape _ _ h := by cases h
  unborn _ _ := rfl

theorem attached_of_get? {a : Nat} {th : FDFaceThread} (h : g.gThreads.get? a = some th) :
    attached cfg g inp a = gained cfg g inp a := by
  simp only [attached, h]

theorem attached_of_none (hstep : processFrame cfg g inp = .ok g') {a : Nat}
    (h : g.gThreads.get? a = none) :
    attached cfg g inp a = ((g'.gThreads.get? a).map FDFaceThread.pFaces).getD [] := by
  simp only [attached, h, hstep]

omit [FloatOps F] in
theorem get?_of_fresh_le {a : Nat} (h : g.gThreads.fresh ≤ a) : g.gThreads.get? a = none := by
  rw [NodeList.get?_eq_none_iff]
  intro hm
  have := NodeList.addr_lt_fresh hm
  omega

theorem Shaped.frame (S : Shaped cfg now frames g)
    (hmax : ∀ a th, g.gThreads.get? a = some th →
      th.consecutiveMissedCount ≤ cfg.maxAllowedConsecutiveMisses)
    (hrun : runFrames cfg now frames = .ok g)
    (hstep : processFrame cfg g inp = .ok g') : Shaped cfg now (frames ++ [inp]) g' := by
  have L := life_of_runFrames hrun
  obtain ⟨m, e⟩ := processFrame_effect hstep
  refine ⟨fun a th h => ?_, fun a ha => ?_⟩
  · rw [everAttached_snoc hrun, e.counter]
    obtain ⟨hu, -⟩ | ⟨i, f, hf, ha, rfl⟩ := e.get?_iff.mp h
    · -- part 2 updated a thread it found
      obtain ⟨th₀, hth₀⟩ := e.of_updated hu
      obtain ⟨mt, hmt, hu', hg⟩ := e.updated hth₀
      obtain rfl := Option.some.inj (hu.symm.trans hu')
      have hs := S.shape a th₀ hth₀
      rw [attached_of_get? hth₀, hg]
      cases hfound : mt.found with
      | false => simpa using hs.miss hfound
      | true =>
        exact hs.hit hfound (e.effect.face_frameId hmt hfound) (hmax a th₀ hth₀)
          (L.counts a th₀ hth₀).nonneg
    · -- part 3 created the thread
      have hnone : g.gThreads.get? a = none := get?_of_fresh_le (by omega)
      rw [S.unborn a (by omega), attached_of_none hstep hnone, h, List.nil_append]
      exact Shape.seeded (e.effect.inputFaces_frameId (List.mem_of_getElem? hf))
  · have hle := e.fresh_le
    rw [everAttached_snoc hrun, S.unborn a (by omega), List.nil_append,
      attached_of_none hstep (get?_of_fresh_le (by omega)), get?_of_fresh_le ha]
    rfl

theorem Shaped.prune (S : Shaped cfg now frames g) (h1 : 1 ≤ cfg.maxThreadHistorySize)
    (hcount : g'.processedFrameCounter = g.processedFrameCounter)
    (h : g'.gThreads = g.gThreads ∨ g'.gThreads = g.gThreads.mapVals (FDFaceThread.pruned cfg)) :
    Shaped cfg now frames g' := by
  refine ⟨fun a th hth => ?_, fun a ha => S.unborn a ?_⟩
  · rw [hcount]
    obtain h | h := h
    · exact S.shape a th (h ▸ hth)
    · rw [h, NodeList.get?_mapVals, Option.map_eq_some_iff] at hth
      obtain ⟨th₀, hth₀, rfl⟩ := hth
      exact (S.shape a th₀ hth₀).pruned h1
  · obtain h | h := h
    · exact h ▸ ha
    · rw [h] at ha
      exact ha

theorem shaped_of_runFrames (h1 : 1 ≤ cfg.maxThreadHistorySize)
    (hm : 0 ≤ cfg.maxAllowedMissedCount) (hc : 0 ≤ cfg.maxAllowedConsecutiveMisses)
    (h : runFrames cfg now frames = .ok g) : Shaped cfg now frames g := by
  refine run_induction (P := Shaped cfg now) shaped_fdInit (fun fs s inp t hs S hst => ?_) h
  obtain ⟨g₁, h₁, hothers, hthreads⟩ := fdProcessFaces_threads hst
  have hcount : t.processedFrameCounter = g₁.processedFrameCounter := by rw [hothers]
  have hmax : ∀ a th, s.gThreads.get? a = some th →
      th.consecutiveMissedCount ≤ cfg.maxAllowedConsecutiveMisses := by
    intro a th hth
    have hok := (life_of_runFrames hs).under_limits hm hc hth
    simp only [exceedsLimit, Bool.or_eq_false_iff, decide_eq_false_iff_not, not_lt] at hok
    exact hok.2
  exact (S.frame hmax hs h₁).prune h1 hcount hthreads

/-- The input loop counts frames in step with `FdProcessFaces`. -/
theorem inputLoop_of_runFrames (h : runFrames cfg now frames = .ok g) :
    ∃ drawn, run (inputStep cfg) ⟨0, fdInit cfg now, []⟩ frames =
      .ok ⟨g.processedFrameCounter, g, drawn⟩ := by
  refine run_induction (P := fun fs s => ∃ drawn, run (inputStep cfg) ⟨0, fdInit cfg now, []⟩ fs =
    .ok ⟨s.processedFrameCounter, s, drawn⟩) ⟨[], rfl⟩ (fun fs s inp t hs ih hst => ?_) h
  obtain ⟨drawn, hd⟩ := ih
  obtain ⟨g₁, h₁, hothers, -⟩ := fdProcessFaces_threads hst
  have hcount : t.processedFrameCounter = g₁.processedFrameCounter := by rw [hothers]
  obtain ⟨m, e⟩ := processFrame_effect h₁
  refine ⟨drawFaces t.processedFrameCounter t.gFacesInCurrentFrame,
    run_snoc_iff.mpr ⟨_, hd, ?_⟩⟩
  simp only [inputStep, hst, ok_bind, hcount, e.counter]

/-- A face is of the current frame iff its thread was matched in it or created in it. -/
theorem last_frameId_iff (h1 : 1 ≤ cfg.maxThreadHistorySize) (hm : 0 ≤ cfg.maxAllowedMissedCount)
    (hc : 0 ≤ cfg.maxAllowedConsecutiveMisses) (hrun : runFrames cfg now frames = .ok g)
    (hstep : fdProcessFaces cfg g inp = .ok g') {a : Nat} {th : FDFaceThread} {f : Face}
    (h : g'.gThreads.get? a = some th) (hl : th.pFaces.getLast? = some f) :
    f.frameId = g'.processedFrameCounter ↔ isHit cfg g inp a = true ∨ a ∉ g.gThreads.addrs := by
  have L := life_of_runFrames hrun
  have S := shaped_of_runFrames h1 hm hc (run_snoc_iff.mpr ⟨g, hrun, hstep⟩)
  have hlast := (S.shape a th h).last f hl
  have hzero : f.frameId = g'.processedFrameCounter ↔ th.consecutiveMissedCount = 0 := by omega
  rw [hzero]
  obtain ⟨g₁, h₁, -, hthreads⟩ := fdProcessFaces_threads hstep
  obtain ⟨m, e⟩ := processFrame_effect h₁
  -- pruning leaves the counter, so look at the state before it
  obtain ⟨th₁, hth₁, hcmc⟩ : ∃ th₁, g₁.gThreads.get? a = some th₁ ∧
      th.consecutiveMissedCount = th₁.consecutiveMissedCount := by
    obtain he | he := hthreads
    · exact ⟨th, he ▸ h, rfl⟩
    · rw [he, NodeList.get?_mapVals, Option.map_eq_some_iff] at h
      obtain ⟨th₁, hth₁, rfl⟩ := h
      exact ⟨th₁, hth₁, rfl⟩
  rw [hcmc]
  obtain ⟨hu, -⟩ | ⟨i, f, -, ha, rfl⟩ := e.get?_iff.mp hth₁
  · obtain ⟨th₀, hth₀⟩ := e.of_updated hu
    obtain ⟨mt, -, hu', hg⟩ := e.updated hth₀
    obtain rfl := Option.some.inj (hu.symm.trans hu')
    have hin : a ∈ g.gThreads.addrs := NodeList.get?_isSome_iff.mp (by rw [hth₀]; rfl)
    have hnn := (L.counts a th₀ hth₀).consecutiveMissedCount
    rw [isHit, hg]
    cases hfound : mt.found with
    | false =>
      simp only [updateCounters, hfound, hin, Bool.false_eq_true, if_false, List.isEmpty_nil,
        not_true, or_false, Bool.not_true, iff_false]
      omega
    | true => simp [updateCounters, hfound, addNewFaceToThread]
  · have hnot : a ∉ g.gThreads.addrs := fun hmem => by
      have := NodeList.addr_lt_fresh hmem
      omega
    simp [hnot, seededThread, addNewFaceToThread, newThread]

/-- The representation invariant after every frame of every run, and what it says
about the faces that `FdProcessFaces` returns to the input loop. -/
theorem faceThread_shape (cfg : Config F) (h1 : 1 ≤ cfg.maxThreadHistorySize)
    (hm : 0 ≤ cfg.maxAllowedMissedCount) (hc : 0 ≤ cfg.maxAllowedConsecutiveMisses)
    (hrun : runFrames cfg now frames = .ok g) (hstep : fdProcessFaces cfg g inp = .ok g') :
    (∀ a th, g'.gThreads.get? a = some th →
      Shape cfg g'.processedFrameCounter (everAttached cfg now (frames ++ [inp]) a) th) ∧
    ∃ loop, run (inputStep cfg) ⟨0, fdInit cfg now, []⟩ (frames ++ [inp]) = .ok loop ∧
      loop.sh = g' ∧ loop.frameCount = g'.processedFrameCounter ∧
      List.Forall₂ (fun p f => p.2.pFaces.getLast? = some f ∧
          (f.frameId = loop.frameCount ↔ isHit cfg g inp p.1 = true ∨ p.1 ∉ g.gThreads.addrs))
        (g'.gThreads.nodes.filter fun p => isShown cfg p.2) g'.gFacesInCurrentFrame := by
  have hrun' : runFrames cfg now (frames ++ [inp]) = .ok g' := run_snoc_iff.mpr ⟨g, hrun, hstep⟩
  obtain ⟨drawn, hloop⟩ := inputLoop_of_runFrames hrun'
  refine ⟨(shaped_of_runFrames h1 hm hc hrun').shape, _, hloop, rfl, rfl, ?_⟩
  -- the returned faces, thread by thread
  obtain ⟨g₁, g₂, -, -, h₃⟩ := fdProcessFaces_ok hstep
  obtain ⟨hshown, hg'⟩ := showFaces_ok h₃
  have hthr : g₂.gThreads = g'.gThreads := by rw [hg']
  rw [hthr] at hshown
  have hfilter : g'.gThreads.vals.filter (isShown cfg) =
      (g'.gThreads.nodes.filter fun p => isShown cfg p.2).map Prod.snd := by
    rw [NodeList.vals, List.filter_map]
    rfl
  have hall := shownFaces_ok hshown
  rw [hfilter, List.forall₂_map_left_iff] at hall
  have hmem : ∀ p ∈ g'.gThreads.nodes.filter (fun p => isShown cfg p.2),
      g'.gThreads.get? p.1 = some p.2 := by
    intro p hp
    exact NodeList.get?_eq_some_iff.mpr (List.mem_filter.mp hp).1
  refine (List.forall₂_and_left _ _ |>.mpr ⟨hmem, hall⟩).imp ?_
  rintro p f ⟨hget, hl⟩
  exact ⟨hl, last_frameId_iff h1 hm hc hrun hstep hget hl⟩

end

/-- One thread is removed; the list of the other has been pruned, and it is shown. -/
theorem faceThread_shape_oneLeaves :
    ∃ g g' th, runFrames shortLists 0 oneLeaves = .ok g ∧
      fdProcessFaces shortLists g farDetection = .ok g' ∧
      g.gThreads.addrs = [0, 1] ∧ g'.gThreads.nodes = [(0, th)] ∧
      th.pFaces.length < th.nonMissedCount ∧
      Shape shortLists g'.processedFrameCounter
        (everAttached shortLists 0 (oneLeaves ++ [farDetection]) 0) th ∧
      ∃ f, g'.gFacesInCurrentFrame = [f] ∧ th.pFaces.getLast? = some f := by
  have hruns : returns (fun g => decide (g.gThreads.addrs = [0, 1]) && returns (fun g' =>
      decide (g'.gThreads.addrs = [0]) && g'.gThreads.vals.all fun th =>
        decide ((th.pFaces.length : Int) < th.nonMissedCount) && isShown shortLists th)
          (fdProcessFaces shortLists g farDetection))
      (runFrames shortLists 0 oneLeaves) = true := by decide +kernel
  obtain ⟨g, hg, hruns⟩ := exists_of_returns hruns
  obtain ⟨hbefore, hruns⟩ := (Bool.and_eq_true _ _).mp hruns
  obtain ⟨g', hg', hafter⟩ := exists_of_returns hruns
  obtain ⟨haddrs, hvals⟩ := (Bool.and_eq_true _ _).mp hafter
  obtain ⟨⟨_, th⟩, hnodes, rfl⟩ := List.map_eq_singleton_iff.mp (of_decide_eq_true haddrs)
  have hget : g'.gThreads.get? 0 = some th := by
    rw [NodeList.get?_eq_some_iff, hnodes]
    exact List.mem_singleton_self _
  have hmem : th ∈ g'.gThreads.vals :=
    NodeList.mem_vals_iff.mpr ⟨0, NodeList.get?_eq_some_iff.mp hget⟩
  obtain ⟨hpruned, hshows⟩ := (Bool.and_eq_true _ _).mp (List.all_eq_true.mp hvals th hmem)
  obtain ⟨hshape, loop, -, -, -, hshown⟩ := faceThread_shape shortLists (by decide) (by decide)
    (by decide) hg hg'
  have hone : g'.gThreads.nodes.filter (fun p => isShown shortLists p.2) = [(0, th)] := by
    rw [hnodes, List.filter_cons, if_pos hshows, List.filter_nil]
  rw [hone, List.forall₂_cons_left_iff] at hshown
  obtain ⟨f, fs, ⟨hlast, -⟩, hfs, heq⟩ := hshown
  rw [List.forall₂_nil_left_iff] at hfs
  subst hfs
  exact ⟨g, g', th, hg, hg', of_decide_eq_true hbefore, hnodes, of_decide_eq_true hpruned,
    hshape 0 th hget, f, heq, hlast⟩

end PlanetariumFD
