import PlanetariumFD.Detector.LookBack
import PlanetariumFD.Detector.ThreadsAlone

/-!
# How many threads live

A thread lives on for at most `MAX_ALLOWED_CONSECUTIVE_MISSES` frames without a face, and
every face goes to at most one thread. So the live threads and the faces they store are
bounded by the detections of the last frames, however long the video is.
-/

namespace PlanetariumFD

open Outcome Transition

/-- The rectangles detected in the last `k` frames. -/
def recentDetections (frames : List FrameInput) (k : Nat) : Nat :=
  ((frames.reverse.take k).map fun inp => inp.pSeqIn.length).sum

theorem recentDetections_snoc (frames : List FrameInput) (inp : FrameInput) (k : Nat) :
    recentDetections (frames ++ [inp]) (k + 1) = inp.pSeqIn.length + recentDetections frames k := by
  simp [recentDetections]

/-- The threads that were missed in fewer than the last `k` frames. -/
def quietFor (ths : List FDFaceThread) (k : Nat) : Nat :=
  ths.countP fun th => decide (th.consecutiveMissedCount < (k : Int))

section
variable {F : Type} [FloatOps F] {cfg : Config F} {gThreads : NodeList FDFaceThread}

/-! ## One frame -/

/-- A face that is not left over fills at most one element of `matches`. -/
theorem matchFace_found {face : Face} {ms : List (Matching F)} {r : List (Matching F) × Option Nat}
    (h : matchFace cfg gThreads face ms = .ok r) :
    r.1.countP Matching.found ≤ ms.countP Matching.found + if r.2 = none then 0 else 1 := by
  obtain ⟨best, -, h⟩ := bind_eq_ok.mp h
  split at h
  · cases h
    exact le_refl _
  · next i _ =>
    obtain ⟨ms', hoffer, h⟩ := bind_eq_ok.mp h
    cases h
    rw [if_neg (by simp)]
    unfold offerFace at hoffer
    split at hoffer
    · cases hoffer
    · next m hm =>
      obtain ⟨hi, -⟩ := List.getElem?_eq_some_iff.mp hm
      split at hoffer
      · cases hoffer
      · obtain ⟨last, -, hoffer⟩ := bind_eq_ok.mp hoffer
        split at hoffer
        · cases hoffer
          rw [List.countP_set hi]
          simp only [if_true]
          omega
        · cases hoffer
          exact Nat.le_succ _

/-- Every face is kept by one thread, left over, or dropped. -/
theorem matchFaces_found {faces : List Face} :
    ∀ {ms : List (Matching F)} {r : List (Matching F) × List Face},
      matchFaces cfg gThreads faces ms = .ok r →
      r.1.countP Matching.found + r.2.length ≤ ms.countP Matching.found + faces.length := by
  induction faces with
  | nil =>
    intro ms r h
    cases h
    exact le_refl _
  | cons face faces ih =>
    intro ms r h
    obtain ⟨r₁, h₁, h⟩ := bind_eq_ok.mp h
    obtain ⟨r₂, h₂, h⟩ := bind_eq_ok.mp h
    cases h
    have hfirst := matchFace_found h₁
    have hrest := ih h₂
    rw [List.length_cons]
    by_cases hn : r₁.2 = none
    · rw [if_pos hn] at hfirst
      simp only [hn, if_true, List.length_cons]
      omega
    · rw [if_neg hn] at hfirst
      simp only [hn, if_false]
      omega

omit [FloatOps F] in
/-- Part 2 makes a thread that it gives no face one frame quieter. -/
theorem quietFor_updatedNodes (nodes : List (Nat × FDFaceThread)) (k : Nat) :
    ∀ ms : List (Matching F), quietFor ((updatedNodes nodes ms).map Prod.snd) (k + 1) ≤
      ms.countP Matching.found + quietFor (nodes.map Prod.snd) k := by
  induction nodes with
  | nil => exact fun ms => Nat.zero_le _
  | cons p nodes ih =>
    intro ms
    cases ms with
    | nil => exact Nat.zero_le _
    | cons m ms =>
      have hrest := ih ms
      simp only [quietFor, updatedNodes, List.zipWith_cons_cons, List.map_cons, List.countP_cons]
        at hrest ⊢
      cases hm : m.found with
      | true =>
        simp only [if_true]
        split <;> omega
      | false =>
        have hquiet : (updateCounters m p.2).consecutiveMissedCount =
            p.2.consecutiveMissedCount + 1 := by simp [updateCounters, hm]
        rw [hquiet]
        split
        · next hlt =>
          have hlt' : p.2.consecutiveMissedCount < (k : Int) := by
            have := of_decide_eq_true hlt
            push_cast at this
            omega
          rw [if_pos (decide_eq_true hlt')]
          omega
        · omega

variable {g g' : Shared F} {inp : FrameInput} {m : Matched F} {now : Int}
  {frames : List FrameInput}

theorem initMatches_countP (gThreads : NodeList FDFaceThread) :
    (initMatches (F := F) gThreads).countP Matching.found = 0 := by
  rw [List.countP_eq_zero]
  intro m hm
  rw [initMatches_found hm]
  exact Bool.false_ne_true

/-- The detections of a frame bound the threads that it makes or finds again. -/
theorem FrameEffect.found_add_seeded_le (e : FrameEffect cfg g inp m g') :
    m.ms.countP Matching.found + m.inputFaces.length ≤ inp.pSeqIn.length := by
  obtain ⟨entry, hget, hrun⟩ := e.effect.entry
  have hpushed : (recorded g inp).gHistory.get? g.gHistory.fresh =
      some ⟨g.processedFrameCounter + 1, some (createFrameCopy inp.pImg), inp.pSeqIn⟩ := by
    rw [recorded_gHistory]
    exact NodeList.get?_eq_some_iff.mpr (NodeList.mem_pushBack_nodes.mpr (.inr rfl))
  have hseq : entry.pFacesSeq = inp.pSeqIn := by
    rw [Option.some.inj (hget.symm.trans hpushed)]
  have hle := matchFaces_found hrun
  rw [initMatches_countP, hseq] at hle
  simpa using hle

theorem FrameEffect.quietFor_le (e : FrameEffect cfg g inp m g') (k : Nat) :
    quietFor g'.gThreads.vals (k + 1) ≤ inp.pSeqIn.length + quietFor g.gThreads.vals k := by
  have hmatched := quietFor_updatedNodes g.gThreads.nodes k m.ms
  have hbound := e.found_add_seeded_le
  have hnodes := e.effect.nodes
  rw [recorded_gThreads] at hnodes
  rw [← hnodes] at hmatched
  -- the survivors are among the threads of part 2
  have hkept : quietFor (m.sh.gThreads.filterVals fun th => !exceedsLimit cfg th).vals (k + 1) ≤
      quietFor m.sh.gThreads.vals (k + 1) :=
    (List.filter_sublist.map Prod.snd).countP_le
  have hseeded : quietFor ((m.inputFaces.zipIdx m.sh.gThreads.fresh).map fun p =>
      seededThread p.2 p.1) (k + 1) ≤ m.inputFaces.length :=
    List.countP_le_length.trans (by simp)
  rw [e.result, afterDeletion, NodeList.vals_pushAll, quietFor, List.countP_append]
  simp only [quietFor, NodeList.vals] at hmatched hkept hseeded ⊢
  omega

/-! ## Runs -/

/-- Only as many threads are quiet for less than `k` frames as there were detections in them. -/
theorem quietFor_of_runFrames (h : runFrames cfg now frames = .ok g) :
    ∀ k, quietFor g.gThreads.vals k ≤ recentDetections frames k := by
  refine run_induction (P := fun fs s => ∀ k, quietFor s.gThreads.vals k ≤ recentDetections fs k)
    (fun k => Nat.zero_le _) ?_ h
  intro fs s inp t hs ih hst k
  obtain ⟨g₁, h₁, -, hthreads⟩ := fdProcessFaces_threads hst
  obtain ⟨m, e⟩ := processFrame_effect h₁
  have hsame : quietFor t.gThreads.vals k = quietFor g₁.gThreads.vals k := by
    obtain heq | heq := hthreads
    · rw [heq]
    · rw [heq, NodeList.vals_mapVals, quietFor, List.countP_map]
      rfl
  rw [hsame]
  cases k with
  | zero =>
    -- no count is negative
    have L := life_of_runFrames (run_snoc_iff.mpr ⟨s, hs, hst⟩)
    have hnone : quietFor t.gThreads.vals 0 = 0 := by
      refine List.countP_eq_zero.mpr fun th hth => ?_
      obtain ⟨a, ha⟩ := NodeList.mem_vals_iff.mp hth
      have hcount := (L.counts a th (NodeList.get?_eq_some_iff.mpr ha)).consecutiveMissedCount
      rw [decide_eq_true_iff, hcount]
      omega
    rw [← hsame, hnone]
    exact Nat.zero_le _
  | succ k =>
    rw [recentDetections_snoc]
    exact (e.quietFor_le k).trans (Nat.add_le_add_left (ih k) _)

theorem size_of_runFrames (hc : 0 ≤ cfg.maxAllowedConsecutiveMisses)
    (h : runFrames cfg now frames = .ok g) :
    g.gThreads.size ≤ recentDetections frames (cfg.maxAllowedConsecutiveMisses.toNat + 1) := by
  have hall : quietFor g.gThreads.vals (cfg.maxAllowedConsecutiveMisses.toNat + 1) =
      g.gThreads.vals.length := by
    refine List.countP_eq_length.mpr fun th hth => decide_eq_true ?_
    obtain ⟨a, ha⟩ := NodeList.mem_vals_iff.mp hth
    have hquiet := (life_of_runFrames h).consecutive_le hc (NodeList.get?_eq_some_iff.mpr ha)
    push_cast
    omega
  have hlength : g.gThreads.vals.length = g.gThreads.size := List.length_map _
  rw [← hlength, ← hall]
  exact quietFor_of_runFrames h _

/-- After any number of frames, in any interleaving, there are no more live threads than
detections in the last `MAX_ALLOWED_CONSECUTIVE_MISSES + 1` frames, and no more stored faces
than the settings allow for so many threads. -/
theorem crowd_of_run (h1 : 1 ≤ cfg.maxThreadHistorySize) (hk : 1 ≤ cfg.pruneFacesInterval)
    (hc : 0 ≤ cfg.maxAllowedConsecutiveMisses) {s : System F} {as : List Action}
    (h : run (step cfg) (start cfg now) as = .ok s) (hidle : s.main = .idle) :
    let recent := recentDetections (as.filterMap Action.frame?)
      (cfg.maxAllowedConsecutiveMisses.toNat + 1)
    s.sh.gThreads.size ≤ recent ∧
      (s.sh.gThreads.vals.map fun th => (th.pFaces.length : Int)).sum ≤
        recent * (cfg.maxThreadHistorySize + cfg.pruneFacesInterval - 1) := by
  intro recent
  obtain ⟨s₀, hsame, hrun⟩ := exists_runFrames h hidle
  have hsize : s.sh.gThreads.size ≤ recent := by
    rw [← hsame.threads]
    exact size_of_runFrames hc hrun
  refine ⟨hsize, ?_⟩
  have B := (shaped_bounded_of_runFrames h1 hk hc hrun).2
  have hsum : (s.sh.gThreads.vals.map fun th => (th.pFaces.length : Int)).sum ≤
      s.sh.gThreads.vals.length • (cfg.maxThreadHistorySize + cfg.pruneFacesInterval - 1) := by
    have hlength : (s.sh.gThreads.vals.map fun th => (th.pFaces.length : Int)).length =
        s.sh.gThreads.vals.length := List.length_map _
    rw [← hlength]
    refine List.sum_le_card_nsmul _ _ fun n hn => ?_
    obtain ⟨th, hth, rfl⟩ := List.mem_map.mp hn
    obtain ⟨a, ha⟩ := NodeList.mem_vals_iff.mp hth
    exact B.length_le_of_live hk (hsame.threads ▸ NodeList.get?_eq_some_iff.mpr ha)
  rw [nsmul_eq_mul, NodeList.vals, List.length_map] at hsum
  refine hsum.trans (mul_le_mul_of_nonneg_right ?_ (by omega))
  exact_mod_cast hsize

end

/-- A face that is seen and then missed once: one thread for one detection. -/
theorem crowd_of_run_missedOnce : ∃ s, run (step (Config.declared : Config ℚ))
      (start Config.declared 0) ([.frame oneDetection, .main, .main, .main] ++
        trackingFrame noDetection) = .ok s ∧
    s.sh.gThreads.size = 1 ∧ s.sh.gThreads.size ≤ recentDetections [oneDetection, noDetection]
      ((Config.declared : Config ℚ).maxAllowedConsecutiveMisses.toNat + 1) := by
  have hruns : returns (fun s => decide (s.main.isIdle = true ∧ s.sh.gThreads.size = 1))
      (run (step (Config.declared : Config ℚ)) (start Config.declared 0)
        ([.frame oneDetection, .main, .main, .main] ++ trackingFrame noDetection)) = true := by
    decide +kernel
  obtain ⟨s, hs, hdec⟩ := exists_of_returns hruns
  obtain ⟨hidle, hsize⟩ := of_decide_eq_true hdec
  obtain ⟨hle, -⟩ := crowd_of_run (by decide) (by decide) (by decide) hs (MainPC.eq_idle hidle)
  exact ⟨s, hs, hsize, hle⟩

end PlanetariumFD
