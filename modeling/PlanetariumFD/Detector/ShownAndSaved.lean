import PlanetariumFD.Detector.ThreadLife

/-!
# Shown threads and saved threads

The display filter, the removal test and the save test compare the same counters
with the same limits. The removal test tolerates a `missedCount` equal to its
limit, the save test does not, so a shown thread that is removed for its
consecutive misses with `missedCount` on the limit is dropped unsaved.
-/

namespace PlanetariumFD

open Outcome Transition

section
variable {F : Type} [FloatOps F]

/-- `FdProcessFaces` returned the thread's last face after some frame of the run. -/
def EverShown (cfg : Config F) (now : Int) (frames : List FrameInput) (a : Nat) : Prop :=
  ∃ fs s th, fs <+: frames ∧ runFrames cfg now fs = .ok s ∧ s.gThreads.get? a = some th ∧
    isShown cfg th = true

/-- The law: a thread that was shown and that a frame removes with `missedCount`
not above the limit passes the save test. -/
def ShownAreSaved (cfg : Config F) (now : Int) (frames : List FrameInput) : Prop :=
  ∀ fs inp rest g g', frames = fs ++ inp :: rest → runFrames cfg now fs = .ok g →
    processFrame cfg g inp = .ok g' → ∀ a th, EverShown cfg now fs a →
      a ∈ g.gThreads.addrs → a ∉ g'.gThreads.addrs → updatedThread cfg g inp a = some th →
      th.missedCount ≤ cfg.maxAllowedMissedCount → passesSave cfg th = true

/-- The thread's counters before the frame, and whether the frame has a face for
it, put `missedCount` on its limit while the consecutive limit is passed. -/
def LandsOnLimit (cfg : Config F) (th : FDFaceThread) (hit : Bool) : Prop :=
  if hit then
    max (th.missedCount - 1) 0 = cfg.maxAllowedMissedCount ∧ cfg.maxAllowedConsecutiveMisses < 0
  else
    th.missedCount + 1 = cfg.maxAllowedMissedCount ∧
      cfg.maxAllowedConsecutiveMisses < th.consecutiveMissedCount + 1

/-- In no frame of the run does a shown thread land on the limit. -/
def NeverLandsOnLimit (cfg : Config F) (now : Int) (frames : List FrameInput) : Prop :=
  ∀ fs inp rest g g', frames = fs ++ inp :: rest → runFrames cfg now fs = .ok g →
    processFrame cfg g inp = .ok g' → ∀ a th, g.gThreads.get? a = some th →
      isShown cfg th = true → ¬ LandsOnLimit cfg th (isHit cfg g inp a)

end

section
variable {F : Type} [FloatOps F] {cfg : Config F} {now : Int} {frames fs : List FrameInput}
  {g g' : Shared F} {inp : FrameInput}

theorem hitHistory_isPrefix {s : Shared F} (hrun : runFrames cfg now fs = .ok s)
    (h : fs <+: frames) (a : Nat) : hitHistory cfg now fs a <+: hitHistory cfg now frames a := by
  obtain ⟨rest, rfl⟩ := h
  simp only [hitHistory, frameTrail]
  rw [trail_append hrun, List.filter_append, List.map_append]
  exact List.prefix_append _ _

/-- Matches are never taken back: a live thread that was ever shown is shown now. -/
theorem everShown_iff (hrun : runFrames cfg now frames = .ok g) {a : Nat} {th : FDFaceThread}
    (h : g.gThreads.get? a = some th) : EverShown cfg now frames a ↔ isShown cfg th = true := by
  constructor
  · rintro ⟨fs, s, th₀, hpre, hs, hth₀, hshown⟩
    have h₀ := ((life_of_runFrames hs).counts a th₀ hth₀).nonMissedCount
    have h₁ := ((life_of_runFrames hrun).counts a th h).nonMissedCount
    have hle := (hitHistory_isPrefix hs hpre a).sublist.count_le true
    simp only [isShown, gt_iff_lt, decide_eq_true_eq] at hshown ⊢
    omega
  · exact fun hshown => ⟨frames, g, th, List.prefix_refl _, hrun, h, hshown⟩

omit [FloatOps F] in
/-- `missedCount` lands on its limit with the consecutive limit passed. -/
theorem landsOnLimit_iff {th : FDFaceThread} (hn : 0 ≤ th.missedCount) (mt : Matching F) :
    LandsOnLimit cfg th mt.found ↔
      (updateCounters mt th).missedCount = cfg.maxAllowedMissedCount ∧
        cfg.maxAllowedConsecutiveMisses < (updateCounters mt th).consecutiveMissedCount := by
  rw [updateCounters_missedCount mt hn]
  cases hf : mt.found with
  | false =>
    simp only [LandsOnLimit, updateCounters, hf, Bool.false_eq_true, if_false]
    omega
  | true =>
    simp only [LandsOnLimit, updateCounters, hf, addNewFaceToThread, if_true]
    omega

omit [FloatOps F] in
theorem nonMissedCount_le_updateCounters (mt : Matching F) (th : FDFaceThread) :
    th.nonMissedCount ≤ (updateCounters mt th).nonMissedCount := by
  unfold updateCounters
  dsimp only
  split
  · exact Int.le_add_one (le_refl _)
  · exact le_refl _

/-- One shown thread in one frame: it is removed within the limit and yet not
saved iff it lands on the limit. -/
theorem unsaved_iff (hrun : runFrames cfg now fs = .ok g) {m : Matched F}
    (e : FrameEffect cfg g inp m g') {a : Nat} {th₀ : FDFaceThread}
    (h : g.gThreads.get? a = some th₀) (hshown : isShown cfg th₀ = true) :
    LandsOnLimit cfg th₀ (isHit cfg g inp a) ↔
      a ∉ g'.gThreads.addrs ∧ ∃ th, updatedThread cfg g inp a = some th ∧
        th.missedCount ≤ cfg.maxAllowedMissedCount ∧ passesSave cfg th = false := by
  have hn := ((life_of_runFrames hrun).counts a th₀ h).nonneg
  obtain ⟨mt, -, hu, hg⟩ := e.updated h
  have hhit : isHit cfg g inp a = mt.found := by
    rw [isHit, hg]
    cases mt.found <;> rfl
  have hmem := e.mem_iff (NodeList.get?_isSome_iff.mp (by rw [h]; rfl) : a ∈ g.gThreads.addrs)
  rw [hhit, landsOnLimit_iff hn, hmem]
  have hmono := nonMissedCount_le_updateCounters mt th₀
  simp only [isShown, gt_iff_lt, decide_eq_true_eq] at hshown
  simp only [hu, Option.some.injEq, exists_eq_left', exceedsLimit, passesSave,
    Bool.or_eq_false_iff, Bool.and_eq_false_iff, decide_eq_false_iff_not]
  omega

/-- The exact condition: the law holds in a run iff in no frame a shown thread
lands on the limit. -/
theorem shownAreSaved_iff (cfg : Config F) (now : Int) (frames : List FrameInput) :
    ShownAreSaved cfg now frames ↔ NeverLandsOnLimit cfg now frames := by
  constructor
  · intro hlaw fs inp rest g g' hfs hrun hstep a th₀ h hshown hlands
    obtain ⟨m, e⟩ := processFrame_effect hstep
    obtain ⟨hgone, th, hu, hle, hsave⟩ := (unsaved_iff hrun e h hshown).mp hlands
    have ha : a ∈ g.gThreads.addrs := NodeList.get?_isSome_iff.mp (by rw [h]; rfl)
    have := hlaw fs inp rest g g' hfs hrun hstep a th ((everShown_iff hrun h).mpr hshown) ha hgone
      hu hle
    rw [hsave] at this
    cases this
  · intro hnever fs inp rest g g' hfs hrun hstep a th hever ha hgone hu hle
    obtain ⟨m, e⟩ := processFrame_effect hstep
    obtain ⟨th₀, h⟩ := Option.isSome_iff_exists.mp (NodeList.get?_isSome_iff.mpr ha)
    have hshown := (everShown_iff hrun h).mp hever
    by_contra hsave
    exact hnever fs inp rest g g' hfs hrun hstep a th₀ h hshown
      ((unsaved_iff hrun e h hshown).mpr ⟨hgone, th, hu, hle, by simpa using hsave⟩)

end

/-- Five matches, then thrice three misses and a match, then three misses. -/
def onTheLimit : List FrameInput :=
  List.replicate 5 oneDetection ++
    (List.replicate 3 (List.replicate 3 noDetection ++ [oneDetection])).flatten ++
    List.replicate 3 noDetection

/-- One more miss removes the shown thread with `missedCount` 10, and it is not saved. -/
theorem shown_not_saved :
    ¬ ShownAreSaved (Config.declared : Config ℚ) 0 (onTheLimit ++ [noDetection]) := by
  have hruns : returns (fun g =>
      decide (((g.gThreads.get? 0).map (isShown (Config.declared : Config ℚ))) = some true) &&
      (decide ((updatedThread Config.declared g noDetection 0).map
        (fun th => (th.missedCount, passesSave (Config.declared : Config ℚ) th)) =
          some (10, false)) &&
      returns (fun g' => decide (0 ∉ g'.gThreads.addrs)) (processFrame Config.declared g noDetection)))
      (runFrames (Config.declared : Config ℚ) 0 onTheLimit) = true := by decide +kernel
  obtain ⟨g, hg, hruns⟩ := exists_of_returns hruns
  obtain ⟨hshown, hruns⟩ := Bool.and_eq_true_iff.mp hruns
  obtain ⟨hupdated, hruns⟩ := Bool.and_eq_true_iff.mp hruns
  obtain ⟨g', hg', hgone⟩ := exists_of_returns hruns
  obtain ⟨th₀, hth₀, hs⟩ := Option.map_eq_some_iff.mp (of_decide_eq_true hshown)
  obtain ⟨th, hth, hcounts⟩ := Option.map_eq_some_iff.mp (of_decide_eq_true hupdated)
  obtain ⟨hmissed, hsave⟩ := Prod.mk.inj hcounts
  intro hlaw
  have hsaved := hlaw onTheLimit noDetection [] g g' rfl hg hg' 0 th
    ⟨onTheLimit, g, th₀, List.prefix_refl _, hg, hth₀, hs⟩
    (NodeList.get?_isSome_iff.mp (by rw [hth₀]; rfl)) (of_decide_eq_true hgone) hth
    (by rw [hmissed]; decide)
  rw [hsave] at hsaved
  cases hsaved

end PlanetariumFD
