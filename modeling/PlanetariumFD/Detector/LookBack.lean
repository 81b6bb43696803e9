import PlanetariumFD.Detector.Pruner
import PlanetariumFD.Detector.ThreadShape

/-!
# How far back live threads reach

The size limit on face lists is enforced every `PRUNE_FACES_INTERVAL` frames, the
gaps in them are bounded by the consecutive misses. Together they bound the age
of the oldest face, whatever the age of its thread.
-/

namespace PlanetariumFD

open Outcome Transition

/-- In a list whose neighbours are at most `d` apart, `n` elements span at most
`(n - 1) * d`. -/
theorem span_le_of_isChain {α : Type*} {v : α → Int} {d : Int} (hd : 0 ≤ d) {l : List α} {z : α}
    (h : l.IsChain fun a b => v b - v a ≤ d) (hz : l.getLast? = some z) :
    ∀ a ∈ l, v z - v a ≤ (l.length - 1) * d := by
  induction l with
  | nil => cases hz
  | cons x l ih =>
    cases l with
    | nil =>
      obtain rfl : x = z := Option.some.inj hz
      intro a ha
      obtain rfl := List.mem_singleton.mp ha
      simp
    | cons y l =>
      rw [List.isChain_cons_cons] at h
      have htail := ih h.2 (by rwa [List.getLast?_cons_cons] at hz)
      have hlen : (((x :: y :: l).length : Nat) : Int) - 1 = ((y :: l).length - 1) + 1 := by
        simp only [List.length_cons]
        push_cast
        ring
      intro a ha
      rw [hlen, add_mul, one_mul]
      obtain rfl | ha := List.mem_cons.mp ha
      · have := htail y List.mem_cons_self
        have := h.1
        omega
      · have := htail a ha
        omega

section
variable {F : Type} [FloatOps F] {cfg : Config F} {now : Int} {frames : List FrameInput}
  {g g' : Shared F} {inp : FrameInput} {m : Matched F}

/-- A live thread is within the consecutive limit after every frame. -/
theorem Life.consecutive_le (L : Life cfg now frames g) (hc : 0 ≤ cfg.maxAllowedConsecutiveMisses)
    {a : Nat} {th : FDFaceThread} (h : g.gThreads.get? a = some th) :
    th.consecutiveMissedCount ≤ cfg.maxAllowedConsecutiveMisses := by
  obtain hok | ⟨-, hzero⟩ := L.tolerated a th h
  · simp only [exceedsLimit, Bool.or_eq_false_iff, decide_eq_false_iff_not, not_lt] at hok
    exact hok.2
  · omega

/-- The lists outgrow the size limit by the frames since the last pruning. -/
structure Bounded (cfg : Config F) (g : Shared F) : Prop where
  counter : 0 ≤ g.processedFrameCounter ∧ g.processedFrameCounter ≤ intMax
  length_le : ∀ a th, g.gThreads.get? a = some th → (th.pFaces.length : Int) ≤
    cfg.maxThreadHistorySize + g.processedFrameCounter % cfg.pruneFacesInterval

/-- A frame adds at most one face to a thread. -/
theorem Bounded.processFrame (B : Bounded cfg g) (h1 : 1 ≤ cfg.maxThreadHistorySize)
    (hk : 1 ≤ cfg.pruneFacesInterval) (e : FrameEffect cfg g inp m g') {a : Nat}
    {th : FDFaceThread} (h : g'.gThreads.get? a = some th) : (th.pFaces.length : Int) ≤
      cfg.maxThreadHistorySize + g.processedFrameCounter % cfg.pruneFacesInterval + 1 := by
  obtain ⟨hu, -⟩ | ⟨i, f, -, -, rfl⟩ := e.get?_iff.mp h
  · obtain ⟨th₀, hth₀⟩ := e.of_updated hu
    obtain ⟨mt, -, hu', -⟩ := e.updated hth₀
    obtain rfl := Option.some.inj (hu.symm.trans hu')
    have hle := B.length_le a th₀ hth₀
    rw [updateCounters_pFaces, List.length_append]
    split <;> simp <;> omega
  · have hmod := Int.emod_nonneg g.processedFrameCounter (by omega : cfg.pruneFacesInterval ≠ 0)
    show (1 : Int) ≤ _
    omega

/-- Inside an interval the position moves on by one. -/
theorem succ_emod {n k : Int} (hk : 1 ≤ k) (h : (n + 1) % k ≠ 0) : (n + 1) % k = n % k + 1 := by
  have hlt := Int.emod_lt_of_pos n (by omega : 0 < k)
  have hnn := Int.emod_nonneg n (by omega : k ≠ 0)
  have hstep : (n + 1) % k = (n % k + 1) % k := by rw [Int.emod_add_emod]
  by_cases hlast : n % k + 1 = k
  · rw [hstep, hlast, Int.emod_self] at h
    exact absurd rfl h
  · rw [hstep, Int.emod_eq_of_lt (by omega) (by omega)]

theorem Bounded.frame (B : Bounded cfg g) (h1 : 1 ≤ cfg.maxThreadHistorySize)
    (hk : 1 ≤ cfg.pruneFacesInterval) (hstep : fdProcessFaces cfg g inp = .ok g') :
    Bounded cfg g' := by
  obtain ⟨g₁, g₂, h₁, h₂, h₃⟩ := fdProcessFaces_ok hstep
  obtain ⟨m, e⟩ := processFrame_effect h₁
  obtain ⟨-, hg'⟩ := showFaces_ok h₃
  have hn := B.counter
  have hlt := (processFrame_ok h₁).1
  have hthr : g'.gThreads = g₂.gThreads := by rw [hg']
  have hcount : g'.processedFrameCounter = g₂.processedFrameCounter := by rw [hg']
  obtain ⟨-, hprune⟩ := pruneThreads_ok h₂
  have htmod : g₁.processedFrameCounter.tmod cfg.pruneFacesInterval =
      (g.processedFrameCounter + 1) % cfg.pruneFacesInterval := by
    rw [e.counter, Int.tmod_eq_emod_of_nonneg (by omega)]
  rw [htmod] at hprune
  obtain ⟨hin, rfl⟩ | ⟨hat, -, rfl⟩ := hprune
  · -- between two prunings
    rw [e.counter] at hcount
    refine ⟨by omega, fun a th hth => ?_⟩
    have hle := B.processFrame h1 hk e (hthr ▸ hth)
    rw [hcount, succ_emod hk hin]
    omega
  · -- the frame prunes, and the next interval starts
    have hcount' : g'.processedFrameCounter = g.processedFrameCounter + 1 := hcount.trans e.counter
    refine ⟨by omega, fun a th hth => ?_⟩
    rw [hthr, NodeList.get?_mapVals, Option.map_eq_some_iff] at hth
    obtain ⟨th₁, -, rfl⟩ := hth
    rw [hcount', hat, FDFaceThread.pruned, List.length_drop]
    omega

/-- Shapes and lengths together: the shape needs the consecutive limit only. -/
theorem shaped_bounded_of_runFrames (h1 : 1 ≤ cfg.maxThreadHistorySize)
    (hk : 1 ≤ cfg.pruneFacesInterval) (hc : 0 ≤ cfg.maxAllowedConsecutiveMisses)
    (h : runFrames cfg now frames = .ok g) : Shaped cfg now frames g ∧ Bounded cfg g := by
  refine run_induction (P := fun fs s => Shaped cfg now fs s ∧ Bounded cfg s)
    ⟨shaped_fdInit, ⟨⟨le_refl 0, (by decide : (0 : Int) ≤ intMax)⟩, fun _ _ h => by cases h⟩⟩
    (fun fs s inp t hs ih hst => ?_) h
  obtain ⟨S, B⟩ := ih
  obtain ⟨g₁, h₁, hothers, hthreads⟩ := fdProcessFaces_threads hst
  have hcount : t.processedFrameCounter = g₁.processedFrameCounter := by rw [hothers]
  have L := life_of_runFrames hs
  exact ⟨(S.frame (fun a th hth => L.consecutive_le hc hth) hs h₁).prune h1 hcount hthreads,
    B.frame h1 hk hst⟩

omit [FloatOps F] in
/-- How old the faces of a thread are, by the length of its list. -/
theorem Shape.age_le {ever : List Face} {n : Int} {th : FDFaceThread} (s : Shape cfg n ever th)
    (hc : 0 ≤ cfg.maxAllowedConsecutiveMisses)
    (hmax : th.consecutiveMissedCount ≤ cfg.maxAllowedConsecutiveMisses) :
    ∀ f ∈ th.pFaces, n - f.frameId ≤
      (th.pFaces.length - 1) * (cfg.maxAllowedConsecutiveMisses + 1) +
        cfg.maxAllowedConsecutiveMisses := by
  intro f hf
  have hlast := List.getLast?_eq_some_getLast s.nonempty
  have hspan := span_le_of_isChain (v := Face.frameId) (by omega) s.gaps hlast f hf
  have hend := s.last _ hlast
  omega

omit [FloatOps F] in
theorem Shape.age_le_of_length_le {ever : List Face} {n k : Int} {th : FDFaceThread}
    (s : Shape cfg n ever th) (hc : 0 ≤ cfg.maxAllowedConsecutiveMisses)
    (hmax : th.consecutiveMissedCount ≤ cfg.maxAllowedConsecutiveMisses)
    (hlen : (th.pFaces.length : Int) ≤ k + 1) : ∀ f ∈ th.pFaces,
      n - f.frameId ≤ k * (cfg.maxAllowedConsecutiveMisses + 1) +
        cfg.maxAllowedConsecutiveMisses := by
  intro f hf
  have hmono : ((th.pFaces.length : Int) - 1) * (cfg.maxAllowedConsecutiveMisses + 1) ≤
      k * (cfg.maxAllowedConsecutiveMisses + 1) :=
    mul_le_mul_of_nonneg_right (by omega) (by omega)
  have hage := s.age_le hc hmax f hf
  omega

omit [FloatOps F] in
/-- The oldest face stands at the front. -/
theorem Shape.head_le {ever : List Face} {n : Int} {th : FDFaceThread} (s : Shape cfg n ever th) :
    ∀ f ∈ th.pFaces, (th.pFaces.head s.nonempty).frameId ≤ f.frameId := by
  intro f hf
  -- the numbers increase along the list
  have hinc := s.increasing
  rw [← List.cons_head_tail s.nonempty, List.pairwise_cons] at hinc
  rw [← List.cons_head_tail s.nonempty] at hf
  obtain rfl | htail := List.mem_cons.mp hf
  · exact le_refl _
  · exact (hinc.1 f htail).le

omit [FloatOps F] in
theorem Bounded.length_le_of_live (B : Bounded cfg g) (hk : 1 ≤ cfg.pruneFacesInterval) {a : Nat}
    {th : FDFaceThread} (h : g.gThreads.get? a = some th) :
    (th.pFaces.length : Int) ≤ cfg.maxThreadHistorySize + cfg.pruneFacesInterval - 1 := by
  have hlt := Int.emod_lt_of_pos g.processedFrameCounter (by omega : 0 < cfg.pruneFacesInterval)
  have hlen := B.length_le a th h
  omega

/-- What bounds every stored face bounds the floor. -/
theorem le_minFront {b : Int} {ths : List FDFaceThread} (hne : ∀ th ∈ ths, th.pFaces ≠ [])
    (hmax : b ≤ intMax) (h : ∀ th ∈ ths, ∀ f ∈ th.pFaces, b ≤ f.frameId) :
    ∃ floor, minFront ths intMax = .ok floor ∧ b ≤ floor := by
  obtain ⟨floor, hfloor⟩ := minFront_total hne intMax
  refine ⟨floor, hfloor, ?_⟩
  obtain ⟨-, -, rfl | ⟨th, hth, f, hf, rfl⟩⟩ := minFront_ok hfloor
  · exact hmax
  · exact h th hth f (List.mem_of_head? hf)

/-- The faces stored by live threads, and the floor they set for the pruner, after
any number of frames. -/
theorem lookBack_bounded (cfg : Config F) (h1 : 1 ≤ cfg.maxThreadHistorySize)
    (hk : 1 ≤ cfg.pruneFacesInterval) (hc : 0 ≤ cfg.maxAllowedConsecutiveMisses)
    (hrun : runFrames cfg now frames = .ok g) :
    (∀ th ∈ g.gThreads.vals,
      (th.pFaces.length : Int) ≤ cfg.maxThreadHistorySize + cfg.pruneFacesInterval - 1 ∧
      ∃ f, th.pFaces.head? = some f ∧ (∀ f' ∈ th.pFaces, f.frameId ≤ f'.frameId) ∧
        g.processedFrameCounter - f.frameId ≤
          (cfg.maxThreadHistorySize + cfg.pruneFacesInterval - 2) *
            (cfg.maxAllowedConsecutiveMisses + 1) + cfg.maxAllowedConsecutiveMisses) ∧
    ∃ floor, minFront g.gThreads.vals intMax = .ok floor ∧
      g.processedFrameCounter - ((cfg.maxThreadHistorySize + cfg.pruneFacesInterval - 2) *
        (cfg.maxAllowedConsecutiveMisses + 1) + cfg.maxAllowedConsecutiveMisses) ≤ floor := by
  obtain ⟨S, B⟩ := shaped_bounded_of_runFrames h1 hk hc hrun
  have L := life_of_runFrames hrun
  set span := (cfg.maxThreadHistorySize + cfg.pruneFacesInterval - 2) *
    (cfg.maxAllowedConsecutiveMisses + 1) + cfg.maxAllowedConsecutiveMisses with hspan
  have hage : ∀ a th, g.gThreads.get? a = some th → ∀ f ∈ th.pFaces,
      g.processedFrameCounter - f.frameId ≤ span := by
    intro a th hth
    have hlen := B.length_le_of_live hk hth
    exact (S.shape a th hth).age_le_of_length_le hc (L.consecutive_le hc hth) (by omega)
  refine ⟨fun th hth => ?_, ?_⟩
  · obtain ⟨a, ha⟩ := NodeList.mem_vals_iff.mp hth
    have hget := NodeList.get?_eq_some_iff.mpr ha
    have hs := S.shape a th hget
    exact ⟨B.length_le_of_live hk hget, th.pFaces.head hs.nonempty,
      List.head?_eq_some_head hs.nonempty, hs.head_le, hage a th hget _ (List.head_mem hs.nonempty)⟩
  · have hspan0 : 0 ≤ span := by
      have hnn := mul_nonneg (by omega : 0 ≤ cfg.maxThreadHistorySize + cfg.pruneFacesInterval - 2)
        (by omega : 0 ≤ cfg.maxAllowedConsecutiveMisses + 1)
      omega
    have hmax := B.counter.2
    refine le_minFront (fun th hth => ?_) (by omega) fun th hth f hf => ?_
    · obtain ⟨a, ha⟩ := NodeList.mem_vals_iff.mp hth
      exact (S.shape a th (NodeList.get?_eq_some_iff.mpr ha)).nonempty
    · obtain ⟨a, ha⟩ := NodeList.mem_vals_iff.mp hth
      have hold := hage a th (NodeList.get?_eq_some_iff.mpr ha) f hf
      omega

end

/-- A face is seen in every fourth of 25 frames; the last pruning frame was the one before. -/
def everyFourth : List FrameInput :=
  (List.replicate 6 [oneDetection, noDetection, noDetection, noDetection]).flatten ++ [oneDetection]

theorem lookBack_bounded_everyFourth :
    ∃ g, runFrames shortLists 0 everyFourth = .ok g ∧
      (∀ th ∈ g.gThreads.vals, 6 ≤ th.nonMissedCount ∧ th.pFaces.length ≤ 4) ∧
      ∃ floor, minFront g.gThreads.vals intMax = .ok floor ∧ 10 ≤ floor ∧ floor < intMax := by
  have hruns : returns (fun g => decide (g.processedFrameCounter = 25 ∧
      ∀ th ∈ g.gThreads.vals, 6 ≤ th.nonMissedCount) &&
        returns (fun floor => decide (floor < intMax)) (minFront g.gThreads.vals intMax))
      (runFrames shortLists 0 everyFourth) = true := by decide +kernel
  obtain ⟨g, hg, hdec⟩ := exists_of_returns hruns
  obtain ⟨hstate, hfront⟩ := (Bool.and_eq_true _ _).mp hdec
  obtain ⟨hcount, hseen⟩ := of_decide_eq_true hstate
  obtain ⟨floor', hfloor', hlt⟩ := exists_of_returns hfront
  obtain ⟨hthreads, floor, hfloor, hle⟩ :=
    lookBack_bounded shortLists (by decide) (by decide) (by decide) hg
  obtain rfl := Except.ok.inj (hfloor'.symm.trans hfloor)
  have hspan : (shortLists.maxThreadHistorySize + shortLists.pruneFacesInterval - 2) *
      (shortLists.maxAllowedConsecutiveMisses + 1) + shortLists.maxAllowedConsecutiveMisses = 15 :=
    rfl
  refine ⟨g, hg, fun th hth => ⟨hseen th hth, ?_⟩, floor', hfloor, by omega, of_decide_eq_true hlt⟩
  have hlong : (th.pFaces.length : Int) ≤ 2 + 3 - 1 := (hthreads th hth).1
  omega

end PlanetariumFD
