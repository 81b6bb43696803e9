import PlanetariumFD.Foundation.Reflected
import PlanetariumFD.Detector.Frames

/-!
# The life of a face thread

A thread is followed by the address of its node. Its hit/miss history is read off
the run: one entry for each frame that found it in `gThreads`, a hit if part 2
gave it a face. The counters are closed forms of that history.
-/

namespace PlanetariumFD

open Outcome Transition

section
variable {F : Type} [FloatOps F]

/-- A frame up to the end of part 2. -/
def matchFrame (cfg : Config F) (g : Shared F) (inp : FrameInput) : Except Fault (Matched F) := do
  let r ← recordFrame g inp
  matchThreads cfg r.1 r.2 r.1.processedFrameCounter inp.now

/-- The thread at `a` as part 2 leaves it. -/
def updatedThread (cfg : Config F) (g : Shared F) (inp : FrameInput) (a : Nat) :
    Option FDFaceThread :=
  match matchFrame cfg g inp with
  | .ok m => m.sh.gThreads.get? a
  | .error _ => none

/-- The faces that part 2 of the frame appends to the thread at `a`. -/
def gained (cfg : Config F) (g : Shared F) (inp : FrameInput) (a : Nat) : List Face :=
  match g.gThreads.get? a, updatedThread cfg g inp a with
  | some th, some th' => th'.pFaces.drop th.pFaces.length
  | _, _ => []

def isHit (cfg : Config F) (g : Shared F) (inp : FrameInput) (a : Nat) : Bool :=
  !(gained cfg g inp a).isEmpty

/-- The states before the frames of a run, each with the frame. -/
def frameTrail (cfg : Config F) (now : Int) (frames : List FrameInput) :
    List (Shared F × FrameInput) :=
  trail (fdProcessFaces cfg) (fdInit cfg now) frames

/-- One entry for each frame that found the thread in `gThreads`. -/
def hitHistory (cfg : Config F) (now : Int) (frames : List FrameInput) (a : Nat) : List Bool :=
  ((frameTrail cfg now frames).filter fun p => a ∈ p.1.gThreads.addrs).map
    fun p => isHit cfg p.1 p.2 a

end

/-- The counters as functions of the history. -/
structure Counts (h : List Bool) (th : FDFaceThread) : Prop where
  totalCount : th.totalCount = h.length
  nonMissedCount : th.nonMissedCount = h.count true
  consecutiveMissedCount : th.consecutiveMissedCount = (h.rtakeWhile fun hit => !hit).length
  missedCount : IsGreatest {n : Int | ∃ t, t <:+ h ∧ n = t.count false - t.count true}
    th.missedCount

/-! ## One frame -/

/-- What a frame does up to the return of `processThreads2`. -/
structure FrameEffect {F : Type} [FloatOps F] (cfg : Config F) (g : Shared F) (inp : FrameInput)
    (m : Matched F) (g' : Shared F) : Prop where
  matched : matchFrame cfg g inp = .ok m
  effect : MatchEffect cfg (recorded g inp) g.gHistory.fresh (g.processedFrameCounter + 1) m
  result : g' = afterDeletion cfg m

section
variable {F : Type} [FloatOps F] {cfg : Config F} {g g' : Shared F} {inp : FrameInput}

theorem processFrame_effect (h : processFrame cfg g inp = .ok g') :
    ∃ m, FrameEffect cfg g inp m g' := by
  obtain ⟨hlt, m, hm, e, he⟩ := processFrame_ok h
  refine ⟨m, ?_, e, he⟩
  simp only [matchFrame, recordFrame_of_lt hlt, ok_bind, recorded_processedFrameCounter, hm]

/-- A whole frame prunes the threads that `processFrame` leaves, or keeps them. -/
theorem fdProcessFaces_threads (h : fdProcessFaces cfg g inp = .ok g') :
    ∃ g₁, processFrame cfg g inp = .ok g₁ ∧
      g' = { g₁ with
        gThreads := g'.gThreads
        gFacesInCurrentFrame := g'.gFacesInCurrentFrame } ∧
      (g'.gThreads = g₁.gThreads ∨ g'.gThreads = g₁.gThreads.mapVals (FDFaceThread.pruned cfg)) := by
  obtain ⟨g₁, g₂, h₁, h₂, h₃⟩ := fdProcessFaces_ok h
  obtain ⟨-, hshow⟩ := showFaces_ok h₃
  refine ⟨g₁, h₁, ?_⟩
  rw [hshow]
  obtain ⟨-, ⟨-, rfl⟩ | ⟨-, -, rfl⟩⟩ := pruneThreads_ok h₂
  · exact ⟨rfl, .inl rfl⟩
  · exact ⟨rfl, .inr rfl⟩

theorem updatedThread_lt {a : Nat} {th : FDFaceThread} (h : updatedThread cfg g inp a = some th) :
    a < g.gThreads.fresh := by
  unfold updatedThread at h
  split at h
  · next m hm =>
    obtain ⟨r, hr, hm⟩ := bind_eq_ok.mp hm
    obtain ⟨-, rfl⟩ := recordFrame_ok hr
    obtain ⟨-, e⟩ := matchThreads_ok hm
    have hmem := NodeList.addr_lt_fresh (NodeList.get?_isSome_iff.mp (by rw [h]; rfl))
    rwa [e.fresh, recorded_gThreads] at hmem
  · cases h

namespace FrameEffect

variable {m : Matched F} (e : FrameEffect cfg g inp m g') {a : Nat} {th : FDFaceThread}

include e

theorem updatedThread_eq : updatedThread cfg g inp a = m.sh.gThreads.get? a := by
  simp only [updatedThread, e.matched]

/-- Part 2 on the thread at `a`: one element of `matches` decides. -/
theorem updated (h : g.gThreads.get? a = some th) :
    ∃ mt ∈ m.ms, updatedThread cfg g inp a = some (updateCounters mt th) ∧
      gained cfg g inp a = if mt.found then [mt.face] else [] := by
  obtain ⟨mt, hmt, -, hu⟩ := e.effect.get? (recorded_gThreads ▸ h)
  refine ⟨mt, hmt, e.updatedThread_eq.trans hu, ?_⟩
  simp only [gained, h, e.updatedThread_eq, hu, updateCounters_pFaces, List.drop_left]

theorem of_updated {th' : FDFaceThread} (h : updatedThread cfg g inp a = some th') :
    ∃ th, g.gThreads.get? a = some th := by
  rw [e.updatedThread_eq] at h
  obtain ⟨th, -, -, hth, -⟩ := e.effect.of_get? h
  exact ⟨th, recorded_gThreads ▸ hth⟩

theorem matched_fresh : m.sh.gThreads.fresh = g.gThreads.fresh :=
  e.effect.fresh.trans (by rw [recorded_gThreads])

/-- The threads after the frame: those under the limits, and the seeded ones. -/
theorem get?_iff : g'.gThreads.get? a = some th ↔
    (updatedThread cfg g inp a = some th ∧ exceedsLimit cfg th = false) ∨
      ∃ i f, m.inputFaces[i]? = some f ∧ a = g.gThreads.fresh + i ∧ th = seededThread a f := by
  rw [e.result, afterDeletion_get?, e.updatedThread_eq, e.matched_fresh]

theorem counter : g'.processedFrameCounter = g.processedFrameCounter + 1 := by
  rw [e.result, afterDeletion, e.effect.counter_eq]
  exact recorded_processedFrameCounter

theorem fresh_le : g.gThreads.fresh ≤ g'.gThreads.fresh := by
  rw [e.result, afterDeletion_fresh, e.matched_fresh]
  exact Nat.le_add_right _ _

/-- A thread that was there before the frame stays iff it is under the limits. -/
theorem mem_iff (h : a ∈ g.gThreads.addrs) : a ∈ g'.gThreads.addrs ↔
    ∃ th, updatedThread cfg g inp a = some th ∧ exceedsLimit cfg th = false := by
  rw [← NodeList.get?_isSome_iff, Option.isSome_iff_exists]
  refine exists_congr fun th => ?_
  rw [e.get?_iff]
  refine ⟨fun hor => hor.resolve_right ?_, .inl⟩
  rintro ⟨i, f, -, hi, -⟩
  have := NodeList.addr_lt_fresh h
  omega

end FrameEffect

end

/-! ## One entry of the history -/

theorem misses_eq_suffixSums (h : List Bool) :
    {n : Int | ∃ t, t <:+ h ∧ n = t.count false - t.count true} =
      Reflected.suffixSums (h.map fun hit => if hit then (-1 : Int) else 1) := by
  have hsum : ∀ t : List Bool,
      (t.map fun hit => if hit then (-1 : Int) else 1).sum = t.count false - t.count true := by
    intro t
    induction t with
    | nil => rfl
    | cons hit t ih => cases hit <;> simp [ih] <;> omega
  ext n
  constructor
  · rintro ⟨t, ht, rfl⟩
    exact ⟨_, ht.map _, (hsum t).symm⟩
  · rintro ⟨t, ht, rfl⟩
    obtain ⟨u, hu, rfl⟩ := List.suffix_map_iff.mp ht
    exact ⟨u, hu, hsum u⟩

theorem counts_seededThread (ident : Nat) (f : Face) : Counts [] (seededThread ident f) where
  totalCount := rfl
  nonMissedCount := rfl
  consecutiveMissedCount := rfl
  missedCount := by
    rw [misses_eq_suffixSums]
    exact Reflected.isGreatest_suffixSums_nil

theorem Counts.nonneg {h : List Bool} {th : FDFaceThread} (c : Counts h th) :
    0 ≤ th.missedCount := by
  have := c.missedCount
  rw [misses_eq_suffixSums] at this
  exact Reflected.nonneg_of_isGreatest this

section
variable {F : Type} {h : List Bool} {th : FDFaceThread}

/-- `missedCount` moves as a counter clamped at zero. -/
theorem updateCounters_missedCount (m : Matching F) (hn : 0 ≤ th.missedCount) :
    (updateCounters m th).missedCount = max 0 (th.missedCount + if m.found then -1 else 1) := by
  unfold updateCounters
  dsimp only
  split
  · show (if th.missedCount > 0 then th.missedCount - 1 else th.missedCount) = _
    split <;> omega
  · show th.missedCount + 1 = _
    omega

/-- Part 2 extends the history by one entry. -/
theorem Counts.update (c : Counts h th) (m : Matching F) :
    Counts (h ++ [m.found]) (updateCounters m th) where
  totalCount := by
    have := c.totalCount
    cases hf : m.found <;>
      simp only [updateCounters, hf, List.length_append, List.length_singleton, addNewFaceToThread,
        Bool.false_eq_true, if_true, if_false] <;> omega
  nonMissedCount := by
    have := c.nonMissedCount
    cases hf : m.found <;>
      simp only [updateCounters, hf, List.count_append, addNewFaceToThread,
        Bool.false_eq_true, if_true, if_false] <;> simp [this]
  consecutiveMissedCount := by
    have := c.consecutiveMissedCount
    cases hf : m.found
    · rw [List.rtakeWhile_concat_pos _ _ _ (by rfl)]
      simp [updateCounters, hf, this]
    · rw [List.rtakeWhile_concat_neg _ _ _ (by decide)]
      simp [updateCounters, hf, addNewFaceToThread]
  missedCount := by
    have hm := c.missedCount
    rw [misses_eq_suffixSums] at hm ⊢
    rw [List.map_append, updateCounters_missedCount m c.nonneg]
    exact Reflected.isGreatest_suffixSums_snoc hm _

end

/-! ## Runs -/

section
variable {F : Type} [FloatOps F] {cfg : Config F} {now : Int} {frames : List FrameInput}
  {g g' : Shared F} {inp : FrameInput}

theorem frameTrail_snoc (hrun : runFrames cfg now frames = .ok g) :
    frameTrail cfg now (frames ++ [inp]) = frameTrail cfg now frames ++ [(g, inp)] :=
  trail_snoc hrun inp

theorem hitHistory_snoc (hrun : runFrames cfg now frames = .ok g) (a : Nat) :
    hitHistory cfg now (frames ++ [inp]) a = hitHistory cfg now frames a ++
      if a ∈ g.gThreads.addrs then [isHit cfg g inp a] else [] := by
  rw [hitHistory, frameTrail_snoc hrun, List.filter_append, List.map_append]
  by_cases ha : a ∈ g.gThreads.addrs
  · rw [List.filter_cons_of_pos (by simpa using ha), if_pos ha]
    rfl
  · rw [List.filter_cons_of_neg (by simpa using ha), if_neg ha]
    rfl

/-- What the frames so far say about the threads that live. -/
structure Life (cfg : Config F) (now : Int) (frames : List FrameInput) (g : Shared F) : Prop where
  counts : ∀ a th, g.gThreads.get? a = some th → Counts (hitHistory cfg now frames a) th
  earlier : ∀ p ∈ frameTrail cfg now frames, p.1.gThreads.fresh ≤ g.gThreads.fresh
  within : ∀ a ∈ g.gThreads.addrs, ∀ p ∈ frameTrail cfg now frames, ∀ th,
    updatedThread cfg p.1 p.2 a = some th → exceedsLimit cfg th = false
  tolerated : ∀ a th, g.gThreads.get? a = some th → exceedsLimit cfg th = false ∨
    (th.missedCount = 0 ∧ th.consecutiveMissedCount = 0)

theorem life_fdInit : Life cfg now [] (fdInit cfg now) where
  counts _ _ h := by cases h
  earlier _ h := by cases h
  within _ h := by cases h
  tolerated _ _ h := by cases h

namespace Life

theorem hitHistory_fresh (L : Life cfg now frames g) {a : Nat} (ha : g.gThreads.fresh ≤ a) :
    hitHistory cfg now frames a = [] := by
  rw [hitHistory, List.map_eq_nil_iff, List.filter_eq_nil_iff]
  intro p hp
  have hle := L.earlier p hp
  rw [decide_eq_true_eq]
  intro hm
  have := NodeList.addr_lt_fresh hm
  omega

/-- Part 2 extends every history by one entry. -/
theorem counts_updated (L : Life cfg now frames g) (hrun : runFrames cfg now frames = .ok g)
    {m : Matched F} (e : FrameEffect cfg g inp m g') {a : Nat} {th : FDFaceThread}
    (h : updatedThread cfg g inp a = some th) :
    Counts (hitHistory cfg now (frames ++ [inp]) a) th := by
  obtain ⟨th₀, hth₀⟩ := e.of_updated h
  obtain ⟨mt, -, hu, hg⟩ := e.updated hth₀
  obtain rfl := Option.some.inj (h.symm.trans hu)
  have ha : a ∈ g.gThreads.addrs := NodeList.get?_isSome_iff.mp (by rw [hth₀]; rfl)
  have hhit : isHit cfg g inp a = mt.found := by
    rw [isHit, hg]
    cases mt.found <;> rfl
  rw [hitHistory_snoc hrun, if_pos ha, hhit]
  exact (L.counts a th₀ hth₀).update mt

theorem frame (L : Life cfg now frames g) (hrun : runFrames cfg now frames = .ok g)
    {m : Matched F} (e : FrameEffect cfg g inp m g') : Life cfg now (frames ++ [inp]) g' where
  counts a th h := by
    obtain ⟨hu, -⟩ | ⟨i, f, -, ha, rfl⟩ := e.get?_iff.mp h
    · exact L.counts_updated hrun e hu
    · have hnot : a ∉ g.gThreads.addrs := fun hm => by
        have := NodeList.addr_lt_fresh hm
        omega
      rw [hitHistory_snoc hrun, if_neg hnot, List.append_nil, L.hitHistory_fresh (by omega)]
      exact counts_seededThread a f
  earlier p hp := by
    rw [frameTrail_snoc hrun, List.mem_append, List.mem_singleton] at hp
    obtain hp | rfl := hp
    · exact (L.earlier p hp).trans e.fresh_le
    · exact e.fresh_le
  within a ha p hp th hu := by
    obtain ⟨th', hth'⟩ := Option.isSome_iff_exists.mp (NodeList.get?_isSome_iff.mpr ha)
    rw [frameTrail_snoc hrun, List.mem_append, List.mem_singleton] at hp
    obtain ⟨hu', hok⟩ | ⟨i, f, -, hi, -⟩ := e.get?_iff.mp hth'
    · -- the thread was there before the frame and passed this frame's test
      obtain hp | rfl := hp
      · obtain ⟨th₀, hth₀⟩ := e.of_updated hu'
        exact L.within a (NodeList.get?_isSome_iff.mp (by rw [hth₀]; rfl)) p hp th hu
      · obtain rfl := Option.some.inj (hu.symm.trans hu')
        exact hok
    · -- a seeded thread has an address that no earlier frame knew
      exfalso
      obtain hp | rfl := hp
      · have hle := L.earlier p hp
        have hlt := updatedThread_lt hu
        omega
      · have hlt : a < g.gThreads.fresh := updatedThread_lt hu
        omega
  tolerated a th h := by
    obtain ⟨-, hok⟩ | ⟨i, f, -, -, rfl⟩ := e.get?_iff.mp h
    · exact .inl hok
    · exact .inr ⟨rfl, rfl⟩

/-- Face lists do not enter. -/
theorem prune (L : Life cfg now frames g)
    (h : g'.gThreads = g.gThreads ∨ g'.gThreads = g.gThreads.mapVals (FDFaceThread.pruned cfg)) :
    Life cfg now frames g' := by
  have hfresh : g'.gThreads.fresh = g.gThreads.fresh := by obtain h | h := h <;> rw [h]; rfl
  have haddrs : g'.gThreads.addrs = g.gThreads.addrs := by obtain h | h := h <;> simp [h]
  have hget : ∀ {a th'}, g'.gThreads.get? a = some th' → ∃ th, g.gThreads.get? a = some th ∧
      (th' = th ∨ th' = th.pruned cfg) := by
    intro a th' hth'
    obtain h | h := h
    · exact ⟨th', h ▸ hth', .inl rfl⟩
    · rw [h, NodeList.get?_mapVals, Option.map_eq_some_iff] at hth'
      obtain ⟨th, hth, rfl⟩ := hth'
      exact ⟨th, hth, .inr rfl⟩
  refine ⟨fun a th' hth' => ?_, fun p hp => hfresh ▸ L.earlier p hp,
    fun a ha => L.within a (haddrs ▸ ha), fun a th' hth' => ?_⟩
  · obtain ⟨th, hth, rfl | rfl⟩ := hget hth'
    · exact L.counts a _ hth
    · obtain ⟨h1, h2, h3, h4⟩ := L.counts a th hth
      exact ⟨h1, h2, h3, h4⟩
  · obtain ⟨th, hth, rfl | rfl⟩ := hget hth'
    · exact L.tolerated a _ hth
    · exact L.tolerated a th hth

end Life

/-- After a frame with non-negative limits no live thread is past a limit. -/
theorem Life.under_limits (L : Life cfg now frames g) (hm : 0 ≤ cfg.maxAllowedMissedCount)
    (hc : 0 ≤ cfg.maxAllowedConsecutiveMisses) {a : Nat} {th : FDFaceThread}
    (h : g.gThreads.get? a = some th) : exceedsLimit cfg th = false := by
  obtain hok | ⟨hm₀, hc₀⟩ := L.tolerated a th h
  · exact hok
  · simp [exceedsLimit, hm₀, hc₀, hm, hc]

omit [FloatOps F] in
/-- A match never pushes a thread past a non-negative limit. -/
theorem updateCounters_under_limits {mt : Matching F} {th : FDFaceThread} (hf : mt.found = true)
    (hc : 0 ≤ cfg.maxAllowedConsecutiveMisses) (h : exceedsLimit cfg th = false) :
    exceedsLimit cfg (updateCounters mt th) = false := by
  simp only [exceedsLimit, Bool.or_eq_false_iff, decide_eq_false_iff_not, not_lt] at h ⊢
  simp only [updateCounters, hf, if_true, addNewFaceToThread]
  refine ⟨?_, hc⟩
  split <;> omega

theorem life_of_runFrames (h : runFrames cfg now frames = .ok g) : Life cfg now frames g := by
  refine run_induction (P := Life cfg now) life_fdInit (fun fs s inp t hs L hst => ?_) h
  obtain ⟨g₁, h₁, -, hthreads⟩ := fdProcessFaces_threads hst
  obtain ⟨m, e⟩ := processFrame_effect h₁
  exact (L.frame hs e).prune hthreads

/-- The life of a thread, for any run of frames and any settings. `g` is the state
before frame `inp`, `g'` the one after its `processThreads2`. -/
theorem faceThread_life (cfg : Config F) (hrun : runFrames cfg now frames = .ok g)
    (hstep : processFrame cfg g inp = .ok g') :
    (∀ a th, (g'.gThreads.get? a = some th ∨ updatedThread cfg g inp a = some th) →
      Counts (hitHistory cfg now (frames ++ [inp]) a) th) ∧
    (∀ a, a ∈ g.gThreads.addrs ∧ a ∉ g'.gThreads.addrs ↔
      (∃ th, updatedThread cfg g inp a = some th ∧
        (cfg.maxAllowedMissedCount < th.missedCount ∨
          cfg.maxAllowedConsecutiveMisses < th.consecutiveMissedCount)) ∧
      ∀ p ∈ frameTrail cfg now frames, ∀ th, updatedThread cfg p.1 p.2 a = some th →
        th.missedCount ≤ cfg.maxAllowedMissedCount ∧
          th.consecutiveMissedCount ≤ cfg.maxAllowedConsecutiveMisses) ∧
    (∃ m g₁, matchFrame cfg g inp = .ok m ∧
      deleteThreads cfg m.sh.gThreads.addrs m.ms m.sh = .ok g₁ ∧
      g₁.gThreads.nodes = m.sh.gThreads.nodes.filter (fun p => !exceedsLimit cfg p.2) ∧
      g₁.gThreadsBeingSerialized.vals = m.sh.gThreadsBeingSerialized.vals ++
        m.sh.gThreads.vals.filter (exceedsLimit cfg)) ∧
    (0 ≤ cfg.maxAllowedMissedCount → 0 ≤ cfg.maxAllowedConsecutiveMisses →
      (∀ a ∈ g.gThreads.addrs, isHit cfg g inp a = true → a ∈ g'.gThreads.addrs) ∧
      ∀ a th, g'.gThreads.get? a = some th →
        th.missedCount ≤ cfg.maxAllowedMissedCount ∧
          th.consecutiveMissedCount ≤ cfg.maxAllowedConsecutiveMisses) := by
  have L := life_of_runFrames hrun
  obtain ⟨m, e⟩ := processFrame_effect hstep
  have L' := L.frame hrun e
  have hlimit : ∀ th : FDFaceThread, exceedsLimit cfg th = false ↔
      th.missedCount ≤ cfg.maxAllowedMissedCount ∧
        th.consecutiveMissedCount ≤ cfg.maxAllowedConsecutiveMisses := by
    simp [exceedsLimit]
  refine ⟨fun a th h => ?_, fun a => ?_, ?_, fun hm hc => ⟨fun a ha hhit => ?_, fun a th h => ?_⟩⟩
  · obtain h | h := h
    · exact L'.counts a th h
    · exact L.counts_updated hrun e h
  · constructor
    · rintro ⟨ha, hnot⟩
      obtain ⟨th₀, hth₀⟩ := Option.isSome_iff_exists.mp (NodeList.get?_isSome_iff.mpr ha)
      obtain ⟨mt, -, hu, -⟩ := e.updated hth₀
      refine ⟨⟨_, hu, ?_⟩, fun p hp th h => (hlimit th).mp (L.within a ha p hp th h)⟩
      by_contra hle
      exact hnot ((e.mem_iff ha).mpr ⟨_, hu, (hlimit _).mpr (by omega)⟩)
    · rintro ⟨⟨th, hu, hex⟩, -⟩
      obtain ⟨th₀, hth₀⟩ := e.of_updated hu
      have ha : a ∈ g.gThreads.addrs := NodeList.get?_isSome_iff.mp (by rw [hth₀]; rfl)
      refine ⟨ha, fun hin => ?_⟩
      obtain ⟨th', hu', hok⟩ := (e.mem_iff ha).mp hin
      obtain rfl := Option.some.inj (hu.symm.trans hu')
      have := (hlimit th).mp hok
      omega
  · refine ⟨m, _, e.matched, deleteThreads_eq cfg (e.effect.inStep.trans e.effect.addrs.symm),
      rfl, NodeList.vals_pushAll _ _⟩
  · obtain ⟨th₀, hth₀⟩ := Option.isSome_iff_exists.mp (NodeList.get?_isSome_iff.mpr ha)
    obtain ⟨mt, -, hu, hg⟩ := e.updated hth₀
    have hf : mt.found = true := by
      by_contra hf
      simp [isHit, hg, hf] at hhit
    exact (e.mem_iff ha).mpr ⟨_, hu, updateCounters_under_limits hf hc (L.under_limits hm hc hth₀)⟩
  · exact (hlimit th).mp (L'.under_limits hm hc h)

end

/-- Lists of two faces, pruned in every third frame. -/
def shortLists : Config ℚ :=
  { Config.declared with
    maxThreadHistorySize := 2, pruneFacesInterval := 3, maxAllowedMissedCount := 100 }

def farDetection : FrameInput := ⟨⟨640, 480, 8, 3, 0⟩, [⟨400, 300, 20, 20⟩], 0⟩

def nearAndFar : FrameInput := ⟨⟨640, 480, 8, 3, 0⟩, [⟨10, 10, 20, 20⟩, ⟨400, 300, 20, 20⟩], 0⟩

/-- Two faces are seen in five frames, and one of them is missed in the next three. -/
def oneLeaves : List FrameInput := List.replicate 5 nearAndFar ++ List.replicate 3 farDetection

/-- The fourth miss removes the thread. -/
theorem faceThread_life_oneLeaves :
    ∃ g g' th, runFrames shortLists 0 oneLeaves = .ok g ∧
      processFrame shortLists g farDetection = .ok g' ∧
      1 ∈ g.gThreads.addrs ∧ 1 ∉ g'.gThreads.addrs ∧
      updatedThread shortLists g farDetection 1 = some th ∧
      Counts (hitHistory shortLists 0 (oneLeaves ++ [farDetection]) 1) th ∧
      (shortLists.maxAllowedMissedCount < th.missedCount ∨
        shortLists.maxAllowedConsecutiveMisses < th.consecutiveMissedCount) := by
  have hruns : returns (fun g => decide (1 ∈ g.gThreads.addrs) && returns (fun g' =>
      decide (1 ∉ g'.gThreads.addrs)) (processFrame shortLists g farDetection))
      (runFrames shortLists 0 oneLeaves) = true := by decide +kernel
  obtain ⟨g, hg, hruns⟩ := exists_of_returns hruns
  obtain ⟨hbefore, hruns⟩ := (Bool.and_eq_true _ _).mp hruns
  obtain ⟨g', hg', hafter⟩ := exists_of_returns hruns
  obtain ⟨hcounts, hremoved, -⟩ := faceThread_life shortLists hg hg'
  have hgone := And.intro (of_decide_eq_true hbefore) (of_decide_eq_true hafter)
  obtain ⟨⟨th, hth, hpast⟩, -⟩ := (hremoved 1).mp hgone
  exact ⟨g, g', th, hg, hg', hgone.1, hgone.2, hth, hcounts 1 th (.inr hth), hpast⟩

/-- With a negative limit a thread is past it as soon as it is created, stays in
`gThreads` after that frame, and is moved out in the next one only. -/
theorem moved_after_first_excess :
    let cfg : Config ℚ := { Config.declared with maxAllowedMissedCount := -1 }
    ∃ g g', runFrames cfg 0 [oneDetection] = .ok g ∧ processFrame cfg g noDetection = .ok g' ∧
      ((g.gThreads.get? 0).map fun th => th.missedCount) = some 0 ∧
      cfg.maxAllowedMissedCount < 0 ∧ 0 ∈ g.gThreads.addrs ∧ 0 ∉ g'.gThreads.addrs := by
  intro cfg
  have hruns : returns (fun g => decide (((g.gThreads.get? 0).map fun th => th.missedCount) = some 0 ∧
        0 ∈ g.gThreads.addrs) &&
      returns (fun g' => decide (0 ∉ g'.gThreads.addrs)) (processFrame cfg g noDetection))
      (runFrames cfg 0 [oneDetection]) = true := by decide +kernel
  obtain ⟨g, hg, hruns⟩ := exists_of_returns hruns
  obtain ⟨hbefore, hruns⟩ := Bool.and_eq_true_iff.mp hruns
  obtain ⟨g', hg', hafter⟩ := exists_of_returns hruns
  obtain ⟨hcount, hmem⟩ := of_decide_eq_true hbefore
  exact ⟨g, g', hg, hg', hcount, by decide, hmem, of_decide_eq_true hafter⟩

end PlanetariumFD
