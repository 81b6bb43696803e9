import PlanetariumFD.Detector.FilledFrames
import PlanetariumFD.Detector.StoredFaces

/-!
# The frames a thread requires

`minRequiredFrame` and `numRequiredFrames` are to give the span of a thread in closed
form: the frames that `addMissingFrames` leaves a face for. The first frame is right,
and it is what `getMinFrameToKeep` goes by. The number is that of a span of one frame.
-/

namespace PlanetariumFD

open Outcome Transition

def FDFaceThread.minRequiredFrame (th : FDFaceThread) : Int :=
  match th.pFaces with
  | [] => intMax
  | front :: _ => front.frameId

def FDFaceThread.numRequiredFrames (th : FDFaceThread) : Int :=
  match th.pFaces.getLast? with
  | none => 0
  -- the number subtracted is that of the back, too
  | some back => back.frameId - back.frameId + 1

section
variable (F : Type) [FloatOps F]

/-- The list `addMissingFrames` makes of the faces. It reads both ends of its list, so
that without faces there is nothing to fill. -/
def FDFaceThread.filledFaces (th : FDFaceThread) : Except Fault (List Face) :=
  match th.pFaces with
  | [] => .ok []
  | f :: fs => (addMissingFrames (F := F) (f :: fs)).map Prod.fst

/-- The announced span is the span that is filled. -/
structure AnnouncesSpan (th : FDFaceThread) : Prop where
  empty : th.pFaces = [] → th.numRequiredFrames = 0
  ends : ∀ f l, th.pFaces.head? = some f → th.pFaces.getLast? = some l →
    th.numRequiredFrames = l.frameId - f.frameId + 1
  filled : ∃ out, th.filledFaces F = .ok out ∧ th.numRequiredFrames = out.length ∧
    ∀ t, t ∈ out.map Face.frameId ↔
      th.minRequiredFrame ≤ t ∧ t < th.minRequiredFrame + th.numRequiredFrames

end

/-! ## The filled span -/

section
variable {F : Type} [FloatOps F] {th : FDFaceThread}

theorem FDFaceThread.minRequiredFrame_of_head? {f : Face} (h : th.pFaces.head? = some f) :
    th.minRequiredFrame = f.frameId := by
  obtain ⟨fs, hfs⟩ := List.head?_eq_some_iff.mp h
  rw [minRequiredFrame, hfs]

theorem FDFaceThread.numRequiredFrames_of_ne_nil (h : th.pFaces ≠ []) :
    th.numRequiredFrames = 1 := by
  rw [numRequiredFrames, List.getLast?_eq_some_getLast h]
  show _ - _ + 1 = (1 : Int)
  omega

/-- Whatever frames are missing, the filled list has the frames of the span, from the
first one that is required. -/
theorem filledFaces_ok (h : th.pFaces.Pairwise fun f f' => f.frameId < f'.frameId) :
    ∃ out, th.filledFaces F = .ok out ∧ out.map Face.frameId =
      (List.range (spanLength th.pFaces)).map fun k : Nat => th.minRequiredFrame + k := by
  cases hfaces : th.pFaces with
  | nil =>
    refine ⟨[], ?_, rfl⟩
    rw [FDFaceThread.filledFaces, hfaces]
  | cons f fs =>
    rw [hfaces] at h
    have hne : f :: fs ≠ [] := List.cons_ne_nil f fs
    have hmin : th.minRequiredFrame = ((f :: fs).head hne).frameId :=
      FDFaceThread.minRequiredFrame_of_head? (by rw [hfaces]; rfl)
    obtain ⟨modified, hfill⟩ := addMissingFrames_eq (F := F) hne h
    have hfilled : th.filledFaces F = (addMissingFrames (F := F) (f :: fs)).map Prod.fst := by
      rw [FDFaceThread.filledFaces, hfaces]
    rw [hmin, hfilled, hfill]
    exact ⟨_, rfl, spanFaces_frameId hne h⟩

/-- So the two numbers announce the span if the second one is its length. -/
theorem announcesSpan_iff_eq (h : th.pFaces.Pairwise fun f f' => f.frameId < f'.frameId) :
    AnnouncesSpan F th ↔ th.numRequiredFrames = spanLength th.pFaces := by
  obtain ⟨out, hout, hids⟩ := filledFaces_ok (F := F) h
  have hlen : out.length = spanLength th.pFaces := by
    rw [← List.length_map Face.frameId, hids, List.length_map, List.length_range]
  constructor
  · intro A
    obtain ⟨out', hout', hnum, -⟩ := A.filled
    obtain rfl : out = out' := Except.ok.inj (hout.symm.trans hout')
    rw [hnum, hlen]
  · intro hnum
    refine ⟨fun hnil => ?_, fun f l hf hl => ?_, out, hout, by rw [hnum, hlen], fun t => ?_⟩
    · rw [hnum, hnil]
      rfl
    · have hne : th.pFaces ≠ [] := by
        intro hnil
        rw [hnil] at hf
        cases hf
      have hspan := spanLength_eq hne h
      rw [List.head?_eq_some_head hne] at hf
      rw [List.getLast?_eq_some_getLast hne] at hl
      rw [hnum, hspan, Option.some.inj hf, Option.some.inj hl]
    · rw [hids, mem_consecutive_iff, hnum]

/-- Two faces are in two frames. -/
theorem one_lt_spanLength {f g : Face} {gs : List Face}
    (h : (f :: g :: gs).Pairwise fun f f' => f.frameId < f'.frameId) :
    1 < spanLength (f :: g :: gs) := by
  have hspan := spanLength_eq (List.cons_ne_nil f (g :: gs)) h
  have hlt : f.frameId < g.frameId := List.rel_of_pairwise_cons h List.mem_cons_self
  have hle := frameId_le_getLast h.of_cons
  rw [List.head_cons, List.getLast_cons (List.cons_ne_nil g gs)] at hspan
  omega

theorem numRequiredFrames_eq_spanLength_iff
    (h : th.pFaces.Pairwise fun f f' => f.frameId < f'.frameId) :
    th.numRequiredFrames = spanLength th.pFaces ↔ th.pFaces.length ≤ 1 := by
  by_cases hnil : th.pFaces = []
  · rw [FDFaceThread.numRequiredFrames, hnil]
    exact iff_of_true rfl (Nat.zero_le 1)
  · rw [FDFaceThread.numRequiredFrames_of_ne_nil hnil]
    match hfaces : th.pFaces with
    | [] => exact absurd hfaces hnil
    | [f] => simp [spanLength]
    | f :: g :: gs =>
      rw [hfaces] at h
      have hspan := one_lt_spanLength h
      simp only [List.length_cons]
      omega

/-! ## The frames that are kept -/

omit [FloatOps F] in
/-- `getMinFrameToKeep` gives the least frame that a thread requires first. -/
theorem getMinFrameToKeep_isLeast {g : Shared F} {m : Int} (hm : getMinFrameToKeep g = .ok m)
    (hne : m ≠ -1) : IsLeast {t | ∃ th ∈ allThreads g, th.minRequiredFrame = t} m := by
  obtain ⟨-, rfl⟩ | ⟨-, hall, th, hth, f, hf, rfl⟩ := getMinFrameToKeep_ok hm
  · exact absurd rfl hne
  refine ⟨⟨th, hth, FDFaceThread.minRequiredFrame_of_head? hf⟩, ?_⟩
  rintro t ⟨th', hth', rfl⟩
  obtain ⟨f', hf', hle⟩ := hall th' hth'
  rw [FDFaceThread.minRequiredFrame_of_head? hf']
  exact hle

/-- In every state, no frame that a stored thread's filled list needs is below what
`getMinFrameToKeep` returns there. -/
theorem filledFaces_kept {cfg : Config F} {now m : Int} {as : List Action} {s : System F}
    (hs : run (step cfg) (start cfg now) as = .ok s) (hm : getMinFrameToKeep s.sh = .ok m)
    (hth : th ∈ allThreads s.sh) {out : List Face} (hout : th.filledFaces F = .ok out) :
    ∀ g ∈ out, m ≤ g.frameId := by
  have hinc := ((orderedFaces_of_run hs).of_allThreads hth).increasing
  obtain ⟨out', hout', hids⟩ := filledFaces_ok (F := F) hinc
  obtain rfl : out = out' := Except.ok.inj (hout.symm.trans hout')
  intro g hg
  have hmem : g.frameId ∈ out.map Face.frameId := List.mem_map_of_mem hg
  rw [hids, mem_consecutive_iff] at hmem
  obtain ⟨hnil, -⟩ | ⟨-, hall, -⟩ := getMinFrameToKeep_ok hm
  · rw [hnil] at hth
    cases hth
  · obtain ⟨f, hf, hle⟩ := hall th hth
    rw [FDFaceThread.minRequiredFrame_of_head? hf] at hmem
    exact hle.trans hmem.1

/-! ## The announced span -/

/-- A face thread announces the span that is filled exactly if it has at most one face;
so does every thread that is stored in a state of a run. -/
theorem announcesSpan_iff (cfg : Config F) (now : Int) :
    (∀ th : FDFaceThread, (th.pFaces.Pairwise fun f f' => f.frameId < f'.frameId) →
      (AnnouncesSpan F th ↔ th.pFaces.length ≤ 1)) ∧
    ∀ as s, run (step cfg) (start cfg now) as = .ok s → ∀ th ∈ allThreads s.sh,
      (AnnouncesSpan F th ↔ th.pFaces.length ≤ 1) := by
  have hiff : ∀ th : FDFaceThread, (th.pFaces.Pairwise fun f f' => f.frameId < f'.frameId) →
      (AnnouncesSpan F th ↔ th.pFaces.length ≤ 1) := by
    intro th h
    rw [announcesSpan_iff_eq h, numRequiredFrames_eq_spanLength_iff h]
  refine ⟨hiff, fun as s hs th hth => hiff th ?_⟩
  exact ((orderedFaces_of_run hs).of_allThreads hth).increasing

end

/-- A face in frame 1, none in frame 2, and one in frame 3. -/
def seenAgain : List Action :=
  [.frame oneDetection, .main, .main, .main, .frame noDetection, .main, .main, .main, .main,
    .frame oneDetection, .main, .main, .main, .main]

/-- What they make of it. -/
def seenAgainThread : FDFaceThread :=
  { newThread 0 with
    pFaces := [⟨⟨10, 10, 20, 20⟩, 1⟩, ⟨⟨10, 10, 20, 20⟩, 3⟩]
    totalCount := 2
    nonMissedCount := 1 }

theorem seenAgainThread_stored : ∃ s,
    run (step (Config.declared : Config ℚ)) (start Config.declared 0) seenAgain = .ok s ∧
      seenAgainThread ∈ allThreads s.sh := by
  have hruns : returns (fun s => decide (seenAgainThread ∈ allThreads s.sh))
      (run (step (Config.declared : Config ℚ)) (start Config.declared 0) seenAgain) = true := by
    decide +kernel
  obtain ⟨s, hs, hmem⟩ := exists_of_returns hruns
  exact ⟨s, hs, of_decide_eq_true hmem⟩

theorem announcesSpan_iff_seenAgain :
    (AnnouncesSpan ℚ { newThread 0 with pFaces := gappyFaces } ↔ gappyFaces.length ≤ 1) ∧
    ∃ s, run (step (Config.declared : Config ℚ)) (start Config.declared 0) seenAgain = .ok s ∧
      (AnnouncesSpan ℚ seenAgainThread ↔ seenAgainThread.pFaces.length ≤ 1) := by
  obtain ⟨hany, hreached⟩ := announcesSpan_iff (Config.declared : Config ℚ) 0
  obtain ⟨s, hs, hmem⟩ := seenAgainThread_stored
  exact ⟨hany _ (by decide), s, hs, hreached _ s hs _ hmem⟩

/-- The thread is filled up to three faces, and announces one frame. -/
theorem seenAgainThread_announcesOne :
    (∃ s, run (step (Config.declared : Config ℚ)) (start Config.declared 0) seenAgain = .ok s ∧
      seenAgainThread ∈ allThreads s.sh) ∧
    seenAgainThread.numRequiredFrames = 1 ∧
    (seenAgainThread.filledFaces ℚ).map List.length = .ok 3 ∧
    ¬ AnnouncesSpan ℚ seenAgainThread := by
  refine ⟨seenAgainThread_stored, by decide, by decide +kernel, fun A => ?_⟩
  exact absurd (A.ends _ _ rfl rfl) (by decide)

end PlanetariumFD
