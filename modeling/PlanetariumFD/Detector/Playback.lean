import PlanetariumFD.Detector.ThreadLife

/-!
# Playback of the history

After the input loop `_tmain` scans the history for a consensus rectangle and
plays it back, writing a cropped frame for every entry with a detection. The
entry of a frame owns a copy of the detections, but that copy is the sequence
`processThreads2` empties, so playback finds no detection in any entry.
-/

namespace PlanetariumFD

open Outcome Transition

/-! ## The code of `_tmain` -/

structure ConsensusScan where
  found : Bool
  minX : Int
  maxX : Int
  minY : Int
  maxY : Int
  deriving DecidableEq, Repr

def ConsensusScan.start : ConsensusScan := ⟨false, intMax, 0, intMax, 0⟩

/-- The scan's body: only the first rectangle of an entry counts. -/
def scanEntry (s : ConsensusScan) (e : FDHistoryEntry) : ConsensusScan :=
  match e.pFacesSeq.head? with
  | none => s
  | some r =>
    { found := true
      minX := if r.x < s.minX then r.x else s.minX
      maxX := if r.x + r.width > s.maxX then r.x + r.width else s.maxX
      minY := if r.y < s.minY then r.y else s.minY
      maxY := if r.y + r.height > s.maxY then r.y + r.height else s.maxY }

def findConsensus (history : List FDHistoryEntry) : ConsensusScan :=
  history.foldl scanEntry .start

def ConsensusScan.rect (s : ConsensusScan) : CvRect :=
  ⟨s.minX, s.minY, s.maxX - s.minX, s.maxY - s.minY⟩

/-- What playback has written: the size of the cropped video once it is opened,
and the frames in the cropped and in the full video. -/
structure Playback where
  croppedVidSize : Option (Int × Int)
  cropped : List Int
  played : List Int
  deriving DecidableEq, Repr

def Playback.start : Playback := ⟨none, [], []⟩

def playEntry (s : ConsensusScan) (p : Playback) (e : FDHistoryEntry) : Except Fault Playback :=
  match e.pFrame with
  | none => .error .nullImage
  | some _ =>
    if e.pFacesSeq.length > 0 then
      if s.found then
        .ok { croppedVidSize := some (p.croppedVidSize.getD (s.maxX - s.minX, s.maxY - s.minY))
              cropped := p.cropped ++ [e.frameId]
              played := p.played ++ [e.frameId] }
      else .error .assertFound
    else .ok { p with played := p.played ++ [e.frameId] }

/-- The playback loop; `esc` tells at which frames the Esc key ends it. -/
def playLoop (s : ConsensusScan) (esc : Int → Bool) :
    List FDHistoryEntry → Playback → Except Fault Playback
  | [], p => .ok p
  | e :: es, p => do
    let p ← playEntry s p e
    if esc e.frameId then .ok p else playLoop s esc es p

/-! ## What playback does with a history -/

def CvRect.Contains (outer inner : CvRect) : Prop :=
  outer.x ≤ inner.x ∧ inner.x + inner.width ≤ outer.x + outer.width ∧
    outer.y ≤ inner.y ∧ inner.y + inner.height ≤ outer.y + outer.height

theorem findConsensus_snoc (es : List FDHistoryEntry) (e : FDHistoryEntry) :
    findConsensus (es ++ [e]) = scanEntry (findConsensus es) e := by
  rw [findConsensus, List.foldl_append]
  rfl

theorem findConsensus_found (es : List FDHistoryEntry) :
    (findConsensus es).found = true ↔ ∃ e ∈ es, e.pFacesSeq ≠ [] := by
  induction es using List.reverseRecOn with
  | nil => simp [findConsensus, ConsensusScan.start]
  | append_singleton es e ih =>
    rw [findConsensus_snoc]
    cases hseq : e.pFacesSeq with
    | nil => simp [scanEntry, hseq, ih, or_and_right, exists_or]
    | cons r rs => simp [scanEntry, hseq, or_and_right, exists_or]

/-- The consensus rectangle covers the first rectangle of every entry. -/
theorem findConsensus_contains (es : List FDHistoryEntry) :
    ∀ e ∈ es, ∀ r, e.pFacesSeq.head? = some r → (findConsensus es).rect.Contains r := by
  induction es using List.reverseRecOn with
  | nil =>
    intro e he
    cases he
  | append_singleton es e ih =>
    intro e' he' r hr
    rw [findConsensus_snoc]
    rw [List.mem_append, List.mem_singleton] at he'
    obtain he' | rfl := he'
    · -- an earlier entry stays covered, the bounds only widen
      obtain ⟨h1, h2, h3, h4⟩ := ih e' he' r hr
      simp only [ConsensusScan.rect] at h1 h2 h3 h4
      unfold scanEntry
      split
      · exact ⟨h1, h2, h3, h4⟩
      · simp only [CvRect.Contains, ConsensusScan.rect]
        omega
    · simp only [scanEntry, hr, CvRect.Contains, ConsensusScan.rect]
      omega

theorem playLoop_cropped {s : ConsensusScan} {es : List FDHistoryEntry} :
    ∀ p : Playback, (∀ e ∈ es, e.pFrame ≠ none) → (∀ e ∈ es, e.pFacesSeq ≠ [] → s.found = true) →
      ∃ p', playLoop s (fun _ => false) es p = .ok p' ∧ p'.cropped = p.cropped ++
        (es.filter fun e => e.pFacesSeq ≠ []).map FDHistoryEntry.frameId := by
  induction es with
  | nil => exact fun p _ _ => ⟨p, rfl, by simp⟩
  | cons e es ih =>
    intro p hframe hfound
    simp only [List.mem_cons, forall_eq_or_imp] at hframe hfound
    obtain ⟨img, himg⟩ := Option.ne_none_iff_exists'.mp hframe.1
    cases hseq : e.pFacesSeq with
    | nil =>
      obtain ⟨p', hrun, hcropped⟩ := ih { p with played := p.played ++ [e.frameId] } hframe.2 hfound.2
      refine ⟨p', ?_, ?_⟩
      · simp only [playLoop, playEntry, himg, hseq]
        exact hrun
      · rw [hcropped, List.filter_cons_of_neg (by simp [hseq])]
    | cons r rs =>
      have hs : s.found = true := hfound.1 (by simp [hseq])
      obtain ⟨p', hrun, hcropped⟩ := ih
        { croppedVidSize := some (p.croppedVidSize.getD (s.maxX - s.minX, s.maxY - s.minY))
          cropped := p.cropped ++ [e.frameId]
          played := p.played ++ [e.frameId] } hframe.2 hfound.2
      refine ⟨p', ?_, ?_⟩
      · simp only [playLoop, playEntry, himg, hseq, hs]
        exact hrun
      · rw [hcropped, List.filter_cons_of_pos (by simp [hseq])]
        simp

/-! ## Runs -/

section
variable {F : Type} [FloatOps F] {cfg : Config F} {now : Int} {frames : List FrameInput}
  {g g' : Shared F} {inp : FrameInput}

/-- A frame adds its entry, with the sequence already emptied. -/
theorem FrameEffect.gHistory {m : Matched F} (e : FrameEffect cfg g inp m g') :
    g'.gHistory.vals = g.gHistory.vals ++
      [⟨g.processedFrameCounter + 1, some (createFrameCopy inp.pImg), []⟩] := by
  have hmod : g'.gHistory = (recorded g inp).gHistory.modify g.gHistory.fresh
      fun e => { e with pFacesSeq := [] } := by
    rw [e.result, afterDeletion, e.effect.others]
  -- the entry was pushed last, so the modified node is the last one
  have hsplit : (recorded g inp).gHistory.nodes = g.gHistory.nodes ++ (g.gHistory.fresh,
      ⟨g.processedFrameCounter + 1, some (createFrameCopy inp.pImg), inp.pSeqIn⟩) :: [] := by
    rw [recorded_gHistory]
    rfl
  rw [hmod, NodeList.vals, NodeList.modify_of_split hsplit, List.map_append]
  rfl

/-- The entry of frame `i + 1`, once `FdProcessFaces` has returned. -/
theorem gHistory_of_runFrames (h : runFrames cfg now frames = .ok g) :
    g.processedFrameCounter = frames.length ∧ g.gHistory.vals = frames.zipIdx.map fun p =>
      ⟨p.2 + 1, some (createFrameCopy p.1.pImg), []⟩ := by
  refine run_induction (P := fun frames s => s.processedFrameCounter = (frames.length : Int) ∧
    s.gHistory.vals = frames.zipIdx.map fun p =>
      (⟨p.2 + 1, some (createFrameCopy p.1.pImg), []⟩ : FDHistoryEntry))
    ⟨rfl, rfl⟩ (fun fs s inp t _ ih hst => ?_) h
  obtain ⟨hcount, hvals⟩ := ih
  obtain ⟨g₁, h₁, hothers, -⟩ := fdProcessFaces_threads hst
  obtain ⟨m, e⟩ := processFrame_effect h₁
  have hc : t.processedFrameCounter = s.processedFrameCounter + 1 :=
    (congrArg Shared.processedFrameCounter hothers).trans e.counter
  have hh : t.gHistory.vals = g₁.gHistory.vals := by rw [hothers]
  refine ⟨?_, ?_⟩
  · rw [hc, hcount, List.length_append, List.length_singleton]
    push_cast
    rfl
  · rw [hh, e.gHistory, hvals, hcount, List.zipIdx_append, List.map_append]
    simp

/-- The law for the retained frames and their entries, read without an Esc key. -/
structure PlaybackLaw (frames : List FrameInput) (entries : List FDHistoryEntry) : Prop where
  holds : entries.map FDHistoryEntry.pFacesSeq = frames.map FrameInput.pSeqIn
  found_iff : (findConsensus entries).found = true ↔ ∃ inp ∈ frames, inp.pSeqIn ≠ []
  consensus : ∀ inp ∈ frames, ∀ r, inp.pSeqIn.head? = some r →
    (findConsensus entries).rect.Contains r
  cropped : ∃ p, playLoop (findConsensus entries) (fun _ => false) entries .start = .ok p ∧
    p.cropped = ((entries.zip frames).filter fun q => q.2.pSeqIn ≠ []).map fun q => q.1.frameId

/-- Playback does its part: it only needs the entries to hold the detections. -/
theorem playbackLaw_of_holds {entries : List FDHistoryEntry}
    (hframe : ∀ e ∈ entries, e.pFrame ≠ none)
    (holds : entries.map FDHistoryEntry.pFacesSeq = frames.map FrameInput.pSeqIn) :
    PlaybackLaw frames entries := by
  have hfound : (findConsensus entries).found = true ↔ ∃ inp ∈ frames, inp.pSeqIn ≠ [] := by
    have hmem : ∀ seq, seq ∈ entries.map FDHistoryEntry.pFacesSeq ↔
        seq ∈ frames.map FrameInput.pSeqIn := fun seq => by rw [holds]
    simp only [List.mem_map] at hmem
    rw [findConsensus_found]
    constructor
    · rintro ⟨e, he, hne⟩
      obtain ⟨inp, hinp, heq⟩ := (hmem _).mp ⟨e, he, rfl⟩
      exact ⟨inp, hinp, heq ▸ hne⟩
    · rintro ⟨inp, hinp, hne⟩
      obtain ⟨e, he, heq⟩ := (hmem _).mpr ⟨inp, hinp, rfl⟩
      exact ⟨e, he, heq ▸ hne⟩
  refine ⟨holds, hfound, fun inp hinp r hr => ?_, ?_⟩
  · obtain ⟨e, he, heq⟩ : ∃ e ∈ entries, e.pFacesSeq = inp.pSeqIn := by
      rw [← List.mem_map, holds]
      exact List.mem_map.mpr ⟨inp, hinp, rfl⟩
    exact findConsensus_contains entries e he r (heq ▸ hr)
  · obtain ⟨p, hp, hcropped⟩ := playLoop_cropped .start hframe
      fun e he hne => (findConsensus_found entries).mpr ⟨e, he, hne⟩
    refine ⟨p, hp, hcropped.trans ?_⟩
    rw [Playback.start, List.nil_append]
    clear hframe hfound hp hcropped
    induction entries generalizing frames with
    | nil => rfl
    | cons e es ih =>
      cases frames with
      | nil => cases holds
      | cons inp frames =>
        simp only [List.map_cons, List.cons.injEq] at holds
        by_cases hne : inp.pSeqIn = []
        · rw [List.zip_cons_cons, List.filter_cons_of_neg (by simp [holds.1, hne]),
            List.filter_cons_of_neg (by simp [hne])]
          exact ih holds.2
        · rw [List.zip_cons_cons, List.filter_cons_of_pos (by simp [holds.1, hne]),
            List.filter_cons_of_pos (by simp [hne]), List.map_cons, List.map_cons, ih holds.2]

/-- The part about playback, whichever prefix of the history has been erased: it holds iff
no retained frame had a detection. -/
theorem playbackLaw_drop_iff (hrun : runFrames cfg now frames = .ok g) (erased : Nat) :
    PlaybackLaw (frames.drop erased) (g.gHistory.vals.drop erased) ↔
      ∀ inp ∈ frames.drop erased, inp.pSeqIn = [] := by
  obtain ⟨-, hvals⟩ := gHistory_of_runFrames hrun
  have hempty : (g.gHistory.vals.drop erased).map FDHistoryEntry.pFacesSeq =
      (frames.drop erased).map fun _ => [] := by
    rw [hvals, ← List.map_drop, List.map_map, List.map_drop, List.map_drop]
    congr 1
    show frames.zipIdx.map ((fun _ => []) ∘ Prod.fst) = _
    rw [← List.map_map, List.zipIdx_map_fst]
  have hframe : ∀ e ∈ g.gHistory.vals.drop erased, e.pFrame ≠ none := by
    intro e he
    rw [hvals] at he
    obtain ⟨p, -, rfl⟩ := List.mem_map.mp (List.mem_of_mem_drop he)
    simp
  constructor
  · intro law inp hinp
    have heq := hempty.symm.trans law.holds
    exact (List.map_inj_left.mp heq inp hinp).symm
  · intro hnone
    refine playbackLaw_of_holds hframe (hempty.trans ?_)
    exact List.map_congr_left fun inp hinp => (hnone inp hinp).symm

/-- After every frame of a run, when `FdProcessFaces` has returned for it, the newest entry
is that of the frame and holds what the detector returned. -/
def RecordsDetections (cfg : Config F) (now : Int) (frames : List FrameInput) : Prop :=
  ∀ before inp s, before ++ [inp] <+: frames → runFrames cfg now (before ++ [inp]) = .ok s →
    ∃ e, s.gHistory.vals.getLast? = some e ∧ e.frameId = before.length + 1 ∧
      e.pFacesSeq = inp.pSeqIn

/-- The entry of the last frame. -/
theorem getLast?_gHistory_of_runFrames {before : List FrameInput}
    (h : runFrames cfg now (before ++ [inp]) = .ok g) :
    g.gHistory.vals.getLast? =
      some ⟨before.length + 1, some (createFrameCopy inp.pImg), []⟩ := by
  rw [(gHistory_of_runFrames h).2, List.zipIdx_append, List.map_append]
  simp

/-- What the detector found is recorded exactly where it found nothing. -/
theorem recordsDetections_iff (hrun : runFrames cfg now frames = .ok g) :
    RecordsDetections cfg now frames ↔ ∀ inp ∈ frames, inp.pSeqIn = [] := by
  constructor
  · intro hrecords inp hinp
    obtain ⟨before, after, rfl⟩ := List.append_of_mem hinp
    have hsplit : before ++ inp :: after = before ++ [inp] ++ after := List.append_cons ..
    obtain ⟨s, hs, -⟩ := run_append_iff.mp (hsplit ▸ hrun)
    obtain ⟨e, hlast, -, hseq⟩ := hrecords before inp s ⟨after, hsplit.symm⟩ hs
    rw [getLast?_gHistory_of_runFrames hs] at hlast
    obtain rfl := Option.some.inj hlast
    exact hseq.symm
  · intro hnone before inp s hpre hs
    exact ⟨_, getLast?_gHistory_of_runFrames hs, rfl,
      (hnone inp (hpre.subset (by simp))).symm⟩

/-- The exact condition: every entry holds its frame's detections when `FdProcessFaces`
returns, and playback does its part whichever prefix of the history has been erased by
then, iff no frame of the run had a detection. -/
theorem playbackLaw_iff (hrun : runFrames cfg now frames = .ok g) (erased : Nat) :
    RecordsDetections cfg now frames ∧
        PlaybackLaw (frames.drop erased) (g.gHistory.vals.drop erased) ↔
      ∀ inp ∈ frames, inp.pSeqIn = [] := by
  rw [recordsDetections_iff hrun, playbackLaw_drop_iff hrun erased, and_iff_left_of_imp]
  exact fun hnone inp hinp => hnone inp (List.mem_of_mem_drop hinp)

end

/-- Two of three entries erased, and nothing detected; then a frame whose detection is lost,
though nothing is left of its entry when playback begins. -/
theorem playbackLaw_erasedEntries :
    (∃ g, runFrames (Config.declared : Config ℚ) 0 (List.replicate 3 noDetection) = .ok g ∧
      RecordsDetections (Config.declared : Config ℚ) 0 (List.replicate 3 noDetection) ∧
        PlaybackLaw [noDetection] (g.gHistory.vals.drop 2)) ∧
      ∃ g, runFrames (Config.declared : Config ℚ) 0 [oneDetection, noDetection] = .ok g ∧
        ¬ (RecordsDetections (Config.declared : Config ℚ) 0 [oneDetection, noDetection] ∧
          PlaybackLaw [noDetection] (g.gHistory.vals.drop 1)) := by
  have hquiet : returns (fun _ => true)
      (runFrames (Config.declared : Config ℚ) 0 (List.replicate 3 noDetection)) = true := by
    decide +kernel
  have hlost : returns (fun _ => true)
      (runFrames (Config.declared : Config ℚ) 0 [oneDetection, noDetection]) = true := by
    decide +kernel
  obtain ⟨g, hg, -⟩ := exists_of_returns hquiet
  obtain ⟨g', hg', -⟩ := exists_of_returns hlost
  exact ⟨⟨g, hg, (playbackLaw_iff hg 2).mpr (by decide)⟩,
    ⟨g', hg', fun law => absurd ((playbackLaw_iff hg' 1).mp law) (by decide)⟩⟩

/-- One frame with one detection: its entry is empty when `FdProcessFaces` returns,
and playback finds nothing. -/
theorem detection_lost : ∃ g, runFrames (Config.declared : Config ℚ) 0 [oneDetection] = .ok g ∧
    g.gHistory.vals.map FDHistoryEntry.pFacesSeq = [[]] ∧
    oneDetection.pSeqIn = [⟨10, 10, 20, 20⟩] ∧ (findConsensus g.gHistory.vals).found = false ∧
    ¬ PlaybackLaw [oneDetection] g.gHistory.vals := by
  have hruns : returns (fun g => decide (g.gHistory.vals.map FDHistoryEntry.pFacesSeq = [[]] ∧
      (findConsensus g.gHistory.vals).found = false))
      (runFrames (Config.declared : Config ℚ) 0 [oneDetection]) = true := by decide +kernel
  obtain ⟨g, hg, hlost⟩ := exists_of_returns hruns
  obtain ⟨hseq, hfound⟩ := of_decide_eq_true hlost
  refine ⟨g, hg, hseq, rfl, hfound, fun law => ?_⟩
  have hone := hseq.symm.trans law.holds
  revert hone
  decide

end PlanetariumFD
