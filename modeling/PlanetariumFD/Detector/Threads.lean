import PlanetariumFD.Detector.Matching

/-!
# Updating, deleting and seeding threads

The state that the three kinds of CPU threads share, and the parts of
`processThreads2` that change `gThreads`: part 2 updates the counters through the
pointers in `matches`, the deletion loop hands threads to save jobs, part 3 seeds
a thread for every face left over. Each loop comes with one lemma that says what
it leaves behind; later modules use these and not the loops.
-/

namespace PlanetariumFD

open Outcome

/-- What `saveAndDeleteThread` exports, in its order. -/
inductive Export
  | images
  | video (isSmoothVideo : Bool)
  deriving DecidableEq, Repr

/-- The test of `saveAndDeleteThread` for saving anything. -/
def passesSave {F : Type} (cfg : Config F) (th : FDFaceThread) : Bool :=
  th.nonMissedCount ≥ cfg.minFaceOccurencesThresh && th.missedCount < cfg.maxAllowedMissedCount

/-- Where a save job stands: before its `pruneFacesList`, between two exports,
inside an export's loop over faces and history, or past its erase. -/
inductive JobPC
  | started
  | saving (todo : List Export)
  | walking (e : Export) (todo : List Export) (historyItr : Option Nat) (faces : List Face)
      (saved : Int)
  | finished
  deriving DecidableEq, Repr

/-- A `saveAndDeleteThread` job. `ident` names the face thread it was given; only
`pTh` is read. -/
structure Job where
  pTh : Nat
  ident : Nat
  pc : JobPC
  deriving DecidableEq, Repr

/-- The globals of `FaceProcessor.cpp`, and the jobs started so far. -/
structure Shared (F : Type) where
  gHistory : NodeList FDHistoryEntry
  gThreads : NodeList FDFaceThread
  gThreadsBeingSerialized : NodeList FDFaceThread
  gFacesInCurrentFrame : List Face
  gFrameWidth : Int
  gFrameHeight : Int
  processedFrameCounter : Int
  fdTimeSeconds : Int
  estimatedFps : F
  jobs : List Job

section
variable {F : Type} [FloatOps F]

/-- Every `SAMPLE_TIME_EVERY_X_FRAMES` frames the frame rate is estimated anew. -/
def sampleFps (cfg : Config F) (g : Shared F) (frameId now : Int) : Except Fault (Shared F) :=
  if cfg.sampleTimeEveryXFrames = 0 then .error .remainderByZero
  else if frameId.tmod cfg.sampleTimeEveryXFrames = 0 then
    let fps := if now = g.fdTimeSeconds then g.estimatedFps
      else FloatOps.ofInt cfg.sampleTimeEveryXFrames / FloatOps.ofInt (now - g.fdTimeSeconds)
    let fps := if FloatOps.lt fps (FloatOps.ofInt 1) then FloatOps.ofInt 11 / FloatOps.ofInt 10
      else fps
    .ok { g with fdTimeSeconds := now, estimatedFps := fps }
  else .ok g

end

/-! ## Part 2 -/

section
variable {F : Type}

def addNewFaceToThread (th : FDFaceThread) (face : Face) : FDFaceThread :=
  { th with pFaces := th.pFaces ++ [face] }

/-- The body of part 2's loop. -/
def updateCounters (m : Matching F) (th : FDFaceThread) : FDFaceThread :=
  let th := { th with totalCount := th.totalCount + 1 }
  if m.found then
    addNewFaceToThread
      { th with
        nonMissedCount := th.nonMissedCount + 1
        consecutiveMissedCount := 0
        missedCount := if th.missedCount > 0 then th.missedCount - 1 else th.missedCount }
      m.face
  else
    { th with
      consecutiveMissedCount := th.consecutiveMissedCount + 1
      missedCount := th.missedCount + 1 }

/-- Part 2: the iterator only counts the turns, the update goes through
`matches[i].th`. -/
def updateThreads : List Nat → List (Matching F) → NodeList FDFaceThread →
    Except Fault (NodeList FDFaceThread)
  | [], _, gThreads => .ok gThreads
  | _ :: _, [], _ => .error .indexOutOfRange
  | _ :: itrs, m :: ms, gThreads =>
    match gThreads.get? m.th with
    | none => .error .danglingPointer
    | some _ => updateThreads itrs ms (gThreads.modify m.th (updateCounters m))

/-! ## The deletion loop -/

/-- The deletion loop's test. -/
def exceedsLimit (cfg : Config F) (th : FDFaceThread) : Bool :=
  th.missedCount > cfg.maxAllowedMissedCount ||
    th.consecutiveMissedCount > cfg.maxAllowedConsecutiveMisses

/-- Copy the thread to `gThreads_beingSerialized`, erase it from `gThreads` and
start a job on the copy's address. -/
def deleteThread (g : Shared F) (itrToDel : Nat) : Except Fault (Shared F) :=
  match g.gThreads.get? itrToDel with
  | none => .error .assertThreadToDelete
  | some th =>
    let beingSaved := g.gThreadsBeingSerialized.fresh
    .ok { g with
      gThreadsBeingSerialized := g.gThreadsBeingSerialized.pushBack th
      gThreads := g.gThreads.erase itrToDel
      jobs := g.jobs ++ [⟨beingSaved, th.ident, .started⟩] }

/-- One turn of the deletion loop: the counters are read through `matches[i].th`,
the node erased is the iterator's. -/
def deleteIfExceeds (cfg : Config F) (itr : Nat) (m : Matching F) (g : Shared F) :
    Except Fault (Shared F) :=
  match g.gThreads.get? m.th with
  | none => .error .danglingPointer
  | some th => if exceedsLimit cfg th then deleteThread g itr else .ok g

def deleteThreads (cfg : Config F) : List Nat → List (Matching F) → Shared F →
    Except Fault (Shared F)
  | [], _, g => .ok g
  | _ :: _, [], _ => .error .indexOutOfRange
  | itr :: itrs, m :: ms, g => do
    let g' ← deleteIfExceeds cfg itr m g
    deleteThreads cfg itrs ms g'

/-! ## Part 3 -/

/-- Push an empty thread and return its address. -/
def addNewThread (gThreads : NodeList FDFaceThread) : NodeList FDFaceThread × Nat :=
  (gThreads.pushBack (newThread gThreads.fresh), gThreads.fresh)

def seedThread (gThreads : NodeList FDFaceThread) (face : Face) : NodeList FDFaceThread :=
  let (gThreads, a) := addNewThread gThreads
  gThreads.modify a fun th => addNewFaceToThread th face

def seedThreads (gThreads : NodeList FDFaceThread) (faces : List Face) : NodeList FDFaceThread :=
  faces.foldl seedThread gThreads

end

/-! ## The whole function -/

/-- The state between part 2 and the deletion loop: `matches`, and the faces left
in the input list. -/
structure Matched (F : Type) where
  sh : Shared F
  ms : List (Matching F)
  inputFaces : List Face

section
variable {F : Type} [FloatOps F]

/-- `processThreads2` up to the end of part 2. `cur` is the history entry whose
sequence is the argument; part 0 empties that sequence in place. -/
def matchThreads (cfg : Config F) (g : Shared F) (cur : Nat) (frameId now : Int) :
    Except Fault (Matched F) := do
  let g ← sampleFps cfg g frameId now
  match g.gHistory.get? cur with
  | none => .error .danglingPointer
  | some entry =>
    -- the sequence popped is the entry's own, so the entry is emptied with it
    let input := takeInputFaces frameId entry.pFacesSeq
    let gHistory := g.gHistory.modify cur fun entry => { entry with pFacesSeq := input.2 }
    let r ← matchFaces cfg g.gThreads input.1 (initMatches g.gThreads)
    let gThreads ← updateThreads g.gThreads.addrs r.1 g.gThreads
    .ok ⟨{ g with gHistory := gHistory, gThreads := gThreads }, r.1, r.2⟩

def processThreads2 (cfg : Config F) (g : Shared F) (cur : Nat) (frameId now : Int) :
    Except Fault (Shared F) := do
  let m ← matchThreads cfg g cur frameId now
  let g ← deleteThreads cfg m.sh.gThreads.addrs m.ms m.sh
  .ok { g with gThreads := seedThreads g.gThreads m.inputFaces }

end

/-! ## What the loops leave behind -/

section
variable {F : Type}

@[simp] theorem updateCounters_ident (m : Matching F) (th : FDFaceThread) :
    (updateCounters m th).ident = th.ident := by
  unfold updateCounters
  dsimp only
  split <;> rfl

/-- The faces part 2 appends to a thread: its candidate, if it has one. -/
theorem updateCounters_pFaces (m : Matching F) (th : FDFaceThread) :
    (updateCounters m th).pFaces = th.pFaces ++ if m.found then [m.face] else [] := by
  unfold updateCounters
  dsimp only
  split
  · rfl
  · exact (List.append_nil _).symm

/-- Node by node, `matches` in step with the list. -/
def updatedNodes (nodes : List (Nat × FDFaceThread)) (ms : List (Matching F)) :
    List (Nat × FDFaceThread) :=
  List.zipWith (fun p m => (p.1, updateCounters m p.2)) nodes ms

theorem updatedNodes_addrs {nodes : List (Nat × FDFaceThread)} :
    ∀ {ms : List (Matching F)}, ms.map Matching.th = nodes.map Prod.fst →
      (updatedNodes nodes ms).map Prod.fst = nodes.map Prod.fst := by
  induction nodes with
  | nil => exact fun _ => rfl
  | cons p nodes ih =>
    intro ms h
    cases ms with
    | nil => cases h
    | cons m ms =>
      simp only [List.map_cons, List.cons.injEq] at h
      simp only [updatedNodes, List.zipWith_cons_cons, List.map_cons, List.cons.injEq, true_and]
      exact ih h.2

theorem updateThreads_split (suf : List (Nat × FDFaceThread)) :
    ∀ (pre : List (Nat × FDFaceThread)) {ms : List (Matching F)} {l : NodeList FDFaceThread},
      l.nodes = pre ++ suf → ms.map Matching.th = suf.map Prod.fst →
      ∃ l', updateThreads (suf.map Prod.fst) ms l = .ok l' ∧ l'.fresh = l.fresh ∧
        l'.nodes = pre ++ updatedNodes suf ms := by
  induction suf with
  | nil => exact fun _ _ _ hl _ => ⟨_, rfl, rfl, hl⟩
  | cons p suf ih =>
    intro pre ms l hl hms
    cases ms with
    | nil => cases hms
    | cons m ms =>
      simp only [List.map_cons, List.cons.injEq] at hms
      obtain ⟨hm, hms⟩ := hms
      have hl' := NodeList.modify_of_split hl (updateCounters m)
      -- the node joins those that are done, and the rest is as before
      have hsplit : (l.modify p.1 (updateCounters m)).nodes =
          (pre ++ [(p.1, updateCounters m p.2)]) ++ suf := by rw [hl']; simp
      obtain ⟨l', hrun, hfresh, hnodes⟩ := ih _ hsplit hms
      refine ⟨l', ?_, hfresh, ?_⟩
      · simp only [List.map_cons, updateThreads, hm, NodeList.get?_of_split hl]
        exact hrun
      · rw [hnodes, updatedNodes, updatedNodes, List.zipWith_cons_cons, List.append_assoc]
        rfl

/-- Part 2 with `matches` in step: every thread gets its own update. -/
theorem updateThreads_eq {l : NodeList FDFaceThread} {ms : List (Matching F)}
    (hms : ms.map Matching.th = l.addrs) :
    ∃ l', updateThreads l.addrs ms l = .ok l' ∧ l'.fresh = l.fresh ∧
      l'.nodes = updatedNodes l.nodes ms :=
  updateThreads_split l.nodes [] rfl hms

/-- The jobs started for the threads `ths`, the first on address `a`. -/
def startedJobs (a : Nat) (ths : List FDFaceThread) : List Job :=
  (ths.zipIdx a).map fun p => ⟨p.2, p.1.ident, .started⟩

theorem deleteThread_of_split {g : Shared F} {pre suf : List (Nat × FDFaceThread)} {a : Nat}
    {th : FDFaceThread} (h : g.gThreads.nodes = pre ++ (a, th) :: suf) :
    deleteThread g a = .ok { g with
      gThreadsBeingSerialized := g.gThreadsBeingSerialized.pushBack th
      gThreads := g.gThreads.erase a
      jobs := g.jobs ++ [⟨g.gThreadsBeingSerialized.fresh, th.ident, .started⟩] } := by
  simp only [deleteThread, NodeList.get?_of_split h]

theorem deleteThreads_split (cfg : Config F) (suf : List (Nat × FDFaceThread)) :
    ∀ (pre : List (Nat × FDFaceThread)) {ms : List (Matching F)} {g : Shared F},
      g.gThreads.nodes = pre ++ suf → ms.map Matching.th = suf.map Prod.fst →
      ∃ l, deleteThreads cfg (suf.map Prod.fst) ms g = .ok { g with
          gThreads := l
          gThreadsBeingSerialized := g.gThreadsBeingSerialized.pushAll
            ((suf.map Prod.snd).filter (exceedsLimit cfg))
          jobs := g.jobs ++ startedJobs g.gThreadsBeingSerialized.fresh
            ((suf.map Prod.snd).filter (exceedsLimit cfg)) } ∧
        l.fresh = g.gThreads.fresh ∧
        l.nodes = pre ++ suf.filter fun p => !exceedsLimit cfg p.2 := by
  induction suf with
  | nil =>
    intro pre ms g hg _
    exact ⟨g.gThreads, by simp [deleteThreads, NodeList.pushAll, startedJobs], rfl, hg⟩
  | cons p suf ih =>
    intro pre ms g hg hms
    cases ms with
    | nil => cases hms
    | cons m ms =>
      simp only [List.map_cons, List.cons.injEq] at hms
      obtain ⟨hm, hms⟩ := hms
      simp only [List.map_cons, deleteThreads, deleteIfExceeds, hm, NodeList.get?_of_split hg]
      by_cases hex : exceedsLimit cfg p.2 = true
      · -- the thread moves: its node leaves `gThreads`, a copy and a job are added
        rw [if_pos hex, deleteThread_of_split hg, ok_bind]
        obtain ⟨l, hrun, hfresh, hnodes⟩ := ih pre (g := { g with
            gThreadsBeingSerialized := g.gThreadsBeingSerialized.pushBack p.2
            gThreads := g.gThreads.erase p.1
            jobs := g.jobs ++ [⟨g.gThreadsBeingSerialized.fresh, p.2.ident, .started⟩] })
          (NodeList.erase_of_split hg) hms
        refine ⟨l, ?_, hfresh, ?_⟩
        · rw [hrun]
          simp [hex, NodeList.pushAll_cons, startedJobs, List.zipIdx_cons]
        · rw [hnodes, List.filter_cons_of_neg (by simp [hex])]
      · rw [if_neg hex, ok_bind]
        obtain ⟨l, hrun, hfresh, hnodes⟩ := ih (pre ++ [p]) (g := g) (by rw [hg]; simp) hms
        refine ⟨l, ?_, hfresh, ?_⟩
        · rw [hrun]
          simp [hex]
        · rw [hnodes, List.filter_cons_of_pos (by simp [hex])]
          simp

/-- The deletion loop with `matches` in step: exactly the threads over a limit
move, in order, each to a job of its own; the others stay in order. -/
theorem deleteThreads_eq (cfg : Config F) {g : Shared F} {ms : List (Matching F)}
    (hms : ms.map Matching.th = g.gThreads.addrs) :
    deleteThreads cfg g.gThreads.addrs ms g = .ok { g with
      gThreads := g.gThreads.filterVals fun th => !exceedsLimit cfg th
      gThreadsBeingSerialized := g.gThreadsBeingSerialized.pushAll
        (g.gThreads.vals.filter (exceedsLimit cfg))
      jobs := g.jobs ++ startedJobs g.gThreadsBeingSerialized.fresh
        (g.gThreads.vals.filter (exceedsLimit cfg)) } := by
  obtain ⟨l, hrun, hfresh, hnodes⟩ := deleteThreads_split cfg g.gThreads.nodes [] rfl hms
  have hl : l = g.gThreads.filterVals fun th => !exceedsLimit cfg th :=
    NodeList.ext hnodes hfresh
  rw [← hl]
  exact hrun

/-- The thread part 3 makes from a face. -/
def seededThread (ident : Nat) (face : Face) : FDFaceThread :=
  addNewFaceToThread (newThread ident) face

theorem seedThread_eq (l : NodeList FDFaceThread) (face : Face) :
    seedThread l face = l.pushBack (seededThread l.fresh face) := by
  have hsplit : (l.pushBack (newThread l.fresh)).nodes =
      l.nodes ++ (l.fresh, newThread l.fresh) :: [] := rfl
  exact NodeList.ext (NodeList.modify_of_split hsplit _) rfl

/-- Part 3 appends one thread for every face left over, in their order. -/
theorem seedThreads_eq (l : NodeList FDFaceThread) (faces : List Face) :
    seedThreads l faces =
      l.pushAll ((faces.zipIdx l.fresh).map fun p => seededThread p.2 p.1) := by
  induction faces generalizing l with
  | nil => rfl
  | cons face faces ih =>
    show seedThreads (seedThread l face) faces = _
    rw [ih, seedThread_eq, List.zipIdx_cons, List.map_cons, NodeList.pushAll_cons]
    rfl

theorem of_mem_updatedNodes {nodes : List (Nat × FDFaceThread)} {p : Nat × FDFaceThread} :
    ∀ {ms : List (Matching F)}, ms.map Matching.th = nodes.map Prod.fst →
      p ∈ updatedNodes nodes ms →
      ∃ th m, (p.1, th) ∈ nodes ∧ m ∈ ms ∧ m.th = p.1 ∧ p.2 = updateCounters m th := by
  induction nodes with
  | nil =>
    intro ms _ hp
    cases hp
  | cons q nodes ih =>
    intro ms h hp
    cases ms with
    | nil => cases h
    | cons m ms =>
      simp only [List.map_cons, List.cons.injEq] at h
      simp only [updatedNodes, List.zipWith_cons_cons, List.mem_cons] at hp
      rcases hp with rfl | hp
      · exact ⟨q.2, m, List.mem_cons_self, List.mem_cons_self, h.1, rfl⟩
      · obtain ⟨th, m', hth, hm', he, hu⟩ := ih h.2 hp
        exact ⟨th, m', List.mem_cons_of_mem _ hth, List.mem_cons_of_mem _ hm', he, hu⟩

theorem mem_updatedNodes {nodes : List (Nat × FDFaceThread)} {p : Nat × FDFaceThread} :
    ∀ {ms : List (Matching F)}, ms.map Matching.th = nodes.map Prod.fst → p ∈ nodes →
      ∃ m ∈ ms, m.th = p.1 ∧ (p.1, updateCounters m p.2) ∈ updatedNodes nodes ms := by
  induction nodes with
  | nil =>
    intro ms _ hp
    cases hp
  | cons q nodes ih =>
    intro ms h hp
    cases ms with
    | nil => cases h
    | cons m ms =>
      simp only [List.map_cons, List.cons.injEq] at h
      simp only [updatedNodes, List.zipWith_cons_cons, List.mem_cons]
      rcases List.mem_cons.mp hp with rfl | hp
      · exact ⟨m, .inl rfl, h.1, .inl rfl⟩
      · obtain ⟨m', hm', he, hu⟩ := ih h.2 hp
        exact ⟨m', .inr hm', he, .inr hu⟩

end

section
variable {F : Type} [FloatOps F] {cfg : Config F} {g g' : Shared F} {cur : Nat} {frameId now : Int}

theorem sampleFps_ok (h : sampleFps cfg g frameId now = .ok g') :
    cfg.sampleTimeEveryXFrames ≠ 0 ∧
      g' = { g with fdTimeSeconds := g'.fdTimeSeconds, estimatedFps := g'.estimatedFps } := by
  unfold sampleFps at h
  split at h
  · cases h
  · next hne =>
    split at h <;> cases h <;> exact ⟨hne, rfl⟩

/-- What `processThreads2` has done when it enters the deletion loop. -/
structure MatchEffect (cfg : Config F) (g : Shared F) (cur : Nat) (frameId : Int)
    (m : Matched F) : Prop where
  entry : ∃ e, g.gHistory.get? cur = some e ∧
    matchFaces cfg g.gThreads (e.pFacesSeq.reverse.map fun r => { r with frameId := frameId })
      (initMatches g.gThreads) = .ok (m.ms, m.inputFaces)
  inStep : m.ms.map Matching.th = g.gThreads.addrs
  nodes : m.sh.gThreads.nodes = updatedNodes g.gThreads.nodes m.ms
  fresh : m.sh.gThreads.fresh = g.gThreads.fresh
  others : m.sh = { g with
    gHistory := g.gHistory.modify cur fun e => { e with pFacesSeq := [] }
    gThreads := m.sh.gThreads
    fdTimeSeconds := m.sh.fdTimeSeconds
    estimatedFps := m.sh.estimatedFps }

theorem matchThreads_ok {m : Matched F} (h : matchThreads cfg g cur frameId now = .ok m) :
    cfg.sampleTimeEveryXFrames ≠ 0 ∧ MatchEffect cfg g cur frameId m := by
  obtain ⟨g₁, hfps, h⟩ := bind_eq_ok.mp h
  obtain ⟨hne, hg₁⟩ := sampleFps_ok hfps
  rw [hg₁] at h
  refine ⟨hne, ?_⟩
  split at h
  · cases h
  · next e he =>
    simp only [takeInputFaces_eq] at h
    obtain ⟨r, hr, h⟩ := bind_eq_ok.mp h
    obtain ⟨l, hl, h⟩ := bind_eq_ok.mp h
    cases h
    have hstep : r.1.map Matching.th = g.gThreads.addrs :=
      (matchFaces_th hr).trans (initMatches_th _)
    obtain ⟨l', hl', hfresh, hnodes⟩ := updateThreads_eq hstep
    obtain rfl : l = l' := Except.ok.inj (hl.symm.trans hl')
    exact ⟨⟨e, he, hr⟩, hstep, hnodes, hfresh, rfl⟩

/-- Parts 0 to 2 are total on nonempty threads. -/
theorem matchThreads_total (hs : cfg.sampleTimeEveryXFrames ≠ 0)
    (hcur : cur ∈ g.gHistory.addrs) (hne : ∀ th ∈ g.gThreads.vals, th.pFaces ≠ []) :
    ∃ m, matchThreads cfg g cur frameId now = .ok m := by
  obtain ⟨g₁, hfps⟩ : ∃ g₁, sampleFps cfg g frameId now = .ok g₁ := by
    unfold sampleFps
    rw [if_neg hs]
    split <;> exact ⟨_, rfl⟩
  obtain ⟨-, hg₁⟩ := sampleFps_ok hfps
  have hhist : g₁.gHistory = g.gHistory := by rw [hg₁]
  have hthr : g₁.gThreads = g.gThreads := by rw [hg₁]
  obtain ⟨e, he⟩ := Option.isSome_iff_exists.mp (NodeList.get?_isSome_iff.mpr hcur)
  obtain ⟨r, hr⟩ := matchFaces_total cfg hne (takeInputFaces frameId e.pFacesSeq).1
    (initMatches_th g.gThreads)
  obtain ⟨l, hl, -⟩ := updateThreads_eq ((matchFaces_th hr).trans (initMatches_th g.gThreads))
  simp only [matchThreads, hfps, ok_bind, hhist, hthr, he, hr, hl]
  exact ⟨_, rfl⟩

namespace MatchEffect

variable {m : Matched F} (e : MatchEffect cfg g cur frameId m)

include e

theorem addrs : m.sh.gThreads.addrs = g.gThreads.addrs := by
  rw [NodeList.addrs, e.nodes]
  exact updatedNodes_addrs e.inStep

theorem jobs_eq : m.sh.jobs = g.jobs := by rw [e.others]

theorem saved_eq : m.sh.gThreadsBeingSerialized = g.gThreadsBeingSerialized := by rw [e.others]

theorem counter_eq : m.sh.processedFrameCounter = g.processedFrameCounter := by rw [e.others]

/-- A face that part 1 keeps carries this frame's number. -/
theorem face_frameId {mt : Matching F} (hm : mt ∈ m.ms) (hf : mt.found = true) :
    mt.face.frameId = frameId := by
  obtain ⟨entry, -, hrun⟩ := e.entry
  rcases (matchFaces_face hrun).1 mt hm hf with h | h
  · obtain ⟨r, -, hr⟩ := List.mem_map.mp h
    rw [← hr]
  · rw [initMatches_found h] at hf
    cases hf

theorem inputFaces_frameId {f : Face} (hf : f ∈ m.inputFaces) : f.frameId = frameId := by
  obtain ⟨entry, -, hrun⟩ := e.entry
  obtain ⟨r, -, hr⟩ := List.mem_map.mp ((matchFaces_face hrun).2 hf)
  rw [← hr]

/-- The thread at `a` after part 2. -/
theorem get? {a : Nat} {th : FDFaceThread} (h : g.gThreads.get? a = some th) :
    ∃ mt ∈ m.ms, mt.th = a ∧ m.sh.gThreads.get? a = some (updateCounters mt th) := by
  obtain ⟨mt, hmt, ha, hu⟩ := mem_updatedNodes e.inStep (NodeList.get?_eq_some_iff.mp h)
  exact ⟨mt, hmt, ha, NodeList.get?_eq_some_iff.mpr (e.nodes ▸ hu)⟩

theorem of_get? {a : Nat} {th' : FDFaceThread} (h : m.sh.gThreads.get? a = some th') :
    ∃ th, ∃ mt ∈ m.ms, g.gThreads.get? a = some th ∧ mt.th = a ∧ th' = updateCounters mt th := by
  rw [NodeList.get?_eq_some_iff, e.nodes] at h
  obtain ⟨th, mt, hth, hmt, ha, hu⟩ := of_mem_updatedNodes e.inStep h
  exact ⟨th, mt, hmt, NodeList.get?_eq_some_iff.mpr hth, ha, hu⟩

end MatchEffect

/-- `processThreads2` after part 2, as one update of the lists. -/
def afterDeletion (cfg : Config F) (m : Matched F) : Shared F :=
  { m.sh with
    gThreads := (m.sh.gThreads.filterVals fun th => !exceedsLimit cfg th).pushAll
      ((m.inputFaces.zipIdx m.sh.gThreads.fresh).map fun p => seededThread p.2 p.1)
    gThreadsBeingSerialized := m.sh.gThreadsBeingSerialized.pushAll
      (m.sh.gThreads.vals.filter (exceedsLimit cfg))
    jobs := m.sh.jobs ++ startedJobs m.sh.gThreadsBeingSerialized.fresh
      (m.sh.gThreads.vals.filter (exceedsLimit cfg)) }

omit [FloatOps F] in
/-- The threads after the deletion loop and part 3: those of part 2 under the
limits, and the seeded ones at new addresses. -/
theorem afterDeletion_get? {m : Matched F} {a : Nat} {th : FDFaceThread} :
    (afterDeletion cfg m).gThreads.get? a = some th ↔
      (m.sh.gThreads.get? a = some th ∧ exceedsLimit cfg th = false) ∨
        ∃ i f, m.inputFaces[i]? = some f ∧ a = m.sh.gThreads.fresh + i ∧ th = seededThread a f := by
  rw [NodeList.get?_eq_some_iff, afterDeletion, NodeList.mem_pushAll_nodes,
    NodeList.mem_filterVals_nodes, NodeList.get?_eq_some_iff]
  refine or_congr (by simp) ?_
  simp only [List.getElem?_map, List.getElem?_zipIdx, Option.map_eq_some_iff, Option.map_map,
    NodeList.filterVals_fresh, Function.comp_def]
  constructor
  · rintro ⟨i, ⟨f, hf, rfl⟩, rfl⟩
    exact ⟨i, f, hf, rfl, rfl⟩
  · rintro ⟨i, f, hf, rfl, rfl⟩
    exact ⟨i, ⟨f, hf, rfl⟩, rfl⟩

omit [FloatOps F] in
theorem afterDeletion_fresh {m : Matched F} : (afterDeletion cfg m).gThreads.fresh =
    m.sh.gThreads.fresh + m.inputFaces.length := by
  simp [afterDeletion]

theorem processThreads2_ok (h : processThreads2 cfg g cur frameId now = .ok g') :
    ∃ m, matchThreads cfg g cur frameId now = .ok m ∧ MatchEffect cfg g cur frameId m ∧
      g' = afterDeletion cfg m := by
  obtain ⟨m, hm, h⟩ := bind_eq_ok.mp h
  obtain ⟨-, e⟩ := matchThreads_ok hm
  rw [deleteThreads_eq cfg (e.inStep.trans e.addrs.symm), ok_bind] at h
  cases h
  refine ⟨m, hm, e, ?_⟩
  simp only [seedThreads_eq, afterDeletion]
  rfl

theorem processThreads2_of_matchThreads {m : Matched F}
    (hm : matchThreads cfg g cur frameId now = .ok m) :
    processThreads2 cfg g cur frameId now = .ok (afterDeletion cfg m) := by
  obtain ⟨-, e⟩ := matchThreads_ok hm
  simp only [processThreads2, hm, ok_bind, deleteThreads_eq cfg (e.inStep.trans e.addrs.symm),
    seedThreads_eq]
  rfl

end

end PlanetariumFD
