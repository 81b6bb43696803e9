import PlanetariumFD.Detector.Frames

/-!
# Where the faces of a frame go

Every face occurrence of the input list either chooses one thread or seeds a new
one; a thread keeps one of the faces that chose it. Occurrences are positions in
the input list, threads are positions in `gThreads` at the start of the frame.
-/

namespace PlanetariumFD

open Outcome

section
variable {F : Type} [FloatOps F] {cfg : Config F} {gThreads : NodeList FDFaceThread}

/-- The faces whose choice is no thread, in order. -/
def unmatchedFaces (faces : List Face) (sel : List (Option Nat)) : List Face :=
  ((faces.zip sel).filter fun p => p.2 = none).map Prod.fst

/-- From `m₀` to `m` the element `i` of `matches` was filled by a face that chose
it, or it kept its content; an empty one stays empty only if no face chose it. -/
def KeepsChosen (faces : List Face) (sel : List (Option Nat)) (i : Nat) (m₀ m : Matching F) :
    Prop :=
  (∃ j : Nat, sel[j]? = some (some i) ∧ faces[j]? = some m.face ∧ m.found = true) ∨
    (m.face = m₀.face ∧ m.found = m₀.found ∧
      (m₀.found = true ∨ ∀ j : Nat, sel[j]? ≠ some (some i)))

theorem matchFaces_keeps {faces : List Face} :
    ∀ {ms : List (Matching F)} {r : List (Matching F) × List Face},
      matchFaces cfg gThreads faces ms = .ok r →
      r.2 = unmatchedFaces faces (selections cfg gThreads faces ms) ∧
        (selections cfg gThreads faces ms).length = faces.length ∧
        ∀ (i : Nat) m, r.1[i]? = some m →
          ∃ m₀, ms[i]? = some m₀ ∧
            KeepsChosen faces (selections cfg gThreads faces ms) i m₀ m := by
  induction faces with
  | nil =>
    intro ms r h
    cases h
    exact ⟨rfl, rfl, fun i m hm => ⟨m, hm, .inr ⟨rfl, rfl, .inr (by simp [selections])⟩⟩⟩
  | cons face faces ih =>
    intro ms r h
    obtain ⟨r₁, h₁, h⟩ := bind_eq_ok.mp h
    obtain ⟨r₂, h₂, h⟩ := bind_eq_ok.mp h
    cases h
    obtain ⟨hrest, hlen, hkeep⟩ := ih h₂
    have hsel : selections cfg gThreads (face :: faces) ms =
        r₁.2 :: selections cfg gThreads faces r₁.1 := by
      simp only [selections, h₁]
    rw [hsel]
    refine ⟨?_, by simp [hlen], fun i m hm => ?_⟩
    · dsimp only
      by_cases hn : r₁.2 = none
      · simp [unmatchedFaces, hn, hrest]
      · simp [unmatchedFaces, hn, hrest]
    · obtain ⟨m₁, hm₁, hk⟩ := hkeep i m hm
      obtain ⟨m₀, hm₀, hstep⟩ := (matchFace_ok h₁).2 i m₁ hm₁
      refine ⟨m₀, hm₀, ?_⟩
      rcases hk with ⟨j, hj, hf, hfound⟩ | ⟨hface, hfound, hlast⟩
      · -- a later face fills the element
        exact .inl ⟨j + 1, by simpa using hj, by simpa using hf, hfound⟩
      · rcases hstep with ⟨rfl, hold⟩ | ⟨hi, hf₁, he₁⟩
        · -- this face leaves the element alone
          refine .inr ⟨hface, hfound, ?_⟩
          by_cases hf₀ : m₁.found = true
          · exact .inl hf₀
          · refine .inr fun j => ?_
            cases j with
            | zero => simpa using fun he => hf₀ (hold he)
            | succ j => simpa using hlast.resolve_left hf₀ j
        · -- this face fills the element and no later one does
          exact .inl ⟨0, by simp [hi], by simp [hface, he₁], hfound.trans hf₁⟩

/-- Each face's choice: no thread iff none is near, and otherwise a near one. -/
theorem selections_within {faces : List Face} (hne : ∀ th ∈ gThreads.vals, th.pFaces ≠ []) :
    ∀ {ms : List (Matching F)} {r : List (Matching F) × List Face},
      ms.map Matching.th = gThreads.addrs → matchFaces cfg gThreads faces ms = .ok r →
      ∀ (j : Nat) f, faces[j]? = some f →
        ((selections cfg gThreads faces ms)[j]? = some none ↔
          ∀ th ∈ gThreads.vals, isWithin cfg f th = false) ∧
        ∀ i, (selections cfg gThreads faces ms)[j]? = some (some i) →
          ∃ th, gThreads.vals[i]? = some th ∧ isWithin cfg f th = true := by
  induction faces with
  | nil =>
    intro ms r _ _ j f hf
    cases hf
  | cons face faces ih =>
    intro ms r hms h j f hf
    obtain ⟨r₁, h₁, h⟩ := bind_eq_ok.mp h
    obtain ⟨r₂, h₂, -⟩ := bind_eq_ok.mp h
    have hsel : selections cfg gThreads (face :: faces) ms =
        r₁.2 :: selections cfg gThreads faces r₁.1 := by
      simp only [selections, h₁]
    rw [hsel]
    cases j with
    | zero =>
      obtain rfl : face = f := by simpa using hf
      obtain ⟨best, hbest, hnone, hsome⟩ := chooseThread_total cfg face hne hms
      have hr₁ : r₁.2 = best.2 := by
        simp only [matchFace, hbest, ok_bind] at h₁
        split at h₁
        · next hb =>
          cases h₁
          exact hb.symm
        · next i hb =>
          obtain ⟨ms', -, h₁⟩ := bind_eq_ok.mp h₁
          cases h₁
          exact hb.symm
      simp only [List.getElem?_cons_zero, Option.some.injEq, hr₁]
      exact ⟨hnone, hsome⟩
    | succ j =>
      simp only [List.getElem?_cons_succ] at hf ⊢
      exact ih ((matchFace_ok h₁).1.trans hms) h₂ j f hf

/-- The accounting of a frame. `faces` are the input occurrences, `sel` gives the
thread each of them chose, `kept` the occurrence each thread received. -/
structure Accounted (cfg : Config F) (g : Shared F) (frameId : Int) (faces : List Face)
    (sel : List (Option Nat)) (kept : Nat → Option Nat) (g' : Shared F) : Prop where
  one_choice : sel.length = faces.length
  frame_id : ∀ f ∈ faces, f.frameId = frameId
  unmatched_iff : ∀ (j : Nat) f, faces[j]? = some f →
    (sel[j]? = some none ↔ ∀ th ∈ g.gThreads.vals, isWithin cfg f th = false)
  chosen_within : ∀ (j : Nat) f i, faces[j]? = some f → sel[j]? = some (some i) →
    ∃ th, g.gThreads.vals[i]? = some th ∧ isWithin cfg f th = true
  kept_chose : ∀ i j, kept i = some j → sel[j]? = some (some i)
  kept_iff : ∀ i, i < g.gThreads.size →
    ((kept i).isSome ↔ ∃ j : Nat, sel[j]? = some (some i))
  kept_once : ∀ i i' j, kept i = some j → kept i' = some j → i = i'
  /-- The old threads, each with the face it received, split into survivors and
  threads handed to save jobs; the seeded threads follow the survivors. -/
  threads : ∃ old seeds : List (Nat × FDFaceThread),
    old.length = g.gThreads.size ∧
    (∀ (i : Nat) a th, g.gThreads.nodes[i]? = some (a, th) → ∃ th', old[i]? = some (a, th') ∧
      th'.ident = th.ident ∧
      th'.pFaces = th.pFaces ++ ((kept i).bind fun j => faces[j]?).toList) ∧
    g'.gThreads.nodes = (old.filter fun p => !exceedsLimit cfg p.2) ++ seeds ∧
    g'.gThreadsBeingSerialized.vals =
      g.gThreadsBeingSerialized.vals ++ (old.map Prod.snd).filter (exceedsLimit cfg) ∧
    seeds.map (fun p => p.2.pFaces) = (unmatchedFaces faces sel).map fun f => [f]

omit [FloatOps F] in
theorem updatedNodes_getElem? {nodes : List (Nat × FDFaceThread)} {ms : List (Matching F)} {i : Nat}
    {p : Nat × FDFaceThread} {m : Matching F} (hp : nodes[i]? = some p) (hm : ms[i]? = some m) :
    (updatedNodes nodes ms)[i]? = some (p.1, updateCounters m p.2) := by
  simp [updatedNodes, List.getElem?_zipWith, hp, hm]

omit [FloatOps F] in
theorem seededNodes_pFaces (faces : List Face) (a b : Nat) :
    ((((faces.zipIdx a).map fun p => seededThread p.2 p.1).zipIdx b).map Prod.swap).map
      (fun p => p.2.pFaces) = faces.map fun f => [f] := by
  have hsnd : ∀ ths : List FDFaceThread,
      ((ths.zipIdx b).map Prod.swap).map (fun p => p.2.pFaces) = ths.map (·.pFaces) := by
    intro ths
    rw [List.map_map, ← List.zipIdx_map_fst b ths, List.map_map, List.zipIdx_map_fst]
    rfl
  have hfst : faces.map (fun f => [f]) = ((faces.zipIdx a).map Prod.fst).map fun f => [f] := by
    rw [List.zipIdx_map_fst]
  rw [hsnd, hfst, List.map_map, List.map_map]
  rfl

/-- `kept i` is the occurrence that thread `i` receives: one that chose it, and the one in
`matches`; none only if nobody chose the thread. -/
structure Received (faces : List Face) (sel : List (Option Nat)) (ms : List (Matching F))
    (kept : Nat → Option Nat) : Prop where
  chose : ∀ i j, kept i = some j → sel[j]? = some (some i)
  content : ∀ (i : Nat) mt, ms[i]? = some mt →
    (kept i = none ∧ mt.found = false ∧ ∀ j : Nat, sel[j]? ≠ some (some i)) ∨
      ∃ j, kept i = some j ∧ mt.found = true ∧ faces[j]? = some mt.face

theorem exists_received {faces : List Face} {r : List (Matching F) × List Face}
    (h : matchFaces cfg gThreads faces (initMatches gThreads) = .ok r) :
    ∃ kept, Received faces (selections cfg gThreads faces (initMatches gThreads)) r.1 kept := by
  obtain ⟨-, -, hkeep⟩ := matchFaces_keeps h
  generalize selections cfg gThreads faces (initMatches gThreads) = sel at hkeep ⊢
  have hex : ∀ i, ∃ o : Option Nat, (∀ j, o = some j → sel[j]? = some (some i)) ∧
      ∀ mt, r.1[i]? = some mt →
        (o = none ∧ mt.found = false ∧ ∀ j : Nat, sel[j]? ≠ some (some i)) ∨
          ∃ j, o = some j ∧ mt.found = true ∧ faces[j]? = some mt.face := by
    intro i
    cases hi : r.1[i]? with
    | none => exact ⟨none, by simp, by simp⟩
    | some mt =>
      obtain ⟨m₀, hm₀, ⟨j, hj, hf, hfound⟩ | ⟨-, hfound, hno⟩⟩ := hkeep i mt hi
      · refine ⟨some j, by simpa using hj, fun mt' h => ?_⟩
        cases h
        exact .inr ⟨j, rfl, hfound, hf⟩
      · -- nothing was found before the loop
        have h₀ := initMatches_found (List.mem_of_getElem? hm₀)
        rw [h₀] at hfound
        refine ⟨none, by simp, fun mt' h => ?_⟩
        cases h
        exact .inl ⟨rfl, hfound, hno.resolve_left (by simp [h₀])⟩
  choose kept hchose hkept using hex
  exact ⟨kept, hchose, hkept⟩

section
variable {g : Shared F} {cur : Nat} {frameId : Int} {m : Matched F} {faces : List Face}
  {sel : List (Option Nat)} {kept : Nat → Option Nat}

theorem MatchEffect.exists_matching (e : MatchEffect cfg g cur frameId m) {i : Nat}
    (hi : i < g.gThreads.size) : ∃ mt, m.ms[i]? = some mt := by
  have hsize : m.ms.length = g.gThreads.size := by
    simpa using congrArg List.length e.inStep
  exact ⟨_, List.getElem?_eq_getElem (hsize ▸ hi)⟩

/-- The thread lists after the frame, by what each thread received. -/
theorem MatchEffect.accounted (e : MatchEffect cfg g cur frameId m)
    (hrest : m.inputFaces = unmatchedFaces faces sel) (R : Received faces sel m.ms kept) :
    ∃ old seeds : List (Nat × FDFaceThread),
      old.length = g.gThreads.size ∧
      (∀ (i : Nat) a th, g.gThreads.nodes[i]? = some (a, th) → ∃ th', old[i]? = some (a, th') ∧
        th'.ident = th.ident ∧
        th'.pFaces = th.pFaces ++ ((kept i).bind fun j => faces[j]?).toList) ∧
      (afterDeletion cfg m).gThreads.nodes =
        (old.filter fun p => !exceedsLimit cfg p.2) ++ seeds ∧
      (afterDeletion cfg m).gThreadsBeingSerialized.vals =
        g.gThreadsBeingSerialized.vals ++ (old.map Prod.snd).filter (exceedsLimit cfg) ∧
      seeds.map (fun p => p.2.pFaces) = (unmatchedFaces faces sel).map fun f => [f] := by
  refine ⟨m.sh.gThreads.nodes, _, ?_, ?_, NodeList.pushAll_nodes _ _, ?_, ?_⟩
  · have haddrs := congrArg List.length e.addrs
    rwa [NodeList.addrs_length, NodeList.addrs_length] at haddrs
  · intro i a th hi
    obtain ⟨hlt, -⟩ := List.getElem?_eq_some_iff.mp hi
    obtain ⟨mt, hmt⟩ := e.exists_matching hlt
    refine ⟨_, e.nodes ▸ updatedNodes_getElem? hi hmt, updateCounters_ident _ _, ?_⟩
    rw [updateCounters_pFaces]
    obtain ⟨hnone, hf, -⟩ | ⟨j, hj, hf, hface⟩ := R.content i mt hmt
    · simp [hnone, hf]
    · simp [hj, hf, hface]
  · rw [afterDeletion, NodeList.vals_pushAll, e.others]
    rfl
  · rw [← hrest]
    exact seededNodes_pFaces _ _ _

end

/-- Accounting of the detected faces, for any thread list of nonempty threads and
any sequence of rectangles. The only way not to return is the remainder by a zero
`SAMPLE_TIME_EVERY_X_FRAMES`. -/
theorem processThreads2_accounts (cfg : Config F) (g : Shared F) (cur : Nat) (frameId now : Int)
    (entry : FDHistoryEntry) (hcur : g.gHistory.get? cur = some entry)
    (hne : ∀ th ∈ g.gThreads.vals, th.pFaces ≠ []) :
    let faces := (takeInputFaces frameId entry.pFacesSeq).1
    (cfg.sampleTimeEveryXFrames = 0 ∧
      processThreads2 cfg g cur frameId now = .error .remainderByZero) ∨
    faces.map Face.toCvRect = entry.pFacesSeq.reverse ∧
      ∃ g' kept, processThreads2 cfg g cur frameId now = .ok g' ∧
        Accounted cfg g frameId faces (selections cfg g.gThreads faces (initMatches g.gThreads))
          kept g' := by
  intro faces
  by_cases hs : cfg.sampleTimeEveryXFrames = 0
  · refine .inl ⟨hs, ?_⟩
    simp only [processThreads2, matchThreads, sampleFps, if_pos hs, error_bind]
  · right
    have hfaces : faces = entry.pFacesSeq.reverse.map fun r => { r with frameId := frameId } := by
      simp only [faces, takeInputFaces_eq]
    obtain ⟨m, hm⟩ : ∃ m, matchThreads cfg g cur frameId now = .ok m :=
      matchThreads_total hs (NodeList.get?_isSome_iff.mp (by rw [hcur]; rfl)) hne
    obtain ⟨-, e⟩ := matchThreads_ok hm
    obtain ⟨entry', he, hrun⟩ := e.entry
    obtain rfl : entry = entry' := Option.some.inj (hcur.symm.trans he)
    rw [← hfaces] at hrun
    obtain ⟨hrest, hlen, -⟩ := matchFaces_keeps hrun
    have hwithin := selections_within hne (initMatches_th g.gThreads) hrun
    obtain ⟨kept, R⟩ := exists_received hrun
    refine ⟨by rw [hfaces, List.map_map]; exact List.map_id _, afterDeletion cfg m, kept,
      processThreads2_of_matchThreads hm, hlen, ?_, fun j f hf => (hwithin j f hf).1,
      fun j f i hf => (hwithin j f hf).2 i, R.chose, ?_, ?_, e.accounted hrest R⟩
    · intro f hf
      rw [hfaces] at hf
      obtain ⟨r, -, rfl⟩ := List.mem_map.mp hf
      rfl
    · intro i hi
      obtain ⟨mt, hmt⟩ := e.exists_matching hi
      obtain ⟨hnone, -, hno⟩ | ⟨j, hj, -, -⟩ := R.content i mt hmt
      · simp [hnone, hno]
      · simp only [hj, Option.isSome_some, true_iff]
        exact ⟨j, R.chose i j hj⟩
    · intro i i' j hi hi'
      -- an occurrence chooses one thread
      have := (R.chose i j hi).symm.trans (R.chose i' j hi')
      simpa using this

end

/-- One thread and two detections, the first of them on the thread's last face. -/
def twoDetections : Shared ℚ :=
  { fdInit Config.declared 0 with
    gHistory := NodeList.empty.pushBack ⟨2, none, [⟨0, 0, 4, 4⟩, ⟨500, 500, 4, 4⟩]⟩
    gThreads := NodeList.empty.pushBack (seededThread 0 ⟨⟨0, 0, 4, 4⟩, 1⟩)
    processedFrameCounter := 2 }

theorem processThreads2_accounts_twoDetections :
    let cfg : Config ℚ := Config.declared
    let faces : List Face := [⟨⟨500, 500, 4, 4⟩, 2⟩, ⟨⟨0, 0, 4, 4⟩, 2⟩]
    ∃ g' kept, processThreads2 cfg twoDetections 0 2 0 = .ok g' ∧
      Accounted cfg twoDetections 2 faces
        (selections cfg twoDetections.gThreads faces (initMatches twoDetections.gThreads))
        kept g' := by
  obtain ⟨hzero, -⟩ | ⟨-, h⟩ := processThreads2_accounts Config.declared twoDetections 0 2 0
    ⟨2, none, [⟨0, 0, 4, 4⟩, ⟨500, 500, 4, 4⟩]⟩ (by decide) (by decide)
  · exact absurd hzero (by decide)
  · exact h

end PlanetariumFD
