import PlanetariumFD.Detector.FaceAccounting
import PlanetariumFD.Detector.IdealTracker
import PlanetariumFD.Detector.Progress
import PlanetariumFD.Detector.ThreadsAlone

/-!
# Scenes whose persons stay apart

The detector does not know who is in a rectangle; it goes by distance. As long as two
sightings of one person are near each other, and those of two persons are not, for the
time that a thread can outlive its last face, going by distance is the same as knowing:
`FdProcessFaces` keeps exactly the threads of the tracker that is told the persons.
-/

namespace PlanetariumFD

open Outcome Transition

section
variable {P F : Type} [FloatOps F]

/-- The centre of the face is within `DIST_THRESH` of that of the last face. -/
def isNear (cfg : Config F) (face last : Face) : Bool :=
  FloatOps.le (faceDist face last : F) cfg.distThresh

/-- A frame shows a person once. Within the frames that a live thread can miss, the next
sighting of a person is near the last one, and no sighting of another person is. -/
structure Separated (cfg : Config F) (scene : List (SceneFrame P)) : Prop where
  once : ∀ fr ∈ scene, (fr.seen.map Prod.fst).Nodup
  apart : ∀ s ∈ sightings scene, ∀ s' ∈ sightings scene, s.person ≠ s'.person →
    s.face.frameId < s'.face.frameId →
    s'.face.frameId ≤ s.face.frameId + (cfg.maxAllowedConsecutiveMisses + 1) →
    isNear cfg s'.face s.face = false
  steady : ∀ s ∈ sightings scene, ∀ s' ∈ sightings scene, s.person = s'.person →
    s.face.frameId < s'.face.frameId →
    s'.face.frameId ≤ s.face.frameId + (cfg.maxAllowedConsecutiveMisses + 1) →
    (∀ u ∈ sightings scene, u.person = s.person →
      u.face.frameId ≤ s.face.frameId ∨ s'.face.frameId ≤ u.face.frameId) →
    isNear cfg s'.face s.face = true

variable {cfg : Config F} {scene : List (SceneFrame P)} {fr : SceneFrame P} {T : Tracks P}

theorem Separated.front (h : Separated cfg (scene ++ [fr])) : Separated cfg scene where
  once fr' hfr := h.once fr' (List.mem_append_left _ hfr)
  apart s hs s' hs' := by
    have happart := h.apart s (sightings_snoc ▸ List.mem_append_left _ hs) s'
      (sightings_snoc ▸ List.mem_append_left _ hs')
    exact happart
  steady s hs s' hs' hp hlt hle hbetween := by
    refine h.steady s (sightings_snoc ▸ List.mem_append_left _ hs) s'
      (sightings_snoc ▸ List.mem_append_left _ hs') hp hlt hle fun u hu hup => ?_
    rw [sightings_snoc, List.mem_append] at hu
    obtain hu | hu := hu
    · exact hbetween u hu hup
    · -- the last frame is not between two earlier ones
      have hid := frameId_of_sighting hu
      have hs' := (sightings_upTo hs').2
      push_cast at hid
      exact .inr (by omega)

/-- In the next frame a live thread is near exactly the face of its own person. -/
theorem isWithin_iff_person (hsep : Separated cfg (scene ++ [fr]))
    (h : Follows cfg (sightings scene) T) (hframes : T.frames = scene.length) {s : Sighting P}
    (hs : s ∈ fr.sightings (T.frames + 1)) {t : Track P} (ht : t ∈ T.live) :
    isWithin cfg s.face t.thread = true ↔ s.person = t.person := by
  obtain ⟨f, hf, hid, hlatest⟩ := h.latest t ht
  have hwithin : isWithin cfg s.face t.thread = isNear cfg s.face f := by
    simp only [isWithin, hf, isNear]
  have hmisses := h.under t ht
  simp only [exceedsLimit, Bool.or_eq_false_iff, decide_eq_false_iff_not, not_lt] at hmisses
  have hfirst := h.mine t (List.mem_append_left _ ht) f (List.mem_of_getLast? hf)
  have hupTo : f.frameId ≤ T.frames := h.upTo _ hfirst
  have hnow := frameId_of_sighting hs
  rw [hframes] at hs
  have hold : (⟨t.person, f⟩ : Sighting P) ∈ sightings (scene ++ [fr]) := by
    rw [sightings_snoc]
    exact List.mem_append_left _ hfirst
  have hnew : s ∈ sightings (scene ++ [fr]) := by
    rw [sightings_snoc]
    exact List.mem_append_right _ hs
  rw [hwithin]
  constructor
  · intro hnear
    by_contra hne
    have hfar := hsep.apart _ hold s hnew (Ne.symm hne) (by dsimp only; omega) (by dsimp only; omega)
    rw [hnear] at hfar
    cases hfar
  · intro he
    refine hsep.steady _ hold s hnew he.symm (by dsimp only; omega) (by dsimp only; omega) ?_
    intro u hu hup
    rw [sightings_snoc, List.mem_append] at hu
    obtain hu | hu := hu
    · exact .inl (hlatest u hu hup)
    · have := frameId_of_sighting hu
      push_cast at this
      exact .inr (by omega)

end

/-! ## Part 1 by persons -/

section
variable {P F : Type} [FloatOps F] {cfg : Config F}

omit [FloatOps F] in
theorem updateCounters_eq (m : Matching F) (th : FDFaceThread) :
    updateCounters m th = followed (if m.found then some m.face else none) th := by
  unfold updateCounters
  cases m.found <;> rfl

theorem unmatchedFaces_eq {seen : List (Sighting P)} {p : Sighting P → Bool} :
    ∀ {sel : List (Option Nat)}, sel.length = seen.length →
      (∀ (j : Nat) s, seen[j]? = some s → (sel[j]? = some none ↔ p s = true)) →
      unmatchedFaces (seen.map Sighting.face) sel = (seen.filter p).map Sighting.face := by
  induction seen with
  | nil => exact fun _ _ => rfl
  | cons s seen ih =>
    intro sel hlen h
    cases sel with
    | nil => cases hlen
    | cons o sel =>
      have hrest := ih (Nat.succ.inj hlen) fun j s' hs' => h (j + 1) s' hs'
      have hfirst := h 0 s rfl
      simp only [List.getElem?_cons_zero, Option.some.injEq] at hfirst
      simp only [unmatchedFaces] at hrest ⊢
      rw [List.map_cons, List.zip_cons_cons]
      by_cases ho : o = none
      · rw [List.filter_cons_of_pos (by simpa using ho), List.filter_cons_of_pos (hfirst.mp ho),
          List.map_cons, List.map_cons, hrest]
      · rw [List.filter_cons_of_neg (by simpa using ho),
          List.filter_cons_of_neg (mt hfirst.mpr ho), hrest]

/-- What part 1 has to do with persons: the threads are those of the live tracks, and a
face is within reach of a thread iff it shows the person of its track. -/
structure KnowsPersons (cfg : Config F) (gThreads : NodeList FDFaceThread) (live : List (Track P))
    (seen : List (Sighting P)) : Prop where
  threads : gThreads.vals = live.map Track.thread
  nonempty : ∀ th ∈ gThreads.vals, th.pFaces ≠ []
  within : ∀ s ∈ seen, ∀ t ∈ live, isWithin cfg s.face t.thread = true ↔ s.person = t.person
  once : (seen.map Sighting.person).Nodup
  persons : (live.map Track.person).Nodup

namespace KnowsPersons

variable {gThreads : NodeList FDFaceThread} {live : List (Track P)} {seen : List (Sighting P)}
  {r : List (Matching F) × List Face}

/-- A face chooses the thread of its person, or none if there is no such thread. -/
theorem choice (h : KnowsPersons cfg gThreads live seen)
    (hrun : matchFaces cfg gThreads (seen.map Sighting.face) (initMatches gThreads) = .ok r)
    {j : Nat} {s : Sighting P} (hj : seen[j]? = some s) :
    ((selections cfg gThreads (seen.map Sighting.face) (initMatches gThreads))[j]? = some none ↔
      s.person ∉ live.map Track.person) ∧
    ∀ i t, live[i]? = some t →
      ((selections cfg gThreads (seen.map Sighting.face) (initMatches gThreads))[j]? =
        some (some i) ↔ s.person = t.person) := by
  have hface : (seen.map Sighting.face)[j]? = some s.face := by rw [List.getElem?_map, hj]; rfl
  obtain ⟨hnone, hsome⟩ := selections_within h.nonempty (initMatches_th gThreads) hrun j s.face hface
  have hlen : (selections cfg gThreads (seen.map Sighting.face) (initMatches gThreads)).length =
      seen.length := by
    rw [(matchFaces_keeps hrun).2.1, List.length_map]
  have hs := List.mem_of_getElem? hj
  have hno : (selections cfg gThreads (seen.map Sighting.face) (initMatches gThreads))[j]? =
      some none ↔ s.person ∉ live.map Track.person := by
    rw [hnone, h.threads, List.forall_mem_map, List.mem_map, not_exists]
    refine forall_congr' fun t => ?_
    rw [not_and]
    refine forall_congr' fun ht => ?_
    rw [← Bool.not_eq_true, h.within s hs t ht, eq_comm]
  refine ⟨hno, fun i t hi => ⟨fun hsel => ?_, fun he => ?_⟩⟩
  · obtain ⟨th, hth, hw⟩ := hsome i hsel
    rw [h.threads, List.getElem?_map, hi] at hth
    obtain rfl := Option.some.inj hth
    exact (h.within s hs t (List.mem_of_getElem? hi)).mp hw
  · -- the face chooses some thread, and only one belongs to the person
    obtain ⟨o, ho⟩ : ∃ o, (selections cfg gThreads (seen.map Sighting.face)
        (initMatches gThreads))[j]? = some o :=
      ⟨_, List.getElem?_eq_getElem (by rw [hlen]; exact (List.getElem?_eq_some_iff.mp hj).1)⟩
    cases o with
    | none =>
      exact absurd (he ▸ List.mem_map_of_mem (List.mem_of_getElem? hi)) (hno.mp ho)
    | some i' =>
      obtain ⟨th, hth, hw⟩ := hsome i' ho
      rw [h.threads, List.getElem?_map, Option.map_eq_some_iff] at hth
      obtain ⟨t', hi', rfl⟩ := hth
      have he' := (h.within s hs t' (List.mem_of_getElem? hi')).mp hw
      have hp : (live.map Track.person)[i']? = (live.map Track.person)[i]? := by
        rw [List.getElem?_map, List.getElem?_map, hi, hi', Option.map_some, Option.map_some, ← he,
          ← he']
      have hlt : i' < (live.map Track.person).length := by
        rw [List.length_map]
        exact (List.getElem?_eq_some_iff.mp hi').1
      rw [ho, (List.getElem?_inj hlt h.persons).mp hp]

variable [DecidableEq P] {T : Tracks P}

theorem unmatched (h : KnowsPersons cfg gThreads T.live seen)
    (hrun : matchFaces cfg gThreads (seen.map Sighting.face) (initMatches gThreads) = .ok r) :
    r.2 = (T.strangers seen).map Sighting.face := by
  obtain ⟨hrest, hlen, -⟩ := matchFaces_keeps hrun
  rw [hrest]
  refine unmatchedFaces_eq (by rw [hlen, List.length_map]) fun j s hj => ?_
  rw [(h.choice hrun hj).1, decide_eq_true_eq]

/-- The candidate that part 1 leaves for a thread is the face of its person. -/
theorem candidate (h : KnowsPersons cfg gThreads T.live seen)
    (hrun : matchFaces cfg gThreads (seen.map Sighting.face) (initMatches gThreads) = .ok r)
    {i : Nat} {t : Track P} {mt : Matching F} (hi : T.live[i]? = some t)
    (hmt : r.1[i]? = some mt) :
    (if mt.found then some mt.face else none) = faceOf seen t.person := by
  obtain ⟨kept, R⟩ := exists_received hrun
  obtain ⟨-, hf, hno⟩ | ⟨j, hj, hf, hface⟩ := R.content i mt hmt
  · rw [hf, if_neg Bool.false_ne_true, eq_comm, faceOf_eq_none_iff]
    intro s hs hp
    obtain ⟨j, hj⟩ := List.mem_iff_getElem?.mp hs
    exact hno j (((h.choice hrun hj).2 i t hi).mpr hp)
  · rw [List.getElem?_map, Option.map_eq_some_iff] at hface
    obtain ⟨s, hs, hface⟩ := hface
    have hp := ((h.choice hrun hs).2 i t hi).mp (R.chose i j hj)
    rw [hf, if_pos rfl, ← hp, faceOf_of_mem h.once (List.mem_of_getElem? hs), hface]

theorem updated (h : KnowsPersons cfg gThreads T.live seen)
    (hrun : matchFaces cfg gThreads (seen.map Sighting.face) (initMatches gThreads) = .ok r) :
    (updatedNodes gThreads.nodes r.1).map Prod.snd = (T.follow seen).map Track.thread := by
  have hms := (matchFaces_th hrun).trans (initMatches_th gThreads)
  have hnodes : ∀ i : Nat, (gThreads.nodes[i]?).map Prod.snd = (T.live[i]?).map Track.thread := by
    intro i
    rw [← List.getElem?_map, ← List.getElem?_map, ← h.threads]
    rfl
  apply List.ext_getElem?
  intro i
  have hnode := hnodes i
  have hmatch := congrArg (fun l => l[i]?) hms
  simp only [NodeList.addrs, List.getElem?_map] at hmatch
  simp only [Tracks.follow, List.getElem?_map, updatedNodes, List.getElem?_zipWith]
  cases hp : gThreads.nodes[i]? with
  | none =>
    rw [hp, Option.map_none, eq_comm, Option.map_eq_none_iff] at hnode
    rw [hnode]
    rfl
  | some p =>
    rw [hp, Option.map_some, eq_comm, Option.map_eq_some_iff] at hnode
    obtain ⟨t, ht, hth⟩ := hnode
    rw [hp, Option.map_some, Option.map_eq_some_iff] at hmatch
    obtain ⟨mt, hmt, -⟩ := hmatch
    simp only [hmt, ht, Option.map_some, updateCounters_eq, h.candidate hrun ht hmt, hth]

end KnowsPersons

end

/-! ## Frames and scenes -/

/-- The program keeps the threads of the tracker, in its order. -/
structure Agrees {P F : Type} (g : Shared F) (T : Tracks P) : Prop where
  live : g.gThreads.vals = T.live.map Track.thread
  given : g.gThreadsBeingSerialized.vals = T.given.map Track.thread
  made : g.gThreads.fresh = T.owners.length
  counter : g.processedFrameCounter = T.frames

section
variable {P F : Type} [FloatOps F] [DecidableEq P] {cfg : Config F} {scene : List (SceneFrame P)}
  {fr : SceneFrame P} {T : Tracks P} {g g' : Shared F}

namespace Agrees

omit [DecidableEq P] in
theorem knowsPersons (hA : Agrees g T) (hT : Follows cfg (sightings scene) T)
    (hsep : Separated cfg (scene ++ [fr])) (hframes : T.frames = scene.length) :
    KnowsPersons cfg g.gThreads T.live (fr.sightings (T.frames + 1)) where
  threads := hA.live
  nonempty th hth := by
    rw [hA.live] at hth
    obtain ⟨t, ht, rfl⟩ := List.mem_map.mp hth
    obtain ⟨f, hf, -⟩ := hT.latest t ht
    exact List.ne_nil_of_mem (List.mem_of_getLast? hf)
  within s hs t ht := isWithin_iff_person hsep hT hframes hs ht
  once := by
    rw [sightings_persons, List.nodup_reverse]
    exact hsep.once fr (List.mem_append_right _ (List.mem_singleton_self _))
  persons := hT.persons

omit [DecidableEq P] in
/-- Part 1 of a frame runs on the sightings of that frame. -/
theorem matchFaces_sightings (hA : Agrees g T) {m : Matched F}
    (e : FrameEffect cfg g fr.input m g') :
    matchFaces cfg g.gThreads ((fr.sightings (T.frames + 1)).map Sighting.face)
      (initMatches g.gThreads) = .ok (m.ms, m.inputFaces) := by
  obtain ⟨entry, hentry, hrun⟩ := e.effect.entry
  have hnew : (recorded g fr.input).gHistory.get? g.gHistory.fresh =
      some ⟨g.processedFrameCounter + 1, some (createFrameCopy fr.pImg), fr.seen.map Prod.snd⟩ := by
    rw [recorded_gHistory, NodeList.get?_eq_some_iff, NodeList.mem_pushBack_nodes]
    exact .inr rfl
  obtain rfl := Option.some.inj (hnew.symm.trans hentry)
  rw [recorded_gThreads] at hrun
  rw [sightings_faces, List.map_reverse, ← hA.counter]
  rw [List.map_reverse] at hrun
  exact hrun

theorem frame (hA : Agrees g T) (hT : Follows cfg (sightings scene) T)
    (hsep : Separated cfg (scene ++ [fr])) (hframes : T.frames = scene.length)
    (hstep : processFrame cfg g fr.input = .ok g') : Agrees g' (T.frame cfg fr) := by
  obtain ⟨m, e⟩ := processFrame_effect hstep
  have hrun := hA.matchFaces_sightings e
  have hknows := hA.knowsPersons hT hsep hframes
  have hupdated : m.sh.gThreads.vals = (T.follow (fr.sightings (T.frames + 1))).map Track.thread := by
    rw [← hknows.updated hrun, NodeList.vals, e.effect.nodes, recorded_gThreads]
  have hfaces : m.inputFaces = (T.strangers (fr.sightings (T.frames + 1))).map Sighting.face :=
    hknows.unmatched hrun
  have hfilter : ∀ p : FDFaceThread → Bool, m.sh.gThreads.vals.filter p =
      ((T.follow (fr.sightings (T.frames + 1))).filter fun t => p t.thread).map Track.thread := by
    intro p
    rw [hupdated, List.filter_map]
    rfl
  have hmade : m.sh.gThreads.fresh = T.owners.length := e.matched_fresh.trans hA.made
  have hsaved : m.sh.gThreadsBeingSerialized.vals = T.given.map Track.thread := by
    rw [e.effect.saved_eq, recorded_gThreadsBeingSerialized]
    exact hA.given
  refine ⟨?_, ?_, ?_, ?_⟩
  · have hkept : (m.sh.gThreads.filterVals fun th => !exceedsLimit cfg th).vals =
        m.sh.gThreads.vals.filter fun th => !exceedsLimit cfg th := by
      rw [NodeList.vals, NodeList.vals, List.filter_map]
      rfl
    rw [e.result, afterDeletion, NodeList.vals_pushAll, hkept, hfilter, hfaces, hmade, Tracks.frame,
      List.map_append, Tracks.seeds, List.map_map, List.zipIdx_map, List.map_map]
    rfl
  · rw [e.result, afterDeletion, NodeList.vals_pushAll, hsaved, hfilter, Tracks.frame,
      List.map_append]
  · rw [e.result, afterDeletion_fresh, hmade, hfaces, Tracks.frame, List.length_append,
      List.length_map, List.length_map]
  · rw [e.counter, hA.counter, Tracks.frame]

omit [DecidableEq P] [FloatOps F] in
theorem prune (hA : Agrees g T) (h : pruneThreads cfg g = .ok g') : Agrees g' (T.prune cfg) := by
  obtain ⟨-, ⟨hmod, rfl⟩ | ⟨hmod, -, rfl⟩⟩ := pruneThreads_ok h
  · rw [hA.counter] at hmod
    rw [Tracks.prune, if_neg hmod]
    exact hA
  · rw [hA.counter] at hmod
    rw [Tracks.prune, if_pos hmod]
    refine ⟨?_, hA.given, hA.made, hA.counter⟩
    rw [NodeList.vals_mapVals, hA.live, List.map_map, List.map_map]
    rfl

end Agrees

/-- Going by distance is going by persons: on a separated scene the program keeps the
threads of the tracker that is told who is who. -/
theorem agrees_of_separated (h1 : 1 ≤ cfg.maxThreadHistorySize)
    (hm : 0 ≤ cfg.maxAllowedMissedCount) (hc : 0 ≤ cfg.maxAllowedConsecutiveMisses)
    (hsep : Separated cfg scene) {now : Int}
    (hrun : runFrames cfg now (scene.map SceneFrame.input) = .ok g) :
    Agrees g (idealTracks cfg scene) := by
  induction scene using List.reverseRecOn generalizing g with
  | nil =>
    cases hrun
    exact ⟨rfl, rfl, rfl, rfl⟩
  | append_singleton scene fr ih =>
    rw [List.map_append, List.map_singleton] at hrun
    obtain ⟨g₀, hrun, hstep⟩ := run_snoc_iff.mp hrun
    have hA := ih hsep.front hrun
    have hT := follows_idealTracks h1 hm hc hsep.front.once
    obtain ⟨g₁, g₂, h₁, h₂, h₃⟩ := fdProcessFaces_ok hstep
    have hA₂ := (hA.frame hT hsep (idealTracks_frames scene) h₁).prune h₂
    obtain ⟨-, hshow⟩ := showFaces_ok h₃
    rw [idealTracks_snoc, hshow]
    exact ⟨hA₂.live, hA₂.given, hA₂.made, hA₂.counter⟩

/-- Every separated scene can be processed, and then the threads in `gThreads` and those
handed to save jobs are those of the tracker that is told the persons, with all their
faces and counters. -/
theorem threads_of_separated (hcfg : cfg.Sound) (hm : 0 ≤ cfg.maxAllowedMissedCount)
    (hc : 0 ≤ cfg.maxAllowedConsecutiveMisses) (hsep : Separated cfg scene) (now : Int)
    (hlen : (scene.length : Int) ≤ intMax) :
    ∃ g, runFrames cfg now (scene.map SceneFrame.input) = .ok g ∧
      g.gThreads.vals = (idealTracks cfg scene).live.map Track.thread ∧
      g.gThreadsBeingSerialized.vals = (idealTracks cfg scene).given.map Track.thread := by
  have hframes : ((scene.map SceneFrame.input).length : Int) ≤ intMax := by rwa [List.length_map]
  obtain ⟨g, hg, -⟩ := runFrames_total hcfg now hframes
  have hA := agrees_of_separated hcfg.history hm hc hsep hg
  exact ⟨g, hg, hA.live, hA.given⟩

theorem persons_of_separated (h1 : 1 ≤ cfg.maxThreadHistorySize)
    (hm : 0 ≤ cfg.maxAllowedMissedCount) (hc : 0 ≤ cfg.maxAllowedConsecutiveMisses)
    (hsep : Separated cfg scene) {now : Int}
    (hrun : runFrames cfg now (scene.map SceneFrame.input) = .ok g) :
    ∃ owners : List P, owners.length = g.gThreads.fresh ∧
      (∀ th ∈ allThreads g, ∃ p, owners[th.ident]? = some p ∧
        ∀ f ∈ th.pFaces, ⟨p, f⟩ ∈ sightings scene) ∧
      ((allThreads g).map fun th => owners[th.ident]?).Perm (owners.map some) ∧
      (g.gThreads.vals.map fun th => owners[th.ident]?).Nodup ∧
      ∀ s ∈ sightings scene, s.face.frameId = g.processedFrameCounter →
        ∃ th ∈ g.gThreads.vals, owners[th.ident]? = some s.person ∧
          th.pFaces.getLast? = some s.face := by
  have hA := agrees_of_separated h1 hm hc hsep hrun
  have hT := follows_idealTracks h1 hm hc hsep.once
  generalize idealTracks cfg scene = T at hA hT
  have hall : allThreads g = (T.live ++ T.given).map Track.thread := by
    rw [allThreads, hA.live, hA.given, List.map_append]
  have howner : ∀ ts : List (Track P), (∀ t ∈ ts, t ∈ T.live ++ T.given) →
      (ts.map Track.thread).map (fun th => T.owners[th.ident]?) =
        (ts.map Track.person).map some := by
    intro ts hts
    rw [List.map_map, List.map_map]
    exact List.map_congr_left fun t ht => hT.owned t (hts t ht)
  refine ⟨T.owners, hA.made.symm, fun th hth => ?_, ?_, ?_, fun s hs hid => ?_⟩
  · rw [hall] at hth
    obtain ⟨t, ht, rfl⟩ := List.mem_map.mp hth
    exact ⟨t.person, hT.owned t ht, fun f hf => hT.mine t ht f hf⟩
  · rw [hall, howner _ fun _ ht => ht]
    exact hT.placed.map some
  · rw [hA.live, howner _ fun _ ht => List.mem_append_left _ ht]
    exact hT.persons.map (Option.some_injective P)
  · obtain ⟨t, ht, hp, hf⟩ := hT.present s hs (by rw [hid, hA.counter])
    refine ⟨t.thread, hA.live ▸ List.mem_map_of_mem ht, ?_, hf⟩
    rw [hT.owned t (List.mem_append_left _ ht), hp]

/-- On a separated scene, in every interleaving with the pruner and the save jobs, whenever
the main thread is between two frames no thread mixes two persons, live or being saved, no
person has two live threads, and whoever is in the last frame ends a live thread. -/
theorem persons_of_run (h1 : 1 ≤ cfg.maxThreadHistorySize)
    (hm : 0 ≤ cfg.maxAllowedMissedCount) (hc : 0 ≤ cfg.maxAllowedConsecutiveMisses)
    (hsep : Separated cfg scene) {now : Int} {as : List Action} {s : System F}
    (hrun : run (step cfg) (start cfg now) as = .ok s)
    (hframes : as.filterMap Action.frame? = scene.map SceneFrame.input) (hidle : s.main = .idle) :
    ∃ owners : List P, owners.length = s.sh.gThreads.fresh ∧
      (∀ th ∈ allThreads s.sh, ∃ p, owners[th.ident]? = some p ∧
        ∀ f ∈ th.pFaces, ⟨p, f⟩ ∈ sightings scene) ∧
      (s.sh.gThreads.vals.map fun th => owners[th.ident]?).Nodup ∧
      ∀ u ∈ sightings scene, u.face.frameId = s.sh.processedFrameCounter →
        ∃ th ∈ s.sh.gThreads.vals, owners[th.ident]? = some u.person ∧
          th.pFaces.getLast? = some u.face := by
  obtain ⟨s₀, hsame, hg⟩ := exists_runFrames hrun hidle
  rw [hframes] at hg
  obtain ⟨owners, hlen, hmine, -, honce, hpresent⟩ := persons_of_separated h1 hm hc hsep hg
  rw [hsame.threads] at hlen honce hpresent
  rw [hsame.counter] at hpresent
  refine ⟨owners, hlen, fun th hth => ?_, honce, hpresent⟩
  obtain hth | hth := List.mem_append.mp hth
  · exact hmine th (List.mem_append_left _ (hsame.threads ▸ hth))
  · -- a thread that is being saved was handed over, and at most pruned since
    obtain ⟨k, hk⟩ := NodeList.mem_vals_iff.mp hth
    obtain ⟨th₀, hth₀, hcase⟩ := hsame.saved k th (NodeList.get?_eq_some_iff.mpr hk)
    have hmem : th₀ ∈ allThreads s₀.sh := List.mem_append_right _
      (NodeList.mem_vals_iff.mpr ⟨k, NodeList.get?_eq_some_iff.mp hth₀⟩)
    obtain ⟨p, hp, hfaces⟩ := hmine th₀ hmem
    obtain rfl | rfl := hcase
    · exact ⟨p, hp, hfaces⟩
    · exact ⟨p, hp, fun f hf => hfaces f (FDFaceThread.pruned_suffix.subset hf)⟩

end

/-- Two persons, of whom the first is missed once. -/
def twoPersons : List (SceneFrame Bool) :=
  [⟨⟨640, 480, 8, 3, 0⟩, [(true, ⟨0, 0, 10, 10⟩), (false, ⟨500, 0, 10, 10⟩)], 0⟩,
    ⟨⟨640, 480, 8, 3, 0⟩, [(false, ⟨510, 0, 10, 10⟩)], 0⟩,
    ⟨⟨640, 480, 8, 3, 0⟩, [(false, ⟨520, 0, 10, 10⟩), (true, ⟨20, 0, 10, 10⟩)], 0⟩]

theorem separated_twoPersons : Separated (Config.declared : Config ℚ) twoPersons where
  once := by decide
  apart := by decide +kernel
  steady := by decide +kernel

theorem threads_of_separated_twoPersons :
    ∃ g, runFrames (Config.declared : Config ℚ) 0 (twoPersons.map SceneFrame.input) = .ok g ∧
      g.gThreads.vals = (idealTracks (Config.declared : Config ℚ) twoPersons).live.map Track.thread ∧
      g.gThreadsBeingSerialized.vals =
        (idealTracks (Config.declared : Config ℚ) twoPersons).given.map Track.thread :=
  threads_of_separated ⟨by decide, by decide, by decide⟩ (by decide) (by decide)
    separated_twoPersons 0 (by decide)

/-- The main thread alone, a frame after the other. -/
def twoPersonsActions : List Action :=
  twoPersons.zipIdx.flatMap fun q =>
    .frame q.1.input :: List.replicate (if q.2 = 0 then 3 else 5) .main ++ [Action.pruner]

theorem persons_of_run_twoPersons : ∃ s,
    run (step (Config.declared : Config ℚ)) (start Config.declared 0) twoPersonsActions = .ok s ∧
      ∃ owners : List Bool, owners.length = s.sh.gThreads.fresh ∧
        (s.sh.gThreads.vals.map fun th => owners[th.ident]?).Nodup := by
  have hruns : returns (fun s => s.main.isIdle)
      (run (step (Config.declared : Config ℚ)) (start Config.declared 0) twoPersonsActions) =
        true := by decide +kernel
  obtain ⟨s, hs, hidle⟩ := exists_of_returns hruns
  obtain ⟨owners, hlen, -, honce, -⟩ := persons_of_run (by decide) (by decide) (by decide)
    separated_twoPersons hs (by decide) (MainPC.eq_idle hidle)
  exact ⟨s, hs, owners, hlen, honce⟩

end PlanetariumFD
