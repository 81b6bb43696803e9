import PlanetariumFD.Detector.ThreadShape

/-!
# A tracker that knows who is who

What `processThreads2` is for, said without distances: every rectangle of a frame
shows a person, a face thread belongs to one person, and a frame either shows that
person or counts as a miss. The tracker here is told the person of every rectangle;
it keeps the limits and the pruning of the code.
-/

namespace PlanetariumFD

/-- A frame with the truth about it: who is in each of the detector's rectangles. -/
structure SceneFrame (P : Type) where
  pImg : IplImage
  seen : List (P × CvRect)
  now : Int

structure Sighting (P : Type) where
  person : P
  face : Face
  deriving DecidableEq, Repr

structure Track (P : Type) where
  person : P
  thread : FDFaceThread

/-- The tracks that are live and those handed to save jobs; `owners` lists the persons
of all tracks in the order they were made, so a thread's `ident` is an index of it. -/
structure Tracks (P : Type) where
  live : List (Track P)
  given : List (Track P)
  owners : List P
  frames : Int

section
variable {P : Type}

/-- What the program gets to see of the frame. -/
def SceneFrame.input (fr : SceneFrame P) : FrameInput := ⟨fr.pImg, fr.seen.map Prod.snd, fr.now⟩

/-- The sightings of frame `n`, last rectangle first. -/
def SceneFrame.sightings (fr : SceneFrame P) (n : Int) : List (Sighting P) :=
  fr.seen.reverse.map fun q => ⟨q.1, { q.2 with frameId := n }⟩

/-- All sightings of a scene, whose frames are numbered from one. -/
def sightings (scene : List (SceneFrame P)) : List (Sighting P) :=
  (scene.zipIdx 1).flatMap fun q => q.1.sightings q.2

/-- The record of a thread one frame later, given the face of its person in that frame. -/
def followed : Option Face → FDFaceThread → FDFaceThread
  | some f, th =>
    { th with
      pFaces := th.pFaces ++ [f]
      totalCount := th.totalCount + 1
      nonMissedCount := th.nonMissedCount + 1
      consecutiveMissedCount := 0
      missedCount := if th.missedCount > 0 then th.missedCount - 1 else th.missedCount }
  | none, th =>
    { th with
      totalCount := th.totalCount + 1
      consecutiveMissedCount := th.consecutiveMissedCount + 1
      missedCount := th.missedCount + 1 }

variable [DecidableEq P]

def faceOf (seen : List (Sighting P)) (p : P) : Option Face :=
  (seen.find? fun s => s.person = p).map Sighting.face

namespace Tracks

def follow (T : Tracks P) (seen : List (Sighting P)) : List (Track P) :=
  T.live.map fun t => ⟨t.person, followed (faceOf seen t.person) t.thread⟩

/-- The sightings of persons without a live track. -/
def strangers (T : Tracks P) (seen : List (Sighting P)) : List (Sighting P) :=
  seen.filter fun s => s.person ∉ T.live.map Track.person

def seeds (T : Tracks P) (seen : List (Sighting P)) : List (Track P) :=
  ((T.strangers seen).zipIdx T.owners.length).map fun q =>
    ⟨q.1.person, seededThread q.2 q.1.face⟩

variable {F : Type} (cfg : Config F)

/-- One frame: every live track is followed, those past a limit are handed over, and
every stranger gets a track. -/
def frame (T : Tracks P) (fr : SceneFrame P) : Tracks P :=
  let seen := fr.sightings (T.frames + 1)
  { live := (T.follow seen).filter (fun t => !exceedsLimit cfg t.thread) ++ T.seeds seen
    given := T.given ++ (T.follow seen).filter fun t => exceedsLimit cfg t.thread
    owners := T.owners ++ (T.strangers seen).map Sighting.person
    frames := T.frames + 1 }

omit [DecidableEq P] in
/-- The faces of live tracks are pruned every `PRUNE_FACES_INTERVAL` frames. -/
def prune (T : Tracks P) : Tracks P :=
  if T.frames.tmod cfg.pruneFacesInterval = 0 then
    { T with live := T.live.map fun t => ⟨t.person, t.thread.pruned cfg⟩ }
  else T

end Tracks

def idealTracks {F : Type} (cfg : Config F) (scene : List (SceneFrame P)) : Tracks P :=
  scene.foldl (fun T fr => (T.frame cfg fr).prune cfg) ⟨[], [], [], 0⟩

end

/-! ## Sightings -/

section
variable {P : Type} {scene : List (SceneFrame P)} {fr : SceneFrame P} {n : Int}

theorem sightings_snoc : sightings (scene ++ [fr]) =
    sightings scene ++ fr.sightings (scene.length + 1 : Nat) := by
  rw [sightings, List.zipIdx_append, List.flatMap_append, Nat.add_comm]
  simp only [List.zipIdx_cons, List.zipIdx_nil, List.flatMap_cons, List.flatMap_nil,
    List.append_nil]
  rfl

theorem frameId_of_sighting {s : Sighting P} (h : s ∈ fr.sightings n) : s.face.frameId = n := by
  obtain ⟨q, -, rfl⟩ := List.mem_map.mp h
  rfl

theorem sightings_upTo {s : Sighting P} (h : s ∈ sightings scene) :
    1 ≤ s.face.frameId ∧ s.face.frameId ≤ scene.length := by
  obtain ⟨q, hq, hs⟩ := List.mem_flatMap.mp h
  obtain ⟨hlo, hhi, -⟩ := List.mem_zipIdx hq
  rw [frameId_of_sighting hs]
  omega

theorem sightings_persons : (fr.sightings n).map Sighting.person = (fr.seen.map Prod.fst).reverse := by
  rw [SceneFrame.sightings, List.map_map, ← List.map_reverse]
  rfl

theorem sightings_faces : (fr.sightings n).map Sighting.face =
    (fr.seen.map Prod.snd).reverse.map fun r => { r with frameId := n } := by
  rw [SceneFrame.sightings, List.map_map, ← List.map_reverse, List.map_map]
  rfl

variable [DecidableEq P] {seen : List (Sighting P)} {s : Sighting P}

/-- A person who is seen once is seen in that face. -/
theorem faceOf_of_mem (hnodup : (seen.map Sighting.person).Nodup) (hs : s ∈ seen) :
    faceOf seen s.person = some s.face := by
  induction seen with
  | nil => cases hs
  | cons q seen ih =>
    rw [List.map_cons, List.nodup_cons] at hnodup
    obtain rfl | hs := List.mem_cons.mp hs
    · simp [faceOf]
    · have hne : q.person ≠ s.person := by
        intro he
        exact hnodup.1 (he ▸ List.mem_map_of_mem hs)
      rw [faceOf, List.find?_cons_of_neg (by simpa using hne)]
      exact ih hnodup.2 hs

theorem mem_of_faceOf {p : P} {f : Face} (h : faceOf seen p = some f) : ⟨p, f⟩ ∈ seen := by
  obtain ⟨q, hq, rfl⟩ := Option.map_eq_some_iff.mp h
  obtain rfl : q.person = p := by simpa using List.find?_some hq
  exact List.mem_of_find?_eq_some hq

theorem faceOf_eq_none_iff {p : P} : faceOf seen p = none ↔ ∀ s ∈ seen, s.person ≠ p := by
  simp [faceOf]

end

/-! ## What the tracker keeps -/

/-- The tracks tell the persons apart: every track has the faces of one person, every
person at most one live track, and a live track ends with the last sighting of its
person. -/
structure Follows {P F : Type} (cfg : Config F) (S : List (Sighting P)) (T : Tracks P) : Prop where
  upTo : ∀ s ∈ S, s.face.frameId ≤ T.frames
  persons : (T.live.map Track.person).Nodup
  owned : ∀ t ∈ T.live ++ T.given, T.owners[t.thread.ident]? = some t.person
  placed : ((T.live ++ T.given).map Track.person).Perm T.owners
  mine : ∀ t ∈ T.live ++ T.given, ∀ f ∈ t.thread.pFaces, ⟨t.person, f⟩ ∈ S
  latest : ∀ t ∈ T.live, ∃ f, t.thread.pFaces.getLast? = some f ∧
    f.frameId = T.frames - t.thread.consecutiveMissedCount ∧
    ∀ s ∈ S, s.person = t.person → s.face.frameId ≤ f.frameId
  under : ∀ t ∈ T.live, exceedsLimit cfg t.thread = false
  present : ∀ s ∈ S, s.face.frameId = T.frames →
    ∃ t ∈ T.live, t.person = s.person ∧ t.thread.pFaces.getLast? = some s.face

section
variable {F : Type} {cfg : Config F} {th : FDFaceThread} {o : Option Face} {f : Face}

@[simp] theorem followed_ident : (followed o th).ident = th.ident := by
  cases o <;> rfl

theorem followed_pFaces : (followed o th).pFaces = th.pFaces ++ o.toList := by
  cases o with
  | none => exact (List.append_nil _).symm
  | some f => rfl

theorem followed_some_under (hc : 0 ≤ cfg.maxAllowedConsecutiveMisses)
    (h : exceedsLimit cfg th = false) : exceedsLimit cfg (followed (some f) th) = false := by
  simp only [exceedsLimit, Bool.or_eq_false_iff, decide_eq_false_iff_not, not_lt] at h ⊢
  simp only [followed]
  refine ⟨?_, hc⟩
  split <;> omega

end

section
variable {P F : Type} [DecidableEq P] {cfg : Config F} {S : List (Sighting P)} {T : Tracks P}
  {fr : SceneFrame P} {seen : List (Sighting P)} {t : Track P}

namespace Tracks

theorem mem_follow : t ∈ T.follow seen ↔
    ∃ t₀ ∈ T.live, t = ⟨t₀.person, followed (faceOf seen t₀.person) t₀.thread⟩ := by
  simp only [follow, List.mem_map, eq_comm]

theorem follow_persons (seen : List (Sighting P)) : (T.follow seen).map Track.person = T.live.map Track.person := by
  rw [follow, List.map_map]
  rfl

theorem mem_strangers {s : Sighting P} :
    s ∈ T.strangers seen ↔ s ∈ seen ∧ s.person ∉ T.live.map Track.person := by
  rw [strangers, List.mem_filter, decide_eq_true_eq]

theorem mem_seeds : t ∈ T.seeds seen ↔ ∃ i s, (T.strangers seen)[i]? = some s ∧
    t = ⟨s.person, seededThread (T.owners.length + i) s.face⟩ := by
  rw [seeds, List.mem_map]
  constructor
  · rintro ⟨⟨s, k⟩, hq, rfl⟩
    obtain ⟨i, hi⟩ := List.mem_iff_getElem?.mp hq
    rw [List.getElem?_zipIdx, Option.map_eq_some_iff] at hi
    obtain ⟨s', hs', he⟩ := hi
    obtain ⟨rfl, rfl⟩ := Prod.mk.inj he
    exact ⟨i, s', hs', rfl⟩
  · rintro ⟨i, s, hi, rfl⟩
    refine ⟨(s, T.owners.length + i), List.mem_of_getElem? (i := i) ?_, rfl⟩
    rw [List.getElem?_zipIdx, hi]
    rfl

theorem seeds_persons : (T.seeds seen).map Track.person = (T.strangers seen).map Sighting.person := by
  rw [seeds, List.map_map, ← List.zipIdx_map_fst T.owners.length (T.strangers seen), List.map_map,
    List.zipIdx_map_fst]
  rfl

end Tracks

/-- A track after a frame: handed over before, followed, or made for a stranger. -/
theorem Tracks.mem_frame (ht : t ∈ (T.frame cfg fr).live ++ (T.frame cfg fr).given) :
    t ∈ T.given ∨ t ∈ T.follow (fr.sightings (T.frames + 1)) ∨
      t ∈ T.seeds (fr.sightings (T.frames + 1)) := by
  simp only [Tracks.frame, List.mem_append, List.mem_filter] at ht
  tauto

theorem Tracks.mem_frame_live : t ∈ (T.frame cfg fr).live ↔
    (t ∈ T.follow (fr.sightings (T.frames + 1)) ∧ exceedsLimit cfg t.thread = false) ∨
      t ∈ T.seeds (fr.sightings (T.frames + 1)) := by
  simp only [Tracks.frame, List.mem_append, List.mem_filter, Bool.not_eq_true']

namespace Follows

theorem owned_frame (h : Follows cfg S T)
    (ht : t ∈ (T.frame cfg fr).live ++ (T.frame cfg fr).given) :
    (T.frame cfg fr).owners[t.thread.ident]? = some t.person := by
  have hold : ∀ t ∈ T.live ++ T.given,
      (T.frame cfg fr).owners[t.thread.ident]? = some t.person := by
    intro t ht
    have howned := h.owned t ht
    rw [Tracks.frame, List.getElem?_append_left (List.getElem?_eq_some_iff.mp howned).1]
    exact howned
  obtain ht | ht | ht := Tracks.mem_frame ht
  · exact hold t (List.mem_append_right _ ht)
  · obtain ⟨t₀, ht₀, rfl⟩ := Tracks.mem_follow.mp ht
    rw [followed_ident]
    exact hold t₀ (List.mem_append_left _ ht₀)
  · obtain ⟨i, s, hs, rfl⟩ := Tracks.mem_seeds.mp ht
    show (T.owners ++ _)[T.owners.length + i]? = _
    rw [List.getElem?_append_right (Nat.le_add_right _ _), Nat.add_sub_cancel_left,
      List.getElem?_map, hs]
    rfl

theorem placed_frame (h : Follows cfg S T) :
    (((T.frame cfg fr).live ++ (T.frame cfg fr).given).map Track.person).Perm
      (T.frame cfg fr).owners := by
  have hsplit := (List.filter_append_perm (fun t => exceedsLimit cfg t.thread)
    (T.follow (fr.sightings (T.frames + 1)))).map Track.person
  have hplaced := h.placed
  rw [Tracks.follow_persons] at hsplit
  simp only [Tracks.frame, List.map_append, Tracks.seeds_persons] at hsplit hplaced ⊢
  -- the followed tracks come together, and then the strangers go to the end
  have hfollowed := (List.perm_append_comm.trans hsplit).append_right (T.given.map Track.person)
  refine List.Perm.trans ?_ ((hfollowed.trans hplaced).append_right _)
  grind

theorem mine_frame (h : Follows cfg S T)
    (ht : t ∈ (T.frame cfg fr).live ++ (T.frame cfg fr).given) {f : Face}
    (hf : f ∈ t.thread.pFaces) : ⟨t.person, f⟩ ∈ S ++ fr.sightings (T.frames + 1) := by
  obtain ht | ht | ht := Tracks.mem_frame ht
  · exact List.mem_append_left _ (h.mine t (List.mem_append_right _ ht) f hf)
  · obtain ⟨t₀, ht₀, rfl⟩ := Tracks.mem_follow.mp ht
    rw [followed_pFaces, List.mem_append, Option.mem_toList] at hf
    obtain hf | hf := hf
    · exact List.mem_append_left _ (h.mine t₀ (List.mem_append_left _ ht₀) f hf)
    · exact List.mem_append_right _ (mem_of_faceOf hf)
  · obtain ⟨i, s, hs, rfl⟩ := Tracks.mem_seeds.mp ht
    obtain rfl := List.mem_singleton.mp hf
    exact List.mem_append_right _ (Tracks.mem_strangers.mp (List.mem_of_getElem? hs)).1

theorem persons_frame (h : Follows cfg S T) (once : (fr.seen.map Prod.fst).Nodup) :
    ((T.frame cfg fr).live.map Track.person).Nodup := by
  have hseen : ((fr.sightings (T.frames + 1)).map Sighting.person).Nodup := by
    rw [sightings_persons, List.nodup_reverse]
    exact once
  simp only [Tracks.frame, List.map_append, Tracks.seeds_persons]
  have hkept : (((T.follow (fr.sightings (T.frames + 1))).filter fun t =>
      !exceedsLimit cfg t.thread).map Track.person).Sublist (T.live.map Track.person) := by
    rw [← Tracks.follow_persons (fr.sightings (T.frames + 1))]
    exact List.filter_sublist.map _
  refine List.Nodup.append (h.persons.sublist hkept)
    (hseen.sublist (List.filter_sublist.map _)) fun p hp hp' => ?_
  obtain ⟨s, hs, rfl⟩ := List.mem_map.mp hp'
  exact (Tracks.mem_strangers.mp hs).2 (hkept.subset hp)

theorem latest_frame (h : Follows cfg S T)
    (ht : t ∈ (T.frame cfg fr).live) : ∃ f, t.thread.pFaces.getLast? = some f ∧
      f.frameId = T.frames + 1 - t.thread.consecutiveMissedCount ∧
      ∀ s ∈ S ++ fr.sightings (T.frames + 1), s.person = t.person →
        s.face.frameId ≤ f.frameId := by
  have hupTo : ∀ s ∈ S ++ fr.sightings (T.frames + 1), s.face.frameId ≤ T.frames + 1 := by
    intro s hs
    obtain hs | hs := List.mem_append.mp hs
    · have := h.upTo s hs
      omega
    · exact (frameId_of_sighting hs).le
  obtain ⟨ht, -⟩ | ht := Tracks.mem_frame_live.mp ht
  · obtain ⟨t₀, ht₀, rfl⟩ := Tracks.mem_follow.mp ht
    cases hface : faceOf (fr.sightings (T.frames + 1)) t₀.person with
    | some f =>
      have hid : f.frameId = T.frames + 1 := frameId_of_sighting (mem_of_faceOf hface)
      refine ⟨f, by simp [followed_pFaces], ?_, fun s hs _ => hid ▸ hupTo s hs⟩
      simp only [followed]
      omega
    | none =>
      -- a person who is not seen keeps the last sighting
      obtain ⟨f, hf, hid, hlatest⟩ := h.latest t₀ ht₀
      refine ⟨f, by simpa [followed_pFaces] using hf, ?_, fun s hs hp => ?_⟩
      · simp only [followed]
        omega
      · obtain hs | hs := List.mem_append.mp hs
        · exact hlatest s hs hp
        · exact absurd hp (faceOf_eq_none_iff.mp hface s hs)
  · obtain ⟨i, s, hs, rfl⟩ := Tracks.mem_seeds.mp ht
    have hid := frameId_of_sighting (Tracks.mem_strangers.mp (List.mem_of_getElem? hs)).1
    refine ⟨s.face, rfl, ?_, fun s' hs' _ => hid ▸ hupTo s' hs'⟩
    simp [hid, seededThread, addNewFaceToThread, newThread]

theorem present_frame (h : Follows cfg S T) (hc : 0 ≤ cfg.maxAllowedConsecutiveMisses)
    (once : (fr.seen.map Prod.fst).Nodup) {s : Sighting P}
    (hs : s ∈ S ++ fr.sightings (T.frames + 1)) (hid : s.face.frameId = T.frames + 1) :
    ∃ t ∈ (T.frame cfg fr).live, t.person = s.person ∧
      t.thread.pFaces.getLast? = some s.face := by
  have hseen : ((fr.sightings (T.frames + 1)).map Sighting.person).Nodup := by
    rw [sightings_persons, List.nodup_reverse]
    exact once
  obtain hs | hs := List.mem_append.mp hs
  · have := h.upTo s hs
    omega
  by_cases hp : s.person ∈ T.live.map Track.person
  · -- the person's own track takes the sighting, and a hit passes no limit
    obtain ⟨t₀, ht₀, he⟩ := List.mem_map.mp hp
    have hface := faceOf_of_mem hseen hs
    refine ⟨_, Tracks.mem_frame_live.mpr (.inl ⟨Tracks.mem_follow.mpr ⟨t₀, ht₀, rfl⟩, ?_⟩), he, ?_⟩
    · rw [he, hface]
      exact followed_some_under hc (h.under t₀ ht₀)
    · simp [followed_pFaces, he, hface]
  · obtain ⟨i, hi⟩ := List.mem_iff_getElem?.mp (Tracks.mem_strangers.mpr ⟨hs, hp⟩)
    exact ⟨_, Tracks.mem_frame_live.mpr (.inr (Tracks.mem_seeds.mpr ⟨i, s, hi, rfl⟩)), rfl, rfl⟩

theorem frame (h : Follows cfg S T) (hm : 0 ≤ cfg.maxAllowedMissedCount)
    (hc : 0 ≤ cfg.maxAllowedConsecutiveMisses) (once : (fr.seen.map Prod.fst).Nodup) :
    Follows cfg (S ++ fr.sightings (T.frames + 1)) (T.frame cfg fr) where
  upTo s hs := by
    obtain hs | hs := List.mem_append.mp hs
    · exact (h.upTo s hs).trans (lt_add_one T.frames).le
    · exact (frameId_of_sighting hs).le
  persons := h.persons_frame once
  owned _ ht := h.owned_frame ht
  placed := h.placed_frame
  mine _ ht _ hf := h.mine_frame ht hf
  latest _ ht := h.latest_frame ht
  under t ht := by
    obtain ⟨-, hu⟩ | ht := Tracks.mem_frame_live.mp ht
    · exact hu
    · obtain ⟨i, s, -, rfl⟩ := Tracks.mem_seeds.mp ht
      simp [exceedsLimit, seededThread, addNewFaceToThread, newThread, hm, hc]
  present _ hs hid := h.present_frame hc once hs hid

omit [DecidableEq P] in
theorem prune (h : Follows cfg S T) (h1 : 1 ≤ cfg.maxThreadHistorySize) :
    Follows cfg S (T.prune cfg) := by
  unfold Tracks.prune
  split
  · have hlast : ∀ {th : FDFaceThread} {f : Face}, th.pFaces.getLast? = some f →
        (th.pruned cfg).pFaces.getLast? = some f := by
      intro th f hf
      have hne : th.pFaces ≠ [] := by
        intro he
        rw [he] at hf
        cases hf
      have hpruned := FDFaceThread.pruned_ne_nil h1 hne
      obtain ⟨pre, hpre⟩ : (th.pruned cfg).pFaces <:+ th.pFaces := FDFaceThread.pruned_suffix
      rw [← hpre, List.getLast?_append_of_ne_nil _ hpruned] at hf
      exact hf
    refine ⟨h.upTo, ?_, ?_, ?_, ?_, ?_, ?_, fun s hs hid => ?_⟩
    · simpa [Function.comp_def] using h.persons
    · intro t ht
      obtain ht | ht := List.mem_append.mp ht
      · obtain ⟨t₀, ht₀, rfl⟩ := List.mem_map.mp ht
        exact h.owned t₀ (List.mem_append_left _ ht₀)
      · exact h.owned t (List.mem_append_right _ ht)
    · simpa [Function.comp_def] using h.placed
    · intro t ht f hf
      obtain ht | ht := List.mem_append.mp ht
      · obtain ⟨t₀, ht₀, rfl⟩ := List.mem_map.mp ht
        exact h.mine t₀ (List.mem_append_left _ ht₀) f (FDFaceThread.pruned_suffix.subset hf)
      · exact h.mine t (List.mem_append_right _ ht) f hf
    · intro t ht
      obtain ⟨t₀, ht₀, rfl⟩ := List.mem_map.mp ht
      obtain ⟨f, hf, hid, hlatest⟩ := h.latest t₀ ht₀
      exact ⟨f, hlast hf, hid, hlatest⟩
    · intro t ht
      obtain ⟨t₀, ht₀, rfl⟩ := List.mem_map.mp ht
      exact h.under t₀ ht₀
    · obtain ⟨t₀, ht₀, he, hf⟩ := h.present s hs hid
      exact ⟨_, List.mem_map_of_mem ht₀, he, hlast hf⟩
  · exact h

end Follows

/-! ## Scenes -/

theorem idealTracks_snoc (scene : List (SceneFrame P)) :
    idealTracks cfg (scene ++ [fr]) = ((idealTracks cfg scene).frame cfg fr).prune cfg := by
  rw [idealTracks, List.foldl_append]
  rfl

omit [DecidableEq P] in
@[simp] theorem Tracks.prune_frames : (T.prune cfg).frames = T.frames := by
  unfold Tracks.prune
  split <;> rfl

theorem idealTracks_frames (scene : List (SceneFrame P)) :
    (idealTracks cfg scene).frames = scene.length := by
  induction scene using List.reverseRecOn with
  | nil => rfl
  | append_singleton scene fr ih =>
    rw [idealTracks_snoc, Tracks.prune_frames, Tracks.frame, ih, List.length_append]
    simp

/-- After every scene in which no person is seen twice in a frame. -/
theorem follows_idealTracks (h1 : 1 ≤ cfg.maxThreadHistorySize)
    (hm : 0 ≤ cfg.maxAllowedMissedCount) (hc : 0 ≤ cfg.maxAllowedConsecutiveMisses)
    {scene : List (SceneFrame P)} (once : ∀ fr ∈ scene, (fr.seen.map Prod.fst).Nodup) :
    Follows cfg (sightings scene) (idealTracks cfg scene) := by
  induction scene using List.reverseRecOn with
  | nil =>
    refine ⟨?_, ?_, ?_, .refl _, ?_, ?_, ?_, ?_⟩ <;> simp [idealTracks, sightings]
  | append_singleton scene fr ih =>
    have hframe := (ih fun fr hfr => once fr (List.mem_append_left _ hfr)).frame hm hc
      (once fr (List.mem_append_right _ (List.mem_singleton_self _)))
    rw [idealTracks_frames] at hframe
    rw [idealTracks_snoc, sightings_snoc]
    exact hframe.prune h1

end

end PlanetariumFD
