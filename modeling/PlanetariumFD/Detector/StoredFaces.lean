import PlanetariumFD.Foundation.Floor
import PlanetariumFD.Detector.System

/-!
# The faces of stored threads

What a step does to the threads of `gThreads` and `gThreads_beingSerialized`, the
order of the frame numbers in their face lists, and the floor that
`getMinFrameToKeep` reads off their first faces.
-/

namespace PlanetariumFD

open Outcome Transition Floor

/-! ## One thread -/

/-- The numbers in a face list increase and are those of frames up to `n`. The list may
be empty. -/
structure FacesInOrder (n : Int) (th : FDFaceThread) : Prop where
  increasing : th.pFaces.Pairwise fun f f' => f.frameId < f'.frameId
  within : ∀ f ∈ th.pFaces, 1 ≤ f.frameId ∧ f.frameId ≤ n

/-- The face list of a stored thread when frame `n` is the last one matched. -/
structure FacesUpTo (n : Int) (th : FDFaceThread) : Prop where
  nonempty : th.pFaces ≠ []
  increasing : th.pFaces.Pairwise fun f f' => f.frameId < f'.frameId
  within : ∀ f ∈ th.pFaces, 1 ≤ f.frameId ∧ f.frameId ≤ n

namespace FacesInOrder

section
variable {F : Type} {cfg : Config F} {n n' : Int} {th : FDFaceThread}

theorem mono (h : FacesInOrder n th) (hle : n ≤ n') : FacesInOrder n' th where
  increasing := h.increasing
  within f hf := ⟨(h.within f hf).1, (h.within f hf).2.trans hle⟩

theorem pruned (h : FacesInOrder n th) : FacesInOrder n (th.pruned cfg) where
  increasing := h.increasing.sublist FDFaceThread.pruned_suffix.sublist
  within f hf := h.within f (FDFaceThread.pruned_suffix.subset hf)

theorem seeded {ident : Nat} {f : Face} (hf : f.frameId = n) (hn : 1 ≤ n) :
    FacesInOrder n (seededThread ident f) where
  increasing := List.pairwise_singleton _ _
  within g hg := by
    obtain rfl := List.mem_singleton.mp hg
    omega

/-- Part 2 appends a face of the frame that is being matched, if any. -/
theorem updated (h : FacesInOrder (n - 1) th) (hn : 1 ≤ n) {mt : Matching F}
    (hid : mt.found = true → mt.face.frameId = n) : FacesInOrder n (updateCounters mt th) := by
  cases hf : mt.found with
  | false =>
    have hfaces : (updateCounters mt th).pFaces = th.pFaces := by
      rw [updateCounters_pFaces, hf]
      exact List.append_nil _
    have h' := h.mono (sub_one_lt n).le
    exact ⟨hfaces ▸ h'.increasing, hfaces ▸ h'.within⟩
  | true =>
    have hfaces : (updateCounters mt th).pFaces = th.pFaces ++ [mt.face] := by
      rw [updateCounters_pFaces, hf]
      rfl
    have hface := hid hf
    refine ⟨?_, fun f hm => ?_⟩
    · rw [hfaces, List.pairwise_append]
      refine ⟨h.increasing, List.pairwise_singleton _ _, fun f hm f' hm' => ?_⟩
      obtain rfl := List.mem_singleton.mp hm'
      have := h.within f hm
      omega
    · rw [hfaces, List.mem_append, List.mem_singleton] at hm
      obtain hm | rfl := hm
      · have := h.within f hm
        omega
      · omega

theorem facesUpTo (h : FacesInOrder n th) (hne : th.pFaces ≠ []) : FacesUpTo n th :=
  ⟨hne, h.increasing, h.within⟩

end

end FacesInOrder

theorem updateCounters_ne_nil {F : Type} {th : FDFaceThread} (m : Matching F)
    (h : th.pFaces ≠ []) : (updateCounters m th).pFaces ≠ [] := by
  rw [updateCounters_pFaces]
  exact List.append_ne_nil_of_left_ne_nil h _

namespace FacesUpTo

section
variable {n n' : Int} {th : FDFaceThread}

theorem inOrder (h : FacesUpTo n th) : FacesInOrder n th := ⟨h.increasing, h.within⟩

theorem mono (h : FacesUpTo n th) (hle : n ≤ n') : FacesUpTo n' th :=
  (h.inOrder.mono hle).facesUpTo h.nonempty

/-- The first face is the oldest. -/
theorem head_le (h : FacesUpTo n th) {f f' : Face} (hf : th.pFaces.head? = some f)
    (hf' : f' ∈ th.pFaces) : f.frameId ≤ f'.frameId := by
  obtain ⟨fs, hfs⟩ := List.head?_eq_some_iff.mp hf
  have hinc := h.increasing
  rw [hfs] at hinc hf'
  obtain rfl | hm := List.mem_cons.mp hf'
  · exact le_refl _
  · exact ((List.pairwise_cons.mp hinc).1 f' hm).le

end

end FacesUpTo

/-! ## What a step does to the threads -/

section
variable {F : Type} [FloatOps F] {cfg : Config F} {s t : System F} {a : Action}

/-- Where a thread of `gThreads` comes from. -/
inductive LiveOrigin (cfg : Config F) (s : System F) (a : Action) (p : Nat × FDFaceThread) : Prop
  | same (h : p ∈ s.sh.gThreads.nodes)
  | updated {th} {mt : Matching F} (h : (p.1, th) ∈ s.sh.gThreads.nodes) (eq : p.2 = updateCounters mt th)
    (act : a = .main) (pushed : ∃ cur now, s.main = .pushed cur now)
    (face : mt.found = true → mt.face.frameId = s.sh.processedFrameCounter)
  | seeded {ms faces f} (pc : s.main = .deleting [] ms faces) (h : f ∈ faces)
    (eq : p.2 = seededThread p.1 f)
  | pruned {th} (h : (p.1, th) ∈ s.sh.gThreads.nodes) (eq : p.2 = th.pruned cfg)

/-- Where a thread of `gThreads_beingSerialized` comes from. -/
inductive SavedOrigin (cfg : Config F) (s : System F) (p : Nat × FDFaceThread) : Prop
  | same (h : p ∈ s.sh.gThreadsBeingSerialized.nodes)
  | moved {itr} (h : (itr, p.2) ∈ s.sh.gThreads.nodes)
  | pruned {th} (h : (p.1, th) ∈ s.sh.gThreadsBeingSerialized.nodes) (eq : p.2 = th.pruned cfg)

theorem StepEffect.live_origin (e : StepEffect cfg s a t) {p : Nat × FDFaceThread}
    (hp : p ∈ t.sh.gThreads.nodes) : LiveOrigin cfg s a p := by
  cases e with
  | frame pc lt =>
    dsimp only at hp
    rw [recorded_gThreads] at hp
    exact .same hp
  | @process cur now m pc eff =>
    dsimp only at hp
    rw [eff.nodes] at hp
    obtain ⟨th, mt, hth, hmt, -, heq⟩ := of_mem_updatedNodes eff.inStep hp
    exact .updated hth heq rfl ⟨cur, now, pc⟩ (eff.face_frameId hmt)
  | delete pc get past get' => exact .same (NodeList.mem_erase_nodes.mp hp).1
  | seed pc =>
    obtain hp | ⟨i, hi, heq⟩ := NodeList.mem_pushAll_nodes.mp hp
    · exact .same hp
    · rw [List.getElem?_map, List.getElem?_zipIdx, Option.map_map, Option.map_eq_some_iff] at hi
      obtain ⟨f, hf, hi⟩ := hi
      exact .seeded pc (List.mem_of_getElem? hf) (by rw [← hi, heq]; rfl)
  | finish pc prune =>
    obtain rfl | ⟨-, rfl⟩ := prune
    · exact .same hp
    · obtain ⟨th, hth, heq⟩ := NodeList.mem_alter_nodes.mp hp
      exact .pruned hth heq
  | _ => exact .same hp

theorem StepEffect.saved_origin (e : StepEffect cfg s a t) {p : Nat × FDFaceThread}
    (hp : p ∈ t.sh.gThreadsBeingSerialized.nodes) : SavedOrigin cfg s p := by
  cases e with
  | frame pc lt =>
    dsimp only at hp
    rw [recorded_gThreadsBeingSerialized] at hp
    exact .same hp
  | process pc eff =>
    dsimp only at hp
    rw [eff.saved_eq] at hp
    exact .same hp
  | delete pc get past get' =>
    obtain hp | rfl := NodeList.mem_pushBack_nodes.mp hp
    · exact .same hp
    · exact .moved (NodeList.get?_eq_some_iff.mp get')
  | @jobStart k isOk j th todo job pc get prune =>
    obtain ⟨th', hth', heq⟩ := NodeList.mem_alter_nodes.mp hp
    split at heq
    · next hat =>
      rw [hat] at hth'
      obtain rfl := NodeList.node_unique hth' (NodeList.get?_eq_some_iff.mp get)
      exact .pruned (hat ▸ hth') heq
    · exact .same (by rw [← heq] at hth'; exact hth')
  | jobErase job pc get => exact .same (NodeList.mem_erase_nodes.mp hp).1
  | _ => exact .same hp

/-! ## Every state -/

/-- The newest frame a live thread can have a face of: `processThreads2` has not
matched the pushed frame yet. -/
def matchedUpTo (s : System F) : Int :=
  match s.main with
  | .pushed _ _ => s.sh.processedFrameCounter - 1
  | _ => s.sh.processedFrameCounter

/-- What holds of the two lists under any settings. -/
structure OrderedFaces (s : System F) : Prop where
  counter : 0 ≤ s.sh.processedFrameCounter
  begun : s.main ≠ .idle → 1 ≤ s.sh.processedFrameCounter
  leftOver : ∀ itrs ms faces, s.main = .deleting itrs ms faces →
    ∀ f ∈ faces, f.frameId = s.sh.processedFrameCounter
  live : ∀ p ∈ s.sh.gThreads.nodes, FacesInOrder (matchedUpTo s) p.2
  saved : ∀ p ∈ s.sh.gThreadsBeingSerialized.nodes,
    FacesInOrder s.sh.processedFrameCounter p.2

structure StoredFaces (s : System F) : Prop where
  counter : 0 ≤ s.sh.processedFrameCounter
  begun : s.main ≠ .idle → 1 ≤ s.sh.processedFrameCounter
  leftOver : ∀ itrs ms faces, s.main = .deleting itrs ms faces →
    ∀ f ∈ faces, f.frameId = s.sh.processedFrameCounter
  live : ∀ p ∈ s.sh.gThreads.nodes, FacesUpTo (matchedUpTo s) p.2
  saved : ∀ p ∈ s.sh.gThreadsBeingSerialized.nodes, FacesUpTo s.sh.processedFrameCounter p.2

omit [FloatOps F] in
theorem matchedUpTo_le (s : System F) : matchedUpTo s ≤ s.sh.processedFrameCounter := by
  unfold matchedUpTo
  split <;> omega

/-- The frame counter and the frames matched never go back. -/
theorem StepEffect.counter_le (e : StepEffect cfg s a t) :
    s.sh.processedFrameCounter ≤ t.sh.processedFrameCounter ∧ matchedUpTo s ≤ matchedUpTo t := by
  cases e with
  | frame pc lt => simp [matchedUpTo, pc]
  | process pc eff =>
    simp only [matchedUpTo, pc, eff.counter_eq]
    omega
  | keep pc get under => simp [matchedUpTo, pc]
  | delete pc get past get' => simp [matchedUpTo, pc]
  | seed pc => simp [matchedUpTo, pc]
  | finish pc prune => simp [matchedUpTo, pc]
  | _ => exact ⟨le_refl _, le_refl _⟩

theorem StepEffect.matchedUpTo_of_pushed (e : StepEffect cfg s .main t) {cur : Nat} {now : Int}
    (hpc : s.main = .pushed cur now) : matchedUpTo t = s.sh.processedFrameCounter := by
  cases e with
  | process pc eff => exact eff.counter_eq
  | keep pc get under => cases hpc.symm.trans pc
  | delete pc get past get' => cases hpc.symm.trans pc
  | seed pc => cases hpc.symm.trans pc
  | finish pc prune => cases hpc.symm.trans pc

/-- A frame is counted before the main thread leaves its idle state. -/
theorem StepEffect.begun (e : StepEffect cfg s a t) (counter : 0 ≤ s.sh.processedFrameCounter)
    (begun : s.main ≠ .idle → 1 ≤ s.sh.processedFrameCounter) (ht : t.main ≠ .idle) :
    1 ≤ t.sh.processedFrameCounter := by
  by_cases hs : s.main = .idle
  · cases e with
    | frame pc lt =>
      dsimp only
      rw [recorded_processedFrameCounter]
      omega
    | process pc eff => cases hs.symm.trans pc
    | keep pc get under => cases hs.symm.trans pc
    | delete pc get past get' => cases hs.symm.trans pc
    | seed pc => cases hs.symm.trans pc
    | finish pc prune => cases hs.symm.trans pc
    | _ => exact absurd hs ht
  · exact (begun hs).trans e.counter_le.1

theorem OrderedFaces.after (S : OrderedFaces s) (e : StepEffect cfg s a t) : OrderedFaces t := by
  obtain ⟨hcount, hmatched⟩ := e.counter_le
  refine ⟨S.counter.trans hcount, e.begun S.counter S.begun, fun itrs ms faces ht f hf => ?_,
    fun p hp => ?_, fun p hp => ?_⟩
  · cases e with
    | frame pc lt => cases ht
    | process pc eff =>
      cases ht
      dsimp only
      rw [eff.inputFaces_frameId hf, eff.counter_eq]
    | keep pc get under =>
      cases ht
      exact S.leftOver _ _ _ pc f hf
    | delete pc get past get' =>
      cases ht
      exact S.leftOver _ _ _ pc f hf
    | seed pc => cases ht
    | finish pc prune => cases ht
    | _ => exact S.leftOver _ _ _ ht f hf
  · cases e.live_origin hp with
    | same h => exact (S.live p h).mono hmatched
    | updated h eq act pushed face =>
      -- the thread was matched up to the frame before
      obtain ⟨cur, now, hpc⟩ := pushed
      subst act
      have hold := S.live _ h
      simp only [matchedUpTo, hpc] at hold
      rw [eq, e.matchedUpTo_of_pushed hpc]
      exact hold.updated (S.begun (by simp [hpc])) face
    | seeded pc h eq =>
      have hn : matchedUpTo s = s.sh.processedFrameCounter := by simp only [matchedUpTo, pc]
      rw [eq]
      apply FacesInOrder.mono (n := s.sh.processedFrameCounter)
      · exact FacesInOrder.seeded (S.leftOver _ _ _ pc _ h) (S.begun (by simp [pc]))
      · exact hn ▸ hmatched
    | pruned h eq =>
      rw [eq]
      exact (S.live _ h).pruned.mono hmatched
  · cases e.saved_origin hp with
    | same h => exact (S.saved p h).mono hcount
    | moved h => exact (S.live _ h).mono ((matchedUpTo_le s).trans hcount)
    | pruned h eq =>
      rw [eq]
      exact (S.saved _ h).pruned.mono hcount

omit [FloatOps F] in
theorem orderedFaces_start (cfg : Config F) (now : Int) : OrderedFaces (start cfg now) where
  counter := le_refl _
  begun h := absurd rfl h
  leftOver _ _ _ h := by cases h
  live _ h := by cases h
  saved _ h := by cases h

theorem orderedFaces_of_run {now : Int} {as : List Action}
    (h : run (step cfg) (start cfg now) as = .ok s) : OrderedFaces s :=
  run_invariant (fun _ _ _ S hst => S.after (step_cases hst)) (orderedFaces_start cfg now) h

omit [FloatOps F] in
theorem forall_allThreads {g : Shared F} {P : FDFaceThread → Prop}
    (live : ∀ p ∈ g.gThreads.nodes, P p.2)
    (saved : ∀ p ∈ g.gThreadsBeingSerialized.nodes, P p.2) : ∀ th ∈ allThreads g, P th := by
  intro th hth
  obtain hv | hv := List.mem_append.mp hth
  · obtain ⟨b, hb⟩ := NodeList.mem_vals_iff.mp hv
    exact live _ hb
  · obtain ⟨b, hb⟩ := NodeList.mem_vals_iff.mp hv
    exact saved _ hb

omit [FloatOps F] in
theorem OrderedFaces.of_allThreads (S : OrderedFaces s) {th : FDFaceThread}
    (hth : th ∈ allThreads s.sh) : FacesInOrder s.sh.processedFrameCounter th :=
  forall_allThreads (fun p hp => (S.live p hp).mono (matchedUpTo_le s)) S.saved th hth

omit [FloatOps F] in
theorem StoredFaces.ordered (S : StoredFaces s) : OrderedFaces s where
  counter := S.counter
  begun := S.begun
  leftOver := S.leftOver
  live p hp := (S.live p hp).inOrder
  saved p hp := (S.saved p hp).inOrder

omit [FloatOps F] in
theorem OrderedFaces.stored (S : OrderedFaces s)
    (live : ∀ p ∈ s.sh.gThreads.nodes, p.2.pFaces ≠ [])
    (saved : ∀ p ∈ s.sh.gThreadsBeingSerialized.nodes, p.2.pFaces ≠ []) : StoredFaces s where
  counter := S.counter
  begun := S.begun
  leftOver := S.leftOver
  live p hp := (S.live p hp).facesUpTo (live p hp)
  saved p hp := (S.saved p hp).facesUpTo (saved p hp)

/-- With a limit that leaves a face, no list becomes empty. -/
theorem StoredFaces.after (S : StoredFaces s) (h1 : 1 ≤ cfg.maxThreadHistorySize)
    (e : StepEffect cfg s a t) : StoredFaces t := by
  refine (S.ordered.after e).stored (fun p hp => ?_) (fun p hp => ?_)
  · cases e.live_origin hp with
    | same h => exact (S.live p h).nonempty
    | updated h eq act pushed face =>
      rw [eq]
      exact updateCounters_ne_nil _ (S.live _ h).nonempty
    | seeded pc h eq =>
      rw [eq]
      exact List.cons_ne_nil _ _
    | pruned h eq =>
      rw [eq]
      exact FDFaceThread.pruned_ne_nil h1 (S.live _ h).nonempty
  · cases e.saved_origin hp with
    | same h => exact (S.saved p h).nonempty
    | moved h => exact (S.live _ h).nonempty
    | pruned h eq =>
      rw [eq]
      exact FDFaceThread.pruned_ne_nil h1 (S.saved _ h).nonempty

omit [FloatOps F] in
theorem storedFaces_start (cfg : Config F) (now : Int) : StoredFaces (start cfg now) :=
  (orderedFaces_start cfg now).stored (fun _ h => by cases h) fun _ h => by cases h

theorem storedFaces_of_run (h1 : 1 ≤ cfg.maxThreadHistorySize) {now : Int} {as : List Action}
    (h : run (step cfg) (start cfg now) as = .ok s) : StoredFaces s :=
  run_invariant (fun _ _ _ S hst => S.after h1 (step_cases hst)) (storedFaces_start cfg now) h

omit [FloatOps F] in
theorem StoredFaces.of_allThreads (S : StoredFaces s) {th : FDFaceThread}
    (hth : th ∈ allThreads s.sh) : FacesUpTo s.sh.processedFrameCounter th :=
  forall_allThreads (fun p hp => (S.live p hp).mono (matchedUpTo_le s)) S.saved th hth

/-! ## The pruning floor -/

/-- All faces stored in the two lists. -/
def facesIn (g : Shared F) : List Face := (allThreads g).flatMap FDFaceThread.pFaces

omit [FloatOps F] in
theorem mem_facesIn_iff {g : Shared F} {f : Face} : f ∈ facesIn g ↔
    (∃ p ∈ g.gThreads.nodes, f ∈ p.2.pFaces) ∨
      ∃ p ∈ g.gThreadsBeingSerialized.nodes, f ∈ p.2.pFaces := by
  have hlist : ∀ l : NodeList FDFaceThread, f ∈ l.vals.flatMap FDFaceThread.pFaces ↔
      ∃ p ∈ l.nodes, f ∈ p.2.pFaces := by
    intro l
    rw [NodeList.vals, List.flatMap_map, List.mem_flatMap]
  rw [facesIn, allThreads, List.flatMap_append, List.mem_append, hlist, hlist]

theorem StepEffect.facesIn_eq (e : StepEffect cfg s .pruner t) : facesIn t.sh = facesIn s.sh := by
  cases e <;> rfl

/-- A face that a step stores anew is of the current frame. -/
theorem StoredFaces.mem_facesIn (S : StoredFaces s) (e : StepEffect cfg s a t) {f : Face}
    (hf : f ∈ facesIn t.sh) : f ∈ facesIn s.sh ∨ f.frameId = s.sh.processedFrameCounter := by
  obtain ⟨p, hp, hf⟩ | ⟨p, hp, hf⟩ := mem_facesIn_iff.mp hf
  · cases e.live_origin hp with
    | same h => exact .inl (mem_facesIn_iff.mpr (.inl ⟨p, h, hf⟩))
    | updated h eq act pushed face =>
      rw [eq, updateCounters_pFaces, List.mem_append] at hf
      obtain hf | hf := hf
      · exact .inl (mem_facesIn_iff.mpr (.inl ⟨_, h, hf⟩))
      · split at hf
        · next hfound =>
          obtain rfl := List.mem_singleton.mp hf
          exact .inr (face hfound)
        · cases hf
    | seeded pc h eq =>
      rw [eq] at hf
      obtain rfl := List.mem_singleton.mp hf
      exact .inr (S.leftOver _ _ _ pc _ h)
    | pruned h eq =>
      rw [eq] at hf
      exact .inl (mem_facesIn_iff.mpr (.inl ⟨_, h, FDFaceThread.pruned_suffix.subset hf⟩))
  · cases e.saved_origin hp with
    | same h => exact .inl (mem_facesIn_iff.mpr (.inr ⟨p, h, hf⟩))
    | moved h => exact .inl (mem_facesIn_iff.mpr (.inl ⟨_, h, hf⟩))
    | pruned h eq =>
      rw [eq] at hf
      exact .inl (mem_facesIn_iff.mpr (.inr ⟨_, h, FDFaceThread.pruned_suffix.subset hf⟩))

omit [FloatOps F] in
theorem StoredFaces.frameId_le (S : StoredFaces s) {f : Face} (hf : f ∈ facesIn s.sh) :
    f.frameId ≤ s.sh.processedFrameCounter := by
  obtain ⟨p, hp, hf⟩ | ⟨p, hp, hf⟩ := mem_facesIn_iff.mp hf
  · exact ((S.live p hp).within f hf).2.trans (matchedUpTo_le s)
  · exact ((S.saved p hp).within f hf).2

/-- The numbers of the stored faces, marks of the frame counter. -/
def storedIds (g : Shared F) : Set Int := {id | ∃ f ∈ facesIn g, f.frameId = id}

omit [FloatOps F] in
theorem frameId_mem_storedIds {g : Shared F} {f : Face} (hf : f ∈ facesIn g) :
    f.frameId ∈ storedIds g := ⟨f, hf, rfl⟩

omit [FloatOps F] in
theorem StoredFaces.counter_mem_upperBounds (S : StoredFaces s) :
    s.sh.processedFrameCounter ∈ upperBounds (storedIds s.sh) := by
  rintro id ⟨f, hf, rfl⟩
  exact S.frameId_le hf

theorem StoredFaces.mem_storedIds (S : StoredFaces s) (e : StepEffect cfg s a t) :
    ∀ id ∈ storedIds t.sh, id ∈ storedIds s.sh ∨ s.sh.processedFrameCounter ≤ id := by
  rintro id ⟨f, hf, rfl⟩
  obtain hold | hnew := S.mem_facesIn e hf
  · exact .inl (frameId_mem_storedIds hold)
  · exact .inr hnew.ge

/-- The two lists are an accreting store of frame numbers. -/
theorem storedIds_accretes (h1 : 1 ≤ cfg.maxThreadHistorySize) :
    Accretes (step cfg) StoredFaces (fun s => storedIds s.sh)
      fun s => s.sh.processedFrameCounter where
  good S hst := S.after h1 (step_cases hst)
  advance _ hst := (step_cases hst).counter_le.1
  added S hst := S.mem_storedIds (step_cases hst)
  taken S := S.counter_mem_upperBounds

omit [FloatOps F] in
/-- The value read off the first faces is the least number of all stored faces. -/
theorem StoredFaces.isLeast (S : StoredFaces s) {m : Int} (hm : getMinFrameToKeep s.sh = .ok m)
    (hne : m ≠ -1) : IsLeast (storedIds s.sh) m := by
  obtain ⟨-, rfl⟩ | ⟨-, hall, th, hth, f, hf, rfl⟩ := getMinFrameToKeep_ok hm
  · exact absurd rfl hne
  refine ⟨frameId_mem_storedIds (List.mem_flatMap.mpr ⟨th, hth, List.mem_of_head? hf⟩), ?_⟩
  rintro id ⟨f', hf', rfl⟩
  obtain ⟨th', hth', hmem⟩ := List.mem_flatMap.mp hf'
  obtain ⟨f₀, hf₀, hle⟩ := hall th' hth'
  exact hle.trans ((S.of_allThreads hth').head_le hf₀ hmem)

/-- Whenever `getMinFrameToKeep` returns anything but `-1`, that is the least number
of a stored face, and no face stored from then on has a smaller one. -/
theorem getMinFrameToKeep_floor (cfg : Config F) (h1 : 1 ≤ cfg.maxThreadHistorySize) {now m : Int}
    {as : List Action} (hs : run (step cfg) (start cfg now) as = .ok s)
    (hm : getMinFrameToKeep s.sh = .ok m) (hne : m ≠ -1) :
    IsLeast {id | ∃ f ∈ facesIn s.sh, f.frameId = id} m ∧
      ∀ bs t, run (step cfg) s bs = .ok t → ∀ f ∈ facesIn t.sh, m ≤ f.frameId := by
  have S := storedFaces_of_run h1 hs
  have hleast := S.isLeast hm hne
  refine ⟨hleast, fun bs t ht f hf => ?_⟩
  exact (storedIds_accretes h1).run_of_isLeast S hleast ht (frameId_mem_storedIds hf)

end

/-- The first face is seen in the third frame. -/
theorem getMinFrameToKeep_floor_thirdFrame : ∃ s,
    run (step (Config.declared : Config ℚ)) (start Config.declared 0)
      ((List.replicate 2 [.frame noDetection, .main, .main, .main]).flatten ++
        [.frame oneDetection, .main, .main, .main]) = .ok s ∧ getMinFrameToKeep s.sh = .ok 3 ∧
    (∃ f ∈ facesIn s.sh, f.frameId = 3) ∧
    ∀ bs t, run (step (Config.declared : Config ℚ)) s bs = .ok t →
      ∀ f ∈ facesIn t.sh, 3 ≤ f.frameId := by
  have hruns : returns (fun s => returns (fun m => decide (m = 3)) (getMinFrameToKeep s.sh))
      (run (step (Config.declared : Config ℚ)) (start Config.declared 0)
        ((List.replicate 2 [.frame noDetection, .main, .main, .main]).flatten ++
          [.frame oneDetection, .main, .main, .main])) = true := by decide +kernel
  obtain ⟨s, hs, hmin⟩ := exists_of_returns hruns
  obtain ⟨m, hm, hthree⟩ := exists_of_returns hmin
  obtain rfl := of_decide_eq_true hthree
  obtain ⟨hleast, hfloor⟩ := getMinFrameToKeep_floor Config.declared (by decide) hs hm (by decide)
  exact ⟨s, hs, hm, hleast.1, hfloor⟩

end PlanetariumFD
