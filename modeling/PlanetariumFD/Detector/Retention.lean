import PlanetariumFD.Detector.ExportWalk

/-!
# Retention of the frames that stored threads need

A thread's frames stay in the history as long as no pass of the pruner outlives
the emptiness it was started on: with both lists empty `getMinFrameToKeep` returns
`-1`, the pass goes on with `INT_MAX`, and a thread made meanwhile is not seen.
-/

namespace PlanetariumFD

open Outcome Transition Floor

section
variable {F : Type} [FloatOps F] {cfg : Config F} {s t : System F} {a : Action} {lo : Nat}

/-- Every frame from a stored thread's first face to its last is in the history, with
its image. -/
def Retained (s : System F) : Prop :=
  ∀ th ∈ allThreads s.sh, ∀ f l, th.pFaces.head? = some f → th.pFaces.getLast? = some l →
    ∀ id, f.frameId ≤ id → id ≤ l.frameId →
      ∃ entry ∈ s.sh.gHistory.vals, entry.frameId = id ∧ entry.pFrame ≠ none

/-- The step is not an erase, by a pass with `INT_MAX` for a floor, of an entry that
`getMinFrameToKeep` would now keep. -/
def RespectsFloor (s : System F) (a : Action) : Prop :=
  a = .pruner → ∀ itr ls entry m, s.pruner = .erasing (some itr) intMax ls →
    s.sh.gHistory.get? itr = some entry → entry.frameId < intMax → minListSize < ls →
      getMinFrameToKeep s.sh = .ok m → m = -1 ∨ entry.frameId < m

/-- The floor of the pass that the pruner is in. -/
def PrunerPC.minFrameToKeep : PrunerPC → Option Int
  | .erasing _ m _ => some m
  | _ => none

omit [FloatOps F] in
theorem respectsFloor_iff {s : System F} {a : Action} :
    RespectsFloor s a ↔ (a = .pruner → ∀ itr ∈ nextErased s,
      s.pruner.minFrameToKeep = some intMax → ∀ m ∈ (getMinFrameToKeep s.sh).toOption,
        m = -1 ∨ ∀ entry ∈ s.sh.gHistory.get? itr, entry.frameId < m) := by
  have hok : ∀ m, m ∈ (getMinFrameToKeep s.sh).toOption ↔ getMinFrameToKeep s.sh = .ok m := by
    intro m
    cases getMinFrameToKeep s.sh <;> simp [Except.toOption]
  simp only [RespectsFloor, mem_nextErased, hok]
  constructor
  · rintro h ha itr ⟨m', ls, entry, hpc, hget, hbelow, hlong⟩ hmax m hm
    rw [hpc] at hmax
    obtain rfl : m' = intMax := Option.some.inj hmax
    refine (h ha itr ls entry m hpc hget hbelow hlong hm).imp_right fun hlt entry' hentry' => ?_
    obtain rfl : entry = entry' := Option.some.inj (hget.symm.trans hentry')
    exact hlt
  · intro h ha itr ls entry m hpc hget hbelow hlong hm
    refine (h ha itr ⟨intMax, ls, entry, hpc, hget, hbelow, hlong⟩ ?_ m hm).imp_right
      fun hall => hall entry hget
    rw [hpc]
    rfl

instance (s : System F) (a : Action) : Decidable (RespectsFloor s a) :=
  decidable_of_iff _ respectsFloor_iff.symm

/-- A floor read from a thread holds for all stored faces, however old it is. -/
def FloorHolds (s : System F) : Prop :=
  ∀ itr m ls, s.pruner = .erasing itr m ls → m = intMax ∨
    (m ≤ s.sh.processedFrameCounter ∧ ∀ f ∈ facesIn s.sh, m ≤ f.frameId)

omit [FloatOps F] in
theorem isFloor_storedIds_iff {g : Shared F} {clock m : Int} :
    IsFloor (storedIds g) clock m ↔ m ≤ clock ∧ ∀ f ∈ facesIn g, m ≤ f.frameId := by
  constructor
  · exact fun h => ⟨h.reached, fun f hf => h.below (frameId_mem_storedIds hf)⟩
  · rintro ⟨hclock, hall⟩
    refine ⟨hclock, ?_⟩
    rintro id ⟨f, hf, rfl⟩
    exact hall f hf

theorem FloorHolds.after (H : FloorHolds s) (S : StoredFaces s) (e : StepEffect cfg s a t) :
    FloorHolds t := by
  intro itr m ls hpc
  by_cases ha : a = .pruner
  · cases e with
    | frame pc lt => cases ha
    | wait pc =>
      dsimp only at hpc
      split at hpc <;> cases hpc
    | @getMin ls m itr pc min front =>
      cases hpc
      by_cases hm : m = -1
      · exact .inl (if_pos hm)
      · -- the value just read is the least number
        have hfloor := IsFloor.of_isLeast S.counter_mem_upperBounds (S.isLeast min hm)
        rw [if_neg hm]
        exact .inr (isFloor_storedIds_iff.mp hfloor)
    | erase pc get below long =>
      cases hpc
      exact H _ _ _ pc
    | endPass pc get stop => cases hpc
    | refresh pc => cases hpc
    | _ => cases ha
  · -- the others leave the pass alone, and the floor it holds stays one
    rw [e.pruner_eq ha] at hpc
    obtain hmax | hfloor := H _ _ _ hpc
    · exact .inl hmax
    · apply Or.inr
      rw [← isFloor_storedIds_iff] at hfloor ⊢
      exact hfloor.after e.counter_le.1 (S.mem_storedIds e)

omit [FloatOps F] in
theorem floorHolds_start (cfg : Config F) (now : Int) : FloorHolds (start cfg now) :=
  fun _ _ _ hpc => by cases hpc

/-! ## One step -/

omit [FloatOps F] in
/-- Retention says where the history starts. -/
theorem HistoryShape.retained_iff (h : HistoryShape s lo) (S : StoredFaces s) :
    Retained s ↔ ∀ f ∈ facesIn s.sh, (lo : Int) < f.frameId := by
  constructor
  · intro hret f hf
    obtain ⟨th, hth, hmem⟩ := List.mem_flatMap.mp hf
    have hfaces := S.of_allThreads hth
    have hhead := List.head?_eq_some_head hfaces.nonempty
    have hlast := List.getLast?_eq_some_getLast hfaces.nonempty
    have hle := hfaces.head_le hhead (List.getLast_mem hfaces.nonempty)
    -- the first face's own frame is there, and all others are later
    obtain ⟨entry, hentry, hid, -⟩ := hret th hth _ _ hhead hlast _ (le_refl _) hle
    obtain ⟨b, hb⟩ := NodeList.mem_vals_iff.mp hentry
    have hshape := h.of_get? (NodeList.get?_eq_some_iff.mpr hb)
    have := hfaces.head_le hhead hmem
    omega
  · intro hkept th hth f l hf hl id hfid hidl
    have hfaces := S.of_allThreads hth
    have hlo := hkept f (List.mem_flatMap.mpr ⟨th, hth, List.mem_of_head? hf⟩)
    have hn := (hfaces.within l (List.mem_of_getLast? hl)).2
    have hidlo : (lo : Int) < id := by omega
    have hidn : id ≤ s.sh.processedFrameCounter := by omega
    obtain ⟨b, entry, hget, hid, hframe, -⟩ := h.entry_of_frameId hidlo hidn
    exact ⟨entry, NodeList.mem_vals_iff.mpr ⟨b, NodeList.get?_eq_some_iff.mp hget⟩, hid, hframe⟩

/-- The frames of all stored threads lie past the start of the history. -/
def Kept (s : System F) : Prop := ∃ lo, HistoryShape s lo ∧ ∀ f ∈ facesIn s.sh, (lo : Int) < f.frameId

theorem Kept.after (K : Kept s) (h1 : 1 ≤ cfg.maxThreadHistorySize) (S : StoredFaces s)
    (H : FloorHolds s) (hc : RespectsFloor s a) (e : StepEffect cfg s a t) : Kept t := by
  obtain ⟨lo, h, hkept⟩ := K
  obtain ht | ⟨ht, rfl, m, ls, hpc, hbelow, hlong, -⟩ := h.after e
  · refine ⟨lo, ht, fun f hf => ?_⟩
    obtain hold | hnew := S.mem_facesIn e hf
    · exact hkept f hold
    · -- a new face is of the newest frame
      obtain ⟨th, hth, hmem⟩ := List.mem_flatMap.mp hf
      have hpos := (((S.after h1 e).of_allThreads hth).within f hmem).1
      have hlo := h.lo_lt (by omega)
      omega
  · refine ⟨lo + 1, ht, fun f hf => ?_⟩
    rw [e.facesIn_eq] at hf
    push_cast
    obtain rfl | ⟨-, hfloor⟩ := H _ _ _ hpc
    · -- the floor is `INT_MAX`: the entry is below the floor there is now
      have hlt : lo < s.sh.gHistory.fresh := e.fresh_eq rfl ▸ ht.spans.1
      obtain ⟨entry, hget, hid, -⟩ := h.get? (le_refl lo) hlt
      obtain ⟨th, hth, hmem⟩ := List.mem_flatMap.mp hf
      have hne : ∀ th ∈ allThreads s.sh, th.pFaces ≠ [] := fun th hth =>
        (S.of_allThreads hth).nonempty
      have hhead := List.head?_eq_some_head (hne th hth)
      have hmax : entry.frameId < intMax := by omega
      have hfirst := lt_of_getMinFrameToKeep hne
        (fun th hth f hf => zero_le_one.trans ((S.of_allThreads hth).within f hf).1) hmax
        (fun m hm => hc rfl lo ls entry m hpc hget hmax hlong hm) hth hhead
      have := (S.of_allThreads hth).head_le hhead hmem
      omega
    · have := hfloor f hf
      omega

/-! ## Runs -/

theorem kept_of_run (h1 : 1 ≤ cfg.maxThreadHistorySize) {now : Int} {as : List Action}
    (h : run (step cfg) (start cfg now) as = .ok s)
    (hc : Throughout (step cfg) RespectsFloor (start cfg now) as) : Kept s := by
  have hstart : run (step cfg) (start cfg now) [] = .ok (start cfg now) := rfl
  obtain ⟨-, lo, hshape, -⟩ := historyShape_of_run hstart
  have hkept : Kept (start cfg now) := ⟨lo, hshape, fun f hf => by cases hf⟩
  refine (run_invariant_of_throughout (P := fun s => StoredFaces s ∧ FloorHolds s ∧ Kept s) ?_
    ⟨storedFaces_start cfg now, floorHolds_start cfg now, hkept⟩ h hc).2.2
  rintro u b v ⟨S, H, K⟩ hb hst
  have e := step_cases hst
  exact ⟨S.after h1 e, H.after S e, K.after h1 S H hb e⟩

/-- An erase that does not respect the floor takes away a frame that a thread needs. -/
theorem not_retained_of_step (h1 : 1 ≤ cfg.maxThreadHistorySize) {now : Int} {as : List Action}
    (hs : run (step cfg) (start cfg now) as = .ok s) (hst : step cfg s a = .ok t)
    (hc : ¬RespectsFloor s a) : ¬Retained t := by
  unfold RespectsFloor at hc
  push Not at hc
  obtain ⟨rfl, itr, ls, entry, m, hpc, hget, hmax, hlong, hm, hne, hle⟩ := hc
  obtain ⟨-, lo, h, -⟩ := historyShape_of_run hs
  have S := storedFaces_of_run h1 hs
  have hfits := h.pruner
  rw [hpc] at hfits
  obtain rfl : itr = lo := Option.some.inj hfits.2.2
  have hid := (h.of_get? hget).2.2.1
  obtain ⟨-, hlong', hshape, -⟩ | ⟨hguard, -⟩ := (h.erasing_step hpc).2 t hst
  · have St := S.after h1 (step_cases hst)
    rw [hshape.retained_iff St]
    intro hkept
    -- the thread that gives the floor is still there
    obtain ⟨f, hf, hfm⟩ := (S.isLeast hm hne).1
    have := hkept f ((step_cases hst).facesIn_eq ▸ hf)
    push_cast at this
    omega
  · exact absurd ⟨by omega, hlong⟩ hguard

/-- In a run every state keeps the frames its threads need, and lets every job go on,
iff every erase respects the floor. -/
theorem retention_iff (cfg : Config F) (h1 : 1 ≤ cfg.maxThreadHistorySize) {now : Int}
    {as : List Action} (h : run (step cfg) (start cfg now) as = .ok s) :
    (∀ t, Visits (step cfg) (start cfg now) as t → Retained t ∧ JobsSucceed cfg t) ↔
      Throughout (step cfg) RespectsFloor (start cfg now) as := by
  constructor
  · intro hall p hp
    obtain ⟨bs, cs, has, hbs⟩ := mem_trail hp
    by_contra hc
    rw [has, List.append_cons, run_append_iff] at h
    obtain ⟨t, ht, -⟩ := h
    have hst : step cfg p.1 p.2 = .ok t := by
      obtain ⟨u, hu, hst⟩ := run_snoc_iff.mp ht
      obtain rfl : p.1 = u := Except.ok.inj (hbs.symm.trans hu)
      exact hst
    have hvisits : Visits (step cfg) (start cfg now) as t :=
      ⟨bs ++ [p.2], ⟨cs, by rw [has]; simp⟩, ht⟩
    exact not_retained_of_step h1 hbs hst hc (hall t hvisits).1
  · rintro hc t ⟨bs, ⟨cs, rfl⟩, ht⟩
    have S := storedFaces_of_run h1 ht
    obtain ⟨lo, hshape, hkept⟩ := kept_of_run h1 ht ((throughout_append_iff ht cs).mp hc).1
    exact ⟨(hshape.retained_iff S).mpr hkept,
      jobsSucceed_of_kept h1 (jobsOwn_of_run ht) S hshape (jobsWalk_of_run h1 ht) hkept⟩

end

/-- A pass is started while no thread is there, a thread lives from frame 22 on, and the pass
erases frames 1 to 3. Then the thread is saved. -/
def passBelowFloor : List Action :=
  (List.replicate 21 quietFrame).flatten ++ ([.pruner, .pruner] ++
    ([.frame oneDetection, .main, .main, .main] ++
      ((List.replicate 4 (trackingFrame oneDetection)).flatten ++
        (List.replicate 3 .pruner ++
          ((List.replicate 4 (trackingFrame noDetection)).flatten ++ [.job 0 true])))))

theorem retention_iff_passBelowFloor : ∃ s,
    run (step (Config.declared : Config ℚ)) (start Config.declared 0) passBelowFloor = .ok s ∧
    (∀ entry ∈ s.sh.gHistory.vals, 3 < entry.frameId) ∧
    ∀ t, Visits (step (Config.declared : Config ℚ)) (start Config.declared 0) passBelowFloor t →
      Retained t ∧ JobsSucceed Config.declared t := by
  have hruns : returns (fun s => decide (∀ entry ∈ s.sh.gHistory.vals, 3 < entry.frameId))
      (run (step (Config.declared : Config ℚ)) (start Config.declared 0) passBelowFloor) = true := by
    decide +kernel
  obtain ⟨s, hs, herased⟩ := exists_of_returns hruns
  have hc : Throughout (step (Config.declared : Config ℚ)) RespectsFloor (start Config.declared 0)
      passBelowFloor := by decide +kernel
  exact ⟨s, hs, of_decide_eq_true herased, (retention_iff Config.declared (by decide) hs).mpr hc⟩

/-- The pruner sees no thread after 21 frames and starts a pass. Before its first erase a
thread lives from frame 22 on and is handed to a job, and then the pass goes on. -/
def staleFloorRun : List Action :=
  (List.replicate 21 quietFrame).flatten ++ ([.pruner, .pruner] ++
    ([.frame oneDetection, .main, .main, .main] ++
      ((List.replicate 19 (trackingFrame oneDetection)).flatten ++
        ((List.replicate 4 (trackingFrame noDetection)).flatten ++
          (.job 0 true :: List.replicate 22 .pruner)))))

/-- The pass erases frame 22, and the job's lookup of its first face fails. -/
theorem needed_frame_erased : 1 ≤ (Config.declared : Config ℚ).maxThreadHistorySize ∧
    ∃ s, run (step (Config.declared : Config ℚ)) (start Config.declared 0) staleFloorRun = .ok s ∧
      step Config.declared s (.job 0 true) = .error (.fault .assertFrameId) ∧
      ¬(Retained s ∧ JobsSucceed Config.declared s) ∧ ¬Retained s := by
  refine ⟨by decide, ?_⟩
  have hruns : returns (fun s =>
      decide (((step Config.declared s (.job 0 true)).map fun _ => ()) =
        .error (.fault .assertFrameId) ∧
        (∃ th ∈ allThreads s.sh, th.pFaces.head?.map Face.frameId = some 22 ∧
          th.pFaces.getLast?.map Face.frameId = some 41) ∧
        ∀ entry ∈ s.sh.gHistory.vals, entry.frameId ≠ 22))
      (run (step (Config.declared : Config ℚ)) (start Config.declared 0) staleFloorRun) = true := by
    decide +kernel
  obtain ⟨s, hs, hdec⟩ := exists_of_returns hruns
  obtain ⟨hfault, ⟨th, hth, hhead, hlast⟩, hgone⟩ := of_decide_eq_true hdec
  obtain ⟨f, hf, hfid⟩ := Option.map_eq_some_iff.mp hhead
  obtain ⟨l, hl, hlid⟩ := Option.map_eq_some_iff.mp hlast
  have hnot : ¬Retained s := by
    intro hret
    obtain ⟨entry, hentry, hid, -⟩ := hret th hth f l hf hl 22 (by omega) (by omega)
    exact hgone entry hentry hid
  exact ⟨s, hs, map_eq_error.mp hfault, fun h => hnot h.1, hnot⟩

end PlanetariumFD
