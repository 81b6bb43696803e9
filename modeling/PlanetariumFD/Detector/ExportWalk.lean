import PlanetariumFD.Detector.Custody

/-!
# The walk of an export

An export walks its faces and the history side by side. Its history iterator never
runs past the next face and never falls behind the first face of its thread, so
what keeps the thread's frames in the history keeps the iterator valid.
-/

namespace PlanetariumFD

open Outcome Transition

/-! ## The faces of an export -/

section
variable {F : Type} [FloatOps F] {cfg : Config F} {n : Int} {th : FDFaceThread} {e : Export}

/-- The faces an export walks increase, start with the thread's first frame and stay
within the frames so far. -/
structure ExportFaces (n : Int) (th : FDFaceThread) (faces : List Face) : Prop where
  increasing : faces.Pairwise fun f f' => f.frameId < f'.frameId
  first : ∃ f f₀, faces.head? = some f ∧ th.pFaces.head? = some f₀ ∧ f.frameId = f₀.frameId
  upTo : ∀ f ∈ faces, f.frameId ≤ n

omit [FloatOps F] in
theorem exportFaces_plain (h : FacesUpTo n th) : ExportFaces n th th.pFaces where
  increasing := h.increasing
  first := ⟨th.pFaces.head h.nonempty, _, List.head?_eq_some_head _, List.head?_eq_some_head _, rfl⟩
  upTo f hf := (h.within f hf).2

/-- The smoothed list has a face for every frame from the first to the last. -/
theorem exportFaces_smoothed (h : FacesUpTo n th) :
    ∃ out, smoothedFaces (F := F) th.pFaces = .ok out ∧ ExportFaces n th out := by
  obtain ⟨out, hout, hsorted, hwithin, hrun⟩ := smoothedFaces_ok (F := F) h.nonempty h.increasing
  have hupTo := (h.within _ (List.getLast_mem h.nonempty)).2
  refine ⟨out, hout, hsorted, ?_, fun f hf => (hwithin f hf).2.trans hupTo⟩
  -- the first number is the first of the span
  have hpos := spanLength_pos h.nonempty h.increasing
  obtain ⟨d, hd⟩ : ∃ d, spanLength th.pFaces = d + 1 := ⟨spanLength th.pFaces - 1, by omega⟩
  cases out with
  | nil => simp [hd] at hrun
  | cons f fs =>
    rw [hd, List.range_succ_eq_map] at hrun
    simp only [List.map_cons, List.cons.injEq] at hrun
    exact ⟨f, _, rfl, List.head?_eq_some_head h.nonempty, by simpa using hrun.1⟩

theorem exportFaces_cases (cfg : Config F) (e : Export) (h : FacesUpTo n th) :
    exportFaces cfg e th = .ok none ∨
      ∃ faces, exportFaces cfg e th = .ok (some faces) ∧ ExportFaces n th faces := by
  cases e with
  | images => exact .inr ⟨_, by simp only [exportFaces, if_neg h.nonempty], exportFaces_plain h⟩
  | video isSmoothVideo =>
    simp only [exportFaces]
    by_cases hshort : (th.pFaces.length : Int) < cfg.minFramesForVideo
    · exact .inl (by rw [if_pos hshort])
    · rw [if_neg hshort, if_neg h.nonempty]
      cases isSmoothVideo with
      | false => exact .inr ⟨_, rfl, exportFaces_plain h⟩
      | true =>
        obtain ⟨out, hout, hfaces⟩ := exportFaces_smoothed (F := F) h
        exact .inr ⟨out, by rw [hout]; rfl, hfaces⟩

end

/-! ## The walk -/

/-- An export's loop between two turns. -/
structure WalkFits (n : Int) (th : FDFaceThread) (historyItr : Option Nat) (faces : List Face) :
    Prop where
  increasing : faces.Pairwise fun f f' => f.frameId < f'.frameId
  upTo : ∀ f ∈ faces, f.frameId ≤ n
  itr : ∀ f fs, faces = f :: fs → ∃ a : Nat, historyItr = some a ∧ (a : Int) + 1 ≤ f.frameId ∧
    ∀ f₀, th.pFaces.head? = some f₀ → f₀.frameId ≤ (a : Int) + 1

def JobPC.Walks (n : Int) (th : FDFaceThread) : JobPC → Prop
  | .walking _ _ historyItr faces _ => WalkFits n th historyItr faces
  | _ => True

/-- Every job that walks does so in step with its own thread. -/
def JobsWalk {F : Type} (s : System F) : Prop :=
  ∀ k j th, s.sh.jobs[k]? = some j → s.sh.gThreadsBeingSerialized.get? k = some th →
    j.pc.Walks s.sh.processedFrameCounter th

theorem JobPC.Walks.mono {n n' : Int} {th : FDFaceThread} {pc : JobPC} (h : pc.Walks n th)
    (hle : n ≤ n') : pc.Walks n' th := by
  cases pc with
  | walking e todo itr faces saved =>
    exact ⟨h.increasing, fun f hf => (h.upTo f hf).trans hle, h.itr⟩
  | _ => trivial

section
variable {F : Type} [FloatOps F] {cfg : Config F} {s t : System F} {a : Action} {lo : Nat}

omit [FloatOps F] in
/-- The iterator after a turn at node `a`, when the next face is of a later frame. -/
theorem HistoryShape.next_fits (h : HistoryShape s lo) {b : Nat} {entry : FDHistoryEntry}
    (hget : s.sh.gHistory.get? b = some entry) {f : Face} (hlt : (b : Int) + 1 < f.frameId)
    (hn : f.frameId ≤ s.sh.processedFrameCounter) : s.sh.gHistory.next? b = some (b + 1) := by
  have hb := h.of_get? hget
  have hcounter := h.counter
  exact h.spans.next?_eq (by omega) (by omega)

theorem exportStep_walks (h : HistoryShape s lo) {pTh : Nat} {th : FDFaceThread} {isOk : Bool}
    {pc pc' : JobPC} (hth : FacesUpTo s.sh.processedFrameCounter th)
    (get : s.sh.gThreadsBeingSerialized.get? pTh = some th)
    (walks : pc.Walks s.sh.processedFrameCounter th)
    (hstep : exportStep cfg s.sh pTh isOk pc = .ok pc') :
    pc'.Walks s.sh.processedFrameCounter th := by
  unfold exportStep at hstep
  split at hstep
  · next e todo =>
    rw [get] at hstep
    obtain rfl | ⟨f, fs, p, hfaces, hp, hid, rfl⟩ := startExport_ok hstep
    · trivial
    · obtain hnone | ⟨faces, hsome, hexport⟩ := exportFaces_cases cfg e hth
      · cases hnone.symm.trans hfaces
      · obtain rfl : faces = f :: fs := by
          cases hsome.symm.trans hfaces
          rfl
        refine ⟨hexport.increasing, hexport.upTo, fun g gs hg => ?_⟩
        obtain ⟨rfl, rfl⟩ := List.cons.inj hg
        obtain ⟨g, f₀, hhead, hfirst, heq⟩ := hexport.first
        obtain rfl : f = g := Option.some.inj hhead
        have hentry := (h.entries p hp).1
        refine ⟨p.1, rfl, by omega, fun g₀ hg₀ => ?_⟩
        obtain rfl : f₀ = g₀ := Option.some.inj (hfirst.symm.trans hg₀)
        omega
  · next e todo itr faces saved =>
    obtain rfl | ⟨f, fs, b, entry, saved', rfl, rfl, hget, hcase⟩ := walkHistory_ok hstep
    · trivial
    · obtain ⟨b', hb', hle, hfirst⟩ := walks.itr f fs rfl
      obtain rfl : b = b' := Option.some.inj hb'
      have hentry := (h.of_get? hget).2.2.1
      obtain ⟨hlt, rfl⟩ | ⟨heq, rfl⟩ := hcase
      · -- the entry's frame has no face
        have hnext := h.next_fits hget (by omega) (walks.upTo f List.mem_cons_self)
        refine ⟨walks.increasing, walks.upTo, fun g gs hg => ⟨b + 1, hnext, ?_, fun f₀ hf₀ => ?_⟩⟩
        · obtain ⟨rfl, -⟩ := List.cons.inj hg
          push_cast
          omega
        · have := hfirst f₀ hf₀
          push_cast
          omega
      · -- the face is taken with its entry, and the next face is later
        have hupTo : ∀ g ∈ fs, g.frameId ≤ s.sh.processedFrameCounter :=
          fun g hg => walks.upTo g (List.mem_cons_of_mem _ hg)
        refine ⟨walks.increasing.of_cons, hupTo, fun g gs hg => ?_⟩
        subst hg
        have hlt := List.rel_of_pairwise_cons walks.increasing List.mem_cons_self
        have hnext := h.next_fits hget (by omega) (hupTo g List.mem_cons_self)
        refine ⟨b + 1, hnext, ?_, fun f₀ hf₀ => ?_⟩
        · push_cast
          omega
        · have := hfirst f₀ hf₀
          push_cast
          omega
  · cases hstep
    exact walks

omit [FloatOps F] in
/-- The `k`-th job was given the `k`-th address. -/
theorem JobsOwn.pTh_eq (J : JobsOwn s) {k : Nat} {j : Job} (h : s.sh.jobs[k]? = some j) :
    j.pTh = k ∧ k < s.sh.gThreadsBeingSerialized.fresh := by
  have hmap : (s.sh.jobs.map Job.pTh)[k]? = some j.pTh := by rw [List.getElem?_map, h]; rfl
  rw [J.pointers, List.getElem?_eq_some_iff] at hmap
  obtain ⟨hlt, heq⟩ := hmap
  rw [List.getElem_range] at heq
  rw [List.length_range] at hlt
  exact ⟨heq.symm, hlt⟩

omit [FloatOps F] in
/-- A step of job `k` that sets its counter to one that walks in step. -/
theorem JobsWalk.set {g : Shared F} {k : Nat} {j : Job} {pc : JobPC} (W : JobsWalk s)
    (count : s.sh.processedFrameCounter = g.processedFrameCounter) (jobs : s.sh.jobs = g.jobs)
    (others : ∀ i ≠ k, g.gThreadsBeingSerialized.get? i = s.sh.gThreadsBeingSerialized.get? i)
    (mine : ∀ th, g.gThreadsBeingSerialized.get? k = some th →
      pc.Walks g.processedFrameCounter th) :
    JobsWalk { s with sh := setJobPC g k j pc } := by
  intro i j' th hj' hth
  simp only [setJobPC] at hj' hth ⊢
  obtain ⟨rfl, rfl⟩ | ⟨hik, hj'⟩ := getElem?_set_cases hj'
  · exact mine th hth
  · rw [others i hik] at hth
    rw [← jobs] at hj'
    exact count ▸ W i j' th hj' hth

theorem JobsWalk.after (W : JobsWalk s) (J : JobsOwn s) (S : StoredFaces s) (h : HistoryShape s lo)
    (e : StepEffect cfg s a t) : JobsWalk t := by
  cases e with
  | frame pc lt =>
    intro k j th hj hth
    simp only [recorded_jobs, recorded_gThreadsBeingSerialized,
      recorded_processedFrameCounter] at hj hth ⊢
    exact (W k j th hj hth).mono (by omega)
  | @process cur now m pc eff =>
    intro k j th hj hth
    simp only [eff.counter_eq, eff.jobs_eq, eff.saved_eq] at hj hth ⊢
    exact W k j th hj hth
  | delete pc get past get' =>
    intro k j th hj hth
    dsimp only at hj hth ⊢
    obtain hj | ⟨-, rfl⟩ := getElem?_snoc_cases hj
    · rw [NodeList.get?_pushBack_of_lt _ (J.pTh_eq hj).2] at hth
      exact W k j th hj hth
    · trivial
  | @jobStart k isOk j th todo job pc get prune =>
    refine W.set rfl rfl (fun i hi => ?_) (fun _ _ => trivial)
    rw [(J.pTh_eq job).1]
    exact NodeList.get?_modify_of_ne _ hi _
  | @jobExport k isOk j pc' job active unstarted undone exports =>
    refine W.set rfl rfl (fun _ _ => rfl) (fun th hth => ?_)
    rw [(J.pTh_eq job).1] at exports
    have hfaces := S.saved _ (NodeList.get?_eq_some_iff.mp hth)
    exact exportStep_walks h hfaces hth (W k j th job hth) exports
  | @jobErase k isOk j th job pc get =>
    refine W.set rfl rfl (fun i hi => ?_) (fun _ _ => trivial)
    rw [(J.pTh_eq job).1]
    exact NodeList.get?_erase_of_ne _ hi
  | _ => exact W

theorem jobsWalk_of_run (h1 : 1 ≤ cfg.maxThreadHistorySize) {now : Int} {as : List Action}
    (h : run (step cfg) (start cfg now) as = .ok s) : JobsWalk s := by
  refine run_induction (P := fun _ s => JobsWalk s) (fun k j th hj => by cases hj) ?_ h
  intro as u b v hu W hst
  obtain ⟨-, lo, hshape, -⟩ := historyShape_of_run hu
  exact W.after (jobsOwn_of_run hu) (storedFaces_of_run h1 hu) hshape (step_cases hst)

/-! ## Jobs whose frames are kept -/

theorem seekHistory_of_mem {q : Nat × FDHistoryEntry} {ps : List (Nat × FDHistoryEntry)}
    (hsorted : ps.Pairwise fun p p' => p.2.frameId < p'.2.frameId) (hq : q ∈ ps) :
    seekHistory q.2.frameId ps = .ok q := by
  induction ps with
  | nil => cases hq
  | cons p ps ih =>
    rw [seekHistory]
    obtain rfl | hmem := List.mem_cons.mp hq
    · rw [if_neg (lt_irrefl _)]
    · rw [if_pos (List.rel_of_pairwise_cons hsorted hmem)]
      exact ih hsorted.of_cons hmem

omit [FloatOps F] in
theorem HistoryShape.nodes_sorted (h : HistoryShape s lo) :
    s.sh.gHistory.nodes.Pairwise fun p p' => p.2.frameId < p'.2.frameId := by
  have hordered := s.sh.gHistory.ordered
  rw [List.pairwise_map] at hordered
  refine hordered.imp_of_mem fun hp hp' hlt => ?_
  have hid := (h.entries _ hp).1
  have hid' := (h.entries _ hp').1
  omega

omit [FloatOps F] in
/-- Frame `id` is in the history iff it is past `lo`. -/
theorem HistoryShape.entry_of_frameId (h : HistoryShape s lo) {id : Int} (hlo : (lo : Int) < id)
    (hn : id ≤ s.sh.processedFrameCounter) :
    ∃ b entry, s.sh.gHistory.get? b = some entry ∧ entry.frameId = id ∧ entry.pFrame ≠ none ∧
      (b : Int) + 1 = id := by
  have hcounter := h.counter
  obtain ⟨b, hb⟩ : ∃ b : Nat, (b : Int) + 1 = id := ⟨(id - 1).toNat, by omega⟩
  obtain ⟨entry, hget, hid, hframe⟩ := h.get? (a := b) (by omega) (by omega)
  exact ⟨b, entry, hget, by omega, hframe, hb⟩

theorem startExport_total (h : HistoryShape s lo) {th : FDFaceThread} (isOk : Bool) (e : Export)
    (todo : List Export) (hth : FacesUpTo s.sh.processedFrameCounter th)
    (kept : ∀ f₀, th.pFaces.head? = some f₀ → (lo : Int) < f₀.frameId) :
    ∃ pc, startExport cfg s.sh th isOk e todo = .ok pc := by
  obtain hnone | ⟨faces, hsome, hexport⟩ := exportFaces_cases cfg e hth
  · exact ⟨_, by rw [startExport, hnone]; rfl⟩
  obtain ⟨f, f₀, hhead, hfirst, heq⟩ := hexport.first
  obtain ⟨fs, rfl⟩ := List.head?_eq_some_iff.mp hhead
  have hlo := kept f₀ hfirst
  obtain ⟨b, entry, hget, hid, hframe, -⟩ := h.entry_of_frameId (heq ▸ hlo)
    (hexport.upTo f List.mem_cons_self)
  have hmem := NodeList.get?_eq_some_iff.mp hget
  have hsize : s.sh.gHistory.size ≠ 0 := by
    intro hzero
    rw [NodeList.size, List.length_eq_zero_iff] at hzero
    rw [hzero] at hmem
    cases hmem
  have hseek : seekHistory f.frameId s.sh.gHistory.nodes = .ok (b, entry) :=
    hid ▸ seekHistory_of_mem h.nodes_sorted hmem
  obtain ⟨img, himg⟩ := Option.ne_none_iff_exists'.mp hframe
  cases e with
  | images =>
    simp only [startExport, hsome, ok_bind, if_neg hsize, hseek, hid, ne_eq, not_true, if_false]
    exact ⟨_, rfl⟩
  | video isSmoothVideo =>
    simp only [startExport, hsome, ok_bind, if_neg hsize, hseek, hid, ne_eq, not_true, if_false, himg]
    split <;> exact ⟨_, rfl⟩

omit [FloatOps F] in
theorem walkHistory_total (h : HistoryShape s lo) {th : FDFaceThread} (isOk : Bool) (e : Export)
    (todo : List Export) {itr : Option Nat} {faces : List Face} (saved : Int)
    (walks : WalkFits s.sh.processedFrameCounter th itr faces) (hne : th.pFaces ≠ [])
    (kept : ∀ f₀, th.pFaces.head? = some f₀ → (lo : Int) < f₀.frameId) :
    ∃ pc, walkHistory cfg s.sh isOk e todo itr faces saved = .ok pc := by
  cases faces with
  | nil => exact ⟨_, rfl⟩
  | cons f fs =>
    obtain ⟨b, rfl, hle, hfirst⟩ := walks.itr f fs rfl
    have hhead := List.head?_eq_some_head hne
    have hlo := kept _ hhead
    have hb := hfirst _ hhead
    have hn := walks.upTo f List.mem_cons_self
    have hcounter := h.counter
    obtain ⟨entry, hget, hid, hframe⟩ := h.get? (a := b) (by omega) (by omega)
    obtain ⟨img, himg⟩ := Option.ne_none_iff_exists'.mp hframe
    simp only [walkHistory, hget]
    split
    · exact ⟨_, rfl⟩
    · rw [if_neg (by omega), himg]
      cases e with
      | images =>
        dsimp only
        split
        · split <;> exact ⟨_, rfl⟩
        · exact ⟨_, rfl⟩
      | video isSmoothVideo =>
        dsimp only
        split <;> exact ⟨_, rfl⟩

theorem exportStep_total (h : HistoryShape s lo) {pTh : Nat} {th : FDFaceThread} (isOk : Bool)
    {pc : JobPC} (hth : FacesUpTo s.sh.processedFrameCounter th)
    (get : s.sh.gThreadsBeingSerialized.get? pTh = some th)
    (walks : pc.Walks s.sh.processedFrameCounter th)
    (kept : ∀ f₀, th.pFaces.head? = some f₀ → (lo : Int) < f₀.frameId) :
    ∃ pc', exportStep cfg s.sh pTh isOk pc = .ok pc' := by
  unfold exportStep
  split
  · rw [get]
    exact startExport_total h isOk _ _ hth kept
  · exact walkHistory_total h isOk _ _ _ walks hth.nonempty kept
  · exact ⟨_, rfl⟩

/-- No step of a job fails: neither a lookup in the history nor anything else. -/
def JobsSucceed (cfg : Config F) (s : System F) : Prop :=
  ∀ k isOk f, step cfg s (.job k isOk) ≠ .error (.fault f)

theorem jobsSucceed_of_kept (h1 : 1 ≤ cfg.maxThreadHistorySize) (J : JobsOwn s) (S : StoredFaces s)
    (h : HistoryShape s lo) (W : JobsWalk s) (kept : ∀ f ∈ facesIn s.sh, (lo : Int) < f.frameId) :
    JobsSucceed cfg s := by
  intro k isOk f hfault
  simp only [step] at hfault
  split at hfault
  · cases hfault
  · next j hj =>
    split at hfault
    · cases hfault
    · next hactive =>
      -- the job finds its thread, whose frames are all in the history
      obtain ⟨th, hth, -⟩ := J.entry (List.mem_of_getElem? hj) hactive
      have hnode := NodeList.get?_eq_some_iff.mp hth
      have hfaces := S.saved _ hnode
      have hkept : ∀ f₀, th.pFaces.head? = some f₀ → (lo : Int) < f₀.frameId := fun f₀ hf₀ =>
        kept f₀ (mem_facesIn_iff.mpr (.inr ⟨_, hnode, List.mem_of_head? hf₀⟩))
      have hwalks := W k j th hj ((J.pTh_eq hj).1 ▸ hth)
      suffices hrun : ∃ g, saveAndDeleteThread cfg s.sh k j isOk = .ok g by
        obtain ⟨g, hg⟩ := hrun
        rw [hg] at hfault
        cases hfault
      unfold saveAndDeleteThread
      split
      · have hmax : 0 ≤ cfg.maxThreadHistorySize := by omega
        rw [startSave, hth]
        simp only [FDFaceThread.pruneFacesList_eq hmax]
        exact ⟨_, rfl⟩
      · rw [deleteThreadFromGThreadsBeingSerialized, hth]
        exact ⟨_, rfl⟩
      · next hpc => exact absurd hpc hactive
      · have hrun : ∃ pc', exportStep cfg s.sh j.pTh isOk j.pc = .ok pc' :=
          exportStep_total h isOk hfaces hth hwalks hkept
        obtain ⟨pc', hpc'⟩ := hrun
        rw [hpc']
        exact ⟨_, rfl⟩

end

end PlanetariumFD
