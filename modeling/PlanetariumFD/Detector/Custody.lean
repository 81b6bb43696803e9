import PlanetariumFD.Detector.PruningPass
import PlanetariumFD.Detector.StoredFaces

/-!
# The custody of face threads

Every thread made by `addNewThread` is live, in the hands of one save job, or
finished. A job's pointer is the address of its own entry, and the entries of
`gThreads_beingSerialized` are those of the unfinished jobs, in order.
-/

namespace PlanetariumFD

open Outcome Transition

/-- Whether the job still has its entry. -/
def Job.holds (j : Job) : Bool := j.pc ≠ .finished

/-- The threads in their three places: `gThreads`, `gThreads_beingSerialized`, finished. -/
def placed {F : Type} (g : Shared F) : List Nat :=
  g.gThreads.vals.map FDFaceThread.ident ++
    (g.gThreadsBeingSerialized.vals.map FDFaceThread.ident ++
      (g.jobs.filter fun j => !j.holds).map Job.ident)

/-- The jobs and the lists. Job `k` was given the `k`-th address. -/
structure JobsOwn {F : Type} (s : System F) : Prop where
  pointers : s.sh.jobs.map Job.pTh = List.range s.sh.gThreadsBeingSerialized.fresh
  owned : (s.sh.gThreadsBeingSerialized.nodes.map fun p => (p.1, p.2.ident)) =
    (s.sh.jobs.filter Job.holds).map fun j => (j.pTh, j.ident)
  handed : (s.sh.gThreads.vals.map FDFaceThread.ident ++ s.sh.jobs.map Job.ident).Perm
    (List.range s.sh.gThreads.fresh)
  inStep : ∀ itrs ms faces, s.main = .deleting itrs ms faces →
    ms.map Matching.th = itrs ∧ itrs.Nodup ∧ ∀ a ∈ itrs, a ∈ s.sh.gThreads.addrs

/-! ## Lists of jobs -/

section
variable {jobs : List Job} {k : Nat} {j : Job} {pc : JobPC}

theorem jobs_split (h : jobs[k]? = some j) : jobs = jobs.take k ++ j :: jobs.drop (k + 1) := by
  obtain ⟨hk, rfl⟩ := List.getElem?_eq_some_iff.mp h
  rw [List.getElem_cons_drop, List.take_append_drop]

theorem jobs_set_split (h : jobs[k]? = some j) (pc : JobPC) :
    jobs.set k { j with pc := pc } = jobs.take k ++ { j with pc := pc } :: jobs.drop (k + 1) := by
  obtain ⟨hk, -⟩ := List.getElem?_eq_some_iff.mp h
  rw [List.set_eq_take_append_cons_drop, if_pos hk]

/-- A new program counter leaves the job's pointer and its thread. -/
theorem map_set_pc {B : Type} (f : Job → B) (hf : ∀ j pc, f { j with pc := pc } = f j)
    (h : jobs[k]? = some j) : (jobs.set k { j with pc := pc }).map f = jobs.map f := by
  conv_rhs => rw [jobs_split h]
  rw [jobs_set_split h, List.map_append, List.map_append, List.map_cons, List.map_cons, hf]

/-- A step of an unfinished job that does not finish it. -/
theorem holders_set_pc (h : jobs[k]? = some j) (hold : j.pc ≠ .finished) (hpc : pc ≠ .finished) :
    ((jobs.set k { j with pc := pc }).filter Job.holds).map (fun j => (j.pTh, j.ident)) =
      (jobs.filter Job.holds).map fun j => (j.pTh, j.ident) := by
  have hj : j.holds = true := decide_eq_true hold
  have hj' : Job.holds { j with pc := pc } = true := decide_eq_true hpc
  conv_rhs => rw [jobs_split h]
  rw [jobs_set_split h, List.filter_append, List.filter_append, List.filter_cons_of_pos hj,
    List.filter_cons_of_pos hj', List.map_append, List.map_append, List.map_cons, List.map_cons]

/-- A job that finishes drops out of the holders. -/
theorem holders_finish (h : jobs[k]? = some j) (hold : j.pc ≠ .finished)
    (hnodup : (jobs.map Job.pTh).Nodup) :
    ((jobs.set k { j with pc := .finished }).filter Job.holds).map (fun j => (j.pTh, j.ident)) =
      ((jobs.filter Job.holds).map fun j => (j.pTh, j.ident)).filter fun q => q.1 ≠ j.pTh := by
  have hj : j.holds = true := decide_eq_true hold
  have hj' : ¬ Job.holds { j with pc := .finished } = true := by simp [Job.holds]
  have hsplit := jobs_split h
  rw [hsplit, List.map_append, List.map_cons, List.nodup_append, List.nodup_cons] at hnodup
  obtain ⟨-, ⟨hsuf, -⟩, hpre⟩ := hnodup
  -- no other job has this pointer
  have others : ∀ js : List Job, (∀ i ∈ js, i.pTh ≠ j.pTh) →
      (((js.filter Job.holds).map fun j => (j.pTh, j.ident)).filter fun q => q.1 ≠ j.pTh) =
        (js.filter Job.holds).map fun j => (j.pTh, j.ident) := by
    intro js hjs
    refine List.filter_eq_self.mpr fun q hq => ?_
    obtain ⟨i, hi, rfl⟩ := List.mem_map.mp hq
    simpa using hjs i (List.mem_filter.mp hi).1
  have hleft := others (jobs.take k) fun i hi he =>
    hpre _ (List.mem_map_of_mem hi) _ List.mem_cons_self he
  have hright := others (jobs.drop (k + 1)) fun i hi he => hsuf (he ▸ List.mem_map_of_mem hi)
  conv_rhs => rw [hsplit]
  rw [jobs_set_split h, List.filter_append, List.filter_append, List.filter_cons_of_pos hj,
    List.filter_cons_of_neg hj', List.map_append, List.map_append, List.map_cons, List.filter_append,
    List.filter_cons_of_neg (by simp), hleft, hright]

end

/-! ## What the main thread's steps leave -/

section
variable {F : Type}

theorem updatedNodes_idents {nodes : List (Nat × FDFaceThread)} :
    ∀ {ms : List (Matching F)}, ms.map Matching.th = nodes.map Prod.fst →
      ((updatedNodes nodes ms).map Prod.snd).map FDFaceThread.ident =
        (nodes.map Prod.snd).map FDFaceThread.ident := by
  induction nodes with
  | nil => exact fun _ => rfl
  | cons p nodes ih =>
    intro ms h
    cases ms with
    | nil => cases h
    | cons m ms =>
      simp only [List.map_cons, List.cons.injEq] at h
      simp only [updatedNodes, List.zipWith_cons_cons, List.map_cons, updateCounters_ident,
        List.cons.injEq, true_and]
      exact ih h.2

/-- The new threads carry the numbers that `fresh` passes over. -/
theorem seeded_idents (faces : List Face) (n : Nat) :
    ((faces.zipIdx n).map fun p => seededThread p.2 p.1).map FDFaceThread.ident =
      List.range' n faces.length := by
  rw [List.map_map, ← List.zipIdx_map_snd n faces]
  rfl

/-- Moving a thread from the list to a new job. -/
theorem handed_of_erase {l : NodeList FDFaceThread} {a : Nat} {th : FDFaceThread} {ids : List Nat}
    (h : l.get? a = some th) :
    ((l.erase a).vals.map FDFaceThread.ident ++ (ids ++ [th.ident])).Perm
      (l.vals.map FDFaceThread.ident ++ ids) := by
  obtain ⟨pre, suf, hsplit⟩ := List.append_of_mem (NodeList.get?_eq_some_iff.mp h)
  simp only [NodeList.vals, NodeList.erase_of_split hsplit, hsplit, List.map_append, List.map_cons,
    List.append_assoc, List.cons_append]
  apply List.Perm.append_left
  rw [← List.append_assoc]
  exact List.perm_append_singleton _ _

/-- The new threads take the identities after those given out. -/
theorem handed_of_seed {l : NodeList FDFaceThread} {ids : List Nat} (faces : List Face)
    (h : (l.vals.map FDFaceThread.ident ++ ids).Perm (List.range l.fresh)) :
    ((l.pushAll ((faces.zipIdx l.fresh).map fun p => seededThread p.2 p.1)).vals.map
      FDFaceThread.ident ++ ids).Perm (List.range (l.fresh + faces.length)) := by
  have hrange : List.range (l.fresh + faces.length) =
      List.range l.fresh ++ List.range' l.fresh faces.length := by
    rw [List.range_eq_range', List.range_eq_range', ← List.range'_append_1, Nat.zero_add]
  have hswap : (List.range' l.fresh faces.length ++ ids).Perm
      (ids ++ List.range' l.fresh faces.length) := List.perm_append_comm
  simp only [NodeList.vals_pushAll, List.map_append, seeded_idents]
  rw [hrange, List.append_assoc]
  refine (hswap.append_left _).trans ?_
  rw [← List.append_assoc]
  exact h.append_right _

/-- Pruning leaves every thread the one it was. -/
theorem pruned_idents (cfg : Config F) (l : NodeList FDFaceThread) :
    (l.mapVals (FDFaceThread.pruned cfg)).vals.map FDFaceThread.ident =
      l.vals.map FDFaceThread.ident := by
  simp only [NodeList.vals_mapVals, List.map_map]
  rfl

end

section
variable {F : Type} [FloatOps F] {cfg : Config F} {s t : System F} {a : Action}

omit [FloatOps F] in
/-- A step of job `k` moves its counter and may change the list of its threads, as long
as the nodes there stay those of the jobs that hold one. -/
theorem JobsOwn.setJob (J : JobsOwn s) {l : NodeList FDFaceThread} {k : Nat} {j : Job} {pc : JobPC}
    (job : s.sh.jobs[k]? = some j) (fresh : l.fresh = s.sh.gThreadsBeingSerialized.fresh)
    (owned : (l.nodes.map fun p => (p.1, p.2.ident)) =
      ((s.sh.jobs.set k { j with pc := pc }).filter Job.holds).map fun j => (j.pTh, j.ident)) :
    JobsOwn { s with sh := setJobPC { s.sh with gThreadsBeingSerialized := l } k j pc } where
  pointers := by
    show (s.sh.jobs.set k { j with pc := pc }).map Job.pTh = List.range l.fresh
    rw [map_set_pc Job.pTh (fun _ _ => rfl) job, fresh]
    exact J.pointers
  owned := owned
  handed := by
    show (_ ++ (s.sh.jobs.set k { j with pc := pc }).map Job.ident).Perm _
    rw [map_set_pc Job.ident (fun _ _ => rfl) job]
    exact J.handed
  inStep := J.inStep

theorem JobsOwn.after (J : JobsOwn s) (e : StepEffect cfg s a t) : JobsOwn t := by
  cases e with
  | frame pc lt =>
    refine ⟨?_, ?_, ?_, fun _ _ _ hpc => by cases hpc⟩
    · simp only [recorded_jobs, recorded_gThreadsBeingSerialized, J.pointers]
    · simp only [recorded_jobs, recorded_gThreadsBeingSerialized, J.owned]
    · simp only [recorded_jobs, recorded_gThreads]
      exact J.handed
  | @process cur now m pc eff =>
    have hidents := updatedNodes_idents eff.inStep
    rw [← eff.nodes] at hidents
    refine ⟨?_, ?_, ?_, fun itrs ms faces hpc => ?_⟩
    · simp only [eff.jobs_eq, eff.saved_eq, J.pointers]
    · simp only [eff.jobs_eq, eff.saved_eq, J.owned]
    · simp only [NodeList.vals, hidents, eff.jobs_eq, eff.fresh]
      exact J.handed
    · cases hpc
      exact ⟨eff.inStep.trans eff.addrs.symm, NodeList.nodup_addrs _, fun _ h => h⟩
  | keep pc get under =>
    refine ⟨J.pointers, J.owned, J.handed, fun itrs ms faces hpc => ?_⟩
    cases hpc
    obtain ⟨hms, hnodup, hmem⟩ := J.inStep _ _ _ pc
    exact ⟨(List.cons.inj hms).2, hnodup.of_cons, fun b hb => hmem b (List.mem_cons_of_mem _ hb)⟩
  | delete pc get past get' =>
    refine ⟨?_, ?_, ?_, fun itrs ms faces hpc => ?_⟩
    · simp only [List.map_append, J.pointers, NodeList.pushBack_fresh, List.range_succ,
        List.map_cons, List.map_nil]
    · simp only [NodeList.pushBack, List.map_append, J.owned, List.filter_append]
      rfl
    · simp only [List.map_append, List.map_cons, List.map_nil, NodeList.erase_fresh]
      exact (handed_of_erase get').trans J.handed
    · cases hpc
      obtain ⟨hms, hnodup, hmem⟩ := J.inStep _ _ _ pc
      refine ⟨(List.cons.inj hms).2, hnodup.of_cons, fun b hb => ?_⟩
      -- the iterators ahead are not the erased one
      rw [NodeList.addrs_erase, List.mem_filter, decide_eq_true_eq]
      refine ⟨hmem b (List.mem_cons_of_mem _ hb), ?_⟩
      rintro rfl
      exact (List.nodup_cons.mp hnodup).1 hb
  | @seed ms inputFaces pc =>
    refine ⟨J.pointers, J.owned, ?_, fun _ _ _ hpc => by cases hpc⟩
    simp only [NodeList.pushAll_fresh, List.length_map, List.length_zipIdx]
    exact handed_of_seed inputFaces J.handed
  | finish pc prune =>
    refine ⟨J.pointers, J.owned, ?_, fun _ _ _ hpc => by cases hpc⟩
    obtain rfl | ⟨-, rfl⟩ := prune
    · exact J.handed
    · simp only [pruned_idents, NodeList.mapVals_fresh]
      exact J.handed
  | @jobStart k isOk j th todo job pc get prune =>
    -- pruning writes through the pointer, and the thread stays the same one
    have hsame : (s.sh.gThreadsBeingSerialized.modify j.pTh fun _ => th.pruned cfg).nodes.map
        (fun p => (p.1, p.2.ident)) =
          s.sh.gThreadsBeingSerialized.nodes.map fun p => (p.1, p.2.ident) := by
      simp only [NodeList.modify, NodeList.alter, List.map_map]
      refine List.map_congr_left fun p hp => ?_
      by_cases hat : p.1 = j.pTh
      · have hth := NodeList.node_unique hp (hat ▸ NodeList.get?_eq_some_iff.mp get)
        simp only [Function.comp_apply, if_pos hat, hth]
        rfl
      · simp only [Function.comp_apply, if_neg hat]
    refine J.setJob job rfl ?_
    rw [holders_set_pc job (by simp [pc]) (by simp), ← J.owned]
    exact hsame
  | jobExport job active unstarted undone exports =>
    refine J.setJob (l := s.sh.gThreadsBeingSerialized) job rfl ?_
    rw [holders_set_pc job active (exportStep_ne_finished exports active), ← J.owned]
  | jobErase job pc get =>
    have hnodup : (s.sh.jobs.map Job.pTh).Nodup := J.pointers ▸ List.nodup_range
    refine J.setJob job rfl ?_
    rw [holders_finish job (by simp [pc]) hnodup, ← J.owned, List.filter_map]
    rfl
  | _ => exact ⟨J.pointers, J.owned, J.handed, J.inStep⟩

omit [FloatOps F] in
theorem jobsOwn_start (cfg : Config F) (now : Int) : JobsOwn (start cfg now) where
  pointers := rfl
  owned := rfl
  handed := .refl _
  inStep _ _ _ h := by cases h

theorem jobsOwn_of_run {now : Int} {as : List Action}
    (h : run (step cfg) (start cfg now) as = .ok s) : JobsOwn s :=
  run_invariant (fun _ _ _ J hst => J.after (step_cases hst)) (jobsOwn_start cfg now) h

/-! ## Every state -/

/-- An entry is erased by the job that owns it. -/
theorem StepEffect.erased_by (e : StepEffect cfg s a t) {p : Nat}
    (hp : p ∈ s.sh.gThreadsBeingSerialized.addrs) (hp' : p ∉ t.sh.gThreadsBeingSerialized.addrs) :
    ∃ k isOk j, a = .job k isOk ∧ s.sh.jobs[k]? = some j ∧ j.pTh = p := by
  cases e with
  | frame pc lt =>
    dsimp only at hp'
    rw [recorded_gThreadsBeingSerialized] at hp'
    exact absurd hp hp'
  | process pc eff =>
    dsimp only at hp'
    rw [eff.saved_eq] at hp'
    exact absurd hp hp'
  | delete pc get past get' =>
    rw [NodeList.addrs_pushBack] at hp'
    exact absurd (List.mem_append_left _ hp) hp'
  | @jobStart k isOk j th todo job pc get prune =>
    have hsame := NodeList.addrs_modify s.sh.gThreadsBeingSerialized j.pTh fun _ => th.pruned cfg
    rw [← hsame] at hp
    exact absurd hp hp'
  | @jobErase k isOk j th job pc get =>
    refine ⟨k, isOk, j, rfl, job, ?_⟩
    by_contra hne
    apply hp'
    show p ∈ (s.sh.gThreadsBeingSerialized.erase j.pTh).addrs
    rw [NodeList.addrs_erase]
    exact List.mem_filter.mpr ⟨hp, decide_eq_true (Ne.symm hne)⟩
  | _ => exact absurd hp hp'

namespace JobsOwn

variable {j : Job}

omit [FloatOps F] in
/-- An unfinished job finds its own thread behind its pointer. -/
theorem entry (J : JobsOwn s) (hj : j ∈ s.sh.jobs) (hpc : j.pc ≠ .finished) :
    ∃ th, s.sh.gThreadsBeingSerialized.get? j.pTh = some th ∧ th.ident = j.ident := by
  have hmem : (j.pTh, j.ident) ∈ (s.sh.jobs.filter Job.holds).map fun j => (j.pTh, j.ident) :=
    List.mem_map_of_mem (List.mem_filter.mpr ⟨hj, decide_eq_true hpc⟩)
  rw [← J.owned, List.mem_map] at hmem
  obtain ⟨p, hp, heq⟩ := hmem
  rw [Prod.mk.injEq] at heq
  exact ⟨p.2, NodeList.get?_eq_some_iff.mpr (heq.1 ▸ hp), heq.2⟩

omit [FloatOps F] in
/-- Every entry belongs to an unfinished job. -/
theorem owner (J : JobsOwn s) {a : Nat} (ha : a ∈ s.sh.gThreadsBeingSerialized.addrs) :
    ∃ j ∈ s.sh.jobs, j.pTh = a ∧ j.pc ≠ .finished := by
  obtain ⟨th, hth⟩ := NodeList.mem_addrs_iff.mp ha
  have hmem := List.mem_map_of_mem (f := fun p : Nat × FDFaceThread => (p.1, p.2.ident)) hth
  rw [J.owned, List.mem_map] at hmem
  obtain ⟨j, hj, heq⟩ := hmem
  rw [Prod.mk.injEq] at heq
  exact ⟨j, (List.mem_filter.mp hj).1, heq.1, of_decide_eq_true (List.mem_filter.mp hj).2⟩

omit [FloatOps F] in
theorem nodup_pointers (J : JobsOwn s) : (s.sh.jobs.map Job.pTh).Nodup :=
  J.pointers ▸ List.nodup_range

omit [FloatOps F] in
theorem gone (J : JobsOwn s) (hj : j ∈ s.sh.jobs) (hpc : j.pc = .finished) :
    s.sh.gThreadsBeingSerialized.get? j.pTh = none := by
  rw [NodeList.get?_eq_none_iff]
  intro hmem
  obtain ⟨i, hi, hp, hne⟩ := J.owner hmem
  obtain rfl := List.inj_on_of_nodup_map J.nodup_pointers hi hj hp
  exact hne hpc

omit [FloatOps F] in
theorem placed_perm (J : JobsOwn s) : (placed s.sh).Perm (List.range s.sh.gThreads.fresh) := by
  have hsaved : s.sh.gThreadsBeingSerialized.vals.map FDFaceThread.ident =
      (s.sh.jobs.filter Job.holds).map Job.ident := by
    have hsnd := congrArg (List.map Prod.snd) J.owned
    rw [List.map_map, List.map_map] at hsnd
    rw [NodeList.vals, List.map_map]
    exact hsnd
  refine List.Perm.trans ?_ J.handed
  rw [placed, hsaved, ← List.map_append]
  exact ((List.filter_append_perm Job.holds s.sh.jobs).map Job.ident).append_left _

omit [FloatOps F] in
/-- The erase at the end of a job finds the job's entry and takes away nothing else. -/
theorem erases (J : JobsOwn s) (hj : j ∈ s.sh.jobs) (hpc : j.pc ≠ .finished) :
    ∃ l, deleteThreadFromGThreadsBeingSerialized s.sh j.pTh =
        .ok { s.sh with gThreadsBeingSerialized := l } ∧ l.get? j.pTh = none ∧
      ∀ a ≠ j.pTh, l.get? a = s.sh.gThreadsBeingSerialized.get? a := by
  obtain ⟨th, hth, -⟩ := J.entry hj hpc
  refine ⟨s.sh.gThreadsBeingSerialized.erase j.pTh, ?_, ?_, fun a ha => NodeList.get?_erase_of_ne _ ha⟩
  · simp only [deleteThreadFromGThreadsBeingSerialized, hth]
  · rw [NodeList.get?_eq_none_iff, NodeList.addrs_erase]
    simp

/-- The deletion loop never loses its way. -/
theorem deletion_runs (J : JobsOwn s) {itrs : List Nat} {ms : List (Matching F)}
    {faces : List Face} (hpc : s.main = .deleting itrs ms faces) :
    ∃ t, step cfg s .main = .ok t := by
  cases itrs with
  | nil => exact ⟨_, by rw [step, hpc]; rfl⟩
  | cons itr itrs =>
    obtain ⟨hms, -, hmem⟩ := J.inStep _ _ _ hpc
    cases ms with
    | nil => cases hms
    | cons m ms =>
      obtain ⟨rfl, -⟩ := List.cons.inj hms
      obtain ⟨th, hth⟩ := Option.isSome_iff_exists.mp
        (NodeList.get?_isSome_iff.mpr (hmem _ List.mem_cons_self))
      simp only [step, hpc, mainStep, deleteIfExceeds, deleteThread, hth]
      split <;> exact ⟨_, rfl⟩

end JobsOwn

omit [FloatOps F] in
/-- With frame numbers below `INT_MAX` no assertion of `getMinFrameToKeep` fails. -/
theorem StoredFaces.getMin_total (S : StoredFaces s) (hlt : s.sh.processedFrameCounter < intMax) :
    ∃ m, getMinFrameToKeep s.sh = .ok m := by
  apply getMinFrameToKeep_total
  · exact fun th hth => (S.of_allThreads hth).nonempty
  · exact fun th hth f hf => ((S.of_allThreads hth).within f hf).2.trans_lt hlt

omit [FloatOps F] in
/-- The pruner never stops. -/
theorem HistoryShape.pruner_runs {lo : Nat} (h : HistoryShape s lo)
    (hmin : ∃ m, getMinFrameToKeep s.sh = .ok m) : ∃ r, pruneHistory s.sh s.pruner = .ok r := by
  have hfits := h.pruner
  have hsize := h.size_eq
  have hlt : minListSize ≤ s.sh.gHistory.size → lo < s.sh.gHistory.fresh := by
    unfold minListSize
    omega
  cases hpc : s.pruner with
  | waiting => exact ⟨_, rfl⟩
  | top ls =>
    rw [hpc] at hfits
    obtain ⟨m, hm⟩ := hmin
    simp only [pruneHistory, hm, ok_bind, h.spans.front?_eq (hlt hfits.1)]
    exact ⟨_, rfl⟩
  | erasing itr m ls =>
    rw [hpc] at hfits
    obtain ⟨hmin, -, rfl⟩ := hfits
    obtain ⟨entry, hget, -⟩ := h.get? (le_refl lo) (hlt hmin)
    simp only [pruneHistory, hget]
    split <;> exact ⟨_, rfl⟩
  | sleeping => exact ⟨_, rfl⟩

/-- What the protocol promises in a state: where every thread is, whose an entry is,
and that no assertion can fail. -/
structure ThreadCustody (cfg : Config F) (s : System F) : Prop where
  placed : (placed s.sh).Perm (List.range s.sh.gThreads.fresh)
  handed : (s.sh.gThreads.vals.map FDFaceThread.ident ++ s.sh.jobs.map Job.ident).Perm
    (List.range s.sh.gThreads.fresh)
  pointers : (s.sh.jobs.map Job.pTh).Nodup
  entry : ∀ j ∈ s.sh.jobs, j.pc ≠ .finished →
    ∃ th, s.sh.gThreadsBeingSerialized.get? j.pTh = some th ∧ th.ident = j.ident
  gone : ∀ j ∈ s.sh.jobs, j.pc = .finished → s.sh.gThreadsBeingSerialized.get? j.pTh = none
  erased_by : ∀ a t, step cfg s a = .ok t → ∀ p ∈ s.sh.gThreadsBeingSerialized.addrs,
    p ∉ t.sh.gThreadsBeingSerialized.addrs →
      ∃ k isOk j, a = .job k isOk ∧ s.sh.jobs[k]? = some j ∧ j.pTh = p
  erases : ∀ j ∈ s.sh.jobs, j.pc ≠ .finished →
    ∃ l, deleteThreadFromGThreadsBeingSerialized s.sh j.pTh =
        .ok { s.sh with gThreadsBeingSerialized := l } ∧ l.get? j.pTh = none ∧
      ∀ a ≠ j.pTh, l.get? a = s.sh.gThreadsBeingSerialized.get? a
  deletes : ∀ itrs ms faces, s.main = .deleting itrs ms faces → ∃ t, step cfg s .main = .ok t
  floor : ∃ m, getMinFrameToKeep s.sh = .ok m
  prunes : ∃ r, pruneHistory s.sh s.pruner = .ok r

/-- Face threads are conserved, and the assertions of the protocol hold, in every
state of every interleaving. -/
theorem threadCustody_of_run (cfg : Config F) (h1 : 1 ≤ cfg.maxThreadHistorySize) {now : Int}
    {as : List Action} (h : run (step cfg) (start cfg now) as = .ok s)
    (hlt : s.sh.processedFrameCounter < intMax) : ThreadCustody cfg s := by
  have J := jobsOwn_of_run h
  have hmin := (storedFaces_of_run h1 h).getMin_total hlt
  obtain ⟨-, lo, hshape, -⟩ := historyShape_of_run h
  exact {
    placed := J.placed_perm
    handed := J.handed
    pointers := J.nodup_pointers
    entry := fun _ => J.entry
    gone := fun _ => J.gone
    erased_by := fun _ _ hst _ => (step_cases hst).erased_by
    erases := fun _ => J.erases
    deletes := fun _ _ _ => J.deletion_runs
    floor := hmin
    prunes := hshape.pruner_runs hmin }

end

/-- The main thread's steps for a frame while one thread is in `gThreads`. -/
def trackingFrame (inp : FrameInput) : List Action := [.frame inp, .main, .main, .main, .main]

/-- A thread is made, deleted after four misses, and its job starts. -/
def oneThreadSaved : List Action :=
  [.frame oneDetection, .main, .main, .main] ++
    ((List.replicate 4 (trackingFrame noDetection)).flatten ++ [.job 0 true])

theorem threadCustody_oneThreadSaved : ∃ s,
    run (step (Config.declared : Config ℚ)) (start Config.declared 0) oneThreadSaved = .ok s ∧
    s.sh.gThreads.size = 0 ∧ s.sh.gThreadsBeingSerialized.size = 1 ∧
    ThreadCustody (Config.declared : Config ℚ) s := by
  have hruns : returns (fun s => decide (s.sh.gThreads.size = 0 ∧
      s.sh.gThreadsBeingSerialized.size = 1 ∧ s.sh.processedFrameCounter < intMax))
      (run (step (Config.declared : Config ℚ)) (start Config.declared 0) oneThreadSaved) = true := by
    decide +kernel
  obtain ⟨s, hs, hdec⟩ := exists_of_returns hruns
  obtain ⟨hlive, hsaved, hlt⟩ := of_decide_eq_true hdec
  exact ⟨s, hs, hlive, hsaved, threadCustody_of_run Config.declared (by decide) hs hlt⟩

end PlanetariumFD
