import PlanetariumFD.Detector.FineSteps

/-!
# Smaller steps reach the same states

The pruner reads of the threads only their first faces, and the jobs nothing; neither
looks at a sequence of rectangles. So their steps commute with what the main thread has
begun, and the system with smaller steps reaches the states of the other.
-/

namespace PlanetariumFD

open Outcome Transition Flushing

/-! ## What the others see -/

section
variable {F : Type} [FloatOps F] {cfg : Config F} {g g' : Shared F} {d : Completion F}

/-- The first faces of the threads, which are all that the pruner reads of them. -/
def fronts (l : NodeList FDFaceThread) : List (Option Face) := l.vals.map fun th => th.pFaces.head?

theorem minFront_congr {ths : List FDFaceThread} : ∀ {ths' : List FDFaceThread} {m : Int},
    ths'.map (fun th => th.pFaces.head?) = ths.map (fun th => th.pFaces.head?) →
      minFront ths' m = minFront ths m := by
  induction ths with
  | nil =>
    intro ths' m h
    rw [List.map_nil, List.map_eq_nil_iff] at h
    rw [h]
  | cons th ths ih =>
    intro ths' m h
    cases ths' with
    | nil => cases h
    | cons th' ths' =>
      obtain ⟨hhead, htail⟩ := List.cons.inj h
      dsimp only at hhead
      simp only [minFront, hhead]
      cases th.pFaces.head? with
      | none => rfl
      | some f => exact ih htail

theorem size_of_fronts {l l' : NodeList FDFaceThread} (h : fronts l' = fronts l) :
    l'.size = l.size := by
  have hlength := congrArg List.length h
  simpa only [fronts, NodeList.vals, NodeList.size, List.length_map] using hlength

omit [FloatOps F] in
/-- Wherever `getMinFrameToKeep` comes to its end the threads have faces. -/
theorem nonempty_of_getMinFrameToKeep {m : Int} (h : getMinFrameToKeep g = .ok m) :
    ∀ th ∈ g.gThreads.vals, th.pFaces ≠ [] := by
  intro th hth
  unfold getMinFrameToKeep at h
  split at h
  · next hempty =>
    have hnil : g.gThreads.vals = [] := by
      rw [NodeList.vals, List.map_eq_nil_iff]
      exact List.length_eq_zero_iff.mp hempty.1
    rw [hnil] at hth
    cases hth
  · obtain ⟨m₁, hm₁, -⟩ := bind_eq_ok.mp h
    obtain ⟨f, hf, -⟩ := (minFront_ok hm₁).2.1 th hth
    intro hnil
    rw [hnil] at hf
    cases hf

/-- What the main thread has begun does not change the first faces. -/
def Completion.KeepsFronts (d : Completion F) (g : Shared F) : Prop :=
  (∀ th ∈ g.gThreads.vals, th.pFaces ≠ []) → fronts d.gThreads = fronts g.gThreads

omit [FloatOps F] in
theorem getMinFrameToKeep_apply (h : fronts d.gThreads = fronts g.gThreads) :
    getMinFrameToKeep (d.apply g) = getMinFrameToKeep g := by
  have hmin : ∀ n, minFront d.gThreads.vals n = minFront g.gThreads.vals n :=
    fun n => minFront_congr h
  simp only [getMinFrameToKeep, Completion.apply, size_of_fronts h, hmin]

theorem eraseEntry_alter (l : NodeList FDHistoryEntry) (f : Nat → FDHistoryEntry → FDHistoryEntry)
    (itr : Nat) : eraseEntry (l.alter f) itr = (eraseEntry l itr).alter f := by
  rw [eraseEntry, eraseEntry, NodeList.erase_modify, NodeList.erase_modify, NodeList.erase_alter]

theorem next?_alter (l : NodeList FDHistoryEntry) (f : Nat → FDHistoryEntry → FDHistoryEntry)
    (itr : Nat) : (l.alter f).next? itr = l.next? itr := by
  rw [NodeList.next?, NodeList.next?, NodeList.addrs_alter]

theorem size_alter (l : NodeList FDHistoryEntry) (f : Nat → FDHistoryEntry → FDHistoryEntry) :
    (l.alter f).size = l.size := by
  rw [← NodeList.addrs_length, ← NodeList.addrs_length, NodeList.addrs_alter]

omit [FloatOps F] in
/-- A step of the pruner does the same once the main thread has completed what it began. -/
theorem pruneHistory_apply {pc : PrunerPC}
    (hmin : ∀ ls, pc = .top ls → getMinFrameToKeep (d.apply g) = getMinFrameToKeep g) :
    pruneHistory (d.apply g) pc = (pruneHistory g pc).map fun r => (d.apply r.1, r.2) := by
  have hsize : (d.apply g).gHistory.size = g.gHistory.size := size_alter _ _
  cases pc with
  | waiting =>
    simp only [pruneHistory, hsize]
    rfl
  | top ls =>
    have hfront : (d.apply g).gHistory.front? = g.gHistory.front? := by
      rw [NodeList.front?, NodeList.front?]
      exact congrArg List.head? (NodeList.addrs_alter _ _)
    simp only [pruneHistory, hmin ls rfl, hfront]
    cases getMinFrameToKeep g with
    | error f => rfl
    | ok m =>
      simp only [ok_bind]
      cases g.gHistory.front? <;> rfl
  | erasing itr m ls =>
    cases itr with
    | none => rfl
    | some itr =>
      have hget : (d.apply g).gHistory.get? itr = (g.gHistory.get? itr).map (d.entry itr) :=
        NodeList.get?_alter _ _ _
      simp only [pruneHistory, hget]
      cases g.gHistory.get? itr with
      | none => rfl
      | some entry =>
        have hframe : (d.entry itr entry).frameId = entry.frameId := rfl
        simp only [Option.map_some, hframe]
        split
        · simp only [Completion.apply, eraseEntry_alter, next?_alter, size_alter, Except.map]
        · rfl
  | sleeping =>
    simp only [pruneHistory, hsize]
    rfl

/-! ### The jobs -/

theorem seekHistory_alter (f : Nat → FDHistoryEntry → FDHistoryEntry)
    (hframe : ∀ a e, (f a e).frameId = e.frameId) (frameId : Int)
    (ps : List (Nat × FDHistoryEntry)) :
    seekHistory frameId (ps.map fun p => (p.1, f p.1 p.2)) =
      (seekHistory frameId ps).map fun p => (p.1, f p.1 p.2) := by
  induction ps with
  | nil => rfl
  | cons p ps ih =>
    rw [List.map_cons, seekHistory, seekHistory]
    simp only [hframe]
    split
    · exact ih
    · rfl

theorem startExport_apply (d : Completion F) (g : Shared F) (th : FDFaceThread) (isOk : Bool)
    (e : Export) (todo : List Export) :
    startExport cfg (d.apply g) th isOk e todo = startExport cfg g th isOk e todo := by
  have hsize : (d.apply g).gHistory.size = g.gHistory.size := size_alter _ _
  have hnodes : (d.apply g).gHistory.nodes =
      g.gHistory.nodes.map fun p => (p.1, d.entry p.1 p.2) := rfl
  have hseek : ∀ n, seekHistory n (d.apply g).gHistory.nodes =
      (seekHistory n g.gHistory.nodes).map fun p => (p.1, d.entry p.1 p.2) := fun n => by
    rw [hnodes]
    exact seekHistory_alter d.entry (fun _ _ => rfl) n _
  unfold startExport
  rw [hsize]
  simp only [hseek]
  cases exportFaces cfg e th with
  | error f => rfl
  | ok faces =>
    match faces with
    | none => rfl
    | some [] => rfl
    | some (f :: fs) =>
      simp only [ok_bind]
      split
      · rfl
      · cases seekHistory f.frameId g.gHistory.nodes with
        | error f => rfl
        | ok p => rfl

omit [FloatOps F] in
theorem walkHistory_apply (d : Completion F) (g : Shared F) (isOk : Bool) (e : Export)
    (todo : List Export) (historyItr : Option Nat) (faces : List Face) (saved : Int) :
    walkHistory cfg (d.apply g) isOk e todo historyItr faces saved =
      walkHistory cfg g isOk e todo historyItr faces saved := by
  have hget : ∀ a, (d.apply g).gHistory.get? a = (g.gHistory.get? a).map (d.entry a) :=
    fun a => NodeList.get?_alter _ _ _
  have hnext : ∀ a, (d.apply g).gHistory.next? a = g.gHistory.next? a := fun a => next?_alter _ _ _
  cases faces with
  | nil => rfl
  | cons f fs =>
    cases historyItr with
    | none => rfl
    | some a =>
      simp only [walkHistory, hget, hnext]
      cases g.gHistory.get? a with
      | none => rfl
      | some entry => rfl

theorem exportStep_apply (d : Completion F) (g : Shared F) (pTh : Nat) (isOk : Bool) (pc : JobPC) :
    exportStep cfg (d.apply g) pTh isOk pc = exportStep cfg g pTh isOk pc := by
  have hsaved : (d.apply g).gThreadsBeingSerialized = g.gThreadsBeingSerialized := rfl
  cases pc with
  | started => rfl
  | saving todo =>
    cases todo with
    | nil => rfl
    | cons e todo =>
      simp only [exportStep, hsaved, startExport_apply]
  | walking e todo historyItr faces saved => exact walkHistory_apply d g isOk e todo _ _ _
  | finished => rfl

omit [FloatOps F] in
theorem setJobPC_apply (d : Completion F) {g : Shared F} {k : Nat} {j : Job}
    (hj : g.jobs[k]? = some j) (l : NodeList FDFaceThread) (pc : JobPC) :
    setJobPC { d.apply g with gThreadsBeingSerialized := l } k j pc =
      d.apply (setJobPC { g with gThreadsBeingSerialized := l } k j pc) := by
  obtain ⟨hlt, -⟩ := List.getElem?_eq_some_iff.mp hj
  simp only [setJobPC, Completion.apply, List.set_append_left _ _ hlt]

/-- A step of a job does the same once the main thread has completed what it began. -/
theorem saveAndDeleteThread_apply (d : Completion F) {k : Nat} {j : Job} (isOk : Bool)
    (hj : g.jobs[k]? = some j) : saveAndDeleteThread cfg (d.apply g) k j isOk =
      (saveAndDeleteThread cfg g k j isOk).map d.apply := by
  have hsaved : (d.apply g).gThreadsBeingSerialized = g.gThreadsBeingSerialized := rfl
  unfold saveAndDeleteThread
  split
  · unfold startSave
    rw [hsaved]
    cases g.gThreadsBeingSerialized.get? j.pTh with
    | none => rfl
    | some th =>
      simp only
      cases th.pruneFacesList cfg with
      | error f => rfl
      | ok th' => exact congrArg Except.ok (setJobPC_apply d hj _ _)
  · unfold deleteThreadFromGThreadsBeingSerialized
    rw [hsaved]
    cases g.gThreadsBeingSerialized.get? j.pTh with
    | none => rfl
    | some th => exact congrArg Except.ok (setJobPC_apply d hj _ _)
  · rfl
  · rw [exportStep_apply]
    cases exportStep cfg g j.pTh isOk j.pc with
    | error f => rfl
    | ok pc' => exact congrArg Except.ok (setJobPC_apply d hj g.gThreadsBeingSerialized pc')

/-! ### The main thread's own lists -/

omit [FloatOps F] in
theorem updateCounters_head? (m : Matching F) {th : FDFaceThread} (h : th.pFaces ≠ []) :
    (updateCounters m th).pFaces.head? = th.pFaces.head? := by
  rw [updateCounters_pFaces, List.head?_append_of_ne_nil _ h]

omit [FloatOps F] in
theorem fronts_modify (m : Matching F) {l : NodeList FDFaceThread} (a : Nat)
    (h : ∀ th ∈ l.vals, th.pFaces ≠ []) :
    fronts (l.modify a (updateCounters m)) = fronts l ∧
      ∀ th ∈ (l.modify a (updateCounters m)).vals, th.pFaces ≠ [] := by
  have hnodes : ∀ p ∈ l.nodes, p.2.pFaces ≠ [] := fun p hp => h _ (List.mem_map_of_mem hp)
  constructor
  · simp only [fronts, NodeList.vals, NodeList.modify, NodeList.alter, List.map_map,
      Function.comp_def]
    refine List.map_congr_left fun p hp => ?_
    split
    · exact updateCounters_head? m (hnodes p hp)
    · rfl
  · intro th hth
    simp only [NodeList.vals, NodeList.modify, NodeList.alter, List.map_map, List.mem_map,
      Function.comp_def] at hth
    obtain ⟨p, hp, rfl⟩ := hth
    split
    · rw [updateCounters_pFaces]
      exact List.append_ne_nil_of_left_ne_nil (hnodes p hp) _
    · exact hnodes p hp

omit [FloatOps F] in
theorem updateThreads_fronts {itrs : List Nat} : ∀ {ms : List (Matching F)}
    {l l' : NodeList FDFaceThread}, updateThreads itrs ms l = .ok l' →
      (∀ th ∈ l.vals, th.pFaces ≠ []) → fronts l' = fronts l := by
  induction itrs with
  | nil =>
    intro ms l l' h _
    cases h
    rfl
  | cons itr itrs ih =>
    intro ms l l' h hne
    cases ms with
    | nil => cases h
    | cons m ms =>
      simp only [updateThreads] at h
      split at h
      · cases h
      · obtain ⟨hfronts, hne'⟩ := fronts_modify m m.th hne
        exact (ih h hne').trans hfronts

theorem completion_keepsFronts {pc : FinePC F} (h : completion cfg g pc = .ok d) :
    d.KeepsFronts g := by
  intro hne
  cases pc with
  | coarse pc =>
    cases h
    rfl
  | popping cur frameId inputFaces =>
    simp only [completion] at h
    split at h
    · cases h
    · obtain ⟨r, -, h⟩ := bind_eq_ok.mp h
      obtain ⟨l, hl, h⟩ := bind_eq_ok.mp h
      cases h
      exact updateThreads_fronts hl hne
  | matching faces left ms =>
    obtain ⟨r, -, h⟩ := bind_eq_ok.mp h
    obtain ⟨l, hl, h⟩ := bind_eq_ok.mp h
    cases h
    exact updateThreads_fronts hl hne
  | updating itrs ahead ms inputFaces =>
    obtain ⟨l, hl, h⟩ := bind_eq_ok.mp h
    cases h
    exact updateThreads_fronts hl hne
  | creating job itrs ms inputFaces =>
    cases h
    rfl
  | showing itrs =>
    obtain ⟨fs, -, h⟩ := bind_eq_ok.mp h
    cases h
    rfl

/-- Of the history the main thread's completion goes by the entry that is popped alone. -/
theorem completion_congr {pc : FinePC F} (threads : g'.gThreads = g.gThreads)
    (shown : g'.gFacesInCurrentFrame = g.gFacesInCurrentFrame)
    (entry : ∀ cur frameId faces, pc = .popping cur frameId faces →
      g'.gHistory.get? cur = g.gHistory.get? cur) :
    completion cfg g' pc = completion cfg g pc := by
  cases pc with
  | popping cur frameId faces =>
    simp only [completion, entry cur frameId faces rfl, threads, shown]
  | _ => simp only [completion, threads, shown]

theorem get?_of_completion {cur : Nat} {frameId : Int} {faces : List Face}
    (h : completion cfg g (.popping cur frameId faces) = .ok d) :
    ∃ entry, g.gHistory.get? cur = some entry := by
  simp only [completion] at h
  split at h
  · cases h
  · next entry hentry => exact ⟨entry, hentry⟩

end

/-! ## The steps of the others -/

section
variable {F : Type} [FloatOps F] {cfg : Config F} {s t : FineSystem F} {a : Action}

/-- A step of the pruner or of a job goes by the shared state alone. -/
theorem fineStep_other (hmain : a ≠ .main) (hframe : a.isFrame = false) (pc : MainPC F) :
    fineStep cfg s a =
      (step cfg ⟨s.sh, pc, s.pruner⟩ a).map fun t => ⟨t.sh, s.main, t.pruner⟩ := by
  cases a with
  | frame inp => cases hframe
  | main => exact absurd rfl hmain
  | pruner =>
    simp only [fineStep, step]
    cases pruneHistory s.sh s.pruner <;> rfl
  | job k isOk =>
    simp only [fineStep, step]
    cases s.sh.jobs[k]? with
    | none => rfl
    | some j =>
      simp only
      split
      · rfl
      · cases saveAndDeleteThread cfg s.sh k j isOk <;> rfl

/-- The job of a step is one that has been started. -/
def Action.IsStarted (g : Shared F) : Action → Prop
  | .job k _ => k < g.jobs.length
  | _ => True

theorem step_apply {g : Shared F} {d : Completion F} {pr : PrunerPC} (hmain : a ≠ .main)
    (hframe : a.isFrame = false) (hstarted : a.IsStarted g)
    (hmin : ∀ ls, a = .pruner → pr = .top ls →
      getMinFrameToKeep (d.apply g) = getMinFrameToKeep g) (pc pc' : MainPC F) :
    step cfg ⟨d.apply g, pc', pr⟩ a =
      (step cfg ⟨g, pc, pr⟩ a).map fun t => ⟨d.apply t.sh, pc', t.pruner⟩ := by
  cases a with
  | frame inp => cases hframe
  | main => exact absurd rfl hmain
  | pruner =>
    simp only [step, pruneHistory_apply fun ls => hmin ls rfl]
    cases pruneHistory g pr <;> rfl
  | job k isOk =>
    have hjob : (d.apply g).jobs[k]? = g.jobs[k]? := List.getElem?_append_left hstarted
    simp only [step, hjob]
    cases hj : g.jobs[k]? with
    | none => rfl
    | some j =>
      simp only
      split
      · rfl
      · rw [saveAndDeleteThread_apply d isOk hj]
        cases saveAndDeleteThread cfg g k j isOk <;> rfl

/-- The others leave the main thread's lists alone, and erase entries whole. -/
theorem StepEffect.leaves {s t : System F} (e : StepEffect cfg s a t) (hmain : a ≠ .main)
    (hframe : a.isFrame = false) : t.sh.gThreads = s.sh.gThreads ∧
      t.sh.gFacesInCurrentFrame = s.sh.gFacesInCurrentFrame ∧
      ∀ cur entry, t.sh.gHistory.get? cur = some entry → s.sh.gHistory.get? cur = some entry := by
  cases e with
  | frame pc lt => cases hframe
  | @erase itr m ls entry pc get below long =>
    refine ⟨rfl, rfl, fun cur entry' hget => ?_⟩
    replace hget : (eraseEntry s.sh.gHistory itr).get? cur = some entry' := hget
    rw [eraseEntry, NodeList.erase_modify, NodeList.get?_eq_some_iff, NodeList.mem_erase_nodes] at hget
    exact NodeList.get?_eq_some_iff.mpr hget.1
  | process pc eff => exact absurd rfl hmain
  | keep pc get under => exact absurd rfl hmain
  | delete pc get past get' => exact absurd rfl hmain
  | seed pc => exact absurd rfl hmain
  | finish pc prune => exact absurd rfl hmain
  | _ => exact ⟨rfl, rfl, fun _ _ h => h⟩

/-- A job that takes a step, or fails, has been started. -/
theorem isStarted_of_step {s : System F} (h : step cfg s a ≠ .error .disabled) :
    a.IsStarted s.sh := by
  cases a with
  | job k isOk =>
    simp only [step] at h
    split at h
    · exact absurd rfl h
    · next j hj => exact (List.getElem?_eq_some_iff.mp hj).1
  | _ => trivial

/-- Where the pruner comes past `getMinFrameToKeep`, the flush does not change its result. -/
theorem getMinFrameToKeep_of_step {s t : System F} {d : Completion F}
    (h : step cfg s a = .ok t) (hd : d.KeepsFronts s.sh) (ls : Nat) (ha : a = .pruner)
    (hpc : s.pruner = .top ls) : getMinFrameToKeep (d.apply s.sh) = getMinFrameToKeep s.sh := by
  subst ha
  obtain ⟨r, hr, -⟩ := bind_eq_ok.mp h
  rw [hpc] at hr
  obtain ⟨m, hm, -⟩ := bind_eq_ok.mp (orHalt_eq_ok.mp hr)
  exact getMinFrameToKeep_apply (hd (nonempty_of_getMinFrameToKeep hm))

/-- A step of the pruner or of a job, before or after the flush. -/
theorem flush_other {c' : System F} (h : fineStep cfg s a = .ok t) (hmain : a ≠ .main)
    (hframe : a.isFrame = false) (hc : flush cfg t = .ok c') :
    ∃ c, flush cfg s = .ok c ∧ step cfg c a = .ok c' := by
  rw [fineStep_other hmain hframe .idle] at h
  obtain ⟨t₁, hstep, rfl⟩ := map_eq_ok.mp h
  obtain ⟨d, hd, rfl⟩ := map_eq_ok.mp hc
  obtain ⟨threads, shown, entries⟩ := (step_cases hstep).leaves hmain hframe
  have hbefore : completion cfg s.sh s.main = .ok d := by
    refine Eq.trans (completion_congr threads shown fun cur frameId faces hpc => ?_).symm hd
    dsimp only at hd
    rw [hpc] at hd
    obtain ⟨entry, hentry⟩ := get?_of_completion hd
    rw [hentry, entries cur entry hentry]
  refine ⟨⟨d.apply s.sh, d.main, s.pruner⟩, by rw [flush, hbefore]; rfl, ?_⟩
  rw [step_apply hmain hframe (isStarted_of_step (by rw [hstep]; exact fun h => by cases h))
    (getMinFrameToKeep_of_step hstep (completion_keepsFronts hbefore)) .idle, hstep]
  rfl

end

/-! ## The steps of the main thread -/

section
variable {F : Type} [FloatOps F] {cfg : Config F}

omit [FloatOps F] in
/-- Completions that change the entries alike come to the same. -/
theorem apply_congr {g : Shared F} {d d' : Completion F}
    (entries : ∀ a e, g.gHistory.get? a = some e → d.entry a e = d'.entry a e)
    (threads : d.gThreads = d'.gThreads)
    (shown : d.gFacesInCurrentFrame = d'.gFacesInCurrentFrame) (jobs : d.jobs = d'.jobs) :
    d.apply g = d'.apply g := by
  simp only [Completion.apply, NodeList.alter_congr _ entries, threads, shown, jobs]

omit [FloatOps F] in
theorem apply_popped (d : Completion F) (g : Shared F) {cur : Nat} {seq : List CvRect}
    (h : ∀ s s', d.pFacesSeq cur s = d.pFacesSeq cur s') :
    d.apply { g with gHistory := g.gHistory.modify cur fun e => { e with pFacesSeq := seq } } =
      d.apply g := by
  have hentries : (g.gHistory.modify cur fun e => { e with pFacesSeq := seq }).alter d.entry =
      g.gHistory.alter d.entry := by
    rw [NodeList.modify, NodeList.alter_alter]
    refine NodeList.alter_congr _ fun a e _ => ?_
    split
    · next ha =>
      simp only [Completion.entry, ha, h seq e.pFacesSeq]
    · rfl
  simp only [Completion.apply, hentries]

omit [FloatOps F] in
theorem eq_snoc_of_cvSeqPop {seq seq' : List CvRect} {r : CvRect}
    (h : cvSeqPop seq = some (r, seq')) : seq = seq' ++ [r] := by
  obtain ⟨x, hx, hpop⟩ := Option.map_eq_some_iff.mp h
  cases hpop
  exact (List.dropLast_append_getLast? r hx).symm

omit [FloatOps F] in
theorem popFaces_of_pop {frameId : Int} {seq seq' : List CvRect} {r : CvRect}
    {inputFaces : List Face} (h : cvSeqPop seq = some (r, seq')) :
    popFaces frameId seq.length seq inputFaces =
      popFaces frameId seq'.length seq' (inputFaces ++ [{ r with frameId := frameId }]) := by
  rw [popFaces_eq, popFaces_eq, eq_snoc_of_cvSeqPop h]
  simp

omit [FloatOps F] in
theorem eq_nil_of_cvSeqPop {seq : List CvRect} (h : cvSeqPop seq = none) : seq = [] := by
  rw [cvSeqPop, Option.map_eq_none_iff] at h
  exact List.getLast?_eq_none_iff.mp h

/-- A turn of a loop does not change what the flush comes to. -/
theorem flush_loopStep {s t : FineSystem F} (h : loopStep cfg s s.main = .ok t) :
    flush cfg t = flush cfg s := by
  obtain ⟨g, pc, pr⟩ := s
  cases pc with
  | coarse pc =>
    cases h
    rfl
  | popping cur frameId inputFaces =>
    simp only [loopStep] at h
    cases hget : g.gHistory.get? cur with
    | none =>
      rw [hget] at h
      cases h
    | some entry =>
      simp only [hget] at h
      cases hpop : cvSeqPop entry.pFacesSeq with
      | none =>
        simp only [hpop, Except.ok.injEq] at h
        subst h
        have hnil := eq_nil_of_cvSeqPop hpop
        simp only [flush, completion, hget, hnil, List.length_nil, popFaces]
        cases matchFaces cfg g.gThreads inputFaces (initMatches g.gThreads) with
        | error f => rfl
        | ok r =>
          simp only [ok_bind, List.nil_append]
          cases updateThreads g.gThreads.addrs r.1 g.gThreads with
          | error f => rfl
          | ok l =>
            -- the entry had no rectangle left
            refine congrArg (fun sh => Except.ok (⟨sh, _, pr⟩ : System F)) (apply_congr ?_ rfl rfl rfl)
            intro a e he
            unfold Completion.entry
            dsimp only
            split
            · next ha =>
              rw [ha, hget] at he
              cases he
              rw [hnil]
            · rfl
      | some p =>
        obtain ⟨r, seq⟩ := p
        simp only [hpop, Except.ok.injEq] at h
        subst h
        have hafter : (g.gHistory.modify cur fun e => { e with pFacesSeq := seq }).get? cur =
            some { entry with pFacesSeq := seq } := by
          rw [NodeList.modify, NodeList.get?_alter, hget, Option.map_some, if_pos rfl]
        simp only [flush, completion, hget, hafter, popFaces_of_pop hpop]
        cases matchFaces cfg g.gThreads (popFaces frameId seq.length seq (inputFaces ++
            [{ r with frameId := frameId }])).1 (initMatches g.gThreads) with
        | error f => rfl
        | ok q =>
          simp only [ok_bind]
          cases updateThreads g.gThreads.addrs q.1 g.gThreads with
          | error f => rfl
          | ok l =>
            -- what the pop leaves is overwritten by what the last one leaves
            refine congrArg (fun sh => Except.ok (⟨sh, _, pr⟩ : System F)) (apply_popped _ g fun _ _ => ?_)
            simp only [if_true]
  | matching faces left ms =>
    cases faces with
    | nil =>
      cases h
      simp only [flush, completion, matchFaces, ok_bind, List.append_nil]
    | cons face faces =>
      obtain ⟨r, hr, h⟩ := bind_eq_ok.mp h
      cases h
      simp only [flush, completion, matchFaces, hr, ok_bind]
      cases matchFaces cfg g.gThreads faces r.1 with
      | error f => rfl
      | ok q =>
        simp only [ok_bind]
        have hleft : (if r.2 = none then left ++ [face] else left) ++ q.2 =
            left ++ (if r.2 = none then face :: q.2 else q.2) := by
          split
          · rw [List.append_assoc, List.singleton_append]
          · rfl
        rw [hleft]
  | updating itrs ahead ms inputFaces =>
    cases itrs with
    | nil =>
      cases h
      rfl
    | cons itr itrs =>
      cases ahead with
      | nil => cases h
      | cons m ahead =>
        simp only [loopStep] at h
        cases hth : g.gThreads.get? m.th with
        | none =>
          rw [hth] at h
          cases h
        | some th =>
          simp only [hth, Except.ok.injEq] at h
          subst h
          simp only [flush, completion, updateThreads, hth]
          rfl
  | creating job itrs ms inputFaces =>
    cases h
    simp only [flush, completion, Completion.apply, Except.map, List.append_nil]
    rfl
  | showing itrs =>
    cases itrs with
    | nil =>
      cases h
      simp only [flush, completion, shownFrom, ok_bind, List.append_nil]
    | cons itr itrs =>
      simp only [loopStep] at h
      cases hth : g.gThreads.get? itr with
      | none =>
        rw [hth] at h
        cases h
      | some th =>
        simp only [hth] at h
        by_cases hshown : isShown cfg th = true
        · rw [if_pos hshown] at h
          obtain ⟨f, hf, h⟩ := bind_eq_ok.mp h
          cases h
          simp only [flush, completion, shownFrom, hth, if_pos hshown, hf, ok_bind]
          cases shownFrom cfg g.gThreads itrs with
          | error f => rfl
          | ok fs =>
            simp only [ok_bind, List.append_assoc, List.singleton_append]
            rfl
        · rw [if_neg hshown] at h
          cases h
          simp only [flush, completion, shownFrom, hth, if_neg hshown]

/-! ### Where a larger step begins -/

omit [FloatOps F] in
/-- A completion that changes no entry. -/
theorem apply_of_unchanged (l : NodeList FDFaceThread) (fs : List Face) (js : List Job)
    (pc : MainPC F) (g : Shared F) : (⟨fun _ seq => seq, l, fs, js, pc⟩ : Completion F).apply g =
      { g with gThreads := l, gFacesInCurrentFrame := fs, jobs := g.jobs ++ js } := by
  simp only [Completion.apply]
  rw [NodeList.alter_eq_self]
  exact fun _ _ => rfl

omit [FloatOps F] in
/-- A completion that changes the entry popped. -/
theorem apply_of_emptied (cur : Nat) (rest : List CvRect) (l : NodeList FDFaceThread)
    (fs : List Face) (pc : MainPC F) (g : Shared F) :
    (⟨fun a seq => if a = cur then rest else seq, l, fs, [], pc⟩ : Completion F).apply g = { g with
      gHistory := g.gHistory.modify cur fun entry => { entry with pFacesSeq := rest }
      gThreads := l
      gFacesInCurrentFrame := fs } := by
  have hhistory : g.gHistory.alter (Completion.entry ⟨fun a seq => if a = cur then rest else seq,
      l, fs, [], pc⟩) = g.gHistory.modify cur fun entry => { entry with pFacesSeq := rest } := by
    refine NodeList.alter_congr _ fun a e _ => ?_
    unfold Completion.entry
    dsimp only
    split <;> rfl
  simp only [Completion.apply, hhistory, List.append_nil]

theorem flush_fine (c : System F) : flush cfg c.fine = .ok c := by
  simp only [flush, System.fine, completion, Except.map, apply_of_unchanged, List.append_nil]

omit [FloatOps F] in
/-- Reading through the iterators finds the threads themselves. -/
theorem shownFrom_of_nodes_eq {l : NodeList FDFaceThread} {post : List (Nat × FDFaceThread)} :
    ∀ (pre : List (Nat × FDFaceThread)), l.nodes = pre ++ post →
      shownFrom cfg l (post.map Prod.fst) = shownFaces cfg (post.map Prod.snd) := by
  induction post with
  | nil => exact fun _ _ => rfl
  | cons p post ih =>
    intro pre h
    have hget := NodeList.get?_of_nodes_eq h
    have hrest := ih (pre ++ [p]) (by rw [h, List.append_assoc, List.singleton_append])
    simp only [List.map_cons, shownFrom, hget, shownFaces, hrest]

omit [FloatOps F] in
theorem shownFrom_addrs (l : NodeList FDFaceThread) :
    shownFrom cfg l l.addrs = shownFaces cfg l.vals :=
  shownFrom_of_nodes_eq [] rfl

/-- The first of the smaller steps and the flush make up the larger step. -/
theorem flush_enterStep (c : System F) :
    (enterStep cfg c.fine c.main >>= fun t => orHalt (flush cfg t)) = mainStep cfg c c.main := by
  obtain ⟨g, pc, pr⟩ := c
  cases pc with
  | idle => rfl
  | pushed cur now =>
    simp only [enterStep, mainStep, matchThreads, System.fine]
    cases sampleFps cfg g g.processedFrameCounter now with
    | error f => rfl
    | ok g₁ =>
      simp only [orHalt_ok, ok_bind]
      cases hget : g₁.gHistory.get? cur with
      | none => rfl
      | some entry =>
        simp only [ok_bind, flush, completion, hget, takeInputFaces]
        cases matchFaces cfg g₁.gThreads
            (popFaces g.processedFrameCounter entry.pFacesSeq.length entry.pFacesSeq []).1
            (initMatches g₁.gThreads) with
        | error f => rfl
        | ok r =>
          simp only [ok_bind]
          cases updateThreads g₁.gThreads.addrs r.1 g₁.gThreads with
          | error f => rfl
          | ok l =>
            simp only [ok_bind, Except.map, apply_of_emptied, orHalt_ok]
  | deleting itrs ms inputFaces =>
    cases itrs with
    | nil => exact congrArg orHalt (@flush_fine F _ cfg ⟨_, .seeded, pr⟩)
    | cons itr itrs =>
      cases ms with
      | nil => rfl
      | cons m ms =>
        simp only [enterStep, mainStep, System.fine, deleteIfExceeds, deleteThread]
        cases hth : g.gThreads.get? m.th with
        | none => rfl
        | some th =>
          simp only
          split
          · cases hdel : g.gThreads.get? itr with
            | none => rfl
            | some th' =>
              simp only [ok_bind, orHalt_ok, flush, completion, Except.map, apply_of_unchanged]
          · exact congrArg orHalt (@flush_fine F _ cfg ⟨g, .deleting itrs ms inputFaces, pr⟩)
  | seeded =>
    simp only [enterStep, mainStep, System.fine, showFaces]
    cases pruneThreads cfg g with
    | error f => rfl
    | ok g₁ =>
      simp only [orHalt_ok, ok_bind, flush, completion, shownFrom_addrs]
      cases shownFaces cfg g₁.gThreads.vals with
      | error f => rfl
      | ok fs =>
        simp only [ok_bind, Except.map, apply_of_unchanged, orHalt_ok, List.append_nil,
          List.nil_append]

/-! ### Ending what was begun -/

/-- As long as the flush comes to its end, so does the next turn of a loop, and it brings
the end nearer. -/
theorem loopStep_total {s : FineSystem F} {c : System F} (h : flush cfg s = .ok c)
    (hloop : ∀ pc, s.main ≠ .coarse pc) :
    ∃ t, loopStep cfg s s.main = .ok t ∧ t.turnsLeft < s.turnsLeft := by
  obtain ⟨g, pc, pr⟩ := s
  obtain ⟨d, hd, -⟩ := map_eq_ok.mp h
  cases pc with
  | coarse pc => exact absurd rfl (hloop pc)
  | popping cur frameId inputFaces =>
    simp only [completion] at hd
    cases hget : g.gHistory.get? cur with
    | none =>
      rw [hget] at hd
      cases hd
    | some entry =>
      cases hpop : cvSeqPop entry.pFacesSeq with
      | none =>
        refine ⟨_, by simp only [loopStep, hget, hpop]; rfl, ?_⟩
        simp only [FineSystem.turnsLeft, hget, Option.elim_some]
        omega
      | some p =>
        obtain ⟨r, seq⟩ := p
        refine ⟨_, by simp only [loopStep, hget, hpop]; rfl, ?_⟩
        have hlength := congrArg List.length (eq_snoc_of_cvSeqPop hpop)
        rw [List.length_append, List.length_singleton] at hlength
        simp only [FineSystem.turnsLeft, NodeList.modify, NodeList.get?_alter, hget,
          Option.map_some, if_true, Option.elim_some, List.length_append, List.length_singleton]
        omega
  | matching faces left ms =>
    obtain ⟨r, hr, -⟩ := bind_eq_ok.mp hd
    cases faces with
    | nil =>
      refine ⟨_, rfl, ?_⟩
      simp only [FineSystem.turnsLeft, NodeList.addrs_length, List.length_nil]
      omega
    | cons face faces =>
      obtain ⟨q, hq, -⟩ := bind_eq_ok.mp hr
      refine ⟨_, by simp only [loopStep, hq, ok_bind]; rfl, ?_⟩
      simp only [FineSystem.turnsLeft, List.length_cons]
      omega
  | updating itrs ahead ms inputFaces =>
    obtain ⟨l, hl, -⟩ := bind_eq_ok.mp hd
    cases itrs with
    | nil =>
      refine ⟨_, rfl, ?_⟩
      simp only [FineSystem.turnsLeft]
      omega
    | cons itr itrs =>
      cases ahead with
      | nil => cases hl
      | cons m ahead =>
        simp only [updateThreads] at hl
        cases hth : g.gThreads.get? m.th with
        | none =>
          rw [hth] at hl
          cases hl
        | some th =>
          refine ⟨_, by simp only [loopStep, hth]; rfl, ?_⟩
          simp only [FineSystem.turnsLeft, List.length_cons]
          omega
  | creating job itrs ms inputFaces =>
    refine ⟨_, rfl, ?_⟩
    simp only [FineSystem.turnsLeft]
    omega
  | showing itrs =>
    obtain ⟨fs, hfs, -⟩ := bind_eq_ok.mp hd
    cases itrs with
    | nil =>
      refine ⟨_, rfl, ?_⟩
      simp only [FineSystem.turnsLeft]
      omega
    | cons itr itrs =>
      simp only [shownFrom] at hfs
      cases hth : g.gThreads.get? itr with
      | none =>
        rw [hth] at hfs
        cases hfs
      | some th =>
        simp only [hth] at hfs
        by_cases hshown : isShown cfg th = true
        · rw [if_pos hshown] at hfs
          obtain ⟨f, hf, -⟩ := bind_eq_ok.mp hfs
          refine ⟨_, by simp only [loopStep, hth, if_pos hshown, hf, ok_bind]; rfl, ?_⟩
          simp only [FineSystem.turnsLeft, List.length_cons]
          omega
        · refine ⟨_, by simp only [loopStep, hth, if_neg hshown]; rfl, ?_⟩
          simp only [FineSystem.turnsLeft, List.length_cons]
          omega

/-! ## The two systems -/

/-- Where the main thread is between two larger steps, only its own next step is a smaller one. -/
theorem fineStep_fine {a : Action} (hmain : a ≠ .main) (c : System F) :
    fineStep cfg c.fine a = (step cfg c a).map System.fine := by
  cases a with
  | frame inp =>
    obtain ⟨g, pc, pr⟩ := c
    cases pc with
    | idle =>
      simp only [fineStep, step, System.fine]
      cases recordFrame g inp <;> rfl
    | _ => rfl
  | main => exact absurd rfl hmain
  | pruner =>
    simp only [fineStep, step, System.fine]
    cases pruneHistory c.sh c.pruner <;> rfl
  | job k isOk =>
    simp only [fineStep, step, System.fine]
    cases c.sh.jobs[k]? with
    | none => rfl
    | some j =>
      simp only
      split
      · rfl
      · cases saveAndDeleteThread cfg c.sh k j isOk <;> rfl

/-- The main thread is between two larger steps, or in a loop. -/
theorem fine_or_loop (s : FineSystem F) : (∃ c : System F, s = c.fine) ∨
    (∀ pc, s.main ≠ .coarse pc) ∧ fineStep cfg s .main = orHalt (loopStep cfg s s.main) := by
  obtain ⟨g, pc, pr⟩ := s
  cases pc with
  | coarse pc => exact .inl ⟨⟨g, pc, pr⟩, rfl⟩
  | _ => exact .inr ⟨fun _ h => (by cases h), rfl⟩

/-- No frame comes in while the main thread is in a loop. -/
theorem fineStep_frame {s : FineSystem F} {a : Action} (hloop : ∀ pc, s.main ≠ .coarse pc)
    (hframe : a.isFrame = true) : fineStep cfg s a = .error .disabled := by
  cases a with
  | frame inp =>
    simp only [fineStep]
    split
    · next hidle => exact absurd hidle (hloop _)
    · rfl
  | _ => cases hframe

theorem fineStep_follows {s t : FineSystem F} {a : Action} {c' : System F}
    (h : fineStep cfg s a = .ok t) (hc : flush cfg t = .ok c') :
    ∃ c, flush cfg s = .ok c ∧ (c' = c ∨ step cfg c a = .ok c') := by
  obtain ⟨c, rfl⟩ | ⟨hloop, hturn⟩ := @fine_or_loop F _ cfg s
  · refine ⟨c, flush_fine c, .inr ?_⟩
    by_cases hmain : a = .main
    · subst hmain
      rw [step, ← flush_enterStep]
      exact bind_eq_ok.mpr ⟨t, h, orHalt_eq_ok.mpr hc⟩
    · rw [fineStep_fine hmain] at h
      obtain ⟨c₁, hstep, rfl⟩ := map_eq_ok.mp h
      cases (flush_fine c₁).symm.trans hc
      exact hstep
  · by_cases hmain : a = .main
    · subst hmain
      rw [hturn] at h
      exact ⟨c', by rw [← flush_loopStep (orHalt_eq_ok.mp h), hc], .inl rfl⟩
    · cases hframe : a.isFrame with
      | true =>
        rw [fineStep_frame hloop hframe] at h
        cases h
      | false =>
        obtain ⟨c, hflush, hstep⟩ := flush_other h hmain hframe hc
        exact ⟨c, hflush, .inr hstep⟩

theorem fineStep_begins {a : Action} {c c' : System F} (h : step cfg c a = .ok c') :
    ∃ t, fineStep cfg c.fine a = .ok t ∧ flush cfg t = .ok c' := by
  by_cases hmain : a = .main
  · subst hmain
    have henter := @flush_enterStep F _ cfg c
    rw [show mainStep cfg c c.main = .ok c' from h] at henter
    obtain ⟨t, ht, hflush⟩ := bind_eq_ok.mp henter
    exact ⟨t, ht, orHalt_eq_ok.mp hflush⟩
  · refine ⟨c'.fine, ?_, flush_fine c'⟩
    rw [fineStep_fine hmain, h]
    rfl

theorem fineStep_drains (s : FineSystem F) (c : System F) (h : flush cfg s = .ok c) :
    s = c.fine ∨ ∃ t, fineStep cfg s .main = .ok t ∧ flush cfg t = .ok c ∧
      t.turnsLeft < s.turnsLeft := by
  obtain ⟨c₁, rfl⟩ | ⟨hloop, hturn⟩ := @fine_or_loop F _ cfg s
  · cases (flush_fine c₁).symm.trans h
    exact .inl rfl
  · obtain ⟨t, ht, hless⟩ := loopStep_total h hloop
    exact .inr ⟨t, hturn.trans (orHalt_eq_ok.mpr ht), (flush_loopStep ht).trans h, hless⟩

/-- The smaller steps and the larger ones, as the flush relates them. -/
theorem flushes (cfg : Config F) : Flushes (fineStep cfg) (step cfg) System.fine (flush cfg)
    Action.main FineSystem.turnsLeft where
  embedded := flush_fine
  follows _ _ _ _ := fineStep_follows
  begins _ _ _ := fineStep_begins
  drains := fineStep_drains

/-- Whether the pruner and the jobs act between the turns of the main thread's loops or
only between its larger steps, the system reaches the same states. -/
theorem fine_reaches_iff (cfg : Config F) (now : Int) (s : System F) :
    (∃ as, run (fineStep cfg) (start cfg now).fine as = .ok s.fine) ↔
      ∃ as, run (step cfg) (start cfg now) as = .ok s :=
  (flushes cfg).reaches_iff

end

end PlanetariumFD
