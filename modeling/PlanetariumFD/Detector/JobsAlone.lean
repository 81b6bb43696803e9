import PlanetariumFD.Foundation.Refinement
import PlanetariumFD.Detector.JobTurns
import PlanetariumFD.Detector.WholeJob

/-!
# A job does not depend on the schedule

While a job walks over the history, frames are pushed behind it, entries are erased
before it, and other jobs come and go. As long as it finds its entries nothing of this
matters: played alone from where it started, its own turns lead it to the same place.
-/

namespace PlanetariumFD

open Outcome Transition

/-! ## What a turn reads -/

/-- The turn of a loop at the entry of the next face. -/
def takeFace {F : Type} (cfg : Config F) (isOk : Bool) (todo : List Export) (next : Option Nat)
    (fs : List Face) (saved : Int) : Export → JobPC
  | .images =>
    if isOk then
      if saved + 1 = cfg.maxJpgImagesSavedPerThread then .saving todo
      else .walking .images todo next fs (saved + 1)
    else .walking .images todo next fs saved
  | .video isSmoothVideo =>
    if isOk then .walking (.video isSmoothVideo) todo next fs saved else .saving todo

section
variable {F : Type} [FloatOps F] {cfg : Config F} {g : Shared F} {th : FDFaceThread} {isOk : Bool}
  {e : Export} {todo : List Export} {pc : JobPC}

/-- An export that has started has found the entry of its first face. -/
theorem startExport_found (h : startExport cfg g th isOk e todo = .ok pc) :
    (exportFaces cfg e th = .ok none ∧ pc = .saving todo) ∨
      ∃ f fs p, exportFaces cfg e th = .ok (some (f :: fs)) ∧ p ∈ g.gHistory.nodes ∧
        p.2.frameId = f.frameId ∧
        pc = (if e = .images ∨ isOk then .walking e todo (some p.1) (f :: fs) 0
          else .saving todo) := by
  obtain ⟨faces, hfaces, h⟩ := bind_eq_ok.mp h
  match faces with
  | none =>
    cases h
    exact .inl ⟨hfaces, rfl⟩
  | some [] => cases h
  | some (f :: fs) =>
    dsimp only at h
    split at h
    · cases h
    · obtain ⟨p, hp, h⟩ := bind_eq_ok.mp h
      split at h
      · cases h
      · next heq =>
        refine .inr ⟨f, fs, p, hfaces, (seekHistory_ok hp).1, not_not.mp heq, ?_⟩
        split at h
        · cases h
          rw [if_pos (.inl rfl)]
        · split at h
          · cases h
          · cases isOk <;> cases h <;> simp

omit [FloatOps F] in
/-- So has a turn of its loop. -/
theorem walkHistory_found {itr : Option Nat} {faces : List Face} {saved : Int}
    (h : walkHistory cfg g isOk e todo itr faces saved = .ok pc) :
    (faces = [] ∧ pc = .saving todo) ∨ ∃ f fs a entry, faces = f :: fs ∧ itr = some a ∧
      g.gHistory.get? a = some entry ∧
      ((entry.frameId < f.frameId ∧
          pc = .walking e todo (g.gHistory.next? a) (f :: fs) saved) ∨
        (entry.frameId = f.frameId ∧ entry.pFrame ≠ none ∧
          pc = takeFace cfg isOk todo (g.gHistory.next? a) fs saved e)) := by
  unfold walkHistory at h
  split at h
  · cases h
    exact .inl ⟨rfl, rfl⟩
  · next f fs =>
    split at h
    · cases h
    · next a =>
      split at h
      · cases h
      · next entry hget =>
        refine .inr ⟨f, fs, a, entry, rfl, rfl, hget, ?_⟩
        dsimp only at h
        split at h
        · next hlt =>
          cases h
          exact .inl ⟨hlt, rfl⟩
        · split at h
          · cases h
          · next heq =>
            refine .inr ⟨not_not.mp heq, ?_⟩
            split at h
            · cases h
            · next img himg =>
              refine ⟨by rw [himg]; simp, ?_⟩
              split_ifs at h with hok hmax
              · cases h
                rw [takeFace, if_pos hok, if_pos hmax]
              · cases h
                rw [takeFace, if_pos hok, if_neg hmax]
              · cases h
                rw [takeFace, if_neg hok]
            · next img isSmoothVideo himg =>
              refine ⟨by rw [himg]; simp, ?_⟩
              split_ifs at h with hok
              · cases h
                rw [takeFace, if_pos hok]
              · cases h
                rw [takeFace, if_neg hok]

omit [FloatOps F] in
/-- What a turn finds decides where it leads. -/
theorem walkHistory_eq {a : Nat} {entry : FDHistoryEntry} (f : Face) (fs : List Face) (saved : Int)
    (hget : g.gHistory.get? a = some entry) (hle : entry.frameId ≤ f.frameId)
    (himage : entry.pFrame ≠ none) : walkHistory cfg g isOk e todo (some a) (f :: fs) saved =
      .ok (if entry.frameId < f.frameId then .walking e todo (g.gHistory.next? a) (f :: fs) saved
        else takeFace cfg isOk todo (g.gHistory.next? a) fs saved e) := by
  obtain ⟨img, himg⟩ := Option.ne_none_iff_exists'.mp himage
  simp only [walkHistory, hget, himg]
  by_cases hlt : entry.frameId < f.frameId
  · rw [if_pos hlt, if_pos hlt]
  · rw [if_neg hlt, if_neg hlt, if_neg (by omega)]
    cases e with
    | images =>
      dsimp only [takeFace]
      split_ifs <;> rfl
    | video isSmoothVideo =>
      dsimp only [takeFace]
      split_ifs <;> rfl

end

/-! ## Stages -/

/-- Where a job stands, but for the iterator of a loop that has no face left: whether that
one is at the end of the list depends on the frames pushed meanwhile, and nothing reads it. -/
def JobPC.stage : JobPC → JobPC
  | .walking e todo _ [] saved => .walking e todo none [] saved
  | pc => pc

namespace JobPC

variable {pc : JobPC} {todo : List Export}

theorem stage_walking {e : Export} {itr : Option Nat} {faces : List Face} {saved : Int} :
    (JobPC.walking e todo itr faces saved).stage =
      .walking e todo (if faces = [] then none else itr) faces saved := by
  cases faces <;> rfl

theorem stage_eq_saving (h : pc.stage = .saving todo) : pc = .saving todo := by
  cases pc with
  | walking e todo' itr faces saved =>
    rw [stage_walking] at h
    cases h
  | _ => exact h

theorem stage_eq_started (h : pc.stage = .started) : pc = .started := by
  cases pc with
  | walking e todo' itr faces saved =>
    rw [stage_walking] at h
    cases h
  | _ => exact h

theorem stage_eq_finished (h : pc.stage = .finished) : pc = .finished := by
  cases pc with
  | walking e todo' itr faces saved =>
    rw [stage_walking] at h
    cases h
  | _ => exact h

theorem stage_eq_walking {e : Export} {itr : Option Nat} {faces : List Face} {saved : Int}
    (h : pc.stage = (JobPC.walking e todo itr faces saved).stage) :
    ∃ itr', pc = .walking e todo itr' faces saved ∧ (faces ≠ [] → itr' = itr) := by
  rw [stage_walking] at h
  cases pc with
  | walking e' todo' itr' faces' saved' =>
    rw [stage_walking] at h
    simp only [walking.injEq] at h
    obtain ⟨rfl, rfl, hitr, rfl, rfl⟩ := h
    refine ⟨itr', rfl, fun hne => ?_⟩
    rwa [if_neg hne, if_neg hne] at hitr
  | _ => cases h

end JobPC

/-- The next iterator is only looked at if there is a face left. -/
theorem takeFace_stage {F : Type} (cfg : Config F) (isOk : Bool) (todo : List Export)
    {next next' : Option Nat} {fs : List Face} (saved : Int) (e : Export)
    (h : fs ≠ [] → next = next') : (takeFace cfg isOk todo next fs saved e).stage =
      (takeFace cfg isOk todo next' fs saved e).stage := by
  by_cases hfs : fs = []
  · subst hfs
    cases e <;> dsimp only [takeFace] <;> split_ifs <;> rfl
  · rw [h hfs]

/-! ## One turn -/

section
variable {F : Type} [FloatOps F] {cfg : Config F} {s s₀ t : System F} {a : Action} {lo lo₀ k : Nat}
  {th : FDFaceThread} {isOk : Bool}

/-- A turn of an export in `s` that succeeds leads in `s₀` to the same place, if `s₀` has the
faces' frames and of those whatever `s` has. -/
theorem exportStep_stage (h : HistoryShape s lo) (h₀ : HistoryShape s₀ lo₀)
    (fresh : s₀.sh.gHistory.fresh ≤ s.sh.gHistory.fresh)
    (older : ∀ b ∈ s.sh.gHistory.addrs, b < s₀.sh.gHistory.fresh → b ∈ s₀.sh.gHistory.addrs)
    (hth₀ : FacesUpTo s₀.sh.processedFrameCounter th)
    (get : s.sh.gThreadsBeingSerialized.get? k = some th)
    (get₀ : s₀.sh.gThreadsBeingSerialized.get? k = some th) {pc pc' pc₀ : JobPC}
    (walks₀ : pc₀.Walks s₀.sh.processedFrameCounter th) (hstage : pc₀.stage = pc.stage)
    (hstep : exportStep cfg s.sh k isOk pc = .ok pc') :
    ∃ pc₀', exportStep cfg s₀.sh k isOk pc₀ = .ok pc₀' ∧ pc₀'.stage = pc'.stage := by
  have hcounter := h.counter
  have hcounter₀ := h₀.counter
  -- an entry of `s` for a frame up to the counter of `s₀` is in `s₀`
  have hentry : ∀ b, b ∈ s.sh.gHistory.addrs → (b : Int) + 1 ≤ s₀.sh.processedFrameCounter →
      ∃ x, (b, x) ∈ s₀.sh.gHistory.nodes ∧ x.frameId = b + 1 ∧ x.pFrame ≠ none := by
    intro b hb hle
    obtain ⟨x, hx⟩ := NodeList.mem_addrs_iff.mp (older b hb (by omega))
    exact ⟨x, hx, h₀.entries _ hx⟩
  cases pc with
  | started =>
    obtain rfl := JobPC.stage_eq_started hstage
    cases hstep
    exact ⟨_, rfl, rfl⟩
  | finished =>
    obtain rfl := JobPC.stage_eq_finished hstage
    cases hstep
    exact ⟨_, rfl, rfl⟩
  | saving todo =>
    obtain rfl := JobPC.stage_eq_saving hstage
    cases todo with
    | nil =>
      cases hstep
      exact ⟨_, rfl, rfl⟩
    | cons e todo =>
      simp only [exportStep, get] at hstep
      simp only [exportStep, get₀]
      obtain ⟨hnone, rfl⟩ | ⟨f, fs, p, hfaces, hp, hid, rfl⟩ := startExport_found hstep
      · exact ⟨_, by rw [startExport, hnone]; rfl, rfl⟩
      · -- the first face is not past the counter of `s₀`
        obtain hnone | ⟨faces, hsome, hexport⟩ := exportFaces_cases cfg e hth₀
        · cases hnone.symm.trans hfaces
        · obtain rfl : faces = f :: fs := by
            cases hsome.symm.trans hfaces
            rfl
          have hle := hexport.upTo f List.mem_cons_self
          have hpid := (h.entries p hp).1
          obtain ⟨x, hx, hxid, himage⟩ := hentry p.1 (List.mem_map_of_mem hp) (by omega)
          obtain ⟨pre, post, hnodes⟩ := List.append_of_mem hx
          have hseek := seekHistory_of_mem h₀.nodes_sorted hx
          have hxf : x.frameId = f.frameId := by omega
          dsimp only at hseek
          rw [hxf] at hseek
          exact ⟨_, startExport_eq todo hfaces hnodes hseek hxf (fun _ => himage) isOk, rfl⟩
  | walking e todo itr faces saved =>
    obtain ⟨itr₀, rfl, hitr⟩ := JobPC.stage_eq_walking hstage
    simp only [exportStep] at hstep ⊢
    obtain ⟨rfl, rfl⟩ | ⟨f, fs, b, entry, rfl, rfl, hget, hcase⟩ := walkHistory_found hstep
    · exact ⟨_, rfl, rfl⟩
    · obtain rfl := hitr (List.cons_ne_nil f fs)
      have hle := walks₀.upTo f List.mem_cons_self
      have hbid := (h.of_get? hget).2.2.1
      have hbf : entry.frameId ≤ f.frameId := by
        obtain ⟨hlt, -⟩ | ⟨heq, -⟩ := hcase
        · exact hlt.le
        · exact heq.le
      obtain ⟨x, hx, hxid, himage⟩ :=
        hentry b (NodeList.get?_isSome_iff.mp (by rw [hget]; rfl)) (by omega)
      have hget₀ := NodeList.get?_eq_some_iff.mpr hx
      have hxf : x.frameId ≤ f.frameId := by omega
      refine ⟨_, walkHistory_eq f fs saved hget₀ hxf himage, ?_⟩
      obtain ⟨hlt, rfl⟩ | ⟨heq, -, rfl⟩ := hcase
      · rw [if_pos (by omega), h.next_fits hget (f := f) (by omega) (by omega),
          h₀.next_fits hget₀ (f := f) (by omega) hle]
      · rw [if_neg (by omega)]
        refine takeFace_stage cfg isOk todo saved e fun hne => ?_
        -- the next face is of a later frame, which both histories have
        obtain ⟨g, gs, rfl⟩ := List.exists_cons_of_ne_nil hne
        have hlater := List.rel_of_pairwise_cons walks₀.increasing List.mem_cons_self
        have hgle := walks₀.upTo g (List.mem_cons_of_mem _ List.mem_cons_self)
        rw [h.next_fits hget (f := g) (by omega) (by omega),
          h₀.next_fits hget₀ (f := g) (by omega) hgle]

/-- No step makes an entry of an old frame. -/
theorem StepEffect.mem_addrs (e : StepEffect cfg s a t) {b : Nat} (hb : b ∈ t.sh.gHistory.addrs)
    (hold : b < s.sh.gHistory.fresh) : b ∈ s.sh.gHistory.addrs := by
  cases e with
  | frame pc lt =>
    simp only [recorded_gHistory, NodeList.addrs_pushBack, List.mem_append,
      List.mem_singleton] at hb
    obtain hb | rfl := hb
    · exact hb
    · exact absurd hold (lt_irrefl _)
  | process pc eff =>
    rw [eff.others] at hb
    simpa only [NodeList.addrs_modify] using hb
  | erase pc get below long =>
    simp only [eraseEntry, NodeList.addrs_erase, NodeList.addrs_modify] at hb
    exact List.mem_of_mem_filter hb
  | _ => exact hb

theorem StepEffect.fresh_le (e : StepEffect cfg s a t) :
    s.sh.gHistory.fresh ≤ t.sh.gHistory.fresh := by
  cases hframe : a.isFrame with
  | false => exact (e.fresh_eq hframe).ge
  | true =>
    cases e with
    | frame pc lt => simp
    | _ => cases hframe

/-! ## Runs -/

/-- Job `k` stands at the same stage with the same thread in both states, and `s₀` has not
erased any entry of its frames that `s` still has. -/
structure SameForJob (cfg : Config F) (k : Nat) (s s₀ : System F) : Prop where
  reachable : ∃ now as, run (step cfg) (start cfg now) as = .ok s₀
  job : ∃ j pc₀, s.sh.jobs[k]? = some j ∧ s₀.sh.jobs[k]? = some { j with pc := pc₀ } ∧
    pc₀.stage = j.pc.stage
  thread : s₀.sh.gThreadsBeingSerialized.get? k = s.sh.gThreadsBeingSerialized.get? k
  fresh : s₀.sh.gHistory.fresh ≤ s.sh.gHistory.fresh
  older : ∀ b ∈ s.sh.gHistory.addrs, b < s₀.sh.gHistory.fresh → b ∈ s₀.sh.gHistory.addrs

/-- The others neither touch the job nor bring back what they erased. -/
theorem SameForJob.others (h : SameForJob cfg k s s₀) (J : JobsOwn s) (e : StepEffect cfg s a t)
    (hother : a.isJob k = false) : SameForJob cfg k t s₀ := by
  obtain ⟨j, pc₀, hj, hj₀, hstage⟩ := h.job
  obtain ⟨hkept, hthread⟩ := e.job_kept J hj hother
  exact {
    reachable := h.reachable
    job := ⟨j, pc₀, hkept, hj₀, hstage⟩
    thread := h.thread.trans hthread.symm
    fresh := h.fresh.trans e.fresh_le
    older := fun b hb hlt => h.older b (e.mem_addrs hb (hlt.trans_le h.fresh)) hlt }

/-- The job's own turn leads to the same place in both states. -/
theorem saveAndDeleteThread_same (h1 : 1 ≤ cfg.maxThreadHistorySize)
    (hs : ∃ now as, run (step cfg) (start cfg now) as = .ok s) (h : SameForJob cfg k s s₀)
    {j : Job} (hj : s.sh.jobs[k]? = some j) {pc₀ : JobPC}
    (hj₀ : s₀.sh.jobs[k]? = some { j with pc := pc₀ }) (hstage : pc₀.stage = j.pc.stage)
    (hactive : j.pc ≠ .finished) {g : Shared F}
    (hstep : saveAndDeleteThread cfg s.sh k j isOk = .ok g) :
    ∃ g₀ pc pc₀', saveAndDeleteThread cfg s₀.sh k { j with pc := pc₀ } isOk = .ok g₀ ∧
      g.jobs = s.sh.jobs.set k { j with pc := pc } ∧
      g₀.jobs = s₀.sh.jobs.set k { j with pc := pc₀' } ∧ pc₀'.stage = pc.stage ∧
      g₀.gThreadsBeingSerialized.get? k = g.gThreadsBeingSerialized.get? k ∧
      g.gHistory = s.sh.gHistory ∧ g₀.gHistory = s₀.sh.gHistory := by
  obtain ⟨now, as, hrun⟩ := hs
  obtain ⟨now₀, as₀, hrun₀⟩ := h.reachable
  have J := jobsOwn_of_run hrun
  obtain ⟨th, hth, -⟩ := J.entry (List.mem_of_getElem? hj) hactive
  have hk := (J.pTh_eq hj).1
  rw [hk] at hth
  have hth₀ := h.thread.trans hth
  unfold saveAndDeleteThread at hstep
  split at hstep
  · next hpc =>
    -- both prune the same thread
    rw [hpc] at hstage
    obtain rfl := JobPC.stage_eq_started hstage
    simp only [startSave, hk, hth] at hstep
    obtain ⟨th', hprune, hstep⟩ := bind_eq_ok.mp hstep
    cases hstep
    have hsave : startSave cfg s₀.sh k { j with pc := .started } = .ok (setJobPC { s₀.sh with
        gThreadsBeingSerialized := s₀.sh.gThreadsBeingSerialized.modify k fun _ => th' } k
          { j with pc := .started }
          (.saving (if passesSave cfg th' then [.images, .video false, .video true] else []))) := by
      simp only [startSave, hk, hth₀, hprune, ok_bind]
    refine ⟨_, _, _, hsave, rfl, rfl, rfl, ?_, rfl, rfl⟩
    simp [setJobPC, NodeList.modify, NodeList.get?_alter, hth, hth₀]
  · next hpc =>
    rw [hpc] at hstage
    obtain rfl := JobPC.stage_eq_saving hstage
    obtain ⟨g', hg', hstep⟩ := bind_eq_ok.mp hstep
    cases hstep
    simp only [deleteThreadFromGThreadsBeingSerialized, hk, hth] at hg'
    cases hg'
    have hsave : saveAndDeleteThread cfg s₀.sh k { j with pc := .saving [] } isOk =
        .ok (setJobPC { s₀.sh with
          gThreadsBeingSerialized := s₀.sh.gThreadsBeingSerialized.erase k } k
            { j with pc := .saving [] } .finished) := by
      simp only [saveAndDeleteThread, deleteThreadFromGThreadsBeingSerialized, hk, hth₀, ok_bind]
    refine ⟨_, _, _, hsave, rfl, rfl, rfl, ?_, rfl, rfl⟩
    have hgone : ∀ l : NodeList FDFaceThread, (l.erase k).get? k = none := fun l => by
      rw [NodeList.get?_eq_none_iff, NodeList.addrs_erase]
      simp
    simp only [setJobPC, hgone]
  · next hpc => exact absurd hpc hactive
  · next hstart hdone _ =>
    obtain ⟨pc', hpc', hstep⟩ := bind_eq_ok.mp hstep
    cases hstep
    rw [hk] at hpc'
    obtain ⟨-, lo, hshape, -⟩ := historyShape_of_run hrun
    obtain ⟨-, lo₀, hshape₀, -⟩ := historyShape_of_run hrun₀
    have hfaces₀ := (storedFaces_of_run h1 hrun₀).saved _ (NodeList.get?_eq_some_iff.mp hth₀)
    have hwalks₀ := jobsWalk_of_run h1 hrun₀ k _ th hj₀ hth₀
    obtain ⟨pc₀', hpc₀', hstage'⟩ := exportStep_stage hshape hshape₀ h.fresh h.older hfaces₀ hth
      hth₀ hwalks₀ hstage hpc'
    refine ⟨setJobPC s₀.sh k { j with pc := pc₀ } pc₀', pc', pc₀', ?_, rfl, rfl, hstage', ?_,
      rfl, rfl⟩
    · unfold saveAndDeleteThread
      split
      · next hpc =>
        obtain rfl : pc₀ = .started := hpc
        exact absurd (JobPC.stage_eq_started hstage.symm) hstart
      · next hpc =>
        obtain rfl : pc₀ = .saving [] := hpc
        exact absurd (JobPC.stage_eq_saving hstage.symm) hdone
      · next hpc =>
        obtain rfl : pc₀ = .finished := hpc
        exact absurd (JobPC.stage_eq_finished hstage.symm) hactive
      · rw [hk, hpc₀', ok_bind]
    · exact h.thread

/-- What is left of the schedule when only one job is looked at. -/
theorem jobUnwinding (h1 : 1 ≤ cfg.maxThreadHistorySize) (k : Nat) :
    Unwinding (step cfg) (fun s => ∃ now as, run (step cfg) (start cfg now) as = .ok s)
      (Action.isJob k) (SameForJob cfg k) where
  keeps := by
    rintro s a t ⟨now, as, hrun⟩ hst
    exact ⟨now, as ++ [a], run_snoc_iff.mpr ⟨s, hrun, hst⟩⟩
  others := by
    rintro s a t s₀ ⟨now, as, hrun⟩ h hother hst
    exact h.others (jobsOwn_of_run hrun) (step_cases hst) hother
  matched := by
    rintro s a t s₀ hs h hown hst
    obtain ⟨j, pc₀, hj, hj₀, hstage⟩ := h.job
    cases a with
    | job k' isOk =>
      obtain rfl : k' = k := of_decide_eq_true hown
      simp only [step, hj] at hst
      split at hst
      · cases hst
      · next hactive =>
        obtain ⟨g, hg, hst⟩ := bind_eq_ok.mp hst
        cases hst
        have hactive₀ : pc₀ ≠ .finished := by
          rintro rfl
          exact hactive (JobPC.stage_eq_finished hstage.symm)
        obtain ⟨g₀, pc, pc₀', hg₀, hjobs, hjobs₀, hstage', hthread, hhist, hhist₀⟩ :=
          saveAndDeleteThread_same h1 hs h hj hj₀ hstage hactive (orHalt_eq_ok.mp hg)
        have hst₀ : step cfg s₀ (.job k' isOk) = .ok { s₀ with sh := g₀ } := by
          simp only [step, hj₀, if_neg hactive₀, hg₀, orHalt_ok, ok_bind]
        obtain ⟨now₀, as₀, hrun₀⟩ := h.reachable
        refine ⟨_, hst₀, ⟨⟨now₀, as₀ ++ [.job k' isOk], run_snoc_iff.mpr ⟨s₀, hrun₀, hst₀⟩⟩,
          ⟨{ j with pc := pc }, pc₀', ?_, ?_, hstage'⟩, hthread, ?_, ?_⟩⟩
        · dsimp only
          rw [hjobs, List.getElem?_set_self (List.getElem?_eq_some_iff.mp hj).1]
        · dsimp only
          rw [hjobs₀, List.getElem?_set_self (List.getElem?_eq_some_iff.mp hj₀).1]
        · dsimp only
          rw [hhist, hhist₀]
          exact h.fresh
        · dsimp only
          rw [hhist, hhist₀]
          exact h.older
    | _ => cases hown

/-- Whatever the others do in between, the job's own turns played alone succeed too, and
leave the job at the same stage with the same thread. The place in the history is part of
the stage as long as faces are left: it is not read after that, nor compared. -/
theorem job_alone (h1 : 1 ≤ cfg.maxThreadHistorySize) {now : Int} {as bs : List Action}
    (hs : run (step cfg) (start cfg now) as = .ok s) (hk : k < s.sh.jobs.length)
    (ht : run (step cfg) s bs = .ok t) :
    ∃ t₀ j pc₀, run (step cfg) s (bs.filter (Action.isJob k)) = .ok t₀ ∧
      t.sh.jobs[k]? = some j ∧ t₀.sh.jobs[k]? = some { j with pc := pc₀ } ∧
      pc₀.stage = j.pc.stage ∧
      t₀.sh.gThreadsBeingSerialized.get? k = t.sh.gThreadsBeingSerialized.get? k := by
  have hsame : SameForJob cfg k s s :=
    ⟨⟨now, as, hs⟩, ⟨_, _, List.getElem?_eq_getElem hk, List.getElem?_eq_getElem hk, rfl⟩, rfl,
      le_refl _, fun b hb _ => hb⟩
  obtain ⟨t₀, hrun, h⟩ := (jobUnwinding h1 k).purge ⟨now, as, hs⟩ hsame ht
  obtain ⟨j, pc₀, hj, hj₀, hstage⟩ := h.job
  exact ⟨t₀, j, pc₀, hrun, hj, hj₀, hstage, h.thread⟩

end

/-- Two frames and the pruner get in between the job's turns. -/
def interruptedTurns : List Action :=
  .job 0 true :: quietFrame ++ (.job 0 true :: .pruner :: quietFrame ++ [.job 0 true, .job 0 true])

theorem job_alone_fourSeen : ∃ s t, run (step earlyVideos) (start earlyVideos 0) fourSeen = .ok s ∧
    run (step earlyVideos) s interruptedTurns = .ok t ∧
    ∃ t₀, run (step earlyVideos) s (List.replicate 4 (.job 0 true)) = .ok t₀ ∧
      t₀.sh.gThreadsBeingSerialized.get? 0 = t.sh.gThreadsBeingSerialized.get? 0 := by
  have hruns : returns (fun s => decide (0 < s.sh.jobs.length) &&
      returns (fun _ => true) (run (step earlyVideos) s interruptedTurns))
      (run (step earlyVideos) (start earlyVideos 0) fourSeen) = true := by decide +kernel
  obtain ⟨s, hs, hdec⟩ := exists_of_returns hruns
  obtain ⟨hjobs, hturns⟩ := (Bool.and_eq_true _ _).mp hdec
  obtain ⟨t, ht, -⟩ := exists_of_returns hturns
  obtain ⟨t₀, j, pc₀, ht₀, -, -, -, hthread⟩ :=
    job_alone (by decide) hs (of_decide_eq_true hjobs) ht
  exact ⟨s, t, hs, ht, t₀, ht₀, hthread⟩

end PlanetariumFD
