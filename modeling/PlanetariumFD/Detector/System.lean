import PlanetariumFD.Detector.Frames
import PlanetariumFD.Detector.Pruner
import PlanetariumFD.Detector.SaveJob

/-!
# The interleaved system

The main thread, the pruner and the save jobs on the shared state, one critical
section a step, in any order. `step_cases` says what each step can do; the
invariants are derived from it.
-/

namespace PlanetariumFD

open Outcome Transition

/-- Where the main thread stands: between two frames, before `processThreads2`, in
the deletion loop (the iterators and `matches` still ahead, and the faces left
over), or before the face lists are pruned and shown. -/
inductive MainPC (F : Type)
  | idle
  | pushed (cur : Nat) (now : Int)
  | deleting (itrs : List Nat) (ms : List (Matching F)) (inputFaces : List Face)
  | seeded

def MainPC.isIdle {F : Type} : MainPC F → Bool
  | .idle => true
  | _ => false

theorem MainPC.eq_idle {F : Type} {pc : MainPC F} (h : pc.isIdle = true) : pc = .idle := by
  cases pc with
  | idle => rfl
  | _ => cases h

structure System (F : Type) where
  sh : Shared F
  main : MainPC F
  pruner : PrunerPC

inductive Action
  | frame (inp : FrameInput)
  | main
  | pruner
  | job (k : Nat) (isOk : Bool)
  deriving DecidableEq, Repr

def Action.isFrame : Action → Bool
  | .frame _ => true
  | _ => false

/-- Why there is no next state: the party cannot take this action, or it fails. -/
inductive Halt
  | disabled
  | fault (f : Fault)
  deriving DecidableEq, Repr

def orHalt {A : Type} (x : Except Fault A) : Except Halt A := x.mapError .fault

section
variable {F : Type} [FloatOps F]

def mainStep (cfg : Config F) (s : System F) : MainPC F → Except Halt (System F)
  | .idle => .error .disabled
  | .pushed cur now => do
    let m ← orHalt (matchThreads cfg s.sh cur s.sh.processedFrameCounter now)
    .ok { s with sh := m.sh, main := .deleting m.sh.gThreads.addrs m.ms m.inputFaces }
  | .deleting [] _ inputFaces =>
    .ok { s with
      sh := { s.sh with gThreads := seedThreads s.sh.gThreads inputFaces }
      main := .seeded }
  | .deleting (_ :: _) [] _ => .error (.fault .indexOutOfRange)
  | .deleting (itr :: itrs) (m :: ms) inputFaces => do
    let g ← orHalt (deleteIfExceeds cfg itr m s.sh)
    .ok { s with sh := g, main := .deleting itrs ms inputFaces }
  | .seeded => do
    let g ← orHalt (pruneThreads cfg s.sh)
    let g ← orHalt (showFaces cfg g)
    .ok { s with sh := g, main := .idle }

def step (cfg : Config F) (s : System F) : Action → Except Halt (System F)
  | .frame inp =>
    match s.main with
    | .idle => do
      let r ← orHalt (recordFrame s.sh inp)
      .ok { s with sh := r.1, main := .pushed r.2 inp.now }
    | _ => .error .disabled
  | .main => mainStep cfg s s.main
  | .pruner => do
    let r ← orHalt (pruneHistory s.sh s.pruner)
    .ok { s with sh := r.1, pruner := r.2 }
  | .job k isOk =>
    match s.sh.jobs[k]? with
    | none => .error .disabled
    | some j =>
      if j.pc = .finished then .error .disabled
      else do
        let g ← orHalt (saveAndDeleteThread cfg s.sh k j isOk)
        .ok { s with sh := g }

def start (cfg : Config F) (now : Int) : System F := ⟨fdInit cfg now, .idle, .waiting⟩

end

/-! ## What a step can do -/

theorem orHalt_eq_ok {A : Type} {x : Except Fault A} {a : A} : orHalt x = .ok a ↔ x = .ok a := by
  cases x <;> simp [orHalt, Except.mapError]

@[simp] theorem orHalt_ok {A : Type} (a : A) : orHalt (.ok a) = .ok a := rfl

section
variable {F : Type} [FloatOps F]

/-- The steps, with all they change and the tests they passed. -/
inductive StepEffect (cfg : Config F) (s : System F) : Action → System F → Prop
  | frame {inp} (pc : s.main = .idle) (lt : s.sh.processedFrameCounter < intMax) :
    StepEffect cfg s (.frame inp)
      { s with sh := recorded s.sh inp, main := .pushed s.sh.gHistory.fresh inp.now }
  | process {cur now m} (pc : s.main = .pushed cur now)
    (e : MatchEffect cfg s.sh cur s.sh.processedFrameCounter m) :
    StepEffect cfg s .main
      { s with sh := m.sh, main := .deleting m.sh.gThreads.addrs m.ms m.inputFaces }
  | keep {itr itrs m ms inputFaces th} (pc : s.main = .deleting (itr :: itrs) (m :: ms) inputFaces)
    (get : s.sh.gThreads.get? m.th = some th) (under : exceedsLimit cfg th = false) :
    StepEffect cfg s .main { s with main := .deleting itrs ms inputFaces }
  | delete {itr itrs m ms inputFaces th th'}
    (pc : s.main = .deleting (itr :: itrs) (m :: ms) inputFaces)
    (get : s.sh.gThreads.get? m.th = some th) (past : exceedsLimit cfg th = true)
    (get' : s.sh.gThreads.get? itr = some th') :
    StepEffect cfg s .main { s with
      sh := { s.sh with
        gThreadsBeingSerialized := s.sh.gThreadsBeingSerialized.pushBack th'
        gThreads := s.sh.gThreads.erase itr
        jobs := s.sh.jobs ++ [⟨s.sh.gThreadsBeingSerialized.fresh, th'.ident, .started⟩] }
      main := .deleting itrs ms inputFaces }
  | seed {ms inputFaces} (pc : s.main = .deleting [] ms inputFaces) :
    StepEffect cfg s .main { s with
      sh := { s.sh with
        gThreads := s.sh.gThreads.pushAll
          ((inputFaces.zipIdx s.sh.gThreads.fresh).map fun p => seededThread p.2 p.1) }
      main := .seeded }
  | finish {l fs} (pc : s.main = .seeded)
    (prune : l = s.sh.gThreads ∨ ((∀ th ∈ s.sh.gThreads.vals, th.pruneFacesList cfg = .ok (th.pruned cfg)) ∧
      l = s.sh.gThreads.mapVals (FDFaceThread.pruned cfg))) :
    StepEffect cfg s .main
      { s with sh := { s.sh with gThreads := l, gFacesInCurrentFrame := fs }, main := .idle }
  | wait (pc : s.pruner = .waiting) :
    StepEffect cfg s .pruner { s with pruner :=
      if s.sh.gHistory.size ≤ minListSize then .waiting else .top s.sh.gHistory.size }
  | getMin {ls m itr} (pc : s.pruner = .top ls) (min : getMinFrameToKeep s.sh = .ok m)
    (front : s.sh.gHistory.front? = some itr) :
    StepEffect cfg s .pruner
      { s with pruner := .erasing (some itr) (if m = -1 then intMax else m) ls }
  | erase {itr m ls entry} (pc : s.pruner = .erasing (some itr) m ls)
    (get : s.sh.gHistory.get? itr = some entry) (below : entry.frameId < m)
    (long : minListSize < ls) :
    StepEffect cfg s .pruner { s with
      sh := { s.sh with gHistory := eraseEntry s.sh.gHistory itr }
      pruner := .erasing (s.sh.gHistory.next? itr) m (eraseEntry s.sh.gHistory itr).size }
  | endPass {itr m ls entry} (pc : s.pruner = .erasing (some itr) m ls)
    (get : s.sh.gHistory.get? itr = some entry) (stop : ¬(entry.frameId < m ∧ minListSize < ls)) :
    StepEffect cfg s .pruner { s with pruner := .sleeping }
  | refresh (pc : s.pruner = .sleeping) :
    StepEffect cfg s .pruner { s with pruner := .top s.sh.gHistory.size }
  | jobStart {k isOk j th todo} (job : s.sh.jobs[k]? = some j) (pc : j.pc = .started)
    (get : s.sh.gThreadsBeingSerialized.get? j.pTh = some th)
    (prune : th.pruneFacesList cfg = .ok (th.pruned cfg)) :
    StepEffect cfg s (.job k isOk) { s with
      sh := setJobPC { s.sh with
        gThreadsBeingSerialized := s.sh.gThreadsBeingSerialized.modify j.pTh
          fun _ => th.pruned cfg } k j (.saving todo) }
  | jobExport {k isOk j pc'} (job : s.sh.jobs[k]? = some j) (active : j.pc ≠ .finished)
    (unstarted : j.pc ≠ .started) (undone : j.pc ≠ .saving [])
    (exports : exportStep cfg s.sh j.pTh isOk j.pc = .ok pc') :
    StepEffect cfg s (.job k isOk) { s with sh := setJobPC s.sh k j pc' }
  | jobErase {k isOk j th} (job : s.sh.jobs[k]? = some j) (pc : j.pc = .saving [])
    (get : s.sh.gThreadsBeingSerialized.get? j.pTh = some th) :
    StepEffect cfg s (.job k isOk) { s with
      sh := setJobPC { s.sh with
        gThreadsBeingSerialized := s.sh.gThreadsBeingSerialized.erase j.pTh } k j .finished }

variable {cfg : Config F} {s t : System F} {a : Action}

/-- Only the pruner moves the pruner. -/
theorem StepEffect.pruner_eq (e : StepEffect cfg s a t) (h : a ≠ .pruner) : t.pruner = s.pruner := by
  cases e <;> first | rfl | exact absurd rfl h

/-- Only the push of a frame makes a history node. -/
theorem StepEffect.fresh_eq (e : StepEffect cfg s a t) (h : a.isFrame = false) :
    t.sh.gHistory.fresh = s.sh.gHistory.fresh := by
  cases e with
  | frame pc lt => cases h
  | process pc eff =>
    dsimp only
    rw [eff.others]
    rfl
  | _ => rfl

theorem mainStep_cases (h : mainStep cfg s s.main = .ok t) : StepEffect cfg s .main t := by
  cases hpc : s.main with
  | idle =>
    rw [hpc] at h
    cases h
  | pushed cur now =>
    rw [hpc] at h
    obtain ⟨m, hm, h⟩ := bind_eq_ok.mp h
    cases h
    exact .process hpc (matchThreads_ok (orHalt_eq_ok.mp hm)).2
  | deleting itrs ms inputFaces =>
    rw [hpc] at h
    cases itrs with
    | nil =>
      cases h
      rw [seedThreads_eq]
      exact .seed hpc
    | cons itr itrs =>
      cases ms with
      | nil => cases h
      | cons m ms =>
        obtain ⟨g, hg, h⟩ := bind_eq_ok.mp h
        cases h
        rw [orHalt_eq_ok] at hg
        unfold deleteIfExceeds at hg
        split at hg
        · cases hg
        · next th hth =>
          split at hg
          · next hover =>
            unfold deleteThread at hg
            split at hg
            · cases hg
            · next th' hth' =>
              cases hg
              exact .delete hpc hth hover hth'
          · next hunder =>
            cases hg
            exact .keep hpc hth (by simpa using hunder)
  | seeded =>
    rw [hpc] at h
    obtain ⟨g₁, h₁, h⟩ := bind_eq_ok.mp h
    obtain ⟨g₂, h₂, h⟩ := bind_eq_ok.mp h
    cases h
    obtain ⟨-, hshow⟩ := showFaces_ok (orHalt_eq_ok.mp h₂)
    rw [hshow]
    obtain ⟨-, ⟨-, rfl⟩ | ⟨-, hall, rfl⟩⟩ := pruneThreads_ok (orHalt_eq_ok.mp h₁)
    · exact .finish hpc (.inl rfl)
    · exact .finish hpc (.inr ⟨hall, rfl⟩)

theorem pruner_cases {r : Shared F × PrunerPC} (h : pruneHistory s.sh s.pruner = .ok r) :
    StepEffect cfg s .pruner { s with sh := r.1, pruner := r.2 } := by
  cases hpc : s.pruner with
  | waiting =>
    rw [hpc] at h
    cases h
    exact .wait hpc
  | top ls =>
    rw [hpc] at h
    obtain ⟨m, hm, h⟩ := bind_eq_ok.mp h
    split at h
    · cases h
    · next itr hfront =>
      cases h
      exact .getMin hpc hm hfront
  | erasing itr m ls =>
    rw [hpc] at h
    cases itr with
    | none => cases h
    | some itr =>
      simp only [pruneHistory] at h
      split at h
      · cases h
      · next entry hget =>
        split at h
        · next hgo =>
          cases h
          exact .erase hpc hget hgo.1 hgo.2
        · next hstop =>
          cases h
          exact .endPass hpc hget hstop
  | sleeping =>
    rw [hpc] at h
    cases h
    exact .refresh hpc

theorem job_cases {k : Nat} {j : Job} {isOk : Bool} {g : Shared F} (hj : s.sh.jobs[k]? = some j)
    (hactive : j.pc ≠ .finished) (h : saveAndDeleteThread cfg s.sh k j isOk = .ok g) :
    StepEffect cfg s (.job k isOk) { s with sh := g } := by
  unfold saveAndDeleteThread at h
  split at h
  · next hpc =>
    unfold startSave at h
    split at h
    · cases h
    · next th hth =>
      obtain ⟨th', hth', h⟩ := bind_eq_ok.mp h
      cases h
      obtain ⟨-, rfl⟩ := FDFaceThread.pruneFacesList_ok hth'
      exact .jobStart hj hpc hth hth'
  · next hpc =>
    obtain ⟨g', hg', h⟩ := bind_eq_ok.mp h
    cases h
    unfold deleteThreadFromGThreadsBeingSerialized at hg'
    split at hg'
    · cases hg'
    · next th hth =>
      cases hg'
      exact .jobErase hj hpc hth
  · next hpc => exact absurd hpc hactive
  · next hstart hdone _ =>
    obtain ⟨pc', hpc', h⟩ := bind_eq_ok.mp h
    cases h
    exact .jobExport hj hactive hstart hdone hpc'

theorem step_cases (h : step cfg s a = .ok t) : StepEffect cfg s a t := by
  cases a with
  | frame inp =>
    cases hpc : s.main with
    | idle =>
      simp only [step, hpc] at h
      obtain ⟨r, hr, h⟩ := bind_eq_ok.mp h
      cases h
      obtain ⟨hlt, rfl⟩ := recordFrame_ok (orHalt_eq_ok.mp hr)
      exact .frame hpc hlt
    | pushed cur now =>
      simp only [step, hpc] at h
      cases h
    | deleting itrs ms inputFaces =>
      simp only [step, hpc] at h
      cases h
    | seeded =>
      simp only [step, hpc] at h
      cases h
  | main => exact mainStep_cases h
  | pruner =>
    obtain ⟨r, hr, h⟩ := bind_eq_ok.mp h
    cases h
    exact pruner_cases (orHalt_eq_ok.mp hr)
  | job k isOk =>
    simp only [step] at h
    split at h
    · cases h
    · next j hj =>
      split at h
      · cases h
      · next hactive =>
        obtain ⟨g, hg, h⟩ := bind_eq_ok.mp h
        cases h
        exact job_cases hj hactive (orHalt_eq_ok.mp hg)

/-! ## The main thread alone -/

/-- The deletion loop, one critical section a step. -/
theorem run_deleting (itrs : List Nat) :
    ∀ {ms : List (Matching F)} {faces : List Face} {s : System F} {g : Shared F},
      s.main = .deleting itrs ms faces → deleteThreads cfg itrs ms s.sh = .ok g →
      ∃ ms', run (step cfg) s (List.replicate itrs.length .main) =
        .ok { s with sh := g, main := .deleting [] ms' faces } := by
  induction itrs with
  | nil =>
    intro ms faces s g hpc hg
    cases hg
    exact ⟨ms, by rw [← hpc]; rfl⟩
  | cons itr itrs ih =>
    intro ms faces s g hpc hg
    cases ms with
    | nil => cases hg
    | cons m ms =>
      obtain ⟨g₁, h₁, hg⟩ := bind_eq_ok.mp hg
      obtain ⟨ms', hrun⟩ := ih (s := { s with sh := g₁, main := .deleting itrs ms faces }) rfl hg
      have hst : step cfg s .main = .ok { s with sh := g₁, main := .deleting itrs ms faces } := by
        simp only [step, hpc, mainStep, h₁, orHalt_ok, ok_bind]
      refine ⟨ms', ?_⟩
      simp only [List.length_cons, List.replicate_succ, run, hst]
      exact hrun

/-- The main thread's actions for a frame: the first two, the deletion loop, the last two. -/
theorem frameActions_split (inp : FrameInput) (k : Nat) :
    Action.frame inp :: List.replicate (k + 3) Action.main =
      [Action.frame inp, Action.main] ++
        (List.replicate k Action.main ++ List.replicate 2 Action.main) := by
  rw [← List.replicate_add, List.cons_append, List.singleton_append, ← List.replicate_succ]

/-- When nobody interferes, the main thread's steps for a frame are `FdProcessFaces`:
`processThreads2` takes a step for its first parts, one for every live thread and one
for the seeding. -/
theorem run_frame_alone {inp : FrameInput} {g : Shared F} (hidle : s.main = .idle)
    (h : fdProcessFaces cfg s.sh inp = .ok g) :
    run (step cfg) s (.frame inp :: List.replicate (s.sh.gThreads.size + 3) .main) =
      .ok { s with sh := g } := by
  obtain ⟨g₁, g₂, h₁, h₂, h₃⟩ := fdProcessFaces_ok h
  obtain ⟨r, hr, h₁⟩ := bind_eq_ok.mp h₁
  obtain ⟨m, hm, h₁⟩ := bind_eq_ok.mp h₁
  obtain ⟨gd, hd, h₁⟩ := bind_eq_ok.mp h₁
  cases h₁
  have hsize : s.sh.gThreads.size = m.sh.gThreads.addrs.length := by
    obtain ⟨-, rfl⟩ := recordFrame_ok hr
    rw [(matchThreads_ok hm).2.addrs, recorded_gThreads, NodeList.addrs_length]
  have hframe : step cfg s (.frame inp) = .ok { s with sh := r.1, main := .pushed r.2 inp.now } := by
    simp only [step, hidle, hr, orHalt_ok, ok_bind]
  have hmatch : step cfg { s with sh := r.1, main := .pushed r.2 inp.now } .main =
      .ok { s with sh := m.sh, main := .deleting m.sh.gThreads.addrs m.ms m.inputFaces } := by
    simp only [step, mainStep, hm, orHalt_ok, ok_bind]
  obtain ⟨ms', hdel⟩ := run_deleting m.sh.gThreads.addrs (s := { s with
    sh := m.sh, main := .deleting m.sh.gThreads.addrs m.ms m.inputFaces }) rfl hd
  have hlast : run (step cfg) { s with sh := gd, main := .deleting [] ms' m.inputFaces }
      (List.replicate 2 .main) = .ok { s with sh := g } := by
    simp only [List.replicate, run, step, mainStep, h₂, h₃, orHalt_ok, ok_bind, hidle]
  have hfirst : run (step cfg) s [.frame inp, .main] =
      .ok { s with sh := m.sh, main := .deleting m.sh.gThreads.addrs m.ms m.inputFaces } := by
    simp only [run, hframe, hmatch]
  rw [hsize, frameActions_split]
  exact run_append_iff.mpr ⟨_, hfirst, run_append_iff.mpr ⟨_, hdel, hlast⟩⟩

/-- A run of frames is a run of the system in which only the main thread moves. -/
theorem run_of_runFrames {now : Int} {frames : List FrameInput} {g : Shared F}
    (h : runFrames cfg now frames = .ok g) :
    ∃ as, (∀ a ∈ as, a = .main ∨ a.isFrame = true) ∧
      run (step cfg) (start cfg now) as = .ok ⟨g, .idle, .waiting⟩ := by
  refine run_induction (P := fun _ g => ∃ as, (∀ a ∈ as, a = .main ∨ a.isFrame = true) ∧
    run (step cfg) (start cfg now) as = .ok ⟨g, .idle, .waiting⟩) ⟨[], by simp, rfl⟩ ?_ h
  rintro fs g inp g' - ⟨as, has, hrun⟩ hstep
  have hframe := run_frame_alone (s := (⟨g, .idle, .waiting⟩ : System F)) rfl hstep
  generalize g.gThreads.size + 3 = k at hframe
  refine ⟨as ++ .frame inp :: List.replicate k .main, fun a ha => ?_,
    run_append_iff.mpr ⟨_, hrun, hframe⟩⟩
  simp only [List.mem_append, List.mem_cons] at ha
  obtain ha | rfl | ha := ha
  · exact has a ha
  · exact .inr rfl
  · exact .inl (List.eq_of_mem_replicate ha)

end

end PlanetariumFD
