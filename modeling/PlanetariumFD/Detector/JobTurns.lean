import PlanetariumFD.Foundation.Turns
import PlanetariumFD.Detector.ExportWalk

/-!
# Every job ends

How many turns a save job still takes can be read off its program counter and its
thread, whatever the main thread, the pruner and the other jobs do in between: an
export walks the history at most from its first face to its last, and the thread of a
job belongs to the job alone.
-/

namespace PlanetariumFD

open Outcome Transition

/-- The newest frame among the faces, zero if there is none. -/
def lastFrame (faces : List Face) : Int := (faces.map Face.frameId).foldr max 0

/-- The turns of an export's loop from the history node `itr`: one for every frame up to
the last face, and one to leave the loop. -/
def walkTurns (itr : Option Nat) (faces : List Face) : Nat :=
  match itr, faces with
  | some a, _ :: _ => (lastFrame faces - a).toNat + 1
  | _, _ => 1

section
variable {F : Type} [FloatOps F]

/-- The turns of an export: its start, and the loop from the entry of its first face. -/
def exportTurns (cfg : Config F) (th : FDFaceThread) (e : Export) : Nat :=
  match exportFaces cfg e th with
  | .ok (some (f :: fs)) => 1 + walkTurns (some (f.frameId - 1).toNat) (f :: fs)
  | _ => 1

def exportsTurns (cfg : Config F) (th : FDFaceThread) (todo : List Export) : Nat :=
  (todo.map (exportTurns cfg th)).sum

/-- The turns of a job on the thread `th`, the erase at its end included. -/
def JobPC.turnsLeft (cfg : Config F) (th : FDFaceThread) : JobPC → Nat
  | .started =>
    1 + exportsTurns cfg (th.pruned cfg)
      (if passesSave cfg (th.pruned cfg) then [.images, .video false, .video true] else []) + 1
  | .saving todo => exportsTurns cfg th todo + 1
  | .walking _ todo itr faces _ => walkTurns itr faces + exportsTurns cfg th todo + 1
  | .finished => 0

/-- The turns that job `k` still takes. -/
def jobTurns (cfg : Config F) (s : System F) (k : Nat) : Nat :=
  match s.sh.jobs[k]?, s.sh.gThreadsBeingSerialized.get? k with
  | some j, some th => j.pc.turnsLeft cfg th
  | _, _ => 0

end

def Action.isJob (k : Nat) : Action → Bool
  | .job k' _ => k' = k
  | _ => false

/-! ## One turn -/

theorem frameId_le_lastFrame {faces : List Face} {f : Face} (h : f ∈ faces) :
    f.frameId ≤ lastFrame faces := by
  induction faces with
  | nil => cases h
  | cons g faces ih =>
    rw [lastFrame, List.map_cons, List.foldr_cons, le_max_iff]
    obtain rfl | h := List.mem_cons.mp h
    · exact .inl (le_refl _)
    · exact .inr (ih h)

theorem lastFrame_le_cons (f : Face) (fs : List Face) : lastFrame fs ≤ lastFrame (f :: fs) := by
  rw [lastFrame, lastFrame, List.map_cons, List.foldr_cons]
  exact le_max_right _ _

section
variable {F : Type} [FloatOps F] {cfg : Config F} {s t : System F} {a : Action} {lo k : Nat}
  {th : FDFaceThread} {pc pc' : JobPC} {isOk : Bool}

omit [FloatOps F] in
/-- A turn of the loop brings the iterator one entry nearer to the last face. -/
theorem walkTurns_next (h : HistoryShape s lo) {b : Nat} {entry : FDHistoryEntry}
    (hget : s.sh.gHistory.get? b = some entry) {f : Face} (fs : List Face) {faces : List Face}
    (hle : entry.frameId ≤ f.frameId) (hfaces : faces = f :: fs ∨ faces = fs) :
    walkTurns (s.sh.gHistory.next? b) faces < walkTurns (some b) (f :: fs) := by
  have hentry := (h.of_get? hget).2.2.1
  have hlast := frameId_le_lastFrame (List.mem_cons_self (a := f) (l := fs))
  have hrest : lastFrame faces ≤ lastFrame (f :: fs) := by
    obtain rfl | rfl := hfaces
    · exact le_refl _
    · exact lastFrame_le_cons f _
  have hnext : s.sh.gHistory.next? b = some (b + 1) ∨ s.sh.gHistory.next? b = none := by
    have hlo := (h.of_get? hget).1
    by_cases hlt : b + 1 < s.sh.gHistory.fresh
    · exact .inl (h.spans.next?_eq (by omega) hlt)
    · exact .inr (NodeList.next?_eq_none (by omega))
  have hpos : 1 < walkTurns (some b) (f :: fs) := by
    simp only [walkTurns]
    omega
  obtain hnext | hnext := hnext
  · rw [hnext]
    cases faces with
    | nil => exact hpos
    | cons g gs =>
      simp only [walkTurns]
      omega
  · rw [hnext]
    exact hpos

theorem exportStep_turns (h : HistoryShape s lo) (hactive : pc ≠ .finished) (hstart : pc ≠ .started)
    (hdone : pc ≠ .saving [])
    (hget : s.sh.gThreadsBeingSerialized.get? k = some th)
    (hstep : exportStep cfg s.sh k isOk pc = .ok pc') :
    pc'.turnsLeft cfg th < pc.turnsLeft cfg th := by
  cases pc with
  | finished => exact absurd rfl hactive
  | started => exact absurd rfl hstart
  | saving todo =>
    cases todo with
    | nil => exact absurd rfl hdone
    | cons e todo =>
      simp only [exportStep, hget] at hstep
      obtain rfl | ⟨f, fs, p, hfaces, hp, hid, rfl⟩ := startExport_ok hstep
      · have hone : 1 ≤ exportTurns cfg th e := by
          unfold exportTurns
          split <;> omega
        simp only [JobPC.turnsLeft, exportsTurns, List.map_cons, List.sum_cons]
        omega
      · -- the iterator starts at the entry of the first face
        have hnode : (f.frameId - 1).toNat = p.1 := by
          have := (h.entries p hp).1
          omega
        simp only [JobPC.turnsLeft, exportsTurns, List.map_cons, List.sum_cons, exportTurns, hfaces,
          hnode]
        omega
  | walking e todo itr faces saved =>
    obtain rfl | ⟨f, fs, b, entry, saved', rfl, rfl, hentry, hcase⟩ := walkHistory_ok hstep
    · have hone : 1 ≤ walkTurns itr faces := by
        unfold walkTurns
        split <;> omega
      simp only [JobPC.turnsLeft]
      omega
    · obtain ⟨hlt, rfl⟩ | ⟨heq, rfl⟩ := hcase
      · have := walkTurns_next h hentry fs hlt.le (.inl rfl)
        simp only [JobPC.turnsLeft]
        omega
      · have := walkTurns_next h hentry fs heq.le (.inr rfl)
        simp only [JobPC.turnsLeft]
        omega

/-- What a turn of job `k` does to the job and to its thread. -/
theorem jobTurns_turn (J : JobsOwn s) (h : HistoryShape s lo) {j : Job} (hj : s.sh.jobs[k]? = some j)
    (hactive : j.pc ≠ .finished) {g : Shared F}
    (hstep : saveAndDeleteThread cfg s.sh k j isOk = .ok g) :
    jobTurns cfg { s with sh := g } k < jobTurns cfg s k := by
  obtain ⟨th, hth, -⟩ := J.entry (List.mem_of_getElem? hj) hactive
  have hk := (J.pTh_eq hj).1
  have hlt := (List.getElem?_eq_some_iff.mp hj).1
  rw [hk] at hth
  have hbefore : jobTurns cfg s k = j.pc.turnsLeft cfg th := by simp only [jobTurns, hj, hth]
  have hset : ∀ (l : List Job) (pc : JobPC), l = s.sh.jobs →
      (l.set k { j with pc := pc })[k]? = some { j with pc := pc } := by
    rintro l pc rfl
    exact List.getElem?_set_self hlt
  rw [hbefore]
  unfold saveAndDeleteThread at hstep
  split at hstep
  · next hpc =>
    -- the thread is pruned, and the exports are chosen by its counters
    simp only [startSave, hk, hth] at hstep
    obtain ⟨th', hprune, hstep⟩ := bind_eq_ok.mp hstep
    obtain ⟨-, rfl⟩ := FDFaceThread.pruneFacesList_ok hprune
    cases hstep
    have hget : (s.sh.gThreadsBeingSerialized.modify k fun _ => th.pruned cfg).get? k =
        some (th.pruned cfg) := by
      rw [NodeList.modify, NodeList.get?_alter, hth]
      simp
    simp only [jobTurns, setJobPC, hset _ _ rfl, hget, hpc, JobPC.turnsLeft]
    omega
  · next hpc =>
    obtain ⟨g', hg', hstep⟩ := bind_eq_ok.mp hstep
    cases hstep
    simp only [deleteThreadFromGThreadsBeingSerialized, hk, hth] at hg'
    cases hg'
    have hgone : (s.sh.gThreadsBeingSerialized.erase k).get? k = none := by
      rw [NodeList.get?_eq_none_iff, NodeList.addrs_erase]
      simp
    simp only [jobTurns, setJobPC, hset _ _ rfl, hgone, hpc, JobPC.turnsLeft, exportsTurns,
      List.map_nil, List.sum_nil]
    omega
  · next hpc => exact absurd hpc hactive
  · next hstart hdone _ =>
    obtain ⟨pc', hpc', hstep⟩ := bind_eq_ok.mp hstep
    cases hstep
    rw [hk] at hpc'
    simp only [jobTurns, setJobPC, hset _ _ rfl, hth]
    exact exportStep_turns h hactive hstart hdone hth hpc'

/-- Nobody else touches the job or its thread. -/
theorem StepEffect.job_kept (e : StepEffect cfg s a t) (J : JobsOwn s) {j : Job}
    (hj : s.sh.jobs[k]? = some j) (hother : a.isJob k = false) :
    t.sh.jobs[k]? = some j ∧
      t.sh.gThreadsBeingSerialized.get? k = s.sh.gThreadsBeingSerialized.get? k := by
  have hne : ∀ {k' isOk}, a = .job k' isOk → k' ≠ k := by
    rintro k' isOk rfl
    simpa [Action.isJob] using hother
  cases e with
  | frame pc lt => exact ⟨by rw [recorded_jobs, hj], by rw [recorded_gThreadsBeingSerialized]⟩
  | process pc eff => exact ⟨by rw [eff.jobs_eq, hj], by rw [eff.saved_eq]⟩
  | delete pc get past get' =>
    exact ⟨(List.getElem?_append_left (List.getElem?_eq_some_iff.mp hj).1).trans hj,
      NodeList.get?_pushBack_of_lt _ (J.pTh_eq hj).2 _⟩
  | @jobStart k' isOk j' th' todo job pc get prune =>
    refine ⟨(List.getElem?_set_ne (hne rfl)).trans hj, ?_⟩
    dsimp only [setJobPC]
    rw [(J.pTh_eq job).1]
    exact NodeList.get?_modify_of_ne _ (hne rfl).symm _
  | jobExport job active unstarted undone exports =>
    exact ⟨(List.getElem?_set_ne (hne rfl)).trans hj, rfl⟩
  | @jobErase k' isOk j' th' job pc get =>
    refine ⟨(List.getElem?_set_ne (hne rfl)).trans hj, ?_⟩
    dsimp only [setJobPC]
    rw [(J.pTh_eq job).1]
    exact NodeList.get?_erase_of_ne _ (hne rfl).symm
  | _ => exact ⟨hj, rfl⟩

/-! ## Runs -/

theorem StepEffect.jobs_length_le (e : StepEffect cfg s a t) :
    s.sh.jobs.length ≤ t.sh.jobs.length := by
  cases e with
  | frame pc lt => simp
  | process pc eff => simp [eff.jobs_eq]
  | delete pc get past get' => simp
  | jobStart job pc get prune => simp [setJobPC]
  | jobExport job active unstarted undone exports => simp [setJobPC]
  | jobErase job pc get => simp [setJobPC]
  | _ => exact le_refl _

/-- A job of a reachable state. -/
def HasJob (cfg : Config F) (k : Nat) (s : System F) : Prop :=
  (∃ now as, run (step cfg) (start cfg now) as = .ok s) ∧ k < s.sh.jobs.length

/-- The turns left are a variant of the job. -/
theorem jobTurns_variant (cfg : Config F) (k : Nat) :
    Variant (step cfg) (HasJob cfg k) (Action.isJob k) fun s => jobTurns cfg s k where
  keeps := by
    rintro s a t ⟨⟨now, as, hrun⟩, hk⟩ hst
    exact ⟨⟨now, as ++ [a], run_snoc_iff.mpr ⟨s, hrun, hst⟩⟩,
      hk.trans_le (step_cases hst).jobs_length_le⟩
  lowers := by
    rintro s a t ⟨⟨now, as, hrun⟩, hk⟩ hown hst
    obtain ⟨-, lo, hshape, -⟩ := historyShape_of_run hrun
    cases a with
    | job k' isOk =>
      obtain rfl : k' = k := of_decide_eq_true hown
      simp only [step, List.getElem?_eq_getElem hk] at hst
      split at hst
      · cases hst
      · next hactive =>
        obtain ⟨g, hg, hst⟩ := bind_eq_ok.mp hst
        cases hst
        exact jobTurns_turn (jobsOwn_of_run hrun) hshape (List.getElem?_eq_getElem hk) hactive
          (orHalt_eq_ok.mp hg)
    | _ => cases hown
  others := by
    rintro s a t ⟨⟨now, as, hrun⟩, hk⟩ hother hst
    obtain ⟨hj, hth⟩ := (step_cases hst).job_kept (jobsOwn_of_run hrun)
      (List.getElem?_eq_getElem hk) hother
    simp only [jobTurns, hj, hth, List.getElem?_eq_getElem hk]
    exact le_refl _

/-- A job without turns left has finished and erased its thread. -/
theorem finished_of_jobTurns_eq_zero (h : HasJob cfg k s) (hzero : jobTurns cfg s k = 0) :
    ∃ j, s.sh.jobs[k]? = some j ∧ j.pc = .finished ∧
      s.sh.gThreadsBeingSerialized.get? k = none := by
  obtain ⟨⟨now, as, hrun⟩, hk⟩ := h
  have J := jobsOwn_of_run hrun
  have hj := List.getElem?_eq_getElem hk
  have hpTh := (J.pTh_eq hj).1
  have hpc : s.sh.jobs[k].pc = .finished := by
    by_contra hactive
    obtain ⟨th, hth, -⟩ := J.entry (List.mem_of_getElem? hj) hactive
    rw [hpTh] at hth
    simp only [jobTurns, hj, hth] at hzero
    cases hpc : s.sh.jobs[k].pc with
    | finished => exact hactive hpc
    | _ =>
      rw [hpc] at hzero
      simp only [JobPC.turnsLeft] at hzero
      omega
  exact ⟨_, hj, hpc, hpTh ▸ J.gone (List.mem_of_getElem? hj) hpc⟩

/-- However the actions are interleaved, a job takes at most the turns that its thread
allows, and after that many it has finished; in no run that goes on for ever does it go
on for ever. -/
theorem job_ends (cfg : Config F) {now : Int} {as : List Action}
    (h : run (step cfg) (start cfg now) as = .ok s) (hk : k < s.sh.jobs.length) :
    (∀ bs t, run (step cfg) s bs = .ok t →
      bs.countP (Action.isJob k) ≤ jobTurns cfg s k ∧
      (jobTurns cfg s k ≤ bs.countP (Action.isJob k) →
        ∃ j, t.sh.jobs[k]? = some j ∧ j.pc = .finished ∧
          t.sh.gThreadsBeingSerialized.get? k = none)) ∧
    ∀ (σ : Nat → System F) (α : Nat → Action), σ 0 = s →
      (∀ n, step cfg (σ n) (α n) = .ok (σ (n + 1))) →
      {n | (α n).isJob k = true}.Finite := by
  have hs : HasJob cfg k s := ⟨⟨now, as, h⟩, hk⟩
  have V := jobTurns_variant cfg k
  refine ⟨fun bs t hbs => ⟨?_, fun hturns => ?_⟩, fun σ α h₀ hstep => ?_⟩
  · exact (Nat.le_add_right _ _).trans (V.turns_add_rank_le hs hbs)
  · have ht : HasJob cfg k t := run_invariant V.keeps hs hbs
    exact finished_of_jobTurns_eq_zero ht (V.rank_eq_zero hs hbs hturns)
  · exact V.finite_turns (h₀ ▸ hs) hstep

end

theorem job_ends_oneThreadSaved : ∃ s,
    run (step (Config.declared : Config ℚ)) (start Config.declared 0) oneThreadSaved = .ok s ∧
    ∀ bs t, run (step (Config.declared : Config ℚ)) s bs = .ok t →
      bs.countP (Action.isJob 0) ≤ jobTurns (Config.declared : Config ℚ) s 0 := by
  have hruns : returns (fun s => decide (0 < s.sh.jobs.length))
      (run (step (Config.declared : Config ℚ)) (start Config.declared 0) oneThreadSaved) = true := by
    decide +kernel
  obtain ⟨s, hs, hdec⟩ := exists_of_returns hruns
  obtain ⟨hturns, -⟩ := job_ends Config.declared hs (of_decide_eq_true hdec)
  exact ⟨s, hs, fun bs t hbs => (hturns bs t hbs).1⟩

end PlanetariumFD
