import PlanetariumFD.Foundation.Window
import PlanetariumFD.Detector.Custody

/-!
# Two abstract accounts of the system

What the shared state is for, said without lists, locks and program counters: a
face thread goes from `gThreads` to one job and is finished by it, and the history
is a window over the frames that opens at the front and is cut at the back. The
interleaved system refines both, so neither a thread nor a frame ever comes back.
-/

namespace PlanetariumFD

open Outcome Transition Relation Refinement

/-! ## The life of a thread -/

/-- Where a face thread is: not made yet, in `gThreads`, or given to job `k`, which
holds it until it has erased it. -/
inductive Place
  | unborn
  | live
  | given (k : Nat) (held : Bool)
  deriving DecidableEq, Repr

inductive Place.Next : Place → Place → Prop
  | made : Next .unborn .live
  | handed (k : Nat) : Next .live (.given k true)
  | finished (k : Nat) : Next (.given k true) (.given k false)

namespace Place

/-- How far a thread has come. -/
def rank : Place → Nat
  | .unborn => 0
  | .live => 1
  | .given _ true => 2
  | .given _ false => 3

def job? : Place → Option Nat
  | .given k _ => some k
  | _ => none

theorem rank_le_of_steps {x y : Place} (h : ReflTransGen Next x y) : x.rank ≤ y.rank := by
  refine le_of_steps (fun x y hxy => ?_) h
  cases hxy <;> simp [rank]

/-- A thread keeps its job. -/
theorem job?_of_steps {x y : Place} (h : ReflTransGen Next x y) {k : Nat} (hk : x.job? = some k) :
    y.job? = some k := by
  refine of_steps (P := fun x => x.job? = some k) (fun x y hxy hx => ?_) h hk
  cases hxy with
  | made => cases hx
  | handed k' => cases hx
  | finished k' => exact hx

end Place

def PlacedAt {F : Type} (s : System F) (i : Nat) : Place → Prop
  | .unborn => s.sh.gThreads.fresh ≤ i
  | .live => i ∈ s.sh.gThreads.vals.map FDFaceThread.ident
  | .given k held => ∃ j, s.sh.jobs[k]? = some j ∧ j.ident = i ∧ j.holds = held

section
variable {F : Type} [FloatOps F] {cfg : Config F} {s t : System F} {a : Action} {i : Nat}

omit [FloatOps F] in
theorem PlacedAt.job {k : Nat} {held : Bool} (h : PlacedAt s i (.given k held)) :
    (s.sh.jobs.map Job.ident)[k]? = some i := by
  obtain ⟨j, hj, hi, -⟩ := h
  rw [List.getElem?_map, hj, ← hi]
  rfl

omit [FloatOps F] in
theorem PlacedAt.lt_fresh (J : JobsOwn s) {x : Place} (h : PlacedAt s i x) (hx : x ≠ .unborn) :
    i < s.sh.gThreads.fresh := by
  have hmem : i ∈ s.sh.gThreads.vals.map FDFaceThread.ident ++ s.sh.jobs.map Job.ident := by
    cases x with
    | unborn => exact absurd rfl hx
    | live => exact List.mem_append_left _ h
    | given k held => exact List.mem_append_right _ (List.mem_of_getElem? h.job)
  exact List.mem_range.mp (J.handed.mem_iff.mp hmem)

omit [FloatOps F] in
/-- A thread is in one place. -/
theorem PlacedAt.unique (J : JobsOwn s) {x y : Place} (hx : PlacedAt s i x) (hy : PlacedAt s i y) :
    x = y := by
  have hnodup := J.handed.nodup_iff.mpr List.nodup_range
  rw [List.nodup_append] at hnodup
  obtain ⟨-, hjobs, hapart⟩ := hnodup
  have apart : ∀ {k held}, PlacedAt s i .live → ¬ PlacedAt s i (.given k held) :=
    fun hlive hgiven => hapart i hlive i (List.mem_of_getElem? hgiven.job) rfl
  by_cases hux : x = .unborn
  · subst hux
    by_contra hne
    exact absurd (hy.lt_fresh J (Ne.symm hne)) (not_lt.mpr hx)
  by_cases huy : y = .unborn
  · subst huy
    exact absurd (hx.lt_fresh J hux) (not_lt.mpr hy)
  cases x with
  | unborn => exact absurd rfl hux
  | live =>
    cases y with
    | unborn => exact absurd rfl huy
    | live => rfl
    | given k held => exact absurd hy (apart hx)
  | given k held =>
    cases y with
    | unborn => exact absurd rfl huy
    | live => exact absurd hx (apart hy)
    | given k' held' =>
      have hk : k = k' := by
        have hlt : k < (s.sh.jobs.map Job.ident).length :=
          (List.getElem?_eq_some_iff.mp hx.job).1
        exact (List.getElem?_inj hlt hjobs).mp (hx.job.trans hy.job.symm)
      subst hk
      obtain ⟨j, hj, -, hheld⟩ := hx
      obtain ⟨j', hj', -, hheld'⟩ := hy
      obtain rfl := Option.some.inj (hj.symm.trans hj')
      rw [← hheld, ← hheld']

omit [FloatOps F] in
theorem exists_placedAt (J : JobsOwn s) (i : Nat) : ∃ x, PlacedAt s i x := by
  by_cases hi : i < s.sh.gThreads.fresh
  · obtain hlive | hgiven := List.mem_append.mp (J.handed.mem_iff.mpr (List.mem_range.mpr hi))
    · exact ⟨.live, hlive⟩
    · obtain ⟨j, hj, rfl⟩ := List.mem_map.mp hgiven
      obtain ⟨k, hk⟩ := List.mem_iff_getElem?.mp hj
      exact ⟨.given k j.holds, j, hk, rfl, rfl⟩
  · exact ⟨.unborn, not_lt.mp hi⟩

/-! ### Steps -/

omit [FloatOps F] in
theorem PlacedAt.congr {x : Place} (h : PlacedAt s i x)
    (fresh : t.sh.gThreads.fresh = s.sh.gThreads.fresh)
    (live : t.sh.gThreads.vals.map FDFaceThread.ident = s.sh.gThreads.vals.map FDFaceThread.ident)
    (jobs : t.sh.jobs = s.sh.jobs) : PlacedAt t i x := by
  cases x with
  | unborn => exact fresh.trans_le h
  | live =>
    show i ∈ t.sh.gThreads.vals.map FDFaceThread.ident
    rw [live]
    exact h
  | given k held =>
    show ∃ j, t.sh.jobs[k]? = some j ∧ _
    rw [jobs]
    exact h

omit [FloatOps F] in
/-- A step of job `k` moves the thread the job was given and no other. -/
theorem PlacedAt.set_pc {g : Shared F} {k : Nat} {j : Job} {x : Place} (h : PlacedAt s i x)
    (pc : JobPC) (job : s.sh.jobs[k]? = some j) (threads : g.gThreads = s.sh.gThreads)
    (jobs : g.jobs = s.sh.jobs) :
    PlacedAt { s with sh := setJobPC g k j pc } i x ∨ (x = .given k j.holds ∧
      PlacedAt { s with sh := setJobPC g k j pc } i (.given k (pc ≠ .finished))) := by
  cases x with
  | unborn =>
    left
    show g.gThreads.fresh ≤ i
    rw [threads]
    exact h
  | live =>
    left
    show i ∈ g.gThreads.vals.map FDFaceThread.ident
    rw [threads]
    exact h
  | given k' held =>
    obtain ⟨j', hj', hi, hheld⟩ := h
    by_cases hk : k' = k
    · subst hk
      obtain rfl := Option.some.inj (job.symm.trans hj')
      have hset : (g.jobs.set k' { j with pc := pc })[k']? = some { j with pc := pc } := by
        rw [jobs, List.getElem?_set_self (List.getElem?_eq_some_iff.mp job).1]
      exact .inr ⟨by rw [hheld], { j with pc := pc }, hset, hi, rfl⟩
    · have hset : (g.jobs.set k { j with pc := pc })[k']? = some j' := by
        rw [jobs, List.getElem?_set_ne (Ne.symm hk), hj']
      exact .inl ⟨j', hset, hi, hheld⟩

/-- A step leaves a thread where it is or takes it one place further. -/
theorem StepEffect.placed (e : StepEffect cfg s a t) {x : Place} (hx : PlacedAt s i x) :
    PlacedAt t i x ∨ ∃ y, x.Next y ∧ PlacedAt t i y := by
  cases e with
  | frame pc lt => exact .inl (hx.congr (by simp) (by simp) (by simp))
  | @process cur now m pc eff =>
    have hidents := updatedNodes_idents eff.inStep
    rw [← eff.nodes] at hidents
    exact .inl (hx.congr eff.fresh hidents eff.jobs_eq)
  | @delete itr itrs m ms inputFaces th th' pc get past get' =>
    cases x with
    | unborn => exact .inl hx
    | live =>
      obtain ⟨th₁, hth₁, hi⟩ := List.mem_map.mp hx
      obtain ⟨b, hb⟩ := NodeList.mem_vals_iff.mp hth₁
      by_cases hbi : b = itr
      · -- this is the thread that the new job gets
        subst hbi
        obtain rfl := NodeList.node_unique hb (NodeList.get?_eq_some_iff.mp get')
        exact .inr ⟨_, .handed s.sh.jobs.length, _, List.getElem?_concat_length, hi, rfl⟩
      · have hmem := NodeList.mem_erase_nodes.mpr ⟨hb, hbi⟩
        exact .inl (List.mem_map.mpr ⟨th₁, NodeList.mem_vals_iff.mpr ⟨b, hmem⟩, hi⟩)
    | given k held =>
      obtain ⟨j, hj, hi, hheld⟩ := hx
      have hlt := (List.getElem?_eq_some_iff.mp hj).1
      exact .inl ⟨j, (List.getElem?_append_left hlt).trans hj, hi, hheld⟩
  | @seed ms inputFaces pc =>
    cases x with
    | unborn =>
      have hfresh := NodeList.pushAll_fresh s.sh.gThreads
        ((inputFaces.zipIdx s.sh.gThreads.fresh).map fun p => seededThread p.2 p.1)
      rw [List.length_map, List.length_zipIdx] at hfresh
      by_cases hi : i < s.sh.gThreads.fresh + inputFaces.length
      · refine .inr ⟨.live, .made, ?_⟩
        show i ∈ (NodeList.pushAll _ _).vals.map FDFaceThread.ident
        rw [NodeList.vals_pushAll, List.map_append, seeded_idents]
        exact List.mem_append_right _ (List.mem_range'_1.mpr ⟨hx, hi⟩)
      · exact .inl (hfresh.trans_le (not_lt.mp hi))
    | live =>
      refine .inl ?_
      show i ∈ (NodeList.pushAll _ _).vals.map FDFaceThread.ident
      rw [NodeList.vals_pushAll, List.map_append]
      exact List.mem_append_left _ hx
    | given k held => exact .inl hx
  | finish pc prune =>
    refine .inl (hx.congr ?_ ?_ rfl)
    · obtain rfl | ⟨-, rfl⟩ := prune <;> rfl
    · obtain rfl | ⟨-, rfl⟩ := prune
      · rfl
      · exact pruned_idents cfg _
  | @jobStart k isOk j th todo job pc get prune =>
    obtain hsame | ⟨rfl, hgiven⟩ := hx.set_pc (.saving todo) job rfl rfl
    · exact .inl hsame
    · have hheld : j.holds = true := by simp [Job.holds, pc]
      rw [hheld]
      exact .inl hgiven
  | @jobExport k isOk j pc' job active unstarted undone exports =>
    obtain hsame | ⟨rfl, hgiven⟩ := hx.set_pc pc' job rfl rfl
    · exact .inl hsame
    · have hheld : j.holds = true := decide_eq_true active
      rw [decide_eq_true (exportStep_ne_finished exports active)] at hgiven
      rw [hheld]
      exact .inl hgiven
  | @jobErase k isOk j th job pc get =>
    obtain hsame | ⟨rfl, hgiven⟩ := hx.set_pc .finished job rfl rfl
    · exact .inl hsame
    · have hheld : j.holds = true := by simp [Job.holds, pc]
      rw [hheld]
      exact .inr ⟨_, .finished k, hgiven⟩
  | _ => exact .inl (hx.congr rfl rfl rfl)

/-! ### Runs -/

theorem place_refines (cfg : Config F) (i : Nat) :
    Refines (step cfg) Place.Next fun s => PlacedAt s i := by
  intro s a t x hx hst
  obtain hsame | ⟨y, hxy, hy⟩ := (step_cases hst).placed hx
  · exact ⟨x, .refl, hsame⟩
  · exact ⟨y, .single hxy, hy⟩

/-- Between any two states of a run every thread, made or not, goes forward from the
one place where it is to the one place where it is later. -/
theorem place_of_run {now : Int} {as bs : List Action} (h : run (step cfg) (start cfg now) as = .ok s)
    (h' : run (step cfg) s bs = .ok t) (i : Nat) :
    ∃ x y, (∀ z, PlacedAt s i z ↔ z = x) ∧ (∀ z, PlacedAt t i z ↔ z = y) ∧
      ReflTransGen Place.Next x y := by
  have J := jobsOwn_of_run h
  have J' := jobsOwn_of_run (run_append_iff.mpr ⟨s, h, h'⟩)
  obtain ⟨x, hx⟩ := exists_placedAt J i
  obtain ⟨y, hxy, hy⟩ := (place_refines cfg i).of_run hx h'
  refine ⟨x, y, fun z => ⟨fun hz => hz.unique J hx, ?_⟩, fun z => ⟨fun hz => hz.unique J' hy, ?_⟩, hxy⟩
  · rintro rfl
    exact hx
  · rintro rfl
    exact hy

/-- A thread that is live in the middle of the run is with its job at the end. -/
theorem place_of_run_oneThreadSaved : ∃ s t x y,
    run (step (Config.declared : Config ℚ)) (start Config.declared 0) (oneThreadSaved.take 4) = .ok s ∧
    run (step (Config.declared : Config ℚ)) s (oneThreadSaved.drop 4) = .ok t ∧
    (∀ z, PlacedAt s 0 z ↔ z = x) ∧ (∀ z, PlacedAt t 0 z ↔ z = y) ∧ ReflTransGen Place.Next x y := by
  have hruns : returns (fun s => returns (fun _ => true)
      (run (step (Config.declared : Config ℚ)) s (oneThreadSaved.drop 4)))
      (run (step (Config.declared : Config ℚ)) (start Config.declared 0) (oneThreadSaved.take 4)) =
        true := by decide +kernel
  obtain ⟨s, hs, hruns⟩ := exists_of_returns hruns
  obtain ⟨t, ht, -⟩ := exists_of_returns hruns
  obtain ⟨x, y, hx, hy, hxy⟩ := place_of_run hs ht 0
  exact ⟨s, t, x, y, hs, ht, hx, hy, hxy⟩

/-- A thread given to a job stays with that job, and a finished one stays finished. -/
theorem given_of_run {bs : List Action} {k : Nat} {held : Bool} (hx : PlacedAt s i (.given k held))
    (h : run (step cfg) s bs = .ok t) :
    ∃ held', PlacedAt t i (.given k held') ∧ (held = false → held' = false) := by
  obtain ⟨y, hxy, hy⟩ := (place_refines cfg i).of_run hx h
  have hjob := Place.job?_of_steps hxy rfl
  have hrank := Place.rank_le_of_steps hxy
  cases y with
  | unborn => cases hjob
  | live => cases hjob
  | given k' held' =>
    obtain rfl := Option.some.inj hjob
    refine ⟨held', hy, ?_⟩
    rintro rfl
    cases held' with
    | false => rfl
    | true => simp [Place.rank] at hrank

end

/-! ## The history as a window -/

/-- The window whose items are the history's nodes. -/
def IsWindow {F : Type} (s : System F) (w : Window) : Prop :=
  HistoryShape s w.lo ∧ s.sh.gHistory.fresh = w.hi

section
variable {F : Type} [FloatOps F] {cfg : Config F} {s t : System F} {w : Window}

theorem window_refines (cfg : Config F) : Refines (step cfg) (Window.Next minListSize) IsWindow := by
  rintro s a t w ⟨hshape, hhi⟩ hst
  have e := step_cases hst
  obtain ht | ⟨ht, rfl, m, ls, hpc, -, hlong, -⟩ := hshape.after e
  · cases ha : a.isFrame with
    | false => exact ⟨w, .refl, ht, (e.fresh_eq ha).trans hhi⟩
    | true =>
      refine ⟨w.opened, .single (.opens w), ht, ?_⟩
      cases e with
      | frame pc lt =>
        simp only [recorded_gHistory, NodeList.pushBack_fresh, hhi]
        rfl
      | _ => cases ha
  · -- the pruner erased the first entry: its copy of the size was not above the real one
    have hfits := hshape.pruner
    rw [hpc] at hfits
    have hsize := hshape.size_eq
    have hlist := hfits.2.1
    have hlt : w.lo < w.hi := by omega
    have hwide : minListSize < w.size := by
      unfold Window.size
      omega
    exact ⟨w.cut hlt, .single (.cuts w hlt hwide), ht, (e.fresh_eq rfl).trans hhi⟩

omit [FloatOps F] in
theorem HistoryShape.mem_frameIds_iff {lo : Nat} (h : HistoryShape s lo) {id : Int} :
    id ∈ frameIds s ↔ (lo : Int) < id ∧ id ≤ s.sh.processedFrameCounter := by
  have hsize := h.size_eq
  have hcounter := h.counter
  have hlo := h.spans.1
  rw [h.frameIds_eq, List.mem_map]
  constructor
  · rintro ⟨n, hn, rfl⟩
    rw [List.mem_range'_1] at hn
    omega
  · rintro ⟨hlt, hle⟩
    refine ⟨id.toNat, List.mem_range'_1.mpr ⟨by omega, by omega⟩, by omega⟩

/-- Between any two states of a run the history forgets frames and learns new ones: what
has been erased never returns, and once `MIN_LIST_SIZE` frames are there it never gets
shorter than that. -/
theorem frameIds_of_run {now : Int} {as bs : List Action}
    (h : run (step cfg) (start cfg now) as = .ok s) (h' : run (step cfg) s bs = .ok t) :
    (∀ id ∈ frameIds t, id ≤ s.sh.processedFrameCounter → id ∈ frameIds s) ∧
      (minListSize ≤ (frameIds s).length → minListSize ≤ (frameIds t).length) := by
  obtain ⟨-, lo, hshape, -⟩ := historyShape_of_run h
  have hv : IsWindow s ⟨lo, s.sh.gHistory.fresh, hshape.spans.1⟩ := ⟨hshape, rfl⟩
  obtain ⟨w, hvw, ht, hhi⟩ := (window_refines cfg).of_run hv h'
  constructor
  · intro id hid hle
    rw [ht.mem_frameIds_iff] at hid
    have hlo : lo ≤ w.lo := Window.lo_le_of_steps hvw
    exact hshape.mem_frameIds_iff.mpr ⟨by omega, hle⟩
  · intro hlong
    rw [hshape.frameIds_length, hshape.size_eq] at hlong
    have hwide : minListSize ≤ w.size := Window.least_le_of_steps hvw hlong
    rw [ht.frameIds_length, ht.size_eq, hhi]
    exact hwide

end

/-- A pass that was started on 21 frames erases four of 24. -/
theorem frameIds_of_run_fourErased : ∃ s t,
    run (step (Config.declared : Config ℚ)) (start Config.declared 0)
      ((List.replicate 21 quietFrame).flatten ++ [.pruner, .pruner]) = .ok s ∧
    run (step (Config.declared : Config ℚ)) s
      ((List.replicate 3 quietFrame).flatten ++ List.replicate 4 .pruner) = .ok t ∧
    4 ∈ frameIds s ∧ 4 ∉ frameIds t ∧
    (∀ id ∈ frameIds t, id ≤ s.sh.processedFrameCounter → id ∈ frameIds s) ∧
    minListSize ≤ (frameIds t).length := by
  have hruns : returns (fun s => decide (4 ∈ frameIds s ∧ minListSize ≤ (frameIds s).length) &&
      returns (fun t => decide (4 ∉ frameIds t)) (run (step (Config.declared : Config ℚ)) s
        ((List.replicate 3 quietFrame).flatten ++ List.replicate 4 .pruner)))
      (run (step (Config.declared : Config ℚ)) (start Config.declared 0)
        ((List.replicate 21 quietFrame).flatten ++ [.pruner, .pruner])) = true := by
    decide +kernel
  obtain ⟨s, hs, hdec⟩ := exists_of_returns hruns
  obtain ⟨hbefore, hruns⟩ := (Bool.and_eq_true _ _).mp hdec
  obtain ⟨hthere, hlong⟩ := of_decide_eq_true hbefore
  obtain ⟨t, ht, hgone⟩ := exists_of_returns hruns
  obtain ⟨hforgotten, hsize⟩ := frameIds_of_run hs ht
  exact ⟨s, t, hs, ht, hthere, of_decide_eq_true hgone, hforgotten, hsize hlong⟩

end PlanetariumFD
