import PlanetariumFD.Detector.Matching

/-!
# The thread a face chooses

The search of part 1 takes the first thread within `DIST_THRESH`, and leaves it for
a closer one only while the best distance so far is below
`VERY_CLOSE_DIST_THRESH`. A first thread that is near, but not very near, is never
left.
-/

namespace PlanetariumFD

open Outcome

section
variable {F : Type} [FloatOps F]

/-- The distance between a face and the last face of a thread. -/
def threadDist (face : Face) (th : FDFaceThread) : Option F :=
  th.pFaces.getLast?.map (faceDist face)

/-- If the thread a face goes to is not very close, no thread is strictly closer. -/
def GoesToBest (cfg : Config F) (face : Face) (ths : List FDFaceThread) (ms : List (Matching F)) :
    Prop :=
  ∀ minDist thInd, chooseThread cfg face 0 ths ms (FloatOps.ofInt (-1), none) =
      .ok (minDist, some thInd) →
    ∀ th, ths[thInd]? = some th → ∀ dist : F, threadDist face th = some dist →
      FloatOps.lt dist cfg.veryCloseDistThresh = false →
        ∀ th' ∈ ths, ∀ dist', threadDist face th' = some dist' → FloatOps.lt dist' dist = false

/-- The first thread within `DIST_THRESH` is very close, or none is strictly closer. -/
def FirstIsBest (cfg : Config F) (face : Face) (ths : List FDFaceThread) : Prop :=
  ∀ th, ths.find? (isWithin cfg face) = some th → ∀ dist : F, threadDist face th = some dist →
    FloatOps.lt dist cfg.veryCloseDistThresh = true ∨
      ∀ th' ∈ ths, ∀ dist', threadDist face th' = some dist' → FloatOps.lt dist' dist = false

variable {cfg : Config F} {face : Face} {ms : List (Matching F)} {i k : Nat} {d : F}

/-- One turn of the search, with the last face of its thread at hand. -/
theorem chooseThread_cons {th : FDFaceThread} {last : Face} (ths : List FDFaceThread)
    (m : Matching F) (best : F × Option Nat) (hlast : th.pFaces.getLast? = some last) :
    chooseThread cfg face i (th :: ths) (m :: ms) best =
      chooseThread cfg face (i + 1) ths ms
        (if FloatOps.le (faceDist face last) cfg.distThresh then
          match best.2 with
          | none => (faceDist face last, some i)
          | some _ =>
            if FloatOps.lt (faceDist face last) best.1 then
              if FloatOps.lt best.1 cfg.veryCloseDistThresh &&
                  FloatOps.lt (getSizeDiff face.toCvRect last.toCvRect : F)
                    (getSizeDiff face.toCvRect m.face.toCvRect) then
                (faceDist face last, some i)
              else best
            else best
        else best) := by
  rw [chooseThread, FDFaceThread.back_eq_ok.mpr hlast, ok_bind]
  dsimp only
  by_cases hle : FloatOps.le (faceDist face last) cfg.distThresh = true
  · rw [if_pos hle, if_pos hle]
    cases hbest : best.2 with
    | none => rfl
    | some k =>
      dsimp only
      split
      · split <;> rfl
      · rfl
  · rw [if_neg hle, if_neg hle]

/-- A best distance that is not very close stays. -/
theorem chooseThread_far (hfar : FloatOps.lt d cfg.veryCloseDistThresh = false)
    (ths : List FDFaceThread) : ∀ (i : Nat) (ms : List (Matching F)),
      (∀ th ∈ ths, th.pFaces ≠ []) → ths.length ≤ ms.length →
      chooseThread cfg face i ths ms (d, some k) = .ok (d, some k) := by
  induction ths with
  | nil => exact fun _ _ _ _ => rfl
  | cons th ths ih =>
    intro i ms hne hlen
    cases ms with
    | nil => cases hlen
    | cons m ms =>
      have hlast := List.getLast?_eq_some_getLast (hne th List.mem_cons_self)
      rw [chooseThread_cons ths m _ hlast]
      simp only [hfar, Bool.false_and, Bool.false_eq_true, if_false, ite_self]
      exact ih (i + 1) ms (fun t ht => hne t (List.mem_cons_of_mem _ ht))
        (Nat.le_of_succ_le_succ hlen)

/-- The search ends with what it began with, or with a thread and its distance. -/
theorem chooseThread_dist (ths : List FDFaceThread) :
    ∀ (i : Nat) (ms : List (Matching F)) (best : F × Option Nat) {d : F} {k : Nat},
      chooseThread cfg face i ths ms best = .ok (d, some k) → best = (d, some k) ∨
        ∃ j th, k = i + j ∧ ths[j]? = some th ∧ threadDist face th = some d := by
  induction ths with
  | nil =>
    intro i ms best d k h
    cases h
    exact .inl rfl
  | cons th ths ih =>
    intro i ms best d k h
    cases ms with
    | nil => cases h
    | cons m ms =>
      cases hlast : th.pFaces.getLast? with
      | none =>
        rw [chooseThread, FDFaceThread.back, hlast] at h
        cases h
      | some last =>
        rw [chooseThread_cons ths m best hlast] at h
        obtain heq | ⟨j, t, rfl, ht, hd⟩ := ih _ _ _ h
        · -- what the rest began with is the old best or this thread
          have hcases : ∀ b : F × Option Nat, b = best ∨ b = (faceDist face last, some i) →
              b = (d, some k) → best = (d, some k) ∨
                ∃ j t, k = i + j ∧ (th :: ths)[j]? = some t ∧ threadDist face t = some d := by
            rintro b (rfl | rfl) hb
            · exact .inl hb
            · cases hb
              exact .inr ⟨0, th, rfl, rfl, by rw [threadDist, hlast]; rfl⟩
          refine hcases _ ?_ heq
          split
          · split
            · exact .inr rfl
            · split
              · split
                · exact .inr rfl
                · exact .inl rfl
              · exact .inl rfl
          · exact .inl rfl
        · exact .inr ⟨j + 1, t, by omega, ht, hd⟩

/-- From its start the search ends with no thread, or with one and its distance. -/
theorem chooseThread_chosen {ths : List FDFaceThread} {x : F}
    (h : chooseThread cfg face 0 ths ms (x, none) = .ok (d, some k)) :
    ∃ th, ths[k]? = some th ∧ threadDist face th = some d := by
  obtain heq | ⟨j, th, rfl, hth, hd⟩ := chooseThread_dist ths 0 ms _ h
  · cases heq
  · rw [Nat.zero_add]
    exact ⟨th, hth, hd⟩

/-- Threads that are not near are passed over. -/
theorem chooseThread_skip (x : F) (pre ths : List FDFaceThread) :
    ∀ (i : Nat) (ms : List (Matching F)), (∀ th ∈ pre, th.pFaces ≠ []) →
      (∀ th ∈ pre, isWithin cfg face th = false) → pre.length ≤ ms.length →
      chooseThread cfg face i (pre ++ ths) ms (x, none) =
        chooseThread cfg face (i + pre.length) ths (ms.drop pre.length) (x, none) := by
  induction pre with
  | nil => exact fun _ _ _ _ _ => rfl
  | cons th pre ih =>
    intro i ms hne hfar hlen
    cases ms with
    | nil => cases hlen
    | cons m ms =>
      have hlast := List.getLast?_eq_some_getLast (hne th List.mem_cons_self)
      have hle : FloatOps.le (faceDist face (th.pFaces.getLast (hne th List.mem_cons_self)) : F)
          cfg.distThresh = false := by
        have hth := hfar th List.mem_cons_self
        rw [isWithin, hlast] at hth
        exact hth
      rw [List.cons_append, chooseThread_cons (pre ++ ths) m _ hlast, hle,
        if_neg Bool.false_ne_true, ih (i + 1) ms (fun t ht => hne t (List.mem_cons_of_mem _ ht))
          (fun t ht => hfar t (List.mem_cons_of_mem _ ht)) (Nat.le_of_succ_le_succ hlen),
        List.length_cons, List.drop_succ_cons]
      congr 1
      omega

/-- The search from its start: it takes the first thread that is near. -/
theorem chooseThread_first {pre post : List FDFaceThread} {th : FDFaceThread} {last : Face}
    (hne : ∀ t ∈ pre ++ th :: post, t.pFaces ≠ []) (hpre : ∀ t ∈ pre, isWithin cfg face t = false)
    (hwithin : isWithin cfg face th = true) (hlast : th.pFaces.getLast? = some last) (x : F)
    (hlen : (pre ++ th :: post).length ≤ ms.length) :
    ∃ ms', post.length ≤ ms'.length ∧ chooseThread cfg face 0 (pre ++ th :: post) ms (x, none) =
      chooseThread cfg face (pre.length + 1) post ms' (faceDist face last, some pre.length) := by
  rw [List.length_append, List.length_cons] at hlen
  rw [chooseThread_skip x pre _ 0 ms (fun t ht => hne t (List.mem_append_left _ ht)) hpre
    (by omega), Nat.zero_add]
  have hdrop : (ms.drop pre.length).length = ms.length - pre.length := List.length_drop
  cases hms : ms.drop pre.length with
  | nil =>
    rw [hms, List.length_nil] at hdrop
    omega
  | cons m ms' =>
    rw [hms, List.length_cons] at hdrop
    have hle : FloatOps.le (faceDist face last : F) cfg.distThresh = true := by
      rw [isWithin, hlast] at hwithin
      exact hwithin
    refine ⟨ms', by omega, ?_⟩
    rw [chooseThread_cons post m _ hlast, if_pos hle]

/-- No thread is near: none is chosen, and the condition asks nothing. -/
theorem goesToBest_of_none {ths : List FDFaceThread} (hne : ∀ th ∈ ths, th.pFaces ≠ [])
    (hlen : ths.length ≤ ms.length) (hfind : ths.find? (isWithin cfg face) = none) :
    GoesToBest cfg face ths ms := by
  have hall := List.find?_eq_none.mp hfind
  obtain ⟨best, hrun, hnone, -⟩ :=
    chooseThread_spec cfg face ths ms 0 (FloatOps.ofInt (-1), none) hne hlen
  have hbest : best.2 = none :=
    hnone.mpr ⟨rfl, fun th hth => Bool.eq_false_iff.mpr (hall th hth)⟩
  intro d k h
  rw [h] at hrun
  cases hrun
  cases hbest

/-- Where every thread the search may end with is very close, nothing is asked of it. -/
theorem goesToBest_of_near {ths : List FDFaceThread}
    (h : ∀ (d : F) k, chooseThread cfg face 0 ths ms (FloatOps.ofInt (-1), none) = .ok (d, some k) →
      FloatOps.lt d cfg.veryCloseDistThresh = true) : GoesToBest cfg face ths ms := by
  intro d k hrun th hth dist hdist hfar
  obtain ⟨th', hth', hd⟩ := chooseThread_chosen hrun
  cases hth.symm.trans hth'
  cases hdist.symm.trans hd
  rw [h _ _ hrun] at hfar
  cases hfar

/-- Where the search ends with the first near thread, the two conditions are about it. -/
theorem goesToBest_iff_of_far {ths : List FDFaceThread} {th : FDFaceThread}
    (hfind : ths.find? (isWithin cfg face) = some th) (hdist : threadDist face th = some d)
    (hfar : FloatOps.lt d cfg.veryCloseDistThresh = false) (hget : ths[k]? = some th)
    (hrun : chooseThread cfg face 0 ths ms (FloatOps.ofInt (-1), none) = .ok (d, some k)) :
    GoesToBest cfg face ths ms ↔ FirstIsBest cfg face ths := by
  constructor
  · intro hbest t ht dist htd
    cases hfind.symm.trans ht
    cases hdist.symm.trans htd
    exact .inr (hbest _ _ hrun th hget _ hdist hfar)
  · intro hfirst d' k' h t ht dist htd hdistFar
    cases hrun.symm.trans h
    cases hget.symm.trans ht
    refine (hfirst th hfind dist htd).resolve_left fun hclose => ?_
    rw [hclose] at hdistFar
    cases hdistFar

section
variable [ExactOps F]

theorem lt_trans_of_exact {a b c : F} (hab : FloatOps.lt a b = true) (hbc : FloatOps.lt b c = true) :
    FloatOps.lt a c = true :=
  (ExactOps.lt_iff a c).mpr (((ExactOps.lt_iff a b).mp hab).trans ((ExactOps.lt_iff b c).mp hbc))

/-- A best distance that is very close is only left for a closer one. -/
theorem chooseThread_near (ths : List FDFaceThread) :
    ∀ (i : Nat) (ms : List (Matching F)) (d : F) (k : Nat) {d' : F} {k' : Nat},
      FloatOps.lt d cfg.veryCloseDistThresh = true →
      chooseThread cfg face i ths ms (d, some k) = .ok (d', some k') →
      FloatOps.lt d' cfg.veryCloseDistThresh = true := by
  induction ths with
  | nil =>
    intro i ms d k d' k' hnear h
    cases h
    exact hnear
  | cons th ths ih =>
    intro i ms d k d' k' hnear h
    cases ms with
    | nil => cases h
    | cons m ms =>
      cases hlast : th.pFaces.getLast? with
      | none =>
        rw [chooseThread, FDFaceThread.back, hlast] at h
        cases h
      | some last =>
        rw [chooseThread_cons ths m _ hlast] at h
        dsimp only at h
        split at h
        · split at h
          · next hlt =>
            split at h
            · exact ih _ _ _ _ (lt_trans_of_exact hlt hnear) h
            · exact ih _ _ _ _ hnear h
          · exact ih _ _ _ _ hnear h
        · exact ih _ _ _ _ hnear h

/-- The exact condition, for every list of live threads, every face and every content
of `matches`. -/
theorem goesToBest_iff {ths : List FDFaceThread} (hne : ∀ th ∈ ths, th.pFaces ≠ [])
    (hlen : ms.length = ths.length) : GoesToBest cfg face ths ms ↔ FirstIsBest cfg face ths := by
  cases hfind : ths.find? (isWithin cfg face) with
  | none =>
    refine iff_of_true (goesToBest_of_none hne hlen.ge hfind) fun th hth => ?_
    rw [hfind] at hth
    cases hth
  | some th =>
    obtain ⟨hwithin, pre, post, hsplit, hpre⟩ := List.find?_eq_some_iff_append.mp hfind
    have hmem : th ∈ ths := List.mem_of_find?_eq_some hfind
    have hget : ths[pre.length]? = some th := by
      rw [hsplit, List.getElem?_append_right (le_refl _), Nat.sub_self]
      rfl
    have hlast := List.getLast?_eq_some_getLast (hne th hmem)
    generalize th.pFaces.getLast (hne th hmem) = last at hlast
    have hdist : threadDist face th = some (faceDist face last : F) := by
      rw [threadDist, hlast]
      rfl
    obtain ⟨ms', hlen', hrun⟩ := chooseThread_first (hsplit ▸ hne)
      (fun t ht => by simpa using hpre t ht) hwithin hlast (FloatOps.ofInt (-1)) (hsplit ▸ hlen.ge)
    rw [← hsplit] at hrun
    cases hnear : FloatOps.lt (faceDist face last : F) cfg.veryCloseDistThresh with
    | true =>
      -- a very close first thread is only left for another very close one
      refine iff_of_true (goesToBest_of_near fun d k h => ?_) fun t ht dist htd => .inl ?_
      · rw [hrun] at h
        exact chooseThread_near post _ _ _ _ hnear h
      · cases hfind.symm.trans ht
        cases hdist.symm.trans htd
        exact hnear
    | false =>
      have hpost : ∀ t ∈ post, t.pFaces ≠ [] := fun t ht =>
        hne t (by rw [hsplit]; exact List.mem_append_right _ (List.mem_cons_of_mem _ ht))
      rw [chooseThread_far hnear post _ _ hpost hlen'] at hrun
      exact goesToBest_iff_of_far hfind hdist hnear hget hrun

end

end

/-- A square of side 20. -/
def squareAt (x frameId : Int) : Face := ⟨⟨x, 0, 20, 20⟩, frameId⟩

def threadAt (x : Int) (ident : Nat) : FDFaceThread := ⟨[squareAt x 1], 1, 0, 1, 0, ident⟩

theorem goesToBest_iff_twoThreads :
    GoesToBest (Config.declared : Config ℚ) (squareAt 0 2) [threadAt 10 0, threadAt 90 1]
        [⟨false, 0, nullFace, 0⟩, ⟨false, 0, nullFace, 1⟩] ↔
      FirstIsBest (Config.declared : Config ℚ) (squareAt 0 2) [threadAt 10 0, threadAt 90 1] :=
  goesToBest_iff (by decide) rfl

/-- The first thread is 90 away, the second 10, and the first is chosen. -/
theorem first_thread_not_best :
    ¬ GoesToBest (Config.declared : Config ℚ) (squareAt 0 2) [threadAt 90 0, threadAt 10 1]
      [⟨false, 0, nullFace, 0⟩, ⟨false, 0, nullFace, 1⟩] := by
  intro hbest
  have hruns : returns (fun best => decide (best = (90, some 0)))
      (chooseThread (Config.declared : Config ℚ) (squareAt 0 2) 0 [threadAt 90 0, threadAt 10 1]
        [⟨false, 0, nullFace, 0⟩, ⟨false, 0, nullFace, 1⟩] (FloatOps.ofInt (-1), none)) = true := by
    decide +kernel
  obtain ⟨best, hrun, hchosen⟩ := exists_of_returns hruns
  obtain rfl := of_decide_eq_true hchosen
  have hlt := hbest 90 0 hrun (threadAt 90 0) rfl 90 (by decide +kernel) (by decide +kernel)
    (threadAt 10 1) (by decide) 10 (by decide +kernel)
  revert hlt
  decide +kernel

end PlanetariumFD
