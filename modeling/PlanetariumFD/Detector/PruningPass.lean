import PlanetariumFD.Detector.HistoryShape

/-!
# A pass of the pruner

What the erase loop of `pruneHistory` takes away when nothing is pushed meanwhile,
and what the history looks like in every state of every run.
-/

namespace PlanetariumFD

open Outcome Transition

/-- The lengths of the prefixes that a pass may erase: all numbers below `m`, and
`MIN_LIST_SIZE` entries left. -/
def prunable (ids : List Int) (m : Int) : Set Nat :=
  {k | k + minListSize ≤ ids.length ∧ ∀ id ∈ ids.take k, id < m}

section
variable {F : Type} [FloatOps F] {cfg : Config F} {s t : System F} {lo : Nat} {m : Int}

/-- While no frame is pushed, the pruner's next `k` steps erase the first `k`
entries one by one, and the step after them ends the pass. -/
structure PassErases (cfg : Config F) (s : System F) (k : Nat) : Prop where
  during : ∀ bs t, run (step cfg) s bs = .ok t → (∀ b ∈ bs, b.isFrame = false) →
    bs.count .pruner ≤ k →
      frameIds t = (frameIds s).drop (bs.count .pruner) ∧ t.pruner ≠ .sleeping ∧
        ∃ u, step cfg t .pruner = .ok u
  ends : ∀ bs t, run (step cfg) s bs = .ok t → (∀ b ∈ bs, b.isFrame = false) →
    bs.count .pruner = k + 1 → frameIds t = (frameIds s).drop k ∧ t.pruner = .sleeping

/-- How many entries a pass erases that starts at node `lo` with `size` entries. -/
def passLength (lo size : Nat) (m : Int) : Nat :=
  min (size - minListSize) (m - lo - 1).toNat

omit [FloatOps F] in
theorem HistoryShape.passLength_isGreatest (h : HistoryShape s lo)
    (hmin : minListSize ≤ s.sh.gHistory.size) :
    IsGreatest (prunable (frameIds s) m) (passLength lo s.sh.gHistory.size m) := by
  have hids : frameIds s = _ := h.frameIds_eq
  have hlen := h.frameIds_length
  refine ⟨⟨?_, fun id hid => ?_⟩, fun k hk => ?_⟩
  · unfold passLength
    omega
  · rw [hids, ← List.map_take, List.take_range'_of_length_ge (by unfold passLength; omega),
      List.mem_map] at hid
    obtain ⟨n, hn, rfl⟩ := hid
    rw [List.mem_range'_1] at hn
    unfold passLength at hn
    omega
  · obtain ⟨hleft, hbelow⟩ := hk
    rw [hlen] at hleft
    by_cases hk : k = 0
    · omega
    -- the last number of the prefix is below `m`
    have hlast : ((lo + k : Nat) : Int) ∈ (frameIds s).take k := by
      rw [hids, ← List.map_take, List.take_range'_of_length_ge (by omega)]
      refine List.mem_map.mpr ⟨lo + k, List.mem_range'_1.mpr ?_, rfl⟩
      unfold minListSize at hleft
      omega
    have := hbelow _ hlast
    unfold passLength
    omega

/-- A turn of the erase loop at the first entry. -/
theorem HistoryShape.erasing_step (h : HistoryShape s lo) {ls : Nat}
    (pc : s.pruner = .erasing (some lo) m ls) :
    (∃ u, step cfg s .pruner = .ok u) ∧ ∀ t, step cfg s .pruner = .ok t →
      ((lo : Int) + 1 < m ∧ minListSize < ls ∧ HistoryShape t (lo + 1) ∧
        t.pruner = .erasing (some (lo + 1)) m (s.sh.gHistory.size - 1)) ∨
      (¬((lo : Int) + 1 < m ∧ minListSize < ls) ∧ HistoryShape t lo ∧ t.pruner = .sleeping) := by
  have hfits := h.pruner
  rw [pc] at hfits
  obtain ⟨hmin, -, -⟩ := hfits
  have hsize := h.size_eq
  have hlt : lo < s.sh.gHistory.fresh := by
    unfold minListSize at hmin
    omega
  obtain ⟨entry, hget, hid, -⟩ := h.get? (le_refl lo) hlt
  constructor
  · simp only [step, pc, pruneHistory, hget]
    split <;> exact ⟨_, rfl⟩
  · intro t ht
    obtain hshape | ⟨hshape, -, m', ls', pc', hbelow, hlong, ht'⟩ := h.after (step_cases ht)
    · -- the list still starts at `lo`, so the guard failed
      right
      simp only [step, pc, pruneHistory, hget] at ht
      split at ht
      · cases ht
        have hgone := hshape.get? (le_refl lo) hlt
        obtain ⟨e, he, -⟩ := hgone
        have hmem := NodeList.get?_isSome_iff.mp (Option.isSome_iff_exists.mpr ⟨e, he⟩)
        simp [eraseEntry] at hmem
      · next hguard =>
        cases ht
        exact ⟨hid ▸ hguard, hshape, rfl⟩
    · left
      rw [pc] at pc'
      cases pc'
      exact ⟨hbelow, hlong, hshape, ht'⟩

/-- The pass after `j` turns, when it erases `k` of the `size` entries from node `lo` on. -/
def PassAt (m : Int) (lo size k : Nat) (t : System F) (j : Nat) : Prop :=
  (j ≤ k ∧ HistoryShape t (lo + j) ∧ t.pruner = .erasing (some (lo + j)) m (size - j)) ∨
    (j = k + 1 ∧ HistoryShape t (lo + k) ∧ t.pruner = .sleeping)

/-- The other parties do not touch the pass. -/
theorem PassAt.of_ne {size k j : Nat} {a : Action} (h : PassAt m lo size k s j)
    (e : StepEffect cfg s a t) (ha : a ≠ .pruner) : PassAt m lo size k t j := by
  have keeps : ∀ {lo'}, HistoryShape s lo' → HistoryShape t lo' := by
    intro lo' hs
    exact (hs.after e).resolve_right fun h => ha h.2.1
  obtain ⟨hj, hshape, hpc⟩ | ⟨hj, hshape, hpc⟩ := h
  · exact .inl ⟨hj, keeps hshape, by rw [e.pruner_eq ha, hpc]⟩
  · exact .inr ⟨hj, keeps hshape, by rw [e.pruner_eq ha, hpc]⟩

/-- A turn of the pruner takes the pass one turn further. -/
theorem PassAt.turn {size j : Nat} (h : PassAt m lo size (passLength lo size m) s j)
    (hj : j ≤ passLength lo size m) (hsize : size = s.sh.gHistory.fresh - lo)
    (hst : step cfg s .pruner = .ok t) : PassAt m lo size (passLength lo size m) t (j + 1) := by
  obtain ⟨-, hshape, hpc⟩ | ⟨hend, -, -⟩ := h
  · have hleft : s.sh.gHistory.size = size - j := by
      rw [hshape.size_eq]
      omega
    obtain ⟨hbelow, hlong, hshape', hpc'⟩ | ⟨hguard, hshape', hpc'⟩ :=
      (hshape.erasing_step hpc).2 t hst
    · left
      refine ⟨?_, hshape', ?_⟩
      · unfold passLength
        omega
      · rw [hpc', hleft, Nat.sub_sub, Nat.add_assoc]
    · right
      -- the guard fails at the greatest prefix only
      obtain rfl : j = passLength lo size m := by
        unfold passLength at hj ⊢
        omega
      exact ⟨rfl, hshape', hpc'⟩
  · omega

theorem passAt_of_run {size : Nat} (h : HistoryShape s lo) (hsize : size = s.sh.gHistory.size)
    (pc : s.pruner = .erasing (some lo) m size) {bs : List Action}
    (hrun : run (step cfg) s bs = .ok t) (hbs : ∀ b ∈ bs, b.isFrame = false)
    (hcount : bs.count .pruner ≤ passLength lo size m + 1) :
    t.sh.gHistory.fresh = s.sh.gHistory.fresh ∧
      PassAt m lo size (passLength lo size m) t (bs.count .pruner) := by
  have hfresh := h.size_eq
  refine run_induction (P := fun bs t => (∀ b ∈ bs, b.isFrame = false) →
    bs.count .pruner ≤ passLength lo size m + 1 → t.sh.gHistory.fresh = s.sh.gHistory.fresh ∧
      PassAt m lo size (passLength lo size m) t (bs.count .pruner))
    (fun _ _ => ⟨rfl, .inl ⟨Nat.zero_le _, h, pc⟩⟩) ?_ hrun hbs hcount
  intro bs u b t _ ih hst hbs hcount
  have hb : b.isFrame = false := hbs b (by simp)
  rw [List.count_append] at hcount
  obtain ⟨hsame, hat⟩ := ih (fun b' hb' => hbs b' (by simp [hb'])) (by omega)
  have e := step_cases hst
  refine ⟨by rw [e.fresh_eq hb, hsame], ?_⟩
  rw [List.count_append]
  by_cases hpruner : b = .pruner
  · subst hpruner
    rw [List.count_singleton_self] at hcount ⊢
    exact hat.turn (by omega) (by omega) hst
  · rw [List.count_singleton, if_neg (by simpa using hpruner), Nat.add_zero]
    exact hat.of_ne e hpruner

theorem HistoryShape.passErases (h : HistoryShape s lo)
    (pc : s.pruner = .erasing (some lo) m s.sh.gHistory.size) :
    PassErases cfg s (passLength lo s.sh.gHistory.size m) := by
  have dropped : ∀ {t : System F} {j}, HistoryShape t (lo + j) →
      t.sh.gHistory.fresh = s.sh.gHistory.fresh → frameIds t = (frameIds s).drop j := by
    intro t j ht hfresh
    have hstart : lo + 1 + j * 1 = lo + j + 1 := by omega
    rw [ht.frameIds_eq, h.frameIds_eq, ← List.map_drop, List.drop_range', ht.size_eq, h.size_eq,
      hfresh, hstart, Nat.sub_sub]
  constructor
  · intro bs t hrun hbs hcount
    obtain ⟨hfresh, hat⟩ := passAt_of_run h rfl pc hrun hbs (by omega)
    obtain ⟨-, hshape, hpc⟩ | ⟨hend, -, -⟩ := hat
    · exact ⟨dropped hshape hfresh, by simp [hpc], (hshape.erasing_step hpc).1⟩
    · omega
  · intro bs t hrun hbs hcount
    obtain ⟨hfresh, hat⟩ := passAt_of_run h rfl pc hrun hbs hcount.le
    obtain ⟨hle, -, -⟩ | ⟨-, hshape, hpc⟩ := hat
    · omega
    · exact ⟨dropped hshape hfresh, hpc⟩

/-! ## Every state of every run -/

/-- The shape of the history after a run with `n` frames. -/
theorem historyShape_of_run {now : Int} {as : List Action}
    (h : run (step cfg) (start cfg now) as = .ok s) :
    s.sh.gHistory.fresh = as.countP Action.isFrame ∧
      ∃ lo, HistoryShape s lo ∧ (lo = 0 ∨ minListSize < as.countP Action.isFrame) := by
  refine run_induction (P := fun as s => s.sh.gHistory.fresh = as.countP Action.isFrame ∧
    ∃ lo, HistoryShape s lo ∧ (lo = 0 ∨ minListSize < as.countP Action.isFrame)) ?_ ?_ h
  · refine ⟨rfl, 0, ⟨⟨le_refl _, rfl⟩, rfl, fun p hp => ?_, rfl, fun _ _ hpc => ?_⟩, .inl rfl⟩
    · cases hp
    · cases hpc
  · rintro as s a t - ⟨hfresh, lo, hshape, hlo⟩ hst
    have e := step_cases hst
    have hcount : t.sh.gHistory.fresh = (as ++ [a]).countP Action.isFrame := by
      rw [List.countP_append, List.countP_singleton, ← hfresh]
      cases ha : a.isFrame with
      | false => exact e.fresh_eq ha
      | true =>
        cases e with
        | frame pc lt => simp only [recorded_gHistory, NodeList.pushBack_fresh, if_true]
        | _ => cases ha
    have hmono : as.countP Action.isFrame ≤ (as ++ [a]).countP Action.isFrame := by
      rw [List.countP_append]
      omega
    refine ⟨hcount, ?_⟩
    obtain ht | ⟨ht, -, m, ls, hpc, -, hlong, -⟩ := hshape.after e
    · exact ⟨lo, ht, hlo.imp_right fun h => h.trans_le hmono⟩
    · -- the local list size is not above the real one, so enough frames were pushed
      refine ⟨lo + 1, ht, .inr ?_⟩
      have hfits := hshape.pruner
      rw [hpc] at hfits
      have := hshape.size_eq
      have := hfits.2.1
      omega

/-- In every state of every run the history is an interval that ends at the newest
frame; nothing is erased before more than `MIN_LIST_SIZE` frames came, and the
newest `MIN_LIST_SIZE` are never erased; the pruner's iterator points at the first
entry; and a pass with nothing pushed meanwhile erases the longest prefix below
its floor that leaves `MIN_LIST_SIZE` entries. -/
theorem gHistory_shape (cfg : Config F) (now : Int) {as : List Action} {n : Nat}
    (hn : as.countP Action.isFrame = n) (h : run (step cfg) (start cfg now) as = .ok s) :
    (∃ a, 1 ≤ a ∧ a ≤ n + 1 ∧
        frameIds s = (List.range' a (n + 1 - a)).map (fun id : Nat => (id : Int)) ∧
        (1 < a → minListSize < n) ∧ (minListSize < n → a + minListSize ≤ n + 1)) ∧
      (∀ itr m ls, s.pruner = .erasing itr m ls → itr = s.sh.gHistory.front? ∧
        ∃ a entry, itr = some a ∧ s.sh.gHistory.get? a = some entry ∧ entry.pFrame ≠ none) ∧
      (∀ itr m, s.pruner = .erasing itr m s.sh.gHistory.size →
        ∃ k, IsGreatest (prunable (frameIds s) m) k ∧ PassErases cfg s k) := by
  subst hn
  obtain ⟨hfresh, lo, hshape, hlo⟩ := historyShape_of_run h
  have hsize := hshape.size_eq
  have hle := hshape.spans.1
  have hfits := hshape.pruner
  refine ⟨⟨lo + 1, by omega, by omega, ?_, by omega, fun hlong => ?_⟩, fun itr m ls hpc => ?_,
    fun itr m hpc => ?_⟩
  · rw [hshape.frameIds_eq, hsize, hfresh, Nat.add_sub_add_right]
  · have hsome := hshape.start_or_long
    omega
  · rw [hpc] at hfits
    obtain ⟨hmin, -, rfl⟩ := hfits
    have hlt : lo < s.sh.gHistory.fresh := by
      unfold minListSize at hmin
      omega
    obtain ⟨entry, hget, -, hframe⟩ := hshape.get? (le_refl lo) hlt
    exact ⟨(hshape.spans.front?_eq hlt).symm, lo, entry, rfl, hget, hframe⟩
  · rw [hpc] at hfits
    obtain ⟨hmin, -, rfl⟩ := hfits
    exact ⟨_, hshape.passLength_isGreatest hmin, hshape.passErases hpc⟩

end

/-- The entry that the pruner's loop is about to erase. -/
def nextErased {F : Type} (s : System F) : Option Nat :=
  match s.pruner with
  | .erasing (some itr) m listSize =>
    match s.sh.gHistory.get? itr with
    | none => none
    | some entry => if entry.frameId < m ∧ minListSize < listSize then some itr else none
  | _ => none

theorem mem_nextErased {F : Type} {s : System F} {itr : Nat} :
    itr ∈ nextErased s ↔ ∃ m listSize entry, s.pruner = .erasing (some itr) m listSize ∧
      s.sh.gHistory.get? itr = some entry ∧ entry.frameId < m ∧ minListSize < listSize := by
  unfold nextErased
  constructor
  · intro h
    split at h
    · next b m listSize hpc =>
      split at h
      · cases h
      · next entry hget =>
        split at h
        · next hguard =>
          cases h
          exact ⟨m, listSize, entry, hpc, hget, hguard⟩
        · cases h
    · cases h
  · rintro ⟨m, listSize, entry, hpc, hget, hguard⟩
    simp only [hpc, hget, if_pos hguard, Option.mem_def]

/-- All steps of the main thread for a frame without detections, while no thread lives. -/
def quietFrame : List Action := [.frame noDetection, .main, .main, .main]

theorem gHistory_shape_quiet : ∃ s,
    run (step (Config.declared : Config ℚ)) (start Config.declared 0)
      ((List.replicate 21 quietFrame).flatten ++ [.pruner, .pruner]) = .ok s ∧
    s.pruner = .erasing (some 0) intMax 21 ∧
    ∃ k, IsGreatest (prunable (frameIds s) intMax) k ∧
      PassErases (Config.declared : Config ℚ) s k := by
  have hruns : returns (fun s => decide (s.pruner = .erasing (some 0) intMax s.sh.gHistory.size ∧
      s.sh.gHistory.size = 21)) (run (step (Config.declared : Config ℚ)) (start Config.declared 0)
        ((List.replicate 21 quietFrame).flatten ++ [.pruner, .pruner])) = true := by
    decide +kernel
  obtain ⟨s, hs, hdec⟩ := exists_of_returns hruns
  obtain ⟨hpc, hsize⟩ := of_decide_eq_true hdec
  exact ⟨s, hs, hsize ▸ hpc, (gHistory_shape Config.declared 0 rfl hs).2.2 _ _ hpc⟩

end PlanetariumFD
