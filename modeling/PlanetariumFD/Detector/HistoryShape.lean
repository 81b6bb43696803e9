import PlanetariumFD.Detector.System

/-!
# The shape of the frame history

Entry `n` sits in node `n - 1`, so the history is an interval of addresses that
grows at the end and is erased at the front. The pruner's copy of the list size
is never above the real size, since nobody else erases.
-/

namespace PlanetariumFD

open Outcome Transition

/-- Where the pruner may stand when the history starts at node `lo` and has
`size` entries. -/
def PrunerPC.Fits (lo size : Nat) : PrunerPC → Prop
  | .waiting => lo = 0
  | .top listSize => minListSize ≤ size ∧ listSize ≤ size
  | .erasing itr _ listSize => minListSize ≤ size ∧ listSize ≤ size ∧ itr = some lo
  | .sleeping => minListSize ≤ size

/-- The frame numbers in the history, oldest first. -/
def frameIds {F : Type} (s : System F) : List Int :=
  s.sh.gHistory.vals.map FDHistoryEntry.frameId

/-- The history holds the entries of nodes `lo` and up, none of them released. -/
structure HistoryShape {F : Type} (s : System F) (lo : Nat) : Prop where
  spans : s.sh.gHistory.SpansFrom lo
  counter : s.sh.processedFrameCounter = s.sh.gHistory.fresh
  entries : ∀ p ∈ s.sh.gHistory.nodes, p.2.frameId = p.1 + 1 ∧ p.2.pFrame ≠ none
  pruner : s.pruner.Fits lo s.sh.gHistory.size
  cur : ∀ cur now, s.main = .pushed cur now → cur + 1 = s.sh.gHistory.fresh

theorem eraseEntry_fresh (history : NodeList FDHistoryEntry) (itr : Nat) :
    (eraseEntry history itr).fresh = history.fresh := rfl

/-- What is left is as it was. -/
theorem mem_eraseEntry_nodes {history : NodeList FDHistoryEntry} {itr : Nat}
    {p : Nat × FDHistoryEntry} (h : p ∈ (eraseEntry history itr).nodes) : p ∈ history.nodes := by
  simp only [eraseEntry, NodeList.mem_erase_nodes, NodeList.modify, NodeList.mem_alter_nodes] at h
  obtain ⟨⟨x, hx, he⟩, hne⟩ := h
  rw [if_neg hne] at he
  have hp : p = (p.1, x) := Prod.ext rfl he
  rw [hp]
  exact hx

theorem NodeList.SpansFrom.eraseEntry {history : NodeList FDHistoryEntry} {itr : Nat}
    (h : history.SpansFrom itr) (hlt : itr + 1 < history.fresh) :
    (eraseEntry history itr).SpansFrom (itr + 1) :=
  (h.alter _).erase_front (by simp only [NodeList.alter_fresh]; omega)

namespace HistoryShape

section
variable {F : Type} {s : System F} {lo : Nat}

theorem size_eq (h : HistoryShape s lo) : s.sh.gHistory.size = s.sh.gHistory.fresh - lo :=
  h.spans.size_eq

/-- Node `a` is there iff it is in the interval, and then it is entry `a + 1`. -/
theorem get? (h : HistoryShape s lo) {a : Nat} (hlo : lo ≤ a) (hlt : a < s.sh.gHistory.fresh) :
    ∃ e, s.sh.gHistory.get? a = some e ∧ e.frameId = a + 1 ∧ e.pFrame ≠ none := by
  have hmem : a ∈ s.sh.gHistory.addrs := h.spans.mem_addrs_iff.mpr ⟨hlo, hlt⟩
  obtain ⟨e, he⟩ := Option.isSome_iff_exists.mp (NodeList.get?_isSome_iff.mpr hmem)
  exact ⟨e, he, h.entries (a, e) (NodeList.get?_eq_some_iff.mp he)⟩

theorem of_get? (h : HistoryShape s lo) {a : Nat} {e : FDHistoryEntry}
    (he : s.sh.gHistory.get? a = some e) :
    lo ≤ a ∧ a < s.sh.gHistory.fresh ∧ e.frameId = a + 1 ∧ e.pFrame ≠ none := by
  have hmem : a ∈ s.sh.gHistory.addrs := NodeList.get?_isSome_iff.mp (by rw [he]; rfl)
  obtain ⟨hlo, hlt⟩ := h.spans.mem_addrs_iff.mp hmem
  exact ⟨hlo, hlt, h.entries (a, e) (NodeList.get?_eq_some_iff.mp he)⟩

/-- The frame numbers in the history are consecutive. -/
theorem frameIds_eq (h : HistoryShape s lo) :
    frameIds s = (List.range' (lo + 1) s.sh.gHistory.size).map fun n : Nat => (n : Int) := by
  have hids : frameIds s = s.sh.gHistory.addrs.map fun a : Nat => (a : Int) + 1 := by
    rw [frameIds, NodeList.vals, NodeList.addrs, List.map_map, List.map_map]
    exact List.map_congr_left fun p hp => (h.entries p hp).1
  have hshift : List.range' (lo + 1) s.sh.gHistory.size =
      (List.range' lo s.sh.gHistory.size).map fun a => 1 + a := by
    rw [List.map_add_range', Nat.add_comm]
  rw [hids, h.spans.2, ← h.size_eq, hshift, List.map_map]
  refine List.map_congr_left fun a _ => ?_
  simp only [Function.comp_apply]
  push_cast
  omega

/-- Before the pruner starts nothing is erased; from then on the list stays long. -/
theorem start_or_long (h : HistoryShape s lo) : lo = 0 ∨ minListSize ≤ s.sh.gHistory.size := by
  have hfits := h.pruner
  cases hpc : s.pruner with
  | waiting =>
    rw [hpc] at hfits
    exact .inl hfits
  | top ls =>
    rw [hpc] at hfits
    exact .inr hfits.1
  | erasing itr m ls =>
    rw [hpc] at hfits
    exact .inr hfits.1
  | sleeping =>
    rw [hpc] at hfits
    exact .inr hfits

/-- The newest frame is never erased. -/
theorem lo_lt (h : HistoryShape s lo) (hn : 1 ≤ s.sh.processedFrameCounter) :
    (lo : Int) < s.sh.processedFrameCounter := by
  have hcounter := h.counter
  have hsize := h.size_eq
  obtain rfl | hlong := h.start_or_long
  · omega
  · unfold minListSize at hlong
    omega

theorem frameIds_length (h : HistoryShape s lo) : (frameIds s).length = s.sh.gHistory.size := by
  rw [h.frameIds_eq, List.length_map, List.length_range']

end

section
variable {F : Type} [FloatOps F] {cfg : Config F} {s t : System F} {a : Action} {lo : Nat}

omit [FloatOps F] in
/-- Only the history, the counter and where the two threads stand matter. -/
theorem congr (h : HistoryShape s lo) (hist : t.sh.gHistory = s.sh.gHistory)
    (count : t.sh.processedFrameCounter = s.sh.processedFrameCounter)
    (pruner : t.pruner.Fits lo s.sh.gHistory.size)
    (main : ∀ cur now, t.main = .pushed cur now → s.main = .pushed cur now) :
    HistoryShape t lo where
  spans := hist ▸ h.spans
  counter := by rw [count, hist, h.counter]
  entries := hist ▸ h.entries
  pruner := hist ▸ pruner
  cur cur now hpc := by
    rw [hist]
    exact h.cur cur now (main cur now hpc)

omit [FloatOps F] in
/-- The list only grows while the pruner stands still. -/
theorem fits_mono {pc : PrunerPC} {size size' : Nat} (h : pc.Fits lo size) (hle : size ≤ size') :
    pc.Fits lo size' := by
  cases pc with
  | waiting => exact h
  | top ls => exact ⟨h.1.trans hle, h.2.trans hle⟩
  | erasing itr m ls => exact ⟨h.1.trans hle, h.2.1.trans hle, h.2.2⟩
  | sleeping => exact Nat.le_trans h hle

omit [FloatOps F] in
/-- The input loop pushes: the new entry gets the next address and the next frame
number. -/
theorem frame (h : HistoryShape s lo) {inp : FrameInput} : HistoryShape
    { s with sh := recorded s.sh inp, main := .pushed s.sh.gHistory.fresh inp.now } lo where
  spans := by
    simp only [recorded_gHistory]
    exact h.spans.pushBack _
  counter := by
    simp only [recorded_gHistory, recorded_processedFrameCounter, NodeList.pushBack_fresh, h.counter]
    push_cast
    rfl
  entries p hp := by
    simp only [recorded_gHistory, NodeList.mem_pushBack_nodes] at hp
    obtain hp | rfl := hp
    · exact h.entries p hp
    · exact ⟨by simp only [h.counter], by simp⟩
  pruner := by
    have hsize : ∀ l : NodeList FDHistoryEntry, ∀ x, (l.pushBack x).size = l.size + 1 := by
      intro l x
      simp [NodeList.size, NodeList.pushBack]
    simp only [recorded_gHistory, hsize]
    exact fits_mono h.pruner (Nat.le_succ _)
  cur cur now hpc := by
    cases hpc
    simp only [recorded_gHistory, NodeList.pushBack_fresh]

/-- Part 0 empties a sequence and leaves numbers and images. -/
theorem process (h : HistoryShape s lo) {cur : Nat} {m : Matched F}
    (eff : MatchEffect cfg s.sh cur s.sh.processedFrameCounter m) : HistoryShape
      { s with sh := m.sh, main := .deleting m.sh.gThreads.addrs m.ms m.inputFaces } lo := by
  have hist : m.sh.gHistory = s.sh.gHistory.modify cur fun e => { e with pFacesSeq := [] } := by
    rw [eff.others]
  have hsize : m.sh.gHistory.size = s.sh.gHistory.size := by
    rw [← NodeList.addrs_length, ← NodeList.addrs_length, hist, NodeList.addrs_modify]
  refine ⟨?_, ?_, fun p hp => ?_, ?_, fun cur now hpc => by cases hpc⟩
  · simp only [hist]
    exact h.spans.alter _
  · simp only [hist, NodeList.modify_fresh, ← h.counter]
    exact eff.counter_eq
  · simp only [hist, NodeList.modify, NodeList.mem_alter_nodes] at hp
    obtain ⟨x, hx, he⟩ := hp
    have hold := h.entries (p.1, x) hx
    rw [he]
    split
    · exact hold
    · exact hold
  · simp only [hsize]
    exact h.pruner

/-- A step keeps the start of the history, unless it is an erase by the pruner. -/
theorem after (h : HistoryShape s lo) (e : StepEffect cfg s a t) :
    HistoryShape t lo ∨ (HistoryShape t (lo + 1) ∧ a = .pruner ∧
      ∃ m ls, s.pruner = .erasing (some lo) m ls ∧ (lo : Int) + 1 < m ∧ minListSize < ls ∧
        t.pruner = .erasing (some (lo + 1)) m (s.sh.gHistory.size - 1)) := by
  cases e with
  | frame pc lt => exact .inl h.frame
  | process pc eff => exact .inl (h.process eff)
  | keep pc get under => exact .inl (h.congr rfl rfl h.pruner (fun _ _ hpc => by cases hpc))
  | delete pc get past get' => exact .inl (h.congr rfl rfl h.pruner (fun _ _ hpc => by cases hpc))
  | seed pc => exact .inl (h.congr rfl rfl h.pruner (fun _ _ hpc => by cases hpc))
  | finish pc prune => exact .inl (h.congr rfl rfl h.pruner (fun _ _ hpc => by cases hpc))
  | wait pc =>
    refine .inl (h.congr rfl rfl ?_ fun _ _ hpc => hpc)
    have hlo : lo = 0 := by simpa [pc, PrunerPC.Fits] using h.pruner
    dsimp only
    split
    · exact hlo
    · next hlong => exact ⟨(not_le.mp hlong).le, le_refl _⟩
  | @getMin ls m itr pc min front =>
    refine .inl (h.congr rfl rfl ?_ fun _ _ hpc => hpc)
    obtain ⟨hmin, hls⟩ : minListSize ≤ s.sh.gHistory.size ∧ ls ≤ s.sh.gHistory.size := by
      simpa [pc, PrunerPC.Fits] using h.pruner
    have hsize := h.size_eq
    have hlt : lo < s.sh.gHistory.fresh := by
      unfold minListSize at hmin
      omega
    exact ⟨hmin, hls, front ▸ h.spans.front?_eq hlt⟩
  | @erase itr m ls entry pc get below long =>
    right
    obtain ⟨hmin, hls, hitr⟩ : minListSize ≤ s.sh.gHistory.size ∧ ls ≤ s.sh.gHistory.size ∧
        some itr = some lo := by simpa [pc, PrunerPC.Fits] using h.pruner
    obtain rfl := Option.some.inj hitr
    have hid := (h.of_get? get).2.2.1
    have hsize := h.size_eq
    -- `list_size` is not above the real size, so more than `MIN_LIST_SIZE` entries are there
    have hlt : itr + 1 < s.sh.gHistory.fresh := by
      unfold minListSize at long
      omega
    have hspans := h.spans.eraseEntry hlt
    have hsize' : (eraseEntry s.sh.gHistory itr).size = s.sh.gHistory.size - 1 := by
      rw [hspans.size_eq, eraseEntry_fresh]
      omega
    have hnext := h.spans.next?_eq (Nat.le_succ itr) hlt
    refine ⟨⟨hspans, h.counter, fun p hp => ?_, ?_, fun cur now hpc => h.cur cur now hpc⟩, rfl,
      m, ls, pc, by omega, long, ?_⟩
    · exact h.entries p (mem_eraseEntry_nodes hp)
    · rw [hsize', hnext]
      exact ⟨by omega, le_refl _, rfl⟩
    · rw [hsize', hnext]
  | endPass pc get stop =>
    refine .inl (h.congr rfl rfl ?_ fun _ _ hpc => hpc)
    have hp := h.pruner
    rw [pc] at hp
    exact hp.1
  | refresh pc =>
    refine .inl (h.congr rfl rfl ?_ fun _ _ hpc => hpc)
    have hp := h.pruner
    rw [pc] at hp
    exact ⟨hp, le_refl _⟩
  | jobStart job pc get prune => exact .inl (h.congr rfl rfl h.pruner fun _ _ hpc => hpc)
  | jobExport job active unstarted undone exports => exact .inl (h.congr rfl rfl h.pruner fun _ _ hpc => hpc)
  | jobErase job pc get => exact .inl (h.congr rfl rfl h.pruner fun _ _ hpc => hpc)

end

end HistoryShape

end PlanetariumFD
