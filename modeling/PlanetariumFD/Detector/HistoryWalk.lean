import PlanetariumFD.Detector.Face

/-!
# A history beside a face list

The exports go through the history and a face list together: a scan to the entry of
the first face, then turns that skip the entries of frames without a face. Here the
history stands still, and an iterator into it is what is left of it.
-/

namespace PlanetariumFD

/-- `while(history_itr->frame_id < faces_itr->frame_id) ++history_itr`, which has no
test for the end. -/
def seekEntry (frameId : Int) : List FDHistoryEntry → Except Fault (List FDHistoryEntry)
  | [] => .error .danglingPointer
  | entry :: entries =>
    if entry.frameId < frameId then seekEntry frameId entries else .ok (entry :: entries)

/-- A history with consecutive frame numbers, each with its image, that has the frames
from the first face to the last. -/
structure Covers (history : List FDHistoryEntry) (faces : List Face) : Prop where
  consecutive : history.IsChain fun e e' => e'.frameId = e.frameId + 1
  images : ∀ e ∈ history, e.pFrame ≠ none
  span : ∀ f l, faces.head? = some f → faces.getLast? = some l → ∀ t, f.frameId ≤ t →
    t ≤ l.frameId → t ∈ history.map FDHistoryEntry.frameId

/-- Every face is met by an entry of its own frame, and entries before it are skipped. -/
inductive InStep : List FDHistoryEntry → List Face → Prop
  | done (entries) : InStep entries []
  | skip {entry entries f faces} (lt : entry.frameId < f.frameId)
    (rest : InStep entries (f :: faces)) : InStep (entry :: entries) (f :: faces)
  | take {entry entries f faces} (eq : entry.frameId = f.frameId) (image : entry.pFrame ≠ none)
    (rest : InStep entries faces) : InStep (entry :: entries) (f :: faces)

section
variable {history : List FDHistoryEntry} {faces : List Face}

theorem Covers.sorted (h : Covers history faces) :
    history.Pairwise fun e e' => e.frameId < e'.frameId := by
  have hchain : history.IsChain fun e e' => e.frameId < e'.frameId :=
    h.consecutive.imp fun e e' heq => by omega
  exact List.isChain_iff_pairwise.mp hchain

/-- A face within the span has its entry. -/
theorem Covers.mem_of_within (h : Covers history faces) (hne : faces ≠ []) {g : Face}
    (hfirst : (faces.head hne).frameId ≤ g.frameId)
    (hlast : g.frameId ≤ (faces.getLast hne).frameId) :
    g.frameId ∈ history.map FDHistoryEntry.frameId :=
  h.span _ _ (List.head?_eq_some_head hne) (List.getLast?_eq_some_getLast hne) _ hfirst hlast

theorem within_of_mem (increasing : faces.Pairwise fun f f' => f.frameId < f'.frameId)
    (hne : faces ≠ []) {g : Face} (hg : g ∈ faces) :
    (faces.head hne).frameId ≤ g.frameId ∧ g.frameId ≤ (faces.getLast hne).frameId := by
  have hordered : faces.Pairwise fun f f' => f.frameId ≤ f'.frameId :=
    increasing.imp fun hlt => hlt.le
  exact ⟨hordered.rel_head_of_rel_head_head hg (le_refl _),
    hordered.rel_getLast_of_rel_getLast_getLast hg (le_refl _)⟩

theorem mem_tail_of_lt {entry : FDHistoryEntry} {t : Int}
    (h : t ∈ (entry :: history).map FDHistoryEntry.frameId) (hlt : entry.frameId < t) :
    t ∈ history.map FDHistoryEntry.frameId := by
  rw [List.map_cons, List.mem_cons] at h
  exact h.resolve_left hlt.ne'

theorem inStep_of_mem (sorted : history.Pairwise fun e e' => e.frameId < e'.frameId)
    (images : ∀ e ∈ history, e.pFrame ≠ none)
    (increasing : faces.Pairwise fun f f' => f.frameId < f'.frameId)
    (mem : ∀ f ∈ faces, f.frameId ∈ history.map FDHistoryEntry.frameId) :
    InStep history faces := by
  induction history generalizing faces with
  | nil =>
    cases faces with
    | nil => exact .done []
    | cons f fs => exact absurd (mem f List.mem_cons_self) List.not_mem_nil
  | cons entry entries ih =>
    have images' : ∀ e ∈ entries, e.pFrame ≠ none :=
      fun e he => images e (List.mem_cons_of_mem _ he)
    cases faces with
    | nil => exact .done _
    | cons f fs =>
      have later : ∀ g ∈ fs, f.frameId < g.frameId :=
        fun g hg => List.rel_of_pairwise_cons increasing hg
      have hf := mem f List.mem_cons_self
      rw [List.map_cons, List.mem_cons] at hf
      obtain heq | htail := hf
      · -- the face's own entry; the later faces are in the rest of the history
        refine .take heq.symm (images entry List.mem_cons_self)
          (ih sorted.of_cons images' increasing.of_cons fun g hg => ?_)
        exact mem_tail_of_lt (mem g (List.mem_cons_of_mem _ hg)) (heq ▸ later g hg)
      · obtain ⟨e, he, heq⟩ := List.mem_map.mp htail
        have hlt : entry.frameId < f.frameId := heq ▸ List.rel_of_pairwise_cons sorted he
        refine .skip hlt (ih sorted.of_cons images' increasing fun g hg => ?_)
        refine mem_tail_of_lt (mem g hg) ?_
        obtain rfl | hg := List.mem_cons.mp hg
        · exact hlt
        · exact hlt.trans (later g hg)

/-- The scan ends at the entry of the first face, and from there the two lists are in step. -/
theorem seekEntry_ok {f : Face} {fs : List Face}
    (sorted : history.Pairwise fun e e' => e.frameId < e'.frameId)
    (images : ∀ e ∈ history, e.pFrame ≠ none)
    (increasing : (f :: fs).Pairwise fun f f' => f.frameId < f'.frameId)
    (mem : ∀ g ∈ f :: fs, g.frameId ∈ history.map FDHistoryEntry.frameId) :
    ∃ entry entries, seekEntry f.frameId history = .ok (entry :: entries) ∧
      entry.frameId = f.frameId ∧ entry :: entries ⊆ history ∧
      InStep (entry :: entries) (f :: fs) := by
  induction history with
  | nil => exact absurd (mem f List.mem_cons_self) List.not_mem_nil
  | cons e es ih =>
    rw [seekEntry]
    by_cases hlt : e.frameId < f.frameId
    · rw [if_pos hlt]
      have hrest : ∀ g ∈ f :: fs, g.frameId ∈ es.map FDHistoryEntry.frameId := by
        intro g hg
        refine mem_tail_of_lt (mem g hg) ?_
        obtain rfl | hg := List.mem_cons.mp hg
        · exact hlt
        · exact hlt.trans (List.rel_of_pairwise_cons increasing hg)
      obtain ⟨entry, entries, hseek, heq, hsub, hstep⟩ :=
        ih sorted.of_cons (fun e he => images e (List.mem_cons_of_mem _ he)) hrest
      exact ⟨entry, entries, hseek, heq, List.Subset.trans hsub (List.subset_cons_self _ _), hstep⟩
    · rw [if_neg hlt]
      refine ⟨e, es, rfl, ?_, List.Subset.refl _, inStep_of_mem sorted images increasing mem⟩
      have hf := mem f List.mem_cons_self
      rw [List.map_cons, List.mem_cons] at hf
      obtain heq | htail := hf
      · exact heq.symm
      · obtain ⟨e', he', heq⟩ := List.mem_map.mp htail
        exact absurd (heq ▸ List.rel_of_pairwise_cons sorted he') hlt

end

/-- Five frames with their images. -/
def fiveFrames : List FDHistoryEntry :=
  (List.range 5).map fun k => ⟨k + 1, some ⟨320, 240, 8, 3, 0⟩, []⟩

/-- Faces in frames 2 and 4. -/
def twoFaces : List Face := [⟨⟨0, 0, 10, 10⟩, 2⟩, ⟨⟨8, 0, 10, 10⟩, 4⟩]

theorem covers_fiveFrames : Covers fiveFrames twoFaces where
  consecutive := by decide
  images := by decide
  span f l hf hl t hft htl := by
    cases hf
    cases hl
    replace hft : 2 ≤ t := hft
    replace htl : t ≤ 4 := htl
    obtain rfl | rfl | rfl : t = 2 ∨ t = 3 ∨ t = 4 := by omega
    all_goals decide

end PlanetariumFD
