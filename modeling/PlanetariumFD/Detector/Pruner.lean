import PlanetariumFD.Detector.Threads

/-!
# The history pruner

`getMinFrameToKeep` and `pruneHistory`, cut at their critical sections: a read of
the list size in the waiting loop, a call of `getMinFrameToKeep` with the
`begin()` that follows it, one turn of the erase loop, and the refresh of the
local `list_size` after sleeping.
-/

namespace PlanetariumFD

open Outcome

def minListSize : Nat := 20

/-- The two loops of `getMinFrameToKeep`. -/
def minFront : List FDFaceThread → Int → Except Fault Int
  | [], minFrameId => .ok minFrameId
  | th :: ths, minFrameId =>
    match th.pFaces.head? with
    | none => .error .assertFacesNonempty
    | some f => minFront ths (if f.frameId < minFrameId then f.frameId else minFrameId)

def getMinFrameToKeep {F : Type} (g : Shared F) : Except Fault Int :=
  if g.gThreads.size = 0 ∧ g.gThreadsBeingSerialized.size = 0 then .ok (-1)
  else do
    let m ← minFront g.gThreads.vals intMax
    let m ← minFront g.gThreadsBeingSerialized.vals m
    if m = intMax then .error .assertMinFound else .ok m

/-- Where `pruneHistory` stands, with its locals. -/
inductive PrunerPC
  | waiting
  | top (listSize : Nat)
  | erasing (itr : Option Nat) (minFrameToKeep : Int) (listSize : Nat)
  | sleeping
  deriving DecidableEq, Repr

/-- Release the image of an entry and erase it. -/
def eraseEntry (history : NodeList FDHistoryEntry) (itr : Nat) : NodeList FDHistoryEntry :=
  (history.modify itr fun e => { e with pFrame := none }).erase itr

/-- One step of `pruneHistory`. -/
def pruneHistory {F : Type} (g : Shared F) : PrunerPC → Except Fault (Shared F × PrunerPC)
  | .waiting =>
    .ok (g, if g.gHistory.size ≤ minListSize then .waiting else .top g.gHistory.size)
  | .top listSize => do
    let m ← getMinFrameToKeep g
    match g.gHistory.front? with
    | none => .error .assertHistoryNonempty
    | some itr => .ok (g, .erasing (some itr) (if m = -1 then intMax else m) listSize)
  -- `itr->frame_id` with `itr` at the end
  | .erasing none _ _ => .error .danglingPointer
  | .erasing (some itr) m listSize =>
    match g.gHistory.get? itr with
    | none => .error .danglingPointer
    | some entry =>
      if entry.frameId < m ∧ minListSize < listSize then
        let history := eraseEntry g.gHistory itr
        .ok ({ g with gHistory := history }, .erasing (g.gHistory.next? itr) m history.size)
      else .ok (g, .sleeping)
  -- the list may have grown meanwhile
  | .sleeping => .ok (g, .top g.gHistory.size)

/-! ## `getMinFrameToKeep` -/

/-- The loop's result is the least of its start and the first faces. -/
theorem minFront_ok {ths : List FDFaceThread} :
    ∀ {m r : Int}, minFront ths m = .ok r →
      r ≤ m ∧ (∀ th ∈ ths, ∃ f, th.pFaces.head? = some f ∧ r ≤ f.frameId) ∧
        (r = m ∨ ∃ th ∈ ths, ∃ f, th.pFaces.head? = some f ∧ r = f.frameId) := by
  induction ths with
  | nil =>
    intro m r h
    cases h
    exact ⟨le_refl _, by simp, .inl rfl⟩
  | cons th ths ih =>
    intro m r h
    simp only [minFront] at h
    split at h
    · cases h
    · next f hf =>
      obtain ⟨hle, hall, hex⟩ := ih h
      refine ⟨by split at hle <;> omega, fun t ht => ?_, ?_⟩
      · obtain rfl | ht := List.mem_cons.mp ht
        · exact ⟨f, hf, by split at hle <;> omega⟩
        · exact hall t ht
      · obtain he | ⟨t, ht, f', hf', he⟩ := hex
        · split at he
          · exact .inr ⟨th, List.mem_cons_self, f, hf, he⟩
          · exact .inl he
        · exact .inr ⟨t, List.mem_cons_of_mem _ ht, f', hf', he⟩

theorem minFront_total {ths : List FDFaceThread} (hne : ∀ th ∈ ths, th.pFaces ≠ []) :
    ∀ m, ∃ r, minFront ths m = .ok r := by
  induction ths with
  | nil => exact fun m => ⟨m, rfl⟩
  | cons th ths ih =>
    intro m
    have hth := hne th List.mem_cons_self
    simp only [minFront, List.head?_eq_some_head hth]
    exact ih (fun t ht => hne t (List.mem_cons_of_mem _ ht)) _

section
variable {F : Type} {g : Shared F}

/-- All threads that `getMinFrameToKeep` looks at. -/
def allThreads (g : Shared F) : List FDFaceThread :=
  g.gThreads.vals ++ g.gThreadsBeingSerialized.vals

theorem allThreads_eq_nil_iff :
    allThreads g = [] ↔ g.gThreads.size = 0 ∧ g.gThreadsBeingSerialized.size = 0 := by
  simp [allThreads, NodeList.vals, NodeList.size]

/-- A result is `-1` on empty lists and else the least first face. -/
theorem getMinFrameToKeep_ok {m : Int} (h : getMinFrameToKeep g = .ok m) :
    (allThreads g = [] ∧ m = -1) ∨ (m ≠ intMax ∧
      (∀ th ∈ allThreads g, ∃ f, th.pFaces.head? = some f ∧ m ≤ f.frameId) ∧
      ∃ th ∈ allThreads g, ∃ f, th.pFaces.head? = some f ∧ m = f.frameId) := by
  unfold getMinFrameToKeep at h
  split at h
  · next hempty =>
    cases h
    exact .inl ⟨allThreads_eq_nil_iff.mpr hempty, rfl⟩
  · obtain ⟨m₁, h₁, h⟩ := bind_eq_ok.mp h
    obtain ⟨m₂, h₂, h⟩ := bind_eq_ok.mp h
    split at h
    · cases h
    · next hne =>
      cases h
      obtain ⟨-, hall₁, hex₁⟩ := minFront_ok h₁
      obtain ⟨hle, hall₂, hex₂⟩ := minFront_ok h₂
      refine .inr ⟨hne, fun th hth => ?_, ?_⟩
      · obtain hth | hth := List.mem_append.mp hth
        · obtain ⟨f, hf, hm⟩ := hall₁ th hth
          exact ⟨f, hf, by omega⟩
        · exact hall₂ th hth
      · obtain rfl | ⟨th, hth, f, hf, he⟩ := hex₂
        · obtain rfl | ⟨th, hth, f, hf, he⟩ := hex₁
          · exact absurd rfl hne
          · exact ⟨th, List.mem_append_left _ hth, f, hf, he⟩
        · exact ⟨th, List.mem_append_right _ hth, f, hf, he⟩

/-- No assertion of `getMinFrameToKeep` fails while no list is empty and no face
has the number `INT_MAX`. -/
theorem getMinFrameToKeep_total (hne : ∀ th ∈ allThreads g, th.pFaces ≠ [])
    (hlt : ∀ th ∈ allThreads g, ∀ f ∈ th.pFaces, f.frameId < intMax) :
    ∃ m, getMinFrameToKeep g = .ok m := by
  unfold getMinFrameToKeep
  split
  · exact ⟨_, rfl⟩
  · next hsome =>
    obtain ⟨m₁, h₁⟩ := minFront_total (fun th hth => hne th (List.mem_append_left _ hth)) intMax
    obtain ⟨m₂, h₂⟩ := minFront_total
      (fun th hth => hne th (List.mem_append_right g.gThreads.vals hth)) m₁
    obtain ⟨-, hall₁, -⟩ := minFront_ok h₁
    obtain ⟨hle, hall₂, -⟩ := minFront_ok h₂
    -- some thread exists, and its first face bounds the minimum
    have hm : m₂ < intMax := by
      obtain ⟨th, hth⟩ := List.exists_mem_of_ne_nil _ (mt allThreads_eq_nil_iff.mp hsome)
      have hfirst : ∃ f, th.pFaces.head? = some f ∧ m₂ ≤ f.frameId := by
        obtain hth | hth := List.mem_append.mp hth
        · obtain ⟨f, hf, hm⟩ := hall₁ th hth
          exact ⟨f, hf, by omega⟩
        · exact hall₂ th hth
      obtain ⟨f, hf, hm⟩ := hfirst
      have := hlt th hth f (List.mem_of_head? hf)
      omega
    exact ⟨m₂, by rw [h₁, ok_bind, h₂, ok_bind, if_neg (by omega)]⟩

/-- When it fails on nonempty face lists, no first face is below `INT_MAX`. -/
theorem getMinFrameToKeep_error {e : Fault} (h : getMinFrameToKeep g = .error e)
    (hne : ∀ th ∈ allThreads g, th.pFaces ≠ []) {th : FDFaceThread} (hth : th ∈ allThreads g)
    {f : Face} (hf : th.pFaces.head? = some f) : intMax ≤ f.frameId := by
  obtain ⟨m₁, h₁⟩ := minFront_total (fun th hth => hne th (List.mem_append_left _ hth)) intMax
  obtain ⟨m₂, h₂⟩ := minFront_total
    (fun th hth => hne th (List.mem_append_right g.gThreads.vals hth)) m₁
  have hmax : m₂ = intMax := by
    by_contra hlt
    unfold getMinFrameToKeep at h
    rw [h₁, ok_bind, h₂, ok_bind, if_neg hlt] at h
    split at h <;> cases h
  obtain ⟨-, hall₁, -⟩ := minFront_ok h₁
  obtain ⟨hle, hall₂, -⟩ := minFront_ok h₂
  obtain hth | hth := List.mem_append.mp hth
  · obtain ⟨f', hf', hm⟩ := hall₁ th hth
    obtain rfl : f = f' := Option.some.inj (hf.symm.trans hf')
    omega
  · obtain ⟨f', hf', hm⟩ := hall₂ th hth
    obtain rfl : f = f' := Option.some.inj (hf.symm.trans hf')
    omega

/-- A number below `INT_MAX` and below the result, if there is one, is below every
first face. -/
theorem lt_of_getMinFrameToKeep (hne : ∀ th ∈ allThreads g, th.pFaces ≠ [])
    (hpos : ∀ th ∈ allThreads g, ∀ f ∈ th.pFaces, 0 ≤ f.frameId) {id : Int} (hmax : id < intMax)
    (hmin : ∀ m, getMinFrameToKeep g = .ok m → m = -1 ∨ id < m) {th : FDFaceThread}
    (hth : th ∈ allThreads g) {f : Face} (hf : th.pFaces.head? = some f) : id < f.frameId := by
  cases hget : getMinFrameToKeep g with
  | error e => exact hmax.trans_le (getMinFrameToKeep_error hget hne hth hf)
  | ok m =>
    obtain ⟨hnil, -⟩ | ⟨-, hall, th', hth', f', hf', rfl⟩ := getMinFrameToKeep_ok hget
    · rw [hnil] at hth
      cases hth
    · obtain ⟨f'', hf'', hle⟩ := hall th hth
      obtain rfl : f = f'' := Option.some.inj (hf.symm.trans hf'')
      have hnonneg := hpos th' hth' f' (List.mem_of_head? hf')
      have := hmin _ hget
      omega

end

end PlanetariumFD
