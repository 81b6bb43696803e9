import PlanetariumFD.Detector.Smoothing
import PlanetariumFD.Detector.Threads

/-!
# Save jobs

`saveAndDeleteThread` and the two export functions, cut at their critical
sections. A job reads its thread through a pointer into
`gThreads_beingSerialized`, walks the history beside the thread's faces, and
erases its own entry at the end. Whether an image is saved, a video writer opened
or a frame written is an input.
-/

namespace PlanetariumFD

open Outcome

/-! ## The exports -/

section
variable {F : Type} [FloatOps F]

/-- The faces an export walks; `none` when it returns before touching the history. -/
def exportFaces (cfg : Config F) (e : Export) (th : FDFaceThread) :
    Except Fault (Option (List Face)) :=
  match e with
  | .images => .ok (if th.pFaces = [] then none else some th.pFaces)
  | .video isSmoothVideo =>
    if (th.pFaces.length : Int) < cfg.minFramesForVideo then .ok none
    else if th.pFaces = [] then .ok none
    else if isSmoothVideo then (smoothedFaces (F := F) th.pFaces).map some
    else .ok (some th.pFaces)

/-- `while(history_itr->frame_id < faces_itr->frame_id) ++history_itr`. -/
def seekHistory (frameId : Int) : List (Nat × FDHistoryEntry) → Except Fault (Nat × FDHistoryEntry)
  | [] => .error .danglingPointer
  | p :: ps => if p.2.frameId < frameId then seekHistory frameId ps else .ok p

/-- The start of an export up to its loop over the faces. -/
def startExport (cfg : Config F) (g : Shared F) (th : FDFaceThread) (isOk : Bool) (e : Export)
    (todo : List Export) : Except Fault JobPC := do
  match ← exportFaces cfg e th with
  | none => .ok (.saving todo)
  -- `faces_itr->frame_id` at the end of the list
  | some [] => .error .danglingPointer
  | some (f :: fs) =>
    if g.gHistory.size = 0 then .error .assertHistoryNonempty
    else do
      let p ← seekHistory f.frameId g.gHistory.nodes
      if p.2.frameId ≠ f.frameId then .error .assertFrameId
      else match e with
        | .images => .ok (.walking e todo (some p.1) (f :: fs) 0)
        | .video _ =>
          match p.2.pFrame with
          | none => .error .nullImage
          | some _ =>
            if isOk then .ok (.walking e todo (some p.1) (f :: fs) 0) else .ok (.saving todo)

/-- One turn of an export's loop. -/
def walkHistory (cfg : Config F) (g : Shared F) (isOk : Bool) (e : Export) (todo : List Export)
    (historyItr : Option Nat) (faces : List Face) (saved : Int) : Except Fault JobPC :=
  match faces with
  | [] => .ok (.saving todo)
  | f :: fs =>
    match historyItr with
    | none => .error .assertHistoryItr
    | some a =>
      match g.gHistory.get? a with
      | none => .error .danglingPointer
      | some entry =>
        let next := g.gHistory.next? a
        -- the face is missing in this frame
        if entry.frameId < f.frameId then .ok (.walking e todo next (f :: fs) saved)
        else if entry.frameId ≠ f.frameId then .error .assertFrameId
        else match entry.pFrame, e with
          | none, _ => .error .nullImage
          | some _, .images =>
            if isOk then
              if saved + 1 = cfg.maxJpgImagesSavedPerThread then .ok (.saving todo)
              else .ok (.walking e todo next fs (saved + 1))
            else .ok (.walking e todo next fs saved)
          -- unlike a failed image, a failed frame ends the export
          | some _, .video _ =>
            if isOk then .ok (.walking e todo next fs saved) else .ok (.saving todo)

end

/-! ## The job -/

section
variable {F : Type} [FloatOps F]

def setJobPC (g : Shared F) (k : Nat) (j : Job) (pc : JobPC) : Shared F :=
  { g with jobs := g.jobs.set k { j with pc := pc } }

/-- The first critical section, and the test that follows it. -/
def startSave (cfg : Config F) (g : Shared F) (k : Nat) (j : Job) : Except Fault (Shared F) :=
  match g.gThreadsBeingSerialized.get? j.pTh with
  | none => .error .danglingPointer
  | some th => do
    let th' ← th.pruneFacesList cfg
    let g := { g with
      gThreadsBeingSerialized := g.gThreadsBeingSerialized.modify j.pTh fun _ => th' }
    let todo := if passesSave cfg th' then [.images, .video false, .video true] else []
    .ok (setJobPC g k j (.saving todo))

/-- Find the entry at the address `pTh` and erase it. -/
def deleteThreadFromGThreadsBeingSerialized (g : Shared F) (pTh : Nat) : Except Fault (Shared F) :=
  match g.gThreadsBeingSerialized.get? pTh with
  | none => .error .assertThreadFound
  | some _ => .ok { g with gThreadsBeingSerialized := g.gThreadsBeingSerialized.erase pTh }

/-- The steps of a job between its first and its last critical section. -/
def exportStep (cfg : Config F) (g : Shared F) (pTh : Nat) (isOk : Bool) : JobPC → Except Fault JobPC
  | .saving (e :: todo) =>
    match g.gThreadsBeingSerialized.get? pTh with
    | none => .error .danglingPointer
    | some th => startExport cfg g th isOk e todo
  | .walking e todo historyItr faces saved =>
    walkHistory cfg g isOk e todo historyItr faces saved
  | pc => .ok pc

/-- One step of `saveAndDeleteThread` in job `k`; a finished job stays as it is. -/
def saveAndDeleteThread (cfg : Config F) (g : Shared F) (k : Nat) (j : Job) (isOk : Bool) :
    Except Fault (Shared F) :=
  match j.pc with
  | .started => startSave cfg g k j
  | .saving [] => do
    let g ← deleteThreadFromGThreadsBeingSerialized g j.pTh
    .ok (setJobPC g k j .finished)
  | .finished => .ok g
  | pc => do
    let pc' ← exportStep cfg g j.pTh isOk pc
    .ok (setJobPC g k j pc')

end

/-! ## What the exports do -/

section
variable {F : Type} [FloatOps F] {cfg : Config F} {g : Shared F} {th : FDFaceThread} {isOk : Bool}
  {e : Export} {todo : List Export} {pc pc' : JobPC}

theorem seekHistory_ok {frameId : Int} {p : Nat × FDHistoryEntry} :
    ∀ {ps : List (Nat × FDHistoryEntry)}, seekHistory frameId ps = .ok p →
      p ∈ ps ∧ frameId ≤ p.2.frameId := by
  intro ps
  induction ps with
  | nil => exact fun h => by cases h
  | cons q ps ih =>
    intro h
    rw [seekHistory] at h
    split at h
    · exact ⟨List.mem_cons_of_mem _ (ih h).1, (ih h).2⟩
    · next hle =>
      cases h
      exact ⟨List.mem_cons_self, not_lt.mp hle⟩

/-- An export is over at once, or it walks from the entry of its first face. -/
theorem startExport_ok (h : startExport cfg g th isOk e todo = .ok pc) :
    pc = .saving todo ∨ ∃ f fs p, exportFaces cfg e th = .ok (some (f :: fs)) ∧
      p ∈ g.gHistory.nodes ∧ p.2.frameId = f.frameId ∧
      pc = .walking e todo (some p.1) (f :: fs) 0 := by
  obtain ⟨faces, hfaces, h⟩ := bind_eq_ok.mp h
  match faces with
  | none =>
    cases h
    exact .inl rfl
  | some [] => cases h
  | some (f :: fs) =>
    dsimp only at h
    split at h
    · cases h
    · obtain ⟨p, hp, h⟩ := bind_eq_ok.mp h
      split at h
      · cases h
      · next heq =>
        have hmem := (seekHistory_ok hp).1
        split at h
        · cases h
          exact .inr ⟨f, fs, p, hfaces, hmem, not_not.mp heq, rfl⟩
        · split at h
          · cases h
          · split at h
            · cases h
              exact .inr ⟨f, fs, p, hfaces, hmem, not_not.mp heq, rfl⟩
            · cases h
              exact .inl rfl

omit [FloatOps F] in
/-- A turn of an export's loop ends it, passes an entry that has no face, or takes
the next face with its entry. -/
theorem walkHistory_ok {historyItr : Option Nat} {faces : List Face} {saved : Int}
    (h : walkHistory cfg g isOk e todo historyItr faces saved = .ok pc) :
    pc = .saving todo ∨ ∃ f fs a entry saved', faces = f :: fs ∧ historyItr = some a ∧
      g.gHistory.get? a = some entry ∧
      ((entry.frameId < f.frameId ∧
          pc = .walking e todo (g.gHistory.next? a) (f :: fs) saved') ∨
        (entry.frameId = f.frameId ∧ pc = .walking e todo (g.gHistory.next? a) fs saved')) := by
  unfold walkHistory at h
  split at h
  · cases h
    exact .inl rfl
  · next f fs =>
    split at h
    · cases h
    · next a =>
      split at h
      · cases h
      · next entry hget =>
        dsimp only at h
        split at h
        · next hlt =>
          cases h
          exact .inr ⟨f, fs, a, entry, saved, rfl, rfl, hget, .inl ⟨hlt, rfl⟩⟩
        · split at h
          · cases h
          · next heq =>
            split at h
            · cases h
            · split at h
              · split at h
                · cases h
                  exact .inl rfl
                · cases h
                  exact .inr ⟨f, fs, a, entry, _, rfl, rfl, hget, .inr ⟨not_not.mp heq, rfl⟩⟩
              · cases h
                exact .inr ⟨f, fs, a, entry, _, rfl, rfl, hget, .inr ⟨not_not.mp heq, rfl⟩⟩
            · split at h
              · cases h
                exact .inr ⟨f, fs, a, entry, _, rfl, rfl, hget, .inr ⟨not_not.mp heq, rfl⟩⟩
              · cases h
                exact .inl rfl

theorem exportStep_ne_finished {pTh : Nat} (h : exportStep cfg g pTh isOk pc = .ok pc')
    (hpc : pc ≠ .finished) : pc' ≠ .finished := by
  unfold exportStep at h
  split at h
  · split at h
    · cases h
    · obtain rfl | ⟨f, fs, p, -, -, -, rfl⟩ := startExport_ok h <;> simp
  · obtain rfl | ⟨f, fs, a, entry, saved', -, -, -, ⟨-, rfl⟩ | ⟨-, rfl⟩⟩ := walkHistory_ok h <;> simp
  · cases h
    exact hpc

end

end PlanetariumFD
