import PlanetariumFD.Foundation.Turns
import PlanetariumFD.Service.Conversions

/-!
# The queue can be emptied

The converter takes one row a poll, any row, and marks it whatever came of it. Still no
order of polls and failures leaves it where it cannot go on: once polls bring a row,
processes start and end, and updates take effect where a process has been waited for, it
converts every row that waits, if each row is complete and its names fit the buffer. A row
whose conversion has failed before is left for a later poll by an update that fails.
-/

namespace PlanetariumFD

open Outcome Transition

/-- The row has no NULL cell, and `convert` has room for its file's names. -/
def Convertible (cfg : ConverterConfig) (visuals : NodeList Visual) (id : Nat) : Prop :=
  ∃ v row, visuals.get? id = some v ∧ fetchRow id v = .ok row ∧
    (convertParams cfg row.filepath).length < sParamsSize

/-- The converter's steps up to its next poll. -/
def ConverterPC.stepsLeft (processes : List Process) : ConverterPC → Nat
  | .polling => 5
  | .rows [] => 6
  | .rows (_ :: _) => 4
  | .waiting _ _ k => if processes[k]?.any Process.hasEnded then 2 else 3
  | .converted _ _ (.waited _ .object0) => 1
  -- the row is left for a later poll
  | .converted _ _ _ => 7

/-- A row that waits takes fewer than eight steps. -/
def queueWork (s : WebSystem) : Nat :=
  8 * (pendingRows s.visuals).card + s.pc.stepsLeft s.processes

/-- What the converter relies on from `s₀` on: every row that waits can be converted, and
those that waited in `s₀` still wait or have been converted. -/
structure Workable (cfg : ConverterConfig) (s₀ s : WebSystem) : Prop where
  shape : ConverterShape cfg s.converter
  convertible : ∀ id ∈ pendingRows s.visuals, Convertible cfg s.visuals id
  onItsWay : ∀ id ∈ pendingRows s₀.visuals, ∀ v mediaName, s₀.visuals.get? id = some v →
    v.filepath = some mediaName → OnItsWay cfg id mediaName s

section
variable {cfg : ConverterConfig} {visuals : NodeList Visual} {s₀ s t : WebSystem}
  {a : ConverterAction} {c : Converter}

/-- A row that still waits is as it was. -/
theorem ConverterEffect.get?_of_isPending {s c : Converter} (e : ConverterEffect cfg s a c)
    (hown : ∀ v, a ≠ .srcAdded v) {id : Nat} (h : isPending c.visuals id = true) :
    isPending s.visuals id = true ∧ c.visuals.get? id = s.visuals.get? id := by
  cases e with
  | @updated row rest attempt calls pc =>
    obtain ⟨hbefore, hunmarked⟩ := (isPending_updateVisual _ _ _ _).mp h
    refine ⟨hbefore, ?_⟩
    simp only [get?_updateVisual, if_neg hunmarked, Option.map_id']
  | srcAdded => exact absurd rfl (hown _)
  | _ => exact ⟨h, rfl⟩

theorem Workable.after (h : Workable cfg s₀ s) (hst : webStep cfg s (.converter a) = .ok t)
    (hdone : UpdatesConcluded s.converter a) : Workable cfg s₀ t := by
  have e := webStep_cases hst
  refine ⟨e.shape h.shape, ?_, fun id hid v mediaName hv hname =>
    e.onItsWay h.shape hdone (h.onItsWay id hid v mediaName hv hname)⟩
  cases e with
  | converter own effect =>
    intro id hid
    obtain ⟨hbefore, hsame⟩ := effect.get?_of_isPending own (mem_pendingRows.mp hid)
    obtain ⟨v, row, hv, hrest⟩ := h.convertible id (mem_pendingRows.mpr hbefore)
    exact ⟨v, row, hsame.trans hv, hrest⟩

/-- The row in hand waits and can be converted. -/
theorem Workable.row_fits (h : Workable cfg s₀ s) {row : FetchedRow} {rest : List FetchedRow}
    (hpc : s.pc = .rows (row :: rest)) :
    (convertParams cfg row.filepath).length < sParamsSize := by
  have hin : s.converter.pc.inHand = row :: rest := by
    rw [WebSystem.converter, hpc]
    rfl
  obtain ⟨-, hfetched⟩ := h.shape.inHand_eq hin
  have hrow := hfetched row (List.mem_singleton_self row)
  obtain ⟨v', row', hv', hok', hfits⟩ :=
    h.convertible row.id (mem_pendingRows.mpr hrow.isPending)
  obtain ⟨v, hv, -, hok⟩ := hrow
  obtain rfl := Option.some.inj (hv.symm.trans hv')
  obtain rfl := Except.ok.inj (hok.symm.trans hok')
  exact hfits

/-- All calls of `update` succeed, or the first one fails. -/
def updateCalls (isInit : Bool) : UpdateCalls := ⟨isInit, true, true, true, true⟩

/-- A step of the converter that goes well: the poll brings a row, the process starts, the
wait finds that it has ended. The update of a row takes effect exactly after such a wait. -/
def GoesWell (s : WebSystem) : WebAction → Prop
  | .converter (.query result) => ∃ id, result = .selected (some id)
  | .converter (.createProcess isOk) => isOk = true
  | .converter (.wait result) => result = .object0
  | .converter (.update calls) => calls.takesEffect = true ↔
      ∃ row rest k, s.pc = .converted row rest (.waited k .object0)
  | .converter .clear => True
  | .converter (.processEnds _) => True
  | _ => False

/-- There is a step that goes well and brings the converter nearer to the empty queue. -/
def GoesOn (cfg : ConverterConfig) (s₀ s : WebSystem) : Prop :=
  ∃ a t, GoesWell s (.converter a) ∧ webStep cfg s (.converter a) = .ok t ∧
    Workable cfg s₀ t ∧ queueWork t < queueWork s

/-- A step other than `update` keeps what the converter relies on. -/
theorem Workable.goesOn_of_step (h : Workable cfg s₀ s)
    (hst : webStep cfg s (.converter a) = .ok t) (hwell : GoesWell s (.converter a))
    (hno : ∀ calls, a ≠ .update calls) (hlt : queueWork t < queueWork s) : GoesOn cfg s₀ s :=
  ⟨a, t, hwell, hst, h.after hst fun calls heq => absurd heq (hno calls), hlt⟩

/-- The poll fetches a row that waits. -/
theorem Workable.goesOn_polling (h : Workable cfg s₀ s) (hpc : s.pc = .polling)
    (hwaiting : pendingRows s.visuals ≠ ∅) : GoesOn cfg s₀ s := by
  obtain ⟨id, hid⟩ := Finset.nonempty_iff_ne_empty.mpr hwaiting
  obtain ⟨v, row, hv, hrow, -⟩ := h.convertible id hid
  have hwaits : v.mediasubtype = some 1 := by
    obtain ⟨v', hv', hwaits⟩ := isPending_iff.mp (mem_pendingRows.mp hid)
    rwa [Option.some.inj (hv.symm.trans hv')]
  have hst : webStep cfg s (.converter (.query (.selected (some id)))) =
      .ok { s with pc := .rows [row] } := by
    simp only [webStep, converterStep, queryStep, WebSystem.converter, hpc, hv, if_pos hwaits,
      hrow, ok_bind]
    rfl
  refine h.goesOn_of_step hst ⟨id, rfl⟩ (by simp) ?_
  simp only [queueWork, hpc, ConverterPC.stepsLeft]
  omega

/-- The list of rows is done with, or ffmpeg starts on the row in hand. -/
theorem Workable.goesOn_rows (h : Workable cfg s₀ s) {rlist : List FetchedRow}
    (hpc : s.pc = .rows rlist) : GoesOn cfg s₀ s := by
  cases rlist with
  | nil =>
    have hst : webStep cfg s (.converter .clear) = .ok { s with pc := .polling } := by
      simp only [webStep, converterStep, WebSystem.converter, hpc]
      rfl
    refine h.goesOn_of_step hst trivial (by simp) ?_
    simp only [queueWork, hpc, ConverterPC.stepsLeft]
    omega
  | cons row rest =>
    have hfits : ¬sParamsSize < (convertParams cfg row.filepath).length + 1 := by
      have := h.row_fits hpc
      omega
    have hst : webStep cfg s (.converter (.createProcess true)) = .ok { s with
        processes := s.processes ++ [Process.ofRow cfg row.filepath]
        pc := .waiting row rest s.processes.length } := by
      simp only [webStep, converterStep, WebSystem.converter, hpc, if_neg hfits, if_true]
      rfl
    refine h.goesOn_of_step hst rfl (by simp) ?_
    simp only [queueWork, hpc, ConverterPC.stepsLeft]
    split <;> omega

/-- The process ends, or the wait for it does. -/
theorem Workable.goesOn_waiting (h : Workable cfg s₀ s) {row : FetchedRow}
    {rest : List FetchedRow} {k : Nat} (hpc : s.pc = .waiting row rest k) : GoesOn cfg s₀ s := by
  obtain ⟨p, hown, -⟩ := h.shape.own k (by rw [WebSystem.converter, hpc]; rfl) row
    (by rw [WebSystem.converter, hpc]; exact List.mem_cons_self)
  have hp : s.processes[k]? = some p := hown
  cases hended : p.hasEnded with
  | true =>
    have hst : webStep cfg s (.converter (.wait .object0)) =
        .ok { s with pc := .converted row rest (.waited k .object0) } := by
      simp [webStep, converterStep, waitStep, WebSystem.converter, WebSystem.withConverter, hpc, hp,
        hended]
    refine h.goesOn_of_step hst rfl (by simp) ?_
    simp only [queueWork, hpc, ConverterPC.stepsLeft, hp, Option.any_some, hended, if_true]
    omega
  | false =>
    have hst : webStep cfg s (.converter (.processEnds k)) = .ok { s with
        processes := s.processes.set k { p with hasEnded := true } } := by
      simp only [webStep, converterStep, WebSystem.converter, hp]
      rfl
    refine h.goesOn_of_step hst trivial (by simp) ?_
    simp only [queueWork, hpc, ConverterPC.stepsLeft, hp, Option.any_some, hended,
      List.getElem?_set_self (List.getElem?_eq_some_iff.mp hp).1]
    simp

theorem webStep_update {row : FetchedRow} {rest : List FetchedRow} {attempt : Attempt}
    (hpc : s.pc = .converted row rest attempt) (calls : UpdateCalls) :
    webStep cfg s (.converter (.update calls)) =
      .ok { s with visuals := updateVisual s.visuals row.id calls, pc := .rows rest } := by
  simp only [webStep, converterStep, WebSystem.converter, hpc, convertResult, if_true]
  rfl

/-- A row whose ffmpeg has run is marked. -/
theorem Workable.goesOn_marks (h : Workable cfg s₀ s) {row : FetchedRow} {rest : List FetchedRow}
    {k : Nat} (hpc : s.pc = .converted row rest (.waited k .object0)) : GoesOn cfg s₀ s := by
  have hin : s.converter.pc.inHand = row :: rest := by
    rw [WebSystem.converter, hpc]
    rfl
  obtain ⟨rfl, hfetched⟩ := h.shape.inHand_eq hin
  have hdone : UpdatesConcluded s.converter (.update (updateCalls true)) := by
    rintro calls - - row' rest' attempt' hpc'
    cases hpc.symm.trans hpc'
    trivial
  have hwell : GoesWell s (.converter (.update (updateCalls true))) :=
    ⟨fun _ => ⟨row, [], k, hpc⟩, fun _ => rfl⟩
  refine ⟨_, _, hwell, webStep_update hpc _, h.after (webStep_update hpc _) hdone, ?_⟩
  have hmem : row.id ∈ pendingRows s.visuals :=
    mem_pendingRows.mpr (hfetched row (List.mem_singleton_self row)).isPending
  have hcard := Finset.card_erase_add_one hmem
  simp only [queueWork, hpc, ConverterPC.stepsLeft,
    pendingRows_updateVisual row.id (c := updateCalls true) rfl]
  omega

/-- Any other row is left for a later poll. -/
theorem Workable.goesOn_leaves (h : Workable cfg s₀ s) {row : FetchedRow}
    {rest : List FetchedRow} {attempt : Attempt} (hpc : s.pc = .converted row rest attempt)
    (hnot : ∀ k, attempt ≠ .waited k .object0) : GoesOn cfg s₀ s := by
  have hdone : UpdatesConcluded s.converter (.update (updateCalls false)) := by
    rintro calls hcalls heffect
    cases hcalls
    cases heffect
  have hwell : GoesWell s (.converter (.update (updateCalls false))) := by
    refine ⟨fun heffect => (by cases heffect), ?_⟩
    rintro ⟨row', rest', k, hpc'⟩
    cases hpc.symm.trans hpc'
    exact absurd rfl (hnot k)
  refine ⟨_, _, hwell, webStep_update hpc _, h.after (webStep_update hpc _) hdone, ?_⟩
  have hsame : updateVisual s.visuals row.id (updateCalls false) = s.visuals := rfl
  have hseven : (ConverterPC.converted row rest attempt).stepsLeft s.processes = 7 := by
    cases attempt with
    | notStarted => rfl
    | waited k result =>
      cases result with
      | object0 => exact absurd rfl (hnot k)
      | timeout => rfl
      | failed => rfl
  have hin : s.converter.pc.inHand = row :: rest := by
    rw [WebSystem.converter, hpc]
    rfl
  obtain ⟨rfl, -⟩ := h.shape.inHand_eq hin
  have hsix : (ConverterPC.rows []).stepsLeft s.processes = 6 := rfl
  simp only [queueWork, hpc, hseven, hsame, hsix]
  omega

theorem Workable.goesOn_converted (h : Workable cfg s₀ s) {row : FetchedRow}
    {rest : List FetchedRow} {attempt : Attempt} (hpc : s.pc = .converted row rest attempt) :
    GoesOn cfg s₀ s := by
  by_cases hconcluded : ∃ k, attempt = .waited k .object0
  · obtain ⟨k, rfl⟩ := hconcluded
    exact h.goesOn_marks hpc
  · exact h.goesOn_leaves hpc (not_exists.mp hconcluded)

/-- Up to the empty queue the converter can always go on. -/
theorem Workable.goesOn (h : Workable cfg s₀ s)
    (hbusy : ¬(s.pc = .polling ∧ pendingRows s.visuals = ∅)) : GoesOn cfg s₀ s := by
  cases hpc : s.pc with
  | polling => exact h.goesOn_polling hpc fun hnone => hbusy ⟨hpc, hnone⟩
  | rows rlist => exact h.goesOn_rows hpc
  | waiting row rest k => exact h.goesOn_waiting hpc
  | converted row rest attempt => exact h.goesOn_converted hpc

end

end PlanetariumFD
