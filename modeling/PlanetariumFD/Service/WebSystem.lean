import PlanetariumFD.Foundation.Ledger
import PlanetariumFD.Service.CommandLine
import PlanetariumFD.Service.Requests
import PlanetariumFD.Service.VideoPath

/-!
# The programs on the visuals table

The pages `srcAdded.php` and `getVisuals.php` and the converter share nothing but the
table. A step of the whole is a step of one of them, in any order. Rows are never
taken out, a row only goes from avi to flv and is only stamped later, and the books of
the conversions balance.
-/

namespace PlanetariumFD

open Outcome Transition QueryString StringLiteral OrderBy

/-! ## The whole -/

/-- The table, the converter, and the requests the pages have answered. -/
structure WebSystem where
  visuals : NodeList Visual
  processes : List Process
  pc : ConverterPC
  log : List Served

namespace WebSystem

/-- What the converter works on. -/
def converter (s : WebSystem) : Converter := ⟨s.visuals, s.processes, s.pc⟩

/-- What the pages work on. -/
def service (s : WebSystem) : VisualsService := ⟨s.visuals, s.log⟩

def withConverter (s : WebSystem) (c : Converter) : WebSystem := ⟨c.visuals, c.processes, c.pc, s.log⟩

def withService (s : WebSystem) (v : VisualsService) : WebSystem := ⟨v.visuals, s.processes, s.pc, v.log⟩

end WebSystem

inductive WebAction
  | converter (a : ConverterAction)
  | page (a : VisualsAction)
  deriving DecidableEq, Repr

inductive WebHalt
  | disabled
  | converter (h : ConverterHalt)
  | page (h : NotAnAnswer)
  deriving DecidableEq, Repr

def webStep (cfg : ConverterConfig) (s : WebSystem) : WebAction → Except WebHalt WebSystem
  -- rows are added by `srcAdded.php`
  | .converter (.srcAdded _) => .error .disabled
  | .converter a =>
    match converterStep cfg s.converter a with
    | .ok c => .ok (s.withConverter c)
    | .error h => .error (.converter h)
  | .page a =>
    match visualsStep s.service a with
    | .ok v => .ok (s.withService v)
    | .error h => .error (.page h)

def startWeb (visuals : NodeList Visual) : WebSystem := ⟨visuals, [], .polling, []⟩

/-- The steps, with the tests they passed. -/
inductive WebEffect (cfg : ConverterConfig) (s : WebSystem) : WebAction → WebSystem → Prop
  | converter {a c} (own : ∀ v, a ≠ .srcAdded v) (effect : ConverterEffect cfg s.converter a c) :
    WebEffect cfg s (.converter a) (s.withConverter c)
  | refusedRequest {query now stamped returned e}
    (request : visualsRequest (phpGet query) = .error e) :
    WebEffect cfg s (.page (.getVisuals query now stamped returned)) s
  | answered {query now stamped returned r} (request : visualsRequest (phpGet query) = .ok r)
    (answer : IsAnswer s.visuals r now stamped returned) :
    WebEffect cfg s (.page (.getVisuals query now stamped returned)) { s with
      visuals := stampRows s.visuals stamped now
      log := s.log ++ [⟨now, s.visuals.addrs, returned⟩] }
  | refusedFile {query creationTime lastupdated e} (request : srcAdded (magicGet query) = .error e) :
    WebEffect cfg s (.page (.srcAdded query creationTime lastupdated)) s
  | registered {query creationTime lastupdated row} (request : srcAdded (magicGet query) = .ok row) :
    WebEffect cfg s (.page (.srcAdded query creationTime lastupdated))
      { s with visuals := s.visuals.pushBack (row.toVisual creationTime lastupdated) }

section
variable {cfg : ConverterConfig} {s t : WebSystem} {a : WebAction}

theorem webStep_cases (h : webStep cfg s a = .ok t) : WebEffect cfg s a t := by
  cases a with
  | converter a =>
    have hown : ∀ v, a ≠ .srcAdded v := by
      rintro v rfl
      cases h
    have hstep : webStep cfg s (.converter a) = (match converterStep cfg s.converter a with
        | .ok c => .ok (s.withConverter c)
        | .error h => .error (.converter h)) := by
      cases a with
      | srcAdded v => exact absurd rfl (hown v)
      | _ => rfl
    rw [hstep] at h
    split at h
    · next c hc =>
      cases h
      exact .converter hown (converterStep_cases hc)
    · cases h
  | page a =>
    simp only [webStep] at h
    cases a with
    | getVisuals query now stamped returned =>
      simp only [visualsStep] at h
      cases hr : visualsRequest (phpGet query) with
      | error e =>
        rw [hr] at h
        cases h
        exact .refusedRequest hr
      | ok r =>
        simp only [hr] at h
        by_cases hanswer : IsAnswer s.visuals r now stamped returned
        · rw [WebSystem.service, if_pos hanswer] at h
          cases h
          exact .answered hr hanswer
        · rw [WebSystem.service, if_neg hanswer] at h
          cases h
    | srcAdded query creationTime lastupdated =>
      simp only [visualsStep] at h
      cases hrow : srcAdded (magicGet query) with
      | error e =>
        rw [hrow] at h
        cases h
        exact .refusedFile hrow
      | ok row =>
        rw [hrow] at h
        cases h
        exact .registered hrow

end

/-! ## The life of a row -/

/-- When the row was last stamped; NULL comes before every time. -/
def Visual.lastStamp (v : Visual) : WithBot Int := v.lastupdated

/-- `v'` is a later state of the row `v`: avi may have become flv, and the stamp may be later. -/
structure Visual.Becomes (v v' : Visual) : Prop where
  filepath : v'.filepath = v.filepath
  mediatype : v'.mediatype = v.mediatype
  mediasubtype : v'.mediasubtype = v.mediasubtype ∨
    v.mediasubtype = some mediasubtypeAvi ∧ v'.mediasubtype = some mediasubtypeFlv
  data : v'.data = v.data
  creationTime : v'.creationTime = v.creationTime
  lastStamp : v.lastStamp ≤ v'.lastStamp

/-- Rows in the order of their lives. -/
instance : Preorder Visual where
  le := Visual.Becomes
  le_refl v := ⟨rfl, rfl, .inl rfl, rfl, rfl, le_refl _⟩
  le_trans u v w huv hvw := by
    refine ⟨hvw.filepath.trans huv.filepath, hvw.mediatype.trans huv.mediatype, ?_,
      hvw.data.trans huv.data, hvw.creationTime.trans huv.creationTime,
      huv.lastStamp.trans hvw.lastStamp⟩
    obtain hv | ⟨hu, hv⟩ := huv.mediasubtype
    · obtain hw | ⟨hv', hw⟩ := hvw.mediasubtype
      · exact .inl (hw.trans hv)
      · exact .inr ⟨hv.symm.trans hv', hw⟩
    · obtain hw | ⟨hv', -⟩ := hvw.mediasubtype
      · exact .inr ⟨hu, hw.trans hv⟩
      -- flv is not avi
      · exact absurd (hv'.symm.trans hv) (by decide)

/-- The table as a map; what it does not have is below every row. -/
def tableRows (visuals : NodeList Visual) (id : Nat) : WithBot Visual := visuals.get? id

theorem tableRows_le {visuals visuals' : NodeList Visual}
    (h : ∀ id v, visuals.get? id = some v → ∃ v', visuals'.get? id = some v' ∧ v ≤ v') :
    tableRows visuals ≤ tableRows visuals' := by
  intro id
  unfold tableRows
  cases hv : visuals.get? id with
  | none => exact bot_le
  | some v =>
    obtain ⟨v', hv', hle⟩ := h id v hv
    rw [hv']
    exact WithBot.coe_le_coe.mpr hle

theorem le_of_tableRows_le {visuals visuals' : NodeList Visual}
    (h : tableRows visuals ≤ tableRows visuals') {id : Nat} {v : Visual}
    (hv : visuals.get? id = some v) : ∃ v', visuals'.get? id = some v' ∧ v ≤ v' := by
  have hle := h id
  unfold tableRows at hle
  rw [hv] at hle
  cases hv' : visuals'.get? id with
  | none =>
    rw [hv'] at hle
    exact absurd hle (WithBot.not_coe_le_bot v)
  | some v' =>
    rw [hv'] at hle
    exact ⟨v', rfl, WithBot.coe_le_coe.mp hle⟩

/-! ## What the steps keep -/

section
variable {cfg : ConverterConfig} {visuals : NodeList Visual}

theorem fetchRow_stamped {id : Nat} {v : Visual} {row : FetchedRow} (h : fetchRow id v = .ok row)
    (now : Int) : fetchRow id { v with lastupdated := some now } = .ok row := by
  unfold fetchRow at h
  split at h
  · exact h
  · cases h

/-- A stamp leaves a row in hand as it was fetched. -/
theorem IsFetched.stampRows {row : FetchedRow} (h : IsFetched visuals row) (stamped : List Nat)
    (now : Int) : IsFetched (stampRows visuals stamped now) row := by
  obtain ⟨v, hv, hpending, hrow⟩ := h
  refine ⟨_, by rw [get?_stampRows, hv, Option.map_some], ?_, ?_⟩
  · split <;> exact hpending
  · split
    · exact fetchRow_stamped hrow now
    · exact hrow

theorem Visual.le_stamped {v : Visual} {now : Int} (h : v.lastStamp < now) :
    v ≤ { v with lastupdated := some now } :=
  ⟨rfl, rfl, .inl rfl, rfl, rfl, h.le⟩

theorem Visual.le_converted {v : Visual} (h : v.mediasubtype = some 1) :
    v ≤ { v with mediasubtype := some 2 } :=
  ⟨rfl, rfl, .inr ⟨h, rfl⟩, rfl, rfl, le_refl _⟩

variable {s t : WebSystem} {a : WebAction}

/-- The converter works as if it were alone: the pages leave its rows in hand as they are. -/
theorem WebEffect.shape (e : WebEffect cfg s a t) (h : ConverterShape cfg s.converter) :
    ConverterShape cfg t.converter := by
  cases e with
  | converter own effect => exact h.after effect
  | refusedRequest request => exact h
  | answered request answer =>
    exact ⟨fun row hrow => (h.fetched row hrow).stampRows _ _, h.single, h.own, h.signaled⟩
  | refusedFile request => exact h
  | registered request =>
    exact ⟨fun row hrow => (h.fetched row hrow).pushBack _, h.single, h.own, h.signaled⟩

theorem shape_of_webRun {as : List WebAction}
    (h : run (webStep cfg) (startWeb visuals) as = .ok s) : ConverterShape cfg s.converter :=
  run_invariant (fun _ _ _ hs hst => (webStep_cases hst).shape hs) (.of_inHand_nil rfl) h

/-- The row in hand is pending, so an update changes avi to flv. -/
theorem tableRows_updateVisual {row : FetchedRow} (h : IsFetched visuals row) (c : UpdateCalls) :
    tableRows visuals ≤ tableRows (updateVisual visuals row.id c) := by
  refine tableRows_le fun id v hv => ⟨_, by rw [get?_updateVisual, hv, Option.map_some], ?_⟩
  split
  · next hmark =>
    obtain ⟨v', hv', hpending, -⟩ := h
    rw [hmark.2, hv'] at hv
    cases hv
    exact Visual.le_converted hpending
  · exact le_refl v

theorem tableRows_stampRows {r : VisualsRequest} {now : Int} {stamped returned : List Nat}
    (h : IsAnswer visuals r now stamped returned) :
    tableRows visuals ≤ tableRows (stampRows visuals stamped now) := by
  refine tableRows_le fun id v hv => ⟨_, by rw [get?_stampRows, hv, Option.map_some], ?_⟩
  split
  · have hclock := h.clock id (NodeList.get?_isSome_iff.mp (by rw [hv]; rfl))
    rw [lastServed, hv] at hclock
    exact Visual.le_stamped hclock
  · exact le_refl v

theorem tableRows_pushBack (visuals : NodeList Visual) (v : Visual) :
    tableRows visuals ≤ tableRows (visuals.pushBack v) :=
  tableRows_le fun _ v' hv' => ⟨v', NodeList.get?_pushBack_of_eq_some hv' v, le_refl v'⟩

/-- Every step leaves the rows there are, as they were or at a later state. -/
theorem WebEffect.tableRows_le (e : WebEffect cfg s a t) (h : ConverterShape cfg s.converter) :
    tableRows s.visuals ≤ tableRows t.visuals := by
  cases e with
  | @converter a c own effect =>
    cases effect with
    | @updated row rest attempt calls pc =>
      obtain ⟨-, hrow⟩ := h.inHand_eq (by rw [pc]; rfl : s.converter.pc.inHand = row :: rest)
      exact tableRows_updateVisual (hrow row (List.mem_singleton_self row)) calls
    | srcAdded => exact absurd rfl (own _)
    | _ => exact le_refl _
  | refusedRequest request => exact le_refl _
  | answered request answer => exact tableRows_stampRows answer
  | refusedFile request => exact le_refl _
  | registered request => exact tableRows_pushBack _ _

/-- An id that was passed over is never given out. -/
theorem WebEffect.absent (e : WebEffect cfg s a t) {id : Nat}
    (h : id < s.visuals.fresh ∧ s.visuals.get? id = none) :
    id < t.visuals.fresh ∧ t.visuals.get? id = none := by
  obtain ⟨hlt, hnone⟩ := h
  cases e with
  | @converter a c own effect =>
    cases effect with
    | @updated row rest attempt calls pc =>
      refine ⟨?_, ?_⟩
      · show id < (updateVisual s.visuals row.id calls).fresh
        unfold updateVisual
        split <;> exact hlt
      · show (updateVisual s.visuals row.id calls).get? id = none
        rw [get?_updateVisual, hnone, Option.map_none]
    | srcAdded => exact absurd rfl (own _)
    | _ => exact ⟨hlt, hnone⟩
  | refusedRequest request => exact ⟨hlt, hnone⟩
  | @answered query now stamped returned r request answer =>
    refine ⟨hlt, ?_⟩
    show (stampRows s.visuals stamped now).get? id = none
    rw [get?_stampRows, hnone, Option.map_none]
  | refusedFile request => exact ⟨hlt, hnone⟩
  | @registered query creationTime lastupdated row request =>
    refine ⟨Nat.lt_succ_of_lt hlt, ?_⟩
    show (s.visuals.pushBack _).get? id = none
    rw [NodeList.get?_pushBack_of_lt _ hlt, hnone]

theorem tableRows_le_of_run {as : List WebAction} (h : ConverterShape cfg s.converter)
    (h' : run (webStep cfg) s as = .ok t) : tableRows s.visuals ≤ tableRows t.visuals :=
  run_mono (fun s : WebSystem => tableRows s.visuals)
    (fun _ _ _ hs hst => (webStep_cases hst).shape hs)
    (fun _ _ _ hs hst => (webStep_cases hst).tableRows_le hs) h h'

/-- Whatever the programs do, in any order, each row stays, with its file, and only goes
from avi to flv and to later stamps; no id is given out twice. Each `NOW()` of a request
is later than every stamp in the table (`IsAnswer.clock`). -/
theorem rows_of_run {as bs : List WebAction}
    (h : run (webStep cfg) (startWeb visuals) as = .ok s) (h' : run (webStep cfg) s bs = .ok t) :
    (∀ id v, s.visuals.get? id = some v → ∃ v', t.visuals.get? id = some v' ∧ v.Becomes v') ∧
      ∀ id < s.visuals.fresh, s.visuals.get? id = none → t.visuals.get? id = none := by
  refine ⟨fun id v hv => le_of_tableRows_le (tableRows_le_of_run (shape_of_webRun h) h') hv,
    fun id hlt hnone => ?_⟩
  exact (run_invariant (P := fun s : WebSystem => id < s.visuals.fresh ∧ s.visuals.get? id = none)
    (fun _ _ _ hs hst => (webStep_cases hst).absent hs) ⟨hlt, hnone⟩ h').2

end

/-- A video is registered and one is converted; then a page asks for a converted one. -/
def oneConversion : List WebAction :=
  [.page (.srcAdded "name=2&type=video&subtype=avi".toList 5 none),
    .converter (.query (.selected (some 0))), .converter (.createProcess true),
    .converter (.processEnds 0), .converter (.wait .object0),
    .converter (.update ⟨true, true, true, true, true⟩),
    .page (.getVisuals "type=video&subtype=flv&ammount=1".toList 9 [0] [0])]

theorem rows_of_run_oneConversion :
    ∃ s, run (webStep mediaDirectory) (startWeb oneVisual) oneConversion = .ok s ∧
      (∀ id v, oneVisual.get? id = some v → ∃ v', s.visuals.get? id = some v' ∧ v.Becomes v') ∧
      ∀ id < 1, oneVisual.get? id = none → s.visuals.get? id = none := by
  have hruns : returns (fun _ => true)
      (run (webStep mediaDirectory) (startWeb oneVisual) oneConversion) = true := by decide +kernel
  obtain ⟨s, hs, -⟩ := exists_of_returns hruns
  exact ⟨s, hs, @rows_of_run mediaDirectory oneVisual (startWeb oneVisual) s [] _ rfl hs⟩

end PlanetariumFD
