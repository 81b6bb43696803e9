import PlanetariumFD.Foundation.NodeList
import PlanetariumFD.Foundation.OrderBy
import PlanetariumFD.Foundation.Transition
import PlanetariumFD.Service.Registration

/-!
# Requests for visuals

`getVisuals.php` stamps the rows least recently served and then selects rows in the
same order, in one transaction. The stamp is the newest time there is, so the
selection finds the stamped rows last: it returns them only when it returns all.
-/

namespace PlanetariumFD

open Transition QueryString StringLiteral OrderBy

/-! ## The request -/

/-- What `getVisuals.php` puts into its statements. -/
structure VisualsRequest where
  mediatype : Int
  mediasubtype : Int
  ammount : Nat
  deriving DecidableEq, Repr

def defaultVisualsAmmount : Nat := 10

/-- The number after `LIMIT`. Texts other than digits are turned away, also those that
make a statement all the same, such as a number after a blank. -/
def readAmmount (ammount : Option PhpValue) : Option Nat :=
  if isBlank ammount then some defaultVisualsAmmount
  else if (phpText ammount).all Char.isDigit then some (Nat.ofDigitChars 10 (phpText ammount) 0)
  else none

def visualsRequest (get : List Char → Option PhpValue) : Except PageError VisualsRequest :=
  match getQSMediaType get (some mediatypeVideo) with
  -- no request comes to this: the default is not empty
  | none => .error .mysqlError
  | some mediatype =>
    if mediatype = mediatypeUnrecognized then
      .error (.errorXml ("Unrecognized value ".toList ++ phpText (get "type".toList) ++
        "in QS_PARAMETER_MEDIA_TYPE parameter".toList))
    else
      match getQSMediaSubType get mediasubtypeFlv, readAmmount (get "ammount".toList) with
      | some mediasubtype, some ammount => .ok ⟨mediatype, mediasubtype, ammount⟩
      | _, _ => .error .mysqlError

/-! ## The two statements -/

/-- The `WHERE` clause. -/
def VisualsRequest.selects (r : VisualsRequest) (v : Visual) : Bool :=
  v.mediatype = some r.mediatype ∧ v.mediasubtype = some r.mediasubtype

/-- The rows that a request is about. -/
def matching (visuals : NodeList Visual) (r : VisualsRequest) : List Nat :=
  visuals.addrs.filter fun id => (visuals.get? id).any r.selects

/-- When a row was last stamped; NULL comes before every time. -/
def lastServed (visuals : NodeList Visual) (id : Nat) : WithBot Int :=
  (visuals.get? id).bind Visual.lastupdated

/-- `SET lastupdated=NOW()` in some rows. -/
def stampRows (visuals : NodeList Visual) (stamped : List Nat) (now : Int) : NodeList Visual :=
  visuals.alter fun id v => if id ∈ stamped then { v with lastupdated := some now } else v

/-- The transaction stamps `stamped` and returns `returned`; the clock is later than
every time in the table. -/
structure IsAnswer (visuals : NodeList Visual) (r : VisualsRequest) (now : Int)
    (stamped returned : List Nat) : Prop where
  clock : ∀ id ∈ visuals.addrs, lastServed visuals id < now
  update : Selects (lastServed visuals) r.ammount (matching visuals r) stamped
  select : Selects (lastServed (stampRows visuals stamped now)) r.ammount
    (matching (stampRows visuals stamped now) r) returned

instance (visuals : NodeList Visual) (r : VisualsRequest) (now : Int) (stamped returned : List Nat) :
    Decidable (IsAnswer visuals r now stamped returned) :=
  decidable_of_iff ((∀ id ∈ visuals.addrs, lastServed visuals id < now) ∧
      Selects (lastServed visuals) r.ammount (matching visuals r) stamped ∧
      Selects (lastServed (stampRows visuals stamped now)) r.ammount
        (matching (stampRows visuals stamped now) r) returned)
    ⟨fun h => ⟨h.1, h.2.1, h.2.2⟩, fun h => ⟨h.clock, h.update, h.select⟩⟩

/-! ## The service -/

/-- An answered request: the rows there were, and those returned. -/
structure Served where
  now : Int
  present : List Nat
  returned : List Nat
  deriving DecidableEq, Repr

/-- The table, with the requests answered so far. -/
structure VisualsService where
  visuals : NodeList Visual
  log : List Served

/-- A request, with the time and what the database chose, or a registration, with the
time and what the table has for `lastupdated`. -/
inductive VisualsAction
  | getVisuals (query : List Char) (now : Int) (stamped returned : List Nat)
  | srcAdded (query : List Char) (creationTime : Int) (lastupdated : Option Int)
  deriving DecidableEq, Repr

/-- The database does not choose so. -/
inductive NotAnAnswer
  | notAnAnswer
  deriving DecidableEq, Repr

/-- Magic quotes are on for both pages; a request for visuals is the same without them
(`visualsRequest_quoteGpc`). -/
def visualsStep (s : VisualsService) : VisualsAction → Except NotAnAnswer VisualsService
  | .getVisuals query now stamped returned =>
    match visualsRequest (phpGet query) with
    | .error _ => .ok s
    | .ok r =>
      if IsAnswer s.visuals r now stamped returned then .ok {
        visuals := stampRows s.visuals stamped now
        log := s.log ++ [⟨now, s.visuals.addrs, returned⟩] }
      else .error .notAnAnswer
  | .srcAdded query creationTime lastupdated =>
    match srcAdded (magicGet query) with
    | .error _ => .ok s
    | .ok row => .ok { s with visuals := s.visuals.pushBack (row.toVisual creationTime lastupdated) }

def startService (visuals : NodeList Visual) : VisualsService := ⟨visuals, []⟩

/-! ## The law -/

/-- A request returns what it stamped, the rows least recently served. A row that was
returned before is not returned again while a row present since then, and not
returned since, is passed over. -/
structure ServesStamped (s : VisualsService) (r : VisualsRequest) (stamped returned : List Nat) :
    Prop where
  same : ∀ id, id ∈ returned ↔ id ∈ stamped
  least : ∀ x ∈ returned, ∀ y ∈ matching s.visuals r, y ∉ returned →
    lastServed s.visuals x ≤ lastServed s.visuals y
  turn : ∀ before sv since, s.log = before ++ sv :: since → ∀ x ∈ returned, x ∈ sv.returned →
    ∀ y ∈ matching s.visuals r, y ∈ sv.present → y ∉ sv.returned →
      (∀ sv' ∈ since, y ∉ sv'.returned) → y ∈ returned

/-- The law for a run: it holds of every request that is answered. -/
def VisualsLaw (visuals : NodeList Visual) (as : List VisualsAction) : Prop :=
  ∀ q ∈ trail visualsStep (startService visuals) as, ∀ query now stamped returned r,
    q.2 = .getVisuals query now stamped returned → visualsRequest (phpGet query) = .ok r →
      IsAnswer q.1.visuals r now stamped returned → ServesStamped q.1 r stamped returned

/-- A request asks for all the rows it is about, or for none. -/
def AsksForAll (s : VisualsService) (a : VisualsAction) : Prop :=
  ∀ query now stamped returned r, a = .getVisuals query now stamped returned →
    visualsRequest (phpGet query) = .ok r → IsAnswer s.visuals r now stamped returned →
      (matching s.visuals r).length ≤ r.ammount ∨ r.ammount = 0

/-! ## Under magic quotes -/

theorem readAmmount_quoteGpc (magicQuotes : Bool) (get : List Char → Option PhpValue)
    (name : List Char) :
    readAmmount (quoteGpc magicQuotes get name) = readAmmount (get name) := by
  have hblank := isBlank_quoteGpc magicQuotes get name
  have halnum : ∀ {s : List Char}, s.all Char.isDigit = true → s.all Char.isAlphanum = true :=
    fun h => List.all_eq_true.mpr fun c hc => by
      rw [Char.isAlphanum, List.all_eq_true.mp h c hc, Bool.or_true]
  cases magicQuotes with
  | false => rfl
  | true =>
    change isBlank ((get name).map quoteValue) = _ at hblank
    show readAmmount ((get name).map quoteValue) = _
    rw [readAmmount, readAmmount, hblank]
    cases get name with
    | none => rfl
    | some v =>
      cases v with
      | array => rfl
      | str s =>
        show (if isBlank (some (.str s)) = true then some defaultVisualsAmmount
          else if (addslashes s).all Char.isDigit = true then
            some (Nat.ofDigitChars 10 (addslashes s) 0) else none) =
          if isBlank (some (.str s)) = true then some defaultVisualsAmmount
          else if s.all Char.isDigit = true then some (Nat.ofDigitChars 10 s 0) else none
        by_cases hdigits : s.all Char.isDigit = true
        · have hsame := (addslashes_eq_iff (halnum hdigits)).mpr rfl
          rw [hsame]
        · have hslashed : ¬ (addslashes s).all Char.isDigit = true := fun h =>
            hdigits ((addslashes_eq_iff (halnum h)).mp rfl ▸ h)
          rw [if_neg hdigits, if_neg hslashed]

/-- Magic quotes change no request for visuals, only the text of an error. -/
theorem visualsRequest_quoteGpc (magicQuotes : Bool) (get : List Char → Option PhpValue)
    (r : VisualsRequest) :
    visualsRequest (quoteGpc magicQuotes get) = .ok r ↔ visualsRequest get = .ok r := by
  simp only [visualsRequest, getQSMediaType_quoteGpc, getQSMediaSubType_quoteGpc,
    readAmmount_quoteGpc]
  cases getQSMediaType get (some mediatypeVideo) with
  | none => rfl
  | some mediatype =>
    by_cases hunknown : mediatype = mediatypeUnrecognized
    · simp only [if_pos hunknown, reduceCtorEq]
    · simp only [if_neg hunknown]

/-! ## What a stamp changes -/

section
variable {visuals : NodeList Visual} {r : VisualsRequest} {now : Int} {stamped returned : List Nat}

theorem mem_matching {id : Nat} (h : id ∈ matching visuals r) : id ∈ visuals.addrs :=
  (List.mem_filter.mp h).1

theorem nodup_matching (visuals : NodeList Visual) (r : VisualsRequest) :
    (matching visuals r).Nodup :=
  visuals.nodup_addrs.filter _

theorem get?_stampRows (visuals : NodeList Visual) (stamped : List Nat) (now : Int) (id : Nat) :
    (stampRows visuals stamped now).get? id = (visuals.get? id).map fun v =>
      if id ∈ stamped then { v with lastupdated := some now } else v :=
  NodeList.get?_alter _ _ id

/-- A stamp does not change which rows a request is about. -/
theorem matching_stampRows (visuals : NodeList Visual) (stamped : List Nat) (now : Int)
    (r : VisualsRequest) : matching (stampRows visuals stamped now) r = matching visuals r := by
  unfold matching
  rw [stampRows, NodeList.addrs_alter]
  apply List.filter_congr
  intro id _
  rw [← stampRows, get?_stampRows, Option.any_map]
  congr 1
  funext v
  show r.selects _ = r.selects v
  by_cases hid : id ∈ stamped
  · rw [if_pos hid]
    rfl
  · rw [if_neg hid]

theorem lastServed_of_mem {id : Nat} (hid : id ∈ visuals.addrs) (hstamped : id ∈ stamped) :
    lastServed (stampRows visuals stamped now) id = now := by
  obtain ⟨v, hv⟩ := Option.isSome_iff_exists.mp (NodeList.get?_isSome_iff.mpr hid)
  rw [lastServed, get?_stampRows, hv, Option.map_some, if_pos hstamped]
  rfl

theorem lastServed_of_not_mem {id : Nat} (hstamped : id ∉ stamped) :
    lastServed (stampRows visuals stamped now) id = lastServed visuals id := by
  rw [lastServed, get?_stampRows, lastServed]
  simp only [if_neg hstamped, Option.map_id']
  rfl

theorem lastServed_pushBack {id : Nat} (hid : id ∈ visuals.addrs) (v : Visual) :
    lastServed (visuals.pushBack v) id = lastServed visuals id := by
  rw [lastServed, NodeList.get?_pushBack_of_lt _ (NodeList.addr_lt_fresh hid), lastServed]

/-- The rows returned are the rows stamped exactly when all were asked for, or none. -/
theorem IsAnswer.same_iff (h : IsAnswer visuals r now stamped returned) :
    (∀ id, id ∈ returned ↔ id ∈ stamped) ↔
      (matching visuals r).length ≤ r.ammount ∨ r.ammount = 0 := by
  have hselect := h.select
  rw [matching_stampRows] at hselect
  have hstamped : ∀ x ∈ stamped, lastServed (stampRows visuals stamped now) x = now :=
    fun x hx => lastServed_of_mem (mem_matching (h.update.subset x hx)) hx
  refine h.update.again_iff (nodup_matching visuals r) hselect hstamped fun x hx hleft => ?_
  rw [lastServed_of_not_mem hleft]
  exact h.clock x (mem_matching hx)

/-- Whatever the table, a request has an answer once the clock is late enough. -/
theorem exists_isAnswer (visuals : NodeList Visual) (r : VisualsRequest) {now : Int}
    (clock : ∀ id ∈ visuals.addrs, lastServed visuals id < now) :
    ∃ stamped returned, IsAnswer visuals r now stamped returned := by
  obtain ⟨stamped, hstamped⟩ :=
    exists_selects (lastServed visuals) r.ammount (nodup_matching visuals r)
  obtain ⟨returned, hreturned⟩ := exists_selects (lastServed (stampRows visuals stamped now))
    r.ammount (nodup_matching (stampRows visuals stamped now) r)
  exact ⟨stamped, returned, clock, hstamped, hreturned⟩

end

/-! ## Runs that ask for all -/

/-- The log and the table agree: rows returned have been stamped since, and a row that
was there and has not been returned since was last stamped before. -/
structure LogShape (s : VisualsService) : Prop where
  known : ∀ sv ∈ s.log, ∀ id, id ∈ sv.present ∨ id ∈ sv.returned → id ∈ s.visuals.addrs
  served : ∀ sv ∈ s.log, ∀ x ∈ sv.returned, (sv.now : WithBot Int) ≤ lastServed s.visuals x
  waiting : ∀ before sv since, s.log = before ++ sv :: since → ∀ y ∈ sv.present,
    y ∉ sv.returned → (∀ sv' ∈ since, y ∉ sv'.returned) →
      lastServed s.visuals y < (sv.now : WithBot Int)

theorem logShape_start (visuals : NodeList Visual) : LogShape (startService visuals) where
  known sv h := by cases h
  served sv h := by cases h
  waiting before sv since h := by
    cases before with
    | nil => cases h
    | cons sv' before => cases h

/-- What a step does. -/
inductive VisualsEffect (s : VisualsService) : VisualsAction → VisualsService → Prop
  | turnedAway {a} : VisualsEffect s a s
  | served {query now stamped returned r} (request : visualsRequest (phpGet query) = .ok r)
    (answer : IsAnswer s.visuals r now stamped returned) :
    VisualsEffect s (.getVisuals query now stamped returned) {
      visuals := stampRows s.visuals stamped now
      log := s.log ++ [⟨now, s.visuals.addrs, returned⟩] }
  | added {query creationTime lastupdated v} :
    VisualsEffect s (.srcAdded query creationTime lastupdated)
      { s with visuals := s.visuals.pushBack v }

section
variable {s t : VisualsService} {a : VisualsAction}

theorem visualsStep_cases (h : visualsStep s a = .ok t) : VisualsEffect s a t := by
  cases a with
  | getVisuals query now stamped returned =>
    simp only [visualsStep] at h
    split at h
    · cases h
      exact .turnedAway
    · next r hr =>
      split at h
      · next hanswer =>
        cases h
        exact .served hr hanswer
      · cases h
  | srcAdded query creationTime lastupdated =>
    simp only [visualsStep] at h
    split at h
    · cases h
      exact .turnedAway
    · cases h
      exact .added

namespace LogShape

/-- A request that returns what it stamps. -/
theorem after_served (h : LogShape s) {r : VisualsRequest} {now : Int} {stamped returned : List Nat}
    (answer : IsAnswer s.visuals r now stamped returned)
    (same : ∀ id, id ∈ returned ↔ id ∈ stamped) :
    LogShape {
      visuals := stampRows s.visuals stamped now
      log := s.log ++ [⟨now, s.visuals.addrs, returned⟩] } := by
  have haddrs : (stampRows s.visuals stamped now).addrs = s.visuals.addrs :=
    NodeList.addrs_alter _ _
  have hreturned : ∀ id ∈ returned, id ∈ s.visuals.addrs := fun id hid =>
    mem_matching (answer.update.subset id ((same id).mp hid))
  refine ⟨fun sv hsv id hid => ?_, fun sv hsv x hx => ?_, fun before sv since hlog y hy hleft hsince => ?_⟩
  · rw [haddrs]
    obtain hsv | hsv := List.mem_append.mp hsv
    · exact h.known sv hsv id hid
    · obtain rfl := List.mem_singleton.mp hsv
      exact hid.elim (fun hid => hid) (hreturned id)
  · obtain hsv | hsv := List.mem_append.mp hsv
    · have hle := h.served sv hsv x hx
      by_cases hstamped : x ∈ stamped
      · have hx' := h.known sv hsv x (.inr hx)
        rw [lastServed_of_mem hx' hstamped]
        exact hle.trans (answer.clock x hx').le
      · rw [lastServed_of_not_mem hstamped]
        exact hle
    · obtain rfl := List.mem_singleton.mp hsv
      exact (lastServed_of_mem (hreturned x hx) ((same x).mp hx)).ge
  · obtain rfl | ⟨since', sv', rfl⟩ := since.eq_nil_or_concat
    · obtain ⟨-, hlast⟩ := List.append_inj' hlog rfl
      obtain rfl := List.singleton_inj.mp hlast
      rw [lastServed_of_not_mem fun hstamped => hleft ((same y).mpr hstamped)]
      exact answer.clock y hy
    · rw [List.concat_eq_append] at hlog hsince
      rw [← List.cons_append, ← List.append_assoc] at hlog
      obtain ⟨hbefore, hlast⟩ := List.append_inj' hlog rfl
      obtain rfl := List.singleton_inj.mp hlast
      -- the last request has not stamped the waiting row either
      have hunstamped : y ∉ stamped := fun hstamped =>
        hsince _ (List.mem_append_right _ (List.mem_singleton_self _)) ((same y).mpr hstamped)
      rw [lastServed_of_not_mem hunstamped]
      exact h.waiting before sv since' hbefore y hy hleft fun sv' hsv' =>
        hsince sv' (List.mem_append_left _ hsv')

theorem after_added (h : LogShape s) (v : Visual) :
    LogShape { s with visuals := s.visuals.pushBack v } := by
  refine ⟨fun sv hsv id hid => ?_, fun sv hsv x hx => ?_, fun before sv since hlog y hy hleft hsince => ?_⟩
  · rw [NodeList.addrs_pushBack]
    exact List.mem_append_left _ (h.known sv hsv id hid)
  · rw [lastServed_pushBack (h.known sv hsv x (.inr hx))]
    exact h.served sv hsv x hx
  · have hsv : sv ∈ s.log := by
      replace hlog : s.log = before ++ sv :: since := hlog
      rw [hlog]
      exact List.mem_append_right _ List.mem_cons_self
    rw [lastServed_pushBack (h.known sv hsv y (.inl hy))]
    exact h.waiting before sv since hlog y hy hleft hsince

theorem after (h : LogShape s) (asks : AsksForAll s a) (e : VisualsEffect s a t) : LogShape t := by
  cases e with
  | turnedAway => exact h
  | served request answer =>
    exact h.after_served answer (answer.same_iff.mpr (asks _ _ _ _ _ rfl request answer))
  | added => exact h.after_added _

end LogShape

/-- A request that asks for all is served by the law. -/
theorem servesStamped_of_same (h : LogShape s) {r : VisualsRequest} {now : Int}
    {stamped returned : List Nat} (answer : IsAnswer s.visuals r now stamped returned)
    (same : ∀ id, id ∈ returned ↔ id ∈ stamped) : ServesStamped s r stamped returned where
  same := same
  least x hx y hy hleft :=
    answer.update.least x ((same x).mp hx) y hy fun hstamped => hleft ((same y).mpr hstamped)
  turn before sv since hlog x hx hagain y hy hpresent hleft hsince := by
    by_contra hpassed
    have hsv : sv ∈ s.log := by
      rw [hlog]
      exact List.mem_append_right _ List.mem_cons_self
    have hle := answer.update.least x ((same x).mp hx) y hy fun hstamped =>
      hpassed ((same y).mpr hstamped)
    -- the row that waits was stamped before the one that is returned again
    exact absurd (h.waiting before sv since hlog y hpresent hleft hsince)
      (not_lt.mpr ((h.served sv hsv x hagain).trans hle))

end

/-- The law holds for a run exactly when every request in it asks for all. -/
theorem visualsLaw_iff (visuals : NodeList Visual) (as : List VisualsAction) :
    VisualsLaw visuals as ↔ Throughout visualsStep AsksForAll (startService visuals) as := by
  constructor
  · rintro law ⟨s, a⟩ hq query now stamped returned r ha hr hanswer
    exact hanswer.same_iff.mp (law _ hq query now stamped returned r ha hr hanswer).same
  · rintro hasks ⟨s, a⟩ hq query now stamped returned r ha hr hanswer
    obtain ⟨bs, cs, rfl, hrun⟩ := mem_trail hq
    have hsame := hanswer.same_iff.mpr (hasks _ hq query now stamped returned r ha hr hanswer)
    -- the requests before this one asked for all as well
    have hbefore : Throughout visualsStep AsksForAll (startService visuals) bs :=
      ((throughout_append_iff hrun _).mp hasks).1
    have hshape : LogShape s := run_invariant_of_throughout
      (fun _ _ _ hs hc hst => hs.after hc (visualsStep_cases hst)) (logShape_start visuals)
      hrun hbefore
    exact servesStamped_of_same hshape hanswer hsame

/-- Two videos for the web page, the first of them served longer ago. -/
def twoVideos : NodeList Visual :=
  (NodeList.empty.pushBack ⟨some "a".toList, some 0, some 2, some [], some 0, some 1⟩).pushBack
    ⟨some "b".toList, some 0, some 2, some [], some 0, some 2⟩

/-- Asked for one, the service stamps the first and returns the second. -/
theorem stamped_not_returned : ¬ VisualsLaw twoVideos
    [.getVisuals "type=video&subtype=flv&ammount=1".toList 3 [0] [1]] := by
  intro law
  have hrequest : visualsRequest (phpGet "type=video&subtype=flv&ammount=1".toList) =
      .ok ⟨0, 2, 1⟩ := by decide +kernel
  have hanswer : IsAnswer twoVideos ⟨0, 2, 1⟩ 3 [0] [1] := by decide +kernel
  have hserves := law _ List.mem_cons_self _ 3 [0] [1] _ rfl hrequest hanswer
  exact absurd ((hserves.same 0).mpr (List.mem_singleton_self 0)) (by decide)

end PlanetariumFD
