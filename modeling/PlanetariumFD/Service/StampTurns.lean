import PlanetariumFD.Service.WebSystem

/-!
# A row's turn to be stamped

`getVisuals.php` stamps the rows least recently stamped, so a row moves up with every
request for its kind until it is stamped itself. Registrations and conversions put rows
ahead of it, one each: requests that ask for more than stood ahead at first and came
since must have stamped it.
-/

namespace PlanetariumFD

open Outcome Transition QueryString StringLiteral OrderBy

/-! ## Kinds of rows -/

/-- The two requests are about the same rows, whatever the amounts. -/
def VisualsRequest.SameKind (r r' : VisualsRequest) : Prop :=
  r.mediatype = r'.mediatype ∧ r.mediasubtype = r'.mediasubtype

instance (r r' : VisualsRequest) : Decidable (r.SameKind r') := inferInstanceAs (Decidable (_ ∧ _))

/-- The rows of its kind that are stamped before a row, or may be. -/
def aheadOf (visuals : NodeList Visual) (r : VisualsRequest) (y : Nat) : Finset Nat :=
  ahead (lastServed visuals) (matching visuals r) y

namespace WebAction

/-- How many rows of the kind an action asks for. -/
def asksFor (r : VisualsRequest) : WebAction → Nat
  | .page (.getVisuals query _ _ _) =>
    match visualsRequest (phpGet query) with
    | .ok r' => if r.SameKind r' then r'.ammount else 0
    | .error _ => 0
  | _ => 0

/-- How many rows of the kind an action may add: a registered one, or a converted one. -/
def brings (r : VisualsRequest) : WebAction → Nat
  | .page (.srcAdded query _ _) =>
    match srcAdded (magicGet query) with
    | .ok row => if r.mediatype = row.mediatype ∧ r.mediasubtype = row.mediasubtype then 1 else 0
    | .error _ => 0
  | .converter (.update calls) =>
    if calls.takesEffect = true ∧ r.mediasubtype = mediasubtypeFlv then 1 else 0
  | _ => 0

/-- The action is a request that stamps the row. -/
def Stamps (y : Nat) : WebAction → Prop
  | .page (.getVisuals query _ stamped _) =>
    (∃ r, visualsRequest (phpGet query) = .ok r) ∧ y ∈ stamped
  | _ => False

end WebAction

/-- A row of the kind that is not stamped now. -/
def Waits (r : VisualsRequest) (y : Nat) (s : WebSystem) (a : WebAction) : Prop :=
  y ∈ matching s.visuals r ∧ ¬ a.Stamps y

/-! ## What a step puts ahead -/

section
variable {visuals : NodeList Visual} {r r' : VisualsRequest} {x y id : Nat}

theorem mem_matching_iff :
    id ∈ matching visuals r ↔ ∃ v, visuals.get? id = some v ∧ r.selects v = true := by
  unfold matching
  rw [List.mem_filter]
  constructor
  · rintro ⟨-, h⟩
    cases hv : visuals.get? id with
    | none =>
      rw [hv] at h
      cases h
    | some v =>
      rw [hv] at h
      exact ⟨v, rfl, h⟩
  · rintro ⟨v, hv, hsel⟩
    exact ⟨NodeList.get?_isSome_iff.mp (by rw [hv]; rfl), by rw [hv]; exact hsel⟩

theorem selects_iff {v : Visual} :
    r.selects v = true ↔ v.mediatype = some r.mediatype ∧ v.mediasubtype = some r.mediasubtype := by
  rw [VisualsRequest.selects, decide_eq_true_eq]

theorem mem_aheadOf : x ∈ aheadOf visuals r y ↔
    x ∈ matching visuals r ∧ x ≠ y ∧ lastServed visuals x ≤ lastServed visuals y := mem_ahead

theorem matching_of_sameKind (h : r.SameKind r') : matching visuals r' = matching visuals r := by
  unfold matching
  congr 1
  funext id
  congr 1
  funext v
  rw [VisualsRequest.selects, VisualsRequest.selects, h.1, h.2]

/-- A row is of one kind. -/
theorem sameKind_of_mem (h : id ∈ matching visuals r) (h' : id ∈ matching visuals r') :
    r.SameKind r' := by
  obtain ⟨v, hv, hsel⟩ := mem_matching_iff.mp h
  obtain ⟨v', hv', hsel'⟩ := mem_matching_iff.mp h'
  obtain rfl := Option.some.inj (hv.symm.trans hv')
  obtain ⟨htype, hsub⟩ := selects_iff.mp hsel
  obtain ⟨htype', hsub'⟩ := selects_iff.mp hsel'
  exact ⟨Option.some.inj (htype.symm.trans htype'), Option.some.inj (hsub.symm.trans hsub')⟩

theorem lastServed_updateVisual (id' : Nat) (c : UpdateCalls) :
    lastServed (updateVisual visuals id' c) id = lastServed visuals id := by
  rw [lastServed, get?_updateVisual, lastServed]
  cases visuals.get? id with
  | none => rfl
  | some v =>
    rw [Option.map_some]
    split <;> rfl

/-- With the same stamps and at most one more row of the kind, at most one more is ahead. -/
theorem card_aheadOf_le {visuals' : NodeList Visual} {new : Nat} {isNew : Prop} [Decidable isNew]
    (hrows : ∀ x ∈ matching visuals' r, x ∈ matching visuals r ∨ isNew ∧ x = new)
    (hstamps : ∀ x ∈ visuals.addrs, lastServed visuals' x = lastServed visuals x)
    (hy : y ∈ matching visuals r) :
    (aheadOf visuals' r y).card ≤ (aheadOf visuals r y).card + if isNew then 1 else 0 := by
  have hsub : ∀ x ∈ aheadOf visuals' r y, x ∈ aheadOf visuals r y ∨ isNew ∧ x = new := by
    intro x hx
    obtain ⟨hrow, hne, hle⟩ := mem_aheadOf.mp hx
    refine (hrows x hrow).imp_left fun hrow => mem_aheadOf.mpr ⟨hrow, hne, ?_⟩
    rwa [hstamps x (mem_matching hrow), hstamps y (mem_matching hy)] at hle
  by_cases hnew : isNew
  · rw [if_pos hnew]
    calc
      (aheadOf visuals' r y).card ≤ (insert new (aheadOf visuals r y)).card :=
        Finset.card_le_card fun x hx => Finset.mem_insert.mpr ((hsub x hx).symm.imp_left And.right)
      _ ≤ (aheadOf visuals r y).card + 1 := Finset.card_insert_le _ _
  · rw [if_neg hnew]
    exact Finset.card_le_card fun x hx => (hsub x hx).resolve_right fun h => hnew h.1

/-- A request for the kind that passes a row over stamps rows ahead of it, as many as asked. -/
theorem card_aheadOf_stampRows {now : Int} {stamped returned : List Nat}
    (h : IsAnswer visuals r' now stamped returned) (hy : y ∈ matching visuals r)
    (hleft : y ∉ stamped) :
    (aheadOf (stampRows visuals stamped now) r y).card +
      (if r.SameKind r' then r'.ammount else 0) = (aheadOf visuals r y).card := by
  by_cases hkind : r.SameKind r'
  · rw [if_pos hkind, aheadOf, matching_stampRows]
    have hselect := h.update
    rw [matching_of_sameKind hkind] at hselect
    exact hselect.card_ahead hy hleft
      (fun x hx => lastServed_of_mem (mem_matching (hselect.subset x hx)) hx)
      (fun x _ hx => lastServed_of_not_mem hx) (h.clock y (mem_matching hy))
  · rw [if_neg hkind, Nat.add_zero]
    -- rows of another kind are stamped
    have hother : ∀ x ∈ matching visuals r, x ∉ stamped := fun x hx hstamped =>
      hkind (sameKind_of_mem hx (h.update.subset x hstamped))
    congr 1
    ext x
    rw [mem_aheadOf, mem_aheadOf, matching_stampRows]
    refine and_congr_right fun hx => and_congr_right fun _ => ?_
    rw [lastServed_of_not_mem (hother x hx), lastServed_of_not_mem hleft]

theorem matching_updateVisual (id : Nat) (c : UpdateCalls) :
    ∀ x ∈ matching (updateVisual visuals id c) r,
      x ∈ matching visuals r ∨ (c.takesEffect = true ∧ r.mediasubtype = mediasubtypeFlv) ∧ x = id := by
  intro x hx
  obtain ⟨v', hv', hsel⟩ := mem_matching_iff.mp hx
  rw [get?_updateVisual] at hv'
  obtain ⟨v, hv, rfl⟩ := Option.map_eq_some_iff.mp hv'
  split at hsel
  · next hmark =>
    obtain ⟨-, hsub⟩ := selects_iff.mp hsel
    exact .inr ⟨⟨hmark.1, (Option.some.inj hsub).symm⟩, hmark.2⟩
  · exact .inl (mem_matching_iff.mpr ⟨v, hv, hsel⟩)

theorem matching_pushBack {row : AddedRow} (creationTime : Int) (lastupdated : Option Int) :
    ∀ x ∈ matching (visuals.pushBack (row.toVisual creationTime lastupdated)) r,
      x ∈ matching visuals r ∨
        (r.mediatype = row.mediatype ∧ r.mediasubtype = row.mediasubtype) ∧ x = visuals.fresh := by
  intro x hx
  obtain ⟨v, hv, hsel⟩ := mem_matching_iff.mp hx
  obtain hmem | heq := NodeList.mem_pushBack_nodes.mp (NodeList.get?_eq_some_iff.mp hv)
  · exact .inl (mem_matching_iff.mpr ⟨v, NodeList.get?_eq_some_iff.mpr hmem, hsel⟩)
  · obtain ⟨rfl, rfl⟩ := Prod.mk.inj heq
    obtain ⟨htype, hsub⟩ := selects_iff.mp hsel
    exact .inr ⟨⟨(Option.some.inj htype).symm, (Option.some.inj hsub).symm⟩, rfl⟩

end

section
variable {cfg : ConverterConfig} {visuals : NodeList Visual} {r : VisualsRequest} {y : Nat}
  {s t : WebSystem} {a : WebAction}

theorem WebEffect.card_aheadOf (e : WebEffect cfg s a t) (h : Waits r y s a) :
    (aheadOf t.visuals r y).card + a.asksFor r ≤ (aheadOf s.visuals r y).card + a.brings r := by
  obtain ⟨hy, hleft⟩ := h
  cases e with
  | @converter a c own effect =>
    cases effect with
    | @updated row rest attempt calls pc =>
      exact card_aheadOf_le (matching_updateVisual row.id calls)
        (fun x _ => lastServed_updateVisual row.id calls) hy
    | srcAdded => exact absurd rfl (own _)
    | _ => exact Nat.le_add_right _ _
  | refusedRequest request => simp [WebAction.asksFor, request]
  | answered request answer =>
    have hcard := card_aheadOf_stampRows answer hy fun hmem => hleft ⟨⟨_, request⟩, hmem⟩
    simp only [WebAction.asksFor, request]
    exact hcard.le
  | refusedFile request => exact Nat.le_add_right _ _
  | @registered query creationTime lastupdated row request =>
    simp only [WebAction.brings, request]
    exact card_aheadOf_le (matching_pushBack creationTime lastupdated)
      (fun x hx => lastServed_pushBack hx _) hy

/-- While a row waits, what is asked for comes out of what stood ahead and what came since. -/
theorem card_aheadOf_of_run {as : List WebAction} (h : run (webStep cfg) s as = .ok t)
    (hwaits : Throughout (webStep cfg) (Waits r y) s as) :
    (aheadOf t.visuals r y).card + (as.map (WebAction.asksFor r)).sum ≤
      (aheadOf s.visuals r y).card + (as.map (WebAction.brings r)).sum :=
  run_budget (I := fun _ => True) (fun s : WebSystem => (aheadOf s.visuals r y).card)
    (WebAction.brings r) (WebAction.asksFor r) (fun _ _ _ _ _ _ => trivial)
    (fun _ _ _ _ hc hst => (webStep_cases hst).card_aheadOf hc) trivial hwaits h

/-- Only the converter takes a row out of its kind, and only avis. -/
theorem matching_of_becomes {v v' : Visual} (h : v.Becomes v')
    (havi : r.mediasubtype ≠ mediasubtypeAvi) (hsel : r.selects v = true) : r.selects v' = true := by
  obtain ⟨htype, hsub⟩ := selects_iff.mp hsel
  refine selects_iff.mpr ⟨h.mediatype.trans htype, ?_⟩
  obtain hsame | ⟨hwas, -⟩ := h.mediasubtype
  · exact hsame.trans hsub
  · exact absurd (Option.some.inj (hsub.symm.trans hwas)) havi

/-- Requests that ask for more rows of a kind than stand ahead of one and come meanwhile
stamp that one, unless the converter has made an flv of it. Each `NOW()` of a request is
later than every stamp in the table (`IsAnswer.clock`): within one second of the server's
clock two requests may take the same row and pass this one over. -/
theorem stamped_in_turn {as bs : List WebAction}
    (h : run (webStep cfg) (startWeb visuals) as = .ok s) (h' : run (webStep cfg) s bs = .ok t)
    (hy : y ∈ matching s.visuals r)
    (hmore : (aheadOf s.visuals r y).card + (bs.map (WebAction.brings r)).sum <
      (bs.map (WebAction.asksFor r)).sum) :
    ∃ q ∈ trail (webStep cfg) s bs, q.2.Stamps y ∨
      r.mediasubtype = mediasubtypeAvi ∧ y ∉ matching q.1.visuals r := by
  by_contra hnever
  push Not at hnever
  have hwaits : Throughout (webStep cfg) (Waits r y) s bs := by
    rintro ⟨u, a⟩ hq
    obtain ⟨hunstamped, hkind⟩ := hnever _ hq
    refine ⟨?_, hunstamped⟩
    by_cases havi : r.mediasubtype = mediasubtypeAvi
    · exact hkind havi
    · obtain ⟨bs', cs, -, hu⟩ := mem_trail hq
      obtain ⟨v, hv, hsel⟩ := mem_matching_iff.mp hy
      obtain ⟨v', hv', hle⟩ := le_of_tableRows_le (tableRows_le_of_run (shape_of_webRun h) hu) hv
      exact mem_matching_iff.mpr ⟨v', hv', matching_of_becomes hle havi hsel⟩
  have hbudget := card_aheadOf_of_run h' hwaits
  omega

end

/-- Two requests for one video each. -/
def twoRequests : List WebAction :=
  [.page (.getVisuals "type=video&subtype=flv&ammount=1".toList 3 [0] [1]),
    .page (.getVisuals "type=video&subtype=flv&ammount=1".toList 4 [1] [0])]

theorem stamped_in_turn_twoVideos :
    ∃ q ∈ trail (webStep mediaDirectory) (startWeb twoVideos) twoRequests, q.2.Stamps 1 ∨
      (2 : Int) = mediasubtypeAvi ∧ 1 ∉ matching q.1.visuals ⟨0, 2, 1⟩ := by
  have hruns : returns (fun _ => true)
      (run (webStep mediaDirectory) (startWeb twoVideos) twoRequests) = true := by decide +kernel
  obtain ⟨t, ht, -⟩ := exists_of_returns hruns
  have hstart : run (webStep mediaDirectory) (startWeb twoVideos) [] = .ok (startWeb twoVideos) := rfl
  exact stamped_in_turn (r := ⟨0, 2, 1⟩) hstart ht (by decide) (by decide +kernel)

end PlanetariumFD
