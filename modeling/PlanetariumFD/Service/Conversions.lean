import PlanetariumFD.Service.WebSystem

/-!
# Conversions, from registration to request

The rows that wait for the converter are a set, which a registration adds to and an
update takes from, each update one row. A row the detector registered is handed out as
flv only after ffmpeg has run on its file, if updates take effect only after a
conversion was concluded.
-/

namespace PlanetariumFD

open Outcome Transition QueryString StringLiteral OrderBy

/-! ## The rows that wait -/

/-- The rows that `query` may select. -/
def pendingRows (visuals : NodeList Visual) : Finset Nat :=
  visuals.addrs.toFinset.filter fun id => isPending visuals id = true

/-- An update that takes effect. -/
def WebAction.marksRow : WebAction → Bool
  | .converter (.update calls) => calls.takesEffect
  | _ => false

/-- A registration that gives a row with `mediasubtype` 1. -/
def WebAction.addsPending : WebAction → Bool
  | .page (.srcAdded query _ _) =>
    match srcAdded (magicGet query) with
    | .ok row => row.mediasubtype = mediasubtypeAvi
    | .error _ => false
  | _ => false

section
variable {visuals visuals' : NodeList Visual}

theorem mem_pendingRows {id : Nat} : id ∈ pendingRows visuals ↔ isPending visuals id = true := by
  unfold pendingRows
  rw [Finset.mem_filter, List.mem_toFinset]
  refine ⟨fun h => h.2, fun h => ⟨?_, h⟩⟩
  obtain ⟨v, hv, -⟩ := isPending_iff.mp h
  exact NodeList.get?_isSome_iff.mp (by rw [hv]; rfl)

theorem pendingRows_congr (h : ∀ id, isPending visuals' id = isPending visuals id) :
    pendingRows visuals' = pendingRows visuals := by
  ext id
  rw [mem_pendingRows, mem_pendingRows, h]

/-- A stamp changes nothing for the converter. -/
theorem isPending_stampRows (stamped : List Nat) (now : Int) (id : Nat) :
    isPending (stampRows visuals stamped now) id = isPending visuals id := by
  unfold isPending
  rw [get?_stampRows]
  cases visuals.get? id with
  | none => rfl
  | some v =>
    rw [Option.map_some]
    dsimp only
    split <;> rfl

/-- An update that takes effect takes its row out, and no other. -/
theorem pendingRows_updateVisual (id : Nat) {c : UpdateCalls} (hc : c.takesEffect = true) :
    pendingRows (updateVisual visuals id c) = (pendingRows visuals).erase id := by
  ext id'
  rw [mem_pendingRows, isPending_updateVisual, Finset.mem_erase, mem_pendingRows, and_comm]
  simp only [hc, true_and, ne_eq]

theorem fresh_not_mem_pendingRows : visuals.fresh ∉ pendingRows visuals := by
  intro h
  have hmem := List.mem_toFinset.mp (Finset.mem_filter.mp h).1
  exact absurd (NodeList.addr_lt_fresh hmem) (lt_irrefl _)

/-- A new row is pending if it is an avi. -/
theorem pendingRows_pushBack (v : Visual) : pendingRows (visuals.pushBack v) =
    if v.mediasubtype = some 1 then insert visuals.fresh (pendingRows visuals)
      else pendingRows visuals := by
  have hfresh : (visuals.pushBack v).get? visuals.fresh = some v :=
    NodeList.get?_eq_some_iff.mpr (NodeList.mem_pushBack_nodes.mpr (.inr rfl))
  have hothers : ∀ id, id ≠ visuals.fresh →
      isPending (visuals.pushBack v) id = isPending visuals id := by
    intro id hid
    unfold isPending
    obtain hlt | hgt := lt_or_gt_of_ne hid
    · rw [NodeList.get?_pushBack_of_lt _ hlt]
    -- neither table has a row beyond its ids
    · have hnone : visuals.get? id = none := NodeList.get?_eq_none_iff.mpr fun hmem =>
        absurd (NodeList.addr_lt_fresh hmem) (by omega)
      have hnone' : (visuals.pushBack v).get? id = none := NodeList.get?_eq_none_iff.mpr fun hmem =>
        absurd (NodeList.addr_lt_fresh hmem) (by rw [NodeList.pushBack_fresh]; omega)
      rw [hnone, hnone']
  ext id
  by_cases hid : id = visuals.fresh
  · subst hid
    rw [mem_pendingRows, isPending_iff, hfresh]
    by_cases hv : v.mediasubtype = some 1
    · rw [if_pos hv]
      exact iff_of_true ⟨v, rfl, hv⟩ (Finset.mem_insert_self _ _)
    · rw [if_neg hv]
      exact iff_of_false (by rintro ⟨v', hv', hsub⟩; cases hv'; exact hv hsub)
        fresh_not_mem_pendingRows
  · rw [mem_pendingRows, hothers id hid, ← mem_pendingRows]
    split
    · rw [Finset.mem_insert, or_iff_right hid]
    · rfl

end

section
variable {cfg : ConverterConfig} {visuals : NodeList Visual} {s t : WebSystem} {a : WebAction}

/-- What a step does to the number of rows that wait. -/
theorem WebEffect.pending_card (e : WebEffect cfg s a t) (h : ConverterShape cfg s.converter) :
    (pendingRows t.visuals).card + (if a.marksRow = true then 1 else 0) =
      (pendingRows s.visuals).card + (if a.addsPending = true then 1 else 0) := by
  cases e with
  | @converter a c own effect =>
    cases effect with
    | @updated row rest attempt calls pc =>
      show (pendingRows (updateVisual s.visuals row.id calls)).card +
        (if calls.takesEffect = true then 1 else 0) = (pendingRows s.visuals).card + 0
      by_cases hc : calls.takesEffect = true
      · obtain ⟨-, hrow⟩ := h.inHand_eq (by rw [pc]; rfl : s.converter.pc.inHand = row :: rest)
        have hpending := mem_pendingRows.mpr (hrow row (List.mem_singleton_self row)).isPending
        rw [if_pos hc, pendingRows_updateVisual _ hc]
        exact Finset.card_erase_add_one hpending
      · rw [if_neg hc, updateVisual, if_neg hc]
    | srcAdded => exact absurd rfl (own _)
    | _ => rfl
  | refusedRequest request => rfl
  | answered request answer =>
    exact congrArg (fun ids : Finset Nat => ids.card + 0)
      (pendingRows_congr fun id => isPending_stampRows _ _ id)
  | refusedFile request =>
    simp [WebAction.marksRow, WebAction.addsPending, request]
  | @registered query creationTime lastupdated row request =>
    simp only [WebAction.marksRow, WebAction.addsPending, request, decide_eq_true_eq,
      pendingRows_pushBack, AddedRow.toVisual, Option.some.injEq, Bool.false_eq_true, if_false]
    by_cases hrow : row.mediasubtype = mediasubtypeAvi
    · have hone : row.mediasubtype = 1 := hrow
      rw [if_pos hrow, if_pos hone, Finset.card_insert_of_notMem fresh_not_mem_pendingRows]
    · have hone : row.mediasubtype ≠ 1 := hrow
      rw [if_neg hrow, if_neg hone]

/-- No registered avi is lost and none is marked twice: the rows that wait and the
updates so far are the rows that waited at first and those registered since. -/
theorem conversions_of_run {as : List WebAction}
    (h : run (webStep cfg) (startWeb visuals) as = .ok s) :
    (pendingRows s.visuals).card + as.countP WebAction.marksRow =
      (pendingRows visuals).card + as.countP WebAction.addsPending := by
  have hbooks := run_balance (C := fun _ _ => True)
    (fun s : WebSystem => (pendingRows s.visuals).card)
    (fun a : WebAction => if a.addsPending = true then 1 else 0)
    (fun a : WebAction => if a.marksRow = true then 1 else 0)
    (fun _ _ _ hs _ hst => (webStep_cases hst).shape hs)
    (fun _ _ _ hs _ hst => (webStep_cases hst).pending_card hs) (.of_inHand_nil rfl)
    (fun _ _ => trivial) h
  rwa [sum_indicator, sum_indicator] at hbooks

end

theorem conversions_of_run_oneConversion :
    ∃ s, run (webStep mediaDirectory) (startWeb oneVisual) oneConversion = .ok s ∧
      (pendingRows s.visuals).card + oneConversion.countP WebAction.marksRow =
        (pendingRows oneVisual).card + oneConversion.countP WebAction.addsPending := by
  have hruns : returns (fun _ => true)
      (run (webStep mediaDirectory) (startWeb oneVisual) oneConversion) = true := by decide +kernel
  obtain ⟨s, hs, -⟩ := exists_of_returns hruns
  exact ⟨s, hs, conversions_of_run hs⟩

/-! ## From the detector to the page -/

/-- In the whole, the update takes effect only when the conversion was concluded. -/
def WebUpdatesConcluded (s : WebSystem) : WebAction → Prop
  | .converter a => UpdatesConcluded s.converter a
  | .page _ => True

/-- ffmpeg was started for the file and has ended. -/
def HasRun (cfg : ConverterConfig) (processes : List Process) (mediaName : List Char) : Prop :=
  ∃ p ∈ processes, p.hasEnded = true ∧
    p.commandLine = (Process.ofRow cfg (cStr mediaName)).commandLine

/-- The row stands for the file, and it waits for the converter or ffmpeg has run. -/
structure OnItsWay (cfg : ConverterConfig) (id : Nat) (mediaName : List Char) (s : WebSystem) :
    Prop where
  row : ∃ v, s.visuals.get? id = some v ∧ v.filepath = some mediaName
  waits : isPending s.visuals id = true ∨ HasRun cfg s.processes mediaName

section
variable {cfg : ConverterConfig} {visuals : NodeList Visual} {s t u : WebSystem} {a : WebAction}
  {mediaName : List Char} {id : Nat}

/-- A process that has ended stays ended. -/
theorem ConverterEffect.hasRun {s c : Converter} {a : ConverterAction}
    (e : ConverterEffect cfg s a c) (h : HasRun cfg s.processes mediaName) :
    HasRun cfg c.processes mediaName := by
  obtain ⟨p, hp, hended, hline⟩ := h
  cases e with
  | started pc => exact ⟨p, List.mem_append_left _ hp, hended, hline⟩
  | @processEnds k q process =>
    obtain ⟨j, hj⟩ := List.mem_iff_getElem?.mp hp
    obtain ⟨p', hp', hline', hended'⟩ := getElem?_set_ended process hj
    exact ⟨p', List.mem_of_getElem? hp', hended' hended, hline'.trans hline⟩
  | _ => exact ⟨p, hp, hended, hline⟩

/-- A row leaves the queue by an update, and that finds its own process ended. -/
theorem ConverterEffect.waits {s c : Converter} {a : ConverterAction} {v : Visual}
    (e : ConverterEffect cfg s a c) (shape : ConverterShape cfg s) (hdone : UpdatesConcluded s a)
    (hv : s.visuals.get? id = some v) (hname : v.filepath = some mediaName)
    (h : isPending s.visuals id = true) :
    isPending c.visuals id = true ∨ HasRun cfg c.processes mediaName := by
  by_cases hstill : isPending c.visuals id = true
  · exact .inl hstill
  · obtain ⟨row, rest, attempt, calls, rfl, hpc, rfl, heffect⟩ := e.marks h (by simpa using hstill)
    obtain ⟨-, -, k, -, p, v', f, -, -, hp, hended, hv', hf, hline⟩ :=
      shape.ownProcessEnded hpc (hdone calls rfl heffect row rest attempt hpc)
    obtain rfl := Option.some.inj (hv.symm.trans hv')
    obtain rfl := Option.some.inj (hname.symm.trans hf)
    exact .inr (e.hasRun ⟨p, List.mem_of_getElem? hp, hended, hline⟩)

theorem WebEffect.onItsWay (e : WebEffect cfg s a t) (shape : ConverterShape cfg s.converter)
    (hdone : WebUpdatesConcluded s a) (h : OnItsWay cfg id mediaName s) :
    OnItsWay cfg id mediaName t := by
  obtain ⟨v, hv, hname⟩ := h.row
  obtain ⟨v', hv', hle⟩ := le_of_tableRows_le (e.tableRows_le shape) hv
  have hbecomes : v.Becomes v' := hle
  refine ⟨⟨v', hv', hbecomes.filepath.trans hname⟩, ?_⟩
  cases e with
  | converter own effect =>
    obtain hpending | hrun := h.waits
    · exact effect.waits shape hdone hv hname hpending
    · exact .inr (effect.hasRun hrun)
  | refusedRequest request => exact h.waits
  | answered request answer => exact h.waits.imp_left fun hp => by rw [isPending_stampRows, hp]
  | refusedFile request => exact h.waits
  | registered request => exact h.waits.imp_left (isPending_pushBack _)

/-- A text without a dot before the one in front of another text without dots. -/
theorem stem_unique {stem stem' extension extension' : List Char} (h : '.' ∉ stem)
    (h' : '.' ∉ extension) (heq : stem ++ '.' :: extension = stem' ++ '.' :: extension') :
    stem' = stem ∧ extension' = extension := by
  have hcount := congrArg (List.count '.') heq
  simp only [List.count_append, List.count_cons_self, List.count_eq_zero_of_not_mem h,
    List.count_eq_zero_of_not_mem h'] at hcount
  have hstem' : '.' ∉ stem' := List.count_eq_zero.mp (by omega)
  have htake : ∀ {l m : List Char}, '.' ∉ l → (l ++ '.' :: m).takeWhile (· ≠ '.') = l := by
    intro l m hl
    have hall : ∀ c ∈ l, decide (c ≠ '.') = true := fun c hc => by
      rw [decide_eq_true_eq]
      rintro rfl
      exact hl hc
    rw [List.takeWhile_append_of_pos hall, List.takeWhile_cons_of_neg (by simp), List.append_nil]
  have hstem : stem = stem' := by rw [← htake h, heq, htake hstem']
  subst hstem
  exact ⟨rfl, (List.cons.inj (List.append_cancel_left heq)).2.symm⟩

/-- What the pages store of a video the detector registers. -/
theorem srcAdded_video {e : Endpoint} {stem url : List Char} (hname : IsName stem)
    (hurl : registerOutputFile e.serverUrl (stem ++ ".avi".toList) = .ok url) :
    srcAdded (magicGet (e.queryString url)) = .ok ⟨stem, mediatypeVideo, mediasubtypeAvi, []⟩ := by
  have havi : ".avi".toList = '.' :: "avi".toList := by decide
  have hvideo : mediaTypeOf "avi".toList = some "video".toList := by decide
  rw [havi] at hurl
  obtain ⟨stem', extension', type, heq, hstem, htype, rfl⟩ := registerOutputFile_ok hurl
  obtain ⟨rfl, rfl⟩ := stem_unique (hname.not_mem (by decide)) (by decide) heq
  obtain rfl := Option.some.inj (hvideo.symm.trans htype)
  rw [magicGet, queryString_append, srcAdded_of_isPlain hstem (hname.not_isCut e)
    (hname.not_mem (by decide)) hname.isPlain (.inl rfl) hvideo]
  rfl

/-- A video that the detector registers is handed out as flv only after ffmpeg was
called for its file and has ended, in whatever order the programs take their steps. -/
theorem served_after_conversion {e : Endpoint} {stem url : List Char} {creationTime : Int}
    {lastupdated : Option Int} {as bs : List WebAction} {r : VisualsRequest} {now : Int}
    {stamped returned : List Nat} (hpath : IsInert cfg.sMediaPath) (hname : IsName stem)
    (hurl : registerOutputFile e.serverUrl (stem ++ ".avi".toList) = .ok url)
    (hbefore : run (webStep cfg) (startWeb visuals) as = .ok s)
    (hadd : webStep cfg s (.page (.srcAdded (e.queryString url) creationTime lastupdated)) = .ok t)
    (hafter : run (webStep cfg) t bs = .ok u)
    (hupdates : Throughout (webStep cfg) WebUpdatesConcluded t bs)
    (hanswer : IsAnswer u.visuals r now stamped returned)
    (hflv : r.mediasubtype = mediasubtypeFlv) (hserved : s.visuals.fresh ∈ returned) :
    ∃ p ∈ u.processes, p.hasEnded = true ∧ p.arguments = ffmpegArguments cfg stem := by
  have hrow := srcAdded_video hname hurl
  have hstart : OnItsWay cfg s.visuals.fresh stem t := by
    simp only [webStep, visualsStep, hrow] at hadd
    cases hadd
    have hget := (NodeList.get?_eq_some_iff (l := s.visuals.pushBack
      ((⟨stem, mediatypeVideo, mediasubtypeAvi, []⟩ : AddedRow).toVisual creationTime lastupdated))).mpr
        (NodeList.mem_pushBack_nodes.mpr (.inr rfl))
    exact ⟨⟨_, hget, rfl⟩, .inl (isPending_iff.mpr ⟨_, hget, rfl⟩)⟩
  have hshape : ConverterShape cfg t.converter := (webStep_cases hadd).shape (shape_of_webRun hbefore)
  obtain ⟨-, hway⟩ := run_invariant_of_throughout
    (P := fun s : WebSystem => ConverterShape cfg s.converter ∧ OnItsWay cfg _ stem s)
    (fun _ _ _ hs hc hst => ⟨(webStep_cases hst).shape hs.1,
      (webStep_cases hst).onItsWay hs.1 hc hs.2⟩) ⟨hshape, hstart⟩ hafter hupdates
  -- a row that is handed out as flv waits no longer
  have hselect := hanswer.select
  rw [matching_stampRows] at hselect
  obtain ⟨-, hselects⟩ := List.mem_filter.mp (hselect.subset _ hserved)
  obtain ⟨v, hv, -⟩ := hway.row
  rw [hv, Option.any_some, VisualsRequest.selects, decide_eq_true_eq, hflv] at hselects
  obtain hpending | ⟨p, hp, hended, hline⟩ := hway.waits
  · obtain ⟨v', hv', havi⟩ := isPending_iff.mp hpending
    obtain rfl := Option.some.inj (hv.symm.trans hv')
    exact absurd (havi.symm.trans hselects.2) (by decide)
  · refine ⟨p, hp, hended, ?_⟩
    have hinert : IsInert stem := ⟨hname.not_mem (by decide), hname.not_mem (by decide)⟩
    rw [Process.arguments, hline, ← Process.arguments, cStr_of_not_mem hinert.2]
    exact arguments_of_inert hpath hinert

end

/-- A video named `2` has been registered. -/
def oneVideo : WebSystem :=
  startWeb (NodeList.empty.pushBack
    ((⟨"2".toList, mediatypeVideo, mediasubtypeAvi, []⟩ : AddedRow).toVisual 5 (some 5)))

/-- Its conversion up to the update. -/
def videoConverted : List WebAction :=
  [.converter (.query (.selected (some 0))), .converter (.createProcess true),
    .converter (.processEnds 0), .converter (.wait .object0)]

theorem served_after_conversion_oneVideo : ∃ u,
    run (webStep mediaDirectory) oneVideo
      (videoConverted ++ [.converter (.update ⟨true, true, true, true, true⟩)]) = .ok u ∧
    IsAnswer u.visuals ⟨0, 2, 1⟩ 9 [0] [0] ∧
    ∃ p ∈ u.processes, p.hasEnded = true ∧ p.arguments = ffmpegArguments mediaDirectory "2".toList := by
  obtain ⟨url, hurl⟩ : ∃ url,
      registerOutputFile localEndpoint.serverUrl ("2".toList ++ ".avi".toList) = .ok url := ⟨_, rfl⟩
  have hname : IsName "2".toList := .of_all rfl
  have hadd : webStep mediaDirectory (startWeb .empty)
      (.page (.srcAdded (localEndpoint.queryString url) 5 (some 5))) = .ok oneVideo := by
    simp only [webStep, visualsStep, srcAdded_video hname hurl]
    rfl
  have hruns : returns (fun w : WebSystem =>
        decide (w.pc = .converted ⟨0, "2".toList⟩ [] (.waited 0 .object0)) &&
        returns (fun u : WebSystem => decide (IsAnswer u.visuals ⟨0, 2, 1⟩ 9 [0] [0]))
          (webStep mediaDirectory w (.converter (.update ⟨true, true, true, true, true⟩))))
      (run (webStep mediaDirectory) oneVideo videoConverted) = true := by decide +kernel
  obtain ⟨w, hw, hruns⟩ := exists_of_returns hruns
  obtain ⟨hpc, hruns⟩ := Bool.and_eq_true_iff.mp hruns
  obtain ⟨u, hu, hanswer⟩ := exists_of_returns hruns
  replace hpc := of_decide_eq_true hpc
  replace hanswer := of_decide_eq_true hanswer
  have hrun := run_snoc_iff.mpr ⟨w, hw, hu⟩
  -- the one update comes after a wait that found the process ended
  have hupdates : Throughout (webStep mediaDirectory) WebUpdatesConcluded oneVideo
      (videoConverted ++ [.converter (.update ⟨true, true, true, true, true⟩)]) := by
    refine (throughout_snoc_iff hw _).mpr ⟨?_, ?_⟩
    · rintro ⟨v, a⟩ hq
      obtain ⟨bs, cs, has, -⟩ := mem_trail hq
      have ha : a ∈ videoConverted := has ▸ List.mem_append_right _ List.mem_cons_self
      simp only [videoConverted, List.mem_cons, List.not_mem_nil, or_false] at ha
      obtain rfl | rfl | rfl | rfl := ha <;> exact fun _ h => by cases h
    · rintro calls - - row rest attempt hpc'
      cases hpc.symm.trans hpc'
      trivial
  have hbefore : run (webStep mediaDirectory) (startWeb .empty) [] = .ok (startWeb .empty) := rfl
  exact ⟨u, hrun, hanswer, served_after_conversion ⟨by decide, by decide⟩ hname hurl hbefore hadd
    hrun hupdates hanswer rfl (by decide)⟩

end PlanetariumFD
