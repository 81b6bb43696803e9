import PlanetariumFD.Detector.System

/-!
# The names of the exported files

A call of `saveThreadImages` or `saveThreadVideo` takes the next value of
`image_series_cnt` and builds its file names from it. Calls of different jobs run
at the same time, so a step is the start of a call or one turn of its loop, on
whatever the shared state is by then.
-/

namespace PlanetariumFD

open Outcome Transition

/-! ## Names -/

/-- What a file name is built from, `base_ofilename` apart. -/
inductive OutputName
  | image (mySeriesNum imageNum : Nat)
  | video (mySeriesNum : Nat) (isSmoothVideo : Bool)
  deriving DecidableEq, Repr

namespace OutputName

def mySeriesNum : OutputName → Nat
  | image n _ => n
  | video n _ => n

/-- What `<<` writes for a count. -/
def decimal (n : Nat) : List Char := Nat.toDigits 10 n

/-- `filename.str()` -/
def text (baseOfilename : List Char) : OutputName → List Char
  | image n imageNum =>
    baseOfilename ++ "__".toList ++ decimal n ++ "_".toList ++ decimal imageNum ++ ".jpg".toList
  | video n isSmoothVideo =>
    baseOfilename ++ "__".toList ++ decimal n ++
      (if isSmoothVideo then "_smoothed".toList else []) ++ ".avi".toList

/-- `filename_with_path` -/
def path (oPath baseOfilename : List Char) (nm : OutputName) : List Char :=
  oPath ++ "\\".toList ++ nm.text baseOfilename

end OutputName

/-- The loops over `tmpbuf1` and `tmpbuf2`. -/
def onlyAlnum (tmpbuf : List Char) : List Char := tmpbuf.map fun c => if c.isAlphanum then c else '_'

/-- `date_and_time2string`, given what the clock wrote to the two buffers. -/
def dateAndTime2string (str tmpbuf1 tmpbuf2 : List Char) : List Char :=
  str ++ onlyAlnum tmpbuf1 ++ "__".toList ++ onlyAlnum tmpbuf2

/-- The size of `tmpbuf1` and `tmpbuf2`. -/
def tmpbufSize : Nat := 128

namespace OutputName

/-- What follows the series number. -/
def suffix : OutputName → List Char
  | image _ imageNum => '_' :: (decimal imageNum ++ ".jpg".toList)
  | video _ isSmoothVideo => (if isSmoothVideo then "_smoothed".toList else []) ++ ".avi".toList

theorem text_eq (baseOfilename : List Char) (nm : OutputName) :
    nm.text baseOfilename =
      baseOfilename ++ "__".toList ++ (decimal nm.mySeriesNum ++ nm.suffix) := by
  cases nm with
  | image n imageNum =>
    show baseOfilename ++ "__".toList ++ decimal n ++ ['_'] ++ decimal imageNum ++ ".jpg".toList = _
    simp only [List.append_assoc]
    rfl
  | video n isSmoothVideo =>
    show baseOfilename ++ "__".toList ++ decimal n ++ (if isSmoothVideo then "_smoothed".toList else [])
      ++ ".avi".toList = _
    simp only [List.append_assoc]
    rfl

/-- A number is the digits before the first character that is none. -/
theorem takeWhile_decimal_append (n : Nat) {u : List Char} (hu : ∀ c ∈ u.head?, c.isDigit = false) :
    (decimal n ++ u).takeWhile Char.isDigit = decimal n := by
  have hdigits : ∀ c ∈ decimal n, c.isDigit = true := fun c hc =>
    Nat.isDigit_of_mem_toDigits (by omega) (by omega) hc
  rw [List.takeWhile_append_of_pos hdigits]
  cases u with
  | nil => rw [List.takeWhile_nil, List.append_nil]
  | cons c u =>
    rw [List.takeWhile_cons_of_neg (by rw [hu c rfl]; exact Bool.false_ne_true), List.append_nil]

theorem decimal_append_inj {m n : Nat} {u v : List Char} (hu : ∀ c ∈ u.head?, c.isDigit = false)
    (hv : ∀ c ∈ v.head?, c.isDigit = false) (h : decimal m ++ u = decimal n ++ v) :
    m = n ∧ u = v := by
  have hdigits : decimal m = decimal n := by
    rw [← takeWhile_decimal_append m hu, h, takeWhile_decimal_append n hv]
  refine ⟨?_, ?_⟩
  · calc
      m = Nat.ofDigitChars 10 (decimal m) 0 := Nat.ofDigitChars_ten_toDigits.symm
      _ = Nat.ofDigitChars 10 (decimal n) 0 := by rw [hdigits]
      _ = n := Nat.ofDigitChars_ten_toDigits
  · rw [hdigits] at h
    exact List.append_cancel_left h

theorem suffix_head (nm : OutputName) : ∀ c ∈ nm.suffix.head?, c.isDigit = false := by
  intro c hc
  cases nm with
  | image n imageNum =>
    cases hc
    rfl
  | video n isSmoothVideo =>
    cases isSmoothVideo <;> cases hc <;> rfl

/-- A number is not empty, so no image is taken for a smoothed video. -/
theorem suffix_image_ne_video (n n' imageNum : Nat) (isSmoothVideo : Bool) :
    (image n imageNum).suffix ≠ (video n' isSmoothVideo).suffix := by
  intro h
  cases isSmoothVideo with
  | false => exact absurd (List.cons.inj h).1 (by decide)
  | true =>
    have hrest : decimal imageNum ++ ".jpg".toList = "smoothed.avi".toList := (List.cons.inj h).2
    have hdigits := takeWhile_decimal_append imageNum (u := ".jpg".toList) (by
      intro c hc
      cases hc
      rfl)
    rw [hrest] at hdigits
    exact Nat.toDigits_ne_nil hdigits.symm

theorem text_injective (baseOfilename : List Char) :
    Function.Injective (text baseOfilename) := by
  intro nm nm' h
  rw [text_eq, text_eq] at h
  obtain ⟨hseries, hsuffix⟩ := decimal_append_inj nm.suffix_head nm'.suffix_head
    (List.append_cancel_left h)
  cases nm with
  | image n imageNum =>
    cases nm' with
    | image n' imageNum' =>
      have hnum := decimal_append_inj (u := ".jpg".toList) (v := ".jpg".toList)
        (fun c hc => by cases hc; rfl) (fun c hc => by cases hc; rfl) (List.cons.inj hsuffix).2
      exact congrArg₂ image hseries hnum.1
    | video n' isSmoothVideo => exact absurd hsuffix (suffix_image_ne_video _ _ _ _)
  | video n isSmoothVideo =>
    cases nm' with
    | image n' imageNum => exact absurd hsuffix.symm (suffix_image_ne_video _ _ _ _)
    | video n' isSmoothVideo' =>
      refine congrArg₂ video hseries ?_
      cases isSmoothVideo <;> cases isSmoothVideo' <;> first
        | rfl
        | exact absurd (List.cons.inj hsuffix).1 (by decide)

end OutputName

/-! ## Calls -/

/-- The locals of a call, and where it stands. A video counts its turns too, and
does not use the count. -/
structure SavingCall where
  mySeriesNum : Nat
  imageNum : Nat
  pc : JobPC
  deriving DecidableEq, Repr

/-- The calls so far, and the names they built. -/
structure Saving where
  imageSeriesCnt : Nat
  calls : List SavingCall
  names : List OutputName
  deriving DecidableEq, Repr

/-- A call starts, or call `k` takes a turn of its loop; `g` is the shared state then. -/
inductive SavingAction (F : Type)
  | call (g : Shared F) (th : FDFaceThread) (isOk : Bool) (e : Export)
  | turn (k : Nat) (g : Shared F) (isOk : Bool)

/-- The tests before `++image_series_cnt`. -/
def takesSeries {F : Type} (cfg : Config F) (th : FDFaceThread) : Export → Bool
  | .images => th.pFaces ≠ []
  | .video _ => ¬ (th.pFaces.length : Int) < cfg.minFramesForVideo

/-- The name built before the loop: that of a video, unless the call returns first. -/
def startNames (th : FDFaceThread) (n : Nat) : Export → List OutputName
  | .images => []
  | .video isSmoothVideo => if th.pFaces = [] then [] else [.video n isSmoothVideo]

/-- The name built in a turn: that of an image, when the entry has the face's frame. -/
def turnNames {F : Type} (g : Shared F) (c : SavingCall) : List OutputName :=
  match c.pc with
  | .walking .images _ (some historyItr) (f :: _) _ =>
    match g.gHistory.get? historyItr with
    | none => []
    | some entry => if entry.frameId < f.frameId then [] else [.image c.mySeriesNum c.imageNum]
  | _ => []

section
variable {F : Type} [FloatOps F]

def savingStep (cfg : Config F) (s : Saving) : SavingAction F → Except Halt Saving
  | .call g th isOk e =>
    if takesSeries cfg th e then
      if (s.imageSeriesCnt : Int) < intMax then do
        let pc ← orHalt (startExport cfg g th isOk e [])
        .ok {
          imageSeriesCnt := s.imageSeriesCnt + 1
          calls := s.calls ++ [⟨s.imageSeriesCnt + 1, 0, pc⟩]
          names := s.names ++ startNames th (s.imageSeriesCnt + 1) e }
      else .error (.fault .signedOverflow)
    else .ok s
  | .turn k g isOk =>
    match s.calls[k]? with
    | none => .error .disabled
    | some c =>
      match c.pc with
      | .walking e todo historyItr faces saved => do
        let pc ← orHalt (walkHistory cfg g isOk e todo historyItr faces saved)
        .ok { s with
          calls := s.calls.set k { c with imageNum := c.imageNum + 1, pc := pc }
          names := s.names ++ turnNames g c }
      | _ => .error .disabled

/-- No call yet. -/
def startSaving : Saving := ⟨0, [], []⟩

/-! ## Every name is new -/

/-- A call that walks images. -/
def SavingCall.walksImages (c : SavingCall) : Prop :=
  ∃ todo historyItr faces saved, c.pc = .walking .images todo historyItr faces saved

/-- The `k`-th call has series `k + 1`, and the names of a series are those of its call. -/
structure SavingShape (s : Saving) : Prop where
  count : s.imageSeriesCnt = s.calls.length
  limit : (s.imageSeriesCnt : Int) ≤ intMax
  series : ∀ (k : Nat) (c : SavingCall), s.calls[k]? = some c → c.mySeriesNum = k + 1
  upTo : ∀ nm ∈ s.names, nm.mySeriesNum ≤ s.imageSeriesCnt
  images : ∀ (k : Nat) (c : SavingCall), s.calls[k]? = some c → c.walksImages → ∀ nm ∈ s.names,
    nm.mySeriesNum = c.mySeriesNum → ∃ i < c.imageNum, nm = .image c.mySeriesNum i
  nodup : s.names.Nodup

theorem savingShape_start : SavingShape startSaving where
  count := rfl
  limit := by decide
  series k c h := by cases h
  upTo nm h := by cases h
  images k c h := by cases h
  nodup := List.nodup_nil

variable {cfg : Config F} {s t : Saving}

/-- What a step does. -/
inductive SavingEffect (s : Saving) : Saving → Prop
  | refused : SavingEffect s s
  | call {th : FDFaceThread} {e : Export} {pc : JobPC} (limit : (s.imageSeriesCnt : Int) < intMax)
    (started : pc = .saving [] ∨ ∃ historyItr faces, pc = .walking e [] historyItr faces 0) :
    SavingEffect s {
      imageSeriesCnt := s.imageSeriesCnt + 1
      calls := s.calls ++ [⟨s.imageSeriesCnt + 1, 0, pc⟩]
      names := s.names ++ startNames th (s.imageSeriesCnt + 1) e }
  | turn {k c e todo historyItr faces saved pc} {g : Shared F} (get : s.calls[k]? = some c)
    (walks : c.pc = .walking e todo historyItr faces saved)
    (turned : pc = .saving todo ∨
      ∃ historyItr' faces' saved', pc = .walking e todo historyItr' faces' saved') :
    SavingEffect s { s with
      calls := s.calls.set k { c with imageNum := c.imageNum + 1, pc := pc }
      names := s.names ++ turnNames g c }

theorem savingStep_cases {a : SavingAction F} (h : savingStep cfg s a = .ok t) :
    SavingEffect (F := F) s t := by
  cases a with
  | call g th isOk e =>
    simp only [savingStep] at h
    split at h
    · split at h
      · next hlimit =>
        obtain ⟨pc, hpc, h⟩ := bind_eq_ok.mp h
        cases h
        refine .call hlimit ?_
        obtain rfl | ⟨f, fs, p, -, -, -, rfl⟩ := startExport_ok (orHalt_eq_ok.mp hpc)
        · exact .inl rfl
        · exact .inr ⟨_, _, rfl⟩
      · cases h
    · cases h
      exact .refused
  | turn k g isOk =>
    simp only [savingStep] at h
    split at h
    · cases h
    · next c hc =>
      split at h
      · next e todo historyItr faces saved hwalks =>
        obtain ⟨pc, hpc, h⟩ := bind_eq_ok.mp h
        cases h
        refine .turn hc hwalks ?_
        obtain rfl | ⟨f, fs, a, entry, saved', -, -, -, ⟨-, rfl⟩ | ⟨-, rfl⟩⟩ :=
          walkHistory_ok (orHalt_eq_ok.mp hpc)
        · exact .inl rfl
        · exact .inr ⟨_, _, _, rfl⟩
        · exact .inr ⟨_, _, _, rfl⟩
      · cases h

omit [FloatOps F] in
theorem turnNames_cases (g : Shared F) (c : SavingCall) : turnNames g c = [] ∨
    c.walksImages ∧ turnNames g c = [.image c.mySeriesNum c.imageNum] := by
  unfold turnNames
  split
  · next todo historyItr f fs saved hpc =>
    split
    · exact .inl rfl
    · split
      · exact .inl rfl
      · exact .inr ⟨⟨_, _, _, _, hpc⟩, rfl⟩
  · exact .inl rfl

theorem startNames_cases (th : FDFaceThread) (n : Nat) (e : Export) : startNames th n e = [] ∨
    ∃ isSmoothVideo, e = .video isSmoothVideo ∧ startNames th n e = [.video n isSmoothVideo] := by
  cases e with
  | images => exact .inl rfl
  | video isSmoothVideo =>
    by_cases hnil : th.pFaces = []
    · exact .inl (if_pos hnil)
    · exact .inr ⟨isSmoothVideo, rfl, if_neg hnil⟩

theorem mem_startNames {th : FDFaceThread} {n : Nat} {e : Export} {nm : OutputName}
    (h : nm ∈ startNames th n e) :
    ∃ isSmoothVideo, e = .video isSmoothVideo ∧ nm = .video n isSmoothVideo := by
  obtain hnil | ⟨isSmoothVideo, he, hone⟩ := startNames_cases th n e
  · rw [hnil] at h
    cases h
  · rw [hone, List.mem_singleton] at h
    exact ⟨isSmoothVideo, he, h⟩

theorem startNames_nodup (th : FDFaceThread) (n : Nat) (e : Export) : (startNames th n e).Nodup := by
  obtain hnil | ⟨isSmoothVideo, -, hone⟩ := startNames_cases th n e
  · rw [hnil]
    exact List.nodup_nil
  · rw [hone]
    exact List.nodup_singleton _

omit [FloatOps F] in
theorem mem_turnNames {g : Shared F} {c : SavingCall} {nm : OutputName} (h : nm ∈ turnNames g c) :
    c.walksImages ∧ nm = .image c.mySeriesNum c.imageNum := by
  obtain hnil | ⟨himages, hone⟩ := turnNames_cases g c
  · rw [hnil] at h
    cases h
  · rw [hone, List.mem_singleton] at h
    exact ⟨himages, h⟩

omit [FloatOps F] in
theorem turnNames_nodup (g : Shared F) (c : SavingCall) : (turnNames g c).Nodup := by
  obtain hnil | ⟨-, hone⟩ := turnNames_cases g c
  · rw [hnil]
    exact List.nodup_nil
  · rw [hone]
    exact List.nodup_singleton _

namespace SavingShape

omit [FloatOps F] in
theorem series_le (h : SavingShape s) {k : Nat} {c : SavingCall} (hc : s.calls[k]? = some c) :
    c.mySeriesNum ≤ s.imageSeriesCnt := by
  obtain ⟨hlt, -⟩ := List.getElem?_eq_some_iff.mp hc
  rw [h.series k c hc, h.count]
  omega

omit [FloatOps F] in
/-- A call takes a series that no name and no call has. -/
theorem after_call (h : SavingShape s) {th : FDFaceThread} {e : Export} {pc : JobPC}
    (limit : (s.imageSeriesCnt : Int) < intMax)
    (started : pc = .saving [] ∨ ∃ historyItr faces, pc = .walking e [] historyItr faces 0) :
    SavingShape {
      imageSeriesCnt := s.imageSeriesCnt + 1
      calls := s.calls ++ [⟨s.imageSeriesCnt + 1, 0, pc⟩]
      names := s.names ++ startNames th (s.imageSeriesCnt + 1) e } := by
  refine ⟨?_, ?_, fun k c hc => ?_, fun nm hnm => ?_, fun k c hc himages nm hnm hseries => ?_, ?_⟩
  · rw [List.length_append, h.count]
    rfl
  · push_cast
    omega
  · obtain hc | ⟨rfl, rfl⟩ := getElem?_snoc_cases hc
    · exact h.series k c hc
    · exact congrArg (· + 1) h.count
  · obtain hnm | hnm := List.mem_append.mp hnm
    · exact (h.upTo nm hnm).trans (Nat.le_succ _)
    · obtain ⟨isSmoothVideo, -, rfl⟩ := mem_startNames hnm
      exact le_refl _
  · obtain hc | ⟨rfl, rfl⟩ := getElem?_snoc_cases hc
    · obtain hnm | hnm := List.mem_append.mp hnm
      · exact h.images k c hc himages nm hnm hseries
      · obtain ⟨isSmoothVideo, -, rfl⟩ := mem_startNames hnm
        have hle := h.series_le hc
        rw [← hseries] at hle
        exact absurd hle (Nat.not_succ_le_self _)
    · obtain hnm | hnm := List.mem_append.mp hnm
      · have hle := h.upTo nm hnm
        rw [hseries] at hle
        exact absurd hle (Nat.not_succ_le_self _)
      · -- a call that walks images has named none before
        obtain ⟨isSmoothVideo, rfl, -⟩ := mem_startNames hnm
        obtain ⟨todo, historyItr, faces, saved, hpc⟩ := himages
        obtain rfl | ⟨historyItr', faces', rfl⟩ := started
        · cases hpc
        · cases hpc
  · refine List.nodup_append.mpr ⟨h.nodup, startNames_nodup _ _ _, fun a ha b hb hab => ?_⟩
    obtain ⟨isSmoothVideo, -, rfl⟩ := mem_startNames hb
    have hle := h.upTo a ha
    rw [hab] at hle
    exact absurd hle (Nat.not_succ_le_self _)

omit [FloatOps F] in
/-- A turn counts on, so its image has a number that its call has not used. -/
theorem after_turn (h : SavingShape s) {k : Nat} {c : SavingCall} {e : Export} {todo : List Export}
    {historyItr : Option Nat} {faces : List Face} {saved : Int} {pc : JobPC} (g : Shared F)
    (get : s.calls[k]? = some c) (walks : c.pc = .walking e todo historyItr faces saved)
    (turned : pc = .saving todo ∨
      ∃ historyItr' faces' saved', pc = .walking e todo historyItr' faces' saved') :
    SavingShape { s with
      calls := s.calls.set k { c with imageNum := c.imageNum + 1, pc := pc }
      names := s.names ++ turnNames g c } := by
  refine ⟨?_, h.limit, fun j c' hc' => ?_, fun nm hnm => ?_, fun j c' hc' himages nm hnm hseries => ?_,
    ?_⟩
  · rw [List.length_set]
    exact h.count
  · obtain ⟨rfl, rfl⟩ | ⟨-, hc'⟩ := getElem?_set_cases hc'
    · exact h.series _ c get
    · exact h.series j c' hc'
  · obtain hnm | hnm := List.mem_append.mp hnm
    · exact h.upTo nm hnm
    · obtain ⟨-, rfl⟩ := mem_turnNames hnm
      exact h.series_le get
  · obtain ⟨rfl, rfl⟩ | ⟨hj, hc'⟩ := getElem?_set_cases hc'
    · -- the call that turns: it walked images before as well
      have hbefore : c.walksImages := by
        obtain ⟨todo', historyItr', faces', saved', hpc⟩ := himages
        replace hpc : pc = .walking .images todo' historyItr' faces' saved' := hpc
        obtain rfl | ⟨historyItr₁, faces₁, saved₁, rfl⟩ := turned
        · cases hpc
        · obtain ⟨rfl, -⟩ := JobPC.walking.inj hpc
          exact ⟨_, _, _, _, walks⟩
      obtain hnm | hnm := List.mem_append.mp hnm
      · obtain ⟨i, hi, rfl⟩ := h.images _ c get hbefore nm hnm hseries
        exact ⟨i, Nat.lt_succ_of_lt hi, rfl⟩
      · obtain ⟨-, rfl⟩ := mem_turnNames hnm
        exact ⟨c.imageNum, Nat.lt_succ_self _, rfl⟩
    · obtain hnm | hnm := List.mem_append.mp hnm
      · exact h.images j c' hc' himages nm hnm hseries
      · obtain ⟨-, rfl⟩ := mem_turnNames hnm
        have hsame : c.mySeriesNum = c'.mySeriesNum := hseries
        rw [h.series k c get, h.series j c' hc'] at hsame
        exact absurd (Nat.succ.inj hsame).symm hj
  · refine List.nodup_append.mpr ⟨h.nodup, turnNames_nodup g c, fun a ha b hb hab => ?_⟩
    obtain ⟨himages, rfl⟩ := mem_turnNames hb
    obtain ⟨i, hi, heq⟩ := h.images k c get himages a ha (by rw [hab]; rfl)
    rw [hab] at heq
    cases heq
    exact absurd hi (lt_irrefl _)

omit [FloatOps F] in
theorem after (h : SavingShape s) (e : SavingEffect (F := F) s t) : SavingShape t := by
  cases e with
  | refused => exact h
  | call limit started => exact h.after_call limit started
  | @turn k c e todo historyItr faces saved pc g get walks turned =>
    exact h.after_turn g get walks turned

end SavingShape

theorem savingShape_of_run {as : List (SavingAction F)}
    (h : run (savingStep cfg) startSaving as = .ok s) : SavingShape s :=
  run_invariant (fun _ _ _ hs hst => hs.after (savingStep_cases hst)) savingShape_start h

end

end PlanetariumFD
