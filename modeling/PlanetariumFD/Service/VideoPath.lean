import PlanetariumFD.Detector.OutputNames
import PlanetariumFD.Service.Converter
import PlanetariumFD.Service.Registration

/-!
# From a video's name back to its path

A video's name is split by `registerOutputFile`, decoded by PHP, stored by
`srcAdded.php`, and made a path again by the converter. Names built from a date, a
time and a number have only letters, digits, underscores and one dot, and come
through all four unchanged.
-/

namespace PlanetariumFD

open Outcome Transition QueryString StringLiteral

/-! ## The stem of a video's name -/

/-- Letters, digits and underscores. -/
def isNameChar (c : Char) : Bool := c.isAlphanum || c == '_'

/-- A text of name characters. -/
def IsName (s : List Char) : Prop := ∀ c ∈ s, isNameChar c = true

namespace IsName

theorem append {s t : List Char} (hs : IsName s) (ht : IsName t) : IsName (s ++ t) := fun c hc =>
  (List.mem_append.mp hc).elim (hs c) (ht c)

theorem of_all {s : List Char} (h : s.all isNameChar = true) : IsName s := List.all_eq_true.mp h

variable {s : List Char}

theorem not_mem (h : IsName s) {c : Char} (hc : isNameChar c = false) : c ∉ s := fun hmem => by
  rw [h c hmem] at hc
  cases hc

theorem not_isCut (h : IsName s) (e : Endpoint) : ¬ IsCut e s := by
  refine not_isCut_of_sendable (List.all_eq_true.mpr fun c hc => ?_)
  have hname := h c hc
  unfold isNameChar at hname
  rw [isSendable, hname]
  rfl

theorem isPlain (h : IsName s) : IsPlain s :=
  isPlain_of_forall fun c hc => by
    constructor
    · rintro rfl
      exact h.not_mem (by decide) hc
    · rintro rfl
      exact h.not_mem (by decide) hc

theorem isLiteral (h : IsName s) : IsLiteral s :=
  ⟨h.not_mem (by decide), h.not_mem (by decide)⟩

end IsName

theorem isName_onlyAlnum (tmpbuf : List Char) : IsName (onlyAlnum tmpbuf) := by
  intro c hc
  obtain ⟨d, -, rfl⟩ := List.mem_map.mp hc
  by_cases hd : d.isAlphanum = true
  · rw [if_pos hd, isNameChar, hd]
    rfl
  · rw [if_neg hd]
    rfl

theorem isName_dateAndTime2string (tmpbuf1 tmpbuf2 : List Char) :
    IsName (dateAndTime2string [] tmpbuf1 tmpbuf2) :=
  ((isName_onlyAlnum tmpbuf1).append (.of_all rfl)).append (isName_onlyAlnum tmpbuf2)

theorem isName_decimal (n : Nat) : IsName (OutputName.decimal n) := by
  intro c hc
  have hdigit : c.isDigit = true := Nat.isDigit_of_mem_toDigits (by omega) (by omega) hc
  rw [isNameChar, Char.isAlphanum, hdigit, Bool.or_true, Bool.true_or]

/-- A video's name without `.avi`. -/
def videoStem (baseOfilename : List Char) (n : Nat) (isSmoothVideo : Bool) : List Char :=
  baseOfilename ++ "__".toList ++ OutputName.decimal n ++
    (if isSmoothVideo then "_smoothed".toList else [])

theorem isName_videoStem {baseOfilename : List Char} (h : IsName baseOfilename) (n : Nat)
    (isSmoothVideo : Bool) : IsName (videoStem baseOfilename n isSmoothVideo) := by
  refine ((h.append (.of_all rfl)).append (isName_decimal n)).append ?_
  cases isSmoothVideo with
  | false => exact .of_all rfl
  | true => exact .of_all rfl

theorem videoStem_ne_nil (baseOfilename : List Char) (n : Nat) (isSmoothVideo : Bool) :
    videoStem baseOfilename n isSmoothVideo ≠ [] :=
  List.append_ne_nil_of_left_ne_nil
    (List.append_ne_nil_of_right_ne_nil _ Nat.toDigits_ne_nil) _

/-- `image_series_cnt` has at most ten digits. -/
theorem length_videoStem_le {baseOfilename : List Char} {n : Nat} (hn : (n : Int) ≤ intMax)
    (isSmoothVideo : Bool) :
    (videoStem baseOfilename n isSmoothVideo).length ≤ baseOfilename.length + 21 := by
  have hdigits : (OutputName.decimal n).length ≤ 10 := by
    refine (Nat.length_toDigits_le_iff (by omega) (by omega)).mpr ?_
    unfold intMax at hn
    omega
  have hbars : "__".toList.length = 2 := by decide
  have hsmoothed : (if isSmoothVideo then "_smoothed".toList else []).length ≤ 9 := by
    cases isSmoothVideo <;> decide
  rw [videoStem, List.length_append, List.length_append, List.length_append]
  omega

theorem length_dateAndTime2string_lt {tmpbuf1 tmpbuf2 : List Char}
    (h1 : tmpbuf1.length < tmpbufSize) (h2 : tmpbuf2.length < tmpbufSize) :
    (dateAndTime2string [] tmpbuf1 tmpbuf2).length < 258 := by
  have hbars : "__".toList.length = 2 := by decide
  unfold tmpbufSize at h1 h2
  simp only [dateAndTime2string, onlyAlnum, List.length_append, List.length_map, List.length_nil,
    hbars]
  omega

/-! ## The way through -/

/-- A file's name is registered, its row stored and fetched, and the converter reads
from `path`. The table gives the row a time for `lastupdated`: a row with a NULL there
is never fetched. -/
def Rebuilds (e : Endpoint) (cfg : ConverterConfig) (name path : List Char) : Prop :=
  ∃ url row, registerOutputFile e.serverUrl name = .ok url ∧
    srcAdded (e.pageGet (e.queryString url)) = .ok row ∧
    ∀ id creationTime lastupdated, ∃ fetched,
      fetchRow id (row.toVisual creationTime (some lastupdated)) = .ok fetched ∧
        mediaFile cfg fetched.filepath = path

/-- Any stem of name characters comes through. -/
theorem rebuilds_of_isName (e : Endpoint) (cfg : ConverterConfig) {stem : List Char}
    (hname : IsName stem) (hstem : stem ≠ [])
    (hlength : (stem ++ ".avi".toList).length < 2 ^ 31) :
    Rebuilds e cfg (stem ++ ".avi".toList) (cfg.sMediaPath ++ "\\".toList ++ (stem ++ ".avi".toList)) := by
  have htype : mediaTypeOf "avi".toList = some "video".toList := by decide
  have havi : ".avi".toList = '.' :: "avi".toList := by decide
  have hsent := registerOutputFile_of_append e.serverUrl hstem (by decide) htype (havi ▸ hlength)
  have hrow := srcAdded_of_isPlain hstem (hname.not_isCut e) (hname.not_mem (by decide))
    hname.isPlain (.inr hname.isLiteral : e.magicQuotes = true ∨ _) htype
  rw [← queryString_append] at hrow
  refine ⟨_, _, havi ▸ hsent, hrow, fun id creationTime lastupdated => ⟨⟨id, cStr stem⟩, rfl, ?_⟩⟩
  rw [mediaFile, cStr_of_not_mem (hname.not_mem (by decide)), List.append_assoc _ stem]

section
variable {F : Type} [FloatOps F]

/-- No two files of a process have the same name, and every video's path is found
again from what the service was told. -/
theorem outputNames_of_run {cfg : Config F} {e : Endpoint} {conv : ConverterConfig}
    {tmpbuf1 tmpbuf2 : List Char} {as : List (SavingAction F)} {s : Saving}
    (h : run (savingStep cfg) startSaving as = .ok s) (h1 : tmpbuf1.length < tmpbufSize)
    (h2 : tmpbuf2.length < tmpbufSize) (hpath : conv.sMediaPath = cfg.oPath.toList) :
    (s.names.map (OutputName.text (dateAndTime2string [] tmpbuf1 tmpbuf2))).Nodup ∧
      ∀ n isSmoothVideo, OutputName.video n isSmoothVideo ∈ s.names →
        Rebuilds e conv
          ((OutputName.video n isSmoothVideo).text (dateAndTime2string [] tmpbuf1 tmpbuf2))
          ((OutputName.video n isSmoothVideo).path cfg.oPath.toList
            (dateAndTime2string [] tmpbuf1 tmpbuf2)) := by
  have hshape := savingShape_of_run h
  refine ⟨hshape.nodup.map (OutputName.text_injective _), fun n isSmoothVideo hmem => ?_⟩
  have hn : (n : Int) ≤ intMax := by
    have hle : n ≤ s.imageSeriesCnt := hshape.upTo _ hmem
    have hlimit := hshape.limit
    omega
  have hname := isName_videoStem (isName_dateAndTime2string tmpbuf1 tmpbuf2) n isSmoothVideo
  have hlength : (videoStem (dateAndTime2string [] tmpbuf1 tmpbuf2) n isSmoothVideo ++
      ".avi".toList).length < 2 ^ 31 := by
    have hstem : (videoStem (dateAndTime2string [] tmpbuf1 tmpbuf2) n isSmoothVideo).length ≤
        (dateAndTime2string [] tmpbuf1 tmpbuf2).length + 21 := length_videoStem_le hn isSmoothVideo
    have hbase := length_dateAndTime2string_lt h1 h2
    have havi : ".avi".toList.length = 4 := by decide
    rw [List.length_append, havi]
    omega
  have hrebuilds := rebuilds_of_isName e conv hname (videoStem_ne_nil _ n isSmoothVideo) hlength
  rw [hpath] at hrebuilds
  exact hrebuilds

end

/-- One face in one frame. -/
def oneFace : FDFaceThread := ⟨[⟨⟨10, 10, 20, 20⟩, 1⟩], 1, 0, 1, 0, 0⟩

def oneFrame : Shared ℚ := recorded (fdInit Config.declared 0) oneDetection

def shortVideos : Config ℚ := { Config.declared with oPath := "C:", minFramesForVideo := 1 }

/-- Images and a smoothed video of one face, the two calls overlapping. -/
def overlappingCalls : List (SavingAction ℚ) :=
  [.call oneFrame oneFace true .images, .call oneFrame oneFace true (.video true),
    .turn 0 oneFrame true]

theorem outputNames_overlappingCalls :
    ∃ s, run (savingStep shortVideos) startSaving overlappingCalls = .ok s ∧
      s.names = [.video 2 true, .image 1 0] ∧
      (s.names.map (OutputName.text
        (dateAndTime2string [] "05/21/10".toList "16:03:59".toList))).Nodup ∧
      Rebuilds localEndpoint ⟨"C:".toList, []⟩ "05_21_10__16_03_59__2_smoothed.avi".toList
        "C:\\05_21_10__16_03_59__2_smoothed.avi".toList := by
  have hruns : returns (fun s : Saving => decide (s.names = [.video 2 true, .image 1 0]))
      (run (savingStep shortVideos) startSaving overlappingCalls) = true := by decide +kernel
  obtain ⟨s, hs, hnames⟩ := exists_of_returns hruns
  replace hnames := of_decide_eq_true hnames
  have hdate : "05/21/10".toList.length < tmpbufSize := by decide
  have htime : "16:03:59".toList.length < tmpbufSize := by decide
  have hmedia : (⟨"C:".toList, []⟩ : ConverterConfig).sMediaPath = shortVideos.oPath.toList := rfl
  obtain ⟨hnodup, hvideos⟩ := outputNames_of_run (e := localEndpoint) hs hdate htime hmedia
  exact ⟨s, hs, hnames, hnodup, hvideos 2 true (by rw [hnames]; decide)⟩

end PlanetariumFD
