import PlanetariumFD.CommonLib.ConfigIni
import PlanetariumFD.Service.Converter

/-!
# The checks at start-up

The detector's `initConfiguration` and the converter's `initConfig` refuse to go on
without their directories. Both test what `getIniValue` returns, with different
defaults.
-/

namespace PlanetariumFD

/-! ## The detector -/

/-- The variables `initConfiguration` reads settings into. -/
structure DetectorVariables where
  camId : Int
  opencvRoot : String
  outputPlaybackVideosDir : String
  deriving DecidableEq, Repr

/-- Their initial values; `CV_CAP_ANY` is 0. -/
def DetectorVariables.initial : DetectorVariables := ⟨0, "not initialized", ""⟩

def initConfiguration {F : Type} (sscanf : Sscanf F) (ini : IniFile) (v : DetectorVariables) :
    Int × DetectorVariables :=
  let v := { v with camId := (ini.getIniInt sscanf "main" "CAM_ID" 0).2 }
  let (found, opencvRoot) := ini.getIniValue "main" "OPENCV_ROOT" "not initialized" v.opencvRoot
  let v := { v with opencvRoot := opencvRoot }
  if found = false then (0, v)
  else
    let (found, dir) := ini.getIniValue "main" "OUTPUT_PLAYBACK_VIDEOS_DIR" "not initialized"
      v.outputPlaybackVideosDir
    let v := { v with outputPlaybackVideosDir := dir }
    if found = false then (0, v) else (1, v)

/-! ## The converter -/

/-- The variables the converter's `initConfig` reads settings into. -/
structure ConverterVariables where
  sMediaPath : String
  sFfmpegDir : String
  sqlHostname : String
  sqlUser : String
  sqlPassword : String
  sqlDbName : String
  deriving DecidableEq, Repr

def ConverterVariables.initial : ConverterVariables := ⟨"", "", "", "", "", ""⟩

/-- The settings that the conversions use. -/
def ConverterVariables.config (v : ConverterVariables) : ConverterConfig :=
  ⟨v.sMediaPath.toList, v.sFfmpegDir.toList⟩

namespace CConverter

def initConfig (ini : IniFile) (v : ConverterVariables) : Bool × ConverterVariables :=
  let (found, sMediaPath) := ini.getIniValue "config" "mediapath" "" v.sMediaPath
  let v := { v with sMediaPath := sMediaPath }
  if found = false then (false, v)
  else
    let (found, sFfmpegDir) := ini.getIniValue "config" "ffmegdir" "" v.sFfmpegDir
    let v := { v with sFfmpegDir := sFfmpegDir }
    if found = false then (false, v)
    else
      let v := { v with
        sqlHostname := (ini.getIniValue "config" "sql_hostname" "uninitialized" v.sqlHostname).2
        sqlUser := (ini.getIniValue "config" "sql_user" "uninitialized" v.sqlUser).2
        sqlPassword := (ini.getIniValue "config" "sql_password" "" v.sqlPassword).2
        sqlDbName := (ini.getIniValue "config" "sql_db_name" "uninitialized" v.sqlDbName).2 }
      (true, v)

end CConverter

/-! ## What is refused -/

def IniFile.MissingOrEmpty (ini : IniFile) (pSection pKey : String) : Prop :=
  ini pSection pKey = none ∨ ini pSection pKey = some ""

/-- The detector refuses every file that lacks one of its directories. -/
def DetectorRefuses {F : Type} (sscanf : Sscanf F) (ini : IniFile) : Prop :=
  ini.MissingOrEmpty "main" "OPENCV_ROOT" ∨
      ini.MissingOrEmpty "main" "OUTPUT_PLAYBACK_VIDEOS_DIR" →
    (initConfiguration sscanf ini .initial).1 = 0

def ConverterRefuses (ini : IniFile) : Prop :=
  ini.MissingOrEmpty "config" "mediapath" ∨ ini.MissingOrEmpty "config" "ffmegdir" →
    (CConverter.initConfig ini .initial).1 = false

section
variable {F : Type} {sscanf : Sscanf F} {ini : IniFile}

theorem IniFile.missingOrEmpty_iff {pSection pKey : String} :
    ini.MissingOrEmpty pSection pKey ↔ ini.textOf pSection pKey = none := by
  unfold MissingOrEmpty textOf
  cases ini pSection pKey with
  | none => simp
  | some text => simp [Option.filter]

/-- A call for strings with a default fails on an empty text alone. -/
theorem IniFile.getIniValue_eq_false_iff {pSection pKey pDefultValue value : String}
    (h : pDefultValue ≠ "") :
    (ini.getIniValue pSection pKey pDefultValue value).1 = false ↔ ini pSection pKey = some "" := by
  unfold getIniValue getPrivateProfileStringA
  cases ini pSection pKey with
  | none => simp [h]
  | some text => by_cases ht : text = "" <;> simp [ht]

theorem initConfiguration_eq_zero_iff (v : DetectorVariables) :
    (initConfiguration sscanf ini v).1 = 0 ↔
      ini "main" "OPENCV_ROOT" = some "" ∨ ini "main" "OUTPUT_PLAYBACK_VIDEOS_DIR" = some "" := by
  have hdefault : "not initialized" ≠ "" := by decide
  have hroot : (ini.getIniValue "main" "OPENCV_ROOT" "not initialized" v.opencvRoot).1 = false ↔
      ini "main" "OPENCV_ROOT" = some "" := IniFile.getIniValue_eq_false_iff hdefault
  have hdir : (ini.getIniValue "main" "OUTPUT_PLAYBACK_VIDEOS_DIR" "not initialized"
        v.outputPlaybackVideosDir).1 = false ↔
      ini "main" "OUTPUT_PLAYBACK_VIDEOS_DIR" = some "" := IniFile.getIniValue_eq_false_iff hdefault
  rw [← hroot, ← hdir]
  unfold initConfiguration
  dsimp only
  split
  · next h => exact iff_of_true rfl (.inl h)
  · next h =>
    split
    · next h' => exact iff_of_true rfl (.inr h')
    · next h' => exact iff_of_false one_ne_zero (not_or.mpr ⟨h, h'⟩)

/-- What the detector takes for a directory that is there. -/
theorem detectorRefuses_iff : DetectorRefuses sscanf ini ↔
    ini "main" "OPENCV_ROOT" = some "" ∨ ini "main" "OUTPUT_PLAYBACK_VIDEOS_DIR" = some "" ∨
      (ini "main" "OPENCV_ROOT" ≠ none ∧ ini "main" "OUTPUT_PLAYBACK_VIDEOS_DIR" ≠ none) := by
  unfold DetectorRefuses IniFile.MissingOrEmpty
  rw [initConfiguration_eq_zero_iff]
  tauto

/-- An empty default is no text, so the converter sees that a key is missing. -/
theorem converterRefuses (ini : IniFile) : ConverterRefuses ini := by
  intro h
  rw [IniFile.missingOrEmpty_iff, IniFile.missingOrEmpty_iff] at h
  have hmedia : (ini.getIniValue "config" "mediapath" "" "").1 =
      (ini.textOf "config" "mediapath").isSome := by rw [IniFile.getIniValue_empty]
  have hdir : (ini.getIniValue "config" "ffmegdir" "" "").1 =
      (ini.textOf "config" "ffmegdir").isSome := by rw [IniFile.getIniValue_empty]
  unfold CConverter.initConfig ConverterVariables.initial
  dsimp only
  split
  · rfl
  · next hfound =>
    obtain hnone | hnone := h
    · rw [hmedia, hnone] at hfound
      exact absurd rfl hfound
    · rw [hnone, Option.isSome_none] at hdir
      rw [if_pos hdir]

end

/-! ## The contract of a call -/

/-- A call of one of the overloads, with its default; a string has an old value too. -/
inductive IniCall (F : Type)
  | string (defultValue value : String)
  | int (defultValue : Int)
  | float (defultValue : F)

namespace IniCall

variable {F : Type}

def MeetsContract (sscanf : Sscanf F) (ini : IniFile) (pSection pKey : String) : IniCall F → Prop
  | string defultValue value => IniFile.MeetsContract (ini.textOf pSection pKey) defultValue
      (ini.getIniValue pSection pKey defultValue value)
  | int defultValue => IniFile.MeetsContract ((ini.textOf pSection pKey).bind sscanf.int)
      defultValue (ini.getIniInt sscanf pSection pKey defultValue)
  | float defultValue => IniFile.MeetsContract ((ini.textOf pSection pKey).bind sscanf.float)
      defultValue (ini.getIniFloat sscanf pSection pKey defultValue)

/-- A string has a text in the file, or else the default is what the variable keeps. -/
def KeepsDefault (ini : IniFile) (pSection pKey : String) : IniCall F → Prop
  | string defultValue value => (∃ text, ini pSection pKey = some text ∧ text ≠ "") ∨
      (ini pSection pKey = some "" ∧ value = defultValue) ∨
      (ini pSection pKey = none ∧ defultValue = "" ∧ value = "")
  | _ => True

theorem meetsContract_iff {sscanf : Sscanf F} {ini : IniFile} {pSection pKey : String}
    (call : IniCall F) :
    call.MeetsContract sscanf ini pSection pKey ↔ call.KeepsDefault ini pSection pKey := by
  cases call with
  | string defultValue value => exact IniFile.getIniValue_meetsContract_iff defultValue value
  | int defultValue =>
    refine iff_of_true (IniFile.meetsContract_iff.mpr ?_) trivial
    exact IniFile.getIniNumber_eq sscanf.int defultValue
  | float defultValue =>
    refine iff_of_true (IniFile.meetsContract_iff.mpr ?_) trivial
    exact IniFile.getIniNumber_eq sscanf.float defultValue

end IniCall

/-- A call of an overload keeps the contract, and both programs refuse a file without
their directories, exactly if the default for a string is never taken for a text. -/
theorem getIniValue_contract_iff {F : Type} (sscanf : Sscanf F)
    (ini faceDetectIni converterIni : IniFile) (pSection pKey : String) (call : IniCall F) :
    (call.MeetsContract sscanf ini pSection pKey ∧ DetectorRefuses sscanf faceDetectIni ∧
      ConverterRefuses converterIni) ↔
    call.KeepsDefault ini pSection pKey ∧
      (faceDetectIni "main" "OPENCV_ROOT" = some "" ∨
        faceDetectIni "main" "OUTPUT_PLAYBACK_VIDEOS_DIR" = some "" ∨
        (faceDetectIni "main" "OPENCV_ROOT" ≠ none ∧
          faceDetectIni "main" "OUTPUT_PLAYBACK_VIDEOS_DIR" ≠ none)) := by
  rw [call.meetsContract_iff, detectorRefuses_iff]
  exact and_congr_right fun _ => and_iff_left (converterRefuses converterIni)

/-- Of an empty file `initConfiguration` accepts two directories named "not initialized". -/
theorem initConfiguration_emptyFile :
    (initConfiguration (⟨fun _ => none, fun _ => none⟩ : Sscanf ℚ) (fun _ _ => none) .initial =
      (1, ⟨0, "not initialized", "not initialized"⟩)) ∧
    ¬ DetectorRefuses (⟨fun _ => none, fun _ => none⟩ : Sscanf ℚ) (fun _ _ => none) ∧
    ¬ (IniCall.string "not initialized" "not initialized" : IniCall ℚ).MeetsContract
      ⟨fun _ => none, fun _ => none⟩ (fun _ _ => none) "main" "OPENCV_ROOT" := by
  refine ⟨by decide, fun h => ?_, fun h => ?_⟩
  · exact absurd (h (.inl (.inl rfl))) (by decide)
  · exact absurd (h.returned.mp (by decide)) (by decide)

end PlanetariumFD
