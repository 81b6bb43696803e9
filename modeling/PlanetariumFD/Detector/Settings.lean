import PlanetariumFD.CommonLib.ConfigIni
import PlanetariumFD.Detector.Face

/-!
# The detector's settings

`initConfig` of `FaceProcessorConfig.h`: a call of `getIniValue` for each tunable, with
its key, its default and the variable to fill. The call for `VERY_CLOSE_DIST_THRESH`
fills `DIST_THRESH`.
-/

namespace PlanetariumFD

section
variable {F : Type} [FloatOps F]

/-- The variables after `initConfig`, and its result. -/
def initConfig (sscanf : Sscanf F) (cvFourccDefault : Int) (ini : IniFile) (c : Config F) :
    Config F × Bool :=
  let c := { c with
    oPath := (ini.getIniValue "config" "OUTPUT_DIR" "C:\\xampp\\htdocs\\planetariumsvc\\files"
      c.oPath).2 }
  let c := { c with
    minFramesForVideo := (ini.getIniInt sscanf "config" "MIN_FRAMES_FOR_VIDEO" 12).2 }
  let c := { c with faceVideoSize := (ini.getIniInt sscanf "config" "FACE_VIDEO_SIZE" 200).2 }
  let c := { c with
    maxJpgImagesSavedPerThread :=
      (ini.getIniInt sscanf "config" "MAX_JPG_IMAGES_SAVED_PER_THREAD" 1).2 }
  let c := { c with
    fpsSpeedupFactor :=
      (ini.getIniFloat sscanf "config" "FPS_SPEEDUP_FACTOR" (FloatOps.ofInt 1)).2 }
  let c := { c with
    initialFps := (ini.getIniFloat sscanf "config" "INITIAL_FPS" (FloatOps.ofInt 4)).2 }
  let c := { c with
    sampleTimeEveryXFrames :=
      (ini.getIniInt sscanf "config" "SAMPLE_TIME_EVERY_X_FRAMES" 71).2 }
  let c := { c with
    pruneFacesInterval := (ini.getIniInt sscanf "config" "PRUNE_FACES_INTERVAL" 31).2 }
  let c := { c with
    maxAllowedMissedCount := (ini.getIniInt sscanf "config" "MAX_ALLOWED_MISSED_COUNT" 10).2 }
  let c := { c with
    maxAllowedConsecutiveMisses :=
      (ini.getIniInt sscanf "config" "MAX_ALLOWED_CONSECUTIVE_MISSES" 3).2 }
  let c := { c with
    distThresh := (ini.getIniFloat sscanf "config" "DIST_THRESH" (FloatOps.ofInt 100)).2 }
  -- the variable passed is `DIST_THRESH` once more
  let c := { c with
    distThresh := (ini.getIniFloat sscanf "config" "VERY_CLOSE_DIST_THRESH"
      (c.distThresh / FloatOps.ofInt 4)).2 }
  let c := { c with
    minFaceOccurencesThresh :=
      (ini.getIniInt sscanf "config" "MIN_FACE_OCCURENCES_THRESH" 2).2 }
  let c := { c with
    videoOutputFormat :=
      (ini.getIniInt sscanf "config" "VIDEO_OUTPUT_FORMAT" cvFourccDefault).2 }
  let c := { c with
    pruneHistoryEveryMs := (ini.getIniInt sscanf "config" "PRUNE_HISTORY_EVERY_MS" 1000).2 }
  let c := { c with
    maxThreadHistorySize := (ini.getIniInt sscanf "config" "MAX_THREAD_HISTORY_SIZE" 200).2 }
  (c, true)

end

/-! ## What each tunable should hold -/

inductive Tunable
  | outputDir
  | minFramesForVideo
  | faceVideoSize
  | maxJpgImagesSavedPerThread
  | fpsSpeedupFactor
  | initialFps
  | sampleTimeEveryXFrames
  | pruneFacesInterval
  | maxAllowedMissedCount
  | maxAllowedConsecutiveMisses
  | distThresh
  | veryCloseDistThresh
  | minFaceOccurencesThresh
  | videoOutputFormat
  | pruneHistoryEveryMs
  | maxThreadHistorySize
  deriving DecidableEq, Repr

/-- A value of one of the three types. -/
inductive Setting (F : Type)
  | text (s : String)
  | int (n : Int)
  | float (x : F)
  deriving DecidableEq

namespace Tunable

def key : Tunable → String
  | outputDir => "OUTPUT_DIR"
  | minFramesForVideo => "MIN_FRAMES_FOR_VIDEO"
  | faceVideoSize => "FACE_VIDEO_SIZE"
  | maxJpgImagesSavedPerThread => "MAX_JPG_IMAGES_SAVED_PER_THREAD"
  | fpsSpeedupFactor => "FPS_SPEEDUP_FACTOR"
  | initialFps => "INITIAL_FPS"
  | sampleTimeEveryXFrames => "SAMPLE_TIME_EVERY_X_FRAMES"
  | pruneFacesInterval => "PRUNE_FACES_INTERVAL"
  | maxAllowedMissedCount => "MAX_ALLOWED_MISSED_COUNT"
  | maxAllowedConsecutiveMisses => "MAX_ALLOWED_CONSECUTIVE_MISSES"
  | distThresh => "DIST_THRESH"
  | veryCloseDistThresh => "VERY_CLOSE_DIST_THRESH"
  | minFaceOccurencesThresh => "MIN_FACE_OCCURENCES_THRESH"
  | videoOutputFormat => "VIDEO_OUTPUT_FORMAT"
  | pruneHistoryEveryMs => "PRUNE_HISTORY_EVERY_MS"
  | maxThreadHistorySize => "MAX_THREAD_HISTORY_SIZE"

section
variable {F : Type} [FloatOps F]

/-- The default, with the loaded `DIST_THRESH` for the one that depends on it. -/
def stated (cvFourccDefault : Int) (loaded : F) : Tunable → Setting F
  | outputDir => .text "C:\\xampp\\htdocs\\planetariumsvc\\files"
  | minFramesForVideo => .int 12
  | faceVideoSize => .int 200
  | maxJpgImagesSavedPerThread => .int 1
  | fpsSpeedupFactor => .float (FloatOps.ofInt 1)
  | initialFps => .float (FloatOps.ofInt 4)
  | sampleTimeEveryXFrames => .int 71
  | pruneFacesInterval => .int 31
  | maxAllowedMissedCount => .int 10
  | maxAllowedConsecutiveMisses => .int 3
  | distThresh => .float (FloatOps.ofInt 100)
  | veryCloseDistThresh => .float (loaded / FloatOps.ofInt 4)
  | minFaceOccurencesThresh => .int 2
  | videoOutputFormat => .int cvFourccDefault
  | pruneHistoryEveryMs => .int 1000
  | maxThreadHistorySize => .int 200

omit [FloatOps F] in
/-- What the text of the tunable's own key parses to. -/
def parsed (sscanf : Sscanf F) (ini : IniFile) (t : Tunable) : Option (Setting F) :=
  match t with
  | outputDir => (ini "config" t.key).map .text
  | fpsSpeedupFactor | initialFps | distThresh | veryCloseDistThresh =>
    ((ini.textOf "config" t.key).bind sscanf.float).map .float
  | _ => ((ini.textOf "config" t.key).bind sscanf.int).map .int

end

end Tunable

def Config.get {F : Type} (c : Config F) : Tunable → Setting F
  | .outputDir => .text c.oPath
  | .minFramesForVideo => .int c.minFramesForVideo
  | .faceVideoSize => .int c.faceVideoSize
  | .maxJpgImagesSavedPerThread => .int c.maxJpgImagesSavedPerThread
  | .fpsSpeedupFactor => .float c.fpsSpeedupFactor
  | .initialFps => .float c.initialFps
  | .sampleTimeEveryXFrames => .int c.sampleTimeEveryXFrames
  | .pruneFacesInterval => .int c.pruneFacesInterval
  | .maxAllowedMissedCount => .int c.maxAllowedMissedCount
  | .maxAllowedConsecutiveMisses => .int c.maxAllowedConsecutiveMisses
  | .distThresh => .float c.distThresh
  | .veryCloseDistThresh => .float c.veryCloseDistThresh
  | .minFaceOccurencesThresh => .int c.minFaceOccurencesThresh
  | .videoOutputFormat => .int c.videoOutputFormat
  | .pruneHistoryEveryMs => .int c.pruneHistoryEveryMs
  | .maxThreadHistorySize => .int c.maxThreadHistorySize

section
variable {F : Type} [FloatOps F]

/-- `DIST_THRESH` by its own key. -/
def loadedDistThresh (sscanf : Sscanf F) (ini : IniFile) : F :=
  ((ini.textOf "config" "DIST_THRESH").bind sscanf.float).getD (FloatOps.ofInt 100)

/-- `VERY_CLOSE_DIST_THRESH` by its own key. -/
def loadedVeryClose (sscanf : Sscanf F) (ini : IniFile) : F :=
  ((ini.textOf "config" "VERY_CLOSE_DIST_THRESH").bind sscanf.float).getD
    (loadedDistThresh sscanf ini / FloatOps.ofInt 4)

/-- The settings after start-up. -/
def loadedConfig (sscanf : Sscanf F) (cvFourccDefault : Int) (ini : IniFile) : Config F :=
  (initConfig sscanf cvFourccDefault ini .declared).1

/-- The file with one text changed, or a key added or taken out. -/
def IniFile.change (ini : IniFile) (pSection pKey : String) (text : Option String) : IniFile :=
  fun s k => if s = pSection ∧ k = pKey then text else ini s k

/-- Each tunable holds what its own key says, or else its own default. -/
def FromOwnKeys (sscanf : Sscanf F) (cvFourccDefault : Int) (ini : IniFile) : Prop :=
  ∀ t : Tunable, (loadedConfig sscanf cvFourccDefault ini).get t =
    (t.parsed sscanf ini).getD (t.stated cvFourccDefault (loadedDistThresh sscanf ini))

/-- A change of one text leaves the tunables of other keys, except for the default that
depends on `DIST_THRESH`. -/
def ChangesOnlyItsOwn (sscanf : Sscanf F) (cvFourccDefault : Int) (ini : IniFile)
    (pSection pKey : String) (text : Option String) : Prop :=
  ∀ t : Tunable, ¬ (pSection = "config" ∧ pKey = t.key) →
    ¬ (pSection = "config" ∧ pKey = "DIST_THRESH" ∧ t = .veryCloseDistThresh) →
      (loadedConfig sscanf cvFourccDefault (ini.change pSection pKey text)).get t =
        (loadedConfig sscanf cvFourccDefault ini).get t

variable {sscanf : Sscanf F} {cvFourccDefault : Int} {ini : IniFile}

theorem loadedConfig_distThresh :
    (loadedConfig sscanf cvFourccDefault ini).distThresh = loadedVeryClose sscanf ini := by
  show (ini.getIniFloat sscanf "config" "VERY_CLOSE_DIST_THRESH" _).2 = _
  rw [IniFile.getIniFloat, IniFile.getIniNumber_eq]
  show ((ini.textOf _ _).bind _).getD ((ini.getIniFloat sscanf "config" "DIST_THRESH" _).2 / _) = _
  rw [IniFile.getIniFloat, IniFile.getIniNumber_eq]
  rfl

theorem loadedConfig_veryCloseDistThresh :
    (loadedConfig sscanf cvFourccDefault ini).veryCloseDistThresh =
      FloatOps.ofInt 100 / FloatOps.ofInt 4 := rfl

omit [FloatOps F] in
theorem getIniInt_setting (pKey : String) (defultValue : Int) :
    Setting.int (F := F) (ini.getIniInt sscanf "config" pKey defultValue).2 =
      (((ini.textOf "config" pKey).bind sscanf.int).map .int).getD (.int defultValue) := by
  rw [IniFile.getIniInt, IniFile.getIniNumber_eq, Option.getD_map]

omit [FloatOps F] in
theorem getIniFloat_setting (pKey : String) (defultValue : F) :
    Setting.float (ini.getIniFloat sscanf "config" pKey defultValue).2 =
      (((ini.textOf "config" pKey).bind sscanf.float).map .float).getD (.float defultValue) := by
  rw [IniFile.getIniFloat, IniFile.getIniNumber_eq, Option.getD_map]

omit [FloatOps F] in
/-- A variable that starts empty takes the text of its key even if that is empty. -/
theorem getIniValue_setting (pKey : String) {pDefultValue : String} (h : pDefultValue ≠ "") :
    Setting.text (F := F) (ini.getIniValue "config" pKey pDefultValue "").2 =
      ((ini "config" pKey).map .text).getD (.text pDefultValue) := by
  unfold IniFile.getIniValue getPrivateProfileStringA
  cases ini "config" pKey with
  | none => simp [h]
  | some text => by_cases ht : text = "" <;> simp [ht]

/-- All tunables but the two thresholds are read as stated. -/
theorem loadedConfig_get {t : Tunable} (hdist : t ≠ .distThresh) (hvery : t ≠ .veryCloseDistThresh)
    (loaded : F) : (loadedConfig sscanf cvFourccDefault ini).get t =
      (t.parsed sscanf ini).getD (t.stated cvFourccDefault loaded) := by
  cases t with
  | outputDir => exact getIniValue_setting _ (by decide)
  | distThresh => exact absurd rfl hdist
  | veryCloseDistThresh => exact absurd rfl hvery
  | fpsSpeedupFactor | initialFps => exact getIniFloat_setting _ _
  | _ => exact getIniInt_setting _ _

theorem fromOwnKeys_iff : FromOwnKeys sscanf cvFourccDefault ini ↔
    loadedVeryClose sscanf ini = loadedDistThresh sscanf ini ∧
      FloatOps.ofInt 100 / FloatOps.ofInt 4 = loadedVeryClose sscanf ini := by
  have hdist : (Tunable.distThresh.parsed sscanf ini).getD
      (Tunable.distThresh.stated cvFourccDefault (loadedDistThresh sscanf ini)) =
      .float (loadedDistThresh sscanf ini) := Option.getD_map _ _ _
  have hvery : (Tunable.veryCloseDistThresh.parsed sscanf ini).getD
      (Tunable.veryCloseDistThresh.stated cvFourccDefault (loadedDistThresh sscanf ini)) =
      .float (loadedVeryClose sscanf ini) := Option.getD_map _ _ _
  constructor
  · intro h
    have hd := h .distThresh
    have hv := h .veryCloseDistThresh
    rw [hdist, Config.get, loadedConfig_distThresh, Setting.float.injEq] at hd
    rw [hvery, Config.get, loadedConfig_veryCloseDistThresh, Setting.float.injEq] at hv
    exact ⟨hd, hv⟩
  · rintro ⟨hd, hv⟩ t
    by_cases htd : t = .distThresh
    · rw [htd, hdist, Config.get, loadedConfig_distThresh, hd]
    · by_cases htv : t = .veryCloseDistThresh
      · rw [htv, hvery, Config.get, loadedConfig_veryCloseDistThresh, hv]
      · exact loadedConfig_get htd htv _

/-! ## A change of one text -/

section
variable {pSection pKey : String} {text : Option String}

omit [FloatOps F] in
theorem IniFile.change_of_ne {s k : String} (h : ¬ (pSection = s ∧ pKey = k)) :
    ini.change pSection pKey text s k = ini s k := by
  rw [change, if_neg fun heq => h ⟨heq.1.symm, heq.2.symm⟩]

omit [FloatOps F] in
theorem IniFile.textOf_change_of_ne {s k : String} (h : ¬ (pSection = s ∧ pKey = k)) :
    (ini.change pSection pKey text).textOf s k = ini.textOf s k := by
  rw [textOf, textOf, IniFile.change_of_ne h]

omit [FloatOps F] in
theorem Tunable.parsed_change_of_ne {t : Tunable} (h : ¬ (pSection = "config" ∧ pKey = t.key)) :
    t.parsed sscanf (ini.change pSection pKey text) = t.parsed sscanf ini := by
  have htext : ini.change pSection pKey text "config" t.key = ini "config" t.key :=
    IniFile.change_of_ne h
  have htextOf : (ini.change pSection pKey text).textOf "config" t.key =
      ini.textOf "config" t.key := IniFile.textOf_change_of_ne h
  cases t with
  | outputDir => exact congrArg (Option.map _) htext
  | fpsSpeedupFactor | initialFps | distThresh | veryCloseDistThresh =>
    exact congrArg (fun o => (Option.bind o _).map _) htextOf
  | _ => exact congrArg (fun o => (Option.bind o _).map _) htextOf

/-- A text of neither threshold leaves both. -/
theorem loadedVeryClose_change (hdist : ¬ (pSection = "config" ∧ pKey = "DIST_THRESH"))
    (hvery : ¬ (pSection = "config" ∧ pKey = "VERY_CLOSE_DIST_THRESH")) :
    loadedVeryClose sscanf (ini.change pSection pKey text) = loadedVeryClose sscanf ini := by
  rw [loadedVeryClose, loadedVeryClose, loadedDistThresh, loadedDistThresh,
    IniFile.textOf_change_of_ne hdist, IniFile.textOf_change_of_ne hvery]

theorem changesOnlyItsOwn_iff : ChangesOnlyItsOwn sscanf cvFourccDefault ini pSection pKey text ↔
    (pSection = "config" ∧ pKey = "VERY_CLOSE_DIST_THRESH" →
      loadedVeryClose sscanf (ini.change pSection pKey text) = loadedVeryClose sscanf ini) := by
  constructor
  · rintro h ⟨rfl, rfl⟩
    have hd := h .distThresh (by decide) (by decide)
    rw [Config.get, Config.get, loadedConfig_distThresh, loadedConfig_distThresh,
      Setting.float.injEq] at hd
    exact hd
  · intro h t hown hquarter
    by_cases htd : t = .distThresh
    · rw [htd] at hown
      rw [htd, Config.get, Config.get, loadedConfig_distThresh, loadedConfig_distThresh,
        Setting.float.injEq]
      by_cases hvery : pSection = "config" ∧ pKey = "VERY_CLOSE_DIST_THRESH"
      · exact h hvery
      · exact loadedVeryClose_change hown hvery
    · by_cases htv : t = .veryCloseDistThresh
      · rw [htv]
        rfl
      · rw [loadedConfig_get htd htv (loadedDistThresh sscanf ini),
          loadedConfig_get htd htv (loadedDistThresh sscanf ini), Tunable.parsed_change_of_ne hown]

end

/-- Every setting comes from its own key exactly if the two thresholds, each by its own
key, are both what `VERY_CLOSE_DIST_THRESH` is declared with, and stay so. -/
theorem initConfig_ownKeys_iff (sscanf : Sscanf F) (cvFourccDefault : Int) (ini : IniFile)
    (pSection pKey : String) (text : Option String) :
    (FromOwnKeys sscanf cvFourccDefault ini ∧
      ChangesOnlyItsOwn sscanf cvFourccDefault ini pSection pKey text) ↔
    (loadedVeryClose sscanf ini = loadedDistThresh sscanf ini ∧
      FloatOps.ofInt 100 / FloatOps.ofInt 4 = loadedVeryClose sscanf ini) ∧
      (pSection = "config" ∧ pKey = "VERY_CLOSE_DIST_THRESH" →
        loadedVeryClose sscanf (ini.change pSection pKey text) = loadedVeryClose sscanf ini) := by
  rw [fromOwnKeys_iff, changesOnlyItsOwn_iff]

end

/-! ## The settings of the shipped file -/

/-- The two thresholds of `face_detect.ini`. -/
def shippedThresholds : IniFile := fun pSection pKey =>
  if pSection = "config" ∧ pKey = "DIST_THRESH" then some "100.0"
  else if pSection = "config" ∧ pKey = "VERY_CLOSE_DIST_THRESH" then some "25.0"
  else none

/-- `DIST_THRESH` is 25 with them, and another `VERY_CLOSE_DIST_THRESH` changes it again. -/
theorem shippedThresholds_distThresh :
    (loadedConfig Sscanf.decimal (-1) shippedThresholds).distThresh = 25 ∧
    ¬ FromOwnKeys Sscanf.decimal (-1) shippedThresholds ∧
    ¬ ChangesOnlyItsOwn Sscanf.decimal (-1) shippedThresholds "config" "VERY_CLOSE_DIST_THRESH"
      (some "30.0") := by
  have hvery : loadedVeryClose Sscanf.decimal shippedThresholds = 25 := by decide +kernel
  have hdist : loadedDistThresh Sscanf.decimal shippedThresholds = 100 := by decide +kernel
  have hchanged : loadedVeryClose Sscanf.decimal (shippedThresholds.change "config"
      "VERY_CLOSE_DIST_THRESH" (some "30.0")) = 30 := by decide +kernel
  rw [loadedConfig_distThresh, fromOwnKeys_iff, changesOnlyItsOwn_iff, hvery, hdist, hchanged]
  exact ⟨rfl, fun h => absurd h.1 (by norm_num), fun h => absurd (h ⟨rfl, rfl⟩) (by norm_num)⟩

end PlanetariumFD
