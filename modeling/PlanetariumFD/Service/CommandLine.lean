import PlanetariumFD.Foundation.WindowsArguments
import PlanetariumFD.Service.Converter

/-!
# What ffmpeg is asked to do

`convert` writes both file names between quotation marks into one text, which the
started process splits into arguments again.
-/

namespace PlanetariumFD

open QueryString Transition WindowsArguments

/-- `CreateProcessA` takes the line as a C string. -/
def Process.arguments (p : Process) : List (List Char) := parse (cStr p.commandLine)

def ffmpegOptions : List (List Char) :=
  ["-f".toList, "flv".toList, "-an".toList, "-vcodec".toList, "flv".toList, "-ar".toList,
    "44100".toList, "-s".toList, "360x288".toList]

/-- What the converter means ffmpeg to get. -/
def ffmpegArguments (cfg : ConverterConfig) (mediaName : List Char) : List (List Char) :=
  "ffmpeg.exe".toList :: "-y".toList :: "-i".toList :: mediaFile cfg mediaName ::
    (ffmpegOptions ++ [outputFile cfg mediaName])

/-- The name of a row, stored as the cell `filepath`, fits `sParams` and is taken as the
name of the two files. -/
def MeansItsFiles (cfg : ConverterConfig) (filepath : List Char) : Prop :=
  (convertParams cfg (cStr filepath)).length + 1 ≤ sParamsSize ∧
    (Process.ofRow cfg (cStr filepath)).arguments = ffmpegArguments cfg filepath

instance (cfg : ConverterConfig) (filepath : List Char) : Decidable (MeansItsFiles cfg filepath) :=
  inferInstanceAs (Decidable (_ ∧ _))

/-- A text with neither a quotation mark nor a NUL. -/
def IsInert (text : List Char) : Prop := '"' ∉ text ∧ '\x00' ∉ text

/-! ## The line -/

section
variable {cfg : ConverterConfig} {mediaName : List Char}

/-- The parameters from the first file on. -/
def fromInput (cfg : ConverterConfig) (mediaName : List Char) : List Char :=
  mediaFile cfg mediaName ++
    ("\" -f flv -an -vcodec flv -ar 44100 -s 360x288 \"".toList ++
      (outputFile cfg mediaName ++ ['"']))

theorem convertParams_eq : convertParams cfg mediaName =
    ' ' :: ("-y -i \"".toList ++ fromInput cfg mediaName) := by
  have hopen : " -y -i \"".toList = ' ' :: "-y -i \"".toList := rfl
  have hclose : "\"".toList = ['"'] := rfl
  show " -y -i \"".toList ++ mediaFile cfg mediaName ++ _ ++ outputFile cfg mediaName ++ "\"".toList
    = _
  rw [hopen, hclose]
  simp only [fromInput, List.append_assoc, List.cons_append]

theorem ofRow_commandLine : (Process.ofRow cfg mediaName).commandLine =
    "ffmpeg.exe -y -i \"".toList ++ fromInput cfg mediaName := by
  have hexe : (cfg.sFfmpegExePath.reverse.takeWhile (· ≠ '\\')).reverse = "ffmpeg.exe".toList := by
    show ((cfg.sFfmpegDir ++ "\\ffmpeg.exe".toList).reverse.takeWhile (· ≠ '\\')).reverse = _
    rw [List.reverse_append]
    rfl
  have hline : "ffmpeg.exe".toList ++ ' ' :: "-y -i \"".toList = "ffmpeg.exe -y -i \"".toList := rfl
  show commandLine cfg.sFfmpegExePath (convertParams cfg mediaName) = _
  rw [commandLine, hexe, convertParams_eq, if_neg fun h => h.2 rfl, ← hline, List.append_assoc,
    List.cons_append]

theorem parse_head (rest : List Char) : parse ("ffmpeg.exe -y -i \"".toList ++ rest) =
    "ffmpeg.exe".toList :: "-y".toList :: "-i".toList :: split ⟨some [], 0, .quoted⟩ rest := rfl

theorem split_options (a rest : List Char) :
    split ⟨some a, 0, .quoted⟩
        ("\" -f flv -an -vcodec flv -ar 44100 -s 360x288 \"".toList ++ rest) =
      a :: (ffmpegOptions ++ split ⟨some [], 0, .quoted⟩ rest) := split_closed a _

theorem length_mediaFile :
    (mediaFile cfg mediaName).length = cfg.sMediaPath.length + mediaName.length + 5 := by
  have hslash : "\\".toList.length = 1 := rfl
  have havi : ".avi".toList.length = 4 := rfl
  show (cfg.sMediaPath ++ "\\".toList ++ mediaName ++ ".avi".toList).length = _
  rw [List.length_append, List.length_append, List.length_append, hslash, havi]
  omega

theorem length_outputFile :
    (outputFile cfg mediaName).length = cfg.sMediaPath.length + mediaName.length + 5 := by
  have hslash : "\\".toList.length = 1 := rfl
  have hflv : ".flv".toList.length = 4 := rfl
  show (cfg.sMediaPath ++ "\\".toList ++ mediaName ++ ".flv".toList).length = _
  rw [List.length_append, List.length_append, List.length_append, hslash, hflv]
  omega

theorem length_fromInput :
    (fromInput cfg mediaName).length = 2 * (cfg.sMediaPath.length + mediaName.length) + 58 := by
  have hmid : "\" -f flv -an -vcodec flv -ar 44100 -s 360x288 \"".toList.length = 47 := rfl
  rw [fromInput, List.length_append, List.length_append, List.length_append, length_mediaFile, hmid,
    length_outputFile, List.length_singleton]
  omega

theorem length_convertParams : (convertParams cfg mediaName).length =
    2 * (cfg.sMediaPath.length + mediaName.length) + 66 := by
  have hopen : "-y -i \"".toList.length = 7 := rfl
  rw [convertParams_eq, List.length_cons, List.length_append, hopen, length_fromInput]
  omega

/-! ## Inert names -/

/-- The input file up to its last letter. -/
def inputStem (cfg : ConverterConfig) (mediaName : List Char) : List Char :=
  cfg.sMediaPath ++ '\\' :: (mediaName ++ ".av".toList)

/-- The output file up to its last letter. -/
def outputStem (cfg : ConverterConfig) (mediaName : List Char) : List Char :=
  cfg.sMediaPath ++ '\\' :: (mediaName ++ ".fl".toList)

theorem mediaFile_eq : mediaFile cfg mediaName = inputStem cfg mediaName ++ ['i'] := by
  have hslash : "\\".toList = ['\\'] := rfl
  have havi : ".avi".toList = ".av".toList ++ ['i'] := rfl
  show cfg.sMediaPath ++ "\\".toList ++ mediaName ++ ".avi".toList = _
  rw [hslash, havi]
  simp only [inputStem, List.append_assoc, List.cons_append, List.nil_append]

theorem outputFile_eq : outputFile cfg mediaName = outputStem cfg mediaName ++ ['v'] := by
  have hslash : "\\".toList = ['\\'] := rfl
  have hflv : ".flv".toList = ".fl".toList ++ ['v'] := rfl
  show cfg.sMediaPath ++ "\\".toList ++ mediaName ++ ".flv".toList = _
  rw [hslash, hflv]
  simp only [outputStem, List.append_assoc, List.cons_append, List.nil_append]

/-- The text of the parameters with the two closing quotation marks in sight. -/
theorem fromInput_eq : fromInput cfg mediaName = inputStem cfg mediaName ++ 'i' :: '"' ::
    (" -f flv -an -vcodec flv -ar 44100 -s 360x288 \"".toList ++
      (outputStem cfg mediaName ++ ['v', '"'])) := by
  have hmid : "\" -f flv -an -vcodec flv -ar 44100 -s 360x288 \"".toList =
      '"' :: " -f flv -an -vcodec flv -ar 44100 -s 360x288 \"".toList := rfl
  rw [fromInput, mediaFile_eq, outputFile_eq, hmid]
  simp only [List.append_assoc, List.cons_append, List.nil_append]

theorem count_inputStem (c : Char) (hslash : c ≠ '\\') (havi : c ∉ ".av".toList) :
    (inputStem cfg mediaName).count c = cfg.sMediaPath.count c + mediaName.count c := by
  rw [inputStem, List.count_append, List.count_cons_of_ne hslash.symm, List.count_append,
    List.count_eq_zero.mpr havi, add_zero]

theorem count_outputStem (c : Char) (hslash : c ≠ '\\') (hflv : c ∉ ".fl".toList) :
    (outputStem cfg mediaName).count c = cfg.sMediaPath.count c + mediaName.count c := by
  rw [outputStem, List.count_append, List.count_cons_of_ne hslash.symm, List.count_append,
    List.count_eq_zero.mpr hflv, add_zero]

theorem split_fromInput (hpath : '"' ∉ cfg.sMediaPath) (hname : '"' ∉ mediaName) :
    split ⟨some [], 0, .quoted⟩ (fromInput cfg mediaName) =
      mediaFile cfg mediaName :: (ffmpegOptions ++ [outputFile cfg mediaName]) := by
  have hin : '"' ∉ inputStem cfg mediaName := by
    rw [← List.count_eq_zero, count_inputStem _ (by decide) (by decide),
      List.count_eq_zero.mpr hpath, List.count_eq_zero.mpr hname]
  have hout : '"' ∉ outputStem cfg mediaName := by
    rw [← List.count_eq_zero, count_outputStem _ (by decide) (by decide),
      List.count_eq_zero.mpr hpath, List.count_eq_zero.mpr hname]
  rw [fromInput_eq, split_quoted [] 0 hin (by decide) (by decide)]
  show split ⟨some (inputStem cfg mediaName ++ ['i']), 0, .quoted⟩
    ("\" -f flv -an -vcodec flv -ar 44100 -s 360x288 \"".toList ++
      (outputStem cfg mediaName ++ 'v' :: ['"'])) = _
  rw [split_options, split_quoted [] 0 hout (by decide) (by decide), split_closed_end, mediaFile_eq,
    outputFile_eq]
  rfl

theorem not_mem_fromInput (hpath : '\x00' ∉ cfg.sMediaPath) (hname : '\x00' ∉ mediaName) :
    '\x00' ∉ fromInput cfg mediaName := by
  have hmid : '\x00' ∉ " -f flv -an -vcodec flv -ar 44100 -s 360x288 \"".toList := by decide
  rw [← List.count_eq_zero, fromInput_eq, List.count_append, List.count_cons_of_ne (by decide),
    List.count_cons_of_ne (by decide), List.count_append, List.count_append,
    count_inputStem _ (by decide) (by decide), count_outputStem _ (by decide) (by decide),
    List.count_eq_zero.mpr hpath, List.count_eq_zero.mpr hname, List.count_eq_zero.mpr hmid]
  rfl

/-- The line up to the first file holds no NUL. -/
theorem ofRow_arguments : (Process.ofRow cfg mediaName).arguments =
    "ffmpeg.exe".toList :: "-y".toList :: "-i".toList ::
      split ⟨some [], 0, .quoted⟩ (cStr (fromInput cfg mediaName)) := by
  rw [Process.arguments, ofRow_commandLine, cStr_append (by decide), parse_head]

theorem arguments_of_inert (hpath : IsInert cfg.sMediaPath) (hname : IsInert mediaName) :
    (Process.ofRow cfg mediaName).arguments = ffmpegArguments cfg mediaName := by
  rw [ofRow_arguments, cStr_of_not_mem (not_mem_fromInput hpath.2 hname.2),
    split_fromInput hpath.1 hname.1, ffmpegArguments]

/-! ## Other names -/

/-- What the names' quotation marks cost. -/
theorem costs_fromInput (cfg : ConverterConfig) (mediaName : List Char) :
    Costs (5 + 2 * (cfg.sMediaPath.count '"' + mediaName.count '"')) (fromInput cfg mediaName) := by
  have hlast : Costs (0 + 2) ['v', '"'] := costs_nil.lone (by decide) (by decide) (by decide)
  have hmid : " -f flv -an -vcodec flv -ar 44100 -s 360x288 \"".toList.count '"' = 1 := by decide
  have hout := hlast.append
    (" -f flv -an -vcodec flv -ar 44100 -s 360x288 \"".toList ++ outputStem cfg mediaName)
  have hin := (hout.lone (c := 'i') (fun h => by cases h) (by decide) (by decide)).append
    (inputStem cfg mediaName)
  rw [List.count_append, hmid, count_outputStem _ (by decide) (by decide),
    count_inputStem _ (by decide) (by decide), List.append_assoc] at hin
  rw [fromInput_eq]
  intro s
  have := hin s
  omega

theorem size_files (filepath : List Char) :
    size (mediaFile cfg filepath :: (ffmpegOptions ++ [outputFile cfg filepath])) =
      2 * (cfg.sMediaPath.length + filepath.length) + 56 := by
  have hoptions : size ffmpegOptions = 44 := by decide
  rw [size_cons, size_append, hoptions, size_cons, size_nil, length_mediaFile, length_outputFile]
  omega

/-- Too few characters are left for the two files if the directory holds a NUL. -/
theorem size_split_cStr_lt (mediaName : List Char) (hpath : '\x00' ∈ cfg.sMediaPath) :
    size (split ⟨some [], 0, .quoted⟩ (cStr (fromInput cfg mediaName))) <
      cfg.sMediaPath.length + 1 := by
  have hcut : cStr (fromInput cfg mediaName) = cStr cfg.sMediaPath := by
    rw [fromInput_eq, inputStem, List.append_assoc, cStr_append_of_mem hpath]
  have hlt : (cStr cfg.sMediaPath).length < cfg.sMediaPath.length := length_cStr_lt_iff.mpr hpath
  have hcost := costs_nil.append (cStr cfg.sMediaPath) ⟨some [], 0, .quoted⟩
  rw [List.append_nil] at hcost
  rw [hcut]
  simp only [State.read, State.text, State.slack, Option.getD_some, List.length_nil,
    reduceCtorEq, if_false] at hcost
  omega

/-- The arguments are long enough only if nothing was cut off or read as a sign. -/
theorem inert_of_arguments {filepath : List Char}
    (h : (Process.ofRow cfg (cStr filepath)).arguments = ffmpegArguments cfg filepath) :
    IsInert cfg.sMediaPath ∧ IsInert filepath := by
  have hfiles : split ⟨some [], 0, .quoted⟩ (cStr (fromInput cfg (cStr filepath))) =
      mediaFile cfg filepath :: (ffmpegOptions ++ [outputFile cfg filepath]) := by
    rw [ofRow_arguments, ffmpegArguments] at h
    simpa only [List.cons.injEq, true_and] using h
  have hsize := congrArg size hfiles
  rw [size_files] at hsize
  have hpath : '\x00' ∉ cfg.sMediaPath := by
    intro hnul
    have := size_split_cStr_lt (cStr filepath) hnul
    omega
  have hcost := costs_fromInput cfg (cStr filepath) ⟨some [], 0, .quoted⟩
  rw [cStr_of_not_mem (not_mem_fromInput hpath (not_mem_cStr filepath))] at hsize
  rw [hsize, length_fromInput] at hcost
  simp only [State.read, State.text, State.slack, Option.getD_some, List.length_nil,
    reduceCtorEq, if_false] at hcost
  have hle := length_cStr_le filepath
  have hname : '\x00' ∉ filepath := by
    rw [← length_cStr_lt_iff]
    omega
  rw [cStr_of_not_mem hname] at hcost
  refine ⟨⟨List.count_eq_zero.mp ?_, hpath⟩, List.count_eq_zero.mp ?_, hname⟩
  · omega
  · omega

/-- ffmpeg gets the two files of the row exactly if both names are short enough together
and neither the directory nor the name has a quotation mark or a NUL. -/
theorem meansItsFiles_iff (cfg : ConverterConfig) (filepath : List Char) :
    MeansItsFiles cfg filepath ↔
      2 * (cfg.sMediaPath.length + (cStr filepath).length) + 67 ≤ sParamsSize ∧
        IsInert cfg.sMediaPath ∧ IsInert filepath := by
  rw [MeansItsFiles, length_convertParams]
  constructor
  · rintro ⟨hfits, hargs⟩
    exact ⟨hfits, inert_of_arguments hargs⟩
  · rintro ⟨hfits, hpath, hname⟩
    refine ⟨hfits, ?_⟩
    rw [cStr_of_not_mem hname.2]
    exact arguments_of_inert hpath hname

/-! ## Every process -/

/-- The process was started for a row of the table. -/
def OfStoredRow (cfg : ConverterConfig) (visuals : NodeList Visual) (p : Process) : Prop :=
  ∃ id v f, visuals.get? id = some v ∧ v.filepath = some f ∧
    p.commandLine = (Process.ofRow cfg (cStr f)).commandLine

variable {s t : Converter} {a : ConverterAction}

theorem OfStoredRow.updated {visuals : NodeList Visual} {p : Process}
    (h : OfStoredRow cfg visuals p) (id : Nat) (calls : UpdateCalls) :
    OfStoredRow cfg (updateVisual visuals id calls) p := by
  obtain ⟨id', v, f, hv, hf, hp⟩ := h
  refine ⟨id', _, f, by rw [get?_updateVisual, hv, Option.map_some], ?_, hp⟩
  split <;> exact hf

theorem ConverterEffect.ofStoredRow (e : ConverterEffect cfg s a t) (shape : ConverterShape cfg s)
    (h : ∀ p ∈ s.processes, OfStoredRow cfg s.visuals p) :
    ∀ p ∈ t.processes, OfStoredRow cfg t.visuals p := by
  cases e with
  | @started row rest pc =>
    intro p hp
    obtain hp | hp := List.mem_append.mp hp
    · exact h p hp
    · obtain rfl := List.mem_singleton.mp hp
      obtain ⟨v, hv, -, hrow⟩ := shape.fetched row (by rw [pc]; exact List.mem_cons_self ..)
      obtain ⟨-, f, hf, hname⟩ := fetchRow_ok hrow
      exact ⟨row.id, v, f, hv, hf, by rw [hname]⟩
  | @updated row rest attempt calls pc => exact fun p hp => (h p hp).updated row.id calls
  | @processEnds k p process =>
    intro q hq
    obtain hq | rfl := List.mem_or_eq_of_mem_set hq
    · exact h q hq
    · exact h p (List.mem_of_getElem? process)
  | @srcAdded v =>
    intro p hp
    obtain ⟨id, v', f, hv', hf, hline⟩ := h p hp
    exact ⟨id, v', f, NodeList.get?_pushBack_of_eq_some hv' v, hf, hline⟩
  | _ => exact h

theorem ofStoredRow_of_run {visuals : NodeList Visual} {as : List ConverterAction}
    (h : run (converterStep cfg) (startConverter visuals) as = .ok s) :
    ∀ p ∈ s.processes, OfStoredRow cfg s.visuals p := by
  refine run_induction (P := fun _ s => ∀ p ∈ s.processes, OfStoredRow cfg s.visuals p)
    (fun p hp => by cases hp) ?_ h
  intro bs s b t hs ih hst
  exact (converterStep_cases hst).ofStoredRow (converterShape_of_run hs) ih

/-- With names that mean what they should, every process that was started converts a row
of the table. -/
theorem arguments_of_run {visuals : NodeList Visual} {as : List ConverterAction}
    (h : run (converterStep cfg) (startConverter visuals) as = .ok s)
    (hpath : IsInert cfg.sMediaPath)
    (hnames : ∀ v ∈ s.visuals.vals, ∀ f, v.filepath = some f → IsInert f) :
    ∀ p ∈ s.processes, ∃ v ∈ s.visuals.vals, ∃ f, v.filepath = some f ∧
      p.arguments = ffmpegArguments cfg f := by
  intro p hp
  obtain ⟨id, v, f, hv, hf, hline⟩ := ofStoredRow_of_run h p hp
  have hmem : v ∈ s.visuals.vals :=
    NodeList.mem_vals_iff.mpr ⟨id, NodeList.get?_eq_some_iff.mp hv⟩
  have hname := hnames v hmem f hf
  refine ⟨v, hmem, f, hf, ?_⟩
  rw [Process.arguments, hline, ← Process.arguments, cStr_of_not_mem hname.2]
  exact arguments_of_inert hpath hname

end

/-! ## A name with quotation marks -/

def mediaDirectory : ConverterConfig := ⟨"C:\\media".toList, "C:\\ffmpeg".toList⟩

/-- The name ends the first file and begins another argument; a long one does not fit. -/
theorem quotedName_addsArguments :
    ¬ MeansItsFiles mediaDirectory "a\" \"C:\\b".toList ∧
    (Process.ofRow mediaDirectory "a\" \"C:\\b".toList).arguments =
      "ffmpeg.exe".toList :: "-y".toList :: "-i".toList :: "C:\\media\\a".toList ::
        "C:\\b.avi".toList :: (ffmpegOptions ++ ["C:\\media\\a".toList, "C:\\b.flv".toList]) ∧
    sParamsSize < (convertParams mediaDirectory (List.replicate 500 'a')).length + 1 := by
  refine ⟨by decide +kernel, by decide +kernel, ?_⟩
  rw [length_convertParams, List.length_replicate]
  decide

end PlanetariumFD
