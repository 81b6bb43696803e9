import PlanetariumFD.Foundation.Outcome
import PlanetariumFD.Foundation.Outcome
import PlanetariumFD.Foundation.StringLiteral

/-!
# Registering a file

The rows of `visuals` are keyed by `id`; ids are handed out in increasing order, so
the table is a list of nodes whose addresses are the ids. `registerOutputFile` sends a
file's name, media type and extension as a query, none of them encoded. `srcAdded.php`
reads the query back and inserts a row, with its own table of extensions and its own
defaults; that the name is no more than a text in its statement it leaves to PHP's
magic quotes.
-/

namespace PlanetariumFD

open Outcome QueryString StringLiteral

/-! ## The table -/

/-- The columns of `visuals` that the programs name, the `id` apart; any may be NULL. -/
structure Visual where
  filepath : Option (List Char)
  mediatype : Option Int
  mediasubtype : Option Int
  data : Option (List Char)
  creationTime : Option Int
  lastupdated : Option Int
  deriving DecidableEq, Repr

def mediatypeUnrecognized : Int := -1

def mediatypeVideo : Int := 0

def mediatypeStillImage : Int := 1

def mediasubtypeUnrecognized : Int := -1

def mediasubtypeJpg : Int := 0

def mediasubtypeAvi : Int := 1

def mediasubtypeFlv : Int := 2

/-! ## The client -/

/-- The loop over `dotLoc`, from `n - 1` down. -/
def dotLoc (vidFile : List Char) : Nat → Option Nat
  | 0 => none
  | n + 1 => if vidFile[n]? = some '.' then some n else dotLoc vidFile n

/-- `(int)vidFile.length()` -/
def intLength (vidFile : List Char) : Int := (vidFile.length : Int).bmod (2 ^ 32)

def imageExtensions : List (List Char) :=
  ["jpg".toList, "jpeg".toList, "png".toList, "gif".toList, "bmp".toList]

def videoExtensions : List (List Char) :=
  ["avi".toList, "mpg".toList, "mpeg".toList, "flv".toList]

/-- The `type` of an extension. -/
def mediaTypeOf (extension : List Char) : Option (List Char) :=
  if extension ∈ imageExtensions then some "image".toList
  else if extension ∈ videoExtensions then some "video".toList
  else none

def requestQuery (strippedFileName type extension : List Char) : List Char :=
  "name=".toList ++ strippedFileName ++ "&type=".toList ++ type ++ "&subtype=".toList ++ extension

/-- The URL that is requested, or the exception thrown. -/
def registerOutputFile (serverUrl vidFile : List Char) : Except String (List Char) :=
  if vidFile = [] then .error "blank file name given!"
  else
    match dotLoc vidFile (intLength vidFile).toNat with
    | none | some 0 => .error "no dot for extension found, or no filename before dot"
    | some n =>
      match mediaTypeOf (vidFile.drop (n + 1)) with
      | none => .error "not one of supported file extensions"
      | some type =>
        .ok (serverUrl ++ "?".toList ++ requestQuery (vidFile.take n) type (vidFile.drop (n + 1)))

/-! ## Transport -/

/-- Characters of words, and the two delimiters of a query. -/
def isSendable (c : Char) : Bool := c.isAlphanum || c == '_' || c == '=' || c == '&'

/-- Where requests go: `SERVER_URL`, which names a page and has no query of its own,
the characters that end the query on its way, such as `#`, and whether the server's
PHP has magic quotes on, as it has by default. -/
structure Endpoint where
  serverUrl : List Char
  ends : Char → Bool
  magicQuotes : Bool
  noQuery : '?' ∉ serverUrl
  noNul : '\x00' ∉ serverUrl
  keeps : ∀ c, isSendable c = true → ends c = false

namespace Endpoint
variable (e : Endpoint)

/-- How much of a text reaches the server: the URL is a C string. -/
def cut (s : List Char) : List Char := (cStr s).takeWhile fun c => !e.ends c

/-- `QUERY_STRING` at the server. -/
def queryString (url : List Char) : List Char :=
  ((cStr url).dropWhile (· ≠ '?')).tail.takeWhile fun c => !e.ends c

/-- `$_GET` of the page that answers a query. -/
def pageGet (query : List Char) : List Char → Option PhpValue :=
  quoteGpc e.magicQuotes (phpGet query)

end Endpoint

/-! ## The server -/

/-- The text of a variable, as `.` and `==` take it. -/
def phpText : Option PhpValue → List Char
  | none => []
  | some (.str s) => s
  | some .array => "Array".toList

/-- `$v == ""`; an array is not equal to a string. -/
def isBlank : Option PhpValue → Bool
  | none => true
  | some v => v = .str []

/-- `getQSMediaType`; `none` is the empty string. -/
def getQSMediaType (get : List Char → Option PhpValue) (default : Option Int) : Option Int :=
  match get "type".toList with
  | none => default
  | some getm =>
    if getm = .str "video".toList then some mediatypeVideo
    else if getm = .str "image".toList then some mediatypeStillImage
    else if getm = .str [] then default
    else some mediatypeUnrecognized

/-- `getQSMediaSubType`; `none` is the undefined constant `MEDIATYPE_IMAGE`. -/
def getQSMediaSubType (get : List Char → Option PhpValue) (default : Int) : Option Int :=
  match get "subtype".toList with
  | some getm =>
    if getm = .str "jpg".toList then some mediasubtypeJpg
    else if getm = .str "avi".toList then some mediasubtypeAvi
    else if getm = .str "flv".toList then some mediasubtypeFlv
    else some default
  | none =>
    match getQSMediaType get none with
    -- the empty string equals 0, so the first case takes it
    | none => some mediasubtypeAvi
    | some mediatype =>
      if mediatype = mediatypeVideo then some mediasubtypeAvi
      else if mediatype = mediatypeStillImage then none
      else some mediasubtypeUnrecognized

/-- The columns that `srcAdded.php` gives a value, `creationTime` apart. -/
structure AddedRow where
  filepath : List Char
  mediatype : Int
  mediasubtype : Int
  data : List Char
  deriving DecidableEq, Repr

/-- The row in the table, with the time it was created and what the table has for
`lastupdated`. -/
def AddedRow.toVisual (row : AddedRow) (creationTime : Int) (lastupdated : Option Int) : Visual :=
  ⟨some row.filepath, some row.mediatype, some row.mediasubtype, some row.data, some creationTime,
    lastupdated⟩

/-- Why a page stores no row of its own. -/
inductive PageError
  | errorXml (input : List Char)
  /-- the server takes no statement that names an undefined constant, or whose text does
  not end -/
  | mysqlError
  /-- the name ends its literal elsewhere than the page does: what is stored, if
  anything, is up to the name -/
  | otherStatement
  deriving DecidableEq, Repr

/-- The statement from the mark that closes the name on. -/
def afterFileName (mediatype mediasubtype : Int) (additionaldata : List Char) : List Char :=
  "',".toList ++ ((toString mediatype).toList ++ ",".toList ++ (toString mediasubtype).toList ++
    ",'".toList ++ additionaldata ++ "',".toList ++ "NOW()".toList ++ ")".toList)

/-- The row that the `INSERT` of `srcAdded.php` stores. -/
def insertVisual (fileName : List Char) (mediatype mediasubtype : Int)
    (additionaldata : List Char) : Except PageError AddedRow :=
  match readLiteral (fileName ++ afterFileName mediatype mediasubtype additionaldata) with
  | none => .error .mysqlError
  | some (filepath, rest) =>
    if '\x27' :: rest = afterFileName mediatype mediasubtype additionaldata then
      .ok ⟨filepath, mediatype, mediasubtype, additionaldata⟩
    else .error .otherStatement

def srcAdded (get : List Char → Option PhpValue) : Except PageError AddedRow :=
  if isBlank (get "name".toList) then .error (.errorXml " parameter was not found".toList)
  else if isBlank (get "type".toList) then
    .error (.errorXml "QS_PARAMETER_MEDIA_TYPE parameter was not found".toList)
  else
    match getQSMediaType get (some mediatypeVideo) with
    -- no request comes to this: the default is not empty
    | none => .error .mysqlError
    | some mediatype =>
      if mediatype = mediatypeUnrecognized then
        .error (.errorXml ("Unrecognized value ".toList ++
          phpText (get "QS_PARAMETER_MEDIA_TYPE".toList) ++
          "in QS_PARAMETER_MEDIA_TYPE parameter".toList))
      else
        match getQSMediaSubType get mediasubtypeAvi with
        | none => .error .mysqlError
        | some mediasubtype =>
          insertVisual (phpText (get "name".toList)) mediatype mediasubtype []

/-! ## The law -/

/-- A name up to its last dot. -/
def stemOf (name : List Char) : List Char := ((name.reverse.dropWhile (· ≠ '.')).tail).reverse

/-- A name from its last dot on. -/
def extensionOf (name : List Char) : List Char := (name.reverse.takeWhile (· ≠ '.')).reverse

/-- The code of an extension, if it has one. -/
def mediasubtypeOf (extension : List Char) : Option Int :=
  if extension = "jpg".toList then some mediasubtypeJpg
  else if extension = "avi".toList then some mediasubtypeAvi
  else if extension = "flv".toList then some mediasubtypeFlv
  else none

/-- A row tells which file it stands for. -/
structure Identifies (row : AddedRow) (name : List Char) : Prop where
  filepath : row.filepath = stemOf name
  mediatype : row.mediatype = mediatypeVideo ↔ mediaTypeOf (extensionOf name) = some "video".toList
  mediasubtype : mediasubtypeOf (extensionOf name) = some row.mediasubtype
  onlyAvi : row.mediasubtype = mediasubtypeAvi → extensionOf name = "avi".toList

/-- Registering a name is turned away or gives a row that identifies the file. -/
def RegistrationLaw (e : Endpoint) (name : List Char) : Prop :=
  ∀ url, registerOutputFile e.serverUrl name = .ok url →
    ∀ row, srcAdded (e.pageGet (e.queryString url)) = .ok row → Identifies row name

/-- Some character of a text keeps what follows it from the server. -/
def IsCut (e : Endpoint) (s : List Char) : Prop := ∃ c ∈ s, c = '\x00' ∨ e.ends c = true

/-- A query that says which kind of media it is about. -/
def CarriesMedia (get : List Char → Option PhpValue) : Prop :=
  get "type".toList = some (.str "video".toList) ∨
    get "type".toList = some (.str "image".toList) ∧ get "subtype".toList ≠ none

/-- What a stem turns into as text of a query. -/
def stemGet (e : Endpoint) (stem : List Char) : List Char → Option PhpValue :=
  phpGet (e.cut ("name=".toList ++ stem))

/-- The name that a request sends is no more than a text in the statement: magic quotes
see to it, or it has no quotation mark and no backslash. -/
def SafelyQuoted (e : Endpoint) (name : List Char) : Prop :=
  e.magicQuotes = true ∨ IsLiteral (phpText (stemGet e (stemOf name) "name".toList))

/-- The names for which client and server agree: the stem, read as part of a query,
leaves the name blank, or cuts the query short before it carries a media type; or it
reaches the server as it is, and the extension has a code. -/
def AgreesOn (e : Endpoint) (name : List Char) : Prop :=
  isBlank (stemGet e (stemOf name) "name".toList) = true ∨
    (IsCut e (stemOf name) ∧ ¬ CarriesMedia (stemGet e (stemOf name))) ∨
    (¬ IsCut e (stemOf name) ∧ '&' ∉ stemOf name ∧ IsPlain (stemOf name) ∧
      mediasubtypeOf (extensionOf name) ≠ none)

/-! ## What the client sends -/

theorem dotLoc_eq_some {vidFile : List Char} {n k : Nat} (h : dotLoc vidFile n = some k) :
    vidFile[k]? = some '.' := by
  induction n with
  | zero => cases h
  | succ n ih =>
    rw [dotLoc] at h
    by_cases hn : vidFile[n]? = some '.'
    · rw [if_pos hn] at h
      cases h
      exact hn
    · rw [if_neg hn] at h
      exact ih h

theorem registerOutputFile_ok {serverUrl name url : List Char}
    (h : registerOutputFile serverUrl name = .ok url) : ∃ stem extension type,
      name = stem ++ '.' :: extension ∧ stem ≠ [] ∧ mediaTypeOf extension = some type ∧
        url = serverUrl ++ "?".toList ++ requestQuery stem type extension := by
  unfold registerOutputFile at h
  split at h
  · cases h
  · split at h
    · cases h
    · cases h
    · next n hzero hdot =>
      split at h
      · cases h
      · next type htype =>
        cases h
        obtain ⟨hlt, hget⟩ := List.getElem?_eq_some_iff.mp (dotLoc_eq_some hdot)
        refine ⟨_, _, type, ?_, fun hnil => ?_, htype, rfl⟩
        · rw [← hget, ← List.drop_eq_getElem_cons hlt, List.take_append_drop]
        · have hlength := congrArg List.length hnil
          rw [List.length_take_of_le hlt.le] at hlength
          exact hzero hlength

/-- The loop stops at the dot before a text without dots. -/
theorem dotLoc_append {stem extension : List Char} (h : '.' ∉ extension) :
    ∀ j ≤ extension.length,
      dotLoc (stem ++ '.' :: extension) (stem.length + 1 + j) = some stem.length := by
  intro j
  induction j with
  | zero =>
    intro _
    have hget : (stem ++ '.' :: extension)[stem.length]? = some '.' := by
      rw [List.getElem?_append_right (le_refl _), Nat.sub_self]
      rfl
    show dotLoc _ (stem.length + 1) = _
    rw [dotLoc, if_pos hget]
  | succ j ih =>
    intro hj
    have hget : (stem ++ '.' :: extension)[stem.length + 1 + j]? ≠ some '.' := by
      rw [List.getElem?_append_right (by omega)]
      have hsub : stem.length + 1 + j - stem.length = j + 1 := by omega
      rw [hsub, List.getElem?_cons_succ]
      exact fun hdot => h (List.mem_of_getElem? hdot)
    show dotLoc _ (stem.length + 1 + j + 1) = _
    rw [dotLoc, if_neg hget]
    exact ih (by omega)

theorem registerOutputFile_of_append (serverUrl : List Char) {stem extension type : List Char}
    (hstem : stem ≠ []) (hdot : '.' ∉ extension) (htype : mediaTypeOf extension = some type)
    (hlength : (stem ++ '.' :: extension).length < 2 ^ 31) :
    registerOutputFile serverUrl (stem ++ '.' :: extension) =
      .ok (serverUrl ++ "?".toList ++ requestQuery stem type extension) := by
  have hint : (intLength (stem ++ '.' :: extension)).toNat =
      stem.length + 1 + extension.length := by
    have hbound : ((stem ++ '.' :: extension).length : Int) < 2147483648 := by exact_mod_cast hlength
    have hbmod : intLength (stem ++ '.' :: extension) = (stem ++ '.' :: extension).length := by
      have hnonneg : (0 : Int) ≤ (stem ++ '.' :: extension).length := Int.natCast_nonneg _
      unfold intLength
      generalize ((stem ++ '.' :: extension).length : Int) = n at hbound hnonneg
      apply Int.bmod_eq_of_le_mul_two
      · norm_num
        omega
      · norm_num
        omega
    rw [hbmod, Int.toNat_natCast, List.length_append, List.length_cons]
    omega
  have hpos : 0 < stem.length := List.length_pos_of_ne_nil hstem
  obtain ⟨n, hn⟩ : ∃ n, stem.length = n + 1 := ⟨stem.length - 1, by omega⟩
  have htake : (stem ++ '.' :: extension).take (n + 1) = stem := by
    rw [← hn, List.take_left]
  have hdrop : (stem ++ '.' :: extension).drop (n + 1 + 1) = extension := by
    rw [← hn, ← List.drop_drop, List.drop_left]
    rfl
  rw [registerOutputFile, if_neg (List.append_ne_nil_of_left_ne_nil hstem _), hint,
    dotLoc_append hdot _ (le_refl _), hn]
  simp only [htake, hdrop, htype]

theorem stemOf_append {stem extension : List Char} (h : '.' ∉ extension) :
    stemOf (stem ++ '.' :: extension) = stem := by
  have hrev : ∀ c ∈ extension.reverse, decide (c ≠ '.') = true := fun c hc => by
    rw [decide_eq_true_eq]
    rintro rfl
    exact h (List.mem_reverse.mp hc)
  rw [stemOf, List.reverse_append, List.reverse_cons, List.append_assoc,
    List.dropWhile_append_of_pos hrev]
  simp

theorem extensionOf_append {stem extension : List Char} (h : '.' ∉ extension) :
    extensionOf (stem ++ '.' :: extension) = extension := by
  have hrev : ∀ c ∈ extension.reverse, decide (c ≠ '.') = true := fun c hc => by
    rw [decide_eq_true_eq]
    rintro rfl
    exact h (List.mem_reverse.mp hc)
  rw [extensionOf, List.reverse_append, List.reverse_cons, List.append_assoc,
    List.takeWhile_append_of_pos hrev]
  simp

/-- Letters and digits only. -/
def IsWord (s : List Char) : Prop := ∀ c ∈ s, c.isAlphanum = true

theorem isWord_of_all {s : List Char} (h : s.all Char.isAlphanum = true) : IsWord s :=
  List.all_eq_true.mp h

theorem IsWord.not_mem {s : List Char} {c : Char} (h : IsWord s) (hc : c.isAlphanum = false) :
    c ∉ s := fun hmem => by
  rw [h c hmem] at hc
  cases hc

theorem mediaTypeOf_cases {extension type : List Char} (h : mediaTypeOf extension = some type) :
    (type = "image".toList ∨ type = "video".toList) ∧
      extension ∈ imageExtensions ++ videoExtensions := by
  unfold mediaTypeOf at h
  by_cases himage : extension ∈ imageExtensions
  · rw [if_pos himage] at h
    cases h
    exact ⟨.inl rfl, List.mem_append_left _ himage⟩
  · rw [if_neg himage] at h
    by_cases hvideo : extension ∈ videoExtensions
    · rw [if_pos hvideo] at h
      cases h
      exact ⟨.inr rfl, List.mem_append_right _ hvideo⟩
    · rw [if_neg hvideo] at h
      cases h

theorem isWord_of_extension : ∀ extension ∈ imageExtensions ++ videoExtensions,
    IsWord extension := by
  have hall : (imageExtensions ++ videoExtensions).all (·.all Char.isAlphanum) = true := by rfl
  intro extension hextension
  exact isWord_of_all (List.all_eq_true.mp hall extension hextension)

/-! ## What reaches the server -/

section
variable {e : Endpoint} {s : List Char}

/-- A character that lets the rest of a text through. -/
def Endpoint.passes (e : Endpoint) (c : Char) : Bool := !e.ends c && decide (c ≠ '\x00')

theorem Endpoint.cut_eq (e : Endpoint) (s : List Char) : e.cut s = s.takeWhile e.passes := by
  rw [cut, cStr, List.takeWhile_takeWhile]
  congr 1
  funext c
  rw [Endpoint.passes, Bool.decide_and, Bool.decide_eq_true, Bool.decide_eq_true]

theorem isCut_iff : IsCut e s ↔ ∃ c ∈ s, ¬ e.passes c = true := by
  have hpasses : ∀ c, (c = '\x00' ∨ e.ends c = true) ↔ ¬ e.passes c = true := fun c => by
    by_cases hc : c = '\x00' <;> simp [Endpoint.passes, hc]
  simp only [IsCut, hpasses]

theorem passes_of_not_isCut (h : ¬ IsCut e s) : ∀ c ∈ s, e.passes c = true := fun c hc => by
  by_contra hstop
  exact h (isCut_iff.mpr ⟨c, hc, hstop⟩)

theorem not_isCut_of_sendable (h : s.all isSendable = true) : ¬ IsCut e s := by
  rintro ⟨c, hc, rfl | hends⟩
  · exact absurd (List.all_eq_true.mp h _ hc) (by decide)
  · rw [e.keeps c (List.all_eq_true.mp h c hc)] at hends
    cases hends

theorem IsWord.all_isSendable (h : IsWord s) : s.all isSendable = true := by
  refine List.all_eq_true.mpr fun c hc => ?_
  rw [isSendable, h c hc]
  rfl

theorem cut_append_of_not_isCut (h : ¬ IsCut e s) (t : List Char) :
    e.cut (s ++ t) = s ++ e.cut t := by
  rw [e.cut_eq, e.cut_eq, List.takeWhile_append_of_pos (passes_of_not_isCut h)]

theorem cut_of_not_isCut (h : ¬ IsCut e s) : e.cut s = s := by
  rw [e.cut_eq, List.takeWhile_eq_self_iff]
  exact passes_of_not_isCut h

theorem length_cut_lt (h : IsCut e s) : (e.cut s).length < s.length := by
  rw [e.cut_eq]
  refine lt_of_le_of_ne (List.takeWhile_prefix _).length_le fun heq => ?_
  have hself := (List.takeWhile_prefix e.passes).eq_of_length heq
  obtain ⟨c, hc, hstop⟩ := isCut_iff.mp h
  exact hstop (List.takeWhile_eq_self_iff.mp hself c hc)

theorem cut_append_of_isCut (h : IsCut e s) (t : List Char) : e.cut (s ++ t) = e.cut s := by
  have hlt := length_cut_lt h
  rw [e.cut_eq] at hlt
  rw [e.cut_eq, e.cut_eq, List.takeWhile_append, if_neg (by omega)]

/-- The server is asked what stands after the question mark. -/
theorem queryString_append (e : Endpoint) (query : List Char) :
    e.queryString (e.serverUrl ++ "?".toList ++ query) = e.cut query := by
  have hnul : ∀ c ∈ e.serverUrl ++ "?".toList, decide (c ≠ '\x00') = true := fun c hc => by
    rw [decide_eq_true_eq]
    rintro rfl
    obtain hc | hc := List.mem_append.mp hc
    · exact e.noNul hc
    · revert hc
      decide
  have hmark : ∀ c ∈ e.serverUrl, decide (c ≠ '?') = true := fun c hc => by
    rw [decide_eq_true_eq]
    rintro rfl
    exact e.noQuery hc
  rw [Endpoint.queryString, cStr, List.takeWhile_append_of_pos hnul, List.append_assoc,
    List.dropWhile_append_of_pos hmark]
  rfl

end

/-! ## What the server makes of it -/

section
variable {e : Endpoint} {stem extension type : List Char}

theorem requestQuery_eq (stem type extension : List Char) :
    requestQuery stem type extension =
      ("name=".toList ++ stem) ++ '&' :: ("type".toList ++ '=' :: type) ++
        '&' :: ("subtype".toList ++ '=' :: extension) := by
  have htype : "&type=".toList = '&' :: ("type".toList ++ ['=']) := by decide
  have hsubtype : "&subtype=".toList = '&' :: ("subtype".toList ++ ['=']) := by decide
  show "name=".toList ++ stem ++ "&type=".toList ++ type ++ "&subtype=".toList ++ extension = _
  rw [htype, hsubtype]
  simp only [List.append_assoc, List.cons_append, List.nil_append]

theorem IsWord.isPlain {s : List Char} (h : IsWord s) : IsPlain s :=
  isPlain_of_forall fun c hc => by
    constructor
    · rintro rfl
      exact h.not_mem (by decide) hc
    · rintro rfl
      exact h.not_mem (by decide) hc

theorem urlDecode_of_word {s : List Char} (h : IsWord s) : urlDecode s = s :=
  (urlDecode_eq_self_iff s).mpr h.isPlain

theorem name_keeps (e : Endpoint) : ¬ IsCut e "name=".toList := not_isCut_of_sendable rfl

theorem amp_not_mem {k w : List Char} (hk : '&' ∉ k) (hw : '&' ∉ w) : '&' ∉ k ++ '=' :: w := by
  rw [List.mem_append, List.mem_cons]
  rintro (h | h | h)
  · exact hk h
  · revert h
    decide
  · exact hw h

/-- A stem that gets through leaves type and subtype as they were sent. -/
theorem phpGet_request (hcut : ¬ IsCut e stem) (htype : IsWord type)
    (hextension : IsWord extension) :
    phpGet (e.cut (requestQuery stem type extension)) =
      Function.update (Function.update (stemGet e stem) "type".toList (some (.str type)))
        "subtype".toList (some (.str extension)) := by
  have htail : ¬ IsCut e ('&' :: ("type".toList ++ '=' :: type) ++
      '&' :: ("subtype".toList ++ '=' :: extension)) := by
    refine not_isCut_of_sendable ?_
    simp only [List.all_append, List.all_cons, htype.all_isSendable, hextension.all_isSendable]
    rfl
  have hwhole : e.cut (requestQuery stem type extension) = requestQuery stem type extension := by
    rw [requestQuery_eq, List.append_assoc, List.append_assoc,
      cut_append_of_not_isCut (name_keeps e), cut_append_of_not_isCut hcut,
      cut_of_not_isCut htail]
  have hstem : stemGet e stem = phpGet ("name=".toList ++ stem) := by
    rw [stemGet, cut_append_of_not_isCut (name_keeps e), cut_of_not_isCut hcut]
  have htypeAmp := amp_not_mem (k := "type".toList) (by decide) (htype.not_mem (by decide))
  have hsubtypeAmp := amp_not_mem (k := "subtype".toList) (by decide)
    (hextension.not_mem (by decide))
  rw [hwhole, requestQuery_eq,
    phpGet_snoc _ hsubtypeAmp (List.append_ne_nil_of_right_ne_nil _ (by simp)),
    phpGet_snoc _ htypeAmp (List.append_ne_nil_of_right_ne_nil _ (by simp)), ← hstem,
    assign_of_key (by rfl) (by decide), assign_of_key (by rfl) (by decide),
    urlDecode_of_word htype, urlDecode_of_word hextension]

/-- What follows a stem that does not get through is lost. -/
theorem phpGet_request_of_isCut (hcut : IsCut e stem) (type extension : List Char) :
    phpGet (e.cut (requestQuery stem type extension)) = stemGet e stem := by
  rw [requestQuery_eq, stemGet, List.append_assoc, List.append_assoc,
    cut_append_of_not_isCut (name_keeps e), cut_append_of_not_isCut (name_keeps e),
    cut_append_of_isCut hcut]

theorem phpText_ne {query stem : List Char} (hstem : stem ≠ []) (harray : stem ≠ "Array".toList)
    (hpieces : ∀ piece ∈ query.splitOn '&', piece.length < 5 + stem.length) :
    phpText (phpGet query "name".toList) ≠ stem := by
  intro htext
  cases hvalue : phpGet query "name".toList with
  | none =>
    rw [hvalue] at htext
    exact hstem htext.symm
  | some v =>
    rw [hvalue] at htext
    cases v with
    | array => exact harray htext.symm
    | str v =>
      replace htext : v = stem := htext
      have hlt := length_lt_of_phpGet hvalue (htext ▸ hstem) hpieces
      rw [htext] at hlt
      have hname : "name".toList.length = 4 := rfl
      omega

/-- The name is stored as it is exactly when it gets through, has no delimiter and
decodes to itself. -/
theorem phpText_stemGet_iff (hstem : stem ≠ []) :
    phpText (stemGet e stem "name".toList) = stem ↔
      ¬ IsCut e stem ∧ '&' ∉ stem ∧ IsPlain stem := by
  have hname : "name=".toList.length = 5 := rfl
  by_cases hcut : IsCut e stem
  · -- every piece lies within what is left of the stem
    have hpieces : ∀ piece ∈ (e.cut ("name=".toList ++ stem)).splitOn '&',
        piece.length < 5 + stem.length := fun piece hpiece => by
      have hle := length_le_of_mem_splitOn hpiece
      have hlt := length_cut_lt hcut
      rw [cut_append_of_not_isCut (name_keeps e), List.length_append] at hle
      omega
    have harray : stem ≠ "Array".toList := by
      rintro rfl
      exact not_isCut_of_sendable rfl hcut
    exact ⟨fun h => absurd h (phpText_ne hstem harray hpieces), fun h => absurd hcut h.1⟩
  · rw [stemGet, cut_append_of_not_isCut (name_keeps e), cut_of_not_isCut hcut]
    by_cases hamp : '&' ∈ stem
    · have hpieces : ∀ piece ∈ ("name=".toList ++ stem).splitOn '&',
          piece.length < 5 + stem.length := fun piece hpiece => by
        have hlt := length_lt_of_mem_splitOn (List.mem_append_right "name=".toList hamp) hpiece
        rw [List.length_append] at hlt
        omega
      have harray : stem ≠ "Array".toList := by
        rintro rfl
        revert hamp
        decide
      exact ⟨fun h => absurd h (phpText_ne hstem harray hpieces), fun h => absurd hamp h.2.1⟩
    · have hpiece : phpGet ("name".toList ++ '=' :: stem) "name".toList =
          some (.str (urlDecode stem)) := by
        rw [phpGet_piece (amp_not_mem (by decide) hamp)
          (List.append_ne_nil_of_right_ne_nil _ (by simp)), assign_of_key (by rfl) (by decide),
          Function.update_self]
      have htext : phpText (phpGet ("name=".toList ++ stem) "name".toList) = urlDecode stem :=
        congrArg phpText hpiece
      rw [htext, urlDecode_eq_self_iff]
      exact ⟨fun h => ⟨hcut, hamp, h⟩, fun h => h.2.2⟩

theorem getQSMediaType_video {get : List Char → Option PhpValue} (default : Option Int)
    (h : get "type".toList = some (.str "video".toList)) :
    getQSMediaType get default = some mediatypeVideo := by
  rw [getQSMediaType, h]
  rfl

theorem getQSMediaType_image {get : List Char → Option PhpValue} (default : Option Int)
    (h : get "type".toList = some (.str "image".toList)) :
    getQSMediaType get default = some mediatypeStillImage := by
  rw [getQSMediaType, h]
  rfl

/-! ### Under magic quotes -/

section
variable (magicQuotes : Bool) (get : List Char → Option PhpValue)

theorem isBlank_quoteGpc (name : List Char) :
    isBlank (quoteGpc magicQuotes get name) = isBlank (get name) := by
  have hblank : ∀ v : Option PhpValue, isBlank v = true ↔ v = none ∨ v = some (.str []) := by
    rintro (- | v)
    · exact iff_of_true rfl (.inl rfl)
    · simp [isBlank]
  rw [Bool.eq_iff_iff, hblank, hblank, quoteGpc_eq_none_iff, quoteGpc_eq_str_iff _ _ _ rfl]

theorem getQSMediaType_quoteGpc (default : Option Int) :
    getQSMediaType (quoteGpc magicQuotes get) default = getQSMediaType get default := by
  cases magicQuotes with
  | false => rfl
  | true =>
    simp only [getQSMediaType, quoteGpc, if_true]
    cases get "type".toList with
    | none => rfl
    | some v =>
      simp only [Option.map_some, quoteValue_eq_str_iff (w := "video".toList) rfl,
        quoteValue_eq_str_iff (w := "image".toList) rfl, quoteValue_eq_str_iff (w := []) rfl]

theorem getQSMediaSubType_quoteGpc (default : Int) :
    getQSMediaSubType (quoteGpc magicQuotes get) default = getQSMediaSubType get default := by
  have hmedia := getQSMediaType_quoteGpc magicQuotes get none
  cases magicQuotes with
  | false => rfl
  | true =>
    rw [getQSMediaSubType, getQSMediaSubType, hmedia]
    simp only [quoteGpc, if_true]
    cases get "subtype".toList with
    | none => rfl
    | some v =>
      simp only [Option.map_some, quoteValue_eq_str_iff (w := "jpg".toList) rfl,
        quoteValue_eq_str_iff (w := "avi".toList) rfl,
        quoteValue_eq_str_iff (w := "flv".toList) rfl]

theorem carriesMedia_quoteGpc : CarriesMedia (quoteGpc magicQuotes get) ↔ CarriesMedia get := by
  rw [CarriesMedia, CarriesMedia, quoteGpc_eq_str_iff _ _ _ rfl, quoteGpc_eq_str_iff _ _ _ rfl, Ne,
    quoteGpc_eq_none_iff]

end

/-- Whatever the codes, the name is stored as this text. -/
def StoresName (get : List Char → Option PhpValue) (filepath : List Char) : Prop :=
  ∀ mediatype mediasubtype, insertVisual (phpText (get "name".toList)) mediatype mediasubtype [] =
    .ok ⟨filepath, mediatype, mediasubtype, []⟩

theorem insertVisual_of_readLiteral {fileName filepath : List Char}
    (h : ∀ rest, rest.head? ≠ some '\x27' →
      readLiteral (fileName ++ '\x27' :: rest) = some (filepath, rest))
    (mediatype mediasubtype : Int) (additionaldata : List Char) :
    insertVisual fileName mediatype mediasubtype additionaldata =
      .ok ⟨filepath, mediatype, mediasubtype, additionaldata⟩ := by
  -- a comma follows the mark that closes the name
  obtain ⟨rest, hrest, hcomma⟩ : ∃ rest, afterFileName mediatype mediasubtype additionaldata =
      '\x27' :: rest ∧ rest.head? = some ',' := ⟨_, rfl, rfl⟩
  have hread := h rest (by rw [hcomma]; decide)
  rw [insertVisual, hrest, hread]
  exact if_pos rfl

/-- Under magic quotes every name is stored as it was sent, and without them a name that
needs none. -/
theorem storesName_quoteGpc {magicQuotes : Bool} {get : List Char → Option PhpValue}
    {filepath : List Char} (hname : phpText (get "name".toList) = filepath)
    (h : magicQuotes = true ∨ IsLiteral filepath) :
    StoresName (quoteGpc magicQuotes get) filepath := by
  intro mediatype mediasubtype
  subst hname
  refine insertVisual_of_readLiteral (fun rest hrest => ?_) mediatype mediasubtype []
  cases magicQuotes with
  | false => exact readLiteral_of_isLiteral (h.resolve_left (by decide)) hrest
  | true =>
    have htext : phpText (quoteGpc true get "name".toList) =
        addslashes (phpText (get "name".toList)) := by
      show phpText ((get "name".toList).map quoteValue) = _
      cases get "name".toList with
      | none => rfl
      | some v => cases v <;> rfl
    rw [htext]
    exact readLiteral_addslashes _ hrest

example : insertVisual "o'brien".toList 0 1 [] = .error .otherStatement := by decide

/-- Only for an image is there no subtype to fall back on. -/
theorem getQSMediaSubType_eq_none_iff (get : List Char → Option PhpValue) (default : Int) :
    getQSMediaSubType get default = none ↔
      get "subtype".toList = none ∧ get "type".toList = some (.str "image".toList) := by
  rw [getQSMediaSubType]
  cases hsubtype : get "subtype".toList with
  | some v =>
    refine iff_of_false (fun h => ?_) fun h => Option.some_ne_none v h.1
    dsimp only at h
    repeat' split at h
    all_goals cases h
  | none =>
    rw [and_iff_right rfl]
    constructor
    · intro h
      rw [getQSMediaType] at h
      cases htype : get "type".toList with
      | none =>
        rw [htype] at h
        cases h
      | some v =>
        rw [htype] at h
        by_cases hvideo : v = .str "video".toList
        · simp [hvideo] at h
        · by_cases himage : v = .str "image".toList
          · rw [himage]
          · by_cases hblank : v = .str []
            · simp [hblank] at h
            · simp only [if_neg hvideo, if_neg himage, if_neg hblank] at h
              cases h
    · intro himage
      simp only [getQSMediaType_image none himage]
      rfl

/-- With a name and a recognised media type only the subtype is left to fail. -/
theorem srcAdded_of_recognized {get : List Char → Option PhpValue} {filepath : List Char}
    {mediatype : Int} (hstores : StoresName get filepath)
    (hname : isBlank (get "name".toList) = false) (htype : isBlank (get "type".toList) = false)
    (hmedia : getQSMediaType get (some mediatypeVideo) = some mediatype)
    (hknown : mediatype ≠ mediatypeUnrecognized) :
    (∃ row, srcAdded get = .ok row) ↔ getQSMediaSubType get mediasubtypeAvi ≠ none := by
  rw [srcAdded, if_neg (Bool.eq_false_iff.mp hname), if_neg (Bool.eq_false_iff.mp htype), hmedia]
  simp only [if_neg hknown]
  cases getQSMediaSubType get mediasubtypeAvi with
  | none =>
    refine iff_of_false ?_ fun h => h rfl
    rintro ⟨row, hrow⟩
    cases hrow
  | some mediasubtype => exact iff_of_true ⟨_, hstores _ _⟩ (Option.some_ne_none _)

/-- Without a kind of media the request is turned away. -/
theorem srcAdded_of_unrecognized {get : List Char → Option PhpValue}
    (hvideo : get "type".toList ≠ some (.str "video".toList))
    (himage : get "type".toList ≠ some (.str "image".toList)) :
    ¬ ∃ row, srcAdded get = .ok row := by
  rintro ⟨row, hrow⟩
  rw [srcAdded] at hrow
  by_cases hname : isBlank (get "name".toList) = true
  · rw [if_pos hname] at hrow
    cases hrow
  · rw [if_neg hname] at hrow
    by_cases hblank : isBlank (get "type".toList) = true
    · rw [if_pos hblank] at hrow
      cases hrow
    · have hunknown : getQSMediaType get (some mediatypeVideo) = some mediatypeUnrecognized := by
        rw [getQSMediaType]
        cases htype : get "type".toList with
        | none =>
          rw [htype] at hblank
          exact absurd rfl hblank
        | some v =>
          rw [htype] at hvideo himage hblank
          simp only [if_neg fun h => hvideo (congrArg some h),
            if_neg fun h => himage (congrArg some h),
            if_neg fun h => hblank (decide_eq_true h)]
      rw [if_neg hblank, hunknown] at hrow
      cases hrow

/-- A request is taken exactly when it has a name and says which kind of media it is
about. -/
theorem srcAdded_ok_iff {get : List Char → Option PhpValue} {filepath : List Char}
    (hstores : StoresName get filepath) : (∃ row, srcAdded get = .ok row) ↔
      isBlank (get "name".toList) = false ∧ CarriesMedia get := by
  cases hname : isBlank (get "name".toList) with
  | true =>
    refine iff_of_false ?_ fun h => Bool.noConfusion h.1
    rintro ⟨row, hrow⟩
    rw [srcAdded, if_pos hname] at hrow
    cases hrow
  | false =>
    rw [and_iff_right rfl, CarriesMedia]
    by_cases hvideo : get "type".toList = some (.str "video".toList)
    · rw [srcAdded_of_recognized hstores hname (by rw [hvideo]; rfl) (getQSMediaType_video _ hvideo)
        (by decide), Ne, getQSMediaSubType_eq_none_iff]
      refine iff_of_true (fun h => ?_) (.inl hvideo)
      exact absurd (hvideo.symm.trans h.2) (by decide)
    · rw [or_iff_right hvideo]
      by_cases himage : get "type".toList = some (.str "image".toList)
      · rw [srcAdded_of_recognized hstores hname (by rw [himage]; rfl) (getQSMediaType_image _ himage)
          (by decide), Ne, getQSMediaSubType_eq_none_iff, and_iff_left himage, and_iff_right himage]
      · exact iff_of_false (srcAdded_of_unrecognized hvideo himage) fun h => himage h.1

theorem filepath_of_srcAdded {get : List Char → Option PhpValue} {filepath : List Char}
    {row : AddedRow} (hstores : StoresName get filepath) (h : srcAdded get = .ok row) :
    row.filepath = filepath := by
  simp only [srcAdded, hstores _ _] at h
  repeat' split at h
  all_goals cases h
  rfl

/-- Registered and let through, a file is stored under what its name decodes to and
the subtype the table has for its extension, AVI for want of one. -/
theorem srcAdded_request {magicQuotes : Bool} {get : List Char → Option PhpValue}
    (hsafe : magicQuotes = true ∨ IsLiteral (phpText (get "name".toList)))
    (htype : type = "image".toList ∨ type = "video".toList) :
    srcAdded (quoteGpc magicQuotes (Function.update (Function.update get "type".toList
        (some (.str type))) "subtype".toList (some (.str extension)))) =
      if isBlank (get "name".toList) then
        .error (.errorXml " parameter was not found".toList)
      else .ok ⟨phpText (get "name".toList),
        if type = "video".toList then mediatypeVideo else mediatypeStillImage,
        (mediasubtypeOf extension).getD mediasubtypeAvi, []⟩ := by
  have hname : ∀ t x, Function.update (Function.update get "type".toList t) "subtype".toList x
      "name".toList = get "name".toList := fun t x => by
    rw [Function.update_of_ne (by decide), Function.update_of_ne (by decide)]
  have htypeGet : ∀ t x, Function.update (Function.update get "type".toList t) "subtype".toList x
      "type".toList = t := fun t x => by
    rw [Function.update_of_ne (by decide), Function.update_self]
  have hsub : getQSMediaSubType (Function.update (Function.update get "type".toList
      (some (.str type))) "subtype".toList (some (.str extension))) mediasubtypeAvi =
      some ((mediasubtypeOf extension).getD mediasubtypeAvi) := by
    rw [getQSMediaSubType, Function.update_self, mediasubtypeOf]
    simp only [PhpValue.str.injEq]
    repeat' split
    all_goals rfl
  have hstores := storesName_quoteGpc
    (congrArg phpText (hname (some (.str type)) (some (.str extension)))) hsafe
  rw [srcAdded, isBlank_quoteGpc, isBlank_quoteGpc, getQSMediaType_quoteGpc,
    getQSMediaSubType_quoteGpc, hname, htypeGet, hsub]
  by_cases hblank : isBlank (get "name".toList) = true
  · rw [if_pos hblank, if_pos hblank]
  · rw [if_neg hblank, if_neg hblank]
    obtain rfl | rfl := htype
    · rw [getQSMediaType_image _ (htypeGet _ _)]
      exact hstores _ _
    · rw [getQSMediaType_video _ (htypeGet _ _)]
      exact hstores _ _

end

theorem isBlank_of_phpText {v : Option PhpValue} (h : phpText v ≠ []) : isBlank v = false := by
  cases v with
  | none => exact absurd rfl h
  | some v =>
    rw [isBlank, decide_eq_false_iff_not]
    rintro rfl
    exact h rfl

/-- A stem that gets through as it is, with a media type, is stored. -/
theorem srcAdded_of_isPlain {e : Endpoint} {magicQuotes : Bool} {stem extension type : List Char}
    (hstem : stem ≠ []) (hcut : ¬ IsCut e stem) (hamp : '&' ∉ stem) (hplain : IsPlain stem)
    (hsafe : magicQuotes = true ∨ IsLiteral stem) (htype : mediaTypeOf extension = some type) :
    srcAdded (quoteGpc magicQuotes (phpGet (e.cut (requestQuery stem type extension)))) = .ok ⟨stem,
      if type = "video".toList then mediatypeVideo else mediatypeStillImage,
      (mediasubtypeOf extension).getD mediasubtypeAvi, []⟩ := by
  obtain ⟨htypes, hextensions⟩ := mediaTypeOf_cases htype
  have htypeWord : IsWord type := by
    obtain rfl | rfl := htypes
    · exact isWord_of_all rfl
    · exact isWord_of_all rfl
  have htext := (phpText_stemGet_iff hstem).mpr ⟨hcut, hamp, hplain⟩
  rw [phpGet_request hcut htypeWord (isWord_of_extension extension hextensions),
    srcAdded_request (by rw [htext]; exact hsafe) htypes,
    isBlank_of_phpText (by rw [htext]; exact hstem), htext]
  rfl

/-! ## The exact condition -/

theorem registrationLaw_of_ok {e : Endpoint} {name query : List Char}
    (h : registerOutputFile e.serverUrl name = .ok (e.serverUrl ++ "?".toList ++ query)) :
    RegistrationLaw e name ↔
      ∀ row, srcAdded (e.pageGet (e.cut query)) = .ok row → Identifies row name := by
  constructor
  · intro law row hrow
    exact law _ h row (by rw [queryString_append]; exact hrow)
  · intro hrows url hurl row hrow
    obtain rfl := Except.ok.inj (h.symm.trans hurl)
    rw [queryString_append] at hrow
    exact hrows row hrow

/-- A stem that is cut short is never stored as it is. -/
theorem registrationLaw_iff_of_isCut {e : Endpoint} {stem extension : List Char}
    (hstem : stem ≠ []) (hdot : '.' ∉ extension) (hcut : IsCut e stem)
    (hsafe : e.magicQuotes = true ∨ IsLiteral (phpText (stemGet e stem "name".toList))) :
    (∀ row, srcAdded (quoteGpc e.magicQuotes (stemGet e stem)) = .ok row →
      Identifies row (stem ++ '.' :: extension)) ↔
      isBlank (stemGet e stem "name".toList) = true ∨ ¬ CarriesMedia (stemGet e stem) := by
  have hstores := storesName_quoteGpc rfl hsafe
  have hnone : (∀ row, srcAdded (quoteGpc e.magicQuotes (stemGet e stem)) = .ok row →
      Identifies row (stem ++ '.' :: extension)) ↔
      ¬ ∃ row, srcAdded (quoteGpc e.magicQuotes (stemGet e stem)) = .ok row := by
    constructor
    · rintro hrows ⟨row, hrow⟩
      have hpath := (hrows row hrow).filepath
      rw [filepath_of_srcAdded hstores hrow, stemOf_append hdot] at hpath
      exact ((phpText_stemGet_iff hstem).mp hpath).1 hcut
    · intro hnone row hrow
      exact absurd ⟨row, hrow⟩ hnone
  rw [hnone, srcAdded_ok_iff hstores, isBlank_quoteGpc, carriesMedia_quoteGpc, not_and_or,
    Bool.not_eq_false]

/-- The row of a stem that gets through. -/
theorem identifies_iff {e : Endpoint} {stem extension type : List Char} (hstem : stem ≠ [])
    (hdot : '.' ∉ extension) (hcut : ¬ IsCut e stem) (htype : mediaTypeOf extension = some type) :
    Identifies ⟨phpText (stemGet e stem "name".toList),
        if type = "video".toList then mediatypeVideo else mediatypeStillImage,
        (mediasubtypeOf extension).getD mediasubtypeAvi, []⟩ (stem ++ '.' :: extension) ↔
      '&' ∉ stem ∧ IsPlain stem ∧ mediasubtypeOf extension ≠ none := by
  constructor
  · intro hrow
    have hpath := hrow.filepath
    have hsubtype := hrow.mediasubtype
    rw [stemOf_append hdot] at hpath
    rw [extensionOf_append hdot] at hsubtype
    obtain ⟨-, hamp, hplain⟩ := (phpText_stemGet_iff hstem).mp hpath
    exact ⟨hamp, hplain, by rw [hsubtype]; exact Option.some_ne_none _⟩
  · rintro ⟨hamp, hplain, hsubtype⟩
    obtain ⟨code, hcode⟩ := Option.ne_none_iff_exists'.mp hsubtype
    refine ⟨?_, ?_, ?_, ?_⟩
    · rw [stemOf_append hdot]
      exact (phpText_stemGet_iff hstem).mpr ⟨hcut, hamp, hplain⟩
    · rw [extensionOf_append hdot, htype]
      by_cases hvideo : type = "video".toList
      · rw [if_pos hvideo, hvideo]
        exact iff_of_true rfl rfl
      · rw [if_neg hvideo]
        have hkind : ¬ mediatypeStillImage = mediatypeVideo := by decide
        exact iff_of_false hkind fun h => hvideo (Option.some.inj h)
    · rw [extensionOf_append hdot, hcode]
      rfl
    · -- of the codes only that of `avi` is 1
      rw [extensionOf_append hdot, hcode]
      unfold mediasubtypeOf at hcode
      intro havi
      replace havi : code = mediasubtypeAvi := havi
      subst havi
      by_cases hjpg : extension = "jpg".toList
      · rw [if_pos hjpg] at hcode
        cases hcode
      · rw [if_neg hjpg] at hcode
        by_cases hext : extension = "avi".toList
        · exact hext
        · rw [if_neg hext] at hcode
          split at hcode <;> cases hcode

/-- Client and server agree on a registered file exactly under `AgreesOn`, where its name
is no more than a text to the server. -/
theorem registrationLaw_iff {e : Endpoint} {name url : List Char}
    (h : registerOutputFile e.serverUrl name = .ok url) (hsafe : SafelyQuoted e name) :
    RegistrationLaw e name ↔ AgreesOn e name := by
  obtain ⟨stem, extension, type, rfl, hstem, htype, rfl⟩ := registerOutputFile_ok h
  obtain ⟨htypes, hextensions⟩ := mediaTypeOf_cases htype
  have hword := isWord_of_extension extension hextensions
  have hdot : '.' ∉ extension := hword.not_mem (by decide)
  rw [SafelyQuoted, stemOf_append hdot] at hsafe
  rw [registrationLaw_of_ok h, AgreesOn, stemOf_append hdot, extensionOf_append hdot,
    Endpoint.pageGet]
  by_cases hcut : IsCut e stem
  · rw [phpGet_request_of_isCut hcut, registrationLaw_iff_of_isCut hstem hdot hcut hsafe]
    simp only [hcut, not_true, true_and, false_and, or_false]
  · have htypeWord : IsWord type := by
      obtain rfl | rfl := htypes
      · exact isWord_of_all rfl
      · exact isWord_of_all rfl
    rw [phpGet_request hcut htypeWord hword, srcAdded_request hsafe htypes]
    by_cases hblank : isBlank (stemGet e stem "name".toList) = true
    · rw [if_pos hblank]
      exact iff_of_true (fun row hrow => by cases hrow) (.inl hblank)
    · rw [if_neg hblank]
      rw [or_iff_right hblank, or_iff_right (fun h => hcut h.1), and_iff_right hcut,
        ← identifies_iff hstem hdot hcut htype]
      constructor
      · exact fun hrows => hrows _ rfl
      · rintro hrow _ ⟨⟩
        exact hrow

/-- `SERVER_URL` in `face_detect.ini`, reached by a transport that drops fragments. -/
def localEndpoint : Endpoint where
  serverUrl := "http://localhost/planetariumsvc/srcAdded.php".toList
  ends c := c == '#'
  magicQuotes := true
  noQuery := by decide
  noNul := by decide
  keeps c hc := by
    rw [beq_eq_false_iff_ne]
    rintro rfl
    revert hc
    decide

theorem registrationLaw_avi : RegistrationLaw localEndpoint "video1.avi".toList := by
  have hstem : stemOf "video1.avi".toList = "video1".toList := by decide
  have hsent : registerOutputFile localEndpoint.serverUrl "video1.avi".toList =
      .ok (localEndpoint.serverUrl ++ "?name=video1&type=video&subtype=avi".toList) := by rfl
  refine (registrationLaw_iff hsent (.inl rfl)).mpr (.inr (.inr ?_))
  rw [hstem]
  exact ⟨not_isCut_of_sendable rfl, by decide, (isWord_of_all rfl).isPlain, by decide⟩

/-- A still image is stored with the subtype of AVI files. -/
theorem png_stored_as_avi : ¬ RegistrationLaw localEndpoint "a.png".toList := by
  intro law
  have hrow := law _ rfl ⟨"a".toList, mediatypeStillImage, mediasubtypeAvi, []⟩ (by rfl)
  exact absurd (hrow.onlyAvi rfl) (by decide)

end PlanetariumFD
