import Mathlib

/-!
# Query strings as PHP reads them

A byte string is a list of characters. `phpGet` splits a query at `&`, each piece
at its first `=`, decodes both sides and assigns them in order, so the last
assignment to a name counts. Names are C strings; in them leading blanks are
dropped, blanks and dots become underscores, and brackets make an array.
-/

namespace PlanetariumFD.QueryString

/-- What a C string keeps of a byte string. -/
def cStr (s : List Char) : List Char := s.takeWhile (· ≠ '\x00')

/-! ## Decoding -/

def hexValue (c : Char) : Option Nat :=
  if '0' ≤ c ∧ c ≤ '9' then some (c.toNat - 48)
  else if 'a' ≤ c ∧ c ≤ 'f' then some (c.toNat - 87)
  else if 'A' ≤ c ∧ c ≤ 'F' then some (c.toNat - 55)
  else none

/-- The byte written as a percent sign and two hexadecimal digits. -/
def escapedByte (c d e : Char) : Option Char :=
  if c = '%' then
    match hexValue d, hexValue e with
    | some x, some y => some (Char.ofNat (16 * x + y))
    | _, _ => none
  else none

def plusToSpace (c : Char) : Char := if c = '+' then ' ' else c

def urlDecode : List Char → List Char
  | [] => []
  | [c] => [plusToSpace c]
  | [c, d] => [plusToSpace c, plusToSpace d]
  | c :: d :: e :: s =>
    match escapedByte c d e with
    | some b => b :: urlDecode s
    | none => plusToSpace c :: urlDecode (d :: e :: s)

/-- A text that decoding leaves alone. -/
def IsPlain (s : List Char) : Prop :=
  '+' ∉ s ∧ ∀ d e, [ '%', d, e ] <:+: s → escapedByte '%' d e = none

/-! ## Variables -/

inductive PhpValue
  | str (s : List Char)
  | array
  deriving DecidableEq, Repr

/-- A piece at its first `=`; without one the value is empty. -/
def splitPair (piece : List Char) : List Char × List Char :=
  (piece.takeWhile (· ≠ '='), (piece.dropWhile (· ≠ '=')).tail)

def nameChar (c : Char) : Char := if c = ' ' ∨ c = '.' then '_' else c

/-- A name and what follows it from the first bracket on: a bracket that is not
closed becomes an underscore. -/
def closeName (base : List Char) : List Char → List Char × Bool
  | [] => (base, false)
  | _ :: index => if ']' ∈ index then (base, true) else (base ++ '_' :: index, false)

/-- The variable that a decoded key names, and whether it is made an array. -/
def decodedName (key : List Char) : Option (List Char × Bool) :=
  if (key.takeWhile (· ≠ '[')) = [] then none
  else some (closeName ((key.takeWhile (· ≠ '[')).map nameChar) (key.dropWhile (· ≠ '[')))

def variableName (key : List Char) : Option (List Char × Bool) :=
  decodedName ((cStr (urlDecode key)).dropWhile (· = ' '))

def assign (vars : List Char → Option PhpValue) (piece : List Char) :
    List Char → Option PhpValue :=
  match variableName (splitPair piece).1 with
  | none => vars
  | some (name, isArray) =>
    Function.update vars name
      (some (if isArray then .array else .str (urlDecode (splitPair piece).2)))

/-- `$_GET` -/
def phpGet (query : List Char) : List Char → Option PhpValue :=
  ((query.splitOn '&').filter (· ≠ [])).foldl assign fun _ => none

/-! ## What decoding does -/

theorem cStr_of_not_mem {s : List Char} (h : '\x00' ∉ s) : cStr s = s := by
  rw [cStr, List.takeWhile_eq_self_iff]
  intro c hc
  rw [decide_eq_true_eq]
  rintro rfl
  exact h hc

theorem length_cStr_le (s : List Char) : (cStr s).length ≤ s.length :=
  (List.takeWhile_prefix _).length_le

theorem cStr_append {s t : List Char} (h : '\x00' ∉ s) : cStr (s ++ t) = s ++ cStr t := by
  rw [cStr, List.takeWhile_append_of_pos, cStr]
  intro c hc
  rw [decide_eq_true_eq]
  rintro rfl
  exact h hc

theorem not_mem_cStr (s : List Char) : '\x00' ∉ cStr s := by
  intro h
  rw [cStr] at h
  have hne := List.mem_takeWhile_imp h
  simp at hne

/-- A C string is shorter than the bytes it was made of exactly if they hold a NUL. -/
theorem length_cStr_lt_iff {s : List Char} : (cStr s).length < s.length ↔ '\x00' ∈ s := by
  constructor
  · intro hlt
    by_contra hnul
    rw [cStr_of_not_mem hnul] at hlt
    exact lt_irrefl _ hlt
  · intro hnul
    refine lt_of_le_of_ne (length_cStr_le s) fun hlen => ?_
    have heq : cStr s = s := (List.takeWhile_prefix _).eq_of_length hlen
    rw [← heq] at hnul
    exact not_mem_cStr s hnul

/-- What follows a NUL is not part of the string. -/
theorem cStr_append_of_mem {s : List Char} (h : '\x00' ∈ s) (t : List Char) :
    cStr (s ++ t) = cStr s := by
  have hlt : (s.takeWhile (· ≠ '\x00')).length < s.length := length_cStr_lt_iff.mpr h
  rw [cStr, List.takeWhile_append, if_neg hlt.ne, cStr]

theorem length_urlDecode_le (s : List Char) : (urlDecode s).length ≤ s.length := by
  induction s using urlDecode.induct with
  | case1 => exact le_refl _
  | case2 c => exact le_refl _
  | case3 c d => exact le_refl _
  | case4 c d e s b hb ih =>
    rw [urlDecode, hb]
    simp only [List.length_cons]
    omega
  | case5 c d e s hb ih =>
    rw [urlDecode, hb]
    simp only [List.length_cons] at ih ⊢
    omega

theorem isPlain_cons {c : Char} {s : List Char} (h : IsPlain (c :: s)) : IsPlain s :=
  ⟨fun hmem => h.1 (List.mem_cons_of_mem c hmem),
    fun d e hde => h.2 d e (hde.trans (List.suffix_cons c s).isInfix)⟩

theorem plusToSpace_eq_self_iff {c : Char} : plusToSpace c = c ↔ c ≠ '+' := by
  unfold plusToSpace
  by_cases h : c = '+'
  · subst h
    decide
  · simp [h]

theorem escapedByte_of_ne {c : Char} (h : c ≠ '%') (d e : Char) : escapedByte c d e = none :=
  if_neg h

/-- Decoding leaves exactly the plain texts alone. -/
theorem urlDecode_eq_self_iff (s : List Char) : urlDecode s = s ↔ IsPlain s := by
  induction s using urlDecode.induct with
  | case1 => simp [urlDecode, IsPlain]
  | case2 c =>
    have hshort : ∀ d e, ¬ [ '%', d, e ] <:+: [c] := fun d e h => by
      have := h.length_le
      simp at this
    simp [urlDecode, IsPlain, hshort, plusToSpace_eq_self_iff, @eq_comm _ '+']
  | case3 c d =>
    have hshort : ∀ x e, ¬ [ '%', x, e ] <:+: [c, d] := fun x e h => by
      have := h.length_le
      simp at this
    simp [urlDecode, IsPlain, hshort, plusToSpace_eq_self_iff, @eq_comm _ '+']
  | case4 c d e s b hb ih =>
    -- an escape makes the text shorter, and it is no plain text
    have hc : c = '%' := by
      by_contra hc
      rw [escapedByte_of_ne hc] at hb
      cases hb
    subst hc
    rw [urlDecode, hb]
    constructor
    · intro h
      have hlen := congrArg List.length h
      have hle := length_urlDecode_le s
      simp only [List.length_cons] at hlen
      omega
    · intro h
      rw [h.2 d e (List.prefix_append [ '%', d, e ] s).isInfix] at hb
      cases hb
  | case5 c d e s hb ih =>
    rw [urlDecode, hb]
    constructor
    · intro h
      obtain ⟨hc, hrest⟩ := List.cons.inj h
      obtain ⟨hplus, hescape⟩ := ih.mp hrest
      refine ⟨?_, fun x y hxy => ?_⟩
      · rw [List.mem_cons, not_or]
        exact ⟨(plusToSpace_eq_self_iff.mp hc).symm, hplus⟩
      · obtain hpre | hin := List.infix_cons_iff.mp hxy
        · simp only [List.cons_prefix_cons] at hpre
          obtain ⟨rfl, rfl, rfl, -⟩ := hpre
          exact hb
        · exact hescape x y hin
    · intro h
      have hc : c ≠ '+' := fun hc => h.1 (hc ▸ List.mem_cons_self)
      show plusToSpace c :: urlDecode (d :: e :: s) = c :: d :: e :: s
      rw [plusToSpace_eq_self_iff.mpr hc, ih.mpr (isPlain_cons h)]

theorem isPlain_of_forall {s : List Char} (h : ∀ c ∈ s, c ≠ '+' ∧ c ≠ '%') : IsPlain s :=
  ⟨fun hmem => (h _ hmem).1 rfl, fun _ _ hde =>
    absurd rfl (h '%' (hde.subset List.mem_cons_self)).2⟩

/-! ## Splitting -/

theorem splitPair_append {k v : List Char} (h : '=' ∉ k) : splitPair (k ++ '=' :: v) = (k, v) := by
  have hk : ∀ c ∈ k, decide (c ≠ '=') = true := fun c hc => by
    rw [decide_eq_true_eq]
    rintro rfl
    exact h hc
  rw [splitPair, List.takeWhile_append_of_pos hk, List.dropWhile_append_of_pos hk]
  simp

theorem splitPair_length (piece : List Char) : (splitPair piece).2 = [] ∨
    (splitPair piece).1.length + 1 + (splitPair piece).2.length = piece.length := by
  have hsplit := congrArg List.length (List.takeWhile_append_dropWhile (p := (· ≠ '=')) (l := piece))
  rw [List.length_append] at hsplit
  unfold splitPair
  cases hdrop : piece.dropWhile (· ≠ '=') with
  | nil => exact .inl rfl
  | cons c v =>
    rw [hdrop, List.length_cons] at hsplit
    exact .inr (by simp only [List.tail_cons]; omega)

theorem length_le_of_mem_splitOn {a : Char} {p l : List Char} (h : p ∈ l.splitOn a) :
    p.length ≤ l.length := by
  induction hn : l.length using Nat.strong_induction_on generalizing l with
  | _ n ih =>
    subst hn
    by_cases ha : a ∈ l
    · obtain ⟨xs, ys, rfl⟩ := List.append_of_mem ha
      rw [List.splitOn_append_cons_self, List.mem_append] at h
      simp only [List.length_append, List.length_cons]
      obtain h | h := h
      · have := ih xs.length (by simp) h rfl
        omega
      · have := ih ys.length (by simp; omega) h rfl
        omega
    · rw [List.splitOn_eq_singleton ha, List.mem_singleton] at h
      rw [h]

/-- A piece of a text with a separator is shorter than the text. -/
theorem length_lt_of_mem_splitOn {a : Char} {p l : List Char} (ha : a ∈ l)
    (h : p ∈ l.splitOn a) : p.length < l.length := by
  obtain ⟨xs, ys, rfl⟩ := List.append_of_mem ha
  rw [List.splitOn_append_cons_self, List.mem_append] at h
  simp only [List.length_append, List.length_cons]
  obtain h | h := h
  · have := length_le_of_mem_splitOn h
    omega
  · have := length_le_of_mem_splitOn h
    omega

/-! ## Variables and the pieces they come from -/

theorem length_closeName_le (base rest : List Char) :
    (closeName base rest).1.length ≤ base.length + rest.length := by
  cases rest with
  | nil => exact le_refl _
  | cons c index =>
    rw [closeName]
    split
    · exact Nat.le_add_right _ _
    · rw [List.length_append, List.length_cons, List.length_cons]

/-- A name is no longer than its key. -/
theorem length_variableName_le {key name : List Char} {isArray : Bool}
    (h : variableName key = some (name, isArray)) : name.length ≤ key.length := by
  have hdecode := length_urlDecode_le key
  have hcut : (cStr (urlDecode key)).length ≤ (urlDecode key).length :=
    (List.takeWhile_prefix _).length_le
  have hdrop : ((cStr (urlDecode key)).dropWhile (· = ' ')).length ≤
      (cStr (urlDecode key)).length := (List.dropWhile_suffix _).length_le
  unfold variableName at h
  generalize (cStr (urlDecode key)).dropWhile (· = ' ') = k at h hdrop
  have hsplit := congrArg List.length (List.takeWhile_append_dropWhile (p := (· ≠ '[')) (l := k))
  rw [List.length_append] at hsplit
  unfold decodedName at h
  split at h
  · cases h
  · have hclose := length_closeName_le ((k.takeWhile (· ≠ '[')).map nameChar)
      (k.dropWhile (· ≠ '['))
    rw [List.length_map] at hclose
    have hname : name.length = (closeName ((k.takeWhile (· ≠ '[')).map nameChar)
        (k.dropWhile (· ≠ '['))).1.length := by rw [Option.some.inj h]
    omega

theorem assign_of_name {vars : List Char → Option PhpValue} {piece name : List Char}
    {isArray : Bool} (h : variableName (splitPair piece).1 = some (name, isArray)) :
    assign vars piece = Function.update vars name
      (some (if isArray then .array else .str (urlDecode (splitPair piece).2))) := by
  simp only [assign, h]

/-- The value of a variable comes from a piece of the query. -/
theorem exists_piece_of_phpGet {query name : List Char} {v : PhpValue}
    (h : phpGet query name = some v) : ∃ piece ∈ query.splitOn '&', ∃ isArray,
      variableName (splitPair piece).1 = some (name, isArray) ∧
        v = if isArray then .array else .str (urlDecode (splitPair piece).2) := by
  have hfold : ∀ (pieces : List (List Char)) (vars : List Char → Option PhpValue),
      pieces.foldl assign vars name = some v → vars name = some v ∨ ∃ piece ∈ pieces, ∃ isArray,
        variableName (splitPair piece).1 = some (name, isArray) ∧
          v = if isArray then .array else .str (urlDecode (splitPair piece).2) := by
    intro pieces
    induction pieces with
    | nil => exact fun vars h => .inl h
    | cons piece pieces ih =>
      intro vars h
      obtain hvars | ⟨p, hp, hrest⟩ := ih (assign vars piece) h
      · cases hn : variableName (splitPair piece).1 with
        | none =>
          simp only [assign, hn] at hvars
          exact .inl hvars
        | some q =>
          obtain ⟨n, isArray⟩ := q
          rw [assign_of_name hn] at hvars
          by_cases hname : name = n
          · subst hname
            rw [Function.update_self] at hvars
            exact .inr ⟨piece, List.mem_cons_self, isArray, hn, (Option.some.inj hvars).symm⟩
          · rw [Function.update_of_ne hname] at hvars
            exact .inl hvars
      · exact .inr ⟨p, List.mem_cons_of_mem _ hp, hrest⟩
  obtain h | ⟨piece, hp, hrest⟩ := hfold _ _ h
  · cases h
  · exact ⟨piece, (List.mem_filter.mp hp).1, hrest⟩

/-- A value is shorter than the piece it comes from by the name and the `=`. -/
theorem length_lt_of_phpGet {query name v : List Char} {n : Nat}
    (h : phpGet query name = some (.str v)) (hv : v ≠ [])
    (hpieces : ∀ piece ∈ query.splitOn '&', piece.length < n) :
    name.length + 1 + v.length < n := by
  obtain ⟨piece, hpiece, isArray, hname, hvalue⟩ := exists_piece_of_phpGet h
  have hlt := hpieces piece hpiece
  have hkey := length_variableName_le hname
  cases isArray with
  | true => cases hvalue
  | false =>
    replace hvalue : v = urlDecode (splitPair piece).2 := by simpa using hvalue
    have hdecode := length_urlDecode_le (splitPair piece).2
    rw [← hvalue] at hdecode
    obtain hempty | hlength := splitPair_length piece
    · rw [hempty] at hvalue
      exact absurd hvalue hv
    · omega

/-- A key that names itself. -/
theorem assign_of_key {vars : List Char → Option PhpValue} {k : List Char}
    (hk : variableName k = some (k, false)) (heq : '=' ∉ k) (v : List Char) :
    assign vars (k ++ '=' :: v) = Function.update vars k (some (.str (urlDecode v))) := by
  have hpair := splitPair_append (v := v) heq
  rw [assign_of_name (by rw [hpair]; exact hk), hpair]
  rfl

theorem phpGet_piece {p : List Char} (hp : '&' ∉ p) (hne : p ≠ []) :
    phpGet p = assign (fun _ => none) p := by
  rw [phpGet, List.splitOn_eq_singleton hp, List.filter_cons_of_pos (by simpa using hne)]
  rfl

/-- The last piece is assigned last. -/
theorem phpGet_snoc (query : List Char) {p : List Char} (hp : '&' ∉ p) (hne : p ≠ []) :
    phpGet (query ++ '&' :: p) = assign (phpGet query) p := by
  have hfilter : [p].filter (· ≠ []) = [p] := List.filter_cons_of_pos (by simpa using hne)
  rw [phpGet, List.splitOn_append_cons_self, List.splitOn_eq_singleton hp, List.filter_append,
    hfilter, List.foldl_append]
  rfl

end PlanetariumFD.QueryString
