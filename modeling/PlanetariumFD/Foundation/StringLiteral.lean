import PlanetariumFD.Foundation.QueryString

/-!
# String literals of a statement, and magic quotes

Between single quotation marks a backslash and the character after it stand for one
character, and two quotation marks for one. PHP's magic quotes put a backslash before
whatever would end such a literal or be read as an escape, so that the text is read
back as it was.
-/

namespace PlanetariumFD.StringLiteral

open QueryString

/-! ## Reading a literal -/

/-- What a backslash and the character after it stand for. -/
def escaped (c : Char) : List Char :=
  if c = '0' then ['\x00']
  else if c = 'b' then ['\x08']
  else if c = 'n' then ['\n']
  else if c = 'r' then ['\r']
  else if c = 't' then ['\t']
  else if c = 'Z' then ['\x1a']
  -- the wildcards of patterns keep their backslash
  else if c = '%' ∨ c = '_' then ['\\', c]
  else [c]

/-- The text of a literal after its opening mark, and what follows its closing one. -/
def readLiteral : List Char → Option (List Char × List Char)
  | [] => none
  | [c] => if c = '\x27' then some ([], []) else none
  | c :: d :: s =>
    if c = '\\' then (readLiteral s).map fun r => (escaped d ++ r.1, r.2)
    else if c = '\x27' then
      if d = '\x27' then (readLiteral s).map fun r => ('\x27' :: r.1, r.2)
      else some ([], d :: s)
    else (readLiteral (d :: s)).map fun r => (c :: r.1, r.2)

example : readLiteral "o\\'b\\\\r''ien\\_',1".toList =
    some ("o'b\\r'ien\\_".toList, ",1".toList) := by decide

/-! ## Magic quotes -/

def addslashes : List Char → List Char
  | [] => []
  | c :: s =>
    if c = '\x00' then '\\' :: '0' :: addslashes s
    else if c = '\x27' ∨ c = '"' ∨ c = '\\' then '\\' :: c :: addslashes s
    else c :: addslashes s

/-- A text that reads as itself between quotation marks. -/
def IsLiteral (s : List Char) : Prop := '\x27' ∉ s ∧ '\\' ∉ s

instance (s : List Char) : Decidable (IsLiteral s) := inferInstanceAs (Decidable (_ ∧ _))

/-- A value with magic quotes. -/
def quoteValue : PhpValue → PhpValue
  | .str s => .str (addslashes s)
  | .array => .array

/-- `$_GET` under `magic_quotes_gpc`. -/
def quoteGpc (magicQuotes : Bool) (get : List Char → Option PhpValue) :
    List Char → Option PhpValue :=
  if magicQuotes then fun name => (get name).map quoteValue else get

/-- `$_GET` of a page as PHP comes, with magic quotes on. -/
def magicGet (query : List Char) : List Char → Option PhpValue := quoteGpc true (phpGet query)

/-! ## What is read back -/

theorem readLiteral_cons_ordinary {c : Char} {s : List Char} (hslash : c ≠ '\\')
    (hquote : c ≠ '\x27') (hs : s ≠ []) :
    readLiteral (c :: s) = (readLiteral s).map fun r => (c :: r.1, r.2) := by
  obtain ⟨d, s, rfl⟩ := List.exists_cons_of_ne_nil hs
  rw [readLiteral, if_neg hslash, if_neg hquote]

theorem readLiteral_escape (c : Char) (s : List Char) :
    readLiteral ('\\' :: c :: s) = (readLiteral s).map fun r => (escaped c ++ r.1, r.2) := by
  rw [readLiteral, if_pos rfl]

/-- The closing mark, when no second one follows. -/
theorem readLiteral_close {rest : List Char} (h : rest.head? ≠ some '\x27') :
    readLiteral ('\x27' :: rest) = some ([], rest) := by
  cases rest with
  | nil => rfl
  | cons d s =>
    have hd : d ≠ '\x27' := fun hd => h (congrArg some hd)
    rw [readLiteral, if_neg (by decide), if_pos rfl, if_neg hd]

theorem escaped_special {c : Char} (h : c = '\x27' ∨ c = '"' ∨ c = '\\') : escaped c = [c] := by
  obtain rfl | rfl | rfl := h <;> decide

/-- What magic quotes have gone over is read back as it was. -/
theorem readLiteral_addslashes (s : List Char) {rest : List Char}
    (h : rest.head? ≠ some '\x27') :
    readLiteral (addslashes s ++ '\x27' :: rest) = some (s, rest) := by
  induction s with
  | nil => exact readLiteral_close h
  | cons c s ih =>
    rw [addslashes]
    by_cases hnul : c = '\x00'
    · rw [if_pos hnul, hnul, List.cons_append, List.cons_append, readLiteral_escape, ih]
      rfl
    · rw [if_neg hnul]
      by_cases hspecial : c = '\x27' ∨ c = '"' ∨ c = '\\'
      · rw [if_pos hspecial, List.cons_append, List.cons_append, readLiteral_escape, ih,
          escaped_special hspecial]
        rfl
      · rw [if_neg hspecial, List.cons_append, readLiteral_cons_ordinary
          (fun hc => hspecial (.inr (.inr hc))) (fun hc => hspecial (.inl hc)) (by simp), ih]
        rfl

theorem readLiteral_of_isLiteral {s rest : List Char} (hs : IsLiteral s)
    (h : rest.head? ≠ some '\x27') : readLiteral (s ++ '\x27' :: rest) = some (s, rest) := by
  induction s with
  | nil => exact readLiteral_close h
  | cons c s ih =>
    obtain ⟨hquote, hslash⟩ := hs
    rw [List.mem_cons, not_or] at hquote hslash
    rw [List.cons_append, readLiteral_cons_ordinary (Ne.symm hslash.1) (Ne.symm hquote.1) (by simp),
      ih ⟨hquote.2, hslash.2⟩]
    rfl

/-! ## What magic quotes leave alone -/

/-- Letters and digits, the empty text among them, are no target of magic quotes. -/
theorem addslashes_eq_iff {s w : List Char} (hw : w.all Char.isAlphanum = true) :
    addslashes s = w ↔ s = w := by
  induction s generalizing w with
  | nil => rfl
  | cons c s ih =>
    -- a backslash is no letter
    have hslash : ∀ t, '\\' :: t ≠ w := by
      rintro t rfl
      rw [List.all_cons] at hw
      exact absurd (Bool.and_eq_true_iff.mp hw).1 (by decide)
    rw [addslashes]
    by_cases hnul : c = '\x00'
    · rw [if_pos hnul]
      refine iff_of_false (hslash _) ?_
      rintro rfl
      rw [List.all_cons, hnul] at hw
      exact absurd (Bool.and_eq_true_iff.mp hw).1 (by decide)
    · rw [if_neg hnul]
      by_cases hspecial : c = '\x27' ∨ c = '"' ∨ c = '\\'
      · rw [if_pos hspecial]
        refine iff_of_false (hslash _) ?_
        rintro rfl
        rw [List.all_cons] at hw
        have hc := (Bool.and_eq_true_iff.mp hw).1
        obtain rfl | rfl | rfl := hspecial <;> exact absurd hc (by decide)
      · rw [if_neg hspecial]
        cases w with
        | nil => simp
        | cons d w =>
          rw [List.all_cons] at hw
          rw [List.cons.injEq, List.cons.injEq, ih (Bool.and_eq_true_iff.mp hw).2]

theorem quoteValue_eq_str_iff {v : PhpValue} {w : List Char} (hw : w.all Char.isAlphanum = true) :
    quoteValue v = .str w ↔ v = .str w := by
  cases v with
  | str s => rw [quoteValue, PhpValue.str.injEq, PhpValue.str.injEq, addslashes_eq_iff hw]
  | array => exact iff_of_false (fun h => by cases h) fun h => by cases h

section
variable (magicQuotes : Bool) (get : List Char → Option PhpValue) (name : List Char)

theorem quoteGpc_eq_none_iff : quoteGpc magicQuotes get name = none ↔ get name = none := by
  cases magicQuotes with
  | false => rfl
  | true => exact Option.map_eq_none_iff

/-- A value is one of the words of a page exactly when it was before magic quotes. -/
theorem quoteGpc_eq_str_iff {w : List Char} (hw : w.all Char.isAlphanum = true) :
    quoteGpc magicQuotes get name = some (.str w) ↔ get name = some (.str w) := by
  cases magicQuotes with
  | false => rfl
  | true =>
    show (get name).map quoteValue = some (.str w) ↔ _
    cases get name with
    | none => rfl
    | some v =>
      rw [Option.map_some, Option.some_inj, Option.some_inj, quoteValue_eq_str_iff hw]

end

end PlanetariumFD.StringLiteral
