import Mathlib

/-!
# `getIniValue`

The overloads that read a setting from an ini file in the current directory. Those
for numbers call the one for strings with an empty default and parse what it gives.
The variable passed by reference is an argument with its old value and a result.
-/

namespace PlanetariumFD

/-- The texts of an ini file by section and key. -/
abbrev IniFile := String → String → Option String

/-- What `sscanf_s` stores for `%d` and `%f`, where it returns 1. -/
structure Sscanf (F : Type) where
  int : String → Option Int
  float : String → Option F

namespace Sscanf

/-- The sign after leading blanks, and what follows. -/
def signed (text : String) : Int × List Char :=
  match text.toList.dropWhile Char.isWhitespace with
  | '-' :: cs => (-1, cs)
  | '+' :: cs => (1, cs)
  | cs => (1, cs)

/-- Exact scanning of numbers of any size that have no exponent. -/
def decimal : Sscanf ℚ where
  int text :=
    let (sign, cs) := signed text
    let digits := cs.takeWhile Char.isDigit
    if digits = [] then none else some (sign * Nat.ofDigitChars 10 digits 0)
  float text :=
    let (sign, cs) := signed text
    let whole := cs.takeWhile Char.isDigit
    let fraction := match cs.dropWhile Char.isDigit with
      | '.' :: cs => cs.takeWhile Char.isDigit
      | _ => []
    if whole ++ fraction = [] then none
    else some (sign * (Nat.ofDigitChars 10 (whole ++ fraction) 0 / 10 ^ fraction.length))

example : decimal.int " -12abc" = some (-12) ∧ decimal.float "1.5" = some (3 / 2) ∧
    decimal.float "x" = none := by decide +kernel

end Sscanf

/-- The text that `GetPrivateProfileStringA` leaves in the buffer. -/
def getPrivateProfileStringA (ini : IniFile) (pSection pKey pDefultValue : String) : String :=
  (ini pSection pKey).getD pDefultValue

namespace IniFile

/-- The overload for strings: an empty buffer leaves the variable alone. -/
def getIniValue (ini : IniFile) (pSection pKey pDefultValue value : String) : Bool × String :=
  let lpBuffer := getPrivateProfileStringA ini pSection pKey pDefultValue
  if lpBuffer.length = 0 then (false, value) else (true, lpBuffer)

/-- The overloads for numbers, which differ in the conversion. -/
def getIniNumber {T : Type} (scan : String → Option T) (ini : IniFile) (pSection pKey : String)
    (defultValue : T) : Bool × T :=
  let (found, valueStr) := ini.getIniValue pSection pKey "" ""
  match if found then scan valueStr else none with
  | some value => (true, value)
  | none => (false, defultValue)

def getIniInt {F : Type} (sscanf : Sscanf F) (ini : IniFile) (pSection pKey : String)
    (defultValue : Int) : Bool × Int :=
  getIniNumber sscanf.int ini pSection pKey defultValue

def getIniFloat {F : Type} (sscanf : Sscanf F) (ini : IniFile) (pSection pKey : String)
    (defultValue : F) : Bool × F :=
  getIniNumber sscanf.float ini pSection pKey defultValue

/-! ## The contract -/

/-- The text of the key, unless it is empty. -/
def textOf (ini : IniFile) (pSection pKey : String) : Option String :=
  (ini pSection pKey).filter (· ≠ "")

/-- A call gives what was parsed, or else its default, and tells which. -/
structure MeetsContract {T : Type} (parsed : Option T) (defultValue : T) (result : Bool × T) :
    Prop where
  returned : result.1 = true ↔ parsed.isSome = true
  onTrue : ∀ v, parsed = some v → result.2 = v
  onFalse : parsed = none → result.2 = defultValue

theorem meetsContract_iff {T : Type} {parsed : Option T} {defultValue : T} {result : Bool × T} :
    MeetsContract parsed defultValue result ↔
      result = (parsed.isSome, parsed.getD defultValue) := by
  constructor
  · intro h
    cases parsed with
    | none => exact Prod.ext (Bool.eq_iff_iff.mpr h.returned) (h.onFalse rfl)
    | some v => exact Prod.ext (Bool.eq_iff_iff.mpr h.returned) (h.onTrue v rfl)
  · rintro rfl
    refine ⟨Iff.rfl, fun v hv => ?_, fun hnone => ?_⟩
    · rw [hv]
      rfl
    · rw [hnone]
      rfl

section
variable {ini : IniFile} {pSection pKey : String}

/-- With an empty default the call for strings tells whether there is a text. -/
theorem getIniValue_empty (value : String) : ini.getIniValue pSection pKey "" value =
    ((ini.textOf pSection pKey).isSome, (ini.textOf pSection pKey).getD value) := by
  unfold getIniValue getPrivateProfileStringA textOf
  cases ini pSection pKey with
  | none => rfl
  | some text =>
    by_cases h : text = ""
    · simp [h, Option.filter]
    · simp [h, Option.filter]

theorem getIniNumber_eq {T : Type} (scan : String → Option T) (defultValue : T) :
    getIniNumber scan ini pSection pKey defultValue =
      (((ini.textOf pSection pKey).bind scan).isSome,
        ((ini.textOf pSection pKey).bind scan).getD defultValue) := by
  rw [getIniNumber, getIniValue_empty]
  cases ini.textOf pSection pKey with
  | none => rfl
  | some text =>
    show (match scan text with
      | some value => (true, value)
      | none => (false, defultValue)) = ((scan text).isSome, (scan text).getD defultValue)
    cases scan text <;> rfl

/-- The overload for strings keeps the contract where the key has a text, where it has an
empty one and the variable held the default, and where default and variable were empty. -/
theorem getIniValue_meetsContract_iff (pDefultValue value : String) :
    MeetsContract (ini.textOf pSection pKey) pDefultValue
        (ini.getIniValue pSection pKey pDefultValue value) ↔
      (∃ text, ini pSection pKey = some text ∧ text ≠ "") ∨
        (ini pSection pKey = some "" ∧ value = pDefultValue) ∨
        (ini pSection pKey = none ∧ pDefultValue = "" ∧ value = "") := by
  rw [meetsContract_iff]
  unfold getIniValue getPrivateProfileStringA textOf
  cases hkey : ini pSection pKey with
  | none =>
    by_cases h : pDefultValue = ""
    · simp [h]
    · simp [h]
  | some text =>
    by_cases h : text = ""
    · simp [h, Option.filter]
    · simp [h, Option.filter]

end

end IniFile

end PlanetariumFD
