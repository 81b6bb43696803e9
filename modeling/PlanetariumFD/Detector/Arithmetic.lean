import Mathlib

/-!
# Float arithmetic of the detector

The detector computes distances, area ratios and averages in `float`. The model
keeps the arithmetic as a parameter: `FloatOps` names the operations the source
uses, an instance says how they round. Results about matching hold for every
instance; the numeric results are stated for the exact instance on `ℚ`.
-/

namespace PlanetariumFD

class FloatOps (F : Type) extends Add F, Sub F, Mul F, Div F where
  /-- `(float)n` -/
  ofInt : Int → F
  sqrt : F → F
  floor : F → F
  ceil : F → F
  abs : F → F
  /-- `(int)f` -/
  toInt : F → Int
  lt : F → F → Bool
  le : F → F → Bool

/-- The literal `0.0`. -/
instance (priority := low) zeroLiteral {F : Type} [FloatOps F] : Zero F := ⟨FloatOps.ofInt 0⟩

/-- Exact arithmetic. The square root is exact where it is rational. -/
instance : FloatOps ℚ where
  ofInt n := n
  sqrt q := (Nat.sqrt q.num.toNat : ℚ) / (Nat.sqrt q.den : ℚ)
  floor q := (⌊q⌋ : ℤ)
  ceil q := (⌈q⌉ : ℤ)
  abs q := |q|
  toInt q := q.num.tdiv q.den
  lt p q := decide (p < q)
  le p q := decide (p ≤ q)

section
variable {F : Type} [FloatOps F]

def myRound (f : F) : Int :=
  if FloatOps.lt (FloatOps.abs (f - FloatOps.floor f)) (FloatOps.abs (f - FloatOps.ceil f)) then
    FloatOps.toInt (FloatOps.floor f)
  else
    FloatOps.toInt (FloatOps.ceil f)

end

/-- With exact arithmetic `my_round` rounds to a nearest integer, halves up. -/
theorem myRound_eq_round (q : ℚ) : myRound q = round q := by
  have toInt_cast (n : ℤ) : FloatOps.toInt (n : ℚ) = n := by
    show (n : ℚ).num.tdiv ((n : ℚ).den : ℤ) = n
    simp
  have hdef : myRound q = if |q - (⌊q⌋ : ℚ)| < |q - (⌈q⌉ : ℚ)| then ⌊q⌋ else ⌈q⌉ := by
    show (if decide (|q - (⌊q⌋ : ℚ)| < |q - (⌈q⌉ : ℚ)|) = true then
      FloatOps.toInt ((⌊q⌋ : ℤ) : ℚ) else FloatOps.toInt ((⌈q⌉ : ℤ) : ℚ)) = _
    simp only [toInt_cast, decide_eq_true_eq]
  have hlo := Int.floor_le q
  have hhi := Int.le_ceil q
  rw [hdef, round_eq, abs_of_nonneg (by linarith), abs_of_nonpos (by linarith)]
  rcases (Int.floor_le_ceil q).eq_or_lt with he | hlt
  · have hq : q = (⌊q⌋ : ℚ) := le_antisymm (he ▸ hhi) hlo
    rw [if_neg (by rw [← he]; linarith), ← he]
    rw [hq, Int.floor_intCast]
    exact (Int.floor_eq_iff.mpr ⟨by linarith, by linarith⟩).symm
  · have hc : ⌈q⌉ = ⌊q⌋ + 1 := le_antisymm (Int.ceil_le_floor_add_one q) hlt
    rw [hc]
    push_cast
    have hup := Int.lt_floor_add_one q
    split
    · exact (Int.floor_eq_iff.mpr ⟨by linarith, by linarith⟩).symm
    · exact (Int.floor_eq_iff.mpr ⟨by push_cast; linarith, by push_cast; linarith⟩).symm

/-! ## Arithmetic without rounding -/

/-- Real arithmetic, in which every square root is exact. -/
noncomputable instance : FloatOps ℝ where
  ofInt n := n
  sqrt r := √r
  floor r := (⌊r⌋ : ℤ)
  ceil r := (⌈r⌉ : ℤ)
  abs r := |r|
  toInt r := if 0 ≤ r then ⌊r⌋ else ⌈r⌉
  lt p q := decide (p < q)
  le p q := decide (p ≤ q)

/-- A value stands for a number, and quotients and the strict comparison are those of the
numbers. -/
class ExactOps (F : Type) [FloatOps F] where
  val : F → ℝ
  val_ofInt (n : Int) : val (FloatOps.ofInt n) = n
  val_div (a b : F) : val (a / b) = val a / val b
  lt_iff (a b : F) : FloatOps.lt a b = true ↔ val a < val b

noncomputable instance : ExactOps ℝ where
  val := id
  val_ofInt _ := rfl
  val_div _ _ := rfl
  lt_iff _ _ := decide_eq_true_iff

noncomputable instance : ExactOps ℚ where
  val := (↑)
  val_ofInt n := Rat.cast_intCast n
  val_div a b := Rat.cast_div a b
  lt_iff _ _ := decide_eq_true_iff.trans Rat.cast_lt.symm

end PlanetariumFD
