import PlanetariumFD.Foundation.Refinement

/-!
# Windows over a numbered stream

A window holds the items of a stream from `lo` up to `hi`. It opens at the end by
one item at a time, and is cut at the front while more than `least` items are in
it. What has left the window never comes back.
-/

namespace PlanetariumFD

open Relation Refinement

/-- The items `lo`, `lo + 1`, .., `hi - 1`. -/
structure Window where
  lo : Nat
  hi : Nat
  le : lo ≤ hi

namespace Window

def size (w : Window) : Nat := w.hi - w.lo

def opened (w : Window) : Window := ⟨w.lo, w.hi + 1, Nat.le_succ_of_le w.le⟩

def cut (w : Window) (h : w.lo < w.hi) : Window := ⟨w.lo + 1, w.hi, h⟩

inductive Next (least : Nat) : Window → Window → Prop
  | opens (w : Window) : Next least w w.opened
  | cuts (w : Window) (h : w.lo < w.hi) (long : least < w.size) : Next least w (w.cut h)

variable {least : Nat} {v w : Window}

theorem lo_le_of_steps (h : ReflTransGen (Next least) v w) : v.lo ≤ w.lo := by
  refine le_of_steps (fun x y hxy => ?_) h
  cases hxy with
  | opens => exact le_refl _
  | cuts hlt long => exact Nat.le_succ _

/-- Once `least` items are in the window, there are always that many. -/
theorem least_le_of_steps (h : ReflTransGen (Next least) v w) (hv : least ≤ v.size) :
    least ≤ w.size := by
  refine of_steps (P := fun w => least ≤ w.size) (fun x y hxy hx => ?_) h hv
  cases hxy with
  | opens =>
    simp only [size, opened] at hx ⊢
    omega
  | cuts hlt long =>
    simp only [size, cut] at long ⊢
    omega

end Window

end PlanetariumFD
