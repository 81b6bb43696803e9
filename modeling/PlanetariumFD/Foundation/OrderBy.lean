import Mathlib

/-!
# Ordered selections with a limit

What a query with `ORDER BY key LIMIT n` may answer: the rows with the least keys,
as many as there are up to `n`, ties broken in any way. The rules below say what
raising the keys of an answer does to the next one.
-/

namespace PlanetariumFD.OrderBy

universe u v

/-- `out` answers the query for `rows` in the order of `key`. -/
structure Selects {ι : Type u} {κ : Type v} [LinearOrder κ] (key : ι → κ) (n : Nat)
    (rows out : List ι) : Prop where
  nodup : out.Nodup
  subset : ∀ x ∈ out, x ∈ rows
  length : out.length = min n rows.length
  sorted : out.Pairwise fun x y => key x ≤ key y
  least : ∀ x ∈ out, ∀ y ∈ rows, y ∉ out → key x ≤ key y

section
variable {ι : Type u} {κ : Type v} [LinearOrder κ] {key key' : ι → κ} {n : Nat}
  {rows out stamped returned : List ι}

instance [DecidableEq ι] : Decidable (Selects key n rows out) :=
  decidable_of_iff (out.Nodup ∧ (∀ x ∈ out, x ∈ rows) ∧ out.length = min n rows.length ∧
      (out.Pairwise fun x y => key x ≤ key y) ∧ ∀ x ∈ out, ∀ y ∈ rows, y ∉ out → key x ≤ key y)
    ⟨fun h => ⟨h.1, h.2.1, h.2.2.1, h.2.2.2.1, h.2.2.2.2⟩,
      fun h => ⟨h.nodup, h.subset, h.length, h.sorted, h.least⟩⟩

/-- Every query has an answer. -/
theorem exists_selects (key : ι → κ) (n : Nat) (hrows : rows.Nodup) :
    ∃ out, Selects key n rows out := by
  have hperm := List.mergeSort_perm rows fun x y => decide (key x ≤ key y)
  have hsorted : (rows.mergeSort fun x y => decide (key x ≤ key y)).Pairwise
      fun x y => key x ≤ key y := by
    have hpairs : (rows.mergeSort fun x y => decide (key x ≤ key y)).Pairwise
        fun x y => decide (key x ≤ key y) = true :=
      List.pairwise_mergeSort
        (fun a b c hab hbc =>
          decide_eq_true ((of_decide_eq_true hab).trans (of_decide_eq_true hbc)))
        (fun a b => by simp [le_total]) rows
    exact hpairs.imp fun h => of_decide_eq_true h
  generalize rows.mergeSort (fun x y => decide (key x ≤ key y)) = sorted at hperm hsorted
  have hnodup := hperm.nodup_iff.mpr hrows
  refine ⟨sorted.take n, hnodup.sublist (List.take_sublist _ _), fun x hx => ?_, ?_,
    hsorted.sublist (List.take_sublist _ _), fun x hx y hy hy' => ?_⟩
  · exact hperm.subset (List.mem_of_mem_take hx)
  · rw [List.length_take, hperm.length_eq]
  · -- what is not taken stands behind what is
    have hmem : y ∈ sorted.drop n := by
      have hy := hperm.symm.subset hy
      rw [← List.take_append_drop n sorted, List.mem_append] at hy
      exact hy.resolve_left hy'
    rw [← List.take_append_drop n sorted] at hsorted
    exact (List.pairwise_append.mp hsorted).2.2 x hx y hmem

/-- Within the limit an answer has every row. -/
theorem Selects.mem_iff (h : Selects key n rows out) (hle : rows.length ≤ n) (x : ι) :
    x ∈ out ↔ x ∈ rows := by
  have hlength : out.length = rows.length := by rw [h.length, min_eq_right hle]
  have hperm : out.Perm rows :=
    (h.nodup.subperm h.subset).perm_of_length_le hlength.ge
  exact hperm.mem_iff

/-- Past the limit a row is left over. -/
theorem Selects.exists_not_mem (h : Selects key n rows out) (hrows : rows.Nodup)
    (hlt : n < rows.length) : ∃ y ∈ rows, y ∉ out := by
  by_contra hall
  push Not at hall
  have hle := (hrows.subperm hall).length_le
  rw [h.length, min_eq_left hlt.le] at hle
  omega

/-- An answer whose keys are then raised above all others is answered again exactly
when it had every row, or none. -/
theorem Selects.again_iff (hrows : rows.Nodup) (h : Selects key n rows stamped)
    (h' : Selects key' n rows returned) {top : κ} (htop : ∀ x ∈ stamped, key' x = top)
    (hothers : ∀ x ∈ rows, x ∉ stamped → key' x < top) :
    (∀ x, x ∈ returned ↔ x ∈ stamped) ↔ rows.length ≤ n ∨ n = 0 := by
  constructor
  · intro hsame
    by_contra hlimit
    push Not at hlimit
    obtain ⟨hlt, hpos⟩ := hlimit
    obtain ⟨y, hy, hleft⟩ := h.exists_not_mem hrows hlt
    have hlength : returned.length = n := by rw [h'.length, min_eq_left hlt.le]
    obtain ⟨x, hx⟩ := List.exists_mem_of_length_pos (hlength ▸ Nat.pos_of_ne_zero hpos)
    -- a row left over has a smaller key than one that was raised
    have hle := h'.least x hx y hy fun hmem => hleft ((hsame y).mp hmem)
    rw [htop x ((hsame x).mp hx)] at hle
    exact absurd (hothers y hy hleft) (not_lt.mpr hle)
  · rintro (hle | rfl) x
    · rw [h.mem_iff hle, h'.mem_iff hle]
    · have hnone : ∀ {l : List ι}, l.length = min 0 rows.length → l = [] := fun hl =>
        List.length_eq_zero_iff.mp (by rw [hl, Nat.zero_min])
      rw [hnone h.length, hnone h'.length]

/-- The rows that come before `y`, or tie with it. -/
def ahead [DecidableEq ι] (key : ι → κ) (rows : List ι) (y : ι) : Finset ι :=
  rows.toFinset.filter fun x => x ≠ y ∧ key x ≤ key y

theorem mem_ahead [DecidableEq ι] {x y : ι} :
    x ∈ ahead key rows y ↔ x ∈ rows ∧ x ≠ y ∧ key x ≤ key y := by
  rw [ahead, Finset.mem_filter, List.mem_toFinset]

/-- An answer that leaves `y` out takes from the rows ahead of it, as many as were asked for;
with their keys raised, that many fewer are ahead. -/
theorem Selects.card_ahead [DecidableEq ι] {out : List ι} {y : ι} {top : κ}
    (h : Selects key n rows out) (hy : y ∈ rows) (hleft : y ∉ out)
    (hraised : ∀ x ∈ out, key' x = top) (hkept : ∀ x ∈ rows, x ∉ out → key' x = key x)
    (hbelow : key y < top) : (ahead key' rows y).card + n = (ahead key rows y).card := by
  have hlength : out.length = n := by
    rw [h.length, min_eq_left]
    by_contra hlt
    exact hleft ((h.mem_iff (by omega) y).mpr hy)
  have hkey : key' y = key y := hkept y hy hleft
  have hsub : out.toFinset ⊆ ahead key rows y := by
    intro x hx
    rw [List.mem_toFinset] at hx
    exact mem_ahead.mpr ⟨h.subset x hx, fun hxy => hleft (hxy ▸ hx), h.least x hx y hy hleft⟩
  have hrest : ahead key' rows y = ahead key rows y \ out.toFinset := by
    ext x
    rw [Finset.mem_sdiff, mem_ahead, mem_ahead, List.mem_toFinset, hkey]
    by_cases hx : x ∈ out
    · -- raised past `y`
      rw [hraised x hx]
      exact iff_of_false (fun hahead => absurd hahead.2.2 (not_le.mpr hbelow)) fun hout => hout.2 hx
    · constructor
      · rintro ⟨hrow, hne, hle⟩
        exact ⟨⟨hrow, hne, hkept x hrow hx ▸ hle⟩, hx⟩
      · rintro ⟨⟨hrow, hne, hle⟩, -⟩
        exact ⟨hrow, hne, (hkept x hrow hx).symm ▸ hle⟩
  rw [hrest, ← hlength, ← List.toFinset_card_of_nodup h.nodup]
  exact Finset.card_sdiff_add_card_eq_card hsub

end

end PlanetariumFD.OrderBy
