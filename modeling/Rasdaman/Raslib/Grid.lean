import Rasdaman.Raslib.CellOffset
import Rasdaman.Raslib.Tiling

/-!
# Raslib/Grid — the translates of a box by multiples of its extents

The translates of a box partition the space: a point lies in exactly one of them, the one `gridIndex`
names.
-/

namespace Rasdaman

namespace Box

variable {d : ℕ} {base b : Box d} {p : Point d} {k : Point d}

/-- `create_translation`. -/
def createTranslation (b : Box d) (t : Point d) : Box d where
  low := fun i => b.low i + t i
  high := fun i => b.high i + t i
  low_le_high := fun i => add_le_add_left (b.low_le_high i) (t i)

theorem mem_createTranslation {t : Point d} :
    p ∈ b.createTranslation t ↔ (fun i => p i - t i) ∈ b :=
  forall_congr' fun i => by simp only [createTranslation]; omega

theorem extents_createTranslation (b : Box d) (t : Point d) :
    (b.createTranslation t).extents = b.extents := by
  refine congrArg List.ofFn (funext fun i => ?_)
  simp only [extent, createTranslation]
  congr 1
  omega

theorem card_createTranslation (b : Box d) (t : Point d) :
    (b.createTranslation t).cells.card = b.cells.card := by
  rw [← prod_extents, ← prod_extents, extents_createTranslation]

/-- A translation keeps the order of the cells. -/
theorem pointAt_createTranslation (b : Box d) (t : Point d) (n : ℕ) :
    (b.createTranslation t).pointAt n = fun i => b.pointAt n i + t i := by
  funext i
  rw [pointAt, extents_createTranslation]
  simp only [pointAt, createTranslation]
  omega

/-- The translate of a box by multiples of its extents. -/
def gridCell (base : Box d) (k : Point d) : Box d :=
  base.createTranslation fun i => base.extent i * k i

/-- Which translate a point lies in. -/
def gridIndex (base : Box d) (p : Point d) : Point d := fun i => (p i - base.low i) / base.extent i

theorem extent_cast (b : Box d) (i : Fin d) : (b.extent i : ℤ) = b.high i - b.low i + 1 := by
  have := b.low_le_high i
  rw [extent]
  omega

theorem extent_cast_pos (b : Box d) (i : Fin d) : (0 : ℤ) < b.extent i := by
  exact_mod_cast b.extent_pos i

/-- A coordinate lies in the `k`-th translate of an interval exactly when it divides to `k`. -/
theorem ediv_extent_eq_iff {i : Fin d} {x y : ℤ} :
    (x - base.low i) / base.extent i = y ↔
      base.low i + base.extent i * y ≤ x ∧ x ≤ base.high i + base.extent i * y := by
  have hpos := base.extent_cast_pos i
  have hext := base.extent_cast i
  have hle := Int.le_ediv_iff_mul_le (a := y) (b := x - base.low i) hpos
  have hlt := Int.ediv_lt_iff_lt_mul (a := x - base.low i) (b := y + 1) hpos
  rw [Int.mul_comm] at hle
  rw [Int.add_mul, Int.mul_comm y, Int.one_mul] at hlt
  omega

theorem mem_gridCell : p ∈ base.gridCell k ↔ base.gridIndex p = k := by
  simp only [mem_def, gridCell, createTranslation, funext_iff, gridIndex, ediv_extent_eq_iff]

/-- **Two cells of a grid are disjoint or the same.** -/
theorem eq_of_gridCell_intersects {k' : Point d} (h : (base.gridCell k).Intersects (base.gridCell k')) :
    k = k' := by
  obtain ⟨p, hp, hp'⟩ := intersects_iff.mp h
  exact (mem_gridCell.mp hp).symm.trans (mem_gridCell.mp hp')

/-- A grid cell meets a box exactly when its number lies between those of the corners of the box. -/
theorem gridCell_intersects_iff :
    (base.gridCell k).Intersects b ↔
      ∀ i, base.gridIndex b.low i ≤ k i ∧ k i ≤ base.gridIndex b.high i := by
  refine forall_congr' fun i => ?_
  have hpos := base.extent_cast_pos i
  have hext := base.extent_cast i
  simp only [gridCell, createTranslation, gridIndex]
  rw [Int.le_ediv_iff_mul_le hpos, ← Int.lt_add_one_iff (b := k i), Int.ediv_lt_iff_lt_mul hpos,
    Int.add_mul, Int.mul_comm]
  omega

end Box

end Rasdaman
