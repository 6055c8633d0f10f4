import Mathlib.Tactic.Linarith
import Rasdaman.Raslib.Grid
import Rasdaman.Raslib.Miter

/-!
# Raslib/MiterRange — when the `int`s of `r_Miter` suffice

The constructor of `r_Miter` keeps the offset of the first cell, the repetitions and the increments in
`int`s.  `InRange` says that none of these values is too large; then the iterator walks as in memory
without bounds.
-/

namespace Rasdaman

open MiterDirect

namespace Miter

/-- No value that the constructor computes for some dimensions leaves the range of an `int`. -/
def NoOverflow (cellSize : ℕ) : (prevTIncIter incIter firstOff : ℤ) → List MiterSpan → Prop
  | _, _, _, [] => True
  | prevTIncIter, incIter, firstOff, sp :: sps =>
    prevTIncIter < 2 ^ 31 ∧ incIter < 2 ^ 31 ∧ sp.high - sp.low + 1 < 2 ^ 31 ∧
      firstOff + (sp.low - sp.origin) * prevTIncIter * cellSize < 2 ^ 31 ∧
      NoOverflow cellSize (sp.extent * prevTIncIter)
        ((sp.extent * prevTIncIter - (sp.high - sp.low + 1) * prevTIncIter) * cellSize)
        (firstOff + (sp.low - sp.origin) * prevTIncIter * cellSize) sps

instance decidableNoOverflow (cellSize : ℕ) :
    ∀ (prev inc off : ℤ) (sps : List MiterSpan), Decidable (NoOverflow cellSize prev inc off sps)
  | _, _, _, [] => isTrue trivial
  | prev, _, off, sp :: sps =>
    haveI := decidableNoOverflow cellSize (sp.extent * prev)
      ((sp.extent * prev - (sp.high - sp.low + 1) * prev) * cellSize)
      (off + (sp.low - sp.origin) * prev * cellSize) sps
    inferInstanceAs (Decidable (_ ∧ _ ∧ _ ∧ _ ∧ _))

theorem toUInt_toUInt_mul (a c : ℤ) : toUInt (toUInt a * c) = toUInt (a * c) := by
  rw [toUInt, toUInt, toUInt, Int.mul_emod, Int.emod_emod, ← Int.mul_emod]

theorem toUInt_toInt_sub (a b : ℤ) : toUInt (toInt a - b) = toUInt (a - b) := by
  rw [toUInt, toUInt, toInt, Int.bmod_def]
  omega

/-- **Nothing wraps around** in the constructor when its values are in range. -/
theorem setup_eq_of_noOverflow {cellSize : ℕ} {sps : List MiterSpan} (h : Inside sps)
    (prev inc off : ℤ) (hprev : 0 < prev) (hinc : 0 ≤ inc) (hoff : 0 ≤ off)
    (hrange : NoOverflow cellSize prev inc off sps) :
    setup cellSize (toInt prev) (toUInt inc) off sps =
      (placedInc cellSize prev inc sps 0, off + addr (prev * cellSize) sps 0) := by
  induction sps generalizing prev inc off with
  | nil => simp [setup, placedInc, addr]
  | cons sp sps ih =>
    obtain ⟨⟨hlow, hle, hhigh⟩, hsps⟩ := List.forall_mem_cons.mp h
    obtain ⟨hprevLt, hincLt, hrepLt, hoffLt, hrest⟩ := hrange
    have hrep := iterExtent_cast hle
    have hoff' : 0 ≤ (sp.low - sp.origin) * prev * cellSize :=
      Int.mul_nonneg (Int.mul_nonneg (by omega) hprev.le) (Int.natCast_nonneg _)
    have hinc' : 0 ≤ (sp.extent * prev - (sp.high - sp.low + 1) * prev) * cellSize := by
      rw [← Int.sub_mul]
      exact Int.mul_nonneg (Int.mul_nonneg (by omega) hprev.le) (Int.natCast_nonneg _)
    rw [setup, toInt_of_lt hprev.le hprevLt, toUInt_of_lt hinc (by omega)]
    rw [toInt_of_lt (by omega) hrepLt, toInt_of_lt (by omega) hoffLt, toUInt_toInt_sub,
      toUInt_toUInt_mul,
      ih hsps _ _ _ (Int.mul_pos (by omega) hprev) hinc' (by omega) hrest, toInt_of_lt hinc hincLt,
      placedInc, addr, Nat.zero_mod, Nat.zero_div, hrep]
    simp only [Nat.cast_zero, add_zero, Prod.mk.injEq, true_and]
    ring_nf

/-- The values are in range for an array of less than `2^31` bytes. -/
theorem noOverflow_of_bytes {cellSize : ℕ} {sps : List MiterSpan} (h : Inside sps)
    {prev inc off : ℤ} (hprev : 0 < prev) (hinc : inc < 2 ^ 31) (hoff : off ≤ (prev - 1) * cellSize)
    (hcells : prev * total sps < 2 ^ 31) (hsize : prev * total sps * cellSize < 2 ^ 31) :
    NoOverflow cellSize prev inc off sps := by
  induction sps generalizing prev inc off with
  | nil => trivial
  | cons sp sps ih =>
    obtain ⟨⟨hlow, hle, hhigh⟩, hsps⟩ := List.forall_mem_cons.mp h
    have htotal : prev * total (sp :: sps) = sp.extent * prev * total sps := by
      simp only [total, List.map_cons, List.prod_cons]
      ring
    have htp : 1 ≤ total sps := total_pos hsps
    have hext : 1 ≤ sp.extent := by omega
    have hextPrev : sp.extent ≤ sp.extent * prev := le_mul_of_one_le_right (by omega) hprev
    have hprevExt : prev ≤ sp.extent * prev := le_mul_of_one_le_left hprev.le hext
    rw [htotal] at hcells hsize
    -- the cells and the bytes up to this dimension
    have hcellsHere : sp.extent * prev < 2 ^ 31 :=
      (le_mul_of_one_le_right (by omega) htp).trans_lt hcells
    have hbytesHere : sp.extent * prev * cellSize < 2 ^ 31 :=
      (Int.mul_le_mul_of_nonneg_right (le_mul_of_one_le_right (by omega) htp)
        (Int.natCast_nonneg _)).trans_lt hsize
    have hnext : off + (sp.low - sp.origin) * prev * cellSize ≤ (sp.extent * prev - 1) * cellSize := by
      have hmul : (sp.low - sp.origin) * prev ≤ (sp.extent - 1) * prev :=
        Int.mul_le_mul_of_nonneg_right (by omega) hprev.le
      have := Int.mul_le_mul_of_nonneg_right hmul (Int.natCast_nonneg cellSize)
      linarith
    refine ⟨by omega, hinc, by omega, by linarith, ih hsps (by omega) ?_ hnext hcells hsize⟩
    have hrep : 0 ≤ (sp.high - sp.low + 1) * prev * cellSize :=
      Int.mul_nonneg (Int.mul_nonneg (by omega) hprev.le) (Int.natCast_nonneg _)
    linarith

section Area

variable {d : ℕ} {tile area : Box (d + 1)} {cellSize : ℕ}

/-- The values that the iterator over an area of a tile computes are in the range of an `int`. -/
def InRange (tile area : Box (d + 1)) (cellSize : ℕ) : Prop :=
  NoOverflow cellSize 1 cellSize 0 (spans tile area)

instance (tile area : Box (d + 1)) (cellSize : ℕ) : Decidable (InRange tile area cellSize) :=
  decidableNoOverflow ..

/-- The iterator starts at the first point of the area. -/
theorem make_of_inRange (h : tile.Covers area) (hrange : InRange tile area cellSize) :
    make tile area cellSize = stateAt tile area cellSize 0 := by
  have hcell : (cellSize : ℤ) < 2 ^ 31 := by
    rw [InRange, spans_eq] at hrange
    exact hrange.2.1
  have hsetup := setup_eq_of_noOverflow (inside_spans h) 1 cellSize 0 Int.one_pos
    (Int.natCast_nonneg _) le_rfl hrange
  rw [toInt_of_lt (by omega) (by omega), toUInt_of_lt (by omega) (by omega)] at hsetup
  rw [make, hsetup, stateAt, one_mul, zero_add]

/-- The values are in range for a tile of less than `2^31` bytes; a cell counts one byte at least. -/
theorem inRange_of_bytes (h : tile.Covers area)
    (hsize : tile.cells.card * max cellSize 1 < 2 ^ 31) : InRange tile area cellSize := by
  have hcard : 0 < tile.cells.card := tile.card_cells_pos
  have hcells : tile.cells.card < 2 ^ 31 :=
    (Nat.le_mul_of_pos_right _ (lt_max_of_lt_right Nat.one_pos)).trans_lt hsize
  have hbytes : tile.cells.card * cellSize < 2 ^ 31 :=
    (Nat.mul_le_mul_left _ (le_max_left ..)).trans_lt hsize
  have hcell : cellSize < 2 ^ 31 := (Nat.le_mul_of_pos_left _ hcard).trans_lt hbytes
  refine noOverflow_of_bytes (inside_spans h) Int.one_pos (by exact_mod_cast hcell) (by simp) ?_ ?_
  · rw [total_spans, one_mul]
    exact_mod_cast hcells
  · rw [total_spans, one_mul]
    exact_mod_cast hbytes

/-- The iterator starts at the first point of the area of a tile of less than `2^31` bytes. -/
theorem make_eq_stateAt (hcell : 0 < cellSize) (h : tile.Covers area)
    (hsize : tile.cells.card * cellSize < 2 ^ 31) :
    make tile area cellSize = stateAt tile area cellSize 0 :=
  make_of_inRange h (inRange_of_bytes h (by rwa [max_eq_left hcell]))

/-- Only the extents matter, and where the area begins in the tile. -/
theorem noOverflow_congr {ι : Type} {f g : ι → MiterSpan}
    (h : ∀ i, (g i).extent = (f i).extent ∧ (g i).low - (g i).origin = (f i).low - (f i).origin ∧
      (g i).high - (g i).low = (f i).high - (f i).low)
    (l : List ι) (prev inc off : ℤ) (hrange : NoOverflow cellSize prev inc off (l.map f)) :
    NoOverflow cellSize prev inc off (l.map g) := by
  induction l generalizing prev inc off with
  | nil => trivial
  | cons i l ih =>
    obtain ⟨hextent, hlow, hhigh⟩ := h i
    obtain ⟨hprev, hinc, hrep, hoff, hrest⟩ := hrange
    rw [← hhigh] at hrep hrest
    rw [← hlow] at hoff hrest
    rw [← hextent] at hrest
    exact ⟨hprev, hinc, hrep, hoff, ih _ _ _ hrest⟩

/-- An iterator that is in range still is where tile and area are translated. -/
theorem InRange.createTranslation (hrange : InRange tile area cellSize) (v : Point (d + 1)) :
    InRange (tile.createTranslation v) (area.createTranslation v) cellSize := by
  rw [InRange, spans, List.ofFn_eq_map, ← List.map_reverse] at hrange ⊢
  refine noOverflow_congr (fun i => ?_) _ _ _ _ hrange
  simp only [Box.createTranslation]
  omega

end Area

end Miter

end Rasdaman
