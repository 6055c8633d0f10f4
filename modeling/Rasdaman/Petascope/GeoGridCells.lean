import Mathlib
import Rasdaman.Machinery.Cells
import Rasdaman.Petascope.SubsetsCompose

/-!
# Petascope/GeoGridCells — the cells that a geo subset selects on a regular axis

**A subset selects its cells** (`selectsItsCells_iff`) on an axis that runs forwards, unless it is the upper
end of the axis in another scale.  On one that runs backwards floor and ceiling are exchanged: the upper limit
has to be on the border of a cell, and the lower one on a border or in that cell.
-/

namespace Rasdaman

namespace Petascope

open CoordinateTranslationService

/-- A regular axis of a number of cells: its geo bounds, its resolution, and its lower grid bound. -/
structure RegularGrid where
  geoDomain : ParsedSubset BigDecimal
  resolution : BigDecimal
  gridDomainMin : BigDecimal
  first : ℤ
  cells : ℕ
  resolution_ne : resolution.val ≠ 0
  cells_pos : 0 < cells
  gridDomainMin_val : gridDomainMin.val = first
  extent : geoDomain.upperLimit.val - geoDomain.lowerLimit.val = cells * |resolution.val|

namespace RegularGrid

variable (grid : RegularGrid)

/-- The last grid coordinate. -/
def last : ℤ := grid.first + grid.cells - 1

/-- The geo coordinate where a cell begins: the cells are counted from the minimum of the axis, or from its
maximum if the resolution is negative. -/
def cellMin (k : ℤ) : ℚ :=
  if 0 < grid.resolution.val then grid.geoDomain.lowerLimit.val + (k - grid.first) * grid.resolution.val
  else grid.geoDomain.upperLimit.val + (k - grid.first + 1) * grid.resolution.val

/-- The geo coordinate where a cell ends. -/
def cellMax (k : ℤ) : ℚ := grid.cellMin k + |grid.resolution.val|

/-- The open geo interval of a cell meets that of a subset. -/
def CellMeets (subset : ParsedSubset BigDecimal) (k : ℤ) : Prop :=
  ∃ x, grid.cellMin k < x ∧ x < grid.cellMax k ∧ subset.lowerLimit.val < x ∧ x < subset.upperLimit.val

/-- The translation of a subset selects cells of the axis: those that a proper interval meets, and one that
contains a point. -/
structure Selects (subset : ParsedSubset BigDecimal) (translated : ParsedSubset ℤ) : Prop where
  first_le : grid.first ≤ translated.lowerLimit
  ordered : translated.lowerLimit ≤ translated.upperLimit
  le_last : translated.upperLimit ≤ grid.last
  interval : subset.lowerLimit.val < subset.upperLimit.val → ∀ k, grid.first ≤ k → k ≤ grid.last →
    (translated.lowerLimit ≤ k ∧ k ≤ translated.upperLimit ↔ grid.CellMeets subset k)
  point : subset.lowerLimit.val = subset.upperLimit.val → translated.lowerLimit = translated.upperLimit ∧
    grid.cellMin translated.lowerLimit ≤ subset.lowerLimit.val ∧
    subset.lowerLimit.val ≤ grid.cellMax translated.lowerLimit

/-- `geoToGridForRegularAxis` returns the cells of the subset. -/
def SelectsItsCells (subset : ParsedSubset BigDecimal) : Prop :=
  ∃ translated, geoToGridForRegularAxis subset grid.geoDomain.lowerLimit grid.geoDomain.upperLimit
    grid.resolution grid.gridDomainMin = .ok translated ∧ grid.Selects subset translated

/-- Where the code selects the cells of a subset. -/
def Aligned (subset : ParsedSubset BigDecimal) : Prop :=
  if 0 < grid.resolution.val then
    subset.lowerLimit.val = grid.geoDomain.upperLimit.val →
      subset.lowerLimit = subset.upperLimit ∧ subset.upperLimit = grid.geoDomain.upperLimit
  else
    (∃ n : ℤ, subset.upperLimit.val = grid.geoDomain.upperLimit.val + n * grid.resolution.val) ∧
    (subset.lowerLimit.val < subset.upperLimit.val →
      (∃ n : ℤ, subset.lowerLimit.val = grid.geoDomain.upperLimit.val + n * grid.resolution.val) ∨
        subset.upperLimit.val + grid.resolution.val < subset.lowerLimit.val) ∧
    (subset.lowerLimit.val = subset.upperLimit.val → subset.lowerLimit.val ≠ grid.geoDomain.lowerLimit.val)

variable {grid : RegularGrid} {subset : ParsedSubset BigDecimal}

/-! ## The translation in cells -/

/-- The lower grid bound counts as a number. -/
theorem geoToGrid_eq : geoToGridForRegularAxis subset grid.geoDomain.lowerLimit grid.geoDomain.upperLimit
    grid.resolution grid.gridDomainMin = geoToGridForRegularAxis subset grid.geoDomain.lowerLimit
      grid.geoDomain.upperLimit grid.resolution (.ofInt grid.first) := by
  simp only [geoToGridForRegularAxis, grid.gridDomainMin_val, BigDecimal.val_ofInt]

/-- The position of a geo coordinate, counted in cells from the minimum. -/
def fromMin (grid : RegularGrid) (x : ℚ) : ℚ := (x - grid.geoDomain.lowerLimit.val) / grid.resolution.val

/-- The position counted from the maximum, for a negative resolution. -/
def fromMax (grid : RegularGrid) (x : ℚ) : ℚ := (x - grid.geoDomain.upperLimit.val) / grid.resolution.val

theorem geoToGrid_of_pos (hres : 0 < grid.resolution.val) :
    geoToGridForRegularAxis subset grid.geoDomain.lowerLimit grid.geoDomain.upperLimit grid.resolution
      grid.gridDomainMin = .ok (
        let lower := ⌊grid.fromMin subset.lowerLimit.val⌋ + grid.first
        let upper := ⌈grid.fromMin subset.upperLimit.val⌉ - 1 + grid.first
        if AtTop grid.geoDomain subset then ⟨lower - 1, lower - 1⟩ else ⟨lower, max lower upper⟩) := by
  rw [geoToGrid_eq, geoToGridForRegularAxis_forwards hres]
  rfl

theorem geoToGrid_of_neg (hres : grid.resolution.val < 0) :
    geoToGridForRegularAxis subset grid.geoDomain.lowerLimit grid.geoDomain.upperLimit grid.resolution
      grid.gridDomainMin = .ok (
        let lower := ⌈grid.fromMax subset.upperLimit.val⌉ + grid.first
        let upper := ⌊grid.fromMax subset.lowerLimit.val⌋ - 1 + grid.first
        ⟨lower, max lower upper⟩) := by
  rw [geoToGrid_eq, geoToGridForRegularAxis_backwards hres]
  simp only [backwards, div_neg, Int.floor_neg, Int.ceil_neg, neg_neg, fromMax]

theorem cellMeets_of_pos (hres : 0 < grid.resolution.val) (k : ℤ) : grid.CellMeets subset k ↔
    Cells.Meets (k - grid.first) (grid.fromMin subset.lowerLimit.val) (grid.fromMin subset.upperLimit.val) := by
  rw [fromMin, fromMin, Cells.meets_of_pos hres]
  simp only [CellMeets, cellMax, cellMin, if_pos hres, abs_of_pos hres, Int.cast_sub, add_mul, one_mul,
    add_assoc]

theorem cellMeets_of_neg (hres : grid.resolution.val < 0) (k : ℤ) : grid.CellMeets subset k ↔
    Cells.Meets (k - grid.first) (grid.fromMax subset.upperLimit.val) (grid.fromMax subset.lowerLimit.val) := by
  rw [fromMax, fromMax, Cells.meets_of_neg hres]
  simp only [CellMeets, cellMax, cellMin, if_neg hres.not_gt, abs_of_neg hres, Int.cast_sub, add_mul, one_mul,
    add_assoc, add_neg_cancel, add_zero]

/-- A point and the cell that contains it, forwards. -/
theorem mem_cell_of_pos (hres : 0 < grid.resolution.val) (k : ℤ) (x : ℚ) :
    grid.cellMin k ≤ x ∧ x ≤ grid.cellMax k ↔
      (k : ℚ) - grid.first ≤ grid.fromMin x ∧ grid.fromMin x ≤ k - grid.first + 1 := by
  rw [fromMin, le_div_iff₀ hres, div_le_iff₀ hres, cellMax, cellMin, if_pos hres, abs_of_pos hres]
  constructor <;> rintro ⟨hlow, hhigh⟩ <;> exact ⟨by linarith, by linarith⟩

/-- A point and the cell that contains it, backwards. -/
theorem mem_cell_of_neg (hres : grid.resolution.val < 0) (k : ℤ) (x : ℚ) :
    grid.cellMin k ≤ x ∧ x ≤ grid.cellMax k ↔
      (k : ℚ) - grid.first ≤ grid.fromMax x ∧ grid.fromMax x ≤ k - grid.first + 1 := by
  rw [fromMax, le_div_iff_of_neg hres, div_le_iff_of_neg hres, cellMax, cellMin, if_neg hres.not_gt,
    abs_of_neg hres]
  constructor <;> rintro ⟨hlow, hhigh⟩ <;> exact ⟨by linarith, by linarith⟩

theorem cells_eq_of_pos (hres : 0 < grid.resolution.val) :
    grid.fromMin grid.geoDomain.upperLimit.val = grid.cells := by
  rw [fromMin, grid.extent, abs_of_pos hres, mul_div_assoc, div_self hres.ne', mul_one]

theorem cells_eq_of_neg (hres : grid.resolution.val < 0) :
    grid.fromMax grid.geoDomain.lowerLimit.val = grid.cells := by
  have h := grid.extent
  rw [abs_of_neg hres] at h
  rw [fromMax, div_eq_iff hres.ne]
  linarith

/-! ## Forwards -/

theorem geoDomain_ne (grid : RegularGrid) :
    grid.geoDomain.upperLimit.val ≠ grid.geoDomain.lowerLimit.val := by
  have hcells : (0 : ℚ) < grid.cells := by exact_mod_cast grid.cells_pos
  have habs := mul_pos hcells (abs_pos.mpr grid.resolution_ne)
  rw [← grid.extent] at habs
  linarith

theorem selectsItsCells_iff_of_pos (hres : 0 < grid.resolution.val) (hin : Within grid.geoDomain subset) :
    grid.SelectsItsCells subset ↔ grid.Aligned subset := by
  have hu : 0 ≤ grid.fromMin subset.lowerLimit.val := div_nonneg (sub_nonneg.mpr hin.lower) hres.le
  have hle : grid.fromMin subset.lowerLimit.val ≤ grid.fromMin subset.upperLimit.val := by
    have h := hin.ordered
    unfold fromMin
    gcongr
  have hv : grid.fromMin subset.upperLimit.val ≤ grid.cells := by
    have h := hin.upper
    rw [← cells_eq_of_pos hres]
    unfold fromMin
    gcongr
  have htop : grid.fromMin subset.lowerLimit.val < grid.cells ↔
      subset.lowerLimit.val ≠ grid.geoDomain.upperLimit.val := by
    rw [← cells_eq_of_pos hres, fromMin, fromMin, div_lt_div_iff_of_pos_right hres, sub_lt_sub_iff_right]
    exact ⟨ne_of_lt, lt_of_le_of_ne (hin.ordered.trans hin.upper)⟩
  have hlow := Int.floor_nonneg.mpr hu
  have hhigh : ⌈grid.fromMin subset.upperLimit.val⌉ ≤ grid.cells := Int.ceil_le.mpr (by exact_mod_cast hv)
  have hlast : ⌊grid.fromMin subset.lowerLimit.val⌋ < grid.cells ↔
      subset.lowerLimit.val ≠ grid.geoDomain.upperLimit.val := by
    rw [← htop, Int.floor_lt, Int.cast_natCast]
  rw [SelectsItsCells, geoToGrid_of_pos hres, Aligned, if_pos hres]
  simp only [Except.ok.injEq, exists_eq_left']
  by_cases hat : AtTop grid.geoDomain subset
  · have heq : subset.lowerLimit.val = grid.geoDomain.upperLimit.val := by rw [hat.2.1, hat.2.2]
    have hfloor : ⌊grid.fromMin subset.lowerLimit.val⌋ = grid.cells := by
      rw [heq, cells_eq_of_pos hres, Int.floor_natCast]
    have hcells := grid.cells_pos
    rw [if_pos hat, hfloor]
    refine iff_of_true ⟨?_, le_rfl, ?_, fun hlt => ?_, fun _ => ⟨rfl, ?_⟩⟩ fun _ => ⟨hat.2.1, hat.2.2⟩
    · dsimp only
      omega
    · dsimp only [last]
      omega
    · rw [hat.2.1] at hlt
      exact absurd hlt (lt_irrefl _)
    · rw [mem_cell_of_pos hres, heq, cells_eq_of_pos hres]
      push_cast
      constructor <;> linarith
  · rw [if_neg hat]
    constructor
    · intro h heq
      have := h.le_last
      have := mt hlast.mp (not_not.mpr heq)
      simp only [last] at *
      omega
    · intro h
      have hlt := hlast.mpr fun heq => hat ⟨grid.geoDomain_ne, h heq⟩
      refine ⟨?_, le_max_left _ _, ?_, fun hlohi => ?_, fun hpoint => ⟨?_, ?_⟩⟩
      · dsimp only
        omega
      · dsimp only [last]
        omega
      · have huv : grid.fromMin subset.lowerLimit.val < grid.fromMin subset.upperLimit.val := by
          unfold fromMin
          gcongr
        have hceil := Cells.floor_lt_ceil huv
        simp only [cellMeets_of_pos hres, last]
        refine (Cells.run_eq_iff huv hu hv ?_ ?_ ?_).mpr ⟨rfl, ?_⟩ <;> omega
      · dsimp only
        rw [hpoint, max_floor_ceil]
      · rw [mem_cell_of_pos hres]
        push_cast
        have hfloor := Int.floor_le (grid.fromMin subset.lowerLimit.val)
        have hlt_floor := (Int.lt_floor_add_one (grid.fromMin subset.lowerLimit.val)).le
        constructor <;> linarith

/-! ## Backwards -/

/-- Both limits are on borders, or both in one cell that the upper one begins. -/
theorem max_ceil_floor_eq_iff {u v : ℚ} (huv : u < v) (hu : ⌈u⌉ ≤ ⌊u⌋) :
    max ⌈u⌉ (⌊v⌋ - 1) = ⌈v⌉ - 1 ↔ (∃ n : ℤ, v = n) ∨ v < u + 1 := by
  have hint : u = ⌈u⌉ := le_antisymm (Int.le_ceil u) (Int.le_floor.mp hu)
  have hcell : v < u + 1 ↔ ⌊v⌋ < ⌈u⌉ + 1 := by
    rw [Int.floor_lt, hint]
    push_cast
    rw [Int.ceil_intCast]
  have hle : ⌈u⌉ ≤ ⌊v⌋ := by
    rw [Int.le_floor, ← hint]
    exact huv.le
  have hlt := Cells.floor_lt_ceil huv
  have hceil := Int.ceil_le_floor_add_one v
  have hfloor := Int.floor_le_ceil v
  rw [Cells.exists_eq_intCast_iff, hcell]
  have hfu := Int.floor_le_ceil u
  omega

theorem fromMax_lt (hres : grid.resolution.val < 0) {x y : ℚ} (h : x < y) : grid.fromMax y < grid.fromMax x :=
  div_lt_div_of_neg_of_lt hres (sub_lt_sub_right h _)

theorem fromMax_le (hres : grid.resolution.val < 0) {x y : ℚ} (h : x ≤ y) : grid.fromMax y ≤ grid.fromMax x :=
  h.lt_or_eq.elim (fun h => (fromMax_lt hres h).le) fun h => (congrArg grid.fromMax h).ge

theorem exists_border_iff (hres : grid.resolution.val < 0) (x : ℚ) :
    (∃ n : ℤ, x = grid.geoDomain.upperLimit.val + n * grid.resolution.val) ↔
      ∃ n : ℤ, grid.fromMax x = n := by
  refine exists_congr fun n => ?_
  rw [fromMax, div_eq_iff hres.ne]
  constructor <;> intro h <;> linarith

theorem fromMax_upper_nonneg (hres : grid.resolution.val < 0) (hin : Within grid.geoDomain subset) :
    0 ≤ grid.fromMax subset.upperLimit.val :=
  div_nonneg_of_nonpos (sub_nonpos.mpr hin.upper) hres.le

theorem fromMax_lower_le (hres : grid.resolution.val < 0) (hin : Within grid.geoDomain subset) :
    grid.fromMax subset.lowerLimit.val ≤ grid.cells := by
  rw [← cells_eq_of_neg hres]
  exact fromMax_le hres hin.lower

/-- Backwards, an interval. -/
theorem selectsItsCells_iff_of_lt (hres : grid.resolution.val < 0) (hin : Within grid.geoDomain subset)
    (hlohi : subset.lowerLimit.val < subset.upperLimit.val) :
    grid.SelectsItsCells subset ↔ grid.Aligned subset := by
  have hu := fromMax_upper_nonneg hres hin
  have hv := fromMax_lower_le hres hin
  have hlow := Int.ceil_nonneg hu
  have hcells := grid.cells_pos
  have huv := fromMax_lt hres hlohi
  have hceil : ⌈grid.fromMax subset.lowerLimit.val⌉ ≤ grid.cells := Int.ceil_le.mpr (by exact_mod_cast hv)
  have hlt := Cells.floor_lt_ceil huv
  have hle := Int.floor_le_ceil (grid.fromMax subset.upperLimit.val)
  have hmax := max_add_add_right ⌈grid.fromMax subset.upperLimit.val⌉
    (⌊grid.fromMax subset.lowerLimit.val⌋ - 1) grid.first
  have hcell : subset.upperLimit.val + grid.resolution.val < subset.lowerLimit.val ↔
      grid.fromMax subset.lowerLimit.val < grid.fromMax subset.upperLimit.val + 1 := by
    rw [fromMax, fromMax, div_lt_iff_of_neg hres, add_mul, div_mul_cancel₀ _ hres.ne]
    constructor <;> intro h <;> linarith
  rw [SelectsItsCells, geoToGrid_of_neg hres, Aligned, if_neg hres.not_gt, exists_border_iff hres,
    exists_border_iff hres]
  simp only [Except.ok.injEq, exists_eq_left']
  rw [hmax, hcell, Cells.exists_eq_intCast_iff]
  constructor
  · intro h
    have hrun := h.interval hlohi
    simp only [cellMeets_of_neg hres, last] at hrun
    obtain ⟨hlower, hupper⟩ := (Cells.run_eq_iff huv hu hv h.first_le h.ordered h.le_last).mp hrun
    dsimp only at hlower hupper
    have haligned : ⌈grid.fromMax subset.upperLimit.val⌉ ≤ ⌊grid.fromMax subset.upperLimit.val⌋ := by omega
    exact ⟨haligned, fun _ => (max_ceil_floor_eq_iff huv haligned).mp (by omega),
      fun heq => absurd heq hlohi.ne⟩
  · rintro ⟨haligned, hupper, -⟩
    have hmaxeq := (max_ceil_floor_eq_iff huv haligned).mpr (hupper hlohi)
    rw [hmaxeq]
    refine ⟨?_, ?_, ?_, fun _ => ?_, fun heq => absurd heq hlohi.ne⟩
    · dsimp only
      omega
    · dsimp only
      omega
    · dsimp only [last]
      omega
    · simp only [cellMeets_of_neg hres, last]
      refine (Cells.run_eq_iff huv hu hv ?_ ?_ ?_).mpr ⟨?_, rfl⟩ <;> omega

/-- A point on a border begins a cell unless it is the lower end of the axis. -/
theorem ceil_fromMax_lt_iff (hres : grid.resolution.val < 0) (hin : Within grid.geoDomain subset)
    (hpoint : subset.lowerLimit.val = subset.upperLimit.val)
    (haligned : ⌈grid.fromMax subset.upperLimit.val⌉ ≤ ⌊grid.fromMax subset.upperLimit.val⌋) :
    ⌈grid.fromMax subset.upperLimit.val⌉ < grid.cells ↔
      subset.lowerLimit.val ≠ grid.geoDomain.lowerLimit.val := by
  have heq : grid.fromMax subset.upperLimit.val = ⌈grid.fromMax subset.upperLimit.val⌉ :=
    le_antisymm (Int.le_ceil _) (Int.le_floor.mp haligned)
  have hiff : ⌈grid.fromMax subset.upperLimit.val⌉ < grid.cells ↔
      grid.fromMax subset.upperLimit.val < grid.cells := by
    rw [heq, Int.ceil_intCast]
    norm_cast
  rw [hiff, ← hpoint, ← cells_eq_of_neg hres]
  refine ⟨fun h heq => h.ne (congrArg grid.fromMax heq), fun hne => fromMax_lt hres ?_⟩
  exact lt_of_le_of_ne hin.lower (Ne.symm hne)

/-- Backwards, a point. -/
theorem selectsItsCells_iff_of_eq (hres : grid.resolution.val < 0) (hin : Within grid.geoDomain subset)
    (hpoint : subset.lowerLimit.val = subset.upperLimit.val) :
    grid.SelectsItsCells subset ↔ grid.Aligned subset := by
  have hlow := Int.ceil_nonneg (fromMax_upper_nonneg hres hin)
  have hcells := grid.cells_pos
  have hmax : max (⌈grid.fromMax subset.upperLimit.val⌉ + grid.first)
      (⌊grid.fromMax subset.lowerLimit.val⌋ - 1 + grid.first) =
        ⌈grid.fromMax subset.upperLimit.val⌉ + grid.first := by
    have hle := Int.floor_le_ceil (grid.fromMax subset.upperLimit.val)
    rw [hpoint]
    omega
  rw [SelectsItsCells, geoToGrid_of_neg hres, Aligned, if_neg hres.not_gt, exists_border_iff hres,
    exists_border_iff hres]
  simp only [Except.ok.injEq, exists_eq_left']
  rw [hmax, Cells.exists_eq_intCast_iff]
  constructor
  · intro h
    obtain ⟨-, hmem⟩ := h.point hpoint
    rw [mem_cell_of_neg hres, hpoint] at hmem
    push_cast at hmem
    have haligned : ⌈grid.fromMax subset.upperLimit.val⌉ ≤ ⌊grid.fromMax subset.upperLimit.val⌋ :=
      Int.le_floor.mpr (by linarith [hmem.1])
    refine ⟨haligned, fun hlt => absurd hpoint hlt.ne,
      fun _ => (ceil_fromMax_lt_iff hres hin hpoint haligned).mp ?_⟩
    have hlast := h.le_last
    dsimp only [last] at hlast
    omega
  · rintro ⟨haligned, -, hne⟩
    have hlast := (ceil_fromMax_lt_iff hres hin hpoint haligned).mpr (hne hpoint)
    refine ⟨?_, le_rfl, ?_, fun hlt => absurd hpoint hlt.ne, fun _ => ⟨rfl, ?_⟩⟩
    · dsimp only
      omega
    · dsimp only [last]
      omega
    · rw [mem_cell_of_neg hres, hpoint]
      push_cast
      have hceil := Int.le_floor.mp haligned
      have hle := Int.le_ceil (grid.fromMax subset.upperLimit.val)
      constructor <;> linarith

/-- **A geo subset selects its cells** exactly where it is aligned. -/
theorem selectsItsCells_iff (grid : RegularGrid) {subset : ParsedSubset BigDecimal}
    (hin : Within grid.geoDomain subset) : grid.SelectsItsCells subset ↔ grid.Aligned subset := by
  rcases grid.resolution_ne.lt_or_gt with hres | hres
  · rcases hin.ordered.lt_or_eq with hlohi | hpoint
    · exact selectsItsCells_iff_of_lt hres hin hlohi
    · exact selectsItsCells_iff_of_eq hres hin hpoint
  · exact selectsItsCells_iff_of_pos hres hin

theorem ofInt_neg_one_ne : (BigDecimal.ofInt (-1)).val ≠ 0 := by norm_num

theorem ten_cells_extent : (BigDecimal.ofInt 10).val - (BigDecimal.ofInt 0).val =
    (10 : ℕ) * |(BigDecimal.ofInt (-1)).val| := by norm_num

/-- Ten cells of one degree from south to north, counted from 0. -/
def northing : RegularGrid where
  geoDomain := ⟨.ofInt 0, .ofInt 10⟩
  resolution := .ofInt (-1)
  gridDomainMin := .ofInt 0
  first := 0
  cells := 10
  resolution_ne := ofInt_neg_one_ne
  cells_pos := Nat.succ_pos 9
  gridDomainMin_val := BigDecimal.val_ofInt 0
  extent := ten_cells_extent

/-- A subset whose limits are on borders. -/
theorem selectsItsCells_northing : northing.SelectsItsCells ⟨.ofInt 2, .ofInt 5⟩ := by
  refine (selectsItsCells_iff northing ⟨?_, ?_, ?_⟩).mpr ?_
  · norm_num [northing]
  · norm_num
  · norm_num [northing]
  · rw [Aligned, if_neg (by simp [northing])]
    refine ⟨⟨5, ?_⟩, fun _ => .inl ⟨8, ?_⟩, fun heq => ?_⟩
    · norm_num [northing]
    · norm_num [northing]
    · norm_num at heq

/-- The subset from 0.5 to 1.5 meets the last two cells, of which the code takes one. -/
theorem not_selectsItsCells_northing : ¬ northing.SelectsItsCells ⟨⟨5, 1⟩, ⟨15, 1⟩⟩ := by
  have hlow : (⟨5, 1⟩ : BigDecimal).val = 1 / 2 := by norm_num [BigDecimal.val]
  have hhigh : (⟨15, 1⟩ : BigDecimal).val = 3 / 2 := by norm_num [BigDecimal.val]
  have htranslated : geoToGridForRegularAxis ⟨⟨5, 1⟩, ⟨15, 1⟩⟩ northing.geoDomain.lowerLimit
      northing.geoDomain.upperLimit northing.resolution northing.gridDomainMin = .ok ⟨9, 9⟩ := by
    decide +kernel
  rintro ⟨translated, hok, hselects⟩
  obtain rfl := Except.ok.inj (htranslated.symm.trans hok)
  have height := hselects.interval (by rw [hlow, hhigh]; norm_num) 8 (by decide) (by decide)
  have hmeets : northing.CellMeets ⟨⟨5, 1⟩, ⟨15, 1⟩⟩ 8 := by
    refine ⟨5 / 4, ?_⟩
    rw [hlow, hhigh]
    norm_num [cellMax, cellMin, northing]
  exact absurd (height.mpr hmeets).1 (by decide)

end RegularGrid

end Petascope

end Rasdaman
