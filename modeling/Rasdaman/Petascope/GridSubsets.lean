import Mathlib
import Rasdaman.Petascope.GeoGridCells

/-!
# Petascope/GridSubsets — the geo bounds that a grid subset records

The translation back is a copy of the one forth with a product for the quotient.  It leaves out the width of
the last cell and rounds to integers, so that **a grid subset records the geo extent of its cells**
(`recordsGeoExtent_iff`) only where the errors cancel out.
-/

namespace Rasdaman

namespace Petascope

open CoordinateTranslationService WcpsCoverageMetadataService

/-! ## Rounding towards zero -/

theorem toBigInteger_eq_iff (x : ℚ) (n : ℤ) :
    toBigInteger x = n ↔ (0 ≤ n ∧ n ≤ x ∧ x < n + 1) ∨ (n ≤ 0 ∧ (n : ℚ) - 1 < x ∧ x ≤ n) := by
  unfold toBigInteger
  split_ifs with hx
  · rw [Int.ceil_eq_iff]
    constructor
    · rintro ⟨hlow, hhigh⟩
      have hn : (n : ℚ) < 1 := by linarith
      exact .inr ⟨by exact_mod_cast Int.lt_add_one_iff.mp (by exact_mod_cast hn), hlow, hhigh⟩
    · rintro (⟨hn, hlow, -⟩ | ⟨-, hlow, hhigh⟩)
      · have hn : (0 : ℚ) ≤ n := by exact_mod_cast hn
        linarith
      · exact ⟨hlow, hhigh⟩
  · rw [Int.floor_eq_iff]
    constructor
    · rintro ⟨hlow, hhigh⟩
      have hn : (-1 : ℚ) < n := by linarith
      have hn : (-1 : ℤ) < n := by exact_mod_cast hn
      exact .inl ⟨by omega, hlow, hhigh⟩
    · rintro (⟨-, hlow, hhigh⟩ | ⟨hn, -, hhigh⟩)
      · exact ⟨hlow, hhigh⟩
      · have hn : (n : ℚ) ≤ 0 := by exact_mod_cast hn
        exact ⟨by linarith, by linarith⟩

/-- A bound that is an integer, and an error that the rounding towards zero takes away. -/
def Repaired (bound error : ℚ) : Prop :=
  (∃ n : ℤ, bound = n) ∧ (0 ≤ bound ∧ 0 ≤ error ∧ error < 1 ∨ bound ≤ 0 ∧ -1 < error ∧ error ≤ 0)

theorem toBigInteger_add_eq_iff (bound error : ℚ) :
    (toBigInteger (bound + error) : ℚ) = bound ↔ Repaired bound error := by
  have hint : ∀ n : ℤ, toBigInteger (n + error) = n ↔
      (0 : ℚ) ≤ n ∧ 0 ≤ error ∧ error < 1 ∨ (n : ℚ) ≤ 0 ∧ -1 < error ∧ error ≤ 0 := by
    intro n
    rw [toBigInteger_eq_iff, Int.cast_nonneg_iff, Int.cast_nonpos]
    refine or_congr (and_congr_right fun _ => ?_) (and_congr_right fun _ => ?_)
    · constructor <;> rintro ⟨hlow, hhigh⟩ <;> constructor <;> linarith
    · constructor <;> rintro ⟨hlow, hhigh⟩ <;> constructor <;> linarith
  constructor
  · intro h
    refine ⟨⟨_, h.symm⟩, ?_⟩
    have hn := (hint (toBigInteger (bound + error))).mp (by rw [h])
    rwa [h] at hn
  · rintro ⟨⟨n, rfl⟩, h⟩
    exact_mod_cast (hint n).mpr h

namespace RegularGrid

variable (grid : RegularGrid)

/-! ## The recorded geo bounds -/

/-- Where the geo interval of a run of cells begins. -/
def extentMin (l h : ℤ) : ℚ := min (grid.cellMin l) (grid.cellMin h)

/-- Where it ends. -/
def extentMax (l h : ℤ) : ℚ := max (grid.cellMax l) (grid.cellMax h)

/-- The axis of a coverage on which there is the grid. -/
structure IsAxis (gridMax : BigDecimal) (axis : Axis) : Prop where
  type : axis.type = .regular grid.resolution
  geoBounds : axis.geoBounds = .trimming grid.geoDomain.lowerLimit grid.geoDomain.upperLimit
  gridBounds : axis.gridBounds = .trimming grid.gridDomainMin gridMax
  gridMax_val : gridMax.val = grid.last

/-- A trim in grid coordinates. -/
structure IsTrim (trim : ParsedSubset BigDecimal) (l h : ℤ) : Prop where
  lower : trim.lowerLimit.val = l
  upper : trim.upperLimit.val = h
  first_le : grid.first ≤ l
  ordered : l ≤ h
  le_last : h ≤ grid.last

/-- The bounds are the geo extent of the cells, are inside those of the axis, and are translated back to the
cells. -/
structure IsExtent (l h : ℤ) (bounds : ParsedSubset BigDecimal) : Prop where
  lower : bounds.lowerLimit.val = grid.extentMin l h
  upper : bounds.upperLimit.val = grid.extentMax l h
  within : Within grid.geoDomain bounds
  back : geoToGridForRegularAxis bounds grid.geoDomain.lowerLimit grid.geoDomain.upperLimit grid.resolution
    grid.gridDomainMin = .ok ⟨l, h⟩

/-- `applySubsets` with a trim in grid coordinates records the geo extent of its cells. -/
def RecordsGeoExtent (getIndexes : CoefficientIndexes) (checkBoundary : Bool)
    (metadata : WcpsCoverageMetadata) (name : String) (trim : ParsedSubset BigDecimal) (l h : ℤ) : Prop :=
  ∃ metadata' axis' bounds, applySubsets getIndexes checkBoundary metadata
      [⟨name, .trimming trim.lowerLimit trim.upperLimit, "CRS:1"⟩] = .ok metadata' ∧
    metadata'.getAxisByName name = some axis' ∧
    axis'.geoBounds = .trimming bounds.lowerLimit bounds.upperLimit ∧ grid.IsExtent l h bounds

/-- Where the errors of the translation cancel out: what its roundings and the last cell leave over is taken
away by the rounding towards zero. -/
def ErrorsCancel (gridMax : BigDecimal) (trim : ParsedSubset BigDecimal) (l h : ℤ) : Prop :=
  let r := grid.resolution.val
  if 0 < r then
    let s := (l - grid.first) * r
    let t := (h - grid.first) * r
    ¬ (grid.first < grid.last ∧ trim.lowerLimit = trim.upperLimit ∧ trim.upperLimit = gridMax) ∧
      Repaired (grid.extentMin l h) (⌊s⌋ - s) ∧ Repaired (grid.extentMax l h) (⌈t⌉ - t - r)
  else
    let s := (h - grid.last) * r
    let t := (l - grid.last) * r
    Repaired (grid.extentMin l h) (⌈s⌉ - s) ∧ Repaired (grid.extentMax l h) (max ⌈s⌉ ⌊t⌋ - t + r)

variable {grid : RegularGrid} {getIndexes : CoefficientIndexes} {checkBoundary : Bool}
  {metadata : WcpsCoverageMetadata} {name : String} {axis : Axis} {gridMax : BigDecimal}
  {trim : ParsedSubset BigDecimal} {l h : ℤ}

/-- The geo bounds that the code computes for a trim. -/
def recorded (grid : RegularGrid) (gridMax : BigDecimal) (trim : ParsedSubset BigDecimal) : ParsedSubset ℤ :=
  gridToGeoForRegularAxis trim grid.gridDomainMin gridMax grid.resolution grid.geoDomain.lowerLimit

theorem IsTrim.valid (htrim : grid.IsTrim trim l h) (haxis : grid.IsAxis gridMax axis) :
    validParsedSubsetBounds trim axis.gridBounds = .ok () := by
  have hfirst : (grid.first : ℚ) ≤ l := by exact_mod_cast htrim.first_le
  have hordered : (l : ℚ) ≤ h := by exact_mod_cast htrim.ordered
  have hlast : (h : ℚ) ≤ grid.last := by exact_mod_cast htrim.le_last
  rw [haxis.gridBounds]
  refine if_neg ?_
  rw [htrim.lower, htrim.upper, grid.gridDomainMin_val, haxis.gridMax_val]
  rintro (h | h | h | h) <;> linarith

/-- **`applySubsets` with a trim in grid coordinates.** -/
theorem applySubsets_trim (haxis : grid.IsAxis gridMax axis) (hname : metadata.getAxisByName name = some axis)
    (htrim : grid.IsTrim trim l h) : ∃ metadata' axis', applySubsets getIndexes checkBoundary metadata
      [⟨name, .trimming trim.lowerLimit trim.upperLimit, "CRS:1"⟩] = .ok metadata' ∧
    metadata'.getAxisByName name = some axis' ∧ axis'.geoBounds =
      .trimming (.ofInt (grid.recorded gridMax trim).lowerLimit)
        (.ofInt (grid.recorded gridMax trim).upperLimit) := by
  have hordered : ¬ trim.lowerLimit.val > trim.upperLimit.val := by
    rw [htrim.lower, htrim.upper]
    exact_mod_cast not_lt.mpr htrim.ordered
  have happly : applySubset getIndexes checkBoundary metadata
      ⟨name, .trimming trim.lowerLimit trim.upperLimit, "CRS:1"⟩ axis = .ok { axis with
        crsUri := "CRS:1"
        geoBounds := .trimming (.ofInt (grid.recorded gridMax trim).lowerLimit)
          (.ofInt (grid.recorded gridMax trim).upperLimit)
        gridBounds := .trimming trim.lowerLimit trim.upperLimit } := by
    have hvalid := htrim.valid haxis
    rw [haxis.gridBounds] at hvalid
    simp only [applySubset, applyTrimmingSubset, isGridCrs, decide_true, Bool.true_or, Bool.not_true,
      Bool.false_eq_true, if_false, haxis.gridBounds, haxis.geoBounds, hordered, hvalid]
    rw [translateGridToGeoCoordinates]
    simp only [haxis.type]
    cases checkBoundary <;> rfl
  have hsingle := @applySubsets_single getIndexes metadata axis checkBoundary
    ⟨name, .trimming trim.lowerLimit trim.upperLimit, "CRS:1"⟩ hname fun changed hchanged => by
      rw [happly] at hchanged
      rw [← Except.ok.inj hchanged]
  rw [happly] at hsingle
  obtain ⟨axes, hok, hfind⟩ := hsingle
  exact ⟨_, _, hok, hfind, rfl⟩

/-! ## The geo extent of a run of cells -/

theorem first_le_last (grid : RegularGrid) : grid.first ≤ grid.last := by
  have hcells := grid.cells_pos
  unfold last
  omega

theorem cast_last (grid : RegularGrid) : (grid.last : ℚ) = grid.first + grid.cells - 1 := by
  unfold last
  push_cast
  rfl

theorem extent_of_pos (hres : 0 < grid.resolution.val) (hlh : l ≤ h) :
    grid.extentMin l h = (l - grid.first) * grid.resolution.val + grid.geoDomain.lowerLimit.val ∧
      grid.extentMax l h = (h - grid.first) * grid.resolution.val + grid.geoDomain.lowerLimit.val +
        grid.resolution.val := by
  have hle : grid.cellMin l ≤ grid.cellMin h := by
    have hlh : (l : ℚ) ≤ h := by exact_mod_cast hlh
    rw [cellMin, cellMin, if_pos hres, if_pos hres]
    gcongr
  have hmax : grid.cellMax l ≤ grid.cellMax h := add_le_add_left hle _
  rw [extentMin, extentMax, min_eq_left hle, max_eq_right hmax, cellMax, cellMin, cellMin,
    if_pos hres, if_pos hres, abs_of_pos hres]
  exact ⟨add_comm _ _, by ring⟩

theorem extent_of_neg (hres : grid.resolution.val < 0) (hlh : l ≤ h) :
    grid.extentMin l h = (h - grid.last) * grid.resolution.val + grid.geoDomain.lowerLimit.val ∧
      grid.extentMax l h = (l - grid.last) * grid.resolution.val + grid.geoDomain.lowerLimit.val -
        grid.resolution.val := by
  have hle : grid.cellMin h ≤ grid.cellMin l := by
    have hlh : (l : ℚ) ≤ h := by exact_mod_cast hlh
    rw [cellMin, cellMin, if_neg hres.not_gt, if_neg hres.not_gt]
    nlinarith
  have hmax : grid.cellMax h ≤ grid.cellMax l := add_le_add_left hle _
  have hextent := grid.extent
  rw [abs_of_neg hres] at hextent
  rw [extentMin, extentMax, min_eq_right hle, max_eq_left hmax, cellMax, cellMin, cellMin,
    if_neg hres.not_gt, if_neg hres.not_gt, abs_of_neg hres, cast_last]
  constructor <;> linarith

/-- The geo extent of cells of the axis is inside its geo bounds. -/
theorem extent_within (htrim : grid.IsTrim trim l h) :
    grid.geoDomain.lowerLimit.val ≤ grid.extentMin l h ∧ grid.extentMin l h < grid.extentMax l h ∧
      grid.extentMax l h ≤ grid.geoDomain.upperLimit.val := by
  have hextent := grid.extent
  have hfirst : (grid.first : ℚ) ≤ l := by exact_mod_cast htrim.first_le
  have hordered : (l : ℚ) ≤ h := by exact_mod_cast htrim.ordered
  have hlast : (h : ℚ) ≤ grid.first + grid.cells - 1 := by
    rw [← cast_last]
    exact_mod_cast htrim.le_last
  rcases grid.resolution_ne.lt_or_gt with hres | hres
  · obtain ⟨hmin, hmax⟩ := extent_of_neg hres htrim.ordered
    rw [abs_of_neg hres] at hextent
    rw [hmin, hmax, cast_last]
    refine ⟨by nlinarith, by nlinarith, by nlinarith⟩
  · obtain ⟨hmin, hmax⟩ := extent_of_pos hres htrim.ordered
    rw [abs_of_pos hres] at hextent
    rw [hmin, hmax]
    refine ⟨by nlinarith, by nlinarith, by nlinarith⟩

/-- **The geo extent of a run of cells is translated back to the run.** -/
theorem geoToGrid_extent (htrim : grid.IsTrim trim l h) {bounds : ParsedSubset BigDecimal}
    (hlower : bounds.lowerLimit.val = grid.extentMin l h) (hupper : bounds.upperLimit.val = grid.extentMax l h) :
    geoToGridForRegularAxis bounds grid.geoDomain.lowerLimit grid.geoDomain.upperLimit grid.resolution
      grid.gridDomainMin = .ok ⟨l, h⟩ := by
  have hlh := htrim.ordered
  have hlow : l - grid.first + grid.first = l := sub_add_cancel _ _
  have hhigh : max (l - grid.first + grid.first) (h - grid.first + 1 - 1 + grid.first) = h := by omega
  rcases grid.resolution_ne.lt_or_gt with hres | hres
  · obtain ⟨hmin, hmax⟩ := extent_of_neg hres hlh
    have hextent := grid.extent
    rw [abs_of_neg hres] at hextent
    have hu : grid.fromMax bounds.upperLimit.val = ((l - grid.first : ℤ) : ℚ) := by
      rw [hupper, hmax, fromMax, div_eq_iff hres.ne, cast_last]
      push_cast
      linarith
    have hv : grid.fromMax bounds.lowerLimit.val = ((h - grid.first + 1 : ℤ) : ℚ) := by
      rw [hlower, hmin, fromMax, div_eq_iff hres.ne, cast_last]
      push_cast
      linarith
    rw [geoToGrid_of_neg hres, hu, hv, Int.ceil_intCast, Int.floor_intCast]
    exact congrArg Except.ok (ParsedSubset.ext hlow hhigh)
  · have hne : ¬ AtTop grid.geoDomain bounds := fun htop =>
      (extent_within htrim).2.1.ne (by rw [← hlower, ← hupper, htop.2.1])
    obtain ⟨hmin, hmax⟩ := extent_of_pos hres hlh
    have hu : grid.fromMin bounds.lowerLimit.val = ((l - grid.first : ℤ) : ℚ) := by
      rw [hlower, hmin, fromMin, add_sub_cancel_right, mul_div_assoc, div_self hres.ne', mul_one]
      push_cast
      rfl
    have hv : grid.fromMin bounds.upperLimit.val = ((h - grid.first + 1 : ℤ) : ℚ) := by
      rw [hupper, hmax, fromMin, div_eq_iff hres.ne']
      push_cast
      ring
    rw [geoToGrid_of_pos hres, hu, hv, Int.ceil_intCast, Int.floor_intCast, if_neg hne]
    exact congrArg Except.ok (ParsedSubset.ext hlow hhigh)

/-- The recorded bounds are the geo extent. -/
theorem isExtent_iff (htrim : grid.IsTrim trim l h) (bounds : ParsedSubset BigDecimal) :
    grid.IsExtent l h bounds ↔
      bounds.lowerLimit.val = grid.extentMin l h ∧ bounds.upperLimit.val = grid.extentMax l h := by
  refine ⟨fun h => ⟨h.lower, h.upper⟩, fun ⟨hlower, hupper⟩ => ⟨hlower, hupper, ?_, ?_⟩⟩
  · obtain ⟨hmin, hlt, hmax⟩ := extent_within htrim
    exact ⟨hmin.trans hlower.ge, (hlower.trans_lt (hlt.trans_eq hupper.symm)).le, hupper.le.trans hmax⟩
  · exact geoToGrid_extent htrim hlower hupper

/-! ## What the code computes -/

theorem eq_left_cast_iff {x y z : ℚ} (h : x = y) :
    (toBigInteger x : ℚ) = z ↔ (toBigInteger y : ℚ) = z := by rw [h]

theorem recorded_of_pos (hres : 0 < grid.resolution.val) (hmax : gridMax.val = grid.last)
    (htrim : grid.IsTrim trim l h) :
    let s := (l - grid.first) * grid.resolution.val
    let t := (h - grid.first) * grid.resolution.val
    let m := grid.geoDomain.lowerLimit.val
    grid.recorded gridMax trim =
      if grid.first < grid.last ∧ trim.lowerLimit = trim.upperLimit ∧ trim.upperLimit = gridMax then
        ⟨toBigInteger (⌊s⌋ + m - 1), toBigInteger (⌊s⌋ + m - 1)⟩
      else ⟨toBigInteger (⌊s⌋ + m), toBigInteger (⌈t⌉ + m)⟩ := by
  intro s t m
  have hproper : gridMax.val ≠ grid.first ↔ grid.first < grid.last := by
    rw [hmax, Ne, Int.cast_inj]
    exact ⟨fun hne => lt_of_le_of_ne grid.first_le_last (Ne.symm hne), fun hlt => hlt.ne'⟩
  have hst : s ≤ t := by
    have hlh : (l : ℚ) ≤ h := by exact_mod_cast htrim.ordered
    simp only [s, t]
    gcongr
  have hround : ¬ ((⌈t⌉ : ℚ) + m < ⌊s⌋ + m) := by
    have hle : ⌊s⌋ ≤ ⌈t⌉ := (Int.floor_mono hst).trans (Int.floor_le_ceil t)
    have hle : (⌊s⌋ : ℚ) ≤ ⌈t⌉ := by exact_mod_cast hle
    linarith
  simp only [recorded, gridToGeoForRegularAxis, gt_iff_lt, hres, if_true, htrim.lower, htrim.upper,
    grid.gridDomainMin_val, hproper]
  rw [if_neg hround]

theorem recorded_of_neg (hres : grid.resolution.val < 0) (hmax : gridMax.val = grid.last)
    (htrim : grid.IsTrim trim l h) :
    let s := (h - grid.last) * grid.resolution.val
    let t := (l - grid.last) * grid.resolution.val
    let m := grid.geoDomain.lowerLimit.val
    grid.recorded gridMax trim =
      ⟨toBigInteger (⌈s⌉ + m), toBigInteger (max (⌈s⌉ : ℚ) ⌊t⌋ + m)⟩ := by
  intro s t m
  have hround : (if (⌊t⌋ : ℚ) + m < ⌈s⌉ + m then (⌈s⌉ : ℚ) + m else ⌊t⌋ + m) = max (⌈s⌉ : ℚ) ⌊t⌋ + m := by
    rw [← max_add_add_right, max_def_lt]
    split_ifs <;> linarith
  simp only [recorded, gridToGeoForRegularAxis, gt_iff_lt, hres.not_gt, if_false, htrim.lower, htrim.upper, hmax]
  rw [hround]

/-- The code computes the geo extent where its errors cancel out. -/
theorem recorded_eq_iff (hmax : gridMax.val = grid.last) (htrim : grid.IsTrim trim l h) :
    ((grid.recorded gridMax trim).lowerLimit : ℚ) = grid.extentMin l h ∧
      ((grid.recorded gridMax trim).upperLimit : ℚ) = grid.extentMax l h ↔
        grid.ErrorsCancel gridMax trim l h := by
  rcases grid.resolution_ne.lt_or_gt with hres | hres
  · obtain ⟨hlow, hhigh⟩ := extent_of_neg hres htrim.ordered
    have hcast : ∀ a b : ℤ, ((max a b : ℤ) : ℚ) = max (a : ℚ) b := fun a b => Int.cast_max
    simp only [ErrorsCancel, if_neg hres.not_gt]
    rw [recorded_of_neg hres hmax htrim, ← toBigInteger_add_eq_iff, ← toBigInteger_add_eq_iff, hlow, hhigh,
      hcast]
    refine and_congr (eq_left_cast_iff ?_) (eq_left_cast_iff ?_)
    · ring
    · ring
  · obtain ⟨hlow, hhigh⟩ := extent_of_pos hres htrim.ordered
    simp only [ErrorsCancel, if_pos hres]
    rw [recorded_of_pos hres hmax htrim, ← toBigInteger_add_eq_iff, ← toBigInteger_add_eq_iff, hlow, hhigh]
    split_ifs with htop
    · refine iff_of_false (fun ⟨hlower, _⟩ => ?_) fun hcancel => hcancel.1 htop
      have hfract := Int.floor_le ((l - grid.first : ℚ) * grid.resolution.val)
      rcases (toBigInteger_eq_iff _ _).mp (rfl : toBigInteger _ = _) with ⟨-, h, -⟩ | ⟨-, h, -⟩
      · rw [hlower] at h
        linarith
      · rw [hlower] at h
        linarith
    · rw [and_iff_right htop]
      refine and_congr (eq_left_cast_iff ?_) (eq_left_cast_iff ?_)
      · ring
      · ring

/-- **A grid subset records the geo extent of its cells** exactly where the errors of the translation cancel
out. -/
theorem recordsGeoExtent_iff (grid : RegularGrid) (getIndexes : CoefficientIndexes) (checkBoundary : Bool)
    {metadata : WcpsCoverageMetadata} {name : String} {axis : Axis} {gridMax : BigDecimal}
    {trim : ParsedSubset BigDecimal} {l h : ℤ} (haxis : grid.IsAxis gridMax axis)
    (hname : metadata.getAxisByName name = some axis) (htrim : grid.IsTrim trim l h) :
    grid.RecordsGeoExtent getIndexes checkBoundary metadata name trim l h ↔
      grid.ErrorsCancel gridMax trim l h := by
  obtain ⟨metadata', axis', hok, hfind, hgeo⟩ :=
    @applySubsets_trim grid getIndexes checkBoundary metadata name axis gridMax trim l h haxis hname htrim
  rw [← recorded_eq_iff haxis.gridMax_val htrim]
  constructor
  · rintro ⟨_, _, bounds, hok', hfind', hgeo', hextent⟩
    obtain rfl := Except.ok.inj (hok.symm.trans hok')
    obtain rfl := Option.some.inj (hfind.symm.trans hfind')
    obtain ⟨hlower, hupper⟩ := NumericSubset.trimming.inj (hgeo.symm.trans hgeo')
    have hboth := (isExtent_iff htrim bounds).mp hextent
    rwa [← hlower, ← hupper, BigDecimal.val_ofInt, BigDecimal.val_ofInt] at hboth
  · intro hboth
    refine ⟨metadata', axis', ⟨.ofInt _, .ofInt _⟩, hok, hfind, hgeo, (isExtent_iff htrim _).mpr ?_⟩
    rwa [BigDecimal.val_ofInt, BigDecimal.val_ofInt]

theorem ofInt_one_ne : (BigDecimal.ofInt 1).val ≠ 0 := by norm_num

theorem whole_extent : (BigDecimal.ofInt 10).val - (BigDecimal.ofInt 0).val =
    (10 : ℕ) * |(BigDecimal.ofInt 1).val| := by norm_num

theorem cells_pos_ten : 0 < 10 := Nat.succ_pos 9

theorem val_ofInt_zero : (BigDecimal.ofInt 0).val = (0 : ℤ) := BigDecimal.val_ofInt 0

/-- Ten cells of one degree, from 0 to 10. -/
def wholeDegrees : RegularGrid where
  geoDomain := ⟨.ofInt 0, .ofInt 10⟩
  resolution := .ofInt 1
  gridDomainMin := .ofInt 0
  first := 0
  cells := 10
  resolution_ne := ofInt_one_ne
  cells_pos := cells_pos_ten
  gridDomainMin_val := val_ofInt_zero
  extent := whole_extent

theorem half_ne : (⟨5, 1⟩ : BigDecimal).val ≠ 0 := by norm_num [BigDecimal.val]

theorem half_extent : (BigDecimal.ofInt 2).val - (BigDecimal.ofInt 0).val =
    (4 : ℕ) * |(⟨5, 1⟩ : BigDecimal).val| := by
  rw [BigDecimal.val_ofInt, BigDecimal.val_ofInt]
  norm_num [BigDecimal.val]

/-- Four cells of half a degree, from 0 to 2. -/
def halfDegrees : RegularGrid where
  geoDomain := ⟨.ofInt 0, .ofInt 2⟩
  resolution := ⟨5, 1⟩
  gridDomainMin := .ofInt 0
  first := 0
  cells := 4
  resolution_ne := half_ne
  cells_pos := Nat.succ_pos 3
  gridDomainMin_val := val_ofInt_zero
  extent := half_extent

/-- The coverage of a regular axis. -/
def coverageOf (grid : RegularGrid) (gridMax : BigDecimal) : WcpsCoverageMetadata where
  coverageName := "c"
  coverageType := "RectifiedGridCoverage"
  axes := [{
    label := "Long"
    type := .regular grid.resolution
    geoBounds := .trimming grid.geoDomain.lowerLimit grid.geoDomain.upperLimit
    gridBounds := .trimming grid.gridDomainMin gridMax
    crsUri := "EPSG:4326"
    scalarResolution := grid.resolution
    rasdamanOrder := 0 }]

/-- The first two cells of half a degree. -/
theorem recordsGeoExtent_halfDegrees : halfDegrees.RecordsGeoExtent noIndexes true
    (coverageOf halfDegrees (.ofInt 3)) "Long" ⟨.ofInt 0, .ofInt 1⟩ 0 1 := by
  have hhalf : (⟨5, 1⟩ : BigDecimal).val = 1 / 2 := by norm_num [BigDecimal.val]
  have htrim : halfDegrees.IsTrim ⟨.ofInt 0, .ofInt 1⟩ 0 1 :=
    ⟨BigDecimal.val_ofInt 0, BigDecimal.val_ofInt 1, le_rfl, zero_le_one, by decide⟩
  refine (recordsGeoExtent_iff halfDegrees noIndexes true ⟨rfl, rfl, rfl, BigDecimal.val_ofInt 3⟩ rfl
    htrim).mpr ?_
  have hpos : 0 < halfDegrees.resolution.val := by norm_num [halfDegrees, hhalf]
  obtain ⟨hmin, hmax⟩ := extent_of_pos hpos htrim.ordered
  simp only [ErrorsCancel, if_pos hpos]
  rw [hmin, hmax]
  have hceil : ⌈(1 / 2 : ℚ)⌉ = 1 := by norm_num
  refine ⟨by decide, ⟨⟨0, ?_⟩, ?_⟩, ⟨⟨1, ?_⟩, ?_⟩⟩
  · norm_num [halfDegrees]
  · norm_num [halfDegrees]
  · norm_num [halfDegrees, hhalf]
  · norm_num [halfDegrees, hhalf, hceil]

/-- Of the cells 2 to 4 of one degree the code records the geo bounds from 2 to 4. -/
theorem not_recordsGeoExtent_wholeDegrees : ¬ wholeDegrees.RecordsGeoExtent noIndexes true
    (coverageOf wholeDegrees (.ofInt 9)) "Long" ⟨.ofInt 2, .ofInt 4⟩ 2 4 := by
  have htrim : wholeDegrees.IsTrim ⟨.ofInt 2, .ofInt 4⟩ 2 4 :=
    ⟨BigDecimal.val_ofInt 2, BigDecimal.val_ofInt 4, by decide, by decide, by decide⟩
  have hrecorded : wholeDegrees.recorded (.ofInt 9) ⟨.ofInt 2, .ofInt 4⟩ = ⟨2, 4⟩ := by decide +kernel
  obtain ⟨_, _, hok, hfind, hgeo⟩ := @applySubsets_trim wholeDegrees noIndexes true
    (coverageOf wholeDegrees (.ofInt 9)) "Long" _ (.ofInt 9) _ _ _ ⟨rfl, rfl, rfl, BigDecimal.val_ofInt 9⟩ rfl
    htrim
  rintro ⟨_, _, bounds, hok', hfind', hgeo', hextent⟩
  obtain rfl := Except.ok.inj (hok.symm.trans hok')
  obtain rfl := Option.some.inj (hfind.symm.trans hfind')
  obtain ⟨-, hupper⟩ := NumericSubset.trimming.inj (hgeo.symm.trans hgeo')
  have hupper_val := hextent.upper
  obtain ⟨-, hmax⟩ := @extent_of_pos wholeDegrees _ _ (by norm_num [wholeDegrees]) htrim.ordered
  rw [← hupper, hrecorded, hmax] at hupper_val
  norm_num [wholeDegrees] at hupper_val

end RegularGrid

end Petascope

end Rasdaman
