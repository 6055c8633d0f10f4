import Rasdaman.Petascope.CoordinateTranslationService

/-!
# Petascope/WcpsCoverageMetadataService — the bounds of the axes under trims and slices

`applySubsets` gives the axes named by a list of subsets their new bounds, in geo and in grid
coordinates.
-/

namespace Rasdaman

namespace Petascope

/-- `NumericTrimming` and `NumericSlicing`. -/
inductive NumericSubset
  | trimming (lowerLimit upperLimit : BigDecimal)
  | slicing (bound : BigDecimal)
  deriving DecidableEq

namespace NumericSubset

/-- The limits; those of a slice are its bound. -/
def limits : NumericSubset → ParsedSubset BigDecimal
  | trimming lowerLimit upperLimit => ⟨lowerLimit, upperLimit⟩
  | slicing bound => ⟨bound, bound⟩

end NumericSubset

/-- `RegularAxis` and `IrregularAxis`. -/
inductive AxisType
  | regular (resolution : BigDecimal)
  | irregular
  deriving DecidableEq

/-- `Axis`. -/
structure Axis where
  label : String
  type : AxisType
  geoBounds : NumericSubset
  gridBounds : NumericSubset
  crsUri : String
  scalarResolution : BigDecimal
  rasdamanOrder : ℕ
  deriving DecidableEq

/-- `Subset`. -/
structure Subset where
  axisName : String
  numericSubset : NumericSubset
  crs : String

/-- `WcpsCoverageMetadata`. -/
structure WcpsCoverageMetadata where
  coverageName : String
  coverageType : String
  axes : List Axis

/-- `CrsUtil.isGridCrs`. -/
def isGridCrs (axisCrs : String) : Bool := axisCrs = "CRS:1"

namespace WcpsCoverageMetadataService

open CoordinateTranslationService

/-- `translateGeoToGridCoordinates`. -/
def translateGeoToGridCoordinates (getIndexes : CoefficientIndexes) (parsedSubset : ParsedSubset BigDecimal)
    (axis : Axis) (coverageName : String) (geoDomainMin geoDomainMax gridDomainMin : BigDecimal) :
    Except PetascopeException (ParsedSubset ℤ) :=
  match axis.type with
  | .regular resolution =>
    geoToGridForRegularAxis parsedSubset geoDomainMin geoDomainMax resolution gridDomainMin
  | .irregular =>
    geoToGridForIrregularAxes getIndexes parsedSubset axis.scalarResolution coverageName axis.rasdamanOrder
      gridDomainMin geoDomainMin

/-- `translateGridToGeoCoordinates`; an irregular axis has no geo coordinates for grid ones. -/
def translateGridToGeoCoordinates (parsedSubset : ParsedSubset BigDecimal) (axis : Axis)
    (geoDomainMin gridDomainMin gridDomainMax : BigDecimal) : ParsedSubset ℤ :=
  match axis.type with
  | .regular resolution =>
    gridToGeoForRegularAxis parsedSubset gridDomainMin gridDomainMax resolution geoDomainMin
  | .irregular => ⟨toBigInteger parsedSubset.lowerLimit.val, toBigInteger parsedSubset.upperLimit.val⟩

/-- `validParsedSubsetGeoBounds` and `validParsedSubsetGridBounds`, for the bounds in question.  A parsed
subset that was built from two limits always counts as a trim. -/
def validParsedSubsetBounds (parsedSubset : ParsedSubset BigDecimal) (bounds : NumericSubset) :
    Except PetascopeException Unit :=
  match bounds with
  | .trimming lowerLimit upperLimit =>
    if parsedSubset.lowerLimit.val < lowerLimit.val ∨ parsedSubset.lowerLimit.val > upperLimit.val ∨
        parsedSubset.upperLimit.val < lowerLimit.val ∨ parsedSubset.upperLimit.val > upperLimit.val then
      .error .outOfBoundsSubsetting
    else .ok ()
  | .slicing _ => .error .invalidSubsetting

/-- `applyTrimmingSubset`. -/
def applyTrimmingSubset (getIndexes : CoefficientIndexes) (checkBoundary : Bool)
    (metadata : WcpsCoverageMetadata) (lowerLimit upperLimit : BigDecimal) (axis : Axis) :
    Except PetascopeException Axis := do
  let geoToGrid := !(isGridCrs axis.crsUri || metadata.coverageType = "GridCoverage")
  let parsedSubset := ⟨lowerLimit, upperLimit⟩
  if lowerLimit.val > upperLimit.val then .error .invalidSubsetting
  if checkBoundary then
    validParsedSubsetBounds parsedSubset (if geoToGrid then axis.geoBounds else axis.gridBounds)
  match axis.geoBounds, axis.gridBounds with
  | .trimming geoDomainMin geoDomainMax, .trimming gridDomainMin gridDomainMax =>
    if geoToGrid then
      let translated ← translateGeoToGridCoordinates getIndexes parsedSubset axis metadata.coverageName
        geoDomainMin geoDomainMax gridDomainMin
      return { axis with
        geoBounds := .trimming lowerLimit upperLimit
        gridBounds := .trimming (.ofInt translated.lowerLimit) (.ofInt translated.upperLimit) }
    else
      let translated := translateGridToGeoCoordinates parsedSubset axis geoDomainMin gridDomainMin
        gridDomainMax
      return { axis with
        geoBounds := .trimming (.ofInt translated.lowerLimit) (.ofInt translated.upperLimit)
        gridBounds := .trimming lowerLimit upperLimit }
  | _, _ => .error .classCast

/-- `applySlicing`. -/
def applySlicing (getIndexes : CoefficientIndexes) (checkBoundary : Bool) (metadata : WcpsCoverageMetadata)
    (bound : BigDecimal) (crs : String) (axis : Axis) : Except PetascopeException Axis := do
  let geoToGrid := !(isGridCrs axis.crsUri || metadata.coverageType = "GridCoverage")
  let parsedSubset := ⟨bound, bound⟩
  if checkBoundary then
    validParsedSubsetBounds parsedSubset (if isGridCrs crs then axis.gridBounds else axis.geoBounds)
  -- the axis may be sliced already, or trimmed
  let (geoDomain, gridDomain) ← match axis.geoBounds, axis.gridBounds with
    | .slicing geo, .slicing grid => .ok ((⟨geo, geo⟩, ⟨grid, grid⟩) :
        ParsedSubset BigDecimal × ParsedSubset BigDecimal)
    | .trimming geoMin geoMax, .trimming gridMin gridMax => .ok (⟨geoMin, geoMax⟩, ⟨gridMin, gridMax⟩)
    | _, _ => .error .classCast
  if geoToGrid then
    let translated ← translateGeoToGridCoordinates getIndexes parsedSubset axis metadata.coverageName
      geoDomain.lowerLimit geoDomain.upperLimit gridDomain.lowerLimit
    return { axis with geoBounds := .slicing bound, gridBounds := .slicing (.ofInt translated.lowerLimit) }
  else
    let translated := translateGridToGeoCoordinates parsedSubset axis geoDomain.lowerLimit
      gridDomain.lowerLimit gridDomain.upperLimit
    return { axis with geoBounds := .slicing (.ofInt translated.lowerLimit), gridBounds := .slicing bound }

/-- What `applySubsets` does to the axis of a subset. -/
def applySubset (getIndexes : CoefficientIndexes) (checkBoundary : Bool) (metadata : WcpsCoverageMetadata)
    (subset : Subset) (axis : Axis) : Except PetascopeException Axis :=
  let axis := { axis with crsUri := subset.crs }
  match subset.numericSubset with
  | .trimming lowerLimit upperLimit =>
    applyTrimmingSubset getIndexes checkBoundary metadata lowerLimit upperLimit axis
  | .slicing bound => applySlicing getIndexes checkBoundary metadata bound subset.crs axis

/-- Changes the first axis of a name. -/
def changeAxis (change : Axis → Except PetascopeException Axis) (name : String) :
    List Axis → Except PetascopeException (List Axis)
  | [] => .ok []
  | axis :: axes =>
    if axis.label = name then (change axis).map fun changed => changed :: axes
    else (changeAxis change name axes).map fun changed => axis :: changed

/-- `checkSubsetConsistency`. -/
def checkSubsetConsistency (metadata : WcpsCoverageMetadata) (subsetList : List Subset) :
    Except PetascopeException Unit :=
  if subsetList.all fun subset => metadata.axes.any fun axis => axis.label = subset.axisName then .ok ()
  else .error .coverageAxisNotFound

/-- `applySubsets`. -/
def applySubsets (getIndexes : CoefficientIndexes) (checkBoundary : Bool) (metadata : WcpsCoverageMetadata)
    (subsetList : List Subset) : Except PetascopeException WcpsCoverageMetadata := do
  checkSubsetConsistency metadata subsetList
  subsetList.foldlM (fun metadata subset => do
    let axes ← changeAxis (applySubset getIndexes checkBoundary metadata subset) subset.axisName metadata.axes
    return { metadata with axes }) metadata

end WcpsCoverageMetadataService

/-- `getAxisByName`. -/
def WcpsCoverageMetadata.getAxisByName (metadata : WcpsCoverageMetadata) (name : String) : Option Axis :=
  metadata.axes.find? fun axis => axis.label = name

end Petascope

end Rasdaman
