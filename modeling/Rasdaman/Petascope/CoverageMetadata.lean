import Mathlib.Data.Rat.Floor

/-!
# Petascope/CoverageMetadata — the axes of a coverage

`DomainElement` is an axis in the coordinates of its CRS and `CellDomainElement` the same axis in grid
coordinates.  A `BigDecimal` is the rational number it stands for.
-/

namespace Rasdaman

namespace Petascope

/-- The exceptions of the modelled code, by their `ExceptionCode` or their class. -/
inductive PetascopeException
  | noApplicableCode
  | invalidRequest
  | invalidSubsetting
  | internalComponentError
  | invalidUpdateOnIrregularAxis
  | invalidTrimSubsetOnIrregularAxis
  | outOfBoundsSubsetting
  | coverageAxisNotFound
  | nullPointer
  | indexOutOfBounds
  | classCast
  | arithmetic
  deriving DecidableEq, Repr

/-- `DomainElement`. -/
structure DomainElement where
  label : String
  uom : String
  datumOrigin : String
  minValue : ℚ
  maxValue : ℚ
  scalarResolution : ℚ
  positiveForwards : Bool
  isIrregular : Bool
  iOrder : ℕ
  deriving DecidableEq

/-- `getDirectionalResolution`. -/
def DomainElement.getDirectionalResolution (dom : DomainElement) : ℚ :=
  if dom.positiveForwards then dom.scalarResolution else -1 * dom.scalarResolution

/-- `CellDomainElement`. -/
structure CellDomainElement where
  lo : ℤ
  hi : ℤ
  deriving DecidableEq

/-- `CoverageMetadata`. -/
structure CoverageMetadata where
  coverageName : String
  domain : List DomainElement
  cellDomain : List CellDomainElement

namespace CoverageMetadata

/-- `String.equalsIgnoreCase`. -/
def equalsIgnoreCase (a b : String) : Bool := a.toList.map Char.toLower == b.toList.map Char.toLower

/-- `getDomainByName`. -/
def getDomainByName (covMeta : CoverageMetadata) (name : String) : Option DomainElement :=
  covMeta.domain.find? fun dom => dom.label = name

/-- `getCellDomainByName`, which looks for the axis without regard to case. -/
def getCellDomainByName (covMeta : CoverageMetadata) (name : String) :
    Except PetascopeException (Option CellDomainElement) :=
  match covMeta.domain.find? fun dom => equalsIgnoreCase dom.label name with
  | some dom =>
    match covMeta.cellDomain[dom.iOrder]? with
    | some cdom => .ok (some cdom)
    | none => .error .indexOutOfBounds
  | none => .ok none

end CoverageMetadata

end Petascope

end Rasdaman
