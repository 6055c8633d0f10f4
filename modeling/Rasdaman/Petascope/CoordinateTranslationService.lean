import Rasdaman.Petascope.CrsUtil

/-!
# Petascope/CoordinateTranslationService — subsets in geo and in grid coordinates

A subset of an axis is translated relative to the bounds that the axis has at the time.
-/

namespace Rasdaman

namespace Petascope

/-- `java.math.BigDecimal`: `equals` compares the scales too. -/
structure BigDecimal where
  unscaled : ℤ
  scale : ℤ
  deriving DecidableEq

namespace BigDecimal

/-- The number. -/
def val (x : BigDecimal) : ℚ := x.unscaled * (10 : ℚ) ^ (-x.scale)

/-- `new BigDecimal(BigInteger)`. -/
def ofInt (n : ℤ) : BigDecimal := ⟨n, 0⟩

@[simp] theorem val_ofInt (n : ℤ) : (ofInt n).val = n := by simp [val, ofInt]

theorem ofInt_injective : Function.Injective ofInt := fun _ _ h => (BigDecimal.mk.inj h).1

end BigDecimal

/-- `ParsedSubset`, built from a lower and an upper limit. -/
@[ext]
structure ParsedSubset (α : Type) where
  lowerLimit : α
  upperLimit : α
  deriving DecidableEq

/-- `BigDecimal.toBigInteger`. -/
def toBigInteger (x : ℚ) : ℤ := if x < 0 then ⌈x⌉ else ⌊x⌋

theorem toBigInteger_intCast (n : ℤ) : toBigInteger n = n := by
  unfold toBigInteger
  split_ifs
  · exact Int.ceil_intCast n
  · exact Int.floor_intCast n

/-- `BigDecimalUtil.divide`. -/
def exactDivide (dividend divisor : ℚ) : Except PetascopeException ℚ :=
  if divisor = 0 then .error .arithmetic else .ok (dividend / divisor)

/-- The decimal expansion of a number ends. -/
def isTerminating (x : ℚ) : Bool := 10 ^ x.den % x.den = 0

/-- `BigDecimal.divide`, which has no result where the expansion of the quotient does not end. -/
def decimalDivide (dividend divisor : ℚ) : Except PetascopeException ℚ :=
  if divisor = 0 then .error .arithmetic
  else if isTerminating (dividend / divisor) then .ok (dividend / divisor)
  else .error .arithmetic

namespace CoordinateTranslationService

/-- `geoToGridForRegularAxis`. -/
def geoToGridForRegularAxis (numericSubset : ParsedSubset BigDecimal)
    (geoDomainMin geoDomainMax resolution gridDomainMin : BigDecimal) :
    Except PetascopeException (ParsedSubset ℤ) := do
  let lower := numericSubset.lowerLimit
  let upper := numericSubset.upperLimit
  if resolution.val > 0 then
    let returnLowerLimit := ⌊← exactDivide (lower.val - geoDomainMin.val) resolution.val⌋ + gridDomainMin.val
    let returnUpperLimit :=
      ⌈← exactDivide (upper.val - geoDomainMin.val) resolution.val⌉ - 1 + gridDomainMin.val
    let returnUpperLimit := if returnUpperLimit < returnLowerLimit then returnLowerLimit else returnUpperLimit
    -- a slice at the upper bound of the axis
    if geoDomainMax.val ≠ geoDomainMin.val ∧ lower = upper ∧ upper = geoDomainMax then
      return ⟨toBigInteger (returnLowerLimit - 1), toBigInteger (returnLowerLimit - 1)⟩
    else
      return ⟨toBigInteger returnLowerLimit, toBigInteger returnUpperLimit⟩
  else
    let returnLowerLimit := ⌈← exactDivide (upper.val - geoDomainMax.val) resolution.val⌉ + gridDomainMin.val
    let returnUpperLimit :=
      ⌊← exactDivide (lower.val - geoDomainMax.val) resolution.val⌋ - 1 + gridDomainMin.val
    let returnUpperLimit := if returnUpperLimit < returnLowerLimit then returnLowerLimit else returnUpperLimit
    return ⟨toBigInteger returnLowerLimit, toBigInteger returnUpperLimit⟩

/-- `gridToGeoForRegularAxis`. -/
def gridToGeoForRegularAxis (numericSubset : ParsedSubset BigDecimal)
    (geoDomainMin geoDomainMax resolution gridDomainMin : BigDecimal) : ParsedSubset ℤ :=
  let lower := numericSubset.lowerLimit
  let upper := numericSubset.upperLimit
  if resolution.val > 0 then
    let returnLowerLimit := ⌊(lower.val - geoDomainMin.val) * resolution.val⌋ + gridDomainMin.val
    let returnUpperLimit := ⌈(upper.val - geoDomainMin.val) * resolution.val⌉ + gridDomainMin.val
    let returnUpperLimit := if returnUpperLimit < returnLowerLimit then returnLowerLimit else returnUpperLimit
    if geoDomainMax.val ≠ geoDomainMin.val ∧ lower = upper ∧ upper = geoDomainMax then
      ⟨toBigInteger (returnLowerLimit - 1), toBigInteger (returnLowerLimit - 1)⟩
    else ⟨toBigInteger returnLowerLimit, toBigInteger returnUpperLimit⟩
  else
    let returnLowerLimit := ⌈(upper.val - geoDomainMax.val) * resolution.val⌉ + gridDomainMin.val
    let returnUpperLimit := ⌊(lower.val - geoDomainMax.val) * resolution.val⌋ + gridDomainMin.val
    let returnUpperLimit := if returnUpperLimit < returnLowerLimit then returnLowerLimit else returnUpperLimit
    ⟨toBigInteger returnLowerLimit, toBigInteger returnUpperLimit⟩

/-- `geoToGridForIrregularAxes`: the lower grid bound counts from the grid bound of the axis, the upper
one is an order of the table. -/
def geoToGridForIrregularAxes (getIndexes : CoefficientIndexes) (numericSubset : ParsedSubset BigDecimal)
    (scalarResolution : BigDecimal) (coverageName : String) (axisOrder : ℕ)
    (gridDomainMin geoDomainMin : BigDecimal) : Except PetascopeException (ParsedSubset ℤ) := do
  let lowerCoefficient ← decimalDivide (numericSubset.lowerLimit.val - geoDomainMin.val) scalarResolution.val
  let upperCoefficient ← decimalDivide (numericSubset.upperLimit.val - geoDomainMin.val) scalarResolution.val
  let indexes ← getIndexes coverageName axisOrder lowerCoefficient upperCoefficient
  return ⟨toBigInteger (indexes.1 + gridDomainMin.val), indexes.2⟩

end CoordinateTranslationService

end Petascope

end Rasdaman
