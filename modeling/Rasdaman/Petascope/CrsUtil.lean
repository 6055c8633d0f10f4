import Rasdaman.Petascope.CoverageMetadata

/-!
# Petascope/CrsUtil — `convertToInternalGridIndices`

Translates a subset of an axis into grid indexes.  The indexes are kept in a static table under the names
of coverage and axis and the texts of the two bounds, and taken from there for a regular axis.

`computeGridIndices` is the translation without the table.
-/

namespace Rasdaman

namespace Petascope

/-- What the translation calls.  `number` is the value of a numeric text; a double is a rational number
that `toDouble` rounds to; `divide` is `BigDecimalUtil.divide`; the others are those of `TimeUtil`. -/
structure Libraries where
  number : String → ℚ
  toDouble : ℚ → ℚ
  divide : ℚ → ℚ → ℚ
  isValidTimestamp : String → Bool
  isOrderedTimeSubset : String → String → Bool
  countOffsets : (datumOrigin timestamp axisUoM : String) → (resolution : ℚ) → Except PetascopeException ℚ

/-- Exact doubles and divisions, the texts `"2"` and `"4"`, and no timestamps. -/
def Libraries.digits : Libraries where
  number text := if text = "2" then 2 else 4
  toDouble x := x
  divide x y := x / y
  isValidTimestamp _ := false
  isOrderedTimeSubset _ _ := false
  countOffsets _ _ _ _ := .error .noApplicableCode

/-- `DbMetadataSource.getIndexesFromIrregularRectilinearAxis`. -/
abbrev CoefficientIndexes :=
  (covName : String) → (iOrder : ℕ) → (lo hi : ℚ) → Except PetascopeException (ℤ × ℤ)

/-- A bound of a subset: its text, and its value once that is known. -/
structure Bound where
  text : String
  coord : ℚ

namespace CrsUtil

/-- `(long)` of a double. -/
def toLong (x : ℚ) : ℤ := max (-2 ^ 63) (min (2 ^ 63 - 1) (if x < 0 then ⌈x⌉ else ⌊x⌋))

/-- `(long) Math.floor(x / cellWidth)`; a quotient by 0 is infinite or no number. -/
def floorDiv (lib : Libraries) (x cellWidth : ℚ) : ℤ :=
  if cellWidth = 0 then if x < 0 then -2 ^ 63 else if x = 0 then 0 else 2 ^ 63 - 1
  else toLong ⌊lib.toDouble (x / cellWidth)⌋

/-- The part for an indexed CRS. -/
def indexedCrs (lib : Libraries) (dom : DomainElement) (cdom : CellDomainElement) (lo hi : Bound) :
    ℤ × ℤ :=
  let indexOf := fun subset : Bound =>
    let roundUp := subset.text = lo.text ∧ lib.toDouble subset.coord ≠ toLong (lib.toDouble subset.coord)
    let coord := toLong (lib.toDouble subset.coord) + if roundUp then 1 else 0
    let hiBound := if dom.positiveForwards then coord else cdom.hi
    let loBound := if dom.positiveForwards then cdom.lo else coord
    toLong dom.minValue + (hiBound - loBound)
  (indexOf lo, indexOf hi)

/-- The part for the other regular axes. -/
def linearAxis (lib : Libraries) (dom : DomainElement) (cdom : CellDomainElement) (lo hi : Bound) :
    ℤ × ℤ :=
  let coordLo := lib.toDouble lo.coord
  let coordHi := lib.toDouble hi.coord
  let domMin := lib.toDouble dom.minValue
  let domMax := lib.toDouble dom.maxValue
  let cellWidth := lib.toDouble
    (lib.divide (dom.maxValue - dom.minValue) ((cdom.hi : ℚ) + 1 - cdom.lo))
  if dom.positiveForwards then
    let indexes := (floorDiv lib (lib.toDouble (coordLo - domMin)) cellWidth + cdom.lo,
      floorDiv lib (lib.toDouble (coordHi - domMin)) cellWidth + cdom.lo)
    if coordLo = coordHi ∧ coordHi = domMax then (indexes.1 - 1, indexes.2) else indexes
  else
    let indexes := (floorDiv lib (lib.toDouble (domMax - coordHi)) cellWidth + cdom.lo,
      floorDiv lib (lib.toDouble (domMax - coordLo)) cellWidth + cdom.lo)
    if coordLo = coordHi ∧ coordHi = domMin then (indexes.1 - 1, indexes.2) else indexes

/-- The part for an irregular axis; its exceptions are wrapped. -/
def irregularAxis (lib : Libraries) (dbMeta : Option CoefficientIndexes) (coverageName : String)
    (dom : DomainElement) (cdom : CellDomainElement) (timestamps : Bool) (lo hi : String) :
    Except PetascopeException (ℤ × ℤ) :=
  match dbMeta with
  | none => .error .internalComponentError
  | some getIndexes => Except.mapError (fun _ => .internalComponentError) do
    let normalized := fun text => if timestamps then
        lib.countOffsets dom.datumOrigin text dom.uom (lib.toDouble dom.scalarResolution)
      else .ok (lib.divide (lib.number text) dom.scalarResolution)
    let normalizedNumLo ← normalized lo
    let normalizedNumHi ← normalized hi
    let normalizedDomMin := lib.divide dom.minValue dom.scalarResolution
    let indexes ← getIndexes coverageName dom.iOrder (normalizedNumLo - normalizedDomMin)
      (normalizedNumHi - normalizedDomMin)
    return (indexes.1 + cdom.lo, indexes.2)

/-- The checks of the order of a subset and of its bounds. -/
def checkSubset (lib : Libraries) (dom : DomainElement) (lo : String) (loIsNumeric : Bool) (hi : String)
    (hiIsNumeric : Bool) : Except PetascopeException Unit :=
  if loIsNumeric != hiIsNumeric then .error .invalidRequest
  else if !loIsNumeric then
    if !lib.isValidTimestamp lo then .error .invalidRequest
    else if !lib.isValidTimestamp hi then .error .invalidRequest
    else if !lib.isOrderedTimeSubset lo hi then .error .invalidSubsetting
    else .ok ()
  else
    let coordLo := lib.toDouble (lib.number lo)
    let coordHi := lib.toDouble (lib.number hi)
    if coordHi < coordLo then .error .invalidSubsetting
    else if coordLo > lib.toDouble dom.maxValue ∨ coordHi < lib.toDouble dom.minValue then
      .error .invalidSubsetting
    else .ok ()

/-- The part for a regular axis; timestamps become numbers first. -/
def regularAxis (lib : Libraries) (dom : DomainElement) (cdom : CellDomainElement) (timestamps : Bool)
    (lo hi : String) : Except PetascopeException (ℤ × ℤ) := do
  let (lo, hi) ← (if timestamps then do
      let numLo ← lib.countOffsets dom.datumOrigin lo dom.uom 1
      let numHi ← lib.countOffsets dom.datumOrigin hi dom.uom 1
      if numHi < lib.toDouble dom.minValue ∨ numLo > lib.toDouble dom.maxValue then
        .error .internalComponentError
      else
        -- the text of a double names it
        return (⟨lo, numLo⟩, ⟨if numHi = numLo then lo else hi, numHi⟩)
    else .ok (⟨lo, lib.number lo⟩, ⟨hi, lib.number hi⟩) : Except PetascopeException (Bound × Bound))
  return if dom.uom = "GridSpacing" then indexedCrs lib dom cdom lo hi else linearAxis lib dom cdom lo hi

/-- A subset of an axis of a coverage. -/
structure Request where
  covMeta : CoverageMetadata
  dbMeta : Option CoefficientIndexes
  axisName : String
  stringLo : String
  loIsNumeric : Bool
  stringHi : String
  hiIsNumeric : Bool

/-- The checks and the translation of a subset of an axis. -/
def convertAxis (lib : Libraries) (r : Request) (dom : DomainElement) (cdom : CellDomainElement) :
    Except PetascopeException (ℤ × ℤ) := do
  checkSubset lib dom r.stringLo r.loIsNumeric r.stringHi r.hiIsNumeric
  let indexes ← if dom.isIrregular then
      irregularAxis lib r.dbMeta r.covMeta.coverageName dom cdom (!r.loIsNumeric) r.stringLo r.stringHi
    else regularAxis lib dom cdom (!r.loIsNumeric) r.stringLo r.stringHi
  return if indexes.1 > indexes.2 then (indexes.2, indexes.1) else indexes

/-- `convertToInternalGridIndices` without the table. -/
def computeGridIndices (lib : Libraries) (r : Request) : Except PetascopeException (ℤ × ℤ) := do
  let dom := r.covMeta.getDomainByName r.axisName
  let cdom ← r.covMeta.getCellDomainByName r.axisName
  match dom, cdom with
  | some dom, some cdom => convertAxis lib r dom cdom
  | _, _ => .error .noApplicableCode

/-! ## The table of indexes -/

/-- The key of `gridIndexConversions`. -/
abbrev CacheKey := String × String × String × String

/-- `gridIndexConversions`; the last value put under a key comes first. -/
abbrev Cache := List (CacheKey × (ℤ × ℤ))

/-- The key of a request. -/
def Request.cacheKey (r : Request) : CacheKey :=
  (r.covMeta.coverageName, r.axisName, r.stringLo, r.stringHi)

/-- The translation, whose result is put into the table. -/
def computeAndPut (lib : Libraries) (cache : Cache) (r : Request) :
    Except PetascopeException (ℤ × ℤ) × Cache :=
  match computeGridIndices lib r with
  | .ok indexes => (.ok indexes, (r.cacheKey, indexes) :: cache)
  | .error e => (.error e, cache)

/-- `convertToInternalGridIndices`. -/
def convertToInternalGridIndices (lib : Libraries) (cache : Cache) (r : Request) :
    Except PetascopeException (ℤ × ℤ) × Cache :=
  match cache.lookup r.cacheKey with
  | some cachedIndexes =>
    match r.covMeta.getDomainByName r.axisName with
    | some dom => if dom.isIrregular then computeAndPut lib cache r else (.ok cachedIndexes, cache)
    | none => (.error .nullPointer, cache)
  | none => computeAndPut lib cache r

/-- `convertToInternalGridIndices` for a slice. -/
def convertSliceToInternalGridIndex (lib : Libraries) (cache : Cache) (covMeta : CoverageMetadata)
    (dbMeta : Option CoefficientIndexes) (axisName value : String) (isNumeric : Bool) :
    Except PetascopeException ℤ × Cache :=
  let (indexes, cache) := convertToInternalGridIndices lib cache
    ⟨covMeta, dbMeta, axisName, value, isNumeric, value, isNumeric⟩
  (indexes.map Prod.fst, cache)

end CrsUtil

end Petascope

end Rasdaman
