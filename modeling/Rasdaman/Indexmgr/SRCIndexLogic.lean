import Rasdaman.Raslib.MiterArea
import Rasdaman.Relindexif.HierIndex
import Rasdaman.Reladminif.OIdIf

/-!
# Indexmgr/SRCIndexLogic — the regular computed index

A `DBRCIndexDS` stores no key objects: the tiles of its domain are the cells of a grid, and the id of a
tile is the base counter plus the number of its cell.
-/

namespace Rasdaman

/-- `OId(counter, type)`. -/
structure CountedOId where
  counter : ℤ
  oidtype : OIdType
  deriving DecidableEq

/-- `DBRCIndexDS`. -/
structure DBRCIndexDS (d : ℕ) where
  myBaseCounter : ℤ
  myBaseOIdType : OIdType
  myDomain : Box d

namespace SRCIndexLogic

variable {d : ℕ}

/-- `computeNormalizedDomain`: the domain in units of tiles. -/
def computeNormalizedDomain (mddDomainExtent tileConfigExtent : Point d) : Except RError (Box d) :=
  let normalized : Point d := fun i => (mddDomainExtent i).tdiv (tileConfigExtent i) - 1
  if ∀ i, (normalized i + 1) * tileConfigExtent i = mddDomainExtent i then
    Box.ofBounds (fun _ => 0) normalized
  else .error (.errorNo 224)

/-- `computeNumberOfTiles`, an `unsigned int`. -/
def computeNumberOfTiles (tileConfig mddDomain : Box d) : Except RError ℕ := do
  let normalizedDomain ← computeNormalizedDomain mddDomain.getExtent tileConfig.getExtent
  return normalizedDomain.cellCount % 2 ^ 32

/-- `computeNormalizedPoint`. -/
def computeNormalizedPoint (toNormalize tileConfigExtent mddDomainOrigin : Point d) : Point d :=
  fun i => (toNormalize i - mddDomainOrigin i).tdiv (tileConfigExtent i)

/-- `computeDomain`; `fmod` is the remainder. -/
def computeDomain (toConvert tileConfigExtent mddDomainOrigin : Point d) : Except RError (Box d) :=
  let offset : Point d := fun i => (toConvert i - mddDomainOrigin i).tmod (tileConfigExtent i)
  Box.ofBounds (fun i => toConvert i - offset i)
    fun i => toConvert i - offset i + tileConfigExtent i

/-- `cell_offset`, which refuses a point outside of the box. -/
def cellOffset (b : Box d) (p : Point d) : Except RError ℕ :=
  if p ∈ b then .ok (b.cellOffset p) else .error .indexViolation

/-- `computeOId`. -/
def computeOId (mddDomain : Box d) (tileConfigExtent : Point d) (baseCounter : ℤ) (type : OIdType)
    (tileOrigin : Point d) : Except RError CountedOId := do
  let normalizedDomain ← computeNormalizedDomain mddDomain.getExtent tileConfigExtent
  let offset ← cellOffset normalizedDomain
    (computeNormalizedPoint tileOrigin tileConfigExtent mddDomain.low)
  return ⟨(offset : ℤ).bmod (2 ^ 64) + baseCounter, type⟩

/-- `computeTiledDomain`: the part of the domain that is searched, widened to tile boundaries. -/
def computeTiledDomain (completeDomain : Box d) (tileConfigExtent : Point d) (widenMe : Box d) :
    Except RError (Box d) := do
  let searchDomain ← completeDomain.createIntersection widenMe
  let offsetlow : Point d :=
    fun i => (searchDomain.low i - completeDomain.low i).tmod (tileConfigExtent i)
  let offsethigh : Point d :=
    fun i => (searchDomain.high i - completeDomain.low i).tmod (tileConfigExtent i)
  Box.ofBounds (fun i => searchDomain.low i - offsetlow i)
    fun i => searchDomain.high i - offsethigh i + tileConfigExtent i - 1

/-- `intersect`. -/
def intersect (ixDS : DBRCIndexDS d) (tileConfig searchInter : Box d) :
    Except Halt (List (KeyObject d CountedOId)) :=
  if searchInter.Intersects ixDS.myDomain then do
    let searchDomain ←
      (computeTiledDomain ixDS.myDomain tileConfig.getExtent searchInter).mapError .throws
    MiterArea.forAreas ⟨tileConfig, searchDomain, id⟩ fun iterArea => do
      let t ← (computeOId ixDS.myDomain tileConfig.getExtent ixDS.myBaseCounter ixDS.myBaseOIdType
        iterArea.low).mapError .throws
      return ⟨t, iterArea⟩
  else .ok []

/-- `containPointQuery`. -/
def containPointQuery (ixDS : DBRCIndexDS d) (tileConfig : Box d) (searchPoint : Point d) :
    Except RError (Option (KeyObject d CountedOId)) :=
  if searchPoint ∈ ixDS.myDomain then do
    let t ← computeOId ixDS.myDomain tileConfig.getExtent ixDS.myBaseCounter ixDS.myBaseOIdType
      searchPoint
    let domain ← computeDomain searchPoint tileConfig.getExtent ixDS.myDomain.low
    return some ⟨t, domain⟩
  else .ok none

end SRCIndexLogic

end Rasdaman
