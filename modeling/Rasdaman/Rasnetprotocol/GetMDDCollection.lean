import Rasdaman.Servercomm.TileTransfer

/-!
# Rasnetprotocol/GetMDDCollection — the client side of a transfer of MDDs

`getMDDCollection` asks for MDD after MDD, and `getMDDCore` for the tiles of one of them.  When a tile
arrives in blocks, `getMDDCore` fetches the second block and takes the tile for complete; a
further block starts a tile of its own.  The memory for a tile comes from `new char[]`, so what no block
fills has no defined contents: such bytes are `none`.
-/

namespace Rasdaman

open RowMajor

namespace Transfer

/-- A byte of memory; `none` where nothing was written. -/
abbrev Memory := List (Option UInt8)

/-- `r_GMarray`. -/
structure GMarray where
  domain : AnyBox
  typeLength : ℕ
  array : Memory
  deriving DecidableEq

/-- `concatArrayData`: the memory, which moves when it is too small, and the end of its data. -/
def concatArrayData (source : List UInt8) (dest : Memory) (blockOffset : ℕ) : Memory × ℕ :=
  if blockOffset + source.length > dest.length then
    (dest.take blockOffset ++ source.map some ++
      List.replicate ((blockOffset + source.length) / 16) none, blockOffset + source.length)
  else (overwrite dest blockOffset (source.map some), blockOffset + source.length)

/-- `executeGetNextTile`: the length of the block is an `int`, and memory of that size is allocated. -/
def executeGetNextTile (maxTransferBufferSize : ℕ) (c : Context) :
    Except Fault (Context × ℕ × Option RPCMarray) := do
  let r ← c.getNextTile maxTransferBufferSize
  match r.2.2 with
  | some m => if m.data.length < 2 ^ 31 then return r else throw .badAlloc
  | none => return r

/-- A tile as `getMDDCore` has it after one round of its loop. -/
structure Received where
  tileStatus : ℕ
  domain : AnyBox
  cellTypeLength : ℕ
  memory : Memory

/-- The first half of a round of the loop of `getMDDCore`: one block, or two blocks put together.
`typeLength` is that of the first tile, once there was one. -/
def receiveTile (maxTransferBufferSize : ℕ) (typeLength : Option ℕ) (c : Context) :
    Except Fault (Context × Received) := do
  let (c, tileStatus, m) ← executeGetNextTile maxTransferBufferSize c
  match m with
  | none => throw .transferFailed
  | some m =>
    let memCopyLen := max (m.domain.box.cellCount * typeLength.getD m.cellTypeLength % areaModulus)
      m.data.length
    let (memCopy, blockOffset) := concatArrayData m.data (List.replicate memCopyLen none) 0
    if tileStatus = 3 then
      let (c, subStatus, m') ← executeGetNextTile maxTransferBufferSize c
      match m' with
      | none => throw .transferFailed
      | some m' =>
        let (memCopy, _) := concatArrayData m'.data memCopy blockOffset
        -- the tile keeps the old address
        if memCopy.length = memCopyLen then
          return (c, ⟨subStatus, m.domain, m.cellTypeLength, memCopy⟩)
        else throw .freedMemory
    else return (c, ⟨tileStatus, m.domain, m.cellTypeLength, memCopy⟩)

/-- Copy a row of a tile into the memory of the MDD. -/
def copyRow (typeLength : ℕ) {d : ℕ} (mddDomain tileDomain : Box (d + 1)) (tile : Memory)
    (marrayData : Memory) (blockCtr : ℕ) : Except Fault Memory :=
  let blockCells := tileDomain.width
  let cellNo := mddDomain.cellOffset (tileDomain.cellPoint (blockCtr * blockCells))
  if cellNo * typeLength + blockCells * typeLength ≤ marrayData.length ∧
      (blockCtr + 1) * (blockCells * typeLength) ≤ tile.length then
    .ok (overwrite marrayData (cellNo * typeLength)
      (line typeLength blockCells tile (blockCtr * blockCells)))
  else .error .outOfBounds

/-- Copy a tile into the memory of the MDD, row by row. -/
def copyIntoMDD (typeLength : ℕ) (mddDomain tileDomain : AnyBox) (tile marrayData : Memory) :
    Except Fault Memory :=
  if h : tileDomain.dim = mddDomain.dim then
    let tileBox := h ▸ tileDomain.box
    (List.range (tileBox.cellCount / tileBox.width)).foldlM
      (copyRow typeLength mddDomain.box tileBox tile) marrayData
  else .error .dimMismatch

/-- The second half of a round: the tile is put into the MDD.  The size of an MDD is `r_Bytes`. -/
def insertTile (mddDomain : AnyBox) (typeLength tileCntr : ℕ) (array : Memory) (r : Received) :
    Except Fault Memory :=
  if r.tileStatus < 2 ∧ tileCntr = 1 ∧ r.domain = mddDomain then .ok r.memory
  else
    let size := mddDomain.box.cellCount * typeLength % 2 ^ 32
    let marrayData := if tileCntr = 1 then List.replicate size (some 0) else array
    copyIntoMDD typeLength mddDomain r.domain r.memory marrayData

/-- The loop of `getMDDCore`, from the number of tiles so far on. -/
def getMDDCoreLoop (maxTransferBufferSize : ℕ) (mddDomain : AnyBox) :
    ℕ → (tileCntr : ℕ) → (typeLength : Option ℕ) → Memory → Context →
      Except Fault (Context × ℕ × GMarray)
  | 0, _, _, _, _ => .error .fuel
  | n + 1, tileCntr, typeLength, array, c => do
    let (c, r) ← receiveTile maxTransferBufferSize typeLength c
    let typeLength := typeLength.getD r.cellTypeLength
    let array ← insertTile mddDomain typeLength (tileCntr + 1) array r
    if r.tileStatus = 2 ∨ r.tileStatus = 3 then
      getMDDCoreLoop maxTransferBufferSize mddDomain n (tileCntr + 1) (some typeLength) array c
    else return (c, r.tileStatus, ⟨mddDomain, typeLength, array⟩)

/-- `getMDDCore`. -/
def getMDDCore (maxTransferBufferSize fuel : ℕ) (mddDomain : AnyBox) (c : Context) :
    Except Fault (Context × ℕ × GMarray) :=
  getMDDCoreLoop maxTransferBufferSize mddDomain fuel 0 none [] c

/-- The loop of `getMDDCollection`. -/
def getMDDCollectionLoop (maxTransferBufferSize fuel : ℕ) :
    ℕ → List GMarray → Context → Except Fault (Context × List GMarray)
  | 0, _, _ => .error .fuel
  | n + 1, mddColl, c => do
    match c.getNextMDD with
    -- status 2, or 1 with no tile to follow
    | (_, _, none) => throw .transferFailed
    | (c, mddStatus, some mddDomain) =>
      if mddStatus = 2 then throw .transferFailed
      else
        let (c, tileStatus, mdd) ← getMDDCore maxTransferBufferSize fuel mddDomain c
        if tileStatus = 0 then return (c.endTransfer, mddColl ++ [mdd])
        else getMDDCollectionLoop maxTransferBufferSize fuel n (mddColl ++ [mdd]) c

/-- `getMDDCollection`, with a bound on the rounds of each loop. -/
def getMDDCollection (maxTransferBufferSize fuel : ℕ) (c : Context) :
    Except Fault (Context × List GMarray) :=
  getMDDCollectionLoop maxTransferBufferSize fuel fuel [] c

end Transfer

end Rasdaman
