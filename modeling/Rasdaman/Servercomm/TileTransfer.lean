import Rasdaman.Tilemgr.Tile

/-!
# Servercomm/TileTransfer — the server side of a transfer of MDDs

A client fetches the MDDs of a query result one by one (`getNextMDD`) and each of them tile by tile
(`getNextTile`).  A tile larger than `maxTransferBufferSize` goes out in blocks; how much of it is left
is kept in `bytesToTransfer` of the client context.  Nothing but `getNextTile` writes that counter:
neither `endTransfer` nor a new query resets it.
-/

namespace Rasdaman

open RowMajor

namespace Transfer

/-! ## MDDs -/

/-- A box with its dimension, which is `dim + 1`. -/
structure AnyBox where
  dim : ℕ
  box : Box (dim + 1)
  deriving DecidableEq

/-- A tile with its dimension and cell size. -/
structure AnyTile where
  dim : ℕ
  tsize : ℕ
  tile : Tile dim tsize

/-- `getCompressedSize`, for raw tiles the number of bytes. -/
def AnyTile.size (t : AnyTile) : ℕ := t.tile.contents.length

/-- `QtMDD` and its `MDDObj`, with raw disjoint tiles of at most `r_Bytes` bytes, one of which meets the
load domain. -/
structure QtMDD where
  dim : ℕ
  tsize : ℕ
  currentDomain : Box (dim + 1)
  loadDomain : Box (dim + 1)
  tiles : List (Tile dim tsize)
  tsize_pos : 0 < tsize
  covers_load : currentDomain.Covers loadDomain
  covers_tile : ∀ t ∈ tiles, currentDomain.Covers t.domain
  disjoint : tiles.Pairwise fun s t => ¬s.domain.Intersects t.domain
  exists_tile : ∃ t ∈ tiles, loadDomain.Intersects t.domain
  size_lt : ∀ t ∈ tiles, t.contents.length < 2 ^ 32

namespace QtMDD

/-- A border tile is cut to the load domain, its cells copied with `copyTile`. -/
def cut (m : QtMDD) (t : Tile m.dim m.tsize) (h : m.loadDomain.Intersects t.domain) :
    Tile m.dim m.tsize :=
  if m.loadDomain.inter t.domain h = t.domain then t
  else
    { domain := m.loadDomain.inter t.domain h
      contents := Tile.copyCells m.tsize (m.loadDomain.inter t.domain h)
        (m.loadDomain.inter t.domain h)
        (List.replicate ((m.loadDomain.inter t.domain h).cells.card * m.tsize) 0) t
        (m.loadDomain.inter t.domain h)
      length_contents := Tile.length_copyCells (Box.Covers.refl _)
        (Box.covers_iff.mpr fun _ hp => (Box.mem_inter.mp hp).2) rfl rfl (by simp) }

/-- The tiles `getNextMDD` puts into `transTiles`. -/
def transTiles (m : QtMDD) : List (Tile m.dim m.tsize) :=
  if m.currentDomain = m.loadDomain then m.tiles
  else m.tiles.filterMap fun t =>
    if h : m.loadDomain.Intersects t.domain then some (m.cut t h) else none

/-- The tiles as they stand in the queue of the context. -/
def queue (m : QtMDD) : List AnyTile := m.transTiles.map fun t => ⟨m.dim, m.tsize, t⟩

variable (m : QtMDD) {t : Tile m.dim m.tsize} {p : Point (m.dim + 1)}

@[simp] theorem cut_domain (h : m.loadDomain.Intersects t.domain) :
    (m.cut t h).domain = m.loadDomain.inter t.domain h := by
  rw [cut]
  split
  · next heq => exact heq.symm
  · rfl

/-- A cut tile has the cells of the tile. -/
theorem cut_cellAt (h : m.loadDomain.Intersects t.domain) (hp : p ∈ m.loadDomain) (ht : p ∈ t.domain) :
    (m.cut t h).cellAt p = t.cellAt p := by
  have hin : p ∈ m.loadDomain.inter t.domain h := Box.mem_inter.mpr ⟨hp, ht⟩
  rw [cut]
  split
  · rfl
  · refine (Tile.cell_copyCells (Box.Covers.refl _)
      (Box.covers_iff.mpr fun _ hp => (Box.mem_inter.mp hp).2) rfl rfl (by simp) hin).trans ?_
    rw [if_pos hin, Box.pointAt_index hin]

theorem mem_transTiles : t ∈ m.transTiles →
    ∃ s ∈ m.tiles, ∃ h : m.loadDomain.Intersects s.domain,
      t.domain = m.loadDomain.inter s.domain h ∧
        ∀ p ∈ t.domain, t.cellAt p = s.cellAt p := by
  intro ht
  rw [transTiles] at ht
  split at ht
  · next heq =>
    have hcov := m.covers_tile t ht
    have hint : m.loadDomain.Intersects t.domain :=
      Box.Intersects.of_mem (heq ▸ Box.covers_iff.mp hcov _ t.domain.low_mem) t.domain.low_mem
    refine ⟨t, ht, hint, Box.eq_of_mem_iff fun p => ?_, fun _ _ => rfl⟩
    rw [Box.mem_inter]
    exact ⟨fun hp => ⟨heq ▸ Box.covers_iff.mp hcov p hp, hp⟩, And.right⟩
  · obtain ⟨s, hs, hcut⟩ := List.mem_filterMap.mp ht
    split at hcut
    · next h =>
      obtain rfl := Option.some.inj hcut
      refine ⟨s, hs, h, m.cut_domain h, fun p hp => ?_⟩
      obtain ⟨hl, hsp⟩ := Box.mem_inter.mp (m.cut_domain h ▸ hp)
      exact m.cut_cellAt h hl hsp
    · exact absurd hcut (by simp)

/-- Every tile that meets the load domain is transferred. -/
theorem exists_transTile {s : Tile m.dim m.tsize} (hs : s ∈ m.tiles) (hl : p ∈ m.loadDomain)
    (hp : p ∈ s.domain) : ∃ t ∈ m.transTiles, p ∈ t.domain ∧ t.cellAt p = s.cellAt p := by
  rw [transTiles]
  split
  · exact ⟨s, hs, hp, rfl⟩
  · have h : m.loadDomain.Intersects s.domain := Box.Intersects.of_mem hl hp
    refine ⟨m.cut s h, List.mem_filterMap.mpr ⟨s, hs, dif_pos h⟩, ?_, m.cut_cellAt h hl hp⟩
    rw [cut_domain]
    exact Box.mem_inter.mpr ⟨hl, hp⟩

theorem covers_transTile (ht : t ∈ m.transTiles) : m.loadDomain.Covers t.domain := by
  obtain ⟨s, -, h, hdom, -⟩ := m.mem_transTiles ht
  rw [hdom]
  exact Box.covers_iff.mpr fun p hp => (Box.mem_inter.mp hp).1

theorem size_transTile_lt (ht : t ∈ m.transTiles) : t.contents.length < 2 ^ 32 := by
  obtain ⟨s, hs, h, hdom, -⟩ := m.mem_transTiles ht
  have hle : t.domain.cells.card ≤ s.domain.cells.card := by
    rw [hdom]
    exact Box.card_cells_le_of_covers (Box.covers_iff.mpr fun p hp => (Box.mem_inter.mp hp).2)
  calc t.contents.length = t.domain.cells.card * m.tsize := t.length_contents
    _ ≤ s.domain.cells.card * m.tsize := Nat.mul_le_mul_right _ hle
    _ = s.contents.length := s.length_contents.symm
    _ < 2 ^ 32 := m.size_lt s hs

theorem transTiles_disjoint : m.transTiles.Pairwise fun s t => ¬s.domain.Intersects t.domain := by
  rw [transTiles]
  split
  · exact m.disjoint
  · refine List.pairwise_filterMap.mpr (m.disjoint.imp fun {s t} hst a ha b hb hab => ?_)
    split at ha
    · next h =>
      split at hb
      · next h' =>
        obtain rfl := Option.some.inj ha
        obtain rfl := Option.some.inj hb
        rw [cut_domain, cut_domain] at hab
        obtain ⟨p, hp, hp'⟩ := Box.intersects_iff.mp hab
        exact hst (.of_mem (Box.mem_inter.mp hp).2 (Box.mem_inter.mp hp').2)
      · exact absurd hb (by simp)
    · exact absurd ha (by simp)

theorem transTiles_ne_nil : m.transTiles ≠ [] := by
  obtain ⟨s, hs, h⟩ := m.exists_tile
  obtain ⟨p, hl, hp⟩ := Box.intersects_iff.mp h
  obtain ⟨t, ht, -⟩ := m.exists_transTile hs hl hp
  exact List.ne_nil_of_mem ht

end QtMDD

/-! ## The client context -/

/-- `ClientTblElt`, its transfer structures: the MDDs from `transferDataIter` on and the tiles from
`tileIter` on. -/
structure Context where
  transferData : Option (List QtMDD) := none
  transTiles : Option (List AnyTile) := none
  bytesToTransfer : ℕ := 0

/-- What ends a transfer early: memory that is not there, `r_Error_TransferFailed`, a dimension
mismatch, or calls beyond those allowed for. -/
inductive Fault
  | outOfBounds
  | badAlloc
  | freedMemory
  | transferFailed
  | dimMismatch
  | fuel
  deriving DecidableEq

/-- `RPCMarray`. -/
structure RPCMarray where
  domain : AnyBox
  cellTypeLength : ℕ
  data : List UInt8

namespace Context

/-- `releaseTransferStructures`. -/
def releaseTransferStructures (c : Context) : Context :=
  { c with transferData := none, transTiles := none }

/-- `executeQuery` with a result of MDDs; an empty result leaves nothing to transfer. -/
def executeQuery (c : Context) (result : List QtMDD) : Context :=
  if result = [] then c.releaseTransferStructures
  else { c.releaseTransferStructures with transferData := some result }

/-- `endTransfer`. -/
def endTransfer (c : Context) : Context := c.releaseTransferStructures

/-- `getNextMDD`: the status, and the domain of the MDD. -/
def getNextMDD (c : Context) : Context × ℕ × Option AnyBox :=
  match c.transferData with
  | none => (c, 2, none)
  | some [] => (c.releaseTransferStructures, 1, none)
  | some (m :: _) =>
    ({ c with transTiles := some m.queue }, if m.queue.length > 0 then 0 else 2,
      some ⟨m.dim, m.loadDomain⟩)

end Context

/-- A block of a tile: where it starts, how long it is, what is left afterwards, and `statusValue`. -/
structure Block where
  transOffset : ℤ
  transSize : ℕ
  bytesToTransfer : ℕ
  statusValue : ℕ

/-- The next block of a tile of `totalSize` bytes. -/
def nextBlock (maxTransferBufferSize totalSize bytesToTransfer : ℕ) : Block :=
  if totalSize > maxTransferBufferSize then
    -- the rest of a tile, as far as the counter knows
    if bytesToTransfer ≠ 0 then
      if bytesToTransfer > maxTransferBufferSize then
        ⟨totalSize - bytesToTransfer, maxTransferBufferSize,
          bytesToTransfer - maxTransferBufferSize, 1⟩
      else ⟨totalSize - bytesToTransfer, bytesToTransfer, 0, 2⟩
    else ⟨0, maxTransferBufferSize, totalSize - maxTransferBufferSize, 1⟩
  else ⟨0, totalSize, bytesToTransfer, 3⟩

namespace Context

/-- The end of `getNextTile`: the iterator stands at `rest`. -/
def moveOn (c : Context) (rest : List AnyTile) (statusValue : ℕ) : Context × ℕ :=
  match rest with
  | [] =>
    match c.transferData with
    | none => ({ c with transTiles := none }, 0)
    | some mdds =>
      ({ c with transTiles := none, transferData := some mdds.tail },
        if mdds.tail = [] then 0 else 1)
  | _ :: _ => ({ c with transTiles := some rest }, if statusValue = 1 then 3 else 2)

/-- `getNextTile`: the status, and the block.  The length of the block is an `unsigned int`. -/
def getNextTile (maxTransferBufferSize : ℕ) (c : Context) :
    Except Fault (Context × ℕ × Option RPCMarray) :=
  match c.transTiles with
  | none => .ok (c, 4, none)
  | some [] => .error .outOfBounds
  | some (t :: ts) =>
    let b := nextBlock maxTransferBufferSize t.size c.bytesToTransfer
    let len : ℕ := b.transSize % 2 ^ 32
    if b.transOffset < 0 ∨ t.size < b.transOffset + len then .error .outOfBounds
    else
      let r := moveOn { c with bytesToTransfer := b.bytesToTransfer }
        (if b.statusValue > 1 then ts else t :: ts) b.statusValue
      .ok (r.1, r.2, some
        { domain := ⟨t.dim, t.tile.domain⟩
          cellTypeLength := t.tsize
          data := (t.tile.contents.drop b.transOffset.toNat).take len })

end Context

end Transfer

end Rasdaman
