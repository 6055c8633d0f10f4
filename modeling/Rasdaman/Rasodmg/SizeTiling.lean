import Mathlib
import Rasdaman.Rasodmg.AlignedTiling

/-!
# Rasodmg/SizeTiling — `r_Size_Tiling::compute_tiles`

A domain is cut along a grid of cubes.  The length of their edges is computed with a floating point
root, which is the parameter `root`; it is at least one cell.

`AlignedTiling.regularTilings_partition_iff` — like aligned tiling, size tiling partitions an object
exactly if the tile domain can be moved past its end.
-/

namespace Rasdaman

namespace SizeTiling

open TileGrid

variable {d : ℕ}

/-- The edge length of a tile. -/
def edgeLength (root : (numCells dim : ℕ) → ℕ) (tileSize cellTypeSize dim : ℕ) : ℕ :=
  max (root (tileSize / cellTypeSize) dim) 1

theorem edgeLength_pos (root : ℕ → ℕ → ℕ) (tileSize cellTypeSize dim : ℕ) :
    0 < edgeLength root tileSize cellTypeSize dim :=
  Nat.lt_of_lt_of_le Nat.one_pos (Nat.le_max_right _ _)

/-- `TILESIZETOOSMALL`. -/
def tileSizeTooSmall : RError := .errorNo 219

/-- `compute_tiles`. -/
def computeTiles (root : (numCells dim : ℕ) → ℕ) (tileSize : ℕ) (objDomain : Box d)
    (cellTypeSize : ℕ) : Except Halt (List (Box d)) :=
  if cellTypeSize > tileSize then .error (.throws tileSizeTooSmall)
  else
    gridTiles toRange objDomain (fun _ => edgeLength root tileSize cellTypeSize d) fun smallTile =>
      .ok smallTile

/-- **`compute_tiles` partitions the object exactly if its cubes fit.**  The root is an `r_Range`. -/
theorem computeTiles_iff {root : ℕ → ℕ → ℕ} (hroot : ∀ n dim, root n dim < 2 ^ 63)
    {tileSize cellTypeSize : ℕ} (hcell : cellTypeSize ≤ tileSize) {objDomain : Box d}
    (hb : objDomain.InRange) :
    (∃ bs, computeTiles root tileSize objDomain cellTypeSize = .ok bs ∧ Tiles objDomain.region bs) ↔
      GridFits objDomain fun _ => edgeLength root tileSize cellTypeSize d := by
  have hle : edgeLength root tileSize cellTypeSize d ≤ 2 ^ 64 := by
    have := hroot (tileSize / cellTypeSize) d
    rw [edgeLength]
    omega
  have hbody : ∀ c, objDomain.Covers c → ∃ s, (.ok c : Except Halt (Box d)) = .ok s ∧ id s = c :=
    fun c _ => ⟨c, rfl, rfl⟩
  rw [computeTiles, if_neg (not_lt.mpr hcell)]
  simpa only [List.map_id] using
    gridTiles_iff hb (fun _ => edgeLength_pos root tileSize cellTypeSize d) (fun _ => hle) hbody

end SizeTiling

namespace AlignedTiling

open TileGrid

theorem sideWidth_pos {s : Sinterval} (h : s.lowerBound ≤ s.upperBound) : 0 < sideWidth s := by
  rw [sideWidth]
  omega

/-- **The regular tilings partition an object exactly if their tile domains fit**, whatever the floating
point functions return.  The tile size is divided by the size of a cell, so that this must not be
zero. -/
theorem regularTilings_partition_iff {d : ℕ} (objDomain : RangeBox (d + 1)) (tileSize cellSize : ℕ)
    (_hpos : 0 < cellSize) (hcell : cellSize ≤ tileSize) (_htile : tileSize < 2 ^ 32) :
    (∀ root, (∀ n dim, root n dim < 2 ^ 63) →
      ((∃ bs, SizeTiling.computeTiles root tileSize objDomain.toBox cellSize = .ok bs ∧
        Tiles objDomain.region bs) ↔
          GridFits objDomain.toBox fun _ => SizeTiling.edgeLength root tileSize cellSize (d + 1))) ∧
    ∀ (scaledWidth : ℕ → ℕ → ℕ → ℕ → ℕ → ℕ) (config : Fin (d + 1) → Sinterval), IsConfig config →
      ((∃ bs, computeTiles ⟨tileSize, cellSize, scaledWidth, toRange⟩ config objDomain.toBox = .ok bs ∧
        Tiles objDomain.region bs) ↔
          TileFits ⟨tileSize, cellSize, scaledWidth, toRange⟩ config objDomain.toBox) :=
  ⟨fun _ hroot => SizeTiling.computeTiles_iff hroot hcell objDomain.inRange,
    fun _ _ hconfig => computeTiles_iff rfl objDomain.inRange hconfig⟩

theorem zero_le_nine : (0 : ℤ) ≤ 9 := by decide

/-- An object of ten cells. -/
def tenCells : Box 1 := ⟨fun _ => 0, fun _ => 9, fun _ => zero_le_nine⟩

theorem tenCells_inRange : tenCells.InRange := by decide

/-- A root that is the number itself, in one dimension. -/
def plainRoot (n _dim : ℕ) : ℕ := min n (2 ^ 32)

theorem plainRoot_lt (n dim : ℕ) : plainRoot n dim < 2 ^ 63 := by
  rw [plainRoot]
  omega

/-- Tiles of at most four of the ten cells. -/
theorem regularTilings_partition_iff_tenCells :
    (∃ bs, SizeTiling.computeTiles plainRoot 4 tenCells 1 = .ok bs ∧ Tiles tenCells.region bs) ∧
      ∃ bs, computeTiles ⟨4, 1, fun _ _ _ _ w => w, toRange⟩ (fun _ => Sinterval.opened) tenCells =
        .ok bs ∧ Tiles tenCells.region bs :=
  have h := regularTilings_partition_iff ⟨tenCells, tenCells_inRange⟩ 4 1 (by decide) (by decide)
    (by decide)
  ⟨(h.1 plainRoot plainRoot_lt).mpr (by decide),
    (h.2 _ _ fun _ hi => absurd hi (by decide)).mpr ⟨_, rfl, by decide⟩⟩

theorem lastCells_le : (2 ^ 63 - 8 : ℤ) ≤ 2 ^ 63 - 1 := by decide

/-- The last eight numbers of 64 bits. -/
def lastCells : Box 1 := ⟨fun _ => 2 ^ 63 - 8, fun _ => 2 ^ 63 - 1, fun _ => lastCells_le⟩

theorem lastCells_inRange : lastCells.InRange := by decide

/-- A cube of a hundred cells cannot be put at the origin of the last eight cells. -/
theorem lastCells_not_tiled :
    ¬∃ bs, SizeTiling.computeTiles plainRoot 100 lastCells 1 = .ok bs ∧ Tiles lastCells.region bs :=
  fun h => absurd ((SizeTiling.computeTiles_iff plainRoot_lt (by decide) lastCells_inRange).mp h)
    (by decide)

end AlignedTiling

end Rasdaman
