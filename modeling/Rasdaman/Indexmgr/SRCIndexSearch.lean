import Rasdaman.Indexmgr.SRCIndexLogic

/-!
# Indexmgr/SRCIndexSearch — the tiles of the regular computed index

Where the extents of the domain are multiples of those of the tiles, its tiles are the cells
`tile D T k` of a grid, `k` in `tileNumbers`.  `intersect_eq` says what a region search answers with,
`containPointQuery_eq` what a point query does.
-/

namespace Rasdaman

namespace SRCIndexLogic

variable {d : ℕ} {D T q : Box d} {p k : Point d}

/-- The extents of the domain are multiples of those of the tiles. -/
def Fits (D T : Box d) : Prop := ∀ i, T.extent i ∣ D.extent i

instance (D T : Box d) : Decidable (Fits D T) :=
  inferInstanceAs (Decidable (∀ i, T.extent i ∣ D.extent i))

/-- The tile at the origin of the domain. -/
def firstTile (D T : Box d) : Box d where
  low := D.low
  high := fun i => D.low i + T.extent i - 1
  low_le_high := fun i => by
    have := T.extent_cast_pos i
    omega

/-- The tile with given numbers. -/
def tile (D T : Box d) (k : Point d) : Box d := (firstTile D T).gridCell k

/-- A grid tile of the domain. -/
def IsTile (D T b : Box d) : Prop := (∃ k, b = tile D T k) ∧ D.Covers b

/-- The number of tiles along a dimension. -/
def tileCount (D T : Box d) (i : Fin d) : ℕ := D.extent i / T.extent i

theorem extent_firstTile (D T : Box d) (i : Fin d) : (firstTile D T).extent i = T.extent i := by
  simp only [Box.extent, firstTile]
  have := T.low_le_high i
  omega

theorem tile_low (k : Point d) (i : Fin d) : (tile D T k).low i = D.low i + T.extent i * k i := by
  simp only [tile, Box.gridCell, Box.createTranslation, extent_firstTile]
  rfl

theorem tile_high (k : Point d) (i : Fin d) :
    (tile D T k).high i = D.low i + T.extent i * k i + T.extent i - 1 := by
  simp only [tile, Box.gridCell, Box.createTranslation, extent_firstTile]
  change D.low i + T.extent i - 1 + _ = _
  omega

theorem tile_injective (D T : Box d) : Function.Injective (tile D T) := by
  intro k k' h
  have hcell : (firstTile D T).gridCell k = (firstTile D T).gridCell k' := h
  have hmeet : ((firstTile D T).gridCell k).Intersects ((firstTile D T).gridCell k') := by
    rw [hcell]
    exact Box.Intersects.of_mem (Box.low_mem _) (Box.low_mem _)
  exact Box.eq_of_gridCell_intersects hmeet

/-- The number of the tile that a point of the domain lies in. -/
theorem gridIndex_firstTile (D T : Box d) (p : Point d) :
    (firstTile D T).gridIndex p = fun i => (p i - D.low i) / T.extent i := by
  funext i
  rw [Box.gridIndex, extent_firstTile]
  rfl

theorem Fits.extent_eq (h : Fits D T) (i : Fin d) : D.extent i = T.extent i * tileCount D T i :=
  (Nat.mul_div_cancel' (h i)).symm

theorem Fits.tileCount_pos (h : Fits D T) (i : Fin d) : 0 < tileCount D T i := by
  refine Nat.pos_of_ne_zero fun hzero => ?_
  have hext := h.extent_eq i
  rw [hzero, Nat.mul_zero] at hext
  exact (D.extent_pos i).ne' hext

/-- The numbers of the tiles: the domain in units of tiles. -/
def tileNumbers (h : Fits D T) : Box d where
  low := fun _ => 0
  high := fun i => tileCount D T i - 1
  low_le_high := fun i => by
    have := h.tileCount_pos i
    omega

theorem card_tileNumbers (h : Fits D T) : (tileNumbers h).cells.card = ∏ i, tileCount D T i := by
  rw [Box.card_cells]
  refine Finset.prod_congr rfl fun i _ => ?_
  simp only [tileNumbers]
  omega

/-- The domain ends where its last tile does. -/
theorem Fits.high_eq (h : Fits D T) (i : Fin d) :
    D.high i = D.low i + T.extent i * tileCount D T i - 1 := by
  have hext := D.extent_cast i
  have hmul : (D.extent i : ℤ) = T.extent i * tileCount D T i := by exact_mod_cast h.extent_eq i
  omega

/-- A tile lies in the domain exactly when its numbers are tile numbers. -/
theorem covers_tile_iff (h : Fits D T) : D.Covers (tile D T k) ↔ k ∈ tileNumbers h := by
  refine forall_congr' fun i => ?_
  have hpos := T.extent_cast_pos i
  rw [tile_low, tile_high, h.high_eq i]
  simp only [tileNumbers]
  have hlow : D.low i ≤ D.low i + T.extent i * k i ↔ 0 ≤ k i := by
    rw [le_add_iff_nonneg_right, mul_nonneg_iff_of_pos_left hpos]
  have hhigh : D.low i + T.extent i * k i + T.extent i - 1 ≤
      D.low i + T.extent i * tileCount D T i - 1 ↔ k i ≤ tileCount D T i - 1 := by
    rw [sub_le_sub_iff_right, add_assoc, add_le_add_iff_left, ← mul_add_one,
      mul_le_mul_iff_of_pos_left hpos, Int.le_sub_one_iff, Int.add_one_le_iff]
  rw [hlow, hhigh]

theorem isTile_iff (h : Fits D T) {b : Box d} :
    IsTile D T b ↔ ∃ k ∈ tileNumbers h, b = tile D T k := by
  constructor
  · rintro ⟨⟨k, rfl⟩, hcov⟩
    exact ⟨k, (covers_tile_iff h).mp hcov, rfl⟩
  · rintro ⟨k, hk, rfl⟩
    exact ⟨⟨k, rfl⟩, (covers_tile_iff h).mpr hk⟩

theorem gridIndex_mem (h : Fits D T) (hp : p ∈ D) : (firstTile D T).gridIndex p ∈ tileNumbers h := by
  intro i
  have hpos := T.extent_cast_pos i
  have hin := hp i
  rw [h.high_eq i] at hin
  rw [gridIndex_firstTile]
  refine ⟨Int.ediv_nonneg (by omega) hpos.le, Int.le_sub_one_of_lt ?_⟩
  exact Int.ediv_lt_of_lt_mul hpos (by rw [Int.mul_comm]; omega)

theorem gridIndex_tile_low (k : Point d) : (firstTile D T).gridIndex (tile D T k).low = k :=
  Box.mem_gridCell.mp (Box.low_mem _)

theorem tile_low_mem (h : Fits D T) (hk : k ∈ tileNumbers h) : (tile D T k).low ∈ D :=
  Box.covers_iff.mp ((covers_tile_iff h).mpr hk) _ (Box.low_mem _)

/-! ## The numbers of the tiles -/

theorem computeNormalizedDomain_eq (h : Fits D T) :
    computeNormalizedDomain D.getExtent T.getExtent = .ok (tileNumbers h) := by
  have hdiv : ∀ i, (D.getExtent i).tdiv (T.getExtent i) - 1 = (tileCount D T i : ℤ) - 1 := fun i => by
    rw [Box.getExtent, Box.getExtent, Int.tdiv_eq_ediv_of_nonneg (Int.natCast_nonneg _), tileCount,
      Int.natCast_ediv]
  have hfits : ∀ i, ((D.getExtent i).tdiv (T.getExtent i) - 1 + 1) * T.getExtent i = D.getExtent i := by
    intro i
    rw [hdiv, sub_add_cancel, Box.getExtent, Box.getExtent, h.extent_eq i, Int.mul_comm, Nat.cast_mul]
  rw [computeNormalizedDomain, if_pos hfits]
  simp only [hdiv]
  exact Box.ofBounds_eq (tileNumbers h)

theorem computeNormalizedPoint_eq (hp : ∀ i, D.low i ≤ p i) :
    computeNormalizedPoint p T.getExtent D.low = (firstTile D T).gridIndex p := by
  rw [gridIndex_firstTile]
  funext i
  have := hp i
  exact Int.tdiv_eq_ediv_of_nonneg (by omega)

/-- The counter of a tile from the base counter on. -/
def tileOffset (h : Fits D T) (k : Point d) : ℤ := ((tileNumbers h).cellOffset k : ℤ).bmod (2 ^ 64)

/-- **`computeOId` numbers the tile that a point lies in.** -/
theorem computeOId_eq (h : Fits D T) (hp : p ∈ D) (base : ℤ) (type : OIdType) :
    computeOId D T.getExtent base type p =
      .ok ⟨tileOffset h ((firstTile D T).gridIndex p) + base, type⟩ := by
  have hoffset : cellOffset (tileNumbers h) ((firstTile D T).gridIndex p) =
      .ok ((tileNumbers h).cellOffset ((firstTile D T).gridIndex p)) := if_pos (gridIndex_mem h hp)
  rw [computeOId, computeNormalizedDomain_eq h, computeNormalizedPoint_eq fun i => (hp i).1]
  simp only [bind, Except.bind, hoffset]
  rfl

theorem computeOId_tile (h : Fits D T) (hk : k ∈ tileNumbers h) (base : ℤ) (type : OIdType) :
    computeOId D T.getExtent base type (tile D T k).low = .ok ⟨tileOffset h k + base, type⟩ := by
  rw [computeOId_eq h (tile_low_mem h hk), gridIndex_tile_low]

theorem computeNumberOfTiles_eq (h : Fits D T) :
    computeNumberOfTiles T D = .ok ((∏ i, tileCount D T i) % 2 ^ 32) := by
  rw [computeNumberOfTiles, computeNormalizedDomain_eq h]
  simp only [bind, Except.bind, pure, Except.pure]
  rw [Box.cellCount_eq, card_tileNumbers, Nat.mod_mod_of_dvd _ (by decide)]

/-! ## The region search -/

section Search

variable (hq : q.Intersects D)

/-- The numbers of the first tile that a search box meets. -/
def firstFound (T : Box d) : Point d := (firstTile D T).gridIndex (D.inter q hq.symm).low

/-- The numbers of the last one. -/
def lastFound (T : Box d) : Point d := (firstTile D T).gridIndex (D.inter q hq.symm).high

theorem firstFound_le_lastFound (i : Fin d) : firstFound hq T i ≤ lastFound hq T i := by
  simp only [firstFound, lastFound, gridIndex_firstTile]
  exact Int.ediv_le_ediv (T.extent_cast_pos i)
    (sub_le_sub_right ((D.inter q hq.symm).low_le_high i) _)

/-- The tiles that a search box meets, as one box. -/
def tiledDomain (T : Box d) : Box d where
  low := (tile D T (firstFound hq T)).low
  high := (tile D T (lastFound hq T)).high
  low_le_high := fun i => by
    have hle := mul_le_mul_of_nonneg_left (firstFound_le_lastFound hq (T := T) i)
      (T.extent_cast_pos i).le
    have := T.extent_cast_pos i
    rw [tile_low, tile_high]
    omega

/-- A coordinate in the domain less its remainder is where its tile starts. -/
theorem sub_tmod_eq {i : Fin d} {x : ℤ} (hx : D.low i ≤ x) :
    x - (x - D.low i).tmod (T.getExtent i) = D.low i + T.extent i * ((x - D.low i) / T.extent i) := by
  have hdiv := Int.emod_add_mul_ediv (x - D.low i) (T.extent i)
  rw [Box.getExtent, Int.tmod_eq_emod_of_nonneg (by omega)]
  omega

theorem computeTiledDomain_eq : computeTiledDomain D T.getExtent q = .ok (tiledDomain hq T) := by
  have hmem := (Box.mem_inter.mp (Box.low_mem (D.inter q hq.symm))).1
  have hmem' := (Box.mem_inter.mp (Box.high_mem (D.inter q hq.symm))).1
  rw [computeTiledDomain, Box.createIntersection, dif_pos hq.symm]
  simp only [bind, Except.bind]
  rw [← Box.ofBounds_eq (tiledDomain hq T)]
  congr 1
  · funext i
    rw [sub_tmod_eq (hmem i).1]
    simp only [tiledDomain, tile_low, firstFound, gridIndex_firstTile]
  · funext i
    rw [sub_tmod_eq (hmem' i).1]
    simp only [tiledDomain, tile_high, lastFound, gridIndex_firstTile]
    rfl

/-- The iterator of a search. -/
def areaIter (T : Box d) : MiterArea d := ⟨T, tiledDomain hq T, id⟩

/-- **How often the iterator moves on**: the tiles from the first to the last, counted in an `int`. -/
theorem repetitions_areaIter (i : Fin d) :
    (areaIter hq T).repetitions i = toInt (lastFound hq T i - firstFound hq T i + 1) := by
  have hpos := T.extent_cast_pos i
  have hext : (tiledDomain hq T).getExtent i
      = T.extent i * (lastFound hq T i - firstFound hq T i + 1) := by
    rw [Box.getExtent, Box.extent_cast]
    simp only [tiledDomain, tile_low, tile_high]
    rw [Int.mul_add, Int.mul_sub, Int.mul_one]
    omega
  have hne : (T.extent i : ℤ) ≠ 0 := hpos.ne'
  have hdiv : ((areaIter hq T).r ((areaIter hq T).imgDom.getExtent i)).tdiv
      ((areaIter hq T).r ((areaIter hq T).iterDom.getExtent i))
      = lastFound hq T i - firstFound hq T i + 1 :=
    (congrArg (Int.tdiv · _) hext).trans (Int.mul_tdiv_cancel_left _ hne)
  have hmod : ((areaIter hq T).r ((areaIter hq T).imgDom.getExtent i)).tmod
      ((areaIter hq T).r ((areaIter hq T).iterDom.getExtent i)) = 0 :=
    (congrArg (Int.tmod · _) hext).trans (Int.mul_tmod_right _ _)
  rw [MiterArea.repetitions, hdiv, if_neg (not_not.mpr hmod), add_zero]

/-- A count of tiles does not grow when it is put into an `int`. -/
theorem toInt_le {x : ℤ} (hx : 0 ≤ x) : toInt x ≤ x := by
  rw [toInt, Int.bmod_def]
  omega

theorem le_of_mem_counts (hk : k ∈ (areaIter hq T).counts) (i : Fin d) :
    0 ≤ k i ∧ firstFound hq T i + k i ≤ lastFound hq T i := by
  obtain ⟨hnonneg, hle⟩ := (MiterArea.mem_counts _).mp hk i
  have hfl := firstFound_le_lastFound hq (T := T) i
  have hint := toInt_le (show 0 ≤ lastFound hq T i - firstFound hq T i + 1 by omega)
  rw [repetitions_areaIter] at hle
  omega

/-- **The areas of the iterator are tiles.** -/
theorem retVal_areaIter (hk : k ∈ (areaIter hq T).counts) :
    (areaIter hq T).retVal k = .ok (tile D T (firstFound hq T + k)) := by
  have hcov : (tiledDomain hq T).Covers (tile D T (firstFound hq T + k)) := by
    intro i
    obtain ⟨hnonneg, hle⟩ := le_of_mem_counts hq hk i
    have hpos := (T.extent_cast_pos i).le
    have hlow := mul_nonneg hpos hnonneg
    have hhigh := mul_le_mul_of_nonneg_left hle hpos
    simp only [tiledDomain, tile_low, tile_high, Pi.add_apply]
    rw [Int.mul_add] at hhigh ⊢
    omega
  have hbounds : Box.ofBounds
      (fun i => (tiledDomain hq T).low i + k i * T.getExtent i)
      (fun i => (tiledDomain hq T).low i + (k i + 1) * T.getExtent i - 1)
      = .ok (tile D T (firstFound hq T + k)) := by
    rw [← Box.ofBounds_eq (tile D T (firstFound hq T + k))]
    congr 1 <;> funext i <;>
      simp only [tiledDomain, tile_low, tile_high, Pi.add_apply, Box.getExtent] <;> ring
  rw [MiterArea.retVal]
  simp only [areaIter, id_eq, hbounds, bind, Except.bind]
  exact Box.createIntersection_of_covers hcov

/-- The last count of a dimension. -/
theorem add_mem_tileNumbers (h : Fits D T) (hk : k ∈ (areaIter hq T).counts) :
    firstFound hq T + k ∈ tileNumbers h := by
  have hfirst := gridIndex_mem h (Box.mem_inter.mp (Box.low_mem (D.inter q hq.symm))).1
  have hlast := gridIndex_mem h (Box.mem_inter.mp (Box.high_mem (D.inter q hq.symm))).1
  intro i
  obtain ⟨hnonneg, hle⟩ := le_of_mem_counts hq hk i
  exact ⟨add_nonneg (hfirst i).1 hnonneg, hle.trans (hlast i).2⟩

end Search

/-- The entry of a tile. -/
def entry (ixDS : DBRCIndexDS d) (h : Fits ixDS.myDomain T) (k : Point d) : KeyObject d CountedOId :=
  ⟨⟨tileOffset h k + ixDS.myBaseCounter, ixDS.myBaseOIdType⟩, tile ixDS.myDomain T k⟩

variable {ixDS : DBRCIndexDS d}

/-- **What a region search answers with**: the entries of the tiles that the iterator counts. -/
theorem intersect_eq (h : Fits ixDS.myDomain T) (hq : q.Intersects ixDS.myDomain) :
    intersect ixDS T q =
      .ok ((areaIter hq T).counts.map fun k => entry ixDS h (firstFound hq T + k)) := by
  rw [intersect, if_pos hq, computeTiledDomain_eq hq]
  simp only [Except.mapError, bind, Except.bind]
  refine (areaIter hq T).forAreas_eq (fun k hk => retVal_areaIter hq hk) fun k hk => ?_
  rw [computeOId_tile h (add_mem_tileNumbers hq h hk)]
  rfl

/-- The tiles counted are tiles that the box meets. -/
theorem tile_intersects_iff (hq : q.Intersects D) (h : Fits D T) (hk : k ∈ tileNumbers h) :
    (tile D T k).Intersects q ↔ ∀ i, firstFound hq T i ≤ k i ∧ k i ≤ lastFound hq T i := by
  have hcov := (covers_tile_iff h).mpr hk
  have hinter : (tile D T k).Intersects q ↔ (tile D T k).Intersects (D.inter q hq.symm) := by
    rw [Box.intersects_iff, Box.intersects_iff]
    refine exists_congr fun p => and_congr_right fun hp => ?_
    rw [Box.mem_inter]
    exact ⟨fun hpq => ⟨Box.covers_iff.mp hcov p hp, hpq⟩, And.right⟩
  rw [hinter]
  exact Box.gridCell_intersects_iff

/-! ## The point query -/

/-- **What a point query answers with**: the id of the tile of the point, and a domain that goes one cell
further than the tile in every dimension. -/
theorem containPointQuery_eq (h : Fits ixDS.myDomain T) (hp : p ∈ ixDS.myDomain) :
    ∃ e, containPointQuery ixDS T p = .ok (some e) ∧
      e.object = (entry ixDS h ((firstTile ixDS.myDomain T).gridIndex p)).object ∧
      e.domain.low = (tile ixDS.myDomain T ((firstTile ixDS.myDomain T).gridIndex p)).low ∧
      ∀ i, e.domain.high i =
        (tile ixDS.myDomain T ((firstTile ixDS.myDomain T).gridIndex p)).high i + 1 := by
  have hoff : ∀ i, p i - (p i - ixDS.myDomain.low i).tmod (T.getExtent i)
      = (tile ixDS.myDomain T ((firstTile ixDS.myDomain T).gridIndex p)).low i := fun i => by
    rw [sub_tmod_eq (hp i).1, tile_low, gridIndex_firstTile]
  have hle : ∀ i, (tile ixDS.myDomain T ((firstTile ixDS.myDomain T).gridIndex p)).low i ≤
      (tile ixDS.myDomain T ((firstTile ixDS.myDomain T).gridIndex p)).low i + T.getExtent i :=
    fun i => le_add_of_nonneg_right (T.extent_cast_pos i).le
  have hdomain : computeDomain p T.getExtent ixDS.myDomain.low = .ok ⟨_, _, hle⟩ := by
    rw [computeDomain]
    simp only [hoff]
    exact dif_pos hle
  refine ⟨⟨_, ⟨_, _, hle⟩⟩, ?_, rfl, rfl, fun i => ?_⟩
  · rw [containPointQuery, if_pos hp, computeOId_eq h hp]
    simp only [bind, Except.bind, hdomain]
    rfl
  · simp only [Box.getExtent, tile_low, tile_high]
    omega

end SRCIndexLogic

end Rasdaman
