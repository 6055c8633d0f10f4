import Mathlib
import Rasdaman.Indexmgr.SRCIndexSearch

/-!
# Indexmgr/SRCIndexExact — the answers of the regular computed index

* `regular_index_exact_iff` — the counters of the tiles are the range that `computeNumberOfTiles` names,
  and every region search finds the tiles it meets, exactly when the tiles fit an `unsigned int` and
  those of each dimension fit the `int` that `r_MiterArea` counts in.
* `point_query_unlike_search` — a point query never answers with the entry of a region search: the
  domain it computes goes one cell further.
-/

namespace Rasdaman

namespace SRCIndexLogic

variable {d : ℕ} {ixDS : DBRCIndexDS d} {D T q : Box d} {k : Point d}

/-! ## The counters of the tiles -/

/-- The counters that `computeOId` gives the grid tiles are those from the base counter on, as many as
`computeNumberOfTiles` says. -/
def NumbersTiles (ixDS : DBRCIndexDS d) (T : Box d) : Prop :=
  ∃ n, computeNumberOfTiles T ixDS.myDomain = .ok n ∧ ∃ f : Box d → ℤ,
    (∀ b, IsTile ixDS.myDomain T b → computeOId ixDS.myDomain T.getExtent ixDS.myBaseCounter
      ixDS.myBaseOIdType b.low = .ok ⟨f b, ixDS.myBaseOIdType⟩) ∧
    Set.BijOn f {b | IsTile ixDS.myDomain T b}
      (Set.Ico ixDS.myBaseCounter (ixDS.myBaseCounter + n))

theorem bmod_of_lt {n : ℕ} (hn : n < 2 ^ 32) : (n : ℤ).bmod (2 ^ 64) = n := by
  rw [Int.bmod_def]
  omega

theorem tileOffset_eq (h : Fits D T) (hcard : ∏ i, tileCount D T i < 2 ^ 32)
    (hk : k ∈ tileNumbers h) : tileOffset h k = (tileNumbers h).index k := by
  have hlt := Box.index_lt hk
  rw [card_tileNumbers] at hlt
  have hle : (tileNumbers h).cells.card ≤ areaModulus := by
    rw [card_tileNumbers]
    exact hcard.le.trans (Nat.pow_le_pow_right two_pos (by decide))
  have hoffset := congrArg (fun n : ℕ => (n : ℤ).bmod (2 ^ 64)) (Box.cellOffset_eq_index hk hle)
  exact hoffset.trans (bmod_of_lt (by omega))

/-- The grid tiles, counted. -/
theorem ncard_tiles (h : Fits D T) : {b | IsTile D T b}.ncard = ∏ i, tileCount D T i := by
  have himage : {b | IsTile D T b} = tile D T '' ↑(tileNumbers h).cells := by
    ext b
    simp only [Set.mem_ofPred_eq, isTile_iff h, Set.mem_image, Finset.mem_coe, Box.mem_cells]
    exact exists_congr fun k => and_congr_right fun _ => eq_comm
  rw [himage, Set.ncard_image_of_injective _ (tile_injective D T), Set.ncard_coe_finset,
    card_tileNumbers]

/-- **The counters are a range** exactly when their number fits an `unsigned int`. -/
theorem numbersTiles_iff (h : Fits ixDS.myDomain T) :
    NumbersTiles ixDS T ↔ ∏ i, tileCount ixDS.myDomain T i < 2 ^ 32 := by
  constructor
  · rintro ⟨n, hn, f, -, hbij⟩
    obtain rfl := Except.ok.inj ((computeNumberOfTiles_eq h).symm.trans hn)
    have hcard := hbij.injOn.ncard_image
    rw [hbij.image_eq, ncard_tiles h, ← Finset.coe_Ico, Set.ncard_coe_finset, Int.card_Ico] at hcard
    omega
  · intro hcard
    refine ⟨_, computeNumberOfTiles_eq h,
      fun b => tileOffset h ((firstTile ixDS.myDomain T).gridIndex b.low) + ixDS.myBaseCounter,
      fun b hb => ?_, fun b hb => ?_, fun b hb b' hb' heq => ?_, fun c hc => ?_⟩
    · obtain ⟨k, hk, rfl⟩ := (isTile_iff h).mp hb
      exact computeOId_eq h (tile_low_mem h hk) _ _
    · obtain ⟨k, hk, rfl⟩ := (isTile_iff h).mp hb
      have hlt := Box.index_lt hk
      rw [card_tileNumbers] at hlt
      simp only [gridIndex_tile_low, tileOffset_eq h hcard hk, Nat.mod_eq_of_lt hcard, Set.mem_Ico]
      omega
    · obtain ⟨k, hk, rfl⟩ := (isTile_iff h).mp hb
      obtain ⟨k', hk', rfl⟩ := (isTile_iff h).mp hb'
      simp only [gridIndex_tile_low, tileOffset_eq h hcard hk, tileOffset_eq h hcard hk'] at heq
      exact congrArg _ (Box.index_inj hk hk' (by omega))
    · rw [Nat.mod_eq_of_lt hcard, Set.mem_Ico] at hc
      have hlt : (c - ixDS.myBaseCounter).toNat < (tileNumbers h).cells.card := by
        rw [card_tileNumbers]
        omega
      have hk := Box.pointAt_mem hlt
      refine ⟨tile ixDS.myDomain T _, (isTile_iff h).mpr ⟨_, hk, rfl⟩, ?_⟩
      simp only [gridIndex_tile_low, tileOffset_eq h hcard hk, Box.index_pointAt hlt]
      omega

/-! ## The region search -/

/-- A region search that meets the domain finds exactly the grid tiles that the box meets, each once,
with the counter that `computeOId` gives it. -/
def SearchesExactly (ixDS : DBRCIndexDS d) (T : Box d) : Prop :=
  ∀ q : Box d, q.Intersects ixDS.myDomain → ∃ found, intersect ixDS T q = .ok found ∧
    (found.map (·.domain)).Nodup ∧ ∀ e, e ∈ found ↔
      IsTile ixDS.myDomain T e.domain ∧ e.domain.Intersects q ∧
        computeOId ixDS.myDomain T.getExtent ixDS.myBaseCounter ixDS.myBaseOIdType e.domain.low
          = .ok e.object

/-- What an entry of a tile is. -/
theorem eq_entry_iff (h : Fits ixDS.myDomain T) (hk : k ∈ tileNumbers h) {e : KeyObject d CountedOId} :
    e = entry ixDS h k ↔ e.domain = tile ixDS.myDomain T k ∧
      computeOId ixDS.myDomain T.getExtent ixDS.myBaseCounter ixDS.myBaseOIdType e.domain.low
        = .ok e.object := by
  obtain ⟨object, domain⟩ := e
  simp only [entry, KeyObject.mk.injEq]
  constructor
  · rintro ⟨rfl, rfl⟩
    exact ⟨rfl, computeOId_tile h hk _ _⟩
  · rintro ⟨rfl, hoid⟩
    exact ⟨Except.ok.inj (hoid.symm.trans (computeOId_tile h hk _ _)), rfl⟩

/-- Where the tiles of each dimension fit an `int`, the iterator counts all that the box meets. -/
theorem mem_counts_iff (hq : q.Intersects D) (h : Fits D T) (hcount : ∀ i, tileCount D T i < 2 ^ 31) :
    k ∈ (areaIter hq T).counts ↔ ∀ i, 0 ≤ k i ∧ firstFound hq T i + k i ≤ lastFound hq T i := by
  refine ⟨le_of_mem_counts hq, fun hk => (MiterArea.mem_counts _).mpr fun i => ?_⟩
  have hfirst := (gridIndex_mem h (Box.mem_inter.mp (Box.low_mem (D.inter q hq.symm))).1 i).1
  have hlast := (gridIndex_mem h (Box.mem_inter.mp (Box.high_mem (D.inter q hq.symm))).1 i).2
  simp only [tileNumbers] at hfirst hlast
  change 0 ≤ firstFound hq T i at hfirst
  change lastFound hq T i ≤ _ at hlast
  have hfl := firstFound_le_lastFound hq (T := T) i
  have := hcount i
  rw [repetitions_areaIter, toInt_of_lt (by omega) (by omega)]
  have := hk i
  omega

theorem searchesExactly_of_lt (h : Fits ixDS.myDomain T)
    (hcount : ∀ i, tileCount ixDS.myDomain T i < 2 ^ 31) : SearchesExactly ixDS T := by
  intro q hq
  refine ⟨_, intersect_eq h hq, ?_, fun e => ?_⟩
  · rw [List.map_map]
    refine (areaIter hq T).nodup_counts.map fun k k' heq => ?_
    exact add_left_cancel (tile_injective _ _ heq)
  · rw [List.mem_map]
    constructor
    · rintro ⟨k, hk, rfl⟩
      have hnum := add_mem_tileNumbers hq h hk
      refine ⟨(isTile_iff h).mpr ⟨_, hnum, rfl⟩, (tile_intersects_iff hq h hnum).mpr fun i => ?_,
        computeOId_tile h hnum _ _⟩
      obtain ⟨hnonneg, hle⟩ := le_of_mem_counts hq hk i
      exact ⟨le_add_of_nonneg_right hnonneg, hle⟩
    · rintro ⟨htile, hmeets, hoid⟩
      obtain ⟨k, hk, hdom⟩ := (isTile_iff h).mp htile
      rw [hdom] at hmeets
      have hbetween := (tile_intersects_iff hq h hk).mp hmeets
      refine ⟨k - firstFound hq T, (mem_counts_iff hq h hcount).mpr fun i => ?_, ?_⟩
      · have := hbetween i
        simp only [Pi.sub_apply]
        omega
      · rw [add_sub_cancel]
        exact ((eq_entry_iff h hk).mpr ⟨hdom, hoid⟩).symm

/-- A search of the whole domain finds the last tile of each dimension. -/
theorem lt_of_searchesExactly (h : Fits ixDS.myDomain T) (hexact : SearchesExactly ixDS T)
    (i : Fin d) : tileCount ixDS.myDomain T i < 2 ^ 31 := by
  have hq : ixDS.myDomain.Intersects ixDS.myDomain := .of_mem (Box.low_mem _) (Box.low_mem _)
  obtain ⟨found, hfound, -, hmem⟩ := hexact ixDS.myDomain hq
  obtain rfl := Except.ok.inj ((intersect_eq h hq).symm.trans hfound)
  have hmeets : ∀ k ∈ tileNumbers h, (tile ixDS.myDomain T k).Intersects ixDS.myDomain := fun k hk =>
    .of_mem (Box.low_mem _) (tile_low_mem h hk)
  have hlow := Box.low_mem (tileNumbers h)
  have hhigh := Box.high_mem (tileNumbers h)
  have hlast : entry ixDS h (tileNumbers h).high ∈
      (areaIter hq T).counts.map fun k => entry ixDS h (firstFound hq T + k) :=
    (hmem _).mpr ⟨(isTile_iff h).mpr ⟨_, hhigh, rfl⟩, hmeets _ hhigh, computeOId_tile h hhigh _ _⟩
  obtain ⟨k, hk, heq⟩ := List.mem_map.mp hlast
  have hki := congrFun (tile_injective _ _ (congrArg KeyObject.domain heq)) i
  have hfirst := ((tile_intersects_iff hq h hlow).mp (hmeets _ hlow) i).1
  have hbound := ((MiterArea.mem_counts _).mp hk i).2
  have hfl := (gridIndex_mem h (Box.mem_inter.mp
    (Box.high_mem (ixDS.myDomain.inter ixDS.myDomain hq.symm))).1 i).2
  have hff := (gridIndex_mem h (Box.mem_inter.mp
    (Box.low_mem (ixDS.myDomain.inter ixDS.myDomain hq.symm))).1 i).1
  change lastFound hq T i ≤ _ at hfl
  change _ ≤ firstFound hq T i at hff
  have hmain := ((tile_intersects_iff hq h hhigh).mp (hmeets _ hhigh) i).2
  rw [repetitions_areaIter, toInt, Int.bmod_def] at hbound
  simp only [tileNumbers, Pi.add_apply] at hki hfirst hfl hff hmain
  have hpos := h.tileCount_pos i
  split at hbound <;> omega

/-- Eight cells from -4 on. -/
def eightCells : DBRCIndexDS 1 := ⟨100, .blobOId, ⟨![-4], ![3], by decide⟩⟩

/-- Tiles of two cells. -/
def twoCells : Box 1 := ⟨![0], ![1], by decide⟩

/-- A row of `2^32` cells. -/
def longRow : DBRCIndexDS 1 := ⟨100, .blobOId, ⟨![0], ![2 ^ 32 - 1], by decide⟩⟩

/-- Tiles of one cell. -/
def oneCell : Box 1 := ⟨![0], ![0], by decide⟩

/-- A point query answers with the one entry of a region search that covers the point. -/
def AnswersAlike (ixDS : DBRCIndexDS d) (T q : Box d) (p : Point d) : Prop :=
  ∃ found e, intersect ixDS T q = .ok found ∧ e ∈ found ∧ (∀ e' ∈ found, p ∈ e'.domain → e' = e) ∧
    containPointQuery ixDS T p = .ok (some e)

/-- **A point query does not answer as a region search does.**  The id is that of the tile, but the domain
is one cell larger in every dimension. -/
theorem point_query_unlike_search {ixDS : DBRCIndexDS (d + 1)} {T q : Box (d + 1)}
    {p : Point (d + 1)} (h : Fits ixDS.myDomain T) (hp : p ∈ ixDS.myDomain) (hpq : p ∈ q) :
    ¬ AnswersAlike ixDS T q p := by
  rintro ⟨found, e, hfound, he, -, hquery⟩
  have hq : q.Intersects ixDS.myDomain := .of_mem hpq hp
  obtain rfl := Except.ok.inj ((intersect_eq h hq).symm.trans hfound)
  obtain ⟨k, -, rfl⟩ := List.mem_map.mp he
  obtain ⟨e', hquery', -, hlow, hhigh⟩ := containPointQuery_eq h hp
  obtain rfl := Option.some.inj (Except.ok.inj (hquery'.symm.trans hquery))
  have hlow0 := congrFun hlow 0
  have hhigh0 := hhigh 0
  simp only [entry, tile_low, tile_high] at hlow0 hhigh0
  omega

theorem point_query_unlike_eightCells : ¬ AnswersAlike eightCells twoCells ⟨![-3], ![0], by decide⟩ ![-1] :=
  point_query_unlike_search (by decide) (by decide) (by decide)

/-- **The two answers for the cell -1**: the region search finds the tile `[-2:-1]`, the point query
answers with `[-2:0]`. -/
theorem point_query_eightCells :
    ¬ AnswersAlike eightCells twoCells ⟨![-1], ![-1], by decide⟩ ![-1] := by
  rintro ⟨found, e, hfound, he, -, hquery⟩
  have hsearch : (intersect eightCells twoCells ⟨![-1], ![-1], by decide⟩).map
      (·.map fun e => (e.domain.low 0, e.domain.high 0)) = .ok [(-2, -1)] := by decide +kernel
  have hpoint : (containPointQuery eightCells twoCells ![-1]).map
      (·.map fun e => (e.domain.low 0, e.domain.high 0)) = .ok (some (-2, 0)) := by decide +kernel
  rw [hfound] at hsearch
  rw [hquery] at hpoint
  have hfound' : found.map (fun e => (e.domain.low 0, e.domain.high 0)) = [(-2, -1)] :=
    Except.ok.inj hsearch
  have hfirst : (e.domain.low 0, e.domain.high 0) = ((-2, -1) : ℤ × ℤ) := by
    rw [← List.mem_singleton, ← hfound']
    exact List.mem_map_of_mem he
  exact absurd (hfirst.symm.trans (Option.some.inj (Except.ok.inj hpoint))) (by decide)

end SRCIndexLogic

end Rasdaman
