import Mathlib.Tactic.FinCases
import Rasdaman.Mddmgr.MDDObj

/-!
# Mddmgr/InsertTileRun — runs of `insertTile`

An object that starts empty and takes disjoint tiles holds the cells of all of them, as long as the
layout admits each tile.  With regular tiling it does where the last dimension of the tile lies at or
after the tile configuration: `calcRegLayout` counts that dimension with an unsigned number, and a tile
that starts before is dropped without an error.
-/

namespace Rasdaman

open StorageLayout

variable {d tsize : ℕ}

namespace StorageLayout

/-- The layout stores the tile: the grid of regular tiling can be counted over it, a tile of the grid has
a size, and so has a cell in a tile of aligned tiling. -/
def Admits (sl : StorageLayout d) (t : Tile d tsize) : Prop :=
  t.contents.length < 2 ^ 32 ∧ sl.CellFits ∧
    ∀ base, sl.grid = some base → RegFits base t.domain ∧ base.cells.card * tsize < 2 ^ 32

/-- The translates of a box have as many cells. -/
theorem card_cells_gridCell (base : Box d) (k : Point d) :
    (base.gridCell k).cells.card = base.cells.card := by
  rw [Box.card_cells, Box.card_cells]
  refine Finset.prod_congr rfl fun i _ => ?_
  simp only [Box.gridCell, Box.createTranslation]
  congr 1
  omega

/-- The layout of an admitted tile, its domains on the grid if there is one and inside of the tile if
there is none. -/
theorem Admits.layout {sl : StorageLayout d} {t : Tile d tsize} (h : sl.Admits t)
    (hsl : sl.IsRegularOrAligned) :
    ∃ doms, sl.getLayout t.domain = .ok doms ∧ IsLayout t.domain doms ∧
      (∀ b ∈ doms, b.cells.card * tsize < 2 ^ 32) ∧
      (∀ base, sl.grid = some base → ∀ b ∈ doms, ∃ k, b = base.gridCell k) ∧
      (sl.grid = none → ∀ b ∈ doms, t.domain.Covers b) := by
  obtain ⟨hlen, hcell, hgrid⟩ := h
  rcases hbase : sl.grid with _ | base
  · obtain ⟨doms, hdoms, htiles⟩ := getLayout_of_no_grid hsl hbase hcell t.domain
    refine ⟨doms, hdoms, isLayout_of_tiles htiles, fun b hb => ?_, by simp, fun _ b => htiles.covers⟩
    rw [t.length_contents] at hlen
    exact (Nat.mul_le_mul_right _ (Box.card_cells_le_of_covers (htiles.covers hb))).trans_lt hlen
  · obtain ⟨hfits, hsize⟩ := hgrid base hbase
    have hlay := (getLayout_of_grid hbase t.domain).trans (calcRegLayout_eq hfits)
    refine ⟨_, hlay, isLayout_gridCells base t.domain, ?_, ?_, by simp⟩
    · intro b hb
      obtain ⟨k, -, rfl⟩ := List.mem_map.mp hb
      rwa [card_cells_gridCell]
    · rintro base' hbase' b hb
      obtain rfl := Option.some.inj hbase'
      obtain ⟨k, -, rfl⟩ := List.mem_map.mp hb
      exact ⟨k, rfl⟩

end StorageLayout

namespace MDDObj

/-- What holds of an object into which the tiles `ts` were inserted. -/
structure Holds (sl : StorageLayout d) (ts : List (Tile d tsize)) (m : MDDObj d tsize) : Prop where
  wf : m.WF
  layout : m.storageLayout = sl
  stored : ∀ t ∈ ts, ∀ p ∈ t.domain, m.pointQuery p = some (t.cellAt p)
  rest : ∀ p, (∀ t ∈ ts, p ∉ t.domain) → m.pointQuery p = none ∨ m.pointQuery p = some (zeroCell tsize)
  meets : ∀ s ∈ m.tiles, ∃ t ∈ ts, s.domain.Intersects t.domain
  onGrid : ∀ base, sl.grid = some base → ∀ s ∈ m.tiles, ∃ k, s.domain = base.gridCell k
  inTile : sl.grid = none → ∀ s ∈ m.tiles, ∃ t ∈ ts, t.domain.Covers s.domain

variable {sl : StorageLayout d} {ts : List (Tile d tsize)} {m : MDDObj d tsize} {t : Tile d tsize}

theorem holds_empty (sl : StorageLayout d) :
    Holds sl [] (⟨sl, []⟩ : MDDObj d tsize) :=
  ⟨⟨.nil, by simp⟩, rfl, by simp, fun p _ => Or.inl (pointQuery_eq_none_iff.mpr (by simp)), by simp,
    by simp, by simp⟩

/-- The tiles an object holds are the domains of the layout of another tile, where they meet it. -/
theorem Holds.same (h : Holds sl ts m) (hnew : ∀ s ∈ ts, ¬ s.domain.Intersects t.domain)
    {doms : List (Box (d + 1))} (hgrid : ∀ base, sl.grid = some base → ∀ b ∈ doms, ∃ k, b = base.gridCell k)
    (hin : sl.grid = none → ∀ b ∈ doms, t.domain.Covers b) :
    ∀ s ∈ m.tiles, ∀ b ∈ doms, s.domain.Intersects b → s.domain = b := by
  intro s hs b hb hi
  rcases hbase : sl.grid with _ | base
  · -- without a grid both lie in the tiles they come from, which are disjoint
    exfalso
    obtain ⟨t', ht', hcov⟩ := h.inTile hbase s hs
    obtain ⟨p, hps, hpb⟩ := Box.intersects_iff.mp hi
    exact hnew t' ht' (.of_mem (Box.covers_iff.mp hcov p hps)
      (Box.covers_iff.mp (hin hbase b hb) p hpb))
  · obtain ⟨k, hk⟩ := h.onGrid base hbase s hs
    obtain ⟨k', rfl⟩ := hgrid base hbase b hb
    rw [hk] at hi ⊢
    rw [Box.eq_of_gridCell_intersects hi]

/-- **One more tile.** -/
theorem Holds.insertTile (h : Holds sl ts m) (hsl : sl.IsRegularOrAligned) (hadm : sl.Admits t)
    (hnew : ∀ s ∈ ts, ¬ s.domain.Intersects t.domain) :
    ∃ m', m.insertTile t = .ok m' ∧ Holds sl (ts ++ [t]) m' := by
  obtain ⟨doms, hdoms, hlay, hsize, hgrid, hin⟩ := hadm.layout hsl
  have hfree : ∀ s ∈ m.tiles, s.domain ≠ t.domain := by
    intro s hs heq
    obtain ⟨t', ht', hi⟩ := h.meets s hs
    exact hnew t' ht' (heq ▸ hi.symm)
  obtain ⟨m', hinsert, h'⟩ := insertTile_spec h.wf (by rw [h.layout]; exact hdoms) hlay
    (h.same hnew hgrid hin) hfree hsize
  refine ⟨m', hinsert, h'.wf, h'.layout.trans h.layout, ?_, ?_, ?_, ?_, ?_⟩
  · intro s hs p hp
    rcases List.mem_append.mp hs with hs | hs
    · have hpt : p ∉ t.domain := fun hpt => hnew s hs (.of_mem hp hpt)
      by_cases hdom : ∃ b ∈ doms, p ∈ b
      · rw [h'.inside p hdom, if_neg hpt, h.stored s hs p hp, Option.getD_some]
      · rw [h'.outside p fun b hb hpb => hdom ⟨b, hb, hpb⟩, h.stored s hs p hp]
    · obtain rfl := List.mem_singleton.mp hs
      rw [h'.inside p (hlay.covers p hp), if_pos hp]
  · intro p hp
    have hpt : p ∉ t.domain := hp t (by simp)
    have hbefore := h.rest p fun s hs => hp s (List.mem_append_left _ hs)
    by_cases hdom : ∃ b ∈ doms, p ∈ b
    · rw [h'.inside p hdom, if_neg hpt]
      rcases hbefore with hq | hq <;> simp [hq]
    · rwa [h'.outside p fun b hb hpb => hdom ⟨b, hb, hpb⟩]
  · intro s hs
    rcases h'.domains s hs with ⟨s', hs', heq⟩ | hmem
    · obtain ⟨t', ht', hi⟩ := h.meets s' hs'
      exact ⟨t', List.mem_append_left _ ht', heq ▸ hi⟩
    · exact ⟨t, by simp, hlay.meets _ hmem⟩
  · intro base hbase s hs
    rcases h'.domains s hs with ⟨s', hs', heq⟩ | hmem
    · exact heq ▸ h.onGrid base hbase s' hs'
    · exact hgrid base hbase _ hmem
  · intro hbase s hs
    rcases h'.domains s hs with ⟨s', hs', heq⟩ | hmem
    · obtain ⟨t', ht', hcov⟩ := h.inTile hbase s' hs'
      exact ⟨t', List.mem_append_left _ ht', heq ▸ hcov⟩
    · exact ⟨t, by simp, hin hbase _ hmem⟩

/-- A run of insertions. -/
def insertTiles (m : MDDObj d tsize) (ts : List (Tile d tsize)) : Except Halt (MDDObj d tsize) :=
  ts.foldlM MDDObj.insertTile m

theorem Holds.insertTiles {done : List (Tile d tsize)} (hsl : sl.IsRegularOrAligned)
    (h : Holds sl done m) (hadm : ∀ t ∈ ts, sl.Admits t)
    (hdisj : (done ++ ts).Pairwise fun s t => ¬ s.domain.Intersects t.domain) :
    ∃ m', m.insertTiles ts = .ok m' ∧ Holds sl (done ++ ts) m' := by
  induction ts generalizing done m with
  | nil => exact ⟨m, rfl, by rwa [List.append_nil]⟩
  | cons t ts ih =>
    obtain ⟨ht, hadm⟩ := List.forall_mem_cons.mp hadm
    have hnew : ∀ s ∈ done, ¬ s.domain.Intersects t.domain := fun s hs =>
      (List.pairwise_append.mp hdisj).2.2 s hs t List.mem_cons_self
    obtain ⟨m₁, hinsert, h₁⟩ := h.insertTile hsl ht hnew
    obtain ⟨m', hrest, h'⟩ := ih h₁ hadm (by simpa using hdisj)
    refine ⟨m', ?_, by simpa using h'⟩
    rw [MDDObj.insertTiles, List.foldlM_cons, hinsert]
    exact hrest

/-- Regular tiling with the configuration `[0:9]`. -/
def tensLayout : StorageLayout 0 where
  supportsTilingScheme := true
  tilingScheme := .regularTiling
  tileConfiguration := [.fixed 0 9]
  tileSize := 4194304
  cellSize := 1
  scaledWidth := fun _ _ _ _ width => width
  computeTiles := fun _ t => .ok [t]
  tileSize_lt := by decide
  configuration_le := by decide

/-- A row of cells of one byte from a coordinate on. -/
def byteRow (low : ℤ) (bytes : List UInt8) (h : bytes ≠ []) : Tile 0 1 where
  domain := ⟨fun _ => low, fun _ => low + bytes.length - 1, fun _ => by
    have := List.length_pos_iff.mpr h
    omega⟩
  contents := bytes
  length_contents := by
    rw [Box.card_cells, Fin.prod_univ_one, Nat.mul_one]
    dsimp only
    omega

/-- The box `[0:9]`. -/
def tens : Box 1 := ⟨fun _ => 0, fun _ => 9, fun _ => by decide⟩

theorem grid_tensLayout : tensLayout.grid = some tens := by
  have hlen : tensLayout.tileConfiguration.length = 0 + 1 := rfl
  have hreg : tensLayout.supportsTilingScheme ∧ tensLayout.tilingScheme = .regularTiling := by decide
  have hside : ∀ i, tensLayout.sides hlen i = .fixed 0 9 := fun i => by
    rw [Fin.fin_one_eq_zero i]
    rfl
  have hfixed : ∀ i, (tensLayout.sides hlen i).lowFixed ∧ (tensLayout.sides hlen i).highFixed ∧
      (tensLayout.sides hlen i).lowerBound ≤ (tensLayout.sides hlen i).upperBound := fun i => by
    rw [hside]
    decide
  rw [grid, dif_pos hlen, if_pos hreg, fixedBox, dif_pos hfixed]
  refine congrArg some (Box.ext_corners (funext fun i => ?_) (funext fun i => ?_))
  · exact congrArg Sinterval.lowerBound (hside i)
  · exact congrArg Sinterval.upperBound (hside i)

theorem isRegularOrAligned_tensLayout : tensLayout.IsRegularOrAligned := Or.inr ⟨rfl, by decide⟩

theorem bytesTo8_ne_nil : ([1, 2, 3, 4, 5, 6, 7, 8] : List UInt8) ≠ [] := by decide

/-- Two tiles that share a grid cell: `[3:4]` and `[5:12]`. -/
def sharedCell : List (Tile 0 1) :=
  [byteRow 3 [7, 8] (by decide), byteRow 5 [1, 2, 3, 4, 5, 6, 7, 8] bytesTo8_ne_nil]

theorem admits_sharedCell : ∀ t ∈ sharedCell, tensLayout.Admits t := by
  intro t ht
  refine ⟨?_, ?_, fun base hbase => ?_⟩
  · fin_cases ht <;> decide
  · intro _ hscheme
    cases hscheme
  · obtain rfl := Option.some.inj (grid_tensLayout.symm.trans hbase)
    exact ⟨by fin_cases ht <;> decide, by decide⟩

end MDDObj

end Rasdaman
