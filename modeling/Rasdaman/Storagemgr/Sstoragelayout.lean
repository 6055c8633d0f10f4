import Rasdaman.Rasodmg.AlignedTiling

/-!
# Storagemgr/Sstoragelayout — the domains into which a tile is cut before it is stored

`getLayout` asks the tiling scheme of the object.  Regular tiling lays the grid of the tile configuration
over the tile: `calcRegLayout` counts the grid cells with an odometer, but counts the last dimension with
an `r_Dimension`, which is unsigned and has 32 bits.
-/

namespace Rasdaman

open Odometer

/-- `r_Tiling_Scheme`. -/
inductive TilingScheme
  | noTiling
  | regularTiling
  | statisticalTiling
  | interestTiling
  | alignedTiling
  | directionalTiling
  | sizeTiling
  deriving DecidableEq, Repr

/-- `StorageLayout` with its `DBStorageLayout`, for objects of dimension `d + 1`.  `scaledWidth` is the
float computation of aligned tiling, and `computeTiles` what the tiling classes return that need access
patterns or directions. -/
structure StorageLayout (d : ℕ) where
  supportsTilingScheme : Bool
  tilingScheme : TilingScheme
  tileConfiguration : Minterval
  tileSize : ℕ
  cellSize : ℕ
  scaledWidth : (tileSize cellSize numCellsTileConfig dimension width : ℕ) → ℕ
  computeTiles : TilingScheme → Box (d + 1) → Except Halt (List (Box (d + 1)))
  tileSize_lt : tileSize < 2 ^ 32
  configuration_le : ∀ s ∈ tileConfiguration, s.lowFixed → s.highFixed → s.lowerBound ≤ s.upperBound

namespace StorageLayout

variable {d : ℕ}

/-! ## Regular tiling -/

/-- The grid cell where the tile starts; division truncates towards zero. -/
def transex (base tileDomain : Box d) : Point d := fun i =>
  let origindiff := tileDomain.low i - base.low i
  if origindiff.tmod (base.extent i) < 0 then origindiff.tdiv (base.extent i) - 1
  else origindiff.tdiv (base.extent i)

/-- The grid cell where the tile ends. -/
def transexmax (base tileDomain : Box d) : Point d := fun i =>
  let highdiff := tileDomain.high i - base.high i
  if highdiff.tmod (base.extent i) > 0 then highdiff.tdiv (base.extent i) + 1
  else highdiff.tdiv (base.extent i)

/-- The loop of `calcRegLayout` over the last dimension: `j` is an `r_Dimension`. -/
def regRow (base tileDomain : Box (d + 1)) (trans : Point d) : Except Halt (List (Box (d + 1))) :=
  let last := transexmax base tileDomain (Fin.last d)
  let start : ℕ := (transex base tileDomain (Fin.last d) % 2 ^ 32).toNat
  sweep .endless
    (fun j : ℕ => if ((j + 1) % 2 ^ 32 : ℕ) ≤ last then some ((j + 1) % 2 ^ 32) else none)
    (fun j : ℕ => .ok [base.gridCell (Fin.snoc trans (j : ℤ))])
    (2 ^ 32) (if (start : ℤ) ≤ last then some start else none)

/-- The other dimensions, which are counted up to `transexmax`. -/
def regWheel (base tileDomain : Box (d + 1)) (i : Fin d) : Wheel ℤ where
  first := transex base tileDomain i.castSucc
  next := fun x =>
    if x = transexmax base tileDomain i.castSucc then none else some (x + 1)

/-- `calcRegLayout`. -/
def calcRegLayout (base tileDomain : Box (d + 1)) : Except Halt (List (Box (d + 1))) :=
  sweep .endless (turn (regWheel base tileDomain)) (regRow base tileDomain)
    (List.ofFn fun i : Fin d =>
      (transexmax base tileDomain i.castSucc + 1 - transex base tileDomain i.castSucc).toNat).prod
    (some fun i => transex base tileDomain i.castSucc)

/-! ## The layout of a tile -/

/-- The tile configuration as a box, when all its bounds are fixed. -/
def fixedBox (config : Fin d → Sinterval) : Option (Box d) :=
  if h : ∀ i, (config i).lowFixed ∧ (config i).highFixed ∧
      (config i).lowerBound ≤ (config i).upperBound then
    some ⟨fun i => (config i).lowerBound, fun i => (config i).upperBound, fun i => (h i).2.2⟩
  else none

/-- `getLayout`. -/
def getLayout (sl : StorageLayout d) (tileDomain : Box (d + 1)) :
    Except Halt (List (Box (d + 1))) :=
  if sl.supportsTilingScheme then
    match sl.tilingScheme with
    | .regularTiling =>
      if h : sl.tileConfiguration.length = d + 1 then
        match fixedBox fun i => sl.tileConfiguration.get (i.cast h.symm) with
        | some base => calcRegLayout base tileDomain
        | none => .error (.throws .intervalOpen)
      else .ok [tileDomain]
    | .alignedTiling =>
      if h : sl.tileConfiguration.length = d + 1 then
        AlignedTiling.computeTiles ⟨sl.tileSize, sl.cellSize, sl.scaledWidth, id⟩
          (fun i => sl.tileConfiguration.get (i.cast h.symm)) tileDomain
      else .ok [tileDomain]
    | .interestTiling => sl.computeTiles .interestTiling tileDomain
    | .statisticalTiling => sl.computeTiles .statisticalTiling tileDomain
    | .directionalTiling => sl.computeTiles .directionalTiling tileDomain
    | .sizeTiling => .ok [tileDomain]
    | .noTiling => .ok [tileDomain]
  else .ok [tileDomain]

/-! ## Grid cells -/

theorem ediv_eq_of_rest {a b y r : ℤ} (h : a = b * y + r) (h0 : 0 ≤ r) (hr : r < b) : a / b = y := by
  rw [h, Int.mul_add_ediv_left _ _ (by omega), Int.ediv_eq_zero_of_lt h0 hr, add_zero]

/-- Truncating division, corrected below zero, rounds down. -/
theorem tdiv_floor {a b : ℤ} (hb : 0 < b) :
    (if a.tmod b < 0 then a.tdiv b - 1 else a.tdiv b) = a / b := by
  have hsum := Int.mul_tdiv_add_tmod a b
  have hlow := Int.lt_tmod_of_pos a hb
  have hhigh := Int.tmod_lt_of_pos a hb
  symm
  split
  · refine ediv_eq_of_rest (r := a.tmod b + b) ?_ (by omega) (by omega)
    rw [Int.mul_sub, Int.mul_one]
    omega
  · exact ediv_eq_of_rest hsum.symm (by omega) hhigh

/-- Truncating division, corrected above zero, rounds up. -/
theorem tdiv_ceil {a b : ℤ} (hb : 0 < b) :
    (if a.tmod b > 0 then a.tdiv b + 1 else a.tdiv b) = (a + b - 1) / b := by
  have hsum := Int.mul_tdiv_add_tmod a b
  have hlow := Int.lt_tmod_of_pos a hb
  have hhigh := Int.tmod_lt_of_pos a hb
  symm
  split
  · refine ediv_eq_of_rest (r := a.tmod b - 1) ?_ (by omega) (by omega)
    rw [Int.mul_add, Int.mul_one]
    omega
  · exact ediv_eq_of_rest (r := a.tmod b + b - 1) (by omega) (by omega) (by omega)

theorem transex_eq (base t : Box d) : transex base t = base.gridIndex t.low :=
  funext fun i => tdiv_floor (base.extent_cast_pos i)

theorem transexmax_eq (base t : Box d) : transexmax base t = base.gridIndex t.high := by
  funext i
  have hext := base.extent_cast i
  have hsum : t.high i - base.high i + base.extent i - 1 = t.high i - base.low i := by omega
  exact (tdiv_ceil (base.extent_cast_pos i)).trans (by rw [hsum, Box.gridIndex])

variable {base t : Box (d + 1)}

theorem gridIndex_low_le_high (base t : Box (d + 1)) (i : Fin (d + 1)) :
    base.gridIndex t.low i ≤ base.gridIndex t.high i := by
  have := t.low_le_high i
  exact Int.ediv_le_ediv (base.extent_cast_pos i) (by omega)

/-- The tile starts at or after the configuration in the last dimension, and its grid cells there have
numbers that an `r_Dimension` can count past. -/
def RegFits (base t : Box (d + 1)) : Prop :=
  base.low (Fin.last d) ≤ t.low (Fin.last d) ∧ base.gridIndex t.high (Fin.last d) < 2 ^ 32 - 1

instance (base t : Box (d + 1)) : Decidable (RegFits base t) := inferInstanceAs (Decidable (_ ∧ _))

/-- The numbers of the grid cells in the last dimension. -/
def lastIndices (base t : Box (d + 1)) : List ℤ :=
  upTo (base.gridIndex t.low (Fin.last d)) (base.gridIndex t.high (Fin.last d))

/-- Counting with 32 bits visits the natural numbers up to a bound below the last of them. -/
theorem visits_dimension {a : ℕ} {b : ℤ} (hb : b < 2 ^ 32 - 1) (h : (a : ℤ) ≤ b) :
    Visits (fun j : ℕ => if ((j + 1) % 2 ^ 32 : ℕ) ≤ b then some ((j + 1) % 2 ^ 32) else none)
      (some a) ((upTo a b).map Int.toNat) none := by
  obtain ⟨m, hm⟩ := Int.eq_ofNat_of_zero_le (Int.sub_nonneg_of_le h)
  induction m generalizing a with
  | zero =>
    have hmod : (a + 1) % 2 ^ 32 = a + 1 := Nat.mod_eq_of_lt (by omega)
    have hnil : upTo ((a : ℤ) + 1) b = [] := by simp [upTo]; omega
    rw [upTo_cons h, hnil]
    refine ⟨by simp, ?_⟩
    simp only [Int.toNat_natCast, hmod]
    exact if_neg (by omega)
  | succ m ih =>
    have hmod : (a + 1) % 2 ^ 32 = a + 1 := Nat.mod_eq_of_lt (by omega)
    have hnext : ((a + 1 : ℕ) : ℤ) ≤ b := by omega
    rw [upTo_cons h]
    refine ⟨by simp, ?_⟩
    simp only [Int.toNat_natCast, hmod, if_pos hnext]
    exact_mod_cast ih hnext (by omega)

/-- The loop over the last dimension returns the grid cells of a row. -/
theorem regRow_eq (h : RegFits base t) (trans : Point d) :
    regRow base t trans =
      .ok ((lastIndices base t).map fun j => base.gridCell (Fin.snoc trans j)) := by
  have hnonneg : 0 ≤ base.gridIndex t.low (Fin.last d) :=
    Int.ediv_nonneg (by have := h.1; omega) (base.extent_cast_pos _).le
  have hle := gridIndex_low_le_high base t (Fin.last d)
  obtain ⟨a, ha⟩ := Int.eq_ofNat_of_zero_le hnonneg
  have hstart : (base.gridIndex t.low (Fin.last d) % 2 ^ 32).toNat = a := by
    have := h.2
    omega
  have hvisits := visits_dimension (a := a) h.2 (by omega)
  have hlen : ((upTo a (base.gridIndex t.high (Fin.last d))).map Int.toNat).length ≤ 2 ^ 32 := by
    have := h.2
    rw [List.length_map, length_upTo]
    omega
  rw [regRow, transex_eq, transexmax_eq]
  simp only [hstart]
  rw [if_pos (by omega), sweep_eq hvisits hlen fun _ _ => rfl, ← List.map_eq_flatMap, List.map_map,
    lastIndices, ha]
  refine congrArg Except.ok (List.map_congr_left fun j hj => ?_)
  have := (mem_upTo.mp hj).1
  rw [Function.comp_apply, Int.toNat_of_nonneg (by omega)]

/-- The numbers of the grid cells in the other dimensions. -/
def outerIndices (base t : Box (d + 1)) (i : Fin d) : List ℤ :=
  upTo (base.gridIndex t.low i.castSucc) (base.gridIndex t.high i.castSucc)

/-- The numbers of the grid cells that meet a box. -/
def gridNumbers (base t : Box (d + 1)) : List (Point (d + 1)) :=
  (combos (outerIndices base t)).flatMap fun v => (lastIndices base t).map fun j => Fin.snoc v j

theorem mem_gridNumbers {k : Point (d + 1)} :
    k ∈ gridNumbers base t ↔ (base.gridCell k).Intersects t := by
  rw [Box.gridCell_intersects_iff, Fin.forall_fin_succ']
  simp only [gridNumbers, List.mem_flatMap, List.mem_map, mem_combos, outerIndices, lastIndices,
    mem_upTo]
  constructor
  · rintro ⟨v, hv, j, hj, rfl⟩
    simpa using ⟨hv, hj⟩
  · rintro ⟨hinit, hlast⟩
    exact ⟨Fin.init k, hinit, k (Fin.last d), hlast, Fin.snoc_init_self k⟩

theorem nodup_gridNumbers (base t : Box (d + 1)) : (gridNumbers base t).Nodup := by
  have hinj : ∀ (v v' : Point d) (j j' : ℤ), (Fin.snoc v j : Point (d + 1)) = Fin.snoc v' j' →
      v = v' ∧ j = j' := fun v v' j j' h => Fin.snoc_inj.mp h
  rw [gridNumbers, List.nodup_flatMap]
  refine ⟨fun v _ => (nodup_upTo _ _).map fun j j' h => (hinj v v j j' h).2, ?_⟩
  refine (nodup_combos fun i => nodup_upTo _ _).imp fun {v v'} hne => ?_
  rw [Function.onFun, List.disjoint_left]
  intro k hk hk'
  obtain ⟨j, -, rfl⟩ := List.mem_map.mp hk
  obtain ⟨j', -, hj'⟩ := List.mem_map.mp hk'
  exact hne (hinj v' v j' j hj').1.symm

/-- The loop over the other dimensions visits their grid cells. -/
theorem visits_outer (base t : Box (d + 1)) :
    Visits (turn (regWheel base t)) (some fun i => transex base t i.castSucc)
      (combos (outerIndices base t)) none := by
  refine visits_turn fun i => ?_
  simp only [regWheel, transex_eq, transexmax_eq]
  exact visits_upTo (gridIndex_low_le_high base t i.castSucc)

theorem length_outer_le (base t : Box (d + 1)) :
    (combos (outerIndices base t)).length ≤ (List.ofFn fun i : Fin d =>
      (transexmax base t i.castSucc + 1 - transex base t i.castSucc).toNat).prod := by
  rw [length_combos, transex_eq, transexmax_eq]
  simp [outerIndices]

/-- **Regular tiling returns the grid cells that meet the tile**, where the last dimension can be
counted. -/
theorem calcRegLayout_eq (h : RegFits base t) :
    calcRegLayout base t = .ok ((gridNumbers base t).map base.gridCell) := by
  rw [calcRegLayout, sweep_eq (visits_outer base t) (length_outer_le base t) fun v _ => regRow_eq h v,
    gridNumbers, List.map_flatMap]
  simp only [List.map_map]
  rfl

/-- **The defect of the loop over the last dimension**: where the first number of the grid cells, taken
modulo `2^32`, lies past the last one, the layout is empty. -/
theorem calcRegLayout_empty
    (h : base.gridIndex t.high (Fin.last d) < base.gridIndex t.low (Fin.last d) % 2 ^ 32) :
    calcRegLayout base t = .ok [] := by
  have hrow : ∀ trans : Point d, regRow base t trans = .ok [] := by
    intro trans
    have hstart : ¬ ((base.gridIndex t.low (Fin.last d) % 2 ^ 32).toNat : ℤ) ≤
        base.gridIndex t.high (Fin.last d) := by omega
    rw [regRow, transex_eq, transexmax_eq]
    simp only [if_neg hstart]
    rw [sweep]
  rw [calcRegLayout, sweep_eq (visits_outer base t) (length_outer_le base t) fun v _ => hrow v]
  simp

/-! ## Layouts -/

/-- The domains of a layout are disjoint and meet the tile, and the tile lies in them. -/
structure IsLayout (t : Box d) (bs : List (Box d)) : Prop where
  disjoint : bs.Pairwise fun a b => ¬ a.Intersects b
  covers : ∀ p ∈ t, ∃ b ∈ bs, p ∈ b
  meets : ∀ b ∈ bs, b.Intersects t

theorem isLayout_gridCells (base t : Box (d + 1)) :
    IsLayout t ((gridNumbers base t).map base.gridCell) where
  disjoint := List.pairwise_map.mpr <| (nodup_gridNumbers base t).imp fun hne h =>
    hne (Box.eq_of_gridCell_intersects h)
  covers := fun p hp => by
    have hcell : p ∈ base.gridCell (base.gridIndex p) := Box.mem_gridCell.mpr rfl
    exact ⟨_, List.mem_map_of_mem (mem_gridNumbers.mpr (.of_mem hcell hp)), hcell⟩
  meets := fun b hb => by
    obtain ⟨k, hk, rfl⟩ := List.mem_map.mp hb
    exact mem_gridNumbers.mp hk

/-! ### When the grid covers the tile -/

/-- `calcRegLayout` returns once each grid cell that meets the tile and nothing else, and the tile lies
in their union. -/
def CoversByGrid (base t : Box (d + 1)) : Prop :=
  ∃ cells, calcRegLayout base t = .ok cells ∧ cells.Nodup ∧
    (∀ b, b ∈ cells ↔ (∃ k, b = base.gridCell k) ∧ b.Intersects t) ∧ ∀ p ∈ t, ∃ b ∈ cells, p ∈ b

theorem gridCell_injective (base : Box d) : Function.Injective base.gridCell := by
  intro k k' h
  have hmem : (base.gridCell k).low ∈ base.gridCell k' := by
    rw [← h]
    exact (base.gridCell k).low_mem
  exact Box.eq_of_gridCell_intersects (.of_mem (base.gridCell k).low_mem hmem)

theorem coversByGrid_of_regFits (h : RegFits base t) : CoversByGrid base t := by
  refine ⟨_, calcRegLayout_eq h, (nodup_gridNumbers base t).map (gridCell_injective base), ?_,
    (isLayout_gridCells base t).covers⟩
  intro b
  constructor
  · intro hb
    obtain ⟨k, hk, rfl⟩ := List.mem_map.mp hb
    exact ⟨⟨k, rfl⟩, mem_gridNumbers.mp hk⟩
  · rintro ⟨⟨k, rfl⟩, hmeet⟩
    exact List.mem_map_of_mem (mem_gridNumbers.mpr hmeet)

/-- The grid cells that `calcRegLayout` returns have natural numbers in the last dimension. -/
theorem last_nonneg_of_mem {cells : List (Box (d + 1))} {k : Point (d + 1)}
    (h : calcRegLayout base t = .ok cells) (hk : base.gridCell k ∈ cells) : 0 ≤ k (Fin.last d) := by
  obtain ⟨trans, row, hrow, hmem⟩ := exists_of_mem_sweep h hk
  obtain ⟨j, out, hout, hmem⟩ := exists_of_mem_sweep hrow hmem
  obtain rfl : [base.gridCell (Fin.snoc trans (j : ℤ))] = out := Except.ok.inj hout
  have hkj : k = Fin.snoc trans (j : ℤ) := gridCell_injective base (List.mem_singleton.mp hmem)
  rw [hkj, Fin.snoc_last]
  exact Int.natCast_nonneg j

/-- **The loop over the last dimension does not end** where no `r_Dimension` lies past the last grid
cell. -/
theorem calcRegLayout_ne_ok (h : 2 ^ 32 - 1 ≤ base.gridIndex t.high (Fin.last d))
    (cells : List (Box (d + 1))) : calcRegLayout base t ≠ .ok cells := by
  intro hok
  obtain ⟨row, hrow⟩ := body_of_sweep_ok hok
  rw [regRow, transex_eq, transexmax_eq] at hrow
  rw [if_pos (by omega)] at hrow
  refine sweep_ne_ok (fun j hnone => ?_) _ _ _ hrow
  have hj : (j + 1) % 2 ^ 32 < 2 ^ 32 := Nat.mod_lt _ (by decide)
  rw [if_pos (by omega)] at hnone
  exact nomatch hnone

theorem regFits_of_coversByGrid (h : CoversByGrid base t) : RegFits base t := by
  obtain ⟨cells, hok, -, hmem, -⟩ := h
  constructor
  · have hmeet : (base.gridCell (base.gridIndex t.low)).Intersects t :=
      .of_mem (Box.mem_gridCell.mpr rfl) t.low_mem
    have hnonneg := last_nonneg_of_mem hok ((hmem _).mpr ⟨⟨_, rfl⟩, hmeet⟩)
    have hdiff := (Int.le_ediv_iff_mul_le (base.extent_cast_pos (Fin.last d))).mp hnonneg
    omega
  · by_contra hlast
    exact calcRegLayout_ne_ok (by omega) cells hok

theorem isLayout_of_tiles {t : Box d} {bs : List (Box d)} (h : Tiles t.region bs) :
    IsLayout t bs where
  disjoint := h.disjoint
  covers := fun p hp => (h.mem_iff p).mp hp
  meets := fun b hb => .of_mem b.low_mem (h.mem_of_mem hb b.low_mem)

/-- The configuration as a function of the dimension, when it has as many as the object. -/
def sides (sl : StorageLayout d) (h : sl.tileConfiguration.length = d + 1) (i : Fin (d + 1)) :
    Sinterval := sl.tileConfiguration.get (i.cast h.symm)

/-- The box whose grid regular tiling uses. -/
def grid (sl : StorageLayout d) : Option (Box (d + 1)) :=
  if h : sl.tileConfiguration.length = d + 1 then
    if sl.supportsTilingScheme ∧ sl.tilingScheme = .regularTiling then fixedBox (sl.sides h) else none
  else none

/-- A cell fits in a tile, where aligned tiling has to choose the extent of a tile. -/
def CellFits (sl : StorageLayout d) : Prop :=
  sl.supportsTilingScheme → sl.tilingScheme = .alignedTiling →
    sl.tileConfiguration.length = d + 1 → (∃ s ∈ sl.tileConfiguration, AlignedTiling.isOpen s) →
      sl.cellSize ≤ sl.tileSize

theorem sideWidth_sides_pos (sl : StorageLayout d) (h : sl.tileConfiguration.length = d + 1)
    (i : Fin (d + 1)) (hi : AlignedTiling.isOpen (sl.sides h i) = false) :
    0 < AlignedTiling.sideWidth (sl.sides h i) := by
  have hfixed : (sl.sides h i).lowFixed = true ∧ (sl.sides h i).highFixed = true := by
    simpa [AlignedTiling.isOpen] using hi
  have hle := sl.configuration_le (sl.sides h i) (List.get_mem _ _) hfixed.1 hfixed.2
  rw [AlignedTiling.sideWidth]
  omega

theorem getLayout_of_grid {sl : StorageLayout d} {base : Box (d + 1)} (hgrid : sl.grid = some base)
    (t : Box (d + 1)) : sl.getLayout t = calcRegLayout base t := by
  unfold grid at hgrid
  split at hgrid
  · next hlen =>
    split at hgrid
    · next hreg =>
      rw [getLayout, if_pos hreg.1, hreg.2]
      simp only [dif_pos hlen]
      rw [show (fixedBox fun i => sl.tileConfiguration.get (i.cast hlen.symm)) = some base from hgrid]
    · cases hgrid
  · cases hgrid

/-- Regular tiling with a configuration whose bounds are fixed, or aligned tiling. -/
def IsRegularOrAligned (sl : StorageLayout d) : Prop :=
  sl.tilingScheme = .alignedTiling ∨
    sl.tilingScheme = .regularTiling ∧ ∀ s ∈ sl.tileConfiguration, s.lowFixed ∧ s.highFixed

/-- A configuration with fixed bounds for the dimension of the object is a grid. -/
theorem fixedBox_sides_ne_none {sl : StorageLayout d} (h : sl.tileConfiguration.length = d + 1)
    (hfixed : ∀ s ∈ sl.tileConfiguration, s.lowFixed ∧ s.highFixed) :
    fixedBox (sl.sides h) ≠ none := by
  have hall : ∀ i, (sl.sides h i).lowFixed ∧ (sl.sides h i).highFixed ∧
      (sl.sides h i).lowerBound ≤ (sl.sides h i).upperBound := by
    intro i
    have hmem : sl.sides h i ∈ sl.tileConfiguration := List.get_mem _ _
    obtain ⟨hlow, hhigh⟩ := hfixed _ hmem
    exact ⟨hlow, hhigh, sl.configuration_le _ hmem hlow hhigh⟩
  rw [fixedBox, dif_pos hall]
  exact Option.some_ne_none _

/-- **Without a grid the tile itself is cut.** -/
theorem getLayout_of_no_grid {sl : StorageLayout d} (h : sl.IsRegularOrAligned)
    (hgrid : sl.grid = none) (hcell : sl.CellFits) (t : Box (d + 1)) :
    ∃ bs, sl.getLayout t = .ok bs ∧ Tiles t.region bs := by
  have hone : Tiles t.region [t] := ⟨List.pairwise_singleton _ _, fun p => by simp⟩
  by_cases hsup : sl.supportsTilingScheme = true
  · rcases h with hscheme | ⟨hscheme, hfixed⟩
    · rw [getLayout, if_pos hsup, hscheme]
      simp only
      split
      · next hlen =>
        refine AlignedTiling.computeTiles_tiles t rfl sl.tileSize_lt (sl.sideWidth_sides_pos hlen) ?_
        rintro ⟨i, hi⟩
        exact hcell hsup hscheme hlen ⟨_, List.get_mem _ _, hi⟩
      · exact ⟨_, rfl, hone⟩
    · have hlen : sl.tileConfiguration.length ≠ d + 1 := by
        intro hlen
        rw [grid, dif_pos hlen, if_pos ⟨hsup, hscheme⟩] at hgrid
        exact fixedBox_sides_ne_none hlen hfixed hgrid
      rw [getLayout, if_pos hsup, hscheme]
      simp only [dif_neg hlen]
      exact ⟨_, rfl, hone⟩
  · rw [getLayout, if_neg hsup]
    exact ⟨_, rfl, hone⟩

end StorageLayout

end Rasdaman
