import Rasdaman.Rasodmg.TileGrid

/-!
# Rasodmg/AlignedTiling — `r_Aligned_Tiling::compute_tiles`

A domain is cut along the grid of a tile domain put at its origin.  The tile domain is computed from the
tile configuration and the tile size: a dimension whose bounds are not both fixed takes as much of the
object as fits, then the fixed ones follow; a configuration with fixed bounds only is taken as it is or
scaled by a factor computed in floating point.  The scaled width is the parameter `scaledWidth`.
-/

namespace Rasdaman

namespace AlignedTiling

open TileGrid

variable {d : ℕ}

/-- `r_Aligned_Tiling`, with the float computation of a new width from the tile size, the cell size,
the cells of the configuration, the dimension and the old width. -/
structure Params where
  tileSize : ℕ
  cellSize : ℕ
  scaledWidth : (tileSize cellSize numCellsTileConfig dimension width : ℕ) → ℕ
  /-- What computing a coordinate makes of it: `toRange`, or `id` in integers without bounds. -/
  r : ℤ → ℤ

/-- A bound of the interval is not fixed. -/
def isOpen (s : Sinterval) : Bool := !s.lowFixed || !s.highFixed

/-- The number of cells of an interval with fixed bounds. -/
def sideWidth (s : Sinterval) : ℕ := (s.upperBound - s.lowerBound + 1).toNat

/-- One round of the two loops of `compute_tile_domain` over the sides of the tile: the side is cut where
the tile would get too large.  `size` is an `unsigned long`; the loop over the fixed bounds narrows it
to `r_Bytes` first and multiplies `r_Range`s. -/
def sideStep (r : ℤ → ℤ) (tileSize : ℕ) (config : Fin d → Sinterval) (dom : Box d)
    (st : ℕ × (Fin d → ℕ)) (i : Fin d) : Except Halt (ℕ × (Fin d → ℕ)) :=
  let size := st.1
  let l := if isOpen (config i) then dom.low i else (config i).lowerBound
  let h := if isOpen (config i) then dom.high i else (config i).upperBound
  let tooLarge :=
    if isOpen (config i) then tileSize < size * (h - l + 1).toNat % 2 ^ 64
    else (tileSize : ℤ) < r ((size % 2 ^ 32 : ℕ) * r (h - l + 1))
  let h := if tooLarge then r ((tileSize / size : ℕ) + l - 1) else h
  if l ≤ h then .ok (size * (h - l + 1).toNat % 2 ^ 64, Function.update st.2 i (h - l + 1).toNat)
  else .error (.throws .noInterval)

/-- The sides in the order in which they are treated. -/
def sideOrder (config : Fin d → Sinterval) : List (Fin d) :=
  (List.finRange d).reverse.filter (fun i => isOpen (config i)) ++
    (List.finRange d).reverse.filter fun i => !isOpen (config i)

/-- `compute_tile_domain`, of which only the extents are used. -/
def computeTileExtent (par : Params) (config : Fin d → Sinterval) (dom : Box d) :
    Except Halt (Fin d → ℕ) :=
  if ∃ i, isOpen (config i) then do
    let st ← (sideOrder config).foldlM (sideStep par.r par.tileSize config dom)
      (par.cellSize, fun _ => 0)
    return st.2
  else
    let numCellsTileConfig :=
      (List.finRange d).foldl (fun n i => n * (sideWidth (config i) % 2 ^ 64) % 2 ^ 64) 1
    let sizeTileConfig := numCellsTileConfig * par.cellSize % 2 ^ 64
    if par.tileSize - par.tileSize / 10 < sizeTileConfig ∧ sizeTileConfig < par.tileSize then
      .ok fun i => sideWidth (config i)
    else
      let newWidth := fun i => max 1
        (par.scaledWidth par.tileSize par.cellSize numCellsTileConfig d (sideWidth (config i)))
      let high := fun i => par.r ((config i).lowerBound + newWidth i - 1)
      if ∀ i, (config i).lowerBound ≤ high i then
        .ok fun i => (high i - (config i).lowerBound + 1).toNat
      else .error (.throws .noInterval)

/-- `compute_tiles`. -/
def computeTiles (par : Params) (config : Fin d → Sinterval) (bigDom : Box d) :
    Except Halt (List (Box d)) := do
  let tileSize ← computeTileExtent par config bigDom
  gridTiles par.r bigDom tileSize fun smallTile => .ok smallTile

/-! ## The extents of a tile -/

variable {par : Params} {config : Fin d → Sinterval} {bigDom : Box d}

/-- A side gets a width, and the tile stays within its size. -/
theorem sideStep_ok (htile : par.tileSize < 2 ^ 32)
    (hconfig : ∀ i, isOpen (config i) = false → 0 < sideWidth (config i)) {st : ℕ × (Fin d → ℕ)}
    (hst : st.1 ≤ par.tileSize) (i : Fin d) :
    ∃ size width, sideStep id par.tileSize config bigDom st i =
        .ok (size, Function.update st.2 i width) ∧ size ≤ par.tileSize ∧ 0 < width := by
  set l := if isOpen (config i) then bigDom.low i else (config i).lowerBound with hl
  set h := if isOpen (config i) then bigDom.high i else (config i).upperBound with hh
  have hle : l ≤ h := by
    rw [hl, hh]
    split
    · exact bigDom.low_le_high i
    · next hfixed =>
      have := hconfig i (by simpa using hfixed)
      rw [sideWidth] at this
      omega
  set tooLarge := if isOpen (config i) then par.tileSize < st.1 * (h - l + 1).toNat % 2 ^ 64
    else (par.tileSize : ℤ) < id ((st.1 % 2 ^ 32 : ℕ) * id (h - l + 1)) with htoo
  have hstep : ∀ high, (if tooLarge then id ((par.tileSize / st.1 : ℕ) + l - 1) else h) = high →
      l ≤ high → sideStep id par.tileSize config bigDom st i = .ok
        (st.1 * (high - l + 1).toNat % 2 ^ 64, Function.update st.2 i (high - l + 1).toNat) :=
    fun high hhigh hl => by
      subst hhigh
      exact if_pos hl
  have hsmall : st.1 % 2 ^ 32 = st.1 := Nat.mod_eq_of_lt (by omega)
  by_cases hlarge : tooLarge
  · have hsize : 0 < st.1 := by
      refine Nat.pos_of_ne_zero fun h0 => ?_
      rw [htoo, h0] at hlarge
      split at hlarge
      · simp at hlarge
      · simp at hlarge
        omega
    have hpos : 0 < par.tileSize / st.1 := Nat.div_pos hst hsize
    have hwidth : ((par.tileSize / st.1 : ℕ) + l - 1 - l + 1).toNat = par.tileSize / st.1 := by omega
    refine ⟨_, _, hstep _ (if_pos hlarge) (by simp only [id]; omega), ?_, ?_⟩
    · simp only [id, hwidth]
      exact (Nat.mod_le _ _).trans (Nat.mul_div_le _ _)
    · simp only [id, hwidth]
      exact hpos
  · refine ⟨_, _, hstep _ (if_neg hlarge) hle, ?_, by omega⟩
    rw [htoo, hsmall] at hlarge
    split at hlarge
    · omega
    · refine (Nat.mod_le _ _).trans (Int.ofNat_le.mp ?_)
      rw [Nat.cast_mul, Int.toNat_of_nonneg (by omega)]
      exact not_lt.mp hlarge

theorem sides_ok (bigDom : Box d) (htile : par.tileSize < 2 ^ 32)
    (hconfig : ∀ i, isOpen (config i) = false → 0 < sideWidth (config i)) (l : List (Fin d))
    (st : ℕ × (Fin d → ℕ)) (hst : st.1 ≤ par.tileSize) :
    ∃ st', l.foldlM (sideStep id par.tileSize config bigDom) st = .ok st' ∧
      ∀ i, i ∈ l ∨ 0 < st.2 i → 0 < st'.2 i := by
  induction l generalizing st with
  | nil => exact ⟨st, rfl, fun i h => h.resolve_left List.not_mem_nil⟩
  | cons j l ih =>
    obtain ⟨size, width, hstep, hsize, hwidth⟩ := sideStep_ok htile hconfig hst j
    obtain ⟨st', hfold, hpos⟩ := ih (size, Function.update st.2 j width) hsize
    refine ⟨st', by rw [List.foldlM_cons, hstep]; exact hfold, fun i hi => hpos i ?_⟩
    rcases eq_or_ne i j with rfl | hne
    · exact Or.inr (by simpa using hwidth)
    · simpa [hne] using hi

/-- **The tile domain has a cell**, when a cell fits in a tile or no side is open. -/
theorem computeTileExtent_pos (bigDom : Box d) (hr : par.r = id) (htile : par.tileSize < 2 ^ 32)
    (hconfig : ∀ i, isOpen (config i) = false → 0 < sideWidth (config i))
    (hcell : (∃ i, isOpen (config i)) → par.cellSize ≤ par.tileSize) :
    ∃ ext, computeTileExtent par config bigDom = .ok ext ∧ ∀ i, 0 < ext i := by
  unfold computeTileExtent
  rw [hr]
  split
  · next hopen =>
    obtain ⟨st, hfold, hpos⟩ := sides_ok bigDom htile hconfig (sideOrder config)
      (par.cellSize, fun _ => 0) (hcell hopen)
    refine ⟨st.2, by rw [hfold]; rfl, fun i => hpos i (Or.inl ?_)⟩
    rcases h : isOpen (config i) <;> simp [sideOrder, h]
  · next hfixed =>
    have hall : ∀ i, isOpen (config i) = false := fun i => by
      simpa using not_exists.mp hfixed i
    dsimp only
    split
    · exact ⟨_, rfl, fun i => hconfig i (hall i)⟩
    · refine ⟨_, if_pos fun i => ?_, fun i => ?_⟩ <;> simp only [id] <;> omega

/-- **`compute_tiles` tiles the object along a grid** from its origin on, in integers without bounds. -/
theorem computeTiles_grid (bigDom : Box d) (hr : par.r = id) (htile : par.tileSize < 2 ^ 32)
    (hconfig : ∀ i, isOpen (config i) = false → 0 < sideWidth (config i))
    (hcell : (∃ i, isOpen (config i)) → par.cellSize ≤ par.tileSize) :
    ∃ ext bs, computeTileExtent par config bigDom = .ok ext ∧ (∀ i, 0 < ext i) ∧
      computeTiles par config bigDom = .ok bs ∧ Tiles bigDom.region bs ∧
      ∀ c ∈ bs, ∀ p ∈ c, ∀ q, q ∈ c ↔ q ∈ bigDom ∧
        ∀ i, (q i - bigDom.low i) / ext i = (p i - bigDom.low i) / ext i := by
  obtain ⟨ext, hext, hpos⟩ := computeTileExtent_pos bigDom hr htile hconfig hcell
  have hbs : gridTiles id bigDom ext (fun smallTile => .ok smallTile) = .ok _ :=
    gridTiles_eq word_id hpos (steps_id bigDom hpos) fun smallTile _ => rfl
  refine ⟨ext, _, hext, hpos, ?_, tiles_pieceAt hpos bigDom, fun c hc p hp q => ?_⟩
  · rw [computeTiles, hext, hr]
    exact hbs
  · obtain ⟨x, hx, rfl⟩ := List.mem_map.mp hc
    exact mem_pieceAt_iff hpos hx hp

/-- **`compute_tiles` tiles the object**, in integers without bounds. -/
theorem computeTiles_tiles (bigDom : Box d) (hr : par.r = id) (htile : par.tileSize < 2 ^ 32)
    (hconfig : ∀ i, isOpen (config i) = false → 0 < sideWidth (config i))
    (hcell : (∃ i, isOpen (config i)) → par.cellSize ≤ par.tileSize) :
    ∃ bs, computeTiles par config bigDom = .ok bs ∧ Tiles bigDom.region bs := by
  obtain ⟨-, bs, -, -, hbs, htiles, -⟩ := computeTiles_grid bigDom hr htile hconfig hcell
  exact ⟨bs, hbs, htiles⟩

/-! ## In coordinates of 64 bits -/

/-- The fixed intervals of a tile configuration are `r_Sinterval`s. -/
def IsConfig (config : Fin d → Sinterval) : Prop :=
  ∀ i, isOpen (config i) = false → (config i).lowerBound ≤ (config i).upperBound ∧
    -2 ^ 63 ≤ (config i).lowerBound ∧ (config i).upperBound < 2 ^ 63

/-- The extent of an interval with bounds of 64 bits. -/
def IsExtent (w : ℕ) : Prop := 0 < w ∧ w ≤ 2 ^ 64

theorem isExtent_of_le {l h : ℤ} (hle : l ≤ h) (hl : -2 ^ 63 ≤ l) (hh : h < 2 ^ 63) :
    IsExtent (h - l + 1).toNat := by
  constructor <;> omega

/-- A side that is computed has a width of 64 bits. -/
theorem sideStep_isExtent (hb : bigDom.InRange) (hconfig : IsConfig config) {st st' : ℕ × (Fin d → ℕ)}
    {i : Fin d} (h : sideStep toRange par.tileSize config bigDom st i = .ok st') :
    ∃ w, IsExtent w ∧ st'.2 = Function.update st.2 i w := by
  rw [sideStep] at h
  obtain ⟨hle, rfl⟩ := ExceptFold.ite_eq_ok h
  refine ⟨_, isExtent_of_le hle ?_ ?_, rfl⟩
  · split
    · exact (hb i).1
    · next hfixed => exact (hconfig i (by simpa using hfixed)).2.1
  · have hcut : ∀ (tooLarge : Prop) [Decidable tooLarge] (x h : ℤ), h < 2 ^ 63 →
        (if tooLarge then toRange x else h) < 2 ^ 63 := fun _ _ x h hh => by
      split
      · exact (toRange_bounds x).2
      · exact hh
    refine hcut _ _ _ ?_
    split
    · exact (hb i).2
    · next hfixed => exact (hconfig i (by simpa using hfixed)).2.2

/-- The tile domain that is computed has sides of 64 bits. -/
theorem computeTileExtent_isExtent (hr : par.r = toRange) (hb : bigDom.InRange)
    (hconfig : IsConfig config) {ext : Fin d → ℕ} (h : computeTileExtent par config bigDom = .ok ext)
    (i : Fin d) : IsExtent (ext i) := by
  have hfixed : (¬∃ i, isOpen (config i)) → ∀ i, isOpen (config i) = false := fun hno i => by
    simpa using not_exists.mp hno i
  rw [computeTileExtent, hr] at h
  split at h
  · obtain ⟨st, hfold, hret⟩ := ExceptFold.bind_eq_ok h
    obtain rfl := Except.ok.inj hret
    refine ExceptFold.foldlM_inv (P := fun done st => ∀ j ∈ done, IsExtent (st.2 j)) hfold nofun
      (fun done j rest st st' _ hst hstep => ?_) i ?_
    · obtain ⟨w, hw, heq⟩ := sideStep_isExtent hb hconfig hstep
      intro k hk
      rw [heq]
      rcases eq_or_ne k j with rfl | hne
      · rwa [Function.update_self]
      · rw [Function.update_of_ne hne]
        exact hst k ((List.mem_append.mp hk).resolve_right (by simpa using hne))
    · rcases h : isOpen (config i) <;> simp [sideOrder, h]
  · next hno =>
    have hall := hfixed hno
    dsimp only at h
    split at h
    · obtain rfl := Except.ok.inj h
      exact isExtent_of_le (hconfig i (hall i)).1 (hconfig i (hall i)).2.1 (hconfig i (hall i)).2.2
    · split at h
      · next hle =>
        obtain rfl := Except.ok.inj h
        exact isExtent_of_le (hle i) (hconfig i (hall i)).2.1 (toRange_bounds _).2
      · cases h

/-- `compute_tile_domain` computes a tile domain, and this can be moved past the end of the object. -/
def TileFits (par : Params) (config : Fin d → Sinterval) (bigDom : Box d) : Prop :=
  ∃ ext, computeTileExtent par config bigDom = .ok ext ∧ GridFits bigDom ext

/-- **`compute_tiles` partitions the object exactly if its tile domain fits.** -/
theorem computeTiles_iff (hr : par.r = toRange) (hb : bigDom.InRange) (hconfig : IsConfig config) :
    (∃ bs, computeTiles par config bigDom = .ok bs ∧ Tiles bigDom.region bs) ↔
      TileFits par config bigDom := by
  have hloop : ∀ ext, computeTileExtent par config bigDom = .ok ext →
      ((∃ bs, gridTiles toRange bigDom ext (fun smallTile => .ok smallTile) = .ok bs ∧
        Tiles bigDom.region bs) ↔ GridFits bigDom ext) := fun ext hext => by
    have hE := computeTileExtent_isExtent hr hb hconfig hext
    have hbody : ∀ c, bigDom.Covers c → ∃ s, (.ok c : Except Halt (Box d)) = .ok s ∧ id s = c :=
      fun c _ => ⟨c, rfl, rfl⟩
    simpa only [List.map_id] using gridTiles_iff hb (fun i => (hE i).1) (fun i => (hE i).2) hbody
  constructor
  · rintro ⟨bs, hok, htiles⟩
    obtain ⟨ext, hext, hgrid⟩ := ExceptFold.bind_eq_ok hok
    rw [hr] at hgrid
    exact ⟨ext, hext, (hloop ext hext).mp ⟨bs, hgrid, htiles⟩⟩
  · rintro ⟨ext, hext, hfits⟩
    obtain ⟨bs, hbs, htiles⟩ := (hloop ext hext).mpr hfits
    refine ⟨bs, ?_, htiles⟩
    rw [computeTiles, hext, hr]
    exact hbs

end AlignedTiling

end Rasdaman
