import Rasdaman.Raslib.MiterRange

/-!
# Tilemgr/Tile — tiles and `copyTile`

A tile holds the cells of a box in one block of memory, the last dimension fastest.  `copyTile` walks
with two iterators, one over an area of each tile, and copies a line of cells at each of their points;
the width of a line is that of the rows of the target area, or of the source area where those are
narrower.
-/

namespace Rasdaman

open RowMajor

/-- `Tile` with raw cells of `tsize` bytes. -/
structure Tile (d tsize : ℕ) where
  domain : Box (d + 1)
  contents : List UInt8
  length_contents : contents.length = domain.cells.card * tsize

namespace Tile

variable {d e tsize : ℕ}

/-- The bytes of a cell. -/
def cellAt (t : Tile d tsize) (p : Point (d + 1)) : List UInt8 :=
  cell tsize t.contents (t.domain.index p)

/-- The loop of `copyTile`; each round moves the iterator of the target on. -/
def copyLoop (tsize width : ℕ) (src : List UInt8) :
    ℕ → (resTileIter opTileIter : MiterDirect) → List UInt8 → List UInt8
  | 0, _, _, mem => mem
  | n + 1, res, op, mem =>
    if res.done then mem
    else
      copyLoop tsize width src n (res.skip width).next (op.skip width).next
        (overwrite mem res.getData.toNat ((src.drop op.getData.toNat).take (width * tsize)))

/-- The memory of a tile with the given domain after `copyTile`. -/
def copyCells (tsize : ℕ) (dom areaRes : Box (d + 1)) (mem : List UInt8) (opTile : Tile e tsize)
    (areaOp : Box (e + 1)) : List UInt8 :=
  copyLoop tsize (min areaRes.width areaOp.width) opTile.contents areaRes.cells.card
    (.make dom areaRes tsize) (.make opTile.domain areaOp tsize) mem

/-- `getCell` at a point. -/
def getCell (t : Tile d tsize) (p : Point (d + 1)) : List UInt8 :=
  cell tsize t.contents (t.domain.cellOffset p)

/-- A new tile, filled with zeros.  `getSize` is an `r_Bytes`: a larger tile gets too little memory. -/
def zeros (tsize : ℕ) (dom : Box (d + 1)) : Except Halt (Tile d tsize) :=
  if dom.cells.card * tsize < 2 ^ 32 then
    .ok ⟨dom, List.replicate (dom.cells.card * tsize) 0, List.length_replicate⟩
  else .error .outside

/-! ## Areas with rows of one width -/

open MiterDirect Box

section SameWidth

variable {dom areaRes : Box (d + 1)} {opTile : Tile e tsize} {areaOp : Box (e + 1)}
variable {mem : List UInt8}

/-- The loop copies the rows still to come. -/
theorem copyLoop_rowState (hdom : dom.Covers areaRes) (hop : opTile.domain.Covers areaOp)
    (hw : areaOp.width = areaRes.width) (hrows : areaOp.rows = areaRes.rows) {n k : ℕ}
    (hk : k < areaRes.rows) (hn : areaRes.rows ≤ k + n) :
    copyLoop tsize areaRes.width opTile.contents n (rowState dom areaRes tsize k)
        (rowState opTile.domain areaOp tsize k) mem =
      copyLines tsize areaRes.width opTile.contents
        ((rowLines dom areaRes opTile.domain areaOp).drop k) mem := by
  induction n generalizing k mem with
  | zero => omega
  | succ n ih =>
    have hlen : (rowLines dom areaRes opTile.domain areaOp).length = areaRes.rows := by
      simp [rowLines]
    have hline : (rowLines dom areaRes opTile.domain areaOp).drop k =
        (dom.index (areaRes.pointAt (k * areaRes.width)),
          opTile.domain.index (areaOp.pointAt (k * areaOp.width))) ::
            (rowLines dom areaRes opTile.domain areaOp).drop (k + 1) := by
      rw [List.drop_eq_getElem_cons (by omega)]
      simp [rowLines]
    rw [copyLoop, if_neg (by simp [rowState]), getData_rowState hdom hk,
      getData_rowState hop (hrows ▸ hk), Int.toNat_natCast, Int.toNat_natCast, hline, copyLines,
      List.foldl_cons, Nat.mul_comm tsize, Nat.mul_comm tsize]
    rcases (show k + 1 ≤ areaRes.rows from hk).lt_or_eq with hlt | heq
    · have hnext : ((rowState opTile.domain areaOp tsize k).skip areaOp.width).next =
          rowState opTile.domain areaOp tsize (k + 1) := next_skip_rowState (by omega)
      rw [hw] at hnext
      rw [next_skip_rowState hlt, hnext, ih hlt (by omega)]
      rfl
    · have hdone : ((rowState dom areaRes tsize k).skip areaRes.width).next.done = true :=
        done_skip_rowState heq
      have hlast : (rowLines dom areaRes opTile.domain areaOp).drop (k + 1) = [] :=
        List.drop_of_length_le (by omega)
      rw [hlast, List.foldl_nil]
      cases n with
      | zero => rfl
      | succ n => rw [copyLoop, if_pos hdone]; rfl

theorem rows_pos (b : Box (d + 1)) : 0 < b.rows :=
  Nat.div_pos (Nat.le_of_dvd b.card_cells_pos b.width_dvd_card) b.width_pos

/-- `copyTile` copies the rows of the two areas one by one. -/
theorem copyCells_eq (hdom : dom.Covers areaRes) (hop : opTile.domain.Covers areaOp)
    (hw : areaOp.width = areaRes.width) (hrows : areaOp.rows = areaRes.rows) :
    copyCells tsize dom areaRes mem opTile areaOp =
      copyLines tsize areaRes.width opTile.contents
        (rowLines dom areaRes opTile.domain areaOp) mem := by
  have hcard : areaRes.rows ≤ areaRes.cells.card := Nat.div_le_self ..
  rw [copyCells, hw, Nat.min_self, make_eq_rowState, make_eq_rowState,
    copyLoop_rowState hdom hop hw hrows (rows_pos areaRes) (by omega), List.drop_zero]

theorem length_copyCells (hdom : dom.Covers areaRes) (hop : opTile.domain.Covers areaOp)
    (hw : areaOp.width = areaRes.width) (hrows : areaOp.rows = areaRes.rows)
    (hmem : mem.length = dom.cells.card * tsize) :
    (copyCells tsize dom areaRes mem opTile areaOp).length = dom.cells.card * tsize := by
  rw [copyCells_eq hdom hop hw hrows,
    length_copyLines (linesFit_rowLines hdom hop hw hrows hmem opTile.length_contents), hmem]

/-- **`copyTile` copies the cells of the source area to the target area**, and changes no other
cell, when the two areas have as many rows of one width. -/
theorem cell_copyCells (hdom : dom.Covers areaRes) (hop : opTile.domain.Covers areaOp)
    (hw : areaOp.width = areaRes.width) (hrows : areaOp.rows = areaRes.rows)
    (hmem : mem.length = dom.cells.card * tsize) {p : Point (d + 1)} (hp : p ∈ dom) :
    cell tsize (copyCells tsize dom areaRes mem opTile areaOp) (dom.index p) =
      if p ∈ areaRes then opTile.cellAt (areaOp.pointAt (areaRes.index p))
      else cell tsize mem (dom.index p) := by
  rw [copyCells_eq hdom hop hw hrows]
  exact cell_copyLines_rowLines hdom hop hw hrows hmem opTile.length_contents hp

end SameWidth

/-! ## Areas of two tiles -/

/-- `copyTile`, for areas with as many rows of one width. -/
def copyTile (t : Tile d tsize) (areaRes : Box (d + 1)) (opTile : Tile e tsize)
    (areaOp : Box (e + 1)) : Except Halt (Tile d tsize) :=
  if h : (t.domain.Covers areaRes ∧ opTile.domain.Covers areaOp) ∧
      areaOp.width = areaRes.width ∧ areaOp.rows = areaRes.rows then
    .ok ⟨t.domain, copyCells tsize t.domain areaRes t.contents opTile areaOp,
      length_copyCells h.1.1 h.1.2 h.2.1 h.2.2 t.length_contents⟩
  else .error .outside

/-- **`copyTile` copies the cells of the area**, and changes no other cell. -/
theorem copyTile_spec {t : Tile d tsize} {opTile : Tile e tsize} {areaRes : Box (d + 1)}
    {areaOp : Box (e + 1)} (ht : t.domain.Covers areaRes) (hop : opTile.domain.Covers areaOp)
    (hw : areaOp.width = areaRes.width) (hrows : areaOp.rows = areaRes.rows) :
    ∃ t', t.copyTile areaRes opTile areaOp = .ok t' ∧ t'.domain = t.domain ∧ ∀ p ∈ t.domain,
      t'.cellAt p =
        if p ∈ areaRes then opTile.cellAt (areaOp.pointAt (areaRes.index p)) else t.cellAt p :=
  ⟨_, dif_pos ⟨⟨ht, hop⟩, hw, hrows⟩, rfl, fun _ hp => cell_copyCells ht hop hw hrows
    t.length_contents hp⟩

/-- `copyTile` from an area of a tile to the same area of another. -/
theorem copyTile_same {t opTile : Tile d tsize} {area : Box (d + 1)} (ht : t.domain.Covers area)
    (hop : opTile.domain.Covers area) :
    ∃ t', t.copyTile area opTile area = .ok t' ∧ t'.domain = t.domain ∧ ∀ p ∈ t.domain,
      t'.cellAt p = if p ∈ area then opTile.cellAt p else t.cellAt p := by
  obtain ⟨t', hcopy, hdom, hcells⟩ := copyTile_spec ht hop rfl rfl
  refine ⟨t', hcopy, hdom, fun p hp => ?_⟩
  rw [hcells p hp]
  split
  · next hin => rw [pointAt_index hin]
  · rfl

theorem zeros_spec (tsize : ℕ) {dom : Box (d + 1)} (h : dom.cells.card * tsize < 2 ^ 32) :
    ∃ t : Tile d tsize, zeros tsize dom = .ok t ∧ t.domain = dom ∧
      ∀ p ∈ dom, t.cellAt p = List.replicate tsize 0 := by
  refine ⟨_, if_pos h, rfl, fun p hp => ?_⟩
  have hfit : (dom.index p + 1) * tsize ≤ dom.cells.card * tsize :=
    Nat.mul_le_mul_right _ (index_lt hp)
  rw [Nat.succ_mul] at hfit
  rw [cellAt, cell, List.drop_replicate, List.take_replicate]
  dsimp only
  congr 1
  omega

/-- In a tile of less than `2^32` bytes the offset of a cell does not wrap around. -/
theorem getCell_eq {t : Tile d tsize} {p : Point (d + 1)} (hp : p ∈ t.domain)
    (h : t.domain.cells.card * tsize < 2 ^ 32) : t.getCell p = t.cellAt p := by
  rcases Nat.eq_zero_or_pos tsize with rfl | hpos
  · simp [getCell, cellAt, cell]
  · have hcard : t.domain.cells.card ≤ t.domain.cells.card * tsize := Nat.le_mul_of_pos_right _ hpos
    have hmod : t.domain.cells.card ≤ areaModulus := by
      rw [areaModulus]
      omega
    rw [getCell, cellOffset_eq_index hp hmod, cellAt]

/-! ## Cell by cell -/

/-- The loop of `execUnaryOp` for the identity, which copies a cell. -/
def execLoop (tsize : ℕ) (src : List UInt8) :
    ℕ → (resTileIter opTileIter : Miter) → List UInt8 → List UInt8
  | 0, _, _, mem => mem
  | n + 1, res, op, mem =>
    if res.done then mem
    else
      execLoop tsize src n res.nextCell.2 op.nextCell.2
        (overwrite mem res.nextCell.1.toNat ((src.drop op.nextCell.1.toNat).take tsize))

/-- The cells of the two areas, as the iterators go through them. -/
def cellLines (dst areaRes : Box (d + 1)) (src areaOp : Box (e + 1)) : List (ℕ × ℕ) :=
  (List.range areaRes.cells.card).map fun n =>
    (dst.index (areaRes.pointAt n), src.index (areaOp.pointAt n))

section SameCount

variable {dom areaRes : Box (d + 1)} {opTile : Tile e tsize} {areaOp : Box (e + 1)}
variable {mem : List UInt8}

/-- The loop copies the cells still to come. -/
theorem execLoop_stateAt (hdom : dom.Covers areaRes) (hop : opTile.domain.Covers areaOp)
    (hcard : areaOp.cells.card = areaRes.cells.card) {n k : ℕ} (hk : k < areaRes.cells.card)
    (hn : areaRes.cells.card ≤ k + n) :
    execLoop tsize opTile.contents n (Miter.stateAt dom areaRes tsize k)
        (Miter.stateAt opTile.domain areaOp tsize k) mem =
      copyLines tsize 1 opTile.contents ((cellLines dom areaRes opTile.domain areaOp).drop k) mem := by
  induction n generalizing k mem with
  | zero => omega
  | succ n ih =>
    have hlen : (cellLines dom areaRes opTile.domain areaOp).length = areaRes.cells.card := by
      simp [cellLines]
    have hline : (cellLines dom areaRes opTile.domain areaOp).drop k =
        (dom.index (areaRes.pointAt k), opTile.domain.index (areaOp.pointAt k)) ::
          (cellLines dom areaRes opTile.domain areaOp).drop (k + 1) := by
      rw [List.drop_eq_getElem_cons (by omega)]
      simp [cellLines]
    obtain ⟨hres, hresNext, hresDone⟩ := Miter.nextCell_stateAt hdom hk
    obtain ⟨hopCell, hopNext, -⟩ := Miter.nextCell_stateAt hop (hcard.symm ▸ hk)
    rw [execLoop, if_neg (by simp [Miter.stateAt]), hres, hopCell, Int.toNat_natCast,
      Int.toNat_natCast, hline, copyLines, List.foldl_cons, Nat.mul_comm tsize, Nat.mul_comm tsize,
      line, Nat.one_mul]
    rcases (show k + 1 ≤ areaRes.cells.card from hk).lt_or_eq with hlt | heq
    · rw [hresNext hlt, hopNext (hcard.symm ▸ hlt), ih hlt (by omega)]
      rfl
    · have hlast : (cellLines dom areaRes opTile.domain areaOp).drop (k + 1) = [] :=
        List.drop_of_length_le (by omega)
      rw [hlast, List.foldl_nil]
      cases n with
      | zero => rfl
      | succ n => rw [execLoop, if_pos (hresDone heq)]

variable (tsize) in
theorem linesFit_cellLines (hdom : dom.Covers areaRes) (hop : opTile.domain.Covers areaOp)
    (hcard : areaOp.cells.card = areaRes.cells.card) (hmem : mem.length = dom.cells.card * tsize) :
    LinesFit tsize 1 opTile.contents (cellLines dom areaRes opTile.domain areaOp) mem := by
  intro l hl
  obtain ⟨n, hn, rfl⟩ := List.mem_map.mp hl
  have hn := List.mem_range.mp hn
  rw [hmem, opTile.length_contents]
  exact ⟨Nat.mul_le_mul_right _ (index_lt (covers_iff.mp hdom _ (pointAt_mem hn))),
    Nat.mul_le_mul_right _ (index_lt (covers_iff.mp hop _ (pointAt_mem (hcard.symm ▸ hn))))⟩

/-- Copying the cells of an area in their order. -/
theorem cell_copyLines_cellLines (hdom : dom.Covers areaRes) (hop : opTile.domain.Covers areaOp)
    (hcard : areaOp.cells.card = areaRes.cells.card) (hmem : mem.length = dom.cells.card * tsize)
    {p : Point (d + 1)} (hp : p ∈ dom) :
    cell tsize (copyLines tsize 1 opTile.contents (cellLines dom areaRes opTile.domain areaOp) mem)
        (dom.index p) =
      if p ∈ areaRes then opTile.cellAt (areaOp.pointAt (areaRes.index p))
      else cell tsize mem (dom.index p) := by
  have hfit := linesFit_cellLines tsize hdom hop hcard hmem
  -- the line through a cell is that of its point
  have hthrough : ∀ n < areaRes.cells.card, dom.index (areaRes.pointAt n) ≤ dom.index p ∧
      dom.index p < dom.index (areaRes.pointAt n) + 1 → areaRes.pointAt n = p := by
    intro n hn hc
    exact index_inj (covers_iff.mp hdom _ (pointAt_mem hn)) hp (by omega)
  split
  · next hin =>
    refine cell_copyLines_of_mem hfit
      ⟨_, List.mem_map.mpr ⟨areaRes.index p, List.mem_range.mpr (index_lt hin), rfl⟩, ?_, ?_⟩
      fun l hl hc => ?_
    · rw [pointAt_index hin]
    · rw [pointAt_index hin]
      omega
    · obtain ⟨n, hn, rfl⟩ := List.mem_map.mp hl
      have hn := List.mem_range.mp hn
      obtain rfl := hthrough n hn hc
      rw [index_pointAt hn, cellAt]
      simp
  · next hout =>
    refine cell_copyLines_of_notMem hfit fun l hl hc => hout ?_
    obtain ⟨n, hn, rfl⟩ := List.mem_map.mp hl
    have hn := List.mem_range.mp hn
    exact hthrough n hn hc ▸ pointAt_mem hn

end SameCount

/-- `execUnaryOp` for the identity, between areas of one number of cells. -/
def execUnaryOp (t : Tile d tsize) (areaRes : Box (d + 1)) (opTile : Tile e tsize)
    (areaOp : Box (e + 1)) : Except Halt (Tile d tsize) :=
  let contents := execLoop tsize opTile.contents areaRes.cells.card
    (.make t.domain areaRes tsize) (.make opTile.domain areaOp tsize) t.contents
  if h : (t.domain.Covers areaRes ∧ opTile.domain.Covers areaOp) ∧
      areaOp.cells.card = areaRes.cells.card ∧ contents.length = t.domain.cells.card * tsize then
    .ok ⟨t.domain, contents, h.2.2⟩
  else .error .outside

/-- **`execUnaryOp` copies the cells of the area one by one**, in tiles of less than `2^31` bytes. -/
theorem execUnaryOp_spec {t : Tile d tsize} {opTile : Tile e tsize} {areaRes : Box (d + 1)}
    {areaOp : Box (e + 1)} (htsize : 0 < tsize) (ht : t.domain.Covers areaRes)
    (hop : opTile.domain.Covers areaOp) (hcard : areaOp.cells.card = areaRes.cells.card)
    (hsize : t.domain.cells.card * tsize < 2 ^ 31)
    (hsizeOp : opTile.domain.cells.card * tsize < 2 ^ 31) :
    ∃ t', t.execUnaryOp areaRes opTile areaOp = .ok t' ∧ t'.domain = t.domain ∧ ∀ p ∈ t.domain,
      t'.cellAt p =
        if p ∈ areaRes then opTile.cellAt (areaOp.pointAt (areaRes.index p)) else t.cellAt p := by
  have hloop : execLoop tsize opTile.contents areaRes.cells.card (.make t.domain areaRes tsize)
      (.make opTile.domain areaOp tsize) t.contents =
        copyLines tsize 1 opTile.contents (cellLines t.domain areaRes opTile.domain areaOp)
          t.contents := by
    rw [Miter.make_eq_stateAt htsize ht hsize, Miter.make_eq_stateAt htsize hop hsizeOp,
      execLoop_stateAt ht hop hcard areaRes.card_cells_pos (by omega), List.drop_zero]
  have hlen : (execLoop tsize opTile.contents areaRes.cells.card (.make t.domain areaRes tsize)
      (.make opTile.domain areaOp tsize) t.contents).length = t.domain.cells.card * tsize := by
    rw [hloop, length_copyLines (linesFit_cellLines tsize ht hop hcard t.length_contents),
      t.length_contents]
  refine ⟨_, dif_pos ⟨⟨ht, hop⟩, hcard, hlen⟩, rfl, fun p hp => ?_⟩
  have hcells := cell_copyLines_cellLines ht hop hcard t.length_contents hp
  rw [← hloop] at hcells
  exact hcells

end Tile

end Rasdaman
