import Rasdaman.Machinery.RowMajor
import Rasdaman.Raslib.Minterval

/-!
# Raslib/CellOffset — the cells of a box in linear memory

`cell_offset` numbers the cells of an `r_Minterval` with the last dimension running fastest, and
`cell_point` is the way back.  The first works in `r_Area`, the second with an `unsigned int` factor;
`index` and `pointAt` are the two without a bound.
-/

namespace Rasdaman

open RowMajor

namespace Box

variable {d : ℕ} {b : Box d} {p q : Point d} {n : ℕ}

/-- The extent of a dimension. -/
def extent (b : Box d) (i : Fin d) : ℕ := (b.high i - b.low i + 1).toNat

/-- `get_extent`. -/
def extents (b : Box d) : List ℕ := List.ofFn b.extent

/-- The coordinates of a point from the origin of a box on. -/
def coords (b : Box d) (p : Point d) : List ℕ := List.ofFn fun i => (p i - b.low i).toNat

/-- The number of a cell. -/
def index (b : Box d) (p : Point d) : ℕ := offset b.extents (b.coords p)

/-- The cell with a number. -/
def pointAt (b : Box d) (n : ℕ) : Point d :=
  fun i => b.low i + ((position b.extents n).getD i 0 : ℕ)

/-- `cell_offset`, of a point that lies in the box. -/
def cellOffset (b : Box d) (p : Point d) : ℕ :=
  (List.finRange d).foldl
    (fun off i => (off * b.extent i + (p i - b.low i).toNat) % areaModulus) 0

/-- The loop of `cell_point` over the dimensions still to compute. -/
def cellPointLoop : List ℕ → (factor off : ℕ) → List ℕ
  | [], _, _ => []
  | e :: es, factor, off =>
    off / (factor / e) :: cellPointLoop es (factor / e) (off % (factor / e))

/-- `cell_point`, of an offset below `cell_count`: the factor is an `unsigned int`. -/
def cellPoint (b : Box d) (off : ℕ) : Point d :=
  fun i => b.low i + ((cellPointLoop b.extents (b.extents.prod % 2 ^ 32) off).getD i 0 : ℕ)

/-! ## Numbers and points -/

@[simp] theorem length_extents (b : Box d) : b.extents.length = d := List.length_ofFn

@[simp] theorem length_coords (b : Box d) (p : Point d) : (b.coords p).length = d :=
  List.length_ofFn

theorem prod_extents (b : Box d) : b.extents.prod = b.cells.card := by
  rw [card_cells, extents, List.prod_ofFn]
  refine Finset.prod_congr rfl fun i _ => ?_
  rw [extent, sub_add_eq_add_sub]

theorem extent_pos (b : Box d) (i : Fin d) : 0 < b.extent i := by
  have := b.low_le_high i
  rw [extent]
  omega

theorem coords_lt (h : p ∈ b) : List.Forall₂ (· < ·) (b.coords p) b.extents := by
  refine List.forall₂_iff_get.mpr ⟨by simp, fun i hi _ => ?_⟩
  have := h ⟨i, by simpa using hi⟩
  simp only [coords, extents, extent, List.get_eq_getElem, List.getElem_ofFn]
  omega

theorem index_lt (h : p ∈ b) : b.index p < b.cells.card := by
  rw [← prod_extents]
  exact offset_lt (coords_lt h)

/-- Points of a box with one number are one point. -/
theorem index_inj (hp : p ∈ b) (hq : q ∈ b) (h : b.index p = b.index q) : p = q := by
  have hcoords := offset_inj (coords_lt hp) (coords_lt hq) h
  funext i
  have hi := congrFun (List.ofFn_injective hcoords) i
  have := hp i
  have := hq i
  omega

theorem coords_pointAt (b : Box d) (n : ℕ) : b.coords (b.pointAt n) = position b.extents n := by
  refine List.ext_getElem (by simp) fun i hi _ => ?_
  simp [coords, pointAt]

theorem index_pointAt (h : n < b.cells.card) : b.index (b.pointAt n) = n := by
  rw [index, coords_pointAt, offset_position (by rwa [prod_extents])]

theorem pointAt_mem (h : n < b.cells.card) : b.pointAt n ∈ b := by
  intro i
  have hpos : List.Forall₂ (· < ·) (position b.extents n) b.extents :=
    position_lt (by rwa [prod_extents])
  have hlt := (List.forall₂_iff_get.mp hpos).2 i (by simp) (by simp)
  have hext : b.extents.get ⟨i, by simp⟩ = b.extent i := by simp [extents]
  rw [hext, extent, List.get_eq_getElem] at hlt
  simp only at hlt
  have := b.low_le_high i
  rw [pointAt, List.getD_eq_getElem?_getD, List.getElem?_eq_getElem (by simp), Option.getD_some]
  omega

/-- **A point is the one its number names.** -/
theorem pointAt_index (h : p ∈ b) : b.pointAt (b.index p) = p :=
  index_inj (pointAt_mem (index_lt h)) h (index_pointAt (index_lt h))

/-- `cell_offset` is the number of the cell modulo `2^64`. -/
theorem cellOffset_eq (b : Box d) (p : Point d) : b.cellOffset p = b.index p % areaModulus := by
  have hfold : ∀ (l : List (Fin d)) (a : ℕ),
      l.foldl (fun off i => (off * b.extent i + (p i - b.low i).toNat) % areaModulus)
          (a % areaModulus) =
        (l.foldl (fun off i => off * b.extent i + (p i - b.low i).toNat) a) % areaModulus := by
    intro l
    induction l with
    | nil => exact fun a => rfl
    | cons i l ih =>
      intro a
      rw [List.foldl_cons, List.foldl_cons, ← ih]
      congr 1
      exact ((Nat.mod_modEq a areaModulus).mul_right _).add_right _
  have hzip : b.extents.zip (b.coords p) =
      (List.finRange d).map fun i => (b.extent i, (p i - b.low i).toNat) := by
    rw [extents, coords, List.ofFn_eq_map, List.ofFn_eq_map, List.zip_map']
  have hoff : _ = 0 * b.extents.prod + offset b.extents (b.coords p) :=
    foldl_eq_offset 0 (by simp)
  rw [hzip, List.foldl_map, Nat.zero_mul, Nat.zero_add] at hoff
  rw [index, ← hoff]
  exact hfold (List.finRange d) 0

theorem cellOffset_eq_index (h : p ∈ b) (hb : b.cells.card ≤ areaModulus) :
    b.cellOffset p = b.index p := by
  rw [cellOffset_eq, Nat.mod_eq_of_lt ((index_lt h).trans_le hb)]

theorem cellPointLoop_eq {es : List ℕ} (hes : ∀ e ∈ es, 0 < e) (off : ℕ) :
    cellPointLoop es es.prod off = position es off := by
  induction es generalizing off with
  | nil => rfl
  | cons e es ih =>
    obtain ⟨he, hes⟩ := List.forall_mem_cons.mp hes
    rw [cellPointLoop, position, List.prod_cons, Nat.mul_div_cancel_left _ he, ih hes]

/-- `cell_point` is right for a box of less than `2^32` cells. -/
theorem cellPoint_eq_pointAt (hb : b.cells.card < 2 ^ 32) (off : ℕ) :
    b.cellPoint off = b.pointAt off := by
  have hes : ∀ e ∈ b.extents, 0 < e := by
    intro e he
    obtain ⟨i, rfl⟩ := List.mem_ofFn.mp he
    exact b.extent_pos i
  funext i
  rw [cellPoint, Nat.mod_eq_of_lt (by rwa [prod_extents]), cellPointLoop_eq hes, pointAt]

/-! ## Rows -/

variable {area c : Box (d + 1)} {x y : Point (d + 1)}

/-- The number of cells in a row. -/
def width (b : Box (d + 1)) : ℕ := b.extent (Fin.last d)

theorem width_pos (b : Box (d + 1)) : 0 < b.width := b.extent_pos _

/-- The point of a row of the box where the row starts. -/
def rowStart (b : Box (d + 1)) (x : Point (d + 1)) : Point (d + 1) :=
  Function.update x (Fin.last d) (b.low (Fin.last d))

theorem rowStart_mem (h : x ∈ area) : area.rowStart x ∈ area := by
  intro i
  rcases eq_or_ne i (Fin.last d) with rfl | hi
  · simpa [rowStart] using area.low_le_high (Fin.last d)
  · simpa [rowStart, hi] using h i

theorem index_last (b : Box (d + 1)) (x : Point (d + 1)) :
    b.index x = offset (List.ofFn fun i : Fin d => b.extent i.castSucc)
      (List.ofFn fun i : Fin d => (x i.castSucc - b.low i.castSucc).toNat) * b.width +
        (x (Fin.last d) - b.low (Fin.last d)).toNat := by
  rw [index, extents, coords, List.ofFn_succ', List.ofFn_succ', List.concat_eq_append,
    List.concat_eq_append, offset_concat _ _ (by simp)]
  rfl

/-- The cells of a row follow each other. -/
theorem index_rowStart (hx : x ∈ area) (hc : c.Covers area) :
    c.index x = c.index (area.rowStart x) + (x (Fin.last d) - area.low (Fin.last d)).toNat := by
  have hlast := hx (Fin.last d)
  have hcov := hc (Fin.last d)
  have hinit : ∀ i : Fin d, area.rowStart x i.castSucc = x i.castSucc := fun i =>
    Function.update_of_ne (Fin.castSucc_lt_last i).ne _ _
  have hstart : area.rowStart x (Fin.last d) = area.low (Fin.last d) := Function.update_self ..
  rw [index_last, index_last, Nat.add_assoc]
  simp only [hinit, hstart]
  congr 1
  omega

private theorem row_div_mod {k j w : ℕ} (hj : j < w) : (k * w + j) / w = k ∧ (k * w + j) % w = j := by
  have hw : 0 < w := Nat.zero_lt_of_lt hj
  rw [Nat.mul_comm, Nat.mul_add_div hw, Nat.div_eq_of_lt hj, Nat.mul_add_mod, Nat.mod_eq_of_lt hj]
  exact ⟨rfl, rfl⟩

/-- The row of a point and the place in it. -/
theorem index_div_mod (hx : x ∈ area) :
    area.index (area.rowStart x) = area.index x / area.width * area.width ∧
      (x (Fin.last d) - area.low (Fin.last d)).toNat = area.index x % area.width := by
  have hlast := hx (Fin.last d)
  have hlt : (x (Fin.last d) - area.low (Fin.last d)).toNat < area.width := by
    rw [width, extent]
    omega
  have hrow := index_rowStart hx (Covers.refl area)
  have hstart := index_last area (area.rowStart x)
  rw [show area.rowStart x (Fin.last d) = area.low (Fin.last d) from Function.update_self ..,
    sub_self, Int.toNat_zero] at hstart
  obtain ⟨hdiv, hmod⟩ := row_div_mod (k := offset _ _) hlt
  rw [hrow, hstart, add_zero, hdiv, hmod]
  exact ⟨rfl, rfl⟩

/-- **A row of a box lies in adjacent cells of every box that covers it.** -/
theorem index_pointAt_row (hc : c.Covers area) {k j : ℕ} (hj : j < area.width)
    (hk : k * area.width + j < area.cells.card) :
    c.index (area.pointAt (k * area.width + j)) = c.index (area.pointAt (k * area.width)) + j := by
  have hmem := pointAt_mem hk
  have hidx := index_pointAt hk
  obtain ⟨hrow, hplace⟩ := index_div_mod hmem
  rw [hidx, (row_div_mod hj).1] at hrow
  rw [hidx, (row_div_mod hj).2] at hplace
  have hstart : area.rowStart (area.pointAt (k * area.width + j)) = area.pointAt (k * area.width) := by
    rw [← pointAt_index (rowStart_mem hmem), hrow]
  rw [index_rowStart hmem hc, hstart, hplace]

/-- The number of rows. -/
def rows (b : Box (d + 1)) : ℕ := b.cells.card / b.width

/-- The cells of a box fill whole rows. -/
theorem width_dvd_card (b : Box (d + 1)) : b.width ∣ b.cells.card := by
  rw [← prod_extents, extents]
  exact List.dvd_prod (List.mem_ofFn.mpr ⟨Fin.last d, rfl⟩)

theorem rows_mul_width (b : Box (d + 1)) : b.rows * b.width = b.cells.card :=
  Nat.div_mul_cancel b.width_dvd_card

theorem row_lt (b : Box (d + 1)) {k : ℕ} (hk : k < b.rows) : k * b.width < b.cells.card := by
  rw [← rows_mul_width]
  exact Nat.mul_lt_mul_of_pos_right hk b.width_pos

/-- A row ends inside of the box. -/
theorem row_add_lt (b : Box (d + 1)) {k j : ℕ} (hk : k < b.rows) (hj : j < b.width) :
    k * b.width + j < b.cells.card := by
  rw [← rows_mul_width]
  calc k * b.width + j < k * b.width + b.width := Nat.add_lt_add_left hj _
    _ = (k + 1) * b.width := (Nat.succ_mul ..).symm
    _ ≤ b.rows * b.width := Nat.mul_le_mul_right _ hk

/-! ## Copying an area row by row -/

section Copy

variable {α : Type} {e tsize : ℕ} {dst areaRes : Box (d + 1)} {src areaOp : Box (e + 1)}
variable {mem srcMem : List α}

/-- The rows of an area of one box and of an area of another, as numbers of their first cells. -/
def rowLines (dst areaRes : Box (d + 1)) (src areaOp : Box (e + 1)) : List (ℕ × ℕ) :=
  (List.range areaRes.rows).map fun k =>
    (dst.index (areaRes.pointAt (k * areaRes.width)), src.index (areaOp.pointAt (k * areaOp.width)))

theorem row_fits (hc : c.Covers area) {k : ℕ} (hk : k < area.rows) :
    c.index (area.pointAt (k * area.width)) + area.width ≤ c.cells.card := by
  have hj : area.width - 1 < area.width := Nat.sub_lt area.width_pos Nat.one_pos
  have hlt := area.row_add_lt hk hj
  have hidx := index_pointAt_row hc hj hlt
  have := index_lt (covers_iff.mp hc _ (pointAt_mem hlt))
  omega

theorem linesFit_rowLines (hdst : dst.Covers areaRes) (hsrc : src.Covers areaOp)
    (hw : areaOp.width = areaRes.width) (hrows : areaOp.rows = areaRes.rows)
    (hmem : mem.length = dst.cells.card * tsize) (hsmem : srcMem.length = src.cells.card * tsize) :
    LinesFit tsize areaRes.width srcMem (rowLines dst areaRes src areaOp) mem := by
  intro l hl
  obtain ⟨k, hk, rfl⟩ := List.mem_map.mp hl
  have hk := List.mem_range.mp hk
  have hres := row_fits hdst hk
  have hop := row_fits hsrc (hrows ▸ hk : k < areaOp.rows)
  rw [hw] at hop
  rw [hmem, hsmem]
  refine ⟨Nat.mul_le_mul_right _ hres, Nat.mul_le_mul_right _ ?_⟩
  simpa only [hw] using hop

/-- A cell that a row of an area goes through is the cell of a point of the area. -/
theorem mem_of_mem_row {p : Point (d + 1)} (hp : p ∈ c) (hc : c.Covers area) {k : ℕ}
    (hk : k < area.rows)
    (hl : c.index (area.pointAt (k * area.width)) ≤ c.index p)
    (hr : c.index p < c.index (area.pointAt (k * area.width)) + area.width) :
    p ∈ area ∧
      area.index p = k * area.width + (c.index p - c.index (area.pointAt (k * area.width))) := by
  set j := c.index p - c.index (area.pointAt (k * area.width)) with hj
  have hjw : j < area.width := by omega
  have hlt := area.row_add_lt hk hjw
  have hidx := index_pointAt_row hc hjw hlt
  have hpt : area.pointAt (k * area.width + j) = p :=
    index_inj (covers_iff.mp hc _ (pointAt_mem hlt)) hp (by omega)
  exact ⟨hpt ▸ pointAt_mem hlt, (congrArg area.index hpt).symm.trans (index_pointAt hlt)⟩

/-- **Copying the rows of an area copies its cells**, and leaves the others alone. -/
theorem cell_copyLines_rowLines (hdst : dst.Covers areaRes) (hsrc : src.Covers areaOp)
    (hw : areaOp.width = areaRes.width) (hrows : areaOp.rows = areaRes.rows)
    (hmem : mem.length = dst.cells.card * tsize) (hsmem : srcMem.length = src.cells.card * tsize)
    {p : Point (d + 1)} (hp : p ∈ dst) :
    cell tsize (copyLines tsize areaRes.width srcMem (rowLines dst areaRes src areaOp) mem)
        (dst.index p) =
      if p ∈ areaRes then cell tsize srcMem (src.index (areaOp.pointAt (areaRes.index p)))
      else cell tsize mem (dst.index p) := by
  have hfit : LinesFit tsize areaRes.width srcMem (rowLines dst areaRes src areaOp) mem :=
    linesFit_rowLines hdst hsrc hw hrows hmem hsmem
  split
  · next hin =>
    obtain ⟨hrow, hplace⟩ := index_div_mod hin
    have hcard := index_lt hin
    have hk : areaRes.index p / areaRes.width < areaRes.rows :=
      Nat.div_lt_of_lt_mul (by rwa [Nat.mul_comm, rows_mul_width])
    have hstart : areaRes.pointAt (areaRes.index p / areaRes.width * areaRes.width) =
        areaRes.rowStart p := by rw [← hrow, pointAt_index (rowStart_mem hin)]
    have hmod := Nat.mod_lt (areaRes.index p) areaRes.width_pos
    have hidx := index_rowStart hin hdst
    rw [hplace] at hidx
    refine cell_copyLines_of_mem hfit
      ⟨_, List.mem_map.mpr ⟨_, List.mem_range.mpr hk, rfl⟩, ?_, ?_⟩ fun l hl hc => ?_
    · rw [hstart]
      omega
    · rw [hstart]
      omega
    · obtain ⟨k, hk, rfl⟩ := List.mem_map.mp hl
      have hk := List.mem_range.mp hk
      obtain ⟨-, hnum⟩ := mem_of_mem_row hp hdst hk hc.1 hc.2
      have hjw : dst.index p - dst.index (areaRes.pointAt (k * areaRes.width)) < areaOp.width := by
        omega
      have hop := index_pointAt_row hsrc hjw (areaOp.row_add_lt (hrows ▸ hk) hjw)
      rw [hnum]
      simp only [hw] at hop ⊢
      rw [hop]
  · next hout =>
    refine cell_copyLines_of_notMem hfit fun l hl hc => hout ?_
    obtain ⟨k, hk, rfl⟩ := List.mem_map.mp hl
    exact (mem_of_mem_row hp hdst (List.mem_range.mp hk) hc.1 hc.2).1

end Copy

end Box

end Rasdaman
