import Rasdaman.Machinery.Iteration
import Rasdaman.Raslib.CellPoint
import Rasdaman.Raslib.MiterRange

/-!
# Raslib/MiterCells — the cells that `r_Miter` visits

The iterator as an object, with the address where it starts over.  `cells_eq`: calling `nextCell` until
`isDone` visits the points of the area once each in row-major order, and `reset` starts the walk over.
-/

namespace Rasdaman

open MiterDirect

/-- `r_Miter` with `firstCell`, the address of the first cell of the area. -/
structure MiterObject extends Miter where
  firstCell : ℤ

namespace MiterObject

/-- `reset`. -/
def reset (it : MiterObject) : MiterObject :=
  ⟨⟨it.incArr.map fun a => { a with curr := 0 }, false, it.firstCell⟩, it.firstCell⟩

/-- The constructor. -/
def create {d : ℕ} (newAreaIter newAreaTile : Box d) (newCellSize : ℕ) (newFirstCell : ℤ) :
    MiterObject :=
  let r := Miter.setup newCellSize 1 newCellSize 0 (spans newAreaTile newAreaIter)
  reset ⟨⟨r.1, false, newFirstCell⟩, newFirstCell + r.2⟩

/-- `nextCell`. -/
def nextCell (it : MiterObject) : ℤ × MiterObject :=
  (it.toMiter.nextCell.1, ⟨it.toMiter.nextCell.2, it.firstCell⟩)

/-- The addresses that `nextCell` returns until `isDone`, and the iterator then; `none` if that takes
more than `fuel` calls. -/
def cells : (fuel : ℕ) → MiterObject → Option (List ℤ × MiterObject)
  | 0, it => if it.done then some ([], it) else none
  | fuel + 1, it =>
    if it.done then some ([], it)
    else (cells fuel it.nextCell.2).map fun r => (it.nextCell.1 :: r.1, r.2)

theorem cells_eq_values (fuel : ℕ) (it : MiterObject) :
    cells fuel it = Iteration.values (fun it : MiterObject => it.done) nextCell fuel it := by
  induction fuel generalizing it with
  | zero => rfl
  | succ fuel ih => rw [cells, Iteration.values, ih]

/-! ## Starting over -/

theorem map_reset_incrHigher (as : List MiterInc) (cell : ℤ) :
    (Miter.incrHigher as cell).1.map (fun a => { a with curr := 0 }) =
      as.map fun a => { a with curr := 0 } := by
  induction as generalizing cell with
  | nil => rfl
  | cons a as ih =>
    rw [Miter.incrHigher]
    split
    · rfl
    · simp only [List.map_cons, ih]

/-- A call of `nextCell` does not change what `reset` leads to. -/
theorem reset_nextCell (it : MiterObject) : it.nextCell.2.reset = it.reset := by
  obtain ⟨⟨incArr, done, currCell⟩, firstCell⟩ := it
  rw [nextCell, Miter.nextCell, reset, reset]
  cases done with
  | true => rfl
  | false =>
    cases incArr with
    | nil => rfl
    | cons a as =>
      simp only [Bool.false_eq_true, if_false]
      split
      · simp only [List.map_cons, map_reset_incrHigher]
      · rfl

theorem reset_iterate_nextCell (it : MiterObject) (k : ℕ) :
    ((fun it : MiterObject => it.nextCell.2)^[k] it).reset = it.reset := by
  induction k generalizing it with
  | zero => rfl
  | succ k ih => rw [Function.iterate_succ_apply, ih, reset_nextCell]

/-! ## The walk -/

/-- Addresses are counted from any cell. -/
theorem incrHigher_add (as : List MiterInc) (base cell : ℤ) :
    Miter.incrHigher as (base + cell) =
      ((Miter.incrHigher as cell).1, base + (Miter.incrHigher as cell).2.1,
        (Miter.incrHigher as cell).2.2) := by
  induction as generalizing cell with
  | nil => rfl
  | cons a as ih =>
    rw [Miter.incrHigher, Miter.incrHigher, add_assoc, ih]
    split
    · rfl
    · rfl

/-- An iterator over a tile that begins at address `base`. -/
def based (base firstCell : ℤ) (it : Miter) : MiterObject :=
  ⟨{ it with currCell := base + it.currCell }, firstCell⟩

theorem nextCell_based (base firstCell : ℤ) (it : Miter) :
    (based base firstCell it).nextCell = (base + it.nextCell.1, based base firstCell it.nextCell.2) := by
  obtain ⟨incArr, done, currCell⟩ := it
  simp only [nextCell, based, Miter.nextCell]
  cases done with
  | true => rfl
  | false =>
    cases incArr with
    | nil => rfl
    | cons a as =>
      simp only [Bool.false_eq_true, if_false, add_assoc, incrHigher_add]
      split
      · simp only [← apply_ite (base + ·)]
      · rfl

section Area

variable {d : ℕ} {tile area : Box (d + 1)} {cellSize : ℕ} {base : ℤ}

/-- The points of an area in row-major order. -/
def rowMajor (area : Box (d + 1)) : List (Point (d + 1)) :=
  (List.range area.cells.card).map area.pointAt

theorem length_rowMajor (area : Box (d + 1)) : (rowMajor area).length = area.cells.card := by
  rw [rowMajor, List.length_map, List.length_range]

theorem mem_rowMajor {p : Point (d + 1)} : p ∈ rowMajor area ↔ p ∈ area := by
  rw [rowMajor, List.mem_map]
  constructor
  · rintro ⟨n, hn, rfl⟩
    exact Box.pointAt_mem (List.mem_range.mp hn)
  · exact fun hp => ⟨_, List.mem_range.mpr (Box.index_lt hp), Box.pointAt_index hp⟩

/-- Each point stands in the list once, and before the points that follow it. -/
theorem pairwise_rowMajor (area : Box (d + 1)) :
    (rowMajor area).Pairwise fun p q => toLex p < toLex q := by
  refine List.pairwise_map.mpr (List.pairwise_lt_range.imp_of_mem fun hm hn hlt => ?_)
  have hm := List.mem_range.mp hm
  have hn := List.mem_range.mp hn
  refine (lt_trichotomy _ _).resolve_right (not_or.mpr ⟨fun heq => ?_, fun hgt => ?_⟩)
  · have hindex := congrArg area.index (toLex.injective heq)
    rw [Box.index_pointAt hm, Box.index_pointAt hn] at hindex
    omega
  · have hindex := Box.index_lt_index (Box.pointAt_mem hn) (Box.pointAt_mem hm) hgt
    rw [Box.index_pointAt hm, Box.index_pointAt hn] at hindex
    omega

/-- The iterator at the point of the area with number `n`. -/
def atPoint (tile area : Box (d + 1)) (cellSize : ℕ) (base : ℤ) (n : ℕ) : MiterObject :=
  based base (base + addr cellSize (spans tile area) 0) (Miter.stateAt tile area cellSize n)

theorem map_reset_placedInc (prev inc : ℤ) (sps : List MiterSpan) (n : ℕ) :
    (Miter.placedInc cellSize prev inc sps n).map (fun a => { a with curr := 0 }) =
      Miter.placedInc cellSize prev inc sps 0 := by
  induction sps generalizing prev inc n with
  | nil => rfl
  | cons sp sps ih =>
    rw [Miter.placedInc, Miter.placedInc, List.map_cons, ih, Nat.zero_mod, Nat.zero_div]
    rfl

theorem reset_atPoint (n : ℕ) :
    (atPoint tile area cellSize base n).reset = atPoint tile area cellSize base 0 := by
  rw [atPoint, reset, based, Miter.stateAt, map_reset_placedInc]
  rfl

/-- The iterator starts at the first point of the area. -/
theorem create_eq_atPoint (h : tile.Covers area)
    (hsize : tile.cells.card * max cellSize 1 < 2 ^ 31) :
    create area tile cellSize base = atPoint tile area cellSize base 0 := by
  have hmake := Miter.make_of_inRange h (Miter.inRange_of_bytes h hsize)
  have hinc := congrArg Miter.incArr hmake
  have hcell := congrArg Miter.currCell hmake
  simp only [Miter.make, Miter.stateAt] at hinc hcell
  rw [create, hinc, hcell]
  exact reset_atPoint 0

/-- Each call returns the address of a point. -/
theorem numbered_atPoint (cellSize : ℕ) (base : ℤ) (h : tile.Covers area) :
    Iteration.Numbered (fun it : MiterObject => it.done) nextCell area.cells.card
      (fun n => base + (cellSize * tile.index (area.pointAt n) : ℕ))
      (fun n it => n < area.cells.card ∧ it = atPoint tile area cellSize base n) where
  not_done := fun ⟨_, hit⟩ => hit ▸ rfl
  returns := by
    rintro n it ⟨hn, rfl⟩ -
    rw [atPoint, nextCell_based, (Miter.nextCell_stateAt h hn).1]
  moves := by
    rintro n it ⟨hn, rfl⟩ hlt
    refine ⟨hlt, ?_⟩
    rw [atPoint, nextCell_based, (Miter.nextCell_stateAt h hn).2.1 hlt, atPoint]
  ends := by
    rintro n it ⟨hn, rfl⟩ hlast
    rw [atPoint, nextCell_based]
    exact (Miter.nextCell_stateAt h hn).2.2 hlast

/-- **Calling `nextCell` until `isDone` visits the points of the area** once each in row-major order, and
after `reset` once more, in tiles of less than `2^31` bytes. -/
theorem cells_eq (h : tile.Covers area) (hsize : tile.cells.card * max cellSize 1 < 2 ^ 31) (base : ℤ)
    (k : ℕ) :
    ∃ points : List (Point (d + 1)), points.Pairwise (fun p q => toLex p < toLex q) ∧
      (∀ p, p ∈ points ↔ p ∈ area) ∧ points.length = area.cells.card ∧
      let it := create area tile cellSize base
      let addresses := points.map fun p => base + (cellSize * tile.cellOffset p : ℕ)
      (∃ it', it.cells area.cells.card = some (addresses, it')) ∧
        ∃ it', ((fun it : MiterObject => it.nextCell.2)^[k] it).reset.cells area.cells.card =
          some (addresses, it') := by
  have haddr : (rowMajor area).map (fun p => base + (cellSize * tile.cellOffset p : ℕ)) =
      (List.range' 0 area.cells.card).map fun k =>
        base + (cellSize * tile.index (area.pointAt k) : ℕ) := by
    have hcard : tile.cells.card ≤ areaModulus :=
      ((Nat.le_mul_of_pos_right _ (lt_max_of_lt_right Nat.one_pos)).trans_lt hsize).le.trans (by decide)
    rw [rowMajor, List.map_map, ← List.range_eq_range']
    refine List.map_congr_left fun n hn => ?_
    have hmem := Box.covers_iff.mp h _ (Box.pointAt_mem (List.mem_range.mp hn))
    rw [Function.comp_apply, Box.cellOffset_eq_index hmem hcard]
  obtain ⟨it', hcells⟩ := (numbered_atPoint cellSize base h).values_eq ⟨area.card_cells_pos, rfl⟩
    area.card_cells_pos (Nat.zero_add _).symm
  rw [← cells_eq_values] at hcells
  refine ⟨rowMajor area, pairwise_rowMajor area, fun p => mem_rowMajor, length_rowMajor area, ?_⟩
  intro it addresses
  simp only [it, addresses, haddr, reset_iterate_nextCell, create_eq_atPoint h hsize, reset_atPoint]
  exact ⟨⟨it', hcells⟩, it', hcells⟩

/-- The last two columns of three, in two rows, with a `reset` on the way. -/
theorem cells_eq_twoColumns :
    let tile : Box 2 := ⟨![0, 0], ![1, 2], by decide⟩
    let area : Box 2 := ⟨![0, 1], ![1, 2], by decide⟩
    ∃ points : List (Point 2), points.Pairwise (fun p q => toLex p < toLex q) ∧
      (∀ p, p ∈ points ↔ p ∈ area) ∧ points.length = area.cells.card ∧
      let it := create area tile 4 1000
      let addresses := points.map fun p => (1000 : ℤ) + (4 * tile.cellOffset p : ℕ)
      (∃ it', it.cells area.cells.card = some (addresses, it')) ∧
        ∃ it', ((fun it : MiterObject => it.nextCell.2)^[3] it).reset.cells area.cells.card =
          some (addresses, it') :=
  cells_eq (by decide) (by rw [Box.card_cells]; decide) 1000 3

end Area

end MiterObject

end Rasdaman
