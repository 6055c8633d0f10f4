import Mathlib.Algebra.Order.BigOperators.Ring.List
import Rasdaman.Raslib.Miterd

/-!
# Raslib/Miter — the iterator that adds increments

`r_Miter` walks through the points of an area of an array like `r_MiterDirect`, but keeps only the
address of the current cell and, for each dimension, what to add when the dimension moves on.  The
increments and the first offset are `int`s, the intermediate increment is an `unsigned int`.
-/

namespace Rasdaman

open MiterDirect

/-- Assignment to an `int`. -/
def toInt (x : ℤ) : ℤ := x.bmod (2 ^ 32)

/-- Assignment to an `unsigned int`. -/
def toUInt (x : ℤ) : ℤ := x % 2 ^ 32

theorem toInt_of_lt {x : ℤ} (h0 : 0 ≤ x) (h : x < 2 ^ 31) : toInt x = x := by
  rw [toInt, Int.bmod_def]
  omega

theorem toUInt_of_lt {x : ℤ} (h0 : 0 ≤ x) (h : x < 2 ^ 32) : toUInt x = x :=
  Int.emod_eq_of_lt h0 h

/-- `incArrElem`. -/
structure MiterInc where
  rep : ℤ
  inc : ℤ
  curr : ℤ

/-- `r_Miter`; the dimensions stand in reverse order, the last one first.  The counter of the last
dimension is `lowCount`. -/
structure Miter where
  incArr : List MiterInc
  done : Bool
  currCell : ℤ

namespace Miter

/-- The loop of the constructor: the increments, and the offset of the first cell. -/
def setup (cellSize : ℕ) : (prevTIncIter incIter firstOff : ℤ) → List MiterSpan → List MiterInc × ℤ
  | _, _, firstOff, [] => ([], firstOff)
  | prevTIncIter, incIter, firstOff, sp :: sps =>
    let rep := toInt (sp.high - sp.low + 1)
    let firstOff := toInt (firstOff + (sp.low - sp.origin) * prevTIncIter * cellSize)
    let tIncIter := toInt (sp.extent * prevTIncIter)
    let incIter' := toUInt (toUInt (tIncIter - rep * prevTIncIter) * cellSize)
    let rest := setup cellSize tIncIter incIter' firstOff sps
    (⟨rep, toInt incIter, 0⟩ :: rest.1, rest.2)

/-- The constructor; addresses are relative to the first cell of the array. -/
def make {d : ℕ} (total iter : Box d) (cellSize : ℕ) : Miter :=
  let r := setup cellSize 1 cellSize 0 (spans total iter)
  ⟨r.1, false, r.2⟩

/-- The loop of `nextCell` over the other dimensions. -/
def incrHigher : List MiterInc → ℤ → List MiterInc × ℤ × Bool
  | [], cell => ([], cell, true)
  | a :: as, cell =>
    if a.curr + 1 < a.rep then ({ a with curr := a.curr + 1 } :: as, cell + a.inc, false)
    else
      let r := incrHigher as (cell + a.inc)
      ({ a with curr := 0 } :: r.1, r.2)

/-- `nextCell`: the current cell, and the iterator moved on. -/
def nextCell (it : Miter) : ℤ × Miter :=
  if it.done then (it.currCell, it)
  else match it.incArr with
    | [] => (it.currCell, { it with done := true })
    | a :: as =>
      if a.curr + 1 = a.rep then
        let r := incrHigher as (it.currCell + a.inc)
        (it.currCell, ⟨{ a with curr := 0 } :: r.1, r.2.2, if r.2.2 then it.currCell else r.2.1⟩)
      else (it.currCell, ⟨{ a with curr := a.curr + 1 } :: as, false, it.currCell + a.inc⟩)

/-! ## The state at a point -/

/-- The increments of the dimensions at the point with number `n`: `prev` cells lie between two points
of the first of them, `inc` is added when it moves on. -/
def placedInc (cellSize : ℕ) : (prev inc : ℤ) → List MiterSpan → ℕ → List MiterInc
  | _, _, [], _ => []
  | prev, inc, sp :: sps, n =>
    ⟨sp.iterExtent, inc, (n % sp.iterExtent : ℕ)⟩ ::
      placedInc cellSize (sp.extent * prev) ((sp.extent * prev - sp.iterExtent * prev) * cellSize) sps
        (n / sp.iterExtent)

/-- An area that lies in the array, dimension by dimension. -/
def Inside (sps : List MiterSpan) : Prop :=
  ∀ sp ∈ sps, sp.origin ≤ sp.low ∧ sp.low ≤ sp.high ∧ sp.high < sp.origin + sp.extent

/-- The number of cells of the array. -/
def total (sps : List MiterSpan) : ℤ := (sps.map MiterSpan.extent).prod

theorem total_pos {sps : List MiterSpan} (h : Inside sps) : 0 < total sps := by
  induction sps with
  | nil => exact Int.one_pos
  | cons sp sps ih =>
    obtain ⟨hsp, hsps⟩ := List.forall_mem_cons.mp h
    have hmul : total (sp :: sps) = sp.extent * total sps := by simp [total]
    rw [hmul]
    exact Int.mul_pos (by omega) (ih hsps)

theorem iterExtent_cast {sp : MiterSpan} (h : sp.low ≤ sp.high) :
    (sp.iterExtent : ℤ) = sp.high - sp.low + 1 := by
  rw [MiterSpan.iterExtent]
  omega

/-- **Carrying goes from a point to the next one**, and overflows at the last. -/
theorem incrHigher_placed (cellSize : ℕ) {sps : List MiterSpan} (h : Inside sps)
    (prev inc cell : ℤ) {n : ℕ} (hn : n < points sps) :
    (n + 1 < points sps → incrHigher (placedInc cellSize prev inc sps n) cell =
      (placedInc cellSize prev inc sps (n + 1),
        cell + (inc - prev * cellSize) +
          (addr (prev * cellSize) sps (n + 1) - addr (prev * cellSize) sps n), false)) ∧
      (n + 1 = points sps → (incrHigher (placedInc cellSize prev inc sps n) cell).2.2 = true) := by
  induction sps generalizing prev inc cell n with
  | nil =>
    rw [points, List.map_nil, List.prod_nil] at hn ⊢
    exact ⟨fun h => absurd h (by omega), fun _ => rfl⟩
  | cons sp sps ih =>
    obtain ⟨⟨hlow, hle, hhigh⟩, hsps⟩ := List.forall_mem_cons.mp h
    have hpos : 0 < sp.iterExtent := by rw [MiterSpan.iterExtent]; omega
    have hprod : points (sp :: sps) = sp.iterExtent * points sps := rfl
    have hdiv : n / sp.iterExtent < points sps := Nat.div_lt_of_lt_mul (by rwa [← hprod])
    obtain ⟨hnext, hover⟩ := ih hsps (sp.extent * prev)
      ((sp.extent * prev - sp.iterExtent * prev) * cellSize) (cell + inc) hdiv
    have htest : ((n % sp.iterExtent : ℕ) : ℤ) + 1 < sp.iterExtent ↔
        n % sp.iterExtent + 1 < sp.iterExtent := by omega
    rw [placedInc, incrHigher]
    simp only [htest]
    rcases succ_digits (n := n) hpos with ⟨hin, hmod, hq⟩ | ⟨hout, hmod, hq⟩
    · rw [if_pos hin]
      refine ⟨fun _ => ?_, fun h => ?_⟩
      · rw [placedInc, hmod, hq, addr, addr, hmod, hq, Nat.cast_succ]
        refine Prod.ext rfl (Prod.ext ?_ rfl)
        ring
      · rw [h, hprod, Nat.mul_mod_right] at hmod
        omega
    · rw [if_neg (by omega)]
      refine ⟨fun h => ?_, fun h => ?_⟩
      · have hlt : n / sp.iterExtent + 1 < points sps := by
          rw [← hq]
          exact Nat.div_lt_of_lt_mul (by rwa [← hprod])
        have hlast : ((n % sp.iterExtent : ℕ) : ℤ) = sp.iterExtent - 1 := by omega
        rw [hnext hlt, placedInc, addr, addr, hmod, hq, Nat.cast_zero, hlast]
        refine Prod.ext rfl (Prod.ext ?_ rfl)
        simp only
        rw [show prev * (cellSize : ℤ) * sp.extent = sp.extent * prev * cellSize by ring]
        ring
      · have heq : n / sp.iterExtent + 1 = points sps := by
          rw [← hq, h, hprod, Nat.mul_div_cancel_left _ hpos]
        exact hover heq

/-! ## Walking through an area -/

section Area

variable {d : ℕ} (tile area : Box (d + 1)) (cellSize : ℕ)

/-- The iterator at the point of the area with number `n`. -/
def stateAt (n : ℕ) : Miter :=
  ⟨placedInc cellSize 1 cellSize (spans tile area) n, false, addr cellSize (spans tile area) n⟩

variable {tile area cellSize}

theorem inside_spans (h : tile.Covers area) : Inside (spans tile area) := by
  intro sp hsp
  obtain ⟨i, rfl⟩ := List.mem_ofFn.mp (List.mem_reverse.mp hsp)
  have := h i
  have := area.low_le_high i
  simp only
  omega

theorem total_spans (tile area : Box (d + 1)) : total (spans tile area) = tile.cells.card := by
  rw [total, spans, List.map_reverse, List.prod_reverse, List.map_ofFn, List.prod_ofFn,
    Box.card_cells, Nat.cast_prod]
  refine Finset.prod_congr rfl fun i _ => ?_
  have := tile.low_le_high i
  simp only [Function.comp_apply]
  omega

/-- **`nextCell` returns the cell of the point and goes on to the next one.** -/
theorem nextCell_stateAt (h : tile.Covers area) {n : ℕ} (hn : n < area.cells.card) :
    (nextCell (stateAt tile area cellSize n)).1 = (cellSize * tile.index (area.pointAt n) : ℕ) ∧
      (n + 1 < area.cells.card → (nextCell (stateAt tile area cellSize n)).2 =
        stateAt tile area cellSize (n + 1)) ∧
      (n + 1 = area.cells.card → (nextCell (stateAt tile area cellSize n)).2.done = true) := by
  have hinside := inside_spans h
  have hpoints := points_spans tile area
  have haddr : addr cellSize (spans tile area) n = (cellSize * tile.index (area.pointAt n) : ℕ) :=
    addr_spans h hn
  rw [spans_eq] at hinside hpoints haddr
  obtain ⟨⟨hlow, hle, hhigh⟩, hrest⟩ := List.forall_mem_cons.mp hinside
  set sp := lastSpan tile area with hsp
  set sps := initSpans tile area with hsps
  have hpos : 0 < sp.iterExtent := by rw [MiterSpan.iterExtent]; omega
  have hprod : sp.iterExtent * points sps = area.cells.card := hpoints
  have hdiv : n / sp.iterExtent < points sps := Nat.div_lt_of_lt_mul (by rwa [hprod])
  have htest : ((n % sp.iterExtent : ℕ) : ℤ) + 1 = sp.iterExtent ↔
      n % sp.iterExtent + 1 = sp.iterExtent := by omega
  obtain ⟨hnext, hover⟩ := incrHigher_placed cellSize hrest (sp.extent * 1)
    ((sp.extent * 1 - sp.iterExtent * 1) * cellSize) (addr cellSize (sp :: sps) n + cellSize) hdiv
  simp only [stateAt, spans_eq, ← hsp, ← hsps, placedInc, nextCell, htest]
  rw [if_neg Bool.false_ne_true]
  rcases succ_digits (n := n) hpos with ⟨hin, hmod, hq⟩ | ⟨hout, hmod, hq⟩
  · rw [if_neg (by omega)]
    refine ⟨haddr, fun _ => ?_, fun hlast => ?_⟩
    · simp only [hmod, hq, addr, Nat.cast_succ, Miter.mk.injEq, true_and]
      ring
    · rw [hlast, ← hprod, Nat.mul_mod_right] at hmod
      omega
  · rw [if_pos hout]
    refine ⟨haddr, fun hlt => ?_, fun hlast => ?_⟩
    · have hlt : n / sp.iterExtent + 1 < points sps := by
        rw [← hq]
        exact Nat.div_lt_of_lt_mul (by rwa [hprod])
      have hdigit : ((n % sp.iterExtent : ℕ) : ℤ) = sp.iterExtent - 1 := by omega
      rw [hnext hlt]
      simp only [hmod, hq, addr, hdigit, Nat.cast_zero, Bool.false_eq_true, if_false, Miter.mk.injEq,
        true_and]
      rw [show sp.extent * 1 * (cellSize : ℤ) = cellSize * sp.extent by ring]
      ring
    · have heq : n / sp.iterExtent + 1 = points sps := by
        rw [← hq, hlast, ← hprod, Nat.mul_div_cancel_left _ hpos]
      exact hover heq

end Area

end Miter

end Rasdaman
