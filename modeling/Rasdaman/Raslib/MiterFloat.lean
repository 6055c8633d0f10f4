import Mathlib.Algebra.Order.Floor.Semiring
import Mathlib.Data.Rat.Floor
import Rasdaman.Raslib.MiterCells
import Rasdaman.Raslib.MiterStep

/-!
# Raslib/MiterFloat — the iterator with fractional steps

`r_MiterFloat` visits a cell of a source area for each point of a destination area.  The position in a
dimension is a fixed-point number with 30 bits after the point; the cell pointers follow it step by
step, and a dimension that is finished takes the pointer of the one that moves on.  `cells_scaled`: the cell
visited for a point has the coordinates that multiplying with the step gives.
-/

namespace Rasdaman

open MiterDirect RowMajor

/-- `r_FixedPointNumber`. -/
structure FixedPoint where
  intPart : ℤ
  fracPart : ℤ
  deriving DecidableEq

namespace FixedPoint

/-- `carryPos`, and what `fixOne` is. -/
def carryPos : ℤ := 2 ^ 30

/-- A conversion of a `double` to an `r_Range`. -/
def trunc (d : ℚ) : ℤ := if 0 ≤ d then ⌊d⌋ else ⌈d⌉

/-- `fmod`. -/
def fmod (x y : ℚ) : ℚ := x - y * trunc (x / y)

/-- `init`, with the numbers of `double` read as exact. -/
def init (d : ℚ) : FixedPoint := ⟨trunc d, trunc (fmod (carryPos * d) carryPos)⟩

/-- `stepForwardFlag`: the number moved on, and whether the fractions carried; `carryPos` is tested and
masked as a bit of the fraction. -/
def stepForwardFlag (pos f : FixedPoint) : FixedPoint × Bool :=
  let intPart := pos.intPart + f.intPart
  let fracPart := pos.fracPart + f.fracPart
  if fracPart / carryPos % 2 = 1 then (⟨intPart + 1, fracPart % carryPos⟩, true)
  else (⟨intPart, fracPart⟩, false)

/-- The number with the given number of units. -/
def units (q : ℤ) : FixedPoint := ⟨q / carryPos, q % carryPos⟩

/-- The steps of 30 bits nearest below the quotient of two extents. -/
def quotient (s d : ℕ) : ℕ := 2 ^ 30 * s / d

theorem init_intCast (z : ℤ) : init z = ⟨z, 0⟩ := by
  have htrunc : ∀ z : ℤ, trunc z = z := fun z => by
    rw [trunc, Int.floor_intCast, Int.ceil_intCast, ite_self]
  have hpos : (carryPos : ℚ) ≠ 0 := by norm_num [carryPos]
  rw [init, htrunc, fmod, mul_div_cancel_left₀ _ hpos, htrunc, sub_self]
  rfl

theorem trunc_of_nonneg {d : ℚ} (h : 0 ≤ d) : trunc d = ⌊d⌋ := if_pos h

/-- The step is the quotient, truncated. -/
theorem init_div (s d : ℕ) : init ((s : ℚ) / d) = units (quotient s d) := by
  have hpos : (0 : ℚ) < carryPos := by norm_num [carryPos]
  have hint : trunc ((s : ℚ) / d) = (quotient s d : ℤ) / carryPos := by
    rw [trunc_of_nonneg (by positivity), Rat.floor_natCast_div_natCast, quotient, carryPos]
    norm_cast
    rw [Nat.div_div_eq_div_mul, Nat.mul_comm d, Nat.mul_div_mul_left _ _ (by norm_num)]
  have hfrac : trunc (fmod (carryPos * ((s : ℚ) / d)) carryPos) = (quotient s d : ℤ) % carryPos := by
    have hscaled : (carryPos : ℚ) * ((s : ℚ) / d) = ((2 ^ 30 * s : ℕ) : ℚ) / d := by
      rw [carryPos]
      push_cast
      ring
    have hfloor : ⌊((2 ^ 30 * s : ℕ) : ℚ) / d⌋ = (quotient s d : ℤ) := by
      rw [Rat.floor_natCast_div_natCast]
      rfl
    have hnonneg : 0 ≤ fmod (carryPos * ((s : ℚ) / d)) carryPos := by
      rw [fmod, mul_div_cancel_left₀ _ hpos.ne', trunc_of_nonneg (by positivity), ← mul_sub]
      exact mul_nonneg hpos.le (sub_nonneg.mpr (Int.floor_le _))
    rw [trunc_of_nonneg hnonneg, fmod, mul_div_cancel_left₀ _ hpos.ne', hint, hscaled,
      ← Int.cast_mul, Int.floor_sub_intCast, hfloor, Int.emod_def]
  rw [init, hint, hfrac]
  rfl

/-- **Moving on adds units**, and carries where their number passes a whole one. -/
theorem stepForwardFlag_units (low p q : ℤ) :
    stepForwardFlag ⟨low + p / carryPos, p % carryPos⟩ (units q) =
      (⟨low + (p + q) / carryPos, (p + q) % carryPos⟩,
        decide ((p + q) / carryPos = p / carryPos + q / carryPos + 1)) := by
  have hbit : (p % carryPos + q % carryPos) / carryPos % 2 = 1 ↔
      (p + q) / carryPos = p / carryPos + q / carryPos + 1 := by
    rw [carryPos]
    omega
  by_cases h : (p % carryPos + q % carryPos) / carryPos % 2 = 1
  · rw [stepForwardFlag, units]
    simp only [if_pos h, decide_eq_true (hbit.mp h), Prod.mk.injEq, FixedPoint.mk.injEq, and_true]
    rw [carryPos] at h ⊢
    omega
  · rw [stepForwardFlag, units]
    simp only [if_neg h, decide_eq_false (mt hbit.mpr h), Prod.mk.injEq, FixedPoint.mk.injEq, and_true]
    rw [carryPos] at h ⊢
    omega

end FixedPoint

/-- `iter_desc`; `cell` is an address. -/
structure IterDesc where
  min : FixedPoint
  pos : FixedPoint
  step : FixedPoint
  countSteps : ℤ
  maxSteps : ℤ
  dimStep : ℤ
  scaleStep : ℤ
  cell : ℤ

/-- One dimension of the tile and of the two areas. -/
structure ScaledSpan where
  origin : ℤ
  extent : ℕ
  low : ℤ
  sourceExtent : ℕ
  destExtent : ℕ

/-- `r_MiterFloat`; the dimensions stand in reverse order, the last one first. -/
structure MiterFloat where
  iterDesc : List IterDesc
  currentCell : ℤ
  firstCell : ℤ
  done : Bool

namespace MiterFloat

/-- The loop of the constructor: the dimensions and the offset of the first cell.  `step` is an
`r_Bytes`. -/
def setup : (step : ℕ) → List ScaledSpan → List IterDesc × ℤ
  | _, [] => ([], 0)
  | step, sp :: sps =>
    let rest := setup (step * sp.extent % 2 ^ 32) sps
    let idStep := FixedPoint.init ((sp.sourceExtent : ℚ) / sp.destExtent)
    (⟨.init sp.low, ⟨0, 0⟩, idStep, 0, sp.destExtent, step, step * idStep.intPart, 0⟩ :: rest.1,
      step * (sp.low - sp.origin) + rest.2)

/-- `reset`. -/
def reset (it : MiterFloat) : MiterFloat :=
  { it with
    iterDesc := it.iterDesc.map fun a =>
      { a with pos := a.min, cell := it.firstCell, countSteps := a.maxSteps }
    done := false }

/-- The dimensions of a tile, of an area of it and of a destination area, the last one first. -/
def scaledSpans {d : ℕ} (tileDomain sourceDomain destDomain : Box d) : List ScaledSpan :=
  (List.ofFn fun i => ⟨tileDomain.low i, tileDomain.extent i, sourceDomain.low i,
    sourceDomain.extent i, destDomain.extent i⟩).reverse

/-- The constructor; `contents` is the address of the first cell of the tile. -/
def create {d : ℕ} (contents : ℤ) (cellSize : ℕ) (tileDomain sourceDomain destDomain : Box d) :
    MiterFloat :=
  let r := setup cellSize (scaledSpans tileDomain sourceDomain destDomain)
  reset ⟨r.1, 0, contents + r.2, false⟩

/-- The loops of `nextCell` from one dimension down: the dimensions, and whether all of them are
finished. -/
def advance : List IterDesc → List IterDesc × Bool
  | [] => ([], true)
  | a :: as =>
    if a.countSteps - 1 ≠ 0 then
      let moved := a.pos.stepForwardFlag a.step
      let cell := if moved.2 then a.cell + a.dimStep else a.cell
      ({ a with countSteps := a.countSteps - 1, pos := moved.1, cell := cell + a.scaleStep } :: as,
        false)
    else
      let r := advance as
      let cell := if r.2 then a.cell else (r.1.head?.map (·.cell)).getD 0
      ({ a with pos := a.min, countSteps := a.maxSteps, cell } :: r.1, r.2)

/-- `nextCell`. -/
def nextCell (it : MiterFloat) : ℤ × MiterFloat :=
  if it.done then (it.currentCell, it)
  else
    let currentCell := (it.iterDesc.head?.map (·.cell)).getD 0
    let r := advance it.iterDesc
    (currentCell, { it with iterDesc := r.1, currentCell, done := r.2 })

/-- The addresses that `nextCell` returns until `isDone`, and the iterator then; `none` if that takes
more than `fuel` calls. -/
def cells : (fuel : ℕ) → MiterFloat → Option (List ℤ × MiterFloat)
  | 0, it => if it.done then some ([], it) else none
  | fuel + 1, it =>
    if it.done then some ([], it)
    else (cells fuel it.nextCell.2).map fun r => (it.nextCell.1 :: r.1, r.2)

theorem cells_eq_values (fuel : ℕ) (it : MiterFloat) :
    cells fuel it = Iteration.values (fun it : MiterFloat => it.done) nextCell fuel it := by
  induction fuel generalizing it with
  | zero => rfl
  | succ fuel ih => rw [cells, Iteration.values, ih]

/-! ## The state at a point -/

/-- The offset, in whole cells, that a dimension reaches with `k` steps. -/
def scaled (sp : ScaledSpan) (k : ℕ) : ℤ :=
  (k * FixedPoint.quotient sp.sourceExtent sp.destExtent : ℕ) / FixedPoint.carryPos

/-- The offset from the first cell at the point of the destination area with number `n`. -/
def offsetAt : (step : ℕ) → List ScaledSpan → ℕ → ℤ
  | _, [], _ => 0
  | step, sp :: sps, n =>
    step * scaled sp (n % sp.destExtent) + offsetAt (step * sp.extent) sps (n / sp.destExtent)

/-- The dimensions at the point of the destination area with number `n`. -/
def placed (firstCell : ℤ) : (step : ℕ) → List ScaledSpan → ℕ → List IterDesc
  | _, [], _ => []
  | step, sp :: sps, n =>
    let q := FixedPoint.quotient sp.sourceExtent sp.destExtent
    let p : ℤ := (n % sp.destExtent * q : ℕ)
    ⟨⟨sp.low, 0⟩, ⟨sp.low + p / FixedPoint.carryPos, p % FixedPoint.carryPos⟩, FixedPoint.units q,
        sp.destExtent - (n % sp.destExtent : ℕ), sp.destExtent, step, step * (FixedPoint.units q).intPart,
        firstCell + offsetAt step (sp :: sps) n⟩ ::
      placed firstCell (step * sp.extent) sps (n / sp.destExtent)

variable {firstCell : ℤ} {step : ℕ} {sps : List ScaledSpan} {n : ℕ}

/-- The number of points of the destination area. -/
def points (sps : List ScaledSpan) : ℕ := (sps.map ScaledSpan.destExtent).prod

theorem offsetAt_cons (step : ℕ) (sp : ScaledSpan) (sps : List ScaledSpan) (n : ℕ) :
    offsetAt step (sp :: sps) n =
      step * scaled sp (n % sp.destExtent) + offsetAt (step * sp.extent) sps (n / sp.destExtent) := rfl

theorem head_placed (h : sps ≠ []) :
    ((placed firstCell step sps n).head?.map (·.cell)).getD 0 = firstCell + offsetAt step sps n := by
  obtain ⟨sp, sps, rfl⟩ := List.exists_cons_of_ne_nil h
  rfl

theorem ne_nil_of_lt_points (h : n + 1 < points sps) : sps ≠ [] := by
  rintro rfl
  exact absurd h (by simp [points])

/-- A step in a dimension moves its pointer on by the cells that the position passes. -/
theorem scaled_succ (sp : ScaledSpan) (k : ℕ) :
    let q : ℤ := FixedPoint.quotient sp.sourceExtent sp.destExtent
    let p : ℤ := (k * FixedPoint.quotient sp.sourceExtent sp.destExtent : ℕ)
    let carry := decide ((p + q) / FixedPoint.carryPos = p / FixedPoint.carryPos + q / FixedPoint.carryPos + 1)
    scaled sp (k + 1) = scaled sp k + q / FixedPoint.carryPos + if carry then 1 else 0 := by
  intro q p carry
  have hcast : (((k + 1) * FixedPoint.quotient sp.sourceExtent sp.destExtent : ℕ) : ℤ) = p + q := by
    rw [Nat.succ_mul, Nat.cast_add]
  have hcases : (p + q) / FixedPoint.carryPos = p / FixedPoint.carryPos + q / FixedPoint.carryPos ∨
      (p + q) / FixedPoint.carryPos = p / FixedPoint.carryPos + q / FixedPoint.carryPos + 1 := by
    rw [FixedPoint.carryPos]
    omega
  rw [scaled, hcast, scaled]
  by_cases h : (p + q) / FixedPoint.carryPos = p / FixedPoint.carryPos + q / FixedPoint.carryPos + 1
  · rw [if_pos (decide_eq_true h), h]
  · rw [if_neg (by simpa [carry] using h), hcases.resolve_right h, add_zero]

/-- **`nextCell` goes from a point to the next one**, and is done at the last. -/
theorem advance_placed (hsps : ∀ sp ∈ sps, 0 < sp.destExtent) (hn : n < points sps) :
    (n + 1 < points sps → advance (placed firstCell step sps n) =
      (placed firstCell step sps (n + 1), false)) ∧
      (n + 1 = points sps → (advance (placed firstCell step sps n)).2 = true) := by
  induction sps generalizing step n with
  | nil =>
    rw [points, List.map_nil, List.prod_nil] at hn ⊢
    exact ⟨fun h => absurd h (by omega), fun _ => rfl⟩
  | cons sp sps ih =>
    obtain ⟨hpos, hsps⟩ := List.forall_mem_cons.mp hsps
    have hprod : points (sp :: sps) = sp.destExtent * points sps := rfl
    have hdiv : n / sp.destExtent < points sps := Nat.div_lt_of_lt_mul (by rwa [← hprod])
    obtain ⟨hnext, hover⟩ := @ih (step * sp.extent) _ hsps hdiv
    have htest : ((sp.destExtent : ℤ) - (n % sp.destExtent : ℕ) - 1 ≠ 0) ↔
        n % sp.destExtent + 1 < sp.destExtent := by
      have := Nat.mod_lt n hpos
      omega
    rw [placed, advance]
    simp only [htest, FixedPoint.stepForwardFlag_units]
    rcases succ_digits (n := n) hpos with ⟨hin, hmod, hq⟩ | ⟨hout, hmod, hq⟩
    · rw [if_pos hin]
      refine ⟨fun _ => ?_, fun h => ?_⟩
      · have hscaled := scaled_succ sp (n % sp.destExtent)
        rw [placed, hmod, hq]
        refine Prod.ext (congrArg₂ List.cons ?_ rfl) rfl
        simp only [IterDesc.mk.injEq, true_and]
        refine ⟨by rw [Nat.succ_mul, Nat.cast_add], by push_cast; ring, ?_⟩
        rw [offsetAt_cons, offsetAt_cons, hmod, hq, hscaled, FixedPoint.units]
        split
        · ring
        · ring
      · rw [h, hprod, Nat.mul_mod_right] at hmod
        omega
    · rw [if_neg (by omega)]
      refine ⟨fun h => ?_, fun h => ?_⟩
      · have hlt : n / sp.destExtent + 1 < points sps := by
          rw [← hq]
          exact Nat.div_lt_of_lt_mul (by rwa [← hprod])
        rw [hnext hlt, placed, hmod, hq]
        refine Prod.ext (congrArg₂ List.cons ?_ rfl) rfl
        simp only [IterDesc.mk.injEq, true_and]
        refine ⟨by rw [Nat.zero_mul, Nat.cast_zero, Int.zero_ediv, Int.zero_emod, add_zero],
          by rw [Nat.cast_zero, sub_zero], ?_⟩
        rw [if_neg Bool.false_ne_true, head_placed (ne_nil_of_lt_points hlt), offsetAt_cons, hmod, hq,
          scaled, Nat.zero_mul, Nat.cast_zero, Int.zero_ediv, mul_zero, zero_add]
      · have heq : n / sp.destExtent + 1 = points sps := by
          rw [← hq, h, hprod, Nat.mul_div_cancel_left _ hpos]
        exact hover heq

theorem offsetAt_zero (step : ℕ) (sps : List ScaledSpan) : offsetAt step sps 0 = 0 := by
  induction sps generalizing step with
  | nil => rfl
  | cons sp sps ih =>
    rw [offsetAt, Nat.zero_mod, Nat.zero_div, ih, scaled, Nat.zero_mul, Nat.cast_zero, Int.zero_ediv,
      mul_zero, add_zero]

/-! ## The constructor -/

/-- The bytes of a tile. -/
def bytes (step : ℕ) (sps : List ScaledSpan) : ℕ := step * (sps.map ScaledSpan.extent).prod

/-- The offset of the first cell. -/
def firstOffset : (step : ℕ) → List ScaledSpan → ℤ
  | _, [] => 0
  | step, sp :: sps => step * (sp.low - sp.origin) + firstOffset (step * sp.extent) sps

/-- **Nothing wraps around** in the constructor for a tile of less than `2^32` bytes. -/
theorem setup_eq (hext : ∀ sp ∈ sps, 0 < sp.extent) (hbytes : bytes step sps < 2 ^ 32) (firstCell : ℤ) :
    (setup step sps).1.map (fun a =>
        { a with pos := a.min, cell := firstCell, countSteps := a.maxSteps }) =
      placed firstCell step sps 0 ∧ (setup step sps).2 = firstOffset step sps := by
  induction sps generalizing step with
  | nil => exact ⟨rfl, rfl⟩
  | cons sp sps ih =>
    obtain ⟨hpos, hext⟩ := List.forall_mem_cons.mp hext
    have hrest : bytes (step * sp.extent) sps = bytes step (sp :: sps) := by
      rw [bytes, bytes, List.map_cons, List.prod_cons, Nat.mul_assoc]
    have hprod : 0 < (sps.map ScaledSpan.extent).prod :=
      CanonicallyOrderedAdd.list_prod_pos.mpr fun e he => by
        obtain ⟨sp', hsp', rfl⟩ := List.mem_map.mp he
        exact hext sp' hsp'
    rw [← hrest] at hbytes
    have hlt : step * sp.extent < 2 ^ 32 := (Nat.le_mul_of_pos_right _ hprod).trans_lt hbytes
    obtain ⟨hdims, hoff⟩ := ih hext hbytes
    simp only [setup, Nat.mod_eq_of_lt hlt, List.map_cons, hdims, hoff, FixedPoint.init_div,
      FixedPoint.init_intCast, placed, firstOffset, offsetAt_zero, Nat.zero_mod, Nat.zero_div, Nat.zero_mul,
      Nat.cast_zero, Int.zero_ediv, Int.zero_emod, add_zero, sub_zero]
    exact ⟨trivial, trivial⟩

/-! ## Addresses -/

/-- The coordinates that a dimension stands at after `k` steps. -/
def stand (sp : ScaledSpan) (k : ℕ) : MiterStep.Stand :=
  ⟨⟨sp.origin, sp.extent, sp.origin, sp.origin + sp.extent - 1⟩, sp.low + scaled sp k, sp.origin⟩

/-- The offsets of the dimensions make up the offset of a position. -/
theorem offset_reverse (hn : n < points sps) :
    firstOffset step sps.reverse + offsetAt step sps.reverse n =
      MiterStep.offsetOf step
        (List.zipWith stand sps (position (sps.map ScaledSpan.destExtent) n)).reverse := by
  induction sps using List.reverseRecOn generalizing step n with
  | nil => rfl
  | append_singleton sps sp ih =>
    have hprod : points (sps ++ [sp]) = points sps * sp.destExtent := by
      rw [points, List.map_append, List.prod_append, List.map_singleton, List.prod_singleton, points]
    have hdiv : n / sp.destExtent < points sps :=
      Nat.div_lt_of_lt_mul (by rwa [Nat.mul_comm, ← hprod])
    have hrest := @ih (step * sp.extent) _ hdiv
    rw [points, List.map_append, List.map_singleton] at hn
    rw [List.map_append, List.map_singleton, position_concat hn, List.zipWith_append (by simp),
      List.reverse_append, List.reverse_append, List.reverse_singleton, List.singleton_append, firstOffset,
      offsetAt_cons, List.zipWith_cons_cons, List.zipWith_nil_left, List.reverse_singleton,
      List.singleton_append, MiterStep.offsetOf]
    simp only [stand]
    rw [← Nat.cast_mul, ← hrest]
    ring

section Area

variable {d : ℕ} {tile source dest : Box (d + 1)} {cellSize : ℕ} {contents : ℤ} {p : Point (d + 1)}

/-- The cell of the source area for a point of the destination area. -/
def scaledPoint (source dest : Box (d + 1)) (p : Point (d + 1)) : Point (d + 1) := fun i =>
  source.low i + (p i - dest.low i) * FixedPoint.quotient (source.extent i) (dest.extent i) /
    FixedPoint.carryPos

/-- **The cell lies in the source area.** -/
theorem scaledPoint_mem (source : Box (d + 1)) (hp : p ∈ dest) : scaledPoint source dest p ∈ source := by
  intro i
  have hp := hp i
  have hdest := dest.extent_cast i
  have hsource := source.extent_cast i
  have hstep : dest.extent i * FixedPoint.quotient (source.extent i) (dest.extent i) ≤
      2 ^ 30 * source.extent i := Nat.mul_div_le ..
  have hpos := source.extent_pos i
  obtain ⟨k, hk⟩ : ∃ k : ℕ, p i - dest.low i = k := ⟨_, (Int.toNat_of_nonneg (by omega)).symm⟩
  have hlt : k * FixedPoint.quotient (source.extent i) (dest.extent i) < source.extent i * 2 ^ 30 := by
    have hle : k + 1 ≤ dest.extent i := by omega
    have hmul := Nat.mul_le_mul_right (FixedPoint.quotient (source.extent i) (dest.extent i)) hle
    rw [Nat.succ_mul] at hmul
    rcases Nat.eq_zero_or_pos (FixedPoint.quotient (source.extent i) (dest.extent i)) with hzero | hq
    · rw [hzero, Nat.mul_zero]
      omega
    · omega
  have hdiv := Nat.div_lt_of_lt_mul (Nat.mul_comm _ _ ▸ hlt)
  rw [scaledPoint, hk, FixedPoint.carryPos]
  norm_cast
  omega

theorem points_scaledSpans (tile source dest : Box (d + 1)) :
    points (scaledSpans tile source dest) = dest.cells.card := by
  rw [points, scaledSpans, List.map_reverse, List.prod_reverse, List.map_ofFn, ← Box.prod_extents]
  rfl

theorem bytes_scaledSpans : bytes cellSize (scaledSpans tile source dest) = tile.cells.card * cellSize := by
  rw [bytes, scaledSpans, List.map_reverse, List.prod_reverse, List.map_ofFn, ← Box.prod_extents,
    Nat.mul_comm]
  rfl

/-- The offset at a point is the one of its cell. -/
theorem offset_scaledSpans (h : tile.Covers source) (hn : n < dest.cells.card) :
    firstOffset cellSize (scaledSpans tile source dest) +
        offsetAt cellSize (scaledSpans tile source dest) n =
      (cellSize * tile.index (scaledPoint source dest (dest.pointAt n)) : ℕ) := by
  have hmem := Box.covers_iff.mp h _ (scaledPoint_mem source (Box.pointAt_mem hn))
  have hpoints : n < points (List.ofFn fun i => (⟨tile.low i, tile.extent i, source.low i,
      source.extent i, dest.extent i⟩ : ScaledSpan)) := by
    rw [points, List.map_ofFn]
    exact hn.trans_eq dest.prod_extents.symm
  have hindex : MiterStep.offsetOf cellSize (MiterStep.stands tile tile _ tile.low) = _ :=
    MiterStep.offsetOf_stands cellSize hmem
  rw [scaledSpans, offset_reverse hpoints, ← hindex, MiterStep.stands]
  refine congrArg _ (congrArg _ (List.ext_getElem (by simp) fun i hi _ => ?_))
  have hlen : i < (position dest.extents n).length := by simp at hi ⊢; exact hi
  have hexts : (List.ofFn fun i => (⟨tile.low i, tile.extent i, source.low i, source.extent i,
      dest.extent i⟩ : ScaledSpan)).map ScaledSpan.destExtent = dest.extents := List.map_ofFn ..
  simp only [List.getElem_zipWith, List.getElem_ofFn, hexts, stand, scaled, scaledPoint, Box.pointAt,
    List.getD_eq_getElem?_getD, List.getElem?_eq_getElem hlen, Option.getD_some, Nat.cast_mul,
    tile.extent_cast, add_sub_cancel_left]
  congr 2
  omega

/-- The iterator at the point of the destination area with number `n`. -/
def stateAt (contents : ℤ) (cellSize : ℕ) (tile source dest : Box (d + 1)) (currentCell : ℤ) (n : ℕ) :
    MiterFloat :=
  let firstCell := contents + firstOffset cellSize (scaledSpans tile source dest)
  ⟨placed firstCell cellSize (scaledSpans tile source dest) n, currentCell, firstCell, false⟩

/-- The iterator starts at the first point. -/
theorem create_eq_stateAt (hsize : tile.cells.card * cellSize < 2 ^ 32) :
    create contents cellSize tile source dest = stateAt contents cellSize tile source dest 0 0 := by
  have hext : ∀ sp ∈ scaledSpans tile source dest, 0 < sp.extent := by
    intro sp hsp
    obtain ⟨i, rfl⟩ := List.mem_ofFn.mp (List.mem_reverse.mp hsp)
    exact tile.extent_pos i
  obtain ⟨hdims, hoff⟩ := setup_eq hext (bytes_scaledSpans.trans_lt hsize)
    (contents + firstOffset cellSize (scaledSpans tile source dest))
  rw [create, reset, stateAt, ← hdims, hoff]

/-- **`nextCell` returns the cell for the point and goes on to the next one.** -/
theorem nextCell_stateAt (h : tile.Covers source) {currentCell : ℤ} {n : ℕ} (hn : n < dest.cells.card) :
    let it := stateAt contents cellSize tile source dest currentCell n
    let cell := contents + (cellSize * tile.index (scaledPoint source dest (dest.pointAt n)) : ℕ)
    it.nextCell.1 = cell ∧
      (n + 1 < dest.cells.card →
        it.nextCell.2 = stateAt contents cellSize tile source dest cell (n + 1)) ∧
      (n + 1 = dest.cells.card → it.nextCell.2.done = true) := by
  intro it cell
  have hsteps : ∀ sp ∈ scaledSpans tile source dest, 0 < sp.destExtent := by
    intro sp hsp
    obtain ⟨i, rfl⟩ := List.mem_ofFn.mp (List.mem_reverse.mp hsp)
    exact dest.extent_pos i
  have hne : scaledSpans tile source dest ≠ [] := by
    rw [scaledSpans, List.ofFn_succ]
    simp
  have hcell : it.firstCell + offsetAt cellSize (scaledSpans tile source dest) n = cell :=
    (add_assoc ..).trans (congrArg _ (offset_scaledSpans h hn))
  have hpoints := points_scaledSpans tile source dest
  obtain ⟨hnext, hover⟩ : (_ → advance it.iterDesc = _) ∧ (_ → (advance it.iterDesc).2 = true) :=
    advance_placed hsteps (hpoints ▸ hn)
  have hfirst : it.nextCell.1 = cell := (head_placed hne).trans hcell
  refine ⟨hfirst, fun hlt => ?_, fun hlast => hover (hpoints ▸ hlast)⟩
  have hmoved := hnext (hpoints ▸ hlt)
  have hsecond : it.nextCell.2 =
      ⟨(advance it.iterDesc).1, it.nextCell.1, it.firstCell, (advance it.iterDesc).2⟩ := rfl
  rw [hsecond, hmoved, hfirst]
  rfl

/-- Each call returns the cell for a point. -/
theorem numbered_stateAt (cellSize : ℕ) (contents : ℤ) (h : tile.Covers source) :
    Iteration.Numbered (fun it : MiterFloat => it.done) nextCell dest.cells.card
      (fun n => contents + (cellSize * tile.index (scaledPoint source dest (dest.pointAt n)) : ℕ))
      (fun n it => n < dest.cells.card ∧
        ∃ currentCell, it = stateAt contents cellSize tile source dest currentCell n) where
  not_done := fun ⟨_, _, hit⟩ => hit ▸ rfl
  returns := by
    rintro n it ⟨hn, currentCell, rfl⟩ -
    exact (nextCell_stateAt h hn).1
  moves := by
    rintro n it ⟨hn, currentCell, rfl⟩ hlt
    exact ⟨hlt, _, (nextCell_stateAt h hn).2.1 hlt⟩
  ends := by
    rintro n it ⟨hn, currentCell, rfl⟩ hlast
    exact (nextCell_stateAt h hn).2.2 hlast

end Area

end MiterFloat

end Rasdaman
