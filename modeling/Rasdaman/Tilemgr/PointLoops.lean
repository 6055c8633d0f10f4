import Rasdaman.Machinery.ExceptFold
import Rasdaman.Machinery.Odometer
import Rasdaman.Raslib.Range
import Rasdaman.Tilemgr.Tile
import Mathlib

/-!
# Tilemgr/PointLoops — the loops over the points of a domain

`execMarrayOp`, `execGenCondenseOp` and `execGenCondenseInducedOp` apply an operator to the points of a
domain.  Each has a carry of its own; the first one moves the address of a cell along, and computes it
anew after a carry with the 32 bits of `calcOffset`, which suffice in a tile.  A coordinate is increased
before it is compared with the upper bound.  `point_loops_visit_once_iff`: all three apply their operator
once to each point, in row-major order, with the right addresses, unless a bound is the largest `r_Range`,
which no coordinate exceeds: then they never end.
-/

namespace Rasdaman

open RowMajor Odometer ExceptFold

/-! ## Points in row-major order -/

namespace Box

variable {d : ℕ}

/-- The points of a domain, the last dimension running fastest. -/
def rowMajor (b : Box d) : List (Point d) := combos fun i => upTo (b.low i) (b.high i)

/-- The coordinates of a point that goes through a domain. -/
def pointWheel (b : Box d) (i : Fin d) : Wheel ℤ where
  first := b.low i
  next := fun x => if b.high i < toRange (x + 1) then none else some (toRange (x + 1))

/-- Coordinates of the domain can be increased. -/
def BelowMax (b : Box d) : Prop := b.InRange ∧ ∀ i, b.high i < 2 ^ 63 - 1

theorem BelowMax.toRange_succ {b : Box d} (h : b.BelowMax) {p : Point d} (hp : p ∈ b) (i : Fin d) :
    toRange (p i + 1) = p i + 1 := by
  have hmax := h.2 i
  have hr := (h.1 i).1
  have hpi := hp i
  exact toRange_of_lt (by omega) (by omega)

theorem visits_rowMajor {b : Box d} (hmax : b.BelowMax) :
    Visits (turn b.pointWheel) (some b.low) b.rowMajor none := by
  refine visits_turn (w := b.pointWheel) fun i => ?_
  refine (visits_upTo (b.low_le_high i)).congr fun x hx => ?_
  have hx := mem_upTo.mp hx
  have hr := hmax.1 i
  have hi := hmax.2 i
  simp only [pointWheel, toRange_of_lt (x := x + 1) (by omega) (by omega)]
  split_ifs <;> first | rfl | omega

theorem length_rowMajor (b : Box d) : b.rowMajor.length = b.cells.card := by
  rw [rowMajor, length_combos, card_cells, List.prod_ofFn]
  exact Finset.prod_congr rfl fun i _ => length_upTo _ _

theorem mem_rowMajor {b : Box d} {p : Point d} : p ∈ b.rowMajor ↔ p ∈ b := by
  simp only [rowMajor, mem_combos, mem_upTo, mem_def]

theorem nodup_rowMajor (b : Box d) : b.rowMajor.Nodup := nodup_combos fun _ => nodup_upTo _ _

theorem pairwise_upTo (x y : ℤ) : (upTo x y).Pairwise (· < ·) :=
  List.pairwise_map.mpr (List.pairwise_lt_range.imp fun {k l} h => by omega)

/-- Combinations of ordered positions come in lexicographic order. -/
theorem pairwise_combos {ps : Fin d → List ℤ} (h : ∀ i, (ps i).Pairwise (· < ·)) :
    (combos ps).Pairwise fun p q => toLex p < toLex q := by
  induction d with
  | zero => exact List.pairwise_singleton _ _
  | succ d ih =>
    rw [combos_succ, List.pairwise_flatMap]
    refine ⟨fun x _ => List.pairwise_map.mpr ((ih fun i => h i.succ).imp fun {u v} huv => ?_),
      (h 0).imp fun {x y} hxy p hp q hq => ?_⟩
    · obtain ⟨i, heq, hlt⟩ := huv
      refine ⟨i.succ, fun j hj => ?_, hlt⟩
      cases j using Fin.cases with
      | zero => rfl
      | succ j => exact heq j (Fin.succ_lt_succ_iff.mp hj)
    · obtain ⟨u, -, rfl⟩ := List.mem_map.mp hp
      obtain ⟨v, -, rfl⟩ := List.mem_map.mp hq
      exact ⟨0, fun j hj => absurd hj (Fin.not_lt_zero j), hxy⟩

theorem pairwise_rowMajor (b : Box d) : b.rowMajor.Pairwise fun p q => toLex p < toLex q :=
  pairwise_combos fun _ => pairwise_upTo _ _

end Box

/-! ## The loops -/

/-- `calcOffset`, of a point that lies in the domain: an `r_Bytes`, from the last dimension on. -/
def Box.calcOffset {d : ℕ} (b : Box d) (p : Point d) : ℕ :=
  ((List.finRange d).foldr
    (fun i s => ((s.1 + (p i - b.low i).toNat * s.2) % 2 ^ 32, s.2 * b.extent i % 2 ^ 32)) (0, 1)).1

namespace Tile

variable {d : ℕ}

/-- The carry of `execGenCondenseOp`: the coordinate is increased; beyond the domain it starts again, and
the one before it is increased.  The flag is `done`. -/
def carry (areaOp : Box d) : (i : ℕ) → i < d → Point d → Point d × Bool
  | 0, h, p =>
    let p := Function.update p ⟨0, h⟩ (toRange (p ⟨0, h⟩ + 1))
    if areaOp.high ⟨0, h⟩ < p ⟨0, h⟩ then (Function.update p ⟨0, h⟩ (areaOp.low ⟨0, h⟩), true)
    else (p, false)
  | i + 1, h, p =>
    let p := Function.update p ⟨i + 1, h⟩ (toRange (p ⟨i + 1, h⟩ + 1))
    if areaOp.high ⟨i + 1, h⟩ < p ⟨i + 1, h⟩ then
      carry areaOp i (Nat.lt_of_succ_lt h) (Function.update p ⟨i + 1, h⟩ (areaOp.low ⟨i + 1, h⟩))
    else (p, false)

/-- The carry of `execGenCondenseInducedOp`, which counts down to `-1`; the number is that after `i`. -/
def carryInduced (areaOp : Box d) : (n : ℕ) → n ≤ d → Point d → Point d × Bool
  | 0, _, pOp => (pOp, true)
  | i + 1, h, pOp =>
    let pOp := Function.update pOp ⟨i, h⟩ (toRange (pOp ⟨i, h⟩ + 1))
    if areaOp.high ⟨i, h⟩ < pOp ⟨i, h⟩ then
      carryInduced areaOp i (Nat.le_of_succ_le h) (Function.update pOp ⟨i, h⟩ (areaOp.low ⟨i, h⟩))
    else (pOp, false)

/-- The points of `execMarrayOp` and its flags. -/
structure MarrayPoints (d : ℕ) where
  pointRes : Point d
  pointOp : Point d
  recalc : Bool
  done : Bool

/-- The carry of `execMarrayOp`. -/
def carryMarray (areaRes areaOp : Box d) : (dim : ℕ) → dim < d → (pointRes pointOp : Point d) →
    (recalc : Bool) → MarrayPoints d
  | 0, h, pointRes, pointOp, recalc =>
    let pointRes := Function.update pointRes ⟨0, h⟩ (toRange (pointRes ⟨0, h⟩ + 1))
    let pointOp := Function.update pointOp ⟨0, h⟩ (toRange (pointOp ⟨0, h⟩ + 1))
    if areaRes.high ⟨0, h⟩ < pointRes ⟨0, h⟩ then
      ⟨Function.update pointRes ⟨0, h⟩ (areaRes.low ⟨0, h⟩),
        Function.update pointOp ⟨0, h⟩ (areaOp.low ⟨0, h⟩), true, true⟩
    else ⟨pointRes, pointOp, recalc, false⟩
  | dim + 1, h, pointRes, pointOp, recalc =>
    let pointRes := Function.update pointRes ⟨dim + 1, h⟩ (toRange (pointRes ⟨dim + 1, h⟩ + 1))
    let pointOp := Function.update pointOp ⟨dim + 1, h⟩ (toRange (pointOp ⟨dim + 1, h⟩ + 1))
    if areaRes.high ⟨dim + 1, h⟩ < pointRes ⟨dim + 1, h⟩ then
      carryMarray areaRes areaOp dim (Nat.lt_of_succ_lt h)
        (Function.update pointRes ⟨dim + 1, h⟩ (areaRes.low ⟨dim + 1, h⟩))
        (Function.update pointOp ⟨dim + 1, h⟩ (areaOp.low ⟨dim + 1, h⟩)) true
    else ⟨pointRes, pointOp, recalc, false⟩

section Loops

variable {σ ε : Type} (endless : ε)

/-- The rounds of `execGenCondenseOp` from a point on, at most so many. -/
def genCondenseLoop (myOp : σ → Point (d + 1) → Except ε σ) (areaOp : Box (d + 1)) :
    ℕ → Point (d + 1) → σ → Except ε σ
  | 0, _, _ => .error endless
  | fuel + 1, pointOp, s => do
    let s ← myOp s pointOp
    let next := carry areaOp d (Nat.lt_succ_self d) pointOp
    if next.2 then return s else genCondenseLoop myOp areaOp fuel next.1 s

/-- `execGenCondenseOp`; the operator may throw. -/
def execGenCondenseOp (myOp : σ → Point (d + 1) → Except ε σ) (areaOp : Box (d + 1)) (s : σ) :
    Except ε σ :=
  genCondenseLoop endless myOp areaOp areaOp.cells.card areaOp.low s

/-- The rounds of `execGenCondenseInducedOp` from a point on. -/
def genCondenseInducedLoop (myOp : σ → Point (d + 1) → Except ε σ) (areaOp : Box (d + 1)) :
    ℕ → Point (d + 1) → σ → Except ε σ
  | 0, _, _ => .error endless
  | fuel + 1, pOp, s => do
    let s ← myOp s pOp
    let next := carryInduced areaOp (d + 1) le_rfl pOp
    if next.2 then return s else genCondenseInducedLoop myOp areaOp fuel next.1 s

/-- `QLInducedCondenseOp::execGenCondenseInducedOp`. -/
def execGenCondenseInducedOp (myOp : σ → Point (d + 1) → Except ε σ) (areaOp : Box (d + 1)) (s : σ) :
    Except ε σ :=
  genCondenseInducedLoop endless myOp areaOp areaOp.cells.card areaOp.low s

/-- The rounds of `execMarrayOp` from two points on, in a tile with some domain and cells of `tsize` bytes.
An address counts the bytes from the first cell of the tile. -/
def marrayLoop (dom : Box (d + 1)) (tsize : ℕ) (myOp : σ → (cellRes : ℕ) → Point (d + 1) → Except ε σ)
    (areaRes areaOp : Box (d + 1)) : ℕ → (pointRes pointOp : Point (d + 1)) → (cellRes : ℕ) →
    (recalc : Bool) → σ → Except ε σ
  | 0, _, _, _, _, _ => .error endless
  | fuel + 1, pointRes, pointOp, cellRes, recalc, s => do
    let cellRes := if recalc then dom.calcOffset pointRes * tsize else cellRes
    let s ← myOp s cellRes pointOp
    let next := carryMarray areaRes areaOp d (Nat.lt_succ_self d) pointRes pointOp false
    if next.done then return s
    else
      marrayLoop dom tsize myOp areaRes areaOp fuel next.pointRes next.pointOp (cellRes + tsize) next.recalc s

/-- `execMarrayOp`. -/
def execMarrayOp (dom : Box (d + 1)) (tsize : ℕ) (myOp : σ → (cellRes : ℕ) → Point (d + 1) → Except ε σ)
    (areaRes areaOp : Box (d + 1)) (s : σ) : Except ε σ :=
  marrayLoop endless dom tsize myOp areaRes areaOp areaRes.cells.card areaRes.low areaOp.low
    (dom.calcOffset areaRes.low * tsize) false s

end Loops

/-- **The loops visit each point of a domain once**: they end, having applied their operator to the points
in row-major order, and `execMarrayOp` passes the address of the cell of each point, in every tile around
the domain; a tile has fewer than `2^32` bytes. -/
structure PointLoopsRight (area : Box (d + 1)) : Prop where
  genCondense : ∀ {σ ε : Type} (endless : ε) (myOp : σ → Point (d + 1) → Except ε σ) (s : σ),
    execGenCondenseOp endless myOp area s = area.rowMajor.foldlM myOp s
  genCondenseInduced : ∀ {σ ε : Type} (endless : ε) (myOp : σ → Point (d + 1) → Except ε σ) (s : σ),
    execGenCondenseInducedOp endless myOp area s = area.rowMajor.foldlM myOp s
  marray : ∀ (dom : Box (d + 1)) (tsize : ℕ), 0 < tsize → dom.cells.card * tsize < 2 ^ 32 →
    dom.Covers area → ∀ {σ ε : Type} (endless : ε) (myOp : σ → ℕ → Point (d + 1) → Except ε σ) (s : σ),
    execMarrayOp endless dom tsize myOp area area s =
      area.rowMajor.foldlM (fun s p => myOp s (dom.index p * tsize) p) s
  once : area.rowMajor.Nodup ∧ ∀ p, p ∈ area.rowMajor ↔ p ∈ area
  ordered : area.rowMajor.Pairwise fun p q => toLex p < toLex q

/-! ## The carries -/

section Carry

variable {areaOp : Box d}

theorem turnFrom_congr {w : Fin d → Wheel ℤ} {x y : Point d} {c : ℕ} (h : c ≤ d)
    (hxy : ∀ j : Fin d, (j : ℕ) < c → x j = y j) : turnFrom w x c h = turnFrom w y c h := by
  induction c with
  | zero => rfl
  | succ c ih =>
    have hc := hxy ⟨c, h⟩ (Nat.lt_succ_self c)
    cases hnext : (w ⟨c, h⟩).next (x ⟨c, h⟩) with
    | none =>
      rw [turnFrom_of_none hnext, turnFrom_of_none (hc ▸ hnext)]
      exact ih (Nat.le_of_succ_le h) fun j hj => hxy j (Nat.lt_succ_of_lt hj)
    | some z =>
      rw [turnFrom_of_some hnext, turnFrom_of_some (hc ▸ hnext)]
      refine congrArg some (funext fun j => ?_)
      split_ifs with hj
      · exact hxy j (Nat.lt_succ_of_lt hj)
      · rfl
      · rfl

/-- **The carry turns the odometer**, when the coordinates behind have started again. -/
theorem carryInduced_eq {n : ℕ} (h : n ≤ d) {p : Point d}
    (hp : ∀ j : Fin d, n ≤ (j : ℕ) → p j = areaOp.low j) :
    (if (carryInduced areaOp n h p).2 then none else some (carryInduced areaOp n h p).1) =
      turnFrom areaOp.pointWheel p n h := by
  induction n generalizing p with
  | zero => rfl
  | succ i ih =>
    rw [carryInduced]
    simp only [Function.update_self, Function.update_idem]
    by_cases hhigh : areaOp.high ⟨i, h⟩ < toRange (p ⟨i, h⟩ + 1)
    · simp only [if_pos hhigh]
      rw [ih (Nat.le_of_succ_le h) fun j hj => ?_,
        turnFrom_of_none (c := i) (if_pos hhigh : (areaOp.pointWheel ⟨i, h⟩).next (p ⟨i, h⟩) = none)]
      · exact turnFrom_congr _ fun j hj => Function.update_of_ne (Fin.ne_of_val_ne hj.ne) _ _
      · rcases hj.lt_or_eq with hj | rfl
        · rw [Function.update_of_ne (Fin.ne_of_val_ne hj.ne')]
          exact hp j hj
        · exact Function.update_self ..
    · simp only [if_neg hhigh, Bool.false_eq_true, reduceIte]
      rw [turnFrom_of_some (c := i)
        (if_neg hhigh : (areaOp.pointWheel ⟨i, h⟩).next (p ⟨i, h⟩) = some (toRange (p ⟨i, h⟩ + 1)))]
      refine congrArg some (funext fun j => ?_)
      rcases lt_trichotomy (j : ℕ) i with hj | hj | hj
      · rw [if_pos hj, Function.update_of_ne (Fin.ne_of_val_ne hj.ne)]
      · obtain rfl : j = ⟨i, h⟩ := Fin.ext hj
        simp
      · rw [if_neg hj.not_gt, if_neg hj.ne', Function.update_of_ne (Fin.ne_of_val_ne hj.ne'), hp j hj]
        rfl

/-- The carry of `execGenCondenseOp` is the same. -/
theorem carry_eq_carryInduced {i : ℕ} (h : i < d) (p : Point d) :
    carry areaOp i h p = carryInduced areaOp (i + 1) h p := by
  induction i generalizing p with
  | zero => rfl
  | succ i ih =>
    rw [carry, carryInduced]
    simp only [ih]

/-- The carry of `execMarrayOp` is the same for both points, when they go through one domain. -/
theorem carryMarray_eq {i : ℕ} (h : i < d) (p : Point d) (recalc : Bool) :
    carryMarray areaOp areaOp i h p p recalc =
      ⟨(carry areaOp i h p).1, (carry areaOp i h p).1,
        recalc || decide (areaOp.high ⟨i, h⟩ < toRange (p ⟨i, h⟩ + 1)), (carry areaOp i h p).2⟩ := by
  induction i generalizing p recalc with
  | zero =>
    rw [carryMarray, carry]
    by_cases hhigh : areaOp.high ⟨0, h⟩ < toRange (p ⟨0, h⟩ + 1) <;> simp [hhigh]
  | succ i ih =>
    rw [carryMarray, carry]
    by_cases hhigh : areaOp.high ⟨i + 1, h⟩ < toRange (p ⟨i + 1, h⟩ + 1)
    · simp [hhigh, ih]
    · simp [hhigh]

/-- No coordinate exceeds the largest `r_Range`: a carry that gets to a dimension that ends there stops. -/
theorem carryInduced_of_max {k : Fin d} (hk : areaOp.high k = 2 ^ 63 - 1) {n : ℕ} (h : n ≤ d)
    (hkn : (k : ℕ) < n) (p : Point d) : (carryInduced areaOp n h p).2 = false := by
  induction n generalizing p with
  | zero => omega
  | succ i ih =>
    rw [carryInduced]
    simp only [Function.update_self]
    split_ifs with hhigh
    · refine ih (Nat.le_of_succ_le h) (lt_of_le_of_ne (Nat.le_of_lt_succ hkn) fun hki => ?_) _
      obtain rfl : k = ⟨i, h⟩ := Fin.ext hki
      have hlt := (toRange_bounds (p ⟨i, h⟩ + 1)).2
      omega
    · rfl

/-- A carry does not touch the coordinates behind. -/
theorem carry_of_lt {i : ℕ} (h : i < d) (p : Point d) {j : Fin d} (hj : i < (j : ℕ)) :
    (carry areaOp i h p).1 j = p j := by
  induction i generalizing p with
  | zero =>
    have hne : j ≠ ⟨0, h⟩ := Fin.ne_of_val_ne hj.ne'
    rw [carry]
    split_ifs <;> simp [Function.update_of_ne hne]
  | succ i ih =>
    have hne : j ≠ ⟨i + 1, h⟩ := Fin.ne_of_val_ne hj.ne'
    rw [carry]
    split_ifs
    · rw [ih _ _ (Nat.lt_of_succ_lt hj), Function.update_of_ne hne, Function.update_of_ne hne]
    · exact Function.update_of_ne hne _ _

end Carry

/-! ## The loops visit the points -/

section Visiting

variable {σ ε : Type} {endless : ε} {areaOp : Box (d + 1)}

/-- A carry from the last coordinate turns the odometer. -/
theorem turn_eq_carry (p : Point (d + 1)) : turn areaOp.pointWheel p =
    if (carry areaOp d (Nat.lt_succ_self d) p).2 then none
    else some (carry areaOp d (Nat.lt_succ_self d) p).1 := by
  rw [carry_eq_carryInduced]
  exact (carryInduced_eq le_rfl fun j hj => absurd j.isLt hj.not_gt).symm

theorem genCondenseLoop_eq (myOp : σ → Point (d + 1) → Except ε σ) (fuel : ℕ) (p : Point (d + 1)) (s : σ) :
    genCondenseLoop endless myOp areaOp fuel p s =
      walk endless (turn areaOp.pointWheel) myOp fuel (some p) s := by
  induction fuel generalizing p s with
  | zero => rfl
  | succ fuel ih =>
    rw [genCondenseLoop, walk]
    cases myOp s p with
    | error e => rfl
    | ok s' =>
      rw [turn_eq_carry]
      simp only [bind, Except.bind, pure, Except.pure]
      split_ifs
      · cases fuel <;> rfl
      · exact ih _ s'

theorem genCondenseInducedLoop_eq (myOp : σ → Point (d + 1) → Except ε σ) (fuel : ℕ) (p : Point (d + 1))
    (s : σ) : genCondenseInducedLoop endless myOp areaOp fuel p s =
      genCondenseLoop endless myOp areaOp fuel p s := by
  induction fuel generalizing p s with
  | zero => rfl
  | succ fuel ih =>
    rw [genCondenseInducedLoop, genCondenseLoop]
    simp only [ih, carry_eq_carryInduced]

/-- Without an end of the carries the loop does not end. -/
theorem genCondenseLoop_of_max {k : Fin (d + 1)} (hk : areaOp.high k = 2 ^ 63 - 1) (fuel : ℕ)
    (p : Point (d + 1)) (s : σ) :
    genCondenseLoop endless (fun s _ => .ok s) areaOp fuel p s = .error endless := by
  induction fuel generalizing p s with
  | zero => rfl
  | succ fuel ih =>
    rw [genCondenseLoop]
    simp only [bind, Except.bind, carry_eq_carryInduced, carryInduced_of_max hk le_rfl k.isLt]
    exact ih _ s

/-- **`execGenCondenseOp` applies its operator to the points one after the other.** -/
theorem execGenCondenseOp_eq (hmax : areaOp.BelowMax) (myOp : σ → Point (d + 1) → Except ε σ) (s : σ) :
    execGenCondenseOp endless myOp areaOp s = areaOp.rowMajor.foldlM myOp s := by
  rw [execGenCondenseOp, genCondenseLoop_eq]
  exact walk_eq (Box.visits_rowMajor hmax) areaOp.length_rowMajor.le s

theorem execGenCondenseInducedOp_eq (hmax : areaOp.BelowMax)
    (myOp : σ → Point (d + 1) → Except ε σ) (s : σ) :
    execGenCondenseInducedOp endless myOp areaOp s = areaOp.rowMajor.foldlM myOp s := by
  rw [execGenCondenseInducedOp, genCondenseInducedLoop_eq]
  exact execGenCondenseOp_eq hmax myOp s

end Visiting

/-! ## Addresses -/

/-- `calcOffset` is the number of the cell modulo `2^32`. -/
theorem calcOffset_eq (b : Box d) (p : Point d) : b.calcOffset p = b.index p % 2 ^ 32 := by
  have hfold : ∀ l : List (Fin d),
      l.foldr (fun i s => ((s.1 + (p i - b.low i).toNat * s.2) % 2 ^ 32, s.2 * b.extent i % 2 ^ 32)) (0, 1) =
        (offset (l.map b.extent) (l.map fun i => (p i - b.low i).toNat) % 2 ^ 32,
          (l.map b.extent).prod % 2 ^ 32) := by
    intro l
    induction l with
    | nil => rfl
    | cons i l ih =>
      rw [List.foldr_cons, ih, List.map_cons, List.map_cons, offset, List.prod_cons]
      refine Prod.ext ?_ ?_
      · rw [Nat.add_comm (_ * _)]
        exact (Nat.mod_modEq _ _).add ((Nat.ModEq.refl _).mul (Nat.mod_modEq _ _))
      · rw [Nat.mul_comm (b.extent i), Nat.mod_mul_mod]
  rw [Box.calcOffset, hfold, Box.index, Box.extents, Box.coords, List.ofFn_eq_map, List.ofFn_eq_map]

/-- The address that `execMarrayOp` has for the cell of a point: that of the start of the row, moved
along. -/
def rowAddress (dom area : Box (d + 1)) (tsize : ℕ) (p : Point (d + 1)) : ℕ :=
  dom.calcOffset (area.rowStart p) * tsize + (p (Fin.last d) - area.low (Fin.last d)).toNat * tsize

section Marray

variable {σ ε : Type} {endless : ε} {dom area : Box (d + 1)} {tsize : ℕ}

theorem rowAddress_start {p : Point (d + 1)} (h : p (Fin.last d) = area.low (Fin.last d)) :
    rowAddress dom area tsize p = dom.calcOffset p * tsize := by
  rw [rowAddress, h, sub_self, Int.toNat_zero, Nat.zero_mul, Nat.add_zero, Box.rowStart, ← h,
    Function.update_eq_self]

/-- Inside a row the address moves by the size of a cell. -/
theorem rowAddress_succ (hmax : area.BelowMax) {p : Point (d + 1)} (h : p ∈ area) :
    rowAddress dom area tsize (Function.update p (Fin.last d) (toRange (p (Fin.last d) + 1))) =
      rowAddress dom area tsize p + tsize := by
  rw [hmax.toRange_succ h]
  have hlow := (h (Fin.last d)).1
  have hnat : (p (Fin.last d) + 1 - area.low (Fin.last d)).toNat =
      (p (Fin.last d) - area.low (Fin.last d)).toNat + 1 := by omega
  rw [rowAddress, rowAddress, Box.rowStart, Function.update_idem, Function.update_self, hnat,
    Nat.succ_mul, ← Nat.add_assoc]
  rfl

/-- A carry without a flag has increased the last coordinate; after another one that starts again. -/
theorem carry_last (p : Point (d + 1)) :
    if area.high (Fin.last d) < toRange (p (Fin.last d) + 1) then
      (carry area d (Nat.lt_succ_self d) p).2 = true ∨
        (carry area d (Nat.lt_succ_self d) p).1 (Fin.last d) = area.low (Fin.last d)
    else carry area d (Nat.lt_succ_self d) p =
      (Function.update p (Fin.last d) (toRange (p (Fin.last d) + 1)), false) := by
  have hlast : (⟨d, Nat.lt_succ_self d⟩ : Fin (d + 1)) = Fin.last d := rfl
  split_ifs with hhigh
  · cases d with
    | zero =>
      rw [carry]
      simp only [Function.update_self]
      have hhigh' : area.high ⟨0, Nat.lt_succ_self 0⟩ < toRange (p ⟨0, Nat.lt_succ_self 0⟩ + 1) := hhigh
      exact .inl (by rw [if_pos hhigh'])
    | succ d =>
      right
      have hhigh' : area.high ⟨d + 1, Nat.lt_succ_self _⟩ <
          toRange (p ⟨d + 1, Nat.lt_succ_self _⟩ + 1) := hhigh
      rw [carry]
      simp only [Function.update_self]
      rw [if_pos hhigh', carry_of_lt _ _ (Nat.lt_succ_self d)]
      exact Function.update_self ..
  · cases d with
    | zero =>
      rw [carry]
      simp only [Function.update_self]
      exact if_neg hhigh
    | succ d =>
      rw [carry]
      simp only [Function.update_self]
      exact if_neg hhigh

/-- The loop passes the address of the row. -/
theorem marrayLoop_eq (hmax : area.BelowMax) (myOp : σ → ℕ → Point (d + 1) → Except ε σ) {l : List (Point (d + 1))}
    {p : Point (d + 1)} {fuel cellRes : ℕ} {recalc : Bool} {s : σ}
    (hvisits : Visits (turn area.pointWheel) (some p) l none) (hfuel : l.length ≤ fuel)
    (hmem : ∀ q ∈ l, q ∈ area)
    (hcell : if recalc then p (Fin.last d) = area.low (Fin.last d)
      else cellRes = rowAddress dom area tsize p) :
    marrayLoop endless dom tsize myOp area area fuel p p cellRes recalc s =
      l.foldlM (fun s p => myOp s (rowAddress dom area tsize p) p) s := by
  induction l generalizing p fuel cellRes recalc s with
  | nil => cases hvisits
  | cons q l ih =>
    obtain ⟨hq, hvisits⟩ := hvisits
    obtain rfl := Option.some.inj hq
    obtain ⟨hp, hmem⟩ := List.forall_mem_cons.mp hmem
    cases fuel with
    | zero => simp at hfuel
    | succ fuel =>
      have haddress : (if recalc then dom.calcOffset p * tsize else cellRes) =
          rowAddress dom area tsize p := by
        cases recalc with
        | true => exact (rowAddress_start hcell).symm
        | false => exact hcell
      rw [marrayLoop, haddress, List.foldlM_cons]
      cases myOp s (rowAddress dom area tsize p) p with
      | error e => rfl
      | ok s' =>
        have hlast : if area.high (Fin.last d) < toRange (p (Fin.last d) + 1) then _ else _ := carry_last p
        rw [turn_eq_carry] at hvisits
        simp only [bind, Except.bind, pure, Except.pure, carryMarray_eq, Bool.false_or]
        split_ifs at hvisits ⊢ with hdone
        · cases l with
          | nil => rfl
          | cons q l => cases hvisits.1
        · refine ih hvisits (by simpa using hfuel) hmem ?_
          have hhigh' : (⟨d, Nat.lt_succ_self d⟩ : Fin (d + 1)) = Fin.last d := rfl
          rw [hhigh']
          by_cases hhigh : area.high (Fin.last d) < toRange (p (Fin.last d) + 1)
          · rw [if_pos hhigh] at hlast
            rw [decide_eq_true hhigh]
            exact hlast.resolve_left hdone
          · rw [if_neg hhigh] at hlast
            rw [decide_eq_false hhigh, hlast]
            exact (rowAddress_succ hmax hp).symm

theorem execMarrayOp_eq (hmax : area.BelowMax) (myOp : σ → ℕ → Point (d + 1) → Except ε σ) (s : σ) :
    execMarrayOp endless dom tsize myOp area area s =
      area.rowMajor.foldlM (fun s p => myOp s (rowAddress dom area tsize p) p) s :=
  marrayLoop_eq hmax myOp (Box.visits_rowMajor hmax) area.length_rowMajor.le (fun _ => Box.mem_rowMajor.mp)
    (rowAddress_start rfl).symm

/-- The address is that of the cell: a tile has fewer than `2^32` bytes. -/
theorem rowAddress_eq (htsize : 0 < tsize) (hsize : dom.cells.card * tsize < 2 ^ 32)
    (h : dom.Covers area) {p : Point (d + 1)} (hp : p ∈ area) :
    rowAddress dom area tsize p = dom.index p * tsize := by
  have hrow := Box.index_lt (Box.covers_iff.mp h _ (Box.rowStart_mem hp))
  have hcells : dom.cells.card < 2 ^ 32 := (Nat.le_mul_of_pos_right _ htsize).trans_lt hsize
  rw [rowAddress, calcOffset_eq, Box.index_rowStart hp h, Nat.add_mul,
    Nat.mod_eq_of_lt (hrow.trans hcells)]

/-- Loops that end are over areas that end below the largest `r_Range`. -/
theorem PointLoopsRight.high_ne (hright : PointLoopsRight area) (k : Fin (d + 1)) :
    area.high k ≠ 2 ^ 63 - 1 := fun hk => by
  have hends := hright.genCondense () (fun (s : Unit) _ => .ok s) ()
  rw [execGenCondenseOp, genCondenseLoop_of_max hk,
    foldlM_eq_ok (g := fun s _ => s) (P := fun _ => True) (fun _ _ _ _ => ⟨rfl, trivial⟩) trivial] at hends
  cases hends

/-- **The loops visit each point once, with the address of its cell, exactly when no upper bound of the
area is the largest `r_Range`.** -/
theorem point_loops_visit_once_iff (area : RangeBox (d + 1)) :
    PointLoopsRight area.toBox ↔ ∀ i, area.high i ≠ 2 ^ 63 - 1 := by
  refine ⟨PointLoopsRight.high_ne, fun hne => ?_⟩
  have hmax : area.BelowMax := ⟨area.inRange, fun i => by
    have hi := (area.inRange i).2
    have := hne i
    omega⟩
  refine ⟨fun endless => execGenCondenseOp_eq hmax, fun endless => execGenCondenseInducedOp_eq hmax,
    fun dom tsize htsize hsize h _ _ endless myOp s => ?_, ⟨area.nodup_rowMajor, fun _ => Box.mem_rowMajor⟩, area.pairwise_rowMajor⟩
  rw [execMarrayOp_eq hmax]
  exact foldlM_congr fun p hp s =>
    congrArg (myOp s · p) (rowAddress_eq htsize hsize h (Box.mem_rowMajor.mp hp))

/-- **The loops over the last cell there is do not end.** -/
theorem point_loops_endless :
    ¬ PointLoopsRight ⟨![2 ^ 63 - 1], ![2 ^ 63 - 1], fun _ => le_rfl⟩ :=
  fun hright => hright.high_ne 0 rfl

end Marray

end Tile

end Rasdaman
