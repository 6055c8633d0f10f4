import Mathlib.Order.PiLex
import Mathlib.Tactic.Ring
import Rasdaman.Raslib.CellOffset
import Rasdaman.Raslib.Range

/-!
# Raslib/CellPoint — `cell_offset` and `cell_point` in the integers of the code

Extents and coordinates are `r_Range`s, offsets are `r_Area`s; `cell_point` keeps the number of cells in
an `unsigned int`.  `cells_numbered_iff`: the two functions undo each other on a domain exactly when it
has less than `2^32` cells.
-/

namespace Rasdaman

open RowMajor

/-- Conversion to an `r_Area`. -/
def toArea (x : ℤ) : ℕ := (x % 2 ^ 64).toNat

theorem toArea_of_lt {x : ℤ} (h0 : 0 ≤ x) (h : x < 2 ^ 64) : toArea x = x.toNat :=
  congrArg Int.toNat (Int.emod_eq_of_lt h0 h)

/-- How `cell_point` ends without a point. -/
inductive NoPoint
  | throws (e : RError)
  | noCell
  | dividesByZero
  deriving DecidableEq, Repr

/-- `get_extent`, of fixed bounds. -/
def Sinterval.extent (s : Sinterval) : ℤ := toRange (s.upperBound - s.lowerBound + 1)

namespace Minterval

/-- `is_origin_fixed` and `is_high_fixed`. -/
def isFixed (m : Minterval) : Bool := !m.isEmpty && m.all fun s => s.lowFixed && s.highFixed

/-- `get_extent`. -/
def getExtent (m : Minterval) : Except RError (List ℤ) :=
  if m.isFixed then .ok (m.map Sinterval.extent) else .error .intervalOpen

/-- `cell_count`. -/
def cellCount (m : Minterval) : Except RError ℕ := do
  let ptExt ← m.getExtent
  return ptExt.foldl (fun cellCount e => cellCount * toArea e % areaModulus) 1

/-- The loop of `cell_offset`: the intervals and the coordinates that are left. -/
def cellOffsetLoop : (offset : ℕ) → List (Sinterval × ℤ) → Except RError ℕ
  | offset, [] => .ok offset
  | offset, [(s, x)] =>
    if x < s.lowerBound ∨ x > s.upperBound then .error .indexViolation
    else .ok ((offset + toArea (x - s.lowerBound)) % areaModulus)
  | offset, (s, x) :: (t, y) :: rest =>
    if x < s.lowerBound ∨ x > s.upperBound then .error .indexViolation
    else cellOffsetLoop ((offset + toArea (x - s.lowerBound)) * toArea t.extent % areaModulus)
      ((t, y) :: rest)

/-- `cell_offset`. -/
def cellOffset (m : Minterval) (point : List ℤ) : Except RError ℕ :=
  if m.length ≠ point.length then .error .dimMismatch
  else do
    let _ ← m.getExtent
    cellOffsetLoop 0 (m.zip point)

/-- The loop of `cell_point` over the intervals that are left; the factor is an `unsigned int`. -/
def cellPointLoop : (factor offset : ℕ) → Minterval → Except NoPoint (List ℤ)
  | _, _, [] => .ok []
  | factor, offset, s :: m =>
    if s.extent = 0 then .error .dividesByZero
    else
      let factor' := ((factor : ℤ).tdiv s.extent % 2 ^ 32).toNat
      if factor' = 0 then .error .dividesByZero
      else do
        let pt ← cellPointLoop factor' (offset % factor') m
        return toRange (s.lowerBound + toRange ((offset - offset % factor') / factor' : ℕ)) :: pt

/-- `cell_point`. -/
def cellPoint (m : Minterval) (offset : ℕ) : Except NoPoint (List ℤ) :=
  match m.cellCount with
  | .error e => .error (.throws e)
  | .ok cellCount =>
    if offset ≥ cellCount then .error .noCell
    else
      cellPointLoop (m.foldl (fun factor s => (factor * s.extent % 2 ^ 32).toNat) 1) offset m

/-! ## Intervals with less than `2^63` points -/

/-- The bounds are fixed `r_Range`s, and the extent is one too. -/
structure Narrow (s : Sinterval) : Prop where
  fixed : s.lowFixed = true ∧ s.highFixed = true
  low_le_high : s.lowerBound ≤ s.upperBound
  lower : -2 ^ 63 ≤ s.lowerBound
  upper : s.upperBound < 2 ^ 63
  extent_lt : s.upperBound - s.lowerBound + 1 < 2 ^ 63

/-- The number of points of an interval. -/
def width (s : Sinterval) : ℕ := (s.upperBound - s.lowerBound + 1).toNat

variable {s : Sinterval} {m : Minterval} {p : List ℤ}

theorem Narrow.width_pos (h : Narrow s) : 0 < width s := by
  have := h.low_le_high
  rw [width]
  omega

theorem Narrow.extent_eq (h : Narrow s) : s.extent = width s := by
  obtain ⟨-, hle, -, -, hlt⟩ := h
  rw [Sinterval.extent, toRange_of_lt (by omega) hlt, width, Int.toNat_of_nonneg (by omega)]

theorem Narrow.toArea_extent (h : Narrow s) : toArea s.extent = width s := by
  have hlt := h.extent_lt
  have hle := h.low_le_high
  rw [h.extent_eq, toArea_of_lt (Int.natCast_nonneg _) (by rw [width]; omega), Int.toNat_natCast]

/-- The number of points of the intervals together. -/
def card (m : Minterval) : ℕ := (m.map width).prod

theorem card_cons (s : Sinterval) (m : Minterval) : card (s :: m) = width s * card m := rfl

theorem card_pos (h : ∀ s ∈ m, Narrow s) : 0 < card m := by
  induction m with
  | nil => exact Nat.one_pos
  | cons s m ih =>
    obtain ⟨hs, hm⟩ := List.forall_mem_cons.mp h
    exact Nat.mul_pos hs.width_pos (ih hm)

theorem getExtent_eq (h : ∀ s ∈ m, Narrow s) (hm : m ≠ []) :
    m.getExtent = .ok (m.map fun s => (width s : ℤ)) := by
  have hfixed : m.isFixed = true := by
    rw [isFixed, Bool.and_eq_true, List.all_eq_true]
    exact ⟨by simpa using hm, fun s hs => by simp [(h s hs).fixed]⟩
  rw [getExtent, if_pos hfixed]
  exact congrArg _ (List.map_congr_left fun s hs => (h s hs).extent_eq)

private theorem foldl_area (l : List ℕ) (k : ℕ) (hl : ∀ e ∈ l, e < areaModulus) :
    (l.map fun e : ℕ => (e : ℤ)).foldl (fun n e => n * toArea e % areaModulus) (k % areaModulus) =
      k * l.prod % areaModulus := by
  induction l generalizing k with
  | nil => simp
  | cons e l ih =>
    obtain ⟨he, hl⟩ := List.forall_mem_cons.mp hl
    have harea : toArea (e : ℤ) = e := toArea_of_lt (Int.natCast_nonneg _) (by exact_mod_cast he)
    rw [List.map_cons, List.foldl_cons, harea, Nat.mod_mul_mod, ih _ hl, List.prod_cons, Nat.mul_assoc]

theorem cellCount_eq (h : ∀ s ∈ m, Narrow s) (hm : m ≠ []) :
    m.cellCount = .ok (card m % areaModulus) := by
  have hlt : ∀ e ∈ m.map width, e < areaModulus := by
    intro e he
    obtain ⟨s, hs, rfl⟩ := List.mem_map.mp he
    have := (h s hs).extent_lt
    have := (h s hs).low_le_high
    rw [width, areaModulus]
    omega
  have hfold := foldl_area (m.map width) 1 hlt
  rw [Nat.one_mul, List.map_map] at hfold
  rw [cellCount, getExtent_eq h hm]
  exact congrArg _ hfold

/-! ## From points to offsets -/

/-- A coordinate in its interval. -/
def InInterval (t : Sinterval × ℤ) : Prop := t.1.lowerBound ≤ t.2 ∧ t.2 ≤ t.1.upperBound

/-- The loop computes the number of the point modulo `2^64`. -/
theorem cellOffsetLoop_eq {l : List (Sinterval × ℤ)} (h : ∀ t ∈ l, Narrow t.1)
    (hin : ∀ t ∈ l, InInterval t) (hl : l ≠ []) (off : ℕ) :
    cellOffsetLoop off l = .ok ((off * (l.tail.map fun t => width t.1).prod +
      offset (l.map fun t => width t.1) (l.map fun t => (t.2 - t.1.lowerBound).toNat)) % areaModulus) := by
  induction l generalizing off with
  | nil => exact absurd rfl hl
  | cons t l ih =>
    obtain ⟨s, x⟩ := t
    obtain ⟨hs, h⟩ := List.forall_mem_cons.mp h
    obtain ⟨⟨hlow, hhigh⟩, hin⟩ := List.forall_mem_cons.mp hin
    have hnot : ¬(x < s.lowerBound ∨ x > s.upperBound) := by
      simp only at hlow hhigh
      omega
    have hlt := hs.extent_lt
    have harea : toArea (x - s.lowerBound) = (x - s.lowerBound).toNat :=
      toArea_of_lt (Int.sub_nonneg_of_le hlow) (by simp only at hhigh hlt; omega)
    cases l with
    | nil =>
      rw [cellOffsetLoop, if_neg hnot, harea]
      simp [offset]
    | cons t l =>
      obtain ⟨s', y⟩ := t
      have hs' := h (s', y) List.mem_cons_self
      rw [cellOffsetLoop, if_neg hnot, harea, hs'.toArea_extent, ih h hin (List.cons_ne_nil _ _)]
      simp only [List.tail_cons, List.map_cons, List.prod_cons, offset]
      refine congrArg _ ?_
      rw [Nat.add_mod, Nat.mod_mul_mod, ← Nat.add_mod]
      congr 1
      ring

/-! ## From offsets to points -/

/-- The point with a number. -/
def place (m : Minterval) (n : ℕ) : List ℤ :=
  List.zipWith (fun (s : Sinterval) (k : ℕ) => s.lowerBound + k) m (position (m.map width) n)

theorem place_cons (s : Sinterval) (m : Minterval) (n : ℕ) :
    place (s :: m) n = (s.lowerBound + (n / card m : ℕ)) :: place m (n % card m) := rfl

/-- The factor of the rest of the dimensions. -/
theorem factor_eq (h : Narrow s) {f : ℕ} (hf : f < 2 ^ 32) :
    ((f : ℤ).tdiv s.extent % 2 ^ 32).toNat = f / width s := by
  have hlt : f / width s < 2 ^ 32 := (Nat.div_le_self ..).trans_lt hf
  rw [h.extent_eq, Int.tdiv_eq_ediv_of_nonneg (Int.natCast_nonneg _), ← Int.natCast_div,
    Int.emod_eq_of_lt (Int.natCast_nonneg _) (by exact_mod_cast hlt), Int.toNat_natCast]

theorem extent_ne_zero (h : Narrow s) : s.extent ≠ 0 := by
  have := h.width_pos
  rw [h.extent_eq]
  omega

/-- **The loop finds the point** when the number of points fits the factor. -/
theorem cellPointLoop_eq (h : ∀ s ∈ m, Narrow s) (hcard : card m < 2 ^ 32) {n : ℕ}
    (hn : n < card m) : cellPointLoop (card m) n m = .ok (place m n) := by
  induction m generalizing n with
  | nil => rfl
  | cons s m ih =>
    obtain ⟨hs, hm⟩ := List.forall_mem_cons.mp h
    have hpos := card_pos hm
    have hfactor : card (s :: m) / width s = card m := by
      rw [card_cons, Nat.mul_div_cancel_left _ hs.width_pos]
    have hle : card m ≤ card (s :: m) := Nat.le_mul_of_pos_left _ hs.width_pos
    have hdiv : n / card m < width s := Nat.div_lt_of_lt_mul (by rwa [Nat.mul_comm, ← card_cons])
    have hquot : (n - n % card m) / card m = n / card m := Nat.div_eq_sub_mod_div.symm
    have hnonneg : (0 : ℤ) ≤ (n / card m : ℕ) := Int.natCast_nonneg _
    have hrange : s.lowerBound + (n / card m : ℕ) ≤ s.upperBound := by
      have := hs.low_le_high
      rw [width] at hdiv
      omega
    have hlower := hs.lower
    have hupper := hs.upper
    have hextent := hs.extent_lt
    rw [cellPointLoop, if_neg (extent_ne_zero hs), factor_eq hs hcard, hfactor]
    simp only [if_neg hpos.ne', hquot]
    rw [ih hm (hle.trans_lt hcard) (Nat.mod_lt _ hpos), toRange_of_lt (x := (n / card m : ℕ)) (by omega)
      (by omega), toRange_of_lt (by omega) (by omega), place_cons]
    rfl

/-- The number of points that the factor starts with. -/
theorem foldl_factor (h : ∀ s ∈ m, Narrow s) (k : ℕ) :
    m.foldl (fun factor s => (factor * s.extent % 2 ^ 32).toNat) (k % 2 ^ 32) =
      k * card m % 2 ^ 32 := by
  induction m generalizing k with
  | nil => simp [card]
  | cons s m ih =>
    obtain ⟨hs, hm⟩ := List.forall_mem_cons.mp h
    have hstep : (((k % 2 ^ 32 : ℕ) : ℤ) * s.extent % 2 ^ 32).toNat = k * width s % 2 ^ 32 := by
      rw [hs.extent_eq, ← Nat.mod_mul_mod]
      norm_cast
    rw [List.foldl_cons, hstep, ih hm, card_cons, Nat.mul_assoc]

/-- **With a smaller factor the loop misses a point**, or divides by zero. -/
theorem exists_cellPointLoop_ne (h : ∀ t ∈ s :: m, Narrow t) {f : ℕ} (hf : f < 2 ^ 32)
    (hlt : f < card (s :: m)) :
    ∃ n < card (s :: m), cellPointLoop f n (s :: m) ≠ .ok (place (s :: m) n) := by
  obtain ⟨hs, hm⟩ := List.forall_mem_cons.mp h
  have hless : f / width s < card m := Nat.div_lt_of_lt_mul (by rwa [← card_cons])
  rcases Nat.eq_zero_or_pos (f / width s) with hzero | hpos
  · refine ⟨0, card_pos h, ?_⟩
    rw [cellPointLoop, if_neg (extent_ne_zero hs), factor_eq hs hf]
    simp only [if_pos hzero]
    exact nofun
  · refine ⟨f / width s, hless.trans_le (Nat.le_mul_of_pos_left _ hs.width_pos), fun hok => ?_⟩
    have hone : (f / width s - f / width s % (f / width s)) / (f / width s) = 1 := by
      rw [Nat.mod_self, Nat.sub_zero, Nat.div_self hpos]
    rw [cellPointLoop, if_neg (extent_ne_zero hs), factor_eq hs hf] at hok
    simp only [if_neg hpos.ne', hone, place_cons, Nat.div_eq_of_lt hless] at hok
    -- the first coordinate is one too large
    cases hrest : cellPointLoop (f / width s) (f / width s % (f / width s)) m with
    | error e =>
      rw [hrest] at hok
      exact nomatch hok
    | ok pt =>
      rw [hrest] at hok
      have hhead : toRange (s.lowerBound + toRange 1) = s.lowerBound + 0 :=
        (List.cons.inj (Except.ok.inj hok)).1
      have hlower := hs.lower
      have hupper := hs.low_le_high.trans_lt hs.upper
      rw [toRange_of_lt (x := 1) (by omega) (by omega), toRange, Int.bmod_def] at hhead
      omega

end Minterval

/-! ## Row-major order -/

/-- Positions in lexicographic order have increasing numbers. -/
theorem offset_ofFn_lt {n : ℕ} {e x y : Fin n → ℕ} (hx : ∀ i, x i < e i) (h : toLex x < toLex y) :
    offset (List.ofFn e) (List.ofFn x) < offset (List.ofFn e) (List.ofFn y) := by
  induction n with
  | zero => exact absurd h (by rw [Subsingleton.elim x y]; exact lt_irrefl _)
  | succ n ih =>
    have hlex : x 0 < y 0 ∨ x 0 = y 0 ∧ toLex (Fin.tail x) < toLex (Fin.tail y) := by
      rw [← Fin.cons_self_tail x, ← Fin.cons_self_tail y] at h
      exact (Fin.pi_lex_lt_cons_cons _).mp h
    have htail : List.Forall₂ (· < ·) (List.ofFn fun i => x (Fin.succ i))
        (List.ofFn fun i => e (Fin.succ i)) :=
      List.forall₂_iff_get.mpr ⟨by simp, fun i _ _ => by simpa using hx _⟩
    have hrest := offset_lt htail
    simp only [List.ofFn_succ, offset]
    rcases hlex with hfirst | ⟨heq, hfirst⟩
    · calc x 0 * _ + _ < x 0 * _ + _ := Nat.add_lt_add_left hrest _
        _ = (x 0 + 1) * _ := (Nat.succ_mul ..).symm
        _ ≤ y 0 * _ := Nat.mul_le_mul_right _ hfirst
        _ ≤ _ := Nat.le_add_right ..
    · rw [heq]
      exact Nat.add_lt_add_left (ih (fun i => hx i.succ) hfirst) _

namespace Box

open Minterval (Narrow place)

variable {d : ℕ} {b : Box (d + 1)} {p q : Point (d + 1)} {n : ℕ}

theorem index_lt_index (hp : p ∈ b) (hq : q ∈ b) (h : toLex p < toLex q) : b.index p < b.index q := by
  refine offset_ofFn_lt (fun i => ?_) ?_
  · have := hp i
    rw [extent]
    omega
  · obtain ⟨i, heq, hlt⟩ := h
    refine ⟨i, fun j hj => ?_, ?_⟩
    · have := heq j hj
      simp only [Pi.toLex_apply] at this ⊢
      rw [this]
    · have := hp i
      have := hq i
      simp only [Pi.toLex_apply] at hlt ⊢
      omega

theorem narrow (hrange : b.InRange) (hcard : b.cells.card < 2 ^ 63) :
    ∀ s ∈ b.toMinterval, Narrow s := by
  intro s hs
  obtain ⟨i, rfl⟩ := List.mem_ofFn.mp hs
  have hle : b.extent i ≤ b.cells.card := by
    rw [← prod_extents]
    exact Nat.le_of_dvd (b.prod_extents ▸ b.card_cells_pos)
      (List.dvd_prod (List.mem_ofFn.mpr ⟨i, rfl⟩))
  obtain ⟨hlower, hupper⟩ := hrange i
  refine ⟨⟨rfl, rfl⟩, b.low_le_high i, hlower, hupper, ?_⟩
  rw [extent] at hle
  simp only [Sinterval.fixed]
  omega

theorem map_width_toMinterval (b : Box (d + 1)) : b.toMinterval.map Minterval.width = b.extents := by
  rw [toMinterval, List.map_ofFn]
  rfl

theorem card_toMinterval (b : Box (d + 1)) : b.toMinterval.card = b.cells.card := by
  rw [Minterval.card, map_width_toMinterval, prod_extents]

theorem toMinterval_ne_nil (b : Box (d + 1)) : b.toMinterval ≠ [] := by
  rw [toMinterval, List.ofFn_succ]
  exact List.cons_ne_nil _ _

theorem place_toMinterval (b : Box (d + 1)) (n : ℕ) :
    place b.toMinterval n = List.ofFn (b.pointAt n) := by
  rw [place, map_width_toMinterval]
  refine List.ext_getElem (by simp [toMinterval]) fun i hi _ => ?_
  have hlen : i < (position b.extents n).length := by
    simp [toMinterval] at hi ⊢
    exact hi
  simp only [List.getElem_zipWith, toMinterval, List.getElem_ofFn, pointAt, Sinterval.fixed,
    List.getD_eq_getElem?_getD, List.getElem?_eq_getElem hlen, Option.getD_some]

/-- **`cell_offset` numbers the cells of the domain.** -/
theorem cellOffset_toMinterval (hrange : b.InRange) (hcard : b.cells.card < 2 ^ 63) (hp : p ∈ b) :
    b.toMinterval.cellOffset (List.ofFn p) = .ok (b.index p) := by
  have hnarrow := narrow hrange hcard
  have hzip : b.toMinterval.zip (List.ofFn p) =
      List.ofFn fun i => (Sinterval.fixed (b.low i) (b.high i), p i) :=
    List.ext_getElem (by simp [toMinterval]) fun i _ _ => by
      simp only [List.getElem_zip, toMinterval, List.getElem_ofFn]
  have hloop := Minterval.cellOffsetLoop_eq (l := b.toMinterval.zip (List.ofFn p))
    (fun t ht => hnarrow _ (List.of_mem_zip ht).1)
    (by rw [hzip]; exact List.forall_mem_ofFn_iff.mpr hp) (by rw [hzip, List.ofFn_succ]; simp) 0
  rw [Minterval.cellOffset, if_neg (by simp [toMinterval]),
    Minterval.getExtent_eq hnarrow b.toMinterval_ne_nil]
  refine hloop.trans (congrArg _ ?_)
  rw [Nat.zero_mul, Nat.zero_add, hzip, List.map_ofFn, List.map_ofFn]
  exact Nat.mod_eq_of_lt ((index_lt hp).trans (hcard.trans (by decide)))

theorem cellCount_toMinterval (hrange : b.InRange) (hcard : b.cells.card < 2 ^ 63) :
    b.toMinterval.cellCount = .ok b.cells.card := by
  rw [Minterval.cellCount_eq (narrow hrange hcard) b.toMinterval_ne_nil, card_toMinterval,
    Nat.mod_eq_of_lt (hcard.trans (by decide))]

/-- `cell_point` after its test of the offset. -/
theorem cellPoint_toMinterval (hrange : b.InRange) (hcard : b.cells.card < 2 ^ 63)
    (hn : n < b.cells.card) : b.toMinterval.cellPoint n =
      Minterval.cellPointLoop (b.cells.card % 2 ^ 32) n b.toMinterval := by
  have hfactor := Minterval.foldl_factor (narrow hrange hcard) 1
  rw [Nat.one_mod_eq_one.mpr (by decide), Nat.one_mul, card_toMinterval] at hfactor
  rw [Minterval.cellPoint, cellCount_toMinterval hrange hcard]
  simp only [if_neg hn.not_ge]
  rw [hfactor]

/-- **Numbers and points undo each other**, and the numbers increase in row-major order. -/
structure CellsNumbered (b : Box (d + 1)) : Prop where
  point_of_offset : ∀ p ∈ b, ∃ offset, b.toMinterval.cellOffset (List.ofFn p) = .ok offset ∧
    b.toMinterval.cellPoint offset = .ok (List.ofFn p)
  offset_of_point : ∀ cellCount, b.toMinterval.cellCount = .ok cellCount → ∀ offset < cellCount,
    ∃ point, b.toMinterval.cellPoint offset = .ok point ∧ b.toMinterval.cellOffset point = .ok offset
  increasing : ∀ p ∈ b, ∀ q ∈ b, toLex p < toLex q → ∃ offset offset',
    b.toMinterval.cellOffset (List.ofFn p) = .ok offset ∧
      b.toMinterval.cellOffset (List.ofFn q) = .ok offset' ∧ offset < offset'

/-- **The cells of a domain are numbered one to one** if and only if there are less than `2^32`. -/
theorem cells_numbered_iff (hrange : b.InRange) (hcard : b.cells.card < 2 ^ 63) :
    b.CellsNumbered ↔ b.cells.card < 2 ^ 32 := by
  have hnarrow := narrow hrange hcard
  constructor
  · rintro ⟨hpoint, -, -⟩
    by_contra hlarge
    obtain ⟨s, m, hsm⟩ := List.exists_cons_of_ne_nil b.toMinterval_ne_nil
    have hcardm := b.card_toMinterval
    have hmod : b.cells.card % 2 ^ 32 < b.cells.card :=
      (Nat.mod_lt _ (by decide)).trans_le (Nat.not_lt.mp hlarge)
    rw [hsm] at hnarrow hcardm
    obtain ⟨n, hn, hne⟩ := Minterval.exists_cellPointLoop_ne hnarrow
      (Nat.mod_lt b.cells.card (by decide)) (hcardm.symm ▸ hmod)
    rw [hcardm] at hn
    obtain ⟨offset, hoffset, hok⟩ := hpoint _ (pointAt_mem hn)
    rw [cellOffset_toMinterval hrange hcard (pointAt_mem hn), index_pointAt hn] at hoffset
    obtain rfl := Except.ok.inj hoffset
    rw [cellPoint_toMinterval hrange hcard hn, ← place_toMinterval, hsm] at hok
    exact hne hok
  · intro hsmall
    have hok : ∀ n < b.cells.card, b.toMinterval.cellPoint n = .ok (List.ofFn (b.pointAt n)) := by
      intro n hn
      have hloop := Minterval.cellPointLoop_eq hnarrow (n := n)
        (by rwa [card_toMinterval]) (by rwa [card_toMinterval])
      rwa [card_toMinterval, place_toMinterval, ← Nat.mod_eq_of_lt hsmall,
        ← cellPoint_toMinterval hrange hcard hn] at hloop
    refine ⟨fun p hp => ⟨_, cellOffset_toMinterval hrange hcard hp, ?_⟩, fun cellCount hcount n hn => ?_,
      fun p hp q hq h => ⟨_, _, cellOffset_toMinterval hrange hcard hp,
        cellOffset_toMinterval hrange hcard hq, index_lt_index hp hq h⟩⟩
    · rw [hok _ (index_lt hp), pointAt_index hp]
    · rw [cellCount_toMinterval hrange hcard] at hcount
      obtain rfl := Except.ok.inj hcount
      refine ⟨_, hok n hn, ?_⟩
      rw [cellOffset_toMinterval hrange hcard (pointAt_mem hn), index_pointAt hn]

/-- The domain `[0:7,0:2]`, all of it. -/
theorem cells_numbered_iff_threeColumns :
    (⟨![0, 0], ![7, 2], by decide⟩ : Box 2).CellsNumbered ↔
      (⟨![0, 0], ![7, 2], by decide⟩ : Box 2).cells.card < 2 ^ 32 :=
  cells_numbered_iff (by decide) (by rw [card_cells]; decide)

/-- **The domain `[0:1,0:4294967295]`**: the factor of `2^33` cells is 0. -/
theorem not_cellsNumbered_longRows :
    ¬∀ b : Box 2, b.InRange → b.cells.card < 2 ^ 63 → b.CellsNumbered := by
  intro h
  have hcard : (⟨![0, 0], ![1, 4294967295], by decide⟩ : Box 2).cells.card = 2 ^ 33 := by
    rw [card_cells]
    decide
  obtain ⟨o, ho, hp⟩ := (h ⟨![0, 0], ![1, 4294967295], by decide⟩ (by decide)
    (by rw [hcard]; decide)).point_of_offset ![0, 0] (by decide)
  obtain rfl : 0 = o := Except.ok.inj ho
  exact nomatch hp

end Box

end Rasdaman
