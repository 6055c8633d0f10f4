import Mathlib.Tactic.Ring
import Rasdaman.Raslib.CellOffset

/-!
# Raslib/Miterd — the iterator over an area of an array

`r_MiterDirect` walks through the points of an area of an array, the last dimension fastest, and keeps
for each dimension the address of the point where the dimension stands.  `++` moves the last dimension
on and carries; the callers that copy whole rows push the position of the last dimension past its end
first.  `placed` is the state at a given point, and `next_skip` says that such a step goes on
to the next row.
-/

namespace Rasdaman

open RowMajor

/-- `r_miter_direct_data`; the address is relative to the start of the array. -/
structure MiterDim where
  low : ℤ
  high : ℤ
  pos : ℤ
  step : ℤ
  data : ℤ
  deriving DecidableEq

/-- One dimension of the array and of the area. -/
structure MiterSpan where
  origin : ℤ
  extent : ℤ
  low : ℤ
  high : ℤ

/-- The extent of the area. -/
def MiterSpan.iterExtent (sp : MiterSpan) : ℕ := (sp.high - sp.low + 1).toNat

/-- `r_MiterDirect` with step 1; the dimensions stand in reverse order, the last one first. -/
structure MiterDirect where
  id : List MiterDim
  done : Bool
  deriving DecidableEq

namespace MiterDirect

/-- The dimensions of an array and of an area of it, the last one first. -/
def spans {d : ℕ} (total iter : Box d) : List MiterSpan :=
  (List.ofFn fun i => ⟨total.low i, total.high i - total.low i + 1, iter.low i, iter.high i⟩).reverse

/-- The first loop of the constructor: the dimensions, without their addresses, and the offset of
the first point. -/
def setup : (s : ℤ) → List MiterSpan → List MiterDim × ℤ
  | _, [] => ([], 0)
  | s, sp :: sps =>
    let rest := setup (s * sp.extent) sps
    (⟨sp.low, sp.high, sp.low, s, 0⟩ :: rest.1, s * (sp.low - sp.origin) + rest.2)

/-- The constructor. -/
def make {d : ℕ} (total iter : Box d) (tlen : ℕ) : MiterDirect :=
  let r := setup tlen (spans total iter)
  ⟨r.1.map fun a => { a with data := r.2 }, false⟩

/-- `getData`. -/
def getData (it : MiterDirect) : ℤ := (it.id.head?.map (·.data)).getD 0

/-- The loop of `++` from one dimension down: the dimensions, and whether all of them overflowed.
The dimensions that started again take the address of the one that moved on. -/
def incr : List MiterDim → List MiterDim × Bool
  | [] => ([], true)
  | a :: as =>
    if a.pos + 1 ≤ a.high then ({ a with pos := a.pos + 1, data := a.data + a.step } :: as, false)
    else
      let r := incr as
      if r.2 then ({ a with pos := a.low, data := a.data + a.step } :: r.1, true)
      else ({ a with pos := a.low, data := (r.1.head?.map (·.data)).getD 0 } :: r.1, false)

/-- `operator++`. -/
def next (it : MiterDirect) : MiterDirect :=
  let r := incr it.id
  ⟨r.1, it.done || r.2⟩

/-- `id[dim-1].pos += width`. -/
def skip (it : MiterDirect) (width : ℤ) : MiterDirect :=
  match it.id with
  | [] => it
  | a :: as => { it with id := { a with pos := a.pos + width } :: as }

/-! ## The state at a point -/

/-- The address of the point of the area with number `n`. -/
def addr : (s : ℤ) → List MiterSpan → ℕ → ℤ
  | _, [], _ => 0
  | s, sp :: sps, n =>
    s * (sp.low + (n % sp.iterExtent : ℕ) - sp.origin) + addr (s * sp.extent) sps (n / sp.iterExtent)

/-- The dimensions at the point with number `n`; `c` is the offset of the dimensions before them. -/
def placed : (s c : ℤ) → List MiterSpan → ℕ → List MiterDim
  | _, _, [], _ => []
  | s, c, sp :: sps, n =>
    ⟨sp.low, sp.high, sp.low + (n % sp.iterExtent : ℕ), s, c + addr s (sp :: sps) n⟩ ::
      placed (s * sp.extent) (c + s * (sp.low - sp.origin)) sps (n / sp.iterExtent)

/-- The number of points of an area. -/
def points (sps : List MiterSpan) : ℕ := (sps.map MiterSpan.iterExtent).prod

theorem addr_zero (s : ℤ) (sps : List MiterSpan) : addr s sps 0 = (setup s sps).2 := by
  induction sps generalizing s with
  | nil => rfl
  | cons sp sps ih => simp [addr, setup, ih]

/-- The constructor stands at the first point. -/
theorem setup_eq_placed (s c : ℤ) (sps : List MiterSpan) :
    (setup s sps).1.map (fun a => { a with data := c + addr s sps 0 }) = placed s c sps 0 := by
  induction sps generalizing s c with
  | nil => rfl
  | cons sp sps ih =>
    rw [setup, placed, List.map_cons, Nat.zero_mod, Nat.zero_div, ← ih]
    simp [addr, add_assoc]

theorem head_placed (s c : ℤ) (sp : MiterSpan) (sps : List MiterSpan) (n : ℕ) :
    ((placed s c (sp :: sps) n).head?.map (·.data)).getD 0 = c + addr s (sp :: sps) n := rfl

theorem exists_cons_of_lt_points {sps : List MiterSpan} {k : ℕ} (h : k + 1 < points sps) :
    ∃ sp sps', sps = sp :: sps' := by
  cases sps with
  | nil => exact absurd h (by simp [points])
  | cons sp sps' => exact ⟨sp, sps', rfl⟩

theorem succ_digits {e n : ℕ} (he : 0 < e) :
    (n % e + 1 < e ∧ (n + 1) % e = n % e + 1 ∧ (n + 1) / e = n / e) ∨
      (n % e + 1 = e ∧ (n + 1) % e = 0 ∧ (n + 1) / e = n / e + 1) := by
  have hsplit := Nat.div_add_mod n e
  rcases (show n % e + 1 ≤ e from Nat.mod_lt n he).lt_or_eq with hlt | heq
  · left
    have hn : n + 1 = e * (n / e) + (n % e + 1) := by omega
    rw [hn, Nat.mul_add_mod, Nat.mod_eq_of_lt hlt, Nat.mul_add_div he, Nat.div_eq_of_lt hlt]
    exact ⟨hlt, rfl, rfl⟩
  · right
    have hn : n + 1 = e * (n / e + 1) := by rw [Nat.mul_succ]; omega
    rw [hn, Nat.mul_mod_right, Nat.mul_div_cancel_left _ he]
    exact ⟨heq, rfl, rfl⟩

/-- **`++` goes from a point to the next one**, and overflows at the last. -/
theorem incr_placed {s c : ℤ} {sps : List MiterSpan} {n : ℕ} (hsps : ∀ sp ∈ sps, sp.low ≤ sp.high)
    (hn : n < points sps) :
    (n + 1 < points sps → incr (placed s c sps n) = (placed s c sps (n + 1), false)) ∧
      (n + 1 = points sps → (incr (placed s c sps n)).2 = true) := by
  induction sps generalizing s c n with
  | nil =>
    rw [points, List.map_nil, List.prod_nil] at hn ⊢
    exact ⟨fun h => absurd h (by omega), fun _ => rfl⟩
  | cons sp sps ih =>
    obtain ⟨hsp, hsps⟩ := List.forall_mem_cons.mp hsps
    have hpos : 0 < sp.iterExtent := by rw [MiterSpan.iterExtent]; omega
    have hprod : points (sp :: sps) = sp.iterExtent * points sps := rfl
    have hdiv : n / sp.iterExtent < points sps := Nat.div_lt_of_lt_mul (by rwa [← hprod])
    obtain ⟨hnext, hover⟩ := ih (s := s * sp.extent) (c := c + s * (sp.low - sp.origin)) hsps hdiv
    have hhigh : sp.low + (n % sp.iterExtent : ℕ) + 1 ≤ sp.high ↔
        n % sp.iterExtent + 1 < sp.iterExtent := by
      rw [MiterSpan.iterExtent] at hpos ⊢
      omega
    rw [placed, incr]
    simp only [hhigh]
    rcases succ_digits (n := n) hpos with ⟨hin, hmod, hq⟩ | ⟨hout, hmod, hq⟩
    · -- the last dimension moves on
      rw [if_pos hin]
      refine ⟨fun _ => ?_, fun h => ?_⟩
      · rw [placed, hmod, hq, addr, addr, hmod, hq, Nat.cast_succ]
        congr 3
        · ring
        · ring
      · rw [h, hprod, Nat.mul_mod_right] at hmod
        omega
    · -- it starts again, and the dimensions before it move on
      rw [if_neg (by omega)]
      refine ⟨fun h => ?_, fun h => ?_⟩
      · have hlt : n / sp.iterExtent + 1 < points sps := by
          rw [← hq]
          exact Nat.div_lt_of_lt_mul (by rwa [← hprod])
        have haddr : addr s (sp :: sps) (n + 1) =
            s * (sp.low - sp.origin) + addr (s * sp.extent) sps (n / sp.iterExtent + 1) := by
          rw [addr, hmod, hq, Nat.cast_zero, add_zero]
        rw [hnext hlt, placed, hmod, hq, haddr, Nat.cast_zero, add_zero]
        obtain ⟨sp', sps, rfl⟩ := exists_cons_of_lt_points hlt
        rw [if_neg (by simp), head_placed, add_assoc]
      · have heq : n / sp.iterExtent + 1 = points sps := by
          rw [← hq, h, hprod, Nat.mul_div_cancel_left _ hpos]
        rw [if_pos (hover heq)]

/-- **Past the end of a row, `++` goes on to the next row**, or overflows at the last. -/
theorem incr_row {s : ℤ} {sp : MiterSpan} {sps : List MiterSpan} {k : ℕ} {w : ℤ}
    (hsps : ∀ sp' ∈ sp :: sps, sp'.low ≤ sp'.high) (hw : sp.iterExtent ≤ w) (hk : k < points sps) :
    let a := placed s 0 (sp :: sps) (k * sp.iterExtent)
    (k + 1 < points sps →
        (skip ⟨a, false⟩ w).next = ⟨placed s 0 (sp :: sps) ((k + 1) * sp.iterExtent), false⟩) ∧
      (k + 1 = points sps → (skip ⟨a, false⟩ w).next.done = true) := by
  obtain ⟨hsp, hrest⟩ := List.forall_mem_cons.mp hsps
  have hpos : 0 < sp.iterExtent := by rw [MiterSpan.iterExtent]; omega
  obtain ⟨hnext, hover⟩ := incr_placed (s := s * sp.extent) (c := 0 + s * (sp.low - sp.origin)) hrest hk
  have hhigh : ¬sp.low + ((0 : ℕ) : ℤ) + w + 1 ≤ sp.high := by
    rw [MiterSpan.iterExtent] at hw
    omega
  intro a
  simp only [a, placed, skip, next, incr, Nat.mul_mod_left, Nat.mul_div_cancel _ hpos, if_neg hhigh,
    Bool.false_or]
  refine ⟨fun h => ?_, fun h => ?_⟩
  · obtain ⟨sp', sps, rfl⟩ := exists_cons_of_lt_points h
    rw [hnext h]
    simp only [head_placed, addr, Nat.mul_mod_left, Nat.mul_div_cancel _ hpos, Nat.cast_zero,
      add_zero, zero_add, Bool.false_eq_true, if_false]
  · rw [if_pos (hover h)]

/-! ## Addresses are offsets -/

/-- The coordinates, in the array, of the point of the area with number `n`; the dimensions stand in
their own order. -/
def coordsAt (sps : List MiterSpan) (n : ℕ) : List ℕ :=
  List.zipWith (fun (sp : MiterSpan) (x : ℕ) => (sp.low + x - sp.origin).toNat) sps
    (position (sps.map MiterSpan.iterExtent) n)

theorem addr_reverse {sps : List MiterSpan} {s : ℤ} {n : ℕ}
    (hsps : ∀ sp ∈ sps, sp.origin ≤ sp.low ∧ 0 ≤ sp.extent) (hn : n < points sps) :
    addr s sps.reverse n =
      s * (offset (sps.map fun sp => sp.extent.toNat) (coordsAt sps n) : ℕ) := by
  induction sps using List.reverseRecOn generalizing s n with
  | nil => simp [addr, offset]
  | append_singleton sps sp ih =>
    obtain ⟨hsps, hsp⟩ := List.forall_mem_append.mp hsps
    obtain ⟨hlow, hext⟩ := List.forall_mem_singleton.mp hsp
    have hprod : points (sps ++ [sp]) = points sps * sp.iterExtent := by
      rw [points, List.map_append, List.prod_append, List.map_singleton, List.prod_singleton, points]
    have hdiv : n / sp.iterExtent < points sps :=
      Nat.div_lt_of_lt_mul (by rwa [Nat.mul_comm, ← hprod])
    have hcoords : coordsAt (sps ++ [sp]) n = coordsAt sps (n / sp.iterExtent) ++
        [(sp.low + (n % sp.iterExtent : ℕ) - sp.origin).toNat] := by
      rw [points, List.map_append, List.map_singleton] at hn
      rw [coordsAt, List.map_append, List.map_singleton, position_concat hn, coordsAt,
        List.zipWith_append (by simp)]
      rfl
    rw [List.reverse_append, List.reverse_singleton, List.singleton_append, addr, ih hsps hdiv,
      List.map_append, List.map_singleton, hcoords, offset_concat _ _ (by simp [coordsAt])]
    push_cast
    rw [Int.toNat_of_nonneg hext, Int.toNat_of_nonneg (by omega)]
    ring

/-! ## Rows of an area -/

section Area

variable {d : ℕ} (total iter : Box (d + 1)) (tlen : ℕ)

/-- The iterator at the start of row `k`. -/
def rowState (k : ℕ) : MiterDirect := ⟨placed tlen 0 (spans total iter) (k * iter.width), false⟩

theorem make_eq_rowState : make total iter tlen = rowState total iter tlen 0 := by
  rw [make, rowState, Nat.zero_mul, ← setup_eq_placed, addr_zero]
  simp

/-- The dimensions but the last one, in reverse order. -/
def initSpans : List MiterSpan :=
  (List.ofFn fun i : Fin d => (⟨total.low i.castSucc,
    total.high i.castSucc - total.low i.castSucc + 1, iter.low i.castSucc,
    iter.high i.castSucc⟩ : MiterSpan)).reverse

/-- The last dimension. -/
def lastSpan : MiterSpan :=
  ⟨total.low (Fin.last d), total.high (Fin.last d) - total.low (Fin.last d) + 1,
    iter.low (Fin.last d), iter.high (Fin.last d)⟩

theorem spans_eq : spans total iter = lastSpan total iter :: initSpans total iter := by
  rw [spans, List.ofFn_succ', List.concat_eq_append, List.reverse_append, List.reverse_singleton]
  rfl

theorem iterExtent_lastSpan : (lastSpan total iter).iterExtent = iter.width := rfl

theorem points_spans : points (spans total iter) = iter.cells.card := by
  rw [points, spans, List.map_reverse, List.prod_reverse, List.map_ofFn, ← Box.prod_extents]
  rfl

theorem points_initSpans : points (initSpans total iter) = iter.rows := by
  have hprod := points_spans total iter
  rw [spans_eq, points, List.map_cons, List.prod_cons, iterExtent_lastSpan] at hprod
  rw [Box.rows, ← hprod, Nat.mul_div_cancel_left _ iter.width_pos]
  rfl

theorem low_le_high_spans : ∀ sp ∈ spans total iter, sp.low ≤ sp.high := by
  intro sp hsp
  obtain ⟨i, rfl⟩ := List.mem_ofFn.mp (List.mem_reverse.mp hsp)
  exact iter.low_le_high i

variable {total iter tlen} {k : ℕ}

/-- **A step past the end of a row leads to the next row.** -/
theorem next_skip_rowState (hk : k + 1 < iter.rows) :
    ((rowState total iter tlen k).skip iter.width).next = rowState total iter tlen (k + 1) := by
  have hrow := incr_row (s := tlen) (k := k) (w := iter.width)
    (by rw [← spans_eq total iter]; exact low_le_high_spans total iter) le_rfl
    (by rw [points_initSpans]; omega)
  rw [← spans_eq, iterExtent_lastSpan, points_initSpans] at hrow
  exact hrow.1 hk

/-- The step past the end of the last row ends the walk. -/
theorem done_skip_rowState (hk : k + 1 = iter.rows) :
    ((rowState total iter tlen k).skip iter.width).next.done = true := by
  have hrow := incr_row (s := tlen) (k := k) (w := iter.width)
    (by rw [← spans_eq total iter]; exact low_le_high_spans total iter) le_rfl
    (by rw [points_initSpans]; omega)
  rw [← spans_eq, iterExtent_lastSpan, points_initSpans] at hrow
  exact hrow.2 hk

/-- **The address of a point is its offset in the array.** -/
theorem addr_spans (hc : total.Covers iter) {n : ℕ} (hn : n < iter.cells.card) :
    addr tlen (spans total iter) n = (tlen * total.index (iter.pointAt n) : ℕ) := by
  have hpoints := points_spans total iter
  rw [spans, points, List.map_reverse, List.prod_reverse] at hpoints
  rw [spans, addr_reverse _ (by rwa [points, hpoints]), Nat.cast_mul, Box.index]
  · congr 3
    · rw [List.map_ofFn]
      rfl
    · have hext : (List.ofFn fun i => (⟨total.low i, total.high i - total.low i + 1, iter.low i,
          iter.high i⟩ : MiterSpan)).map MiterSpan.iterExtent = iter.extents := by
        rw [List.map_ofFn]
        rfl
      rw [coordsAt, hext]
      refine List.ext_getElem (by simp) fun i hi _ => ?_
      have hlen : i < (position iter.extents n).length := by simp at hi ⊢; exact hi
      simp only [List.getElem_zipWith, List.getElem_ofFn, Box.coords, Box.pointAt,
        List.getD_eq_getElem?_getD, List.getElem?_eq_getElem hlen, Option.getD_some]
  · intro sp hsp
    obtain ⟨i, rfl⟩ := List.mem_ofFn.mp hsp
    have := total.low_le_high i
    exact ⟨(hc i).1, by simp only; omega⟩

theorem getData_rowState (hc : total.Covers iter) (hk : k < iter.rows) :
    (rowState total iter tlen k).getData =
      (tlen * total.index (iter.pointAt (k * iter.width)) : ℕ) := by
  have hn : k * iter.width < iter.cells.card := iter.row_lt hk
  rw [rowState, getData, spans_eq, head_placed, zero_add, ← spans_eq, addr_spans hc hn]

end Area

end MiterDirect

end Rasdaman
