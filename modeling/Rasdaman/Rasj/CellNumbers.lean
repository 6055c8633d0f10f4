import Mathlib.Data.Int.ModEq
import Rasdaman.Raslib.MintervalOps

/-!
# Rasj/CellNumbers — offsets and points in the Java client

`cellOffset` and `cellPoint` count in `long`s and take an open bound as 0, where `r_Minterval` counts in
unsigned integers and refuses open bounds.  The section on offsets says when the two agree, the one on
points when they do on domains whose extents are less than `2^63`.
-/

namespace Rasdaman

/-- How a call ends. -/
inductive Outcome (α : Type)
  | returns (value : α)
  | throws
  | aborts
  deriving DecidableEq

/-- The same outcome with another form of the value. -/
def Outcome.map {α β : Type} (f : α → β) : Outcome α → Outcome β
  | returns value => returns (f value)
  | throws => throws
  | aborts => aborts

/-- A result that is there, or an exception. -/
def Outcome.ofOption {α : Type} : Option α → Outcome α
  | some value => returns value
  | none => throws

namespace RasMInterval

/-- What `cellOffset` and `cellPoint` throw. -/
inductive CellException
  | indexOutOfBounds
  | resultIsNoCell
  | arithmetic

/-- The loop of `cellOffset` over the intervals and coordinates that are left.  A point with too few
coordinates throws, and so does a domain without an interval. -/
def cellOffsetLoop : (offset : ℤ) → Minterval → List ℤ → Except CellException ℤ
  | _, [], _ => .error .indexOutOfBounds
  | _, _ :: _, [] => .error .indexOutOfBounds
  | offset, [s], x :: _ =>
    if x < s.lowerBound ∨ x > s.upperBound then .error .indexOutOfBounds
    else .ok (toRange (offset + (x - s.lowerBound)))
  | offset, s :: t :: m, x :: xs =>
    if x < s.lowerBound ∨ x > s.upperBound then .error .indexOutOfBounds
    else
      cellOffsetLoop (toRange ((offset + x - s.lowerBound) * (t.upperBound - t.lowerBound + 1))) (t :: m) xs

/-- `cellOffset`. -/
def cellOffset (m : Minterval) (point : List ℤ) : Except CellException ℤ := cellOffsetLoop 0 m point

/-- `cellCount`. -/
def cellCount (m : Minterval) : ℤ :=
  m.foldl (fun cellCount s => toRange (cellCount * (s.upperBound - s.lowerBound + 1))) 1

/-- The loop of `cellPoint` over the intervals that are left; a division by zero throws. -/
def cellPointLoop : (factor offset : ℤ) → Minterval → Except CellException (List ℤ)
  | _, _, [] => .ok []
  | factor, offset, s :: m =>
    let extent := toRange (s.upperBound - s.lowerBound + 1)
    if extent = 0 then .error .arithmetic
    else
      let factor := toRange (factor.tdiv extent)
      if factor = 0 then .error .arithmetic
      else do
        let pt ← cellPointLoop factor (offset.tmod factor) m
        return toRange (s.lowerBound + (offset - offset.tmod factor).tdiv factor) :: pt

/-- `cellPoint`; `factor` starts as the number of cells. -/
def cellPoint (m : Minterval) (offset : ℤ) : Except CellException (List ℤ) :=
  if offset ≥ cellCount m then .error .resultIsNoCell else cellPointLoop (cellCount m) offset m

/-! ## Offsets -/

variable {s : Sinterval} {m : Minterval} {p : List ℤ}

theorem toRange_modEq (x : ℤ) : toRange x ≡ x [ZMOD 2 ^ 64] := Int.bmod_emod

theorem toArea_modEq (x : ℤ) : (toArea x : ℤ) ≡ x [ZMOD 2 ^ 64] := by
  rw [toArea, Int.toNat_of_nonneg (Int.emod_nonneg _ (by decide))]
  exact Int.mod_modEq x _

theorem toRange_congr {x y : ℤ} (h : x ≡ y [ZMOD 2 ^ 64]) : toRange x = toRange y := by
  rw [toRange, toRange, ← Int.emod_bmod x, ← Int.emod_bmod y]
  exact congrArg (fun z : ℤ => z.bmod _) h

/-- A number is the same as an `r_Range` and as an `r_Area` if it is less than `2^63` as an `r_Area`. -/
theorem toRange_eq_toArea_iff (x : ℤ) : toRange x = toArea x ↔ x % 2 ^ 64 < 2 ^ 63 := by
  rw [toArea, Int.toNat_of_nonneg (Int.emod_nonneg _ (by decide)), toRange, Int.bmod_def]
  omega

/-- The number of a point, counted on from an offset. -/
def rowOffset : (offset : ℤ) → Minterval → List ℤ → ℤ
  | offset, [s], x :: _ => offset + (x - s.lowerBound)
  | offset, s :: t :: m, x :: xs =>
    rowOffset ((offset + x - s.lowerBound) * (t.upperBound - t.lowerBound + 1)) (t :: m) xs
  | offset, _, _ => offset

/-- The domain has intervals, the point has enough coordinates, and they lie between the bounds, where an
open bound is 0. -/
def Inside (m : Minterval) (p : List ℤ) : Prop :=
  m ≠ [] ∧ m.length ≤ p.length ∧ ∀ t ∈ m.zip p, t.1.lowerBound ≤ t.2 ∧ t.2 ≤ t.1.upperBound

instance (m : Minterval) (p : List ℤ) : Decidable (Inside m p) :=
  inferInstanceAs (Decidable (_ ∧ _ ∧ _))

theorem rowOffset_modEq {o o' : ℤ} (h : o ≡ o' [ZMOD 2 ^ 64]) (m : Minterval) (p : List ℤ) :
    rowOffset o m p ≡ rowOffset o' m p [ZMOD 2 ^ 64] := by
  induction m generalizing o o' p with
  | nil => simpa [rowOffset] using h
  | cons s m ih =>
    cases p with
    | nil => simpa [rowOffset] using h
    | cons x p =>
      cases m with
      | nil => exact h.add_right _
      | cons t m => exact ih (((h.add_right _).sub_right _).mul_right _) p

theorem inside_cons {x : ℤ} {t : Sinterval} : Inside (s :: t :: m) (x :: p) ↔
    ¬(x < s.lowerBound ∨ x > s.upperBound) ∧ Inside (t :: m) p := by
  rw [Inside, Inside, List.zip_cons_cons, List.forall_mem_cons, not_or, not_lt, gt_iff_lt, not_lt,
    List.length_cons (a := s), List.length_cons (a := x), Nat.add_le_add_iff_right]
  exact ⟨fun h => ⟨h.2.2.1, List.cons_ne_nil _ _, h.2.1, h.2.2.2⟩,
    fun h => ⟨List.cons_ne_nil _ _, h.2.2.1, h.1, h.2.2.2⟩⟩

theorem inside_singleton {x : ℤ} : Inside [s] (x :: p) ↔ ¬(x < s.lowerBound ∨ x > s.upperBound) := by
  simp [Inside]

/-- **`cellOffset` is the number of a point inside**, as a `long`. -/
theorem cellOffsetLoop_eq (o : ℤ) (m : Minterval) (p : List ℤ) : cellOffsetLoop o m p =
    if Inside m p then .ok (toRange (rowOffset o m p)) else .error .indexOutOfBounds := by
  induction m generalizing o p with
  | nil => rw [cellOffsetLoop, if_neg fun h => h.1 rfl]
  | cons s m ih =>
    cases p with
    | nil => rw [cellOffsetLoop, if_neg fun h => absurd h.2.1 (by simp)]
    | cons x p =>
      cases m with
      | nil =>
        rw [cellOffsetLoop, rowOffset, ← ite_not]
        simp only [inside_singleton]
      | cons t m =>
        have hcongr := toRange_congr (rowOffset_modEq (toRange_modEq
          ((o + x - s.lowerBound) * (t.upperBound - t.lowerBound + 1))) (t :: m) p)
        rw [cellOffsetLoop, rowOffset, ih, hcongr]
        simp only [inside_cons]
        split <;> simp [*]

theorem toArea_congr {x y : ℤ} (h : x ≡ y [ZMOD 2 ^ 64]) : toArea x = toArea y :=
  congrArg Int.toNat h

theorem mod_areaModulus (n : ℕ) : n % areaModulus = toArea n := by
  rw [toArea, areaModulus]
  norm_cast

theorem extent_modEq (s : Sinterval) : s.extent ≡ s.upperBound - s.lowerBound + 1 [ZMOD 2 ^ 64] :=
  toRange_modEq _

/-- `cell_offset` of `r_Minterval` is the number of a point inside, as an `r_Area`. -/
theorem cellOffsetLoop_zip (o : ℕ) (hp : m.length = p.length) (hm : m ≠ []) :
    Minterval.cellOffsetLoop o (m.zip p) =
      if Inside m p then .ok (toArea (rowOffset o m p)) else .error .indexViolation := by
  induction m generalizing o p with
  | nil => exact absurd rfl hm
  | cons s m ih =>
    cases p with
    | nil => exact absurd hp (by simp)
    | cons x p =>
      have hsum : (((o + toArea (x - s.lowerBound) : ℕ) : ℤ)) ≡ o + x - s.lowerBound [ZMOD 2 ^ 64] := by
        rw [Nat.cast_add, add_sub_assoc]
        exact (toArea_modEq _).add_left _
      cases m with
      | nil =>
        obtain rfl : p = [] := List.eq_nil_of_length_eq_zero (Nat.succ.inj hp).symm
        rw [List.zip_cons_cons, List.zip_nil_left, Minterval.cellOffsetLoop, rowOffset, mod_areaModulus,
          toArea_congr hsum, add_sub_assoc, ← ite_not]
        simp only [inside_singleton]
      | cons t m =>
        obtain ⟨y, p, rfl⟩ : ∃ y q, p = y :: q :=
          List.exists_cons_of_length_eq_add_one (Nat.succ.inj hp).symm
        have hprod : (((o + toArea (x - s.lowerBound)) * toArea t.extent : ℕ) : ℤ) ≡
            (o + x - s.lowerBound) * (t.upperBound - t.lowerBound + 1) [ZMOD 2 ^ 64] := by
          rw [Nat.cast_mul]
          exact hsum.mul ((toArea_modEq _).trans (extent_modEq t))
        have hcongr := toArea_congr (rowOffset_modEq ((toArea_modEq _).trans hprod) (t :: m) (y :: p))
        rw [List.zip_cons_cons, List.zip_cons_cons, Minterval.cellOffsetLoop, mod_areaModulus, rowOffset,
          ← List.zip_cons_cons, ih _ (Nat.succ.inj hp) (List.cons_ne_nil _ _), hcongr]
        simp only [inside_cons]
        split <;> simp [*]

/-- `cell_offset` has the same offset, or none either. -/
def OffsetAgrees (m : Minterval) (p : List ℤ) : Prop :=
  Inside m p → m.length = p.length ∧ m.isFixed = true ∧ rowOffset 0 m p % 2 ^ 64 < 2 ^ 63

theorem cellOffset_eq (m : Minterval) (p : List ℤ) : m.cellOffset p =
    if m.length ≠ p.length then .error .dimMismatch
    else if m.isFixed = false then .error .intervalOpen
    else if Inside m p then .ok (toArea (rowOffset 0 m p))
    else .error .indexViolation := by
  rw [Minterval.cellOffset, Minterval.getExtent]
  split
  · rfl
  · next hlen =>
    cases hfixed : m.isFixed with
    | false => rfl
    | true =>
      have hm : m ≠ [] := by
        rintro rfl
        exact absurd hfixed (by decide)
      exact cellOffsetLoop_zip 0 (not_not.mp hlen) hm

/-- **When the offsets agree.** -/
theorem cellOffset_agrees_iff (m : Minterval) (p : List ℤ) :
    (cellOffset m p).toOption = (m.cellOffset p).toOption.map (↑) ↔ OffsetAgrees m p := by
  rw [cellOffset, cellOffsetLoop_eq, cellOffset_eq, OffsetAgrees]
  by_cases hin : Inside m p
  · by_cases hlen : m.length = p.length
    · cases m.isFixed with
      | false => simp [hin, hlen, Except.toOption]
      | true => simp [hin, hlen, Except.toOption, toRange_eq_toArea_iff]
    · simp [hin, hlen, Except.toOption]
  · refine iff_of_true ?_ fun h => absurd h hin
    simp only [if_neg hin]
    split_ifs <;> rfl

/-! ## Points -/

/-- How `cellPoint` of the client ends. -/
def pointOutcome (m : Minterval) (offset : ℤ) : Outcome (List ℤ) :=
  match cellPoint m offset with
  | .ok pt => .returns pt
  | .error _ => .throws

/-- How `cell_point` ends; a division by zero ends the process. -/
def pointOutcomeOf (m : Minterval) (offset : ℕ) : Outcome (List ℤ) :=
  match m.cellPoint offset with
  | .ok pt => .returns pt
  | .error .dividesByZero => .aborts
  | .error _ => .throws

/-- The number of cells, where an open bound is 0. -/
def count (m : Minterval) : ℤ := (m.map fun s => s.upperBound - s.lowerBound + 1).prod

theorem count_cons (s : Sinterval) (m : Minterval) :
    count (s :: m) = (s.upperBound - s.lowerBound + 1) * count m := rfl

theorem toRange_of_natAbs_lt {x : ℤ} (h : x.natAbs < 2 ^ 63) : toRange x = x :=
  toRange_of_lt (by omega) (by omega)

theorem cellCount_eq (m : Minterval) : cellCount m = toRange (count m) := by
  have hfold : ∀ c : ℤ, m.foldl (fun cellCount s => toRange (cellCount * (s.upperBound - s.lowerBound + 1)))
      (toRange c) = toRange (c * count m) := by
    induction m with
    | nil => exact fun c => (congrArg toRange (mul_one c)).symm
    | cons s m ih =>
      intro c
      rw [List.foldl_cons, count_cons, ← mul_assoc, ← ih, toRange_congr ((toRange_modEq c).mul_right _)]
  have hone := hfold 1
  rwa [one_mul, toRange_of_natAbs_lt (x := 1) (by decide)] at hone

theorem natAbs_le_mul {x y : ℤ} (hy : y ≠ 0) : x.natAbs ≤ (x * y).natAbs := by
  rw [Int.natAbs_mul]
  exact Nat.le_mul_of_pos_right _ (Int.natAbs_pos.mpr hy)

/-- A round of the loop divides the factor by an extent of it. -/
theorem cellPointLoop_count (offset : ℤ) (h0 : count (s :: m) ≠ 0) (h : (count (s :: m)).natAbs < 2 ^ 63) :
    cellPointLoop (count (s :: m)) offset (s :: m) = do
      let pt ← cellPointLoop (count m) (offset.tmod (count m)) m
      return toRange (s.lowerBound + (offset - offset.tmod (count m)).tdiv (count m)) :: pt := by
  rw [count_cons] at h0 h ⊢
  obtain ⟨hs, hm⟩ := mul_ne_zero_iff.mp h0
  have hextent := toRange_of_natAbs_lt ((natAbs_le_mul hm).trans_lt h)
  have hfactor := toRange_of_natAbs_lt ((natAbs_le_mul hs).trans_lt (mul_comm _ (count m) ▸ h))
  rw [cellPointLoop]
  simp only [hextent, if_neg hs, Int.mul_tdiv_cancel_left _ hs, hfactor, if_neg hm]

/-- The loop finds a point if there are cells. -/
theorem cellPointLoop_returns (offset : ℤ) (h0 : count m ≠ 0) (h : (count m).natAbs < 2 ^ 63) :
    ∃ pt, cellPointLoop (count m) offset m = .ok pt := by
  induction m generalizing offset with
  | nil => exact ⟨[], rfl⟩
  | cons s m ih =>
    obtain ⟨hs, hm⟩ := mul_ne_zero_iff.mp (count_cons s m ▸ h0)
    have hle : (count m).natAbs ≤ (count (s :: m)).natAbs := by
      rw [count_cons, mul_comm]
      exact natAbs_le_mul hs
    obtain ⟨pt, hpt⟩ := ih (offset.tmod (count m)) hm (hle.trans_lt h)
    rw [cellPointLoop_count offset h0 h, hpt]
    exact ⟨_, rfl⟩

/-- The extents are less than `2^63`. -/
def Measured (m : Minterval) : Prop := ∀ s ∈ m, (s.upperBound - s.lowerBound + 1).natAbs < 2 ^ 63

instance (m : Minterval) : Decidable (Measured m) := inferInstanceAs (Decidable (∀ s ∈ m, _))

/-- **With a factor that is too small the loop divides by zero.** -/
theorem cellPointLoop_arithmetic {f : ℤ} (h : Measured (s :: m)) (hf : f.natAbs < 2 ^ 63)
    (hlt : f.natAbs < (count (s :: m)).natAbs) (offset : ℤ) :
    cellPointLoop f offset (s :: m) = .error .arithmetic := by
  induction m generalizing f offset s with
  | nil =>
    have hless : (f.tdiv (s.upperBound - s.lowerBound + 1)).natAbs < 1 := by
      rw [Int.natAbs_tdiv]
      exact Nat.div_lt_of_lt_mul (by rwa [count_cons, Int.natAbs_mul] at hlt)
    have hzero := Int.natAbs_eq_zero.mp (Nat.lt_one_iff.mp hless)
    rw [cellPointLoop, toRange_of_natAbs_lt (h s List.mem_cons_self), hzero]
    exact ite_self _
  | cons t m ih =>
    obtain ⟨hs, hm⟩ := List.forall_mem_cons.mp h
    have hquot := Int.natAbs_tdiv_le_natAbs f (s.upperBound - s.lowerBound + 1)
    have hless : (f.tdiv (s.upperBound - s.lowerBound + 1)).natAbs < (count (t :: m)).natAbs := by
      rw [Int.natAbs_tdiv]
      exact Nat.div_lt_of_lt_mul (by rwa [count_cons, Int.natAbs_mul] at hlt)
    rw [cellPointLoop, toRange_of_natAbs_lt hs]
    simp only [toRange_of_natAbs_lt (hquot.trans_lt hf), ih hm (hquot.trans_lt hf) hless]
    split_ifs <;> rfl

open Minterval (Narrow card width place card_pos card_cons place_cons)

theorem count_eq_card (h : ∀ s ∈ m, s.lowerBound ≤ s.upperBound) : count m = card m := by
  induction m with
  | nil => rfl
  | cons s m ih =>
    obtain ⟨hs, hm⟩ := List.forall_mem_cons.mp h
    rw [count_cons, card_cons, Nat.cast_mul, ← ih hm, width, Int.toNat_of_nonneg (by omega)]

/-- **The loop finds the point with the number.** -/
theorem cellPointLoop_place (h : ∀ s ∈ m, Narrow s) (hcard : card m < 2 ^ 63) {n : ℕ} (hn : n < card m) :
    cellPointLoop (count m) n m = .ok (place m n) := by
  have hcount : count m = card m := count_eq_card fun s hs => (h s hs).low_le_high
  induction m generalizing n with
  | nil => rfl
  | cons s m ih =>
    obtain ⟨hs, hm⟩ := List.forall_mem_cons.mp h
    have hrest : count m = card m := count_eq_card fun s hs => (hm s hs).low_le_high
    have hpos := card_pos hm
    have hle : card m ≤ card (s :: m) := Nat.le_mul_of_pos_left _ hs.width_pos
    have habs : (count (s :: m)).natAbs < 2 ^ 63 := by rwa [hcount, Int.natAbs_natCast]
    have hdiv : n / card m < width s := Nat.div_lt_of_lt_mul (by rwa [Nat.mul_comm, ← card_cons])
    have hmod : (n : ℤ).tmod (card m) = (n % card m : ℕ) :=
      Int.tmod_eq_emod_of_nonneg (Int.natCast_nonneg n)
    have hquot : ((n : ℤ) - (n % card m : ℕ)).tdiv (card m) = (n / card m : ℕ) := by
      have hsplit : (n : ℤ) - (n % card m : ℕ) = card m * (n / card m : ℕ) := by
        have := Nat.div_add_mod n (card m)
        exact sub_eq_of_eq_add (by exact_mod_cast this.symm)
      rw [hsplit, Int.mul_tdiv_cancel_left _ (by exact_mod_cast hpos.ne')]
    have hrange : toRange (s.lowerBound + (n / card m : ℕ)) = s.lowerBound + (n / card m : ℕ) := by
      obtain ⟨-, hlow, hlower, hupper, -⟩ := hs
      rw [width] at hdiv
      generalize n / card m = k at *
      exact toRange_of_lt (by omega) (by omega)
    have htail := ih hm (hle.trans_lt hcard) (Nat.mod_lt n hpos) hrest
    rw [hrest] at htail
    rw [cellPointLoop_count _ (by rw [hcount]; exact_mod_cast (card_pos h).ne') habs, hrest, hmod, hquot,
      hrange, htail, place_cons]
    rfl

/-- A round of the loop of `cell_point` divides the factor by an extent, and rounds it down. -/
theorem cellPointLoop_cons (hs : Narrow s) {f : ℕ} (hf : f < 2 ^ 32) (n : ℕ) (m : Minterval) :
    Minterval.cellPointLoop f n (s :: m) =
      if f / width s = 0 then .error .dividesByZero
      else do
        let pt ← Minterval.cellPointLoop (f / width s) (n % (f / width s)) m
        return toRange (s.lowerBound + toRange ((n - n % (f / width s)) / (f / width s) : ℕ)) :: pt := by
  rw [Minterval.cellPointLoop, if_neg (Minterval.extent_ne_zero hs), Minterval.factor_eq hs hf]

/-- **With a factor that is too small `cell_point` divides by zero.** -/
theorem cellPointLoop_aborts (h : ∀ t ∈ s :: m, Narrow t) {f : ℕ} (hf : f < 2 ^ 32)
    (hlt : f < card (s :: m)) (n : ℕ) : Minterval.cellPointLoop f n (s :: m) = .error .dividesByZero := by
  induction m generalizing f n s with
  | nil =>
    have hless : f / width s < 1 := Nat.div_lt_of_lt_mul hlt
    rw [cellPointLoop_cons (h s List.mem_cons_self) hf, if_pos (Nat.lt_one_iff.mp hless)]
  | cons t m ih =>
    obtain ⟨hs, hm⟩ := List.forall_mem_cons.mp h
    have hless : f / width s < card (t :: m) := Nat.div_lt_of_lt_mul (by rwa [← card_cons])
    rw [cellPointLoop_cons hs hf]
    split
    · rfl
    · rw [ih hm ((Nat.div_le_self ..).trans_lt hf) hless]
      rfl

/-- `cell_point` finds the same point, or none either.  The client stops counting at `2^63` cells, and the
loop of `cell_point` at `2^32`. -/
def PointAgrees (m : Minterval) (offset : ℕ) : Prop :=
  if m.isFixed then count m % 2 ^ 64 ≤ offset ∨ count m < 2 ^ 32 else count m ≤ offset ∨ 2 ^ 63 ≤ count m

theorem isFixed_iff : m.isFixed = true ↔ m ≠ [] ∧ ∀ s ∈ m, s.lowFixed = true ∧ s.highFixed = true := by
  simp [Minterval.isFixed]

theorem narrow_of_isFixed (hm : ∀ s ∈ m, s.Valid ∧ s.InRange) (hfixed : m.isFixed = true)
    (h : Measured m) : ∀ s ∈ m, Narrow s := by
  intro s hs
  obtain ⟨hvalid, ⟨hlower, -⟩, -, hupper⟩ := hm s hs
  have hfixed' := (isFixed_iff.mp hfixed).2 s hs
  have hextent := h s hs
  exact ⟨hfixed', hvalid hfixed'.1 hfixed'.2, hlower, hupper, by omega⟩

/-- Without fixed bounds `cell_point` throws, and the client does where there is no cell for it. -/
theorem cellPoint_agrees_open (hfixed : m.isFixed = false) (h : Measured m) (offset : ℕ) :
    pointOutcome m offset = pointOutcomeOf m offset ↔ count m ≤ offset ∨ 2 ^ 63 ≤ count m := by
  have hthrows : m.cellPoint offset = .error (.throws .intervalOpen) := by
    rw [Minterval.cellPoint, Minterval.cellCount, Minterval.getExtent, hfixed]
    rfl
  rw [pointOutcome, cellPoint, cellCount_eq, pointOutcomeOf, hthrows]
  by_cases hless : (offset : ℤ) ≥ toRange (count m)
  · rw [if_pos hless]
    refine iff_of_true rfl ?_
    rw [toRange, Int.bmod_def] at hless
    omega
  · rw [if_neg hless]
    by_cases hsmall : (count m).natAbs < 2 ^ 63
    · rw [toRange_of_natAbs_lt hsmall] at hless ⊢
      obtain ⟨pt, hpt⟩ := cellPointLoop_returns offset (m := m) (by omega) hsmall
      rw [hpt]
      exact iff_of_false (fun heq => by cases heq) (by omega)
    · have hne : m ≠ [] := by
        rintro rfl
        exact hsmall (by decide)
      obtain ⟨s, m, rfl⟩ := List.exists_cons_of_ne_nil hne
      have hrange : (toRange (count (s :: m))).natAbs < 2 ^ 63 := by
        rw [toRange, Int.bmod_def] at hless ⊢
        omega
      rw [cellPointLoop_arithmetic h hrange (by omega)]
      exact iff_of_true rfl (by omega)

/-- With fixed bounds both find the point with the number if there are less than `2^32`. -/
theorem cellPoint_agrees_fixed (hm : ∀ s ∈ m, s.Valid ∧ s.InRange) (hfixed : m.isFixed = true)
    (h : Measured m) (offset : ℕ) : pointOutcome m offset = pointOutcomeOf m offset ↔
      count m % 2 ^ 64 ≤ offset ∨ count m < 2 ^ 32 := by
  have hnarrow := narrow_of_isFixed hm hfixed h
  obtain ⟨s, m, rfl⟩ := List.exists_cons_of_ne_nil (isFixed_iff.mp hfixed).1
  have hcount : count (s :: m) = card (s :: m) := count_eq_card fun t ht => (hnarrow t ht).low_le_high
  have hpoint : Minterval.cellPoint (s :: m) offset =
      if offset ≥ card (s :: m) % 2 ^ 64 then .error .noCell
      else Minterval.cellPointLoop (card (s :: m) % 2 ^ 32) offset (s :: m) := by
    have hfactor := Minterval.foldl_factor hnarrow 1
    rw [Nat.one_mod_eq_one.mpr (by decide), Nat.one_mul] at hfactor
    rw [Minterval.cellPoint, Minterval.cellCount_eq hnarrow (List.cons_ne_nil _ _)]
    simp only [hfactor, areaModulus]
  rw [pointOutcome, cellPoint, cellCount_eq, pointOutcomeOf, hpoint, hcount]
  generalize hN : card (s :: m) = N at *
  have hmod : toRange N = if N % 2 ^ 64 < 2 ^ 63 then (N : ℤ) % 2 ^ 64 else (N : ℤ) % 2 ^ 64 - 2 ^ 64 := by
    rw [toRange, Int.bmod_def]
    split_ifs <;> omega
  by_cases hnone : N % 2 ^ 64 ≤ offset
  · rw [if_pos (by rw [hmod]; split_ifs <;> omega), if_pos hnone]
    exact iff_of_true rfl (.inl (by omega))
  · rw [if_neg hnone]
    by_cases hsmall : N < 2 ^ 32
    · have hplace := cellPointLoop_place hnarrow (n := offset) (by omega) (by omega)
      rw [hcount] at hplace
      rw [toRange_of_natAbs_lt (by omega), if_neg (by omega), hplace, Nat.mod_eq_of_lt hsmall, ← hN,
        Minterval.cellPointLoop_eq hnarrow (by omega) (by omega)]
      exact iff_of_true rfl (.inr (by omega))
    · rw [cellPointLoop_aborts hnarrow (Nat.mod_lt _ (by decide)) (by omega)]
      refine iff_of_false ?_ (by omega)
      split
      · intro heq
        cases heq
      · intro heq
        cases heq

/-- **When the points agree**, on domains whose extents are less than `2^63`. -/
theorem cellPoint_agrees_iff (hm : ∀ s ∈ m, s.Valid ∧ s.InRange) (h : Measured m) (offset : ℕ) :
    pointOutcome m offset = pointOutcomeOf m offset ↔ PointAgrees m offset := by
  rw [PointAgrees]
  cases hfixed : m.isFixed with
  | false => exact cellPoint_agrees_open hfixed h offset
  | true => exact cellPoint_agrees_fixed hm hfixed h offset

end RasMInterval

end Rasdaman
