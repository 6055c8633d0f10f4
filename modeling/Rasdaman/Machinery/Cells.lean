import Mathlib

/-!
# Machinery/Cells — the unit cells of a line

The cell `k` is between `k` and `k + 1`.  An open interval meets the cells from the floor of its lower end to
the ceiling of its upper one.
-/

namespace Cells

variable {K : Type*} [Field K] [LinearOrder K] [IsStrictOrderedRing K] {u v : K} {k : ℤ}

/-- The open cell and the open interval have a point in common. -/
def Meets (k : ℤ) (u v : K) : Prop := ∃ x, (k : K) < x ∧ x < k + 1 ∧ u < x ∧ x < v

theorem meets_iff_lt (huv : u < v) : Meets k u v ↔ u < k + 1 ∧ (k : K) < v := by
  constructor
  · rintro ⟨x, hkx, hxk, hux, hxv⟩
    exact ⟨hux.trans hxk, hkx.trans hxv⟩
  · rintro ⟨hu, hv⟩
    obtain ⟨x, hlow, hhigh⟩ := exists_between (max_lt (lt_min hv (lt_add_one (k : K))) (lt_min huv hu))
    exact ⟨x, (le_max_left _ _).trans_lt hlow, hhigh.trans_le (min_le_right _ _),
      (le_max_right _ _).trans_lt hlow, hhigh.trans_le (min_le_left _ _)⟩

/-- Cells of a positive width, counted from an origin. -/
theorem meets_of_pos {o c a b : K} (hc : 0 < c) : Meets k ((a - o) / c) ((b - o) / c) ↔
    ∃ x, o + k * c < x ∧ x < o + (k + 1) * c ∧ a < x ∧ x < b := by
  constructor
  · rintro ⟨x, hkx, hxk, hax, hxb⟩
    rw [div_lt_iff₀ hc] at hax
    rw [lt_div_iff₀ hc] at hxb
    refine ⟨o + x * c, ?_, ?_, by linarith, by linarith⟩
    · gcongr
    · gcongr
  · rintro ⟨x, hkx, hxk, hax, hxb⟩
    refine ⟨(x - o) / c, ?_, ?_, by gcongr, by gcongr⟩
    · rw [lt_div_iff₀ hc]
      linarith
    · rw [div_lt_iff₀ hc]
      linarith

/-- Cells that are counted downwards. -/
theorem meets_of_neg {o c a b : K} (hc : c < 0) : Meets k ((b - o) / c) ((a - o) / c) ↔
    ∃ x, o + (k + 1) * c < x ∧ x < o + k * c ∧ a < x ∧ x < b := by
  constructor
  · rintro ⟨x, hkx, hxk, hbx, hxa⟩
    rw [div_lt_iff_of_neg hc] at hbx
    rw [lt_div_iff_of_neg hc] at hxa
    refine ⟨o + x * c, ?_, ?_, by linarith, by linarith⟩
    · nlinarith
    · nlinarith
  · rintro ⟨x, hkx, hxk, hax, hxb⟩
    refine ⟨(x - o) / c, ?_, ?_, ?_, ?_⟩
    · rw [lt_div_iff_of_neg hc]
      linarith
    · rw [div_lt_iff_of_neg hc]
      linarith
    · exact div_lt_div_of_neg_of_lt hc (by linarith)
    · exact div_lt_div_of_neg_of_lt hc (by linarith)

variable [FloorRing K]

/-- **The cells that an interval meets.** -/
theorem meets_iff (huv : u < v) : Meets k u v ↔ ⌊u⌋ ≤ k ∧ k < ⌈v⌉ := by
  rw [meets_iff_lt huv, Int.lt_ceil, ← Int.lt_add_one_iff, Int.floor_lt]
  push_cast
  exact Iff.rfl

omit [IsStrictOrderedRing K] in
theorem floor_lt_ceil (huv : u < v) : ⌊u⌋ < ⌈v⌉ :=
  Int.lt_ceil.mpr ((Int.floor_le u).trans_lt huv)

/-- A run of cells, inside others, is what an interval inside of them meets. -/
theorem run_eq_iff {first l h : ℤ} {n : ℕ} (huv : u < v) (hu : 0 ≤ u) (hv : v ≤ n) (hfirst : first ≤ l)
    (hle : l ≤ h) (hlast : h ≤ first + n - 1) :
    (∀ k, first ≤ k → k ≤ first + n - 1 → (l ≤ k ∧ k ≤ h ↔ Meets (k - first) u v)) ↔
      l = ⌊u⌋ + first ∧ h = ⌈v⌉ - 1 + first := by
  have hlow : 0 ≤ ⌊u⌋ := Int.floor_nonneg.mpr hu
  have hhigh : ⌈v⌉ ≤ n := Int.ceil_le.mpr (by exact_mod_cast hv)
  have hlt := floor_lt_ceil huv
  simp only [meets_iff huv]
  constructor
  · intro hall
    have hatl := hall l hfirst (by omega)
    have hath := hall h (by omega) hlast
    have hatu := hall (⌊u⌋ + first) (by omega) (by omega)
    have hatv := hall (⌈v⌉ - 1 + first) (by omega) (by omega)
    omega
  · rintro ⟨rfl, rfl⟩ k hk hk'
    omega

/-- A number is an integer exactly if its ceiling is not above it. -/
theorem exists_eq_intCast_iff : (∃ n : ℤ, u = n) ↔ ⌈u⌉ ≤ ⌊u⌋ := by
  rw [Int.le_floor]
  constructor
  · rintro ⟨n, rfl⟩
    rw [Int.ceil_intCast]
  · exact fun h => ⟨⌈u⌉, le_antisymm (Int.le_ceil u) h⟩

end Cells

/-!
## Positions reached in rounded steps

Points have positions on a line that is divided into cells of length 1.  A walk counts cells from point to
point and rounds every step down; a step may be cut short by whole cells.  The walk lags behind by the
fractions it drops and by its cuts.
-/

namespace CellWalk

variable {α : Type} (pos : α → ℚ) (cut : α → α → ℤ)

/-- The cells counted on a walk. -/
def offset : α → List α → ℤ
  | _, [] => 0
  | x, y :: ys => ⌊pos y - pos x⌋ - cut x y + offset y ys

/-- How far the count is behind at the end of a walk. -/
def lag : α → List α → ℚ
  | _, [] => 0
  | x, y :: ys => Int.fract (pos y - pos x) + cut x y + lag y ys

/-- The last point of a walk. -/
def final (x : α) (ys : List α) : α := ys.getLast?.getD x

@[simp] theorem final_cons (x y : α) (ys : List α) : final x (y :: ys) = final y ys := by
  simp [final, List.getLast?_cons]

theorem offset_eq (x : α) (ys : List α) :
    (offset pos cut x ys : ℚ) = pos (final x ys) - pos x - lag pos cut x ys := by
  induction ys generalizing x with
  | nil => simp [offset, lag, final]
  | cons y ys ih =>
    rw [offset, lag, final_cons]
    push_cast
    rw [ih, ← Int.self_sub_floor]
    ring

/-- A step from the last point, rounded down, counted from the first. -/
theorem floor_from_final (x : α) (ys : List α) (q : ℚ) :
    ⌊q - pos (final x ys)⌋ + offset pos cut x ys = ⌊q - pos x - lag pos cut x ys⌋ := by
  rw [← Int.floor_add_intCast, offset_eq]
  congr 1
  ring

/-- A step from the last point, rounded up, counted from the first. -/
theorem ceil_from_final (x : α) (ys : List α) (q : ℚ) :
    ⌈q - pos (final x ys)⌉ + offset pos cut x ys = ⌈q - pos x - lag pos cut x ys⌉ := by
  rw [← Int.ceil_add_intCast, offset_eq]
  congr 1
  ring

variable {pos cut} {x : α} {ys : List α}

theorem lag_nonneg (hcut : ∀ x y, 0 ≤ cut x y) : 0 ≤ lag pos cut x ys := by
  induction ys generalizing x with
  | nil => exact le_refl _
  | cons y ys ih =>
    have hfract := Int.fract_nonneg (pos y - pos x)
    have hxy : (0 : ℚ) ≤ cut x y := Int.cast_nonneg (hcut x y)
    have hrest := ih (x := y)
    rw [lag]
    linarith

/-! ## When a lag is not seen -/

variable {u t d : ℚ}

/-- A lag keeps the cell of a position if it is at most the part of the cell before it. -/
theorem floor_sub_eq_iff : ⌊u - d⌋ = ⌊u⌋ ↔ d ≤ Int.fract u ∧ Int.fract u < 1 + d := by
  rw [Int.floor_eq_iff, ← Int.self_sub_floor]
  constructor
  · rintro ⟨hle, hlt⟩
    constructor <;> linarith
  · rintro ⟨hle, hlt⟩
    constructor <;> linarith

/-- A lag keeps the last of the cells up to `t` if that is not after `n`, or if the lag is less than the
part of the cell before `t`. -/
theorem max_ceil_sub_eq_iff {n : ℤ} (hd : 0 ≤ d) :
    max n (⌈t - d⌉ - 1) = max n (⌈t⌉ - 1) ↔ t ≤ n + 1 ∨ d < t - (⌈t⌉ - 1) := by
  have hmono : ⌈t - d⌉ ≤ ⌈t⌉ := Int.ceil_mono (by linarith)
  have hcell : t ≤ n + 1 ↔ ⌈t⌉ ≤ n + 1 := by rw [Int.ceil_le]; push_cast; rfl
  have hkeep : d < t - (⌈t⌉ - 1) ↔ ⌈t⌉ ≤ ⌈t - d⌉ := by
    rw [← Int.sub_one_lt_iff, Int.lt_ceil]
    push_cast
    constructor <;> intro h <;> linarith
  rw [hcell, hkeep]
  omega

/-- The same for cells counted backwards. -/
theorem max_neg_ceil_sub_eq_iff {n : ℤ} (hd : 0 ≤ d) :
    max (-n) (-⌈t - d⌉ - 1) = max (-n) (-⌈t⌉ - 1) ↔ n - 2 < t - d ∨ d < t - (⌈t⌉ - 1) := by
  have hmono : ⌈t - d⌉ ≤ ⌈t⌉ := Int.ceil_mono (by linarith)
  have hcell : (n : ℚ) - 2 < t - d ↔ n - 2 < ⌈t - d⌉ := by rw [Int.lt_ceil]; push_cast; rfl
  have hkeep : d < t - (⌈t⌉ - 1) ↔ ⌈t⌉ ≤ ⌈t - d⌉ := by
    rw [← Int.sub_one_lt_iff, Int.lt_ceil]
    push_cast
    constructor <;> intro h <;> linarith
  rw [hcell, hkeep]
  omega

end CellWalk
