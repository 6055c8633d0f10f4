import Rasdaman.Petascope.NestedSubsets

/-!
# Petascope/SubsetsCompose — when a chain of subsets is its last subset

On a regular axis a chain counts cells in rounded steps and lags behind its last subset.  On an irregular
axis every step counts the coefficients below the distance from the step before.
-/

namespace Rasdaman

namespace Petascope

open WcpsCoverageMetadataService CoordinateTranslationService VectorCoefficients CellWalk

variable {getIndexes : CoefficientIndexes} {coverageName : String} {axis : Axis}
  {outer inner geo last : ParsedSubset BigDecimal} {gridMin a b : ℤ} {cell : ℚ}

/-! ## Regular axes -/

/-- The subset is the point at the upper end of a proper interval, with the scale of its limit. -/
def AtTop (outer inner : ParsedSubset BigDecimal) : Prop :=
  outer.upperLimit.val ≠ outer.lowerLimit.val ∧ inner.lowerLimit = inner.upperLimit ∧
    inner.upperLimit = outer.upperLimit

instance : Decidable (AtTop outer inner) := inferInstanceAs (Decidable (_ ∧ _ ∧ _))

/-- The translation on an axis that runs forwards. -/
def forwards (cell : ℚ) (outer : ParsedSubset BigDecimal) (gridMin : ℤ) (inner : ParsedSubset BigDecimal) :
    ParsedSubset ℤ :=
  let lower := ⌊(inner.lowerLimit.val - outer.lowerLimit.val) / cell⌋ + gridMin
  let upper := ⌈(inner.upperLimit.val - outer.lowerLimit.val) / cell⌉ - 1 + gridMin
  if AtTop outer inner then ⟨lower - 1, lower - 1⟩ else ⟨lower, max lower upper⟩

/-- The translation on an axis that runs backwards. -/
def backwards (cell : ℚ) (outer : ParsedSubset BigDecimal) (gridMin : ℤ) (inner : ParsedSubset BigDecimal) :
    ParsedSubset ℤ :=
  let lower := -⌊(inner.upperLimit.val - outer.upperLimit.val) / cell⌋ + gridMin
  let upper := -⌈(inner.lowerLimit.val - outer.upperLimit.val) / cell⌉ - 1 + gridMin
  ⟨lower, max lower upper⟩

/-- A limit that is not below the other, as the code computes it from the lower grid bound. -/
theorem toBigInteger_max (x y z : ℤ) :
    toBigInteger (if (y : ℚ) + z < x + z then (x : ℚ) + z else y + z) = max (x + z) (y + z) := by
  rcases lt_or_ge y x with h | h
  · have hlt : (y : ℚ) + z < x + z := by exact_mod_cast add_lt_add_left h z
    rw [if_pos hlt, ← Int.cast_add, toBigInteger_intCast, max_eq_left (by omega)]
  · have hge : ¬(y : ℚ) + z < x + z := by exact_mod_cast not_lt.mpr (add_le_add_left h z)
    rw [if_neg hge, ← Int.cast_add, toBigInteger_intCast, max_eq_right (by omega)]

theorem geoToGridForRegularAxis_forwards {resolution : BigDecimal} (hres : 0 < resolution.val) :
    geoToGridForRegularAxis inner outer.lowerLimit outer.upperLimit resolution (.ofInt gridMin) =
      .ok (forwards resolution.val outer gridMin inner) := by
  have hlower := toBigInteger_intCast
    (⌊(inner.lowerLimit.val - outer.lowerLimit.val) / resolution.val⌋ + gridMin)
  have hupper := toBigInteger_max ⌊(inner.lowerLimit.val - outer.lowerLimit.val) / resolution.val⌋
    (⌈(inner.upperLimit.val - outer.lowerLimit.val) / resolution.val⌉ - 1) gridMin
  have htop := toBigInteger_intCast
    (⌊(inner.lowerLimit.val - outer.lowerLimit.val) / resolution.val⌋ + gridMin - 1)
  push_cast at hlower hupper htop
  simp only [geoToGridForRegularAxis, gt_iff_lt, hres, if_true, exactDivide, hres.ne', if_false, bind,
    Except.bind, BigDecimal.val_ofInt, hlower, hupper, htop]
  by_cases h : AtTop outer inner
  · exact (if_pos h).trans (congrArg Except.ok (if_pos h).symm)
  · exact (if_neg h).trans (congrArg Except.ok (if_neg h).symm)

theorem geoToGridForRegularAxis_backwards {resolution : BigDecimal} (hres : resolution.val < 0) :
    geoToGridForRegularAxis inner outer.lowerLimit outer.upperLimit resolution (.ofInt gridMin) =
      .ok (backwards (-resolution.val) outer gridMin inner) := by
  have hceil : ⌈(inner.upperLimit.val - outer.upperLimit.val) / resolution.val⌉ =
      -⌊(inner.upperLimit.val - outer.upperLimit.val) / -resolution.val⌋ := by
    rw [← Int.ceil_neg, div_neg, neg_neg]
  have hfloor : ⌊(inner.lowerLimit.val - outer.upperLimit.val) / resolution.val⌋ =
      -⌈(inner.lowerLimit.val - outer.upperLimit.val) / -resolution.val⌉ := by
    rw [← Int.floor_neg, div_neg, neg_neg]
  have hlower := toBigInteger_intCast
    (-⌊(inner.upperLimit.val - outer.upperLimit.val) / -resolution.val⌋ + gridMin)
  have hupper := toBigInteger_max (-⌊(inner.upperLimit.val - outer.upperLimit.val) / -resolution.val⌋)
    (-⌈(inner.lowerLimit.val - outer.upperLimit.val) / -resolution.val⌉ - 1) gridMin
  push_cast at hlower hupper
  simp only [geoToGridForRegularAxis, gt_iff_lt, not_lt.mpr hres.le, if_false, exactDivide, hres.ne, bind,
    Except.bind, BigDecimal.val_ofInt, hceil, hfloor, Int.cast_neg, hlower, hupper]
  rfl

theorem translate_forwards {resolution : BigDecimal} (htype : axis.type = .regular resolution)
    (hres : 0 < resolution.val) :
    translate getIndexes coverageName axis outer gridMin inner =
      .ok (forwards resolution.val outer gridMin inner) := by
  rw [translate, translateGeoToGridCoordinates, htype]
  exact geoToGridForRegularAxis_forwards hres

theorem translate_backwards {resolution : BigDecimal} (htype : axis.type = .regular resolution)
    (hres : resolution.val < 0) :
    translate getIndexes coverageName axis outer gridMin inner =
      .ok (backwards (-resolution.val) outer gridMin inner) := by
  rw [translate, translateGeoToGridCoordinates, htype]
  exact geoToGridForRegularAxis_backwards hres

/-- The translation of the last of a chain, by translations that never fail. -/
def translateLastBy (step : ParsedSubset BigDecimal → ℤ → ParsedSubset BigDecimal → ParsedSubset ℤ) :
    ParsedSubset BigDecimal → ℤ → List (ParsedSubset BigDecimal) → ParsedSubset BigDecimal → ParsedSubset ℤ
  | outer, gridMin, [], last => step outer gridMin last
  | outer, gridMin, inner :: rest, last =>
    translateLastBy step inner (step outer gridMin inner).lowerLimit rest last

theorem translateLast_eq
    {step : ParsedSubset BigDecimal → ℤ → ParsedSubset BigDecimal → ParsedSubset ℤ}
    (hstep : ∀ outer gridMin inner,
      translate getIndexes coverageName axis outer gridMin inner = .ok (step outer gridMin inner))
    (outer : ParsedSubset BigDecimal) (gridMin : ℤ) (inners : List (ParsedSubset BigDecimal)) :
    translateLast getIndexes coverageName axis outer gridMin inners last =
      .ok (translateLastBy step outer gridMin inners last) := by
  induction inners generalizing outer gridMin with
  | nil => exact hstep outer gridMin last
  | cons inner rest ih =>
    rw [translateLast, translateLastBy, hstep]
    exact ih inner _

variable {inners : List (ParsedSubset BigDecimal)}

theorem translateLastBy_final
    {step : ParsedSubset BigDecimal → ℤ → ParsedSubset BigDecimal → ParsedSubset ℤ} (sign : ℤ)
    {pos : ParsedSubset BigDecimal → ℚ} {cut : ParsedSubset BigDecimal → ParsedSubset BigDecimal → ℤ}
    (hstep : ∀ outer gridMin inner, (step outer gridMin inner).lowerLimit =
      sign * (⌊pos inner - pos outer⌋ - cut outer inner) + gridMin)
    (geo : ParsedSubset BigDecimal) (a : ℤ) :
    translateLastBy step geo a inners last =
      step (final geo inners) (sign * offset pos cut geo inners + a) last := by
  induction inners generalizing geo a with
  | nil => rw [translateLastBy, offset, mul_zero, zero_add]; rfl
  | cons inner rest ih =>
    rw [translateLastBy, ih, hstep, final_cons, offset]
    congr 1
    ring

/-- How many cells a step forwards is cut by. -/
def topCut (outer inner : ParsedSubset BigDecimal) : ℤ := if AtTop outer inner then 1 else 0

/-- How far a chain lags behind on an axis that runs forwards, counted in cells. -/
def forwardsLag (cell : ℚ) (geo : ParsedSubset BigDecimal) (inners : List (ParsedSubset BigDecimal)) : ℚ :=
  lag (fun s : ParsedSubset BigDecimal => s.lowerLimit.val / cell) topCut geo inners

/-- How far a chain lags behind on an axis that runs backwards. -/
def backwardsLag (cell : ℚ) (geo : ParsedSubset BigDecimal) (inners : List (ParsedSubset BigDecimal)) : ℚ :=
  lag (fun s : ParsedSubset BigDecimal => s.upperLimit.val / cell) (fun _ _ => 0) geo inners

theorem forwards_lower (cell : ℚ) (outer : ParsedSubset BigDecimal) (gridMin : ℤ)
    (inner : ParsedSubset BigDecimal) : (forwards cell outer gridMin inner).lowerLimit =
    1 * (⌊inner.lowerLimit.val / cell - outer.lowerLimit.val / cell⌋ - topCut outer inner) + gridMin := by
  unfold forwards topCut
  rw [← sub_div]
  split_ifs
  · dsimp only
    ring
  · dsimp only
    ring

theorem backwards_lower (cell : ℚ) (outer : ParsedSubset BigDecimal) (gridMin : ℤ)
    (inner : ParsedSubset BigDecimal) : (backwards cell outer gridMin inner).lowerLimit =
    -1 * (⌊inner.upperLimit.val / cell - outer.upperLimit.val / cell⌋ - 0) + gridMin := by
  unfold backwards
  rw [← sub_div, sub_zero, neg_one_mul]

/-- **A chain forwards** ends at its last subset, counted from its first bounds less the lag. -/
theorem translateLastBy_forwards (geo : ParsedSubset BigDecimal) (a : ℤ) :
    translateLastBy (forwards cell) geo a inners last =
      let u := (last.lowerLimit.val - geo.lowerLimit.val) / cell - forwardsLag cell geo inners
      let t := (last.upperLimit.val - geo.lowerLimit.val) / cell - forwardsLag cell geo inners
      if AtTop (final geo inners) last then ⟨⌊u⌋ + a - 1, ⌊u⌋ + a - 1⟩
      else ⟨⌊u⌋ + a, max (⌊u⌋ + a) (⌈t⌉ - 1 + a)⟩ := by
  have hfloor := floor_from_final (fun s : ParsedSubset BigDecimal => s.lowerLimit.val / cell)
    topCut geo inners (last.lowerLimit.val / cell)
  have hceil := ceil_from_final (fun s : ParsedSubset BigDecimal => s.lowerLimit.val / cell)
    topCut geo inners (last.upperLimit.val / cell)
  rw [translateLastBy_final 1 (forwards_lower cell) geo a]
  simp only [forwards, forwardsLag, sub_div, ← hfloor, ← hceil]
  split_ifs
  · congr 1 <;> ring
  · congr 1
    · ring
    · congr 1 <;> ring

/-- **A chain backwards** does so too. -/
theorem translateLastBy_backwards (geo : ParsedSubset BigDecimal) (a : ℤ) :
    translateLastBy (backwards cell) geo a inners last =
      let s := (last.upperLimit.val - geo.upperLimit.val) / cell - backwardsLag cell geo inners
      let w := (last.lowerLimit.val - geo.upperLimit.val) / cell - backwardsLag cell geo inners
      ⟨-⌊s⌋ + a, max (-⌊s⌋ + a) (-⌈w⌉ - 1 + a)⟩ := by
  have hfloor := floor_from_final (fun s : ParsedSubset BigDecimal => s.upperLimit.val / cell)
    (fun _ _ => 0) geo inners (last.upperLimit.val / cell)
  have hceil := ceil_from_final (fun s : ParsedSubset BigDecimal => s.upperLimit.val / cell)
    (fun _ _ => 0) geo inners (last.lowerLimit.val / cell)
  rw [translateLastBy_final (-1) (backwards_lower cell) geo a]
  simp only [backwards, backwardsLag, sub_div, ← hfloor, ← hceil]
  congr 1
  · ring
  · congr 1 <;> ring

/-! ### When a chain is its last subset -/

/-- The translated limits are grid coordinates of the axis. -/
structure InsideGrid (a b : ℤ) (translated : ParsedSubset ℤ) : Prop where
  lower : a ≤ translated.lowerLimit ∧ translated.lowerLimit ≤ b
  upper : a ≤ translated.upperLimit ∧ translated.upperLimit ≤ b

/-- Forwards: the lag of the chain, less what the last subset alone is cut by, is at most the part of a
cell below the last lower limit; it is less than the part below the last upper limit, unless the subset is
in one cell; and a subset at the upper end of the axis is the point there, in its scale. -/
def ForwardsKept (cell : ℚ) (geo : ParsedSubset BigDecimal) (inners : List (ParsedSubset BigDecimal))
    (last : ParsedSubset BigDecimal) : Prop :=
  let u := (last.lowerLimit.val - geo.lowerLimit.val) / cell
  let t := (last.upperLimit.val - geo.lowerLimit.val) / cell
  let d := forwardsLag cell geo inners + topCut (final geo inners) last - topCut geo last
  (d ≤ Int.fract u ∧ Int.fract u < 1 + d) ∧ (t ≤ ⌊u⌋ + 1 ∨ d < t - (⌈t⌉ - 1)) ∧
    (last.lowerLimit.val = geo.upperLimit.val → AtTop geo last)

/-- Backwards: the same for the lag, counted from the upper end; and the last subset does not end in the
first cell from below, which is outside of the grid. -/
def BackwardsKept (cell : ℚ) (geo : ParsedSubset BigDecimal) (inners : List (ParsedSubset BigDecimal))
    (last : ParsedSubset BigDecimal) : Prop :=
  let s := (last.upperLimit.val - geo.upperLimit.val) / cell
  let w := (last.lowerLimit.val - geo.upperLimit.val) / cell
  let d := backwardsLag cell geo inners
  d ≤ Int.fract s ∧ (⌊s⌋ - 2 < w - d ∨ d < w - (⌈w⌉ - 1)) ∧
    geo.lowerLimit.val + cell ≤ last.upperLimit.val

theorem topCut_nonneg (outer inner : ParsedSubset BigDecimal) : 0 ≤ topCut outer inner := by
  unfold topCut
  split_ifs <;> decide

theorem forwardsLag_nonneg : 0 ≤ forwardsLag cell geo inners := lag_nonneg topCut_nonneg

theorem backwardsLag_nonneg : 0 ≤ backwardsLag cell geo inners := lag_nonneg fun _ _ => le_refl 0

theorem topCut_eq_zero (h : last.lowerLimit.val ≠ last.upperLimit.val) (outer : ParsedSubset BigDecimal) :
    topCut outer last = 0 := if_neg fun htop => h (congrArg BigDecimal.val htop.2.1)

/-- The cell of a point is the last cell that ends after it. -/
theorem max_floor_ceil (x : ℚ) (a : ℤ) : max (⌊x⌋ + a) (⌈x⌉ - 1 + a) = ⌊x⌋ + a := by
  have h := Int.ceil_le_floor_add_one x
  omega

/-- A chain forwards to a point. -/
theorem translateLastBy_forwards_point (geo : ParsedSubset BigDecimal) (a : ℤ)
    (hpoint : last.lowerLimit.val = last.upperLimit.val) :
    translateLastBy (forwards cell) geo a inners last =
      let n := ⌊(last.lowerLimit.val - geo.lowerLimit.val) / cell - forwardsLag cell geo inners⌋ + a -
        topCut (final geo inners) last
      ⟨n, n⟩ := by
  rw [translateLastBy_forwards]
  simp only [← hpoint, max_floor_ceil, topCut]
  split_ifs <;> simp

/-- A chain forwards gives the grid bounds of its last subset alone exactly if its lag is not seen. -/
theorem forwards_eq_iff (a : ℤ) :
    translateLastBy (forwards cell) geo a inners last = translateLastBy (forwards cell) geo a [] last ↔
      let u := (last.lowerLimit.val - geo.lowerLimit.val) / cell
      let t := (last.upperLimit.val - geo.lowerLimit.val) / cell
      let d := forwardsLag cell geo inners + topCut (final geo inners) last - topCut geo last
      (d ≤ Int.fract u ∧ Int.fract u < 1 + d) ∧ (t ≤ ⌊u⌋ + 1 ∨ d < t - (⌈t⌉ - 1)) := by
  have hlag : forwardsLag cell geo [] = 0 := rfl
  have hfinal : final geo [] = geo := rfl
  dsimp only
  by_cases hpoint : last.lowerLimit.val = last.upperLimit.val
  · rw [translateLastBy_forwards_point geo a hpoint, translateLastBy_forwards_point geo a hpoint, ← hpoint,
      hlag, hfinal, sub_zero, ← floor_sub_eq_iff]
    generalize (last.lowerLimit.val - geo.lowerLimit.val) / cell = u
    have hcut : ⌊u - (forwardsLag cell geo inners + topCut (final geo inners) last - topCut geo last)⌋ =
        ⌊u - forwardsLag cell geo inners⌋ + (topCut geo last - topCut (final geo inners) last) := by
      rw [← Int.floor_add_intCast]
      push_cast
      congr 1
      ring
    rw [hcut, and_iff_left (Or.inl (Int.lt_floor_add_one u).le)]
    simp only [ParsedSubset.mk.injEq, and_self]
    constructor <;> intro h <;> omega
  · have hnot : ∀ outer, ¬AtTop outer last := fun outer htop => hpoint (congrArg BigDecimal.val htop.2.1)
    rw [translateLastBy_forwards, translateLastBy_forwards, topCut_eq_zero hpoint, topCut_eq_zero hpoint]
    simp only [if_neg (hnot _), hlag, Int.cast_zero, add_zero, sub_zero, ParsedSubset.mk.injEq]
    rw [← floor_sub_eq_iff, ← max_ceil_sub_eq_iff forwardsLag_nonneg]
    constructor
    · rintro ⟨hlower, hupper⟩
      refine ⟨by omega, ?_⟩
      omega
    · rintro ⟨hlower, hupper⟩
      refine ⟨by omega, ?_⟩
      omega

theorem backwards_eq_iff (a : ℤ) :
    translateLastBy (backwards cell) geo a inners last = translateLastBy (backwards cell) geo a [] last ↔
      let s := (last.upperLimit.val - geo.upperLimit.val) / cell
      let w := (last.lowerLimit.val - geo.upperLimit.val) / cell
      let d := backwardsLag cell geo inners
      d ≤ Int.fract s ∧ (⌊s⌋ - 2 < w - d ∨ d < w - (⌈w⌉ - 1)) := by
  have hlag : backwardsLag cell geo [] = 0 := rfl
  have hd : 0 ≤ backwardsLag cell geo inners := backwardsLag_nonneg
  dsimp only
  rw [translateLastBy_backwards, translateLastBy_backwards, hlag]
  simp only [sub_zero, ParsedSubset.mk.injEq]
  generalize (last.upperLimit.val - geo.upperLimit.val) / cell = s
  rw [← max_neg_ceil_sub_eq_iff hd]
  have hfloor : ⌊s - backwardsLag cell geo inners⌋ = ⌊s⌋ ↔ backwardsLag cell geo inners ≤ Int.fract s := by
    rw [floor_sub_eq_iff, and_iff_left_iff_imp]
    intro _
    have hfract := Int.fract_lt_one s
    linarith
  rw [← hfloor]
  constructor
  · rintro ⟨hlower, hupper⟩
    refine ⟨by omega, by omega⟩
  · rintro ⟨hlower, hupper⟩
    refine ⟨by omega, by omega⟩

/-- The last subset alone stays inside the grid forwards unless it misses the point at the upper end. -/
theorem forwards_inside (hcell : 0 < cell) (hab : a ≤ b)
    (hextent : geo.upperLimit.val - geo.lowerLimit.val = (b - a + 1) * cell) (hin : Within geo last) :
    InsideGrid a b (translateLastBy (forwards cell) geo a [] last) ↔
      (last.lowerLimit.val = geo.upperLimit.val → AtTop geo last) := by
  have hlag : forwardsLag cell geo [] = 0 := rfl
  have hfinal : final geo [] = geo := rfl
  have hu : 0 ≤ ⌊(last.lowerLimit.val - geo.lowerLimit.val) / cell⌋ :=
    Int.floor_nonneg.mpr (div_nonneg (sub_nonneg.mpr hin.lower) hcell.le)
  have ht : ⌈(last.upperLimit.val - geo.lowerLimit.val) / cell⌉ ≤ b - a + 1 := by
    rw [Int.ceil_le, div_le_iff₀ hcell]
    push_cast
    linarith [hin.upper]
  have htop : ⌊(last.lowerLimit.val - geo.lowerLimit.val) / cell⌋ < b - a + 1 ↔
      last.lowerLimit.val < geo.upperLimit.val := by
    rw [Int.floor_lt, div_lt_iff₀ hcell]
    push_cast
    rw [← hextent]
    constructor <;> intro h <;> linarith
  have hle : ⌊(last.lowerLimit.val - geo.lowerLimit.val) / cell⌋ ≤ b - a + 1 :=
    (Int.floor_le_ceil _).trans (le_trans (Int.ceil_mono (by
      have := hin.ordered
      gcongr)) ht)
  rw [translateLastBy_forwards, hlag, hfinal, sub_zero, sub_zero]
  dsimp only
  split_ifs with h
  · have heq : last.lowerLimit.val = geo.upperLimit.val := congrArg BigDecimal.val (h.2.1.trans h.2.2)
    have hnot := mt htop.mp heq.not_lt
    refine iff_of_true ⟨?_, ?_⟩ fun _ => h
    · dsimp only
      omega
    · dsimp only
      omega
  · constructor
    · intro hinside heq
      have hlower := hinside.lower.2
      exact absurd (htop.mp (by dsimp only at hlower; omega)) heq.not_lt
    · intro himp
      have hlt := htop.mpr (lt_of_le_of_ne (hin.ordered.trans hin.upper) fun heq => h (himp heq))
      refine ⟨?_, ?_⟩
      · dsimp only
        omega
      · dsimp only
        omega

/-- The last subset alone stays inside the grid backwards unless it ends in the first cell from below. -/
theorem backwards_inside (hcell : 0 < cell)
    (hextent : geo.upperLimit.val - geo.lowerLimit.val = (b - a + 1) * cell) (hin : Within geo last) :
    InsideGrid a b (translateLastBy (backwards cell) geo a [] last) ↔
      geo.lowerLimit.val + cell ≤ last.upperLimit.val := by
  have hlag : backwardsLag cell geo [] = 0 := rfl
  have hs : ⌊(last.upperLimit.val - geo.upperLimit.val) / cell⌋ ≤ 0 := by
    have hneg : (last.upperLimit.val - geo.upperLimit.val) / cell ≤ 0 :=
      div_nonpos_of_nonpos_of_nonneg (sub_nonpos.mpr hin.upper) hcell.le
    have h := Int.floor_mono hneg
    rwa [Int.floor_zero] at h
  have hw : -(b - a + 1) ≤ ⌈(last.lowerLimit.val - geo.upperLimit.val) / cell⌉ := by
    rw [← Int.sub_one_lt_iff, Int.lt_ceil, lt_div_iff₀ hcell]
    push_cast
    nlinarith [hin.lower]
  have hcells : -(b - a) ≤ ⌊(last.upperLimit.val - geo.upperLimit.val) / cell⌋ ↔
      geo.lowerLimit.val + cell ≤ last.upperLimit.val := by
    rw [Int.le_floor, le_div_iff₀ hcell]
    push_cast
    constructor <;> intro h <;> nlinarith
  rw [translateLastBy_backwards, hlag, sub_zero, sub_zero, ← hcells]
  dsimp only
  constructor
  · intro hinside
    have hlower := hinside.lower.2
    dsimp only at hlower
    omega
  · intro hle
    refine ⟨?_, ?_⟩
    · dsimp only
      omega
    · dsimp only
      omega

/-! ## Irregular axes -/

variable {cs : List ℚ} {res : ℚ}

/-- Why a subset is refused: a quotient that does not end, or no coefficient in its interval. -/
def refusal (cs : List ℚ) (res : ℚ) (outer inner : ParsedSubset BigDecimal) : Option PetascopeException :=
  let lower := (inner.lowerLimit.val - outer.lowerLimit.val) / res
  let upper := (inner.upperLimit.val - outer.lowerLimit.val) / res
  if !(isTerminating lower && isTerminating upper) then some .arithmetic
  else if below cs lower < upTo cs upper then none
  else some .invalidRequest

/-- The coefficients below the lower limit, at its distance from the limit before. -/
def belowStep (cs : List ℚ) (res : ℚ) (outer inner : ParsedSubset BigDecimal) : ℕ :=
  below cs ((inner.lowerLimit.val - outer.lowerLimit.val) / res)

/-- The coefficients up to the upper limit, at its distance from the lower limit before. -/
def upToStep (cs : List ℚ) (res : ℚ) (outer inner : ParsedSubset BigDecimal) : ℕ :=
  upTo cs ((inner.upperLimit.val - outer.lowerLimit.val) / res)

/-- The first refusal of a chain. -/
def firstRefusal (cs : List ℚ) (res : ℚ) :
    ParsedSubset BigDecimal → List (ParsedSubset BigDecimal) → Option PetascopeException
  | _, [] => none
  | outer, inner :: rest => (refusal cs res outer inner).or (firstRefusal cs res inner rest)

/-- The coefficients below the steps of a chain. -/
def belowSteps (cs : List ℚ) (res : ℚ) : ParsedSubset BigDecimal → List (ParsedSubset BigDecimal) → ℕ
  | _, [] => 0
  | outer, inner :: rest => belowStep cs res outer inner + belowSteps cs res inner rest

theorem translate_irregular (htype : axis.type = .irregular) (hres : 0 < axis.scalarResolution.val)
    (hcs : cs.Pairwise (· < ·))
    (hrows : getIndexes coverageName axis.rasdamanOrder =
      getIndexesFromIrregularRectilinearAxis (ofSlices cs)) :
    translate getIndexes coverageName axis outer gridMin inner =
      match refusal cs axis.scalarResolution.val outer inner with
      | some e => .error e
      | none => .ok ⟨belowStep cs axis.scalarResolution.val outer inner + gridMin,
          (upToStep cs axis.scalarResolution.val outer inner : ℤ) - 1⟩ := by
  rw [translate, translateGeoToGridCoordinates, htype]
  dsimp only
  unfold geoToGridForIrregularAxes decimalDivide refusal belowStep upToStep
  rw [if_neg hres.ne', if_neg hres.ne', hrows]
  generalize (inner.lowerLimit.val - outer.lowerLimit.val) / axis.scalarResolution.val = lower
  generalize (inner.upperLimit.val - outer.lowerLimit.val) / axis.scalarResolution.val = upper
  dsimp only
  cases hlower : isTerminating lower with
  | false => rfl
  | true =>
    cases hupper : isTerminating upper with
    | false => rfl
    | true =>
      simp only [if_true, bind, Except.bind, getIndexes_ofSlices hcs, Bool.and_self, Bool.not_true,
        Bool.false_eq_true, if_false]
      split_ifs with h
      · have hgrid := toBigInteger_intCast (below cs lower + gridMin)
        push_cast at hgrid
        simp only [BigDecimal.val_ofInt, Int.cast_natCast, hgrid]
        rfl
      · rfl

/-- **A chain on an irregular axis** adds up the coefficients below its steps. -/
theorem translateLast_irregular (htype : axis.type = .irregular) (hres : 0 < axis.scalarResolution.val)
    (hcs : cs.Pairwise (· < ·))
    (hrows : getIndexes coverageName axis.rasdamanOrder =
      getIndexesFromIrregularRectilinearAxis (ofSlices cs))
    (geo : ParsedSubset BigDecimal) (a : ℤ) :
    translateLast getIndexes coverageName axis geo a inners last =
      match firstRefusal cs axis.scalarResolution.val geo (inners ++ [last]) with
      | some e => .error e
      | none => .ok ⟨belowSteps cs axis.scalarResolution.val geo (inners ++ [last]) + a,
          (upToStep cs axis.scalarResolution.val (final geo inners) last : ℤ) - 1⟩ := by
  induction inners generalizing geo a with
  | nil =>
    rw [translateLast, translate_irregular htype hres hcs hrows]
    simp [firstRefusal, belowSteps, final]
  | cons inner rest ih =>
    rw [translateLast, translate_irregular htype hres hcs hrows, List.cons_append, firstRefusal, belowSteps,
      final_cons]
    cases refusal cs axis.scalarResolution.val geo inner with
    | some e => rfl
    | none =>
      simp only [bind, Except.bind, ih, Option.none_or]
      cases firstRefusal cs axis.scalarResolution.val inner (rest ++ [last]) with
      | some e => rfl
      | none =>
        simp only [Except.ok.injEq, ParsedSubset.mk.injEq, and_true]
        push_cast
        ring

/-- The chain is refused like its last subset alone; or, if that is not refused, the coefficients below
the steps of the chain are those below the last subset; and if that is a trim, those up to its last step are
those up to the last subset, and give a grid coordinate of the axis. -/
def IrregularKept (cs : List ℚ) (res : ℚ) (a b : ℤ) (geo : ParsedSubset BigDecimal)
    (inners : List (ParsedSubset BigDecimal)) (last : NumericSubset) : Prop :=
  firstRefusal cs res geo (inners ++ [last.limits]) = refusal cs res geo last.limits ∧
    (refusal cs res geo last.limits = none →
      belowSteps cs res geo (inners ++ [last.limits]) = belowStep cs res geo last.limits ∧
        ∀ lo hi, last = .trimming lo hi →
          upToStep cs res (final geo inners) last.limits = upToStep cs res geo last.limits ∧
            a < upToStep cs res geo last.limits ∧ upToStep cs res geo last.limits ≤ b + 1)

/-! ## Chains and last subsets -/

/-- An axis before any subset, with `b - a + 1` cells from `a` on: a regular one whose geo bounds are that
many resolutions apart, or an irregular one with that many coefficients from 0 on. -/
structure Untrimmed (getIndexes : CoefficientIndexes) (coverageName : String) (axis : Axis)
    (geo : ParsedSubset BigDecimal) (a b : ℤ) (cs : List ℚ) : Prop where
  geoBounds : axis.geoBounds = .trimming geo.lowerLimit geo.upperLimit
  gridBounds : axis.gridBounds = .trimming (.ofInt a) (.ofInt b)
  nonempty : a ≤ b
  regular : ∀ resolution, axis.type = .regular resolution → resolution.val ≠ 0 ∧
    geo.upperLimit.val - geo.lowerLimit.val = (b - a + 1) * |resolution.val|
  irregular : axis.type = .irregular → 0 < axis.scalarResolution.val ∧ cs.Pairwise (· < ·) ∧
    cs.head? = some 0 ∧ (cs.length : ℤ) = b - a + 1 ∧
    getIndexes coverageName axis.rasdamanOrder = getIndexesFromIrregularRectilinearAxis (ofSlices cs)

/-- When a chain of trims and a last subset compose. -/
def Kept (axis : Axis) (geo : ParsedSubset BigDecimal) (a b : ℤ) (cs : List ℚ)
    (inners : List (ParsedSubset BigDecimal)) (last : NumericSubset) : Prop :=
  match axis.type with
  | .regular resolution =>
    if 0 < resolution.val then ForwardsKept resolution.val geo inners last.limits
    else BackwardsKept (-resolution.val) geo inners last.limits
  | .irregular => IrregularKept cs axis.scalarResolution.val a b geo inners last

/-- The bounds are grid coordinates of the axis. -/
def NumericSubset.IsInside (a b : ℤ) (bounds : NumericSubset) : Prop :=
  (a ≤ bounds.limits.lowerLimit.val ∧ bounds.limits.lowerLimit.val ≤ b) ∧
    (a ≤ bounds.limits.upperLimit.val ∧ bounds.limits.upperLimit.val ≤ b)

theorem isInside_trimming {lo hi : ℤ} :
    (NumericSubset.trimming (.ofInt lo) (.ofInt hi)).IsInside a b ↔ (a ≤ lo ∧ lo ≤ b) ∧ a ≤ hi ∧ hi ≤ b := by
  simp [NumericSubset.IsInside, NumericSubset.limits]

theorem isInside_slicing {n : ℤ} :
    (NumericSubset.slicing (.ofInt n)).IsInside a b ↔ a ≤ n ∧ n ≤ b := by
  simp [NumericSubset.IsInside, NumericSubset.limits]

variable {bound : NumericSubset} {x y : ParsedSubset ℤ}

/-- Grid bounds determine a translation that is one cell for a slice. -/
theorem gridBounds_inj (hx : ∀ p, bound = .slicing p → x.lowerLimit = x.upperLimit)
    (hy : ∀ p, bound = .slicing p → y.lowerLimit = y.upperLimit) :
    bound.gridBounds x = bound.gridBounds y ↔ x = y := by
  refine ⟨fun h => ?_, fun h => h ▸ rfl⟩
  cases bound with
  | trimming lo hi =>
    obtain ⟨hlower, hupper⟩ := NumericSubset.trimming.inj h
    exact ParsedSubset.ext (BigDecimal.ofInt_injective hlower) (BigDecimal.ofInt_injective hupper)
  | slicing p =>
    have hlower := BigDecimal.ofInt_injective (NumericSubset.slicing.inj h)
    exact ParsedSubset.ext hlower ((hx p rfl).symm.trans (hlower.trans (hy p rfl)))

theorem gridBounds_isInside (hx : ∀ p, bound = .slicing p → x.lowerLimit = x.upperLimit) :
    (bound.gridBounds x).IsInside a b ↔ InsideGrid a b x := by
  cases bound with
  | trimming lo hi => exact isInside_trimming.trans ⟨fun h => ⟨h.1, h.2⟩, fun h => ⟨h.lower, h.upper⟩⟩
  | slicing p =>
    exact isInside_slicing.trans ⟨fun h => ⟨h, hx p rfl ▸ h⟩, fun h => h.lower⟩

/-- A chain backwards to a point. -/
theorem translateLastBy_backwards_point (geo : ParsedSubset BigDecimal) (a : ℤ)
    (hpoint : last.lowerLimit = last.upperLimit) :
    (translateLastBy (backwards cell) geo a inners last).lowerLimit =
      (translateLastBy (backwards cell) geo a inners last).upperLimit := by
  rw [translateLastBy_backwards, hpoint]
  have h := Int.floor_le_ceil ((last.upperLimit.val - geo.upperLimit.val) / cell -
    backwardsLag cell geo inners)
  dsimp only
  omega

/-- What a chain leaves is what its last subset leaves, and that is inside the grid. -/
def Composes (getIndexes : CoefficientIndexes) (coverageName : String) (axis : Axis)
    (geo : ParsedSubset BigDecimal) (a b : ℤ) (inners : List (ParsedSubset BigDecimal))
    (last : NumericSubset) : Prop :=
  (translateLast getIndexes coverageName axis geo a inners last.limits).map last.gridBounds =
      (translateLast getIndexes coverageName axis geo a [] last.limits).map last.gridBounds ∧
    ∀ translated, translateLast getIndexes coverageName axis geo a [] last.limits = .ok translated →
      (last.gridBounds translated).IsInside a b

theorem composes_of_step {step : ParsedSubset BigDecimal → ℤ → ParsedSubset BigDecimal → ParsedSubset ℤ}
    (hstep : ∀ outer gridMin inner,
      translate getIndexes coverageName axis outer gridMin inner = .ok (step outer gridMin inner))
    (hpoint : ∀ p, bound = .slicing p → ∀ inners,
      (translateLastBy step geo a inners bound.limits).lowerLimit =
        (translateLastBy step geo a inners bound.limits).upperLimit) :
    Composes getIndexes coverageName axis geo a b inners bound ↔
      translateLastBy step geo a inners bound.limits = translateLastBy step geo a [] bound.limits ∧
        InsideGrid a b (translateLastBy step geo a [] bound.limits) := by
  unfold Composes
  rw [translateLast_eq hstep, translateLast_eq hstep]
  simp only [Except.map, Except.ok.injEq, forall_eq']
  rw [gridBounds_inj (fun p hp => hpoint p hp inners) (fun p hp => hpoint p hp []),
    gridBounds_isInside fun p hp => hpoint p hp []]

/-- An accepted step has a coefficient in its interval. -/
theorem belowStep_lt (h : refusal cs res outer inner = none) :
    belowStep cs res outer inner < upToStep cs res outer inner ∧
      upToStep cs res outer inner ≤ cs.length := by
  refine ⟨?_, List.countP_le_length⟩
  unfold refusal at h
  dsimp only at h
  split_ifs at h with hends hlt
  exact hlt

theorem composes_irregular (htype : axis.type = .irregular) (hres : 0 < axis.scalarResolution.val)
    (hcs : cs.Pairwise (· < ·)) (hlength : (cs.length : ℤ) = b - a + 1)
    (hrows : getIndexes coverageName axis.rasdamanOrder =
      getIndexesFromIrregularRectilinearAxis (ofSlices cs)) :
    Composes getIndexes coverageName axis geo a b inners bound ↔
      IrregularKept cs axis.scalarResolution.val a b geo inners bound := by
  have hdirect : firstRefusal cs axis.scalarResolution.val geo ([] ++ [bound.limits]) =
      refusal cs axis.scalarResolution.val geo bound.limits := Option.or_none
  have hsteps : belowSteps cs axis.scalarResolution.val geo ([] ++ [bound.limits]) =
      belowStep cs axis.scalarResolution.val geo bound.limits := rfl
  have hfinal : final geo [] = geo := rfl
  unfold Composes IrregularKept
  rw [translateLast_irregular htype hres hcs hrows, translateLast_irregular htype hres hcs hrows, hdirect,
    hsteps, hfinal]
  have hlt := @belowStep_lt geo bound.limits cs axis.scalarResolution.val
  generalize firstRefusal cs axis.scalarResolution.val geo (inners ++ [bound.limits]) = chain
  generalize refusal cs axis.scalarResolution.val geo bound.limits = alone at hlt
  cases alone with
  | some e =>
    cases chain with
    | some e' => simp [Except.map]
    | none => simp [Except.map]
  | none =>
    obtain ⟨hlt, hle⟩ := hlt rfl
    cases chain with
    | some e' => simp [Except.map]
    | none =>
      cases bound with
      | trimming lo hi =>
        simp only [Except.map, Except.ok.injEq, forall_eq', NumericSubset.gridBounds, isInside_trimming,
          NumericSubset.trimming.injEq, BigDecimal.ofInt_injective.eq_iff, true_and, forall_const,
          and_imp]
        constructor
        · rintro ⟨⟨hlower, hupper⟩, hinside⟩
          refine ⟨by omega, ?_⟩
          rintro _ _ rfl rfl
          omega
        · rintro ⟨hlower, hupper⟩
          have hupper := hupper lo hi rfl rfl
          omega
      | slicing p =>
        simp only [Except.map, Except.ok.injEq, forall_eq', NumericSubset.gridBounds, isInside_slicing,
          NumericSubset.slicing.injEq, BigDecimal.ofInt_injective.eq_iff, true_and, forall_const,
          reduceCtorEq, false_implies, implies_true, and_true]
        omega

theorem composes_iff_kept (h : Untrimmed getIndexes coverageName axis geo a b cs)
    (hin : Within geo bound.limits) :
    Composes getIndexes coverageName axis geo a b inners bound ↔ Kept axis geo a b cs inners bound := by
  unfold Kept
  cases htype : axis.type with
  | irregular =>
    obtain ⟨hres, hcs, -, hlength, hrows⟩ := h.irregular htype
    exact composes_irregular htype hres hcs hlength hrows
  | regular resolution =>
    obtain ⟨hne, hextent⟩ := h.regular resolution htype
    dsimp only
    split_ifs with hres
    · have hpoint : ∀ p, bound = .slicing p → ∀ inners,
          (translateLastBy (forwards resolution.val) geo a inners bound.limits).lowerLimit =
            (translateLastBy (forwards resolution.val) geo a inners bound.limits).upperLimit := by
        rintro p rfl inners
        rw [translateLastBy_forwards_point geo a rfl]
      rw [abs_of_pos hres] at hextent
      rw [composes_of_step (fun _ _ _ => translate_forwards htype hres) hpoint, forwards_eq_iff,
        forwards_inside hres h.nonempty hextent hin, ForwardsKept, and_assoc]
    · have hneg : resolution.val < 0 := lt_of_le_of_ne (not_lt.mp hres) hne
      have hpoint : ∀ p, bound = .slicing p → ∀ inners,
          (translateLastBy (backwards (-resolution.val)) geo a inners bound.limits).lowerLimit =
            (translateLastBy (backwards (-resolution.val)) geo a inners bound.limits).upperLimit := by
        rintro p rfl inners
        exact translateLastBy_backwards_point geo a rfl
      rw [abs_of_neg hneg] at hextent
      rw [composes_of_step (fun _ _ _ => translate_backwards htype hneg) hpoint, backwards_eq_iff,
        backwards_inside (neg_pos.mpr hneg) hextent hin, BackwardsKept, and_assoc]

/-- The last of nested limits is inside the first. -/
theorem Nested.within_last (h : Nested geo (inners ++ [last])) : Within geo last := by
  have : IsTrans (ParsedSubset BigDecimal) Within := ⟨fun x y z hxy hyz =>
    ⟨hxy.lower.trans hyz.lower, hyz.ordered, hyz.upper.trans hxy.upper⟩⟩
  exact (List.pairwise_cons.mp (List.isChain_iff_pairwise.mp h)).1 last (by simp)

/-- **Nested geo subsets compose** on an axis exactly when the chain is kept: the bounds after the chain
are those after its last subset alone, and the grid bounds are inside the grid of the axis. -/
theorem subsets_compose (metadata : WcpsCoverageMetadata) (name : String) (trims : List Subset)
    (last : Subset) (haxis : metadata.getAxisByName name = some axis)
    (htype : metadata.coverageType ≠ "GridCoverage")
    (h : Untrimmed getIndexes metadata.coverageName axis geo a b cs)
    (hsubsets : ∀ s ∈ trims ++ [last], s.axisName = name ∧ s.IsGeo)
    (htrims : ∀ s ∈ trims, ∃ lo hi, s.numericSubset = .trimming lo hi)
    (hnested : Nested geo ((trims ++ [last]).map fun s => s.numericSubset.limits)) :
    (boundsAfter getIndexes metadata name (trims ++ [last]) = boundsAfter getIndexes metadata name [last] ∧
      ∀ bounds, boundsAfter getIndexes metadata name [last] = .ok (some bounds) →
        bounds.2.IsInside a b) ↔
      Kept axis geo a b cs (trims.map fun s => s.numericSubset.limits) last.numericSubset := by
  have hin : Within geo last.numericSubset.limits := by
    rw [List.map_append] at hnested
    exact Nested.within_last hnested
  have hchain := boundsAfter_chain getIndexes trims haxis h.geoBounds h.gridBounds htype hsubsets htrims
    hnested
  have halone := boundsAfter_chain getIndexes [] haxis h.geoBounds h.gridBounds htype
    (fun s hs => hsubsets s (List.mem_append_right _ hs)) (fun _ hs => absurd hs List.not_mem_nil)
    (List.isChain_cons_cons.mpr ⟨hin, .singleton _⟩)
  rw [List.nil_append, List.map_nil] at halone
  rw [hchain, halone, ← composes_iff_kept h hin, Composes]
  refine and_congr ?_ ?_
  · generalize translateLast getIndexes metadata.coverageName axis geo a _ last.numericSubset.limits = chain
    generalize translateLast getIndexes metadata.coverageName axis geo a _ last.numericSubset.limits = alone
    cases chain <;> cases alone <;> simp [Except.map]
  · generalize translateLast getIndexes metadata.coverageName axis geo a _ last.numericSubset.limits = alone
    cases alone <;> simp [Except.map]

/-! ### A regular axis of ten cells -/

/-- The axis: `Long(0:10)` with resolution 1 and the cells 0 to 9. -/
def longAxis : Axis where
  label := "Long"
  type := .regular (.ofInt 1)
  geoBounds := .trimming (.ofInt 0) (.ofInt 10)
  gridBounds := .trimming (.ofInt 0) (.ofInt 9)
  crsUri := "EPSG:4326"
  scalarResolution := .ofInt 1
  rasdamanOrder := 0

/-- A coverage with that axis. -/
def longCoverage : WcpsCoverageMetadata := ⟨"line", "RectifiedGridCoverage", [longAxis]⟩

/-- A subset of it. -/
def longSubset (bounds : NumericSubset) : Subset := ⟨"Long", bounds, "EPSG:4326"⟩

theorem longSubset_isGeo {subsets : List Subset} (h : ∀ s ∈ subsets, ∃ bounds, s = longSubset bounds) :
    ∀ s ∈ subsets, s.axisName = "Long" ∧ s.IsGeo := by
  intro s hs
  obtain ⟨bounds, rfl⟩ := h s hs
  exact ⟨rfl, rfl⟩

theorem longAxis_untrimmed (getIndexes : CoefficientIndexes) :
    Untrimmed getIndexes longCoverage.coverageName longAxis ⟨.ofInt 0, .ofInt 10⟩ 0 9 [0] where
  geoBounds := rfl
  gridBounds := rfl
  nonempty := by decide
  regular := by
    rintro resolution h
    obtain rfl := AxisType.regular.inj h
    norm_num
  irregular := fun h => nomatch h

/-- A database without irregular axes. -/
def noIndexes : CoefficientIndexes := fun _ _ _ _ => .error .noApplicableCode

/-- A slice inside a trim at cell borders; the coverage has no irregular axis to look up. -/
theorem subsets_compose_long :
    boundsAfter noIndexes longCoverage "Long"
        ([longSubset (.trimming (.ofInt 2) (.ofInt 8))] ++ [longSubset (.slicing (.ofInt 5))]) =
      boundsAfter noIndexes longCoverage "Long" [longSubset (.slicing (.ofInt 5))] :=
  ((subsets_compose longCoverage "Long" [longSubset (.trimming (.ofInt 2) (.ofInt 8))]
    (longSubset (.slicing (.ofInt 5))) rfl (by decide) (longAxis_untrimmed noIndexes)
    (longSubset_isGeo (by simp)) (by simp [longSubset])
    (by
      refine List.isChain_cons_cons.mpr ⟨?_, List.isChain_cons_cons.mpr ⟨?_, .singleton _⟩⟩ <;>
        constructor <;> norm_num [longSubset, NumericSubset.limits])).mpr
    (by
      simp only [Kept, longAxis]
      norm_num [ForwardsKept, forwardsLag, topCut, AtTop, lag, final, longSubset, NumericSubset.limits,
        BigDecimal.ofInt_injective.eq_iff])).1

/-- `Long(2:9)` inside `Long(1.5:10)` gets the cells from 1 on, and alone those from 2 on. -/
theorem subsets_drift :
    ¬∀ (getIndexes : CoefficientIndexes) (metadata : WcpsCoverageMetadata) (name : String)
      (trims : List Subset) (last : Subset) (axis : Axis) (geo : ParsedSubset BigDecimal) (a b : ℤ)
      (cs : List ℚ), metadata.getAxisByName name = some axis → metadata.coverageType ≠ "GridCoverage" →
        Untrimmed getIndexes metadata.coverageName axis geo a b cs →
        (∀ s ∈ trims ++ [last], s.axisName = name ∧ s.IsGeo) →
        (∀ s ∈ trims, ∃ lo hi, s.numericSubset = .trimming lo hi) →
        Nested geo ((trims ++ [last]).map fun s => s.numericSubset.limits) →
        boundsAfter getIndexes metadata name (trims ++ [last]) =
            boundsAfter getIndexes metadata name [last] ∧
          ∀ bounds, boundsAfter getIndexes metadata name [last] = .ok (some bounds) →
            bounds.2.IsInside a b := by
  intro h
  have hsame := (h (fun _ _ _ _ => .error .invalidRequest) longCoverage "Long"
    [longSubset (.trimming ⟨15, 1⟩ (.ofInt 10))] (longSubset (.trimming (.ofInt 2) (.ofInt 9))) longAxis
    ⟨.ofInt 0, .ofInt 10⟩ 0 9 [0] rfl (by decide) (longAxis_untrimmed _)
    (longSubset_isGeo (by simp)) (by simp [longSubset])
    (by
      refine List.isChain_cons_cons.mpr ⟨?_, List.isChain_cons_cons.mpr ⟨?_, .singleton _⟩⟩ <;>
        constructor <;> norm_num [longSubset, NumericSubset.limits, BigDecimal.val, BigDecimal.ofInt])).1
  revert hsame
  decide +kernel

end Petascope

end Rasdaman
