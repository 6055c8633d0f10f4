import Mathlib
import Rasdaman.Raslib.MiterArea

/-!
# Qlparser/Scale — scaling an array to a wished domain

`QtScale::evaluate` with a minterval operand divides the extent of the wished domain by that of the
source, looks what the rounding of `r_Minterval::scale` will make of this factor and, where the extent
is missed, corrects the factor once by the difference.  Then the domain is scaled, and so is the domain
of the one tile that holds all source cells, and both are moved to the origin of the wished domain.

All bounds of one dimension are rounded down, the upper one after `0.000001` was added.  So a factor
`k / s`, with `s` the extent of the source, makes the extent `k`, or `k + 1` where `k * low / s` falls
short of the next integer by no more than a millionth (`RoundsUp`).  The correction then takes `k - 1`,
which is right only if the same happens again.

The numbers of `r_Double` are read as exact.  The bounds themselves are `r_Range`s: `high + 1` wraps, and
a scaled bound that leaves 64 bits has no value.  A tile has the size of an `r_Bytes`.

`scale_to_wished_iff` — for tiles below `2^32` bytes, `Reached` is exactly when the wished domain is
reached.
-/

namespace Rasdaman

namespace Box

variable {d : ℕ}

/-- The new lower bound in `scale`. -/
def scaledLow (factor : ℚ) (low : ℤ) : ℤ := ⌊factor * low⌋

/-- The new upper bound in `scale`, which is never below the lower one. -/
def scaledHigh (factor : ℚ) (low high : ℤ) : ℤ :=
  let newHigh := ⌊factor * toRange (high + 1) + 0.000001⌋ - 1
  if newHigh < scaledLow factor low then scaledLow factor low else newHigh

theorem scaledLow_le_scaledHigh (factor : ℚ) (low high : ℤ) :
    scaledLow factor low ≤ scaledHigh factor low high := by
  rw [scaledHigh]
  split
  · exact le_rfl
  · next h => exact not_lt.mp h

/-- The scaled bounds are numbers of an `r_Range`. -/
def ScalesInRange (factor : ℚ) (low high : ℤ) : Prop :=
  -2 ^ 63 ≤ scaledLow factor low ∧ scaledHigh factor low high < 2 ^ 63

instance (factor : ℚ) (low high : ℤ) : Decidable (ScalesInRange factor low high) :=
  inferInstanceAs (Decidable (_ ∧ _))

/-- `create_scale`; a cast from a double to an `r_Range` that cannot hold it is undefined. -/
def createScale (b : Box d) (scaleVec : Fin d → ℚ) : Except Halt (Box d) :=
  if ∀ i, ScalesInRange (scaleVec i) (b.low i) (b.high i) then
    .ok {
      low := fun i => scaledLow (scaleVec i) (b.low i)
      high := fun i => scaledHigh (scaleVec i) (b.low i) (b.high i)
      low_le_high := fun _ => scaledLow_le_scaledHigh .. }
  else .error .outside

end Box

/-- An MDD expression as scaling sees it: the size of a cell, the domains of the tiles of its object and
the load domain, whose cells lie in the tiles. -/
structure LoadedDomain (d : ℕ) where
  cellSize : ℕ
  tileDomains : List (Box d)
  loadDomain : RangeBox d
  cellSize_pos : 0 < cellSize
  covered : ∀ p ∈ loadDomain.toBox, ∃ b ∈ tileDomains, p ∈ b

/-- The domains of the MDD that `evaluate` returns. -/
structure ScaledMDD (d : ℕ) where
  definitionDomain : Box d
  tileDomains : List (Box d)
  deriving DecidableEq

namespace QtScale

variable {d : ℕ}

/-- The factor for a dimension. -/
def scaleFactor (sourceDomain wishedTargetDomain : Box d) (i : Fin d) : ℚ :=
  let sourceRange : ℚ := toRange (sourceDomain.extent i)
  let targetRange : ℚ := toRange (wishedTargetDomain.extent i)
  if sourceRange ≠ 0 then
    let f := targetRange / sourceRange
    let low := Box.scaledLow f (sourceDomain.low i)
    let high := Box.scaledHigh f (sourceDomain.low i) (sourceDomain.high i)
    if ((high - low + 1 : ℤ) : ℚ) ≠ targetRange then
      f + (targetRange - (high - low + 1 : ℤ)) / sourceRange
    else f
  else 0

/-- The domain of the tile made of all the given ones. -/
def closure : List (Box d) → Except Halt (Box d)
  | [] => .error .outside
  | b :: bs => .ok (bs.foldl Box.closureWith b)

/-- The tiles that meet the load domain. -/
def loadedTiles (mdd : LoadedDomain d) : List (Box d) :=
  mdd.tileDomains.filter fun b => b.Intersects mdd.loadDomain.toBox

/-- A new tile is filled by the code with all its cells; its block has their size modulo `2^32`. -/
def newTile (cellSize : ℕ) (domain : Box d) : Except Halt Unit :=
  if domain.extents.prod * cellSize < 2 ^ 32 then .ok () else .error .outside

/-- `evaluate` for a minterval operand of the dimension of the source. -/
def evaluate (mdd : LoadedDomain d) (wishedTargetDomain : RangeBox d) : Except Halt (ScaledMDD d) := do
  let sourceDomain := mdd.loadDomain.toBox
  let scaleVector := scaleFactor sourceDomain wishedTargetDomain.toBox
  let scaled ← sourceDomain.createScale scaleVector
  let translation : Point d := fun i => toRange (wishedTargetDomain.low i - scaled.low i)
  let targetDomain ← (scaled.translate translation).mapError .throws
  let sourceTile ← closure (loadedTiles mdd)
  newTile mdd.cellSize sourceTile
  let sourceTileDomain ← (sourceDomain.createIntersection sourceTile).mapError .throws
  let targetTileDomain ← sourceTileDomain.createScale scaleVector
  newTile mdd.cellSize targetTileDomain
  let scaledTileDomain ← (targetTileDomain.translate translation).mapError .throws
  return ⟨targetDomain, [scaledTileDomain]⟩

/-- The tile made of the source tiles has less than `2^32` bytes, and one of the wished domain has. -/
structure Fits (mdd : LoadedDomain d) (wishedTargetDomain : RangeBox d) : Prop where
  source : ∀ b, closure (loadedTiles mdd) = .ok b → b.extents.prod * mdd.cellSize < 2 ^ 32
  target : wishedTargetDomain.extents.prod * mdd.cellSize < 2 ^ 32

/-! ## The extent a factor makes -/

/-- The fraction of `k * low / s` is within a millionth of the next integer. -/
def RoundsUp (k s low : ℤ) : Prop := (10 ^ 6 - 1) * s ≤ k * low % s * 10 ^ 6

instance (k s low : ℤ) : Decidable (RoundsUp k s low) := inferInstanceAs (Decidable (_ ≤ _))

variable {k s low high t : ℤ}

theorem scaledLow_div (hs : 0 < s) : Box.scaledLow (k / s) low = k * low / s := by
  rw [Box.scaledLow, div_mul_eq_mul_div, ← Int.cast_mul]
  obtain ⟨n, rfl⟩ := Int.eq_ofNat_of_zero_le hs.le
  exact Rat.floor_intCast_div_natCast _ n

/-- Up to a millionth more than `k * low / s` is rounded as far up as `RoundsUp` says. -/
theorem floor_div_add (hs : 0 < s) :
    ⌊(k * low / s : ℚ) + 0.000001⌋ = k * low / s + if RoundsUp k s low then 1 else 0 := by
  have hsq : (0 : ℚ) < s := by exact_mod_cast hs
  have hsplit : (k * low : ℚ) = s * ((k * low / s : ℤ) : ℚ) + ((k * low % s : ℤ) : ℚ) := by
    exact_mod_cast (Int.mul_ediv_add_emod (k * low) s).symm
  have hquot : (k * low / s : ℚ) = ((k * low / s : ℤ) : ℚ) + ((k * low % s : ℤ) : ℚ) / s := by
    rw [hsplit, add_div, mul_div_cancel_left₀ _ hsq.ne']
  have hlow : (0 : ℚ) ≤ ((k * low % s : ℤ) : ℚ) := by
    exact_mod_cast Int.emod_nonneg _ hs.ne'
  have hhigh : ((k * low % s : ℤ) : ℚ) + 1 ≤ s := by
    exact_mod_cast Int.emod_lt_of_pos (k * low) hs
  rw [hquot, add_assoc, Int.floor_intCast_add]
  congr 1
  have hnonneg : 0 ≤ ((k * low % s : ℤ) : ℚ) / s := div_nonneg hlow hsq.le
  have hlt : ((k * low % s : ℤ) : ℚ) / s < 1 := (div_lt_one hsq).mpr (by linarith)
  split
  · next h =>
    have h' : ((10 ^ 6 - 1) * s : ℚ) ≤ ((k * low % s : ℤ) : ℚ) * 10 ^ 6 := by exact_mod_cast h
    have hge : (1 - 0.000001 : ℚ) ≤ ((k * low % s : ℤ) : ℚ) / s := by
      rw [le_div_iff₀ hsq]
      linarith
    rw [Int.floor_eq_iff]
    constructor <;> push_cast <;> linarith
  · next h =>
    have h' : ((k * low % s : ℤ) : ℚ) * 10 ^ 6 < ((10 ^ 6 - 1) * s : ℚ) := by
      exact_mod_cast not_le.mp h
    have hlt' : ((k * low % s : ℤ) : ℚ) / s < 1 - 0.000001 := by
      rw [div_lt_iff₀ hsq]
      linarith
    rw [Int.floor_eq_iff]
    constructor <;> push_cast <;> linarith

/-- **The factor `k / s` makes the extent `k`, or one more where it rounds up**, but at least one. -/
theorem scaledHigh_div (hs : 0 < s) (hext : high - low + 1 = s) (hlow : -2 ^ 63 ≤ low)
    (hhigh : high < 2 ^ 63 - 1) : Box.scaledHigh (k / s) low high =
      k * low / s + max 1 (k + if RoundsUp k s low then 1 else 0) - 1 := by
  have hsq : (s : ℚ) ≠ 0 := by exact_mod_cast hs.ne'
  have hend : (k / s : ℚ) * (high + 1 : ℤ) = k + k * low / s := by
    have : high + 1 = low + s := by omega
    rw [this]
    push_cast
    field_simp
    ring
  rw [Box.scaledHigh, toRange_of_lt (by omega) (by omega), scaledLow_div hs, hend, add_assoc,
    Int.floor_intCast_add, floor_div_add hs]
  split <;> split <;> omega

/-- Where `high + 1` wraps, no factor makes more than one cell. -/
theorem scaledHigh_wrapped {f : ℚ} (hf : 0 ≤ f) (hlow : -2 ^ 63 ≤ low) :
    Box.scaledHigh f low (2 ^ 63 - 1) = Box.scaledLow f low := by
  have hwrap : toRange (2 ^ 63 - 1 + 1) = -2 ^ 63 := by decide
  have hle : f * (-2 ^ 63 : ℤ) ≤ f * low := by
    have : ((-2 ^ 63 : ℤ) : ℚ) ≤ low := by exact_mod_cast hlow
    exact mul_le_mul_of_nonneg_left this hf
  have hfloor : ⌊f * (-2 ^ 63 : ℤ) + 0.000001⌋ ≤ ⌊f * (low : ℚ)⌋ + 1 := by
    rw [← Int.floor_add_one]
    refine Int.floor_le_floor (le_trans ?_ (add_le_add_left hle 1))
    norm_num
  simp only [Box.scaledHigh, hwrap, Box.scaledLow]
  split <;> omega

/-! ## The factor of a dimension -/

/-- An interval of so many cells from there on is one of `r_Range`s. -/
def Within (low t : ℤ) : Prop := -2 ^ 63 ≤ low ∧ low + t ≤ 2 ^ 63

instance (low t : ℤ) : Decidable (Within low t) := inferInstanceAs (Decidable (_ ∧ _))

/-- How the extent `t` is made of `s` cells from `low` on: the first factor does not round up, or the
corrected factor rounds up too. -/
def OneCorrection (t s low : ℤ) : Prop :=
  ¬RoundsUp t s low ∧ Within (t * low / s) t ∨
    RoundsUp t s low ∧ RoundsUp (t - 1) s low ∧ Within ((t - 1) * low / s) t

instance (t s low : ℤ) : Decidable (OneCorrection t s low) := inferInstanceAs (Decidable (_ ∨ _))

/-- Where the wished domain is reached: an extent of one always is. -/
def Reached (sourceDomain wishedTargetDomain : Box d) (i : Fin d) : Prop :=
  wishedTargetDomain.extent i = 1 ∨ sourceDomain.high i < 2 ^ 63 - 1 ∧
    OneCorrection (wishedTargetDomain.extent i) (sourceDomain.extent i) (sourceDomain.low i)

instance (sourceDomain wishedTargetDomain : Box d) (i : Fin d) :
    Decidable (Reached sourceDomain wishedTargetDomain i) :=
  inferInstanceAs (Decidable (_ ∨ _ ∧ _))

variable {sourceDomain wished : Box d} {i : Fin d}

/-- An interval of numbers below `2^63` is scaled to the extent `t` within 64 bits. -/
def Makes (f : ℚ) (low high t : ℤ) : Prop :=
  Box.ScalesInRange f low high ∧ Box.scaledHigh f low high - Box.scaledLow f low + 1 = t

theorem makes_div_iff (hs : 0 < s) (hext : high - low + 1 = s) (hlow : -2 ^ 63 ≤ low)
    (hhigh : high < 2 ^ 63 - 1) : Makes (k / s) low high t ↔
      max 1 (k + if RoundsUp k s low then 1 else 0) = t ∧ Within (k * low / s) t := by
  rw [Makes, Box.ScalesInRange, scaledHigh_div hs hext hlow hhigh, scaledLow_div hs, Within]
  omega

/-- The factor after the one correction. -/
theorem scaleFactor_eq (hs : sourceDomain.extent i < 2 ^ 63) (ht : wished.extent i < 2 ^ 63)
    (hlow : -2 ^ 63 ≤ sourceDomain.low i) (hhigh : sourceDomain.high i < 2 ^ 63 - 1) :
    scaleFactor sourceDomain wished i =
      if RoundsUp (wished.extent i) (sourceDomain.extent i) (sourceDomain.low i) then
        ((wished.extent i - 1 : ℤ) : ℚ) / (sourceDomain.extent i : ℤ)
      else ((wished.extent i : ℤ) : ℚ) / (sourceDomain.extent i : ℤ) := by
  have hspos := sourceDomain.extent_cast_pos i
  have htpos := wished.extent_cast_pos i
  have hsq : (((sourceDomain.extent i : ℕ) : ℤ) : ℚ) ≠ 0 := by exact_mod_cast hspos.ne'
  have hend := scaledHigh_div (k := wished.extent i) hspos (sourceDomain.extent_cast i).symm hlow hhigh
  have hbegin := @scaledLow_div (wished.extent i) _ (sourceDomain.low i) hspos
  simp only [scaleFactor, toRange_of_lt (by omega) (by omega : (sourceDomain.extent i : ℤ) < 2 ^ 63),
    toRange_of_lt (by omega) (by omega : (wished.extent i : ℤ) < 2 ^ 63), if_pos hsq, hend, hbegin]
  split
  · have hmax : max 1 ((wished.extent i : ℤ) + 1) = wished.extent i + 1 := by omega
    rw [hmax, if_pos (by push_cast; linarith)]
    push_cast
    field_simp
    ring
  · have hmax : max 1 ((wished.extent i : ℤ) + 0) = wished.extent i := by omega
    rw [hmax, if_neg (not_not.mpr (by push_cast; ring))]

/-- A source that ends at the last `r_Range` is only scaled to one cell. -/
theorem makes_wrapped_iff (hs : sourceDomain.extent i < 2 ^ 63) (ht : wished.extent i < 2 ^ 63)
    (hlow : -2 ^ 63 ≤ sourceDomain.low i) (hhigh : sourceDomain.high i = 2 ^ 63 - 1) :
    Makes (scaleFactor sourceDomain wished i) (sourceDomain.low i) (sourceDomain.high i)
      (wished.extent i) ↔ wished.extent i = 1 := by
  have hspos := sourceDomain.extent_cast_pos i
  have htpos := wished.extent_cast_pos i
  have hsq : (0 : ℚ) < ((sourceDomain.extent i : ℕ) : ℤ) := by exact_mod_cast hspos
  have htq : (1 : ℚ) ≤ ((wished.extent i : ℕ) : ℤ) := by exact_mod_cast htpos
  have hone : ∀ f : ℚ, 0 ≤ f →
      Box.scaledHigh f (sourceDomain.low i) (sourceDomain.high i) - Box.scaledLow f (sourceDomain.low i)
        + 1 = 1 := fun f hf => by rw [hhigh, scaledHigh_wrapped hf hlow]; omega
  have hfirst : (0 : ℚ) ≤ ((wished.extent i : ℕ) : ℤ) / ((sourceDomain.extent i : ℕ) : ℤ) :=
    div_nonneg (zero_le_one.trans htq) hsq.le
  -- the factor is not negative, whether it is corrected or not
  have hfactor : 0 ≤ scaleFactor sourceDomain wished i ∧ (wished.extent i = 1 →
      scaleFactor sourceDomain wished i = 1 / ((sourceDomain.extent i : ℕ) : ℤ)) := by
    simp only [scaleFactor, toRange_of_lt (by omega) (by omega : (sourceDomain.extent i : ℤ) < 2 ^ 63),
      toRange_of_lt (by omega) (by omega : (wished.extent i : ℤ) < 2 ^ 63), if_pos hsq.ne',
      hone _ hfirst]
    split
    · next hne =>
      refine ⟨add_nonneg hfirst (div_nonneg (by push_cast at htq ⊢; linarith) hsq.le), fun h => ?_⟩
      rw [h] at hne
      exact absurd rfl hne
    · exact ⟨hfirst, fun h => by rw [h]; norm_num⟩
  rw [Makes, hone _ hfactor.1]
  refine ⟨fun h => by omega, fun h => ⟨?_, by omega⟩⟩
  rw [Box.ScalesInRange, hhigh, scaledHigh_wrapped hfactor.1 hlow, hfactor.2 h]
  have hdiv := @scaledLow_div 1 _ (sourceDomain.low i) hspos
  rw [Int.cast_one, one_mul] at hdiv
  rw [hdiv]
  have hhigh' := sourceDomain.low_le_high i
  refine ⟨?_, Int.ediv_lt_of_lt_mul hspos (by nlinarith)⟩
  exact (Int.le_ediv_iff_mul_le hspos).mpr (by nlinarith)

/-- **One correction reaches the wished extent exactly where `Reached` says.** -/
theorem makes_scaleFactor_iff (hs : sourceDomain.extent i < 2 ^ 63) (ht : wished.extent i < 2 ^ 63)
    (hrange : sourceDomain.InRange) :
    Makes (scaleFactor sourceDomain wished i) (sourceDomain.low i) (sourceDomain.high i)
      (wished.extent i) ↔ Reached sourceDomain wished i := by
  have hspos := sourceDomain.extent_cast_pos i
  have htpos := wished.extent_cast_pos i
  have hext := (sourceDomain.extent_cast i).symm
  have hlow := (hrange i).1
  have hend := (hrange i).2
  by_cases hhigh : sourceDomain.high i < 2 ^ 63 - 1
  swap
  · rw [makes_wrapped_iff hs ht hlow (by omega), Reached]
    exact ⟨.inl, fun h => h.resolve_right fun h => hhigh h.1⟩
  have hle := sourceDomain.low_le_high i
  rw [scaleFactor_eq hs ht hlow hhigh, Reached, OneCorrection]
  split
  · next hup =>
    rw [makes_div_iff hspos hext hlow hhigh]
    simp only [hup, hhigh, not_true_eq_false, false_and, true_and, false_or]
    by_cases hone : wished.extent i = 1
    · -- the corrected factor is 0, and an interval of one cell remains
      have hzero : ¬ RoundsUp (wished.extent i - 1) (sourceDomain.extent i) (sourceDomain.low i) := by
        simpa [RoundsUp, hone] using hspos
      rw [if_neg hzero, hone]
      exact iff_of_true ⟨by simp, by simp [Within]⟩ (.inl rfl)
    · have hmax : max 1 (((wished.extent i : ℤ) - 1) + if RoundsUp (wished.extent i - 1)
          (sourceDomain.extent i) (sourceDomain.low i) then 1 else 0) = wished.extent i ↔
            RoundsUp (wished.extent i - 1) (sourceDomain.extent i) (sourceDomain.low i) := by
        split
        · next h => exact iff_of_true (by omega) h
        · next h => exact iff_of_false (by omega) h
      rw [hmax]
      exact (or_iff_right hone).symm
  · next hup =>
    rw [makes_div_iff hspos hext hlow hhigh, if_neg hup]
    simp only [hup, hhigh, not_false_eq_true, true_and, false_and, or_false]
    by_cases hone : wished.extent i = 1
    · refine iff_of_true ⟨by omega, ?_⟩ (.inl hone)
      rw [hone, Nat.cast_one, one_mul, Within]
      have hlower : -2 ^ 63 ≤ sourceDomain.low i / sourceDomain.extent i :=
        (Int.le_ediv_iff_mul_le hspos).mpr (by nlinarith)
      have hupper : sourceDomain.low i / sourceDomain.extent i < 2 ^ 63 - 1 :=
        Int.ediv_lt_of_lt_mul hspos (by nlinarith)
      omega
    · exact ⟨fun h => .inr h.2, fun h => ⟨by omega, h.resolve_left hone⟩⟩

/-! ## The domains of the result -/

theorem mem_foldl_closureWith {bs : List (Box d)} {b : Box d} {p : Point d}
    (h : p ∈ b ∨ ∃ c ∈ bs, p ∈ c) : p ∈ bs.foldl Box.closureWith b := by
  induction bs generalizing b with
  | nil => simpa using h
  | cons c bs ih =>
    refine ih ?_
    simp only [List.mem_cons, exists_eq_or_imp] at h
    rcases h with hb | hc | hbs
    · exact Or.inl (Box.covers_iff.mp (b.closureWith_covers_left c) p hb)
    · exact Or.inl (Box.covers_iff.mp (b.closureWith_covers_right c) p hc)
    · exact Or.inr hbs

/-- The tile made of the tiles that meet the load domain covers it. -/
theorem exists_closure (mdd : LoadedDomain d) :
    ∃ b, closure (loadedTiles mdd) = .ok b ∧ b.Covers mdd.loadDomain.toBox := by
  have hmeets : ∀ p ∈ mdd.loadDomain.toBox, ∃ b ∈ loadedTiles mdd, p ∈ b := by
    intro p hp
    obtain ⟨b, hb, hpb⟩ := mdd.covered p hp
    exact ⟨b, List.mem_filter.mpr ⟨hb, by simpa using .of_mem hpb hp⟩, hpb⟩
  generalize loadedTiles mdd = bs at hmeets
  cases bs with
  | nil => simpa using hmeets _ mdd.loadDomain.low_mem
  | cons b bs =>
    refine ⟨_, rfl, Box.covers_iff.mpr fun p hp => mem_foldl_closureWith ?_⟩
    simpa using hmeets p hp

/-- No side of a tile has more cells than the tile has bytes. -/
theorem extent_lt_of_size {b : Box d} {cellSize : ℕ} (hpos : 0 < cellSize)
    (h : b.extents.prod * cellSize < 2 ^ 32) (i : Fin d) : b.extent i < 2 ^ 63 := by
  have hside : b.extent i ≤ b.extents.prod :=
    Nat.le_of_dvd (b.prod_extents ▸ b.card_cells_pos) (List.dvd_prod (List.mem_ofFn.mpr ⟨i, rfl⟩))
  have hle := hside.trans (Nat.le_mul_of_pos_right _ hpos)
  omega

/-- Moving a box to an origin within 64 bits. -/
theorem translate_to {b : Box d} (wished : RangeBox d) :
    b.translate (fun i => toRange (wished.low i - b.low i)) =
      Box.ofRanges wished.low fun i => wished.low i + b.extent i - 1 := by
  have hlow : ∀ i, toRange (b.low i + toRange (wished.low i - b.low i)) = toRange (wished.low i) :=
    fun i => by rw [toRange_add_toRange]; congr 1; omega
  have hhigh : ∀ i, toRange (b.high i + toRange (wished.low i - b.low i)) =
      toRange (wished.low i + b.extent i - 1) := fun i => by
    rw [toRange_add_toRange, b.extent_cast]
    congr 1
    omega
  simp only [Box.translate, Box.ofRanges, hlow, hhigh]

/-- What is moved to the origin of the wished domain is that domain exactly if it has its extents. -/
theorem translate_eq_wished_iff {b : Box d} (hrange : b.InRange) (wished : RangeBox d) :
    b.translate (fun i => toRange (wished.low i - b.low i)) = .ok wished.toBox ↔
      ∀ i, b.extent i = wished.extent i := by
  have hends : ∀ i, wished.low i + wished.extent i - 1 = wished.high i := fun i => by
    rw [wished.extent_cast]
    omega
  rw [translate_to]
  constructor
  · intro h i
    rw [Box.ofRanges, Box.ofBounds] at h
    split at h
    · have heq := congrFun (congrArg Box.high (Except.ok.inj h)) i
      have hb := b.extent_cast i
      have hw := wished.extent_cast i
      have := hrange i
      have := wished.inRange i
      have := b.low_le_high i
      have := wished.low_le_high i
      dsimp only at heq
      rw [toRange, Int.bmod_def] at heq
      omega
    · cases h
  · intro h
    have hhigh : (fun i => wished.low i + (b.extent i : ℤ) - 1) = wished.high :=
      funext fun i => by rw [h i, hends]
    rw [hhigh]
    exact Box.ofRanges_eq wished.inRange

/-- **`evaluate` gives the wished domain** exactly if the factors make its extents. -/
theorem evaluate_eq_wished_iff {mdd : LoadedDomain d} {wishedTargetDomain : RangeBox d}
    (hfits : Fits mdd wishedTargetDomain) :
    evaluate mdd wishedTargetDomain = .ok ⟨wishedTargetDomain.toBox, [wishedTargetDomain.toBox]⟩ ↔
      ∀ i, Makes (scaleFactor mdd.loadDomain.toBox wishedTargetDomain.toBox i) (mdd.loadDomain.low i)
        (mdd.loadDomain.high i) (wishedTargetDomain.extent i) := by
  obtain ⟨tile, hclosure, hcovers⟩ := exists_closure mdd
  have hsource := hfits.source tile hclosure
  by_cases hcast : ∀ i, Box.ScalesInRange (scaleFactor mdd.loadDomain.toBox wishedTargetDomain.toBox i)
      (mdd.loadDomain.low i) (mdd.loadDomain.high i)
  swap
  · -- a scaled bound leaves 64 bits
    refine iff_of_false (fun h => ?_) fun h => hcast fun i => (h i).1
    rw [evaluate, Box.createScale, if_neg hcast] at h
    cases h
  obtain ⟨scaled, hscaled, hlow, hhigh⟩ : ∃ scaled : Box d,
      mdd.loadDomain.createScale (scaleFactor mdd.loadDomain.toBox wishedTargetDomain.toBox) = .ok scaled ∧
        (∀ i, scaled.low i = Box.scaledLow (scaleFactor mdd.loadDomain.toBox wishedTargetDomain.toBox i)
          (mdd.loadDomain.low i)) ∧
        ∀ i, scaled.high i = Box.scaledHigh (scaleFactor mdd.loadDomain.toBox wishedTargetDomain.toBox i)
          (mdd.loadDomain.low i) (mdd.loadDomain.high i) :=
    ⟨_, if_pos hcast, fun _ => rfl, fun _ => rfl⟩
  have hrange : scaled.InRange := fun i => by
    rw [hlow, hhigh]
    exact hcast i
  have hextents : (∀ i, scaled.extent i = wishedTargetDomain.extent i) ↔
      ∀ i, Makes (scaleFactor mdd.loadDomain.toBox wishedTargetDomain.toBox i) (mdd.loadDomain.low i)
        (mdd.loadDomain.high i) (wishedTargetDomain.extent i) := by
    refine forall_congr' fun i => ?_
    rw [Makes, ← hlow, ← hhigh, ← scaled.extent_cast]
    exact ⟨fun h => ⟨hcast i, by exact_mod_cast h⟩, fun h => by exact_mod_cast h.2⟩
  rw [← hextents, ← translate_eq_wished_iff hrange]
  have heval : evaluate mdd wishedTargetDomain = do
      let targetDomain ← (scaled.translate fun i =>
        toRange (wishedTargetDomain.low i - scaled.low i)).mapError .throws
      newTile mdd.cellSize scaled
      return ⟨targetDomain, [targetDomain]⟩ := by
    simp only [evaluate, hscaled, hclosure, newTile, if_pos hsource,
      Box.createIntersection_of_covers hcovers, bind, Except.bind, Except.mapError]
    split
    · rfl
    · split <;> rfl
  rw [heval]
  constructor
  · intro h
    cases hmoved : scaled.translate fun i => toRange (wishedTargetDomain.low i - scaled.low i) with
    | error e =>
      rw [hmoved] at h
      cases h
    | ok target =>
      simp only [hmoved, bind, Except.bind, Except.mapError] at h
      split at h
      · cases h
      · cases h
        rfl
  · intro h
    have hsize : scaled.extents.prod * mdd.cellSize < 2 ^ 32 := by
      rw [Box.extents, funext ((translate_eq_wished_iff hrange _).mp h)]
      exact hfits.target
    rw [h]
    simp only [newTile, if_pos hsize, bind, Except.bind, Except.mapError]
    rfl

/-- The source and the wished domain of tiles that fit have extents that fit. -/
theorem makes_iff_reached {mdd : LoadedDomain d} {wishedTargetDomain : RangeBox d}
    (hfits : Fits mdd wishedTargetDomain) (i : Fin d) :
    Makes (scaleFactor mdd.loadDomain.toBox wishedTargetDomain.toBox i) (mdd.loadDomain.low i)
        (mdd.loadDomain.high i) (wishedTargetDomain.extent i) ↔
      Reached mdd.loadDomain.toBox wishedTargetDomain.toBox i := by
  obtain ⟨tile, hclosure, hcovers⟩ := exists_closure mdd
  have hload : mdd.loadDomain.extents.prod * mdd.cellSize < 2 ^ 32 := by
    have hcard := Box.card_cells_le_of_covers hcovers
    rw [← Box.prod_extents, ← Box.prod_extents] at hcard
    exact (Nat.mul_le_mul_right _ hcard).trans_lt (hfits.source tile hclosure)
  exact makes_scaleFactor_iff (extent_lt_of_size mdd.cellSize_pos hload i)
    (extent_lt_of_size mdd.cellSize_pos hfits.target i) mdd.loadDomain.inRange

end QtScale

/-- Two million cells that start at `-666667`, to be scaled to three cells: the first factor makes four
of them, the corrected one two. -/
def millions : LoadedDomain 1 where
  cellSize := 1
  tileDomains := [⟨![-666667], ![1333332], by decide⟩]
  loadDomain := ⟨⟨![-666667], ![1333332], by decide⟩, by decide⟩
  cellSize_pos := Nat.one_pos
  covered := fun _ hp => ⟨_, List.mem_singleton_self _, hp⟩

theorem millions_fits : QtScale.Fits millions ⟨⟨![0], ![2], by decide⟩, by decide⟩ where
  source := fun b hb => by
    obtain rfl : ⟨![-666667], ![1333332], by decide⟩ = b := Except.ok.inj hb
    decide
  target := by decide

end Rasdaman
