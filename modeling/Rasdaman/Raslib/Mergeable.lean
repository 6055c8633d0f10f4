import Mathlib
import Rasdaman.Machinery.BoxUnion
import Rasdaman.Raslib.Grid
import Rasdaman.Raslib.MintervalOps
import Rasdaman.Raslib.Range

/-!
# Raslib/Mergeable — boxes that make up a box

`is_mergeable` goes through the dimensions and counts those in which the boxes have different origins; they
must be adjacent in these.  A box translated to where another one ends is mergeable with it exactly if they
have the same extents in the other dimensions, and `closure_with` then adds the extents.

The loop is given what a sum becomes when it is computed: `isMergeable` counts in integers,
`isMergeableRange` in `r_Range`s.
-/

namespace Rasdaman

namespace Box

variable {d n : ℕ} {a b : Box d} {dim : Fin d} {is : List (Fin d)}

/-- The loop of `is_mergeable`, where `r` is what computing a sum makes of it. -/
def mergeableFrom (r : ℤ → ℤ) (a b : Box d) : List (Fin d) → (onesDifferences : ℕ) → Bool
  | [], onesDifferences => onesDifferences == 1
  | i :: is, onesDifferences =>
    if a.low i ≠ b.low i then
      if a.low i = r (b.high i + 1) ∨ b.low i = r (a.high i + 1) then
        mergeableFrom r a b is (onesDifferences + 1)
      else false
    else if a.high i ≠ b.high i then false
    else mergeableFrom r a b is onesDifferences

/-- `is_mergeable`, for boxes of one dimension, in integers without bounds. -/
def isMergeable (a b : Box d) : Bool := mergeableFrom id a b (List.finRange d) 0

/-- `is_mergeable` of the code, where `high() + 1` wraps. -/
def isMergeableRange (a b : Box d) : Bool := mergeableFrom toRange a b (List.finRange d) 0

/-! ## What the loop counts -/

/-- What `is_mergeable` asks of a dimension. -/
def Fits (r : ℤ → ℤ) (a b : Box d) (i : Fin d) : Prop :=
  if a.low i ≠ b.low i then a.low i = r (b.high i + 1) ∨ b.low i = r (a.high i + 1)
  else a.high i = b.high i

variable {r : ℤ → ℤ}

theorem mergeableFrom_iff : mergeableFrom r a b is n = true ↔
    (∀ i ∈ is, Fits r a b i) ∧ n + (is.countP fun i => a.low i ≠ b.low i) = 1 := by
  induction is generalizing n with
  | nil => simp [mergeableFrom]
  | cons i is ih =>
    rw [mergeableFrom, List.forall_mem_cons, List.countP_cons, Fits]
    by_cases hlow : a.low i = b.low i
    · by_cases hhigh : a.high i = b.high i
      · simp [hlow, hhigh, ih]
      · simp [hlow, hhigh]
    · by_cases hnext : a.low i = r (b.high i + 1) ∨ b.low i = r (a.high i + 1)
      · simp [hlow, hnext, ih, Nat.add_assoc, Nat.add_comm 1]
      · simp [hlow, hnext]

/-- A property of dimensions is counted once if it is that of being a certain one. -/
theorem countP_finRange_eq_one {q : Fin d → Bool} :
    (List.finRange d).countP q = 1 ↔ ∃ k, ∀ i, q i = true ↔ i = k := by
  rw [List.countP_eq_length_filter, List.length_eq_one_iff]
  refine exists_congr fun k => ⟨fun h i => ?_, fun h => ?_⟩
  · have hi : i ∈ (List.finRange d).filter q ↔ i ∈ [k] := by rw [h]
    simpa using hi
  · have hperm : ((List.finRange d).filter q).Perm [k] :=
      (List.perm_ext_iff_of_nodup ((List.nodup_finRange d).filter q) (List.nodup_singleton k)).mpr fun i => by
        simp [h i]
    exact List.perm_singleton.mp hperm

/-- **What the loop says**: the boxes differ in one dimension, and one begins there where the other ends. -/
theorem mergeableFrom_finRange_iff : mergeableFrom r a b (List.finRange d) 0 = true ↔
    ∃ k, (a.low k ≠ b.low k ∧ (a.low k = r (b.high k + 1) ∨ b.low k = r (a.high k + 1))) ∧
      ∀ i, i ≠ k → a.low i = b.low i ∧ a.high i = b.high i := by
  rw [mergeableFrom_iff, Nat.zero_add, countP_finRange_eq_one, ← exists_and_left]
  refine exists_congr fun k => ⟨fun ⟨hfits, hk⟩ => ?_, fun ⟨⟨hne, hnext⟩, hsame⟩ => ⟨fun i _ => ?_, fun i => ?_⟩⟩
  · have hne : a.low k ≠ b.low k := by simpa using (hk k).mpr rfl
    have hlow : ∀ i, i ≠ k → a.low i = b.low i := fun i hi => by simpa [hi] using (hk i).not
    refine ⟨⟨hne, ?_⟩, fun i hi => ⟨hlow i hi, ?_⟩⟩
    · simpa [Fits, hne] using hfits k (List.mem_finRange k)
    · simpa [Fits, hlow i hi] using hfits i (List.mem_finRange i)
  · rcases eq_or_ne i k with rfl | hi
    · rw [Fits, if_pos hne]
      exact hnext
    · rw [Fits, if_neg (not_not.mpr (hsame i hi).1)]
      exact (hsame i hi).2
  · rcases eq_or_ne i k with rfl | hi
    · simpa using hne
    · simpa [hi] using (hsame i hi).1

/-- The boxes have the same bounds in all dimensions but one, where one of them begins at the lowest
`r_Range` and the other ends at the highest, so that `high() + 1` wraps around to it. -/
def Wraps (a b : Box d) : Prop :=
  ∃ k, (a.low k ≠ b.low k ∧ (a.low k = -2 ^ 63 ∧ b.high k = 2 ^ 63 - 1 ∨
    b.low k = -2 ^ 63 ∧ a.high k = 2 ^ 63 - 1)) ∧ ∀ i, i ≠ k → a.low i = b.low i ∧ a.high i = b.high i

theorem eq_toRange_add_one {x y : ℤ} (hx : -2 ^ 63 ≤ x ∧ x < 2 ^ 63) (hy : -2 ^ 63 ≤ y ∧ y < 2 ^ 63) :
    x = toRange (y + 1) ↔ x = y + 1 ∨ x = -2 ^ 63 ∧ y = 2 ^ 63 - 1 := by
  rw [toRange, Int.bmod_def]
  omega

/-- **`is_mergeable` of the code** says yes to mergeable boxes and to boxes that wrap. -/
theorem isMergeableRange_iff (ha : a.InRange) (hb : b.InRange) :
    a.isMergeableRange b = true ↔ a.isMergeable b = true ∨ a.Wraps b := by
  rw [isMergeableRange, isMergeable, mergeableFrom_finRange_iff, mergeableFrom_finRange_iff, Wraps,
    ← exists_or]
  refine exists_congr fun k => ?_
  have hak := a.low_le_high k
  have hbk := b.low_le_high k
  have hra := ha k
  have hrb := hb k
  rw [eq_toRange_add_one ⟨hra.1, hak.trans_lt hra.2⟩ ⟨hrb.1.trans hbk, hrb.2⟩,
    eq_toRange_add_one ⟨hrb.1, hbk.trans_lt hrb.2⟩ ⟨hra.1.trans hak, hra.2⟩, id_eq, id_eq]
  tauto

/-! ## Boxes one after the other -/

/-- The second box begins where the first one ends in a dimension, and has its origin in the others. -/
structure Follows (a b : Box d) (dim : Fin d) : Prop where
  low_eq : ∀ i, i ≠ dim → b.low i = a.low i
  low_dim : b.low dim = a.high dim + 1

/-- **A box that follows another one is mergeable with it exactly if they end together** in the other
dimensions. -/
theorem Follows.isMergeable_iff (h : a.Follows b dim) :
    a.isMergeable b = true ↔ ∀ i, i ≠ dim → b.high i = a.high i := by
  have hle := a.low_le_high dim
  have hnext := h.low_dim
  have hdim : a.low dim ≠ b.low dim := by omega
  have hlow : ∀ i, a.low i ≠ b.low i ↔ i = dim := fun i =>
    ⟨fun hne => by_contra fun hi => hne (h.low_eq i hi).symm, fun hi => hi ▸ hdim⟩
  rw [isMergeable, mergeableFrom_finRange_iff]
  constructor
  · rintro ⟨k, ⟨hne, -⟩, hsame⟩ i hi
    obtain rfl := (hlow k).mp hne
    exact (hsame i hi).2.symm
  · exact fun hhigh => ⟨dim, ⟨hdim, .inr hnext⟩, fun i hi => ⟨(h.low_eq i hi).symm, (hhigh i hi).symm⟩⟩

/-- The closure of a box and one that follows it has both one after the other. -/
theorem Follows.closureWith (h : a.Follows b dim) (hhigh : ∀ i, i ≠ dim → b.high i = a.high i) :
    (b.closureWith a).low = a.low ∧
      ∀ i, (b.closureWith a).extent i = if i = dim then a.extent dim + b.extent dim else a.extent i := by
  have hle := a.low_le_high
  have hle' := b.low_le_high
  have hdim := h.low_dim
  refine ⟨funext fun i => ?_, fun i => ?_⟩
  · rcases eq_or_ne i dim with rfl | hi
    · have := hle i
      exact min_eq_left (by omega)
    · exact min_eq_left (h.low_eq i hi).ge
  · rcases eq_or_ne i dim with rfl | hi
    · have := hle i
      have := hle' i
      rw [if_pos rfl]
      simp only [extent, Box.closureWith]
      omega
    · have hlow := h.low_eq i hi
      have hhi := hhigh i hi
      rw [if_neg hi]
      simp only [extent, Box.closureWith]
      omega

end Box

end Rasdaman

/-!
## Mergeable boxes are those that make up a box

`is_mergeable` goes through the dimensions and counts; a box adjoins another one exactly if it answers
yes (`isMergeable_iff_adjoins`).  So the boxes are disjoint and have the cells of a box together, which
is what every loop that merges boxes relies on.  The code computes `high() + 1` as an `r_Range` and is
right about all boxes but those that wrap (`isMergeable_iff_union`).
-/

namespace Rasdaman

open BoxUnion

namespace Minterval

/-- The loop of `is_mergeable` over the intervals of two mintervals. -/
def mergeableFrom : List (Sinterval × Sinterval) → (onesDifferences : ℕ) → Bool
  | [], onesDifferences => onesDifferences == 1
  | (s, t) :: rest, onesDifferences =>
    if s.lowerBound ≠ t.lowerBound then
      if s.lowerBound = toRange (t.upperBound + 1) ∨ t.lowerBound = toRange (s.upperBound + 1) then
        mergeableFrom rest (onesDifferences + 1)
      else false
    else if s.upperBound ≠ t.upperBound then false
    else mergeableFrom rest onesDifferences

/-- `is_mergeable`. -/
def isMergeable (a b : Minterval) : Bool := if a.length ≠ b.length then false else mergeableFrom (a.zip b) 0

end Minterval

namespace Box

variable {d : ℕ} {a b c : Box d} {p : Point d} {k : Fin d}

theorem toMinterval_isMergeable (a b : Box d) :
    a.toMinterval.isMergeable b.toMinterval = a.isMergeableRange b := by
  have hzip : a.toMinterval.zip b.toMinterval = (List.finRange d).map fun i =>
      (Sinterval.fixed (a.low i) (a.high i), Sinterval.fixed (b.low i) (b.high i)) := by
    rw [toMinterval, toMinterval, List.ofFn_eq_map, List.ofFn_eq_map, List.zip_map']
  have hloop : ∀ (is : List (Fin d)) (n : ℕ), Minterval.mergeableFrom (is.map fun i =>
      (Sinterval.fixed (a.low i) (a.high i), Sinterval.fixed (b.low i) (b.high i))) n =
        mergeableFrom toRange a b is n := by
    intro is
    induction is with
    | nil => exact fun n => rfl
    | cons i is ih =>
      intro n
      rw [List.map_cons, Minterval.mergeableFrom, mergeableFrom, ih, ih]
      rfl
  rw [Minterval.isMergeable, if_neg (by simp [toMinterval]), hzip, hloop, isMergeableRange]

/-! ## Boxes that adjoin -/

/-- **`is_mergeable` says whether one of the boxes adjoins the other.** -/
theorem isMergeable_iff_adjoins : a.isMergeable b = true ↔
    ∃ k, Adjoins a.low a.high b.low b.high k ∨ Adjoins b.low b.high a.low a.high k := by
  rw [isMergeable, mergeableFrom_finRange_iff]
  refine exists_congr fun k => ?_
  have hak := a.low_le_high k
  have hbk := b.low_le_high k
  constructor
  · rintro ⟨⟨-, hnext | hnext⟩, hsame⟩
    · exact .inr ⟨fun j hj => (hsame j hj).1.symm, fun j hj => (hsame j hj).2.symm,
        Order.covBy_iff_add_one_eq.mpr hnext.symm⟩
    · exact .inl ⟨fun j hj => (hsame j hj).1, fun j hj => (hsame j hj).2,
        Order.covBy_iff_add_one_eq.mpr hnext.symm⟩
  · intro h
    -- the two cases say the same of the other dimensions
    have hlow : ∀ j, j ≠ k → a.low j = b.low j := fun j hj =>
      h.elim (fun h => h.low_eq j hj) fun h => (h.low_eq j hj).symm
    have hhigh : ∀ j, j ≠ k → a.high j = b.high j := fun j hj =>
      h.elim (fun h => h.high_eq j hj) fun h => (h.high_eq j hj).symm
    have hnext : a.low k = b.high k + 1 ∨ b.low k = a.high k + 1 :=
      h.symm.imp (fun h => (Order.covBy_iff_add_one_eq.mp h.covBy).symm)
        fun h => (Order.covBy_iff_add_one_eq.mp h.covBy).symm
    exact ⟨⟨by omega, hnext⟩, fun i hi => ⟨hlow i hi, hhigh i hi⟩⟩

/-! ## The cells of both -/

theorem coe_cells (b : Box d) : (b.cells : Set (Point d)) = Set.Icc b.low b.high := by
  ext p
  simp only [Finset.mem_coe, mem_cells, mem_def, Set.mem_Icc, Pi.le_def]
  exact forall_and

/-- A box that is not empty has its corners in their order. -/
theorem exists_cells_eq_iff : (∃ c : Box d, c.cells = a.cells ∪ b.cells) ↔
    ∃ l h, Set.Icc a.low a.high ∪ Set.Icc b.low b.high = Set.Icc l h := by
  simp only [← Finset.coe_inj, Finset.coe_union, coe_cells]
  constructor
  · rintro ⟨c, hc⟩
    exact ⟨c.low, c.high, hc.symm⟩
  · rintro ⟨l, h, hunion⟩
    have hmem : a.low ∈ Set.Icc l h := hunion ▸ .inl ⟨le_rfl, a.low_le_high⟩
    exact ⟨⟨l, h, hmem.1.trans hmem.2⟩, hunion.symm⟩

/-- **Boxes are mergeable exactly if they are disjoint and make up a box.** -/
theorem isMergeable_iff_disjoint_union : a.isMergeable b = true ↔
    Disjoint a.cells b.cells ∧ ∃ c : Box d, c.cells = a.cells ∪ b.cells := by
  rw [isMergeable_iff_adjoins, ← union_eq_Icc_iff a.low_le_high b.low_le_high, exists_cells_eq_iff,
    ← Finset.disjoint_coe, coe_cells, coe_cells]

/-- Boxes with the cells of one box have their closure for it. -/
theorem eq_closureWith_of_cells (h : c.cells = a.cells ∪ b.cells) : c = a.closureWith b :=
  (closureWith_eq_of_mem fun p => by rw [← mem_cells, h, Finset.mem_union, mem_cells, mem_cells]).symm

/-- **Two mergeable boxes make up a box.** -/
theorem mem_closureWith_of_isMergeable (h : a.isMergeable b = true) :
    p ∈ a.closureWith b ↔ p ∈ a ∨ p ∈ b := by
  obtain ⟨-, c, hc⟩ := isMergeable_iff_disjoint_union.mp h
  rw [← eq_closureWith_of_cells hc, ← mem_cells, hc, Finset.mem_union, mem_cells, mem_cells]

theorem card_closureWith_of_isMergeable (h : a.isMergeable b = true) :
    (a.closureWith b).cells.card = a.cells.card + b.cells.card := by
  obtain ⟨hdisj, c, hc⟩ := isMergeable_iff_disjoint_union.mp h
  rw [← eq_closureWith_of_cells hc, hc, Finset.card_union_of_disjoint hdisj]

/-- `is_mergeable` says whether boxes are disjoint and make up a box, which is then what `create_closure`
returns and has as many cells as both. -/
structure MergeableIsUnion (a b : Box d) : Prop where
  iff_union : a.toMinterval.isMergeable b.toMinterval = true ↔
    Disjoint a.cells b.cells ∧ ∃ c : Box d, c.cells = a.cells ∪ b.cells
  closure : a.toMinterval.create .closure b.toMinterval = .ok (a.closureWith b).toMinterval
  eq_closure : ∀ c : Box d, c.cells = a.cells ∪ b.cells → c = a.closureWith b
  card : a.toMinterval.isMergeable b.toMinterval = true →
    (a.closureWith b).cells.card = a.cells.card + b.cells.card ∧
    (a.closureWith b).cellCount = (a.cellCount + b.cellCount) % areaModulus

/-- **`is_mergeable` is right about all boxes but those that wrap** and do not adjoin the other way. -/
theorem isMergeable_iff_union (a b : RangeBox d) : MergeableIsUnion a.toBox b.toBox ↔
    (a.Wraps b.toBox → a.isMergeable b.toBox = true) := by
  have hcode := isMergeableRange_iff a.inRange b.inRange
  constructor
  · rintro ⟨hiff, -, -, -⟩ hwraps
    rw [toMinterval_isMergeable, ← isMergeable_iff_disjoint_union] at hiff
    exact hiff.mp (hcode.mpr (.inr hwraps))
  · intro hwraps
    have hsame : a.isMergeableRange b.toBox = true ↔ a.isMergeable b.toBox = true :=
      hcode.trans ⟨fun h => h.elim id hwraps, .inl⟩
    refine ⟨?_, toMinterval_closureWith a.toBox b.toBox, fun c hc => eq_closureWith_of_cells hc, fun h => ?_⟩
    · rw [toMinterval_isMergeable, hsame, isMergeable_iff_disjoint_union]
    · rw [toMinterval_isMergeable, hsame] at h
      refine ⟨card_closureWith_of_isMergeable h, ?_⟩
      rw [cellCount_eq, cellCount_eq, cellCount_eq, card_closureWith_of_isMergeable h, Nat.add_mod]

/-- The cells at the two ends of the `r_Range`s. -/
def rangeEnds : RangeBox 1 × RangeBox 1 :=
  (⟨⟨![-2 ^ 63], ![-2 ^ 63], fun _ => le_rfl⟩, by decide⟩,
    ⟨⟨![2 ^ 63 - 1], ![2 ^ 63 - 1], fun _ => le_rfl⟩, by decide⟩)

/-- **The two end cells are mergeable**, but make up no box. -/
theorem isMergeable_rangeEnds : rangeEnds.1.toMinterval.isMergeable rangeEnds.2.toMinterval = true ∧
    ¬ ∃ c : Box 1, c.cells = rangeEnds.1.cells ∪ rangeEnds.2.cells := by
  refine ⟨by decide +kernel, fun ⟨c, hc⟩ => ?_⟩
  have hno : rangeEnds.1.isMergeable rangeEnds.2.toBox = false := by decide +kernel
  have hdisj : Disjoint rangeEnds.1.cells rangeEnds.2.cells := by
    refine Finset.disjoint_left.mpr fun p h₁ h₂ => ?_
    exact absurd ((mem_cells.mp h₂ 0).1.trans (mem_cells.mp h₁ 0).2) (by decide)
  rw [isMergeable_iff_disjoint_union.mpr ⟨hdisj, c, hc⟩] at hno
  cases hno

end Box

end Rasdaman
