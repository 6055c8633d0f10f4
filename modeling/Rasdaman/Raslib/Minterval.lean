import Mathlib.Data.Pi.Interval
import Mathlib.Data.Int.Interval
import Mathlib.Order.PiLex
import Mathlib.Order.Fin.Tuple
import Mathlib.Data.List.OfFn
import Mathlib.Algebra.BigOperators.ModEq
import Mathlib.Algebra.BigOperators.Fin
import Rasdaman.Raslib.Sinterval

/-!
# Raslib/Minterval — multidimensional intervals, points and boxes

`Minterval` is `r_Minterval`, a list of `Sinterval`s, with the operations the index code calls.
`Box d` is an `r_Minterval` of dimension `d` all of whose bounds are fixed: the invariant
`low ≤ high`, which every `r_Sinterval` constructor checks, is a field.  The theorems named
`toMinterval_…` say that the `Box` operations are the `Minterval` ones, read off at fixed bounds.

`cellCount` is the source's `cell_count`: it multiplies in `r_Area`, so it is the number of cells
modulo `2^64`.
-/

namespace Rasdaman

/-- `r_Minterval`. -/
abbrev Minterval := List Sinterval

namespace Minterval

/-- `intersects_with`: no pair of intervals may be disjoint; different dimensions never meet. -/
def intersectsWith (a b : Minterval) : Bool :=
  a.length == b.length && (a.zip b).all fun s => s.1.intersectsWith s.2

/-- `closure_with`, for two mintervals of one dimension. -/
def closureWith (a b : Minterval) : Except RError Minterval :=
  (a.zip b).mapM fun s => Sinterval.calcClosure s.2 s.1

/-- `covers(const r_Minterval&)`. -/
def covers (a b : Minterval) : Bool :=
  a.length == b.length && (a.zip b).all fun s =>
    !((s.1.lowFixed && (!s.2.lowFixed || s.1.lowerBound > s.2.lowerBound)) ||
      (s.1.highFixed && (!s.2.highFixed || s.1.upperBound < s.2.upperBound)))

end Minterval

/-- `r_Point` of dimension `d`. -/
abbrev Point (d : ℕ) := Fin d → ℤ

/-- The modulus of `r_Area`, an unsigned 64-bit integer. -/
def areaModulus : ℕ := 2 ^ 64

namespace Point

variable {d : ℕ}

/-- The loop of `r_Point::compare_with` over the coordinates still to compare. -/
def compareFrom (p q : Point d) : List (Fin d) → ℤ
  | [] => 0
  | i :: is => if p i > q i then 1 else if p i < q i then -1 else compareFrom p q is

/-- `r_Point::compare_with` for points of one dimension. -/
def compareWith (p q : Point d) : ℤ := compareFrom p q (List.finRange d)

theorem compareFrom_map_succ {d : ℕ} (p q : Point (d + 1)) (l : List (Fin d)) :
    compareFrom p q (l.map Fin.succ) = compareFrom (Fin.tail p) (Fin.tail q) l := by
  induction l with
  | nil => rfl
  | cons i is ih =>
    rw [List.map_cons, compareFrom, compareFrom, ih]
    rfl

/-- **`compare_with` is the lexicographic order**, the first coordinate most significant. -/
theorem compareWith_neg_iff {d : ℕ} (p q : Point d) : compareWith p q < 0 ↔ toLex p < toLex q := by
  induction d with
  | zero =>
    obtain rfl : p = q := Subsingleton.elim p q
    exact iff_of_false (by simp [compareWith, compareFrom]) (lt_irrefl (toLex p))
  | succ d ih =>
    have hlex : toLex p < toLex q ↔
        p 0 < q 0 ∨ p 0 = q 0 ∧ toLex (Fin.tail p) < toLex (Fin.tail q) := by
      conv_lhs => rw [← Fin.cons_self_tail p, ← Fin.cons_self_tail q]
      exact Fin.pi_lex_lt_cons_cons _
    rw [hlex, ← ih, compareWith, List.finRange_succ, compareFrom, compareFrom_map_succ]
    rcases lt_trichotomy (p 0) (q 0) with h | h | h
    · simp [h, h.not_gt]
    · simp [h, compareWith]
    · simp [h, h.not_gt, h.ne']

theorem compareWith_eq_zero_iff {d : ℕ} (p q : Point d) : compareWith p q = 0 ↔ p = q := by
  induction d with
  | zero => simp [compareWith, compareFrom, Subsingleton.elim p q]
  | succ d ih =>
    have hcons : p = q ↔ p 0 = q 0 ∧ Fin.tail p = Fin.tail q := by
      conv_lhs => rw [← Fin.cons_self_tail p, ← Fin.cons_self_tail q]
      exact Fin.cons_inj
    rw [hcons, ← ih, compareWith, List.finRange_succ, compareFrom, compareFrom_map_succ]
    rcases lt_trichotomy (p 0) (q 0) with h | h | h
    · simp [h, h.not_gt, h.ne]
    · simp [h, compareWith]
    · simp [h, h.ne']

end Point

/-- An `r_Minterval` of dimension `d` with all bounds fixed. -/
structure Box (d : ℕ) where
  low : Point d
  high : Point d
  low_le_high : ∀ i, low i ≤ high i
  deriving DecidableEq

namespace Box

variable {d : ℕ} {a b c : Box d} {p : Point d}

instance : Membership (Point d) (Box d) := ⟨fun b p => ∀ i, b.low i ≤ p i ∧ p i ≤ b.high i⟩

instance (p : Point d) (b : Box d) : Decidable (p ∈ b) :=
  inferInstanceAs (Decidable (∀ i, b.low i ≤ p i ∧ p i ≤ b.high i))

theorem mem_def : p ∈ b ↔ ∀ i, b.low i ≤ p i ∧ p i ≤ b.high i := Iff.rfl

theorem low_mem (b : Box d) : b.low ∈ b := fun i => ⟨le_rfl, b.low_le_high i⟩

theorem high_mem (b : Box d) : b.high ∈ b := fun i => ⟨b.low_le_high i, le_rfl⟩

@[ext] theorem ext_corners (hl : a.low = b.low) (hh : a.high = b.high) : a = b := by
  cases a; cases b; simp_all

/-- The minterval a box is. -/
def toMinterval (b : Box d) : Minterval := List.ofFn fun i => Sinterval.fixed (b.low i) (b.high i)

/-- `intersects_with` on boxes of one dimension. -/
def Intersects (a b : Box d) : Prop := ∀ i, a.low i ≤ b.high i ∧ b.low i ≤ a.high i

instance (a b : Box d) : Decidable (a.Intersects b) :=
  inferInstanceAs (Decidable (∀ i, a.low i ≤ b.high i ∧ b.low i ≤ a.high i))

theorem Intersects.symm (h : a.Intersects b) : b.Intersects a := fun i => ⟨(h i).2, (h i).1⟩

theorem Intersects.of_mem (ha : p ∈ a) (hb : p ∈ b) : a.Intersects b :=
  fun i => ⟨(ha i).1.trans (hb i).2, (hb i).1.trans (ha i).2⟩

/-- The intersection of two boxes that intersect. -/
def inter (a b : Box d) (h : a.Intersects b) : Box d where
  low := fun i => max (a.low i) (b.low i)
  high := fun i => min (a.high i) (b.high i)
  low_le_high := fun i => by
    have := a.low_le_high i; have := b.low_le_high i; have := h i; omega

@[simp] theorem mem_inter {h : a.Intersects b} : p ∈ a.inter b h ↔ p ∈ a ∧ p ∈ b := by
  simp only [mem_def, inter, max_le_iff, le_min_iff]
  exact ⟨fun h => ⟨fun i => ⟨(h i).1.1, (h i).2.1⟩, fun i => ⟨(h i).1.2, (h i).2.2⟩⟩,
    fun h i => ⟨⟨(h.1 i).1, (h.2 i).1⟩, ⟨(h.1 i).2, (h.2 i).2⟩⟩⟩

/-- **Two boxes intersect exactly when they share a cell.** -/
theorem intersects_iff : a.Intersects b ↔ ∃ p, p ∈ a ∧ p ∈ b :=
  ⟨fun h => ⟨_, mem_inter.mp (low_mem (a.inter b h))⟩, fun ⟨_, ha, hb⟩ => .of_mem ha hb⟩

/-- `covers(const r_Minterval&)` on boxes. -/
def Covers (a b : Box d) : Prop := ∀ i, a.low i ≤ b.low i ∧ b.high i ≤ a.high i

instance (a b : Box d) : Decidable (a.Covers b) :=
  inferInstanceAs (Decidable (∀ i, a.low i ≤ b.low i ∧ b.high i ≤ a.high i))

theorem covers_iff : a.Covers b ↔ ∀ p ∈ b, p ∈ a :=
  ⟨fun h _ hp i => ⟨(h i).1.trans (hp i).1, (hp i).2.trans (h i).2⟩,
    fun h i => ⟨(h _ b.low_mem i).1, (h _ b.high_mem i).2⟩⟩

theorem Covers.refl (a : Box d) : a.Covers a := fun _ => ⟨le_rfl, le_rfl⟩

theorem Covers.trans (h : a.Covers b) (h' : b.Covers c) : a.Covers c :=
  fun i => ⟨(h i).1.trans (h' i).1, (h' i).2.trans (h i).2⟩

/-- Boxes with the same cells are the same box. -/
theorem eq_of_mem_iff (h : ∀ p, p ∈ a ↔ p ∈ b) : a = b := by
  have hab := covers_iff.mpr fun p hp => (h p).mpr hp
  have hba := covers_iff.mpr fun p hp => (h p).mp hp
  exact ext_corners (funext fun i => le_antisymm (hab i).1 (hba i).1)
    (funext fun i => le_antisymm (hba i).2 (hab i).2)

/-- `create_intersection`, which throws when the boxes are disjoint. -/
def createIntersection (a b : Box d) : Except RError (Box d) :=
  if h : a.Intersects b then .ok (a.inter b h) else .error .noInterval

/-- `closure_with`: the smallest box that covers both. -/
def closureWith (a b : Box d) : Box d where
  low := fun i => min (b.low i) (a.low i)
  high := fun i => max (b.high i) (a.high i)
  low_le_high := fun i => by
    have := a.low_le_high i; have := b.low_le_high i; omega

theorem closureWith_covers_left (a b : Box d) : (a.closureWith b).Covers a :=
  fun _ => ⟨min_le_right _ _, le_max_right _ _⟩

theorem closureWith_covers_right (a b : Box d) : (a.closureWith b).Covers b :=
  fun _ => ⟨min_le_left _ _, le_max_left _ _⟩

/-- The closure with a covered box changes nothing. -/
theorem closureWith_eq_left (h : a.Covers b) : a.closureWith b = a :=
  ext_corners (funext fun i => min_eq_right (h i).1) (funext fun i => max_eq_right (h i).2)

/-- `box[axis].set_high(v)`. -/
def setHigh (b : Box d) (axis : Fin d) (v : ℤ) : Except RError (Box d) :=
  if h : b.low axis ≤ v then
    .ok { b with
      high := Function.update b.high axis v
      low_le_high := fun i => by
        rcases eq_or_ne i axis with rfl | hi
        · simpa using h
        · simpa [hi] using b.low_le_high i }
  else .error .noInterval

/-- `box[axis].set_low(v)`. -/
def setLow (b : Box d) (axis : Fin d) (v : ℤ) : Except RError (Box d) :=
  if h : v ≤ b.high axis then
    .ok { b with
      low := Function.update b.low axis v
      low_le_high := fun i => by
        rcases eq_or_ne i axis with rfl | hi
        · simpa using h
        · simpa [hi] using b.low_le_high i }
  else .error .noInterval

/-- The cells of a box cut below `v` along an axis: those of the box with coordinate at most `v`. -/
theorem mem_of_setHigh {axis : Fin d} {v : ℤ} (h : b.setHigh axis v = .ok c) :
    v ≤ b.high axis → (p ∈ c ↔ p ∈ b ∧ p axis ≤ v) := by
  unfold setHigh at h
  split at h <;> cases h
  intro hv
  simp only [mem_def, Function.update_apply]
  refine ⟨fun hp => ⟨fun i => ⟨(hp i).1, ?_⟩, by simpa using (hp axis).2⟩, fun hp i => ?_⟩
  · rcases eq_or_ne i axis with rfl | hi
    · exact (by simpa using (hp i).2 : p i ≤ v).trans hv
    · simpa [hi] using (hp i).2
  · refine ⟨(hp.1 i).1, ?_⟩
    split
    · next hi => exact hi ▸ hp.2
    · exact (hp.1 i).2

/-- The cells of a box cut above `v` along an axis: those of the box with coordinate at least `v`. -/
theorem mem_of_setLow {axis : Fin d} {v : ℤ} (h : b.setLow axis v = .ok c) :
    b.low axis ≤ v → (p ∈ c ↔ p ∈ b ∧ v ≤ p axis) := by
  unfold setLow at h
  split at h <;> cases h
  intro hv
  simp only [mem_def, Function.update_apply]
  refine ⟨fun hp => ⟨fun i => ⟨?_, (hp i).2⟩, by simpa using (hp axis).1⟩, fun hp i => ?_⟩
  · rcases eq_or_ne i axis with rfl | hi
    · exact hv.trans (by simpa using (hp i).1 : v ≤ p i)
    · simpa [hi] using (hp i).1
  · refine ⟨?_, (hp.1 i).2⟩
    split
    · next hi => exact hi ▸ hp.2
    · exact (hp.1 i).1

theorem low_le_of_setHigh {axis : Fin d} {v : ℤ} (h : b.setHigh axis v = .ok c) :
    b.low axis ≤ v := by
  unfold setHigh at h
  split at h
  · assumption
  · cases h

theorem le_high_of_setLow {axis : Fin d} {v : ℤ} (h : b.setLow axis v = .ok c) :
    v ≤ b.high axis := by
  unfold setLow at h
  split at h
  · assumption
  · cases h

/-! ## Cells -/

/-- The cells of a box. -/
def cells (b : Box d) : Finset (Point d) :=
  letI : PartialOrder ℤ := Int.instLinearOrder.toPartialOrder
  Finset.Icc b.low b.high

@[simp] theorem mem_cells : p ∈ b.cells ↔ p ∈ b := by
  simp only [cells, Finset.mem_Icc, mem_def, Pi.le_def]
  exact forall_and.symm

theorem cells_nonempty (b : Box d) : b.cells.Nonempty := ⟨b.low, mem_cells.mpr b.low_mem⟩

theorem card_cells_pos (b : Box d) : 0 < b.cells.card := b.cells_nonempty.card_pos

theorem card_cells (b : Box d) : b.cells.card = ∏ i, (b.high i + 1 - b.low i).toNat := by
  simp [cells, Pi.card_Icc]

theorem cells_inter {h : a.Intersects b} : (a.inter b h).cells = a.cells ∩ b.cells := by
  ext p; simp

theorem card_cells_le_of_covers (h : a.Covers b) : b.cells.card ≤ a.cells.card :=
  Finset.card_le_card fun p hp => mem_cells.mpr (covers_iff.mp h p (mem_cells.mp hp))

/-- `cell_count`: the extents are multiplied in `r_Area`. -/
def cellCount (b : Box d) : ℕ :=
  (List.finRange d).foldl
    (fun count i => count * ((b.high i - b.low i + 1) % areaModulus).toNat % areaModulus) 1

private theorem foldl_mul_mod_modEq {ι : Type*} (m : ℕ) (g : ι → ℕ) (l : List ι) (k : ℕ) :
    l.foldl (fun count i => count * g i % m) k ≡ k * (l.map g).prod [MOD m] := by
  induction l generalizing k with
  | nil => simpa using Nat.ModEq.refl k
  | cons i is ih =>
    rw [List.foldl_cons, List.map_cons, List.prod_cons, ← mul_assoc]
    exact (ih _).trans ((Nat.mod_modEq _ _).mul_right _)

private theorem foldl_mul_mod_lt {ι : Type*} {m : ℕ} (g : ι → ℕ) (l : List ι) {k : ℕ} (hk : k < m) :
    l.foldl (fun count i => count * g i % m) k < m := by
  induction l generalizing k with
  | nil => exact hk
  | cons i is ih => exact ih (Nat.mod_lt _ (Nat.zero_lt_of_lt hk))

/-- **`cell_count` is the number of cells modulo `2^64`.** -/
theorem cellCount_eq (b : Box d) : b.cellCount = b.cells.card % areaModulus := by
  set g : Fin d → ℕ := fun i => ((b.high i - b.low i + 1) % areaModulus).toNat with hg
  have hext : ∀ i, g i ≡ (b.high i + 1 - b.low i).toNat [MOD areaModulus] := by
    intro i
    have hpos : 0 ≤ b.high i - b.low i + 1 := by have := b.low_le_high i; omega
    have hsub : b.high i + 1 - b.low i = b.high i - b.low i + 1 := by omega
    rw [hg, hsub]
    obtain ⟨n, hn⟩ := Int.eq_ofNat_of_zero_le hpos
    simp only [hn]
    exact Nat.mod_modEq n areaModulus
  have hprod : ((List.finRange d).map g).prod ≡ b.cells.card [MOD areaModulus] := by
    rw [card_cells, ← List.ofFn_eq_map, List.prod_ofFn]
    exact Nat.ModEq.prod fun i _ => hext i
  have hmod := (foldl_mul_mod_modEq areaModulus g (List.finRange d) 1).trans
    ((Nat.ModEq.refl 1).mul hprod)
  rw [one_mul] at hmod
  exact (Nat.mod_eq_of_lt (foldl_mul_mod_lt g _ (by decide))).symm.trans hmod

theorem cellCount_eq_card (h : b.cells.card < areaModulus) : b.cellCount = b.cells.card := by
  rw [cellCount_eq, Nat.mod_eq_of_lt h]

/-! ## The box operations are the minterval operations -/

private theorem mapM_ofFn_ok {α β : Type} {n : ℕ} {f : α → Except RError β} {g : Fin n → α}
    {h : Fin n → β} (hf : ∀ i, f (g i) = .ok (h i)) :
    (List.ofFn g).mapM f = .ok (List.ofFn h) := by
  induction n with
  | zero => rfl
  | succ n ih =>
    rw [List.ofFn_succ, List.ofFn_succ, List.mapM_cons, hf 0,
      ih (g := fun i => g i.succ) (h := fun i => h i.succ) fun i => hf i.succ]
    rfl

private theorem zip_ofFn {α β : Type} {n : ℕ} (f : Fin n → α) (g : Fin n → β) :
    (List.ofFn f).zip (List.ofFn g) = List.ofFn fun i => (f i, g i) :=
  List.ext_getElem (by simp) fun i _ _ => by simp

theorem toMinterval_closureWith (a b : Box d) :
    a.toMinterval.closureWith b.toMinterval = .ok (a.closureWith b).toMinterval := by
  rw [Minterval.closureWith, toMinterval, toMinterval, zip_ofFn]
  exact mapM_ofFn_ok fun i => Sinterval.calcClosure_fixed (b.low_le_high i) (a.low_le_high i)

end Box

end Rasdaman
