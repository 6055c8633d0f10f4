import Mathlib
import Rasdaman.Raslib.SintervalTables

/-!
# Raslib/SintervalSets — interval operations are set operations

The operations of `r_Sinterval` against the sets of points that intervals stand for: integer points for
the intersection, the union and the closure, real ones for the difference, whose result is closed.
`setOperations_iff`: all of them do what they say, but for the difference of `[al:*]` and `[*:bh]` where
the two overlap.
-/

namespace Rasdaman

namespace Sinterval

variable {a b r s : Sinterval}

/-- The points of an interval. -/
def points (s : Sinterval) (R : Type) [Ring R] [LE R] : Set R :=
  {x | (s.lowFixed → (s.lowerBound : R) ≤ x) ∧ (s.highFixed → x ≤ s.upperBound)}

theorem mem_real {x : ℝ} : x ∈ s.points ℝ ↔ s.lowEnd ≤ x ∧ x ≤ s.highEnd := by
  refine and_congr ?_ ?_
  · rw [lowEnd]
    split
    · next h => simp [h]
    · next h => simp [h]
  · rw [highEnd]
    split
    · next h => simp [h]
    · next h => simp [h]

theorem mem_int {x : ℤ} : x ∈ s.points ℤ ↔ s.lowEnd ≤ ((x : ℝ) : EReal) ∧ ((x : ℝ) : EReal) ≤ s.highEnd := by
  rw [← mem_real]
  simp only [points, Set.mem_ofPred_eq, Int.cast_le, Int.cast_id]

/-- An interval has an integer point. -/
theorem points_nonempty (hs : s.Valid) : (s.points ℤ).Nonempty := by
  obtain ⟨l, h, lf, hf⟩ := s
  cases lf with
  | true => exact ⟨l, fun _ => by simp, fun hf => by simpa using hs rfl hf⟩
  | false => exact ⟨h, nofun, fun _ => by simp⟩

/-! ## Intersection, union and closure -/

theorem disjoint_iff_apart (ha : a.Valid) (hb : b.Valid) :
    Disjoint (a.points ℤ) (b.points ℤ) ↔ (relation a b).apart = true := by
  constructor
  · intro hdisj
    rcases calcIntersection_throwsApart ha hb with ⟨h, -⟩ | ⟨-, r, -, hlow, hhigh⟩
    · exact h
    · rw [apart_iff ha hb]
      intro ⟨hab, hba⟩
      have hvalid : r.Valid := by
        rw [valid_iff, hlow, hhigh, max_le_iff, le_min_iff, le_min_iff]
        exact ⟨⟨valid_iff.mp ha, hab⟩, hba, valid_iff.mp hb⟩
      obtain ⟨x, hx⟩ := points_nonempty hvalid
      rw [mem_int, hlow, hhigh, max_le_iff, le_min_iff] at hx
      exact Set.disjoint_left.mp hdisj (mem_int.mpr ⟨hx.1.1, hx.2.1⟩) (mem_int.mpr ⟨hx.1.2, hx.2.2⟩)
  · intro happart
    refine Set.disjoint_left.mpr fun x hxa hxb => (apart_iff ha hb).mp happart ?_
    rw [mem_int] at hxa hxb
    exact ⟨hxa.1.trans hxb.2, hxb.1.trans hxa.2⟩

theorem points_inter (hlow : r.lowEnd = max a.lowEnd b.lowEnd) (hhigh : r.highEnd = min a.highEnd b.highEnd) :
    r.points ℤ = a.points ℤ ∩ b.points ℤ := by
  ext x
  rw [Set.mem_inter_iff, mem_int, mem_int, mem_int, hlow, hhigh, max_le_iff, le_min_iff]
  tauto

theorem points_union (hab : a.lowEnd ≤ b.highEnd) (hba : b.lowEnd ≤ a.highEnd)
    (hlow : r.lowEnd = min a.lowEnd b.lowEnd) (hhigh : r.highEnd = max a.highEnd b.highEnd) :
    r.points ℤ = a.points ℤ ∪ b.points ℤ := by
  ext x
  rw [Set.mem_union, mem_int, mem_int, mem_int, hlow, hhigh]
  exact (Set.ext_iff.mp (Set.Icc_union_Icc' hba hab) ((x : ℝ) : EReal)).symm

/-- An interval within another one has the narrower bounds. -/
theorem ends_of_subset (ha : a.Valid) (h : a.points ℤ ⊆ s.points ℤ) :
    s.lowEnd ≤ a.lowEnd ∧ a.highEnd ≤ s.highEnd := by
  constructor
  · by_contra hlt
    have hfixed := lowFixed_of_lt (not_le.mp hlt)
    -- a point of the first interval below the second one
    obtain ⟨x, hx, hout⟩ : ∃ x ∈ a.points ℤ, x < s.lowerBound := by
      obtain ⟨l, u, lf, uf⟩ := a
      cases lf with
      | true =>
        rw [lowEnd_of_fixed hfixed, lowEnd_of_fixed rfl, EReal.coe_le_coe_iff, Int.cast_le] at hlt
        exact ⟨l, ⟨fun _ => by simp, fun hf => by simpa using ha rfl hf⟩, not_le.mp hlt⟩
      | false => exact ⟨min (s.lowerBound - 1) u, ⟨nofun, fun _ => by simp⟩, by omega⟩
    have := (h hx).1 hfixed
    rw [Int.cast_id] at this
    omega
  · by_contra hlt
    have hfixed := highFixed_of_lt (not_le.mp hlt)
    obtain ⟨x, hx, hout⟩ : ∃ x ∈ a.points ℤ, s.upperBound < x := by
      obtain ⟨l, u, lf, uf⟩ := a
      cases uf with
      | true =>
        rw [highEnd_of_fixed hfixed, highEnd_of_fixed rfl, EReal.coe_le_coe_iff, Int.cast_le] at hlt
        exact ⟨u, ⟨fun hf => by simpa using ha hf rfl, fun _ => by simp⟩, not_le.mp hlt⟩
      | false => exact ⟨max (s.upperBound + 1) l, ⟨fun _ => by simp, nofun⟩, by omega⟩
    have := (h hx).2 hfixed
    rw [Int.cast_id] at this
    omega

/-- **The closure** is the least interval that contains both. -/
theorem closure_least (ha : a.Valid) (hb : b.Valid) (hlow : r.lowEnd = min a.lowEnd b.lowEnd)
    (hhigh : r.highEnd = max a.highEnd b.highEnd) :
    a.points ℤ ∪ b.points ℤ ⊆ r.points ℤ ∧
      ∀ s : Sinterval, a.points ℤ ∪ b.points ℤ ⊆ s.points ℤ → r.points ℤ ⊆ s.points ℤ := by
  constructor
  · rintro x (hx | hx)
    · rw [mem_int] at hx ⊢
      exact ⟨hlow.trans_le ((min_le_left ..).trans hx.1), hx.2.trans (hhigh ▸ le_max_left ..)⟩
    · rw [mem_int] at hx ⊢
      exact ⟨hlow.trans_le ((min_le_right ..).trans hx.1), hx.2.trans (hhigh ▸ le_max_right ..)⟩
  · intro s hs x hx
    obtain ⟨hla, hha⟩ := ends_of_subset ha (Set.subset_union_left.trans hs)
    obtain ⟨hlb, hhb⟩ := ends_of_subset hb (Set.subset_union_right.trans hs)
    rw [mem_int, hlow, hhigh] at hx
    exact mem_int.mpr ⟨(le_min hla hlb).trans hx.1, hx.2.trans (max_le hha hhb)⟩

/-! ## Difference -/

/-- What lies before a bound, and the bound. -/
theorem closure_below {low : EReal} {x : ℝ} (h : low < x) :
    closure {y : ℝ | low ≤ y ∧ (y : EReal) < x} = {y : ℝ | low ≤ y ∧ (y : EReal) ≤ x} := by
  induction low with
  | bot =>
    simp only [bot_le, true_and, EReal.coe_lt_coe_iff, EReal.coe_le_coe_iff]
    exact closure_Iio x
  | coe l =>
    simp only [EReal.coe_lt_coe_iff, EReal.coe_le_coe_iff]
    exact closure_Ico (EReal.coe_lt_coe_iff.mp h).ne
  | top => exact absurd h not_top_lt

/-- What lies behind a bound, and the bound. -/
theorem closure_above {high : EReal} {x : ℝ} (h : x < high) :
    closure {y : ℝ | (x : EReal) < y ∧ y ≤ high} = {y : ℝ | (x : EReal) ≤ y ∧ y ≤ high} := by
  induction high with
  | bot => exact absurd h not_lt_bot
  | coe u =>
    simp only [EReal.coe_lt_coe_iff, EReal.coe_le_coe_iff]
    exact closure_Ioc (EReal.coe_lt_coe_iff.mp h).ne
  | top =>
    simp only [le_top, and_true, EReal.coe_lt_coe_iff, EReal.coe_le_coe_iff]
    exact closure_Ioi x

/-- Taking away an interval that lies apart leaves everything. -/
theorem diff_of_apart (h : b.highEnd < a.lowEnd ∨ a.highEnd < b.lowEnd) :
    a.points ℝ \ b.points ℝ = a.points ℝ := by
  refine sdiff_eq_left.mpr (Set.disjoint_left.mpr fun x hxa hxb => ?_)
  rw [mem_real] at hxa hxb
  rcases h with h | h
  · exact h.not_ge (hxa.1.trans hxb.2)
  · exact h.not_ge (hxb.1.trans hxa.2)

theorem isClosed_points (s : Sinterval) : IsClosed (s.points ℝ) := by
  have hlow : IsClosed {x : ℝ | s.lowFixed → (s.lowerBound : ℝ) ≤ x} := by
    by_cases h : s.lowFixed = true
    · simp only [h, true_imp_iff]
      exact isClosed_Ici
    · simp [h]
  have hhigh : IsClosed {x : ℝ | s.highFixed → x ≤ (s.upperBound : ℝ)} := by
    by_cases h : s.highFixed = true
    · simp only [h, true_imp_iff]
      exact isClosed_Iic
    · simp [h]
  exact hlow.inter hhigh

/-- Taking away an interval that goes on at least as far leaves what lies before it. -/
theorem closure_diff_before (hle : b.lowEnd ≤ a.highEnd) (hhigh : a.highEnd ≤ b.highEnd)
    (hlow : a.lowEnd < b.lowEnd) :
    closure (a.points ℝ \ b.points ℝ) = {x : ℝ | a.lowEnd ≤ x ∧ (x : EReal) ≤ b.lowEnd} := by
  have hset : a.points ℝ \ b.points ℝ = {x : ℝ | a.lowEnd ≤ x ∧ (x : EReal) < b.lowEnd} := by
    ext x
    rw [Set.mem_sdiff, mem_real, mem_real]
    constructor
    · rintro ⟨⟨hxa, hxa'⟩, hout⟩
      exact ⟨hxa, not_le.mp fun hxb => hout ⟨hxb, hxa'.trans hhigh⟩⟩
    · rintro ⟨hxa, hxb⟩
      exact ⟨⟨hxa, hxb.le.trans hle⟩, fun hin => hxb.not_ge hin.1⟩
  have hfixed := lowFixed_of_lt hlow
  rw [hset]
  rw [lowEnd_of_fixed hfixed] at hlow ⊢
  exact closure_below hlow

/-- Taking away an interval that begins at least as far before leaves what lies behind it. -/
theorem closure_diff_behind (hle : a.lowEnd ≤ b.highEnd) (hlow : b.lowEnd ≤ a.lowEnd)
    (hhigh : b.highEnd < a.highEnd) :
    closure (a.points ℝ \ b.points ℝ) = {x : ℝ | b.highEnd ≤ x ∧ (x : EReal) ≤ a.highEnd} := by
  have hset : a.points ℝ \ b.points ℝ = {x : ℝ | b.highEnd < x ∧ (x : EReal) ≤ a.highEnd} := by
    ext x
    rw [Set.mem_sdiff, mem_real, mem_real]
    constructor
    · rintro ⟨⟨hxa, hxa'⟩, hout⟩
      exact ⟨not_le.mp fun hxb => hout ⟨hlow.trans hxa, hxb⟩, hxa'⟩
    · rintro ⟨hxb, hxa'⟩
      exact ⟨⟨hle.trans hxb.le, hxa'⟩, fun hin => hxb.not_ge hin.2⟩
  have hfixed := highFixed_of_lt hhigh
  rw [hset]
  rw [highEnd_of_fixed hfixed] at hhigh ⊢
  exact closure_above hhigh

/-- **The difference** is the closure of what is left of the first interval. -/
theorem closure_diff (ha : a.Valid) (hb : b.Valid) (hr : calcDifference a b = .ok r)
    (hclass : classify a b ≠ 39) : r.points ℝ = closure (a.points ℝ \ b.points ℝ) := by
  have hrel : (relation a b).Holds a.lowEnd a.highEnd b.lowEnd b.highEnd := holds_classify a b
  have hla := valid_iff.mp ha
  have hlb := valid_iff.mp hb
  have hset : r.points ℝ = {x : ℝ | r.lowEnd ≤ x ∧ (x : EReal) ≤ r.highEnd} := Set.ext fun x => mem_real
  rcases calcDifference_cases hr hclass with ⟨hmem, rfl⟩ | ⟨hmem, hlow, hhigh⟩ | ⟨hmem, hlow, hhigh⟩
  · simp only [List.mem_cons, List.not_mem_nil, or_false] at hmem
    rcases hmem with h | h | h | h
    · rw [h] at hrel
      rw [diff_of_apart (.inr hrel), (isClosed_points r).closure_eq]
    · rw [h] at hrel
      rw [diff_of_apart (.inl hrel), (isClosed_points r).closure_eq]
    · rw [h] at hrel
      rw [closure_diff_before hrel.2.1.ge hrel.2.2.le hrel.1, hset, hrel.2.1]
    · rw [h] at hrel
      rw [closure_diff_behind hrel.2.1.le hrel.1.le hrel.2.2, hset, hrel.2.1]
  · rw [hset, hlow, hhigh]
    rcases List.mem_pair.mp hmem with h | h
    · rw [h] at hrel
      exact (closure_diff_before hrel.2.1.le hrel.2.2.le hrel.1).symm
    · rw [h] at hrel
      exact (closure_diff_before (hlb.trans hrel.2.ge) hrel.2.le hrel.1).symm
  · rw [hset, hlow, hhigh]
    rcases List.mem_pair.mp hmem with h | h
    · rw [h] at hrel
      exact (closure_diff_behind hrel.2.1.le hrel.1.le hrel.2.2).symm
    · rw [h] at hrel
      exact (closure_diff_behind (hrel.1.le.trans hlb) hrel.1.ge hrel.2).symm

/-- In the one class, the difference is the first interval as it is. -/
theorem calcDifference_ray (hclass : classify a b = 39) :
    calcDifference a b = .ok ⟨a.lowerBound, 0, true, false⟩ := by
  obtain ⟨hal, -, hbl, -, -⟩ := classify_eq_iff.mp hclass
  rw [calcDifference, hclass, takeLow, if_pos hal]
  simp [opened, setLow, takeHighFromLow, hbl, openHigh, bind, Except.bind]

/-! ## The operations -/

/-- Two calls return equal intervals, or throw alike. -/
def SameResult : Except RError Sinterval → Except RError Sinterval → Prop
  | .ok r, .ok r' => r.equals r' = true
  | .error e, .error e' => e = e'
  | _, _ => False

/-- **The operations are the set operations.** -/
structure SetOperations (a b : Sinterval) : Prop where
  intersects : a.intersectsWith b = false ↔ Disjoint (a.points ℤ) (b.points ℤ)
  intersection_throws : calcIntersection a b = .error .noInterval ↔ Disjoint (a.points ℤ) (b.points ℤ)
  intersection_returns : ¬Disjoint (a.points ℤ) (b.points ℤ) →
    ∃ r, calcIntersection a b = .ok r ∧ r.points ℤ = a.points ℤ ∩ b.points ℤ
  union_throws : calcUnion a b = .error .noInterval ↔ Disjoint (a.points ℤ) (b.points ℤ)
  union_returns : ¬Disjoint (a.points ℤ) (b.points ℤ) →
    ∃ r, calcUnion a b = .ok r ∧ r.points ℤ = a.points ℤ ∪ b.points ℤ
  closure_returns : ∃ r, calcClosure a b = .ok r ∧ a.points ℤ ∪ b.points ℤ ⊆ r.points ℤ ∧
    ∀ s : Sinterval, a.points ℤ ∪ b.points ℤ ⊆ s.points ℤ → r.points ℤ ⊆ s.points ℤ
  intersection_comm : SameResult (calcIntersection a b) (calcIntersection b a)
  union_comm : SameResult (calcUnion a b) (calcUnion b a)
  closure_comm : SameResult (calcClosure a b) (calcClosure b a)
  difference_returns : ∀ r, calcDifference a b = .ok r →
    r.points ℝ = closure (a.points ℝ \ b.points ℝ)

theorem intersectsWith_eq_false_iff (ha : a.Valid) (hb : b.Valid) :
    a.intersectsWith b = false ↔ Disjoint (a.points ℤ) (b.points ℤ) := by
  have hrow : ∀ c ∈ List.range' 1 52, (!disjointClasses.contains c) = false ↔ (orientation c).apart = true := by
    decide
  rw [disjoint_iff_apart ha hb, intersectsWith, relation]
  exact hrow _ (classify_mem a b)

/-- The relation does not depend on which interval comes first, as to whether they meet. -/
theorem apart_comm (ha : a.Valid) (hb : b.Valid) :
    (relation a b).apart = true ↔ (relation b a).apart = true := by
  rw [apart_iff ha hb, apart_iff hb ha, and_comm]

theorem SameResult.of_spans {x y : Except RError Sinterval} {low high : EReal} (hx : Spans x low high)
    (hy : Spans y low high) : SameResult x y := by
  obtain ⟨r, rfl, hlow, hhigh⟩ := hx
  obtain ⟨r', rfl, hlow', hhigh'⟩ := hy
  exact equals_iff.mpr ⟨hlow.trans hlow'.symm, hhigh.trans hhigh'.symm⟩

/-- Two operations that throw for the same intervals and return the same bounds have the same results. -/
theorem SameResult.of_throwsApart {x y : Except RError Sinterval} {rel rel' : Allen} {low high : EReal}
    (hx : ThrowsApart rel x low high) (hy : ThrowsApart rel' y low high)
    (happart : rel.apart = true ↔ rel'.apart = true) : SameResult x y := by
  by_cases h : rel.apart = true
  · rw [hx.error_iff.mpr h, hy.error_iff.mpr (happart.mp h)]
    rfl
  · exact .of_spans (hx.spans h) (hy.spans (mt happart.mpr h))

theorem calcIntersection_comm (ha : a.Valid) (hb : b.Valid) :
    SameResult (calcIntersection a b) (calcIntersection b a) := by
  have hba := calcIntersection_throwsApart hb ha
  rw [max_comm, min_comm] at hba
  exact .of_throwsApart (calcIntersection_throwsApart ha hb) hba (apart_comm ha hb)

theorem calcUnion_comm (ha : a.Valid) (hb : b.Valid) : SameResult (calcUnion a b) (calcUnion b a) := by
  have hba := calcUnion_throwsApart hb ha
  rw [min_comm, max_comm] at hba
  exact .of_throwsApart (calcUnion_throwsApart ha hb) hba (apart_comm ha hb)

theorem calcClosure_comm (ha : a.Valid) (hb : b.Valid) :
    SameResult (calcClosure a b) (calcClosure b a) := by
  have hba := calcClosure_spans hb (b := a)
  rw [min_comm, max_comm] at hba
  exact .of_spans (calcClosure_spans ha) hba

/-- Where the second interval cuts off the beginning of the first, which has no high bound, the first
interval is not what is left. -/
theorem points_ne_closure_diff (hclass : classify a b = 39)
    (h : ∀ r, calcDifference a b = .ok r → r.points ℝ = closure (a.points ℝ \ b.points ℝ)) : False := by
  obtain ⟨hal, hah, hbl, hbh, hlt⟩ := classify_eq_iff.mp hclass
  have hlow := lowEnd_of_fixed hal
  have hhigh := highEnd_of_fixed hbh
  have hmem : (a.lowerBound : ℝ) ∈ closure (a.points ℝ \ b.points ℝ) := by
    rw [← h _ (calcDifference_ray hclass)]
    exact ⟨fun _ => le_rfl, nofun⟩
  have hcast : ((a.lowerBound : ℝ) : EReal) < ((b.upperBound : ℝ) : EReal) := by
    exact_mod_cast hlt
  rw [closure_diff_behind (by rw [hlow, hhigh]; exact hcast.le)
    (by rw [lowEnd_of_open (s := b) (by simp [hbl])]; exact bot_le)
    (by rw [hhigh, highEnd_of_open (s := a) (by simp [hah])]; exact EReal.coe_lt_top _), hhigh] at hmem
  exact hcast.not_ge hmem.1

/-- **All operations are the set operations** if and only if the intervals are not `[al:*]` and `[*:bh]`
with `al` below `bh`. -/
theorem setOperations_iff (ha : a.Valid) (hb : b.Valid) :
    SetOperations a b ↔ ¬(a.lowFixed = true ∧ a.highFixed = false ∧ b.lowFixed = false ∧
      b.highFixed = true ∧ a.lowerBound < b.upperBound) := by
  rw [← classify_eq_iff]
  have hdisj := disjoint_iff_apart ha hb
  have hinter := calcIntersection_throwsApart ha hb
  have hunion := calcUnion_throwsApart ha hb
  constructor
  · exact fun h hclass => points_ne_closure_diff hclass h.difference_returns
  · intro hclass
    refine ⟨intersectsWith_eq_false_iff ha hb, hinter.error_iff.trans hdisj.symm, fun hmeet => ?_,
      hunion.error_iff.trans hdisj.symm, fun hmeet => ?_, ?_, calcIntersection_comm ha hb,
      calcUnion_comm ha hb, calcClosure_comm ha hb, fun r hr => closure_diff ha hb hr hclass⟩
    · obtain ⟨r, hr, hlow, hhigh⟩ := hinter.spans (mt hdisj.mpr hmeet)
      exact ⟨r, hr, points_inter hlow hhigh⟩
    · have happart := mt hdisj.mpr hmeet
      obtain ⟨hab, hba⟩ := meet_of_not_apart ha hb (by simpa using happart)
      obtain ⟨r, hr, hlow, hhigh⟩ := hunion.spans happart
      exact ⟨r, hr, points_union hab hba hlow hhigh⟩
    · obtain ⟨r, hr, hlow, hhigh⟩ := calcClosure_spans ha (b := b)
      exact ⟨r, hr, closure_least ha hb hlow hhigh⟩

/-- `[2:7]` and `[*:4]`. -/
theorem setOperations_iff_twoToSeven :
    SetOperations ⟨2, 7, true, true⟩ ⟨0, 4, false, true⟩ ↔ ¬(true = true ∧ true = false ∧
      false = false ∧ true = true ∧ (2 : ℤ) < 4) :=
  setOperations_iff (by decide) (by decide)

/-- **The difference of `[0:*]` and `[*:5]`** is `[0:*]`, and not `[5:*]`. -/
theorem not_setOperations_rays : ¬∀ a b : Sinterval, a.Valid → b.Valid → SetOperations a b := fun h =>
  points_ne_closure_diff (by decide)
    (h ⟨0, 0, true, false⟩ ⟨0, 5, false, true⟩ (by decide) (by decide)).difference_returns

end Sinterval

end Rasdaman
