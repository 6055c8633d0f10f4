import Rasdaman.Machinery.ExceptFold
import Rasdaman.Machinery.Heap
import Rasdaman.Raslib.CellPoint
import Rasdaman.Raslib.SintervalTables

/-!
# Raslib/MintervalOps — union, difference, intersection and closure of domains

The four operations come in the same forms: a receiver takes the result of two operands (`...Of`), or of
itself and an operand (`...With`), or the result is a new value (`create...`).
-/

namespace Rasdaman

/-- The operations on intervals. -/
inductive IntervalOp
  | union
  | difference
  | intersection
  | closure
  deriving DecidableEq, Repr

namespace Sinterval

/-- The bounds are of the type `r_Range`. -/
def InRange (s : Sinterval) : Prop :=
  (-2 ^ 63 ≤ s.lowerBound ∧ s.lowerBound < 2 ^ 63) ∧ -2 ^ 63 ≤ s.upperBound ∧ s.upperBound < 2 ^ 63

instance (s : Sinterval) : Decidable s.InRange := inferInstanceAs (Decidable ((_ ∧ _) ∧ _ ∧ _))

/-- `calc_union`, `calc_difference`, `calc_intersection`, `calc_closure`. -/
def calcOp : IntervalOp → Sinterval → Sinterval → Except RError Sinterval
  | .union => calcUnion
  | .difference => calcDifference
  | .intersection => calcIntersection
  | .closure => calcClosure

/-- `set_interval(newLow, newHigh)`. -/
def setInterval (newLow newHigh : ℤ) : Except RError Sinterval :=
  if newLow > newHigh then .error .noInterval else .ok (fixed newLow newHigh)

/-- The tests of `covers` in one dimension. -/
def covers (a b : Sinterval) : Bool :=
  !((a.lowFixed && (!b.lowFixed || a.lowerBound > b.lowerBound)) ||
    (a.highFixed && (!b.highFixed || a.upperBound < b.upperBound)))

/-- The tests of `covers` for a coordinate. -/
def coversValue (a : Sinterval) (x : ℤ) : Bool :=
  !((a.lowFixed && x < a.lowerBound) || (a.highFixed && x > a.upperBound))

end Sinterval

namespace Minterval

/-- The loops of `union_of`, `difference_of`, `intersection_of` and `closure_of` over the intervals of the
receiver and of the operands: the receiver, and whether the loop threw.  An operand may be the receiver, as
each round only reads what it changes itself. -/
def ofLoop (op : IntervalOp) : List (Sinterval × Sinterval × Sinterval) → Minterval × Bool
  | [] => ([], false)
  | (s, x, y) :: ts =>
    match Sinterval.calcOp op x y with
    | .error _ => (s :: ts.map Prod.fst, true)
    | .ok v => (v :: (ofLoop op ts).1, (ofLoop op ts).2)

/-- The intervals of a receiver that gets a dimension. -/
def resize (m : Minterval) (dimensionality : ℕ) : Minterval :=
  if m.length ≠ dimensionality then List.replicate dimensionality .opened else m

/-- `union_of`, `difference_of`, `intersection_of`, `closure_of` of mintervals of one dimension: the
receiver, and whether the method threw. -/
def opOf (op : IntervalOp) (m a b : Minterval) : Minterval × Bool :=
  ofLoop op ((m.resize a.length).zip (a.zip b))

/-- `union_with`, `difference_with`, `intersection_with`, `closure_with` of mintervals of one dimension. -/
def opWith (op : IntervalOp) (m a : Minterval) : Minterval × Bool :=
  Heap.sweepValues (fun s t => Sinterval.calcOp op t s) (m.zip a)

/-- `create_union`, `create_difference`, `create_intersection`, `create_closure` of mintervals of one
dimension. -/
def create (op : IntervalOp) (m a : Minterval) : Except RError Minterval :=
  (m.zip a).mapM fun s => Sinterval.calcOp op s.2 s.1

/-- `create_translation`. -/
def createTranslation (m : Minterval) (t : List ℤ) : Except RError Minterval :=
  if m.length ≠ t.length then .error .dimMismatch
  else if !m.isFixed then .error .intervalOpen
  else (m.zip t).mapM fun s =>
    Sinterval.setInterval (toRange (s.1.lowerBound + s.2)) (toRange (s.1.upperBound + s.2))

/-- `covers(const r_Point&)`. -/
def coversPoint (m : Minterval) (pnt : List ℤ) : Bool :=
  m.length == pnt.length && (m.zip pnt).all fun s => s.1.coversValue s.2

end Minterval

namespace Sinterval

/-! ## Intervals as values -/

/-- An interval as the setters leave it: fixed bounds in their order, and 0 for open ones. -/
structure Sound (s : Sinterval) : Prop where
  valid : s.Valid
  low_open : s.lowFixed = false → s.lowerBound = 0
  high_open : s.highFixed = false → s.upperBound = 0

instance (s : Sinterval) : Decidable s.Sound :=
  decidable_of_iff (s.Valid ∧ (s.lowFixed = false → s.lowerBound = 0) ∧
    (s.highFixed = false → s.upperBound = 0))
    ⟨fun h => ⟨h.1, h.2.1, h.2.2⟩, fun h => ⟨h.valid, h.low_open, h.high_open⟩⟩

variable {a b r s x y : Sinterval} {op : IntervalOp}

theorem sound_opened : opened.Sound := ⟨nofun, fun _ => rfl, fun _ => rfl⟩

/-- Open bounds are 0. -/
def Normal (s : Sinterval) : Prop :=
  (s.lowFixed = false → s.lowerBound = 0) ∧ (s.highFixed = false → s.upperBound = 0)

theorem Sound.normal (h : s.Sound) : s.Normal := ⟨h.low_open, h.high_open⟩

/-- Intervals with the same bounds are the same. -/
theorem Normal.ext (ha : a.Normal) (hb : b.Normal) (hlow : a.lowEnd = b.lowEnd)
    (hhigh : a.highEnd = b.highEnd) : a = b := by
  obtain ⟨l, h, lf, hf⟩ := a
  obtain ⟨l', h', lf', hf'⟩ := b
  obtain ⟨hl, hh⟩ := ha
  obtain ⟨hl', hh'⟩ := hb
  cases lf <;> cases hf <;> cases lf' <;> cases hf' <;> simp_all [lowEnd, highEnd]

theorem normal_of_setHigh {v : ℤ} (hs : s.Normal) (h : s.setHigh v = .ok r) : r.Normal := by
  rw [setHigh] at h
  split at h
  · cases h
  · obtain rfl := Except.ok.inj h
    exact ⟨hs.1, fun hopen => Bool.noConfusion hopen⟩

theorem normal_of_takeHigh (hs : s.Normal) (h : s.takeHigh b = .ok r) : r.Normal := by
  rw [takeHigh] at h
  split at h
  · exact normal_of_setHigh hs h
  · obtain rfl := Except.ok.inj h
    exact ⟨hs.1, fun _ => rfl⟩

theorem normal_of_takeLow_opened (h : opened.takeLow a = .ok r) : r.Normal := by
  rw [takeLow] at h
  split at h
  · obtain rfl := Except.ok.inj h
    exact ⟨fun hopen => Bool.noConfusion hopen, fun _ => rfl⟩
  · obtain rfl := Except.ok.inj h
    exact sound_opened.normal

theorem normal_of_bounds (h : (do (← opened.takeLow a).takeHigh b) = .ok r) : r.Normal := by
  obtain ⟨s, hs, h⟩ := ExceptFold.bind_eq_ok h
  exact normal_of_takeHigh (normal_of_takeLow_opened hs) h

theorem normal_of_calcUnion (ha : a.Normal) (hb : b.Normal) (h : calcUnion a b = .ok r) : r.Normal := by
  rw [calcUnion] at h
  split at h
  · exact normal_of_bounds h
  split at h
  · exact normal_of_bounds h
  split at h
  · exact Except.ok.inj h ▸ ha
  split at h
  · exact Except.ok.inj h ▸ hb
  · cases h

/-- **The union does not depend on the order of the operands.** -/
theorem calcUnion_symm (ha : a.Sound) (hb : b.Sound) : calcUnion a b = calcUnion b a := by
  have hab := calcUnion_throwsApart ha.valid hb.valid
  have hba := calcUnion_throwsApart hb.valid ha.valid
  have hsymm : (relation a b).apart = true ↔ (relation b a).apart = true := by
    rw [apart_iff ha.valid hb.valid, apart_iff hb.valid ha.valid, and_comm]
  rcases hab with ⟨happart, hx⟩ | ⟨happart, r, hx, hlow, hhigh⟩
  · rw [hx, hba.error_iff.mpr (hsymm.mp happart)]
  · obtain ⟨r', hx', hlow', hhigh'⟩ := hba.spans fun h => by
      rw [hsymm.mpr h] at happart
      exact absurd happart (by decide)
    rw [hx, hx']
    refine congrArg _ (Normal.ext (normal_of_calcUnion ha.normal hb.normal hx)
      (normal_of_calcUnion hb.normal ha.normal hx') ?_ ?_)
    · rw [hlow, hlow', min_comm]
    · rw [hhigh, hhigh', max_comm]

/-! ## An interval with itself, and with `[*:*]` -/

theorem classify_self (s : Sinterval) : classify s s ∈ [11, 41, 44, 52] := by
  obtain ⟨l, h, lf, hf⟩ := s
  cases lf <;> cases hf <;> simp [classify, classifyFixed]

theorem classify_opened (s : Sinterval) : classify opened s ∈ [46, 48, 49, 52] := by
  obtain ⟨l, h, lf, hf⟩ := s
  cases lf <;> cases hf <;> simp [classify, opened]

theorem classify_opened_right (s : Sinterval) : classify s opened ∈ [47, 50, 51, 52] := by
  obtain ⟨l, h, lf, hf⟩ := s
  cases lf <;> cases hf <;> simp [classify, opened]

theorem calcUnion_self (s : Sinterval) : calcUnion s s = .ok s := by
  have hmem := classify_self s
  rw [calcUnion]
  generalize classify s s = c at *
  fin_cases hmem <;> rfl

theorem calcIntersection_self (s : Sinterval) : calcIntersection s s = .ok s := by
  have hmem := classify_self s
  rw [calcIntersection]
  generalize classify s s = c at *
  fin_cases hmem <;> rfl

theorem calcDifference_self (s : Sinterval) : calcDifference s s = .error .noInterval := by
  have hmem := classify_self s
  rw [calcDifference]
  generalize classify s s = c at *
  fin_cases hmem <;> rfl

/-- With itself an interval gives itself, if anything. -/
theorem eq_self_of_calcOp (h : calcOp op s s = .ok r) (hop : op ≠ .closure) : r = s := by
  cases op with
  | union => exact (Except.ok.inj ((calcUnion_self s).symm.trans h)).symm
  | difference => exact absurd ((calcDifference_self s).symm.trans h) nofun
  | intersection => exact (Except.ok.inj ((calcIntersection_self s).symm.trans h)).symm
  | closure => exact absurd rfl hop

theorem calcUnion_opened (s : Sinterval) : calcUnion opened s = .ok opened := by
  have hmem := classify_opened s
  rw [calcUnion]
  generalize classify opened s = c at *
  fin_cases hmem <;> rfl

theorem calcUnion_opened_right (hs : s.Sound) : calcUnion s opened = .ok opened := by
  rw [calcUnion_symm hs sound_opened, calcUnion_opened]

theorem calcIntersection_opened (hs : s.Sound) : calcIntersection opened s = .ok s := by
  obtain ⟨l, h, lf, hf⟩ := s
  cases lf <;> cases hf
  · obtain rfl : l = 0 := hs.low_open rfl
    obtain rfl : h = 0 := hs.high_open rfl
    rfl
  · rfl
  · rfl
  · rfl

theorem calcIntersection_opened_right (s : Sinterval) : calcIntersection s opened = .ok s := by
  have hmem := classify_opened_right s
  rw [calcIntersection]
  generalize classify s opened = c at *
  fin_cases hmem <;> rfl

theorem calcDifference_opened_right (s : Sinterval) : calcDifference s opened = .error .noInterval := by
  have hmem := classify_opened_right s
  rw [calcDifference]
  generalize classify s opened = c at *
  fin_cases hmem <;> rfl

/-- What is left of `[*:*]` can be taken away from. -/
theorem calcDifference_rest (hs : s.Sound) (h : calcDifference opened s = .ok r) :
    calcDifference r s = .ok r := by
  obtain ⟨l, u, lf, uf⟩ := s
  cases lf <;> cases uf
  · cases h
  · have hright : calcDifference opened ⟨l, u, false, true⟩ = .ok ⟨u, 0, true, false⟩ := rfl
    obtain rfl := Except.ok.inj (hright.symm.trans h)
    simp [calcDifference, classify]
  · have hleft : calcDifference opened ⟨l, u, true, false⟩ = .ok ⟨0, l, false, true⟩ := rfl
    obtain rfl := Except.ok.inj (hleft.symm.trans h)
    simp [calcDifference, classify]
  · cases h

/-- **A result that is the receiver's own interval** is found with the operands that are the receiver too,
not only with `[*:*]` in their place. -/
theorem calcOp_ok_of_opened {self₁ self₂ : Bool} (hs : s.Sound) (hx : x.Sound) (hy : y.Sound)
    (hx' : self₁ = true → x = s) (hy' : self₂ = true → y = s)
    (h : calcOp op (if self₁ then opened else x) (if self₂ then opened else y) = .ok s) :
    ∃ r, calcOp op x y = .ok r := by
  cases self₁ with
  | false =>
    cases self₂ with
    | false => exact ⟨s, h⟩
    | true =>
      obtain rfl := hy' rfl
      cases op with
      | union =>
        obtain rfl := Except.ok.inj (h.symm.trans (calcUnion_opened_right hx))
        exact ⟨_, h⟩
      | difference => exact absurd ((calcDifference_opened_right x).symm.trans h) nofun
      | intersection =>
        obtain rfl := Except.ok.inj (h.symm.trans (calcIntersection_opened_right x))
        exact ⟨_, calcIntersection_self _⟩
      | closure =>
        obtain ⟨r, hr, -⟩ := calcClosure_spans (b := y) hx.valid
        exact ⟨r, hr⟩
  | true =>
    obtain rfl := hx' rfl
    cases self₂ with
    | false =>
      cases op with
      | union =>
        obtain rfl := Except.ok.inj (h.symm.trans (calcUnion_opened y))
        exact ⟨_, h⟩
      | difference => exact ⟨_, calcDifference_rest hy h⟩
      | intersection =>
        obtain rfl := Except.ok.inj (h.symm.trans (calcIntersection_opened hy))
        exact ⟨_, calcIntersection_self _⟩
      | closure =>
        obtain ⟨r, hr, -⟩ := calcClosure_spans (b := y) hx.valid
        exact ⟨r, hr⟩
    | true =>
      obtain rfl := hy' rfl
      cases op with
      | union => exact ⟨_, calcUnion_self _⟩
      | difference => exact absurd ((calcDifference_opened_right opened).symm.trans h) nofun
      | intersection => exact ⟨_, calcIntersection_self _⟩
      | closure =>
        obtain ⟨r, hr, -⟩ := calcClosure_spans (b := y) hy.valid
        exact ⟨r, hr⟩

/-! ## The closure -/

theorem normal_of_closureHigh {v : ℤ} {isOpen : Bool} (hs : s.Normal)
    (h : (if isOpen then pure s.openHigh else s.setHigh v) = .ok r) : r.Normal := by
  cases isOpen with
  | true =>
    obtain rfl := Except.ok.inj h
    exact ⟨hs.1, fun _ => rfl⟩
  | false => exact normal_of_setHigh hs h

theorem normal_of_calcClosure (h : calcClosure a b = .ok r) : r.Normal := by
  rw [calcClosure] at h
  split at h
  · exact normal_of_closureHigh sound_opened.normal h
  · have hlow : (⟨min a.lowerBound b.lowerBound, 0, true, false⟩ : Sinterval).Normal :=
      ⟨fun hopen => Bool.noConfusion hopen, fun _ => rfl⟩
    exact normal_of_closureHigh hlow h

theorem covers_iff : a.covers b = true ↔ a.lowEnd ≤ b.lowEnd ∧ b.highEnd ≤ a.highEnd := by
  obtain ⟨l, h, lf, hf⟩ := a
  obtain ⟨l', h', lf', hf'⟩ := b
  cases lf <;> cases hf <;> cases lf' <;> cases hf' <;> simp [covers, lowEnd, highEnd]

/-- **The closure changes nothing** exactly when the interval covers the operand. -/
theorem calcClosure_eq_iff (ha : a.Sound) (hb : b.Sound) :
    calcClosure b a = .ok a ↔ a.covers b = true := by
  obtain ⟨r, hr, hlow, hhigh⟩ := calcClosure_spans (b := a) hb.valid
  rw [hr, covers_iff]
  constructor
  · intro h
    obtain rfl := Except.ok.inj h
    rw [hlow, hhigh]
    exact ⟨min_le_left .., le_max_left ..⟩
  · rintro ⟨hle, hge⟩
    refine congrArg _ (Normal.ext (normal_of_calcClosure hr) ha.normal ?_ ?_)
    · rw [hlow, min_eq_right hle]
    · rw [hhigh, max_eq_right hge]

end Sinterval

namespace Minterval

variable {m a : Minterval} {op : IntervalOp}

/-- The closure with an operand is the domain itself if that covers the operand. -/
theorem opWith_closure_iff (hm : ∀ s ∈ m, s.Sound) (ha : ∀ s ∈ a, s.Sound) (hlen : m.length = a.length) :
    opWith .closure m a = (m, false) ↔ m.covers a = true := by
  have hloop : Heap.sweepValues (fun s t => Sinterval.calcOp .closure t s) (m.zip a) =
      ((m.zip a).map Prod.fst, false) ↔ _ := Heap.sweepValues_eq_iff
  rw [List.map_fst_zip hlen.le] at hloop
  rw [opWith, hloop, covers, hlen, beq_self_eq_true, Bool.true_and, List.all_eq_true]
  refine forall₂_congr fun p hp => ?_
  exact Sinterval.calcClosure_eq_iff (hm p.1 (List.of_mem_zip hp).1) (ha p.2 (List.of_mem_zip hp).2)

/-- With itself a domain stays as it is. -/
theorem opWith_self (hop : op ≠ .closure) (m : Minterval) : (opWith op m m).1 = m := by
  have hfst : (m.zip m).map Prod.fst = m := List.map_fst_zip le_rfl
  refine (Heap.sweepValues_fst fun p hp v hv => ?_).trans hfst
  obtain ⟨i, hi, rfl⟩ := List.mem_iff_getElem.mp hp
  rw [List.getElem_zip] at hv ⊢
  exact Sinterval.eq_self_of_calcOp hv hop

end Minterval

end Rasdaman
