import Mathlib.Data.EReal.Basic
import Rasdaman.Machinery.Allen
import Rasdaman.Raslib.Sinterval

/-!
# Raslib/SintervalTables — the tables of `r_Sinterval` against the bounds

Each of the 52 classes is one of the thirteen relations of two intervals, with open bounds at infinity
(`holds_classify`).  What the operations return is then read off their tables, row by row: the bounds of
the intersection, the union and the closure are the obvious ones.  One row of the difference is wrong.
-/

namespace Rasdaman

namespace Sinterval

/-- `set_high` with the low bound of another interval, fixed or open. -/
def takeHighFromLow (s from' : Sinterval) : Except RError Sinterval :=
  if from'.lowFixed then s.setHigh from'.lowerBound else .ok s.openHigh

/-- `set_low` with the high bound of another interval, fixed or open. -/
def takeLowFromHigh (s from' : Sinterval) : Except RError Sinterval :=
  if from'.highFixed then s.setLow from'.upperBound else .ok s.openLow

/-- `calc_union`. -/
def calcUnion (a b : Sinterval) : Except RError Sinterval :=
  let c := classify a b
  if [2, 7, 9, 12, 22, 23, 27, 28, 35, 36].contains c then do (← opened.takeLow a).takeHigh b
  else if [4, 8, 10, 13, 17, 18, 32, 33, 38, 39].contains c then do (← opened.takeLow b).takeHigh a
  else if [3, 11, 14, 15, 19, 20, 41, 42, 43, 44, 46, 48, 49, 52].contains c then .ok a
  else if [5, 24, 25, 29, 30, 40, 45, 47, 50, 51].contains c then .ok b
  else .error .noInterval

/-- `calc_difference`. -/
def calcDifference (a b : Sinterval) : Except RError Sinterval :=
  let c := classify a b
  if [2, 9, 20, 23, 28, 36, 39, 43, 49].contains c then do (← opened.takeLow a).takeHighFromLow b
  else if [1, 6, 7, 8, 16, 17, 21, 22, 26, 27, 31, 32, 34, 35, 37, 38].contains c then .ok a
  else if [4, 10, 15, 18, 33, 42, 48].contains c then do (← opened.takeLowFromHigh b).takeHigh a
  else .error .noInterval

/-- `operator==`. -/
def equals (a b : Sinterval) : Bool :=
  let returnValue :=
    if a.lowFixed then b.lowFixed && a.lowerBound == b.lowerBound else !b.lowFixed
  if returnValue then
    if a.highFixed then b.highFixed && a.upperBound == b.upperBound else !b.highFixed
  else returnValue

/-! ## Bounds -/

/-- The low bound, an open one at infinity. -/
noncomputable def lowEnd (s : Sinterval) : EReal := if s.lowFixed then ((s.lowerBound : ℝ) : EReal) else ⊥

/-- The high bound, an open one at infinity. -/
noncomputable def highEnd (s : Sinterval) : EReal :=
  if s.highFixed then ((s.upperBound : ℝ) : EReal) else ⊤

/-- An interval as the constructors build it: fixed bounds in their order. -/
def Valid (s : Sinterval) : Prop := s.lowFixed → s.highFixed → s.lowerBound ≤ s.upperBound

instance (s : Sinterval) : Decidable s.Valid := inferInstanceAs (Decidable (_ → _ → _))

variable {a b r s : Sinterval}

theorem lowEnd_of_fixed (h : s.lowFixed = true) : s.lowEnd = ((s.lowerBound : ℝ) : EReal) := if_pos h

theorem lowEnd_of_open (h : ¬s.lowFixed = true) : s.lowEnd = ⊥ := if_neg h

theorem highEnd_of_fixed (h : s.highFixed = true) : s.highEnd = ((s.upperBound : ℝ) : EReal) := if_pos h

theorem highEnd_of_open (h : ¬s.highFixed = true) : s.highEnd = ⊤ := if_neg h

/-- A bound above another low bound is fixed. -/
theorem lowFixed_of_lt {x : EReal} (h : x < s.lowEnd) : s.lowFixed = true := by
  by_contra hopen
  exact not_lt_bot (lowEnd_of_open hopen ▸ h)

/-- A bound below another high bound is fixed. -/
theorem highFixed_of_lt {x : EReal} (h : s.highEnd < x) : s.highFixed = true := by
  by_contra hopen
  exact not_top_lt (highEnd_of_open hopen ▸ h)

theorem valid_iff : s.Valid ↔ s.lowEnd ≤ s.highEnd := by
  obtain ⟨l, h, lf, hf⟩ := s
  cases lf <;> cases hf <;> simp [Valid, lowEnd, highEnd]

/-- Intervals are equal exactly when their bounds are. -/
theorem equals_iff : a.equals b = true ↔ a.lowEnd = b.lowEnd ∧ a.highEnd = b.highEnd := by
  obtain ⟨l, h, lf, hf⟩ := a
  obtain ⟨l', h', lf', hf'⟩ := b
  cases lf <;> cases hf <;> cases lf' <;> cases hf' <;> simp [equals, lowEnd, highEnd]

/-! ## Classes are relations -/

/-- The relation that a class stands for. -/
def orientation : ℕ → Allen
  | 1 | 21 | 26 | 34 => .before
  | 6 | 16 | 31 | 37 => .after
  | 7 | 22 | 27 | 35 => .meets
  | 8 | 17 | 32 | 38 => .metBy
  | 2 | 23 | 28 | 36 => .overlaps
  | 4 | 18 | 33 | 39 => .overlappedBy
  | 3 | 14 | 19 | 46 => .contains
  | 5 | 24 | 29 | 47 => .during
  | 12 | 25 | 40 | 50 => .starts
  | 10 | 15 | 42 | 48 => .startedBy
  | 13 | 30 | 45 | 51 => .finishes
  | 9 | 20 | 43 | 49 => .finishedBy
  | _ => .equals

/-- **A class says how the intervals lie to each other.** -/
theorem holds_classify (a b : Sinterval) :
    (orientation (classify a b)).Holds a.lowEnd a.highEnd b.lowEnd b.highEnd := by
  obtain ⟨l, h, lf, hf⟩ := a
  obtain ⟨l', h', lf', hf'⟩ := b
  cases lf <;> cases hf <;> cases lf' <;> cases hf' <;> simp only [classify, classifyFixed] <;>
    repeat' split
  all_goals simp [orientation, Allen.Holds, lowEnd, highEnd]
  all_goals omega

theorem classify_mem (a b : Sinterval) : classify a b ∈ List.range' 1 52 := by
  obtain ⟨l, h, lf, hf⟩ := a
  obtain ⟨l', h', lf', hf'⟩ := b
  cases lf <;> cases hf <;> cases lf' <;> cases hf' <;> simp only [classify, classifyFixed] <;>
    repeat' split
  all_goals decide

/-! ## Rows -/

/-- What an operation returns has the given bounds. -/
def Spans (x : Except RError Sinterval) (low high : EReal) : Prop :=
  ∃ r, x = .ok r ∧ r.lowEnd = low ∧ r.highEnd = high

theorem spans_self (s : Sinterval) : Spans (.ok s) s.lowEnd s.highEnd := ⟨s, rfl, rfl, rfl⟩

theorem takeLow_opened (a : Sinterval) : ∃ s, opened.takeLow a = .ok s ∧ s.lowEnd = a.lowEnd := by
  rw [takeLow]
  split
  · next h => exact ⟨_, rfl, by simp [lowEnd, h]⟩
  · next h => exact ⟨_, rfl, by simp [lowEnd, openLow, h]⟩

theorem setHigh_ok {high : ℤ} (h : s.lowEnd ≤ ((high : ℝ) : EReal)) :
    Spans (s.setHigh high) s.lowEnd ((high : ℝ) : EReal) := by
  have hnot : ¬(s.lowFixed = true ∧ high < s.lowerBound) := by
    rintro ⟨hfixed, hlt⟩
    rw [lowEnd_of_fixed hfixed, EReal.coe_le_coe_iff, Int.cast_le] at h
    omega
  exact ⟨_, if_neg hnot, rfl, rfl⟩

theorem takeHigh_ok (h : s.lowEnd ≤ b.highEnd) : Spans (s.takeHigh b) s.lowEnd b.highEnd := by
  rw [takeHigh]
  split
  · next hfixed =>
    rw [highEnd_of_fixed hfixed] at h ⊢
    exact setHigh_ok h
  · next hopen =>
    rw [highEnd_of_open hopen]
    exact ⟨_, rfl, rfl, rfl⟩

/-- The low bound of one interval and the high bound of another. -/
theorem spans_takeHigh (h : a.lowEnd ≤ b.highEnd) :
    Spans (do (← opened.takeLow a).takeHigh b) a.lowEnd b.highEnd := by
  obtain ⟨s, hs, hlow⟩ := takeLow_opened a
  rw [hs, ← hlow]
  exact takeHigh_ok (hlow ▸ h)

/-- The low bounds of two intervals. -/
theorem spans_takeHighFromLow (h : a.lowEnd < b.lowEnd) :
    Spans (do (← opened.takeLow a).takeHighFromLow b) a.lowEnd b.lowEnd := by
  obtain ⟨s, hs, hlow⟩ := takeLow_opened a
  have hfixed := lowFixed_of_lt h
  rw [lowEnd_of_fixed hfixed, ← hlow] at h ⊢
  rw [hs]
  simp only [bind, Except.bind, takeHighFromLow, if_pos hfixed]
  exact setHigh_ok h.le

/-- The high bounds of two intervals. -/
theorem spans_takeLowFromHigh (h : b.highEnd < a.highEnd) :
    Spans (do (← opened.takeLowFromHigh b).takeHigh a) b.highEnd a.highEnd := by
  have hfixed := highFixed_of_lt h
  rw [highEnd_of_fixed hfixed] at h ⊢
  rw [takeLowFromHigh, if_pos hfixed]
  exact takeHigh_ok (s := ⟨b.upperBound, 0, true, false⟩) h.le

/-- A row of a table is checked for its classes: they are of intervals that meet, and all lie alike. -/
theorem of_row {cs : List ℕ} {P Q : Allen → Bool} {c : ℕ}
    (hrow : ∀ c ∈ cs, (orientation c).apart = false ∧ P (orientation c) = true ∧ Q (orientation c) = true)
    (hc : cs.contains c = true) :
    (orientation c).apart = false ∧ P (orientation c) = true ∧ Q (orientation c) = true :=
  hrow c (List.contains_iff_mem.mp hc)

/-- The relation of two intervals. -/
def relation (a b : Sinterval) : Allen := orientation (classify a b)

theorem apart_iff (ha : a.Valid) (hb : b.Valid) :
    (relation a b).apart = true ↔ ¬(a.lowEnd ≤ b.highEnd ∧ b.lowEnd ≤ a.highEnd) :=
  (holds_classify a b).apart_iff (valid_iff.mp ha) (valid_iff.mp hb)

theorem meet_of_not_apart (ha : a.Valid) (hb : b.Valid) (h : (relation a b).apart = false) :
    a.lowEnd ≤ b.highEnd ∧ b.lowEnd ≤ a.highEnd := by
  by_contra hnot
  exact Bool.false_ne_true (h.symm.trans ((apart_iff ha hb).mpr hnot))

/-- An operation throws for intervals that lie apart, and returns the given bounds for others. -/
def ThrowsApart (rel : Allen) (x : Except RError Sinterval) (low high : EReal) : Prop :=
  rel.apart = true ∧ x = .error .noInterval ∨ rel.apart = false ∧ Spans x low high

theorem ThrowsApart.error_iff {rel : Allen} {x : Except RError Sinterval} {low high : EReal}
    (h : ThrowsApart rel x low high) : x = .error .noInterval ↔ rel.apart = true := by
  rcases h with ⟨happart, hx⟩ | ⟨happart, r, hx, -⟩
  · exact iff_of_true hx happart
  · rw [hx, happart]
    exact iff_of_false nofun nofun

theorem ThrowsApart.spans {rel : Allen} {x : Except RError Sinterval} {low high : EReal}
    (h : ThrowsApart rel x low high) (hmeet : ¬rel.apart = true) : Spans x low high :=
  (h.resolve_left fun hx => hmeet hx.1).2

/-- **The union** has the smaller low bound and the greater high bound, of intervals that meet. -/
theorem calcUnion_throwsApart (ha : a.Valid) (hb : b.Valid) :
    ThrowsApart (relation a b) (calcUnion a b) (min a.lowEnd b.lowEnd) (max a.highEnd b.highEnd) := by
  have hrel := holds_classify a b
  have hmem := classify_mem a b
  have hla := valid_iff.mp ha
  have hlb := valid_iff.mp hb
  rw [relation, calcUnion]
  generalize classify a b = c at *
  split
  · next hc =>
    obtain ⟨happart, hlow, hhigh⟩ := of_row (P := Allen.lowLe) (Q := Allen.highLe) (by decide) hc
    rw [min_eq_left (hrel.low_le hlow), max_eq_right (hrel.high_le hhigh)]
    exact .inr ⟨happart, spans_takeHigh (hla.trans (hrel.high_le hhigh))⟩
  split
  · next hc =>
    obtain ⟨happart, hlow, hhigh⟩ := of_row (P := Allen.lowGe) (Q := Allen.highGe) (by decide) hc
    rw [min_eq_right (hrel.low_ge hlow), max_eq_left (hrel.high_ge hhigh)]
    exact .inr ⟨happart, spans_takeHigh (hlb.trans (hrel.high_ge hhigh))⟩
  split
  · next hc =>
    obtain ⟨happart, hlow, hhigh⟩ := of_row (P := Allen.lowLe) (Q := Allen.highGe) (by decide) hc
    rw [min_eq_left (hrel.low_le hlow), max_eq_left (hrel.high_ge hhigh)]
    exact .inr ⟨happart, spans_self a⟩
  split
  · next hc =>
    obtain ⟨happart, hlow, hhigh⟩ := of_row (P := Allen.lowGe) (Q := Allen.highLe) (by decide) hc
    rw [min_eq_right (hrel.low_ge hlow), max_eq_right (hrel.high_le hhigh)]
    exact .inr ⟨happart, spans_self b⟩
  · next h1 h2 h3 h4 =>
    have hrest : ∀ c ∈ List.range' 1 52, [2, 7, 9, 12, 22, 23, 27, 28, 35, 36].contains c ∨
        [4, 8, 10, 13, 17, 18, 32, 33, 38, 39].contains c ∨
        [3, 11, 14, 15, 19, 20, 41, 42, 43, 44, 46, 48, 49, 52].contains c ∨
        [5, 24, 25, 29, 30, 40, 45, 47, 50, 51].contains c ∨ (orientation c).apart = true := by decide
    exact .inl ⟨(((hrest c hmem).resolve_left h1).resolve_left h2 |>.resolve_left h3).resolve_left h4, rfl⟩

/-- **The intersection** has the greater low bound and the smaller high bound, of intervals that meet. -/
theorem calcIntersection_throwsApart (ha : a.Valid) (hb : b.Valid) :
    ThrowsApart (relation a b) (calcIntersection a b) (max a.lowEnd b.lowEnd)
      (min a.highEnd b.highEnd) := by
  have hrel := holds_classify a b
  have hmem := classify_mem a b
  have hmeet := meet_of_not_apart ha hb
  rw [relation] at hmeet ⊢
  rw [calcIntersection]
  generalize classify a b = c at *
  split
  · next hc =>
    obtain ⟨happart, hlow, hhigh⟩ := of_row (P := Allen.lowGe) (Q := Allen.highGe) (by decide) hc
    rw [max_eq_left (hrel.low_ge hlow), min_eq_right (hrel.high_ge hhigh)]
    exact .inr ⟨happart, spans_takeHigh (hmeet happart).1⟩
  split
  · next hc =>
    obtain ⟨happart, hlow, hhigh⟩ := of_row (P := Allen.lowLe) (Q := Allen.highLe) (by decide) hc
    rw [max_eq_right (hrel.low_le hlow), min_eq_left (hrel.high_le hhigh)]
    exact .inr ⟨happart, spans_takeHigh (hmeet happart).2⟩
  split
  · next hc =>
    obtain ⟨happart, hlow, hhigh⟩ := of_row (P := Allen.lowGe) (Q := Allen.highLe) (by decide) hc
    rw [max_eq_left (hrel.low_ge hlow), min_eq_left (hrel.high_le hhigh)]
    exact .inr ⟨happart, spans_self a⟩
  split
  · next hc =>
    obtain ⟨happart, hlow, hhigh⟩ := of_row (P := Allen.lowLe) (Q := Allen.highGe) (by decide) hc
    rw [max_eq_right (hrel.low_le hlow), min_eq_right (hrel.high_ge hhigh)]
    exact .inr ⟨happart, spans_self b⟩
  split
  · next hc =>
    have hmeets : ∀ c ∈ [7, 22, 27, 35], orientation c = .meets := by decide
    rw [hmeets c (List.contains_iff_mem.mp hc)] at hrel ⊢
    obtain ⟨hlow, htouch, hhigh⟩ := hrel
    have hfixed := highFixed_of_lt hhigh
    rw [max_eq_right hlow.le, min_eq_left hhigh.le, ← htouch, highEnd_of_fixed hfixed, if_pos hfixed]
    exact .inr ⟨rfl, _, rfl, rfl, rfl⟩
  split
  · next hc =>
    have hmetBy : ∀ c ∈ [8, 17, 32, 38], orientation c = .metBy := by decide
    rw [hmetBy c (List.contains_iff_mem.mp hc)] at hrel ⊢
    obtain ⟨hlow, htouch, hhigh⟩ := hrel
    have hfixed := highFixed_of_lt hhigh
    rw [max_eq_left hlow.le, min_eq_right hhigh.le, htouch, highEnd_of_fixed hfixed, if_pos hfixed]
    exact .inr ⟨rfl, _, rfl, rfl, rfl⟩
  · next h1 h2 h3 h4 h5 h6 =>
    have hrest : ∀ c ∈ List.range' 1 52, [4, 18, 33, 39].contains c ∨ [2, 23, 28, 36].contains c ∨
        [5, 11, 12, 13, 24, 25, 29, 30, 40, 41, 44, 45, 47, 50, 51, 52].contains c ∨
        [3, 9, 10, 14, 15, 19, 20, 42, 43, 46, 48, 49].contains c ∨ [7, 22, 27, 35].contains c ∨
        [8, 17, 32, 38].contains c ∨ (orientation c).apart = true := by decide
    have happart := hrest c hmem
    simp only [h1, h2, h3, h4, h5, h6, false_or, Bool.false_eq_true] at happart
    exact .inl ⟨happart, rfl⟩

theorem min_lowEnd (hl : a.lowFixed = true) (hl' : b.lowFixed = true) :
    min a.lowEnd b.lowEnd = ((min a.lowerBound b.lowerBound : ℤ) : ℝ) := by
  rw [lowEnd_of_fixed hl, lowEnd_of_fixed hl', Int.cast_min, EReal.coe_strictMono.monotone.map_min]

theorem max_highEnd (hh : a.highFixed = true) (hh' : b.highFixed = true) :
    max a.highEnd b.highEnd = ((max a.upperBound b.upperBound : ℤ) : ℝ) := by
  rw [highEnd_of_fixed hh, highEnd_of_fixed hh', Int.cast_max, EReal.coe_strictMono.monotone.map_max]

/-- The high bound of the closure. -/
theorem closureHigh_spans {low : Sinterval} (h : low.lowEnd ≤ max a.highEnd b.highEnd) :
    Spans (if !a.highFixed || !b.highFixed then pure low.openHigh
      else low.setHigh (max a.upperBound b.upperBound)) low.lowEnd (max a.highEnd b.highEnd) := by
  split
  · next hopen =>
    have htop : max a.highEnd b.highEnd = ⊤ := by
      rcases Bool.or_eq_true_iff.mp hopen with hopen | hopen
      · rw [highEnd_of_open (s := a) (by simpa using hopen), top_sup_eq]
      · rw [highEnd_of_open (s := b) (by simpa using hopen), sup_top_eq]
    exact ⟨_, rfl, rfl, htop.symm⟩
  · next hfixed =>
    simp only [Bool.or_eq_true, not_or, Bool.not_eq_true, Bool.not_eq_false'] at hfixed
    rw [max_highEnd hfixed.1 hfixed.2] at h ⊢
    exact setHigh_ok h

/-- **The closure** has the smaller low bound and the greater high bound. -/
theorem calcClosure_spans (ha : a.Valid) :
    Spans (calcClosure a b) (min a.lowEnd b.lowEnd) (max a.highEnd b.highEnd) := by
  have hle : min a.lowEnd b.lowEnd ≤ max a.highEnd b.highEnd :=
    (min_le_left ..).trans ((valid_iff.mp ha).trans (le_max_left ..))
  rw [calcClosure]
  split
  · next hopen =>
    have hbot : opened.openLow.lowEnd = min a.lowEnd b.lowEnd := by
      rcases Bool.or_eq_true_iff.mp hopen with hopen | hopen
      · rw [lowEnd_of_open (s := a) (by simpa using hopen), bot_inf_eq]
        rfl
      · rw [lowEnd_of_open (s := b) (by simpa using hopen), inf_bot_eq]
        rfl
    rw [← hbot] at hle ⊢
    exact closureHigh_spans hle
  · next hfixed =>
    simp only [Bool.or_eq_true, not_or, Bool.not_eq_true, Bool.not_eq_false'] at hfixed
    rw [min_lowEnd hfixed.1 hfixed.2] at hle ⊢
    have hlow : (⟨min a.lowerBound b.lowerBound, 0, true, false⟩ : Sinterval).lowEnd ≤ _ := hle
    exact closureHigh_spans hlow

theorem Spans.of_ok {low high : EReal} (h : Spans (.ok r) low high) :
    r.lowEnd = low ∧ r.highEnd = high := by
  obtain ⟨_, heq, hends⟩ := h
  obtain rfl := Except.ok.inj heq
  exact hends

/-- The difference, but for one class: nothing is cut off, or what lies behind the low bound of the
second interval, or what lies before its high bound. -/
theorem calcDifference_cases (hr : calcDifference a b = .ok r) (hclass : classify a b ≠ 39) :
    relation a b ∈ [Allen.before, .after, .meets, .metBy] ∧ r = a ∨
      relation a b ∈ [Allen.overlaps, .finishedBy] ∧ r.lowEnd = a.lowEnd ∧ r.highEnd = b.lowEnd ∨
      relation a b ∈ [Allen.overlappedBy, .startedBy] ∧ r.lowEnd = b.highEnd ∧ r.highEnd = a.highEnd := by
  have hrel := holds_classify a b
  rw [calcDifference] at hr
  rw [relation]
  generalize classify a b = c at *
  split at hr
  · next hc =>
    have hrow : ∀ c ∈ [2, 9, 20, 23, 28, 36, 39, 43, 49], c ≠ 39 →
        orientation c ∈ [Allen.overlaps, .finishedBy] := by decide
    have hmem := hrow c (List.contains_iff_mem.mp hc) hclass
    have hlt : a.lowEnd < b.lowEnd := by
      rcases List.mem_pair.mp hmem with h | h
      · exact (h ▸ hrel).1
      · exact (h ▸ hrel).1
    exact .inr (.inl ⟨hmem, (hr ▸ spans_takeHighFromLow hlt).of_ok⟩)
  split at hr
  · next hc =>
    have hrow : ∀ c ∈ [1, 6, 7, 8, 16, 17, 21, 22, 26, 27, 31, 32, 34, 35, 37, 38],
        orientation c ∈ [Allen.before, .after, .meets, .metBy] := by decide
    exact .inl ⟨hrow c (List.contains_iff_mem.mp hc), (Except.ok.inj hr).symm⟩
  split at hr
  · next hc =>
    have hrow : ∀ c ∈ [4, 10, 15, 18, 33, 42, 48],
        orientation c ∈ [Allen.overlappedBy, .startedBy] := by decide
    have hmem := hrow c (List.contains_iff_mem.mp hc)
    have hlt : b.highEnd < a.highEnd := by
      rcases List.mem_pair.mp hmem with h | h
      · exact (h ▸ hrel).2.2
      · exact (h ▸ hrel).2
    exact .inr (.inr ⟨hmem, (hr ▸ spans_takeLowFromHigh hlt).of_ok⟩)
  · exact nomatch hr

/-- The one class where the difference goes wrong: the first interval has no high bound, the second no
low bound, and they overlap. -/
theorem classify_eq_iff : classify a b = 39 ↔ a.lowFixed = true ∧ a.highFixed = false ∧
    b.lowFixed = false ∧ b.highFixed = true ∧ a.lowerBound < b.upperBound := by
  obtain ⟨l, h, lf, hf⟩ := a
  obtain ⟨l', h', lf', hf'⟩ := b
  cases lf <;> cases hf <;> cases lf' <;> cases hf' <;> simp only [classify, classifyFixed] <;>
    repeat' split
  all_goals simp
  all_goals omega

end Sinterval

end Rasdaman
