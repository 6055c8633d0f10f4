import Rasdaman.Raslib.MintervalOps

/-!
# Rasj/RasSInterval — the intervals of the Java client

`RasSInterval` is a port of `r_Sinterval` with the same fields and setters.  Intervals are objects here: a
calculation returns one of its arguments or a new object, whose fields are then copied.  `calc_value`: the
tables are those of the original.
-/

namespace Rasdaman

namespace RasSInterval

open Sinterval (opened)

/-- `classify`. -/
def classify (a b : Sinterval) : ℕ :=
  if a.lowFixed && a.highFixed && b.lowFixed && b.highFixed then
    if a.lowerBound < b.lowerBound then
      if a.upperBound < b.upperBound then
        if a.upperBound < b.lowerBound then 1
        else if a.upperBound = b.lowerBound then 7
        else 2
      else if a.upperBound = b.upperBound then 9
      else 3
    else if a.lowerBound = b.lowerBound then
      if a.upperBound < b.upperBound then 12
      else if a.upperBound = b.upperBound then 11
      else 10
    else if a.upperBound < b.upperBound then 5
    else if a.upperBound = b.upperBound then 13
    else if a.lowerBound < b.upperBound then 4
    else if a.lowerBound = b.upperBound then 8
    else 6
  else if a.lowFixed && !a.highFixed && b.lowFixed && b.highFixed then
    if a.lowerBound < b.lowerBound then 14
    else if a.lowerBound = b.lowerBound then 15
    else if b.upperBound < a.lowerBound then 16
    else if b.upperBound = a.lowerBound then 17
    else 18
  else if !a.lowFixed && a.highFixed && b.lowFixed && b.highFixed then
    if a.upperBound > b.upperBound then 19
    else if a.upperBound = b.upperBound then 20
    else if a.upperBound < b.lowerBound then 21
    else if a.upperBound = b.lowerBound then 22
    else 23
  else if a.lowFixed && a.highFixed && b.lowFixed && !b.highFixed then
    if b.lowerBound < a.lowerBound then 24
    else if b.lowerBound = a.lowerBound then 25
    else if a.upperBound < b.lowerBound then 26
    else if a.upperBound = b.lowerBound then 27
    else 28
  else if a.lowFixed && a.highFixed && !b.lowFixed && b.highFixed then
    if b.upperBound > a.upperBound then 29
    else if b.upperBound = a.upperBound then 30
    else if b.upperBound < a.lowerBound then 31
    else if b.upperBound = a.lowerBound then 32
    else 33
  else if !a.lowFixed && a.highFixed && b.lowFixed && !b.highFixed then
    if a.upperBound < b.lowerBound then 34
    else if a.upperBound = b.lowerBound then 35
    else 36
  else if a.lowFixed && !a.highFixed && !b.lowFixed && b.highFixed then
    if b.upperBound < a.lowerBound then 37
    else if b.upperBound = a.lowerBound then 38
    else 39
  else if !a.lowFixed && a.highFixed && !b.lowFixed && b.highFixed then
    if a.upperBound < b.upperBound then 40
    else if a.upperBound = b.upperBound then 41
    else 42
  else if a.lowFixed && !a.highFixed && b.lowFixed && !b.highFixed then
    if a.lowerBound < b.lowerBound then 43
    else if a.lowerBound = b.lowerBound then 44
    else 45
  else if !a.lowFixed && !a.highFixed && b.lowFixed && b.highFixed then 46
  else if a.lowFixed && a.highFixed && !b.lowFixed && !b.highFixed then 47
  else if !a.lowFixed && !a.highFixed && !b.lowFixed && b.highFixed then 48
  else if !a.lowFixed && !a.highFixed && b.lowFixed && !b.highFixed then 49
  else if !a.lowFixed && a.highFixed && !b.lowFixed && !b.highFixed then 50
  else if a.lowFixed && !a.highFixed && !b.lowFixed && !b.highFixed then 51
  else 52

/-- The object that a calculation returns: one of its arguments, or a new one. -/
inductive Calculated
  | first
  | second
  | made (result : Sinterval)

/-- The fields of the object. -/
def Calculated.value (a b : Sinterval) : Calculated → Sinterval
  | first => a
  | second => b
  | made result => result

/-- `calcUnion`. -/
def calcUnion (a b : Sinterval) : Except RError Calculated :=
  let c := classify a b
  if [2, 7, 9, 12, 22, 23, 27, 28, 35, 36].contains c then
    (do (← opened.takeLow a).takeHigh b).map .made
  else if [4, 8, 10, 13, 17, 18, 32, 33, 38, 39].contains c then
    (do (← opened.takeLow b).takeHigh a).map .made
  else if [3, 11, 14, 15, 19, 20, 41, 42, 43, 44, 46, 48, 49, 52].contains c then .ok .first
  else if [5, 24, 25, 29, 30, 40, 45, 47, 50, 51].contains c then .ok .second
  else .error .noInterval

/-- `calcDifference`. -/
def calcDifference (a b : Sinterval) : Except RError Calculated :=
  let c := classify a b
  if [2, 9, 20, 23, 28, 36, 39, 43, 49].contains c then
    (do (← opened.takeLow a).takeHighFromLow b).map .made
  else if [1, 6, 7, 8, 16, 17, 21, 22, 26, 27, 31, 32, 34, 35, 37, 38].contains c then .ok .first
  else if [4, 10, 15, 18, 33, 42, 48].contains c then
    (do (← opened.takeLowFromHigh b).takeHigh a).map .made
  else .error .noInterval

/-- `calcIntersection`. -/
def calcIntersection (a b : Sinterval) : Except RError Calculated :=
  let c := classify a b
  if [4, 18, 33, 39].contains c then (do (← opened.takeLow a).takeHigh b).map .made
  else if [2, 23, 28, 36].contains c then (do (← opened.takeLow b).takeHigh a).map .made
  else if [5, 11, 12, 13, 24, 25, 29, 30, 40, 41, 44, 45, 47, 50, 51, 52].contains c then .ok .first
  else if [3, 9, 10, 14, 15, 19, 20, 42, 43, 46, 48, 49].contains c then .ok .second
  else if [7, 22, 27, 35].contains c then
    if a.highFixed then (Sinterval.setInterval a.upperBound a.upperBound).map .made else .ok (.made opened)
  else if [8, 17, 32, 38].contains c then
    if b.highFixed then (Sinterval.setInterval b.upperBound b.upperBound).map .made else .ok (.made opened)
  else .error .noInterval

/-- `calcClosure`. -/
def calcClosure (a b : Sinterval) : Except RError Calculated :=
  let closed : Except RError Sinterval := do
    let closure ←
      if !a.lowFixed || !b.lowFixed then pure opened.openLow
      else opened.setLow (min a.lowerBound b.lowerBound)
    if !a.highFixed || !b.highFixed then pure closure.openHigh
    else closure.setHigh (max a.upperBound b.upperBound)
  closed.map .made

/-- `calcUnion`, `calcDifference`, `calcIntersection`, `calcClosure`. -/
def calcOp : IntervalOp → Sinterval → Sinterval → Except RError Calculated
  | .union => calcUnion
  | .difference => calcDifference
  | .intersection => calcIntersection
  | .closure => calcClosure

/-! ## Methods -/

/-- `intersectsWith`: the class of the intervals, or -1. -/
def intersectsWith (h : Heap Sinterval) (this interval : ℕ) : ℤ :=
  let classnr := classify (h.get this) (h.get interval)
  if classnr ≠ 1 ∧ classnr ≠ 6 ∧ classnr ≠ 16 ∧ classnr ≠ 21 ∧
      classnr ≠ 26 ∧ classnr ≠ 31 ∧ classnr ≠ 34 ∧ classnr ≠ 37 then classnr
  else -1

/-- `equals`. -/
def equals (h : Heap Sinterval) (this interval : ℕ) : Bool :=
  let a := h.get this
  let b := h.get interval
  (if a.lowFixed then b.lowFixed && a.lowerBound == b.lowerBound else !b.lowFixed) &&
    (if a.highFixed then b.highFixed && a.upperBound == b.upperBound else !b.highFixed)

/-- `unionOf`, `differenceOf`, `intersectionOf`, `closureOf`: the object that is returned, if any. -/
def opOf (op : IntervalOp) (h : Heap Sinterval) (this interval1 interval2 : ℕ) :
    Heap Sinterval × Option ℕ :=
  match calcOp op (h.get interval1) (h.get interval2) with
  | .error _ => (h, none)
  | .ok c => (h.set this (c.value (h.get interval1) (h.get interval2)), some this)

/-- What `unionWith`, `differenceWith`, `intersectionWith` and `closureWith` calculate. -/
def calcWith (op : IntervalOp) (this interval : Sinterval) : Except RError Sinterval :=
  if op = .union then (calcUnion this interval).map (Calculated.value this interval)
  else (calcOp op interval this).map (Calculated.value interval this)

/-- `unionWith`, `differenceWith`, `intersectionWith`, `closureWith`: the object that is returned, if any.
`closureWith` returns what it calculated and does not change `this`. -/
def opWith (op : IntervalOp) (h : Heap Sinterval) (this interval : ℕ) : Heap Sinterval × Option ℕ :=
  match calcWith op (h.get this) (h.get interval) with
  | .error _ => (h, none)
  | .ok v =>
    if op = .closure then ((h.new v).2, some (h.new v).1)
    else (h.set this v, some this)

/-- `createUnion`, `createDifference`, `createIntersection`, `createClosure`: the object that is returned,
if any. -/
def create (op : IntervalOp) (h : Heap Sinterval) (this interval : ℕ) : Heap Sinterval × Option ℕ :=
  match calcOp op (h.get interval) (h.get this) with
  | .error _ => (h, none)
  | .ok .first => (h, some interval)
  | .ok .second => (h, some this)
  | .ok (.made v) => ((h.new v).2, some (h.new v).1)

/-! ## The port -/

variable {a b : Sinterval} {op : IntervalOp} {h : Heap Sinterval} {this interval : ℕ}

theorem classify_eq (a b : Sinterval) : classify a b = Sinterval.classify a b := by
  obtain ⟨l, h, lf, hf⟩ := a
  obtain ⟨l', h', lf', hf'⟩ := b
  cases lf <;> cases hf <;> cases lf' <;> cases hf' <;> rfl

theorem map_made (x : Except RError Sinterval) (a b : Sinterval) :
    (x.map Calculated.made).map (Calculated.value a b) = x := by
  cases x with
  | error e => rfl
  | ok v => rfl

theorem setInterval_self (v : ℤ) : Sinterval.setInterval v v = .ok (.fixed v v) :=
  if_neg (lt_irrefl v)

theorem calcUnion_value (a b : Sinterval) :
    (calcUnion a b).map (Calculated.value a b) = Sinterval.calcUnion a b := by
  rw [calcUnion, Sinterval.calcUnion, classify_eq]
  simp only [apply_ite (Except.map (Calculated.value a b)), map_made]
  rfl

theorem calcDifference_value (a b : Sinterval) :
    (calcDifference a b).map (Calculated.value a b) = Sinterval.calcDifference a b := by
  rw [calcDifference, Sinterval.calcDifference, classify_eq]
  simp only [apply_ite (Except.map (Calculated.value a b)), map_made]
  rfl

theorem calcIntersection_value (a b : Sinterval) :
    (calcIntersection a b).map (Calculated.value a b) = Sinterval.calcIntersection a b := by
  rw [calcIntersection, Sinterval.calcIntersection, classify_eq]
  simp only [apply_ite (Except.map (Calculated.value a b)), map_made, setInterval_self, apply_ite Except.ok]
  rfl

theorem calcClosure_value (a b : Sinterval) :
    (calcClosure a b).map (Calculated.value a b) = Sinterval.calcClosure a b := map_made _ a b

/-- **The tables are those of `r_Sinterval`.** -/
theorem calc_value (op : IntervalOp) (a b : Sinterval) :
    (calcOp op a b).map (Calculated.value a b) = Sinterval.calcOp op a b := by
  cases op with
  | union => exact calcUnion_value a b
  | difference => exact calcDifference_value a b
  | intersection => exact calcIntersection_value a b
  | closure => exact calcClosure_value a b

theorem equals_eq (h : Heap Sinterval) (this interval : ℕ) :
    equals h this interval = (h.get this).equals (h.get interval) := by
  rw [equals, Sinterval.equals]
  cases (if (h.get this).lowFixed then _ else _ : Bool) <;> rfl

/-- `intersectsWith` tells the class of intervals that intersect. -/
theorem intersectsWith_iff : intersectsWith h this interval ≠ -1 ↔
    (h.get this).intersectsWith (h.get interval) = true := by
  rw [intersectsWith, Sinterval.intersectsWith, classify_eq]
  generalize Sinterval.classify (h.get this) (h.get interval) = c
  have hmem : Sinterval.disjointClasses.contains c = false ↔ c ≠ 1 ∧ c ≠ 6 ∧ c ≠ 16 ∧ c ≠ 21 ∧
      c ≠ 26 ∧ c ≠ 31 ∧ c ≠ 34 ∧ c ≠ 37 := by simp [Sinterval.disjointClasses]
  rw [Bool.not_eq_true', hmem]
  split
  · next hc => exact iff_of_true (by omega) hc
  · next hc => exact iff_of_false (not_not.mpr rfl) hc

theorem intersectsWith_ne_zero : intersectsWith h this interval ≠ 0 := by
  have hmem := List.mem_range'_1.mp (Sinterval.classify_mem (h.get this) (h.get interval))
  rw [intersectsWith, classify_eq]
  split
  · exact Int.natCast_ne_zero.mpr (by omega)
  · decide

/-- What is calculated with an operand does not depend on the order of the arguments. -/
theorem calcWith_eq (ha : a.Sound) (hb : b.Sound) : calcWith op a b = Sinterval.calcOp op b a := by
  rw [calcWith]
  split
  · next hop =>
    rw [hop, calcUnion_value, Sinterval.calcUnion_symm ha hb]
    rfl
  · exact calc_value op b a

end RasSInterval

end Rasdaman
