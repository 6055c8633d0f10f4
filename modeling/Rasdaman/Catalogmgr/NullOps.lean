import Rasdaman.Catalogmgr.IntegerOps
import Rasdaman.Raslib.Minterval
import Mathlib

/-!
# Catalogmgr/NullOps — the operators on integers with null values

An operator has a set of null values, given by a minterval.  An arithmetic operator returns the first of
its operands that is null, a comparison of a null value is false; `maxBinary`, `minBinary` and the class
`OpGREATERCCharCLong` do not look for null values.
-/

namespace Rasdaman

open Ops Bytes

/-! ## Null values -/

/-- `within_bounds`.  Whether the bounds are fixed is not looked at. -/
def Minterval.withinBounds (m : Minterval) (point : ℤ) : Bool :=
  m.any fun s => s.lowerBound ≤ point && point ≤ s.upperBound

/-- The null values of an operator; a null pointer as long as none are set. -/
abbrev NullValues := Option Minterval

/-- `isNull`, for a value of an integer type. -/
def isNull (nullValues : NullValues) (value : ℤ) : Bool := nullValues.any fun m => m.withinBounds value

/-! ## Operators -/

namespace Ops.OpType

/-- `DIVISION_BY_ZERO`. -/
def divisionByZero : ℕ := 433

section Nulls

variable {α : Type} (null : α → Bool)

/-- The result of an operator that looks for null values. -/
def unlessNull (f : α → α → Except ℕ α) (x y : α) : Except ℕ α :=
  if null x then .ok x else if null y then .ok y else f x y

/-- A division, or the rest of one. -/
def unlessZero [Zero α] [DecidableEq α] (f : α → α → α) (x y : α) : Except ℕ α :=
  if y = 0 then .error divisionByZero else .ok (f x y)

end Nulls

/-- `operator()` of `OpPLUSCULong` and those like it, on the values of the operands. -/
def onULong (null : BitVec 32 → Bool) : OpType → Option (BitVec 32 → BitVec 32 → Except ℕ (BitVec 32))
  | plus => some (unlessNull null fun x y => .ok (x + y))
  | minus => some (unlessNull null fun x y => .ok (x - y))
  | mult => some (unlessNull null fun x y => .ok (x * y))
  | div => some (unlessNull null (unlessZero (· / ·)))
  | mod => some (unlessNull null (unlessZero (· % ·)))
  | and => some (unlessNull null fun x y => .ok (x &&& y))
  | or => some (unlessNull null fun x y => .ok (x ||| y))
  | xor => some (unlessNull null fun x y => .ok (x ^^^ y))
  | maxBinary => some fun x y => .ok (larger BitVec.ult x y)
  | minBinary => some fun x y => .ok (smaller BitVec.ult x y)
  | _ => none

/-- `operator()` of `OpPLUSChar` and those like it.  The dividend of `OpDIVChar` is not its first operand. -/
def onCharCells (null : UInt8 → Bool) (dividend : UInt8) : OpType → Option (UInt8 → UInt8 → Except ℕ UInt8)
  | plus => some (unlessNull null fun x y => .ok (x + y))
  | minus => some (unlessNull null fun x y => .ok (x - y))
  | mult => some (unlessNull null fun x y => .ok (x * y))
  | div => some (unlessNull null fun _ y => unlessZero (· / ·) dividend y)
  | mod => some (unlessNull null (unlessZero (· % ·)))
  | maxBinary => some fun x y => .ok (larger (fun x y => x < y) x y)
  | minBinary => some fun x y => .ok (smaller (fun x y => x < y) x y)
  | _ => none

/-- A comparison that looks for null values. -/
def holdsUnlessNull (null1 null2 less equal : Bool) (op : OpType) : Option Bool :=
  (op.holds less equal).map fun v => if null1 || null2 then false else v

end Ops.OpType

end Rasdaman
