import Rasdaman.Raslib.CellLayout
import Mathlib

/-!
# Catalogmgr/Ops — the operators that exist for some types

`Ops::getBinaryOp` chooses a class of operators by comparing the types in the order of `TypeEnum`.  This
module has the choice for cells that are not structs; the objects are made in `Catalogmgr/BinaryOp`.
-/

namespace Rasdaman

/-! ## Types -/

/-- The position in `TypeEnum`, which some code compares. -/
def AtomicType.typeEnum : AtomicType → ℕ
  | ulong => 0
  | ushort => 1
  | char => 2
  | bool => 3
  | long => 4
  | short => 5
  | octet => 6
  | double => 7
  | float => 8
  | complex1 => 9
  | complex2 => 10

namespace BaseType

/-- The `TypeEnum` that the virtual `getType` returns; `STRUCT` comes after the atomic types. -/
def typeEnum : BaseType → ℕ
  | .atomic a => a.typeEnum
  | .struct _ => 11

/-- Whether a type is an atomic type. -/
def is (t : BaseType) (a : AtomicType) : Bool := t.typeEnum == a.typeEnum

/-- Whether a type comes before another one, or is that one. -/
def upTo (t : BaseType) (a : AtomicType) : Bool := t.typeEnum ≤ a.typeEnum

end BaseType

mutual

/-- `compatibleWith`. -/
def BaseType.compatibleWith : BaseType → BaseType → Bool
  | .atomic a, .atomic b => a == b
  | .struct es, .struct fs => es.compatibleWith fs
  | _, _ => false

/-- `StructType::compatibleWith`, element by element. -/
def Elements.compatibleWith : Elements → Elements → Bool
  | .last _ t, .last _ u => t.compatibleWith u
  | .cons _ t es, .cons _ u fs => t.compatibleWith u && es.compatibleWith fs
  | _, _ => false

end

mutual

theorem BaseType.compatibleWith_self : ∀ t : BaseType, t.compatibleWith t = true
  | .atomic a => by rw [BaseType.compatibleWith, beq_self_eq_true]
  | .struct es => by rw [BaseType.compatibleWith, es.compatibleWith_self]

theorem Elements.compatibleWith_self : ∀ es : Elements, es.compatibleWith es = true
  | .last _ t => by rw [Elements.compatibleWith, t.compatibleWith_self]
  | .cons _ t es => by
    rw [Elements.compatibleWith, t.compatibleWith_self, es.compatibleWith_self, Bool.and_true]

end

namespace Ops

/-! ## Operations -/

/-- The binary operations, in the order of `OpType`. -/
inductive OpType
  | minus
  | plus
  | maxBinary
  | minBinary
  | div
  | mult
  | intdiv
  | mod
  | is
  | and
  | or
  | overlay
  | bit
  | xor
  | constructComplex
  | equal
  | less
  | lessequal
  | notequal
  | greater
  | greaterequal
  deriving DecidableEq, Repr

namespace OpType

/-- From `OP_EQUAL` to `OP_GREATEREQUAL`. -/
def comparison : OpType → Option OpType
  | equal => some equal
  | less => some less
  | lessequal => some lessequal
  | notequal => some notequal
  | greater => some greater
  | greaterequal => some greaterequal
  | _ => none

/-- From `OP_MINUS` to `OP_XOR`: what is looked for in structs. -/
def onStruct : OpType → Bool
  | constructComplex | equal | less | lessequal | notequal | greater | greaterequal => false
  | _ => true

/-- The operations on reals and complex numbers. -/
def real : OpType → Option OpType
  | plus => some plus
  | minus => some minus
  | maxBinary => some maxBinary
  | minBinary => some minBinary
  | div => some div
  | mult => some mult
  | _ => none

/-- The operations on Chars; the division of integers is the division. -/
def ofChar : OpType → Option OpType
  | intdiv => some div
  | mod => some mod
  | op => op.real

/-- The logical operations. -/
def logical : OpType → Option OpType
  | and => some and
  | or => some or
  | xor => some xor
  | _ => none

/-- The operations on integers. -/
def integral : OpType → Option OpType
  | and => some and
  | or => some or
  | xor => some xor
  | op => op.ofChar

/-- Whether `OpBinaryStruct` compares the operands. -/
def selects : OpType → Bool
  | maxBinary | minBinary => true
  | _ => false

end OpType

/-! ## Classes -/

/-- The classes of operators on cells that are not structs: `OpPLUSChar` and the like, `OpANDBool`,
`OpPLUSCULong`, `OpPLUSCLong`, `OpPLUSCDouble`, `OpPLUSComplex`, and the comparisons. -/
inductive OperatorClass
  | char (op : OpType)
  | bool (op : OpType)
  | culong (op : OpType)
  | clong (op : OpType)
  | cdouble (op : OpType)
  | complex (op : OpType)
  | constructComplex
  | equalChar (op : OpType)
  | equalCULong (op : OpType)
  | equalCLong (op : OpType)
  | bit
  | equalCDouble (op : OpType)
  deriving DecidableEq, Repr

/-- The class of `getBinaryOp` for some types, if there is one: the first `switch` that has a case for the
operation. -/
def operatorClass (op : OpType) (resType op1Type op2Type : BaseType) : Option OperatorClass :=
  (if resType.is .char && op1Type.is .char && op2Type.is .char then op.ofChar.map .char else none) <|>
  (if resType.is .bool && op1Type.is .bool && op2Type.is .bool then op.logical.map .bool else none) <|>
  (if resType.upTo .bool && op1Type.upTo .octet && op2Type.upTo .octet then
    op.integral.map .culong else none) <|>
  (if (resType.is .long || resType.is .short || resType.is .octet) && op1Type.upTo .octet &&
      op2Type.upTo .octet then op.integral.map .clong else none) <|>
  (if (resType.is .float || resType.is .double) && op1Type.upTo .float && op2Type.upTo .float then
    op.real.map .cdouble else none) <|>
  -- the operands of a complex result are not looked at
  (if resType.is .complex1 || resType.is .complex2 then
    if op = .constructComplex then some .constructComplex else op.real.map .complex else none) <|>
  (if resType.is .bool && op1Type.is .char && op2Type.is .char then
    op.comparison.map .equalChar else none) <|>
  (if resType.is .bool && op1Type.upTo .bool && op2Type.upTo .bool then
    op.comparison.map .equalCULong else none) <|>
  (if resType.is .bool && op1Type.upTo .octet && op2Type.upTo .octet then
    if op = .bit then some .bit else op.comparison.map .equalCLong else none) <|>
  (if resType.is .bool && op1Type.upTo .float && op2Type.upTo .float then
    op.comparison.map .equalCDouble else none)

/-- The result type with which `isApplicable` looks for a binary operation. -/
def applicableType (op : OpType) (op1Type op2Type : BaseType) : BaseType :=
  if op = .overlay then op1Type
  else if op.comparison.isSome || op = .bit then .atomic .bool
  else if op1Type.typeEnum = 11 then op1Type
  else if op2Type.typeEnum = 11 then op2Type
  else if op1Type.is .complex2 || op2Type.is .complex2 then .atomic .complex2
  else if op1Type.is .complex1 || op2Type.is .complex1 then .atomic .complex1
  else
    match op with
    | .is | .and | .or | .xor => .atomic .long
    | .mod | .intdiv =>
      if op1Type.is .long || op2Type.is .long then .atomic .long
      else if op1Type.is .ulong || op2Type.is .ulong then .atomic .ulong
      else if op1Type.is .char || op2Type.is .char then .atomic .char
      else .atomic .double
    | .constructComplex =>
      if op1Type.is .double || op2Type.is .double then .atomic .complex2
      else if op1Type.is .float || op2Type.is .float then .atomic .complex1
      else .atomic .complex2
    | _ => .atomic .double

end Ops

end Rasdaman
