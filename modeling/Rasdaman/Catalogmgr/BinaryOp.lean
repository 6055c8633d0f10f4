import Rasdaman.Catalogmgr.Ops
import Rasdaman.Machinery.Bytes
import Rasdaman.Machinery.RowMajor
import Mathlib

/-!
# Catalogmgr/BinaryOp — operator objects and the file-level `_operation`

`Ops::getBinaryOp` makes an object for an operation and three types, or returns a null pointer.  An object
for structs has an operator for each element.  `OpBinaryStruct` does not store its operation: the
constructor writes it to the variable `_operation` of the file, and `operator()` reads that variable.
-/

namespace Rasdaman

open Ops Bytes RowMajor

/-! ## Objects -/

/-- An operator `OP_IDENTITY`, which copies some bytes. -/
structure AssignmentOp where
  length : ℕ
  resOff : ℕ
  opOff : ℕ
  deriving DecidableEq, Repr

mutual

/-- A `BinaryOp*`: a null pointer, or an object of one of the classes. -/
inductive BinaryOp
  | null
  | atomic (cls : OperatorClass) (resType op1Type op2Type : BaseType) (resOff op1Off op2Off : ℕ)
  | overlay (length resOff op1Off op2Off : ℕ)
  | binaryStruct (resOff op2Off : ℕ) (elemOps : ElemOps) (compareOps : CompareOps)
      (assignmentOps : List (Option AssignmentOp))
  | binaryStructConst (elemOps : ElemOps)
  | binaryConstStruct (elemOps : ElemOps)
  | equalStruct (elemOps : ElemOps)
  | notequalStruct (elemOps : ElemOps)

/-- `elemOps`. -/
inductive ElemOps
  | nil
  | cons (elemOp : BinaryOp) (rest : ElemOps)

/-- `lessOps` and `equalOps`. -/
inductive CompareOps
  | nil
  | cons (lessOp equalOp : BinaryOp) (rest : CompareOps)

end

/-- Whether a pointer is null. -/
def BinaryOp.isNull : BinaryOp → Bool
  | .null => true
  | _ => false

/-- Pointers that are all null, one for each element. -/
def Elements.nullOps : Elements → ElemOps
  | .last _ _ => .cons .null .nil
  | .cons _ _ rest => .cons .null rest.nullOps

/-- The same for the comparisons. -/
def Elements.nullCompareOps : Elements → CompareOps
  | .last _ _ => .cons .null .null .nil
  | .cons _ _ rest => .cons .null .null rest.nullCompareOps

/-- The same for the assignments. -/
def Elements.nullAssignmentOps : Elements → List (Option AssignmentOp)
  | .last _ _ => [none]
  | .cons _ _ rest => none :: rest.nullAssignmentOps

/-- The assignments: `getUnaryOp` of `OP_IDENTITY` makes an object for every type. -/
def Elements.assignmentOps : Elements → (offsets : List ℕ) → (resOff opOff : ℕ) →
    List (Option AssignmentOp)
  | .last _ t, offsets, resOff, opOff =>
    [some ⟨t.getSize, resOff + offsets.headD 0, opOff + offsets.headD 0⟩]
  | .cons _ t rest, offsets, resOff, opOff =>
    some ⟨t.getSize, resOff + offsets.headD 0, opOff + offsets.headD 0⟩ ::
      rest.assignmentOps offsets.tail resOff opOff

/-! ## Construction -/

mutual

/-- The number of types in a type and of its elements, which bounds the recursion of `getBinaryOp`. -/
def BaseType.weight : BaseType → ℕ
  | .atomic _ => 1
  | .struct es => es.weight + 1

/-- The same for the elements. -/
def Elements.weight : Elements → ℕ
  | .last _ t => t.weight + 1
  | .cons _ t rest => t.weight + rest.weight + 1

end

theorem BaseType.weight_pos (t : BaseType) : 0 < t.weight := by
  cases t with
  | atomic a => exact Nat.one_pos
  | struct es => exact Nat.succ_pos _

theorem Elements.two_le_weight (es : Elements) : 2 ≤ es.weight := by
  cases es with
  | last n t => exact Nat.succ_le_succ t.weight_pos
  | cons n t rest =>
    have := t.weight_pos
    rw [Elements.weight]
    omega

theorem Ops.weight_applicableType (op : OpType) (a b : BaseType) :
    (applicableType op a b).weight ≤ max a.weight b.weight := by
  have ha := a.weight_pos
  unfold applicableType
  have hatomic : ∀ x, (BaseType.atomic x).weight ≤ max a.weight b.weight := fun x =>
    le_max_of_le_left ha
  split
  · exact le_max_left _ _
  split
  · exact hatomic _
  split
  · exact le_max_left _ _
  split
  · exact le_max_right _ _
  split
  · exact hatomic _
  split
  · exact hatomic _
  cases op <;> first | exact hatomic _ | (dsimp only; split_ifs <;> exact hatomic _)

namespace Ops

/-- What `_operation` is: nothing as long as no struct operator has been constructed. -/
abbrev Operation := Option OpType

/-- A computation that reads and writes `_operation`. -/
abbrev Building := StateM Operation

mutual

/-- `getBinaryOp`. -/
def getBinaryOp (op : OpType) (resType op1Type op2Type : BaseType) (resOff op1Off op2Off : ℕ) :
    Building BinaryOp :=
  if op = .overlay ∧ resType.typeEnum = op1Type.typeEnum ∧ resType.typeEnum = op2Type.typeEnum then
    -- the constructor throws for types of more than 16 bytes
    return if resType.getSize ≤ 16 then .overlay resType.getSize resOff op1Off op2Off else .null
  else
    match operatorClass op resType op1Type op2Type with
    | some cls => return .atomic cls resType op1Type op2Type resOff op1Off op2Off
    | none =>
      match resType, op1Type, op2Type with
      | .atomic .bool, .struct es, .struct fs => do
        if op = .equal ∧ es.compatibleWith fs then
          return .equalStruct (← compareElemOps .equal es fs es.structType.offsets fs.structType.offsets
            resOff op1Off op2Off)
        else if op = .notequal ∧ es.compatibleWith fs then
          return .notequalStruct (← compareElemOps .notequal es fs es.structType.offsets
            fs.structType.offsets resOff op1Off op2Off)
        else
          return .null
      | .struct rs, .struct es, .struct fs => do
        let applicable ← if op.onStruct then isApplicableOnStruct op es else pure false
        if applicable && rs.compatibleWith es && rs.compatibleWith fs then
          -- the constructor of `OpBinaryStruct`
          set (some op)
          if op.selects then
            return .binaryStruct resOff op2Off rs.nullOps
              (← compareOps rs rs.structType.offsets op1Off op2Off)
              (rs.assignmentOps rs.structType.offsets resOff op1Off)
          else
            return .binaryStruct resOff op2Off
              (← elemOps op rs rs.structType.offsets resOff op1Off op2Off) rs.nullCompareOps
              rs.nullAssignmentOps
        else
          return .null
      | .struct rs, .struct es, .atomic b => do
        let applicable ← if op.onStruct then isApplicableOnStructConst op es b else pure false
        if applicable then
          return .binaryStructConst (← structConstElemOps op rs es b rs.structType.offsets
            es.structType.offsets resOff op1Off op2Off)
        else
          return .null
      | .struct rs, .atomic a, .struct fs => do
        let applicable ← if op.onStruct then isApplicableOnStructConst op fs a else pure false
        if applicable then
          return .binaryConstStruct (← constStructElemOps op rs a fs rs.structType.offsets
            fs.structType.offsets resOff op1Off op2Off)
        else
          return .null
      | _, _, _ => return .null
termination_by (max resType.weight (max op1Type.weight op2Type.weight), 1)
decreasing_by all_goals (simp only [Prod.lex_def, BaseType.weight]; omega)

/-- `isApplicable` of a binary operation; the object is deleted again. -/
def isApplicable (op : OpType) (op1Type op2Type : BaseType) : Building Bool := do
  return !(← getBinaryOp op (applicableType op op1Type op2Type) op1Type op2Type 0 0 0).isNull
termination_by (max op1Type.weight op2Type.weight, 2)
decreasing_by
  have := weight_applicableType op op1Type op2Type
  simp only [Prod.lex_def]
  omega

/-- `isApplicableOnStruct`. -/
def isApplicableOnStruct (op : OpType) (es : Elements) : Building Bool :=
  match es with
  | .last _ t => isApplicable op t t
  | .cons _ t rest => do
    if ← isApplicable op t t then isApplicableOnStruct op rest else return false
termination_by (es.weight, 3)
decreasing_by all_goals (simp only [Prod.lex_def, Elements.weight]; omega)

/-- `isApplicableOnStructConst`. -/
def isApplicableOnStructConst (op : OpType) (es : Elements) (b : AtomicType) : Building Bool :=
  match es with
  | .last _ t => isApplicable op t (.atomic b)
  | .cons _ t rest => do
    if ← isApplicable op t (.atomic b) then isApplicableOnStructConst op rest b else return false
termination_by (es.weight, 3)
decreasing_by all_goals (simp only [Prod.lex_def, BaseType.weight, Elements.weight]; omega)

/-- The loop of `OpBinaryStruct` that fills `elemOps`. -/
def elemOps (op : OpType) (es : Elements) (offsets : List ℕ) (resOff op1Off op2Off : ℕ) :
    Building ElemOps :=
  match es with
  | .last _ t => do
    let elemOp ← getBinaryOp op t t t (resOff + offsets.headD 0) (op1Off + offsets.headD 0)
      (op2Off + offsets.headD 0)
    return .cons elemOp .nil
  | .cons _ t rest => do
    let elemOp ← getBinaryOp op t t t (resOff + offsets.headD 0) (op1Off + offsets.headD 0)
      (op2Off + offsets.headD 0)
    return .cons elemOp (← elemOps op rest offsets.tail resOff op1Off op2Off)
termination_by (es.weight, 3)
decreasing_by all_goals (simp only [Prod.lex_def, Elements.weight]; omega)

/-- The same loop for the comparisons. -/
def compareOps (es : Elements) (offsets : List ℕ) (op1Off op2Off : ℕ) : Building CompareOps :=
  match es with
  | .last _ t => do
    let lessOp ← getBinaryOp .less (.atomic .bool) t t 0 (op1Off + offsets.headD 0)
      (op2Off + offsets.headD 0)
    let equalOp ← getBinaryOp .equal (.atomic .bool) t t 0 (op1Off + offsets.headD 0)
      (op2Off + offsets.headD 0)
    return .cons lessOp equalOp .nil
  | .cons _ t rest => do
    let lessOp ← getBinaryOp .less (.atomic .bool) t t 0 (op1Off + offsets.headD 0)
      (op2Off + offsets.headD 0)
    let equalOp ← getBinaryOp .equal (.atomic .bool) t t 0 (op1Off + offsets.headD 0)
      (op2Off + offsets.headD 0)
    return .cons lessOp equalOp (← compareOps rest offsets.tail op1Off op2Off)
termination_by (es.weight, 3)
decreasing_by all_goals (simp only [Prod.lex_def, BaseType.weight, Elements.weight]; omega)

/-- The loop of `OpBinaryStructConst`. -/
def structConstElemOps (op : OpType) (rs es : Elements) (b : AtomicType) (resOffsets offsets : List ℕ)
    (resOff op1Off op2Off : ℕ) : Building ElemOps :=
  match rs, es with
  | .cons _ r rs, .cons _ t es => do
    let elemOp ← getBinaryOp op r t (.atomic b) (resOff + resOffsets.headD 0)
      (op1Off + offsets.headD 0) op2Off
    return .cons elemOp
      (← structConstElemOps op rs es b resOffsets.tail offsets.tail resOff op1Off op2Off)
  | .cons _ r _, .last _ t | .last _ r, .last _ t => do
    let elemOp ← getBinaryOp op r t (.atomic b) (resOff + resOffsets.headD 0)
      (op1Off + offsets.headD 0) op2Off
    return .cons elemOp .nil
  -- the result has fewer elements than the operand: there is no element type to ask
  | .last _ _, .cons _ _ _ => return .cons .null .nil
termination_by (max rs.weight es.weight, 3)
decreasing_by all_goals (simp only [Prod.lex_def, BaseType.weight, Elements.weight]; omega)

/-- The loop of `OpBinaryConstStruct`. -/
def constStructElemOps (op : OpType) (rs : Elements) (a : AtomicType) (fs : Elements)
    (resOffsets offsets : List ℕ) (resOff op1Off op2Off : ℕ) : Building ElemOps :=
  match rs, fs with
  | .cons _ r rs, .cons _ t fs => do
    let elemOp ← getBinaryOp op r (.atomic a) t (resOff + resOffsets.headD 0) op1Off
      (op2Off + offsets.headD 0)
    return .cons elemOp
      (← constStructElemOps op rs a fs resOffsets.tail offsets.tail resOff op1Off op2Off)
  | .cons _ r _, .last _ t | .last _ r, .last _ t => do
    let elemOp ← getBinaryOp op r (.atomic a) t (resOff + resOffsets.headD 0) op1Off
      (op2Off + offsets.headD 0)
    return .cons elemOp .nil
  | .last _ _, .cons _ _ _ => return .cons .null .nil
termination_by (max rs.weight fs.weight, 3)
decreasing_by all_goals (simp only [Prod.lex_def, BaseType.weight, Elements.weight]; omega)

/-- The loop of `OpEQUALStruct` and of `OpNOTEQUALStruct`. -/
def compareElemOps (op : OpType) (es fs : Elements) (offsets1 offsets2 : List ℕ)
    (resOff op1Off op2Off : ℕ) : Building ElemOps :=
  match es, fs with
  | .cons _ t es, .cons _ u fs => do
    let elemOp ← getBinaryOp op (.atomic .bool) t u resOff (op1Off + offsets1.headD 0)
      (op2Off + offsets2.headD 0)
    return .cons elemOp
      (← compareElemOps op es fs offsets1.tail offsets2.tail resOff op1Off op2Off)
  | .last _ t, .last _ u => do
    let elemOp ← getBinaryOp op (.atomic .bool) t u resOff (op1Off + offsets1.headD 0)
      (op2Off + offsets2.headD 0)
    return .cons elemOp .nil
  -- compatible structs have as many elements
  | .cons _ _ _, .last _ _ | .last _ _, .cons _ _ _ => return .cons .null .nil
termination_by (max es.weight fs.weight, 3)
decreasing_by all_goals (simp only [Prod.lex_def, BaseType.weight, Elements.weight]; omega)

end

end Ops

/-! ## Application -/

/-- The bytes of cells. -/
abbrev Cells := List UInt8

/-- What ends an application: a call through a null pointer, or an exception. -/
inductive Interruption
  | nullCall
  | thrown (errorNo : ℕ)
  deriving DecidableEq, Repr

/-- What the operators on cells that are not structs compute: the result of the values of both cells, or
the number of an exception. -/
abbrev Arithmetic :=
  OperatorClass → (resType op1Type op2Type : BaseType) → Cells → Cells → Except ℕ Cells

/-- The value of a flag. -/
def flag (b : Bool) : UInt8 := if b then 1 else 0

/-- The loop over `assignmentOps`. -/
def assignAll : List (Option AssignmentOp) → (res op : Cells) → Except Interruption Cells
  | [], res, _ => .ok res
  | none :: _, _, _ => .error .nullCall
  | some a :: rest, res, op => assignAll rest (overwrite res a.resOff (slice a.opOff a.length op)) op

mutual

/-- `operator()`: the result cell afterwards. -/
def BinaryOp.apply (compute : Arithmetic) (operation : Operation) :
    BinaryOp → (res op1 op2 : Cells) → Except Interruption Cells
  | .null, _, _, _ => .error .nullCall
  | .atomic cls resType op1Type op2Type resOff op1Off op2Off, res, op1, op2 =>
    match compute cls resType op1Type op2Type (slice op1Off op1Type.getSize op1)
      (slice op2Off op2Type.getSize op2) with
    | .ok v => .ok (overwrite res resOff v)
    | .error e => .error (.thrown e)
  | .overlay length resOff op1Off op2Off, res, op1, op2 =>
    .ok (overwrite res resOff
      (if slice op1Off length op1 = List.replicate length 0 then slice op2Off length op2
      else slice op1Off length op1))
  | .binaryStruct resOff op2Off elemOps compareOps assignmentOps, res, op1, op2 =>
    match operation with
    | some .overlay =>
      if op2.getD op2Off 0 ≠ 0 then .ok (overwrite res resOff [op2.getD op2Off 0])
      else elemOps.applyAll compute operation res op1 op2
    | some .minBinary => do
      let op1Min ← compareOps.op1Min compute operation op1 op2
      assignAll assignmentOps res (if op1Min then op1 else op2)
    | some .maxBinary => do
      let op1Min ← compareOps.op1Min compute operation op1 op2
      assignAll assignmentOps res (if op1Min then op2 else op1)
    | _ => elemOps.applyAll compute operation res op1 op2
  | .binaryStructConst elemOps, res, op1, op2 => elemOps.applyAll compute operation res op1 op2
  | .binaryConstStruct elemOps, res, op1, op2 => elemOps.applyAll compute operation res op1 op2
  | .equalStruct elemOps, res, op1, op2 =>
    elemOps.applyDummy compute operation (fun x dummy => x && dummy) true res op1 op2
  | .notequalStruct elemOps, res, op1, op2 =>
    elemOps.applyDummy compute operation (fun x dummy => x || dummy) false res op1 op2

/-- The loop over `elemOps`. -/
def ElemOps.applyAll (compute : Arithmetic) (operation : Operation) :
    ElemOps → (res op1 op2 : Cells) → Except Interruption Cells
  | .nil, res, _, _ => .ok res
  | .cons elemOp rest, res, op1, op2 => do
    let res ← elemOp.apply compute operation res op1 op2
    rest.applyAll compute operation res op1 op2

/-- The loop of the comparisons of structs, which collects `*res` in `dummy` and writes that at the end. -/
def ElemOps.applyDummy (compute : Arithmetic) (operation : Operation) (collect : Bool → Bool → Bool) :
    ElemOps → (dummy : Bool) → (res op1 op2 : Cells) → Except Interruption Cells
  | .nil, dummy, res, _, _ => .ok (overwrite res 0 [flag dummy])
  | .cons elemOp rest, dummy, res, op1, op2 => do
    let res ← elemOp.apply compute operation res op1 op2
    rest.applyDummy compute operation collect (collect (res.getD 0 0 != 0) dummy) res op1 op2

/-- The loop over `lessOps` and `equalOps`: whether the first operand is the minimum. -/
def CompareOps.op1Min (compute : Arithmetic) (operation : Operation) :
    CompareOps → (op1 op2 : Cells) → Except Interruption Bool
  | .nil, _, _ => .ok true
  | .cons lessOp equalOp rest, op1, op2 => do
    let boolRes ← lessOp.apply compute operation [0] op1 op2
    if boolRes.getD 0 0 != 0 then rest.op1Min compute operation op1 op2
    else do
      let boolRes ← equalOp.apply compute operation [0] op1 op2
      if boolRes.getD 0 0 != 0 then rest.op1Min compute operation op1 op2 else .ok false

end

end Rasdaman
