import Mathlib.Data.Int.Notation
import Mathlib.Data.Nat.Basic
import Mathlib.Order.Interval.Finset.Nat

/-!
# Qlparser/ScalarTypes — the type an expression announces and the type it evaluates to

`checkType` computes the type of every node before the query runs; `evaluate` makes a value with a type
of its own.  A binary operation takes the announced type, a condenser widens the type of its cells, and
`QLMarrayOp::operator()` copies as many bytes as the type of the value has.
-/

namespace Rasdaman

namespace ScalarTypes

/-! ## Types -/

/-- The atomic types, in the order of `TypeEnum`. -/
inductive AtomicType
  | ulong
  | ushort
  | char
  | bool
  | long
  | short
  | octet
  | double
  | float
  | complex1
  | complex2
  deriving DecidableEq

/-- `BaseType`: an atomic type, or a struct of named elements. -/
inductive BaseType
  | atomic (t : AtomicType)
  | struct (elements : List (String × BaseType))

namespace AtomicType

/-- The position in `TypeEnum`, which some code compares. -/
def rank : AtomicType → ℕ
  | ulong => 0
  | ushort => 1
  | char => 2
  | bool => 3
  | long => 4
  | short => 5
  | octet => 6
  | double => 7
  | float => 8
  | complex1 => 9
  | complex2 => 10

/-- `getSize`. -/
def getSize : AtomicType → ℕ
  | ulong => 4
  | ushort => 2
  | char => 1
  | bool => 1
  | long => 4
  | short => 2
  | octet => 1
  | double => 8
  | float => 4
  | complex1 => 8
  | complex2 => 16

/-- Whether a type is one of the integers, up to `OCTET`. -/
def isIntegral (t : AtomicType) : Bool := t.rank ≤ octet.rank

/-- Whether a type is a number, up to `FLOAT`. -/
def isNumerical (t : AtomicType) : Bool := t.rank ≤ float.rank

/-- `isSignedType`. -/
def isSignedType (t : AtomicType) : Bool := long.rank ≤ t.rank

end AtomicType

/-- The operations of `Ops` that stand between two scalars, in the order of `OpType`. -/
inductive OpType
  | minus
  | plus
  | maxBinary
  | minBinary
  | div
  | mult
  | intdiv
  | mod
  | and
  | or
  | xor
  | equal
  | less
  | lessequal
  | notequal
  | greater
  | greaterequal
  deriving DecidableEq

namespace OpType

/-- From `OP_EQUAL` to `OP_GREATEREQUAL`. -/
def isComparison : OpType → Bool
  | equal | less | lessequal | notequal | greater | greaterequal => true
  | _ => false

/-- The operations on integers and on reals alike. -/
def isArithmetic : OpType → Bool
  | minus | plus | maxBinary | minBinary | div | mult => true
  | _ => false

end OpType

/-! ## Ops -/

namespace Ops

open AtomicType OpType

/-- `getBinaryOp` on atomic types: whether there is such an operation. -/
def hasBinaryOp (op : OpType) (res a b : AtomicType) : Bool :=
  if res.isNumerical then
    (a.isNumerical && b.isNumerical) &&
      if op.isComparison then res == bool
      else if op.isArithmetic then (a.isIntegral && b.isIntegral) || (res == float || res == double)
      else a.isIntegral && b.isIntegral && res.isIntegral
  else op.isArithmetic

/-- The result type with which `isApplicable` looks for an operation. -/
def applicableType (op : OpType) (a b : AtomicType) : AtomicType :=
  if op.isComparison then bool
  else if a = complex2 ∨ b = complex2 then complex2
  else if a = complex1 ∨ b = complex1 then complex1
  else
    match op with
    | .and | .or | .xor => long
    | .mod | .intdiv =>
      if a = long ∨ b = long then long
      else if a = ulong ∨ b = ulong then ulong
      else if a = char ∨ b = char then char
      else double
    | _ => double

/-- `isApplicable` on atomic types. -/
def isApplicable (op : OpType) (a b : AtomicType) : Bool :=
  hasBinaryOp op (applicableType op a b) a b

/-- The end of `getResultType`: the type of the result is signed when one of the operands is. -/
def strongerType (a b : AtomicType) : AtomicType :=
  let (a, b) := if a.isSignedType && !b.isSignedType then (b, a) else (a, b)
  if !a.isSignedType && b.isSignedType then
    if b = complex1 ∨ b = complex2 ∨ b = float ∨ b = double ∨ b = long then b
    else if a = ushort then short
    else if b = short then b
    else octet
  else if a = complex2 ∨ b = complex2 then complex2
  else if a = complex1 ∨ b = complex1 then complex1
  else if a = double ∨ b = double then double
  else if a = float ∨ b = float then float
  else if a.rank ≤ b.rank then a
  else b

/-- `getResultType` on atomic types. -/
def atomicResult (op : OpType) (a b : AtomicType) : Option AtomicType :=
  if ¬isApplicable op a b then none
  else if op = .div ∧ a.isIntegral ∧ b.isIntegral then some double
  else if op.isComparison then some bool
  else some (strongerType a b)

mutual

/-- `compatibleWith`. -/
def compatibleWith : BaseType → BaseType → Bool
  | .atomic a, .atomic b => a == b
  | .struct es, .struct fs => compatibleElements es fs
  | _, _ => false

/-- `StructType::compatibleWith`, element by element. -/
def compatibleElements : List (String × BaseType) → List (String × BaseType) → Bool
  | [], [] => true
  | (_, t) :: es, (_, u) :: fs => compatibleWith t u && compatibleElements es fs
  | _, _ => false

end

mutual

/-- `isApplicable` of an operation to a type and a constant. -/
def isApplicableConst (op : OpType) (c : AtomicType) : BaseType → Bool
  | .atomic a => isApplicable op a c
  | .struct es => !op.isComparison && isApplicableOnStructConst op c es

/-- `isApplicableOnStructConst`. -/
def isApplicableOnStructConst (op : OpType) (c : AtomicType) : List (String × BaseType) → Bool
  | [] => true
  | (_, t) :: es => isApplicableConst op c t && isApplicableOnStructConst op c es

end

mutual

/-- `isApplicable` of an operation to a type and itself. -/
def isApplicableSelf (op : OpType) : BaseType → Bool
  | .atomic a => isApplicable op a a
  | .struct es => !op.isComparison && isApplicableOnStruct op es

/-- `isApplicableOnStruct`. -/
def isApplicableOnStruct (op : OpType) : List (String × BaseType) → Bool
  | [] => true
  | (_, t) :: es => isApplicableSelf op t && isApplicableOnStruct op es

end

mutual

/-- `getResultType` of a type and a constant, which is the second operand or the first. -/
def resultConst (op : OpType) (c : AtomicType) (second : Bool) : BaseType → Option BaseType
  | .atomic a => (if second then atomicResult op a c else atomicResult op c a).map .atomic
  | .struct es =>
    if !isApplicableConst op c (.struct es) then none
    else if c.isNumerical then (resultElements op c second es).map .struct
    else some (.struct es)

/-- The struct that `getResultType` makes, element by element. -/
def resultElements (op : OpType) (c : AtomicType) (second : Bool) :
    List (String × BaseType) → Option (List (String × BaseType))
  | [] => some []
  | (name, t) :: es =>
    match resultConst op c second t, resultElements op c second es with
    | some u, some fs => some ((name, u) :: fs)
    | _, _ => none

end

/-- `getResultType`; nothing when the operation is not applicable. -/
def getResultType (op : OpType) : BaseType → BaseType → Option BaseType
  | .atomic a, .atomic b => (atomicResult op a b).map .atomic
  | .struct es, .atomic b => resultConst op b true (.struct es)
  | .atomic a, .struct fs => resultConst op a false (.struct fs)
  | .struct es, .struct fs =>
    if op = .equal ∨ op = .notequal then
      if compatibleElements es fs then some (.atomic bool) else none
    else if isApplicableSelf op (.struct es) && compatibleElements es fs then some (.struct es)
    else none

end Ops

/-! ## Values -/

/-- How many bytes a struct of some elements takes. -/
abbrev Layout := List (String × BaseType) → ℕ

/-- `BaseType::getSize`. -/
def BaseType.getSize (layout : Layout) : BaseType → ℕ
  | .atomic t => t.getSize
  | .struct es => layout es

/-- `QtScalarData`: a type, and a buffer of its size. -/
structure QtScalarData (layout : Layout) where
  valueType : BaseType
  valueBuffer : Vector UInt8 (valueType.getSize layout)

variable {layout : Layout}

/-- What is bound to a name: an array with the type of its cells, or the point of an iterator. -/
inductive Bound (layout : Layout)
  | mdd (cellType : BaseType) (cell : List ℤ → Vector UInt8 (cellType.getSize layout))
  | point (p : List ℤ)

/-- The bound data, the first to be looked at first. -/
abbrev Bindings (layout : Layout) := List (String × Bound layout)

/-- What `checkType` knows of a name. -/
inductive QtTypeElement
  | mdd (cellType : BaseType)
  | point

/-- `QtTypeTuple`. -/
abbrev QtTypeTuple := List (String × QtTypeElement)

/-- What the operations compute: the buffer of a result from two operands, unless an exception is
thrown, and the buffer a condenser starts with. -/
structure Arithmetic (layout : Layout) where
  binaryOp : (op : OpType) → (resType : BaseType) → QtScalarData layout → QtScalarData layout →
    Option (Vector UInt8 (resType.getSize layout))
  condenseInit : (op : OpType) → (resType : BaseType) → Vector UInt8 (resType.getSize layout)
  unsignedValue : QtScalarData layout → Bool
  signedValue : ℤ → Vector UInt8 4

/-! ## Expressions -/

/-- Scalar expressions.  What only says which cells are read, the index of a cell access and the domain
of a condenser, is taken by what it evaluates to. -/
inductive QtScalarExp (layout : Layout)
  | const (dataObj : QtScalarData layout)
  | cell (mdd : String) (index : Bindings layout → Option (List ℤ))
  | coordinate (iteratorName : String) (index : ℕ)
  | binary (op : OpType) (input1 input2 : QtScalarExp layout)
  | condense (op : OpType) (iteratorName : String) (domain : Bindings layout → Option (List (List ℤ)))
      (input2 : QtScalarExp layout)
  | condenseWhere (op : OpType) (iteratorName : String)
      (domain : Bindings layout → Option (List (List ℤ))) (condOp input2 : QtScalarExp layout)

namespace QtScalarExp

/-- `checkType`: the type that is announced, or the number of the error. -/
def checkType : QtScalarExp layout → QtTypeTuple → Except ℕ BaseType
  | .const dataObj, _ => .ok dataObj.valueType
  | .cell mdd _, tuple =>
    match tuple.lookup mdd with
    | some (.mdd cellType) => .ok cellType
    | some .point => .error 399
    | none => .error 357
  | .coordinate iteratorName _, tuple =>
    match tuple.lookup iteratorName with
    | some .point => .ok (.atomic .long)
    | some (.mdd _) => .error 391
    | none => .error 357
  | .binary op input1 input2, tuple =>
    match input1.checkType tuple, input2.checkType tuple with
    | .ok t, .ok u =>
      match Ops.getResultType op t u with
      | some r => .ok r
      | none => .error 365
    | .error e, _ => .error e
    | _, .error e => .error e
  | .condense _ iteratorName _ input2, tuple => input2.checkType (tuple ++ [(iteratorName, .point)])
  | .condenseWhere _ iteratorName _ condOp input2, tuple =>
    match input2.checkType (tuple ++ [(iteratorName, .point)]),
      condOp.checkType (tuple ++ [(iteratorName, .point)]) with
    | .ok t, .ok (.atomic .bool) => .ok t
    | .ok _, .ok _ => .error 413
    | .error e, _ => .error e
    | _, .error e => .error e

/-- The type in which a condenser accumulates cells of a type. -/
def resBaseType : BaseType → BaseType
  | .atomic .float => .atomic .double
  | .atomic .char => .atomic .ulong
  | .atomic .ushort => .atomic .ulong
  | .atomic .octet => .atomic .long
  | .atomic .short => .atomic .long
  | t => t

/-- A buffer read as one of another type, which is to be no longer. -/
def readAs (t : BaseType) (v : QtScalarData layout) : Option (QtScalarData layout) :=
  if h : t.getSize layout ≤ v.valueType.getSize layout then
    some ⟨t, (v.valueBuffer.take (t.getSize layout)).cast (by omega)⟩
  else none

variable (m : Arithmetic layout)

/-- The accumulator takes in one cell: the operation reads it as a value of the announced type. -/
def accumulate (op : OpType) (cellType : BaseType)
    (accu : Vector UInt8 ((resBaseType cellType).getSize layout)) (v : QtScalarData layout) :
    Option (Vector UInt8 ((resBaseType cellType).getSize layout)) := do
  m.binaryOp op (resBaseType cellType) ⟨resBaseType cellType, accu⟩ (← readAs cellType v)

/-- `evaluate`, for an expression whose types have been checked with a type tuple; nothing when an
exception is thrown. -/
def evaluate : QtScalarExp layout → QtTypeTuple → Bindings layout → Option (QtScalarData layout)
  | .const dataObj, _, _ => some dataObj
  | .cell mdd index, _, bindings =>
    match bindings.lookup mdd with
    | some (.mdd cellType content) => do
      let p ← index bindings
      some ⟨cellType, content p⟩
    | _ => none
  | .coordinate iteratorName index, _, bindings =>
    match bindings.lookup iteratorName with
    | some (.point p) => do
      let x ← p[index]?
      some ⟨.atomic .long, m.signedValue x⟩
    | _ => none
  | .binary op input1 input2, tuple, bindings => do
    let v ← input1.evaluate tuple bindings
    let w ← input2.evaluate tuple bindings
    match (QtScalarExp.binary op input1 input2).checkType tuple with
    | .ok dataStreamType => do
      let buffer ← m.binaryOp op dataStreamType v w
      some ⟨dataStreamType, buffer⟩
    | .error _ => none
  | .condense op iteratorName domain input2, tuple, bindings => do
    let points ← domain bindings
    match input2.checkType (tuple ++ [(iteratorName, .point)]) with
    | .ok cellType => do
      let accu ← points.foldlM (fun accu p => do
          let v ← input2.evaluate (tuple ++ [(iteratorName, .point)])
            (bindings ++ [(iteratorName, .point p)])
          accumulate m op cellType accu v) (m.condenseInit op (resBaseType cellType))
      some ⟨resBaseType cellType, accu⟩
    | .error _ => none
  | .condenseWhere op iteratorName domain condOp input2, tuple, bindings => do
    let points ← domain bindings
    match input2.checkType (tuple ++ [(iteratorName, .point)]) with
    | .ok cellType => do
      let accu ← points.foldlM (fun accu p => do
          let cond ← condOp.evaluate (tuple ++ [(iteratorName, .point)])
            (bindings ++ [(iteratorName, .point p)])
          if m.unsignedValue cond then do
            let v ← input2.evaluate (tuple ++ [(iteratorName, .point)])
              (bindings ++ [(iteratorName, .point p)])
            accumulate m op cellType accu v
          else some accu) (m.condenseInit op (resBaseType cellType))
      some ⟨resBaseType cellType, accu⟩
    | .error _ => none

end QtScalarExp

/-! ## An array of values -/

/-- `QLMarrayOp::operator()` on the memory of the result tile: the buffer of the value is copied to a
place, all of it. -/
def marrayOp (v : QtScalarData layout) (result : ℕ) (memory : ℕ → UInt8) : ℕ → UInt8 := fun i =>
  if h : result ≤ i ∧ i < result + v.valueType.getSize layout then v.valueBuffer[i - result]
  else memory i

/-- The bytes of a cell in a tile of cells of a type. -/
def cellBytes (layout : Layout) (cellType : BaseType) (k : ℕ) : Finset ℕ :=
  .Ico (k * cellType.getSize layout) ((k + 1) * cellType.getSize layout)

/-- Writing a value as the cell `k` of a tile can change the bytes of this cell and no others. -/
def WritesOneCell (cellType : BaseType) (k : ℕ) (v : QtScalarData layout) : Prop :=
  ∀ i, (∃ memory, marrayOp v (k * cellType.getSize layout) memory i ≠ memory i) ↔
    i ∈ cellBytes layout cellType k

/-- What `checkType` knows of bound data. -/
def Bound.typeElement : Bound layout → QtTypeElement
  | .mdd cellType _ => .mdd cellType
  | .point _ => .point

/-- The type tuple of some bindings. -/
def Bindings.types (bindings : Bindings layout) : QtTypeTuple :=
  bindings.map fun b => (b.1, b.2.typeElement)

/-- A condenser over cells of one of the types that it widens. -/
def QtScalarExp.Widens (T : BaseType) : QtScalarExp layout → Prop
  | .condense .. | .condenseWhere .. =>
    T = .atomic .char ∨ T = .atomic .ushort ∨ T = .atomic .octet ∨ T = .atomic .short ∨
      T = .atomic .float
  | _ => False

/-! ## Types agree -/

section Agree

variable {T : BaseType} {v : QtScalarData layout} {k : ℕ}

theorem lookup_types (bindings : Bindings layout) (name : String) :
    bindings.types.lookup name = (bindings.lookup name).map Bound.typeElement := by
  induction bindings with
  | nil => rfl
  | cons b bindings ih =>
    obtain ⟨n, b⟩ := b
    simp only [Bindings.types, List.map_cons, List.lookup_cons]
    split
    · rfl
    · exact ih

/-- A condenser keeps the type of its cells exactly when it is not one of those it widens. -/
theorem resBaseType_eq_iff (T : BaseType) : QtScalarExp.resBaseType T = T ↔
    ¬(T = .atomic .char ∨ T = .atomic .ushort ∨ T = .atomic .octet ∨ T = .atomic .short ∨
      T = .atomic .float) := by
  rcases T with t | es
  · cases t <;> simp [QtScalarExp.resBaseType]
  · simp [QtScalarExp.resBaseType]

/-- A copy can change exactly the bytes it copies to. -/
theorem exists_marrayOp_ne_iff (result i : ℕ) :
    (∃ memory, marrayOp v result memory i ≠ memory i) ↔
      result ≤ i ∧ i < result + v.valueType.getSize layout := by
  constructor
  · rintro ⟨memory, h⟩
    by_contra hout
    exact h (dif_neg hout)
  · intro hin
    refine ⟨fun _ => v.valueBuffer[i - result] + 1, ?_⟩
    rw [marrayOp, dif_pos hin]
    simp

/-- A value is written as one cell exactly when it has the size of one. -/
theorem writesOneCell_iff (T : BaseType) (k : ℕ) (v : QtScalarData layout) :
    WritesOneCell T k v ↔ v.valueType.getSize layout = T.getSize layout := by
  unfold WritesOneCell
  simp only [exists_marrayOp_ne_iff, cellBytes, Finset.mem_Ico, Nat.succ_mul]
  constructor
  · intro h
    have hlow := h (k * T.getSize layout + v.valueType.getSize layout)
    have hhigh := h (k * T.getSize layout + T.getSize layout)
    omega
  · intro h i
    rw [h]

/-- Whether an expression is a condenser. -/
def QtScalarExp.isCondense : QtScalarExp layout → Bool
  | .condense .. | .condenseWhere .. => true
  | _ => false

/-- The type of a value: a condenser widens the announced type, every other node takes it. -/
theorem valueType_eq (m : Arithmetic layout) (e : QtScalarExp layout) (bindings : Bindings layout)
    (h : e.checkType bindings.types = .ok T) (hv : e.evaluate m bindings.types bindings = some v) :
    v.valueType = if e.isCondense then QtScalarExp.resBaseType T else T := by
  cases e with
  | const dataObj =>
    obtain rfl : dataObj.valueType = T := by simpa [QtScalarExp.checkType] using h
    obtain rfl : dataObj = v := by simpa [QtScalarExp.evaluate] using hv
    rfl
  | cell mdd index =>
    simp only [QtScalarExp.checkType, lookup_types] at h
    simp only [QtScalarExp.evaluate] at hv
    rcases hb : bindings.lookup mdd with _ | ⟨cellType, content⟩ | p <;> rw [hb] at h hv
    · cases hv
    · obtain ⟨p, -, hv⟩ := Option.bind_eq_some_iff.mp hv
      cases hv
      cases h
      rfl
    · cases hv
  | coordinate iteratorName index =>
    simp only [QtScalarExp.checkType, lookup_types] at h
    simp only [QtScalarExp.evaluate] at hv
    rcases hb : bindings.lookup iteratorName with _ | ⟨cellType, content⟩ | p <;> rw [hb] at h hv
    · cases hv
    · cases hv
    · obtain ⟨x, -, hv⟩ := Option.bind_eq_some_iff.mp hv
      cases hv
      cases h
      rfl
  | binary op input1 input2 =>
    simp only [QtScalarExp.evaluate, h] at hv
    obtain ⟨v₁, -, hv⟩ := Option.bind_eq_some_iff.mp hv
    obtain ⟨v₂, -, hv⟩ := Option.bind_eq_some_iff.mp hv
    obtain ⟨buffer, -, hv⟩ := Option.bind_eq_some_iff.mp hv
    cases hv
    rfl
  | condense op iteratorName domain input2 =>
    simp only [QtScalarExp.evaluate] at hv
    obtain ⟨points, -, hv⟩ := Option.bind_eq_some_iff.mp hv
    rw [QtScalarExp.checkType] at h
    rw [h] at hv
    obtain ⟨accu, -, hv⟩ := Option.bind_eq_some_iff.mp hv
    cases hv
    rfl
  | condenseWhere op iteratorName domain condOp input2 =>
    simp only [QtScalarExp.evaluate] at hv
    obtain ⟨points, -, hv⟩ := Option.bind_eq_some_iff.mp hv
    rw [QtScalarExp.checkType] at h
    split at h
    · next hcell _ =>
      cases h
      rw [hcell] at hv
      obtain ⟨accu, -, hv⟩ := Option.bind_eq_some_iff.mp hv
      cases hv
      rfl
    all_goals cases h

theorem widens_iff (e : QtScalarExp layout) (T : BaseType) :
    e.Widens T ↔ e.isCondense = true ∧ QtScalarExp.resBaseType T ≠ T := by
  rw [ne_eq, resBaseType_eq_iff, not_not]
  cases e <;> simp [QtScalarExp.Widens, QtScalarExp.isCondense]

/-- **The announced type is the evaluated type** of an accepted expression, and a value of it is written
as one cell of an `marray`, exactly when the expression is not a condenser that widens its cells. -/
theorem announced_type_evaluated_iff (m : Arithmetic layout) (e : QtScalarExp layout)
    (bindings : Bindings layout) (h : e.checkType bindings.types = .ok T)
    (hv : e.evaluate m bindings.types bindings = some v) :
    ((v.valueType = T ∧ v.valueType.getSize layout = T.getSize layout) ∧
      ∀ k, WritesOneCell T k v) ↔ ¬e.Widens T := by
  have htype := valueType_eq m e bindings h hv
  simp only [writesOneCell_iff, forall_const, widens_iff, not_and, not_not]
  rw [htype]
  split
  · next hc =>
    simp only [hc, forall_const]
    exact ⟨fun h => h.1.1, fun h => by simp [h]⟩
  · next hc => simp [hc]

end Agree

/-! ## Characters -/

/-- No structs are used, and every result is zero. -/
def zeros : Arithmetic fun _ => 0 where
  binaryOp _ _ _ _ := some (.replicate _ 0)
  condenseInit _ _ := .replicate _ 0
  unsignedValue _ := true
  signedValue _ := .replicate _ 0

/-- An array of characters. -/
def characters : Bindings fun _ => 0 := [("a", .mdd (.atomic .char) fun _ => .replicate _ 0)]

/-- `condense + over i in [0:1] using a[i]`. -/
def sumOfCharacters : QtScalarExp fun _ => 0 :=
  .condense .plus "i" (fun _ => some [[0], [1]]) (.cell "a" fun _ => some [0])

/-- One more than the sum keeps its type: the addition takes the type that was announced. -/
theorem announced_type_evaluated_plus : ∃ v : QtScalarData fun _ => 0,
    (QtScalarExp.binary .plus sumOfCharacters (.cell "a" fun _ => some [0])).evaluate zeros
      characters.types characters = some v ∧ v.valueType = .atomic .char ∧
      ∀ k, WritesOneCell (.atomic .char) k v := by
  refine ⟨⟨.atomic .char, .replicate _ 0⟩, rfl, ?_⟩
  have h := (announced_type_evaluated_iff zeros
    (.binary .plus sumOfCharacters (.cell "a" fun _ => some [0])) characters
    (T := .atomic .char) rfl (v := ⟨.atomic .char, .replicate _ 0⟩) rfl).mpr not_false
  exact ⟨h.1.1, h.2⟩

/-- The sum of characters is announced as a character, and comes out as an unsigned long. -/
theorem sum_of_characters_widened :
    ¬∀ (e : QtScalarExp fun _ => 0) (T : BaseType) (v : QtScalarData fun _ => 0),
      e.checkType characters.types = .ok T →
        e.evaluate zeros characters.types characters = some v → v.valueType = T := by
  intro h
  have htype := h sumOfCharacters (.atomic .char) ⟨.atomic .ulong, .replicate _ 0⟩ rfl rfl
  cases htype

end ScalarTypes

end Rasdaman
