import Mathlib.Data.Int.Notation
import Mathlib.Data.List.Nodup
import Mathlib.Data.Nat.Basic
import Rasdaman.Machinery.Effect

/-!
# Qlparser/Bindings — the list of bound data while an operation tree is evaluated

`evaluate` hands one list of bound data through the whole tree.  `marray` and `condense` push the point
they iterate with and take it off again: `marray` on its own, a scalar `condense` in the destructor of
its execution object, an induced one only where that object is deleted.

`denote` is the abstract model: every sub-expression gets the list it is to see, and nothing is shared.
-/

namespace Rasdaman

open Effect

/-- What is bound: data of the query, or a point with the name of its iterator. -/
inductive QtData
  | data (id : ℕ)
  | point (iteratorName : String) (p : List ℤ)
  deriving DecidableEq

/-- How the evaluation of an expression can end early: by an exception, or by using a null pointer. -/
inductive QueryFault (X : Type)
  | exception (e : X)
  | undefined
  deriving DecidableEq

/-- Operation trees.  All nodes that push nothing are alike: they evaluate their inputs and compute. -/
inductive QtOperation
  | null
  | leaf (node : ℕ)
  | unary (node : ℕ) (input : QtOperation)
  | binary (node : ℕ) (input1 input2 : QtOperation)
  | marray (iteratorName : String) (input1 input2 : QtOperation)
  | condense (node : ℕ) (induced : Bool) (iteratorName : String)
      (input1 input2 condOp : QtOperation)
  deriving DecidableEq

/-- Whether a pointer to an operation is null. -/
def QtOperation.isNull : QtOperation → Bool
  | .null => true
  | _ => false

/-- A binary operation on cells as a scalar condenser uses it: its neutral element and itself. -/
structure CellBinOp (V : Type) where
  condenseInit : V
  accuOp : V → V → V

/-- What the nodes compute, over any values and exceptions.  What may throw is given the number of the
call, so that it may throw at any point of an evaluation. -/
structure Computes (V X : Type) where
  /-- A node from its operands; the result may be a null pointer. -/
  compute : ℕ → List QtData → ℕ → List V → Except X (Option V)
  /-- The origin of a domain, when its bounds are fixed. -/
  origin : V → Except X (List ℤ)
  /-- The tile of an `marray` over a domain. -/
  newTile : ℕ → V → Except X Unit
  /-- The points that a loop over a domain visits, and what ends it if it does not just end. -/
  visits : V → List (List ℤ) × Option X
  /-- The value of an `marray` over a domain from the values of its cells. -/
  mdd : V → List (Option V) → V
  /-- Whether a condition holds. -/
  unsignedValue : V → Bool
  /-- `Ops::getBinaryOp` for the operation and the cell type of a condenser.  It knows no conjunction
  of floating point cells, for one: the pointer is then null. -/
  getBinaryOp : ℕ → Option (CellBinOp V)
  /-- The operation of an induced condenser. -/
  computeBinaryMDDOp : ℕ → V → V → Except X V

/-! ## The code -/

/-- The list of bound data, and a record: the calls made, the exceptions thrown by what was called, the
execution objects created and the deletions of execution objects. -/
structure Store (X : Type) where
  dataList : List QtData
  calls : ℕ := 0
  thrown : List X := []
  created : ℕ := 0
  deleted : List ℕ := []
  deriving DecidableEq

/-- An evaluation with a shared list. -/
abbrev Evaluation (V X : Type) := Eff (Computes V X) (QueryFault X) (Store X)

variable {V X A : Type}

namespace Evaluation

/-- A call of something that may throw. -/
def call (f : Computes V X → ℕ → List QtData → Except X A) : Evaluation V X A := do
  let c ← read
  let s ← get
  match f c s.calls s.dataList with
  | .ok a =>
    set { s with calls := s.calls + 1 }
    pure a
  | .error e =>
    set { s with calls := s.calls + 1, thrown := s.thrown ++ [e] }
    throw (.exception e)

/-- `catch (...)`: the use of a null pointer is not caught. -/
def catching (x : Evaluation V X A) (handle : X → Evaluation V X A) : Evaluation V X A :=
  tryCatch x fun
    | .exception e => handle e
    | .undefined => throw .undefined

/-- `dataList->push_back`. -/
def pushBack (d : QtData) : Evaluation V X Unit :=
  modify fun s => { s with dataList := s.dataList ++ [d] }

/-- `dataList->pop_back`. -/
def popBack : Evaluation V X Unit := modify fun s => { s with dataList := s.dataList.dropLast }

/-- `dataList->back()->setPointData`; the last element has to be a point. -/
def setPointData (p : List ℤ) : Evaluation V X Unit := do
  let s ← get
  match s.dataList.getLast? with
  | some (.point name _) => set { s with dataList := s.dataList.dropLast ++ [QtData.point name p] }
  | _ => throw .undefined

/-- `new`, for an execution object. -/
def newObject : Evaluation V X ℕ := do
  let s ← get
  set { s with created := s.created + 1 }
  pure s.created

/-- `delete`, for an execution object. -/
def deleteObject (object : ℕ) : Evaluation V X Unit :=
  modify fun s => { s with deleted := object :: s.deleted }

/-- A loop over the points of a domain. -/
def overPoints (domain : V) (body : A → List ℤ → Evaluation V X A) (a : A) : Evaluation V X A := do
  let c ← read
  let a ← (c.visits domain).1.foldlM (fun a p => do setPointData p; body a p) a
  match (c.visits domain).2 with
  | none => pure a
  | some e => call fun _ _ _ => .error e

/-- Whether the current cell is valid. -/
def cellValid (condOp : QtOperation) (evaluated : Evaluation V X (Option V)) : Evaluation V X Bool := do
  if condOp.isNull then pure true
  else
    match ← evaluated with
    | none => throw .undefined
    | some v => pure ((← read).unsignedValue v)

/-- `evaluateScalarOp`: after the catch block the result is a null pointer, and is copied from. -/
def evaluateScalarOp (iteratorName : String) (domain : V) (initVal : V)
    (body : V → List ℤ → Evaluation V X V) : Evaluation V X (Option V) := do
  let qlCondenseOp ← newObject
  pushBack (.point iteratorName [])
  let result ← catching (overPoints domain body initVal) fun _ => do
    deleteObject qlCondenseOp
    popBack
    throw .undefined
  deleteObject qlCondenseOp
  popBack
  pure (some result)

/-- `evaluateInducedOp`: the execution object is only deleted in the catch block. -/
def evaluateInducedOp (iteratorName : String) (domain : V)
    (body : Option V → List ℤ → Evaluation V X (Option V)) : Evaluation V X (Option V) := do
  let qlInducedCondenseOp ← newObject
  pushBack (.point iteratorName [])
  catching (overPoints domain body none) fun _ => do
    deleteObject qlInducedCondenseOp
    popBack
    pure none

/-- `QtMarrayOp::evaluate`, from its domain on. -/
def evaluateMarray (iteratorName : String) (domain : V) (cell : Evaluation V X (Option V)) :
    Evaluation V X (Option V) := do
  let origin ← call fun c _ _ => c.origin domain
  pushBack (.point iteratorName origin)
  call fun c n _ => c.newTile n domain
  let qlMarrayOp ← newObject
  let cells ← catching (overPoints domain (fun cells _ => do pure (cells ++ [← cell])) [])
    fun e => do
      deleteObject qlMarrayOp
      popBack
      throw (.exception e)
  deleteObject qlMarrayOp
  popBack
  pure (some ((← read).mdd domain cells))

/-- `QLCondenseOp::operator()`, after the point is set. -/
def condenseCell (accuOp : V → V → V) (condOp : QtOperation) (cond cell : Evaluation V X (Option V))
    (accu : V) : Evaluation V X V := do
  if ← cellValid condOp cond then
    match ← cell with
    | none => pure accu
    | some v => pure (accuOp accu v)
  else pure accu

/-- `QLInducedCondenseOp::operator()`, after the point is set. -/
def inducedCell (myOp : Option (CellBinOp V)) (condOp : QtOperation)
    (cond cell : Evaluation V X (Option V)) (accumulatedValue : Option V) :
    Evaluation V X (Option V) := do
  if ← cellValid condOp cond then
    match accumulatedValue, ← cell with
    | none, resultData => pure resultData
    | some _, none => throw .undefined
    | some a, some v =>
      match myOp with
      | none => throw .undefined
      | some _ => do pure (some (← call fun c n _ => c.computeBinaryMDDOp n a v))
  else pure accumulatedValue

end Evaluation

open Evaluation in
/-- `evaluate`; nothing when it returns a null pointer. -/
def QtOperation.evaluate : QtOperation → Evaluation V X (Option V)
  | .null => pure none
  | .leaf node => call fun c n l => c.compute n l node []
  | .unary node input => do
    match ← input.evaluate with
    | none => pure none
    | some v => call fun c n l => c.compute n l node [v]
  | .binary node input1 input2 => do
    match ← input1.evaluate, ← input2.evaluate with
    | some v, some w => call fun c n l => c.compute n l node [v, w]
    | _, _ => pure none
  | .marray iteratorName input1 input2 => do
    match ← (if input1.isNull then input2.evaluate else input1.evaluate) with
    | none => pure none
    | some domain => evaluateMarray iteratorName domain input2.evaluate
  | .condense node induced iteratorName input1 input2 condOp => do
    match ← (if input1.isNull then input2.evaluate else input1.evaluate) with
    | none => pure none
    | some domain => do
      let cellBinOp := (← read).getBinaryOp node
      if induced then
        evaluateInducedOp iteratorName domain fun accu _ =>
          inducedCell cellBinOp condOp condOp.evaluate input2.evaluate accu
      else
        match cellBinOp with
        -- the constructor of `GenCondenseOp` calls through the pointer, before the point is bound
        | none => throw .undefined
        | some accuOp =>
          evaluateScalarOp iteratorName domain accuOp.condenseInit fun accu _ =>
            condenseCell accuOp.accuOp condOp condOp.evaluate input2.evaluate accu

/-! ## The abstract model -/

/-- The calls made, and whether the evaluation has come to one of the places where the code goes
astray. -/
structure Record where
  calls : ℕ := 0
  astray : Bool := false
  deriving DecidableEq

/-- An evaluation in which nothing is shared. -/
abbrev Meaning (V X : Type) := Eff (Computes V X) X Record

namespace Meaning

/-- A call of something that may throw, which sees a list of bound data. -/
def call (l : List QtData) (f : Computes V X → ℕ → List QtData → Except X A) : Meaning V X A := do
  let c ← read
  let r ← get
  set { r with calls := r.calls + 1 }
  match f c r.calls l with
  | .ok a => pure a
  | .error e => throw e

/-- Here the code goes astray. -/
def goAstray : Meaning V X Unit := modify fun r => { r with astray := true }

/-- Where an exception leads the code astray. -/
def unlessThrown (x : Meaning V X A) : Meaning V X A :=
  tryCatch x fun e => do
    goAstray
    throw e

/-- A loop over the points of a domain. -/
def overPoints (l : List QtData) (domain : V) (body : A → List ℤ → Meaning V X A) (a : A) :
    Meaning V X A := do
  let c ← read
  let a ← (c.visits domain).1.foldlM body a
  match (c.visits domain).2 with
  | none => pure a
  | some e => call l fun _ _ _ => .error e

/-- Whether a cell counts; a condition without a value leads the code astray. -/
def cellValid (condOp : QtOperation) (denoted : Meaning V X (Option V)) : Meaning V X Bool := do
  if condOp.isNull then pure true
  else
    match ← denoted with
    | none => do
      goAstray
      pure false
    | some v => pure ((← read).unsignedValue v)

/-- One cell of a scalar condenser. -/
def condenseCell (accuOp : V → V → V) (condOp : QtOperation) (cond cell : Meaning V X (Option V))
    (accu : V) : Meaning V X V := do
  if ← cellValid condOp cond then
    match ← cell with
    | none => pure accu
    | some v => pure (accuOp accu v)
  else pure accu

/-- A scalar condenser over a domain. -/
def scalarOp (l : List QtData) (domain initVal : V) (body : V → List ℤ → Meaning V X V) :
    Meaning V X (Option V) := do
  let result ← unlessThrown (overPoints l domain body initVal)
  pure (some result)

/-- An `marray` over a domain. -/
def marrayOp (l : List QtData) (domain : V) (cell : List ℤ → Meaning V X (Option V)) :
    Meaning V X (Option V) := do
  let _ ← call l fun c _ _ => c.origin domain
  unlessThrown (call l fun c n _ => c.newTile n domain)
  let cells ← overPoints l domain (fun cells p => do pure (cells ++ [← cell p])) []
  pure (some ((← read).mdd domain cells))

end Meaning

open Meaning in
/-- The value of an operation tree over a list of bound data, when every exception is passed on. -/
def QtOperation.denote : QtOperation → List QtData → Meaning V X (Option V)
  | .null, _ => pure none
  | .leaf node, l => call l fun c n l => c.compute n l node []
  | .unary node input, l => do
    match ← input.denote l with
    | none => pure none
    | some v => call l fun c n l => c.compute n l node [v]
  | .binary node input1 input2, l => do
    match ← input1.denote l, ← input2.denote l with
    | some v, some w => call l fun c n l => c.compute n l node [v, w]
    | _, _ => pure none
  | .marray iteratorName input1 input2, l => do
    match ← (if input1.isNull then input2.denote l else input1.denote l) with
    | none => pure none
    | some domain => marrayOp l domain fun p => input2.denote (l ++ [.point iteratorName p])
  | .condense node induced iteratorName input1 input2 condOp, l => do
    match ← (if input1.isNull then input2.denote l else input1.denote l) with
    | none => pure none
    | some domain => do
      let cellBinOp := (← read).getBinaryOp node
      if induced then do
        goAstray
        pure none
      else
        match cellBinOp with
        | none => do
          goAstray
          pure none
        | some accuOp =>
          scalarOp l domain accuOp.condenseInit fun accu p => condenseCell accuOp.accuOp condOp
            (condOp.denote (l ++ [.point iteratorName p]))
            (input2.denote (l ++ [.point iteratorName p])) accu

/-! ## The list after an evaluation

An evaluation is judged by the list it leaves, by what became of the exceptions, and by the deletions.
-/

/-- **The binding list survives:** it is what it was, an exception that was thrown is the outcome and
nothing was thrown otherwise, no null pointer was used, and no object was deleted twice. -/
def Survives (c : Computes V X) (e : QtOperation) (l : List QtData) : Prop :=
  let r := exec (e.evaluate : Evaluation V X (Option V)) c { dataList := l }
  r.2.dataList = l ∧ r.2.deleted.Nodup ∧
    match r.1 with
    | .ok _ => r.2.thrown = []
    | .error (.exception e) => r.2.thrown = [e]
    | .error .undefined => False

/-- The evaluation comes to no place where the code goes astray: no induced condenser is reached, none
is without an operation on its cells, no cell of a scalar condenser throws or has a condition without a
value, and no `marray` fails to get its tile. -/
def StaysClear (c : Computes V X) (e : QtOperation) (l : List QtData) : Prop :=
  (exec (e.denote l : Meaning V X (Option V)) c {}).2.astray = false

end Rasdaman
