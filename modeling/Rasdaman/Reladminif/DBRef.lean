import Rasdaman.Machinery.Effect
import Rasdaman.Machinery.References
import Rasdaman.Reladminif.DBObject

/-!
# Reladminif/DBRef — counted references to persistent objects

A `DBRef` has a pointer to an object, or only its id and loads the object when it is used.  It tells the
object when it comes and goes; the object that loses its last reference deletes itself unless it is cached.
An operation that touches a deleted object ends in `outside`.
-/

namespace Rasdaman

open OIdType Effect

/-- `DBRef<T>`. -/
structure DBRef where
  object : Option ℕ
  objId : TypedOId
  pointerValid : Bool
  deriving DecidableEq, Repr

/-- Objects, and references by name. -/
structure RefWorld where
  memory : ObjectMemory
  names : Finset ℕ
  ref : ℕ → DBRef
  pointerCaching : Bool

/-- A piece of code over objects and references. -/
abbrev RefOp (α : Type) := Eff Unit Halt RefWorld α

namespace RefWorld

/-- With another object at an address. -/
def setObject (w : RefWorld) (a : ℕ) (o : DBObject) : RefWorld :=
  { w with memory := w.memory.setObject a (some o) }

/-- With another reference under a name. -/
def setRef (w : RefWorld) (r : ℕ) (d : DBRef) : RefWorld := { w with ref := Function.update w.ref r d }

/-- With a new reference. -/
def construct (w : RefWorld) (r : ℕ) (d : DBRef) : RefWorld :=
  { w with names := insert r w.names, ref := Function.update w.ref r d }

/-- Without a reference. -/
def erase (w : RefWorld) (r : ℕ) : RefWorld := { w with names := w.names.erase r }

@[simp] theorem setRef_self (w : RefWorld) (r : ℕ) (d : DBRef) : (w.setRef r d).ref r = d :=
  Function.update_self _ _ _

@[simp] theorem setRef_memory (w : RefWorld) (r : ℕ) (d : DBRef) : (w.setRef r d).memory = w.memory :=
  rfl

@[simp] theorem setRef_pointerCaching (w : RefWorld) (r : ℕ) (d : DBRef) :
    (w.setRef r d).pointerCaching = w.pointerCaching := rfl

@[simp] theorem setRef_setRef (w : RefWorld) (r : ℕ) (d d' : DBRef) :
    (w.setRef r d).setRef r d' = w.setRef r d' := by
  simp [setRef]

theorem setRef_ne (w : RefWorld) {r s : ℕ} (d : DBRef) (h : s ≠ r) : (w.setRef r d).ref s = w.ref s :=
  Function.update_of_ne h _ _

end RefWorld

/-! ## Objects -/

namespace DBObject

/-- The object at an address. -/
def fetch (a : ℕ) : RefOp DBObject := do
  match (← get).memory.objects a with
  | some o => return o
  | none => throw .outside

/-- `destroy`. -/
def destroy (a : ℕ) : RefOp Unit := do
  let o ← fetch a
  if o.referenceCount = 0 then
    if !o.isCached then
      if !(← get).memory.server.readOnlyTA then
        modify fun w => { w with memory := w.memory.delete a o }
      else if !o.isPersistent then
        modify fun w => { w with memory := w.memory.delete a o }

/-- `incrementReferenceCount`. -/
def incrementReferenceCount (a : ℕ) : RefOp Unit := do
  let o ← fetch a
  modify fun w => w.setObject a { o with referenceCount := o.referenceCount + 1 }

/-- `decrementReferenceCount`. -/
def decrementReferenceCount (a : ℕ) : RefOp Unit := do
  let o ← fetch a
  modify fun w => w.setObject a { o with referenceCount := o.referenceCount - 1 }
  if o.referenceCount - 1 = 0 then destroy a

end DBObject

/-! ## References -/

namespace DBRef

open DBObject

/-- `DBRef(const OId&)`; with the id `OId()` also `DBRef()`. -/
def ofOId (id : TypedOId) : DBRef := ⟨none, id, false⟩

/-- `DBRef(const DBRef<T>&)`. -/
def ofRef (src : DBRef) : RefOp DBRef := do
  if (← get).pointerCaching then
    match src.object with
    | some a => do
      let o ← fetch a
      incrementReferenceCount a
      return ⟨some a, o.myOId, src.pointerValid⟩
    | none => return ⟨none, src.objId, src.pointerValid⟩
  else if src.pointerValid then return ⟨src.object, src.objId, src.pointerValid⟩
  else return ⟨none, src.objId, src.pointerValid⟩

/-- `DBRef(T*)`. -/
def ofPointer (newPtr : Option ℕ) : RefOp DBRef := do
  match newPtr with
  | some a => do
    let o ← fetch a
    incrementReferenceCount a
    return ⟨some a, o.myOId, true⟩
  | none => return ⟨none, .none, false⟩

/-- The reference lets its object go, when pointers are cached. -/
def letGo (d : DBRef) : RefOp Unit := do
  match d.object with
  | some a => if (← get).pointerCaching then decrementReferenceCount a
  | none => pure ()

/-- The reference under a name. -/
def named (r : ℕ) : RefOp DBRef := do return (← get).ref r

/-- A reference gets other fields. -/
def put (r : ℕ) (d : DBRef) : RefOp Unit := modify fun w => w.setRef r d

/-- `~DBRef`. -/
def destruct (r : ℕ) : RefOp Unit := do
  let d ← named r
  letGo d
  put r { d with object := none }
  modify fun w => w.erase r

/-- `operator=(const DBRef<T>&)`; the source is read after the old object was let go. -/
def assign (r src : ℕ) : RefOp Unit := do
  letGo (← named r)
  let d ← named src
  put r d
  match d.object with
  | some a =>
    if (← get).pointerCaching then do
      let o ← fetch a
      put r { d with objId := o.myOId }
      incrementReferenceCount a
    else if d.pointerValid then do
      let o ← fetch a
      put r { d with objId := o.myOId }
  | none => pure ()

/-- `operator=(T*)`. -/
def assignPointer (r : ℕ) (newPtr : Option ℕ) : RefOp Unit := do
  letGo (← named r)
  match newPtr with
  | some a => do
    let o ← fetch a
    put r ⟨some a, o.myOId, true⟩
    incrementReferenceCount a
  | none => put r ⟨none, .none, false⟩

/-- The part of `is_null` that asks the `ObjectBroker`; `new` is the address of an object it loads. -/
def load (r new : ℕ) : RefOp Bool := do
  let d ← named r
  let (M, result) := (← get).memory.getObjectByOId new d.objId
  modify fun w => { w with memory := M }
  match result with
  | .ok (some a) => do
    incrementReferenceCount a
    put r { d with object := some a }
    return false
  | .ok none => throw .outside
  | .error .objectUnknown => return true
  | .error e => throw (.throws e)

/-- `is_null`. -/
def isNull (r new : ℕ) : RefOp Bool := do
  let d ← named r
  match d.object with
  | none => if d.objId.oidtype = invalid then throw (.throws .oidInvalid) else load r new
  | some _ =>
    if !(← get).pointerCaching && !d.pointerValid then load r new
    else return false

/-- `operator->`, `operator*`, `ptr` and the conversion to a pointer. -/
def pointer (r new : ℕ) : RefOp (Option ℕ) := do
  if ← isNull r new then throw (.throws .refNull)
  return (← named r).object

/-- `getOId`.  The id of the object goes to a copy of the reference, which comes and goes. -/
def getOId (r : ℕ) : RefOp TypedOId := do
  let d ← named r
  match d.object with
  | some a =>
    if (← get).pointerCaching then do
      let copy ← ofRef d
      let o ← fetch a
      letGo { copy with objId := o.myOId }
  | none => pure ()
  return d.objId

/-- `delete_object`. -/
def deleteObject (r new : ℕ) : RefOp Unit := do
  if ← isNull r new then
    if (← named r).objId.oidtype = invalid then throw (.throws .oidInvalid)
    else throw (.throws .objectUnknown)
  else
    let d ← named r
    match d.object with
    | some a => do
      let o ← fetch a
      let (M, thrown) := (← get).memory.setPersistent a o false
      modify fun w => { w with memory := M }
      match thrown with
      | some e => throw (.throws e)
      | none => do
        decrementReferenceCount a
        put r { d with object := none, objId := .none }
    | none => throw .outside

/-- `release`. -/
def release (r : ℕ) : RefOp Unit := do
  let d ← named r
  letGo d
  put r { d with object := none }

end DBRef

end Rasdaman
