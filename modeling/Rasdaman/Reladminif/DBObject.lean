import Mathlib.Data.Finset.Basic
import Rasdaman.Reladminif.OIdIf

/-!
# Reladminif/DBObject — persistent objects in memory and their rows

A `DBObject` has flags that say what is to happen with its row, and the `ObjectBroker` finds it by its object
id.  `ObjectMemory` holds the objects by address, what the broker maps, the rows of the database and the counters
of object ids.
-/

namespace Rasdaman

open OIdType

/-- `OId`: a number and what it identifies. -/
structure TypedOId where
  oidtype : OIdType
  oid : ℕ
  deriving DecidableEq, Repr

/-- `OId()`. -/
def TypedOId.none : TypedOId := ⟨invalid, 0⟩

/-- `INVALID_OIDTYPE`. -/
def invalidOIdType : RError := .errorNo 2001

/-- `DBObject`. -/
structure DBObject where
  isPersistent : Bool
  isInDatabase : Bool
  isModified : Bool
  isCached : Bool
  myOId : TypedOId
  objecttype : OIdType
  referenceCount : ℤ
  deriving DecidableEq, Repr

/-- What a server process and its database hold: the objects by address, the maps of the `ObjectBroker`
(a key says by its type which map it is in), the ids that have a row, and the static data of the server. -/
structure ObjectMemory where
  objects : ℕ → Option DBObject
  maps : TypedOId → Option ℕ
  rows : Finset TypedOId
  server : OIdIf.Server

/-- `getMap` returns a map; for other types it throws. -/
def OIdType.hasMap : OIdType → Bool
  | invalid | innerOId | udfOId | udfPackageOId => false
  | _ => true

/-- The virtual functions that `validate` calls. -/
inductive DbCall
  | updateInDb
  | insertInDb
  | deleteFromDb
  deriving DecidableEq, Repr

namespace DBObject

/-- `DBObject()`, after the constructor of the class has set the object type. -/
def new (objecttype : OIdType) : DBObject := ⟨false, false, true, false, .none, objecttype, 0⟩

/-- The object that the `ObjectBroker` loads for an id: `DBObject(id)`, `readFromDb`, and `setCached(true)`
for indexes. -/
def loaded (id : TypedOId) : DBObject :=
  ⟨true, true, false, id.oidtype ∈ [mddHierIxOId, dbTCIndexOId, mddRCIxOId], id, id.oidtype, 0⟩

/-- `DBObject(const DBObject&)`; the reference count is copied, too. -/
def copied (old : DBObject) : DBObject :=
  ⟨old.isPersistent, old.isInDatabase, old.isModified, old.isCached, old.myOId, old.objecttype,
    old.referenceCount⟩

/-- `setModified`. -/
def setModified (o : DBObject) : DBObject := { o with isModified := true }

/-- `setCached`. -/
def setCached (o : DBObject) (newCached : Bool) : DBObject := { o with isCached := newCached }

/-- What `validate` calls. -/
def dbCall (o : DBObject) (sv : OIdIf.Server) : Option DbCall :=
  if o.isModified then
    if sv.readOnlyTA then none
    else if sv.aborted then none
    else if o.isInDatabase then
      if o.isPersistent then some .updateInDb else some .deleteFromDb
    else if o.isPersistent then some .insertInDb
    else none
  else none

/-- `DBObject::updateInDb`, `DBObject::insertInDb` and `DBObject::deleteFromDb`. -/
def performed (o : DBObject) : DbCall → DBObject
  | .updateInDb => { o with isModified := false, isInDatabase := true, isPersistent := true }
  | .insertInDb => { o with isModified := false, isInDatabase := true, isPersistent := true }
  | .deleteFromDb => { o with isModified := false, isInDatabase := false, isPersistent := false }

end DBObject

namespace ObjectMemory

variable (M : ObjectMemory)

/-- The memory with an object at an address, or with none. -/
def setObject (a : ℕ) (o : Option DBObject) : ObjectMemory :=
  { M with objects := Function.update M.objects a o }

/-- What is done with the object at an address, when there is one. -/
def withObject (a : ℕ) (f : DBObject → ObjectMemory) : ObjectMemory :=
  match M.objects a with
  | some o => f o
  | none => M

/-- `registerDBObject`; `insert` does not replace an entry. -/
def registerDBObject (a : ℕ) (id : TypedOId) : ObjectMemory × Option RError :=
  if id.oidtype.hasMap then
    match M.maps id with
    | none => ({ M with maps := Function.update M.maps id (some a) }, none)
    | some _ => (M, none)
  else (M, some invalidOIdType)

/-- `deregisterDBObject`, whatever object the id is mapped to. -/
def deregisterDBObject (id : TypedOId) : ObjectMemory :=
  if id.oidtype.hasMap then { M with maps := Function.update M.maps id none } else M

/-- `setPersistent` of the object at an address; the exception that it throws, if any. -/
def setPersistent (a : ℕ) (o : DBObject) (newPersistent : Bool) : ObjectMemory × Option RError :=
  if newPersistent then
    if o.isPersistent then (M, none)
    else if M.server.readOnlyTA then (M, some .transactionReadOnly)
    else
      match OIdIf.allocateOId M.server o.objecttype 1 with
      | .ok (oid, sv) =>
        let o := { o with isPersistent := true, isModified := true, myOId := ⟨o.objecttype, oid⟩ }
        let M := { M with server := sv }
        (M.setObject a (some o)).registerDBObject a o.myOId
      | .error _ => (M, some .creatingOIdFailed)
  else if o.isPersistent then
    if M.server.readOnlyTA then (M, some .transactionReadOnly)
    else (M.setObject a (some { o with isPersistent := false, isModified := true }), none)
  else (M, none)

/-- A virtual function acts on the row with the object's id and then on its flags.  Where there is no row,
an update changes nothing. -/
def perform (a : ℕ) (o : DBObject) (call : DbCall) : ObjectMemory :=
  let rows := match call with
    | .updateInDb => M.rows
    | .insertInDb => insert o.myOId M.rows
    | .deleteFromDb => M.rows.erase o.myOId
  { M.setObject a (some (o.performed call)) with rows := rows }

/-- `validate` of the object at an address. -/
def validate (a : ℕ) (o : DBObject) : ObjectMemory :=
  match o.dbCall M.server with
  | some call => M.perform a o call
  | none => M

/-- `getObjectByOId`, when a new object would be at address `a`: the address of the object or the null
pointer, or what is thrown. -/
def getObjectByOId (a : ℕ) (id : TypedOId) : ObjectMemory × Except RError (Option ℕ) :=
  if id.oidtype = invalid then (M, .ok none)
  else if id.oidtype.hasMap then
    match M.maps id with
    | some b => (M, .ok (some b))
    | none =>
      if id.oidtype = atomicTypeOId then (M, .error invalidOIdType)
      else if id ∈ M.rows then
        (((M.setObject a (some (.loaded id))).registerDBObject a id).1, .ok (some a))
      else (M, .error .objectUnknown)
  else (M, .error invalidOIdType)

/-- `~DBObject`. -/
def delete (a : ℕ) (o : DBObject) : ObjectMemory := (M.setObject a none).deregisterDBObject o.myOId

/-- The destructor changes nothing but its object and the maps. -/
theorem delete_eq (a : ℕ) (o : DBObject) :
    (M.delete a o).objects = Function.update M.objects a none ∧ (M.delete a o).rows = M.rows ∧
      (M.delete a o).server = M.server := by
  rw [delete, deregisterDBObject]
  split <;> exact ⟨rfl, rfl, rfl⟩

theorem maps_delete (a : ℕ) (o : DBObject) (id : TypedOId) : (M.delete a o).maps id =
    if id = o.myOId ∧ o.myOId.oidtype.hasMap = true then none else M.maps id := by
  rw [delete, deregisterDBObject]
  by_cases hmap : o.myOId.oidtype.hasMap = true
  · rw [if_pos hmap]
    by_cases hid : id = o.myOId
    · simp [hid, hmap]
    · simp [hid, setObject]
  · rw [if_neg hmap, if_neg fun h => hmap h.2]
    rfl

end ObjectMemory

end Rasdaman
