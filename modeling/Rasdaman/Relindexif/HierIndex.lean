import Rasdaman.Raslib.Minterval

/-!
# Relindexif/HierIndex — the nodes of a hierarchical index

`HierIndex d α` is a `DBHierIndex`: an object id, the domain the node is responsible for, and its
key objects.  `α` is what a key object refers to.  In a leaf it is the id of a tile; in a node it is
the child itself, which the source reaches through the child's id.

`Tree d h` is an index of height `h`, all of whose leaves are at the same depth.
-/

namespace Rasdaman

/-- `OId`, as the number that identifies a persistent object. -/
abbrev OId := ℕ

/-- `KeyObject`: a domain and the object it belongs to. -/
structure KeyObject (d : ℕ) (α : Type) where
  object : α
  domain : Box d

/-- `DBHierIndex`. -/
structure HierIndex (d : ℕ) (α : Type) where
  myOId : OId
  myDomain : Box d
  myKeyObjects : List (KeyObject d α)

/-- What the key objects of an index of height `h` refer to. -/
@[reducible] def Obj (d : ℕ) : ℕ → Type
  | 0 => OId
  | h + 1 => HierIndex d (Obj d h)

/-- An index of height `h`: a leaf of tile ids, or a node of indexes one lower. -/
abbrev Tree (d h : ℕ) := HierIndex d (Obj d h)

/-- The capacity of a node.  `getOptimalSize` never answers below 8, and a configured size below 3
cannot hold the two halves of a split. -/
structure Capacity where
  maxSize : ℕ
  three_le : 3 ≤ maxSize

namespace HierIndex

variable {d : ℕ} {α : Type}

/-- `getNewInstance`: a fresh node without key objects.  The open domain of the constructor is
overwritten before it is read; `dom` stands in for it. -/
def newInstance (oid : OId) (dom : Box d) : HierIndex d α := ⟨oid, dom, []⟩

/-- `getSize`. -/
def getSize (ix : HierIndex d α) : ℕ := ix.myKeyObjects.length

/-- `isOverFull`. -/
def isOverFull (cap : Capacity) (ix : HierIndex d α) : Bool := ix.getSize ≥ cap.maxSize

/-- `setAssignedDomain`. -/
def setAssignedDomain (ix : HierIndex d α) (dom : Box d) : HierIndex d α := { ix with myDomain := dom }

/-- `insertObject(theKey, pos)`: the first key object sets the domain, later ones extend it. -/
def insertObject (ix : HierIndex d α) (key : KeyObject d α) (pos : ℕ) : HierIndex d α :=
  { ix with
    myDomain := if ix.myKeyObjects.isEmpty then key.domain else ix.myDomain.closureWith key.domain
    myKeyObjects := ix.myKeyObjects.take pos ++ key :: ix.myKeyObjects.drop pos }

/-- `clear`: take all key objects out of a node. -/
def clear (ix : HierIndex d α) : HierIndex d α := { ix with myKeyObjects := [] }

/-- `removeObject(entry)` in a leaf: the first key object with the given id goes. -/
def removeTile (ix : HierIndex d OId) (oid : OId) : HierIndex d OId :=
  { ix with myKeyObjects := ix.myKeyObjects.eraseP fun e => e.object == oid }

/-- `removeObject(entry)` in a node: the first key object that refers to the given child goes. -/
def removeChild (ix : HierIndex d (HierIndex d α)) (oid : OId) : HierIndex d (HierIndex d α) :=
  { ix with myKeyObjects := ix.myKeyObjects.eraseP fun e => e.object.myOId == oid }

/-- The node after one of its children was changed in place. -/
def withChild (ix : HierIndex d (HierIndex d α)) (child : HierIndex d α) :
    HierIndex d (HierIndex d α) :=
  { ix with
    myKeyObjects := ix.myKeyObjects.map fun e =>
      if e.object.myOId = child.myOId then { e with object := child } else e }

/-- `convert(HierIndexDS*)`: the key object under which a parent stores a node. -/
def toKey (ix : HierIndex d α) : KeyObject d (HierIndex d α) := ⟨ix, ix.myDomain⟩

section

variable (ix : HierIndex d α) (dom : Box d)

@[simp] theorem setAssignedDomain_myOId : (ix.setAssignedDomain dom).myOId = ix.myOId := rfl

@[simp] theorem setAssignedDomain_myDomain : (ix.setAssignedDomain dom).myDomain = dom := rfl

@[simp] theorem setAssignedDomain_myKeyObjects :
    (ix.setAssignedDomain dom).myKeyObjects = ix.myKeyObjects := rfl

@[simp] theorem clear_myOId : ix.clear.myOId = ix.myOId := rfl

@[simp] theorem clear_myKeyObjects : ix.clear.myKeyObjects = [] := rfl

@[simp] theorem newInstance_myOId (oid : OId) :
    (newInstance oid dom : HierIndex d α).myOId = oid := rfl

@[simp] theorem newInstance_myKeyObjects (oid : OId) :
    (newInstance oid dom : HierIndex d α).myKeyObjects = [] := rfl

@[simp] theorem toKey_object : ix.toKey.object = ix := rfl

@[simp] theorem toKey_domain : ix.toKey.domain = ix.myDomain := rfl

end

end HierIndex

end Rasdaman
