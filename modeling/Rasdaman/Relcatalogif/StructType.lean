import Mathlib

/-!
# Relcatalogif/StructType — base types on the server and their cells

A base type is atomic or a struct.  `StructType::addElement` gives each element of a struct an offset,
aligned as the element asks for, and `calcSize` rounds the size of a cell up.  Offsets and sizes are of type
`unsigned int`: `addElementPriv` and `calcSizeUnsigned` count as the code does, `addElement` and `calcSize`
are the layout without that bound.  The parts of `getTypeStructure` describe a type to the clients.
-/

namespace Rasdaman

/-! ## Types -/

/-- The atomic types. -/
inductive AtomicType
  | octet
  | ushort
  | short
  | ulong
  | long
  | bool
  | char
  | float
  | double
  | complex1
  | complex2
  deriving DecidableEq, Repr

mutual

/-- A `BaseType`. -/
inductive BaseType
  | atomic (type : AtomicType)
  | struct (elements : Elements)

/-- The elements that were added to a struct, in order. -/
inductive Elements
  | last (elemName : List Char) (newType : BaseType)
  | cons (elemName : List Char) (newType : BaseType) (rest : Elements)

end

namespace AtomicType

/-- The size that the constructor of the type sets. -/
def size : AtomicType → ℕ
  | octet => 1
  | ushort => 2
  | short => 2
  | ulong => 4
  | long => 4
  | bool => 1
  | char => 1
  | float => 4
  | double => 8
  | complex1 => 8
  | complex2 => 16

/-- `getTypeName`. -/
def getTypeName : AtomicType → String
  | octet => "Octet"
  | ushort => "UShort"
  | short => "Short"
  | ulong => "ULong"
  | long => "Long"
  | bool => "Bool"
  | char => "Char"
  | float => "Float"
  | double => "Double"
  | complex1 => "complex"
  | complex2 => "complexd"

theorem size_pos (a : AtomicType) : 0 < a.size := by cases a <;> decide

end AtomicType

/-! ## The cells of a struct -/

/-- What `StructType` asks a base type: `getType` for a struct, `getSize` and `getAlignment`. -/
structure TypeInfo where
  isStruct : Bool
  size : ℕ
  alignment : ℕ
  deriving DecidableEq, Repr

/-- An element of a struct: `elements`, `elementNames` and `elementOffsets` at one position. -/
structure StructElement where
  type : TypeInfo
  elemName : List Char
  offset : ℕ
  deriving DecidableEq, Repr

/-- `StructType`. -/
structure StructType where
  elements : List StructElement
  align : ℕ
  size : ℕ
  deriving DecidableEq, Repr

/-- `((x - 1) / a + 1) * a`: the next multiple of `a`. -/
def alignUp (x a : ℕ) : ℕ := ((x - 1) / a + 1) * a

/-- The same in `unsigned int`, where 0 has a predecessor and the result may wrap. -/
def alignUnsigned (x a : ℕ) : ℕ := ((x + (2 ^ 32 - 1)) % 2 ^ 32 / a + 1) * a % 2 ^ 32

namespace StructType

/-- `StructType()`. -/
def new : StructType := ⟨[], 1, 0⟩

/-- The loop of `calcSize` over the elements. -/
def alignSize : List StructElement → ℕ → ℕ
  | [], size => size
  | e :: es, size =>
    if e.type.size = 4 ∨ e.type.isStruct then 4
    else if e.type.size = 2 then alignSize es 2
    else alignSize es size

/-- Where the elements so far end. -/
def endOf (es : List StructElement) : ℕ :=
  match es.getLast? with
  | some e => e.offset + e.type.size
  | none => 0

/-- `calcSize`, without a bound on sizes. -/
def calcSize (s : StructType) : StructType :=
  { s with size := alignUp (endOf s.elements) (alignSize s.elements 1) }

/-- `addElement`, for a struct that is not persistent and without a bound on offsets. -/
def addElement (s : StructType) (elemName : List Char) (newType : TypeInfo) : StructType :=
  let s :=
    if s.elements = [] then { s with elements := [⟨newType, elemName, 0⟩] }
    else if newType.isStruct then
      { s with
        align := max s.align newType.alignment
        elements := s.elements ++ [⟨newType, elemName, alignUp (endOf s.elements) newType.alignment⟩] }
    else if newType.size ≥ 4 then
      { s with
        align := max s.align 4
        elements := s.elements ++ [⟨newType, elemName, alignUp (endOf s.elements) 4⟩] }
    else if newType.size = 2 then
      { s with
        align := max s.align 2
        elements := s.elements ++ [⟨newType, elemName, alignUp (endOf s.elements) 2⟩] }
    else if newType.size = 1 then
      { s with elements := s.elements ++ [⟨newType, elemName, endOf s.elements⟩] }
    else
      -- other sizes do not occur; the element would replace the first one
      { s with elements := s.elements.modify 0 fun e => ⟨newType, elemName, e.offset⟩ }
  s.calcSize

/-- `calcSize`. -/
def calcSizeUnsigned (s : StructType) : StructType :=
  { s with size := alignUnsigned (endOf s.elements) (alignSize s.elements 1) }

/-- `addElementPriv`. -/
def addElementPriv (s : StructType) (elemName : List Char) (newType : TypeInfo) : StructType :=
  let append (offset : ℕ) := s.elements ++ [⟨newType, elemName, offset⟩]
  let s :=
    if s.elements = [] then { s with elements := [⟨newType, elemName, 0⟩] }
    else if newType.isStruct then
      { s with
        align := max s.align newType.alignment
        elements := append (alignUnsigned (endOf s.elements) newType.alignment) }
    else if newType.size ≥ 4 then
      { s with
        align := max s.align 4
        elements := append (alignUnsigned (endOf s.elements) 4) }
    else if newType.size = 2 then
      { s with
        align := max s.align 2
        elements := append (alignUnsigned (endOf s.elements) 2) }
    else if newType.size = 1 then
      { s with elements := append (endOf s.elements % 2 ^ 32) }
    else
      -- other sizes do not occur; the element would replace the first one
      { s with elements := s.elements.modify 0 fun e => ⟨newType, elemName, e.offset⟩ }
  s.calcSizeUnsigned

end StructType

mutual

/-- What a struct that contains a base type is told about it, were sizes not bounded. -/
def BaseType.info : BaseType → TypeInfo
  | .atomic a => ⟨false, a.size, 1⟩
  | .struct es =>
    let s := es.addTo .new
    ⟨true, s.size, s.align⟩

/-- Add elements to a struct. -/
def Elements.addTo : Elements → StructType → StructType
  | .last n t, s => s.addElement n t.info
  | .cons n t rest, s => rest.addTo (s.addElement n t.info)

end

/-- The layout of the struct with these elements. -/
def Elements.structType (es : Elements) : StructType := es.addTo .new

/-- `getSize`, were sizes not bounded. -/
def BaseType.getSize (t : BaseType) : ℕ := t.info.size

mutual

/-- What a struct that contains a base type is told about it. -/
def BaseType.infoUnsigned : BaseType → TypeInfo
  | .atomic a => ⟨false, a.size, 1⟩
  | .struct es =>
    let s := es.addPriv .new
    ⟨true, s.size, s.align⟩

/-- Add elements to a struct, one call of `addElementPriv` after the other. -/
def Elements.addPriv : Elements → StructType → StructType
  | .last n t, s => s.addElementPriv n t.infoUnsigned
  | .cons n t rest, s => rest.addPriv (s.addElementPriv n t.infoUnsigned)

end

/-- The struct that is built of these elements. -/
def Elements.built (es : Elements) : StructType := es.addPriv .new

/-! ## Type descriptions -/

mutual

/-- `getTypeStructure`: `struct { `, the elements and ` }`.  The last comma gives way to the closing brace. -/
def BaseType.getTypeStructure : BaseType → List Char
  | .atomic a => a.getTypeName.toList.map Char.toLower
  | .struct es => 's' :: 't' :: 'r' :: 'u' :: 'c' :: 't' :: ' ' :: '{' :: ' ' :: es.getTypeStructure

/-- The elements in the description of a struct, with what follows them. -/
def Elements.getTypeStructure : Elements → List Char
  | .last n t => t.getTypeStructure ++ ' ' :: (n ++ [' ', '}'])
  | .cons n t rest => t.getTypeStructure ++ ' ' :: (n ++ ',' :: ' ' :: rest.getTypeStructure)

end

/-- `MDDBaseType` and the types derived from it, `MDDDimensionType` and `MDDDomainType`. -/
inductive MDDBaseType
  | base (baseType : BaseType)
  | dimension (baseType : BaseType) (dimBuf : List Char)
  | domain (baseType : BaseType) (mdom : List Char)

/-- The start of the description of an array type. -/
def marrayText : List Char := ['m', 'a', 'r', 'r', 'a', 'y', ' ', '<']

/-- `getTypeStructure` of the types of arrays; `dimBuf` and `mdom` are the texts of the dimension and the
domain. -/
def MDDBaseType.getTypeStructure : MDDBaseType → List Char
  | .base t => marrayText ++ (t.getTypeStructure ++ ['>'])
  | .dimension t dimBuf => marrayText ++ (t.getTypeStructure ++ ',' :: ' ' :: (dimBuf ++ ['>']))
  | .domain t mdom => marrayText ++ (t.getTypeStructure ++ ',' :: ' ' :: (mdom ++ ['>']))

/-- The types that the server describes. -/
inductive ServerType
  | base (baseType : BaseType)
  | mdd (mddType : MDDBaseType)
  | set (mddType : MDDBaseType)

/-- `getTypeStructure`. -/
def ServerType.getTypeStructure : ServerType → List Char
  | .base t => t.getTypeStructure
  | .mdd m => m.getTypeStructure
  | .set m => 's' :: 'e' :: 't' :: ' ' :: '<' :: (m.getTypeStructure ++ ['>'])

end Rasdaman
