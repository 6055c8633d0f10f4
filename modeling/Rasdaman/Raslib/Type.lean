import Rasdaman.Raslib.Sinterval

/-!
# Raslib/Type — the types of the client and the parser of their descriptions

`r_Structure_Type` puts its attributes one after the other.  `get_any_type` reads the description of a type
with a scanner that compares the text with the keywords before it tries an identifier.
-/

namespace Rasdaman

/-! ## Types -/

/-- `r_Type::r_Type_Id`, for the primitive types. -/
inductive PrimitiveId
  | ulong
  | ushort
  | bool
  | long
  | short
  | octet
  | double
  | float
  | char
  | complexType1
  | complexType2
  deriving DecidableEq, Repr

/-- `typeSize` of an `r_Primitive_Type`. -/
def PrimitiveId.size : PrimitiveId → ℕ
  | ulong => 4
  | ushort => 2
  | bool => 1
  | long => 4
  | short => 2
  | octet => 1
  | double => 8
  | float => 4
  | char => 1
  | complexType1 => 8
  | complexType2 => 16

mutual

/-- `r_Base_Type`: an `r_Primitive_Type` or an `r_Structure_Type` with its `typeSize`. -/
inductive RBaseType
  | primitive (typeId : PrimitiveId)
  | structure (attributes : RAttributes) (typeSize : ℕ)
  deriving Repr

/-- The array of `r_Attribute`s of a structure: names, types, local and global offsets. -/
inductive RAttributes
  | last (name : List Char) (type : RBaseType) (localOffset globalOffset : ℕ)
  | cons (name : List Char) (type : RBaseType) (localOffset globalOffset : ℕ) (rest : RAttributes)
  deriving Repr

end

/-- `size`. -/
def RBaseType.size : RBaseType → ℕ
  | .primitive typeId => typeId.size
  | .structure _ typeSize => typeSize

/-- The loop of the constructor of `r_Structure_Type`: the attributes with their offsets, and the size. -/
def RAttributes.place (offset : ℕ) : ℕ → RAttributes → RAttributes × ℕ
  | typeSize, .last name type _ _ =>
    (.last name type typeSize (typeSize + offset), typeSize + type.size)
  | typeSize, .cons name type _ _ rest =>
    let (rest, size) := rest.place offset (typeSize + type.size)
    (.cons name type typeSize (typeSize + offset) rest, size)

/-- `r_Structure_Type(name, numAttrs, attrs, offset)`. -/
def structureType (attributes : RAttributes) (offset : ℕ) : RBaseType :=
  let (attributes, typeSize) := attributes.place offset 0
  .structure attributes typeSize

/-- `r_Type`. -/
inductive RType
  | base (type : RBaseType)
  | marray (baseType : RBaseType)
  | collection (elementType : RType)
  | sinterval
  | minterval
  | point
  | oid
  deriving Repr

/-! ## The scanner -/

/-- `DLTOKEN`. -/
inductive DLToken
  | marray
  | set
  | struct
  | lep
  | rep
  | lap
  | rap
  | lcp
  | rcp
  | comma
  | octet
  | char
  | ulong
  | long
  | short
  | ushort
  | float
  | double
  | bool
  | complexType2
  | complexType1
  | interval
  | minterval
  | point
  | oid
  | identifier (text : List Char)
  deriving DecidableEq, Repr

/-- What the scanner compares the text with before it tries an identifier, in order. -/
def fixedTokens : List (List Char × DLToken) :=
  [("marray".toList, .marray), ("set".toList, .set), ("struct".toList, .struct),
    ("[".toList, .lep), ("]".toList, .rep), ("<".toList, .lap), (">".toList, .rap),
    (['{'], .lcp), (['}'], .rcp), (",".toList, .comma), ("octet".toList, .octet),
    ("char".toList, .char), ("ulong".toList, .ulong), ("long".toList, .long),
    ("short".toList, .short), ("ushort".toList, .ushort), ("float".toList, .float),
    ("double".toList, .double), ("bool".toList, .bool), ("complexd".toList, .complexType2),
    ("complex".toList, .complexType1), ("interval".toList, .interval),
    ("minterval".toList, .minterval), ("point".toList, .point), ("oid".toList, .oid)]

/-- The characters of an identifier. -/
def isIdentifierChar (c : Char) : Bool := c.isAlphanum || c == '-' || c == '_'

/-- `getNextToken`: the token, with the text of an identifier, and the position after it. -/
def getNextToken (pos : List Char) : DLToken × List Char :=
  let pos := pos.dropWhile (· == ' ')
  match fixedTokens.find? fun p => p.1.isPrefixOf pos with
  | some (text, token) => (token, (pos.drop text.length).dropWhile (· == ' '))
  | none =>
    (.identifier (pos.takeWhile isIdentifierChar),
      (pos.dropWhile isIdentifierChar).dropWhile (· == ' '))

/-! ## The parser -/

/-- `throw r_Error(INTERNALDLPARSEERROR)`. -/
def parseError : Halt := .throws .internalDLParseError

/-- `getPrimitiveType`. -/
def getPrimitiveType (pos : List Char) : Except Halt (RBaseType × List Char) :=
  match getNextToken pos with
  | (.char, pos) => .ok (.primitive .char, pos)
  | (.octet, pos) => .ok (.primitive .octet, pos)
  | (.short, pos) => .ok (.primitive .short, pos)
  | (.ushort, pos) => .ok (.primitive .ushort, pos)
  | (.long, pos) => .ok (.primitive .long, pos)
  | (.ulong, pos) => .ok (.primitive .ulong, pos)
  | (.bool, pos) => .ok (.primitive .bool, pos)
  | (.float, pos) => .ok (.primitive .float, pos)
  | (.double, pos) => .ok (.primitive .double, pos)
  | (.complexType1, pos) => .ok (.primitive .complexType1, pos)
  | (.complexType2, pos) => .ok (.primitive .complexType2, pos)
  | _ => .error parseError

mutual

/-- `getBaseType`.  `fuel` bounds the nesting and the number of attributes. -/
def getBaseType : ℕ → (pos : List Char) → (offset : ℕ) → Except Halt (RBaseType × List Char)
  | 0, _, _ => .error .endless
  | fuel + 1, pos, offset =>
    match getNextToken pos with
    | (.struct, _) => getStructureType fuel pos offset
    | _ => getPrimitiveType pos

/-- `getStructureType`. -/
def getStructureType : ℕ → (pos : List Char) → (offset : ℕ) → Except Halt (RBaseType × List Char)
  | 0, _, _ => .error .endless
  | fuel + 1, pos, offset => do
    let (_, pos) := getNextToken pos
    let (token, pos) := getNextToken pos
    if token ≠ .lcp then .error parseError
    let (attributes, pos) ← getAttributes fuel pos offset
    return (structureType attributes offset, pos)

/-- The loop of `getStructureType`: the attributes up to the closing brace. -/
def getAttributes : ℕ → (pos : List Char) → (localOffset : ℕ) → Except Halt (RAttributes × List Char)
  | 0, _, _ => .error .endless
  | fuel + 1, pos, localOffset => do
    let (type, pos) ← getBaseType fuel pos localOffset
    let localOffset := localOffset + type.size
    let (name, token, pos) :=
      match getNextToken pos with
      | (.identifier identifier, pos) =>
        let (token, pos) := getNextToken pos
        (identifier, token, pos)
      | (token, pos) => ([], token, pos)
    if token = .rcp then return (.last name type 0 0, pos)
    else if token = .comma then do
      let (rest, pos) ← getAttributes fuel pos localOffset
      return (.cons name type 0 0 rest, pos)
    else .error parseError

end

/-- `getMarrayType`; what follows the base type is not read. -/
def getMarrayType (fuel : ℕ) (pos : List Char) : Except Halt (RType × List Char) := do
  let (_, pos) := getNextToken pos
  let (token, pos) := getNextToken pos
  if token ≠ .lap then .error parseError
  let (basetype, pos) ← getBaseType fuel pos 0
  return (.marray basetype, pos)

/-- `getType`.  The types of intervals, points and object ids are their keywords. -/
def getType (fuel : ℕ) (pos : List Char) : Except Halt (RType × List Char) :=
  match getNextToken pos with
  | (.struct, _) => do
    let (type, pos) ← getStructureType fuel pos 0
    return (.base type, pos)
  | (.interval, pos) => .ok (.sinterval, pos)
  | (.minterval, pos) => .ok (.minterval, pos)
  | (.point, pos) => .ok (.point, pos)
  | (.oid, pos) => .ok (.oid, pos)
  | _ => do
    let (type, pos) ← getPrimitiveType pos
    return (.base type, pos)

/-- `getCollectionType`; what follows the element type is not read. -/
def getCollectionType (fuel : ℕ) (pos : List Char) : Except Halt (RType × List Char) := do
  let (_, pos) := getNextToken pos
  let (token, pos) := getNextToken pos
  if token ≠ .lap then .error parseError
  let (elementType, pos) ← match getNextToken pos with
    | (.marray, _) => getMarrayType fuel pos
    | _ => getType fuel pos
  return (.collection elementType, pos)

/-- `get_any_type`.  A text nests no deeper and has no more attributes than it has characters. -/
def getAnyType (typeString : List Char) : Except Halt RType :=
  Prod.fst <$> match getNextToken typeString with
    | (.marray, _) => getMarrayType typeString.length typeString
    | (.set, _) => getCollectionType typeString.length typeString
    | _ => getType typeString.length typeString

example : (getAnyType "struct { char red, char green }".toList).toOption.isSome = true := by
  decide +kernel

end Rasdaman
