import Rasdaman.Machinery.Bytes
import Rasdaman.Machinery.Decimal
import Rasdaman.Machinery.RowMajor
import Rasdaman.Raslib.Miter

/-!
# Conversion/Csv — arrays of integers as CSV and as JSON

`r_Conv_CSV` writes the cells of an array with parentheses around each dimension and reads them back from a
text by skipping everything that is no part of a value.  `r_Conv_JSON` differs in the parentheses only.

The extents of the array and the length of its text are `int`s, the number of cells that are read and the
size of the memory for them `unsigned int`s.
-/

namespace Rasdaman

open Bytes

namespace Csv

/-! ## Cell types -/

/-- The integer types. -/
inductive IntegerId
  | ulong
  | ushort
  | long
  | short
  | octet
  | char
  deriving DecidableEq, Repr

namespace IntegerId

/-- `size`. -/
def size : IntegerId → ℕ
  | ulong => 4
  | ushort => 2
  | long => 4
  | short => 2
  | octet => 1
  | char => 1

/-- Whether the C++ type is signed; `r_Octet` is a `signed char`. -/
def signed : IntegerId → Bool
  | ulong | ushort | char => false
  | long | short | octet => true

/-- `get_ulong` and its like: the value in memory. -/
def get (o : Order) (t : IntegerId) (bytes : List UInt8) : ℤ :=
  if t.signed then loadInt o bytes else load o bytes

/-- An assignment through a pointer to the type; what does not fit is cut off. -/
def put (o : Order) (t : IntegerId) (v : ℤ) : List UInt8 := storeInt o t.size v

end IntegerId

mutual

/-- Types of cells: integers and structures of them. -/
inductive CellType
  | primitive (typeId : IntegerId)
  | struct (attributes : CellAttributes)

/-- The attributes of a structure. -/
inductive CellAttributes
  | last (type : CellType)
  | cons (type : CellType) (rest : CellAttributes)

end

mutual

/-- `size`; attributes follow each other without gaps. -/
def CellType.size : CellType → ℕ
  | .primitive t => t.size
  | .struct attributes => attributes.size

/-- The size of all attributes. -/
def CellAttributes.size : CellAttributes → ℕ
  | .last type => type.size
  | .cons type rest => type.size + rest.size

end

/-! ## Writing -/

/-- What `initCSV` and `initJSON` set; values are separated by commas in both. -/
structure Format where
  leftParen : Char
  rightParen : Char
  outerParens : Bool

/-- `r_Conv_CSV`. -/
def csv : Format := ⟨'{', '}', false⟩

/-- `r_Conv_JSON`. -/
def json : Format := ⟨'[', ']', true⟩

/-- `printPrimitiveValue`: the text, and the memory after the value. -/
def printPrimitiveValue (o : Order) (t : IntegerId) (val : List UInt8) : List Char × List UInt8 :=
  (Decimal.text (t.get o (val.take t.size)), val.drop t.size)

mutual

/-- `printValue`.  `fuel` bounds the open calls. -/
def printValue (o : Order) (srcType : CellType) :
    ℕ → CellType → List UInt8 → Except Halt (List Char × List UInt8)
  | 0, _, _ => .error .endless
  | fuel + 1, .struct _, val => printStructValue o srcType fuel val
  | _ + 1, .primitive t, val => .ok (printPrimitiveValue o t val)

/-- `printStructValue`; it takes `desc.srcType` for the structure. -/
def printStructValue (o : Order) (srcType : CellType) :
    ℕ → List UInt8 → Except Halt (List Char × List UInt8)
  | 0, _ => .error .endless
  | fuel + 1, val =>
    match srcType with
    | .struct attributes => do
      let (f, val) ← printAttributes o srcType fuel attributes val
      return ('"' :: (f ++ ['"']), val)
    | .primitive _ => .error .outside

/-- The loop of `printStructValue`. -/
def printAttributes (o : Order) (srcType : CellType) :
    ℕ → CellAttributes → List UInt8 → Except Halt (List Char × List UInt8)
  | 0, _, _ => .error .endless
  | fuel + 1, .last type, val => printValue o srcType fuel type val
  | fuel + 1, .cons type rest, val => do
    let (f, val) ← printValue o srcType fuel type val
    let (f', val) ← printAttributes o srcType fuel rest val
    return (f ++ ' ' :: f', val)

end

/-- `printArray`; `ptr` is an offset in the memory of the array. -/
def printArray (o : Order) (F : Format) (fuel : ℕ) (type : CellType) (src : List UInt8) :
    (dims offsets : List ℕ) → (ptr : ℕ) → Except Halt (List Char)
  | n :: dims, offset :: offsets, ptr => do
    let parts ← (List.range n).mapM fun i => do
      let ptr := ptr + i * (offset * type.size)
      if dims = [] then
        let (f, _) ← printValue o type fuel type (src.drop ptr)
        return f
      else
        let f ← printArray o F fuel type src dims offsets ptr
        return F.leftParen :: (f ++ [F.rightParen])
    return [','].intercalate parts
  | _, _, _ => return []

/-- A domain of one dimension or more with fixed bounds. -/
structure FixedDomain where
  bounds : List (ℤ × ℤ)
  bounds_ne : bounds ≠ []
  low_le_high : ∀ b ∈ bounds, b.1 ≤ b.2

/-- The extents. -/
def FixedDomain.dims (D : FixedDomain) : List ℕ := D.bounds.map fun b => (b.2 - b.1 + 1).toNat

/-- `dimsizes`, which are `int`s; a loop up to a negative one has no rounds. -/
def FixedDomain.dimsizes (D : FixedDomain) : List ℕ := D.dims.map fun n : ℕ => (toInt n).toNat

/-- `offsets`: how many cells are between the values of a dimension. -/
def offsets : (dims : List ℕ) → List ℕ
  | [] => []
  | [_] => [1]
  | _ :: n :: dims =>
    match offsets (n :: dims) with
    | offset :: rest => offset * n :: offset :: rest
    | [] => []

/-- `Order`. -/
inductive CsvOrder
  | outerInner
  | innerOuter

/-- An array of integers or structures of integers in memory. -/
structure SrcArray where
  type : CellType
  domain : FixedDomain
  src : List UInt8
  length_src : src.length = domain.dims.prod * type.size

/-- `csvtemp`: the text of the whole array. -/
def arrayText (o : Order) (F : Format) (fuel : ℕ) (type : CellType) (src : List UInt8)
    (dims offs : List ℕ) : Except Halt (List Char) := do
  let f ← printArray o F fuel type src dims offs 0
  if dims.length = 1 then return F.leftParen :: (f ++ [F.rightParen])
  else if F.outerParens then return F.leftParen :: (f ++ [F.rightParen])
  else return f

/-- The text as `convertTo` returns it: `stringsize` is an `int`, and its interval must not be empty. -/
def asResult (str : List Char) : Except Halt (List Char) :=
  let stringsize := toInt str.length
  if stringsize < 1 then .error (.throws .noInterval) else .ok (str.take stringsize.toNat)

/-- `convertTo`. -/
def convertTo (o : Order) (F : Format) (fuel : ℕ) (order : CsvOrder) (A : SrcArray) :
    Except Halt (List Char) := do
  let dims := A.domain.dimsizes
  let offs := offsets dims
  let str ← match order with
    | .outerInner => arrayText o F fuel A.type A.src dims offs
    | .innerOuter => arrayText o F fuel A.type A.src dims.reverse offs.reverse
  asResult str

/-! ## Reading -/

/-- `isspace`. -/
def isspace (c : Char) : Bool := c.toNat = 32 || (9 ≤ c.toNat && c.toNat ≤ 13)

/-- `isprint`. -/
def isprint (c : Char) : Bool := 32 ≤ c.toNat && c.toNat ≤ 126

/-- `isValidCharacter`. -/
def isValidCharacter (c : Char) : Bool :=
  !(['{', '}', ',', '"', '\'', '(', ')', '[', ']'].contains c || isspace c || !isprint c)

/-- An `istringstream`: the text that is left, and whether an extraction has failed. -/
structure IStream where
  rest : List Char
  fail : Bool

/-- What `>>` extracts: an integer of a type, or a character. -/
inductive Target
  | ulong
  | ushort
  | long
  | short
  | character

/-- The values of the type. -/
def Target.bounds : Target → ℤ × ℤ
  | ulong => (0, 2 ^ 32 - 1)
  | ushort => (0, 2 ^ 16 - 1)
  | long => (-2 ^ 31, 2 ^ 31 - 1)
  | short => (-2 ^ 15, 2 ^ 15 - 1)
  | character => (0, 255)

/-- `>>` of an integer: a numeral, converted to the type.  A numeral out of range gives the next value in
range and fails; unsigned conversion takes negative numerals modulo `2 ^ 64`. -/
def IStream.extractNumber (t : Target) (s : IStream) : ℤ × IStream :=
  let (numeral, rest) := Decimal.scan (s.rest.dropWhile isspace)
  let (low, high) := t.bounds
  let v := numeral.value
  let v := if low = 0 ∧ v < 0 then (if -2 ^ 64 < v then v + 2 ^ 64 else 2 ^ 64) else v
  if numeral.digits = [] then (0, ⟨rest, true⟩)
  else if v < low then (low, ⟨rest, true⟩)
  else if high < v then (high, ⟨rest, true⟩)
  else (v, ⟨rest, false⟩)

/-- `>>` of a character. -/
def IStream.extractChar (s : IStream) : ℤ × IStream :=
  match s.rest.dropWhile isspace with
  | c :: rest => (c.toNat, ⟨rest, false⟩)
  | [] => (0, ⟨[], true⟩)

/-- `>>`. -/
def IStream.extract (s : IStream) : Target → ℤ × IStream
  | .character => s.extractChar
  | t => s.extractNumber t

/-- Read characters until one is part of a value, and put it back. -/
def IStream.skip (s : IStream) : IStream := ⟨s.rest.dropWhile fun c => !isValidCharacter c, s.fail⟩

/-- What `constructPrimitive` extracts for a type. -/
def IntegerId.target : IntegerId → Target
  | .ulong => .ulong
  | .ushort => .ushort
  | .long => .long
  | .short => .short
  | .octet => .character
  | .char => .character

/-- What `addStructElem` extracts for an attribute of a type: with `addElem`, and for `r_Char` with
`addCharElem`. -/
def IntegerId.attributeTarget : IntegerId → Target
  | .ulong => .ulong
  | .ushort => .ushort
  | .long => .long
  | .short => .short
  | .octet => .character
  | .char => .short

/-- `addElem` and `addCharElem`: the memory of the value.  Where no character is left that is part of a
value, their loop does not end. -/
def addElem (o : Order) (t : Target) (typeId : IntegerId) (s : IStream) :
    Except Halt (List UInt8 × IStream) :=
  if s.fail ∨ s.skip.rest = [] then .error .endless
  else
    let (v, s) := s.skip.extract t
    .ok (typeId.put o v, s)

mutual

/-- `addStructElem`. -/
def addStructElem (o : Order) : CellAttributes → IStream → Except Halt (List UInt8 × IStream)
  | .last type, s => addAttribute o type s
  | .cons type rest, s => do
    let (bytes, s) ← addAttribute o type s
    let (bytes', s) ← addStructElem o rest s
    return (bytes ++ bytes', s)

/-- One round of the loop of `addStructElem`. -/
def addAttribute (o : Order) : CellType → IStream → Except Halt (List UInt8 × IStream)
  | .struct attributes, s => addStructElem o attributes s
  | .primitive t, s => addElem o t.attributeTarget t s

end

/-- The loop of `constructPrimitive` and of `constructStruct`, which stops at `numElem` values or at the end
of the text, and the check of the number of values after it. -/
def construct (add : IStream → Except Halt (List UInt8 × IStream)) :
    (numElem : ℕ) → IStream → Except Halt (List UInt8)
  | 0, _ => .ok []
  | numElem + 1, s =>
    if s.fail ∨ s.skip.rest = [] then .error (.throws .general)
    else do
      let (bytes, s) ← add s.skip
      let rest ← construct add numElem s
      return bytes ++ rest

/-- `constructPrimitive`. -/
def constructPrimitive (o : Order) (t : IntegerId) (numElem : ℕ) (src : List Char) :
    Except Halt (List UInt8) :=
  construct (fun s => .ok (t.put o (s.extract t.target).1, (s.extract t.target).2)) numElem ⟨src, false⟩

/-- `constructStruct`. -/
def constructStruct (o : Order) (attributes : CellAttributes) (numElem : ℕ) (src : List Char) :
    Except Halt (List UInt8) :=
  construct (addStructElem o attributes) numElem ⟨src, false⟩

/-- `numElem`, an `unsigned int`. -/
def FixedDomain.numElem (D : FixedDomain) : ℕ := D.dims.prod % 2 ^ 32

/-- `totalSize`, an `unsigned int`: how much memory `convertFrom` allocates. -/
def FixedDomain.totalSize (D : FixedDomain) (type : CellType) : ℕ := D.numElem * type.size % 2 ^ 32

/-- `convertFrom`, for a domain and a base type. -/
def convertFrom (o : Order) (domain : FixedDomain) (type : CellType) (src : List Char) :
    Except Halt (List UInt8) :=
  match type with
  | .primitive t => constructPrimitive o t domain.numElem src
  | .struct attributes => constructStruct o attributes domain.numElem src

end Csv

end Rasdaman
