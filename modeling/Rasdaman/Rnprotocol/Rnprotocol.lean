import Rasdaman.Machinery.Memory

/-!
# Rnprotocol/Rnprotocol — headers of RNP messages

The constants of `Rnp`, and the methods of `RnpHeader`, `RnpFragmentHeader` and `RnpParameter` as programs
on the memory of a message.  A field is the offset of a word in its header; `host` is the byte order of the
machine that runs the program.
-/

namespace Rasdaman

open Bytes Memory

/-! ## Constants -/

namespace Rnp

def rnpProtocolId : Word := 25112001

/-- `Rnp::Endianness`, as the header stores it. -/
def endianness : Order → UInt8
  | .big => 0
  | .little => 1

/-- `Rnp::DataType`. -/
inductive DataType
  | none
  | asciiz
  | int32
  | float32
  | double64
  | opaqueData
  | nullPtr
  deriving DecidableEq, Repr

def DataType.code : DataType → Word
  | none => 0
  | asciiz => 1
  | int32 => 2
  | float32 => 3
  | double64 => 4
  | opaqueData => 5
  | nullPtr => 6

/-- `Rnp::swapBytes`. -/
def swapBytes (orig : Word) : Word := wordOf .big (wordBytes .little orig)

end Rnp

/-! ## Fields -/

namespace RnpHeader

def protocolId : ℤ := 0
def messageEndianness : ℤ := 4
def totalMessageLength : ℤ := 8
def nrFragments : ℤ := 12
def serverType : ℤ := 16
def authInfoStart : ℤ := 20
def authInfoLength : ℤ := 24
def comprInfoStart : ℤ := 28
def comprInfoLength : ℤ := 32
def dataStart : ℤ := 36
def dataLength : ℤ := 40

/-- `sizeof(RnpHeader)`. -/
def size : ℕ := 64

end RnpHeader

namespace RnpFragmentHeader

def fragmType : ℤ := 0
def command : ℤ := 4
def nrParams : ℤ := 8
def totalLength : ℤ := 12

/-- `sizeof(RnpFragmentHeader)`. -/
def size : ℕ := 16

end RnpFragmentHeader

namespace RnpParameter

def paramType : ℤ := 0
def dataType : ℤ := 4
def dataLength : ℤ := 8
def totalLength : ℤ := 12

/-- `sizeof(RnpParameter)`. -/
def size : ℕ := 16

end RnpParameter

/-! ## `RnpHeader` -/

section

variable (host : Order)

namespace RnpHeader

def isRnpMessage : Access Bool := do
  let id ← getWord host protocolId
  let cProtocolId := match host with
    | .little => id
    | .big => Rnp.swapBytes id
  return cProtocolId == Rnp.rnpProtocolId

/-- `RnpHeader::getEndianness`: the byte as it is. -/
def getEndianness : Access UInt8 := do
  return (← get messageEndianness 1).headD 0

def getTotalLength : Access Word := do
  let endianness ← getEndianness
  let total ← getWord host totalMessageLength
  return if endianness = Rnp.endianness host then total else Rnp.swapBytes total

/-- `RnpHeader::changeEndianness`. -/
def changeEndianness (newEndianness : Order) : Access Bool := do
  if (← getEndianness) = Rnp.endianness newEndianness then
    return false
  put messageEndianness [Rnp.endianness newEndianness]
  swapWord totalMessageLength
  swapWord nrFragments
  swapWord serverType
  swapWord authInfoStart
  swapWord authInfoLength
  swapWord comprInfoStart
  swapWord comprInfoLength
  swapWord dataStart
  swapWord dataLength
  return true

/-- `RnpHeader::getFirstFragment`. -/
def getFirstFragment : Access ℤ := do
  return (← getWord host dataStart).toInt

end RnpHeader

/-! ## `RnpFragmentHeader` -/

namespace RnpFragmentHeader

def getNextFragment (this : ℤ) : Access ℤ := do
  return this + (← getWord host (this + totalLength)).toInt

def getFirstParameter (this : ℤ) : ℤ := this + size

def changeEndianness (this : ℤ) : Access Unit := do
  swapWord (this + fragmType)
  swapWord (this + command)
  swapWord (this + nrParams)
  swapWord (this + totalLength)

end RnpFragmentHeader

/-! ## `RnpParameter` -/

namespace RnpParameter

def getNextParameter (this : ℤ) : Access ℤ := do
  return this + (← getWord host (this + totalLength)).toInt

def getData (this : ℤ) : ℤ := this + size

/-- `RnpParameter::computeTotalAlignedLength`, of a data length. -/
def computeTotalAlignedLength (dataLength : Word) : Word :=
  BitVec.ofNat 32 ((size + dataLength.toNat + 3) &&& 0xFFFFFFFC)

/-- `RnpParameter::getPaddLength`, of the two lengths. -/
def getPaddLength (totalLength dataLength : Word) : Word :=
  totalLength - (BitVec.ofNat 32 size + dataLength)

/-- The byte order of the data, depending on its type. -/
def changeData (this : ℤ) : Access Unit := do
  let dataType ← getWord host (this + dataType)
  if dataType = Rnp.DataType.int32.code ∨ dataType = Rnp.DataType.float32.code then
    swapWord (getData this)
  else if dataType = Rnp.DataType.double64.code then
    let temp ← get (getData this) 4
    put (getData this) (← get (getData this + 4) 4).reverse
    put (getData this + 4) temp.reverse

/-- The byte order of the header. -/
def changeHeader (this : ℤ) : Access Unit := do
  swapWord (this + paramType)
  swapWord (this + dataType)
  swapWord (this + dataLength)
  swapWord (this + totalLength)

def changeToHostEndianness (this : ℤ) : Access Unit := do
  changeHeader this
  changeData host this

def changeToPartnerEndianness (this : ℤ) : Access Unit := do
  changeData host this
  changeHeader this

end RnpParameter

end

end Rasdaman
