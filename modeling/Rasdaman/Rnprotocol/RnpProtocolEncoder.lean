import Rasdaman.Network.CommBuffer
import Rasdaman.Rnprotocol.Rnprotocol

/-!
# Rnprotocol/RnpProtocolEncoder — writing an RNP message

The methods of `RnpProtocolEncoder` on its buffer, for messages without a carrier header.  The pointers of
the encoder are offsets in the buffer.
-/

namespace Rasdaman

open Bytes Memory

structure RnpProtocolEncoder where
  commBuffer : CommBuffer
  currFragment : ℤ
  currParameter : ℤ
  deriving DecidableEq, Repr

/-- What one of the `add…Parameter` methods gets.  Strings have no zero byte; a null pointer is `none`. -/
inductive RnpArgument
  | string (parameterType : Word) (str : Option { s : List UInt8 // 0 ∉ s })
  | int32 (parameterType : Word) (par : Word)
  | float32 (parameterType : Word) (par : Word)
  | double64 (parameterType : Word) (par : BitVec 64)
  | opaqueData (parameterType : Word) (buf : Option (List UInt8))

/-- The arguments of `startFragment` and of the parameters that follow. -/
structure RnpFragment where
  fType : Word
  command : Word
  parameters : List RnpArgument

/-- What `startMessage` and the setters get. -/
structure RnpMessage where
  serverType : Word
  fragments : List RnpFragment

namespace RnpProtocolEncoder

/-- A write through one of the pointers. -/
def onData {α : Type} (e : RnpProtocolEncoder) (x : Access α) : Except Fault (α × RnpProtocolEncoder) := do
  let (a, b) ← e.commBuffer.onData x
  return (a, { e with commBuffer := b })

variable (host : Order)

/-- The protocol id is always little endian. -/
def protocolId : Word :=
  match host with
  | .little => Rnp.rnpProtocolId
  | .big => Rnp.swapBytes Rnp.rnpProtocolId

/-- The assignments of `startMessage` to the header. -/
def startHeader (serverType : Word) : Access Unit := do
  putWord host RnpHeader.protocolId (protocolId host)
  put RnpHeader.messageEndianness [Rnp.endianness host, Rnp.endianness host, 1, 0]
  putWord host RnpHeader.totalMessageLength (BitVec.ofNat 32 RnpHeader.size)
  putWord host RnpHeader.nrFragments 0
  putWord host RnpHeader.serverType serverType
  putWord host RnpHeader.authInfoStart 0
  putWord host RnpHeader.authInfoLength 0
  putWord host RnpHeader.comprInfoStart 0
  putWord host RnpHeader.comprInfoLength 0
  putWord host RnpHeader.dataStart (BitVec.ofNat 32 RnpHeader.size)
  putWord host RnpHeader.dataLength 0

def startMessage (serverType : Word) (e : RnpProtocolEncoder) : Except Fault RnpProtocolEncoder := do
  let e := { e with commBuffer := e.commBuffer.clearToRead.reserve RnpHeader.size }
  let (_, e) ← e.onData (startHeader host serverType)
  return { e with currFragment := RnpHeader.size }

def startFragment (fType command : Word) (e : RnpProtocolEncoder) : Except Fault RnpProtocolEncoder := do
  let e := { e with commBuffer := e.commBuffer.reserve RnpFragmentHeader.size }
  let (_, e) ← e.onData do
    putWord host (e.currFragment + RnpFragmentHeader.fragmType) fType
    putWord host (e.currFragment + RnpFragmentHeader.command) command
    putWord host (e.currFragment + RnpFragmentHeader.nrParams) 0
    putWord host (e.currFragment + RnpFragmentHeader.totalLength) (BitVec.ofNat 32 RnpFragmentHeader.size)
  let (_, e) ← e.onData (modifyWord host RnpHeader.nrFragments (· + 1))
  return { e with currParameter := RnpFragmentHeader.getFirstParameter e.currFragment }

/-- `if (data != 0) commBuffer->read(data, length)`; `data` is `none` for a null pointer. -/
def readData (data : Option (List UInt8)) (e : RnpProtocolEncoder) : Except Fault RnpProtocolEncoder :=
  match data with
  | some data => do
    let b ← e.commBuffer.read data
    return { e with commBuffer := b }
  | none => .ok e

/-- `RnpProtocolEncoder::addParameter`. -/
def addParameter (parameterType : Word) (dtt : Rnp.DataType) (data : Option (List UInt8)) (length : Word)
    (e : RnpProtocolEncoder) : Except Fault RnpProtocolEncoder := do
  let e := { e with commBuffer := e.commBuffer.reserve RnpParameter.size }
  let totalLength := RnpParameter.computeTotalAlignedLength length
  let (_, e) ← e.onData do
    putWord host (e.currParameter + RnpParameter.paramType) parameterType
    putWord host (e.currParameter + RnpParameter.dataType) dtt.code
    putWord host (e.currParameter + RnpParameter.dataLength) length
    putWord host (e.currParameter + RnpParameter.totalLength) totalLength
  let paddlen := RnpParameter.getPaddLength totalLength length
  let e ← e.readData data
  let e := { e with commBuffer := e.commBuffer.reserve paddlen.toNat }
  let (_, e) ← e.onData do
    modifyWord host (e.currFragment + RnpFragmentHeader.nrParams) (· + 1)
    modifyWord host (e.currFragment + RnpFragmentHeader.totalLength) (· + totalLength)
  let (next, e) ← e.onData (RnpParameter.getNextParameter host e.currParameter)
  return { e with currParameter := next }

def addStringParameter (parameterType : Word) (str : Option { s : List UInt8 // 0 ∉ s }) :
    RnpProtocolEncoder → Except Fault RnpProtocolEncoder :=
  match str with
  | some str => addParameter host parameterType .asciiz (some (str.val ++ [0]))
      (BitVec.ofNat 32 (str.val.length + 1))
  | none => addParameter host parameterType .nullPtr none 0

def addInt32Parameter (parameterType par : Word) : RnpProtocolEncoder → Except Fault RnpProtocolEncoder :=
  addParameter host parameterType .int32 (some (wordBytes host par)) 4

def addFloat32Parameter (parameterType par : Word) : RnpProtocolEncoder → Except Fault RnpProtocolEncoder :=
  addParameter host parameterType .float32 (some (wordBytes host par)) 4

def addDouble64Parameter (parameterType : Word) (par : BitVec 64) :
    RnpProtocolEncoder → Except Fault RnpProtocolEncoder :=
  addParameter host parameterType .double64 (some (store host 8 par.toNat)) 8

def addOpaqueParameter (parameterType : Word) (buf : Option (List UInt8)) :
    RnpProtocolEncoder → Except Fault RnpProtocolEncoder :=
  match buf with
  | some buf => addParameter host parameterType .opaqueData (some buf) (BitVec.ofNat 32 buf.length)
  | none => addParameter host parameterType .nullPtr none 0

/-- The method for an argument. -/
def add : RnpArgument → RnpProtocolEncoder → Except Fault RnpProtocolEncoder
  | .string parameterType str => addStringParameter host parameterType str
  | .int32 parameterType par => addInt32Parameter host parameterType par
  | .float32 parameterType par => addFloat32Parameter host parameterType par
  | .double64 parameterType par => addDouble64Parameter host parameterType par
  | .opaqueData parameterType buf => addOpaqueParameter host parameterType buf

def endFragment (e : RnpProtocolEncoder) : Except Fault RnpProtocolEncoder := do
  let (next, e) ← e.onData do
    let totalLength ← getWord host (e.currFragment + RnpFragmentHeader.totalLength)
    modifyWord host RnpHeader.totalMessageLength (· + totalLength)
    modifyWord host RnpHeader.dataLength (· + totalLength)
    RnpFragmentHeader.getNextFragment host e.currFragment
  return { e with currFragment := next }

/-- The parameters of one fragment, whose header is at `lCurrFragment`. -/
def changeParameters (lCurrFragment : ℤ) : Access ℤ :=
  forInt (fun _ => do return (← getWord host (lCurrFragment + RnpFragmentHeader.nrParams)).toInt)
    (fun lCurrParameter => do
      let nextParameter ← RnpParameter.getNextParameter host lCurrParameter
      RnpParameter.changeToPartnerEndianness host lCurrParameter
      return .yield nextParameter)
    (RnpFragmentHeader.getFirstParameter lCurrFragment)

/-- `RnpProtocolEncoder::changeToPartnerEndianness`. -/
def changeToPartnerEndianness (newEndianness : Order) : Access Bool := do
  if Rnp.endianness newEndianness = (← RnpHeader.getEndianness) then
    return false
  let first ← RnpHeader.getFirstFragment host
  let _ ← forInt (fun _ => do return (← getWord host RnpHeader.nrFragments).toInt)
    (fun lCurrFragment => do
      let _ ← changeParameters host lCurrFragment
      let nextFragment ← RnpFragmentHeader.getNextFragment host lCurrFragment
      RnpFragmentHeader.changeEndianness lCurrFragment
      return .yield nextFragment) first
  let _ ← RnpHeader.changeEndianness newEndianness
  return true

/-- `RnpProtocolEncoder::endMessage`, for the byte order given to `setFinalEndianness`. -/
def endMessage (finalEndianness : Order) (e : RnpProtocolEncoder) : Except Fault CommBuffer := do
  let (_, e) ← e.onData (changeToPartnerEndianness host finalEndianness)
  return e.commBuffer

/-- A fragment, from `startFragment` to `endFragment`. -/
def writeFragment (f : RnpFragment) (e : RnpProtocolEncoder) : Except Fault RnpProtocolEncoder := do
  let e ← startFragment host f.fType f.command e
  let e ← f.parameters.foldlM (fun e p => add host p e) e
  endFragment host e

/-- A message, from `startMessage` to `endMessage`. -/
def writeMessage (finalEndianness : Order) (m : RnpMessage) (buffer : CommBuffer) :
    Except Fault CommBuffer := do
  let e ← startMessage host m.serverType ⟨buffer, 0, 0⟩
  let e ← m.fragments.foldlM (fun e f => writeFragment host f e) e
  endMessage host finalEndianness e

end RnpProtocolEncoder

end Rasdaman
