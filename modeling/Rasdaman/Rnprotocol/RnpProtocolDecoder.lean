import Rasdaman.Rnprotocol.Rnprotocol

/-!
# Rnprotocol/RnpProtocolDecoder — reading an RNP message

The methods of `RnpProtocolDecoder` on the received bytes.  Its pointers are offsets in them, `none` for a
null pointer; an access through a null pointer or outside of the received bytes is a fault.
-/

namespace Rasdaman

open Bytes Memory

/-- The cursor of the decoder, which the integrity test moves too. -/
structure RnpProtocolDecoder where
  currFragment : Option ℤ
  currFragmentIdx : ℤ
  currParameter : Option ℤ
  currParameterIdx : ℤ
  deriving DecidableEq, Repr

/-- What a walk sees of a parameter. -/
structure SeenParameter where
  paramType : Word
  dataType : Word
  dataLength : Word
  data : List UInt8
  deriving DecidableEq, Repr

/-- What a walk sees of a fragment. -/
structure SeenFragment where
  fragmType : Word
  command : Word
  totalLength : Word
  parameters : List SeenParameter
  deriving DecidableEq, Repr

namespace RnpProtocolDecoder

/-- Following a pointer. -/
def deref (p : Option ℤ) : Access ℤ := fun mem =>
  match p with
  | some off => .ok (off, mem)
  | none => .error .outside

theorem deref_some (off : ℤ) (mem : Region) : deref (some off) mem = .ok (off, mem) := rfl

variable (host : Order) (d : RnpProtocolDecoder)

/-! ## The cursor -/

def countFragments : Access ℤ := do
  return (← getWord host RnpHeader.nrFragments).toInt

def getFirstFragment : Access RnpProtocolDecoder := do
  if 0 < (← countFragments host) then
    return { d with currFragmentIdx := 0, currFragment := some (← RnpHeader.getFirstFragment host) }
  else
    return { d with currFragmentIdx := 0, currFragment := none }

def getNextFragment : Access RnpProtocolDecoder := do
  if d.currFragmentIdx + 1 < (← countFragments host) then
    let next ← RnpFragmentHeader.getNextFragment host (← deref d.currFragment)
    return { d with currFragmentIdx := d.currFragmentIdx + 1, currFragment := some next }
  else
    return { d with currFragmentIdx := d.currFragmentIdx + 1, currFragment := none }

def countParameters : Access ℤ := do
  return (← getWord host ((← deref d.currFragment) + RnpFragmentHeader.nrParams)).toInt

def getFirstParameter : Access RnpProtocolDecoder := do
  if 0 < (← countParameters host d) then
    let first := RnpFragmentHeader.getFirstParameter (← deref d.currFragment)
    return { d with currParameterIdx := 0, currParameter := some first }
  else
    return { d with currParameterIdx := 0, currParameter := none }

def getNextParameter : Access RnpProtocolDecoder := do
  if d.currParameterIdx + 1 < (← countParameters host d) then
    let next ← RnpParameter.getNextParameter host (← deref d.currParameter)
    return { d with currParameterIdx := d.currParameterIdx + 1, currParameter := some next }
  else
    return { d with currParameterIdx := d.currParameterIdx + 1, currParameter := none }

/-! ## The integrity test -/

/-- One turn of the loop over the parameters of the fragment at `lCurrFragment`. -/
def testParameter (lCurrFragment fragmentLength : ℤ) (s : RnpProtocolDecoder × Bool) :
    Access (ForInStep (RnpProtocolDecoder × Bool)) := do
  match s.1.currParameter with
  | none => return .done (s.1, false)
  | some lCurrParameter =>
    if ¬ (lCurrFragment + RnpFragmentHeader.size ≤ lCurrParameter ∧
        lCurrParameter < lCurrFragment + fragmentLength) then
      return .done (s.1, false)
    if (← getWord host (lCurrParameter + RnpParameter.totalLength)).toInt > fragmentLength then
      return .done (s.1, false)
    return .yield (← getNextParameter host s.1, s.2)

/-- One turn of the loop over the fragments, with the end of the message. -/
def testFragment (endOfMessage : ℤ) (s : RnpProtocolDecoder × Bool) :
    Access (ForInStep (RnpProtocolDecoder × Bool)) := do
  let lCurrFragment ← deref s.1.currFragment
  if ¬ ((RnpHeader.size : ℤ) ≤ lCurrFragment ∧ lCurrFragment < endOfMessage) then
    return .done (s.1, false)
  let maxLength : ℤ := (← StateT.get).length - RnpHeader.size
  let fragmentLength := (← getWord host (lCurrFragment + RnpFragmentHeader.totalLength)).toInt
  if fragmentLength > maxLength then
    return .done (s.1, false)
  let d ← getFirstParameter host s.1
  let (d, ok) ← forInt (fun s => countParameters host s.1)
    (testParameter host lCurrFragment fragmentLength) (d, s.2)
  if d.currParameter ≠ some (lCurrFragment + fragmentLength) then
    return .done (d, false)
  if ok = false then
    return .done (d, false)
  return .yield (← getNextFragment host d, ok)

/-- `RnpProtocolDecoder::testIntegrity`. -/
def testIntegrity : Access (Bool × RnpProtocolDecoder) := do
  if ¬ (← RnpHeader.isRnpMessage host) then
    return (false, d)
  let endOfMessage := (← RnpHeader.getTotalLength host).toInt
  let d ← getFirstFragment host d
  let (d, ok) ← forInt (fun _ => countFragments host) (testFragment host endOfMessage) (d, true)
  return (ok, d)

/-! ## The byte order -/

/-- One turn of the loop over the parameters. -/
def changeParameter : Access (ForInStep RnpProtocolDecoder) := do
  RnpParameter.changeToHostEndianness host (← deref d.currParameter)
  return .yield (← getNextParameter host d)

/-- One turn of the loop over the fragments. -/
def changeFragment : Access (ForInStep RnpProtocolDecoder) := do
  RnpFragmentHeader.changeEndianness (← deref d.currFragment)
  let d ← getFirstParameter host d
  let d ← forInt (countParameters host) (changeParameter host) d
  return .yield (← getNextFragment host d)

/-- `RnpProtocolDecoder::changeToHostEndianness`. -/
def changeToHostEndianness : Access (Bool × RnpProtocolDecoder) := do
  if ¬ (← RnpHeader.changeEndianness host) then
    return (false, d)
  let d ← getFirstFragment host d
  let d ← forInt (fun _ => countFragments host) (changeFragment host) d
  return (true, d)

/-! ## Decoding and walking -/

/-- `RnpProtocolDecoder::decode`. -/
def decode : Access (Bool × RnpProtocolDecoder) := do
  if ¬ (← RnpHeader.isRnpMessage host) then
    return (false, d)
  let originalEndianness ← RnpHeader.getEndianness
  if originalEndianness = Rnp.endianness host then
    testIntegrity host d
  else
    let (_, d) ← changeToHostEndianness host d
    return (true, d)

/-- The current parameter, with `getDataLength()` bytes of data. -/
def seeParameter : Access SeenParameter := do
  let p ← deref d.currParameter
  let paramType ← getWord host (p + RnpParameter.paramType)
  let dataType ← getWord host (p + RnpParameter.dataType)
  let dataLength ← getWord host (p + RnpParameter.dataLength)
  if dataLength.toInt < 0 then
    throw .outside
  let data ← get (RnpParameter.getData p) dataLength.toInt.toNat
  return ⟨paramType, dataType, dataLength, data⟩

/-- The walk over the parameters with `getNextParameter`, at most `n` of them. -/
def walkParameters : ℕ → RnpProtocolDecoder → Access (List SeenParameter)
  | 0, _ => return []
  | n + 1, d => do
    if d.currParameter = none then
      return []
    let p ← seeParameter host d
    let d ← getNextParameter host d
    return p :: (← walkParameters n d)

/-- The walk over the fragments with `getNextFragment`, at most `n` of them.  After
`countParameters()` parameters and `countFragments()` fragments the pointers are null. -/
def walkFragments : ℕ → RnpProtocolDecoder → Access (List SeenFragment)
  | 0, _ => return []
  | n + 1, d => do
    if d.currFragment = none then
      return []
    let f ← deref d.currFragment
    let fragmType ← getWord host (f + RnpFragmentHeader.fragmType)
    let command ← getWord host (f + RnpFragmentHeader.command)
    let totalLength ← getWord host (f + RnpFragmentHeader.totalLength)
    let d ← getFirstParameter host d
    let parameters ← walkParameters host (← countParameters host d).toNat d
    let d ← getNextFragment host d
    return ⟨fragmType, command, totalLength, parameters⟩ :: (← walkFragments n d)

/-- Everything that `getFirst…` and `getNext…` reach. -/
def walk : Access (List SeenFragment) := do
  let d ← getFirstFragment host d
  walkFragments host (← countFragments host).toNat d

end RnpProtocolDecoder

end Rasdaman
