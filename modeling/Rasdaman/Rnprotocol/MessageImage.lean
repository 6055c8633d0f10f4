import Rasdaman.Rnprotocol.RnpProtocolEncoder

/-!
# Rnprotocol/MessageImage — the bytes of a message

What a message looks like in memory: its header, its fragments, and their parameters with the padding
behind the data, which is whatever was in the buffer.
-/

namespace Rasdaman

open Bytes Memory

/-! ## Parameters -/

namespace RnpArgument

def parameterType : RnpArgument → Word
  | string parameterType _ | int32 parameterType _ | float32 parameterType _
  | double64 parameterType _ | opaqueData parameterType _ => parameterType

def dataType : RnpArgument → Rnp.DataType
  | string _ (some _) => .asciiz
  | string _ none => .nullPtr
  | int32 .. => .int32
  | float32 .. => .float32
  | double64 .. => .double64
  | opaqueData _ (some _) => .opaqueData
  | opaqueData _ none => .nullPtr

/-- The data in memory. -/
def data (o : Order) : RnpArgument → List UInt8
  | string _ (some str) => str.val ++ [0]
  | string _ none => []
  | int32 _ par => wordBytes o par
  | float32 _ par => wordBytes o par
  | double64 _ par => store o 8 par.toNat
  | opaqueData _ (some buf) => buf
  | opaqueData _ none => []

def dataLength : RnpArgument → ℕ
  | string _ (some str) => str.val.length + 1
  | string _ none => 0
  | int32 .. => 4
  | float32 .. => 4
  | double64 .. => 8
  | opaqueData _ (some buf) => buf.length
  | opaqueData _ none => 0

/-- Header and data, up to the next word. -/
def totalLength (a : RnpArgument) : ℕ := (RnpParameter.size + a.dataLength + 3) / 4 * 4

def padding (a : RnpArgument) : ℕ := a.totalLength - (RnpParameter.size + a.dataLength)

@[simp] theorem length_data (o : Order) (a : RnpArgument) : (a.data o).length = a.dataLength := by
  cases a with
  | string _ str => cases str <;> simp [data, dataLength]
  | opaqueData _ buf => cases buf <;> rfl
  | _ => simp [data, dataLength]

theorem le_totalLength (a : RnpArgument) : RnpParameter.size + a.dataLength ≤ a.totalLength := by
  unfold totalLength
  omega

end RnpArgument

/-- The size of a fragment when it is written. -/
def fragmentSize (f : RnpFragment) : ℕ :=
  RnpFragmentHeader.size + (f.parameters.map RnpArgument.totalLength).sum

/-- The size of a message when it is written. -/
def messageSize (m : RnpMessage) : ℕ := RnpHeader.size + (m.fragments.map fragmentSize).sum

/-- A parameter with the bytes behind its data. -/
structure ParameterImage where
  argument : RnpArgument
  pad : Region
  length_pad : pad.length = argument.padding

namespace ParameterImage

def words (p : ParameterImage) : List Word :=
  [p.argument.parameterType, p.argument.dataType.code, BitVec.ofNat 32 p.argument.dataLength,
    BitVec.ofNat 32 p.argument.totalLength]

def bytes (o : Order) (p : ParameterImage) : Region :=
  wordsBytes o p.words ++ (p.argument.data o ++ p.pad)

@[simp] theorem length_bytes (o : Order) (p : ParameterImage) :
    (p.bytes o).length = p.argument.totalLength := by
  have hle := p.argument.le_totalLength
  have hpad := p.length_pad
  have hwords : (wordsBytes o p.words).length = RnpParameter.size := length_wordsBytes ..
  rw [RnpArgument.padding] at hpad
  rw [bytes, List.length_append, List.length_append, RnpArgument.length_data, hwords, hpad]
  omega

end ParameterImage

/-! ## Fragments -/

structure FragmentImage where
  fType : Word
  command : Word
  parameters : List ParameterImage

/-- The size of some parameters. -/
def parametersLength (ps : List ParameterImage) : ℕ := (ps.map fun p => p.argument.totalLength).sum

def parametersBytes (o : Order) (ps : List ParameterImage) : Region := ps.flatMap (ParameterImage.bytes o)

@[simp] theorem parametersBytes_nil (o : Order) : parametersBytes o [] = [] := rfl

@[simp] theorem parametersBytes_cons (o : Order) (p : ParameterImage) (ps : List ParameterImage) :
    parametersBytes o (p :: ps) = p.bytes o ++ parametersBytes o ps := List.flatMap_cons

theorem parametersBytes_append (o : Order) (ps qs : List ParameterImage) :
    parametersBytes o (ps ++ qs) = parametersBytes o ps ++ parametersBytes o qs := List.flatMap_append

@[simp] theorem parametersLength_append (ps qs : List ParameterImage) :
    parametersLength (ps ++ qs) = parametersLength ps + parametersLength qs := by
  simp [parametersLength]

@[simp] theorem length_parametersBytes (o : Order) (ps : List ParameterImage) :
    (parametersBytes o ps).length = parametersLength ps := by
  induction ps with
  | nil => rfl
  | cons p ps ih => simp [parametersLength, ih]

theorem parametersLength_take_succ {ps : List ParameterImage} {i : ℕ} (h : i < ps.length) :
    parametersLength (ps.take (i + 1)) = parametersLength (ps.take i) + ps[i].argument.totalLength := by
  rw [List.take_succ_eq_append_getElem h, parametersLength_append]
  rfl

theorem length_le_parametersLength (ps : List ParameterImage) : ps.length ≤ parametersLength ps := by
  induction ps with
  | nil => exact Nat.le_refl 0
  | cons p ps ih =>
    have hp := p.argument.le_totalLength
    rw [RnpParameter.size] at hp
    have hcons : parametersLength (p :: ps) = p.argument.totalLength + parametersLength ps := rfl
    rw [List.length_cons, hcons]
    omega

theorem totalLength_le {ps : List ParameterImage} {i : ℕ} (h : i < ps.length) :
    parametersLength (ps.take i) + ps[i].argument.totalLength ≤ parametersLength ps := by
  rw [← parametersLength_take_succ h]
  conv_rhs => rw [← List.take_append_drop (i + 1) ps, parametersLength_append]
  exact Nat.le_add_right ..

namespace FragmentImage

def totalLength (f : FragmentImage) : ℕ := RnpFragmentHeader.size + parametersLength f.parameters

def words (f : FragmentImage) : List Word :=
  [f.fType, f.command, BitVec.ofNat 32 f.parameters.length, BitVec.ofNat 32 f.totalLength]

def bytes (o : Order) (f : FragmentImage) : Region :=
  wordsBytes o f.words ++ parametersBytes o f.parameters

@[simp] theorem length_bytes (o : Order) (f : FragmentImage) : (f.bytes o).length = f.totalLength := by
  have hwords : (wordsBytes o f.words).length = RnpFragmentHeader.size := length_wordsBytes ..
  rw [bytes, List.length_append, hwords, length_parametersBytes, totalLength]

/-- The fragment that was written. -/
def fragment (f : FragmentImage) : RnpFragment :=
  ⟨f.fType, f.command, f.parameters.map ParameterImage.argument⟩

end FragmentImage

/-- The size of a fragment when it is written. -/
theorem fragmentSize_fragment (f : FragmentImage) : fragmentSize f.fragment = f.totalLength := by
  rw [fragmentSize, FragmentImage.fragment, List.map_map]
  rfl

/-! ## Messages -/

/-- The size of some fragments. -/
def fragmentsLength (fs : List FragmentImage) : ℕ := (fs.map FragmentImage.totalLength).sum

def fragmentsBytes (o : Order) (fs : List FragmentImage) : Region := fs.flatMap (FragmentImage.bytes o)

@[simp] theorem fragmentsBytes_nil (o : Order) : fragmentsBytes o [] = [] := rfl

@[simp] theorem fragmentsBytes_cons (o : Order) (f : FragmentImage) (fs : List FragmentImage) :
    fragmentsBytes o (f :: fs) = f.bytes o ++ fragmentsBytes o fs := List.flatMap_cons

theorem fragmentsBytes_append (o : Order) (fs gs : List FragmentImage) :
    fragmentsBytes o (fs ++ gs) = fragmentsBytes o fs ++ fragmentsBytes o gs := List.flatMap_append

@[simp] theorem fragmentsLength_append (fs gs : List FragmentImage) :
    fragmentsLength (fs ++ gs) = fragmentsLength fs + fragmentsLength gs := by
  simp [fragmentsLength]

@[simp] theorem length_fragmentsBytes (o : Order) (fs : List FragmentImage) :
    (fragmentsBytes o fs).length = fragmentsLength fs := by
  induction fs with
  | nil => rfl
  | cons f fs ih => simp [fragmentsLength, ih]

theorem fragmentsLength_take_succ {fs : List FragmentImage} {i : ℕ} (h : i < fs.length) :
    fragmentsLength (fs.take (i + 1)) = fragmentsLength (fs.take i) + fs[i].totalLength := by
  rw [List.take_succ_eq_append_getElem h, fragmentsLength_append]
  rfl

theorem length_le_fragmentsLength (fs : List FragmentImage) : fs.length ≤ fragmentsLength fs := by
  induction fs with
  | nil => exact Nat.le_refl 0
  | cons f fs ih =>
    have hcons : fragmentsLength (f :: fs) = (16 + parametersLength f.parameters) + fragmentsLength fs := rfl
    rw [List.length_cons, hcons]
    omega

theorem fragment_totalLength_le {fs : List FragmentImage} {i : ℕ} (h : i < fs.length) :
    fragmentsLength (fs.take i) + fs[i].totalLength ≤ fragmentsLength fs := by
  rw [← fragmentsLength_take_succ h]
  conv_rhs => rw [← List.take_append_drop (i + 1) fs, fragmentsLength_append]
  exact Nat.le_add_right ..

/-- The header up to its words, for a message in the order `o` from a host of the order `host`. -/
def headerStart (host o : Order) : Region :=
  wordBytes .little Rnp.rnpProtocolId ++ [Rnp.endianness o, Rnp.endianness host, 1, 0]

@[simp] theorem length_headerStart (host o : Order) : (headerStart host o).length = 8 := rfl

/-- The words of the header, for `n` fragments of `k` bytes. -/
def headerWords (serverType : Word) (n k : ℕ) : List Word :=
  [BitVec.ofNat 32 (RnpHeader.size + k), BitVec.ofNat 32 n, serverType, 0, 0, 0, 0,
    BitVec.ofNat 32 RnpHeader.size, BitVec.ofNat 32 k]

/-- A message with `body` behind its header, and `unused` in the unused part of the header. -/
def messageBytes (host o : Order) (serverType : Word) (n k : ℕ) (unused body : Region) : Region :=
  headerStart host o ++ (wordsBytes o (headerWords serverType n k) ++ (unused ++ body))

theorem messageBytes_append (host o : Order) (serverType : Word) (n k : ℕ) (unused body rest : Region) :
    messageBytes host o serverType n k unused (body ++ rest)
      = messageBytes host o serverType n k unused body ++ rest := by
  simp only [messageBytes, List.append_assoc]

theorem length_messageBytes (host o : Order) (serverType : Word) (n k : ℕ) {unused : Region}
    (h : unused.length = 20) (body : Region) :
    (messageBytes host o serverType n k unused body).length = RnpHeader.size + body.length := by
  have hwords : (wordsBytes o (headerWords serverType n k)).length = 36 := length_wordsBytes ..
  rw [messageBytes, List.length_append, List.length_append, List.length_append, hwords, h,
    length_headerStart, RnpHeader.size]
  omega

/-! ## Reading fields -/

section

variable {o : Order} {off : ℤ} {pre : Region}

namespace FragmentImage

variable (f : FragmentImage)

theorem getWord_fragmType (h : off = pre.length) (post : Region) :
    getWord o (off + RnpFragmentHeader.fragmType) (pre ++ (wordsBytes o f.words ++ post))
      = .ok (f.fType, pre ++ (wordsBytes o f.words ++ post)) :=
  getWord_words _ _ _ _ 0 (by simp [words]) (by rw [h]; rfl)

theorem getWord_command (h : off = pre.length) (post : Region) :
    getWord o (off + RnpFragmentHeader.command) (pre ++ (wordsBytes o f.words ++ post))
      = .ok (f.command, pre ++ (wordsBytes o f.words ++ post)) :=
  getWord_words _ _ _ _ 1 (by simp [words]) (by rw [h]; rfl)

theorem getWord_nrParams (h : off = pre.length) (post : Region) :
    getWord o (off + RnpFragmentHeader.nrParams) (pre ++ (wordsBytes o f.words ++ post))
      = .ok (BitVec.ofNat 32 f.parameters.length, pre ++ (wordsBytes o f.words ++ post)) :=
  getWord_words _ _ _ _ 2 (by simp [words]) (by rw [h]; rfl)

theorem getWord_totalLength (h : off = pre.length) (post : Region) :
    getWord o (off + RnpFragmentHeader.totalLength) (pre ++ (wordsBytes o f.words ++ post))
      = .ok (BitVec.ofNat 32 f.totalLength, pre ++ (wordsBytes o f.words ++ post)) :=
  getWord_words _ _ _ _ 3 (by simp [words]) (by rw [h]; rfl)

theorem getNextFragment_run (off : ℤ) (pre post : Region) (h : off = pre.length)
    (hsize : f.totalLength < 2 ^ 31) :
    RnpFragmentHeader.getNextFragment o off (pre ++ (wordsBytes o f.words ++ post))
      = .ok (off + f.totalLength, pre ++ (wordsBytes o f.words ++ post)) := by
  rw [RnpFragmentHeader.getNextFragment, Memory.bind_ok (f.getWord_totalLength h _), toInt_ofNat_of_lt hsize]
  rfl

/-- The next fragment, from the whole image. -/
theorem getNextFragment_bytes (off : ℤ) (pre post : Region) (h : off = pre.length)
    (hsize : f.totalLength < 2 ^ 31) :
    RnpFragmentHeader.getNextFragment o off (pre ++ (f.bytes o ++ post))
      = .ok (off + f.totalLength, pre ++ (f.bytes o ++ post)) := by
  rw [bytes, List.append_assoc]
  exact f.getNextFragment_run off pre _ h hsize

end FragmentImage

namespace ParameterImage

variable (p : ParameterImage)

theorem getWord_paramType (h : off = pre.length) (post : Region) :
    getWord o (off + RnpParameter.paramType) (pre ++ (wordsBytes o p.words ++ post))
      = .ok (p.argument.parameterType, pre ++ (wordsBytes o p.words ++ post)) :=
  getWord_words _ _ _ _ 0 (by simp [words]) (by rw [h]; rfl)

theorem getWord_dataType (h : off = pre.length) (post : Region) :
    getWord o (off + RnpParameter.dataType) (pre ++ (wordsBytes o p.words ++ post))
      = .ok (p.argument.dataType.code, pre ++ (wordsBytes o p.words ++ post)) :=
  getWord_words _ _ _ _ 1 (by simp [words]) (by rw [h]; rfl)

theorem getWord_dataLength (h : off = pre.length) (post : Region) :
    getWord o (off + RnpParameter.dataLength) (pre ++ (wordsBytes o p.words ++ post))
      = .ok (BitVec.ofNat 32 p.argument.dataLength, pre ++ (wordsBytes o p.words ++ post)) :=
  getWord_words _ _ _ _ 2 (by simp [words]) (by rw [h]; rfl)

theorem getWord_totalLength (h : off = pre.length) (post : Region) :
    getWord o (off + RnpParameter.totalLength) (pre ++ (wordsBytes o p.words ++ post))
      = .ok (BitVec.ofNat 32 p.argument.totalLength, pre ++ (wordsBytes o p.words ++ post)) :=
  getWord_words _ _ _ _ 3 (by simp [words]) (by rw [h]; rfl)

theorem getNextParameter_run (off : ℤ) (pre post : Region) (h : off = pre.length)
    (hsize : p.argument.totalLength < 2 ^ 31) :
    RnpParameter.getNextParameter o off (pre ++ (wordsBytes o p.words ++ post))
      = .ok (off + p.argument.totalLength, pre ++ (wordsBytes o p.words ++ post)) := by
  rw [RnpParameter.getNextParameter, Memory.bind_ok (p.getWord_totalLength h _), toInt_ofNat_of_lt hsize]
  rfl

/-- The next parameter, from the whole image. -/
theorem getNextParameter_bytes (off : ℤ) (pre post : Region) (h : off = pre.length)
    (hsize : p.argument.totalLength < 2 ^ 31) :
    RnpParameter.getNextParameter o off (pre ++ (p.bytes o ++ post))
      = .ok (off + p.argument.totalLength, pre ++ (p.bytes o ++ post)) := by
  rw [bytes, List.append_assoc]
  exact p.getNextParameter_run off pre _ h hsize

end ParameterImage

variable (host : Order) (serverType : Word) (n k : ℕ) (unused body : Region)

theorem getWord_totalMessageLength :
    getWord o RnpHeader.totalMessageLength (messageBytes host o serverType n k unused body)
      = .ok (BitVec.ofNat 32 (RnpHeader.size + k), messageBytes host o serverType n k unused body) :=
  getWord_words _ _ _ _ 0 (by simp [headerWords]) rfl

theorem getWord_nrFragments :
    getWord o RnpHeader.nrFragments (messageBytes host o serverType n k unused body)
      = .ok (BitVec.ofNat 32 n, messageBytes host o serverType n k unused body) :=
  getWord_words _ _ _ _ 1 (by simp [headerWords]) rfl

theorem getWord_dataStart :
    getWord o RnpHeader.dataStart (messageBytes host o serverType n k unused body)
      = .ok (BitVec.ofNat 32 RnpHeader.size, messageBytes host o serverType n k unused body) :=
  getWord_words _ _ _ _ 7 (by simp [headerWords]) rfl

theorem getEndianness_run :
    RnpHeader.getEndianness (messageBytes host o serverType n k unused body)
      = .ok (Rnp.endianness o, messageBytes host o serverType n k unused body) := by
  have hget : get RnpHeader.messageEndianness 1 (wordBytes .little Rnp.rnpProtocolId ++
      ([Rnp.endianness o] ++ ([Rnp.endianness host, 1, 0] ++ (wordsBytes o (headerWords serverType n k) ++
        (unused ++ body))))) = .ok ([Rnp.endianness o], messageBytes host o serverType n k unused body) :=
    get_mid rfl rfl
  exact Memory.bind_ok hget

end

end Rasdaman
