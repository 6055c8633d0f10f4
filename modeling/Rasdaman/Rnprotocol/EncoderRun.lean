import Rasdaman.Rnprotocol.MessageImage

/-!
# Rnprotocol/EncoderRun — what the encoder has written

Each method of the encoder leaves the image of what was given to it so far.  The state of the encoder
inside a fragment is `inFragment`, between two fragments it is `betweenFragments`.
-/

namespace Rasdaman

open Bytes Memory

namespace RnpProtocolEncoder

/-! ## Single steps -/

theorem bind_of_ok {ε α β : Type} {x : Except ε α} {a : α} (h : x = .ok a) (f : α → Except ε β) :
    (x >>= f) = f a := by
  rw [h]
  rfl

theorem onData_ok {e : RnpProtocolEncoder} {α : Type} {x : Access α} {a : α} {mem' : Region}
    (h : x e.commBuffer.data = .ok (a, mem')) :
    e.onData x = .ok (a, { e with commBuffer := { e.commBuffer with data := mem' } }) := by
  rw [onData, CommBuffer.onData_ok h]
  rfl

/-- Lengths of parameters are computed without overflow. -/
theorem computeTotalAlignedLength_eq {n : ℕ} (h : n < 2 ^ 31) :
    RnpParameter.computeTotalAlignedLength (BitVec.ofNat 32 n)
      = BitVec.ofNat 32 ((RnpParameter.size + n + 3) / 4 * 4) := by
  have hn : (BitVec.ofNat 32 n).toNat = n := by rw [BitVec.toNat_ofNat]; omega
  rw [RnpParameter.computeTotalAlignedLength, hn, RnpParameter.size, land_mask (by omega)]

theorem getPaddLength_eq {total n : ℕ} (h : RnpParameter.size + n ≤ total) (ht : total < 2 ^ 31) :
    (RnpParameter.getPaddLength (BitVec.ofNat 32 total) (BitVec.ofNat 32 n)).toNat
      = total - (RnpParameter.size + n) := by
  rw [RnpParameter.getPaddLength, RnpParameter.size] at *
  simp only [BitVec.toNat_sub, BitVec.toNat_add, BitVec.toNat_ofNat]
  omega

variable (host : Order)

/-- The four words of a header are written over anything. -/
theorem putWords_mid (off : ℤ) (pre post : Region) {old : Region} (h : off = pre.length)
    (hold : old.length = 16) (a b c d : Word) :
    (do putWord host (off + 0) a
        putWord host (off + 4) b
        putWord host (off + 8) c
        putWord host (off + 12) d : Access Unit) (pre ++ (old ++ post))
      = .ok ((), pre ++ (wordsBytes host [a, b, c, d] ++ post)) := by
  obtain ⟨ws, hws, rfl⟩ := exists_words host (n := 4) hold
  obtain ⟨w₀, w₁, w₂, w₃, rfl⟩ := List.length_eq_four.mp hws
  rw [bind_ok (putWord_words _ _ _ _ 0 (by simp) (by omega) a),
    bind_ok (putWord_words _ _ _ _ 1 (by simp) (by omega) b),
    bind_ok (putWord_words _ _ _ _ 2 (by simp) (by omega) c),
    putWord_words _ _ _ _ 3 (by simp) (by omega) d]
  rfl

/-- Data goes behind what is written. -/
theorem readData_eq {ptr : Option (List UInt8)} {d dat : Region} (pre post : Region) {buffSize fill : ℕ}
    (cf cp : ℤ) (hptr : ptr = some d ∨ ptr = none ∧ d = []) (hdat : dat.length = d.length)
    (hfill : fill = pre.length) (hfits : fill + d.length ≤ buffSize) :
    readData ptr ⟨⟨pre ++ (dat ++ post), buffSize, fill⟩, cf, cp⟩
      = .ok ⟨⟨pre ++ (d ++ post), buffSize, fill + d.length⟩, cf, cp⟩ := by
  rcases hptr with rfl | ⟨rfl, rfl⟩
  · rw [readData, CommBuffer.read_eq rfl hfill hdat hfits]
    rfl
  · rw [List.length_eq_zero_iff.mp hdat]
    rfl

/-! ## Parameters -/

/-- `addParameter` on a buffer with a place for the parameter. -/
theorem addParameter_eq (pre mid rest : Region) (w₀ w₁ w₂ w₃ : Word) {hdr dat : Region} (pad : Region)
    {buffSize : ℕ} {ptr : Option (List UInt8)} {d : Region} (pt : Word) (dt : Rnp.DataType)
    (hptr : ptr = some d ∨ ptr = none ∧ d = []) (hhdr : hdr.length = 16) (hdat : dat.length = d.length)
    (hpad : pad.length = (16 + d.length + 3) / 4 * 4 - (16 + d.length))
    (hbuff : pre.length + (16 + mid.length) + (16 + d.length + 3) / 4 * 4 ≤ buffSize)
    (hsize : buffSize < 2 ^ 31) :
    addParameter host pt dt ptr (BitVec.ofNat 32 d.length)
        ⟨⟨pre ++ (wordsBytes host [w₀, w₁, w₂, w₃] ++ (mid ++ (hdr ++ (dat ++ (pad ++ rest))))), buffSize,
          pre.length + (16 + mid.length)⟩, pre.length, pre.length + (16 + mid.length : ℕ)⟩
      = .ok ⟨⟨pre ++ (wordsBytes host
            [w₀, w₁, w₂ + 1, w₃ + BitVec.ofNat 32 ((16 + d.length + 3) / 4 * 4)] ++
            (mid ++ (wordsBytes host [pt, dt.code, BitVec.ofNat 32 d.length,
              BitVec.ofNat 32 ((16 + d.length + 3) / 4 * 4)] ++ (d ++ (pad ++ rest))))), buffSize,
          pre.length + (16 + mid.length + (16 + d.length + 3) / 4 * 4)⟩, pre.length,
          pre.length + (16 + mid.length + (16 + d.length + 3) / 4 * 4 : ℕ)⟩ := by
  have htotal : RnpParameter.computeTotalAlignedLength (BitVec.ofNat 32 d.length)
      = BitVec.ofNat 32 ((16 + d.length + 3) / 4 * 4) := computeTotalAlignedLength_eq (by omega)
  have hpadd : (RnpParameter.getPaddLength (BitVec.ofNat 32 ((16 + d.length + 3) / 4 * 4))
      (BitVec.ofNat 32 d.length)).toNat = pad.length := by
    rw [getPaddLength_eq (by rw [RnpParameter.size]; omega) (by omega), RnpParameter.size, hpad]
  have hle : 16 + d.length ≤ (16 + d.length + 3) / 4 * 4 := by omega
  generalize (16 + d.length + 3) / 4 * 4 = total at *
  have hwords : (wordsBytes host [w₀, w₁, w₂, w₃]).length = 16 := length_wordsBytes ..
  unfold addParameter
  dsimp only
  rw [htotal, CommBuffer.reserve_eq (by rw [RnpParameter.size]; dsimp only; omega)]
  -- the header
  have h₁ := putWords_mid host (pre.length + (16 + mid.length : ℕ))
    (pre ++ (wordsBytes host [w₀, w₁, w₂, w₃] ++ mid)) (dat ++ (pad ++ rest))
    (by simp only [List.length_append, hwords]; omega) hhdr pt dt.code (BitVec.ofNat 32 d.length)
    (BitVec.ofNat 32 total)
  simp only [List.append_assoc] at h₁
  refine (bind_of_ok (onData_ok h₁) _).trans ?_
  dsimp only
  -- the data
  have h₂ := readData_eq (pre ++ (wordsBytes host [w₀, w₁, w₂, w₃] ++ (mid ++
      wordsBytes host [pt, dt.code, BitVec.ofNat 32 d.length, BitVec.ofNat 32 total]))) (pad ++ rest)
    pre.length (pre.length + (16 + mid.length : ℕ)) hptr hdat
    (by
      simp only [List.length_append, length_wordsBytes, List.length_cons, List.length_nil]
      exact (Nat.add_assoc ..).trans (by omega))
    (by omega : pre.length + (16 + mid.length) + 16 + d.length ≤ buffSize)
  simp only [List.append_assoc] at h₂
  refine (bind_of_ok h₂ _).trans ?_
  dsimp only
  rw [hpadd, CommBuffer.reserve_eq (by dsimp only; omega)]
  -- the counts of the fragment
  have h₃ := modifyWord_words (o := host) (pre.length + RnpFragmentHeader.nrParams) pre
    (mid ++ (wordsBytes host [pt, dt.code, BitVec.ofNat 32 d.length, BitVec.ofNat 32 total] ++
      (d ++ (pad ++ rest)))) [w₀, w₁, w₂, w₃] 2 (by simp) (by rw [RnpFragmentHeader.nrParams]; rfl) (· + 1)
  have h₄ := modifyWord_words (o := host) (pre.length + RnpFragmentHeader.totalLength) pre
    (mid ++ (wordsBytes host [pt, dt.code, BitVec.ofNat 32 d.length, BitVec.ofNat 32 total] ++
      (d ++ (pad ++ rest)))) [w₀, w₁, w₂ + 1, w₃] 3 (by simp)
    (by rw [RnpFragmentHeader.totalLength]; rfl) (· + BitVec.ofNat 32 total)
  refine (bind_of_ok (onData_ok ((Memory.bind_ok h₃).trans h₄)) _).trans ?_
  dsimp only
  -- the next parameter
  have h₅ := getWord_words (o := host) (pre.length + (16 + mid.length : ℕ) + RnpParameter.totalLength)
    (pre ++ (wordsBytes host [w₀, w₁, w₂ + 1, w₃ + BitVec.ofNat 32 total] ++ mid)) (d ++ (pad ++ rest))
    [pt, dt.code, BitVec.ofNat 32 d.length, BitVec.ofNat 32 total] 3 (by simp)
    (by
      simp only [List.length_append, length_wordsBytes, List.length_cons, List.length_nil,
        RnpParameter.totalLength]
      omega)
  simp only [List.append_assoc] at h₅
  refine (bind_of_ok (onData_ok (Memory.bind_ok h₅)) _).trans ?_
  dsimp only [List.getElem_cons_succ, List.getElem_cons_zero]
  rw [toInt_ofNat_of_lt (by omega)]
  have hfill : pre.length + (16 + mid.length) + 16 + d.length + pad.length
      = pre.length + (16 + mid.length + total) := by omega
  have hparameter : (pre.length + (16 + mid.length : ℕ) + total : ℤ)
      = pre.length + (16 + mid.length + total : ℕ) := by
    push_cast
    omega
  rw [hfill, hparameter]
  rfl

/-- The data pointer of an argument. -/
def dataPtr (a : RnpArgument) : Option (List UInt8) :=
  if a.dataType = .nullPtr then none else some (a.data host)

theorem dataPtr_cases (a : RnpArgument) :
    dataPtr host a = some (a.data host) ∨ dataPtr host a = none ∧ a.data host = [] := by
  cases a with
  | string _ str => cases str <;> simp [dataPtr, RnpArgument.dataType, RnpArgument.data]
  | opaqueData _ buf => cases buf <;> simp [dataPtr, RnpArgument.dataType, RnpArgument.data]
  | _ => simp [dataPtr, RnpArgument.dataType]

theorem add_eq (a : RnpArgument) :
    add host a = addParameter host a.parameterType a.dataType (dataPtr host a)
      (BitVec.ofNat 32 a.dataLength) := by
  cases a with
  | string _ str => cases str <;> rfl
  | opaqueData _ buf => cases buf <;> rfl
  | _ => rfl

variable {buffSize : ℕ}

/-- The encoder inside a fragment: `f` is written behind `pre`, and the pointers are at it. -/
def inFragment (buffSize : ℕ) (pre : Region) (f : FragmentImage) (post : Region) :
    RnpProtocolEncoder where
  commBuffer :=
    { data := pre ++ (wordsBytes host f.words ++ (parametersBytes host f.parameters ++ post))
      buffSize := buffSize
      fillSize := pre.length + f.totalLength }
  currFragment := pre.length
  currParameter := pre.length + f.totalLength

/-- A parameter goes behind those that are there. -/
theorem add_run (hsize : buffSize < 2 ^ 31) (pre : Region) (f : FragmentImage) (post : Region)
    (a : RnpArgument) (hroom : buffSize ≤ pre.length + f.totalLength + post.length)
    (hfits : pre.length + f.totalLength + a.totalLength ≤ buffSize) :
    ∃ (p : ParameterImage) (post' : Region),
      add host a (inFragment host buffSize pre f post)
        = .ok (inFragment host buffSize pre { f with parameters := f.parameters ++ [p] } post') ∧
      p.argument = a ∧ post'.length + a.totalLength = post.length := by
  have hle := a.le_totalLength
  obtain ⟨place, rest, rfl, hplace⟩ := exists_split post a.totalLength (by omega)
  obtain ⟨hdr, place, rfl, hhdr⟩ := exists_split place RnpParameter.size (by omega)
  rw [List.length_append, hhdr] at hplace
  obtain ⟨dat, pad, rfl, hdat⟩ := exists_split place a.dataLength (by omega)
  rw [List.length_append, hdat] at hplace
  let p : ParameterImage := ⟨a, pad, by rw [RnpArgument.padding]; omega⟩
  have hrun := addParameter_eq host pre (parametersBytes host f.parameters) rest f.fType f.command
    (BitVec.ofNat 32 f.parameters.length) (BitVec.ofNat 32 f.totalLength) pad a.parameterType a.dataType
    (dataPtr_cases host a) hhdr (by rw [hdat, RnpArgument.length_data])
    (by
      rw [RnpArgument.length_data]
      exact p.length_pad)
    (by
      rw [RnpArgument.length_data, length_parametersBytes]
      exact hfits) hsize
  rw [RnpArgument.length_data, length_parametersBytes] at hrun
  have hcount : BitVec.ofNat 32 f.parameters.length + 1 = BitVec.ofNat 32 (f.parameters ++ [p]).length := by
    rw [List.length_append, BitVec.ofNat_add]
    rfl
  have hlength : ({ f with parameters := f.parameters ++ [p] } : FragmentImage).totalLength
      = 16 + parametersLength f.parameters + a.totalLength := by
    rw [FragmentImage.totalLength, parametersLength_append, ← Nat.add_assoc]
    rfl
  have htotal : BitVec.ofNat 32 f.totalLength + BitVec.ofNat 32 a.totalLength
      = BitVec.ofNat 32 ({ f with parameters := f.parameters ++ [p] } : FragmentImage).totalLength := by
    rw [hlength, BitVec.ofNat_add (16 + _)]
    rfl
  refine ⟨p, rest, ?_, rfl, ?_⟩
  · rw [add_eq, inFragment, inFragment, hlength]
    refine Eq.trans ?_ (hrun.trans ?_)
    · simp only [List.append_assoc]
      rfl
    · simp only [FragmentImage.words, ← hcount, ← htotal, parametersBytes_append, parametersBytes_cons,
        parametersBytes_nil, ParameterImage.bytes, List.append_assoc, List.nil_append]
      rfl
  · simp only [List.length_append, hhdr, hdat]
    omega

/-- **The parameters of a fragment**, one behind the other. -/
theorem adds_run (hsize : buffSize < 2 ^ 31) (pre : Region) (f : FragmentImage) (post : Region)
    (as : List RnpArgument) (hroom : buffSize ≤ pre.length + f.totalLength + post.length)
    (hfits : pre.length + f.totalLength + (as.map RnpArgument.totalLength).sum ≤ buffSize) :
    ∃ (ps : List ParameterImage) (post' : Region),
      as.foldlM (fun e a => add host a e) (inFragment host buffSize pre f post)
        = .ok (inFragment host buffSize pre { f with parameters := f.parameters ++ ps } post') ∧
      ps.map ParameterImage.argument = as ∧
      post'.length + (as.map RnpArgument.totalLength).sum = post.length := by
  induction as generalizing f post with
  | nil => exact ⟨[], post, by rw [List.append_nil]; rfl, rfl, rfl⟩
  | cons a as ih =>
    rw [List.map_cons, List.sum_cons] at hfits
    obtain ⟨p, post₁, hrun, hp, hpost⟩ := add_run host hsize pre f post a hroom (by omega)
    have htotal : ({ f with parameters := f.parameters ++ [p] } : FragmentImage).totalLength
        = f.totalLength + a.totalLength := by
      rw [FragmentImage.totalLength, parametersLength_append, ← Nat.add_assoc, ← hp]
      rfl
    obtain ⟨ps, post₂, hruns, hps, hposts⟩ :=
      ih { f with parameters := f.parameters ++ [p] } post₁ (by omega) (by omega)
    refine ⟨p :: ps, post₂, ?_, by rw [List.map_cons, hp, hps], by rw [List.map_cons, List.sum_cons]; omega⟩
    rw [List.foldlM_cons, bind_of_ok hrun, hruns, List.append_assoc]
    rfl

/-! ## Fragments -/

/-- The encoder between two fragments. -/
def betweenFragments (buffSize : ℕ) (serverType : Word) (unused : Region) (fs : List FragmentImage)
    (post : Region) (currParameter : ℤ) : RnpProtocolEncoder where
  commBuffer :=
    { data := messageBytes host host serverType fs.length (fragmentsLength fs) unused
        (fragmentsBytes host fs ++ post)
      buffSize := buffSize
      fillSize := RnpHeader.size + fragmentsLength fs }
  currFragment := (RnpHeader.size + fragmentsLength fs : ℕ)
  currParameter := currParameter

variable (serverType : Word) {unused : Region} (hunused : unused.length = 20) (fs : List FragmentImage)
  (post : Region) (cp : ℤ)
include hunused

theorem length_message (n k : ℕ) : (messageBytes host host serverType n k unused
    (fragmentsBytes host fs)).length = RnpHeader.size + fragmentsLength fs := by
  rw [length_messageBytes host host serverType n k hunused, length_fragmentsBytes]

theorem startFragment_run (fType command : Word)
    (hroom : buffSize ≤ RnpHeader.size + fragmentsLength fs + post.length)
    (hfits : RnpHeader.size + fragmentsLength fs + RnpFragmentHeader.size ≤ buffSize) :
    ∃ post', startFragment host fType command
        (betweenFragments host buffSize serverType unused fs post cp)
      = .ok (inFragment host buffSize (messageBytes host host serverType (fs.length + 1)
          (fragmentsLength fs) unused (fragmentsBytes host fs)) ⟨fType, command, []⟩ post') ∧
      post'.length + RnpFragmentHeader.size = post.length := by
  obtain ⟨place, post, rfl, hplace⟩ := exists_split post RnpFragmentHeader.size (by omega)
  refine ⟨post, ?_, by rw [List.length_append]; omega⟩
  unfold startFragment betweenFragments
  dsimp only
  rw [messageBytes_append, CommBuffer.reserve_eq (by dsimp only; omega)]
  -- the header of the fragment
  have h₁ := putWords_mid host (RnpHeader.size + fragmentsLength fs : ℕ) (messageBytes host host serverType
    fs.length (fragmentsLength fs) unused (fragmentsBytes host fs)) post
    (by rw [length_message host serverType hunused]) hplace fType command 0
    (BitVec.ofNat 32 RnpFragmentHeader.size)
  refine (bind_of_ok (onData_ok h₁) _).trans ?_
  dsimp only
  rw [← messageBytes_append, messageBytes]
  -- the number of fragments
  have h₂ := modifyWord_words (o := host) RnpHeader.nrFragments (headerStart host host)
    (unused ++ (fragmentsBytes host fs ++ (wordsBytes host
      [fType, command, 0, BitVec.ofNat 32 RnpFragmentHeader.size] ++ post)))
    (headerWords serverType fs.length (fragmentsLength fs)) 1 (by simp [headerWords]) rfl (· + 1)
  refine (bind_of_ok (onData_ok h₂) _).trans ?_
  have hwords : (headerWords serverType fs.length (fragmentsLength fs)).set 1
      (BitVec.ofNat 32 fs.length + 1) = headerWords serverType (fs.length + 1) (fragmentsLength fs) := by
    rw [headerWords, headerWords, BitVec.ofNat_add fs.length 1]
    rfl
  rw [inFragment, ← messageBytes_append, length_message host serverType hunused]
  simp only [headerWords, List.getElem_cons_succ, List.getElem_cons_zero] at hwords ⊢
  rw [hwords]
  rfl

theorem endFragment_run (f : FragmentImage) (hsize : f.totalLength < 2 ^ 31) :
    endFragment host (inFragment host buffSize (messageBytes host host serverType (fs.length + 1)
        (fragmentsLength fs) unused (fragmentsBytes host fs)) f post)
      = .ok (betweenFragments host buffSize serverType unused (fs ++ [f]) post
          ((RnpHeader.size + fragmentsLength fs : ℕ) + f.totalLength)) := by
  have hlength := length_message host serverType hunused fs (fs.length + 1)
  have hwords : ((headerWords serverType (fs.length + 1) (fragmentsLength fs)).set 0
      (BitVec.ofNat 32 (RnpHeader.size + fragmentsLength fs) + BitVec.ofNat 32 f.totalLength)).set 8
        (BitVec.ofNat 32 (fragmentsLength fs) + BitVec.ofNat 32 f.totalLength)
      = headerWords serverType (fs.length + 1) (fragmentsLength fs + f.totalLength) := by
    rw [headerWords, headerWords, ← Nat.add_assoc, BitVec.ofNat_add (RnpHeader.size + fragmentsLength fs),
      BitVec.ofNat_add (fragmentsLength fs)]
    rfl
  have hrun : (do
      let totalLength ← getWord host ((RnpHeader.size + fragmentsLength fs : ℕ) + RnpFragmentHeader.totalLength)
      modifyWord host RnpHeader.totalMessageLength (· + totalLength)
      modifyWord host RnpHeader.dataLength (· + totalLength)
      RnpFragmentHeader.getNextFragment host (RnpHeader.size + fragmentsLength fs : ℕ) : Access ℤ)
        (messageBytes host host serverType (fs.length + 1) (fragmentsLength fs) unused
          (fragmentsBytes host fs) ++ (wordsBytes host f.words ++ (parametersBytes host f.parameters ++ post)))
      = .ok ((RnpHeader.size + fragmentsLength fs : ℕ) + f.totalLength,
          messageBytes host host serverType (fs.length + 1) (fragmentsLength fs + f.totalLength) unused
            (fragmentsBytes host fs) ++
              (wordsBytes host f.words ++ (parametersBytes host f.parameters ++ post))) := by
    rw [Memory.bind_ok (f.getWord_totalLength (by rw [hlength]) _), ← messageBytes_append,
      ← messageBytes_append]
    have h₁ := modifyWord_words (o := host) RnpHeader.totalMessageLength (headerStart host host)
      (unused ++ (fragmentsBytes host fs ++ (wordsBytes host f.words ++
        (parametersBytes host f.parameters ++ post))))
      (headerWords serverType (fs.length + 1) (fragmentsLength fs)) 0 (by simp [headerWords]) rfl
      (· + BitVec.ofNat 32 f.totalLength)
    have h₂ := modifyWord_words (o := host) RnpHeader.dataLength (headerStart host host)
      (unused ++ (fragmentsBytes host fs ++ (wordsBytes host f.words ++
        (parametersBytes host f.parameters ++ post))))
      ((headerWords serverType (fs.length + 1) (fragmentsLength fs)).set 0
        (BitVec.ofNat 32 (RnpHeader.size + fragmentsLength fs) + BitVec.ofNat 32 f.totalLength)) 8
      (by simp [headerWords]) rfl (· + BitVec.ofNat 32 f.totalLength)
    refine (Memory.bind_ok h₁).trans ((Memory.bind_ok h₂).trans ?_)
    have hnext := f.getNextFragment_run (o := host) (RnpHeader.size + fragmentsLength fs : ℕ)
      (messageBytes host host serverType (fs.length + 1) (fragmentsLength fs + f.totalLength) unused
        (fragmentsBytes host fs)) (parametersBytes host f.parameters ++ post) (by rw [hlength]) hsize
    rw [← messageBytes_append, messageBytes, ← hwords] at hnext
    rw [messageBytes, ← hwords]
    exact hnext
  have hall : fragmentsLength (fs ++ [f]) = fragmentsLength fs + f.totalLength := by
    rw [fragmentsLength_append]
    rfl
  rw [endFragment, inFragment, hlength]
  refine (bind_of_ok (onData_ok hrun) _).trans ?_
  rw [betweenFragments, hall, fragmentsBytes_append, List.append_assoc, List.length_append]
  dsimp only
  rw [messageBytes_append, fragmentsBytes_cons, fragmentsBytes_nil, List.append_nil, FragmentImage.bytes,
    List.append_assoc, ← Nat.add_assoc, Nat.cast_add (RnpHeader.size + fragmentsLength fs)]
  rfl

/-- A fragment goes behind those that are there. -/
theorem writeFragment_run (hsize : buffSize < 2 ^ 31) (g : RnpFragment)
    (hroom : buffSize ≤ RnpHeader.size + fragmentsLength fs + post.length)
    (hfits : RnpHeader.size + fragmentsLength fs + fragmentSize g ≤ buffSize) :
    ∃ (f : FragmentImage) (post' : Region) (cp' : ℤ),
      writeFragment host g (betweenFragments host buffSize serverType unused fs post cp)
        = .ok (betweenFragments host buffSize serverType unused (fs ++ [f]) post' cp') ∧
      f.fragment = g ∧ post'.length + fragmentSize g = post.length := by
  rw [fragmentSize] at hfits
  obtain ⟨post₁, hstart, hpost₁⟩ := startFragment_run host serverType hunused fs post cp g.fType g.command
    hroom (by omega)
  have hempty : (⟨g.fType, g.command, []⟩ : FragmentImage).totalLength = RnpFragmentHeader.size := rfl
  have hlength := length_message host serverType hunused fs (fs.length + 1) (fragmentsLength fs)
  obtain ⟨ps, post₂, hadds, hps, hpost₂⟩ := adds_run host hsize (messageBytes host host serverType
    (fs.length + 1) (fragmentsLength fs) unused (fragmentsBytes host fs)) ⟨g.fType, g.command, []⟩ post₁
    g.parameters (by rw [hempty, hlength]; omega) (by rw [hempty, hlength]; omega)
  obtain ⟨f, hfdef⟩ : ∃ f : FragmentImage, f = ⟨g.fType, g.command, [] ++ ps⟩ := ⟨_, rfl⟩
  have hf : f.fragment = g := by
    rw [hfdef, FragmentImage.fragment, List.nil_append, hps]
  have htotal : f.totalLength = fragmentSize g := by rw [← hf, fragmentSize_fragment]
  rw [fragmentSize] at htotal
  refine ⟨f, post₂, (RnpHeader.size + fragmentsLength fs : ℕ) + f.totalLength, ?_, hf,
    by rw [fragmentSize]; omega⟩
  rw [writeFragment, bind_of_ok hstart, bind_of_ok hadds, ← hfdef]
  exact endFragment_run host serverType hunused fs post₂ f (by omega)

/-- **The fragments of a message**, one behind the other. -/
theorem writeFragments_run (hsize : buffSize < 2 ^ 31) (gs : List RnpFragment)
    (hroom : buffSize ≤ RnpHeader.size + fragmentsLength fs + post.length)
    (hfits : RnpHeader.size + fragmentsLength fs + (gs.map fragmentSize).sum ≤ buffSize) :
    ∃ (fs' : List FragmentImage) (post' : Region) (cp' : ℤ),
      gs.foldlM (fun e g => writeFragment host g e)
          (betweenFragments host buffSize serverType unused fs post cp)
        = .ok (betweenFragments host buffSize serverType unused (fs ++ fs') post' cp') ∧
      fs'.map FragmentImage.fragment = gs := by
  induction gs generalizing fs post cp with
  | nil => exact ⟨[], post, cp, by rw [List.append_nil]; rfl, rfl⟩
  | cons g gs ih =>
    rw [List.map_cons, List.sum_cons] at hfits
    obtain ⟨f, post₁, cp₁, hrun, hf, hpost₁⟩ := writeFragment_run host serverType hunused fs post cp hsize g
      hroom (by omega)
    have htotal : fragmentsLength (fs ++ [f]) = fragmentsLength fs + fragmentSize g := by
      rw [fragmentsLength_append, ← hf, fragmentSize_fragment]
      rfl
    obtain ⟨fs', post₂, cp₂, hruns, hfs⟩ := ih (fs ++ [f]) post₁ cp₁ (by omega) (by omega)
    refine ⟨f :: fs', post₂, cp₂, ?_, by rw [List.map_cons, hf, hfs]⟩
    rw [List.foldlM_cons, bind_of_ok hrun, hruns, List.append_assoc]
    rfl

omit hunused

/-! ## Messages -/

theorem wordBytes_protocolId : wordBytes host (protocolId host) = wordBytes .little Rnp.rnpProtocolId := by
  cases host with
  | little => rfl
  | big => exact wordBytes_wordOf .big (length_wordBytes ..)

theorem exists_nine {α : Type*} : ∀ {ws : List α}, ws.length = 9 →
    ∃ w₀ w₁ w₂ w₃ w₄ w₅ w₆ w₇ w₈, ws = [w₀, w₁, w₂, w₃, w₄, w₅, w₆, w₇, w₈]
  | [w₀, w₁, w₂, w₃, w₄, w₅, w₆, w₇, w₈], _ => ⟨w₀, w₁, w₂, w₃, w₄, w₅, w₆, w₇, w₈, rfl⟩

/-- The header of a new message is written over anything. -/
theorem startHeader_run {id chars words unused : Region} (post : Region) (hid : id.length = 4)
    (hchars : chars.length = 4) (hwords : words.length = 4 * 9) :
    startHeader host serverType (id ++ (chars ++ (words ++ (unused ++ post))))
      = .ok ((), messageBytes host host serverType 0 0 unused post) := by
  obtain ⟨ws, hws, rfl⟩ := exists_words host hwords
  have hid' : put RnpHeader.protocolId (wordBytes .little Rnp.rnpProtocolId)
      (id ++ (chars ++ (wordsBytes host ws ++ (unused ++ post))))
        = .ok ((), wordBytes .little Rnp.rnpProtocolId ++ (chars ++ (wordsBytes host ws ++
          (unused ++ post)))) := by
    rw [← List.nil_append (id ++ _), ← List.nil_append (wordBytes .little Rnp.rnpProtocolId ++ _)]
    exact put_mid rfl hid.symm
  have hchars' : put RnpHeader.messageEndianness [Rnp.endianness host, Rnp.endianness host, 1, 0]
      (wordBytes .little Rnp.rnpProtocolId ++ (chars ++ (wordsBytes host ws ++ (unused ++ post))))
        = .ok ((), headerStart host host ++ (wordsBytes host ws ++ (unused ++ post))) := by
    rw [headerStart, List.append_assoc]
    exact put_mid rfl hchars.symm
  rw [startHeader, putWord, wordBytes_protocolId]
  refine (Memory.bind_ok hid').trans ((Memory.bind_ok hchars').trans ?_)
  obtain ⟨w₀, w₁, w₂, w₃, w₄, w₅, w₆, w₇, w₈, rfl⟩ := exists_nine hws
  refine Eq.trans (Memory.bind_ok (putWord_words _ _ _ _ 0 (by simp) rfl _)) ?_
  refine Eq.trans (Memory.bind_ok (putWord_words _ _ _ _ 1 (by simp) rfl _)) ?_
  refine Eq.trans (Memory.bind_ok (putWord_words _ _ _ _ 2 (by simp) rfl _)) ?_
  refine Eq.trans (Memory.bind_ok (putWord_words _ _ _ _ 3 (by simp) rfl _)) ?_
  refine Eq.trans (Memory.bind_ok (putWord_words _ _ _ _ 4 (by simp) rfl _)) ?_
  refine Eq.trans (Memory.bind_ok (putWord_words _ _ _ _ 5 (by simp) rfl _)) ?_
  refine Eq.trans (Memory.bind_ok (putWord_words _ _ _ _ 6 (by simp) rfl _)) ?_
  refine Eq.trans (Memory.bind_ok (putWord_words _ _ _ _ 7 (by simp) rfl _)) ?_
  exact putWord_words _ _ _ _ 8 (by simp) rfl _

/-- A message starts without fragments. -/
theorem startMessage_run {buffer : CommBuffer} (cf : ℤ) (hroom : buffer.buffSize ≤ buffer.data.length)
    (hfits : RnpHeader.size ≤ buffer.buffSize) :
    ∃ unused post : Region, unused.length = 20 ∧ RnpHeader.size + post.length = buffer.data.length ∧
      startMessage host serverType ⟨buffer, cf, cp⟩
        = .ok (betweenFragments host buffer.buffSize serverType unused [] post cp) := by
  obtain ⟨data, buffSize, fillSize⟩ := buffer
  dsimp only at *
  rw [RnpHeader.size] at hfits
  obtain ⟨id, data, rfl, hid⟩ := exists_split data 4 (by omega)
  rw [List.length_append] at hroom
  obtain ⟨chars, data, rfl, hchars⟩ := exists_split data 4 (by omega)
  rw [List.length_append] at hroom
  obtain ⟨words, data, rfl, hwords⟩ := exists_split data (4 * 9) (by omega)
  rw [List.length_append] at hroom
  obtain ⟨unused, post, rfl, hunused⟩ := exists_split data 20 (by omega)
  refine ⟨unused, post, hunused, by simp only [List.length_append, RnpHeader.size]; omega, ?_⟩
  unfold startMessage
  dsimp only
  rw [CommBuffer.reserve_eq (by rw [CommBuffer.clearToRead, RnpHeader.size]; dsimp only; omega)]
  exact bind_of_ok (onData_ok (startHeader_run host serverType post hid hchars hwords)) _

end RnpProtocolEncoder

end Rasdaman
