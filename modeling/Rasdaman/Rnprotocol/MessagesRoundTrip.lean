import Rasdaman.Rnprotocol.EncoderRun
import Rasdaman.Rnprotocol.MessageImage
import Rasdaman.Rnprotocol.PartnerEndianness
import Rasdaman.Rnprotocol.RnpProtocolDecoder

/-!
# Rnprotocol/MessagesRoundTrip — decoding and walking the image of a message

The walk sees what was written (`walk_run`).  The integrity test, which moves the cursor it compares with
the end of the fragment, refuses every message with a fragment (`decode_run`).
-/

namespace Rasdaman

open Bytes Memory

/-! ## What should be seen -/

/-- A parameter as a walk should see it. -/
def RnpArgument.seen (o : Order) (a : RnpArgument) : SeenParameter :=
  ⟨a.parameterType, a.dataType.code, BitVec.ofNat 32 a.dataLength, a.data o⟩

/-- A fragment as a walk should see it. -/
def RnpFragment.seen (o : Order) (f : RnpFragment) : SeenFragment :=
  ⟨f.fType, f.command, BitVec.ofNat 32 (fragmentSize f), f.parameters.map (RnpArgument.seen o)⟩

namespace RnpProtocolDecoder

variable {o : Order} {d : RnpProtocolDecoder} {mem pre post : Region}

/-! ## Parameters -/

theorem countParameters_run {off : ℤ} (hd : d.currFragment = some off) (hoff : off = pre.length)
    (f : FragmentImage) (post : Region) (hsize : f.totalLength < 2 ^ 31) :
    countParameters o d (pre ++ (wordsBytes o f.words ++ post))
      = .ok ((f.parameters.length : ℤ), pre ++ (wordsBytes o f.words ++ post)) := by
  have hcount : f.parameters.length ≤ parametersLength f.parameters :=
    length_le_parametersLength f.parameters
  rw [countParameters, hd, bind_ok (deref_some ..), bind_ok (f.getWord_nrParams hoff _),
    toInt_ofNat_of_lt (by rw [FragmentImage.totalLength] at hsize; omega)]
  rfl

/-- The current parameter, with its data. -/
theorem seeParameter_run {off : ℤ} (hd : d.currParameter = some off) (hoff : off = pre.length)
    (p : ParameterImage) (post : Region) (hsize : p.argument.totalLength < 2 ^ 31) :
    seeParameter o d (pre ++ (p.bytes o ++ post)) = .ok (p.argument.seen o, pre ++ (p.bytes o ++ post)) := by
  have hle := p.argument.le_totalLength
  have hlen : (BitVec.ofNat 32 p.argument.dataLength).toInt = p.argument.dataLength :=
    toInt_ofNat_of_lt (by omega)
  have hdata : RnpParameter.getData off = (pre ++ wordsBytes o p.words).length := by
    rw [RnpParameter.getData, List.length_append, length_wordsBytes, hoff]
    rfl
  have hget : get (RnpParameter.getData off) p.argument.dataLength
      ((pre ++ wordsBytes o p.words) ++ (p.argument.data o ++ (p.pad ++ post)))
        = .ok (p.argument.data o, (pre ++ wordsBytes o p.words) ++ (p.argument.data o ++ (p.pad ++ post))) :=
    get_mid hdata (RnpArgument.length_data ..).symm
  rw [List.append_assoc] at hget
  rw [ParameterImage.bytes, List.append_assoc, List.append_assoc, seeParameter, hd, bind_ok (deref_some ..),
    bind_ok (p.getWord_paramType hoff _), bind_ok (p.getWord_dataType hoff _),
    bind_ok (p.getWord_dataLength hoff _), hlen, if_neg (by omega), Int.toNat_natCast]
  exact bind_ok hget

/-- The cursor at the parameter with index `i` of the fragment at `off`. -/
def atParameter (d : RnpProtocolDecoder) (off : ℤ) (f : FragmentImage) (i : ℕ) : RnpProtocolDecoder :=
  { d with
    currParameterIdx := i
    currParameter := if i < f.parameters.length then
        some (off + (RnpFragmentHeader.size + parametersLength (f.parameters.take i) : ℕ))
      else none }

section Parameters

variable {off : ℤ} (hd : d.currFragment = some off) (hoff : off = pre.length) (f : FragmentImage)
  (hsize : f.totalLength < 2 ^ 31)
include hd hoff hsize

theorem getFirstParameter_run (post : Region) :
    getFirstParameter o d (pre ++ (wordsBytes o f.words ++ post))
      = .ok (atParameter d off f 0, pre ++ (wordsBytes o f.words ++ post)) := by
  rw [getFirstParameter, bind_ok (countParameters_run hd hoff f _ hsize), atParameter]
  by_cases hempty : 0 < f.parameters.length
  · rw [if_pos (by omega), if_pos hempty, hd]
    rfl
  · rw [if_neg (by omega), if_neg hempty]
    rfl

omit hd hsize in
theorem place_parameter (i : ℕ) :
    (off + (RnpFragmentHeader.size + parametersLength (f.parameters.take i) : ℕ) : ℤ)
      = (pre ++ (wordsBytes o f.words ++ parametersBytes o (f.parameters.take i))).length := by
  simp only [List.length_append, length_wordsBytes, length_parametersBytes, hoff, FragmentImage.words]
  push_cast
  rfl

omit hd hoff hsize in
/-- A fragment around one of its parameters. -/
theorem parameter_split {i : ℕ} (hi : i < f.parameters.length) :
    pre ++ (wordsBytes o f.words ++ (parametersBytes o f.parameters ++ post))
      = (pre ++ (wordsBytes o f.words ++ parametersBytes o (f.parameters.take i))) ++
        (f.parameters[i].bytes o ++ (parametersBytes o (f.parameters.drop (i + 1)) ++ post)) := by
  conv_lhs => rw [← List.take_append_drop i f.parameters, ← List.cons_getElem_drop_succ (h := hi),
    parametersBytes_append, parametersBytes_cons]
  simp only [List.append_assoc]

theorem getNextParameter_run {i : ℕ} (hi : i < f.parameters.length) :
    getNextParameter o (atParameter d off f i)
        (pre ++ (wordsBytes o f.words ++ (parametersBytes o f.parameters ++ post)))
      = .ok (atParameter d off f (i + 1),
          pre ++ (wordsBytes o f.words ++ (parametersBytes o f.parameters ++ post))) := by
  have hle := totalLength_le hi
  rw [FragmentImage.totalLength] at hsize
  have hcount : countParameters o (atParameter d off f i)
      (pre ++ (wordsBytes o f.words ++ (parametersBytes o f.parameters ++ post)))
        = .ok ((f.parameters.length : ℤ),
          pre ++ (wordsBytes o f.words ++ (parametersBytes o f.parameters ++ post))) :=
    countParameters_run hd hoff f _ hsize
  have hcurrent : (atParameter d off f i).currParameter
      = some (off + (RnpFragmentHeader.size + parametersLength (f.parameters.take i) : ℕ)) := if_pos hi
  have hidx : (atParameter d off f i).currParameterIdx = i := rfl
  rw [getNextParameter, bind_ok hcount, hcurrent, hidx]
  by_cases hlast : i + 1 < f.parameters.length
  · have hnext := (f.parameters[i]).getNextParameter_bytes (o := o) _ _
      (parametersBytes o (f.parameters.drop (i + 1)) ++ post) (place_parameter (o := o) hoff f i)
      (by omega)
    rw [← parameter_split f hi] at hnext
    rw [if_pos (by omega), bind_ok (deref_some ..), bind_ok hnext]
    conv_rhs => rw [atParameter, if_pos hlast, parametersLength_take_succ hi, ← Nat.add_assoc,
      Nat.cast_add (RnpFragmentHeader.size + _), ← Int.add_assoc]
    rfl
  · conv_rhs => rw [atParameter, if_neg hlast]
    rw [if_neg (by omega)]
    rfl

/-- The walk over the parameters of a fragment. -/
theorem walkParameters_run (m i : ℕ) (hm : i + m = f.parameters.length) :
    walkParameters o m (atParameter d off f i)
        (pre ++ (wordsBytes o f.words ++ (parametersBytes o f.parameters ++ post)))
      = .ok ((f.parameters.drop i).map fun p => p.argument.seen o,
          pre ++ (wordsBytes o f.words ++ (parametersBytes o f.parameters ++ post))) := by
  induction m generalizing i with
  | zero =>
    rw [List.drop_of_length_le (by omega)]
    rfl
  | succ m ih =>
    have hi : i < f.parameters.length := by omega
    have hle := totalLength_le hi
    have hcurrent : (atParameter d off f i).currParameter
        = some (off + (RnpFragmentHeader.size + parametersLength (f.parameters.take i) : ℕ)) := if_pos hi
    have hsee := seeParameter_run (o := o) hcurrent
      (place_parameter (o := o) hoff f i) f.parameters[i]
      (parametersBytes o (f.parameters.drop (i + 1)) ++ post)
      (by rw [FragmentImage.totalLength] at hsize; omega)
    rw [← parameter_split f hi] at hsee
    rw [walkParameters, if_neg (by rw [hcurrent]; exact Option.some_ne_none _), bind_ok hsee,
      bind_ok (getNextParameter_run hd hoff f hsize hi), bind_ok (ih (i + 1) (by omega)),
      ← List.cons_getElem_drop_succ (h := hi)]
    rfl

end Parameters

/-! ## Fragments -/

section Fragments

variable (host : Order) (serverType : Word) {unused : Region} (hunused : unused.length = 20)
  (fs : List FragmentImage) (hsize : fragmentsLength fs < 2 ^ 31)

/-- The whole image of a message. -/
def image (o : Order) (unused : Region) : Region :=
  messageBytes host o serverType fs.length (fragmentsLength fs) unused (fragmentsBytes o fs)

theorem countFragments_run (hsize : fragmentsLength fs < 2 ^ 31) :
    countFragments o (image host serverType fs o unused)
      = .ok ((fs.length : ℤ), image host serverType fs o unused) := by
  have hcount := length_le_fragmentsLength fs
  rw [countFragments, image, bind_ok (getWord_nrFragments ..), toInt_ofNat_of_lt (by omega)]
  rfl

/-- Where the cursor should be at the fragment with index `i`. -/
def fragmentPlace (i : ℕ) : Option ℤ :=
  if i < fs.length then some (RnpHeader.size + fragmentsLength (fs.take i) : ℕ) else none

theorem getFirstFragment_run (hsize : fragmentsLength fs < 2 ^ 31) :
    getFirstFragment o d (image host serverType fs o unused)
      = .ok ({ d with currFragmentIdx := 0, currFragment := fragmentPlace fs 0 },
          image host serverType fs o unused) := by
  have hfirst : RnpHeader.getFirstFragment o (image host serverType fs o unused)
      = .ok (RnpHeader.size, image host serverType fs o unused) := by
    rw [RnpHeader.getFirstFragment, image, bind_ok (getWord_dataStart ..)]
    rfl
  rw [getFirstFragment, bind_ok (countFragments_run host serverType fs hsize), fragmentPlace]
  by_cases hempty : 0 < fs.length
  · rw [if_pos (by omega), if_pos hempty, bind_ok hfirst]
    rfl
  · rw [if_neg (by omega), if_neg hempty]
    rfl

/-- A message around one of its fragments. -/
theorem fragment_split (unused : Region) {i : ℕ} (hi : i < fs.length) :
    image host serverType fs o unused
      = messageBytes host o serverType fs.length (fragmentsLength fs) unused (fragmentsBytes o (fs.take i)) ++
        (fs[i].bytes o ++ fragmentsBytes o (fs.drop (i + 1))) := by
  have hbytes : fragmentsBytes o fs
      = fragmentsBytes o (fs.take i) ++ (fs[i].bytes o ++ fragmentsBytes o (fs.drop (i + 1))) := by
    conv_lhs => rw [← List.take_append_drop i fs, ← List.cons_getElem_drop_succ (h := hi),
      fragmentsBytes_append, fragmentsBytes_cons]
  rw [image, ← messageBytes_append, ← hbytes]

include hunused

theorem place_fragment (i : ℕ) : ((RnpHeader.size + fragmentsLength (fs.take i) : ℕ) : ℤ)
    = (messageBytes host o serverType fs.length (fragmentsLength fs) unused
        (fragmentsBytes o (fs.take i))).length := by
  rw [length_messageBytes _ _ _ _ _ hunused, length_fragmentsBytes]

include hsize

theorem getNextFragment_run {i : ℕ} (hi : i < fs.length) (hd : d.currFragment = fragmentPlace fs i)
    (hidx : d.currFragmentIdx = i) :
    getNextFragment o d (image host serverType fs o unused)
      = .ok ({ d with currFragmentIdx := (i + 1 : ℕ), currFragment := fragmentPlace fs (i + 1) },
          image host serverType fs o unused) := by
  have hle := fragment_totalLength_le hi
  rw [getNextFragment, bind_ok (countFragments_run host serverType fs hsize), hidx, hd]
  by_cases hlast : i + 1 < fs.length
  · have hnext := (fs[i]).getNextFragment_bytes (o := o) _ _ (fragmentsBytes o (fs.drop (i + 1)))
      (place_fragment (o := o) host serverType hunused fs i) (by omega)
    rw [← fragment_split host serverType fs unused hi] at hnext
    rw [if_pos (by omega), fragmentPlace, if_pos hi, bind_ok (deref_some ..), bind_ok hnext]
    conv_rhs => rw [fragmentPlace, if_pos hlast, fragmentsLength_take_succ hi, ← Nat.add_assoc,
      Nat.cast_add (RnpHeader.size + _)]
    rfl
  · conv_rhs => rw [fragmentPlace, if_neg hlast]
    rw [if_neg (by omega)]
    rfl

/-- The walk over the fragments of a message. -/
theorem walkFragments_run (m i : ℕ) (d : RnpProtocolDecoder) (hm : i + m = fs.length)
    (hd : d.currFragment = fragmentPlace fs i) (hidx : d.currFragmentIdx = i) :
    walkFragments o m d (image host serverType fs o unused)
      = .ok ((fs.drop i).map fun f => f.fragment.seen o, image host serverType fs o unused) := by
  induction m generalizing i d with
  | zero =>
    rw [List.drop_of_length_le (by omega)]
    rfl
  | succ m ih =>
    have hi : i < fs.length := by omega
    have hle := fragment_totalLength_le hi
    have hf : fs[i].totalLength < 2 ^ 31 := by omega
    have hplace := place_fragment (o := o) host serverType hunused fs i
    have hcurrent : d.currFragment = some ((RnpHeader.size + fragmentsLength (fs.take i) : ℕ) : ℤ) := by
      rw [hd, fragmentPlace, if_pos hi]
    have hsplit := fragment_split (o := o) host serverType fs unused hi
    rw [FragmentImage.bytes, List.append_assoc] at hsplit
    have hnone : d.currFragment ≠ none := by
      rw [hcurrent]
      exact Option.some_ne_none _
    have hnext := getNextFragment_run (o := o)
      (d := atParameter d (RnpHeader.size + fragmentsLength (fs.take i) : ℕ) fs[i] 0) host serverType
      hunused fs hsize hi hd hidx
    have hcount := countParameters_run (o := o)
      (d := atParameter d (RnpHeader.size + fragmentsLength (fs.take i) : ℕ) fs[i] 0) hcurrent hplace fs[i]
      (parametersBytes o fs[i].parameters ++ fragmentsBytes o (fs.drop (i + 1))) hf
    rw [walkFragments, if_neg hnone, hcurrent, bind_ok (deref_some ..), hsplit,
      bind_ok ((fs[i]).getWord_fragmType hplace _), bind_ok ((fs[i]).getWord_command hplace _),
      bind_ok ((fs[i]).getWord_totalLength hplace _),
      bind_ok (getFirstParameter_run hcurrent hplace fs[i] hf _), bind_ok hcount, Int.toNat_natCast,
      bind_ok (walkParameters_run hcurrent hplace fs[i] hf _ 0 (Nat.zero_add _)), ← hsplit, bind_ok hnext,
      bind_ok (ih (i + 1) _ (by omega) rfl rfl), ← List.cons_getElem_drop_succ (h := hi), List.drop_zero,
      List.map_cons, RnpFragment.seen, fragmentSize_fragment, FragmentImage.fragment, List.map_map]
    rfl

/-- **The walk sees what was written.** -/
theorem walk_run (d : RnpProtocolDecoder) :
    walk o d (image host serverType fs o unused)
      = .ok (fs.map fun f => f.fragment.seen o, image host serverType fs o unused) := by
  rw [walk, bind_ok (getFirstFragment_run host serverType fs hsize),
    bind_ok (countFragments_run host serverType fs hsize), Int.toNat_natCast,
    walkFragments_run host serverType hunused fs hsize fs.length 0 _ (Nat.zero_add _) rfl rfl, List.drop_zero]

/-! ## The integrity test -/

omit hunused hsize in
/-- The loop over the parameters passes all of them, and leaves a null pointer. -/
theorem testParameters_run {off : ℤ} {pre : Region} (hd : d.currFragment = some off)
    (hoff : off = pre.length) (f : FragmentImage) (post : Region) (hf : f.totalLength < 2 ^ 31)
    (ok : Bool) :
    ∃ ok', forInt (fun s => countParameters o s.1) (testParameter o off f.totalLength)
        (atParameter d off f 0, ok)
        (pre ++ (wordsBytes o f.words ++ (parametersBytes o f.parameters ++ post)))
      = .ok ((atParameter d off f f.parameters.length, ok'),
          pre ++ (wordsBytes o f.words ++ (parametersBytes o f.parameters ++ post))) := by
  have hparameters := length_le_parametersLength f.parameters
  have htotal : f.totalLength = RnpFragmentHeader.size + parametersLength f.parameters := rfl
  have hloop : ∃ (s' : RnpProtocolDecoder × Bool) (mem' : Region),
      forInt (fun s => countParameters o s.1) (testParameter o off f.totalLength) (atParameter d off f 0, ok)
        (pre ++ (wordsBytes o f.words ++ (parametersBytes o f.parameters ++ post))) = .ok (s', mem') ∧
      s'.1 = atParameter d off f f.parameters.length ∧
      mem' = pre ++ (wordsBytes o f.words ++ (parametersBytes o f.parameters ++ post)) := by
    refine forInt_run (n := f.parameters.length) (by omega)
      (fun i (s : RnpProtocolDecoder × Bool) mem => s.1 = atParameter d off f i ∧
        mem = pre ++ (wordsBytes o f.words ++ (parametersBytes o f.parameters ++ post))) ?_ ?_ ?_
    · rintro i ⟨-, -⟩ mem ⟨rfl, rfl⟩
      exact countParameters_run hd hoff f _ hf
    · rintro i ⟨-, ok⟩ mem hi ⟨rfl, rfl⟩
      have hle := totalLength_le hi
      have hsize := (f.parameters[i]).argument.le_totalLength
      rw [RnpParameter.size] at hsize
      have hcurrent : (atParameter d off f i).currParameter
          = some (off + (RnpFragmentHeader.size + parametersLength (f.parameters.take i) : ℕ)) := if_pos hi
      have hlength := (f.parameters[i]).getWord_totalLength (o := o) (place_parameter (o := o) hoff f i)
        ((f.parameters[i].argument.data o ++ f.parameters[i].pad) ++
          (parametersBytes o (f.parameters.drop (i + 1)) ++ post))
      rw [← List.append_assoc (wordsBytes o _), ← ParameterImage.bytes, ← parameter_split f hi] at hlength
      refine ⟨(atParameter d off f (i + 1), ok), _, ?_, rfl, rfl⟩
      rw [testParameter]
      dsimp only
      rw [hcurrent]
      dsimp only
      rw [if_neg (by push_cast at *; omega), bind_ok hlength, toInt_ofNat_of_lt (by omega),
        if_neg (by omega), bind_ok (RnpProtocolDecoder.getNextParameter_run hd hoff f hf hi)]
      rfl
    · exact ⟨rfl, rfl⟩
  obtain ⟨⟨d', ok'⟩, mem', hrun, rfl, rfl⟩ := hloop
  exact ⟨ok', hrun⟩

omit hunused hsize in
theorem isRnpMessage_run (body : Region) (n k : ℕ) :
    RnpHeader.isRnpMessage o (messageBytes host o serverType n k unused body)
      = .ok (true, messageBytes host o serverType n k unused body) := by
  have hget : get RnpHeader.protocolId 4 ([] ++ (wordBytes .little Rnp.rnpProtocolId ++
      ([Rnp.endianness o, Rnp.endianness host, 1, 0] ++ (wordsBytes o (headerWords serverType n k) ++
        (unused ++ body))))) = .ok (wordBytes .little Rnp.rnpProtocolId,
          messageBytes host o serverType n k unused body) := get_mid rfl rfl
  have hword : getWord o RnpHeader.protocolId (messageBytes host o serverType n k unused body)
      = .ok (wordOf o (wordBytes .little Rnp.rnpProtocolId), messageBytes host o serverType n k unused body) :=
    Memory.bind_ok hget
  rw [RnpHeader.isRnpMessage, Memory.bind_ok hword]
  cases o <;> rfl

/-- The first fragment is refused: after its last parameter the cursor is null, not at its end. -/
theorem testFragment_run (d : RnpProtocolDecoder) (ok : Bool) (hfs : 0 < fs.length)
    (hd : d.currFragment = fragmentPlace fs 0) :
    ∃ d', testFragment o (RnpHeader.size + fragmentsLength fs : ℕ) (d, ok) (image host serverType fs o unused)
      = .ok (.done (d', false), image host serverType fs o unused) := by
  have hle := fragment_totalLength_le hfs
  have hf : fs[0].totalLength < 2 ^ 31 := by omega
  have hplace : ((RnpHeader.size : ℕ) : ℤ) = (messageBytes host o serverType fs.length (fragmentsLength fs)
      unused (fragmentsBytes o (fs.take 0))).length := place_fragment host serverType hunused fs 0
  have hcurrent : d.currFragment = some ((RnpHeader.size : ℕ) : ℤ) := by
    rw [hd, fragmentPlace, if_pos hfs]
    rfl
  have hsplit := fragment_split (o := o) host serverType fs unused hfs
  rw [FragmentImage.bytes, List.append_assoc] at hsplit
  have hlength : (image host serverType fs o unused).length = RnpHeader.size + fragmentsLength fs := by
    rw [image, length_messageBytes _ _ _ _ _ hunused, length_fragmentsBytes]
  rw [List.take_zero, show fragmentsLength [] = 0 from rfl, Nat.zero_add] at hle
  have hpos : 0 < fs[0].totalLength := Nat.add_pos_left (by decide) _
  obtain ⟨ok', hloop⟩ := testParameters_run (o := o) hcurrent hplace fs[0] (fragmentsBytes o (fs.drop 1)) hf ok
  let d' := atParameter d RnpHeader.size fs[0] fs[0].parameters.length
  have hnull : d'.currParameter = none := if_neg (Nat.lt_irrefl _)
  refine ⟨d', ?_⟩
  have hget : (StateT.get : Access Region) (image host serverType fs o unused)
      = .ok (image host serverType fs o unused, image host serverType fs o unused) := rfl
  have hword := (fs[0]).getWord_totalLength (o := o) hplace
    (parametersBytes o fs[0].parameters ++ fragmentsBytes o (fs.drop 1))
  have hfirst := getFirstParameter_run (o := o) hcurrent hplace fs[0] hf
    (parametersBytes o fs[0].parameters ++ fragmentsBytes o (fs.drop 1))
  rw [← hsplit] at hword hfirst hloop
  rw [testFragment]
  dsimp only
  rw [hcurrent, bind_ok (deref_some ..), if_neg (by push_cast; omega), bind_ok hget, bind_ok hword,
    toInt_ofNat_of_lt hf, hlength, if_neg (by push_cast; omega), bind_ok hfirst]
  refine Eq.trans (bind_ok hloop) ?_
  dsimp only
  rw [if_pos (by rw [hnull]; exact (Option.some_ne_none _).symm)]
  rfl

/-- **Every message with a fragment is refused.** -/
theorem decode_run (hall : RnpHeader.size + fragmentsLength fs < 2 ^ 31) (d : RnpProtocolDecoder) :
    ∃ d', decode o d (image host serverType fs o unused)
      = .ok ((fs.isEmpty, d'), image host serverType fs o unused) := by
  have htotal : RnpHeader.getTotalLength o (image host serverType fs o unused)
      = .ok (BitVec.ofNat 32 (RnpHeader.size + fragmentsLength fs), image host serverType fs o unused) := by
    rw [RnpHeader.getTotalLength, image, bind_ok (getEndianness_run ..),
      bind_ok (getWord_totalMessageLength ..), if_pos rfl]
    rfl
  have hrnp : RnpHeader.isRnpMessage o (image host serverType fs o unused)
      = .ok (true, image host serverType fs o unused) := isRnpMessage_run ..
  have hends : RnpHeader.getEndianness (image host serverType fs o unused)
      = .ok (Rnp.endianness o, image host serverType fs o unused) := getEndianness_run ..
  have hcount : countFragments o (image host serverType fs o unused)
      = .ok ((fs.length : ℤ), image host serverType fs o unused) := countFragments_run host serverType fs hsize
  rw [decode, bind_ok hrnp, if_neg (by decide), bind_ok hends, if_pos rfl, testIntegrity, bind_ok hrnp,
    if_neg (by decide), bind_ok htotal, toInt_ofNat_of_lt hall,
    bind_ok (getFirstFragment_run host serverType fs hsize)]
  rcases Nat.eq_zero_or_pos fs.length with hempty | hfs
  · refine ⟨{ d with currFragmentIdx := 0, currFragment := fragmentPlace fs 0 },
      Eq.trans (bind_ok (forInt_zero hcount (by omega))) ?_⟩
    rw [List.length_eq_zero_iff.mp hempty]
    rfl
  · obtain ⟨d', hfirst⟩ := testFragment_run (o := o) host serverType hunused fs hsize
      { d with currFragmentIdx := 0, currFragment := fragmentPlace fs 0 } true hfs rfl
    refine ⟨d', Eq.trans (bind_ok (forInt_done hcount (by omega) hfirst)) ?_⟩
    rw [List.isEmpty_eq_false_iff.mpr (List.length_pos_iff.mp hfs)]
    rfl

end Fragments

end RnpProtocolDecoder

end Rasdaman

/-!
## RNP messages from the encoder to the decoder

Whatever fits the buffer is walked as it was written, in either byte order, but `decode` accepts the
message only when it has no fragment (**`messages_round_trip`**).
-/

namespace Rasdaman

open Bytes Memory RnpProtocolEncoder RnpProtocolDecoder

/-- A message that fits its buffer is in memory, in the order that was asked for. -/
theorem writeMessage_run (host o : Order) (m : RnpMessage) {buffer : CommBuffer}
    (hsize : buffer.buffSize < 2 ^ 31) (hroom : buffer.buffSize ≤ buffer.data.length)
    (hfits : messageSize m ≤ buffer.buffSize) :
    ∃ (fs : List FragmentImage) (unused : Region) (b : CommBuffer),
      writeMessage host o m buffer = .ok b ∧ b.received = image host m.serverType fs o unused ∧
      unused.length = 20 ∧ fs.map FragmentImage.fragment = m.fragments := by
  rw [messageSize] at hfits
  obtain ⟨unused, post, hunused, hpost, hstart⟩ := startMessage_run host m.serverType 0 0 hroom
    (Nat.le_of_add_right_le hfits)
  obtain ⟨fs, post', cp, hrun, hfs⟩ := writeFragments_run host m.serverType hunused [] post 0 hsize
    m.fragments (by omega) hfits
  rw [List.nil_append] at hrun
  have hlength : fragmentsLength fs = (m.fragments.map fragmentSize).sum := by
    rw [← hfs, List.map_map, fragmentsLength]
    exact congrArg List.sum (List.map_congr_left fun f _ => (fragmentSize_fragment f).symm)
  have hchanged : ∃ changed, changeToPartnerEndianness host o (messageBytes host host m.serverType fs.length
        (fragmentsLength fs) unused (fragmentsBytes host fs ++ post'))
      = .ok (changed, messageBytes host o m.serverType fs.length (fragmentsLength fs) unused
        (fragmentsBytes o fs ++ post')) := changeToPartnerEndianness_run o hunused (by omega)
  obtain ⟨changed, hchange⟩ := hchanged
  refine ⟨fs, unused, ⟨messageBytes host o m.serverType fs.length (fragmentsLength fs) unused
    (fragmentsBytes o fs ++ post'), buffer.buffSize, RnpHeader.size + fragmentsLength fs⟩, ?_, ?_, hunused, hfs⟩
  · rw [writeMessage, bind_of_ok hstart, bind_of_ok hrun, endMessage]
    exact bind_of_ok (onData_ok hchange) _
  · rw [CommBuffer.received, messageBytes_append, image]
    refine List.take_left' ?_
    rw [length_messageBytes _ _ _ _ _ hunused, length_fragmentsBytes]

/-- What a client gets from a message: the answer of `decode` and the walk after it. -/
def decodeAndWalk (o : Order) (d : RnpProtocolDecoder) : Access (Bool × List SeenFragment) := do
  let (ok, d) ← decode o d
  return (ok, ← walk o d)

/-- `decode` accepts the message, and the walk sees the fragments that were written. -/
def RoundTripsMessage (host o : Order) (m : RnpMessage) (buffer : CommBuffer) : Prop :=
  ∃ b, writeMessage host o m buffer = .ok b ∧ ∀ d, ∃ mem,
    decodeAndWalk o d b.received = .ok ((true, m.fragments.map (RnpFragment.seen o)), mem)

section

variable {host o : Order} {m : RnpMessage} {buffer : CommBuffer}

/-- What a client gets from a message that fits its buffer. -/
theorem decodeAndWalk_run (host o : Order) (m : RnpMessage) (hsize : buffer.buffSize < 2 ^ 31)
    (hroom : buffer.buffSize ≤ buffer.data.length) (hfits : messageSize m ≤ buffer.buffSize) :
    ∃ b, writeMessage host o m buffer = .ok b ∧ ∀ d, decodeAndWalk o d b.received
      = .ok ((m.fragments.isEmpty, m.fragments.map (RnpFragment.seen o)), b.received) := by
  obtain ⟨fs, unused, b, hwrite, hb, hunused, hfs⟩ := writeMessage_run host o m hsize hroom hfits
  have hlength : RnpHeader.size + fragmentsLength fs = messageSize m := by
    rw [messageSize, ← hfs, List.map_map, fragmentsLength]
    exact congrArg (RnpHeader.size + List.sum ·)
      (List.map_congr_left fun f _ => (fragmentSize_fragment f).symm)
  refine ⟨b, hwrite, fun d => ?_⟩
  obtain ⟨d', hdecode⟩ := decode_run (o := o) host m.serverType hunused fs (by omega) (by omega) d
  rw [decodeAndWalk, hb, bind_ok hdecode]
  refine Eq.trans (bind_ok (walk_run host m.serverType hunused fs (by omega) d')) ?_
  rw [← hfs, List.map_map, List.isEmpty_map]
  rfl

/-- A message with a fragment is refused. -/
theorem roundTripsMessage_iff (hsize : buffer.buffSize < 2 ^ 31)
    (hroom : buffer.buffSize ≤ buffer.data.length) (hfits : messageSize m ≤ buffer.buffSize) :
    RoundTripsMessage host o m buffer ↔ m.fragments = [] := by
  obtain ⟨b, hwrite, hrun⟩ := decodeAndWalk_run host o m hsize hroom hfits
  constructor
  · rintro ⟨b', hwrite', hwalk⟩
    cases hwrite.symm.trans hwrite'
    obtain ⟨mem, hwalk⟩ := hwalk ⟨none, 0, none, 0⟩
    rw [hrun] at hwalk
    exact List.isEmpty_iff.mp (congrArg Prod.fst (Prod.mk.inj (Except.ok.inj hwalk)).1)
  · intro hempty
    refine ⟨b, hwrite, fun d => ⟨b.received, ?_⟩⟩
    rw [hrun, hempty]
    rfl

/-- **RNP messages round-trip, but for the answer of the decoder.**  A message that fits the buffer is
walked as it was written, for both byte orders of both hosts; `decode` accepts it exactly when it has no
fragment. -/
theorem messages_round_trip (host o : Order) (m : RnpMessage) (buffer : CommBuffer)
    (hsize : buffer.buffSize < 2 ^ 31) (hroom : buffer.buffSize ≤ buffer.data.length)
    (hfits : messageSize m ≤ buffer.buffSize) :
    (RoundTripsMessage host o m buffer ↔ m.fragments = []) ∧
    ∃ b, writeMessage host o m buffer = .ok b ∧ ∀ d, decodeAndWalk o d b.received
      = .ok ((m.fragments.isEmpty, m.fragments.map (RnpFragment.seen o)), b.received) :=
  ⟨roundTripsMessage_iff hsize hroom hfits, decodeAndWalk_run host o m hsize hroom hfits⟩

/-- A buffer of 160 bytes, as `allocate` leaves it. -/
def smallCommBuffer : CommBuffer := ⟨List.replicate 160 0, 160, 0⟩

/-- A message with the strings `"a"` and null, and a number. -/
def mixedMessage : RnpMessage where
  serverType := 1
  fragments := [⟨2, 3, [.string 4 (some ⟨[97], by decide⟩), .string 5 none, .int32 6 0x80000000]⟩]

theorem messages_round_trip_mixed :
    (RoundTripsMessage .little .big mixedMessage smallCommBuffer ↔ mixedMessage.fragments = []) ∧
    ∃ b, writeMessage .little .big mixedMessage smallCommBuffer = .ok b ∧
      ∀ d, decodeAndWalk .big d b.received
        = .ok ((mixedMessage.fragments.isEmpty, mixedMessage.fragments.map (RnpFragment.seen .big)),
          b.received) :=
  messages_round_trip .little .big mixedMessage smallCommBuffer (by decide)
    List.length_replicate.ge (by decide)

/-- The decoder refuses the smallest message with a fragment. -/
theorem message_with_fragment_refused :
    ¬ RoundTripsMessage .little .little ⟨0, [⟨1, 0, []⟩]⟩ smallCommBuffer := by
  intro h
  exact absurd ((roundTripsMessage_iff (by decide) List.length_replicate.ge (by decide)).mp h) (List.cons_ne_nil _ _)

end

end Rasdaman
