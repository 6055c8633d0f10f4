import Rasdaman.Rnprotocol.MessageImage

/-!
# Rnprotocol/PartnerEndianness — the encoder's change of the byte order

`changeToPartnerEndianness` turns the image of a message in the order of the host into the image of the
same message in the other order (`changeToPartnerEndianness_run`).
-/

namespace Rasdaman

open Bytes Memory

variable {host o : Order} {pre post : Region}

/-! ## Headers -/

/-- The first of some words is turned around. -/
theorem swapWord_first (h : host ≠ o) {off : ℤ} (hoff : off = pre.length) (w : Word) (ws : List Word) :
    swapWord off (pre ++ (wordsBytes host (w :: ws) ++ post))
      = .ok ((), (pre ++ wordBytes o w) ++ (wordsBytes host ws ++ post)) := by
  rw [wordsBytes_cons, List.append_assoc, swapWord_mid hoff (length_wordBytes ..), reverse_wordBytes h,
    List.append_assoc]

/-- The four words of a header. -/
theorem swapWords_run (h : host ≠ o) {off : ℤ} (hoff : off = pre.length) (a b c d : Word) :
    (do swapWord (off + 0)
        swapWord (off + 4)
        swapWord (off + 8)
        swapWord (off + 12) : Access Unit) (pre ++ (wordsBytes host [a, b, c, d] ++ post))
      = .ok ((), pre ++ (wordsBytes o [a, b, c, d] ++ post)) := by
  have hlength (l : Region) (w : Word) : (l ++ wordBytes o w).length = l.length + 4 := by
    rw [List.length_append, length_wordBytes]
  rw [bind_ok (swapWord_first h (by omega) a _),
    bind_ok (swapWord_first h (by rw [hlength]; push_cast; omega) b _),
    bind_ok (swapWord_first h (by rw [hlength, hlength]; push_cast; omega) c _),
    swapWord_first h (by rw [hlength, hlength, hlength]; push_cast; omega) d]
  simp only [wordsBytes_cons, wordsBytes_nil, List.append_assoc, List.nil_append, List.append_nil]

theorem RnpFragmentHeader.changeEndianness_run (h : host ≠ o) {off : ℤ} (hoff : off = pre.length)
    (f : FragmentImage) :
    RnpFragmentHeader.changeEndianness off (pre ++ (wordsBytes host f.words ++ post))
      = .ok ((), pre ++ (wordsBytes o f.words ++ post)) := swapWords_run h hoff ..

/-! ## Parameters -/

namespace RnpParameter

theorem changeHeader_run (h : host ≠ o) {off : ℤ} (hoff : off = pre.length) (p : ParameterImage) :
    changeHeader off (pre ++ (wordsBytes host p.words ++ post))
      = .ok ((), pre ++ (wordsBytes o p.words ++ post)) := swapWords_run h hoff ..

/-- A double in memory, and in the other order. -/
theorem reverse_store (h : host ≠ o) (k n : ℕ) : (store host k n).reverse = store o k n := by
  cases host <;> cases o <;> first | exact absurd rfl h | simp [store]

/-- The two halves of a double are turned around and exchanged. -/
theorem changeDouble_run (h : host ≠ o) {off : ℤ} (hoff : off = pre.length) (n : ℕ) (post : Region) :
    (do let temp ← get off 4
        put off (← get (off + 4) 4).reverse
        put (off + 4) temp.reverse : Access Unit) (pre ++ (store host 8 n ++ post))
      = .ok ((), pre ++ (store o 8 n ++ post)) := by
  obtain ⟨low, high, hstore, hlow⟩ := exists_split (store host 8 n) 4 (by rw [length_store]; decide)
  have hhigh : high.length = 4 := by
    have := congrArg List.length hstore
    rw [length_store, List.length_append] at this
    omega
  have hlength (bs : Region) (hbs : bs.length = 4) : (off + 4 : ℤ) = (pre ++ bs).length := by
    rw [List.length_append, hbs, hoff]
    push_cast
    rfl
  rw [← reverse_store h, hstore, List.reverse_append, List.append_assoc, List.append_assoc,
    bind_ok (get_mid hoff hlow.symm)]
  have hget : get (off + 4) 4 ((pre ++ low) ++ (high ++ post))
      = .ok (high, (pre ++ low) ++ (high ++ post)) := get_mid (hlength low hlow) hhigh.symm
  have hput : put (off + 4) low.reverse ((pre ++ high.reverse) ++ (high ++ post))
      = .ok ((), (pre ++ high.reverse) ++ (low.reverse ++ post)) :=
    put_mid (hlength high.reverse (by rw [List.length_reverse, hhigh]))
      (by rw [List.length_reverse, hlow, hhigh])
  simp only [List.append_assoc] at hget hput
  rw [bind_ok hget, bind_ok (put_mid hoff (by rw [List.length_reverse, hlow, hhigh])), hput]

/-- The data of a parameter. -/
theorem changeData_run (h : host ≠ o) {off : ℤ} (hoff : off = pre.length) (p : ParameterImage) :
    changeData host off (pre ++ (wordsBytes host p.words ++ (p.argument.data host ++ post)))
      = .ok ((), pre ++ (wordsBytes host p.words ++ (p.argument.data o ++ post))) := by
  have hdata : getData off = (pre ++ wordsBytes host p.words).length := by
    rw [getData, List.length_append, length_wordsBytes, hoff]
    rfl
  have hword (w : Word) : swapWord (getData off) (pre ++ (wordsBytes host p.words ++ (wordBytes host w ++ post)))
      = .ok ((), pre ++ (wordsBytes host p.words ++ (wordBytes o w ++ post))) := by
    rw [← List.append_assoc, swapWord_mid hdata (length_wordBytes ..), reverse_wordBytes h,
      List.append_assoc]
  rw [changeData, bind_ok (p.getWord_dataType hoff _)]
  obtain ⟨argument, pad, hpad⟩ := p
  cases argument with
  | int32 _ par => exact hword par
  | float32 _ par => exact hword par
  | double64 _ par =>
    have := changeDouble_run h hdata par.toNat post
    simp only [List.append_assoc] at this
    exact this
  | string _ str => cases str <;> rfl
  | opaqueData _ buf => cases buf <;> rfl

theorem changeToPartnerEndianness_run (h : host ≠ o) {off : ℤ} (hoff : off = pre.length)
    (p : ParameterImage) :
    changeToPartnerEndianness host off (pre ++ (p.bytes host ++ post))
      = .ok ((), pre ++ (p.bytes o ++ post)) := by
  rw [ParameterImage.bytes, ParameterImage.bytes, List.append_assoc, List.append_assoc, List.append_assoc,
    List.append_assoc, changeToPartnerEndianness, bind_ok (changeData_run h hoff p),
    changeHeader_run h hoff p]

end RnpParameter

/-! ## Fragments -/

namespace RnpProtocolEncoder

/-- The loop over the parameters. -/
theorem changeParameters_run (h : host ≠ o) {off : ℤ} (hoff : off = pre.length) (f : FragmentImage)
    (post : Region) (hsize : f.totalLength < 2 ^ 31) :
    ∃ next, changeParameters host off
        (pre ++ (wordsBytes host f.words ++ (parametersBytes host f.parameters ++ post)))
      = .ok (next, pre ++ (wordsBytes host f.words ++ (parametersBytes o f.parameters ++ post))) := by
  have hsize' : 16 + parametersLength f.parameters < 2 ^ 31 := hsize
  have hcount := length_le_parametersLength f.parameters
  -- after `i` turns the first `i` parameters are turned around
  have hloop : ∃ (next : ℤ) (mem' : Region), changeParameters host off
      (pre ++ (wordsBytes host f.words ++ (parametersBytes host f.parameters ++ post))) = .ok (next, mem') ∧
      next = off + (16 + parametersLength (f.parameters.take f.parameters.length) : ℕ) ∧
      mem' = pre ++ (wordsBytes host f.words ++ (parametersBytes o (f.parameters.take f.parameters.length) ++
        (parametersBytes host (f.parameters.drop f.parameters.length) ++ post))) := by
    refine forInt_run (by omega) (fun i s mem => s = off + (16 + parametersLength (f.parameters.take i) : ℕ) ∧
      mem = pre ++ (wordsBytes host f.words ++ (parametersBytes o (f.parameters.take i) ++
        (parametersBytes host (f.parameters.drop i) ++ post)))) ?_ ?_ ?_
    · rintro i s mem ⟨-, rfl⟩
      rw [bind_ok (f.getWord_nrParams hoff _), toInt_ofNat_of_lt (by omega)]
      rfl
    · rintro i s mem hi ⟨rfl, rfl⟩
      have hp := totalLength_le hi
      have hplace : (off + (16 + parametersLength (f.parameters.take i) : ℕ) : ℤ)
          = (pre ++ (wordsBytes host f.words ++ parametersBytes o (f.parameters.take i))).length := by
        simp only [List.length_append, length_wordsBytes, length_parametersBytes, hoff, FragmentImage.words]
        push_cast
        rfl
      refine ⟨off + (16 + parametersLength (f.parameters.take (i + 1)) : ℕ),
        pre ++ (wordsBytes host f.words ++ (parametersBytes o (f.parameters.take (i + 1)) ++
          (parametersBytes host (f.parameters.drop (i + 1)) ++ post))), ?_, rfl, rfl⟩
      have hstart : pre ++ (wordsBytes host f.words ++ (parametersBytes o (f.parameters.take i) ++
          (parametersBytes host (f.parameters.drop i) ++ post)))
          = (pre ++ (wordsBytes host f.words ++ parametersBytes o (f.parameters.take i))) ++
            (f.parameters[i].bytes host ++ (parametersBytes host (f.parameters.drop (i + 1)) ++ post)) := by
        rw [← List.cons_getElem_drop_succ (h := hi), parametersBytes_cons]
        simp only [List.append_assoc]
      have hend : pre ++ (wordsBytes host f.words ++ (parametersBytes o (f.parameters.take (i + 1)) ++
          (parametersBytes host (f.parameters.drop (i + 1)) ++ post)))
          = (pre ++ (wordsBytes host f.words ++ parametersBytes o (f.parameters.take i))) ++
            (f.parameters[i].bytes o ++ (parametersBytes host (f.parameters.drop (i + 1)) ++ post)) := by
        rw [List.take_succ_eq_append_getElem hi, parametersBytes_append, parametersBytes_cons,
          parametersBytes_nil, List.append_nil]
        simp only [List.append_assoc]
      rw [hstart, hend, parametersLength_take_succ hi]
      refine Eq.trans (bind_ok ((f.parameters[i]).getNextParameter_bytes _ _ _ hplace (by omega))) ?_
      refine Eq.trans (bind_ok (RnpParameter.changeToPartnerEndianness_run h hplace f.parameters[i])) ?_
      rw [← Nat.add_assoc, Nat.cast_add (16 + _), ← Int.add_assoc]
      rfl
    · exact ⟨rfl, by simp⟩
  obtain ⟨next, mem', hrun, -, rfl⟩ := hloop
  refine ⟨next, ?_⟩
  rw [hrun, List.take_length, List.drop_length]
  rfl

/-! ## Messages -/

/-- One turn of the loop over the fragments. -/
theorem changeFragment_run (h : host ≠ o) {off : ℤ} (hoff : off = pre.length) (f : FragmentImage)
    (hsize : f.totalLength < 2 ^ 31) :
    (do let _ ← changeParameters host off
        let nextFragment ← RnpFragmentHeader.getNextFragment host off
        RnpFragmentHeader.changeEndianness off
        return .yield nextFragment : Access (ForInStep ℤ)) (pre ++ (f.bytes host ++ post))
      = .ok (.yield (off + f.totalLength), pre ++ (f.bytes o ++ post)) := by
  obtain ⟨next, hparameters⟩ := changeParameters_run h hoff f post hsize
  rw [FragmentImage.bytes, FragmentImage.bytes, List.append_assoc, List.append_assoc, bind_ok hparameters,
    bind_ok (f.getNextFragment_run _ _ _ hoff hsize),
    bind_ok (RnpFragmentHeader.changeEndianness_run h hoff f)]
  rfl

variable {serverType : Word} {unused : Region} {fs : List FragmentImage}

/-- The loop over the fragments. -/
theorem changeFragments_run (h : host ≠ o) (serverType : Word) (post : Region) (hunused : unused.length = 20)
    (hsize : fragmentsLength fs < 2 ^ 31) :
    ∃ next, forInt (fun _ => do return (← getWord host RnpHeader.nrFragments).toInt)
        (fun lCurrFragment => do
          let _ ← changeParameters host lCurrFragment
          let nextFragment ← RnpFragmentHeader.getNextFragment host lCurrFragment
          RnpFragmentHeader.changeEndianness lCurrFragment
          return .yield nextFragment) (RnpHeader.size : ℤ)
        (messageBytes host host serverType fs.length (fragmentsLength fs) unused
          (fragmentsBytes host fs ++ post))
      = .ok (next, messageBytes host host serverType fs.length (fragmentsLength fs) unused
          (fragmentsBytes o fs ++ post)) := by
  have hcount := length_le_fragmentsLength fs
  -- after `i` turns the first `i` fragments are turned around
  have hloop : ∃ (next : ℤ) (mem' : Region),
      forInt (fun _ => do return (← getWord host RnpHeader.nrFragments).toInt)
        (fun lCurrFragment => do
          let _ ← changeParameters host lCurrFragment
          let nextFragment ← RnpFragmentHeader.getNextFragment host lCurrFragment
          RnpFragmentHeader.changeEndianness lCurrFragment
          return .yield nextFragment) (RnpHeader.size : ℤ)
        (messageBytes host host serverType fs.length (fragmentsLength fs) unused
          (fragmentsBytes host fs ++ post)) = .ok (next, mem') ∧
      next = (RnpHeader.size + fragmentsLength (fs.take fs.length) : ℕ) ∧
      mem' = messageBytes host host serverType fs.length (fragmentsLength fs) unused
        (fragmentsBytes o (fs.take fs.length) ++ (fragmentsBytes host (fs.drop fs.length) ++ post)) := by
    refine forInt_run (n := fs.length) (by omega)
      (fun i (s : ℤ) mem => s = (RnpHeader.size + fragmentsLength (fs.take i) : ℕ) ∧
      mem = messageBytes host host serverType fs.length (fragmentsLength fs) unused
        (fragmentsBytes o (fs.take i) ++ (fragmentsBytes host (fs.drop i) ++ post))) ?_ ?_ ?_
    · rintro i s mem ⟨-, rfl⟩
      rw [bind_ok (getWord_nrFragments ..), toInt_ofNat_of_lt (by omega)]
      rfl
    · rintro i s mem hi ⟨rfl, rfl⟩
      have hf := fragment_totalLength_le hi
      refine ⟨(RnpHeader.size + fragmentsLength (fs.take (i + 1)) : ℕ),
        messageBytes host host serverType fs.length (fragmentsLength fs) unused
          (fragmentsBytes o (fs.take (i + 1)) ++ (fragmentsBytes host (fs.drop (i + 1)) ++ post)),
        ?_, rfl, rfl⟩
      have hplace : ((RnpHeader.size + fragmentsLength (fs.take i) : ℕ) : ℤ)
          = (messageBytes host host serverType fs.length (fragmentsLength fs) unused
            (fragmentsBytes o (fs.take i))).length := by
        rw [length_messageBytes _ _ _ _ _ hunused, length_fragmentsBytes]
      rw [← List.cons_getElem_drop_succ (h := hi), fragmentsBytes_cons, List.append_assoc,
        List.take_succ_eq_append_getElem hi, fragmentsBytes_append, fragmentsBytes_cons,
        fragmentsBytes_nil, List.append_nil, List.append_assoc, messageBytes_append, messageBytes_append,
        fragmentsLength_append, ← Nat.add_assoc, Nat.cast_add (RnpHeader.size + _)]
      exact changeFragment_run h hplace fs[i] (by omega)
    · exact ⟨rfl, by simp⟩
  obtain ⟨next, mem', hrun, -, rfl⟩ := hloop
  refine ⟨next, ?_⟩
  rw [hrun, List.take_length, List.drop_length]
  rfl

/-- The header is turned around at the end. -/
theorem changeHeader_run (h : host ≠ o) (n k : ℕ) (body : Region) :
    RnpHeader.changeEndianness o (messageBytes host host serverType n k unused body)
      = .ok (true, messageBytes host o serverType n k unused body) := by
  have hends : Rnp.endianness host ≠ Rnp.endianness o := by
    cases host <;> cases o <;> first | exact absurd rfl h | decide
  have hput : put RnpHeader.messageEndianness [Rnp.endianness o] (wordBytes .little Rnp.rnpProtocolId ++
      ([Rnp.endianness host] ++ ([Rnp.endianness host, 1, 0] ++
        (wordsBytes host (headerWords serverType n k) ++ (unused ++ body)))))
        = .ok ((), headerStart host o ++ (wordsBytes host (headerWords serverType n k) ++ (unused ++ body))) :=
    put_mid rfl rfl
  rw [RnpHeader.changeEndianness, bind_ok (getEndianness_run ..), if_neg hends]
  refine Eq.trans (bind_ok hput) ?_
  rw [headerWords]
  refine Eq.trans (bind_ok (swapWord_first h rfl _ _)) ?_
  refine Eq.trans (bind_ok (swapWord_first h (by simp [RnpHeader.nrFragments]) _ _)) ?_
  refine Eq.trans (bind_ok (swapWord_first h (by simp [RnpHeader.serverType]) _ _)) ?_
  refine Eq.trans (bind_ok (swapWord_first h (by simp [RnpHeader.authInfoStart]) _ _)) ?_
  refine Eq.trans (bind_ok (swapWord_first h (by simp [RnpHeader.authInfoLength]) _ _)) ?_
  refine Eq.trans (bind_ok (swapWord_first h (by simp [RnpHeader.comprInfoStart]) _ _)) ?_
  refine Eq.trans (bind_ok (swapWord_first h (by simp [RnpHeader.comprInfoLength]) _ _)) ?_
  refine Eq.trans (bind_ok (swapWord_first h (by simp [RnpHeader.dataStart]) _ _)) ?_
  refine Eq.trans (bind_ok (swapWord_first h (by simp [RnpHeader.dataLength]) _ _)) ?_
  rw [messageBytes, headerWords]
  simp only [wordsBytes_cons, wordsBytes_nil, List.append_assoc, List.nil_append]
  rfl

/-- **The byte order of a message is changed as a whole.** -/
theorem changeToPartnerEndianness_run (o : Order) (hunused : unused.length = 20)
    (hsize : fragmentsLength fs < 2 ^ 31) :
    ∃ changed, changeToPartnerEndianness host o (messageBytes host host serverType fs.length
        (fragmentsLength fs) unused (fragmentsBytes host fs ++ post))
      = .ok (changed, messageBytes host o serverType fs.length (fragmentsLength fs) unused
        (fragmentsBytes o fs ++ post)) := by
  rw [changeToPartnerEndianness, bind_ok (getEndianness_run ..)]
  by_cases h : host = o
  · subst h
    exact ⟨false, by rw [if_pos rfl]; rfl⟩
  · have hends : Rnp.endianness o ≠ Rnp.endianness host := by
      cases host <;> cases o <;> first | exact absurd rfl h | decide
    obtain ⟨next, hloop⟩ := changeFragments_run h serverType post hunused hsize
    refine ⟨true, ?_⟩
    have hfirst : RnpHeader.getFirstFragment host (messageBytes host host serverType fs.length
        (fragmentsLength fs) unused (fragmentsBytes host fs ++ post))
          = .ok (RnpHeader.size, messageBytes host host serverType fs.length (fragmentsLength fs) unused
            (fragmentsBytes host fs ++ post)) := by
      rw [RnpHeader.getFirstFragment, bind_ok (getWord_dataStart ..)]
      rfl
    rw [if_neg hends]
    refine Eq.trans (bind_ok hfirst) (Eq.trans (bind_ok hloop) ?_)
    exact bind_ok (changeHeader_run h ..)

end RnpProtocolEncoder

end Rasdaman
