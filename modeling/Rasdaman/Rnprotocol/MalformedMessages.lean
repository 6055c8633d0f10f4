import Rasdaman.Rnprotocol.ForeignOrder

/-!
# Rnprotocol/MalformedMessages — what the decoder does with any bytes

Which received bytes the decoder and a walk over the message stay inside of (`malformed_messages`).
-/

namespace Rasdaman

open Bytes Memory

namespace RnpProtocolDecoder

variable {host o : Order} {mem mem' : Region} {cur : ℤ} {ws : Set ℤ} {d : RnpProtocolDecoder}

/-! ## The walk over a message that is turned around -/

section Walk

variable (h : Turned o host mem cur ws mem')
include h

theorem seeParameter_turned {p : ℤ} (hd : d.currParameter = some p) (hp : ∀ a ∈ headerWordsAt p, a ∈ ws) :
    ReadsIff (RnpParameter.HoldsData o mem p) (fun _ => True) mem' (seeParameter host d mem') := by
  have htype := h.getWord_turned (hp (p + RnpParameter.paramType) (by simp [headerWordsAt, RnpParameter.paramType]))
  have hdata := h.getWord_turned (hp (p + RnpParameter.dataType) (by simp [headerWordsAt, RnpParameter.dataType]))
  have hlength := h.getWord_turned
    (hp (p + RnpParameter.dataLength) (by simp [headerWordsAt, RnpParameter.dataLength]))
  rw [seeParameter, hd, bind_ok (deref_some ..), bind_ok htype, bind_ok hdata, bind_ok hlength]
  change ReadsIff (0 ≤ intAt o mem (p + RnpParameter.dataLength) ∧ _) _ _ _
  rw [← intAt]
  by_cases hneg : intAt o mem (p + RnpParameter.dataLength) < 0
  · rw [if_pos hneg]
    exact .error fun hin => absurd hin.1 (by omega)
  · rw [if_neg hneg]
    by_cases hin : Inside mem (RnpParameter.getData p) (intAt o mem (p + RnpParameter.dataLength)).toNat
    · refine Eq.subst (motive := ReadsIff _ _ _) (bind_ok (get_inside (h.inside_iff.mpr hin))).symm ?_
      exact .ok ⟨by omega, hin⟩ trivial
    · refine Eq.subst (motive := ReadsIff _ _ _)
        (bind_error (get_outside fun hin' => hin (h.inside_iff.mp hin'))).symm ?_
      exact .error fun hboth => hin hboth.2

theorem walkParameters_turned {f : ℤ} (hd : d.currFragment = some f)
    (hf : fragmentWords o mem f ⊆ ws) (m j : ℕ) (hm : j + m = RnpFragmentHeader.parameters o mem f) :
    ReadsIff (∀ i, j ≤ i → i < RnpFragmentHeader.parameters o mem f →
        RnpParameter.HoldsData o mem (RnpFragmentHeader.parameterAt o mem f i)) (fun _ => True) mem'
      (walkParameters host m (onParameter o mem d f j) mem') := by
  induction m generalizing j with
  | zero => exact .ok (fun i hji hi => absurd hi (by omega)) trivial
  | succ m ih =>
    have hj : j < RnpFragmentHeader.parameters o mem f := by omega
    have hcurrent : (onParameter o mem d f j).currParameter = some (RnpFragmentHeader.parameterAt o mem f j) :=
      if_pos hj
    have hwords : ∀ a ∈ headerWordsAt (RnpFragmentHeader.parameterAt o mem f j), a ∈ ws :=
      fun a ha => hf (.inr ⟨j, hj, ha⟩)
    have hnext := getNextParameter_turned (d := d) h hd
      (hf (.inl (by simp [headerWordsAt, RnpFragmentHeader.nrParams])))
      (hwords _ (by simp [headerWordsAt, RnpParameter.totalLength])) hj
    rw [walkParameters, if_neg (by rw [hcurrent]; exact Option.some_ne_none _)]
    have hrest (p : SeenParameter) : ReadsIff (∀ i, j + 1 ≤ i → i < RnpFragmentHeader.parameters o mem f →
        RnpParameter.HoldsData o mem (RnpFragmentHeader.parameterAt o mem f i)) (fun _ => True) mem'
        ((do let d ← getNextParameter host (onParameter o mem d f j)
             return p :: (← walkParameters host m d) : Access (List SeenParameter)) mem') := by
      rw [bind_ok hnext]
      exact (ih (j + 1) (by omega)).andThen fun ps _ => ⟨_, rfl, trivial⟩
    refine ((seeParameter_turned h hcurrent hwords).bind fun p _ => hrest p).congr ⟨?_, ?_⟩
    · rintro ⟨hfirst, hrest⟩ i hji hi
      rcases Nat.eq_or_lt_of_le hji with rfl | hlt
      · exact hfirst
      · exact hrest i hlt hi
    · exact fun hall => ⟨hall j le_rfl hj, fun i hji hi => hall i (by omega) hi⟩

theorem walkFragments_turned (hws : RnpHeader.words o mem ⊆ ws) (m i : ℕ)
    (hm : i + m = RnpHeader.fragments o mem) :
    ReadsIff (∀ k, i ≤ k → k < RnpHeader.fragments o mem →
        ∀ j < RnpFragmentHeader.parameters o mem (RnpHeader.fragmentAt o mem k),
          RnpParameter.HoldsData o mem
            (RnpFragmentHeader.parameterAt o mem (RnpHeader.fragmentAt o mem k) j)) (fun _ => True) mem'
      (walkFragments host m (onFragment o mem d i) mem') := by
  induction m generalizing i d with
  | zero => exact .ok (fun k hik hk => absurd hk (by omega)) trivial
  | succ m ih =>
    have hi : i < RnpHeader.fragments o mem := by omega
    have hcurrent : (onFragment o mem d i).currFragment = some (RnpHeader.fragmentAt o mem i) := if_pos hi
    have hwords : fragmentWords o mem (RnpHeader.fragmentAt o mem i) ⊆ ws := fun a ha => hws (.inr ⟨i, hi, ha⟩)
    have hheader : ∀ a ∈ headerWordsAt (RnpHeader.fragmentAt o mem i), a ∈ ws := fun a ha => hwords (.inl ha)
    have htype := h.getWord_turned (hheader (RnpHeader.fragmentAt o mem i + RnpFragmentHeader.fragmType)
      (by simp [headerWordsAt, RnpFragmentHeader.fragmType]))
    have hcommand := h.getWord_turned (hheader (RnpHeader.fragmentAt o mem i + RnpFragmentHeader.command)
      (by simp [headerWordsAt, RnpFragmentHeader.command]))
    have hparams := hheader (RnpHeader.fragmentAt o mem i + RnpFragmentHeader.nrParams)
      (by simp [headerWordsAt, RnpFragmentHeader.nrParams])
    have htotal := hheader (RnpHeader.fragmentAt o mem i + RnpFragmentHeader.totalLength)
      (by simp [headerWordsAt, RnpFragmentHeader.totalLength])
    have hn : RnpHeader.nrFragments ∈ ws := hws (.inl (by simp [RnpHeader.wordAddresses]))
    have hcount : countParameters host (onParameter o mem (onFragment o mem d i) (RnpHeader.fragmentAt o mem i) 0)
        mem' = .ok (intAt o mem (RnpHeader.fragmentAt o mem i + RnpFragmentHeader.nrParams), mem') :=
      countParameters_turned h hcurrent hparams
    have hnext : getNextFragment host
        (onParameter o mem (onFragment o mem d i) (RnpHeader.fragmentAt o mem i) 0) mem'
          = .ok (onFragment o mem (onParameter o mem (onFragment o mem d i) (RnpHeader.fragmentAt o mem i) 0)
            (i + 1), mem') := getNextFragment_turned h hn htotal hi hcurrent rfl
    have hrest (fragmType command totalLength : Word) (parameters : List SeenParameter) :
        ReadsIff (∀ k, i + 1 ≤ k → k < RnpHeader.fragments o mem →
          ∀ j < RnpFragmentHeader.parameters o mem (RnpHeader.fragmentAt o mem k), RnpParameter.HoldsData o mem
            (RnpFragmentHeader.parameterAt o mem (RnpHeader.fragmentAt o mem k) j)) (fun _ => True) mem'
        ((do let d ← getNextFragment host
               (onParameter o mem (onFragment o mem d i) (RnpHeader.fragmentAt o mem i) 0)
             return ⟨fragmType, command, totalLength, parameters⟩ :: (← walkFragments host m d) :
               Access (List SeenFragment)) mem') := by
      rw [bind_ok hnext]
      exact (ih (i + 1) (by omega)).andThen fun fs _ => ⟨_, rfl, trivial⟩
    rw [walkFragments, if_neg (by rw [hcurrent]; exact Option.some_ne_none _), hcurrent,
      bind_ok (deref_some ..), bind_ok htype, bind_ok hcommand, bind_ok (h.getWord_turned htotal),
      bind_ok (getFirstParameter_turned h hcurrent hparams), bind_ok hcount]
    refine ((walkParameters_turned h hcurrent hwords _ 0 (Nat.zero_add _)).bind fun ps _ =>
      hrest _ _ _ ps).congr ⟨?_, ?_⟩
    · rintro ⟨hfirst, hrest⟩ k hik hk j hj
      rcases Nat.eq_or_lt_of_le hik with rfl | hlt
      · exact hfirst j (Nat.zero_le j) hj
      · exact hrest k hlt hk j hj
    · exact fun hall => ⟨fun j _ hj => hall i le_rfl hi j hj, fun k hik hk => hall k (by omega) hk⟩

theorem walk_turned (hws : RnpHeader.words o mem ⊆ ws) :
    ReadsIff (RnpHeader.HoldsData o mem) (fun _ => True) mem' (walk host d mem') := by
  have hn : RnpHeader.nrFragments ∈ ws := hws (.inl (by simp [RnpHeader.wordAddresses]))
  have hs : RnpHeader.dataStart ∈ ws := hws (.inl (by simp [RnpHeader.wordAddresses]))
  rw [walk, bind_ok (getFirstFragment_turned h hn hs), bind_ok (countFragments_turned h hn)]
  exact (walkFragments_turned h hws _ 0 (Nat.zero_add _)).congr
    ⟨fun hall k hk => hall k (Nat.zero_le k) hk, fun hall k _ hk => hall k hk⟩

end Walk

/-! ## The integrity test -/

theorem turned_self (host : Order) (mem : Region) :
    Turned host host mem mem.length {a | Inside mem a 4} mem :=
  ⟨rfl, fun _ _ _ _ => rfl, fun _ ha => ⟨ha, ha.2, rfl⟩⟩

/-- The loop over the parameters leaves no parameter, or a failed test. -/
theorem testParameters_reads {f : ℤ} (hd : d.currFragment = some f)
    (hf : Inside mem (f + RnpFragmentHeader.nrParams) 4) (length : ℤ) (ok : Bool) :
    ReadsIff (TestsParametersInside host mem f length (RnpFragmentHeader.parameters host mem f)
        (RnpFragmentHeader.getFirstParameter f)) (fun s => s.1.currParameter = none ∨ s.2 = false) mem
      (forInt (fun s => countParameters host s.1) (testParameter host f length)
        (onParameter host mem d f 0, ok) mem) := by
  have h := turned_self host mem
  have hcount (j : ℕ) : countParameters host (onParameter host mem d f j) mem
      = .ok (intAt host mem (f + RnpFragmentHeader.nrParams), mem) := countParameters_turned h hd hf
  -- the parameters that are left after `i` turns
  refine forInt_rule (n := RnpFragmentHeader.parameters host mem f) (toInt_toNat_le _)
    (fun i s mem₁ => mem₁ = mem ∧ s.1 = onParameter host mem d f i ∧
    (TestsParametersInside host mem f length (RnpFragmentHeader.parameters host mem f)
        (RnpFragmentHeader.getFirstParameter f) ↔
      TestsParametersInside host mem f length (RnpFragmentHeader.parameters host mem f - i)
        (RnpFragmentHeader.parameterAt host mem f i))) _ ?_ ?_ ?_ ⟨rfl, rfl, Iff.rfl⟩
  · rintro i ⟨d', ok'⟩ mem₁ ⟨rfl, rfl, -⟩
    exact ⟨_, hcount i, rfl⟩
  · rintro i ⟨d', ok'⟩ mem₁ hi ⟨rfl, rfl, hleft⟩
    obtain ⟨k, hk⟩ : ∃ k, RnpFragmentHeader.parameters host mem₁ f - i = k + 1 :=
      ⟨RnpFragmentHeader.parameters host mem₁ f - i - 1, by omega⟩
    have hcurrent : (onParameter host mem₁ d f i).currParameter
        = some (RnpFragmentHeader.parameterAt host mem₁ f i) := if_pos hi
    rw [hk, TestsParametersInside] at hleft
    have hbody : testParameter host f length (onParameter host mem₁ d f i, ok') mem₁
        = (do
          if ¬ (f + RnpFragmentHeader.size ≤ RnpFragmentHeader.parameterAt host mem₁ f i ∧
              RnpFragmentHeader.parameterAt host mem₁ f i < f + length) then
            return .done (onParameter host mem₁ d f i, false)
          if (← getWord host (RnpFragmentHeader.parameterAt host mem₁ f i + RnpParameter.totalLength)).toInt
              > length then
            return .done (onParameter host mem₁ d f i, false)
          return .yield (← getNextParameter host (onParameter host mem₁ d f i), ok') :
            Access (ForInStep (RnpProtocolDecoder × Bool))) mem₁ := by
      rw [testParameter]
      dsimp only
      rw [hcurrent]
    rw [TurnsWell, hbody]
    by_cases hplace : f + RnpFragmentHeader.size ≤ RnpFragmentHeader.parameterAt host mem₁ f i ∧
        RnpFragmentHeader.parameterAt host mem₁ f i < f + length
    · rw [if_neg (not_not_intro hplace)]
      by_cases hin : Inside mem₁ (RnpFragmentHeader.parameterAt host mem₁ f i + RnpParameter.totalLength) 4
      · rw [bind_ok (getWord_inside hin), ← intAt]
        by_cases hlong : intAt host mem₁ (RnpFragmentHeader.parameterAt host mem₁ f i + RnpParameter.totalLength)
            > length
        · rw [if_pos hlong]
          refine .inr (.inl ⟨_, mem₁, rfl, .ok (hleft.mpr fun _ => ⟨hin, fun hle => ?_⟩) (.inr rfl)⟩)
          exact absurd hle (not_le.mpr hlong)
        · rw [if_neg hlong, bind_ok (getNextParameter_turned h hd hf hin hi)]
          refine .inl ⟨_, mem₁, rfl, rfl, rfl, hleft.trans ?_⟩
          rw [RnpFragmentHeader.parameterAt_succ, show RnpFragmentHeader.parameters host mem₁ f - (i + 1) = k by omega]
          exact ⟨fun hall => (hall hplace).2 (not_lt.mp hlong), fun hall _ => ⟨hin, fun _ => hall⟩⟩
      · refine .inr (.inr ⟨.outside, bind_error (getWord_outside hin), .error fun hall => ?_⟩)
        exact hin (hleft.mp hall hplace).1
    · rw [if_pos hplace]
      exact .inr (.inl ⟨_, mem₁, rfl, .ok (hleft.mpr fun hboth => absurd hboth hplace) (.inr rfl)⟩)
  · rintro ⟨d', ok'⟩ mem₁ ⟨rfl, rfl, hleft⟩
    rw [Nat.sub_self, TestsParametersInside] at hleft
    exact .ok (hleft.mpr trivial) (.inl (if_neg (Nat.lt_irrefl _)))

/-- The first fragment fails the test. -/
theorem testFragment_reads {f : ℤ} (hd : d.currFragment = some f) (ok : Bool) :
    ReadsIff (TestsFragmentInside host mem f) (fun step => ∃ s, step = .done s ∧ s.2 = false) mem
      (testFragment host (intAt host mem RnpHeader.totalMessageLength) (d, ok) mem) := by
  have h := turned_self host mem
  have hget : (StateT.get : Access Region) mem = .ok (mem, mem) := rfl
  rw [testFragment]
  dsimp only
  rw [hd, bind_ok (deref_some ..)]
  by_cases hplace : (RnpHeader.size : ℤ) ≤ f ∧ f < intAt host mem RnpHeader.totalMessageLength
  · rw [if_neg (not_not_intro hplace), bind_ok hget]
    by_cases hin : Inside mem (f + RnpFragmentHeader.totalLength) 4
    · have hparams : Inside mem (f + RnpFragmentHeader.nrParams) 4 := by
        obtain ⟨-, hend⟩ := hin
        rw [RnpFragmentHeader.totalLength] at hend
        refine ⟨?_, ?_⟩ <;> rw [RnpFragmentHeader.nrParams] <;> omega
      rw [bind_ok (getWord_inside hin), ← intAt]
      by_cases hlong : intAt host mem (f + RnpFragmentHeader.totalLength) > mem.length - RnpHeader.size
      · rw [if_pos hlong]
        exact .ok (fun _ => ⟨hin, fun hle => absurd hle (not_le.mpr hlong)⟩) ⟨_, rfl, rfl⟩
      · rw [if_neg hlong, bind_ok (getFirstParameter_turned h hd hparams)]
        refine ((testParameters_reads hd hparams _ ok).andThen ?_).congr ?_
        · rintro ⟨d', ok'⟩ hend
          refine ⟨.done (d', false), ?_, _, rfl, rfl⟩
          dsimp only at hend ⊢
          by_cases hcurrent : d'.currParameter = some (f + intAt host mem (f + RnpFragmentHeader.totalLength))
          · have hfail : ok' = false := hend.resolve_left (by rw [hcurrent]; exact Option.some_ne_none _)
            rw [if_neg (not_not_intro hcurrent), if_pos hfail]
            rfl
          · rw [if_pos hcurrent]
            rfl
        · exact ⟨fun hall _ => ⟨hin, fun _ => hall⟩, fun hall => (hall hplace).2 (not_lt.mp hlong)⟩
    · rw [ReadsIff]
      exact ⟨fun hall => absurd (hall hplace).1 hin, fun _ => bind_error (getWord_outside hin)⟩
  · rw [if_pos hplace]
    exact .ok (fun hboth => absurd hboth hplace) ⟨_, rfl, rfl⟩

theorem isRnpMessage_inside (host : Order) (h : Inside mem RnpHeader.protocolId 4) :
    RnpHeader.isRnpMessage host mem = .ok (decide (RnpHeader.IsRnp mem), mem) := by
  have hlength := length_slice_inside h
  rw [RnpHeader.isRnpMessage, bind_ok (getWord_inside h)]
  cases host with
  | little => rfl
  | big =>
    have hswap : Rnp.swapBytes (wordAt .big mem RnpHeader.protocolId) = wordAt .little mem RnpHeader.protocolId := by
      have hne : Order.big ≠ Order.little := nofun
      rw [wordAt, wordAt, Rnp.swapBytes, ← reverse_wordBytes hne, wordBytes_wordOf _ hlength,
        wordOf_reverse hne.symm hlength]
    dsimp only
    rw [hswap]
    rfl

/-- The integrity test fails when there is a fragment. -/
theorem testIntegrity_reads (hid : Inside mem RnpHeader.protocolId 4) (hrnp : RnpHeader.IsRnp mem)
    (hbyte : Inside mem RnpHeader.messageEndianness 1)
    (hhost : RnpHeader.orderByte mem = Rnp.endianness host) :
    ReadsIff (TestsInside host mem)
      (fun r => r.1 = true → intAt host mem RnpHeader.nrFragments ≤ 0) mem (testIntegrity host d mem) := by
  have h := turned_self host mem
  have hends := RnpHeader.getEndianness_inside hbyte
  rw [testIntegrity, bind_ok (isRnpMessage_inside host hid), if_neg (by simpa using hrnp)]
  by_cases hn : Inside mem RnpHeader.nrFragments 4
  · have htotal : RnpHeader.getTotalLength host mem = .ok (wordAt host mem RnpHeader.totalMessageLength, mem) := by
      have hin : Inside mem RnpHeader.totalMessageLength 4 := by
        obtain ⟨-, hend⟩ := hn
        rw [RnpHeader.nrFragments] at hend
        refine ⟨?_, ?_⟩ <;> rw [RnpHeader.totalMessageLength] <;> omega
      rw [RnpHeader.getTotalLength, bind_ok hends, bind_ok (getWord_inside hin), if_pos hhost]
      rfl
    have hcount := countFragments_turned h hn
    rw [bind_ok htotal, ← intAt]
    by_cases hpos : 0 < intAt host mem RnpHeader.nrFragments
    · by_cases hs : Inside mem RnpHeader.dataStart 4
      · have hcurrent : (onFragment host mem d 0).currFragment = some (intAt host mem RnpHeader.dataStart) :=
          if_pos (by rw [RnpHeader.fragments]; omega)
        have hloop : ReadsIff (TestsFragmentInside host mem (intAt host mem RnpHeader.dataStart))
            (fun s => s.2 = false) mem (forInt (fun _ => countFragments host)
              (testFragment host (intAt host mem RnpHeader.totalMessageLength)) (onFragment host mem d 0, true)
              mem) := .forInt_first hcount hpos (testFragment_reads hcurrent true)
        rw [bind_ok (getFirstFragment_turned h hn hs)]
        refine (hloop.andThen ?_).congr
          ⟨fun hall => ⟨hn, fun _ => ⟨hs, hall⟩⟩, fun hall => (hall.2 hpos).2⟩
        rintro ⟨d', ok'⟩ hfail
        exact ⟨(ok', d'), rfl, fun htrue => absurd (hfail.symm.trans htrue) Bool.false_ne_true⟩
      · have hfirst : getFirstFragment host d mem = .error .outside := by
          rw [getFirstFragment, bind_ok (countFragments_turned h hn), if_pos hpos]
          exact bind_error (bind_error (getWord_outside hs))
        rw [bind_error hfirst]
        exact .error fun hall => hs (hall.2 hpos).1
    · have hfirst : getFirstFragment host d mem = .ok (onFragment host mem d 0, mem) := by
        rw [getFirstFragment, bind_ok (countFragments_turned h hn), if_neg hpos, onFragment,
          if_neg (by rw [RnpHeader.fragments]; omega)]
        rfl
      have hloop : forInt (fun _ => countFragments host)
          (testFragment host (intAt host mem RnpHeader.totalMessageLength)) (onFragment host mem d 0, true) mem
            = .ok ((onFragment host mem d 0, true), mem) := forInt_zero hcount (not_lt.mp hpos)
      rw [bind_ok hfirst, bind_ok hloop]
      exact .ok ⟨hn, fun h => absurd h hpos⟩ fun _ => not_lt.mp hpos
  · have hcount : countFragments host mem = .error .outside := bind_error (getWord_outside hn)
    have hfirst : getFirstFragment host d mem = .error .outside := bind_error hcount
    by_cases hin : Inside mem RnpHeader.totalMessageLength 4
    · have htotal : RnpHeader.getTotalLength host mem = .ok (wordAt host mem RnpHeader.totalMessageLength, mem) := by
        rw [RnpHeader.getTotalLength, bind_ok hends, bind_ok (getWord_inside hin), if_pos hhost]
        rfl
      rw [bind_ok htotal, bind_error hfirst]
      exact .error fun hall => hn hall.1
    · have htotal : RnpHeader.getTotalLength host mem = .error .outside := by
        rw [RnpHeader.getTotalLength, bind_ok hends, bind_error (getWord_outside hin)]
      rw [bind_error htotal]
      exact .error fun hall => hn hall.1

/-! ## Any received bytes -/

/-- `decode` stays inside the received bytes, and so does a walk over a message that it accepts. -/
def Contained (host : Order) (d : RnpProtocolDecoder) (mem : Region) : Prop :=
  ∃ ok d' mem', decode host d mem = .ok ((ok, d'), mem') ∧ (ok = true → ∃ r, walk host d' mem' = .ok r)

/-- The bytes that are looked at are there: the protocol id and the byte that tells the order; in the order
of the host what the integrity test comes to; in the other order the header, all parts, each of them behind
those in front of it, and the data of all parameters. -/
def ReadsInside (host : Order) (mem : Region) : Prop :=
  Inside mem RnpHeader.protocolId 4 ∧ (RnpHeader.IsRnp mem →
    Inside mem RnpHeader.messageEndianness 1 ∧
    (RnpHeader.orderByte mem = Rnp.endianness host → TestsInside host mem) ∧
    (RnpHeader.orderByte mem ≠ Rnp.endianness host →
      (∃ cur, RnpHeader.places (other host) mem = .ok cur) ∧ RnpHeader.HoldsData (other host) mem))

/-- A message in the other order with a part that begins before the end of a part in front of it. -/
def Overlapping (host : Order) (mem : Region) : Prop :=
  RnpHeader.IsRnp mem ∧ RnpHeader.orderByte mem ≠ Rnp.endianness host ∧
    RnpHeader.places (other host) mem = .error .behind

/-- A message in the order of the host. -/
theorem contained_native (hid : Inside mem RnpHeader.protocolId 4) (hrnp : RnpHeader.IsRnp mem)
    (hbyte : Inside mem RnpHeader.messageEndianness 1)
    (hhost : RnpHeader.orderByte mem = Rnp.endianness host) :
    Contained host d mem ↔ TestsInside host mem := by
  have hdecode : decode host d mem = testIntegrity host d mem := by
    rw [decode, bind_ok (isRnpMessage_inside host hid), if_neg (by simpa using hrnp),
      bind_ok (RnpHeader.getEndianness_inside hbyte), if_pos hhost]
  obtain ⟨hinside, houtside⟩ := testIntegrity_reads (d := d) hid hrnp hbyte hhost
  constructor
  · rintro ⟨ok, d', mem', hrun, -⟩
    by_contra hnot
    rw [hdecode, houtside hnot] at hrun
    cases hrun
  · intro htests
    obtain ⟨⟨ok, d'⟩, hrun, hnone⟩ := hinside htests
    refine ⟨ok, d', mem, hdecode.trans hrun, fun hok => ⟨([], mem), ?_⟩⟩
    have hcount := countFragments_turned (turned_self host mem) htests.1
    have hfirst : getFirstFragment host d' mem
        = .ok ({ d' with currFragmentIdx := 0, currFragment := none }, mem) := by
      rw [getFirstFragment, bind_ok hcount, if_neg (not_lt.mpr (hnone hok))]
      rfl
    rw [walk, bind_ok hfirst, bind_ok hcount, Int.toNat_of_nonpos (hnone hok)]
    rfl

/-- A message in the other order. -/
theorem contained_foreign (hid : Inside mem RnpHeader.protocolId 4) (hrnp : RnpHeader.IsRnp mem)
    (hbyte : Inside mem RnpHeader.messageEndianness 1)
    (hhost : RnpHeader.orderByte mem ≠ Rnp.endianness host)
    (hplaces : RnpHeader.places (other host) mem ≠ .error .behind) :
    Contained host d mem ↔
      (∃ cur, RnpHeader.places (other host) mem = .ok cur) ∧ RnpHeader.HoldsData (other host) mem := by
  have hdecode : decode host d mem =
      (changeToHostEndianness host d >>= fun done => return (true, done.2)) mem := by
    rw [decode, bind_ok (isRnpMessage_inside host hid), if_neg (by simpa using hrnp),
      bind_ok (RnpHeader.getEndianness_inside hbyte), if_neg hhost]
  have hchange := changeToHostEndianness_tracks (ne_other host).symm hhost hbyte d
  rcases hp : RnpHeader.places (other host) mem with e | cur
  · cases e with
    | behind => exact absurd hp hplaces
    | outside =>
      rw [hp] at hchange
      constructor
      · rintro ⟨ok, d', mem', hrun, -⟩
        rw [hdecode, bind_error hchange] at hrun
        cases hrun
      · rintro ⟨⟨cur, hcur⟩, -⟩
        cases hcur
  · rw [hp] at hchange
    obtain ⟨⟨changed, d'⟩, mem', hrun, hturned⟩ := hchange
    have hdone : decode host d mem = .ok ((true, d'), mem') := by
      rw [hdecode, bind_ok hrun]
      rfl
    obtain ⟨hinside, houtside⟩ := walk_turned (d := d') hturned subset_rfl
    constructor
    · rintro ⟨ok, d'', mem'', hrun', hwalk⟩
      cases hdone.symm.trans hrun'
      refine ⟨⟨cur, rfl⟩, ?_⟩
      by_contra hnot
      obtain ⟨r, hr⟩ := hwalk rfl
      rw [houtside hnot] at hr
      cases hr
    · rintro ⟨-, hdata⟩
      obtain ⟨seen, hwalk, -⟩ := hinside hdata
      exact ⟨true, d', mem', hdone, fun _ => ⟨(seen, mem'), hwalk⟩⟩

/-- **What the decoder does with any received bytes.**  It stays inside of them when the bytes that it looks
at are there; otherwise it does not, but for messages in the other order whose parts overlap. -/
theorem malformed_messages (host : Order) (d : RnpProtocolDecoder) (mem : Region) :
    (ReadsInside host mem → Contained host d mem) ∧
    (Contained host d mem → ReadsInside host mem ∨ Overlapping host mem) := by
  by_cases hid : Inside mem RnpHeader.protocolId 4
  · by_cases hrnp : RnpHeader.IsRnp mem
    · by_cases hbyte : Inside mem RnpHeader.messageEndianness 1
      · by_cases hhost : RnpHeader.orderByte mem = Rnp.endianness host
        · have hiff := contained_native (d := d) hid hrnp hbyte hhost
          exact ⟨fun h => hiff.mpr ((h.2 hrnp).2.1 hhost),
            fun h => .inl ⟨hid, fun _ => ⟨hbyte, fun _ => hiff.mp h, fun hne => absurd hhost hne⟩⟩⟩
        · by_cases hbehind : RnpHeader.places (other host) mem = .error .behind
          · refine ⟨fun h => ?_, fun _ => .inr ⟨hrnp, hhost, hbehind⟩⟩
            obtain ⟨⟨cur, hcur⟩, -⟩ := (h.2 hrnp).2.2 hhost
            rw [hbehind] at hcur
            cases hcur
          · have hiff := contained_foreign (d := d) hid hrnp hbyte hhost hbehind
            exact ⟨fun h => hiff.mpr ((h.2 hrnp).2.2 hhost),
              fun h => .inl ⟨hid, fun _ => ⟨hbyte, fun heq => absurd heq hhost, fun _ => hiff.mp h⟩⟩⟩
      · refine ⟨fun h => absurd (h.2 hrnp).1 hbyte, ?_⟩
        rintro ⟨ok, d', mem', hrun, -⟩
        have hends : RnpHeader.getEndianness mem = .error .outside := bind_error (get_outside hbyte)
        rw [decode, bind_ok (isRnpMessage_inside host hid), if_neg (by simpa using hrnp),
          bind_error hends] at hrun
        cases hrun
    · refine ⟨fun _ => ⟨false, d, mem, ?_, fun h => absurd h Bool.false_ne_true⟩,
        fun _ => .inl ⟨hid, fun h => absurd h hrnp⟩⟩
      rw [decode, bind_ok (isRnpMessage_inside host hid), if_pos (by simpa using hrnp)]
      rfl
  · refine ⟨fun h => absurd h.1 hid, ?_⟩
    rintro ⟨ok, d', mem', hrun, -⟩
    have hword : RnpHeader.isRnpMessage host mem = .error .outside := bind_error (getWord_outside hid)
    rw [decode, bind_error hword] at hrun
    cases hrun

/-- A big-endian message of a header alone, which says that a fragment begins at 1000. -/
def farFragment : Region :=
  [0xC1, 0x2D, 0x7F, 0x01, 0, 0, 1, 0,
    0, 0, 0, 64, 0, 0, 0, 1, 0, 0, 0, 0, 0, 0, 0, 0, 0, 0, 0, 0, 0, 0, 0, 0, 0, 0, 0, 0,
    0, 0, 3, 0xE8, 0, 0, 0, 0] ++ List.replicate 20 0

/-- The decoder of a little-endian host writes behind the received bytes. -/
theorem far_fragment_not_contained : ¬ Contained .little ⟨none, 0, none, 0⟩ farFragment := by
  have hplaces : RnpHeader.places .big farFragment = .error .outside := by rfl
  have hbehind : RnpHeader.places (other .little) farFragment ≠ .error .behind := by
    rw [other, hplaces]
    exact nofun
  rw [contained_foreign (by decide) (by decide) (by decide) (by decide) hbehind]
  rintro ⟨⟨cur, hcur⟩, -⟩
  rw [other, hplaces] at hcur
  cases hcur

end RnpProtocolDecoder

end Rasdaman
