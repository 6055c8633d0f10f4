import Mathlib.Logic.Function.Iterate
import Rasdaman.Machinery.ByteOrder
import Rasdaman.Rnprotocol.RnpProtocolDecoder

/-!
# Rnprotocol/ForeignOrder — where the parts of a received message are

The places of the fragments and parameters of any message, computed from the bytes as they were received:
from its start and its lengths and counts in the order of the sender.  Nothing is assumed of them.
-/

namespace Rasdaman

open Bytes Memory

/-- What can be wrong with the place of a part: it is not inside the received bytes, or it begins before the
end of a part in front of it. -/
inductive Misplaced
  | outside
  | behind
  deriving DecidableEq, Repr

/-- Where the last of `n` parts from `p` on ends. -/
def placesFrom (next : ℤ → ℤ) (place : ℤ → ℤ → Except Misplaced ℤ) :
    ℕ → ℤ → ℤ → Except Misplaced ℤ
  | 0, _, cur => .ok cur
  | n + 1, p, cur => do
    let cur ← place cur p
    placesFrom next place n (next p) cur

/-- The addresses of the words of a fragment or parameter header. -/
def headerWordsAt (a : ℤ) : List ℤ := [a + 0, a + 4, a + 8, a + 12]

section

variable (o : Order) (mem : Region)

/-- A word as a number. -/
def intAt (a : ℤ) : ℤ := (wordAt o mem a).toInt

/-! ## Parameters -/

namespace RnpParameter

/-- How many bytes of the data have a byte order. -/
def orderedLength (dataType : Word) : ℕ :=
  if dataType = Rnp.DataType.int32.code ∨ dataType = Rnp.DataType.float32.code then 4
  else if dataType = Rnp.DataType.double64.code then 8
  else 0

/-- The place behind a parameter. -/
def next (p : ℤ) : ℤ := p + intAt o mem (p + totalLength)

/-- Where the parts go on after the parameter at `p`. -/
def place (cur p : ℤ) : Except Misplaced ℤ :=
  if ¬ Inside mem p size then .error .outside
  else if p < cur then .error .behind
  else if ¬ Inside mem (getData p) (orderedLength (wordAt o mem (p + dataType))) then .error .outside
  else .ok (getData p + orderedLength (wordAt o mem (p + dataType)))

/-- The `getDataLength()` bytes of data are there. -/
def HoldsData (p : ℤ) : Prop :=
  0 ≤ intAt o mem (p + dataLength) ∧ Inside mem (getData p) (intAt o mem (p + dataLength)).toNat

instance (p : ℤ) : Decidable (HoldsData o mem p) := inferInstanceAs (Decidable (_ ∧ _))

end RnpParameter

/-! ## Fragments -/

namespace RnpFragmentHeader

def next (f : ℤ) : ℤ := f + intAt o mem (f + totalLength)

/-- The number of parameters, none if it is negative. -/
def parameters (f : ℤ) : ℕ := (intAt o mem (f + nrParams)).toNat

/-- Where the parts go on after the fragment at `f` with its parameters. -/
def place (cur f : ℤ) : Except Misplaced ℤ :=
  if ¬ Inside mem f size then .error .outside
  else if f < cur then .error .behind
  else placesFrom (RnpParameter.next o mem) (RnpParameter.place o mem) (parameters o mem f)
    (getFirstParameter f) (getFirstParameter f)

/-- The place of a parameter. -/
def parameterAt (f : ℤ) (j : ℕ) : ℤ := (RnpParameter.next o mem)^[j] (getFirstParameter f)

theorem parameterAt_succ (f : ℤ) (j : ℕ) :
    parameterAt o mem f (j + 1) = RnpParameter.next o mem (parameterAt o mem f j) :=
  Function.iterate_succ_apply' ..

end RnpFragmentHeader

/-! ## Messages -/

namespace RnpHeader

/-- The protocol is recognised. -/
def IsRnp : Prop := wordAt .little mem protocolId = Rnp.rnpProtocolId

instance : Decidable (IsRnp mem) := inferInstanceAs (Decidable (_ = _))

/-- The byte that tells the order. -/
def orderByte : UInt8 := (slice 4 1 mem).headD 0

/-- The number of fragments, none if it is negative. -/
def fragments : ℕ := (intAt o mem nrFragments).toNat

/-- The place of a fragment. -/
def fragmentAt (i : ℕ) : ℤ := (RnpFragmentHeader.next o mem)^[i] (intAt o mem dataStart)

theorem fragmentAt_succ (i : ℕ) :
    fragmentAt o mem (i + 1) = RnpFragmentHeader.next o mem (fragmentAt o mem i) :=
  Function.iterate_succ_apply' ..

/-- The end of the words of the header. -/
def wordsEnd : ℕ := 44

/-- Where the parts of a message end. -/
def places : Except Misplaced ℤ :=
  if mem.length < wordsEnd then .error .outside
  else placesFrom (RnpFragmentHeader.next o mem) (RnpFragmentHeader.place o mem) (fragments o mem)
    (intAt o mem dataStart) wordsEnd

/-- The data of all parameters are there. -/
def HoldsData : Prop :=
  ∀ i < fragments o mem, ∀ j < RnpFragmentHeader.parameters o mem (fragmentAt o mem i),
    RnpParameter.HoldsData o mem (RnpFragmentHeader.parameterAt o mem (fragmentAt o mem i) j)

end RnpHeader

/-! ## What the integrity test looks at -/

/-- The parameters of the fragment at `f` that the integrity test comes to are inside. -/
def TestsParametersInside (f : ℤ) (length : ℤ) : ℕ → ℤ → Prop
  | 0, _ => True
  | n + 1, p => RnpFragmentHeader.getFirstParameter f ≤ p ∧ p < f + length →
      Inside mem (p + RnpParameter.totalLength) 4 ∧
      (intAt o mem (p + RnpParameter.totalLength) ≤ length →
        TestsParametersInside f length n (RnpParameter.next o mem p))

/-- The fragment at `f` is inside if the integrity test comes to it, and so are its parameters. -/
def TestsFragmentInside (f : ℤ) : Prop :=
  RnpHeader.size ≤ f ∧ f < intAt o mem RnpHeader.totalMessageLength →
    Inside mem (f + RnpFragmentHeader.totalLength) 4 ∧
    (intAt o mem (f + RnpFragmentHeader.totalLength) ≤ mem.length - RnpHeader.size →
      TestsParametersInside o mem f (intAt o mem (f + RnpFragmentHeader.totalLength))
        (RnpFragmentHeader.parameters o mem f) (RnpFragmentHeader.getFirstParameter f))

/-- What the integrity test of a message looks at is inside. -/
def TestsInside : Prop :=
  Inside mem RnpHeader.nrFragments 4 ∧
  (0 < intAt o mem RnpHeader.nrFragments →
    Inside mem RnpHeader.dataStart 4 ∧ TestsFragmentInside o mem (intAt o mem RnpHeader.dataStart))

end

end Rasdaman

/-!
## Messages in the other byte order

`changeToHostEndianness` goes through the parts of a message without looking where they are.  As long as
each part lies behind those in front of it, it goes where the lengths and counts of the sender lead
(`changeToHostEndianness_tracks`).
-/

namespace Rasdaman

open Bytes Memory

/-! ## Programs that follow the places -/

section Tracks

variable {α β σ : Type}

/-- A program goes to a place: it runs if the place is inside, and fails if it is not.  Nothing is said for
a place behind a part in front of it. -/
def Tracks (place : Except Misplaced ℤ) (R : ℤ → α → Region → Prop) (r : Except Fault (α × Region)) : Prop :=
  match place with
  | .ok cur => ∃ a mem, r = .ok (a, mem) ∧ R cur a mem
  | .error .outside => r = .error .outside
  | .error .behind => True

/-- What follows at the same place. -/
theorem Tracks.andThen {place : Except Misplaced ℤ} {R : ℤ → α → Region → Prop}
    {R' : ℤ → β → Region → Prop} {x : Access α} {f : α → Access β} {mem : Region}
    (h : Tracks place R (x mem))
    (hnext : ∀ cur a mem', R cur a mem' → ∃ b mem'', f a mem' = .ok (b, mem'') ∧ R' cur b mem'') :
    Tracks place R' ((x >>= f) mem) := by
  match place, h with
  | .ok cur, ⟨a, mem', hrun, hR⟩ =>
    obtain ⟨b, mem'', hrun', hR'⟩ := hnext cur a mem' hR
    exact ⟨b, mem'', (bind_ok hrun).trans hrun', hR'⟩
  | .error .outside, h => exact bind_error h
  | .error .behind, _ => trivial

theorem Tracks.mono {place : Except Misplaced ℤ} {R R' : ℤ → α → Region → Prop}
    {r : Except Fault (α × Region)} (h : Tracks place R r)
    (hR : ∀ cur a mem, R cur a mem → R' cur a mem) : Tracks place R' r := by
  match place, h with
  | .ok cur, ⟨a, mem, hrun, hr⟩ => exact ⟨a, mem, hrun, hR cur a mem hr⟩
  | .error .outside, h => exact h
  | .error .behind, _ => trivial

/-- A loop that goes to one part after another. -/
theorem tracks_forInt {count : σ → Access ℤ} {body : σ → Access (ForInStep σ)} {n : ℕ} (hn : n ≤ 2 ^ 31)
    (next : ℤ → ℤ) (place : ℤ → ℤ → Except Misplaced ℤ) (R : ℕ → ℤ → σ → Region → Prop)
    (hcount : ∀ i cur s mem, R i cur s mem → ∃ c, count s mem = .ok (c, mem) ∧ c.toNat = n) {p cur : ℤ}
    (hbody : ∀ i cur s mem, i < n → R i cur s mem →
      Tracks (place cur (next^[i] p)) (fun cur' step mem' => ∃ s', step = .yield s' ∧ R (i + 1) cur' s' mem')
        (body s mem))
    {s : σ} {mem : Region} (h : R 0 cur s mem) :
    Tracks (placesFrom next place n p cur) (R n) (forInt count body s mem) := by
  by_cases hbehind : placesFrom next place n p cur = .error .behind
  · rw [hbehind]
    trivial
  -- the places that are left after `i` turns
  refine forInt_rule hn (fun i s mem => ∃ cur', R i cur' s mem ∧
    placesFrom next place (n - i) (next^[i] p) cur' = placesFrom next place n p cur)
    (fun r => Tracks (placesFrom next place n p cur) (R n) r) ?_ ?_ ?_ ⟨cur, h, rfl⟩
  · rintro i s mem ⟨cur', hR, -⟩
    exact hcount i cur' s mem hR
  · rintro i s mem hi ⟨cur', hR, hleft⟩
    have hturn := hbody i cur' s mem hi hR
    obtain ⟨k, hk⟩ : ∃ k, n - i = k + 1 := ⟨n - i - 1, by omega⟩
    rw [hk, placesFrom] at hleft
    match hplace : place cur' (next^[i] p) with
    | .ok cur'' =>
      rw [hplace] at hturn hleft
      obtain ⟨step, mem', hrun, s', rfl, hR'⟩ := hturn
      refine .inl ⟨s', mem', hrun, cur'', hR', ?_⟩
      rw [Function.iterate_succ_apply', show n - (i + 1) = k by omega]
      exact hleft
    | .error .outside =>
      rw [hplace] at hturn hleft
      refine .inr (.inr ⟨.outside, hturn, ?_⟩)
      rw [← hleft]
      rfl
    | .error .behind =>
      rw [hplace] at hleft
      exact absurd hleft.symm hbehind
  · rintro s mem ⟨cur', hR, hleft⟩
    rw [Nat.sub_self] at hleft
    rw [← hleft]
    exact ⟨s, mem, rfl, hR⟩

end Tracks

variable {host o : Order} {mem mem' : Region} {cur : ℤ} {ws : Set ℤ}

/-! ## Headers -/

theorem headerWordsAt_inside {a : ℤ} (h : Inside mem a 16) (hle : cur ≤ a) :
    ∀ b ∈ headerWordsAt a, Inside mem b 4 ∧ cur ≤ b ∧ b + 4 ≤ a + 16 := by
  intro b hb
  obtain ⟨h0, hend⟩ := h
  simp only [headerWordsAt, List.mem_cons, List.not_mem_nil, or_false] at hb
  refine ⟨⟨?_, ?_⟩, ?_, ?_⟩ <;> omega

theorem headerWordsAt_outside {a : ℤ} (h : ¬ Inside mem a 16) : ∃ b ∈ headerWordsAt a, ¬ Inside mem b 4 := by
  by_cases h0 : 0 ≤ a
  · exact ⟨a + 12, by simp [headerWordsAt], fun hin => h ⟨h0, by have := hin.2; omega⟩⟩
  · exact ⟨a + 0, by simp [headerWordsAt], fun hin => h0 (by have := hin.1; omega)⟩

theorem headerWordsAt_sorted (a : ℤ) : (headerWordsAt a).Pairwise fun b c => b + 4 ≤ c := by
  simp [headerWordsAt]
  omega

/-- The words of a header are turned around. -/
theorem swapHeader_run (hne : o ≠ host) (h : Turned o host mem cur ws mem') {a : ℤ} (ha : Inside mem a 16)
    (hle : cur ≤ a) :
    ∃ mem'', swapAll (headerWordsAt a) mem' = .ok ((), mem'') ∧
      Turned o host mem (a + 16) (ws ∪ {b | b ∈ headerWordsAt a}) mem'' :=
  h.swapAll hne (headerWordsAt_inside ha hle) (headerWordsAt_sorted a) (by omega)

theorem swapHeader_outside (h : Turned o host mem cur ws mem') {a : ℤ} (ha : ¬ Inside mem a 16) :
    swapAll (headerWordsAt a) mem' = .error .outside :=
  swapAll_outside h.length_eq (headerWordsAt_outside ha)

/-! ## Parameters -/

namespace RnpParameter

/-- The data, behind a header that is turned around. -/
theorem changeData_turned (hne : o ≠ host) {p : ℤ} (h : Turned o host mem (getData p) ws mem')
    (htype : p + dataType ∈ ws)
    (hdata : Inside mem (getData p) (orderedLength (wordAt o mem (p + dataType)))) :
    ∃ mem'', changeData host p mem' = .ok ((), mem'') ∧
      Turned o host mem (getData p + orderedLength (wordAt o mem (p + dataType))) ws mem'' := by
  rw [changeData, bind_ok (h.getWord_turned htype)]
  unfold orderedLength at hdata ⊢
  split_ifs at hdata ⊢ with hint hdouble
  · obtain ⟨mem'', hrun, h'⟩ := h.swap hne hdata le_rfl
    exact ⟨mem'', hrun, h'.mono le_rfl (Set.subset_insert _ _)⟩
  · have hlow : Inside mem' (getData p) 4 := h.inside_iff.mpr ⟨hdata.1, by have := hdata.2; omega⟩
    have hhigh : Inside mem' (getData p + 4) 4 :=
      h.inside_iff.mpr ⟨by have := hdata.1; omega, by have := hdata.2; omega⟩
    have hlength₁ := length_slice_inside hlow
    have hlength₂ := length_slice_inside hhigh
    rw [← List.length_reverse] at hlength₁ hlength₂
    obtain ⟨mem₁, hrun₁, hw₁, -⟩ := put_within
      (slice (getData p + 4).toNat 4 mem').reverse
      (show Inside mem' (getData p) _ by rw [hlength₂]; exact hlow)
    rw [hlength₂] at hw₁
    obtain ⟨mem₂, hrun₂, hw₂, -⟩ := put_within
      (slice (getData p).toNat 4 mem').reverse
      (show Inside mem₁ (getData p + 4) _ by rw [hlength₁]; exact hw₁.inside_iff.mpr hhigh)
    rw [hlength₁] at hw₂
    refine ⟨mem₂, ?_, ?_⟩
    · rw [bind_ok (get_inside hlow), bind_ok (get_inside hhigh), bind_ok hrun₁, hrun₂]
    · exact (h.within (getData p + 4) hw₁ le_rfl (by push_cast; omega) (by omega)).within _ hw₂
        le_rfl (by push_cast; omega) (by push_cast; omega)
  · exact ⟨mem', rfl, h.mono (by push_cast; omega) subset_rfl⟩

theorem changeData_outside {p : ℤ} (h : Turned o host mem (getData p) ws mem')
    (hp : Inside mem p size) (htype : p + dataType ∈ ws)
    (hdata : ¬ Inside mem (getData p) (orderedLength (wordAt o mem (p + dataType)))) :
    changeData host p mem' = .error .outside := by
  rw [changeData, bind_ok (h.getWord_turned htype)]
  unfold orderedLength at hdata
  split_ifs at hdata ⊢ with hint hdouble
  · exact swapWord_outside (fun hin => hdata (h.inside_iff.mp hin))
  · by_cases hlow : Inside mem' (getData p) 4
    · rw [bind_ok (get_inside hlow)]
      refine bind_error (get_outside fun hhigh => hdata ?_)
      have hlow := h.inside_iff.mp hlow
      have hhigh := h.inside_iff.mp hhigh
      exact ⟨hlow.1, by have := hhigh.2; omega⟩
    · exact bind_error (get_outside hlow)
  · refine absurd ⟨?_, ?_⟩ hdata
    · have := hp.1
      rw [getData, size]
      omega
    · have := hp.2
      rw [getData]
      push_cast
      omega

/-- A parameter of a message in the other order. -/
theorem changeToHostEndianness_tracks (hne : o ≠ host) (h : Turned o host mem cur ws mem') (p : ℤ) :
    Tracks (place o mem cur p)
      (fun cur' _ => Turned o host mem cur' (ws ∪ {b | b ∈ headerWordsAt p}))
      (changeToHostEndianness host p mem') := by
  have hheader : changeHeader p = swapAll (headerWordsAt p) := rfl
  have htype : p + dataType ∈ ws ∪ {b | b ∈ headerWordsAt p} :=
    .inr (List.mem_cons_of_mem _ List.mem_cons_self)
  rw [changeToHostEndianness, hheader, place]
  by_cases hp : Inside mem p size
  · rw [if_neg (not_not_intro hp)]
    by_cases hle : cur ≤ p
    · obtain ⟨mem₁, hrun, h₁⟩ := swapHeader_run hne h hp hle
      rw [if_neg (by omega), bind_ok hrun]
      by_cases hdata : Inside mem (getData p) (orderedLength (wordAt o mem (p + dataType)))
      · obtain ⟨mem₂, hrun', h₂⟩ := changeData_turned hne h₁ htype hdata
        rw [if_neg (not_not_intro hdata)]
        exact ⟨(), mem₂, hrun', h₂⟩
      · rw [if_pos hdata]
        exact changeData_outside h₁ hp htype hdata
    · rw [if_pos (by omega)]
      trivial
  · rw [if_pos hp]
    exact bind_error (swapHeader_outside h hp)

end RnpParameter

/-! ## The cursor on words that are turned around -/

namespace RnpProtocolDecoder

variable (o mem) in
/-- The cursor on the parameter with index `j` of the fragment at `f`. -/
def onParameter (d : RnpProtocolDecoder) (f : ℤ) (j : ℕ) : RnpProtocolDecoder :=
  { d with
    currParameterIdx := j
    currParameter := if j < RnpFragmentHeader.parameters o mem f then
      some (RnpFragmentHeader.parameterAt o mem f j) else none }

variable (o mem) in
/-- The cursor on the fragment with index `i`. -/
def onFragment (d : RnpProtocolDecoder) (i : ℕ) : RnpProtocolDecoder :=
  { d with
    currFragmentIdx := i
    currFragment := if i < RnpHeader.fragments o mem then some (RnpHeader.fragmentAt o mem i) else none }

section

variable {d : RnpProtocolDecoder} {f : ℤ} {j : ℕ} (h : Turned o host mem cur ws mem')
include h

theorem countParameters_turned (hd : d.currFragment = some f) (hf : f + RnpFragmentHeader.nrParams ∈ ws) :
    countParameters host d mem' = .ok (intAt o mem (f + RnpFragmentHeader.nrParams), mem') := by
  rw [countParameters, hd, bind_ok (deref_some ..), bind_ok (h.getWord_turned hf)]
  rfl

theorem getFirstParameter_turned (hd : d.currFragment = some f) (hf : f + RnpFragmentHeader.nrParams ∈ ws) :
    getFirstParameter host d mem' = .ok (onParameter o mem d f 0, mem') := by
  rw [getFirstParameter, bind_ok (countParameters_turned h hd hf), onParameter]
  by_cases hpos : 0 < intAt o mem (f + RnpFragmentHeader.nrParams)
  · rw [if_pos hpos, if_pos (by rw [RnpFragmentHeader.parameters]; omega), hd]
    rfl
  · rw [if_neg hpos, if_neg (by rw [RnpFragmentHeader.parameters]; omega)]
    rfl

theorem getNextParameter_turned (hd : d.currFragment = some f) (hf : f + RnpFragmentHeader.nrParams ∈ ws)
    (hp : RnpFragmentHeader.parameterAt o mem f j + RnpParameter.totalLength ∈ ws)
    (hj : j < RnpFragmentHeader.parameters o mem f) :
    getNextParameter host (onParameter o mem d f j) mem' = .ok (onParameter o mem d f (j + 1), mem') := by
  have hcount : countParameters host (onParameter o mem d f j) mem'
      = .ok (intAt o mem (f + RnpFragmentHeader.nrParams), mem') := countParameters_turned h hd hf
  have hcurrent : (onParameter o mem d f j).currParameter = some (RnpFragmentHeader.parameterAt o mem f j) :=
    if_pos hj
  have hlength : getWord host (RnpFragmentHeader.parameterAt o mem f j + RnpParameter.totalLength) mem'
      = .ok (wordAt o mem (RnpFragmentHeader.parameterAt o mem f j + RnpParameter.totalLength), mem') :=
    h.getWord_turned hp
  rw [getNextParameter, bind_ok hcount, hcurrent]
  have hidx : (onParameter o mem d f j).currParameterIdx = j := rfl
  rw [RnpFragmentHeader.parameters] at hj
  rw [hidx]
  by_cases hlast : j + 1 < RnpFragmentHeader.parameters o mem f
  · have hnext : RnpParameter.getNextParameter host (RnpFragmentHeader.parameterAt o mem f j) mem'
        = .ok (RnpParameter.next o mem (RnpFragmentHeader.parameterAt o mem f j), mem') := bind_ok hlength
    rw [RnpFragmentHeader.parameters] at hlast
    rw [if_pos (by omega)]
    rw [bind_ok (deref_some ..), bind_ok hnext]
    rw [onParameter, onParameter, if_pos (c := j + 1 < _) (by rw [RnpFragmentHeader.parameters]; omega),
      RnpFragmentHeader.parameterAt_succ]
    rfl
  · rw [RnpFragmentHeader.parameters] at hlast
    rw [if_neg (by omega), onParameter, onParameter,
      if_neg (c := j + 1 < _) (by rw [RnpFragmentHeader.parameters]; omega)]
    rfl

theorem countFragments_turned (hn : RnpHeader.nrFragments ∈ ws) :
    countFragments host mem' = .ok (intAt o mem RnpHeader.nrFragments, mem') := bind_ok (h.getWord_turned hn)

theorem getFirstFragment_turned (hn : RnpHeader.nrFragments ∈ ws) (hs : RnpHeader.dataStart ∈ ws) :
    getFirstFragment host d mem' = .ok (onFragment o mem d 0, mem') := by
  have hfirst : RnpHeader.getFirstFragment host mem' = .ok (intAt o mem RnpHeader.dataStart, mem') :=
    bind_ok (h.getWord_turned hs)
  rw [getFirstFragment, bind_ok (countFragments_turned h hn), onFragment]
  by_cases hpos : 0 < intAt o mem RnpHeader.nrFragments
  · rw [if_pos hpos, if_pos (by rw [RnpHeader.fragments]; omega), bind_ok hfirst]
    rfl
  · rw [if_neg hpos, if_neg (by rw [RnpHeader.fragments]; omega)]
    rfl

theorem getNextFragment_turned {i : ℕ} (hn : RnpHeader.nrFragments ∈ ws)
    (hf : RnpHeader.fragmentAt o mem i + RnpFragmentHeader.totalLength ∈ ws)
    (hi : i < RnpHeader.fragments o mem) (hd : d.currFragment = some (RnpHeader.fragmentAt o mem i))
    (hidx : d.currFragmentIdx = i) :
    getNextFragment host d mem' = .ok (onFragment o mem d (i + 1), mem') := by
  rw [getNextFragment, bind_ok (countFragments_turned h hn), hd, hidx]
  rw [RnpHeader.fragments] at hi
  by_cases hlast : i + 1 < RnpHeader.fragments o mem
  · have hnext : RnpFragmentHeader.getNextFragment host (RnpHeader.fragmentAt o mem i) mem'
        = .ok (RnpFragmentHeader.next o mem (RnpHeader.fragmentAt o mem i), mem') :=
      bind_ok (h.getWord_turned hf)
    rw [RnpHeader.fragments] at hlast
    rw [if_pos (by omega), bind_ok (deref_some ..), bind_ok hnext, onFragment,
      if_pos (c := i + 1 < _) (by rw [RnpHeader.fragments]; omega), RnpHeader.fragmentAt_succ]
    rfl
  · rw [RnpHeader.fragments] at hlast
    rw [if_neg (by omega), onFragment, if_neg (c := i + 1 < _) (by rw [RnpHeader.fragments]; omega)]
    rfl

end

/-! ## The loops -/

variable {d : RnpProtocolDecoder} {f : ℤ}

variable (o mem) in
/-- The words of the first `n` parameters of the fragment at `f`. -/
def parameterWords (f : ℤ) (n : ℕ) : Set ℤ :=
  {a | ∃ j < n, a ∈ headerWordsAt (RnpFragmentHeader.parameterAt o mem f j)}

theorem parameterWords_succ (f : ℤ) (n : ℕ) :
    parameterWords o mem f (n + 1) =
      parameterWords o mem f n ∪ {a | a ∈ headerWordsAt (RnpFragmentHeader.parameterAt o mem f n)} := by
  ext a
  simp only [parameterWords, Set.mem_union, Set.mem_ofPred_eq]
  constructor
  · rintro ⟨j, hj, ha⟩
    rcases Nat.lt_succ_iff_lt_or_eq.mp hj with hj | rfl
    · exact .inl ⟨j, hj, ha⟩
    · exact .inr ha
  · rintro (⟨j, hj, ha⟩ | ha)
    · exact ⟨j, hj.trans (Nat.lt_succ_self n), ha⟩
    · exact ⟨n, Nat.lt_succ_self n, ha⟩

variable (o mem) in
/-- The words of a fragment with its parameters. -/
def fragmentWords (f : ℤ) : Set ℤ :=
  {a | a ∈ headerWordsAt f} ∪ parameterWords o mem f (RnpFragmentHeader.parameters o mem f)

theorem toInt_toNat_le (w : Word) : w.toInt.toNat ≤ 2 ^ 31 := by
  have := BitVec.toInt_lt (x := w)
  omega

/-- The loop over the parameters of a fragment. -/
theorem changeParameters_tracks (hne : o ≠ host) (h : Turned o host mem cur ws mem')
    (hd : d.currFragment = some f) (hf : f + RnpFragmentHeader.nrParams ∈ ws) :
    Tracks (placesFrom (RnpParameter.next o mem) (RnpParameter.place o mem)
        (RnpFragmentHeader.parameters o mem f) (RnpFragmentHeader.getFirstParameter f) cur)
      (fun cur' d' mem'' => d' = onParameter o mem d f (RnpFragmentHeader.parameters o mem f) ∧
        Turned o host mem cur' (ws ∪ parameterWords o mem f (RnpFragmentHeader.parameters o mem f)) mem'')
      (forInt (countParameters host) (changeParameter host) (onParameter o mem d f 0) mem') := by
  refine tracks_forInt (toInt_toNat_le _) _ _ (fun i cur' d' mem'' => d' = onParameter o mem d f i ∧
    Turned o host mem cur' (ws ∪ parameterWords o mem f i) mem'') ?_ ?_ ⟨rfl, h.mono le_rfl (by simp [parameterWords])⟩
  · rintro i cur' d' mem'' ⟨rfl, h'⟩
    exact ⟨_, countParameters_turned h' hd (.inl hf), rfl⟩
  · rintro i cur' d' mem'' hi ⟨rfl, h'⟩
    have hcurrent : (onParameter o mem d f i).currParameter = some (RnpFragmentHeader.parameterAt o mem f i) :=
      if_pos hi
    rw [changeParameter, hcurrent, bind_ok (deref_some ..)]
    refine (RnpParameter.changeToHostEndianness_tracks hne h' _).andThen fun cur'' _ mem₁ h₁ => ?_
    rw [Set.union_assoc, ← RnpFragmentHeader.parameterAt, ← parameterWords_succ] at h₁
    have htotal : RnpFragmentHeader.parameterAt o mem f i + RnpParameter.totalLength
        ∈ ws ∪ parameterWords o mem f (i + 1) := .inr ⟨i, Nat.lt_succ_self i, by simp [headerWordsAt, RnpParameter.totalLength]⟩
    exact ⟨.yield (onParameter o mem d f (i + 1)), mem₁,
      bind_ok (getNextParameter_turned h₁ hd (.inl hf) htotal hi), _, rfl, rfl, h₁⟩

variable (o mem) in
/-- The words of the first `n` fragments with their parameters. -/
def fragmentsWords (n : ℕ) : Set ℤ := {a | ∃ i < n, a ∈ fragmentWords o mem (RnpHeader.fragmentAt o mem i)}

theorem fragmentsWords_succ (n : ℕ) :
    fragmentsWords o mem (n + 1) =
      fragmentsWords o mem n ∪ fragmentWords o mem (RnpHeader.fragmentAt o mem n) := by
  ext a
  simp only [fragmentsWords, Set.mem_union, Set.mem_ofPred_eq]
  constructor
  · rintro ⟨i, hi, ha⟩
    rcases Nat.lt_succ_iff_lt_or_eq.mp hi with hi | rfl
    · exact .inl ⟨i, hi, ha⟩
    · exact .inr ha
  · rintro (⟨i, hi, ha⟩ | ha)
    · exact ⟨i, hi.trans (Nat.lt_succ_self n), ha⟩
    · exact ⟨n, Nat.lt_succ_self n, ha⟩

/-- A fragment of a message in the other order, with its parameters. -/
theorem changeFragment_tracks (hne : o ≠ host) (h : Turned o host mem cur ws mem') {i : ℕ}
    (hn : RnpHeader.nrFragments ∈ ws) (hi : i < RnpHeader.fragments o mem)
    (hd : d.currFragment = some (RnpHeader.fragmentAt o mem i)) (hidx : d.currFragmentIdx = i) :
    Tracks (RnpFragmentHeader.place o mem cur (RnpHeader.fragmentAt o mem i))
      (fun cur' step mem'' => ∃ d', step = .yield (onFragment o mem d' (i + 1)) ∧
        Turned o host mem cur' (ws ∪ fragmentWords o mem (RnpHeader.fragmentAt o mem i)) mem'')
      (changeFragment host d mem') := by
  have hheader (f : ℤ) : RnpFragmentHeader.changeEndianness f = swapAll (headerWordsAt f) := rfl
  rw [changeFragment, hd, bind_ok (deref_some ..), hheader, RnpFragmentHeader.place]
  by_cases hin : Inside mem (RnpHeader.fragmentAt o mem i) RnpFragmentHeader.size
  · rw [if_neg (not_not_intro hin)]
    by_cases hle : cur ≤ RnpHeader.fragmentAt o mem i
    · obtain ⟨mem₁, hrun, h₁⟩ := swapHeader_run hne h hin hle
      have hparams : RnpHeader.fragmentAt o mem i + RnpFragmentHeader.nrParams
          ∈ ws ∪ {b | b ∈ headerWordsAt (RnpHeader.fragmentAt o mem i)} :=
        .inr (by simp [headerWordsAt, RnpFragmentHeader.nrParams])
      rw [if_neg (by omega), bind_ok hrun, bind_ok (getFirstParameter_turned h₁ hd hparams)]
      refine (changeParameters_tracks hne h₁ hd hparams).andThen ?_
      rintro cur' d' mem₂ ⟨rfl, h₂⟩
      rw [Set.union_assoc, ← fragmentWords] at h₂
      have htotal : RnpHeader.fragmentAt o mem i + RnpFragmentHeader.totalLength
          ∈ ws ∪ fragmentWords o mem (RnpHeader.fragmentAt o mem i) :=
        .inr (.inl (by simp [headerWordsAt, RnpFragmentHeader.totalLength]))
      exact ⟨_, mem₂, bind_ok (getNextFragment_turned h₂ (.inl hn) htotal hi hd hidx), _, rfl, h₂⟩
    · rw [if_pos (by omega)]
      trivial
  · rw [if_pos hin]
    exact bind_error (swapHeader_outside h hin)

/-- The loop over the fragments. -/
theorem changeFragments_tracks (hne : o ≠ host) (h : Turned o host mem cur ws mem')
    (hn : RnpHeader.nrFragments ∈ ws) :
    Tracks (placesFrom (RnpFragmentHeader.next o mem) (RnpFragmentHeader.place o mem)
        (RnpHeader.fragments o mem) (intAt o mem RnpHeader.dataStart) cur)
      (fun cur' d' mem'' => (∃ d, d' = onFragment o mem d (RnpHeader.fragments o mem)) ∧
        Turned o host mem cur' (ws ∪ fragmentsWords o mem (RnpHeader.fragments o mem)) mem'')
      (forInt (fun _ => countFragments host) (changeFragment host) (onFragment o mem d 0) mem') := by
  refine tracks_forInt (toInt_toNat_le _) _ _ (fun i cur' d' mem'' => (∃ d, d' = onFragment o mem d i) ∧
    Turned o host mem cur' (ws ∪ fragmentsWords o mem i) mem'') ?_ ?_
    ⟨⟨d, rfl⟩, h.mono le_rfl (by simp [fragmentsWords])⟩
  · rintro i cur' d' mem'' ⟨-, h'⟩
    exact ⟨_, countFragments_turned h' (.inl hn), rfl⟩
  · rintro i cur' d' mem'' hi ⟨⟨d₁, rfl⟩, h'⟩
    have hturn := changeFragment_tracks (d := onFragment o mem d₁ i) hne h' (.inl hn) hi (if_pos hi) rfl
    rw [Set.union_assoc, ← fragmentsWords_succ] at hturn
    refine hturn.mono ?_
    rintro cur'' step mem₁ ⟨d₂, rfl, h₁⟩
    exact ⟨_, rfl, ⟨d₂, rfl⟩, h₁⟩

end RnpProtocolDecoder

/-! ## Messages -/

namespace RnpHeader

/-- The addresses of the words that the header turns around. -/
def wordAddresses : List ℤ := [totalMessageLength, nrFragments, serverType, authInfoStart, authInfoLength,
  comprInfoStart, comprInfoLength, dataStart, dataLength]

variable (o mem) in
/-- All words of a message that are turned around. -/
def words : Set ℤ := {a | a ∈ wordAddresses} ∪ RnpProtocolDecoder.fragmentsWords o mem (fragments o mem)

theorem getEndianness_inside (h : Inside mem messageEndianness 1) :
    getEndianness mem = .ok (orderByte mem, mem) := bind_ok (get_inside h)

/-- The header of a message in the other order. -/
theorem changeEndianness_run (hne : o ≠ host) (hbyte : orderByte mem ≠ Rnp.endianness host)
    (h : Inside mem messageEndianness 1) :
    Tracks (if mem.length < wordsEnd then .error .outside else .ok wordsEnd)
      (fun cur changed => fun mem' => changed = true ∧ Turned o host mem cur {a | a ∈ wordAddresses} mem')
      (changeEndianness host mem) := by
  have hwords : changeEndianness host = (do
      if (← getEndianness) = Rnp.endianness host then
        return false
      put messageEndianness [Rnp.endianness host]
      swapAll wordAddresses
      return true) := by
    simp only [changeEndianness, wordAddresses, swapAll, bind_assoc]
  obtain ⟨mem₁, hrun, hw, -⟩ := put_within [Rnp.endianness host] h
  have h₁ : Turned o host mem totalMessageLength ∅ mem₁ :=
    (Turned.start o host mem messageEndianness).within _ hw le_rfl
      (show messageEndianness + (1 : ℕ) ≤ totalMessageLength by decide) (by decide)
  rw [hwords, bind_ok (getEndianness_inside h), if_neg hbyte]
  refine Eq.subst (motive := Tracks _ _) (bind_ok hrun).symm ?_
  split_ifs with hshort
  · have hout : ¬ Inside mem dataLength 4 := by
      rintro ⟨-, hend⟩
      rw [dataLength] at hend
      rw [wordsEnd] at hshort
      omega
    exact bind_error (swapAll_outside h₁.length_eq ⟨dataLength, by simp [wordAddresses], hout⟩)
  · have hin : ∀ a ∈ wordAddresses, Inside mem a 4 ∧ totalMessageLength ≤ a ∧ a + 4 ≤ wordsEnd := by
      have hfixed : ∀ a ∈ wordAddresses, 0 ≤ a ∧ totalMessageLength ≤ a ∧ a + 4 ≤ wordsEnd := by decide
      intro a ha
      obtain ⟨h0, hle, hend⟩ := hfixed a ha
      exact ⟨⟨h0, by omega⟩, hle, hend⟩
    obtain ⟨mem₂, hrun', h₂⟩ := h₁.swapAll hne hin (by decide) (by decide)
    rw [Set.empty_union] at h₂
    exact ⟨true, mem₂, bind_ok hrun', rfl, h₂⟩

end RnpHeader

namespace RnpProtocolDecoder

/-- **A message in the other order is turned around along its own lengths and counts.** -/
theorem changeToHostEndianness_tracks (hne : o ≠ host) (hbyte : RnpHeader.orderByte mem ≠ Rnp.endianness host)
    (h : Inside mem RnpHeader.messageEndianness 1) (d : RnpProtocolDecoder) :
    Tracks (RnpHeader.places o mem)
      (fun cur _ mem' => Turned o host mem cur (RnpHeader.words o mem) mem')
      (changeToHostEndianness host d mem) := by
  have hheader := RnpHeader.changeEndianness_run hne hbyte h
  rw [changeToHostEndianness, RnpHeader.places]
  split_ifs at hheader ⊢ with hshort
  · exact bind_error hheader
  · obtain ⟨changed, mem₁, hrun, rfl, h₁⟩ := hheader
    have hn : RnpHeader.nrFragments ∈ {a | a ∈ RnpHeader.wordAddresses} := by simp [RnpHeader.wordAddresses]
    have hs : RnpHeader.dataStart ∈ {a | a ∈ RnpHeader.wordAddresses} := by simp [RnpHeader.wordAddresses]
    rw [bind_ok hrun, if_neg (by decide)]
    refine Eq.subst (motive := Tracks _ _) (bind_ok (getFirstFragment_turned h₁ hn hs)).symm ?_
    refine (changeFragments_tracks hne h₁ hn).andThen ?_
    rintro cur' d' mem₂ ⟨-, h₂⟩
    exact ⟨_, mem₂, rfl, h₂⟩

end RnpProtocolDecoder

end Rasdaman
