import Mathlib.Data.Set.Insert
import Rasdaman.Machinery.Memory

/-!
# Machinery/ByteOrder — turning the words of a region around in place

A program that goes through a region once, from low to high addresses, and reverses words on its way.
`Turned` says how far it is: what it has not reached is as it was, and each of its words now has in one
byte order the value that it had in the other.
-/

namespace Memory

open Bytes

/-- The other byte order. -/
def other : Order → Order
  | .little => .big
  | .big => .little

theorem ne_other (o : Order) : o ≠ other o := by cases o <;> exact nofun

variable {o o' : Order} {off a cur : ℤ} {mem mem' : Region} {n : ℕ}

/-! ## Words at addresses -/

/-- The word at an address. -/
def wordAt (o : Order) (mem : Region) (a : ℤ) : Word := wordOf o (slice a.toNat 4 mem)

theorem get_inside (h : Inside mem a n) : get a n mem = .ok (slice a.toNat n mem, mem) := if_pos h

theorem get_outside (h : ¬ Inside mem a n) : get a n mem = .error .outside := if_neg h

theorem getWord_inside (h : Inside mem a 4) : getWord o a mem = .ok (wordAt o mem a, mem) :=
  bind_ok (get_inside h)

theorem getWord_outside (h : ¬ Inside mem a 4) : getWord o a mem = .error .outside :=
  bind_error (get_outside h)

theorem swapWord_outside (h : ¬ Inside mem a 4) : swapWord a mem = .error .outside :=
  bind_error (get_outside h)

theorem length_slice_inside (h : Inside mem a n) : (slice a.toNat n mem).length = n := by
  obtain ⟨h0, hn⟩ := h
  rw [slice, List.length_take, List.length_drop]
  omega

/-- The same bytes backwards are the same word in the other order. -/
theorem wordOf_reverse (h : o ≠ o') {bs : List UInt8} (hbs : bs.length = 4) :
    wordOf o' bs.reverse = wordOf o bs := by
  rw [← wordBytes_wordOf o hbs, reverse_wordBytes h, wordOf_wordBytes, wordOf_wordBytes]

/-- A region around some of its bytes. -/
theorem exists_around (h : Inside mem a n) :
    ∃ pre bs post : Region, mem = pre ++ (bs ++ post) ∧ a = pre.length ∧ bs.length = n := by
  obtain ⟨h0, hn⟩ := h
  refine ⟨mem.take a.toNat, (mem.drop a.toNat).take n, (mem.drop a.toNat).drop n, ?_, ?_, ?_⟩
  · rw [List.take_append_drop, List.take_append_drop]
  · rw [List.length_take]
    omega
  · rw [List.length_take, List.length_drop]
    omega

/-! ## What stays -/

/-- Only bytes from `lo` on and before `hi` are written. -/
structure Within (lo hi : ℤ) (mem mem' : Region) : Prop where
  length_eq : mem'.length = mem.length
  slice_eq : ∀ (a : ℤ) (n : ℕ), 0 ≤ a → a + n ≤ lo ∨ hi ≤ a → slice a.toNat n mem' = slice a.toNat n mem

namespace Within

variable {lo hi lo' hi' : ℤ} {mem'' : Region}

theorem inside_iff (h : Within lo hi mem mem') : Inside mem' a n ↔ Inside mem a n := by
  rw [Inside, Inside, h.length_eq]

theorem wordAt_eq (h : Within lo hi mem mem') (ha : 0 ≤ a) (hout : a + 4 ≤ lo ∨ hi ≤ a) :
    wordAt o mem' a = wordAt o mem a := congrArg (wordOf o) (h.slice_eq a 4 ha hout)

end Within

/-- A write of bytes that are inside. -/
theorem put_within (bs : List UInt8) (h : Inside mem a bs.length) :
    ∃ mem', put a bs mem = .ok ((), mem') ∧ Within a (a + bs.length) mem mem' ∧
      slice a.toNat bs.length mem' = bs := by
  obtain ⟨pre, old, post, rfl, rfl, hold⟩ := exists_around h
  refine ⟨pre ++ (bs ++ post), put_mid rfl hold.symm, ⟨by simp [hold], fun a n ha hout => ?_⟩, ?_⟩
  · obtain ⟨a, rfl⟩ := Int.eq_ofNat_of_zero_le ha
    rw [Int.toNat_natCast, slice, slice]
    rcases hout with hlow | hhigh
    · have hle : a + n ≤ pre.length := by omega
      rw [List.drop_append_of_le_length (by omega), List.drop_append_of_le_length (by omega),
        List.take_append_of_le_length (by rw [List.length_drop]; omega),
        List.take_append_of_le_length (by rw [List.length_drop]; omega)]
    · obtain ⟨k, rfl⟩ : ∃ k, a = (pre.length + bs.length) + k := ⟨a - (pre.length + bs.length), by omega⟩
      have hbehind (mid : Region) (hmid : mid.length = bs.length) :
          (pre ++ (mid ++ post)).drop (pre.length + bs.length + k) = post.drop k := by
        rw [← List.append_assoc, ← List.drop_drop,
          List.drop_left' (by rw [List.length_append, hmid])]
      rw [hbehind bs rfl, hbehind old hold]
  · rw [Int.toNat_natCast, slice_append rfl rfl]

/-- A word that is turned around. -/
theorem swapWord_within (h : Inside mem a 4) :
    ∃ mem', swapWord a mem = .ok ((), mem') ∧ Within a (a + 4) mem mem' ∧
      ∀ o o', o ≠ o' → wordAt o' mem' a = wordAt o mem a := by
  have hlength := length_slice_inside h
  have hreverse : (slice a.toNat 4 mem).reverse.length = 4 := by rw [List.length_reverse, hlength]
  obtain ⟨mem', hput, hwithin, hbytes⟩ := put_within (slice a.toNat 4 mem).reverse
    (show Inside mem a _ by rw [hreverse]; exact h)
  rw [hreverse] at hwithin hbytes
  refine ⟨mem', ?_, hwithin, fun o o' hne => ?_⟩
  · rw [swapWord, bind_ok (get_inside h), hput]
  · rw [wordAt, hbytes, wordOf_reverse hne hlength, wordAt]

/-! ## Going through a region -/

/-- From `o` to `o'`: everything from `cur` on is as it was, and the words at `ws` are turned around. -/
structure Turned (o o' : Order) (mem : Region) (cur : ℤ) (ws : Set ℤ) (mem' : Region) : Prop where
  length_eq : mem'.length = mem.length
  ahead : ∀ (a : ℤ) (n : ℕ), 0 ≤ a → cur ≤ a → slice a.toNat n mem' = slice a.toNat n mem
  turned : ∀ a ∈ ws, Inside mem a 4 ∧ a + 4 ≤ cur ∧ wordAt o' mem' a = wordAt o mem a

namespace Turned

variable {cur' lo hi : ℤ} {ws ws' : Set ℤ} {mem'' : Region}

theorem start (o o' : Order) (mem : Region) (cur : ℤ) : Turned o o' mem cur ∅ mem :=
  ⟨rfl, fun _ _ _ _ => rfl, fun _ ha => absurd ha (Set.notMem_empty _)⟩

theorem inside_iff (h : Turned o o' mem cur ws mem') : Inside mem' a n ↔ Inside mem a n := by
  rw [Inside, Inside, h.length_eq]

theorem mono (h : Turned o o' mem cur ws mem') (hcur : cur ≤ cur') (hws : ws' ⊆ ws) :
    Turned o o' mem cur' ws' mem' := by
  refine ⟨h.length_eq, fun a n ha hle => h.ahead a n ha (hcur.trans hle), fun a ha => ?_⟩
  obtain ⟨h0, hle, hword⟩ := h.turned a (hws ha)
  exact ⟨h0, hle.trans hcur, hword⟩

/-- A write that is not behind the frontier. -/
theorem within (cur' : ℤ) (h : Turned o o' mem cur ws mem') (hw : Within lo hi mem' mem'') (hlo : cur ≤ lo)
    (hhi : hi ≤ cur') (hcur : cur ≤ cur') : Turned o o' mem cur' ws mem'' := by
  refine ⟨hw.length_eq.trans h.length_eq, fun a n ha hle => ?_, fun a ha => ?_⟩
  · rw [hw.slice_eq a n ha (.inr (hhi.trans hle)), h.ahead a n ha (hcur.trans hle)]
  · obtain ⟨h0, hle, hword⟩ := h.turned a ha
    exact ⟨h0, hle.trans hcur, by rw [hw.wordAt_eq h0.1 (.inl (hle.trans hlo)), hword]⟩

theorem wordAt_ahead (h : Turned o o' mem cur ws mem') (ha : Inside mem a 4) (hle : cur ≤ a)
    (o'' : Order) : wordAt o'' mem' a = wordAt o'' mem a := congrArg (wordOf o'') (h.ahead a 4 ha.1 hle)

/-- Reading a word that is turned around. -/
theorem getWord_turned (h : Turned o o' mem cur ws mem') (ha : a ∈ ws) :
    getWord o' a mem' = .ok (wordAt o mem a, mem') := by
  obtain ⟨hin, -, hword⟩ := h.turned a ha
  rw [getWord_inside (h.inside_iff.mpr hin), hword]

/-- **One word more.** -/
theorem swap (h : Turned o o' mem cur ws mem') (hne : o ≠ o') (ha : Inside mem a 4) (hle : cur ≤ a) :
    ∃ mem'', swapWord a mem' = .ok ((), mem'') ∧ Turned o o' mem (a + 4) (insert a ws) mem'' := by
  obtain ⟨mem'', hrun, hw, hword⟩ := swapWord_within (h.inside_iff.mpr ha)
  have hnext := h.within _ hw hle le_rfl (by omega)
  refine ⟨mem'', hrun, hnext.length_eq, hnext.ahead, fun b hb => ?_⟩
  rcases Set.mem_insert_iff.mp hb with rfl | hb
  · exact ⟨ha, le_rfl, by rw [hword o o' hne, h.wordAt_ahead ha hle]⟩
  · exact hnext.turned b hb

end Turned

/-- The words at some addresses, one after another. -/
def swapAll : List ℤ → Access Unit
  | [] => pure ()
  | [a] => swapWord a
  | a :: as => do
    swapWord a
    swapAll as

theorem swapAll_cons (a : ℤ) {as : List ℤ} (h : as ≠ []) :
    swapAll (a :: as) = (do swapWord a; swapAll as) := by
  cases as with
  | nil => exact absurd rfl h
  | cons => rfl

/-- Words at ascending addresses are turned around. -/
theorem Turned.swapAll {as : List ℤ} {ws : Set ℤ} {hi : ℤ} (h : Turned o o' mem cur ws mem') (hne : o ≠ o')
    (hin : ∀ a ∈ as, Inside mem a 4 ∧ cur ≤ a ∧ a + 4 ≤ hi) (hsorted : as.Pairwise fun a b => a + 4 ≤ b)
    (hcur : cur ≤ hi) :
    ∃ mem'', Memory.swapAll as mem' = .ok ((), mem'') ∧ Turned o o' mem hi (ws ∪ {a | a ∈ as}) mem'' := by
  induction as generalizing cur ws mem' with
  | nil => exact ⟨mem', rfl, h.mono hcur (by simp)⟩
  | cons a as ih =>
    obtain ⟨⟨ha, hle, hhi⟩, hrest⟩ := List.forall_mem_cons.mp hin
    obtain ⟨hfirst, hsorted⟩ := List.pairwise_cons.mp hsorted
    obtain ⟨mem₁, hrun, h₁⟩ := h.swap hne ha hle
    have hset : insert a ws ∪ {b | b ∈ as} = ws ∪ {b | b ∈ a :: as} := by
      ext b
      simp only [Set.mem_union, Set.mem_insert_iff, Set.mem_ofPred_eq, List.mem_cons]
      tauto
    obtain ⟨mem₂, hrun', h₂⟩ := ih h₁
      (fun b hb => ⟨(hrest b hb).1, hfirst b hb, (hrest b hb).2.2⟩) hsorted hhi
    refine ⟨mem₂, ?_, hset ▸ h₂⟩
    rcases eq_or_ne as [] with rfl | has
    · obtain rfl : mem₁ = mem₂ := congrArg Prod.snd (Except.ok.inj hrun')
      exact hrun
    · rw [swapAll_cons a has, bind_ok hrun, hrun']

/-- One of the words is not inside. -/
theorem swapAll_outside {as : List ℤ} (hlength : mem'.length = mem.length) (h : ∃ a ∈ as, ¬ Inside mem a 4) :
    swapAll as mem' = .error .outside := by
  induction as generalizing mem' with
  | nil => obtain ⟨a, ha, -⟩ := h; exact absurd ha List.not_mem_nil
  | cons a as ih =>
    have hinside : Inside mem' a 4 ↔ Inside mem a 4 := by rw [Inside, Inside, hlength]
    by_cases ha : Inside mem a 4
    · obtain ⟨mem₁, hrun, hw, -⟩ := swapWord_within (hinside.mpr ha)
      have hrest : ∃ b ∈ as, ¬ Inside mem b 4 := by
        obtain ⟨b, hb, hout⟩ := h
        rcases List.mem_cons.mp hb with rfl | hb
        · exact absurd ha hout
        · exact ⟨b, hb, hout⟩
      have has : as ≠ [] := by
        rintro rfl
        obtain ⟨b, hb, -⟩ := hrest
        exact absurd hb List.not_mem_nil
      rw [swapAll_cons a has, bind_ok hrun, ih (hw.length_eq.trans hlength) hrest]
    · have hfirst := swapWord_outside (fun h => ha (hinside.mp h))
      rcases eq_or_ne as [] with rfl | has
      · exact hfirst
      · rw [swapAll_cons a has, bind_error hfirst]

end Memory
