import Mathlib.Data.BitVec
import Mathlib.Data.Nat.Bitwise
import Rasdaman.Machinery.Bytes

/-!
# Machinery/Memory — programs on a region of bytes

A program reads and writes a region through addresses that may be anything; an access that is not inside
the region is a fault.  Words are 32-bit integers in one of the two byte orders.  Runs are computed on
regions written as `pre ++ (bytes ++ post)`.
-/

namespace Memory

open Bytes

/-- What an access can do wrong. -/
inductive Fault
  | outside
  deriving DecidableEq, Repr

abbrev Region := List UInt8

/-- A program on a region. -/
abbrev Access := StateT Region (Except Fault)

/-- The addresses from `off` on, `n` of them, are in the region. -/
def Inside (mem : Region) (off : ℤ) (n : ℕ) : Prop := 0 ≤ off ∧ off + n ≤ mem.length

instance (mem : Region) (off : ℤ) (n : ℕ) : Decidable (Inside mem off n) :=
  inferInstanceAs (Decidable (_ ∧ _))

def get (off : ℤ) (n : ℕ) : Access (List UInt8) := fun mem =>
  if Inside mem off n then .ok (slice off.toNat n mem, mem) else .error .outside

def put (off : ℤ) (bs : List UInt8) : Access Unit := fun mem =>
  if Inside mem off bs.length then
    .ok ((), mem.take off.toNat ++ (bs ++ mem.drop (off.toNat + bs.length)))
  else .error .outside

/-! ## Words -/

abbrev Word := BitVec 32

/-- A word in memory. -/
def wordBytes (o : Order) (w : Word) : List UInt8 := store o 4 w.toNat

/-- The word in four bytes of memory. -/
def wordOf (o : Order) (bs : List UInt8) : Word := BitVec.ofNat 32 (load o bs)

def getWord (o : Order) (off : ℤ) : Access Word := do
  return wordOf o (← get off 4)

def putWord (o : Order) (off : ℤ) (w : Word) : Access Unit := put off (wordBytes o w)

def modifyWord (o : Order) (off : ℤ) (f : Word → Word) : Access Unit := do
  putWord o off (f (← getWord o off))

/-- Some words, one after another. -/
def wordsBytes (o : Order) (ws : List Word) : List UInt8 := ws.flatMap (wordBytes o)

/-- Reverse the four bytes of a word in memory. -/
def swapWord (off : ℤ) : Access Unit := do
  put off (← get off 4).reverse

/-- Rounding down to a multiple of four. -/
theorem land_mask {x : ℕ} (h : x < 2 ^ 32) : x &&& 0xFFFFFFFC = x / 4 * 4 := by
  have hmask : 0xFFFFFFFC = (2 ^ 30 - 1) <<< 2 := by decide
  have hdiv : x / 4 * 4 = (x >>> 2) <<< 2 := by rw [Nat.shiftLeft_eq, Nat.shiftRight_eq_div_pow]
  rw [hmask, hdiv]
  refine Nat.eq_of_testBit_eq fun i => ?_
  rw [Nat.testBit_land, Nat.testBit_shiftLeft, Nat.testBit_shiftLeft, Nat.testBit_two_pow_sub_one,
    Nat.testBit_shiftRight]
  by_cases hi : 2 ≤ i
  · have hback : 2 + (i - 2) = i := by omega
    rw [hback]
    by_cases hlow : i - 2 < 30
    · simp [hi, hlow]
    · have hzero : x.testBit i = false :=
        Nat.testBit_lt_two_pow (h.trans_le (Nat.pow_le_pow_right (by decide) (by omega)))
      simp [hi, hzero]
  · simp [hi]

/-- What is behind a place of `n` bytes. -/
theorem exists_split (bs : Region) (n : ℕ) (h : n ≤ bs.length) :
    ∃ place rest : Region, bs = place ++ rest ∧ place.length = n :=
  ⟨bs.take n, bs.drop n, (List.take_append_drop n bs).symm, by rw [List.length_take]; omega⟩

/-! ## Loops over `int` -/

section Loop

variable {σ : Type}

/-- `for (int i = 0; i < count; i++)`, from `i = 2 ^ 31 - left` on.  The bound is read before each turn,
and a turn may break. -/
def forInts (count : σ → Access ℤ) (body : σ → Access (ForInStep σ)) : ℕ → σ → Access σ
  | 0, s => pure s
  | left + 1, s => do
    if (2 ^ 31 - (left + 1 : ℕ) : ℤ) < (← count s) then
      match ← body s with
      | .yield s' => forInts count body left s'
      | .done s' => return s'
    else return s

/-- `for (int i = 0; i < count; i++)`. -/
def forInt (count : σ → Access ℤ) (body : σ → Access (ForInStep σ)) (s : σ) : Access σ :=
  forInts count body (2 ^ 31) s

end Loop

/-! ## Runs -/

variable {o o' : Order} {off : ℤ} {mem pre old new post bs : Region} {α β σ : Type}

theorem bind_ok {x : Access α} {f : α → Access β} {a : α} {mem' : Region} (h : x mem = .ok (a, mem')) :
    (x >>= f) mem = f a mem' := by
  change (x mem >>= fun p => f p.1 p.2) = _
  rw [h]
  rfl

theorem bind_error {x : Access α} {f : α → Access β} {e : Fault} (h : x mem = .error e) :
    (x >>= f) mem = .error e := by
  change (x mem >>= fun p => f p.1 p.2) = _
  rw [h]
  rfl

/-- A read in the middle. -/
theorem get_mid (h : off = pre.length) {n : ℕ} (hn : n = bs.length) :
    get off n (pre ++ (bs ++ post)) = .ok (bs, pre ++ (bs ++ post)) := by
  subst h hn
  rw [get, if_pos ⟨by omega, by simp⟩, Int.toNat_natCast, slice_append rfl rfl]

/-- A write in the middle. -/
theorem put_mid (h : off = pre.length) (hlen : new.length = old.length) :
    put off new (pre ++ (old ++ post)) = .ok ((), pre ++ (new ++ post)) := by
  subst h
  rw [put, if_pos ⟨by omega, by simp [hlen]⟩, Int.toNat_natCast, List.take_left, hlen,
    ← List.drop_drop, List.drop_left, List.drop_left]

@[simp] theorem length_wordBytes (o : Order) (w : Word) : (wordBytes o w).length = 4 := length_store ..

@[simp] theorem wordOf_wordBytes (o : Order) (w : Word) : wordOf o (wordBytes o w) = w := by
  rw [wordOf, wordBytes, load_store o (by have := w.isLt; omega), BitVec.ofNat_toNat, BitVec.setWidth_eq]

theorem wordBytes_wordOf (o : Order) {bs : List UInt8} (h : bs.length = 4) :
    wordBytes o (wordOf o bs) = bs := by
  have hlt : load o bs < 2 ^ 32 := by
    have := load_lt o bs
    rw [h] at this
    omega
  rw [wordBytes, wordOf, BitVec.toNat_ofNat, Nat.mod_eq_of_lt hlt, ← h, store_load]

/-- Small numbers are non-negative words. -/
theorem toInt_ofNat_of_lt {n : ℕ} (h : n < 2 ^ 31) : (BitVec.ofNat 32 n : Word).toInt = n := by
  rw [BitVec.toInt_ofNat', Int.bmod_eq_of_le] <;> omega

@[simp] theorem wordsBytes_nil (o : Order) : wordsBytes o [] = [] := rfl

@[simp] theorem wordsBytes_cons (o : Order) (w : Word) (ws : List Word) :
    wordsBytes o (w :: ws) = wordBytes o w ++ wordsBytes o ws := List.flatMap_cons

theorem wordsBytes_append (o : Order) (ws vs : List Word) :
    wordsBytes o (ws ++ vs) = wordsBytes o ws ++ wordsBytes o vs := List.flatMap_append

@[simp] theorem length_wordsBytes (o : Order) (ws : List Word) :
    (wordsBytes o ws).length = 4 * ws.length := by
  induction ws with
  | nil => rfl
  | cons w ws ih =>
    rw [wordsBytes_cons, List.length_append, length_wordBytes, ih, List.length_cons]
    omega

/-- Any bytes are words. -/
theorem exists_words (o : Order) {n : ℕ} {bs : List UInt8} (h : bs.length = 4 * n) :
    ∃ ws : List Word, ws.length = n ∧ bs = wordsBytes o ws := by
  induction n generalizing bs with
  | zero => exact ⟨[], rfl, List.length_eq_zero_iff.mp h⟩
  | succ n ih =>
    obtain ⟨ws, hws, hbs⟩ := @ih (bs.drop 4) (by rw [List.length_drop]; omega)
    refine ⟨wordOf o (bs.take 4) :: ws, by rw [List.length_cons, hws], ?_⟩
    rw [wordsBytes_cons, wordBytes_wordOf o (by rw [List.length_take]; omega), ← hbs,
      List.take_append_drop]

/-- The words of a structure before and after one of them. -/
theorem wordsBytes_split (o : Order) {ws : List Word} {i : ℕ} (h : i < ws.length) :
    wordsBytes o ws = wordsBytes o (ws.take i) ++ (wordBytes o ws[i] ++ wordsBytes o (ws.drop (i + 1))) := by
  rw [← wordsBytes_cons, ← wordsBytes_append, List.cons_getElem_drop_succ, List.take_append_drop]

/-- Reading a word of a structure. -/
theorem getWord_words (off : ℤ) (pre post : Region) (ws : List Word) (i : ℕ) (hi : i < ws.length)
    (h : off = pre.length + 4 * i) :
    getWord o off (pre ++ (wordsBytes o ws ++ post)) = .ok (ws[i], pre ++ (wordsBytes o ws ++ post)) := by
  have hpre : off = (pre ++ wordsBytes o (ws.take i)).length := by
    rw [List.length_append, length_wordsBytes, List.length_take, Nat.min_eq_left hi.le, h]
    push_cast
    rfl
  have hsplit : pre ++ (wordsBytes o ws ++ post) = (pre ++ wordsBytes o (ws.take i)) ++
      (wordBytes o ws[i] ++ (wordsBytes o (ws.drop (i + 1)) ++ post)) := by
    rw [wordsBytes_split o hi]
    simp only [List.append_assoc]
  rw [hsplit, getWord, bind_ok (get_mid hpre (length_wordBytes o _).symm), wordOf_wordBytes]
  rfl

/-- Writing a word of a structure. -/
theorem putWord_words (off : ℤ) (pre post : Region) (ws : List Word) (i : ℕ) (hi : i < ws.length)
    (h : off = pre.length + 4 * i) (w : Word) :
    putWord o off w (pre ++ (wordsBytes o ws ++ post))
      = .ok ((), pre ++ (wordsBytes o (ws.set i w) ++ post)) := by
  have hpre : off = (pre ++ wordsBytes o (ws.take i)).length := by
    rw [List.length_append, length_wordsBytes, List.length_take, Nat.min_eq_left hi.le, h]
    push_cast
    rfl
  have hsplit : pre ++ (wordsBytes o ws ++ post) = (pre ++ wordsBytes o (ws.take i)) ++
      (wordBytes o ws[i] ++ (wordsBytes o (ws.drop (i + 1)) ++ post)) := by
    rw [wordsBytes_split o hi]
    simp only [List.append_assoc]
  rw [hsplit, putWord, put_mid hpre (by rw [length_wordBytes, length_wordBytes]),
    List.set_eq_take_append_cons_drop, if_pos hi, wordsBytes_append, wordsBytes_cons]
  simp only [List.append_assoc]

/-- Changing a word of a structure. -/
theorem modifyWord_words (off : ℤ) (pre post : Region) (ws : List Word) (i : ℕ) (hi : i < ws.length)
    (h : off = pre.length + 4 * i) (f : Word → Word) :
    modifyWord o off f (pre ++ (wordsBytes o ws ++ post))
      = .ok ((), pre ++ (wordsBytes o (ws.set i (f ws[i])) ++ post)) := by
  rw [modifyWord, bind_ok (getWord_words off pre post ws i hi h), putWord_words off pre post ws i hi h]

/-- Reversing the bytes of a word. -/
theorem swapWord_mid (h : off = pre.length) (hbs : bs.length = 4) :
    swapWord off (pre ++ (bs ++ post)) = .ok ((), pre ++ (bs.reverse ++ post)) := by
  rw [swapWord, bind_ok (get_mid h hbs.symm), put_mid h List.length_reverse]

/-- The same word in the other byte order. -/
theorem reverse_wordBytes (h : o ≠ o') (w : Word) : (wordBytes o w).reverse = wordBytes o' w := by
  cases o <;> cases o' <;> first | exact absurd rfl h | simp [wordBytes, store]

/-! ## Runs of loops -/

theorem forInts_succ (count : σ → Access ℤ) (body : σ → Access (ForInStep σ)) (left : ℕ) (s : σ) :
    forInts count body (left + 1) s = (do
      if (2 ^ 31 - (left + 1 : ℕ) : ℤ) < (← count s) then
        match ← body s with
        | .yield s' => forInts count body left s'
        | .done s' => return s'
      else return s) := rfl

section Rule

variable {count : σ → Access ℤ} {body : σ → Access (ForInStep σ)} {n : ℕ}

/-- One turn of a loop carries the invariant on, ends the loop well, or fails as it should. -/
def TurnsWell (body : σ → Access (ForInStep σ)) (I : σ → Region → Prop)
    (Q : Except Fault (σ × Region) → Prop) (s : σ) (mem : Region) : Prop :=
  (∃ s' mem', body s mem = .ok (.yield s', mem') ∧ I s' mem') ∨
  (∃ s' mem', body s mem = .ok (.done s', mem') ∧ Q (.ok (s', mem'))) ∨
  ∃ e, body s mem = .error e ∧ Q (.error e)

theorem forInts_rule (hn : n ≤ 2 ^ 31) (I : ℕ → σ → Region → Prop) (Q : Except Fault (σ × Region) → Prop)
    (hcount : ∀ i s mem, I i s mem → ∃ c, count s mem = .ok (c, mem) ∧ c.toNat = n)
    (hbody : ∀ i s mem, i < n → I i s mem → TurnsWell body (I (i + 1)) Q s mem)
    (hdone : ∀ s mem, I n s mem → Q (.ok (s, mem))) :
    ∀ left i s mem, i + left = 2 ^ 31 → i ≤ n → I i s mem → Q (forInts count body left s mem) := by
  intro left
  induction left with
  | zero =>
    intro i s mem hi hin h
    obtain rfl : i = n := by omega
    exact hdone s mem h
  | succ left ih =>
    intro i s mem hi hin h
    obtain ⟨c, hc, hcn⟩ := hcount i s mem h
    rw [forInts, bind_ok hc]
    rcases Nat.lt_or_eq_of_le hin with hlt | rfl
    · rw [if_pos (by omega)]
      obtain ⟨s', mem', hrun, h'⟩ | ⟨s', mem', hrun, hQ⟩ | ⟨e, hrun, hQ⟩ := hbody i s mem hlt h
      · rw [bind_ok hrun]
        exact ih (i + 1) s' mem' (by omega) hlt h'
      · rw [bind_ok hrun]
        exact hQ
      · rw [bind_error hrun]
        exact hQ
    · rw [if_neg (by omega)]
      exact hdone s mem h

/-- **The loop rule.**  An invariant that every turn carries on, unless the loop ends there as it should,
gives what is wanted of the loop. -/
theorem forInt_rule (hn : n ≤ 2 ^ 31) (I : ℕ → σ → Region → Prop) (Q : Except Fault (σ × Region) → Prop)
    {s : σ} (hcount : ∀ i s mem, I i s mem → ∃ c, count s mem = .ok (c, mem) ∧ c.toNat = n)
    (hbody : ∀ i s mem, i < n → I i s mem → TurnsWell body (I (i + 1)) Q s mem)
    (hdone : ∀ s mem, I n s mem → Q (.ok (s, mem))) (h : I 0 s mem) : Q (forInt count body s mem) :=
  forInts_rule hn I Q hcount hbody hdone (2 ^ 31) 0 s mem (by omega) (Nat.zero_le n) h

/-- An invariant that every turn carries on holds after the last turn. -/
theorem forInt_run (hn : n < 2 ^ 31) (I : ℕ → σ → Region → Prop) {s : σ}
    (hcount : ∀ i s mem, I i s mem → count s mem = .ok ((n : ℤ), mem))
    (hbody : ∀ i s mem, i < n → I i s mem →
      ∃ s' mem', body s mem = .ok (.yield s', mem') ∧ I (i + 1) s' mem') (h : I 0 s mem) :
    ∃ s' mem', forInt count body s mem = .ok (s', mem') ∧ I n s' mem' :=
  forInt_rule hn.le I (fun r => ∃ s' mem', r = .ok (s', mem') ∧ I n s' mem')
    (fun i s mem hI => ⟨n, hcount i s mem hI, Int.toNat_natCast n⟩)
    (fun i s mem hi hI => .inl (hbody i s mem hi hI)) (fun s mem hI => ⟨s, mem, rfl, hI⟩) h

end Rule

/-- A loop whose bound is not positive. -/
theorem forInt_zero {count : σ → Access ℤ} {body : σ → Access (ForInStep σ)} {s : σ} {c : ℤ}
    (hcount : count s mem = .ok (c, mem)) (hc : c ≤ 0) : forInt count body s mem = .ok (s, mem) := by
  rw [forInt, show (2 ^ 31 : ℕ) = (2 ^ 31 - 1) + 1 from rfl, forInts_succ, bind_ok hcount,
    if_neg (by omega)]
  rfl

/-- A loop that ends in its first turn. -/
theorem forInt_done {count : σ → Access ℤ} {body : σ → Access (ForInStep σ)} {s s' : σ} {c : ℤ}
    {mem' : Region} (hcount : count s mem = .ok (c, mem)) (hc : 0 < c)
    (hbody : body s mem = .ok (.done s', mem')) : forInt count body s mem = .ok (s', mem') := by
  rw [forInt, show (2 ^ 31 : ℕ) = (2 ^ 31 - 1) + 1 from rfl, forInts_succ, bind_ok hcount,
    if_pos (by omega), bind_ok hbody]
  rfl

/-- A loop that fails in its first turn. -/
theorem forInt_error {count : σ → Access ℤ} {body : σ → Access (ForInStep σ)} {s : σ} {c : ℤ} {e : Fault}
    (hcount : count s mem = .ok (c, mem)) (hc : 0 < c) (hbody : body s mem = .error e) :
    forInt count body s mem = .error e := by
  rw [forInt, show (2 ^ 31 : ℕ) = (2 ^ 31 - 1) + 1 from rfl, forInts_succ, bind_ok hcount,
    if_pos (by omega), bind_error hbody]

/-! ## Programs that only read -/

section Reads

variable {α β : Type} {P P' : Prop} {R : α → Prop} {R' : β → Prop} {mem : Region}

/-- The result of a program that only reads: it runs if `P` holds, and leaves the region otherwise. -/
def ReadsIff (P : Prop) (R : α → Prop) (mem : Region) (r : Except Fault (α × Region)) : Prop :=
  (P → ∃ a, r = .ok (a, mem) ∧ R a) ∧ (¬ P → r = .error .outside)

namespace ReadsIff

variable {x : Access α} {f : α → Access β}

theorem ok {a : α} (hP : P) (hR : R a) : ReadsIff P R mem (.ok (a, mem)) :=
  ⟨fun _ => ⟨a, rfl, hR⟩, fun h => absurd hP h⟩

theorem error (hP : ¬ P) : ReadsIff P R mem (.error .outside) := ⟨fun h => absurd h hP, fun _ => rfl⟩

theorem bind (h : ReadsIff P R mem (x mem)) (hf : ∀ a, R a → ReadsIff P' R' mem (f a mem)) :
    ReadsIff (P ∧ P') R' mem ((x >>= f) mem) := by
  by_cases hP : P
  · obtain ⟨a, hrun, ha⟩ := h.1 hP
    rw [bind_ok hrun]
    exact ⟨fun hand => (hf a ha).1 hand.2, fun hnot => (hf a ha).2 fun hP' => hnot ⟨hP, hP'⟩⟩
  · rw [bind_error (h.2 hP)]
    exact error fun hand => hP hand.1

/-- What follows does not read. -/
theorem andThen (h : ReadsIff P R mem (x mem)) (hf : ∀ a, R a → ∃ b, f a mem = .ok (b, mem) ∧ R' b) :
    ReadsIff P R' mem ((x >>= f) mem) := by
  refine ⟨fun hP => ?_, fun hP => bind_error (h.2 hP)⟩
  obtain ⟨a, hrun, ha⟩ := h.1 hP
  obtain ⟨b, hrun', hb⟩ := hf a ha
  exact ⟨b, (bind_ok hrun).trans hrun', hb⟩

theorem congr {r : Except Fault (α × Region)} (h : ReadsIff P R mem r) (hP : P ↔ P') :
    ReadsIff P' R mem r := by
  rw [ReadsIff] at h ⊢
  rwa [hP] at h

/-- A loop that ends in its first turn. -/
theorem forInt_first {σ : Type} {count : σ → Access ℤ} {body : σ → Access (ForInStep σ)} {s : σ} {c : ℤ}
    {S : σ → Prop} (hcount : count s mem = .ok (c, mem)) (hc : 0 < c)
    (h : ReadsIff P (fun step => ∃ s', step = .done s' ∧ S s') mem (body s mem)) :
    ReadsIff P S mem (forInt count body s mem) := by
  refine ⟨fun hP => ?_, fun hP => forInt_error hcount hc (h.2 hP)⟩
  obtain ⟨-, hrun, s', rfl, hS⟩ := h.1 hP
  exact ⟨s', forInt_done hcount hc hrun, hS⟩

end ReadsIff

end Reads

end Memory
