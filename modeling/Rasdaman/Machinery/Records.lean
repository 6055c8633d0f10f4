import Mathlib.Data.List.TakeWhile
import Rasdaman.Machinery.Bytes

/-!
# Machinery/Records — structures in an enciphered file

A structure is a block of bytes made of blocks for its fields, numbers and C strings among them.  A program
writes structures to a file one after the other, every byte combined with the next one of a key stream, and
reads them back.
-/

namespace Records

open Bytes

variable {k m n w : ℕ}

/-! ## Blocks -/

/-- A `char[n]`. -/
abbrev Block (n : ℕ) := {bs : List UInt8 // bs.length = n}

/-- A text that fits a `char[n]` together with its terminating zero. -/
abbrev Chars (n : ℕ) := {s : List UInt8 // 0 ∉ s ∧ s.length < n}

namespace Block

/-- One block behind the other. -/
def append (a : Block m) (b : Block n) : Block (m + n) := ⟨a.1 ++ b.1, by rw [List.length_append, a.2, b.2]⟩

/-- The block in two. -/
def split (b : Block (m + n)) : Block m × Block n :=
  (⟨b.1.take m, by rw [List.length_take, b.2]; omega⟩, ⟨b.1.drop m, by rw [List.length_drop, b.2]; omega⟩)

@[simp] theorem split_append (a : Block m) (b : Block n) : (a.append b).split = (a, b) :=
  Prod.ext (Subtype.ext (List.take_left' a.2)) (Subtype.ext (List.drop_left' a.2))

/-- `strcpy` into the block. -/
def strcpy (old : Block n) (s : Chars n) : Block n :=
  ⟨s.1 ++ 0 :: old.1.drop (s.1.length + 1), by
    have hs := s.2.2
    have hold := old.2
    simp only [List.length_append, List.length_cons, List.length_drop]
    omega⟩

/-- The text at the start of the block; without a terminating zero it goes on behind the block. -/
def text (b : Block n) : Option (Chars n) :=
  if h : 0 ∈ b.1 then
    some ⟨b.1.takeWhile (· ≠ 0), fun hmem => by simpa using List.mem_takeWhile_imp hmem, by
      refine lt_of_le_of_ne ((List.takeWhile_sublist _).length_le.trans b.2.le) fun hlength => ?_
      have hall := List.takeWhile_eq_self_iff.mp
        ((List.takeWhile_sublist _).eq_of_length (hlength.trans b.2.symm))
      simpa using hall 0 h⟩
  else none

/-- **A text is read as it was copied.** -/
@[simp] theorem text_strcpy (old : Block n) (s : Chars n) : (old.strcpy s).text = some s := by
  have hmem : 0 ∈ (old.strcpy s).1 := List.mem_append_right _ List.mem_cons_self
  rw [text, dif_pos hmem, Option.some.injEq, Subtype.ext_iff]
  have hall : ∀ b ∈ s.1, decide (b ≠ 0) = true := fun b hb =>
    decide_eq_true fun hzero => s.2.1 (hzero ▸ hb)
  change (s.1 ++ 0 :: _).takeWhile _ = s.1
  rw [List.takeWhile_append_of_pos hall, List.takeWhile_cons_of_neg (by decide), List.append_nil]

/-- A number in a block. -/
def ofBits (o : Order) (k : ℕ) (v : BitVec w) : Block k := ⟨store o k v.toNat, length_store o k _⟩

/-- The number in a block. -/
def toBits (o : Order) (w : ℕ) (b : Block k) : BitVec w := BitVec.ofNat w (load o b.1)

/-- **A number is read as it was written.** -/
theorem toBits_ofBits (o : Order) (h : w ≤ 8 * k) (v : BitVec w) : (ofBits o k v).toBits o w = v := by
  have hlt : v.toNat < 256 ^ k := by
    refine v.isLt.trans_le ?_
    rw [show 256 = 2 ^ 8 from rfl, ← pow_mul]
    exact Nat.pow_le_pow_right (by decide) h
  rw [toBits, ofBits, load_store o hlt, BitVec.ofNat_toNat, BitVec.setWidth_eq]

end Block

/-! ## The cipher -/

section Cipher

variable {σ : Type} (next : σ → UInt8 × σ) {g : σ} {a b bs plain : List UInt8}

/-- Every byte is combined with the next one of the key stream. -/
def crypt : σ → List UInt8 → List UInt8 × σ
  | g, [] => ([], g)
  | g, b :: bs => ((b ^^^ (next g).1) :: (crypt (next g).2 bs).1, (crypt (next g).2 bs).2)

theorem crypt_cons (x : UInt8) : crypt next g (x :: bs) =
    ((x ^^^ (next g).1) :: (crypt next (next g).2 bs).1, (crypt next (next g).2 bs).2) := rfl

theorem crypt_append : crypt next g (a ++ b) =
    ((crypt next g a).1 ++ (crypt next (crypt next g a).2 b).1, (crypt next (crypt next g a).2 b).2) := by
  induction a generalizing g with
  | nil => rfl
  | cons x a ih => rw [List.cons_append, crypt_cons, ih, crypt_cons, List.cons_append]

@[simp] theorem length_crypt : (crypt next g bs).1.length = bs.length := by
  induction bs generalizing g with
  | nil => rfl
  | cons x bs ih => rw [crypt_cons, List.length_cons, ih, List.length_cons]

/-- Generators that give the same bytes are the same cipher. -/
theorem crypt_congr {R : σ → σ → Prop}
    (hR : ∀ g g', R g g' → (next g).1 = (next g').1 ∧ R (next g).2 (next g').2) {g g' : σ}
    (h : R g g') : (crypt next g bs).1 = (crypt next g' bs).1 := by
  induction bs generalizing g g' with
  | nil => rfl
  | cons x bs ih =>
    obtain ⟨hbyte, hnext⟩ := hR g g' h
    rw [crypt_cons, crypt_cons, hbyte, ih hnext]

/-- A block in place. -/
def cryptBlock (g : σ) (b : Block n) : Block n := ⟨(crypt next g b.1).1, (length_crypt next).trans b.2⟩

/-- **What was enciphered is deciphered by enciphering it again.** -/
theorem crypt_crypt : crypt next g (crypt next g bs).1 = (bs, (crypt next g bs).2) := by
  induction bs generalizing g with
  | nil => rfl
  | cons x bs ih =>
    have hbyte : x ^^^ (next g).1 ^^^ (next g).1 = x := by
      rw [UInt8.xor_assoc, UInt8.xor_self, UInt8.xor_zero]
    rw [crypt_cons, crypt_cons, ih, hbyte]

/-- In blocks of at most `n` bytes. -/
def cryptBlocks (n : ℕ) (g : σ) (bs : List UInt8) : List UInt8 :=
  if bs = [] ∨ n = 0 then []
  else (crypt next g (bs.take n)).1 ++ cryptBlocks n (crypt next g (bs.take n)).2 (bs.drop n)
termination_by bs.length
decreasing_by
  rename_i h
  have hpos := List.length_pos_iff.mpr (not_or.mp h).1
  have hn := Nat.pos_of_ne_zero (not_or.mp h).2
  rw [List.length_drop]
  omega

/-- The blocks do not matter. -/
theorem cryptBlocks_eq (hn : n ≠ 0) : cryptBlocks next n g bs = (crypt next g bs).1 := by
  induction g, bs using cryptBlocks.induct next n with
  | case1 g bs h =>
    obtain rfl := h.resolve_right hn
    rw [cryptBlocks, if_pos (.inl rfl)]
    rfl
  | case2 g bs h ih =>
    rw [cryptBlocks, if_neg h, ih]
    conv_rhs => rw [← List.take_append_drop n bs, crypt_append]

end Cipher

/-! ## Files -/

/-- An `ifstream`: what is left of the file, and whether no operation has failed. -/
structure FileStream where
  rest : List UInt8
  good : Bool := true

namespace FileStream

variable {s : FileStream} {rest : List UInt8}

/-- `read` into a block.  At the end of the file the block keeps its last bytes. -/
def read (s : FileStream) (old : Block n) : Block n × FileStream :=
  if s.good then
    if h : n ≤ s.rest.length then
      (⟨s.rest.take n, by rw [List.length_take]; omega⟩, { s with rest := s.rest.drop n })
    else
      (⟨s.rest ++ old.1.drop s.rest.length, by
        rw [List.length_append, List.length_drop, old.2]; omega⟩, ⟨[], false⟩)
  else (old, s)

theorem read_append (b old : Block n) : (FileStream.mk (b.1 ++ rest) true).read old = (b, ⟨rest, true⟩) := by
  have hlength : n ≤ (b.1 ++ rest).length := by rw [List.length_append, b.2]; omega
  rw [read, if_pos rfl, dif_pos hlength]
  exact Prod.ext (Subtype.ext (List.take_left' b.2)) (congrArg (FileStream.mk · true) (List.drop_left' b.2))

end FileStream

/-- An enciphered file that is read. -/
structure Reading (σ : Type) where
  stream : FileStream
  key : σ

namespace Reading

variable {σ : Type} (next : σ → UInt8 × σ) {g : σ} {plain : List UInt8}

/-- The next block. -/
def block (r : Reading σ) (old : Block n) : Block n × Reading σ :=
  let b := r.stream.read old
  (cryptBlock next r.key b.1, ⟨b.2, (crypt next r.key b.1.1).2⟩)

/-- The rest of the file says so. -/
def Says (r : Reading σ) (plain : List UInt8) : Prop := r.stream = ⟨(crypt next r.key plain).1, true⟩

theorem says_crypt (g : σ) (plain : List UInt8) : Says next ⟨⟨(crypt next g plain).1, true⟩, g⟩ plain := rfl

/-- **A block is read as it was written.** -/
theorem block_of_says {r : Reading σ} (b old : Block n) (h : r.Says next (b.1 ++ plain)) :
    ∃ r', r.block next old = (b, r') ∧ r'.Says next plain := by
  have hread : r.stream.read old =
      (cryptBlock next r.key b, ⟨(crypt next (crypt next r.key b.1).2 plain).1, true⟩) := by
    rw [h, crypt_append]
    exact FileStream.read_append (cryptBlock next r.key b) old
  have hback : crypt next r.key (cryptBlock next r.key b).1 = (b.1, (crypt next r.key b.1).2) :=
    crypt_crypt next
  refine ⟨⟨⟨(crypt next (crypt next r.key b.1).2 plain).1, true⟩, (crypt next r.key b.1).2⟩, ?_, rfl⟩
  rw [block, hread]
  refine Prod.ext (Subtype.ext (congrArg Prod.fst hback)) (congrArg (Reading.mk _) ?_)
  rw [hback]

end Reading

end Records
