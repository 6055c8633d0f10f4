import Mathlib.Algebra.Order.Ring.Int
import Mathlib.Data.List.Basic
import Mathlib.Tactic.Zify

/-!
# Machinery/Bytes — integers and arrays in a byte buffer

Fixed-width integers in either byte order, arrays of equally sized cells, and the sections of a
buffer.  Whatever was stored is loaded back: `load_store` for unsigned and `loadInt_storeInt` for
two's complement integers, `cells_flatMap` for arrays, `slice_append` for sections.
-/

namespace Bytes

/-- The order of the bytes of an integer in memory. -/
inductive Order
  | little
  | big

/-- The `k` low base-256 digits of a number, the lowest first. -/
def digits : ℕ → ℕ → List UInt8
  | 0, _ => []
  | k + 1, n => UInt8.ofNat (n % 256) :: digits k (n / 256)

/-- The number with the given digits. -/
def value : List UInt8 → ℕ
  | [] => 0
  | b :: bs => b.toNat + 256 * value bs

theorem digits_succ (k n : ℕ) : digits (k + 1) n = UInt8.ofNat (n % 256) :: digits k (n / 256) := rfl

theorem value_cons (b : UInt8) (bs : List UInt8) : value (b :: bs) = b.toNat + 256 * value bs := rfl

theorem length_digits (k n : ℕ) : (digits k n).length = k := by
  induction k generalizing n with
  | zero => rfl
  | succ k ih => rw [digits_succ, List.length_cons, ih]

theorem value_digits {k n : ℕ} (h : n < 256 ^ k) : value (digits k n) = n := by
  induction k generalizing n with
  | zero =>
    rw [pow_zero, Nat.lt_one_iff] at h
    exact h.symm
  | succ k ih =>
    have hdiv : n / 256 < 256 ^ k := Nat.div_lt_of_lt_mul (by rw [← pow_succ']; exact h)
    have hbyte : (UInt8.ofNat (n % 256)).toNat = n % 256 := by
      rw [UInt8.toNat_ofNat']
      omega
    rw [digits_succ, value_cons, hbyte, ih hdiv]
    omega

theorem digits_value (bs : List UInt8) : digits bs.length (value bs) = bs := by
  induction bs with
  | nil => rfl
  | cons b bs ih =>
    have hb := b.toNat_lt
    have hmod : (b.toNat + 256 * value bs) % 256 = b.toNat := by omega
    have hdiv : (b.toNat + 256 * value bs) / 256 = value bs := by omega
    rw [List.length_cons, digits_succ, value_cons, hmod, hdiv, ih, UInt8.ofNat_toNat]

theorem digits_zero (k : ℕ) : digits k 0 = List.replicate k 0 := by
  induction k with
  | zero => rfl
  | succ k ih =>
    rw [digits_succ, List.replicate_succ]
    exact congrArg (0 :: ·) ih

/-- The low digits and the high ones. -/
theorem digits_add (k m n : ℕ) : digits (k + m) n = digits k n ++ digits m (n / 256 ^ k) := by
  induction k generalizing n with
  | zero => rw [Nat.zero_add, pow_zero, Nat.div_one]; rfl
  | succ k ih =>
    rw [Nat.succ_add, digits_succ, ih, digits_succ, List.cons_append, Nat.div_div_eq_div_mul, ← pow_succ']

/-- An unsigned integer of `k` bytes in memory. -/
def store (o : Order) (k n : ℕ) : List UInt8 :=
  match o with
  | .little => digits k n
  | .big => (digits k n).reverse

/-- The unsigned integer in some bytes of memory. -/
def load (o : Order) (bs : List UInt8) : ℕ :=
  match o with
  | .little => value bs
  | .big => value bs.reverse

@[simp] theorem length_store (o : Order) (k n : ℕ) : (store o k n).length = k := by
  cases o <;> simp [store, length_digits]

/-- **An unsigned integer is loaded as it was stored.** -/
theorem load_store (o : Order) {k n : ℕ} (h : n < 256 ^ k) : load o (store o k n) = n := by
  cases o <;> simp [load, store, value_digits h]

/-- Any bytes are an unsigned integer in memory. -/
theorem store_load (o : Order) (bs : List UInt8) : store o bs.length (load o bs) = bs := by
  cases o with
  | little => exact digits_value bs
  | big =>
    rw [store, load, ← List.length_reverse, digits_value, List.reverse_reverse]

theorem value_lt (bs : List UInt8) : value bs < 256 ^ bs.length := by
  induction bs with
  | nil => exact Nat.one_pos
  | cons b bs ih =>
    have hb := b.toNat_lt
    rw [value_cons, List.length_cons, pow_succ]
    omega

theorem load_lt (o : Order) (bs : List UInt8) : load o bs < 256 ^ bs.length := by
  cases o with
  | little => exact value_lt bs
  | big => exact List.length_reverse ▸ value_lt bs.reverse

/-- A small number has zeros in its upper half. -/
theorem store_double {k n : ℕ} (h : n < 256 ^ k) :
    store .big (2 * k) n = List.replicate k 0 ++ store .big k n := by
  change (digits (2 * k) n).reverse = _ ++ (digits k n).reverse
  rw [Nat.two_mul, digits_add, Nat.div_eq_of_lt h, digits_zero, List.reverse_append, List.reverse_replicate]

theorem length_flatMap_store (o : Order) (k : ℕ) (ns : List ℕ) :
    (ns.flatMap (store o k)).length = ns.length * k := by
  rw [List.length_flatMap, List.map_congr_left fun n _ => length_store o k n, List.map_const',
    List.sum_replicate_nat]

/-- A signed integer of `k` bytes, in two's complement. -/
def storeInt (o : Order) (k : ℕ) (v : ℤ) : List UInt8 := store o k (v % 256 ^ k).toNat

/-- The signed integer in some bytes of memory. -/
def loadInt (o : Order) (bs : List UInt8) : ℤ :=
  if 2 * load o bs < 256 ^ bs.length then load o bs else load o bs - 256 ^ bs.length

@[simp] theorem length_storeInt (o : Order) (k : ℕ) (v : ℤ) : (storeInt o k v).length = k :=
  length_store ..

/-- The values a signed integer of `k` bytes can have. -/
def SignedRange (k : ℕ) (v : ℤ) : Prop := -(256 ^ k : ℤ) ≤ 2 * v ∧ 2 * v < 256 ^ k

instance (k : ℕ) (v : ℤ) : Decidable (SignedRange k v) := inferInstanceAs (Decidable (_ ∧ _))

/-- **A signed integer is loaded as it was stored.** -/
theorem loadInt_storeInt (o : Order) {k : ℕ} {v : ℤ} (h : SignedRange k v) :
    loadInt o (storeInt o k v) = v := by
  obtain ⟨hlow, hhigh⟩ := h
  have hpos : (0 : ℤ) < 256 ^ k := pow_pos (by decide) k
  have hmod0 := Int.emod_nonneg v hpos.ne'
  have hmod1 := Int.emod_lt_of_pos v hpos
  have hlt : (v % 256 ^ k).toNat < 256 ^ k := by
    zify
    rw [Int.toNat_of_nonneg hmod0]
    exact_mod_cast hmod1
  have hload : (load o (storeInt o k v) : ℤ) = v % 256 ^ k := by
    rw [storeInt, load_store o hlt, Int.toNat_of_nonneg hmod0]
  have hcond : 2 * load o (storeInt o k v) < 256 ^ k ↔ 2 * (v % 256 ^ k) < 256 ^ k := by
    rw [← hload]
    exact_mod_cast Iff.rfl
  simp only [loadInt, length_storeInt, hcond, hload]
  rcases le_or_gt 0 v with hv | hv
  · have hsame : v % 256 ^ k = v := Int.emod_eq_of_lt hv (by omega)
    rw [hsame, if_pos hhigh]
  · have hwrap : v % 256 ^ k = v + 256 ^ k := by
      rw [← Int.add_emod_right, Int.emod_eq_of_lt (by omega) (by omega)]
    rw [hwrap, if_neg (by omega)]
    omega

theorem signedRange_loadInt (o : Order) (bs : List UInt8) : SignedRange bs.length (loadInt o bs) := by
  have hlt := load_lt o bs
  zify at hlt
  rw [SignedRange, loadInt]
  split
  next h =>
    zify at h
    omega
  next h =>
    zify at h
    omega

/-- `n` cells of `k` elements each. -/
def cells {β : Type} (k n : ℕ) (buf : List β) : List (List β) :=
  (List.range n).map fun i => (buf.drop (i * k)).take k

/-- **An array is read as it was written.** -/
theorem cells_flatMap {α β : Type} {k : ℕ} {f : α → List β} (xs : List α)
    (hf : ∀ x ∈ xs, (f x).length = k) : cells k xs.length (xs.flatMap f) = xs.map f := by
  induction xs with
  | nil => rfl
  | cons x xs ih =>
    obtain ⟨hx, hxs⟩ := List.forall_mem_cons.mp hf
    have ih := ih hxs
    rw [cells, List.length_cons, List.range_succ_eq_map, List.map_cons, List.map_map, List.map_cons,
      ← ih, List.flatMap_cons, cells]
    congr 1
    · rw [Nat.zero_mul, List.drop_zero, ← hx, List.take_left]
    · refine List.map_congr_left fun i _ => ?_
      have hoff : (i + 1) * k = (f x).length + i * k := by rw [hx, Nat.add_one_mul, Nat.add_comm]
      rw [Function.comp_apply, Nat.succ_eq_add_one, hoff, List.drop_append, List.drop_of_length_le (by omega),
        List.nil_append, Nat.add_sub_cancel_left]

/-- A section of a buffer. -/
def slice (off len : ℕ) (buf : List UInt8) : List UInt8 := (buf.drop off).take len

theorem slice_append {a b c : List UInt8} {off len : ℕ} (ha : a.length = off) (hb : b.length = len) :
    slice off len (a ++ (b ++ c)) = b := by
  rw [slice, ← ha, List.drop_left, ← hb, List.take_left]

end Bytes
