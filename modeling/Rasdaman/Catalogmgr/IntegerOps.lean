import Mathlib
import Rasdaman.Catalogmgr.BinaryOp

/-!
# Catalogmgr/IntegerOps — the operators on integers and Bools

The conversions of their operands and results, what they choose and compare, and what `getCondenseInit`
writes.  An `r_ULong` and an `r_Long` have 32 bits and are cast to one another, so both are a `BitVec 32`;
the bytes of a cell come in the order of a little-endian host.  The classes of reals and complex numbers
are a parameter.
-/

namespace Rasdaman

open Ops Bytes RowMajor

/-! ## Values -/

namespace AtomicType

/-- The types that derive from `IntegralType`; the others derive from `UIntegralType`. -/
def signed : AtomicType → Bool
  | long | short | octet => true
  | _ => false

/-- `convertToCULong`, and `convertToCLong` with the same bits. -/
def convert : AtomicType → Cells → BitVec 32
  | bool, c => if value c = 0 then 0 else 1
  | short, c => (BitVec.ofNat 16 (value c)).signExtend 32
  | octet, c => (BitVec.ofNat 8 (value c)).signExtend 32
  | _, c => BitVec.ofNat 32 (value c)

/-- `makeFromCULong`, and `makeFromCLong` with the same bits: the value is restricted to the range of the
type. -/
def make : AtomicType → BitVec 32 → Cells
  | bool, x => [flag (x != 0)]
  | char, x => store .little 1 (min x.toNat 255)
  | ushort, x => store .little 2 (min x.toNat 65535)
  | octet, x => storeInt .little 1 (max (min x.toInt 127) (-128))
  | short, x => storeInt .little 2 (max (min x.toInt 32767) (-32768))
  | _, x => store .little 4 x.toNat

end AtomicType

/-! ## Operators -/

namespace Ops.OpType

/-- The larger of two values, the second one if neither is larger. -/
def larger {α : Type} (less : α → α → Bool) (x y : α) : α := if less y x then x else y

/-- The smaller of two values, the second one if neither is smaller. -/
def smaller {α : Type} (less : α → α → Bool) (x y : α) : α := if less x y then x else y

/-- What a comparison says of values of which the first may be less than the second, or equal to it. -/
def holds (less equal : Bool) : OpType → Option Bool
  | .equal => some equal
  | .notequal => some !equal
  | .less => some less
  | .lessequal => some (less || equal)
  | .greater => some !(less || equal)
  | .greaterequal => some !less
  | _ => none

end Ops.OpType

namespace Ops

/-- What is not modelled: `getCondenseInit` of the classes of reals and complex numbers. -/
structure OtherOps where
  condenseInit : OperatorClass → BaseType → Option Cells

variable (other : OtherOps)

/-- What `getCondenseInit` writes.  The other classes do not override the one of `BinaryOp`, which writes
nothing. -/
def condenseInit : OperatorClass → (resType : BaseType) → Option Cells
  | .culong .plus, .atomic r | .culong .maxBinary, .atomic r => some (r.make 0)
  | .culong .minBinary, .atomic r => some (r.make 0xFFFFFFFF)
  | .culong .mult, .atomic r => some (r.make 1)
  | .clong .plus, .atomic r => some (r.make 0)
  | .clong .maxBinary, .atomic r => some (r.make (BitVec.intMin 32))
  | .clong .minBinary, .atomic r => some (r.make (BitVec.intMax 32))
  | .clong .mult, .atomic r => some (r.make 1)
  | .culong .and, r | .clong .and, r => some (List.replicate r.getSize 0xFF)
  | .culong .or, r | .clong .or, r => some (List.replicate r.getSize 0)
  | .bool .and, _ => some [1]
  | .bool .or, _ => some [0]
  | .char .plus, _ | .char .maxBinary, _ | .char .minBinary, _ => some [0]
  | .char .mult, _ => some [1]
  | .cdouble op, r => other.condenseInit (.cdouble op) r
  | .complex op, r => other.condenseInit (.complex op) r
  | _, _ => none

end Ops

end Rasdaman

/-!
## The values of integer cells

`convertToCLong` and `convertToCULong` take the value of a cell to 32 bits, `makeFromCLong` and
`makeFromCULong` restrict what 32 bits stand for to the range of a type: as an `r_Long` for a signed type,
as an `r_ULong` for an unsigned one.
-/

namespace Rasdaman

open Bytes

namespace AtomicType

/-- Octet, Char, Short, UShort, Long and ULong. -/
def integer : AtomicType → Bool
  | ulong | ushort | char | long | short | octet => true
  | _ => false

/-- The smallest value of an integer type. -/
def low : AtomicType → ℤ
  | long => -2 ^ 31
  | short => -2 ^ 15
  | octet => -2 ^ 7
  | _ => 0

/-- The largest value of an integer type. -/
def high : AtomicType → ℤ
  | ulong => 2 ^ 32 - 1
  | ushort => 2 ^ 16 - 1
  | char => 2 ^ 8 - 1
  | long => 2 ^ 31 - 1
  | short => 2 ^ 15 - 1
  | octet => 2 ^ 7 - 1
  | _ => 0

/-- The value of a cell. -/
def intValue (t : AtomicType) (c : Cells) : ℤ := if t.signed then loadInt .little c else value c

/-- What 32 bits stand for in a type. -/
def read (t : AtomicType) (x : BitVec 32) : ℤ := if t.signed then x.toInt else x.toNat

variable {t : AtomicType} {c : Cells} {x : BitVec 32}

/-- Two's complement. -/
theorem toInt_ofNat_value {w k : ℕ} (hw : 2 ^ w = 256 ^ k) (hc : c.length = k) :
    (BitVec.ofNat w (value c)).toInt = loadInt .little c := by
  have hlt : value c < 2 ^ w := by
    rw [hw, ← hc]
    exact value_lt c
  rw [BitVec.toInt_eq_toNat_cond, BitVec.toNat_ofNat, Nat.mod_eq_of_lt hlt, loadInt, load, hc, hw]
  push_cast
  rfl

theorem low_le_intValue (ht : t.integer) (hc : c.length = t.size) :
    t.low ≤ t.intValue c ∧ t.intValue c ≤ t.high := by
  have hlt := value_lt c
  rw [hc] at hlt
  cases t <;> try cases ht
  all_goals
    simp only [intValue, signed, low, high, size, loadInt, load, hc, Bool.false_eq_true, reduceIte] at hlt ⊢
    omega

theorem low_neg_iff (t : AtomicType) : t.low ≤ 0 ∧ (t.low < 0 ↔ t.signed = true) := by
  cases t <;> exact ⟨by decide, by decide⟩

theorem high_pos (ht : t.integer) : 0 < t.high := by
  cases t <;> try cases ht
  all_goals decide

/-- **The value is taken to 32 bits.** -/
theorem convert_eq (ht : t.integer) (hc : c.length = t.size) :
    t.convert c = BitVec.ofInt 32 (t.intValue c) := by
  cases t <;> try cases ht
  case ulong | ushort | char => exact (BitVec.ofInt_natCast 32 (value c)).symm
  case long =>
    have h := toInt_ofNat_value (w := 32) (k := 4) (by decide) hc
    exact (BitVec.ofInt_toInt (x := BitVec.ofNat 32 (value c))).symm.trans (congrArg _ h)
  case short => exact congrArg (BitVec.ofInt 32) (toInt_ofNat_value (w := 16) (k := 2) (by decide) hc)
  case octet => exact congrArg (BitVec.ofInt 32) (toInt_ofNat_value (w := 8) (k := 1) (by decide) hc)

theorem intValue_bounds (ht : t.integer) (hc : c.length = t.size) :
    -2 ^ 31 ≤ t.intValue c ∧ t.intValue c < 2 ^ 32 := by
  obtain ⟨hlow, hhigh⟩ := low_le_intValue ht hc
  cases t <;> try cases ht
  all_goals
    simp only [low, high] at hlow hhigh
    omega

/-- The `r_Long` of a value. -/
theorem toInt_convert (ht : t.integer) (hc : c.length = t.size) :
    (t.convert c).toInt = if t.intValue c < 2 ^ 31 then t.intValue c else t.intValue c - 2 ^ 32 := by
  have hbounds := intValue_bounds ht hc
  rw [convert_eq ht hc, BitVec.toInt_ofInt, Int.bmod_def]
  split_ifs <;> omega

/-- The `r_ULong` of a value. -/
theorem toNat_convert (ht : t.integer) (hc : c.length = t.size) :
    ((t.convert c).toNat : ℤ) = if t.intValue c < 0 then t.intValue c + 2 ^ 32 else t.intValue c := by
  have hbounds := intValue_bounds ht hc
  rw [convert_eq ht hc, BitVec.toNat_ofInt]
  split_ifs <;> omega

/-- **What 32 bits stand for is restricted to the range of the type.** -/
theorem intValue_make (ht : t.integer) : t.intValue (t.make x) = max t.low (min (t.read x) t.high) := by
  have hlt := x.isLt
  have hint := x.toInt_lt
  have hle := x.le_toInt
  have hstored : ∀ {k n : ℕ}, n < 256 ^ k → ((value (store .little k n) : ℕ) : ℤ) = n := fun h =>
    congrArg Nat.cast (value_digits h)
  cases t <;> try cases ht
  case ulong =>
    have hvalue : ulong.intValue (ulong.make x) = (x.toNat : ℤ) := hstored (k := 4) hlt
    simp only [hvalue, low, high, read, signed, Bool.false_eq_true, reduceIte]
    omega
  case ushort =>
    have hvalue : ushort.intValue (ushort.make x) = (min x.toNat 65535 : ℕ) := hstored (k := 2) (by omega)
    simp only [hvalue, low, high, read, signed, Bool.false_eq_true, reduceIte]
    omega
  case char =>
    have hvalue : char.intValue (char.make x) = (min x.toNat 255 : ℕ) := hstored (k := 1) (by omega)
    simp only [hvalue, low, high, read, signed, Bool.false_eq_true, reduceIte]
    omega
  case long =>
    have hvalue : long.intValue (long.make x) = x.toInt := by
      have hload : value (store .little 4 x.toNat) = x.toNat := value_digits (k := 4) hlt
      have hint := toInt_ofNat_value (w := 32) (by decide) (length_store .little 4 x.toNat)
      rw [hload, BitVec.ofNat_toNat, BitVec.setWidth_eq] at hint
      exact hint.symm
    simp only [hvalue, low, high, read, signed, reduceIte]
    omega
  case short =>
    have hvalue : short.intValue (short.make x) = max (min x.toInt 32767) (-32768) :=
      loadInt_storeInt .little (k := 2) ⟨by omega, by omega⟩
    simp only [hvalue, low, high, read, signed, reduceIte]
    omega
  case octet =>
    have hvalue : octet.intValue (octet.make x) = max (min x.toInt 127) (-128) :=
      loadInt_storeInt .little (k := 1) ⟨by omega, by omega⟩
    simp only [hvalue, low, high, read, signed, reduceIte]
    omega

end AtomicType

end Rasdaman
