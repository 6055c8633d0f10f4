import Rasdaman.Catalogmgr.IntegerOps
import Rasdaman.Catalogmgr.NullOps
import Mathlib

/-!
# Catalogmgr/Cast — `OpCAST` between integer types

A cast goes through an `r_Long`.  The unsigned types take its bits for an `r_ULong`, so that negative values
become large ones, and a ULong from `2^31` on is a negative `r_Long`; everything else is restricted to the
range of the result: `conversions_saturate_iff`.
-/

namespace Rasdaman

open Ops Bytes

/-! ## The conversions -/

/-- What `OpCAST` finds: the types and the cell of the operand. -/
structure CastElement where
  resType : AtomicType
  opType : AtomicType
  op : Cells
  resType_integer : resType.integer = true
  opType_integer : opType.integer = true
  length_op : op.length = opType.size

/-- `OpCAST::operator()`, for an integer type as the result. -/
def opCast (nullValues : NullValues) (resType opType : AtomicType) (op : Cells) : Cells :=
  let lngOp := opType.convert op
  resType.make (if isNull nullValues lngOp.toInt then 0 else lngOp)

/-- `OpUnaryStruct::operator()`, with an `OpCAST` for each element.  These have no null values. -/
def opUnaryStruct (es : List CastElement) : List Cells :=
  es.map fun e => opCast none e.resType e.opType e.op

/-- `convertToCDouble`, of the signed and of the unsigned types: a double holds an `r_Long` exactly. -/
def AtomicType.convertToCDouble (t : AtomicType) (c : Cells) : ℤ := (t.convert c).toInt

/-! ## The claim and its condition -/

/-- The nearest value of an integer type. -/
def AtomicType.nearest (t : AtomicType) (v : ℤ) : ℤ := max t.low (min v t.high)

/-- The value of the operand. -/
def CastElement.value (e : CastElement) : ℤ := e.opType.intValue e.op

/-- **Conversions saturate**: a cast gives the nearest value of the result type, in structs element by
element, and a double is the value itself. -/
structure ConversionsSaturate (nullValues : NullValues) (e : CastElement) (es : List CastElement)
    (w : CastElement) : Prop where
  cast : e.resType.intValue (opCast nullValues e.resType e.opType e.op) = e.resType.nearest e.value
  struct : List.Forall₂ (fun e c => e.resType.intValue c = e.resType.nearest e.value) es (opUnaryStruct es)
  double : w.opType.convertToCDouble w.op = w.value

/-- A negative value has a signed result; a value from `2^31` on has an unsigned one, and is not null as a
negative `r_Long`. -/
def CastElement.Fits (nullValues : NullValues) (e : CastElement) : Prop :=
  (e.value < 0 → e.resType.signed) ∧
    (2 ^ 31 ≤ e.value → e.resType.signed = false ∧ isNull nullValues (e.value - 2 ^ 32) = false)

/-! ## When it holds -/

namespace CastElement

variable {e : CastElement} {nullValues : NullValues}

/-- What a cast restricts to the range of the result. -/
theorem read_cast (hnull : isNull nullValues e.value = false) {x : BitVec 32}
    (hx : x = if isNull nullValues (e.opType.convert e.op).toInt then 0 else e.opType.convert e.op) :
    e.resType.read x =
      if e.value < 2 ^ 31 then
        if e.value < 0 ∧ e.resType.signed = false then e.value + 2 ^ 32 else e.value
      else if isNull nullValues (e.value - 2 ^ 32) then 0
      else if e.resType.signed then e.value - 2 ^ 32
      else e.value := by
  have hint : (e.opType.convert e.op).toInt = if e.value < 2 ^ 31 then e.value else e.value - 2 ^ 32 :=
    AtomicType.toInt_convert e.opType_integer e.length_op
  have hnat : ((e.opType.convert e.op).toNat : ℤ) = if e.value < 0 then e.value + 2 ^ 32 else e.value :=
    AtomicType.toNat_convert e.opType_integer e.length_op
  rw [hx, AtomicType.read]
  by_cases hsmall : e.value < 2 ^ 31
  · rw [if_pos hsmall] at hint
    rw [hint, hnull, if_neg Bool.false_ne_true, if_pos hsmall, hint, hnat]
    cases e.resType.signed <;> simp
  · rw [if_neg hsmall] at hint
    rw [hint, if_neg hsmall]
    cases isNull nullValues (e.value - 2 ^ 32) with
    | true => simp
    | false =>
      have hnat' : ((e.opType.convert e.op).toNat : ℤ) = e.value := by omega
      rw [if_neg Bool.false_ne_true, if_neg Bool.false_ne_true, hint, hnat']

/-- **A cast gives the nearest value exactly for what fits.** -/
theorem cast_iff (hnull : isNull nullValues e.value = false) :
    e.resType.intValue (opCast nullValues e.resType e.opType e.op) = e.resType.nearest e.value ↔
      e.Fits nullValues := by
  have hbounds : -2 ^ 31 ≤ e.value ∧ e.value < 2 ^ 32 :=
    AtomicType.intValue_bounds e.opType_integer e.length_op
  have hlow := e.resType.low_neg_iff
  have hhigh := AtomicType.high_pos e.resType_integer
  rw [opCast, AtomicType.intValue_make e.resType_integer, read_cast hnull rfl, AtomicType.nearest, Fits]
  by_cases hsmall : e.value < 2 ^ 31
  · rw [if_pos hsmall]
    by_cases hneg : e.value < 0 ∧ e.resType.signed = false
    · have hnot : ¬e.resType.signed = true := by simp [hneg.2]
      rw [if_pos hneg]
      exact iff_of_false (by omega) fun h => hnot (h.1 hneg.1)
    · rw [if_neg hneg]
      exact iff_of_true rfl ⟨fun h => by simpa [h] using hneg, fun h => absurd hsmall h.not_gt⟩
  · rw [if_neg hsmall]
    have hlarge := not_lt.mp hsmall
    cases hnull' : isNull nullValues (e.value - 2 ^ 32) with
    | true =>
      rw [if_pos rfl]
      exact iff_of_false (by omega) fun h => absurd (h.2 hlarge).2 (by decide)
    | false =>
      rw [if_neg Bool.false_ne_true]
      cases hsigned : e.resType.signed with
      | true =>
        rw [if_pos rfl]
        exact iff_of_false (by omega) fun h => absurd (h.2 hlarge).1 (by decide)
      | false =>
        rw [if_neg Bool.false_ne_true]
        exact iff_of_true rfl ⟨fun h => by omega, fun _ => ⟨rfl, rfl⟩⟩

/-- **A double is the value exactly below `2^31`.** -/
theorem double_iff (e : CastElement) :
    e.opType.convertToCDouble e.op = e.value ↔ e.value < 2 ^ 31 := by
  rw [AtomicType.convertToCDouble, AtomicType.toInt_convert e.opType_integer e.length_op, value]
  split_ifs <;> omega

end CastElement

/-- **Conversions saturate exactly when the operand and the elements fit, and the value taken to a double
is less than `2^31`.** -/
theorem conversions_saturate_iff {nullValues : NullValues} {e w : CastElement} {es : List CastElement}
    (hnull : isNull nullValues e.value = false) :
    ConversionsSaturate nullValues e es w ↔
      e.Fits nullValues ∧ (∀ e ∈ es, e.Fits none) ∧ w.value < 2 ^ 31 := by
  have hstruct : List.Forall₂ (fun e c => e.resType.intValue c = e.resType.nearest e.value) es
      (opUnaryStruct es) ↔ ∀ e ∈ es, e.Fits none := by
    rw [opUnaryStruct, List.forall₂_map_right_iff, List.forall₂_same]
    exact forall₂_congr fun e _ => CastElement.cast_iff rfl
  rw [← CastElement.cast_iff hnull, ← hstruct, ← w.double_iff]
  exact ⟨fun h => ⟨h.cast, h.struct, h.double⟩, fun h => ⟨h.1, h.2.1, h.2.2⟩⟩

/-- A Short to a Char, and elements of a struct. -/
theorem conversions_saturate_iff_short :
    ConversionsSaturate (some [.fixed 9 9]) ⟨.char, .short, [44, 1], rfl, rfl, rfl⟩
        [⟨.octet, .ushort, [200, 0], rfl, rfl, rfl⟩] ⟨.long, .long, [0, 0, 0, 128], rfl, rfl, rfl⟩ ↔
      CastElement.Fits (some [.fixed 9 9]) ⟨.char, .short, [44, 1], rfl, rfl, rfl⟩ ∧
        (∀ e ∈ [(⟨.octet, .ushort, [200, 0], rfl, rfl, rfl⟩ : CastElement)], e.Fits none) ∧
          CastElement.value ⟨.long, .long, [0, 0, 0, 128], rfl, rfl, rfl⟩ < 2 ^ 31 :=
  conversions_saturate_iff (by decide)

/-- The Octet -1 becomes the Char 255. -/
theorem cast_of_negative_octet :
    ¬ConversionsSaturate none ⟨.char, .octet, [255], rfl, rfl, rfl⟩ [] ⟨.char, .char, [0], rfl, rfl, rfl⟩ :=
  fun h => absurd h.cast (by decide)

end Rasdaman
