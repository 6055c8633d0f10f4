import Rasdaman.Catalogmgr.NullOps
import Rasdaman.Machinery.ExceptFold
import Mathlib

/-!
# Catalogmgr/CharOps — the optimised operators on Chars

Without `NO_OPT_OPS`, `getBinaryOp` chooses classes for Chars that work on bytes instead of an `r_ULong`.
`char_operators_agree_iff`: sums, differences and products do not fit in a byte where the plain classes
restrict them to 255, `OpDIVChar` takes its dividend from the second operand, and the start value of
`OpMIN_BINARYChar` is 0 instead of 255.  Everything else agrees.
-/

namespace Rasdaman

open Ops Bytes ExceptFold

/-! ## The operators -/

/-- What an operator on Chars finds: the memory from either operand on, and the offsets. -/
structure CharOperands where
  op1 : ℕ → UInt8
  op2 : ℕ → UInt8
  op1Off : ℕ
  op2Off : ℕ

namespace CharOperands

variable (o : CharOperands)

/-- The value of the first operand. -/
def first : UInt8 := o.op1 o.op1Off

/-- The value of the second operand. -/
def second : UInt8 := o.op2 o.op2Off

/-- What `OpDIVChar` divides: the byte at `op2 + op1Off`. -/
def dividend : UInt8 := o.op2 o.op1Off

end CharOperands

namespace Ops

/-- A choice of a class for an operation and three types. -/
abbrev Choice := OpType → (resType op1Type op2Type : BaseType) → Option OperatorClass

/-- The choice of `getBinaryOp` when compiled with `NO_OPT_OPS`. -/
def plainOperatorClass : Choice := fun op resType op1Type op2Type =>
  (if resType.is .bool && op1Type.is .bool && op2Type.is .bool then op.logical.map .bool else none) <|>
  (if resType.upTo .bool && op1Type.upTo .octet && op2Type.upTo .octet then
    op.integral.map .culong else none) <|>
  (if (resType.is .long || resType.is .short || resType.is .octet) && op1Type.upTo .octet &&
      op2Type.upTo .octet then op.integral.map .clong else none) <|>
  (if (resType.is .float || resType.is .double) && op1Type.upTo .float && op2Type.upTo .float then
    op.real.map .cdouble else none) <|>
  (if resType.is .complex1 || resType.is .complex2 then
    if op = .constructComplex then some .constructComplex else op.real.map .complex else none) <|>
  (if resType.is .bool && op1Type.upTo .bool && op2Type.upTo .bool then
    op.comparison.map .equalCULong else none) <|>
  (if resType.is .bool && op1Type.upTo .octet && op2Type.upTo .octet then
    if op = .bit then some .bit else op.comparison.map .equalCLong else none) <|>
  (if resType.is .bool && op1Type.upTo .float && op2Type.upTo .float then
    op.comparison.map .equalCDouble else none)

namespace OperatorClass

/-- Whether a class is one for Chars. -/
def optimised : OperatorClass → Bool
  | char _ | equalChar _ => true
  | _ => false

/-- `operator()` with two Chars: the result cell, or what is thrown. -/
def onChars (nullValues : NullValues) (resType : AtomicType) (o : CharOperands) :
    OperatorClass → Option (Except ℕ Cells)
  | char op =>
    (op.onCharCells (fun x => isNull nullValues x.toNat) o.dividend).map fun f =>
      (f o.first o.second).map fun v => [v]
  | equalChar op =>
    (op.holdsUnlessNull (isNull nullValues o.first.toNat) (isNull nullValues o.second.toNat)
      (o.first < o.second) (o.first == o.second)).map fun v => .ok [flag v]
  | culong op =>
    (op.onULong fun x => isNull nullValues x.toNat).map fun f =>
      (f (AtomicType.char.convert [o.first]) (AtomicType.char.convert [o.second])).map resType.make
  | equalCULong op =>
    let x := AtomicType.char.convert [o.first]
    let y := AtomicType.char.convert [o.second]
    (op.holdsUnlessNull (isNull nullValues x.toNat) (isNull nullValues y.toNat) (x.ult y) (x == y)).map
      fun v => .ok [flag v]
  | _ => none

end OperatorClass

variable (choice : Choice)

/-- An operator for Chars, as it is chosen, applied to two of them. -/
def applyToChars (nullValues : NullValues) (op : OpType) (resType : AtomicType) (o : CharOperands) :
    Except Interruption Cells :=
  match (choice op (.atomic resType) (.atomic .char) (.atomic .char)).bind
    fun cls => cls.onChars nullValues resType o with
  | some (.ok v) => .ok v
  | some (.error e) => .error (.thrown e)
  | none => .error .nullCall

/-- The loop of the comparisons in `OpBinaryStruct`. -/
def op1MinChars : List CharOperands → Except Interruption Bool
  | [] => .ok true
  | o :: es => do
    if (← applyToChars choice none .less .bool o) = [1] then op1MinChars es
    else if (← applyToChars choice none .equal .bool o) = [1] then op1MinChars es
    else return false

/-- The operator for structs of Chars, given what it finds for each element; the operators of the
elements have no null values.  The cells of the result come one after the other. -/
def applyToStructOfChars (op : OpType) (resType : AtomicType) (es : List CharOperands) :
    Except Interruption (List Cells) :=
  match op with
  | .maxBinary => do
    let op1Min ← op1MinChars choice es
    return es.map fun o => [if op1Min then o.op2 o.op1Off else o.op1 o.op1Off]
  | .minBinary => do
    let op1Min ← op1MinChars choice es
    return es.map fun o => [if op1Min then o.op1 o.op1Off else o.op2 o.op1Off]
  | .equal => do
    let vs ← es.mapM (applyToChars choice none .equal resType)
    return [[flag (vs.all (· = [1]))]]
  | .notequal => do
    let vs ← es.mapM (applyToChars choice none .notequal resType)
    return [[flag (vs.any (· = [1]))]]
  -- `getBinaryOp` has no operator for the other comparisons of structs
  | .less | .lessequal | .greater | .greaterequal => .error .nullCall
  | op => es.mapM (applyToChars choice none op resType)

end Ops

/-- **The optimised operators agree with the plain ones**: on two Chars, on structs of Chars, and in the
start value of a condenser. -/
structure CharOperatorsAgree (other : OtherOps) (nullValues : NullValues) (op : OpType)
    (resType : AtomicType) (o : CharOperands) (es : List CharOperands) : Prop where
  cell : applyToChars operatorClass nullValues op resType o =
    applyToChars plainOperatorClass nullValues op resType o
  struct : applyToStructOfChars operatorClass op resType es =
    applyToStructOfChars plainOperatorClass op resType es
  init : (operatorClass op (.atomic resType) (.atomic .char) (.atomic .char)).map
      (condenseInit other · (.atomic resType)) =
    (plainOperatorClass op (.atomic resType) (.atomic .char) (.atomic .char)).map
      (condenseInit other · (.atomic resType))

/-- When two Chars have a result that fits, and the dividend is right. -/
def CharFits (nullValues : NullValues) (op : OpType) (o : CharOperands) : Prop :=
  isNull nullValues o.first.toNat ∨ isNull nullValues o.second.toNat ∨
    match op with
    | .plus => o.first.toNat + o.second.toNat < 256
    | .minus => o.second.toNat ≤ o.first.toNat + 1
    | .mult => o.first.toNat * o.second.toNat < 256 ∨ o.first.toNat * o.second.toNat % 256 = 255
    | .div | .intdiv => o.second = 0 ∨ o.dividend / o.second = o.first / o.second
    | _ => True

/-- When a division of structs throws. -/
def DividesByZero (op : OpType) (es : List CharOperands) : Prop :=
  (op = .div ∨ op = .intdiv) ∧ ∃ o ∈ es, o.second = 0

/-! ## Chars as `r_ULong` -/

namespace AtomicType

variable {x y : UInt8}

theorem toNat_convert_char (x : UInt8) : (char.convert [x]).toNat = x.toNat := by
  have hx := x.toNat_lt
  have hconvert : char.convert [x] = BitVec.ofNat 32 (x.toNat + 256 * 0) := rfl
  rw [hconvert, Nat.mul_zero, Nat.add_zero, BitVec.toNat_ofNat]
  exact Nat.mod_eq_of_lt (by omega)

theorem ult_convert_char : (char.convert [x]).ult (char.convert [y]) = decide (x < y) := by
  rw [BitVec.ult, toNat_convert_char, toNat_convert_char]
  rfl

theorem beq_convert_char : (char.convert [x] == char.convert [y]) = (x == y) := by
  rw [Bool.eq_iff_iff, beq_iff_eq, beq_iff_eq, BitVec.toNat_eq, toNat_convert_char, toNat_convert_char,
    UInt8.toNat_inj]

theorem convert_char_eq_zero : char.convert [y] = 0 ↔ y = 0 := by
  rw [BitVec.toNat_eq, toNat_convert_char, ← UInt8.toNat_inj]
  rfl

/-- A byte is what `makeFromCULong` makes of a number, when it is that number restricted to 255. -/
theorem singleton_eq_make_char {z : BitVec 32} : [x] = char.make z ↔ x.toNat = min z.toNat 255 := by
  have hmake : char.make z = [UInt8.ofNat (min z.toNat 255 % 256)] := rfl
  rw [hmake, List.singleton_inj, ← UInt8.toNat_inj, UInt8.toNat_ofNat', Nat.mod_mod]
  omega

end AtomicType

/-! ## Single operators -/

section Single

variable {nullValues : NullValues} {x y : UInt8}

/-- Two operators that look for null values agree when one operand is null, or what they do else agrees. -/
theorem unlessNull_char_iff {f : UInt8 → UInt8 → Except ℕ UInt8}
    {g : BitVec 32 → BitVec 32 → Except ℕ (BitVec 32)} :
    (OpType.unlessNull (fun x => isNull nullValues x.toNat) f x y).map (fun v => [v]) =
        (OpType.unlessNull (fun x => isNull nullValues x.toNat) g (AtomicType.char.convert [x])
          (AtomicType.char.convert [y])).map AtomicType.char.make ↔
      isNull nullValues x.toNat ∨ isNull nullValues y.toNat ∨
        (f x y).map (fun v => [v]) =
          (g (AtomicType.char.convert [x]) (AtomicType.char.convert [y])).map AtomicType.char.make := by
  have hself : ∀ x : UInt8, [x] = AtomicType.char.make (AtomicType.char.convert [x]) := fun x =>
    AtomicType.singleton_eq_make_char.mpr (by
      have := x.toNat_lt
      rw [AtomicType.toNat_convert_char]
      omega)
  rw [OpType.unlessNull, OpType.unlessNull, AtomicType.toNat_convert_char, AtomicType.toNat_convert_char]
  by_cases hx : isNull nullValues x.toNat = true
  · simp [hx, Except.map, ← hself]
  by_cases hy : isNull nullValues y.toNat = true
  · simp [hx, hy, Except.map, ← hself]
  · simp [hx, hy]

/-- The results of two operators that do not throw. -/
theorem ok_char_iff {z : BitVec 32} :
    Except.map (fun v => [v]) (.ok x : Except ℕ UInt8) = Except.map AtomicType.char.make (.ok z) ↔
      x.toNat = min z.toNat 255 := by
  rw [← AtomicType.singleton_eq_make_char, Except.map, Except.map, Except.ok.injEq]

/-- The results of two divisions, or of the rests. -/
theorem unlessZero_char_iff {f : UInt8 → UInt8 → UInt8} {g : BitVec 32 → BitVec 32 → BitVec 32}
    {dividend : UInt8} :
    Except.map (fun v => [v]) (OpType.unlessZero f dividend y) =
        Except.map AtomicType.char.make
          (OpType.unlessZero g (AtomicType.char.convert [x]) (AtomicType.char.convert [y])) ↔
      y = 0 ∨ (f dividend y).toNat =
        min (g (AtomicType.char.convert [x]) (AtomicType.char.convert [y])).toNat 255 := by
  rw [OpType.unlessZero, OpType.unlessZero]
  by_cases hy : y = 0
  · rw [if_pos hy, if_pos (AtomicType.convert_char_eq_zero.mpr hy)]
    exact iff_of_true rfl (.inl hy)
  · rw [if_neg hy, if_neg (AtomicType.convert_char_eq_zero.not.mpr hy), ok_char_iff]
    exact (or_iff_right hy).symm

theorem onChars_char_iff {op c : OpType} {o : CharOperands} (h : op.ofChar = some c) :
    (OperatorClass.char c).onChars nullValues .char o =
        (OperatorClass.culong c).onChars nullValues .char o ↔ CharFits nullValues op o := by
  have hx := o.first.toNat_lt
  have hy := o.second.toNat_lt
  cases op <;> try cases h
  case plus =>
    refine Option.some_inj.trans (unlessNull_char_iff.trans (or_congr_right (or_congr_right ?_)))
    rw [ok_char_iff, UInt8.toNat_add, BitVec.toNat_add, AtomicType.toNat_convert_char,
      AtomicType.toNat_convert_char]
    omega
  case minus =>
    refine Option.some_inj.trans (unlessNull_char_iff.trans (or_congr_right (or_congr_right ?_)))
    rw [ok_char_iff, UInt8.toNat_sub, BitVec.toNat_sub, AtomicType.toNat_convert_char,
      AtomicType.toNat_convert_char]
    omega
  case mult =>
    refine Option.some_inj.trans (unlessNull_char_iff.trans (or_congr_right (or_congr_right ?_)))
    rw [ok_char_iff, UInt8.toNat_mul, BitVec.toNat_mul, AtomicType.toNat_convert_char,
      AtomicType.toNat_convert_char]
    have hmul : o.first.toNat * o.second.toNat < 2 ^ 32 :=
      (Nat.mul_le_mul hx.le hy.le).trans_lt (by decide)
    omega
  case div | intdiv =>
    refine Option.some_inj.trans (unlessNull_char_iff.trans (or_congr_right (or_congr_right ?_)))
    rw [unlessZero_char_iff, ← UInt8.toNat_inj (a := _ / _), UInt8.toNat_div, UInt8.toNat_div,
      BitVec.toNat_udiv, AtomicType.toNat_convert_char, AtomicType.toNat_convert_char,
      Nat.min_eq_left ((Nat.div_le_self _ _).trans (Nat.le_of_lt_succ hx))]
  case mod =>
    refine Option.some_inj.trans (unlessNull_char_iff.trans (or_congr_right (or_congr_right ?_)))
    refine iff_of_true (unlessZero_char_iff.mpr (.inr ?_)) trivial
    rw [UInt8.toNat_mod, BitVec.toNat_umod, AtomicType.toNat_convert_char,
      AtomicType.toNat_convert_char, Nat.min_eq_left ((Nat.mod_le _ _).trans (Nat.le_of_lt_succ hx))]
  case maxBinary =>
    refine iff_of_true (congrArg some (ok_char_iff.mpr ?_)) (.inr (.inr trivial))
    rw [OpType.larger, OpType.larger, AtomicType.ult_convert_char]
    split_ifs
    · rw [AtomicType.toNat_convert_char, Nat.min_eq_left (Nat.le_of_lt_succ hx)]
    · rw [AtomicType.toNat_convert_char, Nat.min_eq_left (Nat.le_of_lt_succ hy)]
  case minBinary =>
    refine iff_of_true (congrArg some (ok_char_iff.mpr ?_)) (.inr (.inr trivial))
    rw [OpType.smaller, OpType.smaller, AtomicType.ult_convert_char]
    split_ifs
    · rw [AtomicType.toNat_convert_char, Nat.min_eq_left (Nat.le_of_lt_succ hx)]
    · rw [AtomicType.toNat_convert_char, Nat.min_eq_left (Nat.le_of_lt_succ hy)]

theorem onChars_equalChar (op : OpType) (resType : AtomicType) (o : CharOperands) :
    (OperatorClass.equalChar op).onChars nullValues resType o =
      (OperatorClass.equalCULong op).onChars nullValues resType o := by
  rw [OperatorClass.onChars, OperatorClass.onChars]
  simp only [AtomicType.toNat_convert_char, AtomicType.ult_convert_char, AtomicType.beq_convert_char]

end Single

/-! ## The choice of the classes -/

section Chosen

variable {op : OpType} {r : AtomicType} {nullValues : NullValues} {o : CharOperands}

/-- Where `getBinaryOp` chooses an optimised class, it would choose the plain class of the same name. -/
theorem optimised_cases
    (h : (operatorClass op (.atomic r) (.atomic .char) (.atomic .char)).any OperatorClass.optimised = true) :
    (r = .char ∧ ∃ c, op.ofChar = some c ∧
      operatorClass op (.atomic r) (.atomic .char) (.atomic .char) = some (.char c) ∧
      plainOperatorClass op (.atomic r) (.atomic .char) (.atomic .char) = some (.culong c)) ∨
    (r = .bool ∧ op.comparison = some op ∧
      operatorClass op (.atomic r) (.atomic .char) (.atomic .char) = some (.equalChar op) ∧
      plainOperatorClass op (.atomic r) (.atomic .char) (.atomic .char) = some (.equalCULong op)) := by
  cases r <;> cases op <;> first
    | exact .inl ⟨rfl, _, rfl, rfl, rfl⟩
    | exact .inr ⟨rfl, rfl, rfl, rfl⟩
    | exact absurd h (by decide)

/-- Operators of two choices agree when the classes do. -/
theorem applyToChars_eq_iff {choice choice' : Choice} {cls cls' : OperatorClass}
    (h : choice op (.atomic r) (.atomic .char) (.atomic .char) = some cls)
    (h' : choice' op (.atomic r) (.atomic .char) (.atomic .char) = some cls') :
    applyToChars choice nullValues op r o = applyToChars choice' nullValues op r o ↔
      cls.onChars nullValues r o = cls'.onChars nullValues r o := by
  rw [applyToChars, applyToChars, h, h', Option.bind_some, Option.bind_some]
  rcases cls.onChars nullValues r o with _ | (_ | _) <;>
    rcases cls'.onChars nullValues r o with _ | (_ | _) <;> simp

/-- The comparisons of Chars agree. -/
theorem applyToChars_comparison (h : op.comparison = some op) :
    applyToChars operatorClass nullValues op .bool o =
      applyToChars plainOperatorClass nullValues op .bool o := by
  cases op <;> try cases h
  all_goals exact (applyToChars_eq_iff rfl rfl).mpr (onChars_equalChar _ _ _)

theorem op1MinChars_eq (es : List CharOperands) :
    op1MinChars operatorClass es = op1MinChars plainOperatorClass es := by
  induction es with
  | nil => rfl
  | cons o es ih =>
    rw [op1MinChars, op1MinChars, applyToChars_comparison rfl, applyToChars_comparison rfl, ih]

/-- An optimised operator agrees with the plain one on two Chars that fit. -/
theorem applyToChars_iff {c : OpType} (h : op.ofChar = some c) :
    applyToChars operatorClass nullValues op .char o =
        applyToChars plainOperatorClass nullValues op .char o ↔ CharFits nullValues op o := by
  cases op <;> try cases h
  all_goals exact (applyToChars_eq_iff rfl rfl).trans (onChars_char_iff rfl)

/-- A division throws where the divisor is zero. -/
theorem onChars_div_none : (OperatorClass.char .div).onChars none .char o =
      some (if o.second = 0 then .error OpType.divisionByZero else .ok [o.dividend / o.second]) ∧
    (OperatorClass.culong .div).onChars none .char o =
      some (if o.second = 0 then .error OpType.divisionByZero
        else .ok (AtomicType.char.make
          (AtomicType.char.convert [o.first] / AtomicType.char.convert [o.second]))) := by
  have hfast : (OperatorClass.char .div).onChars none .char o =
      some ((OpType.unlessZero (· / ·) o.dividend o.second).map fun v => [v]) := rfl
  have hplain : (OperatorClass.culong .div).onChars none .char o =
      some ((OpType.unlessZero (· / ·) (AtomicType.char.convert [o.first])
        (AtomicType.char.convert [o.second])).map AtomicType.char.make) := rfl
  rw [hfast, hplain, OpType.unlessZero, OpType.unlessZero]
  by_cases hzero : o.second = 0
  · rw [if_pos hzero, if_pos hzero, if_pos hzero, if_pos (AtomicType.convert_char_eq_zero.mpr hzero)]
    exact ⟨rfl, rfl⟩
  · rw [if_neg hzero, if_neg hzero, if_neg hzero, if_neg (AtomicType.convert_char_eq_zero.not.mpr hzero)]
    exact ⟨rfl, rfl⟩

end Chosen

/-! ## The agreement -/

section Agreement

variable {other : OtherOps} {nullValues : NullValues} {op : OpType} {r : AtomicType} {o : CharOperands}
  {es : List CharOperands}

/-- Sums, differences and products of elements agree when they fit. -/
theorem mapM_agree_iff {f g : CharOperands → Cells} (hop : op = .plus ∨ op = .minus ∨ op = .mult)
    (hf : ∀ o, applyToChars operatorClass none op .char o = .ok (f o))
    (hg : ∀ o, applyToChars plainOperatorClass none op .char o = .ok (g o)) :
    es.mapM (applyToChars operatorClass none op .char) =
        es.mapM (applyToChars plainOperatorClass none op .char) ↔ ∀ e ∈ es, CharFits none op e := by
  have hraises : ∀ (choice : Choice) (o : CharOperands), False →
      applyToChars choice none op .char o = .error .nullCall := fun _ _ h => h.elim
  refine (mapM_eq_mapM_iff (hraises _) (hraises _) (fun o _ => hf o) fun o _ => hg o).trans ?_
  rw [or_iff_right (by simp)]
  refine forall₂_congr fun e _ => ?_
  rcases hop with rfl | rfl | rfl <;> exact applyToChars_iff rfl

/-- Divisions of elements agree when one throws, or they fit. -/
theorem mapM_div_agree_iff (hop : op = .div ∨ op = .intdiv) :
    es.mapM (applyToChars operatorClass none op .char) =
        es.mapM (applyToChars plainOperatorClass none op .char) ↔
      (∃ e ∈ es, e.second = 0) ∨ ∀ e ∈ es, CharFits none op e := by
  have hclass : operatorClass op (.atomic .char) (.atomic .char) (.atomic .char) = some (.char .div) ∧
      plainOperatorClass op (.atomic .char) (.atomic .char) (.atomic .char) = some (.culong .div) := by
    rcases hop with rfl | rfl <;> exact ⟨rfl, rfl⟩
  have hfits : (∀ e ∈ es, applyToChars operatorClass none op .char e =
      applyToChars plainOperatorClass none op .char e) ↔ ∀ e ∈ es, CharFits none op e := by
    rcases hop with rfl | rfl <;> exact forall₂_congr fun e _ => applyToChars_iff rfl
  rw [← hfits]
  have hfast : ∀ o : CharOperands, applyToChars operatorClass none op .char o =
      if o.second = 0 then .error (.thrown OpType.divisionByZero) else .ok [o.dividend / o.second] := by
    intro o
    rw [applyToChars, hclass.1, Option.bind_some, onChars_div_none.1]
    split_ifs <;> rfl
  have hplain : ∀ o : CharOperands, applyToChars plainOperatorClass none op .char o =
      if o.second = 0 then .error (.thrown OpType.divisionByZero)
      else .ok (AtomicType.char.make
        (AtomicType.char.convert [o.first] / AtomicType.char.convert [o.second])) := by
    intro o
    rw [applyToChars, hclass.2, Option.bind_some, onChars_div_none.2]
    split_ifs <;> rfl
  exact mapM_eq_mapM_iff (fun o h => (hfast o).trans (if_pos h)) (fun o h => (hplain o).trans (if_pos h))
    (fun o h => (hfast o).trans (if_neg h)) fun o h => (hplain o).trans (if_neg h)

/-- Operators on structs of Chars agree when a division throws, or the elements fit. -/
theorem struct_agree_iff {c : OpType} (h : op.ofChar = some c) :
    applyToStructOfChars operatorClass op .char es = applyToStructOfChars plainOperatorClass op .char es ↔
      DividesByZero op es ∨ ∀ e ∈ es, CharFits none op e := by
  cases op <;> try cases h
  case plus =>
    exact (mapM_agree_iff (.inl rfl) (fun _ => rfl) fun _ => rfl).trans
      (or_iff_right fun h => by simp [DividesByZero] at h).symm
  case minus =>
    exact (mapM_agree_iff (.inr (.inl rfl)) (fun _ => rfl) fun _ => rfl).trans
      (or_iff_right fun h => by simp [DividesByZero] at h).symm
  case mult =>
    exact (mapM_agree_iff (.inr (.inr rfl)) (fun _ => rfl) fun _ => rfl).trans
      (or_iff_right fun h => by simp [DividesByZero] at h).symm
  case div =>
    exact (mapM_div_agree_iff (.inl rfl)).trans (or_congr_left (and_iff_right (.inl rfl)).symm)
  case intdiv =>
    exact (mapM_div_agree_iff (.inr rfl)).trans (or_congr_left (and_iff_right (.inr rfl)).symm)
  case mod =>
    refine iff_of_true (mapM_congr fun e _ => (applyToChars_iff rfl).mpr ?_) (.inr fun e _ => ?_) <;>
      exact .inr (.inr trivial)
  case maxBinary =>
    refine iff_of_true ?_ (.inr fun e _ => .inr (.inr trivial))
    rw [applyToStructOfChars, applyToStructOfChars, op1MinChars_eq]
  case minBinary =>
    refine iff_of_true ?_ (.inr fun e _ => .inr (.inr trivial))
    rw [applyToStructOfChars, applyToStructOfChars, op1MinChars_eq]

/-- The comparisons of structs of Chars agree. -/
theorem struct_agree_comparison (h : op.comparison = some op) :
    applyToStructOfChars operatorClass op .bool es = applyToStructOfChars plainOperatorClass op .bool es := by
  cases op <;> try cases h
  case equal | notequal =>
    rw [applyToStructOfChars, applyToStructOfChars, mapM_congr fun o _ => applyToChars_comparison rfl]
  all_goals rfl

/-- The start values agree, except for the minimum. -/
theorem init_agree_iff
    (h : (operatorClass op (.atomic r) (.atomic .char) (.atomic .char)).any OperatorClass.optimised = true) :
    (operatorClass op (.atomic r) (.atomic .char) (.atomic .char)).map (condenseInit other · (.atomic r)) =
        (plainOperatorClass op (.atomic r) (.atomic .char) (.atomic .char)).map
          (condenseInit other · (.atomic r)) ↔ op ≠ .minBinary := by
  rcases optimised_cases h with ⟨rfl, c, hc, hfast, hplain⟩ | ⟨rfl, hcomp, hfast, hplain⟩
  · rw [hfast, hplain]
    cases op <;> try cases hc
    all_goals first
      | exact iff_of_true rfl (by decide)
      | exact iff_of_false (fun h => by cases Option.some.inj (Option.some.inj h)) (by decide)
  · rw [hfast, hplain]
    cases op <;> try cases hcomp
    all_goals exact iff_of_true rfl (by decide)

/-- **The optimised operators agree with the plain ones exactly when the operator is not the minimum, the
two Chars fit, and in the structs a division throws or all elements fit.** -/
theorem char_operators_agree_iff
    (h : (operatorClass op (.atomic r) (.atomic .char) (.atomic .char)).any OperatorClass.optimised = true) :
    CharOperatorsAgree other nullValues op r o es ↔
      op ≠ .minBinary ∧ CharFits nullValues op o ∧
        (DividesByZero op es ∨ ∀ e ∈ es, CharFits none op e) := by
  have hparts : CharOperatorsAgree other nullValues op r o es ↔
      _ ∧ _ ∧ _ := ⟨fun h => ⟨h.init, h.cell, h.struct⟩, fun h => ⟨h.2.1, h.2.2, h.1⟩⟩
  rw [hparts]
  refine and_congr (init_agree_iff h) ?_
  rcases optimised_cases h with ⟨rfl, c, hc, -, -⟩ | ⟨rfl, hcomp, -, -⟩
  · exact and_congr (applyToChars_iff hc) (struct_agree_iff hc)
  · refine iff_of_true ⟨applyToChars_comparison hcomp, struct_agree_comparison hcomp⟩ ?_
    cases op <;> try cases hcomp
    all_goals exact ⟨.inr (.inr trivial), .inr fun _ _ => .inr (.inr trivial)⟩

/-- The maximum agrees, whatever the null values are. -/
theorem char_operators_agree_iff_max :
    CharOperatorsAgree ⟨fun _ _ => none⟩ (some [.fixed 3 7]) .maxBinary .char ⟨fun _ => 5, fun _ => 200, 0, 0⟩
        [⟨fun _ => 1, fun _ => 2, 0, 0⟩] ↔
      OpType.maxBinary ≠ .minBinary ∧
        CharFits (some [.fixed 3 7]) .maxBinary ⟨fun _ => 5, fun _ => 200, 0, 0⟩ ∧
          (DividesByZero .maxBinary [⟨fun _ => 1, fun _ => 2, 0, 0⟩] ∨
            ∀ e ∈ [(⟨fun _ => 1, fun _ => 2, 0, 0⟩ : CharOperands)], CharFits none .maxBinary e) :=
  char_operators_agree_iff rfl

/-- 200 and 100 are 44 in the optimised class and 255 in the plain one. -/
theorem char_sum_disagrees : ¬∀ (other : OtherOps),
    CharOperatorsAgree other none .plus .char ⟨fun _ => 200, fun _ => 100, 0, 0⟩ [] := by
  intro hagree
  have hcell := (hagree ⟨fun _ _ => none⟩).cell
  rw [applyToChars_iff rfl] at hcell
  revert hcell
  unfold CharFits
  decide

end Agreement

end Rasdaman
