import Rasdaman.Catalogmgr.BinaryOp
import Rasdaman.Machinery.Machine
import Mathlib

/-!
# Catalogmgr/OperatorObjects — when operator objects do not interfere

An object for structs does what its operation says only while `_operation` tells it to, and it calls a
null pointer where `isApplicable` has found an operator with another result type than the element has.
-/

namespace Rasdaman

open Ops Bytes RowMajor Machine

/-! ## Construction -/

namespace Ops

section Makes

variable {α β : Type} {P : α → Prop} {Q : β → Prop}

/-- A construction makes something with a property, whatever `_operation` is before. -/
def Makes (P : α → Prop) (x : Building α) : Prop := ∀ operation, P (x operation).1

theorem Makes.pure {a : α} (h : P a) : Makes P (pure a : Building α) := fun _ => h

theorem Makes.bind {x : Building α} {f : α → Building β} (hx : Makes P x) (hf : ∀ a, P a → Makes Q (f a)) :
    Makes Q (x >>= f) := fun operation => hf _ (hx operation) _

/-- What a construction makes is known. -/
theorem Makes.bind_eq {x : Building α} {f : α → Building β} {a : α} (hx : Makes (· = a) x)
    (hf : Makes Q (f a)) : Makes Q (x >>= f) := hx.bind fun _ h => h ▸ hf

/-- What a construction makes does not matter. -/
theorem Makes.bind_any {x : Building α} {f : α → Building β} (hf : ∀ a, Makes Q (f a)) :
    Makes Q (x >>= f) := fun _ => hf _ _

theorem Makes.mono {P' : α → Prop} {x : Building α} (h : Makes P x) (hP : ∀ a, P a → P' a) : Makes P' x :=
  fun operation => hP _ (h operation)

end Makes

section Equations

variable {op : OpType} {r a b : BaseType} {rs es fs : Elements} {resOff op1Off op2Off : ℕ}

theorem OpType.ne_equal_of_onStruct (hon : op.onStruct) : ¬ (op = .equal ∨ op = .notequal) := by
  rintro (rfl | rfl) <;> cases hon

theorem OpType.eq_of_selects (hsel : op.selects) : op = .maxBinary ∨ op = .minBinary := by
  cases op <;> first | exact .inl rfl | exact .inr rfl | cases hsel

/-- Whether there is an operator for a result that is not a struct. -/
def hasOp (op : OpType) (r a b : BaseType) : Bool :=
  decide (op = .overlay ∧ r.typeEnum = a.typeEnum ∧ r.typeEnum = b.typeEnum) ||
    (operatorClass op r a b).isSome

/-- The object for a result that is not a struct. -/
def atomicOp (op : OpType) (r a b : BaseType) (resOff op1Off op2Off : ℕ) : BinaryOp :=
  if op = .overlay ∧ r.typeEnum = a.typeEnum ∧ r.typeEnum = b.typeEnum then
    .overlay r.getSize resOff op1Off op2Off
  else
    match operatorClass op r a b with
    | some cls => .atomic cls r a b resOff op1Off op2Off
    | none => .null

theorem atomicOp_cases (op : OpType) (r a b : BaseType) (resOff op1Off op2Off : ℕ) :
    (∃ length, atomicOp op r a b resOff op1Off op2Off = .overlay length resOff op1Off op2Off) ∧
        hasOp op r a b = true ∨
      (∃ cls, atomicOp op r a b resOff op1Off op2Off = .atomic cls r a b resOff op1Off op2Off) ∧
        hasOp op r a b = true ∨
      atomicOp op r a b resOff op1Off op2Off = .null ∧ hasOp op r a b = false := by
  rw [atomicOp, hasOp]
  split
  · next h => exact .inl ⟨⟨_, rfl⟩, by rw [decide_eq_true h, Bool.true_or]⟩
  · next h =>
    cases hcls : operatorClass op r a b with
    | some cls => exact .inr (.inl ⟨⟨cls, rfl⟩, by simp⟩)
    | none => exact .inr (.inr ⟨rfl, by simp [h]⟩)

theorem getBinaryOp_atomic (c : AtomicType)
    (h : ¬ (op = .equal ∨ op = .notequal) ∨ ∀ es, a ≠ .struct es) :
    getBinaryOp op (.atomic c) a b resOff op1Off op2Off =
      pure (atomicOp op (.atomic c) a b resOff op1Off op2Off) := by
  rw [getBinaryOp.eq_def, atomicOp]
  split
  · have hsize : (BaseType.atomic c).getSize ≤ 16 := by cases c <;> decide
    rw [if_pos hsize]
  · cases hcls : operatorClass op (.atomic c) a b with
    | some cls => rfl
    | none =>
      cases a with
      | atomic a => cases c <;> rfl
      | struct es =>
        have hne := h.resolve_right fun h => h es rfl
        cases c <;> cases b <;> cases op <;> first | rfl | exact absurd (.inl rfl) hne | exact absurd (.inr rfl) hne

theorem operatorClass_struct : operatorClass op (.struct rs) a b = none := rfl

/-- What is made when the operation applies to the structs or does not. -/
theorem getBinaryOp_structs (hop : op ≠ .overlay) :
    getBinaryOp op (.struct rs) (.struct es) (.struct fs) resOff op1Off op2Off =
      (if op.onStruct then isApplicableOnStruct op es else pure false) >>= fun applicable =>
        if applicable && rs.compatibleWith es && rs.compatibleWith fs then do
          set (some op)
          if op.selects then
            return .binaryStruct resOff op2Off rs.nullOps
              (← compareOps rs rs.structType.offsets op1Off op2Off)
              (rs.assignmentOps rs.structType.offsets resOff op1Off)
          else
            return .binaryStruct resOff op2Off
              (← elemOps op rs rs.structType.offsets resOff op1Off op2Off) rs.nullCompareOps
              rs.nullAssignmentOps
        else
          return .null := by
  rw [getBinaryOp.eq_def, if_neg fun hover => hop hover.1]
  dsimp only [operatorClass_struct]
  cases op.onStruct <;> rfl

theorem getBinaryOp_structConst {c : AtomicType} :
    getBinaryOp op (.struct rs) (.struct es) (.atomic c) resOff op1Off op2Off = do
      let applicable ← if op.onStruct then isApplicableOnStructConst op es c else pure false
      if applicable then
        return .binaryStructConst (← structConstElemOps op rs es c rs.structType.offsets
          es.structType.offsets resOff op1Off op2Off)
      else
        return .null := by
  rw [getBinaryOp.eq_def, if_neg (by rintro ⟨-, -, h⟩; cases c <;> cases h)]
  rfl

theorem getBinaryOp_constStruct {c : AtomicType} :
    getBinaryOp op (.struct rs) (.atomic c) (.struct fs) resOff op1Off op2Off = do
      let applicable ← if op.onStruct then isApplicableOnStructConst op fs c else pure false
      if applicable then
        return .binaryConstStruct (← constStructElemOps op rs c fs rs.structType.offsets
          fs.structType.offsets resOff op1Off op2Off)
      else
        return .null := by
  rw [getBinaryOp.eq_def, if_neg (by rintro ⟨-, h, -⟩; cases c <;> cases h)]
  rfl

theorem getBinaryOp_equalStruct (hop : op = .equal ∨ op = .notequal) (h : es.compatibleWith fs) :
    getBinaryOp op (.atomic .bool) (.struct es) (.struct fs) resOff op1Off op2Off = do
      let elemOps ← compareElemOps op es fs es.structType.offsets fs.structType.offsets resOff op1Off op2Off
      return if op = .equal then .equalStruct elemOps else .notequalStruct elemOps := by
  rcases hop with rfl | rfl
  all_goals
    rw [getBinaryOp.eq_def, if_neg (by rintro ⟨h, -⟩; cases h)]
    simp [operatorClass, h]
    rfl

end Equations

section Steady

variable {α β : Type}

/-- What a construction makes does not depend on what `_operation` is before. -/
def Steady (x : Building α) : Prop := ∃ a, Makes (· = a) x

theorem Steady.pure (a : α) : Steady (pure a : Building α) := ⟨a, Makes.pure rfl⟩

theorem Steady.bind {x : Building α} {f : α → Building β} (hx : Steady x) (hf : ∀ a, Steady (f a)) :
    Steady (x >>= f) := by
  obtain ⟨a, ha⟩ := hx
  obtain ⟨b, hb⟩ := hf a
  exact ⟨b, Makes.bind_eq ha hb⟩

theorem Steady.ite {p : Prop} [Decidable p] {x y : Building α} (hx : Steady x) (hy : Steady y) :
    Steady (if p then x else y) := by
  split
  · exact hx
  · exact hy

/-- A test of one of two kinds, and what follows on it. -/
theorem Steady.ite_bind {p : Prop} [Decidable p] {x : Building α} {a : α} {f : α → Building β}
    (hx : Steady x) (hf : ∀ a, Steady (f a)) :
    Steady (if p then x >>= f else Pure.pure a >>= f) := (hx.bind hf).ite ((Steady.pure a).bind hf)

theorem Steady.set (operation : Operation) : Steady (MonadStateOf.set operation : Building Unit) :=
  ⟨(), fun _ => rfl⟩

mutual

/-- **The object that `getBinaryOp` makes** does not depend on `_operation`. -/
theorem steady_getBinaryOp (op : OpType) (resType op1Type op2Type : BaseType)
    (resOff op1Off op2Off : ℕ) :
    Steady (getBinaryOp op resType op1Type op2Type resOff op1Off op2Off) := by
  match resType, op1Type, op2Type with
  | .atomic c, .atomic a, b =>
    rw [getBinaryOp_atomic c (.inr fun es h => by cases h)]
    exact .pure _
  | .atomic c, .struct es, .atomic b =>
    rw [getBinaryOp.eq_def]
    refine .ite (.pure _) ?_
    cases operatorClass op (.atomic c) (.struct es) (.atomic b) <;> cases c <;> exact .pure _
  | .atomic c, .struct es, .struct fs =>
    rw [getBinaryOp.eq_def]
    refine .ite (.pure _) ?_
    cases operatorClass op (.atomic c) (.struct es) (.struct fs) with
    | some cls => exact .pure _
    | none =>
      cases c with
      | bool =>
        refine .ite ?_ (.ite ?_ (.pure _))
        · exact (steady_compareElemOps .equal es fs _ _ resOff op1Off op2Off).bind fun _ => .pure _
        · exact (steady_compareElemOps .notequal es fs _ _ resOff op1Off op2Off).bind fun _ => .pure _
      | _ => exact .pure _
  | .struct rs, .atomic a, .atomic b =>
    rw [getBinaryOp.eq_def]
    exact .ite (.pure _) (.pure _)
  | .struct rs, .struct es, .struct fs =>
    rw [getBinaryOp.eq_def]
    refine .ite (.pure _) (.ite_bind (steady_isApplicableOnStruct op es) fun _ => .ite ?_ (.pure _))
    refine (Steady.set _).bind fun _ => .ite ?_ ?_
    · exact (steady_compareOps rs _ op1Off op2Off).bind fun _ => .pure _
    · exact (steady_elemOps op rs _ resOff op1Off op2Off).bind fun _ => .pure _
  | .struct rs, .struct es, .atomic b =>
    rw [getBinaryOp.eq_def]
    refine .ite (.pure _) (.ite_bind (steady_isApplicableOnStructConst op es b)
      fun _ => .ite ?_ (.pure _))
    exact (steady_structConstElemOps op rs es b _ _ resOff op1Off op2Off).bind fun _ => .pure _
  | .struct rs, .atomic a, .struct fs =>
    rw [getBinaryOp.eq_def]
    refine .ite (.pure _) (.ite_bind (steady_isApplicableOnStructConst op fs a)
      fun _ => .ite ?_ (.pure _))
    exact (steady_constStructElemOps op rs a fs _ _ resOff op1Off op2Off).bind fun _ => .pure _
termination_by (max resType.weight (max op1Type.weight op2Type.weight), 1)
decreasing_by all_goals (simp only [Prod.lex_def, BaseType.weight]; omega)

theorem steady_isApplicable (op : OpType) (op1Type op2Type : BaseType) :
    Steady (isApplicable op op1Type op2Type) := by
  rw [isApplicable.eq_def]
  exact (steady_getBinaryOp op (applicableType op op1Type op2Type) op1Type op2Type 0 0 0).bind
    fun _ => .pure _
termination_by (max op1Type.weight op2Type.weight, 2)
decreasing_by
  have := weight_applicableType op op1Type op2Type
  simp only [Prod.lex_def]
  omega

theorem steady_isApplicableOnStruct (op : OpType) (es : Elements) :
    Steady (isApplicableOnStruct op es) := by
  rw [isApplicableOnStruct.eq_def]
  match es with
  | .last _ t => exact steady_isApplicable op t t
  | .cons _ t rest =>
    exact (steady_isApplicable op t t).bind fun _ => .ite (steady_isApplicableOnStruct op rest) (.pure _)
termination_by (es.weight, 3)
decreasing_by all_goals (simp only [Prod.lex_def, Elements.weight]; omega)

theorem steady_isApplicableOnStructConst (op : OpType) (es : Elements) (b : AtomicType) :
    Steady (isApplicableOnStructConst op es b) := by
  rw [isApplicableOnStructConst.eq_def]
  match es with
  | .last _ t => exact steady_isApplicable op t (.atomic b)
  | .cons _ t rest =>
    exact (steady_isApplicable op t (.atomic b)).bind
      fun _ => .ite (steady_isApplicableOnStructConst op rest b) (.pure _)
termination_by (es.weight, 3)
decreasing_by all_goals (simp only [Prod.lex_def, BaseType.weight, Elements.weight]; omega)

theorem steady_elemOps (op : OpType) (es : Elements) (offsets : List ℕ) (resOff op1Off op2Off : ℕ) :
    Steady (elemOps op es offsets resOff op1Off op2Off) := by
  rw [elemOps.eq_def]
  match es with
  | .last _ t => exact (steady_getBinaryOp op t t t _ _ _).bind fun _ => .pure _
  | .cons _ t rest =>
    exact (steady_getBinaryOp op t t t _ _ _).bind fun _ =>
      (steady_elemOps op rest _ resOff op1Off op2Off).bind fun _ => .pure _
termination_by (es.weight, 3)
decreasing_by all_goals (simp only [Prod.lex_def, Elements.weight]; omega)

theorem steady_compareOps (es : Elements) (offsets : List ℕ) (op1Off op2Off : ℕ) :
    Steady (compareOps es offsets op1Off op2Off) := by
  rw [compareOps.eq_def]
  match es with
  | .last _ t =>
    exact (steady_getBinaryOp .less (.atomic .bool) t t _ _ _).bind fun _ =>
      (steady_getBinaryOp .equal (.atomic .bool) t t _ _ _).bind fun _ => .pure _
  | .cons _ t rest =>
    exact (steady_getBinaryOp .less (.atomic .bool) t t _ _ _).bind fun _ =>
      (steady_getBinaryOp .equal (.atomic .bool) t t _ _ _).bind fun _ =>
        (steady_compareOps rest _ op1Off op2Off).bind fun _ => .pure _
termination_by (es.weight, 3)
decreasing_by all_goals (simp only [Prod.lex_def, BaseType.weight, Elements.weight]; omega)

theorem steady_structConstElemOps (op : OpType) (rs es : Elements) (b : AtomicType)
    (resOffsets offsets : List ℕ) (resOff op1Off op2Off : ℕ) :
    Steady (structConstElemOps op rs es b resOffsets offsets resOff op1Off op2Off) := by
  rw [structConstElemOps.eq_def]
  match rs, es with
  | .cons _ r rs, .cons _ t es =>
    exact (steady_getBinaryOp op r t (.atomic b) _ _ _).bind fun _ =>
      (steady_structConstElemOps op rs es b _ _ resOff op1Off op2Off).bind fun _ => .pure _
  | .cons _ r _, .last _ t | .last _ r, .last _ t =>
    exact (steady_getBinaryOp op r t (.atomic b) _ _ _).bind fun _ => .pure _
  | .last _ _, .cons _ _ _ => exact .pure _
termination_by (max rs.weight es.weight, 3)
decreasing_by all_goals (simp only [Prod.lex_def, BaseType.weight, Elements.weight]; omega)

theorem steady_constStructElemOps (op : OpType) (rs : Elements) (a : AtomicType) (fs : Elements)
    (resOffsets offsets : List ℕ) (resOff op1Off op2Off : ℕ) :
    Steady (constStructElemOps op rs a fs resOffsets offsets resOff op1Off op2Off) := by
  rw [constStructElemOps.eq_def]
  match rs, fs with
  | .cons _ r rs, .cons _ t fs =>
    exact (steady_getBinaryOp op r (.atomic a) t _ _ _).bind fun _ =>
      (steady_constStructElemOps op rs a fs _ _ resOff op1Off op2Off).bind fun _ => .pure _
  | .cons _ r _, .last _ t | .last _ r, .last _ t =>
    exact (steady_getBinaryOp op r (.atomic a) t _ _ _).bind fun _ => .pure _
  | .last _ _, .cons _ _ _ => exact .pure _
termination_by (max rs.weight fs.weight, 3)
decreasing_by all_goals (simp only [Prod.lex_def, BaseType.weight, Elements.weight]; omega)

theorem steady_compareElemOps (op : OpType) (es fs : Elements) (offsets1 offsets2 : List ℕ)
    (resOff op1Off op2Off : ℕ) :
    Steady (compareElemOps op es fs offsets1 offsets2 resOff op1Off op2Off) := by
  rw [compareElemOps.eq_def]
  match es, fs with
  | .cons _ t es, .cons _ u fs =>
    exact (steady_getBinaryOp op (.atomic .bool) t u _ _ _).bind fun _ =>
      (steady_compareElemOps op es fs _ _ resOff op1Off op2Off).bind fun _ => .pure _
  | .last _ t, .last _ u =>
    exact (steady_getBinaryOp op (.atomic .bool) t u _ _ _).bind fun _ => .pure _
  | .cons _ _ _, .last _ _ | .last _ _, .cons _ _ _ => exact .pure _
termination_by (max es.weight fs.weight, 3)
decreasing_by all_goals (simp only [Prod.lex_def, BaseType.weight, Elements.weight]; omega)

end

end Steady

end Ops

/-! ## Where operations apply -/

theorem Ops.applicableType_atomic (op : OpType) (a b : AtomicType) :
    ∃ c, applicableType op (.atomic a) (.atomic b) = .atomic c := by
  have hweight := weight_applicableType op (.atomic a) (.atomic b)
  cases h : applicableType op (.atomic a) (.atomic b) with
  | atomic c => exact ⟨c, rfl⟩
  | struct es =>
    have hes := es.two_le_weight
    rw [h, BaseType.weight, BaseType.weight, BaseType.weight, max_self] at hweight
    omega

mutual

/-- Whether an operation applies to a type and itself. -/
def BaseType.applies (op : OpType) : BaseType → Bool
  | .atomic a => hasOp op (applicableType op (.atomic a) (.atomic a)) (.atomic a) (.atomic a)
  | .struct es => op != .bit && es.applies op

/-- Whether it applies to each element. -/
def Elements.applies (op : OpType) : Elements → Bool
  | .last _ t => t.applies op
  | .cons _ t rest => t.applies op && rest.applies op

end

mutual

/-- Whether an operation applies to a type and a constant. -/
def BaseType.appliesConst (op : OpType) (c : AtomicType) : BaseType → Bool
  | .atomic a => hasOp op (applicableType op (.atomic a) (.atomic c)) (.atomic a) (.atomic c)
  | .struct es => op != .bit && es.appliesConst op c

/-- Whether it applies to each element and the constant. -/
def Elements.appliesConst (op : OpType) (c : AtomicType) : Elements → Bool
  | .last _ t => t.appliesConst op c
  | .cons _ t rest => t.appliesConst op c && rest.appliesConst op c

end

section Applies

variable {op : OpType}

theorem Ops.isApplicable_atomic (hon : op.onStruct) (a b : AtomicType) :
    isApplicable op (.atomic a) (.atomic b) =
      pure (hasOp op (applicableType op (.atomic a) (.atomic b)) (.atomic a) (.atomic b)) := by
  obtain ⟨c, hc⟩ := applicableType_atomic op a b
  rw [isApplicable.eq_def, hc, getBinaryOp_atomic c (.inl (OpType.ne_equal_of_onStruct hon)), pure_bind]
  rcases atomicOp_cases op (.atomic c) (.atomic a) (.atomic b) 0 0 0 with
    ⟨⟨length, h⟩, hhas⟩ | ⟨⟨cls, h⟩, hhas⟩ | ⟨h, hhas⟩ <;> rw [h, hhas] <;> rfl

/-- On a struct, `OP_BIT` is looked for with a result that is no struct. -/
theorem Ops.applicableType_struct (hon : op.onStruct) (es : Elements) (b : BaseType) :
    applicableType op (.struct es) b = if op = .bit then .atomic .bool else .struct es := by
  cases op <;> first | rfl | cases hon

theorem Ops.getBinaryOp_bit (es : Elements) (b : BaseType) :
    getBinaryOp .bit (.atomic .bool) (.struct es) b 0 0 0 = pure .null := by
  rw [getBinaryOp_atomic .bool (.inl (by rintro (⟨⟨⟩⟩ | ⟨⟨⟩⟩)))]
  rfl

mutual

theorem BaseType.makes_isApplicable (hon : op.onStruct) (hop : op ≠ .overlay) : ∀ t : BaseType,
    Makes (· = t.applies op) (isApplicable op t t)
  | .atomic a => by
    rw [isApplicable_atomic hon]
    exact Makes.pure rfl
  | .struct es => by
    rw [isApplicable.eq_def, applicableType_struct hon, BaseType.applies]
    split
    · next hbit =>
      subst hbit
      rw [getBinaryOp_bit]
      exact Makes.pure rfl
    · next hbit =>
      rw [getBinaryOp_structs hop, if_pos hon, bne_iff_ne.mpr hbit, Bool.true_and, bind_assoc]
      refine Makes.bind_eq (es.makes_isApplicableOnStruct hon hop) ?_
      simp only [es.compatibleWith_self, Bool.and_true]
      cases es.applies op with
      | false => exact Makes.pure rfl
      | true =>
        cases op.selects <;> simp only [reduceIte, Bool.false_eq_true, bind_assoc, pure_bind] <;>
          exact Makes.bind_any fun _ => Makes.bind_any fun _ => Makes.pure rfl

theorem Elements.makes_isApplicableOnStruct (hon : op.onStruct) (hop : op ≠ .overlay) : ∀ es : Elements,
    Makes (· = es.applies op) (isApplicableOnStruct op es)
  | .last _ t => by
    rw [isApplicableOnStruct.eq_def, Elements.applies]
    exact t.makes_isApplicable hon hop
  | .cons _ t rest => by
    rw [isApplicableOnStruct.eq_def, Elements.applies]
    refine Makes.bind_eq (t.makes_isApplicable hon hop) ?_
    cases t.applies op with
    | true => exact rest.makes_isApplicableOnStruct hon hop
    | false => exact Makes.pure rfl

end

mutual

theorem BaseType.makes_isApplicableConst (hon : op.onStruct) (c : AtomicType) : ∀ t : BaseType,
    Makes (· = t.appliesConst op c) (isApplicable op t (.atomic c))
  | .atomic a => by
    rw [isApplicable_atomic hon]
    exact Makes.pure rfl
  | .struct es => by
    rw [isApplicable.eq_def, applicableType_struct hon, BaseType.appliesConst]
    split
    · next hbit =>
      subst hbit
      rw [getBinaryOp_bit]
      exact Makes.pure rfl
    · next hbit =>
      rw [getBinaryOp_structConst, if_pos hon, bne_iff_ne.mpr hbit, Bool.true_and, bind_assoc]
      refine Makes.bind_eq (es.makes_isApplicableOnStructConst hon c) ?_
      cases es.appliesConst op c with
      | false => exact Makes.pure rfl
      | true =>
        simp only [if_true, bind_assoc, pure_bind]
        exact Makes.bind_any fun _ => Makes.pure rfl

theorem Elements.makes_isApplicableOnStructConst (hon : op.onStruct) (c : AtomicType) : ∀ es : Elements,
    Makes (· = es.appliesConst op c) (isApplicableOnStructConst op es c)
  | .last _ t => by
    rw [isApplicableOnStructConst.eq_def, Elements.appliesConst]
    exact t.makes_isApplicableConst hon c
  | .cons _ t rest => by
    rw [isApplicableOnStructConst.eq_def, Elements.appliesConst]
    refine Makes.bind_eq (t.makes_isApplicableConst hon c) ?_
    cases t.appliesConst op c with
    | true => exact rest.makes_isApplicableOnStructConst hon c
    | false => exact Makes.pure rfl

end

end Applies

/-! ## Complete objects -/

mutual

/-- The object is not null, and neither is an element operator that it calls.  `structs` says whether it may
contain an `OpBinaryStruct`, which then is to work element by element. -/
def BinaryOp.Complete (structs : Bool) : BinaryOp → Prop
  | .null => False
  | .atomic .. => True
  | .overlay .. => True
  | .binaryStruct _ _ elemOps _ _ => structs = true ∧ elemOps.Complete structs
  | .binaryStructConst elemOps => elemOps.Complete structs
  | .binaryConstStruct elemOps => elemOps.Complete structs
  | .equalStruct elemOps => elemOps.Complete structs
  | .notequalStruct elemOps => elemOps.Complete structs

/-- The element operators are complete. -/
def ElemOps.Complete (structs : Bool) : ElemOps → Prop
  | .nil => True
  | .cons elemOp rest => elemOp.Complete structs ∧ rest.Complete structs

end

/-- `_operation` lets `OpBinaryStruct` work element by element. -/
def Ops.elementwise : Operation → Bool
  | some .overlay | some .minBinary | some .maxBinary => false
  | _ => true

section Complete

variable (compute : Arithmetic) {g g' : Operation}

theorem BinaryOp.apply_elementwise (hg : elementwise g) (resOff op2Off : ℕ) (elemOps : ElemOps)
    (compareOps : CompareOps) (assignmentOps : List (Option AssignmentOp)) (res op1 op2 : Cells) :
    (BinaryOp.binaryStruct resOff op2Off elemOps compareOps assignmentOps).apply compute g res op1 op2 =
      elemOps.applyAll compute g res op1 op2 := by
  rcases g with _ | op
  · rw [BinaryOp.apply] <;> rintro ⟨⟩
  · cases op <;> first | (rw [BinaryOp.apply] <;> rintro ⟨⟩) | cases hg

variable {structs : Bool}

/-- Two results agree and are not a call through a null pointer. -/
def Agree {α : Type} (x y : Except Interruption α) : Prop := x = y ∧ x ≠ .error .nullCall

theorem Agree.ok {α : Type} (a : α) : Agree (.ok a : Except Interruption α) (.ok a) :=
  ⟨rfl, by rintro ⟨⟩⟩

theorem Agree.bind {α β : Type} {x y : Except Interruption α} {f f' : α → Except Interruption β}
    (h : Agree x y) (hf : ∀ a, Agree (f a) (f' a)) : Agree (x >>= f) (y >>= f') := by
  obtain ⟨rfl, hne⟩ := h
  cases x with
  | ok a => exact hf a
  | error e => exact ⟨rfl, fun he => hne (congrArg _ (Except.error.inj he))⟩

mutual

/-- **A complete object does not look at `_operation`**, as long as that lets its structs work element by
element, and calls no null pointer. -/
theorem BinaryOp.Complete.agree (hg : structs = true → elementwise g)
    (hg' : structs = true → elementwise g') : ∀ {o : BinaryOp} (_ : o.Complete structs) (res op1 op2 : Cells),
    Agree (o.apply compute g res op1 op2) (o.apply compute g' res op1 op2)
  | .null, h, _, _, _ => h.elim
  | .atomic cls r a b ro ao bo, _, res, op1, op2 => by
    rw [BinaryOp.apply, BinaryOp.apply]
    refine ⟨rfl, ?_⟩
    cases compute cls r a b (slice ao a.getSize op1) (slice bo b.getSize op2) with
    | ok v => rintro ⟨⟩
    | error e => rintro ⟨⟩
  | .overlay .., _, res, op1, op2 => by
    rw [BinaryOp.apply, BinaryOp.apply]
    exact .ok _
  | .binaryStruct ro bo es cs as, h, res, op1, op2 => by
    rw [BinaryOp.apply_elementwise compute (hg h.1), BinaryOp.apply_elementwise compute (hg' h.1)]
    exact h.2.agree hg hg' res op1 op2
  | .binaryStructConst es, h, res, op1, op2 => by
    rw [BinaryOp.apply, BinaryOp.apply]
    exact ElemOps.Complete.agree hg hg' h res op1 op2
  | .binaryConstStruct es, h, res, op1, op2 => by
    rw [BinaryOp.apply, BinaryOp.apply]
    exact ElemOps.Complete.agree hg hg' h res op1 op2
  | .equalStruct es, h, res, op1, op2 => by
    rw [BinaryOp.apply, BinaryOp.apply]
    exact ElemOps.Complete.agreeDummy hg hg' h _ _ res op1 op2
  | .notequalStruct es, h, res, op1, op2 => by
    rw [BinaryOp.apply, BinaryOp.apply]
    exact ElemOps.Complete.agreeDummy hg hg' h _ _ res op1 op2

theorem ElemOps.Complete.agree (hg : structs = true → elementwise g)
    (hg' : structs = true → elementwise g') : ∀ {os : ElemOps} (_ : os.Complete structs) (res op1 op2 : Cells),
    Agree (os.applyAll compute g res op1 op2) (os.applyAll compute g' res op1 op2)
  | .nil, _, res, op1, op2 => .ok res
  | .cons o rest, h, res, op1, op2 => by
    rw [ElemOps.applyAll, ElemOps.applyAll]
    exact (h.1.agree hg hg' res op1 op2).bind fun res => h.2.agree hg hg' res op1 op2

theorem ElemOps.Complete.agreeDummy (hg : structs = true → elementwise g)
    (hg' : structs = true → elementwise g') : ∀ {os : ElemOps} (_ : os.Complete structs)
    (collect : Bool → Bool → Bool) (dummy : Bool) (res op1 op2 : Cells),
    Agree (os.applyDummy compute g collect dummy res op1 op2)
      (os.applyDummy compute g' collect dummy res op1 op2)
  | .nil, _, _, _, res, op1, op2 => .ok _
  | .cons o rest, h, collect, dummy, res, op1, op2 => by
    rw [ElemOps.applyDummy, ElemOps.applyDummy]
    exact (h.1.agree hg hg' res op1 op2).bind fun res => h.2.agreeDummy hg hg' collect _ res op1 op2

end

end Complete

/-! ## Which objects are complete -/

mutual

/-- `getBinaryOp` finds an operator on the elements of a type with itself as the result. -/
def BaseType.operates (op : OpType) : BaseType → Bool
  | .atomic a => hasOp op (.atomic a) (.atomic a) (.atomic a)
  | .struct es => es.operates op

/-- The same for the elements of a struct. -/
def Elements.operates (op : OpType) : Elements → Bool
  | .last _ t => t.operates op
  | .cons _ t rest => t.operates op && rest.operates op

end

mutual

/-- `getBinaryOp` finds an operator for a result, a type and a constant, down to the elements. -/
def BaseType.fitsConst (op : OpType) (c : AtomicType) : (resType opType : BaseType) → Bool
  | .struct rs, .struct es => es.appliesConst op c && es.fitsConst op c rs
  | .struct _, .atomic _ => false
  | .atomic r, t => hasOp op (.atomic r) t (.atomic c)

/-- The same for the elements: the result has an element for each of them. -/
def Elements.fitsConst (op : OpType) (c : AtomicType) : (es rs : Elements) → Bool
  | .last _ t, .last _ r | .last _ t, .cons _ r _ => r.fitsConst op c t
  | .cons _ t es, .cons _ r rs => r.fitsConst op c t && es.fitsConst op c rs
  | .cons _ _ _, .last _ _ => false

end

mutual

/-- The atomic types of a type are compared for equality. -/
def BaseType.comparable : BaseType → Bool
  | .atomic a => (BaseType.atomic a).upTo .float
  | .struct es => es.comparable

/-- The same for the elements of a struct. -/
def Elements.comparable : Elements → Bool
  | .last _ t => t.comparable
  | .cons _ t rest => t.comparable && rest.comparable

end

theorem Ops.atomicOp_complete {op : OpType} {r a b : BaseType} (h : hasOp op r a b) (structs : Bool)
    (resOff op1Off op2Off : ℕ) : (atomicOp op r a b resOff op1Off op2Off).Complete structs := by
  rcases atomicOp_cases op r a b resOff op1Off op2Off with
    ⟨⟨length, hobj⟩, -⟩ | ⟨⟨cls, hobj⟩, -⟩ | ⟨-, hhas⟩
  · rw [hobj]
    trivial
  · rw [hobj]
    trivial
  · rw [h] at hhas
    cases hhas

theorem Ops.hasOp_comm (op : OpType) (r a b : BaseType) : hasOp op r a b = hasOp op r b a := by
  have hclass : operatorClass op r a b = operatorClass op r b a := by
    simp only [operatorClass, Bool.and_right_comm _ (a.is _), Bool.and_right_comm _ (a.upTo _)]
  rw [hasOp, hasOp, hclass]
  exact congrArg (· || _) (decide_eq_decide.mpr (and_congr_right fun _ => and_comm))

section Construction

variable {op : OpType}

/-- What applies to an atomic type has an operator on it, too. -/
theorem Ops.hasOp_of_applies (hon : op.onStruct) (hbit : op ≠ .bit) (a : AtomicType)
    (h : (BaseType.atomic a).applies op) : (BaseType.atomic a).operates op := by
  revert h
  rw [BaseType.applies, BaseType.operates]
  cases op <;> first | exact absurd rfl hbit | (cases a <;> decide) | cases hon

mutual

theorem BaseType.operates_of_applies (hon : op.onStruct) (hbit : op ≠ .bit) : ∀ t : BaseType,
    t.applies op → t.operates op
  | .atomic a, h => Ops.hasOp_of_applies hon hbit a h
  | .struct es, h => by
    rw [BaseType.applies, Bool.and_eq_true] at h
    rw [BaseType.operates]
    exact es.operates_of_applies hon hbit h.2

theorem Elements.operates_of_applies (hon : op.onStruct) (hbit : op ≠ .bit) : ∀ es : Elements,
    es.applies op → es.operates op
  | .last _ t, h => by
    rw [Elements.applies] at h
    rw [Elements.operates]
    exact t.operates_of_applies hon hbit h
  | .cons _ t rest, h => by
    rw [Elements.applies, Bool.and_eq_true] at h
    rw [Elements.operates, t.operates_of_applies hon hbit h.1, rest.operates_of_applies hon hbit h.2]
    rfl

end

mutual

theorem BaseType.makes_complete (hon : op.onStruct) (hop : op ≠ .overlay) (hsel : op.selects = false) :
    ∀ (t : BaseType) (resOff op1Off op2Off : ℕ), t.applies op → t.operates op →
      Makes (·.Complete true) (getBinaryOp op t t t resOff op1Off op2Off)
  | .atomic a, _, _, _, _, h => by
    rw [getBinaryOp_atomic a (.inl (OpType.ne_equal_of_onStruct hon))]
    exact Makes.pure (atomicOp_complete h _ _ _ _)
  | .struct es, resOff, op1Off, op2Off, happ, h => by
    rw [BaseType.applies, Bool.and_eq_true] at happ
    rw [BaseType.operates] at h
    rw [getBinaryOp_structs hop, if_pos hon]
    refine Makes.bind_eq (es.makes_isApplicableOnStruct hon hop) ?_
    simp only [es.compatibleWith_self, happ.2, hsel, Bool.and_true, reduceIte, Bool.false_eq_true]
    refine Makes.bind_any fun _ => Makes.bind (es.makes_elemOps hon hop hsel _ _ _ _ happ.2 h) fun os hos => ?_
    exact Makes.pure ⟨rfl, hos⟩

theorem Elements.makes_elemOps (hon : op.onStruct) (hop : op ≠ .overlay) (hsel : op.selects = false) :
    ∀ (es : Elements) (offsets : List ℕ) (resOff op1Off op2Off : ℕ), es.applies op → es.operates op →
      Makes (·.Complete true) (elemOps op es offsets resOff op1Off op2Off)
  | .last _ t, offsets, resOff, op1Off, op2Off, happ, h => by
    rw [Elements.applies] at happ
    rw [Elements.operates] at h
    rw [elemOps.eq_def]
    exact Makes.bind (t.makes_complete hon hop hsel _ _ _ happ h) fun o ho => Makes.pure ⟨ho, trivial⟩
  | .cons _ t rest, offsets, resOff, op1Off, op2Off, happ, h => by
    rw [Elements.applies, Bool.and_eq_true] at happ
    rw [Elements.operates, Bool.and_eq_true] at h
    rw [elemOps.eq_def]
    refine Makes.bind (t.makes_complete hon hop hsel _ _ _ happ.1 h.1) fun o ho => ?_
    exact Makes.bind (rest.makes_elemOps hon hop hsel _ _ _ _ happ.2 h.2) fun os hos =>
      Makes.pure ⟨ho, hos⟩

end

mutual

theorem BaseType.makes_fitsConst (hon : op.onStruct) (c : AtomicType) : ∀ (t r : BaseType)
    (resOff op1Off op2Off : ℕ), r.fitsConst op c t →
      Makes (·.Complete false) (getBinaryOp op r t (.atomic c) resOff op1Off op2Off) ∧
      Makes (·.Complete false) (getBinaryOp op r (.atomic c) t resOff op1Off op2Off)
  | t, .atomic r, _, _, _, h => by
    rw [BaseType.fitsConst] at h
    rw [getBinaryOp_atomic r (.inl (OpType.ne_equal_of_onStruct hon)), getBinaryOp_atomic r (.inl (OpType.ne_equal_of_onStruct hon))]
    exact ⟨Makes.pure (atomicOp_complete h _ _ _ _),
      Makes.pure (atomicOp_complete (hasOp_comm .. ▸ h) _ _ _ _)⟩
  | .atomic _, .struct _, _, _, _, h => by
    rw [BaseType.fitsConst] at h
    cases h
  | .struct es, .struct rs, resOff, op1Off, op2Off, h => by
    rw [BaseType.fitsConst, Bool.and_eq_true] at h
    obtain ⟨happ, hfits⟩ := h
    rw [getBinaryOp_structConst, getBinaryOp_constStruct]
    obtain ⟨hleft, hright⟩ := es.makes_structConstElemOps hon c rs rs.structType.offsets
      es.structType.offsets resOff hfits
    constructor
    · rw [if_pos hon]
      refine Makes.bind_eq (es.makes_isApplicableOnStructConst hon c) ?_
      simp only [happ, reduceIte]
      exact Makes.bind (hleft _ _) fun os hos => Makes.pure hos
    · rw [if_pos hon]
      refine Makes.bind_eq (es.makes_isApplicableOnStructConst hon c) ?_
      simp only [happ, reduceIte]
      exact Makes.bind (hright _ _) fun os hos => Makes.pure hos

theorem Elements.makes_structConstElemOps (hon : op.onStruct) (c : AtomicType) : ∀ (es rs : Elements)
    (resOffsets offsets : List ℕ) (resOff : ℕ), es.fitsConst op c rs →
      (∀ op1Off op2Off, Makes (·.Complete false)
        (structConstElemOps op rs es c resOffsets offsets resOff op1Off op2Off)) ∧
      ∀ op1Off op2Off, Makes (·.Complete false)
        (constStructElemOps op rs c es resOffsets offsets resOff op1Off op2Off)
  | .last _ t, .last _ r, resOffsets, offsets, resOff, h => by
    rw [Elements.fitsConst] at h
    refine ⟨fun op1Off op2Off => ?_, fun op1Off op2Off => ?_⟩
    · rw [structConstElemOps.eq_def]
      exact Makes.bind (t.makes_fitsConst hon c r _ _ _ h).1 fun o ho => Makes.pure ⟨ho, trivial⟩
    · rw [constStructElemOps.eq_def]
      exact Makes.bind (t.makes_fitsConst hon c r _ _ _ h).2 fun o ho => Makes.pure ⟨ho, trivial⟩
  | .last _ t, .cons _ r _, resOffsets, offsets, resOff, h => by
    rw [Elements.fitsConst] at h
    refine ⟨fun op1Off op2Off => ?_, fun op1Off op2Off => ?_⟩
    · rw [structConstElemOps.eq_def]
      exact Makes.bind (t.makes_fitsConst hon c r _ _ _ h).1 fun o ho => Makes.pure ⟨ho, trivial⟩
    · rw [constStructElemOps.eq_def]
      exact Makes.bind (t.makes_fitsConst hon c r _ _ _ h).2 fun o ho => Makes.pure ⟨ho, trivial⟩
  | .cons _ t es, .cons _ r rs, resOffsets, offsets, resOff, h => by
    rw [Elements.fitsConst, Bool.and_eq_true] at h
    obtain ⟨hleft, hright⟩ := es.makes_structConstElemOps hon c rs resOffsets.tail offsets.tail resOff h.2
    refine ⟨fun op1Off op2Off => ?_, fun op1Off op2Off => ?_⟩
    · rw [structConstElemOps.eq_def]
      refine Makes.bind (t.makes_fitsConst hon c r _ _ _ h.1).1 fun o ho => ?_
      exact Makes.bind (hleft _ _) fun os hos => Makes.pure ⟨ho, hos⟩
    · rw [constStructElemOps.eq_def]
      refine Makes.bind (t.makes_fitsConst hon c r _ _ _ h.1).2 fun o ho => ?_
      exact Makes.bind (hright _ _) fun os hos => Makes.pure ⟨ho, hos⟩
  | .cons _ _ _, .last _ _, _, _, _, h => by
    rw [Elements.fitsConst] at h
    cases h

end

mutual

theorem BaseType.makes_equal (hop : op = .equal ∨ op = .notequal) : ∀ (t u : BaseType)
    (resOff op1Off op2Off : ℕ), t.compatibleWith u → t.comparable →
      Makes (·.Complete false) (getBinaryOp op (.atomic .bool) t u resOff op1Off op2Off)
  | .atomic a, .atomic b, _, _, _, hcompat, h => by
    rw [BaseType.compatibleWith, beq_iff_eq] at hcompat
    subst hcompat
    rw [getBinaryOp_atomic .bool (.inr (by rintro es ⟨⟩))]
    refine Makes.pure (atomicOp_complete ?_ _ _ _ _)
    rcases hop with rfl | rfl <;> cases a <;> first | rfl | cases h
  | .struct es, .struct fs, _, _, _, hcompat, h => by
    rw [BaseType.compatibleWith] at hcompat
    rw [BaseType.comparable] at h
    rw [getBinaryOp_equalStruct hop hcompat]
    refine Makes.bind (es.makes_compareElemOps hop fs _ _ _ _ _ hcompat h) fun os hos => Makes.pure ?_
    split
    · exact hos
    · exact hos
  | .atomic _, .struct _, _, _, _, hcompat, _ => (Bool.false_ne_true hcompat).elim
  | .struct _, .atomic _, _, _, _, hcompat, _ => (Bool.false_ne_true hcompat).elim

theorem Elements.makes_compareElemOps (hop : op = .equal ∨ op = .notequal) : ∀ (es fs : Elements)
    (offsets1 offsets2 : List ℕ) (resOff op1Off op2Off : ℕ), es.compatibleWith fs → es.comparable →
      Makes (·.Complete false) (compareElemOps op es fs offsets1 offsets2 resOff op1Off op2Off)
  | .last _ t, .last _ u, _, _, _, _, _, hcompat, h => by
    rw [Elements.compatibleWith] at hcompat
    rw [Elements.comparable] at h
    rw [compareElemOps.eq_def]
    exact Makes.bind (t.makes_equal hop u _ _ _ hcompat h) fun o ho => Makes.pure ⟨ho, trivial⟩
  | .cons _ t es, .cons _ u fs, _, _, _, _, _, hcompat, h => by
    rw [Elements.compatibleWith, Bool.and_eq_true] at hcompat
    rw [Elements.comparable, Bool.and_eq_true] at h
    rw [compareElemOps.eq_def]
    refine Makes.bind (t.makes_equal hop u _ _ _ hcompat.1 h.1) fun o ho => ?_
    exact Makes.bind (es.makes_compareElemOps hop fs _ _ _ _ _ hcompat.2 h.2) fun os hos =>
      Makes.pure ⟨ho, hos⟩
  | .last _ _, .cons _ _ _, _, _, _, _, _, hcompat, _ => (Bool.false_ne_true hcompat).elim
  | .cons _ _ _, .last _ _, _, _, _, _, _, hcompat, _ => (Bool.false_ne_true hcompat).elim

end

/-- An object whose result is no struct is complete, if the structs that it compares are comparable. -/
theorem Ops.makes_of_atomic (c : AtomicType) (a b : BaseType) (resOff op1Off op2Off : ℕ)
    (h : op = .equal ∨ op = .notequal → ∀ es, a = .struct es → es.comparable) :
    Makes (fun o => o.isNull = true ∨ o.Complete false)
      (getBinaryOp op (.atomic c) a b resOff op1Off op2Off) := by
  by_cases hne : ¬ (op = .equal ∨ op = .notequal) ∨ ∀ es, a ≠ .struct es
  · rw [getBinaryOp_atomic c hne]
    rcases atomicOp_cases op (.atomic c) a b resOff op1Off op2Off with
      ⟨-, hhas⟩ | ⟨-, hhas⟩ | ⟨hobj, -⟩
    · exact Makes.pure (.inr (atomicOp_complete hhas _ _ _ _))
    · exact Makes.pure (.inr (atomicOp_complete hhas _ _ _ _))
    · exact Makes.pure (.inl (by rw [hobj]; rfl))
  · rw [not_or, not_not] at hne
    obtain ⟨hop, hstruct⟩ := hne
    cases a with
    | atomic a => exact absurd (by rintro es ⟨⟩) hstruct
    | struct es =>
      by_cases hcompat : c = .bool ∧ (BaseType.struct es).compatibleWith b
      · obtain ⟨rfl, hcompat⟩ := hcompat
        exact ((BaseType.struct es).makes_equal hop b _ _ _ hcompat (h hop es rfl)).mono fun _ => .inr
      · refine Makes.mono (P := (· = .null)) ?_ fun o ho => .inl (by rw [ho]; rfl)
        rw [getBinaryOp.eq_def, if_neg (by rcases hop with rfl | rfl <;> rintro ⟨⟨⟩, -⟩)]
        cases b with
        | atomic b => rcases hop with rfl | rfl <;> cases c <;> exact Makes.pure rfl
        | struct fs =>
          rw [BaseType.compatibleWith] at hcompat
          rcases hop with rfl | rfl <;> cases c <;> first
            | exact Makes.pure rfl
            | simp only [true_and] at hcompat
              simp [operatorClass, hcompat]
              exact Makes.pure rfl

mutual

/-- To compatible types the same operations apply. -/
theorem BaseType.applies_congr : ∀ {t u : BaseType}, t.compatibleWith u → t.applies op = u.applies op
  | .atomic a, .atomic b, h => by
    rw [BaseType.compatibleWith, beq_iff_eq] at h
    rw [h]
  | .struct es, .struct fs, h => by
    rw [BaseType.compatibleWith] at h
    rw [BaseType.applies, BaseType.applies, Elements.applies_congr h]
  | .atomic _, .struct _, h => (Bool.false_ne_true h).elim
  | .struct _, .atomic _, h => (Bool.false_ne_true h).elim

theorem Elements.applies_congr : ∀ {es fs : Elements}, es.compatibleWith fs →
    es.applies op = fs.applies op
  | .last _ t, .last _ u, h => by
    rw [Elements.compatibleWith] at h
    rw [Elements.applies, Elements.applies, BaseType.applies_congr h]
  | .cons _ t es, .cons _ u fs, h => by
    rw [Elements.compatibleWith, Bool.and_eq_true] at h
    rw [Elements.applies, Elements.applies, BaseType.applies_congr h.1, Elements.applies_congr h.2]
  | .last _ _, .cons _ _ _, h => (Bool.false_ne_true h).elim
  | .cons _ _ _, .last _ _, h => (Bool.false_ne_true h).elim

end

end Construction

/-! ## Selection -/

/-- What a comparison of two values says. -/
def Ops.compares (compute : Arithmetic) (op : OpType) (t : BaseType) (a b : Cells) : Bool :=
  match operatorClass op (.atomic .bool) t t with
  | none => false
  | some cls =>
    match compute cls (.atomic .bool) t t a b with
    | .ok v => v.getD 0 0 != 0
    | .error _ => false

/-- The comparison of the elements is decided before it comes to an element without comparisons: it goes on
as long as the element of the first operand is not the larger one. -/
def Elements.decides (compute : Arithmetic) : Elements → (offsets : List ℕ) → (op1Off op2Off : ℕ) →
    (op1 op2 : Cells) → Bool
  | .last _ t, _, _, _, _, _ => t.upTo .float
  | .cons _ t rest, offsets, op1Off, op2Off, op1, op2 =>
    let a := slice (op1Off + offsets.headD 0) t.getSize op1
    let b := slice (op2Off + offsets.headD 0) t.getSize op2
    t.upTo .float && (!(compares compute .less t a b || compares compute .equal t a b) ||
      rest.decides compute offsets.tail op1Off op2Off op1 op2)

section Selection

variable {compute : Arithmetic} {op1 op2 : Cells}

theorem Ops.getBinaryOp_compare {op : OpType} (hop : op = .less ∨ op = .equal) {t : BaseType}
    (ht : t.upTo .float) (op1Off op2Off : ℕ) : ∃ cls, operatorClass op (.atomic .bool) t t = some cls ∧
      getBinaryOp op (.atomic .bool) t t 0 op1Off op2Off =
        pure (.atomic cls (.atomic .bool) t t 0 op1Off op2Off) := by
  cases t with
  | struct es => cases ht
  | atomic a =>
    obtain ⟨cls, hcls⟩ : ∃ cls, operatorClass op (.atomic .bool) (.atomic a) (.atomic a) = some cls := by
      rcases hop with rfl | rfl <;> cases a <;> first | exact ⟨_, rfl⟩ | cases ht
    refine ⟨cls, hcls, ?_⟩
    rw [getBinaryOp_atomic .bool (.inr (by rintro es ⟨⟩)), atomicOp,
      if_neg (by rcases hop with rfl | rfl <;> rintro ⟨⟨⟩, -⟩), hcls]

theorem overwrite_getD (v : Cells) : (overwrite [0] 0 v).getD 0 0 = v.getD 0 0 := by
  cases v with
  | nil => rfl
  | cons x v => rfl

/-- The loop goes on only after a comparison that says so. -/
theorem CompareOps.op1Min_ne_nullCall {g : Operation} {t : BaseType} {less equal : OperatorClass}
    {off1 off2 : ℕ} {rest : CompareOps}
    (hless : operatorClass .less (.atomic .bool) t t = some less)
    (hequal : operatorClass .equal (.atomic .bool) t t = some equal)
    (hrest : compares compute .less t (slice off1 t.getSize op1) (slice off2 t.getSize op2) ||
        compares compute .equal t (slice off1 t.getSize op1) (slice off2 t.getSize op2) →
      rest.op1Min compute g op1 op2 ≠ .error .nullCall) :
    (CompareOps.cons (.atomic less (.atomic .bool) t t 0 off1 off2)
      (.atomic equal (.atomic .bool) t t 0 off1 off2) rest).op1Min compute g op1 op2 ≠
        .error .nullCall := by
  rw [compares, compares, hless, hequal] at hrest
  rw [CompareOps.op1Min, BinaryOp.apply, BinaryOp.apply]
  dsimp only at hrest
  revert hrest
  cases compute less (.atomic .bool) t t (slice off1 t.getSize op1) (slice off2 t.getSize op2) with
  | error e =>
    rintro - ⟨⟩
  | ok v =>
    dsimp only [bind, Except.bind]
    rw [overwrite_getD]
    cases v.getD 0 0 != 0 with
    | true => exact fun hrest => hrest (Bool.true_or _)
    | false =>
      simp only [reduceIte, Bool.false_eq_true, Bool.false_or]
      cases compute equal (.atomic .bool) t t (slice off1 t.getSize op1) (slice off2 t.getSize op2) with
      | error e =>
        rintro - ⟨⟩
      | ok w =>
        dsimp only
        rw [overwrite_getD]
        intro hrest
        split
        · next hw => exact hrest hw
        · rintro ⟨⟩

theorem Elements.makes_compareOps : ∀ (es : Elements) (offsets : List ℕ) (op1Off op2Off : ℕ),
    es.decides compute offsets op1Off op2Off op1 op2 →
      Makes (fun cs => ∀ g, cs.op1Min compute g op1 op2 ≠ .error .nullCall)
        (compareOps es offsets op1Off op2Off)
  | .last _ t, offsets, op1Off, op2Off, h => by
    rw [Elements.decides] at h
    obtain ⟨less, hless, hlessOp⟩ := getBinaryOp_compare (.inl rfl) h (op1Off + offsets.headD 0)
      (op2Off + offsets.headD 0)
    obtain ⟨equal, hequal, hequalOp⟩ := getBinaryOp_compare (.inr rfl) h (op1Off + offsets.headD 0)
      (op2Off + offsets.headD 0)
    rw [compareOps.eq_def]
    dsimp only
    rw [hlessOp, pure_bind, hequalOp, pure_bind]
    refine Makes.pure fun g => CompareOps.op1Min_ne_nullCall hless hequal fun _ => ?_
    rw [CompareOps.op1Min]
    rintro ⟨⟩
  | .cons _ t rest, offsets, op1Off, op2Off, h => by
    rw [Elements.decides, Bool.and_eq_true] at h
    obtain ⟨ht, hrest⟩ := h
    obtain ⟨less, hless, hlessOp⟩ := getBinaryOp_compare (.inl rfl) ht (op1Off + offsets.headD 0)
      (op2Off + offsets.headD 0)
    obtain ⟨equal, hequal, hequalOp⟩ := getBinaryOp_compare (.inr rfl) ht (op1Off + offsets.headD 0)
      (op2Off + offsets.headD 0)
    rw [compareOps.eq_def]
    dsimp only
    rw [hlessOp, pure_bind, hequalOp, pure_bind]
    rw [Bool.or_eq_true, Bool.not_eq_true'] at hrest
    rcases hrest with hstop | hrest
    · refine Makes.bind_any fun cs => Makes.pure fun g =>
        CompareOps.op1Min_ne_nullCall hless hequal fun hgo => ?_
      rw [hstop] at hgo
      cases hgo
    · exact Makes.bind (rest.makes_compareOps _ _ _ hrest) fun cs hcs => Makes.pure fun g =>
        CompareOps.op1Min_ne_nullCall hless hequal fun _ => hcs g

/-- The assignments are there for every element. -/
theorem Elements.assignAll_ok : ∀ (es : Elements) (offsets : List ℕ) (resOff opOff : ℕ) (res op : Cells),
    ∃ res', assignAll (es.assignmentOps offsets resOff opOff) res op = .ok res'
  | .last _ _, _, _, _, _, _ => ⟨_, rfl⟩
  | .cons _ _ rest, offsets, resOff, opOff, _, op => rest.assignAll_ok offsets.tail resOff opOff _ op

end Selection

/-! ## Sessions -/

/-- An object that `getBinaryOp` has returned, with what it was asked for. -/
structure OperatorObject where
  op : OpType
  resType : BaseType
  op1Type : BaseType
  op2Type : BaseType
  resOff : ℕ
  op1Off : ℕ
  op2Off : ℕ
  object : BinaryOp

namespace OperatorObject

variable (compute : Arithmetic)

/-- The result of an object by its own operation. -/
def ownResult (o : OperatorObject) (res op1 op2 : Cells) : Except Interruption Cells :=
  o.object.apply compute (some o.op) res op1 op2

/-- The object is the one that `getBinaryOp` returns. -/
def Made (o : OperatorObject) : Prop := o.object.isNull = false ∧ ∃ operation,
  o.object = (getBinaryOp o.op o.resType o.op1Type o.op2Type o.resOff o.op1Off o.op2Off operation).1

/-- There are operators for the elements that the application comes to: by the types, and for the maximum
and the minimum of structs by the cells. -/
def Served (o : OperatorObject) (op1 op2 : Cells) : Prop :=
  match o.resType, o.op1Type, o.op2Type with
  | .struct rs, .struct _, .struct _ => o.op = .overlay ∨
      if o.op.selects then rs.decides compute rs.structType.offsets o.op1Off o.op2Off op1 op2 = true
      else o.op = .bit → rs.operates .bit = true
  | .struct rs, .struct es, .atomic c => es.fitsConst o.op c rs
  | .struct rs, .atomic c, .struct fs => fs.fitsConst o.op c rs
  | .atomic _, .struct es, _ => o.op = .equal ∨ o.op = .notequal → es.comparable
  | _, _, _ => True

/-- `_operation` lets the object do its own operation. -/
def Settled (o : OperatorObject) (operation : Operation) : Prop :=
  match o.resType, o.op1Type, o.op2Type with
  | .struct _, .struct _, .struct _ => o.op = .overlay ∨
      if o.op.selects then operation = some o.op else elementwise operation
  | _, _, _ => True

end OperatorObject

/-- What is done with operator objects. -/
inductive OperatorCall
  | getBinaryOp (op : OpType) (resType op1Type op2Type : BaseType) (resOff op1Off op2Off : ℕ)
  | isApplicable (op : OpType) (op1Type op2Type : BaseType)
  | apply (object : ℕ) (res op1 op2 : Cells)

/-- An application of an object, with its result. -/
structure Application where
  object : OperatorObject
  res : Cells
  op1 : Cells
  op2 : Cells
  result : Except Interruption Cells

/-- The objects, the variable of the file, and what has been applied. -/
structure OperatorSession where
  operation : Operation
  objects : List OperatorObject
  applications : List Application

namespace OperatorSession

variable (compute : Arithmetic)

/-- A program that has not used operators yet. -/
def start : OperatorSession := ⟨none, [], []⟩

/-- A call. -/
def step (s : OperatorSession) : OperatorCall → OperatorSession
  | .getBinaryOp op resType op1Type op2Type resOff op1Off op2Off =>
    let made := (Ops.getBinaryOp op resType op1Type op2Type resOff op1Off op2Off).run s.operation
    if made.1.isNull then { s with operation := made.2 }
    else { s with
      operation := made.2
      objects := s.objects ++ [⟨op, resType, op1Type, op2Type, resOff, op1Off, op2Off, made.1⟩] }
  | .isApplicable op op1Type op2Type =>
    { s with operation := ((Ops.isApplicable op op1Type op2Type).run s.operation).2 }
  | .apply i res op1 op2 =>
    match s.objects[i]? with
    | some o => { s with
      applications := s.applications ++
        [⟨o, res, op1, op2, o.object.apply compute s.operation res op1 op2⟩] }
    | none => s

/-- Every application so far has given what the operation of its object says, without a call through a
null pointer. -/
def Right (s : OperatorSession) : Prop := ∀ a ∈ s.applications,
  a.result = a.object.ownResult compute a.res a.op1 a.op2 ∧ a.result ≠ .error .nullCall

/-- **What a call needs**: an object that is applied is settled, and there are operators for the elements
that it comes to. -/
def NotDisturbed (s : OperatorSession) : OperatorCall → Prop
  | .apply i _ op1 op2 => ∀ o, s.objects[i]? = some o → o.Settled s.operation ∧ o.Served compute op1 op2
  | _ => True

end OperatorSession

namespace OperatorObject

variable {compute : Arithmetic} {o : OperatorObject} {operation : Operation}

/-- The objects for a struct and a constant are complete. -/
theorem makes_const {op : OpType} (rs es : Elements) (c : AtomicType) (resOff op1Off op2Off : ℕ)
    (h : es.fitsConst op c rs) :
    Makes (fun o => o.isNull = true ∨ o.Complete false)
        (getBinaryOp op (.struct rs) (.struct es) (.atomic c) resOff op1Off op2Off) ∧
      Makes (fun o => o.isNull = true ∨ o.Complete false)
        (getBinaryOp op (.struct rs) (.atomic c) (.struct es) resOff op1Off op2Off) := by
  by_cases hon : op.onStruct
  · cases happ : es.appliesConst op c with
    | true =>
      have hfits : (BaseType.struct rs).fitsConst op c (.struct es) := by
        rw [BaseType.fitsConst, happ, h]
        rfl
      obtain ⟨hleft, hright⟩ := (BaseType.struct es).makes_fitsConst hon c _ resOff op1Off op2Off hfits
      exact ⟨hleft.mono fun _ => .inr, hright.mono fun _ => .inr⟩
    | false =>
      rw [getBinaryOp_structConst, getBinaryOp_constStruct, if_pos hon]
      refine ⟨Makes.bind_eq (es.makes_isApplicableOnStructConst hon c) ?_, ?_⟩
      · simp only [happ, Bool.false_eq_true, reduceIte]
        exact Makes.pure (.inl rfl)
      · rw [if_pos hon]
        refine Makes.bind_eq (es.makes_isApplicableOnStructConst hon c) ?_
        simp only [happ, Bool.false_eq_true, reduceIte]
        exact Makes.pure (.inl rfl)
  · rw [getBinaryOp_structConst, getBinaryOp_constStruct, if_neg hon, if_neg hon]
    exact ⟨Makes.pure (.inl rfl), Makes.pure (.inl rfl)⟩

/-- The object for structs that are compared calls no null pointer. -/
theorem select_ne_nullCall {op : OpType} (hsel : op.selects) {rs : Elements} {cs : CompareOps}
    {resOff op1Off op2Off : ℕ} {op1 op2 : Cells} (res : Cells)
    (hcs : ∀ g, cs.op1Min compute g op1 op2 ≠ .error .nullCall) :
    (BinaryOp.binaryStruct resOff op2Off rs.nullOps cs
      (rs.assignmentOps rs.structType.offsets resOff op1Off)).apply compute (some op) res op1 op2 ≠
        .error .nullCall := by
  have hassign : ∀ op, assignAll (rs.assignmentOps rs.structType.offsets resOff op1Off) res op ≠
      .error .nullCall := fun op => by
    obtain ⟨res', h⟩ := rs.assignAll_ok rs.structType.offsets resOff op1Off res op
    rw [h]
    rintro ⟨⟩
  rcases OpType.eq_of_selects hsel with rfl | rfl
  · rw [BinaryOp.apply]
    exact (Agree.bind ⟨rfl, hcs _⟩ fun _ => ⟨rfl, hassign _⟩).2
  · rw [BinaryOp.apply]
    exact (Agree.bind ⟨rfl, hcs _⟩ fun _ => ⟨rfl, hassign _⟩).2

/-- What an operator for two structs needs. -/
theorem makes_structs {op : OpType} (hop : op ≠ .overlay) (rs es fs : Elements)
    (resOff op1Off op2Off : ℕ) {op1 op2 : Cells} (res : Cells)
    (hsettled : if op.selects then operation = some op else elementwise operation)
    (hserved : if op.selects then rs.decides compute rs.structType.offsets op1Off op2Off op1 op2 = true
      else op = .bit → rs.operates .bit = true) :
    Makes (fun o => o.isNull = true ∨
        Agree (o.apply compute operation res op1 op2) (o.apply compute (some op) res op1 op2))
      (getBinaryOp op (.struct rs) (.struct es) (.struct fs) resOff op1Off op2Off) := by
  rw [getBinaryOp_structs hop]
  by_cases hon : op.onStruct
  · rw [if_pos hon]
    refine Makes.bind_eq (es.makes_isApplicableOnStruct hon hop) ?_
    split
    · next happ =>
      rw [Bool.and_eq_true, Bool.and_eq_true] at happ
      have hrs : rs.applies op := (Elements.applies_congr happ.1.2).trans happ.1.1
      refine Makes.bind_any fun _ => ?_
      split
      · next hsel =>
        rw [if_pos hsel] at hsettled hserved
        subst hsettled
        exact Makes.bind (rs.makes_compareOps _ _ _ hserved) fun cs hcs =>
          Makes.pure (.inr ⟨rfl, select_ne_nullCall hsel res hcs⟩)
      · next hsel =>
        rw [if_neg hsel] at hsettled hserved
        have hown : elementwise (some op) := by
          cases op <;> first | rfl | exact absurd rfl hop | exact absurd rfl hsel
        have hoperates : rs.operates op := by
          by_cases hbit : op = .bit
          · subst hbit
            exact hserved rfl
          · exact rs.operates_of_applies hon hbit hrs
        refine Makes.bind (rs.makes_elemOps hon hop (Bool.eq_false_iff.mpr hsel) _ _ _ _ hrs hoperates)
          fun os hos => Makes.pure (.inr ?_)
        have hcomplete : (BinaryOp.binaryStruct resOff op2Off os rs.nullCompareOps
          rs.nullAssignmentOps).Complete true := ⟨rfl, hos⟩
        exact hcomplete.agree compute (fun _ => hsettled) (fun _ => hown) res op1 op2
    · exact Makes.pure (.inl rfl)
  · rw [if_neg hon, pure_bind]
    exact Makes.pure (Or.inl rfl)

/-- **An object that is settled and served gives the result of its own operation**, and calls no null
pointer. -/
theorem agree (hmade : o.Made) {res op1 op2 : Cells} (hsettled : o.Settled operation)
    (hserved : o.Served compute op1 op2) :
    Agree (o.object.apply compute operation res op1 op2) (o.ownResult compute res op1 op2) := by
  obtain ⟨op, r, a, b, resOff, op1Off, op2Off, object⟩ := o
  obtain ⟨hnull, g, hobj⟩ := hmade
  dsimp only at hnull hobj
  have hcomplete : ∀ {x : Building BinaryOp}, object = (x g).1 →
      Makes (fun o => o.isNull = true ∨ o.Complete false) x →
      Agree (object.apply compute operation res op1 op2) (object.apply compute (some op) res op1 op2) := by
    intro x hx h
    have hg := (h g).resolve_left (by rw [← hx, hnull]; exact Bool.false_ne_true)
    rw [← hx] at hg
    exact hg.agree compute (by rintro ⟨⟩) (by rintro ⟨⟩) res op1 op2
  cases r with
  | atomic c =>
    refine hcomplete hobj (makes_of_atomic c a b _ _ _ fun hop es hes => ?_)
    subst hes
    exact hserved hop
  | struct rs =>
    cases a with
    | atomic c =>
      cases b with
      | atomic c' =>
        refine hcomplete hobj (Makes.mono (P := (· = .null)) ?_ fun o ho => .inl (by rw [ho]; rfl))
        rw [getBinaryOp.eq_def, if_neg (by rintro ⟨-, h, -⟩; cases c <;> cases h)]
        exact Makes.pure rfl
      | struct fs => exact hcomplete hobj (makes_const rs fs c _ _ _ hserved).2
    | struct es =>
      cases b with
      | atomic c => exact hcomplete hobj (makes_const rs es c _ _ _ hserved).1
      | struct fs =>
        by_cases hop : op = .overlay
        · refine hcomplete hobj ?_
          rw [getBinaryOp.eq_def, if_pos ⟨hop, rfl, rfl⟩]
          refine Makes.pure ?_
          split
          · exact .inr trivial
          · exact .inl rfl
        · have hstructs := makes_structs hop rs es fs resOff op1Off op2Off res (hsettled.resolve_left hop)
            (hserved.resolve_left hop) g
          rw [← hobj, hnull] at hstructs
          exact hstructs.resolve_left Bool.false_ne_true

end OperatorObject

namespace OperatorSession

variable {compute : Arithmetic}

/-- The objects of a session are made by `getBinaryOp`, and what they have given is right. -/
structure Sound (compute : Arithmetic) (s : OperatorSession) : Prop where
  made : ∀ o ∈ s.objects, o.Made
  right : s.Right compute

theorem sound_start : start.Sound compute :=
  ⟨fun _ h => absurd h List.not_mem_nil, fun _ h => absurd h List.not_mem_nil⟩

/-- A call that meets its condition keeps everything right. -/
theorem Sound.step {s : OperatorSession} (hs : s.Sound compute) {c : OperatorCall}
    (hc : s.NotDisturbed compute c) : (s.step compute c).Sound compute := by
  cases c with
  | getBinaryOp op r a b resOff op1Off op2Off =>
    rw [OperatorSession.step]
    split
    · exact ⟨hs.made, hs.right⟩
    · next hnull =>
      refine ⟨fun o ho => ?_, hs.right⟩
      rcases List.mem_append.mp ho with ho | ho
      · exact hs.made o ho
      · obtain rfl := List.mem_singleton.mp ho
        exact ⟨Bool.eq_false_iff.mpr hnull, s.operation, rfl⟩
  | isApplicable op a b => exact ⟨hs.made, hs.right⟩
  | apply i res op1 op2 =>
    rw [OperatorSession.step]
    split
    · next o ho =>
      refine ⟨hs.made, fun a ha => ?_⟩
      rcases List.mem_append.mp ha with ha | ha
      · exact hs.right a ha
      · obtain rfl := List.mem_singleton.mp ha
        obtain ⟨hsettled, hserved⟩ := hc o ho
        exact OperatorObject.agree (hs.made o (List.mem_of_getElem? ho)) hsettled hserved
    · exact hs

/-- **Operators do not interfere as long as none is disturbed**: in a session in which every object that is
applied finds `_operation` as its constructor has left it, or as far as it matters, and in which the
elements have the operators that it comes to, every result is that of its own operation and no null
pointer is called. -/
theorem operators_do_not_interfere (calls : List OperatorCall)
    (h : Along (step compute) (NotDisturbed compute) start calls) :
    (run (step compute) start calls).Right compute :=
  (h.inv (I := Sound compute) (fun _ _ hs hc => hs.step hc) sound_start).right

/-- **A null pointer is called when `_operation` selects for an object that works element by element.** -/
theorem makes_nullCall (compute : Arithmetic) {op : OpType} (hop : op ≠ .overlay) (hsel : op.selects = false)
    (rs es fs : Elements) (resOff op1Off op2Off : ℕ) (res op1 op2 : Cells) :
    Makes (fun o => o.isNull = true ∨
        o.apply compute (some .minBinary) res op1 op2 = .error .nullCall)
      (getBinaryOp op (.struct rs) (.struct es) (.struct fs) resOff op1Off op2Off) := by
  rw [getBinaryOp_structs hop]
  refine Makes.bind_any fun applicable => ?_
  split
  · simp only [hsel, Bool.false_eq_true, reduceIte]
    refine Makes.bind_any fun _ => Makes.bind_any fun os => Makes.pure (.inr ?_)
    rw [BinaryOp.apply]
    cases rs <;> rw [Elements.nullCompareOps, CompareOps.op1Min, BinaryOp.apply] <;> rfl
  · exact Makes.pure (.inl rfl)

/-! ## Operators of one Char -/

/-- The operators on Chars that the sessions below use. -/
def charArithmetic : Arithmetic := fun cls _ _ _ a b =>
  match cls with
  | .char .plus => .ok [a.getD 0 0 + b.getD 0 0]
  | .equalChar .less => .ok [flag (a.getD 0 0 < b.getD 0 0)]
  | .equalChar .equal => .ok [flag (a.getD 0 0 == b.getD 0 0)]
  | _ => .error 0

/-- A struct of one Char. -/
def oneChar : BaseType := .struct (.last ['c'] (.atomic .char))

theorem plus_oneChar (operation : Operation) : getBinaryOp .plus oneChar oneChar oneChar 0 0 0 operation =
    (.binaryStruct 0 0 (.cons (.atomic (.char .plus) (.atomic .char) (.atomic .char) (.atomic .char) 0 0 0)
      .nil) (.cons .null .null .nil) [none], some .plus) := by
  rw [oneChar, getBinaryOp_structs (by decide), if_pos (by decide), isApplicableOnStruct.eq_def,
    elemOps.eq_def]
  dsimp only
  rw [isApplicable_atomic rfl, getBinaryOp_atomic .char (.inl (by decide))]
  rfl

theorem minBinary_oneChar (operation : Operation) :
    (getBinaryOp .minBinary oneChar oneChar oneChar 0 0 0 operation).1.isNull = false ∧
      (getBinaryOp .minBinary oneChar oneChar oneChar 0 0 0 operation).2 = some .minBinary := by
  rw [oneChar, getBinaryOp_structs (by decide), if_pos (by decide), isApplicableOnStruct.eq_def,
    compareOps.eq_def]
  dsimp only
  rw [isApplicable_atomic rfl, getBinaryOp_atomic .bool (.inr (by rintro es ⟨⟩)),
    getBinaryOp_atomic .bool (.inr (by rintro es ⟨⟩))]
  exact ⟨rfl, rfl⟩

/-- The object for the sum of two cells. -/
def plusObject : OperatorObject :=
  ⟨.plus, oneChar, oneChar, oneChar, 0, 0, 0, .binaryStruct 0 0
    (.cons (.atomic (.char .plus) (.atomic .char) (.atomic .char) (.atomic .char) 0 0 0) .nil)
    (.cons .null .null .nil) [none]⟩

theorem step_plus : step charArithmetic start (.getBinaryOp .plus oneChar oneChar oneChar 0 0 0) =
    ⟨some .plus, [plusObject], []⟩ := by
  rw [step, start, StateT.run, plus_oneChar]
  rfl

theorem operators_do_not_interfere_oneChar :
    (run (step charArithmetic) start [.getBinaryOp .plus oneChar oneChar oneChar 0 0 0,
        .apply 0 [0] [1] [2]]).applications.map (·.result) = [.ok [3]] ∧
      (run (step charArithmetic) start [.getBinaryOp .plus oneChar oneChar oneChar 0 0 0,
        .apply 0 [0] [1] [2]]).Right charArithmetic := by
  refine ⟨?_, operators_do_not_interfere _ ⟨trivial, ?_, trivial⟩⟩
  · rw [run, List.foldl_cons, step_plus]
    rfl
  · rw [step_plus]
    intro o ho
    obtain rfl := Option.some.inj ho
    exact ⟨.inr rfl, .inr fun h => absurd h (by decide)⟩

/-- **Operators interfere**: after the minimum of two structs has been looked for, the sum of two structs
calls a null pointer. -/
theorem operators_interfere : ∃ calls, ¬ (run (step charArithmetic) start calls).Right charArithmetic := by
  refine ⟨[.getBinaryOp .plus oneChar oneChar oneChar 0 0 0,
    .getBinaryOp .minBinary oneChar oneChar oneChar 0 0 0, .apply 0 [0] [1] [2]], fun hright => ?_⟩
  obtain ⟨hnull, hoperation⟩ := minBinary_oneChar (some .plus)
  rw [run, List.foldl_cons, step_plus, List.foldl_cons, step, StateT.run] at hright
  dsimp only at hright
  rw [hnull, hoperation] at hright
  exact (hright ⟨plusObject, [0], [1], [2], .error .nullCall⟩ (List.mem_singleton.mpr rfl)).2 rfl

end OperatorSession

end Rasdaman
