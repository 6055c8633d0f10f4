import Mathlib
import Rasdaman.Catalogmgr.Cast
import Rasdaman.Relcatalogif.StructLayout
import Rasdaman.Tilemgr.CellLoop

/-!
# Catalogmgr/CastOp — the operators that convert cells

`Ops::getUnaryOp` makes an `OpCAST` for the numerical types and an `OpUnaryStruct` for a struct, with an
operator for each element.  For a complex type it returns a null pointer, and so the operator of a struct
has null pointers for its complex elements.  Where there are none (`castable`), the operator converts every
cell; otherwise it converts no cell (`castCell_iff`).
-/

namespace Rasdaman

open Ops Bytes

/-! ## Operators -/

/-- The conversions of the machine that a cast uses: those to and from a `double`, and the one from a
floating-point number to an `r_Long`. -/
structure Doubles where
  Double : Type
  convertToCDouble : AtomicType → Cells → Double
  makeFromCDouble : AtomicType → Double → Cells
  convertToCLong : AtomicType → Cells → BitVec 32
  length_makeFromCDouble : ∀ t v, (makeFromCDouble t v).length = t.size

mutual

/-- A `UnaryOp*` that `getUnaryOp` returns for a cast. -/
inductive UnaryOp
  | null
  | cast (resType : BaseType) (opType : AtomicType) (resOff opOff : ℕ)
  | unaryStruct (elemOps : UnaryElemOps)
  -- an `OpUnaryStruct` that takes for a struct what is none
  | wild

/-- `elemOps`. -/
inductive UnaryElemOps
  | nil
  | cons (elemOp : UnaryOp) (rest : UnaryElemOps)

end

/-- `getNumElems`. -/
def Elements.numElems : Elements → ℕ
  | .last _ _ => 1
  | .cons _ _ rest => rest.numElems + 1

namespace Ops

mutual

/-- `getUnaryOp`, for the operations from `OP_CAST_BEGIN` to `OP_CAST_END`. -/
def getUnaryOp : (resType opType : BaseType) → (resOff opOff : ℕ) → UnaryOp
  | resType, .atomic a, resOff, opOff =>
    if a.typeEnum ≤ AtomicType.float.typeEnum then .cast resType a resOff opOff else .null
  | .struct rs, .struct es, resOff, opOff =>
    if rs.numElems = es.numElems then
      .unaryStruct (unaryElemOps rs es rs.structType.offsets es.structType.offsets resOff opOff)
    else .null
  | .atomic _, .struct _, _, _ => .wild

/-- The loop of the constructor of `OpUnaryStruct`. -/
def unaryElemOps : (rs es : Elements) → (resOffsets opOffsets : List ℕ) → (resOff opOff : ℕ) →
    UnaryElemOps
  | .cons _ r rs, .cons _ t es, resOffsets, opOffsets, resOff, opOff =>
    .cons (getUnaryOp r t (resOff + resOffsets.headD 0) (opOff + opOffsets.headD 0))
      (unaryElemOps rs es resOffsets.tail opOffsets.tail resOff opOff)
  | .last _ r, .last _ t, resOffsets, opOffsets, resOff, opOff =>
    .cons (getUnaryOp r t (resOff + resOffsets.headD 0) (opOff + opOffsets.headD 0)) .nil
  -- the structs have as many elements
  | .cons _ _ _, .last _ _, _, _, _, _ | .last _ _, .cons _ _ _, _, _, _, _ => .cons .wild .nil

end

end Ops

/-- The `convertToCLong` of a numerical type. -/
def Doubles.toCLong (D : Doubles) (opType : AtomicType) (cell : Cells) : BitVec 32 :=
  match opType with
  | .float | .double => D.convertToCLong opType cell
  | _ => opType.convert cell

/-- What `OpCAST` makes of a cell without null values.  `makeFromCLong` of a complex type or a struct writes
nothing. -/
def Doubles.cast (D : Doubles) (resType : BaseType) (opType : AtomicType) (cell : Cells) : Option Cells :=
  match resType with
  | .atomic .float => some (D.makeFromCDouble .float (D.convertToCDouble opType cell))
  | .atomic .double => some (D.makeFromCDouble .double (D.convertToCDouble opType cell))
  | .atomic .complex1 | .atomic .complex2 | .struct _ => none
  | .atomic r => some (r.make (D.toCLong opType cell))

mutual

/-- `operator()`: the result cell afterwards. -/
def UnaryOp.apply (D : Doubles) : UnaryOp → (res op : Cells) → Except Halt Cells
  | .null, _, _ => .error .outside
  | .cast resType opType resOff opOff, res, op => do
    let cell ← readAt op opOff opType.size
    match D.cast resType opType cell with
    | some bytes => writeAt res resOff bytes
    | none => return res
  | .unaryStruct elemOps, res, op => elemOps.applyAll D res op
  | .wild, _, _ => .error .outside

/-- The loop over `elemOps`. -/
def UnaryElemOps.applyAll (D : Doubles) : UnaryElemOps → (res op : Cells) → Except Halt Cells
  | .nil, res, _ => .ok res
  | .cons elemOp rest, res, op => do
    let res ← elemOp.apply D res op
    rest.applyAll D res op

end

/-- The cell that a cast makes, in a new tile. -/
def Ops.castCell (D : Doubles) (resType opType : BaseType) (cell : Cells) : Except Halt Cells :=
  (getUnaryOp resType opType 0 0).apply D (List.replicate resType.getSize 0) cell

/-! ## Types that can be cast -/

mutual

/-- Neither the type nor an element of it is complex. -/
def BaseType.castable : BaseType → Bool
  | .atomic a => a.typeEnum ≤ AtomicType.float.typeEnum
  | .struct es => es.castable

/-- The same for the elements. -/
def Elements.castable : Elements → Bool
  | .last _ t => t.castable
  | .cons _ t rest => t.castable && rest.castable

end

/-- Both types are atomic, or the first one is a struct that is compatible with the second one. -/
def BaseType.Coerces (resType opType : BaseType) : Prop :=
  (∃ r a, resType = .atomic r ∧ opType = .atomic a) ∨ resType.compatibleWith opType = true

namespace BaseType.Coerces

theorem refl (t : BaseType) : t.Coerces t := .inr t.compatibleWith_self

theorem struct {rs es : Elements} (h : (BaseType.struct rs).Coerces (.struct es)) :
    rs.compatibleWith es = true := by
  rcases h with ⟨r, a, hr, -⟩ | h
  · cases hr
  · rwa [BaseType.compatibleWith] at h

theorem of_compatible {r t : BaseType} (h : r.compatibleWith t = true) : r.Coerces t := .inr h

end BaseType.Coerces

theorem Elements.numElems_eq : ∀ {rs es : Elements}, rs.compatibleWith es = true →
    rs.numElems = es.numElems
  | .last _ _, .cons _ _ _, h => by cases h
  | .cons _ _ _, .last _ _, h => by cases h
  | .last _ _, .last _ _, _ => rfl
  | .cons _ _ _, .cons _ _ _, h => by
    rw [Elements.compatibleWith, Bool.and_eq_true] at h
    rw [numElems, numElems, numElems_eq h.2]

/-- The elements at the offsets given end before `size`. -/
def Elements.Inside : Elements → (offsets : List ℕ) → (size : ℕ) → Prop
  | .last _ t, offsets, size => offsets.headD 0 + t.getSize ≤ size
  | .cons _ t rest, offsets, size =>
    offsets.headD 0 + t.getSize ≤ size ∧ rest.Inside offsets.tail size

theorem Elements.inside_of_mem : ∀ (es : Elements) {l : List StructElement} {size : ℕ} {pos : ℕ},
    l = es.aligned pos → (∀ e ∈ l, e.offset + e.type.size ≤ size) →
      es.Inside (l.map StructElement.offset) size
  | .last n t, l, size, pos => by
    rintro rfl h
    rw [Elements.aligned] at h ⊢
    exact h _ (List.mem_singleton_self _)
  | .cons n t rest, l, size, pos => by
    rintro rfl h
    rw [Elements.aligned] at h ⊢
    obtain ⟨hfirst, hrest⟩ := List.forall_mem_cons.mp h
    exact ⟨hfirst, rest.inside_of_mem rfl hrest⟩

/-- The elements of a struct lie in its cells. -/
theorem Elements.inside_structType (es : Elements) :
    es.Inside es.structType.offsets (BaseType.struct es).getSize := by
  have hmem : ∀ e ∈ es.structType.elements, e.offset + e.type.size ≤ es.structType.size :=
    fun e he => (es.structType_ordered.1 e he).2
  have hsize : (BaseType.struct es).getSize = es.structType.size := by
    rw [BaseType.getSize, BaseType.info, Elements.structType]
  rw [hsize, StructType.offsets]
  cases es with
  | last n t =>
    rw [structType_last] at hmem ⊢
    exact hmem _ (List.mem_singleton_self _)
  | cons n t rest =>
    rw [structType_cons] at hmem ⊢
    obtain ⟨hfirst, hrest⟩ := List.forall_mem_cons.mp hmem
    exact ⟨hfirst, rest.inside_of_mem rfl hrest⟩

/-! ## What is converted -/

theorem length_writeAt {mem bytes mem' : Cells} {addr : ℤ} (h : writeAt mem addr bytes = .ok mem') :
    mem'.length = mem.length := by
  rw [writeAt] at h
  split at h
  · next hin =>
    obtain rfl := Except.ok.inj h
    exact RowMajor.length_overwrite (by omega)
  · cases h

variable {D : Doubles}

/-- What `OpCAST` makes has the size of the result type. -/
theorem Doubles.length_cast {r : BaseType} {a : AtomicType} {cell bytes : Cells}
    (h : D.cast r a cell = some bytes) : bytes.length = r.getSize := by
  rcases r with r | rs
  · cases r <;> simp only [Doubles.cast, Option.some.injEq, reduceCtorEq] at h <;> subst h <;>
      simp [BaseType.getSize, BaseType.info, AtomicType.size, AtomicType.make,
        D.length_makeFromCDouble]
  · cases h

mutual

/-- **An operator keeps the length of the result cell.** -/
theorem UnaryOp.length_apply : ∀ (o : UnaryOp) {res op res' : Cells}, o.apply D res op = .ok res' →
    res'.length = res.length
  | .null, _, _, _, h => by cases h
  | .wild, _, _, _, h => by cases h
  | .cast r a resOff opOff, res, op, res', h => by
    rw [UnaryOp.apply] at h
    obtain ⟨cell, -, h⟩ := ExceptFold.bind_eq_ok h
    cases hcast : D.cast r a cell with
    | none =>
      rw [hcast] at h
      rw [Except.ok.inj h]
    | some bytes =>
      rw [hcast] at h
      exact length_writeAt h
  | .unaryStruct elemOps, _, _, _, h => by
    rw [UnaryOp.apply] at h
    exact elemOps.length_applyAll h

theorem UnaryElemOps.length_applyAll : ∀ (os : UnaryElemOps) {res op res' : Cells},
    os.applyAll D res op = .ok res' → res'.length = res.length
  | .nil, _, _, _, h => by rw [Except.ok.inj h]
  | .cons o rest, res, op, res', h => by
    rw [UnaryElemOps.applyAll] at h
    obtain ⟨res₁, h₁, h⟩ := ExceptFold.bind_eq_ok h
    rw [rest.length_applyAll h, o.length_apply h₁]

end

mutual

/-- **A type that can be cast is converted**, where the cells are large enough. -/
theorem BaseType.apply_getUnaryOp : ∀ (t r : BaseType) {resOff opOff : ℕ} {res op : Cells},
    r.Coerces t → t.castable = true → resOff + r.getSize ≤ res.length →
      opOff + t.getSize ≤ op.length → ∃ res', (getUnaryOp r t resOff opOff).apply D res op = .ok res'
  | .atomic a, r, resOff, opOff, res, op, _, ha, hres, hop => by
    rw [BaseType.castable, decide_eq_true_eq] at ha
    have hread : readAt op opOff a.size = .ok ((op.drop opOff).take a.size) := by
      rw [readAt, if_pos ⟨Int.natCast_nonneg _, by exact_mod_cast hop⟩, Int.toNat_natCast]
    rw [getUnaryOp, if_pos ha, UnaryOp.apply, hread]
    simp only [bind, Except.bind]
    cases hcast : D.cast r a ((op.drop opOff).take a.size) with
    | none => exact ⟨res, rfl⟩
    | some bytes =>
      have hfit : resOff + bytes.length ≤ res.length := by rwa [D.length_cast hcast]
      exact ⟨_, if_pos ⟨Int.natCast_nonneg _, by exact_mod_cast hfit⟩⟩
  | .struct es, .struct rs, resOff, opOff, res, op, h, ha, hres, hop => by
    rw [BaseType.castable] at ha
    rw [getUnaryOp, if_pos (Elements.numElems_eq h.struct), UnaryOp.apply]
    exact es.applyAll_unaryElemOps rs h.struct ha rs.inside_structType es.inside_structType hres hop
  | .struct es, .atomic r, resOff, opOff, res, op, h, ha, hres, hop => by
    rcases h with ⟨_, _, -, h⟩ | h <;> cases h

theorem Elements.applyAll_unaryElemOps : ∀ (es rs : Elements) {resOffsets opOffsets : List ℕ}
    {resSize opSize resOff opOff : ℕ} {res op : Cells}, rs.compatibleWith es = true →
      es.castable = true → rs.Inside resOffsets resSize → es.Inside opOffsets opSize →
        resOff + resSize ≤ res.length → opOff + opSize ≤ op.length →
          ∃ res', (unaryElemOps rs es resOffsets opOffsets resOff opOff).applyAll D res op = .ok res'
  | .last _ t, .last _ r, resOffsets, opOffsets, resSize, opSize, resOff, opOff, res, op, h, ha, hrs, hes,
      hres, hop => by
    rw [Elements.compatibleWith] at h
    rw [Elements.castable] at ha
    rw [Elements.Inside] at hrs hes
    obtain ⟨res', hres'⟩ := t.apply_getUnaryOp r (.of_compatible h) ha
      (show resOff + resOffsets.headD 0 + r.getSize ≤ res.length by omega)
      (show opOff + opOffsets.headD 0 + t.getSize ≤ op.length by omega)
    exact ⟨res', by rw [unaryElemOps, UnaryElemOps.applyAll, hres']; rfl⟩
  | .cons _ t es, .cons _ r rs, resOffsets, opOffsets, resSize, opSize, resOff, opOff, res, op, h, ha, hrs,
      hes, hres, hop => by
    rw [Elements.compatibleWith, Bool.and_eq_true] at h
    rw [Elements.castable, Bool.and_eq_true] at ha
    rw [Elements.Inside] at hrs hes
    obtain ⟨res', hres'⟩ := t.apply_getUnaryOp r (.of_compatible h.1) ha.1
      (show resOff + resOffsets.headD 0 + r.getSize ≤ res.length by omega)
      (show opOff + opOffsets.headD 0 + t.getSize ≤ op.length by omega)
    have hlen := UnaryOp.length_apply _ hres'
    obtain ⟨res'', hres''⟩ := es.applyAll_unaryElemOps rs h.2 ha.2 hrs.2 hes.2
      (show resOff + resSize ≤ res'.length by omega) hop
    refine ⟨res'', ?_⟩
    rw [unaryElemOps, UnaryElemOps.applyAll, hres']
    exact hres''
  | .last _ _, .cons _ _ _, _, _, _, _, _, _, _, _, h, _, _, _, _, _ => by cases h
  | .cons _ _ _, .last _ _, _, _, _, _, _, _, _, _, h, _, _, _, _, _ => by cases h

end

mutual

/-- **What is converted can be cast**: a null pointer converts nothing. -/
theorem BaseType.castable_of_apply : ∀ (t r : BaseType) {resOff opOff : ℕ} {res op res' : Cells},
    r.Coerces t → (getUnaryOp r t resOff opOff).apply D res op = .ok res' → t.castable = true
  | .atomic a, r, resOff, opOff, res, op, res', _, happly => by
    rw [getUnaryOp] at happly
    rw [BaseType.castable, decide_eq_true_eq]
    by_contra hgt
    rw [if_neg hgt, UnaryOp.apply] at happly
    cases happly
  | .struct es, .struct rs, resOff, opOff, res, op, res', h, happly => by
    rw [getUnaryOp, if_pos (Elements.numElems_eq h.struct), UnaryOp.apply] at happly
    rw [BaseType.castable]
    exact es.castable_of_applyAll rs h.struct happly
  | .struct es, .atomic r, _, _, _, _, _, h, _ => by
    rcases h with ⟨_, _, -, h⟩ | h <;> cases h

theorem Elements.castable_of_applyAll : ∀ (es rs : Elements) {resOffsets opOffsets : List ℕ}
    {resOff opOff : ℕ} {res op res' : Cells}, rs.compatibleWith es = true →
      (unaryElemOps rs es resOffsets opOffsets resOff opOff).applyAll D res op = .ok res' →
        es.castable = true
  | .last _ t, .last _ r, _, _, _, _, _, _, _, h, happly => by
    rw [Elements.compatibleWith] at h
    rw [unaryElemOps, UnaryElemOps.applyAll] at happly
    obtain ⟨_, hfirst, -⟩ := ExceptFold.bind_eq_ok happly
    rw [Elements.castable]
    exact t.castable_of_apply r (.of_compatible h) hfirst
  | .cons _ t es, .cons _ r rs, _, _, _, _, _, _, _, h, happly => by
    rw [Elements.compatibleWith, Bool.and_eq_true] at h
    rw [unaryElemOps, UnaryElemOps.applyAll] at happly
    obtain ⟨_, hfirst, hrest⟩ := ExceptFold.bind_eq_ok happly
    rw [Elements.castable, t.castable_of_apply r (.of_compatible h.1) hfirst, es.castable_of_applyAll rs h.2 hrest,
      Bool.and_true]
  | .last _ _, .cons _ _ _, _, _, _, _, _, _, _, h, _ => by cases h
  | .cons _ _ _, .last _ _, _, _, _, _, _, _, _, h, _ => by cases h

end

namespace AtomicType

variable {a : AtomicType} {c c' : Cells}

end AtomicType

section CastCell

variable {r t : BaseType} {cell cell' : Cells}

/-- **Cells are cast exactly if their type is not complex and has no complex element.** -/
theorem castCell_iff (h : r.Coerces t) (hcell : cell.length = t.getSize) :
    (∃ cell', castCell D r t cell = .ok cell') ↔ t.castable = true := by
  refine ⟨fun ⟨cell', happly⟩ => t.castable_of_apply r h happly, fun ha => ?_⟩
  exact t.apply_getUnaryOp r h ha (by simp) (by rw [Nat.zero_add, hcell])

theorem length_castCell (h : castCell D r t cell = .ok cell') : cell'.length = r.getSize :=
  (UnaryOp.length_apply _ h).trans List.length_replicate

end CastCell

end Rasdaman
