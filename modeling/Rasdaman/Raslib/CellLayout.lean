import Rasdaman.Raslib.Type
import Rasdaman.Relcatalogif.StructType
import Mathlib.Algebra.Order.Group.Nat
import Mathlib.Data.Nat.Init

/-!
# Raslib/CellLayout — where server and client find the values of a struct cell

The server aligns the elements of a struct, the client puts them one after the other.  `layouts_agree_iff`
says when both find every value of every cell at the same place: when packing leaves each element where the
server aligns it, and no struct has a size that the server rounds up (`Tight`).
-/

namespace Rasdaman

/-! ## The client's type -/

/-- The primitive type of the same name. -/
def AtomicType.primitiveId : AtomicType → PrimitiveId
  | octet => .octet
  | ushort => .ushort
  | short => .short
  | ulong => .ulong
  | long => .long
  | bool => .bool
  | char => .char
  | float => .float
  | double => .double
  | complex1 => .complexType1
  | complex2 => .complexType2

mutual

/-- The type that the client builds for a base type found at a local offset. -/
def BaseType.client : BaseType → (localOffset : ℕ) → RBaseType
  | .atomic a, _ => .primitive a.primitiveId
  | .struct es, localOffset => structureType (es.client localOffset) localOffset

/-- The attributes that the client builds for the elements, before it places them. -/
def Elements.client : Elements → (localOffset : ℕ) → RAttributes
  | .last n t, localOffset => .last n (t.client localOffset) 0 0
  | .cons n t rest, localOffset =>
    .cons n (t.client localOffset) 0 0 (rest.client (localOffset + (t.client localOffset).size))

end

/-! ## Places -/

/-- The offsets of the elements. -/
def StructType.offsets (s : StructType) : List ℕ := s.elements.map StructElement.offset

/-- The offsets of the attributes. -/
def RAttributes.offsets : RAttributes → List ℕ
  | .last _ _ localOffset _ => [localOffset]
  | .cons _ _ localOffset _ rest => localOffset :: rest.offsets

/-- The offsets of the attributes of a structure. -/
def RBaseType.offsets : RBaseType → List ℕ
  | .primitive _ => []
  | .structure attributes _ => attributes.offsets

mutual

/-- Where the server puts the atomic values of a cell that starts at `base`. -/
def BaseType.places : BaseType → (base : ℕ) → List (ℕ × PrimitiveId)
  | .atomic a, base => [(base, a.primitiveId)]
  | .struct es, base => es.places es.structType.offsets base

/-- The same for elements at the offsets given. -/
def Elements.places : Elements → (offsets : List ℕ) → (base : ℕ) → List (ℕ × PrimitiveId)
  | .last _ t, offsets, base => t.places (base + offsets.headD 0)
  | .cons _ t rest, offsets, base =>
    t.places (base + offsets.headD 0) ++ rest.places offsets.tail base

end

mutual

/-- Where `convertToLittleEndian` and `convertToBigEndian` turn values of a cell that starts at `base`. -/
def RBaseType.converted : RBaseType → (base : ℕ) → List (ℕ × PrimitiveId)
  | .primitive typeId, base => [(base, typeId)]
  | .structure attributes _, base => attributes.converted base

/-- The same for the attributes: `convertToLittleEndian(&cells[base + offset], 1)`. -/
def RAttributes.converted : RAttributes → (base : ℕ) → List (ℕ × PrimitiveId)
  | .last _ type localOffset _, base => type.converted (base + localOffset)
  | .cons _ type localOffset _ rest, base =>
    type.converted (base + localOffset) ++ rest.converted base

end

mutual

/-- Where attributes of a cell that starts at `base` are read: the global offset of the attribute, for a
structure those of its attributes. -/
def RBaseType.accessed : RBaseType → (globalOffset base : ℕ) → List (ℕ × PrimitiveId)
  | .primitive typeId, globalOffset, base => [(base + globalOffset, typeId)]
  | .structure attributes _, _, base => attributes.accessed base

/-- The same for the attributes. -/
def RAttributes.accessed : RAttributes → (base : ℕ) → List (ℕ × PrimitiveId)
  | .last _ type _ globalOffset, base => type.accessed globalOffset base
  | .cons _ type _ globalOffset rest, base => type.accessed globalOffset base ++ rest.accessed base

end

mutual

/-- Server and client agree on the size of a type, and on the offsets in it, at every level. -/
def BaseType.SameOffsets : BaseType → Prop
  | .atomic a => a.size = a.primitiveId.size
  | .struct es => es.structType.offsets = ((BaseType.struct es).client 0).offsets ∧
      es.structType.size = ((BaseType.struct es).client 0).size ∧ es.SameOffsets

/-- They agree on the types of the elements. -/
def Elements.SameOffsets : Elements → Prop
  | .last _ t => t.SameOffsets
  | .cons _ t rest => t.SameOffsets ∧ rest.SameOffsets

end

/-- **Server and client lay out the cells of a type alike**: they agree on offsets and sizes, and the client
turns and reads the values of each cell where the server has put them. -/
structure LayoutsAgree (t : BaseType) : Prop where
  same : t.SameOffsets
  converted : ∀ cell : ℕ, (t.client 0).converted (cell * (t.client 0).size) =
    t.places (cell * t.getSize)
  accessed : ∀ cell : ℕ, (t.client 0).accessed 0 (cell * (t.client 0).size) =
    t.places (cell * t.getSize)

/-! ## When packing is aligned -/

mutual

/-- The alignment that an element of a type asks for. -/
def BaseType.alignOf : BaseType → ℕ
  | .atomic a => if a.size ≥ 4 then 4 else a.size
  | .struct (.last _ _) => 1
  | .struct (.cons _ _ rest) => rest.alignOf

/-- The greatest alignment that one of the elements asks for. -/
def Elements.alignOf : Elements → ℕ
  | .last _ t => t.alignOf
  | .cons _ t rest => max t.alignOf rest.alignOf

end

mutual

/-- The size without padding. -/
def BaseType.packedSize : BaseType → ℕ
  | .atomic a => a.size
  | .struct es => es.packedSize

/-- The size of the elements without padding. -/
def Elements.packedSize : Elements → ℕ
  | .last _ t => t.packedSize
  | .cons _ t rest => t.packedSize + rest.packedSize

end

/-- What the size of a struct with such an element is rounded up to. -/
def BaseType.sizeAlign : BaseType → ℕ
  | .atomic a => if a.size = 4 then 4 else if a.size = 2 then 2 else 1
  | .struct _ => 4

/-- What the size of a struct is rounded up to. -/
def Elements.sizeAlign : Elements → ℕ
  | .last _ t => t.sizeAlign
  | .cons _ t rest => max t.sizeAlign rest.sizeAlign

mutual

/-- Packing needs no padding: each element falls on a multiple of its alignment, the size is a multiple of
what the server rounds it up to, and so at every level. -/
def BaseType.Tight : BaseType → Prop
  | .atomic _ => True
  | .struct es => es.TightAt 0 ∧ es.sizeAlign ∣ es.packedSize

/-- The same for elements that are packed from `pos` on. -/
def Elements.TightAt : Elements → (pos : ℕ) → Prop
  | .last _ t, pos => t.Tight ∧ t.alignOf ∣ pos
  | .cons _ t rest, pos => t.Tight ∧ t.alignOf ∣ pos ∧ rest.TightAt (pos + t.packedSize)

end

/-! ## The client packs -/

theorem primitiveId_size (a : AtomicType) : a.primitiveId.size = a.size := by cases a <;> rfl

/-- The offsets of the elements when they are packed from `pos` on. -/
def Elements.packedOffsets : Elements → (pos : ℕ) → List ℕ
  | .last _ _, pos => [pos]
  | .cons _ t rest, pos => pos :: rest.packedOffsets (pos + t.packedSize)

mutual

/-- The places of the atomic values of a packed cell that starts at `base`. -/
def BaseType.packedPlaces : BaseType → (base : ℕ) → List (ℕ × PrimitiveId)
  | .atomic a, base => [(base, a.primitiveId)]
  | .struct es, base => es.packedPlaces base

/-- The same for elements that are packed from `base` on. -/
def Elements.packedPlaces : Elements → (base : ℕ) → List (ℕ × PrimitiveId)
  | .last _ t, base => t.packedPlaces base
  | .cons _ t rest, base => t.packedPlaces base ++ rest.packedPlaces (base + t.packedSize)

end

mutual

theorem BaseType.client_size : ∀ (t : BaseType) (localOffset : ℕ),
    (t.client localOffset).size = t.packedSize
  | .atomic a, _ => by
    rw [BaseType.client, BaseType.packedSize]
    exact primitiveId_size a
  | .struct es, localOffset => by
    have h := es.place_client_size localOffset localOffset 0
    rw [Nat.zero_add] at h
    rw [BaseType.client, BaseType.packedSize]
    exact h

theorem Elements.place_client_size : ∀ (es : Elements) (localOffset offset typeSize : ℕ),
    ((es.client localOffset).place offset typeSize).2 = typeSize + es.packedSize
  | .last n t, localOffset, offset, typeSize => by
    rw [Elements.client, RAttributes.place, Elements.packedSize, t.client_size]
  | .cons n t rest, localOffset, offset, typeSize => by
    rw [Elements.client, RAttributes.place, Elements.packedSize, rest.place_client_size,
      t.client_size, Nat.add_assoc]

end

theorem Elements.place_client_offsets : ∀ (es : Elements) (localOffset offset typeSize : ℕ),
    ((es.client localOffset).place offset typeSize).1.offsets = es.packedOffsets typeSize
  | .last n t, localOffset, offset, typeSize => by
    rw [Elements.client, RAttributes.place, RAttributes.offsets, Elements.packedOffsets]
  | .cons n t rest, localOffset, offset, typeSize => by
    rw [Elements.client, RAttributes.place, RAttributes.offsets, Elements.packedOffsets,
      rest.place_client_offsets, t.client_size]

mutual

theorem BaseType.client_converted : ∀ (t : BaseType) (localOffset base : ℕ),
    (t.client localOffset).converted base = t.packedPlaces base
  | .atomic a, _, _ => by rw [BaseType.client, RBaseType.converted, BaseType.packedPlaces]
  | .struct es, localOffset, base => by
    rw [BaseType.client, structureType, RBaseType.converted, BaseType.packedPlaces,
      es.place_client_converted, Nat.add_zero]

theorem Elements.place_client_converted : ∀ (es : Elements) (localOffset offset typeSize base : ℕ),
    ((es.client localOffset).place offset typeSize).1.converted base =
      es.packedPlaces (base + typeSize)
  | .last n t, localOffset, offset, typeSize, base => by
    rw [Elements.client, RAttributes.place, RAttributes.converted, Elements.packedPlaces,
      t.client_converted]
  | .cons n t rest, localOffset, offset, typeSize, base => by
    rw [Elements.client, RAttributes.place, RAttributes.converted, Elements.packedPlaces,
      t.client_converted, rest.place_client_converted, t.client_size, Nat.add_assoc]

end

mutual

/-- The global offsets are those of the whole cell. -/
theorem BaseType.client_accessed : ∀ (t : BaseType) (localOffset base : ℕ),
    (t.client localOffset).accessed localOffset base = t.packedPlaces (base + localOffset)
  | .atomic a, _, _ => by rw [BaseType.client, RBaseType.accessed, BaseType.packedPlaces]
  | .struct es, localOffset, base => by
    have h := es.place_client_accessed localOffset 0 base
    rw [Nat.zero_add] at h
    rw [BaseType.client, structureType, RBaseType.accessed, BaseType.packedPlaces]
    exact h

theorem Elements.place_client_accessed : ∀ (es : Elements) (offset typeSize base : ℕ),
    ((es.client (typeSize + offset)).place offset typeSize).1.accessed base =
      es.packedPlaces (base + (typeSize + offset))
  | .last n t, offset, typeSize, base => by
    rw [Elements.client, RAttributes.place, RAttributes.accessed, Elements.packedPlaces,
      t.client_accessed]
  | .cons n t rest, offset, typeSize, base => by
    have hnext : typeSize + offset + t.packedSize = typeSize + t.packedSize + offset := by omega
    have hplace : base + (typeSize + t.packedSize + offset) =
        base + (typeSize + offset) + t.packedSize := by omega
    rw [Elements.client, RAttributes.place, RAttributes.accessed, Elements.packedPlaces,
      t.client_accessed, t.client_size, hnext, rest.place_client_accessed, hplace]

end

/-! ## The server aligns -/

theorem alignUp_pos {x a : ℕ} (ha : 0 < a) : 0 < alignUp x a := Nat.mul_pos (Nat.succ_pos _) ha

theorem alignUp_eq_self_iff {x a : ℕ} (hx : 0 < x) : alignUp x a = x ↔ a ∣ x := by
  constructor
  · intro h
    rw [← h]
    exact Nat.dvd_mul_left a _
  · rintro ⟨k, rfl⟩
    obtain ⟨m, rfl⟩ := Nat.exists_eq_succ_of_ne_zero (Nat.pos_of_mul_pos_left hx).ne'
    have hdiv : (a * (m + 1) - 1) / a = m := by
      refine Nat.div_eq_of_lt_le ?_ ?_
      · rw [Nat.mul_add_one, Nat.mul_comm m]
        have : 0 < a := Nat.pos_of_mul_pos_right hx
        omega
      · rw [Nat.mul_comm (m + 1)]
        exact Nat.sub_lt hx Nat.one_pos
    rw [alignUp, Nat.succ_eq_add_one, hdiv, Nat.mul_comm]

theorem alignUp_one {x : ℕ} (hx : 0 < x) : alignUp x 1 = x :=
  (alignUp_eq_self_iff hx).mpr (Nat.one_dvd x)

namespace StructType

theorem alignSize_pos (es : List StructElement) {k : ℕ} (hk : 0 < k) : 0 < alignSize es k := by
  induction es generalizing k with
  | nil => exact hk
  | cons e es ih =>
    rw [alignSize]
    split
    · decide
    · split
      · exact ih (by decide)
      · exact ih hk

theorem addElement_size (s : StructType) (n : List Char) (i : TypeInfo) :
    (s.addElement n i).size =
      alignUp (endOf (s.addElement n i).elements) (alignSize (s.addElement n i).elements 1) := rfl

end StructType

theorem Elements.addTo_size : ∀ (es : Elements) (s : StructType), (es.addTo s).size =
    alignUp (StructType.endOf (es.addTo s).elements) (StructType.alignSize (es.addTo s).elements 1)
  | .last n t, s => by
    rw [Elements.addTo]
    exact s.addElement_size n t.info
  | .cons n t rest, s => by
    rw [Elements.addTo]
    exact rest.addTo_size _

theorem BaseType.getSize_pos (t : BaseType) : 0 < t.getSize := by
  cases t with
  | atomic a =>
    rw [getSize, info]
    exact a.size_pos
  | struct es =>
    rw [getSize, info]
    exact (es.addTo_size _).symm ▸ alignUp_pos (StructType.alignSize_pos _ (by decide))

mutual

theorem BaseType.alignOf_pos : ∀ t : BaseType, 0 < t.alignOf
  | .atomic a => by cases a <;> decide
  | .struct (.last _ _) => by rw [BaseType.alignOf]; decide
  | .struct (.cons _ _ rest) => by
    rw [BaseType.alignOf]
    exact rest.alignOf_pos

theorem Elements.alignOf_pos : ∀ es : Elements, 0 < es.alignOf
  | .last _ t => by
    rw [Elements.alignOf]
    exact t.alignOf_pos
  | .cons _ t rest => by
    rw [Elements.alignOf]
    exact lt_max_of_lt_left t.alignOf_pos

end

/-! ### Elements after the first -/

/-- The elements that follow one that ends at `e`, as the server places them. -/
def Elements.aligned : Elements → (e : ℕ) → List StructElement
  | .last n t, e => [⟨t.info, n, alignUp e t.alignOf⟩]
  | .cons n t rest, e =>
    ⟨t.info, n, alignUp e t.alignOf⟩ :: rest.aligned (alignUp e t.alignOf + t.getSize)

/-- Where they end. -/
def Elements.alignedEnd : Elements → (e : ℕ) → ℕ
  | .last _ t, e => alignUp e t.alignOf + t.getSize
  | .cons _ t rest, e => rest.alignedEnd (alignUp e t.alignOf + t.getSize)

/-- `addElement` after the first element. -/
theorem StructType.addElement_cons {s : StructType} (hs : s.elements ≠ []) (hend : 0 < endOf s.elements)
    (halign : 0 < s.align) (n : List Char) {t : BaseType}
    (hinfo : t.info.isStruct = true → t.info.alignment = t.alignOf) :
    (s.addElement n t.info).elements =
        s.elements ++ [⟨t.info, n, alignUp (endOf s.elements) t.alignOf⟩] ∧
      (s.addElement n t.info).align = max s.align t.alignOf := by
  rw [addElement, if_neg hs]
  cases t with
  | struct es =>
    rw [if_pos (by rw [BaseType.info]), hinfo (by rw [BaseType.info])]
    exact ⟨rfl, rfl⟩
  | atomic a =>
    have hone := alignUp_one hend
    have hmax : max s.align 1 = s.align := max_eq_left halign
    cases a <;> simp [BaseType.info, BaseType.alignOf, AtomicType.size, calcSize, hone, hmax]

theorem StructType.endOf_append (es : List StructElement) (e : StructElement) :
    endOf (es ++ [e]) = e.offset + e.type.size := by
  rw [endOf, List.getLast?_append]
  simp

theorem StructType.addElement_first (n : List Char) (i : TypeInfo) :
    (new.addElement n i).elements = [⟨i, n, 0⟩] ∧ (new.addElement n i).align = 1 := ⟨rfl, rfl⟩

mutual

theorem BaseType.info_alignment : ∀ t : BaseType, t.info.isStruct = true →
    t.info.alignment = t.alignOf
  | .atomic a, h => by
    rw [BaseType.info] at h
    exact absurd h Bool.false_ne_true
  | .struct (.last n t), _ => by
    rw [BaseType.info, Elements.addTo, BaseType.alignOf]
    exact (StructType.addElement_first n t.info).2
  | .struct (.cons n t rest), _ => by
    obtain ⟨helems, halign⟩ := StructType.addElement_first n t.info
    have hend : 0 < StructType.endOf (StructType.new.addElement n t.info).elements := by
      rw [helems]
      exact Nat.lt_add_left _ t.getSize_pos
    rw [BaseType.info, Elements.addTo, BaseType.alignOf]
    have h := (rest.addTo_spec (StructType.new.addElement n t.info) (by rw [helems]; simp) hend
      (by rw [halign]; decide)).2
    rw [halign] at h
    exact h.trans (max_eq_right rest.alignOf_pos)

/-- **Elements added to a struct that has some.** -/
theorem Elements.addTo_spec : ∀ (es : Elements) (s : StructType), s.elements ≠ [] →
    0 < StructType.endOf s.elements → 0 < s.align →
      (es.addTo s).elements = s.elements ++ es.aligned (StructType.endOf s.elements) ∧
        (es.addTo s).align = max s.align es.alignOf
  | .last n t, s, hs, hend, halign => by
    rw [Elements.addTo, Elements.aligned, Elements.alignOf]
    exact s.addElement_cons hs hend halign n t.info_alignment
  | .cons n t rest, s, hs, hend, halign => by
    obtain ⟨helems, halign'⟩ := s.addElement_cons hs hend halign n t.info_alignment
    have hend' : StructType.endOf (s.addElement n t.info).elements =
        alignUp (StructType.endOf s.elements) t.alignOf + t.getSize := by
      rw [helems, StructType.endOf_append, BaseType.getSize]
    obtain ⟨hrest, hmax⟩ := rest.addTo_spec (s.addElement n t.info) (by rw [helems]; simp)
      (by rw [hend']; exact Nat.lt_add_left _ t.getSize_pos)
      (by rw [halign']; exact lt_max_of_lt_left halign)
    rw [Elements.addTo, Elements.aligned, Elements.alignOf]
    refine ⟨?_, by rw [hmax, halign', max_assoc]⟩
    rw [hrest, hend', helems, List.append_assoc, List.singleton_append]

end

/-- The elements of a struct after its first one. -/
theorem Elements.structType_cons (n : List Char) (t : BaseType) (rest : Elements) :
    (Elements.cons n t rest).structType.elements = ⟨t.info, n, 0⟩ :: rest.aligned t.getSize := by
  obtain ⟨helems, halign⟩ := StructType.addElement_first n t.info
  have hend : StructType.endOf (StructType.new.addElement n t.info).elements = t.getSize := by
    rw [helems]
    exact Nat.zero_add _
  rw [structType, addTo, (rest.addTo_spec _ (by rw [helems]; simp)
    (by rw [hend]; exact t.getSize_pos) (by rw [halign]; decide)).1, hend, helems,
    List.singleton_append]

theorem Elements.structType_last (n : List Char) (t : BaseType) :
    (Elements.last n t).structType.elements = [⟨t.info, n, 0⟩] := by
  rw [structType, addTo]
  exact (StructType.addElement_first n t.info).1

theorem Elements.endOf_append_aligned : ∀ (es : Elements) (e : ℕ) (l : List StructElement),
    StructType.endOf (l ++ es.aligned e) = es.alignedEnd e
  | .last n t, e, l => by
    rw [Elements.aligned, StructType.endOf_append, Elements.alignedEnd, BaseType.getSize]
  | .cons n t rest, e, l => by
    rw [Elements.aligned, Elements.alignedEnd, ← List.singleton_append, ← List.append_assoc,
      rest.endOf_append_aligned]

theorem BaseType.sizeAlign_mem : ∀ t : BaseType, 1 ≤ t.sizeAlign ∧ t.sizeAlign ≤ 4
  | .atomic a => by cases a <;> decide
  | .struct _ => by rw [BaseType.sizeAlign]; decide

theorem Elements.sizeAlign_mem : ∀ es : Elements, 1 ≤ es.sizeAlign ∧ es.sizeAlign ≤ 4
  | .last _ t => by
    rw [Elements.sizeAlign]
    exact t.sizeAlign_mem
  | .cons _ t rest => by
    have ht := t.sizeAlign_mem
    have hrest := rest.sizeAlign_mem
    rw [Elements.sizeAlign]
    omega

/-- What `calcSize` rounds the size up to is the greatest that one of the elements asks for. -/
theorem StructType.alignSize_cons {es : List StructElement} {m : ℕ} (hm : 1 ≤ m ∧ m ≤ 4)
    (h : ∀ k, 1 ≤ k → k ≤ 2 → alignSize es k = max k m) (t : BaseType) (n : List Char) (offset : ℕ)
    {k : ℕ} (hk : 1 ≤ k) (hk' : k ≤ 2) :
    alignSize (⟨t.info, n, offset⟩ :: es) k = max k (max t.sizeAlign m) := by
  have h2 := h 2 (by decide) le_rfl
  have hkm := h k hk hk'
  cases t with
  | struct ts =>
    rw [alignSize, if_pos (.inr (by rw [BaseType.info])), BaseType.sizeAlign]
    omega
  | atomic a =>
    cases a <;> simp [alignSize, BaseType.info, BaseType.sizeAlign, AtomicType.size, h2, hkm] <;> omega

theorem StructType.alignSize_singleton (t : BaseType) (n : List Char) (offset : ℕ) {k : ℕ}
    (hk : 1 ≤ k) (hk' : k ≤ 2) : alignSize [⟨t.info, n, offset⟩] k = max k t.sizeAlign := by
  have hnil : ∀ k, 1 ≤ k → k ≤ 2 → alignSize [] k = max k 1 := fun k hk _ => (max_eq_left hk).symm
  have ht := t.sizeAlign_mem
  rw [alignSize_cons (by decide) hnil t n offset hk hk']
  omega

theorem Elements.alignSize_aligned : ∀ (es : Elements) (e : ℕ) {k : ℕ}, 1 ≤ k → k ≤ 2 →
    StructType.alignSize (es.aligned e) k = max k es.sizeAlign
  | .last n t, e, k, hk, hk' => by
    rw [Elements.aligned, Elements.sizeAlign]
    exact StructType.alignSize_singleton t n _ hk hk'
  | .cons n t rest, e, k, hk, hk' => by
    rw [Elements.aligned, Elements.sizeAlign]
    exact StructType.alignSize_cons rest.sizeAlign_mem (fun k hk hk' => rest.alignSize_aligned _ hk hk')
      t n _ hk hk'

/-- The size of a struct with one element. -/
theorem Elements.size_last (n : List Char) (t : BaseType) :
    (Elements.last n t).structType.size = alignUp t.getSize t.sizeAlign := by
  have ht := t.sizeAlign_mem
  have halign := StructType.alignSize_singleton t n 0 le_rfl (by decide)
  have hsize : StructType.alignSize [⟨t.info, n, 0⟩] 1 = t.sizeAlign := by omega
  have helems := structType_last n t
  rw [structType] at helems ⊢
  rw [addTo_size, helems, hsize]
  exact congrArg (alignUp · _) (Nat.zero_add _)

/-- The size of a struct with more elements. -/
theorem Elements.size_cons (n : List Char) (t : BaseType) (rest : Elements) :
    (Elements.cons n t rest).structType.size =
      alignUp (rest.alignedEnd t.getSize) (Elements.cons n t rest).sizeAlign := by
  have ht := t.sizeAlign_mem
  have halign := StructType.alignSize_cons rest.sizeAlign_mem
    (fun k hk hk' => rest.alignSize_aligned t.getSize hk hk') t n 0 le_rfl (by decide)
  have hsize : StructType.alignSize (⟨t.info, n, 0⟩ :: rest.aligned t.getSize) 1 =
      (Elements.cons n t rest).sizeAlign := by
    rw [Elements.sizeAlign]
    omega
  have helems := structType_cons n t rest
  rw [structType] at helems ⊢
  rw [addTo_size, helems, hsize, ← List.singleton_append, rest.endOf_append_aligned]

/-! ## Agreement -/

/-- Where they agree, the size on the server is that without padding. -/
theorem BaseType.size_of_same : ∀ {t : BaseType}, t.SameOffsets → t.getSize = t.packedSize
  | .atomic _, _ => by rw [BaseType.getSize, BaseType.info, BaseType.packedSize]
  | .struct es, h => by
    rw [BaseType.SameOffsets, BaseType.client_size] at h
    rw [BaseType.getSize, BaseType.info]
    exact h.2.1

theorem BaseType.client_offsets (es : Elements) (localOffset : ℕ) :
    ((BaseType.struct es).client localOffset).offsets = es.packedOffsets 0 := by
  rw [BaseType.client, structureType, RBaseType.offsets, es.place_client_offsets]

mutual

/-- **Server and client agree on the offsets and sizes exactly where packing needs no padding.** -/
theorem BaseType.same_iff_tight : ∀ t : BaseType, t.SameOffsets ↔ t.Tight
  | .atomic a => by
    rw [BaseType.SameOffsets, BaseType.Tight, primitiveId_size]
    exact iff_of_true rfl trivial
  | .struct (.last n t) => by
    have ht := t.same_iff_tight
    rw [BaseType.SameOffsets, BaseType.client_offsets, BaseType.client_size, StructType.offsets,
      Elements.structType_last, Elements.size_last, Elements.SameOffsets, BaseType.Tight,
      Elements.TightAt, Elements.sizeAlign, Elements.packedSize, BaseType.packedSize,
      Elements.packedSize, Elements.packedOffsets, List.map_singleton]
    constructor
    · rintro ⟨-, hsize, hsame⟩
      rw [BaseType.size_of_same hsame] at hsize
      have hpos : 0 < t.packedSize := BaseType.size_of_same hsame ▸ t.getSize_pos
      exact ⟨⟨ht.mp hsame, Nat.dvd_zero _⟩, (alignUp_eq_self_iff hpos).mp hsize⟩
    · rintro ⟨⟨htight, -⟩, hdvd⟩
      have hsame := ht.mpr htight
      have hpos : 0 < t.packedSize := BaseType.size_of_same hsame ▸ t.getSize_pos
      rw [BaseType.size_of_same hsame]
      exact ⟨rfl, (alignUp_eq_self_iff hpos).mpr hdvd, hsame⟩
  | .struct (.cons n t rest) => by
    have ht := t.same_iff_tight
    rw [BaseType.SameOffsets, BaseType.client_offsets, BaseType.client_size, StructType.offsets,
      Elements.structType_cons, Elements.size_cons, Elements.SameOffsets, BaseType.Tight,
      Elements.TightAt, BaseType.packedSize, Elements.packedOffsets, List.map_cons,
      Nat.zero_add]
    generalize (Elements.cons n t rest).sizeAlign = a
    rw [Elements.packedSize]
    constructor
    · rintro ⟨hoffsets, hsize, hsame, hrest⟩
      have hgetSize := BaseType.size_of_same hsame
      have hpos : 0 < t.packedSize := hgetSize ▸ t.getSize_pos
      rw [hgetSize] at hoffsets hsize
      have htight := (rest.aligned_iff_tight hpos).mp ⟨(List.cons.inj hoffsets).2, hrest⟩
      rw [rest.alignedEnd_of_tight hpos htight] at hsize
      exact ⟨⟨ht.mp hsame, Nat.dvd_zero _, htight⟩, (alignUp_eq_self_iff (by omega)).mp hsize⟩
    · rintro ⟨⟨htight, -, hrest⟩, hdvd⟩
      have hsame := ht.mpr htight
      have hgetSize := BaseType.size_of_same hsame
      have hpos : 0 < t.packedSize := hgetSize ▸ t.getSize_pos
      obtain ⟨hoffsets, hsames⟩ := (rest.aligned_iff_tight hpos).mpr hrest
      rw [hgetSize, rest.alignedEnd_of_tight hpos hrest, hoffsets]
      exact ⟨rfl, (alignUp_eq_self_iff (by omega)).mpr hdvd, hsame, hsames⟩

/-- Elements after the first fall where they are packed exactly when these places are aligned. -/
theorem Elements.aligned_iff_tight : ∀ (es : Elements) {pos : ℕ}, 0 < pos →
    ((es.aligned pos).map StructElement.offset = es.packedOffsets pos ∧ es.SameOffsets ↔
      es.TightAt pos)
  | .last n t, pos, hpos => by
    rw [Elements.aligned, Elements.packedOffsets, Elements.SameOffsets, Elements.TightAt,
      t.same_iff_tight, and_comm, List.map_singleton, List.cons_eq_cons, and_iff_left rfl,
      alignUp_eq_self_iff hpos]
  | .cons n t rest, pos, hpos => by
    rw [Elements.aligned, Elements.packedOffsets, Elements.SameOffsets, Elements.TightAt,
      List.map_cons, List.cons_eq_cons, alignUp_eq_self_iff hpos]
    constructor
    · rintro ⟨⟨hdvd, hoffsets⟩, hsame, hrest⟩
      rw [(alignUp_eq_self_iff hpos).mpr hdvd, BaseType.size_of_same hsame] at hoffsets
      exact ⟨t.same_iff_tight.mp hsame, hdvd,
        (rest.aligned_iff_tight (by omega)).mp ⟨hoffsets, hrest⟩⟩
    · rintro ⟨htight, hdvd, hrest⟩
      have hsame := t.same_iff_tight.mpr htight
      obtain ⟨hoffsets, hsames⟩ := (rest.aligned_iff_tight (by omega)).mpr hrest
      rw [(alignUp_eq_self_iff hpos).mpr hdvd, BaseType.size_of_same hsame]
      exact ⟨⟨hdvd, hoffsets⟩, hsame, hsames⟩

theorem Elements.alignedEnd_of_tight : ∀ (es : Elements) {pos : ℕ}, 0 < pos → es.TightAt pos →
    es.alignedEnd pos = pos + es.packedSize
  | .last n t, pos, hpos, h => by
    rw [Elements.TightAt] at h
    rw [Elements.alignedEnd, Elements.packedSize, (alignUp_eq_self_iff hpos).mpr h.2,
      BaseType.size_of_same (t.same_iff_tight.mpr h.1)]
  | .cons n t rest, pos, hpos, h => by
    rw [Elements.TightAt] at h
    rw [Elements.alignedEnd, Elements.packedSize, (alignUp_eq_self_iff hpos).mpr h.2.1,
      BaseType.size_of_same (t.same_iff_tight.mpr h.1),
      rest.alignedEnd_of_tight (by omega) h.2.2, Nat.add_assoc]

end

mutual

/-- Where they agree, the server puts each value where it is when packed. -/
theorem BaseType.places_of_same : ∀ (t : BaseType) (base : ℕ), t.SameOffsets →
    t.places base = t.packedPlaces base
  | .atomic a, base, _ => by rw [BaseType.places, BaseType.packedPlaces]
  | .struct es, base, h => by
    rw [BaseType.SameOffsets, BaseType.client_offsets] at h
    rw [BaseType.places, BaseType.packedPlaces, h.1, es.places_of_same 0 base h.2.2, Nat.add_zero]

theorem Elements.places_of_same : ∀ (es : Elements) (pos base : ℕ), es.SameOffsets →
    es.places (es.packedOffsets pos) base = es.packedPlaces (base + pos)
  | .last n t, pos, base, h => by
    rw [Elements.SameOffsets] at h
    rw [Elements.packedOffsets, Elements.places, Elements.packedPlaces, List.headD_cons,
      t.places_of_same _ h]
  | .cons n t rest, pos, base, h => by
    rw [Elements.SameOffsets] at h
    rw [Elements.packedOffsets, Elements.places, Elements.packedPlaces, List.headD_cons,
      List.tail_cons, t.places_of_same _ h.1, rest.places_of_same _ _ h.2, Nat.add_assoc]

end

/-- **Server and client lay out the cells of a type alike exactly where packing needs no padding.** -/
theorem layouts_agree_iff (t : BaseType) : LayoutsAgree t ↔ t.Tight := by
  refine ⟨fun h => t.same_iff_tight.mp h.same, fun h => ?_⟩
  have hsame := t.same_iff_tight.mpr h
  refine ⟨hsame, fun cell => ?_, fun cell => ?_⟩
  · rw [t.client_converted, t.client_size, t.places_of_same _ hsame, BaseType.size_of_same hsame]
  · rw [t.client_accessed, t.client_size, t.places_of_same _ hsame, BaseType.size_of_same hsame,
      Nat.add_zero]

/-- A `char` and a `long` after it: the server puts the `long` at 4, the client at 1. -/
theorem char_long_layouts_differ :
    ¬ LayoutsAgree (.struct (.cons ['c'] (.atomic .char) (.last ['l'] (.atomic .long)))) := by
  intro h
  have hoffsets := h.same
  rw [BaseType.SameOffsets] at hoffsets
  exact absurd hoffsets.1 (by decide)

end Rasdaman
