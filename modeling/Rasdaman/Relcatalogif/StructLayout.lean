import Rasdaman.Raslib.CellLayout
import Mathlib

/-!
# Relcatalogif/StructLayout — when the values of a struct are aligned

`addElement` records the alignment of each element after the first, and `calcSize` looks for elements of
four bytes and for structs.  The first element of a nested struct and elements of more than four bytes are
overlooked: `alignedSpec` says that the cells of a struct are aligned exactly when the values that depend on
them fall on their alignment by themselves (`FallsAligned`).
-/

namespace Rasdaman

/-! ## Aligned cells -/

/-- The alignment of an atomic value. -/
def PrimitiveId.alignment (typeId : PrimitiveId) : ℕ := min typeId.size 4

/-- The largest alignment of the atomic values of a cell. -/
def BaseType.largestAlignment (t : BaseType) : ℕ :=
  (t.places 0).foldr (fun p => max p.2.alignment) 1

mutual

/-- The largest alignment of the atomic values of a type, its first element included. -/
def BaseType.neededAlign : BaseType → ℕ
  | .atomic a => min a.size 4
  | .struct es => es.neededAlign

/-- The largest alignment of the atomic values of the elements. -/
def Elements.neededAlign : Elements → ℕ
  | .last _ t => t.neededAlign
  | .cons _ t rest => max t.neededAlign rest.neededAlign

end

/-- The atomic values of a cell lie on multiples of their alignment, and the size is a multiple of the
largest one. -/
@[mk_iff]
structure Elements.CellAligned (es : Elements) : Prop where
  aligned : ∀ p ∈ (BaseType.struct es).places 0, p.2.alignment ∣ p.1
  sizeAligned : es.neededAlign ∣ es.structType.size

mutual

/-- The cells of a struct and of the structs in it are aligned. -/
def BaseType.AlignedLayout : BaseType → Prop
  | .atomic _ => True
  | .struct es => es.CellAligned ∧ es.AlignedLayouts

/-- The cells of the elements are aligned. -/
def Elements.AlignedLayouts : Elements → Prop
  | .last _ t => t.AlignedLayout
  | .cons _ t rest => t.AlignedLayout ∧ rest.AlignedLayouts

end

/-! ## When values fall on their alignment -/

mutual

/-- The bytes of a cell when its elements and its size are aligned as needed. -/
def BaseType.room : BaseType → ℕ
  | .atomic a => a.size
  | .struct (.last _ t) => alignUp t.room (max t.neededAlign t.sizeAlign)
  | .struct (.cons _ t rest) =>
    alignUp (rest.roomEnd t.room)
      (max (max t.neededAlign rest.neededAlign) (max t.sizeAlign rest.sizeAlign))

/-- The end of elements that follow `pos` bytes, when they are aligned as needed. -/
def Elements.roomEnd : Elements → (pos : ℕ) → ℕ
  | .last _ t, pos => alignUp pos t.neededAlign + t.room
  | .cons _ t rest, pos => rest.roomEnd (alignUp pos t.neededAlign + t.room)

end

mutual

/-- **The values that the code does not align fall on their alignment**: each element falls on a multiple
of what it needs although it is aligned to what its struct has recorded, and so does the end of the struct,
although it is aligned to what `calcSize` looks for. -/
def BaseType.FallsAligned : BaseType → Prop
  | .atomic _ => True
  | .struct (.last _ t) => t.FallsAligned
  | .struct (.cons _ t rest) => t.FallsAligned ∧ rest.FallsAlignedAt t.room ∧
      max t.neededAlign rest.neededAlign ∣
        alignUp (rest.roomEnd t.room) (max t.sizeAlign rest.sizeAlign)

/-- The same for elements that follow `pos` bytes. -/
def Elements.FallsAlignedAt : Elements → (pos : ℕ) → Prop
  | .last _ t, pos => t.FallsAligned ∧ t.neededAlign ∣ alignUp pos t.alignOf
  | .cons _ t rest, pos => t.FallsAligned ∧ t.neededAlign ∣ alignUp pos t.alignOf ∧
      rest.FallsAlignedAt (alignUp pos t.neededAlign + t.room)

end

/-! ## Alignments -/

/-- One of the alignments that occur. -/
def IsAlignment (a : ℕ) : Prop := a = 1 ∨ a = 2 ∨ a = 4

theorem IsAlignment.pos {a : ℕ} (h : IsAlignment a) : 0 < a := by
  rcases h with rfl | rfl | rfl <;> decide

theorem IsAlignment.max {a b : ℕ} (ha : IsAlignment a) (hb : IsAlignment b) : IsAlignment (max a b) := by
  rcases max_choice a b with h | h
  · rwa [h]
  · rwa [h]

/-- Of two alignments the smaller divides the larger. -/
theorem IsAlignment.dvd_of_le {a b : ℕ} (ha : IsAlignment a) (hb : IsAlignment b) (h : a ≤ b) : a ∣ b := by
  rcases ha with rfl | rfl | rfl <;> rcases hb with rfl | rfl | rfl <;> first | decide | omega

theorem le_alignUp {x a : ℕ} (ha : 0 < a) : x ≤ alignUp x a := by
  have hdiv := Nat.div_add_mod (x - 1) a
  have hlt := Nat.mod_lt (x - 1) ha
  rw [alignUp, Nat.add_mul, Nat.one_mul, Nat.mul_comm]
  omega

/-- A multiple of `n` that is the next multiple of a smaller alignment is the next multiple of `n`. -/
theorem alignUp_eq_of_dvd {x a n : ℕ} (ha : IsAlignment a) (hn : IsAlignment n) (hle : a ≤ n)
    (h : n ∣ alignUp x a) : alignUp x n = alignUp x a := by
  rw [alignUp] at h ⊢
  rw [alignUp]
  rcases ha with rfl | rfl | rfl <;> rcases hn with rfl | rfl | rfl <;> omega

theorem alignUp_max {x a n : ℕ} (ha : IsAlignment a) (hn : IsAlignment n) (h : n ∣ alignUp x a) :
    alignUp x (max n a) = alignUp x a := by
  rcases le_total n a with hle | hle
  · rw [max_eq_right hle]
  · rw [max_eq_left hle, alignUp_eq_of_dvd ha hn hle h]

theorem AtomicType.isAlignment (a : AtomicType) : IsAlignment (min a.size 4) := by
  cases a <;> simp [IsAlignment, size]

mutual

theorem BaseType.neededAlign_isAlignment : ∀ t : BaseType, IsAlignment t.neededAlign
  | .atomic a => by
    rw [BaseType.neededAlign]
    exact a.isAlignment
  | .struct es => by
    rw [BaseType.neededAlign]
    exact es.neededAlign_isAlignment

theorem Elements.neededAlign_isAlignment : ∀ es : Elements, IsAlignment es.neededAlign
  | .last _ t => by
    rw [Elements.neededAlign]
    exact t.neededAlign_isAlignment
  | .cons _ t rest => by
    rw [Elements.neededAlign]
    exact t.neededAlign_isAlignment.max rest.neededAlign_isAlignment

end

mutual

/-- An element is aligned to no more than it needs. -/
theorem BaseType.alignOf_spec : ∀ t : BaseType, IsAlignment t.alignOf ∧ t.alignOf ≤ t.neededAlign
  | .atomic a => by
    cases a <;> simp [IsAlignment, BaseType.alignOf, BaseType.neededAlign, AtomicType.size]
  | .struct (.last _ t) => by
    rw [BaseType.alignOf, BaseType.neededAlign, Elements.neededAlign]
    exact ⟨.inl rfl, t.neededAlign_isAlignment.pos⟩
  | .struct (.cons _ t rest) => by
    rw [BaseType.alignOf, BaseType.neededAlign, Elements.neededAlign]
    exact ⟨rest.alignOf_spec.1, le_max_of_le_right rest.alignOf_spec.2⟩

theorem Elements.alignOf_spec : ∀ es : Elements, IsAlignment es.alignOf ∧ es.alignOf ≤ es.neededAlign
  | .last _ t => by
    rw [Elements.alignOf, Elements.neededAlign]
    exact t.alignOf_spec
  | .cons _ t rest => by
    rw [Elements.alignOf, Elements.neededAlign]
    exact ⟨t.alignOf_spec.1.max rest.alignOf_spec.1, max_le_max t.alignOf_spec.2 rest.alignOf_spec.2⟩

end

theorem BaseType.sizeAlign_isAlignment (t : BaseType) : IsAlignment t.sizeAlign := by
  cases t with
  | atomic a => cases a <;> simp [IsAlignment, sizeAlign, AtomicType.size]
  | struct es => exact .inr (.inr rfl)

theorem Elements.sizeAlign_isAlignment : ∀ es : Elements, IsAlignment es.sizeAlign
  | .last _ t => by
    rw [Elements.sizeAlign]
    exact t.sizeAlign_isAlignment
  | .cons _ t rest => by
    rw [Elements.sizeAlign]
    exact t.sizeAlign_isAlignment.max rest.sizeAlign_isAlignment

/-! ## Places -/

mutual

/-- A cell that starts at `base` has its values `base` further on. -/
theorem BaseType.mem_places : ∀ (t : BaseType) (base : ℕ) (p : ℕ × PrimitiveId),
    p ∈ t.places base ↔ ∃ q ∈ t.places 0, p = (base + q.1, q.2)
  | .atomic a, base, p => by simp [BaseType.places]
  | .struct es, base, p => by
    rw [BaseType.places, BaseType.places]
    exact es.mem_places _ base p

theorem Elements.mem_places : ∀ (es : Elements) (offsets : List ℕ) (base : ℕ) (p : ℕ × PrimitiveId),
    p ∈ es.places offsets base ↔ ∃ q ∈ es.places offsets 0, p = (base + q.1, q.2)
  | .last _ t, offsets, base, p => by
    rw [Elements.places, Elements.places]
    exact t.mem_places_add base (offsets.headD 0) p
  | .cons _ t rest, offsets, base, p => by
    rw [Elements.places, Elements.places, List.mem_append, t.mem_places_add base (offsets.headD 0),
      rest.mem_places offsets.tail base, ← exists_or]
    simp only [List.mem_append, or_and_right]

theorem BaseType.mem_places_add : ∀ (t : BaseType) (base offset : ℕ) (p : ℕ × PrimitiveId),
    p ∈ t.places (base + offset) ↔ ∃ q ∈ t.places (0 + offset), p = (base + q.1, q.2)
  | t, base, offset, p => by
    rw [t.mem_places (base + offset), Nat.zero_add]
    constructor
    · rintro ⟨q, hq, rfl⟩
      refine ⟨(offset + q.1, q.2), (t.mem_places offset _).mpr ⟨q, hq, rfl⟩, ?_⟩
      rw [Nat.add_assoc]
    · rintro ⟨q, hq, rfl⟩
      obtain ⟨r, hr, rfl⟩ := (t.mem_places offset q).mp hq
      refine ⟨r, hr, ?_⟩
      rw [Nat.add_assoc]

end

theorem primitiveId_alignment (a : AtomicType) : a.primitiveId.alignment = min a.size 4 := by
  rw [PrimitiveId.alignment, primitiveId_size]

mutual

/-- The largest alignment of the values, whatever the offsets. -/
theorem BaseType.foldr_alignment : ∀ (t : BaseType) (base : ℕ) {k : ℕ}, 1 ≤ k →
    (t.places base).foldr (fun p => max p.2.alignment) k = max t.neededAlign k
  | .atomic a, base, k, _ => by
    rw [BaseType.places, BaseType.neededAlign, List.foldr_cons, List.foldr_nil, primitiveId_alignment]
  | .struct es, base, k, hk => by
    rw [BaseType.places, BaseType.neededAlign]
    exact es.foldr_alignment _ base hk

theorem Elements.foldr_alignment : ∀ (es : Elements) (offsets : List ℕ) (base : ℕ) {k : ℕ}, 1 ≤ k →
    (es.places offsets base).foldr (fun p => max p.2.alignment) k = max es.neededAlign k
  | .last _ t, offsets, base, k, hk => by
    rw [Elements.places, Elements.neededAlign]
    exact t.foldr_alignment _ hk
  | .cons _ t rest, offsets, base, k, hk => by
    rw [Elements.places, Elements.neededAlign, List.foldr_append, rest.foldr_alignment _ _ hk,
      t.foldr_alignment _ (le_max_of_le_right hk), max_assoc]

end

theorem BaseType.largestAlignment_eq (t : BaseType) : t.largestAlignment = t.neededAlign := by
  rw [largestAlignment, t.foldr_alignment 0 le_rfl]
  exact max_eq_left t.neededAlign_isAlignment.pos

theorem PrimitiveId.isAlignment (i : PrimitiveId) : IsAlignment i.alignment := by
  cases i <;> simp [IsAlignment, alignment, size]

/-- A number is a multiple of each alignment in a list exactly when it is one of the largest. -/
theorem foldr_alignment_dvd (l : List (ℕ × PrimitiveId)) (n : ℕ) :
    IsAlignment (l.foldr (fun p => max p.2.alignment) 1) ∧
      (l.foldr (fun p => max p.2.alignment) 1 ∣ n ↔ ∀ p ∈ l, p.2.alignment ∣ n) := by
  induction l with
  | nil => exact ⟨.inl rfl, by simp⟩
  | cons p l ih =>
    obtain ⟨hrest, hdvd⟩ := ih
    have hp := p.2.isAlignment
    rw [List.foldr_cons, List.forall_mem_cons, ← hdvd]
    refine ⟨hp.max hrest, fun h => ⟨?_, ?_⟩, fun ⟨hp', hrest'⟩ => ?_⟩
    · exact (hp.dvd_of_le (hp.max hrest) (le_max_left ..)).trans h
    · exact (hrest.dvd_of_le (hp.max hrest) (le_max_right ..)).trans h
    · rcases max_choice p.2.alignment (l.foldr (fun p => max p.2.alignment) 1) with h | h
      · rwa [h]
      · rwa [h]

theorem BaseType.neededAlign_dvd_iff (t : BaseType) (n : ℕ) :
    t.neededAlign ∣ n ↔ ∀ p ∈ t.places 0, p.2.alignment ∣ n := by
  rw [← t.largestAlignment_eq]
  exact (foldr_alignment_dvd (t.places 0) n).2

/-- A cell whose values are aligned when it starts at 0 has them aligned exactly where it starts on a
multiple of the largest alignment. -/
theorem BaseType.aligned_iff {t : BaseType} (h : ∀ p ∈ t.places 0, p.2.alignment ∣ p.1) (base : ℕ) :
    (∀ p ∈ t.places base, p.2.alignment ∣ p.1) ↔ t.neededAlign ∣ base := by
  rw [t.neededAlign_dvd_iff]
  constructor
  · intro hbase p hp
    have hshift := hbase (base + p.1, p.2) ((t.mem_places base _).mpr ⟨p, hp, rfl⟩)
    exact (Nat.dvd_add_left (h p hp)).mp hshift
  · intro hbase p hp
    obtain ⟨q, hq, rfl⟩ := (t.mem_places base p).mp hp
    exact Nat.dvd_add (hbase q hq) (h q hq)

/-! ## Elements after the first -/

theorem Elements.le_alignedEnd : ∀ (es : Elements) (pos : ℕ), pos ≤ es.alignedEnd pos
  | .last n t => fun pos => by
    rw [Elements.alignedEnd]
    exact le_add_right (le_alignUp t.alignOf_pos)
  | .cons n t rest => fun pos => by
    rw [Elements.alignedEnd]
    exact (le_add_right (le_alignUp t.alignOf_pos)).trans (rest.le_alignedEnd _)

/-- Elements that are placed one after the other lie in this order between their start and their end. -/
theorem Elements.aligned_ordered : ∀ (es : Elements) (pos : ℕ),
    (∀ e ∈ es.aligned pos, pos ≤ e.offset ∧ 0 < e.type.size ∧
      e.offset + e.type.size ≤ es.alignedEnd pos) ∧
    (es.aligned pos).Pairwise fun e e' => e.offset + e.type.size ≤ e'.offset
  | .last n t => fun pos => by
    rw [Elements.aligned, Elements.alignedEnd]
    refine ⟨fun e he => ?_, List.pairwise_singleton _ _⟩
    obtain rfl := List.mem_singleton.mp he
    exact ⟨le_alignUp t.alignOf_pos, t.getSize_pos, le_rfl⟩
  | .cons n t rest => fun pos => by
    have hpos : pos ≤ alignUp pos t.alignOf := le_alignUp t.alignOf_pos
    have hsize := t.getSize_pos
    have hend := rest.le_alignedEnd (alignUp pos t.alignOf + t.getSize)
    obtain ⟨hmem, hpair⟩ := rest.aligned_ordered (alignUp pos t.alignOf + t.getSize)
    rw [Elements.aligned, Elements.alignedEnd, List.pairwise_cons]
    refine ⟨fun e he => ?_, fun e he => (hmem e he).1, hpair⟩
    rcases List.mem_cons.mp he with rfl | he
    · exact ⟨hpos, hsize, hend⟩
    · obtain ⟨hge, hpos', hle⟩ := hmem e he
      exact ⟨by omega, hpos', hle⟩

/-- **The elements of a struct lie one after the other inside its size.** -/
theorem Elements.structType_ordered (es : Elements) :
    (∀ e ∈ es.structType.elements, 0 < e.type.size ∧ e.offset + e.type.size ≤ es.structType.size) ∧
      es.structType.elements.Pairwise fun e e' => e.offset + e.type.size ≤ e'.offset := by
  cases es with
  | last n t =>
    rw [structType_last, size_last]
    refine ⟨fun e he => ?_, List.pairwise_singleton _ _⟩
    obtain rfl := List.mem_singleton.mp he
    refine ⟨t.getSize_pos, ?_⟩
    rw [Nat.zero_add]
    exact le_alignUp t.sizeAlign_isAlignment.pos
  | cons n t rest =>
    obtain ⟨hmem, hpair⟩ := rest.aligned_ordered t.getSize
    have hend : rest.alignedEnd t.getSize ≤ _ :=
      le_alignUp (Elements.cons n t rest).sizeAlign_isAlignment.pos
    have hle := rest.le_alignedEnd t.getSize
    rw [structType_cons, size_cons, List.pairwise_cons]
    refine ⟨fun e he => ?_, fun e he => ?_, hpair⟩
    · rcases List.mem_cons.mp he with rfl | he
      · refine ⟨t.getSize_pos, ?_⟩
        rw [Nat.zero_add]
        exact hle.trans hend
      · exact ⟨(hmem e he).2.1, (hmem e he).2.2.trans hend⟩
    · rw [Nat.zero_add]
      exact (hmem e he).1

/-! ## Aligned exactly where values fall aligned -/

/-- What an aligned type tells the struct that it is an element of. -/
structure BaseType.AlignedSpec (t : BaseType) : Prop where
  iff : t.AlignedLayout ↔ t.FallsAligned
  getSize_eq : t.AlignedLayout → t.getSize = t.room
  aligned : t.AlignedLayout → ∀ p ∈ t.places 0, p.2.alignment ∣ p.1

/-- One element: it is aligned and its values are aligned at an offset. -/
theorem BaseType.AlignedSpec.placed_iff {t : BaseType} (h : t.AlignedSpec) (offset : ℕ) :
    (t.AlignedLayout ∧ ∀ p ∈ t.places offset, p.2.alignment ∣ p.1) ↔
      t.FallsAligned ∧ t.neededAlign ∣ offset := by
  rw [← h.iff]
  refine and_congr_right fun hlayout => ?_
  exact BaseType.aligned_iff (h.aligned hlayout) offset

/-- The end of an element that falls on what it needs. -/
theorem BaseType.AlignedSpec.end_eq {t : BaseType} (h : t.AlignedSpec) {pos : ℕ} (hfalls : t.FallsAligned)
    (hdvd : t.neededAlign ∣ alignUp pos t.alignOf) :
    alignUp pos t.alignOf + t.getSize = alignUp pos t.neededAlign + t.room := by
  obtain ⟨halign, hle⟩ := t.alignOf_spec
  rw [alignUp_eq_of_dvd halign t.neededAlign_isAlignment hle hdvd, h.getSize_eq (h.iff.mpr hfalls)]

/-- The size of a struct with one element is a multiple of what the element needs. -/
theorem BaseType.neededAlign_dvd_alignUp (t : BaseType) :
    t.neededAlign ∣ alignUp t.getSize t.sizeAlign := by
  cases t with
  | atomic a => cases a <;> decide
  | struct es =>
    have hfour : es.neededAlign ∣ 4 := by
      rcases es.neededAlign_isAlignment with h | h | h <;> rw [h] <;> decide
    rw [neededAlign, sizeAlign]
    exact hfour.trans (Nat.dvd_mul_left ..)

mutual

/-- **A type is aligned, with the structs in it, exactly when its values fall on their alignment.** -/
theorem BaseType.alignedSpec : ∀ t : BaseType, t.AlignedSpec
  | .atomic a => by
    refine ⟨?_, fun _ => ?_, fun _ p hp => ?_⟩
    · rw [BaseType.AlignedLayout, BaseType.FallsAligned]
    · rw [BaseType.getSize, BaseType.info, BaseType.room]
    · rw [BaseType.places] at hp
      obtain rfl := List.mem_singleton.mp hp
      exact Nat.dvd_zero _
  | .struct (.last n t) => by
    have ht := t.alignedSpec
    have hplaces : (BaseType.struct (.last n t)).places 0 = t.places 0 := by
      rw [BaseType.places, StructType.offsets, Elements.structType_last, Elements.places]
      rfl
    have hdvd := t.neededAlign_dvd_alignUp
    refine ⟨?_, fun h => ?_, fun h => ?_⟩
    · rw [BaseType.AlignedLayout, Elements.cellAligned_iff, Elements.AlignedLayouts, BaseType.FallsAligned, hplaces,
        Elements.size_last, Elements.neededAlign, ← ht.iff]
      exact ⟨fun h => h.2, fun h => ⟨⟨ht.aligned h, hdvd⟩, h⟩⟩
    · rw [BaseType.AlignedLayout, Elements.AlignedLayouts] at h
      have hmax := alignUp_max t.sizeAlign_isAlignment t.neededAlign_isAlignment hdvd
      rw [BaseType.room, ← ht.getSize_eq h.2, hmax]
      exact Elements.size_last n t
    · rw [BaseType.AlignedLayout] at h
      exact h.1.aligned
  | .struct (.cons n t rest) => by
    have ht := t.alignedSpec
    have hplaces : (BaseType.struct (.cons n t rest)).places 0 =
        t.places 0 ++ rest.places ((rest.aligned t.getSize).map StructElement.offset) 0 := by
      rw [BaseType.places, StructType.offsets, Elements.structType_cons, Elements.places]
      rfl
    have hsize := Elements.size_cons n t rest
    have hiff : (BaseType.struct (.cons n t rest)).AlignedLayout ↔
        (BaseType.struct (.cons n t rest)).FallsAligned := by
      rw [BaseType.AlignedLayout, Elements.cellAligned_iff, Elements.AlignedLayouts, BaseType.FallsAligned, hplaces,
        hsize, Elements.neededAlign, Elements.sizeAlign, List.forall_mem_append]
      constructor
      · rintro ⟨⟨⟨-, hrest⟩, hdvd⟩, hlayout, hlayouts⟩
        obtain ⟨hfalls, hend⟩ := rest.alignedAt t.getSize_pos
        have hat := hfalls.mp ⟨hlayouts, hrest⟩
        rw [hend hat] at hdvd
        rw [ht.getSize_eq hlayout] at hat hdvd
        exact ⟨ht.iff.mp hlayout, hat, hdvd⟩
      · rintro ⟨hfalls, hat, hdvd⟩
        have hlayout := ht.iff.mpr hfalls
        rw [← ht.getSize_eq hlayout] at hat hdvd
        obtain ⟨hiff, hend⟩ := rest.alignedAt t.getSize_pos
        obtain ⟨hlayouts, hrest⟩ := hiff.mpr hat
        rw [← hend hat] at hdvd
        exact ⟨⟨⟨ht.aligned hlayout, hrest⟩, hdvd⟩, hlayout, hlayouts⟩
    refine ⟨hiff, fun h => ?_, fun h => ?_⟩
    · have hfalls := hiff.mp h
      rw [BaseType.FallsAligned] at hfalls
      obtain ⟨hfirst, hat, hdvd⟩ := hfalls
      have hlayout := ht.iff.mpr hfirst
      have hmax := alignUp_max (t.sizeAlign_isAlignment.max rest.sizeAlign_isAlignment)
        (t.neededAlign_isAlignment.max rest.neededAlign_isAlignment) hdvd
      rw [BaseType.room, hmax]
      rw [← ht.getSize_eq hlayout] at hat ⊢
      rw [← (rest.alignedAt t.getSize_pos).2 hat]
      exact hsize
    · rw [BaseType.AlignedLayout] at h
      exact h.1.aligned

/-- The elements after the first. -/
theorem Elements.alignedAt : ∀ (es : Elements) {pos : ℕ}, 0 < pos →
    ((es.AlignedLayouts ∧ ∀ p ∈ es.places ((es.aligned pos).map StructElement.offset) 0,
        p.2.alignment ∣ p.1) ↔ es.FallsAlignedAt pos) ∧
      (es.FallsAlignedAt pos → es.alignedEnd pos = es.roomEnd pos)
  | .last n t, pos, _ => by
    have ht := t.alignedSpec
    rw [Elements.AlignedLayouts, Elements.aligned, Elements.places, Elements.FallsAlignedAt,
      List.map_singleton, List.headD_cons, Nat.zero_add, Elements.alignedEnd, Elements.roomEnd]
    exact ⟨ht.placed_iff _, fun h => ht.end_eq h.1 h.2⟩
  | .cons n t rest, pos, _ => by
    have ht := t.alignedSpec
    have hnext : 0 < alignUp pos t.alignOf + t.getSize := Nat.lt_add_left _ t.getSize_pos
    obtain ⟨hrest, hend⟩ := rest.alignedAt hnext
    rw [Elements.AlignedLayouts, Elements.aligned, Elements.places, Elements.FallsAlignedAt, List.map_cons,
      List.headD_cons, List.tail_cons, Nat.zero_add, List.forall_mem_append, Elements.alignedEnd,
      Elements.roomEnd]
    have hhere := ht.placed_iff (alignUp pos t.alignOf)
    constructor
    · constructor
      · rintro ⟨⟨hlayout, hlayouts⟩, haligned, hothers⟩
        obtain ⟨hfalls, hdvd⟩ := hhere.mp ⟨hlayout, haligned⟩
        exact ⟨hfalls, hdvd, ht.end_eq hfalls hdvd ▸ hrest.mp ⟨hlayouts, hothers⟩⟩
      · rintro ⟨hfalls, hdvd, hat⟩
        rw [← ht.end_eq hfalls hdvd] at hat
        obtain ⟨hlayout, haligned⟩ := hhere.mpr ⟨hfalls, hdvd⟩
        obtain ⟨hlayouts, hothers⟩ := hrest.mpr hat
        exact ⟨⟨hlayout, hlayouts⟩, haligned, hothers⟩
    · rintro ⟨hfalls, hdvd, hat⟩
      rw [← ht.end_eq hfalls hdvd] at hat ⊢
      exact hend hat

end

end Rasdaman
