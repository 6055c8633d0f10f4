import Rasdaman.Relcatalogif.StructLayout
import Mathlib

/-!
# Relcatalogif/StructSound — when the layout of a struct is sound

The offsets and the size of a struct are of type `unsigned int`.  Where the size that a struct would need is
below 2^32, the struct that is built is the unbounded one; where it is not, some element does not lie behind
the one before it or not inside the size.  So the layout is sound exactly when the values fall on their
alignment and the size fits: `layout_sound_iff`.
-/

namespace Rasdaman

/-! ## The stored elements

`insertInDb` writes a row for each element, `readFromDb` adds the elements again in the order of `Count`.
-/

/-- `VARCHAR_MAXLEN`. -/
def varcharMaxlen : ℕ := 255

/-- The object id of an element's type, in `ContentType`. -/
inductive ContentType
  | atomic (type : AtomicType)
  | struct (structtypeid : ℕ)
  deriving DecidableEq, Repr

/-- A row of `RAS_BASETYPES`. -/
structure BaseTypesRow where
  baseTypeId : ℕ
  contentType : ContentType
  count : ℕ
  contentTypeName : List Char
  deriving DecidableEq, Repr

namespace StructType

/-- The loop of `insertInDb` from element `count` on. -/
def insertedRows (structtypeid : ℕ) : (count : ℕ) → List (List Char × ContentType) → List BaseTypesRow
  | _, [] => []
  | count, (elementname, elementtype) :: rest =>
    ⟨structtypeid, elementtype, count, elementname.take varcharMaxlen⟩ ::
      insertedRows structtypeid (count + 1) rest

/-- `insertInDb`. -/
def insertInDb (structtypeid : ℕ) (elements : List (List Char × ContentType))
    (rows : List BaseTypesRow) : List BaseTypesRow :=
  rows ++ insertedRows structtypeid 0 elements

/-- The rows of a struct, `ORDER BY Count`. -/
def selectRows (structtypeid : ℕ) (rows : List BaseTypesRow) : List BaseTypesRow :=
  (rows.filter (·.baseTypeId == structtypeid)).insertionSort (·.count ≤ ·.count)

/-- `ObjectBroker::getObjectByOId`, and what a struct asks the type: a struct is read with `readStruct`. -/
def getObjectByOId (readStruct : ℕ → Option StructType) : ContentType → Option TypeInfo
  | .atomic a => some (BaseType.atomic a).infoUnsigned
  | .struct structtypeid => do
    let s ← readStruct structtypeid
    return ⟨true, s.size, s.align⟩

/-- One round of `readFromDb`. -/
def addRow (readStruct : ℕ → Option StructType) (s : StructType) (row : BaseTypesRow) :
    Option StructType := do
  let newType ← getObjectByOId readStruct row.contentType
  return s.addElementPriv row.contentTypeName newType

/-- `readFromDb`: the struct with this object id.  `fuel` bounds the nesting. -/
def readFromDb (rows : List BaseTypesRow) : (fuel : ℕ) → (structtypeid : ℕ) → Option StructType
  | 0, _ => none
  | fuel + 1, structtypeid =>
    (selectRows structtypeid rows).foldlM (addRow (readFromDb rows fuel)) new

end StructType

/-- The names of the elements. -/
def Elements.names : Elements → List (List Char)
  | .last n _ => [n]
  | .cons n _ rest => n :: rest.names

mutual

/-- The rows hold a type under an object id. -/
inductive BaseType.StoredAs (rows : List BaseTypesRow) : BaseType → ContentType → Prop
  | atomic (a : AtomicType) : BaseType.StoredAs rows (.atomic a) (.atomic a)
  | struct {es : Elements} {contents : List ContentType} {id : ℕ}
      (elements : Elements.StoredAs rows es contents)
      (inserted : (rows.filter (·.baseTypeId == id)).Perm
        (StructType.insertedRows id 0 (es.names.zip contents))) :
      BaseType.StoredAs rows (.struct es) (.struct id)

/-- They hold the types of the elements. -/
inductive Elements.StoredAs (rows : List BaseTypesRow) : Elements → List ContentType → Prop
  | last {n : List Char} {t : BaseType} {c : ContentType} (type : BaseType.StoredAs rows t c) :
      Elements.StoredAs rows (.last n t) [c]
  | cons {n : List Char} {t : BaseType} {c : ContentType} {rest : Elements}
      {contents : List ContentType} (type : BaseType.StoredAs rows t c)
      (others : Elements.StoredAs rows rest contents) :
      Elements.StoredAs rows (.cons n t rest) (c :: contents)

end

/-! ## Soundness -/

mutual

/-- Where the atomic values of a cell that starts at `base` are, in the struct that is built. -/
def BaseType.placesBuilt : BaseType → (base : ℕ) → List (ℕ × PrimitiveId)
  | .atomic a, base => [(base, a.primitiveId)]
  | .struct es, base => es.placesBuilt es.built.offsets base

/-- The same for elements at the offsets given. -/
def Elements.placesBuilt : Elements → (offsets : List ℕ) → (base : ℕ) → List (ℕ × PrimitiveId)
  | .last _ t, offsets, base => t.placesBuilt (base + offsets.headD 0)
  | .cons _ t rest, offsets, base =>
    t.placesBuilt (base + offsets.headD 0) ++ rest.placesBuilt offsets.tail base

end

/-- **The layout of a struct is sound**: its elements follow one another inside a cell, the atomic values
of each cell of an array lie on multiples of their alignment, and the struct that is rebuilt from its
stored elements has the same layout. -/
structure Elements.Sound (es : Elements) : Prop where
  increasing : es.built.offsets.Pairwise (· < ·)
  apart : es.built.elements.Pairwise fun e e' => e.offset + e.type.size ≤ e'.offset
  inside : ∀ e ∈ es.built.elements, e.offset + e.type.size ≤ es.built.size
  aligned : ∀ p ∈ (BaseType.struct es).placesBuilt 0, p.2.alignment ∣ p.1
  sizeAligned : (BaseType.struct es).largestAlignment ∣ es.built.size
  everyCell : ∀ cell, ∀ p ∈ (BaseType.struct es).placesBuilt (cell * es.built.size), p.2.alignment ∣ p.1
  rebuilt : ∀ rows contents id, es.StoredAs rows contents → (∀ r ∈ rows, r.baseTypeId ≠ id) →
    ∀ table, table.Perm (StructType.insertInDb id (es.names.zip contents) rows) →
      ∃ fuel s, StructType.readFromDb table fuel id = some s ∧ s.offsets = es.built.offsets ∧
        s.size = es.built.size

mutual

/-- The layouts of a struct and of the structs in it are sound. -/
def BaseType.SoundLayout : BaseType → Prop
  | .atomic _ => True
  | .struct es => es.Sound ∧ es.SoundLayouts

/-- The layouts of the elements are sound. -/
def Elements.SoundLayouts : Elements → Prop
  | .last _ t => t.SoundLayout
  | .cons _ t rest => t.SoundLayout ∧ rest.SoundLayouts

end

/-! ## Rebuilding

The rows of a struct come back in the order of its elements, and the layout does not depend on the names,
which are cut.
-/

namespace StructType

/-- The struct with the names that are stored. -/
def cutNames (s : StructType) : StructType :=
  { s with elements := s.elements.map fun e => { e with elemName := e.elemName.take varcharMaxlen } }

theorem endOf_map_cut (es : List StructElement) :
    endOf (es.map fun e => { e with elemName := e.elemName.take varcharMaxlen }) = endOf es := by
  rw [endOf, endOf, List.getLast?_map]
  cases es.getLast? <;> rfl

theorem alignSize_map_cut (es : List StructElement) (k : ℕ) :
    alignSize (es.map fun e => { e with elemName := e.elemName.take varcharMaxlen }) k =
      alignSize es k := by
  induction es generalizing k with
  | nil => rfl
  | cons e es ih => simp only [List.map_cons, alignSize, ih]

theorem cutNames_calcSize (s : StructType) :
    s.calcSizeUnsigned.cutNames = s.cutNames.calcSizeUnsigned := by
  rw [calcSizeUnsigned, calcSizeUnsigned, cutNames, cutNames, endOf_map_cut, alignSize_map_cut]

/-- The layout does not depend on the names. -/
theorem cutNames_addElementPriv (s : StructType) (n : List Char) (i : TypeInfo) :
    (s.addElementPriv n i).cutNames = s.cutNames.addElementPriv (n.take varcharMaxlen) i := by
  rw [addElementPriv, addElementPriv, cutNames_calcSize]
  refine congrArg calcSizeUnsigned ?_
  have hnil : s.cutNames.elements = [] ↔ s.elements = [] := List.map_eq_nil_iff
  have hend : endOf s.cutNames.elements = endOf s.elements := endOf_map_cut s.elements
  simp only [hnil, hend]
  split_ifs
  · rfl
  all_goals simp [cutNames]
  cases s.elements <;> rfl

theorem baseTypeId_of_mem_insertedRows {id : ℕ} {elements : List (List Char × ContentType)}
    {count : ℕ} {r : BaseTypesRow} (h : r ∈ insertedRows id count elements) :
    r.baseTypeId = id ∧ count ≤ r.count := by
  induction elements generalizing count with
  | nil => cases h
  | cons e elements ih =>
    obtain ⟨n, c⟩ := e
    rcases List.mem_cons.mp h with rfl | h
    · exact ⟨rfl, le_rfl⟩
    · exact ⟨(ih h).1, Nat.le_of_succ_le (ih h).2⟩

theorem insertedRows_sorted (id count : ℕ) (elements : List (List Char × ContentType)) :
    (insertedRows id count elements).Pairwise (·.count < ·.count) := by
  induction elements generalizing count with
  | nil => exact .nil
  | cons e elements ih =>
    obtain ⟨n, c⟩ := e
    refine List.pairwise_cons.mpr ⟨fun r hr => ?_, ih (count + 1)⟩
    exact (baseTypeId_of_mem_insertedRows hr).2

/-- **The rows of a struct are selected in the order of its elements.** -/
theorem selectRows_eq {id : ℕ} {rows : List BaseTypesRow} {elements : List (List Char × ContentType)}
    (h : (rows.filter (·.baseTypeId == id)).Perm (insertedRows id 0 elements)) :
    selectRows id rows = insertedRows id 0 elements := by
  have hstrict := insertedRows_sorted id 0 elements
  have hperm := (List.perm_insertionSort (·.count ≤ ·.count) _).trans h
  have hsorted := List.pairwise_insertionSort (fun r r' : BaseTypesRow => r.count ≤ r'.count)
    (rows.filter (·.baseTypeId == id))
  refine hperm.eq_of_pairwise (fun r r' hr hr' hle hge => ?_) hsorted (hstrict.imp le_of_lt)
  by_contra hne
  have hsymm : Std.Symm fun r r' : BaseTypesRow => r.count ≠ r'.count := ⟨fun _ _ => Ne.symm⟩
  have hdistinct : (insertedRows id 0 elements).Pairwise fun r r' => r.count ≠ r'.count :=
    hstrict.imp fun h => h.ne
  exact hdistinct.forall (hperm.subset hr) hr' hne (le_antisymm hle hge)

end StructType

mutual

/-- The nesting of a type. -/
def BaseType.depth : BaseType → ℕ
  | .atomic _ => 0
  | .struct es => es.depth + 1

/-- The nesting of the elements. -/
def Elements.depth : Elements → ℕ
  | .last _ t => t.depth
  | .cons _ t rest => max t.depth rest.depth

end

section Rebuilding

open StructType

variable {rows : List BaseTypesRow}

mutual

/-- **A stored type is found again.** -/
theorem BaseType.getObjectByOId_stored : ∀ (t : BaseType) {c : ContentType} {fuel : ℕ},
    t.StoredAs rows c → t.depth ≤ fuel → getObjectByOId (readFromDb rows fuel) c = some t.infoUnsigned
  | .atomic a, c, fuel, h, _ => by
    cases h with
    | atomic => rfl
  | .struct es, c, 0, _, hfuel => by
    rw [BaseType.depth] at hfuel
    exact absurd hfuel (Nat.not_succ_le_zero _)
  | .struct es, c, fuel + 1, h, hfuel => by
    rw [BaseType.depth] at hfuel
    cases h with
    | @struct _ contents id hstored hperm =>
      have hread := es.foldlM_stored hstored (Nat.le_of_succ_le_succ hfuel) id 0 .new
      have hnew : new.cutNames = new := rfl
      rw [getObjectByOId, readFromDb, selectRows_eq hperm, ← hnew, hread, BaseType.infoUnsigned]
      rfl

/-- The rounds of `readFromDb` add the elements. -/
theorem Elements.foldlM_stored : ∀ (es : Elements) {contents : List ContentType} {fuel : ℕ},
    es.StoredAs rows contents → es.depth ≤ fuel → ∀ (id count : ℕ) (s : StructType),
      (insertedRows id count (es.names.zip contents)).foldlM (addRow (readFromDb rows fuel)) s.cutNames =
        some (es.addPriv s).cutNames
  | .last n t, contents, fuel, h, hfuel, id, count, s => by
    rw [Elements.depth] at hfuel
    cases h with
    | @last _ _ c htype =>
      have hobject := t.getObjectByOId_stored htype hfuel
      simp only [Elements.names, List.zip_cons_cons, List.zip_nil_left, insertedRows, List.foldlM_cons,
        List.foldlM_nil, addRow, hobject, Elements.addPriv, cutNames_addElementPriv]
      rfl
  | .cons n t rest, contents, fuel, h, hfuel, id, count, s => by
    rw [Elements.depth] at hfuel
    cases h with
    | @cons _ _ c _ contents htype hothers =>
      have hobject := t.getObjectByOId_stored htype ((le_max_left ..).trans hfuel)
      have hrest := rest.foldlM_stored hothers ((le_max_right ..).trans hfuel) id (count + 1)
        (s.addElementPriv n t.infoUnsigned)
      rw [Elements.addPriv, ← hrest, cutNames_addElementPriv]
      simp only [Elements.names, List.zip_cons_cons, insertedRows, List.foldlM_cons, addRow, hobject]
      rfl

end

theorem Elements.insertedRows_ne_nil {es : Elements} {contents : List ContentType}
    (h : es.StoredAs rows contents) (id count : ℕ) : insertedRows id count (es.names.zip contents) ≠ [] := by
  cases h <;> rintro ⟨⟩

/-- The rows of a struct that is stored are those of its object id, also in a table with other rows. -/
theorem filter_insertInDb {rows table : List BaseTypesRow} {elements : List (List Char × ContentType)}
    {id : ℕ} (hnew : ∀ r ∈ rows, r.baseTypeId ≠ id) (hperm : table.Perm (insertInDb id elements rows))
    (id' : ℕ) : (table.filter (·.baseTypeId == id')).Perm
      (if id' = id then insertedRows id 0 elements else rows.filter (·.baseTypeId == id')) := by
  refine (hperm.filter _).trans (List.Perm.of_eq ?_)
  rw [insertInDb, List.filter_append]
  split
  · next heq =>
    subst heq
    rw [List.filter_eq_nil_iff.mpr fun r hr => by simpa using hnew r hr, List.nil_append]
    exact List.filter_eq_self.mpr fun r hr => by simpa using (baseTypeId_of_mem_insertedRows hr).1
  · next hne =>
    have hnone : ∀ r ∈ insertedRows id 0 elements, ¬(r.baseTypeId == id') = true := fun r hr => by
      rw [(baseTypeId_of_mem_insertedRows hr).1, beq_iff_eq]
      exact Ne.symm hne
    rw [List.filter_eq_nil_iff.mpr hnone, List.append_nil]

mutual

/-- What is stored stays stored. -/
theorem BaseType.StoredAs.insertInDb {table : List BaseTypesRow} {id : ℕ}
    {elements : List (List Char × ContentType)} (hnew : ∀ r ∈ rows, r.baseTypeId ≠ id)
    (hperm : table.Perm (StructType.insertInDb id elements rows)) : ∀ {t : BaseType} {c : ContentType},
      t.StoredAs rows c → t.StoredAs table c
  | _, _, .atomic a => .atomic a
  | _, _, @BaseType.StoredAs.struct _ es contents id' hstored hrows => by
    refine .struct (hstored.insertInDb hnew hperm) ?_
    have hfilter := filter_insertInDb hnew hperm id'
    rw [if_neg] at hfilter
    · exact hfilter.trans hrows
    · rintro rfl
      obtain ⟨r, hr⟩ := List.exists_mem_of_ne_nil _ (Elements.insertedRows_ne_nil hstored _ 0)
      exact hnew r (List.mem_of_mem_filter (hrows.mem_iff.mpr hr)) (baseTypeId_of_mem_insertedRows hr).1

theorem Elements.StoredAs.insertInDb {table : List BaseTypesRow} {id : ℕ}
    {elements : List (List Char × ContentType)} (hnew : ∀ r ∈ rows, r.baseTypeId ≠ id)
    (hperm : table.Perm (StructType.insertInDb id elements rows)) : ∀ {es : Elements}
      {contents : List ContentType}, es.StoredAs rows contents → es.StoredAs table contents
  | _, _, .last htype => .last (htype.insertInDb hnew hperm)
  | _, _, .cons htype hothers => .cons (htype.insertInDb hnew hperm) (hothers.insertInDb hnew hperm)

end

/-- **A struct that is stored is rebuilt with its offsets and its size.** -/
theorem Elements.rebuilt (es : Elements) {contents : List ContentType} {id : ℕ}
    (hstored : es.StoredAs rows contents) (hnew : ∀ r ∈ rows, r.baseTypeId ≠ id)
    {table : List BaseTypesRow} (hperm : table.Perm (insertInDb id (es.names.zip contents) rows)) :
    ∃ fuel s, readFromDb table fuel id = some s ∧ s.offsets = es.built.offsets ∧
      s.size = es.built.size := by
  have hrows := filter_insertInDb hnew hperm id
  rw [if_pos rfl] at hrows
  have hread := es.foldlM_stored (hstored.insertInDb hnew hperm) le_rfl id 0 .new
  refine ⟨es.depth + 1, es.built.cutNames, ?_, ?_, rfl⟩
  · rw [readFromDb, selectRows_eq hrows]
    exact hread
  · rw [offsets, offsets, cutNames, List.map_map]
    rfl

end Rebuilding

/-! ## The layout in `unsigned int`

An offset that is rounded up wraps only to 0, and 0 does not lie behind an element.
-/

theorem alignUnsigned_eq {x a : ℕ} (hx : 0 < x) (hlt : x < 2 ^ 32) :
    alignUnsigned x a = alignUp x a % 2 ^ 32 := by
  have hpred : (x + (2 ^ 32 - 1)) % 2 ^ 32 = x - 1 := by omega
  rw [alignUnsigned, alignUp, hpred]

theorem alignUnsigned_of_lt {x a : ℕ} (ha : IsAlignment a) (hx : 0 < x) (h : alignUp x a < 2 ^ 32) :
    alignUnsigned x a = alignUp x a := by
  rw [alignUnsigned_eq hx ((le_alignUp ha.pos).trans_lt h), Nat.mod_eq_of_lt h]

/-- What is rounded up and not below what it was has not wrapped. -/
theorem alignUp_lt_of_le {x a : ℕ} (ha : IsAlignment a) (hx : 0 < x) (hlt : x < 2 ^ 32)
    (h : x ≤ alignUnsigned x a) : alignUp x a < 2 ^ 32 := by
  rw [alignUnsigned_eq hx hlt] at h
  have hle : alignUp x a ≤ 2 ^ 32 := by
    rw [alignUp]
    rcases ha with rfl | rfl | rfl <;> omega
  rcases hle.lt_or_eq with hlt' | heq
  · exact hlt'
  · rw [heq, Nat.mod_self] at h
    omega

/-- The elements are told the sizes that they would have without a bound. -/
def Elements.InfosFit : Elements → Prop
  | .last _ t => t.infoUnsigned = t.info
  | .cons _ t rest => t.infoUnsigned = t.info ∧ rest.InfosFit

/-- The elements that follow one that ends at `e`, as `addElementPriv` places them. -/
def Elements.alignedPriv : Elements → (e : ℕ) → List StructElement
  | .last n t, e => [⟨t.info, n, alignUnsigned e t.alignOf⟩]
  | .cons n t rest, e =>
    ⟨t.info, n, alignUnsigned e t.alignOf⟩ :: rest.alignedPriv (alignUnsigned e t.alignOf + t.getSize)

/-- `addElementPriv` after the first element. -/
theorem StructType.addElementPriv_cons {s : StructType} (hs : s.elements ≠ []) (halign : 0 < s.align)
    (n : List Char) (t : BaseType) :
    (s.addElementPriv n t.info).elements =
        s.elements ++ [⟨t.info, n, alignUnsigned (endOf s.elements) t.alignOf⟩] ∧
      (s.addElementPriv n t.info).align = max s.align t.alignOf := by
  rw [addElementPriv, if_neg hs]
  cases t with
  | struct es =>
    have hinfo := (BaseType.struct es).info_alignment (by rw [BaseType.info])
    rw [if_pos (by rw [BaseType.info]), hinfo]
    exact ⟨rfl, rfl⟩
  | atomic a =>
    have hone : alignUnsigned (endOf s.elements) 1 = endOf s.elements % 2 ^ 32 := by
      rw [alignUnsigned]
      omega
    have hmax : max s.align 1 = s.align := max_eq_left halign
    cases a <;>
      simp [BaseType.info, BaseType.alignOf, AtomicType.size, calcSizeUnsigned, hone, hmax]

/-- **Elements added to a struct that has some.** -/
theorem Elements.addPriv_spec : ∀ (es : Elements) (s : StructType), es.InfosFit → s.elements ≠ [] →
    0 < s.align → (es.addPriv s).elements = s.elements ++ es.alignedPriv (StructType.endOf s.elements) ∧
      (es.addPriv s).align = max s.align es.alignOf
  | .last n t, s, hfit, hs, halign => by
    rw [Elements.InfosFit] at hfit
    rw [Elements.addPriv, Elements.alignedPriv, Elements.alignOf, hfit]
    exact s.addElementPriv_cons hs halign n t
  | .cons n t rest, s, hfit, hs, halign => by
    rw [Elements.InfosFit] at hfit
    obtain ⟨helems, halign'⟩ := s.addElementPriv_cons hs halign n t
    have hend : StructType.endOf (s.addElementPriv n t.info).elements =
        alignUnsigned (StructType.endOf s.elements) t.alignOf + t.getSize := by
      rw [helems, StructType.endOf_append, BaseType.getSize]
    obtain ⟨hrest, hmax⟩ := rest.addPriv_spec (s.addElementPriv n t.info) hfit.2
      (by rw [helems]; simp) (by rw [halign']; exact lt_max_of_lt_left halign)
    rw [Elements.addPriv, Elements.alignedPriv, Elements.alignOf, hfit.1]
    refine ⟨?_, by rw [hmax, halign', max_assoc]⟩
    rw [hrest, hend, helems, List.append_assoc, List.singleton_append]

theorem StructType.addElementPriv_first (n : List Char) (i : TypeInfo) :
    (new.addElementPriv n i).elements = [⟨i, n, 0⟩] ∧ (new.addElementPriv n i).align = 1 := by
  rw [addElementPriv, if_pos (by rw [new]), calcSizeUnsigned]
  exact ⟨rfl, rfl⟩

theorem StructType.addElementPriv_size (s : StructType) (n : List Char) (i : TypeInfo) :
    (s.addElementPriv n i).size = alignUnsigned (endOf (s.addElementPriv n i).elements)
      (alignSize (s.addElementPriv n i).elements 1) := by
  rw [addElementPriv, calcSizeUnsigned]

/-- The size of the struct that is built. -/
theorem Elements.addPriv_size : ∀ (es : Elements) (s : StructType), (es.addPriv s).size =
    alignUnsigned (StructType.endOf (es.addPriv s).elements)
      (StructType.alignSize (es.addPriv s).elements 1)
  | .last n t, s => by
    rw [Elements.addPriv]
    exact s.addElementPriv_size n t.infoUnsigned
  | .cons n t rest, s => by
    rw [Elements.addPriv]
    exact rest.addPriv_size _

theorem Elements.built_last {n : List Char} {t : BaseType} (hfit : (Elements.last n t).InfosFit) :
    (Elements.last n t).built.elements = [⟨t.info, n, 0⟩] ∧ (Elements.last n t).built.align = 1 := by
  rw [InfosFit] at hfit
  rw [built, addPriv, hfit]
  exact StructType.addElementPriv_first n t.info

theorem Elements.built_cons {n : List Char} {t : BaseType} {rest : Elements}
    (hfit : (Elements.cons n t rest).InfosFit) :
    (Elements.cons n t rest).built.elements = ⟨t.info, n, 0⟩ :: rest.alignedPriv t.getSize ∧
      (Elements.cons n t rest).built.align = rest.alignOf := by
  rw [InfosFit] at hfit
  obtain ⟨hfirst, hone⟩ := StructType.addElementPriv_first n t.info
  obtain ⟨helems, halign⟩ := rest.addPriv_spec (StructType.new.addElementPriv n t.info) hfit.2
    (by rw [hfirst]; exact List.cons_ne_nil _ _) (by rw [hone]; exact Nat.one_pos)
  have hend : StructType.endOf [⟨t.info, n, 0⟩] = t.getSize := Nat.zero_add _
  rw [built, addPriv, hfit.1, helems, halign, hfirst, hone, hend]
  exact ⟨List.singleton_append, max_eq_right rest.alignOf_pos⟩

/-- Elements that end below 2^32 are placed as they would be without a bound. -/
theorem Elements.alignedPriv_eq : ∀ (es : Elements) {e : ℕ}, 0 < e → es.alignedEnd e < 2 ^ 32 →
    es.alignedPriv e = es.aligned e
  | .last n t, e, he, hend => by
    rw [Elements.alignedEnd] at hend
    rw [Elements.alignedPriv, Elements.aligned,
      alignUnsigned_of_lt t.alignOf_spec.1 he ((Nat.le_add_right ..).trans_lt hend)]
  | .cons n t rest, e, he, hend => by
    rw [Elements.alignedEnd] at hend
    have hnext := (Nat.le_add_right ..).trans_lt ((rest.le_alignedEnd _).trans_lt hend)
    rw [Elements.alignedPriv, Elements.aligned, alignUnsigned_of_lt t.alignOf_spec.1 he hnext,
      rest.alignedPriv_eq (Nat.lt_add_left _ t.getSize_pos) hend]

/-- **Elements that lie one behind the other, each below 2^32, have not wrapped.** -/
theorem Elements.alignedPriv_fits : ∀ (es : Elements) {e : ℕ}, 0 < e → e < 2 ^ 32 →
    (∀ x ∈ es.alignedPriv e, e ≤ x.offset ∧ x.offset + x.type.size < 2 ^ 32) →
    (es.alignedPriv e).Pairwise (fun x y => x.offset + x.type.size ≤ y.offset) →
      es.alignedEnd e < 2 ^ 32
  | .last n t, e, he, hlt, hmem, _ => by
    obtain ⟨hle, hend⟩ := hmem _ (by rw [Elements.alignedPriv]; exact List.mem_singleton_self _)
    have hfits := alignUp_lt_of_le t.alignOf_spec.1 he hlt hle
    rw [alignUnsigned_of_lt t.alignOf_spec.1 he hfits] at hend
    rw [Elements.alignedEnd]
    exact hend
  | .cons n t rest, e, he, hlt, hmem, hpair => by
    rw [Elements.alignedPriv] at hmem hpair
    obtain ⟨hfirst, hpair⟩ := List.pairwise_cons.mp hpair
    obtain ⟨⟨hle, hend⟩, hmem⟩ := List.forall_mem_cons.mp hmem
    have hfits := alignUp_lt_of_le t.alignOf_spec.1 he hlt hle
    rw [alignUnsigned_of_lt t.alignOf_spec.1 he hfits] at hfirst hend hmem hpair
    rw [Elements.alignedEnd]
    exact rest.alignedPriv_fits (Nat.lt_add_left _ t.getSize_pos) hend
      (fun x hx => ⟨hfirst x hx, (hmem x hx).2⟩) hpair

/-- The elements of the unbounded layout end before its size. -/
theorem Elements.endOf_structType (es : Elements) :
    0 < StructType.endOf es.structType.elements ∧
      StructType.endOf es.structType.elements ≤ es.structType.size := by
  have hpos : 0 < StructType.endOf es.structType.elements := by
    cases es with
    | last n t =>
      rw [structType_last]
      exact Nat.lt_add_left _ t.getSize_pos
    | cons n t rest =>
      rw [structType_cons, ← List.singleton_append, rest.endOf_append_aligned]
      exact t.getSize_pos.trans_le (rest.le_alignedEnd _)
  have hsize : es.structType.size = _ := es.addTo_size .new
  rw [hsize]
  exact ⟨hpos, le_alignUp (StructType.alignSize_pos _ Nat.one_pos)⟩

/-- What the size of a struct is rounded up to is one of the alignments. -/
theorem StructType.alignSize_isAlignment (es : List StructElement) {k : ℕ} (hk : IsAlignment k) :
    IsAlignment (alignSize es k) := by
  induction es generalizing k with
  | nil => exact hk
  | cons e es ih =>
    rw [alignSize]
    split_ifs
    · exact .inr (.inr rfl)
    · exact ih (.inr (.inl rfl))
    · exact ih hk

theorem StructType.endOf_mem {es : List StructElement} (h : es ≠ []) :
    ∃ e ∈ es, endOf es = e.offset + e.type.size := by
  refine ⟨es.getLast h, List.getLast_mem h, ?_⟩
  rw [endOf, List.getLast?_eq_some_getLast h]

/-- The elements of a struct that ends below 2^32 are placed as they would be without a bound. -/
theorem Elements.built_elements {es : Elements} (hfit : es.InfosFit)
    (hend : StructType.endOf es.structType.elements < 2 ^ 32) :
    es.built.elements = es.structType.elements := by
  cases es with
  | last n t => rw [(built_last hfit).1, structType_last]
  | cons n t rest =>
    rw [structType_cons, ← List.singleton_append, rest.endOf_append_aligned] at hend
    rw [(built_cons hfit).1, structType_cons, rest.alignedPriv_eq t.getSize_pos hend]

/-- **A struct whose size fits is built as it would be without a bound.** -/
theorem Elements.built_eq {es : Elements} (hfit : es.InfosFit) (hsize : es.structType.size < 2 ^ 32) :
    es.built = es.structType := by
  obtain ⟨hpos, hle⟩ := es.endOf_structType
  have helems := built_elements hfit (hle.trans_lt hsize)
  have halign : es.built.align = es.structType.align := by
    have hinfo := (BaseType.struct es).info_alignment (by rw [BaseType.info])
    rw [BaseType.info] at hinfo
    refine Eq.trans ?_ hinfo.symm
    cases es with
    | last n t => exact (built_last hfit).2
    | cons n t rest => exact (built_cons hfit).2
  have hsizes : es.built.size = es.structType.size := by
    have hideal : es.structType.size = _ := es.addTo_size .new
    have hbuilt : es.built.size = _ := es.addPriv_size .new
    have helems' : (es.addPriv .new).elements = (es.addTo .new).elements := helems
    rw [hideal] at hsize ⊢
    rw [hbuilt, helems']
    exact alignUnsigned_of_lt (StructType.alignSize_isAlignment _ (.inl rfl)) hpos hsize
  generalize es.built = s at helems halign hsizes ⊢
  cases s
  exact (StructType.mk.injEq ..).mpr ⟨helems, halign, hsizes⟩

/-- **A struct whose elements lie apart and inside has a size that fits.** -/
theorem Elements.size_lt {es : Elements} (hfit : es.InfosFit)
    (hapart : es.built.elements.Pairwise fun e e' => e.offset + e.type.size ≤ e'.offset)
    (hinside : ∀ e ∈ es.built.elements, e.offset + e.type.size ≤ es.built.size) :
    es.structType.size < 2 ^ 32 := by
  have hbuilt : es.built.size = _ := es.addPriv_size .new
  have hlt : es.built.size < 2 ^ 32 := by
    rw [hbuilt, alignUnsigned]
    exact Nat.mod_lt _ (by decide)
  -- no element reaches 2^32, so none has wrapped
  have hend : StructType.endOf es.structType.elements < 2 ^ 32 := by
    cases es with
    | last n t =>
      have hle := hinside ⟨t.info, n, 0⟩ (by rw [(built_last hfit).1]; exact List.mem_singleton_self _)
      rw [structType_last]
      exact hle.trans_lt hlt
    | cons n t rest =>
      rw [(built_cons hfit).1] at hapart hinside
      obtain ⟨hfirst, hapart⟩ := List.pairwise_cons.mp hapart
      obtain ⟨hle, hinside⟩ := List.forall_mem_cons.mp hinside
      rw [Nat.zero_add] at hle
      rw [structType_cons, ← List.singleton_append, rest.endOf_append_aligned]
      refine rest.alignedPriv_fits t.getSize_pos (hle.trans_lt hlt) (fun x hx => ⟨?_, ?_⟩) hapart
      · exact (Nat.zero_add _).symm.le.trans (hfirst x hx)
      · exact (hinside x hx).trans_lt hlt
  have helems := built_elements hfit hend
  have hne : es.built.elements ≠ [] := by
    cases es with
    | last n t => simp [(built_last hfit).1]
    | cons n t rest => simp [(built_cons hfit).1]
  obtain ⟨e, he, heq⟩ := StructType.endOf_mem hne
  have hle := hinside e he
  have helems' : (es.addPriv .new).elements = (es.addTo .new).elements := helems
  have hideal : es.structType.size = _ := es.addTo_size .new
  rw [← heq, helems, hbuilt, helems'] at hle
  rw [hideal]
  exact alignUp_lt_of_le (StructType.alignSize_isAlignment _ (.inl rfl)) es.endOf_structType.1 hend hle

/-! ## Nested structs -/

/-- The sizes of the elements fit. -/
def Elements.SizesFit : Elements → Prop
  | .last _ t => t.getSize < 2 ^ 32
  | .cons _ t rest => t.getSize < 2 ^ 32 ∧ rest.SizesFit

theorem Elements.sizesFit_of_alignedEnd : ∀ (es : Elements) {e : ℕ}, es.alignedEnd e < 2 ^ 32 →
    es.SizesFit
  | .last n t, e, h => by
    rw [Elements.alignedEnd] at h
    exact (Nat.le_add_left ..).trans_lt h
  | .cons n t rest, e, h => by
    rw [Elements.alignedEnd] at h
    exact ⟨(Nat.le_add_left ..).trans_lt ((rest.le_alignedEnd _).trans_lt h),
      rest.sizesFit_of_alignedEnd h⟩

/-- The elements of a struct whose size fits have sizes that fit. -/
theorem Elements.sizesFit {es : Elements} (h : es.structType.size < 2 ^ 32) : es.SizesFit := by
  have hend := es.endOf_structType.2.trans_lt h
  cases es with
  | last n t =>
    rw [structType_last] at hend
    exact (Nat.zero_add _).symm.le.trans_lt hend
  | cons n t rest =>
    rw [structType_cons, ← List.singleton_append, rest.endOf_append_aligned] at hend
    exact ⟨(rest.le_alignedEnd _).trans_lt hend, rest.sizesFit_of_alignedEnd hend⟩

mutual

/-- What a struct is told about a type whose size fits. -/
theorem BaseType.infoUnsigned_eq : ∀ {t : BaseType}, t.getSize < 2 ^ 32 → t.infoUnsigned = t.info
  | .atomic a, _ => by rw [BaseType.infoUnsigned, BaseType.info]
  | .struct es, h => by
    rw [BaseType.getSize, BaseType.info] at h
    have hbuilt : es.addPriv .new = es.addTo .new :=
      Elements.built_eq (Elements.infosFit (Elements.sizesFit h)) h
    rw [BaseType.infoUnsigned, BaseType.info, hbuilt]

theorem Elements.infosFit : ∀ {es : Elements}, es.SizesFit → es.InfosFit
  | .last n t, h => by
    rw [Elements.SizesFit] at h
    exact BaseType.infoUnsigned_eq h
  | .cons n t rest, h => by
    rw [Elements.SizesFit] at h
    exact ⟨BaseType.infoUnsigned_eq h.1, Elements.infosFit h.2⟩

end

/-- A struct whose size fits is built as without a bound, whatever is nested in it. -/
theorem Elements.built_eq_structType {es : Elements} (h : es.structType.size < 2 ^ 32) :
    es.built = es.structType := built_eq (infosFit (sizesFit h)) h

mutual

/-- The values of a type whose size fits are where they would be without a bound. -/
theorem BaseType.placesBuilt_eq : ∀ {t : BaseType}, t.getSize < 2 ^ 32 → ∀ base : ℕ,
    t.placesBuilt base = t.places base
  | .atomic a, _, base => by rw [BaseType.placesBuilt, BaseType.places]
  | .struct es, h, base => by
    rw [BaseType.getSize, BaseType.info] at h
    rw [BaseType.placesBuilt, BaseType.places, Elements.built_eq_structType h,
      Elements.placesBuilt_eq (Elements.sizesFit h)]

theorem Elements.placesBuilt_eq : ∀ {es : Elements}, es.SizesFit → ∀ (offsets : List ℕ) (base : ℕ),
    es.placesBuilt offsets base = es.places offsets base
  | .last n t, h, offsets, base => by
    rw [Elements.SizesFit] at h
    rw [Elements.placesBuilt, Elements.places, BaseType.placesBuilt_eq h]
  | .cons n t rest, h, offsets, base => by
    rw [Elements.SizesFit] at h
    rw [Elements.placesBuilt, Elements.places, BaseType.placesBuilt_eq h.1,
      Elements.placesBuilt_eq h.2]

end

mutual

/-- **A type with a sound layout has a size that fits.** -/
theorem BaseType.getSize_lt_of_sound : ∀ {t : BaseType}, t.SoundLayout → t.getSize < 2 ^ 32
  | .atomic a, _ => by
    rw [BaseType.getSize, BaseType.info]
    cases a <;> decide
  | .struct es, h => by
    rw [BaseType.SoundLayout] at h
    rw [BaseType.getSize, BaseType.info]
    exact Elements.size_lt (Elements.infosFit (Elements.sizesFit_of_sound h.2)) h.1.apart h.1.inside

theorem Elements.sizesFit_of_sound : ∀ {es : Elements}, es.SoundLayouts → es.SizesFit
  | .last n t, h => by
    rw [Elements.SoundLayouts] at h
    exact BaseType.getSize_lt_of_sound h
  | .cons n t rest, h => by
    rw [Elements.SoundLayouts] at h
    exact ⟨BaseType.getSize_lt_of_sound h.1, Elements.sizesFit_of_sound h.2⟩

end

/-! ## Soundness and alignment -/

/-- A struct whose size fits is sound exactly when its cells are aligned. -/
theorem Elements.sound_iff {es : Elements} (h : es.structType.size < 2 ^ 32) :
    es.Sound ↔ es.CellAligned := by
  have hbuilt := built_eq_structType h
  have hplaces : ∀ base, (BaseType.struct es).placesBuilt base = (BaseType.struct es).places base :=
    BaseType.placesBuilt_eq (by rwa [BaseType.getSize, BaseType.info])
  have hlargest : (BaseType.struct es).largestAlignment = es.neededAlign :=
    BaseType.largestAlignment_eq _
  constructor
  · intro hsound
    have haligned := hsound.aligned
    have hsize := hsound.sizeAligned
    rw [hplaces] at haligned
    rw [hlargest, hbuilt] at hsize
    exact ⟨haligned, hsize⟩
  · rintro ⟨haligned, hsize⟩
    obtain ⟨hmem, hpair⟩ := es.structType_ordered
    rw [← hbuilt] at hmem hpair hsize
    refine ⟨?_, hpair, fun e he => (hmem e he).2, ?_, ?_, fun cell => ?_, ?_⟩
    · rw [StructType.offsets, List.pairwise_map]
      refine hpair.imp_of_mem fun he _ hle => ?_
      have hpos := (hmem _ he).1
      omega
    · rw [hplaces]
      exact haligned
    · rw [hlargest]
      exact hsize
    · rw [hplaces]
      exact (BaseType.aligned_iff haligned _).mpr (hsize.mul_left cell)
    · exact fun rows contents id hstored hnew table hperm => es.rebuilt hstored hnew hperm

mutual

/-- A type whose size fits is sound, with the structs in it, exactly when their cells are aligned. -/
theorem BaseType.soundLayout_iff : ∀ {t : BaseType}, t.getSize < 2 ^ 32 →
    (t.SoundLayout ↔ t.AlignedLayout)
  | .atomic a, _ => by rw [BaseType.SoundLayout, BaseType.AlignedLayout]
  | .struct es, h => by
    rw [BaseType.getSize, BaseType.info] at h
    rw [BaseType.SoundLayout, BaseType.AlignedLayout, Elements.sound_iff h,
      Elements.soundLayouts_iff (Elements.sizesFit h)]

theorem Elements.soundLayouts_iff : ∀ {es : Elements}, es.SizesFit →
    (es.SoundLayouts ↔ es.AlignedLayouts)
  | .last n t, h => by
    rw [Elements.SizesFit] at h
    rw [Elements.SoundLayouts, Elements.AlignedLayouts, BaseType.soundLayout_iff h]
  | .cons n t rest, h => by
    rw [Elements.SizesFit] at h
    rw [Elements.SoundLayouts, Elements.AlignedLayouts, BaseType.soundLayout_iff h.1,
      Elements.soundLayouts_iff h.2]

end

end Rasdaman
